import Mathlib.Data.List.Nodup
import OsFree.Kal.FreeLoop

/-!
# Freeing memory

`kalFreeMem` frees the first area of the list that contains an address or ends
there, whether the address is its base or not, and the head of the list is not
changed.
-/

namespace OsFree.Kal

open Machine

namespace Client

/-- The region is in an area. -/
def Inside (area : VmData) (region : Region) : Prop :=
  area.addr ≤ region.start ∧ region.stop ≤ area.stop

/-- An area has a reserved range of its own, to which only dataspaces are
attached. -/
structure GoodArea (client : Client) (area : VmData) : Prop where
  positive : 0 < area.addr
  nonempty : 0 < area.size
  small : area.stop < 2 ^ 32
  shared : ∃ shared, area.isShared = some shared
  owned : ∃ owner, area.owner = some owner
  reserved : ∃ reservation ∈ client.map.reserved,
    reservation.start = area.addr ∧ reservation.stop = area.stop
  regions : ∀ region ∈ client.map.attached, (Inside area region ∧ region.ds.isSome) ∨
      region.stop ≤ area.addr ∨ area.stop ≤ region.start

/-- The areas of a client are linked and do not overlap, and a dataspace is
attached once. -/
structure Sound (client : Client) (addresses : List Nat) : Prop where
  linked : client.areas.WellLinked client.areasList addresses
  good : ∀ ptr ∈ addresses, ∀ area, client.areas.objects ptr = some area → client.GoodArea area
  apart : ∀ ptr ∈ addresses, ∀ other ∈ addresses, ∀ area area',
    client.areas.objects ptr = some area →
    client.areas.objects other = some area' →
      ptr = other ∨ area.stop ≤ area'.addr ∨ area'.stop ≤ area.addr
  once : ∀ region ∈ client.map.attached, ∀ other ∈ client.map.attached,
    ∀ ds, region.ds = some ds → other.ds = some ds → region = other

/-- The dataspaces in the area are detached and the area is taken out of the
list; everything else is kept. -/
structure FreesArea (addresses : List Nat) (ptr : Nat) (area : VmData)
    (client client' : Client) : Prop where
  detached : ∀ region, region ∈ client'.map.attached ↔
    region ∈ client.map.attached ∧ ¬ Inside area region
  removed : client'.areas.WellLinked client'.areasList (addresses.erase ptr)
  others : ∀ other ∈ addresses, other ≠ ptr → client.areas.SameData client'.areas other
  bytes : ∀ addr, addr < area.addr ∨ area.stop ≤ addr → client'.byteAt addr = client.byteAt addr

/-- The address is the base of an area. -/
def IsBase (client : Client) (addresses : List Nat) (pb : Nat) : Prop :=
  ∃ ptr ∈ addresses, ∃ area, client.areas.objects ptr = some area ∧ area.addr = pb

/-- Freeing the base of an area frees this area, and freeing any other address
changes nothing. -/
def FreesExactly (client : Client) (addresses : List Nat) (answer : UInt32) (pb : Nat) : Prop :=
  (∀ ptr ∈ addresses, ∀ area, client.areas.objects ptr = some area →
    area.addr = pb → ∃ fuel rc client',
      client.kalFreeMem answer pb fuel = some (.ok (rc, client')) ∧
        FreesArea addresses ptr area client client') ∧
    (¬ client.IsBase addresses pb → ∃ fuel rc,
      client.kalFreeMem answer pb fuel = some (.ok (rc, client)))

/-- The search for an address finds this area. -/
def FindsArea (client : Client) (pb ptr : Nat) (area : VmData) : Prop :=
  (∃ fuel, client.areas.getArea client.areasList pb fuel =
    some (.ok (some ptr))) ∧ client.areas.objects ptr = some area

/-- If an area is found, the address is its base, it is not the head of the
list, there are no further references to it, and nothing is attached directly
behind it.  Or nothing is to be freed: there is a private area without
dataspaces, and the call is ended by a region of another kind behind it. -/
def Freeable (client : Client) (addresses : List Nat) (answer : UInt32) (pb : Nat) : Prop :=
  ∀ ptr area, client.FindsArea pb ptr area → (area.addr = pb ∧ client.areasList ≠ some ptr ∧
      (area.isShared = some true → answer = 0) ∧
      client.map.regionAt area.stop = none) ∨
    (¬ client.IsBase addresses pb ∧ area.isShared = some false ∧
      (∀ region ∈ client.map.attached, ¬ Inside area region) ∧
      Blocked area client)

variable {client client' : Client} {addresses : List Nat} {ptr pb : Nat}
  {area : VmData} {answer : UInt32}

theorem GoodArea.standsAt (good : client.GoodArea area) (shared : Bool) (request : Request) :
    StandsAt area area.addr (client.sendIf shared request) := by
  have map : (client.sendIf shared request).map = client.map := by
    rcases sendIf_cases client shared request with same | sent
    · rw [same]
    · rw [sent]
      rfl
  refine
    { small := good.small, positive := good.positive, lower := Nat.le_refl _
      upper := Nat.le_add_right .., owned := good.owned, reserved := ?_
      cut := ?_, inside := ?_ }
  · rw [map]
    obtain ⟨reservation, member, -, stop⟩ := good.reserved
    exact ⟨reservation, member, stop⟩
  · rw [map]
    intro region member
    rcases good.regions region member with ⟨inside, -⟩ | before | behind
    · exact Or.inr inside.1
    · exact Or.inl before
    · exact Or.inr (Nat.le_trans (Nat.le_add_right ..) behind)
  · rw [map]
    intro region member lower upper
    rcases good.regions region member with ⟨inside, isSome⟩ | before | behind
    · exact ⟨isSome, inside.2⟩
    · have positive := client.map.positive region member
      unfold Region.stop at before
      omega
    · omega

/-- The state after the area has been found: its dataspaces are detached, and
its record is freed unless something is in the way. -/
def Outcome (client : Client) (answer : UInt32) (ptr : Nat) (area : VmData)
    (shared : Bool) (client' : Client) : Prop :=
  ∃ after, Freed area area.addr (client.sendIf shared (.releaseSharedMem area.addr)) after ∧
    ((Blocked area client ∨ shared = true ∧ answer ≠ 0) ∧ client' = after ∨
      (¬ Blocked area client ∧ (shared = true → answer = 0)) ∧
        ∃ areas map, client.areas.unlink ptr = .ok areas ∧ map.attached = after.map.attached ∧
          client' = { after with map, areas })

theorem GoodArea.release (good : client.GoodArea area) {map : RegionMap}
    (same : map.reserved = client.map.reserved) :
    ∃ released, map.release area.addr = some released ∧
      released.attached = map.attached := by
  obtain ⟨reservation, member, start, stop⟩ := good.reserved
  have has : reservation.Has area.addr := by
    refine ⟨Nat.le_of_eq start, ?_⟩
    rw [stop]
    exact Nat.lt_add_of_pos_right good.nonempty
  unfold RegionMap.release
  rw [same, if_pos (List.any_eq_true.mpr ⟨reservation, member, decide_eq_true has⟩)]
  exact ⟨_, rfl, rfl⟩

theorem sendIf_areas (client : Client) (shared : Bool) (request : Request) :
    (client.sendIf shared request).areas = client.areas ∧
      (client.sendIf shared request).areasList = client.areasList ∧
      (client.sendIf shared request).map = client.map ∧
      (client.sendIf shared request).dataspaces = client.dataspaces := by
  rcases sendIf_cases client shared request with same | sent
  · rw [same]
    exact ⟨rfl, rfl, rfl, rfl⟩
  · rw [sent]
    exact ⟨rfl, rfl, rfl, rfl⟩

section

variable (sound : client.Sound addresses)

include sound

theorem Sound.unlinks (member : ptr ∈ addresses) :
    ∃ areas, client.areas.unlink ptr = .ok areas := by
  obtain ⟨front, back, rfl⟩ := List.append_of_mem member
  obtain ⟨areas, head, unlinked, -⟩ := Areas.unlink_linked sound.linked
  exact ⟨areas, unlinked⟩

theorem freeArea_settles (member : ptr ∈ addresses) (found : client.areas.objects ptr = some area)
    (shared : Bool) (answer : UInt32) :
    ∃ rc client', Settles (fun fuel => client.freeArea
        (if shared then answer else 0) fuel ptr area shared)
        (.ok (rc, client')) ∧
      Outcome client answer ptr area shared client' := by
  have good := sound.good ptr member area found
  obtain ⟨areasEq, listEq, mapEq, -⟩ := sendIf_areas client shared (.releaseSharedMem area.addr)
  obtain ⟨result, after, settles, freed, ends⟩ :=
    freeLoop_settles (good.standsAt shared (.releaseSharedMem area.addr))
  have blocked : Blocked area (client.sendIf shared (.releaseSharedMem area.addr)) ↔
        Blocked area client := by
    unfold Blocked
    rw [mapEq]
  unfold Ends at ends
  rw [blocked] at ends
  rcases ends with ⟨rfl, open'⟩ | ⟨rfl, blocked⟩
  · have afterAreas : after.areas = client.areas := freed.areas.trans areasEq
    have afterReserved : after.map.reserved = client.map.reserved := by
      rw [freed.reserved, mapEq]
    by_cases last : (if shared then answer else 0) = 0
    · obtain ⟨map, released, attached⟩ := good.release afterReserved
      obtain ⟨areas, unlinked⟩ := sound.unlinks member
      refine ⟨0, { after with map, areas }, settles.andThen ?_, after, freed,
        Or.inr ⟨⟨open', ?_⟩, areas, map, unlinked, attached, rfl⟩⟩
      · have finished : after.finishFree ptr area (if shared then answer else 0) =
              .ok (0, { after with map, areas }) := by
          unfold finishFree
          rw [if_pos last, released, afterAreas, unlinked]
          rfl
        rw [← finished]
        exact Settles.const _
      · rintro rfl
        exact last
    · refine ⟨0, after, settles.andThen ?_, after, freed, Or.inl ⟨Or.inr ?_, rfl⟩⟩
      · have finished : after.finishFree ptr area
            (if shared then answer else 0) = .ok (0, after) := if_neg last
        rw [← finished]
        exact Settles.const _
      · cases shared with
        | false => exact absurd rfl last
        | true => exact ⟨rfl, last⟩
  · exact ⟨487, after, settles.andThen (Settles.const _), after, freed,
      Or.inl ⟨Or.inl blocked, rfl⟩⟩

theorem kalFreeMem_settles (answer : UInt32) (pb : Nat) :
    ∃ rc client', Settles (client.kalFreeMem answer pb) (.ok (rc, client')) ∧
      ((addresses.find? (client.areas.containsAt pb) = none ∧ client' = client) ∨
        ∃ ptr area shared, addresses.find? (client.areas.containsAt pb) = some ptr ∧
          client.areas.objects ptr = some area ∧
          area.isShared = some shared ∧
          Outcome client answer ptr area shared client') := by
  have settles := Areas.getArea_settles sound.linked pb
  cases found : addresses.find? (client.areas.containsAt pb) with
  | none =>
    rw [found] at settles
    exact ⟨487, client, settles.andThen (Settles.const _), Or.inl ⟨rfl, rfl⟩⟩
  | some ptr =>
    rw [found] at settles
    have member := List.mem_of_find?_eq_some found
    obtain ⟨area, live⟩ := Areas.live_of_linked sound.linked ptr member
    obtain ⟨shared, isShared⟩ := (sound.good ptr member area live).shared
    obtain ⟨rc, client', freed, outcome⟩ := freeArea_settles sound member live shared answer
    refine ⟨rc, client', settles.andThen ?_,
      Or.inr ⟨ptr, area, shared, rfl, live, isShared, outcome⟩⟩
    simp only [Heap.read_of_live live]
    refine (Settles.const (.ok area)).andThen ?_
    simp only [isShared]
    exact (Settles.const (.ok shared)).andThen freed

theorem Sound.unlinked (member : ptr ∈ addresses) {areas : Areas}
    (unlinked : client.areas.unlink ptr = .ok areas) :
    areas.objects ptr = none ∧ (client.areasList ≠ some ptr →
        areas.WellLinked client.areasList (addresses.erase ptr)) ∧
      ∀ other, other ≠ ptr → client.areas.SameData areas other := by
  have nodup := Areas.nodup_of_linked sound.linked
  have head := sound.linked.head_eq
  obtain ⟨front, back, parts⟩ := List.append_of_mem member
  have linked := sound.linked
  rw [parts] at linked nodup head
  obtain ⟨areas', head', unlinked', linked', sameHead, freed, -, data⟩ := Areas.unlink_linked linked
  rw [unlinked] at unlinked'
  cases unlinked'
  have outside : ptr ∉ front := fun inFront => (List.nodup_cons.mp (List.nodup_middle.mp nodup)).1
      (List.mem_append_left back inFront)
  refine ⟨freed, fun notHead => ?_, data⟩
  rw [parts, List.erase_append_right _ outside, List.erase_cons_head]
  have inside : front ≠ [] := by
    rintro rfl
    exact notHead head
  rw [sameHead inside] at linked'
  exact linked'

end

theorem GoodArea.detaches_iff (good : client.GoodArea area) {region : Region}
    (member : region ∈ client.map.attached) :
    area.Detaches area.addr region ↔
      Inside area region ∨ (region.start = area.stop ∧ region.ds.isSome) := by
  have positive := client.map.positive region member
  constructor
  · rintro ⟨lower, upper, isSome⟩
    rcases good.regions region member with ⟨inside, -⟩ | before | behind
    · exact Or.inl inside
    · unfold Region.stop at before
      omega
    · exact Or.inr ⟨Nat.le_antisymm upper behind, isSome⟩
  · rintro (inside | ⟨start, isSome⟩)
    · rcases good.regions region member with ⟨-, isSome⟩ | before | behind
      · refine ⟨inside.1, Nat.le_trans (Nat.le_add_right ..) inside.2, isSome⟩
      · have lower := inside.1
        unfold Region.stop at before
        omega
      · have upper := inside.2
        unfold Region.stop at upper
        omega
    · exact ⟨start ▸ Nat.le_add_right .., Nat.le_of_eq start, isSome⟩

theorem GoodArea.start_eq_stop (good : client.GoodArea area) {region : Region}
    (member : region ∈ client.map.attached) :
    region.Has area.stop ↔ region.start = area.stop := by
  have positive := client.map.positive region member
  constructor
  · rintro ⟨lower, upper⟩
    rcases good.regions region member with ⟨inside, -⟩ | before | behind
    · exact absurd upper (Nat.not_lt.mpr inside.2)
    · have stop : area.addr ≤ area.stop := Nat.le_add_right ..
      omega
    · exact Nat.le_antisymm lower behind
  · intro start
    unfold Region.Has Region.stop
    omega

section

variable (sound : client.Sound addresses)

include sound

theorem bytes_of_freed {after : Client} (dataspaces : ∀ ds, (∀ region ∈ client.map.attached,
        area.Detaches area.addr region → region.ds ≠ some ds) →
      after.dataspaces.objects ds = client.dataspaces.objects ds)
    (detaches : ∀ region ∈ client.map.attached,
      (area.Detaches area.addr region ↔ Inside area region))
    (attached : ∀ region, region ∈ after.map.attached ↔
      region ∈ client.map.attached ∧ ¬ Inside area region)
    {addr : Nat} (outside : addr < area.addr ∨ area.stop ≤ addr) :
    after.byteAt addr = client.byteAt addr := by
  have notInside : ∀ region : Region, region.Has addr →
      ¬ Inside area region := by
    rintro region ⟨lower, upper⟩ ⟨first, last⟩
    omega
  have regions : after.map.regionAt addr = client.map.regionAt addr := by
    apply Option.ext
    intro region
    rw [RegionMap.regionAt_eq_some_iff, RegionMap.regionAt_eq_some_iff, attached]
    constructor
    · rintro ⟨⟨member, -⟩, has⟩
      exact ⟨member, has⟩
    · rintro ⟨member, has⟩
      exact ⟨⟨member, notInside region has⟩, has⟩
  unfold byteAt
  rw [regions]
  cases found : client.map.regionAt addr with
  | none => rfl
  | some region =>
    obtain ⟨member, has⟩ := RegionMap.regionAt_eq_some_iff.mp found
    cases dataspace : region.ds with
    | none => simp [dataspace]
    | some ds =>
      have same := dataspaces ds (by
        intro other member' detached equal
        rw [sound.once region member other member' ds dataspace equal]
          at has
        exact notInside other has ((detaches other member').mp detached))
      simp only [dataspace, Option.bind_eq_bind, Option.bind_some, same]

theorem Sound.base_unique {other : Nat}
    {area' : VmData} (member : ptr ∈ addresses) (member' : other ∈ addresses)
    (live : client.areas.objects ptr = some area)
    (live' : client.areas.objects other = some area')
    (same : area.addr = area'.addr) : ptr = other := by
  have nonempty := (sound.good ptr member area live).nonempty
  have nonempty' := (sound.good other member' area' live').nonempty
  rcases sound.apart ptr member other member' area area' live live' with equal | before | behind
  · exact equal
  · unfold VmData.stop at before
    omega
  · unfold VmData.stop at behind
    omega

theorem Sound.contains_base
    (member : ptr ∈ addresses) (live : client.areas.objects ptr = some area) :
    client.areas.containsAt area.addr ptr = true := by
  have good := sound.good ptr member area live
  unfold Areas.containsAt
  rw [live]
  exact (VmData.contains_iff good.small area.addr).mpr ⟨Nat.le_refl _, Nat.le_add_right ..⟩

theorem FreesArea.unlinked {areas : Areas}
    (member : ptr ∈ addresses) (unlinked : client.areas.unlink ptr = .ok areas)
    {other : Nat} (removed : client'.areas.WellLinked client'.areasList
      (addresses.erase other)) (sameAreas : client'.areas = areas)
    (sameList : client'.areasList = client.areasList) :
    other = ptr ∧ client.areasList ≠ some ptr := by
  have gone : client'.areas.objects ptr = none := by
    rw [sameAreas]
    exact (sound.unlinked member unlinked).1
  have outside : ptr ∉ addresses.erase other := by
    intro inside
    obtain ⟨area, live⟩ := Areas.live_of_linked removed ptr inside
    rw [gone] at live
    cases live
  constructor
  · apply Classical.byContradiction
    intro different
    exact outside ((List.mem_erase_of_ne fun equal => different equal.symm).mpr member)
  · intro head
    have first := removed.head_eq
    rw [sameList, head] at first
    exact outside (List.mem_of_mem_head? first.symm)

theorem FreesArea.not_kept {other : Nat}
    (member : other ∈ addresses) (sameAreas : client'.areas = client.areas)
    (sameList : client'.areasList = client.areasList) :
    ¬ client'.areas.WellLinked client'.areasList (addresses.erase other) := by
  intro removed
  rw [sameAreas, sameList] at removed
  have lengths := congrArg List.length (sound.linked.unique removed)
  rw [List.length_erase_of_mem member] at lengths
  have positive := List.length_pos_of_mem member
  omega

end

namespace Outcome

variable {shared : Bool}

section

variable (sound : client.Sound addresses) (member : ptr ∈ addresses)

include sound member

theorem freesArea (live : client.areas.objects ptr = some area)
    (outcome : Outcome client answer ptr area shared client')
    (notHead : client.areasList ≠ some ptr) (last : shared = true → answer = 0)
    (behind : client.map.regionAt area.stop = none) :
    FreesArea addresses ptr area client client' := by
  have good := sound.good ptr member area live
  have missing := RegionMap.regionAt_eq_none_iff.mp behind
  have notBlocked : ¬ Blocked area client := by
    rintro ⟨region, member, has, -⟩
    exact missing region member has
  obtain ⟨after, freed, ⟨blocked | ⟨isShared, more⟩, -⟩ |
    ⟨-, areas, map, unlinked, attached, rfl⟩⟩ := outcome
  · exact absurd blocked notBlocked
  · exact absurd (last isShared) more
  · obtain ⟨-, listEq, mapEq, dataspacesEq⟩ :=
      sendIf_areas client shared (.releaseSharedMem area.addr)
    have detaches : ∀ region ∈ client.map.attached,
        (area.Detaches area.addr region ↔ Inside area region) := by
      intro region member
      rw [good.detaches_iff member]
      apply or_iff_left
      rintro ⟨start, -⟩
      exact missing region member ((good.start_eq_stop member).mpr start)
    have regions : ∀ region, region ∈ map.attached ↔
        region ∈ client.map.attached ∧ ¬ Inside area region := by
      intro region
      rw [attached, freed.attached, mapEq]
      apply and_congr_right
      intro member
      exact not_congr (detaches region member)
    obtain ⟨-, removed, data⟩ := sound.unlinked member unlinked
    refine
      { detached := regions, removed := ?_, others := fun other _ => data other
        bytes := ?_ }
    · rw [show after.areasList = client.areasList from freed.areasList.trans listEq]
      exact removed notHead
    · intro addr outside
      apply bytes_of_freed sound _ detaches regions outside
      intro ds notDetached
      rw [← dataspacesEq]
      apply freed.dataspaces
      rw [mapEq]
      exact notDetached

theorem of_freesArea (outcome : Outcome client answer ptr area shared client') {other : Nat}
    {area' : VmData} (member' : other ∈ addresses)
    (frees : FreesArea addresses other area' client client') :
    other = ptr ∧ client.areasList ≠ some ptr ∧ (shared = true → answer = 0) ∧
      ¬ Blocked area client ∧
      ∀ region ∈ client.map.attached, area.Detaches area.addr region →
        Inside area' region := by
  obtain ⟨areasEq, listEq, mapEq, -⟩ := sendIf_areas client shared (.releaseSharedMem area.addr)
  obtain ⟨after, freed, ⟨-, rfl⟩ |
    ⟨⟨notBlocked, last⟩, areas, map, unlinked, attached, rfl⟩⟩ := outcome
  · exact absurd frees.removed (FreesArea.not_kept sound member'
      (freed.areas.trans areasEq) (freed.areasList.trans listEq))
  · obtain ⟨same, notHead⟩ := FreesArea.unlinked sound member unlinked
      frees.removed rfl (freed.areasList.trans listEq)
    refine ⟨same, notHead, last, notBlocked, ?_⟩
    intro region inMap detaches
    apply Classical.byContradiction
    intro outside
    have kept : region ∈ map.attached := (frees.detached region).mpr ⟨inMap, outside⟩
    rw [attached, freed.attached] at kept
    exact kept.2 detaches

/-- The call has changed nothing when there was nothing to detach and it was
ended by a region of another kind. -/
theorem unchanged_iff (live : client.areas.objects ptr = some area)
    (outcome : Outcome client answer ptr area shared client') :
    client' = client ↔ shared = false ∧ (∀ region ∈ client.map.attached, ¬ Inside area region) ∧
      Blocked area client := by
  have good := sound.good ptr member area live
  obtain ⟨after, freed, kept | ⟨⟨notBlocked, -⟩, areas, map, unlinked, -,
    rfl⟩⟩ := outcome
  · obtain ⟨stopped, rfl⟩ := kept
    constructor
    · intro same
      have isPrivate : shared = false := by
        apply Bool.eq_false_iff.mpr
        rintro rfl
        obtain ⟨more, sent⟩ := freed.sent
        have lengths := congrArg List.length sent
        simp [same, sendIf, send] at lengths
      subst isPrivate
      refine ⟨rfl, ?_, stopped.resolve_right fun both => nomatch both.1⟩
      intro region inMap inside
      have kept : region ∈ client'.map.attached := by
        rw [same]
        exact inMap
      exact ((freed.attached region).mp kept).2 ((good.detaches_iff inMap).mpr (Or.inl inside))
    · rintro ⟨rfl, nothing, region, inMap, has, other⟩
      apply freed.untouched
      intro region' inMap' detaches
      rcases (good.detaches_iff inMap').mp detaches with inside | ⟨start, isSome⟩
      · exact nothing region' inMap' inside
      · rw [RegionMap.eq_of_has inMap' inMap
          ((good.start_eq_stop inMap').mpr start) has, other] at isSome
        cases isSome
  · constructor
    · intro same
      have gone := (sound.unlinked member unlinked).1
      rw [show areas = client.areas from congrArg Client.areas same, live]
        at gone
      cases gone
    · rintro ⟨-, -, blocked⟩
      exact absurd blocked notBlocked

end

end Outcome

theorem freesExactly_iff {rc : UInt32}
    (settles : Settles (client.kalFreeMem answer pb) (.ok (rc, client'))) :
    client.FreesExactly addresses answer pb ↔
      (∀ ptr ∈ addresses, ∀ area, client.areas.objects ptr = some area →
        area.addr = pb → FreesArea addresses ptr area client client') ∧
      (¬ client.IsBase addresses pb → client' = client) := by
  have ends : ∀ {fuel rc' after}, client.kalFreeMem answer pb fuel = some (.ok (rc', after)) →
        after = client' := by
    intro fuel rc' after returned
    have same := (settles.exists_iff (rc', after)).mp ⟨fuel, returned⟩
    cases same
    rfl
  obtain ⟨fuel, returned⟩ := (settles.exists_iff (rc, client')).mpr rfl
  constructor
  · rintro ⟨frees, keeps⟩
    constructor
    · intro ptr member area live base
      obtain ⟨fuel, rc', after, returned, freed⟩ := frees ptr member area live base
      rw [← ends returned]
      exact freed
    · intro noBase
      obtain ⟨fuel, rc', returned⟩ := keeps noBase
      exact (ends returned).symm
  · rintro ⟨frees, keeps⟩
    constructor
    · intro ptr member area live base
      exact ⟨fuel, rc, client', returned, frees ptr member area live base⟩
    · intro noBase
      refine ⟨fuel, rc, ?_⟩
      rw [keeps noBase] at returned
      exact returned

theorem Sound.findsArea_iff (sound : client.Sound addresses) : client.FindsArea pb ptr area ↔
      addresses.find? (client.areas.containsAt pb) = some ptr ∧
        client.areas.objects ptr = some area := by
  apply and_congr_left
  intro _
  rw [(Areas.getArea_settles sound.linked pb).exists_iff (some ptr), Except.ok.injEq]

/-- Freeing frees exactly the area whose base is given if the area that is found
can be freed. -/
theorem freesExactly_iff_freeable (sound : client.Sound addresses) :
    client.FreesExactly addresses answer pb ↔
      client.Freeable addresses answer pb := by
  obtain ⟨rc, client', settles, ⟨missing, rfl⟩ |
    ⟨ptr, area, shared, found, live, isShared, outcome⟩⟩ :=
    kalFreeMem_settles sound answer pb
  · rw [freesExactly_iff settles]
    constructor
    · intro _ ptr area finds
      rw [sound.findsArea_iff, missing] at finds
      cases finds.1
    · intro _
      refine ⟨?_, fun _ => rfl⟩
      rintro ptr member area live rfl
      exact absurd (sound.contains_base member live) (List.find?_eq_none.mp missing ptr member)
  · have member := List.mem_of_find?_eq_some found
    have good := sound.good ptr member area live
    rw [freesExactly_iff settles]
    constructor
    · rintro ⟨frees, keeps⟩ ptr' area' finds
      rw [sound.findsArea_iff, found] at finds
      obtain ⟨same, live'⟩ := finds
      cases same
      rw [live] at live'
      cases live'
      by_cases base : client.IsBase addresses pb
      · left
        obtain ⟨other, member', area', live', rfl⟩ := base
        obtain ⟨rfl, notHead, last, notBlocked, detached⟩ :=
          outcome.of_freesArea sound member member' (frees other member' area' live' rfl)
        rw [live] at live'
        cases live'
        refine ⟨rfl, notHead, ?_, ?_⟩
        · intro isShared'
          rw [isShared] at isShared'
          cases isShared'
          exact last rfl
        · apply RegionMap.regionAt_eq_none_iff.mpr
          intro region inMap has
          cases dataspace : region.ds with
          | none => exact notBlocked ⟨region, inMap, has, dataspace⟩
          | some ds =>
            have start := (good.start_eq_stop inMap).mp has
            have inside := detached region inMap ((good.detaches_iff inMap).mpr
                (Or.inr ⟨start, Option.isSome_of_mem dataspace⟩))
            have upper := inside.2
            have positive := client.map.positive region inMap
            unfold Region.stop at upper
            omega
      · right
        obtain ⟨rfl, nothing, blocked⟩ := (outcome.unchanged_iff sound member live).mp (keeps base)
        exact ⟨base, isShared, nothing, blocked⟩
    · intro freeable
      rcases freeable ptr area (sound.findsArea_iff.mpr ⟨found, live⟩) with
        ⟨base, notHead, last, behind⟩ | ⟨noBase, isPrivate, nothing, blocked⟩
      · constructor
        · intro other member' area' live' base'
          obtain rfl := sound.base_unique member member' live live' (base.trans base'.symm)
          rw [live] at live'
          cases live'
          refine outcome.freesArea sound member live notHead ?_ behind
          rintro rfl
          exact last isShared
        · intro noBase
          exact absurd ⟨ptr, member, area, live, base⟩ noBase
      · constructor
        · intro other member' area' live' base
          exact absurd ⟨other, member', area', live', base⟩ noBase
        · intro _
          rw [isShared] at isPrivate
          cases isPrivate
          exact (outcome.unchanged_iff sound member live).mpr ⟨rfl, nothing, blocked⟩

/-- A private area of a page. -/
def pageArea (addr : Nat) (next prev : Pointer) : VmData :=
  { name := some [], isShared := some false, owner := some 0, refcnt := none
    rights := 0x13, area := addr, addr, size := 0x1000, next, prev }

/-- A dataspace that is attached to a page. -/
def pageRegion (start ds : Nat) : Region :=
  { start, size := 0x1000, ds := some ds, rights := 3 }

/-- The regions of two areas: a dataspace is attached to each of them. -/
def pageRegions (second : Nat) (behind : 0x11000 ≤ second)
    (within : second + 0x1000 ≤ 2 ^ 32) : RegionMap where
  attached := [pageRegion 0x10000 0, pageRegion second 1]
  reserved := [⟨0x10000, 0x1000, 0x10000⟩, ⟨second, 0x1000, second⟩]
  positive := by
    intro region member
    rcases List.mem_pair.mp member with rfl | rfl
    · exact Nat.succ_pos _
    · exact Nat.succ_pos _
  within := by
    intro region member
    rcases List.mem_pair.mp member with rfl | rfl
    · exact (by decide : 0x10000 + 0x1000 ≤ 2 ^ 32)
    · exact within
  apart := by
    intro region member other member'
    rcases List.mem_pair.mp member with rfl | rfl
    · rcases List.mem_pair.mp member' with rfl | rfl
      · exact Or.inl rfl
      · exact Or.inr (Or.inl behind)
    · rcases List.mem_pair.mp member' with rfl | rfl
      · exact Or.inr (Or.inr behind)
      · exact Or.inl rfl

/-- A client with two areas; the second one is the head of its list. -/
def twoPages (second : Nat) (behind : 0x11000 ≤ second)
    (within : second + 0x1000 ≤ 2 ^ 32) : Client where
  areas := (Heap.empty.malloc (pageArea 0x10000 none (some 1))).malloc
    (pageArea second (some 0) none)
  areasList := some 1
  map := pageRegions second behind within
  dataspaces := (Heap.empty.malloc { size := 0x1000, bytes := fun _ => 1 }).malloc
    { size := 0x1000, bytes := fun _ => 2 }
  self := 0
  sent := []

theorem twoPages_sound {second : Nat} (behind : 0x11000 ≤ second)
    (within : second + 0x1000 < 2 ^ 32) :
    (twoPages second behind (Nat.le_of_lt within)).Sound [1, 0] where
  linked := ⟨rfl, some 0, ⟨_, rfl, rfl, rfl⟩, rfl, none, ⟨_, rfl, rfl, rfl⟩, rfl⟩
  good := by
    intro ptr member area live
    rcases List.mem_pair.mp member with rfl | rfl
    · cases live
      refine
        { positive := Nat.lt_of_lt_of_le (by decide) behind
          nonempty := Nat.succ_pos _, small := within, shared := ⟨false, rfl⟩
          owned := ⟨0, rfl⟩
          reserved := ⟨_, List.mem_cons_of_mem _ (List.mem_singleton_self _), rfl, rfl⟩
          regions := ?_ }
      intro region member
      rcases List.mem_pair.mp member with rfl | rfl
      · exact Or.inr (Or.inl behind)
      · exact Or.inl ⟨⟨Nat.le_refl _, Nat.le_refl _⟩, rfl⟩
    · cases live
      refine
        { positive := by decide, nonempty := by decide, small := by decide
          shared := ⟨false, rfl⟩, owned := ⟨0, rfl⟩
          reserved := ⟨_, List.mem_cons_self .., rfl, rfl⟩, regions := ?_ }
      intro region member
      rcases List.mem_pair.mp member with rfl | rfl
      · exact Or.inl ⟨⟨Nat.le_refl _, Nat.le_refl _⟩, rfl⟩
      · exact Or.inr (Or.inr behind)
  apart := by
    intro ptr member other member' area area' live live'
    rcases List.mem_pair.mp member with rfl | rfl
    · rcases List.mem_pair.mp member' with rfl | rfl
      · exact Or.inl rfl
      · cases live
        cases live'
        exact Or.inr (Or.inr behind)
    · rcases List.mem_pair.mp member' with rfl | rfl
      · cases live
        cases live'
        exact Or.inr (Or.inl behind)
      · exact Or.inl rfl
  once := by
    intro region member other member' ds dataspace dataspace'
    rcases List.mem_pair.mp member with rfl | rfl
    · rcases List.mem_pair.mp member' with rfl | rfl
      · rfl
      · rw [← dataspace] at dataspace'
        cases dataspace'
    · rcases List.mem_pair.mp member' with rfl | rfl
      · rw [← dataspace] at dataspace'
        cases dataspace'
      · rfl

/-- The first of two areas is freed when there is room between them. -/
theorem twoPages_freesExactly : (twoPages 0x20000 (by decide) (by decide)).FreesExactly [1, 0] 0
      0x10000 := by
  apply (freesExactly_iff_freeable (twoPages_sound (by decide) (by decide))).mpr
  intro ptr area finds
  rw [(twoPages_sound (by decide) (by decide)).findsArea_iff] at finds
  obtain ⟨found, live⟩ := finds
  have first : ptr = 0 := (Option.some.inj found).symm
  subst first
  cases live
  left
  refine ⟨rfl, by decide, fun _ => rfl, by decide⟩

/-- With the first of two adjacent areas the dataspace of the second one is
detached. -/
theorem adjacent_not_freesExactly : (twoPages 0x11000 (by decide) (by decide)).Sound [1, 0] ∧
      ¬ (twoPages 0x11000 (by decide) (by decide)).FreesExactly [1, 0] 0
        0x10000 := by
  have sound : (twoPages 0x11000 (by decide) (by decide)).Sound [1, 0] :=
    twoPages_sound (by decide) (by decide)
  refine ⟨sound, ?_⟩
  rintro ⟨frees, -⟩
  obtain ⟨fuel, rc, client', returned, freed⟩ :=
    frees 0 (by decide) (pageArea 0x10000 none (some 1)) rfl rfl
  have kept : pageRegion 0x11000 1 ∈ client'.map.attached := by
    refine (freed.detached (pageRegion 0x11000 1)).mpr ⟨by decide, ?_⟩
    rintro ⟨-, upper⟩
    exact absurd upper (by decide)
  have empties : ∃ last, (twoPages 0x11000 (by decide) (by decide)).kalFreeMem 0
      0x10000 8 = some (.ok (0, last)) ∧ last.map.attached = [] :=
    ⟨_, rfl, rfl⟩
  obtain ⟨last, returned', attached⟩ := empties
  obtain ⟨rc', client'', settles, -⟩ := kalFreeMem_settles sound 0 0x10000
  have same := (settles.returned fuel _ returned).trans (settles.returned 8 _ returned').symm
  cases same
  rw [attached] at kept
  cases kept

end Client

end OsFree.Kal
