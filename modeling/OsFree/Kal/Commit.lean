import OsFree.Kal.FreeMem

/-!
# Committed pages

A page is committed when a dataspace is attached there.  This module says what
is at an address after a dataspace has been attached or detached.
-/

namespace OsFree.Kal

open Machine

namespace Client

/-- The byte at an address and the rights to access it, if its page is
committed. -/
def pageAt (client : Client) (addr : Nat) : Option (UInt8 × UInt32) := do
  let region ← client.map.regionAt addr
  let ds ← region.ds
  let dataspace ← client.dataspaces.objects ds
  return (dataspace.bytes (addr - region.start), region.rights)

/-- The address is in a range. -/
def InRange (pb cb addr : Nat) : Prop := pb ≤ addr ∧ addr < pb + cb

instance (pb cb addr : Nat) : Decidable (InRange pb cb addr) := inferInstanceAs (Decidable (_ ∧ _))

/-- A range of pages in an area. -/
structure PageRange (area : VmData) (pb cb : Nat) : Prop where
  nonempty : 0 < cb
  lower : area.addr ≤ pb
  upper : pb + cb ≤ area.stop
  start : 4096 ∣ pb
  stop : 4096 ∣ pb + cb

/-- The attached dataspaces are live, and each of them is attached once. -/
structure Backed (client : Client) : Prop where
  live : ∀ region ∈ client.map.attached, ∀ ds, region.ds = some ds →
    ∃ dataspace, client.dataspaces.objects ds = some dataspace
  once : ∀ region ∈ client.map.attached, ∀ other ∈ client.map.attached,
    ∀ ds, region.ds = some ds → other.ds = some ds → region = other

variable {client client' : Client} {region : Region} {addr ds : Nat} {dataspace : Dataspace}

theorem pageAt_of_has (member : region ∈ client.map.attached)
    (has : region.Has addr) (isDs : region.ds = some ds)
    (live : client.dataspaces.objects ds = some dataspace) :
    client.pageAt addr =
      some (dataspace.bytes (addr - region.start), region.rights) := by
  unfold pageAt
  rw [RegionMap.regionAt_eq_some_iff.mpr ⟨member, has⟩]
  simp only [Option.bind_eq_bind, Option.bind_some, isDs, live]
  rfl

theorem pageAt_of_none (missing : client.map.regionAt addr = none) :
    client.pageAt addr = none := by
  unfold pageAt
  rw [missing]
  rfl

theorem Backed.pageAt_isSome (backed : client.Backed) : (client.pageAt addr).isSome ↔
      ∃ region ∈ client.map.attached, region.Has addr ∧ region.ds.isSome := by
  constructor
  · intro committed
    cases found : client.map.regionAt addr with
    | none =>
      rw [pageAt_of_none found] at committed
      cases committed
    | some region =>
      obtain ⟨member, has⟩ := RegionMap.regionAt_eq_some_iff.mp found
      refine ⟨region, member, has, ?_⟩
      cases isDs : region.ds with
      | none => simp [pageAt, found, isDs] at committed
      | some ds => rfl
  · rintro ⟨region, member, has, isSome⟩
    obtain ⟨ds, isDs⟩ := Option.isSome_iff_exists.mp isSome
    obtain ⟨dataspace, live⟩ := backed.live region member ds isDs
    rw [pageAt_of_has member has isDs live]
    rfl

theorem pageAt_congr (same : client'.map.regionAt addr = client.map.regionAt addr)
    (objects : ∀ region ∈ client.map.attached, ∀ ds, region.ds = some ds →
      client'.dataspaces.objects ds = client.dataspaces.objects ds) :
    client'.pageAt addr = client.pageAt addr := by
  unfold pageAt
  rw [same]
  cases found : client.map.regionAt addr with
  | none => rfl
  | some region =>
    cases isDs : region.ds with
    | none => simp [isDs]
    | some ds =>
      simp only [Option.bind_eq_bind, Option.bind_some, isDs,
        objects region (RegionMap.regionAt_eq_some_iff.mp found).1 ds isDs]

/-- A new dataspace has been attached. -/
structure Attaches (region : Region) (dataspace : Dataspace)
    (client client' : Client) : Prop where
  ds : region.ds = some client.dataspaces.fresh
  attached : client'.map.attached = region :: client.map.attached
  reserved : client'.map.reserved = client.map.reserved
  dataspaces : client'.dataspaces = client.dataspaces.malloc dataspace

namespace Attaches

variable (attaches : Attaches region dataspace client client')

include attaches

theorem old_objects (backed : client.Backed) :
    ∀ other ∈ client.map.attached, ∀ ds, other.ds = some ds →
      client'.dataspaces.objects ds = client.dataspaces.objects ds := by
  intro other member ds isDs
  obtain ⟨old, live⟩ := backed.live other member ds isDs
  rw [attaches.dataspaces, Heap.malloc_objects_of_live dataspace live, live]

theorem pageAt_eq (backed : client.Backed) (addr : Nat) : client'.pageAt addr =
      if region.Has addr then
        some (dataspace.bytes (addr - region.start), region.rights)
      else client.pageAt addr := by
  have regions := RegionMap.regionAt_cons attaches.attached addr
  split
  · have member : region ∈ client'.map.attached := by
      rw [attaches.attached]
      exact List.mem_cons_self ..
    apply pageAt_of_has member ‹_› attaches.ds
    rw [attaches.dataspaces]
    exact Heap.malloc_objects_fresh dataspace
  · rw [if_neg ‹_›] at regions
    exact pageAt_congr regions (attaches.old_objects backed)

theorem backed (backed : client.Backed) : client'.Backed where
  live := by
    rw [attaches.attached]
    intro other member ds isDs
    rcases List.mem_cons.mp member with rfl | old
    · rw [attaches.ds] at isDs
      cases isDs
      rw [attaches.dataspaces]
      exact ⟨dataspace, Heap.malloc_objects_fresh dataspace⟩
    · rw [attaches.old_objects backed other old ds isDs]
      exact backed.live other old ds isDs
  once := by
    -- the new dataspace is none of those that were live before
    have different : ∀ other ∈ client.map.attached, ∀ ds,
        other.ds = some ds → region.ds ≠ some ds := by
      intro other old ds isDs new
      obtain ⟨object, live⟩ := backed.live other old ds isDs
      have equal := attaches.ds.symm.trans new
      cases equal
      exact Nat.lt_irrefl _ (Heap.lt_fresh live)
    rw [attaches.attached]
    intro first member second member' ds isDs isDs'
    rcases List.mem_cons.mp member with rfl | old
    · rcases List.mem_cons.mp member' with rfl | old'
      · rfl
      · exact absurd isDs (different second old' ds isDs')
    · rcases List.mem_cons.mp member' with rfl | old'
      · exact absurd isDs' (different first old ds isDs)
      · exact backed.once first old second old' ds isDs isDs'

end Attaches

/-- A live dataspace that is not attached. -/
structure Detached (client : Client) (ds : Nat) (dataspace : Dataspace) :
    Prop where
  backed : client.Backed
  live : client.dataspaces.objects ds = some dataspace
  unattached : ∀ region ∈ client.map.attached, region.ds ≠ some ds

theorem Backed.detach (backed : client.Backed)
    (member : region ∈ client.map.attached) (has : region.Has addr)
    (isDs : region.ds = some ds)
    (live : client.dataspaces.objects ds = some dataspace)
    (sent : List Request) :
    Detached { client with map := client.map.detach addr, sent } ds dataspace where
  backed :=
    { live := by
        intro other member'
        exact backed.live other (RegionMap.mem_detach_iff.mp member').1
      once := by
        intro first member' second member''
        exact backed.once first (RegionMap.mem_detach_iff.mp member').1 second
          (RegionMap.mem_detach_iff.mp member'').1 }
  live := live
  unattached := by
    intro other member' isDs'
    obtain ⟨inMap, outside⟩ := RegionMap.mem_detach_iff.mp member'
    rw [backed.once other inMap region member ds isDs' isDs] at outside
    exact outside has

theorem pageAt_detach {start : Nat} (member : region ∈ client.map.attached)
    (has : region.Has start) (sent : List Request) (addr : Nat) :
    pageAt { client with map := client.map.detach start, sent } addr =
      if region.Has addr then none else client.pageAt addr := by
  have regions := RegionMap.regionAt_detach member has addr
  split
  · rw [if_pos ‹_›] at regions
    exact pageAt_of_none regions
  · rw [if_neg ‹_›] at regions
    exact pageAt_congr regions fun _ _ _ _ => rfl

namespace Detached

variable (detached : client.Detached ds dataspace)

include detached

theorem attach {other : Dataspace} (attaches : Attaches region other client client') :
    client'.Detached ds dataspace where
  backed := attaches.backed detached.backed
  live := by
    rw [attaches.dataspaces]
    exact Heap.malloc_objects_of_live other detached.live
  unattached := by
    rw [attaches.attached]
    intro first member isDs
    rcases List.mem_cons.mp member with rfl | old
    · have equal := attaches.ds.symm.trans isDs
      cases equal
      exact Nat.lt_irrefl _ (Heap.lt_fresh detached.live)
    · exact detached.unattached first old isDs

theorem close_objects : ∀ region ∈ client.map.attached, ∀ other,
    region.ds = some other → (client.close ds).dataspaces.objects other =
        client.dataspaces.objects other := by
  intro region member other isDs
  apply Heap.remove_objects_of_ne
  rintro rfl
  exact detached.unattached region member isDs

theorem pageAt_close (addr : Nat) :
    (client.close ds).pageAt addr = client.pageAt addr :=
  pageAt_congr rfl detached.close_objects

theorem close_backed : (client.close ds).Backed where
  live := by
    intro region member other isDs
    rw [detached.close_objects region member other isDs]
    exact detached.backed.live region member other isDs
  once := detached.backed.once

end Detached

end Client

/-!
## Committing pages

At the first uncommitted page of a range a dataspace is attached for all of the
rest.  If there is a committed page behind it, this fails.
-/

namespace Client

/-- The pages of a range are committed, those that were committed are kept, and
so is everything outside the range. -/
structure CommitsExactly (pb cb : Nat) (client client' : Client) : Prop where
  committed : ∀ addr, InRange pb cb addr → (client'.pageAt addr).isSome
  kept : ∀ addr, InRange pb cb addr → (client.pageAt addr).isSome →
    client'.pageAt addr = client.pageAt addr
  outside : ∀ addr, ¬ InRange pb cb addr → client'.pageAt addr = client.pageAt addr

/-- The reserved range with an identifier is that of the area. -/
def Home (client : Client) (id : Nat) (area : VmData) : Prop :=
  ∃ reservation ∈ client.map.reserved, reservation.area = id ∧
    reservation.start = area.addr ∧ reservation.stop = area.stop

/-- The reserved ranges with an identifier are outside the area. -/
def Foreign (client : Client) (id : Nat) (area : VmData) : Prop :=
  ∀ reservation ∈ client.map.reserved, reservation.area = id →
    reservation.stop ≤ area.addr ∨ area.stop ≤ reservation.start

variable {client client' after : Client} {area found : VmData}
  {region : Region} {id pb cb addr : Nat} {run : Run (UInt32 × Client)}

theorem Home.fits (home : client.Home id area) (nonempty : 0 < region.size)
    (within : region.stop ≤ 2 ^ 32) (inside : Inside area region)
    (apart : ∀ other ∈ client.map.attached, region.Apart other) :
    client.map.Fits id region := by
  obtain ⟨reservation, member, same, start, stop⟩ := home
  refine ⟨nonempty, within, ⟨reservation, member, same, ?_, ?_⟩, apart⟩
  · rw [start]
    exact inside.1
  · rw [stop]
    exact inside.2

theorem Foreign.not_fits (foreign : client.Foreign id area)
    (inside : Inside area region) : ¬ client.map.Fits id region := by
  rintro ⟨nonempty, -, ⟨reservation, member, same, lower, upper⟩, -⟩
  obtain ⟨first, last⟩ := inside
  unfold Region.stop at upper last
  rcases foreign reservation member same with before | behind
  · omega
  · omega

section

variable {pass : Nat → Nat → Client → UInt32 × Client}

theorem rangeLoop_fails {rc : UInt32} (passed : pass pb cb client = (rc, after)) (failed : rc ≠ 0) :
    Settles (fun fuel => rangeLoop pass fuel pb cb client) (.ok (rc, after)) := by
  apply Settles.succ rfl _ (Settles.const _)
  intro fuel
  simp only [rangeLoop, passed, if_pos failed]

theorem rangeLoop_last (passed : pass pb cb client = (0, after))
    (last : pb + cb ≤ (client.map.lookup pb).stop) :
    Settles (fun fuel => rangeLoop pass fuel pb cb client) (.ok (0, after)) := by
  apply Settles.succ rfl _ (Settles.const _)
  intro fuel
  simp only [rangeLoop, passed, if_pos last]
  exact if_neg fun different => different rfl

theorem rangeLoop_next (passed : pass pb cb client = (0, after))
    (more : (client.map.lookup pb).stop < pb + cb)
    (rest : Settles (fun fuel => rangeLoop pass fuel (client.map.lookup pb).stop
      (cb - ((client.map.lookup pb).stop - pb)) after) run) :
    Settles (fun fuel => rangeLoop pass fuel pb cb client) run := by
  apply Settles.succ rfl _ rest
  intro fuel
  simp only [rangeLoop, passed, if_neg (Nat.not_le.mpr more)]
  exact if_neg fun different => different rfl

end

section

variable {rights : UInt32}

theorem le_roundPage (size : Nat) : size ≤ roundPage size := by
  unfold roundPage
  omega

theorem roundPage_of_pages {size : Nat} (pages : 4096 ∣ size) :
    roundPage size = size := by
  unfold roundPage
  omega

/-- The region of a new dataspace for a range. -/
def newRegion (client : Client) (rights : UInt32) (pb cb : Nat) : Region :=
  { start := pb, size := roundPage cb, ds := some client.dataspaces.fresh
    rights }

theorem newRegion_has : (client.newRegion rights pb cb).Has addr ↔
    pb ≤ addr ∧ addr < pb + roundPage cb := Iff.rfl

theorem newRegion_stop (pages : 4096 ∣ cb) :
    (client.newRegion rights pb cb).stop = pb + cb :=
  congrArg (pb + ·) (roundPage_of_pages pages)

theorem sendIf_attaches (shared : Bool) {dataspace : Dataspace} {request : Request}
    (attaches : Attaches region dataspace client after) :
    Attaches region dataspace client (after.sendIf shared request) := by
  rcases sendIf_cases after shared request with same | sent
  · rw [same]
    exact attaches
  · rw [sent]
    exact ⟨attaches.ds, attaches.attached, attaches.reserved, attaches.dataspaces⟩

theorem commitDataspace_of_fits (shared : Bool) (initial : Nat → UInt8)
    (fits : client.map.Fits found.area (client.newRegion rights pb cb)) :
    ∃ after, client.commitDataspace found shared rights initial pb cb = (0, after) ∧
      Attaches (client.newRegion rights pb cb) ⟨roundPage cb, initial⟩ client
        after := by
  unfold commitDataspace
  unfold newRegion at fits ⊢
  simp only [RegionMap.attach_of_fits fits]
  exact ⟨_, rfl, sendIf_attaches shared ⟨rfl, rfl, rfl, rfl⟩⟩

theorem commitDataspace_of_not_fits (shared : Bool) (initial : Nat → UInt8) (backed : client.Backed)
    (blocked : ¬ client.map.Fits found.area (client.newRegion rights pb cb)) :
    ∃ after, client.commitDataspace found shared rights initial pb cb =
        (8, after) ∧ ∀ addr, after.pageAt addr = client.pageAt addr := by
  unfold commitDataspace
  unfold newRegion at blocked
  simp only [RegionMap.attach_of_not_fits blocked]
  refine ⟨_, rfl, fun addr => pageAt_congr rfl ?_⟩
  intro region member ds isDs
  obtain ⟨dataspace, live⟩ := backed.live region member ds isDs
  exact (Heap.malloc_objects_of_live _ live).trans live.symm

end

section

variable {shared : Bool} {rights : UInt32} {initial : Nat → UInt8}

theorem commitLoop_attached (nonempty : 0 < cb) (within : pb + cb ≤ 2 ^ 32)
    (attached : ∀ addr, InRange pb cb addr → (client.map.regionAt addr).isSome) :
    Settles (fun fuel => rangeLoop (commitPass found shared rights initial) fuel
      pb cb client) (.ok (0, client)) := by
  induction cb using Nat.strongRecOn generalizing pb with
  | ind cb ih =>
  obtain ⟨region, here⟩ := Option.isSome_iff_exists.mp
    (attached pb ⟨Nat.le_refl pb, Nat.lt_add_of_pos_right nonempty⟩)
  have passed : commitPass found shared rights initial pb cb client =
      (0, client) := by
    unfold commitPass
    rw [RegionMap.lookup_of_region here]
  have behind : pb < (client.map.lookup pb).stop := RegionMap.lt_lookup_stop client.map (by omega)
  rcases Nat.lt_or_ge (client.map.lookup pb).stop (pb + cb) with more | last
  · apply rangeLoop_next passed more
    apply ih
    · omega
    · omega
    · omega
    · rintro addr ⟨lower, upper⟩
      exact attached addr ⟨by omega, by omega⟩
  · exact rangeLoop_last passed last

/-- What committing a range comes to: there is a region everywhere, or there is
a first gap, and a dataspace for the rest has been asked for. -/
def CommitEnd (found : VmData) (shared : Bool) (rights : UInt32)
    (initial : Nat → UInt8) (pb cb : Nat) (client client' : Client) : Prop :=
  ((∀ addr, InRange pb cb addr → (client.map.regionAt addr).isSome) ∧ client' = client) ∨
    ∃ gap, pb ≤ gap ∧ gap < pb + cb ∧ 4096 ∣ gap ∧ client.map.regionAt gap = none ∧
      (∀ addr, pb ≤ addr → addr < gap → (client.map.regionAt addr).isSome) ∧
      client' = (client.commitDataspace found shared rights initial gap (pb + cb - gap)).2

theorem commitLoop_settles (backed : client.Backed) (good : client.GoodArea area)
    (pages : ∀ region ∈ client.map.attached, 4096 ∣ region.stop)
    (aligned : 4096 ∣ pb) (nonempty : 0 < cb) (lower : area.addr ≤ pb)
    (upper : pb + cb ≤ area.stop) (wholePages : 4096 ∣ pb + cb) :
    ∃ rc client', Settles (fun fuel => rangeLoop
        (commitPass found shared rights initial) fuel pb cb client)
        (.ok (rc, client')) ∧
      CommitEnd found shared rights initial pb cb client client' := by
  have small := good.small
  induction cb using Nat.strongRecOn generalizing pb with
  | ind cb ih =>
  cases here : client.map.regionAt pb with
  | some region =>
    obtain ⟨member, has⟩ := RegionMap.regionAt_eq_some_iff.mp here
    have lookup := RegionMap.lookup_of_region here
    have passed : commitPass found shared rights initial pb cb client =
        (0, client) := by
      unfold commitPass
      rw [lookup]
    have stop : (client.map.lookup pb).stop = region.stop := by
      rw [lookup]
      rfl
    have inRegion : ∀ addr, pb ≤ addr → addr < region.stop →
        (client.map.regionAt addr).isSome := by
      intro addr first last
      rw [RegionMap.regionAt_eq_some_iff.mpr ⟨member, Nat.le_trans has.1 first, last⟩]
      rfl
    have behind := has.2
    rcases Nat.lt_or_ge region.stop (pb + cb) with more | last
    · have sum : region.stop + (cb - (region.stop - pb)) = pb + cb := by omega
      obtain ⟨rc, client', settles, ends⟩ := ih (cb - (region.stop - pb)) (by omega)
          (pages region member) (by omega) (by omega) (by omega)
          (sum ▸ wholePages)
      refine ⟨rc, client', rangeLoop_next passed (stop ▸ more) (stop.symm ▸ settles), ?_⟩
      unfold CommitEnd at ends ⊢
      rw [sum] at ends
      rcases ends with ⟨rest, same⟩ | ⟨gap, first, inside, onPage, missing, before, same⟩
      · left
        refine ⟨fun addr inRange => ?_, same⟩
        rcases Nat.lt_or_ge addr region.stop with early | late
        · exact inRegion addr inRange.1 early
        · exact rest addr ⟨late, by
            rw [sum]
            exact inRange.2⟩
      · right
        refine ⟨gap, by omega, inside, onPage, missing, ?_, same⟩
        intro addr first' early
        rcases Nat.lt_or_ge addr region.stop with inside' | late
        · exact inRegion addr first' inside'
        · exact before addr late early
    · refine ⟨0, client, rangeLoop_last passed (stop ▸ last), Or.inl ⟨?_, rfl⟩⟩
      intro addr inRange
      exact inRegion addr inRange.1 (Nat.lt_of_lt_of_le inRange.2 last)
  | none =>
    obtain ⟨reservation, member, start, stop⟩ := good.reserved
    have has : reservation.Has pb := ⟨by omega, by omega⟩
    have passed : commitPass found shared rights initial pb cb client =
        client.commitDataspace found shared rights initial pb cb := by
      unfold commitPass
      rw [RegionMap.lookup_of_reserved here member has]
    have ends : ∀ client', client' = (client.commitDataspace found shared rights initial pb cb).2 →
          CommitEnd found shared rights initial pb cb client client' := by
      rintro client' rfl
      right
      refine ⟨pb, Nat.le_refl pb, Nat.lt_add_of_pos_right nonempty, aligned, here, ?_, ?_⟩
      · intro addr first early
        omega
      · rw [Nat.add_sub_cancel_left]
    by_cases fits : client.map.Fits found.area (client.newRegion rights pb cb)
    · obtain ⟨after, attached, attaches⟩ := commitDataspace_of_fits shared initial fits
      rw [attached] at passed ends
      refine ⟨0, after, ?_, ends after rfl⟩
      rcases Nat.lt_or_ge (client.map.lookup pb).stop (pb + cb) with more | last
      · have behind : pb < (client.map.lookup pb).stop :=
          RegionMap.lt_lookup_stop client.map (by omega)
        apply rangeLoop_next passed more
        apply commitLoop_attached (by omega) (by omega)
        rintro addr ⟨first, early⟩
        have large := le_roundPage cb
        have has : (client.newRegion rights pb cb).Has addr :=
          newRegion_has.mpr ⟨by omega, by omega⟩
        rw [RegionMap.regionAt_cons attaches.attached, if_pos has]
        rfl
      · exact rangeLoop_last passed last
    · obtain ⟨after, failed, -⟩ := commitDataspace_of_not_fits shared initial backed fits
      rw [failed] at passed ends
      exact ⟨8, after, rangeLoop_fails passed (by decide), ends after rfl⟩

/-- All pages of the range are committed already, or the area that has been
found is the right one and in the range no committed page comes after an
uncommitted one. -/
def Committable (client : Client) (right : Prop) (pb cb : Nat) : Prop :=
  (∀ addr, InRange pb cb addr → (client.pageAt addr).isSome) ∨
    (right ∧ ∀ addr addr', InRange pb cb addr →
      InRange pb cb addr' → addr < addr' → client.pageAt addr = none → client.pageAt addr' = none)

section

variable (good : client.GoodArea area) (backed : client.Backed)

include good backed

theorem GoodArea.pageAt_isSome (lower : area.addr ≤ addr) (upper : addr < area.stop) :
    (client.pageAt addr).isSome ↔ (client.map.regionAt addr).isSome := by
  rw [backed.pageAt_isSome]
  constructor
  · rintro ⟨region, member, has, -⟩
    rw [RegionMap.regionAt_eq_some_iff.mpr ⟨member, has⟩]
    rfl
  · intro isSome
    obtain ⟨region, here⟩ := Option.isSome_iff_exists.mp isSome
    obtain ⟨member, has⟩ := RegionMap.regionAt_eq_some_iff.mp here
    refine ⟨region, member, has, ?_⟩
    rcases good.regions region member with ⟨-, isDs⟩ | before | behind
    · exact isDs
    · exact absurd has.2 (Nat.not_lt.mpr (Nat.le_trans before lower))
    · exact absurd has.1 (Nat.not_le.mpr (Nat.lt_of_lt_of_le upper behind))

theorem fits_of_uncommitted (home : client.Home id area) {gap stop : Nat}
    (lower : area.addr ≤ gap) (nonempty : gap < stop)
    (upper : stop ≤ area.stop) (pages : 4096 ∣ stop - gap) (rights : UInt32)
    (uncommitted : ∀ addr, gap ≤ addr → addr < stop → client.pageAt addr = none) :
    client.map.Fits id (client.newRegion rights gap (stop - gap)) := by
  have small := good.small
  have size : (client.newRegion rights gap (stop - gap)).stop = stop := by
    rw [newRegion_stop pages]
    exact Nat.add_sub_cancel' (Nat.le_of_lt nonempty)
  apply home.fits
  · exact Nat.lt_of_lt_of_le (Nat.sub_pos_of_lt nonempty) (le_roundPage _)
  · omega
  · refine ⟨lower, ?_⟩
    rw [size]
    exact upper
  · intro other member
    have positive := client.map.positive other member
    unfold Region.Apart
    rw [size]
    rcases Nat.lt_or_ge other.start stop with before | behind
    · right
      -- otherwise the later of the two starts is a committed address
      apply Nat.le_of_not_lt
      intro overlap
      have missing := uncommitted (max gap other.start) (by omega) (by omega)
      have has : other.Has (max gap other.start) := by
        refine ⟨Nat.le_max_right .., Nat.max_lt.mpr ⟨overlap, ?_⟩⟩
        exact Nat.lt_add_of_pos_right positive
      have committed : (client.pageAt (max gap other.start)).isSome := by
        rw [good.pageAt_isSome backed (by omega) (by omega),
          RegionMap.regionAt_eq_some_iff.mpr ⟨member, has⟩]
        rfl
      rw [missing] at committed
      cases committed
    · exact Or.inl behind

theorem CommitEnd.commitsExactly_iff (lower : area.addr ≤ pb)
    (upper : pb + cb ≤ area.stop) (wholePages : 4096 ∣ pb + cb)
    (known : client.Home found.area area ∨ client.Foreign found.area area)
    (ends : CommitEnd found shared rights initial pb cb client client') :
    CommitsExactly pb cb client client' ↔
      client.Committable (client.Home found.area area) pb cb := by
  have inArea : ∀ addr, InRange pb cb addr →
      ((client.pageAt addr).isSome ↔ (client.map.regionAt addr).isSome) := by
    rintro addr ⟨first, last⟩
    exact good.pageAt_isSome backed (by omega) (by omega)
  rcases ends with ⟨attached, rfl⟩ | ⟨gap, first, last, onPage, missing, before, rfl⟩
  · have committed : ∀ addr, InRange pb cb addr →
        (client'.pageAt addr).isSome := fun addr inRange =>
      (inArea addr inRange).mpr (attached addr inRange)
    exact iff_of_true ⟨committed, fun _ _ _ => rfl, fun _ _ => rfl⟩ (Or.inl committed)
  · have gapRange : InRange pb cb gap := ⟨first, last⟩
    have gapNone := pageAt_of_none missing
    have afterGap : ∀ addr, InRange pb cb addr → client.pageAt addr = none →
        gap ≤ addr := by
      intro addr inRange none
      apply Nat.le_of_not_lt
      intro early
      have committed := (inArea addr inRange).mpr (before addr inRange.1 early)
      rw [none] at committed
      cases committed
    have pages : 4096 ∣ pb + cb - gap := Nat.dvd_sub wholePages onPage
    by_cases fits : client.map.Fits found.area (client.newRegion rights gap (pb + cb - gap))
    · obtain ⟨after, attached, attaches⟩ := commitDataspace_of_fits shared initial fits
      rw [attached]
      have home : client.Home found.area area := by
        refine known.resolve_right fun foreign => ?_
        refine foreign.not_fits ⟨?_, ?_⟩ fits
        · exact Nat.le_trans lower first
        · rw [newRegion_stop pages]
          omega
      have has : ∀ addr, (client.newRegion rights gap (pb + cb - gap)).Has
          addr ↔ gap ≤ addr ∧ addr < pb + cb := by
        intro addr
        rw [newRegion_has, roundPage_of_pages pages]
        omega
      have uncommitted : ∀ addr, gap ≤ addr → addr < pb + cb →
          client.pageAt addr = none := by
        intro addr late early
        apply pageAt_of_none
        apply RegionMap.regionAt_eq_none_iff.mpr
        rintro other member ⟨lower', upper'⟩
        obtain ⟨newLower, newUpper⟩ := (has addr).mpr ⟨late, early⟩
        rcases fits.2.2.2 other member with behind | before'
        · omega
        · omega
      refine iff_of_true ⟨?_, ?_, ?_⟩ (Or.inr ⟨home, ?_⟩)
      · intro addr inRange
        rw [attaches.pageAt_eq backed]
        split
        · rfl
        · rename_i outside
          rw [has] at outside
          exact (inArea addr inRange).mpr (before addr inRange.1 (by
            have early := inRange.2
            omega))
      · intro addr inRange committed
        rw [attaches.pageAt_eq backed]
        apply if_neg
        rw [has]
        rintro ⟨late, early⟩
        rw [uncommitted addr late early] at committed
        cases committed
      · intro addr outside
        rw [attaches.pageAt_eq backed]
        apply if_neg
        rw [has]
        rintro ⟨late, early⟩
        exact outside ⟨Nat.le_trans first late, early⟩
      · intro addr addr' inRange inRange' later none
        have late := afterGap addr inRange none
        exact uncommitted addr' (by omega) inRange'.2
    · obtain ⟨after, failed, same⟩ := commitDataspace_of_not_fits shared initial backed fits
      rw [failed]
      apply iff_of_false
      · intro commits
        have committed := commits.committed gap gapRange
        rw [same, gapNone] at committed
        cases committed
      · rintro (committed | ⟨home, suffix⟩)
        · have committed := committed gap gapRange
          rw [gapNone] at committed
          cases committed
        · apply fits
          apply fits_of_uncommitted good backed home
            (Nat.le_trans lower first) last upper pages rights
          intro addr late early
          rcases Nat.lt_or_eq_of_le late with later | rfl
          · exact suffix gap addr gapRange ⟨by omega, early⟩ later gapNone
          · exact gapNone

end

theorem commitRange_settles (found : VmData) (shared : Bool) (rights : UInt32)
    (initial : Nat → UInt8) (backed : client.Backed)
    (good : client.GoodArea area)
    (pages : ∀ region ∈ client.map.attached, 4096 ∣ region.stop)
    (range : PageRange area pb cb)
    (known : client.Home found.area area ∨ client.Foreign found.area area) :
    ∃ rc client', Settles (fun fuel => rangeLoop
        (commitPass found shared rights initial) fuel pb cb client)
        (.ok (rc, client')) ∧
      (CommitsExactly pb cb client client' ↔
        client.Committable (client.Home found.area area) pb cb) := by
  obtain ⟨rc, client', settles, ends⟩ := commitLoop_settles backed good pages
    range.start range.nonempty range.lower range.upper range.stop
  exact ⟨rc, client', settles, ends.commitsExactly_iff good backed range.lower
    range.upper range.stop known⟩

theorem commitsExactly_congr {before : Client}
    (same : ∀ addr, before.pageAt addr = client.pageAt addr) :
    CommitsExactly pb cb client client' ↔
      CommitsExactly pb cb before client' := by
  constructor
  · intro commits
    refine ⟨commits.committed, ?_, ?_⟩
    · intro addr inRange
      rw [same]
      exact commits.kept addr inRange
    · intro addr outside
      rw [same]
      exact commits.outside addr outside
  · intro commits
    refine ⟨commits.committed, ?_, ?_⟩
    · intro addr inRange
      rw [← same]
      exact commits.kept addr inRange
    · intro addr outside
      rw [← same]
      exact commits.outside addr outside

end

end Client

end OsFree.Kal
