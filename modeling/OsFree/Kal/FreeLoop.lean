import OsFree.Kal.VmData
import OsFree.Machine.RegionMap

/-!
# Memory of a client

A client keeps a list of its memory areas, and its region mapper attaches
dataspaces to them.  A shared area is also known to the server, and a dataspace
of it may belong to another client.  The calls that go to them are recorded in
order.  Addresses and sizes are those of areas, so that no sum leaves the 32
bits of an address except where this is said.
-/

namespace OsFree.Kal

open Machine

/-- A dataspace: its size and its bytes. -/
structure Dataspace where
  size : Nat
  bytes : Nat → UInt8

/-- A call to the server or to another client. -/
inductive Request where
  | releaseSharedMem (addr : Nat)
  | mapDataspace (addr : Nat) (rights : UInt32) (ds : Nat)
  | unmapDataspace (addr ds : Nat)
  | releaseDataspace (owner ds : Nat)
  deriving DecidableEq

/-- The state of a client: its areas, its address space, the dataspaces, the
thread that runs, and the calls that it has made. -/
structure Client where
  areas : Areas
  areasList : Pointer
  map : RegionMap
  dataspaces : Heap Dataspace
  self : Nat
  sent : List Request

namespace Client

variable (client : Client)

/-- Make a call. -/
def send (request : Request) : Client :=
  { client with sent := client.sent ++ [request] }

/-- Make a call for a shared area. -/
def sendIf (shared : Bool) (request : Request) : Client :=
  if shared then client.send request else client

/-- Close a dataspace. -/
def close (ds : Nat) : Client :=
  { client with dataspaces := client.dataspaces.remove ds }

/-- The byte at an address, if a dataspace is attached there. -/
def byteAt (addr : Nat) : Option UInt8 := do
  let region ← client.map.regionAt addr
  let ds ← region.ds
  let dataspace ← client.dataspaces.objects ds
  return dataspace.bytes (addr - region.start)

/-- Detach a dataspace of an area and give it up.  A shared dataspace goes with
the last reference to the area, and its owner is the one who deletes it. -/
def freeDataspace (area : VmData) (shared : Bool) (refcnt : UInt32) (start ds : Nat) : Run Client :=
  let client := client.sendIf shared (.unmapDataspace start ds)
  let client := { client with map := client.map.detach start }
  if shared then
    if refcnt = 0 then
      (fun owner =>
        if owner ≠ client.self then client.send (.releaseDataspace owner ds)
        else client.close ds) <$> stored area.owner
    else .ok client
  else .ok (client.close ds)

/-- Detach the dataspaces of an area from an address on, as far as the fuel
goes.  A region of another kind ends the call with an error. -/
def freeLoop (area : VmData) (shared : Bool) (refcnt : UInt32) :
    Nat → Nat → Client → Option (Run (Option UInt32 × Client))
  | 0, _, _ => none
  | fuel + 1, addr, client =>
    if area.contains addr then
      match client.map.lookup addr with
      | .attached region =>
        match region.ds with
        | none => some (.ok (some 487, client))
        | some ds =>
          andThen (some (client.freeDataspace area shared refcnt region.start ds)) fun client =>
            freeLoop area shared refcnt fuel (region.stop % 2 ^ 32) client
      | .reserved _ stop =>
        freeLoop area shared refcnt fuel (stop % 2 ^ 32) client
      | .free _ stop =>
        freeLoop area shared refcnt fuel (stop % 2 ^ 32) client
    else some (.ok (none, client))

/-- The range of an area is released and its record is freed when there are no
further references. -/
def finishFree (ptr : Nat) (area : VmData) (refcnt : UInt32) :
    Run (UInt32 × Client) :=
  if refcnt = 0 then
    match client.map.release area.addr with
    | none => .ok (5, client)
    | some map =>
      (fun areas => (0, { client with map, areas })) <$> client.areas.unlink ptr
  else .ok (0, client)

/-- Free the area at an address, with what `freeLoop` is told to do. -/
def freeArea (refcnt : UInt32) (fuel ptr : Nat) (area : VmData)
    (shared : Bool) : Option (Run (UInt32 × Client)) :=
  andThen (freeLoop area shared refcnt fuel area.addr
      (client.sendIf shared (.releaseSharedMem area.addr))) fun
    | (some rc, client) => some (.ok (rc, client))
    | (none, client) => some (client.finishFree ptr area refcnt)

/-- Free the area that contains an address.  The server answers how many
references there are still to a shared area. -/
def kalFreeMem (answer : UInt32) (pb fuel : Nat) :
    Option (Run (UInt32 × Client)) :=
  andThen (client.areas.getArea client.areasList pb fuel) fun
    | none => some (.ok (487, client))
    | some ptr =>
      andThen (some (client.areas.read ptr)) fun area =>
        andThen (some (stored area.isShared)) fun shared =>
          client.freeArea (if shared then answer else 0) fuel ptr area shared

/-- A size in whole pages. -/
def roundPage (size : Nat) : Nat := (size + 4095) / 4096 * 4096

/-- Attach a new dataspace of whole pages at an address of an area; the bytes
that it starts with are those of the memory that it is made of. -/
def commitDataspace (area : VmData) (shared : Bool) (rights : UInt32)
    (initial : Nat → UInt8) (pb cb : Nat) : UInt32 × Client :=
  let ds := client.dataspaces.fresh
  let dataspaces := client.dataspaces.malloc
    { size := roundPage cb, bytes := initial }
  let client := { client with dataspaces }
  match client.map.attach area.area
      { start := pb, size := roundPage cb, ds := some ds, rights } with
  | none => (8, client)
  | some map =>
    (0, sendIf { client with map } shared (.mapDataspace pb rights ds))

/-- Go through a range of addresses region by region, as far as the fuel goes.
The region is looked up before a pass works on it; an error ends the loop. -/
def rangeLoop (pass : Nat → Nat → Client → UInt32 × Client) :
    Nat → Nat → Nat → Client → Option (Run (UInt32 × Client))
  | 0, _, _, _ => none
  | fuel + 1, pb, cb, client =>
    let stop := (client.map.lookup pb).stop
    match pass pb cb client with
    | (rc, after) =>
      if rc ≠ 0 then some (.ok (rc, after))
      else if pb + cb ≤ stop then some (.ok (0, after))
      else rangeLoop pass fuel stop (cb - (stop - pb)) after

/-- In an uncommitted range a dataspace for all of the rest is attached. -/
def commitPass (area : VmData) (shared : Bool) (rights : UInt32)
    (initial : Nat → UInt8) (pb cb : Nat) (client : Client) :
    UInt32 × Client :=
  match client.map.lookup pb with
  | .reserved _ _ => client.commitDataspace area shared rights initial pb cb
  | _ => (0, client)

/-- Attach a copy of some bytes of a dataspace in an area. -/
def attachCopy (area : VmData) (shared : Bool) (rights : UInt32)
    (ds offset start size : Nat) : UInt32 × Client :=
  match client.dataspaces.objects ds with
  | none => (8, client)
  | some dataspace =>
    let copy := client.dataspaces.fresh
    let dataspaces := client.dataspaces.malloc
      { size, bytes := fun i => dataspace.bytes (offset + i) }
    let client := { client with dataspaces }
    match client.map.attach area.area
        { start, size, ds := some copy, rights } with
    | none => (8, client)
    | some map =>
      (0, sendIf { client with map } shared (.mapDataspace start rights copy))

/-- Make a hole in a dataspace: it is detached, and copies of the parts before
and behind the hole are attached in its place. -/
def punchHole (area : VmData) (shared : Bool) (rights : UInt32)
    (region : Region) (ds pb cb : Nat) : UInt32 × Client :=
  let client := { client with map := client.map.detach region.start }
  let client := client.sendIf shared (.unmapDataspace region.start ds)
  let (rc, client) :=
    if region.start < pb then
      client.attachCopy area shared rights ds 0 region.start (pb - region.start)
    else (0, client)
  if rc ≠ 0 then (rc, client)
  else
    let (rc, client) :=
      if pb + cb < region.stop then
        client.attachCopy area shared rights ds (pb + cb - region.start)
          (pb + cb) (region.stop - (pb + cb))
      else (0, client)
    if rc ≠ 0 then (rc, client) else (0, client.close ds)

/-- In a dataspace a hole is made. -/
def decommitPass (area : VmData) (shared : Bool) (rights : UInt32)
    (pb cb : Nat) (client : Client) : UInt32 × Client :=
  match client.map.lookup pb with
  | .attached region =>
    match region.ds with
    | some ds => client.punchHole area shared rights region ds pb cb
    | none => (0, client)
  | _ => (0, client)

/-- Go on with the area that contains an address, and with whether it is
shared. -/
def withArea (pb fuel : Nat) (next : VmData → Bool → Option (Run (UInt32 × Client))) :
    Option (Run (UInt32 × Client)) :=
  andThen (client.areas.getArea client.areasList pb fuel) fun
    | none => some (.ok (487, client))
    | some ptr =>
      andThen (some (client.areas.read ptr)) fun area =>
        andThen (some (stored area.isShared)) fun shared => next area shared

/-- Commit a range of pages. -/
def commitPages (rights : UInt32) (initial : Nat → UInt8) (pb cb fuel : Nat) :
    Option (Run (UInt32 × Client)) :=
  client.withArea pb fuel fun area shared =>
    rangeLoop (commitPass area shared rights initial) fuel pb cb client

/-- Decommit a range of pages. -/
def decommitPages (rights : UInt32) (pb cb fuel : Nat) :
    Option (Run (UInt32 × Client)) :=
  client.withArea pb fuel fun area shared =>
    rangeLoop (decommitPass area shared rights) fuel pb cb client

end Client

/-!
## Detaching the dataspaces of an area

The loop of `kalFreeMem` also looks at the address behind the area.  A dataspace
that is attached there goes with those of the area, and a region of another kind
ends the call.
-/

namespace VmData

theorem contains_iff {area : VmData} (small : area.stop < 2 ^ 32) (addr : Nat) :
    area.contains addr = true ↔ area.addr ≤ addr ∧ addr ≤ area.stop := by
  unfold contains
  rw [Nat.mod_eq_of_lt small]
  exact decide_eq_true_iff

/-- The loop detaches the region when it comes from an address on: it is a
dataspace and starts in the area or behind it. -/
def Detaches (area : VmData) (addr : Nat) (region : Region) : Prop :=
  addr ≤ region.start ∧ region.start ≤ area.stop ∧ region.ds.isSome

instance (area : VmData) (addr : Nat) (region : Region) :
    Decidable (area.Detaches addr region) :=
  inferInstanceAs (Decidable (_ ∧ _ ∧ _))

end VmData

namespace Client

variable {client client' : Client} {area : VmData} {shared : Bool} {refcnt : UInt32} {addr : Nat}

/-- What the loop has done when it comes from an address on. -/
structure Freed (area : VmData) (addr : Nat) (client client' : Client) :
    Prop where
  areas : client'.areas = client.areas
  areasList : client'.areasList = client.areasList
  self : client'.self = client.self
  reserved : client'.map.reserved = client.map.reserved
  attached : ∀ region, region ∈ client'.map.attached ↔
    region ∈ client.map.attached ∧ ¬ area.Detaches addr region
  dataspaces : ∀ ds, (∀ region ∈ client.map.attached,
      area.Detaches addr region → region.ds ≠ some ds) →
    client'.dataspaces.objects ds = client.dataspaces.objects ds
  sent : ∃ more, client'.sent = client.sent ++ more
  untouched : (∀ region ∈ client.map.attached, ¬ area.Detaches addr region) → client' = client

theorem Freed.none (nothing : ∀ region ∈ client.map.attached,
    ¬ area.Detaches addr region) : Freed area addr client client where
  areas := rfl
  areasList := rfl
  self := rfl
  reserved := rfl
  attached := fun region =>
    ⟨fun member => ⟨member, nothing region member⟩, fun member => member.1⟩
  dataspaces := fun _ _ => rfl
  sent := ⟨[], (List.append_nil _).symm⟩
  untouched := fun _ => rfl

/-- A later start does the same when there is nothing between. -/
theorem Freed.of_same {addr' : Nat} (freed : Freed area addr' client client')
    (same : ∀ region ∈ client.map.attached,
      (area.Detaches addr' region ↔ area.Detaches addr region)) :
    Freed area addr client client' where
  areas := freed.areas
  areasList := freed.areasList
  self := freed.self
  reserved := freed.reserved
  attached := by
    intro region
    rw [freed.attached region]
    constructor
    · rintro ⟨member, kept⟩
      exact ⟨member, fun detaches => kept ((same region member).mpr detaches)⟩
    · rintro ⟨member, kept⟩
      exact ⟨member, fun detaches => kept ((same region member).mp detaches)⟩
  dataspaces := by
    intro ds other
    apply freed.dataspaces
    intro region member detaches
    exact other region member ((same region member).mp detaches)
  sent := freed.sent
  untouched := by
    intro nothing
    apply freed.untouched
    intro region member detaches
    exact nothing region member ((same region member).mp detaches)

/-- The state after a dataspace of an area has been given up. -/
structure GivesUp (start ds : Nat) (client client' : Client) : Prop where
  areas : client'.areas = client.areas
  areasList : client'.areasList = client.areasList
  self : client'.self = client.self
  map : client'.map = client.map.detach start
  dataspaces : ∀ other, other ≠ ds →
    client'.dataspaces.objects other = client.dataspaces.objects other
  sent : ∃ more, client'.sent = client.sent ++ more

theorem sendIf_cases (client : Client) (shared : Bool) (request : Request) :
    client.sendIf shared request = client ∨
      client.sendIf shared request = client.send request := by
  cases shared with
  | false => exact Or.inl rfl
  | true => exact Or.inr rfl

theorem freeDataspace_spec {owner : Nat} (owned : area.owner = some owner)
    (client : Client) (shared : Bool) (refcnt : UInt32) (start ds : Nat) :
    ∃ client', client.freeDataspace area shared refcnt start ds =
        .ok client' ∧ GivesUp start ds client client' := by
  have closed : ∀ other, other ≠ ds → (client.dataspaces.remove ds).objects other =
        client.dataspaces.objects other :=
    fun other different => Heap.remove_objects_of_ne different
  unfold freeDataspace
  cases shared with
  | false =>
    exact ⟨_, rfl, rfl, rfl, rfl, rfl, closed, [], (List.append_nil _).symm⟩
  | true =>
    by_cases last : refcnt = 0
    · simp only [if_true, if_pos last, owned, stored, map_ok]
      refine ⟨_, rfl, ?_⟩
      split
      · exact ⟨rfl, rfl, rfl, rfl, fun _ _ => rfl, _, List.append_assoc ..⟩
      · exact ⟨rfl, rfl, rfl, rfl, closed, _, rfl⟩
    · simp only [if_true, if_neg last]
      exact ⟨_, rfl, rfl, rfl, rfl, rfl, fun _ _ => rfl, _, rfl⟩

/-- The loop stands at an address that no region straddles, and the regions from
there to the end of the area are dataspaces in the area. -/
structure StandsAt (area : VmData) (addr : Nat) (client : Client) : Prop where
  small : area.stop < 2 ^ 32
  positive : 0 < area.addr
  lower : area.addr ≤ addr
  upper : addr ≤ area.stop
  owned : ∃ owner, area.owner = some owner
  reserved : ∃ reservation ∈ client.map.reserved, reservation.stop = area.stop
  cut : ∀ region ∈ client.map.attached, region.stop ≤ addr ∨ addr ≤ region.start
  inside : ∀ region ∈ client.map.attached, addr ≤ region.start →
    region.start < area.stop → region.ds.isSome ∧ region.stop ≤ area.stop

/-- A region of another kind is attached behind the area. -/
def Blocked (area : VmData) (client : Client) : Prop :=
  ∃ region ∈ client.map.attached, region.Has area.stop ∧ region.ds = none

/-- The loop comes to its end, or is ended by a region of another kind. -/
def Ends (area : VmData) (client : Client) (result : Option UInt32) : Prop :=
  (result = none ∧ ¬ Blocked area client) ∨ (result = some 487 ∧ Blocked area client)

section

variable {run : Run (Option UInt32 × Client)}

theorem freeLoop_outside (outside : area.contains addr = false) (client : Client) :
    Settles (fun fuel => freeLoop area shared refcnt fuel addr client)
      (.ok (none, client)) := by
  apply Settles.succ rfl _ (Settles.const _)
  intro fuel
  rw [freeLoop, if_neg (by rw [outside]; exact Bool.false_ne_true)]

theorem freeLoop_gap (inside : area.contains addr = true) (found : client.map.regionAt addr = none)
    (rest : Settles (fun fuel => freeLoop area shared refcnt fuel
      (client.map.above addr % 2 ^ 32) client) run) :
    Settles (fun fuel => freeLoop area shared refcnt fuel addr client) run := by
  apply Settles.succ rfl _ rest
  intro fuel
  rw [freeLoop, if_pos inside]
  rcases RegionMap.lookup_of_none found with reserved | free
  · rw [reserved]
  · rw [free]

theorem freeLoop_other {region : Region} (inside : area.contains addr = true)
    (found : client.map.regionAt addr = some region)
    (other : region.ds = none) :
    Settles (fun fuel => freeLoop area shared refcnt fuel addr client)
      (.ok (some 487, client)) := by
  apply Settles.succ rfl _ (Settles.const _)
  intro fuel
  rw [freeLoop, if_pos inside, RegionMap.lookup_of_region found]
  simp only [other]

theorem freeLoop_dataspace {region : Region} {ds : Nat} (inside : area.contains addr = true)
    (found : client.map.regionAt addr = some region)
    (dataspace : region.ds = some ds)
    (freed : client.freeDataspace area shared refcnt region.start ds = .ok client')
    (rest : Settles (fun fuel => freeLoop area shared refcnt fuel
      (region.stop % 2 ^ 32) client') run) :
    Settles (fun fuel => freeLoop area shared refcnt fuel addr client) run := by
  apply Settles.succ rfl _ rest
  intro fuel
  rw [freeLoop, if_pos inside, RegionMap.lookup_of_region found]
  simp only [dataspace, freed]
  rfl

end

namespace StandsAt

variable (stands : StandsAt area addr client)

include stands

theorem contains : area.contains addr = true :=
  (VmData.contains_iff stands.small addr).mpr ⟨stands.lower, stands.upper⟩

theorem start_eq {region : Region}
    (found : client.map.regionAt addr = some region) : region.start = addr := by
  obtain ⟨member, lower, upper⟩ := RegionMap.regionAt_eq_some_iff.mp found
  rcases stands.cut region member with before | behind
  · omega
  · omega

theorem outside {stop : Nat} (behind : area.stop < stop)
    (within : stop ≤ 2 ^ 32) : area.contains (stop % 2 ^ 32) = false := by
  apply Bool.eq_false_iff.mpr
  rw [Ne, VmData.contains_iff stands.small]
  rintro ⟨lower, upper⟩
  have positive := stands.positive
  rcases Nat.lt_or_eq_of_le within with smaller | equal
  · rw [Nat.mod_eq_of_lt smaller] at upper
    omega
  · rw [equal, Nat.mod_self] at lower
    omega

theorem detaches_above_iff (found : client.map.regionAt addr = none)
    {region : Region} (member : region ∈ client.map.attached) :
    area.Detaches (client.map.above addr) region ↔
      area.Detaches addr region := by
  have behind := RegionMap.lt_above client.map (Nat.lt_of_le_of_lt stands.upper stands.small)
  have before := RegionMap.below_le client.map addr
  have positive := client.map.positive region member
  have missing := RegionMap.regionAt_eq_none_iff.mp found region member
  constructor
  · rintro ⟨lower, rest⟩
    exact ⟨Nat.le_trans (Nat.le_of_lt behind) lower, rest⟩
  · rintro ⟨lower, rest⟩
    refine ⟨?_, rest⟩
    rcases RegionMap.bound_outside addr (RegionMap.region_bounds member).1 with small | large
    · exfalso
      apply missing
      unfold Region.Has Region.stop
      omega
    · exact large

theorem above_le (inArea : addr < area.stop) :
    client.map.above addr ≤ area.stop := by
  have before := RegionMap.below_le client.map addr
  obtain ⟨reservation, member, equal⟩ := stands.reserved
  rcases RegionMap.bound_outside addr (RegionMap.reservation_bounds member).2
    with small | large
  · omega
  · rw [← equal]
    exact large

theorem gap (found : client.map.regionAt addr = none) (inArea : addr < area.stop) :
    StandsAt area (client.map.above addr) client where
  small := stands.small
  positive := stands.positive
  lower := Nat.le_trans stands.lower (Nat.le_of_lt
    (RegionMap.lt_above client.map (Nat.lt_trans inArea stands.small)))
  upper := stands.above_le inArea
  owned := stands.owned
  reserved := stands.reserved
  cut := by
    intro region member
    have behind := RegionMap.lt_above client.map (Nat.lt_trans inArea stands.small)
    rcases stands.cut region member with before | after
    · exact Or.inl (Nat.le_trans before (Nat.le_of_lt behind))
    · right
      have before := RegionMap.below_le client.map addr
      have positive := client.map.positive region member
      have missing := RegionMap.regionAt_eq_none_iff.mp found region member
      rcases RegionMap.bound_outside addr (RegionMap.region_bounds member).1 with small | large
      · exfalso
        apply missing
        unfold Region.Has Region.stop
        omega
      · exact large
  inside := by
    intro region member lower upper
    have behind := RegionMap.lt_above client.map (Nat.lt_trans inArea stands.small)
    exact stands.inside region member (Nat.le_trans (Nat.le_of_lt behind) lower) upper

section

variable {region : Region} {ds : Nat} {after : Client}

section

variable (found : client.map.regionAt addr = some region)

include found

theorem detaches_iff (dataspace : region.ds = some ds) {other : Region}
    (member : other ∈ client.map.attached) :
    area.Detaches addr other ↔
      other = region ∨ area.Detaches region.stop other := by
  have start := stands.start_eq found
  obtain ⟨regionMember, has⟩ := RegionMap.regionAt_eq_some_iff.mp found
  constructor
  · rintro ⟨lower, rest⟩
    have positive := client.map.positive other member
    rcases client.map.apart other member region regionMember with equal | before | behind
    · exact Or.inl equal
    · unfold Region.stop at before
      omega
    · exact Or.inr ⟨behind, rest⟩
  · rintro (rfl | ⟨lower, rest⟩)
    · refine ⟨Nat.le_of_eq start.symm, ?_, ?_⟩
      · rw [start]
        exact stands.upper
      · rw [dataspace]
        rfl
    · exact ⟨Nat.le_trans (Nat.le_of_lt has.2) lower, rest⟩

/-- What has been done once the rest has been done. -/
theorem freed_dataspace (dataspace : region.ds = some ds)
    (givesUp : GivesUp region.start ds client after)
    (freed : Freed area region.stop after client') :
    Freed area addr client client' := by
  have start := stands.start_eq found
  obtain ⟨regionMember, has⟩ := RegionMap.regionAt_eq_some_iff.mp found
  have members : ∀ other, other ∈ after.map.attached ↔
      other ∈ client.map.attached ∧ ¬ other.Has addr := by
    intro other
    rw [givesUp.map, RegionMap.mem_detach_iff, start]
  have detached : area.Detaches addr region :=
    (stands.detaches_iff found dataspace regionMember).mpr (Or.inl rfl)
  refine
    { areas := freed.areas.trans givesUp.areas
      areasList := freed.areasList.trans givesUp.areasList
      self := freed.self.trans givesUp.self
      reserved := ?_, attached := ?_, dataspaces := ?_, sent := ?_
      untouched := fun nothing => absurd detached (nothing region regionMember) }
  · rw [freed.reserved, givesUp.map]
    rfl
  · intro other
    rw [freed.attached, members]
    constructor
    · rintro ⟨⟨member, missing⟩, kept⟩
      refine ⟨member, ?_⟩
      rw [stands.detaches_iff found dataspace member]
      rintro (rfl | detaches)
      · exact missing has
      · exact kept detaches
    · rintro ⟨member, kept⟩
      rw [stands.detaches_iff found dataspace member] at kept
      refine ⟨⟨member, fun has' => ?_⟩, fun detaches => kept (Or.inr detaches)⟩
      exact kept (Or.inl (RegionMap.eq_of_has member regionMember has' has))
  · intro other different
    have rest := freed.dataspaces other (by
      intro region' member detaches
      obtain ⟨member, -⟩ := (members region').mp member
      exact different region' member
        ((stands.detaches_iff found dataspace member).mpr (Or.inr detaches)))
    rw [rest]
    apply givesUp.dataspaces
    rintro rfl
    exact different region regionMember detached dataspace
  · obtain ⟨more, sent⟩ := givesUp.sent
    obtain ⟨rest, sent'⟩ := freed.sent
    exact ⟨more ++ rest, by rw [sent', sent, List.append_assoc]⟩

theorem dataspace (givesUp : GivesUp region.start ds client after)
    (inArea : addr < area.stop) : StandsAt area region.stop after := by
  have start := stands.start_eq found
  obtain ⟨regionMember, has⟩ := RegionMap.regionAt_eq_some_iff.mp found
  have members : ∀ other ∈ after.map.attached,
      other ∈ client.map.attached ∧ ¬ other.Has addr := by
    intro other
    rw [givesUp.map, RegionMap.mem_detach_iff, start]
    exact id
  refine
    { small := stands.small, positive := stands.positive
      lower := Nat.le_trans stands.lower (Nat.le_of_lt has.2)
      upper := (stands.inside region regionMember (Nat.le_of_eq start.symm) (start ▸ inArea)).2
      owned := stands.owned, reserved := ?_, cut := ?_, inside := ?_ }
  · rw [givesUp.map]
    exact stands.reserved
  · intro other member
    obtain ⟨member, missing⟩ := members other member
    rcases client.map.apart other member region regionMember with equal | before | behind
    · exact absurd (equal ▸ has) missing
    · left
      exact Nat.le_trans before (Nat.le_trans has.1 (Nat.le_of_lt has.2))
    · exact Or.inr behind
  · intro other member lower upper
    exact stands.inside other (members other member).1
      (Nat.le_trans (Nat.le_of_lt has.2) lower) upper

theorem blocked_iff (givesUp : GivesUp region.start ds client after)
    (inArea : addr < area.stop) : Blocked area after ↔ Blocked area client := by
  have start := stands.start_eq found
  obtain ⟨regionMember, has⟩ := RegionMap.regionAt_eq_some_iff.mp found
  unfold Blocked
  rw [givesUp.map]
  constructor
  · rintro ⟨other, member, rest⟩
    exact ⟨other, (RegionMap.mem_detach_iff.mp member).1, rest⟩
  · rintro ⟨other, member, behind, none⟩
    refine ⟨other, RegionMap.mem_detach_iff.mpr ⟨member, ?_⟩, behind, none⟩
    rw [start]
    intro has'
    have equal := RegionMap.eq_of_has member regionMember has' has
    obtain ⟨-, inside⟩ := stands.inside other member
      (equal ▸ Nat.le_of_eq start.symm) (equal ▸ start ▸ inArea)
    exact absurd behind.2 (Nat.not_lt.mpr inside)

end

end

end StandsAt

theorem freeLoop_last (stands : StandsAt area addr client) (last : addr = area.stop) :
    ∃ result client', Settles (fun fuel =>
        freeLoop area shared refcnt fuel addr client) (.ok (result, client')) ∧
      Freed area addr client client' ∧ Ends area client result := by
  cases found : client.map.regionAt addr with
  | none =>
    have missing := RegionMap.regionAt_eq_none_iff.mp found
    have behind := RegionMap.lt_above client.map (Nat.lt_of_le_of_lt stands.upper stands.small)
    refine ⟨none, client, freeLoop_gap stands.contains found
      (freeLoop_outside (stands.outside (last ▸ behind)
        (RegionMap.above_le client.map addr)) client),
      Freed.none ?_, Or.inl ⟨rfl, ?_⟩⟩
    · rintro region member ⟨lower, upper, -⟩
      have positive := client.map.positive region member
      apply missing region member
      unfold Region.Has Region.stop
      omega
    · rintro ⟨region, member, has, -⟩
      exact missing region member (last ▸ has)
  | some region =>
    obtain ⟨member, has⟩ := RegionMap.regionAt_eq_some_iff.mp found
    cases dataspace : region.ds with
    | none =>
      refine ⟨some 487, client, freeLoop_other stands.contains found dataspace, Freed.none ?_,
        Or.inr ⟨rfl, region, member, last ▸ has, dataspace⟩⟩
      rintro other member' ⟨lower, upper, isSome⟩
      have positive := client.map.positive other member'
      have has' : other.Has addr := by
        unfold Region.Has Region.stop
        omega
      rw [RegionMap.eq_of_has member' member has' has, dataspace] at isSome
      cases isSome
    | some ds =>
      obtain ⟨owner, owned⟩ := stands.owned
      obtain ⟨after, freed, givesUp⟩ :=
        freeDataspace_spec owned client shared refcnt region.start ds
      refine ⟨none, after, freeLoop_dataspace stands.contains found
        dataspace freed (freeLoop_outside (stands.outside (last ▸ has.2)
          (client.map.within region member)) after),
        stands.freed_dataspace found dataspace givesUp (Freed.none ?_),
        Or.inl ⟨rfl, ?_⟩⟩
      · rintro other - ⟨lower, upper, -⟩
        have behind := has.2
        omega
      · rintro ⟨other, member', has', none⟩
        rw [RegionMap.eq_of_has member' member (last ▸ has') has, dataspace] at none
        cases none

theorem freeLoop_settles (stands : StandsAt area addr client) :
    ∃ result client', Settles (fun fuel =>
        freeLoop area shared refcnt fuel addr client) (.ok (result, client')) ∧
      Freed area addr client client' ∧ Ends area client result := by
  induction rest : area.stop - addr using Nat.strongRecOn generalizing addr client with
  | ind rest ih =>
  rcases Nat.lt_or_eq_of_le stands.upper with inArea | last
  · cases found : client.map.regionAt addr with
    | none =>
      have behind := RegionMap.lt_above client.map (Nat.lt_trans inArea stands.small)
      obtain ⟨result, client', settles, freed, ends⟩ :=
        ih _ (by omega) (stands.gap found inArea) rfl
      refine ⟨result, client', freeLoop_gap stands.contains found ?_,
        freed.of_same fun region => stands.detaches_above_iff found, ends⟩
      rw [Nat.mod_eq_of_lt (Nat.lt_of_le_of_lt (stands.above_le inArea) stands.small)]
      exact settles
    | some region =>
      have start := stands.start_eq found
      obtain ⟨member, has⟩ := RegionMap.regionAt_eq_some_iff.mp found
      obtain ⟨isSome, inside⟩ := stands.inside region member
        (Nat.le_of_eq start.symm) (start ▸ inArea)
      obtain ⟨ds, dataspace⟩ := Option.isSome_iff_exists.mp isSome
      obtain ⟨owner, owned⟩ := stands.owned
      obtain ⟨after, freed, givesUp⟩ :=
        freeDataspace_spec owned client shared refcnt region.start ds
      have behind := has.2
      obtain ⟨result, client', settles, done, ends⟩ := ih _ (by omega)
          (stands.dataspace found givesUp inArea) rfl
      refine ⟨result, client', freeLoop_dataspace stands.contains found
        dataspace freed ?_, stands.freed_dataspace found dataspace givesUp done, ?_⟩
      · rw [Nat.mod_eq_of_lt (Nat.lt_of_le_of_lt inside stands.small)]
        exact settles
      · unfold Ends at ends ⊢
        rw [stands.blocked_iff found givesUp inArea] at ends
        exact ends
  · exact freeLoop_last stands last

end Client

end OsFree.Kal
