import OsFree.Machine.Span

/-!
# Registered memory areas

The memory manager lists the areas that are in use behind a root node that has
no addresses.  A request for an area is refused when it meets an area of the
list, which is decided by comparing the ends of both.  An end is a sum of 32
bits, and the comparisons fail when one of the two areas passes the last
address.
-/

namespace OsFree.Memmgr

open Machine

/-- A node of the list of areas. -/
structure MemArea where
  start : UInt32
  size : UInt32
  deriving DecidableEq

namespace MemArea

/-- The end of an area as it is computed. -/
def stop (area : MemArea) : UInt32 := area.size + area.start

/-- The addresses of an area. -/
def addresses (area : MemArea) : Set UInt32 := arc area.start area.size

/-- The three comparisons of an area of the list with a requested one. -/
def meets (el requested : MemArea) : Bool :=
  decide (el.start ≤ requested.start ∧ requested.start ≤ el.stop) ||
    decide (el.start ≤ requested.stop ∧ requested.stop ≤ el.stop) ||
    decide (requested.start ≤ el.start ∧ el.stop ≤ requested.stop)

/-- The area reaches the last address or passes it. -/
def Wraps (area : MemArea) : Prop := 2 ^ 32 ≤ area.start.toNat + area.size.toNat

instance (area : MemArea) : Decidable area.Wraps := inferInstanceAs (Decidable (_ ≤ _))

/-- One of two areas reaches the last address and the order of their starts or
of their computed ends is not that of an area inside the other. -/
def Overlooks (el requested : MemArea) : Prop :=
  if el.Wraps then
    el.start < requested.start ∨ requested.stop < el.stop
  else
    requested.Wraps ∧ (requested.start < el.start ∨ el.stop < requested.stop)

instance (el requested : MemArea) : Decidable (el.Overlooks requested) :=
  inferInstanceAs (Decidable (ite _ _ _))

theorem toNat_stop (area : MemArea) :
    area.stop.toNat = (area.start.toNat + area.size.toNat) % 2 ^ 32 := by
  rw [stop, UInt32.toNat_add, Nat.add_comm]

theorem disjoint_iff_not_overlooks {el requested : MemArea}
    (positive : 0 < el.size) (positive' : 0 < requested.size)
    (unmet : el.meets requested = false) :
    Disjoint el.addresses requested.addresses ↔ ¬el.Overlooks requested := by
  simp only [meets, Bool.or_eq_false_iff, decide_eq_false_iff_not] at unmet
  rw [addresses, addresses, disjoint_arc_iff positive positive', Overlooks]
  have stop_eq := el.toNat_stop
  have stop_eq' := requested.toNat_stop
  have start_lt := el.start.toNat_lt
  have start_lt' := requested.start.toNat_lt
  have size_lt' := requested.size.toNat_lt
  simp only [mem_arc_iff, Wraps, UInt32.lt_iff_toNat_lt, UInt32.le_iff_toNat_le,
    UInt32.toNat_sub, UInt32.toNat_zero] at *
  split <;> omega

end MemArea

/-- The list of areas behind the root node. -/
structure MemAreas where
  root : MemArea
  areas : List MemArea
  deriving DecidableEq

/-- The list without areas. -/
def initMemmgr : MemAreas where
  root := ⟨0, 0⟩
  areas := []

/-- The walk of `isMemUsed` from a node: each node behind it is compared with
the request, and the last one of the list is compared once more. -/
def usedFrom (requested : MemArea) : MemArea → List MemArea → Bool
  | el, [] => el.meets requested
  | _, el :: behind =>
    if el.meets requested then true else usedFrom requested el behind

/-- The request meets an area of the list, or the root node of an empty one. -/
def MemAreas.isMemUsed (areas : MemAreas) (start size : UInt32) : Bool :=
  usedFrom ⟨start, size⟩ areas.root areas.areas

/-- Append an area unless it is in use or there is no memory for its node. -/
def MemAreas.allocMemArea (areas : MemAreas) (start size : UInt32)
    (memory : Bool) : Bool × MemAreas :=
  if areas.isMemUsed start size then (false, areas)
  else if memory then
    (true, { areas with areas := areas.areas ++ [⟨start, size⟩] })
  else (false, areas)

/-- A request for an area with addresses, and whether there is memory for a
node when it is made. -/
structure Request where
  area : MemArea
  memory : Bool
  positive : 0 < area.size

/-- The requests are made one after the other: each with its answer, and the
list of areas behind the last one. -/
def run (areas : MemAreas) : List Request → List (Request × Bool) × MemAreas
  | [] => ([], areas)
  | request :: requests =>
    let (granted, areas) := areas.allocMemArea request.area.start request.area.size request.memory
    let (answered, areas) := run areas requests
    ((request, granted) :: answered, areas)

/-- The areas of the requests that were granted. -/
def grantedAreas (answered : List (Request × Bool)) : List MemArea :=
  (answered.filter (·.2)).map (·.1.area)

/-- No two areas of a list share an address. -/
def Apart (areas : List MemArea) : Prop :=
  areas.Pairwise fun el el' => Disjoint el.addresses el'.addresses

/-- Behind the requests the list has the areas of those that were granted and
no others, and no two of them share an address. -/
def RegistersApart (requests : List Request) : Prop :=
  let (answered, areas) := run initMemmgr requests
  areas.areas = grantedAreas answered ∧ Apart areas.areas

namespace MemAreas

variable (areas : MemAreas) (request : Request)

/-- The nodes that a request is compared with. -/
def compared : List MemArea :=
  if areas.areas = [] then [areas.root] else areas.areas

/-- A request that meets an area by the comparisons, one without memory for its
node, or one that overlooks no area of the list. -/
def Heeds : Prop := (∃ el ∈ areas.compared, el.meets request.area = true) ∨ request.memory = false ∨
    ∀ el ∈ areas.areas, ¬el.Overlooks request.area

end MemAreas

/-- Each request of a run heeds the areas that are in the list when it is made. -/
def HeedsAll (areas : MemAreas) : List Request → Prop
  | [] => True
  | request :: requests =>
    areas.Heeds request ∧ HeedsAll (areas.allocMemArea request.area.start request.area.size
        request.memory).2 requests

theorem usedFrom_eq_true_iff (requested el : MemArea) (behind : List MemArea) :
    usedFrom requested el behind = true ↔
      ∃ el' ∈ MemAreas.compared ⟨el, behind⟩, el'.meets requested = true := by
  induction behind generalizing el with
  | nil => simp [usedFrom, MemAreas.compared]
  | cons next behind ih =>
    have walk : usedFrom requested el (next :: behind) = true ↔
        next.meets requested = true ∨ usedFrom requested next behind = true := by
      simp [usedFrom]
    rw [walk, ih]
    cases behind <;> simp [MemAreas.compared]

namespace MemAreas

variable (areas : MemAreas) (request : Request)

theorem isMemUsed_eq_true_iff : areas.isMemUsed request.area.start request.area.size = true ↔
      ∃ el ∈ areas.compared, el.meets request.area = true :=
  usedFrom_eq_true_iff request.area areas.root areas.areas

theorem mem_compared {el : MemArea} (mem : el ∈ areas.areas) :
    el ∈ areas.compared := by
  have nonempty : areas.areas ≠ [] := List.ne_nil_of_mem mem
  rwa [compared, if_neg nonempty]

theorem areas_allocMemArea : (areas.allocMemArea request.area.start request.area.size
        request.memory).2.areas =
      areas.areas ++ grantedAreas [(request, (areas.allocMemArea
        request.area.start request.area.size request.memory).1)] := by
  simp only [allocMemArea]
  split
  · simp [grantedAreas]
  · split <;> simp [grantedAreas]

theorem allocMemArea_granted_iff :
    (areas.allocMemArea request.area.start request.area.size request.memory).1 = true ↔
      (∀ el ∈ areas.compared, el.meets request.area = false) ∧
        request.memory = true := by
  have used := areas.isMemUsed_eq_true_iff request
  simp only [allocMemArea]
  by_cases inUse : areas.isMemUsed request.area.start request.area.size = true
  · obtain ⟨el, mem, meets⟩ := used.mp inUse
    simp only [inUse, if_true]
    constructor
    · simp
    · intro unmet
      simp [unmet.1 el mem] at meets
  · have unmet : ∀ el ∈ areas.compared, el.meets request.area = false := by
      intro el mem
      apply Bool.eq_false_of_not_eq_true
      intro meets
      exact inUse (used.mpr ⟨el, mem, meets⟩)
    rw [if_neg inUse]
    cases request.memory with
    | false => simp
    | true => simpa using unmet

end MemAreas

theorem MemAreas.apart_allocMemArea_iff (areas : MemAreas) (request : Request)
    (sized : ∀ el ∈ areas.areas, 0 < el.size) (apart : Apart areas.areas) :
    Apart (areas.allocMemArea request.area.start request.area.size
        request.memory).2.areas ↔ areas.Heeds request := by
  rw [areas.areas_allocMemArea request]
  by_cases granted : (areas.allocMemArea request.area.start request.area.size
      request.memory).1 = true
  · have both := (areas.allocMemArea_granted_iff request).mp granted
    have unmet : ¬∃ el ∈ areas.compared, el.meets request.area = true := by
      intro met
      obtain ⟨el, mem, meets⟩ := met
      simp [both.1 el mem] at meets
    have appended : Apart (areas.areas ++ [request.area]) ↔
        ∀ el ∈ areas.areas, Disjoint el.addresses request.area.addresses := by
      rw [Apart, List.pairwise_append]
      simp [Apart] at apart ⊢
      exact fun _ => apart
    have each : ∀ el ∈ areas.areas, (Disjoint el.addresses request.area.addresses ↔
          ¬el.Overlooks request.area) := by
      intro el mem
      exact MemArea.disjoint_iff_not_overlooks (sized el mem) request.positive
        (both.1 el (areas.mem_compared mem))
    simp only [granted, grantedAreas, MemAreas.Heeds]
    simp only [unmet, both.2, false_or, Bool.true_eq_false]
    exact appended.trans (forall₂_congr each)
  · have refused := mt (areas.allocMemArea_granted_iff request).mpr granted
    have heeds : areas.Heeds request := by
      by_cases met : ∃ el ∈ areas.compared, el.meets request.area = true
      · exact Or.inl met
      · apply Or.inr ∘ Or.inl
        apply Bool.eq_false_of_not_eq_true
        intro memory
        apply refused
        exact ⟨by simpa using met, memory⟩
    simpa [granted, grantedAreas, heeds] using apart

theorem areas_run (areas : MemAreas) (requests : List Request) : (run areas requests).2.areas =
      areas.areas ++ grantedAreas (run areas requests).1 := by
  induction requests generalizing areas with
  | nil => simp [run, grantedAreas]
  | cons request requests ih =>
    simp only [run]
    rw [ih, areas.areas_allocMemArea request, List.append_assoc]
    simp only [grantedAreas, ← List.map_append, ← List.filter_append]
    rfl

theorem apart_of_apart_run (areas : MemAreas) (requests : List Request)
    (apart : Apart (run areas requests).2.areas) : Apart areas.areas := by
  rw [areas_run, Apart, List.pairwise_append] at apart
  exact apart.1

theorem apart_run_iff (areas : MemAreas) (requests : List Request)
    (sized : ∀ el ∈ areas.areas, 0 < el.size) (apart : Apart areas.areas) :
    Apart (run areas requests).2.areas ↔ HeedsAll areas requests := by
  induction requests generalizing areas with
  | nil => simpa [run, HeedsAll] using apart
  | cons request requests ih =>
    have step := areas.apart_allocMemArea_iff request sized apart
    have sized' : ∀ el ∈ (areas.allocMemArea request.area.start
        request.area.size request.memory).2.areas, 0 < el.size := by
      rw [areas.areas_allocMemArea request]
      intro el mem
      cases List.mem_append.mp mem with
      | inl mem => exact sized el mem
      | inr mem =>
        have named : request.area = el := by
          simp [grantedAreas] at mem
          exact mem.2
        rw [← named]
        exact request.positive
    rw [HeedsAll, ← step]
    constructor
    · intro later
      have kept := apart_of_apart_run _ requests later
      exact ⟨kept, (ih _ sized' kept).mp later⟩
    · intro both
      exact (ih _ sized' both.1).mpr both.2

/-- The areas that a run from the empty list registers are those it grants and
are apart exactly when each request heeds the areas before it. -/
theorem registersApart_iff_heedsAll (requests : List Request) :
    RegistersApart requests ↔ HeedsAll initMemmgr requests := by
  have registered := areas_run initMemmgr requests
  have apart := apart_run_iff initMemmgr requests (by simp [initMemmgr])
    (by simp [initMemmgr, Apart])
  rw [← apart]
  simpa [RegistersApart, initMemmgr] using fun _ => registered

/-- An area of one page, and a request behind it whose end is address zero. -/
def passing : List Request :=
  [⟨⟨0xF0000000, 0x1000⟩, true, by decide⟩, ⟨⟨0xE0000000, 0x20000000⟩, true, by decide⟩]

/-- Both requests are granted, and the second area contains the first. -/
theorem passing_not_registersApart : ¬RegistersApart passing := by
  intro registers
  have both : (run initMemmgr passing).2.areas =
      [⟨0xF0000000, 0x1000⟩, ⟨0xE0000000, 0x20000000⟩] := by decide
  have apart : Apart (run initMemmgr passing).2.areas := registers.2
  simp only [both, Apart, List.pairwise_pair] at apart
  have first : 0xF0000000 ∈ arc 0xF0000000 0x1000 := by
    rw [mem_arc_iff]
    decide
  have second : 0xF0000000 ∈ arc 0xE0000000 0x20000000 := by
    rw [mem_arc_iff]
    decide
  exact Set.disjoint_left.mp apart first second

end OsFree.Memmgr
