import Mathlib.Data.List.Basic
import OsFree.Machine.LinkedList
import OsFree.Modmgr.Record

/-!
# The list of memory areas

The server and every client keep a list of memory areas, linked both ways.  New
areas become the head of the list.
-/

namespace OsFree.Kal

open Machine
open Modmgr (Name)

/-- The record of a memory area; a member that is not stored yet is `none`. -/
structure VmData where
  name : Option Name
  isShared : Option Bool
  owner : Option Nat
  refcnt : Option UInt32
  rights : UInt32
  area : Nat
  addr : Nat
  size : Nat
  next : Pointer
  prev : Pointer
  deriving DecidableEq

namespace VmData

/-- The record without its links. -/
def data (area : VmData) : VmData := { area with next := none, prev := none }

/-- The address behind an area. -/
def stop (area : VmData) : Nat := area.addr + area.size

/-- The address is in the area, or is the first one behind it.  Addresses have
32 bits. -/
def contains (area : VmData) (addr : Nat) : Bool := area.addr ≤ addr ∧ addr ≤ area.stop % 2 ^ 32

/-- The area has a name that is not empty, and it is this one. -/
def named (area : VmData) (pszName : Name) : Run Bool :=
  (fun name => name ≠ [] ∧ name = pszName) <$> stored area.name

end VmData

/-- The records of areas, by address. -/
abbrev Areas := Heap VmData

namespace Areas

variable (areas : Areas)

/-- The first area of the list that an address is in. -/
def getArea (areasList : Pointer) (addr fuel : Nat) : Option (Run Pointer) :=
  areas.find (fun area => .ok (area.contains addr)) VmData.next fuel areasList

/-- The first area of the list with a name. -/
def getMemByName (areasList : Pointer) (pszName : Name) (fuel : Nat) :
    Option (Run Pointer) :=
  areas.find (fun area => area.named pszName) VmData.next fuel areasList

/-- Store the link to the next area in a record, if there is one. -/
def setNext (target next : Pointer) : Run Areas :=
  match target with
  | some address => areas.modify address fun area => { area with next }
  | none => .ok areas

/-- Store the link to the previous area in a record, if there is one. -/
def setPrev (target prev : Pointer) : Run Areas :=
  match target with
  | some address => areas.modify address fun area => { area with prev }
  | none => .ok areas

/-- Add a new record in front of the list. -/
def push (areasList : Pointer) (area : VmData) : Run Areas :=
  setPrev (areas.malloc { area with next := areasList, prev := none }) areasList (some areas.fresh)

/-- Take a record out of the list and free it.  The head of the list is not
changed. -/
def unlink (ptr : Nat) : Run Areas := do
  let area ← areas.read ptr
  let areas ← setNext areas area.prev area.next
  let area ← areas.read ptr
  let areas ← setPrev areas area.next area.prev
  areas.free ptr

/-- A record with the links to the areas before and behind it. -/
def AreaNode (before : Pointer) (address : Nat) (next : Pointer) : Prop :=
  ∃ area, areas.objects address = some area ∧ area.next = next ∧ area.prev = before

/-- The list is linked both ways and has these addresses. -/
abbrev WellLinked (areasList : Pointer) (addresses : List Nat) : Prop :=
  Linked areas.AreaNode none areasList addresses

/-- What a record says apart from its links is kept. -/
def SameData (areas' : Areas) (address : Nat) : Prop :=
  (areas'.objects address).map VmData.data = (areas.objects address).map VmData.data

variable {areas}

theorem areaNode_functional (before before' : Pointer) (address : Nat)
    (next next' : Pointer) (node : AreaNode areas before address next)
    (node' : AreaNode areas before' address next') : next = next' := by
  obtain ⟨area, found, rfl, -⟩ := node
  obtain ⟨area', found', rfl, -⟩ := node'
  rw [found] at found'
  cases found'
  rfl

variable {before head : Pointer}

theorem nodup_of_linked {addresses : List Nat}
    (linked : Linked areas.AreaNode before head addresses) :
    addresses.Nodup :=
  Linked.nodup areaNode_functional linked

theorem WellLinked.unique {areasList : Pointer} {addresses others : List Nat}
    (linked : areas.WellLinked areasList addresses)
    (linked' : areas.WellLinked areasList others) : addresses = others :=
  Linked.unique areaNode_functional linked linked'

theorem live_of_linked {last : Pointer} {addresses : List Nat}
    (linked : LinkedTo areas.AreaNode before head addresses last) :
    ∀ address ∈ addresses, ∃ area, areas.objects address = some area := by
  refine LinkedTo.forall_mem linked ?_
  rintro before address next ⟨area, found, -⟩
  exact ⟨area, found⟩

theorem data_setNext (area : VmData) (next : Pointer) :
    { area with next }.data = area.data := rfl

theorem data_setPrev (area : VmData) (prev : Pointer) :
    { area with prev }.data = area.data := rfl

theorem sameData_change {target : Nat} {f : VmData → VmData}
    (keeps : ∀ area, (f area).data = area.data) (address : Nat) :
    areas.SameData (areas.change target f) address := by
  unfold SameData
  by_cases here : address = target
  · rw [here, Heap.change_objects_self, Option.map_map]
    congr 1
    funext area
    exact keeps area
  · rw [Heap.change_objects_of_ne f here]

theorem change_linked {areasList : Pointer} {addresses : List Nat}
    (linked : areas.WellLinked areasList addresses) (target : Nat)
    {f : VmData → VmData}
    (keeps : ∀ area, (f area).next = area.next ∧ (f area).prev = area.prev) :
    WellLinked (areas.change target f) areasList addresses := by
  apply LinkedTo.mono linked
  rintro before address next member ⟨area, found, rfl, rfl⟩
  by_cases here : address = target
  · refine ⟨f area, ?_, keeps area⟩
    rw [here, Heap.change_objects_self, ← here, found]
    rfl
  · exact ⟨area, (Heap.change_objects_of_ne f here).trans found, rfl, rfl⟩

theorem setPrev_linked {addresses : List Nat}
    (linked : Linked areas.AreaNode before head addresses) (prev : Pointer) :
    ∃ areas', areas.setPrev head prev = .ok areas' ∧ Linked areas'.AreaNode prev head addresses ∧
      (∀ address, address ∉ addresses → areas'.objects address = areas.objects address) ∧
      ∀ address, areas.SameData areas' address := by
  cases addresses with
  | nil =>
    rw [show head = none from linked]
    exact ⟨areas, rfl, rfl, fun _ _ => rfl, fun _ => rfl⟩
  | cons first rest =>
    have different := nodup_of_linked linked
    obtain ⟨rfl, next, ⟨area, found, rfl, -⟩, linked⟩ := linked
    refine ⟨_, Heap.modify_of_live found _, ⟨rfl, area.next, ?_, ?_⟩, ?_, ?_⟩
    · refine ⟨{ area with prev }, ?_, rfl, rfl⟩
      rw [Heap.change_objects_self, found]
      rfl
    · apply LinkedTo.mono linked
      rintro before address next member ⟨other, found, links⟩
      refine ⟨other, ?_, links⟩
      rw [Heap.change_objects_of_ne, found]
      rintro rfl
      exact (List.nodup_cons.mp different).1 member
    · intro address outside
      apply Heap.change_objects_of_ne
      rintro rfl
      exact outside (List.mem_cons_self ..)
    · exact sameData_change fun area => data_setPrev area prev

theorem setNext_linked {old : Pointer} {front : List Nat}
    (linked : LinkedTo areas.AreaNode none head front old)
    (different : front.Nodup) (next : Pointer) :
    ∃ areas' head', areas.setNext (lastOr none front) next = .ok areas' ∧
      LinkedTo areas'.AreaNode none head' front next ∧
      (front ≠ [] → head' = head) ∧
      (∀ address, address ∉ front → areas'.objects address = areas.objects address) ∧
      ∀ address, areas.SameData areas' address := by
  rcases List.eq_nil_or_concat' front with rfl | ⟨rest, last, rfl⟩
  · exact ⟨areas, next, rfl, rfl, fun none => absurd rfl none, fun _ _ => rfl, fun _ => rfl⟩
  · obtain ⟨middle, first, rfl, next', ⟨area, found, rfl, back⟩, -⟩ := LinkedTo.append_iff.mp linked
    have outside : last ∉ rest := by
      intro member
      exact (List.nodup_append.mp different).2.2 last member last (List.mem_singleton_self last) rfl
    rw [lastOr_append_singleton]
    refine ⟨_, head, Heap.modify_of_live found _,
      LinkedTo.append_iff.mpr ⟨some last, ?_, rfl, next, ?_, rfl⟩,
      fun _ => rfl, ?_, ?_⟩
    · apply LinkedTo.mono first
      rintro before address next member ⟨other, found, links⟩
      refine ⟨other, ?_, links⟩
      rw [Heap.change_objects_of_ne, found]
      rintro rfl
      exact outside member
    · refine ⟨{ area with next }, ?_, rfl, back⟩
      rw [Heap.change_objects_self, found]
      rfl
    · intro address other
      apply Heap.change_objects_of_ne
      rintro rfl
      exact other (List.mem_append_right _ (List.mem_singleton_self address))
    · exact sameData_change fun area => data_setNext area next

theorem unlink_linked {front back : List Nat} {ptr : Nat}
    (linked : areas.WellLinked head (front ++ ptr :: back)) :
    ∃ areas' head', areas.unlink ptr = .ok areas' ∧ areas'.WellLinked head' (front ++ back) ∧
      (front ≠ [] → head' = head) ∧
      areas'.objects ptr = none ∧
      (∀ address, address ∉ front ++ ptr :: back → areas'.objects address = areas.objects address) ∧
      ∀ address, address ≠ ptr → areas.SameData areas' address := by
  have different := nodup_of_linked linked
  obtain ⟨differentFront, differentBack, apart⟩ := List.nodup_append.mp different
  obtain ⟨ptrOutside, -⟩ := List.nodup_cons.mp differentBack
  have ptrFront : ptr ∉ front := fun member =>
    apart ptr member ptr (List.mem_cons_self ..) rfl
  obtain ⟨middle, linkedFront, rfl, next, ⟨area, found, rfl, before⟩,
    linkedBack⟩ := LinkedTo.append_iff.mp linked
  -- first the record before this one is linked to the one behind it
  obtain ⟨areas₁, head', stored₁, linkedFront, sameHead, outside₁, data₁⟩ :=
    setNext_linked linkedFront differentFront area.next
  have found₁ : areas₁.objects ptr = some area := by
    rw [outside₁ ptr ptrFront, found]
  have linkedBack₁ : Linked areas₁.AreaNode (some ptr) area.next back := by
    apply LinkedTo.mono linkedBack
    rintro before address next member ⟨other, found, links⟩
    refine ⟨other, ?_, links⟩
    rw [outside₁, found]
    intro inFront
    exact apart address inFront address (List.mem_cons_of_mem ptr member) rfl
  -- then the record behind this one is linked back
  obtain ⟨areas₂, stored₂, linkedBack, outside₂, data₂⟩ := setPrev_linked linkedBack₁ area.prev
  have found₂ : areas₂.objects ptr = some area := by
    rw [outside₂ ptr ptrOutside, found₁]
  refine ⟨areas₂.remove ptr, head', ?_, ?_, sameHead, Heap.remove_objects_self ptr, ?_, ?_⟩
  · unfold unlink
    rw [Heap.read_of_live found, bind_ok, before, stored₁, bind_ok,
      Heap.read_of_live found₁, bind_ok, stored₂, bind_ok,
      Heap.free_of_live found₂]
  · apply LinkedTo.append_iff.mpr
    refine ⟨area.next, ?_, ?_⟩
    · apply LinkedTo.mono linkedFront
      rintro before address next member ⟨other, found, links⟩
      refine ⟨other, ?_, links⟩
      rw [Heap.remove_objects_of_ne, outside₂, found]
      · intro inBack
        exact apart address member address (List.mem_cons_of_mem ptr inBack) rfl
      · rintro rfl
        exact ptrFront member
    · rw [← before]
      apply LinkedTo.mono linkedBack
      rintro before address next member ⟨other, found, links⟩
      refine ⟨other, ?_, links⟩
      rw [Heap.remove_objects_of_ne, found]
      rintro rfl
      exact ptrOutside member
  · intro address outside
    rw [List.mem_append, List.mem_cons, not_or, not_or] at outside
    rw [Heap.remove_objects_of_ne outside.2.1, outside₂ _ outside.2.2, outside₁ _ outside.1]
  · intro address other
    unfold SameData
    rw [Heap.remove_objects_of_ne other]
    exact (data₂ address).trans (data₁ address)

theorem push_linked {areasList : Pointer} {addresses : List Nat}
    (linked : areas.WellLinked areasList addresses) (area : VmData) :
    ∃ areas', areas.push areasList area = .ok areas' ∧
      areas'.WellLinked (some areas.fresh) (areas.fresh :: addresses) ∧
      (areas'.objects areas.fresh).map VmData.data = some area.data ∧
      ∀ address, address ≠ areas.fresh → areas.SameData areas' address := by
  have live : ∀ address ∈ addresses, address < areas.fresh := by
    intro address member
    obtain ⟨area, found⟩ := live_of_linked linked address member
    exact Heap.lt_fresh found
  have linked₁ : Linked (AreaNode (areas.malloc
      { area with next := areasList, prev := none })) none areasList
      addresses := by
    apply LinkedTo.mono linked
    rintro before address next member ⟨other, found, links⟩
    exact ⟨other, Heap.malloc_objects_of_live _ found, links⟩
  obtain ⟨areas', stored, linked', outside, data⟩ := setPrev_linked linked₁ (some areas.fresh)
  have found : areas'.objects areas.fresh =
      some { area with next := areasList, prev := none } := by
    rw [outside _ fun member => Nat.lt_irrefl _ (live _ member), Heap.malloc_objects_fresh]
  refine ⟨areas', stored, ⟨rfl, areasList, ⟨_, found, rfl, rfl⟩, linked'⟩, ?_, ?_⟩
  · rw [found]
    rfl
  · intro address other
    refine (data address).trans ?_
    rw [Heap.malloc_objects_of_ne _ other]

theorem WellLinked.tested {areasList : Pointer} {addresses : List Nat}
    (linked : areas.WellLinked areasList addresses)
    {test : VmData → Run Bool} {passes : Nat → Bool}
    (tested : ∀ address ∈ addresses, ∀ area,
      areas.objects address = some area → test area = .ok (passes address)) :
    Linked (areas.Tested test VmData.next passes) none areasList addresses := by
  apply LinkedTo.mono linked
  rintro before address next member ⟨area, found, link, -⟩
  exact ⟨area, found, link, tested address member area found⟩

/-- The live area at an address contains another address. -/
def containsAt (areas : Areas) (addr address : Nat) : Bool :=
  (areas.objects address).any fun area => area.contains addr

variable {areasList : Pointer} {addresses : List Nat} {addr fuel : Nat}

theorem getArea_settles (linked : areas.WellLinked areasList addresses)
    (addr : Nat) : Settles (areas.getArea areasList addr)
      (.ok (addresses.find? (areas.containsAt addr))) := by
  have tests : ∀ address ∈ addresses, ∀ area, areas.objects address = some area →
        (.ok (area.contains addr) : Run Bool) =
          .ok (areas.containsAt addr address) := by
    intro address member area found
    rw [containsAt, found, Option.any_some]
  have tested := linked.tested tests
  exact ⟨⟨addresses.length + 1, fun _ enough => Heap.find_of_linked tested enough⟩,
    fun _ _ found => Heap.find_returned tested found⟩

/-- The live area at an address has a name. -/
def namedAt (areas : Areas) (pszName : Name) (address : Nat) : Bool :=
  (areas.objects address).any fun area =>
    area.name.any fun name => name ≠ [] ∧ name = pszName

/-- A name is stored in every record of the list. -/
def Named (areas : Areas) (addresses : List Nat) : Prop :=
  ∀ address ∈ addresses, ∀ area, areas.objects address = some area → ∃ name, area.name = some name

theorem Named.tested (named : areas.Named addresses) (pszName : Name) :
    ∀ address ∈ addresses, ∀ area, areas.objects address = some area →
      area.named pszName = .ok (areas.namedAt pszName address) := by
  intro address member area found
  obtain ⟨name, isStored⟩ := named address member area found
  rw [VmData.named, namedAt, found, Option.any_some, isStored]
  rfl

theorem Named.congr {areas' : Areas} {others : List Nat} (named : areas.Named addresses)
    (same : ∀ address ∈ others, address ∈ addresses ∧
      areas.SameData areas' address) : areas'.Named others := by
  intro address member area' found'
  obtain ⟨inside, data⟩ := same address member
  have equal := data.symm
  rw [found'] at equal
  obtain ⟨area, found, kept⟩ := Option.map_eq_some_iff.mp equal
  obtain ⟨name, isStored⟩ := named address inside area found
  exact ⟨name, (congrArg VmData.name kept).symm.trans isStored⟩

theorem getMemByName_settles (linked : areas.WellLinked areasList addresses)
    (named : areas.Named addresses) (pszName : Name) :
    Settles (areas.getMemByName areasList pszName)
      (.ok (addresses.find? (areas.namedAt pszName))) := by
  have tested := linked.tested (named.tested pszName)
  exact ⟨⟨addresses.length + 1, fun _ enough => Heap.find_of_linked tested enough⟩,
    fun _ _ found => Heap.find_returned tested found⟩

end Areas

end OsFree.Kal
