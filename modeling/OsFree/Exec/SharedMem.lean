import Mathlib.Data.List.Nodup
import OsFree.Kal.VmData
import OsFree.Machine.Transition

/-!
# Shared memory in the server

The server keeps one list of all shared areas, and counts the references that
clients have to each of them.  When the last reference goes, the record is taken
out of the list and freed, but the head of the list is not changed.
-/

namespace OsFree.Exec

open Machine
open Modmgr (Name)
open Kal

/-- The list of shared areas. -/
structure AreaServer where
  areas : Areas
  areasList : Pointer

/-- The return code of a call, and what it stores for the client. -/
structure Answer where
  rc : UInt32
  area : Option Nat := none
  addr : Option Nat := none
  size : Option Nat := none
  owner : Option Nat := none
  count : Option UInt32 := none
  deriving DecidableEq

/-- A call of a client with the outcome of what the server calls in turn: the
region mapper reserves an address range in an area or none, there is room for
another record or not, and the region mapper returns a code when the area is
released. -/
inductive SharedMemCall where
  | alloc (size : Nat) (name : Name) (rights : UInt32) (reserved : Option (Nat × Nat)) (room : Bool)
  | get (pb : Nat)
  | getNamed (name : Name)
  | increment (addr : Nat)
  | release (addr : Nat) (released : UInt32)
  deriving DecidableEq

/-- Copy a name to a member that has 256 characters. -/
def copyName (name : Name) : Run Name :=
  if name.length < 256 then .ok name else .error .writeOutside

namespace AreaServer

/-- The server before the first call. -/
def initial : AreaServer := { areas := Heap.empty, areasList := none }

variable (server : AreaServer)

/-- Allocate a shared area with one reference. -/
def excAllocSharedMem (size : Nat) (name : Option Name) (rights : UInt32)
    (reserved : Option (Nat × Nat)) (room : Bool) :
    Run (Answer × AreaServer) :=
  match reserved with
  | none => .ok ({ rc := 8 }, server)
  | some (addr, area) =>
    if room then do
      let copied ← match name with
        | some name => some <$> copyName name
        | none => .ok none
      let areas ← server.areas.push server.areasList
        { name := copied, isShared := none, owner := none, refcnt := some 1,
          rights, area, addr, size, next := none, prev := none }
      return ({ rc := 0, area := some area, addr := some addr },
        { areas, areasList := some server.areas.fresh })
    else .ok ({ rc := 8, area := some area, addr := some addr }, server)

/-- Go on with the area that a search finds; without one a call returns an
error. -/
def withArea (found : Option (Run Pointer)) (missing : UInt32)
    (next : Nat → Run (Answer × AreaServer)) :
    Option (Run (Answer × AreaServer)) :=
  andThen found fun
    | none => some (.ok ({ rc := missing }, server))
    | some ptr => some (next ptr)

/-- Store the reference count of an area. -/
def storeCount (ptr : Nat) (count : UInt32) : Run AreaServer :=
  (fun areas => { server with areas }) <$>
    server.areas.modify ptr fun area => { area with refcnt := some count }

/-- Count another reference to an area. -/
def addReference (ptr : Nat) : Run AreaServer := do
  let area ← server.areas.read ptr
  let count ← stored area.refcnt
  server.storeCount ptr (count + 1)

/-- Count another reference to an area, and tell where it is. -/
def giveArea (ptr : Nat) : Run (Answer × AreaServer) := do
  let server ← server.addReference ptr
  let area ← server.areas.read ptr
  return ({ rc := 0, addr := some area.addr, size := some area.size,
            owner := area.owner }, server)

def excGetSharedMem (pb fuel : Nat) : Option (Run (Answer × AreaServer)) :=
  server.withArea (server.areas.getArea server.areasList pb fuel) 487 server.giveArea

def excGetNamedSharedMem (name : Name) (fuel : Nat) :
    Option (Run (Answer × AreaServer)) :=
  server.withArea (server.areas.getMemByName server.areasList name fuel) 123 server.giveArea

def excIncrementSharedMemRefcnt (addr fuel : Nat) :
    Option (Run (Answer × AreaServer)) :=
  server.withArea (server.areas.getArea server.areasList addr fuel) 123
    fun ptr => (fun server => ({ rc := 0 }, server)) <$> server.addReference ptr

/-- Give up a reference to an area.  The area goes with the last one. -/
def releaseArea (released : UInt32) (ptr : Nat) :
    Run (Answer × AreaServer) := do
  let area ← server.areas.read ptr
  let count ← stored area.refcnt
  let server ← server.storeCount ptr (count - 1)
  if count - 1 ≠ 0 then
    return ({ rc := 0, count := some (count - 1) }, server)
  else
    let areas ← server.areas.unlink ptr
    return ({ rc := released, count := some 0 }, { server with areas })

def excReleaseSharedMem (addr : Nat) (released : UInt32) (fuel : Nat) :
    Option (Run (Answer × AreaServer)) :=
  server.withArea (server.areas.getArea server.areasList addr fuel) 487
    (server.releaseArea released)

/-- Serve a call, as far as the fuel goes. -/
def serve (fuel : Nat) : SharedMemCall → Option (Run (Answer × AreaServer))
  | .alloc size name rights reserved room =>
    some (server.excAllocSharedMem size (some name) rights reserved room)
  | .get pb => server.excGetSharedMem pb fuel
  | .getNamed name => server.excGetNamedSharedMem name fuel
  | .increment addr => server.excIncrementSharedMemRefcnt addr fuel
  | .release addr released => server.excReleaseSharedMem addr released fuel

/-- A live area has this reference count. -/
def HasCount (ptr : Nat) (count : UInt32) : Prop :=
  ∃ area, server.areas.objects ptr = some area ∧ area.refcnt = some count

/-- The list is well linked and has every area whose reference count is
positive once, and no other. -/
def ListsAreas : Prop :=
  ∃ addresses, server.areas.WellLinked server.areasList addresses ∧ addresses.Nodup ∧
    ∀ ptr, ptr ∈ addresses ↔ ∃ count, count ≠ 0 ∧ server.HasCount ptr count

/-- The call returns, and leaves a list as required. -/
def Keeps (call : SharedMemCall) : Prop :=
  ∃ fuel answer server', server.serve fuel call = some (.ok (answer, server')) ∧ server'.ListsAreas

/-- The search for an address finds this area. -/
def FindsArea (addr ptr : Nat) : Prop :=
  ∃ fuel, server.areas.getArea server.areasList addr fuel = some (.ok (some ptr))

/-- The search for a name finds this area. -/
def FindsName (name : Name) (ptr : Nat) : Prop :=
  ∃ fuel, server.areas.getMemByName server.areasList name fuel = some (.ok (some ptr))

/-- A new area has a name that fits, a reference is not counted beyond 32 bits,
and the last reference is not to the head of the list. -/
def Allowed : SharedMemCall → Prop
  | .alloc _ name _ reserved room =>
    reserved = none ∨ room = false ∨ name.length < 256
  | .get pb => ∀ ptr, server.FindsArea pb ptr → ¬ server.HasCount ptr (-1)
  | .getNamed name => ∀ ptr, server.FindsName name ptr → ¬ server.HasCount ptr (-1)
  | .increment addr => ∀ ptr, server.FindsArea addr ptr → ¬ server.HasCount ptr (-1)
  | .release addr _ => ∀ ptr, server.FindsArea addr ptr →
      server.HasCount ptr 1 → server.areasList ≠ some ptr

/-- A call that is allowed is served. -/
def AllowedStep (server server' : AreaServer) : Prop := ∃ call fuel answer, server.Allowed call ∧
    server.serve fuel call = some (.ok (answer, server'))

end AreaServer

/-!
## The list of shared areas along a run

A call keeps the list of shared areas just when it is allowed: the other calls
overflow the name of a new record, count a reference back to zero, or free the
head of the list.
-/

namespace AreaServer

/-- The list is well linked, its areas have names, and they are the areas whose
reference count is positive. -/
structure Sound (server : AreaServer) (addresses : List Nat) : Prop where
  linked : server.areas.WellLinked server.areasList addresses
  named : server.areas.Named addresses
  counted : ∀ ptr, ptr ∈ addresses ↔ ∃ count, count ≠ 0 ∧ server.HasCount ptr count

variable {server server' : AreaServer} {addresses : List Nat} {ptr addr fuel : Nat}

theorem HasCount.unique {count count' : UInt32}
    (has : server.HasCount ptr count) (has' : server.HasCount ptr count') :
    count = count' := by
  obtain ⟨area, found, counted⟩ := has
  obtain ⟨area', found', counted'⟩ := has'
  rw [found] at found'
  cases found'
  rw [counted] at counted'
  exact Option.some.inj counted'

theorem hasCount_congr (same : server.areas.SameData server'.areas ptr)
    (count : UInt32) : server'.HasCount ptr count ↔ server.HasCount ptr count := by
  have refcnts : (server'.areas.objects ptr).map VmData.refcnt =
      (server.areas.objects ptr).map VmData.refcnt := by
    have mapped := congrArg (Option.map VmData.refcnt) same
    rw [Option.map_map, Option.map_map] at mapped
    exact mapped
  constructor
  · rintro ⟨area, found, counted⟩
    rw [found] at refcnts
    obtain ⟨area', found', equal⟩ := Option.map_eq_some_iff.mp refcnts.symm
    exact ⟨area', found', equal.trans counted⟩
  · rintro ⟨area, found, counted⟩
    rw [found] at refcnts
    obtain ⟨area', found', equal⟩ := Option.map_eq_some_iff.mp refcnts
    exact ⟨area', found', equal.trans counted⟩

namespace Sound

theorem listsAreas (sound : server.Sound addresses) : server.ListsAreas :=
  ⟨addresses, sound.linked, Areas.nodup_of_linked sound.linked, sound.counted⟩

theorem initial : AreaServer.initial.Sound [] where
  linked := rfl
  named := by simp [Areas.Named]
  counted := by
    intro ptr
    constructor
    · intro member
      cases member
    · rintro ⟨count, -, area, found, -⟩
      cases found

theorem count (sound : server.Sound addresses) (member : ptr ∈ addresses) :
    ∃ area count, server.areas.objects ptr = some area ∧
      area.refcnt = some count ∧ count ≠ 0 := by
  obtain ⟨count, positive, area, found, counted⟩ := (sound.counted ptr).mp member
  exact ⟨area, count, found, counted, positive⟩

end Sound

/-- The server after a reference count has been stored. -/
def withCount (server : AreaServer) (ptr : Nat) (count : UInt32) : AreaServer :=
  { server with
    areas := server.areas.change ptr fun area =>
      { area with refcnt := some count } }

theorem storeCount_of_live {area : VmData}
    (found : server.areas.objects ptr = some area) (count : UInt32) :
    server.storeCount ptr count = .ok (server.withCount ptr count) := by
  unfold storeCount
  rw [Heap.modify_of_live found, map_ok]
  rfl

theorem withCount_linked (linked : server.areas.WellLinked server.areasList addresses) (ptr : Nat)
    (count : UInt32) : (server.withCount ptr count).areas.WellLinked
      (server.withCount ptr count).areasList addresses :=
  Areas.change_linked linked ptr fun _ => ⟨rfl, rfl⟩

theorem withCount_objects_self {area : VmData}
    (found : server.areas.objects ptr = some area) (count : UInt32) :
    (server.withCount ptr count).areas.objects ptr =
      some { area with refcnt := some count } := by
  calc (server.withCount ptr count).areas.objects ptr
      = (server.areas.objects ptr).map _ := Heap.change_objects_self ..
    _ = _ := by
        rw [found]
        rfl

theorem withCount_hasCount_of_ne {other : Nat} (different : other ≠ ptr) (count count' : UInt32) :
    (server.withCount ptr count).HasCount other count' ↔
      server.HasCount other count' := by
  unfold HasCount
  rw [show (server.withCount ptr count).areas.objects other = _ from
    Heap.change_objects_of_ne _ different]

theorem withCount_named (named : server.areas.Named addresses) (ptr : Nat) (count : UInt32) :
    (server.withCount ptr count).areas.Named addresses := by
  intro address member area found
  by_cases here : address = ptr
  · rw [here, show (server.withCount ptr count).areas.objects ptr =
      (server.areas.objects ptr).map _ from Heap.change_objects_self ..] at found
    obtain ⟨before, foundBefore, rfl⟩ := Option.map_eq_some_iff.mp found
    exact named address member before (here ▸ foundBefore)
  · rw [show (server.withCount ptr count).areas.objects address = _ from
      Heap.change_objects_of_ne _ here] at found
    exact named address member area found

theorem Sound.withCount (sound : server.Sound addresses)
    (member : ptr ∈ addresses) {count : UInt32} (positive : count ≠ 0) :
    (server.withCount ptr count).Sound addresses where
  linked := withCount_linked sound.linked ptr count
  named := withCount_named sound.named ptr count
  counted := by
    intro other
    by_cases here : other = ptr
    · obtain ⟨area, before, found, -⟩ := sound.count member
      rw [here]
      exact ⟨fun _ => ⟨count, positive, _, withCount_objects_self found count,
        rfl⟩, fun _ => member⟩
    · simp only [withCount_hasCount_of_ne here]
      exact sound.counted other

theorem not_listsAreas_withCount_zero (sound : server.Sound addresses)
    (member : ptr ∈ addresses) : ¬ (server.withCount ptr 0).ListsAreas := by
  rintro ⟨others, linked, -, counted⟩
  have same : others = addresses := linked.unique (withCount_linked sound.linked ptr 0)
  rw [same] at counted
  obtain ⟨area, before, found, -⟩ := sound.count member
  obtain ⟨count, positive, has⟩ := (counted ptr).mp member
  exact positive (has.unique ⟨_, withCount_objects_self found 0, rfl⟩)

/-- What a call does once it knows the area. -/
def onArea (server : AreaServer) (missing : UInt32) (next : Nat → Run (Answer × AreaServer)) :
    Pointer → Run (Answer × AreaServer)
  | none => .ok ({ rc := missing }, server)
  | some ptr => next ptr

theorem withArea_settles {find : Nat → Option (Run Pointer)} {result : Pointer}
    (missing : UInt32) (next : Nat → Run (Answer × AreaServer))
    (settles : Settles find (.ok result)) :
    Settles (fun fuel => server.withArea (find fuel) missing next)
      (server.onArea missing next result) := by
  apply settles.andThen
  cases result with
  | none => exact Settles.const _
  | some ptr => exact Settles.const _

/-- Either the run is allowed and leaves a list as required, or it is not and
does not. -/
def Decides (run : Run (Answer × AreaServer)) (allowed : Prop) : Prop :=
  (allowed ∧ ∃ answer server' addresses, run = .ok (answer, server') ∧ server'.Sound addresses) ∨
    ¬ allowed ∧ ∀ answer server', run = .ok (answer, server') → ¬ server'.ListsAreas

theorem onArea_decides {missing : UInt32}
    {next : Nat → Run (Answer × AreaServer)} {passes : Nat → Bool}
    {allowed : Nat → Prop} (sound : server.Sound addresses)
    (decides : ∀ ptr ∈ addresses, Decides (next ptr) (allowed ptr)) :
    Decides (server.onArea missing next (addresses.find? passes))
      (∀ ptr, addresses.find? passes = some ptr → allowed ptr) := by
  cases found : addresses.find? passes with
  | none =>
    refine Or.inl ⟨?_, _, server, addresses, rfl, sound⟩
    intro ptr impossible
    cases impossible
  | some ptr =>
    rcases decides ptr (List.mem_of_find?_eq_some found) with ⟨holds, after⟩ | ⟨fails, lost⟩
    · refine Or.inl ⟨?_, after⟩
      rintro other ⟨⟩
      exact holds
    · exact Or.inr ⟨fun holds => fails (holds ptr rfl), lost⟩

theorem addReference_of_live {area : VmData} {count : UInt32}
    (found : server.areas.objects ptr = some area)
    (counted : area.refcnt = some count) :
    server.addReference ptr = .ok (server.withCount ptr (count + 1)) := by
  unfold addReference
  rw [Heap.read_of_live found, bind_ok, counted]
  exact storeCount_of_live found _

theorem giveArea_of_live {area : VmData} {count : UInt32}
    (found : server.areas.objects ptr = some area)
    (counted : area.refcnt = some count) :
    ∃ answer, server.giveArea ptr =
      .ok (answer, server.withCount ptr (count + 1)) := by
  unfold giveArea
  rw [addReference_of_live found counted, bind_ok,
    Heap.read_of_live (withCount_objects_self found _)]
  exact ⟨_, rfl⟩

theorem counts_decides (sound : server.Sound addresses)
    (member : ptr ∈ addresses) {run : Run (Answer × AreaServer)}
    (counts : ∀ area count, server.areas.objects ptr = some area →
      area.refcnt = some count → ∃ answer, run = .ok (answer, server.withCount ptr (count + 1))) :
    Decides run (¬ server.HasCount ptr (-1)) := by
  obtain ⟨area, count, found, counted, -⟩ := sound.count member
  obtain ⟨answer, done⟩ := counts area count found counted
  by_cases full : count = -1
  · refine Or.inr ⟨fun room => room ⟨area, found, full ▸ counted⟩, ?_⟩
    intro answer' server' done'
    rw [done, full] at done'
    cases done'
    exact not_listsAreas_withCount_zero sound member
  · refine Or.inl ⟨?_, answer, _, addresses, done, sound.withCount member ?_⟩
    · intro has
      exact full (HasCount.unique ⟨area, found, counted⟩ has)
    · intro zero
      apply full
      calc count = count + 1 - 1 := (UInt32.add_sub_cancel count 1).symm
        _ = -1 := by rw [zero, UInt32.zero_sub]

theorem releaseArea_of_more (released : UInt32) {area : VmData} {count : UInt32}
    (found : server.areas.objects ptr = some area)
    (counted : area.refcnt = some count) (more : count - 1 ≠ 0) :
    server.releaseArea released ptr =
      .ok ({ rc := 0, count := some (count - 1) },
        server.withCount ptr (count - 1)) := by
  unfold releaseArea
  rw [Heap.read_of_live found, bind_ok, counted]
  simp only [stored, bind_ok, storeCount_of_live found, if_pos more]
  rfl

theorem releaseArea_of_last (released : UInt32) {area : VmData}
    (found : server.areas.objects ptr = some area)
    (counted : area.refcnt = some 1) :
    server.releaseArea released ptr =
      (fun areas => ({ rc := released, count := some 0 },
        { server with areas })) <$> (server.withCount ptr 0).areas.unlink ptr := by
  unfold releaseArea
  rw [Heap.read_of_live found, bind_ok, counted]
  simp only [stored, bind_ok, storeCount_of_live found, UInt32.sub_self, ne_eq,
    not_true_eq_false, if_false]
  rfl

theorem Sound.unlinked {front back : List Nat}
    (sound : server.Sound (front ++ ptr :: back)) (inside : front ≠ []) :
    ∃ areas, (server.withCount ptr 0).areas.unlink ptr = .ok areas ∧
      AreaServer.Sound { server with areas } (front ++ back) ∧
      ∀ address, address ≠ ptr →
        (server.withCount ptr 0).areas.SameData areas address := by
  have outside : ptr ∉ front ++ back := (List.nodup_cons.mp
      (List.nodup_middle.mp (Areas.nodup_of_linked sound.linked))).1
  have members : ∀ other, other ≠ ptr → (other ∈ front ++ back ↔ other ∈ front ++ ptr :: back) := by
    intro other different
    simp [different]
  obtain ⟨areas, head, unlinked, linked, sameHead, freed, -, data⟩ :=
    Areas.unlink_linked (withCount_linked sound.linked ptr 0)
  rw [sameHead inside] at linked
  refine ⟨areas, unlinked, ⟨linked, ?_, ?_⟩, data⟩
  · apply (withCount_named sound.named ptr 0).congr
    intro address member
    have different : address ≠ ptr := by
      rintro rfl
      exact outside member
    exact ⟨(members address different).mp member, data address different⟩
  · intro other
    by_cases here : other = ptr
    · constructor
      · intro member
        exact absurd (here ▸ member) outside
      · rintro ⟨count, -, area, found, -⟩
        rw [here, show areas.objects ptr = none from freed] at found
        cases found
    · have counts : ∀ count, AreaServer.HasCount { server with areas } other
          count ↔ server.HasCount other count := by
        intro count
        rw [hasCount_congr (data other here), withCount_hasCount_of_ne here 0 count]
      simp only [counts]
      rw [members other here]
      exact sound.counted other

theorem not_listsAreas_of_freed {areas : Areas}
    (head : server.areasList = some ptr) (freed : areas.objects ptr = none) :
    ¬ AreaServer.ListsAreas { server with areas } := by
  rintro ⟨addresses, linked, -⟩
  rw [show (AreaServer.mk areas server.areasList).areasList = some ptr from head]
    at linked
  cases addresses with
  | nil => cases linked
  | cons first rest =>
    obtain ⟨equal, next, ⟨area, found, -⟩, -⟩ := linked
    cases equal
    rw [show areas.objects ptr = none from freed] at found
    cases found

section

variable (sound : server.Sound addresses)

include sound

/-- A reference is given up when it is not the last one to the head. -/
theorem releaseArea_decides (member : ptr ∈ addresses) (released : UInt32) :
    Decides (server.releaseArea released ptr)
      (server.HasCount ptr 1 → server.areasList ≠ some ptr) := by
  obtain ⟨area, count, found, counted, positive⟩ := sound.count member
  by_cases last : count = 1
  · rw [last] at counted
    have done := releaseArea_of_last released found counted
    obtain ⟨front, back, rfl⟩ := List.append_of_mem member
    have head := sound.linked.head_eq
    cases front with
    | nil =>
      refine Or.inr ⟨fun keepsHead => keepsHead ⟨area, found, counted⟩ head, ?_⟩
      intro answer server' done'
      rw [done] at done'
      obtain ⟨areas, unlinked, equal⟩ := map_eq_ok_iff.mp done'
      cases equal
      obtain ⟨areas', head', unlinked', -, -, freed, -⟩ :=
        Areas.unlink_linked (withCount_linked sound.linked ptr 0)
      rw [show (server.withCount ptr 0).areas.unlink ptr = .ok areas' from unlinked'] at unlinked
      cases unlinked
      exact not_listsAreas_of_freed head freed
    | cons first front =>
      obtain ⟨areas, unlinked, sound', -⟩ := sound.unlinked (List.cons_ne_nil first front)
      refine Or.inl ⟨fun _ => ?_, { rc := released, count := some 0 }, _, _, ?_, sound'⟩
      · rw [head]
        intro equal
        have nodup := List.nodup_middle.mp (Areas.nodup_of_linked sound.linked)
        apply (List.nodup_cons.mp nodup).1
        rw [show first = ptr from Option.some.inj equal]
        exact List.mem_append_left _ (List.mem_cons_self ..)
      · rw [done, unlinked]
        rfl
  · have more : count - 1 ≠ 0 := by
      intro zero
      apply last
      calc count = count - 1 + 1 := (UInt32.sub_add_cancel count 1).symm
        _ = 1 := by rw [zero, UInt32.zero_add]
    refine Or.inl ⟨fun one => ?_, _, _, addresses, releaseArea_of_more released found counted more,
      sound.withCount member more⟩
    exact absurd (HasCount.unique ⟨area, found, counted⟩ one) last

theorem Sound.pushed (area : VmData) {name : Name} (named : area.name = some name)
    (counted : area.refcnt = some 1) :
    ∃ areas, server.areas.push server.areasList area = .ok areas ∧
      AreaServer.Sound { areas, areasList := some server.areas.fresh }
        (server.areas.fresh :: addresses) ∧
      (areas.objects server.areas.fresh).map VmData.data = some area.data ∧
      ∀ address, address ≠ server.areas.fresh →
        server.areas.SameData areas address := by
  obtain ⟨areas, pushed, linked, data, others⟩ := Areas.push_linked sound.linked area
  obtain ⟨record, found, kept⟩ := Option.map_eq_some_iff.mp data
  refine ⟨areas, pushed, ⟨linked, ?_, ?_⟩, data, others⟩
  · intro address member area' found'
    by_cases here : address = server.areas.fresh
    · rw [here, show areas.objects server.areas.fresh = _ from found] at found'
      cases found'
      exact ⟨name, (congrArg VmData.name kept).trans named⟩
    · have same : areas.Named [address] := by
        apply sound.named.congr
        intro other inside
        rw [List.mem_singleton.mp inside]
        exact ⟨(List.mem_cons.mp member).resolve_left here, others address here⟩
      exact same address (List.mem_singleton_self address) area' found'
  · intro other
    by_cases here : other = server.areas.fresh
    · rw [here]
      refine ⟨fun _ => ⟨1, by decide, record, found, ?_⟩, fun _ => List.mem_cons_self ..⟩
      exact (congrArg VmData.refcnt kept).trans counted
    · have counts : ∀ count, AreaServer.HasCount
          { areas, areasList := some server.areas.fresh } other count ↔
            server.HasCount other count := fun count =>
        hasCount_congr (others other here) count
      simp only [counts, List.mem_cons, here, false_or]
      exact sound.counted other

theorem excAllocSharedMem_decides (size : Nat)
    (name : Name) (rights : UInt32) (reserved : Option (Nat × Nat))
    (room : Bool) :
    Decides (server.excAllocSharedMem size (some name) rights reserved room)
      (reserved = none ∨ room = false ∨ name.length < 256) := by
  cases reserved with
  | none => exact Or.inl ⟨Or.inl rfl, _, server, addresses, rfl, sound⟩
  | some range =>
    obtain ⟨addr, area⟩ := range
    cases room with
    | false =>
      exact Or.inl ⟨Or.inr (Or.inl rfl), _, server, addresses, rfl, sound⟩
    | true =>
      by_cases fits : name.length < 256
      · obtain ⟨areas, pushed, sound', -⟩ := sound.pushed
          { name := some name, isShared := none, owner := none
            refcnt := some 1, rights, area, addr, size, next := none
            prev := none } rfl rfl
        refine Or.inl ⟨Or.inr (Or.inr fits),
          { rc := 0, area := some area, addr := some addr }, _, _, ?_,
          sound'⟩
        unfold excAllocSharedMem copyName
        simp only [if_true, if_pos fits, map_ok, bind_ok, pushed]
        rfl
      · refine Or.inr ⟨by simp [fits], ?_⟩
        intro answer server' done
        unfold excAllocSharedMem copyName at done
        simp only [if_true, if_neg fits] at done
        cases done

theorem Sound.serve_decides (call : SharedMemCall) :
    ∃ run, Settles (fun fuel => server.serve fuel call) run ∧
      Decides run (server.Allowed call) := by
  cases call with
  | alloc size name rights reserved room =>
    exact ⟨_, Settles.const _, excAllocSharedMem_decides sound size name rights reserved room⟩
  | get pb =>
    have settles := Areas.getArea_settles sound.linked pb
    refine ⟨_, withArea_settles 487 server.giveArea settles, ?_⟩
    simp only [Allowed, FindsArea, settles.exists_iff, Except.ok.injEq]
    apply onArea_decides sound
    intro ptr member
    exact counts_decides sound member fun area count => giveArea_of_live
  | getNamed name =>
    have settles := Areas.getMemByName_settles sound.linked sound.named name
    refine ⟨_, withArea_settles 123 server.giveArea settles, ?_⟩
    simp only [Allowed, FindsName, settles.exists_iff, Except.ok.injEq]
    apply onArea_decides sound
    intro ptr member
    exact counts_decides sound member fun area count => giveArea_of_live
  | increment addr =>
    have settles := Areas.getArea_settles sound.linked addr
    refine ⟨_, withArea_settles 123 _ settles, ?_⟩
    simp only [Allowed, FindsArea, settles.exists_iff, Except.ok.injEq]
    apply onArea_decides sound
    intro ptr member
    apply counts_decides sound member
    intro area count found counted
    rw [addReference_of_live found counted]
    exact ⟨_, rfl⟩
  | release addr released =>
    have settles := Areas.getArea_settles sound.linked addr
    refine ⟨_, withArea_settles 487 (server.releaseArea released) settles, ?_⟩
    simp only [Allowed, FindsArea, settles.exists_iff, Except.ok.injEq]
    apply onArea_decides sound
    intro ptr member
    exact releaseArea_decides sound member released

theorem Sound.keeps_iff (call : SharedMemCall) : server.Keeps call ↔ server.Allowed call := by
  obtain ⟨run, settles, decides⟩ := sound.serve_decides call
  constructor
  · rintro ⟨fuel, answer, server', served, lists⟩
    rcases decides with ⟨allowed, -⟩ | ⟨-, lost⟩
    · exact allowed
    · exact absurd lists (lost answer server' (settles.returned fuel _ served).symm)
  · intro allowed
    rcases decides with ⟨-, answer, server', others, done, sound'⟩ | ⟨forbidden, -⟩
    · obtain ⟨fuel, served⟩ := (settles.exists_iff _).mpr done
      exact ⟨fuel, answer, server', served, sound'.listsAreas⟩
    · exact absurd allowed forbidden

theorem Sound.allowedStep (step : AllowedStep server server') : ∃ others, server'.Sound others := by
  obtain ⟨call, fuel, answer, allowed, served⟩ := step
  obtain ⟨run, settles, decides⟩ := sound.serve_decides call
  rcases decides with ⟨-, answer', after, others, done, sound'⟩ | ⟨forbidden, -⟩
  · rw [← settles.returned fuel _ served] at done
    cases done
    exact ⟨others, sound'⟩
  · exact absurd allowed forbidden

end

theorem sound_of_run (run : RunsTo AllowedStep initial server) :
    ∃ addresses, server.Sound addresses := by
  induction run with
  | refl => exact ⟨[], Sound.initial⟩
  | tail _ step ih =>
    obtain ⟨addresses, sound⟩ := ih
    exact sound.allowedStep step

/-- Along every run of allowed calls the list is as required, and of the calls
that may come next exactly those that are allowed keep it. -/
theorem listsAreas_of_run (run : RunsTo AllowedStep initial server) :
    server.ListsAreas ∧ ∀ call, server.Keeps call ↔ server.Allowed call := by
  obtain ⟨addresses, sound⟩ := sound_of_run run
  exact ⟨sound.listsAreas, sound.keeps_iff⟩

/-- The record of an area with one reference. -/
def namedArea (name : Name) (addr : Nat) (next : Pointer) : VmData :=
  { name := some name, isShared := none, owner := none, refcnt := some 1
    rights := 3, area := 1, addr, size := 0x1000, next, prev := none }

/-- The server with one area. -/
def oneArea : AreaServer :=
  { areas := Heap.empty.malloc (namedArea [0x41] 0x60000000 none)
    areasList := some 0 }

/-- The server with a second area. -/
def twoAreas : AreaServer :=
  { areas := (oneArea.areas.malloc (namedArea [0x42] 0x60010000 (some 0))).change
      0 fun area => { area with prev := some 1 }
    areasList := some 1 }

/-- The server after the first of two areas has been released. -/
def secondArea : AreaServer :=
  { areas := ((twoAreas.withCount 0 0).areas.change 1 fun area =>
      { area with next := none }).remove 0
    areasList := some 1 }

/-- The first of two areas is behind the other one, so it may be released. -/
theorem secondArea_listed : RunsTo AllowedStep initial secondArea ∧ secondArea.ListsAreas ∧
      ∀ call, secondArea.Keeps call ↔ secondArea.Allowed call := by
  have first : AllowedStep initial oneArea :=
    ⟨.alloc 0x1000 [0x41] 3 (some (0x60000000, 1)) true, 0, _, Or.inr (Or.inr (by decide)), rfl⟩
  have second : AllowedStep oneArea twoAreas :=
    ⟨.alloc 0x1000 [0x42] 3 (some (0x60010000, 1)) true, 0, _, Or.inr (Or.inr (by decide)), rfl⟩
  have third : AllowedStep twoAreas secondArea := by
    refine ⟨.release 0x60000000 0, 2, _, ?_, rfl⟩
    rintro ptr ⟨fuel, found⟩ -
    match fuel with
    | 0 => cases found
    | 1 => cases found
    | fuel + 2 =>
      cases found
      decide
  have run : RunsTo AllowedStep initial secondArea :=
    ((Relation.ReflTransGen.single first).tail second).tail third
  exact ⟨run, listsAreas_of_run run⟩

/-- The one area of a server is the head of the list: when it is released, the
head refers to a freed record. -/
theorem oneArea_released_not_listsAreas :
    initial.serve 0 (.alloc 0x1000 [0x41] 3 (some (0x60000000, 1)) true) =
        some (.ok ({ rc := 0, area := some 1, addr := some 0x60000000 }, oneArea)) ∧
      ∃ freed, oneArea.serve 1 (.release 0x60000000 0) =
          some (.ok ({ rc := 0, count := some 0 }, freed)) ∧
        freed.areasList = some 0 ∧ freed.areas.objects 0 = none ∧
        ¬ freed.ListsAreas := by
  refine ⟨rfl, _, rfl, rfl, rfl, ?_⟩
  rintro ⟨addresses, linked, -⟩
  cases addresses with
  | nil => cases linked
  | cons first rest =>
    obtain ⟨equal, next, ⟨area, found, -⟩, -⟩ := linked
    cases equal
    cases found

end AreaServer

end OsFree.Exec
