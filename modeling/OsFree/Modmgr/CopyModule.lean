import OsFree.Machine.LinkedList
import OsFree.Modmgr.Server

/-!
# Copying a module for a further instance

The system-dependent part of a module holds the list of its sections.  A further
instance of an executable starts as a copy of the module structure, so it has
the handle of the first one, and the sections are copied one by one.
-/

namespace OsFree.Modmgr

open Machine

/-- The two versions of the server. -/
inductive Platform where
  | l4env
  | genode
  deriving DecidableEq

/-- The system-dependent part of a module.  The stack is not stored when it is
allocated. -/
structure IXFSysdep where
  secnum : Int32
  seclist : Pointer
  stackLow : Option UInt32
  stackHigh : Option UInt32
  deriving DecidableEq

/-- A cell of a section list; what has not been stored yet is `none`. -/
structure SList where
  next : Option Pointer
  sectionPtr : Option Nat
  deriving DecidableEq

/-- The record of a section with the handle of its dataspace. -/
structure SectionRecord extends L4Os3Section where
  ds : Nat
  type : UInt16
  deriving DecidableEq

/-- A module structure with the handle of its system-dependent part. -/
structure IXFInstance where
  contents : Option IXFModule
  hdlSysDep : Nat

/-- The objects of all instances, and the contents of the dataspaces. -/
structure InstanceStore where
  modules : Heap IXFInstance
  sysdeps : Heap IXFSysdep
  slists : Heap SList
  sections : Heap SectionRecord
  dataspaces : Heap (List UInt8)

namespace InstanceStore

variable (store : InstanceStore)

/-- Allocate a module with an empty section list. -/
def ixfAllocModule : Nat × InstanceStore := (store.modules.fresh, { store with
      modules := store.modules.malloc
        { contents := none, hdlSysDep := store.sysdeps.fresh }
      sysdeps := store.sysdeps.malloc
        { secnum := 0, seclist := none, stackLow := none, stackHigh := none } })

/-- Free a module and its system-dependent part. -/
def ixfFreeModule (ixf : Nat) : Run InstanceStore := do
  let ixfModule ← store.modules.read ixf
  let sysdeps ← store.sysdeps.free ixfModule.hdlSysDep
  let modules ← store.modules.free ixf
  return { store with modules, sysdeps }

/-- Change the system-dependent part of a module, as loading it does. -/
def changeSysdep (ixf : Nat) (f : IXFSysdep → IXFSysdep) :
    Run InstanceStore := do
  let ixfModule ← store.modules.read ixf
  let sysdeps ← store.sysdeps.modify ixfModule.hdlSysDep f
  return { store with sysdeps }

/-- Link the new cell `s` behind the cell `r` of the pass before.  There is none
in the first pass: there the cell becomes the head, and its own link is left as
it is. -/
def linkCell (sysdepDst : Nat) (r : Pointer) (s : Nat) : Run InstanceStore :=
  match r with
  | none => do
      let sysdeps ← store.sysdeps.modify sysdepDst fun sysdep =>
        { sysdep with seclist := some s }
      return { store with sysdeps }
  | some r => do
      let slists ← store.slists.modify r fun cell =>
        { cell with next := some (some s) }
      let slists ← slists.modify s fun cell => { cell with next := some none }
      return { store with slists }

/-- Copy the dataspace of a section to the new record.  On L4Env a failure is
only logged; on Genode the new dataspace is not stored in the record. -/
def copyDataspace (platform : Platform) (newSection ds : Nat) :
    Except UInt32 InstanceStore :=
  match platform, store.dataspaces.objects ds with
  | .l4env, some contents => .ok { store with
        dataspaces := store.dataspaces.malloc contents
        sections := store.sections.change newSection fun record =>
          { record with ds := store.dataspaces.fresh } }
  | .l4env, none => .ok store
  | .genode, some contents => .ok
      { store with dataspaces := store.dataspaces.malloc contents }
  | .genode, none => .error 8

/-- One pass of the loop, for the cell `s0` of the source. -/
def copyPass (platform : Platform) (sysdepDst : Nat) (r : Pointer) (s0 : Nat) :
    Run (Except UInt32 InstanceStore) := do
  let s := store.slists.fresh
  let store ← linkCell { store with
    slists := store.slists.malloc { next := none, sectionPtr := none } }
    sysdepDst r s
  let newSection := store.sections.fresh
  let slists ← store.slists.modify s fun cell =>
    { cell with sectionPtr := some newSection }
  let source ← slists.read s0
  let sourceSection ← stored source.sectionPtr
  let record ← store.sections.read sourceSection
  return copyDataspace
    { store with slists, sections := store.sections.malloc record }
    platform newSection record.ds

/-- The link of a cell. -/
def nextCell (s0 : Nat) : Run Pointer := do
  let cell ← store.slists.read s0
  stored cell.next

/-- The loop from the cell `s0` of the source on, as far as the fuel goes. -/
def copyLoop (platform : Platform) (sysdepDst : Nat) :
    Nat → Pointer → Pointer → InstanceStore → Option (Run (Except UInt32 InstanceStore))
  | 0, _, _, _ => none
  | _ + 1, _, none, store => some (.ok (.ok store))
  | fuel + 1, r, some s0, store =>
    match store.copyPass platform sysdepDst r s0 with
    | .error fault => some (.error fault)
    | .ok (.error rc) => some (.ok (.error rc))
    | .ok (.ok after) =>
      match after.nextCell s0 with
      | .error fault => some (.error fault)
      | .ok next =>
        copyLoop platform sysdepDst fuel (some store.slists.fresh) next after

/-- What is done before the loop: the module structure is copied with the
handle of the system-dependent part, which is then copied onto itself.  The head
of the section list of the source is read last. -/
def copyHeader (ixfDst ixfSrc : Nat) : Run (Nat × Pointer × InstanceStore) := do
  let source ← store.modules.read ixfSrc
  let modules ← store.modules.modify ixfDst fun _ => source
  let ixfModuleSrc ← modules.read ixfSrc
  let ixfModuleDst ← modules.read ixfDst
  let sysdep ← store.sysdeps.read ixfModuleSrc.hdlSysDep
  let sysdeps ← store.sysdeps.modify ixfModuleDst.hdlSysDep fun _ => sysdep
  let sysdepSrc ← sysdeps.read ixfModuleSrc.hdlSysDep
  return (ixfModuleDst.hdlSysDep, sysdepSrc.seclist, { store with modules, sysdeps })

/-- Copy a module and its sections. -/
def ixfCopyModule (platform : Platform) (fuel ixfDst ixfSrc : Nat) :
    Option (Run (Except UInt32 InstanceStore)) :=
  match store.copyHeader ixfDst ixfSrc with
  | .error fault => some (.error fault)
  | .ok (sysdepDst, seclist, after) =>
    copyLoop platform sysdepDst fuel none seclist after

/-- Open a further instance of an executable; the area that is stored in the new
module before is overwritten by the copy. -/
def openCopy (platform : Platform) (fuel ixfPrev : Nat) :
    Option (Run (Except UInt32 InstanceStore)) :=
  store.ixfAllocModule.2.ixfCopyModule platform fuel store.modules.fresh ixfPrev

/-- The link of a cell of a section list. -/
def CellNode (_before : Pointer) (address : Nat) (next : Pointer) : Prop :=
  ∃ cell, store.slists.objects address = some cell ∧ cell.next = some next

end InstanceStore

/-- A section of an instance: the addresses of its cell and of its record, the
record, and the contents of its dataspace. -/
structure SectionEntry where
  cell : Nat
  address : Nat
  record : SectionRecord
  contents : List UInt8
  deriving DecidableEq

namespace InstanceStore

variable (store : InstanceStore)

/-- The cell of a section leads to its record, and this to its dataspace. -/
structure Holds (entry : SectionEntry) : Prop where
  cell : ∃ cell, store.slists.objects entry.cell = some cell ∧ cell.sectionPtr = some entry.address
  record : store.sections.objects entry.address = some entry.record
  dataspace : store.dataspaces.objects entry.record.ds = some entry.contents

/-- The section list of an instance is terminated and has these sections. -/
def HasSections (ixf : Nat) (entries : List SectionEntry) : Prop :=
  ∃ ixfModule sysdep, store.modules.objects ixf = some ixfModule ∧
    store.sysdeps.objects ixfModule.hdlSysDep = some sysdep ∧
    Linked store.CellNode none sysdep.seclist (entries.map SectionEntry.cell) ∧
    ∀ entry ∈ entries, store.Holds entry

/-- A section is a copy of another one, with a cell, a record and a dataspace
that were not there before. -/
structure IsCopy (entry copy : SectionEntry) : Prop where
  record : copy.record = { entry.record with ds := copy.record.ds }
  contents : copy.contents = entry.contents
  ownCell : store.slists.objects copy.cell = none
  ownRecord : store.sections.objects copy.address = none
  ownDataspace : store.dataspaces.objects copy.record.ds = none

/-- Neither freeing an instance nor changing its system-dependent part changes
the sections of another one. -/
def Unaffected (ixf other : Nat) (entries : List SectionEntry) : Prop :=
  (∀ store', store.ixfFreeModule ixf = .ok store' → store'.HasSections other entries) ∧
    ∀ f store', store.changeSysdep ixf f = .ok store' → store'.HasSections other entries

/-- Opening a further instance of an executable with these sections gives one
with a copy of every section in the same order, and leaves the sections of the
first instance as they are; the two do not affect each other. -/
def CopiedApart (platform : Platform) (ixfPrev : Nat) (entries : List SectionEntry) : Prop :=
  ∃ fuel store' copies, store.openCopy platform fuel ixfPrev = some (.ok (.ok store')) ∧
    store'.HasSections store.modules.fresh copies ∧
    List.Forall₂ store.IsCopy entries copies ∧
    (copies.map SectionEntry.address).Nodup ∧
    (copies.map fun copy => copy.record.ds).Nodup ∧
    store'.HasSections ixfPrev entries ∧
    store'.Unaffected store.modules.fresh ixfPrev entries ∧
    store'.Unaffected ixfPrev store.modules.fresh copies

section

variable {store store' : InstanceStore} {platform : Platform}
  {sysdepDst fuel : Nat} {r s0 : Pointer}

theorem linkCell_cases {s : Nat} (linked : store.linkCell sysdepDst r s = .ok store') :
    (r = none ∧ store' = { store with
        sysdeps := store.sysdeps.change sysdepDst fun sysdep =>
          { sysdep with seclist := some s } }) ∨
      ∃ last, r = some last ∧ store' = { store with
        slists := (store.slists.change last fun cell =>
          { cell with next := some (some s) }).change s fun cell =>
            { cell with next := some none } } := by
  cases r with
  | none =>
    obtain ⟨sysdeps, changed, stored⟩ := bind_eq_ok_iff.mp linked
    obtain ⟨sysdep, -, rfl⟩ := map_eq_ok_iff.mp changed
    cases stored
    exact Or.inl ⟨rfl, rfl⟩
  | some last =>
    obtain ⟨slists, changed, linked⟩ := bind_eq_ok_iff.mp linked
    obtain ⟨cell, -, rfl⟩ := map_eq_ok_iff.mp changed
    obtain ⟨slists, changed, stored⟩ := bind_eq_ok_iff.mp linked
    obtain ⟨cell, -, rfl⟩ := map_eq_ok_iff.mp changed
    cases stored
    exact Or.inr ⟨last, rfl, rfl⟩

theorem copyDataspace_frame {newSection ds : Nat}
    (copied : store.copyDataspace platform newSection ds = .ok store') :
    store'.modules = store.modules ∧ store'.sysdeps = store.sysdeps ∧
      store'.slists = store.slists := by
  unfold copyDataspace at copied
  split at copied
  · cases copied
    exact ⟨rfl, rfl, rfl⟩
  · cases copied
    exact ⟨rfl, rfl, rfl⟩
  · cases copied
    exact ⟨rfl, rfl, rfl⟩
  · cases copied

theorem copyPass_cases {s0 : Nat}
    (passed : store.copyPass platform sysdepDst r s0 = .ok (.ok store')) :
    ∃ linked, linkCell { store with
        slists := store.slists.malloc { next := none, sectionPtr := none } }
        sysdepDst r store.slists.fresh = .ok linked ∧
      store'.modules = linked.modules ∧ store'.sysdeps = linked.sysdeps ∧
      store'.slists = linked.slists.change store.slists.fresh fun cell =>
        { cell with sectionPtr := some linked.sections.fresh } := by
  obtain ⟨linked, isLinked, passed⟩ := bind_eq_ok_iff.mp passed
  obtain ⟨slists, changed, passed⟩ := bind_eq_ok_iff.mp passed
  obtain ⟨cell, -, rfl⟩ := map_eq_ok_iff.mp changed
  obtain ⟨source, -, passed⟩ := bind_eq_ok_iff.mp passed
  obtain ⟨sourceSection, -, passed⟩ := bind_eq_ok_iff.mp passed
  obtain ⟨record, -, passed⟩ := bind_eq_ok_iff.mp passed
  obtain ⟨modules, sysdeps, slists⟩ := copyDataspace_frame (Except.ok.inj passed)
  exact ⟨linked, isLinked, modules, sysdeps, slists⟩

theorem copyPass_modules {s0 : Nat}
    (passed : store.copyPass platform sysdepDst r s0 = .ok (.ok store')) :
    store'.modules = store.modules := by
  obtain ⟨linked, isLinked, modules, -⟩ := copyPass_cases passed
  rw [modules]
  rcases linkCell_cases isLinked with ⟨-, rfl⟩ | ⟨last, -, rfl⟩
  · rfl
  · rfl

theorem copyPass_first {s0 : Nat}
    (passed : store.copyPass platform sysdepDst none s0 = .ok (.ok store')) :
    store'.sysdeps = store.sysdeps.change sysdepDst fun sysdep =>
      { sysdep with seclist := some store.slists.fresh } := by
  obtain ⟨linked, isLinked, -, sysdeps, -⟩ := copyPass_cases passed
  rw [sysdeps]
  rcases linkCell_cases isLinked with ⟨-, rfl⟩ | ⟨last, impossible, -⟩
  · rfl
  · cases impossible

theorem copyPass_first_slists {s0 : Nat}
    (passed : store.copyPass platform sysdepDst none s0 = .ok (.ok store')) :
    ∃ newSection, store'.slists =
      (store.slists.malloc { next := none, sectionPtr := none }).change
        store.slists.fresh fun cell =>
          { cell with sectionPtr := some newSection } := by
  obtain ⟨linked, isLinked, -, -, slists⟩ := copyPass_cases passed
  rcases linkCell_cases isLinked with ⟨-, rfl⟩ | ⟨last, impossible, -⟩
  · exact ⟨_, slists⟩
  · cases impossible

theorem copyPass_further {last s0 : Nat}
    (passed : store.copyPass platform sysdepDst (some last) s0 =
      .ok (.ok store')) : store'.sysdeps = store.sysdeps := by
  obtain ⟨linked, isLinked, -, sysdeps, -⟩ := copyPass_cases passed
  rw [sysdeps]
  rcases linkCell_cases isLinked with ⟨impossible, -⟩ | ⟨last, -, rfl⟩
  · cases impossible
  · rfl

theorem copyLoop_cases (copied : copyLoop platform sysdepDst fuel r s0 store =
      some (.ok (.ok store'))) :
    (s0 = none ∧ store' = store) ∨ ∃ rest address after next, fuel = rest + 1 ∧ s0 = some address ∧
        store.copyPass platform sysdepDst r address = .ok (.ok after) ∧
        after.nextCell address = .ok next ∧
        copyLoop platform sysdepDst rest (some store.slists.fresh) next after =
          some (.ok (.ok store')) := by
  cases fuel with
  | zero => cases copied
  | succ rest =>
    cases s0 with
    | none =>
      cases copied
      exact Or.inl ⟨rfl, rfl⟩
    | some address =>
      rw [copyLoop] at copied
      split at copied
      · cases copied
      · cases copied
      · rename_i after passed
        split at copied
        · cases copied
        · rename_i next found
          exact Or.inr ⟨rest, address, after, next, rfl, rfl, passed, found, copied⟩

theorem copyLoop_modules (copied : copyLoop platform sysdepDst fuel r s0 store =
      some (.ok (.ok store'))) : store'.modules = store.modules := by
  induction fuel generalizing r s0 store with
  | zero => cases copied
  | succ fuel ih =>
    rcases copyLoop_cases copied with
      ⟨-, rfl⟩ | ⟨rest, address, after, next, equal, -, passed, -, copied⟩
    · rfl
    · cases equal
      rw [ih copied, copyPass_modules passed]

theorem copyLoop_further {last : Nat}
    (copied : copyLoop platform sysdepDst fuel (some last) s0 store =
      some (.ok (.ok store'))) : store'.sysdeps = store.sysdeps := by
  induction fuel generalizing last s0 store with
  | zero => cases copied
  | succ fuel ih =>
    rcases copyLoop_cases copied with
      ⟨-, rfl⟩ | ⟨rest, address, after, next, equal, -, passed, -, copied⟩
    · rfl
    · cases equal
      rw [ih copied, copyPass_further passed]

theorem copyLoop_head {address : Nat}
    (copied : copyLoop platform sysdepDst fuel none (some address) store =
      some (.ok (.ok store'))) :
    store'.sysdeps = store.sysdeps.change sysdepDst fun sysdep =>
      { sysdep with seclist := some store.slists.fresh } := by
  rcases copyLoop_cases copied with
    ⟨impossible, -⟩ | ⟨rest, other, after, next, -, -, passed, -, copied⟩
  · cases impossible
  · rw [copyLoop_further copied, copyPass_first passed]

theorem copyLoop_single {address : Nat} {cell : SList}
    (present : store.slists.objects address = some cell)
    (last : cell.next = some none)
    (copied : copyLoop platform sysdepDst fuel none (some address) store =
      some (.ok (.ok store'))) :
    ∃ newSection, store'.slists.objects store.slists.fresh =
      some { next := none, sectionPtr := some newSection } := by
  rcases copyLoop_cases copied with ⟨impossible, -⟩ |
    ⟨rest, other, after, next, -, equal, passed, read, copied⟩
  · cases impossible
  · cases equal
    obtain ⟨newSection, slists⟩ := copyPass_first_slists passed
    -- the cell of the source is the last one, so the loop ends after this pass
    obtain ⟨cell', here, read⟩ := bind_eq_ok_iff.mp read
    rw [Heap.read_eq_ok_iff, slists, Heap.change_objects_of_ne _
      (Nat.ne_of_lt (Heap.lt_fresh present)),
      Heap.malloc_objects_of_live _ present] at here
    cases here
    rw [last] at read
    cases read
    rcases copyLoop_cases copied with ⟨-, rfl⟩ | ⟨rest, other, after, next, -, impossible, -⟩
    · refine ⟨newSection, ?_⟩
      rw [slists, Heap.change_objects_self, Heap.malloc_objects_fresh]
      rfl
    · cases impossible

/-- The store at the start of the loop, when the structure of the first
instance is `source`. -/
def withHeader (store : InstanceStore) (source : IXFInstance)
    (sysdep : IXFSysdep) : InstanceStore :=
  { store.ixfAllocModule.2 with
    modules := store.ixfAllocModule.2.modules.change store.modules.fresh fun _ => source
    sysdeps := store.ixfAllocModule.2.sysdeps.change source.hdlSysDep fun _ => sysdep }

section

variable {source : IXFInstance} {sysdep : IXFSysdep} {ixfPrev : Nat}

theorem withHeader_new : (store.withHeader source sysdep).modules.objects
    store.modules.fresh = some source := by
  calc (store.withHeader source sysdep).modules.objects store.modules.fresh
      = (store.ixfAllocModule.2.modules.objects store.modules.fresh).map
          fun _ => source := Heap.change_objects_self ..
    _ = some source := by
        rw [show store.ixfAllocModule.2.modules.objects store.modules.fresh = _
          from Heap.malloc_objects_fresh ..]
        rfl

theorem withHeader_first (found : store.ixfAllocModule.2.modules.objects ixfPrev = some source) :
    (store.withHeader source sysdep).modules.objects ixfPrev = some source := by
  by_cases equal : ixfPrev = store.modules.fresh
  · rw [equal, withHeader_new]
  · exact (Heap.change_objects_of_ne _ equal).trans found

theorem withHeader_sysdep (live : store.ixfAllocModule.2.sysdeps.objects
      source.hdlSysDep = some sysdep) :
    (store.withHeader source sysdep).sysdeps.objects source.hdlSysDep =
      some sysdep := by
  calc (store.withHeader source sysdep).sysdeps.objects source.hdlSysDep
      = (store.ixfAllocModule.2.sysdeps.objects source.hdlSysDep).map
          fun _ => sysdep := Heap.change_objects_self ..
    _ = some sysdep := by
        rw [live]
        rfl

end

/-- Both handles are read back from the copied structure. -/
theorem copyHeader_cases {ixfDst ixfSrc : Nat} {seclist : Pointer}
    (header : store.copyHeader ixfDst ixfSrc = .ok (sysdepDst, seclist, store')) :
    ∃ source sysdep, store.modules.objects ixfSrc = some source ∧
      store.sysdeps.objects source.hdlSysDep = some sysdep ∧
      sysdepDst = source.hdlSysDep ∧ seclist = sysdep.seclist ∧
      store' = { store with
        modules := store.modules.change ixfDst fun _ => source
        sysdeps := store.sysdeps.change source.hdlSysDep fun _ => sysdep } := by
  obtain ⟨source, sourceRead, header⟩ := bind_eq_ok_iff.mp header
  obtain ⟨modules, changed, header⟩ := bind_eq_ok_iff.mp header
  obtain ⟨new, newRead, rfl⟩ := map_eq_ok_iff.mp changed
  obtain ⟨ixfModuleSrc, srcRead, header⟩ := bind_eq_ok_iff.mp header
  obtain ⟨ixfModuleDst, dstRead, header⟩ := bind_eq_ok_iff.mp header
  obtain ⟨sysdep, sysdepRead, header⟩ := bind_eq_ok_iff.mp header
  obtain ⟨sysdeps, changed, header⟩ := bind_eq_ok_iff.mp header
  obtain ⟨old, -, rfl⟩ := map_eq_ok_iff.mp changed
  obtain ⟨sysdepSrc, sysdepSrcRead, header⟩ := bind_eq_ok_iff.mp header
  rw [Heap.read_eq_ok_iff] at sourceRead newRead srcRead dstRead sysdepRead
  rw [Heap.change_objects_self, newRead] at dstRead
  cases dstRead
  have same : ixfModuleSrc = source := by
    by_cases equal : ixfSrc = ixfDst
    · rw [equal, Heap.change_objects_self, newRead] at srcRead
      exact (Option.some.inj srcRead).symm
    · rw [Heap.change_objects_of_ne _ equal, sourceRead] at srcRead
      exact (Option.some.inj srcRead).symm
  rw [same] at sysdepRead sysdepSrcRead
  rw [Heap.read_eq_ok_iff, Heap.change_objects_self, sysdepRead]
    at sysdepSrcRead
  cases sysdepSrcRead
  cases header
  exact ⟨source, sysdep, sourceRead, sysdepRead, rfl, rfl, rfl⟩

variable {ixfPrev : Nat}

theorem openCopy_cases (opened : store.openCopy platform fuel ixfPrev = some (.ok (.ok store'))) :
    ∃ source sysdep, store.ixfAllocModule.2.modules.objects ixfPrev = some source ∧
      store.ixfAllocModule.2.sysdeps.objects source.hdlSysDep = some sysdep ∧
      copyLoop platform source.hdlSysDep fuel none sysdep.seclist
        (store.withHeader source sysdep) = some (.ok (.ok store')) := by
  unfold openCopy ixfCopyModule at opened
  split at opened
  · cases opened
  · rename_i sysdepDst seclist after header
    obtain ⟨source, sysdep, found, foundSysdep, rfl, rfl, rfl⟩ := copyHeader_cases header
    exact ⟨source, sysdep, found, foundSysdep, opened⟩

theorem openCopy_modules (opened : store.openCopy platform fuel ixfPrev = some (.ok (.ok store'))) :
    ∃ source, store'.modules.objects store.modules.fresh = some source ∧
      store'.modules.objects ixfPrev = some source := by
  obtain ⟨source, sysdep, found, -, copied⟩ := openCopy_cases opened
  have modules := copyLoop_modules copied
  refine ⟨source, ?_, ?_⟩
  · rw [modules, withHeader_new]
  · rw [modules, withHeader_first found]

theorem openCopy_shared {entries : List SectionEntry}
    (opened : store.openCopy platform fuel ixfPrev = some (.ok (.ok store')))
    (kept : store'.HasSections ixfPrev entries) :
    ¬ store'.Unaffected store.modules.fresh ixfPrev entries := by
  obtain ⟨source, new, first⟩ := openCopy_modules opened
  obtain ⟨ixfModule, sysdep, here, live, -⟩ := kept
  rw [first] at here
  cases here
  rintro ⟨freed, -⟩
  have free : store'.ixfFreeModule store.modules.fresh = .ok { store' with
        modules := store'.modules.remove store.modules.fresh
        sysdeps := store'.sysdeps.remove source.hdlSysDep } := by
    unfold ixfFreeModule
    rw [Heap.read_eq_ok_iff.mpr new, bind_ok, Heap.free_of_live live, bind_ok,
      Heap.free_of_live new]
    rfl
  obtain ⟨ixfModule, sysdep, here, live, -⟩ := freed _ free
  by_cases equal : ixfPrev = store.modules.fresh
  · rw [equal, Heap.remove_objects_self] at here
    cases here
  · rw [Heap.remove_objects_of_ne equal, first] at here
    cases here
    rw [Heap.remove_objects_self] at live
    cases live

theorem openCopy_of_sections {entries : List SectionEntry}
    (loaded : store.HasSections ixfPrev entries)
    (opened : store.openCopy platform fuel ixfPrev = some (.ok (.ok store'))) :
    ∃ source sysdep, (store.withHeader source sysdep).sysdeps.objects source.hdlSysDep =
        some sysdep ∧
      store'.modules.objects store.modules.fresh = some source ∧
      store'.modules.objects ixfPrev = some source ∧
      Linked store.CellNode none sysdep.seclist (entries.map SectionEntry.cell) ∧
      copyLoop platform source.hdlSysDep fuel none sysdep.seclist
        (store.withHeader source sysdep) = some (.ok (.ok store')) := by
  obtain ⟨source, sysdep, found, live, copied⟩ := openCopy_cases opened
  obtain ⟨ixfModule, sysdep', here, live', linked, -⟩ := loaded
  rw [show store.ixfAllocModule.2.modules.objects ixfPrev = some ixfModule from
    Heap.malloc_objects_of_live _ here] at found
  cases found
  rw [show store.ixfAllocModule.2.sysdeps.objects source.hdlSysDep =
    some sysdep' from Heap.malloc_objects_of_live _ live'] at live
  cases live
  obtain ⟨source', new, first⟩ := openCopy_modules opened
  have modules := copyLoop_modules copied
  rw [modules, withHeader_new] at new
  cases new
  refine ⟨source, sysdep, ?_, ?_, first, linked, copied⟩
  · exact withHeader_sysdep (Heap.malloc_objects_of_live _ live')
  · rw [modules, withHeader_new]

theorem openCopy_single {entry : SectionEntry} (loaded : store.HasSections ixfPrev [entry])
    (opened : store.openCopy platform fuel ixfPrev = some (.ok (.ok store')))
    (copies : List SectionEntry) :
    ¬ store'.HasSections store.modules.fresh copies := by
  obtain ⟨source, sysdep, header, new, -, linked, copied⟩ := openCopy_of_sections loaded opened
  obtain ⟨equal, link, ⟨cell, present, stored⟩, ends⟩ := linked
  rw [show link = none from ends] at stored
  rw [equal] at copied
  have stays : (store.withHeader source sysdep).slists.objects entry.cell =
    some cell := present
  obtain ⟨newSection, unlinked⟩ := copyLoop_single stays stored copied
  rintro ⟨ixfModule, after, here, live, linkedAfter, -⟩
  rw [new] at here
  cases here
  rw [copyLoop_head copied, Heap.change_objects_self, header] at live
  cases live
  cases copies with
  | nil => cases linkedAfter
  | cons copy rest =>
    obtain ⟨fresh, next, ⟨cell', here, stored'⟩, -⟩ := linkedAfter
    rw [← Option.some.inj fresh, unlinked] at here
    cases here
    cases stored'

/-- A further instance never is apart from the first one. -/
theorem not_copiedApart (store : InstanceStore) (platform : Platform)
    (ixfPrev : Nat) (entries : List SectionEntry) :
    ¬ store.CopiedApart platform ixfPrev entries := by
  rintro ⟨fuel, store', copies, opened, -, -, -, -, kept, unaffected, -⟩
  exact openCopy_shared opened kept unaffected

end

/-- The one section of an executable. -/
def oneEntry : SectionEntry :=
  { cell := 0
    address := 0
    record := { addr := 0x10000, size := 1, id := 1, ds := 0, type := 5 }
    contents := [0x90] }

/-- An executable with one section. -/
def oneSection : InstanceStore :=
  { modules := Heap.empty.malloc { contents := none, hdlSysDep := 0 }
    sysdeps := Heap.empty.malloc
      { secnum := 1, seclist := some 0, stackLow := none, stackHigh := none }
    slists := Heap.empty.malloc { next := some none, sectionPtr := some 0 }
    sections := Heap.empty.malloc oneEntry.record
    dataspaces := Heap.empty.malloc oneEntry.contents }

theorem oneSection_loaded : oneSection.HasSections 0 [oneEntry] := by
  refine ⟨_, _, rfl, rfl, ⟨rfl, none, ⟨_, rfl, rfl⟩, rfl⟩, ?_⟩
  intro entry member
  cases List.mem_singleton.mp member
  exact ⟨⟨_, rfl, rfl⟩, rfl, rfl⟩

/-- On both platforms a further instance of the executable is opened, and its
section list is not terminated. -/
theorem oneSection_not_copiedApart : oneSection.HasSections 0 [oneEntry] ∧
      ((∃ store', oneSection.openCopy .l4env 2 0 = some (.ok (.ok store'))) ∧
        ¬ oneSection.CopiedApart .l4env 0 [oneEntry]) ∧
      (∃ store', oneSection.openCopy .genode 2 0 = some (.ok (.ok store'))) ∧
        ¬ oneSection.CopiedApart .genode 0 [oneEntry] := by
  refine ⟨oneSection_loaded, ⟨⟨_, rfl⟩, ?_⟩, ⟨_, rfl⟩, ?_⟩
  · rintro ⟨fuel, store', copies, opened, listed, -⟩
    exact openCopy_single oneSection_loaded opened copies listed
  · rintro ⟨fuel, store', copies, opened, listed, -⟩
    exact openCopy_single oneSection_loaded opened copies listed

end InstanceStore

end OsFree.Modmgr
