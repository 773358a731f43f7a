import OsFree.Modmgr.LoadError

/-!
# The graph of imports

A record that is not being loaded any more has its imports: the name of each
leads to a record that is not being loaded either, and that one was there
before.  So the graph of these records has no cycle.  What a name leads to is
looked up as it stands, while a library is registered without an extension and
`SUB32` as `EMXWRAP`; the imports of the modules must not have such names.
-/

namespace OsFree.Modmgr

open Machine

/-- A name that a module is registered under when it is imported by it, and that
is looked up when its imports are asked for. -/
def PlainImport (name : Name) : Prop := 0x2e ∉ name ∧ ¬ Stricmp name sub32

instance (name : Name) : Decidable (PlainImport name) := inferInstanceAs (Decidable (_ ∧ _))

namespace Manager

/-- The module of a record with what has been loaded of it. -/
def HasImage (manager : Manager) (hmod : Nat) (image : IXFImage) : Prop :=
  ∃ ixfModule, manager.heap hmod = some ixfModule ∧ ixfModule.image = some image

/-- The first record imports the second one. -/
def Imports (manager : Manager) (record other : ModuleRec) : Prop :=
  ∃ image name slot, manager.HasImage record.moduleStruct image ∧
    name ∈ image.modules ∧ getrec name manager.chain = .found slot ∧ other = slot.first

/-! ## What stays -/

/-- Records that are found stay what they are, and modules keep their
imports. -/
structure Extends (manager manager' : Manager) : Prop where
  named : ∀ {name slot}, named name manager.chain = some slot →
    ∃ slot', named name manager'.chain = some slot' ∧ slot'.first.address = slot.first.address ∧
      (slot.first.loadStatus = .doneLoading → slot'.first = slot.first)
  records : ∀ {record}, manager.HasRecord record →
    ∃ record', manager'.HasRecord record' ∧ record'.moduleStruct = record.moduleStruct ∧
      (record.loadStatus = .doneLoading → record' = record)
  images : ∀ {record image}, manager.HasRecord record →
    manager'.HasImage record.moduleStruct image →
      ∃ before, manager.HasImage record.moduleStruct before ∧ before.modules = image.modules

section

variable {manager manager' manager'' : Manager}

theorem HasImage.unique {hmod : Nat} {image image' : IXFImage}
    (has : manager.HasImage hmod image) (has' : manager.HasImage hmod image') :
    image = image' := by
  obtain ⟨module, live, loaded⟩ := has
  obtain ⟨module', live', loaded'⟩ := has'
  rw [live] at live'
  cases live'
  rw [loaded] at loaded'
  exact Option.some.inj loaded'

theorem Extends.found (extend : Extends manager manager') {name : Name}
    {slot : ModuleSlot} (found : getrec name manager.chain = .found slot) :
    ∃ slot', getrec name manager'.chain = .found slot' ∧
      slot'.first = slot.first := by
  obtain ⟨first, done⟩ := getrec_eq_found_iff.mp found
  obtain ⟨slot', first', -, same⟩ := extend.named first
  exact ⟨slot', getrec_eq_found_iff.mpr ⟨first', (same done) ▸ done⟩, same done⟩

theorem SameRecords.extends (same : SameRecords manager manager') :
    Extends manager manager' := by
  constructor
  · intro name slot first
    exact ⟨slot, same.chain ▸ first, rfl, fun _ => rfl⟩
  · intro record here
    exact ⟨record, same.hasRecord_iff.mpr here, rfl, fun _ => rfl⟩
  · intro record image here has
    refine ⟨image, ?_, rfl⟩
    unfold HasImage at has ⊢
    rw [← same.heap here]
    exact has

theorem Extends.trans (first : Extends manager manager')
    (second : Extends manager' manager'') : Extends manager manager'' := by
  constructor
  · intro name slot known
    obtain ⟨slot', known', address, kept⟩ := first.named known
    obtain ⟨slot'', known'', address', kept'⟩ := second.named known'
    refine ⟨slot'', known'', address'.trans address, ?_⟩
    intro done
    rw [kept' ((kept done) ▸ done), kept done]
  · intro record here
    obtain ⟨record', here', module, kept⟩ := first.records here
    obtain ⟨record'', here'', module', kept'⟩ := second.records here'
    refine ⟨record'', here'', module'.trans module, ?_⟩
    intro done
    rw [kept' ((kept done) ▸ done), kept done]
  · intro record image here has
    obtain ⟨record', here', module, -⟩ := first.records here
    rw [← module] at has
    obtain ⟨between, has, modules⟩ := second.images here' has
    rw [module] at has
    obtain ⟨before, has, modules'⟩ := first.images here has
    exact ⟨before, has, modules'.trans modules⟩

theorem extends_withInstance (addressed : manager.Addressed)
    (prev : ModuleSlot) (mname : Name) (ixfPrev : IXFModule) (n : Int) :
    Extends manager (manager.withInstance prev mname ixfPrev n) := by
  constructor
  · intro name slot first
    obtain ⟨slot', first', same⟩ := named_withInstance prev mname ixfPrev n slot first
    exact ⟨slot', first', congrArg ModuleRec.address same, fun _ => same⟩
  · intro record here
    refine ⟨record, ?_, rfl, fun _ => rfl⟩
    obtain ⟨slot, member, here⟩ := here
    refine ⟨_, List.mem_map_of_mem member, ?_⟩
    split
    · rcases List.mem_cons.mp here with rfl | up
      · exact List.mem_cons_self ..
      · exact List.mem_cons_of_mem _ (List.mem_append_left _ up)
    · exact here
  · intro record image here has
    refine ⟨image, ?_, rfl⟩
    obtain ⟨module, live, loaded⟩ := has
    exact ⟨module, (if_neg (addressed.module_lt here).ne).symm.trans live, loaded⟩

theorem extends_withLoading (addressed : manager.Addressed) (hmod : Nat) (ixfModule : IXFModule) :
    Extends manager (manager.withLoading hmod ixfModule) := by
  constructor
  · intro name slot first
    exact ⟨slot, addressed.named_withLoading hmod ixfModule first, rfl, fun _ => rfl⟩
  · intro record here
    exact ⟨record, addressed.hasRecord_withLoading.mpr (Or.inl here), rfl, fun _ => rfl⟩
  · intro record image here has
    exact ⟨image, has, rfl⟩

theorem extends_withFinished (address : Nat) :
    Extends manager (manager.withFinished address) := by
  constructor
  · intro name slot first
    refine ⟨slot.finish address, ?_, ModuleSlot.finish_address, ModuleSlot.finish_first_of_done⟩
    rw [named_withFinished, first]
    rfl
  · intro record here
    refine ⟨_, hasRecord_withFinished.mpr ⟨record, here, rfl⟩, (finished_keeps record).2.1, ?_⟩
    intro done
    split
    · rw [← done]
    · rfl
  · intro record image here has
    exact ⟨image, has, rfl⟩

theorem extends_withLinked {hmod : Nat} {ixfModule : IXFModule}
    {image : IXFImage} (fixups : List IXFFixupEntry) (memory : Memory)
    (live : manager.ixfModule hmod = .ok ixfModule)
    (loaded : ixfModule.image = some image) :
    Extends manager
      (manager.withLinked hmod ixfModule image fixups memory) := by
  constructor
  · intro name slot first
    exact ⟨slot, first, rfl, fun _ => rfl⟩
  · intro record here
    exact ⟨record, here, rfl, fun _ => rfl⟩
  · rintro record image' here ⟨module, live', loaded'⟩
    change (if record.moduleStruct = hmod then _
      else manager.heap record.moduleStruct) = some module at live'
    split at live'
    · rename_i same
      cases live'
      cases loaded'
      exact ⟨image, ⟨ixfModule, same ▸ (ixfModule_eq_ok_iff.mp live).2, loaded⟩, rfl⟩
    · exact ⟨image', ⟨module, live', loaded'⟩, rfl⟩

theorem extends_freed (hmod : Nat) :
    Extends manager (manager.ixfFreeModule hmod) := by
  constructor
  · intro name slot first
    exact ⟨slot, first, rfl, fun _ => rfl⟩
  · intro record here
    exact ⟨record, here, rfl, fun _ => rfl⟩
  · rintro record image here ⟨module, live, loaded⟩
    change (if record.moduleStruct = hmod then none
      else manager.heap record.moduleStruct) = some module at live
    split at live
    · cases live
    · exact ⟨image, ⟨module, live, loaded⟩, rfl⟩

end

/-! ## Records with their imports -/

/-- The records that are not being loaded have plain imports, all of which lead
to such records, and no cycle comes of it. -/
structure Closed (manager : Manager) : Prop where
  found : ∀ {record image name}, manager.HasRecord record → record.loadStatus = .doneLoading →
      manager.HasImage record.moduleStruct image → name ∈ image.modules →
        PlainImport name ∧ ∃ slot, getrec name manager.chain = .found slot
  ends : ∀ {record}, manager.HasRecord record → record.loadStatus = .doneLoading →
      Acc (fun other record => manager.Imports record other) record

/-- What a name leads to has been loaded. -/
def Present (manager : Manager) : Prop := ∀ name slot, getrec name manager.chain = .found slot →
    ∃ image, manager.HasImage slot.first.moduleStruct image

section

variable {manager manager' : Manager}

theorem hasRecord_of_found {name : Name} {slot : ModuleSlot}
    (found : getrec name manager.chain = .found slot) :
    manager.HasRecord slot.first :=
  hasRecord_first (getrec_eq_found found).1

theorem Extends.imports (extend : Extends manager manager')
    (closed : manager.Closed) {record other : ModuleRec}
    (here : manager.HasRecord record)
    (done : record.loadStatus = .doneLoading)
    (imports : manager'.Imports record other) :
    manager.Imports record other ∧ manager.HasRecord other ∧
      other.loadStatus = .doneLoading := by
  obtain ⟨image, name, slot, has, member, found, rfl⟩ := imports
  obtain ⟨before, has, modules⟩ := extend.images here has
  rw [← modules] at member
  obtain ⟨-, slot', found'⟩ := closed.found here done has member
  obtain ⟨kept, found'', same⟩ := extend.found found'
  rw [found''] at found
  cases found
  rw [same]
  exact ⟨⟨before, name, slot', has, member, found', rfl⟩,
    hasRecord_of_found found', (getrec_eq_found found').2.2⟩

theorem Closed.of_extends (closed : manager.Closed) (extend : Extends manager manager')
    (new : ∀ record, manager'.HasRecord record →
      record.loadStatus = .doneLoading → manager.HasRecord record ∨
        ∀ image name, manager'.HasImage record.moduleStruct image →
          name ∈ image.modules → PlainImport name ∧
              ∃ slot, getrec name manager.chain = .found slot) :
    manager'.Closed := by
  have ends : ∀ {record}, manager.HasRecord record → record.loadStatus = .doneLoading →
        Acc (fun other record => manager'.Imports record other) record := by
    intro record here done
    refine @acc_of_inside _ (fun other record => manager.Imports record other)
      _ (fun record => manager.HasRecord record ∧
        record.loadStatus = .doneLoading) record ?_ (closed.ends here done)
      ⟨here, done⟩
    intro record other inside imports
    exact extend.imports closed inside.1 inside.2 imports
  constructor
  · intro record image name here done has member
    rcases new record here done with old | new
    · obtain ⟨before, has, modules⟩ := extend.images old has
      rw [← modules] at member
      obtain ⟨plain, slot, found⟩ := closed.found old done has member
      obtain ⟨slot', found', -⟩ := extend.found found
      exact ⟨plain, slot', found'⟩
    · obtain ⟨plain, slot, found⟩ := new image name has member
      obtain ⟨slot', found', -⟩ := extend.found found
      exact ⟨plain, slot', found'⟩
  · intro record here done
    rcases new record here done with old | new
    · exact ends old done
    · refine ⟨record, ?_⟩
      rintro other ⟨image, name, slot, has, member, found, rfl⟩
      obtain ⟨-, slot', found'⟩ := new image name has member
      obtain ⟨kept, found'', same⟩ := extend.found found'
      rw [found''] at found
      cases found
      rw [same]
      exact ends (hasRecord_of_found found') (getrec_eq_found found').2.2

theorem Closed.sameRecords (closed : manager.Closed)
    (same : SameRecords manager manager') : manager'.Closed :=
  closed.of_extends same.extends fun _ here _ =>
    Or.inl (same.hasRecord_iff.mp here)

theorem Closed.withInstance (closed : manager.Closed)
    (addressed : manager.Addressed) {prev : ModuleSlot} {mname : Name}
    {ixfPrev : IXFModule} (n : Int)
    (found : getrec mname manager.chain = .found prev)
    (live : manager.ixfModule prev.first.moduleStruct = .ok ixfPrev) :
    (manager.withInstance prev mname ixfPrev n).Closed := by
  refine closed.of_extends (extends_withInstance addressed ..) ?_
  intro record here _
  rcases hasRecord_withInstance here with old | rfl
  · exact Or.inl old
  · right
    rintro image name ⟨module, stored, loaded⟩ member
    have copied : some ixfPrev = some module := (if_pos rfl).symm.trans stored
    cases copied
    exact closed.found (hasRecord_of_found found) (getrec_eq_found found).2.2
      ⟨ixfPrev, (ixfModule_eq_ok_iff.mp live).2, loaded⟩ member

theorem Closed.withLoading (closed : manager.Closed)
    (addressed : manager.Addressed) (hmod : Nat) (ixfModule : IXFModule) :
    (manager.withLoading hmod ixfModule).Closed := by
  refine closed.of_extends (extends_withLoading addressed ..) ?_
  intro record here done
  rcases addressed.hasRecord_withLoading.mp here with old | rfl
  · exact Or.inl old
  · cases done

variable {frame : Frame} {own head : ModuleSlot}

theorem Registered.eq_own (addressed : manager.Addressed) (filed : manager.Filed)
    (registered : manager.Registered frame own head) {record : ModuleRec}
    (here : manager.HasRecord record) (loading : record.loadStatus = .loading)
    (same : record.address = frame.newModuleEl) : record = own.first := by
  obtain ⟨slot, member, here⟩ := here
  rcases List.mem_cons.mp here with rfl | up
  · rw [addressed.slot_unique member registered.member (same.trans registered.address.symm)]
  · rw [filed.up_done member up] at loading
    cases loading

theorem Closed.withFinished (closed : manager.Closed)
    (addressed : manager.Addressed) (filed : manager.Filed)
    (registered : manager.Registered frame own head)
    (imports : ∀ image name, manager.HasImage frame.ixfModule image → name ∈ image.modules →
        PlainImport name ∧ ∃ slot, getrec name manager.chain = .found slot) :
    (manager.withFinished frame.newModuleEl).Closed := by
  refine closed.of_extends (extends_withFinished _) ?_
  intro record here done
  obtain ⟨before, old, rfl⟩ := hasRecord_withFinished.mp here
  cases status : before.loadStatus with
  | doneLoading =>
    left
    split
    · rw [← status]
      exact old
    · exact old
  | loading =>
    right
    have address : before.address = frame.newModuleEl := by
      by_contra other
      rw [if_neg other, status] at done
      cases done
    rw [(finished_keeps before).2.1, registered.eq_own addressed filed old status address,
      registered.module]
    exact imports

section

variable (present : manager.Present)

include present

theorem Present.sameRecords (same : SameRecords manager manager') : manager'.Present := by
  intro name slot found
  rw [same.chain] at found
  obtain ⟨image, has⟩ := present name slot found
  refine ⟨image, ?_⟩
  unfold HasImage at has ⊢
  rw [same.heap (hasRecord_of_found found)]
  exact has

theorem Present.withInstance (addressed : manager.Addressed) (prev : ModuleSlot) (mname : Name)
    (ixfPrev : IXFModule) (n : Int) :
    (manager.withInstance prev mname ixfPrev n).Present := by
  intro name slot found
  obtain ⟨first, done⟩ := getrec_eq_found_iff.mp found
  cases before : named name manager.chain with
  | none =>
    have absent := getrec_eq_absent_iff.mp (getrec_eq_absent_iff_named.mpr before)
    obtain ⟨member, same⟩ := named_eq_some first
    obtain ⟨old, known, rfl⟩ := List.mem_map.mp member
    refine absurd ?_ (absent old known)
    split at same
    · exact same
    · exact same
  | some old =>
    obtain ⟨slot', first', same⟩ := named_withInstance prev mname ixfPrev n old before
    rw [first] at first'
    cases first'
    rw [same] at done ⊢
    have found' := getrec_eq_found_iff.mpr ⟨before, done⟩
    obtain ⟨image, module, live, loaded⟩ := present name old found'
    exact ⟨image, module, (if_neg (addressed.module_lt
      (hasRecord_of_found found')).ne).trans live, loaded⟩

theorem Present.withLoading (addressed : manager.Addressed) (hmod : Nat) (ixfModule : IXFModule) :
    (manager.withLoading hmod ixfModule).Present := by
  intro name slot found
  obtain ⟨first, done⟩ := getrec_eq_found_iff.mp found
  cases before : named name manager.chain with
  | none =>
    rw [addressed.withLoading_chain, named_append_of_none _ before] at first
    rw [List.mem_singleton.mp (named_eq_some first).1] at done
    cases done
  | some old =>
    rw [addressed.named_withLoading hmod ixfModule before] at first
    cases first
    exact present name slot (getrec_eq_found_iff.mpr ⟨before, done⟩)

theorem Present.withLinked (hmod : Nat)
    (ixfModule : IXFModule) (image : IXFImage) (fixups : List IXFFixupEntry)
    (memory : Memory) :
    (manager.withLinked hmod ixfModule image fixups memory).Present := by
  intro name slot found
  obtain ⟨image', module, live, loaded⟩ := present name slot found
  by_cases same : slot.first.moduleStruct = hmod
  · exact ⟨_, _, if_pos same, rfl⟩
  · exact ⟨image', module, (if_neg same).trans live, loaded⟩

theorem Present.withFinished (addressed : manager.Addressed)
    (registered : manager.Registered frame own head) {image : IXFImage}
    (has : manager.HasImage frame.ixfModule image) :
    (manager.withFinished frame.newModuleEl).Present := by
  intro name slot found
  obtain ⟨first, done⟩ := getrec_eq_found_iff.mp found
  rw [named_withFinished, Option.map_eq_some_iff] at first
  obtain ⟨before, first, rfl⟩ := first
  rw [ModuleSlot.finish_moduleStruct]
  by_cases same : before.first.address = frame.newModuleEl
  · rw [addressed.slot_unique (named_eq_some first).1 registered.member
      (same.trans registered.address.symm), registered.module]
    exact ⟨image, has⟩
  · rw [ModuleSlot.finish_first_of_ne same] at done
    exact present name before (getrec_eq_found_iff.mpr ⟨first, done⟩)

theorem Present.freed (filed : manager.Filed)
    (registered : manager.Registered frame own head) {ixfModule : IXFModule}
    (live : manager.heap frame.ixfModule = some ixfModule) :
    (manager.ixfFreeModule frame.ixfModule).Present := by
  intro name slot found
  change getrec name manager.chain = .found slot at found
  obtain ⟨image, module, live', loaded⟩ := present name slot found
  refine ⟨image, module, (if_neg ?_).trans live', loaded⟩
  intro same
  obtain ⟨first, done⟩ := getrec_eq_found_iff.mp found
  obtain ⟨member, named⟩ := named_eq_some first
  have ownName := filed.same_name registered.member (List.mem_cons_self ..)
    (by rw [registered.module]; exact live)
  have slotName := filed.same_name member (List.mem_cons_self ..) (by rw [same]; exact live)
  have head := registered.first
  rw [named_congr (ownName.symm.trans (slotName.trans named.symm)), first] at head
  cases head
  rw [registered.busy] at done
  cases done

end

end

/-! ## The imports of the calls -/

/-- The first imports of the module of a call lead to records that are not being
loaded. -/
def ImportsFound (manager : Manager) (frame : Frame) (count : Nat) : Prop :=
  ∀ image i name, manager.HasImage frame.ixfModule image → i < count →
    image.modules[i]? = some name → ¬ Stricmp name sub32 →
      ∃ slot, getrec name manager.chain = .found slot

/-- The current import of a call leads to the record of the call that it
waits for. -/
def WaitsFor (manager : Manager) (callee caller : Frame) : Prop :=
  ∀ image name, manager.HasImage caller.ixfModule image →
    image.modules[caller.moduleCounter]? = some name → ¬ Stricmp name sub32 →
        ∃ slot, named name manager.chain = some slot ∧ slot.first.address = callee.newModuleEl

/-- Each call waits for the next inner one. -/
def Waits (manager : Manager) : List Frame → Prop
  | callee :: caller :: callers =>
    manager.WaitsFor callee caller ∧ Waits manager (caller :: callers)
  | _ => True

/-- How far the calls have come with their imports. -/
structure Importing (manager : Manager) (frames : List Frame) : Prop where
  before : ∀ frame ∈ frames, manager.ImportsFound frame frame.moduleCounter
  current : ∀ frame ∈ frames.head?, frame.imported = true →
    manager.ImportsFound frame (frame.moduleCounter + 1)
  waits : manager.Waits frames

section

variable {manager manager' : Manager} {frame : Frame} {callers : List Frame}

theorem importing_nil : manager.Importing [] := by
  constructor
  · intro frame here
    cases here
  · intro frame head
    cases head
  · trivial

theorem Extends.importsFound (extend : Extends manager manager')
    {own head : ModuleSlot} (registered : manager.Registered frame own head)
    {count : Nat} (imports : manager.ImportsFound frame count) :
    manager'.ImportsFound frame count := by
  intro image i name has small here other
  rw [← registered.module] at has
  obtain ⟨before, has, modules⟩ := extend.images (hasRecord_first registered.member) has
  rw [registered.module] at has
  rw [← modules] at here
  obtain ⟨slot, found⟩ := imports before i name has small here other
  obtain ⟨slot', found', -⟩ := extend.found found
  exact ⟨slot', found'⟩

theorem Extends.waitsFor (extend : Extends manager manager')
    {own head : ModuleSlot} {callee : Frame}
    (registered : manager.Registered frame own head)
    (waits : manager.WaitsFor callee frame) : manager'.WaitsFor callee frame := by
  intro image name has here other
  rw [← registered.module] at has
  obtain ⟨before, has, modules⟩ := extend.images (hasRecord_first registered.member) has
  rw [registered.module] at has
  rw [← modules] at here
  obtain ⟨slot, first, same⟩ := waits before name has here other
  obtain ⟨slot', first', address, -⟩ := extend.named first
  exact ⟨slot', first', address.trans same⟩

theorem Extends.waits (extend : Extends manager manager')
    {frames : List Frame} (calls : manager.Calls frames)
    (waits : manager.Waits frames) : manager'.Waits frames := by
  induction frames with
  | nil => trivial
  | cons callee callers ih =>
    cases callers with
    | nil => trivial
    | cons caller callers =>
      obtain ⟨own, head, registered⟩ := calls.registered caller
        (List.mem_cons_of_mem _ (List.mem_cons_self ..))
      refine ⟨extend.waitsFor registered waits.1, ih ?_ waits.2⟩
      exact ⟨(List.pairwise_cons.mp calls.newer).2, fun call here =>
        calls.registered call (List.mem_cons_of_mem _ here)⟩

theorem Importing.extends {frames : List Frame}
    (importing : manager.Importing frames) (calls : manager.Calls frames)
    (extend : Extends manager manager') : manager'.Importing frames := by
  constructor
  · intro frame here
    obtain ⟨own, head, registered⟩ := calls.registered frame here
    exact extend.importsFound registered (importing.before frame here)
  · intro frame head imported
    obtain ⟨own, slot, registered⟩ := calls.registered frame (List.mem_of_mem_head? head)
    exact extend.importsFound registered (importing.current frame head imported)
  · exact extend.waits calls importing.waits

theorem waits_cons_congr {frame' : Frame} (address : frame'.newModuleEl = frame.newModuleEl)
    (waits : manager.Waits (frame :: callers)) :
    manager.Waits (frame' :: callers) := by
  cases callers with
  | nil => trivial
  | cons caller callers =>
    refine ⟨?_, waits.2⟩
    unfold WaitsFor
    rw [address]
    exact waits.1

section

variable (importing : manager.Importing (frame :: callers))

include importing

theorem Importing.next (imported : frame.imported = true) :
    manager.Importing (frame.next :: callers) := by
  constructor
  · intro call here
    rcases List.mem_cons.mp here with rfl | here
    · exact importing.current frame rfl imported
    · exact importing.before call (List.mem_cons_of_mem _ here)
  · intro call head imported
    cases head
    cases imported
  · exact waits_cons_congr (by rfl) importing.waits

theorem Importing.imported (found : ∀ image name, manager.HasImage frame.ixfModule image →
      image.modules[frame.moduleCounter]? = some name → ¬ Stricmp name sub32 →
        ∃ slot, getrec name manager.chain = .found slot) :
    manager.Importing ({ frame with imported := true } :: callers) := by
  have before := importing.before frame (List.mem_cons_self ..)
  constructor
  · intro call here
    rcases List.mem_cons.mp here with rfl | here
    · exact before
    · exact importing.before call (List.mem_cons_of_mem _ here)
  · intro call head _
    cases head
    intro image i name has small here other
    rcases Nat.lt_succ_iff_lt_or_eq.mp small with less | rfl
    · exact before image i name has less here other
    · exact found image name has here other
  · exact waits_cons_congr (by rfl) importing.waits

theorem Importing.called {callee : Frame} (counter : callee.moduleCounter = 0)
    (next : callee.imported = false)
    (waits : manager.WaitsFor callee frame) :
    manager.Importing (callee :: { frame with imported := true } :: callers) := by
  constructor
  · intro call here
    rcases List.mem_cons.mp here with rfl | here
    · intro image i name _ small
      rw [counter] at small
      exact absurd small (Nat.not_lt_zero i)
    · rcases List.mem_cons.mp here with rfl | here
      · exact importing.before frame (List.mem_cons_self ..)
      · exact importing.before call (List.mem_cons_of_mem _ here)
  · intro call head imported
    cases head
    rw [next] at imported
    cases imported
  · exact ⟨waits, waits_cons_congr (by rfl) importing.waits⟩

theorem Importing.returned (calls : manager.Calls (frame :: callers)) :
    (manager.withFinished frame.newModuleEl).Importing callers := by
  have extend := @extends_withFinished manager frame.newModuleEl
  have after := importing.extends calls extend
  have later : ∀ call ∈ callers, (manager.withFinished frame.newModuleEl).ImportsFound call
        call.moduleCounter := fun call here =>
    after.before call (List.mem_cons_of_mem _ here)
  cases callers with
  | nil => exact importing_nil
  | cons caller callers =>
    refine ⟨later, ?_, after.waits.2⟩
    intro call head _
    cases head
    intro image i name has small here other
    rcases Nat.lt_succ_iff_lt_or_eq.mp small with less | rfl
    · exact later caller (List.mem_cons_self ..) image i name has less here other
    · obtain ⟨slot, first, address⟩ := importing.waits.1 image name has here other
      refine ⟨slot.finish frame.newModuleEl, getrec_eq_found_iff.mpr ⟨?_, ?_⟩⟩
      · rw [named_withFinished, first]
        rfl
      · exact ModuleSlot.finish_loadStatus_of_eq address

end

end

/-- The records and the calls in a state between two turns. -/
structure Settled (manager : Manager) (frames : List Frame) : Prop where
  calls : manager.Calls frames
  closed : manager.Closed
  present : manager.Present
  importing : manager.Importing frames

/-- A call that is about to return has plain imports only. -/
def LeavesPlain (manager : Manager) (frame : Frame) : Prop :=
  ∀ ixfModule image, manager.ixfModule frame.ixfModule = .ok ixfModule →
    ixfModule.image = some image → frame.imported = false →
      image.modules[frame.moduleCounter]? = none → frame.fixupExecutable ixfModule image = 0 →
          ∀ name ∈ image.modules, PlainImport name

section

variable {manager manager' : Manager} {frame : Frame} {callers : List Frame}
  {handlers : IXFHandlers} {files : Files} {stack : Nat} {turn : Turn}

theorem settled_modInitialize (entries : List IXFModuleEntry)
    (shared exec : Bool) (memory : Memory) :
    (modInitialize (kalModule entries shared exec) memory).Settled [] := by
  have images : ∀ {record image},
      (modInitialize (kalModule entries shared exec) memory).HasRecord record →
        (modInitialize (kalModule entries shared exec) memory).HasImage record.moduleStruct image →
          image.modules = [] := by
    rintro record image ⟨slot, member, here⟩ ⟨module, live, loaded⟩
    rw [List.mem_singleton.mp member] at here
    rw [List.mem_singleton.mp here] at live
    cases live
    cases loaded
    rfl
  refine ⟨calls_nil, ⟨?_, ?_⟩, ?_, importing_nil⟩
  · intro record image name here done has member
    rw [images here has] at member
    cases member
  · intro record here done
    refine ⟨record, ?_⟩
    rintro other ⟨image, name, slot, has, member, found, rfl⟩
    rw [images here has] at member
    cases member
  · intro name slot found
    rw [List.mem_singleton.mp (getrec_eq_found found).1]
    exact ⟨_, _, rfl, rfl⟩

variable {name : Name}

theorem AtImport.eq_name (at_ : AtImport frame manager name) {image : IXFImage} {other : Name}
    (has : manager.HasImage frame.ixfModule image)
    (here : image.modules[frame.moduleCounter]? = some other) :
    other = name := by
  obtain ⟨-, module, image', live, loaded, found⟩ := at_
  have same := has.unique ⟨module, (ixfModule_eq_ok_iff.mp live).2, loaded⟩
  rw [same, found] at here
  exact (Option.some.inj here).symm

theorem Opens.sub32_of_found {file : File} {handler : IXFHandler}
    {reply : Reply} (opens : Opens handlers files manager name file handler)
    (entering : Entering cchMaxPath manager.fresh
      (manager.ixfAllocModule (importedModule handler file name))
      (.returned reply) manager') (success : reply.rc = 0) :
    Stricmp name sub32 := by
  by_contra other
  have absent : getrec (recordName (getFname
      (importedModule handler file name).name)) manager.chain = .absent :=
    (getrec_congr (recordName_imported other)).trans opens.absent
  have same : ∀ {ixfModule}, (manager.ixfAllocModule (importedModule handler file name)).ixfModule
          manager.fresh = .ok ixfModule →
        importedModule handler file name = ixfModule := by
    intro ixfModule live
    exact Option.some.inj ((if_pos rfl).symm.trans (ixfModule_eq_ok_iff.mp live).2)
  cases entering with
  | library live found =>
    rw [← same live] at found
    exact absurd (absent.symm.trans found) Getrec.noConfusion
  | executable live found =>
    rw [← same live] at found
    exact absurd (absent.symm.trans found) Getrec.noConfusion
  | failed _ _ _ _ error => exact error success

theorem Opens.named_called {base : Manager} {file : File}
    {handler : IXFHandler} {ixfModule : IXFModule}
    (opens : Opens handlers files manager name file handler)
    (same : SameRecords manager base) (addressed : base.Addressed)
    (live : (manager.ixfAllocModule (importedModule handler file name)).ixfModule
      manager.fresh = .ok ixfModule) (other : ¬ Stricmp name sub32) :
    ∃ slot, named name (base.withLoading manager.fresh ixfModule).chain =
        some slot ∧ slot.first.address = base.fresh := by
  have equal : importedModule handler file name = ixfModule := Option.some.inj
      ((if_pos rfl).symm.trans (ixfModule_eq_ok_iff.mp live).2)
  have absent : named name base.chain = none := by
    rw [same.chain]
    exact getrec_eq_absent_iff_named.mp opens.absent
  have same : Stricmp name (recordName (getFname ixfModule.name)) := by
    rw [← equal]
    exact (recordName_imported other).symm
  refine ⟨enteredSlot base.fresh manager.fresh (recordName (getFname ixfModule.name)), ?_, rfl⟩
  rw [addressed.withLoading_chain, named_append_of_none _ absent]
  simp [named, same]

theorem Settled.turning (settled : manager.Settled (frame :: callers))
    (addressed : manager.Addressed) (filed : manager.Filed)
    (plain : manager.LeavesPlain frame)
    (turning : Turning handlers files stack frame manager turn manager') :
    manager'.Settled
      (Server.afterTurn files callers (turn, manager')).1.frames := by
  have calls := Server.calls_turning settled.calls addressed filed turning
  have failed : ∀ {reply : Reply}, reply.rc ≠ 0 → manager'.Importing
        (Server.afterTurn files callers (.returned reply, manager')).1.frames := by
    intro reply error
    rw [Server.afterTurn_error error]
    exact importing_nil
  have opened : ∀ {handler file name},
      let between := manager.ixfAllocModule (importedModule handler file name)
      between.Addressed ∧ between.Filed ∧ SameRecords manager between := by
    intro handler file name
    have both := filed_of_effects addressed filed (.single (.opened manager
        (show (importedModule handler file name).image = none from rfl)))
    exact ⟨both.1, both.2, addressed.sameRecords_alloc _⟩
  have kept : SameRecords manager manager' →
      manager'.Closed ∧ manager'.Present := fun same =>
    ⟨settled.closed.sameRecords same, settled.present.sameRecords same⟩
  cases turning with
  | fixedUp live loaded imported =>
    exact ⟨calls, settled.closed, settled.present, settled.importing.next imported⟩
  | fixupFailed live loaded imported library fails error =>
    obtain ⟨own, head, registered⟩ := settled.calls.registered frame (List.mem_cons_self ..)
    exact ⟨calls, settled.closed.of_extends (extends_freed _) fun _ here _ =>
        Or.inl here,
      settled.present.freed filed registered (ixfModule_eq_ok_iff.mp live).2,
      failed error⟩
  | present at_ found =>
    refine ⟨calls, settled.closed, settled.present, settled.importing.imported ?_⟩
    intro image name has here _
    rw [at_.eq_name has here]
    exact ⟨_, found⟩
  | openFailed _ _ _ opening error =>
    have both := kept (opening.sameRecords addressed)
    exact ⟨calls, both.1, both.2, failed error⟩
  | enteredFailed _ _ entering error =>
    have both := kept (opened.2.2.trans (entering.sameRecords opened.1 opened.2.1))
    exact ⟨calls, both.1, both.2, failed error⟩
  | enteredFound at_ opens entering success =>
    have same := opened.2.2.trans (entering.sameRecords opened.1 opened.2.1)
    have both := kept same
    have importing :
        manager.Importing ({ frame with imported := true } :: callers) := by
      refine settled.importing.imported ?_
      intro image name has here other
      rw [at_.eq_name has here] at other
      exact absurd (opens.sub32_of_found entering success) other
    exact ⟨calls, both.1, both.2,
      importing.extends (settled.calls.moved (by rfl) (by rfl)) same.extends⟩
  | called at_ opens entering =>
    obtain ⟨ixfModule, base, live, unfinished, same, effects, stored, rfl,
      rfl⟩ := entering.loading opened.2.1
    have based := (filed_of_effects opened.1 opened.2.1 effects).1
    have records := opened.2.2.trans same
    have extend := records.extends.trans (extends_withLoading based manager.fresh ixfModule)
    refine ⟨calls, (settled.closed.sameRecords records).withLoading based _ _,
      (settled.present.sameRecords records).withLoading based _ _, ?_⟩
    refine Importing.called (settled.importing.extends settled.calls extend) rfl rfl ?_
    intro image name has here other
    obtain ⟨own, head, registered⟩ := settled.calls.registered frame (List.mem_cons_self ..)
    obtain ⟨before, has, modules⟩ := extend.images
      (hasRecord_first registered.member) (registered.module.symm ▸ has)
    rw [registered.module] at has
    rw [← modules] at here
    rw [at_.eq_name has here] at other ⊢
    exact opens.named_called records based live other
  | leftFailed _ _ _ _ error =>
    exact ⟨calls, settled.closed, settled.present, failed error⟩
  | @left ixfModule image fixups memory live loaded next last success =>
    obtain ⟨own, head, registered⟩ := settled.calls.registered frame (List.mem_cons_self ..)
    have linked := filed_of_effects addressed filed (.single (.linked fixups memory live loaded))
    have extend := extends_withLinked fixups memory live loaded
    have registered' : (manager.withLinked frame.ixfModule ixfModule image
        fixups memory).Registered frame own head :=
      registered.of_same_chain rfl
    have has : (manager.withLinked frame.ixfModule ixfModule image fixups
        memory).HasImage frame.ixfModule { image with fixups := fixups } :=
      ⟨_, if_pos rfl, rfl⟩
    refine ⟨calls, ?_, ?_, ?_⟩
    · refine Closed.withFinished (settled.closed.of_extends extend
        fun _ here _ => Or.inl here) linked.1 linked.2 registered' ?_
      intro image' name has' member
      rw [has'.unique has] at member
      have plain := plain ixfModule image live loaded next last success name member
      obtain ⟨i, small, here⟩ := List.mem_iff_getElem.mp member
      have inside : i < frame.moduleCounter := small.trans_le (List.getElem?_eq_none_iff.mp last)
      exact ⟨plain, settled.importing.before frame (List.mem_cons_self ..)
        image i name ⟨ixfModule, (ixfModule_eq_ok_iff.mp live).2, loaded⟩
        inside (List.getElem?_eq_some_iff.mpr ⟨small, here⟩) plain.2⟩
    · exact Present.withFinished (settled.present.withLinked frame.ixfModule ixfModule image fixups
          memory) linked.1 registered' has
    · rw [Server.afterTurn_success rfl]
      exact Importing.returned (settled.importing.extends settled.calls extend)
        (settled.calls.of_same_chain rfl)

end

end Manager

end OsFree.Modmgr
