import OsFree.Modmgr.Invariant

/-!
# How modules are filed

A record of the next chain has the name of its module, and the records of its
up chain are further instances of that module, none of which is being loaded.
What the first record with a name is stays for ever; only its status and its up
chain change.
-/

namespace OsFree.Modmgr

open Machine

namespace ModuleSlot

variable {address : Nat} {slot : ModuleSlot}

/-- The slot with the record at an address not being loaded any more. -/
def finish (address : Nat) (slot : ModuleSlot) : ModuleSlot := slot.mapRecords fun record =>
    if record.address = address then { record with loadStatus := .doneLoading }
    else record

@[simp] theorem finish_address :
    (slot.finish address).first.address = slot.first.address :=
  (Manager.finished_keeps slot.first).1

@[simp] theorem finish_moduleStruct :
    (slot.finish address).first.moduleStruct = slot.first.moduleStruct :=
  (Manager.finished_keeps slot.first).2.1

@[simp] theorem finish_modName :
    (slot.finish address).first.modName = slot.first.modName :=
  (Manager.finished_keeps slot.first).2.2.1

theorem finish_first_of_ne (other : slot.first.address ≠ address) :
    (slot.finish address).first = slot.first := if_neg other

theorem finish_loadStatus_of_eq (same : slot.first.address = address) :
    (slot.finish address).first.loadStatus = .doneLoading := by
  change (if slot.first.address = address then _ else slot.first).loadStatus = _
  rw [if_pos same]

theorem finish_first_of_done (done : slot.first.loadStatus = .doneLoading) :
    (slot.finish address).first = slot.first := by
  change (if slot.first.address = address then
    { slot.first with loadStatus := .doneLoading } else slot.first) = _
  split
  · rw [← done]
  · rfl

end ModuleSlot

namespace Manager

/-- Where the records of a module are. -/
structure Filed (manager : Manager) : Prop where
  up_done : ∀ {slot record}, slot ∈ manager.chain → record ∈ slot.up →
    record.loadStatus = .doneLoading
  up_apart : ∀ {slot record other}, slot ∈ manager.chain → record ∈ slot.up →
    other ∈ manager.chain → record.address ≠ other.first.address
  same_name : ∀ {slot record ixfModule}, slot ∈ manager.chain → record ∈ slot.records →
      manager.heap record.moduleStruct = some ixfModule →
        Stricmp (recordName (getFname ixfModule.name)) slot.first.modName

section

variable {manager manager' : Manager} {mname : Name}

theorem named_withInstance (prev : ModuleSlot) (name : Name) (ixfPrev : IXFModule) (n : Int) :
    ∀ slot, named mname manager.chain = some slot → ∃ slot', named mname
          (manager.withInstance prev name ixfPrev n).chain = some slot' ∧
        slot'.first = slot.first := by
  intro slot first
  have keeps : ∀ other : ModuleSlot, (if other.first.address = prev.first.address then
          { other with up := other.up ++
              [instanceRec (manager.fresh + 1) manager.fresh name n] }
        else other).first = other.first := by
    intro other
    split
    · rfl
    · rfl
  refine ⟨_, ?_, keeps slot⟩
  change named mname (manager.chain.map _) = _
  rw [named_map fun other => congrArg ModuleRec.modName (keeps other), first]
  rfl

theorem named_withFinished {address : Nat} : named mname (manager.withFinished address).chain =
      (named mname manager.chain).map (ModuleSlot.finish address) :=
  named_map fun _ => ModuleSlot.finish_modName

theorem Addressed.named_withLoading (addressed : manager.Addressed)
    (hmod : Nat) (ixfModule : IXFModule) {slot : ModuleSlot}
    (first : named mname manager.chain = some slot) :
    named mname (manager.withLoading hmod ixfModule).chain = some slot := by
  rw [addressed.withLoading_chain]
  exact named_append_of_some _ first

theorem Filed.of_same_chain (filed : manager.Filed) (chain : manager'.chain = manager.chain)
    (names : ∀ record ixfModule, manager.HasRecord record →
      manager'.heap record.moduleStruct = some ixfModule →
        ∃ before, manager.heap record.moduleStruct = some before ∧
          before.name = ixfModule.name) : manager'.Filed := by
  constructor
  · intro slot record member
    rw [chain] at member
    exact filed.up_done member
  · intro slot record other member here there
    rw [chain] at member there
    exact filed.up_apart member here there
  · intro slot record ixfModule member here live
    rw [chain] at member
    obtain ⟨before, known, same⟩ := names record ixfModule ⟨slot, member, here⟩ live
    rw [← same]
    exact filed.same_name member here known

variable {prev : ModuleSlot} {hmod : Nat}

theorem Addressed.mem_withInstance (addressed : manager.Addressed)
    {slot : ModuleSlot} {name : Name} {ixfPrev : IXFModule} {n : Int}
    (known : prev ∈ manager.chain)
    (member : slot ∈ (manager.withInstance prev name ixfPrev n).chain) :
    slot ∈ manager.chain ∨
      slot = { prev with up := prev.up ++
        [instanceRec (manager.fresh + 1) manager.fresh name n] } := by
  obtain ⟨before, old, rfl⟩ := List.mem_map.mp member
  split
  · rename_i same
    rw [addressed.slot_unique old known same]
    exact Or.inr rfl
  · exact Or.inl old

theorem Filed.withInstance (filed : manager.Filed) (addressed : manager.Addressed) (mname : Name)
    {ixfPrev : IXFModule} (n : Int) (known : prev ∈ manager.chain)
    (live : manager.heap prev.first.moduleStruct = some ixfPrev) :
    (manager.withInstance prev mname ixfPrev n).Filed := by
  have heap : ∀ record, manager.HasRecord record →
      (manager.withInstance prev mname ixfPrev n).heap record.moduleStruct =
        manager.heap record.moduleStruct := by
    intro record here
    exact if_neg (addressed.module_lt here).ne
  have firsts : ∀ {other}, other ∈ (manager.withInstance prev mname ixfPrev n).chain →
        ∃ before ∈ manager.chain, other.first = before.first := by
    intro other there
    rcases addressed.mem_withInstance known there with old | rfl
    · exact ⟨other, old, rfl⟩
    · exact ⟨prev, known, rfl⟩
  constructor
  · intro slot record member here
    rcases addressed.mem_withInstance known member with old | rfl
    · exact filed.up_done old here
    · rcases List.mem_append.mp here with here | new
      · exact filed.up_done known here
      · rw [List.mem_singleton.mp new]
        rfl
  · intro slot record other member here there
    obtain ⟨before, old, same⟩ := firsts there
    rw [same]
    rcases addressed.mem_withInstance known member with member | rfl
    · exact filed.up_apart member here old
    · rcases List.mem_append.mp here with here | new
      · exact filed.up_apart known here old
      · rw [List.mem_singleton.mp new]
        have := addressed.address_lt (hasRecord_first old)
        change manager.fresh + 1 ≠ before.first.address
        omega
  · intro slot record ixfModule member here found
    rcases addressed.mem_withInstance known member with member | rfl
    · rw [heap record ⟨slot, member, here⟩] at found
      exact filed.same_name member here found
    · change record ∈ prev.first :: (prev.up ++ [instanceRec _ manager.fresh mname n]) at here
      rw [← List.cons_append] at here
      rcases List.mem_append.mp here with here | new
      · rw [heap record ⟨prev, known, here⟩] at found
        change Stricmp _ prev.first.modName
        exact filed.same_name known here found
      · rw [List.mem_singleton.mp new] at found
        have copied : some ixfPrev = some ixfModule := (if_pos rfl).symm.trans found
        cases copied
        change Stricmp _ prev.first.modName
        exact filed.same_name known (List.mem_cons_self ..) live

theorem Filed.withLoading (filed : manager.Filed)
    (addressed : manager.Addressed) {ixfModule : IXFModule}
    (live : manager.heap hmod = some ixfModule) :
    (manager.withLoading hmod ixfModule).Filed := by
  constructor
  · intro slot record member here
    rw [addressed.withLoading_chain] at member
    rcases List.mem_append.mp member with member | new
    · exact filed.up_done member here
    · rw [List.mem_singleton.mp new] at here
      cases here
  · intro slot record other member here there
    rw [addressed.withLoading_chain] at member there
    rcases List.mem_append.mp member with member | new
    · rcases List.mem_append.mp there with there | new
      · exact filed.up_apart member here there
      · rw [List.mem_singleton.mp new]
        exact (addressed.address_lt ⟨slot, member, List.mem_cons_of_mem _ here⟩).ne
    · rw [List.mem_singleton.mp new] at here
      cases here
  · intro slot record module member here found
    rw [addressed.withLoading_chain] at member
    rcases List.mem_append.mp member with member | new
    · exact filed.same_name member here found
    · rw [List.mem_singleton.mp new] at here ⊢
      rw [List.mem_singleton.mp here] at found
      rw [show manager.heap hmod = some module from found] at live
      cases live
      rfl

theorem Filed.withFinished (filed : manager.Filed) (address : Nat) :
    (manager.withFinished address).Filed := by
  have keeps := @finished_keeps address
  constructor
  · intro slot record member here
    obtain ⟨before, old, rfl⟩ := List.mem_map.mp member
    obtain ⟨record', there, rfl⟩ := List.mem_map.mp here
    split
    · rfl
    · exact filed.up_done old there
  · intro slot record other member here there
    obtain ⟨before, old, rfl⟩ := List.mem_map.mp member
    obtain ⟨record', known, rfl⟩ := List.mem_map.mp here
    obtain ⟨before', old', rfl⟩ := List.mem_map.mp there
    intro same
    exact filed.up_apart old known old' ((keeps record').1.symm.trans
      (same.trans (keeps before'.first).1))
  · intro slot record ixfModule member here found
    obtain ⟨before, old, rfl⟩ := List.mem_map.mp member
    rw [records_mapRecords] at here
    obtain ⟨record', known, rfl⟩ := List.mem_map.mp here
    rw [(keeps record').2.1] at found
    have name := (keeps before.first).2.2.1
    exact (filed.same_name old known found).trans (congrArg _ name.symm)

theorem Filed.of_effect (filed : manager.Filed)
    (addressed : manager.Addressed) (effect : Effect manager manager') :
    manager'.Filed := by
  have stored : ∀ {hmod module module'}, manager.ixfModule hmod = .ok module →
      module.name = module'.name → ∀ record ixfModule, manager.HasRecord record →
          (manager.storeModule hmod (some module')).heap record.moduleStruct = some ixfModule →
            ∃ before, manager.heap record.moduleStruct = some before ∧
              before.name = ixfModule.name := by
    intro hmod module module' live name record ixfModule _ found
    change (if record.moduleStruct = hmod then some module'
      else manager.heap record.moduleStruct) = some ixfModule at found
    split at found
    · rename_i same
      cases found
      exact ⟨module, same ▸ (ixfModule_eq_ok_iff.mp live).2, name⟩
    · exact ⟨ixfModule, found, rfl⟩
  cases effect with
  | skipped =>
    exact filed.of_same_chain rfl fun record module _ found =>
      ⟨module, found, rfl⟩
  | opened unloaded =>
    refine filed.of_same_chain rfl ?_
    intro record module here found
    exact ⟨module, (if_neg (addressed.module_lt here).ne).symm.trans found, rfl⟩
  | copied found live counted =>
    exact filed.withInstance addressed _ _ (getrec_eq_found found).1 (ixfModule_eq_ok_iff.mp live).2
  | loaded image live absent =>
    exact filed.of_same_chain rfl (stored live rfl)
  | linked fixups memory live loaded =>
    exact filed.of_same_chain rfl (stored live rfl)
  | freed freed =>
    refine filed.of_same_chain rfl ?_
    intro record module _ found
    change (if record.moduleStruct = freed then none
      else manager.heap record.moduleStruct) = some module at found
    split at found
    · cases found
    · exact ⟨module, found, rfl⟩
  | registered live unfinished =>
    exact filed.withLoading addressed (ixfModule_eq_ok_iff.mp live).2
  | finished address => exact filed.withFinished address

theorem filed_of_effects (addressed : manager.Addressed)
    (filed : manager.Filed) (effects : Effects manager manager') :
    manager'.Addressed ∧ manager'.Filed := by
  refine @RunsTo.preserves _ _ (fun manager => manager.Addressed ∧ manager.Filed) _ _ ?_ effects
    ⟨addressed, filed⟩
  intro before after holds effect
  exact ⟨holds.1.of_effect effect, holds.2.of_effect holds.1 effect⟩

theorem filed_modInitialize (entries : List IXFModuleEntry) (shared exec : Bool) (memory : Memory) :
    (modInitialize (kalModule entries shared exec) memory).Filed := by
  constructor
  · intro slot record member here
    rw [List.mem_singleton.mp member] at here
    cases here
  · intro slot record other member here
    rw [List.mem_singleton.mp member] at here
    cases here
  · intro slot record ixfModule member here found
    rw [List.mem_singleton.mp member] at here ⊢
    rw [List.mem_singleton.mp here] at found
    cases found
    exact (by decide : Stricmp (recordName (getFname kal)) kal)

/-- The records and the modules that they refer to are the same. -/
structure SameRecords (manager manager' : Manager) : Prop where
  chain : manager'.chain = manager.chain
  heap : ∀ {record}, manager.HasRecord record →
    manager'.heap record.moduleStruct = manager.heap record.moduleStruct

theorem SameRecords.refl (manager : Manager) : SameRecords manager manager := ⟨rfl, fun _ => rfl⟩

theorem SameRecords.hasRecord_iff (same : SameRecords manager manager')
    {record : ModuleRec} : manager'.HasRecord record ↔
      manager.HasRecord record := by
  unfold HasRecord
  rw [same.chain]

theorem SameRecords.trans {manager'' : Manager} (first : SameRecords manager manager')
    (second : SameRecords manager' manager'') :
    SameRecords manager manager'' := by
  constructor
  · exact second.chain.trans first.chain
  · intro record here
    exact (second.heap (first.hasRecord_iff.mpr here)).trans (first.heap here)

theorem SameRecords.skipped (manager : Manager) :
    SameRecords manager { manager with fresh := manager.fresh + 1 } :=
  ⟨rfl, fun _ => rfl⟩

theorem Addressed.sameRecords_alloc (addressed : manager.Addressed) (ixfModule : IXFModule) :
    SameRecords manager (manager.ixfAllocModule ixfModule) :=
  ⟨rfl, fun here => if_neg (addressed.module_lt here).ne⟩

theorem Filed.sameRecords_store (filed : manager.Filed)
    {ixfModule : IXFModule} (live : manager.ixfModule hmod = .ok ixfModule)
    (absent : getrec (recordName (getFname ixfModule.name)) manager.chain =
      .absent) (stored : Option IXFModule) :
    SameRecords manager (manager.storeModule hmod stored) := by
  refine ⟨rfl, ?_⟩
  rintro record ⟨slot, member, here⟩
  refine if_neg ?_
  intro same
  exact getrec_eq_absent_iff.mp absent slot member (filed.same_name member here
      (same ▸ (ixfModule_eq_ok_iff.mp live).2))

theorem Filed.withFinished_last (filed : manager.Filed) (addressed : manager.Addressed)
    (found : getrec mname manager.chain = .found prev) :
    manager.withFinished prev.last.address = manager := by
  obtain ⟨known, -, done⟩ := getrec_eq_found found
  have chain : manager.chain.map (ModuleSlot.finish prev.last.address) =
      manager.chain := by
    conv_rhs => rw [← List.map_id manager.chain]
    apply List.map_congr_left
    intro slot member
    refine ModuleSlot.mapRecords_eq_self ?_
    intro record here
    split
    · rename_i same
      have status : record.loadStatus = .doneLoading := by
        rcases List.mem_cons.mp here with rfl | up
        · rcases List.mem_cons.mp (last_mem_records prev) with last | last
          · rw [last] at same
            rw [addressed.slot_unique member known same]
            exact done
          · exact absurd same.symm (filed.up_apart known last member)
        · exact filed.up_done member up
      rw [← status]
    · rfl
  change { manager with
    chain := manager.chain.map (ModuleSlot.finish prev.last.address) } = manager
  rw [chain]

theorem Opening.sameRecords (addressed : manager.Addressed)
    {handlers : IXFHandlers} {files : Files} {pszModname : Name} {reply : Reply}
    (opening : Opening handlers files pszModname false manager reply manager') :
    SameRecords manager manager' := by
  cases opening with
  | failed => exact .refl manager
  | registered => exact .refl manager
  | copied _ _ _ executable => cases executable
  | unknown => exact .skipped manager
  | opened => exact addressed.sameRecords_alloc _

theorem Entering.sameRecords (addressed : manager.Addressed)
    (filed : manager.Filed) {cbName : UInt32} {reply : Reply}
    (entering : Entering cbName hmod manager (.returned reply) manager') :
    SameRecords manager manager' := by
  cases entering with
  | library => exact .refl manager
  | executable live found =>
    rw [filed.withFinished_last addressed found]
    exact .refl manager
  | failed live absent => exact filed.sameRecords_store live absent none

theorem Entering.loading (filed : manager.Filed) {cbName : UInt32} {hmod : Nat} {frame : Frame}
    (entering : Entering cbName hmod manager (.loading frame) manager') :
    ∃ ixfModule base, manager.ixfModule hmod = .ok ixfModule ∧
      (∀ prev, getrec (recordName (getFname ixfModule.name)) manager.chain ≠ .found prev) ∧
      SameRecords manager base ∧ Effects manager base ∧
      (∃ image, base.ixfModule hmod =
        .ok { ixfModule with image := image }) ∧
      frame = enteredFrame cbName hmod ixfModule base ∧
      manager' = base.withLoading hmod ixfModule := by
  cases entering with
  | @loaded ixfModule image live absent load =>
    refine ⟨ixfModule, _, live, ?_, filed.sameRecords_store live absent
      (some { ixfModule with image := some image }),
      .single (.loaded image live absent), ⟨some image, ?_⟩, rfl, rfl⟩
    · intro prev
      rw [absent]
      exact Getrec.noConfusion
    · rw [ixfModule_eq_ok_iff] at live ⊢
      exact ⟨live.1, if_pos rfl⟩
  | @again ixfModule live loading =>
    refine ⟨ixfModule, manager, live, ?_, .refl manager, .refl, ⟨ixfModule.image, live⟩, rfl, rfl⟩
    intro prev
    rw [loading]
    exact Getrec.noConfusion

end

end Manager

namespace Server

variable {handlers : IXFHandlers} {condition : Server → Event → Prop} {server : Server}

theorem ReachableIf.filed (reachable : server.ReachableIf handlers condition) :
    server.manager.Filed := by
  have both := @ReachableIf.manager_induction handlers condition server
    (fun manager => manager.Addressed ∧ manager.Filed) reachable
    (fun entries shared exec memory =>
      ⟨Manager.addressed_modInitialize _ memory,
        Manager.filed_modInitialize entries shared exec memory⟩)
    fun _ _ holds effect =>
      Manager.filed_of_effects holds.1 holds.2 (.single effect)
  exact both.2

theorem ReachableIf.step_induction {Inv : Manager → List Frame → Prop}
    (reachable : server.ReachableIf handlers condition)
    (start : ∀ entries shared exec memory,
      Inv (modInitialize (kalModule entries shared exec) memory) [])
    (preserved : ∀ server event reply server', server.manager.Addressed →
      server.manager.Filed → Inv server.manager server.frames →
        Stepping handlers server event reply server' → condition server event →
          Inv server'.manager server'.frames) :
    Inv server.manager server.frames := by
  obtain ⟨first, initial, run⟩ := reachable
  obtain ⟨entries, shared, exec, memory, equal⟩ := initial.manager
  have holds : first.manager.Addressed ∧ first.manager.Filed ∧
      Inv first.manager first.frames := by
    rw [equal, initial.frames]
    exact ⟨Manager.addressed_modInitialize _ memory,
      Manager.filed_modInitialize entries shared exec memory,
      start entries shared exec memory⟩
  refine (@RunsTo.preserves _ _ (fun server => server.manager.Addressed ∧
    server.manager.Filed ∧ Inv server.manager server.frames) _ _ ?_ run holds).2.2
  rintro server server' ⟨addressed, filed, inv⟩ ⟨event, reply, step, meets⟩
  have kept := Manager.filed_of_effects addressed filed step.effects
  exact ⟨kept.1, kept.2, preserved server event reply server' addressed filed
    inv step.stepping meets⟩

end Server

/-!
## Records of the calls of `LoadModule`

Every call that has not returned has a record that is being loaded, an inner
call a newer one than an outer call.  The name of such a record is found being
loaded until the outermost call for it returns.
-/

namespace Manager

/-- A call has a record of its own, and the first record with its name, which is
not newer, is being loaded. -/
structure Registered (manager : Manager) (frame : Frame)
    (own head : ModuleSlot) : Prop where
  member : own ∈ manager.chain
  address : own.first.address = frame.newModuleEl
  module : own.first.moduleStruct = frame.ixfModule
  loading : own.first.loadStatus = .loading
  first : named own.first.modName manager.chain = some head
  busy : head.first.loadStatus = .loading
  older : head.first.address ≤ frame.newModuleEl

/-- The calls that have not returned, the innermost first. -/
structure Calls (manager : Manager) (frames : List Frame) : Prop where
  newer : frames.Pairwise fun inner outer =>
    outer.newModuleEl < inner.newModuleEl
  registered : ∀ frame ∈ frames, ∃ own head, manager.Registered frame own head

section

variable {manager manager' : Manager} {frame : Frame} {own head : ModuleSlot}

section

variable (registered : manager.Registered frame own head)

include registered

theorem Registered.of_same_chain (chain : manager'.chain = manager.chain) :
    manager'.Registered frame own head :=
  { registered with
    member := chain ▸ registered.member
    first := chain ▸ registered.first }

theorem Registered.withLoading
    (addressed : manager.Addressed) (hmod : Nat) (ixfModule : IXFModule) :
    (manager.withLoading hmod ixfModule).Registered frame own head :=
  { registered with
    member := by
      rw [addressed.withLoading_chain]
      exact List.mem_append_left _ registered.member
    first := addressed.named_withLoading hmod ixfModule registered.first }

theorem Registered.withFinished {address : Nat} (newer : frame.newModuleEl < address) :
    (manager.withFinished address).Registered frame (own.finish address)
      (head.finish address) := by
  have ownFirst : (own.finish address).first = own.first :=
    ModuleSlot.finish_first_of_ne (by rw [registered.address]; exact newer.ne)
  have headFirst : (head.finish address).first = head.first :=
    ModuleSlot.finish_first_of_ne (registered.older.trans_lt newer).ne
  constructor
  · exact List.mem_map_of_mem registered.member
  · rw [ownFirst]
    exact registered.address
  · rw [ownFirst]
    exact registered.module
  · rw [ownFirst]
    exact registered.loading
  · rw [ownFirst, named_withFinished, registered.first]
    rfl
  · rw [headFirst]
    exact registered.busy
  · rw [headFirst]
    exact registered.older

end

theorem registered_entered (addressed : manager.Addressed) {hmod : Nat}
    {ixfModule : IXFModule} (cbName : UInt32)
    (unfinished : ∀ prev, getrec (recordName (getFname ixfModule.name)) manager.chain ≠
        .found prev) :
    ∃ own head, (manager.withLoading hmod ixfModule).Registered
      (enteredFrame cbName hmod ixfModule manager) own head := by
  have chain := addressed.withLoading_chain hmod ixfModule
  have member : enteredSlot manager.fresh hmod (recordName (getFname ixfModule.name)) ∈
        (manager.withLoading hmod ixfModule).chain := by
    rw [chain]
    exact List.mem_append_right _ (List.mem_singleton_self _)
  cases first : named (recordName (getFname ixfModule.name)) manager.chain with
  | none =>
    have new : named (recordName (getFname ixfModule.name))
        (manager.withLoading hmod ixfModule).chain = some (enteredSlot manager.fresh hmod
            (recordName (getFname ixfModule.name))) := by
      rw [chain, named_append_of_none _ first]
      simp [named, Stricmp.refl]
    exact ⟨_, _, member, rfl, rfl, rfl, new, rfl, le_rfl⟩
  | some head =>
    have busy : head.first.loadStatus = .loading := by
      cases status : head.first.loadStatus with
      | loading => rfl
      | doneLoading =>
        exact absurd (getrec_eq_found_iff.mpr ⟨first, status⟩) (unfinished head)
    have older := addressed.address_lt (hasRecord_first (named_eq_some first).1)
    exact ⟨_, head, member, rfl, rfl, rfl,
      addressed.named_withLoading hmod ixfModule first, busy, older.le⟩

theorem calls_nil : manager.Calls [] := ⟨.nil, fun _ here => absurd here List.not_mem_nil⟩

theorem Calls.of_same_chain {frames : List Frame}
    (calls : manager.Calls frames) (chain : manager'.chain = manager.chain) :
    manager'.Calls frames := by
  refine ⟨calls.newer, ?_⟩
  intro frame here
  obtain ⟨own, head, registered⟩ := calls.registered frame here
  exact ⟨own, head, registered.of_same_chain chain⟩

theorem Calls.moved {frame' : Frame} {callers : List Frame}
    (calls : manager.Calls (frame :: callers))
    (address : frame'.newModuleEl = frame.newModuleEl)
    (module : frame'.ixfModule = frame.ixfModule) :
    manager.Calls (frame' :: callers) := by
  obtain ⟨newer, others⟩ := List.pairwise_cons.mp calls.newer
  constructor
  · rw [List.pairwise_cons, address]
    exact ⟨newer, others⟩
  · intro call here
    rcases List.mem_cons.mp here with rfl | here
    · obtain ⟨own, head, registered⟩ := calls.registered frame (List.mem_cons_self ..)
      exact ⟨own, head, { registered with
          address := registered.address.trans address.symm
          module := registered.module.trans module.symm
          older := address.symm ▸ registered.older }⟩
    · exact calls.registered call (List.mem_cons_of_mem _ here)

theorem Calls.entered {frames : List Frame} (calls : manager.Calls frames)
    (addressed : manager.Addressed) {hmod : Nat} {ixfModule : IXFModule}
    (cbName : UInt32)
    (unfinished : ∀ prev, getrec (recordName (getFname ixfModule.name)) manager.chain ≠
        .found prev) :
    (manager.withLoading hmod ixfModule).Calls
      (enteredFrame cbName hmod ixfModule manager :: frames) := by
  constructor
  · refine List.pairwise_cons.mpr ⟨?_, calls.newer⟩
    intro outer here
    obtain ⟨own, head, registered⟩ := calls.registered outer here
    rw [← registered.address]
    exact addressed.address_lt (hasRecord_first registered.member)
  · intro call here
    rcases List.mem_cons.mp here with rfl | here
    · exact registered_entered addressed cbName unfinished
    · obtain ⟨own, head, registered⟩ := calls.registered call here
      exact ⟨own, head, registered.withLoading addressed hmod ixfModule⟩

theorem Calls.returned {callers : List Frame} (calls : manager.Calls (frame :: callers)) :
    (manager.withFinished frame.newModuleEl).Calls callers := by
  obtain ⟨newer, others⟩ := List.pairwise_cons.mp calls.newer
  refine ⟨others, ?_⟩
  intro call here
  obtain ⟨own, head, registered⟩ := calls.registered call (List.mem_cons_of_mem _ here)
  exact ⟨_, _, registered.withFinished (newer call here)⟩

end

end Manager

namespace Server

variable {handlers : IXFHandlers} {files : Files} {stack : Nat} {frame : Frame}
  {callers : List Frame} {manager manager' : Manager} {turn : Turn}

variable {reply : Reply}

theorem afterTurn_error (error : reply.rc ≠ 0) :
    afterTurn files callers (.returned reply, manager) =
      ({ manager, files, frames := [] }, some (unwind callers reply)) :=
  if_neg fun both => error both.1

theorem afterTurn_success (success : reply.rc = 0) :
    (afterTurn files callers (.returned reply, manager)).1.frames =
      callers := by
  unfold afterTurn
  simp only
  split
  · rfl
  · rename_i last
    cases callers with
    | nil => rfl
    | cons caller callers => exact absurd ⟨success, List.cons_ne_nil _ _⟩ last

theorem afterTurn_reply (replied : (afterTurn files callers (turn, manager)).2 = some reply) :
    ∃ answer, turn = .returned answer ∧ reply = unwind callers answer ∧
      (answer.rc = 0 → callers = []) := by
  cases turn with
  | moved => cases replied
  | called => cases replied
  | returned answer =>
    unfold afterTurn at replied
    simp only at replied
    split at replied
    · cases replied
    · rename_i last
      refine ⟨answer, rfl, (Option.some.inj replied).symm, ?_⟩
      intro success
      by_contra callers
      exact last ⟨success, callers⟩

theorem unwind_rc (callers : List Frame) (answer : Reply) :
    (unwind callers answer).rc = answer.rc := by
  unfold unwind
  split
  · rfl
  · rfl

theorem Step.turned {server server' : Server} {reply : Option Reply}
    (step : Step handlers server (.turn stack) reply server') :
    ∃ frame callers turn manager, server.frames = frame :: callers ∧
      Manager.Turning handlers server.files stack frame server.manager turn manager ∧
      (server', reply) = afterTurn server.files callers (turn, manager) := by
  cases step.stepping with
  | turned busy turning => exact ⟨_, _, _, _, busy, turning, rfl⟩

theorem calls_turning (calls : manager.Calls (frame :: callers))
    (addressed : manager.Addressed) (filed : manager.Filed)
    (turning : Manager.Turning handlers files stack frame manager turn manager') :
    manager'.Calls (afterTurn files callers (turn, manager')).1.frames := by
  have failed : ∀ {reply : Reply}, reply.rc ≠ 0 → manager'.Calls
        (afterTurn files callers (.returned reply, manager')).1.frames := by
    intro reply error
    rw [afterTurn_error error]
    exact Manager.calls_nil
  have opened : ∀ {handler file name},
      let between := manager.ixfAllocModule (Manager.importedModule handler file name)
      between.Addressed ∧ between.Filed := by
    intro handler file name
    exact Manager.filed_of_effects addressed filed (.single (.opened manager rfl))
  cases turning with
  | fixedUp => exact calls.moved rfl rfl
  | fixupFailed _ _ _ _ _ error => exact failed error
  | present => exact calls.moved rfl rfl
  | openFailed _ _ _ _ error => exact failed error
  | enteredFailed _ _ _ error => exact failed error
  | enteredFound _ _ entering =>
    have same := entering.sameRecords opened.1 opened.2
    exact (calls.of_same_chain same.chain).moved rfl rfl
  | called _ _ entering =>
    obtain ⟨ixfModule, base, live, unfinished, same, effects, stored, rfl,
      rfl⟩ := entering.loading opened.2
    have calls' : base.Calls ({ frame with imported := true } :: callers) :=
      (calls.of_same_chain same.chain).moved rfl rfl
    refine calls'.entered ?_ cchMaxPath ?_
    · exact (Manager.filed_of_effects opened.1 opened.2 effects).1
    · rw [same.chain]
      exact unfinished
  | leftFailed _ _ _ _ error => exact failed error
  | left =>
    rw [afterTurn_success rfl]
    exact Manager.Calls.returned (calls.of_same_chain rfl)

end Server

end OsFree.Modmgr
