import OsFree.Modmgr.Effect

/-!
# Addresses of records and modules

In every state of the server the records and the modules are at different
addresses, and the address of a record tells which record of the next chain it
is.
-/

namespace OsFree.Modmgr

open Machine

namespace Manager

/-- The record is on the next chain or on an up chain. -/
def HasRecord (manager : Manager) (record : ModuleRec) : Prop :=
  ∃ slot ∈ manager.chain, record ∈ slot.records

/-- Addresses are given out once: to a record or to a module. -/
structure Addressed (manager : Manager) : Prop where
  live_lt : ∀ {hmod ixfModule}, manager.heap hmod = some ixfModule → hmod < manager.fresh
  address_lt : ∀ {record}, manager.HasRecord record → record.address < manager.fresh
  module_lt : ∀ {record}, manager.HasRecord record → record.moduleStruct < manager.fresh
  module_pos : ∀ {record}, manager.HasRecord record → record.moduleStruct ≠ 0
  apart : ∀ {record other}, manager.HasRecord record →
    manager.HasRecord other → record.moduleStruct ≠ other.address
  not_live : ∀ {record}, manager.HasRecord record → manager.heap record.address = none
  slot_unique : ∀ {slot other}, slot ∈ manager.chain → other ∈ manager.chain →
    slot.first.address = other.first.address → slot = other
  fresh_pos : 0 < manager.fresh

section

variable {manager : Manager}

theorem hasRecord_first {slot : ModuleSlot} (member : slot ∈ manager.chain) :
    manager.HasRecord slot.first :=
  ⟨slot, member, List.mem_cons_self ..⟩

theorem last_mem_records (slot : ModuleSlot) : slot.last ∈ slot.records := by
  unfold ModuleSlot.last ModuleSlot.records
  cases up : slot.up with
  | nil => exact List.mem_cons_self ..
  | cons record rest =>
    rw [List.getLastD_cons]
    exact List.mem_cons_of_mem _ (List.getLastD_mem_cons ..)

theorem records_mapRecords (slot : ModuleSlot) (f : ModuleRec → ModuleRec) :
    (slot.mapRecords f).records = slot.records.map f := rfl

theorem setLoadStatus_of_apart {address : Nat} {status : LoadStatus} {chain : List ModuleSlot}
    (apart : ∀ slot ∈ chain, ∀ record ∈ slot.records, record.address ≠ address) :
    setLoadStatus address status chain = chain := by
  conv_rhs => rw [← List.map_id chain]
  apply List.map_congr_left
  intro slot member
  refine ModuleSlot.mapRecords_eq_self ?_
  intro record here
  exact if_neg (apart slot member record here)

/-- The record of a module that is being loaded. -/
abbrev enteredSlot (address hmod : Nat) (name : Name) : ModuleSlot :=
  { first :=
      { address := address, modName := name, moduleStruct := hmod, inst := 0
        loadStatus := .loading }
    up := [] }

theorem Addressed.withLoading_chain (addressed : manager.Addressed)
    (hmod : Nat) (ixfModule : IXFModule) :
    (manager.withLoading hmod ixfModule).chain = manager.chain ++ [enteredSlot manager.fresh hmod
        (recordName (getFname ixfModule.name))] := by
  unfold withLoading
  rw [show setLoadStatus manager.fresh .loading (manager.chain ++ [loadingSlot manager.fresh hmod
        (recordName (getFname ixfModule.name))]) =
      setLoadStatus manager.fresh .loading manager.chain ++
        setLoadStatus manager.fresh .loading [loadingSlot manager.fresh hmod
            (recordName (getFname ixfModule.name))] from List.map_append,
    setLoadStatus_of_apart]
  · simp [setLoadStatus, loadingSlot, ModuleSlot.mapRecords]
  · intro slot member record here
    exact (addressed.address_lt ⟨slot, member, here⟩).ne

theorem Addressed.hasRecord_withLoading (addressed : manager.Addressed)
    {hmod : Nat} {ixfModule : IXFModule} {record : ModuleRec} :
    (manager.withLoading hmod ixfModule).HasRecord record ↔ manager.HasRecord record ∨ record =
        { address := manager.fresh
          modName := recordName (getFname ixfModule.name)
          moduleStruct := hmod, inst := 0, loadStatus := .loading } := by
  unfold HasRecord
  rw [addressed.withLoading_chain]
  simp [ModuleSlot.records, or_and_right, exists_or]

theorem hasRecord_withFinished {address : Nat} {record : ModuleRec} :
    (manager.withFinished address).HasRecord record ↔ ∃ before, manager.HasRecord before ∧ record =
        if before.address = address then
          { before with loadStatus := .doneLoading }
        else before := by
  constructor
  · rintro ⟨_, member, here⟩
    obtain ⟨slot, known, rfl⟩ := List.mem_map.mp member
    rw [records_mapRecords] at here
    obtain ⟨before, there, rfl⟩ := List.mem_map.mp here
    exact ⟨before, ⟨slot, known, there⟩, rfl⟩
  · rintro ⟨before, ⟨slot, member, here⟩, rfl⟩
    refine ⟨_, List.mem_map.mpr ⟨slot, member, rfl⟩, ?_⟩
    rw [records_mapRecords]
    exact List.mem_map.mpr ⟨before, here, rfl⟩

theorem hasRecord_withInstance {prev : ModuleSlot} {mname : Name}
    {ixfPrev : IXFModule} {n : Int} {record : ModuleRec}
    (here : (manager.withInstance prev mname ixfPrev n).HasRecord record) :
    manager.HasRecord record ∨
      record = instanceRec (manager.fresh + 1) manager.fresh mname n := by
  obtain ⟨_, member, here⟩ := here
  obtain ⟨slot, known, rfl⟩ := List.mem_map.mp member
  split at here
  · rcases List.mem_cons.mp here with rfl | up
    · exact Or.inl ⟨slot, known, List.mem_cons_self ..⟩
    · rcases List.mem_append.mp up with up | new
      · exact Or.inl ⟨slot, known, List.mem_cons_of_mem _ up⟩
      · exact Or.inr (List.mem_singleton.mp new)
  · exact Or.inl ⟨slot, known, here⟩

theorem finished_keeps {address : Nat} (before : ModuleRec) :
    let record :=
      if before.address = address then
        { before with loadStatus := .doneLoading }
      else before
    record.address = before.address ∧ record.moduleStruct = before.moduleStruct ∧
      record.modName = before.modName ∧ record.inst = before.inst := by
  split
  · exact ⟨rfl, rfl, rfl, rfl⟩
  · exact ⟨rfl, rfl, rfl, rfl⟩

section

variable (addressed : manager.Addressed)

include addressed

theorem Addressed.of_same_chain {manager' : Manager} (chain : manager'.chain = manager.chain)
    (fresh : manager.fresh ≤ manager'.fresh)
    (live : ∀ hmod ixfModule, manager'.heap hmod = some ixfModule →
      (∃ before, manager.heap hmod = some before) ∨ manager.fresh ≤ hmod ∧ hmod < manager'.fresh) :
    manager'.Addressed := by
  have same : ∀ {record}, manager'.HasRecord record ↔
      manager.HasRecord record := by
    intro record
    unfold HasRecord
    rw [chain]
  constructor
  · intro hmod ixfModule here
    rcases live hmod ixfModule here with ⟨before, here⟩ | ⟨-, small⟩
    · exact (addressed.live_lt here).trans_le fresh
    · exact small
  · intro record here
    exact (addressed.address_lt (same.mp here)).trans_le fresh
  · intro record here
    exact (addressed.module_lt (same.mp here)).trans_le fresh
  · intro record here
    exact addressed.module_pos (same.mp here)
  · intro record other here there
    exact addressed.apart (same.mp here) (same.mp there)
  · intro record here
    cases found : manager'.heap record.address with
    | none => rfl
    | some ixfModule =>
      rcases live _ ixfModule found with ⟨before, known⟩ | ⟨large, -⟩
      · rw [addressed.not_live (same.mp here)] at known
        cases known
      · exact absurd (addressed.address_lt (same.mp here)) (not_lt.mpr large)
  · intro slot other member there
    rw [chain] at member there
    exact addressed.slot_unique member there
  · exact addressed.fresh_pos.trans_le fresh

theorem Addressed.withInstance {prev : ModuleSlot} (mname : Name) (ixfPrev : IXFModule) (n : Int) :
    (manager.withInstance prev mname ixfPrev n).Addressed := by
  have old := @hasRecord_withInstance manager prev mname ixfPrev n
  constructor
  · intro hmod ixfModule here
    change (if hmod = manager.fresh then some ixfPrev
      else manager.heap hmod) = some ixfModule at here
    change hmod < manager.fresh + 2
    split at here
    · omega
    · have := addressed.live_lt here
      omega
  · intro record here
    change record.address < manager.fresh + 2
    rcases old here with here | rfl
    · have := addressed.address_lt here
      omega
    · change manager.fresh + 1 < manager.fresh + 2
      omega
  · intro record here
    change record.moduleStruct < manager.fresh + 2
    rcases old here with here | rfl
    · have := addressed.module_lt here
      omega
    · change manager.fresh < manager.fresh + 2
      omega
  · intro record here
    rcases old here with here | rfl
    · exact addressed.module_pos here
    · exact addressed.fresh_pos.ne'
  · intro record other here there
    rcases old here with here | rfl
    · have module := addressed.module_lt here
      rcases old there with there | rfl
      · exact addressed.apart here there
      · change record.moduleStruct ≠ manager.fresh + 1
        omega
    · change manager.fresh ≠ other.address
      rcases old there with there | rfl
      · exact (addressed.address_lt there).ne'
      · change manager.fresh ≠ manager.fresh + 1
        omega
  · intro record here
    change (if record.address = manager.fresh then some ixfPrev
      else manager.heap record.address) = none
    rcases old here with here | rfl
    · rw [if_neg (addressed.address_lt here).ne]
      exact addressed.not_live here
    · change (if manager.fresh + 1 = manager.fresh then some ixfPrev
        else manager.heap (manager.fresh + 1)) = none
      rw [if_neg (by omega)]
      cases found : manager.heap (manager.fresh + 1) with
      | none => rfl
      | some ixfModule =>
        have := addressed.live_lt found
        omega
  · intro slot other member there same
    obtain ⟨before, known, rfl⟩ := List.mem_map.mp member
    obtain ⟨before', known', rfl⟩ := List.mem_map.mp there
    have first : ∀ held : ModuleSlot, (if held.first.address = prev.first.address then
          { held with up := held.up ++
              [instanceRec (manager.fresh + 1) manager.fresh mname n] }
        else held).first = held.first := by
      intro held
      split
      · rfl
      · rfl
    rw [first, first] at same
    rw [addressed.slot_unique known known' same]
  · exact Nat.lt_add_left _ (by decide)

theorem Addressed.withLoading {hmod : Nat}
    {ixfModule : IXFModule} (live : manager.ixfModule hmod = .ok ixfModule) :
    (manager.withLoading hmod ixfModule).Addressed := by
  obtain ⟨nonnull, live⟩ := ixfModule_eq_ok_iff.mp live
  have known := addressed.live_lt live
  have old := @Addressed.hasRecord_withLoading _ addressed hmod ixfModule
  constructor
  · intro other module here
    exact (addressed.live_lt here).trans (Nat.lt_succ_self _)
  · intro record here
    rcases old.mp here with here | rfl
    · exact (addressed.address_lt here).trans (Nat.lt_succ_self _)
    · exact Nat.lt_succ_self _
  · intro record here
    rcases old.mp here with here | rfl
    · exact (addressed.module_lt here).trans (Nat.lt_succ_self _)
    · exact known.trans (Nat.lt_succ_self _)
  · intro record here
    rcases old.mp here with here | rfl
    · exact addressed.module_pos here
    · exact nonnull
  · intro record other here there
    rcases old.mp here with here | rfl
    · rcases old.mp there with there | rfl
      · exact addressed.apart here there
      · exact (addressed.module_lt here).ne
    · rcases old.mp there with there | rfl
      · intro same
        have none := addressed.not_live there
        rw [← same, live] at none
        cases none
      · exact known.ne
  · intro record here
    rcases old.mp here with here | rfl
    · exact addressed.not_live here
    · cases found : manager.heap manager.fresh with
      | none => exact found
      | some module => exact absurd (addressed.live_lt found) (lt_irrefl _)
  · intro slot other member there same
    rw [addressed.withLoading_chain] at member there
    rcases List.mem_append.mp member with member | new
    · rcases List.mem_append.mp there with there | new'
      · exact addressed.slot_unique member there same
      · rw [List.mem_singleton.mp new'] at same
        exact absurd same (addressed.address_lt (hasRecord_first member)).ne
    · rcases List.mem_append.mp there with there | new'
      · rw [List.mem_singleton.mp new] at same
        exact absurd same.symm (addressed.address_lt (hasRecord_first there)).ne
      · rw [List.mem_singleton.mp new, List.mem_singleton.mp new']
  · exact Nat.succ_pos _

theorem Addressed.withFinished (address : Nat) : (manager.withFinished address).Addressed := by
  have keeps := @finished_keeps address
  have old := @hasRecord_withFinished manager address
  constructor
  · intro hmod ixfModule here
    exact addressed.live_lt here
  · intro record here
    obtain ⟨before, held, rfl⟩ := old.mp here
    rw [(keeps before).1]
    exact addressed.address_lt held
  · intro record here
    obtain ⟨before, held, rfl⟩ := old.mp here
    rw [(keeps before).2.1]
    exact addressed.module_lt held
  · intro record here
    obtain ⟨before, held, rfl⟩ := old.mp here
    rw [(keeps before).2.1]
    exact addressed.module_pos held
  · intro record other here there
    obtain ⟨before, held, rfl⟩ := old.mp here
    obtain ⟨before', held', rfl⟩ := old.mp there
    rw [(keeps before).2.1, (keeps before').1]
    exact addressed.apart held held'
  · intro record here
    obtain ⟨before, held, rfl⟩ := old.mp here
    rw [(keeps before).1]
    exact addressed.not_live held
  · intro slot other member there same
    obtain ⟨before, known, rfl⟩ := List.mem_map.mp member
    obtain ⟨before', known', rfl⟩ := List.mem_map.mp there
    have first := fun held : ModuleSlot => (keeps held.first).1
    have equal := (first before).symm.trans (same.trans (first before'))
    rw [addressed.slot_unique known known' equal]
  · exact addressed.fresh_pos

theorem Addressed.of_effect {manager' : Manager}
    (effect : Effect manager manager') : manager'.Addressed := by
  cases effect with
  | skipped =>
    exact addressed.of_same_chain rfl (Nat.le_succ _) fun hmod module here => Or.inl ⟨module, here⟩
  | opened unloaded =>
    refine addressed.of_same_chain rfl (Nat.le_succ _) ?_
    intro hmod module here
    change (if hmod = manager.fresh then _ else manager.heap hmod) = _ at here
    split at here
    · rename_i same
      exact Or.inr ⟨same.ge, same ▸ Nat.lt_succ_self _⟩
    · exact Or.inl ⟨module, here⟩
  | copied found live counted => exact addressed.withInstance _ _ _
  | loaded image live absent =>
    refine addressed.of_same_chain rfl le_rfl ?_
    intro hmod module here
    change (if hmod = _ then _ else manager.heap hmod) = _ at here
    split at here
    · rename_i same
      exact Or.inl ⟨_, same ▸ (ixfModule_eq_ok_iff.mp live).2⟩
    · exact Or.inl ⟨module, here⟩
  | linked fixups memory live loaded =>
    refine addressed.of_same_chain rfl le_rfl ?_
    intro hmod module here
    change (if hmod = _ then _ else manager.heap hmod) = _ at here
    split at here
    · rename_i same
      exact Or.inl ⟨_, same ▸ (ixfModule_eq_ok_iff.mp live).2⟩
    · exact Or.inl ⟨module, here⟩
  | freed freed =>
    refine addressed.of_same_chain rfl le_rfl ?_
    intro hmod module here
    change (if hmod = freed then none else manager.heap hmod) = _ at here
    split at here
    · cases here
    · exact Or.inl ⟨module, here⟩
  | registered live unfinished => exact addressed.withLoading live
  | finished address => exact addressed.withFinished address

end

theorem addressed_modInitialize (module : IXFModule) (memory : Memory) :
    (modInitialize module memory).Addressed := by
  have old : ∀ {record}, (modInitialize module memory).HasRecord record →
      record.address = 2 ∧ record.moduleStruct = 1 := by
    rintro record ⟨slot, member, here⟩
    rw [List.mem_singleton.mp member] at here
    rw [List.mem_singleton.mp here]
    exact ⟨rfl, rfl⟩
  constructor
  · intro hmod ixfModule here
    change (if hmod = 1 then some module else none) = some ixfModule at here
    change hmod < 3
    split at here
    · omega
    · cases here
  · intro record here
    rw [(old here).1]
    exact (by decide : 2 < 3)
  · intro record here
    rw [(old here).2]
    exact (by decide : 1 < 3)
  · intro record here
    rw [(old here).2]
    decide
  · intro record other here there
    rw [(old here).2, (old there).1]
    decide
  · intro record here
    rw [(old here).1]
    rfl
  · intro slot other member there _
    rw [List.mem_singleton.mp member, List.mem_singleton.mp there]
  · exact (by decide : 0 < 3)

end

end Manager

namespace Server

/-- A state that a run from the start reaches whose steps all meet a
condition. -/
def ReachableIf (handlers : IXFHandlers) (condition : Server → Event → Prop)
    (server : Server) : Prop :=
  ∃ start : Server, start.Initial ∧ RunsTo (StepIf handlers condition) start server

/-- A state that a run from the start reaches. -/
abbrev Reachable (handlers : IXFHandlers) (server : Server) : Prop :=
  server.ReachableIf handlers fun _ _ => True

variable {handlers : IXFHandlers} {condition : Server → Event → Prop} {server : Server}

theorem ReachableIf.manager_induction {Inv : Manager → Prop}
    (reachable : server.ReachableIf handlers condition)
    (start : ∀ entries shared exec memory,
      Inv (modInitialize (kalModule entries shared exec) memory))
    (preserved : ∀ manager manager', Inv manager → Manager.Effect manager manager' → Inv manager') :
    Inv server.manager := by
  obtain ⟨first, initial, run⟩ := reachable
  obtain ⟨entries, shared, exec, memory, equal⟩ := initial.manager
  have holds : Inv first.manager := equal ▸ start entries shared exec memory
  refine @RunsTo.preserves _ _ (fun server => Inv server.manager) _ _ ?_ run holds
  rintro server server' holds ⟨event, reply, step, -⟩
  exact RunsTo.preserves preserved step.effects holds

theorem reachable_of_serve {start : Server} {events : List Event}
    {replies : List (Option Reply)} (initial : start.Initial)
    (served : start.serve handlers events = some (server, replies)) :
    server.Reachable handlers :=
  ⟨start, initial, runsTo_of_serve served⟩

theorem ReachableIf.addressed (reachable : server.ReachableIf handlers condition) :
    server.manager.Addressed :=
  reachable.manager_induction (fun _ _ _ memory => Manager.addressed_modInitialize _ memory)
    fun _ _ addressed effect => addressed.of_effect effect

end Server

end OsFree.Modmgr
