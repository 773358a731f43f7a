import OsFree.Modmgr.LoadError

/-!
# Instances of an executable

Opening an executable gives a handle that has not been given out before, and the
instances on an up chain are numbered one after the other.  A request to load an
executable whose name is registered returns the last instance, whichever handle
it was given, so a client gets its own instance just when that is the last one.
-/

namespace OsFree.Modmgr

open Machine

namespace ModuleSlot

/-- The instances of the slot are numbered from zero. -/
def Numbered (slot : ModuleSlot) : Prop := slot.records.map ModuleRec.inst =
    (List.range slot.records.length).map Int.ofNat

theorem getLast?_records (slot : ModuleSlot) :
    slot.records.getLast? = some slot.last := by
  unfold records last
  rw [List.getLast?_cons, List.getLastD_eq_getLast?]

theorem Numbered.last {slot : ModuleSlot} (numbered : slot.Numbered) :
    slot.last.inst = slot.up.length := by
  have ends := congrArg List.getLast? numbered
  rw [List.getLast?_map, getLast?_records, List.getLast?_map, List.getLast?_range] at ends
  simp only [records, List.length_cons, Option.map_some] at ends
  simpa using ends

theorem Numbered.linked {slot : ModuleSlot} (numbered : slot.Numbered)
    {record : ModuleRec} (next : record.inst = slot.last.inst + 1) :
    ({ slot with up := slot.up ++ [record] } : ModuleSlot).Numbered := by
  have records : ({ slot with up := slot.up ++ [record] } :
      ModuleSlot).records = slot.records ++ [record] := rfl
  unfold Numbered
  rw [records, List.map_append, numbered, List.length_append,
    List.length_singleton, List.range_succ, List.map_append]
  congr 1
  rw [List.map_singleton, List.map_singleton, next, numbered.last]
  rfl

theorem Numbered.finish {slot : ModuleSlot} (numbered : slot.Numbered)
    (address : Nat) : (slot.finish address).Numbered := by
  have same : (slot.finish address).records.map ModuleRec.inst =
      slot.records.map ModuleRec.inst := by
    unfold ModuleSlot.finish
    rw [Manager.records_mapRecords, List.map_map]
    apply List.map_congr_left
    intro record _
    exact (Manager.finished_keeps record).2.2.2
  unfold Numbered
  rw [same, numbered]
  simp [ModuleSlot.finish, Manager.records_mapRecords]

end ModuleSlot

namespace Manager

variable {manager manager' : Manager}

theorem numbered_of_effect (addressed : manager.Addressed)
    (numbered : ∀ slot ∈ manager.chain, slot.Numbered)
    (effect : Effect manager manager') :
    ∀ slot ∈ manager'.chain, slot.Numbered := by
  cases effect with
  | skipped => exact numbered
  | opened => exact numbered
  | copied found live counted =>
    have known := (getrec_eq_found found).1
    intro slot member
    rcases addressed.mem_withInstance known member with old | rfl
    · exact numbered slot old
    · exact (numbered _ known).linked (addInt_eq_ok_iff.mp counted).1
  | loaded => exact numbered
  | linked => exact numbered
  | freed => exact numbered
  | registered =>
    intro slot member
    rw [addressed.withLoading_chain] at member
    rcases List.mem_append.mp member with old | new
    · exact numbered slot old
    · rw [List.mem_singleton.mp new]
      rfl
  | finished address =>
    intro slot member
    obtain ⟨before, old, rfl⟩ := List.mem_map.mp member
    exact (numbered before old).finish address

theorem fresh_le_of_effect (effect : Effect manager manager') :
    manager.fresh ≤ manager'.fresh := by
  cases effect with
  | skipped => exact Nat.le_succ _
  | opened => exact Nat.le_succ _
  | copied => exact Nat.le_add_right _ 2
  | loaded => exact le_rfl
  | linked => exact le_rfl
  | freed => exact le_rfl
  | registered => exact Nat.le_succ _
  | finished => exact le_rfl

theorem openModule_of_unknown {handlers : IXFHandlers} {files : Files}
    {cbName rc : UInt32} {pszModname : Name} {file : File}
    (absent : getrec (getFname pszModname) manager.chain = .absent)
    (loads : files.load true pszModname = (0, file))
    (rejected : handlers.identifyModule file = .error rc) :
    manager.openModule handlers files cbName pszModname true = .ok (openFailure cbName 0 pszModname,
        { manager with fresh := manager.fresh + 1 }) := by
  have name : openedName true pszModname = pszModname := if_neg fun both => Bool.noConfusion both.1
  unfold openModule openFile
  simp only [name, absent, loads, rejected]
  rfl

theorem enterLoadModule_of_found {cbName : UInt32} {hmod : Nat}
    {ixfModule : IXFModule} {prev : ModuleSlot}
    (live : manager.ixfModule hmod = .ok ixfModule)
    (executable : ixfModule.exec = true)
    (found : getrec (recordName (getFname ixfModule.name)) manager.chain = .found prev) :
    manager.enterLoadModule cbName hmod = .ok (.returned
          { rc := 0, phmod := prev.last.moduleStruct, pszName := [] },
        manager.withFinished prev.last.address) := by
  unfold enterLoadModule
  rw [live, bind_ok]
  simp only [found, executable, if_true]
  rfl

end Manager

namespace Server

variable {handlers : IXFHandlers} {condition : Server → Event → Prop} {server server' : Server}

/-- An executable that is opened has a handle of its own, and an executable that
is loaded has the handle that was asked for. -/
def OwnInstance (handlers : IXFHandlers) (files : Files) (server : Server) : Request → Prop
  | .openModule cbName pszModname exeflag => exeflag = true → ∀ reply server', Step handlers server
          (.accept files (.openModule cbName pszModname exeflag)) (some reply)
          server' →
        reply.rc = 0 → server.manager.fresh ≤ reply.phmod ∧ reply.phmod < server'.manager.fresh ∧
            ∃ ixfModule, server'.manager.heap reply.phmod = some ixfModule
  | .loadModule cbName hmod =>
    ∀ ixfModule, server.manager.ixfModule hmod = .ok ixfModule → ixfModule.exec = true →
        ∀ reply server', LoadCall handlers (fun _ _ => True) files cbName hmod
            server reply server' →
          reply.rc = 0 → reply.phmod = hmod

/-- A file that is opened has a known format, or the buffer is too small for its
name; and an executable that is loaded is the last instance unless its name is
not registered. -/
def LastInstance (handlers : IXFHandlers) (files : Files) (server : Server) : Request → Prop
  | .openModule cbName pszModname exeflag => exeflag = true →
      getrec (getFname pszModname) server.manager.chain = .absent →
        ∀ file rc, files.load true pszModname = (0, file) →
          handlers.identifyModule file = .error rc → cbName.toNat ≤ pszModname.length
  | .loadModule _ hmod =>
    ∀ ixfModule, server.manager.ixfModule hmod = .ok ixfModule →
      ixfModule.exec = true → ∀ prev, getrec (recordName (getFname ixfModule.name))
            server.manager.chain = .found prev →
          prev.last.moduleStruct = hmod

theorem openModule_own {files : Files} {cbName : UInt32} {pszModname : Name} {reply : Reply}
    (step : Step handlers server
      (.accept files (.openModule cbName pszModname true)) (some reply) server')
    (known : LastInstance handlers files server
      (.openModule cbName pszModname true)) (success : reply.rc = 0) :
    server.manager.fresh ≤ reply.phmod ∧ reply.phmod < server'.manager.fresh ∧
      ∃ ixfModule, server'.manager.heap reply.phmod = some ixfModule := by
  cases step with
  | accept idle accepted =>
    obtain ⟨⟨answer, manager⟩, opened, equal⟩ := bind_eq_ok_iff.mp accepted
    cases equal
    cases Manager.openModule_opening opened with
    | failed error => exact absurd success error
    | registered _ library => cases library
    | copied =>
      exact ⟨le_rfl, Nat.lt_add_of_pos_right (by decide), _, if_pos rfl⟩
    | @unknown _ file rc absent loads rejected =>
      rw [show openedName true pszModname = pszModname from
        if_neg fun both => Bool.noConfusion both.1] at loads
      rw [Manager.openModule_of_unknown absent loads rejected] at opened
      cases opened
      have small := known rfl absent file rc loads rejected
      unfold openFailure at success
      rw [if_pos small] at success
      exact absurd success (by decide)
    | opened => exact ⟨le_rfl, Nat.lt_succ_self _, _, if_pos rfl⟩

theorem openModule_ownInstance_iff (addressed : server.manager.Addressed)
    (idle : server.frames = []) (files : Files) (cbName : UInt32)
    (pszModname : Name) (exeflag : Bool) :
    OwnInstance handlers files server (.openModule cbName pszModname exeflag) ↔
      LastInstance handlers files server
        (.openModule cbName pszModname exeflag) := by
  constructor
  · intro own executable absent file rc loads rejected
    subst executable
    by_contra large
    have accepted : server.accept handlers files (.openModule cbName pszModname true) =
          .ok ({ manager :=
              { server.manager with fresh := server.manager.fresh + 1 }
                 files, frames := [] },
            some (openFailure cbName 0 pszModname)) := by
      simp only [accept, Manager.openModule_of_unknown absent loads rejected, bind_ok, pure_eq_ok]
    have reply : openFailure cbName 0 pszModname =
        { rc := 0, phmod := 0, pszName := pszModname } := if_neg large
    have fresh := (own rfl _ _ (.accept idle accepted) (by rw [reply])).1
    rw [reply] at fresh
    exact absurd addressed.fresh_pos (not_lt.mpr fresh)
  · intro known executable reply server' step success
    subst executable
    exact openModule_own step known success

/-- The module of the outermost call. -/
def outermost (frames : List Frame) : Option Nat := frames.getLast?.map Frame.ixfModule

theorem outermost_cons {frame frame' : Frame}
    (module : frame'.ixfModule = frame.ixfModule) (callers : List Frame) :
    outermost (frame' :: callers) = outermost (frame :: callers) := by
  unfold outermost
  rw [List.getLast?_cons, List.getLast?_cons]
  cases callers.getLast? with
  | none => exact congrArg some module
  | some last => rfl

theorem outermost_cons_of_ne_nil (frame : Frame) {callers : List Frame} (inner : callers ≠ []) :
    outermost (frame :: callers) = outermost callers := by
  unfold outermost
  rw [List.getLast?_cons_of_ne_nil inner]

theorem Step.outermost {stack : Nat} (step : Step handlers server (.turn stack) none server') :
    outermost server'.frames = outermost server.frames := by
  obtain ⟨frame, callers, turn, manager, busy, turning, after⟩ := step.turned
  rw [busy]
  cases turn with
  | moved frame' =>
    cases after
    cases turning with
    | fixedUp => exact outermost_cons (by rfl) callers
    | present => exact outermost_cons (by rfl) callers
    | enteredFound => exact outermost_cons (by rfl) callers
  | called callee caller =>
    cases after
    cases turning with
    | called =>
      exact (outermost_cons_of_ne_nil callee (List.cons_ne_nil _ _)).trans
        (outermost_cons (by rfl) callers)
  | returned answer =>
    unfold afterTurn at after
    simp only at after
    split at after
    · rename_i inner
      cases after
      exact (outermost_cons_of_ne_nil frame inner.2).symm
    · cases after

theorem Turns.phmod {reply : Reply} (turns : Turns handlers condition server reply server')
    (success : reply.rc = 0) :
    outermost server.frames = some reply.phmod := by
  induction turns with
  | last step =>
    obtain ⟨frame, callers, turn, manager, busy, turning, after⟩ := step.turned
    obtain ⟨answer, rfl, rfl, single⟩ := afterTurn_reply (congrArg Prod.snd after).symm
    rw [unwind_rc] at success
    rw [busy, single success]
    cases turning with
    | fixupFailed _ _ _ _ _ error => exact absurd success error
    | openFailed _ _ _ _ error => exact absurd success error
    | enteredFailed _ _ _ error => exact absurd success error
    | leftFailed _ _ _ _ error => exact absurd success error
    | left => rfl
  | next step _ _ ih =>
    exact step.outermost.symm.trans (ih success)

theorem loadModule_ownInstance_iff (idle : server.frames = [])
    (files : Files) (cbName : UInt32) (hmod : Nat) :
    OwnInstance handlers files server (.loadModule cbName hmod) ↔
      LastInstance handlers files server (.loadModule cbName hmod) := by
  constructor
  · intro own ixfModule live executable prev found
    have accepted : server.accept handlers files (.loadModule cbName hmod) =
        .ok ({ manager := server.manager.withFinished prev.last.address
               files, frames := [] },
          some { rc := 0, phmod := prev.last.moduleStruct, pszName := [] }) := by
      simp only [accept, Manager.enterLoadModule_of_found live executable found, map_ok, afterEnter]
    exact own ixfModule live executable _ _ (.returned (.accept idle accepted) trivial) rfl
  · intro last ixfModule live executable reply server' call success
    cases call with
    | returned step =>
      cases step.stepping with
      | returned idle entering =>
        cases entering with
        | library live' _ library =>
          rw [live] at live'
          cases live'
          rw [executable] at library
          cases library
        | executable live' found =>
          rw [live] at live'
          cases live'
          exact last ixfModule live executable _ found
        | failed _ _ _ _ error => exact absurd success error
    | turns step _ turns =>
      have handle := turns.phmod success
      cases step.stepping with
      | entered idle entering =>
        have module : ∀ {frame manager},
            Manager.Entering cbName hmod server.manager (.loading frame)
              manager → frame.ixfModule = hmod := by
          intro frame manager entering
          cases entering with
          | loaded => rfl
          | again => rfl
        exact (Option.some.inj handle).symm.trans (module entering)

theorem ReachableIf.numbered (reachable : server.ReachableIf handlers condition) :
    ∀ slot ∈ server.manager.chain, slot.Numbered := by
  refine (@ReachableIf.manager_induction handlers condition server
    (fun manager => manager.Addressed ∧ ∀ slot ∈ manager.chain, slot.Numbered) reachable ?_ ?_).2
  · intro entries shared exec memory
    refine ⟨Manager.addressed_modInitialize _ memory, ?_⟩
    intro slot member
    rw [List.mem_singleton.mp member]
    rfl
  · intro manager manager' holds effect
    exact ⟨holds.1.of_effect effect, Manager.numbered_of_effect holds.1 holds.2 effect⟩

theorem fresh_le_of_runsTo (run : RunsTo (StepIf handlers condition) server server') :
    server.manager.fresh ≤ server'.manager.fresh := by
  refine @RunsTo.preserves _ _
    (fun after => server.manager.fresh ≤ after.manager.fresh) _ _ ?_ run le_rfl
  rintro before after large ⟨event, reply, step, -⟩
  exact @RunsTo.preserves _ _ (fun manager => server.manager.fresh ≤ manager.fresh) _ _
    (fun _ _ less effect => less.trans (Manager.fresh_le_of_effect effect))
    step.effects large

/-- The executable `X` imports nothing. -/
def plainExecutable : Files := namedFiles [([0x58], [])]

end Server

end OsFree.Modmgr
