import OsFree.Modmgr.Filing
import OsFree.Modmgr.NameUnique

/-!
# Loads that fail

`LoadModule` takes back nothing when an import cannot be loaded or a module
cannot be fixed up.  A load that returns an error leaves the records as they
were just as long as this does not happen: then the only error is that of a
module that could not be loaded itself, which has no record yet.
-/

namespace OsFree.Modmgr

open Machine

namespace Server

variable (handlers : IXFHandlers) (condition : Server → Event → Prop)

/-- The turns up to the reply to a client. -/
inductive Turns : Server → Reply → Server → Prop where
  | last {server server' : Server} {reply : Reply} {stack : Nat}
      (step : Step handlers server (.turn stack) (some reply) server')
      (meets : condition server (.turn stack)) : Turns server reply server'
  | next {server between server' : Server} {reply : Reply} {stack : Nat}
      (step : Step handlers server (.turn stack) none between)
      (meets : condition server (.turn stack))
      (turns : Turns between reply server') : Turns server reply server'

/-- A client calls `LoadModule`. -/
inductive LoadCall (files : Files) (cbName : UInt32) (hmod : Nat) :
    Server → Reply → Server → Prop where
  | returned {server server' : Server} {reply : Reply}
      (step : Step handlers server (.accept files (.loadModule cbName hmod)) (some reply) server')
      (meets : condition server (.accept files (.loadModule cbName hmod))) :
      LoadCall files cbName hmod server reply server'
  | turns {server between server' : Server} {reply : Reply}
      (step : Step handlers server (.accept files (.loadModule cbName hmod)) none between)
      (meets : condition server (.accept files (.loadModule cbName hmod)))
      (turns : Turns handlers condition between reply server') :
      LoadCall files cbName hmod server reply server'

/-- A client calls `ModLoadModule`. -/
inductive ModLoadCall (files : Files) (cbName : UInt32) (pszModname : Name) :
    Server → Reply → Server → Prop where
  | notOpened {server server' : Server} {reply : Reply} (step : Step handlers server
        (.accept files (.openModule cbName pszModname false)) (some reply)
        server')
      (error : reply.rc ≠ 0) :
      ModLoadCall files cbName pszModname server reply server'
  | opened {server between server' : Server} {opened reply : Reply} (step : Step handlers server
        (.accept files (.openModule cbName pszModname false)) (some opened)
        between)
      (success : opened.rc = 0)
      (call : LoadCall handlers condition files cbName opened.phmod between reply server') :
      ModLoadCall files cbName pszModname server reply server'

end Server

namespace Manager

/-- Nothing goes wrong in the next turn of a call: the next import is registered
or can be opened and loaded, and fixing up succeeds. -/
structure ImportLoads (handlers : IXFHandlers) (files : Files)
    (manager : Manager) (frame : Frame) : Prop where
  opens : ∀ name, AtImport frame manager name →
    (∀ prev, getrec name manager.chain ≠ .found prev) →
      ∃ file handler, Opens handlers files manager name file handler ∧
        (getrec (recordName (getFname (openedName false (name ++ dll)))) manager.chain = .absent →
          (handler.load manager.fresh file).1 = 0)
  fixedUp : ∀ ixfModule image, manager.ixfModule frame.ixfModule =
      .ok ixfModule → ixfModule.image = some image → frame.imported = true →
    frame.exeflag = false → ixfModule.handler.fixup frame.ixfModule image = 0
  left : ∀ ixfModule image, manager.ixfModule frame.ixfModule =
      .ok ixfModule → ixfModule.image = some image → frame.imported = false →
    image.modules[frame.moduleCounter]? = none → frame.fixupExecutable ixfModule image = 0

section

variable {handlers : IXFHandlers} {files : Files} {stack : Nat} {frame : Frame}
  {manager manager' : Manager}

theorem Opens.unique {name : Name} {file file' : File} {handler handler' : IXFHandler}
    (opens : Opens handlers files manager name file handler)
    (opens' : Opens handlers files manager name file' handler') :
    file = file' ∧ handler = handler' := by
  have files := opens.loads.symm.trans opens'.loads
  cases files
  have handlers := opens.identified.symm.trans opens'.identified
  cases handlers
  exact ⟨rfl, rfl⟩

theorem ImportLoads.returned {reply : Reply} (loads : ImportLoads handlers files manager frame)
    (turning : Turning handlers files stack frame manager (.returned reply) manager') :
    reply.rc = 0 ∧ ∃ ixfModule image fixups memory,
      manager.ixfModule frame.ixfModule = .ok ixfModule ∧ ixfModule.image = some image ∧
        manager' = (manager.withLinked frame.ixfModule ixfModule image fixups
          memory).withFinished frame.newModuleEl := by
  cases turning with
  | fixupFailed live loaded imported library failed =>
    exact absurd (loads.fixedUp _ _ live loaded imported library) failed
  | openFailed at_ missing closed =>
    obtain ⟨file, handler, opens, -⟩ := loads.opens _ at_ missing
    exact absurd opens (closed file handler)
  | @enteredFailed name file handler reply _ at_ opens entering error =>
    have missing : ∀ prev, getrec name manager.chain ≠ .found prev := by
      intro prev
      rw [opens.absent]
      exact Getrec.noConfusion
    obtain ⟨file', handler', opens', load⟩ := loads.opens _ at_ missing
    obtain ⟨rfl, rfl⟩ := opens.unique opens'
    cases entering with
    | library => exact absurd rfl error
    | executable => exact absurd rfl error
    | failed live absent loaded unloaded =>
      obtain ⟨-, stored⟩ := ixfModule_eq_ok_iff.mp live
      have equal := (if_pos rfl).symm.trans stored
      cases equal
      have success := load absent
      rw [show handler.load manager.fresh file = _ from loaded] at success
      exact absurd success unloaded
  | leftFailed live loaded next last error =>
    exact absurd (loads.left _ _ live loaded next last) error
  | left live loaded => exact ⟨rfl, _, _, _, _, live, loaded, rfl⟩

end

/-- Every record refers to a module, and the ones that are being loaded are
those of the calls. -/
structure Complete (manager : Manager) (frames : List Frame) : Prop where
  live : ∀ {record}, manager.HasRecord record →
    ∃ ixfModule, manager.heap record.moduleStruct = some ixfModule
  loading : ∀ {record}, manager.HasRecord record → record.loadStatus = .loading →
      ∃ frame ∈ frames, frame.newModuleEl = record.address

section

variable {manager manager' : Manager} {frame : Frame} {frames : List Frame}

theorem Complete.sameRecords (complete : manager.Complete frames)
    (same : SameRecords manager manager') : manager'.Complete frames := by
  constructor
  · intro record here
    have before := same.hasRecord_iff.mp here
    rw [same.heap before]
    exact complete.live before
  · intro record here
    exact complete.loading (same.hasRecord_iff.mp here)

theorem Complete.moved {frame' : Frame} (complete : manager.Complete (frame :: frames))
    (address : frame'.newModuleEl = frame.newModuleEl) :
    manager.Complete (frame' :: frames) := by
  refine ⟨complete.live, ?_⟩
  intro record here loading
  obtain ⟨call, member, same⟩ := complete.loading here loading
  rcases List.mem_cons.mp member with rfl | member
  · exact ⟨frame', List.mem_cons_self .., address.trans same⟩
  · exact ⟨call, List.mem_cons_of_mem _ member, same⟩

theorem Complete.withInstance (complete : manager.Complete frames)
    (addressed : manager.Addressed) (prev : ModuleSlot) (mname : Name)
    (ixfPrev : IXFModule) (n : Int) :
    (manager.withInstance prev mname ixfPrev n).Complete frames := by
  constructor
  · intro record here
    rcases hasRecord_withInstance here with before | rfl
    · obtain ⟨ixfModule, live⟩ := complete.live before
      exact ⟨ixfModule, (if_neg (addressed.module_lt before).ne).trans live⟩
    · exact ⟨ixfPrev, if_pos rfl⟩
  · intro record here loading
    rcases hasRecord_withInstance here with before | rfl
    · exact complete.loading before loading
    · cases loading

theorem Complete.entered (complete : manager.Complete frames)
    (addressed : manager.Addressed) {hmod : Nat} {ixfModule before : IXFModule}
    (live : manager.ixfModule hmod = .ok before) (cbName : UInt32) :
    (manager.withLoading hmod ixfModule).Complete
      (enteredFrame cbName hmod ixfModule manager :: frames) := by
  constructor
  · intro record here
    rcases addressed.hasRecord_withLoading.mp here with old | rfl
    · exact complete.live old
    · exact ⟨before, (ixfModule_eq_ok_iff.mp live).2⟩
  · intro record here loading
    rcases addressed.hasRecord_withLoading.mp here with old | rfl
    · obtain ⟨call, member, same⟩ := complete.loading old loading
      exact ⟨call, List.mem_cons_of_mem _ member, same⟩
    · exact ⟨_, List.mem_cons_self .., rfl⟩

theorem Complete.linked (complete : manager.Complete frames) (hmod : Nat)
    (ixfModule : IXFModule) (image : IXFImage) (fixups : List IXFFixupEntry)
    (memory : Memory) :
    (manager.withLinked hmod ixfModule image fixups memory).Complete
      frames := by
  refine ⟨?_, complete.loading⟩
  intro record here
  change ∃ module, (if record.moduleStruct = hmod then _
    else manager.heap record.moduleStruct) = some module
  split
  · exact ⟨_, rfl⟩
  · exact complete.live here

theorem Complete.returned (complete : manager.Complete (frame :: frames)) :
    (manager.withFinished frame.newModuleEl).Complete frames := by
  constructor
  · intro record here
    obtain ⟨before, old, rfl⟩ := hasRecord_withFinished.mp here
    rw [(finished_keeps before).2.1]
    exact complete.live old
  · intro record here loading
    obtain ⟨before, old, rfl⟩ := hasRecord_withFinished.mp here
    split at loading
    · cases loading
    · rename_i other
      rw [if_neg other]
      obtain ⟨call, member, same⟩ := complete.loading old loading
      rcases List.mem_cons.mp member with rfl | member
      · exact absurd same.symm other
      · exact ⟨call, member, same⟩

theorem complete_modInitialize (module : IXFModule) (memory : Memory) :
    (modInitialize module memory).Complete [] := by
  constructor
  · rintro record ⟨slot, member, here⟩
    rw [List.mem_singleton.mp member] at here
    rw [List.mem_singleton.mp here]
    exact ⟨module, rfl⟩
  · rintro record ⟨slot, member, here⟩ loading
    rw [List.mem_singleton.mp member] at here
    rw [List.mem_singleton.mp here] at loading
    cases loading

end

end Manager

namespace Server

/-- In a turn nothing goes wrong. -/
def ImportsLoad (handlers : IXFHandlers) (server : Server) : Event → Prop
  | .accept .. => True
  | .turn _ => ∀ frame ∈ server.frames.head?,
      Manager.ImportLoads handlers server.files server.manager frame

variable {handlers : IXFHandlers} {server server' : Server}

variable {files : Files} {reply : Reply}

theorem complete_turning {stack : Nat} {frame : Frame}
    {callers : List Frame} {manager manager' : Manager} {turn : Turn}
    (complete : manager.Complete (frame :: callers))
    (addressed : manager.Addressed) (filed : manager.Filed)
    (loads : Manager.ImportLoads handlers files manager frame)
    (turning : Manager.Turning handlers files stack frame manager turn manager') :
    manager'.Complete (afterTurn files callers (turn, manager')).1.frames := by
  have opened : ∀ {handler file name},
      let between := manager.ixfAllocModule (Manager.importedModule handler file name)
      between.Addressed ∧ between.Filed ∧ between.Complete (frame :: callers) := by
    intro handler file name
    have both := Manager.filed_of_effects addressed filed (.single (.opened manager
        (show (Manager.importedModule handler file name).image = none from rfl)))
    exact ⟨both.1, both.2, complete.sameRecords (addressed.sameRecords_alloc _)⟩
  have returns := fun reply => @Manager.ImportLoads.returned handlers files stack
    frame manager manager' reply loads
  cases turn with
  | returned reply =>
    obtain ⟨success, ixfModule, image, fixups, memory, -, -, rfl⟩ := returns reply turning
    rw [afterTurn_success success]
    exact (complete.linked ..).returned
  | moved frame' =>
    cases turning with
    | fixedUp => exact complete.moved rfl
    | present => exact complete.moved rfl
    | enteredFound _ _ entering =>
      exact (opened.2.2.sameRecords (entering.sameRecords opened.1 opened.2.1)).moved rfl
  | called callee caller =>
    cases turning with
    | called _ _ entering =>
      obtain ⟨ixfModule, base, -, -, same, effects, ⟨image, stored⟩, rfl,
        rfl⟩ := entering.loading opened.2.1
      have complete' : base.Complete
          ({ frame with imported := true } :: callers) :=
        (opened.2.2.sameRecords same).moved rfl
      exact complete'.entered (Manager.filed_of_effects opened.1 opened.2.1 effects).1 stored _

theorem ReachableIf.complete (reachable : server.ReachableIf handlers (ImportsLoad handlers)) :
    server.manager.Complete server.frames := by
  refine @ReachableIf.step_induction handlers (ImportsLoad handlers) server
    Manager.Complete reachable
    (fun _ _ _ memory => Manager.complete_modInitialize _ memory) ?_
  intro server event reply server' addressed filed complete stepping loads
  cases stepping with
  | @opened files cbName pszModname exeflag _ _ idle opening =>
    rw [idle] at complete
    cases opening with
    | failed => exact complete
    | registered => exact complete
    | copied => exact complete.withInstance addressed ..
    | unknown => exact complete.sameRecords (.skipped _)
    | opened => exact complete.sameRecords (addressed.sameRecords_alloc _)
  | returned idle entering =>
    rw [idle] at complete
    exact complete.sameRecords (entering.sameRecords addressed filed)
  | entered idle entering =>
    rw [idle] at complete
    obtain ⟨ixfModule, base, -, -, same, effects, ⟨image, stored⟩, rfl,
      rfl⟩ := entering.loading filed
    exact (complete.sameRecords same).entered
      (Manager.filed_of_effects addressed filed effects).1 stored _
  | turned busy turning =>
    rw [afterTurn_manager]
    rw [busy] at complete
    exact complete_turning complete addressed filed (loads _ (by rw [busy]; rfl)) turning

theorem Turns.success (turns : Turns handlers (ImportsLoad handlers) server reply server') :
    reply.rc = 0 := by
  induction turns with
  | @last server server' reply stack step loads =>
    obtain ⟨frame, callers, turn, manager, busy, turning, after⟩ := step.turned
    obtain ⟨answer, rfl, rfl, -⟩ := afterTurn_reply (congrArg Prod.snd after).symm
    rw [unwind_rc]
    exact ((loads frame (by rw [busy]; rfl)).returned turning).1
  | next _ _ _ ih => exact ih

theorem LoadCall.sameRecords {cbName : UInt32} {hmod : Nat} (addressed : server.manager.Addressed)
    (filed : server.manager.Filed)
    (call : LoadCall handlers (ImportsLoad handlers) files cbName hmod server
      reply server') (error : reply.rc ≠ 0) :
    Manager.SameRecords server.manager server'.manager := by
  cases call with
  | returned step =>
    cases step.stepping with
    | returned idle entering => exact entering.sameRecords addressed filed
  | turns _ _ turns => exact absurd turns.success error

theorem ModLoadCall.sameRecords {cbName : UInt32}
    {pszModname : Name} (addressed : server.manager.Addressed)
    (filed : server.manager.Filed)
    (call : ModLoadCall handlers (ImportsLoad handlers) files cbName pszModname
      server reply server') (error : reply.rc ≠ 0) :
    Manager.SameRecords server.manager server'.manager := by
  cases call with
  | notOpened step =>
    cases step.stepping with
    | opened idle opening => exact opening.sameRecords addressed
  | opened step success call =>
    have kept := Manager.filed_of_effects addressed filed step.effects
    refine Manager.SameRecords.trans ?_ (call.sameRecords kept.1 kept.2 error)
    cases step.stepping with
    | opened idle opening => exact opening.sameRecords addressed

/-- In every run in which imports can be loaded and fixed up, there is no record
that is being loaded and none of a freed module when no call is served, and a
load that returns an error keeps the records. -/
theorem load_error_keeps_records (reachable : server.ReachableIf handlers (ImportsLoad handlers)) :
    (server.frames = [] → ∀ record, server.manager.HasRecord record →
      record.loadStatus = .doneLoading ∧ ∃ ixfModule,
          server.manager.heap record.moduleStruct = some ixfModule) ∧
    (∀ files cbName hmod reply server',
      LoadCall handlers (ImportsLoad handlers) files cbName hmod server reply server' →
        reply.rc ≠ 0 → Manager.SameRecords server.manager server'.manager) ∧
    ∀ files cbName pszModname reply server',
      ModLoadCall handlers (ImportsLoad handlers) files cbName pszModname server reply server' →
        reply.rc ≠ 0 →
          Manager.SameRecords server.manager server'.manager := by
  refine ⟨?_, ?_, ?_⟩
  · intro idle record here
    refine ⟨?_, reachable.complete.live here⟩
    cases status : record.loadStatus with
    | doneLoading => rfl
    | loading =>
      obtain ⟨frame, member, -⟩ := reachable.complete.loading here status
      rw [idle] at member
      cases member
  · intro files cbName hmod reply server' call error
    exact call.sameRecords reachable.addressed reachable.filed error
  · intro files cbName pszModname reply server' call error
    exact call.sameRecords reachable.addressed reachable.filed error

/-- At the start `KAL` has been loaded, and loading a missing library keeps it as
it is. -/
theorem load_error_keeps_records_kal : (∃ ixfModule, kalServer.manager.heap 1 = some ixfModule) ∧
      Manager.SameRecords kalServer.manager kalServer.manager := by
  have holds := load_error_keeps_records (kalServer_reachable importHandlers)
  refine ⟨?_, ?_⟩
  · exact (holds.1 rfl _ ⟨_, List.mem_singleton_self _, List.mem_cons_self ..⟩).2
  · exact holds.2.2 missingImport 260 [0x59]
      { rc := 2, phmod := 0, pszName := [0x59] }
      { kalServer with files := missingImport }
      (.notOpened (step_of_next rfl) (by decide)) (by decide)

/-- The load of a module whose import is missing returns an error and leaves a
record behind. -/
theorem exists_loadCall_error_not_sameRecords :
    ∃ server reply server', server.Reachable importHandlers ∧
      LoadCall importHandlers (fun _ _ => True) missingImport 260 3 server reply server' ∧
      reply.rc ≠ 0 ∧
      ¬ Manager.SameRecords server.manager server'.manager := by
  have opened : ∃ server replies, kalServer.serve importHandlers
          [.accept missingImport (.openModule 260 [0x58] false)] =
        some (server, replies) ∧
      ∃ between, server.next importHandlers (.accept missingImport (.loadModule 260 3)) =
        some (between, none) ∧
      ∃ server' reply, between.next importHandlers (.turn 0) =
        some (server', some reply) ∧ reply.rc = 2 ∧
      server.manager.names = [kal] ∧ server'.manager.names = [kal, [0x58]] :=
    ⟨_, _, rfl, _, rfl, _, _, rfl, rfl, rfl, rfl⟩
  obtain ⟨server, replies, served, between, entered, server', reply, turned,
    rc, before, after⟩ := opened
  refine ⟨server, reply, server', reachable_of_serve kalServer_initial served,
    .turns (step_of_next entered) trivial (.last (step_of_next turned) trivial), ?_, ?_⟩
  · rw [rc]
    decide
  · intro same
    have names : server'.manager.names = server.manager.names := by
      unfold Manager.names
      rw [same.chain]
    rw [before, after] at names
    exact absurd names (by decide)

end Server

end OsFree.Modmgr
