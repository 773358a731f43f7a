import OsFree.Machine.Transition
import OsFree.Prcmgr.ExecPgm

/-!
# Waiting for a child

A caller that asks for synchronous execution is to be woken once, when its own
child has left, and to be given the code of that child.  The semaphore and the
code are in the record of the caller, which all its children and all its worker
threads share.
-/

namespace OsFree.Prcmgr

open Machine

/-- How far a program has come in leaving.  It has entered `CPExit`, its code is
stored in the record of the parent, or the test for a waiting parent is done. -/
inductive Status where
  | running
  | entered (result : UInt32)
  | stored (result : UInt32)
  | signalled (result : UInt32)
  deriving DecidableEq

namespace Status

/-- The program has left, and its parent has been told. -/
def Signalled : Status → Prop
  | signalled _ => True
  | _ => False

instance : DecidablePred Signalled
  | running => isFalse id
  | entered _ => isFalse id
  | stored _ => isFalse id
  | signalled _ => isTrue trivial

/-- The result is already in the record of the parent. -/
def Stores (result : UInt32) : Status → Prop
  | stored other => other = result
  | signalled other => other = result
  | _ => False

theorem signalled_iff {status : Status} :
    status.Signalled ↔ ∃ result, status = signalled result := by
  cases status <;> simp [Signalled]

end Status

/-- How far a program has come that the server is in `CPExit` for. -/
def ExitStage.status (result : UInt32) : ExitStage → Status
  | storeCode => .entered result
  | signal => .stored result
  | destroy => .signalled result

/-- The result with which a program has left. -/
def Program.result (program : Program) : Option UInt32 :=
  match program.phase with
  | .exited result => some result
  | _ => none

theorem Program.Running.result_eq_none {program : Program}
    (runs : program.Running) : program.result = none := by
  rcases runs with loaded | notified
  · rw [Program.result, loaded]
  · rw [Program.result, notified]

namespace State

variable (state : State)

/-- The result with which the program of a process has left. -/
def result (pid : Nat) : Option UInt32 := (state.program pid).bind Program.result

/-- How far the program of a process has come. -/
def status (pid : Nat) : Status :=
  match state.result pid, state.exiting with
  | none, _ => .running
  | some result, none => .signalled result
  | some result, some frame =>
    if frame.proc = pid then frame.stage.status result else .signalled result

/-- How far the child of a worker has come. -/
def childStatus (worker : Worker) : Status :=
  match worker.child with
  | none => .running
  | some pid => state.status pid

end State

namespace Worker

variable (worker : Worker)

/-- The worker waits for its child: it was started with success, and
synchronously. -/
def Sync : Prop := worker.execFlag = EXEC_SYNC ∧ worker.rc = 0

/-- The worker is about to wait for its child, or to take the result. -/
def Inside : Prop := worker.Sync ∧ worker.stage ∈ [.termDown, .clearSync, .readCode]

instance : Decidable worker.Sync := inferInstanceAs (Decidable (_ ∧ _))

instance : Decidable worker.Inside := inferInstanceAs (Decidable (_ ∧ _))

end Worker

namespace State

variable (state : State)

/-- A waiting worker is woken at most once, when its own child has left.  When
the child has left, the wait may come back.  At the end the worker has been
woken, and returns the code of its own child. -/
structure Serves (worker : Worker) : Prop where
  once : worker.wakes ≤ 1
  after : worker.wakes ≠ 0 → (state.childStatus worker).Signalled
  ready : worker.stage = .termDown → (state.childStatus worker).Signalled →
    ∃ proc, state.prcGetProc worker.proc = some proc ∧ proc.termSem ≠ 0
  returns : worker.stage = .done → worker.wakes = 1 ∧
    state.childStatus worker = .signalled worker.pRes.codeResult

/-- Every worker that waits is served as it should be. -/
def ServesWaiters : Prop := ∀ worker ∈ state.workers, worker.Sync → state.Serves worker

/-- A step of any thread. -/
def Step (state state' : State) : Prop := ∃ action, state.step action = some state'

/-- A worker may set `exec_sync` when its child has not left, and no other
worker waits on the same record. -/
def MaySetSync (worker : Worker) : Prop := ¬ (state.childStatus worker).Signalled ∧
    ∀ other ∈ state.workers, other.proc = worker.proc → ¬ other.Inside

/-- A worker may clear `exec_sync` when no other worker waits on the same record
for a child that has not left. -/
def MayClearSync (worker : Worker) : Prop := ∀ other ∈ state.workers, other.proc = worker.proc →
    other.stage = .termDown → (state.childStatus other).Signalled

/-- The code of a child may be stored when no worker has still to take another
one from the same record. -/
def MayStoreCode (frame : Exit) : Prop :=
  ∀ other ∈ state.workers, other.proc = frame.ppid → other.Inside →
    (state.childStatus other).Signalled → state.childStatus other = .signalled frame.result

/-- A thread of the parent may be unblocked for a child that a worker waits
for. -/
def MaySignal (frame : Exit) : Prop := ∀ parentproc ∈ state.prcGetProc frame.ppid,
    state.unblocks frame parentproc → ∃ worker ∈ state.workers,
      worker.child = some frame.proc ∧ worker.stage = .termDown

/-- A process may leave when its own workers have ended. -/
def MayDestroy (frame : Exit) : Prop :=
  ∀ worker ∈ state.workers, worker.proc = frame.proc → worker.stage = .done

/-- No running program has the task. -/
def Unused (task : Nat) : Prop := ∀ program ∈ state.programs, program.Running → program.task ≠ task

/-- The task may be that of the process, which is the only one on the list that
has it. -/
def MayLoad (pid : Option Nat) (task : Nat) : Prop := state.Unused task ∧
    ∀ proc ∈ state.procRoot, proc.task.task = task → pid = some proc.pid

instance (worker : Worker) : Decidable (state.MaySetSync worker) :=
  inferInstanceAs (Decidable (_ ∧ _))

instance (worker : Worker) : Decidable (state.MayClearSync worker) :=
  inferInstanceAs (Decidable (∀ other ∈ state.workers, _))

instance (frame : Exit) : Decidable (state.MayStoreCode frame) :=
  inferInstanceAs (Decidable (∀ other ∈ state.workers, _))

instance (frame : Exit) : Decidable (state.MaySignal frame) :=
  inferInstanceAs (Decidable (∀ parentproc ∈ state.prcGetProc frame.ppid, _))

instance (frame : Exit) : Decidable (state.MayDestroy frame) :=
  inferInstanceAs (Decidable (∀ worker ∈ state.workers, _))

instance (task : Nat) : Decidable (state.Unused task) :=
  inferInstanceAs (Decidable (∀ program ∈ state.programs, _))

instance (pid : Option Nat) (task : Nat) : Decidable (state.MayLoad pid task) :=
  inferInstanceAs (Decidable (_ ∧ _))

/-- The step disturbs no waiting worker. -/
def Allowed : Action → Prop
  | .setSync index =>
    ∀ worker ∈ state.workers[index]?, worker.rc = 0 → state.MaySetSync worker
  | .clearSync index =>
    ∀ worker ∈ state.workers[index]?, state.MayClearSync worker
  | .storeCode => ∀ frame ∈ state.exiting, state.MayStoreCode frame
  | .signal => ∀ frame ∈ state.exiting, state.MaySignal frame
  | .destroy => ∀ frame ∈ state.exiting, state.MayDestroy frame
  | .execCreate _ c => state.Unused c.task.task
  | .loaderExec index taskid rc =>
    ∀ worker ∈ state.workers[index]?,
      if rc = 0 then state.MayLoad worker.child taskid.task
      else state.Unused taskid.task
  | .appNotify2 thread _ =>
    state.prcGetProcNative thread = none → state.MayLoad none thread.task
  | .sysinitExec thread _ => state.MayLoad none thread.task
  | _ => True

instance : DecidablePred state.Allowed
  | .setSync _ => inferInstanceAs (Decidable (∀ worker ∈ _, _))
  | .clearSync _ => inferInstanceAs (Decidable (∀ worker ∈ _, _))
  | .storeCode => inferInstanceAs (Decidable (∀ frame ∈ _, _))
  | .signal => inferInstanceAs (Decidable (∀ frame ∈ _, _))
  | .destroy => inferInstanceAs (Decidable (∀ frame ∈ _, _))
  | .execCreate _ c => inferInstanceAs (Decidable (state.Unused c.task.task))
  | .loaderExec _ _ _ => inferInstanceAs (Decidable (∀ worker ∈ _, _))
  | .appNotify2 _ _ => inferInstanceAs (Decidable (_ → _))
  | .sysinitExec thread _ =>
    inferInstanceAs (Decidable (state.MayLoad none thread.task))
  | .findPath _ _ => isTrue trivial
  | .getLoadError _ _ => isTrue trivial
  | .startupDown _ => isTrue trivial
  | .termDown _ => isTrue trivial
  | .readCode _ => isTrue trivial
  | .execPgm _ _ _ _ => isTrue trivial
  | .appNotify1 _ _ => isTrue trivial
  | .exit _ _ _ => isTrue trivial

/-- A step that is allowed. -/
def AllowedStep (state state' : State) : Prop :=
  ∃ action, state.Allowed action ∧ state.step action = some state'

end State

/-!
## What the steps change

A step of a worker, a call of a program and a step of `CPExit` are inverted
once, and every change of the state says which records, results and statuses it
leaves.
-/

namespace State

variable {state state' : State} {index pid p lthread task : Nat} {stage : Stage}
  {worker after : Worker} {proc : Process} {f : Process → Process}

theorem atStage_eq_some_iff {next : Worker → Option State} :
    state.atStage index stage next = some state' ↔
      ∃ worker, state.workers[index]? = some worker ∧ worker.stage = stage ∧
        next worker = some state' := by
  simp [atStage, Option.bind_eq_some_iff]

theorem onCaller_eq_some_iff {next : Worker → Process → Option ((Process → Process) × Worker)} :
    state.onCaller index stage next = some state' ↔
      ∃ worker proc f after, state.workers[index]? = some worker ∧
        worker.stage = stage ∧ state.prcGetProc worker.proc = some proc ∧
        next worker proc = some (f, after) ∧
        (state.store worker.proc f).setWorker index after = state' := by
  simp only [onCaller, atStage_eq_some_iff]
  constructor
  · rintro ⟨worker, found, here, done⟩
    simp only [bind, Option.bind_eq_some_iff] at done
    obtain ⟨proc, record, ⟨f, after⟩, moved, same⟩ := done
    exact ⟨worker, proc, f, after, found, here, record, moved, Option.some.inj same⟩
  · rintro ⟨worker, proc, f, after, found, here, record, moved, rfl⟩
    refine ⟨worker, found, here, ?_⟩
    simp [record, moved]

theorem call_eq_some_iff {phase : Phase} {next : Process → Option State} :
    state.call pid lthread phase next = some state' ↔
      ∃ program proc, state.program pid = some program ∧
        program.phase = phase ∧ state.exiting = none ∧
        state.prcGetProcNative { task := program.task, lthread } = some proc ∧
        next proc = some state' := by
  simp only [call, bind, Option.bind_eq_some_iff, Option.ite_none_right_eq_some]
  constructor
  · rintro ⟨program, found, ⟨same, idle⟩, proc, record, done⟩
    exact ⟨program, proc, found, same, idle, record, done⟩
  · rintro ⟨program, proc, found, same, idle, record, done⟩
    exact ⟨program, found, ⟨same, idle⟩, proc, record, done⟩

theorem inExit_eq_some_iff {exitStage : ExitStage}
    {next : Exit → Process → (Process → Process) × ExitStage} :
    state.inExit exitStage next = some state' ↔
      ∃ frame parentproc, state.exiting = some frame ∧ frame.stage = exitStage ∧
        state.prcGetProc frame.ppid = some parentproc ∧
        { state.store frame.ppid (next frame parentproc).1 with
          exiting := some
            { frame with stage := (next frame parentproc).2 } } = state' := by
  simp only [inExit, bind, Option.bind_eq_some_iff, Option.ite_none_right_eq_some]
  constructor
  · rintro ⟨frame, entered, here, parentproc, record, same⟩
    exact ⟨frame, parentproc, entered, here, record, Option.some.inj same⟩
  · rintro ⟨frame, parentproc, entered, here, record, rfl⟩
    exact ⟨frame, entered, here, parentproc, record, rfl⟩

theorem mem_of_prcGetProc (found : state.prcGetProc pid = some proc) :
    proc ∈ state.procRoot :=
  Keyed.mem_of_lookup found

theorem prcGetProc_of_mem (member : proc ∈ state.procRoot) :
    ∃ first, state.prcGetProc proc.pid = some first :=
  Keyed.exists_lookup_of_mem member

theorem mem_of_prcGetProcNative {thread : Thread}
    (found : state.prcGetProcNative thread = some proc) :
    proc ∈ state.procRoot :=
  List.mem_of_find?_eq_some found

theorem task_of_prcGetProcNative {thread : Thread}
    (found : state.prcGetProcNative thread = some proc) :
    proc.task.task = thread.task := by
  simpa [taskEqual] using List.find?_some found

theorem prcGetProc_store (keeps : ∀ proc, (f proc).pid = proc.pid) :
    (state.store pid f).prcGetProc p =
      (state.prcGetProc p).map fun proc => if p = pid then f proc else proc :=
  Keyed.lookup_change keeps

theorem prcGetProc_addProcess (c : Process) (ppid : Nat) :
    (state.addProcess c ppid).prcGetProc p = (state.prcGetProc p).or
        (if state.nextPid = p then some (prcCreate c state.nextPid ppid)
          else none) :=
  Keyed.lookup_concat

theorem result_setProgram {g : Program → Program}
    (keeps : ∀ program, (g program).pid = program.pid) (other : p ≠ pid) :
    (state.setProgram pid g).result p = state.result p := by
  simp only [result, program, setProgram, Keyed.lookup_change_of_ne keeps other]

theorem program_setProgram {g : Program → Program}
    (keeps : ∀ program, (g program).pid = program.pid) :
    (state.setProgram pid g).program pid = (state.program pid).map g :=
  Keyed.lookup_change_self keeps

theorem result_setProgram_self {g : Program → Program}
    (keeps : ∀ program, (g program).pid = program.pid) :
    (state.setProgram pid g).result pid =
      (state.program pid).bind fun program => (g program).result := by
  rw [result, program_setProgram keeps, Option.bind_map]
  rfl

theorem result_setProgram_of_running {g : Program → Program}
    {program : Program} (keeps : ∀ program, (g program).pid = program.pid)
    (found : state.program pid = some program) (runs : program.Running)
    (still : (g program).Running) :
    (state.setProgram pid g).result p = state.result p := by
  by_cases here : p = pid
  · rw [here, result_setProgram_self keeps, result, found]
    exact still.result_eq_none.trans runs.result_eq_none.symm
  · exact result_setProgram keeps here

theorem result_addProgram {program : Program} (runs : program.Running) :
    (state.addProgram program).result p = state.result p := by
  simp only [result, State.program, addProgram, Keyed.lookup_concat]
  cases Keyed.lookup Program.pid state.programs p with
  | some first => rfl
  | none =>
    split
    · exact runs.result_eq_none
    · rfl

theorem status_of_frame {frame : Exit} (entered : state.exiting = some frame)
    {result : UInt32} (left : state.result frame.proc = some result) :
    state.status frame.proc = frame.stage.status result := by
  simp only [status, left, entered, if_true]

theorem status_of_ne (other : ∀ frame, state.exiting = some frame → frame.proc ≠ pid) :
    state.status pid = (state.result pid).elim .running .signalled := by
  unfold status
  cases state.result pid with
  | none => rfl
  | some result =>
    cases entered : state.exiting with
    | none => rfl
    | some frame =>
      show (if _ then _ else _) = _
      rw [if_neg (other frame entered)]
      rfl

theorem status_of_result_eq_none (none : state.result pid = none) :
    state.status pid = .running := by
  simp only [status, none]

theorem status_congr (result : state'.result pid = state.result pid)
    (exiting : state'.exiting = state.exiting) :
    state'.status pid = state.status pid := by
  simp only [status, result, exiting]

theorem status_congr_of_ne (result : state'.result pid = state.result pid)
    (before : ∀ frame, state.exiting = some frame → frame.proc ≠ pid)
    (now : ∀ frame, state'.exiting = some frame → frame.proc ≠ pid) :
    state'.status pid = state.status pid := by
  rw [status_of_ne before, status_of_ne now, result]

theorem childStatus_congr (statuses : ∀ pid, state'.status pid = state.status pid)
    (worker : Worker) : state'.childStatus worker = state.childStatus worker := by
  simp only [childStatus, statuses]

theorem childStatus_of_child (child : worker.child = some pid) :
    state.childStatus worker = state.status pid := by
  simp only [childStatus, child]

theorem frame_of_stores {result : UInt32} (stores : (state.status pid).Stores result)
    (pending : ¬ (state.status pid).Signalled) :
    state.result pid = some result ∧ ∃ frame, state.exiting = some frame ∧
      frame.proc = pid ∧ frame.stage ≠ .storeCode := by
  cases left : state.result pid with
  | none =>
    rw [status_of_result_eq_none left] at stores
    exact stores.elim
  | some other =>
    by_cases serving : ∃ frame, state.exiting = some frame ∧ frame.proc = pid
    · obtain ⟨frame, entered, rfl⟩ := serving
      rw [status_of_frame entered left] at stores
      cases here : frame.stage with
      | storeCode =>
        rw [here] at stores
        exact stores.elim
      | signal =>
        rw [here] at stores
        exact ⟨congrArg some stores, frame, entered, rfl, by simp [here]⟩
      | destroy =>
        rw [here] at stores
        exact ⟨congrArg some stores, frame, entered, rfl, by simp [here]⟩
    · have signalled : state.status pid = .signalled other := by
        rw [status_of_ne fun frame entered here =>
          serving ⟨frame, entered, here⟩, left]
        rfl
      rw [signalled] at pending
      exact absurd trivial pending

end State

end OsFree.Prcmgr
