import Mathlib.Tactic.Simps.Basic
import OsFree.Machine.Keyed

/-!
# Processes that start others

`DosExecPgm` is served by a worker thread of its own, which starts the child and
waits for it on semaphores in the record of the caller.  The calls of `DosExit`
and of the notifications are served one after the other by the server loop.
Every access to a record that the threads share is a step of its own.
-/

namespace OsFree.Prcmgr

open Machine

/-- A thread of a task. -/
structure Thread where
  task : Nat
  lthread : Nat
  deriving DecidableEq

/-- The two threads belong to one task. -/
def taskEqual (one two : Thread) : Bool := one.task == two.task

def threadEqual (one two : Thread) : Bool := one == two

/-- The fields of `struct t_os2process` that executing programs and leaving them
read or write. -/
structure Process where
  pid : Nat
  pibUlppid : Nat
  task : Thread
  execSync : Bool
  startupSem : Nat
  termSem : Nat
  termCode : UInt32
  deriving DecidableEq

/-- The record of a new process.  What `malloc` returns keeps its old contents
in the task, the startup semaphore and the termination code. -/
def prcCreate (c : Process) (pid ppid : Nat) : Process :=
  { c with pid, pibUlppid := ppid, execSync := false, termSem := 0 }

/-- `struct _RESULTCODES`. -/
structure ResultCodes where
  codeTerminate : UInt32
  codeResult : UInt32
  deriving DecidableEq

def EXEC_SYNC : Nat := 0
def EXEC_ASYNC : Nat := 1
def EXEC_ASYNCRESULT : Nat := 2
def EXEC_TRACE : Nat := 3
def EXEC_BACKGROUND : Nat := 4
def EXEC_ASYNCRESULTDB : Nat := 6

/-- What a worker does next.  The first four are the parts of
`PrcExecuteModule`. -/
inductive Stage where
  | findPath
  | prcCreate
  | loaderExec
  | getLoadError
  /-- `SemaphoreDown(&proc->startup_sem)` -/
  | startupDown
  /-- `proc->exec_sync = 1` -/
  | setSync
  /-- `SemaphoreDown(&proc->term_sem)` -/
  | termDown
  /-- `proc->exec_sync = 0` -/
  | clearSync
  /-- `parm->pRes->codeResult = proc->term_code` -/
  | readCode
  | done
  deriving DecidableEq

/-- A worker thread of `CPExecPgmWorker`.  Its `proc` is the record of the
caller, which the pid stands for, and `child` is the process that
`PrcExecuteModule` has created for it.  It also counts how often its wait for
the termination has come back. -/
structure Worker where
  proc : Nat
  execFlag : Nat
  pRes : ResultCodes
  rc : UInt32
  child : Option Nat
  stage : Stage
  wakes : Nat
  deriving DecidableEq

namespace Worker

variable (worker : Worker)

/-- What follows the start of the child. -/
def syncStage : Stage :=
  if worker.execFlag = EXEC_SYNC then .setSync else .clearSync

/-- The worker when `PrcExecuteModule` has returned. -/
def executed (rc : UInt32) : Worker :=
  { worker with rc, stage := if rc = 0 then .startupDown else worker.syncStage }

/-- The termination code for a started child. -/
def codeTerminate (pid : Nat) : UInt32 :=
  if worker.execFlag ∈ [EXEC_ASYNC, EXEC_ASYNCRESULT, EXEC_ASYNCRESULTDB,
    EXEC_TRACE, EXEC_BACKGROUND] then UInt32.ofNat pid else 0

end Worker

/-- What a program has told the server.  It is loaded by the task that the
loader starts; the server may end that task. -/
inductive Phase where
  | loaded
  | notified
  | exited (result : UInt32)
  | terminated
  deriving DecidableEq

/-- The program of a process, in its task. -/
structure Program where
  pid : Nat
  task : Nat
  phase : Phase
  deriving DecidableEq

namespace Program

/-- The program may still send messages to the server. -/
def Running (program : Program) : Prop := program.phase = .loaded ∨ program.phase = .notified

instance (program : Program) : Decidable program.Running := inferInstanceAs (Decidable (_ ∨ _))

/-- The program when the server has ended its task. -/
def terminate (program : Program) : Program :=
  if program.Running then { program with phase := .terminated } else program

end Program

/-- What `CPExit` does next. -/
inductive ExitStage where
  /-- `parentproc->term_code = result` -/
  | storeCode
  /-- The test of `exec_sync`, and `SemaphoreUp(&parentproc->term_sem)`. -/
  | signal
  /-- `PrcDestroy(proc)` -/
  | destroy
  deriving DecidableEq

/-- A call of `CPExit` whose caller has a parent. -/
structure Exit where
  proc : Nat
  ppid : Nat
  result : UInt32
  stage : ExitStage
  deriving DecidableEq

/-- The list of the processes, the pid for the next one, the worker threads, the
programs, and the call of `CPExit` that the server loop is in. -/
structure State where
  procRoot : List Process
  nextPid : Nat
  workers : List Worker
  programs : List Program
  exiting : Option Exit
  sysinitId : Thread
  deriving DecidableEq

namespace State

/-- The process of `sysinit` is the first one. -/
def start (sysinitId : Thread) (c : Process) : State :=
  { procRoot := [{ prcCreate c 0 0 with task := sysinitId }], nextPid := 1
    workers := [], programs := [], exiting := none, sysinitId }

variable (state : State)

def prcGetProc (pid : Nat) : Option Process := Keyed.lookup Process.pid state.procRoot pid

def prcGetProcNative (thread : Thread) : Option Process :=
  state.procRoot.find? fun proc => taskEqual proc.task thread

/-- The program of a process. -/
def program (pid : Nat) : Option Program := Keyed.lookup Program.pid state.programs pid

/-- Write to the record of a process. -/
@[simps] def store (pid : Nat) (f : Process → Process) : State :=
  { state with procRoot := Keyed.change Process.pid state.procRoot pid f }

/-- A worker has taken a step. -/
@[simps] def setWorker (index : Nat) (worker : Worker) : State :=
  { state with workers := state.workers.set index worker }

/-- A program has changed. -/
@[simps] def setProgram (pid : Nat) (f : Program → Program) : State :=
  { state with programs := Keyed.change Program.pid state.programs pid f }

/-- The state with the record of a new process at the end of the list. -/
@[simps] def addProcess (c : Process) (ppid : Nat) : State :=
  { state with
    procRoot := state.procRoot ++ [prcCreate c state.nextPid ppid]
    nextPid := state.nextPid + 1 }

/-- The state with a new program. -/
@[simps] def addProgram (program : Program) : State :=
  { state with programs := state.programs ++ [program] }

/-- A step of a worker that is at the stage. -/
def atStage (index : Nat) (stage : Stage) (next : Worker → Option State) :
    Option State := do
  let worker ← state.workers[index]?
  if worker.stage = stage then next worker else none

/-- A step of a worker that reads and writes the record of its caller. -/
def onCaller (index : Nat) (stage : Stage)
    (next : Worker → Process → Option ((Process → Process) × Worker)) :
    Option State :=
  state.atStage index stage fun worker => do
    let proc ← state.prcGetProc worker.proc
    let (f, after) ← next worker proc
    pure ((state.store worker.proc f).setWorker index after)

/-- The module is searched, or its path is absolute and the code is 0. -/
def findPath (index : Nat) (rc : UInt32) : Option State :=
  state.atStage index .findPath fun worker =>
    some (state.setWorker index
      (if rc = 0 then { worker with stage := .prcCreate }
        else worker.executed rc))

/-- `PrcCreate` makes a record of a new block of memory. -/
def execCreate (index : Nat) (c : Process) : Option State :=
  state.atStage index .prcCreate fun worker =>
    some ((state.addProcess c worker.proc).setWorker index
      { worker with child := some state.nextPid, stage := .loaderExec })

/-- `LoaderExecOS2` stores the task also when the loader fails. -/
def loaderExec (index : Nat) (taskid : Thread) (rc : UInt32) : Option State :=
  state.atStage index .loaderExec fun worker => do
    let pid ← worker.child
    let listed := state.store pid fun proc => { proc with task := taskid }
    if rc = 0 then
      pure ((listed.addProgram
          { pid, task := taskid.task, phase := .loaded }).setWorker index
        { worker with
          pRes := { worker.pRes with codeTerminate := worker.codeTerminate pid }
          stage := .getLoadError })
    else pure (listed.setWorker index (worker.executed rc))

/-- The code of loading comes from the program, which is ended on an error. -/
def getLoadError (index : Nat) (rc : UInt32) : Option State :=
  state.atStage index .getLoadError fun worker => do
    let pid ← worker.child
    let loaded :=
      if rc = 0 then state else state.setProgram pid Program.terminate
    pure (loaded.setWorker index (worker.executed rc))

def startupDown (index : Nat) : Option State := state.onCaller index .startupDown fun worker proc =>
    if proc.startupSem = 0 then none
    else some (fun proc => { proc with startupSem := proc.startupSem - 1 },
      { worker with stage := worker.syncStage })

def setSync (index : Nat) : Option State := state.onCaller index .setSync fun worker _ =>
    some (fun proc => { proc with execSync := true },
      { worker with stage := if worker.rc = 0 then .termDown else .clearSync })

def termDown (index : Nat) : Option State := state.onCaller index .termDown fun worker proc =>
    if proc.termSem = 0 then none
    else some (fun proc => { proc with termSem := proc.termSem - 1 },
      { worker with stage := .clearSync, wakes := worker.wakes + 1 })

def clearSync (index : Nat) : Option State := state.onCaller index .clearSync fun worker _ =>
    some (fun proc => { proc with execSync := false },
      { worker with stage := .readCode })

/-- The worker takes the code, replies to the caller and ends. -/
def readCode (index : Nat) : Option State := state.onCaller index .readCode fun worker proc =>
    some (id, { worker with
      pRes := { worker.pRes with codeResult := proc.termCode }, stage := .done })

/-- A call of a program in a phase, which comes from a thread of its task. -/
def call (pid lthread : Nat) (phase : Phase) (next : Process → Option State) : Option State := do
  let program ← state.program pid
  if program.phase = phase ∧ state.exiting = none then
    let proc ← state.prcGetProcNative { task := program.task, lthread }
    next proc
  else none

/-- `CPExecPgm` starts a worker thread for the caller. -/
def execPgm (pid lthread execFlag : Nat) (pRes : ResultCodes) : Option State :=
  state.call pid lthread .notified fun proc =>
    some { state with
      workers := state.workers ++
        [{ proc := proc.pid, execFlag, pRes, rc := 0, child := none
           stage := .findPath, wakes := 0 }] }

/-- `CPAppNotify1` signals that the program of the caller has started. -/
def appNotify1 (pid lthread : Nat) : Option State := state.call pid lthread .loaded fun proc => do
    let parentproc ← state.prcGetProc proc.pibUlppid
    pure ((state.store parentproc.pid fun proc =>
        { proc with startupSem := proc.startupSem + 1 }).setProgram pid
      fun program => { program with phase := .notified })

/-- `CPAppNotify2` makes a process for a program that no worker has started. -/
def appNotify2 (thread : Thread) (c : Process) : Option State :=
  if state.exiting = none then
    match state.prcGetProcNative thread with
    | some _ => some state
    | none =>
      some ((state.addProcess { c with task := thread } 0).addProgram
        { pid := state.nextPid, task := thread.task, phase := .notified })
  else none

/-- `sysinit` starts the shell or a server, whose parent it is itself. -/
def sysinitExec (thread : Thread) (c : Process) : Option State :=
  some ((state.addProcess { c with task := thread } 0).addProgram
    { pid := state.nextPid, task := thread.task, phase := .loaded })

/-- `CPExit` is called.  Without a parent the caller keeps its record. -/
def exit (pid lthread : Nat) (result : UInt32) : Option State :=
  state.call pid lthread .notified fun proc =>
    let left := state.setProgram pid fun program =>
      { program with phase := .exited result }
    match state.prcGetProc proc.pibUlppid with
    | none => some left
    | some _ =>
      some { left with
        exiting := some { proc := proc.pid, ppid := proc.pibUlppid, result
                          stage := .storeCode } }

/-- A step of `CPExit`, which reads or writes the record of the parent. -/
def inExit (stage : ExitStage) (next : Exit → Process → (Process → Process) × ExitStage) :
    Option State := do
  let frame ← state.exiting
  if frame.stage = stage then
    let parentproc ← state.prcGetProc frame.ppid
    let (f, after) := next frame parentproc
    pure { state.store frame.ppid f with
      exiting := some { frame with stage := after } }
  else none

def storeCode : Option State := state.inExit .storeCode fun frame _ =>
    (fun proc => { proc with termCode := frame.result }, .signal)

/-- The waiting thread of the parent is to be woken. -/
def unblocks (frame : Exit) (parentproc : Process) : Bool := parentproc.execSync &&
    (frame.ppid != 0 || threadEqual parentproc.task state.sysinitId)

def signal : Option State := state.inExit .signal fun frame parentproc =>
    (fun proc => if state.unblocks frame parentproc then
      { proc with termSem := proc.termSem + 1 } else proc, .destroy)

/-- `PrcDestroy` takes the record of the caller off the list. -/
def destroy : Option State := do
  let frame ← state.exiting
  if frame.stage = .destroy then
    pure { state with
      procRoot := Keyed.remove Process.pid state.procRoot frame.proc
      exiting := none }
  else none

end State

/-- The steps of the worker threads, of the programs and of the server. -/
inductive Action where
  | findPath (index : Nat) (rc : UInt32)
  | execCreate (index : Nat) (c : Process)
  | loaderExec (index : Nat) (taskid : Thread) (rc : UInt32)
  | getLoadError (index : Nat) (rc : UInt32)
  | startupDown (index : Nat)
  | setSync (index : Nat)
  | termDown (index : Nat)
  | clearSync (index : Nat)
  | readCode (index : Nat)
  | execPgm (pid lthread execFlag : Nat) (pRes : ResultCodes)
  | appNotify1 (pid lthread : Nat)
  | appNotify2 (thread : Thread) (c : Process)
  | sysinitExec (thread : Thread) (c : Process)
  | exit (pid lthread : Nat) (result : UInt32)
  | storeCode
  | signal
  | destroy
  deriving DecidableEq

namespace State

/-- The state after a step, if the step can be taken. -/
def step (state : State) : Action → Option State
  | .findPath index rc => state.findPath index rc
  | .execCreate index c => state.execCreate index c
  | .loaderExec index taskid rc => state.loaderExec index taskid rc
  | .getLoadError index rc => state.getLoadError index rc
  | .startupDown index => state.startupDown index
  | .setSync index => state.setSync index
  | .termDown index => state.termDown index
  | .clearSync index => state.clearSync index
  | .readCode index => state.readCode index
  | .execPgm pid lthread execFlag pRes => state.execPgm pid lthread execFlag pRes
  | .appNotify1 pid lthread => state.appNotify1 pid lthread
  | .appNotify2 thread c => state.appNotify2 thread c
  | .sysinitExec thread c => state.sysinitExec thread c
  | .exit pid lthread result => state.exit pid lthread result
  | .storeCode => state.storeCode
  | .signal => state.signal
  | .destroy => state.destroy

/-- The state after some steps in this order. -/
def steps : State → List Action → Option State
  | state, [] => some state
  | state, action :: actions => do
      let after ← state.step action
      after.steps actions

end State

end OsFree.Prcmgr
