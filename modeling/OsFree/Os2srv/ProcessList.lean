import OsFree.Machine.DoublyLinked
import OsFree.Machine.Word
import OsFree.Prcmgr.ExecPgm

/-!
# The list of processes

The server keeps the records of the processes in a list that is linked both
ways.  A new record becomes the last one of the list.
-/

namespace OsFree.Os2srv

open Machine
open Prcmgr (Thread taskEqual threadEqual)

/-- The threads that a process may have. -/
def MAX_TID : Nat := 128

/-- The fields of a process information block that are stored, with the strings
that are laid out behind them. -/
structure Pib where
  ulpid : UInt32
  ulppid : UInt32
  hmte : UInt32
  prg : List UInt8
  arg : List (List UInt8)
  env : List (List UInt8)
  deriving DecidableEq

/-- A thread information block; a member that is not stored yet is `none`. -/
structure Tib where
  pstack : Option UInt32
  pstacklimit : Option UInt32
  ultid : Option UInt32
  deriving DecidableEq

/-- `struct t_os2process`.  In memory that is new, only the pointer to the
information block is known not to be stored. -/
structure OS2Process where
  hmte : UInt32
  pid : Int
  execSync : Bool
  startupSem : Nat
  termSem : Nat
  task : Thread
  termCode : UInt32
  ip : UInt32
  sp : UInt32
  lxPib : Pointer
  tibArray : Fin MAX_TID → Pointer
  tidArray : Fin MAX_TID → Thread
  curdisk : UInt8
  curdir : List UInt8
  next : Pointer
  prev : Pointer

/-- The record that memory full of zeros makes. -/
def OS2Process.blank : OS2Process where
  hmte := 0
  pid := 0
  execSync := false
  startupSem := 0
  termSem := 0
  task := ⟨0, 0⟩
  termCode := 0
  ip := 0
  sp := 0
  lxPib := none
  tibArray := fun _ => none
  tidArray := fun _ => ⟨0, 0⟩
  curdisk := 0
  curdir := []
  next := none
  prev := none

/-- The links of the list of processes. -/
def processLinks : Links OS2Process where
  next := OS2Process.next
  prev := OS2Process.prev
  setNext next proc := { proc with next }
  setPrev prev proc := { proc with prev }
  next_setNext _ _ := rfl
  prev_setNext _ _ := rfl
  next_setPrev _ _ := rfl
  prev_setPrev _ _ := rfl

/-- What the allocators have for a new process: a record with what happens to be
in it, and memory for its two information blocks. -/
structure Room where
  record : Option OS2Process
  pib : Bool
  tib : Bool

/-- The records of the processes, their information blocks, the head of the
list and the last process number. -/
structure ProcServer where
  procs : Heap OS2Process
  pibs : Heap Pib
  tibs : Heap Tib
  procRoot : Pointer
  pid : Int
  sysinitId : Thread

namespace ProcServer

/-- The server before there is a process. -/
def initial (sysinitId : Thread) : ProcServer where
  procs := Heap.empty
  pibs := Heap.empty
  tibs := Heap.empty
  procRoot := none
  pid := -1
  sysinitId := sysinitId

variable (server : ProcServer)

/-- The first process with a process number. -/
def prcGetProc (pid : UInt32) (fuel : Nat) : Option (Run Pointer) :=
  server.procs.find (fun proc => .ok (UInt32.ofInt proc.pid = pid))
    OS2Process.next fuel server.procRoot

/-- The first process whose task a thread is in. -/
def prcGetProcNative (thread : Thread) (fuel : Nat) : Option (Run Pointer) :=
  server.procs.find (fun proc => .ok (taskEqual proc.task thread))
    OS2Process.next fuel server.procRoot

/-- The current disk and directory of a new process. -/
def inheritDir (parentproc : Option OS2Process) (ppid : UInt32) (pid : Int)
    (c : OS2Process) : OS2Process :=
  match parentproc with
  | some parent =>
    if ppid ≠ 0 ∧ pid ≠ 0 then
      { c with curdisk := parent.curdisk, curdir := parent.curdir }
    else { c with curdisk := 3, curdir := [] }
  | none => { c with curdisk := 3, curdir := [] }

/-- The environment of a new process: without strings of its own it has that of
the parent. -/
def environment (parentproc : Option OS2Process)
    (pEnv : Option (List (List UInt8))) : Run (List (List UInt8)) :=
  match pEnv with
  | some (string :: strings) => .ok (string :: strings)
  | _ =>
    match parentproc with
    | none => .error .nullPointer
    | some parent => do
        let lxPib ← stored parent.lxPib
        Pib.env <$> server.pibs.read lxPib

/-- The record at an address, if there is an address. -/
def readProc : Pointer → Run (Option OS2Process)
  | none => .ok none
  | some address => some <$> server.procs.read address

/-- The members that are stored when the record is in the list. -/
def fillProcess (c : Nat) (room : Room) (pid : Int) (ppid : UInt32)
    (parentproc : Pointer) (pPrg : List UInt8)
    (pArg pEnv : Option (List (List UInt8))) : Run ProcServer := do
  let parent ← server.readProc parentproc
  let env ← server.environment parent pEnv
  if room.pib ∧ room.tib then
    let procs ← server.procs.modify c fun proc =>
      { inheritDir parent ppid pid proc with
        lxPib := some server.pibs.fresh
        tibArray := fun index =>
          if index.val = 0 then some server.tibs.fresh else none
        pid, ip := 0, sp := 0, hmte := 0, execSync := false }
    pure { server with
      procs
      pibs := server.pibs.malloc
        { ulpid := UInt32.ofInt pid, ulppid := ppid, hmte := 0, prg := pPrg
          arg := pArg.getD [], env }
      tibs := server.tibs.malloc ⟨none, none, none⟩
      pid }
  else .error .nullPointer

/-- Make a process.  The parent is looked for when the record is in the list and
the process number is taken. -/
def prcCreate (room : Room) (ppid : UInt32) (pPrg : List UInt8)
    (pArg pEnv : Option (List (List UInt8))) (fuel : Nat) :
    Option (Run (Pointer × ProcServer)) :=
  match room.record with
  | none => some (.ok (none, server))
  | some record =>
    let c := server.procs.fresh
    let procs := server.procs.malloc
      { record with termSem := 0, next := none, prev := none, lxPib := none }
    let procRoot := server.procRoot.getD c
    andThen (processLinks.append procs procRoot c fuel) fun procs =>
      andThen (some (addInt server.pid 1)) fun pid =>
        let server := { server with procs, procRoot := some procRoot }
        andThen (server.prcGetProc ppid fuel) fun parentproc =>
          some ((some c, ·) <$> server.fillProcess c room pid ppid parentproc pPrg pArg pEnv)

/-- Store the task of a process. -/
def storeTask (proc : Nat) (task : Thread) : Run ProcServer :=
  ({ server with procs := · }) <$> server.procs.modify proc fun record => { record with task }

/-- Detach memory and free it.  An address without memory is left alone. -/
def freeMem {α : Type} (heap : Heap α) : Pointer → Heap α
  | none => heap
  | some address => heap.remove address

/-- Take a process out of the list and free it.  The head of the list is not
changed. -/
def prcDestroy (proc : Nat) : Run ProcServer := do
  let record ← server.procs.read proc
  let procs ← processLinks.unlink server.procs proc
  pure { server with
    procs
    pibs := freeMem server.pibs record.lxPib
    tibs := (List.finRange MAX_TID).foldl
      (fun tibs index => freeMem tibs (record.tibArray index)) server.tibs }

/-- The thread that waits for the process is to be woken. -/
def unblocks (ppid : UInt32) (parentproc : OS2Process) : Bool := parentproc.execSync &&
    (ppid ≠ 0 || threadEqual parentproc.task server.sysinitId)

/-- The parent gets the code of a process that ends. -/
def notifyParent (parentproc : Nat) (ppid result : UInt32) : Run ProcServer :=
  ({ server with procs := · }) <$> server.procs.modify parentproc fun parent =>
      { parent with
        termCode := result
        termSem :=
          if server.unblocks ppid parent then parent.termSem + 1
          else parent.termSem }

/-- A process ends.  Without a parent its record stays, and the code is
ERROR_FILE_NOT_FOUND, which is 2. -/
def cpExit (thread : Thread) (result : UInt32) (fuel : Nat) :
    Option (Run (UInt32 × ProcServer)) :=
  andThen (server.prcGetProcNative thread fuel) fun proc =>
    match proc with
    | none => some (.error .nullPointer)
    | some proc =>
      andThen (some do
        let record ← server.procs.read proc
        let lxPib ← stored record.lxPib
        Pib.ulppid <$> server.pibs.read lxPib) fun ppid =>
        andThen (server.prcGetProc ppid fuel) fun parentproc =>
          match parentproc with
          | none => some (.ok (2, server))
          | some parentproc =>
            some do
              let server ← server.notifyParent parentproc ppid result
              (0, ·) <$> server.prcDestroy proc

end ProcServer

end OsFree.Os2srv
