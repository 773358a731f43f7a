import OsFree.Cfg.ReadConfig
import OsFree.Compat.Restore
import OsFree.Machine.Buffer
import OsFree.Os2srv.ProcessList

/-!
# Executing a module

The record of a new process is in the list before the loader is called and
before the new task says whether the program could be loaded.
-/

namespace OsFree.Os2srv

open Machine
open Compat (Tokenizer findPath serverPath backslash cString)
open Prcmgr (Thread EXEC_ASYNC EXEC_ASYNCRESULT EXEC_ASYNCRESULTDB EXEC_TRACE
  EXEC_BACKGROUND)

/-- Where programs are looked for: the boot drive, the value of PATH, the array
that it is copied to, and the files that can be loaded. -/
structure ExecHost where
  bootdrive : List UInt8
  pathValue : Option (List UInt8)
  buf : Nat
  loads : List UInt8 → Bool

/-- The arguments of a call, with what the allocators, the loader and the new
task answer. -/
structure ExecCall where
  execFlag : Nat
  pArg : Option (List (List UInt8))
  pEnv : Option (List (List UInt8))
  pName : List UInt8
  ppid : UInt32
  room : Room
  taskid : Thread
  loaderExec : UInt32
  getLoadError : UInt32

/-- What a call returns: the code, the termination code if it is stored, the
server and the tokenizer. -/
structure ExecResult where
  rc : UInt32
  codeTerminate : Option UInt32
  server : ProcServer
  world : Tokenizer

/-- The name of a program starts with a backslash, or with a drive and one. -/
def isAbsolute (pName : List UInt8) : Run Bool := do
  let text := pName ++ [0]
  let first ← readByte text 0
  if first = backslash then pure true
  else
    let second ← readByte text 1
    if second = 0x3a then
      let third ← readByte text 2
      pure (third = backslash)
    else pure false

/-- The path of a program in the buffer of 4097 characters: the code, the path
and the tokenizer. -/
def locate (host : ExecHost) (pName : List UInt8) (fuel : Nat)
    (world : Tokenizer) : Option (Run (UInt32 × List UInt8 × Tokenizer)) :=
  andThen (some (isAbsolute pName)) fun absolute =>
    if absolute then
      some (if pName.length < 4097 then .ok (0, pName, world)
        else .error .writeOutside)
    else
      findPath host.bootdrive host.pathValue host.buf host.loads pName [] fuel world

namespace ProcServer

variable (server : ProcServer)

/-- The loader stores the task also if it fails.  The code of loading the program
comes from the new task. -/
def startProcess (call : ExecCall) (proc : Pointer) :
    Run (UInt32 × Option UInt32 × ProcServer) :=
  match proc with
  | none => .error .nullPointer
  | some proc => do
      let server ← server.storeTask proc call.taskid
      if call.loaderExec ≠ 0 then pure (call.loaderExec, none, server)
      else
        let record ← server.procs.read proc
        let codeTerminate :=
          if call.execFlag ∈ [EXEC_ASYNC, EXEC_ASYNCRESULT, EXEC_ASYNCRESULTDB,
            EXEC_TRACE, EXEC_BACKGROUND] then UInt32.ofInt record.pid else 0
        pure (call.getLoadError, some codeTerminate, server)

/-- Execute a program as a child of a process. -/
def prcExecuteModule (host : ExecHost) (call : ExecCall) (world : Tokenizer)
    (fuel : Nat) : Option (Run ExecResult) :=
  andThen (locate host call.pName fuel world) fun (rc, path, world) =>
    if rc ≠ 0 then
      some (.ok { rc, codeTerminate := none, server, world })
    else
      let path := path.map Cfg.toupper
      andThen (server.prcCreate call.room call.ppid path call.pArg call.pEnv
          fuel) fun (proc, server) =>
        some ((fun (rc, codeTerminate, server) =>
            { rc, codeTerminate, server, world }) <$>
          server.startProcess call proc)

/-- The list of processes is the same, with the same records. -/
structure SameList (server' : ProcServer) : Prop where
  root : server'.procRoot = server.procRoot
  records : ∀ address, server'.procs.objects address = server.procs.objects address

end ProcServer

/-- The name is not absolute, and no directory of PATH has the program. -/
def NotFound (host : ExecHost) (pName : List UInt8) : Prop :=
  isAbsolute pName = .ok false ∧ ∃ value, host.pathValue = some value ∧
      ∀ p ∈ (cString value).splitOn 0x3b, p ≠ [] →
        host.loads (serverPath host.bootdrive p pName) = false

variable {fuel : Nat} {world : Tokenizer} {rc : UInt32}

theorem searchLoop_code {f : UInt8 → UInt8} {look : Compat.Look}
    {start : Option Compat.Cursor × Tokenizer} {buffer buffer' : List UInt8}
    (walk : Compat.searchLoop f look fuel start buffer = some (.ok (world, buffer', some rc))) :
    ∃ p path, look p = .ok (path, some rc) := by
  induction fuel generalizing start buffer with
  | zero => cases walk
  | succ fuel ih =>
    obtain ⟨place, from'⟩ := start
    cases place with
    | none => cases walk
    | some place =>
      rw [Compat.searchLoop] at walk
      split at walk
      · exact ih walk
      · dsimp only at walk
        split at walk
        · cases walk
        · rename_i looked
          cases walk
          exact ⟨_, _, looked⟩
        · exact ih walk

theorem findPath_code_iff {bootdrive : List UInt8}
    {pathValue : Option (List UInt8)} {buf : Nat} {loads : List UInt8 → Bool}
    {name path path' : List UInt8} {world' : Tokenizer}
    (returned : findPath bootdrive pathValue buf loads name path fuel world =
      some (.ok (rc, path', world'))) :
    rc ≠ 0 ↔ ∃ value, pathValue = some value ∧ ∀ p ∈ (cString value).splitOn 0x3b, p ≠ [] →
        loads (serverPath bootdrive p name) = false := by
  cases pathValue with
  | none => cases returned
  | some value =>
    rw [findPath] at returned
    split at returned
    · obtain ⟨⟨after, buffer, code⟩, walk, ends⟩ := andThen_eq_ok_iff.mp returned
      have standing : (world.withText buf value).strings buf =
          [] ++ (cString value ++ value.dropWhile (· ≠ 0)) := by
        simpa using Compat.cString_append value
      obtain ⟨result, walk', leaves⟩ := @Compat.searchLoop_leaves id
        (Compat.lookPath bootdrive loads name) (world.withText buf value) buf []
        (value.dropWhile (· ≠ 0)) (cString value)
        ((cString value).length + 2) path (Nat.le_refl _) standing
        (fun c member => Compat.cString_ne_zero member)
        (Compat.getD_dropWhile value) (fun c nonzero => nonzero) rfl
      cases Compat.searchLoop_unique walk walk'
      have elements : (∃ value', some value = some value' ∧
          ∀ p ∈ (cString value').splitOn 0x3b, p ≠ [] →
            loads (serverPath bootdrive p name) = false) ↔
          Compat.Passes id (Compat.lookPath bootdrive loads name)
            (cString value) := by
        rw [Compat.passes_lookPath_iff]
        simp
      rw [elements]
      cases leaves with
      | inl finishes =>
        obtain ⟨passes, buffer', equal⟩ := finishes
        cases equal
        cases ends
        exact iff_of_true (by decide) passes
      | inr stops =>
        obtain ⟨missed, faults | ⟨stopped, buffer', rc', equal, -⟩⟩ := stops
        · obtain ⟨fault, equal⟩ := faults
          cases equal
        · cases equal
          cases ends
          obtain ⟨p, found, looked⟩ := searchLoop_code walk
          have zero : rc = 0 := by
            unfold Compat.lookPath at looked
            simp only [Except.ok.injEq, Prod.mk.injEq] at looked
            split at looked
            · exact (Option.some.inj looked.2).symm
            · cases looked.2
          exact iff_of_false (not_not.mpr zero) missed
    · cases returned

theorem locate_code_iff {host : ExecHost} {pName path : List UInt8} {world' : Tokenizer}
    (located : locate host pName fuel world = some (.ok (rc, path, world'))) :
    rc ≠ 0 ↔ NotFound host pName := by
  obtain ⟨absolute, test, located⟩ := andThen_eq_ok_iff.mp located
  have test := Option.some.inj test
  cases absolute with
  | true =>
    have copied := Option.some.inj located
    split at copied
    · cases copied
      refine iff_of_false (not_not.mpr rfl) ?_
      rintro ⟨relative, -⟩
      rw [test] at relative
      cases relative
    · cases copied
  | false =>
    rw [findPath_code_iff located]
    exact (and_iff_right test).symm

namespace ProcServer

variable {server server' : ProcServer}

theorem live_of_prcCreate {room : Room} {ppid : UInt32} {pPrg : List UInt8}
    {pArg pEnv : Option (List (List UInt8))} {fuel proc : Nat}
    (created : server.prcCreate room ppid pPrg pArg pEnv fuel = some (.ok (some proc, server'))) :
    server'.procs.objects server.procs.fresh ≠ none := by
  unfold prcCreate at created
  cases given : room.record with
  | none =>
    rw [given] at created
    cases created
  | some record =>
    rw [given] at created
    obtain ⟨procs, appended, created⟩ := andThen_eq_ok_iff.mp created
    obtain ⟨pid, -, created⟩ := andThen_eq_ok_iff.mp created
    obtain ⟨parentproc, -, created⟩ := andThen_eq_ok_iff.mp created
    obtain ⟨filled, fills, equal⟩ := map_eq_ok_iff.mp (Option.some.inj created)
    cases equal
    obtain ⟨parent, -, fills⟩ := bind_eq_ok_iff.mp fills
    obtain ⟨env, -, fills⟩ := bind_eq_ok_iff.mp fills
    split at fills
    · obtain ⟨changed, modified, fills⟩ := bind_eq_ok_iff.mp fills
      cases fills
      obtain ⟨-, rfl⟩ := Heap.modify_eq_ok_iff.mp modified
      rw [Ne, Heap.change_objects_eq_none_iff, Links.append_objects appended,
        Heap.malloc_objects_fresh]
      exact Option.some_ne_none _
    · cases fills

theorem startProcess_objects {call : ExecCall} {proc : Pointer} {rc : UInt32} {code : Option UInt32}
    (started : server.startProcess call proc = .ok (rc, code, server')) :
    proc ≠ none ∧ ∀ address, server'.procs.objects address = none ↔
      server.procs.objects address = none := by
  cases proc with
  | none => cases started
  | some proc =>
    refine ⟨Option.some_ne_none _, ?_⟩
    intro address
    obtain ⟨marked, stores, started⟩ := bind_eq_ok_iff.mp started
    obtain ⟨procs, modified, rfl⟩ := map_eq_ok_iff.mp stores
    obtain ⟨-, rfl⟩ := Heap.modify_eq_ok_iff.mp modified
    have same := @Heap.change_objects_eq_none_iff _ server.procs proc address
      fun record => { record with task := call.taskid }
    split at started
    · cases started
      exact same
    · obtain ⟨record, -, started⟩ := bind_eq_ok_iff.mp started
      cases started
      exact same

/-- A call that fails leaves the list as it was exactly if the program was not
found. -/
theorem sameList_iff_notFound {host : ExecHost} {call : ExecCall}
    {world : Tokenizer} {fuel : Nat} {result : ExecResult}
    (returned : server.prcExecuteModule host call world fuel =
      some (.ok result)) (failed : result.rc ≠ 0) :
    server.SameList result.server ↔ NotFound host call.pName := by
  obtain ⟨⟨rc, path, after⟩, located, returned⟩ := andThen_eq_ok_iff.mp returned
  rw [← locate_code_iff located]
  by_cases missing : rc = 0
  · simp only [missing, ne_eq, not_true_eq_false, if_false] at returned
    refine iff_of_false ?_ (not_not.mpr missing)
    obtain ⟨⟨proc, created⟩, creates, returned⟩ := andThen_eq_ok_iff.mp returned
    obtain ⟨⟨code, terminate, started⟩, starts, equal⟩ :=
      map_eq_ok_iff.mp (Option.some.inj returned)
    obtain ⟨given, same⟩ := startProcess_objects starts
    obtain ⟨address, rfl⟩ := Option.ne_none_iff_exists'.mp given
    have isLive := live_of_prcCreate creates
    intro sameList
    have dead := sameList.records server.procs.fresh
    rw [server.procs.unused _ (Nat.le_refl _), ← equal] at dead
    exact isLive ((same _).mp dead)
  · simp only [ne_eq, missing, not_false_eq_true, if_true] at returned
    cases returned
    exact iff_of_true ⟨rfl, fun _ => rfl⟩ missing

/-- PATH has one directory, without any program. -/
def emptyHost : ExecHost where
  bootdrive := [0x63, 0x3a]
  pathValue := some [0x78]
  buf := 0
  loads := fun _ => false

/-- The loader cannot start the task of a program. -/
def failingCall (pName : List UInt8) : ExecCall where
  execFlag := EXEC_ASYNC
  pArg := none
  pEnv := some [[0x50, 0x3d]]
  pName := pName
  ppid := 0
  room := ⟨some OS2Process.blank, true, true⟩
  taskid := ⟨7, 0⟩
  loaderExec := 2
  getLoadError := 0

/-- A string for the tokenizer. -/
def noTokens : Tokenizer where
  nxtToken := none
  ch := 0
  strings := fun _ => []

/-- A program that is not in PATH. -/
theorem missing_sameList :
    ∃ result, (initial ⟨1, 0⟩).prcExecuteModule emptyHost (failingCall [0x61])
        noTokens 9 = some (.ok result) ∧
      result.rc ≠ 0 ∧ (initial ⟨1, 0⟩).SameList result.server := by
  refine ⟨_, rfl, by decide, ?_⟩
  refine (@sameList_iff_notFound (initial ⟨1, 0⟩) emptyHost (failingCall [0x61])
    noTokens 9 _ rfl (by decide)).mpr ?_
  exact ⟨rfl, _, rfl, fun _ _ _ => rfl⟩

/-- The record of a program that the loader cannot start stays in the list. -/
theorem unstarted_not_sameList : ∃ result, (initial ⟨1, 0⟩).prcExecuteModule emptyHost
        (failingCall [0x5c, 0x61]) noTokens 9 = some (.ok result) ∧
      result.rc ≠ 0 ∧ ¬ (initial ⟨1, 0⟩).SameList result.server := by
  refine ⟨_, rfl, by decide, ?_⟩
  intro same
  have listed := congrArg Option.isSome (same.records 0)
  cases listed

end ProcServer

end OsFree.Os2srv
