import OsFree.Machine.Slots
import OsFree.Os2srv.ProcessList

/-!
# The tables of threads

The record of a process has a table of the native threads and one of the
information blocks, both with an entry for each thread id from 1.
-/

namespace OsFree.Os2srv

open Machine
open Prcmgr (Thread taskEqual threadEqual)

section

variable {α : Type}

/-- The entry of a table for a thread id. -/
def entry (table : Fin MAX_TID → α) (tid : UInt32) : Run α :=
  if inside : (tid - 1).toNat < MAX_TID then .ok (table ⟨_, inside⟩)
  else .error .readOutside

/-- Store an entry of a table for a thread id. -/
def setEntry (table : Fin MAX_TID → α) (tid : UInt32) (value : α) :
    Run (Fin MAX_TID → α) :=
  if inside : (tid - 1).toNat < MAX_TID then
    .ok (Function.update table ⟨_, inside⟩ value)
  else .error .writeOutside

end

/-- The object that a pointer leads to. -/
def deref {α : Type} (heap : Heap α) : Pointer → Run α
  | none => .error .nullPointer
  | some address => heap.read address

/-- Write to the object that a pointer leads to. -/
def modifyAt {α : Type} (heap : Heap α) (pointer : Pointer) (f : α → α) :
    Run (Heap α) :=
  match pointer with
  | none => .error .nullPointer
  | some address => heap.modify address f

/-- The thread id of a native thread in a table, 0 if it is not there. -/
def tidIn (table : Fin MAX_TID → Thread) (thread : Thread) : UInt32 :=
  match (List.finRange MAX_TID).find? fun i => threadEqual (table i) thread with
  | some i => UInt32.ofNat i.val + 1
  | none => 0

namespace ProcServer

variable (server : ProcServer)

/-- Make an information block if there is memory for it. -/
def prcCreateTIB (memory : Bool) : Run (Nat × ProcServer) :=
  if memory then
    .ok (server.tibs.fresh,
      { server with tibs := server.tibs.malloc ⟨none, none, none⟩ })
  else .error .nullPointer

/-- Enter a native thread with a thread id and a new information block. -/
def prcNewTIB (pid tid : UInt32) (id : Thread) (memory : Bool) (fuel : Nat) :
    Option (Run ProcServer) :=
  andThen (server.prcGetProc pid fuel) fun proc =>
    some do
      let (ptib, server) ← server.prcCreateTIB memory
      let record ← deref server.procs proc
      let tidArray ← setEntry record.tidArray tid id
      let tibArray ← setEntry record.tibArray tid (some ptib)
      let tibs ← server.tibs.modify ptib fun tib => { tib with ultid := some tid }
      let procs ← modifyAt server.procs proc fun record =>
        { record with tidArray, tibArray }
      pure { server with procs, tibs }

/-- Clear the entries of a thread id and free the information block. -/
def prcDestroyTIB (nil : Thread) (pid tid : UInt32) (fuel : Nat) :
    Option (Run ProcServer) :=
  andThen (server.prcGetProc pid fuel) fun proc =>
    some do
      let record ← deref server.procs proc
      let ptib ← entry record.tibArray tid
      let tibArray ← setEntry record.tibArray tid none
      let tidArray ← setEntry record.tidArray tid nil
      let procs ← modifyAt server.procs proc fun record =>
        { record with tidArray, tibArray }
      pure { server with procs, tibs := freeMem server.tibs ptib }

/-- The thread id of a native thread. -/
def prcGetTIDNative (thread : Thread) (fuel : Nat) : Option (Run UInt32) :=
  andThen (server.prcGetProcNative thread fuel) fun proc =>
    some do
      let record ← deref server.procs proc
      pure (tidIn record.tidArray thread)

/-- The native thread of a thread id. -/
def prcGetNativeID (pid tid : UInt32) (fuel : Nat) : Option (Run Thread) :=
  andThen (server.prcGetProc pid fuel) fun proc =>
    some do
      let record ← deref server.procs proc
      entry record.tidArray tid

/-- The process number of the process of a thread. -/
def cpGetPID (thread : Thread) (fuel : Nat) : Option (Run UInt32) :=
  andThen (server.prcGetProcNative thread fuel) fun proc =>
    some do
      let record ← deref server.procs proc
      pure (UInt32.ofInt record.pid)

/-- The information block of a thread is there to be shared. -/
def cpGetTIB (thread : Thread) (fuel : Nat) : Option (Run Tib) :=
  andThen (server.prcGetProcNative thread fuel) fun proc =>
    andThen (server.prcGetTIDNative thread fuel) fun tid =>
      some do
        let record ← deref server.procs proc
        let ptib ← entry record.tibArray tid
        deref server.tibs ptib

end ProcServer

section

variable {α : Type} {table : Fin MAX_TID → α} {tid : UInt32} {index : Fin MAX_TID}

/-- The place of a thread id in the tables. -/
def At (tid : UInt32) (index : Fin MAX_TID) : Prop := (tid - 1).toNat = index.val

theorem entry_of_at (isAt : At tid index) : entry table tid = .ok (table index) := by
  have inside : (tid - 1).toNat < MAX_TID := isAt ▸ index.isLt
  rw [entry, dif_pos inside]
  exact congrArg (fun i => Except.ok (table i)) (Fin.ext isAt)

theorem setEntry_of_at (isAt : At tid index) (value : α) :
    setEntry table tid value = .ok (Function.update table index value) := by
  have inside : (tid - 1).toNat < MAX_TID := isAt ▸ index.isLt
  rw [setEntry, dif_pos inside]
  exact congrArg (fun i => Except.ok (Function.update table i value)) (Fin.ext isAt)

/-- The thread id of a place. -/
def tidAt (index : Fin MAX_TID) : UInt32 := UInt32.ofNat index.val + 1

theorem toNat_tidAt (index : Fin MAX_TID) :
    (tidAt index).toNat = index.val + 1 := by
  have bound : index.val < 128 := index.isLt
  simp only [tidAt, UInt32.toNat_add, UInt32.toNat_ofNat', UInt32.toNat_one]
  omega

theorem at_tidAt (index : Fin MAX_TID) : At (tidAt index) index := by
  have bound : index.val < 128 := index.isLt
  rw [At, tidAt, UInt32.add_sub_cancel, UInt32.toNat_ofNat']
  omega

theorem exists_at (low : 1 ≤ tid.toNat) (high : tid.toNat ≤ MAX_TID) :
    ∃ index, tid = tidAt index := by
  have bound : tid.toNat - 1 < MAX_TID := by omega
  refine ⟨⟨tid.toNat - 1, bound⟩, UInt32.toNat_inj.mp ?_⟩
  rw [toNat_tidAt]
  dsimp only
  omega

theorem tidAt_inj {other : Fin MAX_TID} (same : tidAt index = tidAt other) :
    index = other := by
  have values := congrArg UInt32.toNat same
  rw [toNat_tidAt, toNat_tidAt] at values
  exact Fin.ext (by omega)

end

theorem tidIn_eq {nil : Thread} {table : Fin MAX_TID → Thread}
    (distinct : Slots.Distinct nil table) {index : Fin MAX_TID}
    (some : table index ≠ nil) : tidIn table (table index) = tidAt index := by
  have found : (List.finRange MAX_TID).find?
      (fun i => threadEqual (table i) (table index)) = Option.some index :=
    distinct.slotOf_eq some
  rw [tidIn, found]
  rfl

/-- A fault that is not an access outside a table. -/
def InsideTables (fault : Fault) : Prop := fault ≠ .readOutside ∧ fault ≠ .writeOutside

theorem insideTables_nullPointer : InsideTables .nullPointer :=
  ⟨Fault.noConfusion, Fault.noConfusion⟩

theorem ensures_deref {α : Type} (heap : Heap α) (pointer : Pointer) :
    Ensures InsideTables (fun _ => True) (some (deref heap pointer)) := by
  cases pointer with
  | none => exact insideTables_nullPointer
  | some address =>
    rw [deref, Heap.read]
    cases heap.objects address with
    | none => exact insideTables_nullPointer
    | some object => trivial

namespace ProcServer

variable {server server' : ProcServer} {proc fuel : Nat} {record : OS2Process}
  {pid tid : UInt32} {thread nil id : Thread} {index : Fin MAX_TID}

/-- The record of a process is found by its number and by its threads. -/
structure Served (server : ProcServer) (proc : Nat) (record : OS2Process)
    (fuel : Nat) : Prop where
  live : server.procs.objects proc = some record
  byPid : server.prcGetProc (UInt32.ofInt record.pid) fuel = some (.ok (some proc))
  byTask : ∀ thread, taskEqual record.task thread →
    server.prcGetProcNative thread fuel = some (.ok (some proc))

/-- The server with other tables for a process. -/
def withTables (server : ProcServer) (proc : Nat) (tidArray : Fin MAX_TID → Thread)
    (tibArray : Fin MAX_TID → Pointer) (tibs : Heap Tib) : ProcServer :=
  { server with
    procs := server.procs.change proc fun record =>
      { record with tidArray, tibArray }
    tibs }

section

variable (served : server.Served proc record fuel)

include served

theorem Served.withTables (tidArray : Fin MAX_TID → Thread) (tibArray : Fin MAX_TID → Pointer)
    (tibs : Heap Tib) :
    (server.withTables proc tidArray tibArray tibs).Served proc
      { record with tidArray, tibArray } fuel where
  live := by
    rw [ProcServer.withTables, Heap.change_objects_self, served.live, Option.map_some]
  byPid := by
    refine Eq.trans ?_ served.byPid
    apply Heap.find_change
    · exact fun _ => rfl
    · exact fun _ => rfl
  byTask := by
    intro thread same
    refine Eq.trans ?_ (served.byTask thread same)
    apply Heap.find_change
    · exact fun _ => rfl
    · exact fun _ => rfl

theorem Served.deref :
    deref server.procs (some proc) = .ok record :=
  Heap.read_of_live served.live

theorem Served.modifyAt (f : OS2Process → OS2Process) :
    modifyAt server.procs (some proc) f = .ok (server.procs.change proc f) :=
  Heap.modify_of_live served.live f

theorem Served.prcNewTIB (isAt : At tid index) :
    server.prcNewTIB (UInt32.ofInt record.pid) tid id true fuel =
      some (.ok (server.withTables proc (Function.update record.tidArray index id)
        (Function.update record.tibArray index (some server.tibs.fresh))
        ((server.tibs.malloc ⟨none, none, none⟩).change server.tibs.fresh
          fun tib => { tib with ultid := some tid }))) := by
  have made : (server.tibs.malloc ⟨none, none, none⟩).objects
      server.tibs.fresh = some ⟨none, none, none⟩ :=
    Heap.malloc_objects_fresh _
  unfold ProcServer.prcNewTIB prcCreateTIB
  rw [served.byPid]
  simp only [Machine.andThen, if_true, bind_ok, served.deref,
    setEntry_of_at isAt, Heap.modify_of_live made, served.modifyAt, pure_eq_ok]
  rfl

theorem Served.ensures_prcNewTIB (isAt : At tid index) (memory : Bool) :
    Ensures InsideTables (fun server' => server'.Served proc { record with
          tidArray := Function.update record.tidArray index id
          tibArray := Function.update record.tibArray index (some server.tibs.fresh) } fuel)
      (server.prcNewTIB (UInt32.ofInt record.pid) tid id memory fuel) := by
  cases memory with
  | false =>
    unfold ProcServer.prcNewTIB
    rw [served.byPid]
    exact insideTables_nullPointer
  | true =>
    rw [served.prcNewTIB isAt]
    exact served.withTables _ _ _

theorem Served.prcDestroyTIB (isAt : At tid index) :
    server.prcDestroyTIB nil (UInt32.ofInt record.pid) tid fuel =
      some (.ok (server.withTables proc (Function.update record.tidArray index nil)
        (Function.update record.tibArray index none)
        (freeMem server.tibs (record.tibArray index)))) := by
  unfold ProcServer.prcDestroyTIB
  rw [served.byPid]
  simp only [Machine.andThen, bind_ok, served.deref, entry_of_at isAt,
    setEntry_of_at isAt, served.modifyAt, pure_eq_ok]
  rfl

theorem Served.prcGetTIDNative (same : taskEqual record.task thread) :
    server.prcGetTIDNative thread fuel =
      some (.ok (tidIn record.tidArray thread)) := by
  unfold ProcServer.prcGetTIDNative
  rw [served.byTask thread same]
  simp only [Machine.andThen, bind_ok, served.deref, pure_eq_ok]

theorem Served.prcGetNativeID : server.prcGetNativeID (UInt32.ofInt record.pid) tid fuel =
      some (entry record.tidArray tid) := by
  unfold ProcServer.prcGetNativeID
  rw [served.byPid]
  simp only [Machine.andThen, bind_ok, served.deref]

theorem Served.cpGetPID (same : taskEqual record.task thread) :
    server.cpGetPID thread fuel = some (.ok (UInt32.ofInt record.pid)) := by
  unfold ProcServer.cpGetPID
  rw [served.byTask thread same]
  simp only [Machine.andThen, bind_ok, served.deref, pure_eq_ok]

theorem Served.cpGetTIB (same : taskEqual record.task thread)
    (isAt : At (tidIn record.tidArray thread) index) :
    Ensures InsideTables (fun _ => True) (server.cpGetTIB thread fuel) := by
  unfold ProcServer.cpGetTIB
  rw [served.byTask thread same, served.prcGetTIDNative same]
  simp only [Machine.andThen, bind_ok, served.deref, entry_of_at isAt]
  exact ensures_deref _ _

theorem Served.cpGetTIB_of_live (same : taskEqual record.task thread)
    (isAt : At (tidIn record.tidArray thread) index) {ptib : Nat} {tib : Tib}
    (found : record.tibArray index = some ptib)
    (there : server.tibs.objects ptib = some tib) :
    server.cpGetTIB thread fuel = some (.ok tib) := by
  unfold ProcServer.cpGetTIB
  rw [served.byTask thread same, served.prcGetTIDNative same]
  simp only [Machine.andThen, bind_ok, served.deref, entry_of_at isAt, found]
  exact congrArg some (Heap.read_of_live there)

end

end ProcServer

end OsFree.Os2srv
