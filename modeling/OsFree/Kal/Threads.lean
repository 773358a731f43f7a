import OsFree.Machine.Transition
import OsFree.Os2srv.ThreadTable

/-!
# Threads of a process

A process numbers its threads with a counter of its own.  The server keeps the
tables that lead from a thread id to a native thread and back.
-/

namespace OsFree.Kal

section

open Machine Os2srv
open Prcmgr (Thread taskEqual threadEqual)

/-- The counter and the information blocks of a process with the server, and the
threads that run with their ids. -/
structure Threads where
  server : ProcServer
  ulThread : UInt32
  ptib : Fin MAX_TID → Pointer
  live : List (UInt32 × Thread)

/-- A native thread that has been made, and what is there for its information
block: memory in the server, and an address at which the client has attached
the block that is shared. -/
structure NewThread where
  native : Thread
  memory : Bool
  attached : Pointer
  suspended : Bool

namespace Threads

variable (nil : Thread) (state : Threads) (me : Thread) (fuel : Nat)

/-- Get the block of the thread that asks, and store its address for a thread
id. -/
def kalGetTIB (tid : UInt32) (attached : Pointer) :
    Option (Run (Fin MAX_TID → Pointer)) :=
  andThen (state.server.cpGetTIB me fuel) fun _ =>
    match attached with
    | none => some (.ok state.ptib)
    | some addr => some (setEntry state.ptib tid (some addr))

/-- The block of a thread id, which must be there. -/
def tibOf (tid : UInt32) : Run Nat := do
  let tib ← entry state.ptib tid
  match tib with
  | none => .error .nullPointer
  | some tib => pure tib

/-- Suspend a thread.  ERROR_INVALID_THREADID is 309. -/
def kalSuspendThread (tid : UInt32) : Option (Run UInt32) :=
  andThen (state.server.cpGetPID me fuel) fun pid =>
    andThen (state.server.prcGetNativeID pid tid fuel) fun id =>
      if threadEqual id nil then some (.ok 309)
      else some ((fun _ => 0) <$> state.tibOf tid)

/-- Make a thread with the next thread id.  If no native thread is made, nothing
happens. -/
def kalCreateThread : Option NewThread → Option (Run Threads)
  | none => some (.ok state)
  | some new =>
    let ulThread := state.ulThread + 1
    andThen (state.server.cpGetPID me fuel) fun pid =>
      andThen (state.server.prcNewTIB pid ulThread new.native new.memory fuel) fun server =>
          let state := { state with server, ulThread }
          andThen (state.kalGetTIB me fuel ulThread new.attached) fun ptib =>
            let state : Threads := { state with
                ptib, live := state.live ++ [(ulThread, new.native)] }
            andThen (some (state.tibOf ulThread)) fun _ =>
              if new.suspended then
                andThen (state.kalSuspendThread nil me fuel ulThread) fun _ =>
                  some (.ok state)
              else some (.ok state)

/-- What a new thread looks up before the function of the application runs. -/
def threadFunc : Option (Run (UInt32 × Thread)) :=
  andThen (state.server.cpGetPID me fuel) fun pid =>
    andThen (state.server.prcGetTIDNative me fuel) fun tid =>
      andThen (state.server.prcGetNativeID pid tid fuel) fun native =>
        some ((fun _ => (tid, native)) <$> state.tibOf tid)

/-- The state without a native thread. -/
def without (native : Thread) : Threads :=
  { state with live := state.live.filter (·.2 ≠ native) }

/-- Free the block of a thread id. -/
def kalDestroyTIB (pid tid : UInt32) : Option (Run Threads) :=
  andThen (state.server.prcDestroyTIB nil pid tid fuel) fun server =>
    some (.ok { state with server })

/-- A thread ends itself; the process ends with `EXIT_PROCESS`, which is 1, and
with its first thread. -/
def kalExit (action : UInt32) : Option (Run (Option Threads)) :=
  andThen (state.server.cpGetPID me fuel) fun pid =>
    andThen (state.server.prcGetTIDNative me fuel) fun tid =>
      if action = 1 ∨ tid = 1 then some (.ok none)
      else
        andThen (state.kalDestroyTIB nil fuel pid tid) fun state =>
          some (.ok (some (state.without me)))

/-- End another thread, where `rc` is what the thread library answers.  A thread
that ends itself this way does not come back.  ERROR_INVALID_THREADID is 309. -/
def kalKillThread (tid rc : UInt32) : Option (Run (UInt32 × Threads)) :=
  andThen (state.server.cpGetPID me fuel) fun pid =>
    andThen (state.server.prcGetNativeID pid tid fuel) fun id =>
      if threadEqual id nil then some (.ok (309, state))
      else
        let state := if rc = 0 then state.without id else state
        if rc = 0 ∧ id = me then some (.ok (0, state))
        else
          andThen (state.kalDestroyTIB nil fuel pid tid) fun state =>
            some (.ok (rc, state))

end Threads

/-- What a thread of the process does. -/
inductive ThreadCall where
  | create (new : Option NewThread)
  | begin
  | exit (action : UInt32)
  | kill (tid rc : UInt32)

namespace Threads

/-- The state after a call, unless the process has ended. -/
def serve (nil : Thread) (state : Threads) (me : Thread) (fuel : Nat) :
    ThreadCall → Option (Run (Option Threads))
  | .create new =>
    andThen (state.kalCreateThread nil me fuel new) fun state =>
      some (.ok (some state))
  | .begin =>
    andThen (state.threadFunc me fuel) fun _ => some (.ok (some state))
  | .exit action => state.kalExit nil me fuel action
  | .kill tid rc =>
    andThen (state.kalKillThread nil me fuel tid rc) fun answer =>
      some (.ok (some answer.2))

variable (nil : Thread) (fuel : Nat)

/-- The call of a thread that runs.  A native thread that is made belongs to the
task of its maker. -/
def Valid (state : Threads) (me : Thread) (call : ThreadCall) : Prop :=
  (∃ tid, (tid, me) ∈ state.live) ∧ ∀ new, call = .create (some new) →
      taskEqual me new.native ∧ new.native ≠ nil

/-- The tables stay right: there are thread ids left and the server does not have
the new native thread from before; a thread that is ended has a thread id from 1
to 128, and does end. -/
def Allowed (state : Threads) : ThreadCall → Prop
  | .create (some new) =>
    state.ulThread.toNat < MAX_TID ∧ ∀ proc record, state.server.procs.objects proc = some record →
        taskEqual record.task new.native →
        ∀ index, record.tidArray index ≠ new.native
  | .kill tid rc =>
    1 ≤ tid.toNat ∧ tid.toNat ≤ MAX_TID ∧ (rc ≠ 0 → ∀ native, (tid, native) ∉ state.live)
  | _ => True

/-- A step for any call of a thread that runs. -/
def Step (state state' : Threads) : Prop := ∃ me call, state.Valid nil me call ∧
    state.serve nil me fuel call = some (.ok (some state'))

/-- A step that keeps the tables right. -/
def AllowedStep (state state' : Threads) : Prop :=
  ∃ me call, state.Valid nil me call ∧ state.Allowed call ∧
    state.serve nil me fuel call = some (.ok (some state'))

/-- The ids of the threads that run are from 1 to 128, and lead to the native
threads and back. -/
def Good (state : Threads) : Prop := ∃ pid, ∀ tid native, (tid, native) ∈ state.live →
    1 ≤ tid.toNat ∧ tid.toNat ≤ MAX_TID ∧ state.server.cpGetPID native fuel = some (.ok pid) ∧
      state.server.prcGetNativeID pid tid fuel = some (.ok native) ∧
      state.server.prcGetTIDNative native fuel = some (.ok tid)

/-- Only the first thread of a process runs, with the id 1. -/
structure Alone (state : Threads) (proc : Nat) (record : OS2Process) : Prop where
  served : state.server.Served proc record fuel
  task : record.task ≠ nil
  tidArray : record.tidArray = fun index =>
    if index.val = 0 then record.task else nil
  counted : 1 ≤ state.ulThread.toNat
  live : state.live = [(1, record.task)]

/-- A process that has started. -/
structure Started (state : Threads) (proc : Nat) (record : OS2Process) : Prop
    extends state.Alone nil fuel proc record where
  ulThread : state.ulThread = 1

/-! ## What keeps the tables right -/

/-- The table of native threads of a process: no thread is in it twice, there is
nothing behind the counter, and every thread that runs has its place. -/
structure Sound (state : Threads) (proc : Nat) (record : OS2Process) : Prop where
  served : state.server.Served proc record fuel
  distinct : Slots.Distinct nil record.tidArray
  unused : ∀ index : Fin MAX_TID, state.ulThread.toNat ≤ index.val → record.tidArray index = nil
  entered : ∀ tid native, (tid, native) ∈ state.live → native ≠ nil ∧ taskEqual record.task native ∧
      ∃ index, tid = tidAt index ∧ record.tidArray index = native

variable {nil fuel} {state state' : Threads} {proc : Nat} {record : OS2Process}
  {me : Thread} {tid : UInt32} {call : ThreadCall} {index : Fin MAX_TID}

theorem Alone.sound (alone : state.Alone nil fuel proc record) :
    state.Sound nil fuel proc record where
  served := alone.served
  distinct := by
    intro i j some same
    rw [alone.tidArray] at some same
    have first : i.val = 0 := by
      by_contra other
      exact some (if_neg other)
    have second : j.val = 0 := by
      by_contra other
      simp only [if_pos first, if_neg other] at same
      exact alone.task same
    exact Fin.ext (first.trans second.symm)
  unused := by
    intro index behind
    have counted := alone.counted
    rw [alone.tidArray]
    exact if_neg (by omega)
  entered := by
    intro tid native member
    rw [alone.live] at member
    cases List.mem_singleton.mp member
    refine ⟨alone.task, by simp [taskEqual], ⟨0, by decide⟩, rfl, ?_⟩
    rw [alone.tidArray]
    rfl

namespace Sound

section

variable (sound : state.Sound nil fuel proc record)

include sound

variable {native : Thread}

theorem lookups (member : (tid, native) ∈ state.live) :
    ∃ index, tid = tidAt index ∧ record.tidArray index = native ∧
      native ≠ nil ∧ tidIn record.tidArray native = tid ∧
      state.server.cpGetPID native fuel = some (.ok (UInt32.ofInt record.pid)) ∧
      state.server.prcGetTIDNative native fuel = some (.ok tid) := by
  obtain ⟨some, same, index, rfl, rfl⟩ := sound.entered tid native member
  have found := tidIn_eq sound.distinct some
  refine ⟨index, rfl, rfl, some, found, sound.served.cpGetPID same, ?_⟩
  rw [sound.served.prcGetTIDNative same, found]

theorem good : state.Good fuel := by
  refine ⟨UInt32.ofInt record.pid, ?_⟩
  intro tid native member
  obtain ⟨index, rfl, rfl, -, -, pid, found⟩ := sound.lookups member
  have value := toNat_tidAt index
  refine ⟨by omega, by omega, pid, ?_, found⟩
  rw [sound.served.prcGetNativeID, entry_of_at (at_tidAt index)]

theorem task_eq (member : (tid, me) ∈ state.live) (same : taskEqual me native) :
    taskEqual record.task native := by
  have first := (sound.entered tid me member).2.1
  simp only [taskEqual, beq_iff_eq] at first same ⊢
  exact first.trans same

/-! ## Ending a thread -/

theorem cleared {server : ProcServer}
    {tibArray : Fin MAX_TID → Pointer} {live : List (UInt32 × Thread)}
    (served : server.Served proc { record with
        tidArray := Function.update record.tidArray index nil
        tibArray } fuel)
    (fewer : ∀ tid native, (tid, native) ∈ live → (tid, native) ∈ state.live ∧ tid ≠ tidAt index) :
    Sound nil fuel { state with server, live } proc { record with
        tidArray := Function.update record.tidArray index nil
        tibArray } where
  served := served
  distinct := sound.distinct.clear index
  unused := by
    intro other behind
    by_cases here : other = index
    · rw [here]
      exact Function.update_self ..
    · exact (Function.update_of_ne here ..).trans (sound.unused other behind)
  entered := by
    intro tid native member
    obtain ⟨before, different⟩ := fewer tid native member
    obtain ⟨some, same, other, rfl, found⟩ := sound.entered tid native before
    refine ⟨some, same, other, rfl, ?_⟩
    have elsewhere : other ≠ index := fun equal => different (equal ▸ rfl)
    exact (Function.update_of_ne elsewhere ..).trans found

theorem without (native : Thread) : (state.without native).Sound nil fuel proc record where
  served := sound.served
  distinct := sound.distinct
  unused := sound.unused
  entered tid other member := sound.entered tid other (List.mem_of_mem_filter member)

theorem native_eq (member : (tidAt index, native) ∈ state.live) :
    native = record.tidArray index := by
  obtain ⟨-, -, other, same, found⟩ := sound.entered _ _ member
  rw [tidAt_inj same, found]

theorem ne_of_mem_without (member : (tid, native) ∈ (state.without (record.tidArray index)).live) :
    (tid, native) ∈ state.live ∧ tid ≠ tidAt index := by
  obtain ⟨before, different⟩ := List.mem_filter.mp member
  refine ⟨before, ?_⟩
  rintro rfl
  have same := sound.native_eq before
  simp [same] at different

theorem kalDestroyTIB (isAt : At tid index) :
    Ensures InsideTables (fun state' => state'.live = state.live ∧
        ∀ live, (∀ tid native, (tid, native) ∈ live →
            (tid, native) ∈ state.live ∧ tid ≠ tidAt index) →
          ∃ record', Sound nil fuel { state' with live } proc record')
      (state.kalDestroyTIB nil fuel (UInt32.ofInt record.pid) tid) := by
  unfold Threads.kalDestroyTIB
  rw [sound.served.prcDestroyTIB isAt]
  have served := sound.served.withTables (Function.update record.tidArray index nil)
    (Function.update record.tibArray index none)
    (ProcServer.freeMem state.server.tibs (record.tibArray index))
  exact ⟨rfl, fun live fewer => ⟨_, sound.cleared served fewer⟩⟩

theorem kalExit (member : (tid, me) ∈ state.live) (action : UInt32) :
    Ensures InsideTables (fun outcome => ∀ state', outcome = some state' →
        ∃ record', state'.Sound nil fuel proc record')
      (state.kalExit nil me fuel action) := by
  obtain ⟨index, rfl, rfl, -, -, pid, found⟩ := sound.lookups member
  unfold Threads.kalExit
  rw [pid, found]
  simp only [Machine.andThen]
  split
  · intro state' isAfter
    cases isAfter
  · apply Ensures.andThen (sound.kalDestroyTIB (at_tidAt index))
    intro state' destroyed after isAfter
    cases isAfter
    apply destroyed.2
    rw [destroyed.1]
    exact fun _ _ => sound.ne_of_mem_without

theorem kalKillThread (member : ∃ tid, (tid, me) ∈ state.live) {rc : UInt32}
    (low : 1 ≤ tid.toNat) (high : tid.toNat ≤ MAX_TID)
    (ended : rc ≠ 0 → ∀ native, (tid, native) ∉ state.live) :
    Ensures InsideTables (fun answer =>
        ∃ record', answer.2.Sound nil fuel proc record')
      (state.kalKillThread nil me fuel tid rc) := by
  obtain ⟨mine, member⟩ := member
  obtain ⟨-, -, -, -, -, pid, -⟩ := sound.lookups member
  obtain ⟨index, rfl⟩ := exists_at low high
  have isAt := at_tidAt index
  unfold Threads.kalKillThread
  rw [pid]
  simp only [Machine.andThen, sound.served.prcGetNativeID, entry_of_at isAt]
  split
  · exact ⟨record, sound⟩
  · by_cases shutdown : rc = 0
    · simp only [shutdown, true_and]
      have fewer := sound.without (record.tidArray index)
      split
      · exact ⟨record, fewer⟩
      · apply Ensures.andThen (fewer.kalDestroyTIB isAt)
        intro state' destroyed
        apply destroyed.2
        intro tid native member
        rw [destroyed.1] at member
        exact ⟨member, (sound.ne_of_mem_without member).2⟩
    · simp only [shutdown, false_and, if_false]
      apply Ensures.andThen (sound.kalDestroyTIB isAt)
      intro state' destroyed
      apply destroyed.2
      intro tid native member
      rw [destroyed.1] at member
      refine ⟨member, ?_⟩
      rintro rfl
      exact ended shutdown native member

/-! ## Making a thread -/

theorem entered_next {server : ProcServer} {tibArray : Fin MAX_TID → Pointer}
    (next : state.ulThread.toNat = index.val)
    (same : taskEqual record.task native) (some : native ≠ nil)
    (fresh : ∀ i, record.tidArray i ≠ native)
    (served : server.Served proc { record with
        tidArray := Function.update record.tidArray index native
        tibArray } fuel) (ptib : Fin MAX_TID → Pointer) :
    Sound nil fuel
      { server, ulThread := state.ulThread + 1, ptib
        live := state.live ++ [(state.ulThread + 1, native)] } proc
      { record with
        tidArray := Function.update record.tidArray index native
        tibArray } where
  served := served
  distinct := sound.distinct.store fresh index
  unused := by
    intro other behind
    have value : (state.ulThread + 1).toNat = state.ulThread.toNat + 1 := by
      have bound : index.val < 128 := index.isLt
      rw [UInt32.toNat_add, UInt32.toNat_one]
      omega
    rw [value] at behind
    have elsewhere : other ≠ index := by
      rintro rfl
      omega
    exact (Function.update_of_ne elsewhere ..).trans (sound.unused other (by omega))
  entered := by
    intro tid other member
    cases List.mem_append.mp member with
    | inl before =>
      obtain ⟨some, same, place, rfl, found⟩ := sound.entered tid other before
      refine ⟨some, same, place, rfl, ?_⟩
      have elsewhere : place ≠ index := by
        rintro rfl
        rw [sound.unused place (by omega)] at found
        exact some found.symm
      exact (Function.update_of_ne elsewhere ..).trans found
    | inr new =>
      cases List.mem_singleton.mp new
      refine ⟨some, same, index, ?_, Function.update_self ..⟩
      apply UInt32.toNat_inj.mp
      have bound : index.val < 128 := index.isLt
      rw [toNat_tidAt, UInt32.toNat_add, UInt32.toNat_one]
      omega

end

theorem ensures_tibOf (state : Threads) (isAt : At tid index) :
    Ensures InsideTables (fun _ => True) (some (state.tibOf tid)) := by
  rw [tibOf, entry_of_at isAt, bind_ok]
  cases state.ptib index with
  | none => exact insideTables_nullPointer
  | some tib => trivial

section

variable (sound : state.Sound nil fuel proc record)

include sound

theorem kalGetTIB {mine : UInt32} (member : (mine, me) ∈ state.live) (isAt : At tid index)
    (attached : Pointer) :
    Ensures InsideTables (fun _ => True)
      (state.kalGetTIB me fuel tid attached) := by
  obtain ⟨place, rfl, rfl, -, found, -⟩ := sound.lookups member
  have same := (sound.entered _ _ member).2.1
  have place' : At (tidIn record.tidArray (record.tidArray place)) place := found ▸ at_tidAt place
  apply Ensures.andThen (sound.served.cpGetTIB same place')
  intro tib _
  cases attached with
  | none => trivial
  | some addr =>
    simp only [setEntry_of_at isAt]
    trivial

theorem kalSuspendThread {mine : UInt32} (member : (mine, me) ∈ state.live) (isAt : At tid index) :
    Ensures InsideTables (fun _ => True)
      (state.kalSuspendThread nil me fuel tid) := by
  obtain ⟨-, -, -, -, -, pid, -⟩ := sound.lookups member
  unfold Threads.kalSuspendThread
  rw [pid]
  simp only [Machine.andThen, sound.served.prcGetNativeID, entry_of_at isAt]
  split
  · trivial
  · exact Ensures.bind (ensures_tibOf state isAt) fun _ _ => trivial

theorem kalCreateThread (member : ∃ tid, (tid, me) ∈ state.live) {new : NewThread}
    (same : taskEqual me new.native) (some : new.native ≠ nil)
    (more : state.ulThread.toNat < MAX_TID)
    (fresh : ∀ i, record.tidArray i ≠ new.native) :
    Ensures InsideTables (fun state' =>
        ∃ record', state'.Sound nil fuel proc record')
      (state.kalCreateThread nil me fuel (Option.some new)) := by
  obtain ⟨mine, member⟩ := member
  obtain ⟨-, -, -, -, -, pid, -⟩ := sound.lookups member
  have whole := sound.task_eq member same
  let index : Fin MAX_TID := ⟨state.ulThread.toNat, more⟩
  have isAt : At (state.ulThread + 1) index := by
    rw [At, UInt32.add_sub_cancel]
  unfold Threads.kalCreateThread
  rw [pid]
  apply Ensures.andThen (sound.served.ensures_prcNewTIB isAt new.memory)
  intro server served
  have after := sound.entered_next rfl whole some fresh served
  have still := List.mem_append_left [(state.ulThread + 1, new.native)] member
  apply Ensures.andThen ((after state.ptib).kalGetTIB still isAt new.attached)
  intro ptib _
  apply Ensures.andThen (ensures_tibOf _ isAt)
  intro tib _
  split
  · apply Ensures.andThen ((after ptib).kalSuspendThread still isAt)
    exact fun _ _ => ⟨_, after ptib⟩
  · exact ⟨_, after ptib⟩

theorem threadFunc (member : ∃ tid, (tid, me) ∈ state.live) :
    Ensures InsideTables (fun _ => True) (state.threadFunc me fuel) := by
  obtain ⟨mine, member⟩ := member
  obtain ⟨index, rfl, -, -, -, pid, found⟩ := sound.lookups member
  have isAt := at_tidAt index
  unfold Threads.threadFunc
  rw [pid, found]
  simp only [Machine.andThen, sound.served.prcGetNativeID, entry_of_at isAt]
  exact Ensures.bind (ensures_tibOf state isAt) fun _ _ => trivial

theorem serve (valid : state.Valid nil me call) (allowed : state.Allowed call) :
    Ensures InsideTables (fun outcome => ∀ state', outcome = some state' →
        ∃ record', state'.Sound nil fuel proc record')
      (state.serve nil me fuel call) := by
  obtain ⟨member, maker⟩ := valid
  cases call with
  | create new =>
    cases new with
    | none =>
      intro state' equal
      cases equal
      exact ⟨record, sound⟩
    | some new =>
      obtain ⟨same, some⟩ := maker new rfl
      obtain ⟨more, fresh⟩ := allowed
      have own := sound.task_eq member.choose_spec same
      have fresh := fresh proc record sound.served.live own
      apply Ensures.andThen (sound.kalCreateThread member same some more fresh)
      intro state' kept other equal
      cases equal
      exact kept
  | begin =>
    apply Ensures.andThen (sound.threadFunc member)
    intro found _ state' equal
    cases equal
    exact ⟨record, sound⟩
  | exit action =>
    obtain ⟨tid, member⟩ := member
    exact sound.kalExit member action
  | kill tid rc =>
    obtain ⟨low, high, ended⟩ := allowed
    apply Ensures.andThen (sound.kalKillThread member low high ended)
    intro answer kept state' equal
    cases equal
    exact kept

end

end Sound

end Threads

end

/-!
## Runs of a process with threads

As long as there are thread ids left and threads that end leave their place, the
tables lead from the threads that run to their ids and back.  The counter is
never set back, so the ids come to an end however few threads run.
-/

open Machine Os2srv
open Prcmgr (Thread taskEqual)

namespace Threads

variable {nil : Thread} {fuel : Nat} {start state : Threads} {proc : Nat} {record : OS2Process}

/-- The first thread of a process. -/
def firstNative : Thread := ⟨1, 1⟩

/-- The record of a process with one thread. -/
def firstRecord : OS2Process := { OS2Process.blank with
    pid := 1
    task := firstNative
    tibArray := fun index => if index.val = 0 then some 0 else none
    tidArray := fun index => if index.val = 0 then firstNative else ⟨0, 0⟩ }

/-- A process with one thread. -/
def firstThread : Threads where
  server := { ProcServer.initial ⟨0, 0⟩ with
      procs := Heap.empty.malloc firstRecord
      tibs := Heap.empty.malloc ⟨none, none, some 1⟩
      procRoot := some 0 }
  ulThread := 1
  ptib := fun _ => none
  live := [(1, firstNative)]

theorem firstThread_started : firstThread.Started ⟨0, 0⟩ 2 0 firstRecord where
  served :=
    { live := rfl
      byPid := rfl
      byTask := by
        intro thread same
        have live : firstThread.server.procs.objects 0 = some firstRecord := rfl
        have root : firstThread.server.procRoot = some 0 := rfl
        unfold ProcServer.prcGetProcNative
        simp only [root, Heap.find, Heap.read_of_live live, same] }
  task := by decide
  tidArray := rfl
  counted := by decide
  live := rfl
  ulThread := rfl

/-- A thread that the first thread makes. -/
def secondThread : NewThread where
  native := ⟨1, 2⟩
  memory := true
  attached := some 4096
  suspended := false

theorem exists_second : ∃ state, AllowedStep ⟨0, 0⟩ 2 firstThread state ∧
    state.live = [(1, firstNative), (2, ⟨1, 2⟩)] := by
  refine ⟨_, ⟨firstNative, .create (some secondThread), ⟨⟨1, ?_⟩, ?_⟩, ⟨by decide, ?_⟩, rfl⟩, rfl⟩
  · exact List.mem_singleton_self _
  · rintro new equal
    cases equal
    decide
  · intro proc record isThere same index
    have first : proc = 0 := by
      by_contra other
      rw [firstThread, Heap.malloc_objects_of_ne firstRecord other] at isThere
      cases isThere
    subst first
    cases isThere
    dsimp only [firstRecord]
    split
    · decide
    · decide

/-- The block of the first thread is there. -/
def HasBlock (state : Threads) (record : OS2Process) : Prop :=
  ∃ ptib tib, record.tibArray ⟨0, by decide⟩ = some ptib ∧ state.server.tibs.objects ptib = some tib

/-- The thread that is made and ended over and over. -/
def another (native : Thread) : NewThread where
  native := native
  memory := true
  attached := some 4096
  suspended := false

/-- The state when the next thread is made. -/
def withAnother (state : Threads) (proc : Nat) (record : OS2Process)
    (native : Thread) (index : Fin MAX_TID) : Threads where
  server := state.server.withTables proc (Function.update record.tidArray index native)
    (Function.update record.tibArray index (some state.server.tibs.fresh))
    ((state.server.tibs.malloc ⟨none, none, none⟩).change state.server.tibs.fresh
      fun tib => { tib with ultid := some (state.ulThread + 1) })
  ulThread := state.ulThread + 1
  ptib := Function.update state.ptib index (some 4096)
  live := state.live ++ [(state.ulThread + 1, native)]

/-- The state when a thread has ended. -/
def ended (nil : Thread) (state : Threads) (proc : Nat) (record : OS2Process)
    (native : Thread) (index : Fin MAX_TID) : Threads :=
  without { state with
      server := state.server.withTables proc (Function.update record.tidArray index nil)
        (Function.update record.tibArray index none)
        (ProcServer.freeMem state.server.tibs (record.tibArray index)) } native

theorem Sound.exit (sound : state.Sound nil fuel proc record) {native : Thread}
    {index : Fin MAX_TID} (member : (tidAt index, native) ∈ state.live)
    (notFirst : tidAt index ≠ 1) :
    state.serve nil native fuel (.exit 0) =
      some (.ok (some (state.ended nil proc record native index))) := by
  obtain ⟨-, -, -, -, -, pid, tid⟩ := sound.lookups member
  have other : ¬ ((0 : UInt32) = 1 ∨ tidAt index = 1) := not_or.mpr ⟨by decide, notFirst⟩
  simp only [Threads.serve, Threads.kalExit, pid, tid, andThen, if_neg other,
    Threads.kalDestroyTIB, sound.served.prcDestroyTIB (at_tidAt index)]
  rfl

namespace Alone

variable {native : Thread} {index : Fin MAX_TID}

section

variable (alone : state.Alone nil fuel proc record)

include alone

theorem withAnother_sound (next : state.ulThread.toNat = index.val)
    (same : taskEqual record.task native) (some : native ≠ nil)
    (other : record.task ≠ native) :
    (state.withAnother proc record native index).Sound nil fuel proc { record with
        tidArray := Function.update record.tidArray index native
        tibArray := Function.update record.tibArray index
          (Option.some state.server.tibs.fresh) } := by
  apply alone.sound.entered_next next same some
  · intro i
    rw [alone.tidArray]
    dsimp only
    split
    · exact other
    · exact some.symm
  · exact alone.served.withTables _ _ _

section

variable (block : state.HasBlock record)

include block

theorem create (next : state.ulThread.toNat = index.val)
    (same : taskEqual record.task native) (some : native ≠ nil)
    (other : record.task ≠ native) :
    state.serve nil record.task fuel (.create (Option.some (another native))) =
      Option.some (.ok (Option.some
        (state.withAnother proc record native index))) := by
  have after := alone.withAnother_sound next same some other
  obtain ⟨ptib, tib, found, there⟩ := block
  have isAt : At (state.ulThread + 1) index := by
    rw [At, UInt32.add_sub_cancel, next]
  have behind : (⟨0, by decide⟩ : Fin MAX_TID) ≠ index := by
    intro equal
    have counted := alone.counted
    rw [next, ← equal] at counted
    exact absurd counted (by simp)
  have mine : ((1 : UInt32), record.task) ∈
      (state.withAnother proc record native index).live := by
    rw [withAnother, alone.live]
    exact List.mem_cons_self ..
  have first : At (tidIn (Function.update record.tidArray index native)
      record.task) ⟨0, by decide⟩ := by
    obtain ⟨-, -, -, -, found, -⟩ := after.lookups mine
    rw [found]
    rfl
  have kept : Function.update record.tibArray index
      (Option.some state.server.tibs.fresh) ⟨0, by decide⟩ = Option.some ptib :=
    (Function.update_of_ne behind ..).trans found
  have stays : (state.withAnother proc record native index).server.tibs.objects
      ptib = Option.some tib := by
    rw [withAnother, ProcServer.withTables, Heap.change_objects_of_ne _
      (Nat.ne_of_lt (Heap.lt_fresh there)), Heap.malloc_objects_of_live _ there]
  have shared := after.served.cpGetTIB_of_live (by simp [taskEqual]) first kept stays
  obtain ⟨-, -, -, -, -, pid, -⟩ := alone.sound.lookups
    (show ((1 : UInt32), record.task) ∈ state.live by
      rw [alone.live]
      exact List.mem_singleton_self _)
  have stored := @entry_of_at _ (Function.update state.ptib index (Option.some 4096)) _ _ isAt
  rw [Function.update_self] at stored
  unfold withAnother at shared
  unfold serve kalCreateThread
  simp only [pid, andThen, another, alone.served.prcNewTIB isAt, kalGetTIB,
    shared, setEntry_of_at isAt, tibOf, stored, bind_ok, pure_eq_ok]
  rfl

theorem exit (next : state.ulThread.toNat = index.val)
    (same : taskEqual record.task native) (some : native ≠ nil)
    (other : record.task ≠ native) :
    ∃ state', (state.withAnother proc record native index).serve nil native fuel
        (.exit 0) = Option.some (.ok (Option.some state')) ∧
      state'.ulThread = state.ulThread + 1 ∧
      ∃ record', state'.Alone nil fuel proc record' ∧
        state'.HasBlock record' ∧ record'.task = record.task := by
  have after := alone.withAnother_sound next same some other
  have counted := alone.counted
  have bound : index.val < 128 := index.isLt
  obtain ⟨ptib, tib, found, there⟩ := block
  have isLast : state.ulThread + 1 = tidAt index := by
    apply UInt32.toNat_inj.mp
    rw [toNat_tidAt, UInt32.toNat_add, UInt32.toNat_one]
    omega
  have mine : (tidAt index, native) ∈
      (state.withAnother proc record native index).live := by
    simp [withAnother, isLast]
  have notFirst : tidAt index ≠ 1 := by
    rw [ne_eq, ← UInt32.toNat_inj, toNat_tidAt, UInt32.toNat_one]
    omega
  have behind : (⟨0, by decide⟩ : Fin MAX_TID) ≠ index := by
    intro equal
    rw [next, ← equal] at counted
    exact absurd counted (by simp)
  have table : Function.update (Function.update record.tidArray index native)
      index nil = record.tidArray := by
    have empty : record.tidArray index = nil := by
      rw [alone.tidArray]
      exact if_neg (by omega)
    rw [Function.update_idem, ← empty, Function.update_eq_self]
  refine ⟨_, after.exit mine notFirst, rfl, _,
    ⟨after.served.withTables _ _ _, alone.task, table.trans alone.tidArray, ?_,
      ?_⟩, ⟨ptib, tib, ?_, ?_⟩, rfl⟩
  · have value := congrArg UInt32.toNat isLast
    rw [toNat_tidAt] at value
    have counted : 1 ≤ (state.ulThread + 1).toNat := by omega
    exact counted
  · have alive : (withAnother state proc record native index).live =
        [(1, record.task), (state.ulThread + 1, native)] := by
      rw [withAnother, alone.live]
      rfl
    simp [ended, without, alive, other]
  · refine (Function.update_of_ne behind ..).trans ?_
    exact (Function.update_of_ne behind ..).trans found
  · have fresh := Nat.ne_of_lt (Heap.lt_fresh there)
    have freed : Function.update record.tibArray index (Option.some state.server.tibs.fresh) index =
          Option.some state.server.tibs.fresh := Function.update_self ..
    simp only [ended, without, withAnother, ProcServer.withTables, freed,
      ProcServer.freeMem, Heap.remove_objects_of_ne fresh,
      Heap.change_objects_of_ne _ fresh, Heap.malloc_objects_of_live _ there]

theorem cycle (more : state.ulThread.toNat < MAX_TID)
    (same : taskEqual record.task native) (some : native ≠ nil)
    (other : record.task ≠ native) :
    ∃ state', RunsTo (Step nil fuel) state state' ∧
      state'.ulThread.toNat = state.ulThread.toNat + 1 ∧
      ∃ record', state'.Alone nil fuel proc record' ∧
        state'.HasBlock record' ∧ record'.task = record.task := by
  let index : Fin MAX_TID := ⟨state.ulThread.toNat, more⟩
  have made := alone.create block (show _ = index.val from rfl) same some other
  obtain ⟨state', ends, counter, after⟩ :=
    alone.exit block (show _ = index.val from rfl) same some other
  have first : (1, record.task) ∈ state.live := by
    rw [alone.live]
    exact List.mem_singleton_self _
  have second : (state.ulThread + 1, native) ∈
      (state.withAnother proc record native index).live := by
    simp [withAnother]
  have validFirst : state.Valid nil record.task
      (.create (Option.some (another native))) := by
    refine ⟨⟨1, first⟩, fun new equal => ?_⟩
    cases equal
    exact ⟨same, some⟩
  have validSecond : (state.withAnother proc record native index).Valid nil native
      (.exit 0) := by
    refine ⟨⟨_, second⟩, fun new equal => ?_⟩
    cases equal
  refine ⟨state', (Relation.ReflTransGen.single ⟨_, _, validFirst, made⟩).tail
    ⟨_, _, validSecond, ends⟩, ?_, after⟩
  have bound : state.ulThread.toNat < 128 := more
  rw [counter, UInt32.toNat_add, UInt32.toNat_one]
  omega

theorem cycles (same : taskEqual record.task native)
    (some : native ≠ nil) (other : record.task ≠ native) (count : Nat)
    (fits : state.ulThread.toNat + count ≤ MAX_TID) :
    ∃ state', RunsTo (Step nil fuel) state state' ∧
      state'.ulThread.toNat = state.ulThread.toNat + count ∧
      ∃ record', state'.Alone nil fuel proc record' ∧
        state'.HasBlock record' ∧ record'.task = record.task := by
  induction count with
  | zero => exact ⟨state, .refl, rfl, record, alone, block, rfl⟩
  | succ count ih =>
    obtain ⟨middle, run, counter, between, aloneThen, blockThen, task⟩ := ih (by omega)
    obtain ⟨last, more, counter', after, aloneLast, blockLast, taskLast⟩ :=
      aloneThen.cycle blockThen (by omega) (task ▸ same) some (task ▸ other)
    exact ⟨last, run.trans more, by omega, after, aloneLast, blockLast, taskLast.trans task⟩

end

theorem create_outside (full : state.ulThread.toNat = MAX_TID) :
    state.serve nil record.task fuel (.create (Option.some (another native))) =
      Option.some (.error .writeOutside) := by
  have first : (1, record.task) ∈ state.live := by
    rw [alone.live]
    exact List.mem_singleton_self _
  obtain ⟨-, -, -, -, -, pid, -⟩ := alone.sound.lookups first
  have outside : ¬ (state.ulThread + 1 - 1).toNat < MAX_TID := by
    rw [UInt32.add_sub_cancel, full]
    exact Nat.lt_irrefl _
  simp only [serve, kalCreateThread, pid, andThen, another,
    ProcServer.prcNewTIB, alone.served.byPid, ProcServer.prcCreateTIB, if_true,
    bind_ok, alone.served.deref, setEntry, dif_neg outside, bind_error]

theorem exists_outside (block : state.HasBlock record) (same : taskEqual record.task native)
    (some : native ≠ nil) (other : record.task ≠ native)
    (fits : state.ulThread.toNat ≤ MAX_TID) :
    ∃ state', RunsTo (Step nil fuel) state state' ∧ state'.live = [(1, record.task)] ∧
      state'.serve nil record.task fuel (.create (Option.some (another native))) =
          Option.some (.error .writeOutside) := by
  obtain ⟨state', run, counter, record', aloneThen, -, task⟩ :=
    alone.cycles block same some other (MAX_TID - state.ulThread.toNat) (by omega)
  have full : state'.ulThread.toNat = MAX_TID := by omega
  refine ⟨state', run, task ▸ aloneThen.live, ?_⟩
  rw [← task]
  exact aloneThen.create_outside full

end

end Alone

end Threads

end OsFree.Kal
