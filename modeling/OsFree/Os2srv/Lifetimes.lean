import OsFree.Machine.Transition
import OsFree.Os2srv.ProcessList

/-!
# Processes that live

A process lives from the call that makes it to the call that ends it.  The list
holds the live processes as long as the first of them stays, every process has
an environment or a parent that lives, and no process outlives its parent.
-/

namespace OsFree.Os2srv

open Machine
open Prcmgr (Thread taskEqual)

/-- The server, and the addresses of the live processes. -/
structure Lives where
  server : ProcServer
  live : List Nat

/-- A call that makes, marks or ends a process. -/
inductive ProcCall where
  | create (room : Room) (ppid : UInt32) (pPrg : List UInt8)
      (pArg pEnv : Option (List (List UInt8)))
  | storeTask (proc : Nat) (task : Thread)
  | destroy (proc : Nat)
  /-- A thread of the process calls `DosExit`. -/
  | exit (proc : Nat) (thread : Thread) (result : UInt32)

namespace ProcServer

variable (server : ProcServer)

/-- The process number of the record at an address. -/
def pidAt (address : Nat) : Option UInt32 :=
  (server.procs.objects address).map fun proc => UInt32.ofInt proc.pid

/-- The task of the record at an address. -/
def taskAt (address : Nat) : Option Thread := (server.procs.objects address).map OS2Process.task

/-- The number of the parent of the process at an address. -/
def ppidAt (address : Nat) : Option UInt32 := do
  let proc ← server.procs.objects address
  let lxPib ← proc.lxPib
  let pib ← server.pibs.objects lxPib
  pure pib.ulppid

/-- The number of a record and the place of its information block. -/
def keyAt (address : Nat) : Option (Int × Pointer) :=
  (server.procs.objects address).map fun proc => (proc.pid, proc.lxPib)

end ProcServer

namespace Lives

/-- No process lives yet. -/
def initial (sysinitId : Thread) : Lives where
  server := ProcServer.initial sysinitId
  live := []

variable (lives : Lives)

/-- The list holds the live processes, each once, and they are found by their
numbers, which differ. -/
structure Good : Prop where
  linked : processLinks.WellLinked lives.server.procs lives.server.procRoot lives.live
  unique : ∀ address ∈ lives.live, ∀ other ∈ lives.live,
    lives.server.pidAt address = lives.server.pidAt other → address = other
  found : ∀ pid address, (∃ fuel, lives.server.prcGetProc pid fuel = some (.ok (some address))) ↔
      address ∈ lives.live ∧ lives.server.pidAt address = some pid

/-- What the call comes to: the process that it has made, and the server. -/
def run (call : ProcCall) (fuel : Nat) : Option (Run (Pointer × ProcServer)) :=
  match call with
  | .create room ppid pPrg pArg pEnv =>
    lives.server.prcCreate room ppid pPrg pArg pEnv fuel
  | .storeTask proc task => some ((none, ·) <$> lives.server.storeTask proc task)
  | .destroy proc => some ((none, ·) <$> lives.server.prcDestroy proc)
  | .exit _ thread result =>
    andThen (lives.server.cpExit thread result fuel) fun outcome =>
      some (.ok (none, outcome.2))

/-- Which processes live after the call. -/
def liveAfter (call : ProcCall) (created : Pointer) : List Nat :=
  match call with
  | .create .. => lives.live ++ created.toList
  | .storeTask .. => lives.live
  | .destroy proc => lives.live.erase proc
  | .exit proc .. => lives.live.erase proc

/-- The call is about a live process, and a thread that ends a process belongs
to it. -/
def Valid : ProcCall → Prop
  | .create .. => True
  | .storeTask proc _ => proc ∈ lives.live
  | .destroy proc => proc ∈ lives.live
  | .exit proc thread _ => proc ∈ lives.live ∧
      (lives.server.taskAt proc).any (taskEqual · thread) = true

/-- A call is made, and returns. -/
def Does (call : ProcCall) (lives' : Lives) : Prop := lives.Valid call ∧ ∃ fuel created,
    lives.run call fuel = some (.ok (created, lives'.server)) ∧
      lives'.live = lives.liveAfter call created

/-- The call returns, and the list holds what lives then. -/
def Keeps (call : ProcCall) : Prop := ∃ lives', lives.Does call lives' ∧ lives'.Good

/-- A process number is left and there is memory for the blocks of a new process,
which has an environment or a live parent.  A process that is destroyed is not
the first one.  A process that exits is the first of its task, and its parent
lives. -/
def Allowed : ProcCall → Prop
  | .create room ppid _ _ pEnv => room.record = none ∨
      lives.server.pid < 2147483647 ∧ room.pib = true ∧ room.tib = true ∧
        ((∃ string strings, pEnv = some (string :: strings)) ∨
          ∃ parent ∈ lives.live, lives.server.pidAt parent = some ppid)
  | .storeTask .. => True
  | .destroy proc => lives.server.procRoot ≠ some proc
  | .exit proc thread _ =>
    lives.live.find? (fun address =>
      (lives.server.taskAt address).any (taskEqual · thread)) = some proc ∧
    (∃ parent ∈ lives.live, lives.server.pidAt parent = lives.server.ppidAt proc) ∧
    lives.server.procRoot ≠ some proc

/-- A step of a run whose calls are allowed. -/
def AllowedStep (lives lives' : Lives) : Prop := ∃ call, lives.Allowed call ∧ lives.Does call lives'

/-! ## The invariant -/

/-- The live processes are linked; each has a number that has been given out and
an information block of its own. -/
structure Sound : Prop where
  linked : processLinks.WellLinked lives.server.procs lives.server.procRoot lives.live
  held : ∀ address ∈ lives.live, ∃ pid lxPib pib,
    lives.server.keyAt address = some (pid, some lxPib) ∧ 0 ≤ pid ∧
      pid ≤ lives.server.pid ∧ lives.server.pibs.objects lxPib = some pib
  apart : ∀ address ∈ lives.live, ∀ other ∈ lives.live, ∀ key key',
    lives.server.keyAt address = some key → lives.server.keyAt other = some key' →
      key.1 = key'.1 ∨ key.2 = key'.2 → address = other
  bound : -1 ≤ lives.server.pid ∧ lives.server.pid < 2147483648

variable {lives}

theorem initial_sound (sysinitId : Thread) : (initial sysinitId).Sound where
  linked := rfl
  held := by simp [initial]
  apart := by simp [initial]
  bound := by simp [initial, ProcServer.initial]

end Lives

namespace ProcServer

variable {server server' : ProcServer} {addresses : List Nat} {address : Nat}

theorem pidAt_eq (address : Nat) : server.pidAt address =
      (server.keyAt address).map fun key => UInt32.ofInt key.1 := by
  rw [pidAt, keyAt, Option.map_map]
  rfl

theorem prcGetProc_settles (linked : processLinks.WellLinked server.procs server.procRoot addresses)
    (pid : UInt32) :
    Settles (server.prcGetProc pid)
      (.ok (addresses.find? fun address => server.pidAt address = some pid)) := by
  have settles := linked.find_settles fun proc => UInt32.ofInt proc.pid = pid
  have same : (fun address => (server.procs.objects address).any
      fun proc => decide (UInt32.ofInt proc.pid = pid)) =
        fun address => decide (server.pidAt address = some pid) := by
    funext address
    unfold pidAt
    cases server.procs.objects address with
    | none => simp
    | some proc => simp
  rw [same] at settles
  exact settles

theorem prcGetProcNative_settles
    (linked : processLinks.WellLinked server.procs server.procRoot addresses)
    (thread : Thread) :
    Settles (server.prcGetProcNative thread) (.ok (addresses.find? fun address =>
        (server.taskAt address).any (taskEqual · thread))) := by
  have settles := linked.find_settles fun proc => taskEqual proc.task thread
  have same : (fun address => (server.procs.objects address).any
      fun proc => taskEqual proc.task thread) =
        fun address => (server.taskAt address).any (taskEqual · thread) := by
    funext address
    unfold taskAt
    cases server.procs.objects address with
    | none => rfl
    | some proc => rfl
  rw [same] at settles
  exact settles

theorem ofInt_inj {pid pid' : Int} (nonneg : 0 ≤ pid) (nonneg' : 0 ≤ pid')
    (small : pid < 4294967296) (small' : pid' < 4294967296)
    (equal : UInt32.ofInt pid = UInt32.ofInt pid') : pid = pid' := by
  have values := congrArg UInt32.toNat equal
  rw [toNat_ofInt, toNat_ofInt] at values
  omega

end ProcServer

namespace Lives

variable {lives : Lives}

theorem Sound.unique (sound : lives.Sound) : ∀ address ∈ lives.live, ∀ other ∈ lives.live,
      lives.server.pidAt address = lives.server.pidAt other →
        address = other := by
  intro address member other member' equal
  obtain ⟨pid, lxPib, pib, key, nonneg, most, -⟩ := sound.held address member
  obtain ⟨pid', lxPib', pib', key', nonneg', most', -⟩ := sound.held other member'
  have bound := sound.bound.2
  rw [ProcServer.pidAt_eq, ProcServer.pidAt_eq, key, key'] at equal
  have same := ProcServer.ofInt_inj nonneg nonneg' (by omega) (by omega) (Option.some.inj equal)
  exact sound.apart address member other member' _ _ key key' (Or.inl same)

theorem Sound.find_iff (sound : lives.Sound) (pid : UInt32) (address : Nat) :
    (lives.live.find? fun address => lives.server.pidAt address = some pid) = some address ↔
      address ∈ lives.live ∧ lives.server.pidAt address = some pid := by
  constructor
  · intro found
    exact ⟨List.mem_of_find?_eq_some found, by
      simpa using List.find?_some found⟩
  · rintro ⟨member, number⟩
    cases found : lives.live.find? fun address =>
        lives.server.pidAt address = some pid with
    | none =>
      have nobody := List.find?_eq_none.mp found address member
      simp [number] at nobody
    | some other =>
      have passes : lives.server.pidAt other = some pid := by
        simpa using List.find?_some found
      rw [sound.unique other (List.mem_of_find?_eq_some found) address member
        (passes.trans number.symm)]

theorem Sound.good (sound : lives.Sound) : lives.Good where
  linked := sound.linked
  unique := sound.unique
  found := by
    intro pid address
    have settles := ProcServer.prcGetProc_settles sound.linked pid
    rw [settles.exists_iff (some address), Except.ok.injEq]
    exact sound.find_iff pid address

end Lives

/-!
## What a call does to the live processes

Every call comes to an end on a sound list.  If it is allowed the list is sound
again, and otherwise it does not hold what lives.
-/

theorem ignored_key : processLinks.Ignored
    fun proc : OS2Process => (proc.pid, proc.lxPib) where
  setNext _ _ := rfl
  setPrev _ _ := rfl

namespace Lives

variable {lives lives' : Lives}

theorem Sound.of_kept (sound : lives.Sound) (linked : processLinks.WellLinked lives'.server.procs
      lives'.server.procRoot lives'.live)
    (fewer : ∀ address ∈ lives'.live, address ∈ lives.live)
    (keys : ∀ address ∈ lives'.live, lives'.server.keyAt address = lives.server.keyAt address)
    (blocks : ∀ address ∈ lives'.live, ∀ pid lxPib,
      lives.server.keyAt address = some (pid, some lxPib) →
        lives'.server.pibs.objects lxPib = lives.server.pibs.objects lxPib)
    (pid : lives'.server.pid = lives.server.pid) : lives'.Sound where
  linked := linked
  held := by
    intro address member
    obtain ⟨number, lxPib, pib, key, nonneg, most, block⟩ :=
      sound.held address (fewer address member)
    refine ⟨number, lxPib, pib, (keys address member).trans key, nonneg, ?_, ?_⟩
    · rw [pid]
      exact most
    · rw [blocks address member number lxPib key]
      exact block
  apart := by
    intro address member other member' key key' found found'
    rw [keys address member] at found
    rw [keys other member'] at found'
    exact sound.apart address (fewer address member) other (fewer other member')
      key key' found found'
  bound := by
    rw [pid]
    exact sound.bound

theorem Sound.change (sound : lives.Sound) (target : Nat) {f : OS2Process → OS2Process}
    (links : ∀ proc, (f proc).next = proc.next ∧ (f proc).prev = proc.prev)
    (keeps : ∀ proc, (f proc).pid = proc.pid ∧ (f proc).lxPib = proc.lxPib) :
    Sound { lives with server :=
      { lives.server with procs := lives.server.procs.change target f } } := by
  refine sound.of_kept (sound.linked.change target links) (fun _ => id) ?_
    (fun _ _ _ _ _ => rfl) rfl
  intro address _
  unfold ProcServer.keyAt
  by_cases here : address = target
  · rw [here, Heap.change_objects_self, Option.map_map]
    congr 1
    funext proc
    obtain ⟨pid, lxPib⟩ := keeps proc
    simp only [Function.comp_apply, pid, lxPib]
  · rw [Heap.change_objects_of_ne f here]

theorem Sound.record (sound : lives.Sound) {address : Nat} (member : address ∈ lives.live) :
    ∃ proc lxPib pib, lives.server.procs.objects address = some proc ∧
      proc.lxPib = some lxPib ∧ lives.server.pibs.objects lxPib = some pib := by
  obtain ⟨pid, lxPib, pib, key, -, -, block⟩ := sound.held address member
  obtain ⟨proc, found, equal⟩ := Option.map_eq_some_iff.mp key
  exact ⟨proc, lxPib, pib, found, congrArg Prod.snd equal, block⟩

/-! ## Storing the task -/

variable {proc : Nat}

theorem Sound.storeTask (sound : lives.Sound) (task : Thread) (member : proc ∈ lives.live) :
    ∃ server', lives.server.storeTask proc task = .ok server' ∧
      Sound { lives with server := server' } := by
  obtain ⟨record, -, -, found, -⟩ := sound.record member
  refine ⟨_, ?_, sound.change proc (f := fun record => { record with task })
    (fun _ => ⟨rfl, rfl⟩) fun _ => ⟨rfl, rfl⟩⟩
  rw [ProcServer.storeTask, Heap.modify_of_live found]
  rfl

/-! ## Destroying a process -/

theorem not_linked_of_erased {heap : Heap OS2Process} {live : List Nat} (different : live.Nodup)
    (linked : processLinks.WellLinked heap (some proc) (live.erase proc)) :
    False := by
  have head := linked.head_eq
  have member : proc ∈ live.erase proc := List.mem_of_head? head.symm
  exact (different.mem_erase_iff.mp member).1 rfl

theorem Sound.prcDestroy (sound : lives.Sound) (member : proc ∈ lives.live) :
    ∃ server', lives.server.prcDestroy proc = .ok server' ∧ server'.procs.objects proc = none ∧
      server'.procRoot = lives.server.procRoot ∧
      (lives.server.procRoot ≠ some proc →
        Sound { server := server', live := lives.live.erase proc }) := by
  have different := Links.nodup_of_linked sound.linked
  obtain ⟨record, lxPib, pib, found, stored, -⟩ := sound.record member
  obtain ⟨front, back, parts⟩ := List.append_of_mem member
  have linked := sound.linked
  rw [parts] at linked different
  obtain ⟨heap', head', unlinked, linked', sameHead, -, gone, -, alike⟩ :=
    Links.unlink_linked linked
  have outFront : proc ∉ front := fun inFront =>
    (List.nodup_append.mp different).2.2 proc inFront proc (List.mem_cons_self ..) rfl
  have erased : lives.live.erase proc = front ++ back := by
    rw [parts, List.erase_append_right _ outFront, List.erase_cons_head]
  have destroyed : lives.server.prcDestroy proc = .ok { lives.server with
      procs := heap'
      pibs := ProcServer.freeMem lives.server.pibs record.lxPib
      tibs := (List.finRange MAX_TID).foldl
        (fun tibs index => ProcServer.freeMem tibs (record.tibArray index))
        lives.server.tibs } := by
    rw [ProcServer.prcDestroy, Heap.read_of_live found, bind_ok, unlinked, bind_ok]
    rfl
  refine ⟨_, destroyed, gone, rfl, ?_⟩
  · intro notRoot
    have nonempty : front ≠ [] := by
      rintro rfl
      exact notRoot linked.head_eq
    have others : ∀ address ∈ lives.live.erase proc, address ≠ proc := by
      intro address inside
      exact ((Links.nodup_of_linked sound.linked).mem_erase_iff.mp inside).1
    have keys : ∀ address ∈ lives.live.erase proc,
        (heap'.objects address).map (fun proc => (proc.pid, proc.lxPib)) =
          lives.server.keyAt address := fun address inside =>
      alike address (others address inside) _ _ ignored_key
    refine sound.of_kept ?_ (fun _ => List.mem_of_mem_erase) keys ?_ rfl
    · rw [erased, ← sameHead nonempty]
      exact linked'
    · intro address inside pid block key
      rw [stored]
      apply Heap.remove_objects_of_ne
      rintro rfl
      have own : lives.server.keyAt proc = some (record.pid, some block) := by
        rw [ProcServer.keyAt, found, Option.map_some, stored]
      exact others address inside (sound.apart address
        (List.mem_of_mem_erase inside) proc member _ _ key own (Or.inr rfl))

/-! ## Leaving a process -/

theorem Sound.cpExit_settles (sound : lives.Sound) {thread : Thread} (result : UInt32)
    (native : lives.live.find? (fun address =>
      (lives.server.taskAt address).any (taskEqual · thread)) = some proc) :
    ∃ rc server', Settles (lives.server.cpExit thread result) (.ok (rc, server')) ∧
      (((¬ ∃ parent ∈ lives.live, lives.server.pidAt parent = lives.server.ppidAt proc) ∧
        server' = lives.server) ∨
      ((∃ parent ∈ lives.live, lives.server.pidAt parent = lives.server.ppidAt proc) ∧
        server'.procs.objects proc = none ∧
        server'.procRoot = lives.server.procRoot ∧
        (lives.server.procRoot ≠ some proc →
          Sound { server := server', live := lives.live.erase proc }))) := by
  have member := List.mem_of_find?_eq_some native
  obtain ⟨record, lxPib, pib, found, isStored, block⟩ := sound.record member
  have ppid : lives.server.ppidAt proc = some pib.ulppid := by
    simp [ProcServer.ppidAt, found, isStored, block]
  have searched := ProcServer.prcGetProcNative_settles sound.linked thread
  rw [native] at searched
  have number : (do
      let record ← lives.server.procs.read proc
      let lxPib ← stored record.lxPib
      Pib.ulppid <$> lives.server.pibs.read lxPib) = .ok pib.ulppid := by
    rw [Heap.read_of_live found, bind_ok, isStored, stored, bind_ok,
      Heap.read_of_live block, map_ok]
  have parents := ProcServer.prcGetProc_settles sound.linked pib.ulppid
  rw [ppid]
  cases parent : lives.live.find? fun address =>
      lives.server.pidAt address = some pib.ulppid with
  | none =>
    rw [parent] at parents
    refine ⟨2, lives.server, ?_, Or.inl ⟨?_, rfl⟩⟩
    · refine Settles.andThen searched ?_
      simp only [number]
      exact Settles.andThen (Settles.const _) (Settles.andThen parents (Settles.const _))
    · rintro ⟨other, inside, equal⟩
      have nobody := List.find?_eq_none.mp parent other inside
      simp [equal] at nobody
  | some other =>
    rw [parent] at parents
    have inside := List.mem_of_find?_eq_some parent
    obtain ⟨entry, -, -, entryFound, -⟩ := sound.record inside
    have notified := sound.change other
      (f := fun entry => { entry with
        termCode := result
        termSem := if lives.server.unblocks pib.ulppid entry
          then entry.termSem + 1 else entry.termSem })
      (fun _ => ⟨rfl, rfl⟩) fun _ => ⟨rfl, rfl⟩
    obtain ⟨server', destroyed, gone, root, left⟩ := notified.prcDestroy member
    refine ⟨0, server', ?_, Or.inr ⟨⟨other, inside, by
      simpa using List.find?_some parent⟩, gone, root, left⟩⟩
    refine Settles.andThen searched ?_
    simp only [number]
    refine Settles.andThen (Settles.const _) (Settles.andThen parents ?_)
    simp only [ProcServer.notifyParent, Heap.modify_of_live entryFound, map_ok, bind_ok, destroyed]
    exact Settles.const _

/-! ## Making a process -/

theorem Sound.added (sound : lives.Sound) {c : Nat} {server' : ProcServer} {info : Pib}
    (linked : processLinks.WellLinked server'.procs server'.procRoot (lives.live ++ [c]))
    (keys : ∀ address ∈ lives.live, server'.keyAt address = lives.server.keyAt address)
    (key : server'.keyAt c = some (lives.server.pid + 1, some lives.server.pibs.fresh))
    (blocks : server'.pibs = lives.server.pibs.malloc info)
    (pid : server'.pid = lives.server.pid + 1)
    (small : lives.server.pid < 2147483647) :
    Sound { server := server', live := lives.live ++ [c] } where
  linked := linked
  held := by
    intro address member
    cases List.mem_append.mp member with
    | inl member =>
      obtain ⟨number, lxPib, pib, old, nonneg, most, block⟩ := sound.held address member
      refine ⟨number, lxPib, pib, (keys address member).trans old, nonneg, ?_, ?_⟩
      · change number ≤ server'.pid
        omega
      · change server'.pibs.objects lxPib = some pib
        rw [blocks]
        exact Heap.malloc_objects_of_live info block
    | inr member =>
      cases List.mem_singleton.mp member
      refine ⟨_, _, info, key, ?_, ?_, ?_⟩
      · have bound := sound.bound
        omega
      · change _ ≤ server'.pid
        omega
      · change server'.pibs.objects _ = _
        rw [blocks, Heap.malloc_objects_fresh]
  apart := by
    have other : ∀ address ∈ lives.live, ∀ found,
        lives.server.keyAt address = some found → found.1 ≠ lives.server.pid + 1 ∧
            found.2 ≠ some lives.server.pibs.fresh := by
      intro address member found held
      obtain ⟨number, lxPib, pib, old, nonneg, most, block⟩ := sound.held address member
      rw [held] at old
      cases old
      refine ⟨by omega, ?_⟩
      intro same
      exact Nat.ne_of_lt (Heap.lt_fresh block) (Option.some.inj same)
    intro address member address' member' found found' held held' equal
    cases List.mem_append.mp member with
    | inl member =>
      rw [keys address member] at held
      cases List.mem_append.mp member' with
      | inl member' =>
        rw [keys address' member'] at held'
        exact sound.apart address member address' member' found found' held held' equal
      | inr member' =>
        cases List.mem_singleton.mp member'
        rw [key] at held'
        cases held'
        obtain ⟨number, block⟩ := other address member found held
        exact absurd equal (not_or.mpr ⟨number, block⟩)
    | inr member =>
      cases List.mem_singleton.mp member
      rw [key] at held
      cases held
      cases List.mem_append.mp member' with
      | inl member' =>
        rw [keys address' member'] at held'
        obtain ⟨number, block⟩ := other address' member' found' held'
        exact absurd equal (not_or.mpr ⟨number.symm, block.symm⟩)
      | inr member' => exact (List.mem_singleton.mp member').symm
  bound := by
    have bound := sound.bound
    change -1 ≤ server'.pid ∧ server'.pid < 2147483648
    omega

/-- A new process gets strings for its environment. -/
def HasStrings (pEnv : Option (List (List UInt8))) : Prop :=
  ∃ string strings, pEnv = some (string :: strings)

theorem environment_of_hasStrings {server : ProcServer}
    {pEnv : Option (List (List UInt8))} (strings : HasStrings pEnv)
    (parent : Option OS2Process) :
    ∃ env, server.environment parent pEnv = .ok env := by
  obtain ⟨string, strings, rfl⟩ := strings
  exact ⟨_, rfl⟩

theorem environment_of_parent {server : ProcServer}
    {pEnv : Option (List (List UInt8))} (empty : ¬ HasStrings pEnv)
    (parent : Option OS2Process) :
    server.environment parent pEnv = (match parent with
      | none => .error .nullPointer
      | some parent => do
          let lxPib ← stored parent.lxPib
          Pib.env <$> server.pibs.read lxPib) := by
  match pEnv with
  | none => rfl
  | some [] => rfl
  | some (string :: strings) => exact absurd ⟨string, strings, rfl⟩ empty

theorem inheritDir_links (parent : Option OS2Process) (ppid : UInt32) (pid : Int) (c : OS2Process) :
    (ProcServer.inheritDir parent ppid pid c).next = c.next ∧
      (ProcServer.inheritDir parent ppid pid c).prev = c.prev := by
  unfold ProcServer.inheritDir
  cases parent with
  | none => exact ⟨rfl, rfl⟩
  | some parent =>
    dsimp only
    split
    · exact ⟨rfl, rfl⟩
    · exact ⟨rfl, rfl⟩

/-- The record of a new process gets its number and its block, and keeps its
links. -/
theorem fillProcess_returns {server : ProcServer} {c : Nat} {room : Room}
    {pid : Int} {ppid : UInt32} {parentproc : Pointer}
    {parent : Option OS2Process} {pPrg : List UInt8}
    {pArg pEnv : Option (List (List UInt8))} {own : OS2Process}
    {env : List (List UInt8)} (isLive : server.procs.objects c = some own)
    (memory : room.pib = true ∧ room.tib = true)
    (read : server.readProc parentproc = .ok parent)
    (environment : server.environment parent pEnv = .ok env) :
    ∃ server' f info, server.fillProcess c room pid ppid parentproc pPrg pArg pEnv = .ok server' ∧
      server'.procs = server.procs.change c f ∧
      (∀ proc, (f proc).next = proc.next ∧ (f proc).prev = proc.prev) ∧
      (∀ proc, (f proc).pid = pid ∧ (f proc).lxPib = some server.pibs.fresh) ∧
      server'.procRoot = server.procRoot ∧
      server'.pibs = server.pibs.malloc info ∧ server'.pid = pid := by
  have filled : server.fillProcess c room pid ppid parentproc pPrg pArg pEnv = .ok { server with
        procs := server.procs.change c fun proc =>
          { ProcServer.inheritDir parent ppid pid proc with
            lxPib := some server.pibs.fresh
            tibArray := fun index =>
              if index.val = 0 then some server.tibs.fresh else none
            pid, ip := 0, sp := 0, hmte := 0, execSync := false }
        pibs := server.pibs.malloc
          { ulpid := UInt32.ofInt pid, ulppid := ppid, hmte := 0, prg := pPrg
            arg := pArg.getD [], env }
        tibs := server.tibs.malloc ⟨none, none, none⟩
        pid } := by
    rw [ProcServer.fillProcess, read, bind_ok, environment, bind_ok,
      if_pos memory, Heap.modify_of_live isLive]
    rfl
  exact ⟨_, _, _, filled, rfl, inheritDir_links parent ppid pid, fun _ => ⟨rfl, rfl⟩, rfl, rfl, rfl⟩

theorem readProc_cases {server : ProcServer} {live : List Nat} {c : Nat}
    (linked : processLinks.WellLinked server.procs server.procRoot
      (live ++ [c])) {ppid : UInt32} {parentproc : Pointer}
    (found : (live ++ [c]).find? (fun address =>
      server.pidAt address = some ppid) = parentproc) :
    ∃ parent, server.readProc parentproc = .ok parent ∧
      ((parent = none ∧ ¬ ∃ address ∈ live, server.pidAt address = some ppid) ∨
      ∃ address entry, parent = some entry ∧ server.procs.objects address = some entry ∧
        (address ∈ live ∧ server.pidAt address = some ppid ∨ address = c ∧ ¬ ∃ address ∈ live,
            server.pidAt address = some ppid)) := by
  rw [List.find?_append] at found
  cases inLive : live.find? fun address =>
      server.pidAt address = some ppid with
  | some address =>
    rw [inLive] at found
    cases found
    have member := List.mem_of_find?_eq_some inLive
    obtain ⟨entry, isLive⟩ := Links.live_of_linked linked address (List.mem_append_left _ member)
    refine ⟨some entry, ?_, Or.inr ⟨address, entry, rfl, isLive,
      Or.inl ⟨member, by simpa using List.find?_some inLive⟩⟩⟩
    simp [ProcServer.readProc, Heap.read_of_live isLive]
  | none =>
    have nobody : ¬ ∃ address ∈ live,
        server.pidAt address = some ppid := by
      rintro ⟨address, member, equal⟩
      have different := List.find?_eq_none.mp inLive address member
      simp [equal] at different
    rw [inLive, Option.none_or] at found
    cases parentproc with
    | none => exact ⟨none, rfl, Or.inl ⟨rfl, nobody⟩⟩
    | some address =>
      have same := List.mem_singleton.mp (List.mem_of_find?_eq_some found)
      obtain ⟨entry, isLive⟩ := Links.live_of_linked linked address
        (List.mem_append_right _ (List.mem_singleton.mpr same))
      refine ⟨some entry, ?_, Or.inr ⟨address, entry, rfl, isLive, Or.inr ⟨same, nobody⟩⟩⟩
      simp [ProcServer.readProc, Heap.read_of_live isLive]

theorem Sound.prcCreate_settles (sound : lives.Sound) {room : Room}
    {record : OS2Process} (given : room.record = some record) (ppid : UInt32)
    (pPrg : List UInt8) (pArg pEnv : Option (List (List UInt8))) :
    ∃ outcome, Settles (lives.server.prcCreate room ppid pPrg pArg pEnv) outcome ∧
      (lives.server.pid < 2147483647 ∧ room.pib = true ∧ room.tib = true ∧
          (HasStrings pEnv ∨ ∃ parent ∈ lives.live, lives.server.pidAt parent = some ppid) →
        ∃ server', outcome = .ok (some lives.server.procs.fresh, server') ∧
          Sound { server := server'
                  live := lives.live ++ [lives.server.procs.fresh] }) ∧
      (Returns outcome → lives.server.pid < 2147483647 ∧ room.pib = true ∧ room.tib = true ∧
          (HasStrings pEnv ∨ ∃ parent ∈ lives.live,
            lives.server.pidAt parent = some ppid)) := by
  have young : ∀ address ∈ lives.live, address ≠ lives.server.procs.fresh := by
    intro address member
    obtain ⟨entry, isLive⟩ := Links.live_of_linked sound.linked address member
    exact Nat.ne_of_lt (Heap.lt_fresh isLive)
  -- the record is in the list before anything else is looked at
  have linked : processLinks.WellLinked (lives.server.procs.malloc
      { record with termSem := 0, next := none, prev := none, lxPib := none })
      lives.server.procRoot lives.live :=
    Links.linkedTo_congr sound.linked fun address member =>
      Heap.malloc_objects_of_ne _ (young address member)
  obtain ⟨heap', appended, linked, -, -, alike⟩ := Links.append_linked linked
    (Heap.malloc_objects_fresh _) rfl rfl
    (fun member => young _ member rfl)
  by_cases small : lives.server.pid < 2147483647
  · have number : addInt lives.server.pid 1 = .ok (lives.server.pid + 1) := by
      rw [addInt_eq_ok_iff]
      have bound := sound.bound
      omega
    let server₁ : ProcServer := { lives.server with
      procs := heap'
      procRoot := some (lives.server.procRoot.getD lives.server.procs.fresh) }
    have keys : ∀ address ∈ lives.live,
        server₁.keyAt address = lives.server.keyAt address := by
      intro address member
      refine (alike address _ _ ignored_key).trans ?_
      rw [Heap.malloc_objects_of_ne _ (young address member)]
      rfl
    have key : server₁.keyAt lives.server.procs.fresh =
        some (record.pid, none) := by
      refine (alike _ _ _ ignored_key).trans ?_
      rw [Heap.malloc_objects_fresh]
      rfl
    have pids : ∀ address ∈ lives.live,
        server₁.pidAt address = lives.server.pidAt address := by
      intro address member
      rw [ProcServer.pidAt_eq, ProcServer.pidAt_eq, keys address member]
    have someParent : (∃ parent ∈ lives.live, server₁.pidAt parent = some ppid) ↔
          ∃ parent ∈ lives.live, lives.server.pidAt parent = some ppid :=
      exists_congr fun parent => and_congr_right fun member => by
        rw [pids parent member]
    have searched := @ProcServer.prcGetProc_settles server₁ _ linked ppid
    generalize parentproc_eq : (lives.live ++ [lives.server.procs.fresh]).find?
      (fun address => server₁.pidAt address = some ppid) = parentproc at searched
    obtain ⟨parent, read, cases⟩ := @readProc_cases server₁ _ _ linked _ _ parentproc_eq
    refine ⟨(some lives.server.procs.fresh, ·) <$> server₁.fillProcess
      lives.server.procs.fresh room (lives.server.pid + 1) ppid parentproc pPrg
      pArg pEnv, ?_, ?_, ?_⟩
    · unfold ProcServer.prcCreate
      simp only [given]
      refine Settles.andThen appended ?_
      simp only [number]
      exact Settles.andThen (Settles.const _) (Settles.andThen searched (Settles.const _))
    · rintro ⟨-, pib, tib, strings⟩
      have environment : ∃ env, server₁.environment parent pEnv = .ok env := by
        by_cases given : HasStrings pEnv
        · exact environment_of_hasStrings given parent
        · have known := someParent.mpr (strings.resolve_left given)
          obtain ⟨-, nobody⟩ | ⟨address, entry, rfl, isLive,
            ⟨member, -⟩ | ⟨-, nobody⟩⟩ := cases
          · exact absurd known nobody
          · obtain ⟨pid, lxPib, info, held, -, -, block⟩ := sound.held address member
            rw [← keys address member, ProcServer.keyAt, isLive] at held
            have isStored : entry.lxPib = some lxPib := congrArg Prod.snd (Option.some.inj held)
            refine ⟨info.env, ?_⟩
            rw [environment_of_parent given]
            simp only [isStored, stored, bind_ok]
            exact map_eq_ok_iff.mpr ⟨info, Heap.read_of_live block, rfl⟩
          · exact absurd known nobody
      obtain ⟨env, environment⟩ := environment
      obtain ⟨own, isLive, -⟩ := Option.map_eq_some_iff.mp key
      obtain ⟨server', f, info, filled, procs, links, stores, root, blocks,
        pid⟩ := @fillProcess_returns server₁ _ _ _ _ _ _ pPrg pArg _ _ _ isLive
          ⟨pib, tib⟩ read environment
      refine ⟨server', by rw [filled, map_ok], ?_⟩
      apply sound.added ?_ ?_ ?_ blocks pid small
      · rw [procs, root]
        exact linked.change _ links
      · intro address member
        refine Eq.trans ?_ (keys address member)
        unfold ProcServer.keyAt
        rw [procs, Heap.change_objects_of_ne _ (young address member)]
      · unfold ProcServer.keyAt
        rw [procs, Heap.change_objects_self, isLive, Option.map_some,
          Option.map_some, (stores own).1, (stores own).2]
    · rintro ⟨result, returned⟩
      obtain ⟨server', filled, -⟩ := map_eq_ok_iff.mp returned
      rw [ProcServer.fillProcess, read, bind_ok] at filled
      obtain ⟨env, environment, filled⟩ := bind_eq_ok_iff.mp filled
      by_cases memory : room.pib = true ∧ room.tib = true
      · refine ⟨small, memory.1, memory.2, ?_⟩
        by_cases given : HasStrings pEnv
        · exact Or.inl given
        · rw [environment_of_parent given] at environment
          obtain ⟨rfl, -⟩ | ⟨address, entry, rfl, isLive,
            ⟨member, equal⟩ | ⟨rfl, -⟩⟩ := cases
          · cases environment
          · exact Or.inr (someParent.mp ⟨address, member, equal⟩)
          · rw [ProcServer.keyAt, isLive] at key
            have unset : entry.lxPib = none := congrArg Prod.snd (Option.some.inj key)
            simp only [unset, stored, bind_error] at environment
            cases environment
      · rw [if_neg memory] at filled
        cases filled
  · refine ⟨.error .overflow, ?_, fun allowed => absurd allowed.1 small,
      fun returns => absurd returns (not_returns_error _)⟩
    have tooWide : addInt lives.server.pid 1 = .error .overflow := by
      rw [addInt, if_neg (by omega)]
    unfold ProcServer.prcCreate
    simp only [given]
    refine Settles.andThen appended ?_
    simp only [tooWide]
    exact Settles.const _

/-- What a call does to a sound list: if it is allowed the list is sound again,
and otherwise it does not hold what lives. -/
structure Answers (lives : Lives) (call : ProcCall) : Prop where
  allowed : lives.Allowed call → ∃ created server',
    Settles (lives.run call) (.ok (created, server')) ∧
      Sound { server := server', live := lives.liveAfter call created }
  refused : ¬ lives.Allowed call → ∀ lives', lives.Does call lives' → ¬ lives'.Good

section

variable (sound : lives.Sound)

include sound

theorem Sound.answers_create (room : Room) (ppid : UInt32)
    (pPrg : List UInt8) (pArg pEnv : Option (List (List UInt8))) :
    lives.Answers (.create room ppid pPrg pArg pEnv) := by
  cases given : room.record with
  | none =>
    have settles : Settles (lives.run (.create room ppid pPrg pArg pEnv))
        (.ok (none, lives.server)) := by
      apply Settles.of_forall
      intro fuel
      simp only [run, ProcServer.prcCreate, given]
    refine ⟨fun _ => ⟨none, lives.server, settles, ?_⟩, fun refused =>
      absurd (Or.inl given) refused⟩
    simpa [liveAfter] using sound
  | some record =>
    obtain ⟨outcome, settles, allowed, returned⟩ :=
      sound.prcCreate_settles given ppid pPrg pArg pEnv
    constructor
    · rintro (nothing | holds)
      · rw [given] at nothing
        cases nothing
      · obtain ⟨server', rfl, after⟩ := allowed holds
        exact ⟨_, server', settles, after⟩
    · rintro refused lives' ⟨-, fuel, created, done, -⟩ -
      have equal := settles.returned fuel _ done
      exact refused (Or.inr (returned ⟨_, equal.symm⟩))

variable {proc : Nat}

theorem Sound.answers_storeTask (task : Thread) (member : proc ∈ lives.live) :
    lives.Answers (.storeTask proc task) := by
  obtain ⟨server', isStored, after⟩ := sound.storeTask task member
  refine ⟨fun _ => ⟨none, server', ?_, after⟩, fun refused =>
    absurd trivial refused⟩
  apply Settles.of_forall
  intro fuel
  rw [run, isStored, map_ok]

theorem Sound.answers_destroy (member : proc ∈ lives.live) : lives.Answers (.destroy proc) := by
  obtain ⟨server', destroyed, -, root, after⟩ := sound.prcDestroy member
  constructor
  · intro notRoot
    refine ⟨none, server', ?_, after notRoot⟩
    apply Settles.of_forall
    intro fuel
    rw [run, destroyed, map_ok]
  · rintro isRoot lives' ⟨-, fuel, created, done, live⟩ good
    have equal : lives'.server = server' := by
      rw [run, destroyed, map_ok] at done
      exact (congrArg Prod.snd (Except.ok.inj (Option.some.inj done))).symm
    have linked := good.linked
    rw [live, equal, root, not_not.mp isRoot] at linked
    exact not_linked_of_erased (Links.nodup_of_linked sound.linked) linked

theorem Sound.answers_exit {thread : Thread} (result : UInt32) (member : proc ∈ lives.live)
    (own : (lives.server.taskAt proc).any (taskEqual · thread) = true) :
    lives.Answers (.exit proc thread result) := by
  obtain ⟨first, native⟩ : ∃ first, lives.live.find? (fun address =>
      (lives.server.taskAt address).any (taskEqual · thread)) = some first := by
    apply Option.isSome_iff_exists.mp
    exact List.find?_isSome.mpr ⟨proc, member, own⟩
  have inside := List.mem_of_find?_eq_some native
  have different := Links.nodup_of_linked sound.linked
  obtain ⟨rc, server', settles, outcome⟩ := sound.cpExit_settles result native
  have runs : Settles (lives.run (.exit proc thread result))
      (.ok (none, server')) :=
    Settles.andThen settles (Settles.const _)
  constructor
  · rintro ⟨isFirst, parent, notRoot⟩
    cases native.symm.trans isFirst
    obtain ⟨nobody, -⟩ | ⟨-, -, -, after⟩ := outcome
    · exact absurd parent nobody
    · exact ⟨none, server', runs, after notRoot⟩
  · rintro refused lives' ⟨-, fuel, created, done, live⟩ good
    have equal : lives'.server = server' :=
      congrArg Prod.snd (Except.ok.inj (runs.returned fuel _ done))
    have linked := good.linked
    rw [live, equal] at linked
    obtain ⟨-, rfl⟩ | ⟨parent, gone, root, -⟩ := outcome
    · have same := Links.WellLinked.unique linked sound.linked
      rw [← same] at member
      exact (different.mem_erase_iff.mp member).1 rfl
    · by_cases isFirst : first = proc
      · subst isFirst
        have isRoot : lives.server.procRoot = some first := by
          apply not_not.mp
          exact fun notRoot => refused ⟨native, parent, notRoot⟩
        rw [root, isRoot] at linked
        exact not_linked_of_erased different linked
      · obtain ⟨entry, isLive⟩ := Links.live_of_linked linked first
          (different.mem_erase_iff.mpr ⟨isFirst, inside⟩)
        rw [gone] at isLive
        cases isLive

theorem Sound.answers {call : ProcCall} (valid : lives.Valid call) : lives.Answers call := by
  cases call with
  | create room ppid pPrg pArg pEnv =>
    exact sound.answers_create room ppid pPrg pArg pEnv
  | storeTask proc task => exact sound.answers_storeTask task valid
  | destroy proc => exact sound.answers_destroy valid
  | exit proc thread result =>
    exact sound.answers_exit result valid.1 valid.2

theorem Sound.step (step : lives.AllowedStep lives') :
    lives'.Sound := by
  obtain ⟨call, allowed, valid, fuel, created, done, live⟩ := step
  obtain ⟨created', server', settles, after⟩ := (sound.answers valid).allowed allowed
  have equal := Except.ok.inj (settles.returned fuel _ done)
  obtain ⟨rfl, server⟩ := Prod.mk.inj equal
  obtain ⟨_, _⟩ := lives'
  cases server
  cases live
  exact after

theorem Sound.keeps_iff {call : ProcCall}
    (valid : lives.Valid call) : lives.Keeps call ↔ lives.Allowed call := by
  have answers := sound.answers valid
  constructor
  · rintro ⟨lives', does, good⟩
    apply not_not.mp
    exact fun refused => answers.refused refused lives' does good
  · intro allowed
    obtain ⟨created, server', settles, after⟩ := answers.allowed allowed
    obtain ⟨fuel, done⟩ := (settles.exists_iff (created, server')).mpr rfl
    exact ⟨_, ⟨valid, fuel, created, done, rfl⟩, after.good⟩

end

/-- The first process is made, with an environment of its own. -/
def firstCall : ProcCall :=
  .create ⟨some OS2Process.blank, true, true⟩ 0 [0x41] none (some [[0x50, 0x3d]])

theorem exists_firstProcess : ∃ lives, RunsTo AllowedStep (initial ⟨1, 0⟩) lives ∧ lives.Sound ∧
      lives.live = [0] := by
  have sound := initial_sound ⟨1, 0⟩
  have holds : (-1 : Int) < 2147483647 ∧ true = true ∧ true = true ∧
      (HasStrings (some [[0x50, 0x3d]]) ∨ ∃ parent ∈ (initial ⟨1, 0⟩).live,
        (initial ⟨1, 0⟩).server.pidAt parent = some 0) :=
    ⟨by decide, rfl, rfl, Or.inl ⟨_, _, rfl⟩⟩
  obtain ⟨outcome, settles, returned, -⟩ :=
    @Sound.prcCreate_settles _ sound ⟨some OS2Process.blank, true, true⟩ _ rfl 0 [0x41] none
      (some [[0x50, 0x3d]])
  obtain ⟨server', rfl, after⟩ := returned holds
  obtain ⟨fuel, done⟩ := (settles.exists_iff _).mpr rfl
  exact ⟨⟨server', [0]⟩, Relation.ReflTransGen.single
    ⟨firstCall, Or.inr holds, trivial, fuel, _, done, rfl⟩, after, rfl⟩

end Lives

end OsFree.Os2srv
