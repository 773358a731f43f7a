import OsFree.Prcmgr.Tasks

/-!
# Waiting threads are woken for their own children

While only one worker at a time waits on a record, the semaphore counts the
child of that worker, and the code in the record is that of the child once the
child has left.
-/

namespace OsFree.Prcmgr

namespace Worker

/-- What the record of the caller says to a worker that waits, or has waited. -/
structure Agrees (worker : Worker) (proc : Process) (status : Status) :
    Prop where
  woken : worker.stage ≠ .termDown → status.Signalled
  ready : worker.stage = .termDown → status.Signalled → proc.termSem ≠ 0
  flag : worker.stage = .termDown → ¬ status.Signalled → proc.execSync = true
  code : ∀ result, status.Stores result → proc.termCode = result

/-- The wait has come back once, or there has been none. -/
def CountsWakes (worker : Worker) : Prop := worker.wakes =
    if worker.Sync ∧ worker.stage ∈ [.clearSync, .readCode, .done] then 1 else 0

/-- The worker has not come to its wait yet, or it has no child to wait for. -/
structure Idle (worker : Worker) : Prop where
  waits : worker.stage ≠ .termDown
  flagged : worker.stage = .setSync → worker.execFlag = EXEC_SYNC
  woken : worker.Sync → worker.stage ∉ [.clearSync, .readCode, .done]

variable {worker : Worker}

theorem Inside.ne_done (inside : worker.Inside) : worker.stage ≠ .done := by
  intro done
  simp [Inside, done] at inside

theorem Idle.not_inside (idle : worker.Idle) : ¬ worker.Inside := by
  rintro ⟨sync, stage⟩
  have woken := idle.woken sync
  have waits := idle.waits
  simp_all

theorem Idle.countsWakes_iff (idle : worker.Idle) :
    worker.CountsWakes ↔ worker.wakes = 0 := by
  unfold CountsWakes
  rw [if_neg fun late => idle.woken late.1 late.2]

theorem CountsWakes.of_late (counts : worker.CountsWakes) {after : Worker}
    (late : worker.stage ∈ [.clearSync, .readCode, .done])
    (late' : after.stage ∈ [.clearSync, .readCode, .done])
    (wakes : after.wakes = worker.wakes) (sync : after.Sync ↔ worker.Sync) :
    after.CountsWakes := by
  unfold CountsWakes at counts ⊢
  rw [wakes, counts]
  simp only [late, late', sync]

theorem idle_of_early (early : worker.stage ∈ [.findPath, .prcCreate,
    .loaderExec, .getLoadError, .startupDown]) : worker.Idle := by
  constructor
  · intro here
    simp [here] at early
  · intro here
    simp [here] at early
  · intro _ late
    cases here : worker.stage <;> simp_all

theorem idle_of_setSync (here : worker.stage = .setSync)
    (sync : worker.execFlag = EXEC_SYNC) : worker.Idle where
  waits := by simp [here]
  flagged := fun _ => sync
  woken := by simp [here]

theorem idle_of_clearSync (here : worker.stage = .clearSync)
    (notSync : ¬ worker.Sync) : worker.Idle where
  waits := by simp [here]
  flagged := by simp [here]
  woken := fun sync => absurd sync notSync

theorem idle_of_syncStage (here : worker.stage = worker.syncStage) :
    worker.Idle := by
  unfold syncStage at here
  split at here
  · exact idle_of_setSync here ‹_›
  · exact idle_of_clearSync here fun sync => absurd sync.1 ‹_›

theorem executed_idle (worker : Worker) (rc : UInt32) :
    (worker.executed rc).Idle := by
  unfold executed
  split
  · exact idle_of_early (by simp)
  · exact idle_of_syncStage rfl

end Worker

/-- The two records tell waiting workers the same. -/
def SameSync (one two : Process) : Prop := one.termSem = two.termSem ∧ one.termCode = two.termCode ∧
    (one.execSync = true → two.execSync = true)

theorem Worker.Agrees.congr {worker : Worker} {one two : Process}
    {status : Status} (agrees : worker.Agrees one status) (same : SameSync one two) :
    worker.Agrees two status where
  woken := agrees.woken
  ready := fun waits signalled => same.1 ▸ agrees.ready waits signalled
  flag := fun waits running => same.2.2 (agrees.flag waits running)
  code := fun result stores => same.2.1 ▸ agrees.code result stores

namespace State

/-- A worker waits for its child in the way required. -/
structure WorkerPaired (state : State) (worker : Worker) : Prop where
  agrees : worker.Inside → ∀ proc, state.prcGetProc worker.proc = some proc →
    worker.Agrees proc (state.childStatus worker)
  flagged : worker.stage = .setSync → worker.execFlag = EXEC_SYNC
  sync : worker.stage = .termDown → worker.Sync
  wakes : worker.CountsWakes
  returned : worker.Sync → worker.stage = .done →
    state.childStatus worker = .signalled worker.pRes.codeResult

/-- A waiting worker whose child has left and has signalled the record. -/
def HasToken (state : State) (pid : Nat) (worker : Worker) : Prop :=
  worker.proc = pid ∧ worker.stage = .termDown ∧ (state.childStatus worker).Signalled

/-- Waiting workers and the children that have left are in pairs. -/
structure Paired (state : State) : Prop where
  alone : ∀ (i j : Nat) (one two : Worker), state.workers[i]? = some one →
    state.workers[j]? = some two → one.Inside → two.Inside → one.proc = two.proc → i = j
  tokens : ∀ pid proc, state.prcGetProc pid = some proc → proc.termSem ≠ 0 →
    proc.termSem = 1 ∧ ∃ (i : Nat) (worker : Worker),
      state.workers[i]? = some worker ∧ state.HasToken pid worker
  workers : ∀ worker ∈ state.workers, state.WorkerPaired worker
  left : ∀ frame, state.exiting = some frame → frame.stage ≠ .storeCode →
    ∀ parentproc, state.prcGetProc frame.ppid = some parentproc → parentproc.termCode = frame.result

variable {state state' : State} {index pid p lthread task : Nat} {stage : Stage}
  {worker after : Worker} {proc : Process} {f : Process → Process}

theorem Paired.start (sysinitId : Thread) (c : Process) : (start sysinitId c).Paired where
  alone := by
    intro i j one two found
    simp [State.start] at found
  tokens := by
    intro pid proc found token
    have member := mem_of_prcGetProc found
    rw [List.mem_singleton.mp member] at token
    exact absurd rfl token
  workers := by
    intro worker member
    cases member
  left := by
    intro frame entered
    cases entered

section

variable (paired : state.Paired) (sound : state.Sound)

include paired sound

theorem Paired.serves :
    state.ServesWaiters := by
  intro worker member sync
  have own := paired.workers worker member
  have agrees : worker.Inside → ∃ proc, state.prcGetProc worker.proc = some proc ∧
        worker.Agrees proc (state.childStatus worker) := by
    intro inside
    obtain ⟨proc, found⟩ := Option.ne_none_iff_exists'.mp (sound.alive worker member inside.ne_done)
    exact ⟨proc, found, own.agrees inside proc found⟩
  have counts := own.wakes
  exact
    { once := by
        rw [counts]
        split <;> decide
      after := by
        intro woken
        rw [counts] at woken
        split at woken
        · rename_i late
          by_cases done : worker.stage = .done
          · rw [own.returned sync done]
            trivial
          · have inside : worker.Inside := by
              refine ⟨sync, ?_⟩
              simp only [List.mem_cons, List.not_mem_nil, or_false, done]
                at late ⊢
              exact Or.inr late.2
            obtain ⟨proc, -, agreed⟩ := agrees inside
            apply agreed.woken
            intro waits
            simp [waits] at late
        · exact absurd rfl woken
      ready := by
        intro waits signalled
        obtain ⟨proc, found, agreed⟩ := agrees ⟨sync, by simp [waits]⟩
        exact ⟨proc, found, agreed.ready waits signalled⟩
      returns := by
        intro done
        refine ⟨?_, own.returned sync done⟩
        rw [counts, if_pos ⟨sync, by simp [done]⟩] }

theorem Paired.congr (workers : state'.workers = state.workers)
    (exiting : ∀ frame, state'.exiting = some frame → state.exiting = some frame)
    (statuses : ∀ pid, state'.status pid = state.status pid)
    (records : ∀ pid after, state'.prcGetProc pid = some after →
      (∃ proc, state.prcGetProc pid = some proc ∧ SameSync proc after) ∨
        state.prcGetProc pid = none ∧ after.termSem = 0) :
    state'.Paired := by
  have statuses : ∀ worker, state'.childStatus worker =
      state.childStatus worker := childStatus_congr statuses
  have known : ∀ pid after, state'.prcGetProc pid = some after → state.prcGetProc pid ≠ none →
        ∃ proc, state.prcGetProc pid = some proc ∧ SameSync proc after := by
    intro pid after found alive
    exact (records pid after found).resolve_right fun fresh => alive fresh.1
  refine ⟨?_, ?_, ?_, ?_⟩
  · rw [workers]
    exact paired.alone
  · intro pid after found token
    rcases records pid after found with ⟨proc, before, same⟩ | ⟨-, zero⟩
    · obtain ⟨one, i, worker, here, has⟩ := paired.tokens pid proc before (same.1 ▸ token)
      refine ⟨same.1 ▸ one, i, worker, workers ▸ here, ?_⟩
      unfold HasToken
      rw [statuses]
      exact has
    · exact absurd zero token
  · rw [workers]
    intro worker member
    have own := paired.workers worker member
    refine ⟨?_, own.flagged, own.sync, own.wakes, ?_⟩
    · intro inside after found
      obtain ⟨proc, before, same⟩ := known _ after found (sound.alive worker member inside.ne_done)
      rw [statuses]
      exact (own.agrees inside proc before).congr same
    · rw [statuses]
      exact own.returned
  · intro frame entered stored after found
    obtain ⟨proc, before, same⟩ :=
      known _ after found (sound.frames frame (exiting frame entered)).alive
    rw [← same.2.1]
    exact paired.left frame (exiting frame entered) stored proc before

theorem Paired.store (pids : ∀ proc, (f proc).pid = proc.pid)
    (same : ∀ proc, SameSync proc (f proc)) (pid : Nat) :
    (state.store pid f).Paired := by
  refine Paired.congr paired sound rfl (fun _ => id) (fun _ => rfl) ?_
  intro p after found
  rw [prcGetProc_store pids, Option.map_eq_some_iff] at found
  obtain ⟨proc, before, rfl⟩ := found
  refine Or.inl ⟨proc, before, ?_⟩
  split
  · exact same proc
  · exact ⟨rfl, rfl, id⟩

theorem Paired.addProcess (c : Process) (ppid : Nat) : (state.addProcess c ppid).Paired := by
  refine Paired.congr paired sound rfl (fun _ => id) (fun _ => rfl) ?_
  intro p after found
  rw [prcGetProc_addProcess, Option.or_eq_some_iff] at found
  rcases found with known | ⟨none, added⟩
  · exact Or.inl ⟨after, known, rfl, rfl, id⟩
  · split at added
    · cases added
      exact Or.inr ⟨none, rfl⟩
    · cases added

theorem Paired.addProgram {program : Program} (runs : program.Running) :
    (state.addProgram program).Paired :=
  paired.congr sound rfl (fun _ => id) (fun _ => status_congr (result_addProgram runs) rfl)
    fun _ after found => Or.inl ⟨after, found, rfl, rfl, id⟩

theorem Paired.setProgram {g : Program → Program}
    (results : ∀ p, (state.setProgram pid g).result p = state.result p) :
    (state.setProgram pid g).Paired :=
  paired.congr sound rfl (fun _ => id) (fun p => status_congr (results p) rfl)
    fun _ after found => Or.inl ⟨after, found, rfl, rfl, id⟩

end

theorem getElem?_setWorker {i : Nat}
    (found : (state.setWorker index after).workers[i]? = some worker) :
    i = index ∧ worker = after ∨
      i ≠ index ∧ state.workers[i]? = some worker := by
  rw [setWorker_workers, List.getElem?_set] at found
  split at found
  · split at found
    · exact Or.inl ⟨‹index = i›.symm, (Option.some.inj found).symm⟩
    · cases found
  · exact Or.inr ⟨Ne.symm ‹_›, found⟩

theorem getElem?_setWorker_of_ne {i : Nat} (other : i ≠ index) :
    (state.setWorker index after).workers[i]? = state.workers[i]? := by
  rw [setWorker_workers, List.getElem?_set_ne other.symm]

theorem Paired.move (paired : state.Paired) (found : state.workers[index]? = some worker)
    (record : state.prcGetProc worker.proc = some proc)
    (pids : ∀ proc, (f proc).pid = proc.pid)
    (code : (f proc).termCode = proc.termCode)
    (same : after.proc = worker.proc ∧ after.child = worker.child)
    (alone : after.Inside → ∀ (i : Nat) (other : Worker),
      state.workers[i]? = some other → other.Inside → other.proc = worker.proc → i = index)
    (tokens : (f proc).termSem ≠ 0 → (f proc).termSem = 1 ∧ ∃ (i : Nat) (other : Worker),
        (state.setWorker index after).workers[i]? = some other ∧ state.HasToken worker.proc other)
    (others : ∀ (i : Nat) (other : Worker), i ≠ index →
      state.workers[i]? = some other → other.Inside → other.proc = worker.proc →
          other.Agrees (f proc) (state.childStatus other))
    (own : after.Inside → after.Agrees (f proc) (state.childStatus worker))
    (flagged : after.stage ≠ .setSync)
    (sync : after.stage = .termDown → after.Sync)
    (wakes : after.CountsWakes)
    (returned : after.Sync → after.stage = .done →
      state.childStatus worker = .signalled after.pRes.codeResult) :
    ((state.store worker.proc f).setWorker index after).Paired := by
  have records : ∀ p changed, ((state.store worker.proc f).setWorker index after).prcGetProc p =
        some changed → p = worker.proc ∧ changed = f proc ∨
          p ≠ worker.proc ∧ state.prcGetProc p = some changed := by
    intro p changed stored
    have stored : (state.store worker.proc f).prcGetProc p = some changed := stored
    rw [prcGetProc_store pids, Option.map_eq_some_iff] at stored
    obtain ⟨before, known, rfl⟩ := stored
    by_cases here : p = worker.proc
    · rw [here, record] at known
      cases known
      exact Or.inl ⟨here, if_pos here⟩
    · exact Or.inr ⟨here, (if_neg here).symm ▸ known⟩
  have child : state.childStatus after = state.childStatus worker := by
    unfold childStatus
    rw [same.2]
  refine ⟨?_, ?_, ?_, ?_⟩
  · intro i j one two first second inside inside' equal
    rcases getElem?_setWorker first with ⟨rfl, rfl⟩ | ⟨apart, here⟩
    · rcases getElem?_setWorker second with ⟨rfl, -⟩ | ⟨-, there⟩
      · rfl
      · exact (alone inside j two there inside' (equal.symm.trans same.1)).symm
    · rcases getElem?_setWorker second with ⟨rfl, rfl⟩ | ⟨-, there⟩
      · exact alone inside' i one here inside (equal.trans same.1)
      · exact paired.alone i j one two here there inside inside' equal
  · intro p changed stored token
    rcases records p changed stored with ⟨rfl, rfl⟩ | ⟨apart, known⟩
    · exact tokens token
    · obtain ⟨one, i, other, there, has⟩ := paired.tokens p changed known token
      refine ⟨one, i, other, ?_, has⟩
      have elsewhere : i ≠ index := by
        intro equal
        rw [equal, found] at there
        cases there
        exact apart has.1.symm
      exact (getElem?_setWorker_of_ne elsewhere).trans there
  · intro other member
    obtain ⟨i, there⟩ := List.getElem?_of_mem member
    rcases getElem?_setWorker there with ⟨-, rfl⟩ | ⟨elsewhere, before⟩
    · refine ⟨?_, fun here => absurd here flagged, sync, wakes, ?_⟩
      · intro inside changed stored
        rcases records _ changed stored with ⟨-, rfl⟩ | ⟨apart, -⟩
        · show other.Agrees (f proc) (state.childStatus other)
          rw [child]
          exact own inside
        · exact absurd same.1 apart
      · intro waits done
        exact child.trans (returned waits done)
    · have kept := paired.workers other (List.mem_of_getElem? before)
      refine ⟨?_, kept.flagged, kept.sync, kept.wakes, kept.returned⟩
      intro inside changed stored
      rcases records _ changed stored with ⟨here, rfl⟩ | ⟨-, known⟩
      · exact others i other elsewhere before inside here
      · exact kept.agrees inside changed known
  · intro frame entered past changed stored
    rcases records _ changed stored with ⟨here, rfl⟩ | ⟨-, known⟩
    · rw [code]
      exact paired.left frame entered past proc (here ▸ record)
    · exact paired.left frame entered past changed known

theorem exists_token_setWorker (found : state.workers[index]? = some worker)
    (waits : worker.stage ≠ .termDown)
    (token : ∃ (i : Nat) (other : Worker),
      state.workers[i]? = some other ∧ state.HasToken pid other) :
    ∃ (i : Nat) (other : Worker), (state.setWorker index after).workers[i]? = some other ∧
        state.HasToken pid other := by
  obtain ⟨i, other, there, has⟩ := token
  refine ⟨i, other, ?_, has⟩
  have elsewhere : i ≠ index := by
    intro equal
    rw [equal, found] at there
    cases there
    exact waits has.2.1
  exact (getElem?_setWorker_of_ne elsewhere).trans there

section

variable (paired : state.Paired)

include paired

theorem Paired.setWorker (found : state.workers[index]? = some worker)
    (waits : worker.stage ≠ .termDown) (idle : after.Idle)
    (wakes : after.wakes = 0) : (state.setWorker index after).Paired := by
  refine ⟨?_, ?_, ?_, paired.left⟩
  · intro i j one two first second inside inside' equal
    rcases getElem?_setWorker first with ⟨-, rfl⟩ | ⟨-, here⟩
    · exact absurd inside idle.not_inside
    · rcases getElem?_setWorker second with ⟨-, rfl⟩ | ⟨-, there⟩
      · exact absurd inside' idle.not_inside
      · exact paired.alone i j one two here there inside inside' equal
  · intro p proc record token
    obtain ⟨one, holder⟩ := paired.tokens p proc record token
    exact ⟨one, exists_token_setWorker found waits holder⟩
  · intro other member
    obtain ⟨i, there⟩ := List.getElem?_of_mem member
    rcases getElem?_setWorker there with ⟨-, rfl⟩ | ⟨-, before⟩
    · exact
        { agrees := fun inside => absurd inside idle.not_inside
          flagged := idle.flagged
          sync := fun here => absurd here idle.waits
          wakes := idle.countsWakes_iff.mpr wakes
          returned := fun sync done =>
            absurd (by simp [done]) (idle.woken sync) }
    · have kept := paired.workers other (List.mem_of_getElem? before)
      exact ⟨kept.agrees, kept.flagged, kept.sync, kept.wakes, kept.returned⟩

theorem Paired.wakes_eq_zero (found : state.workers[index]? = some worker)
    (early : worker.stage ∉ [.clearSync, .readCode, .done]) :
    worker.wakes = 0 := by
  have wakes := (paired.workers worker (List.mem_of_getElem? found)).wakes
  rw [wakes, if_neg fun late => early late.2]

theorem Paired.findPath {rc : UInt32}
    (step : state.findPath index rc = some state') : state'.Paired := by
  obtain ⟨worker, found, here, done⟩ := atStage_eq_some_iff.mp step
  cases done
  have zero := paired.wakes_eq_zero found (by simp [here])
  apply paired.setWorker found (by simp [here])
  · split
    · exact Worker.idle_of_early (by simp)
    · exact worker.executed_idle rc
  · split <;> exact zero

theorem Paired.execCreate (sound : state.Sound)
    {c : Process} (step : state.execCreate index c = some state') :
    state'.Paired := by
  obtain ⟨worker, found, here, done⟩ := atStage_eq_some_iff.mp step
  cases done
  have zero := paired.wakes_eq_zero found (by simp [here])
  exact (paired.addProcess sound c worker.proc).setWorker found
    (by simp [here]) (Worker.idle_of_early (by simp)) zero

theorem Paired.loaderExec (sound : state.Sound) {taskid : Thread} {rc : UInt32}
    (allowed : state.Allowed (.loaderExec index taskid rc))
    (step : state.loaderExec index taskid rc = some state') :
    state'.Paired := by
  obtain ⟨worker, found, here, done⟩ := atStage_eq_some_iff.mp step
  obtain ⟨pid, child, done⟩ := Option.bind_eq_some_iff.mp done
  have zero := paired.wakes_eq_zero found (by simp [here])
  have waits : worker.stage ≠ .termDown := by simp [here]
  have listed : (state.store pid fun proc =>
      { proc with task := taskid }).Paired := by
    apply paired.store sound
    · exact fun _ => rfl
    · exact fun _ => ⟨rfl, rfl, id⟩
  have may := allowed worker found
  split at done
  · rename_i loads
    cases done
    rw [if_pos loads] at may
    have added := listed.addProgram (sound.storeTask may.1 pid) (Or.inl rfl : Program.Running
        { pid, task := taskid.task, phase := .loaded })
    exact added.setWorker found waits (Worker.idle_of_early (by simp)) zero
  · cases done
    exact listed.setWorker found waits (worker.executed_idle rc) zero

theorem Paired.getLoadError (sound : state.Sound)
    {rc : UInt32} (step : state.getLoadError index rc = some state') :
    state'.Paired := by
  obtain ⟨worker, found, here, done⟩ := atStage_eq_some_iff.mp step
  obtain ⟨pid, child, done⟩ := Option.bind_eq_some_iff.mp done
  cases done
  have zero := paired.wakes_eq_zero found (by simp [here])
  have waits : worker.stage ≠ .termDown := by simp [here]
  split
  · exact paired.setWorker found waits (worker.executed_idle rc) zero
  · exact (paired.setProgram sound fun _ => result_terminate).setWorker found
      waits (worker.executed_idle rc) zero

theorem Paired.startupDown (sound : state.Sound)
    (step : state.startupDown index = some state') : state'.Paired := by
  obtain ⟨worker, proc, f, after, found, here, -, moved, rfl⟩ := onCaller_eq_some_iff.mp step
  split at moved
  · cases moved
  · cases moved
    have zero := paired.wakes_eq_zero found (by simp [here])
    have stored : (state.store worker.proc fun proc =>
        { proc with startupSem := proc.startupSem - 1 }).Paired := by
      apply paired.store sound
      · exact fun _ => rfl
      · exact fun _ => ⟨rfl, rfl, id⟩
    apply stored.setWorker found
    · simp [here]
    · exact Worker.idle_of_syncStage rfl
    · exact zero

theorem Paired.eq_index (found : state.workers[index]? = some worker) (inside : worker.Inside)
    (i : Nat) (other : Worker) (there : state.workers[i]? = some other)
    (inside' : other.Inside) (same : other.proc = worker.proc) : i = index :=
  paired.alone i index other worker there found inside' inside same

theorem Paired.code_of_stores (sound : state.Sound) (member : worker ∈ state.workers)
    (record : state.prcGetProc worker.proc = some proc) {result : UInt32}
    (stores : (state.childStatus worker).Stores result)
    (pending : ¬ (state.childStatus worker).Signalled) :
    proc.termCode = result := by
  cases child : worker.child with
  | none =>
    simp only [childStatus, child] at stores
    exact stores.elim
  | some pid =>
    rw [childStatus_of_child child] at stores pending
    obtain ⟨left, frame, entered, rfl, past⟩ := frame_of_stores stores pending
    have frameSound := sound.frames frame entered
    have own : worker.proc = frame.ppid := frameSound.parent worker member child
    rw [paired.left frame entered past proc (own ▸ record)]
    exact Option.some.inj (frameSound.result.symm.trans left)

theorem Paired.setSync (sound : state.Sound) (allowed : state.Allowed (.setSync index))
    (step : state.setSync index = some state') : state'.Paired := by
  obtain ⟨worker, proc, f, after, found, here, record, moved, rfl⟩ := onCaller_eq_some_iff.mp step
  cases moved
  have member := List.mem_of_getElem? found
  have zero := paired.wakes_eq_zero found (by simp [here])
  have waits : worker.stage ≠ .termDown := by simp [here]
  by_cases loads : worker.rc = 0
  · obtain ⟨pending, free⟩ := allowed worker found loads
    have flag := (paired.workers worker member).flagged here
    apply paired.move found record
    · exact fun _ => rfl
    · rfl
    · exact ⟨rfl, rfl⟩
    · intro _ i other there inside same
      exact absurd inside (free other (List.mem_of_getElem? there) same)
    · intro token
      obtain ⟨one, holder⟩ := paired.tokens _ proc record token
      exact ⟨one, exists_token_setWorker found waits holder⟩
    · intro i other _ there inside same
      exact absurd inside (free other (List.mem_of_getElem? there) same)
    · intro _
      exact
        { woken := fun elsewhere => absurd (if_pos loads) elsewhere
          ready := fun _ signalled => absurd signalled pending
          flag := fun _ _ => rfl
          code := fun result stores =>
            paired.code_of_stores sound member record stores pending }
    · simp [loads]
    · exact fun _ => ⟨flag, loads⟩
    · simp [Worker.CountsWakes, loads, zero]
    · simp [loads]
  · have stored : (state.store worker.proc fun proc =>
        { proc with execSync := true }).Paired := by
      apply paired.store sound
      · exact fun _ => rfl
      · exact fun _ => ⟨rfl, rfl, fun _ => rfl⟩
    apply stored.setWorker found waits
    · exact Worker.idle_of_clearSync (if_neg loads) fun sync => loads sync.2
    · exact zero

/-- The wait comes back for the child of the worker. -/
theorem Paired.termDown (step : state.termDown index = some state') : state'.Paired := by
  obtain ⟨worker, proc, f, after, found, here, record, moved, rfl⟩ := onCaller_eq_some_iff.mp step
  split at moved
  · cases moved
  rename_i token
  cases moved
  have own := paired.workers worker (List.mem_of_getElem? found)
  have sync := own.sync here
  have inside : worker.Inside := ⟨sync, by simp [here]⟩
  obtain ⟨one, i, other, there, same, waits, signalled⟩ := paired.tokens _ proc record token
  have inside' : other.Inside :=
    ⟨(paired.workers other (List.mem_of_getElem? there)).sync waits, by simp [waits]⟩
  -- The one token on the record is for the child of this worker.
  have mine := paired.eq_index found inside i other there inside' same
  rw [mine, found] at there
  cases there
  apply paired.move found record
  · exact fun _ => rfl
  · rfl
  · exact ⟨rfl, rfl⟩
  · exact fun _ => paired.eq_index found inside
  · intro more
    exact absurd (by simp [one]) more
  · intro j other elsewhere there inside' same
    exact absurd (paired.eq_index found inside j other there inside' same) elsewhere
  · intro _
    exact
      { woken := fun _ => signalled
        ready := fun still => by cases still
        flag := fun still => by cases still
        code := (own.agrees inside proc record).code }
  · simp
  · simp
  · have wakes := own.wakes
    unfold Worker.CountsWakes at wakes ⊢
    rw [if_neg (by simp [here])] at wakes
    rw [if_pos ⟨sync, by simp⟩, wakes]
  · simp

theorem Paired.clearSync (allowed : state.Allowed (.clearSync index))
    (step : state.clearSync index = some state') : state'.Paired := by
  obtain ⟨worker, proc, f, after, found, here, record, moved, rfl⟩ := onCaller_eq_some_iff.mp step
  cases moved
  have own := paired.workers worker (List.mem_of_getElem? found)
  have was : ∀ {after : Worker}, after.Inside → after.execFlag =
      worker.execFlag → after.rc = worker.rc → worker.Inside := by
    intro after inside flag rc
    exact ⟨⟨flag ▸ inside.1.1, rc ▸ inside.1.2⟩, by simp [here]⟩
  apply paired.move found record
  · exact fun _ => rfl
  · rfl
  · exact ⟨rfl, rfl⟩
  · exact fun inside => paired.eq_index found (was inside rfl rfl)
  · intro token
    obtain ⟨one, holder⟩ := paired.tokens _ proc record token
    exact ⟨one, exists_token_setWorker found (by simp [here]) holder⟩
  · intro i other _ there inside same
    have member := List.mem_of_getElem? there
    have agreed := (paired.workers other member).agrees inside proc (same ▸ record)
    exact { agreed with
        flag := fun waits pending =>
          absurd (allowed worker found other member same waits) pending }
  · intro inside
    have agreed := own.agrees (was inside rfl rfl) proc record
    exact
      { woken := fun _ => agreed.woken (by simp [here])
        ready := fun still => by cases still
        flag := fun still => by cases still
        code := agreed.code }
  · simp
  · simp
  · exact own.wakes.of_late (by simp [here]) (by simp) rfl Iff.rfl
  · simp

theorem Paired.readCode (step : state.readCode index = some state') : state'.Paired := by
  obtain ⟨worker, proc, f, after, found, here, record, moved, rfl⟩ := onCaller_eq_some_iff.mp step
  cases moved
  have own := paired.workers worker (List.mem_of_getElem? found)
  apply paired.move found record
  · exact fun _ => rfl
  · rfl
  · exact ⟨rfl, rfl⟩
  · exact fun inside => absurd rfl inside.ne_done
  · intro token
    obtain ⟨one, holder⟩ := paired.tokens _ proc record token
    exact ⟨one, exists_token_setWorker found (by simp [here]) holder⟩
  · intro i other _ there inside same
    exact (paired.workers other (List.mem_of_getElem? there)).agrees inside proc (same ▸ record)
  · exact fun inside => absurd rfl inside.ne_done
  · simp
  · simp
  · exact own.wakes.of_late (by simp [here]) (by simp) rfl Iff.rfl
  · intro sync _
    have agreed := own.agrees ⟨sync, by simp [here]⟩ proc record
    obtain ⟨result, signalled⟩ := Status.signalled_iff.mp (agreed.woken (by simp [here]))
    have code := agreed.code result (by rw [signalled]; rfl)
    rw [signalled, ← code]

end

end State

end OsFree.Prcmgr
