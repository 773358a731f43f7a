import OsFree.Prcmgr.Paired

/-!
# Children that leave wake their own parents

A call of `CPExit` changes how far one program has come.  The invariant goes
through each of its steps, and so every run of allowed steps serves the waiting
workers.
-/

namespace OsFree.Prcmgr

open Machine

namespace State

variable {state state' : State} {index pid p lthread : Nat} {worker : Worker}
  {proc : Process} {result : UInt32}

section

variable (paired : state.Paired)

include paired

theorem Paired.addWorker (idle : worker.Idle) (wakes : worker.wakes = 0) :
    Paired { state with workers := state.workers ++ [worker] } := by
  have known : ∀ (i : Nat) (other : Worker), (state.workers ++ [worker])[i]? = some other →
        state.workers[i]? = some other ∨ other = worker := by
    intro i other there
    rw [List.getElem?_append] at there
    split at there
    · exact Or.inl there
    · exact Or.inr (List.mem_singleton.mp (List.mem_of_getElem? there))
  refine ⟨?_, ?_, ?_, paired.left⟩
  · intro i j one two first second inside inside' equal
    rcases known i one first with here | rfl
    · rcases known j two second with there | rfl
      · exact paired.alone i j one two here there inside inside' equal
      · exact absurd inside' idle.not_inside
    · exact absurd inside idle.not_inside
  · intro p proc record token
    obtain ⟨one, i, other, there, has⟩ := paired.tokens p proc record token
    have short := (List.getElem?_eq_some_iff.mp there).1
    exact ⟨one, i, other, (List.getElem?_append_left short).trans there, has⟩
  · intro other member
    rcases List.mem_append.mp member with old | new
    · have kept := paired.workers other old
      exact ⟨kept.agrees, kept.flagged, kept.sync, kept.wakes, kept.returned⟩
    · rw [List.mem_singleton.mp new]
      exact
        { agrees := fun inside => absurd inside idle.not_inside
          flagged := idle.flagged
          sync := fun here => absurd here idle.waits
          wakes := idle.countsWakes_iff.mpr wakes
          returned := fun sync done =>
            absurd (by simp [done]) (idle.woken sync) }

theorem Paired.execPgm {execFlag : Nat} {pRes : ResultCodes}
    (step : state.execPgm pid lthread execFlag pRes = some state') :
    state'.Paired := by
  obtain ⟨program, proc, -, -, -, -, done⟩ := call_eq_some_iff.mp step
  cases done
  exact paired.addWorker (Worker.idle_of_early (by simp)) rfl

theorem Paired.appNotify1 (sound : state.Sound)
    (step : state.appNotify1 pid lthread = some state') : state'.Paired := by
  obtain ⟨program, proc, found, loaded, idle, record, done⟩ := call_eq_some_iff.mp step
  obtain ⟨parentproc, parent, done⟩ := Option.bind_eq_some_iff.mp done
  cases done
  refine Paired.setProgram (paired.store sound ?_ ?_ _) (sound.store_of_task ?_ ?_ ?_) ?_
  · exact fun _ => rfl
  · exact fun _ => ⟨rfl, rfl, id⟩
  · exact fun _ => rfl
  · exact fun _ => rfl
  · exact fun _ => rfl
  · intro p
    apply result_setProgram_of_running
    · exact fun _ => rfl
    · exact found
    · exact Or.inl loaded
    · exact Or.inr rfl

theorem Paired.enlist (sound : state.Sound)
    {thread : Thread} {phase : Phase} (may : state.MayLoad none thread.task)
    (runs : phase = .loaded ∨ phase = .notified) (c : Process) :
    ((state.addProcess { c with task := thread } 0).addProgram
      { pid := state.nextPid, task := thread.task, phase }).Paired := by
  have added : (state.addProcess { c with task := thread } 0).Sound := sound.addProcess may.1 0
  apply (paired.addProcess sound _ 0).addProgram added
  exact runs

theorem Paired.serve (workers : state'.workers = state.workers)
    (stays : ∀ pid, (state.status pid).Signalled → state'.status pid = state.status pid)
    (tokens : ∀ pid after, state'.prcGetProc pid = some after → after.termSem ≠ 0 →
        (∃ proc, state.prcGetProc pid = some proc ∧ proc.termSem = after.termSem) ∨
        after.termSem = 1 ∧ ∃ worker ∈ state.workers, state'.HasToken pid worker)
    (agrees : ∀ worker ∈ state.workers, worker.Inside →
      ∀ after, state'.prcGetProc worker.proc = some after →
        worker.Agrees after (state'.childStatus worker))
    (left : ∀ frame, state'.exiting = some frame → frame.stage ≠ .storeCode →
      ∀ after, state'.prcGetProc frame.ppid = some after →
        after.termCode = frame.result) : state'.Paired := by
  have stayed : ∀ worker, (state.childStatus worker).Signalled →
      state'.childStatus worker = state.childStatus worker := by
    intro worker signalled
    cases child : worker.child with
    | none => simp only [childStatus, child]
    | some pid =>
      rw [childStatus_of_child child] at signalled ⊢
      rw [childStatus_of_child child]
      exact stays pid signalled
  refine ⟨?_, ?_, ?_, left⟩
  · rw [workers]
    exact paired.alone
  · intro pid after found token
    rw [workers]
    rcases tokens pid after found token with ⟨proc, before, same⟩ | ⟨one, worker, member, has⟩
    · obtain ⟨one, i, worker, there, here, waits, signalled⟩ :=
        paired.tokens pid proc before (same ▸ token)
      refine ⟨same ▸ one, i, worker, there, here, waits, ?_⟩
      rw [stayed worker signalled]
      exact signalled
    · obtain ⟨i, there⟩ := List.getElem?_of_mem member
      exact ⟨one, i, worker, there, has⟩
  · rw [workers]
    intro worker member
    have own := paired.workers worker member
    refine ⟨agrees worker member, own.flagged, own.sync, own.wakes, ?_⟩
    intro sync done
    have returned := own.returned sync done
    rw [stayed worker (by rw [returned]; trivial), returned]

end

theorem childStatus_congr_of_ne (statuses : ∀ p, p ≠ pid →
    state'.status p = state.status p) (other : worker.child ≠ some pid) :
    state'.childStatus worker = state.childStatus worker := by
  cases child : worker.child with
  | none => simp only [childStatus, child]
  | some p =>
    rw [childStatus_of_child child, childStatus_of_child child]
    apply statuses
    intro here
    exact other (child.trans (congrArg some here))

theorem Paired.waits_of_pending (paired : state.Paired)
    (member : worker ∈ state.workers) (inside : worker.Inside)
    (record : state.prcGetProc worker.proc = some proc)
    (pending : ¬ (state.childStatus worker).Signalled) :
    worker.stage = .termDown ∧ proc.execSync = true := by
  have agreed := (paired.workers worker member).agrees inside proc record
  have waits : worker.stage = .termDown := by
    by_contra elsewhere
    exact pending (agreed.woken elsewhere)
  exact ⟨waits, agreed.flag waits pending⟩

theorem Paired.leave (paired : state.Paired) (running : state.status pid = .running)
    (workers : state'.workers = state.workers)
    (records : ∀ p, state'.prcGetProc p = state.prcGetProc p)
    (statuses : ∀ p, p ≠ pid → state'.status p = state.status p)
    (exiting : ∀ frame, state'.exiting = some frame → frame.stage = .storeCode)
    (entered : ∀ worker ∈ state.workers, worker.stage ≠ .done →
      worker.child = some pid → ∃ result, state'.status pid = .entered result) :
    state'.Paired := by
  apply paired.serve workers
  · intro p signalled
    apply statuses
    intro here
    rw [here, running] at signalled
    exact signalled
  · intro p after found _
    exact Or.inl ⟨after, records p ▸ found, rfl⟩
  · intro worker member inside after found
    rw [records] at found
    by_cases child : worker.child = some pid
    · have pending : ¬ (state.childStatus worker).Signalled := by
        rw [childStatus_of_child child, running]
        exact id
      obtain ⟨waits, flag⟩ := paired.waits_of_pending member inside found pending
      obtain ⟨result, status⟩ := entered worker member inside.ne_done child
      rw [childStatus_of_child child, status]
      exact
        { woken := fun elsewhere => absurd waits elsewhere
          ready := fun _ signalled => signalled.elim
          flag := fun _ _ => flag
          code := fun _ stores => stores.elim }
    · rw [childStatus_congr_of_ne statuses child]
      exact (paired.workers worker member).agrees inside after found
  · intro frame entered past
    exact absurd (exiting frame entered) past

/-- The program that calls `CPExit` has not left before. -/
theorem Paired.exit (paired : state.Paired) (sound : state.Sound)
    (step : state.exit pid lthread result = some state') : state'.Paired := by
  obtain ⟨program, proc, found, notified, idle, record, done⟩ := call_eq_some_iff.mp step
  have runs : program.Running := Or.inr notified
  obtain rfl : proc.pid = pid := sound.pid_of_native found runs record
  have running : state.status proc.pid = .running := by
    apply status_of_result_eq_none
    rw [State.result, found]
    exact runs.result_eq_none
  have unserved : ∀ p frame, state.exiting = some frame → frame.proc ≠ p := by
    intro p frame entered
    rw [idle] at entered
    cases entered
  split at done
  · rename_i none
    cases done
    apply paired.leave running
    · rfl
    · exact fun _ => rfl
    · intro p other
      refine status_congr_of_ne ?_ (unserved p) (unserved p)
      exact result_setProgram (fun _ => rfl) other
    · intro frame entered
      exact absurd rfl (unserved frame.proc frame entered)
    · intro worker member live child
      have parent := sound.parents worker member proc (mem_of_prcGetProcNative record) child
      rw [parent] at none
      exact absurd none (sound.alive worker member live)
  · cases done
    apply paired.leave running
    · rfl
    · exact fun _ => rfl
    · intro p other
      refine status_congr_of_ne ?_ (unserved p) ?_
      · exact result_setProgram (fun _ => rfl) other
      · intro frame entered
        cases entered
        exact other.symm
    · intro frame entered
      cases entered
      rfl
    · intro worker _ _ _
      refine ⟨result, @status_of_frame _
        { proc := proc.pid, ppid := proc.pibUlppid, result
          stage := .storeCode } rfl result ?_⟩
      refine Eq.trans (@result_setProgram_self state proc.pid (fun program =>
        { program with phase := .exited result }) fun _ => rfl) ?_
      rw [found]
      rfl

section

variable {frame : Exit} {parentproc : Process} {f : Process → Process} {after : ExitStage}

/-- The state after a step of `CPExit` on the record of the parent. -/
def served (state : State) (frame : Exit) (f : Process → Process) (after : ExitStage) : State :=
  { state.store frame.ppid f with
    exiting := some { frame with stage := after } }

theorem prcGetProc_served (pids : ∀ proc, (f proc).pid = proc.pid) {p : Nat} {changed : Process}
    (found : (state.served frame f after).prcGetProc p = some changed) :
    ∃ proc, state.prcGetProc p = some proc ∧
      (p = frame.ppid ∧ changed = f proc ∨ p ≠ frame.ppid ∧ changed = proc) := by
  have found : (state.store frame.ppid f).prcGetProc p = some changed := found
  rw [prcGetProc_store pids, Option.map_eq_some_iff] at found
  obtain ⟨proc, before, rfl⟩ := found
  refine ⟨proc, before, ?_⟩
  by_cases here : p = frame.ppid
  · exact Or.inl ⟨here, if_pos here⟩
  · exact Or.inr ⟨here, if_neg here⟩

theorem status_served_self (sound : state.Sound) (entered : state.exiting = some frame) :
    (state.served frame f after).status frame.proc =
      after.status frame.result := by
  have left := (sound.frames frame entered).result
  exact @status_of_frame (state.served frame f after)
    { frame with stage := after } rfl frame.result left

theorem status_served_of_ne (entered : state.exiting = some frame) {p : Nat}
    (other : p ≠ frame.proc) :
    (state.served frame f after).status p = state.status p := by
  refine status_congr_of_ne rfl ?_ ?_
  · intro frame' same
    cases entered.symm.trans same
    exact other.symm
  · intro frame' same
    cases same
    exact other.symm

theorem status_frame (sound : state.Sound) (entered : state.exiting = some frame) :
    state.status frame.proc = frame.stage.status frame.result :=
  status_of_frame entered (sound.frames frame entered).result

theorem signalled_of_stores (entered : state.exiting = some frame)
    (other : worker.child ≠ some frame.proc)
    (stores : (state.childStatus worker).Stores result) :
    (state.childStatus worker).Signalled := by
  by_contra running
  cases child : worker.child with
  | none =>
    simp only [childStatus, child] at stores
    exact stores
  | some p =>
    rw [childStatus_of_child child] at stores running
    obtain ⟨-, served, same, rfl, -⟩ := frame_of_stores stores running
    cases entered.symm.trans same
    exact other child

section

variable (paired : state.Paired)

include paired

theorem Paired.served (sound : state.Sound) (entered : state.exiting = some frame)
    (stage : frame.stage ≠ .destroy)
    (record : state.prcGetProc frame.ppid = some parentproc)
    (pids : ∀ proc, (f proc).pid = proc.pid)
    (code : (f parentproc).termCode = frame.result)
    (flag : (f parentproc).execSync = parentproc.execSync)
    (tokens : (f parentproc).termSem = parentproc.termSem ∨
      (f parentproc).termSem = 1 ∧ after = .destroy ∧
        ∃ worker ∈ state.workers, worker.child = some frame.proc ∧ worker.stage = .termDown)
    (ready : after = .destroy → ∀ worker ∈ state.workers, worker.Inside →
      worker.child = some frame.proc → (f parentproc).termSem ≠ 0)
    (others : ∀ worker ∈ state.workers, worker.Inside →
      worker.proc = frame.ppid → worker.child ≠ some frame.proc →
        (f parentproc).termCode = parentproc.termCode ∨ ((state.childStatus worker).Signalled →
            state.childStatus worker = .signalled frame.result)) :
    (state.served frame f after).Paired := by
  have frameSound := sound.frames frame entered
  have pending : ¬ (state.status frame.proc).Signalled := by
    rw [status_frame sound entered]
    cases here : frame.stage with
    | storeCode => exact id
    | signal => exact id
    | destroy => exact absurd here stage
  have elsewhere : ∀ p, p ≠ frame.proc →
      (state.served frame f after).status p = state.status p := fun p =>
    status_served_of_ne entered
  have changes : ∀ p changed, (state.served frame f after).prcGetProc p = some changed →
        p = frame.ppid ∧ changed = f parentproc ∨
          p ≠ frame.ppid ∧ state.prcGetProc p = some changed := by
    intro p changed found
    obtain ⟨proc, before, ⟨here, rfl⟩ | ⟨apart, rfl⟩⟩ := prcGetProc_served pids found
    · rw [here, record] at before
      cases before
      exact Or.inl ⟨here, rfl⟩
    · exact Or.inr ⟨apart, before⟩
  refine Paired.serve paired rfl ?_ ?_ ?_ ?_
  · intro p signalled
    apply elsewhere
    intro here
    exact pending (here ▸ signalled)
  · intro p changed found token
    rcases changes p changed found with ⟨rfl, rfl⟩ | ⟨-, before⟩
    · rcases tokens with same | ⟨one, rfl, worker, member, child, waits⟩
      · exact Or.inl ⟨parentproc, record, same.symm⟩
      · refine Or.inr ⟨one, worker, member, frameSound.parent worker member child, waits, ?_⟩
        rw [childStatus_of_child child, status_served_self sound entered]
        trivial
    · exact Or.inl ⟨changed, before, rfl⟩
  · intro worker member inside changed found
    by_cases child : worker.child = some frame.proc
    · have own := frameSound.parent worker member child
      have unwoken : ¬ (state.childStatus worker).Signalled := by
        rw [childStatus_of_child child]
        exact pending
      obtain ⟨waits, exec⟩ := paired.waits_of_pending member inside (own ▸ record) unwoken
      rcases changes _ changed found with ⟨-, rfl⟩ | ⟨apart, -⟩
      · rw [childStatus_of_child child, status_served_self sound entered]
        refine ⟨fun elsewhere => absurd waits elsewhere, ?_, ?_, ?_⟩
        · intro _ signalled
          cases after with
          | storeCode => exact signalled.elim
          | signal => exact signalled.elim
          | destroy => exact ready rfl worker member inside child
        · exact fun _ _ => flag.trans exec
        · intro result stores
          cases after with
          | storeCode => exact stores.elim
          | signal => exact code.trans stores
          | destroy => exact code.trans stores
      · exact absurd own apart
    · have agreed := (paired.workers worker member).agrees inside
      rw [childStatus_congr_of_ne elsewhere child]
      rcases changes _ changed found with ⟨here, rfl⟩ | ⟨-, before⟩
      · have agreed := agreed parentproc (here ▸ record)
        refine ⟨agreed.woken, ?_, ?_, ?_⟩
        · intro waits signalled
          rcases tokens with same | ⟨one, -⟩
          · rw [same]
            exact agreed.ready waits signalled
          · rw [one]
            decide
        · exact fun waits running => flag.trans (agreed.flag waits running)
        · intro result stores
          rcases others worker member inside here child with same | taken
          · exact same.trans (agreed.code result stores)
          · have signalled := signalled_of_stores entered child stores
            rw [taken signalled] at stores
            exact code.trans stores
      · exact agreed changed before
  · intro other same past changed found
    cases same
    rcases changes _ changed found with ⟨-, rfl⟩ | ⟨apart, -⟩
    · exact code
    · exact absurd rfl apart

theorem Paired.storeCode (sound : state.Sound) (allowed : state.Allowed .storeCode)
    (step : state.storeCode = some state') : state'.Paired := by
  obtain ⟨frame, parentproc, entered, here, record, rfl⟩ := inExit_eq_some_iff.mp step
  apply paired.served sound entered (by simp [here]) record
  · exact fun _ => rfl
  · rfl
  · rfl
  · exact Or.inl rfl
  · intro past
    cases past
  · intro worker member inside own _
    exact Or.inr (allowed frame entered worker member own inside)

theorem Paired.termSem_eq_zero (member : worker ∈ state.workers) (waits : worker.stage = .termDown)
    (pending : ¬ (state.childStatus worker).Signalled)
    (record : state.prcGetProc worker.proc = some proc) : proc.termSem = 0 := by
  by_contra token
  obtain ⟨-, i, other, there, same, waits', signalled⟩ := paired.tokens _ proc record token
  obtain ⟨j, here⟩ := List.getElem?_of_mem member
  have inside : ∀ worker ∈ state.workers, worker.stage = .termDown →
      worker.Inside := by
    intro worker member waits
    exact ⟨(paired.workers worker member).sync waits, by simp [waits]⟩
  have equal := paired.alone i j other worker there here
    (inside other (List.mem_of_getElem? there) waits')
    (inside worker member waits) same
  rw [equal, here] at there
  cases there
  exact pending signalled

/-- The parent is woken for a child that its worker waits for. -/
theorem Paired.signal (sound : state.Sound) (allowed : state.Allowed .signal)
    (step : state.signal = some state') : state'.Paired := by
  obtain ⟨frame, parentproc, entered, here, record, rfl⟩ := inExit_eq_some_iff.mp step
  have frameSound := sound.frames frame entered
  have code : parentproc.termCode = frame.result :=
    paired.left frame entered (by simp [here]) parentproc record
  have pending : ∀ {worker : Worker}, worker.child = some frame.proc →
      ¬ (state.childStatus worker).Signalled := by
    intro worker child
    rw [childStatus_of_child child, status_frame sound entered, here]
    exact id
  by_cases unblocks : state.unblocks frame parentproc = true
  · obtain ⟨worker, member, child, waits⟩ := allowed frame entered parentproc record unblocks
    have own := frameSound.parent worker member child
    have zero := paired.termSem_eq_zero member waits (pending child) (own ▸ record)
    simp only [unblocks, if_true]
    apply paired.served sound entered (by simp [here]) record
    · exact fun _ => rfl
    · exact code
    · rfl
    · exact Or.inr ⟨congrArg (· + 1) zero, rfl, worker, member, child, waits⟩
    · exact fun _ _ _ _ _ => Nat.succ_ne_zero _
    · exact fun _ _ _ _ _ => Or.inl rfl
  · simp only [unblocks]
    apply paired.served sound entered (by simp [here]) record
    · exact fun _ => rfl
    · exact code
    · rfl
    · exact Or.inl rfl
    · -- A worker that waits has set `exec_sync`, so that it is unblocked.
      intro _ worker member inside child
      have own := frameSound.parent worker member child
      obtain ⟨-, exec⟩ := paired.waits_of_pending member inside (own ▸ record) (pending child)
      have named := sound.callers worker member
      rw [own] at named
      exact absurd (by simp [State.unblocks, exec, named]) unblocks
    · exact fun _ _ _ _ _ => Or.inl rfl

/-- A process that has left is taken off the list. -/
theorem Paired.destroy (sound : state.Sound)
    (step : state.destroy = some state') : state'.Paired := by
  obtain ⟨frame, entered, done⟩ := Option.bind_eq_some_iff.mp step
  split at done
  · rename_i here
    cases done
    refine Paired.congr paired sound rfl ?_ ?_ ?_
    · intro other same
      cases same
    · intro p
      by_cases own : p = frame.proc
      · rw [own, status_frame sound entered, here, status_of_ne]
        · show Option.elim (state.result frame.proc) _ _ = _
          rw [(sound.frames frame entered).result]
          rfl
        · intro other same
          cases same
      · refine status_congr_of_ne rfl ?_ ?_
        · intro other same
          cases entered.symm.trans same
          exact Ne.symm own
        · intro other same
          cases same
    · intro p after found
      by_cases own : p = frame.proc
      · rw [own] at found
        cases Keyed.lookup_remove_self.symm.trans found
      · refine Or.inl ⟨after, ?_, rfl, rfl, id⟩
        exact (Keyed.lookup_remove_of_ne own).symm.trans found
  · cases done

end

end

theorem Paired.step (paired : state.Paired) (sound : state.Sound)
    {action : Action} (allowed : state.Allowed action)
    (step : state.step action = some state') : state'.Paired := by
  cases action with
  | findPath index rc => exact paired.findPath step
  | execCreate index c => exact paired.execCreate sound step
  | loaderExec index taskid rc => exact paired.loaderExec sound allowed step
  | getLoadError index rc => exact paired.getLoadError sound step
  | startupDown index => exact paired.startupDown sound step
  | setSync index => exact paired.setSync sound allowed step
  | termDown index => exact paired.termDown step
  | clearSync index => exact paired.clearSync allowed step
  | readCode index => exact paired.readCode step
  | execPgm pid lthread execFlag pRes => exact paired.execPgm step
  | appNotify1 pid lthread => exact paired.appNotify1 sound step
  | appNotify2 thread c =>
    change state.appNotify2 thread c = some state' at step
    unfold appNotify2 at step
    split at step
    · split at step
      · cases step
        exact paired
      · cases step
        exact paired.enlist sound (allowed ‹_›) (Or.inr rfl) c
    · cases step
  | sysinitExec thread c =>
    cases step
    exact paired.enlist sound allowed (Or.inl rfl) c
  | exit pid lthread result => exact paired.exit sound step
  | storeCode => exact paired.storeCode sound allowed step
  | signal => exact paired.signal sound allowed step
  | destroy => exact paired.destroy sound step

variable {sysinitId : Thread} {c : Process}

theorem paired_of_run (run : RunsTo AllowedStep (start sysinitId c) state) :
    state.Sound ∧ state.Paired := by
  induction run with
  | refl => exact ⟨Sound.start sysinitId c, Paired.start sysinitId c⟩
  | tail _ step ih =>
    obtain ⟨sound, paired⟩ := ih
    obtain ⟨action, allowed, step⟩ := step
    exact ⟨sound.step allowed step, paired.step sound allowed step⟩

/-- All the steps are allowed. -/
def permits : State → List Action → Bool
  | _, [] => true
  | state, action :: actions =>
    decide (state.Allowed action) && (state.step action).all fun after => after.permits actions

theorem runsTo_of_steps {actions : List Action}
    (steps : state.steps actions = some state') : RunsTo Step state state' := by
  induction actions generalizing state with
  | nil =>
    cases steps
    exact .refl
  | cons action actions ih =>
    obtain ⟨after, step, steps⟩ := Option.bind_eq_some_iff.mp steps
    exact .head ⟨action, step⟩ (ih steps)

theorem runsTo_of_permits {actions : List Action} (steps : state.steps actions = some state')
    (permits : state.permits actions = true) :
    RunsTo AllowedStep state state' := by
  induction actions generalizing state with
  | nil =>
    cases steps
    exact .refl
  | cons action actions ih =>
    obtain ⟨after, step, steps⟩ := Option.bind_eq_some_iff.mp steps
    rw [State.permits, step, Bool.and_eq_true] at permits
    exact .head ⟨action, of_decide_eq_true permits.1, step⟩ (ih steps permits.2)

/-- Fresh memory. -/
def cleared : Process :=
  { pid := 0, pibUlppid := 0, task := { task := 0, lthread := 0 }
    execSync := false, startupSem := 0, termSem := 0, termCode := 0 }

/-- `sysinit` starts the shell, which executes a program synchronously.  The
program has started, and the worker is about to set `exec_sync`. -/
def startChild : List Action :=
  [.sysinitExec { task := 2, lthread := 0 } cleared, .appNotify1 1 0,
    .execPgm 1 0 EXEC_SYNC { codeTerminate := 0, codeResult := 0 },
    .findPath 0 0, .execCreate 0 cleared,
    .loaderExec 0 { task := 3, lthread := 0 } 0, .appNotify1 2 0,
    .getLoadError 0 0, .startupDown 0]

/-- The program leaves with the code 7. -/
def leaveChild : List Action := [.exit 2 0 7, .storeCode, .signal, .destroy]

/-- A server has been started. -/
def started : State :=
  start { task := 1, lthread := 0 } cleared

/-- The shell has executed the program, and the worker has ended. -/
def childWaited : State :=
  { procRoot :=
      [{ cleared with task := { task := 1, lthread := 0 }, startupSem := 1 },
        { cleared with pid := 1, task := { task := 2, lthread := 0 }
                       termCode := 7 }]
    nextPid := 3
    workers :=
      [{ proc := 1, execFlag := EXEC_SYNC
         pRes := { codeTerminate := 0, codeResult := 7 }
         rc := 0, child := some 2, stage := .done, wakes := 1 }]
    programs :=
      [{ pid := 1, task := 2, phase := .notified },
        { pid := 2, task := 3, phase := .exited 7 }]
    exiting := none
    sysinitId := { task := 1, lthread := 0 } }

/-- The program has left before the worker of the shell has set `exec_sync`. -/
def childEarly : State := { childWaited with
    procRoot :=
      [{ cleared with task := { task := 1, lthread := 0 }, startupSem := 1 },
        { cleared with pid := 1, task := { task := 2, lthread := 0 }
                       execSync := true, termCode := 7 }]
    workers :=
      [{ proc := 1, execFlag := EXEC_SYNC
         pRes := { codeTerminate := 0, codeResult := 0 }
         rc := 0, child := some 2, stage := .termDown, wakes := 0 }] }

end State

end OsFree.Prcmgr
