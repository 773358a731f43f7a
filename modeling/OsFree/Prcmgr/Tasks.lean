import OsFree.Prcmgr.ExecSync

/-!
# Processes and their tasks

A pid is given once, the server finds the record of a running program by its
task, and the record of the process that a worker works for stays on the list
until the worker has ended.
-/

namespace OsFree.Prcmgr

open Machine

namespace State

/-- A call of `CPExit` refers to a program that has left with its result, whose
parent is the process that started it. -/
structure FrameSound (state : State) (frame : Exit) : Prop where
  bound : frame.proc < state.nextPid
  result : state.result frame.proc = some frame.result
  parent : ∀ worker ∈ state.workers, worker.child = some frame.proc → worker.proc = frame.ppid
  alive : state.prcGetProc frame.ppid ≠ none

/-- Pids, tasks and parents are as they should be. -/
structure Sound (state : State) : Prop where
  positive : 0 < state.nextPid
  records : ∀ proc ∈ state.procRoot, proc.pid < state.nextPid
  programs : ∀ pid program, state.program pid = some program → 0 < pid ∧ pid < state.nextPid
  children : ∀ worker ∈ state.workers, ∀ pid, worker.child = some pid →
    0 < pid ∧ pid < state.nextPid
  callers : ∀ worker ∈ state.workers, worker.proc ≠ 0
  apart : ∀ (i j : Nat) (one two : Worker) (pid : Nat),
    state.workers[i]? = some one → state.workers[j]? = some two →
      one.child = some pid → two.child = some pid → i = j
  parents : ∀ worker ∈ state.workers, ∀ proc ∈ state.procRoot,
    worker.child = some proc.pid → proc.pibUlppid = worker.proc
  tasks : ∀ pid program, state.program pid = some program → program.Running →
    ∀ proc ∈ state.procRoot, proc.task.task = program.task → proc.pid = pid
  alive : ∀ worker ∈ state.workers, worker.stage ≠ .done → state.prcGetProc worker.proc ≠ none
  frames : ∀ frame, state.exiting = some frame → state.FrameSound frame

variable {state state' : State} {index pid p lthread task : Nat} {stage : Stage}
  {worker after : Worker} {f : Process → Process}

theorem Sound.start (sysinitId : Thread) (c : Process) : (start sysinitId c).Sound where
  positive := Nat.one_pos
  records := by
    intro proc member
    rw [List.mem_singleton.mp member]
    exact Nat.one_pos
  programs := by
    intro pid program found
    cases found
  children := by
    intro worker member
    cases member
  callers := by
    intro worker member
    cases member
  apart := by
    intro i j one two pid found
    simp [State.start] at found
  parents := by
    intro worker member
    cases member
  tasks := by
    intro pid program found
    cases found
  alive := by
    intro worker member
    cases member
  frames := by
    intro frame entered
    cases entered

theorem Unused.of_program (unused : state.Unused task) {program : Program}
    (found : state.program pid = some program) (runs : program.Running) :
    program.task ≠ task :=
  unused program (Keyed.mem_of_lookup found) runs

theorem prcGetProc_store_ne_none (keeps : ∀ proc, (f proc).pid = proc.pid)
    (alive : state.prcGetProc p ≠ none) :
    (state.store pid f).prcGetProc p ≠ none := by
  rw [prcGetProc_store keeps]
  exact mt Option.map_eq_none_iff.mp alive

theorem mem_procRoot_store {proc : Process} (member : proc ∈ (state.store pid f).procRoot) :
    ∃ before ∈ state.procRoot,
      before.pid = pid ∧ f before = proc ∨ before = proc := by
  obtain ⟨before, known, same⟩ := Keyed.mem_change_iff.mp member
  refine ⟨before, known, ?_⟩
  split at same
  · exact Or.inl ⟨‹_›, same⟩
  · exact Or.inr same

theorem Sound.store (sound : state.Sound) (pids : ∀ proc, (f proc).pid = proc.pid)
    (ppids : ∀ proc, (f proc).pibUlppid = proc.pibUlppid)
    (tasks : ∀ proc ∈ state.procRoot, proc.pid = pid →
      ∀ p program, state.program p = some program → program.Running →
        (f proc).task.task = program.task → proc.pid = p) :
    (state.store pid f).Sound where
  positive := sound.positive
  records := by
    intro proc member
    obtain ⟨before, known, ⟨-, rfl⟩ | rfl⟩ := mem_procRoot_store member
    · rw [pids]
      exact sound.records before known
    · exact sound.records before known
  programs := sound.programs
  children := sound.children
  callers := sound.callers
  apart := sound.apart
  parents := by
    intro worker member proc listed child
    obtain ⟨before, known, ⟨-, rfl⟩ | rfl⟩ := mem_procRoot_store listed
    · rw [ppids]
      rw [pids] at child
      exact sound.parents worker member before known child
    · exact sound.parents worker member before known child
  tasks := by
    intro p program found runs proc listed same
    obtain ⟨before, known, ⟨here, rfl⟩ | rfl⟩ := mem_procRoot_store listed
    · rw [pids]
      exact tasks before known here p program found runs same
    · exact sound.tasks p program found runs before known same
  alive := by
    intro worker member running
    exact prcGetProc_store_ne_none pids (sound.alive worker member running)
  frames := by
    intro frame entered
    have frameSound := sound.frames frame entered
    exact { frameSound with
      alive := prcGetProc_store_ne_none pids frameSound.alive }

theorem Sound.store_of_task (sound : state.Sound) (pids : ∀ proc, (f proc).pid = proc.pid)
    (ppids : ∀ proc, (f proc).pibUlppid = proc.pibUlppid)
    (tasks : ∀ proc, (f proc).task = proc.task) : (state.store pid f).Sound := by
  apply sound.store pids ppids
  intro proc member _ p program found runs same
  rw [tasks] at same
  exact sound.tasks p program found runs proc member same

theorem prcGetProc_addProcess_ne_none {c : Process} {ppid : Nat}
    (alive : state.prcGetProc p ≠ none) :
    (state.addProcess c ppid).prcGetProc p ≠ none := by
  rw [prcGetProc_addProcess]
  intro none
  exact alive (Option.or_eq_none_iff.mp none).1

section

variable (sound : state.Sound)

include sound

theorem Sound.addProcess {c : Process} (unused : state.Unused c.task.task) (ppid : Nat) :
    (state.addProcess c ppid).Sound := by
  have listed : ∀ proc ∈ (state.addProcess c ppid).procRoot,
      proc ∈ state.procRoot ∨ proc = prcCreate c state.nextPid ppid := by
    intro proc member
    exact (List.mem_append.mp member).imp_right List.mem_singleton.mp
  exact
    { positive := Nat.succ_pos _
      records := by
        intro proc member
        rcases listed proc member with known | rfl
        · exact Nat.lt_succ_of_lt (sound.records proc known)
        · exact Nat.lt_succ_self _
      programs := fun pid program found =>
        (sound.programs pid program found).imp_right Nat.lt_succ_of_lt
      children := fun worker member pid child =>
        (sound.children worker member pid child).imp_right Nat.lt_succ_of_lt
      callers := sound.callers
      apart := sound.apart
      parents := by
        intro worker member proc inside child
        rcases listed proc inside with known | rfl
        · exact sound.parents worker member proc known child
        · exact absurd (sound.children worker member _ child).2 (Nat.lt_irrefl _)
      tasks := by
        intro pid program found runs proc inside same
        rcases listed proc inside with known | rfl
        · exact sound.tasks pid program found runs proc known same
        · exact absurd same.symm (unused.of_program found runs)
      alive := fun worker member running =>
        prcGetProc_addProcess_ne_none (sound.alive worker member running)
      frames := by
        intro frame entered
        have frameSound := sound.frames frame entered
        exact
          { bound := Nat.lt_succ_of_lt frameSound.bound
            result := frameSound.result
            parent := frameSound.parent
            alive := prcGetProc_addProcess_ne_none frameSound.alive } }

theorem Sound.addProgram {program : Program} (runs : program.Running) (positive : 0 < program.pid)
    (bound : program.pid < state.nextPid)
    (task : ∀ proc ∈ state.procRoot, proc.task.task = program.task →
      proc.pid = program.pid) : (state.addProgram program).Sound := by
  have found : ∀ pid other, (state.addProgram program).program pid =
      some other → state.program pid = some other ∨
        program.pid = pid ∧ program = other := by
    intro pid other found
    rw [State.program, addProgram_programs, Keyed.lookup_concat, Option.or_eq_some_iff] at found
    rcases found with known | ⟨-, added⟩
    · exact Or.inl known
    · split at added
      · exact Or.inr ⟨‹_›, Option.some.inj added⟩
      · cases added
  exact { sound with
      programs := by
        intro pid other added
        rcases found pid other added with known | ⟨rfl, -⟩
        · exact sound.programs pid other known
        · exact ⟨positive, bound⟩
      tasks := by
        intro pid other added running proc member same
        rcases found pid other added with known | ⟨rfl, rfl⟩
        · exact sound.tasks pid other known running proc member same
        · exact task proc member same
      frames := by
        intro frame entered
        have frameSound := sound.frames frame entered
        exact { frameSound with
          result := (result_addProgram runs).trans frameSound.result } }

theorem Sound.setProgram {g : Program → Program} (pids : ∀ program, (g program).pid = program.pid)
    (tasks : ∀ program, (g program).task = program.task)
    (running : ∀ program, state.program pid = some program → (g program).Running → program.Running)
    (results : ∀ frame, state.exiting = some frame →
      (state.setProgram pid g).result frame.proc = state.result frame.proc) :
    (state.setProgram pid g).Sound := by
  have found : ∀ p other, (state.setProgram pid g).program p = some other →
      ∃ program, state.program p = some program ∧
        program.task = other.task ∧ (other.Running → program.Running) := by
    intro p other changed
    by_cases here : p = pid
    · rw [here, program_setProgram pids, Option.map_eq_some_iff] at changed
      obtain ⟨program, known, rfl⟩ := changed
      exact ⟨program, here ▸ known, (tasks program).symm, running program known⟩
    · rw [State.program, setProgram_programs, Keyed.lookup_change_of_ne pids here] at changed
      exact ⟨other, changed, rfl, id⟩
  exact { sound with
      programs := by
        intro p other changed
        obtain ⟨program, known, -⟩ := found p other changed
        exact sound.programs p program known
      tasks := by
        intro p other changed runs proc member same
        obtain ⟨program, known, task, ran⟩ := found p other changed
        exact sound.tasks p program known (ran runs) proc member (same.trans task.symm)
      frames := by
        intro frame entered
        have frameSound := sound.frames frame entered
        exact { frameSound with
          result := (results frame entered).trans frameSound.result } }

theorem Sound.setWorker (found : state.workers[index]? = some worker)
    (running : worker.stage ≠ .done) (proc : after.proc = worker.proc)
    (child : ∀ pid, after.child = some pid → worker.child = some pid ∨
      (0 < pid ∧ pid < state.nextPid) ∧ (∀ other ∈ state.workers, other.child ≠ some pid) ∧
        (∀ proc ∈ state.procRoot, proc.pid = pid → proc.pibUlppid = worker.proc) ∧
        ∀ frame, state.exiting = some frame → frame.proc ≠ pid) :
    (state.setWorker index after).Sound := by
  have member : worker ∈ state.workers := List.mem_of_getElem? found
  have known : ∀ other ∈ (state.setWorker index after).workers,
      other ∈ state.workers ∨ other = after := fun other inside =>
    List.mem_or_eq_of_mem_set inside
  have own : ∀ (j : Nat) (other : Worker) (pid : Nat),
      state.workers[j]? = some other → other.child = some pid →
        after.child = some pid → index = j := by
    intro j other pid there has same
    rcases child pid same with kept | ⟨-, fresh, -⟩
    · exact sound.apart index j worker other pid found there kept has
    · exact absurd has (fresh other (List.mem_of_getElem? there))
  exact { sound with
      children := by
        intro other inside pid has
        rcases known other inside with old | rfl
        · exact sound.children other old pid has
        · rcases child pid has with kept | ⟨bound, -⟩
          · exact sound.children worker member pid kept
          · exact bound
      callers := by
        intro other inside
        rcases known other inside with old | rfl
        · exact sound.callers other old
        · rw [proc]
          exact sound.callers worker member
      apart := by
        intro i j one two pid first second has has'
        rw [setWorker_workers, List.getElem?_set] at first second
        split at first <;> split at second
        · omega
        · split at first
          · cases first
            exact ‹index = i› ▸ own j two pid second has' has
          · cases first
        · split at second
          · cases second
            exact ‹index = j› ▸ (own i one pid first has has').symm
          · cases second
        · exact sound.apart i j one two pid first second has has'
      parents := by
        intro other inside record listed has
        rcases known other inside with old | rfl
        · exact sound.parents other old record listed has
        · rw [proc]
          rcases child _ has with kept | ⟨-, -, parent, -⟩
          · exact sound.parents worker member record listed kept
          · exact parent record listed rfl
      alive := by
        intro other inside live
        rcases known other inside with old | rfl
        · exact sound.alive other old live
        · rw [proc]
          exact sound.alive worker member running
      frames := by
        intro frame entered
        have frameSound := sound.frames frame entered
        exact { frameSound with
          parent := by
            intro other inside has
            rcases known other inside with old | rfl
            · exact frameSound.parent other old has
            · rw [proc]
              rcases child _ has with kept | ⟨-, -, -, apart⟩
              · exact frameSound.parent worker member kept
              · exact absurd rfl (apart frame entered) } }

theorem Sound.setWorker_of_child (found : state.workers[index]? = some worker)
    (running : worker.stage ≠ .done) (proc : after.proc = worker.proc)
    (child : after.child = worker.child) :
    (state.setWorker index after).Sound :=
  sound.setWorker found running proc fun _ has => Or.inl (child ▸ has)

theorem Sound.addWorker (proc : worker.proc ≠ 0) (alive : state.prcGetProc worker.proc ≠ none)
    (child : worker.child = none) :
    State.Sound { state with workers := state.workers ++ [worker] } := by
  have known : ∀ other ∈ state.workers ++ [worker],
      other ∈ state.workers ∨ other = worker := fun other inside =>
    (List.mem_append.mp inside).imp_right List.mem_singleton.mp
  have found : ∀ (i : Nat) (other : Worker) (pid : Nat),
      (state.workers ++ [worker])[i]? = some other →
        other.child = some pid → state.workers[i]? = some other := by
    intro i other pid there has
    rw [List.getElem?_append] at there
    split at there
    · exact there
    · rw [List.mem_singleton.mp (List.mem_of_getElem? there), child] at has
      cases has
  exact { sound with
      children := by
        intro other inside pid has
        rcases known other inside with old | rfl
        · exact sound.children other old pid has
        · rw [child] at has
          cases has
      callers := by
        intro other inside
        rcases known other inside with old | rfl
        · exact sound.callers other old
        · exact proc
      apart := fun i j one two pid first second has has' =>
        sound.apart i j one two pid (found i one pid first has)
          (found j two pid second has') has has'
      parents := by
        intro other inside record listed has
        rcases known other inside with old | rfl
        · exact sound.parents other old record listed has
        · rw [child] at has
          cases has
      alive := by
        intro other inside live
        rcases known other inside with old | rfl
        · exact sound.alive other old live
        · exact alive
      frames := by
        intro frame entered
        have frameSound := sound.frames frame entered
        exact { frameSound with
          parent := by
            intro other inside has
            rcases known other inside with old | rfl
            · exact frameSound.parent other old has
            · rw [child] at has
              cases has } }

end

section

variable {program : Program} {proc : Process}

section

variable (sound : state.Sound)

include sound

theorem Sound.pid_of_native (found : state.program pid = some program) (runs : program.Running)
    (record : state.prcGetProcNative { task := program.task, lthread } =
      some proc) : proc.pid = pid :=
  sound.tasks pid program found runs proc (mem_of_prcGetProcNative record)
    (task_of_prcGetProcNative record)

theorem Sound.onCaller {next : Worker → Process → Option ((Process → Process) × Worker)}
    (running : stage ≠ .done)
    (keeps : ∀ worker proc f after, next worker proc = some (f, after) →
      (after.proc = worker.proc ∧ after.child = worker.child) ∧ ∀ proc, (f proc).pid = proc.pid ∧
          (f proc).pibUlppid = proc.pibUlppid ∧ (f proc).task = proc.task)
    (step : state.onCaller index stage next = some state') :
    state'.Sound := by
  obtain ⟨worker, proc, f, after, found, here, -, moved, rfl⟩ := onCaller_eq_some_iff.mp step
  obtain ⟨⟨proc, child⟩, fields⟩ := keeps worker proc f after moved
  have stored : (state.store worker.proc f).Sound :=
    sound.store_of_task (fun proc => (fields proc).1)
      (fun proc => (fields proc).2.1) fun proc => (fields proc).2.2
  exact stored.setWorker_of_child found (here ▸ running) proc child

theorem Sound.inExit {exitStage : ExitStage}
    {next : Exit → Process → (Process → Process) × ExitStage}
    (keeps : ∀ frame parentproc proc, ((next frame parentproc).1 proc).pid = proc.pid ∧
        ((next frame parentproc).1 proc).pibUlppid = proc.pibUlppid ∧
        ((next frame parentproc).1 proc).task = proc.task)
    (step : state.inExit exitStage next = some state') : state'.Sound := by
  obtain ⟨frame, parentproc, entered, -, -, rfl⟩ := inExit_eq_some_iff.mp step
  have fields := keeps frame parentproc
  have stored : (state.store frame.ppid (next frame parentproc).1).Sound :=
    sound.store_of_task (fun proc => (fields proc).1)
      (fun proc => (fields proc).2.1) fun proc => (fields proc).2.2
  have frameSound := stored.frames frame entered
  exact { stored with
      frames := by
        intro other same
        cases same
        exact { frameSound with } }

theorem Sound.findPath {rc : UInt32}
    (step : state.findPath index rc = some state') : state'.Sound := by
  obtain ⟨worker, found, here, done⟩ := atStage_eq_some_iff.mp step
  cases done
  apply sound.setWorker_of_child found (by simp [here])
  · split <;> rfl
  · split <;> rfl

theorem Sound.execCreate {c : Process} (unused : state.Unused c.task.task)
    (step : state.execCreate index c = some state') : state'.Sound := by
  obtain ⟨worker, found, here, done⟩ := atStage_eq_some_iff.mp step
  cases done
  have added := sound.addProcess unused worker.proc
  refine added.setWorker found (by simp [here]) rfl ?_
  intro pid child
  cases child
  refine Or.inr ⟨⟨sound.positive, Nat.lt_succ_self _⟩, ?_, ?_, ?_⟩
  · intro other member child
    exact Nat.lt_irrefl _ (sound.children other member _ child).2
  · intro proc member same
    rcases List.mem_append.mp member with known | new
    · exact absurd same (Nat.ne_of_lt (sound.records proc known))
    · rw [List.mem_singleton.mp new]
      rfl
  · intro frame entered
    exact Nat.ne_of_lt (sound.frames frame entered).bound

theorem Sound.storeTask {taskid : Thread} (unused : state.Unused taskid.task) (pid : Nat) :
    (state.store pid fun proc => { proc with task := taskid }).Sound :=
  sound.store (fun _ => rfl) (fun _ => rfl) fun _ _ _ _ _ found runs same =>
    absurd same.symm (unused.of_program found runs)

theorem Sound.loaderExec {taskid : Thread} {rc : UInt32}
    (allowed : state.Allowed (.loaderExec index taskid rc))
    (step : state.loaderExec index taskid rc = some state') :
    state'.Sound := by
  obtain ⟨worker, found, here, done⟩ := atStage_eq_some_iff.mp step
  obtain ⟨pid, child, done⟩ := Option.bind_eq_some_iff.mp done
  have running : worker.stage ≠ .done := by simp [here]
  have may := allowed worker found
  split at done
  · rename_i loads
    cases done
    rw [if_pos loads] at may
    have bounds := sound.children worker (List.mem_of_getElem? found) pid child
    have only : ∀ proc ∈ (state.store pid fun proc =>
        { proc with task := taskid }).procRoot,
          proc.task.task = taskid.task → proc.pid = pid := by
      intro proc member same
      obtain ⟨before, known, ⟨own, rfl⟩ | rfl⟩ := mem_procRoot_store member
      · exact own
      · rw [child] at may
        exact (Option.some.inj (may.2 before known same)).symm
    have added : (((state.store pid fun proc =>
        { proc with task := taskid }).addProgram
          { pid, task := taskid.task, phase := .loaded })).Sound :=
      (sound.storeTask may.1 pid).addProgram (Or.inl rfl) bounds.1 bounds.2 only
    exact added.setWorker_of_child found running rfl rfl
  · rename_i fails
    cases done
    rw [if_neg fails] at may
    exact (sound.storeTask may pid).setWorker_of_child found running rfl rfl

end

theorem terminate_pid (program : Program) :
    program.terminate.pid = program.pid := by
  unfold Program.terminate
  split <;> rfl

theorem result_terminate :
    (state.setProgram pid Program.terminate).result p = state.result p := by
  by_cases here : p = pid
  · rw [here, result_setProgram_self terminate_pid, result]
    congr 1
    funext program
    unfold Program.terminate
    split
    · rename_i runs
      rw [runs.result_eq_none]
      rfl
    · rfl
  · exact result_setProgram terminate_pid here

section

variable (sound : state.Sound)

include sound

theorem Sound.terminate (pid : Nat) :
    (state.setProgram pid Program.terminate).Sound := by
  apply sound.setProgram terminate_pid
  · intro program
    unfold Program.terminate
    split <;> rfl
  · intro program _ runs
    unfold Program.terminate at runs
    split at runs
    · assumption
    · exact runs
  · exact fun _ _ => result_terminate

theorem Sound.getLoadError {rc : UInt32}
    (step : state.getLoadError index rc = some state') : state'.Sound := by
  obtain ⟨worker, found, here, done⟩ := atStage_eq_some_iff.mp step
  obtain ⟨pid, child, done⟩ := Option.bind_eq_some_iff.mp done
  cases done
  have running : worker.stage ≠ .done := by simp [here]
  split
  · exact sound.setWorker_of_child found running rfl rfl
  · exact (sound.terminate pid).setWorker_of_child found running rfl rfl

theorem Sound.execPgm {execFlag : Nat} {pRes : ResultCodes}
    (step : state.execPgm pid lthread execFlag pRes = some state') :
    state'.Sound := by
  obtain ⟨program, proc, found, notified, -, record, done⟩ := call_eq_some_iff.mp step
  cases done
  have own : proc.pid = pid := sound.pid_of_native found (Or.inr notified) record
  apply sound.addWorker
  · show proc.pid ≠ 0
    rw [own]
    exact Nat.ne_of_gt (sound.programs pid program found).1
  · obtain ⟨first, alive⟩ := prcGetProc_of_mem (mem_of_prcGetProcNative record)
    rw [alive]
    exact Option.some_ne_none first
  · rfl

theorem Sound.appNotify1 (step : state.appNotify1 pid lthread = some state') : state'.Sound := by
  obtain ⟨program, proc, found, loaded, idle, record, done⟩ := call_eq_some_iff.mp step
  obtain ⟨parentproc, parent, done⟩ := Option.bind_eq_some_iff.mp done
  cases done
  apply (sound.store_of_task _ _ _).setProgram
  · exact fun _ => rfl
  · exact fun _ => rfl
  · intro other known _
    cases (show state.program pid = some other from known).symm.trans found
    exact Or.inl loaded
  · intro frame entered
    cases (show state.exiting = some frame from entered).symm.trans idle
  · exact fun _ => rfl
  · exact fun _ => rfl
  · exact fun _ => rfl

theorem Sound.enlist {thread : Thread} {phase : Phase} (may : state.MayLoad none thread.task)
    (runs : phase = .loaded ∨ phase = .notified) (c : Process) :
    ((state.addProcess { c with task := thread } 0).addProgram
      { pid := state.nextPid, task := thread.task, phase }).Sound := by
  have added : (state.addProcess { c with task := thread } 0).Sound := sound.addProcess may.1 0
  apply added.addProgram
  · exact runs
  · exact sound.positive
  · exact Nat.lt_succ_self _
  intro proc member same
  rcases List.mem_append.mp member with known | new
  · cases may.2 proc known same
  · rw [List.mem_singleton.mp new]
    rfl

theorem Sound.exit {result : UInt32}
    (step : state.exit pid lthread result = some state') : state'.Sound := by
  obtain ⟨program, proc, found, notified, idle, record, done⟩ := call_eq_some_iff.mp step
  have own : proc.pid = pid := sound.pid_of_native found (Or.inr notified) record
  have left : (state.setProgram pid fun program =>
      { program with phase := .exited result }).Sound := by
    apply sound.setProgram
    · exact fun _ => rfl
    · exact fun _ => rfl
    · intro other _ runs
      rcases runs with loaded | notified
      · cases loaded
      · cases notified
    · intro frame entered
      rw [idle] at entered
      cases entered
  split at done
  · cases done
    exact left
  · rename_i parentproc parent
    cases done
    have member := mem_of_prcGetProcNative record
    exact { left with
        frames := by
          intro frame entered
          cases entered
          exact
            { bound := sound.records proc member
              result := by
                rw [own]
                refine Eq.trans (@result_setProgram_self state pid (fun program =>
                  { program with phase := .exited result }) fun _ => rfl) ?_
                rw [found]
                rfl
              parent := fun worker inside child =>
                (sound.parents worker inside proc member child).symm
              alive := by
                show state.prcGetProc proc.pibUlppid ≠ none
                rw [parent]
                exact Option.some_ne_none parentproc } }

/-- The record of the process that leaves is taken off the list when its own
workers have ended. -/
theorem Sound.destroy (allowed : state.Allowed .destroy)
    (step : state.destroy = some state') : state'.Sound := by
  obtain ⟨frame, entered, done⟩ := Option.bind_eq_some_iff.mp step
  split at done
  · cases done
    have may := allowed frame entered
    exact { sound with
        records := fun proc member =>
          sound.records proc (Keyed.mem_of_mem_remove member)
        parents := fun worker member proc listed =>
          sound.parents worker member proc (Keyed.mem_of_mem_remove listed)
        tasks := fun pid program found runs proc member =>
          sound.tasks pid program found runs proc (Keyed.mem_of_mem_remove member)
        alive := by
          intro worker member running
          have other : worker.proc ≠ frame.proc := fun same =>
            running (may worker member same)
          show Keyed.lookup _ _ _ ≠ none
          rw [Keyed.lookup_remove_of_ne other]
          exact sound.alive worker member running
        frames := by
          intro frame entered
          cases entered }
  · cases done

theorem Sound.step {action : Action}
    (allowed : state.Allowed action) (step : state.step action = some state') :
    state'.Sound := by
  cases action with
  | findPath index rc => exact sound.findPath step
  | execCreate index c => exact sound.execCreate allowed step
  | loaderExec index taskid rc => exact sound.loaderExec allowed step
  | getLoadError index rc => exact sound.getLoadError step
  | startupDown index =>
    refine sound.onCaller (by decide) ?_ step
    intro worker proc f after moved
    split at moved
    · cases moved
    · cases moved
      exact ⟨⟨rfl, rfl⟩, fun _ => ⟨rfl, rfl, rfl⟩⟩
  | setSync index =>
    refine sound.onCaller (by decide) ?_ step
    intro worker proc f after moved
    cases moved
    exact ⟨⟨rfl, rfl⟩, fun _ => ⟨rfl, rfl, rfl⟩⟩
  | termDown index =>
    refine sound.onCaller (by decide) ?_ step
    intro worker proc f after moved
    split at moved
    · cases moved
    · cases moved
      exact ⟨⟨rfl, rfl⟩, fun _ => ⟨rfl, rfl, rfl⟩⟩
  | clearSync index =>
    refine sound.onCaller (by decide) ?_ step
    intro worker proc f after moved
    cases moved
    exact ⟨⟨rfl, rfl⟩, fun _ => ⟨rfl, rfl, rfl⟩⟩
  | readCode index =>
    refine sound.onCaller (by decide) ?_ step
    intro worker proc f after moved
    cases moved
    exact ⟨⟨rfl, rfl⟩, fun _ => ⟨rfl, rfl, rfl⟩⟩
  | execPgm pid lthread execFlag pRes => exact sound.execPgm step
  | appNotify1 pid lthread => exact sound.appNotify1 step
  | appNotify2 thread c =>
    change state.appNotify2 thread c = some state' at step
    unfold appNotify2 at step
    split at step
    · split at step
      · cases step
        exact sound
      · cases step
        exact sound.enlist (allowed ‹_›) (Or.inr rfl) c
    · cases step
  | sysinitExec thread c =>
    cases step
    exact sound.enlist allowed (Or.inl rfl) c
  | exit pid lthread result => exact sound.exit step
  | storeCode =>
    change state.storeCode = some state' at step
    exact sound.inExit (fun _ _ _ => ⟨rfl, rfl, rfl⟩) step
  | signal =>
    change state.signal = some state' at step
    refine sound.inExit ?_ step
    intro frame parentproc proc
    split <;> exact ⟨rfl, rfl, rfl⟩
  | destroy => exact sound.destroy allowed step

end

end

end State

end OsFree.Prcmgr
