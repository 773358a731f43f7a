import OsFree.Pm.Queue

/-!
# Threads at the message queue

The worker threads of the server add and fetch messages.  A thread tests the
length first, and some time later takes the lock.  As long as every thread that
adds a message finds room behind the lock, no message is lost and messages for
one anchor block keep their order.
-/

namespace OsFree.Pm

open Machine

/-- Where a worker thread is: not at the queue, or behind a test and before the
locked section. -/
inductive Doing where
  | free
  | adding (msg : SQMsg)
  | fetching (iHab : UInt32)

/-- What a thread does next. -/
inductive Act where
  | add (pmsg : Option SQMsg)
  | fetch (pmsg : Bool) (iHab : UInt32)
  | enter

/-- The queue and its threads, with the messages for which `add` has returned 0
and the messages that calls have fetched for an anchor block, both in order. -/
structure Workers (Thread : Type) where
  queue : FsQueue
  doing : Thread → Doing
  accepted : List SQMsg
  fetched : List (UInt32 × SQMsg)

namespace Workers

variable {Thread : Type}

section

variable [DecidableEq Thread] (circle : Bool)

/-- The next state, if the thread can do this now. -/
def act (workers : Workers Thread) (thread : Thread) : Act → Option (Workers Thread)
  | .add pmsg =>
    match workers.doing thread, pmsg with
    | .free, none => some workers
    | .free, some msg =>
      match workers.queue.addTest circle with
      | some _ => some workers
      | none =>
        some { workers with
          doing := Function.update workers.doing thread (.adding msg) }
    | _, _ => none
  | .fetch pmsg iHab =>
    match workers.doing thread with
    | .free =>
      match workers.queue.getTest pmsg with
      | some _ => some workers
      | none =>
        some { workers with
          doing := Function.update workers.doing thread (.fetching iHab) }
    | _ => none
  | .enter =>
    match workers.doing thread with
    | .free => none
    | .adding msg =>
      let answer := workers.queue.addLocked circle msg
      some { workers with
          queue := answer.2
          doing := Function.update workers.doing thread .free
          accepted :=
            if answer.1 = 0 then workers.accepted ++ [msg]
            else workers.accepted }
    | .fetching iHab =>
      let answer := workers.queue.getLocked iHab
      some { workers with
          queue := answer.2.2
          doing := Function.update workers.doing thread .free
          fetched := workers.fetched ++ answer.2.1.toList.map fun msg => (iHab, msg) }

/-- A step of any thread. -/
def Step (workers workers' : Workers Thread) : Prop :=
  ∃ thread action, workers.act circle thread action = some workers'

/-- A thread that adds a message finds room behind the lock. -/
def Allows (workers : Workers Thread) (thread : Thread) : Act → Prop
  | .enter =>
    ∀ msg, workers.doing thread = .adding msg → workers.queue.length < workers.queue.lQueuesize
  | _ => True

/-- A step in which nothing is added to a full queue. -/
def AllowedStep (workers workers' : Workers Thread) : Prop :=
  ∃ thread action, workers.Allows thread action ∧ workers.act circle thread action = some workers'

/-- What a thread may have done. -/
inductive Acted (workers : Workers Thread) (thread : Thread) :
    Act → Workers Thread → Prop
  | stays (action : Act) : Acted workers thread action workers
  | addTest {msg : SQMsg} (free : workers.doing thread = .free)
      (passed : workers.queue.addTest circle = none) :
      Acted workers thread (.add (some msg)) { workers with
          doing := Function.update workers.doing thread (.adding msg) }
  | fetchTest {pmsg : Bool} {iHab : UInt32} (free : workers.doing thread = .free)
      (passed : workers.queue.getTest pmsg = none) :
      Acted workers thread (.fetch pmsg iHab) { workers with
          doing := Function.update workers.doing thread (.fetching iHab) }
  | addLocked {msg : SQMsg} (adding : workers.doing thread = .adding msg) :
      Acted workers thread .enter { workers with
          queue := (workers.queue.addLocked circle msg).2
          doing := Function.update workers.doing thread .free
          accepted :=
            if (workers.queue.addLocked circle msg).1 = 0 then
              workers.accepted ++ [msg]
            else workers.accepted }
  | getLocked {iHab : UInt32} (fetching : workers.doing thread = .fetching iHab) :
      Acted workers thread .enter { workers with
          queue := (workers.queue.getLocked iHab).2.2
          doing := Function.update workers.doing thread .free
          fetched := workers.fetched ++ (workers.queue.getLocked iHab).2.1.toList.map
                fun msg => (iHab, msg) }

variable {circle} in
theorem acted_of_act {workers workers' : Workers Thread} {thread : Thread}
    {action : Act} (acted : workers.act circle thread action = some workers') :
    Acted circle workers thread action workers' := by
  cases action with
  | add pmsg =>
    simp only [act] at acted
    split at acted
    · cases acted
      exact .stays _
    · split at acted
      · cases acted
        exact .stays _
      · cases acted
        exact .addTest ‹_› ‹_›
    · cases acted
  | fetch pmsg iHab =>
    simp only [act] at acted
    split at acted
    · split at acted
      · cases acted
        exact .stays _
      · cases acted
        exact .fetchTest ‹_› ‹_›
    · cases acted
  | enter =>
    simp only [act] at acted
    split at acted
    · cases acted
    · cases acted
      exact .addLocked ‹_›
    · cases acted
      exact .getLocked ‹_›

end

/-- An empty queue, and threads that are not at it. -/
structure Started (workers : Workers Thread) : Prop where
  empty : workers.queue.length = 0
  free : ∀ thread, workers.doing thread = .free
  accepted : workers.accepted = []
  fetched : workers.fetched = []

/-- What has been fetched for an anchor block. -/
def fetchedFor (workers : Workers Thread) (iHab : UInt32) : List SQMsg :=
  (workers.fetched.filter fun entry => entry.1 == iHab).map Prod.snd

/-- The queue is within its size; for each anchor block the messages that were
accepted are those that have been fetched for it and then those in the queue, in
this order; and nothing is fetched for another anchor block than its own. -/
structure Good (workers : Workers Thread) : Prop where
  fits : workers.queue.length ≤ workers.queue.lQueuesize
  inOrder : ∀ iHab, workers.accepted.filter (FsQueue.isFor iHab) =
      workers.fetchedFor iHab ++ workers.queue.messages.filter (FsQueue.isFor iHab)
  own : ∀ iHab msg, (iHab, msg) ∈ workers.fetched → msg.ihto = iHab

section

variable {p p' : SQMsg → Bool} {msg : SQMsg} {msgs : List SQMsg}

theorem filter_eq_cons_of_find? (found : msgs.find? p = some msg) :
    msgs.filter p = msg :: (msgs.eraseP p).filter p := by
  induction msgs with
  | nil => cases found
  | cons head tail ih =>
    cases first : p head with
    | true =>
      rw [List.find?_cons_of_pos first] at found
      cases found
      rw [List.filter_cons_of_pos first, List.eraseP_cons_of_pos first]
    | false =>
      rw [List.find?_cons_of_neg (by simp [first])] at found
      rw [List.filter_cons_of_neg (by simp [first]), List.eraseP_cons_of_neg (by simp [first]),
        List.filter_cons_of_neg (by simp [first])]
      exact ih found

theorem filter_eraseP_of_disjoint (disjoint : ∀ msg, p msg = true → p' msg = false) :
    (msgs.eraseP p).filter p' = msgs.filter p' := by
  induction msgs with
  | nil => rfl
  | cons head tail ih =>
    cases first : p head with
    | true =>
      rw [List.eraseP_cons_of_pos first, List.filter_cons_of_neg (by simp [disjoint head first])]
    | false =>
      rw [List.eraseP_cons_of_neg (by simp [first]), List.filter_cons, List.filter_cons, ih]

end

variable {circle : Bool} {workers workers' : Workers Thread} {thread : Thread}

theorem Started.good (started : workers.Started) : workers.Good where
  fits := started.empty ▸ Nat.zero_le _
  inOrder := by
    intro iHab
    have none : workers.queue.messages = [] := by
      apply List.eq_nil_of_length_eq_zero
      rw [FsQueue.length_messages, started.empty]
    simp [fetchedFor, started.accepted, started.fetched, none]
  own := by simp [started.fetched]

theorem allows_of_fetching {iHab : UInt32} (fetching : workers.doing thread = .fetching iHab) :
    workers.Allows thread .enter := by
  intro msg adding
  rw [fetching] at adding
  cases adding

theorem fetchedFor_append (entry : UInt32 × SQMsg) (iHab : UInt32) :
    fetchedFor { workers with fetched := workers.fetched ++ [entry] } iHab =
      workers.fetchedFor iHab ++ if entry.1 = iHab then [entry.2] else [] := by
  unfold fetchedFor
  rw [List.filter_append, List.map_append]
  congr 1
  by_cases same : entry.1 = iHab
  · simp [same]
  · simp [same]

namespace Good

theorem addLocked (good : workers.Good)
    (room : workers.queue.length < workers.queue.lQueuesize) (msg : SQMsg)
    (doing : Thread → Doing) :
    Good { workers with
        queue := (workers.queue.addLocked circle msg).2
        doing
        accepted :=
          if (workers.queue.addLocked circle msg).1 = 0 then
            workers.accepted ++ [msg]
          else workers.accepted } := by
  obtain ⟨rc, added, size⟩ := FsQueue.addLocked_of_lt circle room msg
  constructor
  · change (workers.queue.addLocked circle msg).2.length ≤ _
    rw [← FsQueue.length_messages, added, size, List.length_append, FsQueue.length_messages]
    exact room
  · intro iHab
    rw [if_pos rc]
    change (workers.accepted ++ [msg]).filter _ = workers.fetchedFor iHab ++
        (workers.queue.addLocked circle msg).2.messages.filter _
    rw [added, List.filter_append, List.filter_append, good.inOrder iHab, List.append_assoc]
  · exact good.own

theorem getLocked (good : workers.Good) (iHab : UInt32) (doing : Thread → Doing) : Good
      { workers with
        queue := (workers.queue.getLocked iHab).2.2
        doing
        fetched := workers.fetched ++ (workers.queue.getLocked iHab).2.1.toList.map
              fun msg => (iHab, msg) } := by
  obtain ⟨stored, rest, size⟩ := FsQueue.getLocked_eq good.fits iHab
  have shorter : (workers.queue.getLocked iHab).2.2.length ≤
      (workers.queue.getLocked iHab).2.2.lQueuesize := by
    rw [← FsQueue.length_messages, rest, size]
    refine Nat.le_trans (List.length_eraseP_le ..) ?_
    rw [FsQueue.length_messages]
    exact good.fits
  rw [stored]
  cases found : workers.queue.messages.find? (FsQueue.isFor iHab) with
  | none =>
    have same : (workers.queue.getLocked iHab).2.2.messages =
        workers.queue.messages := by
      rw [rest, List.eraseP_eq_self_iff]
      exact List.find?_eq_none.mp found
    refine ⟨shorter, fun other => ?_, ?_⟩
    · rw [Option.toList_none, List.map_nil, List.append_nil]
      rw [same]
      exact good.inOrder other
    · rw [Option.toList_none, List.map_nil, List.append_nil]
      exact good.own
  | some msg =>
    have isFor : msg.ihto = iHab := by
      have := List.find?_some found
      simpa [FsQueue.isFor] using this
    refine ⟨shorter, fun other => ?_, ?_⟩
    · rw [Option.toList_some, List.map_cons, List.map_nil]
      change _ =
        fetchedFor { workers with fetched := workers.fetched ++ [(iHab, msg)] } other ++
          (workers.queue.getLocked iHab).2.2.messages.filter _
      rw [fetchedFor_append, rest, good.inOrder other, List.append_assoc]
      congr 1
      by_cases same : iHab = other
      · subst same
        rw [if_pos rfl, filter_eq_cons_of_find? found]
        rfl
      · rw [if_neg same, List.nil_append, filter_eraseP_of_disjoint]
        intro msg mine
        simp only [FsQueue.isFor, beq_iff_eq, beq_eq_false_iff_ne] at mine ⊢
        exact fun theirs => same (mine.symm.trans theirs)
    · intro other fetchedMsg member
      rcases List.mem_append.mp member with before | new
      · exact good.own other fetchedMsg before
      · cases List.mem_singleton.mp new
        exact isFor

theorem count_fetchedFor (good : workers.Good) (msg : SQMsg) :
    (workers.fetchedFor msg.ihto).count msg = (workers.fetched.map Prod.snd).count msg := by
  simp only [fetchedFor, List.count_eq_countP, List.countP_map, List.countP_filter]
  refine List.countP_congr fun entry member => ?_
  simp only [Function.comp_apply, Bool.and_eq_true, beq_iff_eq, and_iff_left_iff_imp]
  rintro rfl
  exact (good.own _ _ member).symm

variable [DecidableEq Thread]

theorem acted (good : workers.Good) {action : Act} (allowed : workers.Allows thread action)
    (acted : Acted circle workers thread action workers') : workers'.Good := by
  cases acted with
  | stays => exact good
  | addTest => exact ⟨good.fits, good.inOrder, good.own⟩
  | fetchTest => exact ⟨good.fits, good.inOrder, good.own⟩
  | addLocked adding => exact good.addLocked (allowed _ adding) _ _
  | getLocked => exact good.getLocked _ _

end Good

variable [DecidableEq Thread]

/-- In every run in which each thread that adds a message finds room behind the
lock, the queue stays within its size and every accepted message is fetched once
for its anchor block, in order, or is still in the queue. -/
theorem inOrder_of_run {start : Workers Thread} (started : start.Started)
    (run : RunsTo (AllowedStep circle) start workers) : workers.Good := by
  refine RunsTo.preserves ?_ run started.good
  intro state state' good step
  obtain ⟨thread, action, allowed, acted⟩ := step
  exact good.acted allowed (acted_of_act acted)

/-- In every such run no message is lost or doubled: those that were accepted are those that
have been fetched and those in the queue. -/
theorem conserved_of_run {start : Workers Thread} (started : start.Started)
    (run : RunsTo (AllowedStep circle) start workers) :
    workers.accepted.Perm (workers.fetched.map Prod.snd ++ workers.queue.messages) := by
  have good : workers.Good := by
    refine RunsTo.preserves ?_ run started.good
    intro state state' good step
    obtain ⟨thread, action, allowed, acted⟩ := step
    exact good.acted allowed (acted_of_act acted)
  refine List.perm_iff_count.mpr fun msg => ?_
  have mine : FsQueue.isFor msg.ihto msg = true := beq_self_eq_true _
  rw [← List.count_filter mine, good.inOrder, List.count_append, List.count_append,
    List.count_filter mine, good.count_fetchedFor]

/-- A message for an anchor block. -/
def messageFor (iHab msg : UInt32) : SQMsg := ⟨⟨iHab, msg, 0, 0, 0, (0, 0), 0⟩, iHab, 0⟩

/-- An empty queue of one slot, and two threads. -/
def oneSlot : Workers Bool where
  queue := ⟨0, 0, 1, fun _ => messageFor 0 0, Nat.one_pos⟩
  doing _ := .free
  accepted := []
  fetched := []

theorem oneSlot_started : oneSlot.Started where
  empty := rfl
  free _ := rfl
  accepted := rfl
  fetched := rfl

/-- Steps of threads one after another. -/
def acts (circle : Bool) (workers : Workers Thread) : List (Thread × Act) → Option (Workers Thread)
  | [] => some workers
  | (thread, action) :: rest =>
    (workers.act circle thread action).bind fun workers =>
      acts circle workers rest

theorem runsTo_of_acts {steps : List (Thread × Act)}
    (ran : workers.acts circle steps = some workers') :
    RunsTo (Step circle) workers workers' := by
  induction steps generalizing workers with
  | nil =>
    cases ran
    exact .refl
  | cons step rest ih =>
    obtain ⟨next, acted, ran⟩ := Option.bind_eq_some_iff.mp ran
    exact .head ⟨step.1, step.2, acted⟩ (ih ran)

/-- One thread adds a message, and another one fetches it. -/
theorem oneMessage_fetched : ∃ workers : Workers Bool,
      workers.fetched = [(7, messageFor 7 1)] ∧ workers.Good := by
  have run : RunsTo (AllowedStep false) oneSlot _ :=
    .head ⟨false, .add (some (messageFor 7 1)), trivial, rfl⟩ <|
    .head ⟨false, .enter, fun _ _ => Nat.one_pos, rfl⟩ <|
    .head ⟨true, .fetch true 7, trivial, rfl⟩ <|
    .single ⟨true, .enter, allows_of_fetching rfl, rfl⟩
  exact ⟨_, rfl, inOrder_of_run oneSlot_started run⟩

/-- A message is added, and fetched by the other thread. -/
theorem conserved_of_run_oneMessage : ∃ workers : Workers Bool,
    workers.fetched = [(7, messageFor 7 1)] ∧
      workers.accepted.Perm (workers.fetched.map Prod.snd ++ workers.queue.messages) := by
  have run : RunsTo (AllowedStep false) oneSlot _ :=
    .head ⟨false, .add (some (messageFor 7 1)), trivial, rfl⟩ <|
    .head ⟨false, .enter, fun _ _ => Nat.one_pos, rfl⟩ <|
    .head ⟨true, .fetch true 7, trivial, rfl⟩ <|
    .single ⟨true, .enter, allows_of_fetching rfl, rfl⟩
  exact ⟨_, rfl, conserved_of_run oneSlot_started run⟩

/-- Two threads pass the test before one of them adds its message. -/
theorem secondAdd_overfills : ¬ ∀ start workers : Workers Bool, start.Started →
      RunsTo (Step false) start workers → workers.Good := by
  intro claim
  have run := runsTo_of_acts (rfl : oneSlot.acts false
      [(false, .add (some (messageFor 7 1))), (true, .add (some (messageFor 7 2))),
        (false, .enter), (true, .enter)] = some _)
  exact absurd (claim _ _ oneSlot_started run).fits (Nat.not_succ_le_self 1)

end Workers
end OsFree.Pm
