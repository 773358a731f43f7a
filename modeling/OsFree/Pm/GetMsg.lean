import OsFree.Machine.Word
import OsFree.Pm.Habs
import OsFree.Pm.QueueThreads

/-!
# Getting messages

A client thread asks the server how many messages there are for its anchor block
and then fetches one, unless there are messages in its local queue.  Between the
two requests other clients go on posting.
-/

namespace OsFree.Pm

open Machine

/-- `WM_QUIT`. -/
def WM_QUIT : UInt32 := 0x2a

/-- Where a thread is in `Win32GetMsg`, with `nmsg` if it has been set: not in it,
before it looks at the local queue, and behind a request for the number of
messages or for a message, which the server has tested last. -/
inductive Phase where
  | idle
  | looking (nmsg : Option Nat)
  | counting (nmsg : Option Nat)
  | getting (nmsg : Nat)
  | taking (nmsg : Nat)

/-- The server with its threads, the local queue of the anchor block, and what
the calls have stored and returned. -/
structure Session (Thread : Type) where
  workers : Workers Thread
  pQueue : Option FsQueue
  phase : Phase
  returned : List (Option QMsg × Bool)

/-- What happens: a worker of another client does something, the local queue
becomes another one, the thread calls `Win32GetMsg`, or it goes on in it. -/
inductive MsgEvent (Thread : Type) where
  | other (thread : Thread) (action : Act)
  | fill (pQueue : Option FsQueue)
  | call (pqmsg : Bool) (habs : HabTable)
  | go

namespace Session

variable {Thread : Type}

/-- The call returns, with the message that it has stored if any. -/
def finish (session : Session Thread) (stored : Option QMsg) (brc : Bool) :
    Session Thread :=
  { session with
    phase := .idle
    returned := session.returned ++ [(stored, brc)] }

/-- Sleep at the end of the loop, which goes on while `nmsg` is 0. -/
def sleep (session : Session Thread) : Option Nat → Run (Session Thread)
  | none => .error .uninitialised
  | some 0 => .ok { session with phase := .looking (some 0) }
  | some (_ + 1) => .ok (session.finish none true)

/-- Whether the message is not `WM_QUIT`. -/
def goesOn (msg : QMsg) : Bool := msg.msg != WM_QUIT

/-- The server has started and the thread has made no call. -/
structure Started (session : Session Thread) : Prop where
  workers : session.workers.Started
  phase : session.phase = .idle
  returned : session.returned = []

/-- Every call has returned a message, with FALSE for `WM_QUIT` only; and the
messages that were accepted for the anchor block are those that calls have
returned and then those in the queue, in this order. -/
structure Delivered (session : Session Thread) (ihab : UInt32) : Prop where
  stored : ∀ answer ∈ session.returned, ∃ msg, answer = (some msg, goesOn msg)
  once : (session.workers.accepted.filter (FsQueue.isFor ihab)).map SQMsg.qmsg =
    session.returned.filterMap Prod.fst ++
      (session.workers.queue.messages.filter (FsQueue.isFor ihab)).map SQMsg.qmsg

variable [DecidableEq Thread] (circle : Bool) (own : Thread) (ihab : UInt32)

/-- Go on with a call.  The message from the local queue is only in a local
variable when the call returns. -/
def go (session : Session Thread) : Option (Run (Session Thread)) :=
  match session.phase with
  | .idle => none
  | .looking nmsg =>
    match session.pQueue with
    | none => some (.error .nullPointer)
    | some q =>
      if q.length = 0 then
        some (.ok { session with phase := .counting nmsg })
      else
        let answer := q.get true
        let session := { session with pQueue := some answer.2.2 }
        match answer.2.1 with
        | some fpmqmsg =>
          some (.ok (session.finish none (goesOn fpmqmsg.qmsg)))
        | none => some (session.sleep nmsg)
  | .counting _ =>
    let nmsg := session.workers.queue.queryNmsg ihab
    if 0 < nmsg then some (.ok { session with phase := .getting nmsg })
    else some (session.sleep (some nmsg))
  | .getting nmsg =>
    match session.workers.queue.getTest true with
    | some _ => some (session.sleep (some nmsg))
    | none =>
      (session.workers.act circle own (.fetch true ihab)).map fun workers =>
        .ok { session with workers, phase := .taking nmsg }
  | .taking nmsg =>
    let answer := session.workers.queue.getLocked ihab
    (session.workers.act circle own .enter).map fun workers =>
      let session := { session with workers }
      match answer.2.1 with
      | some sqmsg =>
        .ok (session.finish (some sqmsg.qmsg) (goesOn sqmsg.qmsg))
      | none => session.sleep (some nmsg)

/-- What an event comes to, if it can happen. -/
def handle (session : Session Thread) : MsgEvent Thread → Option (Run (Session Thread))
  | .other thread action =>
    (session.workers.act circle thread action).map fun workers =>
      .ok { session with workers }
  | .fill pQueue => some (.ok { session with pQueue })
  | .call pqmsg habs =>
    match session.phase with
    | .idle =>
      if !pqmsg then some (.ok (session.finish none true))
      else if habs.queryHABexist (signedLong ihab) ≠ 1 then
        some (.ok (session.finish none true))
      else some (.ok { session with phase := .looking none })
    | _ => none
  | .go => session.go circle own ihab

/-- Workers of other clients fetch for other anchor blocks. -/
def Valid : MsgEvent Thread → Prop
  | .other thread action =>
    thread ≠ own ∧ ∀ pmsg iHab, action = .fetch pmsg iHab → iHab ≠ ihab
  | _ => True

/-- Messages are posted where there is room, before the lock and behind it; the
anchor block is in the first slot and there is a place for the message; and the
local queue is there and empty when it is looked at. -/
def Allows (session : Session Thread) : MsgEvent Thread → Prop
  | .other thread action =>
    session.workers.Allows thread action ∧ ∀ msg, action = .add (some msg) →
        session.workers.queue.addTest circle = none
  | .call pqmsg habs =>
    pqmsg = true ∧ habs.queryHABexist (signedLong ihab) = 1
  | .go =>
    ∀ nmsg, session.phase = .looking nmsg → ∃ q, session.pQueue = some q ∧ q.length = 0
  | _ => True

/-- A step for any event. -/
def Step (session session' : Session Thread) : Prop := ∃ event, Valid own ihab event ∧
    session.handle circle own ihab event = some (.ok session')

/-- A step for an allowed event. -/
def AllowedStep (session session' : Session Thread) : Prop :=
  ∃ event, Valid own ihab event ∧ session.Allows circle ihab event ∧
    session.handle circle own ihab event = some (.ok session')

end Session

/-!
## Runs of calls for messages

What keeps a call right between its two requests is that nobody else fetches
messages for its anchor block, so a message that has been counted is still there
when it is fetched.
-/

namespace Workers

variable {Thread : Type} [DecidableEq Thread] {circle : Bool}
  {workers workers' : Workers Thread} {thread other : Thread} {action : Act}
  {ihab iHab : UInt32}

theorem doing_of_ne (acted : Acted circle workers thread action workers')
    (different : other ≠ thread) :
    workers'.doing other = workers.doing other := by
  cases acted with
  | stays => rfl
  | addTest => exact Function.update_of_ne different ..
  | fetchTest => exact Function.update_of_ne different ..
  | addLocked => exact Function.update_of_ne different ..
  | getLocked => exact Function.update_of_ne different ..

theorem fetching_of_acted (acted : Acted circle workers thread action workers')
    (fetching : workers'.doing thread = .fetching iHab) :
    workers.doing thread = .fetching iHab ∨
      ∃ pmsg, action = .fetch pmsg iHab := by
  cases acted with
  | stays => exact .inl fetching
  | addTest =>
    dsimp only at fetching
    rw [Function.update_self] at fetching
    cases fetching
  | fetchTest =>
    dsimp only at fetching
    rw [Function.update_self] at fetching
    cases fetching
    exact .inr ⟨_, rfl⟩
  | addLocked =>
    dsimp only at fetching
    rw [Function.update_self] at fetching
    cases fetching
  | getLocked =>
    dsimp only at fetching
    rw [Function.update_self] at fetching
    cases fetching

theorem kept_of_acted (good : workers.Good) (allowed : workers.Allows thread action)
    (acted : Acted circle workers thread action workers')
    (elsewhere : ∀ iHab, workers.doing thread = .fetching iHab → iHab ≠ ihab) :
    workers'.fetchedFor ihab = workers.fetchedFor ihab ∧
      ∀ msg ∈ workers.queue.messages, FsQueue.isFor ihab msg = true →
        msg ∈ workers'.queue.messages := by
  cases acted with
  | stays => exact ⟨rfl, fun _ member _ => member⟩
  | addTest => exact ⟨rfl, fun _ member _ => member⟩
  | fetchTest => exact ⟨rfl, fun _ member _ => member⟩
  | @addLocked added adding =>
    have room := allowed added adding
    refine ⟨rfl, fun msg member _ => ?_⟩
    rw [(FsQueue.addLocked_of_lt circle room added).2.1]
    exact List.mem_append_left _ member
  | @getLocked iHab fetching =>
    have other := elsewhere iHab fetching
    obtain ⟨stored, rest, -⟩ := FsQueue.getLocked_eq good.fits iHab
    constructor
    · simp [fetchedFor, other]
    · intro msg member mine
      dsimp only
      rw [rest, List.mem_eraseP_of_neg]
      · exact member
      · simp only [FsQueue.isFor, beq_iff_eq] at mine ⊢
        exact fun theirs => other (theirs.symm.trans mine)

end Workers

namespace Session

variable {Thread : Type}

/-- The workers are right; calls have returned what was fetched for the anchor
block; nobody else fetches for it; and a message that has been counted is still
there. -/
structure Kept (session : Session Thread) (own : Thread) (ihab : UInt32) :
    Prop where
  good : session.workers.Good
  answers : session.returned = (session.workers.fetchedFor ihab).map fun msg =>
      (some msg.qmsg, goesOn msg.qmsg)
  others : ∀ thread iHab, session.workers.doing thread = .fetching iHab → thread ≠ own → iHab ≠ ihab
  idle : (∀ nmsg, session.phase ≠ .taking nmsg) → session.workers.doing own = .free
  taking : ∀ nmsg, session.phase = .taking nmsg → session.workers.doing own = .fetching ihab
  counted : ∀ nmsg, session.phase = .getting nmsg ∨ session.phase = .taking nmsg →
    ∃ msg ∈ session.workers.queue.messages, FsQueue.isFor ihab msg = true

variable {session session' : Session Thread} {own : Thread} {ihab : UInt32}

theorem Started.kept (started : session.Started) : session.Kept own ihab where
  good := started.workers.good
  answers := by
    simp [started.returned, Workers.fetchedFor, started.workers.fetched]
  others := by
    intro thread iHab fetching
    rw [started.workers.free] at fetching
    cases fetching
  idle := fun _ => started.workers.free own
  taking := by
    intro nmsg taking
    rw [started.phase] at taking
    cases taking
  counted := by
    intro nmsg counted
    rw [started.phase] at counted
    rcases counted with getting | taking
    · cases getting
    · cases taking

namespace Kept

theorem delivered (kept : session.Kept own ihab) : session.Delivered ihab where
  stored := by
    intro answer member
    rw [kept.answers] at member
    obtain ⟨msg, -, rfl⟩ := List.mem_map.mp member
    exact ⟨msg.qmsg, rfl⟩
  once := by
    have stored : session.returned.filterMap Prod.fst =
        (session.workers.fetchedFor ihab).map SQMsg.qmsg := by
      rw [kept.answers, List.filterMap_map, ← List.filterMap_eq_map]
      rfl
    rw [stored, kept.good.inOrder, List.map_append]

theorem withPhase (kept : session.Kept own ihab) {phase : Phase}
    (before : ∀ nmsg, session.phase ≠ .taking nmsg)
    (after : ∀ nmsg, phase ≠ .getting nmsg ∧ phase ≠ .taking nmsg)
    (pQueue : Option FsQueue) :
    Kept { session with phase, pQueue } own ihab where
  good := kept.good
  answers := kept.answers
  others := kept.others
  idle := fun _ => kept.idle before
  taking := fun nmsg taking => absurd taking (after nmsg).2
  counted := by
    rintro nmsg (getting | taking)
    · exact absurd getting (after nmsg).1
    · exact absurd taking (after nmsg).2

variable [DecidableEq Thread] {circle : Bool}

section

variable (kept : session.Kept own ihab)

include kept

theorem other {thread : Thread} {action : Act} {workers : Workers Thread}
    (valid : Valid own ihab (.other thread action))
    (allowed : session.workers.Allows thread action)
    (acted : Workers.Acted circle session.workers thread action workers) :
    Kept { session with workers } own ihab := by
  obtain ⟨different, elsewhere⟩ := valid
  obtain ⟨fetched, stay⟩ := Workers.kept_of_acted kept.good allowed acted
      fun iHab fetching => kept.others thread iHab fetching different
  have mine := Workers.doing_of_ne acted different.symm
  refine ⟨kept.good.acted allowed acted, ?_, ?_, ?_, ?_, ?_⟩
  · dsimp only
    rw [fetched]
    exact kept.answers
  · intro other iHab fetching notOwn
    by_cases same : other = thread
    · subst same
      rcases Workers.fetching_of_acted acted fetching with before | ⟨pmsg, asks⟩
      · exact kept.others other iHab before notOwn
      · exact elsewhere pmsg iHab asks
    · rw [Workers.doing_of_ne acted same] at fetching
      exact kept.others other iHab fetching notOwn
  · intro before
    exact mine.trans (kept.idle before)
  · intro nmsg taking
    exact mine.trans (kept.taking nmsg taking)
  · intro nmsg counted
    obtain ⟨msg, member, isFor⟩ := kept.counted nmsg counted
    exact ⟨msg, stay msg member isFor, isFor⟩

theorem go_counting (circle : Bool) {nmsg : Option Nat} (phase : session.phase = .counting nmsg) :
    ∃ session', session.go circle own ihab = some (.ok session') ∧
      session'.Kept own ihab := by
  have before : ∀ nmsg, session.phase ≠ .taking nmsg := by
    intro nmsg taking
    rw [phase] at taking
    cases taking
  by_cases some : 0 < session.workers.queue.queryNmsg ihab
  · refine ⟨{ session with
      phase := .getting (session.workers.queue.queryNmsg ihab) }, ?_, ?_⟩
    · simp [go, phase, some]
    · refine ⟨kept.good, kept.answers, kept.others, fun _ => kept.idle before, ?_, ?_⟩
      · intro nmsg taking
        cases taking
      · intro nmsg _
        rw [FsQueue.queryNmsg_eq] at some
        exact List.countP_pos_iff.mp some
  · have none : session.workers.queue.queryNmsg ihab = 0 := Nat.eq_zero_of_not_pos some
    refine ⟨{ session with phase := .looking (.some 0) }, ?_, ?_⟩
    · simp [go, phase, none, sleep]
    · refine kept.withPhase before (fun nmsg => ⟨?_, ?_⟩) session.pQueue
      · intro getting
        cases getting
      · intro taking
        cases taking

/-- The server tests the queue for a message that has been counted. -/
theorem go_getting (circle : Bool) {nmsg : Nat} (phase : session.phase = .getting nmsg) :
    ∃ session', session.go circle own ihab = some (.ok session') ∧
      session'.Kept own ihab := by
  obtain ⟨msg, member, isFor⟩ := kept.counted nmsg (.inl phase)
  have filled : session.workers.queue.length ≠ 0 := by
    rw [← FsQueue.length_messages]
    exact Nat.ne_of_gt (List.length_pos_of_mem member)
  have passed : session.workers.queue.getTest true = none := by
    simp [FsQueue.getTest, filled]
  have free : session.workers.doing own = .free := by
    apply kept.idle
    intro nmsg taking
    rw [phase] at taking
    cases taking
  have acted : session.workers.act circle own (.fetch true ihab) = some { session.workers with
        doing := Function.update session.workers.doing own
          (.fetching ihab) } := by
    simp only [Workers.act, free, passed]
  refine ⟨{ session with
    workers := { session.workers with
      doing := Function.update session.workers.doing own (.fetching ihab) }
    phase := .taking nmsg }, ?_, ?_⟩
  · simp only [go, phase, passed, acted, Option.map_some]
  · refine ⟨⟨kept.good.fits, kept.good.inOrder, kept.good.own⟩, kept.answers, ?_, ?_, ?_, ?_⟩
    · intro thread iHab fetching notOwn
      dsimp only at fetching
      rw [Function.update_of_ne notOwn] at fetching
      exact kept.others thread iHab fetching notOwn
    · intro before
      exact absurd rfl (before nmsg)
    · intro _ _
      exact Function.update_self ..
    · intro _ _
      exact ⟨msg, member, isFor⟩

/-- The message is fetched, stored and returned. -/
theorem go_taking (circle : Bool) {nmsg : Nat} (phase : session.phase = .taking nmsg) :
    ∃ session', session.go circle own ihab = some (.ok session') ∧
      session'.Kept own ihab := by
  obtain ⟨counted, member, isFor⟩ := kept.counted nmsg (.inr phase)
  have fetching := kept.taking nmsg phase
  obtain ⟨stored, -, -⟩ := FsQueue.getLocked_eq kept.good.fits ihab
  have found : ∃ msg, (session.workers.queue.getLocked ihab).2.1 =
      some msg := by
    rw [stored, ← Option.isSome_iff_exists, List.find?_isSome]
    exact ⟨counted, member, isFor⟩
  obtain ⟨msg, found⟩ := found
  have good := kept.good.getLocked ihab (Function.update session.workers.doing own .free)
  rw [found, Option.toList_some, List.map_cons, List.map_nil] at good
  have acted : session.workers.act circle own .enter = some { session.workers with
        queue := (session.workers.queue.getLocked ihab).2.2
        doing := Function.update session.workers.doing own .free
        fetched := session.workers.fetched ++ [(ihab, msg)] } := by
    simp only [Workers.act, fetching, found, Option.toList_some, List.map_cons, List.map_nil]
  refine ⟨{ session with
    workers := { session.workers with
      queue := (session.workers.queue.getLocked ihab).2.2
      doing := Function.update session.workers.doing own .free
      fetched := session.workers.fetched ++ [(ihab, msg)] }
    phase := .idle
    returned := session.returned ++ [(some msg.qmsg, goesOn msg.qmsg)] },
    ?_, ?_⟩
  · simp only [go, phase, acted, found, Option.map_some, finish]
  · refine ⟨good, ?_, ?_, ?_, ?_, ?_⟩
    · have fetched := @Workers.fetchedFor_append _ session.workers (ihab, msg) ihab
      change session.returned ++ _ = (Workers.fetchedFor { session.workers with
          fetched := session.workers.fetched ++ [(ihab, msg)] } ihab).map _
      rw [fetched, if_pos rfl, List.map_append, kept.answers]
      rfl
    · intro thread iHab fetching notOwn
      dsimp only at fetching
      rw [Function.update_of_ne notOwn] at fetching
      exact kept.others thread iHab fetching notOwn
    · intro _
      exact Function.update_self ..
    · intro nmsg taking
      cases taking
    · rintro nmsg (getting | taking)
      · cases getting
      · cases taking

/-- Going on with a call that looks at an empty local queue. -/
theorem go (allowed : session.Allows circle ihab .go) {outcome : Run (Session Thread)}
    (gone : session.go circle own ihab = some outcome) :
    ∃ session', outcome = .ok session' ∧ session'.Kept own ihab := by
  have one : ∀ session', session.go circle own ihab = some (.ok session') → session'.Kept own ihab →
        ∃ session', outcome = .ok session' ∧ session'.Kept own ihab := by
    intro session' gone' kept'
    rw [gone] at gone'
    cases gone'
    exact ⟨session', rfl, kept'⟩
  cases phase : session.phase with
  | idle =>
    simp only [Session.go, phase] at gone
    cases gone
  | looking nmsg =>
    obtain ⟨q, there, empty⟩ := allowed nmsg phase
    refine one { session with phase := .counting nmsg } ?_ ?_
    · simp only [Session.go, phase, there, empty, ↓reduceIte]
    · refine kept.withPhase (fun nmsg taking => ?_)
        (fun nmsg => ⟨fun getting => ?_, fun taking => ?_⟩) session.pQueue
      · rw [phase] at taking
        cases taking
      · cases getting
      · cases taking
  | counting nmsg =>
    obtain ⟨session', gone', kept'⟩ := kept.go_counting circle phase
    exact one session' gone' kept'
  | getting nmsg =>
    obtain ⟨session', gone', kept'⟩ := kept.go_getting circle phase
    exact one session' gone' kept'
  | taking nmsg =>
    obtain ⟨session', gone', kept'⟩ := kept.go_taking circle phase
    exact one session' gone' kept'

theorem handle {event : MsgEvent Thread}
    (valid : Valid own ihab event) (allowed : session.Allows circle ihab event)
    {outcome : Run (Session Thread)}
    (handled : session.handle circle own ihab event = some outcome) :
    ∃ session', outcome = .ok session' ∧ session'.Kept own ihab := by
  cases event with
  | other thread action =>
    obtain ⟨workers, acted, rfl⟩ := Option.map_eq_some_iff.mp handled
    exact ⟨_, rfl, kept.other valid allowed.1 (Workers.acted_of_act acted)⟩
  | fill pQueue =>
    cases handled
    exact ⟨_, rfl, kept.good, kept.answers, kept.others, kept.idle, kept.taking, kept.counted⟩
  | call pqmsg habs =>
    obtain ⟨rfl, exist⟩ := allowed
    simp only [Session.handle] at handled
    split at handled
    · rename_i phase
      rw [if_neg (by simp), if_neg (not_not_intro exist)] at handled
      cases handled
      refine ⟨_, rfl, kept.withPhase (fun nmsg taking => ?_)
        (fun nmsg => ⟨fun getting => ?_, fun taking => ?_⟩) session.pQueue⟩
      · rw [phase] at taking
        cases taking
      · cases getting
      · cases taking
    · cases handled
  | go => exact kept.go allowed handled

end

end Kept

variable [DecidableEq Thread] {circle : Bool}

/-- A thread with an empty local queue, at a server with two workers. -/
def quiet : Session Bool where
  workers := Workers.oneSlot
  pQueue := some Workers.oneSlot.queue
  phase := .idle
  returned := []

theorem quiet_started : quiet.Started := ⟨Workers.oneSlot_started, rfl, rfl⟩

/-- The anchor block 5 in the first slot. -/
def firstHab : HabTable :=
  ((⟨1024, 0, fun _ => ⟨false, 0, 0, 0, 0, 0, none⟩⟩ : HabTable).addHAB 1 5 1).2

end Session

end OsFree.Pm
