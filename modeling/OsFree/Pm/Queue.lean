import OsFree.Machine.Ring
import OsFree.Machine.Transition

/-!
# The message queue of the window server

A queue is a ring of slots with a number of messages from a slot on.  Adding and
fetching first look at the number of messages and then take the lock, so each of
them is a test and a locked section.
-/

namespace OsFree.Pm

open Machine

/-- A message. -/
structure QMsg where
  hwnd : UInt32
  msg : UInt32
  mp1 : UInt32
  mp2 : UInt32
  time : UInt32
  ptl : UInt32 × UInt32
  reserved : UInt32
  deriving DecidableEq

/-- A message in the server, with the anchor blocks it goes to and comes from. -/
structure SQMsg where
  qmsg : QMsg
  ihto : UInt32
  ihfrom : UInt32
  deriving DecidableEq

/-- A message queue. -/
structure FsQueue where
  length : Nat
  start : Nat
  lQueuesize : Nat
  queue : Nat → SQMsg
  startInside : start < lQueuesize

namespace FsQueue

variable (circle : Bool) (q : FsQueue)

/-- Start one slot further. -/
def advance : FsQueue := { q with
    start := Ring.slot q.lQueuesize q.start 1
    startInside := Ring.slot_lt (Nat.zero_lt_of_lt q.startInside) _ _ }

/-- What `add` answers before it takes the lock.  A queue that overwrites its
messages is not tested. -/
def addTest : Option Nat :=
  if circle then none
  else if q.lQueuesize ≤ q.length then some 1
  else none

/-- What `add` does with the lock taken. -/
def addLocked (msg : SQMsg) : Nat × FsQueue :=
  let ind := Ring.slot q.lQueuesize q.start q.length
  let stored := { q with queue := Function.update q.queue ind msg }
  if circle then
    if q.length < q.lQueuesize then (0, { stored with length := q.length + 1 })
    else (3, stored)
  else (0, { stored with length := q.length + 1 })

/-- Add a message. -/
def add : Option SQMsg → Nat × FsQueue
  | none => (2, q)
  | some msg =>
    match q.addTest circle with
    | some rc => (rc, q)
    | none => q.addLocked circle msg

/-- Delete the message in a slot. -/
def del (ind : Nat) : Nat × FsQueue :=
  if q.length = 0 then (1, q)
  else if ind = q.start then (0, { q.advance with length := q.length - 1 })
  else
    let l := if ind < q.start then ind + q.lQueuesize - q.start else ind - q.start
    (0, { q with
        queue := Ring.shift q.lQueuesize ind l 0 q.queue
        length := q.length - 1 })

/-- Delete the first message: `start` is counted up, and then once more modulo
the size. -/
def delFirst : Nat × FsQueue :=
  if q.length = 0 then (1, q)
  else (0, { q.advance.advance with length := q.length - 1 })

/-- Get the first message and delete it as `delFirst` does, where a message is
only stored if there is a place for it. -/
def get (pmsg : Bool) : Nat × Option SQMsg × FsQueue :=
  if q.length = 0 then (1, none, q)
  else if !pmsg then (2, none, q)
  else
    (0, some (q.queue q.start),
      { q.advance.advance with length := q.length - 1 })

/-- What `getForIhab` answers before it takes the lock. -/
def getTest (pmsg : Bool) : Option Nat :=
  if q.length = 0 then some 1
  else if !pmsg then some 2
  else none

/-- How far from the start the first message for an anchor block is. -/
def indexFor (iHab : UInt32) : Option Nat := (List.range q.length).findIdx? fun i =>
    (q.queue (Ring.slot q.lQueuesize q.start i)).ihto == iHab

/-- What `getForIhab` does with the lock taken. -/
def getLocked (iHab : UInt32) : Nat × Option SQMsg × FsQueue :=
  match q.indexFor iHab with
  | none => (1, none, q)
  | some i =>
    let ind := Ring.slot q.lQueuesize q.start i
    let rest :=
      if ind = q.start then q.advance
      else
        { q with
          queue := Ring.shift q.lQueuesize q.start (q.length - 1 - i) i q.queue }
    (0, some (q.queue ind), { rest with length := q.length - 1 })

/-- Get the first message for an anchor block and delete it. -/
def getForIhab (pmsg : Bool) (iHab : UInt32) : Nat × Option SQMsg × FsQueue :=
  match q.getTest pmsg with
  | some rc => (rc, none, q)
  | none => q.getLocked iHab

/-- The number of messages for an anchor block. -/
def queryNmsg (ihabto : UInt32) : Nat := (List.range q.length).countP fun i =>
    (q.queue (Ring.slot q.lQueuesize q.start i)).ihto == ihabto

/-- The messages from the oldest to the newest. -/
def messages : List SQMsg := Ring.contents q.queue q.lQueuesize q.start q.length

/-- A message is for an anchor block. -/
def isFor (iHab : UInt32) (msg : SQMsg) : Bool := msg.ihto == iHab

variable {q : FsQueue}

@[simp] theorem length_messages : q.messages.length = q.length :=
  Ring.length_contents

@[simp] theorem advance_length : q.advance.length = q.length := rfl

@[simp] theorem advance_lQueuesize : q.advance.lQueuesize = q.lQueuesize := rfl

@[simp] theorem advance_queue : q.advance.queue = q.queue := rfl

theorem messages_of_pos (some : 0 < q.length) : q.messages =
      q.queue q.start :: ({ q.advance with length := q.length - 1 } : FsQueue).messages := by
  obtain ⟨count, counted⟩ := Nat.exists_eq_add_of_lt some
  have length : q.length = count + 1 := by omega
  unfold messages
  rw [length, Ring.contents_cons, Ring.slot_zero q.startInside]
  rfl

theorem addLocked_of_lt (circle : Bool) (room : q.length < q.lQueuesize) (msg : SQMsg) :
    (q.addLocked circle msg).1 = 0 ∧ (q.addLocked circle msg).2.messages = q.messages ++ [msg] ∧
      (q.addLocked circle msg).2.lQueuesize = q.lQueuesize := by
  have stored := @Ring.contents_store _ q.queue _ q.start _ room msg
  cases circle with
  | false => exact ⟨rfl, stored, rfl⟩
  | true =>
    unfold addLocked
    simp only [↓reduceIte, room]
    exact ⟨trivial, stored, trivial⟩

theorem indexFor_eq (iHab : UInt32) :
    q.indexFor iHab = q.messages.findIdx? (isFor iHab) := by
  unfold messages Ring.contents
  rw [List.findIdx?_map]
  rfl

theorem queryNmsg_eq (iHab : UInt32) :
    q.queryNmsg iHab = q.messages.countP (isFor iHab) := by
  unfold messages Ring.contents
  rw [List.countP_map]
  rfl

theorem messages_remove {i : Nat} (inside : i < q.length) (fits : q.length ≤ q.lQueuesize) :
    ({ (if Ring.slot q.lQueuesize q.start i = q.start then q.advance
        else
          { q with
            queue := Ring.shift q.lQueuesize q.start (q.length - 1 - i) i q.queue }) with
        length := q.length - 1 } : FsQueue).messages = q.messages.eraseIdx i := by
  have near : i < q.lQueuesize := Nat.lt_of_lt_of_le inside fits
  by_cases first : i = 0
  · subst first
    rw [messages_of_pos (q := q) inside, Ring.slot_zero q.startInside, if_pos rfl]
    rfl
  · have apart : Ring.slot q.lQueuesize q.start i ≠ q.start := by
      intro same
      have here : Ring.slot q.lQueuesize q.start i =
          Ring.slot q.lQueuesize q.start 0 := by
        rw [same, Ring.slot_zero q.startInside]
      exact first (Ring.slot_injective near (Nat.zero_lt_of_lt near) here)
    rw [if_neg apart]
    exact Ring.contents_shift inside fits (by omega) (by omega) (.inl (Nat.pos_of_ne_zero first))

theorem getLocked_eq (fits : q.length ≤ q.lQueuesize) (iHab : UInt32) :
    (q.getLocked iHab).2.1 = q.messages.find? (isFor iHab) ∧
      (q.getLocked iHab).2.2.messages = q.messages.eraseP (isFor iHab) ∧
      (q.getLocked iHab).2.2.lQueuesize = q.lQueuesize := by
  rw [List.find?_eq_bind_findIdx?_getElem?, List.eraseP_eq_eraseIdx, ← indexFor_eq, getLocked]
  cases found : q.indexFor iHab with
  | none => exact ⟨rfl, rfl, rfl⟩
  | some i =>
    have inside : i < q.length := by
      obtain ⟨inside, _⟩ := List.findIdx?_eq_some_iff_getElem.mp found
      simpa using inside
    refine ⟨?_, messages_remove inside fits, ?_⟩
    · exact (Ring.getElem?_contents inside).symm
    · dsimp only
      split
      · rfl
      · rfl

theorem getLocked_rc (iHab : UInt32) :
    (q.getLocked iHab).1 = 0 ↔ (q.getLocked iHab).2.1.isSome := by
  unfold getLocked
  cases q.indexFor iHab with
  | none => simp
  | some i => simp

end FsQueue

/-!
## The message queue as a bounded list

A message queue should behave as a list of at most as many messages as it has
slots.  It does as long as nothing is overwritten, the first message is only
taken when it is the last one too, and a message is only deleted from the middle
when as many messages before it as behind it are moved.
-/

/-- A call at a queue, with the number of a slot for a message in the middle. -/
inductive QueueCall where
  | add (pmsg : Option SQMsg)
  | get (pmsg : Bool)
  | delFirst
  | del (ind : Nat)

/-- What a call answers, and the message that it stores. -/
abbrev QueueAnswer := Nat × Option SQMsg

namespace FsQueue

variable (circle : Bool) (q : FsQueue)

/-- The answer to a call and the queue after it. -/
def serve : QueueCall → QueueAnswer × FsQueue
  | .add pmsg => (((q.add circle pmsg).1, none), (q.add circle pmsg).2)
  | .get pmsg => (((q.get pmsg).1, (q.get pmsg).2.1), (q.get pmsg).2.2)
  | .delFirst => ((q.delFirst.1, none), q.delFirst.2)
  | .del ind => (((q.del ind).1, none), (q.del ind).2)

/-- The place of the message in a slot. -/
def placeOf (ind : Nat) : Nat :=
  if ind < q.start then ind + q.lQueuesize - q.start else ind - q.start

/-- A message is only deleted from the slot of a message. -/
def Valid : QueueCall → Prop
  | .del ind => ind < q.lQueuesize ∧ q.placeOf ind < q.length
  | _ => True

/-- No message is overwritten unless it is the only one; the first message is
taken when there is no other one; a message in the middle has at least half of
the others before it, which are at most half of the slots. -/
def Allows : QueueCall → Prop
  | .add (some _) =>
    circle = true → q.length < q.lQueuesize ∨ q.lQueuesize = 1
  | .get true => q.length ≤ 1
  | .delFirst => q.length ≤ 1
  | .del ind =>
    ind = q.start ∨ q.length ≤ 2 * q.placeOf ind + 1 ∧ 2 * q.placeOf ind ≤ q.lQueuesize
  | _ => True

end FsQueue

/-- The answer of a list of at most so many messages, and the list after it.  A
message in the middle is given by its place. -/
def boundedList (circle : Bool) (size : Nat) (msgs : List SQMsg) :
    QueueCall → QueueAnswer × List SQMsg
  | .add none => ((2, none), msgs)
  | .add (some msg) =>
    if msgs.length < size then ((0, none), msgs ++ [msg])
    else if circle then ((3, none), msgs.tail ++ [msg])
    else ((1, none), msgs)
  | .get pmsg =>
    match msgs with
    | [] => ((1, none), [])
    | msg :: rest =>
      if pmsg then ((0, some msg), rest) else ((2, none), msg :: rest)
  | .delFirst =>
    match msgs with
    | [] => ((1, none), [])
    | _ :: rest => ((0, none), rest)
  | .del place =>
    match msgs with
    | [] => ((1, none), [])
    | msg :: rest => ((0, none), (msg :: rest).eraseIdx place)

/-- The call at the list that a call at the queue stands for. -/
def FsQueue.meant (q : FsQueue) : QueueCall → QueueCall
  | .del ind => .del (q.placeOf ind)
  | call => call

/-- A queue, and the list that it should behave as. -/
structure QueueAndList where
  queue : FsQueue
  msgs : List SQMsg

namespace QueueAndList

/-- The answer of the list to a call at the queue, and the list after it. -/
def expected (circle : Bool) (state : QueueAndList) (call : QueueCall) :
    QueueAnswer × List SQMsg :=
  boundedList circle state.queue.lQueuesize state.msgs (state.queue.meant call)

/-- The queue and the list after a call. -/
def serve (circle : Bool) (state : QueueAndList) (call : QueueCall) : QueueAndList where
  queue := (state.queue.serve circle call).2
  msgs := (state.expected circle call).2

/-- A step for any call. -/
def Step (circle : Bool) (state state' : QueueAndList) : Prop :=
  ∃ call, state.queue.Valid call ∧ state' = state.serve circle call

/-- A step for a call that the queue serves as a list. -/
def AllowedStep (circle : Bool) (state state' : QueueAndList) : Prop :=
  ∃ call, state.queue.Valid call ∧ state.queue.Allows circle call ∧ state' = state.serve circle call

/-- The queue holds the messages of the list, and no more than it has slots. -/
structure Same (state : QueueAndList) : Prop where
  fits : state.queue.length ≤ state.queue.lQueuesize
  messages : state.queue.messages = state.msgs

/-- An empty queue and the empty list. -/
structure Started (state : QueueAndList) : Prop where
  empty : state.queue.length = 0
  msgs : state.msgs = []

end QueueAndList

namespace FsQueue

variable {circle : Bool} {q : FsQueue} {msg : SQMsg} {ind : Nat}

theorem messages_of_length_zero (empty : q.length = 0) : q.messages = [] := by
  apply List.eq_nil_of_length_eq_zero
  rw [length_messages, empty]

/-- A call is answered as by the list, which the queue holds then. -/
def ServedAs (q : FsQueue) (circle : Bool) (call : QueueCall)
    (listed : QueueAnswer × List SQMsg) : Prop :=
  (q.serve circle call).1 = listed.1 ∧ (q.serve circle call).2.messages = listed.2 ∧
    (q.serve circle call).2.length ≤ (q.serve circle call).2.lQueuesize

theorem serve_add (fits : q.length ≤ q.lQueuesize) (allowed : q.Allows circle (.add (some msg))) :
    q.ServedAs circle (.add (some msg)) (boundedList circle q.lQueuesize q.messages (.add (some msg))) := by
  by_cases room : q.length < q.lQueuesize
  · obtain ⟨rc, added, size⟩ := addLocked_of_lt circle room msg
    have passed : q.addTest circle = none := by
      cases circle with
      | true => rfl
      | false => exact if_neg (Nat.not_le.mpr room)
    have listed : boundedList circle q.lQueuesize q.messages (.add (some msg)) =
        ((0, none), q.messages ++ [msg]) := by
      simp [boundedList, room]
    have served : q.add circle (some msg) = q.addLocked circle msg := by
      simp only [add, passed]
    dsimp only [ServedAs, serve]
    rw [listed, served, added, rc, ← length_messages, added, size]
    exact ⟨rfl, rfl, by simpa using Nat.succ_le_of_lt room⟩
  · cases circle with
    | false =>
      have full : q.addTest false = some 1 := if_pos (Nat.not_lt.mp room)
      have listed : boundedList false q.lQueuesize q.messages (.add (some msg)) =
            ((1, none), q.messages) := by
        simp [boundedList, room]
      have served : q.add false (some msg) = (1, q) := by
        simp only [add, full]
      dsimp only [ServedAs, serve]
      rw [listed, served]
      exact ⟨rfl, rfl, fits⟩
    | true =>
      -- the only message is overwritten, which is what the list does
      have one : q.lQueuesize = 1 := (allowed rfl).resolve_left room
      have length : q.length = 1 := by omega
      have start : q.start = 0 := by
        have := q.startInside
        omega
      have listed : boundedList true q.lQueuesize q.messages (.add (some msg)) =
            ((3, none), q.messages.tail ++ [msg]) := by
        simp [boundedList, room]
      have tail : q.messages.tail = [] := by
        apply List.eq_nil_of_length_eq_zero
        rw [List.length_tail, length_messages, length]
      have served : q.add true (some msg) = (3, { q with
            queue := Function.update q.queue
              (Ring.slot q.lQueuesize q.start q.length) msg }) := by
        simp [add, addTest, addLocked, room]
      have stored : messages { q with
            queue := Function.update q.queue
              (Ring.slot q.lQueuesize q.start q.length) msg } = [msg] := by
        unfold messages
        dsimp only
        rw [length, one, start]
        rfl
      dsimp only [ServedAs, serve]
      rw [listed, served, tail]
      exact ⟨rfl, stored, fits⟩

theorem messages_of_one (one : q.length = 1) :
    q.messages = [q.queue q.start] := by
  rw [messages_of_pos (one ▸ Nat.one_pos)]
  congr 1
  exact messages_of_length_zero (by simp [one])

theorem serve_delFirst (fits : q.length ≤ q.lQueuesize) (few : q.length ≤ 1) :
    q.ServedAs circle .delFirst (boundedList circle q.lQueuesize q.messages .delFirst) := by
  by_cases empty : q.length = 0
  · have served : q.delFirst = (1, q) := if_pos empty
    dsimp only [ServedAs, serve]
    rw [served, messages_of_length_zero empty]
    exact ⟨rfl, rfl, fits⟩
  · have one : q.length = 1 := by omega
    have served : q.delFirst =
        (0, { q.advance.advance with length := q.length - 1 }) := if_neg empty
    dsimp only [ServedAs, serve]
    rw [served, messages_of_one one]
    refine ⟨rfl, messages_of_length_zero ?_, ?_⟩
    · exact Nat.sub_eq_zero_of_le few
    · exact Nat.le_trans (Nat.sub_le _ _) fits

theorem serve_get {pmsg : Bool} (fits : q.length ≤ q.lQueuesize)
    (allowed : q.Allows circle (.get pmsg)) :
    q.ServedAs circle (.get pmsg) (boundedList circle q.lQueuesize q.messages (.get pmsg)) := by
  by_cases empty : q.length = 0
  · have served : q.get pmsg = (1, none, q) := if_pos empty
    dsimp only [ServedAs, serve]
    rw [served, messages_of_length_zero empty]
    exact ⟨rfl, rfl, fits⟩
  · cases pmsg with
    | false =>
      have served : q.get false = (2, none, q) := by
        simp [get, empty]
      have some : 0 < q.length := Nat.pos_of_ne_zero empty
      dsimp only [ServedAs, serve]
      rw [served, messages_of_pos some]
      exact ⟨rfl, rfl, fits⟩
    | true =>
      have few : q.length ≤ 1 := allowed
      have one : q.length = 1 := by omega
      have served : q.get true = (0, some (q.queue q.start),
            { q.advance.advance with length := q.length - 1 }) := by
        simp [get, empty]
      dsimp only [ServedAs, serve]
      rw [served, messages_of_one one]
      refine ⟨rfl, messages_of_length_zero ?_, ?_⟩
      · exact Nat.sub_eq_zero_of_le few
      · exact Nat.le_trans (Nat.sub_le _ _) fits

theorem slot_placeOf (inside : ind < q.lQueuesize) :
    Ring.slot q.lQueuesize q.start (q.placeOf ind) = ind := by
  have startInside := q.startInside
  unfold placeOf Ring.slot
  split
  · rw [show q.start + (ind + q.lQueuesize - q.start) = ind + q.lQueuesize by
      omega, Nat.add_mod_right, Nat.mod_eq_of_lt inside]
  · rw [show q.start + (ind - q.start) = ind by omega, Nat.mod_eq_of_lt inside]

theorem serve_del (fits : q.length ≤ q.lQueuesize) (valid : q.Valid (.del ind))
    (allowed : q.Allows circle (.del ind)) :
    q.ServedAs circle (.del ind) (boundedList circle q.lQueuesize q.messages (.del (q.placeOf ind))) := by
  obtain ⟨inside, queued⟩ := valid
  have some : 0 < q.length := Nat.zero_lt_of_lt queued
  have listed : boundedList circle q.lQueuesize q.messages (.del (q.placeOf ind)) =
        ((0, none), q.messages.eraseIdx (q.placeOf ind)) := by
    rw [messages_of_pos some]
    rfl
  dsimp only [ServedAs, serve]
  rw [listed]
  by_cases first : ind = q.start
  · have place : q.placeOf ind = 0 := by simp [placeOf, first]
    have served :
        q.del ind = (0, { q.advance with length := q.length - 1 }) := by
      simp [del, Nat.ne_of_gt some, first]
    rw [served, place, messages_of_pos some]
    exact ⟨rfl, rfl, Nat.le_trans (Nat.sub_le _ _) fits⟩
  · obtain ⟨enough, half⟩ := Or.resolve_left allowed first
    have place : 0 < q.placeOf ind := by
      unfold placeOf
      have startInside := q.startInside
      split <;> omega
    have shifted : Ring.shift q.lQueuesize ind (q.placeOf ind) 0 q.queue =
          Ring.shift q.lQueuesize q.start (q.placeOf ind) (q.placeOf ind)
            q.queue := by
      have moved := Ring.shift_slot q.lQueuesize q.start (q.placeOf ind) (q.placeOf ind) 0 q.queue
      rwa [slot_placeOf inside] at moved
    have served : q.del ind = (0, { q with
            queue := Ring.shift q.lQueuesize ind (q.placeOf ind) 0 q.queue
            length := q.length - 1 }) := by
      simp [del, Nat.ne_of_gt some, first, placeOf]
    rw [served]
    refine ⟨rfl, ?_, Nat.le_trans (Nat.sub_le _ _) fits⟩
    change Ring.contents (Ring.shift q.lQueuesize ind (q.placeOf ind) 0 q.queue)
      q.lQueuesize q.start (q.length - 1) = _
    rw [shifted]
    exact Ring.contents_shift queued fits (by omega) (by omega) (.inl place)

end FsQueue

namespace QueueAndList

variable {circle : Bool} {start state : QueueAndList}

theorem Started.same (started : start.Started) : start.Same where
  fits := started.empty ▸ Nat.zero_le _
  messages := (FsQueue.messages_of_length_zero started.empty).trans started.msgs.symm

namespace Same

theorem serve (same : state.Same) {call : QueueCall} (valid : state.queue.Valid call)
    (allowed : state.queue.Allows circle call) :
    (state.queue.serve circle call).1 = (state.expected circle call).1 ∧
      (state.serve circle call).Same := by
  have served : state.queue.ServedAs circle call (state.expected circle call) := by
    unfold expected
    rw [← same.messages]
    cases call with
    | add pmsg =>
      cases pmsg with
      | none => exact ⟨rfl, rfl, same.fits⟩
      | some msg => exact FsQueue.serve_add same.fits allowed
    | get pmsg => exact FsQueue.serve_get same.fits allowed
    | delFirst => exact FsQueue.serve_delFirst same.fits allowed
    | del ind => exact FsQueue.serve_del same.fits valid allowed
  exact ⟨served.1, served.2.2, served.2.1⟩

end Same

/-- In every run of calls that the queue serves as a list, it holds the messages
of the list, and answers the next such call as the list does. -/
theorem same_of_run (started : start.Started) (run : RunsTo (AllowedStep circle) start state) :
    state.Same ∧ ∀ call, state.queue.Valid call → state.queue.Allows circle call →
        (state.queue.serve circle call).1 = (state.expected circle call).1 ∧
          (state.serve circle call).Same := by
  have same : state.Same := by
    refine RunsTo.preserves ?_ run started.same
    intro state state' same step
    obtain ⟨call, valid, allowed, rfl⟩ := step
    exact (same.serve valid allowed).2
  exact ⟨same, fun call => same.serve⟩

/-- A message with a number. -/
def numbered (msg : UInt32) : SQMsg := ⟨⟨1, msg, 0, 0, 0, (0, 0), 0⟩, 1, 0⟩

/-- An empty queue of two slots. -/
def twoSlots : QueueAndList where
  queue := ⟨0, 0, 2, fun _ => numbered 0, Nat.two_pos⟩
  msgs := []

theorem twoSlots_started : twoSlots.Started := ⟨rfl, rfl⟩

/-- The queue with two messages. -/
def twoQueued : QueueAndList := (twoSlots.serve false (.add (some (numbered 1)))).serve false
    (.add (some (numbered 2)))

theorem allowedStep_add (state : QueueAndList) (pmsg : Option SQMsg) :
    AllowedStep false state (state.serve false (.add pmsg)) := by
  refine ⟨.add pmsg, trivial, ?_, rfl⟩
  cases pmsg with
  | none => trivial
  | some msg =>
    intro circle
    cases circle

theorem twoQueued_of_run : RunsTo (AllowedStep false) twoSlots twoQueued :=
  .head (allowedStep_add twoSlots _) (.single (allowedStep_add _ _))

/-- Two messages are added, the newer one is deleted from its slot, and the
other one is got. -/
theorem twoSlots_asList : (twoQueued.serve false (.del 1)).msgs = [numbered 1] ∧
      (twoQueued.serve false (.del 1)).Same ∧
        ((twoQueued.serve false (.del 1)).queue.serve false (.get true)).1 =
          (0, some (numbered 1)) := by
  have valid : twoQueued.queue.Valid (.del 1) := ⟨Nat.one_lt_two, Nat.one_lt_two⟩
  have allowed : twoQueued.queue.Allows false (.del 1) := .inr ⟨Nat.le_succ 2, Nat.le_refl 2⟩
  have run : RunsTo (AllowedStep false) twoSlots
      (twoQueued.serve false (.del 1)) :=
    twoQueued_of_run.tail ⟨.del 1, valid, allowed, rfl⟩
  obtain ⟨same, next⟩ := same_of_run twoSlots_started run
  exact ⟨rfl, same, (next (.get true) trivial (Nat.le_refl 1)).1⟩

/-- Behind two messages, getting the first one goes two slots further, to where
the first one still stands. -/
theorem twoSlots_getStale : ¬ ∀ start state : QueueAndList, start.Started →
      RunsTo (Step false) start state → state.Same := by
  intro claim
  have run : RunsTo (Step false) twoSlots (twoQueued.serve false (.get true)) :=
    .head ⟨.add (some (numbered 1)), trivial, rfl⟩ <|
    .head ⟨.add (some (numbered 2)), trivial, rfl⟩ <|
    .single ⟨.get true, trivial, rfl⟩
  have same := (claim _ _ twoSlots_started run).messages
  exact absurd same (by decide)

end QueueAndList

end OsFree.Pm
