import OsFree.Machine.LinkedList

/-!
# Connecting again

A client whose pipe is broken deletes its pipe object and makes new ones, until one of
them is connected.  Its caller goes on with the pointer that it has.
-/

namespace OsFree.Pm

open Machine

/-- The pipe objects, each with the messages that have been written to its pipe. -/
abbrev Pipes := Heap (List (List UInt8))

/-- What `Open` and `HandShake` return in a turn of the loop that connects again. -/
structure Attempt where
  opened : Int
  handShake : Int

/-- What the calls return in a pass of `_F_SendGenCmdDataToServer` from its label on. -/
structure Pass where
  cmdSent : Int
  attempts : ℕ → Attempt
  dataSent : Int
  received : Int

/-- Write messages to the pipe of an object, which fails with a code. -/
def writeTo (rc : Int) (messages : List (List UInt8)) (pipes : Pipes) (recvobj : Nat) :
    Run (Int × Pipes) := do
  let _ ← pipes.read recvobj
  .ok (rc, if rc = 0 then pipes.change recvobj (· ++ messages) else pipes)

/-- The loop that connects again.  HAND_SHAKE_ERROR is 101. -/
def reconnect (attempts : ℕ → Attempt) : ℕ → Nat → Int → Pipes → Run (Int × Pipes)
  | 0, _, rc, pipes => .ok (rc, pipes)
  | left + 1, recvobj, _, pipes => do
      let pipes ← pipes.free recvobj
      let attempt := attempts (9 - left)
      if attempt.opened ≠ 0 then
        reconnect attempts left pipes.fresh attempt.opened (pipes.malloc [])
      else if attempt.handShake = 101 then
        reconnect attempts left pipes.fresh attempt.handShake (pipes.malloc [])
      else .ok (attempt.handShake, pipes.malloc [])

/-- ERROR_BROKEN_PIPE is 109. -/
def fSendCmdToServer (cmd : List UInt8) (pass : Pass) (pipes : Pipes) (recvobj : Nat) :
    Run (Int × Pipes) := do
  let (rc, pipes) ← writeTo pass.cmdSent [cmd] pipes recvobj
  if rc = 109 then reconnect pass.attempts 10 recvobj rc pipes else .ok (rc, pipes)

/-- What comes behind a pass: another one, the answer, or the end of the process. -/
inductive Next where
  | again
  | answered
  | fatal
  deriving DecidableEq

/-- A pass of `_F_SendGenCmdDataToServer`, for data that goes in some messages. -/
def fSendGenCmdDataToServer (cmd : List UInt8) (data : List (List UInt8)) (recvobj : Nat)
    (pass : Pass) (pipes : Pipes) : Run (Next × Pipes) := do
  let (rc, pipes) ← fSendCmdToServer cmd pass pipes recvobj
  if rc ≠ 0 then .ok (.fatal, pipes)
  else
    let (rc, pipes) ← writeTo pass.dataSent data pipes recvobj
    if rc = 109 then .ok (.again, pipes)
    else if rc ≠ 0 then .ok (.fatal, pipes)
    else
      let _ ← pipes.read recvobj
      if pass.received = 109 then .ok (.again, pipes)
      else if pass.received ≠ 0 then .ok (.fatal, pipes)
      else .ok (.answered, pipes)

/-- The pipe objects when a pass begins, and `none` if there is no such pass. -/
def pipesAt (cmd : List UInt8) (data : List (List UInt8)) (recvobj : Nat)
    (passes : ℕ → Pass) (pipes : Pipes) : ℕ → Option Pipes
  | 0 => some pipes
  | i + 1 =>
    (pipesAt cmd data recvobj passes pipes i).bind fun now =>
      match fSendGenCmdDataToServer cmd data recvobj (passes i) now with
      | .ok (.again, after) => some after
      | _ => none

/-- The command is sent once to the pipe of the caller, or there is an error; the object of
the caller is still there, and before the answer the pipe has got the command and the
data. -/
structure Reaches (cmd : List UInt8) (data : List (List UInt8)) (recvobj : Nat)
    (pass : Pass) (now : Pipes) : Prop where
  command : ∃ rc after written, fSendCmdToServer cmd pass now recvobj = .ok (rc, after) ∧
    after.objects recvobj = some written ∧
    (rc = 0 → now.objects recvobj = some written.dropLast ∧ written.getLast? = some cmd)
  answered : ∃ next after, fSendGenCmdDataToServer cmd data recvobj pass now = .ok (next, after) ∧
    (next = .answered → after.objects recvobj = (now.objects recvobj).map (· ++ cmd :: data))

/-- This holds of every pass that there is. -/
def EveryPassReaches (cmd : List UInt8) (data : List (List UInt8)) (recvobj : Nat)
    (passes : ℕ → Pass) (pipes : Pipes) : Prop :=
  ∀ i now, pipesAt cmd data recvobj passes pipes i = some now →
    Reaches cmd data recvobj (passes i) now

section

variable {cmd : List UInt8} {data : List (List UInt8)} {recvobj x : Nat} {pass : Pass}
  {passes : ℕ → Pass} {pipes now after : Pipes} {rc rc' : Int}
  {attempts : ℕ → Attempt} {log : List (List UInt8)}

theorem writeTo_of_live (live : pipes.objects recvobj = some log) (rc : Int)
    (messages : List (List UInt8)) : writeTo rc messages pipes recvobj =
      .ok (rc, if rc = 0 then pipes.change recvobj (· ++ messages) else pipes) := by
  rw [writeTo, Heap.read_of_live live, bind_ok]

theorem reconnect_turn {left : ℕ}
    (run : reconnect attempts (left + 1) recvobj rc pipes = .ok (rc', after)) :
    after = (pipes.remove recvobj).malloc [] ∨
      ∃ rc new, reconnect attempts left new rc ((pipes.remove recvobj).malloc []) =
        .ok (rc', after) := by
  rw [reconnect, Heap.free, bind_eq_ok_iff] at run
  obtain ⟨freed, free, run⟩ := run
  obtain ⟨-, -, rfl⟩ := map_eq_ok_iff.mp free
  simp only at run
  split at run
  · exact .inr ⟨_, _, run⟩
  · split at run
    · exact .inr ⟨_, _, run⟩
    · cases run
      exact .inl rfl

theorem remove_malloc_dead (gone : (pipes.remove recvobj).objects x = none)
    (old : x < pipes.fresh) : ((pipes.remove recvobj).malloc []).objects x = none :=
  (@Heap.malloc_objects_of_ne _ (pipes.remove recvobj) x [] (Nat.ne_of_lt old)).trans gone

theorem reconnect_dead {left : ℕ} (dead : pipes.objects x = none) (old : x < pipes.fresh)
    (run : reconnect attempts left recvobj rc pipes = .ok (rc', after)) :
    after.objects x = none := by
  induction left generalizing recvobj rc pipes with
  | zero =>
    cases run
    exact dead
  | succ left ih =>
    have gone : (pipes.remove recvobj).objects x = none := by
      by_cases same : x = recvobj
      · rw [same, Heap.remove_objects_self]
      · rw [Heap.remove_objects_of_ne same, dead]
    have stays := remove_malloc_dead gone old
    obtain rfl | ⟨rc, new, run⟩ := reconnect_turn run
    · exact stays
    · exact ih stays (Nat.lt_succ_of_lt old) run

theorem broken_dead (live : pipes.objects recvobj = some log) (broken : pass.cmdSent = 109)
    (run : fSendCmdToServer cmd pass pipes recvobj = .ok (rc, after)) :
    after.objects recvobj = none := by
  rw [fSendCmdToServer, writeTo_of_live live, broken, bind_ok] at run
  have old := Heap.lt_fresh live
  have stays := remove_malloc_dead (Heap.remove_objects_self recvobj) old
  have again : reconnect pass.attempts 10 recvobj 109 pipes = .ok (rc, after) := run
  obtain rfl | ⟨rc, new, run⟩ := reconnect_turn again
  · exact stays
  · exact reconnect_dead stays (Nat.lt_succ_of_lt old) run

theorem fSendCmdToServer_of_whole (live : pipes.objects recvobj = some log)
    (whole : pass.cmdSent ≠ 109) : fSendCmdToServer cmd pass pipes recvobj = .ok (pass.cmdSent,
        if pass.cmdSent = 0 then pipes.change recvobj (· ++ [cmd]) else pipes) := by
  rw [fSendCmdToServer, writeTo_of_live live, bind_ok]
  exact if_neg whole

theorem live_of_again
    (run : fSendGenCmdDataToServer cmd data recvobj pass pipes = .ok (.again, after)) :
    ∃ log, after.objects recvobj = some log := by
  rw [fSendGenCmdDataToServer, bind_eq_ok_iff] at run
  obtain ⟨⟨rc, middle⟩, -, run⟩ := run
  simp only at run
  split at run
  · cases run
  · rw [writeTo, bind_assoc, bind_eq_ok_iff] at run
    obtain ⟨log, live, run⟩ := run
    have live := Heap.read_eq_ok_iff.mp live
    have kept : ∃ log', (if pass.dataSent = 0 then middle.change recvobj (· ++ data)
        else middle).objects recvobj = some log' := by
      split
      · exact ⟨log ++ data, by rw [Heap.change_objects_self, live]; rfl⟩
      · exact ⟨log, live⟩
    simp only [bind_ok] at run
    split at run
    · cases run
      exact kept
    · split at run
      · cases run
      · obtain ⟨_, -, run⟩ := bind_eq_ok_iff.mp run
        split at run
        · cases run
          exact kept
        · split at run <;> cases run

theorem live_of_pipesAt (live : pipes.objects recvobj = some log) (i : ℕ)
    (begins : pipesAt cmd data recvobj passes pipes i = some now) :
    ∃ log, now.objects recvobj = some log := by
  cases i with
  | zero =>
    cases begins
    exact ⟨log, live⟩
  | succ i =>
    obtain ⟨before, -, run⟩ := Option.bind_eq_some_iff.mp begins
    split at run
    · rename_i ends
      cases run
      exact live_of_again ends
    · cases run

theorem reaches_iff (live : now.objects recvobj = some log) :
    Reaches cmd data recvobj pass now ↔ pass.cmdSent ≠ 109 := by
  constructor
  · rintro reaches broken
    obtain ⟨rc, after, written, run, still, -⟩ := reaches.command
    rw [broken_dead live broken run] at still
    cases still
  · intro whole
    have sent := @fSendCmdToServer_of_whole cmd recvobj pass now log live whole
    by_cases right : pass.cmdSent = 0
    · rw [right, if_pos rfl] at sent
      have written : (now.change recvobj (· ++ [cmd])).objects recvobj =
          some (log ++ [cmd]) := by
        rw [Heap.change_objects_self, live]
        rfl
      refine ⟨⟨0, _, _, sent, written, fun _ => by simp [live]⟩, ?_⟩
      rw [fSendGenCmdDataToServer, sent, bind_ok]
      simp only [writeTo_of_live written, bind_ok, ne_eq, not_true_eq_false, if_false]
      by_cases done : pass.dataSent = 0
      · have both : ((now.change recvobj (· ++ [cmd])).change recvobj (· ++ data)).objects
            recvobj = (now.objects recvobj).map (· ++ cmd :: data) := by
          rw [Heap.change_objects_self, written, live]
          simp
        have still := both
        rw [live, Option.map_some] at still
        simp only [done, if_true, Heap.read_of_live still, bind_ok]
        by_cases broken : pass.received = 109
        · exact ⟨.again, _, if_pos broken, nofun⟩
        · by_cases failed : pass.received = 0
          · exact ⟨.answered, _, (if_neg broken).trans (if_neg (not_not_intro failed)),
              fun _ => both⟩
          · exact ⟨.fatal, _, (if_neg broken).trans (if_pos failed), nofun⟩
      · simp only [done, if_false, not_false_eq_true, if_true]
        split <;> exact ⟨_, _, rfl, nofun⟩
    · rw [if_neg right] at sent
      refine ⟨⟨_, _, log, sent, live, fun zero => absurd zero right⟩, .fatal, now, ?_, nofun⟩
      rw [fSendGenCmdDataToServer, sent, bind_ok]
      exact if_pos right

end

/-- One pipe object at address 0. -/
def onePipe : Pipes := Heap.empty.malloc []

/-- A pass in which all calls but that for the command succeed. -/
def passWith (cmdSent : Int) : Pass := ⟨cmdSent, fun _ => ⟨0, 0⟩, 0, 0⟩

end OsFree.Pm
