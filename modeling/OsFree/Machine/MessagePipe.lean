import Mathlib.Algebra.Ring.Nat
import OsFree.Machine.CString

/-!
# Pipes of messages

A pipe that keeps the bounds of messages.  A read takes a part of the first
message, as much as there is room for at most, and says whether there is more of
it.  A reader that goes on as long as there is more gets the whole message.
-/

namespace OsFree.Machine

/-- The messages that wait in a pipe, and the number of reads so far. -/
structure MessagePipe where
  messages : List (List UInt8)
  reads : Nat
  deriving DecidableEq

namespace MessagePipe

/-- A message is sent. -/
def write (pipe : MessagePipe) (message : List UInt8) : MessagePipe :=
  { pipe with messages := pipe.messages ++ [message] }

/-- A part of the first message, and whether there is more of it.  How large the
part is at most depends on the read; a read of an empty pipe waits. -/
def read (splits : Nat → Nat) (room : Nat) (pipe : MessagePipe) :
    Option (MessagePipe × List UInt8 × Bool) :=
  match pipe.messages with
  | [] => none
  | message :: rest =>
    let k := min message.length (min room (splits pipe.reads + 1))
    if k = message.length then some (⟨rest, pipe.reads + 1⟩, message, false)
    else
      some (⟨message.drop k :: rest, pipe.reads + 1⟩, message.take k, true)

theorem length_pos_of_read {splits : Nat → Nat} {room : Nat}
    {pipe pipe' : MessagePipe} {piece : List UInt8}
    (read : pipe.read splits room = some (pipe', piece, true))
    (positive : 0 < room) : 0 < piece.length := by
  unfold MessagePipe.read at read
  split at read
  · cases read
  · dsimp only at read
    split at read
    · cases read
    · rename_i message rest found partly
      cases read
      rw [List.length_take]
      omega

/-- What a reader has got. -/
structure Drained where
  pipe : MessagePipe
  buffer : List UInt8
  length : Nat
  more : Bool
  deriving DecidableEq

/-- Read to a buffer until the message is read or the room is used up. -/
def drain (splits : Nat → Nat) (pipe : MessagePipe) (buffer : List UInt8)
    (pos room done : Nat) : Option (Run Drained) :=
  match _got : pipe.read splits room with
  | none => none
  | some (pipe', piece, more) =>
    match writeBytes buffer pos piece with
    | .error fault => some (.error fault)
    | .ok buffer' =>
      if _left : more = true ∧ 0 < room - piece.length then
        drain splits pipe' buffer' (pos + piece.length) (room - piece.length) (done + piece.length)
      else some (.ok ⟨pipe', buffer', done + piece.length, more⟩)
termination_by room
decreasing_by
  obtain ⟨rfl, positive⟩ := _left
  have := length_pos_of_read _got (by omega)
  omega

section

variable {splits : Nat → Nat} {message : List UInt8} {rest : List (List UInt8)}
  {reads room pos done : Nat} {buffer : List UInt8}

theorem read_cons (splits : Nat → Nat) (rest : List (List UInt8)) (reads : Nat)
    (enough : message.length ≤ room) :
    read splits room ⟨message :: rest, reads⟩ = some (⟨rest, reads + 1⟩, message, false) ∨
      ∃ k, 0 < k ∧ k < message.length ∧ read splits room ⟨message :: rest, reads⟩ =
          some (⟨message.drop k :: rest, reads + 1⟩, message.take k, true) := by
  unfold read
  dsimp only
  split
  · exact Or.inl rfl
  · refine Or.inr ⟨_, ?_, ?_, rfl⟩
    · omega
    · omega

theorem drain_of_last {pipe pipe' : MessagePipe} {piece : List UInt8}
    (got : pipe.read splits room = some (pipe', piece, false))
    (inside : pos + piece.length ≤ buffer.length) :
    drain splits pipe buffer pos room done =
      some (.ok ⟨pipe', putBytes buffer pos piece, done + piece.length,
        false⟩) := by
  rw [drain]
  split
  · rename_i none
    rw [got] at none
    cases none
  · rename_i same
    rw [got] at same
    cases same
    rw [writeBytes, if_pos inside]
    simp

theorem drain_of_more {pipe pipe' : MessagePipe} {piece : List UInt8}
    (got : pipe.read splits room = some (pipe', piece, true))
    (inside : pos + piece.length ≤ buffer.length)
    (more : 0 < room - piece.length) :
    drain splits pipe buffer pos room done =
      drain splits pipe' (putBytes buffer pos piece) (pos + piece.length)
        (room - piece.length) (done + piece.length) := by
  rw [drain]
  split
  · rename_i none
    rw [got] at none
    cases none
  · rename_i same
    rw [got] at same
    cases same
    rw [writeBytes, if_pos inside]
    simp [more]

theorem drain_cons (enough : message.length ≤ room)
    (inside : pos + message.length ≤ buffer.length) :
    ∃ reads', drain splits ⟨message :: rest, reads⟩ buffer pos room done =
      some (.ok ⟨⟨rest, reads'⟩, putBytes buffer pos message,
        done + message.length, false⟩) := by
  induction size : message.length using Nat.strong_induction_on
    generalizing message reads room pos done buffer with
  | _ n ih =>
  subst size
  rcases read_cons splits rest reads enough with all | ⟨k, positive, less, part⟩
  · exact ⟨reads + 1, drain_of_last all inside⟩
  · have taken : (message.take k).length = k := by
      rw [List.length_take]
      omega
    have left : (message.drop k).length = message.length - k := List.length_drop ..
    have within : pos + (message.take k).length ≤ buffer.length := by omega
    obtain ⟨reads', drained⟩ := @ih (message.length - k)
      (by omega) (message.drop k) (reads + 1) (room - k) (pos + k) (done + k)
      (putBytes buffer pos (message.take k)) (by omega)
      (by rw [putBytes_length within]; omega) left
    refine ⟨reads', ?_⟩
    rw [drain_of_more part within (by omega), taken, drained]
    have whole := @putBytes_putBytes _ _ _ within (message.drop k)
    rw [taken, List.take_append_drop] at whole
    rw [whole, Nat.add_assoc, Nat.add_sub_cancel' (Nat.le_of_lt less)]

end

/-- The size of what waits, with the bounds of the messages. -/
def size (messages : List (List UInt8)) : Nat :=
  (messages.map fun message => message.length + 1).sum

section

variable {splits : Nat → Nat} {room pos done : Nat} {buffer : List UInt8}
  {pipe pipe' : MessagePipe} {piece : List UInt8} {more : Bool}

theorem size_of_read (positive : 0 < room)
    (got : pipe.read splits room = some (pipe', piece, more)) :
    size pipe'.messages < size pipe.messages := by
  unfold read at got
  split at got
  · cases got
  · rename_i message rest found
    dsimp only at got
    split at got
    · cases got
      simp [size, found]
    · cases got
      simp only [size, found, List.map_cons, List.sum_cons, List.length_drop]
      omega

theorem size_of_drain (positive : 0 < room) {drained : Drained}
    (returned : drain splits pipe buffer pos room done = some (.ok drained)) :
    size drained.pipe.messages < size pipe.messages := by
  induction room using Nat.strong_induction_on generalizing pipe buffer pos done with
  | _ room ih =>
  rw [drain] at returned
  split at returned
  · cases returned
  · rename_i pipe' piece more got
    have smaller := size_of_read positive got
    split at returned
    · cases returned
    · split at returned
      · rename_i left
        obtain ⟨rfl, rest⟩ := left
        have some := length_pos_of_read got positive
        exact (ih _ (by omega) rest returned).trans smaller
      · cases returned
        exact smaller

end

end MessagePipe

end OsFree.Machine
