import OsFree.Machine.CString

/-!
# Strings in arrays

A string that is put together in an array of a fixed size.  The array holds the
string, a zero behind it, and any bytes after that.
-/

namespace OsFree.Machine

/-- Store a byte at an index of an array. -/
def storeByte (array : List UInt8) (index : Nat) (byte : UInt8) :
    Run (List UInt8) :=
  writeBytes array index [byte]

/-- Append a string to the one in an array. -/
def strcat (array src : List UInt8) : Run (List UInt8) := do
  let length ← strlen array
  writeBytes array length (src ++ [0])

/-- The array has a size and holds a string. -/
structure Spells (size : Nat) (array text : List UInt8) : Prop where
  sized : array.length = size
  nonzero : 0 ∉ text
  ends : ∃ rest, array = text ++ 0 :: rest

section

variable {size index : Nat} {array text src tail bytes : List UInt8}

theorem writeBytes_append (fits : bytes.length ≤ tail.length) :
    writeBytes (text ++ tail) text.length bytes =
      .ok (text ++ bytes ++ tail.drop bytes.length) := by
  rw [writeBytes, if_pos (by rw [List.length_append]; omega), putBytes,
    List.take_left, List.drop_append, Nat.add_sub_cancel_left,
    List.drop_eq_nil_of_le (Nat.le_add_right ..), List.nil_append]

section

variable (spells : Spells size array text)

include spells

theorem Spells.strlen :
    strlen array = .ok text.length := by
  obtain ⟨rest, rfl⟩ := spells.ends
  exact strlen_of_ends spells.nonzero

theorem Spells.readString :
    readString array = .ok text := by
  obtain ⟨rest, rfl⟩ := spells.ends
  exact readString_of_ends spells.nonzero

theorem Spells.strcat (nonzero : 0 ∉ src) (room : text.length + src.length < size) :
    ∃ array', Machine.strcat array src = .ok array' ∧
      Spells size array' (text ++ src) := by
  obtain ⟨rest, ends⟩ := spells.ends
  have sized := spells.sized
  rw [ends, List.length_append, List.length_cons] at sized
  have fits : (src ++ [0]).length ≤ (0 :: rest).length := by
    rw [List.length_append, List.length_singleton, List.length_cons]
    omega
  refine ⟨text ++ (src ++ [0]) ++ (0 :: rest).drop (src ++ [0]).length, ?_, ?_⟩
  · rw [Machine.strcat, spells.strlen, bind_ok, ends, writeBytes_append fits]
  · refine ⟨?_, ?_, ⟨(0 :: rest).drop (src ++ [0]).length, by simp⟩⟩
    · simp only [List.length_append, List.length_drop, List.length_cons, List.length_nil] at fits ⊢
      omega
    · rw [List.mem_append]
      exact not_or.mpr ⟨spells.nonzero, nonzero⟩

theorem Spells.strcat_of_full (full : size ≤ text.length + src.length) :
    Machine.strcat array src = .error .writeOutside := by
  have sized := spells.sized
  rw [Machine.strcat, spells.strlen, bind_ok, writeBytes, if_neg]
  rw [List.length_append, List.length_singleton]
  omega

theorem Spells.push {c : UInt8} (nonzero : c ≠ 0) (room : text.length + 1 < size) :
    ∃ middle array', storeByte array text.length c = .ok middle ∧
      storeByte middle (text.length + 1) 0 = .ok array' ∧
        Spells size array' (text ++ [c]) := by
  obtain ⟨rest, ends⟩ := spells.ends
  have sized := spells.sized
  rw [ends, List.length_append, List.length_cons] at sized
  cases rest with
  | nil => simp at sized; omega
  | cons next rest =>
    refine ⟨text ++ [c] ++ next :: rest, text ++ [c] ++ 0 :: rest, ?_, ?_, ?_⟩
    · rw [storeByte, ends, writeBytes_append (by simp)]
      rfl
    · have stored := @writeBytes_append (text ++ [c]) (next :: rest) [0] (by simp)
      rw [List.length_append, List.length_singleton] at stored
      rw [storeByte, stored]
      simp
    · refine ⟨?_, ?_, ⟨rest, rfl⟩⟩
      · simp only [List.length_append, List.length_cons, List.length_nil]
          at sized ⊢
        omega
      · simp only [List.mem_append, List.mem_singleton, not_or]
        exact ⟨spells.nonzero, Ne.symm nonzero⟩

theorem Spells.close :
    storeByte array text.length 0 = .ok array := by
  obtain ⟨rest, rfl⟩ := spells.ends
  rw [storeByte, writeBytes_append (by simp)]
  simp

end

end

end OsFree.Machine
