import Mathlib.Tactic.Common
import OsFree.Machine.Word

/-!
# Buffers read through C pointers

A pointer into a buffer is an integer offset from its first byte.  Pointer
arithmetic may leave the buffer; a read or a write outside it is a fault.
-/

namespace OsFree.Machine

/-- Read the byte at an offset. -/
def readByte (buffer : List UInt8) (offset : Int) : Run UInt8 :=
  if 0 ≤ offset then
    match buffer[offset.toNat]? with
    | some byte => .ok byte
    | none => .error .readOutside
  else
    .error .readOutside

/-- Read the little-endian 16-bit word at an offset. -/
def readWord (buffer : List UInt8) (offset : Int) : Run UInt16 := do
  let b0 ← readByte buffer offset
  let b1 ← readByte buffer (offset + 1)
  pure (wordOf b0 b1)

/-- Read the little-endian 32-bit word at an offset. -/
def readLong (buffer : List UInt8) (offset : Int) : Run UInt32 := do
  let b0 ← readByte buffer offset
  let b1 ← readByte buffer (offset + 1)
  let b2 ← readByte buffer (offset + 2)
  let b3 ← readByte buffer (offset + 3)
  pure (longOf b0 b1 b2 b3)

/-- Copy `count` bytes that start at an offset.  Copying nothing reads
nothing. -/
def readBytes (buffer : List UInt8) (offset : Int) (count : Nat) :
    Run (List UInt8) :=
  if count = 0 then .ok []
  else if 0 ≤ offset ∧ offset + count ≤ buffer.length then
    .ok ((buffer.drop offset.toNat).take count)
  else .error .readOutside

/-- The buffer with a 32-bit word stored inside it. -/
def putLong (buffer : List UInt8) (offset : Int) (value : UInt32) :
    List UInt8 :=
  buffer.take offset.toNat ++ longBytes value ++ buffer.drop (offset.toNat + 4)

/-- Store a 32-bit word at an offset. -/
def writeLong (buffer : List UInt8) (offset : Int) (value : UInt32) :
    Run (List UInt8) :=
  if 0 ≤ offset ∧ offset + 4 ≤ buffer.length then
    .ok (putLong buffer offset value)
  else .error .writeOutside

/-- `count` bytes from an offset on lie inside the buffer. -/
def Inside (buffer : List UInt8) (offset : Int) (count : Nat) : Prop :=
  0 ≤ offset ∧ offset + count ≤ buffer.length

instance (buffer : List UInt8) (offset : Int) (count : Nat) :
    Decidable (Inside buffer offset count) :=
  inferInstanceAs (Decidable (_ ∧ _))

/-- `count` bytes can be copied from an offset on. -/
def Readable (buffer : List UInt8) (offset : Int) (count : Nat) : Prop :=
  count = 0 ∨ Inside buffer offset count

instance (buffer : List UInt8) (offset : Int) (count : Nat) :
    Decidable (Readable buffer offset count) :=
  inferInstanceAs (Decidable (_ ∨ _))

/-- The bytes from an offset on. -/
def bytesAt (buffer : List UInt8) (offset : Int) (count : Nat) : List UInt8 :=
  (buffer.drop offset.toNat).take count

/-- From an offset to its end the buffer holds exactly these bytes. -/
def RestAt (buffer : List UInt8) (offset : Int) (rest : List UInt8) : Prop :=
  ∃ before, buffer = before ++ rest ∧ offset = before.length

section

variable {buffer rest : List UInt8} {offset : Int}

theorem restAt_zero (buffer : List UInt8) : RestAt buffer 0 buffer := ⟨[], rfl, rfl⟩

theorem restAt_append (before rest : List UInt8) :
    RestAt (before ++ rest) before.length rest :=
  ⟨before, rfl, rfl⟩

namespace RestAt

theorem skip {first second : List UInt8} (stands : RestAt buffer offset (first ++ second)) :
    RestAt buffer (offset + first.length) second := by
  obtain ⟨before, bufferEq, offsetEq⟩ := stands
  refine ⟨before ++ first, ?_, ?_⟩
  · rw [bufferEq, List.append_assoc]
  · rw [offsetEq, List.length_append]
    rfl

theorem tail {byte : UInt8} (stands : RestAt buffer offset (byte :: rest)) :
    RestAt buffer (offset + 1) rest := by
  have split : RestAt buffer offset ([byte] ++ rest) := stands
  exact split.skip

theorem length_le (stands : RestAt buffer offset rest) :
    rest.length ≤ buffer.length := by
  obtain ⟨before, rfl, _⟩ := stands
  simp

theorem readByte {byte : UInt8} (stands : RestAt buffer offset (byte :: rest)) :
    readByte buffer offset = .ok byte := by
  obtain ⟨before, rfl, rfl⟩ := stands
  simp [Machine.readByte]

theorem readByte_beyond (stands : RestAt buffer offset rest) {position : Int}
    (beyond : offset + rest.length ≤ position) :
    Machine.readByte buffer position = .error .readOutside := by
  obtain ⟨before, rfl, rfl⟩ := stands
  rw [Machine.readByte, if_pos (by omega), List.getElem?_eq_none]
  rw [List.length_append]
  omega

theorem readWord {value : UInt16} (stands : RestAt buffer offset (wordBytes value ++ rest)) :
    readWord buffer offset = .ok value := by
  have first := stands.readByte
  have second := stands.tail.readByte
  simp only [Machine.readWord, first, second, bind_ok, pure_eq_ok, wordOf_wordBytes]

theorem readLong {value : UInt32} (stands : RestAt buffer offset (longBytes value ++ rest)) :
    readLong buffer offset = .ok value := by
  have first := stands.readByte
  have second := stands.tail.readByte
  have third := stands.tail.tail.readByte
  have fourth := stands.tail.tail.tail.readByte
  rw [show offset + 1 + 1 = offset + 2 by omega] at third
  rw [show offset + 1 + 1 + 1 = offset + 3 by omega] at fourth
  simp only [Machine.readLong, first, second, third, fourth, bind_ok, pure_eq_ok, longOf_longBytes]

theorem readBytes {bytes : List UInt8} (stands : RestAt buffer offset (bytes ++ rest)) :
    readBytes buffer offset bytes.length = .ok bytes := by
  obtain ⟨before, rfl, rfl⟩ := stands
  unfold Machine.readBytes
  by_cases nothing : bytes.length = 0
  · rw [if_pos nothing, List.eq_nil_of_length_eq_zero nothing]
  · have inside : 0 ≤ (before.length : Int) ∧ (before.length : Int) + bytes.length ≤
          (before ++ (bytes ++ rest)).length := by
      simp only [List.length_append, Nat.cast_add]
      omega
    simp

theorem element {α : Type} {encode : α → List UInt8} {size : Nat}
    (sized : ∀ element, (encode element).length = size)
    {elements : List α} {tail : List UInt8}
    (stands : RestAt buffer offset (elements.flatMap encode ++ tail))
    {k : Nat} {element : α} (found : elements[k]? = some element) :
    ∃ rest, RestAt buffer (offset + size * k) (encode element ++ rest) := by
  induction elements generalizing offset k with
  | nil => cases found
  | cons head elements ih =>
    rw [List.flatMap_cons, List.append_assoc] at stands
    cases k with
    | zero =>
      cases found
      refine ⟨elements.flatMap encode ++ tail, ?_⟩
      simpa using stands
    | succ k =>
      have behind := stands.skip
      rw [sized] at behind
      obtain ⟨rest, here⟩ := ih behind found
      refine ⟨rest, ?_⟩
      have place : offset + size * ((k + 1 : Nat) : Int) =
          offset + size + size * k := by
        push_cast
        rw [Int.mul_add]
        omega
      rw [place]
      exact here

end RestAt

theorem returns_readByte_iff :
    Returns (readByte buffer offset) ↔ Inside buffer offset 1 := by
  unfold readByte Inside
  by_cases nonnegative : 0 ≤ offset
  · rw [if_pos nonnegative]
    by_cases inside : offset.toNat < buffer.length
    · rw [List.getElem?_eq_getElem inside]
      simp only [returns_ok, true_iff]
      omega
    · rw [List.getElem?_eq_none (Nat.le_of_not_lt inside)]
      simp only [not_returns_error, false_iff]
      omega
  · rw [if_neg nonnegative]
    simp [nonnegative]

theorem writeLong_eq_ok_iff {value : UInt32} {result : List UInt8} :
    writeLong buffer offset value = .ok result ↔
      Inside buffer offset 4 ∧ result = putLong buffer offset value := by
  unfold writeLong Inside
  split
  · rename_i inside
    simp [inside, eq_comm]
  · rename_i outside
    simp only [reduceCtorEq, false_iff]
    intro inside
    exact outside inside.1

theorem putLong_length (inside : Inside buffer offset 4) (value : UInt32) :
    (putLong buffer offset value).length = buffer.length := by
  unfold Inside at inside
  unfold putLong
  simp only [List.length_append, List.length_take, List.length_drop, longBytes_length]
  omega

theorem readByte_eq_ok_iff {byte : UInt8} : readByte buffer offset = .ok byte ↔
      0 ≤ offset ∧ buffer[offset.toNat]? = some byte := by
  unfold readByte
  by_cases nonnegative : 0 ≤ offset
  · rw [if_pos nonnegative]
    cases found : buffer[offset.toNat]? with
    | none => simp
    | some other => simp [nonnegative]
  · simp [nonnegative]

theorem readBytes_eq (buffer : List UInt8) (offset : Int) (count : Nat) :
    readBytes buffer offset count =
      if Readable buffer offset count then .ok (bytesAt buffer offset count)
      else .error .readOutside := by
  by_cases nothing : count = 0
  · simp [readBytes, Readable, bytesAt, nothing]
  · simp [readBytes, Readable, Inside, bytesAt, nothing]

theorem readBytes_eq_ok_iff {count : Nat} {bytes : List UInt8} :
    readBytes buffer offset count = .ok bytes ↔
      Readable buffer offset count ∧ bytes = bytesAt buffer offset count := by
  rw [readBytes_eq]
  by_cases readable : Readable buffer offset count
  · simp [readable, eq_comm]
  · simp [readable]

theorem returns_readBytes_iff {count : Nat} : Returns (readBytes buffer offset count) ↔
      Readable buffer offset count := by
  simp [Returns, readBytes_eq_ok_iff]

theorem bytesAt_two {offset : Int} (readable : Readable buffer offset 2) :
    ∃ first second, readByte buffer offset = .ok first ∧ readByte buffer (offset + 1) = .ok second ∧
        bytesAt buffer offset 2 = [first, second] := by
  have inside : Inside buffer offset 2 := readable.resolve_left (by decide)
  unfold Inside at inside
  have next : (offset + 1).toNat = offset.toNat + 1 := by omega
  have first : offset.toNat < buffer.length := by omega
  have second : offset.toNat + 1 < buffer.length := by omega
  refine ⟨buffer[offset.toNat], buffer[offset.toNat + 1], ?_, ?_, ?_⟩
  · exact readByte_eq_ok_iff.mpr ⟨inside.1, List.getElem?_eq_getElem first⟩
  · rw [readByte_eq_ok_iff, next]
    exact ⟨by omega, List.getElem?_eq_getElem second⟩
  · unfold bytesAt
    rw [List.drop_eq_getElem_cons first, List.drop_eq_getElem_cons second]
    rfl

theorem returns_readWord_iff :
    Returns (readWord buffer offset) ↔ Inside buffer offset 2 := by
  have split : Returns (readWord buffer offset) ↔ Returns (readByte buffer offset) ∧
        Returns (readByte buffer (offset + 1)) := by
    simp [readWord, Returns, bind_eq_ok_iff]
  rw [split, returns_readByte_iff, returns_readByte_iff]
  unfold Inside
  omega

theorem returns_readLong_iff :
    Returns (readLong buffer offset) ↔ Inside buffer offset 4 := by
  have split : Returns (readLong buffer offset) ↔ Returns (readByte buffer offset) ∧
        Returns (readByte buffer (offset + 1)) ∧ Returns (readByte buffer (offset + 2)) ∧
            Returns (readByte buffer (offset + 3)) := by
    simp [readLong, Returns, bind_eq_ok_iff]
  rw [split, returns_readByte_iff, returns_readByte_iff, returns_readByte_iff, returns_readByte_iff]
  unfold Inside
  omega

theorem readLong_eq_ok_iff {value : UInt32} : readLong buffer offset = .ok value ↔
      Inside buffer offset 4 ∧
        value = longOfBytes (bytesAt buffer offset 4) := by
  have read : Inside buffer offset 4 →
      readLong buffer offset = .ok (longOfBytes (bytesAt buffer offset 4)) := by
    intro inside
    unfold Inside at inside
    have byteAt : ∀ k : Nat, k < 4 → readByte buffer (offset + k) =
        .ok ((bytesAt buffer offset 4).getD k 0) := by
      intro k small
      have place : (offset + k).toNat = offset.toNat + k := by omega
      have within : offset.toNat + k < buffer.length := by omega
      rw [readByte_eq_ok_iff, place, List.getElem?_eq_getElem within]
      refine ⟨by omega, ?_⟩
      unfold bytesAt
      rw [List.getD_eq_getElem?_getD, List.getElem?_take_of_lt small,
        List.getElem?_drop, List.getElem?_eq_getElem within,
        Option.getD_some]
    have first := byteAt 0 (by omega)
    rw [Nat.cast_zero, Int.add_zero] at first
    have second := byteAt 1 (by omega)
    have third := byteAt 2 (by omega)
    have fourth := byteAt 3 (by omega)
    simp only [Nat.cast_one, Nat.cast_ofNat] at second third fourth
    simp only [readLong, first, second, third, fourth, bind_ok, pure_eq_ok]
    rfl
  constructor
  · intro returned
    have inside := returns_readLong_iff.mp ⟨value, returned⟩
    rw [read inside] at returned
    cases returned
    exact ⟨inside, rfl⟩
  · rintro ⟨inside, rfl⟩
    exact read inside

end

end OsFree.Machine
