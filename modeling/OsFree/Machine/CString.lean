import OsFree.Machine.Buffer

/-!
# Strings in memory

A string ends with a zero.  A list of strings that are not empty ends with one
more zero.  A function that is given a pointer reads the bytes from there on.
-/

namespace OsFree.Machine

/-- The length of the string at the start of some bytes. -/
def strlen : List UInt8 → Run Nat
  | [] => .error .readOutside
  | byte :: rest => if byte = 0 then .ok 0 else (· + 1) <$> strlen rest

/-- The string at the start of some bytes. -/
def readString (bytes : List UInt8) : Run (List UInt8) := bytes.take <$> strlen bytes

/-- A list of strings that can be stored. -/
structure StringList where
  strings : List (List UInt8)
  nonempty : ∀ string ∈ strings, string ≠ []
  nonzero : ∀ string ∈ strings, 0 ∉ string

/-- The bytes of a list of strings. -/
def encodeStrings (strings : List (List UInt8)) : List UInt8 := strings.flatMap (· ++ [0]) ++ [0]

/-- Read strings until there is an empty one. -/
def readStringsLoop : Nat → List UInt8 → Run (List (List UInt8))
  | 0, _ => .error .readOutside
  | fuel + 1, bytes => do
      let string ← readString bytes
      if string = [] then pure []
      else (string :: ·) <$> readStringsLoop fuel (bytes.drop (string.length + 1))

/-- The list of strings at the start of some bytes.  Every string of it takes
bytes, so that their number is fuel enough. -/
def readStrings (bytes : List UInt8) : Run (List (List UInt8)) := readStringsLoop bytes.length bytes

/-- The buffer with some bytes stored inside it. -/
def putBytes (buffer : List UInt8) (offset : Nat) (bytes : List UInt8) :
    List UInt8 :=
  buffer.take offset ++ bytes ++ buffer.drop (offset + bytes.length)

/-- Store bytes at an offset. -/
def writeBytes (buffer : List UInt8) (offset : Nat) (bytes : List UInt8) :
    Run (List UInt8) :=
  if offset + bytes.length ≤ buffer.length then
    .ok (putBytes buffer offset bytes)
  else .error .writeOutside

section

variable {text rest : List UInt8}

theorem strlen_of_ends (nonzero : 0 ∉ text) : strlen (text ++ 0 :: rest) = .ok text.length := by
  induction text with
  | nil => rfl
  | cons byte text ih =>
    obtain ⟨different, nonzero⟩ := not_or.mp (mt List.mem_cons.mpr nonzero)
    rw [List.cons_append, strlen, if_neg (Ne.symm different), ih nonzero]
    rfl

theorem strlen_eq_ok_iff {bytes : List UInt8} {count : Nat} : strlen bytes = .ok count ↔
      0 ∈ bytes ∧ count = (bytes.takeWhile (· ≠ 0)).length := by
  induction bytes generalizing count with
  | nil => simp [strlen]
  | cons byte bytes ih =>
    rw [strlen]
    by_cases zero : byte = 0
    · simp [zero, eq_comm]
    · rw [if_neg zero, map_eq_ok_iff, List.takeWhile_cons]
      simp only [ih]
      simp [zero, Ne.symm zero, eq_comm]

theorem readString_of_ends (nonzero : 0 ∉ text) : readString (text ++ 0 :: rest) = .ok text := by
  rw [readString, strlen_of_ends nonzero, map_ok, List.take_left]

end

@[simp] theorem encodeStrings_nil : encodeStrings [] = [0] := rfl

theorem encodeStrings_cons (string : List UInt8) (strings : List (List UInt8)) :
    encodeStrings (string :: strings) = string ++ 0 :: encodeStrings strings := by
  simp [encodeStrings]

theorem length_encodeStrings_pos (strings : List (List UInt8)) :
    0 < (encodeStrings strings).length := by
  simp [encodeStrings]

namespace StringList

/-- The list without strings. -/
def empty : StringList where
  strings := []
  nonempty := by simp
  nonzero := by simp

/-- What follows the first string of a list. -/
def tail (list : StringList) : StringList where
  strings := list.strings.tail
  nonempty := fun string member =>
    list.nonempty string (List.mem_of_mem_tail member)
  nonzero := fun string member =>
    list.nonzero string (List.mem_of_mem_tail member)

/-- The bytes of the list. -/
def encode (list : StringList) : List UInt8 := encodeStrings list.strings

end StringList

theorem readStringsLoop_encode {strings : List (List UInt8)}
    (nonempty : ∀ string ∈ strings, string ≠ [])
    (nonzero : ∀ string ∈ strings, 0 ∉ string) (rest : List UInt8) {fuel : Nat}
    (enough : (encodeStrings strings).length ≤ fuel) :
    readStringsLoop fuel (encodeStrings strings ++ rest) = .ok strings := by
  induction strings generalizing fuel with
  | nil =>
    cases fuel with
    | zero => simp at enough
    | succ fuel => rfl
  | cons string strings ih =>
    rw [encodeStrings_cons] at enough ⊢
    cases fuel with
    | zero => simp at enough
    | succ fuel =>
      have first : readString ((string ++ 0 :: encodeStrings strings) ++ rest) = .ok string := by
        rw [List.append_assoc, List.cons_append]
        exact readString_of_ends (nonzero string (List.mem_cons_self ..))
      have following : ((string ++ 0 :: encodeStrings strings) ++ rest).drop
          (string.length + 1) = encodeStrings strings ++ rest := by
        simp
      rw [readStringsLoop, first, bind_ok,
        if_neg (nonempty string (List.mem_cons_self ..)), following,
        ih (fun other member => nonempty other (List.mem_cons_of_mem _ member))
          (fun other member => nonzero other (List.mem_cons_of_mem _ member))
          (by simp at enough; omega)]
      rfl

theorem readStrings_encode (list : StringList) (rest : List UInt8) :
    readStrings (list.encode ++ rest) = .ok list.strings :=
  readStringsLoop_encode list.nonempty list.nonzero rest (by
    simp [StringList.encode])

section

variable {buffer bytes : List UInt8} {offset : Nat}

theorem writeBytes_eq_ok_iff {result : List UInt8} : writeBytes buffer offset bytes = .ok result ↔
      offset + bytes.length ≤ buffer.length ∧
        result = putBytes buffer offset bytes := by
  unfold writeBytes
  split
  · rename_i fits
    simp [fits, eq_comm]
  · rename_i tooLong
    simp [tooLong]

section

variable (fits : offset + bytes.length ≤ buffer.length)

include fits

theorem putBytes_length :
    (putBytes buffer offset bytes).length = buffer.length := by
  simp only [putBytes, List.length_append, List.length_take, List.length_drop]
  omega

theorem drop_putBytes : (putBytes buffer offset bytes).drop offset =
      bytes ++ buffer.drop (offset + bytes.length) := by
  have length : (buffer.take offset).length = offset := by
    rw [List.length_take]
    omega
  rw [putBytes, List.append_assoc]
  conv_lhs => rw [← length]
  rw [length, List.drop_append_of_le_length (by omega)]
  simp

theorem slice_putBytes {start count : Nat}
    (apart : start + count ≤ offset ∨ offset + bytes.length ≤ start) :
    ((putBytes buffer offset bytes).drop start).take count =
      (buffer.drop start).take count := by
  ext1 index
  simp only [putBytes, List.getElem?_take, List.getElem?_drop]
  split
  · rename_i inside
    simp only [List.getElem?_append, List.length_append, List.length_take,
      List.getElem?_take, List.getElem?_drop]
    have least : min offset buffer.length = offset := by omega
    rw [least]
    cases apart with
    | inl before =>
      have left : start + index < offset := by omega
      rw [if_pos (by omega), if_pos left, if_pos left]
    | inr behind =>
      rw [if_neg (by omega)]
      congr 1
      omega
  · rfl

end

end

/-- The bytes are in the buffer from an offset on. -/
def Contains (buffer : List UInt8) (offset : Nat) (bytes : List UInt8) : Prop :=
  (buffer.drop offset).take bytes.length = bytes

namespace Contains

variable {buffer bytes others : List UInt8} {offset offset' : Nat}

theorem putBytes_self (fits : offset + bytes.length ≤ buffer.length) :
    Contains (putBytes buffer offset bytes) offset bytes := by
  unfold Contains
  rw [drop_putBytes fits, List.take_left]

theorem putBytes (contains : Contains buffer offset bytes)
    (fits : offset' + others.length ≤ buffer.length)
    (apart : offset + bytes.length ≤ offset' ∨ offset' + others.length ≤ offset) :
    Contains (putBytes buffer offset' others) offset bytes :=
  (slice_putBytes fits apart).trans contains

theorem drop_eq (contains : Contains buffer offset bytes) :
    ∃ rest, buffer.drop offset = bytes ++ rest :=
  ⟨(buffer.drop offset).drop bytes.length, by
    conv_lhs => rw [← List.take_append_drop bytes.length (buffer.drop offset)]
    rw [contains]⟩

theorem readLong {value : UInt32} (contains : Contains buffer offset (longBytes value)) :
    readLong buffer offset = .ok value := by
  obtain ⟨rest, equal⟩ := contains.drop_eq
  have stands : RestAt buffer offset (longBytes value ++ rest) := by
    refine ⟨buffer.take offset, ?_, ?_⟩
    · rw [← equal, List.take_append_drop]
    · have lengths := congrArg List.length equal
      simp only [List.length_drop, List.length_append, longBytes_length]
        at lengths
      rw [List.length_take]
      omega
  exact stands.readLong

end Contains

section

variable {buffer bytes : List UInt8} {offset offset' : Nat} {value : UInt32}

section

variable (fits : offset + bytes.length ≤ buffer.length)

include fits

theorem getElem?_putBytes_of_apart {index : Nat}
    (apart : index < offset ∨ offset + bytes.length ≤ index) :
    (putBytes buffer offset bytes)[index]? = buffer[index]? := by
  have slice := @slice_putBytes _ _ _ fits index 1 (by omega)
  have first := congrArg (fun slice => slice[0]?) slice
  simpa [List.getElem?_take, List.getElem?_drop] using first

theorem take_putBytes : (putBytes buffer offset bytes).take (offset + bytes.length) =
      buffer.take offset ++ bytes := by
  have length : (buffer.take offset ++ bytes).length = offset + bytes.length := by
    rw [List.length_append, List.length_take]
    omega
  rw [putBytes, ← length, List.take_left]

theorem drop_putBytes_of_le {start : Nat} (behind : offset + bytes.length ≤ start) :
    (putBytes buffer offset bytes).drop start = buffer.drop start := by
  ext1 index
  rw [List.getElem?_drop, List.getElem?_drop]
  exact getElem?_putBytes_of_apart fits (by omega)

theorem putBytes_putBytes {others : List UInt8} :
    putBytes (putBytes buffer offset bytes) (offset + bytes.length) others =
      putBytes buffer offset (bytes ++ others) := by
  rw [putBytes, take_putBytes fits, drop_putBytes_of_le fits (Nat.le_add_right ..), putBytes,
    List.length_append, Nat.add_assoc]
  simp only [List.append_assoc]

end

theorem readLong_congr {buffer' : List UInt8}
    (same : ∀ index, offset ≤ index → index < offset + 4 → buffer'[index]? = buffer[index]?) :
    readLong buffer' offset = readLong buffer offset := by
  have byte : ∀ k : Nat, k < 4 →
      readByte buffer' (offset + k) = readByte buffer (offset + k) := by
    intro k small
    have place : ((offset : Int) + k).toNat = offset + k := by omega
    rw [readByte, readByte, place, same _ (by omega) (by omega)]
  have first := byte 0 (by omega)
  have second := byte 1 (by omega)
  have third := byte 2 (by omega)
  have fourth := byte 3 (by omega)
  simp only [Nat.cast_zero, Int.add_zero] at first
  simp only [Nat.cast_one, Nat.cast_ofNat] at second third fourth
  unfold readLong
  rw [first, second, third, fourth]

theorem readLong_putLong_self (inside : offset + 4 ≤ buffer.length) :
    readLong (putLong buffer offset value) offset = .ok value :=
  (@Contains.putBytes_self _ (longBytes value) _ inside).readLong

theorem readLong_putLong_of_apart (inside : offset' + 4 ≤ buffer.length)
    (apart : offset + 4 ≤ offset' ∨ offset' + 4 ≤ offset) :
    readLong (putLong buffer offset' value) offset = readLong buffer offset := by
  apply readLong_congr
  intro index least less
  refine @getElem?_putBytes_of_apart _ (longBytes value) _ inside index ?_
  rw [longBytes_length]
  omega

theorem length_of_readLong (read : readLong buffer offset = .ok value) :
    offset + 4 ≤ buffer.length := by
  have inside := returns_readLong_iff.mp ⟨value, read⟩
  unfold Inside at inside
  omega

end

/-- Bytes for an offset. -/
abbrev Part := Nat × List UInt8

/-- The offset behind a part. -/
def Part.stop (part : Part) : Nat := part.1 + part.2.length

/-- Two parts have no offset in common. -/
def Part.Apart (first second : Part) : Prop := first.stop ≤ second.1 ∨ second.stop ≤ first.1

/-- Store one part after the other. -/
def putAll (buffer : List UInt8) (parts : List Part) : List UInt8 :=
  parts.foldl (fun buffer part => putBytes buffer part.1 part.2) buffer

section

variable {buffer : List UInt8} {parts : List Part}

theorem contains_putAll {offset : Nat} {bytes : List UInt8}
    (fits : ∀ part ∈ parts, Part.stop part ≤ buffer.length)
    (apart : ∀ part ∈ parts, Part.Apart (offset, bytes) part)
    (contains : Contains buffer offset bytes) :
    Contains (putAll buffer parts) offset bytes := by
  induction parts generalizing buffer with
  | nil => exact contains
  | cons part parts ih =>
    have inside := fits part (List.mem_cons_self ..)
    apply ih
    · intro other member
      rw [putBytes_length inside]
      exact fits other (List.mem_cons_of_mem _ member)
    · exact fun other member => apart other (List.mem_cons_of_mem _ member)
    · exact contains.putBytes inside (apart part (List.mem_cons_self ..))

theorem forall_contains_putAll (fits : ∀ part ∈ parts, Part.stop part ≤ buffer.length)
    (apart : parts.Pairwise Part.Apart) :
    ∀ part ∈ parts, Contains (putAll buffer parts) part.1 part.2 := by
  induction parts generalizing buffer with
  | nil => simp
  | cons part parts ih =>
    have inside := fits part (List.mem_cons_self ..)
    obtain ⟨others, apart⟩ := List.pairwise_cons.mp apart
    have within : ∀ other ∈ parts,
        Part.stop other ≤ (putBytes buffer part.1 part.2).length := by
      intro other member
      rw [putBytes_length inside]
      exact fits other (List.mem_cons_of_mem _ member)
    intro other member
    cases List.mem_cons.mp member with
    | inl same =>
      subst same
      have here := contains_putAll within others (Contains.putBytes_self inside)
      exact here
    | inr member => exact ih within apart other member

end

end OsFree.Machine
