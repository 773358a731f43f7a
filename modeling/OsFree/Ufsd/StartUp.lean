import OsFree.Loader.Toggles
import OsFree.Machine.Attempts
import OsFree.Ufsd.Offset

/-!
# The command line of the micro file system driver

The driver reads options from the command line of its module: what it prints to,
the types of partitions that get letters, and how the letters of two drives are
found.  It writes the letters that it has found back into the command line.
-/

namespace OsFree.Ufsd

open Machine Loader

/-- Where a string first occurs in a text. -/
def strstr (text mark : List UInt8) : Option Nat :=
  (List.range text.length).find? fun i => mark.isPrefixOf (text.drop i)

/-- A blank, a tab or an equality sign. -/
def separates (c : UInt8) : Bool := c == 32 || c == 9 || c == 61

/-- `skip_to` with `after_equal`. -/
def skip_to (text : List UInt8) (i : Nat) : Nat :=
  let j := i + ((text.drop i).takeWhile fun c => !separates c).length
  j + ((text.drop j).takeWhile separates).length

/-- Where the value of an option begins. -/
def optionAt (text mark : List UInt8) : Option Nat := (strstr text mark).map (skip_to text)

/-- The value that begins somewhere, up to a blank. -/
def wordAt (text : List UInt8) (p : Nat) : List UInt8 := (text.drop p).takeWhile (· ≠ 32)

/-- The value of an option, which is empty if there is no such option. -/
def optionValue (text mark : List UInt8) : List UInt8 :=
  match optionAt text mark with
  | none => []
  | some p => wordAt text p

/-- `--debug` -/
def debugMark : List UInt8 := [45, 45, 100, 101, 98, 117, 103]

/-- `--port` -/
def portMark : List UInt8 := [45, 45, 112, 111, 114, 116]

/-- `--speed` -/
def speedMark : List UInt8 := [45, 45, 115, 112, 101, 101, 100]

/-- `--pt` -/
def ptMark : List UInt8 := [45, 45, 112, 116]

/-- `--drv=` -/
def drvMark : List UInt8 := [45, 45, 100, 114, 118, 61]

/-- `--drv2=` -/
def drv2Mark : List UInt8 := [45, 45, 100, 114, 118, 50, 61]

/-- `AUTO` and `DLAT` -/
def autoName : List UInt8 := [65, 85, 84, 79]
def dlatName : List UInt8 := [68, 76, 65, 84]

/-- The number that an option gives, or what stands for it. -/
def optionNumber (text mark : List UInt8) (standing : Nat) : Nat :=
  match (optionAt text mark).bind fun p => safeParseMaxint (text.drop p) with
  | none => standing
  | some (number, _) => number

def default_part_types : List UInt8 := [0x01, 0x04, 0x06, 0x07, 0x0b, 0x0c, 0x0e]

/-- A byte is stored in an array. -/
def storeByte (array : List UInt8) (i : Nat) (byte : UInt8) : Run (List UInt8) :=
  if i < array.length then .ok (array.set i byte) else .error .writeOutside

/-- The loop that copies the types of the command line behind the defaults.  No
number runs over the end of its part. -/
def storeTypes : List (List UInt8) → List UInt8 × Nat → Run (List UInt8 × Nat)
  | [], stored => .ok stored
  | part :: parts, (part_types, i) =>
    if 0x20 < i then .ok (part_types, i)
    else match safeParseMaxint part with
      | none => storeTypes parts (part_types, i)
      | some (t, _) => do
          let part_types ← storeByte part_types i (UInt8.ofNat t)
          storeTypes parts (part_types, i + 1)

/-- The parts of the value of `--pt`. -/
def typeParts (text : List UInt8) : List (List UInt8) :=
  match optionAt text ptMark with
  | none => []
  | some p => (wordAt text p).splitOn 44

/-- `part_types`, with the defaults copied to it. -/
def defaultTypes : List UInt8 := default_part_types ++ List.replicate 25 0

/-- `part_types`, ended with a zero. -/
def copyTypes (text : List UInt8) : Run (List UInt8) := do
  let (part_types, i) ← storeTypes (typeParts text) (defaultTypes, default_part_types.length)
  storeByte part_types i 0

/-- `mode` or `mode2`. -/
def copyMode (name : List UInt8) : Run (List UInt8) :=
  if name.length < 12 then .ok (name.map grub_toupper) else .error .writeOutside

/-- The letters that two of the ways to find one would give. -/
structure Found where
  auto : Int
  dlat : Int

def assign_drvletter (found : Found) (mode : List UInt8) : Int :=
  if mode = [] then 67
  else if mode = autoName then found.auto
  else if mode = dlatName then found.dlat
  else (grub_toupper (mode.headD 0)).toNat

/-- `drvletter` and `drvletter2`, which is zero until it is assigned. -/
def driveLetters (found : Found) (mode mode2 : List UInt8) : Int × Int :=
  if mode2 = [] then (assign_drvletter found mode, 0)
  else if mode2 = autoName then
    let drvletter2 := assign_drvletter found autoName
    if mode = autoName then (drvletter2 + 1, drvletter2)
    else
      let drvletter : Int := (mode.headD 0).toNat
      (drvletter, if drvletter ≤ drvletter2 then drvletter2 + 1 else drvletter2)
  else (assign_drvletter found mode, assign_drvletter found mode2)

/-- Blanks are stored behind a place. -/
def pad (memory : List UInt8) (p : Nat) : Nat → List UInt8
  | 0 => memory
  | count + 1 => (pad memory p count).set (p + (count + 1)) 32

/-- A letter is stored over a value of some length. -/
def correct (memory : List UInt8) (p : Nat) (letter : Int) (length : Nat) : List UInt8 :=
  pad (memory.set p (UInt8.ofInt letter)) p (length - 1)

/-- What the driver has read from the command line, and what it has made of it. -/
structure StartUp where
  debug : Bool
  port : Nat
  speed : Nat
  part_types : List UInt8
  drvletter : Int
  drvletter2 : Int
  cmdline : List UInt8

/-- `cmain` from the assignment of the letters to the correction. -/
def correctCmdline (found : Found) (text part_types mode mode2 : List UInt8)
    (pp0 pp : Nat) : StartUp :=
  let letters := driveLetters found mode mode2
  { debug := (strstr text debugMark).isSome
    port := optionNumber text portMark 0x3f8
    speed := optionNumber text speedMark 9600
    part_types
    drvletter := letters.1
    drvletter2 := letters.2
    cmdline := correct (correct (text ++ [0]) pp0 letters.1 mode.length) pp letters.2 mode2.length }

/-- `cmain` up to the correction of the command line, which is there. -/
def cmain (found : Found) (text : List UInt8) : Run StartUp := do
  let part_types ← copyTypes text
  let mode ← copyMode (optionValue text drvMark)
  let mode2 ← copyMode (optionValue text drv2Mark)
  match optionAt text drvMark, optionAt text drv2Mark with
  | some pp0, some pp => .ok (correctCmdline found text part_types mode mode2 pp0 pp)
  | _, _ => .error .nullPointer

/-- The types that the command line lists. -/
def listed (parts : List (List UInt8)) : List UInt8 :=
  parts.filterMap fun part => (safeParseMaxint part).map fun number => UInt8.ofNat number.1

/-- What the correction owes to a place: the letter for the first character of a
value, blanks for the others, and nothing elsewhere. -/
def owed (text mark : List UInt8) (letter : Int) (k : Nat) : Option UInt8 :=
  (optionAt text mark).bind fun p =>
    if p ≤ k ∧ k < p + (wordAt text p).length then
      some (if k = p then UInt8.ofInt letter else 32)
    else none

/-- The command line is read without a write outside an array, the types are the
defaults and those listed, and only values are corrected. -/
def Meets (found : Found) (text : List UInt8) : Prop := ∃ result, cmain found text = .ok result ∧
    default_part_types ++ listed (typeParts text) ++ [0] <+: result.part_types ∧
      ∀ k, result.cmdline[k]? = (owed text drv2Mark result.drvletter2 k <|>
        owed text drvMark result.drvletter k <|> (text ++ [0])[k]?)

/-- The values have room and are there to be corrected, and the types have room. -/
structure Fits (text : List UInt8) : Prop where
  drv : (strstr text drvMark).isSome
  drv2 : (strstr text drv2Mark).isSome
  short : (optionValue text drvMark).length < 12
  short2 : (optionValue text drv2Mark).length < 12
  types : (listed (typeParts text)).length ≤ 24
  filled : optionValue text drvMark ≠ [] ∨ optionValue text drv2Mark = [] ∨
    (optionValue text drv2Mark).map grub_toupper = autoName

variable {text mark memory done rest : List UInt8} {p k count : Nat} {letter : Int}

theorem storeByte_append (done rest : List UInt8) (byte old : UInt8) :
    storeByte (done ++ old :: rest) done.length byte = .ok (done ++ byte :: rest) := by
  rw [storeByte, if_pos (by simp), List.set_append_right _ _ (Nat.le_refl _), Nat.sub_self,
    List.set_cons_zero]

theorem storeTypes_eq (parts : List (List UInt8)) (full : done.length + rest.length = 0x20) :
    storeTypes parts (done ++ rest, done.length) =
      if (listed parts).length ≤ rest.length then
        .ok (done ++ listed parts ++ rest.drop (listed parts).length,
          done.length + (listed parts).length)
      else .error .writeOutside := by
  induction parts generalizing done rest with
  | nil => simp [storeTypes, listed]
  | cons part parts ih =>
    rw [storeTypes, if_neg (by omega)]
    cases number : safeParseMaxint part with
    | none =>
      have same : listed (part :: parts) = listed parts := by simp [listed, number]
      rw [same]
      exact ih full
    | some read =>
      have more : listed (part :: parts) = UInt8.ofNat read.1 :: listed parts := by
        simp [listed, number]
      rw [more]
      cases rest with
      | nil => simp [storeByte]
      | cons old rest =>
        have next := @ih (done ++ [UInt8.ofNat read.1]) rest (by
          rw [List.length_append, List.length_singleton, ← full, List.length_cons]
          omega)
        simp only [storeByte_append, bind_ok]
        simp only [List.append_assoc, List.singleton_append, List.length_append,
          List.length_singleton] at next
        rw [next]
        simp only [List.length_cons, Nat.add_le_add_iff_right, List.drop_succ_cons,
          List.append_assoc, List.cons_append, Nat.add_assoc, Nat.add_comm 1]

theorem copyTypes_eq (text : List UInt8) : copyTypes text =
    if (listed (typeParts text)).length ≤ 24 then .ok (default_part_types ++
      listed (typeParts text) ++ List.replicate (25 - (listed (typeParts text)).length) 0)
    else .error .writeOutside := by
  have stored := @storeTypes_eq default_part_types (List.replicate 25 0) (typeParts text) rfl
  rw [copyTypes, defaultTypes, stored, List.length_replicate, List.drop_replicate]
  split
  next fits =>
    rw [bind_ok]
    dsimp only
    split
    next few =>
      obtain ⟨left, eq⟩ : ∃ left, 25 - (listed (typeParts text)).length = left + 1 :=
        ⟨24 - (listed (typeParts text)).length, by omega⟩
      rw [eq, List.replicate_succ]
      have ended := storeByte_append (default_part_types ++ listed (typeParts text))
        (List.replicate left 0) 0 0
      rwa [List.length_append] at ended
    next full =>
      rw [storeByte, if_neg (by simp; omega)]
  next full => rw [if_neg (by omega), bind_error]

theorem length_pad (memory : List UInt8) (p count : Nat) :
    (pad memory p count).length = memory.length := by
  induction count with
  | zero => rfl
  | succ count ih => rw [pad, List.length_set, ih]

theorem getElem?_pad (inside : p + count < memory.length) :
    (pad memory p count)[k]? = if p < k ∧ k ≤ p + count then some 32 else memory[k]? := by
  induction count with
  | zero => rw [pad, if_neg (by omega)]
  | succ count ih =>
    rw [pad, List.getElem?_set, length_pad, ih (by omega)]
    split_ifs <;> first | rfl | omega

theorem getElem?_correct (some_char : count ≠ 0) (inside : p + count ≤ memory.length) :
    (correct memory p letter count)[k]? =
      if p ≤ k ∧ k < p + count then some (if k = p then UInt8.ofInt letter else 32)
      else memory[k]? := by
  rw [correct, getElem?_pad (by rw [List.length_set]; omega), List.getElem?_set]
  split_ifs <;> first | rfl | omega

theorem scan_le (q : UInt8 → Bool) (inside : p ≤ text.length) :
    p + ((text.drop p).takeWhile q).length ≤ text.length := by
  have short := (List.takeWhile_prefix (l := text.drop p) q).length_le
  rw [List.length_drop] at short
  omega

section

variable (found : optionAt text mark = some p)

include found

/-- A value lies inside the command line, and an empty one at its end. -/
theorem optionAt_eq_some :
    p + (wordAt text p).length ≤ text.length ∧ (wordAt text p = [] → p = text.length) := by
  obtain ⟨i, first, rfl⟩ := Option.map_eq_some_iff.mp found
  have below : i < text.length := List.mem_range.mp (List.mem_of_find?_eq_some first)
  have inside : skip_to text i ≤ text.length := scan_le _ (scan_le _ below.le)
  refine ⟨scan_le _ inside, fun empty => Nat.le_antisymm inside ?_⟩
  rw [← List.drop_eq_nil_iff]
  rw [wordAt] at empty
  cases behind : text.drop (skip_to text i) with
  | nil => rfl
  | cons c rest =>
    have stops := List.head?_dropWhile_not separates
      (text.drop (i + ((text.drop i).takeWhile fun c => !separates c).length))
    have here := behind
    rw [skip_to] at here
    rw [← drop_length_takeWhile, List.drop_drop, here] at stops
    have other : c ≠ 32 := by
      rintro rfl
      contradiction
    rw [behind, List.takeWhile_cons, if_pos (decide_eq_true other)] at empty
    contradiction

theorem optionValue_eq :
    optionValue text mark = wordAt text p := by
  rw [optionValue, found]

theorem owed_eq (letter : Int) (k : Nat) :
    owed text mark letter k = if p ≤ k ∧ k < p + (optionValue text mark).length then
      some (if k = p then UInt8.ofInt letter else 32) else none := by
  rw [owed, found, Option.bind_some, optionValue_eq found]

theorem getElem?_correct_optionAt
    (size : memory.length = text.length + 1) (letter : Int) (k : Nat) :
    (correct memory p letter (optionValue text mark).length)[k]? =
      if optionValue text mark = [] ∧ k = text.length then some (UInt8.ofInt letter)
      else owed text mark letter k <|> memory[k]? := by
  obtain ⟨inside, ends⟩ := optionAt_eq_some found
  rw [← optionValue_eq found] at inside ends
  rw [owed_eq found]
  by_cases empty : optionValue text mark = []
  · rw [empty, List.length_nil, correct, pad, List.getElem?_set, ends empty]
    split_ifs <;> first | rfl | omega | simp_all
  · have chars : (optionValue text mark).length ≠ 0 := mt List.length_eq_zero_iff.mp empty
    have filled : ¬ (optionValue text mark = [] ∧ k = text.length) := fun both => empty both.1
    rw [getElem?_correct chars (by omega), if_neg filled]
    split_ifs <;> rfl

end

theorem length_correct (memory : List UInt8) (p : Nat) (letter : Int) (count : Nat) :
    (correct memory p letter count).length = memory.length := by
  rw [correct, length_pad, List.length_set]

/-- What `cmain` leaves when nothing goes wrong. -/
def started (found : Found) (text : List UInt8) (pp0 pp : Nat) : StartUp :=
  correctCmdline found text (default_part_types ++ listed (typeParts text) ++
      List.replicate (25 - (listed (typeParts text)).length) 0)
    ((optionValue text drvMark).map grub_toupper)
    ((optionValue text drv2Mark).map grub_toupper) pp0 pp

theorem cmain_eq_ok_iff {found : Found} {result : StartUp} : cmain found text = .ok result ↔
    (listed (typeParts text)).length ≤ 24 ∧ (optionValue text drvMark).length < 12 ∧
      (optionValue text drv2Mark).length < 12 ∧ ∃ pp0 pp, optionAt text drvMark = some pp0 ∧
        optionAt text drv2Mark = some pp ∧ result = started found text pp0 pp := by
  rw [cmain, copyTypes_eq, copyMode, copyMode]
  by_cases types : (listed (typeParts text)).length ≤ 24
  · by_cases short : (optionValue text drvMark).length < 12
    · by_cases short2 : (optionValue text drv2Mark).length < 12
      · cases optionAt text drvMark with
        | none => simp [types, short, short2]
        | some pp0 =>
          cases optionAt text drv2Mark with
          | none => simp [types, short, short2]
          | some pp => simp [types, short, short2, started, eq_comm]
      · simp [types, short, short2]
    · simp [types, short]
  · simp [types]

theorem letter_of_empty (found : Found) {mode2 : List UInt8} (given : mode2 ≠ []) :
    UInt8.ofInt (driveLetters found [] mode2).1 = 0 ↔ mode2 = autoName := by
  have default : UInt8.ofInt (assign_drvletter found []) ≠ 0 := by
    rw [assign_drvletter, if_pos rfl]
    decide
  rw [driveLetters, if_neg given]
  split
  next auto => exact iff_of_true rfl auto
  next other => exact iff_of_false default other

theorem owed_end (found : optionAt text mark = some p) (letter : Int) :
    owed text mark letter text.length = none := by
  have inside := (optionAt_eq_some found).1
  rw [← optionValue_eq found] at inside
  rw [owed_eq found, if_neg (by omega)]

theorem corrected_iff {found : Found} {pp0 pp : Nat} (here : optionAt text drvMark = some pp0)
    (here2 : optionAt text drv2Mark = some pp) :
    (∀ k, (started found text pp0 pp).cmdline[k]? =
        (owed text drv2Mark (started found text pp0 pp).drvletter2 k <|>
          owed text drvMark (started found text pp0 pp).drvletter k <|> (text ++ [0])[k]?)) ↔
      optionValue text drvMark ≠ [] ∨ optionValue text drv2Mark = [] ∨
        (optionValue text drv2Mark).map grub_toupper = autoName := by
  have size : (text ++ [0]).length = text.length + 1 := List.length_append
  have ends : (text ++ [0])[text.length]? = some 0 := List.getElem?_concat_length
  have sized : ∀ letter, (correct (text ++ [0]) pp0 letter
      (optionValue text drvMark).length).length = text.length + 1 :=
    fun letter => (length_correct ..).trans size
  simp only [started, correctCmdline, List.length_map, getElem?_correct_optionAt here size,
    getElem?_correct_optionAt here2 (sized _)]
  by_cases empty2 : optionValue text drv2Mark = []
  · refine iff_of_true (fun k => ?_) (.inr (.inl empty2))
    by_cases last : k = text.length
    · rw [if_pos ⟨empty2, last⟩, last, owed_end here2, owed_end here, ends, empty2]
      rfl
    · rw [if_neg fun both => last both.2, if_neg fun both => last both.2]
  simp only [empty2, false_and, if_false, false_or]
  by_cases empty : optionValue text drvMark = []
  · have given : (optionValue text drv2Mark).map grub_toupper ≠ [] := mt List.map_eq_nil_iff.mp empty2
    have zero := letter_of_empty found given
    rw [empty, List.map_nil, ← zero]
    constructor
    · intro corrected
      have last := corrected text.length
      rw [owed_end here2, owed_end here, ends, if_pos ⟨rfl, rfl⟩] at last
      exact .inr (Option.some.inj last)
    · intro auto k
      have auto := auto.resolve_left fun other => other rfl
      by_cases last : k = text.length
      · rw [if_pos ⟨rfl, last⟩, last, owed_end here2, owed_end here, ends, auto]
        rfl
      · rw [if_neg fun both => last both.2]
  · refine iff_of_true (fun k => ?_) (.inl empty)
    rw [if_neg fun both => empty both.1]

/-- The start-up code keeps to its arrays and to the values exactly when both options
are there, they and the types have room, and no zero is written over. -/
theorem cmain_meets_iff (found : Found) (text : List UInt8) : Meets found text ↔ Fits text := by
  constructor
  · rintro ⟨result, run, -, corrected⟩
    obtain ⟨types, short, short2, pp0, pp, here, here2, rfl⟩ := cmain_eq_ok_iff.mp run
    have present : ∀ {mark p}, optionAt text mark = some p → (strstr text mark).isSome := by
      intro mark p found
      obtain ⟨i, first, -⟩ := Option.map_eq_some_iff.mp found
      rw [first]
      rfl
    exact ⟨present here, present here2, short, short2, types,
      (corrected_iff here here2).mp corrected⟩
  · intro fits
    have here : ∀ {mark}, (strstr text mark).isSome → ∃ p, optionAt text mark = some p := by
      intro mark present
      obtain ⟨i, first⟩ := Option.isSome_iff_exists.mp present
      exact ⟨skip_to text i, by rw [optionAt, first]; rfl⟩
    obtain ⟨pp0, here1⟩ := here fits.drv
    obtain ⟨pp, here2⟩ := here fits.drv2
    refine ⟨started found text pp0 pp, cmain_eq_ok_iff.mpr ⟨fits.types, fits.short,
      fits.short2, pp0, pp, here1, here2, rfl⟩, ?_, (corrected_iff here1 here2).mpr fits.filled⟩
    obtain ⟨left, room⟩ : ∃ left, 25 - (listed (typeParts text)).length = left + 1 :=
      ⟨24 - (listed (typeParts text)).length, by have := fits.types; omega⟩
    refine ⟨List.replicate left 0, ?_⟩
    rw [started, correctCmdline, room, List.replicate_succ, List.append_assoc]
    rfl

/-- Without options, the letter is stored through a null pointer. -/
theorem not_meets_bare : ¬ ∀ found text, Meets found text := by
  intro meets
  obtain ⟨result, run, -⟩ := meets ⟨67, 67⟩ []
  have bare : cmain ⟨67, 67⟩ [] = .error .nullPointer := rfl
  contradiction

end OsFree.Ufsd
