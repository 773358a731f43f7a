import Mathlib.Data.Nat.Bitwise
import OsFree.Machine.Run

/-!
# Little-endian words

The fixed-width fields of a file format as byte strings, least significant
byte first, and the C conversions between the unsigned and the signed type of
one width.
-/

namespace OsFree.Machine

/-- The two bytes of a 16-bit word. -/
def wordBytes (value : UInt16) : List UInt8 :=
  [UInt8.ofNat value.toNat, UInt8.ofNat (value.toNat / 256)]

/-- The four bytes of a 32-bit word. -/
def longBytes (value : UInt32) : List UInt8 :=
  [UInt8.ofNat value.toNat, UInt8.ofNat (value.toNat / 256),
    UInt8.ofNat (value.toNat / 65536), UInt8.ofNat (value.toNat / 16777216)]

/-- The word that two bytes spell. -/
def wordOf (b0 b1 : UInt8) : UInt16 := UInt16.ofNat (b0.toNat + 256 * b1.toNat)

/-- The 32-bit word that four bytes spell. -/
def longOf (b0 b1 b2 b3 : UInt8) : UInt32 :=
  UInt32.ofNat (b0.toNat + 256 * b1.toNat + 65536 * b2.toNat + 16777216 * b3.toNat)

/-- The 32-bit word of four bytes. -/
def longOfBytes (bytes : List UInt8) : UInt32 :=
  longOf (bytes.getD 0 0) (bytes.getD 1 0) (bytes.getD 2 0) (bytes.getD 3 0)

@[simp] theorem wordBytes_length (value : UInt16) :
    (wordBytes value).length = 2 := rfl

@[simp] theorem longBytes_length (value : UInt32) :
    (longBytes value).length = 4 := rfl

theorem flatMap_length {α : Type} {encode : α → List UInt8} {size : Nat}
    (sized : ∀ element, (encode element).length = size)
    (elements : List α) :
    (elements.flatMap encode).length = size * elements.length := by
  induction elements with
  | nil => rfl
  | cons head elements ih =>
    rw [List.flatMap_cons, List.length_append, sized, ih,
      List.length_cons, Nat.mul_succ, Nat.add_comm]

theorem wordOf_wordBytes (value : UInt16) :
    wordOf (UInt8.ofNat value.toNat) (UInt8.ofNat (value.toNat / 256)) =
      value := by
  apply UInt16.toNat_inj.mp
  have bound := value.toNat_lt
  simp only [wordOf, UInt16.toNat_ofNat', UInt8.toNat_ofNat']
  omega

theorem longOf_longBytes (value : UInt32) :
    longOf (UInt8.ofNat value.toNat) (UInt8.ofNat (value.toNat / 256))
        (UInt8.ofNat (value.toNat / 65536))
        (UInt8.ofNat (value.toNat / 16777216)) = value := by
  apply UInt32.toNat_inj.mp
  have bound := value.toNat_lt
  simp only [longOf, UInt32.toNat_ofNat', UInt8.toNat_ofNat']
  omega

/-- A 32-bit word read as a signed `int`. -/
def signedLong (value : UInt32) : Int :=
  if value.toNat < 2147483648 then value.toNat
  else (value.toNat : Int) - 4294967296

/-- A byte read as a signed `char`. -/
def signedByte (value : UInt8) : Int :=
  if value.toNat < 128 then value.toNat else (value.toNat : Int) - 256

/-- Addition of two `int` values. -/
def addInt (left right : Int) : Run Int :=
  if -2147483648 ≤ left + right ∧ left + right < 2147483648 then
    .ok (left + right)
  else .error .overflow

/-- A left shift of a 32-bit word. -/
def shiftLeft (value count : UInt32) : Run UInt32 :=
  if count.toNat < 32 then .ok (value <<< count) else .error .shiftTooWide

theorem signedLong_of_lt {value : UInt32} (small : value.toNat < 2147483648) :
    signedLong value = value.toNat := by
  simp [signedLong, small]

theorem addInt_eq_ok_iff {left right sum : Int} : addInt left right = .ok sum ↔
      sum = left + right ∧ -2147483648 ≤ sum ∧ sum < 2147483648 := by
  unfold addInt
  split
  · rename_i fits
    constructor
    · intro equal
      cases equal
      exact ⟨rfl, fits⟩
    · rintro ⟨rfl, _⟩
      rfl
  · rename_i tooWide
    constructor
    · intro equal
      cases equal
    · rintro ⟨rfl, fits⟩
      exact absurd fits tooWide

theorem toNat_ofInt (value : Int) :
    (UInt32.ofInt value).toNat = (value % 4294967296).toNat := by
  rw [UInt32.ofInt, UInt32.toNat_ofNat']
  omega

theorem ofNat_eq_zero_iff (count : Nat) :
    UInt32.ofNat count = 0 ↔ 4294967296 ∣ count := by
  rw [← UInt32.toNat_inj, UInt32.toNat_ofNat']
  exact Nat.dvd_iff_mod_eq_zero.symm

theorem signedByte_of_lt {value : UInt8} (small : value.toNat < 128) :
    signedByte value = value.toNat := by
  simp [signedByte, small]

/-!
## Words as sets of numbers

The bits of a word that are set.  A set grows by one number when its bit is
joined to the word.
-/

/-- The bit of a number is set. -/
def HasBit (word : UInt32) (i : Nat) : Prop := word.toNat.testBit i = true

/-- The word with the bit of one number. -/
def bitOf (i : UInt32) : UInt32 := 1 <<< i

variable {word : UInt32} {i : Nat}

theorem not_hasBit_zero : ¬ HasBit 0 i := by
  simp [HasBit]

theorem hasBit_or_iff {other : UInt32} :
    HasBit (word ||| other) i ↔ HasBit word i ∨ HasBit other i := by
  simp [HasBit, UInt32.toNat_or, Nat.testBit_or]

theorem hasBit_bitOf_iff {number : UInt32} (small : number.toNat < 32) :
    HasBit (bitOf number) i ↔ i = number.toNat := by
  have value : (bitOf number).toNat = 2 ^ number.toNat := by
    have fits : 2 ^ number.toNat < 2 ^ 32 := Nat.pow_lt_pow_right (by decide) small
    rw [bitOf, UInt32.toNat_shiftLeft, UInt32.toNat_one,
      Nat.mod_eq_of_lt small, Nat.one_shiftLeft, Nat.mod_eq_of_lt fits]
  rw [HasBit, value, Nat.testBit_two_pow, decide_eq_true_iff]
  exact eq_comm

theorem ne_ones_of_not_hasBit (small : i < 32) (missing : ¬ HasBit word i) :
    word ≠ 0xffffffff := by
  rintro rfl
  apply missing
  have ones : (0xffffffff : UInt32).toNat = 2 ^ 32 - 1 := rfl
  rw [HasBit, ones, Nat.testBit_two_pow_sub_one]
  exact decide_eq_true small

end OsFree.Machine
