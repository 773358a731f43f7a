import OsFree.Machine.Run

/-!
# Copying between segments

Offsets in a segment and counts of bytes are words of 16 bits, which wrap around.  A
copy whose count passes through a signed word therefore still copies as many bytes as
the bits of the word say.
-/

namespace OsFree.Machine
namespace SegmentCopy

/-- The bytes of a segment. -/
abbrev Segment := UInt16 → UInt8

/-- Store a byte in a segment. -/
def store (segment : Segment) (offset : UInt16) (byte : UInt8) : Segment :=
  fun other => if other = offset then byte else segment other

/-- Copy bytes upwards: `while (len != 0) { *to++ = *from++; len--; }`. -/
def copyUp (source : UInt16 → Run UInt8) (target origin len : UInt16)
    (segment : Segment) : Run Segment :=
  if len = 0 then pure segment
  else do
    let byte ← source origin
    copyUp source (target + 1) (origin + 1) (len - 1) (store segment target byte)
  termination_by len.toNat
  decreasing_by
    have nonzero : len.toNat ≠ 0 := fun zero => ‹¬ len = 0› (UInt16.toNat.inj zero)
    have bound := len.toNat_lt
    rw [UInt16.toNat_sub]
    change (2 ^ 16 - 1 + len.toNat) % 2 ^ 16 < len.toNat
    omega

/-- Copy bytes downwards: `while (len != 0) { *--to = *--from; len--; }`. -/
def copyDown (source : UInt16 → Run UInt8) (target origin len : UInt16)
    (segment : Segment) : Run Segment :=
  if len = 0 then pure segment
  else do
    let byte ← source (origin - 1)
    copyDown source (target - 1) (origin - 1) (len - 1) (store segment (target - 1) byte)
  termination_by len.toNat
  decreasing_by
    have nonzero : len.toNat ≠ 0 := fun zero => ‹¬ len = 0› (UInt16.toNat.inj zero)
    have bound := len.toNat_lt
    rw [UInt16.toNat_sub]
    change (2 ^ 16 - 1 + len.toNat) % 2 ^ 16 < len.toNat
    omega

/-- `memmove` between two segments.  Pointers are compared by their offsets. -/
def memmove (source : UInt16 → Run UInt8) (target origin len : UInt16)
    (segment : Segment) : Run Segment :=
  if origin < target ∧ target < origin + len then
    copyDown source (target + len) (origin + len) len segment
  else copyUp source target origin len segment

/-- The segment with a number of bytes stored from an offset on. -/
def stored (segment : Segment) (target len : UInt16) (bytes : UInt16 → UInt8) :
    Segment :=
  fun offset =>
    if offset - target < len then bytes (offset - target) else segment offset

variable {source : UInt16 → Run UInt8} {target origin len : UInt16} {segment : Segment}
  {bytes : UInt16 → UInt8}

@[simp] theorem stored_zero : stored segment target 0 bytes = segment := by
  funext offset
  exact if_neg (UInt16.not_lt_zero)

theorem stored_above (some : len ≠ 0) :
    stored (store segment target (bytes 0)) (target + 1) (len - 1) (fun i => bytes (i + 1)) =
      stored segment target len bytes := by
  funext offset
  unfold stored store
  by_cases here : offset = target
  · have first : ¬ offset - (target + 1) < len - 1 := by grind
    have zero : offset - target = 0 := by grind
    have inside : (0 : UInt16) < len := by grind
    rw [if_neg first, if_pos here, zero, if_pos inside]
  · have same : offset - (target + 1) < len - 1 ↔ offset - target < len := by grind
    have next : offset - (target + 1) + 1 = offset - target := by grind
    rw [if_congr same rfl rfl, if_neg here]
    dsimp only
    rw [next]

theorem stored_below (some : len ≠ 0) :
    stored (store segment (target + len - 1) (bytes (len - 1))) target (len - 1) bytes =
      stored segment target len bytes := by
  funext offset
  unfold stored store
  by_cases here : offset = target + len - 1
  · have last : ¬ offset - target < len - 1 := by grind
    have place : offset - target = len - 1 := by grind
    have inside : len - 1 < len := by grind
    rw [if_neg last, if_pos here, place, if_pos inside]
  · have other : offset - target ≠ len - 1 := fun place => here (by grind)
    have same : offset - target < len - 1 ↔ offset - target < len := by grind
    rw [if_congr same rfl rfl, if_neg here]

section

variable (given : ∀ i, i < len → source (origin + i) = .ok (bytes i))

include given

theorem copyUp_eq : copyUp source target origin len segment =
      .ok (stored segment target len bytes) := by
  fun_induction copyUp source target origin len segment generalizing bytes with
  | case1 target origin segment => rw [stored_zero]; rfl
  | case2 target origin len segment some ih =>
    have inside : (0 : UInt16) < len := by grind
    have first := given 0 inside
    rw [UInt16.add_zero] at first
    rw [first, bind_ok, ih, stored_above some]
    intro i less
    have next : i + 1 < len := by grind
    rw [← given (i + 1) next, UInt16.add_assoc, UInt16.add_comm 1 i]

theorem copyDown_eq : copyDown source (target + len) (origin + len) len segment =
      .ok (stored segment target len bytes) := by
  generalize atEnd : target + len = top
  generalize originEnd : origin + len = originTop
  fun_induction copyDown source top originTop len segment with
  | case1 top originTop segment => rw [stored_zero]; rfl
  | case2 top originTop len segment some ih =>
    subst atEnd originEnd
    have inside : len - 1 < len := by grind
    have last := given (len - 1) inside
    have place : origin + (len - 1) = origin + len - 1 := by grind
    rw [place] at last
    rw [last, bind_ok, ih _ (fun i less => given i (by grind))
      (by grind) (by grind), stored_below some]

theorem memmove_eq : memmove source target origin len segment =
      .ok (stored segment target len bytes) := by
  unfold memmove
  split
  · exact copyDown_eq given
  · exact copyUp_eq given

end

end SegmentCopy
end OsFree.Machine
