import Mathlib.Data.Set.Basic
import OsFree.Machine.Run

/-!
# Intersection of rectangles

The common rectangle is found by cases on how the first one lies to the second one, and
on the second one to the first one if there is no such case.
-/

namespace OsFree.Utlapi

open Machine

structure RECTL where
  xLeft : Int
  yBottom : Int
  xRight : Int
  yTop : Int
  deriving DecidableEq

/-- A pointer to a rectangle, or the null pointer. -/
abbrev PRECTL : Type := Option Nat

/-- The rectangles that pointers lead to. -/
abbrev Rectangles : Type := Nat → RECTL

def rectIsEmpty (prcl : RECTL) : Bool := prcl.xLeft = prcl.xRight ∨ prcl.xRight < prcl.xLeft ∨
    prcl.yTop = prcl.yBottom ∨ prcl.yTop < prcl.yBottom

/-- `intRectIntersectRectY`, with the destination that it leaves. -/
def intRectIntersectRectY (prclDst prclSrc1 prclSrc2 : RECTL) (all : Bool) :
    Bool × RECTL :=
  if prclSrc1.yTop ≥ prclSrc2.yTop ∧ prclSrc1.yBottom ≤ prclSrc2.yBottom then
    (true, { prclDst with yTop := prclSrc2.yTop, yBottom := prclSrc2.yBottom })
  else if prclSrc1.yTop ≤ prclSrc2.yTop ∧ prclSrc1.yBottom ≥ prclSrc2.yBottom ∧ all = true then
    (true, { prclDst with yTop := prclSrc1.yTop, yBottom := prclSrc1.yBottom })
  else if prclSrc1.yTop ≥ prclSrc2.yBottom ∧ prclSrc1.yTop ≤ prclSrc2.yTop then
    (true, { prclDst with yTop := prclSrc1.yTop, yBottom := prclSrc2.yBottom })
  else if prclSrc1.yBottom ≥ prclSrc2.yBottom ∧ prclSrc1.yBottom ≤ prclSrc2.yTop then
    (true, { prclDst with yTop := prclSrc2.yTop, yBottom := prclSrc1.yBottom })
  else (false, prclDst)

/-- `intRectIntersectRectX`, with the destination that it leaves. -/
def intRectIntersectRectX (prclDst prclSrc1 prclSrc2 : RECTL) : Bool × RECTL :=
  if prclSrc1.xLeft ≥ prclSrc2.xLeft ∧ prclSrc1.xRight ≤ prclSrc2.xRight ∧
      prclSrc1.yTop ≥ prclSrc2.yTop ∧ prclSrc1.yBottom ≤ prclSrc2.yBottom then
    (true, ⟨prclSrc1.xLeft, prclSrc2.yBottom, prclSrc1.xRight, prclSrc2.yTop⟩)
  else if prclSrc1.xLeft ≤ prclSrc2.xLeft ∧ prclSrc1.xRight ≥ prclSrc2.xRight then
    intRectIntersectRectY
      { prclDst with xLeft := prclSrc2.xLeft, xRight := prclSrc2.xRight }
      prclSrc1 prclSrc2 false
  else if prclSrc1.xRight ≥ prclSrc2.xLeft ∧ prclSrc1.xRight ≤ prclSrc2.xRight then
    intRectIntersectRectY
      { prclDst with xLeft := prclSrc2.xLeft, xRight := prclSrc1.xRight }
      prclSrc1 prclSrc2 true
  else if prclSrc1.xLeft ≥ prclSrc2.xLeft ∧ prclSrc1.xLeft ≤ prclSrc2.xRight then
    intRectIntersectRectY
      { prclDst with xLeft := prclSrc1.xLeft, xRight := prclSrc2.xRight }
      prclSrc1 prclSrc2 true
  else (false, prclDst)

/-- `RectIntersect`, with what happens to be in `tmprect`.  The second source is not
compared with the null pointer. -/
def rectIntersect (tmprect : RECTL) (rectangles : Rectangles) :
    PRECTL → PRECTL → PRECTL → Run (Bool × Rectangles)
  | none, _, _ | _, none, _ => .ok (false, rectangles)
  | _, _, none => .error .readOutside
  | some prclDst, some prclSrc1, some prclSrc2 =>
    let once := intRectIntersectRectX tmprect (rectangles prclSrc1) (rectangles prclSrc2)
    if once.1 then .ok (true, Function.update rectangles prclDst once.2)
    else
      let again := intRectIntersectRectX once.2 (rectangles prclSrc2) (rectangles prclSrc1)
      if again.1 then .ok (true, Function.update rectangles prclDst again.2)
      else .ok (false, rectangles)

/-- The points of a rectangle, its edges included. -/
def RECTL.region (r : RECTL) : Set (Int × Int) :=
  {p | (r.xLeft ≤ p.1 ∧ p.1 ≤ r.xRight) ∧ r.yBottom ≤ p.2 ∧ p.2 ≤ r.yTop}

/-- The rectangle between the inner edges of two ones. -/
def RECTL.common (r s : RECTL) : RECTL where
  xLeft := max r.xLeft s.xLeft
  yBottom := max r.yBottom s.yBottom
  xRight := min r.xRight s.xRight
  yTop := min r.yTop s.yTop

namespace RECTL

variable {r s : RECTL}

theorem region_common (r s : RECTL) : (r.common s).region = r.region ∩ s.region := by
  ext p
  simp only [region, common, Set.mem_ofPred_eq, Set.mem_inter_iff]
  omega

theorem common_comm (r s : RECTL) : r.common s = s.common r := by
  simp only [common, max_comm r.xLeft, max_comm r.yBottom, min_comm r.xRight, min_comm r.yTop]

theorem region_nonempty_iff :
    r.region.Nonempty ↔ r.xLeft ≤ r.xRight ∧ r.yBottom ≤ r.yTop := by
  constructor
  · rintro ⟨p, across, up⟩
    exact ⟨across.1.trans across.2, up.1.trans up.2⟩
  · rintro ⟨across, up⟩
    exact ⟨(r.xLeft, r.yBottom), ⟨Int.le_refl _, across⟩, Int.le_refl _, up⟩

theorem meet_iff : (r.region ∩ s.region).Nonempty ↔ (r.common s).xLeft ≤ (r.common s).xRight ∧
      (r.common s).yBottom ≤ (r.common s).yTop := by
  rw [← region_common, region_nonempty_iff]

end RECTL

/-- The first rectangle gets an edge of the second one where its own edge is the inner
one. -/
def Slips (r s : RECTL) : Prop :=
  (r.xLeft ≤ s.xLeft ∧ s.xRight ≤ r.xRight ∧ s.yBottom < r.yBottom ∧ r.yTop ≤ s.yTop) ∨
    (s.xLeft < r.xLeft ∧ r.xRight ≤ s.xRight ∧ (s.yBottom < r.yBottom ∨ r.yTop < s.yTop))

instance (r s : RECTL) : Decidable (Slips r s) := inferInstanceAs (Decidable (_ ∨ _))

/-- The rectangle is not empty. -/
structure RECTL.Full (r : RECTL) : Prop where
  wide : r.xLeft < r.xRight
  high : r.yBottom < r.yTop

section

variable {r s : RECTL}

theorem rectIsEmpty_eq_false_iff : rectIsEmpty r = false ↔ r.Full := by
  simp only [rectIsEmpty, decide_eq_false_iff_not]
  constructor
  · intro given
    exact ⟨by omega, by omega⟩
  · rintro ⟨wide, high⟩
    omega

theorem intRectIntersectRectY_eq (dst : RECTL) (all : Bool) (full : r.Full) (full' : s.Full) :
    intRectIntersectRectY dst r s all =
      if max r.yBottom s.yBottom ≤ min r.yTop s.yTop then
        (true, { dst with
            yTop := min r.yTop s.yTop
            yBottom :=
              if all = false ∧ s.yBottom < r.yBottom ∧ r.yTop ≤ s.yTop then s.yBottom
              else max r.yBottom s.yBottom })
      else (false, dst) := by
  obtain ⟨-, high⟩ := full
  obtain ⟨-, high'⟩ := full'
  unfold intRectIntersectRectY
  rcases max_cases r.yBottom s.yBottom with ⟨bottom, lower⟩ | ⟨bottom, lower⟩ <;>
    rcases min_cases r.yTop s.yTop with ⟨top, upper⟩ | ⟨top, upper⟩ <;>
    rw [bottom, top] <;> grind

theorem intRectIntersectRectX_found (dst : RECTL) (full : r.Full) (full' : s.Full) :
    (intRectIntersectRectX dst r s).1 = true ↔ (r.region ∩ s.region).Nonempty := by
  rw [RECTL.meet_iff, intRectIntersectRectX]
  simp only [intRectIntersectRectY_eq _ _ full full', RECTL.common]
  obtain ⟨wide, high⟩ := full
  obtain ⟨wide', high'⟩ := full'
  grind

theorem intRectIntersectRectX_eq_iff (dst : RECTL) (full : r.Full) (full' : s.Full)
    (meet : (r.region ∩ s.region).Nonempty) :
    (intRectIntersectRectX dst r s).2 = r.common s ↔ ¬ Slips r s := by
  rw [RECTL.meet_iff] at meet
  rw [intRectIntersectRectX]
  simp only [intRectIntersectRectY_eq _ _ full full', RECTL.common, Slips] at meet ⊢
  grind

end

section

variable {rectangles : Rectangles} {dst src1 src2 : Nat}

/-- The common rectangle is stored if there is one, and nothing else. -/
def Intersected (rectangles : Rectangles) (dst src1 src2 : Nat)
    (result : Run (Bool × Rectangles)) : Prop :=
  ∃ found, result = .ok (found,
        if found then
          Function.update rectangles dst ((rectangles src1).common (rectangles src2))
        else rectangles) ∧
    (found = true ↔ ((rectangles src1).region ∩ (rectangles src2).region).Nonempty)

/-- The rectangles are intersected, whichever of them is given first. -/
structure Intersects (rectangles : Rectangles) (dst src1 src2 : Nat) : Prop where
  finds : ∀ tmprect, Intersected rectangles dst src1 src2
    (rectIntersect tmprect rectangles (some dst) (some src1) (some src2))
  swaps : ∀ tmprect, rectIntersect tmprect rectangles (some dst) (some src2) (some src1) =
      rectIntersect tmprect rectangles (some dst) (some src1) (some src2)

theorem rectIntersect_eq (tmprect : RECTL) (full : (rectangles src1).Full)
    (full' : (rectangles src2).Full) :
    rectIntersect tmprect rectangles (some dst) (some src1) (some src2) = .ok
        (let once := intRectIntersectRectX tmprect (rectangles src1) (rectangles src2)
        if once.1 then (true, Function.update rectangles dst once.2)
        else (false, rectangles)) := by
  have found := intRectIntersectRectX_found tmprect full full'
  have again := intRectIntersectRectX_found
    (intRectIntersectRectX tmprect (rectangles src1) (rectangles src2)).2 full' full
  rw [Set.inter_comm, ← found] at again
  simp only [rectIntersect]
  split
  · rfl
  · rename_i none
    rw [if_neg (mt again.mp none)]

theorem intersected_iff (tmprect : RECTL) (full : (rectangles src1).Full)
    (full' : (rectangles src2).Full) :
    Intersected rectangles dst src1 src2
        (rectIntersect tmprect rectangles (some dst) (some src1) (some src2)) ↔
      (((rectangles src1).region ∩ (rectangles src2).region).Nonempty →
        ¬ Slips (rectangles src1) (rectangles src2)) := by
  have found := intRectIntersectRectX_found tmprect full full'
  rw [rectIntersect_eq tmprect full full', ← found]
  constructor
  · rintro ⟨_, result, -⟩ meets
    rw [← intRectIntersectRectX_eq_iff tmprect full full' (found.mp meets)]
    simp only [if_pos meets] at result
    injection result with result
    obtain ⟨rfl, stored⟩ := Prod.mk.injEq .. ▸ result
    have same := congrFun stored dst
    rwa [if_pos rfl, Function.update_self, Function.update_self] at same
  · intro right
    refine ⟨(intRectIntersectRectX tmprect _ _).1, ?_, found⟩
    by_cases meets : (intRectIntersectRectX tmprect (rectangles src1) (rectangles src2)).1
    · have same := (intRectIntersectRectX_eq_iff tmprect full full' (found.mp meets)).mpr
        (right meets)
      simp only [meets, same, if_pos]
    · simp only [Bool.not_eq_true] at meets
      simp only [meets, Bool.false_eq_true, if_false]

/-- The intersection is right for both orders of the rectangles exactly if they do not
meet, or neither gets an edge from the wrong one. -/
theorem intersects_iff (full : (rectangles src1).Full) (full' : (rectangles src2).Full) :
    Intersects rectangles dst src1 src2 ↔
      (((rectangles src1).region ∩ (rectangles src2).region).Nonempty →
        ¬ Slips (rectangles src1) (rectangles src2) ∧
          ¬ Slips (rectangles src2) (rectangles src1)) := by
  constructor
  · rintro ⟨finds, swaps⟩ meets
    let tmprect := rectangles src1
    have first := (intersected_iff tmprect full full').mp (finds tmprect)
    have swapped : Intersected rectangles dst src2 src1
        (rectIntersect tmprect rectangles (some dst) (some src2) (some src1)) := by
      obtain ⟨found, result, iff⟩ := finds tmprect
      refine ⟨found, ?_, by rw [iff, Set.inter_comm]⟩
      rw [swaps, result, RECTL.common_comm]
    have second := (intersected_iff tmprect full' full).mp swapped
    rw [Set.inter_comm] at second
    exact ⟨first meets, second meets⟩
  · intro right
    have first := fun tmprect => (@intersected_iff _ dst _ _ tmprect full full').mpr
      fun meets => (right meets).1
    have second := fun tmprect => (@intersected_iff _ dst _ _ tmprect full' full).mpr
      fun meets => (right (Set.inter_comm .. ▸ meets)).2
    refine ⟨first, fun tmprect => ?_⟩
    obtain ⟨found, result, iff⟩ := first tmprect
    obtain ⟨found', result', iff'⟩ := second tmprect
    have same : found' = found := by
      rw [Bool.eq_iff_iff, iff, iff', Set.inter_comm]
    rw [result, result', same, RECTL.common_comm]

end

/-- A rectangle and one that is above it and to the right of it. -/
def overlapping : Rectangles
  | 1 => ⟨0, 0, 4, 4⟩
  | _ => ⟨2, 2, 6, 6⟩

/-- The result may be stored in the first of them. -/
theorem intersects_overlapping : Intersects overlapping 1 1 2 :=
  (intersects_iff ⟨by decide, by decide⟩ ⟨by decide, by decide⟩).mpr fun _ => ⟨by decide, by decide⟩

/-- A wide rectangle and a high one that cross each other. -/
def crossing : Rectangles
  | 1 => ⟨0, 4, 10, 6⟩
  | _ => ⟨4, 0, 6, 10⟩

/-- The common rectangle is as high as the high one. -/
theorem not_intersects_crossing : ¬ Intersects crossing 0 1 2 := by
  rintro ⟨finds, -⟩
  have full : (crossing 1).Full := ⟨by decide, by decide⟩
  have full' : (crossing 2).Full := ⟨by decide, by decide⟩
  have meets : ((crossing 1).region ∩ (crossing 2).region).Nonempty :=
    RECTL.meet_iff.mpr ⟨by decide, by decide⟩
  have right := (intersected_iff (crossing 0) full full').mp (finds (crossing 0)) meets
  exact right (by decide)

end OsFree.Utlapi
