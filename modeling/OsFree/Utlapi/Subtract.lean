import OsFree.Utlapi.Rectangles

/-!
# Subtraction of rectangles

What is left of a rectangle without another one is a rectangle if the other one covers
three of its edges.  It is stored by cases on these edges, and the rectangle itself is
stored if there is no such case.
-/

namespace OsFree.Utlapi

open Machine

/-- What `RectSetEmpty` stores. -/
def emptyRect : RECTL := ⟨0, 0, 0, 0⟩

/-- The four cases of `RectSubtract`. -/
def remainder (prclDst prclSrc1 tmpRect : RECTL) : RECTL :=
  if tmpRect.yBottom = prclSrc1.yBottom ∧ tmpRect.xLeft = prclSrc1.xLeft ∧
      tmpRect.yTop = prclSrc1.yTop then
    ⟨tmpRect.xRight, tmpRect.yBottom, prclSrc1.xRight, tmpRect.yTop⟩
  else if tmpRect.xLeft = prclSrc1.xLeft ∧ tmpRect.yTop = prclSrc1.yTop ∧
      tmpRect.xRight = prclSrc1.xRight then
    ⟨tmpRect.xLeft, prclSrc1.yBottom, tmpRect.xRight, tmpRect.yBottom⟩
  else if tmpRect.yTop = prclSrc1.yTop ∧ tmpRect.xRight = prclSrc1.xRight ∧
      tmpRect.yBottom = prclSrc1.yBottom then
    ⟨prclSrc1.xLeft, tmpRect.yBottom, tmpRect.xLeft, tmpRect.yTop⟩
  else if tmpRect.xRight = prclSrc1.xRight ∧ tmpRect.yBottom = prclSrc1.yBottom ∧
      tmpRect.xLeft = prclSrc1.xLeft then
    ⟨tmpRect.xLeft, tmpRect.yBottom, tmpRect.xRight, prclSrc1.yTop⟩
  else prclDst

/-- `RectSubtract`, with the place of its `tmpRect` and what happens to be in the
`tmprect` of `RectIntersect`.  The destination is emptied before the sources are read. -/
def rectSubtract (tmprect : RECTL) (tmpRect : Nat) (rectangles : Rectangles) :
    PRECTL → PRECTL → PRECTL → Run (Bool × Rectangles)
  | none, _, _ | _, none, _ => .ok (false, rectangles)
  | some prclDst, some prclSrc1, prclSrc2 => do
      let emptied := Function.update rectangles prclDst emptyRect
      let (meets, found) ← rectIntersect tmprect emptied (some tmpRect) (some prclSrc1) prclSrc2
      let left :=
        if meets then
          Function.update found prclDst (remainder (found prclDst) (found prclSrc1) (found tmpRect))
        else found
      return (true,
        if rectIsEmpty (left prclDst) then
          Function.update left prclDst (left prclSrc1)
        else left)

/-- The points of a rectangle without those of its right and its top edge. -/
def RECTL.inside (r : RECTL) : Set (Int × Int) :=
  {p | (r.xLeft ≤ p.1 ∧ p.1 < r.xRight) ∧ r.yBottom ≤ p.2 ∧ p.2 < r.yTop}

/-- What is left of the first rectangle without the second one. -/
structure IsDifference (r s t : RECTL) : Prop where
  full : t.Full
  inside : t.inside = r.inside \ s.inside

/-- The third rectangle is what is left, or the first one if that is no rectangle.  With
the common part of the two it has the first one as the bounding rectangle. -/
structure Subtracted (r s t : RECTL) : Prop where
  left : IsDifference r s t ∨ (¬ ∃ t', IsDifference r s t') ∧ t = r
  bounds : ∀ u : RECTL, t.inside ∪ r.inside ∩ s.inside ⊆ u.inside ↔ r.inside ⊆ u.inside

/-- What is left is stored, and nothing else in the rectangles of the caller. -/
def Subtracts (rectangles : Rectangles) (dst src1 src2 : Nat) : Prop :=
  ∀ tmprect tmpRect, tmpRect ≠ dst → tmpRect ≠ src1 → tmpRect ≠ src2 →
    ∃ result, rectSubtract tmprect tmpRect rectangles (some dst) (some src1) (some src2) =
        .ok (true, result) ∧
      Subtracted (rectangles src1) (rectangles src2) (result dst) ∧
      ∀ other, other ≠ dst → other ≠ tmpRect → result other = rectangles other

section

variable (r s : RECTL)

/-- The left and the right edge, as far as the other two allow. -/
def CoversAcross : Prop := s.xLeft ≤ r.xLeft ∧ r.xRight ≤ s.xRight

/-- The bottom and the top edge. -/
def CoversUp : Prop := s.yBottom ≤ r.yBottom ∧ r.yTop ≤ s.yTop

/-- The second rectangle covers three edges of the first one. -/
def CoversThree : Prop := CoversUp r s ∧ (s.xLeft ≤ r.xLeft ∨ r.xRight ≤ s.xRight) ∨
    CoversAcross r s ∧ (s.yBottom ≤ r.yBottom ∨ r.yTop ≤ s.yTop)

/-- The three edges are not found, or the wrong edge is stored. -/
def Misses : Prop := CoversAcross r s ∧ s.yBottom ≤ r.yBottom ∨
    CoversUp r s ∧ s.yBottom < r.yBottom ∧ (s.xLeft = r.xLeft ∨ s.xRight = r.xRight) ∨
    CoversAcross r s ∧ s.xLeft < r.xLeft ∧ r.yTop < s.yTop

instance : Decidable (CoversAcross r s) := inferInstanceAs (Decidable (_ ∧ _))

instance : Decidable (CoversUp r s) := inferInstanceAs (Decidable (_ ∧ _))

instance : Decidable (CoversThree r s) := inferInstanceAs (Decidable (_ ∨ _))

instance : Decidable (Misses r s) := inferInstanceAs (Decidable (_ ∨ _))

/-- What is left, if three edges are covered. -/
def RECTL.without : RECTL :=
  if rectIsEmpty (r.common s) then r
  else if CoversUp r s ∧ s.xLeft ≤ r.xLeft then { r with xLeft := s.xRight }
  else if CoversUp r s ∧ r.xRight ≤ s.xRight then { r with xRight := s.xLeft }
  else if CoversAcross r s ∧ s.yBottom ≤ r.yBottom then { r with yBottom := s.yTop }
  else if CoversAcross r s ∧ r.yTop ≤ s.yTop then { r with yTop := s.yBottom }
  else r

end

section

variable {r s t : RECTL}

theorem inside_common : (r.common s).inside = r.inside ∩ s.inside := by
  ext p
  simp only [RECTL.inside, RECTL.common, Set.mem_ofPred_eq, Set.mem_inter_iff]
  omega

theorem RECTL.full_iff : r.Full ↔ r.xLeft < r.xRight ∧ r.yBottom < r.yTop :=
  ⟨fun full => ⟨full.wide, full.high⟩, fun ⟨wide, high⟩ => ⟨wide, high⟩⟩

theorem inside_nonempty_iff : r.inside.Nonempty ↔ r.Full := by
  constructor
  · rintro ⟨p, across, up⟩
    exact ⟨by omega, by omega⟩
  · rintro ⟨wide, high⟩
    exact ⟨(r.xLeft, r.yBottom), ⟨Int.le_refl _, wide⟩, Int.le_refl _, high⟩

theorem rectIsEmpty_eq_true_iff : rectIsEmpty r = true ↔ ¬ r.Full := by
  rw [← rectIsEmpty_eq_false_iff, Bool.not_eq_false]

theorem inside_subset_iff (full : r.Full) :
    r.inside ⊆ s.inside ↔ CoversAcross r s ∧ CoversUp r s := by
  obtain ⟨wide, high⟩ := full
  constructor
  · intro covered
    have low := @covered (r.xLeft, r.yBottom) ⟨⟨Int.le_refl _, wide⟩, Int.le_refl _, high⟩
    have up := @covered (r.xRight - 1, r.yTop - 1)
      ⟨⟨Int.le_sub_one_of_lt wide, by omega⟩, Int.le_sub_one_of_lt high, by omega⟩
    simp only [RECTL.inside, Set.mem_ofPred_eq] at low up
    exact ⟨⟨by omega, by omega⟩, by omega, by omega⟩
  · rintro ⟨⟨left, right⟩, bottom, top⟩ p ⟨across, up⟩
    exact ⟨by omega, by omega⟩

theorem inside_injective (full : r.Full) (full' : s.Full) (same : r.inside = s.inside) :
    r = s := by
  have below := (inside_subset_iff full).mp same.subset
  have above := (inside_subset_iff full').mp same.superset
  cases r
  cases s
  simp only [CoversAcross, CoversUp, RECTL.mk.injEq] at below above ⊢
  omega

theorem mem_inside_of_between {p q m : Int × Int} (p_mem : p ∈ t.inside) (q_mem : q ∈ t.inside)
    (across : min p.1 q.1 ≤ m.1 ∧ m.1 ≤ max p.1 q.1)
    (up : min p.2 q.2 ≤ m.2 ∧ m.2 ≤ max p.2 q.2) : m ∈ t.inside := by
  obtain ⟨p_across, p_up⟩ := p_mem
  obtain ⟨q_across, q_up⟩ := q_mem
  exact ⟨by omega, by omega⟩

theorem coversThree_of_isDifference (full : r.Full) (meets : (r.common s).Full)
    (left : IsDifference r s t) : CoversThree r s := by
  obtain ⟨wide, high⟩ := full
  obtain ⟨m, m_mem⟩ := inside_nonempty_iff.mpr meets
  rw [inside_common] at m_mem
  obtain ⟨⟨m_across, m_up⟩, m_mem⟩ := m_mem
  have opposite : ∀ y y', (y = r.yBottom ∧ y' = r.yTop - 1 ∨ y = r.yTop - 1 ∧ y' = r.yBottom) →
      (r.xLeft, y) ∈ s.inside ∨ (r.xRight - 1, y') ∈ s.inside := by
    intro y y' corners
    by_contra outside
    obtain ⟨outside, outside'⟩ := not_or.mp outside
    have first : (r.xLeft, y) ∈ t.inside :=
      left.inside ▸ ⟨⟨⟨Int.le_refl _, wide⟩, by dsimp only; omega⟩, outside⟩
    have second : (r.xRight - 1, y') ∈ t.inside :=
      left.inside ▸ ⟨⟨⟨by dsimp only; omega, by dsimp only; omega⟩, by dsimp only; omega⟩, outside'⟩
    have between : m ∈ t.inside :=
      mem_inside_of_between first second (by dsimp only; omega) (by dsimp only; omega)
    rw [left.inside] at between
    exact between.2 m_mem
  have rising := opposite _ _ (.inl ⟨rfl, rfl⟩)
  have falling := opposite _ _ (.inr ⟨rfl, rfl⟩)
  simp only [RECTL.inside, Set.mem_ofPred_eq] at rising falling
  unfold CoversThree CoversAcross CoversUp
  omega

theorem isDifference_without (full : r.Full) (uncovered : ¬ r.inside ⊆ s.inside)
    (three : (r.common s).Full → CoversThree r s) : IsDifference r s (r.without s) := by
  rw [inside_subset_iff full] at uncovered
  unfold RECTL.without
  split_ifs
  all_goals
    simp only [rectIsEmpty_eq_true_iff, RECTL.full_iff, RECTL.common, CoversThree,
      CoversAcross, CoversUp] at *
    refine ⟨⟨?_, ?_⟩, Set.ext fun p => ?_⟩
  any_goals simp only [RECTL.inside, Set.mem_ofPred_eq, Set.mem_sdiff]
  all_goals omega

theorem without_eq_self (none : ¬ ((r.common s).Full ∧ CoversThree r s)) :
    r.without s = r := by
  unfold RECTL.without
  split_ifs with empty
  · rfl
  all_goals
    simp only [rectIsEmpty_eq_true_iff, not_not] at empty
    have fewer := not_and.mp none empty
    unfold CoversThree at fewer
    grind

theorem subtracted_iff (full : r.Full) (uncovered : ¬ r.inside ⊆ s.inside) :
    Subtracted r s t ↔ t = r.without s := by
  have difference := isDifference_without full uncovered
  constructor
  · rintro ⟨left | ⟨none, rfl⟩, -⟩
    · have left' := difference fun meets => coversThree_of_isDifference full meets left
      exact inside_injective left.full left'.full (left.inside.trans left'.inside.symm)
    · by_contra other
      refine none ⟨_, difference fun meets => ?_⟩
      by_contra fewer
      exact other (without_eq_self fun both => fewer both.2).symm
  · rintro rfl
    have left : IsDifference r s (r.without s) ∨
        (¬ ∃ t', IsDifference r s t') ∧ r.without s = r := by
      by_cases three : (r.common s).Full → CoversThree r s
      · exact .inl (difference three)
      · obtain ⟨meets, fewer⟩ := Classical.not_imp.mp three
        exact .inr ⟨fun ⟨_, left⟩ => fewer (coversThree_of_isDifference full meets left),
          without_eq_self fun both => fewer both.2⟩
    refine ⟨left, fun u => ?_⟩
    have whole : (r.without s).inside ∪ r.inside ∩ s.inside = r.inside := by
      rcases left with left | ⟨-, same⟩
      · rw [left.inside, Set.sdiff_union_inter]
      · rw [same, Set.union_eq_left.mpr Set.inter_subset_left]
    rw [whole]

/-- What is found in place of the common rectangle. -/
def found (r s : RECTL) : RECTL where
  xLeft := if s.xLeft < r.xLeft ∧ r.xRight ≤ s.xRight ∧
      (s.yBottom < r.yBottom ∨ r.yTop < s.yTop) then s.xLeft else max r.xLeft s.xLeft
  yBottom := if r.xLeft ≤ s.xLeft ∧ s.xRight ≤ r.xRight ∧ s.yBottom < r.yBottom ∧
      r.yTop ≤ s.yTop then s.yBottom else max r.yBottom s.yBottom
  xRight := min r.xRight s.xRight
  yTop := min r.yTop s.yTop

theorem intRectIntersectRectX_stores (dst : RECTL) (full : r.Full) (full' : s.Full)
    (meet : (r.region ∩ s.region).Nonempty) :
    (intRectIntersectRectX dst r s).2 = found r s := by
  rw [RECTL.meet_iff] at meet
  rw [intRectIntersectRectX]
  simp only [intRectIntersectRectY_eq _ _ full full', RECTL.common, found] at meet ⊢
  obtain ⟨wide, high⟩ := full
  grind

/-- The destination, if it is not one of the sources. -/
def stored (r s : RECTL) : RECTL :=
  let left := if (r.common s).xLeft ≤ (r.common s).xRight ∧
      (r.common s).yBottom ≤ (r.common s).yTop then
    remainder emptyRect r (found r s) else emptyRect
  if rectIsEmpty left then r else left

theorem stored_eq_iff : stored r s = r.without s ↔
      ((r.common s).Full → CoversThree r s → ¬ Misses r s) := by
  obtain ⟨left, bottom, right, top⟩ := r
  obtain ⟨left', bottom', right', top'⟩ := s
  simp only [stored, remainder, emptyRect, found, RECTL.without, RECTL.common, rectIsEmpty_eq_true_iff,
    RECTL.full_iff, CoversThree, CoversAcross, CoversUp, Misses] at *
  rcases max_cases left left' with ⟨inner, at_left⟩ | ⟨inner, at_left⟩ <;>
    rcases min_cases right right' with ⟨inner', at_right⟩ | ⟨inner', at_right⟩ <;>
    rcases max_cases bottom bottom' with ⟨inner, at_bottom⟩ | ⟨inner, at_bottom⟩ <;>
    rcases min_cases top top' with ⟨inner', at_top⟩ | ⟨inner', at_top⟩ <;>
    simp only [inner, inner'] <;>
    grind

theorem without_eq_self_iff (full : r.Full) (uncovered : ¬ r.inside ⊆ s.inside) :
    r.without s = r ↔ ((r.common s).Full → ¬ CoversThree r s) := by
  constructor
  · intro same meets three
    have left := isDifference_without full uncovered fun _ => three
    rw [same] at left
    obtain ⟨p, both⟩ := inside_nonempty_iff.mpr meets
    rw [inside_common] at both
    exact (left.inside ▸ both.1).2 both.2
  · intro fewer
    exact without_eq_self fun both => fewer both.1 both.2

theorem remainder_of_empty : rectIsEmpty (remainder emptyRect emptyRect t) = true := by
  unfold remainder emptyRect
  split_ifs <;> simp_all [rectIsEmpty]

/-- The result of `RectIntersect`, and what it leaves in `tmprect`. -/
def intersection (tmprect r s : RECTL) : Bool × RECTL :=
  let once := intRectIntersectRectX tmprect r s
  if once.1 then once else intRectIntersectRectX once.2 s r

theorem rectIntersect_stores (tmprect : RECTL) (rectangles : Rectangles) (dst src1 src2 : Nat) :
    rectIntersect tmprect rectangles (some dst) (some src1) (some src2) =
      let i := intersection tmprect (rectangles src1) (rectangles src2)
      .ok (i.1, if i.1 then Function.update rectangles dst i.2 else rectangles) := by
  simp only [rectIntersect, intersection]
  split_ifs <;> simp_all

/-- The rectangle and its edges hold the point at zero. -/
def HoldsZero (r : RECTL) : Prop := (r.xLeft ≤ 0 ∧ 0 ≤ r.xRight) ∧ r.yBottom ≤ 0 ∧ 0 ≤ r.yTop

theorem intRectIntersectRectX_emptyRect (dst : RECTL) (full : r.Full) :
    (HoldsZero r → intRectIntersectRectX dst r emptyRect = (true, emptyRect)) ∧
      (¬ HoldsZero r → (intRectIntersectRectX dst r emptyRect).1 = false) := by
  obtain ⟨wide, high⟩ := full
  unfold HoldsZero intRectIntersectRectX intRectIntersectRectY emptyRect
  grind

theorem emptyRect_intRectIntersectRectX (dst : RECTL) (full : r.Full) (other : ¬ HoldsZero r) :
    (intRectIntersectRectX dst emptyRect r).1 = false := by
  obtain ⟨wide, high⟩ := full
  unfold HoldsZero at other
  unfold intRectIntersectRectX intRectIntersectRectY emptyRect
  grind

theorem left_emptyRect (tmprect : RECTL) (full : r.Full) :
    (if (intersection tmprect r emptyRect).1 then
      remainder emptyRect r (intersection tmprect r emptyRect).2 else emptyRect) = emptyRect := by
  by_cases holds : HoldsZero r
  · rw [intersection, (intRectIntersectRectX_emptyRect tmprect full).1 holds]
    obtain ⟨wide, high⟩ := full
    simp only [if_true, remainder]
    unfold emptyRect
    grind
  · have first := (intRectIntersectRectX_emptyRect tmprect full).2 holds
    simp only [intersection, first, Bool.false_eq_true, if_false,
      emptyRect_intRectIntersectRectX _ full holds]

theorem intersection_eq (tmprect : RECTL) (full : r.Full) (full' : s.Full) :
    (if (intersection tmprect r s).1 then remainder emptyRect r (intersection tmprect r s).2
      else emptyRect) =
      if (r.common s).xLeft ≤ (r.common s).xRight ∧
        (r.common s).yBottom ≤ (r.common s).yTop then remainder emptyRect r (found r s)
      else emptyRect := by
  have once := intRectIntersectRectX_found tmprect full full'
  have again := intRectIntersectRectX_found (intRectIntersectRectX tmprect r s).2 full' full
  rw [Set.inter_comm, ← once] at again
  rw [RECTL.meet_iff] at once
  by_cases meet : (intRectIntersectRectX tmprect r s).1 = true
  · have stores := intRectIntersectRectX_stores tmprect full full'
      (RECTL.meet_iff.mpr (once.mp meet))
    rw [if_pos (once.mp meet), intersection, if_pos meet, if_pos meet, stores]
  · rw [if_neg (mt once.mpr meet), intersection, if_neg meet, if_neg (mt again.mp meet)]

variable {rectangles : Rectangles} {dst src1 src2 : Nat}

/-- What the four cases leave of the sources as they are when the destination has been
emptied. -/
def leftOver (tmprect : RECTL) (rectangles : Rectangles) (dst src1 src2 : Nat) : RECTL :=
  let emptied := Function.update rectangles dst emptyRect
  let i := intersection tmprect (emptied src1) (emptied src2)
  if i.1 then remainder emptyRect (emptied src1) i.2 else emptyRect

/-- What is stored at last. -/
def destination (tmprect : RECTL) (rectangles : Rectangles) (dst src1 src2 : Nat) : RECTL :=
  let left := leftOver tmprect rectangles dst src1 src2
  if rectIsEmpty left then if src1 = dst then left else rectangles src1 else left

instance : Nonempty RECTL := ⟨emptyRect⟩

theorem rectSubtract_eq (tmprect : RECTL) {tmpRect : Nat} (apart : tmpRect ≠ dst)
    (apart1 : tmpRect ≠ src1) :
    ∃ result, rectSubtract tmprect tmpRect rectangles (some dst) (some src1) (some src2) =
        .ok (true, result) ∧
      result dst = destination tmprect rectangles dst src1 src2 ∧
      ∀ other, other ≠ dst → other ≠ tmpRect → result other = rectangles other := by
  let emptied := Function.update rectangles dst emptyRect
  let i := intersection tmprect (emptied src1) (emptied src2)
  let left := leftOver tmprect rectangles dst src1 src2
  let found := if i.1 then Function.update emptied tmpRect i.2 else emptied
  let kept := if i.1 then
    Function.update found dst (remainder (found dst) (found src1) (found tmpRect)) else found
  have run : rectSubtract tmprect tmpRect rectangles (some dst) (some src1) (some src2) =
      .ok (true, if rectIsEmpty (kept dst) then Function.update kept dst (kept src1)
        else kept) := by
    simp only [rectSubtract, rectIntersect_stores, bind_ok, pure_eq_ok]
    rfl
  have here : kept dst = left := by
    by_cases meets : i.1 = true
    · simp [kept, found, left, leftOver, i, meets, emptied, apart.symm, apart1.symm]
    · simp [kept, found, left, leftOver, i, meets, emptied]
  have others : ∀ other, other ≠ dst → other ≠ tmpRect → kept other = rectangles other := by
    intro other ne_dst ne_tmpRect
    by_cases meets : i.1 = true
    · simp [kept, found, meets, emptied, ne_dst, ne_tmpRect]
    · simp [kept, found, meets, emptied, ne_dst]
  refine ⟨_, run, ?_, ?_⟩
  · simp only [destination, here]
    split_ifs with empty same
    · rw [Function.update_self, same, here]
      subst same
      rfl
    · rw [Function.update_self, others _ same apart1.symm]
    · exact here
  · intro other ne_dst ne_tmpRect
    rw [← others other ne_dst ne_tmpRect]
    split_ifs
    · exact Function.update_of_ne ne_dst _ _
    · rfl

theorem full_without (full : r.Full) (uncovered : ¬ r.inside ⊆ s.inside) :
    (r.without s).Full := by
  rcases ((subtracted_iff full uncovered).mpr rfl).left with left | ⟨-, same⟩
  · exact left.full
  · rwa [same]

theorem subtracts_iff_destination (full : (rectangles src1).Full)
    (uncovered : ¬ (rectangles src1).inside ⊆ (rectangles src2).inside) :
    Subtracts rectangles dst src1 src2 ↔ ∀ tmprect, destination tmprect rectangles dst src1 src2 =
        (rectangles src1).without (rectangles src2) := by
  simp only [Subtracts, subtracted_iff full uncovered]
  constructor
  · intro subtracts tmprect
    let tmpRect := dst + src1 + src2 + 1
    obtain ⟨result, run, right, -⟩ := subtracts tmprect tmpRect (by omega) (by omega) (by omega)
    obtain ⟨result', run', here, -⟩ := @rectSubtract_eq rectangles dst src1 src2 tmprect tmpRect
      (by omega) (by omega)
    cases run.symm.trans run'
    exact here.symm.trans right
  · intro right tmprect tmpRect apart apart1 _
    obtain ⟨result, run, here, others⟩ :=
      @rectSubtract_eq rectangles dst src1 src2 tmprect tmpRect apart apart1
    exact ⟨result, run, here.trans (right tmprect), others⟩

/-- The destination may not be the first source.  If three edges are covered, it may not be
the second one either, and they must not be missed. -/
theorem subtracts_iff (full : (rectangles src1).Full) (full' : (rectangles src2).Full)
    (uncovered : ¬ (rectangles src1).inside ⊆ (rectangles src2).inside) :
    Subtracts rectangles dst src1 src2 ↔ dst ≠ src1 ∧
      (((rectangles src1).inside ∩ (rectangles src2).inside).Nonempty →
        CoversThree (rectangles src1) (rectangles src2) →
          dst ≠ src2 ∧ ¬ Misses (rectangles src1) (rectangles src2)) := by
  have other : src2 ≠ src1 := by
    rintro rfl
    exact uncovered subset_rfl
  rw [subtracts_iff_destination full uncovered, ← inside_common, inside_nonempty_iff]
  by_cases first : dst = src1
  · subst first
    refine iff_of_false (fun right => ?_) fun right => right.1 rfl
    have empty : rectIsEmpty (leftOver emptyRect rectangles dst dst src2) = true := by
      simp only [leftOver, Function.update_self]
      split_ifs
      · exact remainder_of_empty
      · rfl
    have same := right emptyRect
    simp only [destination, empty, if_true] at same
    rw [same, rectIsEmpty_eq_true_iff] at empty
    exact empty (full_without full uncovered)
  by_cases second : dst = src2
  · subst second
    have unchanged : ∀ tmprect,
        destination tmprect rectangles dst src1 dst = rectangles src1 := by
      intro tmprect
      have none : leftOver tmprect rectangles dst src1 dst = emptyRect := by
        simp only [leftOver, Function.update_self, Function.update_of_ne other.symm]
        exact left_emptyRect tmprect full
      rw [destination, none, if_neg other.symm]
      rfl
    simp only [unchanged, forall_const, ne_eq, other, not_false_eq_true, not_true, true_and,
      false_and]
    exact eq_comm.trans (without_eq_self_iff full uncovered)
  · have stores : ∀ tmprect, destination tmprect rectangles dst src1 src2 =
        stored (rectangles src1) (rectangles src2) := by
      intro tmprect
      simp only [destination, leftOver, Function.update_of_ne (Ne.symm first),
        Function.update_of_ne (Ne.symm second), intersection_eq tmprect full full',
        if_neg (Ne.symm first), stored]
    simp only [stores, forall_const, ne_eq, first, second, not_false_eq_true, true_and]
    exact stored_eq_iff

end

/-- A square and its left half. -/
def leftHalf : Rectangles
  | 1 => ⟨0, 0, 4, 4⟩
  | _ => ⟨0, 0, 2, 4⟩

/-- The right half is left. -/
theorem subtracts_leftHalf : Subtracts leftHalf 0 1 2 :=
  (subtracts_iff ⟨by decide, by decide⟩ ⟨by decide, by decide⟩
    (mt (inside_subset_iff ⟨by decide, by decide⟩).mp (by decide))).mpr
      ⟨by decide, fun _ _ => by decide⟩

/-- A square and its lower half. -/
def lowerHalf : Rectangles
  | 1 => ⟨0, 0, 4, 4⟩
  | _ => ⟨0, 0, 4, 2⟩

/-- The whole square is left. -/
theorem not_subtracts_lowerHalf : ¬ Subtracts lowerHalf 0 1 2 := by
  intro subtracts
  have stores := (subtracts_iff_destination ⟨by decide, by decide⟩
    (mt (inside_subset_iff ⟨by decide, by decide⟩).mp (by decide))).mp subtracts emptyRect
  exact absurd stores (by decide)

end OsFree.Utlapi
