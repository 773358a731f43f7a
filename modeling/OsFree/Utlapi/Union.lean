import OsFree.Utlapi.Subtract

/-!
# Bounding rectangles

`RectUnion` stores one edge after the other, also where the destination is a source.
Uniting rectangles one by one leaves the least one around all of them.
-/

namespace OsFree.Utlapi

open Machine

/-- The stores of `RectUnion`, each for what the three pointers lead to. -/
def outerEdges : List (RECTL → RECTL → RECTL → RECTL) :=
  [fun dst r s => { dst with xLeft := if r.xLeft < s.xLeft then r.xLeft else s.xLeft },
    fun dst r s => { dst with xRight := if r.xRight > s.xRight then r.xRight else s.xRight },
    fun dst r s => { dst with yBottom := if r.yBottom < s.yBottom then r.yBottom else s.yBottom },
    fun dst r s => { dst with yTop := if r.yTop > s.yTop then r.yTop else s.yTop }]

/-- `RectUnion`.  A second source that is the null pointer counts as empty. -/
def rectUnion (rectangles : Rectangles) : PRECTL → PRECTL → PRECTL → Run (Bool × Rectangles)
  | none, _, _ | _, none, _ => .ok (false, rectangles)
  | some dst, some src1, none => .ok (true, if rectIsEmpty (rectangles src1) then rectangles
      else Function.update rectangles dst (rectangles src1))
  | some dst, some src1, some src2 => .ok (true,
      if rectIsEmpty (rectangles src1) then Function.update rectangles dst (rectangles src2)
      else if rectIsEmpty (rectangles src2) then Function.update rectangles dst (rectangles src1)
      else outerEdges.foldl
        (fun r store => Function.update r dst (store (r dst) (r src1) (r src2))) rectangles)

/-- The rectangle around two ones. -/
def RECTL.around (r s : RECTL) : RECTL :=
  if rectIsEmpty r then s
  else if rectIsEmpty s then r
  else ⟨min r.xLeft s.xLeft, min r.yBottom s.yBottom, max r.xRight s.xRight, max r.yTop s.yTop⟩

/-- Rectangles are united with a destination one after the other. -/
def uniteAll (rectangles : Rectangles) (dst : Nat) (sources : List Nat) : Run Rectangles :=
  sources.foldlM (fun r src => Prod.snd <$> rectUnion r (some dst) (some dst) (some src)) rectangles

theorem around_subset_iff {r s u : RECTL} :
    (r.around s).inside ⊆ u.inside ↔ r.inside ⊆ u.inside ∧ s.inside ⊆ u.inside := by
  have none : ∀ {t : RECTL}, rectIsEmpty t = true → t.inside ⊆ u.inside :=
    fun empty p member => absurd (inside_nonempty_iff.mp ⟨p, member⟩)
      (rectIsEmpty_eq_true_iff.mp empty)
  unfold RECTL.around
  split_ifs with empty empty'
  · exact (and_iff_right (none empty)).symm
  · exact (and_iff_left (none empty')).symm
  · rw [rectIsEmpty_eq_true_iff, not_not] at empty empty'
    rw [inside_subset_iff empty, inside_subset_iff empty', inside_subset_iff]
    · simp only [CoversAcross, CoversUp, le_min_iff, max_le_iff]
      tauto
    · obtain ⟨wide, high⟩ := empty
      exact ⟨by dsimp only; omega, by dsimp only; omega⟩

/-- The edges are those of the sources as they were, also of one that is the destination. -/
theorem rectUnion_eq (rectangles : Rectangles) (dst src1 src2 : Nat) :
    rectUnion rectangles (some dst) (some src1) (some src2) =
      .ok (true, Function.update rectangles dst ((rectangles src1).around (rectangles src2))) := by
  simp only [rectUnion, RECTL.around]
  split_ifs
  · rfl
  · rfl
  · by_cases first : src1 = dst <;> by_cases second : src2 = dst <;>
      simp [outerEdges, first, second, Function.update_of_ne] <;> grind

/-- Uniting rectangles with a destination leaves there the least rectangle around them and
the one before, and changes no other one. -/
theorem uniteAll_bounds (rectangles : Rectangles) (dst : Nat) (sources : List Nat) :
    ∃ result, uniteAll rectangles dst sources = .ok result ∧
      (∀ u : RECTL, (result dst).inside ⊆ u.inside ↔
        ∀ src ∈ dst :: sources, (rectangles src).inside ⊆ u.inside) ∧
      ∀ other, other ≠ dst → result other = rectangles other := by
  induction sources generalizing rectangles with
  | nil => exact ⟨rectangles, rfl, by simp, fun _ _ => rfl⟩
  | cons src rest ih =>
    obtain ⟨result, united, bounds, others⟩ :=
      ih (Function.update rectangles dst ((rectangles dst).around (rectangles src)))
    refine ⟨result, ?_, fun u => ?_, fun other apart => ?_⟩
    · rw [uniteAll, List.foldlM_cons, rectUnion_eq]
      exact united
    · rw [bounds]
      simp only [List.forall_mem_cons, Function.update_self, around_subset_iff, and_assoc]
      refine and_congr_right fun here => and_congr_right fun next => forall₂_congr fun src' _ => ?_
      by_cases same : src' = dst
      · rw [same, Function.update_self, around_subset_iff]
        exact iff_of_true ⟨here, next⟩ here
      · rw [Function.update_of_ne same]
    · rw [others other apart, Function.update_of_ne apart]

end OsFree.Utlapi
