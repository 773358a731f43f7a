import Mathlib.Data.Fintype.Card
import Mathlib.Data.List.FinRange
import Mathlib.Logic.Function.Basic

/-!
# Tables with empty slots

A table of values, where one value stands for an empty slot.  If no other value
is in two slots, the slot of a value is found from the value.
-/

namespace OsFree.Machine

namespace Slots

variable {α : Type} {n : Nat} {nil : α} {table : Fin n → α}

/-- No value but that of empty slots is in two slots. -/
def Distinct (nil : α) (table : Fin n → α) : Prop :=
  ∀ i j, table i ≠ nil → table i = table j → i = j

theorem Distinct.store (distinct : Distinct nil table) {value : α}
    (fresh : ∀ i, table i ≠ value) (slot : Fin n) :
    Distinct nil (Function.update table slot value) := by
  intro i j some same
  by_cases first : i = slot
  · by_cases second : j = slot
    · rw [first, second]
    · rw [first, Function.update_self, Function.update_of_ne second] at same
      exact absurd same.symm (fresh j)
  · rw [Function.update_of_ne first] at some same
    by_cases second : j = slot
    · rw [second, Function.update_self] at same
      exact absurd same (fresh i)
    · rw [Function.update_of_ne second] at same
      exact distinct i j some same

theorem Distinct.clear (distinct : Distinct nil table) (slot : Fin n) :
    Distinct nil (Function.update table slot nil) := by
  intro i j some same
  have first : i ≠ slot := by
    intro equal
    rw [equal, Function.update_self] at some
    exact some rfl
  rw [Function.update_of_ne first] at some same
  by_cases second : j = slot
  · rw [second, Function.update_self] at same
    exact absurd same some
  · rw [Function.update_of_ne second] at same
    exact distinct i j some same

variable [DecidableEq α]

/-- The first slot of a value. -/
def slotOf (table : Fin n → α) (value : α) : Option (Fin n) :=
  (List.finRange n).find? fun i => table i == value

theorem slotOf_eq_some_iff {value : α} {i : Fin n} : slotOf table value = some i ↔
      table i = value ∧ ∀ j, j < i → table j ≠ value := by
  rw [slotOf, List.find?_eq_some_iff_getElem]
  constructor
  · rintro ⟨found, k, inside, rfl, before⟩
    refine ⟨by simpa using found, ?_⟩
    intro j less
    rw [List.getElem_finRange, Fin.lt_def] at less
    simpa using before j.val less
  · rintro ⟨found, before⟩
    refine ⟨by simpa using found, i.val, by simp, by simp, ?_⟩
    intro j less
    simpa using before ⟨j, less.trans i.isLt⟩ less

theorem slotOf_eq_none_iff {value : α} :
    slotOf table value = none ↔ ∀ i, table i ≠ value := by
  rw [slotOf, List.find?_eq_none]
  simp

theorem Distinct.slotOf_eq (distinct : Distinct nil table) {i : Fin n}
    (some : table i ≠ nil) : slotOf table (table i) = Option.some i := by
  cases found : slotOf table (table i) with
  | none =>
    have nowhere := List.find?_eq_none.mp found i (List.mem_finRange i)
    simp at nowhere
  | some j =>
    have same : table j = table i := by simpa using List.find?_some found
    rw [distinct i j some same.symm]

end Slots

/-!
## Slots and their owners

A table of slots, some of which are marked.  A marked slot has an owner, and the owner
keeps the number of its slot.
-/

/-- The marks and the owners of the slots, and the slot numbers that owners keep. -/
structure SlotOwners (n : Nat) (ω : Type) where
  marks : Fin n → Bool
  owner : Fin n → ω
  index : ω → Nat

namespace SlotOwners

variable {n : Nat} {ω : Type} {table : SlotOwners n ω} {held : ω → Prop} {x : ω} {slot : Fin n}

/-- The marked slots are those of the holders, one for each. -/
structure Matches (table : SlotOwners n ω) (held : ω → Prop) : Prop where
  slot : ∀ x, held x → ∃ slot : Fin n,
    table.index x = slot.val ∧ table.marks slot = true ∧ table.owner slot = x
  owner : ∀ slot, table.marks slot = true →
    held (table.owner slot) ∧ table.index (table.owner slot) = slot.val

theorem Matches.injective (good : table.Matches held) {slot slot' : Fin n}
    (marked : table.marks slot = true) (marked' : table.marks slot' = true)
    (same : table.owner slot = table.owner slot') : slot = slot' := by
  have first := (good.owner slot marked).2
  have second := (good.owner slot' marked').2
  rw [same] at first
  exact Fin.ext (first.symm.trans second)

/-- The number of marked slots. -/
def count (marks : Fin n → Bool) : Nat := (Finset.univ.filter fun slot => marks slot = true).card

theorem count_mark {marks : Fin n → Bool} (free : marks slot = false) :
    count (Function.update marks slot true) = count marks + 1 := by
  have inserted : (Finset.univ.filter fun other =>
      Function.update marks slot true other = true) =
      insert slot (Finset.univ.filter fun other => marks other = true) := by
    ext other
    by_cases here : other = slot
    · rw [here]
      simp
    · simp [here]
  unfold count
  rw [inserted, Finset.card_insert_of_notMem (by simp [free])]

theorem count_unmark {marks : Fin n → Bool} (marked : marks slot = true) :
    count (Function.update marks slot false) = count marks - 1 := by
  have erased : (Finset.univ.filter fun other =>
      Function.update marks slot false other = true) =
      (Finset.univ.filter fun other => marks other = true).erase slot := by
    ext other
    by_cases here : other = slot
    · rw [here]
      simp
    · simp [here]
  unfold count
  rw [erased, Finset.card_erase_of_mem (by simp [marked])]

theorem count_pos {marks : Fin n → Bool} (marked : marks slot = true) :
    0 < count marks :=
  Finset.card_pos.mpr ⟨slot, by simp [marked]⟩

variable [DecidableEq ω]

theorem Matches.assign (good : table.Matches held) (fresh : ¬ held x)
    (free : table.marks slot = false) :
    Matches ⟨Function.update table.marks slot true, Function.update table.owner slot x,
      Function.update table.index x slot.val⟩ (fun y => y = x ∨ held y) where
  slot := by
    rintro y (rfl | holds)
    · exact ⟨slot, by simp, by simp, by simp⟩
    · obtain ⟨place, index, marked, owner⟩ := good.slot y holds
      have other : place ≠ slot := by
        rintro rfl
        rw [free] at marked
        cases marked
      have known : y ≠ x := fun same => fresh (same ▸ holds)
      exact ⟨place, by simp [known, index], by simp [other, marked], by simp [other, owner]⟩
  owner := by
    intro place marked
    dsimp only at marked ⊢
    by_cases here : place = slot
    · rw [here]
      simp
    · rw [Function.update_of_ne here] at marked
      obtain ⟨holds, index⟩ := good.owner place marked
      have known : table.owner place ≠ x := fun same => fresh (same ▸ holds)
      rw [Function.update_of_ne here, Function.update_of_ne known]
      exact ⟨Or.inr holds, index⟩

theorem Matches.release (good : table.Matches held) (index : Nat)
    (owned : table.owner slot = x) (marked : table.marks slot = true) :
    Matches ⟨Function.update table.marks slot false, table.owner,
      Function.update table.index x index⟩ (fun y => y ≠ x ∧ held y) where
  slot := by
    rintro y ⟨other, holds⟩
    obtain ⟨place, number, marked', owner⟩ := good.slot y holds
    have elsewhere : place ≠ slot := by
      rintro rfl
      exact other (owner.symm.trans owned)
    exact ⟨place, by simp [other, number], by simp [elsewhere, marked'], owner⟩
  owner := by
    intro place marked'
    dsimp only at marked' ⊢
    have elsewhere : place ≠ slot := by
      rintro rfl
      rw [Function.update_self] at marked'
      cases marked'
    rw [Function.update_of_ne elsewhere] at marked'
    obtain ⟨holds, number⟩ := good.owner place marked'
    have other : table.owner place ≠ x := fun same =>
      elsewhere (good.injective marked' marked (same.trans owned.symm))
    rw [Function.update_of_ne other]
    exact ⟨⟨other, holds⟩, number⟩

end SlotOwners

end OsFree.Machine
