import Mathlib.Data.List.Basic

/-!
# Batches

The elements that are selected from a list are given out a number at a time.  A
batch is what is looked at for one of these numbers.
-/

namespace OsFree.Machine

variable {α : Type} (p : α → Bool)

/-- The shortest start of a list in which a number of elements are selected, or the
list if there are fewer. -/
def batch : Nat → List α → List α
  | 0, _ => []
  | _ + 1, [] => []
  | count + 1, x :: rest =>
    x :: batch (if p x then count else count + 1) rest

@[simp] theorem batch_zero (list : List α) : batch p 0 list = [] := by
  cases list with
  | nil => rfl
  | cons x rest => rfl

@[simp] theorem batch_nil (count : Nat) : batch p count ([] : List α) = [] := by
  cases count with
  | zero => rfl
  | succ count => rfl

variable {p}

theorem batch_cons_of_pos {count : Nat} {x : α} {rest : List α} (selected : p x = true) :
    batch p (count + 1) (x :: rest) = x :: batch p count rest := by
  simp [batch, selected]

theorem batch_cons_of_neg {count : Nat} {x : α} {rest : List α} (other : ¬ p x = true) :
    batch p (count + 1) (x :: rest) = x :: batch p (count + 1) rest := by
  simp [batch, other]

theorem filter_batch (count : Nat) (list : List α) :
    (batch p count list).filter p = (list.filter p).take count := by
  induction list generalizing count with
  | nil => simp
  | cons x rest ih =>
    cases count with
    | zero => simp
    | succ count =>
      by_cases selected : p x = true
      · rw [batch_cons_of_pos selected, List.filter_cons_of_pos selected,
          List.filter_cons_of_pos selected, List.take_succ_cons, ih]
      · rw [batch_cons_of_neg selected, List.filter_cons_of_neg selected,
          List.filter_cons_of_neg selected, ih]

theorem batch_starts (count : Nat) (list : List α) : batch p count list <+: list := by
  induction list generalizing count with
  | nil => simp
  | cons x rest ih =>
    cases count with
    | zero => simp
    | succ count => exact List.prefix_cons_inj x |>.mpr (ih _)

theorem filter_drop_batch (count : Nat) (list : List α) :
    (list.drop (batch p count list).length).filter p =
      (list.filter p).drop count := by
  have parts := congrArg (List.filter p)
    (List.prefix_iff_eq_append.mp (@batch_starts _ p count list))
  rw [List.filter_append, filter_batch] at parts
  exact List.append_cancel_left (parts.trans (List.take_append_drop count _).symm)

theorem length_filter_dropLast_batch_lt {count : Nat} (positive : 0 < count)
    (list : List α) : ((batch p count list).dropLast.filter p).length < count := by
  induction list generalizing count with
  | nil => simpa using positive
  | cons x rest ih =>
    obtain ⟨count, rfl⟩ := Nat.exists_eq_succ_of_ne_zero (Nat.ne_of_gt positive)
    by_cases selected : p x = true
    · rw [batch_cons_of_pos selected]
      by_cases last : batch p count rest = []
      · simp [last]
      · have more : 0 < count := by
          by_contra none
          have zero : count = 0 := by omega
          exact last (by rw [zero, batch_zero])
        rw [List.dropLast_cons_of_ne_nil last, List.filter_cons_of_pos selected, List.length_cons]
        exact Nat.succ_lt_succ (ih more)
    · rw [batch_cons_of_neg selected]
      by_cases last : batch p (count + 1) rest = []
      · simp [last]
      · rw [List.dropLast_cons_of_ne_nil last, List.filter_cons_of_neg selected]
        exact ih positive

theorem drop_length_take (count : Nat) (list : List α) :
    list.drop (list.take count).length = list.drop count := by
  rw [List.length_take]
  cases Nat.le_total count list.length with
  | inl enough => rw [Nat.min_eq_left enough]
  | inr few => rw [Nat.min_eq_right few, List.drop_length, List.drop_eq_nil_of_le few]

theorem length_batch_le (count : Nat) (list : List α) :
    (batch p count list).length ≤ list.length :=
  (batch_starts count list).length_le

end OsFree.Machine
