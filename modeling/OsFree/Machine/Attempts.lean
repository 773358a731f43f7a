import Mathlib.Data.List.Basic

/-!
# Searches through the elements of a list

The elements of a list are tried in order, except for those that are skipped, until one
ends the search.  Whether one does may depend on what has been tried before.
-/

namespace OsFree.Machine

variable {α β : Type}

/-- What has been tried in the end, and whether the last of it has ended the search. -/
def attempts (ends : List β → β → Bool) : List β → List β → List β × Bool
  | tried, [] => (tried, false)
  | tried, x :: xs =>
    if ends tried x then (tried ++ [x], true) else attempts ends (tried ++ [x]) xs

/-- The search in the elements; those without a candidate are skipped. -/
def elementAttempts (ends : List β → β → Bool) (candidate : α → Option β)
    (tried : List β) (elements : List α) : List β × Bool :=
  attempts ends tried (elements.filterMap candidate)

/-- Every element that the search comes to is right. -/
def EveryReached (ends : List β → β → Bool) (candidate : α → Option β)
    (right : α → Prop) (tried : List β) (elements : List α) : Prop :=
  ∀ before e after, elements = before ++ e :: after →
    (elementAttempts ends candidate tried before).2 = false → right e

section

variable {ends : List β → β → Bool} {candidate : α → Option β} {right : α → Prop}
  {tried : List β} {e : α} {elements : List α} {x : β}

theorem attempts_eq (ends : List β → β → Bool) (tried xs : List β) :
    ∃ more, more <+: xs ∧ (attempts ends tried xs).1 = tried ++ more := by
  induction xs generalizing tried with
  | nil => exact ⟨[], List.prefix_rfl, (List.append_nil _).symm⟩
  | cons x xs ih =>
    rw [attempts]
    split
    · exact ⟨[x], List.prefix_append [x] xs, rfl⟩
    · obtain ⟨more, starts, equal⟩ := ih (tried ++ [x])
      refine ⟨x :: more, List.cons_prefix_cons.mpr ⟨rfl, starts⟩, ?_⟩
      rw [equal, List.append_assoc, List.singleton_append]

theorem elementAttempts_skip (skips : candidate e = none) :
    elementAttempts ends candidate tried (e :: elements) =
      elementAttempts ends candidate tried elements := by
  rw [elementAttempts, List.filterMap_cons_none skips, elementAttempts]

theorem elementAttempts_stop (tries : candidate e = some x) (stops : ends tried x = true) :
    elementAttempts ends candidate tried (e :: elements) = (tried ++ [x], true) := by
  rw [elementAttempts, List.filterMap_cons_some tries, attempts, if_pos stops]

theorem elementAttempts_next (tries : candidate e = some x) (goes : ¬ ends tried x = true) :
    elementAttempts ends candidate tried (e :: elements) =
      elementAttempts ends candidate (tried ++ [x]) elements := by
  rw [elementAttempts, List.filterMap_cons_some tries, attempts, if_neg goes, elementAttempts]

theorem everyReached_nil : EveryReached ends candidate right tried [] := by
  intro before e after split
  simp at split

theorem everyReached_cons_iff {rest : Prop}
    (later : rest ↔ ∀ before f after, elements = before ++ f :: after →
      (elementAttempts ends candidate tried (e :: before)).2 = false → right f) :
    EveryReached ends candidate right tried (e :: elements) ↔ right e ∧ rest := by
  rw [later]
  constructor
  · intro reached
    exact ⟨reached [] e elements rfl rfl, fun before f after split =>
      reached (e :: before) f after (by rw [split]; rfl)⟩
  · rintro ⟨first, others⟩ before f after split goes
    cases before with
    | nil =>
      obtain ⟨rfl, -⟩ := List.cons.inj split
      exact first
    | cons other before =>
      injection split with same split
      exact others before f after split (same ▸ goes)

theorem elementAttempts_singleton (tries : candidate e = some x) :
    elementAttempts ends candidate tried [e] = (tried ++ [x], ends tried x) := by
  by_cases stops : ends tried x = true
  · rw [elementAttempts_stop tries stops, stops]
  · rw [elementAttempts_next tries stops, (Bool.not_eq_true _).mp stops]
    rfl

theorem everyReached_singleton :
    EveryReached ends candidate right tried [e] ↔ right e := by
  refine ⟨fun reached => reached [] e [] rfl rfl, fun first before f after split _ => ?_⟩
  cases before with
  | nil =>
    injection split with same
    exact same ▸ first
  | cons other before => simp at split

theorem everyReached_skip (skips : candidate e = none) :
    EveryReached ends candidate right tried (e :: elements) ↔
      right e ∧ EveryReached ends candidate right tried elements :=
  everyReached_cons_iff (by simp only [elementAttempts_skip skips, EveryReached])

theorem everyReached_stop (tries : candidate e = some x) (stops : ends tried x = true) :
    EveryReached ends candidate right tried (e :: elements) ↔ right e ∧ True :=
  everyReached_cons_iff (by simp [elementAttempts_stop tries stops])

theorem everyReached_next (tries : candidate e = some x) (goes : ¬ ends tried x = true) :
    EveryReached ends candidate right tried (e :: elements) ↔
      right e ∧ EveryReached ends candidate right (tried ++ [x]) elements :=
  everyReached_cons_iff (by simp only [elementAttempts_next tries goes, EveryReached])

end

theorem split_induction [DecidableEq α] (sep : α) {P : List α → Prop} (last : ∀ e, sep ∉ e → P e)
    (more : ∀ e rest, sep ∉ e → P rest → P (e ++ sep :: rest)) (text : List α) :
    P text := by
  have behind : ∀ front, sep ∉ front → P (front ++ text) := by
    induction text with
    | nil =>
      intro front without
      rw [List.append_nil]
      exact last front without
    | cons c text ih =>
      intro front without
      by_cases same : c = sep
      · rw [same]
        exact more front text without (ih [] List.not_mem_nil)
      · have further := ih (front ++ [c]) (by simp [without, Ne.symm same])
        rwa [List.append_assoc, List.singleton_append] at further
  exact behind [] List.not_mem_nil

theorem splitOn_of_not_mem [DecidableEq α] {sep : α} {e : List α} (without : sep ∉ e) :
    e.splitOn sep = [e] := by
  exact List.splitOnP_eq_singleton fun c member => by
    simpa using ne_of_mem_of_not_mem member without

theorem splitOn_append_cons [DecidableEq α] {sep : α} {e : List α} (without : sep ∉ e)
    (rest : List α) : (e ++ sep :: rest).splitOn sep = e :: rest.splitOn sep := by
  rw [List.splitOn_append_cons_of_beq _ _ (beq_self_eq_true sep), splitOn_of_not_mem without]
  rfl

theorem getLast?_cons_splitOn [DecidableEq α] (sep : α) (e rest : List α) :
    (e :: rest.splitOn sep).getLast? = (rest.splitOn sep).getLast? := by
  rw [List.getLast?_cons, List.getLast?_eq_some_getLast (List.splitOn_ne_nil sep rest)]
  rfl

theorem takeWhile_append_stop {p : α → Bool} {e rest : List α} (goes : ∀ c ∈ e, p c = true)
    (stop : ∀ c ∈ rest.head?, p c = false) : (e ++ rest).takeWhile p = e := by
  rw [List.takeWhile_append_of_pos goes]
  cases rest with
  | nil => exact List.append_nil e
  | cons c rest => rw [List.takeWhile_cons_of_neg (by simp [stop c rfl]), List.append_nil]

theorem dropWhile_append_stop {p : α → Bool} {e rest : List α} (goes : ∀ c ∈ e, p c = true)
    (stop : ∀ c ∈ rest.head?, p c = false) : (e ++ rest).dropWhile p = rest := by
  rw [List.dropWhile_append_of_pos goes]
  cases rest with
  | nil => rfl
  | cons c rest => exact List.dropWhile_cons_of_neg (by simp [stop c rfl])

theorem drop_length_takeWhile (p : α → Bool) (l : List α) :
    l.drop (l.takeWhile p).length = l.dropWhile p := by
  have parts := List.takeWhile_append_dropWhile (p := p) (l := l)
  exact (congrArg (List.drop _) parts.symm).trans List.drop_left

end OsFree.Machine
