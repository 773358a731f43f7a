import Mathlib.Data.List.Forall2
import Mathlib.Data.List.Induction
import OsFree.Machine.Run

/-!
# Loops as folds

A loop over a list whose body is itself a loop is one loop over the
concatenation of the inner lists, and a loop that returns has met every element
with a body that returned.
-/

namespace OsFree.Machine

variable {α β σ : Type}

theorem foldlM_flatten_of_forall₂ {related : α → List β → Prop}
    {outer : σ → α → Run σ} {inner : σ → β → Run σ}
    (agree : ∀ element elements, related element elements →
      ∀ state, outer state element = elements.foldlM inner state)
    {xs : List α} {yss : List (List β)}
    (matched : List.Forall₂ related xs yss) (state : σ) :
    xs.foldlM outer state = yss.flatten.foldlM inner state := by
  induction matched generalizing state with
  | nil => rfl
  | cons first _ ih =>
    rw [List.foldlM_cons, List.flatten_cons, List.foldlM_append, agree _ _ first]
    congr 1
    funext state
    exact ih state

theorem exists_forall₂_of_foldlM {related : α → β → Prop} {body : σ → α → Run σ}
    (found : ∀ state element state', body state element = .ok state' →
      ∃ value, related element value)
    {xs : List α} :
    ∀ {state state' : σ}, xs.foldlM body state = .ok state' →
      ∃ values, List.Forall₂ related xs values := by
  induction xs with
  | nil => exact fun _ => ⟨[], .nil⟩
  | cons element xs ih =>
    intro state state' returned
    rw [List.foldlM_cons, bind_eq_ok_iff] at returned
    obtain ⟨between, first, returned⟩ := returned
    obtain ⟨value, holds⟩ := found _ _ _ first
    obtain ⟨values, matched⟩ := ih returned
    exact ⟨value :: values, .cons holds matched⟩

theorem getElem?_of_forall₂ {related : α → β → Prop} {xs : List α}
    {ys : List β} (matched : List.Forall₂ related xs ys) :
    ∀ {k : Nat} {x : α}, xs[k]? = some x →
      ∃ y, ys[k]? = some y ∧ related x y := by
  induction matched with
  | nil => simp
  | cons first _ ih =>
    intro k x found
    cases k with
    | zero =>
      cases found
      exact ⟨_, rfl, first⟩
    | succ k => exact ih found

theorem forall_mem_flatten_of_forall₂ {related : α → List β → Prop} {stands : β → Prop}
    (each : ∀ element elements, related element elements → ∀ partner ∈ elements, stands partner)
    {xs : List α} {yss : List (List β)}
    (matched : List.Forall₂ related xs yss) :
    ∀ partner ∈ yss.flatten, stands partner := by
  induction matched with
  | nil => simp
  | cons first _ ih =>
    intro partner member
    rw [List.flatten_cons, List.mem_append] at member
    rcases member with member | member
    · exact each _ _ first partner member
    · exact ih partner member

theorem foldlM_eq_ok_foldl {body : σ → α → Run σ} {step : σ → α → σ} {xs : List α}
    (steps : ∀ element ∈ xs, ∀ state, body state element = .ok (step state element))
    (state : σ) : xs.foldlM body state = .ok (xs.foldl step state) := by
  induction xs generalizing state with
  | nil => rfl
  | cons element xs ih =>
    rw [List.foldlM_cons, steps element (List.mem_cons_self ..), bind_ok, List.foldl_cons]
    exact ih (fun other member => steps other (List.mem_cons_of_mem _ member)) _

theorem exists_foldlM_range' {body : σ → Nat → Run σ} {stands : Nat → σ → Prop} {start n : Nat}
    (steps : ∀ k state, start ≤ k → k < start + n → stands k state →
      ∃ state', body state k = .ok state' ∧ stands (k + 1) state')
    {state : σ} (first : stands start state) :
    ∃ state', (List.range' start n).foldlM body state = .ok state' ∧
      stands (start + n) state' := by
  induction n generalizing start state with
  | zero => exact ⟨state, rfl, first⟩
  | succ n ih =>
    obtain ⟨between, returned, next⟩ := steps start state (Nat.le_refl start) (by omega) first
    obtain ⟨state', rest, last⟩ := ih
      (fun k state from' below => steps k state (by omega) (by omega)) next
    refine ⟨state', ?_, ?_⟩
    · rw [List.range'_succ, List.foldlM_cons, returned, bind_ok]
      exact rest
    · rw [Nat.add_right_comm, Nat.add_assoc] at last
      exact last

theorem body_returns_of_foldlM {body : σ → α → Run σ} {xs : List α} :
    ∀ {state state' : σ}, xs.foldlM body state = .ok state' →
      ∀ element ∈ xs, ∃ before, Returns (body before element) := by
  induction xs with
  | nil => simp
  | cons element xs ih =>
    intro state state' returned other member
    rw [List.foldlM_cons, bind_eq_ok_iff] at returned
    obtain ⟨between, first, returned⟩ := returned
    rcases List.mem_cons.mp member with rfl | member
    · exact ⟨state, between, first⟩
    · exact ih returned other member

theorem foldlM_keeps {body : σ → α → Run σ} {stands : σ → Prop} {xs : List α}
    (keeps : ∀ element ∈ xs, ∀ state state', stands state →
      body state element = .ok state' → stands state') :
    ∀ {state state' : σ}, stands state →
      xs.foldlM body state = .ok state' → stands state' := by
  induction xs with
  | nil =>
    intro state state' start returned
    cases returned
    exact start
  | cons element xs ih =>
    intro state state' start returned
    rw [List.foldlM_cons, bind_eq_ok_iff] at returned
    obtain ⟨between, first, returned⟩ := returned
    refine ih ?_ (keeps element (List.mem_cons_self ..) state between start first) returned
    exact fun other member => keeps other (List.mem_cons_of_mem _ member)

theorem returns_foldlM_iff_of_keeps {body : σ → α → Run σ}
    {stands : σ → Prop} {fits : α → Prop} {xs : List α}
    (keeps : ∀ element ∈ xs, ∀ state state', stands state →
      body state element = .ok state' → stands state')
    (returnsIff : ∀ element ∈ xs, ∀ state, stands state →
      (Returns (body state element) ↔ fits element))
    {state : σ} (start : stands state) :
    Returns (xs.foldlM body state) ↔ ∀ element ∈ xs, fits element := by
  induction xs generalizing state with
  | nil => simp
  | cons element xs ih =>
    have first := returnsIff element (List.mem_cons_self ..) state start
    have rest := @ih (fun other member => keeps other (List.mem_cons_of_mem _ member))
      (fun other member => returnsIff other (List.mem_cons_of_mem _ member))
    have next := keeps element (List.mem_cons_self ..) state
    rw [List.foldlM_cons, returns_bind_iff, List.forall_mem_cons, ← first]
    constructor
    · rintro ⟨between, returned, others⟩
      exact ⟨⟨between, returned⟩, (rest (next between start returned)).mp others⟩
    · rintro ⟨⟨between, returned⟩, others⟩
      exact ⟨between, returned, (rest (next between start returned)).mpr others⟩

theorem returns_foldlM_iff {body : σ → α → Run σ} {fits : α → Prop} {xs : List α}
    (returnsIff : ∀ element ∈ xs, ∀ state, Returns (body state element) ↔ fits element)
    (state : σ) :
    Returns (xs.foldlM body state) ↔ ∀ element ∈ xs, fits element :=
  @returns_foldlM_iff_of_keeps _ _ body (fun _ => True) fits xs (fun _ _ _ _ _ _ => trivial)
    (fun element member state _ => returnsIff element member state) state
    trivial

theorem foldlM_range_eq_foldlM {body : σ → Nat → Run σ} {step : σ → α → Run σ} {xs : List α}
    (agree : ∀ k x, xs[k]? = some x → ∀ state, body state k = step state x)
    (state : σ) :
    (List.range xs.length).foldlM body state = xs.foldlM step state := by
  induction xs using List.reverseRec generalizing state with
  | nil => rfl
  | append_singleton xs x ih =>
    have last : (xs ++ [x])[xs.length]? = some x := by simp
    have others : ∀ k y, xs[k]? = some y → ∀ state,
        body state k = step state y := by
      intro k y found
      apply agree
      rw [List.getElem?_append_left (List.getElem?_eq_some_iff.mp found).1]
      exact found
    rw [List.length_append, List.length_singleton, List.range_succ,
      List.foldlM_append, List.foldlM_append, ih others]
    congr 1
    funext state
    simp only [List.foldlM_cons, List.foldlM_nil, agree _ _ last]

section

variable {τ : Type} {pack : σ → List β → τ} {next : σ → α → σ}
  {emit : σ → α → Run β} {body : τ → α → Run τ} {xs : List α} {state : σ}

theorem foldlM_emit_eq_ok_iff (steps : ∀ state emitted x, body (pack state emitted) x = do
      let y ← emit state x
      pure (pack (next state x) (emitted ++ [y])))
    {emitted : List β} {result : τ} :
    xs.foldlM body (pack state emitted) = .ok result ↔
      ∃ new, result = pack (xs.foldl next state) (emitted ++ new) ∧
        new.length = xs.length ∧ ∀ k x y, xs[k]? = some x → new[k]? = some y →
            emit ((xs.take k).foldl next state) x = .ok y := by
  induction xs generalizing state emitted with
  | nil =>
    constructor
    · intro returned
      cases returned
      exact ⟨[], by simp⟩
    · rintro ⟨new, rfl, sameLength, -⟩
      rw [List.eq_nil_of_length_eq_zero sameLength]
      simp
  | cons x xs ih =>
    rw [List.foldlM_cons, steps, bind_assoc, bind_eq_ok_iff]
    constructor
    · rintro ⟨y, emitsFirst, returned⟩
      obtain ⟨new, rfl, sameLength, emits⟩ := ih.mp returned
      refine ⟨y :: new, by simp, by simp [sameLength], ?_⟩
      intro k x' y' found found'
      cases k with
      | zero =>
        cases found
        cases found'
        exact emitsFirst
      | succ k => exact emits k x' y' found found'
    · rintro ⟨new, rfl, sameLength, emits⟩
      cases new with
      | nil => cases sameLength
      | cons y new =>
        refine ⟨y, emits 0 x y rfl rfl, ?_⟩
        apply ih.mpr
        refine ⟨new, by simp, Nat.succ.inj sameLength, ?_⟩
        intro k x' y' found found'
        exact emits (k + 1) x' y' found found'

theorem returns_foldlM_emit (steps : ∀ state emitted x, body (pack state emitted) x = do
      let y ← emit state x
      pure (pack (next state x) (emitted ++ [y])))
    {emitted : List β}
    (emits : ∀ k x, xs[k]? = some x → Returns (emit ((xs.take k).foldl next state) x)) :
    Returns (xs.foldlM body (pack state emitted)) := by
  induction xs generalizing state emitted with
  | nil => exact returns_ok _
  | cons x xs ih =>
    obtain ⟨y, emitsFirst⟩ : Returns (emit state x) := emits 0 x rfl
    rw [List.foldlM_cons, steps, emitsFirst]
    apply ih
    intro k x' found
    exact emits (k + 1) x' found

end

theorem forall₂_of_mapM {f : α → Run β} {xs : List α} {ys : List β} (mapped : xs.mapM f = .ok ys) :
    List.Forall₂ (fun x y => f x = .ok y) xs ys := by
  induction xs generalizing ys with
  | nil =>
    cases mapped
    exact .nil
  | cons x xs ih =>
    rw [List.mapM_cons] at mapped
    obtain ⟨y, first, mapped⟩ := bind_eq_ok_iff.mp mapped
    obtain ⟨ys, others, mapped⟩ := bind_eq_ok_iff.mp mapped
    cases mapped
    exact .cons first (ih others)

theorem returns_mapM_iff {f : α → Run β} {xs : List α} :
    Returns (xs.mapM f) ↔ ∀ x ∈ xs, Returns (f x) := by
  induction xs with
  | nil => simp
  | cons x xs ih =>
    rw [List.mapM_cons, List.forall_mem_cons, ← ih, returns_bind_iff]
    simp only [returns_bind_iff, pure_eq_ok, returns_ok, and_true]
    exact exists_and_right

end OsFree.Machine
