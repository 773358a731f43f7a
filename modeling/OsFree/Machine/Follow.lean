import Mathlib.Data.Set.Finite.Basic
import OsFree.Machine.Run
import OsFree.Machine.Transition

/-!
# Computations that hand on

A step ends a computation or hands it on to another state, by a call of itself.
Where only finitely many states can be handed on to, such a computation comes
back exactly when each of its steps does and no cycle is met.
-/

namespace OsFree.Machine

variable {σ α : Type}

section

variable (step : σ → Run (α ⊕ σ))

/-- Hand a computation on until it ends; the recursion may use `stack` calls. -/
def follow : Nat → σ → Run α
  | 0, _ => .error .stackExhausted
  | stack + 1, state => do
      let next ← step state
      match next with
      | .inl value => pure value
      | .inr state' => follow stack state'

/-- A computation is handed on from one state to another. -/
def HandsOn (state state' : σ) : Prop := step state = .ok (.inr state')

/-- The steps at all states that a computation comes to return. -/
def StaysInside (state : σ) : Prop :=
  ∀ state', RunsTo (HandsOn step) state state' → Returns (step state')

/-- A computation comes to a state that is handed on to itself. -/
def MeetsCycle (state : σ) : Prop := ∃ state', RunsTo (HandsOn step) state state' ∧
    Relation.TransGen (HandsOn step) state' state'

end

variable {step : σ → Run (α ⊕ σ)} {state state' : σ} {value : α}

theorem follow_succ_of_inl (ends : step state = .ok (.inl value))
    (stack : Nat) : follow step (stack + 1) state = .ok value := by
  rw [follow, ends]
  rfl

theorem follow_succ_of_handsOn (next : HandsOn step state state')
    (stack : Nat) : follow step (stack + 1) state = follow step stack state' := by
  rw [follow, show step state = _ from next]
  rfl

theorem not_handsOn_of_inl (ends : step state = .ok (.inl value)) :
    ¬ HandsOn step state state' := by
  intro next
  rw [HandsOn, ends] at next
  cases next

section

variable (next : HandsOn step state state')

include next

theorem HandsOn.unique {other : σ} (next' : HandsOn step state other) : state' = other := by
  unfold HandsOn at next next'
  rw [next] at next'
  cases next'
  rfl

theorem runsTo_of_transGen {last : σ} (path : Relation.TransGen (HandsOn step) state last) :
    RunsTo (HandsOn step) state' last := by
  obtain ⟨other, next', rest⟩ := Relation.TransGen.head'_iff.mp path
  cases next.unique next'
  exact rest

theorem MeetsCycle.of_handsOn (meets : MeetsCycle step state) : MeetsCycle step state' := by
  obtain ⟨last, path, cycle⟩ := meets
  rcases Relation.reflTransGen_iff_eq_or_transGen.mp path with rfl | path
  · exact ⟨last, runsTo_of_transGen next cycle, cycle⟩
  · exact ⟨last, runsTo_of_transGen next path, cycle⟩

theorem StaysInside.of_handsOn (inside : StaysInside step state) : StaysInside step state' :=
  fun last path => inside last (.head next path)

end

theorem inside_of_follow {stack : Nat} : ∀ {state : σ}, Returns (follow step stack state) →
      StaysInside step state ∧ ¬ MeetsCycle step state := by
  induction stack with
  | zero =>
    intro state returned
    exact absurd returned (not_returns_error _)
  | succ stack ih =>
    intro state returned
    have steps := returned
    rw [follow, returns_bind_iff] at steps
    obtain ⟨next, stepped, -⟩ := steps
    cases next with
    | inl value =>
      constructor
      · intro last path
        rcases Relation.ReflTransGen.cases_head path with rfl | ⟨_, next, _⟩
        · exact ⟨_, stepped⟩
        · exact absurd next (not_handsOn_of_inl stepped)
      · rintro ⟨last, path, cycle⟩
        rcases Relation.ReflTransGen.cases_head path with rfl | ⟨_, next, _⟩
        · obtain ⟨_, next, _⟩ := Relation.TransGen.head'_iff.mp cycle
          exact not_handsOn_of_inl stepped next
        · exact not_handsOn_of_inl stepped next
    | inr state' =>
      have next : HandsOn step state state' := stepped
      rw [follow_succ_of_handsOn next] at returned
      obtain ⟨inside, acyclic⟩ := ih returned
      refine ⟨?_, fun meets => acyclic (meets.of_handsOn next)⟩
      intro last path
      rcases Relation.reflTransGen_iff_eq_or_transGen.mp path with rfl | path
      · exact ⟨_, stepped⟩
      · exact inside last (runsTo_of_transGen next path)

theorem acc_of_not_meetsCycle (finite : Set.Finite {state' | ∃ state, HandsOn step state state'})
    (acyclic : ¬ MeetsCycle step state) :
    Acc (fun next last => HandsOn step last next) state := by
  let Reached := {last : σ // RunsTo (HandsOn step) state last}
  let Behind : Reached → Reached → Prop := fun next last =>
    Relation.TransGen (HandsOn step) last.1 next.1
  have few : Finite Reached := by
    apply Set.Finite.subset (finite.insert state)
    intro last path
    rcases Relation.ReflTransGen.cases_tail path with rfl | ⟨before, _, next⟩
    · exact Set.mem_insert _ _
    · exact Set.mem_insert_of_mem _ ⟨before, next⟩
  have irreflexive : Std.Irrefl Behind := ⟨fun last cycle => acyclic ⟨last.1, last.2, cycle⟩⟩
  have ends := (Finite.wellFounded_of_trans_of_irrefl Behind).apply ⟨state, .refl⟩
  have all : ∀ last : Reached, Acc Behind last →
      Acc (fun next last => HandsOn step last next) last.1 := by
    intro last ends
    induction ends with
    | intro last _ ih =>
      refine ⟨_, fun next step => ?_⟩
      exact ih ⟨next, last.2.tail step⟩ (.single step)
  exact all _ ends

theorem returns_follow_iff (finite : Set.Finite {state' | ∃ state, HandsOn step state state'}) :
    (∃ enough, ∀ stack, enough ≤ stack → Returns (follow step stack state)) ↔
      StaysInside step state ∧ ¬ MeetsCycle step state := by
  constructor
  · rintro ⟨enough, returned⟩
    exact inside_of_follow (returned enough le_rfl)
  · rintro ⟨inside, acyclic⟩
    have ends := acc_of_not_meetsCycle finite acyclic
    clear acyclic
    induction ends with
    | intro state _ ih =>
      obtain ⟨next, stepped⟩ := inside state .refl
      cases next with
      | inl value =>
        refine ⟨1, ?_⟩
        rintro (- | stack) enough
        · omega
        · exact ⟨value, follow_succ_of_inl stepped stack⟩
      | inr state' =>
        have next : HandsOn step state state' := stepped
        obtain ⟨enough, returned⟩ := ih state' next (inside.of_handsOn next)
        refine ⟨enough + 1, ?_⟩
        rintro (- | stack) deep
        · omega
        · rw [follow_succ_of_handsOn next]
          exact returned stack (by omega)

end OsFree.Machine
