import Mathlib.Logic.Relation

/-!
# Runs of a transition relation

A run takes any number of steps.  What each step preserves holds along every
run.  A relation all whose paths from a state end has no cycle there.
-/

namespace OsFree.Machine

variable {σ : Type}

/-- A run of any number of steps. -/
abbrev RunsTo (Step : σ → σ → Prop) : σ → σ → Prop := Relation.ReflTransGen Step

namespace RunsTo

variable {Step : σ → σ → Prop} {Inv : σ → Prop} {state state' : σ}

theorem preserves (preserved : ∀ state state', Inv state → Step state state' → Inv state')
    (run : RunsTo Step state state') (start : Inv state) : Inv state' := by
  induction run with
  | refl => exact start
  | tail _ step holds => exact preserved _ _ holds step

end RunsTo

section

variable {Edge Edge' : σ → σ → Prop} {Inside : σ → Prop} {state : σ}

theorem acc_of_inside (inside : ∀ state state', Inside state → Edge' state' state →
      Edge state' state ∧ Inside state')
    (ends : Acc Edge state) (start : Inside state) : Acc Edge' state := by
  induction ends with
  | intro state _ ih =>
    refine ⟨state, ?_⟩
    intro state' edge
    obtain ⟨known, next⟩ := inside state state' start edge
    exact ih state' known next

theorem not_transGen_of_acc (ends : Acc Edge state) :
    ¬ Relation.TransGen Edge state state := by
  have paths := ends.transGen
  clear ends
  induction paths with
  | intro state _ ih =>
    intro cycle
    exact ih state cycle cycle

end

end OsFree.Machine
