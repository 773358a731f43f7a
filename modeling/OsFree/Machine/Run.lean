import Mathlib.Algebra.Order.Ring.Int

/-!
# Runs of a C program that may leave defined behaviour

A run either returns a value or leaves defined behaviour at a known place.
Nothing is promised of a program after such a fault, so the property of
interest is whether a run returns and, if it does, with which value.
-/

namespace OsFree.Machine

/-- The ways in which a modelled C function leaves defined behaviour. -/
inductive Fault where
  /-- A read outside the buffer that the pointer belongs to. -/
  | readOutside
  /-- A write outside the buffer that the pointer belongs to. -/
  | writeOutside
  /-- A signed operation whose result does not fit its type. -/
  | overflow
  /-- A shift by more than the width of the shifted value. -/
  | shiftTooWide
  /-- A null pointer, or a pointer to a freed object, is dereferenced. -/
  | nullPointer
  /-- A value that nothing has been stored to is read. -/
  | uninitialised
  /-- A recursion goes deeper than the stack. -/
  | stackExhausted
  deriving DecidableEq

/-- A computation that returns a value or leaves defined behaviour. -/
abbrev Run (α : Type) := Except Fault α

/-- The run comes back with some value. -/
def Returns {α : Type} (run : Run α) : Prop := ∃ value, run = .ok value

section

variable {α β : Type}

@[simp] theorem bind_ok (value : α) (next : α → Run β) :
    ((Except.ok value : Run α) >>= next) = next value := rfl

@[simp] theorem bind_error (fault : Fault) (next : α → Run β) :
    ((Except.error fault : Run α) >>= next) = .error fault := rfl

@[simp] theorem pure_eq_ok (value : α) :
    (pure value : Run α) = .ok value := rfl

@[simp] theorem map_ok (f : α → β) (value : α) :
    (f <$> (Except.ok value : Run α)) = .ok (f value) := rfl

@[simp] theorem map_error (f : α → β) (fault : Fault) :
    (f <$> (Except.error fault : Run α)) = .error fault := rfl

theorem bind_eq_ok_iff {run : Run α} {next : α → Run β} {result : β} : (run >>= next) = .ok result ↔
      ∃ value, run = .ok value ∧ next value = .ok result := by
  cases run with
  | ok value => simp
  | error fault => simp

theorem toOption_eq_some_iff {run : Run α} {result : α} :
    run.toOption = some result ↔ run = .ok result := by
  cases run with
  | ok value => simp [Except.toOption]
  | error fault => simp [Except.toOption]

theorem map_eq_ok_iff {run : Run α} {f : α → β} {result : β} :
    f <$> run = .ok result ↔ ∃ value, run = .ok value ∧ f value = result := by
  cases run with
  | ok value => simp
  | error fault => simp

@[simp] theorem returns_ok (value : α) :
    Returns (Except.ok value : Run α) := ⟨value, rfl⟩

@[simp] theorem not_returns_error (fault : Fault) :
    ¬ Returns (Except.error fault : Run α) := by
  rintro ⟨value, equal⟩
  cases equal

theorem returns_bind_iff {run : Run α} {next : α → Run β} : Returns (run >>= next) ↔
      ∃ value, run = .ok value ∧ Returns (next value) := by
  cases run with
  | ok value => simp
  | error fault => simp

theorem ite_error_bind {condition : Prop} [Decidable condition] (run : Run α)
    (fault : Fault) (next : α → Run β) :
    ((if condition then run else .error fault : Run α) >>= next) =
      if condition then run >>= next else .error fault := by
  split
  · rfl
  · rfl

theorem returns_ite_error_iff {condition : Prop} [Decidable condition]
    {run : Run α} {fault : Fault} :
    Returns (if condition then run else .error fault) ↔
      condition ∧ Returns run := by
  by_cases holds : condition
  · simp [holds]
  · simp [holds]

end

section

variable {α β : Type}

/-- Go on with what a loop comes to, if it comes to an end. -/
def andThen (first : Option (Run α)) (next : α → Option (Run β)) :
    Option (Run β) :=
  match first with
  | none => none
  | some (.error fault) => some (.error fault)
  | some (.ok value) => next value

theorem andThen_eq_ok_iff {first : Option (Run α)} {next : α → Option (Run β)} {result : β} :
    andThen first next = some (.ok result) ↔
      ∃ value, first = some (.ok value) ∧ next value = some (.ok result) := by
  match first with
  | none => simp [andThen]
  | some (.error fault) => simp [andThen]
  | some (.ok value) => simp [andThen]

/-- A loop that is given fuel for some passes comes to an end with enough of it,
and then always in this way. -/
structure Settles (loop : Nat → Option (Run α)) (run : Run α) : Prop where
  returns : ∃ enough, ∀ fuel, enough ≤ fuel → loop fuel = some run
  returned : ∀ fuel run', loop fuel = some run' → run' = run

namespace Settles

variable {loop : Nat → Option (Run α)} {run : Run α} {value : α}

theorem exists_iff (settles : Settles loop run) (value : α) :
    (∃ fuel, loop fuel = some (.ok value)) ↔ run = .ok value := by
  constructor
  · rintro ⟨fuel, done⟩
    exact (settles.returned fuel _ done).symm
  · rintro rfl
    obtain ⟨enough, returns⟩ := settles.returns
    exact ⟨enough, returns enough (Nat.le_refl enough)⟩

theorem succ {next : Nat → Option (Run α)} (zero : loop 0 = none)
    (pass : ∀ fuel, loop (fuel + 1) = next fuel) (settles : Settles next run) :
    Settles loop run where
  returns := by
    obtain ⟨enough, returns⟩ := settles.returns
    refine ⟨enough + 1, fun fuel large => ?_⟩
    obtain ⟨rest, rfl⟩ := Nat.exists_eq_add_of_le large
    rw [Nat.add_right_comm, pass]
    exact returns _ (Nat.le_add_right ..)
  returned := by
    intro fuel result done
    cases fuel with
    | zero =>
      rw [zero] at done
      cases done
    | succ fuel =>
      rw [pass] at done
      exact settles.returned fuel result done

theorem const (run : Run α) : Settles (fun _ => some run) run where
  returns := ⟨0, fun _ _ => rfl⟩
  returned := fun _ _ done => (Option.some.inj done).symm

theorem of_forall (done : ∀ fuel, loop fuel = some run) : Settles loop run := by
  rw [show loop = fun _ => some run from funext done]
  exact const run

theorem andThen {next : Nat → α → Option (Run β)} {run' : Run β} (first : Settles loop (.ok value))
    (second : Settles (fun fuel => next fuel value) run') :
    Settles (fun fuel => Machine.andThen (loop fuel) (next fuel)) run' where
  returns := by
    obtain ⟨enough, returns⟩ := first.returns
    obtain ⟨enough', returns'⟩ := second.returns
    refine ⟨max enough enough', fun fuel large => ?_⟩
    rw [returns fuel (Nat.le_trans (Nat.le_max_left ..) large)]
    exact returns' fuel (Nat.le_trans (Nat.le_max_right ..) large)
  returned := by
    intro fuel result done
    cases found : loop fuel with
    | none =>
      rw [found] at done
      cases done
    | some outcome =>
      cases first.returned fuel _ found
      rw [found] at done
      exact second.returned fuel result done

theorem map (settles : Settles loop run) (f : α → β) :
    Settles (fun fuel => (f <$> ·) <$> loop fuel) (f <$> run) where
  returns := by
    obtain ⟨enough, returns⟩ := settles.returns
    refine ⟨enough, fun fuel large => ?_⟩
    rw [returns fuel large]
    rfl
  returned := by
    intro fuel result done
    obtain ⟨run', found, rfl⟩ := Option.map_eq_some_iff.mp done
    rw [settles.returned fuel run' found]

end Settles

end

/-!
## Postconditions of runs

What holds when a run comes back, with the kinds of faults that may keep it from
coming back.  A sequence of two parts is taken apart at what the first ensures.
-/

variable {α β : Type}

/-- Only some faults happen in the run, and what it returns is good. -/
def Ensures (Tolerated : Fault → Prop) (P : α → Prop) : Option (Run α) → Prop
  | none => True
  | some (.error fault) => Tolerated fault
  | some (.ok value) => P value

variable {Tolerated : Fault → Prop} {P Q : α → Prop} {R : β → Prop}

@[simp] theorem ensures_none : Ensures Tolerated P none := trivial

@[simp] theorem ensures_ok {value : α} :
    Ensures Tolerated P (some (.ok value)) ↔ P value := Iff.rfl

@[simp] theorem ensures_error {fault : Fault} :
    Ensures Tolerated P (some (.error fault)) ↔ Tolerated fault := Iff.rfl

namespace Ensures

theorem mono {outcome : Option (Run α)} (ensures : Ensures Tolerated P outcome)
    (weaker : ∀ value, P value → Q value) : Ensures Tolerated Q outcome := by
  match outcome with
  | none => trivial
  | some (.error fault) => exact ensures
  | some (.ok value) => exact weaker value ensures

theorem andThen {first : Option (Run α)} {next : α → Option (Run β)}
    (ensures : Ensures Tolerated P first)
    (follows : ∀ value, P value → Ensures Tolerated R (next value)) :
    Ensures Tolerated R (Machine.andThen first next) := by
  match first with
  | none => trivial
  | some (.error fault) => exact ensures
  | some (.ok value) => exact follows value ensures

theorem bind {first : Run α} {next : α → Run β} (ensures : Ensures Tolerated P (some first))
    (follows : ∀ value, P value → Ensures Tolerated R (some (next value))) :
    Ensures Tolerated R (some (first >>= next)) := by
  cases first with
  | error fault => exact ensures
  | ok value => exact follows value ensures

theorem of_ok {value : α} {outcome : Option (Run α)}
    (ensures : Ensures Tolerated P outcome) (returned : outcome = some (.ok value)) :
    P value := by
  rw [returned] at ensures
  exact ensures

end Ensures

end OsFree.Machine
