import OsFree.Doscalls.ScanEnv
import OsFree.Minicmd.Env

/-!
# The environment of a program

The command interpreter hands a block to the programs that it starts, and these ask
`DosScanEnv` for the value of a variable.
-/

namespace OsFree.Minicmd

open Machine
open Doscalls (placeIn Takes dosScanEnv CCHMAXPATH)

variable {name entry : List UInt8}

theorem stricmp_iff (s t : List UInt8) : Modmgr.Stricmp s t ↔ upper s = upper t := by
  have raised : ∀ c, toupper (Modmgr.toLower c) = toupper c := by
    intro c
    unfold toupper Modmgr.toLower
    grind
  have lowered : ∀ c, Modmgr.toLower (toupper c) = Modmgr.toLower c := by
    intro c
    unfold toupper Modmgr.toLower
    grind
  constructor
  · intro same
    simpa [upper, Function.comp_def, raised] using congrArg (List.map toupper) same
  · intro same
    simpa [upper, Modmgr.Stricmp, Function.comp_def, lowered] using
      congrArg (List.map Modmgr.toLower) same

theorem takes_iff (short : name.length < 128) (entry : List UInt8) :
    Takes name entry ↔ upper (nameOf entry) = upper name := by
  change Modmgr.Stricmp ((nameOf entry).take 259) name ↔ _
  rw [stricmp_iff]
  by_cases long : (nameOf entry).length ≤ 259
  · rw [List.take_of_length_le long]
  · refine iff_of_false (fun same => ?_) (fun same => ?_)
    all_goals
      have length_eq := congrArg List.length same
      simp only [length_upper, List.length_take] at length_eq
      omega

theorem placeIn_append {found : List UInt8 → Bool} {width : List UInt8 → Nat}
    {before after : List (List UInt8)} (place : Nat) (here : found entry = true)
    (none : ∀ other ∈ before, found other = false) :
    placeIn found width place (before ++ entry :: after) =
      some (place + (before.flatMap (· ++ [0])).length + width entry + 1) := by
  induction before generalizing place with
  | nil => exact if_pos here
  | cons other before ih =>
    obtain ⟨missed, none⟩ := List.forall_mem_cons.mp none
    rw [List.cons_append, placeIn, missed, if_neg Bool.false_ne_true, ih _ none]
    simp only [List.flatMap_cons, List.length_append, List.length_singleton]
    congr 1
    omega

/-- In the block that a program gets after allowed commands, `DosScanEnv` finds a variable
that a command has named, with its last value, unless it was unset last. -/
theorem dosScanEnv_of_run (list : StringList) (rest : List UInt8) {shell shell' : Shell}
    (started : Shell.start (list.encode ++ rest) = .ok shell)
    (run : RunsTo Shell.AllowedStep shell shell') (clean : equals ∉ name)
    (short : name.length < 128) {value : List UInt8}
    (last : shell'.last (upper name) = some value) :
    ∃ block, env_get shell'.env = .ok block ∧
      if value = [] then dosScanEnv block name = .ok none
      else ∃ place, dosScanEnv block name = .ok (some place) ∧
        readString (block.drop place) = .ok value := by
  obtain ⟨first, started', sound⟩ := Shell.Sound.start list rest
  cases started.symm.trans started'
  have sound : Shell.Sound list.strings shell' := by
    refine run.preserves ?_ sound
    rintro state state' sound ⟨command, valid, allowed, served⟩
    obtain ⟨_, served', sound'⟩ := sound.step valid allowed
    cases served.symm.trans served'
    exact sound'
  refine ⟨encodeStrings (shell'.env.strings.map EnvString.text), ?_, ?_⟩
  · rw [env_get, sound.freed]
    rfl
  have nonzero : ∀ entry ∈ shell'.env.strings.map EnvString.text, 0 ∉ entry :=
    List.forall_mem_map.mpr sound.nonzero
  have scanned := @Doscalls.scanEntries_encode name _ 0
    (List.forall_mem_map.mpr sound.nonempty) nonzero _ le_rfl
  have strings := sound.strings name clean
  rw [Shell.expected, last] at strings
  rw [dosScanEnv, scanned]
  split
  next unset =>
    simp only [unset, if_true, stringsOf, List.filter_eq_nil_iff, beq_iff_eq] at strings
    rw [Doscalls.placeIn_eq_none_iff.mpr fun entry member found =>
      strings entry member ((takes_iff short entry).mp (of_decide_eq_true found))]
  next set =>
    simp only [set, if_false] at strings
    obtain ⟨before, after, split, none, here, -⟩ := List.filter_eq_cons_iff.mp strings
    have key : Doscalls.keyOf (upper name ++ equals :: value) = upper name :=
      nameOf_append (by rwa [equals_mem_upper_iff])
    rw [split] at nonzero ⊢
    rw [placeIn_append 0 (decide_eq_true ((takes_iff short _).mpr (beq_iff_eq.mp here)))
      fun other member => decide_eq_false fun takes =>
        none other member (beq_iff_eq.mpr ((takes_iff short _).mp takes))]
    refine ⟨_, rfl, ?_⟩
    have behind : (encodeStrings (before ++ (upper name ++ equals :: value) :: after)) =
        (before.flatMap (· ++ [0]) ++ upper name ++ [equals]) ++
          (value ++ 0 :: encodeStrings after) := by
      simp [encodeStrings]
    rw [key, behind, List.drop_left', readString_of_ends]
    · intro zero
      exact nonzero _ (List.mem_append_right _ List.mem_cons_self)
        (List.mem_append_right _ (List.mem_cons_of_mem _ zero))
    · simp only [List.length_append, List.length_take, length_upper, CCHMAXPATH,
        List.length_singleton]
      omega

/-- A program finds what `SET bc=2` has set. -/
theorem dosScanEnv_of_run_set : ∃ block,
    env_get ⟨[⟨[66, 67, 61, 50], true⟩], false⟩ = .ok block ∧
      ∃ place, dosScanEnv block [98, 67] = .ok (some place) ∧
        readString (block.drop place) = .ok [50] := by
  have run : RunsTo Shell.AllowedStep ⟨⟨[], false⟩, fun _ => none⟩ _ :=
    .single ⟨⟨[98, 99], [50], false⟩, ⟨by decide, by decide, by decide⟩,
      ⟨by decide, by intro string found; cases found⟩, rfl⟩
  exact @dosScanEnv_of_run [98, 67] ⟨[], by simp, by simp⟩ [] _ _ rfl run (by decide) (by decide)
    [50] rfl

end OsFree.Minicmd
