import OsFree.Lx.EntryLookup
import OsFree.Lx.TableReads

/-!
# Names of the imported modules by ordinal

The search for a name steps over as many strings as its ordinal says.  It knows
neither the number of names nor that their lengths are unsigned.
-/

namespace OsFree.Lx

open Machine

namespace LXModule

variable (lxMod : LXModule)

/-- The import module name table has these names. -/
structure HoldsModNames (names : List (List UInt8)) : Prop where
  stands : ∃ rest, RestAt lxMod.fixupSection lxMod.impModTable (names.flatMap encodeName ++ rest)
  length_le : ∀ name ∈ names, name.length ≤ 255

/-- The place behind a number of names. -/
def modNamePlace (names : List (List UInt8)) (count : Nat) : Int :=
  lxMod.impModTable + ((names.take count).flatMap encodeName).length

/-- The pointer that answers an ordinal.  The ordinals count from one; any other
is answered by a null pointer, the report of a failure. -/
def modNamePointer (names : List (List UInt8)) (modIdx : Nat) : Option Int :=
  if 1 ≤ modIdx ∧ modIdx ≤ names.length then
    some (lxMod.modNamePlace names (modIdx - 1))
  else none

/-- The search comes back with the pointer that answers the ordinal. -/
def AnswersOrdinal (names : List (List UInt8)) (modIdx : Nat) : Prop :=
  some <$> lxMod.getImpModName modIdx = .ok (lxMod.modNamePointer names modIdx)

/-- The condition under which the ordinals up to the last one are answered.
There are so many names, a zero ends the printing of the table, and all names
before the last one have lengths that a signed `char` can have. -/
def OrdinalsFit (names : List (List UInt8)) (last : Nat) : Prop := last = 0 ∨
    last ≤ names.length ∧ ZeroBehind lxMod.fixupSection lxMod.impModTable ∧
      ∀ name ∈ names.take (last - 1), name.length < 128

end LXModule

theorem skipNames_succ (buffer : List UInt8) (count : Nat) :
    ∀ place, skipNames buffer (count + 1) place = (do
      let last ← skipNames buffer count place
      let length ← readByte buffer last
      pure (last + signedByte length + 1)) := by
  induction count with
  | zero =>
    intro place
    rfl
  | succ count ih =>
    intro place
    rw [skipNames, skipNames]
    cases readByte buffer place with
    | error fault => rfl
    | ok length => exact ih (place + signedByte length + 1)

theorem length_lt_of_signedByte {name : List UInt8} (short : name.length ≤ 255)
    (same : signedByte (UInt8.ofNat name.length) = name.length) :
    name.length < 128 := by
  have lengthByte : (UInt8.ofNat name.length).toNat = name.length := by
    rw [UInt8.toNat_ofNat']
    omega
  rw [signedByte, lengthByte] at same
  split at same
  · assumption
  · omega

section

variable {lxMod : LXModule} {names : List (List UInt8)}

theorem modNamePlace_succ {count : Nat} {name : List UInt8} (found : names[count]? = some name) :
    lxMod.modNamePlace names (count + 1) =
      lxMod.modNamePlace names count + name.length + 1 := by
  unfold LXModule.modNamePlace
  rw [List.take_add_one, found, List.flatMap_append, Option.toList_some,
    List.flatMap_singleton, encodeName, List.length_append, List.length_cons]
  omega

theorem not_answersOrdinal_of_outside {modIdx : Nat}
    (outside : modIdx = 0 ∨ names.length < modIdx) :
    ¬ lxMod.AnswersOrdinal names modIdx := by
  intro answers
  have noName : lxMod.modNamePointer names modIdx = none := if_neg (by omega)
  rw [LXModule.AnswersOrdinal, noName] at answers
  obtain ⟨modName, -, answer⟩ := map_eq_ok_iff.mp answers
  cases answer

theorem answersOrdinal_succ_iff {count : Nat} (within : count < names.length) :
    lxMod.AnswersOrdinal names (count + 1) ↔ ZeroBehind lxMod.fixupSection lxMod.impModTable ∧
        skipNames lxMod.fixupSection count lxMod.impModTable =
          .ok (lxMod.modNamePlace names count) := by
  have pointer : lxMod.modNamePointer names (count + 1) =
      some (lxMod.modNamePlace names count) :=
    if_pos ⟨Nat.le_add_left 1 count, within⟩
  have positive : (1 : Int) ≤ (count + 1 : Nat) := by omega
  have counts : (((count + 1 : Nat) : Int) - 1).toNat = count := by omega
  rw [LXModule.AnswersOrdinal, pointer, LXModule.getImpModName,
    if_pos positive, counts, ← returns_logToZero_length_iff]
  constructor
  · intro answers
    obtain ⟨modName, found, answer⟩ := map_eq_ok_iff.mp answers
    cases answer
    obtain ⟨printed, printing, skipped⟩ := bind_eq_ok_iff.mp found
    exact ⟨⟨printed, printing⟩, skipped⟩
  · rintro ⟨⟨printed, printing⟩, skipped⟩
    rw [printing, bind_ok, skipped]
    rfl

theorem LXModule.HoldsModNames.behind (holds : lxMod.HoldsModNames names) (count : Nat) :
    ∃ rest, RestAt lxMod.fixupSection (lxMod.modNamePlace names count)
      ((names.drop count).flatMap encodeName ++ rest) := by
  obtain ⟨rest, stands⟩ := holds.stands
  refine ⟨rest, ?_⟩
  rw [← List.take_append_drop count names, List.flatMap_append, List.append_assoc] at stands
  exact stands.skip

theorem short_of_answers (holds : lxMod.HoldsModNames names) {count : Nat}
    {name : List UInt8} (found : names[count]? = some name)
    (here : skipNames lxMod.fixupSection count lxMod.impModTable =
      .ok (lxMod.modNamePlace names count))
    (next : skipNames lxMod.fixupSection (count + 1) lxMod.impModTable =
      .ok (lxMod.modNamePlace names (count + 1))) : name.length < 128 := by
  obtain ⟨within, rfl⟩ := List.getElem?_eq_some_iff.mp found
  obtain ⟨rest, stands⟩ := holds.behind count
  rw [List.drop_eq_getElem_cons within, List.flatMap_cons, List.append_assoc] at stands
  rw [skipNames_succ, here, bind_ok, RestAt.readByte stands, bind_ok,
    modNamePlace_succ found] at next
  apply length_lt_of_signedByte (holds.length_le _ (List.getElem_mem within))
  have place := Except.ok.inj next
  omega

end

/-- The ordinals up to a last one are answered exactly when there are so many
names and those before the last are shorter than 128 bytes.  No other ordinal
is ever reported as a failure. -/
theorem answersOrdinals_iff {lxMod : LXModule} {names : List (List UInt8)}
    (holds : lxMod.HoldsModNames names) (last : Nat) :
    ((∀ modIdx, 1 ≤ modIdx → modIdx ≤ last →
        lxMod.AnswersOrdinal names modIdx) ↔ lxMod.OrdinalsFit names last) ∧
      ∀ modIdx, modIdx = 0 ∨ names.length < modIdx →
        ¬ lxMod.AnswersOrdinal names modIdx := by
  refine ⟨?_, fun modIdx => not_answersOrdinal_of_outside⟩
  constructor
  · intro answers
    cases last with
    | zero => exact Or.inl rfl
    | succ last =>
      have within : last + 1 ≤ names.length := by
        by_contra outside
        exact not_answersOrdinal_of_outside (Or.inr (Nat.lt_of_not_le outside))
          (answers (last + 1) (by omega) le_rfl)
      refine Or.inr ⟨within, ?_, ?_⟩
      · exact ((answersOrdinal_succ_iff (by omega)).mp (answers 1 le_rfl (by omega))).1
      · intro name member
        obtain ⟨count, found⟩ := List.mem_iff_getElem?.mp member
        rw [List.getElem?_take] at found
        split at found
        · rename_i before
          exact short_of_answers holds found ((answersOrdinal_succ_iff (by omega)).mp
              (answers (count + 1) (by omega) (by omega))).2
            ((answersOrdinal_succ_iff (by omega)).mp
              (answers (count + 1 + 1) (by omega) (by omega))).2
        · cases found
  · rintro (rfl | ⟨within, printed, short⟩) modIdx positive upTo
    · omega
    · obtain ⟨count, rfl⟩ := Nat.exists_eq_add_of_le' positive
      obtain ⟨rest, stands⟩ := holds.stands
      rw [← List.take_append_drop count names, List.flatMap_append, List.append_assoc] at stands
      have counted : (names.take count).length = count := by
        rw [List.length_take]
        omega
      have skipped := skipNames_of_short (names.take count) stands fun name member => short name
          (List.take_subset_take_left names (by omega) member)
      rw [counted] at skipped
      exact (answersOrdinal_succ_iff (by omega)).mpr ⟨printed, skipped⟩

/-- A module with an import module name table and a zero behind it. -/
def namesModule (names : List (List UInt8)) : LXModule := { (default : LXModule) with
    fixupSection := names.flatMap encodeName ++ [0x00] }

theorem holdsModNames_namesModule {names : List (List UInt8)}
    (short : ∀ name ∈ names, name.length ≤ 255) :
    (namesModule names).HoldsModNames names where
  stands := by
    have table : (namesModule names).impModTable = 0 := by
      change signedLong (0 - 0) = 0
      decide
    rw [table]
    exact ⟨[0x00], restAt_zero _⟩
  length_le := short

/-- Two short names are found by their ordinals. -/
theorem answersOrdinals_two : (∀ modIdx, 1 ≤ modIdx → modIdx ≤ 2 →
      (namesModule [[0x41], [0x42, 0x43]]).AnswersOrdinal [[0x41], [0x42, 0x43]] modIdx) ∧
      ∀ modIdx, modIdx = 0 ∨ 2 < modIdx → ¬ (namesModule [[0x41], [0x42, 0x43]]).AnswersOrdinal
          [[0x41], [0x42, 0x43]] modIdx := by
  have short : ∀ name ∈ ([[0x41], [0x42, 0x43]] : List (List UInt8)),
      name.length ≤ 255 := by decide
  have answers := answersOrdinals_iff (holdsModNames_namesModule short) 2
  refine ⟨answers.1.mpr (Or.inr ⟨le_rfl, ?_, ?_⟩), answers.2⟩
  · exact ⟨by decide, 5, by decide⟩
  · decide

set_option maxRecDepth 4000 in
/-- Behind the last name the search goes on, and a name with 128 bytes leads it
in front of the table.  The ordinal zero makes the counter overflow. -/
theorem not_answersOrdinal_namesModule : ((namesModule [[0x41]]).getImpModName 2 = .ok 2 ∧
      ¬ (namesModule [[0x41]]).AnswersOrdinal [[0x41]] 2) ∧
    ((namesModule [List.replicate 128 0x41, [0x42]]).getImpModName 2 = .ok (-127) ∧
      ¬ (namesModule [List.replicate 128 0x41, [0x42]]).AnswersOrdinal
        [List.replicate 128 0x41, [0x42]] 2) ∧
    ¬ (namesModule [[0x41]]).AnswersOrdinal [[0x41]] 0 := by
  have beyond : (namesModule [[0x41]]).getImpModName 2 = .ok 2 := by decide
  have long : (namesModule [List.replicate 128 0x41, [0x42]]).getImpModName 2 =
      .ok (-127) := by decide
  refine ⟨⟨beyond, ?_⟩, ⟨long, ?_⟩, ?_⟩
  · exact not_answersOrdinal_of_outside (Or.inr (by decide))
  · intro answers
    simp only [LXModule.AnswersOrdinal, Nat.cast_ofNat, long] at answers
    exact absurd answers (by decide)
  · exact not_answersOrdinal_of_outside (Or.inl rfl)

end OsFree.Lx
