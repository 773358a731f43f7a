import OsFree.Doscalls.CopyTree
import OsFree.Modmgr.Record

/-!
# Searching the environment

`DosScanEnv` compares the part of an entry before its first equals sign with a name.  The
part is copied to a buffer first, as far as it fits there.
-/

namespace OsFree.Doscalls

open Machine
open Modmgr (Stricmp)

/-- '=' -/
def equals : UInt8 := 0x3d

/-- The scan of an entry up to an equals sign, of at most so many characters. -/
def scanName : Nat → List UInt8 → Run Nat
  | _, [] => .error .readOutside
  | limit, c :: q =>
    if c = 0 ∨ c = equals ∨ limit = 0 then .ok 0
    else (· + 1) <$> scanName (limit - 1) q

/-- The loop over the entries from a place of the environment on. -/
def scanEntries (pszName : List UInt8) : Nat → Nat → List UInt8 → Run (Option Nat)
  | 0, _, _ | _, _, [] => .error .readOutside
  | fuel + 1, place, c :: rest =>
    if c = 0 then .ok none
    else do
      let i ← scanName (CCHMAXPATH - 1) (c :: rest)
      let varname := (c :: rest).take i
      if Stricmp varname pszName then .ok (some (place + i + 1))
      else do
        let length ← strlen (c :: rest)
        scanEntries pszName fuel (place + length + 1) ((c :: rest).drop (length + 1))

/-- `DosScanEnv`: the place in the environment that `ppszValue` points to, and `none` with
`ERROR_ENVVAR_NOT_FOUND`.  Every entry takes bytes, so that their number is fuel enough. -/
def dosScanEnv (env pszName : List UInt8) : Run (Option Nat) := scanEntries pszName env.length 0 env

/-- The part of an entry before its first equals sign. -/
def keyOf (entry : List UInt8) : List UInt8 := entry.takeWhile (· != equals)

/-- The entry is a name and a value. -/
def Defines (name entry : List UInt8) : Prop := equals ∈ entry ∧ Stricmp (keyOf entry) name

/-- The part of the entry that is copied is the name. -/
def Takes (name entry : List UInt8) : Prop := Stricmp ((keyOf entry).take (CCHMAXPATH - 1)) name

instance (name entry : List UInt8) : Decidable (Defines name entry) :=
  inferInstanceAs (Decidable (_ ∧ _))

instance (name entry : List UInt8) : Decidable (Takes name entry) :=
  inferInstanceAs (Decidable (Stricmp _ _))

/-- The place behind the name of the first entry that is found, when the entries start at
a place. -/
def placeIn (found : List UInt8 → Bool) (width : List UInt8 → Nat) :
    Nat → List (List UInt8) → Option Nat
  | _, [] => none
  | place, entry :: rest =>
    if found entry then some (place + width entry + 1)
    else placeIn found width (place + entry.length + 1) rest

/-- The place of the value in the first entry with the name. -/
def valuePlace (name : List UInt8) (entries : List (List UInt8)) : Option Nat :=
  placeIn (fun entry => decide (Defines name entry)) (fun entry => (keyOf entry).length) 0 entries

/-- The value of the first entry with the name is found, and nothing behind the
environment is read. -/
def FindsValue (environment : StringList) (name : List UInt8) : Prop :=
  dosScanEnv environment.encode name = .ok (valuePlace name environment.strings)

/-- A name that is longer than the buffer is in no entry, and no entry before the first
one with the name is taken for it. -/
structure NamesClear (environment : StringList) (name : List UInt8) : Prop where
  short : CCHMAXPATH ≤ name.length → ∀ entry ∈ environment.strings, ¬ Defines name entry
  clear : ∀ before entry after, environment.strings = before ++ entry :: after →
    (∀ other ∈ before, ¬ Defines name other) → Takes name entry → Defines name entry

section

variable {name entry rest : List UInt8} {entries : List (List UInt8)} {place : Nat}

theorem Stricmp.length_eq {s t : List UInt8} (same : Stricmp s t) : s.length = t.length := by
  simpa using congrArg List.length same

theorem Defines.takes (defines : Defines name entry) (short : name.length < CCHMAXPATH) :
    Takes name entry := by
  rw [Takes, List.take_of_length_le]
  · exact defines.2
  · rw [Stricmp.length_eq defines.2]
    exact Nat.le_sub_one_of_lt short

theorem scanName_entry (nonzero : 0 ∉ entry) (limit : Nat) :
    scanName limit (entry ++ 0 :: rest) = .ok ((keyOf entry).take limit).length := by
  induction entry generalizing limit with
  | nil => simp [scanName, keyOf]
  | cons c entry ih =>
    rw [List.mem_cons, not_or] at nonzero
    rw [List.cons_append, scanName]
    by_cases sign : c = equals
    · rw [if_pos (.inr (.inl sign)), keyOf, List.takeWhile_cons_of_neg (by simp [sign]),
        List.take_nil]
      rfl
    have key : keyOf (c :: entry) = c :: keyOf entry := List.takeWhile_cons_of_pos (by simp [sign])
    cases limit with
    | zero => rw [if_pos (.inr (.inr rfl))]; rfl
    | succ limit =>
      rw [if_neg (by simp [Ne.symm nonzero.1, sign]), Nat.add_sub_cancel, ih nonzero.2, key]
      rfl

theorem placeIn_gt {found : List UInt8 → Bool} {width : List UInt8 → Nat} {value : Nat}
    (here : placeIn found width place entries = some value) : place < value := by
  induction entries generalizing place with
  | nil => cases here
  | cons entry entries ih =>
    rw [placeIn] at here
    split at here
    · injection here
      omega
    · have := ih here
      omega

theorem placeIn_eq_none_iff {found : List UInt8 → Bool} {width : List UInt8 → Nat} :
    placeIn found width place entries = none ↔ ∀ entry ∈ entries, ¬ found entry = true := by
  induction entries generalizing place with
  | nil => simp [placeIn]
  | cons entry entries ih =>
    rw [placeIn, List.forall_mem_cons]
    split
    · rename_i here
      simp [here]
    · rename_i none
      rw [ih]
      exact (and_iff_right none).symm

/-- Two searches, one of which finds all that the other one finds, agree if it finds nothing
else before. -/
theorem placeIn_eq_iff {takes defines : List UInt8 → Bool} {width width' : List UInt8 → Nat}
    (both : ∀ entry, defines entry = true → takes entry = true ∧ width entry = width' entry)
    (short : ∀ entry, width entry ≤ entry.length) :
    placeIn takes width place entries = placeIn defines width' place entries ↔
      ∀ before entry after, entries = before ++ entry :: after →
        (∀ other ∈ before, ¬ defines other = true) → takes entry = true →
          defines entry = true := by
  induction entries generalizing place with
  | nil => simp [placeIn]
  | cons first entries ih =>
    rw [placeIn, placeIn]
    by_cases defined : defines first = true
    · rw [if_pos (both first defined).1, if_pos defined, (both first defined).2]
      refine ⟨fun _ before entry after split none taken => ?_, fun _ => rfl⟩
      cases before with
      | nil =>
        obtain ⟨rfl, rfl⟩ := List.cons.inj split
        exact defined
      | cons other before =>
        obtain ⟨rfl, rfl⟩ := List.cons.inj split
        exact absurd defined (none first List.mem_cons_self)
    rw [if_neg defined]
    by_cases taken : takes first = true
    · rw [if_pos taken]
      refine ⟨fun same => ?_, fun clear => ?_⟩
      · have later := placeIn_gt same.symm
        have := short first
        omega
      · exact absurd (clear [] first entries rfl (fun _ none => (List.not_mem_nil none).elim)
          taken) defined
    · rw [if_neg taken, ih]
      refine ⟨fun clear before entry after split none => ?_,
        fun clear before entry after split none => ?_⟩
      · cases before with
        | nil =>
          obtain ⟨rfl, rfl⟩ := List.cons.inj split
          exact fun here => absurd here taken
        | cons other before =>
          obtain ⟨rfl, rfl⟩ := List.cons.inj split
          exact clear before entry after rfl fun other member =>
            none other (List.mem_cons_of_mem _ member)
      · exact clear (first :: before) entry after (by rw [split]; rfl)
          (List.forall_mem_cons.mpr ⟨defined, none⟩)

theorem scanEntries_encode (nonempty : ∀ entry ∈ entries, entry ≠ [])
    (nonzero : ∀ entry ∈ entries, 0 ∉ entry) {fuel : Nat}
    (enough : (encodeStrings entries).length ≤ fuel) :
    scanEntries name fuel place (encodeStrings entries) =
      .ok (placeIn (fun entry => decide (Takes name entry))
        (fun entry => ((keyOf entry).take (CCHMAXPATH - 1)).length) place entries) := by
  induction entries generalizing fuel place with
  | nil =>
    cases fuel with
    | zero => simp at enough
    | succ fuel => rfl
  | cons entry entries ih =>
    rw [encodeStrings_cons] at enough ⊢
    cases fuel with
    | zero => simp at enough
    | succ fuel =>
      obtain ⟨first, others⟩ := List.forall_mem_cons.mp nonzero
      obtain ⟨filled, nonempty⟩ := List.forall_mem_cons.mp nonempty
      have scanned := @scanName_entry entry (encodeStrings entries) first (CCHMAXPATH - 1)
      have length_eq := @strlen_of_ends entry (encodeStrings entries) first
      have varname : (entry ++ 0 :: encodeStrings entries).take
          ((keyOf entry).take (CCHMAXPATH - 1)).length =
            (keyOf entry).take (CCHMAXPATH - 1) :=
        (List.prefix_iff_eq_take.mp (((List.take_prefix ..).trans
          (List.takeWhile_prefix _)).trans (List.prefix_append ..))).symm
      have following : (entry ++ 0 :: encodeStrings entries).drop (entry.length + 1) =
          encodeStrings entries := by
        simp
      have further := @ih (place + entry.length + 1) nonempty others fuel (by simp at enough; omega)
      cases entry with
      | nil => exact absurd rfl filled
      | cons c rest =>
        have nonzero : c ≠ 0 := fun zero => first (zero ▸ List.mem_cons_self)
        rw [List.cons_append] at scanned varname length_eq following ⊢
        rw [scanEntries, if_neg nonzero, scanned, bind_ok]
        simp only [varname]
        rw [placeIn]
        by_cases taken : Stricmp ((keyOf (c :: rest)).take (CCHMAXPATH - 1)) name
        · rw [if_pos taken, if_pos (decide_eq_true (show Takes _ _ from taken))]
        · have untaken := mt of_decide_eq_true (show ¬ Takes _ _ from taken)
          rw [if_neg taken, if_neg untaken, length_eq, bind_ok, following, further]

end

/-- `A`, and `B=c`. -/
def bareEnvironment : StringList where
  strings := [[0x41], [0x42, equals, 0x63]]
  nonempty := by decide
  nonzero := by decide

end OsFree.Doscalls
