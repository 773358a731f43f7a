import OsFree.Machine.Run

/-!
# The sections of a module

A client asks the server for the sections of a module one after the other, with
an index that the server counts up, until the server returns an error.
-/

namespace OsFree.Exec

open Machine

variable {Section : Type}

/-- The loop over the list of sections: the count and the last section that it
has come to. -/
def sectLoop (bound : UInt32) : List Section → UInt32 → Option Section → UInt32 × Option Section
  | [], i, r => (i, r)
  | s :: next, i, r =>
    if i < bound then sectLoop bound next (i + 1) (some s) else (i, r)

/-- The section for an index and the next index, or none with an error. -/
def excGetSect (seclist : List Section) (index : UInt32) :
    Run (Option (Section × UInt32)) :=
  if seclist.isEmpty then .ok none
  else
    let (i, r) := sectLoop (index + 1) seclist 0 none
    if i < index then .ok none
    else match r with
      | none => .error .nullPointer
      | some sect => .ok (some (sect, index + 1))

/-- What becomes of a section: it is attached, its place is in use already, or
it cannot be attached. -/
inductive Attached where
  | attached
  | used
  | failed
  deriving DecidableEq

/-- What a client has seen of a module: the sections, and whether the server has
returned an error at the end. -/
structure Seen (Section : Type) where
  sections : List Section
  stopped : Bool
  deriving DecidableEq

/-- The loop of a client over the sections of a module.  After a place that is
in use the server is asked once more. -/
def attachModule (seclist : List Section) (attach : Section → Attached) :
    Nat → UInt32 → (used : Bool) → List Section → Option (Run (Seen Section))
  | 0, _, _, _ => none
  | fuel + 1, index, used, sections =>
    match excGetSect seclist index with
    | .error fault => some (.error fault)
    | .ok none => some (.ok { sections, stopped := true })
    | .ok (some (sect, index)) =>
      if used then some (.ok { sections, stopped := false })
      else match attach sect with
        | .attached =>
          attachModule seclist attach fuel index false (sections ++ [sect])
        | .used =>
          attachModule seclist attach fuel index true (sections ++ [sect])
        | .failed =>
          some (.ok { sections := sections ++ [sect], stopped := false })

/-- A client that attaches all sections that it gets sees each of them once, in
order, and is stopped by an error. -/
def SeesEachOnce (seclist : List Section) : Prop :=
  Settles (fun fuel => attachModule seclist (fun _ => .attached) fuel 0 false [])
    (.ok { sections := seclist, stopped := true })

/-- The sections that a client gets: up to the last index that can be counted,
and the last section once more. -/
def handedOut (seclist : List Section) : List Section :=
  if seclist.length < 4294967295 then seclist ++ seclist.getLast?.toList
  else seclist.take 4294967295

theorem toNat_succ {index : UInt32} (small : index.toNat < 4294967295) :
    (index + 1).toNat = index.toNat + 1 := by
  rw [UInt32.toNat_add, UInt32.toNat_one]
  exact Nat.mod_eq_of_lt (by omega)

theorem sectLoop_spec (bound : UInt32) (seclist : List Section) :
    ∀ (i : UInt32) (r : Option Section), i.toNat ≤ bound.toNat →
      (sectLoop bound seclist i r).1.toNat = i.toNat + min seclist.length (bound.toNat - i.toNat) ∧
        (sectLoop bound seclist i r).2 =
          (seclist.take (bound.toNat - i.toNat)).getLast?.or r := by
  induction seclist with
  | nil =>
    intro i r _
    simp [sectLoop]
  | cons s next ih =>
    intro i r within
    have bounded := bound.toNat_lt
    rw [sectLoop]
    split
    · rename_i below
      rw [UInt32.lt_iff_toNat_lt] at below
      have count : (i + 1).toNat = i.toNat + 1 := toNat_succ (by omega)
      obtain ⟨counted, last⟩ := ih (i + 1) (some s) (by omega)
      obtain ⟨rest, restEq⟩ : ∃ rest, bound.toNat - i.toNat = rest + 1 :=
        ⟨bound.toNat - i.toNat - 1, by omega⟩
      rw [counted, last, count,
        show bound.toNat - (i.toNat + 1) = rest by omega, restEq,
        List.length_cons, List.take_succ_cons, Nat.add_min_add_right,
        List.getLast?_cons]
      refine ⟨by omega, ?_⟩
      cases (next.take rest).getLast? with
      | none => rfl
      | some other => rfl
    · rename_i beyond
      rw [UInt32.lt_iff_toNat_lt] at beyond
      rw [show bound.toNat - i.toNat = 0 by omega]
      simp

section

variable {seclist : List Section} {index : UInt32}

theorem excGetSect_of_le {sect : Section}
    (small : index.toNat < 4294967295) (reached : index.toNat ≤ seclist.length)
    (last : (seclist.take (index.toNat + 1)).getLast? = some sect) :
    excGetSect seclist index = .ok (some (sect, index + 1)) := by
  have nonempty : seclist.isEmpty = false := by
    cases seclist with
    | nil => simp at last
    | cons first rest => rfl
  obtain ⟨counted, ended⟩ := sectLoop_spec (index + 1) seclist 0 none (by simp)
  rw [UInt32.toNat_zero, Nat.sub_zero, toNat_succ small] at counted ended
  have inside : ¬ (sectLoop (index + 1) seclist 0 none).1 < index := by
    rw [UInt32.lt_iff_toNat_lt, counted]
    omega
  rw [last, Option.some_or] at ended
  rw [excGetSect, nonempty, if_neg (by decide)]
  simp only [inside, if_false, ended]

theorem excGetSect_eq_none (behind : seclist = [] ∨ seclist.length < index.toNat ∨
      index.toNat = 4294967295) : excGetSect seclist index = .ok none := by
  rw [excGetSect]
  rcases behind with rfl | behind
  · rfl
  · split
    · rfl
    · obtain ⟨counted, -⟩ := sectLoop_spec (index + 1) seclist 0 none (by simp)
      have bound : (index + 1).toNat = (index.toNat + 1) % 4294967296 := by
        rw [UInt32.toNat_add, UInt32.toNat_one]
      have beyond : (sectLoop (index + 1) seclist 0 none).1 < index := by
        rw [UInt32.lt_iff_toNat_lt, counted, bound, UInt32.toNat_zero]
        omega
      simp only [beyond, if_true]

end

section

variable {seclist : List Section} {index : UInt32} {sect : Section}

theorem attachModule_settles_of_some {sections : List Section} {seen : Seen Section}
    (got : excGetSect seclist index = .ok (some (sect, index + 1)))
    (rest : Settles (fun fuel => attachModule seclist (fun _ => .attached) fuel
      (index + 1) false (sections ++ [sect])) (.ok seen)) :
    Settles (fun fuel => attachModule seclist (fun _ => .attached) fuel index
      false sections) (.ok seen) := by
  refine Settles.succ rfl (fun fuel => ?_) rest
  rw [attachModule, got]
  rfl

theorem attachModule_settles_of_none {sections : List Section}
    (stopped : excGetSect seclist index = .ok none) :
    Settles (fun fuel => attachModule seclist (fun _ => .attached) fuel index
      false sections) (.ok { sections, stopped := true }) := by
  refine Settles.succ rfl (fun fuel => ?_) (Settles.const _)
  rw [attachModule, stopped]

end

theorem attachModule_settles (seclist : List Section) (left : Nat) : ∀ (index : UInt32),
      index.toNat + left = min seclist.length 4294967295 →
        Settles (fun fuel => attachModule seclist (fun _ => .attached) fuel
            index false (seclist.take index.toNat))
          (.ok { sections := handedOut seclist, stopped := true }) := by
  induction left with
  | zero =>
    intro index ended
    unfold handedOut
    split
    · rename_i few
      have here : index.toNat = seclist.length := by omega
      have all : seclist.take index.toNat = seclist :=
        List.take_of_length_le (Nat.le_of_eq here.symm)
      rw [all]
      cases last : seclist.getLast? with
      | none =>
        rw [Option.toList_none, List.append_nil]
        exact attachModule_settles_of_none
          (excGetSect_eq_none (Or.inl (List.getLast?_eq_none_iff.mp last)))
      | some sect =>
        have small : index.toNat < 4294967295 := by omega
        refine attachModule_settles_of_some (excGetSect_of_le small (Nat.le_of_eq here) ?_)
          (attachModule_settles_of_none (excGetSect_eq_none ?_))
        · rw [List.take_of_length_le (by omega), last]
        · rw [toNat_succ small]
          omega
    · rename_i many
      rw [show index.toNat = 4294967295 by omega]
      exact attachModule_settles_of_none (excGetSect_eq_none (by omega))
  | succ left ih =>
    intro index before
    have small : index.toNat < 4294967295 := by omega
    have within : index.toNat < seclist.length := by omega
    have taken : seclist.take (index.toNat + 1) =
        seclist.take index.toNat ++ [seclist[index.toNat]] :=
      List.take_append_getElem within |>.symm
    have rest := ih (index + 1) (by
      rw [toNat_succ small]
      omega)
    rw [toNat_succ small, taken] at rest
    refine attachModule_settles_of_some (excGetSect_of_le small (Nat.le_of_lt within) ?_) rest
    rw [taken, List.getLast?_concat]

/-- The client sees each section once exactly when there is none; only with
as many sections as indices it would be stopped in time. -/
theorem seesEachOnce_iff {seclist : List Section} : SeesEachOnce seclist ↔
      seclist.length = 0 ∨ seclist.length = 4294967295 := by
  have settles := attachModule_settles seclist (min seclist.length 4294967295) 0 (Nat.zero_add _)
  have sees : SeesEachOnce seclist ↔ handedOut seclist = seclist := by
    constructor
    · intro sees
      obtain ⟨enough, returns⟩ := settles.returns
      have same := sees.returned enough _ (returns enough le_rfl)
      rw [Except.ok.injEq, Seen.mk.injEq] at same
      exact same.1
    · intro same
      rw [same] at settles
      exact settles
  rw [sees, handedOut]
  split
  · rename_i few
    have nothing : seclist ++ seclist.getLast?.toList = seclist ↔
        seclist.length = 0 := by
      rw [List.append_right_eq_self, Option.toList_eq_nil_iff,
        List.getLast?_eq_none_iff, List.length_eq_zero_iff]
    rw [nothing]
    omega
  · rename_i many
    constructor
    · intro same
      have length := congrArg List.length same
      rw [List.length_take] at length
      omega
    · intro count
      exact List.take_of_length_le (by omega)

/-- The second of two sections is seen twice. -/
theorem not_seesEachOnce_two : attachModule [1, 2] (fun _ => .attached) 4 0 false [] =
        some (.ok { sections := [1, 2, 2], stopped := true }) ∧
      ¬ SeesEachOnce [1, 2] := by
  have seen : attachModule [1, 2] (fun _ => .attached) 4 0 false [] =
      some (.ok { sections := [1, 2, 2], stopped := true }) := by decide
  refine ⟨seen, fun sees => ?_⟩
  have same := sees.returned 4 _ seen
  cases same

end OsFree.Exec
