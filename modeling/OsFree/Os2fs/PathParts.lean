import Mathlib.Data.List.DropRight
import OsFree.Modmgr.Record
import OsFree.Os2fs.Mounts

/-!
# The parts of a path

A path is taken apart by independent scans: the drive by its second character,
directory and name by the last backslash, and the extension of a module by the
last dot.
-/

namespace OsFree.Os2fs

open Compat (backslash)
open Modmgr (getFname)

/-- The path has a drive. -/
def HasDrive (path : List UInt8) : Prop := path[1]? = some 0x3a

instance (path : List UInt8) : Decidable (HasDrive path) := inferInstanceAs (Decidable (_ = _))

/-- What is behind the last backslash. -/
def finalComponent (path : List UInt8) : List UInt8 := path.rtakeWhile (· ≠ backslash)

/-- Drive, directory and name one after the other; a character 0 is no drive,
and a null pointer no directory. -/
def rejoin (drv : UInt8) (directory : Option (List UInt8)) (name : List UInt8) :
    List UInt8 :=
  (if drv = 0 then [] else [drv, 0x3a]) ++ directory.getD [] ++ name

/-- The parts of a path give it back, the name has no separator, and only the
extension of the final component is removed. -/
structure SplitsPath (path : List UInt8) : Prop where
  rejoins : ∃ drv, getDrv path = .ok drv ∧ rejoin drv (getDirectory path) (getName path) = path
  plain : backslash ∉ getName path
  extension : ∃ ext, path = getFname path ++ ext ∧ backslash ∉ ext ∧
    (ext = [] ∧ 0x2e ∉ finalComponent path ∨ ∃ letters, ext = 0x2e :: letters ∧ 0x2e ∉ letters)

/-- The path is not empty; with a drive it has a backslash behind it, and without
one it is not a file of the root; and the last dot is in the final component, if
there are any. -/
structure SplitFits (path : List UInt8) : Prop where
  given : path ≠ []
  directory : HasDrive path → backslash ∈ path.drop 2
  notRoot : ¬ HasDrive path → path.head? = some backslash → backslash ∈ path.tail
  dot : 0x2e ∈ path → 0x2e ∈ finalComponent path

section

variable {path front name : List UInt8} {c : UInt8}

theorem last_cases (c : UInt8) (path : List UInt8) :
    c ∉ path ∨ ∃ front name, path = front ++ c :: name ∧ c ∉ name := by
  by_cases mem : c ∈ path
  · obtain ⟨before, behind, split, none⟩ := List.eq_append_cons_of_mem (List.mem_reverse.mpr mem)
    refine .inr ⟨behind.reverse, before.reverse, ?_, by simpa using none⟩
    rw [← List.reverse_reverse path, split]
    simp
  · exact .inl mem

theorem lastBackslash_append {s : ℕ} (behind : s ≤ front.length) (plain : backslash ∉ name) :
    lastBackslash (front ++ backslash :: name) s = front.length := by
  have length : (front ++ backslash :: name).length =
      front.length + 1 + name.length := by
    rw [List.length_append, List.length_cons]
    omega
  have later : ((List.range name.length).map (front.length + 1 + ·)).filter
      (fun i => s ≤ i ∧ (front ++ backslash :: name)[i]? = some backslash) = [] := by
    apply List.filter_eq_nil_iff.mpr
    intro i mem found
    obtain ⟨k, _, rfl⟩ := List.mem_map.mp mem
    have there : (front ++ backslash :: name)[front.length + 1 + k]? =
        name[k]? := by
      rw [Nat.add_assoc, Nat.add_comm 1 k, List.getElem?_append_right
        (Nat.le_add_right ..), Nat.add_sub_cancel_left, List.getElem?_cons_succ]
    rw [there] at found
    exact plain (List.mem_of_getElem? (decide_eq_true_iff.mp found).2)
  have here : [front.length].filter (fun i => s ≤ i ∧
      (front ++ backslash :: name)[i]? = some backslash) = [front.length] := by
    simp [behind]
  rw [lastBackslash, length, List.range_add, List.filter_append, later,
    List.append_nil, List.range_succ, List.filter_append, here,
    List.getLastD_concat]

theorem lastBackslash_of_none {s : ℕ} (none : backslash ∉ path.drop s) :
    lastBackslash path s = 0 := by
  have nowhere : (List.range path.length).filter
      (fun i => s ≤ i ∧ path[i]? = some backslash) = [] := by
    apply List.filter_eq_nil_iff.mpr
    intro i _ found
    obtain ⟨later, there⟩ := decide_eq_true_iff.mp found
    apply none
    apply List.mem_of_getElem? (i := i - s)
    rw [List.getElem?_drop, Nat.add_sub_cancel' later, there]
  rw [lastBackslash, nowhere]
  rfl

theorem finalComponent_append (plain : backslash ∉ name) :
    finalComponent (front ++ backslash :: name) = name := by
  have behind : (front ++ backslash :: name).reverse =
      name.reverse ++ backslash :: front.reverse := by simp
  rw [finalComponent, List.rtakeWhile, behind, List.takeWhile_append_of_pos]
  · simp
  · intro c mem
    exact decide_eq_true (ne_of_mem_of_not_mem (List.mem_reverse.mp mem) plain)

theorem finalComponent_of_none (none : backslash ∉ path) :
    finalComponent path = path := by
  apply List.rtakeWhile_eq_self_iff.mpr
  exact fun c mem => decide_eq_true (ne_of_mem_of_not_mem mem none)

theorem getName_eq (path : List UInt8) : getName path = finalComponent path := by
  rcases last_cases backslash path with none | ⟨front, name, rfl, plain⟩
  · rw [getName, if_neg none, finalComponent_of_none none]
  · rw [getName, if_pos (by simp), lastBackslash_append (Nat.zero_le _) plain,
      finalComponent_append plain]
    simp

theorem not_mem_finalComponent (path : List UInt8) :
    backslash ∉ finalComponent path := by
  intro mem
  simpa using List.mem_rtakeWhile_imp mem

theorem getDrv_of_drive {drv : UInt8} (rest : List UInt8) :
    getDrv (drv :: 0x3a :: rest) = .ok drv := rfl

theorem getDrv_of_none (given : path ≠ []) (none : ¬ HasDrive path) :
    getDrv path = .ok 0 := by
  match path, given with
  | [_], _ => rfl
  | drv :: c :: rest, _ =>
    have different : c ≠ 0x3a := fun same => none (congrArg some same)
    unfold getDrv
    split
    · rename_i same
      cases same
    · rename_i same
      exact absurd (List.cons.inj (List.cons.inj same).2).1 different
    · rfl

/-- The place behind the drive. -/
def behindDrive (path : List UInt8) : ℕ := if HasDrive path then 2 else 0

theorem getDirectory_eq (path : List UInt8) : getDirectory path =
      if lastBackslash path (behindDrive path) = 0 then none
      else some ((path.drop (behindDrive path)).take
        (lastBackslash path (behindDrive path) - behindDrive path + 1)) := rfl

theorem getDirectory_append (given : front ≠ [])
    (behind : behindDrive (front ++ backslash :: name) ≤ front.length)
    (plain : backslash ∉ name) :
    getDirectory (front ++ backslash :: name) = some
      (front.drop (behindDrive (front ++ backslash :: name)) ++ [backslash]) := by
  have last := lastBackslash_append behind plain
  have some_front : front.length ≠ 0 := List.length_pos_iff.mpr given |>.ne'
  rw [getDirectory_eq, last, if_neg some_front, List.drop_append_of_le_length behind,
    ← List.length_drop, List.take_append, List.take_of_length_le (by omega),
    Nat.add_sub_cancel_left]
  rfl

theorem getDirectory_of_none (none : backslash ∉ path.drop (behindDrive path)) :
    getDirectory path = .none := by
  rw [getDirectory_eq, lastBackslash_of_none none, if_pos rfl]

theorem rejoin_of_drive {drv : UInt8} {rest : List UInt8} (nonzero : drv ≠ 0) :
    rejoin drv (getDirectory (drv :: 0x3a :: rest))
        (getName (drv :: 0x3a :: rest)) = drv :: 0x3a :: rest ↔
      backslash ∈ rest := by
  rw [rejoin, if_neg nonzero, getName_eq]
  rcases last_cases backslash rest with none | ⟨front, name, rfl, plain⟩
  · refine iff_of_false ?_ none
    rw [show getDirectory (drv :: 0x3a :: rest) = .none from getDirectory_of_none none]
    intro equal
    have whole : [drv, 0x3a] ++ finalComponent (drv :: 0x3a :: rest) =
        [drv, 0x3a] ++ rest := equal
    have name := List.append_cancel_left whole
    by_cases slash : drv = backslash
    · subst slash
      have behind : backslash ∉ 0x3a :: rest := by
        rw [List.mem_cons, not_or]
        exact ⟨by decide, none⟩
      rw [show backslash :: 0x3a :: rest = [] ++ backslash :: 0x3a :: rest from rfl,
        finalComponent_append behind] at name
      exact absurd (congrArg List.length name) (by simp)
    · have nowhere : backslash ∉ drv :: 0x3a :: rest := by
        rw [List.mem_cons, List.mem_cons, not_or, not_or]
        exact ⟨Ne.symm slash, by decide, none⟩
      rw [finalComponent_of_none nowhere] at name
      have length := congrArg List.length name
      simp only [List.length_cons] at length
      omega
  · refine iff_of_true ?_ (by simp)
    have whole : drv :: 0x3a :: (front ++ backslash :: name) =
        (drv :: 0x3a :: front) ++ backslash :: name := rfl
    have two : behindDrive (drv :: 0x3a :: front ++ backslash :: name) = 2 := rfl
    rw [whole, finalComponent_append plain,
      getDirectory_append (List.cons_ne_nil _ _) (by rw [two]; simp) plain, two]
    simp

theorem rejoin_of_none (none : ¬ HasDrive path) :
    rejoin 0 (getDirectory path) (getName path) = path ↔
      (path.head? = some backslash → backslash ∈ path.tail) := by
  have start : behindDrive path = 0 := if_neg none
  rw [rejoin, if_pos rfl, getName_eq, List.nil_append]
  rcases last_cases backslash path with nowhere | ⟨front, name, rfl, plain⟩
  · have notHead : path.head? ≠ some backslash := fun head => nowhere (List.mem_of_mem_head? head)
    rw [finalComponent_of_none nowhere, getDirectory_of_none (by rw [start]; exact nowhere)]
    exact iff_of_true rfl (fun head => absurd head notHead)
  · rw [finalComponent_append plain]
    cases front with
    | nil =>
      refine iff_of_false ?_ (fun behind => plain (behind rfl))
      have last : lastBackslash ([] ++ backslash :: name) 0 = 0 := lastBackslash_append le_rfl plain
      rw [getDirectory_eq, start, last, if_pos rfl]
      intro equal
      exact absurd (congrArg List.length equal) (by simp)
    | cons c front =>
      refine iff_of_true ?_ (fun _ => by simp)
      rw [getDirectory_append (List.cons_ne_nil _ _) (by rw [start]; simp) plain, start]
      simp

theorem getFname_append {letters : List UInt8} (plain : 0x2e ∉ letters) :
    getFname (front ++ 0x2e :: letters) = front := by
  have behind : (front ++ 0x2e :: letters).reverse =
      letters.reverse ++ 0x2e :: front.reverse := by simp
  rw [getFname, if_pos (by simp), behind, List.dropWhile_append_of_pos]
  · simp
  · intro c mem
    exact decide_eq_true (ne_of_mem_of_not_mem (List.mem_reverse.mp mem) plain)

theorem mem_finalComponent_iff {letters : List UInt8} (plain : 0x2e ∉ letters) :
    0x2e ∈ finalComponent (front ++ 0x2e :: letters) ↔ backslash ∉ letters := by
  rcases last_cases backslash letters with none | ⟨middle, name, rfl, nowhere⟩
  · refine iff_of_true ?_ none
    have behind : backslash ∉ 0x2e :: letters := by
      rw [List.mem_cons, not_or]
      exact ⟨by decide, none⟩
    rcases last_cases backslash front with nowhere | ⟨before, name, rfl, nowhere⟩
    · rw [finalComponent_of_none (by
        rw [List.mem_append, not_or]
        exact ⟨nowhere, behind⟩)]
      simp
    · rw [List.append_assoc, List.cons_append, finalComponent_append (by
        rw [List.mem_append, not_or]
        exact ⟨nowhere, behind⟩)]
      simp
  · have shape : front ++ 0x2e :: (middle ++ backslash :: name) =
        (front ++ 0x2e :: middle) ++ backslash :: name := by simp
    rw [shape, finalComponent_append nowhere]
    refine iff_of_false ?_ (not_not.mpr (by simp))
    exact fun mem => plain (List.mem_append_right _ (List.mem_cons_of_mem _ mem))

theorem extension_iff (path : List UInt8) : (∃ ext, path = getFname path ++ ext ∧ backslash ∉ ext ∧
      (ext = [] ∧ 0x2e ∉ finalComponent path ∨ ∃ letters, ext = 0x2e :: letters ∧ 0x2e ∉ letters)) ↔
      (0x2e ∈ path → 0x2e ∈ finalComponent path) := by
  rcases last_cases 0x2e path with none | ⟨front, letters, rfl, plain⟩
  · refine iff_of_true ⟨[], ?_, List.not_mem_nil, .inl ⟨rfl, ?_⟩⟩ (fun mem => absurd mem none)
    · rw [Modmgr.getFname_of_no_dot none, List.append_nil]
    · exact fun mem => none ((List.rtakeWhile_suffix _ _).subset mem)
  · rw [getFname_append plain, mem_finalComponent_iff plain]
    constructor
    · intro ⟨ext, equal, nowhere, _⟩ _
      rw [← List.append_cancel_left equal, List.mem_cons, not_or] at nowhere
      exact nowhere.2
    · intro nowhere
      refine ⟨0x2e :: letters, rfl, ?_, .inr ⟨letters, rfl, plain⟩⟩
      rw [List.mem_cons, not_or]
      exact ⟨by decide, nowhere (by simp)⟩

/-- The parts of a path give it back, and its extension is removed, exactly if
the scans find the same final component. -/
theorem splitsPath_iff (path : List UInt8) (nonzero : 0 ∉ path) :
    SplitsPath path ↔ SplitFits path := by
  have plain : backslash ∉ getName path := by
    rw [getName_eq]
    exact not_mem_finalComponent path
  have extension := extension_iff path
  by_cases given : path = []
  · subst given
    refine iff_of_false ?_ (fun fits => fits.given rfl)
    intro splits
    obtain ⟨drv, found, _⟩ := splits.rejoins
    cases found
  have rejoins : (∃ drv, getDrv path = .ok drv ∧
      rejoin drv (getDirectory path) (getName path) = path) ↔
      (HasDrive path → backslash ∈ path.drop 2) ∧ (¬ HasDrive path → path.head? = some backslash →
          backslash ∈ path.tail) := by
    by_cases drive : HasDrive path
    · simp only [drive, true_implies, not_true_eq_false, false_implies, and_true]
      match path, drive with
      | drv :: _ :: rest, rfl =>
        have drive : drv ≠ 0 := fun zero => nonzero (zero ▸ List.mem_cons_self)
        have found := @rejoin_of_drive drv rest drive
        rw [getDrv_of_drive]
        simp only [Except.ok.injEq, exists_eq_left', found]
        rfl
    · simp only [drive, false_implies, not_false_eq_true, true_implies, true_and,
        getDrv_of_none given drive, Except.ok.injEq, exists_eq_left',
        rejoin_of_none drive]
  constructor
  · intro splits
    obtain ⟨directory, notRoot⟩ := rejoins.mp splits.rejoins
    exact ⟨given, directory, notRoot, extension.mp splits.extension⟩
  · intro fits
    exact ⟨rejoins.mpr ⟨fits.directory, fits.notRoot⟩, plain, extension.mpr fits.dot⟩

/-- The parts of `c:\a.b`. -/
theorem splitsPath_file : SplitsPath [0x63, 0x3a, 0x5c, 0x61, 0x2e, 0x62] :=
  (splitsPath_iff _ (by decide)).mpr ⟨by decide, by decide, by decide, by decide⟩

/-- A file of the root without a drive, a file of the current directory of a
drive, and a file without an extension in a directory with one. -/
theorem scans_differ : ¬ SplitsPath [0x5c, 0x61] ∧ ¬ SplitsPath [0x63, 0x3a, 0x61] ∧
      ¬ SplitsPath [0x61, 0x2e, 0x62, 0x5c, 0x63] := by
  refine ⟨fun splits => ?_, fun splits => ?_, fun splits => ?_⟩
  · obtain ⟨drv, found, rejoins⟩ := splits.rejoins
    cases found
    exact absurd rejoins (by decide)
  · obtain ⟨drv, found, rejoins⟩ := splits.rejoins
    cases found
    exact absurd rejoins (by decide)
  · obtain ⟨ext, equal, nowhere, _⟩ := splits.extension
    have name : getFname [0x61, 0x2e, 0x62, 0x5c, 0x63] = [0x61] := by decide
    have whole : [0x61] ++ [0x2e, 0x62, 0x5c, 0x63] = [0x61] ++ ext := name ▸ equal
    rw [← List.append_cancel_left whole] at nowhere
    exact nowhere (by decide)

end

end OsFree.Os2fs
