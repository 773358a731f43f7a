import OsFree.Compat.Pieces

/-!
# The first directory that has a module

A search of LIBPATH returns with the first directory that has the module.
-/

namespace OsFree.Compat

open Machine

section

variable {f : UInt8 → UInt8} {look : Look} {world : Tokenizer} {string : ℕ}
  {before rest : List UInt8} {list : Option Cursor}

theorem search_returns_iff (look : Look) {text : List UInt8} (buffer : List UInt8)
    (begins : list = some ⟨string, before.length⟩)
    (standing : world.strings string = before ++ (text ++ rest))
    (nonzero : ∀ c ∈ text, c ≠ 0) (ends : rest.getD 0 0 = 0)
    (nonzero' : ∀ c, c ≠ 0 → f c ≠ 0)
    (Q : UInt32 → List UInt8 → (ℕ → List UInt8) → Prop) :
    (∃ turns rc buffer' world',
      search f look list buffer turns world = some (.ok (rc, buffer', world')) ∧
        Q rc buffer' world'.strings) ↔
      ∃ buffer' code elements, lookAll f look (text.splitOn 0x3b) buffer =
            .ok (buffer', code, elements) ∧
          Q (code.getD 2) buffer' (world.withText string
            (before ++ ([0x3b].intercalate elements ++ rest))).strings := by
  subst begins
  obtain ⟨result, walk, comes⟩ := searchLoop_comes look buffer le_rfl standing nonzero ends nonzero'
  constructor
  · rintro ⟨turns, rc, buffer', world', returns, holds⟩
    rw [search, andThen_eq_ok_iff] at returns
    obtain ⟨value, walk', behind⟩ := returns
    cases searchLoop_unique walk walk'
    cases looked : lookAll f look (text.splitOn 0x3b) buffer with
    | error fault =>
      rw [looked] at comes
      cases comes
    | ok found =>
      obtain ⟨buffer'', code, elements⟩ := found
      rw [looked] at comes
      obtain ⟨last, equal, _, _, strings⟩ := comes
      cases equal
      refine ⟨buffer'', code, elements, rfl, ?_⟩
      rw [← strings]
      cases code <;> cases behind <;> exact holds
  · rintro ⟨buffer', code, elements, looked, holds⟩
    rw [looked] at comes
    obtain ⟨last, equal, _, _, strings⟩ := comes
    subst equal
    rw [← strings] at holds
    cases code with
    | none =>
      refine ⟨text.length + 2, 2, buffer', last.strTokRestore world.strTokSave, ?_, holds⟩
      rw [search, andThen_eq_ok_iff]
      exact ⟨_, walk, rfl⟩
    | some rc =>
      refine ⟨text.length + 2, rc, buffer', last, ?_, holds⟩
      rw [search, andThen_eq_ok_iff]
      exact ⟨_, walk, rfl⟩

end

/-- The directories of a list: its elements that are not empty. -/
def directories (text : List UInt8) : List (List UInt8) := (text.splitOn 0x3b).filter (· ≠ [])

/-- A name in a directory; a separator behind the directory is that in front of
the name. -/
def inDirectory (sep : UInt8) (dir name : List UInt8) : List UInt8 :=
  (if dir.getLast? = some sep then dir.dropLast else dir) ++ sep :: name

/-- The path of a module in a directory of LIBPATH, which is given with the
separators of OS/2. -/
def pathIn (linux : Bool) (name dir : List UInt8) : List UInt8 :=
  inDirectory (hostsep linux) (dir.map (toHost linux)) name

/-- The path in the first directory that has the module. -/
def firstPath (linux : Bool) (loads : List UInt8 → Bool) (name : List UInt8)
    (dirs : List (List UInt8)) : Option (List UInt8) :=
  (dirs.map (pathIn linux name)).find? loads

/-- The directories up to the first one that has the module. -/
def upToFirst (linux : Bool) (loads : List UInt8 → Bool) (name : List UInt8) :
    List (List UInt8) → List (List UInt8)
  | [] => []
  | dir :: dirs =>
    dir :: if loads (pathIn linux name dir) then []
      else upToFirst linux loads name dirs

/-- A call for the LIBPATH in a string returns the path in the first directory
that has the module, or that there is none, and leaves LIBPATH unchanged. -/
def FindsModule (linux : Bool) (list : ℕ) (loads : List UInt8 → Bool)
    (name fullPathName : List UInt8) (world : Tokenizer) : Prop :=
  ∃ turns rc buffer world', findModulePath linux (some list) loads name fullPathName turns world =
        some (.ok (rc, buffer, world')) ∧
      (match firstPath linux loads name (directories (world.textAt ⟨list, 0⟩)) with
        | some path => rc = 0 ∧ buffer = path
        | none => rc = 2) ∧
      world'.strings = world.strings

/-- If there is a directory to look at, the name fits the array it is copied to;
and no directory that is looked at has a separator to replace. -/
def FitsSearch (linux : Bool) (list : ℕ) (loads : List UInt8 → Bool)
    (name : List UInt8) (world : Tokenizer) : Prop :=
  let dirs := directories (world.textAt ⟨list, 0⟩)
  (dirs = [] ∨ name.length < 251) ∧
    (linux = true → ∀ dir ∈ upToFirst linux loads name dirs, backslash ∉ dir)

section

variable {linux : Bool} {loads : List UInt8 → Bool} {name dir : List UInt8}
  {elements elements' : List (List UInt8)} {buffer : List UInt8}

theorem modulePath_eq_inDirectory (linux : Bool) (dir name : List UInt8) :
    modulePath linux dir name = inDirectory (hostsep linux) dir name := by
  unfold modulePath inDirectory
  by_cases ends : dir.getLast? = some (hostsep linux)
  · rw [if_pos ends, if_pos ends]
    obtain ⟨front, rfl⟩ := List.getLast?_eq_some_iff.mp ends
    simp
  · rw [if_neg ends, if_neg ends]
    simp

theorem lookAll_module (linux : Bool) (loads : List UInt8 → Bool)
    (elements : List (List UInt8)) (fits : name.length < 251)
    (buffer : List UInt8) :
    ∃ buffer' code elements', lookAll (toHost linux) (lookModule linux loads name)
        elements buffer = .ok (buffer', code, elements') ∧
      (match firstPath linux loads name (elements.filter (· ≠ [])) with
        | some path => code = some 0 ∧ buffer' = path
        | none => code = none) ∧
      (elements' = elements ↔ linux = true →
        ∀ dir ∈ upToFirst linux loads name (elements.filter (· ≠ [])), backslash ∉ dir) ∧
      ∀ p ∈ elements', ∃ q ∈ elements, p = q ∨ p = q.map (toHost linux) := by
  induction elements generalizing buffer with
  | nil =>
    refine ⟨buffer, none, [], rfl, rfl, ?_, fun _ mem => by cases mem⟩
    simp [upToFirst]
  | cons p elements ih =>
    by_cases empty : p = []
    · subst empty
      obtain ⟨buffer', code, elements', looked, result, same, from'⟩ := ih buffer
      refine ⟨buffer', code, [] :: elements', ?_, ?_, ?_, ?_⟩
      · rw [lookAll, if_pos rfl, looked]
        rfl
      · simpa using result
      · simpa using same
      · intro p mem
        cases List.mem_cons.mp mem with
        | inl equal => exact ⟨[], List.mem_cons_self, .inl equal⟩
        | inr mem =>
          obtain ⟨q, mem, equal⟩ := from' p mem
          exact ⟨q, List.mem_cons_of_mem _ mem, equal⟩
    · have kept : (p :: elements).filter (· ≠ []) = p :: elements.filter (· ≠ []) :=
        List.filter_cons_of_pos (decide_eq_true empty)
      have looked : lookModule linux loads name (p.map (toHost linux)) = .ok (pathIn linux name p,
            if loads (pathIn linux name p) then some 0 else none) := by
        rw [lookModule, if_pos fits, modulePath_eq_inDirectory]
        rfl
      rw [kept]
      by_cases found : loads (pathIn linux name p) = true
      · refine ⟨pathIn linux name p, some 0, p.map (toHost linux) :: elements, ?_, ?_, ?_, ?_⟩
        · rw [lookAll, if_neg empty, looked, if_pos found]
        · rw [firstPath, List.map_cons, List.find?_cons_of_pos found]
          exact ⟨rfl, rfl⟩
        · rw [upToFirst, if_pos found, List.cons.injEq, map_toHost_iff]
          simp
        · intro q mem
          cases List.mem_cons.mp mem with
          | inl equal => exact ⟨p, List.mem_cons_self, .inr equal⟩
          | inr mem => exact ⟨q, List.mem_cons_of_mem _ mem, .inl rfl⟩
      · obtain ⟨buffer', code, elements', looked', result, same, from'⟩ := ih (pathIn linux name p)
        refine ⟨buffer', code, p.map (toHost linux) :: elements', ?_, ?_, ?_, ?_⟩
        · rw [lookAll, if_neg empty, looked, if_neg found]
          simp only [looked', behindElement]
        · rw [firstPath, List.map_cons, List.find?_cons_of_neg found]
          exact result
        · rw [upToFirst, if_neg found, List.cons.injEq, map_toHost_iff, same]
          simp only [List.forall_mem_cons]
          exact imp_and.symm
        · intro q mem
          cases List.mem_cons.mp mem with
          | inl equal => exact ⟨p, List.mem_cons_self, .inr equal⟩
          | inr mem =>
            obtain ⟨q', mem, equal⟩ := from' q mem
            exact ⟨q', List.mem_cons_of_mem _ mem, equal⟩

theorem lookAll_of_long (linux : Bool) (loads : List UInt8 → Bool)
    (buffer : List UInt8) (long : ¬ name.length < 251)
    (some_directory : elements.filter (· ≠ []) ≠ []) :
    lookAll (toHost linux) (lookModule linux loads name) elements buffer =
      .error .writeOutside := by
  induction elements with
  | nil => exact absurd rfl some_directory
  | cons p elements ih =>
    rw [lookAll]
    by_cases empty : p = []
    · subst empty
      rw [if_pos rfl, ih (by simpa using some_directory)]
      rfl
    · rw [if_neg empty, lookModule, if_neg long]

theorem lookAll_of_empty (linux : Bool) (loads : List UInt8 → Bool)
    (name buffer : List UInt8) (none : elements.filter (· ≠ []) = []) :
    lookAll (toHost linux) (lookModule linux loads name) elements buffer =
      .ok (buffer, .none, elements) := by
  induction elements with
  | nil => rfl
  | cons p elements ih =>
    by_cases empty : p = []
    · subst empty
      rw [lookAll, if_pos rfl, ih (by simpa using none)]
      rfl
    · simp [empty] at none

theorem strings_eq_iff {world : Tokenizer} {list : ℕ} {text rest : List UInt8}
    (standing : world.strings list = [] ++ (text ++ rest))
    (some_element : elements ≠ []) (single : ∀ p ∈ elements, (0x3b : UInt8) ∉ p) :
    (world.withText list ([] ++ ([0x3b].intercalate elements ++ rest))).strings = world.strings ↔
      elements = text.splitOn 0x3b := by
  constructor
  · intro same
    have there := congrFun same list
    rw [Tokenizer.withText_strings_self, standing] at there
    have equal := List.append_cancel_right (List.append_cancel_left there)
    rw [← equal, List.splitOn_intercalate _ single some_element]
  · intro equal
    subst equal
    rw [List.intercalate_splitOn]
    exact withText_same standing rfl

/-- An element has no semicolon. -/
theorem not_mem_of_mem_splitOn {text p : List UInt8}
    (mem : p ∈ text.splitOn 0x3b) : (0x3b : UInt8) ∉ p := by
  induction text generalizing p with
  | nil =>
    rw [List.splitOn_nil, List.mem_singleton] at mem
    subst mem
    exact List.not_mem_nil
  | cons c text ih =>
    rw [List.splitOn_cons_eq_if_modifyHead] at mem
    split at mem
    · cases List.mem_cons.mp mem with
      | inl empty =>
        subst empty
        exact List.not_mem_nil
      | inr mem => exact ih mem
    · rename_i different
      match found : text.splitOn 0x3b with
      | [] => exact absurd found (List.splitOn_ne_nil _ _)
      | first :: others =>
        rw [found, List.modifyHead_cons] at mem
        rw [found] at ih
        cases List.mem_cons.mp mem with
        | inl equal =>
          subst equal
          rw [List.mem_cons, not_or]
          refine ⟨?_, ih List.mem_cons_self⟩
          intro same
          exact different (beq_iff_eq.mpr same.symm)
        | inr mem =>
          exact ih (List.mem_cons_of_mem _ mem)

theorem single_of_element {text p : List UInt8}
    (from' : ∃ q ∈ text.splitOn 0x3b, p = q ∨ p = q.map (toHost linux)) :
    (0x3b : UInt8) ∉ p := by
  obtain ⟨q, mem, equal⟩ := from'
  have without : (0x3b : UInt8) ∉ q := not_mem_of_mem_splitOn mem
  rcases equal with rfl | rfl
  · exact without
  · intro inside
    obtain ⟨c, mem, equal⟩ := List.mem_map.mp inside
    have same : c = 0x3b := by
      unfold toHost at equal
      split at equal
      · cases linux <;> cases equal
      · exact equal
    exact without (same ▸ mem)

theorem findsModule_iff_looked (linux : Bool) (list : ℕ)
    (loads : List UInt8 → Bool) (name fullPathName : List UInt8)
    (world : Tokenizer) :
    FindsModule linux list loads name fullPathName world ↔ ∃ buffer code elements,
        lookAll (toHost linux) (lookModule linux loads name)
            ((world.textAt ⟨list, 0⟩).splitOn 0x3b) fullPathName =
          .ok (buffer, code, elements) ∧
        (match firstPath linux loads name (directories (world.textAt ⟨list, 0⟩)) with
          | some path => code.getD 2 = 0 ∧ buffer = path
          | none => code.getD 2 = 2) ∧
        (world.withText list ([] ++ ([0x3b].intercalate elements ++
          (world.strings list).dropWhile (· ≠ 0)))).strings = world.strings := by
  have standing : world.strings list = [] ++ (world.textAt ⟨list, 0⟩ ++
      (world.strings list).dropWhile (· ≠ 0)) :=
    cString_append (world.strings list)
  exact search_returns_iff (lookModule linux loads name) fullPathName rfl standing
    (fun _ mem => cString_ne_zero mem) (getD_dropWhile _)
    (fun _ nonzero => toHost_ne_zero nonzero)
    (fun rc buffer strings =>
      (match firstPath linux loads name (directories (world.textAt ⟨list, 0⟩)) with
        | some path => rc = 0 ∧ buffer = path
        | none => rc = 2) ∧ strings = world.strings)

/-- The module is found as it should be exactly if its name fits the array it is
copied to, and there is no separator to replace. -/
theorem findsModule_iff (linux : Bool) (list : ℕ) (loads : List UInt8 → Bool)
    (name fullPathName : List UInt8) (world : Tokenizer) :
    FindsModule linux list loads name fullPathName world ↔
      FitsSearch linux list loads name world := by
  have standing : world.strings list = [] ++ (world.textAt ⟨list, 0⟩ ++
      (world.strings list).dropWhile (· ≠ 0)) :=
    cString_append (world.strings list)
  refine (findsModule_iff_looked ..).trans ?_
  unfold FitsSearch directories
  by_cases fits : name.length < 251
  · obtain ⟨buffer, code, elements, looked, result, same, from'⟩ :=
      lookAll_module linux loads ((world.textAt ⟨list, 0⟩).splitOn 0x3b) fits fullPathName
    have some_element : elements ≠ [] := by
      intro empty
      have length := length_of_lookAll looked
      rw [empty, List.length_nil, eq_comm, List.length_eq_zero_iff] at length
      exact List.splitOn_ne_nil 0x3b _ length
    have strings := strings_eq_iff standing some_element
      fun p mem => single_of_element (from' p mem)
    constructor
    · intro ⟨_, _, _, returns, _, unchanged⟩
      cases looked.symm.trans returns
      exact ⟨.inr fits, same.mp (strings.mp unchanged)⟩
    · intro ⟨_, without⟩
      refine ⟨buffer, code, elements, looked, ?_, strings.mpr (same.mpr without)⟩
      revert result
      match firstPath linux loads name
          (((world.textAt ⟨list, 0⟩).splitOn 0x3b).filter (· ≠ [])) with
      | some path =>
        intro ⟨found, path⟩
        subst found
        exact ⟨rfl, path⟩
      | none =>
        intro missing
        subst missing
        rfl
  · by_cases none : ((world.textAt ⟨list, 0⟩).splitOn 0x3b).filter (· ≠ []) = []
    · have looked := lookAll_of_empty linux loads name fullPathName none
      have strings := withText_same standing rfl
      rw [none]
      refine iff_of_true ⟨_, _, _, looked, ⟨rfl, ?_⟩⟩ ⟨.inl rfl, ?_⟩
      · rw [List.intercalate_splitOn, strings]
      · exact fun _ _ mem => absurd mem List.not_mem_nil
    · have looked := lookAll_of_long linux loads fullPathName fits none
      refine iff_of_false ?_ ?_
      · intro ⟨_, _, _, returns, _⟩
        rw [looked] at returns
        cases returns
      · intro ⟨short, _⟩
        exact short.elim none fits

/-- A name of 251 characters runs over the end of its array in the first
directory; and where the host has another separator, that of the directory is
replaced in LIBPATH. -/
theorem overrun_not_findsModule : ¬ FindsModule false 0 (fun _ => true) (List.replicate 251 0x41) []
        ⟨fun _ => [0x61], none, 0⟩ ∧
      ¬ FindsModule true 0 (fun _ => true) [0x41] []
        ⟨fun _ => [0x5c, 0x61], none, 0⟩ := by
  constructor
  · rw [findsModule_iff_looked]
    intro ⟨_, _, _, returns, _⟩
    have long : ¬ (List.replicate 251 (0x41 : UInt8)).length < 251 := by
      rw [List.length_replicate]
      decide
    have looked := @lookAll_of_long _ [[0x61]] false (fun _ => true) [] long (by decide)
    exact nomatch looked.symm.trans returns
  · rw [findsModule_iff_looked]
    intro ⟨buffer, code, elements, returns, _, unchanged⟩
    have looked : lookAll (toHost true) (lookModule true (fun _ => true) [0x41]) [[0x5c, 0x61]] [] =
        .ok ([0x2f, 0x61, 0x2f, 0x41], some 0, [[0x2f, 0x61]]) := by decide
    cases looked.symm.trans returns
    have there := congrFun unchanged 0
    exact absurd there (by decide)

end

end OsFree.Compat
