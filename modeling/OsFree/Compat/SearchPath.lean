import OsFree.Compat.FirstHit
import OsFree.Doscalls.ScanEnv

/-!
# The path of a file

`DosSearchPath` puts the path of a file in an element of the list together in the
buffer of the caller, where it is cut to the size of the buffer.  The list may be the
value of a variable of the environment.
-/

namespace OsFree.Compat

open Machine
open Doscalls (dosScanEnv Defines keyOf)

/-- What the pointer that `DosScanEnv` sets points to, and `none` if it is not set. -/
def scannedValue (environment : StringList) (name : List UInt8) :
    Option (List UInt8) := do
  let place ← (dosScanEnv environment.encode name).toOption.join
  (readString (environment.encode.drop place)).toOption

/-- The value of the first entry with a name. -/
def definedValue (environment : StringList) (name : List UInt8) :
    Option (List UInt8) :=
  (environment.strings.find? fun entry => decide (Defines name entry)).map
    fun entry => entry.drop ((keyOf entry).length + 1)

/-- The list that is searched: the value of a variable, or the string itself. -/
def givenList (flag : UInt32) (value : List UInt8 → Option (List UInt8))
    (pathOrName : List UInt8) : Option (List UInt8) :=
  if flag &&& 2 ≠ 0 then value pathOrName else some pathOrName

/-- The elements in the order of the search, with the current directory in front of
them or not. -/
def searchElements (flag : UInt32) (list : List UInt8) : List (List UInt8) :=
  (if flag &&& 1 ≠ 0 then [[0x2e]] else []) ++ directories list

/-- The directory of an element, where `.` is the current one. -/
def directoryOf (curdir p : List UInt8) : List UInt8 :=
  if p = [0x2e] then curdir else p

/-- The path of the file in the first directory that has it. -/
def firstFile (curdir : List UInt8) (opens : List UInt8 → Bool) (name : List UInt8)
    (elements : List (List UInt8)) : Option (List UInt8) :=
  (elements.map fun p => inDirectory backslash (directoryOf curdir p) name).find? opens

/-- The path of the file in an element, with a separator unless the element ends in
one, cut to the size of a buffer. -/
def cutPath (curdir : List UInt8) (cbBuf : ℕ) (p name : List UInt8) : List UInt8 :=
  ((if p.getLast? = some backslash then directoryOf curdir p
      else directoryOf curdir p ++ [backslash]) ++ name).take (cbBuf - 1)

/-- The first of the cut paths that can be opened. -/
def firstCut (curdir : List UInt8) (cbBuf : ℕ) (opens : List UInt8 → Bool)
    (name : List UInt8) (elements : List (List UInt8)) : Option (List UInt8) :=
  (elements.map fun p => cutPath curdir cbBuf p name).find? opens

/-- The arguments are refused. -/
def Refused (flag : UInt32) (pathOrName filename : List UInt8) (cbBuf : UInt32) : Prop :=
  (pathOrName = [] ∨ filename = [] ∨ cbBuf = 0) ∨ flag &&& ~~~(7 : UInt32) ≠ 0

instance (flag : UInt32) (pathOrName filename : List UInt8) (cbBuf : UInt32) :
    Decidable (Refused flag pathOrName filename cbBuf) :=
  inferInstanceAs (Decidable (_ ∨ _))

/-- The answer to a search: the path in the first directory that has the file, if it fits
the buffer, and otherwise ERROR_ENVVAR_NOT_FOUND (203), ERROR_FILE_NOT_FOUND (2) or
ERROR_BUFFER_OVERFLOW (111). -/
def Answers (flag : UInt32) (pathOrName filename : List UInt8) (cbBuf : UInt32)
    (environment : StringList) (curdir : List UInt8) (opens : List UInt8 → Bool)
    (rc : UInt32) (buffer : List UInt8) : Prop :=
  match givenList flag (definedValue environment) pathOrName with
  | none => rc = 203
  | some list =>
    match firstFile curdir opens filename (searchElements flag list) with
    | none => rc = 2
    | some file =>
      if file.length < cbBuf.toNat then rc = 0 ∧ buffer = file else rc = 111

/-- A call returns the answer, and no success if the arguments are refused. -/
def FindsPath (flag : UInt32) (pathOrName filename buf : List UInt8) (cbBuf : UInt32)
    (environment : StringList) (curdir : List UInt8) (path : ℕ)
    (opens : List UInt8 → Bool) (world : Tokenizer) : Prop :=
  ∃ turns rc buffer world', dosSearchPath ⟨flag, some pathOrName, some filename, some buf, cbBuf⟩
        (scannedValue environment) curdir path opens turns world =
      some (.ok (rc, buffer, world')) ∧
    if Refused flag pathOrName filename cbBuf then rc ≠ 0
    else Answers flag pathOrName filename cbBuf environment curdir opens rc buffer

/-- There is a list, and the first of the cut paths that can be opened is that in the
first directory that has the file. -/
def CutsRight (flag : UInt32) (pathOrName filename : List UInt8) (cbBuf : UInt32)
    (environment : StringList) (curdir : List UInt8) (opens : List UInt8 → Bool) : Prop :=
  ∃ found list, givenList flag (scannedValue environment) pathOrName = some found ∧
    givenList flag (definedValue environment) pathOrName = some list ∧
    firstCut curdir cbBuf.toNat opens filename (searchElements flag found) =
      firstFile curdir opens filename (searchElements flag list)

section

variable {curdir p name : List UInt8} {cbBuf : ℕ}

theorem strlcat_take {text src : List UInt8} (room : 0 < cbBuf) :
    strlcat (text.take (cbBuf - 1)) src cbBuf = (text ++ src).take (cbBuf - 1) := by
  rw [strlcat, if_neg (by rw [List.length_take]; omega), List.take_append, List.length_take]
  congr 2
  omega

theorem dosPath_eq_cutPath (room : 0 < cbBuf) (filled : p ≠ []) :
    dosPath curdir cbBuf p name = cutPath curdir cbBuf p name := by
  have dir : strlcat [] (directoryOf curdir p) cbBuf =
      (directoryOf curdir p).take (cbBuf - 1) := by
    have taken := @strlcat_take cbBuf [] (directoryOf curdir p) room
    rwa [List.take_nil, List.nil_append] at taken
  have whole : dosPath curdir cbBuf p name =
      ((if p.getD (strnlen p cbBuf - 1) 0 = backslash then directoryOf curdir p
        else directoryOf curdir p ++ [backslash]) ++ name).take (cbBuf - 1) := by
    have started : strlcat [] (if p = [0x2e] then curdir else p) cbBuf =
        (directoryOf curdir p).take (cbBuf - 1) := dir
    rw [dosPath, started]
    split
    · exact strlcat_take room
    · rw [strlcat_take room, strlcat_take room]
  rw [whole, cutPath]
  by_cases short : p.length ≤ cbBuf
  · have last : p.getD (strnlen p cbBuf - 1) 0 = backslash ↔
        p.getLast? = some backslash := by
      have positive := List.length_pos_of_ne_nil filled
      rw [strnlen, Nat.min_eq_left short, List.getD_eq_getElem _ _ (by omega),
        List.getLast?_eq_getElem?, List.getElem?_eq_getElem (by omega), Option.some.injEq]
    simp only [last]
  · -- no separator fits behind a long element, whichever character is looked at
    have whole : directoryOf curdir p = p := by
      rw [directoryOf, if_neg]
      rintro rfl
      exact short room
    have cut : ∀ sep : List UInt8, (p ++ sep ++ name).take (cbBuf - 1) =
        p.take (cbBuf - 1) := fun sep => by
      rw [List.append_assoc, List.take_append_of_le_length (by omega)]
    rw [whole]
    have none := cut []
    rw [List.append_nil] at none
    split <;> split <;> simp only [none, cut]

theorem lookAll_dos (room : 0 < cbBuf) (curdir name : List UInt8)
    (opens : List UInt8 → Bool) (elements : List (List UInt8)) (buffer : List UInt8) :
    ∃ buffer' code, lookAll id (lookDos curdir cbBuf opens name) elements buffer =
        .ok (buffer', code, elements) ∧
      (match firstCut curdir cbBuf opens name (elements.filter (· ≠ [])) with
        | some path => code = some 0 ∧ buffer' = path
        | none => code = none) := by
  induction elements generalizing buffer with
  | nil => exact ⟨buffer, none, rfl, rfl⟩
  | cons p elements ih =>
    rw [lookAll]
    by_cases empty : p = []
    · obtain ⟨buffer', code, looked, result⟩ := ih buffer
      refine ⟨buffer', code, ?_, ?_⟩
      · rw [if_pos empty, looked]
        rfl
      · rw [List.filter_cons_of_neg (by simp [empty])]
        exact result
    · have short := @dosPath_length_lt curdir p name cbBuf room
      have fits : strnlen (dosPath curdir cbBuf p name) cbBuf ≠ cbBuf := by
        rw [strnlen]
        omega
      have kept : (p :: elements).filter (· ≠ []) = p :: elements.filter (· ≠ []) :=
        List.filter_cons_of_pos (decide_eq_true empty)
      rw [if_neg empty, List.map_id, lookDos, if_neg fits, dosPath_eq_cutPath room empty,
        kept, firstCut, List.map_cons]
      by_cases found : opens (cutPath curdir cbBuf p name) = true
      · rw [if_pos found, List.find?_cons_of_pos found]
        exact ⟨_, _, rfl, rfl, rfl⟩
      · obtain ⟨buffer', code, looked, result⟩ := ih (cutPath curdir cbBuf p name)
        rw [if_neg found, List.find?_cons_of_neg found]
        refine ⟨buffer', code, ?_, result⟩
        simp only [looked, behindElement]

theorem directories_searchList {flag : UInt32} {list : List UInt8} :
    directories ((if flag &&& 1 ≠ 0 then [0x2e, 0x3b] else []) ++ list) =
      searchElements flag list := by
  by_cases current : flag &&& 1 ≠ 0
  · rw [searchElements, if_pos current, if_pos current, directories, directories]
    have split : ([0x2e, 0x3b] ++ list : List UInt8).splitOn 0x3b = [0x2e] :: list.splitOn 0x3b :=
      @List.splitOn_append_cons_of_beq _ _ 0x3b [0x2e] list 0x3b rfl
    rfl
  · rw [searchElements, if_neg current, if_neg current, List.nil_append, List.nil_append]

theorem searchList_eq {flag : UInt32} {value : List UInt8 → Option (List UInt8)}
    {pathOrName : List UInt8} :
    searchList flag value pathOrName = (givenList flag value pathOrName).map
      ((if flag &&& 1 ≠ 0 then [0x2e, 0x3b] else []) ++ ·) := rfl

theorem nonzero_of_readString {bytes text : List UInt8}
    (reads : readString bytes = .ok text) : 0 ∉ text := by
  rw [readString, map_eq_ok_iff] at reads
  obtain ⟨count, length, rfl⟩ := reads
  obtain ⟨-, rfl⟩ := strlen_eq_ok_iff.mp length
  rw [← List.prefix_iff_eq_take.mp (List.takeWhile_prefix _)]
  intro zero
  simpa using List.mem_takeWhile_imp zero

theorem nonzero_of_givenList {flag : UInt32} {environment : StringList}
    {pathOrName list : List UInt8} (nonzero : 0 ∉ pathOrName)
    (given : givenList flag (scannedValue environment) pathOrName = some list) :
    0 ∉ list := by
  rw [givenList] at given
  split at given
  · obtain ⟨place, -, reads⟩ := Option.bind_eq_some_iff.mp given
    exact nonzero_of_readString (toOption_eq_some_iff.mp reads)
  · injection given with same
    exact same ▸ nonzero

end

theorem positive_of_accepted {flag cbBuf : UInt32} {pathOrName filename : List UInt8}
    (accepted : ¬ Refused flag pathOrName filename cbBuf) : 0 < cbBuf.toNat := by
  have positive : cbBuf ≠ 0 := fun zero => accepted (.inl (.inr (.inr zero)))
  exact Nat.pos_of_ne_zero fun zero => positive (UInt32.toNat_inj.mp zero)

theorem answers_firstCut_iff {flag : UInt32} {pathOrName filename : List UInt8}
    {cbBuf : UInt32} {environment : StringList} {curdir : List UInt8}
    {opens : List UInt8 → Bool} {elements : List (List UInt8)} (room : 0 < cbBuf.toNat) :
    (match firstCut curdir cbBuf.toNat opens filename elements with
      | some file =>
        Answers flag pathOrName filename cbBuf environment curdir opens 0 file
      | none => Answers flag pathOrName filename cbBuf environment curdir opens 2 []) ↔
      ∃ list, givenList flag (definedValue environment) pathOrName = some list ∧
        firstCut curdir cbBuf.toNat opens filename elements =
          firstFile curdir opens filename (searchElements flag list) := by
  have fits : ∀ file, firstCut curdir cbBuf.toNat opens filename elements = some file →
      file.length < cbBuf.toNat := by
    intro file first
    obtain ⟨p, -, rfl⟩ := List.mem_map.mp (List.mem_of_find?_eq_some first)
    rw [cutPath, List.length_take]
    omega
  simp only [Answers]
  cases defined : givenList flag (definedValue environment) pathOrName with
  | none =>
    refine iff_of_false ?_ fun ⟨_, equal, _⟩ => nomatch equal
    split
    · exact (by decide : (0 : UInt32) ≠ 203)
    · exact (by decide : (2 : UInt32) ≠ 203)
  | some list =>
    cases cut : firstCut curdir cbBuf.toNat opens filename elements with
    | some file =>
      cases right : firstFile curdir opens filename (searchElements flag list) with
      | some file' =>
        by_cases same : file = file'
        · subst same
          simp [fits file cut, right]
        · simp [same, right]
      | none => simp [right]
    | none =>
      cases right : firstFile curdir opens filename (searchElements flag list) with
      | some file' => simp [right]
      | none => simp [right]

theorem dosSearchPath_returns_iff {flag cbBuf : UInt32}
    {pathOrName filename buf curdir list : List UInt8} {environment : StringList} {path : ℕ}
    {opens : List UInt8 → Bool} {world : Tokenizer} (nonzero : 0 ∉ pathOrName)
    (accepted : ¬ Refused flag pathOrName filename cbBuf)
    (given : givenList flag (scannedValue environment) pathOrName = some list)
    (Q : UInt32 → List UInt8 → Prop) :
    (∃ turns rc buffer world', dosSearchPath ⟨flag, some pathOrName, some filename, some buf, cbBuf⟩
          (scannedValue environment) curdir path opens turns world =
        some (.ok (rc, buffer, world')) ∧ Q rc buffer) ↔
      match firstCut curdir cbBuf.toNat opens filename (searchElements flag list) with
      | some file => Q 0 file
      | none => Q 2 [] := by
  obtain ⟨filled, known⟩ := not_or.mp accepted
  have room := positive_of_accepted accepted
  have searches : searchList flag (scannedValue environment) pathOrName =
      some ((if flag &&& 1 ≠ 0 then [0x2e, 0x3b] else []) ++ list) := by
    rw [searchList_eq, given]
    rfl
  have plain : ∀ c ∈ (if flag &&& 1 ≠ 0 then [0x2e, 0x3b] else []) ++ list, c ≠ 0 := by
    intro c member zero
    rw [zero, List.mem_append] at member
    refine member.elim (fun front => ?_) (nonzero_of_givenList nonzero given)
    split at front <;> simp at front
  obtain ⟨buffer', code, looked, result⟩ := lookAll_dos room curdir filename opens
    (((if flag &&& 1 ≠ 0 then [0x2e, 0x3b] else []) ++ list).splitOn 0x3b) buf
  have standing : (world.withText path
      ((if flag &&& 1 ≠ 0 then [0x2e, 0x3b] else []) ++ list)).strings path =
        [] ++ ((if flag &&& 1 ≠ 0 then [0x2e, 0x3b] else []) ++ list ++ []) := by
    rw [Tokenizer.withText_strings_self, List.append_nil, List.nil_append]
  have unwrapped : (∃ turns rc buffer world',
      dosSearchPath ⟨flag, some pathOrName, some filename, some buf, cbBuf⟩
          (scannedValue environment) curdir path opens turns world =
        some (.ok (rc, buffer, world')) ∧ Q rc buffer) ↔
      ∃ turns rc buffer world',
        search id (lookDos curdir cbBuf.toNat opens filename) (some ⟨path, 0⟩) buf turns
            (world.withText path ((if flag &&& 1 ≠ 0 then [0x2e, 0x3b] else []) ++ list)) =
          some (.ok (rc, buffer, world')) ∧ Q rc (if rc = 2 then [] else buffer) := by
    simp only [dosSearchPath_run filled (not_not.mp known) searches, andThen_eq_ok_iff]
    constructor
    · rintro ⟨turns, _, _, _, ⟨⟨rc, buffer, world'⟩, walk, ⟨⟩⟩, holds⟩
      exact ⟨turns, rc, buffer, world', walk, holds⟩
    · rintro ⟨turns, rc, buffer, world', walk, holds⟩
      exact ⟨turns, _, _, _, ⟨_, walk, rfl⟩, holds⟩
  have keeps : ∀ c : UInt8, c ≠ 0 → id c ≠ 0 := fun _ nonzero => nonzero
  refine unwrapped.trans ((search_returns_iff _ buf rfl standing plain rfl keeps
    fun rc buffer _ => Q rc (if rc = 2 then [] else buffer)).trans ?_)
  rw [looked]
  rw [← directories_searchList]
  revert result
  rw [directories]
  cases firstCut curdir cbBuf.toNat opens filename _ with
  | some file =>
    rintro ⟨rfl, rfl⟩
    exact ⟨fun ⟨_, _, _, equal, holds⟩ => by cases equal; exact holds,
      fun holds => ⟨_, _, _, rfl, holds⟩⟩
  | none =>
    rintro rfl
    exact ⟨fun ⟨_, _, _, equal, holds⟩ => by cases equal; exact holds,
      fun holds => ⟨_, _, _, rfl, holds⟩⟩

end OsFree.Compat
