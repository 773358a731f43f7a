import Mathlib.Data.List.DropRight
import OsFree.Compat.Token
import OsFree.Machine.CharArray

/-!
# Names with a drive and a directory

Three calls put the current drive and the current directory in front of a name,
in arrays of a fixed size.
-/

namespace OsFree.Kal

open Machine
open Compat (backslash)

/-- `:` -/
def colon : UInt8 := 0x3a

/-- `.exe` -/
def dotExe : List UInt8 := [0x2e, 0x65, 0x78, 0x65]

/-- There is a string in another one. -/
def strstr (text sub : List UInt8) : Bool := text.tails.any sub.isPrefixOf

/-- What the servers answer: a return code, or the current disk and the current
directory. -/
structure Queries where
  disk : Except UInt32 UInt32
  dir : Except UInt32 (List UInt8)

/-- A call is refused with a return code, or goes on with a path. -/
inductive Qualified where
  | refused (rc : UInt32)
  | path (text : List UInt8)
  deriving DecidableEq

/-- The letter of a disk. -/
def driveOf (disk : UInt32) : UInt8 := UInt8.ofNat (disk - 1 + 0x41).toNat

/-- Ask for the current directory twice, into an array; the length counts the
zero at the end. -/
def queryDir (size : Nat) (queries : Queries) :
    Run (Except UInt32 (List UInt8 × Nat)) :=
  match queries.dir with
  | .error rc => .ok (.error rc)
  | .ok curdir =>
    if curdir.length < size then .ok (.ok (curdir, curdir.length + 1))
    else .error .writeOutside

/-- The directory and its length, which are empty for an absolute name. -/
def currentDir (size : Nat) (relative : Bool) (queries : Queries) :
    Run (Except UInt32 (List UInt8 × Nat)) :=
  if relative then queryDir size queries else .ok (.ok ([], 0))

/-- Put the current directory behind the drive, with a backslash in front and
one behind, unless it ends with one. -/
def putDir (str buf : List UInt8) (len : Nat) : Run (List UInt8) := do
  let str ← storeByte str 2 backslash
  let str ← storeByte str 3 0
  let str ← strcat str buf
  let last ← readByte str (len + 3 - 2 : Nat)
  if last ≠ backslash then do
    let str ← storeByte str (len + 3 - 1) backslash
    storeByte str (len + 1 + 3 - 1) 0
  else storeByte str (len + 3 - 1) 0

/-- Put a drive, a current directory and a name into an array. -/
def putPath (str : List UInt8) (drv : UInt8) (buf : List UInt8) (len : Nat)
    (relative : Bool) (name : List UInt8) : Run (List UInt8) := do
  let str ← storeByte str 0 drv
  let str ← storeByte str 1 colon
  let str ← storeByte str 2 0
  let str ← (if relative then putDir str buf len else pure str)
  strcat str name

/-- Put the current drive and directory in front of a name that has no drive.
The arrays have a size; `garbage` is in the array before it is written to. -/
def qualify (size : Nat) (checked exe : Bool) (garbage : List UInt8)
    (queries : Queries) (name : List UInt8) : Run Qualified := do
  let second ← readByte (name ++ [0]) 1
  if second = colon then pure (.path name)
  else
    match queries.disk with
    | .error rc =>
      if checked then pure (.refused rc) else .error .uninitialised
    | .ok disk => do
        let relative : Bool := name.head? ≠ some backslash
        let queried ← currentDir size relative queries
        match queried with
        | .error rc => pure (.refused rc)
        | .ok (buf, len) =>
          if 256 < len + name.length + 3 then pure (.refused 206)
          else do
            let str ← putPath garbage (driveOf disk) buf len relative name
            let text ← readString str
            if exe ∧ strstr text dotExe = false then do
              let str ← strcat str dotExe
              Qualified.path <$> readString str
            else pure (.path text)

/-- `KalExecPgm` -/
def kalExecPgm : List UInt8 → Queries → List UInt8 → Run Qualified := qualify 260 true true

/-- `KalFindFirst` -/
def kalFindFirst : List UInt8 → Queries → List UInt8 → Run Qualified := qualify 256 false false

/-- `KalQueryPathInfo` -/
def kalQueryPathInfo : List UInt8 → Queries → List UInt8 → Run Qualified := qualify 260 false false

/-- The current drive and the current directory of a process, which is a string
in an array of 256 characters. -/
structure Place where
  disk : UInt32
  curdir : List UInt8
  disk_pos : 1 ≤ disk.toNat
  disk_le : disk.toNat ≤ 26
  nonzero : 0 ∉ curdir
  short : curdir.length < 256

/-- The three calls. -/
inductive KalCall where
  | execPgm
  | findFirst
  | queryPathInfo
  deriving DecidableEq

namespace KalCall

/-- The size of the arrays of a call. -/
def size : KalCall → Nat
  | .execPgm | .queryPathInfo => 260
  | .findFirst => 256

/-- The call puts an extension behind the name of a program. -/
def exe : KalCall → Bool
  | .execPgm => true
  | .findFirst | .queryPathInfo => false

def run : KalCall → List UInt8 → Queries → List UInt8 → Run Qualified
  | .execPgm => kalExecPgm
  | .findFirst => kalFindFirst
  | .queryPathInfo => kalQueryPathInfo

end KalCall

/-- The name has a drive. -/
def HasDrive (name : List UInt8) : Prop := name[1]? = some colon

/-- The name is taken from the current directory. -/
def Relative (name : List UInt8) : Prop := name.head? ≠ some backslash

instance (name : List UInt8) : Decidable (HasDrive name) := inferInstanceAs (Decidable (_ = _))

instance (name : List UInt8) : Decidable (Relative name) := inferInstanceAs (Decidable (_ ≠ _))

/-- A directory without the backslashes at its ends. -/
def core (curdir : List UInt8) : List UInt8 :=
  (curdir.dropWhile (· = backslash)).rdropWhile (· = backslash)

/-- A path with the extension of a program, if it has none anywhere. -/
def withExe (exe : Bool) (text : List UInt8) : List UInt8 :=
  if exe ∧ strstr text dotExe = false then text ++ dotExe else text

namespace Place

variable (place : Place)

/-- What the servers answer at a place. -/
def queries : Queries where
  disk := .ok place.disk
  dir := .ok place.curdir

/-- Drive, current directory and name with single backslashes between them; an
absolute name gets the drive only. -/
def joined (name : List UInt8) : List UInt8 := driveOf place.disk :: colon ::
    if Relative name then
      backslash ::
        if core place.curdir = [] then name
        else core place.curdir ++ backslash :: name
    else name

/-- Drive, directory and name exceed the length of a path, with room for two
separators and a zero. -/
def TooLong (name : List UInt8) : Prop :=
  256 < (if Relative name then place.curdir.length + 1 else 0) + name.length + 3

instance (name : List UInt8) : Decidable (place.TooLong name) := inferInstanceAs (Decidable (_ < _))

/-- What a call should come to: a name with a drive is kept, one that makes the
path too long is refused, and any other is joined to drive and directory. -/
def expected (exe : Bool) (name : List UInt8) : Qualified :=
  if HasDrive name then .path name
  else if place.TooLong name then .refused 206
  else .path (withExe exe (place.joined name))

/-- The call stays inside its arrays, and comes to what it should. -/
def Qualifies (call : KalCall) (name : List UInt8) : Prop :=
  ∀ garbage : List UInt8, garbage.length = call.size →
    call.run garbage place.queries name = .ok (place.expected call.exe name)

/-- The directory has no backslash in front and at most one behind. -/
def SingleEnds : Prop := place.curdir = core place.curdir ∨
    place.curdir = core place.curdir ++ [backslash] ∧ core place.curdir ≠ []

/-- The condition under which a call does as it should.  The name is not empty,
and it has a drive, or is refused, or its path fits the array with a zero; a
relative name needs a current directory with single backslashes at most. -/
def QualifyFits (call : KalCall) (name : List UInt8) : Prop :=
  name ≠ [] ∧ (HasDrive name ∨ place.TooLong name ∨ ((Relative name → place.SingleEnds) ∧
      (withExe call.exe (place.joined name)).length < call.size))

end Place

section

variable {curdir text other : List UInt8}

theorem filter_dropWhile (text : List UInt8) :
    (text.dropWhile (· = backslash)).filter (· ≠ backslash) =
      text.filter (· ≠ backslash) := by
  induction text with
  | nil => rfl
  | cons c text ih =>
    by_cases same : c = backslash
    · simpa [same] using ih
    · simp [same]

theorem filter_core (curdir : List UInt8) : (core curdir).filter (· ≠ backslash) =
      curdir.filter (· ≠ backslash) := by
  rw [core, List.rdropWhile, List.filter_reverse, filter_dropWhile,
    List.filter_reverse, List.reverse_reverse, filter_dropWhile]

theorem core_getLast?_ne (curdir : List UInt8) :
    (core curdir).getLast? ≠ some backslash := by
  intro last
  have some : core curdir ≠ [] := by
    intro empty
    rw [empty] at last
    cases last
  rw [List.getLast?_eq_some_getLast some, Option.some.injEq] at last
  exact List.rdropWhile_last_not _ _ some (decide_eq_true last)

/-- What the code puts in front of a relative name. -/
def rawDir (curdir : List UInt8) : List UInt8 := backslash :: curdir ++
    if (backslash :: curdir).getLast? = some backslash then [] else [backslash]

theorem rawDir_append_iff (place : Place) (name : List UInt8) :
    (rawDir place.curdir ++ name = backslash ::
        if core place.curdir = [] then name
        else core place.curdir ++ backslash :: name) ↔
      place.SingleEnds := by
  have ends : (core place.curdir).getLast? ≠ some backslash := core_getLast?_ne place.curdir
  have same := filter_core place.curdir
  unfold rawDir Place.SingleEnds
  generalize place.curdir = curdir at ends same ⊢
  have front : (if core curdir = [] then name
      else core curdir ++ backslash :: name) =
        (if core curdir = [] then [] else core curdir ++ [backslash]) ++
          name := by
    split <;> simp
  rw [front, List.cons_append, List.cons_append, List.cons.injEq,
    List.append_cancel_right_eq, eq_self, true_and, List.getLast?_cons]
  rcases List.eq_nil_or_concat' curdir with rfl | ⟨before, last, rfl⟩
  · simp [core]
  · simp only [List.getLast?_concat, Option.getD_some, Option.some.injEq]
    have notCore : last = backslash → before ++ [last] ≠ core (before ++ [last]) := by
      rintro rfl equal
      rw [← equal, List.getLast?_concat] at ends
      exact ends rfl
    by_cases slash : last = backslash
    · rw [if_pos slash, List.append_nil]
      by_cases empty : core (before ++ [last]) = []
      · simp [empty]
      · rw [if_neg empty]
        simp only [notCore slash, false_or, ne_eq, empty, not_false_eq_true, and_true]
    · have some : core (before ++ [last]) ≠ [] := by
        intro empty
        rw [empty, List.filter_append] at same
        simp [slash] at same
      have notBehind : before ++ [last] ≠ core (before ++ [last]) ++ [backslash] :=
        fun equal => slash (List.append_inj_right' equal rfl |> List.singleton_inj.mp)
      rw [if_neg slash, if_neg some, List.append_cancel_right_eq]
      simp only [notBehind, false_and, or_false]

theorem withExe_eq_iff (exe : Bool)
    (same : text.filter (· ≠ backslash) = other.filter (· ≠ backslash)) :
    withExe exe text = withExe exe other ↔ text = other := by
  have extension : dotExe.filter (· ≠ backslash) = dotExe := by decide
  constructor
  · intro equal
    have filtered := congrArg (List.filter (· ≠ backslash)) equal
    unfold withExe at equal filtered
    by_cases left : exe ∧ strstr text dotExe = false
    · by_cases right : exe ∧ strstr other dotExe = false
      · rw [if_pos left, if_pos right] at equal
        exact List.append_cancel_right equal
      · rw [if_pos left, if_neg right, List.filter_append, extension, same,
          List.append_right_eq_self] at filtered
        cases filtered
    · by_cases right : exe ∧ strstr other dotExe = false
      · rw [if_neg left, if_pos right, List.filter_append, extension, same,
          List.self_eq_append_right] at filtered
        cases filtered
      · rw [if_neg left, if_neg right] at equal
        exact equal
  · rintro rfl
    rfl

end

section

variable {size : Nat} {array garbage name : List UInt8} {place : Place}

theorem driveOf_ne_zero (place : Place) : driveOf place.disk ≠ 0 := by
  have upper := place.disk_le
  intro zero
  have value := congrArg UInt8.toNat zero
  rw [driveOf, UInt8.toNat_ofNat', UInt32.toNat_add, UInt32.toNat_sub] at value
  simp only [UInt32.reduceToNat, UInt8.reduceToNat, Nat.reducePow] at value
  omega

variable {drv : UInt8} {checked exe : Bool}

theorem start_spells (nonzero : drv ≠ 0) (sized : garbage.length = size) (room : 3 ≤ size) :
    ∃ first second array, storeByte garbage 0 drv = .ok first ∧
      storeByte first 1 colon = .ok second ∧
        storeByte second 2 0 = .ok array ∧ Spells size array [drv, colon] := by
  match garbage, sized with
  | [], sized | [_], sized | [_, _], sized =>
    simp only [List.length_cons, List.length_nil] at sized
    omega
  | _ :: _ :: _ :: rest, sized =>
    refine ⟨_, _, drv :: colon :: 0 :: rest, rfl, rfl, rfl, ?_, ?_, ⟨rest, rfl⟩⟩
    · simpa using sized
    · simpa using ⟨nonzero.symm, show (0 : UInt8) ≠ colon by decide⟩

theorem putDir_spells {curdir : List UInt8}
    (spells : Spells size array [drv, colon]) (nonzero : 0 ∉ curdir)
    (room : curdir.length + 4 < size) :
    ∃ array', putDir array curdir (curdir.length + 1) = .ok array' ∧
      Spells size array' ([drv, colon] ++ rawDir curdir) := by
  have slash : backslash ≠ 0 := by decide
  obtain ⟨first, second, stored, closed, spells⟩ := spells.push slash (by
    simp only [List.length_cons, List.length_nil]
    omega)
  obtain ⟨third, appended, spells⟩ := spells.strcat nonzero (by
    simp only [List.length_append, List.length_cons, List.length_nil]
    omega)
  have length : ([drv, colon] ++ [backslash] ++ curdir).length =
      curdir.length + 3 := by simp
  have last : readByte third (curdir.length + 1 + 3 - 2 : Nat) =
      .ok ((backslash :: curdir).getLast (List.cons_ne_nil _ _)) := by
    obtain ⟨rest, ends⟩ := spells.ends
    have shape : third = [drv, colon] ++ ((backslash :: curdir) ++ 0 :: rest) := by
      rw [ends]
      simp
    apply readByte_eq_ok_iff.mpr
    refine ⟨by omega, ?_⟩
    rw [shape, Int.toNat_natCast,
      show curdir.length + 1 + 3 - 2 = [drv, colon].length + curdir.length by
        simp only [List.length_cons, List.length_nil]
        omega,
      List.getElem?_append_right (Nat.le_add_right ..), Nat.add_sub_cancel_left,
      List.getElem?_append_left (by simp), List.getLast_eq_getElem,
      List.getElem?_eq_getElem (by simp)]
    simp
  have stored' : storeByte array 2 backslash = .ok first := stored
  have closed' : storeByte first 3 0 = .ok second := closed
  rw [putDir, stored', bind_ok, closed', bind_ok, appended, bind_ok, last, bind_ok]
  unfold rawDir
  simp only [List.getLast?_eq_some_getLast (List.cons_ne_nil backslash curdir), Option.some.injEq]
  split
  · rename_i different
    obtain ⟨fourth, fifth, stored, closed, spells⟩ := spells.push slash (by omega)
    refine ⟨fifth, ?_, ?_⟩
    · have stored' : storeByte third (curdir.length + 1 + 3 - 1) backslash =
          .ok fourth := stored
      rw [stored', bind_ok]
      exact closed
    · simpa using spells
  · rename_i same
    refine ⟨third, ?_, ?_⟩
    · have closed := spells.close
      exact closed
    · rw [if_pos (not_not.mp same)]
      simpa using spells

/-- What the code puts together. -/
def rawPath (drv : UInt8) (curdir name : List UInt8) : List UInt8 :=
  drv :: colon :: if Relative name then rawDir curdir ++ name else name

theorem putPath_spells {curdir : List UInt8} (nonzero : drv ≠ 0)
    (sized : garbage.length = size) (dirNonzero : 0 ∉ curdir)
    (nameNonzero : 0 ∉ name)
    (room : (if Relative name then curdir.length + 4 else 2) < size) :
    let put := putPath garbage drv (if Relative name then curdir else [])
      (if Relative name then curdir.length + 1 else 0) (decide (Relative name)) name
    if (rawPath drv curdir name).length < size then
      ∃ array, put = .ok array ∧ Spells size array (rawPath drv curdir name)
    else put = .error .writeOutside := by
  intro put
  obtain ⟨first, second, array, stored, storedColon, closed, spells⟩ :=
    start_spells nonzero sized (by split at room <;> omega)
  have start : ∃ array', (if decide (Relative name) = true then
      putDir array (if Relative name then curdir else [])
        (if Relative name then curdir.length + 1 else 0)
      else pure array) = Except.ok array' ∧
      Spells size array' ([drv, colon] ++
        if Relative name then rawDir curdir else []) := by
    by_cases relative : Relative name
    · simp only [relative, if_true, decide_true] at room ⊢
      exact putDir_spells spells dirNonzero room
    · simp only [relative, if_false, decide_false]
      exact ⟨array, rfl, by simpa using spells⟩
  obtain ⟨array', putDirectory, spells'⟩ := start
  have shape : rawPath drv curdir name =
      ([drv, colon] ++ if Relative name then rawDir curdir else []) ++
        name := by
    unfold rawPath
    split <;> simp
  have behind : put = strcat array' name := by
    unfold put putPath
    rw [stored, bind_ok, storedColon, bind_ok, closed, bind_ok, putDirectory, bind_ok]
  rw [behind, shape]
  generalize [drv, colon] ++ _ = front at spells'
  rw [List.length_append]
  split
  · rename_i fits
    exact spells'.strcat nameNonzero fits
  · rename_i full
    exact spells'.strcat_of_full (not_lt.mp full)

theorem second_ne (given : name ≠ []) (noDrive : ¬ HasDrive name) :
    ∃ byte, readByte (name ++ [0]) 1 = .ok byte ∧ byte ≠ colon := by
  simp only [readByte_eq_ok_iff]
  match name, given with
  | [_], _ => exact ⟨0, ⟨by decide, rfl⟩, by decide⟩
  | _ :: byte :: _, _ =>
    exact ⟨byte, ⟨by decide, rfl⟩, fun same => noDrive (congrArg some same)⟩

theorem decide_relative (name : List UInt8) :
    decide (name.head? ≠ some backslash) = decide (Relative name) := rfl

theorem drive_queries (place : Place) : place.queries.disk = .ok place.disk := rfl

theorem dir_queries (room : 256 ≤ size) (name : List UInt8) :
    currentDir size (Relative name) place.queries =
      .ok (.ok (if Relative name then place.curdir else [],
        if Relative name then place.curdir.length + 1 else 0)) := by
  have dirLength := place.short
  by_cases relative : Relative name
  · simp only [relative, if_true, decide_true, currentDir, queryDir, Place.queries]
    rw [if_pos (by omega)]
  · simp only [relative, if_false, decide_false]
    rfl

theorem qualify_eq (sized : garbage.length = size)
    (room : 256 ≤ size) (given : name ≠ []) (nonzero : 0 ∉ name)
    (noDrive : ¬ HasDrive name) (short : ¬ place.TooLong name) :
    let path := withExe exe (rawPath (driveOf place.disk) place.curdir name)
    qualify size checked exe garbage place.queries name =
      if path.length < size then .ok (.path path) else .error .writeOutside := by
  intro path
  have nameLength : 0 < name.length := List.length_pos_iff.mpr given
  unfold Place.TooLong at short
  rw [not_lt] at short
  have enough : (if Relative name then place.curdir.length + 4 else 2) < size := by
    by_cases relative : Relative name
    · rw [if_pos relative] at short ⊢
      omega
    · rw [if_neg relative]
      omega
  have put := putPath_spells (driveOf_ne_zero place) sized place.nonzero nonzero enough
  obtain ⟨byte, read, different⟩ := second_ne given noDrive
  unfold qualify
  simp only [read, bind_ok, if_neg different, drive_queries,
    decide_relative, dir_queries room name, if_neg (not_lt.mpr short)]
  by_cases fits : (rawPath (driveOf place.disk) place.curdir name).length < size
  · rw [if_pos fits] at put
    obtain ⟨array, stored, spells⟩ := put
    rw [stored, bind_ok, spells.readString, bind_ok]
    unfold path withExe
    split
    · rename_i extend
      rw [List.length_append]
      split
      · rename_i fits
        obtain ⟨array', appended, spells'⟩ := spells.strcat (by decide) fits
        rw [appended, bind_ok, spells'.readString]
        rfl
      · rename_i full
        rw [spells.strcat_of_full (not_lt.mp full)]
        rfl
    · rfl
  · rw [if_neg fits] at put
    have longer : ¬ path.length < size := by
      intro less
      apply fits
      apply lt_of_le_of_lt _ less
      unfold path withExe
      split
      · rw [List.length_append]
        omega
      · rfl
    rw [put, if_neg longer]
    rfl

theorem qualify_of_long (room : 256 ≤ size) (given : name ≠ []) (noDrive : ¬ HasDrive name)
    (long : place.TooLong name) :
    qualify size checked exe garbage place.queries name =
      .ok (.refused 206) := by
  obtain ⟨byte, read, different⟩ := second_ne given noDrive
  unfold Place.TooLong at long
  unfold qualify
  simp only [read, bind_ok, if_neg different, drive_queries,
    decide_relative, dir_queries room name, if_pos long, pure_eq_ok]

theorem qualify_of_drive (drive : HasDrive name) :
    qualify size checked exe garbage place.queries name = .ok (.path name) := by
  match name, drive with
  | _ :: byte :: _, drive =>
    have same : byte = colon := Option.some.inj drive
    subst same
    rfl

theorem qualify_nil :
    qualify size checked exe garbage place.queries [] = .error .readOutside := rfl

theorem rawPath_eq_iff (place : Place) (name : List UInt8) :
    rawPath (driveOf place.disk) place.curdir name = place.joined name ↔
      (Relative name → place.SingleEnds) := by
  unfold rawPath Place.joined
  by_cases relative : Relative name
  · rw [if_pos relative, if_pos relative, List.cons.injEq, List.cons.injEq,
      eq_self, eq_self, true_and, true_and, rawDir_append_iff]
    simp only [relative, true_implies]
  · rw [if_neg relative, if_neg relative]
    simp only [relative, false_implies]

theorem filter_rawPath (place : Place) (name : List UInt8) :
    (rawPath (driveOf place.disk) place.curdir name).filter (· ≠ backslash) =
      (place.joined name).filter (· ≠ backslash) := by
  have same := filter_core place.curdir
  have front : (rawDir place.curdir).filter (· ≠ backslash) =
      place.curdir.filter (· ≠ backslash) := by
    unfold rawDir
    split <;> simp
  have directory : (rawDir place.curdir ++ name).filter (· ≠ backslash) =
      (backslash :: if core place.curdir = [] then name
        else core place.curdir ++ backslash :: name).filter (· ≠ backslash) := by
    rw [List.filter_append, front, ← same, List.filter_cons_of_neg (by simp)]
    split
    · rename_i empty
      rw [empty, List.filter_nil, List.nil_append]
    · rw [List.filter_append, List.filter_cons_of_neg (by simp)]
  unfold rawPath Place.joined
  by_cases relative : Relative name
  · rw [if_pos relative, if_pos relative]
    simp only [List.filter_cons, directory]
  · rw [if_neg relative, if_neg relative]

/-- A call does as it should exactly under its condition. -/
theorem qualifies_iff (place : Place) (call : KalCall) (name : List UInt8) (nonzero : 0 ∉ name) :
    place.Qualifies call name ↔ place.QualifyFits call name := by
  have room : 256 ≤ call.size := by cases call <;> decide
  have run : ∀ garbage, call.run garbage place.queries name =
      qualify call.size (call = .execPgm) call.exe garbage place.queries name := by
    cases call <;> exact fun _ => rfl
  unfold Place.Qualifies Place.QualifyFits
  simp only [run]
  by_cases given : name = []
  · subst given
    simp only [ne_eq, not_true_eq_false, false_and, iff_false]
    intro qualifies
    have run := qualifies (List.replicate call.size 0) List.length_replicate
    cases run
  simp only [ne_eq, given, not_false_eq_true, true_and, Place.expected]
  by_cases drive : HasDrive name
  · simp only [drive, if_true, true_or, iff_true]
    exact fun _ _ => qualify_of_drive drive
  by_cases long : place.TooLong name
  · simp only [drive, long, if_true, if_false, true_or, or_true, iff_true]
    exact fun _ _ => qualify_of_long room given drive long
  simp only [drive, long, if_false, false_or, ← rawPath_eq_iff]
  constructor
  · intro qualifies
    have run := qualifies (List.replicate call.size 0) List.length_replicate
    rw [qualify_eq List.length_replicate room given nonzero drive long] at run
    split at run
    · rename_i fits
      have equal := Qualified.path.inj (Except.ok.inj run)
      have same := (withExe_eq_iff call.exe (filter_rawPath place name)).mp equal
      rw [same] at fits
      exact ⟨same, fits⟩
    · cases run
  · intro ⟨same, fits⟩ garbage sized
    rw [qualify_eq sized room given nonzero drive long, same]
    exact if_pos fits

/-- A program in a directory of the drive `C`. -/
theorem qualifies_program : ∃ place : Place, place.curdir = [0x4f, 0x53, 0x32] ∧
    place.Qualifies .execPgm [0x61] := by
  refine ⟨⟨3, [0x4f, 0x53, 0x32], by decide, by decide, by decide, by decide⟩, rfl, ?_⟩
  exact (qualifies_iff _ .execPgm [0x61] (by decide)).mpr
    ⟨by decide, .inr (.inr ⟨fun _ => .inl (by decide), by decide⟩)⟩

/-- In a directory of 251 characters a name of one is short enough, but its path
and a zero do not fit the array of `KalFindFirst`; with the extension they do
not fit the one of `KalExecPgm`. -/
theorem path_overruns : ∃ place : Place,
    place.curdir = List.replicate 251 0x41 ∧ ¬ place.TooLong [0x61] ∧
      ¬ place.Qualifies .findFirst [0x61] ∧
        ¬ place.Qualifies .execPgm [0x61] := by
  let place : Place := ⟨3, List.replicate 251 0x41, by decide, by decide,
    by decide +kernel, by decide +kernel⟩
  have short : ¬ place.TooLong [0x61] := by decide +kernel
  refine ⟨place, rfl, short, ?_, ?_⟩
  · intro qualifies
    have run := qualifies (List.replicate 256 0) List.length_replicate
    have overrun : kalFindFirst (List.replicate 256 0) place.queries [0x61] =
        _ := qualify_eq List.length_replicate (by decide) (by decide) (by decide)
      (by decide) short
    rw [KalCall.run, overrun, if_neg (by decide +kernel)] at run
    cases run
  · intro qualifies
    have run := qualifies (List.replicate 260 0) List.length_replicate
    have overrun : kalExecPgm (List.replicate 260 0) place.queries [0x61] =
        _ := qualify_eq List.length_replicate (by decide) (by decide) (by decide)
      (by decide) short
    rw [KalCall.run, overrun, if_neg (by decide +kernel)] at run
    cases run

end

end OsFree.Kal
