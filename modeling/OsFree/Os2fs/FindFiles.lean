import OsFree.Machine.Batch
import OsFree.Os2fs.FileHandles

/-!
# Finding files

A search has the paths that the host has found for a name, and the place of the
next.  Two functions fill a buffer with records of the files at these paths: one
for the start of the search, and one for its other parts.
-/

namespace OsFree.Os2fs

open Machine

/-- A time of the host, broken down to the local time. -/
structure Tm where
  tm_year : UInt32
  tm_mon : UInt32
  tm_mday : UInt32
  tm_hour : UInt32
  tm_min : UInt32
  tm_sec : UInt32
  deriving DecidableEq

/-- What the host knows of a file; its times are those that it is asked to break
down. -/
structure Stat where
  st_mode : UInt32
  st_size : UInt64
  st_blksize : UInt64
  st_blocks : UInt64
  st_ctime : Tm
  st_atime : Tm
  st_mtime : Tm
  deriving DecidableEq

/-- A path that the host has found, and what it knows of the file there, if it can
be asked. -/
structure Entry where
  fname : List UInt8
  stat : Option Stat
  deriving DecidableEq

/-- The two levels of information. -/
inductive Level where
  | standard
  | standardL
  deriving DecidableEq

/-- The level for a number: `FIL_STANDARD` or `FIL_STANDARDL`. -/
def Level.ofULONG (ulInfoLevel : UInt32) : Option Level :=
  if ulInfoLevel = 1 then some .standard
  else if ulInfoLevel = 11 then some .standardL
  else none

/-- The sizes of `FILEFINDBUF3` and `FILEFINDBUF3L`. -/
def Level.size : Level → UInt32
  | .standard => 285
  | .standardL => 296

/-- Where the name is in a record. -/
def Level.achName : Level → Nat
  | .standard => 29
  | .standardL => 37

/-- A size, as the record of a level has it. -/
def Level.ofSize : Level → UInt64 → UInt64
  | .standard, size => size.toUInt32.toUInt64
  | .standardL, size => size

/-- `FDATE`. -/
structure FDate where
  year : UInt32
  month : UInt32
  day : UInt32
  deriving DecidableEq

/-- `FTIME`. -/
structure FTime where
  hours : UInt32
  minutes : UInt32
  twosecs : UInt32
  deriving DecidableEq

/-- The date of a time; its fields have 7, 4 and 5 bits. -/
def Tm.date (tt : Tm) : FDate where
  year := (tt.tm_year - 80) &&& 0x7f
  month := (tt.tm_mon + 1) &&& 0xf
  day := tt.tm_mday &&& 0x1f

/-- The time of day; its fields have 5, 6 and 5 bits. -/
def Tm.time (tt : Tm) : FTime where
  hours := tt.tm_hour &&& 0x1f
  minutes := tt.tm_min &&& 0x3f
  twosecs := (tt.tm_sec / 2) &&& 0x1f

/-- `FILEFINDBUF3` or `FILEFINDBUF3L` without the way to the next record. -/
structure FileInfo where
  fdateCreation : FDate
  ftimeCreation : FTime
  fdateLastAccess : FDate
  ftimeLastAccess : FTime
  fdateLastWrite : FDate
  ftimeLastWrite : FTime
  cbFile : UInt64
  cbFileAlloc : UInt64
  attrFile : UInt32
  cchName : UInt8
  achName : List UInt8
  deriving DecidableEq

/-- The attributes of a file. -/
inductive Attribute where
  | readonly
  | hidden
  | system
  | directory
  | archived
  deriving DecidableEq

namespace Attribute

/-- `FILE_READONLY` and so on. -/
def file : Attribute → UInt32
  | readonly => 0x1
  | hidden => 0x2
  | system => 0x4
  | directory => 0x100
  | archived => 0x200

/-- `MUST_HAVE_READONLY` and so on. -/
def mustHave : Attribute → UInt32
  | readonly => 0x100
  | hidden => 0x200
  | system => 0x400
  | directory => 0x1000
  | archived => 0x2000

/-- `S_IREADONLY` and so on. -/
def mode : Attribute → UInt32
  | readonly => 0x100
  | hidden => 0x20000000
  | system => 0x40000000
  | directory => 0x4000
  | archived => 0x80000000

/-- A file is passed over for an attribute that it must have, or must not have. -/
def Skips (kind : Attribute) (attr st_mode : UInt32) : Prop := attr &&& kind.mustHave ≠ 0 ∧
    (¬ attr &&& kind.file ≠ 0 ∨ ¬ st_mode &&& kind.mode ≠ 0) ∧
    (attr &&& kind.file ≠ 0 ∨ st_mode &&& kind.mode ≠ 0)

instance (kind : Attribute) (attr st_mode : UInt32) :
    Decidable (kind.Skips attr st_mode) :=
  inferInstanceAs (Decidable (_ ∧ _ ∧ _))

end Attribute

/-- A file is passed over for one of its attributes. -/
def Skipped (attr st_mode : UInt32) : Prop :=
  Attribute.archived.Skips attr st_mode ∨ Attribute.directory.Skips attr st_mode ∨
    Attribute.system.Skips attr st_mode ∨ Attribute.hidden.Skips attr st_mode ∨
    Attribute.readonly.Skips attr st_mode

instance (attr st_mode : UInt32) : Decidable (Skipped attr st_mode) :=
  inferInstanceAs (Decidable (_ ∨ _ ∨ _ ∨ _ ∨ _))

/-- The attributes of a record. -/
def attrFile (st_mode : UInt32) : UInt32 :=
  let join (kind : Attribute) (attrFile : UInt32) := joinIf st_mode kind.mode kind.file attrFile
  join .archived (join .directory (join .system (join .hidden (join .readonly 0))))

/-- The name behind the last slash of a path. -/
def baseName (fname : List UInt8) : List UInt8 := (fname.reverse.takeWhile (· ≠ 0x2f)).reverse

/-- The record of a file. -/
def fileInfo (level : Level) (fname : List UInt8) (stat : Stat) : FileInfo where
  fdateCreation := stat.st_ctime.date
  ftimeCreation := stat.st_ctime.time
  fdateLastAccess := stat.st_atime.date
  ftimeLastAccess := stat.st_atime.time
  fdateLastWrite := stat.st_mtime.date
  ftimeLastWrite := stat.st_mtime.time
  cbFile := level.ofSize stat.st_size
  cbFileAlloc := level.ofSize (stat.st_blksize * stat.st_blocks)
  attrFile := attrFile stat.st_mode
  cchName := UInt8.ofNat ((baseName fname).length + 1)
  achName := baseName fname

/-- What is written to a buffer: for each place of a record the way to the next one
and the rest, and where the bytes that are written end. -/
structure FindBuf where
  oNextEntryOffset : Nat → Option UInt32
  info : Nat → Option FileInfo
  written : Nat

namespace FindBuf

/-- A buffer to which nothing is written. -/
def empty : FindBuf := ⟨fun _ => none, fun _ => none, 0⟩

variable (buf : FindBuf) (level : Level) (place : Nat)

/-- Write the way to the next record. -/
def setNext (oNextEntryOffset : UInt32) : FindBuf := { buf with
    oNextEntryOffset := Function.update buf.oNextEntryOffset place (some oNextEntryOffset)
    written := max buf.written (place * level.size.toNat + 4) }

/-- Write the rest of a record, up to the end of its name. -/
def setInfo (info : FileInfo) : FindBuf := { buf with
    info := Function.update buf.info place (some info)
    written := max buf.written
        (place * level.size.toNat + level.achName + info.achName.length + 1) }

variable {buf level place}

@[simp] theorem setNext_oNextEntryOffset (oNextEntryOffset : UInt32) :
    (buf.setNext level place oNextEntryOffset).oNextEntryOffset place =
      some oNextEntryOffset :=
  Function.update_self ..

@[simp] theorem setInfo_oNextEntryOffset (info : FileInfo) :
    (buf.setInfo level place info).oNextEntryOffset = buf.oNextEntryOffset := rfl

@[simp] theorem setInfo_info (info : FileInfo) :
    (buf.setInfo level place info).info place = some info :=
  Function.update_self ..

theorem setInfo_info_of_ne {info : FileInfo} {other : Nat} (apart : other ≠ place) :
    (buf.setInfo level place info).info other = buf.info other :=
  Function.update_of_ne apart ..

end FindBuf

/-- What a loop leaves: a code, the number of the paths that it is done with and
that of the records, and the buffer. -/
structure Filled where
  rc : UInt32
  i : Nat
  j : Nat
  buf : FindBuf

/-- One path more is done with. -/
def Filled.passed (filled : Filled) : Filled := { filled with i := filled.i + 1 }

/-- The pointer `info` is the place of the first record in each turn of the loop. -/
def infoPlace : Nat := 0

/-- The loop over the paths.  The codes are ERROR_META_EXPANSION_TOO_LONG (208) and
ERROR_INVALID_PARAMETER (87), since -1 is not one of the numbers that it is
compared with. -/
def fill (level : Level) (attr : UInt32) (pcFileNames : Nat) : List Entry → Nat → FindBuf → Filled
  | [], j, buf => ⟨0, 0, j, buf⟩
  | entry :: rest, j, buf =>
    if j < pcFileNames then
      let buf := buf.setNext level infoPlace (if j + 1 = pcFileNames then 0 else level.size)
      if 255 < entry.fname.length then ⟨208, 0, j, buf⟩
      else
        match entry.stat with
        | none => ⟨87, 0, j, buf⟩
        | some stat =>
          if Skipped attr stat.st_mode then
            (fill level attr pcFileNames rest j buf).passed
          else
            (fill level attr pcFileNames rest (j + 1) (buf.setInfo level infoPlace
                (fileInfo level entry.fname stat))).passed
    else ⟨0, 0, j, buf⟩

/-- `filefindstruc_t`, with the paths that the host has found. -/
structure FindHandle where
  g : List Entry
  ctr : Nat
  attr : UInt32
  ulInfoLevel : UInt32

/-- The buffer of a call, its size, and the number of records that are asked for. -/
structure FindCall where
  pFindBuf : UInt32
  cbBuf : UInt32
  pcFileNames : UInt32

/-- What a call gives back. -/
structure FindAnswer where
  rc : UInt32
  pFindBuf : UInt32
  cbBuf : UInt32
  pcFileNames : UInt32
  buf : FindBuf

namespace FindCall

variable (call : FindCall)

/-- An answer to a call for which nothing is done. -/
def answerOf (rc : UInt32) : FindAnswer := ⟨rc, call.pFindBuf, call.cbBuf, call.pcFileNames, .empty⟩

/-- The buffer is refused. -/
def Overflows (level : Level) : Prop := call.cbBuf = 0 ∨ 0x10000 < call.cbBuf ∨
    call.cbBuf < call.pcFileNames * level.size

instance (level : Level) : Decidable (call.Overflows level) :=
  inferInstanceAs (Decidable (_ ∨ _ ∨ _))

/-- Fill the buffer of the call. -/
def filled (level : Level) (attr : UInt32) (entries : List Entry) : Filled :=
  fill level attr call.pcFileNames.toNat entries 0 .empty

/-- The answer for a filled buffer, where `size` is the size by which the function
multiplies for `*cbBuf`. -/
def answer (level : Level) (size : UInt32) (filled : Filled) : FindAnswer :=
  let pFindBuf := call.pFindBuf + UInt32.ofNat filled.j * level.size
  if filled.rc ≠ 0 then
    ⟨filled.rc, pFindBuf, call.cbBuf, call.pcFileNames, filled.buf⟩
  else
    let cbBuf := UInt32.ofNat filled.j * size
    ⟨0, pFindBuf - cbBuf, cbBuf, UInt32.ofNat filled.j, filled.buf⟩

end FindCall

/-- A request to start a search. -/
structure FindRequest where
  pszFileSpec : List UInt8
  phDir : UInt32
  flAttribute : UInt32
  call : FindCall
  ulInfoLevel : UInt32

/-- `HDIR_SYSTEM`. -/
def HDIR_SYSTEM : UInt32 := 1

/-- `HDIR_CREATE`. -/
def HDIR_CREATE : UInt32 := 0xffffffff

/-- Start a search, where `glob` is what the host finds for a path.  The name is
copied to an array of 260 characters.  The codes are ERROR_INVALID_HANDLE (6),
ERROR_FILENAME_EXCED_RANGE (206), ERROR_PATH_NOT_FOUND (3),
ERROR_INVALID_LEVEL (124) and ERROR_BUFFER_OVERFLOW (111). -/
def fsFindFirst (router : FSRouter) (glob : List UInt8 → List Entry)
    (request : FindRequest) : Run (FindAnswer × Option FindHandle) :=
  let call := request.call
  if 260 ≤ request.pszFileSpec.length then .error .writeOutside
  else if ¬ (request.phDir = HDIR_SYSTEM ∨ request.phDir = HDIR_CREATE) then
    .ok (call.answerOf 6, none)
  else if 255 < request.pszFileSpec.length then .ok (call.answerOf 206, none)
  else do
    let (rc, t) ← pathconv router (request.pszFileSpec.map toBackslash)
    if rc ≠ 0 then return (call.answerOf 3, none)
    else if 255 < t.length then return (call.answerOf 206, none)
    else
      match Level.ofULONG request.ulInfoLevel with
      | none => return (call.answerOf 124, none)
      | some level =>
        if call.Overflows level then return (call.answerOf 111, none)
        else
          let filled := call.filled level request.flAttribute (glob t)
          return (call.answer level level.size filled,
            if filled.rc ≠ 0 then none
            else
              some
                { g := glob t
                  ctr := filled.j
                  attr := request.flAttribute
                  ulInfoLevel := request.ulInfoLevel })

/-- Go on with a search; both levels multiply by the size of `FILEFINDBUF3`.
ERROR_NO_MORE_FILES is 18. -/
def fsFindNext (hdir : FindHandle) (call : FindCall) : FindAnswer × FindHandle :=
  if hdir.ctr = hdir.g.length then (call.answerOf 18, hdir)
  else
    match Level.ofULONG hdir.ulInfoLevel with
    | none => (call.answerOf 124, hdir)
    | some level =>
      if call.Overflows level then (call.answerOf 111, hdir)
      else
        let filled := call.filled level hdir.attr (hdir.g.drop hdir.ctr)
        (call.answer level Level.standard.size filled,
          if filled.rc ≠ 0 then hdir
          else { hdir with ctr := hdir.ctr + filled.i })

/-!
## The loop over the paths

What the loop that fills a buffer looks at and what it leaves.
-/

/-- A file matches if it can be asked for, and has an attribute that is demanded
one way or the other in the way that is demanded. -/
def Matches (attr : UInt32) (entry : Entry) : Prop :=
  ∃ stat, entry.stat = some stat ∧ ∀ kind : Attribute, attr &&& kind.mustHave ≠ 0 →
      (stat.st_mode &&& kind.mode ≠ 0 ↔ attr &&& kind.file ≠ 0)

theorem Attribute.not_skips_iff (kind : Attribute) (attr st_mode : UInt32) :
    ¬ kind.Skips attr st_mode ↔ (attr &&& kind.mustHave ≠ 0 →
        (st_mode &&& kind.mode ≠ 0 ↔ attr &&& kind.file ≠ 0)) := by
  unfold Attribute.Skips
  tauto

theorem not_skipped_iff (attr st_mode : UInt32) :
    ¬ Skipped attr st_mode ↔ ∀ kind : Attribute, attr &&& kind.mustHave ≠ 0 →
      (st_mode &&& kind.mode ≠ 0 ↔ attr &&& kind.file ≠ 0) := by
  unfold Skipped
  simp only [not_or, Attribute.not_skips_iff]
  constructor
  · rintro ⟨archived, directory, system, hidden, readonly⟩ kind
    cases kind with
    | readonly => exact readonly
    | hidden => exact hidden
    | system => exact system
    | directory => exact directory
    | archived => exact archived
  · intro every
    exact ⟨every _, every _, every _, every _, every _⟩

theorem matches_iff (attr : UInt32) (entry : Entry) :
    (entry.stat.any fun stat => ¬ Skipped attr stat.st_mode) = true ↔
      Matches attr entry := by
  unfold Matches
  simp only [← not_skipped_iff]
  cases entry.stat with
  | none => simp
  | some stat => simp

instance (attr : UInt32) (entry : Entry) : Decidable (Matches attr entry) :=
  decidable_of_iff _ (matches_iff attr entry)

/-- Whether a file matches. -/
def selects (attr : UInt32) (entry : Entry) : Bool := decide (Matches attr entry)

/-- The files that match, in their order. -/
def matching (attr : UInt32) (entries : List Entry) : List Entry := entries.filter (selects attr)

/-- The record that there is of a file. -/
def Entry.record (entry : Entry) (level : Level) : Option FileInfo :=
  entry.stat.map (fileInfo level entry.fname)

theorem selects_iff {attr : UInt32} {entry : Entry} :
    selects attr entry = true ↔ Matches attr entry :=
  decide_eq_true_iff

theorem selects_of_stat {attr : UInt32} {entry : Entry} {stat : Stat}
    (found : entry.stat = some stat) :
    selects attr entry = true ↔ ¬ Skipped attr stat.st_mode := by
  rw [selects_iff, ← matches_iff, found]
  simp

/-- A path is not too long, and the host knows the file there. -/
def Entry.Fine (entry : Entry) : Prop := entry.fname.length ≤ 255 ∧ entry.stat.isSome

section

variable {level : Level} {attr : UInt32} {count : Nat}

/-- The way to the next record that is written for a number of records. -/
def nextOf (level : Level) (count j : Nat) : UInt32 :=
  if j + 1 = count then 0 else level.size

/-- How the loop goes over what it looks at, if it is never left by an error. -/
inductive Fills (level : Level) (attr : UInt32) (count : Nat) :
    Nat → FindBuf → List Entry → Filled → Prop
  | stop {j buf} : Fills level attr count j buf [] ⟨0, 0, j, buf⟩
  | pass {j buf entry looked filled} : ¬ selects attr entry = true → Fills level attr count j
        (buf.setNext level infoPlace (nextOf level count j)) looked filled →
      Fills level attr count j buf (entry :: looked) filled.passed
  | take {j buf entry looked filled info} : selects attr entry = true →
      entry.fname.length ≤ 255 → entry.record level = some info →
      info.achName = baseName entry.fname →
      Fills level attr count (j + 1)
        ((buf.setNext level infoPlace (nextOf level count j)).setInfo level
          infoPlace info) looked filled →
      Fills level attr count j buf (entry :: looked) filled.passed

variable {entries : List Entry} {j : Nat} {buf : FindBuf}

theorem fill_of_le (full : count ≤ j) : fill level attr count entries j buf = ⟨0, 0, j, buf⟩ := by
  cases entries with
  | nil => rfl
  | cons entry rest => exact if_neg (Nat.not_lt.mpr full)

theorem fills_fill (fine : ∀ entry ∈ batch (selects attr) (count - j) entries, entry.Fine) :
    Fills level attr count j buf (batch (selects attr) (count - j) entries)
      (fill level attr count entries j buf) := by
  induction entries generalizing j buf with
  | nil =>
    rw [batch_nil]
    exact .stop
  | cons entry rest ih =>
    by_cases more : j < count
    · obtain ⟨left, equal⟩ : ∃ left, count - j = left + 1 := ⟨count - j - 1, by omega⟩
      rw [equal] at fine ⊢
      obtain ⟨short, known⟩ := fine entry (List.mem_cons_self ..)
      obtain ⟨stat, found⟩ := Option.isSome_iff_exists.mp known
      by_cases selected : selects attr entry = true
      · have begins : fill level attr count (entry :: rest) j buf =
            (fill level attr count rest (j + 1)
              ((buf.setNext level infoPlace (nextOf level count j)).setInfo level
                infoPlace (fileInfo level entry.fname stat))).passed := by
          simp only [fill, if_pos more, if_neg (Nat.not_lt.mpr short), found,
            if_neg ((selects_of_stat found).mp selected), nextOf]
        have fewer : count - (j + 1) = left := by omega
        rw [batch_cons_of_pos selected] at fine ⊢
        rw [begins]
        rw [← fewer] at fine ⊢
        refine .take selected short (congrArg (Option.map _) found) rfl (ih ?_)
        exact fun other member => fine other (List.mem_cons_of_mem _ member)
      · have begins : fill level attr count (entry :: rest) j buf = (fill level attr count rest j
              (buf.setNext level infoPlace (nextOf level count j))).passed := by
          have skipped := not_not.mp ((selects_of_stat found).not.mp selected)
          simp only [fill, if_pos more, if_neg (Nat.not_lt.mpr short), found,
            if_pos skipped, nextOf]
        rw [batch_cons_of_neg selected] at fine ⊢
        rw [begins]
        rw [← equal] at fine ⊢
        refine .pass selected (ih ?_)
        exact fun other member => fine other (List.mem_cons_of_mem _ member)
    · have none : count - j = 0 := by omega
      rw [none, batch_zero, fill_of_le (Nat.not_lt.mp more)]
      exact .stop

theorem fill_rc (broken : ∃ entry ∈ batch (selects attr) (count - j) entries, ¬ entry.Fine) :
    (fill level attr count entries j buf).rc = 208 ∨
      (fill level attr count entries j buf).rc = 87 := by
  induction entries generalizing j buf with
  | nil =>
    obtain ⟨entry, member, -⟩ := broken
    simp at member
  | cons entry rest ih =>
    by_cases more : j < count
    · obtain ⟨left, equal⟩ : ∃ left, count - j = left + 1 := ⟨count - j - 1, by omega⟩
      by_cases long : 255 < entry.fname.length
      · left
        simp only [fill, if_pos more, if_pos long]
      cases found : entry.stat with
      | none =>
        right
        simp only [fill, if_pos more, if_neg long, found]
      | some stat =>
        have fine : entry.Fine := ⟨Nat.not_lt.mp long, by simp [found]⟩
        obtain ⟨other, member, notFine⟩ := broken
        rw [equal] at member
        have apart : other ≠ entry := by
          rintro rfl
          exact notFine fine
        by_cases selected : selects attr entry = true
        · have fewer : count - (j + 1) = left := by omega
          rw [batch_cons_of_pos selected, ← fewer] at member
          have behind := (List.mem_cons.mp member).resolve_left apart
          simp only [fill, if_pos more, if_neg long, found,
            if_neg ((selects_of_stat found).mp selected)]
          exact ih ⟨other, behind, notFine⟩
        · rw [batch_cons_of_neg selected, ← equal] at member
          have behind := (List.mem_cons.mp member).resolve_left apart
          have skipped := not_not.mp ((selects_of_stat found).not.mp selected)
          simp only [fill, if_pos more, if_neg long, found, if_pos skipped]
          exact ih ⟨other, behind, notFine⟩
    · have none : count - j = 0 := by omega
      obtain ⟨other, member, -⟩ := broken
      simp [none] at member

namespace Fills

variable {j : Nat} {buf : FindBuf} {looked : List Entry} {filled : Filled}

theorem matching_cons_of_pos {entry : Entry} (selected : selects attr entry = true) :
    matching attr (entry :: looked) = entry :: matching attr looked :=
  List.filter_cons_of_pos selected

theorem matching_cons_of_neg {entry : Entry} (other : ¬ selects attr entry = true) :
    matching attr (entry :: looked) = matching attr looked :=
  List.filter_cons_of_neg other

section

variable (fills : Fills level attr count j buf looked filled)

include fills

theorem rc : filled.rc = 0 := by
  induction fills with
  | stop => rfl
  | pass _ _ ih => exact ih
  | take _ _ _ _ _ ih => exact ih

theorem i :
    filled.i = looked.length := by
  induction fills with
  | stop => rfl
  | pass _ _ ih => exact congrArg (· + 1) ih
  | take _ _ _ _ _ ih => exact congrArg (· + 1) ih

theorem j_eq :
    filled.j = j + (matching attr looked).length := by
  induction fills with
  | stop => rfl
  | pass other _ ih =>
    rw [matching_cons_of_neg other]
    exact ih
  | take selected _ _ _ _ ih =>
    rw [matching_cons_of_pos selected, List.length_cons]
    refine ih.trans ?_
    omega

theorem info_of_pos {place : Nat} (later : 0 < place) :
    filled.buf.info place = buf.info place := by
  induction fills with
  | stop => rfl
  | pass _ _ ih => exact ih
  | take _ _ _ _ _ ih =>
    exact ih.trans (FindBuf.setInfo_info_of_ne (Nat.ne_of_gt later))

theorem info_zero : filled.buf.info 0 =
      match (matching attr looked).getLast? with
      | some entry => entry.record level
      | none => buf.info 0 := by
  induction fills with
  | stop => rfl
  | pass other _ ih =>
    rw [matching_cons_of_neg other]
    exact ih
  | @take _ _ entry looked _ info selected _ recorded _ _ ih =>
    rw [matching_cons_of_pos selected]
    refine ih.trans ?_
    cases rest : (matching attr looked).getLast? with
    | none =>
      have nothing := List.getLast?_eq_none_iff.mp rest
      rw [nothing, List.getLast?_singleton]
      exact (FindBuf.setInfo_info info).trans recorded.symm
    | some last =>
      rw [List.getLast?_cons, rest]
      rfl

theorem next_zero : filled.buf.oNextEntryOffset 0 =
      if looked = [] then buf.oNextEntryOffset 0
      else
        some (nextOf level count (j + (matching attr looked.dropLast).length)) := by
  induction fills with
  | stop => rfl
  | @pass j buf entry looked filled other _ ih =>
    refine ih.trans ?_
    rw [if_neg (List.cons_ne_nil _ _)]
    by_cases last : looked = []
    · rw [if_pos last, last]
      exact FindBuf.setNext_oNextEntryOffset _
    · rw [if_neg last, List.dropLast_cons_of_ne_nil last, matching_cons_of_neg other]
  | @take j buf entry looked filled info selected _ _ _ _ ih =>
    refine ih.trans ?_
    by_cases last : looked = []
    · rw [if_pos last, last, FindBuf.setInfo_oNextEntryOffset]
      exact FindBuf.setNext_oNextEntryOffset _
    · rw [if_neg last, List.dropLast_cons_of_ne_nil last,
        matching_cons_of_pos selected, List.length_cons]
      congr 2
      omega

end

theorem length_baseName_le (fname : List UInt8) :
    (baseName fname).length ≤ fname.length := by
  unfold baseName
  rw [List.length_reverse]
  refine le_trans (List.takeWhile_sublist _).length_le ?_
  rw [List.length_reverse]

theorem written_le (fills : Fills level attr count j buf looked filled)
    (before : buf.written ≤ level.size.toNat) :
    filled.buf.written ≤ level.size.toNat := by
  induction fills with
  | stop => exact before
  | pass _ _ ih =>
    apply ih
    cases level with
    | standard => simpa [FindBuf.setNext, infoPlace, Level.size] using before
    | standardL => simpa [FindBuf.setNext, infoPlace, Level.size] using before
  | @take _ _ entry _ _ info _ short _ name _ ih =>
    apply ih
    have bound : info.achName.length ≤ 255 := by
      rw [name]
      exact le_trans (length_baseName_le _) short
    cases level with
    | standard =>
      simp [FindBuf.setNext, FindBuf.setInfo, infoPlace, Level.size, Level.achName] at before ⊢
      omega
    | standardL =>
      simp [FindBuf.setNext, FindBuf.setInfo, infoPlace, Level.size, Level.achName] at before ⊢
      omega

theorem written_of_none (fills : Fills level attr count j buf looked filled)
    (none : matching attr looked = []) :
    filled.buf.written = if looked = [] then buf.written else max buf.written 4 := by
  induction fills with
  | stop => rfl
  | @pass _ _ _ looked _ other _ ih =>
    rw [matching_cons_of_neg other] at none
    refine (ih none).trans ?_
    simp [FindBuf.setNext, infoPlace]
  | take selected _ _ _ _ _ =>
    rw [matching_cons_of_pos selected] at none
    cases none

end Fills

end

end OsFree.Os2fs
