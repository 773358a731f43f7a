import OsFree.Doscalls.FileCopies

/-!
# What a move deletes

A file that is found below a directory is deleted whether it has been copied or
not, and no directory is ever made.  The code that comes back tells only of the
files of the directory itself.
-/

namespace OsFree.Doscalls

open Machine
open Os2fs (FSRouter FileState)

/-- Something is deleted only after it has been copied or made elsewhere. -/
def Event.Earned (before : List Event) : Event → Prop
  | .deleted item => .copied item item.copy.source.content ∈ before
  | .deletedDir path => ∃ dst, .created path dst ∈ before
  | _ => True

/-- The path of a name that is put in the list. -/
def entered (path name : List UInt8) : List UInt8 :=
  let path := path ++ name.take (CCHMAXPATH - 1)
  (if path.length + 1 < CCHMAXPATH then path ++ [slash] else path).take (CCHMAXPATH - 1)

/-- A file on the way between two directories. -/
def FileEntry.item (entry : FileEntry) (pszSrc pszDst : List UInt8) : Item where
  src := pszSrc ++ entry.achName.take (CCHMAXPATH - 1)
  dst := pszDst ++ entry.achName.take (CCHMAXPATH - 1)
  copy := entry.copy
  delete := entry.delete

/-- What is found is not a directory. -/
def FileEntry.IsFile (entry : FileEntry) : Prop := entry.attrFile &&& FILE_DIRECTORY = 0

instance (entry : FileEntry) : Decidable entry.IsFile := inferInstanceAs (Decidable (_ = _))

namespace Found

/-- The files of the directory itself. -/
def here (pszSrc pszDst : List UInt8) : Found → List Item
  | .files entries _ =>
    (entries.filter (·.IsFile)).map (·.item pszSrc pszDst)
  | .dir _ _ rest => rest.here pszSrc pszDst

/-- The files of the directory and below it. -/
def items (pszSrc pszDst : List UInt8) : Found → List Item
  | .files entries _ =>
    (entries.filter (·.IsFile)).map (·.item pszSrc pszDst)
  | .dir entry below rest =>
    if entry.Below then
      below.items (entered pszSrc entry.achName) (entered pszDst entry.achName) ++
        rest.items pszSrc pszDst
    else rest.items pszSrc pszDst

/-- The directories below the directory. -/
def dirs (pszSrc : List UInt8) : Found → List (List UInt8)
  | .files _ _ => []
  | .dir entry below rest =>
    if entry.Below then
      entered pszSrc entry.achName :: below.dirs (entered pszSrc entry.achName) ++ rest.dirs pszSrc
    else rest.dirs pszSrc

/-- No directory is deleted. -/
def Keeps : Found → Prop
  | .files _ deleteDir => deleteDir ≠ 0
  | .dir entry below rest => (entry.Below → below.Keeps) ∧ rest.Keeps

end Found

/-- Nothing fails when the file is copied. -/
def Item.Succeeds (item : Item) (router : FSRouter) : Prop :=
  item.copy.Succeeds router item.src item.dst

/-- A name with its terminator fits behind a path. -/
def NameFits (room : Nat) (path name : List UInt8) : Prop :=
  (path ++ name.take (CCHMAXPATH - 1)).length < room

/-- A name fits behind a path, with a slash where it is appended. -/
def EntryFits (room : Nat) (path name : List UInt8) : Prop := NameFits room path name ∧
    ((path ++ name.take (CCHMAXPATH - 1)).length + 1 < CCHMAXPATH →
      (path ++ name.take (CCHMAXPATH - 1)).length + 1 < room)

namespace Found

/-- The directories can be put in a list. -/
def Lists (mode : Mode) (pszSrc pszDst : List UInt8) : Found → Prop
  | .files _ _ => True
  | .dir entry _ rest =>
    (entry.Below → EntryFits mode.srcRoom pszSrc entry.achName ∧
      EntryFits mode.dstRoom pszDst entry.achName ∧ entry.allocated) ∧
    rest.Lists mode pszSrc pszDst

/-- The first search can be made. -/
def Begins (found : Found) (mode : Mode) (pszSrc pszDst : List UInt8) : Prop :=
  NameFits mode.srcRoom pszSrc star ∧ found.Lists mode pszSrc pszDst

/-- What follows the first search can be done. -/
def Proceeds (router : FSRouter) (mode : Mode) (pszSrc pszDst : List UInt8) : Found → Prop
  | .files entries _ => NameFits mode.srcRoom pszSrc star ∧
      ∀ entry ∈ entries, entry.IsFile → NameFits mode.srcRoom pszSrc entry.achName ∧
        NameFits mode.dstRoom pszDst entry.achName ∧
        entry.copy.Proceeds router (entry.item pszSrc pszDst).src
          (entry.item pszSrc pszDst).dst mode.ulOptions entry.copy.Fits
  | .dir entry below rest =>
    (entry.Below → below.Begins mode.listed (entered pszSrc entry.achName)
        (entered pszDst entry.achName) ∧
      below.Proceeds router mode.listed (entered pszSrc entry.achName)
        (entered pszDst entry.achName)) ∧
    rest.Proceeds router mode pszSrc pszDst

end Found

namespace CopyCall

variable (call : CopyCall)

/-- What is known of a source that has been found. -/
def Finds (pszOld pszNew : List UInt8) (attrFile : UInt32) : Prop :=
  call.pszOld = some pszOld ∧ call.pszNew = some pszNew ∧ call.queried = .ok attrFile

/-- The files to move. -/
def items (pszOld pszNew : List UInt8) (attrFile : UInt32) : List Item :=
  if attrFile &&& FILE_DIRECTORY ≠ 0 then
    call.found.items (pszOld.take CCHMAXPATH) (pszNew.take CCHMAXPATH)
  else [⟨pszOld, pszNew, call.file, call.delete⟩]

/-- The directories to move. -/
def dirs (pszOld : List UInt8) (attrFile : UInt32) : List (List UInt8) :=
  if attrFile &&& FILE_DIRECTORY ≠ 0 then
    pszOld :: call.found.dirs (pszOld.take CCHMAXPATH)
  else []

/-- The move is right: nothing is deleted too early, each file is complete at the
source or at the target, and no error is told only if all has been moved. -/
structure Moved (walk : Walk) : Prop where
  earned : ∀ before event behind, walk.events = before ++ event :: behind → event.Earned before
  kept : ∀ pszOld pszNew attrFile, call.Finds pszOld pszNew attrFile →
    ∀ item ∈ call.items pszOld pszNew attrFile, .deleted item ∉ walk.events ∨
      .copied item item.copy.source.content ∈ walk.events
  told : walk.result = 0 → ∃ pszOld pszNew attrFile, call.Finds pszOld pszNew attrFile ∧
      (∀ item ∈ call.items pszOld pszNew attrFile,
        .copied item item.copy.source.content ∈ walk.events ∧ .deleted item ∈ walk.events) ∧
      ∀ dir ∈ call.dirs pszOld attrFile,
        (∃ dst, .created dir dst ∈ walk.events) ∧ .deletedDir dir ∈ walk.events

def MoveMeets (uninitialised : UInt32) : Prop :=
  ∃ walk, call.DosMove uninitialised = .ok walk ∧ call.Moved walk

/-- The mode of a move. -/
def moveMode : Mode := ⟨0, true, call.oldRoom, call.newRoom⟩

/-- A file can be copied.  Of a directory, no file can be deleted that cannot be
copied, no directory can be deleted, and a file of the directory itself cannot
be copied. -/
def MoveAllowed : Prop := ∀ pszOld pszNew attrFile, call.Finds pszOld pszNew attrFile →
    if attrFile &&& FILE_DIRECTORY ≠ 0 then
      let pszSrc := pszOld.take CCHMAXPATH
      let pszDst := pszNew.take CCHMAXPATH
      call.found.Begins call.moveMode pszSrc pszDst ∧
        call.found.Proceeds call.server.router call.moveMode pszSrc pszDst ∧
        (∀ item ∈ call.found.items pszSrc pszDst,
          item.delete = 0 → item.Succeeds call.server.router) ∧
        call.found.Keeps ∧
        ∃ item ∈ call.found.here pszSrc pszDst, ¬ item.Succeeds call.server.router
    else
      call.file.Proceeds call.server.router pszOld pszNew 0 call.file.Fits

end CopyCall

/-! ## Names are put behind paths -/

section

variable {room : Nat} {path name : List UInt8}

theorem putName_of_fits (fits : NameFits room path name) :
    putName room path name = .ok (path ++ name.take (CCHMAXPATH - 1)) := by
  unfold NameFits at fits
  rw [putName, if_pos fits]

theorem fits_of_putName {result : List UInt8}
    (ran : putName room path name = .ok result) : NameFits room path name := by
  unfold putName at ran
  split at ran
  case isTrue fits => exact fits
  case isFalse large => cases ran

theorem enter_of_fits (fits : EntryFits room path name) :
    enter room path name = .ok (entered path name) := by
  simp only [enter, putName_of_fits fits.1, bind_ok, putSlash, entered]
  by_cases short : (path ++ name.take (CCHMAXPATH - 1)).length + 1 < CCHMAXPATH
  · simp only [if_pos short, if_pos (fits.2 short)]
    rfl
  · simp only [if_neg short]
    rfl

theorem fits_of_enter {result : List UInt8}
    (ran : enter room path name = .ok result) : EntryFits room path name := by
  obtain ⟨named, put, rest⟩ := bind_eq_ok_iff.mp ran
  have fits := fits_of_putName put
  refine ⟨fits, ?_⟩
  intro short
  obtain ⟨slashed, put', -⟩ := bind_eq_ok_iff.mp rest
  rw [putName_of_fits fits] at put
  obtain rfl := Except.ok.inj put
  unfold putSlash at put'
  rw [if_pos short] at put'
  split at put'
  case isTrue enough => exact enough
  case isFalse large => cases put'

theorem CheckPath_entered (name_ne : name ≠ []) : CheckPath (entered path name) = .ok 0 := by
  have long : 2 ≤ (entered path name).length := by
    have positive := List.length_pos_of_ne_nil name_ne
    simp only [entered]
    split
    case isTrue short =>
      simp only [CCHMAXPATH, List.length_take, List.length_append, List.length_singleton]
      omega
    case isFalse large =>
      simp only [CCHMAXPATH, List.length_take, List.length_append] at large ⊢
      omega
  match entered path name, long with
  | _ :: _ :: _, _ => rfl

end

/-! ## What is done -/

/-- What has been deleted was earned by what came before. -/
def AllEarned (events : List Event) : Prop :=
  ∀ before event behind, events = before ++ event :: behind → event.Earned before

theorem Event.Earned.mono {event : Event} {before before' : List Event}
    (earned : event.Earned before) (subset : before ⊆ before') :
    event.Earned before' := by
  cases event with
  | copied item target => trivial
  | created src dst => trivial
  | deleted item => exact subset earned
  | deletedDir path =>
    obtain ⟨dst, made⟩ := earned
    exact ⟨dst, subset made⟩

theorem AllEarned.append {first second : List Event} (earned : AllEarned first)
    (later : AllEarned second) : AllEarned (first ++ second) := by
  intro before event behind split
  rcases List.append_eq_append_iff.mp split with ⟨between, rfl, rest⟩ | ⟨between, rfl, rest⟩
  · exact (later between event behind rest).mono (List.subset_append_right _ _)
  · cases between with
    | nil =>
      have start : second = [] ++ event :: behind := by simpa using rest.symm
      simpa using (later [] event behind start).mono (List.nil_subset _)
    | cons head between =>
      obtain ⟨rfl, rfl⟩ := List.cons.inj rest
      exact earned before event between rfl

theorem AllEarned.of_mem {events : List Event} {event : Event}
    (earned : AllEarned events) (among : event ∈ events) :
    event.Earned events := by
  obtain ⟨before, behind, split⟩ := List.append_of_mem among
  refine (earned before event behind split).mono ?_
  rw [split]
  exact List.subset_append_left _ _

open Classical in
/-- What a move does to a file. -/
noncomputable def Item.log (item : Item) (router : FSRouter) : List Event :=
  (if item.Succeeds router then [.copied item item.copy.source.content] else []) ++
    if item.delete = 0 then [.deleted item] else []

/-- The path of the last file. -/
def lastPath (pszSrc : List UInt8) : List FileEntry → List UInt8 → List UInt8
  | [], last => last
  | entry :: rest, last =>
    lastPath pszSrc rest
      (if entry.IsFile then pszSrc ++ entry.achName.take (CCHMAXPATH - 1) else last)

/-- What a move does to a directory. -/
noncomputable def Found.log (router : FSRouter) (pszSrc pszDst : List UInt8) : Found → List Event
  | .files entries deleteDir =>
    ((entries.filter (·.IsFile)).map (·.item pszSrc pszDst)).flatMap (·.log router) ++
      if deleteDir = 0 then
        [.deletedDir (lastPath pszSrc entries (pszSrc ++ star))]
      else []
  | .dir entry below rest =>
    if entry.Below then
      below.log router (entered pszSrc entry.achName) (entered pszDst entry.achName) ++
        rest.log router pszSrc pszDst
    else rest.log router pszSrc pszDst

section

variable {item : Item} {router : FSRouter}

theorem mem_log_item_iff {event : Event} : event ∈ item.log router ↔
    (item.Succeeds router ∧ event = .copied item item.copy.source.content) ∨
      (item.delete = 0 ∧ event = .deleted item) := by
  classical
  unfold Item.log
  split_ifs <;> simp_all

theorem allEarned_log_item (earns : item.delete = 0 → item.Succeeds router) :
    AllEarned (item.log router) := by
  classical
  intro before event behind split
  cases event with
  | copied item target => trivial
  | created src dst => trivial
  | deletedDir path =>
    have among : Event.deletedDir path ∈ item.log router := by simp [split]
    rcases mem_log_item_iff.mp among with ⟨-, same⟩ | ⟨-, same⟩ <;> cases same
  | deleted other =>
    have among : Event.deleted other ∈ item.log router := by simp [split]
    rcases mem_log_item_iff.mp among with ⟨-, same⟩ | ⟨gone, same⟩
    · cases same
    · obtain rfl := Event.deleted.inj same
      have shape : other.log router =
          [.copied other other.copy.source.content, .deleted other] := by
        simp [Item.log, gone, earns gone]
      rw [shape] at split
      cases before with
      | nil => cases split
      | cons first before =>
        obtain ⟨rfl, -⟩ := List.cons.inj split
        exact List.mem_cons_self

theorem allEarned_flatMap_log {items : List Item}
    (earns : ∀ item ∈ items, item.delete = 0 → item.Succeeds router) :
    AllEarned (items.flatMap (·.log router)) := by
  induction items with
  | nil =>
    intro before event behind split
    simp at split
  | cons item items ih =>
    refine (allEarned_log_item (earns item List.mem_cons_self)).append ?_
    exact ih fun item among =>
      earns item (List.mem_cons_of_mem _ among)

end

section

variable {router : FSRouter} {pszSrc pszDst : List UInt8} {found : Found}

theorem mem_log_iff {event : Event} (notDir : ∀ path, event ≠ .deletedDir path) :
    event ∈ found.log router pszSrc pszDst ↔
      ∃ item ∈ found.items pszSrc pszDst, event ∈ item.log router := by
  induction found generalizing pszSrc pszDst with
  | files entries deleteDir =>
    simp only [Found.log, Found.items, List.mem_append, List.mem_flatMap]
    refine or_iff_left ?_
    split_ifs
    · simpa using notDir _
    · simp
  | dir entry below rest belowHypothesis restHypothesis =>
    simp only [Found.log, Found.items]
    split_ifs
    · simp only [List.mem_append, belowHypothesis, restHypothesis]
      constructor
      · rintro (⟨item, among, logged⟩ | ⟨item, among, logged⟩)
        · exact ⟨item, .inl among, logged⟩
        · exact ⟨item, .inr among, logged⟩
      · rintro ⟨item, among | among, logged⟩
        · exact .inl ⟨item, among, logged⟩
        · exact .inr ⟨item, among, logged⟩
    · exact restHypothesis

theorem keeps_iff : found.Keeps ↔
    ∀ path, .deletedDir path ∉ found.log router pszSrc pszDst := by
  induction found generalizing pszSrc pszDst with
  | files entries deleteDir =>
    have others : ∀ path, Event.deletedDir path ∉
        ((entries.filter (·.IsFile)).map (·.item pszSrc pszDst)).flatMap
          (·.log router) := by
      simp only [List.mem_flatMap, not_exists, not_and]
      intro path item _ logged
      rcases mem_log_item_iff.mp logged with ⟨-, same⟩ | ⟨-, same⟩ <;> cases same
    simp only [Found.Keeps, Found.log, List.mem_append, others, false_or]
    split_ifs with gone
    · simp [gone]
    · simp [gone]
  | dir entry below rest belowHypothesis restHypothesis =>
    simp only [Found.Keeps, Found.log]
    split_ifs with isBelow
    · simp only [isBelow, forall_const, List.mem_append, not_or, forall_and]
      exact and_congr belowHypothesis restHypothesis
    · simp only [isBelow, false_implies, true_and]
      exact restHypothesis

theorem allEarned_log (earns : ∀ item ∈ found.items pszSrc pszDst,
      item.delete = 0 → item.Succeeds router) (keeps : found.Keeps) :
    AllEarned (found.log router pszSrc pszDst) := by
  induction found generalizing pszSrc pszDst with
  | files entries deleteDir =>
    simp only [Found.log, if_neg (show ¬ deleteDir = 0 from keeps), List.append_nil]
    exact allEarned_flatMap_log earns
  | dir entry below rest belowHypothesis restHypothesis =>
    simp only [Found.items] at earns
    simp only [Found.log]
    split_ifs with isBelow
    · rw [if_pos isBelow] at earns
      refine AllEarned.append ?_ ?_
      · exact belowHypothesis (fun item among => earns item (List.mem_append_left _ among))
          (keeps.1 isBelow)
      · exact restHypothesis (fun item among => earns item (List.mem_append_right _ among)) keeps.2
    · rw [if_neg isBelow] at earns
      exact restHypothesis earns keeps.2

end

/-- A walk has gone on: something has been done, and the result tells of an error
if it did before or if something has failed. -/
structure Walk.Follows (walk walk' : Walk) (events : List Event) (fine : Prop) :
    Prop where
  events : walk'.events = walk.events ++ events
  router : walk'.server.router = walk.server.router
  result_iff : walk'.result = 0 ↔ walk.result = 0 ∧ fine

section

variable {mode : Mode} {pszSrc pszDst : List UInt8} {walk : Walk}

theorem moveFile_of_proceeds (deletes : mode.ulNeedDel = true) {item : Item}
    (proceeds : item.copy.Proceeds walk.server.router item.src item.dst
      mode.ulOptions item.copy.Fits) :
    ∃ walk', moveFile mode item walk = .ok walk' ∧ walk.Follows walk' (item.log walk.server.router)
        (item.Succeeds walk.server.router) := by
  obtain ⟨copied, ran, outcome⟩ := FileCopy.CopyFile_of_proceeds proceeds
  simp only [moveFile, ran, bind_ok, deletes, true_and]
  refine ⟨_, rfl, ?_, outcome.router, ?_⟩
  · refine congrArg (walk.events ++ ·) ?_
    unfold Item.log Item.Succeeds
    refine congrArg (· ++ _) ?_
    by_cases ok : copied.rc = 0
    · rw [if_pos ok, if_pos (outcome.rc_iff.mp ok), (outcome.complete ok).1]
    · rw [if_neg ok, if_neg fun succeeds => ok (outcome.rc_iff.mpr succeeds)]
  · unfold Item.Succeeds
    rw [← outcome.rc_iff]
    by_cases ok : copied.rc = 0
    · simp [ok]
    · simp [ok]

theorem copyFiles_of_proceeds (deletes : mode.ulNeedDel = true)
    {entries : List FileEntry} {last : List UInt8}
    (proceeds : ∀ entry ∈ entries, entry.IsFile → NameFits mode.srcRoom pszSrc entry.achName ∧
      NameFits mode.dstRoom pszDst entry.achName ∧
      entry.copy.Proceeds walk.server.router (entry.item pszSrc pszDst).src
        (entry.item pszSrc pszDst).dst mode.ulOptions entry.copy.Fits) :
    ∃ walk', copyFiles mode pszSrc pszDst entries last walk =
        .ok (lastPath pszSrc entries last, walk') ∧
      walk.Follows walk' (((entries.filter (·.IsFile)).map (·.item pszSrc pszDst)).flatMap
          (·.log walk.server.router))
        (∀ item ∈ (entries.filter (·.IsFile)).map (·.item pszSrc pszDst),
          item.Succeeds walk.server.router) := by
  induction entries generalizing last walk with
  | nil => exact ⟨walk, rfl, by simp, rfl, by simp⟩
  | cons entry entries ih =>
    have others := fun other among => proceeds other (List.mem_cons_of_mem _ among)
    by_cases isFile : entry.IsFile
    · obtain ⟨srcFits, dstFits, copies⟩ := proceeds entry List.mem_cons_self isFile
      obtain ⟨walk', ran, moved⟩ :=
        @moveFile_of_proceeds mode walk deletes (entry.item pszSrc pszDst) copies
      have plain : ¬ entry.attrFile &&& FILE_DIRECTORY ≠ 0 := not_not.mpr isFile
      simp only [copyFiles, if_neg plain, putName_of_fits srcFits,
        putName_of_fits dstFits, bind_ok, lastPath, if_pos isFile]
      unfold FileEntry.item at ran
      rw [ran, bind_ok]
      rw [← moved.router] at others
      obtain ⟨walk'', ran', rest⟩ := ih others
      refine ⟨walk'', ran', ?_, rest.router.trans moved.router, ?_⟩
      · rw [rest.events, moved.events, moved.router]
        simp [isFile]
      · rw [rest.result_iff, moved.result_iff, moved.router]
        simp [isFile, and_assoc]
    · have isDir : entry.attrFile &&& FILE_DIRECTORY ≠ 0 := isFile
      simp only [copyFiles, if_pos isDir, lastPath, if_neg isFile]
      obtain ⟨walk', ran, rest⟩ := ih others
      refine ⟨walk', ran, ?_⟩
      simpa [isFile] using rest

theorem proceeds_of_copyFiles (deletes : mode.ulNeedDel = true)
    {entries : List FileEntry} {last : List UInt8} {outcome : List UInt8 × Walk}
    (ran : copyFiles mode pszSrc pszDst entries last walk = .ok outcome) :
    ∀ entry ∈ entries, entry.IsFile → NameFits mode.srcRoom pszSrc entry.achName ∧
      NameFits mode.dstRoom pszDst entry.achName ∧
      entry.copy.Proceeds walk.server.router (entry.item pszSrc pszDst).src
        (entry.item pszSrc pszDst).dst mode.ulOptions entry.copy.Fits := by
  induction entries generalizing last walk with
  | nil => simp
  | cons entry entries ih =>
    unfold copyFiles at ran
    by_cases isFile : entry.IsFile
    · have plain : ¬ entry.attrFile &&& FILE_DIRECTORY ≠ 0 := not_not.mpr isFile
      rw [if_neg plain] at ran
      obtain ⟨src, putSrc, next⟩ := bind_eq_ok_iff.mp ran
      obtain ⟨dst, putDst, next'⟩ := bind_eq_ok_iff.mp next
      obtain ⟨walk', moves, goesOn⟩ := bind_eq_ok_iff.mp next'
      have srcFits := fits_of_putName putSrc
      have dstFits := fits_of_putName putDst
      rw [putName_of_fits srcFits] at putSrc
      rw [putName_of_fits dstFits] at putDst
      obtain rfl := Except.ok.inj putSrc
      obtain rfl := Except.ok.inj putDst
      obtain ⟨copied, copies, -⟩ := bind_eq_ok_iff.mp moves
      have proceeds := FileCopy.proceeds_of_CopyFile copies
      obtain ⟨walk'', ran', moved⟩ :=
        @moveFile_of_proceeds mode walk deletes (entry.item pszSrc pszDst) proceeds
      obtain rfl := Except.ok.inj (moves.symm.trans ran')
      have others := ih goesOn
      rw [moved.router] at others
      intro other among
      cases among with
      | head => exact fun _ => ⟨srcFits, dstFits, proceeds⟩
      | tail _ among => exact others other among
    · have isDir : entry.attrFile &&& FILE_DIRECTORY ≠ 0 := isFile
      rw [if_pos isDir] at ran
      intro other among
      cases among with
      | head => exact fun plain => absurd plain isFile
      | tail _ among => exact ih ran other among

theorem Found.Lists.enter {entry : DirEntry} {below rest : Found}
    (lists : (Found.dir entry below rest).Lists mode pszSrc pszDst)
    (isBelow : entry.Below) :
    Doscalls.enter mode.srcRoom pszSrc entry.achName = .ok (entered pszSrc entry.achName) ∧
      Doscalls.enter mode.dstRoom pszDst entry.achName =
        .ok (entered pszDst entry.achName) :=
  ⟨enter_of_fits (lists.1 isBelow).1, enter_of_fits (lists.1 isBelow).2.1⟩

theorem listDirs_eq_ok_iff {found : Found} :
    listDirs mode pszSrc pszDst found = .ok () ↔ found.Lists mode pszSrc pszDst := by
  induction found with
  | files entries deleteDir => simp [listDirs, Found.Lists]
  | dir entry below rest _ ih =>
    unfold listDirs Found.Lists
    by_cases isBelow : entry.Below
    · simp only [isBelow, if_true, forall_const]
      constructor
      · intro ran
        obtain ⟨src, enters, next⟩ := bind_eq_ok_iff.mp ran
        obtain ⟨dst, enters', next'⟩ := bind_eq_ok_iff.mp next
        split at next'
        case isTrue allocated =>
          exact ⟨⟨fits_of_enter enters, fits_of_enter enters', allocated⟩, ih.mp next'⟩
        case isFalse lacking => cases next'
      · rintro ⟨⟨srcFits, dstFits, allocated⟩, lists⟩
        rw [enter_of_fits srcFits, enter_of_fits dstFits]
        simpa [allocated] using ih.mpr lists
    · simpa [if_neg isBelow, isBelow] using ih

theorem beginTree_eq_ok_iff {found : Found} : beginTree mode pszSrc pszDst found = .ok () ↔
      found.Begins mode pszSrc pszDst := by
  constructor
  · intro ran
    obtain ⟨path, put, lists⟩ := bind_eq_ok_iff.mp ran
    exact ⟨fits_of_putName put, listDirs_eq_ok_iff.mp lists⟩
  · rintro ⟨fits, lists⟩
    rw [beginTree, putName_of_fits fits, bind_ok]
    exact listDirs_eq_ok_iff.mpr lists

section

variable (deletes : mode.ulNeedDel = true)

include deletes

theorem copyFound_of_proceeds {found : Found} (lists : found.Lists mode pszSrc pszDst)
    (proceeds : found.Proceeds walk.server.router mode pszSrc pszDst) :
    ∃ walk', copyFound mode pszSrc pszDst found walk = .ok walk' ∧
      walk.Follows walk' (found.log walk.server.router pszSrc pszDst)
        (∀ item ∈ found.here pszSrc pszDst, item.Succeeds walk.server.router) := by
  induction found generalizing mode pszSrc pszDst walk with
  | files entries deleteDir =>
    obtain ⟨fits, proceeds⟩ := proceeds
    obtain ⟨walk', ran, moved⟩ := @copyFiles_of_proceeds mode pszSrc pszDst walk
      deletes entries (pszSrc ++ star) proceeds
    have first : putName mode.srcRoom pszSrc star = .ok (pszSrc ++ star) := putName_of_fits fits
    simp only [copyFound, first, bind_ok, ran, deletes, true_and, Found.log, Found.here]
    by_cases gone : deleteDir = 0
    · simp only [if_pos gone]
      refine ⟨_, rfl, ?_, moved.router, moved.result_iff⟩
      rw [moved.events, List.append_assoc]
    · simp only [if_neg gone, List.append_nil]
      exact ⟨walk', rfl, moved⟩
  | dir entry below rest belowHypothesis restHypothesis =>
    by_cases isBelow : entry.Below
    · obtain ⟨begins, inside⟩ := proceeds.1 isBelow
      obtain ⟨src, dst⟩ := lists.enter isBelow
      obtain ⟨inner, ran, moved⟩ :=
        @belowHypothesis mode.listed _ _ { walk with result := 0 } deletes begins.2 inside
      have others := proceeds.2
      rw [← show inner.server.router = walk.server.router from moved.router] at others
      obtain ⟨walk', ran', rest⟩ := @restHypothesis mode pszSrc pszDst
        { inner with result := walk.result } deletes lists.2 others
      have entersDst : CheckPath (entered pszDst entry.achName) = .ok 0 :=
        CheckPath_entered entry.achName_ne
      simp only [copyFound, if_pos isBelow, src, dst, bind_ok, entersDst, ne_eq,
        not_true, if_false, beginTree_eq_ok_iff.mpr begins, ran, Found.log, Found.here]
      refine ⟨walk', ran', ?_, rest.router.trans moved.router, ?_⟩
      · rw [rest.events]
        simp only [moved.events, moved.router, List.append_assoc]
      · rw [rest.result_iff]
        simp only [moved.router]
    · simp only [copyFound, if_neg isBelow, Found.log, Found.here]
      exact restHypothesis deletes lists.2 proceeds.2

theorem proceeds_of_copyFound {found : Found}
    (lists : found.Lists mode pszSrc pszDst) {walk' : Walk}
    (ran : copyFound mode pszSrc pszDst found walk = .ok walk') :
    found.Proceeds walk.server.router mode pszSrc pszDst := by
  induction found generalizing mode pszSrc pszDst walk walk' with
  | files entries deleteDir =>
    obtain ⟨src, put, next⟩ := bind_eq_ok_iff.mp ran
    obtain ⟨outcome, copies, -⟩ := bind_eq_ok_iff.mp next
    exact ⟨fits_of_putName put, proceeds_of_copyFiles deletes copies⟩
  | dir entry below rest belowHypothesis restHypothesis =>
    unfold copyFound at ran
    by_cases isBelow : entry.Below
    · obtain ⟨src, dst⟩ := lists.enter isBelow
      have entersDst : CheckPath (entered pszDst entry.achName) = .ok 0 :=
        CheckPath_entered entry.achName_ne
      simp only [if_pos isBelow, src, dst, bind_ok, entersDst, ne_eq, not_true, if_false] at ran
      obtain ⟨_, starts, next⟩ := bind_eq_ok_iff.mp ran
      obtain ⟨inner, copies, goesOn⟩ := bind_eq_ok_iff.mp next
      have begins := beginTree_eq_ok_iff.mp starts
      have inside := @belowHypothesis mode.listed _ _ { walk with result := 0 }
        deletes begins.2 _ copies
      obtain ⟨inner', ran', moved⟩ := @copyFound_of_proceeds mode.listed _ _
        { walk with result := 0 } deletes below begins.2 inside
      obtain rfl := Except.ok.inj (copies.symm.trans ran')
      have others := @restHypothesis mode pszSrc pszDst
        { inner with result := walk.result } deletes lists.2 _ goesOn
      rw [show inner.server.router = walk.server.router from moved.router] at others
      exact ⟨fun _ => ⟨begins, inside⟩, others⟩
    · rw [if_neg isBelow] at ran
      exact ⟨fun isBelow' => absurd isBelow' isBelow, restHypothesis deletes lists.2 ran⟩

theorem CopyTree_of_proceeds {found : Found} {server : FileState}
    (begins : found.Begins mode (pszSrc.take CCHMAXPATH) (pszDst.take CCHMAXPATH))
    (proceeds : found.Proceeds server.router mode (pszSrc.take CCHMAXPATH)
      (pszDst.take CCHMAXPATH)) :
    ∃ walk, CopyTree mode pszSrc pszDst found server = .ok walk ∧
      (⟨0, [], server⟩ : Walk).Follows walk
        (found.log server.router (pszSrc.take CCHMAXPATH) (pszDst.take CCHMAXPATH))
        (∀ item ∈ found.here (pszSrc.take CCHMAXPATH) (pszDst.take CCHMAXPATH),
          item.Succeeds server.router) := by
  obtain ⟨walk, ran, follows⟩ := @copyFound_of_proceeds mode
    (pszSrc.take CCHMAXPATH) (pszDst.take CCHMAXPATH) ⟨0, [], server⟩ deletes found
    begins.2 proceeds
  simp only [CopyTree, beginTree_eq_ok_iff.mpr begins, bind_ok]
  exact ⟨walk, ran, follows⟩

theorem proceeds_of_CopyTree {found : Found} {server : FileState} {walk : Walk}
    (ran : CopyTree mode pszSrc pszDst found server = .ok walk) :
    found.Begins mode (pszSrc.take CCHMAXPATH) (pszDst.take CCHMAXPATH) ∧
      found.Proceeds server.router mode (pszSrc.take CCHMAXPATH)
        (pszDst.take CCHMAXPATH) := by
  obtain ⟨_, starts, goesOn⟩ := bind_eq_ok_iff.mp ran
  have begins := beginTree_eq_ok_iff.mp starts
  exact ⟨begins, proceeds_of_copyFound deletes begins.2 goesOn⟩

end

end

namespace CopyCall

variable {call : CopyCall}

theorem moved_of_lost {rc : UInt32} (refused : rc ≠ 0)
    (lost : ∀ pszOld pszNew attrFile, ¬ call.Finds pszOld pszNew attrFile) :
    call.Moved ⟨rc, [], call.server⟩ where
  earned := by simp
  kept := fun pszOld pszNew attrFile finds => absurd finds (lost pszOld pszNew attrFile)
  told := fun ok => absurd ok refused

theorem Finds.unique {pszOld pszNew pszOld' pszNew' : List UInt8} {attrFile attrFile' : UInt32}
    (finds : call.Finds pszOld pszNew attrFile)
    (finds' : call.Finds pszOld' pszNew' attrFile') :
    pszOld' = pszOld ∧ pszNew' = pszNew ∧ attrFile' = attrFile := by
  obtain ⟨old, new, queried⟩ := finds
  obtain ⟨old', new', queried'⟩ := finds'
  exact ⟨Option.some.inj (old'.symm.trans old), Option.some.inj (new'.symm.trans new),
    Except.ok.inj (queried'.symm.trans queried)⟩

section

variable {pszOld pszNew : List UInt8} {attrFile : UInt32}

theorem moved_dir_iff (finds : call.Finds pszOld pszNew attrFile)
    (isDir : attrFile &&& FILE_DIRECTORY ≠ 0) {walk : Walk}
    (follows : (⟨0, [], call.server⟩ : Walk).Follows walk
      (call.found.log call.server.router (pszOld.take CCHMAXPATH) (pszNew.take CCHMAXPATH))
      (∀ item ∈ call.found.here (pszOld.take CCHMAXPATH) (pszNew.take CCHMAXPATH),
        item.Succeeds call.server.router)) :
    call.Moved walk ↔ (∀ item ∈ call.found.items (pszOld.take CCHMAXPATH) (pszNew.take CCHMAXPATH),
        item.delete = 0 → item.Succeeds call.server.router) ∧
      call.found.Keeps ∧
      ∃ item ∈ call.found.here (pszOld.take CCHMAXPATH) (pszNew.take CCHMAXPATH),
        ¬ item.Succeeds call.server.router := by
  have events : walk.events = call.found.log call.server.router
      (pszOld.take CCHMAXPATH) (pszNew.take CCHMAXPATH) := by
    rw [follows.events, List.nil_append]
  have never : ∀ src dst, Event.created src dst ∉ walk.events := by
    intro src dst among
    rw [events, mem_log_iff (by simp)] at among
    obtain ⟨item, -, logged⟩ := among
    rcases mem_log_item_iff.mp logged with ⟨-, same⟩ | ⟨-, same⟩ <;> cases same
  have deleted_of : ∀ item ∈ call.found.items (pszOld.take CCHMAXPATH)
      (pszNew.take CCHMAXPATH), item.delete = 0 → .deleted item ∈ walk.events := by
    intro item among gone
    rw [events, mem_log_iff (by simp)]
    exact ⟨item, among, mem_log_item_iff.mpr (.inr ⟨gone, rfl⟩)⟩
  have succeeds_of : ∀ item : Item, .copied item item.copy.source.content ∈ walk.events →
        item.Succeeds call.server.router := by
    intro item copied
    rw [events, mem_log_iff (by simp)] at copied
    obtain ⟨other, -, logged⟩ := copied
    rcases mem_log_item_iff.mp logged with ⟨succeeds, same⟩ | ⟨-, same⟩
    · obtain ⟨rfl, -⟩ := Event.copied.inj same
      exact succeeds
    · cases same
  have told : (∃ item ∈ call.found.here (pszOld.take CCHMAXPATH)
      (pszNew.take CCHMAXPATH), ¬ item.Succeeds call.server.router) ↔
        walk.result ≠ 0 := by
    rw [ne_eq, follows.result_iff]
    simp
  constructor
  · intro moved
    refine ⟨?_, ?_, ?_⟩
    · intro item among gone
      exact succeeds_of item (AllEarned.of_mem moved.earned (deleted_of item among gone))
    · rw [keeps_iff, ← events]
      intro path among
      obtain ⟨dst, made⟩ := AllEarned.of_mem moved.earned among
      exact never path dst made
    · rw [told]
      intro ok
      obtain ⟨pszOld', pszNew', attrFile', finds', -, dirs⟩ := moved.told ok
      obtain ⟨rfl, rfl, rfl⟩ := finds.unique finds'
      have root : pszOld' ∈ call.dirs pszOld' attrFile' := by
        rw [CopyCall.dirs, if_pos isDir]
        exact List.mem_cons_self
      obtain ⟨⟨dst, made⟩, -⟩ := dirs pszOld' root
      exact never pszOld' dst made
  · rintro ⟨earns, keeps, fails⟩
    refine ⟨?_, ?_, fun ok => absurd ok (told.mp fails)⟩
    · rw [events]
      exact allEarned_log earns keeps
    · intro pszOld' pszNew' attrFile' finds' item among
      obtain ⟨rfl, rfl, rfl⟩ := finds.unique finds'
      by_cases gone : .deleted item ∈ walk.events
      · refine .inr ?_
        rw [events] at gone ⊢
        exact AllEarned.of_mem (allEarned_log earns keeps) gone
      · exact .inl gone

theorem moved_file (finds : call.Finds pszOld pszNew attrFile)
    (plain : attrFile &&& FILE_DIRECTORY = 0) {copied : Copied}
    (outcome : call.file.Outcome call.server pszOld pszNew copied) :
    if copied.rc ≠ 0 then call.Moved ⟨copied.rc, [], copied.server⟩
    else call.Moved ⟨call.delete,
      .copied ⟨pszOld, pszNew, call.file, call.delete⟩ copied.target :: (if call.delete = 0 then
          [.deleted ⟨pszOld, pszNew, call.file, call.delete⟩] else []),
      copied.server⟩ := by
  have isDir : ¬ attrFile &&& FILE_DIRECTORY ≠ 0 := not_not.mpr plain
  split_ifs with failed gone
  · exact ⟨by simp, by simp, fun ok => absurd ok failed⟩
  · have target := (outcome.complete (not_not.mp failed)).1
    refine ⟨?_, ?_, ?_⟩
    · intro before event behind split
      match before, split with
      | [], split =>
        obtain ⟨rfl, -⟩ := List.cons.inj split
        trivial
      | [first], split =>
        obtain ⟨rfl, rest⟩ := List.cons.inj split
        obtain ⟨rfl, -⟩ := List.cons.inj rest
        rw [target]
        exact List.mem_cons_self
      | first :: second :: before, split => simp at split
    · intro pszOld' pszNew' attrFile' finds' item among
      obtain ⟨rfl, rfl, rfl⟩ := finds.unique finds'
      rw [CopyCall.items, if_neg isDir, List.mem_singleton] at among
      subst among
      rw [target]
      exact .inr List.mem_cons_self
    · intro _
      refine ⟨pszOld, pszNew, attrFile, finds, ?_, ?_⟩
      · intro item among
        rw [CopyCall.items, if_neg isDir, List.mem_singleton] at among
        subst among
        rw [target]
        exact ⟨List.mem_cons_self, List.mem_cons_of_mem _ List.mem_cons_self⟩
      · rw [CopyCall.dirs, if_neg isDir]
        simp
  · refine ⟨?_, ?_, fun ok => absurd ok gone⟩
    · intro before event behind split
      cases before with
      | nil =>
        obtain ⟨rfl, -⟩ := List.cons.inj split
        trivial
      | cons first before => simp at split
    · intro pszOld' pszNew' attrFile' _ item _
      exact .inl (by simp)

end

end CopyCall

/-- "a:\\d/" and "a:\\e/" -/
def oldDir : List UInt8 := [0x61, 0x3a, 0x5c, 0x64, 0x2f]
def newDir : List UInt8 := [0x61, 0x3a, 0x5c, 0x65, 0x2f]

/-- A file whose target has no directory to be in. -/
def copyLost : FileCopy where
  alloc := 0
  room := 4
  hSrc := 0
  hDst := 0
  source := onDriveA (some []) 3
  target := { full := .ok, content := none, granted := .error 2 }
  transfer :=
    { pieces := []
      failed := false
      begins := List.prefix_rfl
      whole := fun _ => rfl }

/-- A directory with a directory "s" that has a file "f". -/
def callNested : CopyCall where
  pszOld := some oldDir
  pszNew := some newDir
  oldRoom := 260
  newRoom := 260
  queried := .ok 0x10
  file := copyLost
  delete := 0
  found := .dir ⟨[0x73], 0x10, true, List.cons_ne_nil _ _⟩
    (.files [⟨[0x66], 0, copyLost, 0⟩] 3) (.files [] 3)
  server := ⟨FSRouter.init, [], fun _ => none, 0⟩

end OsFree.Doscalls
