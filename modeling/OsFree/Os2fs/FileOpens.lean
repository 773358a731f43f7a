import OsFree.Os2fs.FileHandles

/-!
# Opens and their owners

A handle should stand for the open of one process.  The list of the handles
answers for the first open of a number, and for any process.
-/

namespace OsFree.Os2fs

open Machine

/-- An open: the process, the open file of the host and the mode. -/
structure Owner where
  process : Nat
  file : Nat
  mode : UInt32

/-- The server, and the opens that own the handles behind the first three. -/
structure Opens where
  state : FileState
  owner : UInt32 → Option Owner

namespace Opens

variable (opens : Opens)

/-- The open that a handle of a process stands for.  Each process has the first
three handles. -/
def ownedBy (process : Nat) (hFile : UInt32) : Option Owner :=
  if hFile ≤ 2 then some ⟨process, hFile.toNat, 0x42⟩
  else (opens.owner hFile).filter fun owner => owner.process = process

/-- The opens after an answer to a process. -/
def after (process : Nat) (request : FileRequest) (outcome : FileAnswer × FileState) : Opens where
  state := outcome.2
  owner :=
    if outcome.1.rc ≠ 0 then opens.owner
    else
      match request, outcome.1.handle with
      | .openL request, some handle =>
        Function.update opens.owner handle (some ⟨process, opens.state.files, request.fsOpenMode⟩)
      | .close hFile, _ => Function.update opens.owner hFile none
      | .dupHandle hFile _ _, some handle =>
        Function.update opens.owner handle
          ((opens.ownedBy process hFile).map fun owner => { owner with process })
      | _, _ => opens.owner

/-- A request reaches the open that owns the handle, or is refused with
ERROR_INVALID_HANDLE, which is 6. -/
def Reaches (process : Nat) (hFile : UInt32) (answer : FileAnswer)
    (reached : Owner → Prop) : Prop :=
  match opens.ownedBy process hFile with
  | some owner => answer.rc = 0 ∧ reached owner
  | none => answer.rc = 6

/-- What the answer to a process should be.  A duplicate is made unless there are
no more handles; a certain handle for it may be refused. -/
def Right (process : Nat) : FileRequest → FileAnswer → Prop
  | .openL _, answer =>
    answer.rc = 0 → ∃ handle, answer.handle = some handle ∧ 2 < handle ∧ opens.owner handle = none
  | .close hFile, answer => opens.Reaches process hFile answer fun _ => True
  | .dupHandle hFile phFile2 _, answer =>
    match opens.ownedBy process hFile with
    | some _ =>
      if phFile2 = 0xffffffff then
        answer.rc = 4 ∨ answer.rc = 0 ∧ ∃ handle, answer.handle = some handle ∧
          2 < handle ∧ opens.owner handle = none
      else answer.rc ≠ 0
    | none => answer.rc = 6
  | .queryFHState hFile, answer =>
    opens.Reaches process hFile answer fun owner =>
      answer.mode = some owner.mode
  | .read hFile, answer | .write hFile, answer | .setFilePtrL hFile, answer
  | .queryHType hFile, answer =>
    opens.Reaches process hFile answer fun owner =>
      answer.file = some owner.file

/-- The descriptors that are open are the first three and those with an owner;
they are the files of their owners, and the list has their modes. -/
structure Agrees : Prop where
  standard : ∀ hFile, hFile ≤ 2 → opens.state.descriptors hFile = some hFile.toNat
  unowned : ∀ hFile, 2 < hFile → opens.owner hFile = none → opens.state.descriptors hFile = none
  owned : ∀ hFile owner, 2 < hFile → opens.owner hFile = some owner →
    opens.state.descriptors hFile = some owner.file
  listed : ∀ hFile owner, 2 < hFile → opens.owner hFile = some owner →
    ∃ entry, opens.state.entryOf hFile = .ok entry ∧ entry.openmode = owner.mode

/-- The request of a process comes back with the right answer, and the handles
agree after it. -/
def Meets (process : Nat) (request : FileRequest) : Prop :=
  ∃ outcome, opens.state.serve request = .ok outcome ∧ opens.Right process request outcome.1 ∧
    (opens.after process request outcome).Agrees

/-- The host opens a file, or makes a duplicate, at a descriptor that is not open. -/
def Valid : FileRequest → Prop
  | .openL request => ∀ handle, request.opened = .ok handle → opens.state.descriptors handle = none
  | .dupHandle _ _ dup => ∀ handle, dup = some handle → opens.state.descriptors handle = none
  | _ => True

/-- The process has opened the handle. -/
def Owns (process : Nat) (hFile : UInt32) : Prop :=
  2 < hFile ∧ ∃ owner, opens.owner hFile = some owner ∧ owner.process = process

/-- A file is opened with a number that the list does not have with another
mode. -/
def OpenAllowed (request : OpenRequest) : Prop := request.fsOpenMode &&& 0x8000 ≠ 0 ∨
    request.pszFileName.length < 260 ∧ ∃ rc newfilename,
        pathconv opens.state.router (request.pszFileName.map toBackslash) = .ok (rc, newfilename) ∧
        (rc = 0 → newfilename.length < 256 → ∀ handle entry, request.opened = .ok handle →
          opens.state.entryOf handle = .ok entry →
          entry.openmode = request.fsOpenMode)

/-- When a request of a process meets what is claimed. -/
def Allowed (process : Nat) : FileRequest → Prop
  | .openL request => opens.OpenAllowed request
  | .close hFile =>
    2 < hFile ∧ ∀ owner, opens.owner hFile = some owner → owner.process = process
  | .dupHandle hFile phFile2 dup =>
    opens.Owns process hFile ∧ (phFile2 ≠ 0xffffffff ∨ dup = none) ∨
      2 < hFile ∧ opens.owner hFile = none ∧ phFile2 = 0xffffffff ∧
        ∃ entry, opens.state.entryOf hFile = .ok entry
  | .queryFHState hFile | .read hFile | .write hFile =>
    hFile ≤ 2 ∨ opens.Owns process hFile
  | .setFilePtrL hFile | .queryHType hFile =>
    hFile ≤ 2 ∨ opens.Owns process hFile ∨ opens.owner hFile = none

/-- A step for a request that is allowed. -/
def AllowedStep (opens opens' : Opens) : Prop := ∃ process request outcome, opens.Valid request ∧
    opens.Allowed process request ∧ opens.state.serve request = .ok outcome ∧
    opens' = opens.after process request outcome

/-- A step for any request. -/
def Step (opens opens' : Opens) : Prop := ∃ process request outcome, opens.Valid request ∧
    opens.state.serve request = .ok outcome ∧
    opens' = opens.after process request outcome

/-- The server when it starts. -/
def initial (router : FSRouter) : Opens where
  state :=
    { router, fileroot := []
      descriptors := fun hFile => if hFile ≤ 2 then some hFile.toNat else none
      files := 3 }
  owner := fun _ => none

variable {opens} {process : Nat} {hFile : UInt32}

theorem ownedBy_of_le (small : hFile ≤ 2) :
    opens.ownedBy process hFile = some ⟨process, hFile.toNat, 0x42⟩ :=
  if_pos small

theorem ownedBy_of_lt (large : 2 < hFile) : opens.ownedBy process hFile =
      (opens.owner hFile).filter fun owner => owner.process = process :=
  if_neg (UInt32.not_le.mpr large)

theorem Owns.exists (owns : opens.Owns process hFile) : ∃ owner, opens.owner hFile = some owner ∧
      opens.ownedBy process hFile = some owner := by
  obtain ⟨large, owner, found, same⟩ := owns
  refine ⟨owner, found, ?_⟩
  rw [ownedBy_of_lt large, found]
  exact Option.filter_some_pos (by simpa using same)

theorem ownedBy_eq_none (large : 2 < hFile) (other : ¬ opens.Owns process hFile) :
    opens.ownedBy process hFile = none := by
  rw [ownedBy_of_lt large, Option.filter_eq_none_iff]
  intro owner found same
  exact other ⟨large, owner, found, by simpa using same⟩

variable {request : FileRequest} {answer : FileAnswer} {rc : UInt32} {state : FileState}

theorem after_of_rc (refused : answer.rc ≠ 0) :
    opens.after process request (answer, opens.state) = opens := by
  unfold after
  rw [if_pos refused]

theorem after_of_look
    (noHandle : answer.handle = none) (notClose : ∀ hFile, request ≠ .close hFile) :
    opens.after process request (answer, opens.state) = opens := by
  unfold after
  split
  · rfl
  · dsimp only
    split
    · rename_i found
      rw [noHandle] at found
      cases found
    · rename_i isClose
      exact absurd rfl (notClose _)
    · rename_i found
      rw [noHandle] at found
      cases found
    · rfl

/-! ## Looking at a handle -/

theorem Agrees.reaches_onDescriptor_iff (agrees : opens.Agrees) :
    opens.Reaches process hFile (opens.state.onDescriptor rc hFile)
        (fun owner => (opens.state.onDescriptor rc hFile).file = some owner.file) ↔
      hFile ≤ 2 ∨ opens.Owns process hFile ∨
        2 < hFile ∧ opens.owner hFile = none ∧ rc = 6 := by
  unfold Reaches
  by_cases small : hFile ≤ 2
  · simp only [ownedBy_of_le small, FileState.onDescriptor,
      agrees.standard hFile small, answerOf, small, true_or, and_self]
  · have large := UInt32.not_le.mp small
    by_cases owns : opens.Owns process hFile
    · obtain ⟨owner, found, stands⟩ := owns.exists
      simp only [stands, FileState.onDescriptor,
        agrees.owned hFile owner large found, answerOf, owns, true_or, or_true,
        and_self]
    · rw [ownedBy_eq_none large owns]
      simp only [small, owns, large, false_or, true_and]
      cases found : opens.owner hFile with
      | none =>
        simp only [FileState.onDescriptor, agrees.unowned hFile large found, answerOf, true_and]
      | some owner =>
        simp [FileState.onDescriptor, agrees.owned hFile owner large found, answerOf]

/-- The handles agree, and the list has none of the first three. -/
structure Sound (opens : Opens) : Prop extends opens.Agrees where
  behind : ∀ entry ∈ opens.state.fileroot, 2 < entry.hfile

theorem initial_sound (router : FSRouter) : (initial router).Sound where
  standard _ small := if_pos small
  unowned _ large _ := if_neg (UInt32.not_le.mpr large)
  owned _ _ _ found := by cases found
  listed _ _ _ found := by cases found
  behind _ member := by cases member

section

variable (sound : opens.Sound)

include sound

theorem Sound.meets_look_iff (noHandle : answer.handle = none)
    (notClose : ∀ hFile, request ≠ .close hFile)
    (served : opens.state.serve request = .ok (answer, opens.state)) :
    opens.Meets process request ↔ opens.Right process request answer := by
  constructor
  · rintro ⟨outcome, served', right, -⟩
    cases served.symm.trans served'
    exact right
  · intro right
    refine ⟨_, served, right, ?_⟩
    rw [after_of_look noHandle notClose]
    exact sound.toAgrees

theorem Sound.meets_onDescriptor_iff {rc : UInt32}
    {request : FileRequest} (notClose : ∀ hFile, request ≠ .close hFile)
    (served : opens.state.serve request = .ok (opens.state.onDescriptor rc hFile, opens.state))
    (right : opens.Right process request (opens.state.onDescriptor rc hFile) ↔
      opens.Reaches process hFile (opens.state.onDescriptor rc hFile) fun owner =>
        (opens.state.onDescriptor rc hFile).file = some owner.file) :
    opens.Meets process request ↔
      hFile ≤ 2 ∨ opens.Owns process hFile ∨
        2 < hFile ∧ opens.owner hFile = none ∧ rc = 6 := by
  have noHandle : (opens.state.onDescriptor rc hFile).handle = none := by
    unfold FileState.onDescriptor
    split
    · rfl
    · rfl
  rw [sound.meets_look_iff noHandle notClose served, right, sound.reaches_onDescriptor_iff]

theorem Sound.entryOf_of_le (small : hFile ≤ 2) :
    opens.state.entryOf hFile = .error .nullPointer := by
  unfold FileState.entryOf
  have nowhere : opens.state.fileroot.find?
      (fun entry => entry.hfile = hFile) = none := by
    rw [List.find?_eq_none]
    intro entry member same
    have large := sound.behind entry member
    simp only [decide_eq_true_eq] at same
    rw [same] at large
    exact absurd small (UInt32.not_le.mpr large)
  rw [nowhere]

theorem Sound.meets_query_iff : opens.Meets process (.queryFHState hFile) ↔
      hFile ≤ 2 ∨ opens.Owns process hFile := by
  by_cases small : hFile ≤ 2
  · have first : hFile = 0 ∨ hFile = 1 ∨ hFile = 2 := by
      have bound := UInt32.le_iff_toNat_le.mp small
      simp only [← UInt32.toNat_inj]
      simp only [UInt32.reduceToNat] at bound ⊢
      omega
    have served : opens.state.serve (.queryFHState hFile) =
        .ok ({ answerOf 0 with mode := some 0x42 }, opens.state) := by
      simp only [FileState.serve, FileState.fsQueryFHState, if_pos first, map_ok]
    rw [sound.meets_look_iff rfl (fun _ => FileRequest.noConfusion) served]
    simp only [Right, Reaches, ownedBy_of_le small, answerOf, small, true_or, and_self]
  · have large := UInt32.not_le.mp small
    have later : ¬ (hFile = 0 ∨ hFile = 1 ∨ hFile = 2) := by
      rintro (rfl | rfl | rfl)
      · exact small (by decide)
      · exact small (by decide)
      · exact small (by decide)
    cases listed : opens.state.entryOf hFile with
    | error fault =>
      have served : opens.state.serve (.queryFHState hFile) = .error fault := by
        simp only [FileState.serve, FileState.fsQueryFHState, if_neg later, listed, map_error]
      constructor
      · rintro ⟨outcome, served', -⟩
        cases served.symm.trans served'
      · intro allowed
        obtain ⟨owner, found, -⟩ := (allowed.resolve_left small).exists
        obtain ⟨entry, isListed, -⟩ := sound.listed hFile owner large found
        cases listed.symm.trans isListed
    | ok entry =>
      have served : opens.state.serve (.queryFHState hFile) =
          .ok ({ answerOf 0 with mode := some entry.openmode },
            opens.state) := by
        simp only [FileState.serve, FileState.fsQueryFHState, if_neg later, listed, map_ok]
      rw [sound.meets_look_iff rfl (fun _ => FileRequest.noConfusion) served]
      simp only [Right, Reaches]
      by_cases owns : opens.Owns process hFile
      · obtain ⟨owner, found, stands⟩ := owns.exists
        obtain ⟨entry', isListed, mode⟩ := sound.listed hFile owner large found
        cases listed.symm.trans isListed
        simp only [stands, answerOf, mode, owns, or_true, and_self]
      · simp [ownedBy_eq_none large owns, small, owns, answerOf]

/-! ## Duplicates -/

theorem Sound.large_of_entryOf {entry : FileHandle}
    (listed : opens.state.entryOf hFile = .ok entry) : 2 < hFile := by
  by_contra small
  have nowhere := sound.entryOf_of_le (UInt32.not_lt.mp small)
  cases nowhere.symm.trans listed

theorem Sound.meets_refusedDup_iff {phFile2 : UInt32} {dup : Option UInt32}
    (served : opens.state.serve (.dupHandle hFile phFile2 dup) = .ok (answerOf rc, opens.state)) :
    opens.Meets process (.dupHandle hFile phFile2 dup) ↔
      opens.Right process (.dupHandle hFile phFile2 dup) (answerOf rc) :=
  sound.meets_look_iff rfl (fun _ => FileRequest.noConfusion) served

end

theorem Agrees.exists_owner (agrees : opens.Agrees) {file : Nat} (large : 2 < hFile)
    (isOpen : opens.state.descriptors hFile = some file) :
    ∃ owner, opens.owner hFile = some owner ∧ owner.file = file := by
  cases found : opens.owner hFile with
  | none => cases (agrees.unowned hFile large found).symm.trans isOpen
  | some owner =>
    have same := (agrees.owned hFile owner large found).symm.trans isOpen
    exact ⟨owner, rfl, Option.some.inj same⟩

theorem Agrees.owner_eq_none (agrees : opens.Agrees) (large : 2 < hFile)
    (notOpen : opens.state.descriptors hFile = none) : opens.owner hFile = none := by
  cases found : opens.owner hFile with
  | none => rfl
  | some owner =>
    cases (agrees.owned hFile owner large found).symm.trans notOpen

theorem Sound.meets_dup_iff (sound : opens.Sound) {phFile2 : UInt32} {dup : Option UInt32} :
    opens.Meets process (.dupHandle hFile phFile2 dup) ↔
      opens.Allowed process (.dupHandle hFile phFile2 dup) := by
  have code : ¬ (114 : UInt32) = 6 := by decide
  have many : ¬ (4 : UInt32) = 6 := by decide
  cases listed : opens.state.entryOf hFile with
  | error fault =>
    have served : opens.state.serve (.dupHandle hFile phFile2 dup) =
        .error fault := by
      simp only [FileState.serve, FileState.fsDupHandle, listed, bind_error]
    constructor
    · rintro ⟨outcome, served', -⟩
      cases served.symm.trans served'
    · rintro (⟨owns, -⟩ | ⟨-, -, -, entry, isListed⟩)
      · obtain ⟨owner, found, -⟩ := owns.exists
        obtain ⟨entry, isListed, -⟩ := sound.listed hFile owner owns.1 found
        cases listed.symm.trans isListed
      · cases listed.symm.trans isListed
  | ok entry =>
    have large := sound.large_of_entryOf listed
    have ownsOr : ¬ opens.Owns process hFile → opens.ownedBy process hFile = none :=
      ownedBy_eq_none large
    by_cases certain : phFile2 = 0xffffffff
    · cases isOpen : opens.state.descriptors hFile with
      | none =>
        have served : opens.state.serve (.dupHandle hFile phFile2 dup) =
            .ok (answerOf 6, opens.state) := by
          simp [FileState.serve, FileState.fsDupHandle, listed, certain, isOpen]
        have unowned := sound.owner_eq_none large isOpen
        have notOwned : ¬ opens.Owns process hFile := by
          rintro ⟨-, owner, found, -⟩
          cases unowned.symm.trans found
        rw [sound.meets_refusedDup_iff served]
        simp [Right, Allowed, ownsOr notOwned, notOwned, large, unowned, certain, answerOf, listed]
      | some file =>
        obtain ⟨owner, found, -⟩ := sound.exists_owner large isOpen
        cases dup with
        | none =>
          have served : opens.state.serve (.dupHandle hFile phFile2 none) =
              .ok (answerOf 4, opens.state) := by
            simp [FileState.serve, FileState.fsDupHandle, listed, certain, isOpen]
          rw [sound.meets_refusedDup_iff served]
          by_cases owns : opens.Owns process hFile
          · obtain ⟨owner', -, stands⟩ := owns.exists
            simp [Right, Allowed, stands, owns, certain, answerOf]
          · simp [Right, Allowed, ownsOr owns, owns, found, answerOf, many]
        | some handle =>
          have served : opens.state.serve (.dupHandle hFile phFile2 (some handle)) =
                .ok (answerOf 114, { opens.state with
                    descriptors := Function.update opens.state.descriptors handle
                        (some file) }) := by
            simp [FileState.serve, FileState.fsDupHandle, listed, certain, isOpen]
          constructor
          · rintro ⟨outcome, served', right, -⟩
            cases served.symm.trans served'
            by_cases owns : opens.Owns process hFile
            · obtain ⟨owner', -, stands⟩ := owns.exists
              simp [Right, stands, certain, answerOf] at right
            · simp [Right, ownsOr owns, answerOf, code] at right
          · rintro (⟨-, refused | refused⟩ | ⟨-, unowned, -⟩)
            · exact absurd certain refused
            · cases refused
            · cases found.symm.trans unowned
    · have served : opens.state.serve (.dupHandle hFile phFile2 dup) =
          .ok (answerOf 114, opens.state) := by
        simp [FileState.serve, FileState.fsDupHandle, listed, certain]
      rw [sound.meets_refusedDup_iff served]
      by_cases owns : opens.Owns process hFile
      · obtain ⟨owner, -, stands⟩ := owns.exists
        simp [Right, Allowed, stands, owns, certain, answerOf]
      · simp [Right, Allowed, ownsOr owns, owns, certain, answerOf, code]

/-! ## Closing -/

theorem Agrees.change (agrees : opens.Agrees) {opens' : Opens} (large : 2 < hFile)
    (descriptors : ∀ other, other ≠ hFile →
      opens'.state.descriptors other = opens.state.descriptors other)
    (owners : ∀ other, other ≠ hFile → opens'.owner other = opens.owner other)
    (entries : ∀ other entry, other ≠ hFile →
      opens.state.entryOf other = .ok entry → opens'.state.entryOf other = .ok entry)
    (unowned : opens'.owner hFile = none → opens'.state.descriptors hFile = none)
    (owned : ∀ owner, opens'.owner hFile = some owner →
      opens'.state.descriptors hFile = some owner.file ∧
        ∃ entry, opens'.state.entryOf hFile = .ok entry ∧
          entry.openmode = owner.mode) : opens'.Agrees where
  standard other small := by
    have apart : other ≠ hFile := by
      rintro rfl
      exact absurd small (UInt32.not_le.mpr large)
    rw [descriptors other apart]
    exact agrees.standard other small
  unowned other behind found := by
    by_cases same : other = hFile
    · subst same
      exact unowned found
    · rw [owners other same] at found
      rw [descriptors other same]
      exact agrees.unowned other behind found
  owned other owner behind found := by
    by_cases same : other = hFile
    · subst same
      exact (owned owner found).1
    · rw [owners other same] at found
      rw [descriptors other same]
      exact agrees.owned other owner behind found
  listed other owner behind found := by
    by_cases same : other = hFile
    · subst same
      exact (owned owner found).2
    · rw [owners other same] at found
      obtain ⟨entry, listed, mode⟩ := agrees.listed other owner behind found
      exact ⟨entry, entries other entry same listed, mode⟩

theorem Agrees.closed (agrees : opens.Agrees) (large : 2 < hFile) : Agrees
      { state :=
          { opens.state with
            descriptors := Function.update opens.state.descriptors hFile none }
        owner := Function.update opens.owner hFile none } := by
  refine agrees.change large ?_ ?_ ?_ ?_ ?_
  · exact fun other apart => Function.update_of_ne apart ..
  · exact fun other apart => Function.update_of_ne apart ..
  · exact fun other entry apart listed => listed
  · exact fun _ => Function.update_self ..
  · intro owner found
    cases (Function.update_self ..).symm.trans found

theorem Sound.meets_close_iff (sound : opens.Sound) : opens.Meets process (.close hFile) ↔
      opens.Allowed process (.close hFile) := by
  cases isOpen : opens.state.descriptors hFile with
  | none =>
    have large : 2 < hFile := by
      by_contra small
      have standard := sound.standard hFile (UInt32.not_lt.mp small)
      cases standard.symm.trans isOpen
    have unowned := sound.owner_eq_none large isOpen
    have served : opens.state.serve (.close hFile) =
        .ok (answerOf 6, opens.state) := by
      simp only [FileState.serve, FileState.fsClose, isOpen]
    have notOwned : ¬ opens.Owns process hFile := by
      rintro ⟨-, owner, found, -⟩
      cases unowned.symm.trans found
    constructor
    · rintro -
      refine ⟨large, ?_⟩
      intro owner found
      cases unowned.symm.trans found
    · rintro -
      refine ⟨_, served, ?_, ?_⟩
      · simp only [Right, Reaches, ownedBy_eq_none large notOwned, answerOf]
      · rw [after_of_rc (by decide)]
        exact sound.toAgrees
  | some file =>
    have served : opens.state.serve (.close hFile) = .ok (answerOf 0,
          { opens.state with
            descriptors :=
              Function.update opens.state.descriptors hFile none }) := by
      simp only [FileState.serve, FileState.fsClose, isOpen]
    constructor
    · rintro ⟨outcome, served', right, agrees⟩
      cases served.symm.trans served'
      have large : 2 < hFile := by
        by_contra small
        have standard := agrees.standard hFile (UInt32.not_lt.mp small)
        have gone : Function.update opens.state.descriptors hFile none hFile =
            none := Function.update_self ..
        cases gone.symm.trans standard
      refine ⟨large, ?_⟩
      intro owner found
      by_contra other
      have notOwned : ¬ opens.Owns process hFile := by
        rintro ⟨-, owner', found', same⟩
        cases found.symm.trans found'
        exact other same
      simp [Right, Reaches, ownedBy_eq_none large notOwned, answerOf] at right
    · rintro ⟨large, mine⟩
      obtain ⟨owner, found, -⟩ := sound.exists_owner large isOpen
      have owns : opens.Owns process hFile := ⟨large, owner, found, mine owner found⟩
      obtain ⟨owner', -, stands⟩ := owns.exists
      refine ⟨_, served, ?_, ?_⟩
      · simp only [Right, Reaches, stands, answerOf, and_self]
      · exact sound.toAgrees.closed large

/-! ## Opening -/

theorem Agrees.large_of_notOpen (agrees : opens.Agrees)
    (notOpen : opens.state.descriptors hFile = none) : 2 < hFile := by
  by_contra small
  have standard := agrees.standard hFile (UInt32.not_lt.mp small)
  cases standard.symm.trans notOpen

theorem entryOf_opened_of_ok {handle : UInt32}
    {entry added : FileHandle} (listed : state.entryOf hFile = .ok entry) :
    (state.opened handle added).entryOf hFile = .ok entry := by
  unfold FileState.entryOf at listed ⊢
  rw [FileState.opened, List.find?_append]
  split at listed
  · cases listed
  · rename_i first found
    rw [found, Option.some_or]
    exact listed

theorem entryOf_opened_of_error {added : FileHandle}
    {fault : Fault} (nowhere : state.entryOf added.hfile = .error fault) :
    (state.opened added.hfile added).entryOf added.hfile = .ok added := by
  unfold FileState.entryOf at nowhere ⊢
  rw [FileState.opened, List.find?_append]
  split at nowhere
  · rename_i none
    rw [none, Option.none_or, List.find?_cons_of_pos (by simp)]
  · cases nowhere

theorem Agrees.opened_iff (agrees : opens.Agrees) {added : FileHandle}
    (notOpen : opens.state.descriptors added.hfile = none) :
    Agrees
        { state := opens.state.opened added.hfile added
          owner := Function.update opens.owner added.hfile
              (some ⟨process, opens.state.files, added.openmode⟩) } ↔
      ∀ entry, opens.state.entryOf added.hfile = .ok entry →
        entry.openmode = added.openmode := by
  have large := agrees.large_of_notOpen notOpen
  constructor
  · intro agrees' entry listed
    obtain ⟨entry', listed', mode⟩ := agrees'.listed added.hfile _ large (Function.update_self ..)
    cases listed'.symm.trans (entryOf_opened_of_ok listed)
    exact mode
  · intro same
    refine agrees.change large ?_ ?_ ?_ ?_ ?_
    · exact fun other apart => Function.update_of_ne apart ..
    · exact fun other apart => Function.update_of_ne apart ..
    · exact fun other entry apart listed => entryOf_opened_of_ok listed
    · intro found
      cases (Function.update_self ..).symm.trans found
    · intro owner found
      cases (Function.update_self ..).symm.trans found
      refine ⟨Function.update_self .., ?_⟩
      cases listed : opens.state.entryOf added.hfile with
      | error fault => exact ⟨added, entryOf_opened_of_error listed, rfl⟩
      | ok entry =>
        exact ⟨entry, entryOf_opened_of_ok listed, same entry listed⟩

theorem Sound.meets_of_refused (sound : opens.Sound) {request : OpenRequest} (refused : rc ≠ 0)
    (served : opens.state.fsOpenL request = .ok (answerOf rc, opens.state)) :
    opens.Meets process (.openL request) := by
  refine ⟨_, served, ?_, ?_⟩
  · intro success
    exact absurd success refused
  · rw [after_of_rc refused]
    exact sound.toAgrees

theorem Sound.meets_opened_iff (sound : opens.Sound) {request : OpenRequest}
    {handle : UInt32} {newfilename : List UInt8}
    (notOpen : opens.state.descriptors handle = none)
    (served : opens.state.fsOpenL request =
      .ok ({ answerOf 0 with handle := some handle, action := request.action },
        opens.state.opened handle ⟨handle, request.fsOpenMode, newfilename⟩)) :
    opens.Meets process (.openL request) ↔
      ∀ entry, opens.state.entryOf handle = .ok entry →
        entry.openmode = request.fsOpenMode := by
  have large := sound.large_of_notOpen notOpen
  have after := @Agrees.opened_iff opens process sound.toAgrees
    ⟨handle, request.fsOpenMode, newfilename⟩ notOpen
  constructor
  · rintro ⟨outcome, served', -, agrees⟩
    cases served.symm.trans served'
    exact after.mp agrees
  · intro same
    refine ⟨_, served, ?_, after.mpr same⟩
    intro success
    exact ⟨handle, rfl, large, sound.owner_eq_none large notOpen⟩

theorem Sound.meets_converted_iff (sound : opens.Sound) {request : OpenRequest}
    (valid : opens.Valid (.openL request)) {newfilename : List UInt8}
    (short : request.pszFileName.length < 260)
    (denied : ¬ request.fsOpenMode &&& 0x8000 ≠ 0)
    (converted : pathconv opens.state.router (request.pszFileName.map toBackslash) =
        .ok (rc, newfilename)) :
    opens.Meets process (.openL request) ↔
      (rc = 0 → newfilename.length < 256 → ∀ handle entry,
        request.opened = .ok handle → opens.state.entryOf handle = .ok entry →
        entry.openmode = request.fsOpenMode) := by
  have begins : opens.state.fsOpenL request = _ :=
    (if_neg denied).trans (if_neg (Nat.not_le.mpr short))
  rw [converted, bind_ok] at begins
  dsimp only [pure_eq_ok] at begins
  by_cases failed : rc ≠ 0
  · rw [if_pos failed] at begins
    apply iff_of_true (sound.meets_of_refused (by decide) begins)
    intro success
    exact absurd success failed
  rw [if_neg failed] at begins
  by_cases long : 256 < newfilename.length + 1
  · rw [if_pos long] at begins
    apply iff_of_true (sound.meets_of_refused (by decide) begins)
    intro _ fits
    omega
  rw [if_neg long] at begins
  cases answer : request.opened with
  | error errno =>
    simp only [answer] at begins
    apply iff_of_true
    · by_cases many : errno = 24
      · rw [if_pos many] at begins
        exact sound.meets_of_refused (by decide) begins
      rw [if_neg many] at begins
      by_cases missing : errno = 2
      · rw [if_pos missing] at begins
        exact sound.meets_of_refused (by decide) begins
      rw [if_neg missing] at begins
      exact sound.meets_of_refused (by decide) begins
    · intro _ _ handle entry isOpened
      cases isOpened
  | ok handle =>
    -- the flag to fail if the file exists is zero, so its test never holds
    have never : ¬ request.fsOpenFlags &&& OPEN_ACTION_FAIL_IF_EXISTS ≠ 0 := by
      simp [OPEN_ACTION_FAIL_IF_EXISTS]
    simp only [answer, if_neg never] at begins
    rw [sound.meets_opened_iff (valid handle answer) begins]
    constructor
    · intro same _ _ handle' entry isOpened listed
      cases isOpened
      exact same entry listed
    · intro same entry listed
      exact same (not_not.mp failed) (by omega) handle entry rfl listed

theorem Sound.meets_open_iff (sound : opens.Sound) {request : OpenRequest}
    (valid : opens.Valid (.openL request)) :
    opens.Meets process (.openL request) ↔ opens.OpenAllowed request := by
  by_cases denied : request.fsOpenMode &&& 0x8000 ≠ 0
  · have served : opens.state.fsOpenL request = .ok (answerOf 5, opens.state) := if_pos denied
    exact iff_of_true (sound.meets_of_refused (by decide) served) (.inl denied)
  rw [OpenAllowed, or_iff_right denied]
  by_cases long : 260 ≤ request.pszFileName.length
  · have served : opens.state.fsOpenL request = .error .writeOutside :=
      (if_neg denied).trans (if_pos long)
    apply iff_of_false
    · rintro ⟨outcome, served', -⟩
      cases served.symm.trans served'
    · rintro ⟨short, -⟩
      exact absurd short (Nat.not_lt.mpr long)
  have short := Nat.lt_of_not_le long
  rw [and_iff_right short]
  cases converted : pathconv opens.state.router (request.pszFileName.map toBackslash) with
  | error fault =>
    have served : opens.state.fsOpenL request = .error fault := by
      refine (if_neg denied).trans ((if_neg long).trans ?_)
      rw [converted, bind_error]
    apply iff_of_false
    · rintro ⟨outcome, served', -⟩
      cases served.symm.trans served'
    · rintro ⟨rc, newfilename, isConverted, -⟩
      cases isConverted
  | ok result =>
    obtain ⟨rc, newfilename⟩ := result
    rw [sound.meets_converted_iff valid short denied converted]
    constructor
    · intro same
      exact ⟨rc, newfilename, rfl, same⟩
    · rintro ⟨rc', newfilename', isConverted, same⟩
      cases isConverted
      exact same

/-! ## Every request -/

theorem le_or_owns_or_iff : hFile ≤ 2 ∨ opens.Owns process hFile ∨
        2 < hFile ∧ opens.owner hFile = none ∧ (6 : UInt32) = 6 ↔
      hFile ≤ 2 ∨ opens.Owns process hFile ∨ opens.owner hFile = none := by
  constructor
  · exact Or.imp_right (Or.imp_right fun unowned => unowned.2.1)
  · rintro (small | owns | unowned)
    · exact .inl small
    · exact .inr (.inl owns)
    · by_cases small : hFile ≤ 2
      · exact .inl small
      · exact .inr (.inr ⟨UInt32.not_le.mp small, unowned, rfl⟩)

theorem Sound.meets_iff (sound : opens.Sound) (valid : opens.Valid request) :
    opens.Meets process request ↔ opens.Allowed process request := by
  have code : ¬ (232 : UInt32) = 6 := by decide
  cases request with
  | openL request => exact sound.meets_open_iff valid
  | close hFile => exact sound.meets_close_iff
  | dupHandle hFile phFile2 dup => exact sound.meets_dup_iff
  | queryFHState hFile => exact sound.meets_query_iff
  | read hFile =>
    rw [@Sound.meets_onDescriptor_iff _ _ hFile sound 232 (.read hFile)
      (fun _ => FileRequest.noConfusion) rfl Iff.rfl]
    simp only [Allowed, code, and_false, or_false]
  | write hFile =>
    rw [@Sound.meets_onDescriptor_iff _ _ hFile sound 232 (.write hFile)
      (fun _ => FileRequest.noConfusion) rfl Iff.rfl]
    simp only [Allowed, code, and_false, or_false]
  | setFilePtrL hFile =>
    rw [@Sound.meets_onDescriptor_iff _ _ hFile sound 6 (.setFilePtrL hFile)
      (fun _ => FileRequest.noConfusion) rfl Iff.rfl]
    exact le_or_owns_or_iff
  | queryHType hFile =>
    rw [@Sound.meets_onDescriptor_iff _ _ hFile sound 6 (.queryHType hFile)
      (fun _ => FileRequest.noConfusion) rfl Iff.rfl]
    exact le_or_owns_or_iff

theorem fileroot_of_serve
    {outcome : FileAnswer × FileState} (served : state.serve request = .ok outcome) :
    outcome.2.fileroot = state.fileroot ∨
      ∃ asked entry, request = .openL asked ∧ asked.opened = .ok entry.hfile ∧
        outcome.2.fileroot = state.fileroot ++ [entry] := by
  cases request with
  | openL request =>
    change state.fsOpenL request = .ok outcome at served
    unfold FileState.fsOpenL at served
    split at served
    · cases served
      exact .inl rfl
    split at served
    · cases served
    obtain ⟨⟨rc, newfilename⟩, -, served⟩ := bind_eq_ok_iff.mp served
    dsimp only [pure_eq_ok] at served
    split at served
    · cases served
      exact .inl rfl
    split at served
    · cases served
      exact .inl rfl
    cases answer : request.opened with
    | error errno =>
      simp only [answer] at served
      split at served
      · cases served
        exact .inl rfl
      split at served
      · cases served
        exact .inl rfl
      · cases served
        exact .inl rfl
    | ok handle =>
      simp only [answer] at served
      split at served
      · cases served
        exact .inl rfl
      · cases served
        exact .inr ⟨request, _, rfl, answer, rfl⟩
  | close hFile =>
    cases served
    left
    unfold FileState.fsClose
    split
    · rfl
    · rfl
  | dupHandle hFile phFile2 dup =>
    left
    change state.fsDupHandle hFile phFile2 dup = .ok outcome at served
    obtain ⟨entry, -, served⟩ := bind_eq_ok_iff.mp served
    split at served
    · split at served
      · cases served
        rfl
      · cases served
        rfl
      · cases served
        rfl
    · cases served
      rfl
  | queryFHState hFile =>
    obtain ⟨answer, -, same⟩ := map_eq_ok_iff.mp served
    exact .inl (congrArg (fun outcome => outcome.2.fileroot) same.symm)
  | read hFile | write hFile | setFilePtrL hFile | queryHType hFile =>
    cases served
    exact .inl rfl

theorem Sound.step {opens' : Opens} (sound : opens.Sound)
    (step : AllowedStep opens opens') : opens'.Sound := by
  obtain ⟨process, request, outcome, valid, allowed, served, rfl⟩ := step
  obtain ⟨outcome', served', -, agrees⟩ := (sound.meets_iff valid).mpr allowed
  cases served.symm.trans served'
  refine ⟨agrees, ?_⟩
  intro entry member
  change entry ∈ outcome.2.fileroot at member
  cases fileroot_of_serve served with
  | inl same =>
    rw [same] at member
    exact sound.behind entry member
  | inr added =>
    obtain ⟨asked, added, rfl, isOpened, same⟩ := added
    rw [same] at member
    cases List.mem_append.mp member with
    | inl old => exact sound.behind entry old
    | inr new =>
      rw [List.mem_singleton.mp new]
      exact sound.large_of_notOpen (valid _ isOpened)

/-- In every run of allowed requests the open descriptors and the list are those of
the owners, and a request of a process meets what is claimed exactly if it is
allowed. -/
theorem opens_of_run {router : FSRouter} (run : RunsTo AllowedStep (initial router) opens) :
    opens.Agrees ∧ ∀ process request, opens.Valid request →
      (opens.Meets process request ↔ opens.Allowed process request) := by
  have sound := run.preserves (fun _ _ sound step => Sound.step sound step) (initial_sound router)
  exact ⟨sound.toAgrees, fun process request valid => sound.meets_iff valid⟩

/-- An open of a file on a drive without a mount, for which the host has the
descriptor 3. -/
def openThree (fsOpenMode : UInt32) : OpenRequest where
  pszFileName := [0x61, 0x3a, 0x2f, 0x62]
  fsOpenFlags := 1
  fsOpenMode := fsOpenMode
  existed := true
  opened := .ok 3

/-- The entry that the open leaves in the list. -/
def entryThree (fsOpenMode : UInt32) : FileHandle := ⟨3, fsOpenMode, [0x2f, 0x62]⟩

/-- The answer to the open. -/
def answerThree (fsOpenMode : UInt32) : FileAnswer :=
  { answerOf 0 with handle := some 3, action := (openThree fsOpenMode).action }

theorem fsOpenL_openThree (state : FileState) {fsOpenMode : UInt32}
    (inherited : fsOpenMode &&& 0x8000 = 0) :
    state.fsOpenL (openThree fsOpenMode) =
      .ok (answerThree fsOpenMode, state.opened 3 (entryThree fsOpenMode)) := by
  have converted : pathconv state.router ((openThree fsOpenMode).pszFileName.map toBackslash) =
        .ok (0, [0x2f, 0x62]) := rfl
  have short : ¬ 260 ≤ (openThree fsOpenMode).pszFileName.length := by
    change ¬ 260 ≤ 4
    omega
  refine (if_neg (not_not.mpr inherited)).trans ((if_neg short).trans ?_)
  rw [converted, bind_ok]
  simp [openThree, answerThree, entryThree, OPEN_ACTION_FAIL_IF_EXISTS]

theorem step_closeThree :
    opens.Step (opens.after 0 (.close 3) (opens.state.fsClose 3)) :=
  ⟨0, .close 3, _, trivial, rfl, rfl⟩

theorem step_openThree {fsOpenMode : UInt32} (inherited : fsOpenMode &&& 0x8000 = 0)
    (notOpen : opens.state.descriptors 3 = none) :
    opens.Step
      { state := opens.state.opened 3 (entryThree fsOpenMode)
        owner :=
          Function.update opens.owner 3 (some ⟨0, opens.state.files, fsOpenMode⟩) } := by
  refine ⟨0, .openL (openThree fsOpenMode), _, ?_, fsOpenL_openThree opens.state inherited, rfl⟩
  intro handle isOpened
  cases isOpened
  exact notOpen

/-- The mode of a file that has been opened is asked for. -/
theorem openThree_agrees : ∃ opens : Opens, opens.owner 3 = some ⟨0, 3, 0x42⟩ ∧
      opens.Meets 0 (.queryFHState 3) := by
  let opens : Opens :=
    { state := (initial FSRouter.init).state.opened 3 (entryThree 0x42)
      owner := Function.update (fun _ => none) 3 (some ⟨0, 3, 0x42⟩) }
  have valid : (initial FSRouter.init).Valid (.openL (openThree 0x42)) := by
    intro handle isOpened
    cases isOpened
    rfl
  have allowed : (initial FSRouter.init).OpenAllowed (openThree 0x42) := by
    refine Or.inr ⟨by decide, 0, [0x2f, 0x62], rfl, ?_⟩
    intro _ _ handle entry isOpened listed
    cases isOpened
    cases listed
  have step : AllowedStep (initial FSRouter.init) opens :=
    ⟨0, .openL (openThree 0x42), _, valid, allowed, fsOpenL_openThree _ (by decide), rfl⟩
  refine ⟨opens, rfl, ?_⟩
  exact ((opens_of_run (Relation.ReflTransGen.single step)).2 0 (.queryFHState 3)
    trivial).mpr (.inr ⟨by decide, _, rfl, rfl⟩)

/-- The file is opened, closed and opened in another mode: the list answers for the
first open.  A handle that has never been open ends the server, and a duplicate
that the host has made is refused. -/
theorem reopened_not_meets : (∃ opens, RunsTo Step (initial FSRouter.init) opens ∧
      opens.owner 3 = some ⟨0, 4, 0x40⟩ ∧ ¬ opens.Meets 0 (.queryFHState 3)) ∧
    ¬ (initial FSRouter.init).Meets 0 (.queryFHState 5) ∧
    ∃ opens, RunsTo Step (initial FSRouter.init) opens ∧
      opens.Valid (.dupHandle 3 0xffffffff (some 4)) ∧
      ¬ opens.Meets 0 (.dupHandle 3 0xffffffff (some 4)) := by
  have first := @step_openThree (initial FSRouter.init) 0x42 (by decide) rfl
  refine ⟨?_, ?_, ?_⟩
  · have closed := (Relation.ReflTransGen.single first).tail step_closeThree
    refine ⟨_, closed.tail (@step_openThree _ 0x40 (by decide) rfl), rfl, ?_⟩
    rintro ⟨outcome, served, right, -⟩
    cases served
    exact absurd right.2 (by decide)
  · rintro ⟨outcome, served, -⟩
    cases served
  · refine ⟨_, Relation.ReflTransGen.single first, ?_, ?_⟩
    · intro handle isDup
      cases isDup
      rfl
    · rintro ⟨outcome, served, right, -⟩
      cases served
      cases right with
      | inl many => exact absurd many (by decide)
      | inr made => exact absurd made.1 (by decide)

end Opens

end OsFree.Os2fs
