import OsFree.Doscalls.CopyTree

/-!
# What a copy of a file leaves behind

A target that exists is never opened, since it is created exclusively.  A copy
that returns has closed its handles unless the host takes less of a write than
it is given, and a copy that appends does not return.
-/

namespace OsFree.Doscalls

open Machine
open Os2fs (FSRouter FileState FileAnswer)

/-- The host takes all that is written. -/
def Chunk.Full (chunk : Chunk) : Prop :=
  ∃ count, chunk.taken = some count ∧ chunk.bytes.length ≤ count

/-- The host takes less than is written. -/
def Chunk.Short (chunk : Chunk) : Prop :=
  ∃ count, chunk.taken = some count ∧ count < chunk.bytes.length

/-- Something holds of each piece that is reached, as the ones before it have
been taken in full. -/
def WhileFull (Holds : Chunk → Prop) : List Chunk → Prop
  | [] => True
  | chunk :: chunks => Holds chunk ∧ (chunk.Full → WhileFull Holds chunks)

namespace Opening

variable (opening : Opening) (router : FSRouter) (path : List UInt8)

/-- The full name can be looked up. -/
def Resolves : Prop := ∀ name, opening.full path = .ok name →
    name.length < 260 ∧ Returns (Os2fs.pathconv router (name.map Os2fs.toBackslash))

/-- The full name belongs to a place of the host. -/
def Named : Prop := ∃ name converted, opening.full path = .ok name ∧ name.length < 260 ∧
    Os2fs.pathconv router (name.map Os2fs.toBackslash) = .ok (0, converted) ∧
    converted.length + 1 ≤ 256

/-- A file that is there can be opened. -/
def Reads : Prop := opening.content.isSome ∧ opening.Named router path ∧
    ∃ handle, opening.granted = .ok handle

/-- A file that is not there can be made. -/
def Makes : Prop := opening.content = none ∧ opening.Named router path ∧
    ∃ handle, opening.granted = .ok handle

end Opening

namespace FileCopy

variable (file : FileCopy) (router : FSRouter) (pszSrc pszDst : List UInt8)

/-- The bytes are moved. -/
def Transfers : Prop := file.alloc = 0 ∧ file.source.Reads router pszSrc ∧
    file.target.Makes router pszDst

/-- The pointer to the buffer points to memory that can be used, and the names
can be looked up as far as they are; where bytes are moved nothing is appended,
and something holds of each piece. -/
def Proceeds (ulOptions : UInt32) (Holds : Chunk → Prop) : Prop := 4 ≤ file.room ∧
    (file.alloc = 0 → file.source.Resolves router pszSrc ∧
      (file.source.Reads router pszSrc → file.target.Resolves router pszDst ∧
        (file.target.Makes router pszDst → ulOptions &&& DCPY_APPEND = 0 ∧
            WhileFull Holds file.transfer.pieces)))

/-- The piece fits the buffer. -/
def Fits (chunk : Chunk) : Prop := chunk.bytes.length ≤ file.room

/-- Nothing fails. -/
def Succeeds : Prop := file.Transfers router pszSrc pszDst ∧ file.transfer.failed = false ∧
    ∀ chunk ∈ file.transfer.pieces, chunk.Full

end FileCopy

namespace CopyCall

variable (call : CopyCall)

/-- The source is not a directory. -/
def Single : Prop := ∀ attrFile, call.queried = .ok attrFile → attrFile &&& FILE_DIRECTORY = 0

/-- What is left behind is right: a target that exists is kept without the option
to use it, a file that is copied is complete in or behind the target, and what
has been opened is closed. -/
structure Right (ulOptions : UInt32) (copied : Copied) : Prop where
  kept : ulOptions &&& DCPY_EXISTING = 0 → ∀ old,
    call.file.target.content = some old → copied.target = some old ∧ copied.rc ≠ 0
  replaced : copied.rc = 0 → ulOptions &&& DCPY_EXISTING ≠ 0 →
    ulOptions &&& DCPY_APPEND = 0 → copied.target = call.file.source.content
  appended : copied.rc = 0 → ulOptions &&& DCPY_APPEND ≠ 0 →
    copied.target = some (call.file.target.content.getD [] ++ call.file.source.content.getD [])
  written : copied.rc = 0 → copied.written = call.file.source.content.getD []
  closed : ∀ handle ∈ copied.opened, copied.server.descriptors handle = none

def CopyMeets (ulOptions : UInt32) : Prop :=
  ∃ copied, call.DosCopy ulOptions = .ok copied ∧ call.Right ulOptions copied

/-- A copy that is tried at all does not append, and the buffer holds each piece
and the host takes it in full or refuses it. -/
def CopyAllowed (ulOptions : UInt32) : Prop := ∀ pszOld pszNew attrFile, call.pszOld = some pszOld →
    call.pszNew = some pszNew → ulOptions &&& DCPY_MASK = 0 →
    call.queried = .ok attrFile →
    call.file.Proceeds call.server.router pszOld pszNew ulOptions
      fun chunk => call.file.Fits chunk ∧ ¬ chunk.Short

end CopyCall

theorem not_full_iff {chunk : Chunk} : ¬ chunk.Full ↔ chunk.taken = none ∨ chunk.Short := by
  unfold Chunk.Full Chunk.Short
  cases chunk.taken with
  | none => simp
  | some count => simp

theorem Chunk.Short.not_full {chunk : Chunk} (short : chunk.Short) : ¬ chunk.Full :=
  not_full_iff.mpr (.inr short)

theorem whileFull_and_iff {P Q : Chunk → Prop} {chunks : List Chunk} :
    WhileFull (fun chunk => P chunk ∧ Q chunk) chunks ↔
      WhileFull P chunks ∧ WhileFull Q chunks := by
  induction chunks with
  | nil => exact ⟨fun _ => ⟨trivial, trivial⟩, fun _ => trivial⟩
  | cons chunk chunks ih =>
    simp only [WhileFull, ih]
    constructor
    · intro both
      exact ⟨⟨both.1.1, fun full => (both.2 full).1⟩, both.1.2, fun full => (both.2 full).2⟩
    · intro both
      exact ⟨⟨both.1.1, both.2.1⟩, fun full => ⟨both.1.2 full, both.2.2 full⟩⟩

/-- What a transfer comes to that returns. -/
structure Transferred (failed : Bool) (chunks : List Chunk) (written : List UInt8)
    (outcome : Ending × List UInt8) : Prop where
  finished_iff : outcome.1 = .finished ↔ failed = false ∧ ∀ chunk ∈ chunks, chunk.Full
  short_iff : outcome.1 = .short ↔ ¬ WhileFull (¬ ·.Short) chunks
  written : outcome.1 = .finished → outcome.2 = written ++ chunks.flatMap Chunk.bytes

theorem transferLoop_of_fits {room : Nat} {failed : Bool} {chunks : List Chunk}
    (fits : WhileFull (fun chunk => chunk.bytes.length ≤ room) chunks)
    (written : List UInt8) :
    ∃ outcome, transferLoop room failed chunks written = .ok outcome ∧
      Transferred failed chunks written outcome := by
  induction chunks generalizing written with
  | nil =>
    refine ⟨_, rfl, ?_⟩
    cases failed with
    | false => exact ⟨by simp, by simp [WhileFull], by simp⟩
    | true => exact ⟨by simp, by simp [WhileFull], by simp⟩
  | cons chunk chunks ih =>
    have room_le : ¬ room < chunk.bytes.length := Nat.not_lt.mpr fits.1
    simp only [transferLoop, if_neg room_le]
    cases taken : chunk.taken with
    | none =>
      have refused : ¬ chunk.Full := not_full_iff.mpr (.inl taken)
      have whole : ¬ chunk.Short := by simp [Chunk.Short, taken]
      exact ⟨_, rfl, by simp [refused], by simp [WhileFull, whole, refused], by simp⟩
    | some ulWritten =>
      by_cases short : ulWritten < chunk.bytes.length
      · have isShort : chunk.Short := ⟨ulWritten, taken, short⟩
        simp only [if_pos short]
        exact ⟨_, rfl, by simp [isShort.not_full], by simp [WhileFull, isShort], by simp⟩
      · have full : chunk.Full := ⟨ulWritten, taken, Nat.not_lt.mp short⟩
        have whole : ¬ chunk.Short := fun isShort => isShort.not_full full
        simp only [if_neg short]
        obtain ⟨outcome, ran, described⟩ := ih (fits.2 full) (written ++ chunk.bytes)
        refine ⟨outcome, ran, ?_, ?_, ?_⟩
        · simp [described.finished_iff, full]
        · simp [described.short_iff, WhileFull, full, whole]
        · intro finished
          simp [described.written finished]

theorem fits_of_transferLoop {room : Nat} {failed : Bool} {chunks : List Chunk}
    {written : List UInt8} {outcome : Ending × List UInt8}
    (ran : transferLoop room failed chunks written = .ok outcome) :
    WhileFull (fun chunk => chunk.bytes.length ≤ room) chunks := by
  induction chunks generalizing written with
  | nil => trivial
  | cons chunk chunks ih =>
    simp only [transferLoop] at ran
    by_cases large : room < chunk.bytes.length
    · simp only [if_pos large] at ran
      cases ran
    · refine ⟨Nat.not_lt.mp large, ?_⟩
      rintro ⟨ulWritten, taken, enough⟩
      simp only [if_neg large, taken, if_neg (Nat.not_lt.mpr enough)] at ran
      exact ih ran

@[simp] theorem DosClose_router (server : FileState) (hFile : UInt32) :
    (DosClose server hFile).router = server.router := by
  unfold DosClose FileState.fsClose
  cases server.descriptors hFile with
  | none => rfl
  | some file => rfl

@[simp] theorem DosClose_descriptors (server : FileState) (hFile : UInt32) :
    (DosClose server hFile).descriptors =
      Function.update server.descriptors hFile none := by
  unfold DosClose FileState.fsClose
  cases found : server.descriptors hFile with
  | none => exact (Function.update_eq_self_iff.mpr found.symm).symm
  | some file => rfl

namespace Opening

variable {opening : Opening} {server : FileState} {path : List UInt8}
  {fsOpenFlags fsOpenMode : UInt32}

@[simp] theorem request_fsOpenMode (name : List UInt8) :
    (opening.request name fsOpenFlags fsOpenMode).fsOpenMode = fsOpenMode := rfl

@[simp] theorem request_fsOpenFlags (name : List UInt8) :
    (opening.request name fsOpenFlags fsOpenMode).fsOpenFlags = fsOpenFlags := rfl

@[simp] theorem request_pszFileName (name : List UInt8) :
    (opening.request name fsOpenFlags fsOpenMode).pszFileName = name := rfl

theorem request_opened (name : List UInt8) : (opening.request name fsOpenFlags fsOpenMode).opened =
      opening.host (opening.request [] fsOpenFlags fsOpenMode).mode := rfl

theorem resolves_of_DosOpenL {outcome : FileAnswer × FileState}
    (inherited : fsOpenMode &&& 0x8000 = 0)
    (ran : DosOpenL server path opening fsOpenFlags fsOpenMode = .ok outcome) :
    opening.Resolves server.router path := by
  intro name named
  by_cases large : 260 ≤ name.length
  · simp [DosOpenL, named, FileState.fsOpenL, inherited, large] at ran
  · have short : ¬ 260 ≤
        (opening.request name fsOpenFlags fsOpenMode).pszFileName.length := large
    simp only [DosOpenL, named, FileState.fsOpenL, request_fsOpenMode, inherited,
      ne_eq, not_true, if_false, if_neg short] at ran
    obtain ⟨converted, looked, -⟩ := bind_eq_ok_iff.mp ran
    exact ⟨Nat.not_le.mp large, converted, looked⟩

theorem DosOpenL_of_resolves (inherited : fsOpenMode &&& 0x8000 = 0)
    (resolves : opening.Resolves server.router path) :
    (∃ handle entry answer,
      opening.host (opening.request [] fsOpenFlags fsOpenMode).mode = .ok handle ∧
      opening.Named server.router path ∧
      DosOpenL server path opening fsOpenFlags fsOpenMode =
        .ok (answer, server.opened handle entry) ∧
      answer.rc = 0 ∧ answer.handle = some handle) ∨
    (∃ rc, rc ≠ 0 ∧ DosOpenL server path opening fsOpenFlags fsOpenMode =
        .ok (Os2fs.answerOf rc, server) ∧
      ∀ handle, opening.host (opening.request [] fsOpenFlags fsOpenMode).mode = .ok handle →
        ¬ opening.Named server.router path) := by
  cases named : opening.full path with
  | error failure =>
    refine .inr ⟨failure.rc, failure.rc_ne, by simp [DosOpenL, named], ?_⟩
    rintro handle - ⟨name, converted, same, -⟩
    rw [named] at same
    cases same
  | ok name =>
    obtain ⟨short, ⟨rc, converted⟩, looked⟩ := resolves name named
    have ran : DosOpenL server path opening fsOpenFlags fsOpenMode =
        server.fsOpenL (opening.request name fsOpenFlags fsOpenMode) := by
      simp [DosOpenL, named]
    have only : opening.Named server.router path →
        rc = 0 ∧ converted.length + 1 ≤ 256 := by
      rintro ⟨name', converted', same, -, again, fits⟩
      rw [named] at same
      cases same
      rw [looked] at again
      cases again
      exact ⟨rfl, fits⟩
    rw [ran]
    simp only [FileState.fsOpenL, request_fsOpenMode, inherited, ne_eq, not_true,
      if_false, request_pszFileName, if_neg (Nat.not_le.mpr short), looked, bind_ok,
      request_opened, request_fsOpenFlags]
    by_cases strange : rc = 0
    · subst strange
      by_cases long : 256 < converted.length + 1
      · refine .inr ⟨206, by decide, by simp [long], ?_⟩
        intro handle _ isNamed
        exact Nat.not_le.mpr long (only isNamed).2
      · simp only [not_true, if_false, if_neg long]
        cases granted : opening.host (opening.request [] fsOpenFlags fsOpenMode).mode with
        | error errno =>
          refine .inr ⟨if errno = 24 then 4 else if errno = 2 then 2 else 5, ?_, ?_, ?_⟩
          · split_ifs <;> decide
          · simp only [pure_eq_ok]
            split_ifs <;> rfl
          · intro handle same
            cases same
        | ok handle =>
          refine .inl ⟨handle, ⟨handle, fsOpenMode, converted⟩,
            { Os2fs.answerOf 0 with
              handle := some handle
              action := (opening.request name fsOpenFlags fsOpenMode).action },
            rfl, ⟨name, converted, named, short, looked, Nat.not_lt.mp long⟩, ?_,
            rfl, rfl⟩
          simp [Os2fs.OPEN_ACTION_FAIL_IF_EXISTS]
    · refine .inr ⟨3, by decide, by simp [strange], ?_⟩
      intro handle _ isNamed
      exact strange (only isNamed).1

theorem request_mode (name : List UInt8) : (opening.request name fsOpenFlags fsOpenMode).mode =
      ({ pszFileName := [], fsOpenFlags, fsOpenMode, existed := false,
         opened := .error 0 } : Os2fs.OpenRequest).mode := rfl

theorem host_source_iff {handle : UInt32} :
    opening.host (opening.request [] 0x1 0x40).mode = .ok handle ↔
      opening.content.isSome ∧ opening.granted = .ok handle := by
  have mode : (opening.request [] 0x1 0x40).mode = 0 := by
    rw [request_mode]
    decide
  cases content : opening.content with
  | none => simp [host, mode, content]
  | some bytes => simp [host, mode, content]

theorem host_target_iff {ulOptions handle : UInt32} :
    opening.host (opening.request [] (0x10000 ||| openType ulOptions) 0x11).mode =
        .ok handle ↔
      opening.content = none ∧ opening.granted = .ok handle := by
  have mode : ∀ flags ∈ [Os2fs.OPEN_ACTION_FAIL_IF_EXISTS, 0x1, 0x10],
      (opening.request [] (0x10000 ||| flags) 0x11).mode &&& Os2fs.O_CREAT ≠ 0 ∧
        (opening.request [] (0x10000 ||| flags) 0x11).mode &&& Os2fs.O_EXCL ≠ 0 := by
    simp only [request_mode, List.forall_mem_cons, List.not_mem_nil, false_implies,
      implies_true, and_true]
    decide
  have among : openType ulOptions ∈ [Os2fs.OPEN_ACTION_FAIL_IF_EXISTS, 0x1, 0x10] := by
    unfold openType
    split_ifs <;> simp
  obtain ⟨creates, excludes⟩ := mode _ among
  cases content : opening.content with
  | none => simp [host, creates, content]
  | some bytes => simp [host, creates, excludes, content]

theorem opened_of_none (absent : opening.content = none) :
    opening.opened fsOpenFlags fsOpenMode = [] := by
  simp [opened, absent]

theorem open_of_resolves {Given : Prop} (inherited : fsOpenMode &&& 0x8000 = 0) (iff : ∀ {handle},
      opening.host (opening.request [] fsOpenFlags fsOpenMode).mode = .ok handle ↔
        Given ∧ opening.granted = .ok handle)
    (resolves : opening.Resolves server.router path) :
    ((Given ∧ opening.Named server.router path ∧ ∃ handle, opening.granted = .ok handle) ∧
      ∃ handle entry answer, DosOpenL server path opening fsOpenFlags fsOpenMode =
          .ok (answer, server.opened handle entry) ∧
        answer.rc = 0 ∧ answer.handle = some handle) ∨
    (¬ (Given ∧ opening.Named server.router path ∧ ∃ handle, opening.granted = .ok handle) ∧
      ∃ rc, rc ≠ 0 ∧ DosOpenL server path opening fsOpenFlags fsOpenMode =
        .ok (Os2fs.answerOf rc, server)) := by
  rcases DosOpenL_of_resolves inherited resolves with
    ⟨handle, entry, answer, opens, named, ran, ok, same⟩ | ⟨rc, refused, ran, none⟩
  · obtain ⟨given, granted⟩ := iff.mp opens
    exact .inl ⟨⟨given, named, handle, granted⟩, handle, entry, answer, ran, ok, same⟩
  · refine .inr ⟨?_, rc, refused, ran⟩
    rintro ⟨given, named, handle, granted⟩
    exact none handle (iff.mpr ⟨given, granted⟩) named

end Opening

namespace FileCopy

variable {file : FileCopy} {server : FileState} {pszSrc pszDst : List UInt8} {ulOptions : UInt32}

/-- What a copy comes to that returns. -/
structure Outcome (file : FileCopy) (server : FileState) (pszSrc pszDst : List UInt8)
    (copied : Copied) : Prop where
  router : copied.server.router = server.router
  rc_iff : copied.rc = 0 ↔ file.Succeeds server.router pszSrc pszDst
  kept : ∀ old, file.target.content = some old → copied.target = some old
  complete : copied.rc = 0 → copied.target = file.source.content ∧
    copied.written = file.source.content.getD []
  closed_iff : (∀ handle ∈ copied.opened, copied.server.descriptors handle = none) ↔
    (file.Transfers server.router pszSrc pszDst → WhileFull (¬ ·.Short) file.transfer.pieces)

theorem outcome_of_refused {copied : Copied} (idle : ¬ file.Transfers server.router pszSrc pszDst)
    (router : copied.server.router = server.router) (refused : copied.rc ≠ 0)
    (kept : copied.target = file.target.content)
    (closed : ∀ handle ∈ copied.opened, copied.server.descriptors handle = none) :
    file.Outcome server pszSrc pszDst copied where
  router := router
  rc_iff := ⟨fun ok => absurd ok refused, fun succeeds => absurd succeeds.1 idle⟩
  kept := fun _ present => kept.trans present
  complete := fun ok => absurd ok refused
  closed_iff := ⟨fun _ transfers => absurd transfers idle, fun _ => closed⟩

theorem copyOpen_of_fits {hSrc hDst fsOpenFlags : UInt32} {state : FileState}
    (transfers : file.Transfers server.router pszSrc pszDst)
    (fits : WhileFull file.Fits file.transfer.pieces)
    (router : state.router = server.router)
    (isOpen : state.descriptors hDst ≠ none) :
    ∃ copied, copyOpen file hSrc hDst fsOpenFlags state = .ok copied ∧
      file.Outcome server pszSrc pszDst copied := by
  obtain ⟨-, ⟨present, -⟩, ⟨absent, -⟩⟩ := id transfers
  obtain ⟨content, source⟩ := Option.isSome_iff_exists.mp present
  obtain ⟨⟨ending, written⟩, ran, described⟩ :=
    @transferLoop_of_fits _ file.transfer.failed _ fits []
  have kept : ∀ old, file.target.content = some old →
      some (written ++ (file.target.opened fsOpenFlags 0x11).drop written.length) =
        some old := by
    intro old exists'
    rw [absent] at exists'
    cases exists'
  have finished_iff := described.finished_iff
  have short_iff := described.short_iff
  simp only [copyOpen, ran, bind_ok]
  cases ending with
  | finished =>
    obtain ⟨ended, full⟩ := finished_iff.mp rfl
    have whole : written = content := by
      have bytes : file.source.content.getD [] = content := by rw [source]; rfl
      exact (described.written rfl).trans ((file.transfer.whole ended).trans bytes)
    refine ⟨_, rfl, by simpa using router, ?_, kept, ?_, ?_⟩
    · simpa using ⟨transfers, ended, full⟩
    · intro _
      simp [Opening.opened_of_none absent, source, whole]
    · have never : WhileFull (¬ ·.Short) file.transfer.pieces := by
        simpa using short_iff
      simp [never, Function.update_apply]
  | failed =>
    refine ⟨_, rfl, by simpa using router, ?_, kept, ?_, ?_⟩
    · have fails : ¬ file.Succeeds server.router pszSrc pszDst :=
        fun succeeds => by simpa using finished_iff.mpr succeeds.2
      simp [ERROR_NO_DATA, fails]
    · intro ok
      cases ok
    · have never : WhileFull (¬ ·.Short) file.transfer.pieces := by
        simpa using short_iff
      simp [never, Function.update_apply]
  | short =>
    refine ⟨_, rfl, router, ?_, kept, ?_, ?_⟩
    · have fails : ¬ file.Succeeds server.router pszSrc pszDst :=
        fun succeeds => by simpa using finished_iff.mpr succeeds.2
      simp [ERROR_WRITE_FAULT, fails]
    · intro ok
      cases ok
    · constructor
      · intro closed
        exact absurd (closed hDst (by simp)) isOpen
      · intro never
        exact absurd (never transfers) (short_iff.mp rfl)

theorem CopyFile_of_proceeds
    (proceeds : file.Proceeds server.router pszSrc pszDst ulOptions file.Fits) :
    ∃ copied, CopyFile file pszSrc pszDst ulOptions server = .ok copied ∧
      file.Outcome server pszSrc pszDst copied := by
  obtain ⟨room, next⟩ := proceeds
  simp only [CopyFile, if_neg (Nat.not_lt.mpr room)]
  by_cases alloc : file.alloc = 0
  swap
  · simp only [ne_eq, alloc, not_false_eq_true, if_true]
    exact ⟨_, rfl, outcome_of_refused (fun transfers => alloc transfers.1) rfl alloc rfl (by simp)⟩
  obtain ⟨resolves, next⟩ := next alloc
  simp only [ne_eq, alloc, not_true, if_false]
  rcases Opening.open_of_resolves (by decide) Opening.host_source_iff resolves with
    ⟨reads, hSrc, entry, answer, ran, ok, same⟩ | ⟨lost, rc, refused, ran⟩
  swap
  · simp only [ran, bind_ok, Os2fs.answerOf, refused, not_false_eq_true, if_true]
    exact ⟨_, rfl, outcome_of_refused (fun transfers => lost transfers.2.1)
      (by simp) refused rfl (by simp)⟩
  obtain ⟨resolves, next⟩ := next reads
  simp only [ran, bind_ok, ok, same, not_true, if_false, Option.getD_some]
  rcases @Opening.open_of_resolves _ (server.opened hSrc entry) _
    (0x10000 ||| openType ulOptions) 0x11 _ (by decide) Opening.host_target_iff resolves with
    ⟨makes, hDst, entry', answer, ran, ok, same⟩ | ⟨lost, rc, refused, ran⟩
  swap
  · simp only [ran, bind_ok, Os2fs.answerOf, refused, not_false_eq_true, if_true]
    refine ⟨_, rfl, outcome_of_refused (fun transfers => lost transfers.2.2) ?_ refused rfl ?_⟩
    · simp [FileState.opened]
    · simp [Function.update_apply]
  obtain ⟨starts, fits⟩ := next makes
  simp only [ran, bind_ok, ok, same, not_true, if_false, Option.getD_some, starts]
  exact copyOpen_of_fits ⟨alloc, reads, makes⟩ fits rfl (by simp [FileState.opened])

theorem fits_of_copyOpen {hSrc hDst fsOpenFlags : UInt32} {copied : Copied}
    (ran : copyOpen file hSrc hDst fsOpenFlags server = .ok copied) :
    WhileFull file.Fits file.transfer.pieces := by
  obtain ⟨outcome, moved, -⟩ := bind_eq_ok_iff.mp ran
  exact fits_of_transferLoop moved

theorem proceeds_of_CopyFile {copied : Copied}
    (ran : CopyFile file pszSrc pszDst ulOptions server = .ok copied) :
    file.Proceeds server.router pszSrc pszDst ulOptions file.Fits := by
  unfold CopyFile at ran
  by_cases room : file.room < 4
  · simp [room] at ran
  refine ⟨Nat.not_lt.mp room, ?_⟩
  intro alloc
  simp only [if_neg room, ne_eq, alloc, not_true, if_false] at ran
  obtain ⟨opened, readsSource, -⟩ := bind_eq_ok_iff.mp ran
  have resolves := Opening.resolves_of_DosOpenL (by decide) readsSource
  refine ⟨resolves, ?_⟩
  intro reads
  rcases Opening.open_of_resolves (by decide) Opening.host_source_iff resolves with
    ⟨-, hSrc, entry, answer, source, ok, same⟩ | ⟨lost, -⟩
  swap
  · exact absurd reads lost
  simp only [source, bind_ok, ok, same, not_true, if_false, Option.getD_some] at ran
  obtain ⟨made, makesTarget, -⟩ := bind_eq_ok_iff.mp ran
  have resolves := Opening.resolves_of_DosOpenL (by decide) makesTarget
  refine ⟨resolves, ?_⟩
  intro makes
  rcases @Opening.open_of_resolves _ (server.opened hSrc entry) _
    (0x10000 ||| openType ulOptions) 0x11 _ (by decide) Opening.host_target_iff resolves with
    ⟨-, hDst, entry', answer, target, ok, same⟩ | ⟨lost, -⟩
  swap
  · exact absurd makes lost
  simp only [target, bind_ok, ok, same, not_true, if_false, Option.getD_some] at ran
  by_cases appends : ulOptions &&& DCPY_APPEND = 0
  · simp only [appends, not_true, if_false] at ran
    exact ⟨appends, fits_of_copyOpen ran⟩
  · simp [appends, DosSetFilePtrL] at ran

theorem Proceeds.mono {router : FSRouter} {Holds Weaker : Chunk → Prop}
    (proceeds : file.Proceeds router pszSrc pszDst ulOptions Holds)
    (weaker : file.Transfers router pszSrc pszDst →
      WhileFull Holds file.transfer.pieces → WhileFull Weaker file.transfer.pieces) :
    file.Proceeds router pszSrc pszDst ulOptions Weaker := by
  refine ⟨proceeds.1, ?_⟩
  intro alloc
  refine ⟨(proceeds.2 alloc).1, ?_⟩
  intro reads
  refine ⟨((proceeds.2 alloc).2 reads).1, ?_⟩
  intro makes
  obtain ⟨starts, holds⟩ := ((proceeds.2 alloc).2 reads).2 makes
  exact ⟨starts, weaker ⟨alloc, reads, makes⟩ holds⟩

theorem proceeds_and_iff {router : FSRouter} {P Q : Chunk → Prop} :
    file.Proceeds router pszSrc pszDst ulOptions (fun chunk => P chunk ∧ Q chunk) ↔
      file.Proceeds router pszSrc pszDst ulOptions P ∧
        (file.Transfers router pszSrc pszDst → WhileFull Q file.transfer.pieces) := by
  constructor
  · intro proceeds
    refine ⟨proceeds.mono fun _ both => (whileFull_and_iff.mp both).1, ?_⟩
    rintro ⟨alloc, reads, makes⟩
    exact (whileFull_and_iff.mp (((proceeds.2 alloc).2 reads).2 makes).2).2
  · rintro ⟨proceeds, also⟩
    exact proceeds.mono fun transfers holds =>
      whileFull_and_iff.mpr ⟨holds, also transfers⟩

end FileCopy

namespace CopyCall

variable {call : CopyCall} {ulOptions : UInt32}

theorem right_of_refused {rc : UInt32} (refused : rc ≠ 0) :
    call.Right ulOptions (call.refused rc) where
  kept := fun _ _ present => ⟨present, refused⟩
  replaced := fun ok => absurd ok refused
  appended := fun ok => absurd ok refused
  written := fun ok => absurd ok refused
  closed := fun _ among => absurd among List.not_mem_nil

theorem right_iff_of_outcome {pszOld pszNew : List UInt8} {copied : Copied}
    (outcome : call.file.Outcome call.server pszOld pszNew copied)
    (starts : call.file.Transfers call.server.router pszOld pszNew →
      ulOptions &&& DCPY_APPEND = 0) :
    call.Right ulOptions copied ↔
      ∀ handle ∈ copied.opened, copied.server.descriptors handle = none := by
  constructor
  · exact fun right => right.closed
  · intro closed
    refine ⟨?_, ?_, ?_, ?_, closed⟩
    · intro _ old present
      refine ⟨outcome.kept old present, ?_⟩
      intro ok
      have absent := (outcome.rc_iff.mp ok).1.2.2.1
      rw [present] at absent
      cases absent
    · intro ok _ _
      exact (outcome.complete ok).1
    · intro ok appends
      exact absurd (starts (outcome.rc_iff.mp ok).1) appends
    · intro ok
      exact (outcome.complete ok).2

theorem CopyFile_right_iff {pszOld pszNew : List UInt8} :
    (∃ copied, CopyFile call.file pszOld pszNew ulOptions call.server = .ok copied ∧
      call.Right ulOptions copied) ↔
      call.file.Proceeds call.server.router pszOld pszNew ulOptions
        fun chunk => call.file.Fits chunk ∧ ¬ chunk.Short := by
  rw [FileCopy.proceeds_and_iff]
  constructor
  · rintro ⟨copied, ran, right⟩
    have proceeds := FileCopy.proceeds_of_CopyFile ran
    obtain ⟨copied', ran', outcome⟩ := FileCopy.CopyFile_of_proceeds proceeds
    obtain rfl := Except.ok.inj (ran.symm.trans ran')
    exact ⟨proceeds, outcome.closed_iff.mp right.closed⟩
  · rintro ⟨proceeds, never⟩
    obtain ⟨copied, ran, outcome⟩ := FileCopy.CopyFile_of_proceeds proceeds
    refine ⟨copied, ran, (right_iff_of_outcome outcome ?_).mpr (outcome.closed_iff.mpr never)⟩
    rintro ⟨alloc, reads, makes⟩
    exact (((proceeds.2 alloc).2 reads).2 makes).1

end CopyCall

/-- A file of the first drive by its full name. -/
def onDriveA (content : Option (List UInt8)) (handle : UInt32) : Opening where
  full := .ok
  content := content
  granted := .ok handle

/-- "a:\\x" and "a:\\y" -/
def oldName : List UInt8 := [0x61, 0x3a, 0x5c, 0x78]
def newName : List UInt8 := [0x61, 0x3a, 0x5c, 0x79]

/-- Two bytes are copied, of which the host takes some. -/
def copyTwo (taken : Nat) : FileCopy where
  alloc := 0
  room := 4
  hSrc := 0
  hDst := 0
  source := onDriveA (some [1, 2]) 3
  target := onDriveA none 4
  transfer :=
    { pieces := [⟨[1, 2], some taken, List.cons_ne_nil _ _, Nat.le_of_ble_eq_true rfl⟩]
      failed := false
      begins := ⟨[], rfl⟩
      whole := fun _ => rfl }

/-- The call to copy them. -/
def callTwo (taken : Nat) : CopyCall where
  pszOld := some oldName
  pszNew := some newName
  oldRoom := 5
  newRoom := 5
  queried := .ok 0
  file := copyTwo taken
  delete := 0
  found := .files [] 3
  server := ⟨FSRouter.init, [], fun _ => none, 0⟩

theorem callTwo_single (taken : Nat) : (callTwo taken).Single := by
  rintro attrFile ⟨⟩
  rfl

theorem resolves_oldName {content : Option (List UInt8)} {handle : UInt32} :
    (onDriveA content handle).Resolves FSRouter.init oldName := by
  rintro name ⟨⟩
  exact ⟨by decide, _, rfl⟩

theorem resolves_newName {content : Option (List UInt8)} {handle : UInt32} :
    (onDriveA content handle).Resolves FSRouter.init newName := by
  rintro name ⟨⟩
  exact ⟨by decide, _, rfl⟩

theorem copyTwo_proceeds (taken : Nat) :
    (copyTwo taken).Proceeds FSRouter.init oldName newName 0 (copyTwo taken).Fits := by
  refine ⟨Nat.le_refl 4, fun _ => ⟨resolves_oldName, fun _ => ⟨resolves_newName, ?_⟩⟩⟩
  intro _
  refine ⟨rfl, ?_, fun _ => trivial⟩
  exact (by decide : [1, 2].length ≤ 4)

end OsFree.Doscalls
