import Mathlib.Logic.Function.Basic
import OsFree.Os2fs.Mounts

/-!
# File handles

The handle of a file is a descriptor of the host.  Next to the descriptors the
file system server has a list of the handles that have been opened, with the
mode of each; nothing is ever taken off it.
-/

namespace OsFree.Os2fs

open Machine

/-- `filehandle_t`. -/
structure FileHandle where
  hfile : UInt32
  openmode : UInt32
  filename : List UInt8

/-- The list of handles in its order, and the open files of the host by their
descriptors and the number of the next one. -/
structure FileState where
  router : FSRouter
  fileroot : List FileHandle
  descriptors : UInt32 → Option Nat
  files : Nat

/-- What a request gives back. -/
structure FileAnswer where
  rc : UInt32
  handle : Option UInt32
  action : Option UInt32
  mode : Option UInt32
  file : Option Nat

/-- An answer with a code alone. -/
def answerOf (rc : UInt32) : FileAnswer := ⟨rc, none, none, none, none⟩

/-- A request to open a file: whether the host has the file already, and what it
answers when the file is opened: an error number or a descriptor. -/
structure OpenRequest where
  pszFileName : List UInt8
  fsOpenFlags : UInt32
  fsOpenMode : UInt32
  existed : Bool
  opened : Except UInt32 UInt32

/-- The bits of the host that open modes and flags stand for. -/
def O_WRONLY : UInt32 := 1
def O_RDWR : UInt32 := 2
def O_CREAT : UInt32 := 0x40
def O_EXCL : UInt32 := 0x80
def O_TRUNC : UInt32 := 0x200

/-- Bits that are joined if a flag is set. -/
def joinIf (word flag bits mode : UInt32) : UInt32 :=
  if word &&& flag ≠ 0 then mode ||| bits else mode

/-- The mode in which the host opens a file. -/
def OpenRequest.mode (request : OpenRequest) : UInt32 :=
  let mode := joinIf request.fsOpenMode 0x1 O_WRONLY 0
  let mode := joinIf request.fsOpenMode 0x2 O_RDWR mode
  let mode := joinIf request.fsOpenMode 0x30 (O_RDWR ||| O_EXCL) mode
  let mode := joinIf request.fsOpenMode 0x20 (O_WRONLY ||| O_EXCL) mode
  let mode := joinIf request.fsOpenMode 0x10 O_EXCL mode
  let mode := if request.fsOpenMode &&& 0x40 ≠ 0 then mode &&& ~~~O_EXCL else mode
  let mode := joinIf request.fsOpenFlags 0x10000 O_CREAT mode
  joinIf request.fsOpenFlags 0x10 O_TRUNC mode

/-- What the file was: 1 if it has existed, 3 if it has been truncated, 2 if it
has been made. -/
def OpenRequest.action (request : OpenRequest) : Option UInt32 :=
  if request.fsOpenFlags &&& 0x1 ≠ 0 then
    if request.existed ∧ request.mode &&& ~~~O_TRUNC ≠ 0 then some 1
    else if request.existed ∧ request.mode &&& O_TRUNC ≠ 0 then some 3
    else if request.existed = false then some 2
    else none
  else none

/-- A slash is turned into a backslash. -/
def toBackslash (c : UInt8) : UInt8 := if c = 0x2f then Compat.backslash else c

/-- `OPEN_ACTION_FAIL_IF_EXISTS`. -/
def OPEN_ACTION_FAIL_IF_EXISTS : UInt32 := 0

namespace FileState

variable (state : FileState)

/-- The state with another open file. -/
def opened (handle : UInt32) (entry : FileHandle) : FileState := { state with
    fileroot := state.fileroot ++ [entry]
    descriptors := Function.update state.descriptors handle (some state.files)
    files := state.files + 1 }

/-- Open a file.  The name is copied to an array of 260 characters.  The codes
are ERROR_ACCESS_DENIED (5), ERROR_PATH_NOT_FOUND (3),
ERROR_FILENAME_EXCED_RANGE (206), ERROR_TOO_MANY_OPEN_FILES (4),
ERROR_FILE_NOT_FOUND (2) and ERROR_OPEN_FAILED (110). -/
def fsOpenL (request : OpenRequest) : Run (FileAnswer × FileState) :=
  if request.fsOpenMode &&& 0x8000 ≠ 0 then .ok (answerOf 5, state)
  else if 260 ≤ request.pszFileName.length then .error .writeOutside
  else do
    let (rc, newfilename) ← pathconv state.router (request.pszFileName.map toBackslash)
    if rc ≠ 0 then return (answerOf 3, state)
    else if 256 < newfilename.length + 1 then return (answerOf 206, state)
    else
      match request.opened with
      | .error errno =>
        if errno = 24 then return (answerOf 4, state)
        else if errno = 2 then return (answerOf 2, state)
        else return (answerOf 5, state)
      | .ok handle =>
        if request.fsOpenFlags &&& OPEN_ACTION_FAIL_IF_EXISTS ≠ 0 then
          return (answerOf 110, state)
        else
          return ({ answerOf 0 with handle := some handle, action := request.action },
            state.opened handle ⟨handle, request.fsOpenMode, newfilename⟩)

/-- Close a descriptor; ERROR_INVALID_HANDLE is 6. -/
def fsClose (hFile : UInt32) : FileAnswer × FileState :=
  match state.descriptors hFile with
  | none => (answerOf 6, state)
  | some _ =>
    (answerOf 0,
      { state with descriptors := Function.update state.descriptors hFile none })

/-- The first entry of the list with a handle.  The loop goes on to the null
pointer behind the list. -/
def entryOf (hFile : UInt32) : Run FileHandle :=
  match state.fileroot.find? fun entry => entry.hfile = hFile with
  | none => .error .nullPointer
  | some entry => .ok entry

/-- Duplicate a handle, where `dup` is the descriptor that the host gives, if it
has one.  What follows the last test is never reached: a duplicate that has been
made is refused too.  ERROR_INVALID_TARGET_HANDLE is 114. -/
def fsDupHandle (hFile phFile2 : UInt32) (dup : Option UInt32) :
    Run (FileAnswer × FileState) := do
  let _ ← state.entryOf hFile
  if phFile2 = 0xffffffff then
    match state.descriptors hFile, dup with
    | none, _ => return (answerOf 6, state)
    | some _, none => return (answerOf 4, state)
    | some file, some handle =>
      return (answerOf 114, { state with
          descriptors := Function.update state.descriptors handle (some file) })
  else return (answerOf 114, state)

/-- The mode of a handle.  The first three are always read from and written to,
and not denied to others. -/
def fsQueryFHState (hFile : UInt32) : Run FileAnswer :=
  if hFile = 0 ∨ hFile = 1 ∨ hFile = 2 then
    .ok { answerOf 0 with mode := some 0x42 }
  else
    (fun entry => { answerOf 0 with mode := some entry.openmode }) <$> state.entryOf hFile

/-- Use the open file of a descriptor, or answer a code if it is not open. -/
def onDescriptor (rc hFile : UInt32) : FileAnswer :=
  match state.descriptors hFile with
  | none => answerOf rc
  | some file => { answerOf 0 with file := some file }

/-- ERROR_NO_DATA is 232. -/
def fsRead : UInt32 → FileAnswer := state.onDescriptor 232

def fsWrite : UInt32 → FileAnswer := state.onDescriptor 232

def fsSetFilePtrL : UInt32 → FileAnswer := state.onDescriptor 6

def fsQueryHType : UInt32 → FileAnswer := state.onDescriptor 6

end FileState

/-- A request of a process. -/
inductive FileRequest where
  | openL (request : OpenRequest)
  | close (hFile : UInt32)
  | dupHandle (hFile phFile2 : UInt32) (dup : Option UInt32)
  | queryFHState (hFile : UInt32)
  | read (hFile : UInt32)
  | write (hFile : UInt32)
  | setFilePtrL (hFile : UInt32)
  | queryHType (hFile : UInt32)

/-- What the server does for a request. -/
def FileState.serve (state : FileState) : FileRequest → Run (FileAnswer × FileState)
  | .openL request => state.fsOpenL request
  | .close hFile => .ok (state.fsClose hFile)
  | .dupHandle hFile phFile2 dup => state.fsDupHandle hFile phFile2 dup
  | .queryFHState hFile => (·, state) <$> state.fsQueryFHState hFile
  | .read hFile => .ok (state.fsRead hFile, state)
  | .write hFile => .ok (state.fsWrite hFile, state)
  | .setFilePtrL hFile => .ok (state.fsSetFilePtrL hFile, state)
  | .queryHType hFile => .ok (state.fsQueryHType hFile, state)

end OsFree.Os2fs
