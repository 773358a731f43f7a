import OsFree.Doscalls.InsertMessage
import OsFree.Os2fs.FileHandles

/-!
# A file is copied

The target is opened with a mode that the file system server makes of the
options, and the source is read and written piece by piece.  The buffer is the
memory where a pointer that nothing has been stored to happens to point.
-/

namespace OsFree.Doscalls

section

open Machine
open Os2fs (FileState FileAnswer OpenRequest)

def IOBUF_SIZ : Nat := 32768

def DCPY_EXISTING : UInt32 := 1
def DCPY_APPEND : UInt32 := 2
def DCPY_FAILEAS : UInt32 := 4

def ERROR_WRITE_FAULT : UInt32 := 29
def ERROR_NO_DATA : UInt32 := 232

/-- A code that tells of an error. -/
structure Failure where
  rc : UInt32
  rc_ne : rc ≠ 0

/-- A file to open: the full name that is made of its path, the bytes that are
in it if it is there, and what the host answers where the mode allows to open it,
an error number or a descriptor. -/
structure Opening where
  full : List UInt8 → Except Failure (List UInt8)
  content : Option (List UInt8)
  granted : Except UInt32 UInt32

namespace Opening

variable (opening : Opening)

/-- Open a file of the host.  A file that is there is not created exclusively,
and one that is not there has to be created; the error numbers are EEXIST (17)
and ENOENT (2). -/
def host (mode : UInt32) : Except UInt32 UInt32 :=
  if opening.content.isSome then
    if mode &&& Os2fs.O_CREAT ≠ 0 ∧ mode &&& Os2fs.O_EXCL ≠ 0 then .error 17
    else opening.granted
  else if mode &&& Os2fs.O_CREAT = 0 then .error 2
  else opening.granted

/-- The request that the server gets. -/
def request (name : List UInt8) (fsOpenFlags fsOpenMode : UInt32) : OpenRequest :=
  let asked : OpenRequest :=
    { pszFileName := name
      fsOpenFlags
      fsOpenMode
      existed := opening.content.isSome
      opened := opening.granted }
  { asked with opened := opening.host asked.mode }

/-- What is in the file once it is open. -/
def opened (fsOpenFlags fsOpenMode : UInt32) : List UInt8 :=
  if (opening.request [] fsOpenFlags fsOpenMode).mode &&& Os2fs.O_TRUNC ≠ 0 then []
  else opening.content.getD []

end Opening

def DosOpenL (state : FileState) (pszFileName : List UInt8) (opening : Opening)
    (fsOpenFlags fsOpenMode : UInt32) : Run (FileAnswer × FileState) :=
  match opening.full pszFileName with
  | .error failure => .ok (Os2fs.answerOf failure.rc, state)
  | .ok name => state.fsOpenL (opening.request name fsOpenFlags fsOpenMode)

/-- Close a handle; the answer is not looked at. -/
def DosClose (state : FileState) (hFile : UInt32) : FileState := (state.fsClose hFile).2

/-- Set the place in a file.  It is read back from where the caller wants to
have it. -/
def DosSetFilePtrL (state : FileState) (hFile : UInt32) (pibActual : Option Nat) :
    Run FileAnswer :=
  match pibActual with
  | none => .error .nullPointer
  | some _ => .ok (state.fsSetFilePtrL hFile)

/-- A read that gives some bytes, and the answer to the write of them: how many
the host would take, if it takes any. -/
structure Chunk where
  bytes : List UInt8
  taken : Option Nat
  bytes_ne : bytes ≠ []
  bytes_le : bytes.length ≤ IOBUF_SIZ

/-- The reads of a file up to the first that gives nothing, because the file
ends or because it fails. -/
structure Transfer (content : List UInt8) where
  pieces : List Chunk
  failed : Bool
  begins : pieces.flatMap Chunk.bytes <+: content
  whole : failed = false → pieces.flatMap Chunk.bytes = content

/-- How a transfer ends. -/
inductive Ending where
  | finished
  | failed
  | short
  deriving DecidableEq

/-- Move the bytes piece by piece through a buffer that has some room. -/
def transferLoop (room : Nat) (failed : Bool) : List Chunk → List UInt8 → Run (Ending × List UInt8)
  | [], written => .ok (if failed then .failed else .finished, written)
  | piece :: pieces, written =>
    if room < piece.bytes.length then .error .writeOutside
    else
      match piece.taken with
      | none => .ok (.failed, written)
      | some ulWritten =>
        if ulWritten < piece.bytes.length then
          .ok (.short, written ++ piece.bytes.take ulWritten)
        else transferLoop room failed pieces (written ++ piece.bytes)

/-- What the copy of a file meets: the answer of `DosAllocMem`, the bytes that
may be used where the pointer to the buffer points, what happens to be in the
two handles, the files, and the transfer. -/
structure FileCopy where
  alloc : UInt32
  room : Nat
  hSrc : UInt32
  hDst : UInt32
  source : Opening
  target : Opening
  transfer : Transfer (source.content.getD [])

/-- The outcome: the code, the target, what has been written, the handles that
have been opened, and the server. -/
structure Copied where
  rc : UInt32
  target : Option (List UInt8)
  written : List UInt8
  opened : List UInt32
  server : FileState

/-- How the target is opened if it exists. -/
def openType (ulOptions : UInt32) : UInt32 :=
  if ulOptions &&& DCPY_EXISTING = 0 then Os2fs.OPEN_ACTION_FAIL_IF_EXISTS
  else if ulOptions &&& DCPY_APPEND ≠ 0 then 0x1
  else 0x10

/-- Move the bytes between the open files. -/
def copyOpen (file : FileCopy) (hSrc hDst fsOpenFlags : UInt32)
    (server : FileState) : Run Copied := do
  let (ending, written) ← transferLoop file.room file.transfer.failed file.transfer.pieces []
  let target := written ++ (file.target.opened fsOpenFlags 0x11).drop written.length
  let outcome (rc : UInt32) (server : FileState) : Copied :=
    ⟨rc, some target, written, [hSrc, hDst], server⟩
  match ending with
  | .finished => return outcome 0 (DosClose (DosClose server hDst) hSrc)
  | .failed => return outcome ERROR_NO_DATA (DosClose (DosClose server hDst) hSrc)
  | .short => return outcome ERROR_WRITE_FAULT server

/-- Copy a file.  The address of the memory that is allocated is stored to where
the pointer to the buffer points. -/
def CopyFile (file : FileCopy) (pszSrc pszDst : List UInt8) (ulOptions : UInt32)
    (server : FileState) : Run Copied :=
  if file.room < 4 then .error .writeOutside
  else if file.alloc ≠ 0 then
    .ok ⟨file.alloc, file.target.content, [], [], server⟩
  else do
    let (src, server) ← DosOpenL server pszSrc file.source 0x1 0x40
    if src.rc ≠ 0 then
      return ⟨src.rc, file.target.content, [], [], DosClose server file.hSrc⟩
    else
      let hSrc := src.handle.getD file.hSrc
      let fsOpenFlags := 0x10000 ||| openType ulOptions
      let (dst, server) ← DosOpenL server pszDst file.target fsOpenFlags 0x11
      if dst.rc ≠ 0 then
        return ⟨dst.rc, file.target.content, [], [hSrc], DosClose (DosClose server file.hDst) hSrc⟩
      else
        let hDst := dst.handle.getD file.hDst
        if ulOptions &&& DCPY_APPEND ≠ 0 then
          let _ ← DosSetFilePtrL server hDst none
          copyOpen file hSrc hDst fsOpenFlags server
        else copyOpen file hSrc hDst fsOpenFlags server

end

/-!
## Directories are copied and moved

`CopyTree` looks for the directories and then for the files of a directory, and
puts the names that it finds behind the path that it has been given.  `DosMove`
deletes what it has copied.
-/

open Machine
open Os2fs (FileState)

def CCHMAXPATH : Nat := 260

def FILE_DIRECTORY : UInt32 := 0x10

/-- A directory that is found.  Memory for its entry in the list may be lacking. -/
structure DirEntry where
  achName : List UInt8
  attrFile : UInt32
  allocated : Bool
  achName_ne : achName ≠ []

/-- A file that is found, with what its copy meets and the answer of `DosDelete`
for it. -/
structure FileEntry where
  achName : List UInt8
  attrFile : UInt32
  copy : FileCopy
  delete : UInt32

/-- What the two searches of a directory find: the directories, each with what is
found below it, then the files.  The last part has the answer of `DosDeleteDir`
as well. -/
inductive Found where
  | files (entries : List FileEntry) (deleteDir : UInt32)
  | dir (entry : DirEntry) (below rest : Found)

/-- A file on its way from one path to another. -/
structure Item where
  src : List UInt8
  dst : List UInt8
  copy : FileCopy
  delete : UInt32

/-- What is done to the files: a file has been copied, and its target has some
content; a directory has been made for another one; a file or a directory has
been deleted. -/
inductive Event where
  | copied (item : Item) (target : Option (List UInt8))
  | created (src dst : List UInt8)
  | deleted (item : Item)
  | deletedDir (path : List UInt8)

/-- "*" -/
def star : List UInt8 := [0x2a]

/-- '/' -/
def slash : UInt8 := 0x2f

/-- The directory is one below, and not the directory itself or the one above. -/
def DirEntry.Below (entry : DirEntry) : Prop :=
  entry.achName ≠ [0x2e] ∧ entry.achName ≠ [0x2e, 0x2e] ∧ entry.attrFile &&& FILE_DIRECTORY ≠ 0

instance (entry : DirEntry) : Decidable entry.Below := inferInstanceAs (Decidable (_ ∧ _))

/-- A path with a name behind it; `room` bytes may be written. -/
def putName (room : Nat) (path name : List UInt8) : Run (List UInt8) :=
  if (path ++ name.take (CCHMAXPATH - 1)).length < room then
    .ok (path ++ name.take (CCHMAXPATH - 1))
  else .error .writeOutside

/-- Append a slash as far as the path stays short enough. -/
def putSlash (room : Nat) (path : List UInt8) : Run (List UInt8) :=
  if path.length + 1 < CCHMAXPATH then
    if path.length + 1 < room then .ok (path ++ [slash])
    else .error .writeOutside
  else .ok path

/-- Enter a path in the list. -/
def enter (room : Nat) (path name : List UInt8) : Run (List UInt8) := do
  let path ← putName room path name
  let path ← putSlash room path
  return path.take (CCHMAXPATH - 1)

/-- Nothing is checked yet. -/
def CheckPath (path : List UInt8) : Run UInt32 :=
  match path with
  | [] => .error .readOutside
  | [byte] => if byte = slash then .error .readOutside else .ok 0
  | _ => .ok 0

/-- What goes through the search: the result, what has been done, and the
server. -/
structure Walk where
  result : UInt32
  events : List Event
  server : FileState

/-- How a tree is copied: the options, whether it is deleted, and the bytes that
may be written at the two paths. -/
structure Mode where
  ulOptions : UInt32
  ulNeedDel : Bool
  srcRoom : Nat
  dstRoom : Nat

/-- The mode for the paths of the list. -/
def Mode.listed (mode : Mode) : Mode :=
  { mode with srcRoom := CCHMAXPATH, dstRoom := CCHMAXPATH }

/-- The first search.  Each directory is put in a list. -/
def listDirs (mode : Mode) (pszSrc pszDst : List UInt8) : Found → Run Unit
  | .files _ _ => .ok ()
  | .dir entry _ rest =>
    if entry.Below then do
      let _ ← enter mode.srcRoom pszSrc entry.achName
      let _ ← enter mode.dstRoom pszDst entry.achName
      if entry.allocated then listDirs mode pszSrc pszDst rest
      else .error .nullPointer
    else listDirs mode pszSrc pszDst rest

/-- Up to the end of the first search. -/
def beginTree (mode : Mode) (pszSrc pszDst : List UInt8) (found : Found) :
    Run Unit := do
  let _ ← putName mode.srcRoom pszSrc star
  listDirs mode pszSrc pszDst found

/-- Copy a file, and delete it if needed. -/
def moveFile (mode : Mode) (item : Item) (walk : Walk) : Run Walk := do
  let copied ← CopyFile item.copy item.src item.dst mode.ulOptions walk.server
  let done := if copied.rc = 0 then [Event.copied item copied.target] else []
  let gone :=
    if mode.ulNeedDel ∧ item.delete = 0 then [Event.deleted item] else []
  return {
    result := if copied.rc ≠ 0 then copied.rc else walk.result
    events := walk.events ++ (done ++ gone)
    server := copied.server }

/-- The second search.  `last` is the name that is behind the source path. -/
def copyFiles (mode : Mode) (pszSrc pszDst : List UInt8) :
    List FileEntry → List UInt8 → Walk → Run (List UInt8 × Walk)
  | [], last, walk => .ok (last, walk)
  | entry :: rest, last, walk =>
    if entry.attrFile &&& FILE_DIRECTORY ≠ 0 then
      copyFiles mode pszSrc pszDst rest last walk
    else do
      let src ← putName mode.srcRoom pszSrc entry.achName
      let dst ← putName mode.dstRoom pszDst entry.achName
      let walk ← moveFile mode ⟨src, dst, entry.copy, entry.delete⟩ walk
      copyFiles mode pszSrc pszDst rest src walk

/-- What follows the first search: the directories of the list, then the files.
The result of a directory is not looked at. -/
def copyFound (mode : Mode) (pszSrc pszDst : List UInt8) : Found → Walk → Run Walk
  | .dir entry below rest, walk =>
    if entry.Below then do
      let src ← enter mode.srcRoom pszSrc entry.achName
      let dst ← enter mode.dstRoom pszDst entry.achName
      let i ← CheckPath dst
      if i ≠ 0 then
        copyFound mode pszSrc pszDst rest { walk with result := i }
      else
        beginTree mode.listed src dst below
        let inner ← copyFound mode.listed src dst below { walk with result := 0 }
        copyFound mode pszSrc pszDst rest { inner with result := walk.result }
    else copyFound mode pszSrc pszDst rest walk
  | .files entries deleteDir, walk => do
      let src ← putName mode.srcRoom pszSrc star
      let (last, walk) ← copyFiles mode pszSrc pszDst entries src walk
      if mode.ulNeedDel ∧ deleteDir = 0 then
        return { walk with events := walk.events ++ [.deletedDir last] }
      else return walk

/-- Copy a directory.  The names are put behind the paths, of which no more than
`CCHMAXPATH` bytes are looked at. -/
def CopyTree (mode : Mode) (pszSrc pszDst : List UInt8) (found : Found)
    (server : FileState) : Run Walk := do
  let pszSrc := pszSrc.take CCHMAXPATH
  let pszDst := pszDst.take CCHMAXPATH
  beginTree mode pszSrc pszDst found
  copyFound mode pszSrc pszDst found ⟨0, [], server⟩

/-- A call to copy or to move: the paths and the bytes that may be written at
them, the attributes of the source, and what the copy of a file or of a directory
meets. -/
structure CopyCall where
  pszOld : Option (List UInt8)
  pszNew : Option (List UInt8)
  oldRoom : Nat
  newRoom : Nat
  queried : Except Failure UInt32
  file : FileCopy
  delete : UInt32
  found : Found
  server : FileState

namespace CopyCall

variable (call : CopyCall)

/-- The options that are not known. -/
def DCPY_MASK : UInt32 := ~~~(DCPY_EXISTING ||| DCPY_APPEND ||| DCPY_FAILEAS)

/-- A call that does nothing. -/
def refused (rc : UInt32) : Copied := ⟨rc, call.file.target.content, [], [], call.server⟩

/-- Copy a file or a directory.  Of a directory the code and the server are
given back. -/
def DosCopy (ulOptions : UInt32) : Run Copied :=
  match call.pszOld, call.pszNew with
  | some pszOld, some pszNew =>
    if ulOptions &&& DCPY_MASK ≠ 0 then
      .ok (call.refused ERROR_INVALID_PARAMETER)
    else
      match call.queried with
      | .error failure => .ok (call.refused failure.rc)
      | .ok attrFile =>
        if attrFile &&& FILE_DIRECTORY ≠ 0 then do
          let walk ← CopyTree ⟨ulOptions &&& ~~~DCPY_APPEND, false, call.oldRoom, call.newRoom⟩
            pszOld pszNew call.found call.server
          return { call.refused walk.result with server := walk.server }
        else CopyFile call.file pszOld pszNew ulOptions call.server
  | _, _ => .ok (call.refused ERROR_INVALID_PARAMETER)

/-- Moves within a volume are not there yet. -/
def KalMove : UInt32 := ERROR_INVALID_PARAMETER

/-- Move a file or a directory; `uninitialised` is in a variable if nothing has
to be copied. -/
def DosMove (uninitialised : UInt32) : Run Walk :=
  match call.pszOld, call.pszNew with
  | some pszOld, some pszNew =>
    if KalMove ≠ 0 then
      match call.queried with
      | .error failure => .ok ⟨failure.rc, [], call.server⟩
      | .ok attrFile =>
        if attrFile &&& FILE_DIRECTORY ≠ 0 then
          CopyTree ⟨0, true, call.oldRoom, call.newRoom⟩ pszOld pszNew call.found call.server
        else do
          let copied ← CopyFile call.file pszOld pszNew 0 call.server
          if copied.rc ≠ 0 then return ⟨copied.rc, [], copied.server⟩
          else
            let item : Item := ⟨pszOld, pszNew, call.file, call.delete⟩
            let gone := if call.delete = 0 then [Event.deleted item] else []
            return ⟨call.delete, .copied item copied.target :: gone, copied.server⟩
    else .ok ⟨uninitialised, [], call.server⟩
  | _, _ => .ok ⟨ERROR_INVALID_PARAMETER, [], call.server⟩

end CopyCall

end OsFree.Doscalls
