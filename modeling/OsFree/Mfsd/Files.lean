import OsFree.Machine.SegmentCopy
import OsFree.Machine.Slots
import OsFree.Mfsd.OpenName

/-!
# The files of the mini file system

The driver has one position, size and base for all files.  The record of each file,
which the caller passes, has its own ones, and the number of the slot in which the
file is saved until the real file system opens it again.
-/

namespace OsFree.Mfsd

open Machine Machine.SegmentCopy

/-- What the driver keeps in the caller's records of a file, `sffsi` and `sffsd`: the
base, the direct read flag and the index are the first words of `sffsd`. -/
structure FileRecord where
  sfi_size : UInt32
  sfi_position : UInt32
  base : UInt32
  direct : UInt32
  index : Nat

/-- `save_item`, with the file that its pointers are to. -/
structure SaveItem where
  file : Nat
  pName : List UInt8

/-- The variables of the driver, and the records of all files. -/
structure Driver where
  filemax : UInt32
  filepos : UInt32
  filebase : UInt32
  volsize : UInt32
  save_map : Fin 0x80 → Bool
  save_area : Fin 0x80 → SaveItem
  open_files : Int
  records : Nat → FileRecord

/-- The result of an entry point. -/
inductive Code where
  | noError
  | invalidParameter
  | seek
  | failed
  deriving DecidableEq

/-- A name that a caller passes: its string, and the bytes behind its zero. -/
structure CallerName where
  text : List UInt8
  after : Nat → UInt8
  nonzero : 0 ∉ text

/-- The bytes at the pointer to a name. -/
def CallerName.bytes (name : CallerName) (n : Nat) : List UInt8 :=
  (name.text ++ 0 :: (List.range n).map name.after).take n

/-- What a file has been opened on: a module, or the whole drive. -/
inductive Target where
  | module (mod : Module)
  | drive

/-- The name without a drive, as it is looked up.  The second character is read
without a look at the first one. -/
def openName (name : CallerName) : Run (List UInt8) :=
  if name.text = [] then .error .readOutside
  else if name.text[1]? = some 0x3a ∧ name.text[2]? = some 0x5c then
    .ok (name.text.drop 2)
  else .ok name.text

/-- The name as it is saved, in lower case.  It has to end in its field. -/
def savedName (name : CallerName) : Run (List UInt8) :=
  let pName := name.bytes 0x3a
  if 0 ∈ pName then .ok (mapString tolower pName) else .error .readOutside

/-- What a read returns: its code, the length, the segment of the buffer and the
driver. -/
structure ReadResult where
  rc : Code
  len : UInt16
  segment : Segment
  driver : Driver

/-- A byte of the memory. -/
def readByte (memory : UInt32 → Option UInt8) (address : UInt32) : Run UInt8 :=
  match memory address with
  | none => .error .readOutside
  | some byte => .ok byte

namespace Driver

/-- The driver with another record of a file. -/
def setRecord (driver : Driver) (file : Nat) (record : FileRecord) : Driver :=
  { driver with records := Function.update driver.records file record }

/-- Open a file on a module. -/
def file_open (driver : Driver) (modules : List Module) (file : Nat)
    (name : CallerName) : Run (Option Target × Driver) := do
  let p ← openName name
  match ← MFS_OPEN modules p with
  | none => .ok (none, driver)
  | some mod =>
    let size := mod.mod_end - mod.mod_start
    let driver := { driver with
        filepos := 0, filemax := size, filebase := mod.mod_start
        open_files := driver.open_files + 1 }
    .ok (some (.module mod), driver.setRecord file { driver.records file with
        base := mod.mod_start, sfi_size := size, sfi_position := 0 })

/-- The first unused slot.  If all slots are in use, the search goes on behind the
map. -/
def freeSlot (driver : Driver) : Run (Fin 0x80) :=
  match (List.finRange 0x80).find? fun slot => !driver.save_map slot with
  | none => .error .readOutside
  | some slot => .ok slot

/-- Save what has been opened in a slot. -/
def save (driver : Driver) (file : Nat) (name : CallerName) : Run Driver := do
  let save_index ← driver.freeSlot
  let pName ← savedName name
  let driver := { driver with
      save_map := Function.update driver.save_map save_index true
      save_area := Function.update driver.save_area save_index ⟨file, pName⟩ }
  .ok (driver.setRecord file { driver.records file with index := save_index.val })

/-- Open a file.  The result is what it has been opened on, or that it is not found.
For a drive whose name is not like `C:\` the code is never set. -/
def FS_OPENCREATE (driver : Driver) (modules : List Module) (dasd : Bool)
    (file : Nat) (name : CallerName) : Run (Option Target × Driver) := do
  if dasd then
    if name.text.length = 3 ∧ name.text[1]? = some 0x3a ∧ name.text[2]? = some 0x5c then
      let driver := { driver with open_files := driver.open_files + 1 }
      let driver := driver.setRecord file { driver.records file with
          direct := 1, sfi_size := driver.volsize, sfi_position := 0 }
      let driver ← driver.save file name
      .ok (some .drive, driver)
    else .error .uninitialised
  else
    let (opened, driver) ← driver.file_open modules file name
    let driver := driver.setRecord file { driver.records file with direct := 0 }
    match opened with
    | none => .ok (none, driver)
    | some target =>
      let driver ← driver.save file name
      .ok (some target, driver)

/-- Close a file. -/
def FS_CLOSE (driver : Driver) (file : Nat) : Run Driver :=
  let save_index := (driver.records file).index
  if inside : save_index < 0x80 then
    let driver := { driver with
        save_map := Function.update driver.save_map ⟨save_index, inside⟩ false
        open_files := driver.open_files - 1 }
    .ok (driver.setRecord file
      { driver.records file with base := 0, direct := 0, index := 0 })
  else .error .writeOutside

/-- Read from the address at which the file has been mapped.  The length passes
through an `int` of 16 bits. -/
def MFS_READ (driver : Driver) (memory : UInt32 → Option UInt8) (fileaddr : UInt32)
    (data : Option UInt16) (length : UInt16) (segment : Segment) :
    Run ReadResult :=
  match data with
  | none => .ok ⟨.invalidParameter, length, segment, driver⟩
  | some data =>
    if length = 0 then .ok ⟨.invalidParameter, length, segment, driver⟩
    else
      let chunk := driver.filemax - driver.filepos
      if driver.filemax < driver.filepos then
        .ok ⟨.seek, length, segment, driver⟩
      else do
        let chunk := if length.toUInt32 < chunk then length.toUInt32 else chunk
        let segment ← memmove (fun offset => readByte memory (fileaddr + offset.toUInt32)) data 0
          chunk.toUInt16 segment
        .ok ⟨.noError, chunk.toUInt16, segment,
          { driver with filepos := driver.filepos + chunk }⟩

/-- Read a file.  What comes of a direct read is the length and the segment, or an
error. -/
def FS_READ (driver : Driver) (memory : UInt32 → Option UInt8) (file : Nat)
    (pData : Option UInt16) (pLen : UInt16) (segment : Segment)
    (volio : Option (UInt16 × Segment)) : Run ReadResult := do
  let record := driver.records file
  let driver :=
    { driver with filemax := record.sfi_size, filepos := record.sfi_position }
  let result ←
    if record.direct ≠ 0 then
      match volio with
      | none => .ok ⟨.failed, pLen, segment, driver⟩
      | some (n, segment) =>
        .ok ⟨.noError, n, segment,
          { driver with filepos := driver.filepos + n.toUInt32 }⟩
    else
      let driver := { driver with filebase := record.base }
      driver.MFS_READ memory (driver.filebase + driver.filepos) pData pLen segment
  .ok { result with
    driver := result.driver.setRecord file
      { record with sfi_position := result.driver.filepos } }

/-- Change the position of a file. -/
def FS_CHGFILEPTR (driver : Driver) (file : Nat) (offset : UInt32) (type : UInt16) :
    Code × Driver :=
  let record := driver.records file
  let moved (off : UInt32) : Code × Driver :=
    let driver := driver.setRecord file { record with sfi_position := off }
    (.noError,
      if record.direct = 0 then { driver with filebase := record.base } else driver)
  if type = 0 then moved offset
  else if type = 1 then moved (record.sfi_position + offset)
  else if type = 2 then moved (record.sfi_size + offset)
  else (.invalidParameter, driver)

end Driver

/-- A call of the driver. -/
inductive Call where
  | openCreate (dasd : Bool) (file : Nat) (name : CallerName)
  | read (file : Nat) (pData : Option UInt16) (pLen : UInt16) (segment : Segment)
      (volio : Option (UInt16 × Segment))
  | chgFilePtr (file : Nat) (offset : UInt32) (type : UInt16)
  | close (file : Nat)

/-- The driver, and what the files that are open have been opened on. -/
structure World where
  driver : Driver
  opened : Nat → Option Target

/-- The modules, and the memory that they are in. -/
structure Loaded where
  modules : List Module
  memory : UInt32 → Option UInt8
  present : ∀ mod ∈ modules, ∀ address, mod.mod_start ≤ address →
    address < mod.mod_end → ∃ byte, memory address = some byte

namespace World

/-- The world after a call. -/
def serve (loaded : Loaded) (world : World) : Call → Run World
  | .openCreate dasd file name => do
      let (opened, driver) ← world.driver.FS_OPENCREATE loaded.modules dasd file name
      match opened with
      | none => .ok ⟨driver, world.opened⟩
      | some target => .ok ⟨driver, Function.update world.opened file (some target)⟩
  | .read file pData pLen segment volio => do
      let result ← world.driver.FS_READ loaded.memory file pData pLen segment volio
      .ok ⟨result.driver, world.opened⟩
  | .chgFilePtr file offset type =>
    .ok ⟨(world.driver.FS_CHGFILEPTR file offset type).2, world.opened⟩
  | .close file => do
      let driver ← world.driver.FS_CLOSE file
      .ok ⟨driver, Function.update world.opened file none⟩

/-- A call for a file that is open, or that is to be opened.  Reads are of at least
one byte, into a buffer. -/
def Valid (world : World) : Call → Prop
  | .openCreate _ file _ => world.opened file = none
  | .read file pData pLen _ _ =>
    world.opened file ≠ none ∧ pData ≠ none ∧ pLen ≠ 0
  | .chgFilePtr file _ _ => world.opened file ≠ none
  | .close file => world.opened file ≠ none

/-- A slot is free, and the name fits its field there. -/
def CanSave (world : World) (name : CallerName) : Prop :=
  name.text.length < 0x3a ∧ ∃ slot, world.driver.save_map slot = false

/-- A file is opened with a name that can be compared, and one that can be saved if
there is a module of it; a drive with its root. -/
def Allows (loaded : Loaded) (world : World) : Call → Prop
  | .openCreate true _ name =>
    (name.text.length = 3 ∧ name.text[1]? = some 0x3a ∧
      name.text[2]? = some 0x5c) ∧ world.CanSave name
  | .openCreate false _ name =>
    name.text ≠ [] ∧ ∀ p, openName name = .ok p → Comparable loaded.modules p ∧
        ∀ mod, MFS_OPEN loaded.modules p = .ok (some mod) → world.CanSave name
  | _ => True

/-- A step for any call. -/
def Step (loaded : Loaded) (world world' : World) : Prop :=
  ∃ call, world.Valid call ∧ world.serve loaded call = .ok world'

/-- A step for a call that is served well. -/
def AllowedStep (loaded : Loaded) (world world' : World) : Prop :=
  ∃ call, world.Valid call ∧ world.Allows loaded call ∧ world.serve loaded call = .ok world'

/-- No file is open. -/
structure Started (world : World) : Prop where
  opened : ∀ file, world.opened file = none
  save_map : ∀ slot, world.driver.save_map slot = false
  open_files : world.driver.open_files = 0

end World

end OsFree.Mfsd
