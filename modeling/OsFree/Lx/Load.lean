import OsFree.Lx.EntryTable
import OsFree.Lx.FixupTable
import OsFree.Machine.Memory

/-!
# The module file as a stream

`lx_fseek_stream` and `lx_fread_stream` of `mod.c`.  A seek that leads out of
the file fails and keeps the position; a read never looks at the end of the
file.
-/

namespace OsFree.Lx

open Machine

/-- The place that a seek counts from. -/
inductive Whence where
  | seekSet
  | seekEnd
  | seekCur
  deriving DecidableEq

namespace LXModule

variable (lxMod : LXModule)

/-- Move the position in the stream.  A failed seek returns `-1`. -/
def lxFseekStream (pos : Int) (direction : Whence) :
    Run (Int × LXModule) :=
  if pos ≤ lxMod.lxStreamSize ∧ 0 ≤ pos then do
    let lxStreamPos ← match direction with
      | .seekSet => pure pos
      | .seekEnd => pure (lxMod.lxStreamSize - pos)
      | .seekCur => addInt lxMod.lxStreamPos pos
    pure (lxStreamPos, { lxMod with lxStreamPos })
  else pure (-1, lxMod)

/-- The position behind a number of bytes.  It is an `int`, but the sum is
unsigned. -/
def advance (lxStreamPos : Int) (size : Nat) : Int :=
  signedLong (UInt32.ofInt lxStreamPos + UInt32.ofNat size)

/-- Copy one element out of the stream. -/
def lxFreadElement (size : Nat) (lxMod : LXModule) :
    Run (List UInt8 × LXModule) := do
  let bytes ← readBytes lxMod.lxFileStream lxMod.lxStreamPos size
  pure (bytes,
    { lxMod with lxStreamPos := advance lxMod.lxStreamPos size })

/-- Read a number of elements of one size. -/
def lxFreadStream (size nmemb : Nat) : Run (List UInt8 × LXModule) :=
  (List.range nmemb).foldlM (fun (read, lxMod) _ => do
      let (bytes, lxMod) ← lxFreadElement size lxMod
      pure (read ++ bytes, lxMod)) ([], lxMod)

/-- The position after a seek from the start of the file. -/
def seekPlace (pos lxStreamPos : Int) : Int :=
  if pos ≤ lxMod.lxStreamSize ∧ 0 ≤ pos then pos else lxStreamPos

end LXModule

theorem lxFreadElement_eq (size : Nat) (lxMod : LXModule) : LXModule.lxFreadElement size lxMod =
      if Readable lxMod.lxFileStream lxMod.lxStreamPos size then
        .ok (bytesAt lxMod.lxFileStream lxMod.lxStreamPos size, { lxMod with
            lxStreamPos := LXModule.advance lxMod.lxStreamPos size })
      else .error .readOutside := by
  unfold LXModule.lxFreadElement
  rw [readBytes_eq, ite_error_bind]
  rfl

theorem lxFseekStream_seekSet (lxMod : LXModule) (pos : Int) :
    lxMod.lxFseekStream pos .seekSet = .ok (lxMod.seekPlace pos (-1),
      { lxMod with lxStreamPos := lxMod.seekPlace pos lxMod.lxStreamPos }) := by
  unfold LXModule.lxFseekStream LXModule.seekPlace
  split
  · rfl
  · rfl

theorem lxFreadStream_one (lxMod : LXModule) (size : Nat) :
    lxMod.lxFreadStream size 1 = LXModule.lxFreadElement size lxMod := by
  have body : lxMod.lxFreadStream size 1 = (do
      let (bytes, lxMod) ← LXModule.lxFreadElement size lxMod
      pure ([] ++ bytes, lxMod)) := by
    simp [LXModule.lxFreadStream, List.range_one]
  rw [body]
  cases LXModule.lxFreadElement size lxMod with
  | ok read => rfl
  | error fault => rfl

theorem lxFreadStream_two (lxMod : LXModule) : lxMod.lxFreadStream 1 2 =
      if Readable lxMod.lxFileStream lxMod.lxStreamPos 1 then
        if Readable lxMod.lxFileStream (LXModule.advance lxMod.lxStreamPos 1) 1 then
          .ok (bytesAt lxMod.lxFileStream lxMod.lxStreamPos 1 ++
              bytesAt lxMod.lxFileStream (LXModule.advance lxMod.lxStreamPos 1) 1,
            { lxMod with
              lxStreamPos := LXModule.advance (LXModule.advance lxMod.lxStreamPos 1) 1 })
        else .error .readOutside
      else .error .readOutside := by
  have body : lxMod.lxFreadStream 1 2 = (do
      let (first, lxMod) ← LXModule.lxFreadElement 1 lxMod
      let (second, lxMod) ← LXModule.lxFreadElement 1 lxMod
      pure ([] ++ first ++ second, lxMod)) := by
    simp [LXModule.lxFreadStream, List.range_succ]
  rw [body, lxFreadElement_eq, ite_error_bind]
  simp only [lxFreadElement_eq, ite_error_bind, bind_ok]
  rfl

/-!
## Loading an object

`load_obj_lx` of `loadobj.c`.  The memory of an object is modelled by the copies
made into it, in order, each with its address and its bytes.
-/

/-- The state of the loop over the pages of an object. -/
structure ObjectLoad where
  lxStreamPos : Int
  codeMmapPos : UInt32
  copies : List Copy
  deriving DecidableEq

namespace LXModule

variable (lxMod : LXModule)

/-- Load a page.  Its flags are not looked at, and neither is the result of the
seek. -/
def loadPage (vmPtrObj : UInt32) (load : ObjectLoad) (pageNr : Int) :
    Run ObjectLoad := do
  let objPgSta := lxMod.getObjMap (UInt32.ofInt pageNr)
  let o32Pagedataoffset ← lxMod.o32Pagedataoffset objPgSta
  let shifted ← shiftLeft o32Pagedataoffset lxMod.getE32Pageshift
  let ofsPageSta := signedLong (shifted + lxMod.getE32Datapage)
  let (_, stream) ←
    { lxMod with lxStreamPos := load.lxStreamPos }.lxFseekStream ofsPageSta .seekSet
  let o32Pagesize ← lxMod.o32Pagesize objPgSta
  let (bytes, stream) ← stream.lxFreadStream o32Pagesize.toNat 1
  pure
    { lxStreamPos := stream.lxStreamPos
      codeMmapPos := load.codeMmapPos + o32Pagesize.toUInt32
      copies := load.copies ++
        [{ address := load.codeMmapPos + vmPtrObj, bytes := bytes }] }

/-- Load an object to the memory at `vmPtrObj`. -/
def loadObjLx (lxObj : Int) (vmPtrObj : UInt32) : Run ObjectLoad :=
  lxMod.forPages (fun load _ pageNr => lxMod.loadPage vmPtrObj load pageNr) lxObj
    { lxStreamPos := lxMod.lxStreamPos, codeMmapPos := 0, copies := [] }

end LXModule

/-!
## Loading a module

`LXIdentify` and `LXLoad` of `lx.c` and the steps of `load.c`: the header, the
loader and the fixup section, the names of the imported modules, the objects,
the entry table and the fixup table.
-/

/-- A module file in a memory buffer. -/
structure ModuleFile where
  bytes : List UInt8
  small : bytes.length < 4294967296

/-- Offset of the offset of the new header. -/
abbrev enewhdr : Int := 0x3c

/-- The result of an allocation that fails. -/
abbrev mapFailed : UInt32 := 0xffffffff

/-- What `l4_alloc_mem` returns for an object, its base address and its
size. -/
abbrev L4AllocMem := Int → UInt32 → UInt32 → UInt32

/-- The format-neutral form of a module. -/
structure IXFModule where
  formatStruct : LXModule
  cbModules : UInt32
  modules : List (List UInt8)
  entries : EntryArray
  fixups : FixupTable
  entryPoint : UInt32
  stack : UInt32
  stackLow : UInt32
  pic : Bool
  seclist : List L4Os3Section
  copies : List Copy
  deriving DecidableEq

/-- The signature of a DOS stub. -/
def IsStub (exeSig : List UInt8) : Prop := exeSig = [0x4d, 0x5a] ∨ exeSig = [0x5a, 0x4d]

instance (exeSig : List UInt8) : Decidable (IsStub exeSig) := inferInstanceAs (Decidable (_ ∨ _))

/-- The signature of an LX header. -/
def IsLx (exeSig : List UInt8) : Prop := exeSig = [0x4c, 0x58]

instance (exeSig : List UInt8) : Decidable (IsLx exeSig) := inferInstanceAs (Decidable (_ = _))

/-- Identify the format by the signature. -/
def lxIdentify (file : ModuleFile) : Run UInt32 := do
  let first ← readByte file.bytes 0
  let stub ←
    if first = 0x4d ∨ first = 0x5a then do
      let second ← readByte file.bytes 1
      pure (decide (IsStub [first, second]))
    else pure false
  let lxModuleHeaderOffset ←
    if stub then readLong file.bytes enewhdr else pure 0
  let first ← readByte file.bytes lxModuleHeaderOffset.toNat
  if first = 0x4c then do
    let second ← readByte file.bytes (lxModuleHeaderOffset.toNat + 1)
    if second = 0x58 then pure 0 else pure 11
  else pure 11

namespace LXModule

/-- Look for the LX header behind a DOS stub.  The results are the signature
found, the offset of the header and the module. -/
def skipStub (exeSig : List UInt8) (lxMod : LXModule) :
    Run (List UInt8 × Int × LXModule) :=
  if IsStub exeSig then do
    let (_, lxMod) ← lxMod.lxFseekStream enewhdr .seekSet
    let (bytes, lxMod) ← lxMod.lxFreadStream 4 1
    let lxModuleHeaderOffset := signedLong (longOfBytes bytes)
    let (_, lxMod) ← lxMod.lxFseekStream lxModuleHeaderOffset .seekSet
    let (exeSig, lxMod) ← lxMod.lxFreadStream 1 2
    pure (exeSig, lxModuleHeaderOffset,
      { lxMod with offsLxHead := lxModuleHeaderOffset })
  else pure (exeSig, 0, { lxMod with offsLxHead := 0 })

/-- Load the header. -/
def lxLoadHeader (lxMod : LXModule) : Run (Bool × LXModule) := do
  let (_, lxMod) ← lxMod.lxFseekStream 0 .seekSet
  let (exeSig, lxMod) ← lxMod.lxFreadStream 2 1
  let (exeSig, lxModuleHeaderOffset, lxMod) ← skipStub exeSig lxMod
  if IsLx exeSig then do
    let (_, lxMod) ← lxMod.lxFseekStream lxModuleHeaderOffset .seekSet
    let (bytes, lxMod) ← lxMod.lxFreadStream sizeofE32Exe 1
    pure (true, { lxMod with lxHeadE32Exe := E32Exe.ofBytes bytes })
  else pure (false, lxMod)

/-- Load the loader section. -/
def lxLoadLoaderSection (lxMod : LXModule) : Run LXModule := do
  let (_, lxMod) ← lxMod.lxFseekStream (signedLong (UInt32.ofInt lxMod.offsLxHead +
      lxMod.lxHeadE32Exe.e32Objtab)) .seekSet
  let (bytes, lxMod) ← lxMod.lxFreadStream lxMod.lxHeadE32Exe.e32Ldrsize.toNat 1
  pure { lxMod with loaderSection := bytes }

/-- Load the fixup section from where the stream stands. -/
def lxLoadFixupSection (lxMod : LXModule) : Run LXModule := do
  let (bytes, lxMod) ← lxMod.lxFreadStream lxMod.lxHeadE32Exe.e32Fixupsize.toNat 1
  pure { lxMod with fixupSection := bytes }

end LXModule

/-- The module structure before anything is read. -/
def ModuleFile.opened (file : ModuleFile) : LXModule :=
  { lxHeadE32Exe := default
    loaderSection := []
    fixupSection := []
    offsLxHead := 0
    lxFileStream := file.bytes
    lxStreamSize := signedLong (UInt32.ofNat file.bytes.length)
    lxStreamPos := 0 }

/-- Load the header and the two sections. -/
def lxLoadStream (file : ModuleFile) : Run (Bool × LXModule) := do
  let (accepted, lxMod) ← file.opened.lxLoadHeader
  if accepted then do
    let lxMod ← lxMod.lxLoadLoaderSection
    let lxMod ← lxMod.lxLoadFixupSection
    pure (true, lxMod)
  else pure (false, lxMod)

namespace IXFModule

/-- Allocate the memory of an object. -/
def vmAllocObjLx (l4AllocMem : L4AllocMem) (lxObj : Int)
    (ixfModule : IXFModule) : Run (UInt32 × IXFModule) := do
  let lxExeMod := ixfModule.formatStruct
  let o32Base ← lxExeMod.o32Base lxObj
  let o32Size ← lxExeMod.o32Size lxObj
  let mmapObj := l4AllocMem lxObj o32Base o32Size
  let ixfModule :=
    if lxExeMod.getDataStack = some lxObj then
      { ixfModule with
        stack := o32Base + lxExeMod.getEsp
        stackLow := o32Base + lxExeMod.getEsp - lxExeMod.lxHeadE32Exe.e32Stacksize }
    else ixfModule
  let ixfModule :=
    if lxExeMod.getCode = some lxObj then
      { ixfModule with entryPoint := o32Base + lxExeMod.getEip }
    else ixfModule
  pure (mmapObj, { ixfModule with
      seclist := ixfModule.seclist ++
        [{ addr := if ixfModule.pic then mmapObj else o32Base
           size := o32Size
           id := UInt16.ofNat ixfModule.seclist.length }] })

/-- Store the address of an object into its fields of the object table. -/
def storeAddress (lxObj : Int) (vmCodeObj : UInt32) (pic : Bool)
    (loaderSection : List UInt8) : Run (List UInt8) := do
  let loaderSection ← writeLong loaderSection (lxObj + 20) vmCodeObj
  if pic then writeLong loaderSection (lxObj + 4) vmCodeObj
  else pure loaderSection

/-- Allocate and load an object.  The object is printed when there is no
memory for it. -/
def lxLoadObject (l4AllocMem : L4AllocMem) (kodObj : Int)
    (ixfModule : IXFModule) : Run (Bool × IXFModule) := do
  let (vmCodeObj, ixfModule) ← ixfModule.vmAllocObjLx l4AllocMem kodObj
  let lxExeMod := ixfModule.formatStruct
  let loaderSection ← storeAddress kodObj vmCodeObj ixfModule.pic lxExeMod.loaderSection
  let lxExeMod := { lxExeMod with loaderSection := loaderSection }
  if vmCodeObj = mapFailed then do
    let _ ← readBytes loaderSection kodObj sizeofO32Obj
    pure (false, { ixfModule with formatStruct := lxExeMod })
  else do
    let load ← lxExeMod.loadObjLx kodObj vmCodeObj
    pure (true, { ixfModule with
        formatStruct := { lxExeMod with lxStreamPos := load.lxStreamPos }
        copies := ixfModule.copies ++ load.copies })

/-- Load the objects with these numbers, up to the first one without
memory. -/
def lxLoadObjectsFrom (l4AllocMem : L4AllocMem) : List Nat → IXFModule → Run (Bool × IXFModule)
  | [], ixfModule => pure (true, ixfModule)
  | objCnt :: rest, ixfModule => do
      let (loaded, ixfModule) ← ixfModule.lxLoadObject l4AllocMem (getObj (UInt32.ofNat objCnt))
      if loaded then lxLoadObjectsFrom l4AllocMem rest ixfModule
      else pure (false, ixfModule)

/-- Load all objects. -/
def lxLoadObjects (l4AllocMem : L4AllocMem) (ixfModule : IXFModule) :
    Run (Bool × IXFModule) :=
  lxLoadObjectsFrom l4AllocMem (List.range' 1 ixfModule.formatStruct.getObjNum.toNat) ixfModule

/-- Convert the names of the imported modules.  The bound of the loop is the
number of modules plus one, which may wrap around. -/
def convertModuleTable (ixfModule : IXFModule) : Run IXFModule := do
  let cbModules := ixfModule.formatStruct.lxHeadE32Exe.e32Impmodcnt
  let modules ← (List.range' 1 ((cbModules + 1).toNat - 1)).mapM fun moduleCounter =>
      ixfModule.formatStruct.getImpModNameCstr (signedLong (UInt32.ofNat moduleCounter))
  pure { ixfModule with cbModules := cbModules, modules := modules }

/-- Convert the fixup table, and clear the entry point and the stack of a
module that has none. -/
def convertFixups (ixfModule : IXFModule) : Run IXFModule := do
  let fixups ← ixfModule.formatStruct.convertFixupTableToBFF
  pure { ixfModule with
      fixups := fixups
      entryPoint :=
        if ixfModule.formatStruct.getCode = none then 0
        else ixfModule.entryPoint
      stack :=
        if ixfModule.formatStruct.getDataStack = none then 0
        else ixfModule.stack }

/-- Convert the entry table of a library and the fixup table.  The results are
the return code and the module. -/
def convertTables (ixfModule : IXFModule) : Run (UInt32 × IXFModule) :=
  if ixfModule.formatStruct.IsDll then do
    let array ← ixfModule.formatStruct.convertEntryTableToBFF
    match array with
    | none => pure (1, ixfModule)
    | some entries => do
        let ixfModule ← { ixfModule with entries := entries }.convertFixups
        pure (0, ixfModule)
  else do
    let ixfModule ← ixfModule.convertFixups
    pure (0, ixfModule)

/-- What `LXLoad` does behind the sections.  Whether the objects have been
loaded is not looked at. -/
def lxLoadModule (l4AllocMem : L4AllocMem) (ixfModule : IXFModule) :
    Run (UInt32 × IXFModule) := do
  let ixfModule ← ixfModule.convertModuleTable
  let (_, ixfModule) ← { ixfModule with
      pic := decide ixfModule.formatStruct.IsDll }.lxLoadObjects l4AllocMem
  ixfModule.convertTables

end IXFModule

/-- Load a module. -/
def lxLoad (l4AllocMem : L4AllocMem) (file : ModuleFile)
    (ixf : IXFModule) : Run (UInt32 × IXFModule) := do
  let (accepted, lxMod) ← lxLoadStream file
  let ixf := { ixf with formatStruct := lxMod }
  if accepted then ixf.lxLoadModule l4AllocMem
  else pure (0, ixf)

/-!
## Where the header and the sections are read

Neither the place of the header nor that of a section is compared with the size
of the file, and a failed seek leaves the stream where it is.  The places that
are read follow from the bytes of the file; the header and the sections are
loaded exactly when all of them are inside the file.
-/

open LXModule (advance)

namespace ModuleFile

variable (file : ModuleFile)

/-- The signature at the start of the file. -/
def exeSig : List UInt8 := bytesAt file.bytes 0 2

/-- Place of the offset of the new header. -/
def stubPlace : Int := file.opened.seekPlace enewhdr 2

/-- The offset of the header: zero in a file without a stub. -/
def headerOffset : Int :=
  if IsStub file.exeSig then
    signedLong (longOfBytes (bytesAt file.bytes file.stubPlace 4))
  else 0

/-- Place of the signature behind a stub. -/
def signaturePlace : Int := file.opened.seekPlace file.headerOffset (advance file.stubPlace 4)

/-- The signature of the new header. -/
def signature : List UInt8 :=
  if IsStub file.exeSig then
    bytesAt file.bytes file.signaturePlace 1 ++ bytesAt file.bytes (advance file.signaturePlace 1) 1
  else file.exeSig

/-- Place behind the signature. -/
def behindSignature : Int :=
  if IsStub file.exeSig then advance (advance file.signaturePlace 1) 1 else 2

/-- Place of the header. -/
def headerPlace : Int := file.opened.seekPlace file.headerOffset file.behindSignature

/-- The header. -/
def header : E32Exe := E32Exe.ofBytes (bytesAt file.bytes file.headerPlace sizeofE32Exe)

/-- Place of the loader section. -/
def loaderPlace : Int := file.opened.seekPlace
    (signedLong (UInt32.ofInt file.headerOffset + file.header.e32Objtab))
    (advance file.headerPlace sizeofE32Exe)

/-- Place of the fixup section: behind the loader section. -/
def fixupPlace : Int := advance file.loaderPlace file.header.e32Ldrsize.toNat

/-- The signature at the start of the file is there and, if it is that of a
stub, the offset and the signature of the new header as well. -/
structure SignatureInside : Prop where
  exeSig : Readable file.bytes 0 2
  stub : IsStub file.exeSig → Readable file.bytes file.stubPlace 4
  first : IsStub file.exeSig → Readable file.bytes file.signaturePlace 1
  second : IsStub file.exeSig → Readable file.bytes (advance file.signaturePlace 1) 1

/-- The header and the two sections are inside the file. -/
structure SectionsInside : Prop where
  header : Readable file.bytes file.headerPlace sizeofE32Exe
  loaderSection : Readable file.bytes file.loaderPlace file.header.e32Ldrsize.toNat
  fixupSection : Readable file.bytes file.fixupPlace file.header.e32Fixupsize.toNat

/-- The module behind the signature. -/
def atSignature : LXModule := { file.opened with
    offsLxHead := file.headerOffset
    lxStreamPos := file.behindSignature }

/-- The module with its header. -/
def withHeader : LXModule := { file.atSignature with
    lxHeadE32Exe := file.header
    lxStreamPos := advance file.headerPlace sizeofE32Exe }

/-- The module with its header and its sections. -/
def loaded : LXModule := { file.withHeader with
    loaderSection := bytesAt file.bytes file.loaderPlace file.header.e32Ldrsize.toNat
    fixupSection := bytesAt file.bytes file.fixupPlace file.header.e32Fixupsize.toNat
    lxStreamPos := advance file.fixupPlace file.header.e32Fixupsize.toNat }

theorem seekPlace_start : file.opened.seekPlace 0 0 = 0 := by
  unfold LXModule.seekPlace
  split
  · rfl
  · rfl

theorem skipStub_eq :
    LXModule.skipStub file.exeSig { file.opened with lxStreamPos := 2 } =
      if IsStub file.exeSig then
        if Readable file.bytes file.stubPlace 4 then
          if Readable file.bytes file.signaturePlace 1 then
            if Readable file.bytes (advance file.signaturePlace 1) 1 then
              .ok (file.signature, file.headerOffset, file.atSignature)
            else .error .readOutside
          else .error .readOutside
        else .error .readOutside
      else .ok (file.signature, file.headerOffset, file.atSignature) := by
  unfold LXModule.skipStub
  by_cases stub : IsStub file.exeSig
  · have offset : signedLong (longOfBytes (bytesAt file.bytes file.stubPlace 4)) =
          file.headerOffset := (if_pos stub).symm
    rw [if_pos stub, if_pos stub]
    simp only [lxFseekStream_seekSet, lxFreadStream_one, lxFreadElement_eq,
      lxFreadStream_two, bind_ok, ite_error_bind]
    congr 1
    simp only [ModuleFile.signature, ModuleFile.atSignature, behindSignature,
      if_pos stub, signaturePlace, ← offset]
    rfl
  · rw [if_neg stub, if_neg stub]
    simp only [ModuleFile.signature, ModuleFile.atSignature, behindSignature,
      headerOffset, if_neg stub]
    rfl

theorem lxLoadHeader_start : file.opened.lxLoadHeader =
      if Readable file.bytes 0 2 then do
        let (exeSig, lxModuleHeaderOffset, lxMod) ←
          LXModule.skipStub file.exeSig { file.opened with lxStreamPos := 2 }
        if IsLx exeSig then do
          let (_, lxMod) ← lxMod.lxFseekStream lxModuleHeaderOffset .seekSet
          let (bytes, lxMod) ← lxMod.lxFreadStream sizeofE32Exe 1
          pure (true, { lxMod with lxHeadE32Exe := E32Exe.ofBytes bytes })
        else pure (false, lxMod)
      else .error .readOutside := by
  have start : file.opened.seekPlace 0 file.opened.lxStreamPos = 0 := file.seekPlace_start
  have behind : advance 0 2 = 2 := by decide
  unfold LXModule.lxLoadHeader
  simp only [lxFseekStream_seekSet, lxFreadStream_one, lxFreadElement_eq,
    bind_ok, ite_error_bind, start, behind]
  rfl

theorem lxLoadHeader_eq (inside : file.SignatureInside) : file.opened.lxLoadHeader =
      if IsLx file.signature then
        if Readable file.bytes file.headerPlace sizeofE32Exe then
          .ok (true, file.withHeader)
        else .error .readOutside
      else .ok (false, file.atSignature) := by
  have skipped : LXModule.skipStub file.exeSig
      { file.opened with lxStreamPos := 2 } =
        .ok (file.signature, file.headerOffset, file.atSignature) := by
    rw [file.skipStub_eq]
    by_cases stub : IsStub file.exeSig
    · rw [if_pos stub, if_pos (inside.stub stub), if_pos (inside.first stub),
        if_pos (inside.second stub)]
    · rw [if_neg stub]
  rw [file.lxLoadHeader_start, if_pos inside.exeSig, skipped]
  simp only [bind_ok, lxFseekStream_seekSet, lxFreadStream_one, lxFreadElement_eq, ite_error_bind]
  rfl

theorem signatureInside_of_lxLoadHeader
    (returned : Returns file.opened.lxLoadHeader) : file.SignatureInside := by
  rw [file.lxLoadHeader_start, returns_ite_error_iff] at returned
  obtain ⟨exeSig, returned⟩ := returned
  obtain ⟨skipped, returned, -⟩ := returns_bind_iff.mp returned
  have skips : Returns (LXModule.skipStub file.exeSig
      { file.opened with lxStreamPos := 2 }) := ⟨skipped, returned⟩
  rw [file.skipStub_eq] at skips
  by_cases stub : IsStub file.exeSig
  · rw [if_pos stub, returns_ite_error_iff, returns_ite_error_iff, returns_ite_error_iff] at skips
    obtain ⟨offset, first, second, -⟩ := skips
    exact ⟨exeSig, fun _ => offset, fun _ => first, fun _ => second⟩
  · exact ⟨exeSig, fun other => absurd other stub,
      fun other => absurd other stub, fun other => absurd other stub⟩

theorem lxLoadLoaderSection_eq : file.withHeader.lxLoadLoaderSection =
      if Readable file.bytes file.loaderPlace file.header.e32Ldrsize.toNat then
        .ok { file.withHeader with
            loaderSection := bytesAt file.bytes file.loaderPlace file.header.e32Ldrsize.toNat
            lxStreamPos := file.fixupPlace }
      else .error .readOutside := by
  unfold LXModule.lxLoadLoaderSection
  simp only [lxFseekStream_seekSet, lxFreadStream_one, lxFreadElement_eq, bind_ok, ite_error_bind]
  rfl

theorem lxLoadFixupSection_eq (loaderSection : List UInt8) : { file.withHeader with
      loaderSection := loaderSection
      lxStreamPos := file.fixupPlace }.lxLoadFixupSection =
      if Readable file.bytes file.fixupPlace file.header.e32Fixupsize.toNat then
        .ok
          { file.loaded with loaderSection := loaderSection }
      else .error .readOutside := by
  unfold LXModule.lxLoadFixupSection
  simp only [lxFreadStream_one, lxFreadElement_eq, ite_error_bind, bind_ok]
  rfl

theorem lxLoadStream_eq (inside : file.SignatureInside) : lxLoadStream file =
      if IsLx file.signature then
        if Readable file.bytes file.headerPlace sizeofE32Exe then
          if Readable file.bytes file.loaderPlace file.header.e32Ldrsize.toNat then
            if Readable file.bytes file.fixupPlace file.header.e32Fixupsize.toNat then
              .ok (true, file.loaded)
            else .error .readOutside
          else .error .readOutside
        else .error .readOutside
      else .ok (false, file.atSignature) := by
  unfold lxLoadStream
  rw [file.lxLoadHeader_eq inside]
  by_cases accepted : IsLx file.signature
  · rw [if_pos accepted, if_pos accepted, ite_error_bind, bind_ok]
    simp only [if_true, file.lxLoadLoaderSection_eq, ite_error_bind, bind_ok,
      file.lxLoadFixupSection_eq]
    rfl
  · rw [if_neg accepted, if_neg accepted]
    rfl

theorem signatureInside_of_lxLoadStream
    (returned : Returns (lxLoadStream file)) : file.SignatureInside := by
  obtain ⟨header, loaded, -⟩ := returns_bind_iff.mp returned
  exact file.signatureInside_of_lxLoadHeader ⟨header, loaded⟩

theorem lxLoadStream_accepted_iff {lxMod : LXModule} : lxLoadStream file = .ok (true, lxMod) ↔
      file.SignatureInside ∧ IsLx file.signature ∧ file.SectionsInside ∧
        lxMod = file.loaded := by
  constructor
  · intro returned
    have inside := file.signatureInside_of_lxLoadStream ⟨_, returned⟩
    rw [file.lxLoadStream_eq inside] at returned
    split at returned
    · rename_i accepted
      split at returned
      · rename_i header
        split at returned
        · rename_i loaderSection
          split at returned
          · rename_i fixupSection
            cases returned
            exact ⟨inside, accepted, ⟨header, loaderSection, fixupSection⟩, rfl⟩
          · cases returned
        · cases returned
      · cases returned
    · cases returned
  · rintro ⟨inside, accepted, sections, rfl⟩
    rw [file.lxLoadStream_eq inside, if_pos accepted, if_pos sections.header,
      if_pos sections.loaderSection, if_pos sections.fixupSection]

theorem lxLoadStream_rejected_iff {lxMod : LXModule} : lxLoadStream file = .ok (false, lxMod) ↔
      file.SignatureInside ∧ ¬ IsLx file.signature ∧
        lxMod = file.atSignature := by
  constructor
  · intro returned
    have inside := file.signatureInside_of_lxLoadStream ⟨_, returned⟩
    rw [file.lxLoadStream_eq inside] at returned
    by_cases accepted : IsLx file.signature
    · rw [if_pos accepted] at returned
      repeat' split at returned
      all_goals cases returned
    · rw [if_neg accepted] at returned
      cases returned
      exact ⟨inside, accepted, rfl⟩
  · rintro ⟨inside, rejected, rfl⟩
    rw [file.lxLoadStream_eq inside, if_neg rejected]

end ModuleFile

end OsFree.Lx
