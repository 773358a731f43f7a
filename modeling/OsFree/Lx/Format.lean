import OsFree.Machine.Buffer

/-!
# The Linear Executable (LX) format

The constants and on-disk structures that the loader uses.  A structure of the
file is read field by field from the bytes of its section, so an object, a page
map entry, an entry bundle or a fixup record is a pointer into that section.
-/

namespace OsFree.Lx

open Machine

/-- Type byte of a bundle of unused entries. -/
abbrev empty : UInt8 := 0x00

/-- Type byte of a bundle of 32-bit entries. -/
abbrev entry32 : UInt8 := 0x03

/-- Type byte of a bundle of forwarder entries. -/
abbrev entryFwd : UInt8 := 0x04

/-- Flag of a forwarder entry whose value field is an import ordinal. -/
abbrev fwdOrdinal : UInt8 := 0x01

/-- Source type mask. -/
abbrev nrsTyp : UInt8 := 0x0f

/-- Source type of a 16-bit segment fixup. -/
abbrev nrsSeg : UInt8 := 0x02

/-- The source list flag, in the source type byte. -/
abbrev nrChain : UInt8 := 0x20

/-- Reference type mask. -/
abbrev nrrTyp : UInt8 := 0x03

/-- Internal reference. -/
abbrev nrrInt : UInt8 := 0x00

/-- Import by ordinal. -/
abbrev nrrOrd : UInt8 := 0x01

/-- Import by name. -/
abbrev nrrNam : UInt8 := 0x02

/-- Internal entry table reference. -/
abbrev nrrEnt : UInt8 := 0x03

/-- Additive fixup. -/
abbrev nrAdd : UInt8 := 0x04

/-- 32-bit target offset. -/
abbrev nr32BitOff : UInt8 := 0x10

/-- 32-bit additive value. -/
abbrev nr32BitAdd : UInt8 := 0x20

/-- 16-bit object number or module ordinal. -/
abbrev nr16ObjMod : UInt8 := 0x40

/-- 8-bit import ordinal. -/
abbrev nr8BitOrd : UInt8 := 0x80

/-- Flags of a page whose data is in the file. -/
abbrev valid : UInt16 := 0x0000

/-- Flags of an invalid page. -/
abbrev invalid : UInt16 := 0x0002

/-- Flags of a page filled with zeros. -/
abbrev zeroed : UInt16 := 0x0003

/-- Mask of the module type in `e32_mflags`. -/
abbrev e32ModMask : UInt32 := 0x38000

/-- Module type of a library. -/
abbrev e32ModDll : UInt32 := 0x08000

/-- The fields of the header that the loader looks at. -/
structure E32Exe where
  e32Magic0 : UInt8
  e32Magic1 : UInt8
  e32Mflags : UInt32
  e32Startobj : UInt32
  e32Eip : UInt32
  e32Stackobj : UInt32
  e32Esp : UInt32
  e32Pagesize : UInt32
  e32Pageshift : UInt32
  e32Fixupsize : UInt32
  e32Ldrsize : UInt32
  e32Objtab : UInt32
  e32Objcnt : UInt32
  e32Objmap : UInt32
  e32Enttab : UInt32
  e32Fpagetab : UInt32
  e32Frectab : UInt32
  e32Impmod : UInt32
  e32Impmodcnt : UInt32
  e32Impproc : UInt32
  e32Datapage : UInt32
  e32Stacksize : UInt32
  deriving DecidableEq, Repr, Inhabited

/-- Size in bytes of the packed header structure. -/
abbrev sizeofE32Exe : Nat := 196

/-- Size in bytes of an object table entry. -/
abbrev sizeofO32Obj : Nat := 24

/-- Size in bytes of an object page table entry. -/
abbrev sizeofO32Map : Nat := 8

/-- The header structure over the `sizeofE32Exe` bytes copied into it. -/
def E32Exe.ofBytes (bytes : List UInt8) : E32Exe :=
  let byteAt (position : Nat) : UInt8 := bytes.getD position 0
  let longAt (position : Nat) : UInt32 :=
    longOf (byteAt position) (byteAt (position + 1)) (byteAt (position + 2)) (byteAt (position + 3))
  { e32Magic0 := byteAt 0
    e32Magic1 := byteAt 1
    e32Mflags := longAt 16
    e32Startobj := longAt 24
    e32Eip := longAt 28
    e32Stackobj := longAt 32
    e32Esp := longAt 36
    e32Pagesize := longAt 40
    e32Pageshift := longAt 44
    e32Fixupsize := longAt 48
    e32Ldrsize := longAt 56
    e32Objtab := longAt 64
    e32Objcnt := longAt 68
    e32Objmap := longAt 72
    e32Enttab := longAt 92
    e32Fpagetab := longAt 104
    e32Frectab := longAt 108
    e32Impmod := longAt 112
    e32Impmodcnt := longAt 116
    e32Impproc := longAt 120
    e32Datapage := longAt 128
    e32Stacksize := longAt 172 }

/-- A module being loaded from a memory buffer. -/
structure LXModule where
  lxHeadE32Exe : E32Exe
  loaderSection : List UInt8
  fixupSection : List UInt8
  offsLxHead : Int
  lxFileStream : List UInt8
  lxStreamSize : Int
  lxStreamPos : Int
  deriving DecidableEq, Repr, Inhabited

end Lx
end OsFree

/-!
## The format-neutral module structure

What the loader of a format leaves for the module manager: the entry table and
the import fixups in one form for all formats.
-/

namespace OsFree

/-- An entry of a module, or the imported entry that a fixup asks for.  The
address of an imported entry is not stored before the module is linked. -/
structure IXFModuleEntry where
  functionName : Option (List UInt8)
  address : Option UInt32
  moduleName : Option (List UInt8)
  ordinal : Int32
  deriving DecidableEq

/-- A fixup to an imported entry: the place to patch, in the address space of
the client and in that of the server, and the entry. -/
structure IXFFixupEntry where
  srcAddress : UInt32
  srcVmAddress : UInt32
  importEntry : IXFModuleEntry
  deriving DecidableEq

/-- A section of a loaded module: where it is in the address space of the
client, and its size. -/
structure L4Os3Section where
  addr : UInt32
  size : UInt32
  id : UInt16
  deriving DecidableEq

end OsFree

/-!
## Access to the tables of a module

The readers of `mod.c`: objects, page map, fixup tables and the import name
tables.  They return pointers into the loader or the fixup section.
-/

namespace OsFree
namespace Lx

open Machine

/-- Pointer to the object with a number; the first object has number one. -/
def getObj (nr : UInt32) : Int := (sizeofO32Obj : Int) * (nr - 1).toNat

namespace LXModule

variable (lxMod : LXModule)

def o32Size (obj : Int) : Run UInt32 := readLong lxMod.loaderSection obj

def o32Base (obj : Int) : Run UInt32 := readLong lxMod.loaderSection (obj + 4)

def o32Pagemap (obj : Int) : Run UInt32 := readLong lxMod.loaderSection (obj + 12)

def o32Mapsize (obj : Int) : Run UInt32 := readLong lxMod.loaderSection (obj + 16)

def o32Reserved (obj : Int) : Run UInt32 := readLong lxMod.loaderSection (obj + 20)

/-- Number of elements of the object table. -/
def getObjNum : UInt32 := lxMod.lxHeadE32Exe.e32Objcnt

/-- The object with the entry point, if the header names one. -/
def getCode : Option Int :=
  if lxMod.lxHeadE32Exe.e32Startobj = 0 then none
  else some (getObj lxMod.lxHeadE32Exe.e32Startobj)

def getEip : UInt32 := lxMod.lxHeadE32Exe.e32Eip

/-- The object with the stack, if the header names one that exists. -/
def getDataStack : Option Int :=
  if lxMod.lxHeadE32Exe.e32Stackobj = 0 ∨ lxMod.getObjNum < lxMod.lxHeadE32Exe.e32Stackobj then none
  else some (getObj lxMod.lxHeadE32Exe.e32Stackobj)

def getEsp : UInt32 := lxMod.lxHeadE32Exe.e32Esp

/-- Pointer to the object page table.  Its offset is taken relative to the end
of the header structure. -/
def getObjPageTbl : Int := signedLong (lxMod.lxHeadE32Exe.e32Objmap - UInt32.ofNat sizeofE32Exe)

/-- Pointer to an element of the object page table. -/
def getObjMap (nr : UInt32) : Int := lxMod.getObjPageTbl + (sizeofO32Map : Int) * (nr - 1).toNat

def o32Pagedataoffset (objMap : Int) : Run UInt32 := readLong lxMod.loaderSection objMap

def o32Pagesize (objMap : Int) : Run UInt16 := readWord lxMod.loaderSection (objMap + 4)

def o32Pageflags (objMap : Int) : Run UInt16 := readWord lxMod.loaderSection (objMap + 6)

/-- Offset in the fixup record table of the records of a page. -/
def getFixupPgTblOffs (logiskSida : Int) : Run Int := do
  let offset ← readLong lxMod.fixupSection (4 * (logiskSida - 1))
  pure (signedLong offset)

/-- Pointer to the fixup record at an offset of the fixup record table. -/
def getFixupRecTblObj (offs : Int) : Int := offs + signedLong
    (lxMod.lxHeadE32Exe.e32Frectab - lxMod.lxHeadE32Exe.e32Fpagetab)

end LXModule

/-- The loop that prints a string: it reads up to the next zero byte. -/
def logToZero (buffer : List UInt8) : Nat → Int → Run Unit
  | 0, _ => .error .readOutside
  | fuel + 1, p => do
      let byte ← readByte buffer p
      if byte = 0 then pure () else logToZero buffer fuel (p + 1)

/-- Step over a number of length-prefixed strings.  The length byte is a
signed `char`. -/
def skipNames (buffer : List UInt8) : Nat → Int → Run Int
  | 0, modName => pure modName
  | count + 1, modName => do
      let length ← readByte buffer modName
      skipNames buffer count (modName + signedByte length + 1)

/-- The bytes that `copy_pas_str` copies from a length-prefixed string. -/
def copyPasStr (buffer : List UInt8) (src : Int) : Run (List UInt8) := do
  let length ← readByte buffer src
  readBytes buffer (src + 1) (signedByte length).toNat

/-- A C string: the bytes before the first zero. -/
def cString (bytes : List UInt8) : List UInt8 := bytes.takeWhile (· ≠ 0)

namespace LXModule

variable (lxMod : LXModule)

/-- Pointer to the import module name table. -/
def impModTable : Int := signedLong (lxMod.lxHeadE32Exe.e32Impmod - lxMod.lxHeadE32Exe.e32Fpagetab)

/-- Pointer to the import procedure name table. -/
def impProcTable : Int :=
  signedLong (lxMod.lxHeadE32Exe.e32Impproc - lxMod.lxHeadE32Exe.e32Fpagetab)

/-- Pointer to a name of the import module table. -/
def getImpModName (modIdx : Int) : Run Int := do
  logToZero lxMod.fixupSection lxMod.fixupSection.length lxMod.impModTable
  if 1 ≤ modIdx then
    skipNames lxMod.fixupSection (modIdx - 1).toNat lxMod.impModTable
  else do
    -- `i` counts up from zero to a negative bound until it overflows
    let _ ← skipNames lxMod.fixupSection 2147483648 lxMod.impModTable
    .error .overflow

/-- The name of an imported module as the buffer filled by `copy_pas_str`. -/
def getImpModNameCstr (modIdx : Int) : Run (List UInt8) := do
  let orgModName ← lxMod.getImpModName modIdx
  let name ← copyPasStr lxMod.fixupSection orgModName
  pure (cString name)

/-- Pointer to a name of the import procedure table. -/
def getImpProcName (procIdx : Int) : Run Int := do
  let _ ← readByte lxMod.fixupSection (lxMod.impProcTable + procIdx)
  pure (lxMod.impProcTable + if procIdx = 0 then 1 else procIdx)

def getE32Pagesize : UInt32 := lxMod.lxHeadE32Exe.e32Pagesize

def getE32Datapage : UInt32 := lxMod.lxHeadE32Exe.e32Datapage

def getE32Pageshift : UInt32 := lxMod.lxHeadE32Exe.e32Pageshift

/-- The module is a library. -/
def IsDll : Prop := lxMod.lxHeadE32Exe.e32Mflags &&& e32ModMask = e32ModDll

instance : Decidable lxMod.IsDll := inferInstanceAs (Decidable (_ = _))

end LXModule

end OsFree.Lx
