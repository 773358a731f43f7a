import OsFree.Lx.ObjectReads
import OsFree.Lx.TableReads

/-!
# What identifying and loading a file reads

Neither `LXIdentify` nor `LXLoad` compares an offset or a count of the file with
the size of the buffer that it leads into.  All reads are inside their buffers
exactly when the offsets and counts of the file happen to stay inside.
-/

namespace OsFree.Lx

open Machine

namespace LXModule

variable (lxMod : LXModule)

/-- What the conversion of the tables reads is inside, and this is its return
code: the entry table of a library and, unless this has a bundle of an
unsupported type, the fixup table. -/
def TablesRead (rc : UInt32) : Prop :=
  if lxMod.IsDll then
    ∃ counted : Option UInt32, lxMod.EntryTableRead counted ∧
      if counted.isSome then lxMod.FixupTableRead ∧ rc = 0 else rc = 1
  else lxMod.FixupTableRead ∧ rc = 0

end LXModule

namespace ModuleFile

variable (file : ModuleFile)

/-- Offset of the header as the identification finds it. -/
def identifyOffset : UInt32 :=
  if IsStub file.exeSig then longOfBytes (bytesAt file.bytes enewhdr 4)
  else 0

/-- The signature that the identification looks at. -/
def identifySignature : List UInt8 := bytesAt file.bytes file.identifyOffset.toNat 2

/-- What the identification reads behind the first signature. -/
structure IdentifyInside : Prop where
  stub : IsStub file.exeSig → Inside file.bytes enewhdr 4
  first : Inside file.bytes file.identifyOffset.toNat 1
  second : readByte file.bytes file.identifyOffset.toNat = .ok 0x4c →
    Inside file.bytes (file.identifyOffset.toNat + 1) 1

/-- The part of the identification behind the offset of the header. -/
def identifyAt (lxModuleHeaderOffset : UInt32) : Run UInt32 := do
  let first ← readByte file.bytes lxModuleHeaderOffset.toNat
  if first = 0x4c then do
    let second ← readByte file.bytes (lxModuleHeaderOffset.toNat + 1)
    if second = 0x58 then pure 0 else pure 11
  else pure 11

theorem lxIdentify_eq (exeSig : Readable file.bytes 0 2) : lxIdentify file =
      ((if IsStub file.exeSig then readLong file.bytes enewhdr else pure 0) >>=
        file.identifyAt) := by
  obtain ⟨first, second, readFirst, readSecond, bytes⟩ := bytesAt_two exeSig
  rw [zero_add] at readSecond
  have signature : file.exeSig = [first, second] := bytes
  unfold lxIdentify
  rw [signature, readFirst, bind_ok]
  by_cases letter : first = 0x4d ∨ first = 0x5a
  · rw [if_pos letter, readSecond, bind_ok, pure_eq_ok, bind_ok]
    by_cases stub : IsStub [first, second]
    · simp only [decide_eq_true_eq, if_pos stub]
      rfl
    · simp only [decide_eq_true_eq, if_neg stub]
      rfl
  · have other : ¬ IsStub [first, second] := by
      rintro (stub | stub)
      · cases stub
        exact letter (Or.inl rfl)
      · cases stub
        exact letter (Or.inr rfl)
    rw [if_neg letter, pure_eq_ok, bind_ok, if_neg other]
    rfl

theorem identifyOffset_eq_ok_iff {offset : UInt32} :
    (if IsStub file.exeSig then readLong file.bytes enewhdr else pure 0) = .ok offset ↔
      (IsStub file.exeSig → Inside file.bytes enewhdr 4) ∧
        offset = file.identifyOffset := by
  unfold identifyOffset
  by_cases stub : IsStub file.exeSig
  · rw [if_pos stub, if_pos stub, readLong_eq_ok_iff]
    simp only [stub, forall_true_left]
  · rw [if_neg stub, if_neg stub]
    simp only [stub, IsEmpty.forall_iff, true_and, pure_eq_ok, Except.ok.injEq]
    exact eq_comm

theorem returns_lxIdentify_iff (exeSig : Readable file.bytes 0 2) :
    Returns (lxIdentify file) ↔ file.IdentifyInside := by
  rw [file.lxIdentify_eq exeSig]
  constructor
  · intro returned
    obtain ⟨offset, found, returned⟩ := returns_bind_iff.mp returned
    obtain ⟨stub, rfl⟩ := file.identifyOffset_eq_ok_iff.mp found
    obtain ⟨first, read, returned⟩ := returns_bind_iff.mp returned
    refine ⟨stub, returns_readByte_iff.mp ⟨first, read⟩, ?_⟩
    intro letter
    rw [read] at letter
    cases letter
    obtain ⟨second, read, -⟩ := returns_bind_iff.mp returned
    exact returns_readByte_iff.mp ⟨second, read⟩
  · rintro ⟨stub, first, second⟩
    obtain ⟨byte, read⟩ := returns_readByte_iff.mpr first
    rw [file.identifyOffset_eq_ok_iff.mpr ⟨stub, rfl⟩, bind_ok, identifyAt, read, bind_ok]
    by_cases letter : byte = 0x4c
    · rw [letter] at read
      obtain ⟨other, readOther⟩ := returns_readByte_iff.mpr (second read)
      rw [if_pos letter, readOther, bind_ok]
      split
      · exact returns_ok _
      · exact returns_ok _
    · rw [if_neg letter]
      exact returns_ok _

theorem lxIdentify_eq_ok_zero_iff (exeSig : Readable file.bytes 0 2) :
    lxIdentify file = .ok 0 ↔ (IsStub file.exeSig → Inside file.bytes enewhdr 4) ∧
        IsLx file.identifySignature := by
  rw [file.lxIdentify_eq exeSig]
  constructor
  · intro returned
    obtain ⟨offset, found, returned⟩ := bind_eq_ok_iff.mp returned
    obtain ⟨stub, rfl⟩ := file.identifyOffset_eq_ok_iff.mp found
    obtain ⟨first, read, returned⟩ := bind_eq_ok_iff.mp returned
    refine ⟨stub, ?_⟩
    split at returned
    · rename_i letter
      obtain ⟨second, readSecond, returned⟩ := bind_eq_ok_iff.mp returned
      split at returned
      · rename_i other
        have inside : Readable file.bytes file.identifyOffset.toNat 2 := by
          have here := returns_readByte_iff.mp ⟨_, read⟩
          have next := returns_readByte_iff.mp ⟨_, readSecond⟩
          unfold Readable
          unfold Inside at here next ⊢
          omega
        obtain ⟨_, _, readFirst', readSecond', bytes⟩ := bytesAt_two inside
        rw [read] at readFirst'
        rw [readSecond] at readSecond'
        cases readFirst'
        cases readSecond'
        rw [letter, other] at bytes
        exact bytes
      · cases returned
    · cases returned
  · rintro ⟨stub, signature⟩
    have long : (bytesAt file.bytes file.identifyOffset.toNat 2).length = 2 :=
      congrArg List.length signature
    have inside : Readable file.bytes file.identifyOffset.toNat 2 := by
      unfold bytesAt at long
      rw [List.length_take, List.length_drop] at long
      unfold Readable Inside
      omega
    obtain ⟨first, second, readFirst, readSecond, bytes⟩ := bytesAt_two inside
    have letters : [first, second] = [0x4c, 0x58] := bytes.symm.trans signature
    cases letters
    rw [file.identifyOffset_eq_ok_iff.mpr ⟨stub, rfl⟩, bind_ok, identifyAt,
      readFirst, bind_ok, if_pos rfl, readSecond]
    rfl

/-- The module is a library, as the loader remembers it. -/
def isPic : Bool := decide file.loaded.IsDll

/-- The names of the imported modules are inside.  The bound of the loop over
them is their number plus one, which may wrap around. -/
def NamesInside : Prop := ∀ moduleCounter ∈
      List.range' 1 ((file.header.e32Impmodcnt + 1).toNat - 1),
    file.loaded.ModNameInside (signedLong (UInt32.ofNat moduleCounter))

/-- What loading reads behind the sections: the names of the imported modules,
the objects and their pages, and the tables.  There is memory for all objects
or not, and the loader comes back with a return code. -/
def ModuleRead (l4AllocMem : L4AllocMem) (memory : Bool) (rc : UInt32) :
    Prop :=
  file.NamesInside ∧ ∃ lxMod, ObjectsRead l4AllocMem file.isPic file.loaded
          (List.range' 1 file.header.e32Objcnt.toNat) memory lxMod ∧
        lxMod.TablesRead rc

/-- What is read of a file, by the identification and by the loader, is
inside. -/
structure ImageInside (l4AllocMem : L4AllocMem) : Prop where
  signature : file.SignatureInside
  identify : file.IdentifyInside
  sections : IsLx file.signature → file.SectionsInside
  module : IsLx file.signature → ∃ memory rc, file.ModuleRead l4AllocMem memory rc

/-- Identifying and loading a file reads nothing outside the file and the
sections loaded from it. -/
def ReadsInside (l4AllocMem : L4AllocMem) (ixf : IXFModule) : Prop :=
  Returns (lxIdentify file) ∧ Returns (lxLoad l4AllocMem file ixf)

end ModuleFile

theorem convertFixups_iff {ixfModule : IXFModule} :
    (∃ converted, ixfModule.convertFixups = .ok converted) ↔
      ixfModule.formatStruct.FixupTableRead := by
  rw [← returns_convertFixupTableToBFF_iff]
  unfold IXFModule.convertFixups
  constructor
  · rintro ⟨converted, returned⟩
    obtain ⟨fixups, table, -⟩ := bind_eq_ok_iff.mp returned
    exact ⟨fixups, table⟩
  · rintro ⟨fixups, table⟩
    rw [table, bind_ok]
    exact ⟨_, rfl⟩

theorem convertFixups_withEntries_iff {ixfModule : IXFModule} {entries : EntryArray} : (∃ converted,
        { ixfModule with entries := entries }.convertFixups = .ok converted) ↔
      ixfModule.formatStruct.FixupTableRead :=
  convertFixups_iff

theorem convertTables_iff {ixfModule : IXFModule} {rc : UInt32} :
    (∃ converted, ixfModule.convertTables = .ok (rc, converted)) ↔
      ixfModule.formatStruct.TablesRead rc := by
  unfold IXFModule.convertTables LXModule.TablesRead
  by_cases dll : ixfModule.formatStruct.IsDll
  · rw [if_pos dll]
    simp only [if_pos dll]
    constructor
    · rintro ⟨converted, returned⟩
      obtain ⟨array, table, returned⟩ := bind_eq_ok_iff.mp returned
      obtain ⟨counted, reads, same⟩ := convertEntryTableToBFF_iff.mp ⟨array, table, rfl⟩
      refine ⟨counted, reads, ?_⟩
      rw [same]
      cases array with
      | none =>
        cases returned
        rfl
      | some entries =>
        obtain ⟨converted, fixups, returned⟩ := bind_eq_ok_iff.mp returned
        cases returned
        exact ⟨convertFixups_withEntries_iff.mp ⟨_, fixups⟩, rfl⟩
    · rintro ⟨counted, reads, result⟩
      obtain ⟨array, table, same⟩ := convertEntryTableToBFF_iff.mpr ⟨counted, reads, rfl⟩
      rw [← same] at result
      rw [table, bind_ok]
      cases array with
      | none => exact ⟨_, by rw [show rc = 1 from result]; rfl⟩
      | some entries =>
        obtain ⟨fixups, rfl⟩ := result
        obtain ⟨converted, fixups⟩ := (@convertFixups_withEntries_iff _ entries).mpr fixups
        simp only [fixups, bind_ok]
        exact ⟨converted, rfl⟩
  · rw [if_neg dll]
    simp only [if_neg dll]
    constructor
    · rintro ⟨converted, returned⟩
      obtain ⟨converted, fixups, returned⟩ := bind_eq_ok_iff.mp returned
      cases returned
      exact ⟨convertFixups_iff.mp ⟨_, fixups⟩, rfl⟩
    · rintro ⟨fixups, rfl⟩
      obtain ⟨converted, fixups⟩ := convertFixups_iff.mpr fixups
      rw [fixups, bind_ok]
      exact ⟨converted, rfl⟩

namespace ModuleFile

variable {file : ModuleFile} {l4AllocMem : L4AllocMem}

theorem convertModuleTable_iff {ixfModule : IXFModule}
    (loaded : ixfModule.formatStruct = file.loaded) :
    Returns ixfModule.convertModuleTable ↔ file.NamesInside := by
  unfold IXFModule.convertModuleTable NamesInside
  rw [loaded]
  constructor
  · intro returned
    obtain ⟨modules, mapped, -⟩ := returns_bind_iff.mp returned
    intro moduleCounter member
    exact returns_getImpModNameCstr_iff.mp
      (returns_mapM_iff.mp ⟨modules, mapped⟩ moduleCounter member)
  · intro names
    obtain ⟨modules, mapped⟩ := returns_mapM_iff.mpr fun moduleCounter member =>
        returns_getImpModNameCstr_iff.mpr (names moduleCounter member)
    exact returns_bind_iff.mpr ⟨modules, mapped, returns_ok _⟩

theorem convertModuleTable_keeps {ixfModule converted : IXFModule}
    (returned : ixfModule.convertModuleTable = .ok converted) :
    converted.formatStruct = ixfModule.formatStruct := by
  obtain ⟨modules, -, equal⟩ := bind_eq_ok_iff.mp returned
  cases equal
  rfl

theorem lxLoadObjects_iff {ixfModule : IXFModule} {memory : Bool}
    {lxMod : LXModule} (loaded : ixfModule.formatStruct = file.loaded) :
    (∃ converted, { ixfModule with
          pic := decide ixfModule.formatStruct.IsDll }.lxLoadObjects
            l4AllocMem = .ok (memory, converted) ∧
          converted.formatStruct = lxMod) ↔
      ObjectsRead l4AllocMem file.isPic file.loaded
        (List.range' 1 file.header.e32Objcnt.toNat) memory lxMod := by
  unfold IXFModule.lxLoadObjects
  rw [lxLoadObjectsFrom_iff]
  simp only [loaded]
  rfl

theorem lxLoadModule_iff {ixfModule : IXFModule} {rc : UInt32}
    (loaded : ixfModule.formatStruct = file.loaded) :
    (∃ converted, ixfModule.lxLoadModule l4AllocMem = .ok (rc, converted)) ↔
      ∃ memory, file.ModuleRead l4AllocMem memory rc := by
  unfold IXFModule.lxLoadModule ModuleRead
  constructor
  · rintro ⟨converted, returned⟩
    obtain ⟨named, names, returned⟩ := bind_eq_ok_iff.mp returned
    obtain ⟨⟨memory, placed⟩, loads, returned⟩ := bind_eq_ok_iff.mp returned
    have same := (convertModuleTable_keeps names).trans loaded
    exact ⟨memory, (convertModuleTable_iff loaded).mp ⟨named, names⟩,
      placed.formatStruct, (lxLoadObjects_iff same).mp ⟨placed, loads, rfl⟩,
      convertTables_iff.mp ⟨converted, returned⟩⟩
  · rintro ⟨memory, names, lxMod, objects, tables⟩
    obtain ⟨named, names⟩ := (convertModuleTable_iff loaded).mpr names
    have same := (convertModuleTable_keeps names).trans loaded
    obtain ⟨placed, loads, rfl⟩ := (lxLoadObjects_iff same).mpr objects
    obtain ⟨converted, tables⟩ := convertTables_iff.mpr tables
    refine ⟨converted, ?_⟩
    rw [names, bind_ok, loads, bind_ok]
    exact tables

theorem lxLoad_iff {ixf : IXFModule} {rc : UInt32} :
    (∃ converted, lxLoad l4AllocMem file ixf = .ok (rc, converted)) ↔
      file.SignatureInside ∧ (¬ IsLx file.signature ∧ rc = 0 ∨
          IsLx file.signature ∧ file.SectionsInside ∧
            ∃ memory, file.ModuleRead l4AllocMem memory rc) := by
  unfold lxLoad
  constructor
  · rintro ⟨converted, returned⟩
    obtain ⟨⟨accepted, lxMod⟩, stream, returned⟩ := bind_eq_ok_iff.mp returned
    cases accepted with
    | false =>
      obtain ⟨inside, rejected, -⟩ := file.lxLoadStream_rejected_iff.mp stream
      cases returned
      exact ⟨inside, Or.inl ⟨rejected, rfl⟩⟩
    | true =>
      obtain ⟨inside, lx, sections, rfl⟩ := file.lxLoadStream_accepted_iff.mp stream
      have read := (@lxLoadModule_iff _ _ _ rc rfl).mp ⟨converted, returned⟩
      exact ⟨inside, Or.inr ⟨lx, sections, read⟩⟩
  · rintro ⟨inside, ⟨rejected, rfl⟩ | ⟨lx, sections, read⟩⟩
    · rw [file.lxLoadStream_rejected_iff.mpr ⟨inside, rejected, rfl⟩, bind_ok]
      exact ⟨_, rfl⟩
    · rw [file.lxLoadStream_accepted_iff.mpr ⟨inside, lx, sections, rfl⟩, bind_ok]
      exact (lxLoadModule_iff rfl).mpr read

end ModuleFile

/-- A DOS stub of 64 bytes whose offset of the new header is 4096. -/
def strayStub : ModuleFile :=
  { bytes := [0x4d, 0x5a] ++ List.replicate 58 0 ++ longBytes 4096
    small := by decide }

/-- A module structure that nothing has been loaded into. -/
def unloaded : IXFModule :=
  { formatStruct := strayStub.opened
    cbModules := 0
    modules := []
    entries := { cbEntries := 0, entries := [] }
    fixups := { cbFixups := 0, stores := [] }
    entryPoint := 0
    stack := 0
    stackLow := 0
    pic := false
    seclist := []
    copies := [] }

namespace LXModule

variable (lxMod : LXModule)

/-- The map entry of each page of an object that has any data names a place
with a property. -/
def PagesPlaced (place : Int → Prop) (kodObj : Int) : Prop :=
  ∀ o32Pagemap o32Mapsize, lxMod.o32Pagemap kodObj = .ok o32Pagemap →
    lxMod.o32Mapsize kodObj = .ok o32Mapsize →
      ∀ pageNr ∈ pageNumbers o32Pagemap o32Mapsize, ∀ o32Pagedataoffset o32Pagesize,
          lxMod.o32Pagedataoffset (lxMod.getObjMap (UInt32.ofInt pageNr)) = .ok o32Pagedataoffset →
            lxMod.o32Pagesize (lxMod.getObjMap (UInt32.ofInt pageNr)) = .ok o32Pagesize →
              o32Pagesize ≠ 0 → place (signedLong (o32Pagedataoffset <<<
                  lxMod.getE32Pageshift + lxMod.getE32Datapage))

/-- The pages of an object are sought without a failure. -/
def PagesSought (kodObj : Int) : Prop := lxMod.PagesPlaced
    (fun pos => ∀ moved, lxMod.lxFseekStream pos .seekSet ≠ .ok (-1, moved))
    kodObj

/-- The pages of an object have their places in the file. -/
def PagesInFile (kodObj : Int) : Prop :=
  lxMod.PagesPlaced (fun pos => pos ≤ lxMod.lxStreamSize ∧ 0 ≤ pos) kodObj

theorem lxFseekStream_ne_failed_iff {pos : Int} :
    (∀ moved, lxMod.lxFseekStream pos .seekSet ≠ .ok (-1, moved)) ↔
      pos ≤ lxMod.lxStreamSize ∧ 0 ≤ pos := by
  rw [lxFseekStream_seekSet]
  unfold seekPlace
  constructor
  · intro sought
    by_contra outside
    apply sought { lxMod with lxStreamPos := lxMod.lxStreamPos }
    rw [if_neg outside, if_neg outside]
  · intro inside moved failed
    injection failed with failed
    injection failed with place
    omega

theorem pagesSought_iff {kodObj : Int} :
    lxMod.PagesSought kodObj ↔ lxMod.PagesInFile kodObj := by
  unfold PagesSought PagesInFile
  simp only [lxFseekStream_ne_failed_iff]

end LXModule

namespace IXFModule

/-- All objects are allocated, loaded, and their pages sought without a
failure. -/
inductive ObjectsLoaded (l4AllocMem : L4AllocMem) :
    List Nat → IXFModule → Prop where
  | none (ixfModule : IXFModule) : ObjectsLoaded l4AllocMem [] ixfModule
  | object {ixfModule loaded : IXFModule} {objCnt : Nat} {rest : List Nat}
      (load : ixfModule.lxLoadObject l4AllocMem (getObj (UInt32.ofNat objCnt)) = .ok (true, loaded))
      (sought : loaded.formatStruct.PagesSought (getObj (UInt32.ofNat objCnt)))
      (others : ObjectsLoaded l4AllocMem rest loaded) :
      ObjectsLoaded l4AllocMem (objCnt :: rest) ixfModule

/-- The entry table of a library and the fixup table are converted. -/
def TablesConverted (ixfModule : IXFModule) : Prop := (ixfModule.formatStruct.IsDll → ∃ entries,
      ixfModule.formatStruct.convertEntryTableToBFF = .ok (some entries)) ∧
    Returns ixfModule.formatStruct.convertFixupTableToBFF

end IXFModule

/-- There is memory for all objects, and their pages have their places in the
file. -/
inductive ObjectsInFile (l4AllocMem : L4AllocMem) (pic : Bool) :
    LXModule → List Nat → Prop where
  | none (lxMod : LXModule) : ObjectsInFile l4AllocMem pic lxMod []
  | object {lxMod lxMod' : LXModule} {objCnt : Nat} {rest : List Nat}
      (read : lxMod.ObjectRead l4AllocMem pic (getObj (UInt32.ofNat objCnt)) lxMod')
      (pages : lxMod'.PagesInFile (getObj (UInt32.ofNat objCnt)))
      (others : ObjectsInFile l4AllocMem pic lxMod' rest) :
      ObjectsInFile l4AllocMem pic lxMod (objCnt :: rest)

namespace ModuleFile

variable (file : ModuleFile)

/-- A section holds what the file has at an offset. -/
def SectionRead (offset : Int) (size : Nat) (loaded : List UInt8) : Prop :=
  Readable file.bytes offset size ∧ loaded = bytesAt file.bytes offset size

/-- The steps of loading a file succeed: the header is accepted, the two
sections are read from the offsets that the header gives, the objects are
loaded and the tables are converted. -/
def StepsSucceed (l4AllocMem : L4AllocMem) (ixf : IXFModule) : Prop :=
  ∃ header loader sections named, file.opened.lxLoadHeader = .ok (true, header) ∧
      header.lxLoadLoaderSection = .ok loader ∧
      file.SectionRead (header.offsLxHead + header.lxHeadE32Exe.e32Objtab.toNat)
        header.lxHeadE32Exe.e32Ldrsize.toNat loader.loaderSection ∧
      loader.lxLoadFixupSection = .ok sections ∧
      file.SectionRead (header.offsLxHead + header.lxHeadE32Exe.e32Fpagetab.toNat)
        header.lxHeadE32Exe.e32Fixupsize.toNat sections.fixupSection ∧
      { ixf with formatStruct := sections }.convertModuleTable = .ok named ∧
      IXFModule.ObjectsLoaded l4AllocMem (List.range' 1 named.formatStruct.getObjNum.toNat)
        { named with pic := decide named.formatStruct.IsDll } ∧
      ∃ placed, { named with
          pic := decide named.formatStruct.IsDll }.lxLoadObjects l4AllocMem = .ok (true, placed) ∧
          placed.TablesConverted

/-- The loader returns, with no error exactly when all steps succeed, and the
identification accepts the file exactly when the header step does. -/
def ReportsSteps (l4AllocMem : L4AllocMem) (ixf : IXFModule) : Prop :=
  (∃ rc converted, lxLoad l4AllocMem file ixf = .ok (rc, converted) ∧
      (rc = 0 ↔ file.StepsSucceed l4AllocMem ixf)) ∧
    (lxIdentify file = .ok 0 ↔ ∃ header, file.opened.lxLoadHeader = .ok (true, header))

/-- The two sections are where the header says that they are. -/
structure SectionsInPlace : Prop where
  loaderSection : file.SectionRead (file.headerOffset + file.header.e32Objtab.toNat)
    file.header.e32Ldrsize.toNat file.loaded.loaderSection
  fixupSection : file.SectionRead (file.headerOffset + file.header.e32Fpagetab.toNat)
    file.header.e32Fixupsize.toNat file.loaded.fixupSection

/-- The file has the LX signature for the identification and for the header
step, what is read is inside, and no step fails that the return code does not
tell of: either a bundle has an unsupported type, or there is memory for all
objects and the sections and pages are where the file says that they are. -/
structure StepsInFile (l4AllocMem : L4AllocMem) : Prop where
  inside : file.SignatureInside
  stub : IsStub file.exeSig → Inside file.bytes enewhdr 4
  identified : IsLx file.identifySignature
  accepted : IsLx file.signature
  sections : file.SectionsInside
  module : (∃ memory, file.ModuleRead l4AllocMem memory 1) ∨
    file.ModuleRead l4AllocMem true 0 ∧ file.SectionsInPlace ∧
      ObjectsInFile l4AllocMem file.isPic file.loaded (List.range' 1 file.header.e32Objcnt.toNat)

end ModuleFile

theorem objectsLoaded_iff {l4AllocMem : L4AllocMem} {objects : List Nat} :
    ∀ {ixfModule : IXFModule}, IXFModule.ObjectsLoaded l4AllocMem objects ixfModule ↔
        ObjectsInFile l4AllocMem ixfModule.pic ixfModule.formatStruct
          objects := by
  induction objects with
  | nil =>
    intro ixfModule
    exact ⟨fun _ => .none _, fun _ => .none _⟩
  | cons objCnt objects ih =>
    intro ixfModule
    constructor
    · intro loads
      cases loads with
      | object load sought others =>
        have pic := lxLoadObject_keeps load
        have read := (lxLoadObject_iff (getObj_nonneg _)).mp ⟨_, load, rfl, pic⟩
        refine .object read ((LXModule.pagesSought_iff _).mp sought) ?_
        rw [← pic]
        exact ih.mp others
    · intro loads
      cases loads with
      | object read pages others =>
        obtain ⟨loaded, load, rfl, pic⟩ := (lxLoadObject_iff (getObj_nonneg _)).mpr read
        refine .object load ((LXModule.pagesSought_iff _).mpr pages) ?_
        rw [← pic] at others
        exact ih.mpr others

theorem tablesConverted_iff {ixfModule : IXFModule} :
    ixfModule.TablesConverted ↔ ixfModule.formatStruct.TablesRead 0 := by
  unfold IXFModule.TablesConverted LXModule.TablesRead
  rw [returns_convertFixupTableToBFF_iff]
  by_cases dll : ixfModule.formatStruct.IsDll
  · simp only [dll, forall_true_left, if_true]
    constructor
    · rintro ⟨⟨entries, converted⟩, fixups⟩
      obtain ⟨counted, read, supported⟩ := convertEntryTableToBFF_iff.mp ⟨_, converted, rfl⟩
      refine ⟨counted, read, ?_⟩
      rw [if_pos (show counted.isSome from supported)]
      exact ⟨fixups, trivial⟩
    · rintro ⟨counted, read, result⟩
      by_cases supported : counted.isSome
      · rw [if_pos supported] at result
        obtain ⟨array, converted, some⟩ := convertEntryTableToBFF_iff.mpr ⟨counted, read, supported⟩
        obtain ⟨entries, rfl⟩ := Option.isSome_iff_exists.mp some
        exact ⟨⟨entries, converted⟩, result.1⟩
      · rw [if_neg supported] at result
        exact absurd result (by decide)
  · simp only [dll, IsEmpty.forall_iff, true_and, if_false, and_true]

theorem LXModule.TablesRead.code {lxMod : LXModule} {rc : UInt32}
    (read : lxMod.TablesRead rc) : rc = 0 ∨ rc = 1 := by
  unfold LXModule.TablesRead at read
  split at read
  · obtain ⟨counted, -, result⟩ := read
    split at result
    · exact Or.inl result.2
    · exact Or.inr result
  · exact Or.inl read.2

namespace ModuleFile

variable {file : ModuleFile} {l4AllocMem : L4AllocMem} {ixf : IXFModule}

theorem lxLoadHeader_accepted_iff {header : LXModule} :
    file.opened.lxLoadHeader = .ok (true, header) ↔ file.SignatureInside ∧ IsLx file.signature ∧
        Readable file.bytes file.headerPlace sizeofE32Exe ∧
          header = file.withHeader := by
  constructor
  · intro returned
    have inside := file.signatureInside_of_lxLoadHeader ⟨_, returned⟩
    rw [file.lxLoadHeader_eq inside] at returned
    split at returned
    · rename_i accepted
      split at returned
      · rename_i readable
        cases returned
        exact ⟨inside, accepted, readable, rfl⟩
      · cases returned
    · cases returned
  · rintro ⟨inside, accepted, readable, rfl⟩
    rw [file.lxLoadHeader_eq inside, if_pos accepted, if_pos readable]

theorem stepsSucceed_iff : file.StepsSucceed l4AllocMem ixf ↔
      file.SignatureInside ∧ IsLx file.signature ∧ file.SectionsInside ∧
        file.ModuleRead l4AllocMem true 0 ∧ file.SectionsInPlace ∧
          ObjectsInFile l4AllocMem file.isPic file.loaded
            (List.range' 1 file.header.e32Objcnt.toNat) := by
  constructor
  · rintro ⟨header, loader, sections, named, accepts, loaderLoads, loaderRead,
      fixupLoads, fixupRead, names, objects, placed, places, tables⟩
    obtain ⟨inside, accepted, readable, rfl⟩ := lxLoadHeader_accepted_iff.mp accepts
    have stream : lxLoadStream file = .ok (true, sections) := by
      unfold lxLoadStream
      simp only [accepts, bind_ok, if_true, loaderLoads, fixupLoads, pure_eq_ok]
    obtain ⟨-, -, sectionsInside, rfl⟩ := file.lxLoadStream_accepted_iff.mp stream
    have sameLoader : loader.loaderSection = file.loaded.loaderSection := by
      rw [file.lxLoadLoaderSection_eq, if_pos sectionsInside.loaderSection] at loaderLoads
      cases loaderLoads
      rfl
    rw [sameLoader] at loaderRead
    have same := convertModuleTable_keeps names
    refine ⟨inside, accepted, sectionsInside, ?_, ⟨loaderRead, fixupRead⟩, ?_⟩
    · exact ⟨(convertModuleTable_iff rfl).mp ⟨named, names⟩,
        placed.formatStruct, (lxLoadObjects_iff same).mp ⟨placed, places, rfl⟩,
        tablesConverted_iff.mp tables⟩
    · have loads := objectsLoaded_iff.mp objects
      simp only [same] at loads
      exact loads
  · rintro ⟨inside, accepted, sectionsInside, ⟨names, lxMod, read, tables⟩,
      ⟨loaderRead, fixupRead⟩, objects⟩
    obtain ⟨named, names⟩ := (@convertModuleTable_iff file
        { ixf with formatStruct := file.loaded } rfl).mpr names
    have same := convertModuleTable_keeps names
    obtain ⟨placed, places, rfl⟩ := (lxLoadObjects_iff same).mpr read
    have loaderLoads := file.lxLoadLoaderSection_eq
    rw [if_pos sectionsInside.loaderSection] at loaderLoads
    have fixupLoads := file.lxLoadFixupSection_eq file.loaded.loaderSection
    rw [if_pos sectionsInside.fixupSection] at fixupLoads
    refine ⟨file.withHeader, _, file.loaded, named, lxLoadHeader_accepted_iff.mpr
        ⟨inside, accepted, sectionsInside.header, rfl⟩,
      loaderLoads, loaderRead, fixupLoads, fixupRead, names, ?_, placed,
      places, tablesConverted_iff.mpr tables⟩
    apply objectsLoaded_iff.mpr
    simp only [same]
    exact objects

theorem accepts_iff (inside : file.SignatureInside) (sections : file.SectionsInside) :
    (∃ header, file.opened.lxLoadHeader = .ok (true, header)) ↔
      IsLx file.signature := by
  constructor
  · rintro ⟨header, accepts⟩
    exact (lxLoadHeader_accepted_iff.mp accepts).2.1
  · intro accepted
    exact ⟨_, lxLoadHeader_accepted_iff.mpr ⟨inside, accepted, sections.header, rfl⟩⟩

/-- The return codes report the steps exactly for the files of which no step
fails but the conversion of the entry table. -/
theorem reportsSteps_iff_stepsInFile :
    file.ReportsSteps l4AllocMem ixf ↔ file.StepsInFile l4AllocMem := by
  constructor
  · rintro ⟨⟨rc, converted, returned, reports⟩, identifies⟩
    obtain ⟨inside, loads⟩ := lxLoad_iff.mp ⟨converted, returned⟩
    rcases loads with ⟨rejected, rfl⟩ | ⟨accepted, sections, memory, read⟩
    · obtain ⟨-, accepted, -⟩ := stepsSucceed_iff.mp (reports.mp rfl)
      exact absurd accepted rejected
    · have identified := (file.lxIdentify_eq_ok_zero_iff inside.exeSig).mp
        (identifies.mpr ((accepts_iff inside sections).mpr accepted))
      refine ⟨inside, identified.1, identified.2, accepted, sections, ?_⟩
      have ⟨_, _, _, tables⟩ := read
      rcases tables.code with rfl | rfl
      · obtain ⟨-, -, -, steps⟩ := stepsSucceed_iff.mp (reports.mp rfl)
        exact Or.inr steps
      · exact Or.inl ⟨memory, read⟩
  · rintro ⟨inside, stub, identified, accepted, sections, module⟩
    have identifies : lxIdentify file = .ok 0 ↔
        ∃ header, file.opened.lxLoadHeader = .ok (true, header) := by
      rw [file.lxIdentify_eq_ok_zero_iff inside.exeSig, accepts_iff inside sections]
      exact ⟨fun _ => accepted, fun _ => ⟨stub, identified⟩⟩
    refine ⟨?_, identifies⟩
    rcases module with ⟨memory, read⟩ | ⟨read, inPlace, objects⟩
    · obtain ⟨converted, returned⟩ := (@lxLoad_iff _ _ ixf 1).mpr
        ⟨inside, Or.inr ⟨accepted, sections, memory, read⟩⟩
      refine ⟨1, converted, returned, fun none => absurd none (by decide), ?_⟩
      -- a success of the steps would have been returned
      intro steps
      obtain ⟨-, -, -, succeeds, -⟩ := stepsSucceed_iff.mp steps
      obtain ⟨other, success⟩ := (@lxLoad_iff _ _ ixf 0).mpr
        ⟨inside, Or.inr ⟨accepted, sections, true, succeeds⟩⟩
      rw [returned] at success
      cases success
    · obtain ⟨converted, returned⟩ := (@lxLoad_iff _ _ ixf 0).mpr
        ⟨inside, Or.inr ⟨accepted, sections, true, read⟩⟩
      exact ⟨0, converted, returned, fun _ => stepsSucceed_iff.mpr
        ⟨inside, accepted, sections, read, inPlace, objects⟩, fun _ => rfl⟩

end ModuleFile

/-- 64 zeros. -/
def blankFile : ModuleFile :=
  { bytes := List.replicate 64 0
    small := by decide }

/-- The header step rejects the file, and the loader returns no error. -/
theorem not_reportsSteps_blankFile :
    ¬ blankFile.ReportsSteps (fun _ _ _ => 0) unloaded := by
  rintro ⟨⟨rc, converted, returned, reports⟩, -⟩
  have rejected : ¬ IsLx blankFile.signature := by decide +kernel
  obtain ⟨-, ⟨-, success⟩ | ⟨accepted, -⟩⟩ := ModuleFile.lxLoad_iff.mp ⟨converted, returned⟩
  · obtain ⟨-, accepted, -⟩ := ModuleFile.stepsSucceed_iff.mp (reports.mp success)
    exact rejected accepted
  · exact rejected accepted

end OsFree.Lx
