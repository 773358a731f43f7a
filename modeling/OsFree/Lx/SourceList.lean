import OsFree.Lx.EntryLookup
import OsFree.Lx.FixupFill

/-!
# Records with a source list

A record with a source list stands for one fixup at each listed offset.  The
passes over the records take the length of the list for the only offset.
-/

namespace OsFree.Lx

open Machine

/-- The address of a source offset in a page. -/
def sourceAddress (startOfPage : UInt32) (source : UInt16) : UInt32 :=
  startOfPage + UInt32.ofInt (signedWord source)

namespace LXModule

variable (lxMod : LXModule)

/-- The target of an internal record: an offset in an object, or the entry with
an ordinal. -/
def IsInternalTarget (record : FixupRecord) (vmTarget : UInt32) : Prop :=
  match record.refType with
  | .internal =>
    ∃ o32Reserved, lxMod.o32Reserved (getObj record.objMod.toUInt32) = .ok o32Reserved ∧
        vmTarget = o32Reserved + record.target
  | .entry =>
    ∃ table next b32Obj entry o32Reserved, HoldsEntryTable lxMod table next ∧
        table.entries[record.objMod.toNat - 1]? = some (.entry32 b32Obj entry) ∧
          lxMod.o32Reserved (getObj b32Obj.toUInt32) = .ok o32Reserved ∧
            vmTarget = o32Reserved + entry.offset32
  | .ordinal | .name => False

/-- The target of an import record. -/
def IsImportTarget (record : FixupRecord) (importEntry : IXFModuleEntry) :
    Prop :=
  (∃ modName, lxMod.IsImpModName record.objMod.toNat modName ∧
      importEntry.moduleName = some modName) ∧
    match record.refType with
    | .ordinal =>
      importEntry.functionName = none ∧
        importEntry.ordinal = record.target.toInt32
    | .name =>
      ∃ importName, lxMod.IsImpProcName record.target importName ∧
        importEntry.functionName = some importName
    | .internal | .entry => False

/-- The record is applied by patching the listed locations, each once, with its
target. -/
def PatchesSources (record : FixupRecord) (minRlc : Int) (vmStartOfPage : UInt32) : Prop :=
  ∀ patches, ∃ new, lxMod.applyFixup vmStartOfPage patches minRlc = .ok (patches ++ new) ∧
      (new.map Patch.vmSource).Perm (record.sources.map (sourceAddress vmStartOfPage)) ∧
        ∀ patch ∈ new, lxMod.IsInternalTarget record patch.vmTarget

/-- The record is converted into one fixup for each of the listed locations,
with its target. -/
def ConvertsSources (record : FixupRecord) (minRlc : Int)
    (vmStartOfPage startOfPage : UInt32) : Prop :=
  ∀ fill, ∃ fill' new, lxMod.convertImpFixup vmStartOfPage startOfPage fill minRlc = .ok fill' ∧
      fill'.stores.map Prod.snd = fill.stores.map Prod.snd ++ new ∧
        (new.map fun fixup => (fixup.srcAddress, fixup.srcVmAddress)).Perm
            (record.sources.map fun source =>
              (sourceAddress startOfPage source, sourceAddress vmStartOfPage source)) ∧
          ∀ fixup ∈ new, lxMod.IsImportTarget record fixup.importEntry

/-- The passes over the records do at this record what its source list asks
for. -/
def HandlesSourceList (record : FixupRecord) (minRlc : Int)
    (vmStartOfPage startOfPage : UInt32) : Prop :=
  match record.refType with
  | .internal | .entry => lxMod.PatchesSources record minRlc vmStartOfPage
  | .ordinal | .name =>
    lxMod.ConvertsSources record minRlc vmStartOfPage startOfPage

/-- The name of the module of an import record is read as it is in the import
module name table. -/
def ReadsModName (record : FixupRecord) : Prop :=
  ∃ modName, lxMod.IsImpModName record.objMod.toNat modName ∧
    lxMod.getImpModNameCstr record.objMod.toNat = .ok modName

/-- The name of the procedure of an import record is read as it is in
the import procedure name table. -/
def ReadsProcName (record : FixupRecord) (minRlc : Int) : Prop :=
  ∃ importOrd pasImpProcName importName, getImpOrd1Rlc lxMod.fixupSection minRlc = .ok importOrd ∧
      lxMod.getImpProcName (signedLong importOrd) = .ok pasImpProcName ∧
        copyPasStr lxMod.fixupSection pasImpProcName = .ok importName ∧
          lxMod.IsImpProcName record.target (cString importName)

/-- The condition under which a source list is handled.  The list has the
single offset one, which is also its length, and the target is read right; an
entry table reference has no source at all. -/
def SourceListFits (record : FixupRecord) (minRlc : Int) : Prop :=
  match record.refType with
  | .internal =>
    record.sources = [1] ∧ Returns (lxMod.o32Reserved (getObj record.objMod.toUInt32)) ∧
        getImpOrd1Rlc lxMod.fixupSection minRlc = .ok record.target
  | .entry => record.sources = []
  | .ordinal => record.sources = [1] ∧ lxMod.ReadsModName record
  | .name =>
    record.sources = [1] ∧ lxMod.ReadsModName record ∧ lxMod.ReadsProcName record minRlc

end LXModule

theorem readField_fieldBytes {buffer rest : List UInt8} {offset : Int}
    {width : Nat} {value : UInt32}
    (stands : RestAt buffer offset (fieldBytes width value ++ rest))
    (known : width = 1 ∨ width = 2 ∨ width = 4)
    (fits : value.toNat < 256 ^ width) :
    readField buffer offset width = .ok value := by
  rcases known with rfl | rfl | rfl
  · have read := RestAt.readByte stands
    rw [readField, if_pos rfl, read, bind_ok]
    refine congrArg Except.ok (UInt32.toNat_inj.mp ?_)
    rw [UInt8.toNat_toUInt32, UInt8.toNat_ofNat']
    omega
  · have small : (UInt16.ofNat value.toNat).toNat = value.toNat := by
      rw [UInt16.toNat_ofNat']
      omega
    have word : fieldBytes 2 value =
        wordBytes (UInt16.ofNat value.toNat) := by
      rw [wordBytes, small]
      rfl
    rw [word] at stands
    rw [readField, if_neg (by decide), if_pos rfl, stands.readWord, bind_ok]
    refine congrArg Except.ok (UInt32.toNat_inj.mp ?_)
    rw [UInt16.toNat_toUInt32, small]
  · rw [readField, if_neg (by decide), if_neg (by decide), if_pos rfl]
    exact RestAt.readLong stands

namespace FixupRecord

variable {record : FixupRecord} {buffer rest : List UInt8} {minRlc : Int}

section

variable (stands : RestAt buffer minRlc (record.encode ++ rest))

include stands

theorem readRlc :
    readRlc buffer minRlc = .ok record.toR32Rlc := by
  simp only [Lx.readRlc, stands.readByte, stands.tail.readByte, bind_ok, pure_eq_ok]

theorem readCount (listed : record.HasSourceList) :
    getSrcoffCnt1Rlc buffer minRlc = .ok (record.sources.length : Int) := by
  have field := stands.tail.tail
  simp only [sourceField, if_pos listed, List.singleton_append] at field
  have read := field.readByte
  have bound := record.sources_length_le
  rw [show minRlc + 1 + 1 = minRlc + 2 by omega] at read
  rw [getSrcoffCnt1Rlc, readRlc stands, bind_ok,
    if_neg (not_not_intro listed), read, bind_ok, UInt8.toNat_ofNat',
    Nat.mod_eq_of_lt (by omega)]
  rfl

theorem objModStands :
    RestAt buffer (minRlc + (R32Rlc.getSrcFlagsSize + record.getSrcoffCnt1Size : Nat))
      (fieldBytes record.objModWidth record.objMod.toUInt32 ++
        (fieldBytes record.targetWidth record.target ++
          (fieldBytes record.additiveWidth record.additive ++
            record.sourceList ++ rest))) := by
  rw [encode, List.cons_append, List.cons_append, List.append_assoc] at stands
  have behind := stands.tail.tail.skip
  rw [record.sourceField_length] at behind
  rw [show minRlc + 1 + 1 = minRlc + R32Rlc.getSrcFlagsSize by
    simp only [R32Rlc.getSrcFlagsSize]
    omega, Int.add_assoc, ← Nat.cast_add] at behind
  simpa only [List.append_assoc] using behind

theorem readModOrd :
    getModOrd1Rlc buffer minRlc = .ok record.objMod.toUInt32 := by
  have known : record.objModWidth = 1 ∨ record.objModWidth = 2 ∨
      record.objModWidth = 4 := by
    unfold R32Rlc.objModWidth
    split <;> simp
  have field := readField_fieldBytes (objModStands stands) known record.objMod_fits
  rw [getModOrd1Rlc, readRlc stands, bind_ok]
  exact field

theorem readTarget (width : record.getImpOrd1Size = record.targetWidth) :
    getImpOrd1Rlc buffer minRlc = .ok record.target := by
  have known : record.targetWidth = 1 ∨ record.targetWidth = 2 ∨
      record.targetWidth = 4 := by
    rw [← width]
    unfold R32Rlc.getImpOrd1Size
    repeat' split
    all_goals simp
  have behind := (objModStands stands).skip
  rw [fieldBytes_length _ (objModWidth_le _), Int.add_assoc, ← Nat.cast_add] at behind
  have field := readField_fieldBytes behind known record.target_fits
  rw [getImpOrd1Rlc, readRlc stands, bind_ok, width]
  exact field

end

end FixupRecord

theorem ofInt_signedWord_eq_one_iff (source : UInt16) :
    UInt32.ofInt (signedWord source) = UInt32.ofInt (1 : Nat) ↔
      source = 1 := by
  have bound := source.toNat_lt
  have value : (UInt32.ofInt (signedWord source)).toNat =
      (signedWord source % 4294967296).toNat := by
    rw [UInt32.ofInt, UInt32.toNat_ofNat']
    omega
  rw [← UInt32.toNat_inj, value, ← UInt16.toNat_inj]
  have one : (UInt32.ofInt (1 : Nat)).toNat = 1 := rfl
  have one' : (1 : UInt16).toNat = 1 := rfl
  unfold signedWord
  split <;> omega

theorem singleton_perm_sources_iff {α : Type} {sources : List UInt16}
    {place : UInt32 → α} (injective : Function.Injective place) :
    [place (UInt32.ofInt (sources.length : Nat))].Perm
        (sources.map fun source => place (UInt32.ofInt (signedWord source))) ↔
      sources = [1] := by
  constructor
  · intro same
    have length := same.length_eq
    rw [List.length_singleton, List.length_map] at length
    obtain ⟨source, rfl⟩ := List.length_eq_one_iff.mp length.symm
    have equal := injective (List.singleton_inj.mp (List.perm_singleton.mp same.symm)).symm
    rw [(ofInt_signedWord_eq_one_iff source).mp equal.symm]
  · rintro rfl
    rfl

namespace FixupRecord

variable {record : FixupRecord} {rest : List UInt8} {minRlc : Int} {lxMod : LXModule}

theorem inside_four {buffer : List UInt8} (stands : RestAt buffer minRlc (record.encode ++ rest)) :
    Inside buffer minRlc 4 := by
  obtain ⟨before, bufferEq, offsetEq⟩ := stands
  have source : 1 ≤ record.getSrcoffCnt1Size := by
    unfold R32Rlc.getSrcoffCnt1Size
    split <;> omega
  have object : 1 ≤ record.objModWidth := by
    unfold R32Rlc.objModWidth
    split <;> omega
  have length := congrArg List.length bufferEq
  rw [List.length_append, List.length_append, record.encode_length,
    plainLength, R32Rlc.getSrcFlagsSize] at length
  constructor <;> omega

theorem returns_readField {buffer : List UInt8} {offset : Int} {size : Nat}
    (known : size = 0 ∨ size = 2 ∨ size = 4) (inside : Inside buffer offset 4) :
    Returns (readField buffer offset size) := by
  rcases known with rfl | rfl | rfl
  · exact ⟨0, rfl⟩
  · obtain ⟨value, read⟩ : Returns (readWord buffer offset) := by
      rw [returns_readWord_iff]
      exact ⟨inside.1, by have := inside.2; omega⟩
    rw [readField, if_neg (by decide), if_pos rfl, read]
    exact ⟨_, rfl⟩
  · rw [readField, if_neg (by decide), if_neg (by decide), if_pos rfl, returns_readLong_iff]
    exact inside

theorem returns_getAdditiveRlc {buffer : List UInt8}
    (stands : RestAt buffer minRlc (record.encode ++ rest))
    (internal : record.refType = .internal) :
    Returns (getAdditiveRlc buffer minRlc) := by
  have masked : record.nrFlags &&& nrrTyp = nrrInt := by
    by_contra other
    rw [R32Rlc.refType, if_neg other] at internal
    repeat' split at internal
    all_goals cases internal
  have part (flag : UInt8) (inMask : nrrTyp &&& flag = flag) (nonzero : nrrInt &&& flag ≠ flag) :
      record.nrFlags &&& flag ≠ flag := by
    rw [← inMask, ← UInt8.and_assoc, masked, inMask]
    exact nonzero
  have known : record.getAdditiveSize = 0 ∨ record.getAdditiveSize = 2 ∨
      record.getAdditiveSize = 4 := by
    unfold R32Rlc.getAdditiveSize
    repeat' split
    all_goals simp
  rw [getAdditiveRlc, readRlc stands, bind_ok, if_neg (part nrrEnt (by decide) (by decide)),
    if_neg (part nrrNam (by decide) (by decide)),
    if_neg (part nrrOrd (by decide) (by decide))]
  apply returns_readField known
  simpa using inside_four stands

section

variable (stands : RestAt lxMod.fixupSection minRlc (record.encode ++ rest))

include stands

theorem patchesSources_internal_iff
    (listed : record.HasSourceList) (internal : record.refType = .internal)
    (vmStartOfPage : UInt32) :
    lxMod.PatchesSources record minRlc vmStartOfPage ↔ record.sources = [1] ∧
        Returns (lxMod.o32Reserved (getObj record.objMod.toUInt32)) ∧
          getImpOrd1Rlc lxMod.fixupSection minRlc = .ok record.target := by
  obtain ⟨addit, additive⟩ := returns_getAdditiveRlc stands internal
  have injective : Function.Injective (vmStartOfPage + ·) :=
    fun _ _ equal => (UInt32.add_right_inj vmStartOfPage).mp equal
  have applied : ∀ patches, lxMod.applyFixup vmStartOfPage patches minRlc = (do
        let vmStartTargetObj ← lxMod.o32Reserved (getObj record.objMod.toUInt32)
        let trgoffs ← getImpOrd1Rlc lxMod.fixupSection minRlc
        pure (patches ++
          [{ vmSource := vmStartOfPage +
               UInt32.ofInt (record.sources.length : Nat)
             vmTarget := vmStartTargetObj + trgoffs }])) := by
    intro patches
    rw [LXModule.applyFixup, readRlc stands, bind_ok, internal]
    simp only [LXModule.applyInternalFixup, readCount stands listed, bind_ok,
      readModOrd stands, additive]
  constructor
  · intro patchesSources
    obtain ⟨new, returned, places, targets⟩ := patchesSources []
    rw [applied] at returned
    obtain ⟨reserved, reservedEq, returned⟩ := bind_eq_ok_iff.mp returned
    obtain ⟨trgoffs, target, returned⟩ := bind_eq_ok_iff.mp returned
    cases returned
    refine ⟨(singleton_perm_sources_iff injective).mp places, ⟨reserved, reservedEq⟩, ?_⟩
    have isTarget := targets _ (List.mem_singleton_self _)
    rw [LXModule.IsInternalTarget, internal] at isTarget
    obtain ⟨reserved', reservedEq', equal⟩ := isTarget
    rw [reservedEq] at reservedEq'
    cases reservedEq'
    rw [target, (UInt32.add_right_inj reserved).mp equal]
  · rintro ⟨single, ⟨reserved, reservedEq⟩, target⟩ patches
    refine ⟨[{ vmSource := vmStartOfPage +
        UInt32.ofInt (record.sources.length : Nat)
               vmTarget := reserved + record.target }], ?_, ?_, ?_⟩
    · rw [applied, reservedEq, bind_ok, target, bind_ok]
      rfl
    · exact (singleton_perm_sources_iff injective).mpr single
    · intro patch member
      rw [List.mem_singleton.mp member, LXModule.IsInternalTarget, internal]
      exact ⟨reserved, reservedEq, rfl⟩

theorem patchesSources_entry_iff (entry : record.refType = .entry) (vmStartOfPage : UInt32) :
    lxMod.PatchesSources record minRlc vmStartOfPage ↔
      record.sources = [] := by
  have applied : ∀ patches,
      lxMod.applyFixup vmStartOfPage patches minRlc = .ok patches := by
    intro patches
    rw [LXModule.applyFixup, readRlc stands, bind_ok, entry]
    rfl
  constructor
  · intro patchesSources
    obtain ⟨new, returned, places, _⟩ := patchesSources []
    rw [applied] at returned
    cases returned
    exact List.map_eq_nil_iff.mp (List.nil_perm.mp places)
  · intro none patches
    refine ⟨[], ?_, ?_, by simp⟩
    · rw [applied, List.append_nil]
    · rw [none]
      rfl

theorem convertsSources_iff (listed : record.HasSourceList)
    (imported : record.refType = .ordinal ∨ record.refType = .name)
    (vmStartOfPage startOfPage : UInt32) :
    lxMod.ConvertsSources record minRlc vmStartOfPage startOfPage ↔
      record.sources = [1] ∧ ∃ importEntry,
          lxMod.importEntry record.toR32Rlc minRlc = .ok importEntry ∧
            lxMod.IsImportTarget record importEntry := by
  have injective : Function.Injective
      (fun offset : UInt32 => (startOfPage + offset, vmStartOfPage + offset)) :=
    fun _ _ equal =>
      (UInt32.add_right_inj startOfPage).mp (congrArg Prod.fst equal)
  have converted := fun fill => convertImpFixup_of_isImport (readRlc stands)
    ((isImport_iff (readRlc stands)).mpr imported) vmStartOfPage startOfPage
    fill
  simp only [readCount stands listed, bind_ok] at converted
  constructor
  · intro convertsSources
    obtain ⟨fill', new, returned, stored, places, targets⟩ :=
      convertsSources { fixupCounter := 0, stores := [] }
    rw [converted] at returned
    obtain ⟨importEntry, entryEq, returned⟩ := bind_eq_ok_iff.mp returned
    cases returned
    cases stored
    exact ⟨(singleton_perm_sources_iff injective).mp places, importEntry,
      entryEq, targets _ (List.mem_singleton_self _)⟩
  · rintro ⟨single, importEntry, entryEq, isTarget⟩ fill
    simp only [converted, entryEq, bind_ok, pure_eq_ok]
    refine ⟨_, [_], rfl, List.map_append, (singleton_perm_sources_iff injective).mpr single, ?_⟩
    intro fixup member
    rw [List.mem_singleton.mp member]
    exact isTarget

theorem readsImport_ordinal_iff (ordinal : record.refType = .ordinal) :
    (∃ importEntry, lxMod.importEntry record.toR32Rlc minRlc = .ok importEntry ∧
          lxMod.IsImportTarget record importEntry) ↔
      lxMod.ReadsModName record := by
  have width : record.getImpOrd1Size = record.targetWidth := by
    rw [R32Rlc.getImpOrd1Size, R32Rlc.targetWidth, ordinal]
    by_cases long : record.nrFlags &&& nr32BitOff = nr32BitOff <;> simp [long]
  have entry : lxMod.importEntry record.toR32Rlc minRlc = (do
      let modName ← lxMod.getImpModNameCstr record.objMod.toNat
      pure
        { functionName := none
          address := none
          moduleName := some modName
          ordinal := record.target.toInt32 }) := by
    rw [LXModule.importEntry, readModOrd stands, readTarget stands width,
      bind_ok, bind_ok, ordinal, if_neg (by decide), UInt16.toNat_toUInt32]
  rw [entry]
  constructor
  · rintro ⟨importEntry, returned, ⟨modName, named, nameEq⟩, _⟩
    obtain ⟨read, readEq, returned⟩ := bind_eq_ok_iff.mp returned
    cases returned
    cases nameEq
    exact ⟨modName, named, readEq⟩
  · rintro ⟨modName, named, readEq⟩
    rw [readEq]
    refine ⟨_, rfl, ⟨modName, named, rfl⟩, ?_⟩
    rw [ordinal]
    exact ⟨rfl, rfl⟩

theorem readsImport_name_iff (name : record.refType = .name) :
    (∃ importEntry, lxMod.importEntry record.toR32Rlc minRlc = .ok importEntry ∧
          lxMod.IsImportTarget record importEntry) ↔
      lxMod.ReadsModName record ∧ lxMod.ReadsProcName record minRlc := by
  rw [LXModule.importEntry, readModOrd stands, bind_ok, name, UInt16.toNat_toUInt32]
  constructor
  · rintro ⟨importEntry, returned, ⟨modName, modNamed, modNameEq⟩, target⟩
    obtain ⟨importOrd, impOrd, returned⟩ := bind_eq_ok_iff.mp returned
    obtain ⟨pas, found, returned⟩ := bind_eq_ok_iff.mp returned
    obtain ⟨copied, copiedEq, returned⟩ := bind_eq_ok_iff.mp returned
    obtain ⟨read, readEq, returned⟩ := bind_eq_ok_iff.mp returned
    cases returned
    cases modNameEq
    rw [name] at target
    obtain ⟨importName, procNamed, procNameEq⟩ := target
    cases procNameEq
    exact ⟨⟨modName, modNamed, readEq⟩,
      ⟨importOrd, pas, copied, impOrd, found, copiedEq, procNamed⟩⟩
  · rintro ⟨⟨modName, modNamed, readEq⟩,
      ⟨importOrd, pas, copied, impOrd, found, copiedEq, procNamed⟩⟩
    simp only [impOrd, found, copiedEq, readEq, bind_ok, pure_eq_ok]
    refine ⟨_, rfl, ⟨modName, modNamed, rfl⟩, ?_⟩
    rw [name]
    exact ⟨_, procNamed, rfl⟩

end

end FixupRecord

/-- A module with one object, loaded at `0x20000`. -/
def oneObjectModule (fixupSection : List UInt8) : LXModule :=
  { (default : LXModule) with
    loaderSection := longBytes 4096 ++ longBytes 65536 ++ longBytes 5 ++ longBytes 1 ++
        longBytes 1 ++ longBytes 0x20000
    fixupSection }

/-- A 32-bit offset fixup of object 1 with a source list. -/
def listedFixup (sources : List UInt16) (short : sources.length ≤ 255) : FixupRecord where
  nrStype := 0x27
  nrFlags := 0x00
  sources := sources
  objMod := 1
  target := 0x30
  additive := 0
  sources_single := fun unlisted => absurd (by decide) unlisted
  sources_length_le := short
  objMod_fits := by decide
  target_fits := by decide
  additive_fits := by decide

end OsFree.Lx
