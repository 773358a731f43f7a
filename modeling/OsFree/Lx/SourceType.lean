import OsFree.Lx.SourceList
import OsFree.Machine.Memory

/-!
# Source types of internal fixups

The source type of a record says how wide the field at its source is, and what
is stored there.  The code looks at neither and always stores a long with the
address of the target.
-/

namespace OsFree.Lx

open Machine

/-- The source types of the format. -/
inductive SourceType where
  | loByte
  | segment
  | pointer
  | offset16
  | pointer48
  | offset32
  | selfRelative32
  deriving DecidableEq

/-- The source type of a record; the other values of the field have no
meaning. -/
def R32Rlc.sourceType (rlc : R32Rlc) : Option SourceType :=
  if rlc.nrStype &&& nrsTyp = 0x00 then some .loByte
  else if rlc.nrStype &&& nrsTyp = nrsSeg then some .segment
  else if rlc.nrStype &&& nrsTyp = 0x03 then some .pointer
  else if rlc.nrStype &&& nrsTyp = 0x05 then some .offset16
  else if rlc.nrStype &&& nrsTyp = 0x06 then some .pointer48
  else if rlc.nrStype &&& nrsTyp = 0x07 then some .offset32
  else if rlc.nrStype &&& nrsTyp = 0x08 then some .selfRelative32
  else none

/-- The bytes of the field that a fixup of this type patches. -/
def SourceType.width : SourceType → Nat
  | .loByte => 1
  | .segment | .offset16 => 2
  | .pointer | .offset32 | .selfRelative32 => 4
  | .pointer48 => 6

/-- The long that a 32-bit fixup stores at its source. -/
def SourceType.long (vmTarget vmSource : UInt32) : SourceType → Option UInt32
  | .offset32 => some vmTarget
  | .selfRelative32 => some (vmTarget - (vmSource + 4))
  | .loByte | .segment | .pointer | .offset16 | .pointer48 => none

/-- The address is in the field of a given width at a source. -/
def InField (width : Nat) (vmSource address : UInt32) : Prop := (address - vmSource).toNat < width

/-- The bytes that a patch stores. -/
def Patch.copy (patch : Patch) : Copy where
  address := patch.vmSource
  bytes := longBytes patch.vmTarget

namespace FixupRecord

variable (record : FixupRecord)

/-- The source offset that the code takes for the only one: of a record with a
source list it is the length of the list. -/
def codeSource : Int :=
  if record.HasSourceList then record.sources.length
  else signedWord (record.sources.headD 0)

/-- The target offset that the code reads in a record with a target field. -/
def codeTarget : UInt32 :=
  if record.nrFlags &&& nr8BitOrd = nr8BitOrd then record.target % 256
  else record.target

/-- A 32-bit fixup at a source asks for what the code stores, at the place where
the code stores it. -/
def TargetFits (sourceType : SourceType) (vmStartOfPage : UInt32) (source : UInt16) : Prop :=
  match sourceType with
  | .offset32 =>
    UInt32.ofInt (signedWord source) = UInt32.ofInt record.codeSource ∧
      record.target = record.codeTarget
  | .selfRelative32 =>
    UInt32.ofInt (signedWord source) = UInt32.ofInt record.codeSource ∧
      record.target = record.codeTarget + (sourceAddress vmStartOfPage source + 4)
  | .loByte | .segment | .pointer | .offset16 | .pointer48 => True

/-- The address is in one of the fields that the record patches. -/
def Patches (sourceType : SourceType) (vmStartOfPage address : UInt32) : Prop :=
  ∃ source ∈ record.sources, InField sourceType.width (sourceAddress vmStartOfPage source) address

end FixupRecord

namespace LXModule

variable (lxMod : LXModule)

/-- The fixup at a record is applied to the memory as its source type asks for:
the fields of the 32-bit types hold the long, and the bytes outside the fields
keep their values. -/
def StoresByType (record : FixupRecord) (sourceType : SourceType) (minRlc : Int)
    (vmStartOfPage : UInt32) (memory : Memory) : Prop :=
  ∃ patches o32Reserved, lxMod.applyFixup vmStartOfPage [] minRlc = .ok patches ∧
      lxMod.o32Reserved (getObj record.objMod.toUInt32) = .ok o32Reserved ∧
        (∀ source ∈ record.sources, ∀ value, sourceType.long (o32Reserved + record.target)
              (sourceAddress vmStartOfPage source) = some value →
            HoldsLong (memory.storeAll (patches.map Patch.copy))
              (sourceAddress vmStartOfPage source) value) ∧
          ∀ address, ¬ record.Patches sourceType vmStartOfPage address →
            memory.storeAll (patches.map Patch.copy) address = memory address

/-- The condition under which a record is applied as its source type asks for
whatever the memory holds.  The object and the target offset can be read, the
long that is stored lies in the fields of the record, and a 32-bit fixup has no
source but the one that is taken and asks for what is stored there. -/
def StoreFits (record : FixupRecord) (sourceType : SourceType) (minRlc : Int)
    (vmStartOfPage : UInt32) : Prop :=
  Returns (lxMod.o32Reserved (getObj record.objMod.toUInt32)) ∧
    Returns (getImpOrd1Rlc lxMod.fixupSection minRlc) ∧
      (∀ k < 4, record.Patches sourceType vmStartOfPage
        (vmStartOfPage + UInt32.ofInt record.codeSource + UInt32.ofNat k)) ∧
        ∀ source ∈ record.sources, record.TargetFits sourceType vmStartOfPage source

/-- The condition under which a record without a source list is applied to a
memory as its source type asks for.  Behind a field that is shorter than a long
the memory already holds what the code stores there. -/
def StoreFitsIn (record : FixupRecord) (sourceType : SourceType) (minRlc : Int)
    (vmStartOfPage : UInt32) (memory : Memory) : Prop :=
  ∃ o32Reserved trgoffs, lxMod.o32Reserved (getObj record.objMod.toUInt32) = .ok o32Reserved ∧
      getImpOrd1Rlc lxMod.fixupSection minRlc = .ok trgoffs ∧ ∀ source ∈ record.sources,
          record.TargetFits sourceType vmStartOfPage source ∧
            ∀ k < 4, sourceType.width ≤ k → (longBytes (o32Reserved + trgoffs))[k]? =
                some (memory (sourceAddress vmStartOfPage source + UInt32.ofNat k))

end LXModule

theorem longBytes_injective : Function.Injective longBytes := by
  intro value other equal
  calc value = longOfBytes (longBytes value) := (longOf_longBytes value).symm
    _ = longOfBytes (longBytes other) := by rw [equal]
    _ = other := longOf_longBytes other

variable {k : Nat}

theorem toNat_add_ofNat_sub (address : UInt32) (small : k < 4) :
    (address + UInt32.ofNat k - address).toNat = k := by
  have bound := address.toNat_lt
  rw [UInt32.toNat_sub, UInt32.toNat_add, UInt32.toNat_ofNat']
  omega

theorem byte_copy (patch : Patch) (small : k < 4) :
    patch.copy.byte (patch.vmSource + UInt32.ofNat k) =
      (longBytes patch.vmTarget)[k]? := by
  rw [Copy.byte, show patch.copy.address = patch.vmSource from rfl, toNat_add_ofNat_sub _ small]
  rfl

theorem store_copy (memory : Memory) (patch : Patch) (small : k < 4) :
    (longBytes patch.vmTarget)[k]? =
      some (memory.store patch.copy (patch.vmSource + UInt32.ofNat k)) := by
  have within : k < (longBytes patch.vmTarget).length := small
  have found := byte_copy patch small
  rw [List.getElem?_eq_getElem within] at found ⊢
  rw [Memory.store_of_byte found]

theorem exists_of_covers {patch : Patch} {address : UInt32} (covers : patch.copy.Covers address) :
    ∃ k < 4, address = patch.vmSource + UInt32.ofNat k := by
  refine ⟨(address - patch.vmSource).toNat, covers, ?_⟩
  rw [UInt32.ofNat_toNat, UInt32.add_comm, UInt32.sub_add_cancel]

theorem holdsLong_store_iff (memory : Memory) (patch : Patch) (value : UInt32) :
    HoldsLong (memory.store patch.copy) patch.vmSource value ↔
      value = patch.vmTarget := by
  constructor
  · intro holds
    apply longBytes_injective
    apply List.ext_getElem?
    intro k
    by_cases small : k < 4
    · rw [holds k small, ← store_copy memory patch small]
    · rw [List.getElem?_eq_none (by simpa using small),
        List.getElem?_eq_none (by simpa using small)]
  · rintro rfl k small
    exact store_copy memory patch small

theorem eq_of_holdsLong_store {patch : Patch} {address value : UInt32}
    (holds : ∀ memory : Memory, HoldsLong (memory.store patch.copy) address value) :
    address = patch.vmSource ∧ value = patch.vmTarget := by
  have covers : ∀ k < 4, patch.copy.Covers (address + UInt32.ofNat k) := by
    intro k small
    by_contra uncovered
    have unchanged := fun memory : Memory => (holds memory k small).trans
      (congrArg some (Memory.store_of_not_covers uncovered))
    have equal := (unchanged fun _ => 0).symm.trans (unchanged fun _ => 1)
    exact absurd (Option.some.inj equal) (by decide)
  have first := covers 0 (by decide)
  have last := covers 3 (by decide)
  have here : address = patch.vmSource := by
    have bound := address.toNat_lt
    have bound' := patch.vmSource.toNat_lt
    apply UInt32.toNat_inj.mp
    simp only [Copy.Covers, Patch.copy, longBytes_length, UInt32.toNat_sub,
      UInt32.toNat_add, UInt32.toNat_ofNat', Nat.reducePow] at first last
    omega
  refine ⟨here, ?_⟩
  rw [here] at holds
  exact (holdsLong_store_iff (fun _ => 0) patch value).mp (holds _)

theorem unsegmented_of_sourceType {rlc : R32Rlc} {sourceType : SourceType}
    (typed : rlc.sourceType = some sourceType)
    (other : sourceType ≠ .segment) : rlc.nrStype &&& nrsTyp ≠ nrsSeg := by
  intro segment
  rw [R32Rlc.sourceType, segment, if_neg (by decide), if_pos rfl] at typed
  cases typed
  exact other rfl

namespace FixupRecord

variable {record : FixupRecord} {buffer rest : List UInt8} {minRlc : Int} {lxMod : LXModule}

theorem readSource (stands : RestAt buffer minRlc (record.encode ++ rest)) :
    getSrcoffCnt1Rlc buffer minRlc = .ok record.codeSource := by
  by_cases listed : record.HasSourceList
  · rw [readCount stands listed, codeSource, if_pos listed]
  · obtain ⟨source, single⟩ := List.length_eq_one_iff.mp (record.sources_single listed)
    have field := stands
    rw [encode, List.cons_append, List.cons_append, List.append_assoc,
      sourceField, if_neg listed, single, List.flatMap_singleton] at field
    have read := field.tail.tail.readWord
    rw [show minRlc + 1 + 1 = minRlc + 2 by omega] at read
    rw [getSrcoffCnt1Rlc, readRlc stands, bind_ok, if_pos listed, read,
      bind_ok, codeSource, if_neg listed, single]
    rfl

theorem readCodeTarget (stands : RestAt buffer minRlc (record.encode ++ rest))
    (internal : record.refType = .internal)
    (unsegmented : record.nrStype &&& nrsTyp ≠ nrsSeg) :
    getImpOrd1Rlc buffer minRlc = .ok record.codeTarget := by
  by_cases short : record.nrFlags &&& nr8BitOrd = nr8BitOrd
  · have size : record.getImpOrd1Size = 1 := by
      rw [R32Rlc.getImpOrd1Size, if_pos short]
    have behind := (objModStands stands).skip
    rw [fieldBytes_length _ (objModWidth_le _), Int.add_assoc, ← Nat.cast_add] at behind
    have long : ∃ width, record.targetWidth = width + 1 := by
      refine ⟨record.targetWidth - 1, ?_⟩
      rw [R32Rlc.targetWidth, internal]
      simp only [if_neg unsegmented]
      split <;> rfl
    obtain ⟨width, widthEq⟩ := long
    rw [widthEq] at behind
    have read := RestAt.readByte behind
    rw [getImpOrd1Rlc, readRlc stands, bind_ok, size, readField, if_pos rfl,
      show record.getModOrd1Size = record.objModWidth from rfl, read, bind_ok,
      codeTarget, if_pos short]
    refine congrArg Except.ok (UInt32.toNat_inj.mp ?_)
    rfl
  · rw [codeTarget, if_neg short]
    apply readTarget stands
    rw [R32Rlc.getImpOrd1Size, R32Rlc.targetWidth, internal, if_neg short]
    simp only [if_neg unsegmented]
    by_cases long : record.nrFlags &&& nr32BitOff = nr32BitOff
    · simp only [long, ne_eq, not_true_eq_false, if_false, if_true]
    · simp only [long, ne_eq, not_false_eq_true, if_false, if_true]

/-- Where the code stores, and what, when the object and the target offset are
read. -/
def codePatch (record : FixupRecord) (vmStartOfPage o32Reserved trgoffs : UInt32) : Patch where
  vmSource := vmStartOfPage + UInt32.ofInt record.codeSource
  vmTarget := o32Reserved + trgoffs

theorem applyFixup_internal (stands : RestAt lxMod.fixupSection minRlc (record.encode ++ rest))
    (internal : record.refType = .internal) (vmStartOfPage : UInt32) :
    lxMod.applyFixup vmStartOfPage [] minRlc = (do
      let o32Reserved ← lxMod.o32Reserved (getObj record.objMod.toUInt32)
      let trgoffs ← getImpOrd1Rlc lxMod.fixupSection minRlc
      pure [record.codePatch vmStartOfPage o32Reserved trgoffs]) := by
  obtain ⟨addit, additive⟩ := returns_getAdditiveRlc stands internal
  rw [LXModule.applyFixup, readRlc stands, bind_ok, internal]
  simp only [LXModule.applyInternalFixup, readSource stands, bind_ok, readModOrd stands, additive]
  rfl

/-- A patch does to a memory what the source type asks for. -/
def PatchFits (record : FixupRecord) (sourceType : SourceType)
    (vmStartOfPage o32Reserved : UInt32) (patch : Patch) (memory : Memory) :
    Prop :=
  (∀ source ∈ record.sources, ∀ value, sourceType.long (o32Reserved + record.target)
        (sourceAddress vmStartOfPage source) = some value →
      HoldsLong (memory.store patch.copy) (sourceAddress vmStartOfPage source) value) ∧
    ∀ address, ¬ record.Patches sourceType vmStartOfPage address →
      memory.store patch.copy address = memory address

theorem storesByType_iff_patchFits
    (stands : RestAt lxMod.fixupSection minRlc (record.encode ++ rest))
    (internal : record.refType = .internal) (sourceType : SourceType)
    (vmStartOfPage : UInt32) (memory : Memory) :
    lxMod.StoresByType record sourceType minRlc vmStartOfPage memory ↔ ∃ o32Reserved trgoffs,
        lxMod.o32Reserved (getObj record.objMod.toUInt32) = .ok o32Reserved ∧
          getImpOrd1Rlc lxMod.fixupSection minRlc = .ok trgoffs ∧
            record.PatchFits sourceType vmStartOfPage o32Reserved
              (record.codePatch vmStartOfPage o32Reserved trgoffs) memory := by
  rw [LXModule.StoresByType, applyFixup_internal stands internal]
  constructor
  · rintro ⟨patches, o32Reserved, applied, reserved, fits⟩
    rw [reserved, bind_ok] at applied
    obtain ⟨trgoffs, target, applied⟩ := bind_eq_ok_iff.mp applied
    cases applied
    exact ⟨o32Reserved, trgoffs, reserved, target, fits⟩
  · rintro ⟨o32Reserved, trgoffs, reserved, target, fits⟩
    refine ⟨[record.codePatch vmStartOfPage o32Reserved trgoffs], o32Reserved, ?_, reserved, fits⟩
    rw [reserved, bind_ok, target, bind_ok]
    rfl

variable {sourceType : SourceType} {vmStartOfPage trgoffs : UInt32}

section

variable (known : sourceType ≠ .segment → trgoffs = record.codeTarget)

include known

theorem targetFits_iff (o32Reserved : UInt32) (source : UInt16) :
    record.TargetFits sourceType vmStartOfPage source ↔
      ∀ value, sourceType.long (o32Reserved + record.target)
            (sourceAddress vmStartOfPage source) = some value →
        sourceAddress vmStartOfPage source =
            (record.codePatch vmStartOfPage o32Reserved trgoffs).vmSource ∧
          value =
            (record.codePatch vmStartOfPage o32Reserved trgoffs).vmTarget := by
  have place : sourceAddress vmStartOfPage source =
        (record.codePatch vmStartOfPage o32Reserved trgoffs).vmSource ↔
      UInt32.ofInt (signedWord source) = UInt32.ofInt record.codeSource :=
    UInt32.add_right_inj vmStartOfPage
  rw [place]
  cases sourceType with
  | loByte | segment | pointer | offset16 | pointer48 =>
    simp [TargetFits, SourceType.long]
  | offset32 =>
    have read := known (by decide)
    simp only [TargetFits, SourceType.long, Option.some.injEq, forall_eq',
      codePatch, UInt32.add_right_inj, read]
  | selfRelative32 =>
    have read := known (by decide)
    simp only [TargetFits, SourceType.long, Option.some.injEq, forall_eq', codePatch, read]
    rw [UInt32.sub_eq_iff_eq_add, UInt32.add_assoc, UInt32.add_right_inj]

theorem forall_patchFits_iff {o32Reserved : UInt32} :
    (∀ memory, record.PatchFits sourceType vmStartOfPage o32Reserved
        (record.codePatch vmStartOfPage o32Reserved trgoffs) memory) ↔
      (∀ k < 4, record.Patches sourceType vmStartOfPage
        (vmStartOfPage + UInt32.ofInt record.codeSource + UInt32.ofNat k)) ∧
        ∀ source ∈ record.sources,
          record.TargetFits sourceType vmStartOfPage source := by
  constructor
  · intro fits
    constructor
    · intro k small
      by_contra outside
      have unchanged := fun memory => (store_copy memory
          (record.codePatch vmStartOfPage o32Reserved trgoffs) small).trans
        (congrArg some ((fits memory).2 _ outside))
      have equal := (unchanged fun _ => 0).symm.trans (unchanged fun _ => 1)
      exact absurd (Option.some.inj equal) (by decide)
    · intro source member
      rw [targetFits_iff known o32Reserved]
      intro value asked
      exact eq_of_holdsLong_store fun memory =>
        (fits memory).1 source member value asked
  · rintro ⟨inside, targets⟩ memory
    constructor
    · intro source member value asked
      obtain ⟨place, equal⟩ :=
        (targetFits_iff known o32Reserved source).mp (targets source member) value asked
      rw [place]
      exact (holdsLong_store_iff memory _ value).mpr equal
    · intro address outside
      apply Memory.store_of_not_covers
      intro covers
      obtain ⟨k, small, rfl⟩ := exists_of_covers covers
      exact outside (inside k small)

theorem patchFits_iff {o32Reserved : UInt32} (unlisted : ¬ record.HasSourceList) (memory : Memory) :
    record.PatchFits sourceType vmStartOfPage o32Reserved
        (record.codePatch vmStartOfPage o32Reserved trgoffs) memory ↔
      ∀ source ∈ record.sources, record.TargetFits sourceType vmStartOfPage source ∧
          ∀ k < 4, sourceType.width ≤ k → (longBytes (o32Reserved + trgoffs))[k]? = some (memory
                (sourceAddress vmStartOfPage source + UInt32.ofNat k)) := by
  obtain ⟨source, single⟩ := List.length_eq_one_iff.mp (record.sources_single unlisted)
  have place : (record.codePatch vmStartOfPage o32Reserved trgoffs).vmSource =
      sourceAddress vmStartOfPage source := by
    rw [codePatch, codeSource, if_neg unlisted, single]
    rfl
  have inField {k : Nat} (small : k < 4) : record.Patches sourceType vmStartOfPage
          (sourceAddress vmStartOfPage source + UInt32.ofNat k) ↔
        k < sourceType.width := by
    simp only [Patches, single, List.mem_singleton, exists_eq_left, InField,
      toNat_add_ofNat_sub _ small]
  have frame : (∀ address, ¬ record.Patches sourceType vmStartOfPage address →
        memory.store (record.codePatch vmStartOfPage o32Reserved trgoffs).copy
          address = memory address) ↔
      ∀ k < 4, sourceType.width ≤ k → (longBytes (o32Reserved + trgoffs))[k]? = some (memory
            (sourceAddress vmStartOfPage source + UInt32.ofNat k)) := by
    constructor
    · intro unchanged k small behind
      have stored := store_copy memory (record.codePatch vmStartOfPage o32Reserved trgoffs) small
      rw [place, unchanged _ fun inside =>
        Nat.not_lt_of_le behind ((inField small).mp inside)] at stored
      exact stored
    · intro same address outside
      by_cases covers : (record.codePatch vmStartOfPage o32Reserved trgoffs).copy.Covers address
      · obtain ⟨k, small, rfl⟩ := exists_of_covers covers
        rw [place] at outside
        have behind := Nat.le_of_not_lt (mt (inField small).mpr outside)
        have stored := (store_copy memory
          (record.codePatch vmStartOfPage o32Reserved trgoffs) small).symm.trans
          (same k small behind)
        rw [place] at stored ⊢
        exact Option.some.inj stored
      · exact Memory.store_of_not_covers covers
  rw [PatchFits, frame, single]
  simp only [List.mem_singleton, forall_eq,
    targetFits_iff known o32Reserved source, ← place, holdsLong_store_iff,
    true_and]

end

end FixupRecord

/-- An internal fixup is applied to every memory as its source type asks for
exactly when it stores inside its fields what each source asks for.  Without a
source list it is applied to one memory so exactly when it stores what the
source asks for and the memory already holds what goes behind the field. -/
theorem storesByType_iff {lxMod : LXModule} {record : FixupRecord}
    {rest : List UInt8} {minRlc : Int} {sourceType : SourceType}
    (stands : RestAt lxMod.fixupSection minRlc (record.encode ++ rest))
    (internal : record.refType = .internal)
    (typed : record.sourceType = some sourceType) (vmStartOfPage : UInt32) :
    ((∀ memory, lxMod.StoresByType record sourceType minRlc vmStartOfPage memory) ↔
      lxMod.StoreFits record sourceType minRlc vmStartOfPage) ∧
    (¬ record.HasSourceList → ∀ memory,
      (lxMod.StoresByType record sourceType minRlc vmStartOfPage memory ↔
        lxMod.StoreFitsIn record sourceType minRlc vmStartOfPage memory)) := by
  have known (trgoffs : UInt32) (target : getImpOrd1Rlc lxMod.fixupSection minRlc = .ok trgoffs)
      (other : sourceType ≠ .segment) : trgoffs = record.codeTarget := by
    rw [FixupRecord.readCodeTarget stands internal
      (unsegmented_of_sourceType typed other)] at target
    cases target
    rfl
  simp only [FixupRecord.storesByType_iff_patchFits stands internal]
  constructor
  · constructor
    · intro stores
      obtain ⟨o32Reserved, trgoffs, reserved, target, -⟩ := stores fun _ => 0
      have fits : ∀ memory, record.PatchFits sourceType vmStartOfPage o32Reserved
          (record.codePatch vmStartOfPage o32Reserved trgoffs) memory := by
        intro memory
        obtain ⟨_, _, reserved', target', fits⟩ := stores memory
        rw [reserved] at reserved'
        rw [target] at target'
        cases reserved'
        cases target'
        exact fits
      exact ⟨⟨o32Reserved, reserved⟩, ⟨trgoffs, target⟩,
        (FixupRecord.forall_patchFits_iff (known trgoffs target)).mp fits⟩
    · rintro ⟨⟨o32Reserved, reserved⟩, ⟨trgoffs, target⟩, fits⟩ memory
      exact ⟨o32Reserved, trgoffs, reserved, target,
        (FixupRecord.forall_patchFits_iff (known trgoffs target)).mpr fits memory⟩
  · intro unlisted memory
    constructor
    · rintro ⟨o32Reserved, trgoffs, reserved, target, fits⟩
      exact ⟨o32Reserved, trgoffs, reserved, target,
        (FixupRecord.patchFits_iff (known trgoffs target) unlisted memory).mp fits⟩
    · rintro ⟨o32Reserved, trgoffs, reserved, target, fits⟩
      exact ⟨o32Reserved, trgoffs, reserved, target,
        (FixupRecord.patchFits_iff (known trgoffs target) unlisted memory).mpr fits⟩

theorem one_source_length : ([4] : List UInt16).length ≤ 255 := by decide

/-- A fixup of object 1 with one source and a 16-bit target offset. -/
def plainFixup (nrStype : UInt8) (target_fits : (0x30 : Nat) <
      256 ^ R32Rlc.targetWidth { nrStype, nrFlags := 0 }) :
    FixupRecord where
  nrStype
  nrFlags := 0x00
  sources := [4]
  objMod := 1
  target := 0x30
  additive := 0
  sources_single := fun _ => rfl
  sources_length_le := one_source_length
  objMod_fits := by
    have plain : ¬ (0x00 : UInt8) &&& nr16ObjMod = nr16ObjMod := by decide
    rw [R32Rlc.objModWidth, if_neg plain]
    decide
  target_fits
  additive_fits := by
    change (0 : Nat) < 256 ^ _
    exact Nat.pow_pos (by decide)

/-- A 32-bit offset fixup is applied as it should be, also when the memory is
given. -/
theorem storesByType_plainFixup_offset32 : (∀ memory,
      (oneObjectModule (plainFixup 0x07 (by decide)).encode).StoresByType
        (plainFixup 0x07 (by decide)) .offset32 0 0x20000 memory) ∧
      (oneObjectModule (plainFixup 0x07 (by decide)).encode).StoreFitsIn
        (plainFixup 0x07 (by decide)) .offset32 0 0x20000 fun _ => 0 := by
  have stands : RestAt (oneObjectModule (plainFixup 0x07 (by decide)).encode).fixupSection 0
      ((plainFixup 0x07 (by decide)).encode ++ []) := by
    exact restAt_zero _
  have typed : (plainFixup 0x07 (by decide)).sourceType = some .offset32 := by
    decide
  have stores := storesByType_iff stands (by decide) typed 0x20000
  have fits : (oneObjectModule (plainFixup 0x07 (by decide)).encode).StoreFits
      (plainFixup 0x07 (by decide)) .offset32 0 0x20000 := by
    refine ⟨⟨0x20000, by decide⟩, ⟨0x30, by decide⟩, ?_, ?_⟩
    · intro k small
      refine ⟨4, List.mem_singleton_self _, ?_⟩
      have place : sourceAddress 0x20000 4 = 0x20000 + UInt32.ofInt
          (plainFixup 0x07 (by decide)).codeSource := by decide
      rw [InField, place, toNat_add_ofNat_sub _ small]
      exact small
    · intro source member
      rw [List.mem_singleton.mp member]
      exact ⟨by decide, by decide⟩
  have all := stores.1.mpr fits
  exact ⟨all, (stores.2 (by decide) _).mp (all _)⟩

/-- A 16-bit offset fixup changes the two bytes behind its field, and a
self-relative one stores the target itself. -/
theorem not_storesByType_plainFixup :
    ((oneObjectModule (plainFixup 0x05 (by decide)).encode).applyFixup 0x20000
        [] 0 = .ok [{ vmSource := 0x20004, vmTarget := 0x20030 }] ∧
      ¬ (oneObjectModule (plainFixup 0x05 (by decide)).encode).StoresByType
        (plainFixup 0x05 (by decide)) .offset16 0 0x20000 fun _ => 0) ∧
    (oneObjectModule (plainFixup 0x08 (by decide)).encode).applyFixup 0x20000
        [] 0 = .ok [{ vmSource := 0x20004, vmTarget := 0x20030 }] ∧
      ¬ (oneObjectModule (plainFixup 0x08 (by decide)).encode).StoresByType
        (plainFixup 0x08 (by decide)) .selfRelative32 0 0x20000 fun _ => 0 := by
  have narrow : (oneObjectModule (plainFixup 0x05 (by decide)).encode).applyFixup
      0x20000 [] 0 = .ok [{ vmSource := 0x20004, vmTarget := 0x20030 }] := by
    decide
  have relative : (oneObjectModule (plainFixup 0x08 (by decide)).encode).applyFixup 0x20000
        [] 0 = .ok [{ vmSource := 0x20004, vmTarget := 0x20030 }] := by
    decide
  refine ⟨⟨narrow, ?_⟩, relative, ?_⟩
  · rintro ⟨patches, o32Reserved, applied, -, -, unchanged⟩
    cases applied
    have outside : ¬ (plainFixup 0x05 (by decide)).Patches .offset16 0x20000
        0x20006 := by
      rintro ⟨source, member, inside⟩
      rw [List.mem_singleton.mp member] at inside
      exact absurd inside (by unfold InField; decide)
    exact absurd (unchanged 0x20006 outside) (by decide)
  · rintro ⟨patches, o32Reserved, applied, reserved, holds, -⟩
    cases applied
    have base : (oneObjectModule (plainFixup 0x08 (by decide)).encode).o32Reserved
        (getObj (plainFixup 0x08 (by decide)).objMod.toUInt32) =
          .ok 0x20000 := by decide
    cases reserved
    have held := holds 4 (List.mem_singleton_self _) 0x28 (by decide) 0 (by decide)
    exact absurd held (by decide)

end OsFree.Lx
