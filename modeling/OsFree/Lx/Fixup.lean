import OsFree.Lx.Format

/-!
# Fixup records

The readers of `fixup.c`.  A record is a pointer into the fixup section; its
first two bytes decide which fields follow and how wide they are.
-/

namespace OsFree.Lx

open Machine

/-- The two leading bytes of a fixup record. -/
structure R32Rlc where
  nrStype : UInt8
  nrFlags : UInt8
  deriving DecidableEq

/-- What a fixup record refers to. -/
inductive RefType where
  | internal
  | ordinal
  | name
  | entry
  deriving DecidableEq

/-- A word read as a signed `short`. -/
def signedWord (value : UInt16) : Int :=
  if value.toNat < 32768 then value.toNat else (value.toNat : Int) - 65536

namespace R32Rlc

variable (rlc : R32Rlc)

/-- The record carries a list of source offsets. -/
abbrev HasSourceList : Prop := rlc.nrStype &&& nrChain = nrChain

/-- The reference type.  The mask leaves four values, all of them named. -/
def refType : RefType :=
  if rlc.nrFlags &&& nrrTyp = nrrInt then .internal
  else if rlc.nrFlags &&& nrrTyp = nrrOrd then .ordinal
  else if rlc.nrFlags &&& nrrTyp = nrrNam then .name
  else .entry

def getSrcFlagsSize : Nat := 2

/-- Width of the source offset, or of the count of a source list. -/
def getSrcoffCnt1Size : Nat :=
  if rlc.nrStype &&& nrChain ≠ nrChain then 2 else 1

/-- Width of the object number or module ordinal. -/
def getModOrd1Size : Nat :=
  if rlc.nrFlags &&& nr16ObjMod = nr16ObjMod then 2 else 1

/-- Width of the import ordinal. -/
def getImpOrd1Size : Nat :=
  if rlc.nrFlags &&& nr8BitOrd = nr8BitOrd then 1
  else if rlc.nrFlags &&& nr32BitOff ≠ nr32BitOff then 2
  else 4

/-- Width of the additive value. -/
def getAdditiveSize : Nat :=
  if rlc.nrFlags &&& nrAdd = nrAdd then
    if rlc.nrFlags &&& nrChain = nrChain then 4 else 2
  else 0

/-- Width of the offset of an import procedure name. -/
def getImpNameSize : Nat :=
  if rlc.nrFlags &&& nr32BitOff = nr32BitOff then 4 else 2

/-- Width of the ordinal of an entry table reference. -/
def getOrd1EntrySize : Nat := 2

end R32Rlc

/-- Read the leading bytes of a record. -/
def readRlc (buffer : List UInt8) (minRlc : Int) : Run R32Rlc := do
  let nrStype ← readByte buffer minRlc
  let nrFlags ← readByte buffer (minRlc + 1)
  pure { nrStype, nrFlags }

/-- The source offset, or the count of a source list. -/
def getSrcoffCnt1Rlc (buffer : List UInt8) (minRlc : Int) : Run Int := do
  let rlc ← readRlc buffer minRlc
  if rlc.nrStype &&& nrChain ≠ nrChain then
    let r32Soff ← readWord buffer (minRlc + 2)
    pure (signedWord r32Soff)
  else
    let count ← readByte buffer (minRlc + 2)
    pure count.toNat

/-- An unsigned field of one, two or four bytes. -/
def readField (buffer : List UInt8) (offset : Int) (size : Nat) :
    Run UInt32 :=
  if size = 1 then do
    let value ← readByte buffer offset
    pure value.toUInt32
  else if size = 2 then do
    let value ← readWord buffer offset
    pure value.toUInt32
  else if size = 4 then
    readLong buffer offset
  else
    pure 0

/-- The object number or module ordinal. -/
def getModOrd1Rlc (buffer : List UInt8) (minRlc : Int) : Run UInt32 := do
  let rlc ← readRlc buffer minRlc
  let modOrd1Offs := R32Rlc.getSrcFlagsSize + rlc.getSrcoffCnt1Size
  readField buffer (minRlc + modOrd1Offs) rlc.getModOrd1Size

/-- The import ordinal; also read as the target offset and as the offset of a
procedure name. -/
def getImpOrd1Rlc (buffer : List UInt8) (minRlc : Int) : Run UInt32 := do
  let rlc ← readRlc buffer minRlc
  let impOrd1Offs := R32Rlc.getSrcFlagsSize + rlc.getSrcoffCnt1Size + rlc.getModOrd1Size
  readField buffer (minRlc + impOrd1Offs) rlc.getImpOrd1Size

/-- The additive value.  Every test of a single bit of the reference type also
holds of the types that contain it, so the last one that applies decides. -/
def getAdditiveRlc (buffer : List UInt8) (minRlc : Int) : Run UInt32 := do
  let rlc ← readRlc buffer minRlc
  let additiveOffs :=
    if rlc.nrFlags &&& nrrEnt = nrrEnt then
      R32Rlc.getSrcFlagsSize + rlc.getSrcoffCnt1Size + R32Rlc.getOrd1EntrySize
    else if rlc.nrFlags &&& nrrNam = nrrNam then
      R32Rlc.getSrcFlagsSize + rlc.getSrcoffCnt1Size + rlc.getModOrd1Size + rlc.getImpNameSize
    else if rlc.nrFlags &&& nrrOrd = nrrOrd then
      R32Rlc.getSrcFlagsSize + rlc.getSrcoffCnt1Size + rlc.getModOrd1Size + rlc.getImpOrd1Size
    else 0
  readField buffer (minRlc + additiveOffs) rlc.getAdditiveSize

/-- The part of a record's size that does not depend on its source list. -/
def R32Rlc.fixedSize (rlc : R32Rlc) : Nat :=
  match rlc.refType with
  | .internal =>
    R32Rlc.getSrcFlagsSize + rlc.getSrcoffCnt1Size + rlc.getModOrd1Size + rlc.getImpOrd1Size
  | .ordinal =>
    R32Rlc.getSrcFlagsSize + rlc.getSrcoffCnt1Size + rlc.getModOrd1Size +
      rlc.getImpOrd1Size + rlc.getAdditiveSize
  | .name =>
    R32Rlc.getSrcFlagsSize + rlc.getSrcoffCnt1Size + rlc.getModOrd1Size +
      rlc.getImpNameSize + rlc.getAdditiveSize
  | .entry =>
    R32Rlc.getSrcFlagsSize + rlc.getSrcoffCnt1Size + R32Rlc.getOrd1EntrySize + rlc.getAdditiveSize

/-- The size of a fixup record. -/
def getRelocSizeRlc (buffer : List UInt8) (minRlc : Int) : Run Int := do
  let rlc ← readRlc buffer minRlc
  if rlc.nrStype &&& nrChain = nrChain then
    let count1 ← getSrcoffCnt1Rlc buffer minRlc
    pure (count1 * 2 + rlc.fixedSize)
  else
    pure rlc.fixedSize

/-!
## Well-formed fixup records

The records of the format as values with an encoding.  The widths of the fields
are those of the record descriptions in `fixup.c`; the comparison with the
widths that the size functions compute is the content of this module.
-/

namespace R32Rlc

variable (rlc : R32Rlc)

/-- Width of the object number, module ordinal or entry ordinal. -/
def objModWidth : Nat :=
  if rlc.nrFlags &&& nr16ObjMod = nr16ObjMod then 2 else 1

/-- Width of the target field.  A 16-bit segment fixup needs no target offset,
and the short ordinal exists in imports by ordinal only. -/
def targetWidth : Nat :=
  match rlc.refType with
  | .internal =>
    if rlc.nrStype &&& nrsTyp = nrsSeg then 0
    else if rlc.nrFlags &&& nr32BitOff = nr32BitOff then 4
    else 2
  | .ordinal =>
    if rlc.nrFlags &&& nr8BitOrd = nr8BitOrd then 1
    else if rlc.nrFlags &&& nr32BitOff = nr32BitOff then 4
    else 2
  | .name => if rlc.nrFlags &&& nr32BitOff = nr32BitOff then 4 else 2
  | .entry => 0

/-- Width of the additive value, which every external record may have. -/
def additiveWidth : Nat :=
  match rlc.refType with
  | .internal => 0
  | .ordinal | .name | .entry =>
    if rlc.nrFlags &&& nrAdd = nrAdd then
      if rlc.nrFlags &&& nr32BitAdd = nr32BitAdd then 4 else 2
    else 0

end R32Rlc

/-- The low bytes of a value. -/
def fieldBytes (width : Nat) (value : UInt32) : List UInt8 := (longBytes value).take width

/-- A well-formed fixup record. -/
structure FixupRecord extends R32Rlc where
  sources : List UInt16
  objMod : UInt16
  target : UInt32
  additive : UInt32
  sources_single : ¬ toR32Rlc.HasSourceList → sources.length = 1
  sources_length_le : sources.length ≤ 255
  objMod_fits : objMod.toNat < 256 ^ toR32Rlc.objModWidth
  target_fits : target.toNat < 256 ^ toR32Rlc.targetWidth
  additive_fits : additive.toNat < 256 ^ toR32Rlc.additiveWidth

namespace FixupRecord

variable (record : FixupRecord)

/-- The field behind the flags: a source offset or the length of the list. -/
def sourceField : List UInt8 :=
  if record.HasSourceList then [UInt8.ofNat record.sources.length]
  else record.sources.flatMap wordBytes

/-- The source offsets at the end of a record with a source list. -/
def sourceList : List UInt8 :=
  if record.HasSourceList then record.sources.flatMap wordBytes else []

/-- The bytes of a record. -/
def encode : List UInt8 := record.nrStype :: record.nrFlags :: (record.sourceField ++
      (fieldBytes record.objModWidth record.objMod.toUInt32 ++
        (fieldBytes record.targetWidth record.target ++
          (fieldBytes record.additiveWidth record.additive ++ record.sourceList))))

/-- The size functions compute the widths that the record really has: an
internal record is no segment fixup and has no short ordinal, and an entry
table reference has a 16-bit ordinal. -/
def PlainWidths : Prop :=
  match record.refType with
  | .internal =>
    record.nrStype &&& nrsTyp ≠ nrsSeg ∧ record.nrFlags &&& nr8BitOrd ≠ nr8BitOrd
  | .entry => record.nrFlags &&& nr16ObjMod = nr16ObjMod
  | .ordinal | .name => True

instance : Decidable record.PlainWidths := by
  unfold PlainWidths
  cases record.refType <;> exact inferInstance

end FixupRecord

theorem objModWidth_le (rlc : R32Rlc) : rlc.objModWidth ≤ 4 := by
  unfold R32Rlc.objModWidth
  split <;> omega

theorem targetWidth_le (rlc : R32Rlc) : rlc.targetWidth ≤ 4 := by
  unfold R32Rlc.targetWidth
  repeat' split
  all_goals omega

theorem additiveWidth_le (rlc : R32Rlc) : rlc.additiveWidth ≤ 4 := by
  unfold R32Rlc.additiveWidth
  repeat' split
  all_goals omega

theorem fieldBytes_length {width : Nat} (value : UInt32)
    (narrow : width ≤ 4) : (fieldBytes width value).length = width := by
  rw [fieldBytes, List.length_take, longBytes_length]
  exact Nat.min_eq_left narrow

namespace FixupRecord

variable (record : FixupRecord)

/-- The length of a record without its source list. -/
def plainLength : Nat := R32Rlc.getSrcFlagsSize + record.getSrcoffCnt1Size + record.objModWidth +
    record.targetWidth + record.additiveWidth

theorem sourceField_length :
    record.sourceField.length = record.getSrcoffCnt1Size := by
  unfold sourceField R32Rlc.getSrcoffCnt1Size
  by_cases listed : record.HasSourceList
  · rw [if_pos listed, if_neg (not_not_intro listed)]
    rfl
  · rw [if_neg listed, if_pos listed, flatMap_length wordBytes_length, record.sources_single listed]

theorem encode_length :
    record.encode.length = record.plainLength + record.sourceList.length := by
  simp only [encode, plainLength, R32Rlc.getSrcFlagsSize, List.length_cons,
    List.length_append, sourceField_length,
    fieldBytes_length _ (objModWidth_le _),
    fieldBytes_length _ (targetWidth_le _),
    fieldBytes_length _ (additiveWidth_le _)]
  omega

theorem sourceList_length : record.sourceList.length =
      if record.HasSourceList then record.sources.length * 2 else 0 := by
  unfold sourceList
  split
  · rw [flatMap_length wordBytes_length, Nat.mul_comm]
  · rfl

theorem fixedSize_eq_plainLength_iff :
    record.fixedSize = record.plainLength ↔ record.PlainWidths := by
  unfold R32Rlc.fixedSize plainLength PlainWidths R32Rlc.objModWidth
    R32Rlc.targetWidth R32Rlc.additiveWidth R32Rlc.getModOrd1Size
    R32Rlc.getImpOrd1Size R32Rlc.getImpNameSize R32Rlc.getOrd1EntrySize
    R32Rlc.getAdditiveSize
  cases record.refType with
  | internal =>
    by_cases segment : record.nrStype &&& nrsTyp = nrsSeg <;>
      by_cases short : record.nrFlags &&& nr8BitOrd = nr8BitOrd <;>
      by_cases long : record.nrFlags &&& nr32BitOff = nr32BitOff <;>
      simp [segment, short, long]
  | ordinal =>
    by_cases long : record.nrFlags &&& nr32BitOff = nr32BitOff <;>
      simp [long]
  | name => simp
  | entry =>
    by_cases wide : record.nrFlags &&& nr16ObjMod = nr16ObjMod <;>
      simp [wide]

theorem getRelocSizeRlc_encode {buffer rest : List UInt8} {minRlc : Int}
    (stands : RestAt buffer minRlc (record.encode ++ rest)) :
    getRelocSizeRlc buffer minRlc = .ok (record.sourceList.length + record.fixedSize : Nat) := by
  have head : readRlc buffer minRlc = .ok record.toR32Rlc := by
    simp only [readRlc, stands.readByte, stands.tail.readByte, bind_ok, pure_eq_ok]
  rw [record.sourceList_length]
  simp only [getRelocSizeRlc, head, bind_ok]
  by_cases listed : record.HasSourceList
  · have count : getSrcoffCnt1Rlc buffer minRlc = .ok (record.sources.length : Int) := by
      have field := stands.tail.tail
      simp only [sourceField, if_pos listed, List.singleton_append] at field
      have read := field.readByte
      rw [show minRlc + 1 + 1 = minRlc + 2 by omega] at read
      have bound := record.sources_length_le
      simp only [getSrcoffCnt1Rlc, head, bind_ok, listed, read, pure_eq_ok,
        ne_eq, not_true_eq_false, if_false]
      congr 1
      simp only [UInt8.toNat_ofNat']
      omega
    rw [if_pos listed, if_pos listed, count]
    simp
  · rw [if_neg listed, if_neg listed]
    simp

theorem getRelocSizeRlc_eq_length_iff {buffer rest : List UInt8} {minRlc : Int}
    (stands : RestAt buffer minRlc (record.encode ++ rest)) :
    getRelocSizeRlc buffer minRlc = .ok (record.encode.length : Int) ↔
      record.PlainWidths := by
  rw [record.getRelocSizeRlc_encode stands, record.encode_length,
    ← record.fixedSize_eq_plainLength_iff]
  rw [Except.ok.injEq]
  omega

end FixupRecord

/-!
## Walking the fixup records of a page

Three functions walk the records of a page with the same loop: the count of
the import fixups, their conversion and the application of the internal fixups.
The loop is stated once, over the action that is taken at a record.
-/

namespace LXModule

variable {σ : Type} (lxMod : LXModule)

/-- The loop over the records from one offset of the fixup record table to
another.  Every record has a positive size, so the distance to the end bounds
the number of turns. -/
def fixupLoop (visit : σ → Int → Run σ) (pgEndOffsFix : Int) : Nat → Int → σ → Run (σ × Int)
  | 0, fixupOffset, state => pure (state, fixupOffset)
  | turns + 1, fixupOffset, state =>
    if fixupOffset < pgEndOffsFix then do
      let minRlc := lxMod.getFixupRecTblObj fixupOffset
      let state ← visit state minRlc
      let size ← getRelocSizeRlc lxMod.fixupSection minRlc
      let fixupOffset ← addInt fixupOffset size
      fixupLoop visit pgEndOffsFix turns fixupOffset state
    else pure (state, fixupOffset)

/-- Walk the records between two offsets. -/
def walkRecords (visit : σ → Int → Run σ) (pgOffsFix pgEndOffsFix : Int)
    (state : σ) : Run (σ × Int) :=
  lxMod.fixupLoop visit pgEndOffsFix (pgEndOffsFix - pgOffsFix).toNat pgOffsFix state

/-- Walk the records of a page. -/
def walkPage (visit : σ → Int → Run σ) (pageNr : Int) (state : σ) :
    Run (σ × Int) := do
  let pgOffsFix ← lxMod.getFixupPgTblOffs pageNr
  let pgEndOffsFix ← lxMod.getFixupPgTblOffs (pageNr + 1)
  lxMod.walkRecords visit pgOffsFix pgEndOffsFix state

/-- The records that the loop comes to, in order, and the offset at which it
stops. -/
inductive RecordChain (pgEndOffsFix : Int) : Int → List Int → Int → Prop where
  | stop {fixupOffset : Int} (reached : pgEndOffsFix ≤ fixupOffset) :
      RecordChain pgEndOffsFix fixupOffset [] fixupOffset
  | step {fixupOffset size next last : Int} {records : List Int}
      (before : fixupOffset < pgEndOffsFix)
      (sized : getRelocSizeRlc lxMod.fixupSection (lxMod.getFixupRecTblObj fixupOffset) = .ok size)
      (advanced : addInt fixupOffset size = .ok next)
      (chain : RecordChain pgEndOffsFix next records last) :
      RecordChain pgEndOffsFix fixupOffset (lxMod.getFixupRecTblObj fixupOffset :: records) last

end LXModule

theorem R32Rlc.fixedSize_ge (rlc : R32Rlc) : 5 ≤ rlc.fixedSize := by
  have source : 1 ≤ rlc.getSrcoffCnt1Size := by
    unfold R32Rlc.getSrcoffCnt1Size
    split <;> omega
  have modOrd : 1 ≤ rlc.getModOrd1Size := by
    unfold R32Rlc.getModOrd1Size
    split <;> omega
  have impOrd : 1 ≤ rlc.getImpOrd1Size := by
    unfold R32Rlc.getImpOrd1Size
    repeat' split
    all_goals omega
  have impName : 2 ≤ rlc.getImpNameSize := by
    unfold R32Rlc.getImpNameSize
    split <;> omega
  unfold R32Rlc.fixedSize R32Rlc.getSrcFlagsSize R32Rlc.getOrd1EntrySize
  cases rlc.refType <;> simp only <;> omega

theorem getRelocSizeRlc_pos {buffer : List UInt8} {minRlc size : Int}
    (sized : getRelocSizeRlc buffer minRlc = .ok size) : 0 < size := by
  obtain ⟨rlc, read, sized⟩ := bind_eq_ok_iff.mp sized
  have fixed := rlc.fixedSize_ge
  by_cases listed : rlc.nrStype &&& nrChain = nrChain
  · rw [if_pos listed] at sized
    obtain ⟨count, counted, sized⟩ := bind_eq_ok_iff.mp sized
    have nonnegative : 0 ≤ count := by
      rw [getSrcoffCnt1Rlc, read, bind_ok, if_neg (not_not_intro listed)] at counted
      obtain ⟨byte, _, counted⟩ := bind_eq_ok_iff.mp counted
      cases counted
      omega
    cases sized
    omega
  · rw [if_neg listed] at sized
    cases sized
    omega

namespace LXModule

variable {σ : Type} {lxMod : LXModule} {pgEndOffsFix : Int}

theorem fixupLoop_of_recordChain {fixupOffset last : Int}
    {records : List Int} (visit : σ → Int → Run σ)
    (chain : lxMod.RecordChain pgEndOffsFix fixupOffset records last) :
    ∀ (turns : Nat) (state : σ), (pgEndOffsFix - fixupOffset).toNat ≤ turns →
        lxMod.fixupLoop visit pgEndOffsFix turns fixupOffset state =
          (records.foldlM visit state >>= fun state => pure (state, last)) := by
  induction chain with
  | stop reached =>
    intro turns state _
    cases turns with
    | zero => rfl
    | succ turns =>
      rw [fixupLoop, if_neg (not_lt.mpr reached)]
      rfl
  | @step fixupOffset size next last records before sized advanced chain ih =>
    intro turns state enough
    have positive := getRelocSizeRlc_pos sized
    obtain ⟨nextEq, _⟩ := addInt_eq_ok_iff.mp advanced
    cases turns with
    | zero => omega
    | succ turns =>
      rw [fixupLoop, if_pos before]
      simp only [sized, advanced, bind_ok, List.foldlM_cons, bind_assoc]
      congr 1
      funext state
      exact ih turns state (by omega)

theorem recordChain_of_fixupLoop (visit : σ → Int → Run σ) :
    ∀ (turns : Nat) (fixupOffset : Int) (state : σ) (result : σ × Int),
      (pgEndOffsFix - fixupOffset).toNat ≤ turns →
        lxMod.fixupLoop visit pgEndOffsFix turns fixupOffset state = .ok result →
          ∃ records, lxMod.RecordChain pgEndOffsFix fixupOffset records
            result.2 := by
  intro turns
  induction turns with
  | zero =>
    intro fixupOffset state result enough returned
    cases returned
    exact ⟨[], .stop (by omega)⟩
  | succ turns ih =>
    intro fixupOffset state result enough returned
    rw [fixupLoop] at returned
    by_cases before : fixupOffset < pgEndOffsFix
    · rw [if_pos before] at returned
      obtain ⟨state, _, returned⟩ := bind_eq_ok_iff.mp returned
      obtain ⟨size, sized, returned⟩ := bind_eq_ok_iff.mp returned
      obtain ⟨next, advanced, returned⟩ := bind_eq_ok_iff.mp returned
      have positive := getRelocSizeRlc_pos sized
      obtain ⟨nextEq, _⟩ := addInt_eq_ok_iff.mp advanced
      obtain ⟨records, chain⟩ := ih next state result (by omega) returned
      exact ⟨_, .step before sized advanced chain⟩
    · rw [if_neg before] at returned
      cases returned
      exact ⟨[], .stop (not_lt.mp before)⟩

theorem walkRecords_eq_ok_iff {visit : σ → Int → Run σ} {pgOffsFix : Int}
    {state state' : σ} {last : Int} :
    lxMod.walkRecords visit pgOffsFix pgEndOffsFix state = .ok (state', last) ↔
      ∃ records, lxMod.RecordChain pgEndOffsFix pgOffsFix records last ∧
        records.foldlM visit state = .ok state' := by
  constructor
  · intro returned
    obtain ⟨records, chain⟩ := recordChain_of_fixupLoop visit _ _ _ _ le_rfl returned
    rw [walkRecords, fixupLoop_of_recordChain visit chain _ _ le_rfl, bind_eq_ok_iff] at returned
    obtain ⟨value, folded, equal⟩ := returned
    cases equal
    exact ⟨records, chain, folded⟩
  · rintro ⟨records, chain, folded⟩
    rw [walkRecords, fixupLoop_of_recordChain visit chain _ _ le_rfl, folded]
    rfl

end LXModule

/-!
## Fixup pages

A fixup page is a concatenation of records.  Its walk visits the starts of the
records when, and only when, the size functions know the width of every field
of every record.
-/

/-- The bytes of a fixup page. -/
def encodePage (page : List FixupRecord) : List UInt8 := page.flatMap FixupRecord.encode

/-- The pointers to the records of a page whose first record is at `start`. -/
def recordStarts : Int → List FixupRecord → List Int
  | _, [] => []
  | start, record :: page =>
    start :: recordStarts (start + record.encode.length) page

/-- The fixup tables describe a page of the module as these records. -/
structure IsFixupPage (lxMod : LXModule) (pageNr pgOffsFix : Int)
    (page : List FixupRecord) : Prop where
  pgOffs : lxMod.getFixupPgTblOffs pageNr = .ok pgOffsFix
  pgEndOffs : lxMod.getFixupPgTblOffs (pageNr + 1) = .ok (pgOffsFix + (encodePage page).length)
  stands : ∃ after, RestAt lxMod.fixupSection
    (lxMod.getFixupRecTblObj pgOffsFix) (encodePage page ++ after)

/-- Every record of the page has the size of its encoding, every walk over the
page acts on the starts of the records, in order, and stops at the end of the
page. -/
def WalksRecordStarts (lxMod : LXModule) (pageNr pgOffsFix : Int)
    (page : List FixupRecord) : Prop :=
  let starts := recordStarts (lxMod.getFixupRecTblObj pgOffsFix) page
  (∀ found ∈ starts.zip page, getRelocSizeRlc lxMod.fixupSection found.1 =
      .ok (found.2.encode.length : Int)) ∧
  ∀ (σ : Type) (visit : σ → Int → Run σ) (state : σ),
    lxMod.walkPage visit pageNr state = (starts.foldlM visit state >>= fun state =>
        pure (state, pgOffsFix + (encodePage page).length))

section

variable {lxMod : LXModule}

theorem FixupRecord.encode_length_pos (record : FixupRecord) :
    0 < record.encode.length := by
  exact Nat.succ_pos _

theorem encodePage_cons (record : FixupRecord) (page : List FixupRecord) :
    encodePage (record :: page) = record.encode ++ encodePage page := rfl

theorem getFixupRecTblObj_add (fixupOffset : Int) (length : Nat) :
    lxMod.getFixupRecTblObj (fixupOffset + length) =
      lxMod.getFixupRecTblObj fixupOffset + length := by
  unfold LXModule.getFixupRecTblObj
  omega

theorem LXModule.getFixupPgTblOffs_lt {pageNr pgOffsFix : Int}
    (found : lxMod.getFixupPgTblOffs pageNr = .ok pgOffsFix) :
    -2147483648 ≤ pgOffsFix ∧ pgOffsFix < 2147483648 := by
  obtain ⟨offset, _, equal⟩ := bind_eq_ok_iff.mp found
  cases equal
  have bound := offset.toNat_lt
  unfold signedLong
  split <;> omega

theorem getFixupRecTblObj_inj {fixupOffset fixupOffset' : Int}
    (equal : lxMod.getFixupRecTblObj fixupOffset =
      lxMod.getFixupRecTblObj fixupOffset') : fixupOffset = fixupOffset' := by
  unfold LXModule.getFixupRecTblObj at equal
  omega

theorem start_of_recordChain_recordStarts {pgEndOffsFix next start : Int} {page : List FixupRecord}
    (chain : lxMod.RecordChain pgEndOffsFix next (recordStarts (lxMod.getFixupRecTblObj start) page)
      (start + (encodePage page).length)) :
    next = start := by
  cases page with
  | nil =>
    generalize lastEq : start + ((encodePage []).length : Int) = last at chain
    cases chain
    simpa [encodePage] using lastEq.symm
  | cons record page =>
    generalize recordEq : lxMod.getFixupRecTblObj start = first at chain
    cases chain
    exact (getFixupRecTblObj_inj recordEq).symm

theorem recordChain_recordStarts_iff (page : List FixupRecord) :
    ∀ {fixupOffset : Int} {after : List UInt8},
      RestAt lxMod.fixupSection (lxMod.getFixupRecTblObj fixupOffset) (encodePage page ++ after) →
      -2147483648 ≤ fixupOffset →
      fixupOffset + (encodePage page).length < 2147483648 →
        (lxMod.RecordChain (fixupOffset + (encodePage page).length) fixupOffset
            (recordStarts (lxMod.getFixupRecTblObj fixupOffset) page)
            (fixupOffset + (encodePage page).length) ↔
          ∀ record ∈ page, record.PlainWidths) := by
  induction page with
  | nil =>
    intro fixupOffset after _ _ _
    simp only [encodePage, List.flatMap_nil, List.length_nil, Nat.cast_zero,
      add_zero, recordStarts, List.not_mem_nil, false_implies, implies_true,
      iff_true]
    exact .stop le_rfl
  | cons record page ih =>
    intro fixupOffset after stands lower upper
    rw [encodePage_cons, List.append_assoc] at stands
    rw [encodePage_cons, List.length_append] at upper ⊢
    have sizeIff := record.getRelocSizeRlc_eq_length_iff stands
    have positive := record.encode_length_pos
    have behind := stands.skip
    rw [← getFixupRecTblObj_add] at behind
    have tailIff := ih behind (by omega) (by omega)
    have endEq : fixupOffset + ((record.encode.length + (encodePage page).length : Nat) : Int) =
        fixupOffset + record.encode.length + (encodePage page).length := by
      omega
    simp only [recordStarts, List.forall_mem_cons]
    rw [endEq, ← tailIff, ← sizeIff, ← getFixupRecTblObj_add]
    constructor
    · intro chain
      cases chain with
      | @step _ size next _ _ _ sized advanced chain =>
        obtain ⟨nextEq, _⟩ := addInt_eq_ok_iff.mp advanced
        have reached := start_of_recordChain_recordStarts chain
        have sizeEq : size = record.encode.length := by omega
        subst sizeEq
        subst nextEq
        exact ⟨sized, chain⟩
    · rintro ⟨sized, chain⟩
      refine .step (by omega) sized ?_ chain
      rw [addInt_eq_ok_iff]
      omega

theorem sizes_eq_iff (page : List FixupRecord) : ∀ {start : Int} {after : List UInt8},
      RestAt lxMod.fixupSection start (encodePage page ++ after) →
        ((∀ found ∈ (recordStarts start page).zip page,
            getRelocSizeRlc lxMod.fixupSection found.1 = .ok (found.2.encode.length : Int)) ↔
          ∀ record ∈ page, record.PlainWidths) := by
  induction page with
  | nil => simp [recordStarts]
  | cons record page ih =>
    intro start after stands
    rw [encodePage_cons, List.append_assoc] at stands
    simp only [recordStarts, List.zip_cons_cons, List.forall_mem_cons]
    rw [record.getRelocSizeRlc_eq_length_iff stands, ih stands.skip]

/-- The walkers visit the record starts of a page and stop at its end exactly
when the page holds no segment fixup, no internal record with the short ordinal
flag and no entry table reference with an 8-bit ordinal. -/
theorem walksRecordStarts_iff_plainWidths {pageNr pgOffsFix : Int} {page : List FixupRecord}
    (isPage : IsFixupPage lxMod pageNr pgOffsFix page) :
    WalksRecordStarts lxMod pageNr pgOffsFix page ↔
      ∀ record ∈ page, record.PlainWidths := by
  obtain ⟨after, stands⟩ := isPage.stands
  obtain ⟨lower, _⟩ := LXModule.getFixupPgTblOffs_lt isPage.pgOffs
  obtain ⟨_, upper⟩ := LXModule.getFixupPgTblOffs_lt isPage.pgEndOffs
  have chainIff := recordChain_recordStarts_iff page stands lower upper
  rw [WalksRecordStarts, sizes_eq_iff page stands]
  constructor
  · exact And.left
  · intro plain
    refine ⟨plain, ?_⟩
    intro σ visit state
    rw [LXModule.walkPage, isPage.pgOffs, isPage.pgEndOffs]
    exact LXModule.fixupLoop_of_recordChain visit (chainIff.mpr plain) _ state le_rfl

end

/-- A module whose only page has the given fixup records. -/
def onePageModule (records : List UInt8) : LXModule := { (default : LXModule) with
    lxHeadE32Exe := { (default : E32Exe) with e32Frectab := 8 }
    fixupSection := longBytes 0 ++ longBytes (UInt32.ofNat records.length) ++ records }

/-- A 32-bit offset fixup of object 2. -/
def offsetFixup : FixupRecord where
  nrStype := 0x07
  nrFlags := 0x00
  sources := [4]
  objMod := 2
  target := 0x30
  additive := 0
  sources_single := by decide
  sources_length_le := by decide
  objMod_fits := by decide
  target_fits := by decide
  additive_fits := by decide

/-- A 16-bit segment fixup of object 1, which has no target offset. -/
def segmentFixup : FixupRecord where
  nrStype := 0x02
  nrFlags := 0x00
  sources := [4]
  objMod := 1
  target := 0
  additive := 0
  sources_single := by decide
  sources_length_le := by decide
  objMod_fits := by decide
  target_fits := by decide
  additive_fits := by decide

theorem isFixupPage_offsetFixup :
    IsFixupPage (onePageModule [0x07, 0x00, 0x04, 0x00, 0x02, 0x30, 0x00]) 1 0 [offsetFixup] where
  pgOffs := by decide
  pgEndOffs := by decide
  stands := ⟨[], restAt_append [0, 0, 0, 0, 7, 0, 0, 0] _⟩

theorem isFixupPage_segmentFixup :
    IsFixupPage (onePageModule [0x02, 0x00, 0x04, 0x00, 0x01]) 1 0 [segmentFixup] where
  pgOffs := by decide
  pgEndOffs := by decide
  stands := ⟨[], restAt_append [0, 0, 0, 0, 5, 0, 0, 0] _⟩

/-- The walk over a page with one offset fixup visits it and stops behind
it. -/
theorem walksRecordStarts_offsetFixup : WalksRecordStarts
      (onePageModule [0x07, 0x00, 0x04, 0x00, 0x02, 0x30, 0x00]) 1 0
      [offsetFixup] :=
  (walksRecordStarts_iff_plainWidths isFixupPage_offsetFixup).mpr (by decide)

/-- A segment fixup of five bytes is taken for one of seven, because the target
offset that it does not have is counted. -/
theorem not_walksRecordStarts_segmentFixup :
    IsFixupPage (onePageModule [0x02, 0x00, 0x04, 0x00, 0x01]) 1 0 [segmentFixup] ∧
      getRelocSizeRlc (onePageModule [0x02, 0x00, 0x04, 0x00, 0x01]).fixupSection 8 = .ok 7 ∧
      ¬ WalksRecordStarts (onePageModule [0x02, 0x00, 0x04, 0x00, 0x01]) 1 0
        [segmentFixup] := by
  refine ⟨isFixupPage_segmentFixup, by decide, ?_⟩
  rintro ⟨sizes, _⟩
  exact absurd (sizes (8, segmentFixup) (List.mem_cons_self ..)) (by decide)

end OsFree.Lx
