import OsFree.Lx.Fixup
import OsFree.Machine.Fold

/-!
# Conversion of the import fixups

The import fixups of a module are counted by one walk over all objects and
converted by another.  The array of fixups is modelled by the stores into it, in
order, each with the index that it uses.
-/

namespace OsFree.Lx

open Machine

/-- The array of import fixups while it is filled. -/
structure FixupFill where
  fixupCounter : UInt32
  stores : List (UInt32 × IXFFixupEntry)
  deriving DecidableEq

/-- The fixup members of a converted module. -/
structure FixupTable where
  cbFixups : UInt32
  stores : List (UInt32 × IXFFixupEntry)
  deriving DecidableEq

namespace LXModule

variable (lxMod : LXModule)

/-- Go through the pages of an object.  The action gets the index of the page
in the object and its number among all pages. -/
def forPages {σ : Type} (action : σ → Nat → Int → Run σ) (lxObj : Int) (state : σ) : Run σ := do
  let o32Pagemap ← lxMod.o32Pagemap lxObj
  let o32Mapsize ← lxMod.o32Mapsize lxObj
  let startpage := signedLong o32Pagemap
  let lastpage := signedLong (o32Pagemap + o32Mapsize)
  (List.range (lastpage - startpage).toNat).foldlM
    (fun state k => action state k (startpage + k)) state

/-- Go through the objects of the module. -/
def forObjects {σ : Type} (action : σ → Int → Run σ) (state : σ) : Run σ :=
  (List.range lxMod.getObjNum.toNat).foldlM
    (fun state i => action state (getObj (UInt32.ofNat (i + 1)))) state

/-- What the counting walk does at a record. -/
def countImpFixup (fixups : UInt32) (minRlc : Int) : Run UInt32 := do
  let rlc ← readRlc lxMod.fixupSection minRlc
  match rlc.refType with
  | .internal | .entry => pure fixups
  | .ordinal | .name => pure (fixups + 1)

/-- The number of import fixups of an object. -/
def calcImpFixupObjLx (lxObj : Int) : Run UInt32 := lxMod.forPages (fun fixups _ pageNr => do
    let (fixups, _) ← lxMod.walkPage lxMod.countImpFixup pageNr fixups
    pure fixups) lxObj 0

/-- Address of a page of an object that starts at `start`. -/
def pageAddress (start : UInt32) (page : Nat) : UInt32 :=
  start + lxMod.getE32Pagesize * UInt32.ofNat page

/-- The imported entry that a record asks for. -/
def importEntry (rlc : R32Rlc) (minRlc : Int) : Run IXFModuleEntry := do
  let modNr ← getModOrd1Rlc lxMod.fixupSection minRlc
  let importOrd ← getImpOrd1Rlc lxMod.fixupSection minRlc
  if rlc.refType = .name then
    let pasImpProcName ← lxMod.getImpProcName (signedLong importOrd)
    let importName ← copyPasStr lxMod.fixupSection pasImpProcName
    let modName ← lxMod.getImpModNameCstr modNr.toNat
    pure
      { functionName := some (cString importName)
        address := none
        moduleName := some modName
        ordinal := 0 }
  else
    let modName ← lxMod.getImpModNameCstr modNr.toNat
    pure
      { functionName := none
        address := none
        moduleName := some modName
        ordinal := importOrd.toInt32 }

/-- What the converting walk does at a record. -/
def convertImpFixup (vmStartOfPage startOfPage : UInt32) (fill : FixupFill)
    (minRlc : Int) : Run FixupFill := do
  let rlc ← readRlc lxMod.fixupSection minRlc
  match rlc.refType with
  | .internal | .entry => pure fill
  | .ordinal | .name =>
    let importEntry ← lxMod.importEntry rlc minRlc
    let srcoffCnt1 ← getSrcoffCnt1Rlc lxMod.fixupSection minRlc
    let fixup :=
      { srcAddress := startOfPage + UInt32.ofInt srcoffCnt1
        srcVmAddress := vmStartOfPage + UInt32.ofInt srcoffCnt1
        importEntry := importEntry }
    pure
      { fixupCounter := fill.fixupCounter + 1
        stores := fill.stores ++ [(fill.fixupCounter, fixup)] }

/-- Convert the import fixups of an object. -/
def convertImpFixupObjLx (lxObj : Int) (fill : FixupFill) : Run FixupFill :=
  lxMod.forPages (fun fill k pageNr => do
    let o32Reserved ← lxMod.o32Reserved lxObj
    let o32Base ← lxMod.o32Base lxObj
    let (fill, _) ← lxMod.walkPage (lxMod.convertImpFixup (lxMod.pageAddress o32Reserved k)
        (lxMod.pageAddress o32Base k)) pageNr fill
    pure fill) lxObj fill

/-- Convert the fixup table of a module. -/
def convertFixupTableToBFF : Run FixupTable := do
  let cbFixups ← lxMod.forObjects (fun cbFixups lxObj => do
    let fixups ← lxMod.calcImpFixupObjLx lxObj
    pure (cbFixups + fixups)) 0
  if cbFixups = 0 then pure { cbFixups := 0, stores := [] }
  else
    let fill ← lxMod.forObjects (fun fill lxObj => lxMod.convertImpFixupObjLx lxObj fill)
      { fixupCounter := 0, stores := [] }
    pure { cbFixups, stores := fill.stores }

end LXModule

/-!
## Application of the internal fixups

The walk of `loadobj.c` over the fixup records of the loaded objects.  The
object memory is modelled by the patches made in it, in order, each with its
address and the 32-bit value stored there.
-/

/-- A patch of the loaded image: an address and the long stored there. -/
structure Patch where
  vmSource : UInt32
  vmTarget : UInt32
  deriving DecidableEq

namespace LXModule

variable (lxMod : LXModule)

/-- Apply an internal fixup.  The additive value is read but not used. -/
def applyInternalFixup (vmStartOfPage : UInt32) (patches : List Patch)
    (minRlc : Int) : Run (List Patch) := do
  let srcoffCnt1 ← getSrcoffCnt1Rlc lxMod.fixupSection minRlc
  let object1 ← getModOrd1Rlc lxMod.fixupSection minRlc
  let _addit ← getAdditiveRlc lxMod.fixupSection minRlc
  let vmStartTargetObj ← lxMod.o32Reserved (getObj object1)
  let trgoffs ← getImpOrd1Rlc lxMod.fixupSection minRlc
  pure (patches ++
    [{ vmSource := vmStartOfPage + UInt32.ofInt srcoffCnt1
       vmTarget := vmStartTargetObj + trgoffs }])

/-- What the applying walk does at a record.  An entry table reference is left
alone, and of an import only the names are looked up. -/
def applyFixup (vmStartOfPage : UInt32) (patches : List Patch)
    (minRlc : Int) : Run (List Patch) := do
  let rlc ← readRlc lxMod.fixupSection minRlc
  match rlc.refType with
  | .internal => lxMod.applyInternalFixup vmStartOfPage patches minRlc
  | .entry => pure patches
  | .ordinal =>
    let modNr ← getModOrd1Rlc lxMod.fixupSection minRlc
    let _modName ← lxMod.getImpModNameCstr modNr.toNat
    pure patches
  | .name =>
    let modNr ← getModOrd1Rlc lxMod.fixupSection minRlc
    let importNameOffs ← getImpOrd1Rlc lxMod.fixupSection minRlc
    let pasImpProcName ← lxMod.getImpProcName (signedLong importNameOffs)
    let _importName ← copyPasStr lxMod.fixupSection pasImpProcName
    let _modName ← lxMod.getImpModNameCstr modNr.toNat
    pure patches

/-- Apply the fixups of an object. -/
def doFixupObjLx (lxObj : Int) (patches : List Patch) : Run (List Patch) :=
  lxMod.forPages (fun patches k pageNr => do
    let o32Reserved ← lxMod.o32Reserved lxObj
    let (patches, _) ← lxMod.walkPage
      (lxMod.applyFixup (lxMod.pageAddress o32Reserved k)) pageNr patches
    pure patches) lxObj patches

/-- Apply the fixups of all objects. -/
def doFixupCodeDataLx : Run (List Patch) :=
  lxMod.forObjects (fun patches lxObj => lxMod.doFixupObjLx lxObj patches) []

end LXModule

/-!
## The counted and the converted import fixups

Both walks of the conversion come to the same records.  They are described once,
as the list of the records of a module with the object and the page that each
belongs to; either walk is then a loop over this list.
-/

/-- A fixup record of a module with the place of its page. -/
structure RecordPlace where
  lxObj : Int
  page : Nat
  minRlc : Int
  deriving DecidableEq

namespace LXModule

variable (lxMod : LXModule)

/-- The walk over a page comes to these records. -/
def PageRecords (pageNr : Int) (records : List Int) : Prop :=
  ∃ pgOffsFix pgEndOffsFix last, lxMod.getFixupPgTblOffs pageNr = .ok pgOffsFix ∧
      lxMod.getFixupPgTblOffs (pageNr + 1) = .ok pgEndOffsFix ∧
        lxMod.RecordChain pgEndOffsFix pgOffsFix records last

/-- The walk over an object with this page map comes to these pages, each with
its records. -/
def ObjectPages (lxObj : Int) (o32Pagemap o32Mapsize : UInt32)
    (pages : List (List RecordPlace)) : Prop :=
  List.Forall₂ (fun k places => ∃ records,
      lxMod.PageRecords (signedLong o32Pagemap + (k : Nat)) records ∧
        places = records.map (RecordPlace.mk lxObj k))
    (List.range (signedLong (o32Pagemap + o32Mapsize) - signedLong o32Pagemap).toNat) pages

/-- The walk over an object comes to these records. -/
def ObjectRecords (lxObj : Int) (places : List RecordPlace) : Prop :=
  ∃ o32Pagemap o32Mapsize pages, lxMod.o32Pagemap lxObj = .ok o32Pagemap ∧
      lxMod.o32Mapsize lxObj = .ok o32Mapsize ∧
        lxMod.ObjectPages lxObj o32Pagemap o32Mapsize pages ∧ places = pages.flatten

/-- The walk over the objects of a module comes to these records. -/
def ModuleRecords (places : List RecordPlace) : Prop := ∃ objects, List.Forall₂
      (fun i => lxMod.ObjectRecords (getObj (UInt32.ofNat (i + 1))))
      (List.range lxMod.getObjNum.toNat) objects ∧ places = objects.flatten

/-- The record is an import. -/
def isImport (minRlc : Int) : Bool :=
  match readRlc lxMod.fixupSection minRlc with
  | .ok rlc =>
    match rlc.refType with
    | .internal | .entry => false
    | .ordinal | .name => true
  | .error _ => false

/-- The number of imports among some records. -/
def importCount (places : List RecordPlace) : Nat :=
  places.countP fun place => lxMod.isImport place.minRlc

end LXModule

section

variable {σ : Type} {lxMod : LXModule}

theorem LXModule.PageRecords.walkPage {pageNr : Int} {records : List Int}
    (found : lxMod.PageRecords pageNr records) (visit : σ → Int → Run σ)
    (state : σ) :
    (lxMod.walkPage visit pageNr state >>= fun result => pure result.1) =
      records.foldlM visit state := by
  obtain ⟨pgOffsFix, pgEndOffsFix, last, pgOffs, pgEndOffs, chain⟩ := found
  rw [LXModule.walkPage, pgOffs, pgEndOffs, bind_ok, bind_ok, LXModule.walkRecords,
    LXModule.fixupLoop_of_recordChain visit chain _ _ le_rfl, bind_assoc]
  exact bind_pure _

theorem LXModule.exists_pageRecords {pageNr : Int} {visit : σ → Int → Run σ}
    {state : σ} {result : σ × Int}
    (returned : lxMod.walkPage visit pageNr state = .ok result) :
    ∃ records, lxMod.PageRecords pageNr records ∧
      records.foldlM visit state = .ok result.1 := by
  obtain ⟨pgOffsFix, pgOffs, returned⟩ := bind_eq_ok_iff.mp returned
  obtain ⟨pgEndOffsFix, pgEndOffs, returned⟩ := bind_eq_ok_iff.mp returned
  obtain ⟨records, chain, folded⟩ := LXModule.walkRecords_eq_ok_iff.mp returned
  exact ⟨records, ⟨_, _, _, pgOffs, pgEndOffs, chain⟩, folded⟩

theorem LXModule.RecordChain.readRlc {pgEndOffsFix pgOffsFix last : Int} {records : List Int}
    (chain : lxMod.RecordChain pgEndOffsFix pgOffsFix records last) :
    ∀ minRlc ∈ records, Returns (readRlc lxMod.fixupSection minRlc) := by
  induction chain with
  | stop _ => simp
  | step _ sized _ _ ih =>
    intro minRlc member
    rcases List.mem_cons.mp member with rfl | member
    · obtain ⟨rlc, read, _⟩ := bind_eq_ok_iff.mp sized
      exact ⟨rlc, read⟩
    · exact ih minRlc member

theorem LXModule.ObjectRecords.forPages {lxObj : Int} {places : List RecordPlace}
    (found : lxMod.ObjectRecords lxObj places)
    {action : σ → Nat → Int → Run σ} {inner : σ → RecordPlace → Run σ}
    (agree : ∀ k pageNr records, lxMod.PageRecords pageNr records →
      ∀ state, action state k pageNr = (records.map (RecordPlace.mk lxObj k)).foldlM inner state)
    (state : σ) :
    lxMod.forPages action lxObj state = places.foldlM inner state := by
  obtain ⟨o32Pagemap, o32Mapsize, pages, pagemap, mapsize, pageList, rfl⟩ := found
  rw [LXModule.forPages, pagemap, mapsize]
  refine foldlM_flatten_of_forall₂ ?_ pageList state
  rintro k places ⟨records, records_eq, rfl⟩
  exact agree k _ records records_eq

theorem LXModule.exists_objectRecords {lxObj : Int} {action : σ → Nat → Int → Run σ}
    (walks : ∀ state k pageNr state', action state k pageNr = .ok state' →
      ∃ records, lxMod.PageRecords pageNr records)
    {state state' : σ}
    (returned : lxMod.forPages action lxObj state = .ok state') :
    ∃ places, lxMod.ObjectRecords lxObj places := by
  obtain ⟨o32Pagemap, pagemap, returned⟩ := bind_eq_ok_iff.mp returned
  obtain ⟨o32Mapsize, mapsize, returned⟩ := bind_eq_ok_iff.mp returned
  have visited : ∃ pages, lxMod.ObjectPages lxObj o32Pagemap o32Mapsize pages :=
    exists_forall₂_of_foldlM (fun state k state' walked => by
      obtain ⟨records, found⟩ := walks _ _ _ _ walked
      exact ⟨_, records, found, rfl⟩) returned
  obtain ⟨pages, pageList⟩ := visited
  exact ⟨_, _, _, pages, pagemap, mapsize, pageList, rfl⟩

end

end OsFree.Lx
