import Mathlib.Data.List.Nodup
import OsFree.Lx.FixupTable

/-!
# Filling the array of import fixups

The array is sized by one walk and filled by another.  The index of the second
walk goes up by one at every import, so the stores hit every slot once as long
as the count has not wrapped around.
-/

namespace OsFree.Lx

open Machine

/-- The stores fill the array: as many as it has slots, each at an index that
it has, and each slot once. -/
def FixupTable.FillsExactly (table : FixupTable) : Prop :=
  table.stores.length = table.cbFixups.toNat ∧
    (∀ store ∈ table.stores, store.1 < table.cbFixups) ∧ ∀ index < table.cbFixups,
        table.stores.countP (fun store => store.1 = index) = 1

namespace LXModule

variable (lxMod : LXModule)

/-- The names that an import record refers to can be read: its fields are
inside the fixup section, its module ordinal counts from one and the strings
that it selects are inside the section too. -/
def ImportReadable (minRlc : Int) : Prop := ∃ rlc modNr importOrd,
    readRlc lxMod.fixupSection minRlc = .ok rlc ∧
      getModOrd1Rlc lxMod.fixupSection minRlc = .ok modNr ∧ modNr ≠ 0 ∧
        getImpOrd1Rlc lxMod.fixupSection minRlc = .ok importOrd ∧
          Returns (getSrcoffCnt1Rlc lxMod.fixupSection minRlc) ∧
            Returns (lxMod.getImpModNameCstr modNr.toNat) ∧ (rlc.refType = .name →
                ∃ pasImpProcName, lxMod.getImpProcName (signedLong importOrd) = .ok pasImpProcName ∧
                    Returns (copyPasStr lxMod.fixupSection pasImpProcName))

/-- The address of an object that has pages can be read. -/
def ReservedReadable (lxObj : Int) : Prop :=
  ∀ o32Pagemap o32Mapsize, lxMod.o32Pagemap lxObj = .ok o32Pagemap →
    lxMod.o32Mapsize lxObj = .ok o32Mapsize →
      signedLong o32Pagemap < signedLong (o32Pagemap + o32Mapsize) →
        Returns (lxMod.o32Reserved lxObj)

/-- The condition under which the fixups of a module are counted and converted
one for one.  The records that the page tables lead to are inside the fixup
section.  If there are any imports, modulo the range of the counter, then their
number is in this range, and what the records refer to can be read. -/
def FixupsConvertible : Prop := ∃ places, lxMod.ModuleRecords places ∧
    (4294967296 ∣ lxMod.importCount places ∨ (lxMod.importCount places < 4294967296 ∧
        (∀ i < lxMod.getObjNum.toNat, lxMod.ReservedReadable (getObj (UInt32.ofNat (i + 1)))) ∧
          ∀ place ∈ places, lxMod.isImport place.minRlc → lxMod.ImportReadable place.minRlc))

/-- The module is converted, and its array of fixups is filled exactly. -/
def ConvertsFixups : Prop := ∃ table, lxMod.convertFixupTableToBFF = .ok table ∧ table.FillsExactly

/-- What the converting walk does at a record, wherever its page is. -/
def convertRecordPlace (fill : FixupFill) (place : RecordPlace) :
    Run FixupFill := do
  let o32Reserved ← lxMod.o32Reserved place.lxObj
  let o32Base ← lxMod.o32Base place.lxObj
  lxMod.convertImpFixup (lxMod.pageAddress o32Reserved place.page)
    (lxMod.pageAddress o32Base place.page) fill place.minRlc

end LXModule

variable {lxMod : LXModule}

variable {lxObj minRlc : Int} {places : List RecordPlace} {i : UInt32} {rlc : R32Rlc}
  {fill : FixupFill}

theorem LXModule.ObjectRecords.readRlc (found : lxMod.ObjectRecords lxObj places) :
    ∀ place ∈ places, Returns (readRlc lxMod.fixupSection place.minRlc) := by
  obtain ⟨_, _, pages, _, _, pageList, rfl⟩ := found
  refine forall_mem_flatten_of_forall₂ ?_ pageList
  rintro k _ ⟨records, ⟨_, _, _, _, _, chain⟩, rfl⟩ place member
  obtain ⟨minRlc, recordMember, rfl⟩ := List.mem_map.mp member
  exact chain.readRlc minRlc recordMember

theorem LXModule.ModuleRecords.readRlc (found : lxMod.ModuleRecords places) :
    ∀ place ∈ places, Returns (readRlc lxMod.fixupSection place.minRlc) := by
  obtain ⟨objects, objectList, rfl⟩ := found
  exact forall_mem_flatten_of_forall₂ (fun i places found => found.readRlc) objectList

theorem returns_o32Base {o32Pagemap : UInt32}
    (pagemap : lxMod.o32Pagemap (getObj i) = .ok o32Pagemap) :
    Returns (lxMod.o32Base (getObj i)) := by
  have nonnegative : 0 ≤ getObj i := Int.mul_nonneg (Int.natCast_nonneg _) (Int.natCast_nonneg _)
  obtain ⟨_, inside⟩ := returns_readLong_iff.mp ⟨_, pagemap⟩
  exact returns_readLong_iff.mpr ⟨by omega, by omega⟩

theorem LXModule.ObjectRecords.addresses (found : lxMod.ObjectRecords (getObj i) places)
    (readable : lxMod.ReservedReadable (getObj i)) :
    ∀ place ∈ places, Returns (lxMod.o32Reserved place.lxObj) ∧
      Returns (lxMod.o32Base place.lxObj) := by
  obtain ⟨o32Pagemap, o32Mapsize, pages, pagemap, mapsize, pageList, rfl⟩ := found
  by_cases hasPages : signedLong o32Pagemap < signedLong (o32Pagemap + o32Mapsize)
  · have reserved := readable _ _ pagemap mapsize hasPages
    refine forall_mem_flatten_of_forall₂ ?_ pageList
    rintro k _ ⟨records, _, rfl⟩ place member
    obtain ⟨minRlc, _, rfl⟩ := List.mem_map.mp member
    exact ⟨reserved, returns_o32Base pagemap⟩
  · rw [LXModule.ObjectPages, Int.toNat_of_nonpos (by omega)] at pageList
    cases pageList
    simp

theorem LXModule.ModuleRecords.addresses (found : lxMod.ModuleRecords places)
    (readable : ∀ i < lxMod.getObjNum.toNat,
      lxMod.ReservedReadable (getObj (UInt32.ofNat (i + 1)))) :
    ∀ place ∈ places, Returns (lxMod.o32Reserved place.lxObj) ∧
      Returns (lxMod.o32Base place.lxObj) := by
  obtain ⟨objects, objectList, rfl⟩ := found
  refine forall_mem_flatten_of_forall₂ ?_ ((List.forall₂_and_left _ _).mpr
    ⟨fun i member => readable i (List.mem_range.mp member), objectList⟩)
  rintro i places ⟨readable, found⟩
  exact found.addresses readable

theorem countImpFixup_eq_ok (read : Returns (readRlc lxMod.fixupSection minRlc)) (fixups : UInt32) :
    lxMod.countImpFixup fixups minRlc =
      .ok (fixups + if lxMod.isImport minRlc then 1 else 0) := by
  obtain ⟨rlc, read⟩ := read
  rw [LXModule.countImpFixup, LXModule.isImport, read, bind_ok]
  cases refTypeEq : rlc.refType <;> simp [refTypeEq]

theorem importCount_cons (place : RecordPlace) (places : List RecordPlace) :
    lxMod.importCount (place :: places) = lxMod.importCount places +
      if lxMod.isImport place.minRlc then 1 else 0 :=
  List.countP_cons

theorem foldl_isImport (places : List RecordPlace) (fixups : UInt32) :
    places.foldl (fun fixups place =>
        fixups + if lxMod.isImport place.minRlc then 1 else 0) fixups =
      fixups + UInt32.ofNat (lxMod.importCount places) := by
  induction places generalizing fixups with
  | nil => simp [LXModule.importCount]
  | cons place places ih =>
    rw [List.foldl_cons, ih, importCount_cons,
      UInt32.ofNat_add, UInt32.add_assoc, UInt32.add_comm (UInt32.ofNat _)]
    split <;> rfl

theorem LXModule.ObjectRecords.count (found : lxMod.ObjectRecords lxObj places) :
    lxMod.calcImpFixupObjLx lxObj =
      .ok (UInt32.ofNat (lxMod.importCount places)) := by
  have flat : lxMod.calcImpFixupObjLx lxObj = places.foldlM (fun fixups place =>
        lxMod.countImpFixup fixups place.minRlc) 0 := by
    refine found.forPages ?_ 0
    intro k pageNr records pageRecords fixups
    rw [List.foldlM_map]
    exact pageRecords.walkPage _ _
  rw [flat, foldlM_eq_ok_foldl
    (fun place member => countImpFixup_eq_ok (found.readRlc place member)),
    foldl_isImport, UInt32.zero_add]

theorem LXModule.ModuleRecords.count (found : lxMod.ModuleRecords places) :
    lxMod.forObjects (fun cbFixups lxObj => do
        let fixups ← lxMod.calcImpFixupObjLx lxObj
        pure (cbFixups + fixups)) 0 =
      .ok (UInt32.ofNat (lxMod.importCount places)) := by
  have counted := fun place member =>
    countImpFixup_eq_ok (found.readRlc place member)
  obtain ⟨objects, objectList, rfl⟩ := found
  rw [LXModule.forObjects, foldlM_flatten_of_forall₂ ?_ objectList,
    foldlM_eq_ok_foldl counted, foldl_isImport, UInt32.zero_add]
  intro i places found cbFixups
  rw [found.count, foldlM_eq_ok_foldl
    (fun place member => countImpFixup_eq_ok (found.readRlc place member)),
    foldl_isImport]
  rfl

theorem exists_moduleRecords {cbFixups : UInt32}
    (returned : lxMod.forObjects (fun cbFixups lxObj => do
        let fixups ← lxMod.calcImpFixupObjLx lxObj
        pure (cbFixups + fixups)) 0 = .ok cbFixups) :
    ∃ places, lxMod.ModuleRecords places := by
  have visited : ∃ objects, List.Forall₂
      (fun i => lxMod.ObjectRecords (getObj (UInt32.ofNat (i + 1))))
      (List.range lxMod.getObjNum.toNat) objects := by
    refine exists_forall₂_of_foldlM ?_ returned
    intro cbFixups i cbFixups' counted
    obtain ⟨fixups, counted, _⟩ := bind_eq_ok_iff.mp counted
    refine LXModule.exists_objectRecords ?_ counted
    intro fixups k pageNr fixups' walked
    obtain ⟨result, walked, _⟩ := bind_eq_ok_iff.mp walked
    obtain ⟨records, found, _⟩ := LXModule.exists_pageRecords walked
    exact ⟨records, found⟩
  obtain ⟨objects, objectList⟩ := visited
  exact ⟨_, objects, objectList, rfl⟩

theorem not_returns_getImpModNameCstr {modIdx : Int} (tooLow : modIdx < 1) :
    ¬ Returns (lxMod.getImpModNameCstr modIdx) := by
  rintro ⟨name, returned⟩
  obtain ⟨orgModName, found, _⟩ := bind_eq_ok_iff.mp returned
  obtain ⟨_, _, found⟩ := bind_eq_ok_iff.mp found
  rw [if_neg (not_le.mpr tooLow)] at found
  obtain ⟨_, _, found⟩ := bind_eq_ok_iff.mp found
  cases found

theorem returns_importEntry_iff : Returns (lxMod.importEntry rlc minRlc) ↔ ∃ modNr importOrd,
        getModOrd1Rlc lxMod.fixupSection minRlc = .ok modNr ∧
          getImpOrd1Rlc lxMod.fixupSection minRlc = .ok importOrd ∧
            Returns (lxMod.getImpModNameCstr modNr.toNat) ∧ (rlc.refType = .name →
                ∃ pasImpProcName, lxMod.getImpProcName (signedLong importOrd) = .ok pasImpProcName ∧
                    Returns (copyPasStr lxMod.fixupSection
                      pasImpProcName)) := by
  by_cases byName : rlc.refType = .name
  · simp only [LXModule.importEntry, if_pos byName, returns_bind_iff,
      pure_eq_ok, returns_ok, and_true]
    constructor
    · rintro ⟨modNr, modOrd, importOrd, impOrd, pas, found, name, copied, _, modName⟩
      exact ⟨modNr, importOrd, modOrd, impOrd, ⟨_, modName⟩, fun _ => ⟨pas, found, name, copied⟩⟩
    · rintro ⟨modNr, importOrd, modOrd, impOrd, ⟨_, modName⟩, names⟩
      obtain ⟨pas, found, name, copied⟩ := names byName
      exact ⟨modNr, modOrd, importOrd, impOrd, pas, found, name, copied, _, modName⟩
  · simp only [LXModule.importEntry, if_neg byName, returns_bind_iff,
      pure_eq_ok, returns_ok, and_true]
    constructor
    · rintro ⟨modNr, modOrd, importOrd, impOrd, _, modName⟩
      exact ⟨modNr, importOrd, modOrd, impOrd, ⟨_, modName⟩, fun named => absurd named byName⟩
    · rintro ⟨modNr, importOrd, modOrd, impOrd, ⟨_, modName⟩, _⟩
      exact ⟨modNr, modOrd, importOrd, impOrd, _, modName⟩

section

variable (read : readRlc lxMod.fixupSection minRlc = .ok rlc)

include read

theorem isImport_iff :
    lxMod.isImport minRlc ↔ rlc.refType = .ordinal ∨ rlc.refType = .name := by
  rw [LXModule.isImport, read]
  cases refTypeEq : rlc.refType <;> simp [refTypeEq]

theorem convertImpFixup_of_not_isImport (skipped : ¬ lxMod.isImport minRlc)
    (vmStartOfPage startOfPage : UInt32) (fill : FixupFill) :
    lxMod.convertImpFixup vmStartOfPage startOfPage fill minRlc =
      .ok fill := by
  rw [isImport_iff read, not_or] at skipped
  rw [LXModule.convertImpFixup, read, bind_ok]
  cases refTypeEq : rlc.refType
  case internal | entry => rfl
  case ordinal => exact absurd refTypeEq skipped.1
  case name => exact absurd refTypeEq skipped.2

theorem convertImpFixup_of_isImport (imported : lxMod.isImport minRlc)
    (vmStartOfPage startOfPage : UInt32) (fill : FixupFill) :
    lxMod.convertImpFixup vmStartOfPage startOfPage fill minRlc = (do
      let importEntry ← lxMod.importEntry rlc minRlc
      let srcoffCnt1 ← getSrcoffCnt1Rlc lxMod.fixupSection minRlc
      pure
        { fixupCounter := fill.fixupCounter + 1
          stores := fill.stores ++ [(fill.fixupCounter,
            { srcAddress := startOfPage + UInt32.ofInt srcoffCnt1
              srcVmAddress := vmStartOfPage + UInt32.ofInt srcoffCnt1
              importEntry := importEntry })] }) := by
  rw [isImport_iff read] at imported
  rw [LXModule.convertImpFixup, read, bind_ok]
  rcases imported with refTypeEq | refTypeEq <;> rw [refTypeEq]

end

theorem returns_convertImpFixup_iff (read : Returns (readRlc lxMod.fixupSection minRlc))
    (vmStartOfPage startOfPage : UInt32) (fill : FixupFill) :
    Returns (lxMod.convertImpFixup vmStartOfPage startOfPage fill minRlc) ↔
      (lxMod.isImport minRlc → lxMod.ImportReadable minRlc) := by
  obtain ⟨rlc, read⟩ := read
  by_cases imported : lxMod.isImport minRlc
  · simp only [convertImpFixup_of_isImport read imported, returns_bind_iff,
      pure_eq_ok, returns_ok, and_true, imported, forall_const]
    constructor
    · rintro ⟨entry, entryEq, srcoff⟩
      obtain ⟨modNr, importOrd, modOrd, impOrd, modName, byName⟩ :=
        returns_importEntry_iff.mp ⟨entry, entryEq⟩
      refine ⟨rlc, modNr, importOrd, read, modOrd, ?_, impOrd, srcoff, modName, byName⟩
      rintro rfl
      exact not_returns_getImpModNameCstr (by decide) modName
    · rintro ⟨rlc', modNr, importOrd, read', modOrd, _, impOrd, srcoff, modName, byName⟩
      rw [read] at read'
      cases read'
      obtain ⟨entry, entryEq⟩ := returns_importEntry_iff.mpr
        ⟨modNr, importOrd, modOrd, impOrd, modName, byName⟩
      exact ⟨entry, entryEq, srcoff⟩
  · simp [convertImpFixup_of_not_isImport read imported, imported]

theorem stores_convertImpFixup {vmStartOfPage startOfPage : UInt32} {fill' : FixupFill}
    (returned : lxMod.convertImpFixup vmStartOfPage startOfPage fill minRlc = .ok fill') :
    if lxMod.isImport minRlc then
      fill'.fixupCounter = fill.fixupCounter + 1 ∧ fill'.stores.map Prod.fst =
          fill.stores.map Prod.fst ++ [fill.fixupCounter]
    else fill' = fill := by
  obtain ⟨rlc, read, _⟩ := bind_eq_ok_iff.mp returned
  by_cases imported : lxMod.isImport minRlc
  · rw [convertImpFixup_of_isImport read imported] at returned
    obtain ⟨_, _, returned⟩ := bind_eq_ok_iff.mp returned
    obtain ⟨_, _, returned⟩ := bind_eq_ok_iff.mp returned
    cases returned
    simp [imported]
  · rw [convertImpFixup_of_not_isImport read imported] at returned
    cases returned
    simp [imported]

theorem stores_convertRecordPlaces (places : List RecordPlace) : ∀ {fill fill' : FixupFill},
      places.foldlM lxMod.convertRecordPlace fill = .ok fill' →
        fill'.stores.map Prod.fst = fill.stores.map Prod.fst ++
          (List.range (lxMod.importCount places)).map
            (fun k => fill.fixupCounter + UInt32.ofNat k) := by
  induction places with
  | nil =>
    intro fill fill' returned
    cases returned
    simp [LXModule.importCount]
  | cons place places ih =>
    intro fill fill' returned
    obtain ⟨between, first, returned⟩ := bind_eq_ok_iff.mp returned
    obtain ⟨_, _, first⟩ := bind_eq_ok_iff.mp first
    obtain ⟨_, _, first⟩ := bind_eq_ok_iff.mp first
    have stored := stores_convertImpFixup first
    rw [ih returned, importCount_cons]
    by_cases imported : lxMod.isImport place.minRlc
    · rw [if_pos imported] at stored ⊢
      rw [stored.1, stored.2, List.range_succ_eq_map, List.map_cons,
        List.map_map, List.append_assoc]
      congr 1
      simp [Function.comp_def, UInt32.ofNat_add, UInt32.add_assoc, UInt32.add_comm]
    · rw [if_neg imported] at stored ⊢
      rw [stored]
      rfl

theorem returns_convertRecordPlace_iff {place : RecordPlace}
    (read : Returns (readRlc lxMod.fixupSection place.minRlc))
    (reserved : Returns (lxMod.o32Reserved place.lxObj))
    (base : Returns (lxMod.o32Base place.lxObj)) (fill : FixupFill) :
    Returns (lxMod.convertRecordPlace fill place) ↔
      (lxMod.isImport place.minRlc → lxMod.ImportReadable place.minRlc) := by
  obtain ⟨o32Reserved, reserved⟩ := reserved
  obtain ⟨o32Base, base⟩ := base
  rw [LXModule.convertRecordPlace, reserved, bind_ok, base, bind_ok,
    returns_convertImpFixup_iff read]

theorem LXModule.ObjectRecords.convert (found : lxMod.ObjectRecords (getObj i) places)
    (readable : lxMod.ReservedReadable (getObj i)) (fill : FixupFill) :
    lxMod.convertImpFixupObjLx (getObj i) fill =
      places.foldlM lxMod.convertRecordPlace fill := by
  obtain ⟨o32Pagemap, o32Mapsize, pages, pagemap, mapsize, pageList, rfl⟩ := id found
  by_cases hasPages : signedLong o32Pagemap < signedLong (o32Pagemap + o32Mapsize)
  · obtain ⟨o32Reserved, reserved⟩ := readable _ _ pagemap mapsize hasPages
    obtain ⟨o32Base, base⟩ := returns_o32Base pagemap
    refine found.forPages ?_ fill
    intro k pageNr records pageRecords fill
    rw [List.foldlM_map]
    simp only [reserved, base, bind_ok, LXModule.convertRecordPlace]
    exact pageRecords.walkPage _ _
  · have noPages : (signedLong (o32Pagemap + o32Mapsize) -
        signedLong o32Pagemap).toNat = 0 :=
      Int.toNat_of_nonpos (by omega)
    rw [LXModule.ObjectPages, noPages] at pageList
    cases pageList
    rw [LXModule.convertImpFixupObjLx, LXModule.forPages, pagemap, mapsize]
    simp only [bind_ok, noPages]
    rfl

theorem reservedReadable_of_convert {fill' : FixupFill}
    (returned : lxMod.convertImpFixupObjLx lxObj fill = .ok fill') :
    lxMod.ReservedReadable lxObj := by
  intro o32Pagemap o32Mapsize pagemap mapsize hasPages
  rw [LXModule.convertImpFixupObjLx, LXModule.forPages, pagemap, mapsize,
    bind_ok, bind_ok] at returned
  obtain ⟨before, after, returned⟩ := body_returns_of_foldlM returned 0
    (List.mem_range.mpr (by omega))
  obtain ⟨o32Reserved, reserved, _⟩ := bind_eq_ok_iff.mp returned
  exact ⟨o32Reserved, reserved⟩

theorem LXModule.ModuleRecords.convert (found : lxMod.ModuleRecords places)
    (readable : ∀ i < lxMod.getObjNum.toNat, lxMod.ReservedReadable (getObj (UInt32.ofNat (i + 1))))
    (fill : FixupFill) :
    lxMod.forObjects (fun fill lxObj => lxMod.convertImpFixupObjLx lxObj fill) fill =
      places.foldlM lxMod.convertRecordPlace fill := by
  obtain ⟨objects, objectList, rfl⟩ := found
  have matched := (List.forall₂_and_left _ _).mpr
    ⟨fun i member => readable i (List.mem_range.mp member), objectList⟩
  refine foldlM_flatten_of_forall₂ ?_ matched fill
  rintro i places ⟨readable, found⟩ fill
  exact found.convert readable fill

theorem LXModule.ModuleRecords.returns_convert_iff (found : lxMod.ModuleRecords places)
    (fill : FixupFill) :
    Returns (lxMod.forObjects (fun fill lxObj => lxMod.convertImpFixupObjLx lxObj fill) fill) ↔
      (∀ i < lxMod.getObjNum.toNat, lxMod.ReservedReadable (getObj (UInt32.ofNat (i + 1)))) ∧
        ∀ place ∈ places, lxMod.isImport place.minRlc →
          lxMod.ImportReadable place.minRlc := by
  have placesIff (readable : ∀ i < lxMod.getObjNum.toNat,
      lxMod.ReservedReadable (getObj (UInt32.ofNat (i + 1)))) :
      Returns (places.foldlM lxMod.convertRecordPlace fill) ↔
        ∀ place ∈ places, lxMod.isImport place.minRlc →
          lxMod.ImportReadable place.minRlc := by
    refine returns_foldlM_iff ?_ fill
    intro place member fill
    obtain ⟨reserved, base⟩ := found.addresses readable place member
    exact returns_convertRecordPlace_iff (found.readRlc place member) reserved base fill
  constructor
  · rintro ⟨fill', returned⟩
    have readable : ∀ i < lxMod.getObjNum.toNat,
        lxMod.ReservedReadable (getObj (UInt32.ofNat (i + 1))) := by
      intro i small
      obtain ⟨before, after, converted⟩ := body_returns_of_foldlM returned i
        (List.mem_range.mpr small)
      exact reservedReadable_of_convert converted
    rw [found.convert readable] at returned
    exact ⟨readable, (placesIff readable).mp ⟨fill', returned⟩⟩
  · rintro ⟨readable, imports⟩
    rw [found.convert readable]
    exact (placesIff readable).mpr imports

theorem fillsExactly_iff {table : FixupTable} {count : Nat}
    (indexes : table.stores.map Prod.fst = (List.range count).map UInt32.ofNat)
    (sized : table.cbFixups = UInt32.ofNat count) :
    table.FillsExactly ↔ count < 4294967296 := by
  have lengthEq : table.stores.length = count := by
    simpa using congrArg List.length indexes
  have sizeEq : table.cbFixups.toNat = count % 4294967296 := by
    rw [sized, UInt32.toNat_ofNat']
  constructor
  · rintro ⟨filled, _, _⟩
    omega
  · intro small
    rw [Nat.mod_eq_of_lt small] at sizeEq
    have nodup : (table.stores.map Prod.fst).Nodup := by
      rw [indexes]
      refine List.Nodup.map_on ?_ List.nodup_range
      intro k member k' member' equal
      rw [List.mem_range] at member member'
      have same := congrArg UInt32.toNat equal
      simp only [UInt32.toNat_ofNat'] at same
      omega
    have indexIff (index : UInt32) :
        index ∈ table.stores.map Prod.fst ↔ index < table.cbFixups := by
      rw [indexes, List.mem_map, UInt32.lt_iff_toNat_lt, sizeEq]
      constructor
      · rintro ⟨k, member, rfl⟩
        rw [List.mem_range] at member
        rw [UInt32.toNat_ofNat']
        omega
      · intro below
        exact ⟨index.toNat, List.mem_range.mpr below, UInt32.ofNat_toNat⟩
    refine ⟨by rw [lengthEq, sizeEq], ?_, ?_⟩
    · intro store member
      exact (indexIff store.1).mp (List.mem_map_of_mem member)
    · intro index below
      rw [← List.count_eq_one_of_mem nodup ((indexIff index).mpr below),
        List.count, List.countP_map]
      rfl

theorem LXModule.ModuleRecords.indexes (found : lxMod.ModuleRecords places)
    (returned : lxMod.forObjects (fun fill lxObj => lxMod.convertImpFixupObjLx lxObj fill)
        { fixupCounter := 0, stores := [] } = .ok fill) :
    fill.stores.map Prod.fst =
      (List.range (lxMod.importCount places)).map UInt32.ofNat := by
  obtain ⟨readable, _⟩ := (found.returns_convert_iff _).mp ⟨fill, returned⟩
  rw [found.convert readable] at returned
  rw [stores_convertRecordPlaces places returned]
  simp

/-- The number of counted import fixups is the number of slots written, and
every slot is written once, exactly in the modules whose records, page addresses
and imported names can all be read and whose imports do not exceed the range of
the counter. -/
theorem convertsFixups_iff_fixupsConvertible :
    lxMod.ConvertsFixups ↔ lxMod.FixupsConvertible := by
  constructor
  · rintro ⟨table, converted, filled⟩
    obtain ⟨cbFixups, counted, converted⟩ := bind_eq_ok_iff.mp converted
    obtain ⟨places, found⟩ := exists_moduleRecords counted
    rw [found.count] at counted
    cases counted
    refine ⟨places, found, ?_⟩
    by_cases none : UInt32.ofNat (lxMod.importCount places) = 0
    · exact Or.inl ((ofNat_eq_zero_iff _).mp none)
    · rw [if_neg none] at converted
      obtain ⟨fill, returned, converted⟩ := bind_eq_ok_iff.mp converted
      cases converted
      obtain ⟨readable, imports⟩ := (found.returns_convert_iff _).mp ⟨fill, returned⟩
      exact Or.inr ⟨(fillsExactly_iff (found.indexes returned) rfl).mp filled, readable, imports⟩
  · rintro ⟨places, found, fits⟩
    rw [LXModule.ConvertsFixups, LXModule.convertFixupTableToBFF, found.count, bind_ok]
    by_cases none : UInt32.ofNat (lxMod.importCount places) = 0
    · rw [if_pos none]
      refine ⟨_, rfl, rfl, by simp, ?_⟩
      intro index below
      exact absurd below UInt32.not_lt_zero
    · rw [if_neg none]
      rcases fits with wraps | ⟨small, readable, imports⟩
      · exact absurd ((ofNat_eq_zero_iff _).mpr wraps) none
      · obtain ⟨fill, returned⟩ := (found.returns_convert_iff
          { fixupCounter := 0, stores := [] }).mpr ⟨readable, imports⟩
        rw [returned, bind_ok]
        exact ⟨_, rfl, (fillsExactly_iff (found.indexes returned) rfl).mpr small⟩

/-- A module of one object with one page, whose only fixup record imports the
fifth entry of a module with the ordinal zero. -/
def zeroOrdinalModule : LXModule := { (default : LXModule) with
    lxHeadE32Exe := { (default : E32Exe) with
        e32Objcnt := 1
        e32Frectab := 8
        e32Impmod := 15 }
    loaderSection := longBytes 4096 ++ longBytes 65536 ++ longBytes 5 ++ longBytes 1 ++
        longBytes 1 ++ longBytes 0
    fixupSection := longBytes 0 ++ longBytes 7 ++ [0x07, 0x01, 0x04, 0x00, 0x00, 0x05, 0x00] ++
        [0x03, 0x44, 0x4f, 0x53, 0x00] }

theorem not_returns_convertImpFixup_zeroOrdinal
    (vmStartOfPage startOfPage : UInt32) (fill : FixupFill) :
    ¬ Returns (zeroOrdinalModule.convertImpFixup vmStartOfPage startOfPage
      fill 8) := by
  rw [returns_convertImpFixup_iff ⟨⟨7, 1⟩, by decide⟩]
  intro readable
  obtain ⟨_, modNr, _, _, modOrd, positive, _⟩ := readable (by decide)
  have zero : getModOrd1Rlc zeroOrdinalModule.fixupSection 8 = .ok 0 := by
    decide
  cases modOrd
  exact positive rfl

/-- The record is counted, but the conversion does not come back from the
search for the name of the module. -/
theorem not_convertsFixups_zeroOrdinal : zeroOrdinalModule.calcImpFixupObjLx (getObj 1) = .ok 1 ∧
      ¬ zeroOrdinalModule.ConvertsFixups := by
  refine ⟨by decide, ?_⟩
  rintro ⟨table, converted, _⟩
  obtain ⟨cbFixups, counted, converted⟩ := bind_eq_ok_iff.mp converted
  have one : zeroOrdinalModule.forObjects (fun cbFixups lxObj => do
      let fixups ← zeroOrdinalModule.calcImpFixupObjLx lxObj
      pure (cbFixups + fixups)) 0 = .ok 1 := by decide
  cases counted
  obtain ⟨fill, filled, _⟩ := bind_eq_ok_iff.mp converted
  obtain ⟨_, _, object⟩ := body_returns_of_foldlM filled 0 (by decide)
  obtain ⟨o32Pagemap, pagemap, object⟩ := bind_eq_ok_iff.mp object
  obtain ⟨o32Mapsize, mapsize, object⟩ := bind_eq_ok_iff.mp object
  have onePage : o32Pagemap = 1 ∧ o32Mapsize = 1 := by
    constructor
    · exact Except.ok.inj (pagemap.symm.trans (by decide))
    · exact Except.ok.inj (mapsize.symm.trans (by decide))
  obtain ⟨rfl, rfl⟩ := onePage
  obtain ⟨_, _, page⟩ := body_returns_of_foldlM object 0 (by decide)
  obtain ⟨o32Reserved, _, page⟩ := bind_eq_ok_iff.mp page
  obtain ⟨o32Base, _, page⟩ := bind_eq_ok_iff.mp page
  obtain ⟨walked, page, _⟩ := bind_eq_ok_iff.mp page
  obtain ⟨records, found, folded⟩ := LXModule.exists_pageRecords page
  have member : (8 : Int) ∈ records := by
    obtain ⟨pgOffsFix, pgEndOffsFix, last, pgOffs, pgEndOffs, chain⟩ := found
    have start : zeroOrdinalModule.getFixupPgTblOffs 1 = .ok 0 := by decide
    have finish : zeroOrdinalModule.getFixupPgTblOffs 2 = .ok 7 := by decide
    cases Except.ok.inj (pgOffs.symm.trans start)
    cases Except.ok.inj (pgEndOffs.symm.trans finish)
    cases chain with
    | stop reached => exact absurd reached (by decide)
    | step _ _ _ _ => exact List.mem_cons_self ..
  obtain ⟨before, record⟩ := body_returns_of_foldlM folded 8 member
  exact not_returns_convertImpFixup_zeroOrdinal _ _ _ record

end OsFree.Lx
