import OsFree.Lx.Load

/-!
# What loading the objects reads

Loading the objects reads their entries of the object table, the map entries of
their pages and the data of the pages, in this order and each where the bytes
read before say so.
-/

namespace OsFree.Lx

open Machine
open LXModule (advance)

namespace LXModule

variable (lxMod : LXModule)

/-- Place in the file that the data of a page is read from, when the stream
stands at `lxStreamPos`. -/
def pagePlace (o32Pagedataoffset : UInt32) (lxStreamPos : Int) : Int := lxMod.seekPlace
    (signedLong (o32Pagedataoffset <<< lxMod.getE32Pageshift + lxMod.getE32Datapage)) lxStreamPos

/-- The map entries of pages are inside the loader section and their data is
inside the file.  Reading it takes the stream from one place to another. -/
inductive PagesRead : Int → List Int → Int → Prop where
  | none (lxStreamPos : Int) : PagesRead lxStreamPos [] lxStreamPos
  | page {lxStreamPos last pageNr : Int} {rest : List Int}
      {o32Pagedataoffset : UInt32} {o32Pagesize : UInt16}
      (offset : lxMod.o32Pagedataoffset
        (lxMod.getObjMap (UInt32.ofInt pageNr)) = .ok o32Pagedataoffset)
      (size : lxMod.o32Pagesize (lxMod.getObjMap (UInt32.ofInt pageNr)) = .ok o32Pagesize)
      (shift : lxMod.getE32Pageshift.toNat < 32)
      (inside : Readable lxMod.lxFileStream
        (lxMod.pagePlace o32Pagedataoffset lxStreamPos) o32Pagesize.toNat)
      (others : PagesRead (advance (lxMod.pagePlace o32Pagedataoffset lxStreamPos)
          o32Pagesize.toNat) rest last) :
      PagesRead lxStreamPos (pageNr :: rest) last

/-- The numbers of the pages of an object. -/
def pageNumbers (o32Pagemap o32Mapsize : UInt32) : List Int :=
  (List.range (signedLong (o32Pagemap + o32Mapsize) - signedLong o32Pagemap).toNat).map
    fun k => signedLong o32Pagemap + (k : Nat)

/-- The module after the address of an object has been stored. -/
def withAddress (kodObj : Int) (vmCodeObj : UInt32) (pic : Bool) : LXModule :=
  let loaderSection := putLong lxMod.loaderSection (kodObj + 20) vmCodeObj
  { lxMod with
    loaderSection :=
      if pic then putLong loaderSection (kodObj + 4) vmCodeObj
      else loaderSection }

/-- The entry of an object is inside the loader section, and the allocator
answers with an address. -/
def ObjectAllocated (l4AllocMem : L4AllocMem) (kodObj : Int) (vmCodeObj : UInt32) : Prop :=
  Inside lxMod.loaderSection kodObj sizeofO32Obj ∧
    ∃ o32Base o32Size, lxMod.o32Base kodObj = .ok o32Base ∧
      lxMod.o32Size kodObj = .ok o32Size ∧ l4AllocMem kodObj o32Base o32Size = vmCodeObj

/-- An object is allocated and its pages are read. -/
def ObjectRead (l4AllocMem : L4AllocMem) (pic : Bool) (kodObj : Int) (lxMod' : LXModule) : Prop :=
  ∃ vmCodeObj o32Pagemap o32Mapsize last,
    lxMod.ObjectAllocated l4AllocMem kodObj vmCodeObj ∧ vmCodeObj ≠ mapFailed ∧
      (lxMod.withAddress kodObj vmCodeObj pic).o32Pagemap kodObj = .ok o32Pagemap ∧
      (lxMod.withAddress kodObj vmCodeObj pic).o32Mapsize kodObj = .ok o32Mapsize ∧
      (lxMod.withAddress kodObj vmCodeObj pic).PagesRead lxMod.lxStreamPos
        (pageNumbers o32Pagemap o32Mapsize) last ∧
      lxMod' =
        { lxMod.withAddress kodObj vmCodeObj pic with lxStreamPos := last }

end LXModule

/-- Objects are read one after the other, up to one without memory.  The
result tells whether there was memory for all of them. -/
inductive ObjectsRead (l4AllocMem : L4AllocMem) (pic : Bool) :
    LXModule → List Nat → Bool → LXModule → Prop where
  | none (lxMod : LXModule) : ObjectsRead l4AllocMem pic lxMod [] true lxMod
  | noMemory {lxMod : LXModule} {objCnt : Nat} {rest : List Nat}
      (allocated : lxMod.ObjectAllocated l4AllocMem (getObj (UInt32.ofNat objCnt)) mapFailed) :
      ObjectsRead l4AllocMem pic lxMod (objCnt :: rest) false
        (lxMod.withAddress (getObj (UInt32.ofNat objCnt)) mapFailed pic)
  | object {lxMod lxMod' last : LXModule} {objCnt : Nat} {rest : List Nat} {memory : Bool}
      (read : lxMod.ObjectRead l4AllocMem pic (getObj (UInt32.ofNat objCnt)) lxMod')
      (others : ObjectsRead l4AllocMem pic lxMod' rest memory last) :
      ObjectsRead l4AllocMem pic lxMod (objCnt :: rest) memory last

theorem loadPage_eq_ok_iff {lxMod : LXModule} {vmPtrObj : UInt32}
    {load load' : ObjectLoad} {pageNr : Int} :
    lxMod.loadPage vmPtrObj load pageNr = .ok load' ↔ ∃ o32Pagedataoffset o32Pagesize,
        lxMod.o32Pagedataoffset (lxMod.getObjMap (UInt32.ofInt pageNr)) = .ok o32Pagedataoffset ∧
          lxMod.o32Pagesize (lxMod.getObjMap (UInt32.ofInt pageNr)) = .ok o32Pagesize ∧
          lxMod.getE32Pageshift.toNat < 32 ∧
          Readable lxMod.lxFileStream (lxMod.pagePlace o32Pagedataoffset load.lxStreamPos)
            o32Pagesize.toNat ∧
          load' =
            { lxStreamPos := advance
                (lxMod.pagePlace o32Pagedataoffset load.lxStreamPos)
                o32Pagesize.toNat
              codeMmapPos := load.codeMmapPos + o32Pagesize.toUInt32
              copies := load.copies ++
                [{ address := load.codeMmapPos + vmPtrObj
                   bytes := bytesAt lxMod.lxFileStream
                    (lxMod.pagePlace o32Pagedataoffset load.lxStreamPos)
                    o32Pagesize.toNat }] } := by
  unfold LXModule.loadPage
  simp only [lxFseekStream_seekSet, lxFreadStream_one, lxFreadElement_eq,
    shiftLeft, bind_ok, ite_error_bind]
  constructor
  · intro returned
    obtain ⟨offset, offsetRead, returned⟩ := bind_eq_ok_iff.mp returned
    split at returned
    · rename_i shift
      obtain ⟨size, sizeRead, returned⟩ := bind_eq_ok_iff.mp returned
      split at returned
      · rename_i inside
        cases returned
        exact ⟨offset, size, offsetRead, sizeRead, shift, inside, rfl⟩
      · cases returned
    · cases returned
  · rintro ⟨offset, size, offsetRead, sizeRead, shift, inside, rfl⟩
    rw [offsetRead, bind_ok, if_pos shift, sizeRead, bind_ok, if_pos]
    · rfl
    · exact inside

theorem loadPages_iff {lxMod : LXModule} {vmPtrObj : UInt32} {last : Int}
    (pages : List Int) : ∀ {load : ObjectLoad},
    (∃ load', pages.foldlM (lxMod.loadPage vmPtrObj) load = .ok load' ∧ load'.lxStreamPos = last) ↔
      lxMod.PagesRead load.lxStreamPos pages last := by
  induction pages with
  | nil =>
    intro load
    constructor
    · rintro ⟨load', returned, rfl⟩
      cases returned
      exact .none _
    · intro reads
      cases reads
      exact ⟨load, rfl, rfl⟩
  | cons pageNr pages ih =>
    intro load
    rw [List.foldlM_cons]
    constructor
    · rintro ⟨load', returned, atLast⟩
      obtain ⟨between, first, returned⟩ := bind_eq_ok_iff.mp returned
      obtain ⟨offset, size, offsetRead, sizeRead, shift, inside, rfl⟩ := loadPage_eq_ok_iff.mp first
      exact .page offsetRead sizeRead shift inside (ih.mp ⟨load', returned, atLast⟩)
    · intro reads
      cases reads with
      | @page _ _ _ _ offset size offsetRead sizeRead shift inside others =>
        have first : ∃ between, lxMod.loadPage vmPtrObj load pageNr = .ok between ∧
              between.lxStreamPos = advance
                (lxMod.pagePlace offset load.lxStreamPos) size.toNat :=
          ⟨_, loadPage_eq_ok_iff.mpr ⟨_, _, offsetRead, sizeRead, shift, inside, rfl⟩, rfl⟩
        obtain ⟨between, first, place⟩ := first
        rw [← place] at others
        rw [first, bind_ok]
        exact ih.mpr others

theorem loadObjLx_iff {lxMod : LXModule} {kodObj last : Int} {vmPtrObj : UInt32} :
    (∃ load, lxMod.loadObjLx kodObj vmPtrObj = .ok load ∧ load.lxStreamPos = last) ↔
      ∃ o32Pagemap o32Mapsize, lxMod.o32Pagemap kodObj = .ok o32Pagemap ∧
        lxMod.o32Mapsize kodObj = .ok o32Mapsize ∧ lxMod.PagesRead lxMod.lxStreamPos
            (LXModule.pageNumbers o32Pagemap o32Mapsize) last := by
  -- the pages of the loop are the page numbers of the object
  have loop : ∀ (o32Pagemap o32Mapsize : UInt32) (load : ObjectLoad),
      (List.range (signedLong (o32Pagemap + o32Mapsize) - signedLong o32Pagemap).toNat).foldlM
          (fun load k => lxMod.loadPage vmPtrObj load (signedLong o32Pagemap + (k : Nat))) load =
        (LXModule.pageNumbers o32Pagemap o32Mapsize).foldlM
          (lxMod.loadPage vmPtrObj) load := by
    intro o32Pagemap o32Mapsize load
    unfold LXModule.pageNumbers
    rw [List.foldlM_map]
  unfold LXModule.loadObjLx LXModule.forPages
  simp only [loop]
  constructor
  · rintro ⟨load, returned, atLast⟩
    obtain ⟨o32Pagemap, pagemap, returned⟩ := bind_eq_ok_iff.mp returned
    obtain ⟨o32Mapsize, mapsize, returned⟩ := bind_eq_ok_iff.mp returned
    exact ⟨o32Pagemap, o32Mapsize, pagemap, mapsize, (loadPages_iff _).mp ⟨load, returned, atLast⟩⟩
  · rintro ⟨o32Pagemap, o32Mapsize, pagemap, mapsize, reads⟩
    rw [pagemap, bind_ok, mapsize, bind_ok]
    exact (loadPages_iff _).mpr reads

theorem getObj_nonneg (nr : UInt32) : 0 ≤ getObj nr := by
  exact Int.mul_nonneg (by decide) (Int.natCast_nonneg _)

section

variable {l4AllocMem : L4AllocMem} {kodObj : Int} {vmCodeObj : UInt32}

theorem storeAddress_eq_ok_iff {pic : Bool} {lxMod : LXModule}
    {loaderSection : List UInt8} (start : 0 ≤ kodObj) :
    IXFModule.storeAddress kodObj vmCodeObj pic lxMod.loaderSection = .ok loaderSection ↔
      Inside lxMod.loaderSection kodObj sizeofO32Obj ∧ loaderSection =
          (lxMod.withAddress kodObj vmCodeObj pic).loaderSection := by
  have reserved : Inside lxMod.loaderSection (kodObj + 20) 4 ↔
      Inside lxMod.loaderSection kodObj sizeofO32Obj := by
    unfold Inside sizeofO32Obj
    omega
  unfold IXFModule.storeAddress LXModule.withAddress
  rw [bind_eq_ok_iff]
  simp only [writeLong_eq_ok_iff, reserved]
  cases pic with
  | false =>
    constructor
    · rintro ⟨_, ⟨inside, rfl⟩, equal⟩
      cases equal
      exact ⟨inside, rfl⟩
    · rintro ⟨inside, rfl⟩
      exact ⟨_, ⟨inside, rfl⟩, rfl⟩
  | true =>
    constructor
    · rintro ⟨_, ⟨inside, rfl⟩, written⟩
      obtain ⟨-, rfl⟩ := writeLong_eq_ok_iff.mp written
      exact ⟨inside, rfl⟩
    · rintro ⟨inside, rfl⟩
      refine ⟨_, ⟨inside, rfl⟩, writeLong_eq_ok_iff.mpr ⟨?_, rfl⟩⟩
      have kept := putLong_length (reserved.mpr inside) vmCodeObj
      unfold Inside sizeofO32Obj at *
      omega

theorem withAddress_inside {pic : Bool} {lxMod : LXModule} (start : 0 ≤ kodObj)
    (inside : Inside lxMod.loaderSection kodObj sizeofO32Obj) :
    Inside (lxMod.withAddress kodObj vmCodeObj pic).loaderSection kodObj
      sizeofO32Obj := by
  have reserved : Inside lxMod.loaderSection (kodObj + 20) 4 := by
    unfold Inside sizeofO32Obj at *
    omega
  have kept := putLong_length reserved vmCodeObj
  unfold LXModule.withAddress
  cases pic with
  | false =>
    unfold Inside at *
    simpa only [Bool.false_eq_true, if_false, kept] using inside
  | true =>
    have base : Inside (putLong lxMod.loaderSection (kodObj + 20) vmCodeObj)
        (kodObj + 4) 4 := by
      unfold Inside sizeofO32Obj at *
      omega
    have keptBoth := putLong_length base vmCodeObj
    unfold Inside at *
    simpa only [if_true, keptBoth, kept] using inside

variable {ixfModule : IXFModule}

theorem vmAllocObjLx_iff : (∃ allocated, ixfModule.vmAllocObjLx l4AllocMem kodObj =
        .ok (vmCodeObj, allocated)) ↔
      ∃ o32Base o32Size, ixfModule.formatStruct.o32Base kodObj = .ok o32Base ∧
        ixfModule.formatStruct.o32Size kodObj = .ok o32Size ∧
          l4AllocMem kodObj o32Base o32Size = vmCodeObj := by
  unfold IXFModule.vmAllocObjLx
  constructor
  · rintro ⟨allocated, returned⟩
    obtain ⟨o32Base, base, returned⟩ := bind_eq_ok_iff.mp returned
    obtain ⟨o32Size, size, returned⟩ := bind_eq_ok_iff.mp returned
    cases returned
    exact ⟨o32Base, o32Size, base, size, rfl⟩
  · rintro ⟨o32Base, o32Size, base, size, rfl⟩
    simp only [base, size, bind_ok]
    exact ⟨_, rfl⟩

theorem vmAllocObjLx_keeps {allocated : IXFModule}
    (returned : ixfModule.vmAllocObjLx l4AllocMem kodObj = .ok (vmCodeObj, allocated)) :
    allocated.formatStruct = ixfModule.formatStruct ∧
      allocated.pic = ixfModule.pic := by
  obtain ⟨o32Base, base, returned⟩ := bind_eq_ok_iff.mp returned
  obtain ⟨o32Size, size, returned⟩ := bind_eq_ok_iff.mp returned
  cases returned
  constructor
  · split <;> split <;> rfl
  · split <;> split <;> rfl

theorem lxLoadObject_keeps {loaded : IXFModule} {memory : Bool}
    (returned : ixfModule.lxLoadObject l4AllocMem kodObj =
      .ok (memory, loaded)) : loaded.pic = ixfModule.pic := by
  obtain ⟨⟨vmCodeObj, allocated⟩, allocates, returned⟩ := bind_eq_ok_iff.mp returned
  obtain ⟨-, samePic⟩ := vmAllocObjLx_keeps allocates
  obtain ⟨loaderSection, -, returned⟩ := bind_eq_ok_iff.mp returned
  split at returned
  · obtain ⟨_, _, returned⟩ := bind_eq_ok_iff.mp returned
    cases returned
    exact samePic
  · obtain ⟨_, _, returned⟩ := bind_eq_ok_iff.mp returned
    cases returned
    exact samePic

theorem lxLoadObject_iff {lxMod' : LXModule} (start : 0 ≤ kodObj) :
    (∃ loaded, ixfModule.lxLoadObject l4AllocMem kodObj = .ok (true, loaded) ∧
        loaded.formatStruct = lxMod' ∧ loaded.pic = ixfModule.pic) ↔
      ixfModule.formatStruct.ObjectRead l4AllocMem ixfModule.pic kodObj
        lxMod' := by
  unfold IXFModule.lxLoadObject LXModule.ObjectRead
  constructor
  · rintro ⟨loaded, returned, rfl, -⟩
    obtain ⟨⟨vmCodeObj, allocated⟩, allocates, returned⟩ := bind_eq_ok_iff.mp returned
    obtain ⟨sameFormat, samePic⟩ := vmAllocObjLx_keeps allocates
    obtain ⟨loaderSection, stored, returned⟩ := bind_eq_ok_iff.mp returned
    simp only [sameFormat, samePic] at stored returned
    obtain ⟨inside, rfl⟩ := (storeAddress_eq_ok_iff start).mp stored
    split at returned
    · obtain ⟨_, _, returned⟩ := bind_eq_ok_iff.mp returned
      cases returned
    · rename_i memory
      obtain ⟨load, loads, returned⟩ := bind_eq_ok_iff.mp returned
      cases returned
      obtain ⟨o32Pagemap, o32Mapsize, pagemap, mapsize, reads⟩ :=
        loadObjLx_iff.mp ⟨load, loads, rfl⟩
      exact ⟨vmCodeObj, o32Pagemap, o32Mapsize, load.lxStreamPos,
        ⟨inside, vmAllocObjLx_iff.mp ⟨allocated, allocates⟩⟩, memory,
        pagemap, mapsize, reads, rfl⟩
  · rintro ⟨vmCodeObj, o32Pagemap, o32Mapsize, last, ⟨inside, allocates⟩,
      memory, pagemap, mapsize, reads, rfl⟩
    obtain ⟨allocated, allocates⟩ := vmAllocObjLx_iff.mpr allocates
    obtain ⟨sameFormat, samePic⟩ := vmAllocObjLx_keeps allocates
    obtain ⟨load, loads, rfl⟩ := (@loadObjLx_iff _ kodObj last vmCodeObj).mpr
        ⟨_, _, pagemap, mapsize, reads⟩
    have stored := (@storeAddress_eq_ok_iff kodObj vmCodeObj ixfModule.pic
        ixfModule.formatStruct _ start).mpr ⟨inside, rfl⟩
    rw [allocates, bind_ok]
    simp only [sameFormat, samePic, stored, bind_ok, if_neg memory]
    change ∃ loaded, ((ixfModule.formatStruct.withAddress kodObj vmCodeObj
      ixfModule.pic).loadObjLx kodObj vmCodeObj >>= _) = _ ∧ _
    rw [loads, bind_ok]
    exact ⟨_, rfl, rfl, rfl⟩

theorem lxLoadObject_noMemory_iff {lxMod' : LXModule} (start : 0 ≤ kodObj) :
    (∃ loaded, ixfModule.lxLoadObject l4AllocMem kodObj = .ok (false, loaded) ∧
        loaded.formatStruct = lxMod') ↔
      ixfModule.formatStruct.ObjectAllocated l4AllocMem kodObj mapFailed ∧
        lxMod' = ixfModule.formatStruct.withAddress kodObj mapFailed
          ixfModule.pic := by
  unfold IXFModule.lxLoadObject
  constructor
  · rintro ⟨loaded, returned, rfl⟩
    obtain ⟨⟨vmCodeObj, allocated⟩, allocates, returned⟩ := bind_eq_ok_iff.mp returned
    obtain ⟨sameFormat, samePic⟩ := vmAllocObjLx_keeps allocates
    obtain ⟨loaderSection, stored, returned⟩ := bind_eq_ok_iff.mp returned
    simp only [sameFormat, samePic] at stored returned
    obtain ⟨inside, rfl⟩ := (storeAddress_eq_ok_iff start).mp stored
    split at returned
    · rename_i noMemory
      subst noMemory
      obtain ⟨_, _, returned⟩ := bind_eq_ok_iff.mp returned
      cases returned
      exact ⟨⟨inside, vmAllocObjLx_iff.mp ⟨allocated, allocates⟩⟩, rfl⟩
    · obtain ⟨_, _, returned⟩ := bind_eq_ok_iff.mp returned
      cases returned
  · rintro ⟨⟨inside, allocates⟩, rfl⟩
    obtain ⟨allocated, allocates⟩ := vmAllocObjLx_iff.mpr allocates
    obtain ⟨sameFormat, samePic⟩ := vmAllocObjLx_keeps allocates
    have stored := (@storeAddress_eq_ok_iff kodObj mapFailed ixfModule.pic
        ixfModule.formatStruct _ start).mpr ⟨inside, rfl⟩
    obtain ⟨entry, printed⟩ := returns_readBytes_iff.mpr
      (Or.inr (@withAddress_inside kodObj mapFailed ixfModule.pic _ start inside))
    rw [allocates, bind_ok]
    simp only [sameFormat, samePic, stored, bind_ok, if_true, printed]
    exact ⟨_, rfl, rfl⟩

theorem lxLoadObjectsFrom_iff {memory : Bool} {last : LXModule} (objects : List Nat) :
    ∀ {ixfModule : IXFModule}, (∃ loaded,
          IXFModule.lxLoadObjectsFrom l4AllocMem objects ixfModule = .ok (memory, loaded) ∧
            loaded.formatStruct = last) ↔
        ObjectsRead l4AllocMem ixfModule.pic ixfModule.formatStruct objects
          memory last := by
  induction objects with
  | nil =>
    intro ixfModule
    constructor
    · rintro ⟨loaded, returned, rfl⟩
      cases returned
      exact .none _
    · intro reads
      cases reads
      exact ⟨ixfModule, rfl, rfl⟩
  | cons objCnt rest ih =>
    intro ixfModule
    have start := getObj_nonneg (UInt32.ofNat objCnt)
    rw [IXFModule.lxLoadObjectsFrom]
    constructor
    · rintro ⟨loaded, returned, rfl⟩
      obtain ⟨⟨allocated, first⟩, loads, returned⟩ := bind_eq_ok_iff.mp returned
      cases allocated with
      | false =>
        cases returned
        obtain ⟨allocated, same⟩ := (lxLoadObject_noMemory_iff start).mp ⟨_, loads, rfl⟩
        rw [same]
        exact .noMemory allocated
      | true =>
        have samePic := lxLoadObject_keeps loads
        have reads := (lxLoadObject_iff start).mp ⟨_, loads, rfl, samePic⟩
        have others := ih.mp ⟨_, returned, rfl⟩
        rw [samePic] at others
        exact .object reads others
    · intro reads
      cases reads with
      | noMemory allocated =>
        obtain ⟨loaded, returned, same⟩ := (lxLoadObject_noMemory_iff start).mpr ⟨allocated, rfl⟩
        rw [returned]
        exact ⟨loaded, rfl, same⟩
      | object first others =>
        obtain ⟨loaded, returned, rfl, samePic⟩ := (lxLoadObject_iff start).mpr first
        rw [← samePic] at others
        rw [returned]
        exact ih.mpr others

end

end OsFree.Lx
