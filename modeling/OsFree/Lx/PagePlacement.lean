import Mathlib.Data.List.GetD
import OsFree.Lx.Load

/-!
# Placement of the pages of an object

The fixup pass takes page `k` of an object to start `k` page sizes behind the
object.  The loader puts it behind the data of the pages before it, reads its
map entry relative to the end of the header structure, and copies its data from
the file whatever its flags are.  This decides for which objects every page is
where the fixup pass looks for it and holds what its map entry asks for.
-/

namespace OsFree.Lx

open Machine

/-- An entry of the object page table. -/
structure O32Map where
  o32Pagedataoffset : UInt32
  o32Pagesize : UInt16
  o32Pageflags : UInt16
  deriving DecidableEq

/-- A map entry as it stands in the object page table. -/
def O32Map.bytes (page : O32Map) : List UInt8 := longBytes page.o32Pagedataoffset ++
    (wordBytes page.o32Pagesize ++ wordBytes page.o32Pageflags)

@[simp] theorem O32Map.bytes_length (page : O32Map) :
    page.bytes.length = sizeofO32Map := rfl

/-- An object of a valid module, with memory allocated at `vmPtrObj`.  Its map
entries stand in the object page table at `e32_objmap`, which counts from the
header as the offset `e32_objtab` of the loader section does, and the data of
its `VALID` pages is in the file. -/
structure PagedObject where
  lxMod : LXModule
  lxObj : Int
  pagemap : UInt32
  pages : List O32Map
  vmPtrObj : UInt32
  pagemapRead : lxMod.o32Pagemap lxObj = .ok pagemap
  mapsizeRead : lxMod.o32Mapsize lxObj = .ok (UInt32.ofNat pages.length)
  reservedRead : lxMod.o32Reserved lxObj = .ok vmPtrObj
  pageNumbers : pagemap.toNat + pages.length < 2147483648
  firstPage : pages ≠ [] → 0 < pagemap.toNat
  pageTable : pages ≠ [] → ∃ rest, RestAt lxMod.loaderSection
    ((lxMod.lxHeadE32Exe.e32Objmap.toNat : Int) -
      lxMod.lxHeadE32Exe.e32Objtab.toNat + 8 * ((pagemap.toNat : Int) - 1))
    (pages.flatMap O32Map.bytes ++ rest)
  sectionSmall : lxMod.loaderSection.length < 2147483648
  streamSize : lxMod.lxStreamSize = lxMod.lxFileStream.length
  streamSmall : lxMod.lxFileStream.length < 2147483648
  pageshift : lxMod.getE32Pageshift.toNat < 32
  pagesizes : ∀ page ∈ pages, page.o32Pagesize.toNat ≤ lxMod.getE32Pagesize.toNat
  pageData : ∀ page ∈ pages, page.o32Pageflags = valid → lxMod.getE32Datapage.toNat +
        page.o32Pagedataoffset.toNat * 2 ^ lxMod.getE32Pageshift.toNat +
        page.o32Pagesize.toNat ≤ lxMod.lxFileStream.length
  addressSpace : lxMod.getE32Pagesize.toNat * pages.length ≤ 4294967296

namespace PagedObject

variable (o : PagedObject)

/-- Place of the map entry of a page in the loader section. -/
def mapPlace (k : Nat) : Int := (o.lxMod.lxHeadE32Exe.e32Objmap.toNat : Int) -
    o.lxMod.lxHeadE32Exe.e32Objtab.toNat + 8 * ((o.pagemap.toNat : Int) - 1 + k)

/-- Place of the data of a page in the file. -/
def dataOffset (page : O32Map) : Nat := o.lxMod.getE32Datapage.toNat +
    page.o32Pagedataoffset.toNat * 2 ^ o.lxMod.getE32Pageshift.toNat

/-- What a page holds.  Nothing is said of the other kinds of pages. -/
def content (page : O32Map) : Option (List UInt8) :=
  if page.o32Pageflags = valid then
    some (bytesAt o.lxMod.lxFileStream (o.dataOffset page) page.o32Pagesize.toNat ++
      List.replicate (o.lxMod.getE32Pagesize.toNat - page.o32Pagesize.toNat) 0)
  else if page.o32Pageflags = invalid ∨ page.o32Pageflags = zeroed then
    some (List.replicate o.lxMod.getE32Pagesize.toNat 0)
  else none

/-- A page has been loaded from its own map entry, to the address that the
fixup pass computes for it, and the memory holds there what the entry asks
for. -/
structure PageStands (initial : Memory) (load : ObjectLoad) (k : Nat)
    (page : O32Map) : Prop where
  entry : o.lxMod.getObjMap (o.pagemap + UInt32.ofNat k) = o.mapPlace k
  placed : ∃ copy, load.copies[k]? = some copy ∧ copy.address = o.lxMod.pageAddress o.vmPtrObj k
  filled : ∀ content, o.content page = some content → ∀ j, j < o.lxMod.getE32Pagesize.toNat →
      content[j]? = some (initial.storeAll load.copies
        (o.lxMod.pageAddress o.vmPtrObj k + UInt32.ofNat j))

/-- Loading the object places all of its pages. -/
def PlacesPages (initial : Memory) : Prop :=
  ∃ load, o.lxMod.loadObjLx o.lxObj o.vmPtrObj = .ok load ∧
    ∀ k page, o.pages[k]? = some page → o.PageStands initial load k page

/-- Place in the file that a page is read from: the one its map entry names, or
where the stream stands if the file has no such place. -/
def dataPlace (before : Int) (page : O32Map) : Int := o.lxMod.seekPlace
    (signedLong (page.o32Pagedataoffset <<< o.lxMod.getE32Pageshift +
      o.lxMod.getE32Datapage)) before

/-- Place in the file behind the data of the pages before a page. -/
def streamBefore (k : Nat) : Int := (o.pages.take k).foldl (fun before page =>
      LXModule.advance (o.dataPlace before page) page.o32Pagesize.toNat)
    o.lxMod.lxStreamPos

/-- A page is full unless it is the last one, its data is in the file and, if it
has none, made of zeros, and its memory is clear behind the data. -/
structure PageFits (initial : Memory) (k : Nat) (page : O32Map) : Prop where
  full : k + 1 < o.pages.length → page.o32Pagesize.toUInt32 = o.lxMod.getE32Pagesize
  inside : Readable o.lxMod.lxFileStream
    (o.dataPlace (o.streamBefore k) page) page.o32Pagesize.toNat
  blank : page.o32Pageflags = invalid ∨ page.o32Pageflags = zeroed →
    bytesAt o.lxMod.lxFileStream (o.dataPlace (o.streamBefore k) page)
      page.o32Pagesize.toNat = List.replicate page.o32Pagesize.toNat 0
  clear : (o.content page).isSome →
    ∀ j, page.o32Pagesize.toNat ≤ j → j < o.lxMod.getE32Pagesize.toNat →
      initial (o.lxMod.pageAddress o.vmPtrObj k + UInt32.ofNat j) = 0

/-- The loader section starts where the header structure ends, and every page
fits. -/
def PagesFit (initial : Memory) : Prop := (o.pages ≠ [] →
      o.lxMod.lxHeadE32Exe.e32Objtab = UInt32.ofNat sizeofE32Exe) ∧
    ∀ k page, o.pages[k]? = some page → o.PageFits initial k page

variable {k : Nat} {page : O32Map} {load : ObjectLoad}

theorem toNat_pageNumber (within : k < o.pages.length) :
    (o.pagemap + UInt32.ofNat k).toNat = o.pagemap.toNat + k := by
  have small := o.pageNumbers
  simp only [UInt32.toNat_add, UInt32.toNat_ofNat', Nat.reducePow]
  omega

theorem nonempty_of_getElem? (found : o.pages[k]? = some page) : o.pages ≠ [] := by
  intro empty
  rw [empty] at found
  cases found

theorem getObjMap_eq (within : k < o.pages.length) :
    o.lxMod.getObjMap (o.pagemap + UInt32.ofNat k) =
      o.lxMod.getObjPageTbl + 8 * ((o.pagemap.toNat : Int) - 1 + k) := by
  have first := o.firstPage (List.ne_nil_of_length_pos (by omega))
  have number := o.toNat_pageNumber within
  have one : (1 : UInt32).toNat = 1 := rfl
  have bound := (o.pagemap + UInt32.ofNat k).toNat_lt
  have index : (o.pagemap + UInt32.ofNat k - 1).toNat =
      o.pagemap.toNat + k - 1 := by
    rw [UInt32.toNat_sub, number, one]
    omega
  unfold LXModule.getObjMap
  simp only [sizeofO32Map]
  omega

theorem getObjPageTbl_eq_iff (nonempty : o.pages ≠ []) :
    o.lxMod.getObjPageTbl = (o.lxMod.lxHeadE32Exe.e32Objmap.toNat : Int) -
        o.lxMod.lxHeadE32Exe.e32Objtab.toNat ↔
      o.lxMod.lxHeadE32Exe.e32Objtab = UInt32.ofNat sizeofE32Exe := by
  obtain ⟨rest, before, section_eq, place⟩ := o.pageTable nonempty
  have first := o.firstPage nonempty
  have sectionLength := congrArg List.length section_eq
  rw [List.length_append] at sectionLength
  have small := o.sectionSmall
  have objmapBound := o.lxMod.lxHeadE32Exe.e32Objmap.toNat_lt
  have objtabBound := o.lxMod.lxHeadE32Exe.e32Objtab.toNat_lt
  have size : (UInt32.ofNat sizeofE32Exe).toNat = 196 := rfl
  unfold LXModule.getObjPageTbl signedLong
  rw [UInt32.toNat_sub, ← UInt32.toNat_inj, size]
  constructor
  · intro equal
    split at equal <;> omega
  · intro equal
    split <;> omega

theorem entry_iff (found : o.pages[k]? = some page) :
    o.lxMod.getObjMap (o.pagemap + UInt32.ofNat k) = o.mapPlace k ↔
      o.lxMod.lxHeadE32Exe.e32Objtab = UInt32.ofNat sizeofE32Exe := by
  rw [← o.getObjPageTbl_eq_iff (o.nonempty_of_getElem? found),
    o.getObjMap_eq (List.getElem?_eq_some_iff.mp found).1]
  unfold mapPlace
  omega

theorem restAt_mapPlace (found : o.pages[k]? = some page) :
    ∃ rest, RestAt o.lxMod.loaderSection (o.mapPlace k)
      (page.bytes ++ rest) := by
  obtain ⟨tail, stands⟩ := o.pageTable (o.nonempty_of_getElem? found)
  obtain ⟨rest, here⟩ := stands.element O32Map.bytes_length found
  refine ⟨rest, ?_⟩
  have place : o.mapPlace k = (o.lxMod.lxHeadE32Exe.e32Objmap.toNat : Int) -
          o.lxMod.lxHeadE32Exe.e32Objtab.toNat +
        8 * ((o.pagemap.toNat : Int) - 1) + (sizeofO32Map : Nat) * k := by
    unfold mapPlace sizeofO32Map
    omega
  rw [place]
  exact here

theorem forPages_eq {σ : Type} (action : σ → Nat → Int → Run σ) (state : σ) :
    o.lxMod.forPages action o.lxObj state = (List.range o.pages.length).foldlM
        (fun state k => action state k ((o.pagemap.toNat : Int) + k))
        state := by
  have small := o.pageNumbers
  have count : (o.pagemap + UInt32.ofNat o.pages.length).toNat =
      o.pagemap.toNat + o.pages.length := by
    simp only [UInt32.toNat_add, UInt32.toNat_ofNat', Nat.reducePow]
    omega
  have pages : ((o.pagemap.toNat : Int) + (o.pages.length : Nat) -
      o.pagemap.toNat).toNat = o.pages.length := by omega
  unfold LXModule.forPages
  rw [o.pagemapRead, o.mapsizeRead]
  simp only [bind_ok]
  rw [signedLong_of_lt (by omega), signedLong_of_lt (by omega), count, Nat.cast_add, pages]

/-- The copy that loading a page makes: the stream stands at `state.1` and the
object is filled up to `state.2`. -/
def emitCopy (state : Int × UInt32) (page : O32Map) : Run Copy := do
  let bytes ← readBytes o.lxMod.lxFileStream (o.dataPlace state.1 page) page.o32Pagesize.toNat
  pure { address := state.2 + o.vmPtrObj, bytes := bytes }

/-- What loading a page does to the two positions. -/
def behindPage (state : Int × UInt32) (page : O32Map) : Int × UInt32 :=
  (LXModule.advance (o.dataPlace state.1 page) page.o32Pagesize.toNat,
    state.2 + page.o32Pagesize.toUInt32)

/-- The loop state for two positions and the copies made. -/
def loadState (state : Int × UInt32) (copies : List Copy) : ObjectLoad :=
  { lxStreamPos := state.1, codeMmapPos := state.2, copies := copies }

/-- What loading a page does, given its map entry. -/
def loadEntry (load : ObjectLoad) (page : O32Map) : Run ObjectLoad := do
  let copy ← o.emitCopy (load.lxStreamPos, load.codeMmapPos) page
  pure (loadState (o.behindPage (load.lxStreamPos, load.codeMmapPos) page) (load.copies ++ [copy]))

theorem loadPage_eq (objtab : o.lxMod.lxHeadE32Exe.e32Objtab = UInt32.ofNat sizeofE32Exe)
    (found : o.pages[k]? = some page)
    (load : ObjectLoad) :
    o.lxMod.loadPage o.vmPtrObj load ((o.pagemap.toNat : Int) + k) =
      o.loadEntry load page := by
  have within := (List.getElem?_eq_some_iff.mp found).1
  have number : UInt32.ofInt ((o.pagemap.toNat : Int) + k) =
      o.pagemap + UInt32.ofNat k := by
    apply UInt32.toNat_inj.mp
    rw [o.toNat_pageNumber within, toNat_ofInt]
    have small := o.pageNumbers
    omega
  obtain ⟨rest, stands⟩ := o.restAt_mapPlace found
  have offset : o.lxMod.o32Pagedataoffset (o.mapPlace k) =
      .ok page.o32Pagedataoffset := by
    exact stands.readLong
  have size : o.lxMod.o32Pagesize (o.mapPlace k) = .ok page.o32Pagesize := by
    rw [O32Map.bytes, List.append_assoc, List.append_assoc] at stands
    exact stands.skip.readWord
  unfold LXModule.loadPage loadEntry emitCopy
  simp only [number, (o.entry_iff found).mpr objtab, offset, size, bind_ok,
    shiftLeft, if_pos o.pageshift, lxFseekStream_seekSet, lxFreadStream_one,
    LXModule.lxFreadElement, bind_assoc, pure_eq_ok]
  rfl

/-- Where the stream stands before a page, and how far the object is filled. -/
def positions (k : Nat) : Int × UInt32 :=
  (o.pages.take k).foldl o.behindPage (o.lxMod.lxStreamPos, 0)

theorem positions_fst (k : Nat) : (o.positions k).1 = o.streamBefore k := by
  have projects : ∀ state page, LXModule.advance (o.dataPlace (Prod.fst state) page)
        page.o32Pagesize.toNat = (o.behindPage state page).1 :=
    fun _ _ => rfl
  exact (List.foldl_hom Prod.fst projects).symm

theorem positions_succ (found : o.pages[k]? = some page) : (o.positions (k + 1)).2 =
      (o.positions k).2 + page.o32Pagesize.toUInt32 := by
  unfold positions
  rw [List.take_add_one, found, Option.toList_some, List.foldl_append]
  rfl

/-- The bytes that the loader reads for a page. -/
def readData (k : Nat) (page : O32Map) : List UInt8 :=
  bytesAt o.lxMod.lxFileStream (o.dataPlace (o.streamBefore k) page) page.o32Pagesize.toNat

/-- The data of a page is in the file. -/
def DataInside (k : Nat) (page : O32Map) : Prop :=
  Readable o.lxMod.lxFileStream (o.dataPlace (o.streamBefore k) page) page.o32Pagesize.toNat

theorem emitCopy_eq_ok_iff {copy : Copy} :
    o.emitCopy (o.positions k) page = .ok copy ↔ o.DataInside k page ∧
        copy = { address := (o.positions k).2 + o.vmPtrObj
                 bytes := o.readData k page } := by
  unfold emitCopy DataInside readData
  rw [bind_eq_ok_iff, o.positions_fst]
  constructor
  · rintro ⟨bytes, read, equal⟩
    obtain ⟨inside, rfl⟩ := readBytes_eq_ok_iff.mp read
    cases equal
    exact ⟨inside, rfl⟩
  · rintro ⟨inside, rfl⟩
    exact ⟨_, readBytes_eq_ok_iff.mpr ⟨inside, rfl⟩, rfl⟩

theorem loadEntry_loadState (state : Int × UInt32) (copies : List Copy) (page : O32Map) :
    o.loadEntry (loadState state copies) page = (do
      let copy ← o.emitCopy state page
      pure (loadState (o.behindPage state page) (copies ++ [copy]))) := rfl

theorem loadObjLx_eq (objtab : o.lxMod.lxHeadE32Exe.e32Objtab = UInt32.ofNat sizeofE32Exe) :
    o.lxMod.loadObjLx o.lxObj o.vmPtrObj =
      o.pages.foldlM o.loadEntry (loadState (o.lxMod.lxStreamPos, 0) []) := by
  unfold LXModule.loadObjLx
  rw [o.forPages_eq]
  exact foldlM_range_eq_foldlM (fun k page found load => o.loadPage_eq objtab found load) _

/-- The copies that a load has made: one a page, each with what the loader
reads for the page and behind the data of the pages before it. -/
structure Copied (load : ObjectLoad) : Prop where
  length : load.copies.length = o.pages.length
  inside : ∀ {k : Nat} {page : O32Map}, o.pages[k]? = some page → o.DataInside k page
  address : ∀ {k : Nat} {copy : Copy}, load.copies[k]? = some copy →
    copy.address = (o.positions k).2 + o.vmPtrObj
  bytes : ∀ {k : Nat} {page : O32Map} {copy : Copy},
    o.pages[k]? = some page → load.copies[k]? = some copy → copy.bytes = o.readData k page

theorem copied_of_loadObjLx (objtab : o.lxMod.lxHeadE32Exe.e32Objtab = UInt32.ofNat sizeofE32Exe)
    (loaded : o.lxMod.loadObjLx o.lxObj o.vmPtrObj = .ok load) :
    o.Copied load := by
  rw [o.loadObjLx_eq objtab] at loaded
  obtain ⟨copies, rfl, sameLength, emits⟩ := (foldlM_emit_eq_ok_iff o.loadEntry_loadState).mp loaded
  refine ⟨sameLength, ?_, ?_, ?_⟩
  · intro k page found
    have within := (List.getElem?_eq_some_iff.mp found).1
    have copyAt : copies[k]? = some copies[k] := List.getElem?_eq_getElem _
    exact (o.emitCopy_eq_ok_iff.mp (emits k _ _ found copyAt)).1
  · intro k copy found
    have within := (List.getElem?_eq_some_iff.mp found).1
    have pageAt : o.pages[k]? = some o.pages[k] := List.getElem?_eq_getElem _
    rw [(o.emitCopy_eq_ok_iff.mp (emits k _ _ pageAt found)).2]
  · intro k page copy found found'
    rw [(o.emitCopy_eq_ok_iff.mp (emits k _ _ found found')).2]

theorem returns_loadObjLx (objtab : o.lxMod.lxHeadE32Exe.e32Objtab = UInt32.ofNat sizeofE32Exe)
    (inside : ∀ k page, o.pages[k]? = some page → o.DataInside k page) :
    Returns (o.lxMod.loadObjLx o.lxObj o.vmPtrObj) := by
  rw [o.loadObjLx_eq objtab]
  apply returns_foldlM_emit o.loadEntry_loadState
  intro k page found
  exact ⟨_, o.emitCopy_eq_ok_iff.mpr ⟨inside k page found, rfl⟩⟩

/-- Every page but the last one is full. -/
def FullPages : Prop := ∀ k page, o.pages[k]? = some page → k + 1 < o.pages.length →
    page.o32Pagesize.toUInt32 = o.lxMod.getE32Pagesize

theorem positions_aligned_iff : (∀ k, k < o.pages.length →
        (o.positions k).2 = o.lxMod.getE32Pagesize * UInt32.ofNat k) ↔
      o.FullPages := by
  have next : ∀ k, o.lxMod.getE32Pagesize * UInt32.ofNat (k + 1) =
      o.lxMod.getE32Pagesize * UInt32.ofNat k + o.lxMod.getE32Pagesize := by
    intro k
    rw [UInt32.ofNat_add, UInt32.mul_add, show UInt32.ofNat 1 = 1 from rfl, UInt32.mul_one]
  constructor
  · intro aligned k page found within
    have behind := aligned (k + 1) within
    rw [o.positions_succ found, aligned k (by omega), next] at behind
    exact (UInt32.add_right_inj _).mp behind
  · intro full k within
    induction k with
    | zero =>
      change (0 : UInt32) = _
      rw [show UInt32.ofNat 0 = 0 from rfl, UInt32.mul_zero]
    | succ k ih =>
      have found : o.pages[k]? = some o.pages[k] := List.getElem?_eq_getElem _
      rw [o.positions_succ found, ih (by omega), next, full k _ found within]

theorem placed_iff (copied : o.Copied load) (within : k < o.pages.length) :
    (∃ copy, load.copies[k]? = some copy ∧ copy.address = o.lxMod.pageAddress o.vmPtrObj k) ↔
      (o.positions k).2 = o.lxMod.getE32Pagesize * UInt32.ofNat k := by
  unfold LXModule.pageAddress
  have bound : k < load.copies.length := by
    rw [copied.length]
    exact within
  have copyAt : load.copies[k]? = some load.copies[k] := List.getElem?_eq_getElem _
  constructor
  · rintro ⟨copy, found, address⟩
    rw [copied.address found, UInt32.add_comm] at address
    exact (UInt32.add_right_inj _).mp address
  · intro aligned
    refine ⟨_, copyAt, ?_⟩
    rw [copied.address copyAt, aligned, UInt32.add_comm]

theorem readData_length_le (k : Nat) (page : O32Map) :
    (o.readData k page).length ≤ page.o32Pagesize.toNat :=
  List.length_take_le ..

theorem tiled (copied : o.Copied load) (full : o.FullPages) :
    Tiled o.vmPtrObj o.lxMod.getE32Pagesize load.copies := by
  have pageAt : ∀ {k : Nat} {copy : Copy}, load.copies[k]? = some copy →
      ∃ page, o.pages[k]? = some page := by
    intro k copy found
    have within := (List.getElem?_eq_some_iff.mp found).1
    rw [copied.length] at within
    exact ⟨o.pages[k], List.getElem?_eq_getElem _⟩
  constructor
  · intro k copy found
    obtain ⟨page, foundPage⟩ := pageAt found
    have within := (List.getElem?_eq_some_iff.mp foundPage).1
    rw [copied.address found, o.positions_aligned_iff.mpr full k within, UInt32.add_comm]
  · intro k copy found
    obtain ⟨page, foundPage⟩ := pageAt found
    rw [copied.bytes foundPage found]
    exact (o.readData_length_le k page).trans (o.pagesizes page (List.mem_of_getElem? foundPage))
  · rw [copied.length]
    exact o.addressSpace

theorem filled_iff {data bytes : List UInt8} {held : Nat → UInt8}
    {pagesize : Nat} (sameLength : bytes.length = data.length)
    (fits : data.length ≤ pagesize) :
    (∀ j, j < pagesize → (data ++ List.replicate (pagesize - data.length) 0)[j]? =
          some (bytes.getD j (held j))) ↔
      bytes = data ∧
        ∀ j, data.length ≤ j → j < pagesize → held j = 0 := by
  constructor
  · intro filled
    constructor
    · apply List.ext_getElem sameLength
      intro j within within'
      have here := filled j (by omega)
      rw [List.getElem?_append_left within', List.getElem?_eq_getElem within',
        List.getD_eq_getElem _ _ within] at here
      exact (Option.some.inj here).symm
    · intro j behind within
      have here := filled j within
      rw [List.getElem?_append_right behind, List.getD_eq_default _ _ (by omega),
        List.getElem?_replicate_of_lt (by omega)] at here
      exact (Option.some.inj here).symm
  · rintro ⟨rfl, clear⟩ j within
    by_cases inside : j < bytes.length
    · rw [List.getElem?_append_left inside, List.getElem?_eq_getElem inside,
        List.getD_eq_getElem _ _ inside]
    · rw [List.getElem?_append_right (by omega), List.getD_eq_default _ _ (by omega),
        List.getElem?_replicate_of_lt (by omega),
        clear j (by omega) within]

theorem dataPlace_of_valid (member : page ∈ o.pages)
    (flags : page.o32Pageflags = valid) (before : Int) :
    o.dataPlace before page = o.dataOffset page := by
  have inside := o.pageData page member flags
  have small := o.streamSmall
  have shiftMod : o.lxMod.getE32Pageshift.toNat % 32 =
      o.lxMod.getE32Pageshift.toNat := Nat.mod_eq_of_lt o.pageshift
  have value : (page.o32Pagedataoffset <<< o.lxMod.getE32Pageshift +
      o.lxMod.getE32Datapage).toNat = o.dataOffset page := by
    simp only [UInt32.toNat_add, UInt32.toNat_shiftLeft, shiftMod, Nat.shiftLeft_eq, Nat.reducePow]
    unfold dataOffset
    omega
  unfold dataPlace LXModule.seekPlace
  rw [signedLong_of_lt (by rw [value]; unfold dataOffset; omega), value, o.streamSize, if_pos]
  unfold dataOffset
  omega

theorem readData_of_valid (found : o.pages[k]? = some page) (flags : page.o32Pageflags = valid) :
    o.readData k page = bytesAt o.lxMod.lxFileStream (o.dataOffset page)
      page.o32Pagesize.toNat := by
  unfold readData
  rw [o.dataPlace_of_valid (List.mem_of_getElem? found) flags]

theorem readData_length (inside : o.DataInside k page) :
    (o.readData k page).length = page.o32Pagesize.toNat := by
  unfold readData bytesAt
  rw [List.length_take, List.length_drop]
  unfold DataInside Readable Inside at inside
  omega

theorem pageFilled_iff (copied : o.Copied load) (full : o.FullPages) (initial : Memory)
    (found : o.pages[k]? = some page) :
    (∀ content, o.content page = some content → ∀ j, j < o.lxMod.getE32Pagesize.toNat →
          content[j]? = some (initial.storeAll load.copies
            (o.lxMod.pageAddress o.vmPtrObj k + UInt32.ofNat j))) ↔
      (page.o32Pageflags = invalid ∨ page.o32Pageflags = zeroed →
          o.readData k page = List.replicate page.o32Pagesize.toNat 0) ∧
        ((o.content page).isSome → ∀ j, page.o32Pagesize.toNat ≤ j →
            j < o.lxMod.getE32Pagesize.toNat →
              initial (o.lxMod.pageAddress o.vmPtrObj k + UInt32.ofNat j) =
                0) := by
  have within := (List.getElem?_eq_some_iff.mp found).1
  rw [← copied.length] at within
  have copyAt : load.copies[k]? = some load.copies[k] := List.getElem?_eq_getElem _
  have held : ∀ j, j < o.lxMod.getE32Pagesize.toNat → initial.storeAll load.copies
          (o.lxMod.pageAddress o.vmPtrObj k + UInt32.ofNat j) =
        (o.readData k page).getD j
          (initial (o.lxMod.pageAddress o.vmPtrObj k + UInt32.ofNat j)) := by
    intro j inside
    rw [← copied.bytes found copyAt]
    exact (o.tiled copied full).storeAll initial copyAt inside
  have dataLength := o.readData_length (copied.inside found)
  have short := o.pagesizes page (List.mem_of_getElem? found)
  have asks : ∀ data : List UInt8, data.length = page.o32Pagesize.toNat →
      o.content page = some (data ++ List.replicate
        (o.lxMod.getE32Pagesize.toNat - data.length) 0) →
      ((∀ content, o.content page = some content → ∀ j, j < o.lxMod.getE32Pagesize.toNat →
            content[j]? = some (initial.storeAll load.copies
              (o.lxMod.pageAddress o.vmPtrObj k + UInt32.ofNat j))) ↔
        o.readData k page = data ∧ ((o.content page).isSome →
            ∀ j, page.o32Pagesize.toNat ≤ j → j < o.lxMod.getE32Pagesize.toNat →
                initial (o.lxMod.pageAddress o.vmPtrObj k + UInt32.ofNat j) =
                  0)) := by
    intro data sameLength asked
    rw [asked]
    simp only [Option.some.injEq, forall_eq', Option.isSome_some, forall_true_left]
    rw [← sameLength, ← filled_iff (by omega) (by omega)]
    apply forall₂_congr
    intro j inside
    rw [held j inside]
  by_cases fromFile : page.o32Pageflags = valid
  · have other : ¬ (page.o32Pageflags = invalid ∨
        page.o32Pageflags = zeroed) := by
      rw [fromFile]
      decide
    rw [asks (o.readData k page) dataLength]
    · simp [other]
    · rw [dataLength, o.readData_of_valid found fromFile]
      exact if_pos fromFile
  · by_cases blank : page.o32Pageflags = invalid ∨ page.o32Pageflags = zeroed
    · rw [asks (List.replicate page.o32Pagesize.toNat 0) List.length_replicate]
      · simp [blank]
      · rw [List.length_replicate, List.replicate_append_replicate, Nat.add_sub_cancel' short]
        unfold content
        rw [if_neg fromFile, if_pos blank]
    · have unknown : o.content page = none := by
        unfold content
        rw [if_neg fromFile, if_neg blank]
      simp [unknown, blank]

/-- Loading an object places all of its pages exactly when the loader section
starts behind the header structure and every page fits. -/
theorem placesPages_iff_pagesFit (initial : Memory) :
    o.PlacesPages initial ↔ o.PagesFit initial := by
  constructor
  · rintro ⟨load, loaded, stands⟩
    have objtab : o.pages ≠ [] →
        o.lxMod.lxHeadE32Exe.e32Objtab = UInt32.ofNat sizeofE32Exe := by
      intro nonempty
      have found := List.getElem?_eq_getElem (List.length_pos_of_ne_nil nonempty)
      exact (o.entry_iff found).mp (stands 0 _ found).entry
    refine ⟨objtab, fun k page found => ?_⟩
    have nonempty := o.nonempty_of_getElem? found
    have copied := o.copied_of_loadObjLx (objtab nonempty) loaded
    have full : o.FullPages := by
      apply o.positions_aligned_iff.mp
      intro k within
      have found : o.pages[k]? = some o.pages[k] := List.getElem?_eq_getElem _
      exact (o.placed_iff copied within).mp (stands k _ found).placed
    obtain ⟨blank, clear⟩ := (o.pageFilled_iff copied full initial found).mp
        (stands k page found).filled
    exact ⟨full k page found, copied.inside found, blank, clear⟩
  · rintro ⟨objtab, fits⟩
    by_cases empty : o.pages = []
    · refine ⟨loadState (o.lxMod.lxStreamPos, 0) [], ?_, ?_⟩
      · unfold LXModule.loadObjLx
        rw [o.forPages_eq, empty]
        rfl
      · intro k page found
        exact absurd empty (o.nonempty_of_getElem? found)
    · obtain ⟨load, loaded⟩ := o.returns_loadObjLx (objtab empty)
        (fun k page found => (fits k page found).inside)
      have copied := o.copied_of_loadObjLx (objtab empty) loaded
      have full : o.FullPages := fun k page found => (fits k page found).full
      refine ⟨load, loaded, fun k page found => ⟨?_, ?_, ?_⟩⟩
      · exact (o.entry_iff found).mpr (objtab empty)
      · have within := (List.getElem?_eq_some_iff.mp found).1
        exact (o.placed_iff copied within).mpr (o.positions_aligned_iff.mpr full k within)
      · exact (o.pageFilled_iff copied full initial found).mpr
          ⟨(fits k page found).blank, (fits k page found).clear⟩

end PagedObject

/-- A module of one object with two pages, of two and of four bytes. -/
def shortPageModule : LXModule :=
  { lxHeadE32Exe :=
      { (default : E32Exe) with
        e32Pagesize := 4096
        e32Pageshift := 2
        e32Objtab := 196
        e32Objcnt := 1
        e32Objmap := 220
        e32Datapage := 236 }
    loaderSection := longBytes 8192 ++ longBytes 65536 ++ longBytes 7 ++ longBytes 1 ++
        longBytes 2 ++ longBytes 65536 ++
        O32Map.bytes
          { o32Pagedataoffset := 0, o32Pagesize := 2, o32Pageflags := valid } ++
        O32Map.bytes
          { o32Pagedataoffset := 1, o32Pagesize := 4, o32Pageflags := valid }
    fixupSection := []
    offsLxHead := 0
    lxFileStream := List.replicate 236 0 ++ [1, 2, 0, 0, 3, 4, 5, 6]
    lxStreamSize := 244
    lxStreamPos := 0 }

/-- Its object, at the address `65536`. -/
def shortPageObject : PagedObject where
  lxMod := shortPageModule
  lxObj := getObj 1
  pagemap := 1
  pages :=
    [{ o32Pagedataoffset := 0, o32Pagesize := 2, o32Pageflags := valid },
      { o32Pagedataoffset := 1, o32Pagesize := 4, o32Pageflags := valid }]
  vmPtrObj := 65536
  pagemapRead := by decide
  mapsizeRead := by decide
  reservedRead := by decide
  pageNumbers := by decide
  firstPage := by decide
  pageTable := fun _ =>
    ⟨[], shortPageModule.loaderSection.take 24, by decide, by decide⟩
  sectionSmall := by decide
  streamSize := by decide +kernel
  streamSmall := by decide +kernel
  pageshift := by decide
  pagesizes := by decide
  pageData := by decide +kernel
  addressSpace := by decide

/-- The second page is put two bytes behind the first one, where the fixup pass
looks for it 4096 bytes behind. -/
theorem not_placesPages_shortPageObject :
    ¬ shortPageObject.PlacesPages (fun _ => 0) := by
  rintro ⟨load, loaded, stands⟩
  have copies : load.copies =
      [{ address := 65536, bytes := [1, 2] },
        { address := 65538, bytes := [3, 4, 5, 6] }] := by
    have loads : shortPageObject.lxMod.loadObjLx shortPageObject.lxObj
        shortPageObject.vmPtrObj = .ok
          { lxStreamPos := 244, codeMmapPos := 6,
            copies :=
              [{ address := 65536, bytes := [1, 2] },
                { address := 65538, bytes := [3, 4, 5, 6] }] } := by
      decide +kernel
    rw [loads] at loaded
    cases loaded
    rfl
  obtain ⟨copy, found, address⟩ := (stands 1 _ rfl).placed
  rw [copies] at found
  cases found
  revert address
  decide

end OsFree.Lx
