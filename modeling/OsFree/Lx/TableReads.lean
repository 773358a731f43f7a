import OsFree.Lx.EntryTable
import OsFree.Lx.FixupFill

/-!
# Names that can be read

The names of the imported modules follow each other in the fixup section, each
with a length byte in front.  The search for a name is not told where the table
ends; this is what has to stand in the section for it to come back.
-/

namespace OsFree.Lx

open Machine

/-- Length-prefixed strings lead from one place to another. -/
inductive NamesTo (buffer : List UInt8) : Int → Nat → Int → Prop where
  | here (place : Int) : NamesTo buffer place 0 place
  | next {place last : Int} {count : Nat} {length : UInt8}
      (read : readByte buffer place = .ok length)
      (rest : NamesTo buffer (place + signedByte length + 1) count last) :
      NamesTo buffer place (count + 1) last

/-- A length-prefixed string is inside the buffer. -/
def NameInside (buffer : List UInt8) (place : Int) : Prop :=
  ∃ length, readByte buffer place = .ok length ∧
    Readable buffer (place + 1) (signedByte length).toNat

/-- A zero byte stands at a place or behind it. -/
def ZeroBehind (buffer : List UInt8) (place : Int) : Prop :=
  0 ≤ place ∧ ∃ k : Nat, readByte buffer (place + k) = .ok 0

namespace LXModule

variable (lxMod : LXModule)

/-- The name of an imported module is inside the fixup section, and so are the
lengths of the names before it.  Printing the table needs a zero behind it. -/
structure ModNameInside (modIdx : Int) : Prop where
  counted : 1 ≤ modIdx
  printed : ZeroBehind lxMod.fixupSection lxMod.impModTable
  found : ∃ place, NamesTo lxMod.fixupSection lxMod.impModTable
    (modIdx - 1).toNat place ∧ NameInside lxMod.fixupSection place

end LXModule

variable {buffer : List UInt8} {place : Int}

theorem skipNames_eq_ok_iff {count : Nat} :
    ∀ {place last : Int}, skipNames buffer count place = .ok last ↔
      NamesTo buffer place count last := by
  induction count with
  | zero =>
    intro place last
    constructor
    · intro returned
      cases returned
      exact .here place
    · intro names
      cases names
      rfl
  | succ count ih =>
    intro place last
    rw [skipNames, bind_eq_ok_iff]
    constructor
    · rintro ⟨length, read, returned⟩
      exact .next read (ih.mp returned)
    · intro names
      cases names with
      | next read rest =>
        exact ⟨_, read, ih.mpr rest⟩

theorem returns_copyPasStr_iff :
    Returns (copyPasStr buffer place) ↔ NameInside buffer place := by
  unfold copyPasStr NameInside
  rw [returns_bind_iff]
  simp only [returns_readBytes_iff]

theorem zeroBehind_step {byte : UInt8}
    (read : readByte buffer place = .ok byte) (different : byte ≠ 0) :
    ZeroBehind buffer place ↔ ZeroBehind buffer (place + 1) := by
  have nonnegative := (readByte_eq_ok_iff.mp read).1
  constructor
  · rintro ⟨_, k, zero⟩
    cases k with
    | zero =>
      rw [Nat.cast_zero, add_zero, read] at zero
      cases zero
      exact absurd rfl different
    | succ k =>
      refine ⟨by omega, k, ?_⟩
      rw [← zero]
      congr 1
      omega
  · rintro ⟨_, k, zero⟩
    refine ⟨nonnegative, k + 1, ?_⟩
    rw [← zero]
    congr 1
    omega

theorem returns_logToZero_iff {fuel : Nat} : ∀ {place : Int}, (buffer.length : Int) ≤ place + fuel →
      (Returns (logToZero buffer fuel place) ↔ ZeroBehind buffer place) := by
  induction fuel with
  | zero =>
    intro place enough
    rw [logToZero]
    have outside : ¬ ZeroBehind buffer place := by
      rintro ⟨nonnegative, k, zero⟩
      have inside := returns_readByte_iff.mp ⟨_, zero⟩
      unfold Inside at inside
      omega
    simp [outside]
  | succ fuel ih =>
    intro place enough
    rw [logToZero, returns_bind_iff]
    constructor
    · rintro ⟨byte, read, returned⟩
      by_cases ended : byte = 0
      · have nonnegative := (readByte_eq_ok_iff.mp read).1
        exact ⟨nonnegative, 0, by simpa [ended] using read⟩
      · rw [if_neg ended] at returned
        exact (zeroBehind_step read ended).mpr ((ih (by omega)).mp returned)
    · intro behind
      obtain ⟨nonnegative, k, zero⟩ := behind
      have inside : Inside buffer place 1 := by
        have last := returns_readByte_iff.mp ⟨_, zero⟩
        unfold Inside at last ⊢
        omega
      obtain ⟨byte, read⟩ := returns_readByte_iff.mpr inside
      refine ⟨byte, read, ?_⟩
      by_cases ended : byte = 0
      · rw [if_pos ended]
        exact returns_ok _
      · rw [if_neg ended]
        exact (ih (by omega)).mpr ((zeroBehind_step read ended).mp ⟨nonnegative, k, zero⟩)

theorem returns_logToZero_length_iff : Returns (logToZero buffer buffer.length place) ↔
      ZeroBehind buffer place := by
  by_cases nonnegative : 0 ≤ place
  · exact returns_logToZero_iff (by omega)
  · have outside : ¬ ZeroBehind buffer place := fun behind =>
      nonnegative behind.1
    refine iff_of_false ?_ outside
    intro returned
    cases bufferLength : buffer.length with
    | zero =>
      rw [bufferLength, logToZero] at returned
      exact not_returns_error _ returned
    | succ fuel =>
      rw [bufferLength, logToZero, returns_bind_iff] at returned
      obtain ⟨byte, read, -⟩ := returned
      exact nonnegative (readByte_eq_ok_iff.mp read).1

theorem returns_getImpModNameCstr_iff {lxMod : LXModule} {modIdx : Int} :
    Returns (lxMod.getImpModNameCstr modIdx) ↔
      lxMod.ModNameInside modIdx := by
  unfold LXModule.getImpModNameCstr LXModule.getImpModName
  constructor
  · intro returned
    obtain ⟨place, located, returned⟩ := returns_bind_iff.mp returned
    obtain ⟨_, printed, located⟩ := bind_eq_ok_iff.mp located
    have copied : Returns (copyPasStr lxMod.fixupSection place) := by
      obtain ⟨name, copied, -⟩ := returns_bind_iff.mp returned
      exact ⟨name, copied⟩
    by_cases counted : 1 ≤ modIdx
    · rw [if_pos counted] at located
      exact ⟨counted, returns_logToZero_length_iff.mp ⟨_, printed⟩, place,
        skipNames_eq_ok_iff.mp located, returns_copyPasStr_iff.mp copied⟩
    · rw [if_neg counted] at located
      obtain ⟨_, _, located⟩ := bind_eq_ok_iff.mp located
      cases located
  · rintro ⟨counted, printed, place, names, inside⟩
    obtain ⟨_, prints⟩ := returns_logToZero_length_iff.mpr printed
    obtain ⟨name, copied⟩ := returns_copyPasStr_iff.mpr inside
    rw [prints, bind_ok, if_pos counted, skipNames_eq_ok_iff.mpr names, bind_ok, copied]
    exact returns_ok _

/-!
## What the conversions read

The conversion of the entry table walks over the bundles twice, once to count
their entries and once to fill the array; the conversion of the fixup table
walks over the fixup records.  Neither walk is told where its section ends.
-/

/-- The bytes that the loader steps over at a bundle with a number of entries.
There is no size for a type it does not know. -/
def bundleWidth (b32Type : UInt8) (count : Nat) : Option Nat :=
  if b32Type = empty then some unusedEntrySize
  else if b32Type = entry32 then some (entryHeaderSize + entry32Size * count)
  else if b32Type = entryFwd then
    some (entryHeaderSize + forwardEntrySize * count)
  else none

namespace LXModule

variable (lxMod : LXModule)

/-- The count and the type of a bundle are inside the loader section. -/
def BundleHead (entryTable : Int) (b32Cnt b32Type : UInt8) : Prop :=
  readByte lxMod.loaderSection entryTable = .ok b32Cnt ∧ b32Cnt ≠ 0 ∧
    readByte lxMod.loaderSection (entryTable + 1) = .ok b32Type

/-- The walk that counts the entries stays inside the loader section.  It ends
at a zero, or without a count at a bundle of an unsupported type. -/
inductive CountsTo : Int → UInt32 → Option UInt32 → Prop where
  | stop {entryTable : Int} {cbEntries : UInt32}
      (closed : readByte lxMod.loaderSection entryTable = .ok 0) :
      CountsTo entryTable cbEntries (some cbEntries)
  | unsupported {entryTable : Int} {cbEntries : UInt32} {b32Cnt b32Type : UInt8}
      (head : lxMod.BundleHead entryTable b32Cnt b32Type)
      (unknown : bundleWidth b32Type b32Cnt.toNat = none) :
      CountsTo entryTable cbEntries none
  | bundle {entryTable : Int} {cbEntries : UInt32}
      {b32Cnt b32Type : UInt8} {width : Nat} {counted : Option UInt32}
      (head : lxMod.BundleHead entryTable b32Cnt b32Type)
      (known : bundleWidth b32Type b32Cnt.toNat = some width)
      (rest : CountsTo (entryTable + width) (cbEntries + b32Cnt.toUInt32) counted) :
      CountsTo entryTable cbEntries counted

/-- What filling reads for a 32-bit entry: its offset, the object number of the
bundle and the base address in the entry of that object. -/
def Entry32Inside (entryTable entryPost : Int) : Prop :=
  Inside lxMod.loaderSection (entryPost + 1) 4 ∧
    ∃ b32Obj, readWord lxMod.loaderSection (entryTable + 2) = .ok b32Obj ∧
      Inside lxMod.loaderSection (getObj b32Obj.toUInt32 + 4) 4

/-- What filling reads for a forwarder: its fields and the module name that it
selects. -/
def ForwardInside (entryPost : Int) : Prop := Inside lxMod.loaderSection (entryPost + 3) 4 ∧
    ∃ modord, readWord lxMod.loaderSection (entryPost + 1) = .ok modord ∧
      lxMod.ModNameInside modord.toNat

/-- What filling reads for an entry of a bundle. -/
def EntryInside (b32Type : UInt8) (entryTable : Int) (k : Nat) : Prop :=
  if b32Type = empty then True
  else if b32Type = entry32 then
    lxMod.Entry32Inside entryTable (entryTable + entryHeaderSize + entry32Size * k)
  else
    lxMod.ForwardInside (entryTable + entryHeaderSize + forwardEntrySize * k)

/-- The walk that fills an array of `total` entries stays inside the loader
section and inside the array. -/
inductive FillsTo (total : Nat) : Int → UInt32 → Prop where
  | stop {entryTable : Int} {cbEntries : UInt32}
      (closed : readByte lxMod.loaderSection entryTable = .ok 0) :
      FillsTo total entryTable cbEntries
  | unsupported {entryTable : Int} {cbEntries : UInt32} {b32Cnt b32Type : UInt8}
      (head : lxMod.BundleHead entryTable b32Cnt b32Type)
      (unknown : bundleWidth b32Type (bundleTurns cbEntries b32Cnt) = none) :
      FillsTo total entryTable cbEntries
  | bundle {entryTable : Int} {cbEntries : UInt32} {b32Cnt b32Type : UInt8} {width : Nat}
      (head : lxMod.BundleHead entryTable b32Cnt b32Type)
      (known : bundleWidth b32Type (bundleTurns cbEntries b32Cnt) = some width)
      (entries : ∀ k < bundleTurns cbEntries b32Cnt, lxMod.EntryInside b32Type entryTable k ∧
          (cbEntries + UInt32.ofNat k - 1).toNat < total)
      (rest : FillsTo total (entryTable + width) (cbEntries + b32Cnt.toUInt32)) :
      FillsTo total entryTable cbEntries

/-- Both walks over the entry table stay inside; this is the count. -/
def EntryTableRead (counted : Option UInt32) : Prop :=
  lxMod.CountsTo lxMod.entryTable 0 counted ∧ ∀ total, counted = some total →
      lxMod.FillsTo total.toNat lxMod.entryTable 1

/-- The fixup records that the page tables lead to are inside the fixup section
and, unless there are no imports modulo the range of their counter, what these
records refer to is inside as well. -/
def FixupTableRead : Prop := ∃ places, lxMod.ModuleRecords places ∧
    (4294967296 ∣ lxMod.importCount places ∨ (∀ i < lxMod.getObjNum.toNat,
          lxMod.ReservedReadable (getObj (UInt32.ofNat (i + 1)))) ∧
        ∀ place ∈ places, lxMod.isImport place.minRlc → lxMod.ImportReadable place.minRlc)

end LXModule

variable {lxMod : LXModule}

variable {fuel : Nat} {entryTable : Int} {cbEntries : UInt32} {b32Cnt b32Type : UInt8}
  {entries : List (Option IXFModuleEntry)}

theorem countEntries_head (head : lxMod.BundleHead entryTable b32Cnt b32Type) :
    lxMod.countEntries (fuel + 1) entryTable cbEntries =
      match bundleWidth b32Type b32Cnt.toNat with
      | none => .ok none
      | some width =>
        lxMod.countEntries fuel (entryTable + width)
          (cbEntries + b32Cnt.toUInt32) := by
  obtain ⟨count, positive, type⟩ := head
  rw [LXModule.countEntries, count, bind_ok, if_neg positive, type, bind_ok]
  unfold bundleWidth
  by_cases unused : b32Type = empty
  · rw [if_pos unused, if_pos unused]
  · rw [if_neg unused, if_neg unused]
    by_cases wide : b32Type = entry32
    · rw [if_pos wide, if_pos wide]
      simp only [Nat.cast_add, Nat.cast_mul, Int.add_assoc]
    · rw [if_neg wide, if_neg wide]
      by_cases forward : b32Type = entryFwd
      · rw [if_pos forward, if_pos forward]
        simp only [Nat.cast_add, Nat.cast_mul, Int.add_assoc]
      · rw [if_neg forward, if_neg forward]
        rfl

theorem LXModule.BundleHead.inside (head : lxMod.BundleHead entryTable b32Cnt b32Type) :
    0 ≤ entryTable ∧ entryTable + 2 ≤ lxMod.loaderSection.length := by
  have first := returns_readByte_iff.mp ⟨_, head.1⟩
  have second := returns_readByte_iff.mp ⟨_, head.2.2⟩
  unfold Inside at first second
  omega

theorem two_le_bundleWidth {count width : Nat}
    (known : bundleWidth b32Type count = some width) : 2 ≤ width := by
  unfold bundleWidth unusedEntrySize entryHeaderSize at known
  split at known
  · cases known
    exact le_rfl
  · split at known
    · cases known
      omega
    · split at known
      · cases known
        omega
      · cases known

theorem countEntries_eq_ok_iff {counted : Option UInt32} :
    ∀ {entryTable : Int} {cbEntries : UInt32},
      (0 ≤ entryTable → (lxMod.loaderSection.length : Int) ≤ entryTable + fuel) →
      (lxMod.countEntries fuel entryTable cbEntries = .ok counted ↔
        lxMod.CountsTo entryTable cbEntries counted) := by
  induction fuel with
  | zero =>
    intro entryTable cbEntries enough
    have outside : ∀ byte,
        readByte lxMod.loaderSection entryTable ≠ .ok byte := by
      intro byte read
      have inside := returns_readByte_iff.mp ⟨_, read⟩
      unfold Inside at inside
      omega
    constructor
    · intro returned
      cases returned
    · intro counts
      cases counts with
      | stop closed => exact absurd closed (outside 0)
      | unsupported head _ => exact absurd head.1 (outside _)
      | bundle head _ _ => exact absurd head.1 (outside _)
  | succ fuel ih =>
    intro entryTable cbEntries enough
    constructor
    · intro returned
      have walked := returned
      obtain ⟨b32Cnt, count, returned⟩ := bind_eq_ok_iff.mp returned
      by_cases closed : b32Cnt = 0
      · rw [if_pos closed] at returned
        cases returned
        rw [closed] at count
        exact .stop count
      · rw [if_neg closed] at returned
        obtain ⟨b32Type, type, -⟩ := bind_eq_ok_iff.mp returned
        have head : lxMod.BundleHead entryTable b32Cnt b32Type := ⟨count, closed, type⟩
        rw [countEntries_head head] at walked
        cases known : bundleWidth b32Type b32Cnt.toNat with
        | none =>
          rw [known] at walked
          cases walked
          exact .unsupported head known
        | some width =>
          rw [known] at walked
          have step := two_le_bundleWidth known
          have bounds := head.inside
          exact .bundle head known ((ih (by omega)).mp walked)
    · intro counts
      cases counts with
      | stop closed =>
        rw [LXModule.countEntries, closed]
        rfl
      | unsupported head unknown =>
        rw [countEntries_head head, unknown]
      | bundle head known rest =>
        have step := two_le_bundleWidth known
        have bounds := head.inside
        rw [countEntries_head head, known]
        exact (ih (by omega)).mpr rest

/-- The entry that is stored for the `k`-th entry of a bundle. -/
def LXModule.slotAt (lxMod : LXModule) (b32Type : UInt8) (entryTable : Int)
    (k : Nat) : Run IXFModuleEntry :=
  if b32Type = empty then pure unusedSlot
  else if b32Type = entry32 then
    lxMod.entry32Slot entryTable (entryTable + entryHeaderSize + entry32Size * k)
  else
    lxMod.forwardSlot (entryTable + entryHeaderSize + forwardEntrySize * k)

theorem fillEntries_head (head : lxMod.BundleHead entryTable b32Cnt b32Type) :
    lxMod.fillEntries (fuel + 1) entryTable cbEntries entries =
      match bundleWidth b32Type (bundleTurns cbEntries b32Cnt) with
      | none => .ok { cbEntries, entries }
      | some width => (do
          let entries ← fillBundle cbEntries (bundleTurns cbEntries b32Cnt)
            (lxMod.slotAt b32Type entryTable) entries
          lxMod.fillEntries fuel (entryTable + width)
            (cbEntries + b32Cnt.toUInt32) entries) := by
  obtain ⟨count, positive, type⟩ := head
  rw [LXModule.fillEntries, count, bind_ok, if_neg positive, type, bind_ok]
  unfold bundleWidth LXModule.slotAt
  by_cases unused : b32Type = empty
  · simp only [if_pos unused]
  · by_cases wide : b32Type = entry32
    · simp only [if_neg unused, if_pos wide, Nat.cast_add, Nat.cast_mul, Int.add_assoc]
    · by_cases forward : b32Type = entryFwd
      · simp only [if_neg unused, if_neg wide, if_pos forward, Nat.cast_add,
          Nat.cast_mul, Int.add_assoc]
      · simp only [if_neg unused, if_neg wide, if_neg forward]
        rfl

theorem returns_entry32Slot_iff {entryPost : Int} :
    Returns (lxMod.entry32Slot entryTable entryPost) ↔
      lxMod.Entry32Inside entryTable entryPost := by
  unfold LXModule.entry32Slot LXModule.Entry32Inside LXModule.o32Base
  simp only [returns_bind_iff, pure_eq_ok, returns_ok, and_true, ← returns_readLong_iff]
  constructor
  · rintro ⟨offset32, offset, b32Obj, object, base⟩
    exact ⟨⟨offset32, offset⟩, b32Obj, object, base⟩
  · rintro ⟨⟨offset32, offset⟩, b32Obj, object, base⟩
    exact ⟨offset32, offset, b32Obj, object, base⟩

theorem returns_forwardSlot_iff {entryPost : Int} : Returns (lxMod.forwardSlot entryPost) ↔
      lxMod.ForwardInside entryPost := by
  unfold LXModule.forwardSlot LXModule.ForwardInside
  simp only [returns_bind_iff, pure_eq_ok, returns_ok, and_true,
    ← returns_readLong_iff, ← returns_getImpModNameCstr_iff]
  constructor
  · rintro ⟨value, read, modord, ordinal, name⟩
    exact ⟨⟨value, read⟩, modord, ordinal, name⟩
  · rintro ⟨⟨value, read⟩, modord, ordinal, name⟩
    exact ⟨value, read, modord, ordinal, name⟩

theorem returns_slotAt_iff {k : Nat} : Returns (lxMod.slotAt b32Type entryTable k) ↔
      lxMod.EntryInside b32Type entryTable k := by
  unfold LXModule.slotAt LXModule.EntryInside
  by_cases unused : b32Type = empty
  · simp [unused]
  · rw [if_neg unused, if_neg unused]
    by_cases wide : b32Type = entry32
    · rw [if_pos wide, if_pos wide]
      exact returns_entry32Slot_iff
    · rw [if_neg wide, if_neg wide]
      exact returns_forwardSlot_iff

theorem storeEntry_length {entries' : List (Option IXFModuleEntry)}
    {index : UInt32} {entry : IXFModuleEntry}
    (stored : storeEntry entries index entry = .ok entries') :
    entries'.length = entries.length := by
  unfold storeEntry at stored
  split at stored
  · cases stored
    exact List.length_set
  · cases stored

theorem returns_storeEntry_iff {index : UInt32} {entry : IXFModuleEntry} :
    Returns (storeEntry entries index entry) ↔
      index.toNat < entries.length := by
  unfold storeEntry
  rw [returns_ite_error_iff]
  simp

theorem fillBundle_length {turns : Nat} {entryAt : Nat → Run IXFModuleEntry}
    {entries' : List (Option IXFModuleEntry)}
    (filled : fillBundle cbEntries turns entryAt entries = .ok entries') :
    entries'.length = entries.length := by
  refine @foldlM_keeps _ _ _ (fun held => held.length = entries.length) _ ?_ _ _ rfl filled
  intro k _ state state' kept stored
  obtain ⟨entry, -, stored⟩ := bind_eq_ok_iff.mp stored
  exact (storeEntry_length stored).trans kept

theorem returns_fillBundle_iff {turns : Nat} {entryAt : Nat → Run IXFModuleEntry} :
    Returns (fillBundle cbEntries turns entryAt entries) ↔ ∀ k < turns, Returns (entryAt k) ∧
        (cbEntries + UInt32.ofNat k - 1).toNat < entries.length := by
  unfold fillBundle
  rw [@returns_foldlM_iff_of_keeps _ _ _ (fun held => held.length = entries.length)
    (fun k => Returns (entryAt k) ∧
      (cbEntries + UInt32.ofNat k - 1).toNat < entries.length) _ _ _ _ rfl]
  · simp only [List.mem_range]
  · intro k _ state state' kept stored
    obtain ⟨entry, -, stored⟩ := bind_eq_ok_iff.mp stored
    exact (storeEntry_length stored).trans kept
  · intro k _ state kept
    rw [returns_bind_iff]
    simp only [returns_storeEntry_iff, kept]
    exact exists_and_right

theorem returns_fillEntries_iff : ∀ {entryTable : Int} {cbEntries : UInt32}
      {entries : List (Option IXFModuleEntry)},
      (0 ≤ entryTable → (lxMod.loaderSection.length : Int) ≤ entryTable + fuel) →
      (Returns (lxMod.fillEntries fuel entryTable cbEntries entries) ↔
        lxMod.FillsTo entries.length entryTable cbEntries) := by
  induction fuel with
  | zero =>
    intro entryTable cbEntries entries enough
    have outside : ∀ byte,
        readByte lxMod.loaderSection entryTable ≠ .ok byte := by
      intro byte read
      have inside := returns_readByte_iff.mp ⟨_, read⟩
      unfold Inside at inside
      omega
    constructor
    · intro returned
      exact absurd returned (not_returns_error _)
    · intro fills
      cases fills with
      | stop closed => exact absurd closed (outside 0)
      | unsupported head _ => exact absurd head.1 (outside _)
      | bundle head _ _ _ => exact absurd head.1 (outside _)
  | succ fuel ih =>
    intro entryTable cbEntries entries enough
    constructor
    · intro returned
      have walked := returned
      obtain ⟨b32Cnt, count, returned⟩ := returns_bind_iff.mp returned
      by_cases closed : b32Cnt = 0
      · rw [closed] at count
        exact .stop count
      · rw [if_neg closed] at returned
        obtain ⟨b32Type, type, -⟩ := returns_bind_iff.mp returned
        have head : lxMod.BundleHead entryTable b32Cnt b32Type := ⟨count, closed, type⟩
        rw [fillEntries_head head] at walked
        cases known : bundleWidth b32Type (bundleTurns cbEntries b32Cnt) with
        | none => exact .unsupported head known
        | some width =>
          rw [known] at walked
          have step := two_le_bundleWidth known
          have bounds := head.inside
          obtain ⟨filled, fills, walked⟩ := returns_bind_iff.mp walked
          have each := returns_fillBundle_iff.mp ⟨filled, fills⟩
          have rest := (ih (by omega)).mp walked
          rw [fillBundle_length fills] at rest
          refine .bundle head known ?_ rest
          intro k small
          exact ⟨returns_slotAt_iff.mp (each k small).1, (each k small).2⟩
    · intro fills
      cases fills with
      | stop closed =>
        rw [LXModule.fillEntries, closed]
        exact returns_ok _
      | unsupported head unknown =>
        rw [fillEntries_head head, unknown]
        exact returns_ok _
      | bundle head known each rest =>
        have step := two_le_bundleWidth known
        have bounds := head.inside
        obtain ⟨filled, fills⟩ := returns_fillBundle_iff.mpr
          fun k small => ⟨returns_slotAt_iff.mpr (each k small).1, (each k small).2⟩
        rw [← fillBundle_length fills] at rest
        rw [fillEntries_head head, known]
        exact returns_bind_iff.mpr ⟨filled, fills, (ih (by omega)).mpr rest⟩

theorem convertEntryTableToBFF_iff {supported : Bool} :
    (∃ array, lxMod.convertEntryTableToBFF = .ok array ∧ array.isSome = supported) ↔
      ∃ counted, lxMod.EntryTableRead counted ∧
        counted.isSome = supported := by
  have enough : 0 ≤ lxMod.entryTable → (lxMod.loaderSection.length : Int) ≤
      lxMod.entryTable + lxMod.loaderSection.length := by omega
  unfold LXModule.convertEntryTableToBFF LXModule.EntryTableRead
  constructor
  · rintro ⟨array, converted, same⟩
    obtain ⟨counted, counts, converted⟩ := bind_eq_ok_iff.mp converted
    have walked := (countEntries_eq_ok_iff enough).mp counts
    cases counted with
    | none =>
      cases converted
      refine ⟨none, ⟨walked, ?_⟩, same⟩
      intro total found
      cases found
    | some cbEntries =>
      obtain ⟨filled, fills, converted⟩ := bind_eq_ok_iff.mp converted
      cases converted
      refine ⟨some cbEntries, ⟨walked, ?_⟩, same⟩
      intro total found
      cases found
      have filling := (returns_fillEntries_iff enough).mp ⟨filled, fills⟩
      rwa [List.length_replicate] at filling
  · rintro ⟨counted, ⟨walked, filling⟩, same⟩
    simp only [(countEntries_eq_ok_iff enough).mpr walked, bind_ok]
    cases counted with
    | none => exact ⟨none, rfl, same⟩
    | some cbEntries =>
      have fills := filling cbEntries rfl
      rw [← @List.length_replicate (Option IXFModuleEntry) cbEntries.toNat none] at fills
      obtain ⟨filled, fills⟩ := (returns_fillEntries_iff enough).mpr fills
      simp only [fills, bind_ok]
      exact ⟨some filled, rfl, same⟩

theorem returns_convertFixupTableToBFF_iff :
    Returns lxMod.convertFixupTableToBFF ↔ lxMod.FixupTableRead := by
  unfold LXModule.FixupTableRead LXModule.convertFixupTableToBFF
  constructor
  · intro returned
    obtain ⟨cbFixups, counted, returned⟩ := returns_bind_iff.mp returned
    obtain ⟨places, found⟩ := exists_moduleRecords counted
    rw [found.count] at counted
    cases counted
    refine ⟨places, found, ?_⟩
    by_cases none : UInt32.ofNat (lxMod.importCount places) = 0
    · exact Or.inl ((ofNat_eq_zero_iff _).mp none)
    · rw [if_neg none] at returned
      obtain ⟨fill, converted, -⟩ := returns_bind_iff.mp returned
      exact Or.inr ((found.returns_convert_iff _).mp ⟨fill, converted⟩)
  · rintro ⟨places, found, fits⟩
    rw [found.count, bind_ok]
    by_cases none : UInt32.ofNat (lxMod.importCount places) = 0
    · rw [if_pos none]
      exact returns_ok _
    · rw [if_neg none]
      rcases fits with wraps | readable
      · exact absurd ((ofNat_eq_zero_iff _).mpr wraps) none
      · obtain ⟨fill, converted⟩ := (found.returns_convert_iff
            { fixupCounter := 0, stores := [] }).mpr readable
        rw [converted, bind_ok]
        exact returns_ok _

end OsFree.Lx
