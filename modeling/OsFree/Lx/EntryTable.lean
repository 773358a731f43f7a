import OsFree.Lx.Format
import OsFree.Machine.Fold

/-!
# The entry table

An entry table is a sequence of bundles, each a count, a type and as many
entries of that type.  One function converts the whole table into an array and
another searches it for an ordinal.
-/

namespace OsFree.Lx

open Machine

def unusedEntrySize : Nat := 2

def entryHeaderSize : Nat := 4

def entry32Size : Nat := 5

def forwardEntrySize : Nat := 7

/-- The array of converted entries.  A slot that has not been stored into is
`none`. -/
structure EntryArray where
  cbEntries : UInt32
  entries : List (Option IXFModuleEntry)
  deriving DecidableEq

/-- What the search stores through its `ret_` pointers. -/
structure EntryOut where
  retFlags : UInt32
  retOffset : UInt32
  retObj : UInt32
  retModord : UInt32
  retType : UInt32
  deriving DecidableEq

/-- The outputs after a search without result.  The module ordinal is left as
it was. -/
def EntryOut.cleared (out : EntryOut) : EntryOut :=
  { out with retFlags := 0, retOffset := 0, retObj := 0, retType := 0 }

/-- The number of turns of `for (i = first; i < first + cnt; i++)`.  The sum
may wrap around. -/
def bundleTurns (first : UInt32) (cnt : UInt8) : Nat := (first + cnt.toUInt32).toNat - first.toNat

/-- Store an entry. -/
def storeEntry (entries : List (Option IXFModuleEntry)) (index : UInt32)
    (entry : IXFModuleEntry) : Run (List (Option IXFModuleEntry)) :=
  if index.toNat < entries.length then
    .ok (entries.set index.toNat (some entry))
  else .error .writeOutside

/-- The entry of a number that is not used. -/
def unusedSlot : IXFModuleEntry :=
  { functionName := none, address := some 0, moduleName := none, ordinal := 0 }

/-- Store the entries of a bundle. -/
def fillBundle (cbEntries : UInt32) (turns : Nat) (entryAt : Nat → Run IXFModuleEntry)
    (entries : List (Option IXFModuleEntry)) :
    Run (List (Option IXFModuleEntry)) :=
  (List.range turns).foldlM (fun entries k => do
    let entry ← entryAt k
    storeEntry entries (cbEntries + UInt32.ofNat k - 1) entry) entries

/-- How far the search is: the pointer to a bundle, the ordinal of its first
entry, and the same behind the last unused bundle. -/
structure EntryCursor where
  entryTable : Int
  entryOrdIndex : UInt32
  prevEntryTable : Option Int
  prevOrdIndex : UInt32
  deriving DecidableEq

/-- What the search does at a bundle: it ends with a result, or it goes on
behind the bundle. -/
inductive BundleStep where
  | done (result : Option Int × EntryOut)
  | next (entryTable : Int) (entryOrdIndex : UInt32)
  deriving DecidableEq

/-- The loop that steps from the first entry of a bundle to the one with the
ordinal. -/
def stepsToEntry (entryOrdToSearch : UInt32) : Nat → UInt32 → Nat
  | 0, _ => 0
  | turns + 1, entryOrdIndex =>
    if entryOrdToSearch = entryOrdIndex then 0
    else stepsToEntry entryOrdToSearch turns (entryOrdIndex + 1) + 1

namespace LXModule

variable (lxMod : LXModule)

/-- Pointer to the entry table. -/
def entryTable : Int := signedLong (lxMod.lxHeadE32Exe.e32Enttab - lxMod.lxHeadE32Exe.e32Objtab)

/-- Count the entries of the table.  There is no count when a bundle has an
unsupported type. -/
def countEntries : Nat → Int → UInt32 → Run (Option UInt32)
  | 0, _, _ => .error .readOutside
  | fuel + 1, entryTable, cbEntries => do
      let b32Cnt ← readByte lxMod.loaderSection entryTable
      if b32Cnt = 0 then pure (some cbEntries)
      else
        let b32Type ← readByte lxMod.loaderSection (entryTable + 1)
        if b32Type = empty then
          countEntries fuel (entryTable + unusedEntrySize) (cbEntries + b32Cnt.toUInt32)
        else if b32Type = entry32 then
          countEntries fuel (entryTable + entryHeaderSize + entry32Size * b32Cnt.toNat)
            (cbEntries + b32Cnt.toUInt32)
        else if b32Type = entryFwd then
          countEntries fuel (entryTable + entryHeaderSize + forwardEntrySize * b32Cnt.toNat)
            (cbEntries + b32Cnt.toUInt32)
        else pure none

/-- The entry for a 32-bit entry of the bundle at `entryTable`. -/
def entry32Slot (entryTable entryPost : Int) : Run IXFModuleEntry := do
  let offset32 ← readLong lxMod.loaderSection (entryPost + 1)
  let b32Obj ← readWord lxMod.loaderSection (entryTable + 2)
  let o32Base ← lxMod.o32Base (getObj b32Obj.toUInt32)
  pure
    { functionName := none
      address := some (offset32 + o32Base)
      moduleName := none
      ordinal := 0 }

/-- The entry for a forwarder. -/
def forwardSlot (entryPost : Int) : Run IXFModuleEntry := do
  let value ← readLong lxMod.loaderSection (entryPost + 3)
  let modord ← readWord lxMod.loaderSection (entryPost + 1)
  let moduleName ← lxMod.getImpModNameCstr modord.toNat
  pure
    { functionName := none
      address := some 0
      moduleName := some moduleName
      ordinal := value.toInt32 }

/-- Fill the array.  The number of entries is one ahead during the loop. -/
def fillEntries : Nat → Int → UInt32 → List (Option IXFModuleEntry) → Run EntryArray
  | 0, _, _, _ => .error .readOutside
  | fuel + 1, entryTable, cbEntries, entries => do
      let b32Cnt ← readByte lxMod.loaderSection entryTable
      if b32Cnt = 0 then pure { cbEntries := cbEntries - 1, entries }
      else
        let b32Type ← readByte lxMod.loaderSection (entryTable + 1)
        let turns := bundleTurns cbEntries b32Cnt
        if b32Type = empty then
          let entries ← fillBundle cbEntries turns (fun _ => pure unusedSlot) entries
          fillEntries fuel (entryTable + unusedEntrySize) (cbEntries + b32Cnt.toUInt32) entries
        else if b32Type = entry32 then
          let entries ← fillBundle cbEntries turns (fun k => lxMod.entry32Slot entryTable
              (entryTable + entryHeaderSize + entry32Size * k)) entries
          fillEntries fuel (entryTable + entryHeaderSize + entry32Size * turns)
            (cbEntries + b32Cnt.toUInt32) entries
        else if b32Type = entryFwd then
          let entries ← fillBundle cbEntries turns (fun k => lxMod.forwardSlot
              (entryTable + entryHeaderSize + forwardEntrySize * k)) entries
          fillEntries fuel (entryTable + entryHeaderSize + forwardEntrySize * turns)
            (cbEntries + b32Cnt.toUInt32) entries
        else pure { cbEntries, entries }

/-- Convert the entry table.  Every bundle takes at least two bytes, so the
length of the section bounds the number of bundles.  There is no array when
the function returns an error code. -/
def convertEntryTableToBFF : Run (Option EntryArray) := do
  let fuel := lxMod.loaderSection.length
  let counted ← lxMod.countEntries fuel lxMod.entryTable 0
  match counted with
  | none => pure none
  | some cbEntries =>
    let array ← lxMod.fillEntries fuel lxMod.entryTable 1 (List.replicate cbEntries.toNat none)
    pure (some array)

/-- Step over unused bundles. -/
def skipUnused : Nat → EntryCursor → Run EntryCursor
  | 0, _ => .error .readOutside
  | fuel + 1, cursor => do
      let b32Type ← readByte lxMod.loaderSection (cursor.entryTable + 1)
      if b32Type = empty then
        let b32Cnt ← readByte lxMod.loaderSection cursor.entryTable
        let next := cursor.entryTable + unusedEntrySize
        skipUnused fuel
          { entryTable := next
            entryOrdIndex := cursor.entryOrdIndex + b32Cnt.toUInt32
            prevEntryTable := some next
            prevOrdIndex := cursor.entryOrdIndex }
      else pure cursor

/-- Report a 32-bit entry of the bundle at `entryTable`. -/
def reportEntry32 (entryTable entryPost : Int) (out : EntryOut) :
    Run (Option Int × EntryOut) := do
  let e32Flags ← readByte lxMod.loaderSection entryPost
  let offset32 ← readLong lxMod.loaderSection (entryPost + 1)
  let b32Obj ← readWord lxMod.loaderSection (entryTable + 2)
  pure (some entryTable, { out with
      retFlags := e32Flags.toUInt32
      retOffset := offset32
      retObj := b32Obj.toUInt32
      retType := entry32.toUInt32 })

/-- Report a forwarder of the bundle at `entryTable`. -/
def reportForward (entryTable entryPost : Int) :
    Run (Option Int × EntryOut) := do
  let e32Flags ← readByte lxMod.loaderSection entryPost
  let value ← readLong lxMod.loaderSection (entryPost + 3)
  let modord ← readWord lxMod.loaderSection (entryPost + 1)
  let b32Obj ← readWord lxMod.loaderSection (entryTable + 2)
  pure (some entryTable,
    { retFlags := e32Flags.toUInt32
      retOffset := value
      retModord := modord.toUInt32
      retObj := b32Obj.toUInt32
      retType := entryFwd.toUInt32 })

/-- The last part of the search at a bundle: a forwarder is reported or stepped
over.  After a bundle of 32-bit entries it looks at the bundle behind it. -/
def searchForward (entryOrdToSearch : UInt32) (entryTable : Int)
    (entryOrdIndex : UInt32) : Run BundleStep := do
  let inBundle ←
    if entryOrdIndex ≤ entryOrdToSearch then do
      let b32Cnt ← readByte lxMod.loaderSection entryTable
      pure (decide (entryOrdToSearch < b32Cnt.toUInt32 + entryOrdIndex))
    else pure false
  let b32Type ← readByte lxMod.loaderSection (entryTable + 1)
  if b32Type = entryFwd then
    let b32Cnt ← readByte lxMod.loaderSection entryTable
    if inBundle then
      let steps := stepsToEntry entryOrdToSearch (bundleTurns entryOrdIndex b32Cnt) entryOrdIndex
      let result ← lxMod.reportForward entryTable
        (entryTable + entryHeaderSize + forwardEntrySize * steps)
      pure (.done result)
    else
      pure (.next (entryTable + entryHeaderSize + forwardEntrySize * b32Cnt.toNat)
        (entryOrdIndex + b32Cnt.toUInt32))
  else pure (.next entryTable entryOrdIndex)

/-- The search at a bundle, from the label `sw` on. -/
def searchBundle (entryOrdToSearch : UInt32) (out : EntryOut)
    (entryTable : Int) (entryOrdIndex : UInt32) : Run BundleStep := do
  let b32Type ← readByte lxMod.loaderSection (entryTable + 1)
  if b32Type = empty ∨ b32Type = entryFwd ∨ b32Type = entry32 then
    if b32Type = entry32 then
      let b32Cnt ← readByte lxMod.loaderSection entryTable
      if entryOrdToSearch ≤ entryOrdIndex ∧ entryOrdIndex - entryOrdToSearch ≤ b32Cnt.toUInt32 then
        let steps := stepsToEntry entryOrdToSearch (bundleTurns entryOrdIndex b32Cnt) entryOrdIndex
        let result ← lxMod.reportEntry32 entryTable
          (entryTable + entryHeaderSize + entry32Size * steps) out
        pure (.done result)
      else
        lxMod.searchForward entryOrdToSearch
          (entryTable + entryHeaderSize + entry32Size * b32Cnt.toNat)
          (entryOrdIndex + b32Cnt.toUInt32)
    else lxMod.searchForward entryOrdToSearch entryTable entryOrdIndex
  else pure (.done (none, out.cleared))

/-- What the search does behind the unused bundles.  When they go beyond the
ordinal, the search jumps to `sw` with the bundle behind them but with the
ordinal of the last of them. -/
def searchStep (entryOrdToSearch : UInt32) (out : EntryOut)
    (cursor : EntryCursor) : Run BundleStep :=
  if entryOrdToSearch < cursor.entryOrdIndex then
    if cursor.prevOrdIndex ≤ entryOrdToSearch then
      match cursor.prevEntryTable with
      | none => .error .nullPointer
      | some prevEntryTable =>
        lxMod.searchBundle entryOrdToSearch out prevEntryTable cursor.prevOrdIndex
    else pure (.done (none, out.cleared))
  else do
    let b32Cnt ← readByte lxMod.loaderSection cursor.entryTable
    if b32Cnt = 0 then pure (.done (none, out.cleared))
    else
      lxMod.searchBundle entryOrdToSearch out cursor.entryTable cursor.entryOrdIndex

/-- The loop of the search. -/
def searchEntry (entryOrdToSearch : UInt32) (out : EntryOut) :
    Nat → EntryCursor → Run (Option Int × EntryOut)
  | 0, _ => .error .readOutside
  | fuel + 1, cursor =>
    if cursor.entryOrdIndex ≤ entryOrdToSearch then do
      let cursor ← lxMod.skipUnused lxMod.loaderSection.length cursor
      let step ← lxMod.searchStep entryOrdToSearch out cursor
      match step with
      | .done result => pure result
      | .next entryTable entryOrdIndex =>
        searchEntry entryOrdToSearch out fuel { cursor with entryTable, entryOrdIndex }
    else pure (some cursor.entryTable, out)

/-- Search for the entry with an ordinal.  The result is the pointer that the
function returns and the contents of its output parameters. -/
def getEntry (entryOrdToSearch : UInt32) (out : EntryOut) :
    Run (Option Int × EntryOut) :=
  if lxMod.lxHeadE32Exe.e32Magic0 ≠ 0x4c ∧ lxMod.lxHeadE32Exe.e32Magic1 ≠ 0x58 then
    pure (none, { out with retType := 0xffffffff })
  else
    lxMod.searchEntry entryOrdToSearch out lxMod.loaderSection.length
      { entryTable := lxMod.entryTable
        entryOrdIndex := 1
        prevEntryTable := none
        prevOrdIndex := 0 }

end LXModule

/-!
## Well-formed entry tables

Bundles as values, their encoding, and the entries that they stand for.  The
conversion of an encoded table is the list of its entries.
-/

/-- A 32-bit entry. -/
structure Entry32 where
  e32Flags : UInt8
  offset32 : UInt32
  deriving DecidableEq

/-- A forwarder. -/
structure Forward where
  e32Flags : UInt8
  modord : UInt16
  value : UInt32
  deriving DecidableEq

/-- An entry of the table with the object number of its bundle. -/
inductive Entry where
  | unused
  | entry32 (b32Obj : UInt16) (entry : Entry32)
  | forward (b32Obj : UInt16) (forward : Forward)
  deriving DecidableEq

/-- A bundle.  Its count is one byte and not zero, since a zero ends the
table. -/
inductive Bundle where
  | empty (b32Cnt : UInt8) (positive : b32Cnt ≠ 0)
  | entry32 (b32Obj : UInt16) (first : Entry32) (others : List Entry32)
      (short : others.length < 255)
  | entryFwd (b32Obj : UInt16) (first : Forward) (others : List Forward)
      (short : others.length < 255)
  deriving DecidableEq

def Entry32.encode (entry : Entry32) : List UInt8 := entry.e32Flags :: longBytes entry.offset32

def Forward.encode (forward : Forward) : List UInt8 :=
  forward.e32Flags :: (wordBytes forward.modord ++ longBytes forward.value)

namespace Bundle

/-- The count byte. -/
def b32Cnt : Bundle → UInt8
  | empty count _ => count
  | entry32 _ _ others _ => UInt8.ofNat (others.length + 1)
  | entryFwd _ _ others _ => UInt8.ofNat (others.length + 1)

/-- The entries that a bundle stands for. -/
def entries : Bundle → List Entry
  | empty count _ => List.replicate count.toNat .unused
  | entry32 b32Obj first others _ => (first :: others).map (.entry32 b32Obj)
  | entryFwd b32Obj first others _ => (first :: others).map (.forward b32Obj)

def encode (bundle : Bundle) : List UInt8 :=
  match bundle with
  | empty count _ => [count, Lx.empty]
  | entry32 b32Obj first others _ =>
    bundle.b32Cnt :: Lx.entry32 :: (wordBytes b32Obj ++ (first :: others).flatMap Entry32.encode)
  | entryFwd b32Obj first others _ =>
    bundle.b32Cnt :: Lx.entryFwd :: (wordBytes b32Obj ++ (first :: others).flatMap Forward.encode)

theorem b32Cnt_toNat (bundle : Bundle) :
    bundle.b32Cnt.toNat = bundle.entries.length := by
  cases bundle with
  | empty count _ => simp [b32Cnt, entries]
  | entry32 _ _ others short | entryFwd _ _ others short =>
    simp only [b32Cnt, entries, List.length_map, List.length_cons, UInt8.toNat_ofNat']
    omega

theorem entries_length_pos (bundle : Bundle) : 0 < bundle.entries.length := by
  cases bundle with
  | empty count positive =>
    rw [entries, List.length_replicate]
    exact Nat.pos_of_ne_zero fun zero =>
      positive (UInt8.toNat_inj.mp zero)
  | entry32 | entryFwd => simp [entries]

theorem b32Cnt_ne_zero (bundle : Bundle) : bundle.b32Cnt ≠ 0 := by
  intro zero
  have positive := bundle.entries_length_pos
  rw [← b32Cnt_toNat, zero] at positive
  exact absurd positive (by decide)

end Bundle

/-- The entries of some bundles. -/
def bundleEntries (bundles : List Bundle) : List Entry := bundles.flatMap Bundle.entries

/-- Some bundles and the zero that ends a table. -/
def encodeBundles (bundles : List Bundle) : List UInt8 := bundles.flatMap Bundle.encode ++ [0]

/-- An entry table.  Ordinals are 32-bit numbers, up to the one behind the last
entry. -/
structure EntryTable where
  bundles : List Bundle
  ordinals_fit : (bundleEntries bundles).length + 1 < 4294967296
  deriving DecidableEq

namespace EntryTable

variable (table : EntryTable)

def entries : List Entry := bundleEntries table.bundles

def encode : List UInt8 := encodeBundles table.bundles

end EntryTable

/-- The module has this entry table.  It is followed by the byte `next`, or by
nothing when it ends the loader section. -/
structure HoldsEntryTable (lxMod : LXModule) (table : EntryTable)
    (next : Option UInt8) : Prop where
  magic : lxMod.lxHeadE32Exe.e32Magic0 = 0x4c
  stands : ∃ tail, tail.head? = next ∧
    RestAt lxMod.loaderSection lxMod.entryTable (table.encode ++ tail)

namespace LXModule

variable (lxMod : LXModule)

/-- The slot that the conversion makes of an entry. -/
def entrySlot : Entry → Run IXFModuleEntry
  | .unused => pure unusedSlot
  | .entry32 b32Obj entry => do
      let o32Base ← lxMod.o32Base (getObj b32Obj.toUInt32)
      pure
        { functionName := none
          address := some (entry.offset32 + o32Base)
          moduleName := none
          ordinal := 0 }
  | .forward _ forward => do
      let moduleName ← lxMod.getImpModNameCstr forward.modord.toNat
      pure
        { functionName := none
          address := some 0
          moduleName := some moduleName
          ordinal := forward.value.toInt32 }

end LXModule

namespace Bundle

/-- The type byte. -/
def b32Type : Bundle → UInt8
  | empty _ _ => Lx.empty
  | entry32 _ _ _ _ => Lx.entry32
  | entryFwd _ _ _ _ => Lx.entryFwd

theorem encode_eq (bundle : Bundle) :
    ∃ body, bundle.encode = bundle.b32Cnt :: bundle.b32Type :: body := by
  cases bundle with
  | empty | entry32 | entryFwd => exact ⟨_, rfl⟩

end Bundle

theorem Entry32.encode_length (entry : Entry32) :
    entry.encode.length = entry32Size := rfl

theorem Forward.encode_length (forward : Forward) :
    forward.encode.length = forwardEntrySize := rfl

section

variable {lxMod : LXModule} {buffer : List UInt8} {entryTable : Int} {tail : List UInt8}

variable {bundle : Bundle}

theorem Bundle.readCnt (stands : RestAt buffer entryTable (bundle.encode ++ tail)) :
    readByte buffer entryTable = .ok bundle.b32Cnt := by
  obtain ⟨body, encoded⟩ := bundle.encode_eq
  rw [encoded] at stands
  exact stands.readByte

theorem Bundle.readType (stands : RestAt buffer entryTable (bundle.encode ++ tail)) :
    readByte buffer (entryTable + 1) = .ok bundle.b32Type := by
  obtain ⟨body, encoded⟩ := bundle.encode_eq
  rw [encoded] at stands
  exact stands.tail.readByte

/-- The distance from a bundle to the next one. -/
def Bundle.size (bundle : Bundle) : Nat :=
  match bundle with
  | .empty _ _ => unusedEntrySize
  | .entry32 _ _ _ _ => entryHeaderSize + entry32Size * bundle.b32Cnt.toNat
  | .entryFwd _ _ _ _ =>
    entryHeaderSize + forwardEntrySize * bundle.b32Cnt.toNat

theorem Bundle.encode_length (bundle : Bundle) :
    bundle.encode.length = bundle.size := by
  unfold size
  rw [b32Cnt_toNat]
  cases bundle with
  | empty => rfl
  | entry32 b32Obj first others short =>
    simp only [encode, entries, List.length_cons, List.length_append,
      List.length_map, wordBytes_length, entryHeaderSize,
      flatMap_length Entry32.encode_length]
    omega
  | entryFwd b32Obj first others short =>
    simp only [encode, entries, List.length_cons, List.length_append,
      List.length_map, wordBytes_length, entryHeaderSize,
      flatMap_length Forward.encode_length]
    omega

theorem Bundle.behind (stands : RestAt buffer entryTable (bundle.encode ++ tail)) :
    RestAt buffer (entryTable + bundle.size) tail := by
  rw [← encode_length]
  exact stands.skip

theorem Bundle.readEntry32 {b32Obj : UInt16} {first : Entry32}
    {others : List Entry32} {short : others.length < 255}
    (stands : RestAt buffer entryTable ((Bundle.entry32 b32Obj first others short).encode ++ tail))
    {k : Nat} {entry : Entry32} (found : (first :: others)[k]? = some entry) :
    readWord buffer (entryTable + 2) = .ok b32Obj ∧
      readByte buffer (entryTable + entryHeaderSize + entry32Size * k) = .ok entry.e32Flags ∧
        readLong buffer (entryTable + entryHeaderSize + entry32Size * k + 1) =
            .ok entry.offset32 := by
  rw [encode, List.cons_append, List.cons_append, List.append_assoc] at stands
  have object := stands.tail.tail
  rw [show entryTable + 1 + 1 = entryTable + 2 by omega] at object
  have elements := object.skip
  rw [wordBytes_length,
    show entryTable + 2 + (2 : Nat) = entryTable + entryHeaderSize by
      simp only [entryHeaderSize]
      omega] at elements
  obtain ⟨rest, here⟩ := elements.element Entry32.encode_length found
  exact ⟨object.readWord, here.readByte, here.tail.readLong⟩

theorem Bundle.readForward {b32Obj : UInt16} {first : Forward}
    {others : List Forward} {short : others.length < 255}
    (stands : RestAt buffer entryTable ((Bundle.entryFwd b32Obj first others short).encode ++ tail))
    {k : Nat} {forward : Forward}
    (found : (first :: others)[k]? = some forward) :
    readWord buffer (entryTable + 2) = .ok b32Obj ∧
      readByte buffer (entryTable + entryHeaderSize + forwardEntrySize * k) = .ok forward.e32Flags ∧
        readWord buffer (entryTable + entryHeaderSize + forwardEntrySize * k + 1) =
          .ok forward.modord ∧
          readLong buffer (entryTable + entryHeaderSize + forwardEntrySize * k + 3) =
            .ok forward.value := by
  rw [encode, List.cons_append, List.cons_append, List.append_assoc] at stands
  have object := stands.tail.tail
  rw [show entryTable + 1 + 1 = entryTable + 2 by omega] at object
  have elements := object.skip
  rw [wordBytes_length,
    show entryTable + 2 + (2 : Nat) = entryTable + entryHeaderSize by
      simp only [entryHeaderSize]
      omega] at elements
  obtain ⟨rest, here⟩ := elements.element Forward.encode_length found
  rw [Forward.encode, List.cons_append, List.append_assoc] at here
  have value := here.tail.skip
  rw [wordBytes_length, Int.add_assoc _ 1] at value
  exact ⟨object.readWord, here.readByte, here.tail.readWord, value.readLong⟩

end

/-!
## The converted entry table

The counting pass and the filling pass step over the same bundles, so the
conversion of an encoded table is the list of its entries, each converted by
itself.
-/

/-- Slots that have been stored into, before slots that have not. -/
def filledArray (done : List IXFModuleEntry) (left : Nat) :
    List (Option IXFModuleEntry) :=
  done.map some ++ List.replicate left none

variable {lxMod : LXModule} {tail : List UInt8}

theorem bundleEntries_cons (bundle : Bundle) (bundles : List Bundle) :
    bundleEntries (bundle :: bundles) =
      bundle.entries ++ bundleEntries bundles := rfl

theorem encodeBundles_cons (bundle : Bundle) (bundles : List Bundle) :
    encodeBundles (bundle :: bundles) =
      bundle.encode ++ encodeBundles bundles := by
  rw [encodeBundles, encodeBundles, List.flatMap_cons, List.append_assoc]

theorem length_lt_encodeBundles (bundles : List Bundle) :
    bundles.length < (encodeBundles bundles).length := by
  induction bundles with
  | nil => decide
  | cons bundle bundles ih =>
    obtain ⟨body, encoded⟩ := bundle.encode_eq
    rw [encodeBundles_cons, encoded, List.length_cons, List.cons_append,
      List.length_cons, List.length_append]
    omega

theorem b32Cnt_toUInt32 (bundle : Bundle) :
    bundle.b32Cnt.toUInt32 = UInt32.ofNat bundle.entries.length := by
  rw [← UInt32.toNat_inj, UInt8.toNat_toUInt32, UInt32.toNat_ofNat', bundle.b32Cnt_toNat]
  have small := bundle.b32Cnt.toNat_lt
  rw [bundle.b32Cnt_toNat] at small
  omega

variable {entryTable : Int} {cbEntries : UInt32}

theorem countEntries_bundle {bundle : Bundle}
    (stands : RestAt lxMod.loaderSection entryTable (bundle.encode ++ tail))
    (fuel : Nat) (cbEntries : UInt32) :
    lxMod.countEntries (fuel + 1) entryTable cbEntries =
      lxMod.countEntries fuel (entryTable + bundle.size)
        (cbEntries + UInt32.ofNat bundle.entries.length) := by
  rw [← b32Cnt_toUInt32, LXModule.countEntries, Bundle.readCnt stands, bind_ok,
    if_neg bundle.b32Cnt_ne_zero, Bundle.readType stands, bind_ok]
  cases bundle with
  | empty => rfl
  | entry32 | entryFwd =>
    simp only [Bundle.b32Type, Bundle.size, Nat.cast_add, Nat.cast_mul, Int.add_assoc]
    rfl

theorem countEntries_eq_ok (bundles : List Bundle) :
    ∀ {fuel : Nat} {entryTable : Int} (cbEntries : UInt32),
      RestAt lxMod.loaderSection entryTable (encodeBundles bundles ++ tail) →
        bundles.length < fuel → lxMod.countEntries fuel entryTable cbEntries =
            .ok (some (cbEntries +
              UInt32.ofNat (bundleEntries bundles).length)) := by
  induction bundles with
  | nil =>
    intro fuel entryTable cbEntries stands enough
    cases fuel with
    | zero => omega
    | succ fuel =>
      rw [LXModule.countEntries, stands.readByte, bind_ok, if_pos rfl]
      exact congrArg (fun count => Except.ok (some count)) (UInt32.add_zero cbEntries).symm
  | cons bundle bundles ih =>
    intro fuel entryTable cbEntries stands enough
    cases fuel with
    | zero => omega
    | succ fuel =>
      rw [encodeBundles_cons, List.append_assoc] at stands
      rw [countEntries_bundle stands, ih _ (Bundle.behind stands) (Nat.lt_of_succ_lt_succ enough),
        bundleEntries_cons, List.length_append, UInt32.ofNat_add,
        UInt32.add_assoc]

theorem storeEntry_filledArray (done : List IXFModuleEntry) (left : Nat)
    {index : UInt32} (place : index.toNat = done.length)
    (slot : IXFModuleEntry) :
    storeEntry (filledArray done (left + 1)) index slot =
      .ok (filledArray (done ++ [slot]) left) := by
  have room : index.toNat < (filledArray done (left + 1)).length := by
    simp [filledArray, place]
  rw [storeEntry, if_pos room, place]
  simp [filledArray, List.replicate_succ]

theorem fillBundle_range' {entries : List Entry} {entryAt : Nat → Run IXFModuleEntry} :
    ∀ {start left : Nat} {done : List IXFModuleEntry}, (∀ k entry, entries[k]? = some entry →
        entryAt (start + k) = lxMod.entrySlot entry) →
      cbEntries.toNat + start = done.length + 1 →
      done.length + entries.length + 1 < 4294967296 →
        (List.range' start entries.length).foldlM (fun array k => do
            let entry ← entryAt k
            storeEntry array (cbEntries + UInt32.ofNat k - 1) entry)
          (filledArray done (entries.length + left)) =
        (entries.mapM lxMod.entrySlot >>= fun slots =>
          pure (filledArray (done ++ slots) left)) := by
  induction entries with
  | nil =>
    intro start left done _ _ _
    simp
  | cons entry entries ih =>
    intro start left done agree place fits
    simp only [List.length_cons] at fits ⊢
    have first := agree 0 entry rfl
    rw [Nat.add_zero] at first
    rw [List.range'_succ, List.foldlM_cons, first, List.mapM_cons, bind_assoc, bind_assoc]
    congr 1
    funext slot
    have index : (cbEntries + UInt32.ofNat start - 1).toNat =
        done.length := by
      rw [UInt32.toNat_sub, UInt32.toNat_add, UInt32.toNat_ofNat']
      have one : (1 : UInt32).toNat = 1 := rfl
      omega
    rw [show entries.length + 1 + left = entries.length + left + 1 by omega,
      storeEntry_filledArray done _ index, bind_ok]
    have rest := @ih (start + 1) left (done ++ [slot]) (fun k other found => by
        rw [Nat.add_assoc, Nat.add_comm 1 k]
        exact agree (k + 1) other found)
      (by simp only [List.length_append, List.length_singleton]; omega)
      (by simp only [List.length_append, List.length_singleton]; omega)
    rw [rest, bind_assoc]
    congr 1
    funext slots
    rw [pure_eq_ok, pure_eq_ok, bind_ok, List.append_assoc]
    rfl

theorem fillBundle_eq {entries : List Entry} {entryAt : Nat → Run IXFModuleEntry} {left : Nat}
    {done : List IXFModuleEntry}
    (agree : ∀ k entry, entries[k]? = some entry → entryAt k = lxMod.entrySlot entry)
    (place : cbEntries.toNat = done.length + 1)
    (fits : done.length + entries.length + 1 < 4294967296) :
    fillBundle cbEntries entries.length entryAt (filledArray done (entries.length + left)) =
      (entries.mapM lxMod.entrySlot >>= fun slots =>
        pure (filledArray (done ++ slots) left)) := by
  rw [fillBundle, List.range_eq_range']
  apply fillBundle_range'
  · intro k entry found
    rw [Nat.zero_add]
    exact agree k entry found
  · omega
  · exact fits

theorem entry32Slot_eq {b32Obj : UInt16} {first : Entry32}
    {others : List Entry32} {short : others.length < 255}
    (stands : RestAt lxMod.loaderSection entryTable
      ((Bundle.entry32 b32Obj first others short).encode ++ tail))
    (k : Nat) (entry : Entry)
    (found : (Bundle.entry32 b32Obj first others short).entries[k]? = some entry) :
    lxMod.entry32Slot entryTable (entryTable + entryHeaderSize + entry32Size * k) =
      lxMod.entrySlot entry := by
  rw [Bundle.entries, List.getElem?_map, Option.map_eq_some_iff] at found
  obtain ⟨entry, found, rfl⟩ := found
  obtain ⟨object, _, offset⟩ := Bundle.readEntry32 stands found
  rw [LXModule.entry32Slot, offset, bind_ok, object, bind_ok]
  rfl

theorem forwardSlot_eq {b32Obj : UInt16} {first : Forward}
    {others : List Forward} {short : others.length < 255}
    (stands : RestAt lxMod.loaderSection entryTable
      ((Bundle.entryFwd b32Obj first others short).encode ++ tail))
    (k : Nat) (entry : Entry)
    (found : (Bundle.entryFwd b32Obj first others short).entries[k]? = some entry) :
    lxMod.forwardSlot (entryTable + entryHeaderSize + forwardEntrySize * k) =
      lxMod.entrySlot entry := by
  rw [Bundle.entries, List.getElem?_map, Option.map_eq_some_iff] at found
  obtain ⟨forward, found, rfl⟩ := found
  obtain ⟨_, _, modord, value⟩ := Bundle.readForward stands found
  rw [LXModule.forwardSlot, value, bind_ok, modord, bind_ok]
  rfl

theorem fillEntries_bundle {bundle : Bundle}
    (stands : RestAt lxMod.loaderSection entryTable (bundle.encode ++ tail))
    (fuel : Nat) {left : Nat}
    {done : List IXFModuleEntry} (place : cbEntries.toNat = done.length + 1)
    (fits : done.length + bundle.entries.length + 1 < 4294967296) :
    lxMod.fillEntries (fuel + 1) entryTable cbEntries
        (filledArray done (bundle.entries.length + left)) =
      (bundle.entries.mapM lxMod.entrySlot >>= fun slots =>
        lxMod.fillEntries fuel (entryTable + bundle.size)
          (cbEntries + UInt32.ofNat bundle.entries.length)
          (filledArray (done ++ slots) left)) := by
  have small := bundle.b32Cnt.toNat_lt
  have turns : bundleTurns cbEntries bundle.b32Cnt =
      bundle.entries.length := by
    rw [bundleTurns, b32Cnt_toUInt32, UInt32.toNat_add, UInt32.toNat_ofNat']
    omega
  have stored {entryAt : Nat → Run IXFModuleEntry}
      (agree : ∀ k entry, bundle.entries[k]? = some entry → entryAt k = lxMod.entrySlot entry)
      (next : List (Option IXFModuleEntry) → Run EntryArray) :
      (fillBundle cbEntries bundle.entries.length entryAt
          (filledArray done (bundle.entries.length + left)) >>= next) =
        (bundle.entries.mapM lxMod.entrySlot >>= fun slots =>
          next (filledArray (done ++ slots) left)) := by
    rw [fillBundle_eq agree place fits, bind_assoc]
    rfl
  rw [LXModule.fillEntries, Bundle.readCnt stands, bind_ok,
    if_neg bundle.b32Cnt_ne_zero, Bundle.readType stands, bind_ok]
  simp only [turns]
  rw [b32Cnt_toUInt32]
  cases bundle with
  | empty count positive =>
    apply stored
    intro k entry found
    rw [List.eq_of_mem_replicate (List.mem_of_getElem? found)]
    rfl
  | entry32 b32Obj first others short =>
    rw [Bundle.size, Bundle.b32Cnt_toNat, Nat.cast_add, Nat.cast_mul, ← Int.add_assoc]
    exact stored (entry32Slot_eq stands) _
  | entryFwd b32Obj first others short =>
    rw [Bundle.size, Bundle.b32Cnt_toNat, Nat.cast_add, Nat.cast_mul, ← Int.add_assoc]
    exact stored (forwardSlot_eq stands) _

theorem fillEntries_eq (bundles : List Bundle) :
    ∀ {fuel : Nat} {entryTable : Int} {cbEntries : UInt32} {done : List IXFModuleEntry},
      RestAt lxMod.loaderSection entryTable (encodeBundles bundles ++ tail) →
        bundles.length < fuel → cbEntries.toNat = done.length + 1 →
          done.length + (bundleEntries bundles).length + 1 < 4294967296 →
            lxMod.fillEntries fuel entryTable cbEntries
                (filledArray done (bundleEntries bundles).length) =
              ((bundleEntries bundles).mapM lxMod.entrySlot >>= fun slots =>
                pure
                  { cbEntries := UInt32.ofNat
                      (done.length + (bundleEntries bundles).length)
                    entries := (done ++ slots).map some }) := by
  induction bundles with
  | nil =>
    intro fuel entryTable cbEntries done stands enough place fits
    cases fuel with
    | zero => omega
    | succ fuel =>
      have last : cbEntries - 1 = UInt32.ofNat done.length := by
        rw [← UInt32.toNat_inj, UInt32.toNat_sub, place, UInt32.toNat_ofNat']
        have one : (1 : UInt32).toNat = 1 := rfl
        omega
      rw [LXModule.fillEntries, stands.readByte, bind_ok, if_pos rfl, last]
      simp [bundleEntries, filledArray]
  | cons bundle bundles ih =>
    intro fuel entryTable cbEntries done stands enough place fits
    cases fuel with
    | zero => omega
    | succ fuel =>
      rw [encodeBundles_cons, List.append_assoc] at stands
      rw [bundleEntries_cons, List.length_append] at fits ⊢
      rw [fillEntries_bundle stands fuel place (by omega), List.mapM_append, bind_assoc]
      cases mapped : bundle.entries.mapM lxMod.entrySlot with
      | error fault => rfl
      | ok slots =>
        have length := (forall₂_of_mapM mapped).length_eq
        have index : (cbEntries + UInt32.ofNat bundle.entries.length).toNat =
            (done ++ slots).length + 1 := by
          rw [UInt32.toNat_add, UInt32.toNat_ofNat', List.length_append]
          omega
        rw [bind_ok, bind_ok, ih (Bundle.behind stands) (Nat.lt_of_succ_lt_succ enough) index
            (by rw [List.length_append]; omega),
          bind_assoc, List.length_append, length, Nat.add_assoc]
        congr 1
        funext others
        rw [pure_eq_ok, pure_eq_ok, bind_ok, List.append_assoc]
        rfl

theorem convertEntryTableToBFF_eq {table : EntryTable} {next : Option UInt8}
    (holds : HoldsEntryTable lxMod table next) :
    lxMod.convertEntryTableToBFF = (table.entries.mapM lxMod.entrySlot >>= fun slots =>
        pure (some
          { cbEntries := UInt32.ofNat table.entries.length
            entries := slots.map some })) := by
  obtain ⟨tail, _, stands⟩ := holds.stands
  have enough : table.bundles.length < lxMod.loaderSection.length := by
    have inside := stands.length_le
    have bundles := length_lt_encodeBundles table.bundles
    rw [List.length_append] at inside
    exact Nat.lt_of_lt_of_le bundles (Nat.le_of_add_right_le inside)
  have fits := table.ordinals_fit
  have counted := countEntries_eq_ok table.bundles 0 stands enough
  have filled := @fillEntries_eq _ _ table.bundles _ _ 1 [] stands enough rfl (by simpa using fits)
  rw [UInt32.zero_add] at counted
  rw [LXModule.convertEntryTableToBFF, counted, bind_ok]
  simp only [UInt32.toNat_ofNat']
  rw [Nat.mod_eq_of_lt (by omega)]
  simp only [filledArray, List.map_nil, List.nil_append, List.length_nil, Nat.zero_add] at filled
  rw [filled, bind_assoc]
  rfl

end OsFree.Lx
