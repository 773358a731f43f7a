import Mathlib.Data.List.TakeWhile
import OsFree.Lx.EntrySearch

/-!
# The converted entry table as a decoding

What the slots of the converted table should say, and when they say it.  The
conversion knows one of the two kinds of forwarders only.
-/

namespace OsFree.Lx

section

open Machine

/-- A string of a name table: its length in one byte and its bytes. -/
def encodeName (name : List UInt8) : List UInt8 := UInt8.ofNat name.length :: name

namespace LXModule

variable (lxMod : LXModule)

/-- The import module name table has this name at the position `modord`, which
counts from one. -/
def IsImpModName (modord : Nat) (name : List UInt8) : Prop :=
  ∃ (names : List (List UInt8)) (rest : List UInt8),
    RestAt lxMod.fixupSection lxMod.impModTable (names.flatMap encodeName ++ rest) ∧
      (∀ other ∈ names, other.length ≤ 255) ∧ 1 ≤ modord ∧ names[modord - 1]? = some name

/-- The import procedure name table has this name at an offset. -/
def IsImpProcName (offset : UInt32) (name : List UInt8) : Prop := name.length ≤ 255 ∧
    ∃ rest, RestAt lxMod.fixupSection (lxMod.impProcTable + offset.toNat) (encodeName name ++ rest)

/-- The slot says what the entry says. -/
def SlotDescribes (entry : Entry) (slot : IXFModuleEntry) : Prop :=
  match entry with
  | .unused => slot.address = some 0
  | .entry32 b32Obj entry =>
    ∃ o32Base, lxMod.o32Base (getObj b32Obj.toUInt32) = .ok o32Base ∧
      slot.address = some (entry.offset32 + o32Base)
  | .forward _ forward =>
    (∃ name, lxMod.IsImpModName forward.modord.toNat name ∧ slot.moduleName = some name) ∧
      if forward.e32Flags &&& fwdOrdinal = fwdOrdinal then
        slot.ordinal = forward.value.toInt32
      else
        ∃ name, lxMod.IsImpProcName forward.value name ∧ slot.functionName = some name

/-- The converted table has one slot for each entry, which says what the entry
says. -/
def DecodesTable (table : EntryTable) : Prop :=
  ∃ array, lxMod.convertEntryTableToBFF = .ok (some array) ∧
    array.cbEntries = UInt32.ofNat table.entries.length ∧ List.Forall₂
        (fun entry slot => ∃ stored, slot = some stored ∧ lxMod.SlotDescribes entry stored)
        table.entries array.entries

/-- The condition under which an entry is decoded: the object of a 32-bit entry
is in the object table; a forwarder forwards to an ordinal, and its module name
is the one that the walk with signed length bytes comes to. -/
def EntryDecodable (entry : Entry) : Prop :=
  match entry with
  | .unused => True
  | .entry32 b32Obj _ => Returns (lxMod.o32Base (getObj b32Obj.toUInt32))
  | .forward _ forward =>
    forward.e32Flags &&& fwdOrdinal = fwdOrdinal ∧
      ∃ name, lxMod.IsImpModName forward.modord.toNat name ∧
        lxMod.getImpModNameCstr forward.modord.toNat = .ok name

end LXModule

variable {lxMod : LXModule}

theorem entrySlot_describes_iff (entry : Entry) :
    (∃ slot, lxMod.entrySlot entry = .ok slot ∧ lxMod.SlotDescribes entry slot) ↔
      lxMod.EntryDecodable entry := by
  cases entry with
  | unused =>
    simp only [LXModule.EntryDecodable, iff_true]
    exact ⟨unusedSlot, rfl, rfl⟩
  | entry32 b32Obj entry =>
    constructor
    · rintro ⟨_, _, o32Base, read, _⟩
      exact ⟨o32Base, read⟩
    · rintro ⟨o32Base, read⟩
      have converted : lxMod.entrySlot (.entry32 b32Obj entry) = .ok { unusedSlot with
            address := some (entry.offset32 + o32Base) } := by
        rw [LXModule.entrySlot, read]
        rfl
      exact ⟨_, converted, o32Base, read, rfl⟩
  | forward b32Obj forward =>
    constructor
    · rintro ⟨slot, converted, ⟨name, named, nameEq⟩, target⟩
      obtain ⟨moduleName, read, converted⟩ := bind_eq_ok_iff.mp converted
      cases converted
      cases nameEq
      refine ⟨?_, name, named, read⟩
      by_contra notOrdinal
      rw [if_neg notOrdinal] at target
      obtain ⟨_, _, absent⟩ := target
      cases absent
    · rintro ⟨ordinal, name, named, read⟩
      have converted : lxMod.entrySlot (.forward b32Obj forward) = .ok
          { unusedSlot with
            moduleName := some name
            ordinal := forward.value.toInt32 } := by
        rw [LXModule.entrySlot, read]
        rfl
      refine ⟨_, converted, ⟨name, named, rfl⟩, ?_⟩
      rw [if_pos ordinal]

theorem logToZero_of_mem (bytes : List UInt8) : ∀ {buffer : List UInt8} {fuel : Nat} {p : Int},
      RestAt buffer p bytes → 0 ∈ bytes → bytes.length ≤ fuel →
        logToZero buffer fuel p = .ok () := by
  induction bytes with
  | nil =>
    intro buffer fuel p _ zero
    simp at zero
  | cons byte bytes ih =>
    intro buffer fuel p stands zero enough
    cases fuel with
    | zero => simp at enough
    | succ fuel =>
      rw [logToZero, stands.readByte, bind_ok]
      by_cases ended : byte = 0
      · rw [if_pos ended]
        rfl
      · rw [if_neg ended]
        have later := (List.mem_cons.mp zero).resolve_left (Ne.symm ended)
        exact ih stands.tail later (Nat.le_of_succ_le_succ enough)

theorem skipNames_of_short {buffer rest : List UInt8} (names : List (List UInt8)) :
    ∀ {p : Int}, RestAt buffer p (names.flatMap encodeName ++ rest) →
      (∀ name ∈ names, name.length < 128) → skipNames buffer names.length p =
          .ok (p + (names.flatMap encodeName).length) := by
  induction names with
  | nil =>
    intro p _ _
    exact congrArg Except.ok (Int.add_zero p).symm
  | cons name names ih =>
    intro p stands short
    rw [List.forall_mem_cons] at short
    rw [List.flatMap_cons, List.append_assoc] at stands
    have lengthByte : (UInt8.ofNat name.length).toNat = name.length := by
      rw [UInt8.toNat_ofNat']
      omega
    have skipped := ih stands.skip short.2
    rw [List.length_cons, skipNames, RestAt.readByte stands, bind_ok,
      signedByte_of_lt (by omega), lengthByte, List.flatMap_cons,
      List.length_append, Nat.cast_add, ← Int.add_assoc, ← skipped,
      encodeName, List.length_cons, Nat.cast_succ, Int.add_assoc]

theorem copyPasStr_of_short {buffer name rest : List UInt8} {p : Int}
    (stands : RestAt buffer p (encodeName name ++ rest))
    (short : name.length < 128) : copyPasStr buffer p = .ok name := by
  have lengthByte : (UInt8.ofNat name.length).toNat = name.length := by
    rw [UInt8.toNat_ofNat']
    omega
  rw [copyPasStr, RestAt.readByte stands, bind_ok, signedByte_of_lt (by omega), lengthByte]
  exact (RestAt.tail stands).readBytes

theorem getImpModNameCstr_of_short {before : List (List UInt8)} {name rest : List UInt8}
    (stands : RestAt lxMod.fixupSection lxMod.impModTable
      ((before ++ [name]).flatMap encodeName ++ rest))
    (short : ∀ other ∈ before ++ [name], other.length < 128)
    (noZero : 0 ∉ name) (ends : 0 ∈ rest) :
    lxMod.getImpModNameCstr (before.length + 1 : Nat) = .ok name := by
  have printed := logToZero_of_mem _ stands (List.mem_append_right _ ends) stands.length_le
  rw [List.flatMap_append, List.flatMap_singleton, List.append_assoc] at stands
  rw [List.forall_mem_append, List.forall_mem_singleton] at short
  have skipped := skipNames_of_short before stands short.1
  have copied := copyPasStr_of_short stands.skip short.2
  have counts : ((before.length + 1 : Nat) - 1 : Int).toNat =
      before.length := by
    omega
  have found : lxMod.getImpModName (before.length + 1 : Nat) =
      .ok (lxMod.impModTable + (before.flatMap encodeName).length) := by
    have positive : (1 : Int) ≤ (before.length + 1 : Nat) := by omega
    rw [LXModule.getImpModName, printed, bind_ok, if_pos positive, counts, skipped]
  have noZeros : cString name = name := by
    apply List.takeWhile_eq_self_iff.mpr
    intro byte member
    have nonzero : byte ≠ 0 := fun zero => noZero (zero ▸ member)
    exact decide_eq_true nonzero
  rw [LXModule.getImpModNameCstr, found, bind_ok, copied, bind_ok, noZeros]
  rfl

/-- The converted table is the decoding of the entry table exactly when every
entry can be decoded.  Then no store of the filling pass is outside the
array. -/
theorem decodesTable_iff_entryDecodable {table : EntryTable}
    {next : Option UInt8} (holds : HoldsEntryTable lxMod table next) :
    lxMod.DecodesTable table ↔
      ∀ entry ∈ table.entries, lxMod.EntryDecodable entry := by
  rw [LXModule.DecodesTable, convertEntryTableToBFF_eq holds]
  constructor
  · rintro ⟨array, converted, _, described⟩
    obtain ⟨slots, mapped, converted⟩ := bind_eq_ok_iff.mp converted
    cases converted
    rw [List.forall₂_map_right_iff] at described
    have both : List.Forall₂ (fun entry slot => lxMod.entrySlot entry = .ok slot ∧
          lxMod.SlotDescribes entry slot) table.entries slots := by
      refine List.Forall₂.mp ?_ (forall₂_of_mapM mapped) described
      rintro entry slot slotEq ⟨stored, storedEq, describes⟩
      cases storedEq
      exact ⟨slotEq, describes⟩
    intro entry member
    obtain ⟨k, found⟩ := List.mem_iff_getElem?.mp member
    obtain ⟨slot, _, converts⟩ := getElem?_of_forall₂ both found
    exact (entrySlot_describes_iff entry).mp ⟨slot, converts⟩
  · intro decodable
    have describes := fun entry member =>
      (entrySlot_describes_iff entry).mpr (decodable entry member)
    obtain ⟨slots, mapped⟩ := returns_mapM_iff.mpr fun entry member => by
      obtain ⟨slot, slotEq, _⟩ := describes entry member
      exact ⟨slot, slotEq⟩
    rw [mapped]
    refine ⟨_, rfl, rfl, ?_⟩
    rw [List.forall₂_map_right_iff]
    refine List.Forall₂.imp ?_ ((List.forall₂_and_left _ _).mpr ⟨describes, forall₂_of_mapM mapped⟩)
    rintro entry stored ⟨⟨slot, slotEq, describes⟩, storedEq⟩
    rw [slotEq] at storedEq
    cases storedEq
    exact ⟨_, rfl, describes⟩

/-- A module whose loader section is the entry table and whose import module
name table has the single name `DOSC`. -/
def entryTableModule (loaderSection : List UInt8) : LXModule :=
  { (default : LXModule) with
    lxHeadE32Exe := { (default : E32Exe) with
        e32Magic0 := 0x4c
        e32Magic1 := 0x58 }
    loaderSection
    fixupSection := [0x04, 0x44, 0x4f, 0x53, 0x43, 0x00] }

/-- A table with one forwarder to module 1. -/
def forwarderTable (e32Flags : UInt8) : EntryTable where
  bundles :=
    [.entryFwd 0 { e32Flags, modord := 1, value := 5 } [] (by decide)]
  ordinals_fit := by simp [bundleEntries, Bundle.entries]

theorem entryTable_entryTableModule (loaderSection : List UInt8) :
    (entryTableModule loaderSection).entryTable = 0 := by
  change signedLong (0 - 0) = 0
  decide

theorem impModTable_entryTableModule (loaderSection : List UInt8) :
    (entryTableModule loaderSection).impModTable = 0 := by
  change signedLong (0 - 0) = 0
  decide

theorem holdsEntryTable_entryTableModule (table : EntryTable) (tail : List UInt8) :
    HoldsEntryTable (entryTableModule (table.encode ++ tail)) table tail.head? where
  magic := rfl
  stands := ⟨tail, rfl, by
    rw [entryTable_entryTableModule]
    exact restAt_zero _⟩

theorem isImpModName_entryTableModule (loaderSection : List UInt8) :
    (entryTableModule loaderSection).IsImpModName 1
      [0x44, 0x4f, 0x53, 0x43] := by
  refine ⟨[[0x44, 0x4f, 0x53, 0x43]], [0x00], ?_, by decide, by decide, rfl⟩
  rw [impModTable_entryTableModule]
  exact restAt_zero _

/-- A forwarder to the ordinal 5 of module 1 is decoded. -/
theorem decodesTable_forwarderTable_ordinal :
    (entryTableModule ((forwarderTable fwdOrdinal).encode ++ [])).DecodesTable
      (forwarderTable fwdOrdinal) := by
  apply (decodesTable_iff_entryDecodable (holdsEntryTable_entryTableModule _ [])).mpr
  intro entry member
  rw [List.mem_singleton.mp member]
  have read := @getImpModNameCstr_of_short
    (entryTableModule ((forwarderTable fwdOrdinal).encode ++ [])) []
    [0x44, 0x4f, 0x53, 0x43] [0x00] (restAt_zero _) (by decide) (by decide)
    (by decide)
  exact ⟨by decide, _, isImpModName_entryTableModule _, read⟩

/-- A forwarder to a procedure name is converted without the name. -/
theorem not_decodesTable_forwarderTable_name :
    HoldsEntryTable (entryTableModule ((forwarderTable 0).encode ++ [])) (forwarderTable 0) none ∧
      (entryTableModule ((forwarderTable 0).encode ++ [])).convertEntryTableToBFF = .ok (some
          { cbEntries := 1
            entries := [some
              { functionName := none
                address := some 0
                moduleName := some [0x44, 0x4f, 0x53, 0x43]
                ordinal := 5 }] }) ∧
      ¬ (entryTableModule ((forwarderTable 0).encode ++ [])).DecodesTable
        (forwarderTable 0) := by
  have converted : (entryTableModule ((forwarderTable 0).encode ++ [])).convertEntryTableToBFF =
        .ok (some
          { cbEntries := 1
            entries := [some
              { functionName := none
                address := some 0
                moduleName := some [0x44, 0x4f, 0x53, 0x43]
                ordinal := 5 }] }) := by
    decide
  refine ⟨holdsEntryTable_entryTableModule _ [], converted, ?_⟩
  rintro ⟨array, returned, _, described⟩
  cases returned
  obtain ⟨⟨slot, slotEq, _, target⟩, _⟩ := List.forall₂_cons.mp described
  cases slotEq
  obtain ⟨_, _, absent⟩ := target
  cases absent

end

/-!
## Searching and converting an entry table

The search for an ordinal and the conversion of the table agree on the entry
with this ordinal for all forwarders, for the first entries of the 32-bit
bundles, and for those missing ordinals that the search really misses.
-/

open Machine

/-- The search has reported this entry, or that there is none. -/
def Reports (result : Option Int × EntryOut) : Option Entry → Prop
  | some (.entry32 b32Obj entry) =>
    result.1.isSome ∧ result.2.retType = entry32.toUInt32 ∧ result.2.retObj = b32Obj.toUInt32 ∧
        result.2.retFlags = entry.e32Flags.toUInt32 ∧ result.2.retOffset = entry.offset32
  | some (.forward b32Obj forward) =>
    result.1.isSome ∧ result.2.retType = entryFwd.toUInt32 ∧ result.2.retObj = b32Obj.toUInt32 ∧
        result.2.retFlags = forward.e32Flags.toUInt32 ∧
          result.2.retModord = forward.modord.toUInt32 ∧ result.2.retOffset = forward.value
  | some .unused | none => result.1 = none

/-- The search for an ordinal reports the entry that the conversion places in
the slot of the ordinal. -/
def LookupAgrees (lxMod : LXModule) (table : EntryTable)
    (entryOrdToSearch : UInt32) (out : EntryOut) : Prop :=
  let slot := entryOrdToSearch.toNat - 1
  (∃ result, lxMod.getEntry entryOrdToSearch out = .ok result ∧
      Reports result table.entries[slot]?) ∧
    ∀ array, lxMod.convertEntryTableToBFF = .ok (some array) →
      ∀ entry, table.entries[slot]? = some entry →
        ∃ stored, array.entries[slot]? = some (some stored) ∧ lxMod.entrySlot entry = .ok stored

/-- The entry number `ord`, counted from zero, is the first of its bundle. -/
def IsFirst (bundles : List Bundle) (ord : Nat) : Prop :=
  ∃ before bundle after, bundles = before ++ bundle :: after ∧ ord = (bundleEntries before).length

/-- The search for the entry number `ord` misses.  For an unused entry the
bundle must not be the last of its run, or the search from the next bundle on,
for an entry with the number that the unused entry has in its bundle, must miss
in its turn.  Behind the last entry the byte after the table decides. -/
def Misses (next : Option UInt8) : List Bundle → Nat → Prop
  | [], _ => next.any (· ≠ empty)
  | .empty b32Cnt _ :: bundles, ord =>
    if ord < b32Cnt.toNat then
      match bundles with
      | [] => next.any fun byte =>
        byte ≠ empty ∧ byte ≠ entry32 ∧ byte ≠ entryFwd
      | .empty _ _ :: _ => runEnds next bundles
      | _ :: _ => Misses next bundles ord
    else Misses next bundles (ord - b32Cnt.toNat)
  | .entry32 _ _ others _ :: bundles, ord =>
    others.length + 1 ≤ ord ∧ ¬ (bundles = [] ∧ next = some entryFwd) ∧
      Misses next bundles (ord - (others.length + 1))
  | .entryFwd _ _ others _ :: bundles, ord =>
    others.length + 1 ≤ ord ∧ Misses next bundles (ord - (others.length + 1))

/-- The condition under which the search is right about an entry. -/
def FindsEntry (next : Option UInt8) (bundles : List Bundle) (ord : Nat) :
    Prop :=
  match (bundleEntries bundles)[ord]? with
  | some (.entry32 _ _) => IsFirst bundles ord
  | some (.forward _ _) => True
  | some .unused | none => Misses next bundles ord

variable {next : Option UInt8} {bundle : Bundle} {bundles : List Bundle} {ord : Nat}
  {entry : Entry} {lxMod : LXModule} {table : EntryTable} {tail : List UInt8}
  {entryOrdToSearch : UInt32}

theorem lookup_eq_missing_iff (bundles : List Bundle) : ∀ {ord : Nat},
      lookup next bundles ord = .missing ↔ Misses next bundles ord := by
  induction bundles with
  | nil =>
    intro ord
    simp [lookup, Misses]
  | cons bundle bundles ih =>
    intro ord
    cases bundle with
    | empty b32Cnt positive =>
      by_cases here : ord < b32Cnt.toNat
      · cases bundles with
        | nil => simp [lookup, Misses, here]
        | cons other bundles =>
          cases other with
          | empty => simp [lookup, Misses, here]
          | entry32 | entryFwd =>
            rw [lookup_empty_used here, ih]
            · simp [Misses, here]
            · simp only [Bundle.b32Type]
              decide
      · rw [lookup_empty_later (Nat.le_of_not_lt here), ih]
        cases bundles with
        | nil => simp [Misses, here]
        | cons other bundles => cases other <;> simp [Misses, here]
    | entry32 b32Obj first others short =>
      rw [lookup, Misses]
      by_cases later : others.length + 1 ≤ ord
      · rw [if_neg (by omega), if_neg (by omega)]
        by_cases ended : bundles = [] ∧ next = some entryFwd
        · simp [ended]
        · rw [if_neg ended, ih]
          exact ⟨fun misses => ⟨later, ended, misses⟩, fun misses => misses.2.2⟩
      · by_cases isFirst : ord = 0 <;>
          simp [isFirst, later, Nat.lt_of_not_le later]
    | entryFwd b32Obj first others short =>
      rw [lookup, Misses]
      cases here : (first :: others)[ord]? with
      | some forward =>
        have inside := (List.getElem?_eq_some_iff.mp here).1
        rw [List.length_cons] at inside
        simp only [reduceCtorEq, false_iff]
        omega
      | none =>
        have later := List.getElem?_eq_none_iff.mp here
        rw [List.length_cons] at later
        simp only [later, true_and]
        exact ih

theorem lookup_later (later : bundle.entries.length ≤ ord) (others : bundles ≠ []) :
    lookup next (bundle :: bundles) ord =
      lookup next bundles (ord - bundle.entries.length) := by
  cases bundle with
  | empty b32Cnt positive =>
    rw [Bundle.entries, List.length_replicate] at later ⊢
    exact lookup_empty_later later
  | entry32 b32Obj first others' short =>
    rw [Bundle.entries, List.length_map, List.length_cons] at later ⊢
    rw [lookup, if_neg (by omega), if_neg (by omega), if_neg (fun both => others both.1)]
  | entryFwd b32Obj first others' short =>
    rw [Bundle.entries, List.length_map, List.length_cons] at later ⊢
    rw [lookup, List.getElem?_eq_none (by rw [List.length_cons]; omega)]

theorem getElem?_bundleEntries_cons
    (found : (bundleEntries (bundle :: bundles))[ord]? = some entry) :
    (ord < bundle.entries.length ∧ bundle.entries[ord]? = some entry) ∨
      (bundle.entries.length ≤ ord ∧ bundles ≠ [] ∧
        (bundleEntries bundles)[ord - bundle.entries.length]? =
          some entry) := by
  rw [bundleEntries_cons] at found
  by_cases here : ord < bundle.entries.length
  · rw [List.getElem?_append_left here] at found
    exact Or.inl ⟨here, found⟩
  · rw [List.getElem?_append_right (Nat.le_of_not_lt here)] at found
    refine Or.inr ⟨Nat.le_of_not_lt here, ?_, found⟩
    rintro rfl
    simp [bundleEntries] at found

theorem lookup_forward {b32Obj : UInt16} {forward : Forward} (bundles : List Bundle) :
    ∀ {ord : Nat}, (bundleEntries bundles)[ord]? = some (.forward b32Obj forward) →
        lookup next bundles ord = .found (.forward b32Obj forward) := by
  induction bundles with
  | nil => simp [bundleEntries]
  | cons bundle bundles ih =>
    intro ord found
    rcases getElem?_bundleEntries_cons found with ⟨here, found⟩ | ⟨later, others, found⟩
    · cases bundle with
      | empty =>
        cases List.eq_of_mem_replicate (List.mem_of_getElem? found)
      | entry32 =>
        rw [Bundle.entries, List.getElem?_map, Option.map_eq_some_iff] at found
        obtain ⟨_, _, differs⟩ := found
        cases differs
      | entryFwd =>
        rw [Bundle.entries, List.getElem?_map, Option.map_eq_some_iff] at found
        obtain ⟨_, found, equal⟩ := found
        cases equal
        rw [lookup, found]
    · rw [lookup_later later others]
      exact ih found

theorem isFirst_cons_iff :
    IsFirst (bundle :: bundles) ord ↔ ord = 0 ∨ (bundle.entries.length ≤ ord ∧
        IsFirst bundles (ord - bundle.entries.length)) := by
  constructor
  · rintro ⟨before, other, after, split, place⟩
    cases before with
    | nil => exact Or.inl place
    | cons head before =>
      obtain ⟨rfl, rfl⟩ := List.cons.inj split
      rw [bundleEntries_cons, List.length_append] at place
      exact Or.inr ⟨by omega, before, other, after, rfl, by omega⟩
  · rintro (rfl | ⟨later, before, other, after, rfl, place⟩)
    · exact ⟨[], bundle, bundles, rfl, rfl⟩
    · refine ⟨bundle :: before, other, after, rfl, ?_⟩
      rw [bundleEntries_cons, List.length_append]
      omega

theorem lookup_entry32 {b32Obj : UInt16} {entry : Entry32} (bundles : List Bundle) :
    ∀ {ord : Nat}, (bundleEntries bundles)[ord]? = some (.entry32 b32Obj entry) →
        (IsFirst bundles ord → lookup next bundles ord = .found (.entry32 b32Obj entry)) ∧
          (¬ IsFirst bundles ord → lookup next bundles ord = .astray) := by
  induction bundles with
  | nil => simp [bundleEntries]
  | cons bundle bundles ih =>
    intro ord found
    rw [isFirst_cons_iff]
    rcases getElem?_bundleEntries_cons found with ⟨here, found⟩ | ⟨later, others, found⟩
    · cases bundle with
      | empty =>
        cases List.eq_of_mem_replicate (List.mem_of_getElem? found)
      | entryFwd =>
        rw [Bundle.entries, List.getElem?_map, Option.map_eq_some_iff] at found
        obtain ⟨_, _, differs⟩ := found
        cases differs
      | entry32 =>
        rw [Bundle.entries, List.getElem?_map, Option.map_eq_some_iff] at found
        obtain ⟨_, found, equal⟩ := found
        cases equal
        constructor
        · rintro (rfl | ⟨later, _⟩)
          · cases found
            rw [lookup, if_pos rfl]
          · omega
        · intro notFirst
          rw [Bundle.entries, List.length_map, List.length_cons] at here
          rw [lookup, if_neg (fun isFirst => notFirst (Or.inl isFirst)), if_pos here]
    · have positive := bundle.entries_length_pos
      rw [lookup_later later others]
      obtain ⟨isFirst, notFirst⟩ := ih found
      constructor
      · rintro (rfl | ⟨_, first⟩)
        · omega
        · exact isFirst first
      · exact fun both => notFirst fun first => both (Or.inr ⟨later, first⟩)

theorem getEntry_realizes (magic : lxMod.lxHeadE32Exe.e32Magic0 = 0x4c)
    (stands : RestAt lxMod.loaderSection lxMod.entryTable (table.encode ++ tail))
    (positive : 1 ≤ entryOrdToSearch) (out : EntryOut) :
    Realizes out tail (lxMod.getEntry entryOrdToSearch out)
      (lookup tail.head? table.bundles (entryOrdToSearch.toNat - 1)) := by
  have inside := stands.length_le
  have bound := length_lt_encodeBundles table.bundles
  have fits := table.ordinals_fit
  have one : (1 : UInt32).toNat = 1 := rfl
  have noMagic : ¬ (lxMod.lxHeadE32Exe.e32Magic0 ≠ 0x4c ∧
      lxMod.lxHeadE32Exe.e32Magic1 ≠ 0x58) :=
    fun both => both.1 magic
  rw [List.length_append] at inside
  rw [UInt32.le_iff_toNat_le] at positive
  rw [LXModule.getEntry, if_neg noMagic]
  exact searchEntry_realizes (searchRealizes table.bundles)
    (Nat.lt_of_lt_of_le bound (Nat.le_of_add_right_le inside))
    ⟨stands, by rw [one]; omega, by rw [one]; omega⟩

theorem slot_of_convert (holds : HoldsEntryTable lxMod table next) {array : EntryArray}
    (converted : lxMod.convertEntryTableToBFF = .ok (some array))
    {slot : Nat} (found : table.entries[slot]? = some entry) :
    ∃ stored, array.entries[slot]? = some (some stored) ∧
      lxMod.entrySlot entry = .ok stored := by
  rw [convertEntryTableToBFF_eq holds] at converted
  obtain ⟨slots, mapped, converted⟩ := bind_eq_ok_iff.mp converted
  cases converted
  obtain ⟨stored, place, slotEq⟩ := getElem?_of_forall₂ (forall₂_of_mapM mapped) found
  refine ⟨stored, ?_, slotEq⟩
  rw [List.getElem?_map, place]
  rfl

theorem reports_filled (entryTable : Int) (out : EntryOut) (used : entry ≠ .unused) :
    Reports (some entryTable, out.filled entry) (some entry) := by
  cases entry with
  | unused => exact absurd rfl used
  | entry32 b32Obj entry => exact ⟨rfl, rfl, rfl, rfl, rfl⟩
  | forward b32Obj forward => exact ⟨rfl, rfl, rfl, rfl, rfl, rfl⟩

theorem reports_of_findsEntry {out : EntryOut}
    (realizes : Realizes out tail (lxMod.getEntry entryOrdToSearch out)
      (lookup tail.head? table.bundles (entryOrdToSearch.toNat - 1)))
    (finds : FindsEntry tail.head? table.bundles (entryOrdToSearch.toNat - 1)) :
    ∃ result, lxMod.getEntry entryOrdToSearch out = .ok result ∧
      Reports result table.entries[entryOrdToSearch.toNat - 1]? := by
  rw [FindsEntry] at finds
  rw [EntryTable.entries]
  cases found : (bundleEntries table.bundles)[entryOrdToSearch.toNat - 1]? with
  | none =>
    rw [found] at finds
    rw [(lookup_eq_missing_iff _).mpr finds] at realizes
    exact ⟨_, realizes, rfl⟩
  | some entry =>
    rw [found] at finds
    cases entry with
    | unused =>
      rw [(lookup_eq_missing_iff _).mpr finds] at realizes
      exact ⟨_, realizes, rfl⟩
    | entry32 b32Obj entry =>
      rw [(lookup_entry32 _ found).1 finds] at realizes
      obtain ⟨entryTable, reported⟩ := realizes
      exact ⟨_, reported, reports_filled _ _ (by simp)⟩
    | forward b32Obj forward =>
      rw [lookup_forward _ found] at realizes
      obtain ⟨entryTable, reported⟩ := realizes
      exact ⟨_, reported, reports_filled _ _ (by simp)⟩

/-- Outputs that no search has stored into. -/
def emptyOut : EntryOut :=
  { retFlags := 0, retOffset := 0, retObj := 0, retModord := 0, retType := 0 }

theorem findsEntry_of_reports {result : Option Int × EntryOut} (short : tail.length ≤ 1)
    (realizes : Realizes emptyOut tail (lxMod.getEntry entryOrdToSearch emptyOut)
      (lookup tail.head? table.bundles (entryOrdToSearch.toNat - 1)))
    (searched : lxMod.getEntry entryOrdToSearch emptyOut = .ok result)
    (reports : Reports result table.entries[entryOrdToSearch.toNat - 1]?) :
    FindsEntry tail.head? table.bundles (entryOrdToSearch.toNat - 1) := by
  have misses (nothing : result.1 = none) :
      Misses tail.head? table.bundles (entryOrdToSearch.toNat - 1) := by
    rw [← lookup_eq_missing_iff]
    cases outcome : lookup tail.head? table.bundles (entryOrdToSearch.toNat - 1) with
    | missing => rfl
    | found entry =>
      rw [outcome] at realizes
      obtain ⟨entryTable, reported⟩ := realizes
      rw [searched] at reported
      cases reported
      cases nothing
    | astray =>
      rw [outcome] at realizes
      have returned := (realizes short result searched).1
      rw [nothing] at returned
      cases returned
  rw [FindsEntry]
  rw [EntryTable.entries] at reports
  cases found : (bundleEntries table.bundles)[entryOrdToSearch.toNat - 1]? with
  | none =>
    rw [found] at reports
    exact misses reports
  | some entry =>
    rw [found] at reports
    cases entry with
    | unused => exact misses reports
    | forward b32Obj forward => exact True.intro
    | entry32 b32Obj entry =>
      by_contra notFirst
      rw [(lookup_entry32 _ found).2 notFirst] at realizes
      obtain ⟨_, type, _⟩ := reports
      rw [(realizes short result searched).2] at type
      cases type

/-- In every module with the table, the search for an ordinal agrees with the
conversion, if and only if the ordinal is that of a forwarder, that of the first
entry of a 32-bit bundle, or one that the search misses. -/
theorem lookupAgrees_iff_findsEntry (table : EntryTable) (next : Option UInt8)
    {entryOrdToSearch : UInt32} (positive : 1 ≤ entryOrdToSearch) :
    (∀ lxMod out, HoldsEntryTable lxMod table next →
        LookupAgrees lxMod table entryOrdToSearch out) ↔
      FindsEntry next table.bundles (entryOrdToSearch.toNat - 1) := by
  constructor
  · intro agrees
    have headEq : next.toList.head? = next := by cases next <;> rfl
    have short : next.toList.length ≤ 1 := by cases next <;> simp
    have holds := holdsEntryTable_entryTableModule table next.toList
    rw [headEq] at holds
    obtain ⟨⟨result, searched, reports⟩, _⟩ := agrees _ emptyOut holds
    have stands : RestAt _ (entryTableModule (table.encode ++ next.toList)).entryTable
        (table.encode ++ next.toList) :=
      (entryTable_entryTableModule _).symm ▸ restAt_zero _
    have finds := findsEntry_of_reports short
      (getEntry_realizes holds.magic stands positive emptyOut) searched reports
    rwa [headEq] at finds
  · intro finds lxMod out holds
    obtain ⟨tail, rfl, stands⟩ := holds.stands
    exact ⟨reports_of_findsEntry (getEntry_realizes holds.magic stands positive out) finds,
      fun array converted entry found => slot_of_convert holds converted found⟩

/-- The forwarder of a table with one entry is found. -/
theorem lookupAgrees_forwarderTable :
    LookupAgrees (entryTableModule ((forwarderTable fwdOrdinal).encode ++ []))
      (forwarderTable fwdOrdinal) 1 emptyOut :=
  (lookupAgrees_iff_findsEntry (forwarderTable fwdOrdinal) none
      (UInt32.le_refl 1)).mpr True.intro _ _
    (holdsEntryTable_entryTableModule _ [])

/-- A table with two 32-bit entries in one bundle. -/
def twoEntriesTable : EntryTable where
  bundles :=
    [.entry32 1 { e32Flags := 1, offset32 := 0x10 }
      [{ e32Flags := 1, offset32 := 0x20 }] (by decide)]
  ordinals_fit := by decide

/-- The search for the second of two 32-bit entries returns a pointer and stores
nothing. -/
theorem not_lookupAgrees_twoEntriesTable :
    HoldsEntryTable (entryTableModule (twoEntriesTable.encode ++ [1])) twoEntriesTable (some 1) ∧
      (entryTableModule (twoEntriesTable.encode ++ [1])).getEntry 2 emptyOut =
          .ok (some 14, emptyOut) ∧
        ¬ LookupAgrees (entryTableModule (twoEntriesTable.encode ++ [1]))
          twoEntriesTable 2 emptyOut := by
  have searched : (entryTableModule (twoEntriesTable.encode ++ [1])).getEntry 2 emptyOut =
        .ok (some 14, emptyOut) := by
    decide
  refine ⟨holdsEntryTable_entryTableModule _ [1], searched, ?_⟩
  rintro ⟨⟨result, returned, _, type, _⟩, _⟩
  cases returned
  exact absurd type (by decide)

end OsFree.Lx
