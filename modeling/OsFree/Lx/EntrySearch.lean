import OsFree.Lx.EntryTable

/-!
# The search on bundles

The search for an ordinal, stated on the bundles of a table instead of their
bytes.  It differs from a search for an element of a list in two places: behind
unused entries it goes on in the wrong place, and among 32-bit entries it finds
the first one only.
-/

namespace OsFree.Lx

open Machine

/-- How a search ends.  A search that has gone astray reads behind the table,
or it returns a pointer without having stored an entry. -/
inductive Outcome where
  | missing
  | found (entry : Entry)
  | astray
  deriving DecidableEq

/-- Behind some unused bundles there is a bundle of another type, or the end of
the table and a byte that does not look like one more unused bundle. -/
def runEnds (next : Option UInt8) : List Bundle → Bool
  | [] => next.any (· ≠ empty)
  | .empty _ _ :: bundles => runEnds next bundles
  | _ :: _ => true

/-- The outcome of the search for the entry number `ord`, counted from zero, in
some bundles that the byte `next` follows. -/
def lookup (next : Option UInt8) : List Bundle → Nat → Outcome
  | [], _ => if next.any (· ≠ empty) then .missing else .astray
  | .empty b32Cnt _ :: bundles, ord =>
    if ord < b32Cnt.toNat then
      match bundles with
      | [] =>
        if next.any (fun byte =>
            byte ≠ empty ∧ byte ≠ entry32 ∧ byte ≠ entryFwd) then
          .missing
        else .astray
      | .empty _ _ :: _ => if runEnds next bundles then .missing else .astray
      | _ :: _ => lookup next bundles ord
    else lookup next bundles (ord - b32Cnt.toNat)
  | .entry32 b32Obj first others _ :: bundles, ord =>
    if ord = 0 then .found (.entry32 b32Obj first)
    else if ord < others.length + 1 then .astray
    else if bundles = [] ∧ next = some entryFwd then .astray
    else lookup next bundles (ord - (others.length + 1))
  | .entryFwd b32Obj first others _ :: bundles, ord =>
    match (first :: others)[ord]? with
    | some forward => .found (.forward b32Obj forward)
    | none => lookup next bundles (ord - (others.length + 1))

theorem lookup_empty_later {next : Option UInt8} {b32Cnt : UInt8}
    {positive : b32Cnt ≠ 0} {bundles : List Bundle} {ord : Nat}
    (later : b32Cnt.toNat ≤ ord) :
    lookup next (.empty b32Cnt positive :: bundles) ord =
      lookup next bundles (ord - b32Cnt.toNat) := by
  have notHere := Nat.not_lt.mpr later
  cases bundles with
  | nil => simp [lookup, notHere]
  | cons bundle bundles => cases bundle <;> simp [lookup, notHere]

theorem lookup_empty_used {next : Option UInt8} {b32Cnt : UInt8}
    {positive : b32Cnt ≠ 0} {bundle : Bundle} {bundles : List Bundle}
    {ord : Nat} (here : ord < b32Cnt.toNat) (used : bundle.b32Type ≠ empty) :
    lookup next (.empty b32Cnt positive :: bundle :: bundles) ord =
      lookup next (bundle :: bundles) ord := by
  cases bundle with
  | empty => exact absurd rfl used
  | entry32 | entryFwd => simp [lookup, here]

/-- The outputs with an entry. -/
def EntryOut.filled (out : EntryOut) : Entry → EntryOut
  | .unused => out
  | .entry32 b32Obj entry =>
    { out with
      retFlags := entry.e32Flags.toUInt32
      retOffset := entry.offset32
      retObj := b32Obj.toUInt32
      retType := entry32.toUInt32 }
  | .forward b32Obj forward =>
    { retFlags := forward.e32Flags.toUInt32
      retOffset := forward.value
      retModord := forward.modord.toUInt32
      retObj := b32Obj.toUInt32
      retType := entryFwd.toUInt32 }

/-- The run ends like this.  Of a search that has gone astray this is only said
when nothing but `next` follows the table. -/
def Realizes (out : EntryOut) (tail : List UInt8)
    (run : Run (Option Int × EntryOut)) : Outcome → Prop
  | .missing => run = .ok (none, out.cleared)
  | .found entry => ∃ entryTable, run = .ok (some entryTable, out.filled entry)
  | .astray => tail.length ≤ 1 → ∀ result, run = .ok result → result.1.isSome ∧ result.2 = out

namespace LXModule

variable (lxMod : LXModule)

/-- The search after a step. -/
def resume (entryOrdToSearch : UInt32) (out : EntryOut) (fuel : Nat)
    (cursor : EntryCursor) : BundleStep → Run (Option Int × EntryOut)
  | .done result => pure result
  | .next entryTable entryOrdIndex =>
    lxMod.searchEntry entryOrdToSearch out fuel { cursor with entryTable, entryOrdIndex }

/-- The search from the loop over the unused bundles on. -/
def searchFrom (entryOrdToSearch : UInt32) (out : EntryOut) (skipFuel fuel : Nat)
    (cursor : EntryCursor) : Run (Option Int × EntryOut) := do
  let cursor ← lxMod.skipUnused skipFuel cursor
  let step ← lxMod.searchStep entryOrdToSearch out cursor
  lxMod.resume entryOrdToSearch out fuel cursor step

end LXModule

variable {lxMod : LXModule} {out : EntryOut} {tail : List UInt8}
  {entryOrdToSearch : UInt32} {fuel skipFuel : Nat} {cursor : EntryCursor}

theorem searchEntry_of_le (before : cursor.entryOrdIndex ≤ entryOrdToSearch) :
    lxMod.searchEntry entryOrdToSearch out (fuel + 1) cursor =
      lxMod.searchFrom entryOrdToSearch out lxMod.loaderSection.length fuel
        cursor := by
  rw [LXModule.searchEntry, if_pos before]
  rfl

theorem searchEntry_of_lt (beyond : entryOrdToSearch < cursor.entryOrdIndex) :
    lxMod.searchEntry entryOrdToSearch out (fuel + 1) cursor =
      .ok (some cursor.entryTable, out) := by
  rw [LXModule.searchEntry, if_neg (UInt32.not_le.mpr beyond)]
  rfl

theorem realizes_astray_of_error {run : Run (Option Int × EntryOut)}
    (faulted : tail.length ≤ 1 → run = .error .readOutside) :
    Realizes out tail run .astray := by
  intro short result returned
  rw [faulted short] at returned
  cases returned

/-! ## The end of the table -/

theorem skipUnused_end (stands : RestAt lxMod.loaderSection cursor.entryTable ([0] ++ tail))
    (ends : tail.head?.any (· ≠ empty)) :
    lxMod.skipUnused (skipFuel + 1) cursor = .ok cursor := by
  cases tail with
  | nil => simp at ends
  | cons byte tail =>
    have differs : byte ≠ empty := by simpa using ends
    rw [LXModule.skipUnused, stands.tail.readByte, bind_ok, if_neg differs]
    rfl

theorem skipUnused_beyond (stands : RestAt lxMod.loaderSection cursor.entryTable ([0] ++ tail))
    (short : tail.length ≤ 1) (unends : ¬ tail.head?.any (· ≠ empty)) :
    lxMod.skipUnused skipFuel cursor = .error .readOutside := by
  have beyond := fun position =>
    @RestAt.readByte_beyond _ _ _ stands position
  simp only [List.length_append, List.length_singleton, Nat.cast_add, Nat.cast_one] at beyond
  cases skipFuel with
  | zero => rfl
  | succ skipFuel =>
    rw [LXModule.skipUnused]
    cases tail with
    | nil =>
      rw [beyond (cursor.entryTable + 1) (by simp)]
      rfl
    | cons byte tail =>
      have unused : byte = empty := by simpa using unends
      rw [stands.tail.readByte, bind_ok, if_pos unused, stands.readByte, bind_ok]
      cases skipFuel with
      | zero => rfl
      | succ skipFuel =>
        rw [LXModule.skipUnused, beyond]
        · rfl
        · simp only [List.length_cons, unusedEntrySize] at short ⊢
          omega

/-! ## Unused bundles -/

theorem index_behind {index : UInt32} (bundle : Bundle) {bundles : List Bundle}
    (fits : index.toNat + (bundleEntries (bundle :: bundles)).length < 4294967296) :
    (index + bundle.b32Cnt.toUInt32).toNat =
      index.toNat + bundle.entries.length := by
  rw [bundleEntries_cons, List.length_append] at fits
  rw [b32Cnt_toUInt32, UInt32.toNat_add, UInt32.toNat_ofNat']
  omega

theorem skipUnused_empty {b32Cnt : UInt8} {positive : b32Cnt ≠ 0} {rest : List UInt8}
    (stands : RestAt lxMod.loaderSection cursor.entryTable
      ((Bundle.empty b32Cnt positive).encode ++ rest)) :
    lxMod.skipUnused (skipFuel + 1) cursor = lxMod.skipUnused skipFuel
        { entryTable := cursor.entryTable + unusedEntrySize
          entryOrdIndex := cursor.entryOrdIndex + b32Cnt.toUInt32
          prevEntryTable := some (cursor.entryTable + unusedEntrySize)
          prevOrdIndex := cursor.entryOrdIndex } := by
  have unused : (Bundle.empty b32Cnt positive).b32Type = empty := rfl
  rw [LXModule.skipUnused, Bundle.readType stands, bind_ok, if_pos unused,
    Bundle.readCnt stands, bind_ok]
  rfl

theorem skipUnused_bundle {bundle : Bundle} {rest : List UInt8}
    (stands : RestAt lxMod.loaderSection cursor.entryTable
      (bundle.encode ++ rest)) (used : bundle.b32Type ≠ empty) :
    lxMod.skipUnused (skipFuel + 1) cursor = .ok cursor := by
  rw [LXModule.skipUnused, Bundle.readType stands, bind_ok, if_neg used]
  rfl

theorem searchFrom_run (bundles : List Bundle) : ∀ {skipFuel : Nat} {cursor : EntryCursor},
      RestAt lxMod.loaderSection cursor.entryTable (encodeBundles bundles ++ tail) →
        bundles.length < skipFuel → entryOrdToSearch < cursor.prevOrdIndex →
            entryOrdToSearch < cursor.entryOrdIndex →
              cursor.entryOrdIndex.toNat + (bundleEntries bundles).length < 4294967296 →
                Realizes out tail (lxMod.searchFrom entryOrdToSearch out skipFuel fuel cursor)
                  (if runEnds tail.head? bundles then .missing
                    else .astray) := by
  have stops {cursor : EntryCursor} (prev : entryOrdToSearch < cursor.prevOrdIndex)
      (index : entryOrdToSearch < cursor.entryOrdIndex) :
      lxMod.searchStep entryOrdToSearch out cursor =
        .ok (.done (none, out.cleared)) := by
    rw [LXModule.searchStep, if_pos index, if_neg (UInt32.not_le.mpr prev)]
    rfl
  induction bundles with
  | nil =>
    intro skipFuel cursor stands enough prev index _
    cases skipFuel with
    | zero => omega
    | succ skipFuel =>
      by_cases ends : runEnds tail.head? []
      · rw [if_pos ends, LXModule.searchFrom, skipUnused_end stands ends, bind_ok, stops prev index]
        rfl
      · rw [if_neg ends]
        refine realizes_astray_of_error fun short => ?_
        rw [LXModule.searchFrom, skipUnused_beyond stands short ends]
        rfl
  | cons bundle bundles ih =>
    intro skipFuel cursor stands enough prev index fits
    cases skipFuel with
    | zero => omega
    | succ skipFuel =>
      rw [encodeBundles_cons, List.append_assoc] at stands
      cases bundle with
      | empty b32Cnt positive =>
        have behind : (cursor.entryOrdIndex + b32Cnt.toUInt32).toNat = cursor.entryOrdIndex.toNat +
              (Bundle.empty b32Cnt positive).entries.length :=
          index_behind _ fits
        rw [bundleEntries_cons, List.length_append] at fits
        rw [LXModule.searchFrom, skipUnused_empty stands]
        apply ih (Bundle.behind stands) (Nat.lt_of_succ_lt_succ enough) index
        · rw [UInt32.lt_iff_toNat_lt] at index ⊢
          simp only [behind]
          omega
        · simp only [behind]
          omega
      | entry32 =>
        have used : entry32 ≠ empty := by decide
        rw [LXModule.searchFrom, skipUnused_bundle stands used, bind_ok, stops prev index]
        rfl
      | entryFwd =>
        have used : entryFwd ≠ empty := by decide
        rw [LXModule.searchFrom, skipUnused_bundle stands used, bind_ok, stops prev index]
        rfl

/-! ## The search at a bundle -/

/-- The search is at these bundles, whose first entry has the ordinal
`entryOrdIndex`, and looks for the entry number `ord` of them. -/
structure Located (lxMod : LXModule) (tail : List UInt8)
    (entryOrdToSearch : UInt32) (bundles : List Bundle) (entryTable : Int)
    (entryOrdIndex : UInt32) (ord : Nat) : Prop where
  stands : RestAt lxMod.loaderSection entryTable (encodeBundles bundles ++ tail)
  ordinal : entryOrdIndex.toNat + ord = entryOrdToSearch.toNat
  fits : entryOrdIndex.toNat + (bundleEntries bundles).length < 4294967296

section

variable {bundle : Bundle} {bundles : List Bundle} {entryTable : Int}
  {entryOrdIndex : UInt32} {ord : Nat}

namespace Located

theorem le (located : Located lxMod tail entryOrdToSearch bundles entryTable
    entryOrdIndex ord) : entryOrdIndex ≤ entryOrdToSearch := by
  have ordinal := located.ordinal
  rw [UInt32.le_iff_toNat_le]
  omega

section

variable (located : Located lxMod tail entryOrdToSearch (bundle :: bundles) entryTable entryOrdIndex ord)

include located

theorem bundleStands : RestAt lxMod.loaderSection entryTable
      (bundle.encode ++ (encodeBundles bundles ++ tail)) := by
  have stands := located.stands
  rwa [encodeBundles_cons, List.append_assoc] at stands

theorem index : (entryOrdIndex + bundle.b32Cnt.toUInt32).toNat =
      entryOrdIndex.toNat + bundle.entries.length :=
  index_behind bundle located.fits

theorem behind (later : bundle.entries.length ≤ ord) :
    Located lxMod tail entryOrdToSearch bundles (entryTable + bundle.size)
      (entryOrdIndex + bundle.b32Cnt.toUInt32)
      (ord - bundle.entries.length) where
  stands := Bundle.behind located.bundleStands
  ordinal := by
    have ordinal := located.ordinal
    rw [located.index]
    omega
  fits := by
    have fits := located.fits
    rw [bundleEntries_cons, List.length_append] at fits
    rw [located.index]
    omega

end

end Located

theorem stepsToEntry_eq (ord : Nat) : ∀ {turns : Nat} {entryOrdIndex : UInt32},
      entryOrdIndex.toNat + ord = entryOrdToSearch.toNat → ord < turns →
        stepsToEntry entryOrdToSearch turns entryOrdIndex = ord := by
  induction ord with
  | zero =>
    intro turns entryOrdIndex ordinal enough
    have same : entryOrdToSearch = entryOrdIndex := UInt32.toNat_inj.mp ordinal.symm
    cases turns with
    | zero => omega
    | succ turns => rw [stepsToEntry, if_pos same]
  | succ ord ih =>
    intro turns entryOrdIndex ordinal enough
    have bound := entryOrdToSearch.toNat_lt
    have differs : entryOrdToSearch ≠ entryOrdIndex := by
      rintro rfl
      omega
    have next : (entryOrdIndex + 1).toNat = entryOrdIndex.toNat + 1 := by
      rw [UInt32.toNat_add]
      have one : (1 : UInt32).toNat = 1 := rfl
      omega
    cases turns with
    | zero => omega
    | succ turns =>
      rw [stepsToEntry, if_neg differs, ih]
      · rw [next]
        omega
      · omega

theorem bundleTurns_eq (located : Located lxMod tail entryOrdToSearch (bundle :: bundles)
      entryTable entryOrdIndex ord) :
    bundleTurns entryOrdIndex bundle.b32Cnt = bundle.entries.length := by
  rw [bundleTurns, located.index]
  omega

theorem searchFrom_bundle (located : Located lxMod tail entryOrdToSearch (bundle :: bundles)
      cursor.entryTable cursor.entryOrdIndex ord)
    (used : bundle.b32Type ≠ empty) :
    lxMod.searchFrom entryOrdToSearch out (skipFuel + 1) fuel cursor =
      (lxMod.searchBundle entryOrdToSearch out cursor.entryTable cursor.entryOrdIndex >>=
        lxMod.resume entryOrdToSearch out fuel cursor) := by
  have stands := located.bundleStands
  rw [LXModule.searchFrom, skipUnused_bundle stands used, bind_ok,
    LXModule.searchStep, if_neg (UInt32.not_lt.mpr located.le),
    Bundle.readCnt stands, bind_ok, if_neg bundle.b32Cnt_ne_zero]

theorem searchForward_of_ne (located : Located lxMod tail entryOrdToSearch (bundle :: bundles)
      entryTable entryOrdIndex ord)
    (other : bundle.b32Type ≠ entryFwd) :
    lxMod.searchForward entryOrdToSearch entryTable entryOrdIndex =
      .ok (.next entryTable entryOrdIndex) := by
  have stands := located.bundleStands
  rw [LXModule.searchForward, if_pos located.le, Bundle.readCnt stands, Bundle.readType stands]
  simp only [bind_ok, pure_eq_ok, if_neg other]

theorem searchForward_skip (located : Located lxMod tail entryOrdToSearch (bundle :: bundles)
      entryTable entryOrdIndex ord)
    (forwards : bundle.b32Type = entryFwd)
    (later : bundle.entries.length ≤ ord) :
    lxMod.searchForward entryOrdToSearch entryTable entryOrdIndex =
      .ok (.next (entryTable + bundle.size)
        (entryOrdIndex + bundle.b32Cnt.toUInt32)) := by
  have stands := located.bundleStands
  have outside : ¬ entryOrdToSearch <
      bundle.b32Cnt.toUInt32 + entryOrdIndex := by
    rw [UInt32.add_comm, UInt32.lt_iff_toNat_lt, located.index, ← located.ordinal]
    omega
  rw [LXModule.searchForward, if_pos located.le, Bundle.readCnt stands, Bundle.readType stands]
  simp only [bind_ok, pure_eq_ok, if_pos forwards, outside, decide_false]
  cases bundle with
  | empty | entry32 => cases forwards
  | entryFwd =>
    rw [Bundle.size, Nat.cast_add, Nat.cast_mul, ← Int.add_assoc]
    rfl

theorem searchForward_found {b32Obj : UInt16} {first forward : Forward}
    {others : List Forward} {short : others.length < 255}
    (located : Located lxMod tail entryOrdToSearch (.entryFwd b32Obj first others short :: bundles)
      entryTable entryOrdIndex ord)
    (here : (first :: others)[ord]? = some forward) :
    lxMod.searchForward entryOrdToSearch entryTable entryOrdIndex = .ok (.done (some entryTable,
        out.filled (.forward b32Obj forward))) := by
  have stands := located.bundleStands
  have inside : ord < (first :: others).length := (List.getElem?_eq_some_iff.mp here).1
  have length : (Bundle.entryFwd b32Obj first others short).entries.length =
      (first :: others).length := List.length_map _
  have inBundle : entryOrdToSearch < (Bundle.entryFwd b32Obj first others short).b32Cnt.toUInt32 +
        entryOrdIndex := by
    rw [UInt32.add_comm, UInt32.lt_iff_toNat_lt, located.index, ← located.ordinal]
    omega
  have steps : stepsToEntry entryOrdToSearch (bundleTurns entryOrdIndex
        (Bundle.entryFwd b32Obj first others short).b32Cnt) entryOrdIndex =
      ord := by
    rw [bundleTurns_eq located]
    exact stepsToEntry_eq ord located.ordinal (by omega)
  obtain ⟨object, flags, modord, value⟩ := Bundle.readForward stands here
  have forwards : (Bundle.entryFwd b32Obj first others short).b32Type =
      entryFwd := rfl
  rw [LXModule.searchForward, if_pos located.le, Bundle.readCnt stands, Bundle.readType stands]
  simp only [bind_ok, pure_eq_ok, if_pos forwards, inBundle, decide_true,
    if_true, steps, LXModule.reportForward, flags, value, modord, object]
  rfl

theorem searchBundle_forward (located : Located lxMod tail entryOrdToSearch (bundle :: bundles)
      entryTable entryOrdIndex ord)
    (forwards : bundle.b32Type = entryFwd) :
    lxMod.searchBundle entryOrdToSearch out entryTable entryOrdIndex =
      lxMod.searchForward entryOrdToSearch entryTable entryOrdIndex := by
  have other : entryFwd ≠ entry32 := by decide
  rw [LXModule.searchBundle, Bundle.readType located.bundleStands, bind_ok,
    forwards, if_pos (Or.inr (Or.inl rfl)), if_neg other]

theorem searchBundle_found {b32Obj : UInt16} {first : Entry32}
    {others : List Entry32} {short : others.length < 255}
    (located : Located lxMod tail entryOrdToSearch (.entry32 b32Obj first others short :: bundles)
      entryTable entryOrdIndex 0) :
    lxMod.searchBundle entryOrdToSearch out entryTable entryOrdIndex = .ok (.done (some entryTable,
        out.filled (.entry32 b32Obj first))) := by
  have stands := located.bundleStands
  have same : entryOrdToSearch = entryOrdIndex := UInt32.toNat_inj.mp located.ordinal.symm
  have steps : stepsToEntry entryOrdToSearch (bundleTurns entryOrdIndex
        (Bundle.entry32 b32Obj first others short).b32Cnt) entryOrdIndex =
      0 := by
    rw [bundleTurns_eq located]
    exact stepsToEntry_eq 0 located.ordinal (Bundle.entries_length_pos _)
  have reached : entryOrdToSearch ≤ entryOrdIndex ∧ entryOrdIndex - entryOrdToSearch ≤
        (Bundle.entry32 b32Obj first others short).b32Cnt.toUInt32 := by
    rw [same, UInt32.sub_self]
    exact ⟨UInt32.le_refl _, UInt32.zero_le⟩
  obtain ⟨object, flags, offset⟩ := @Bundle.readEntry32 _ _ _ _ _ _ _ stands 0 first rfl
  have type : (Bundle.entry32 b32Obj first others short).b32Type = entry32 :=
    rfl
  rw [LXModule.searchBundle, Bundle.readType stands, bind_ok, type,
    if_pos (Or.inr (Or.inr rfl)), if_pos rfl, Bundle.readCnt stands, bind_ok,
    if_pos reached]
  simp only [steps, LXModule.reportEntry32, flags, offset, object, bind_ok, pure_eq_ok]
  rfl

theorem searchBundle_skip (located : Located lxMod tail entryOrdToSearch (bundle :: bundles)
      entryTable entryOrdIndex ord)
    (type : bundle.b32Type = entry32) (later : ord ≠ 0) :
    lxMod.searchBundle entryOrdToSearch out entryTable entryOrdIndex =
      lxMod.searchForward entryOrdToSearch (entryTable + bundle.size)
        (entryOrdIndex + bundle.b32Cnt.toUInt32) := by
  have stands := located.bundleStands
  have ordinal := located.ordinal
  have unreached : ¬ (entryOrdToSearch ≤ entryOrdIndex ∧
      entryOrdIndex - entryOrdToSearch ≤ bundle.b32Cnt.toUInt32) := by
    rintro ⟨reached, _⟩
    rw [UInt32.le_iff_toNat_le] at reached
    omega
  rw [LXModule.searchBundle, Bundle.readType stands, bind_ok, type,
    if_pos (Or.inr (Or.inr rfl)), if_pos rfl, Bundle.readCnt stands, bind_ok,
    if_neg unreached]
  cases bundle with
  | empty | entryFwd => cases type
  | entry32 =>
    rw [Bundle.size, Nat.cast_add, Nat.cast_mul, ← Int.add_assoc]

theorem searchForward_beyond {step : BundleStep}
    (stands : RestAt lxMod.loaderSection entryTable (encodeBundles bundles ++ tail))
    (fits : entryOrdIndex.toNat + (bundleEntries bundles).length < 4294967296)
    (beyond : entryOrdToSearch < entryOrdIndex)
    (stepped : lxMod.searchForward entryOrdToSearch entryTable entryOrdIndex = .ok step) :
    ∃ entryTable' entryOrdIndex', step = .next entryTable' entryOrdIndex' ∧
      entryOrdToSearch < entryOrdIndex' := by
  rw [LXModule.searchForward, if_neg (UInt32.not_le.mpr beyond), pure_eq_ok, bind_ok] at stepped
  obtain ⟨b32Type, _, stepped⟩ := bind_eq_ok_iff.mp stepped
  by_cases forwards : b32Type = entryFwd
  · rw [if_pos forwards] at stepped
    obtain ⟨b32Cnt, count, stepped⟩ := bind_eq_ok_iff.mp stepped
    cases stepped
    refine ⟨_, _, rfl, ?_⟩
    cases bundles with
    | nil =>
      rw [stands.readByte] at count
      cases count
      have zero : (0 : UInt8).toUInt32 = 0 := rfl
      rwa [zero, UInt32.add_zero]
    | cons bundle bundles =>
      rw [encodeBundles_cons, List.append_assoc] at stands
      rw [Bundle.readCnt stands] at count
      cases count
      rw [UInt32.lt_iff_toNat_lt] at beyond ⊢
      rw [index_behind bundle fits]
      omega
  · rw [if_neg forwards] at stepped
    cases stepped
    exact ⟨_, _, rfl, beyond⟩

theorem realizes_astray_of_beyond (stands : RestAt lxMod.loaderSection entryTable
      (encodeBundles bundles ++ tail))
    (fits : entryOrdIndex.toNat + (bundleEntries bundles).length < 4294967296)
    (beyond : entryOrdToSearch < entryOrdIndex) :
    Realizes out tail (lxMod.searchForward entryOrdToSearch entryTable entryOrdIndex >>=
        lxMod.resume entryOrdToSearch out fuel cursor) .astray := by
  intro _ result returned
  obtain ⟨step, stepped, returned⟩ := bind_eq_ok_iff.mp returned
  obtain ⟨entryTable', entryOrdIndex', rfl, beyond'⟩ :=
    searchForward_beyond stands fits beyond stepped
  rw [LXModule.resume] at returned
  cases fuel with
  | zero => cases returned
  | succ fuel =>
    rw [searchEntry_of_lt beyond'] at returned
    cases returned
    exact ⟨rfl, rfl⟩

/-! ## The whole search -/

/-- From these bundles on the search ends as `lookup` says. -/
def SearchRealizes (lxMod : LXModule) (out : EntryOut) (tail : List UInt8)
    (entryOrdToSearch : UInt32) (bundles : List Bundle) : Prop :=
  ∀ {skipFuel fuel : Nat} {cursor : EntryCursor} {ord : Nat},
    bundles.length < skipFuel → bundles.length ≤ fuel →
      Located lxMod tail entryOrdToSearch bundles cursor.entryTable cursor.entryOrdIndex ord →
        Realizes out tail (lxMod.searchFrom entryOrdToSearch out skipFuel fuel cursor)
          (lookup tail.head? bundles ord)

theorem searchRealizes_nil :
    SearchRealizes lxMod out tail entryOrdToSearch [] := by
  intro skipFuel fuel cursor ord enough _ located
  have stands : RestAt lxMod.loaderSection cursor.entryTable ([0] ++ tail) := located.stands
  cases skipFuel with
  | zero => omega
  | succ skipFuel =>
    rw [lookup]
    by_cases ends : tail.head?.any (· ≠ empty)
    · rw [if_pos ends, LXModule.searchFrom, skipUnused_end stands ends,
        bind_ok, LXModule.searchStep,
        if_neg (UInt32.not_lt.mpr located.le), stands.readByte, bind_ok,
        if_pos rfl]
      rfl
    · rw [if_neg ends]
      apply realizes_astray_of_error
      intro short
      rw [LXModule.searchFrom, skipUnused_beyond stands short ends]
      rfl

theorem searchEntry_realizes (searches : SearchRealizes lxMod out tail entryOrdToSearch bundles)
    (enough : bundles.length < fuel)
    (located : Located lxMod tail entryOrdToSearch bundles cursor.entryTable
      cursor.entryOrdIndex ord) :
    Realizes out tail (lxMod.searchEntry entryOrdToSearch out fuel cursor)
      (lookup tail.head? bundles ord) := by
  cases fuel with
  | zero => omega
  | succ fuel =>
    have inside := located.stands.length_le
    have bound := length_lt_encodeBundles bundles
    rw [List.length_append] at inside
    rw [searchEntry_of_le located.le]
    exact searches (by omega) (Nat.le_of_lt_succ enough) located

theorem searchEntry_outside (before : cursor.entryOrdIndex ≤ entryOrdToSearch)
    (outside : readByte lxMod.loaderSection (cursor.entryTable + 1) = .error .readOutside) :
    lxMod.searchEntry entryOrdToSearch out fuel cursor =
      .error .readOutside := by
  have skipped : ∀ skipFuel,
      lxMod.skipUnused skipFuel cursor = .error .readOutside := by
    intro skipFuel
    cases skipFuel with
    | zero => rfl
    | succ skipFuel =>
      rw [LXModule.skipUnused, outside]
      rfl
  cases fuel with
  | zero => rfl
  | succ fuel =>
    rw [searchEntry_of_le before, LXModule.searchFrom, skipped]
    rfl

theorem searchForward_end (stands : RestAt lxMod.loaderSection entryTable ([0] ++ [entryFwd]))
    (before : entryOrdIndex ≤ entryOrdToSearch) :
    (lxMod.searchForward entryOrdToSearch entryTable entryOrdIndex >>=
        lxMod.resume entryOrdToSearch out fuel cursor) =
      .error .readOutside := by
  have outside : ¬ entryOrdToSearch < (0 : UInt8).toUInt32 + entryOrdIndex := by
    have zero : (0 : UInt8).toUInt32 = 0 := rfl
    rw [zero, UInt32.zero_add]
    exact UInt32.not_lt.mpr before
  rw [LXModule.searchForward, if_pos before, stands.readByte, stands.tail.readByte]
  simp only [bind_ok, pure_eq_ok, outside, decide_false, if_true]
  apply searchEntry_outside
  · rwa [show (0 : UInt8).toUInt32 = 0 from rfl, UInt32.add_zero]
  · apply stands.readByte_beyond
    rw [show UInt8.toNat 0 = 0 from rfl]
    simp only [entryHeaderSize, List.length_append, List.length_singleton]
    omega

theorem searchBundle_end (stands : RestAt lxMod.loaderSection entryTable ([0] ++ [entry32]))
    (before : entryOrdIndex ≤ entryOrdToSearch) :
    lxMod.searchBundle entryOrdToSearch out entryTable entryOrdIndex =
      .error .readOutside := by
  have outside : readByte lxMod.loaderSection
      (entryTable + entryHeaderSize) = .error .readOutside := by
    apply stands.readByte_beyond
    simp only [entryHeaderSize, List.length_append, List.length_singleton]
    omega
  have noTurns : bundleTurns entryOrdIndex 0 = 0 := by
    rw [bundleTurns, show (0 : UInt8).toUInt32 = 0 from rfl, UInt32.add_zero, Nat.sub_self]
  rw [LXModule.searchBundle, stands.tail.readByte, bind_ok,
    if_pos (Or.inr (Or.inr rfl)), if_pos rfl, stands.readByte, bind_ok]
  by_cases reached : entryOrdToSearch ≤ entryOrdIndex ∧
      entryOrdIndex - entryOrdToSearch ≤ (0 : UInt8).toUInt32
  · rw [if_pos reached, noTurns, stepsToEntry]
    simp only [Nat.cast_zero, Int.mul_zero, Int.add_zero,
      LXModule.reportEntry32, outside, bind_error]
  · rw [if_neg reached, show UInt8.toNat 0 = 0 from rfl,
      show (0 : UInt8).toUInt32 = 0 from rfl, Nat.cast_zero, Int.mul_zero,
      Int.add_zero, UInt32.add_zero, LXModule.searchForward, if_pos before,
      outside]
    rfl

theorem searchForward_realizes (searches : SearchRealizes lxMod out tail entryOrdToSearch bundles)
    (enough : bundles.length < fuel)
    (located : Located lxMod tail entryOrdToSearch bundles entryTable entryOrdIndex ord) :
    Realizes out tail (lxMod.searchForward entryOrdToSearch entryTable entryOrdIndex >>=
        lxMod.resume entryOrdToSearch out fuel cursor)
      (if bundles = [] ∧ tail.head? = some entryFwd then .astray
        else lookup tail.head? bundles ord) := by
  cases bundles with
  | nil =>
    have stands : RestAt lxMod.loaderSection entryTable ([0] ++ tail) := located.stands
    by_cases forwards : tail.head? = some entryFwd
    · rw [if_pos ⟨rfl, forwards⟩]
      apply realizes_astray_of_error
      intro short
      obtain ⟨rest, rfl⟩ := List.head?_eq_some_iff.mp forwards
      have nothing : rest = [] := by
        rw [List.length_cons] at short
        exact List.eq_nil_of_length_eq_zero (by omega)
      subst nothing
      exact searchForward_end stands located.le
    · rw [if_neg (fun both => forwards both.2)]
      cases tail with
      | nil =>
        apply realizes_astray_of_error
        intro _
        rw [LXModule.searchForward, if_pos located.le, stands.readByte,
          bind_ok, pure_eq_ok, bind_ok, stands.readByte_beyond]
        · rfl
        · simp
      | cons byte tail =>
        have other : byte ≠ entryFwd := by simpa using forwards
        rw [LXModule.searchForward, if_pos located.le, stands.readByte, stands.tail.readByte]
        simp only [bind_ok, pure_eq_ok, if_neg other]
        exact @searchEntry_realizes _ _ _ _ _
          { cursor with entryTable, entryOrdIndex } _ _ searches enough
          located
  | cons bundle bundles =>
    by_cases forwards : bundle.b32Type = entryFwd
    · -- a search that starts here begins with the same step
      have used : bundle.b32Type ≠ empty := by
        rw [forwards]
        decide
      have same := @searchFrom_bundle _ out _ _ fuel (bundles.length + 1)
        { cursor with entryTable, entryOrdIndex } _ _ _ located used
      rw [searchBundle_forward located forwards] at same
      have realized := @searches (bundles.length + 2) fuel
        { cursor with entryTable, entryOrdIndex } ord
        (Nat.lt_succ_self _) (Nat.le_of_lt enough) located
      rw [same] at realized
      exact realized
    · rw [searchForward_of_ne located forwards, bind_ok]
      exact @searchEntry_realizes _ _ _ _ _
        { cursor with entryTable, entryOrdIndex } _ _ searches enough
        located

theorem searchFrom_lastUnused {prevOrdIndex : UInt32}
    (stands : RestAt lxMod.loaderSection entryTable ([0] ++ tail))
    (beyond : entryOrdToSearch < entryOrdIndex)
    (before : prevOrdIndex ≤ entryOrdToSearch) :
    Realizes out tail (lxMod.searchFrom entryOrdToSearch out (skipFuel + 1) fuel
        { entryTable
          entryOrdIndex
          prevEntryTable := some entryTable
          prevOrdIndex })
      (if tail.head?.any (fun byte =>
          byte ≠ empty ∧ byte ≠ entry32 ∧ byte ≠ entryFwd) then .missing
        else .astray) := by
  by_cases ends : tail.head?.any (· ≠ empty)
  · have stepped : lxMod.searchStep entryOrdToSearch out
        { entryTable
          entryOrdIndex
          prevEntryTable := some entryTable
          prevOrdIndex } =
        lxMod.searchBundle entryOrdToSearch out entryTable prevOrdIndex := by
      rw [LXModule.searchStep, if_pos beyond, if_pos before]
    rw [LXModule.searchFrom, skipUnused_end stands ends, bind_ok, stepped]
    cases tail with
    | nil => simp at ends
    | cons byte tail =>
      have differs : byte ≠ empty := by simpa using ends
      by_cases type : byte = entry32
      · rw [if_neg (by simp [type])]
        apply realizes_astray_of_error
        intro short
        have nothing : tail = [] := by
          rw [List.length_cons] at short
          exact List.eq_nil_of_length_eq_zero (by omega)
        subst nothing type
        rw [searchBundle_end stands before]
        rfl
      · by_cases forwards : byte = entryFwd
        · rw [if_neg (by simp [forwards])]
          apply realizes_astray_of_error
          intro short
          have nothing : tail = [] := by
            rw [List.length_cons] at short
            exact List.eq_nil_of_length_eq_zero (by omega)
          subst nothing forwards
          rw [LXModule.searchBundle, stands.tail.readByte, bind_ok,
            if_pos (Or.inr (Or.inl rfl)), if_neg type]
          exact searchForward_end stands before
        · rw [if_pos (by simp [differs, type, forwards]),
            LXModule.searchBundle, stands.tail.readByte, bind_ok,
            if_neg (by simp [differs, type, forwards])]
          rfl
  · have unends : ¬ tail.head?.any (fun byte =>
        byte ≠ empty ∧ byte ≠ entry32 ∧ byte ≠ entryFwd) := by
      cases tail with
      | nil => simp
      | cons byte tail =>
        have unused : byte = empty := by simpa using ends
        simp [unused]
    rw [if_neg unends]
    apply realizes_astray_of_error
    intro short
    rw [LXModule.searchFrom, skipUnused_beyond stands short ends]
    rfl

section

variable (searches : SearchRealizes lxMod out tail entryOrdToSearch bundles)

include searches

theorem searchRealizes_empty {b32Cnt : UInt8} {positive : b32Cnt ≠ 0} :
    SearchRealizes lxMod out tail entryOrdToSearch (.empty b32Cnt positive :: bundles) := by
  intro skipFuel fuel cursor ord enough enoughTurns located
  have length : (Bundle.empty b32Cnt positive).entries.length =
      b32Cnt.toNat := List.length_replicate
  have stands := Bundle.behind located.bundleStands
  have index : (cursor.entryOrdIndex + b32Cnt.toUInt32).toNat =
      cursor.entryOrdIndex.toNat + b32Cnt.toNat := by
    rw [← length]
    exact located.index
  cases skipFuel with
  | zero => omega
  | succ skipFuel =>
    have enough := Nat.lt_of_succ_lt_succ enough
    have enoughTurns := Nat.le_of_succ_le enoughTurns
    have skipped := @skipUnused_empty _ skipFuel _ _ _ _ located.bundleStands
    rw [LXModule.searchFrom, skipped, ← LXModule.searchFrom]
    by_cases later : b32Cnt.toNat ≤ ord
    · rw [lookup_empty_later later]
      have behind := located.behind (by omega)
      rw [length] at behind
      exact searches enough enoughTurns behind
    · have ordinal := located.ordinal
      have fits := located.fits
      have beyond : entryOrdToSearch <
          cursor.entryOrdIndex + b32Cnt.toUInt32 := by
        rw [UInt32.lt_iff_toNat_lt]
        omega
      cases bundles with
      | nil =>
        rw [lookup, if_pos (Nat.lt_of_not_le later)]
        cases skipFuel with
        | zero => omega
        | succ skipFuel =>
          exact searchFrom_lastUnused stands beyond located.le
      | cons bundle bundles =>
        by_cases used : bundle.b32Type = empty
        · cases bundle with
          | entry32 | entryFwd => cases used
          | empty otherCnt otherPositive =>
            have otherStands := stands
            rw [encodeBundles_cons, List.append_assoc] at otherStands
            rw [bundleEntries_cons, List.length_append, length] at fits
            have otherIndex := @index_behind (cursor.entryOrdIndex + b32Cnt.toUInt32)
              (.empty otherCnt otherPositive) bundles
              (by rw [index]; omega)
            rw [bundleEntries_cons, List.length_append] at fits
            cases skipFuel with
            | zero => omega
            | succ skipFuel =>
              rw [LXModule.searchFrom, skipUnused_empty otherStands, ← LXModule.searchFrom]
              have atEnd : lookup tail.head? (.empty b32Cnt positive ::
                    .empty otherCnt otherPositive :: bundles) ord =
                  if runEnds tail.head? bundles then .missing
                    else .astray := by
                rw [lookup, if_pos (Nat.lt_of_not_le later), runEnds]
              rw [atEnd]
              apply searchFrom_run bundles (Bundle.behind otherStands)
                (Nat.lt_of_succ_lt_succ enough) beyond
              · rw [UInt32.lt_iff_toNat_lt] at beyond ⊢
                exact Nat.lt_of_lt_of_le beyond (otherIndex ▸ Nat.le_add_right _ _)
              · exact otherIndex ▸ by omega
        · rw [lookup_empty_used (Nat.lt_of_not_le later) used]
          -- the search goes on at `sw`, with the ordinal of the unused
          -- bundle for that of the bundle behind it
          have displaced : Located lxMod tail entryOrdToSearch (bundle :: bundles)
              (cursor.entryTable + unusedEntrySize)
              cursor.entryOrdIndex ord := by
            rw [bundleEntries_cons, List.length_append] at fits
            exact ⟨stands, ordinal, by omega⟩
          cases skipFuel with
          | zero => omega
          | succ skipFuel =>
            have realized := @searches (skipFuel + 1) fuel
              { entryTable := cursor.entryTable + unusedEntrySize
                entryOrdIndex := cursor.entryOrdIndex
                prevEntryTable := some (cursor.entryTable + unusedEntrySize)
                prevOrdIndex := cursor.entryOrdIndex } ord enough
              enoughTurns displaced
            rw [@searchFrom_bundle _ _ _ _ _ _ _ _ _ _ displaced used]
              at realized
            rw [LXModule.searchFrom, skipUnused_bundle displaced.bundleStands used, bind_ok,
              LXModule.searchStep, if_pos beyond, if_pos located.le]
            exact realized

theorem searchRealizes_entry32 {b32Obj : UInt16} {first : Entry32}
    {others : List Entry32} {short : others.length < 255}
    :
    SearchRealizes lxMod out tail entryOrdToSearch
      (.entry32 b32Obj first others short :: bundles) := by
  intro skipFuel fuel cursor ord enough enoughTurns located
  have used : entry32 ≠ empty := by decide
  have length : (Bundle.entry32 b32Obj first others short).entries.length =
      others.length + 1 := List.length_map _
  cases skipFuel with
  | zero => omega
  | succ skipFuel =>
    rw [searchFrom_bundle located used, lookup]
    by_cases isFirst : ord = 0
    · subst isFirst
      rw [if_pos rfl, searchBundle_found located, bind_ok]
      exact ⟨_, rfl⟩
    · rw [if_neg isFirst, searchBundle_skip located rfl isFirst]
      by_cases inside : ord < others.length + 1
      · have fits := located.fits
        have ordinal := located.ordinal
        rw [bundleEntries_cons, List.length_append] at fits
        rw [if_pos inside]
        apply realizes_astray_of_beyond (Bundle.behind located.bundleStands)
        · rw [located.index]
          omega
        · rw [UInt32.lt_iff_toNat_lt, located.index]
          omega
      · rw [if_neg inside]
        have behind := located.behind (by omega)
        rw [length] at behind
        exact searchForward_realizes searches enoughTurns behind

theorem searchRealizes_entryFwd {b32Obj : UInt16} {first : Forward}
    {others : List Forward} {short : others.length < 255}
    :
    SearchRealizes lxMod out tail entryOrdToSearch
      (.entryFwd b32Obj first others short :: bundles) := by
  intro skipFuel fuel cursor ord enough enoughTurns located
  have used : entryFwd ≠ empty := by decide
  have length : (Bundle.entryFwd b32Obj first others short).entries.length =
      others.length + 1 := List.length_map _
  cases skipFuel with
  | zero => omega
  | succ skipFuel =>
    rw [searchFrom_bundle located used, searchBundle_forward located rfl, lookup]
    cases here : (first :: others)[ord]? with
    | some forward =>
      rw [searchForward_found located here, bind_ok]
      exact ⟨_, rfl⟩
    | none =>
      have later := List.getElem?_eq_none_iff.mp here
      rw [List.length_cons] at later
      have behind := located.behind (by omega)
      rw [length] at behind
      rw [searchForward_skip located rfl (by omega), bind_ok]
      exact @searchEntry_realizes _ _ _ _ _ { cursor with
          entryTable := _
          entryOrdIndex := _ } _ _ searches enoughTurns behind

end

theorem searchRealizes (bundles : List Bundle) :
    SearchRealizes lxMod out tail entryOrdToSearch bundles := by
  induction bundles with
  | nil => exact searchRealizes_nil
  | cons bundle bundles ih =>
    cases bundle with
    | empty => exact searchRealizes_empty ih
    | entry32 => exact searchRealizes_entry32 ih
    | entryFwd => exact searchRealizes_entryFwd ih

end

end OsFree.Lx
