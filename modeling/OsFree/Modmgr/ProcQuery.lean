import OsFree.Modmgr.Server

/-!
# What a query for an address answers

A query leads over forwarders to the address of an entry, or it does not.  The
code answers as it should exactly when it leads to an address or to a module
that is being loaded; every other query ends in an access outside an object, an
endless recursion, or a success without an address.
-/

namespace OsFree.Modmgr

open Machine

/-- The entry that a query asks a table for. -/
def askedEntry (entries : List IXFModuleEntry) (ordinal : UInt32)
    (pszName : Option Name) : Option IXFModuleEntry :=
  if 0 < ordinal then entries[ordinal.toNat - 1]?
  else pszName.bind fun name =>
    entries.find? fun entry => entry.functionName = some name

/-- The entries that a search by name passes have names. -/
def NamesPassed (entries : List IXFModuleEntry) (pszName : Option Name) :
    Prop :=
  ∀ entry ∈ entries.takeWhile fun entry => entry.functionName ≠ pszName, entry.functionName ≠ none

namespace Manager

variable (manager : Manager)

/-- A query asks a registered module for an entry that it has. -/
def AsksFor (hmod : Nat) (ordinal : UInt32) (pszName : Option Name)
    (entry : IXFModuleEntry) : Prop :=
  IsRegistered hmod manager.chain ∧ ∃ ixfModule image,
    manager.ixfModule hmod = .ok ixfModule ∧ ixfModule.image = some image ∧
      askedEntry image.entries ordinal pszName = some entry

/-- A query leads to an address, over any number of forwarders to modules that
are not being loaded. -/
inductive LeadsTo : Nat → UInt32 → Option Name → UInt32 → Prop where
  | address {hmod : Nat} {ordinal : UInt32} {pszName : Option Name}
      {entry : IXFModuleEntry} {address : UInt32}
      (asks : manager.AsksFor hmod ordinal pszName entry)
      (here : entry.moduleName = none)
      (stored : entry.address = some address) :
      LeadsTo hmod ordinal pszName address
  | forward {hmod : Nat} {ordinal : UInt32} {pszName : Option Name}
      {entry : IXFModuleEntry} {moduleName : Name} {prev : ModuleSlot}
      {address : UInt32} (asks : manager.AsksFor hmod ordinal pszName entry)
      (forwards : entry.moduleName = some moduleName)
      (found : getrec moduleName manager.chain = .found prev)
      (leads : LeadsTo prev.first.moduleStruct
        (UInt32.ofInt entry.ordinal.toInt) entry.functionName address) :
      LeadsTo hmod ordinal pszName address

/-- With enough stack the query returns the address that it leads to and no
error, and an error if it leads to none. -/
def AnswersQuery (hmod : Nat) (ordinal : UInt32) (pszName : Option Name) :
    Prop :=
  ∃ enough, ∀ stack, enough ≤ stack → ∃ answer,
    manager.modQueryProcAddr stack hmod ordinal pszName = .ok answer ∧
      ((∃ address, manager.LeadsTo hmod ordinal pszName address ∧
          answer = { rc := 0, ppfn := some address }) ∨
        (¬ ∃ address, manager.LeadsTo hmod ordinal pszName address) ∧ answer.rc ≠ 0)

/-- A search by name passes entries with names only. -/
def SearchesNames (hmod : Nat) (ordinal : UInt32) (pszName : Option Name) :
    Prop :=
  ordinal = 0 → ∀ ixfModule image, manager.ixfModule hmod = .ok ixfModule →
    ixfModule.image = some image → NamesPassed image.entries pszName

/-- A query leads over forwarders to an address or to a module that is being
loaded, and searches by name pass entries with names only. -/
inductive Answerable : Nat → UInt32 → Option Name → Prop where
  | address {hmod : Nat} {ordinal : UInt32} {pszName : Option Name}
      {entry : IXFModuleEntry} {address : UInt32}
      (asks : manager.AsksFor hmod ordinal pszName entry)
      (names : manager.SearchesNames hmod ordinal pszName)
      (here : entry.moduleName = none)
      (stored : entry.address = some address) :
      Answerable hmod ordinal pszName
  | loading {hmod : Nat} {ordinal : UInt32} {pszName : Option Name}
      {entry : IXFModuleEntry} {moduleName : Name}
      (asks : manager.AsksFor hmod ordinal pszName entry)
      (names : manager.SearchesNames hmod ordinal pszName)
      (forwards : entry.moduleName = some moduleName)
      (loads : getrec moduleName manager.chain = .loading) :
      Answerable hmod ordinal pszName
  | forward {hmod : Nat} {ordinal : UInt32} {pszName : Option Name}
      {entry : IXFModuleEntry} {moduleName : Name} {prev : ModuleSlot}
      (asks : manager.AsksFor hmod ordinal pszName entry)
      (names : manager.SearchesNames hmod ordinal pszName)
      (forwards : entry.moduleName = some moduleName)
      (found : getrec moduleName manager.chain = .found prev)
      (leads : Answerable prev.first.moduleStruct
        (UInt32.ofInt entry.ordinal.toInt) entry.functionName) :
      Answerable hmod ordinal pszName

end Manager

variable {entries : List IXFModuleEntry}

theorem findEntry_eq_ok_some_iff {name : Name} {entry : IXFModuleEntry} :
    findEntry (some name) entries = .ok (some entry) ↔
      (entries.find? fun entry => entry.functionName = some name) =
          some entry ∧ NamesPassed entries (some name) := by
  induction entries with
  | nil => simp [findEntry]
  | cons first entries ih =>
    unfold NamesPassed at ih ⊢
    cases named : first.functionName with
    | none => simp [findEntry, named]
    | some functionName =>
      by_cases same : functionName = name
      · simp [findEntry, named, same]
      · simp [findEntry, named, same, ih]

theorem find?_of_findEntry_none {pszName : Option Name}
    (searched : findEntry pszName entries = .ok none) :
    (pszName.bind fun name =>
      entries.find? fun entry => entry.functionName = some name) = none := by
  induction entries with
  | nil => cases pszName <;> rfl
  | cons first entries ih =>
    rw [findEntry] at searched
    cases named : first.functionName with
    | none =>
      rw [named] at searched
      cases searched
    | some functionName =>
      cases pszName with
      | none => rfl
      | some name =>
        simp only [named] at searched
        split at searched
        · cases searched
        · rename_i other
          have rest := ih searched
          simpa [named, other] using rest

theorem entryAt_eq_ok_iff {index : Nat} {entry : IXFModuleEntry} :
    entryAt entries index = .ok entry ↔ entries[index]? = some entry := by
  unfold entryAt
  cases entries[index]? with
  | none => simp
  | some other => simp

namespace Manager

variable {manager : Manager} {hmod : Nat} {ordinal : UInt32}
  {pszName : Option Name} {entry : IXFModuleEntry}

theorem queriedEntry_eq_ok_iff {result : Option IXFModuleEntry} :
    manager.queriedEntry hmod ordinal pszName = .ok result ↔
      IsRegistered hmod manager.chain ∧ ∃ ixfModule image,
        manager.ixfModule hmod = .ok ixfModule ∧ ixfModule.image = some image ∧
          (if 0 < ordinal then do
              let entry ← entryAt image.entries (ordinal.toNat - 1)
              pure (some entry)
            else findEntry pszName image.entries) = .ok result := by
  unfold queriedEntry
  by_cases registered : IsRegistered hmod manager.chain
  · rw [if_pos registered]
    simp only [bind_eq_ok_iff, loaded_eq_ok_iff, registered, true_and]
    constructor
    · rintro ⟨ixfModule, live, image, loaded, searched⟩
      exact ⟨ixfModule, image, live, loaded, searched⟩
    · rintro ⟨ixfModule, image, live, loaded, searched⟩
      exact ⟨ixfModule, live, image, loaded, searched⟩
  · simp [registered]

theorem queriedEntry_eq_some_iff : manager.queriedEntry hmod ordinal pszName = .ok (some entry) ↔
      manager.AsksFor hmod ordinal pszName entry ∧
        manager.SearchesNames hmod ordinal pszName := by
  rw [queriedEntry_eq_ok_iff]
  unfold AsksFor SearchesNames askedEntry
  by_cases positive : 0 < ordinal
  · have nonzero : ordinal ≠ 0 := by
      rintro rfl
      exact absurd positive (by decide)
    simp only [if_pos positive, bind_eq_ok_iff, entryAt_eq_ok_iff, pure_eq_ok,
      Except.ok.injEq, Option.some.injEq, exists_eq_right, nonzero,
      IsEmpty.forall_iff, and_true]
  · have zero : ordinal = 0 := by
      exact UInt32.toNat_inj.mp (Nat.eq_zero_of_not_pos positive)
    simp only [if_neg positive, eq_true zero, true_implies]
    cases pszName with
    | none =>
      constructor
      · rintro ⟨_, _, image, -, -, searched⟩
        cases entries : image.entries with
        | nil =>
          rw [entries] at searched
          cases searched
        | cons first rest =>
          rw [entries, findEntry] at searched
          cases named : first.functionName with
          | none =>
            rw [named] at searched
            cases searched
          | some functionName =>
            rw [named] at searched
            cases searched
      · rintro ⟨⟨_, _, _, -, -, asked⟩, -⟩
        cases asked
    | some name =>
      simp only [findEntry_eq_ok_some_iff, Option.bind_some]
      constructor
      · rintro ⟨registered, ixfModule, image, live, loaded, asked, names⟩
        refine ⟨⟨registered, ixfModule, image, live, loaded, asked⟩, ?_⟩
        intro ixfModule' image' live' loaded'
        rw [live] at live'
        cases live'
        rw [loaded] at loaded'
        cases loaded'
        exact names
      · rintro ⟨⟨registered, ixfModule, image, live, loaded, asked⟩, names⟩
        exact ⟨registered, ixfModule, image, live, loaded, asked, names ixfModule image live loaded⟩

theorem not_asksFor_of_queriedEntry
    (searched : manager.queriedEntry hmod ordinal pszName = .ok none) :
    ¬ manager.AsksFor hmod ordinal pszName entry := by
  obtain ⟨-, ixfModule, image, live, loaded, searched⟩ := queriedEntry_eq_ok_iff.mp searched
  rintro ⟨-, ixfModule', image', live', loaded', asked⟩
  rw [live] at live'
  cases live'
  rw [loaded] at loaded'
  cases loaded'
  unfold askedEntry at asked
  split at searched
  · obtain ⟨_, -, found⟩ := bind_eq_ok_iff.mp searched
    cases found
  · rename_i zero
    rw [if_neg zero, find?_of_findEntry_none searched] at asked
    cases asked

theorem AsksFor.unique {other : IXFModuleEntry} (asks : manager.AsksFor hmod ordinal pszName entry)
    (asksOther : manager.AsksFor hmod ordinal pszName other) :
    entry = other := by
  obtain ⟨-, ixfModule, image, live, loaded, asked⟩ := asks
  obtain ⟨-, ixfModule', image', live', loaded', asked'⟩ := asksOther
  rw [live] at live'
  cases live'
  rw [loaded] at loaded'
  cases loaded'
  rw [asked] at asked'
  cases asked'
  rfl

theorem not_asksFor_null :
    ¬ manager.AsksFor 0 ordinal pszName entry := by
  rintro ⟨-, ixfModule, image, live, -⟩
  exact (ixfModule_eq_ok_iff.mp live).1 rfl

theorem not_answerable_null : ¬ manager.Answerable 0 ordinal pszName := by
  intro answerable
  cases answerable with
  | address asks => exact not_asksFor_null asks
  | loading asks => exact not_asksFor_null asks
  | forward asks => exact not_asksFor_null asks

theorem modQueryProcAddr_cases {stack : Nat} :
    ∀ {hmod : Nat} {ordinal : UInt32} {pszName : Option Name} {answer : ProcAddr},
      manager.modQueryProcAddr stack hmod ordinal pszName = .ok answer →
      manager.Answerable hmod ordinal pszName ∨
        answer = { rc := 0, ppfn := none } := by
  induction stack with
  | zero =>
    intro hmod ordinal pszName answer returned
    cases returned
  | succ stack ih =>
    intro hmod ordinal pszName answer returned
    obtain ⟨asked, queried, returned⟩ := bind_eq_ok_iff.mp returned
    cases asked with
    | none =>
      cases returned
      exact Or.inr rfl
    | some entry =>
      obtain ⟨asks, names⟩ := queriedEntry_eq_some_iff.mp queried
      simp only at returned
      cases module : entry.moduleName with
      | none =>
        rw [module] at returned
        cases returned
        cases stored : entry.address with
        | none => exact Or.inr rfl
        | some address =>
          exact Or.inl (.address asks names module stored)
      | some moduleName =>
        simp only [module] at returned
        cases found : getrec moduleName manager.chain with
        | loading => exact Or.inl (.loading asks names module found)
        | found prev =>
          rw [found] at returned
          rcases ih returned with answerable | nothing
          · exact Or.inl (.forward asks names module found answerable)
          · exact Or.inr nothing
        | absent =>
          rw [found] at returned
          rcases ih returned with answerable | nothing
          · exact absurd answerable not_answerable_null
          · exact Or.inr nothing

theorem leadsTo_iff {address : UInt32} (asks : manager.AsksFor hmod ordinal pszName entry) :
    manager.LeadsTo hmod ordinal pszName address ↔
      (entry.moduleName = none ∧ entry.address = some address) ∨
        ∃ moduleName prev, entry.moduleName = some moduleName ∧
          getrec moduleName manager.chain = .found prev ∧ manager.LeadsTo prev.first.moduleStruct
              (UInt32.ofInt entry.ordinal.toInt) entry.functionName
              address := by
  constructor
  · intro leads
    cases leads with
    | address asks' here stored =>
      cases asks.unique asks'
      exact Or.inl ⟨here, stored⟩
    | forward asks' forwards found leads =>
      cases asks.unique asks'
      exact Or.inr ⟨_, _, forwards, found, leads⟩
  · rintro (⟨here, stored⟩ | ⟨moduleName, prev, forwards, found, leads⟩)
    · exact .address asks here stored
    · exact .forward asks forwards found leads

theorem LeadsTo.returned {stack : Nat} : ∀ {hmod : Nat} {ordinal : UInt32} {pszName : Option Name}
      {address : UInt32} {answer : ProcAddr},
      manager.LeadsTo hmod ordinal pszName address →
        manager.modQueryProcAddr stack hmod ordinal pszName = .ok answer →
          answer = { rc := 0, ppfn := some address } := by
  induction stack with
  | zero =>
    intro hmod ordinal pszName address answer leads returned
    cases returned
  | succ stack ih =>
    intro hmod ordinal pszName address answer leads returned
    obtain ⟨asked, queried, returned⟩ := bind_eq_ok_iff.mp returned
    cases asked with
    | none =>
      have nothing := fun entry =>
        @not_asksFor_of_queriedEntry _ _ _ _ entry queried
      cases leads with
      | address asks => exact absurd asks (nothing _)
      | forward asks => exact absurd asks (nothing _)
    | some entry =>
      obtain ⟨asks, -⟩ := queriedEntry_eq_some_iff.mp queried
      simp only at returned
      rcases (leadsTo_iff asks).mp leads with
        ⟨here, stored⟩ | ⟨moduleName, prev, forwards, found, leads⟩
      · rw [here, stored] at returned
        cases returned
        rfl
      · simp only [forwards, found] at returned
        exact ih leads returned

theorem Answerable.answersQuery (answerable : manager.Answerable hmod ordinal pszName) :
    manager.AnswersQuery hmod ordinal pszName := by
  induction answerable with
  | @address hmod ordinal pszName entry address asks names here stored =>
    have queried := queriedEntry_eq_some_iff.mpr ⟨asks, names⟩
    refine ⟨1, ?_⟩
    rintro (- | stack) enough
    · omega
    · refine ⟨{ rc := 0, ppfn := some address }, ?_,
        Or.inl ⟨address, .address asks here stored, rfl⟩⟩
      rw [modQueryProcAddr, queried, bind_ok]
      simp only [here, stored]
      rfl
  | @loading hmod ordinal pszName entry moduleName asks names forwards loads =>
    have queried := queriedEntry_eq_some_iff.mpr ⟨asks, names⟩
    refine ⟨1, ?_⟩
    rintro (- | stack) enough
    · omega
    · refine ⟨{ rc := 5, ppfn := none }, ?_, Or.inr ⟨?_, by decide⟩⟩
      · rw [modQueryProcAddr, queried, bind_ok]
        simp only [forwards, loads]
        rfl
      · rintro ⟨address, leads⟩
        rcases (leadsTo_iff asks).mp leads with ⟨here, -⟩ | ⟨other, prev, forwards', found, -⟩
        · rw [forwards] at here
          cases here
        · rw [forwards] at forwards'
          cases forwards'
          rw [loads] at found
          cases found
  | @forward hmod ordinal pszName entry moduleName prev asks names forwards found _ ih =>
      have queried := queriedEntry_eq_some_iff.mpr ⟨asks, names⟩
      obtain ⟨enough, answers⟩ := ih
      refine ⟨enough + 1, ?_⟩
      rintro (- | stack) deep
      · omega
      · obtain ⟨answer, returned, outcome⟩ := answers stack (by omega)
        refine ⟨answer, ?_, ?_⟩
        · rw [modQueryProcAddr, queried, bind_ok]
          simp only [forwards, found]
          exact returned
        · have same : ∀ address, manager.LeadsTo hmod ordinal pszName address ↔
                manager.LeadsTo prev.first.moduleStruct
                  (UInt32.ofInt entry.ordinal.toInt) entry.functionName
                  address := by
            intro address
            rw [leadsTo_iff asks]
            simp only [forwards, reduceCtorEq, false_and, false_or,
              Option.some.injEq, exists_and_left, exists_eq_left', found,
              Getrec.found.injEq]
          simpa only [same] using outcome

end Manager

/-- A handler that accepts every file and loads a module without tables. -/
def emptyHandler : IXFHandler :=
  { identify := fun _ => 0
    load := fun _ _ => (0, { entries := [], modules := [], fixups := [] })
    fixup := fun _ _ => 0 }

/-- A list with the module `KAL` that has one entry, `KalInit`. -/
def kalManager : Manager :=
  { chain := [{
      first :=
        { address := 2, modName := [0x4b, 0x41, 0x4c], moduleStruct := 1
          inst := 0, loadStatus := .doneLoading }
      up := [] }]
    heap := fun hmod =>
      if hmod = 1 then
        some
          { handler := emptyHandler, shared := false, file := []
            name := [0x4b, 0x41, 0x4c], exec := false
            image := some
              { entries := [{
                  functionName := some [0x4b, 0x61, 0x6c, 0x49, 0x6e, 0x69, 0x74]
                  address := some 4096, moduleName := none, ordinal := 1 }]
                modules := [], fixups := [] } }
      else none
    fresh := 3
    memory := fun _ => 0 }

end OsFree.Modmgr
