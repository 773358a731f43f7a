import OsFree.Machine.Follow
import OsFree.Modmgr.ProcQuery

/-!
# Queries that end

A query is handed on from forwarder to forwarder.  The code keeps no record of
where it has been, so it comes back exactly when it meets no cycle and looks at
entries only that there are.
-/

namespace OsFree.Modmgr

open Machine

/-- What a query asks for: a module and an ordinal or a name. -/
structure ProcQuery where
  hmod : Nat
  ordinal : UInt32
  pszName : Option Name
  deriving DecidableEq

/-- A search by name comes to an entry with this name, or to the end, over
entries with names. -/
def SearchInside (entries : List IXFModuleEntry) (pszName : Option Name) : Prop :=
  match pszName with
  | none => entries = []
  | some name => NamesPassed entries (some name)

namespace Manager

variable (manager : Manager)

/-- One call of `ModQueryProcAddr`: the query is answered here, or the call asks
for another one in turn. -/
def queryStep (query : ProcQuery) : Run (ProcAddr ⊕ ProcQuery) := do
  let entry ← manager.queriedEntry query.hmod query.ordinal query.pszName
  match entry with
  | none => pure (.inl { rc := 0, ppfn := none })
  | some entry =>
    match entry.moduleName with
    | none => pure (.inl { rc := 0, ppfn := entry.address })
    | some moduleName =>
      match getrec moduleName manager.chain with
      | .loading => pure (.inl { rc := 5, ppfn := none })
      | .found prev =>
        pure (.inr
          { hmod := prev.first.moduleStruct
            ordinal := UInt32.ofInt entry.ordinal.toInt
            pszName := entry.functionName })
      | .absent =>
        pure (.inr
          { hmod := 0
            ordinal := UInt32.ofInt entry.ordinal.toInt
            pszName := entry.functionName })

/-- The query asks a loaded module of the list for an ordinal that its table
has, or for a name that can be searched for. -/
def AsksInside (query : ProcQuery) : Prop :=
  IsRegistered query.hmod manager.chain ∧ ∃ ixfModule image,
    manager.ixfModule query.hmod = .ok ixfModule ∧ ixfModule.image = some image ∧
        if 0 < query.ordinal then
          query.ordinal.toNat ≤ image.entries.length
        else SearchInside image.entries query.pszName

/-- A query asks another one at a forwarder. -/
abbrev Forwards : ProcQuery → ProcQuery → Prop := HandsOn manager.queryStep

/-- A query comes, over forwarders, to one that forwards to itself. -/
abbrev ForwarderCycle : ProcQuery → Prop := MeetsCycle manager.queryStep

/-- With enough stack the call comes back, and with an error if the forwarders
form a cycle. -/
def EndsQuery (query : ProcQuery) : Prop := ∃ enough, ∀ stack, enough ≤ stack → ∃ answer,
    manager.modQueryProcAddr stack query.hmod query.ordinal query.pszName = .ok answer ∧
      (manager.ForwarderCycle query → answer.rc ≠ 0)

/-- The entries of a module. -/
def entriesOf (hmod : Nat) : List IXFModuleEntry :=
  ((manager.heap hmod).bind IXFModule.image).elim [] IXFImage.entries

/-- The queries that the forwarders of the registered modules can ask. -/
def forwarded : List ProcQuery :=
  let handles := manager.chain.map fun slot => slot.first.moduleStruct
  (handles.flatMap manager.entriesOf).flatMap fun entry =>
    (0 :: handles).map fun hmod =>
      { hmod
        ordinal := UInt32.ofInt entry.ordinal.toInt
        pszName := entry.functionName }

end Manager

namespace Manager

variable {manager : Manager} {query : ProcQuery}

theorem modQueryProcAddr_eq_follow (stack : Nat) : ∀ query : ProcQuery,
      manager.modQueryProcAddr stack query.hmod query.ordinal query.pszName =
        follow manager.queryStep stack query := by
  induction stack with
  | zero =>
    intro query
    rfl
  | succ stack ih =>
    intro query
    rw [modQueryProcAddr, follow, queryStep, bind_assoc]
    congr 1
    funext entry
    cases entry with
    | none => rfl
    | some entry =>
      cases module : entry.moduleName with
      | none => simp only [module, pure_eq_ok, bind_ok]
      | some moduleName =>
        cases found : getrec moduleName manager.chain with
        | loading => simp only [module, found, pure_eq_ok, bind_ok]
        | found prev =>
          simp only [module, found, pure_eq_ok, bind_ok]
          rw [← ih]
        | absent =>
          simp only [module, found, pure_eq_ok, bind_ok]
          rw [← ih]

theorem returns_findEntry_iff {pszName : Option Name} {entries : List IXFModuleEntry} :
    Returns (findEntry pszName entries) ↔ SearchInside entries pszName := by
  induction entries with
  | nil => cases pszName <;> simp [findEntry, SearchInside, NamesPassed]
  | cons first entries ih =>
    unfold SearchInside NamesPassed at ih ⊢
    cases named : first.functionName with
    | none => cases pszName <;> simp [findEntry, named]
    | some functionName =>
      cases pszName with
      | none => simp [findEntry, named]
      | some name =>
        by_cases same : functionName = name
        · simp [findEntry, named, same]
        · simpa [findEntry, named, same] using ih

theorem queryStep_of_queriedEntry {entry : Option IXFModuleEntry}
    (asked : manager.queriedEntry query.hmod query.ordinal query.pszName =
      .ok entry) : Returns (manager.queryStep query) := by
  rw [queryStep, asked, bind_ok]
  cases entry with
  | none => exact returns_ok _
  | some entry =>
    cases module : entry.moduleName with
    | none => simp only [module, pure_eq_ok, returns_ok]
    | some moduleName =>
      cases found : getrec moduleName manager.chain with
      | loading => simp only [module, found, pure_eq_ok, returns_ok]
      | found prev => simp only [module, found, pure_eq_ok, returns_ok]
      | absent => simp only [module, found, pure_eq_ok, returns_ok]

theorem returns_queryStep_iff :
    Returns (manager.queryStep query) ↔ manager.AsksInside query := by
  have asks : Returns (manager.queryStep query) ↔
      Returns (manager.queriedEntry query.hmod query.ordinal
        query.pszName) := by
    constructor
    · intro returned
      obtain ⟨entry, asked, -⟩ := returns_bind_iff.mp returned
      exact ⟨entry, asked⟩
    · rintro ⟨entry, asked⟩
      exact queryStep_of_queriedEntry asked
  rw [asks]
  constructor
  · rintro ⟨entry, asked⟩
    obtain ⟨registered, ixfModule, image, live, loaded, searched⟩ := queriedEntry_eq_ok_iff.mp asked
    refine ⟨registered, ixfModule, image, live, loaded, ?_⟩
    split at searched
    · rename_i positive
      obtain ⟨entry, found, -⟩ := bind_eq_ok_iff.mp searched
      obtain ⟨within, -⟩ := List.getElem?_eq_some_iff.mp (entryAt_eq_ok_iff.mp found)
      rw [if_pos positive]
      omega
    · rename_i zero
      rw [if_neg zero]
      exact returns_findEntry_iff.mp ⟨entry, searched⟩
  · rintro ⟨registered, ixfModule, image, live, loaded, inside⟩
    by_cases positive : 0 < query.ordinal
    · rw [if_pos positive] at inside
      have nonzero : 0 < query.ordinal.toNat := UInt32.lt_iff_toNat_lt.mp positive
      have within : query.ordinal.toNat - 1 < image.entries.length := by omega
      refine ⟨some image.entries[query.ordinal.toNat - 1], queriedEntry_eq_ok_iff.mpr
          ⟨registered, ixfModule, image, live, loaded, ?_⟩⟩
      rw [if_pos positive, entryAt_eq_ok_iff.mpr (List.getElem?_eq_getElem within)]
      rfl
    · rw [if_neg positive] at inside
      obtain ⟨entry, searched⟩ := returns_findEntry_iff.mpr inside
      refine ⟨entry, queriedEntry_eq_ok_iff.mpr ⟨registered, ixfModule, image, live, loaded, ?_⟩⟩
      rw [if_neg positive]
      exact searched

theorem mem_entriesOf_of_queriedEntry {entry : IXFModuleEntry}
    (asked : manager.queriedEntry query.hmod query.ordinal query.pszName = .ok (some entry)) :
    query.hmod ∈ manager.chain.map (fun slot => slot.first.moduleStruct) ∧
      entry ∈ manager.entriesOf query.hmod := by
  obtain ⟨⟨⟨slot, member, handle⟩, ixfModule, image, live, loaded, asks⟩, -⟩ :=
    queriedEntry_eq_some_iff.mp asked
  refine ⟨List.mem_map.mpr ⟨slot, member, handle⟩, ?_⟩
  have entries : manager.entriesOf query.hmod = image.entries := by
    rw [entriesOf, (ixfModule_eq_ok_iff.mp live).2]
    simp [loaded]
  rw [entries]
  unfold askedEntry at asks
  split at asks
  · exact List.mem_of_getElem? asks
  · obtain ⟨name, -, found⟩ := Option.bind_eq_some_iff.mp asks
    exact List.mem_of_find?_eq_some found

theorem mem_forwarded {next : ProcQuery}
    (forwards : manager.Forwards query next) : next ∈ manager.forwarded := by
  obtain ⟨entry, asked, stepped⟩ := bind_eq_ok_iff.mp forwards
  cases entry with
  | none => cases stepped
  | some entry =>
    obtain ⟨registered, member⟩ := mem_entriesOf_of_queriedEntry asked
    have asksAt : ∀ hmod ∈ 0 :: manager.chain.map (fun slot => slot.first.moduleStruct),
        ProcQuery.mk hmod (UInt32.ofInt entry.ordinal.toInt)
          entry.functionName ∈ manager.forwarded := by
      intro hmod known
      refine List.mem_flatMap.mpr ⟨entry, ?_, List.mem_map.mpr ⟨hmod, known, rfl⟩⟩
      exact List.mem_flatMap.mpr ⟨query.hmod, registered, member⟩
    cases module : entry.moduleName with
    | none =>
      simp only [module, pure_eq_ok] at stepped
      cases stepped
    | some moduleName =>
      cases found : getrec moduleName manager.chain with
      | loading =>
        simp only [module, found, pure_eq_ok] at stepped
        cases stepped
      | found prev =>
        simp only [module, found, pure_eq_ok] at stepped
        cases stepped
        have here := (getrec_eq_found found).1
        exact asksAt _ (List.mem_cons_of_mem _ (List.mem_map.mpr ⟨prev, here, rfl⟩))
      | absent =>
        simp only [module, found, pure_eq_ok] at stepped
        cases stepped
        exact asksAt 0 (List.mem_cons_self ..)

end Manager

/-- A module whose only entry forwards to the first entry of another one. -/
def forwarderModule (moduleName : Name) : IXFModule :=
  { handler := emptyHandler, shared := false, file := [], name := [],
    exec := false
    image := some
      { entries := [{
          functionName := none, address := none,
          moduleName := some moduleName, ordinal := 1 }]
        modules := [], fixups := [] } }

/-- A list with the modules `A` and `B` that forward to each other, and `C` that
forwards to itself. -/
def cycleManager : Manager :=
  { chain := [
      { first :=
          { address := 4, modName := [0x41], moduleStruct := 1, inst := 0
            loadStatus := .doneLoading }
        up := [] },
      { first :=
          { address := 5, modName := [0x42], moduleStruct := 2, inst := 0
            loadStatus := .doneLoading }
        up := [] },
      { first :=
          { address := 6, modName := [0x43], moduleStruct := 3, inst := 0
            loadStatus := .doneLoading }
        up := [] }]
    heap := fun hmod =>
      if hmod = 1 then some (forwarderModule [0x42])
      else if hmod = 2 then some (forwarderModule [0x41])
      else if hmod = 3 then some (forwarderModule [0x43])
      else none
    fresh := 7
    memory := fun _ => 0 }

end OsFree.Modmgr
