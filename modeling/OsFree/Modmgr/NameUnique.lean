import OsFree.Modmgr.Invariant

/-!
# Handles and names

`ModQueryModuleHandle` gives out the address of a module, as opening and loading
do, but `ModQueryModuleName` compares the handle with the addresses of the
records.  No module is at the address of a record, so the name of a module is
never found by its handle.
-/

namespace OsFree.Modmgr

open Machine

namespace Manager

variable (manager : Manager)

/-- The return code and the handle of the module with a name. -/
def modQueryModuleHandle (pszModname : Name) : UInt32 × Nat :=
  match getrec (getFname pszModname) manager.chain with
  | .found prev => (0, prev.first.moduleStruct)
  | _ => (123, 0)

/-- The return code and what is stored into a buffer of size `cbName` for the
name of a module. -/
def modQueryModuleName (hmod cbName : Nat) : UInt32 × Option Name :=
  match getrec2 hmod manager.chain with
  | .found prev =>
    if cbName < prev.first.modName.length + 1 then (24, none)
    else (0, some prev.first.modName)
  | _ => (6, some [])

/-- `ModLoadModule` for a library that is registered: open it and enter
`LoadModule`, which returns at once. -/
def modLoadModule (handlers : IXFHandlers) (files : Files) (cbName : UInt32)
    (pszModname : Name) : Run (Progress × Manager) := do
  let (opened, manager) ← manager.openModule handlers files cbName pszModname false
  if opened.rc = 0 then manager.enterLoadModule cbName opened.phmod
  else pure (.returned opened, manager)

/-- If a name has a handle then the handle has the name, given a buffer for it,
belongs to no other module, and is the one that loading the module gives. -/
def HandleHasName (handlers : IXFHandlers) (pszModname : Name) : Prop :=
  ∀ hmod, manager.modQueryModuleHandle pszModname = (0, hmod) →
    (∃ modName, Stricmp (getFname pszModname) modName ∧ ∀ cbName, modName.length < cbName →
        manager.modQueryModuleName hmod cbName = (0, some modName)) ∧
    (∀ other, manager.modQueryModuleHandle other = (0, hmod) →
      Stricmp (getFname pszModname) (getFname other)) ∧
    ∀ files cbName reply manager', manager.modLoadModule handlers files cbName pszModname =
          .ok (.returned reply, manager') →
        reply.rc = 0 → reply.phmod = hmod

variable {manager}

theorem Addressed.modQueryModuleName_eq (addressed : manager.Addressed)
    {slot : ModuleSlot} (member : slot ∈ manager.chain) (cbName : Nat) :
    manager.modQueryModuleName slot.first.moduleStruct cbName =
      (6, some []) := by
  unfold modQueryModuleName
  split
  · rename_i prev found
    obtain ⟨known, same⟩ := getrec2_eq_found found
    exact absurd same (addressed.apart (hasRecord_first member) (hasRecord_first known))
  · rfl

end Manager

namespace Server

variable {handlers : IXFHandlers} {server : Server}

/-- In every reachable state the handle of a name has the name only if there is
no handle. -/
theorem handleHasName_iff_no_handle (reachable : server.Reachable handlers) (pszModname : Name) :
    server.manager.HandleHasName handlers pszModname ↔
      ∀ prev, getrec (getFname pszModname) server.manager.chain ≠
        .found prev := by
  constructor
  · intro has prev found
    have handle : server.manager.modQueryModuleHandle pszModname =
        (0, prev.first.moduleStruct) := by
      unfold Manager.modQueryModuleHandle
      rw [found]
    obtain ⟨⟨modName, same, named⟩, -⟩ := has _ handle
    have nameless := reachable.addressed.modQueryModuleName_eq
      (getrec_eq_found found).1 (modName.length + 1)
    rw [named _ (Nat.lt_succ_self _)] at nameless
    cases nameless
  · intro absent hmod handle
    unfold Manager.modQueryModuleHandle at handle
    split at handle
    · rename_i prev found
      exact absurd found (absent prev)
    · cases handle

/-- `KAL` alone. -/
def kalServer : Server :=
  { manager := modInitialize (kalModule [] false false) fun _ => 0
    files :=
      { ioLoadFile := fun _ => (2, []), findModulePath := fun _ => (2, [])
        findPath := fun _ => (2, []) }
    frames := [] }

theorem kalServer_initial : kalServer.Initial := ⟨rfl, [], false, false, fun _ => 0, rfl⟩

theorem kalServer_reachable (handlers : IXFHandlers) {condition : Server → Event → Prop} :
    kalServer.ReachableIf handlers condition :=
  ⟨kalServer, kalServer_initial, .refl⟩

/-- At the start the name `KAL` has a handle, so the handle does not have the
name. -/
theorem handleHasName_iff_no_handle_kal :
    kalServer.manager.HandleHasName { first := kalHandler, others := [] } kal ↔
      ∀ prev, getrec (getFname kal) kalServer.manager.chain ≠ .found prev :=
  handleHasName_iff_no_handle (kalServer_reachable _) kal

/-- The handle of `KAL` is not found again. -/
theorem not_handleHasName_kal :
    ¬ kalServer.manager.HandleHasName { first := kalHandler, others := [] }
      kal := by
  intro has
  obtain ⟨⟨modName, -, named⟩, -⟩ := has 1 (by decide)
  have nameless : kalServer.manager.modQueryModuleName 1 (modName.length + 1) =
      (6, some []) := rfl
  rw [named _ (Nat.lt_succ_self _)] at nameless
  cases nameless

end Server

/-!
## One record for each name

The next chain has at most one record for each name as long as no module is
registered while a module with its name is being loaded.  `LoadModule` does not
check this: when a load has failed its record is left behind as one that is
being loaded, and the module can be loaded again.
-/

theorem recordName_imported {name : Name} (other : ¬ Stricmp name sub32) :
    Stricmp (recordName (getFname (openedName false (name ++ dll)))) name := by
  unfold openedName
  rw [getFname_append_dll]
  by_cases special : Stricmp name emxwrap
  · rw [if_pos ⟨rfl, special⟩, getFname_sub32Dll, recordName_sub32 rfl]
    exact special.symm
  · rw [if_neg fun both => special both.2, getFname_append_dll, recordName_of_not_sub32 other]

theorem recordName_imported_sub32 {name : Name} (same : Stricmp name sub32) :
    recordName (getFname (openedName false (name ++ dll))) = emxwrap := by
  have other : ¬ Stricmp name emxwrap := fun special =>
    absurd (same.symm.trans special) (by decide)
  unfold openedName
  rw [getFname_append_dll, if_neg fun both => other both.2,
    getFname_append_dll, recordName_sub32 same]

namespace Manager

/-- The names of the records of the next chain. -/
def names (manager : Manager) : List Name := manager.chain.map fun slot => slot.first.modName

/-- No two records of the next chain have one name, whatever the case of its
letters. -/
def NamesUnique (manager : Manager) : Prop :=
  manager.names.Pairwise fun name other => ¬ Stricmp name other

section

variable {manager manager' : Manager}

variable {name : Name} {handlers : IXFHandlers} {files : Files} {hmod : Nat}

theorem NamesUnique.slot_eq (unique : manager.NamesUnique) {other : Name}
    {slot slot' : ModuleSlot} (member : slot ∈ manager.chain)
    (member' : slot' ∈ manager.chain) (same : Stricmp name other)
    (named : Stricmp name slot.first.modName)
    (named' : Stricmp other slot'.first.modName) : slot = slot' := by
  have pairs := List.pairwise_map.mp unique
  have one : ∀ ⦃first⦄, first ∈ manager.chain → ∀ ⦃second⦄, second ∈ manager.chain →
        Stricmp first.first.modName second.first.modName → first = second :=
    List.Pairwise.forall_of_forall_of_flip (fun _ _ _ => rfl)
      (pairs.imp fun apart together => absurd together apart)
      (pairs.imp fun apart together => absurd together.symm apart)
  exact one member member' (named.symm.trans (same.trans named'))

theorem names_withLoading (hmod : Nat) (ixfModule : IXFModule) :
    (manager.withLoading hmod ixfModule).names =
      manager.names ++ [recordName (getFname ixfModule.name)] := by
  unfold names withLoading setLoadStatus loadingSlot ModuleSlot.mapRecords
  rw [List.map_map, List.map_append]
  congr 1
  · apply List.map_congr_left
    intro slot member
    change (if _ then _ else slot.first).modName = slot.first.modName
    split
    · rfl
    · rfl
  · simp

theorem names_withFinished (address : Nat) :
    (manager.withFinished address).names = manager.names := by
  unfold names withFinished setLoadStatus ModuleSlot.mapRecords
  rw [List.map_map]
  apply List.map_congr_left
  intro slot member
  exact (finished_keeps slot.first).2.2.1

theorem names_withInstance (prev : ModuleSlot) (mname : Name) (ixfPrev : IXFModule) (n : Int) :
    (manager.withInstance prev mname ixfPrev n).names = manager.names := by
  unfold names withInstance linkUp
  rw [List.map_map]
  apply List.map_congr_left
  intro slot member
  change (if _ then _ else slot).first.modName = slot.first.modName
  split
  · rfl
  · rfl

theorem NamesUnique.withLoading (unique : manager.NamesUnique) (hmod : Nat) {ixfModule : IXFModule}
    (absent : getrec (recordName (getFname ixfModule.name)) manager.chain =
      .absent) : (manager.withLoading hmod ixfModule).NamesUnique := by
  unfold NamesUnique
  rw [names_withLoading, List.pairwise_append]
  refine ⟨unique, List.pairwise_singleton .., ?_⟩
  intro name known other new same
  obtain ⟨slot, member, rfl⟩ := List.mem_map.mp known
  rw [List.mem_singleton.mp new] at same
  exact getrec_eq_absent_iff.mp absent slot member same.symm

theorem NamesUnique.of_names_eq (unique : manager.NamesUnique)
    (names : manager'.names = manager.names) : manager'.NamesUnique := by
  unfold NamesUnique
  rw [names]
  exact unique

theorem Opening.names {pszModname : Name} {exeflag : Bool} {reply : Reply}
    (opening : Opening handlers files pszModname exeflag manager reply
      manager') : manager'.names = manager.names := by
  cases opening with
  | failed => rfl
  | registered => rfl
  | copied => exact names_withInstance ..
  | unknown => rfl
  | opened => rfl

theorem not_namesUnique_withLoading {ixfModule : IXFModule}
    (loading : getrec (recordName (getFname ixfModule.name)) manager.chain =
      .loading) : ¬ (manager.withLoading hmod ixfModule).NamesUnique := by
  intro unique
  unfold NamesUnique at unique
  rw [names_withLoading, List.pairwise_append] at unique
  obtain ⟨slot, member, named, -⟩ := getrec_eq_loading loading
  exact unique.2.2 slot.first.modName (List.mem_map_of_mem member) _
    (List.mem_singleton_self _) named.symm

theorem NamesUnique.entering_iff (unique : manager.NamesUnique)
    {cbName : UInt32} {progress : Progress}
    (entering : Entering cbName hmod manager progress manager') :
    manager'.NamesUnique ↔ ∀ ixfModule, manager.ixfModule hmod = .ok ixfModule →
        getrec (recordName (getFname ixfModule.name)) manager.chain ≠
          .loading := by
  have looked : ∀ {module : IXFModule} {result : Getrec}, manager.ixfModule hmod = .ok module →
        getrec (recordName (getFname module.name)) manager.chain = result →
          result ≠ .loading → ∀ ixfModule, manager.ixfModule hmod = .ok ixfModule →
              getrec (recordName (getFname ixfModule.name)) manager.chain ≠
                .loading := by
    intro module result live lookup other ixfModule live'
    rw [live] at live'
    cases live'
    rw [lookup]
    exact other
  cases entering with
  | library live found =>
    exact iff_of_true unique (looked live found Getrec.noConfusion)
  | executable live found =>
    exact iff_of_true (unique.of_names_eq (names_withFinished _))
      (looked live found Getrec.noConfusion)
  | failed live absent =>
    exact iff_of_true unique (looked live absent Getrec.noConfusion)
  | loaded live absent =>
    exact iff_of_true (NamesUnique.withLoading unique hmod absent)
      (looked live absent Getrec.noConfusion)
  | again live loading =>
    exact iff_of_false (not_namesUnique_withLoading loading) fun once => once _ live loading

theorem AtImport.name_eq {frame : Frame} {other : Name} (here : AtImport frame manager name)
    (there : AtImport frame manager other) : name = other := by
  obtain ⟨-, module, image, live, loaded, found⟩ := here
  obtain ⟨-, module', image', live', loaded', found'⟩ := there
  rw [live] at live'
  cases live'
  rw [loaded] at loaded'
  cases loaded'
  rw [found] at found'
  exact Option.some.inj found'

theorem Entering.nonnull {cbName : UInt32} {progress : Progress}
    (entering : Entering cbName hmod manager progress manager') :
    hmod ≠ 0 := by
  cases entering with
  | library live => exact (ixfModule_eq_ok_iff.mp live).1
  | executable live => exact (ixfModule_eq_ok_iff.mp live).1
  | failed live => exact (ixfModule_eq_ok_iff.mp live).1
  | loaded live => exact (ixfModule_eq_ok_iff.mp live).1
  | again live => exact (ixfModule_eq_ok_iff.mp live).1

theorem Opens.once_iff {file : File} {handler : IXFHandler}
    (opens : Opens handlers files manager name file handler)
    (nonnull : manager.fresh ≠ 0) :
    (∀ ixfModule, (manager.ixfAllocModule
        (importedModule handler file name)).ixfModule manager.fresh = .ok ixfModule →
      getrec (recordName (getFname ixfModule.name)) manager.chain ≠ .loading) ↔
      (Stricmp name sub32 → getrec emxwrap manager.chain ≠ .loading) := by
  have stored : (manager.ixfAllocModule
      (importedModule handler file name)).ixfModule manager.fresh =
        .ok (importedModule handler file name) :=
    ixfModule_eq_ok_iff.mpr ⟨nonnull, if_pos rfl⟩
  have lookup : getrec (recordName (getFname
      (importedModule handler file name).name)) manager.chain ≠ .loading ↔
        (Stricmp name sub32 → getrec emxwrap manager.chain ≠ .loading) := by
    change getrec (recordName (getFname (openedName false (name ++ dll))))
      manager.chain ≠ .loading ↔ _
    by_cases same : Stricmp name sub32
    · rw [recordName_imported_sub32 same]
      exact ⟨fun once _ => once, fun special => special same⟩
    · rw [getrec_congr (recordName_imported same), opens.absent]
      exact iff_of_true Getrec.noConfusion fun special => absurd special same
  constructor
  · intro once
    exact lookup.mp (once _ stored)
  · intro special ixfModule live
    rw [stored] at live
    cases live
    exact lookup.mpr special

theorem NamesUnique.turning_iff (unique : manager.NamesUnique) {stack : Nat} {frame : Frame}
    {turn : Turn}
    (turning : Turning handlers files stack frame manager turn manager') :
    manager'.NamesUnique ↔ ∀ name file handler, AtImport frame manager name →
        Opens handlers files manager name file handler → Stricmp name sub32 →
          getrec emxwrap manager.chain ≠ .loading := by
  have opened : ∀ {ixfModule}, (manager.ixfAllocModule ixfModule).NamesUnique := unique
  have entered : ∀ {name file handler progress}, AtImport frame manager name →
      Opens handlers files manager name file handler → Entering cchMaxPath manager.fresh
          (manager.ixfAllocModule (importedModule handler file name)) progress manager' →
          (manager'.NamesUnique ↔ ∀ name file handler, AtImport frame manager name →
              Opens handlers files manager name file handler → Stricmp name sub32 →
                  getrec emxwrap manager.chain ≠ .loading) := by
    intro name file handler progress at_ opens entering
    rw [opened.entering_iff entering]
    refine (opens.once_iff entering.nonnull).trans ⟨?_, ?_⟩
    · intro special name' _ _ at' _
      rw [at'.name_eq at_]
      exact special
    · intro special
      exact special name file handler at_ opens
  have elsewhere : ∀ {ixfModule image},
      manager.ixfModule frame.ixfModule = .ok ixfModule → ixfModule.image = some image →
          frame.imported = true ∨ image.modules[frame.moduleCounter]? = none →
            ∀ name, ¬ AtImport frame manager name := by
    intro ixfModule image live loaded past name at_
    obtain ⟨next, module, image', live', loaded', found⟩ := at_
    rw [live] at live'
    cases live'
    rw [loaded] at loaded'
    cases loaded'
    rcases past with imported | last
    · rw [imported] at next
      cases next
    · rw [last] at found
      cases found
  cases turning with
  | fixedUp live loaded imported =>
    exact iff_of_true unique fun name _ _ at_ =>
      absurd at_ (elsewhere live loaded (Or.inl imported) name)
  | fixupFailed live loaded imported =>
    exact iff_of_true unique fun name _ _ at_ =>
      absurd at_ (elsewhere live loaded (Or.inl imported) name)
  | present at_ found =>
    refine iff_of_true unique ?_
    intro name _ _ at' opens
    rw [at'.name_eq at_] at opens
    exact absurd (found.symm.trans opens.absent) Getrec.noConfusion
  | openFailed at_ missing closed opening =>
    refine iff_of_true (unique.of_names_eq opening.names) ?_
    intro name file handler at' opens
    rw [at'.name_eq at_] at opens
    exact absurd opens (closed file handler)
  | enteredFailed at_ opens entering => exact entered at_ opens entering
  | enteredFound at_ opens entering => exact entered at_ opens entering
  | called at_ opens entering => exact entered at_ opens entering
  | leftFailed live loaded next last =>
    exact iff_of_true unique fun name _ _ at_ =>
      absurd at_ (elsewhere live loaded (Or.inr last) name)
  | left live loaded next last =>
    exact iff_of_true (unique.of_names_eq (names_withFinished _)) fun name _ _ at_ =>
        absurd at_ (elsewhere live loaded (Or.inr last) name)

end

end Manager

namespace Server

/-- The module that a step registers is not found being loaded: neither one that
a client loads again nor `EMXWRAP` for an import of `SUB32`. -/
def EntersOnce (handlers : IXFHandlers) (server : Server) : Event → Prop
  | .accept _ (.openModule ..) => True
  | .accept _ (.loadModule _ hmod) =>
    ∀ ixfModule, server.manager.ixfModule hmod = .ok ixfModule →
      getrec (recordName (getFname ixfModule.name)) server.manager.chain ≠ .loading
  | .turn _ =>
    ∀ frame ∈ server.frames.head?, ∀ name file handler, Manager.AtImport frame server.manager name →
        Manager.Opens handlers server.files server.manager name file handler →
          Stricmp name sub32 → getrec emxwrap server.manager.chain ≠ .loading

variable {handlers : IXFHandlers} {server server' : Server}

theorem Step.namesUnique_iff {event : Event} {reply : Option Reply}
    (step : Step handlers server event reply server')
    (unique : server.manager.NamesUnique) :
    server'.manager.NamesUnique ↔ EntersOnce handlers server event := by
  cases step.stepping with
  | opened idle opening =>
    exact iff_of_true (unique.of_names_eq opening.names) trivial
  | returned idle entering => exact unique.entering_iff entering
  | entered idle entering => exact unique.entering_iff entering
  | turned busy turning =>
    rw [afterTurn_manager, unique.turning_iff turning]
    unfold EntersOnce
    rw [busy]
    constructor
    · intro once frame head
      cases head
      exact once
    · intro once
      exact once _ rfl

/-- A format in which a file is the name of the one module that it imports, if
it is not empty. -/
def importHandler : IXFHandler :=
  { identify := fun _ => 0
    load := fun _ file =>
      (0, { entries := [], modules := if file = [] then [] else [file]
            fixups := [] })
    fixup := fun _ _ => 0 }

/-- The only format is that of `importHandler`. -/
def importHandlers : IXFHandlers := { first := importHandler, others := [] }

/-- Files that are found under their own names only. -/
def namedFiles (known : List (Name × File)) : Files :=
  { ioLoadFile := fun name =>
      match known.lookup name with
      | some file => (0, file)
      | none => (2, [])
    findModulePath := fun _ => (2, [])
    findPath := fun _ => (2, []) }

/-- The module `X` imports `Y`, which is missing. -/
def missingImport : Files := namedFiles [([0x58], [0x59])]

end Server

end OsFree.Modmgr
