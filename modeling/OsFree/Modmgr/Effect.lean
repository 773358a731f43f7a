import OsFree.Modmgr.Server

/-!
# What a step of the server does

Every way in which a module is opened, `LoadModule` is entered and a call takes
a turn, with the conditions under which it is taken and the module manager
behind it.  Each is a sequence of a few kinds of changes: modules are allocated,
loaded, linked, copied and freed, and records are registered and finished.
-/

namespace OsFree.Modmgr

open Machine

namespace Manager

/-- The record of a module that is registered while it is being loaded. -/
def loadingSlot (address hmod : Nat) (name : Name) : ModuleSlot :=
  { first :=
      { address := address, modName := name, moduleStruct := hmod, inst := 0
        loadStatus := .doneLoading }
    up := [] }

/-- The record of a further instance. -/
def instanceRec (address hmod : Nat) (mname : Name) (n : Int) : ModuleRec :=
  { address := address, modName := mname, moduleStruct := hmod, inst := n
    loadStatus := .doneLoading }

/-- The module manager with the import fixups of a module resolved. -/
def withLinked (hmod : Nat) (ixfModule : IXFModule) (image : IXFImage)
    (fixups : List IXFFixupEntry) (memory : Memory) (manager : Manager) :
    Manager :=
  { manager.storeModule hmod
      (some { ixfModule with image := some { image with fixups := fixups } })
    with memory := memory }

/-- The module manager with a record that is not being loaded any more. -/
def withFinished (address : Nat) (manager : Manager) : Manager :=
  { manager with chain := setLoadStatus address .doneLoading manager.chain }

/-- The module manager with a module registered that is being loaded. -/
def withLoading (hmod : Nat) (ixfModule : IXFModule) (manager : Manager) :
    Manager :=
  { manager with
    chain := setLoadStatus manager.fresh .loading
      (manager.chain ++ [loadingSlot manager.fresh hmod (recordName (getFname ixfModule.name))])
    fresh := manager.fresh + 1 }

/-- The module manager with a further instance of a module. -/
def withInstance (prev : ModuleSlot) (mname : Name) (ixfPrev : IXFModule)
    (n : Int) (manager : Manager) : Manager :=
  { manager.ixfAllocModule ixfPrev with
    chain := linkUp prev.first.address
      (instanceRec (manager.fresh + 1) manager.fresh mname n) manager.chain
    fresh := manager.fresh + 2 }

/-- A change of the module manager. -/
inductive Effect : Manager → Manager → Prop where
  | skipped (manager : Manager) :
      Effect manager { manager with fresh := manager.fresh + 1 }
  | opened (manager : Manager) {ixfModule : IXFModule} (unloaded : ixfModule.image = none) :
      Effect manager (manager.ixfAllocModule ixfModule)
  | copied {manager : Manager} {prev : ModuleSlot} {mname : Name} {ixfPrev : IXFModule} {n : Int}
      (found : getrec mname manager.chain = .found prev)
      (live : manager.ixfModule prev.first.moduleStruct = .ok ixfPrev)
      (counted : addInt prev.last.inst 1 = .ok n) :
      Effect manager (manager.withInstance prev mname ixfPrev n)
  | loaded {manager : Manager} {hmod : Nat} {ixfModule : IXFModule}
      (image : IXFImage) (live : manager.ixfModule hmod = .ok ixfModule)
      (absent : getrec (recordName (getFname ixfModule.name)) manager.chain = .absent) :
      Effect manager (manager.storeModule hmod
        (some { ixfModule with image := some image }))
  | linked {manager : Manager} {hmod : Nat} {ixfModule : IXFModule}
      {image : IXFImage} (fixups : List IXFFixupEntry) (memory : Memory)
      (live : manager.ixfModule hmod = .ok ixfModule)
      (loaded : ixfModule.image = some image) :
      Effect manager (manager.withLinked hmod ixfModule image fixups memory)
  | freed (manager : Manager) (hmod : Nat) : Effect manager (manager.ixfFreeModule hmod)
  | registered {manager : Manager} {hmod : Nat} {ixfModule : IXFModule}
      (live : manager.ixfModule hmod = .ok ixfModule)
      (unfinished : ∀ prev,
        getrec (recordName (getFname ixfModule.name)) manager.chain ≠ .found prev) :
      Effect manager (manager.withLoading hmod ixfModule)
  | finished (manager : Manager) (address : Nat) : Effect manager (manager.withFinished address)

/-- Any number of changes. -/
abbrev Effects : Manager → Manager → Prop := RunsTo Effect

/-- The ways in which a module is opened. -/
inductive Opening (handlers : IXFHandlers) (files : Files) (pszModname : Name)
    (exeflag : Bool) (manager : Manager) : Reply → Manager → Prop where
  | failed {reply : Reply} (error : reply.rc ≠ 0) (null : reply.phmod = 0) :
      Opening handlers files pszModname exeflag manager reply manager
  | registered {prev : ModuleSlot}
      (found : getrec (getFname pszModname) manager.chain = .found prev)
      (library : exeflag = false) :
      Opening handlers files pszModname exeflag manager
        { rc := 0, phmod := prev.first.moduleStruct, pszName := [] } manager
  | copied {prev : ModuleSlot} {ixfPrev : IXFModule} {n : Int}
      (found : getrec (getFname pszModname) manager.chain = .found prev)
      (live : manager.ixfModule prev.first.moduleStruct = .ok ixfPrev)
      (counted : addInt prev.last.inst 1 = .ok n)
      (executable : exeflag = true) :
      Opening handlers files pszModname exeflag manager
        { rc := 0, phmod := manager.fresh, pszName := [] }
        (manager.withInstance prev (getFname pszModname) ixfPrev n)
  | unknown {reply : Reply} {file : File} {rc : UInt32}
      (absent : getrec (getFname pszModname) manager.chain = .absent)
      (loads : files.load exeflag (openedName exeflag pszModname) = (0, file))
      (rejected : handlers.identifyModule file = .error rc)
      (null : reply.phmod = 0) :
      Opening handlers files pszModname exeflag manager reply
        { manager with fresh := manager.fresh + 1 }
  | opened {file : File} {handler : IXFHandler}
      (absent : getrec (getFname pszModname) manager.chain = .absent)
      (loads : files.load exeflag (openedName exeflag pszModname) = (0, file))
      (identified : handlers.identifyModule file = .ok handler) :
      Opening handlers files pszModname exeflag manager
        { rc := 0, phmod := manager.fresh, pszName := [] }
        (manager.ixfAllocModule
          { handler := handler, shared := !exeflag, file := file
            name := openedName exeflag pszModname, exec := exeflag
            image := none })

section

variable {manager manager' : Manager}

variable {cbName : UInt32} {reply : Reply}

theorem openFailure_rc {rc : UInt32} {name : Name} (error : rc ≠ 0) :
    (openFailure cbName rc name).rc ≠ 0 := by
  unfold openFailure
  split
  · decide
  · exact error

theorem openFailure_phmod {rc : UInt32} {name : Name} :
    (openFailure cbName rc name).phmod = 0 := by
  unfold openFailure
  split
  · rfl
  · rfl

theorem openInstance_eq_ok {prev : ModuleSlot} {mname : Name}
    (found : getrec mname manager.chain = .found prev)
    (opened : manager.openInstance prev mname = .ok (reply, manager')) :
    ∃ ixfPrev n, manager.ixfModule prev.first.moduleStruct = .ok ixfPrev ∧
        addInt prev.last.inst 1 = .ok n ∧
        reply = { rc := 0, phmod := manager.fresh, pszName := [] } ∧
        manager' = manager.withInstance prev mname ixfPrev n := by
  obtain ⟨ixfPrev, live, opened⟩ := bind_eq_ok_iff.mp opened
  obtain ⟨chain, registered, opened⟩ := bind_eq_ok_iff.mp opened
  unfold modRegister at registered
  rw [show (manager.ixfAllocModule ixfPrev).chain = manager.chain from rfl, found] at registered
  obtain ⟨n, counted, registered⟩ := bind_eq_ok_iff.mp registered
  cases registered
  cases opened
  exact ⟨ixfPrev, n, live, counted, rfl, rfl⟩

theorem openModule_opening {handlers : IXFHandlers} {files : Files}
    {pszModname : Name} {exeflag : Bool}
    (opened : manager.openModule handlers files cbName pszModname exeflag = .ok (reply, manager')) :
    Opening handlers files pszModname exeflag manager reply manager' := by
  unfold openModule at opened
  simp only at opened
  split at opened
  · cases opened
    exact .failed (openFailure_rc (by decide)) openFailure_phmod
  · rename_i prev found
    split at opened
    · rename_i executable
      split at opened
      · obtain ⟨ixfPrev, n, live, counted, rfl, rfl⟩ := openInstance_eq_ok found opened
        exact .copied found live counted executable
      · rename_i error
        cases opened
        exact .failed (openFailure_rc error) openFailure_phmod
    · rename_i library
      cases opened
      exact .registered found (Bool.eq_false_iff.mpr library)
  · rename_i absent
    split at opened
    · rename_i file
      have loads : files.load exeflag (openedName exeflag pszModname) =
          (0, (files.load exeflag (openedName exeflag pszModname)).2) :=
        Prod.ext file rfl
      unfold openFile at opened
      split at opened
      · rename_i rejected
        cases opened
        exact .unknown absent loads rejected openFailure_phmod
      · rename_i identified
        cases opened
        exact .opened absent loads identified
    · rename_i error
      cases opened
      exact .failed (openFailure_rc error) openFailure_phmod

theorem Opening.effects {handlers : IXFHandlers} {files : Files}
    {pszModname : Name} {exeflag : Bool}
    (opening : Opening handlers files pszModname exeflag manager reply
      manager') : Effects manager manager' := by
  cases opening with
  | failed => exact .refl
  | registered => exact .refl
  | copied found live counted => exact .single (.copied found live counted)
  | unknown => exact .single (.skipped manager)
  | opened => exact .single (.opened manager rfl)

end

/-- The call that goes on with the imports of a module. -/
def enteredFrame (cbName : UInt32) (hmod : Nat) (ixfModule : IXFModule)
    (manager : Manager) : Frame :=
  { ixfModule := hmod, newModuleEl := manager.fresh
    pszModname := ixfModule.name, exeflag := ixfModule.exec, cbName := cbName
    moduleCounter := 0, imported := false }

/-- The ways in which `LoadModule` is entered. -/
inductive Entering (cbName : UInt32) (hmod : Nat) (manager : Manager) :
    Progress → Manager → Prop where
  | library {ixfModule : IXFModule} {prev : ModuleSlot}
      (live : manager.ixfModule hmod = .ok ixfModule)
      (found : getrec (recordName (getFname ixfModule.name)) manager.chain =
        .found prev) (library : ixfModule.exec = false) :
      Entering cbName hmod manager (.returned
          { rc := 0, phmod := prev.first.moduleStruct, pszName := [] })
        manager
  | executable {ixfModule : IXFModule} {prev : ModuleSlot}
      (live : manager.ixfModule hmod = .ok ixfModule)
      (found : getrec (recordName (getFname ixfModule.name)) manager.chain =
        .found prev) (executable : ixfModule.exec = true) :
      Entering cbName hmod manager (.returned
          { rc := 0, phmod := prev.last.moduleStruct, pszName := [] })
        (manager.withFinished prev.last.address)
  | failed {ixfModule : IXFModule} {reply : Reply} {rc : UInt32}
      {image : IXFImage} (live : manager.ixfModule hmod = .ok ixfModule)
      (absent : getrec (recordName (getFname ixfModule.name)) manager.chain = .absent)
      (load : ixfModule.handler.load hmod ixfModule.file = (rc, image))
      (unloaded : rc ≠ 0) (error : reply.rc ≠ 0) :
      Entering cbName hmod manager (.returned reply) (manager.ixfFreeModule hmod)
  | loaded {ixfModule : IXFModule} {image : IXFImage}
      (live : manager.ixfModule hmod = .ok ixfModule)
      (absent : getrec (recordName (getFname ixfModule.name)) manager.chain = .absent)
      (load : ixfModule.handler.load hmod ixfModule.file = (0, image)) :
      Entering cbName hmod manager (.loading (enteredFrame cbName hmod ixfModule manager))
        ((manager.storeModule hmod
          (some { ixfModule with image := some image })).withLoading hmod ixfModule)
  | again {ixfModule : IXFModule} (live : manager.ixfModule hmod = .ok ixfModule)
      (loading : getrec (recordName (getFname ixfModule.name)) manager.chain = .loading) :
      Entering cbName hmod manager (.loading (enteredFrame cbName hmod ixfModule manager))
        (manager.withLoading hmod ixfModule)

section

variable {manager manager' : Manager}

variable {cbName : UInt32} {hmod : Nat}

theorem loadFailure_rc {rc : UInt32} {name : Name}
    (error : rc ≠ 0) : (loadFailure cbName rc name hmod).rc ≠ 0 := by
  unfold loadFailure
  split
  · exact (by decide : (111 : UInt32) ≠ 0)
  · exact error

theorem modRegister_unfinished {address : Nat} {name : Name}
    {exeflag : Bool} {chain : List ModuleSlot}
    (unfinished : ∀ prev, getrec name chain ≠ .found prev) :
    modRegister address name hmod exeflag chain =
      .ok (chain ++ [loadingSlot address hmod name]) := by
  unfold modRegister
  cases looked : getrec name chain with
  | found prev => exact absurd looked (unfinished prev)
  | loading => rfl
  | absent => rfl

theorem registerLoading_eq_ok {ixfModule : IXFModule} {progress : Progress}
    (unfinished : ∀ prev, getrec (recordName (getFname ixfModule.name)) manager.chain ≠ .found prev)
    (registered : manager.registerLoading cbName hmod ixfModule = .ok (progress, manager')) :
    progress = .loading (enteredFrame cbName hmod ixfModule manager) ∧
      manager' = manager.withLoading hmod ixfModule := by
  unfold registerLoading at registered
  rw [modRegister_unfinished unfinished, bind_ok] at registered
  cases registered
  exact ⟨rfl, rfl⟩

theorem enterLoadModule_entering {progress : Progress}
    (entered : manager.enterLoadModule cbName hmod = .ok (progress, manager')) :
    Entering cbName hmod manager progress manager' := by
  obtain ⟨ixfModule, live, entered⟩ := bind_eq_ok_iff.mp entered
  split at entered
  · rename_i prev found
    split at entered
    · rename_i executable
      cases entered
      exact .executable live found executable
    · rename_i library
      cases entered
      exact .library live found (Bool.eq_false_iff.mpr library)
  · rename_i absent
    simp only at entered
    split at entered
    · rename_i success
      have unfinished : ∀ prev, getrec (recordName (getFname ixfModule.name))
          manager.chain ≠ .found prev := by
        intro prev found
        rw [absent] at found
        cases found
      obtain ⟨rfl, rfl⟩ := registerLoading_eq_ok (by exact unfinished) entered
      exact .loaded live absent (Prod.ext success rfl)
    · rename_i error
      cases entered
      exact .failed live absent rfl error (loadFailure_rc error)
  · rename_i loading
    have unfinished : ∀ prev, getrec (recordName (getFname ixfModule.name))
        manager.chain ≠ .found prev := by
      intro prev found
      rw [loading] at found
      cases found
    obtain ⟨rfl, rfl⟩ := registerLoading_eq_ok unfinished entered
    exact .again live loading

end

/-- A library as it is opened for an import. -/
def importedModule (handler : IXFHandler) (file : File) (name : Name) :
    IXFModule :=
  { handler := handler, shared := true, file := file
    name := openedName false (name ++ dll), exec := false, image := none }

/-- The call is at an import that has to be loaded. -/
structure AtImport (frame : Frame) (manager : Manager) (name : Name) : Prop where
  next : frame.imported = false
  module : ∃ ixfModule image, manager.ixfModule frame.ixfModule = .ok ixfModule ∧
    ixfModule.image = some image ∧ image.modules[frame.moduleCounter]? = some name

/-- The file of an import is found and identified. -/
structure Opens (handlers : IXFHandlers) (files : Files) (manager : Manager)
    (name : Name) (file : File) (handler : IXFHandler) : Prop where
  absent : getrec name manager.chain = .absent
  loads : files.load false (openedName false (name ++ dll)) = (0, file)
  identified : handlers.identifyModule file = .ok handler

/-- The ways in which a call takes a turn. -/
inductive Turning (handlers : IXFHandlers) (files : Files) (stack : Nat)
    (frame : Frame) (manager : Manager) : Turn → Manager → Prop where
  | fixedUp {ixfModule : IXFModule} {image : IXFImage}
      (live : manager.ixfModule frame.ixfModule = .ok ixfModule)
      (loaded : ixfModule.image = some image)
      (imported : frame.imported = true)
      (success : frame.exeflag = true ∨ ixfModule.handler.fixup frame.ixfModule image = 0) :
      Turning handlers files stack frame manager (.moved frame.next) manager
  | fixupFailed {ixfModule : IXFModule} {image : IXFImage} {reply : Reply}
      (live : manager.ixfModule frame.ixfModule = .ok ixfModule)
      (loaded : ixfModule.image = some image)
      (imported : frame.imported = true) (library : frame.exeflag = false)
      (failed : ixfModule.handler.fixup frame.ixfModule image ≠ 0)
      (error : reply.rc ≠ 0) :
      Turning handlers files stack frame manager (.returned reply)
        (manager.ixfFreeModule frame.ixfModule)
  | present {name : Name} {prev : ModuleSlot} (at_ : AtImport frame manager name)
      (found : getrec name manager.chain = .found prev) :
      Turning handlers files stack frame manager
        (.moved { frame with imported := true }) manager
  | openFailed {name : Name} {reply : Reply} {manager' : Manager}
      (at_ : AtImport frame manager name)
      (missing : ∀ prev, getrec name manager.chain ≠ .found prev)
      (closed : ∀ file handler, ¬ Opens handlers files manager name file handler)
      (opening : Opening handlers files (name ++ dll) false manager reply
        manager') (error : reply.rc ≠ 0) :
      Turning handlers files stack frame manager
        (.returned { rc := reply.rc, phmod := frame.ixfModule, pszName := [] })
        manager'
  | enteredFailed {name : Name} {file : File} {handler : IXFHandler}
      {reply : Reply} {manager' : Manager} (at_ : AtImport frame manager name)
      (opens : Opens handlers files manager name file handler)
      (entering : Entering cchMaxPath manager.fresh
        (manager.ixfAllocModule (importedModule handler file name))
        (.returned reply) manager') (error : reply.rc ≠ 0) :
      Turning handlers files stack frame manager
        (.returned { rc := reply.rc, phmod := frame.ixfModule, pszName := [] })
        manager'
  | enteredFound {name : Name} {file : File} {handler : IXFHandler}
      {reply : Reply} {manager' : Manager} (at_ : AtImport frame manager name)
      (opens : Opens handlers files manager name file handler)
      (entering : Entering cchMaxPath manager.fresh
        (manager.ixfAllocModule (importedModule handler file name))
        (.returned reply) manager') (success : reply.rc = 0) :
      Turning handlers files stack frame manager
        (.moved { frame with imported := true }) manager'
  | called {name : Name} {file : File} {handler : IXFHandler} {callee : Frame}
      {manager' : Manager} (at_ : AtImport frame manager name)
      (opens : Opens handlers files manager name file handler)
      (entering : Entering cchMaxPath manager.fresh
        (manager.ixfAllocModule (importedModule handler file name))
        (.loading callee) manager') :
      Turning handlers files stack frame manager
        (.called callee { frame with imported := true }) manager'
  | leftFailed {ixfModule : IXFModule} {image : IXFImage}
      (live : manager.ixfModule frame.ixfModule = .ok ixfModule)
      (loaded : ixfModule.image = some image) (next : frame.imported = false)
      (last : image.modules[frame.moduleCounter]? = none)
      (error : frame.fixupExecutable ixfModule image ≠ 0) :
      Turning handlers files stack frame manager (.returned
          { rc := frame.fixupExecutable ixfModule image
            phmod := frame.ixfModule, pszName := [] })
        manager
  | left {ixfModule : IXFModule} {image : IXFImage} {fixups : List IXFFixupEntry} {memory : Memory}
      (live : manager.ixfModule frame.ixfModule = .ok ixfModule)
      (loaded : ixfModule.image = some image) (next : frame.imported = false)
      (last : image.modules[frame.moduleCounter]? = none)
      (success : frame.fixupExecutable ixfModule image = 0)
      (linked : manager.linkFixups stack image.fixups manager.memory = .ok (fixups, memory)) :
      Turning handlers files stack frame manager
        (.returned { rc := 0, phmod := frame.ixfModule, pszName := [] })
        ((manager.withLinked frame.ixfModule ixfModule image fixups
          memory).withFinished frame.newModuleEl)

section

variable {manager manager' : Manager} {handlers : IXFHandlers} {files : Files}
  {stack : Nat} {frame : Frame} {turn : Turn}

variable {name : Name}

theorem openModule_of_opens {file : File} {handler : IXFHandler}
    {cbName : UInt32} (opens : Opens handlers files manager name file handler) :
    manager.openModule handlers files cbName (name ++ dll) false =
      .ok ({ rc := 0, phmod := manager.fresh, pszName := [] },
        manager.ixfAllocModule (importedModule handler file name)) := by
  unfold openModule openFile
  simp only [getFname_append_dll, opens.absent, opens.loads, opens.identified]
  rfl

theorem Opening.closed {reply : Reply}
    (opening : Opening handlers files (name ++ dll) false manager reply manager')
    (missing : ∀ prev, getrec name manager.chain ≠ .found prev)
    (closed : ∀ file handler, ¬ Opens handlers files manager name file handler) :
    reply.phmod = 0 := by
  cases opening with
  | failed error null => exact null
  | registered found =>
    rw [getFname_append_dll] at found
    exact absurd found (missing _)
  | copied found live counted executable => cases executable
  | unknown absent loads rejected null => exact null
  | opened absent loads identified =>
    rw [getFname_append_dll] at absent
    exact absurd ⟨absent, loads, identified⟩ (closed _ _)

theorem importModule_turning (at_ : AtImport frame manager name)
    (imported : frame.importModule handlers files name manager = .ok (turn, manager')) :
    Turning handlers files stack frame manager turn manager' := by
  unfold Frame.importModule at imported
  split at imported
  · split at imported
    · rename_i found
      cases imported
      exact .present at_ found
    · rename_i missing
      by_cases opens : ∃ file handler, Opens handlers files manager name file handler
      · obtain ⟨file, handler, opens⟩ := opens
        rw [openModule_of_opens opens, bind_ok] at imported
        obtain ⟨⟨progress, entered⟩, enters, imported⟩ := bind_eq_ok_iff.mp imported
        have entering := enterLoadModule_entering enters
        cases progress with
        | loading callee =>
          cases imported
          exact .called at_ opens entering
        | returned reply =>
          simp only at imported
          split at imported
          · rename_i success
            cases imported
            exact .enteredFound at_ opens entering success
          · rename_i error
            cases imported
            exact .enteredFailed at_ opens entering error
      · have closed : ∀ file handler,
            ¬ Opens handlers files manager name file handler :=
          fun file handler opened => opens ⟨file, handler, opened⟩
        obtain ⟨⟨opened, between⟩, openings, imported⟩ := bind_eq_ok_iff.mp imported
        have opening := openModule_opening openings
        have null := opening.closed missing closed
        simp only at imported
        split at imported
        · obtain ⟨_, enters, -⟩ := bind_eq_ok_iff.mp imported
          obtain ⟨_, live, -⟩ := bind_eq_ok_iff.mp enters
          exact absurd null (ixfModule_eq_ok_iff.mp live).1
        · rename_i error
          cases imported
          exact .openFailed at_ missing closed opening error
  · cases imported

theorem turn_turning (turned : frame.turn handlers files stack manager = .ok (turn, manager')) :
    Turning handlers files stack frame manager turn manager' := by
  obtain ⟨ixfModule, live, turned⟩ := bind_eq_ok_iff.mp turned
  obtain ⟨image, loaded, turned⟩ := bind_eq_ok_iff.mp turned
  rw [loaded_eq_ok_iff] at loaded
  split at turned
  · rename_i imported
    unfold Frame.fixupImport at turned
    split at turned
    · rename_i executable
      cases turned
      exact .fixedUp live loaded imported (Or.inl executable)
    · rename_i library
      simp only at turned
      split at turned
      · rename_i success
        cases turned
        exact .fixedUp live loaded imported (Or.inr success)
      · rename_i failed
        cases turned
        exact .fixupFailed live loaded imported
          (Bool.eq_false_iff.mpr library) failed (loadFailure_rc failed)
  · rename_i next
    have idle := Bool.eq_false_iff.mpr next
    split at turned
    · rename_i name found
      exact importModule_turning ⟨idle, ixfModule, image, live, loaded, found⟩ turned
    · rename_i last
      unfold Frame.leave at turned
      simp only at turned
      split at turned
      · rename_i success
        obtain ⟨linked, links, turned⟩ := bind_eq_ok_iff.mp turned
        obtain ⟨⟨fixups, memory⟩, solved, equal⟩ := bind_eq_ok_iff.mp links
        cases equal
        cases turned
        exact .left live loaded idle last success solved
      · rename_i error
        cases turned
        exact .leftFailed live loaded idle last error

theorem Entering.effects {cbName : UInt32} {hmod : Nat} {progress : Progress}
    (entering : Entering cbName hmod manager progress manager') :
    Effects manager manager' := by
  cases entering with
  | library => exact .refl
  | executable => exact .single (.finished manager _)
  | failed => exact .single (.freed manager hmod)
  | @loaded ixfModule image live absent =>
    have stored : (manager.storeModule hmod
        (some { ixfModule with image := some image })).ixfModule hmod =
          .ok { ixfModule with image := some image } := by
      rw [ixfModule_eq_ok_iff] at live ⊢
      exact ⟨live.1, if_pos rfl⟩
    have unfinished : ∀ prev, getrec (recordName (getFname ixfModule.name))
        manager.chain ≠ .found prev := by
      intro prev found
      rw [absent] at found
      cases found
    exact .tail (.single (.loaded image live absent))
      (@Effect.registered _ hmod { ixfModule with image := some image } stored unfinished)
  | again live loading =>
    refine .single (.registered live ?_)
    intro prev found
    rw [loading] at found
    cases found

theorem Turning.effects (turning : Turning handlers files stack frame manager turn manager') :
    Effects manager manager' := by
  have opened := fun handler file name =>
    Relation.ReflTransGen.single (Effect.opened manager
      (show (importedModule handler file name).image = none from rfl))
  cases turning with
  | fixedUp => exact .refl
  | fixupFailed => exact .single (.freed manager _)
  | present => exact .refl
  | openFailed _ _ _ opening => exact opening.effects
  | enteredFailed _ _ entering => exact (opened _ _ _).trans entering.effects
  | enteredFound _ _ entering => exact (opened _ _ _).trans entering.effects
  | called _ _ entering => exact (opened _ _ _).trans entering.effects
  | leftFailed => exact .refl
  | left live loaded =>
    exact .tail (.single (.linked _ _ live loaded)) (.finished _ _)

end

end Manager

namespace Server

/-- The ways in which the server takes a step. -/
inductive Stepping (handlers : IXFHandlers) (server : Server) :
    Event → Option Reply → Server → Prop where
  | opened {files : Files} {cbName : UInt32} {pszModname : Name}
      {exeflag : Bool} {reply : Reply} {manager : Manager}
      (idle : server.frames = [])
      (opening : Manager.Opening handlers files pszModname exeflag server.manager reply manager) :
      Stepping handlers server (.accept files (.openModule cbName pszModname exeflag)) (some reply)
        { manager, files, frames := [] }
  | returned {files : Files} {cbName : UInt32} {hmod : Nat} {reply : Reply}
      {manager : Manager} (idle : server.frames = [])
      (entering : Manager.Entering cbName hmod server.manager (.returned reply) manager) :
      Stepping handlers server (.accept files (.loadModule cbName hmod))
        (some reply) { manager, files, frames := [] }
  | entered {files : Files} {cbName : UInt32} {hmod : Nat} {frame : Frame}
      {manager : Manager} (idle : server.frames = [])
      (entering : Manager.Entering cbName hmod server.manager (.loading frame) manager) :
      Stepping handlers server (.accept files (.loadModule cbName hmod)) none
        { manager, files, frames := [frame] }
  | turned {stack : Nat} {frame : Frame} {callers : List Frame} {turn : Turn}
      {manager : Manager} (busy : server.frames = frame :: callers)
      (turning : Manager.Turning handlers server.files stack frame server.manager turn manager) :
      Stepping handlers server (.turn stack) (afterTurn server.files callers (turn, manager)).2
        (afterTurn server.files callers (turn, manager)).1

variable {handlers : IXFHandlers} {server server' : Server} {reply : Option Reply} {event : Event}

theorem Step.stepping (step : Step handlers server event reply server') :
    Stepping handlers server event reply server' := by
  cases step with
  | @accept _ _ files request idle accepted =>
    cases request with
    | openModule cbName pszModname exeflag =>
      obtain ⟨⟨opened, manager⟩, opens, equal⟩ := bind_eq_ok_iff.mp accepted
      cases equal
      exact .opened idle (Manager.openModule_opening opens)
    | loadModule cbName hmod =>
      obtain ⟨⟨progress, manager⟩, enters, equal⟩ := map_eq_ok_iff.mp accepted
      cases progress with
      | returned opened =>
        cases equal
        exact .returned idle (Manager.enterLoadModule_entering enters)
      | loading frame =>
        cases equal
        exact .entered idle (Manager.enterLoadModule_entering enters)
  | @turn _ _ stack busy turned =>
    unfold Server.turn at turned
    split at turned
    · rename_i idle
      exact absurd idle busy
    · rename_i frame callers frames
      obtain ⟨⟨taken, manager⟩, turns, equal⟩ := map_eq_ok_iff.mp turned
      have stepping := Stepping.turned frames (Manager.turn_turning turns)
      rw [equal] at stepping
      exact stepping

@[simp] theorem afterTurn_manager (files : Files) (callers : List Frame)
    (turn : Turn) (manager : Manager) :
    (afterTurn files callers (turn, manager)).1.manager = manager := by
  cases turn with
  | moved frame => rfl
  | called callee caller => rfl
  | returned answer =>
    unfold afterTurn
    simp only
    split
    · rfl
    · rfl

theorem Step.effects (step : Step handlers server event reply server') :
    Manager.Effects server.manager server'.manager := by
  cases step.stepping with
  | opened idle opening => exact opening.effects
  | returned idle entering => exact entering.effects
  | entered idle entering => exact entering.effects
  | turned busy turning =>
    rw [afterTurn_manager]
    exact turning.effects

end Server

end OsFree.Modmgr
