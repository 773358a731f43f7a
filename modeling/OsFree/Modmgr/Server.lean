import OsFree.Lx.Format
import OsFree.Machine.Memory
import OsFree.Machine.Transition
import OsFree.Modmgr.Record

/-!
# The state of the module manager

The list of records, the modules that they and the clients refer to, and the
memory that the modules are loaded into.  A handle of a module is its address;
an address is given out once.
-/

namespace OsFree.Modmgr

open Machine

/-- The contents of a file. -/
abbrev File := List UInt8

/-- The entry tables of a module that a format handler fills in: the entries,
the names of the imported modules and the import fixups. -/
structure IXFImage where
  entries : List IXFModuleEntry
  modules : List Name
  fixups : List IXFFixupEntry
  deriving DecidableEq

/-- A handler of a format: it identifies a file, loads it into a module and
fixes up the module.  What loading and fixing up return may depend on the
module that they work on. -/
structure IXFHandler where
  identify : File → UInt32
  load : Nat → File → UInt32 × IXFImage
  fixup : Nat → IXFImage → UInt32

/-- The handlers of the formats, of which there is at least one. -/
structure IXFHandlers where
  first : IXFHandler
  others : List IXFHandler

/-- A module: the handler of its format, whether it is in the shared memory
area, the file with its name, whether it is an executable, and what has been
loaded of it. -/
structure IXFModule where
  handler : IXFHandler
  shared : Bool
  file : File
  name : Name
  exec : Bool
  image : Option IXFImage

/-- The state of the module manager.  The next address that is given out is
`fresh`. -/
structure Manager where
  chain : List ModuleSlot
  heap : Nat → Option IXFModule
  fresh : Nat
  memory : Memory

namespace IXFHandlers

/-- The first of some handlers that accepts a file, or the return code of the
last one. -/
def identifyFrom (file : File) (p : IXFHandler) : List IXFHandler → Except UInt32 IXFHandler
  | [] => if p.identify file = 0 then .ok p else .error (p.identify file)
  | next :: rest =>
    if p.identify file = 0 then .ok p else identifyFrom file next rest

/-- Identify the format of a file. -/
def identifyModule (handlers : IXFHandlers) (file : File) :
    Except UInt32 IXFHandler :=
  identifyFrom file handlers.first handlers.others

end IXFHandlers

namespace IXFModule

/-- What has been loaded of a module. -/
def loaded (ixfModule : IXFModule) : Run IXFImage :=
  match ixfModule.image with
  | some image => .ok image
  | none => .error .uninitialised

end IXFModule

namespace Manager

variable (manager : Manager)

/-- The module that a handle points to. -/
def ixfModule (hmod : Nat) : Run IXFModule :=
  if hmod = 0 then .error .nullPointer
  else match manager.heap hmod with
    | some ixfModule => .ok ixfModule
    | none => .error .nullPointer

/-- Store a module at an address. -/
def storeModule (hmod : Nat) (ixfModule : Option IXFModule) : Manager := { manager with
    heap := fun other => if other = hmod then ixfModule else manager.heap other }

/-- Free a module. -/
def ixfFreeModule (hmod : Nat) : Manager := manager.storeModule hmod none

/-- Allocate a module with these contents. -/
def ixfAllocModule (ixfModule : IXFModule) : Manager :=
  { manager.storeModule manager.fresh (some ixfModule) with
    fresh := manager.fresh + 1 }

end Manager

section

variable {manager : Manager} {hmod : Nat} {module : IXFModule}

theorem ixfModule_eq_ok_iff : manager.ixfModule hmod = .ok module ↔
      hmod ≠ 0 ∧ manager.heap hmod = some module := by
  unfold Manager.ixfModule
  by_cases null : hmod = 0
  · simp [null]
  · cases manager.heap hmod with
    | none => simp [null]
    | some other => simp [null]

theorem loaded_eq_ok_iff {image : IXFImage} :
    module.loaded = .ok image ↔ module.image = some image := by
  unfold IXFModule.loaded
  cases module.image with
  | none => simp
  | some other => simp

end

/-!
## Addresses of entries

`ModQueryProcAddr` looks up an entry of a module by its ordinal or by its name
and follows forwarders to other modules.
-/

/-- The result of a query: the return code and, if it has been stored, the
address. -/
structure ProcAddr where
  rc : UInt32
  ppfn : Option UInt32
  deriving DecidableEq

/-- A record of the next chain has the module with a handle. -/
def IsRegistered (hmod : Nat) (chain : List ModuleSlot) : Prop :=
  ∃ slot ∈ chain, slot.first.moduleStruct = hmod

instance (hmod : Nat) (chain : List ModuleSlot) :
    Decidable (IsRegistered hmod chain) :=
  inferInstanceAs (Decidable (∃ slot ∈ chain, _))

/-- An entry of an array. -/
def entryAt (entries : List IXFModuleEntry) (index : Nat) :
    Run IXFModuleEntry :=
  match entries[index]? with
  | some entry => .ok entry
  | none => .error .readOutside

/-- The first entry with a function name; the comparison takes every name
before it. -/
def findEntry (pszName : Option Name) : List IXFModuleEntry → Run (Option IXFModuleEntry)
  | [] => .ok none
  | entry :: rest =>
    match entry.functionName with
    | none => .error .nullPointer
    | some functionName =>
      match pszName with
      | none => .error .nullPointer
      | some name =>
        if functionName = name then .ok (some entry)
        else findEntry (some name) rest

namespace Manager

variable (manager : Manager)

/-- The entry of a module with an ordinal or, if this is zero, with a name.
Without a record the pointer to the module is null. -/
def queriedEntry (hmod : Nat) (ordinal : UInt32) (pszName : Option Name) :
    Run (Option IXFModuleEntry) :=
  if IsRegistered hmod manager.chain then do
    let ixfModule ← manager.ixfModule hmod
    let image ← ixfModule.loaded
    if 0 < ordinal then do
      let entry ← entryAt image.entries (ordinal.toNat - 1)
      pure (some entry)
    else findEntry pszName image.entries
  else .error .nullPointer

/-- Ask for the address of an entry by its ordinal or, if this is zero, by its
name.  The recursion follows forwarders and may use `stack` calls. -/
def modQueryProcAddr : (stack : Nat) → (hmod : Nat) → (ordinal : UInt32) →
      (pszName : Option Name) → Run ProcAddr
  | 0, _, _, _ => .error .stackExhausted
  | stack + 1, hmod, ordinal, pszName => do
      let entry ← manager.queriedEntry hmod ordinal pszName
      match entry with
      | none => pure { rc := 0, ppfn := none }
      | some entry =>
        match entry.moduleName with
        | none => pure { rc := 0, ppfn := entry.address }
        | some moduleName =>
          match getrec moduleName manager.chain with
          | .loading => pure { rc := 5, ppfn := none }
          | .found prev =>
            modQueryProcAddr stack prev.first.moduleStruct
              (UInt32.ofInt entry.ordinal.toInt) entry.functionName
          | .absent =>
            modQueryProcAddr stack 0 (UInt32.ofInt entry.ordinal.toInt) entry.functionName

end Manager

/-!
## Opening and loading modules

`OpenModule`, `LoadModule` and `ModLinkModule` of `modmgr.c`.  `LoadModule`
calls itself for the imported modules.  A call is a frame that takes one turn of
its loop over the imports after the other; the turns of all calls are the steps
of the server.
-/

/-- The files as the file provider finds them, directly and by the search paths
for libraries and for executables. -/
structure Files where
  ioLoadFile : Name → UInt32 × File
  findModulePath : Name → UInt32 × Name
  findPath : Name → UInt32 × Name

/-- What a call hands back: the return code, the handle and the name stored for
the caller, which is empty if there is none. -/
structure Reply where
  rc : UInt32
  phmod : Nat
  pszName : Name
  deriving DecidableEq

/-- Load a file by its name or else from the search path. -/
def Files.load (files : Files) (exeflag : Bool) (pszModname : Name) :
    UInt32 × File :=
  let (rc, file) := files.ioLoadFile pszModname
  if rc = 0 then (rc, file)
  else
    let (rc, pBuf) :=
      if exeflag then files.findPath pszModname
      else files.findModulePath pszModname
    if rc = 0 then files.ioLoadFile pBuf else (rc, file)

/-- The reply of `OpenModule` to a failure with a name. -/
def openFailure (cbName rc : UInt32) (name : Name) : Reply :=
  if cbName.toNat ≤ name.length then { rc := 111, phmod := 0, pszName := [] }
  else { rc, phmod := 0, pszName := name }

/-- The reply of `LoadModule` to a failure that frees the module. -/
def loadFailure (cbName rc : UInt32) (name : Name) (hmod : Nat) : Reply :=
  if cbName.toNat ≤ name.length then { rc := 111, phmod := hmod, pszName := [] }
  else { rc, phmod := 0, pszName := name }

/-- The name of the file that a module is opened from.  The library `EMXWRAP`
is replaced by `SUB32`. -/
def openedName (exeflag : Bool) (pszModname : Name) : Name :=
  if exeflag = false ∧ Stricmp (getFname pszModname) emxwrap then sub32Dll
  else pszModname

namespace Manager

/-- Open a further instance of a module: copy the module and register the
copy. -/
def openInstance (prev : ModuleSlot) (mname : Name) (manager : Manager) :
    Run (Reply × Manager) := do
  let ixfPrev ← manager.ixfModule prev.first.moduleStruct
  let copied := manager.ixfAllocModule ixfPrev
  let chain ← modRegister copied.fresh mname manager.fresh true copied.chain
  pure ({ rc := 0, phmod := manager.fresh, pszName := [] },
    { copied with chain := chain, fresh := copied.fresh + 1 })

/-- Open a module from a file.  For a file of no known format the return code is
that of freeing the module. -/
def openFile (handlers : IXFHandlers) (cbName : UInt32) (pszModname : Name)
    (exeflag : Bool) (file : File) (manager : Manager) : Reply × Manager :=
  match handlers.identifyModule file with
  | .error _ =>
    (openFailure cbName 0 pszModname,
      { manager with fresh := manager.fresh + 1 })
  | .ok handler =>
    ({ rc := 0, phmod := manager.fresh, pszName := [] }, manager.ixfAllocModule
        { handler := handler, shared := !exeflag, file := file
          name := pszModname, exec := exeflag, image := none })

/-- Open a module.  It is looked up under the name that is asked for. -/
def openModule (handlers : IXFHandlers) (files : Files) (cbName : UInt32)
    (pszModname : Name) (exeflag : Bool) (manager : Manager) :
    Run (Reply × Manager) :=
  let mname := getFname pszModname
  let pszModname := openedName exeflag pszModname
  match getrec mname manager.chain with
  | .loading => pure (openFailure cbName 126 mname, manager)
  | .found prev =>
    if exeflag then
      let (rc, _) := files.load exeflag pszModname
      if rc = 0 then manager.openInstance prev mname
      else pure (openFailure cbName rc pszModname, manager)
    else
      pure ({ rc := 0, phmod := prev.first.moduleStruct, pszName := [] }, manager)
  | .absent =>
    let (rc, file) := files.load exeflag pszModname
    if rc = 0 then
      pure (manager.openFile handlers cbName pszModname exeflag file)
    else pure (openFailure cbName rc pszModname, manager)

/-- Resolve the import fixups of a module and patch their places.  Linking stops
at an import from a module that is being loaded; the return code of a query is
not looked at. -/
def linkFixups (manager : Manager) (stack : Nat) :
    List IXFFixupEntry → Memory → Run (List IXFFixupEntry × Memory)
  | [], memory => pure ([], memory)
  | fixup :: rest, memory =>
    match fixup.importEntry.moduleName with
    | none => .error .nullPointer
    | some moduleName =>
      match getrec moduleName manager.chain with
      | .loading => pure (fixup :: rest, memory)
      | .absent => .error .nullPointer
      | .found prev => do
          let answer ← manager.modQueryProcAddr stack prev.first.moduleStruct
            (UInt32.ofInt fixup.importEntry.ordinal.toInt)
            fixup.importEntry.functionName
          match answer.ppfn.orElse fun _ => fixup.importEntry.address with
          | none => .error .uninitialised
          | some address =>
            let relativeJmp := address - fixup.srcAddress - 4
            let (linked, memory) ← linkFixups manager stack rest (memory.store
                { address := fixup.srcVmAddress
                  bytes := longBytes relativeJmp })
            pure ({ fixup with
                importEntry :=
                  { fixup.importEntry with address := some address } } ::
              linked, memory)

/-- Link a loaded module. -/
def modLinkModule (stack hmod : Nat) (ixfModule : IXFModule)
    (image : IXFImage) (manager : Manager) : Run Manager := do
  let (fixups, memory) ← manager.linkFixups stack image.fixups manager.memory
  pure { manager.storeModule hmod
        (some { ixfModule with
          image := some { image with fixups := fixups } }) with
      memory := memory }

end Manager

/-- A call of `LoadModule` that has registered its module: the module, its
record, its name and kind, the size of the buffer for the name of a failed
module, the number of the next import and whether it has been loaded. -/
structure Frame where
  ixfModule : Nat
  newModuleEl : Nat
  pszModname : Name
  exeflag : Bool
  cbName : UInt32
  moduleCounter : Nat
  imported : Bool
  deriving DecidableEq

/-- A call of `LoadModule` returns or goes on with the imports. -/
inductive Progress where
  | returned (reply : Reply)
  | loading (frame : Frame)
  deriving DecidableEq

namespace Manager

/-- Register a module that has been loaded and that goes on with its
imports. -/
def registerLoading (cbName : UInt32) (hmod : Nat) (ixfModule : IXFModule)
    (manager : Manager) : Run (Progress × Manager) := do
  let chain ← modRegister manager.fresh (recordName (getFname ixfModule.name))
    hmod ixfModule.exec manager.chain
  pure (.loading
      { ixfModule := hmod, newModuleEl := manager.fresh
        pszModname := ixfModule.name, exeflag := ixfModule.exec
        cbName := cbName, moduleCounter := 0, imported := false },
    { manager with
      chain := setLoadStatus manager.fresh .loading chain
      fresh := manager.fresh + 1 })

/-- `LoadModule` up to the loop over the imports.  A module that is registered
is not loaded again; for an executable the last instance is returned. -/
def enterLoadModule (cbName : UInt32) (hmod : Nat) (manager : Manager) :
    Run (Progress × Manager) := do
  let ixfModule ← manager.ixfModule hmod
  match getrec (recordName (getFname ixfModule.name)) manager.chain with
  | .found prev =>
    if ixfModule.exec then
      pure (.returned
          { rc := 0, phmod := prev.last.moduleStruct, pszName := [] },
        { manager with
          chain := setLoadStatus prev.last.address .doneLoading manager.chain })
    else
      pure (.returned
        { rc := 0, phmod := prev.first.moduleStruct, pszName := [] }, manager)
  | .absent =>
    let (rc, image) := ixfModule.handler.load hmod ixfModule.file
    if rc = 0 then
      (manager.storeModule hmod
        (some { ixfModule with image := some image })).registerLoading cbName hmod ixfModule
    else
      pure (.returned (loadFailure cbName rc ixfModule.name hmod), manager.ixfFreeModule hmod)
  | .loading => manager.registerLoading cbName hmod ixfModule

end Manager

/-- What a turn of a call comes to: the call goes on, calls `LoadModule` for an
import, or returns. -/
inductive Turn where
  | moved (frame : Frame)
  | called (callee caller : Frame)
  | returned (reply : Reply)
  deriving DecidableEq

/-- Size of the buffer for the name of a failed import. -/
abbrev cchMaxPath : UInt32 := 260

namespace Frame

variable (frame : Frame)

/-- The call at its next import. -/
def next : Frame :=
  { frame with moduleCounter := frame.moduleCounter + 1, imported := false }

/-- The turn that loads an import unless it is registered.  The name has to fit
its buffer together with the extension. -/
def importModule (handlers : IXFHandlers) (files : Files) (name : Name)
    (manager : Manager) : Run (Turn × Manager) :=
  if name.length + dll.length < 1024 then
    match getrec name manager.chain with
    | .found _ => pure (.moved { frame with imported := true }, manager)
    | _ => do
        let (opened, manager) ← manager.openModule handlers files cchMaxPath (name ++ dll) false
        if opened.rc = 0 then do
          let (progress, manager) ← manager.enterLoadModule cchMaxPath opened.phmod
          match progress with
          | .loading callee =>
            pure (.called callee { frame with imported := true }, manager)
          | .returned reply =>
            if reply.rc = 0 then
              pure (.moved { frame with imported := true }, manager)
            else
              pure (.returned
                { rc := reply.rc, phmod := frame.ixfModule, pszName := [] },
                manager)
        else
          pure (.returned
            { rc := opened.rc, phmod := frame.ixfModule, pszName := [] },
            manager)
  else .error .writeOutside

/-- The turn behind an import that fixes up a library. -/
def fixupImport (ixfModule : IXFModule) (image : IXFImage) (manager : Manager) : Turn × Manager :=
  if frame.exeflag then (.moved frame.next, manager)
  else
    let rc := ixfModule.handler.fixup frame.ixfModule image
    if rc = 0 then (.moved frame.next, manager)
    else
      (.returned (loadFailure frame.cbName rc frame.pszModname frame.ixfModule),
        manager.ixfFreeModule frame.ixfModule)

/-- The return code of the fixup behind the last import, which is that of an
executable. -/
def fixupExecutable (ixfModule : IXFModule) (image : IXFImage) : UInt32 :=
  if frame.exeflag then ixfModule.handler.fixup frame.ixfModule image else 0

/-- The turn behind the last import: fix up an executable, link the module and
finish its record. -/
def leave (stack : Nat) (ixfModule : IXFModule) (image : IXFImage)
    (manager : Manager) : Run (Turn × Manager) :=
  let rc := frame.fixupExecutable ixfModule image
  if rc = 0 then do
    let manager ← manager.modLinkModule stack frame.ixfModule ixfModule image
    pure (.returned { rc := 0, phmod := frame.ixfModule, pszName := [] }, { manager with
        chain := setLoadStatus frame.newModuleEl .doneLoading manager.chain })
  else
    pure (.returned { rc := rc, phmod := frame.ixfModule, pszName := [] }, manager)

/-- A turn of a call. -/
def turn (handlers : IXFHandlers) (files : Files) (stack : Nat)
    (manager : Manager) : Run (Turn × Manager) := do
  let ixfModule ← manager.ixfModule frame.ixfModule
  let image ← ixfModule.loaded
  if frame.imported then pure (frame.fixupImport ixfModule image manager)
  else
    match image.modules[frame.moduleCounter]? with
    | some name => frame.importModule handlers files name manager
    | none => frame.leave stack ixfModule image manager

end Frame

/-!
## The server

The server takes one request after the other.  A request of a client to load a
module is served in turns, and the next request is taken when the last call of
`LoadModule` has returned.
-/

/-- The requests that change the module manager.  `ModLoadModule` is a request
to open a library followed by one to load it. -/
inductive Request where
  | openModule (cbName : UInt32) (pszModname : Name) (exeflag : Bool)
  | loadModule (cbName : UInt32) (hmod : Nat)
  deriving DecidableEq

/-- The server: the module manager, the files as the current request finds
them, and the calls of `LoadModule`, the innermost first. -/
structure Server where
  manager : Manager
  files : Files
  frames : List Frame

namespace Server

variable (handlers : IXFHandlers) (server : Server)

/-- The server after a part of `LoadModule` that a client has called. -/
def afterEnter (files : Files) : Progress × Manager → Server × Option Reply
  | (.returned reply, manager) => ({ manager, files, frames := [] }, some reply)
  | (.loading frame, manager) => ({ manager, files, frames := [frame] }, none)

/-- Take a request.  The result has a reply unless there are imports to load. -/
def accept (files : Files) (request : Request) :
    Run (Server × Option Reply) :=
  match request with
  | .openModule cbName pszModname exeflag => do
      let (reply, manager) ← server.manager.openModule handlers files cbName pszModname exeflag
      pure ({ manager, files, frames := [] }, some reply)
  | .loadModule cbName hmod =>
    afterEnter files <$> server.manager.enterLoadModule cbName hmod

/-- The reply to a client when a call returns an error to its callers. -/
def unwind (callers : List Frame) (reply : Reply) : Reply :=
  match callers.getLast? with
  | none => reply
  | some outermost =>
    { rc := reply.rc, phmod := outermost.ixfModule, pszName := [] }

/-- The server after a turn of the innermost call. -/
def afterTurn (files : Files) (callers : List Frame) : Turn × Manager → Server × Option Reply
  | (.moved frame, manager) =>
    ({ manager, files, frames := frame :: callers }, none)
  | (.called callee caller, manager) =>
    ({ manager, files, frames := callee :: caller :: callers }, none)
  | (.returned reply, manager) =>
    if reply.rc = 0 ∧ callers ≠ [] then
      ({ manager, files, frames := callers }, none)
    else ({ manager, files, frames := [] }, some (unwind callers reply))

/-- A turn of the innermost call. -/
def turn (stack : Nat) : Run (Server × Option Reply) :=
  match server.frames with
  | [] => pure (server, none)
  | frame :: callers =>
    afterTurn server.files callers <$> frame.turn handlers server.files stack server.manager

/-- What the server does next: it takes a request, when it has no call to
serve, or it takes a turn. -/
inductive Event where
  | accept (files : Files) (request : Request)
  | turn (stack : Nat)

/-- A step of the server. -/
inductive Step : Server → Event → Option Reply → Server → Prop where
  | accept {server server' : Server} {reply : Option Reply} {files : Files}
      {request : Request} (idle : server.frames = [])
      (accepted : server.accept handlers files request = .ok (server', reply)) :
      Step server (.accept files request) reply server'
  | turn {server server' : Server} {reply : Option Reply} {stack : Nat} (busy : server.frames ≠ [])
      (turned : server.turn handlers stack = .ok (server', reply)) :
      Step server (.turn stack) reply server'

/-- A step that meets a condition. -/
def StepIf (condition : Server → Event → Prop) (server server' : Server) :
    Prop :=
  ∃ event reply, Step handlers server event reply server' ∧ condition server event

/-- The server and the reply behind an event, if it can happen. -/
def next : Event → Option (Server × Option Reply)
  | .accept files request =>
    if server.frames = [] then
      (server.accept handlers files request).toOption
    else none
  | .turn stack =>
    if server.frames = [] then none
    else (server.turn handlers stack).toOption

/-- The server and the replies behind some events, if they can happen one after
the other. -/
def serve (server : Server) : List Event → Option (Server × List (Option Reply))
  | [] => some (server, [])
  | event :: events => do
      let (server, reply) ← server.next handlers event
      let (server, replies) ← serve server events
      some (server, reply :: replies)

section

variable {handlers : IXFHandlers} {server server' : Server}

theorem step_of_next {event : Event} {reply : Option Reply}
    (happens : server.next handlers event = some (server', reply)) :
    Step handlers server event reply server' := by
  cases event with
  | accept files request =>
    by_cases idle : server.frames = []
    · exact .accept idle (toOption_eq_some_iff.mp ((if_pos idle).symm.trans happens))
    · cases (if_neg idle).symm.trans happens
  | turn stack =>
    by_cases idle : server.frames = []
    · cases (if_pos idle).symm.trans happens
    · exact .turn idle (toOption_eq_some_iff.mp ((if_neg idle).symm.trans happens))

theorem runsTo_of_serve {events : List Event} {replies : List (Option Reply)}
    (served : server.serve handlers events = some (server', replies)) :
    RunsTo (StepIf handlers fun _ _ => True) server server' := by
  induction events generalizing server replies with
  | nil =>
    cases served
    exact .refl
  | cons event events ih =>
    obtain ⟨⟨between, reply⟩, happens, rest⟩ := Option.bind_eq_some_iff.mp served
    obtain ⟨⟨last, others⟩, serves, equal⟩ := Option.bind_eq_some_iff.mp rest
    cases equal
    exact .head ⟨event, reply, step_of_next happens, trivial⟩ (ih serves)

end

end Server

/-- `KAL` has no format; nothing calls its handler. -/
def kalHandler : IXFHandler :=
  { identify := fun _ => 11
    load := fun _ _ => (11, { entries := [], modules := [], fixups := [] })
    fixup := fun _ _ => 11 }

/-- `KAL`. -/
def kal : Name := [0x4b, 0x41, 0x4c]

/-- The module `KAL` with its entries.  What kind of module it is has not been
stored. -/
def kalModule (entries : List IXFModuleEntry) (shared exec : Bool) :
    IXFModule :=
  { handler := kalHandler, shared, file := [], name := kal, exec
    image := some { entries, modules := [], fixups := [] } }

/-- The module manager with `KAL` registered. -/
def modInitialize (module : IXFModule) (memory : Memory) : Manager :=
  { chain := [{
      first :=
        { address := 2, modName := kal, moduleStruct := 1, inst := 0
          loadStatus := .doneLoading }
      up := [] }]
    heap := fun hmod => if hmod = 1 then some module else none
    fresh := 3
    memory }

/-- The server at its start. -/
structure Server.Initial (server : Server) : Prop where
  frames : server.frames = []
  manager : ∃ entries shared exec memory,
    server.manager = modInitialize (kalModule entries shared exec) memory

end OsFree.Modmgr
