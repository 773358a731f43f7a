import OsFree.Machine.Transition

/-!
# The sessions of the file server and of the module server

With a request that moves memory a client passes a dataspace.  The session attaches
it to the region map of the server and calls what the servers share between
platforms with the address.
-/

namespace OsFree.Os2fs

open Machine

/-- A dataspace of a client, and its size. -/
structure Dataspace where
  ds : Nat
  size : Nat
  deriving DecidableEq

/-- A region of a region map: a dataspace that is attached at an address. -/
structure Attached where
  addr : Nat
  ds : Dataspace
  deriving DecidableEq

/-- Where a region map attaches a dataspace: at an address where nothing is attached.
If there is none, an exception leaves the request. -/
structure RegionMapper where
  attach : List Attached → Dataspace → Option Nat
  fresh : ∀ {regions ds addr}, attach regions ds = some addr →
    ∀ region ∈ regions, region.addr ≠ addr

/-- What a shared function answers: its code, what it gives back, and how many bytes
it has moved at a buffer. -/
structure Reply where
  rc : UInt32
  out : List Nat
  moved : Nat → Nat

/-- A shared function that does not use the region map. -/
abbrev Service (σ : Type) := σ → Reply × σ

/-- A shared function that loads the files of modules, which stay attached. -/
abbrev Loading (σ : Type) := σ → Reply × List Attached × σ

/-- A function that loads no files. -/
def quiet (service : Service σ) : Loading σ :=
  fun state => ((service state).1, [], (service state).2)

/-- The answer to a request, and how many bytes have been moved at each dataspace
that was passed. -/
structure Answer where
  rc : UInt32
  out : List Nat
  transfers : List (Dataspace × Nat)
  deriving DecidableEq

/-- The region map of a server, and what its shared functions keep.  The regions of
its heap are left out. -/
structure Server (σ : Type) where
  regions : List Attached
  state : σ

/-- What is done with a server, unless an exception leaves it. -/
abbrev Handler (σ α : Type) := StateT (Server σ) Option α

/-- `env.rm().attach(ds)`. -/
def attach (rm : RegionMapper) (ds : Dataspace) : Handler σ Nat := fun server =>
  (rm.attach server.regions ds).map fun addr =>
    (addr, { server with regions := server.regions ++ [⟨addr, ds⟩] })

/-- Call a shared function while dataspaces are attached at these addresses. -/
def call (service : Loading σ) (spaces : List (Dataspace × Nat)) :
    Handler σ Answer := fun server =>
  let (reply, files, state) := service server.state
  some (⟨reply.rc, reply.out, spaces.map fun (ds, addr) => (ds, reply.moved addr)⟩,
    ⟨server.regions ++ files, state⟩)

/-- A request that passes no dataspace is given to its shared function. -/
def pass (service : Loading σ) : Handler σ Answer := call service []

/-- Attach a dataspace and call a shared function with its address. -/
def through (rm : RegionMapper) (ds : Dataspace) (service : Nat → Loading σ) :
    Handler σ Answer := do
  let addr ← attach rm ds
  call (service addr) [(ds, addr)]

/-- What the file server runs on.  `read` and `write` are those of the C library,
which move no more than they are asked for. -/
structure FsHost (σ : Type) where
  rm : RegionMapper
  read : UInt32 → UInt32 → σ → Option UInt32 × σ
  write : UInt32 → UInt32 → σ → Option UInt32 × σ
  FSGetDriveMap : Service σ
  FSResetBuffer (hFile : UInt32) : Service σ
  FSSetFilePtrL (hFile : UInt32) (ib : Int) (method : UInt32) : Service σ
  FSClose (hFile : UInt32) : Service σ
  FSQueryHType (hFile : UInt32) : Service σ
  FSOpenL (fName : List UInt8) (cbSize : Int)
    (ulAttribute fsOpenFlags fsOpenMode : UInt32) : Service σ
  FSDupHandle (hFile phFile2 : UInt32) : Service σ
  FSDelete (fName : List UInt8) : Service σ
  FSForceDelete (fName : List UInt8) : Service σ
  FSDeleteDir (dName : List UInt8) : Service σ
  FSCreateDir (dName : List UInt8) (peaop2 : Nat) : Service σ
  FSFindFirst (pName : List UInt8) (phDir flAttribute : UInt32) (addr : Nat)
    (cbSize pcFileNames ulInfoLevel : UInt32) : Service σ
  FSFindNext (hDir : UInt32) (addr : Nat) (cbSize pcFileNames : UInt32) : Service σ
  FSFindClose (hDir : UInt32) : Service σ
  FSQueryFHState (hFile : UInt32) : Service σ
  FSSetFHState (hFile ulMode : UInt32) : Service σ
  FSQueryFileInfo (hFile ulInfoLevel : UInt32) (addr : Nat) (cbSize : UInt32) : Service σ
  FSQueryPathInfo (pName : List UInt8) (ulInfoLevel : UInt32) (addr : Nat)
    (cbSize : UInt32) : Service σ
  FSSetFileSizeL (hFile : UInt32) (cbSize : Int) : Service σ
  FSSetFileInfo (hFile ulInfoLevel : UInt32) (addr : Nat) (cbSize : UInt32) : Service σ
  FSSetPathInfo (pName : List UInt8) (ulInfoLevel : UInt32) (addr : Nat)
    (cbSize flOptions : UInt32) : Service σ
  read_le : ∀ {hFile count state nread}, (read hFile count state).1 = some nread → nread ≤ count
  write_le : ∀ {hFile count state nwritten},
    (write hFile count state).1 = some nwritten → nwritten ≤ count

/-- What `FSRead` and `FSWrite` make of the result of the library.  ERROR_NO_DATA is
232; the count is left as it was then. -/
def moveBytes (result : Option UInt32) (pBuffer : Nat) (count : UInt32) : Reply :=
  match result with
  | none => ⟨232, [count.toNat], fun _ => 0⟩
  | some n => ⟨0, [n.toNat], fun addr => if addr = pBuffer then n.toNat else 0⟩

namespace FsHost

variable (host : FsHost σ) (hFile phFile2 method hDir phDir : UInt32)
  (ib cbSize : Int) (fName dName pName : List UInt8) (ds : Dataspace)
  (count flAttribute ulAttribute fsOpenFlags fsOpenMode : UInt32)
  (pcFileNames ulInfoLevel ulMode flOptions : UInt32)

def FSRead (pBuffer : Nat) : Service σ := fun state =>
  let (nread, state) := host.read hFile count state
  (moveBytes nread pBuffer count, state)

def FSWrite (pBuffer : Nat) : Service σ := fun state =>
  let (nwritten, state) := host.write hFile count state
  (moveBytes nwritten pBuffer count, state)

def get_drivemap : Handler σ Answer := pass (quiet host.FSGetDriveMap)

def dos_Read : Handler σ Answer :=
  through host.rm ds fun addr => quiet (host.FSRead hFile count addr)

def dos_Write : Handler σ Answer :=
  through host.rm ds fun addr => quiet (host.FSWrite hFile count addr)

def dos_ResetBuffer : Handler σ Answer := pass (quiet (host.FSResetBuffer hFile))

def dos_SetFilePtrL : Handler σ Answer := pass (quiet (host.FSSetFilePtrL hFile ib method))

def dos_Close : Handler σ Answer := pass (quiet (host.FSClose hFile))

def dos_QueryHType : Handler σ Answer := pass (quiet (host.FSQueryHType hFile))

def dos_OpenL : Handler σ Answer :=
  pass (quiet (host.FSOpenL fName cbSize ulAttribute fsOpenFlags fsOpenMode))

def dos_DupHandle : Handler σ Answer := pass (quiet (host.FSDupHandle hFile phFile2))

def dos_Delete : Handler σ Answer := pass (quiet (host.FSDelete fName))

def dos_ForceDelete : Handler σ Answer := pass (quiet (host.FSForceDelete fName))

def dos_DeleteDir : Handler σ Answer := pass (quiet (host.FSDeleteDir dName))

def dos_CreateDir : Handler σ Answer :=
  through host.rm ds fun peaop2 => quiet (host.FSCreateDir dName peaop2)

def dos_FindFirst : Handler σ Answer :=
  through host.rm ds fun addr => quiet (host.FSFindFirst pName phDir flAttribute addr
    (UInt32.ofNat ds.size) pcFileNames ulInfoLevel)

def dos_FindNext : Handler σ Answer := through host.rm ds fun addr =>
    quiet (host.FSFindNext hDir addr (UInt32.ofNat ds.size) pcFileNames)

def dos_FindClose : Handler σ Answer := pass (quiet (host.FSFindClose hDir))

def dos_QueryFHState : Handler σ Answer := pass (quiet (host.FSQueryFHState hFile))

def dos_SetFHState : Handler σ Answer := pass (quiet (host.FSSetFHState hFile ulMode))

def dos_QueryFileInfo : Handler σ Answer := through host.rm ds fun addr =>
    quiet (host.FSQueryFileInfo hFile ulInfoLevel addr (UInt32.ofNat ds.size))

def dos_QueryPathInfo : Handler σ Answer := through host.rm ds fun addr =>
    quiet (host.FSQueryPathInfo pName ulInfoLevel addr (UInt32.ofNat ds.size))

def dos_SetFileSizeL : Handler σ Answer := pass (quiet (host.FSSetFileSizeL hFile cbSize))

def dos_SetFileInfo : Handler σ Answer := through host.rm ds fun addr =>
    quiet (host.FSSetFileInfo hFile ulInfoLevel addr (UInt32.ofNat ds.size))

def dos_SetPathInfo : Handler σ Answer := through host.rm ds fun addr =>
    quiet (host.FSSetPathInfo pName ulInfoLevel addr (UInt32.ofNat ds.size) flOptions)

end FsHost

/-- A request to the file server. -/
inductive FsRequest where
  | get_drivemap
  | dos_Read (hFile : UInt32) (ds : Dataspace) (count : UInt32)
  | dos_Write (hFile : UInt32) (ds : Dataspace) (count : UInt32)
  | dos_ResetBuffer (hFile : UInt32)
  | dos_SetFilePtrL (hFile : UInt32) (ib : Int) (method : UInt32)
  | dos_Close (hFile : UInt32)
  | dos_QueryHType (hFile : UInt32)
  | dos_OpenL (fName : List UInt8) (cbSize : Int) (ulAttribute fsOpenFlags fsOpenMode : UInt32)
  | dos_DupHandle (hFile phFile2 : UInt32)
  | dos_Delete (fName : List UInt8)
  | dos_ForceDelete (fName : List UInt8)
  | dos_DeleteDir (dName : List UInt8)
  | dos_CreateDir (dName : List UInt8) (ds : Dataspace)
  | dos_FindFirst (pName : List UInt8) (phDir flAttribute : UInt32) (ds : Dataspace)
      (pcFileNames ulInfoLevel : UInt32)
  | dos_FindNext (hDir : UInt32) (ds : Dataspace) (pcFileNames : UInt32)
  | dos_FindClose (hDir : UInt32)
  | dos_QueryFHState (hFile : UInt32)
  | dos_SetFHState (hFile ulMode : UInt32)
  | dos_QueryFileInfo (hFile ulInfoLevel : UInt32) (ds : Dataspace)
  | dos_QueryPathInfo (pName : List UInt8) (ulInfoLevel : UInt32) (ds : Dataspace)
  | dos_SetFileSizeL (hFile : UInt32) (cbSize : Int)
  | dos_SetFileInfo (hFile ulInfoLevel : UInt32) (ds : Dataspace)
  | dos_SetPathInfo (pName : List UInt8) (ulInfoLevel : UInt32) (ds : Dataspace)
      (flOptions : UInt32)

namespace FsRequest

/-- What the session does for a request. -/
def serve (host : FsHost σ) : FsRequest → Handler σ Answer
  | get_drivemap => host.get_drivemap
  | dos_Read hFile ds count => host.dos_Read hFile ds count
  | dos_Write hFile ds count => host.dos_Write hFile ds count
  | dos_ResetBuffer hFile => host.dos_ResetBuffer hFile
  | dos_SetFilePtrL hFile ib method => host.dos_SetFilePtrL hFile method ib
  | dos_Close hFile => host.dos_Close hFile
  | dos_QueryHType hFile => host.dos_QueryHType hFile
  | dos_OpenL fName cbSize ulAttribute fsOpenFlags fsOpenMode =>
    host.dos_OpenL cbSize fName ulAttribute fsOpenFlags fsOpenMode
  | dos_DupHandle hFile phFile2 => host.dos_DupHandle hFile phFile2
  | dos_Delete fName => host.dos_Delete fName
  | dos_ForceDelete fName => host.dos_ForceDelete fName
  | dos_DeleteDir dName => host.dos_DeleteDir dName
  | dos_CreateDir dName ds => host.dos_CreateDir dName ds
  | dos_FindFirst pName phDir flAttribute ds pcFileNames ulInfoLevel =>
    host.dos_FindFirst phDir pName ds flAttribute pcFileNames ulInfoLevel
  | dos_FindNext hDir ds pcFileNames => host.dos_FindNext hDir ds pcFileNames
  | dos_FindClose hDir => host.dos_FindClose hDir
  | dos_QueryFHState hFile => host.dos_QueryFHState hFile
  | dos_SetFHState hFile ulMode => host.dos_SetFHState hFile ulMode
  | dos_QueryFileInfo hFile ulInfoLevel ds =>
    host.dos_QueryFileInfo hFile ds ulInfoLevel
  | dos_QueryPathInfo pName ulInfoLevel ds =>
    host.dos_QueryPathInfo pName ds ulInfoLevel
  | dos_SetFileSizeL hFile cbSize => host.dos_SetFileSizeL hFile cbSize
  | dos_SetFileInfo hFile ulInfoLevel ds => host.dos_SetFileInfo hFile ds ulInfoLevel
  | dos_SetPathInfo pName ulInfoLevel ds flOptions =>
    host.dos_SetPathInfo pName ds ulInfoLevel flOptions

/-- The dataspaces that a request passes. -/
def dataspaces : FsRequest → List Dataspace
  | dos_Read _ ds _ | dos_Write _ ds _ | dos_CreateDir _ ds
  | dos_FindFirst _ _ _ ds _ _ | dos_FindNext _ ds _ | dos_QueryFileInfo _ _ ds
  | dos_QueryPathInfo _ _ ds | dos_SetFileInfo _ _ ds | dos_SetPathInfo _ _ ds _ =>
    [ds]
  | _ => []

end FsRequest

/-- What the module server runs on.  Opening and loading modules attaches their
files; an import that is in the list of modules is not opened again. -/
structure ExecHost (σ : Type) where
  rm : RegionMapper
  ExcOpen (szLoadError : Nat) (cbLoadError : UInt32) (fName : List UInt8)
    (flags : UInt32) : Loading σ
  ExcLoad (hmod : UInt32) (szLoadError : Nat) (cbLoadError : UInt32) (s : Nat) : Loading σ
  ExcShare (hmod : UInt32) (client : Nat) : Service σ
  ExcGetImp (hmod index : UInt32) : Loading σ
  ExcGetSect (hmod index : UInt32) (sect : Nat) : Service σ
  ExcQueryProcAddr (hmod ordinal : UInt32) (mName : List UInt8) : Service σ
  ExcQueryModuleHandle (mName : List UInt8) : Service σ
  ExcQueryModuleName (hmod cbSize : UInt32) (addr : Nat) : Service σ
  ExcAllocSharedMem (size : UInt32) (mName : List UInt8) (rights : UInt32) : Service σ
  ExcMapDataspace (addr : Nat) (rights : UInt32) (ds : Dataspace) : Service σ
  ExcUnmapDataspace (addr : Nat) (ds : Dataspace) : Service σ
  ExcGetDataspace (addr : Nat) (client : Nat) : Service σ
  ExcGetSharedMem (pb : Nat) : Service σ
  ExcGetNamedSharedMem (mName : List UInt8) : Service σ
  ExcIncrementSharedMemRefcnt (addr : Nat) : Service σ
  ExcReleaseSharedMem (addr : Nat) : Service σ
  Listed (hmod index : UInt32) (state : σ) : Prop
  not_opened : ∀ {hmod index state}, Listed hmod index state → (ExcGetImp hmod index state).2.1 = []

namespace ExecHost

variable (host : ExecHost σ) (hmod index ordinal flags cbLoadError : UInt32)
  (size rights : UInt32) (fName mName : List UInt8) (addr pb client : Nat)
  (ds err_ds mod_ds sect_ds : Dataspace)

/-- The text goes into the message itself. -/
def test : Handler σ Answer := pass (quiet fun state =>
    (⟨0, [0x71, 0x77, 0x65, 0x72, 0x74, 0x79], fun _ => 0⟩, state))

/-- `open`. -/
def openSession : Handler σ Answer :=
  through host.rm ds fun addr => host.ExcOpen addr cbLoadError fName flags

def load : Handler σ Answer := do
  let addr ← attach host.rm err_ds
  let addr2 ← attach host.rm mod_ds
  call (host.ExcLoad hmod addr cbLoadError addr2) [(err_ds, addr), (mod_ds, addr2)]

def share : Handler σ Answer := pass (quiet (host.ExcShare hmod client))

def getimp : Handler σ Answer := pass (host.ExcGetImp hmod index)

def getsect : Handler σ Answer :=
  through host.rm sect_ds fun sect => quiet (host.ExcGetSect hmod index sect)

def query_procaddr : Handler σ Answer := pass (quiet (host.ExcQueryProcAddr hmod ordinal mName))

def query_modhandle : Handler σ Answer := pass (quiet (host.ExcQueryModuleHandle mName))

def query_modname : Handler σ Answer := through host.rm ds fun addr =>
    quiet (host.ExcQueryModuleName hmod (UInt32.ofNat ds.size) addr)

def alloc_sharemem : Handler σ Answer := pass (quiet (host.ExcAllocSharedMem size mName rights))

def map_dataspace : Handler σ Answer := pass (quiet (host.ExcMapDataspace addr rights ds))

def unmap_dataspace : Handler σ Answer := pass (quiet (host.ExcUnmapDataspace addr ds))

def get_dataspace : Handler σ Answer := pass (quiet (host.ExcGetDataspace addr client))

def get_sharemem : Handler σ Answer := pass (quiet (host.ExcGetSharedMem pb))

def get_named_sharemem : Handler σ Answer := pass (quiet (host.ExcGetNamedSharedMem mName))

def increment_sharemem_refcnt : Handler σ Answer :=
  pass (quiet (host.ExcIncrementSharedMemRefcnt addr))

def release_sharemem : Handler σ Answer := pass (quiet (host.ExcReleaseSharedMem addr))

end ExecHost

/-- A request to the module server. -/
inductive ExecRequest where
  | test
  | openSession (fName : List UInt8) (flags : UInt32) (ds : Dataspace) (cbLoadError : UInt32)
  | load (hmod : UInt32) (err_ds : Dataspace) (cbLoadError : UInt32) (mod_ds : Dataspace)
  | share (hmod : UInt32)
  | getimp (hmod index : UInt32)
  | getsect (hmod index : UInt32) (sect_ds : Dataspace)
  | query_procaddr (hmod ordinal : UInt32) (mName : List UInt8)
  | query_modhandle (mName : List UInt8)
  | query_modname (hmod : UInt32) (ds : Dataspace)
  | alloc_sharemem (size : UInt32) (mName : List UInt8) (rights : UInt32)
  | map_dataspace (addr : Nat) (rights : UInt32) (ds : Dataspace)
  | unmap_dataspace (addr : Nat) (ds : Dataspace)
  | get_dataspace (addr : Nat)
  | get_sharemem (pb : Nat)
  | get_named_sharemem (mName : List UInt8)
  | increment_sharemem_refcnt (addr : Nat)
  | release_sharemem (addr : Nat)

namespace ExecRequest

/-- What the session of a client does for a request. -/
def serve (host : ExecHost σ) (client : Nat) : ExecRequest → Handler σ Answer
  | test => ExecHost.test
  | openSession fName flags ds cbLoadError =>
    host.openSession flags cbLoadError fName ds
  | load hmod err_ds cbLoadError mod_ds => host.load hmod cbLoadError err_ds mod_ds
  | share hmod => host.share hmod client
  | getimp hmod index => host.getimp hmod index
  | getsect hmod index sect_ds => host.getsect hmod index sect_ds
  | query_procaddr hmod ordinal mName => host.query_procaddr hmod ordinal mName
  | query_modhandle mName => host.query_modhandle mName
  | query_modname hmod ds => host.query_modname hmod ds
  | alloc_sharemem size mName rights => host.alloc_sharemem size rights mName
  | map_dataspace addr rights ds => host.map_dataspace rights addr ds
  | unmap_dataspace addr ds => host.unmap_dataspace addr ds
  | get_dataspace addr => host.get_dataspace addr client
  | get_sharemem pb => host.get_sharemem pb
  | get_named_sharemem mName => host.get_named_sharemem mName
  | increment_sharemem_refcnt addr => host.increment_sharemem_refcnt addr
  | release_sharemem addr => host.release_sharemem addr

/-- The dataspaces that a request passes for a transfer. -/
def dataspaces : ExecRequest → List Dataspace
  | openSession _ _ ds _ | getsect _ _ ds | query_modname _ ds => [ds]
  | load _ err_ds _ mod_ds => [err_ds, mod_ds]
  | _ => []

/-- The import that a request asks for is in the list of modules. -/
def ImportListed (host : ExecHost σ) (state : σ) : ExecRequest → Prop
  | getimp hmod index => host.Listed hmod index state
  | _ => True

end ExecRequest

/-- A request of a client to one of the servers. -/
inductive Request where
  | fs (client : Nat) (request : FsRequest)
  | exec (client : Nat) (request : ExecRequest)

/-- The two servers. -/
structure Sessions (σ τ : Type) where
  fs : Server σ
  exec : Server τ

namespace Request

variable (fsHost : FsHost σ) (execHost : ExecHost τ)

/-- What becomes of the servers with a request. -/
def serve (sessions : Sessions σ τ) : Request → Option (Answer × Sessions σ τ)
  | fs _ request => do
      let (answer, server) ← request.serve fsHost sessions.fs
      pure (answer, { sessions with fs := server })
  | exec client request => do
      let (answer, server) ← request.serve execHost client sessions.exec
      pure (answer, { sessions with exec := server })

/-- The dataspaces that a request passes for a transfer. -/
def dataspaces : Request → List Dataspace
  | fs _ request => request.dataspaces
  | exec _ request => request.dataspaces

/-- The request passes no dataspace for a transfer, and if it asks for an import of a
module, that is in the list of modules. -/
def MovesNothing (sessions : Sessions σ τ) : Request → Prop
  | fs _ request => request.dataspaces = []
  | exec _ request =>
    request.dataspaces = [] ∧ request.ImportListed execHost sessions.exec.state

end Request

/-- The same regions are attached in the region maps of the servers. -/
structure SameRegions (sessions sessions' : Sessions σ τ) : Prop where
  fs : ∀ region, region ∈ sessions'.fs.regions ↔ region ∈ sessions.fs.regions
  exec : ∀ region, region ∈ sessions'.exec.regions ↔ region ∈ sessions.exec.regions

/-- Nothing that has been passed is attached any more, and no more bytes have been
moved than each dataspace has. -/
structure TransferEnds (sessions sessions' : Sessions σ τ) (answer : Answer) :
    Prop where
  regions : SameRegions sessions sessions'
  counts : ∀ transfer ∈ answer.transfers, transfer.2 ≤ transfer.1.size

section

variable {rm : RegionMapper} {ds : Dataspace} {addr : Nat} {service : Loading σ}
  {spaces : List (Dataspace × Nat)} {server server' : Server σ} {answer : Answer}

theorem bind_eq_some_iff {α β : Type} {first : Handler σ α}
    {next : α → Handler σ β} {result : β × Server σ} :
    (first >>= next) server = some result ↔ ∃ value middle, first server = some (value, middle) ∧
        next value middle = some result := by
  refine Option.bind_eq_some_iff.trans ?_
  constructor
  · rintro ⟨⟨value, middle⟩, done, rest⟩
    exact ⟨value, middle, done, rest⟩
  · rintro ⟨value, middle, done, rest⟩
    exact ⟨(value, middle), done, rest⟩

theorem attach_spec (attached : attach rm ds server = some (addr, server')) :
    server'.regions = server.regions ++ [⟨addr, ds⟩] ∧
      (⟨addr, ds⟩ : Attached) ∉ server.regions := by
  obtain ⟨found, place, pair⟩ := Option.map_eq_some_iff.mp attached
  cases pair
  refine ⟨rfl, ?_⟩
  intro member
  exact rm.fresh place _ member rfl

theorem call_spec (called : call service spaces server = some (answer, server')) :
    server'.regions = server.regions ++ (service server.state).2.1 ∧
      answer.transfers = spaces.map fun (ds, addr) =>
        (ds, (service server.state).1.moved addr) := by
  cases called
  exact ⟨rfl, rfl⟩

theorem pass_spec (passed : pass service server = some (answer, server'))
    (files : (service server.state).2.1 = []) :
    server'.regions = server.regions ∧ answer.transfers = [] := by
  obtain ⟨regions, transfers⟩ := call_spec passed
  rw [files, List.append_nil] at regions
  exact ⟨regions, transfers⟩

theorem through_attaches {service : Nat → Loading σ}
    (served : through rm ds service server = some (answer, server')) :
    ∃ region ∈ server'.regions, region.ds = ds ∧ region ∉ server.regions := by
  obtain ⟨addr, middle, attached, called⟩ := bind_eq_some_iff.mp served
  obtain ⟨regions, new⟩ := attach_spec attached
  refine ⟨⟨addr, ds⟩, ?_, rfl, new⟩
  rw [(call_spec called).1, regions]
  simp

end

namespace FsRequest

variable {host : FsHost σ} {server server' : Server σ} {answer : Answer}

theorem serve_eq (host : FsHost σ) (request : FsRequest) : (request.dataspaces = [] ∧
      ∃ service, request.serve host = pass (quiet service)) ∨
    ∃ ds service, request.dataspaces = [ds] ∧
      request.serve host = through host.rm ds service := by
  cases request <;>
    first
    | exact .inl ⟨rfl, _, rfl⟩
    | exact .inr ⟨_, _, rfl, rfl⟩

variable {request : FsRequest}

theorem attaches (served : request.serve host server = some (answer, server'))
    {ds : Dataspace} (passed : ds ∈ request.dataspaces) :
    ∃ region ∈ server'.regions, region.ds = ds ∧ region ∉ server.regions := by
  cases request.serve_eq host with
  | inl shape =>
    rw [shape.1] at passed
    cases passed
  | inr shape =>
    obtain ⟨ds', service, dataspaces, serves⟩ := shape
    rw [dataspaces] at passed
    rw [serves] at served
    cases List.mem_singleton.mp passed
    exact through_attaches served

theorem keeps (served : request.serve host server = some (answer, server'))
    (none : request.dataspaces = []) :
    server'.regions = server.regions ∧ answer.transfers = [] := by
  cases request.serve_eq host with
  | inl shape =>
    obtain ⟨-, service, serves⟩ := shape
    rw [serves] at served
    exact pass_spec served rfl
  | inr shape =>
    obtain ⟨ds, -, dataspaces, -⟩ := shape
    cases none.symm.trans dataspaces

end FsRequest

namespace ExecRequest

variable {host : ExecHost σ} {client : Nat} {server server' : Server σ} {answer : Answer}

theorem load_attaches {hmod cbLoadError : UInt32} {err_ds mod_ds : Dataspace}
    (served : host.load hmod cbLoadError err_ds mod_ds server =
      some (answer, server')) {ds : Dataspace} (passed : ds ∈ [err_ds, mod_ds]) :
    ∃ region ∈ server'.regions, region.ds = ds ∧ region ∉ server.regions := by
  obtain ⟨addr, first, attached, rest⟩ := bind_eq_some_iff.mp served
  obtain ⟨addr2, second, attached2, called⟩ := bind_eq_some_iff.mp rest
  obtain ⟨regions, new⟩ := attach_spec attached
  obtain ⟨regions2, new2⟩ := attach_spec attached2
  have all := (call_spec called).1
  rw [regions2, regions] at all
  rw [regions] at new2
  cases passed with
  | head => exact ⟨⟨addr, err_ds⟩, by simp [all], rfl, new⟩
  | tail _ passed =>
    cases List.mem_singleton.mp passed
    exact ⟨⟨addr2, mod_ds⟩, by simp [all], rfl, fun member => new2 (List.mem_append_left _ member)⟩

theorem serve_eq (host : ExecHost σ) (client : Nat) (request : ExecRequest) :
    (∃ hmod index, request = .getimp hmod index) ∨
    (∃ hmod err_ds cbLoadError mod_ds, request = .load hmod err_ds cbLoadError mod_ds) ∨
    (request.dataspaces = [] ∧ ∃ service, request.serve host client = pass (quiet service)) ∨
    ∃ ds service, request.dataspaces = [ds] ∧
      request.serve host client = through host.rm ds service := by
  cases request with
  | getimp => exact .inl ⟨_, _, rfl⟩
  | load => exact .inr (.inl ⟨_, _, _, _, rfl⟩)
  | _ =>
    first
    | exact .inr (.inr (.inl ⟨rfl, _, rfl⟩))
    | exact .inr (.inr (.inr ⟨_, _, rfl, rfl⟩))

variable {request : ExecRequest}

theorem attaches (served : request.serve host client server = some (answer, server'))
    {ds : Dataspace} (passed : ds ∈ request.dataspaces) :
    ∃ region ∈ server'.regions, region.ds = ds ∧ region ∉ server.regions := by
  rcases request.serve_eq host client with
    ⟨hmod, index, rfl⟩ | ⟨hmod, err_ds, cbLoadError, mod_ds, rfl⟩ |
      ⟨none, -⟩ | ⟨ds', service, one, serves⟩
  · cases passed
  · exact load_attaches served passed
  · rw [none] at passed
    cases passed
  · rw [one] at passed
    rw [serves] at served
    cases List.mem_singleton.mp passed
    exact through_attaches served

theorem keeps (served : request.serve host client server = some (answer, server'))
    (none : request.dataspaces = [])
    (listed : request.ImportListed host server.state) :
    server'.regions = server.regions ∧ answer.transfers = [] := by
  rcases request.serve_eq host client with
    ⟨hmod, index, rfl⟩ | ⟨hmod, err_ds, cbLoadError, mod_ds, rfl⟩ |
      ⟨-, service, serves⟩ | ⟨ds, -, one, -⟩
  · exact pass_spec served (host.not_opened listed)
  · cases none
  · rw [serves] at served
    exact pass_spec served rfl
  · cases none.symm.trans one

end ExecRequest

namespace SameRegions

theorem refl (sessions : Sessions σ τ) : SameRegions sessions sessions :=
  ⟨fun _ => Iff.rfl, fun _ => Iff.rfl⟩

theorem trans {sessions middle sessions' : Sessions σ τ}
    (first : SameRegions sessions middle) (second : SameRegions middle sessions') :
    SameRegions sessions sessions' :=
  ⟨fun region => (second.fs region).trans (first.fs region),
    fun region => (second.exec region).trans (first.exec region)⟩

end SameRegions

namespace Request

variable {fsHost : FsHost σ} {execHost : ExecHost τ} {request : Request}
  {start sessions sessions' : Sessions σ τ} {answer : Answer}

section

variable (served : request.serve fsHost execHost sessions = some (answer, sessions'))

include served

theorem serve_cases : (∃ client fsRequest server, request = .fs client fsRequest ∧
      fsRequest.serve fsHost sessions.fs = some (answer, server) ∧
      sessions' = { sessions with fs := server }) ∨
    ∃ client execRequest server, request = .exec client execRequest ∧
      execRequest.serve execHost client sessions.exec = some (answer, server) ∧
      sessions' = { sessions with exec := server } := by
  cases request with
  | fs client request =>
    obtain ⟨⟨answer, server⟩, step, pair⟩ := Option.bind_eq_some_iff.mp served
    cases pair
    exact .inl ⟨client, request, server, rfl, step, rfl⟩
  | exec client request =>
    obtain ⟨⟨answer, server⟩, step, pair⟩ := Option.bind_eq_some_iff.mp served
    cases pair
    exact .inr ⟨client, request, server, rfl, step, rfl⟩

theorem ends_of_movesNothing (nothing : request.MovesNothing execHost sessions) :
    TransferEnds sessions sessions' answer := by
  rcases serve_cases served with
    ⟨client, request, server, rfl, step, rfl⟩ | ⟨client, request, server, rfl, step, rfl⟩
  · obtain ⟨regions, transfers⟩ := request.keeps step nothing
    refine ⟨⟨fun region => ?_, fun _ => Iff.rfl⟩, ?_⟩
    · rw [regions]
    · rw [transfers]
      exact List.forall_mem_nil _
  · obtain ⟨regions, transfers⟩ := request.keeps step nothing.1 nothing.2
    refine ⟨⟨fun _ => Iff.rfl, fun region => ?_⟩, ?_⟩
    · rw [regions]
    · rw [transfers]
      exact List.forall_mem_nil _

theorem not_sameRegions (passes : request.dataspaces ≠ []) : ¬ SameRegions sessions sessions' := by
  intro same
  obtain ⟨ds, passed⟩ := List.exists_mem_of_ne_nil _ passes
  rcases serve_cases served with
    ⟨client, request, server, rfl, step, rfl⟩ | ⟨client, request, server, rfl, step, rfl⟩
  · obtain ⟨region, member, -, new⟩ := request.attaches step passed
    exact new ((same.fs region).mp member)
  · obtain ⟨region, member, -, new⟩ := request.attaches step passed
    exact new ((same.exec region).mp member)

end

end Request

/-- A step with a request that moves nothing. -/
def QuietStep (fsHost : FsHost σ) (execHost : ExecHost τ)
    (sessions sessions' : Sessions σ τ) : Prop :=
  ∃ request answer, Request.MovesNothing execHost sessions request ∧
    request.serve fsHost execHost sessions = some (answer, sessions')

/-- While requests move nothing the regions stay, and each request ends as it should.
The first request that passes a dataspace leaves a region behind. -/
theorem transfers_end {fsHost : FsHost σ} {execHost : ExecHost τ}
    {start sessions sessions' : Sessions σ τ} {request : Request} {answer : Answer}
    (run : RunsTo (QuietStep fsHost execHost) start sessions)
    (served : request.serve fsHost execHost sessions = some (answer, sessions')) :
    SameRegions start sessions ∧ (request.MovesNothing execHost sessions →
        TransferEnds sessions sessions' answer) ∧
      (request.dataspaces ≠ [] → ¬ SameRegions sessions sessions') := by
  refine ⟨?_, Request.ends_of_movesNothing served, Request.not_sameRegions served⟩
  refine run.preserves (fun middle middle' same step => ?_) (SameRegions.refl start)
  obtain ⟨request, answer, nothing, served⟩ := step
  exact same.trans (Request.ends_of_movesNothing served nothing).regions

/-- A dataspace is attached behind all regions. -/
def behindAll : RegionMapper where
  attach regions _ := some (regions.foldr (fun region top =>
      max top (region.addr + region.ds.size + 1)) 1)
  fresh := by
    intro regions ds addr attached region member same
    cases attached
    have above : region.addr < regions.foldr
        (fun region top => max top (region.addr + region.ds.size + 1)) 1 := by
      clear same
      induction regions with
      | nil => cases member
      | cons first rest ih =>
        cases member with
        | head => exact Nat.lt_of_lt_of_le (by omega) (Nat.le_max_right _ _)
        | tail _ member =>
          exact Nat.lt_of_lt_of_le (ih member) (Nat.le_max_left _ _)
    exact (Nat.ne_of_lt above) same

/-- ERROR_INVALID_HANDLE is 6. -/
def invalidHandle : Service σ := fun state => (⟨6, [], fun _ => 0⟩, state)

/-- An open file of which so many bytes are still to be read. -/
def openFile : FsHost UInt32 where
  rm := behindAll
  read _ count left :=
    if left ≤ count then (some left, 0) else (some count, left - count)
  write _ _ left := (none, left)
  FSGetDriveMap := invalidHandle
  FSResetBuffer _ := invalidHandle
  FSSetFilePtrL _ _ _ := invalidHandle
  FSClose _ := invalidHandle
  FSQueryHType _ := invalidHandle
  FSOpenL _ _ _ _ _ := invalidHandle
  FSDupHandle _ _ := invalidHandle
  FSDelete _ := invalidHandle
  FSForceDelete _ := invalidHandle
  FSDeleteDir _ := invalidHandle
  FSCreateDir _ _ := invalidHandle
  FSFindFirst _ _ _ _ _ _ _ := invalidHandle
  FSFindNext _ _ _ _ := invalidHandle
  FSFindClose _ := invalidHandle
  FSQueryFHState _ := invalidHandle
  FSSetFHState _ _ := invalidHandle
  FSQueryFileInfo _ _ _ _ := invalidHandle
  FSQueryPathInfo _ _ _ _ := invalidHandle
  FSSetFileSizeL _ _ := invalidHandle
  FSSetFileInfo _ _ _ _ := invalidHandle
  FSSetPathInfo _ _ _ _ _ := invalidHandle
  read_le := by
    intro hFile count state nread found
    split at found
    · cases found
      assumption
    · cases found
      exact UInt32.le_refl _
  write_le := by
    intro hFile count state nwritten found
    cases found

/-- A module server without modules. -/
def noModules : ExecHost Unit where
  rm := behindAll
  ExcOpen _ _ _ _ := quiet invalidHandle
  ExcLoad _ _ _ _ := quiet invalidHandle
  ExcShare _ _ := invalidHandle
  ExcGetImp _ _ := quiet invalidHandle
  ExcGetSect _ _ _ := invalidHandle
  ExcQueryProcAddr _ _ _ := invalidHandle
  ExcQueryModuleHandle _ := invalidHandle
  ExcQueryModuleName _ _ _ := invalidHandle
  ExcAllocSharedMem _ _ _ := invalidHandle
  ExcMapDataspace _ _ _ := invalidHandle
  ExcUnmapDataspace _ _ := invalidHandle
  ExcGetDataspace _ _ := invalidHandle
  ExcGetSharedMem _ := invalidHandle
  ExcGetNamedSharedMem _ := invalidHandle
  ExcIncrementSharedMemRefcnt _ := invalidHandle
  ExcReleaseSharedMem _ := invalidHandle
  Listed _ _ _ := False
  not_opened := False.elim

/-- Servers in which nothing is attached, and a file of 8192 bytes is open. -/
def fileSessions : Sessions UInt32 Unit := ⟨⟨[], 8192⟩, ⟨[], ()⟩⟩

/-- A read of 8192 bytes into a dataspace of 4096. -/
def longRead : Request := .fs 1 (.dos_Read 3 ⟨7, 4096⟩ 8192)

/-- The dataspace stays attached, and more bytes are moved than it has. -/
theorem read_leaves_region : ∃ answer sessions', longRead.serve openFile noModules fileSessions =
        some (answer, sessions') ∧
      sessions'.fs.regions = [⟨1, ⟨7, 4096⟩⟩] ∧
      ¬ SameRegions fileSessions sessions' ∧
      answer.transfers = [(⟨7, 4096⟩, 8192)] := by
  refine ⟨_, _, rfl, rfl, ?_, rfl⟩
  intro same
  cases (same.fs _).mp (List.mem_singleton_self _)

/-- A file is closed, and the next request is the read. -/
theorem transfers_end_read : ∃ answer sessions', longRead.serve openFile noModules fileSessions =
        some (answer, sessions') ∧
      SameRegions fileSessions fileSessions ∧
      ¬ SameRegions fileSessions sessions' := by
  refine ⟨_, _, rfl, ?_⟩
  have step : QuietStep openFile noModules fileSessions fileSessions :=
    ⟨.fs 1 (.dos_Close 4), _, rfl, rfl⟩
  obtain ⟨same, -, left⟩ := transfers_end (.single step) (show longRead.serve openFile noModules
      fileSessions = some _ from rfl)
  exact ⟨same, left (List.cons_ne_nil _ _)⟩

end OsFree.Os2fs
