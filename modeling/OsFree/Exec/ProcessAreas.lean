import OsFree.Exec.SharedMem

/-!
# Processes that share memory

Every process keeps a list of its own areas, and asks the server for shared
ones.  A call makes one request to the server, so calls of different processes
can be taken as done one after the other, in the order of these requests.
-/

namespace OsFree.Exec

open Machine
open Modmgr (Name)
open Kal

/-- The list of the areas of a process. -/
abbrev OwnAreas := AreaServer

/-- The server, and the list of every process. -/
structure AreaSystem where
  server : AreaServer
  own : Nat → OwnAreas

/-- The capital letter for a small one. -/
def toUpper (c : UInt8) : UInt8 :=
  if 0x61 ≤ c ∧ c ≤ 0x7a then c - 0x20 else c

/-- `\SHAREMEM\`. -/
def sharemem : Name := [0x5c, 0x53, 0x48, 0x41, 0x52, 0x45, 0x4d, 0x45, 0x4d, 0x5c]

/-- What the calls come to that allocating a shared area makes: those of the
server, the own region mapper that reserves the range in an area or not, room
for another record, and the code of committing the memory. -/
structure AllocOutcome where
  reserved : Option (Nat × Nat)
  room : Bool
  area : Option Nat
  ownRoom : Bool
  committed : UInt32
  deriving DecidableEq

/-- What the calls come to that freeing an area makes: the code of the server,
whether the dataspaces have all been detached, and whether the own region mapper
releases the range. -/
structure FreeOutcome where
  released : UInt32
  detached : Bool
  ownReleased : Bool
  deriving DecidableEq

/-- What the calls come to that getting a shared area makes: the own region
mapper reserves a range in an area or none, room for another record, and the
code of attaching the dataspaces. -/
structure GetOutcome where
  reserved : Option (Nat × Nat)
  ownRoom : Bool
  attached : UInt32
  deriving DecidableEq

/-- A call of a process, with what the calls that it makes come to. -/
inductive ProcessCall where
  | alloc (name : Option Name) (size : Nat) (flags : UInt32) (outcome : AllocOutcome)
  | free (pb : Nat) (outcome : FreeOutcome)
  | get (pb : Nat) (flags : UInt32) (outcome : GetOutcome)
  | getNamed (name : Name) (flags : UInt32) (outcome : GetOutcome)
  deriving DecidableEq

namespace AreaServer

variable (own : OwnAreas)

/-- Add a record to the own list. -/
def addOwn (area : VmData) : Run OwnAreas :=
  (fun areas => { areas, areasList := some own.areas.fresh }) <$> own.areas.push own.areasList area

/-- Take a shared area that the server has given into the own list, unless the
address is in an area of it already.  The range is reserved where the server has
it, or anywhere. -/
def takeArea (name : Name) (anywhere : Bool) (addr size : Nat)
    (owner : Option Nat) (flags : UInt32) (outcome : GetOutcome) (fuel : Nat) :
    Option (Run (UInt32 × OwnAreas)) :=
  andThen (own.areas.getArea own.areasList addr fuel) fun
    | some ptr =>
      some ((fun areas => (outcome.attached, { own with areas })) <$>
        own.areas.modify ptr fun area =>
          { area with rights := area.rights ||| flags })
    | none =>
      match outcome.reserved with
      | none => some (.ok (8, own))
      | some (place, area) =>
        if outcome.ownRoom then
          some do
            let copied ← copyName name
            let own ← own.addOwn
              { name := some copied, isShared := some true, owner,
                refcnt := none, rights := flags, area,
                addr := if anywhere then place else addr, size,
                next := none, prev := none }
            return (outcome.attached, own)
        else some (.ok (8, own))

end AreaServer

namespace AreaSystem

/-- The system before the first call. -/
def initial : AreaSystem where
  server := AreaServer.initial
  own := fun _ => AreaServer.initial

variable (system : AreaSystem)

/-- The system after a call of a process. -/
def after (process : Nat) (server : AreaServer) (own : OwnAreas) : AreaSystem where
  server := server
  own := fun other => if other = process then own else system.own other

/-- Ask the server for a new area, and add it to the own list. -/
def allocNew (process : Nat) (name : Name) (size : Nat) (flags : UInt32)
    (outcome : AllocOutcome) : Run (UInt32 × AreaSystem) := do
  let own := system.own process
  let (answer, server) ← system.server.excAllocSharedMem size (some name) flags
    outcome.reserved outcome.room
  if answer.rc ≠ 0 then return (8, system.after process server own)
  else
    let addr ← stored answer.addr
    match outcome.area with
    | none => return (8, system.after process server own)
    | some area =>
      if outcome.ownRoom then
        let copied ← copyName name
        let own ← own.addOwn
          { name := some copied, isShared := some true, owner := some process,
            refcnt := none, rights := flags, area, addr, size, next := none,
            prev := none }
        let rc := if flags &&& 0x10 ≠ 0 then outcome.committed else 0
        return (rc, system.after process server own)
      else return (8, system.after process server own)

/-- Allocate shared memory, with or without a name. -/
def kalAllocSharedMem (process : Nat) (name : Option Name) (size : Nat)
    (flags : UInt32) (outcome : AllocOutcome) (fuel : Nat) :
    Option (Run (UInt32 × AreaSystem)) :=
  match name with
  | none => some (system.allocNew process [] size flags outcome)
  | some name =>
    let name := name.map toUpper
    if sharemem <+: name then
      andThen ((system.own process).areas.getMemByName (system.own process).areasList name fuel) fun
        | some _ => some (.ok (183, system))
        | none => some (system.allocNew process name size flags outcome)
    else some (.ok (123, system))

/-- Give the reference to a shared area back to the server. -/
def releaseShared (shared : Bool) (addr : Nat) (released : UInt32)
    (fuel : Nat) : Option (Run (UInt32 × AreaServer)) :=
  if shared then
    andThen (system.server.excReleaseSharedMem addr released fuel) fun
      | (answer, server) => some (.ok (answer.count.getD 0, server))
  else some (.ok (0, system.server))

/-- Free the area at an address.  Its record is taken out of the own list when
there are no further references; the head of the list is not changed. -/
def kalFreeMem (process : Nat) (pb : Nat) (outcome : FreeOutcome)
    (fuel : Nat) : Option (Run (UInt32 × AreaSystem)) :=
  let own := system.own process
  andThen (own.areas.getArea own.areasList pb fuel) fun
    | none => some (.ok (487, system))
    | some ptr =>
      andThen (some (own.areas.read ptr)) fun area =>
        andThen (some (stored area.isShared)) fun shared =>
          andThen (system.releaseShared shared area.addr outcome.released fuel) fun
            | (refcnt, server) =>
              if !outcome.detached then
                some (.ok (487, system.after process server own))
              else if refcnt ≠ 0 then
                some (.ok (0, system.after process server own))
              else if !outcome.ownReleased then
                some (.ok (5, system.after process server own))
              else
                some ((fun areas =>
                    (0, system.after process server { own with areas })) <$>
                  own.areas.unlink ptr)

/-- Take what the server answers into the own list. -/
def getAnswered (process : Nat) (name : Name) (anywhere : Bool)
    (flags : UInt32) (outcome : GetOutcome) (fuel : Nat) (answer : Answer)
    (server : AreaServer) : Option (Run (UInt32 × AreaSystem)) :=
  let own := system.own process
  if answer.rc ≠ 0 then some (.ok (2, system.after process server own))
  else
    andThen (some (stored answer.addr)) fun addr =>
      andThen (some (stored answer.size)) fun size =>
        andThen (own.takeArea name anywhere addr size answer.owner flags
            outcome fuel) fun (rc, own) => some (.ok (rc, system.after process server own))

/-- Get the shared area at an address; its name is not known. -/
def kalGetSharedMem (process : Nat) (pb : Nat) (flags : UInt32)
    (outcome : GetOutcome) (fuel : Nat) : Option (Run (UInt32 × AreaSystem)) :=
  andThen (system.server.excGetSharedMem pb fuel) fun
    | (answer, server) =>
      system.getAnswered process [] true flags outcome fuel answer server

/-- Get the shared area with a name. -/
def kalGetNamedSharedMem (process : Nat) (name : Name) (flags : UInt32)
    (outcome : GetOutcome) (fuel : Nat) : Option (Run (UInt32 × AreaSystem)) :=
  let name := name.map toUpper
  if sharemem <+: name then
    andThen (system.server.excGetNamedSharedMem name fuel) fun
      | (answer, server) =>
        system.getAnswered process name false flags outcome fuel answer server
  else some (.ok (123, system))

/-- What a call of a process does, as far as the fuel goes. -/
def call (process : Nat) (fuel : Nat) : ProcessCall → Option (Run (UInt32 × AreaSystem))
  | .alloc name size flags outcome =>
    system.kalAllocSharedMem process name size flags outcome fuel
  | .free pb outcome => system.kalFreeMem process pb outcome fuel
  | .get pb flags outcome =>
    system.kalGetSharedMem process pb flags outcome fuel
  | .getNamed name flags outcome =>
    system.kalGetNamedSharedMem process name flags outcome fuel

/-- A live area has this name. -/
def Live (ptr : Nat) (name : Name) : Prop := ∃ area, system.server.areas.objects ptr = some area ∧
    area.name = some name ∧ ∃ count, count ≠ 0 ∧ area.refcnt = some count

/-- The name that the server is asked for, unless the call is refused. -/
def requested : Option Name → Option Name
  | none => some []
  | some name =>
    if sharemem <+: name.map toUpper then some (name.map toUpper) else none

/-- A name of a live area is requested by a process only that has an area with
this name itself, or when the server has no room; the calls of the server are
allowed; and the area that is taken out of the list of a process is not the head
of this list. -/
def Allowed (process : Nat) : ProcessCall → Prop
  | .alloc name _ _ outcome => ∀ asked, requested name = some asked →
      (∃ ptr, (system.own process).FindsName asked ptr) ∨
        outcome.reserved = none ∨ outcome.room = false ∨
        (asked.length < 256 ∧ (asked = [] ∨ ∀ ptr, ¬ system.Live ptr asked))
  | .free pb outcome => ∀ ptr area, (system.own process).FindsArea pb ptr →
      (system.own process).areas.objects ptr = some area → (area.isShared = some true →
          system.server.Allowed (.release area.addr outcome.released)) ∧
        ((system.own process).areasList = some ptr →
          outcome.detached = false ∨ outcome.ownReleased = false ∨
            (area.isShared = some true ∧ ∃ found, system.server.FindsArea area.addr found ∧
                ¬ system.server.HasCount found 1))
  | .get pb _ _ => system.server.Allowed (.get pb)
  | .getNamed name _ _ => sharemem <+: name.map toUpper →
      system.server.Allowed (.getNamed (name.map toUpper))

/-- A call of a process that is allowed. -/
def AllowedStep (system system' : AreaSystem) : Prop :=
  ∃ process call fuel rc, system.Allowed process call ∧
    system.call process fuel call = some (.ok (rc, system'))

/-- There is one live area for a name at most, the server finds exactly this
area, and it cannot be allocated again. -/
structure NamesUnique : Prop where
  unique : ∀ ptr other name, name ≠ [] → system.Live ptr name → system.Live other name → ptr = other
  finds : ∀ name ptr, system.server.FindsName name ptr ↔ name ≠ [] ∧ system.Live ptr name
  gets : ∀ name ptr area, name ≠ [] → system.Live ptr name →
    system.server.areas.objects ptr = some area →
      ∃ fuel answer server', system.server.excGetNamedSharedMem name fuel =
        some (.ok (answer, server')) ∧ answer.rc = 0 ∧
          answer.addr = some area.addr ∧ answer.size = some area.size
  unnamed : ∀ ptr, system.Live ptr [] → ∀ name, ¬ system.server.FindsName name ptr
  refused : ∀ process name ptr size flags outcome,
    name.map toUpper ≠ [] → system.Live ptr (name.map toUpper) →
      system.Allowed process (.alloc (some name) size flags outcome) →
        ∃ fuel rc, rc ≠ 0 ∧ system.call process fuel
          (.alloc (some name) size flags outcome) = some (.ok (rc, system))

end AreaSystem

end OsFree.Exec
