import OsFree.Handle.Table
import OsFree.Machine.Transition

/-!
# Event semaphores

The server has a pointer to a table of semaphores, to which nothing is ever
assigned.  A semaphore is created with one user, every open adds one, and the
last close should end it.
-/

namespace OsFree.Os2srv

open Machine Handle

/-- `CCHMAXPATH`. -/
def CCHMAXPATH : Nat := 260

/-- The members of `SEM` behind the pointer: the name, whether it is shared, its
type and the count of its users. -/
def SEM_NAME : UInt32 := 4
def SEM_SHARED : UInt32 := 264
def SEM_TYPE : UInt32 := 265
def SEM_REFCNT : UInt32 := 268

/-- `\SEM32\`. -/
def sem32 : List UInt8 := [0x5c, 0x53, 0x45, 0x4d, 0x33, 0x32, 0x5c]

/-- Copy a string to a field, filled up with zeros, and end it. -/
def fieldOf (name : List UInt8) : List UInt8 := (name.take (CCHMAXPATH - 1)) ++
    List.replicate (CCHMAXPATH - min name.length (CCHMAXPATH - 1)) 0

/-- The global variable `htSem`; a null pointer is `none`. -/
structure SemServer where
  htSem : Option HandleState

/-- What a request that creates a semaphore meets outside: the allocator, the
answer to the request that the server sends to open the name, and the address of
the local variable for the pointer to the semaphore. -/
structure SemWorld where
  malloc : Malloc
  opened : UInt32
  sem : UInt32

/-- The code of a request and what is in the place for the handle after it. -/
structure SemAnswer where
  rc : UInt32
  phev : Option UInt32
  deriving DecidableEq

/-- The string is there and not empty. -/
def isNamed : Option (List UInt8) → Bool
  | some (_ :: _) => true
  | _ => false

/-- A new semaphore in its entry. -/
def initSem (memory : Memory) (sem : UInt32) (pszName : Option (List UInt8))
    (flAttr : UInt32) : Memory :=
  let memory :=
    match pszName with
    | some (c :: name) =>
      (memory.store ⟨sem + SEM_NAME, fieldOf (c :: name)⟩).store ⟨sem + SEM_SHARED, [1]⟩
    | _ => memory.store ⟨sem + SEM_SHARED, [flAttr.toUInt8]⟩
  (memory.store ⟨sem + SEM_TYPE, [0]⟩).putLong (sem + SEM_REFCNT) 1

namespace SemServer

variable (server : SemServer)

/-- Create a semaphore.  ERROR_INVALID_PARAMETER is 87, ERROR_INVALID_NAME 123
and ERROR_DUPLICATE_NAME 285. -/
def cpCreateEventSem (world : SemWorld) (pszName : Option (List UInt8))
    (flAttr fState : UInt32) : Run (SemAnswer × SemServer) :=
  if 1 < fState ∨ 1 < flAttr then .ok (⟨87, none⟩, server)
  else if isNamed pszName ∧ ¬ sem32 <+: pszName.getD [] then
    .ok (⟨123, none⟩, server)
  else if world.opened = 0 then .ok (⟨285, none⟩, server)
  else
    match server.htSem with
    | none => .error .nullPointer
    | some table => do
        let (taken, table) ← table.hndAllocateHandle world.malloc world.sem
        match taken with
        | .error rc => pure (⟨rc, none⟩, ⟨some table⟩)
        | .ok entry =>
          let memory := initSem table.memory entry.handle pszName flAttr
          pure (⟨0, some entry.index⟩, ⟨some { table with memory }⟩)

/-- Open a semaphore.  With a place for the handle, the test for the name either
refuses it or reads through a null pointer; without one, the place is read. -/
def cpOpenEventSem (pszName : Option (List UInt8)) (phev : Option UInt32) :
    Run (SemAnswer × SemServer) :=
  match phev, pszName with
  | none, _ => .error .nullPointer
  | some _, none => .error .nullPointer
  | some hev, some _ => .ok (⟨87, some hev⟩, server)

/-- Close a semaphore. -/
def cpCloseEventSem (_hev : UInt32) : Run (SemAnswer × SemServer) := .ok (⟨0, none⟩, server)

/-- The entry of a handle, if it is valid. -/
def semOf (hev : UInt32) : Option (HandleState × UInt32) := server.htSem.bind fun table =>
    (table.hndIsValidIndexHandle hev).map (table, ·)

end SemServer

/-- A request of a process. -/
inductive SemRequest where
  | create (world : SemWorld) (pszName : Option (List UInt8)) (flAttr fState : UInt32)
  | openSem (pszName : Option (List UInt8)) (phev : Option UInt32)
  | close (hev : UInt32)

/-- What the server does for a request. -/
def SemServer.serve (server : SemServer) : SemRequest → Run (SemAnswer × SemServer)
  | .create world pszName flAttr fState =>
    server.cpCreateEventSem world pszName flAttr fState
  | .openSem pszName phev => server.cpOpenEventSem pszName phev
  | .close hev => server.cpCloseEventSem hev

/-- A semaphore that has been created and opened more often than closed; an
empty name is none. -/
structure LiveSem where
  hev : UInt32
  name : List UInt8
  users : Nat

/-- The semaphore that a request to open asks for: by its name, or without a
name by its handle. -/
def asked (live : List LiveSem) (pszName : Option (List UInt8))
    (phev : Option UInt32) : Option LiveSem :=
  match pszName with
  | some (c :: name) => live.find? fun sem => sem.name = c :: name
  | _ => live.find? fun sem => some sem.hev = phev

/-- One more user of a handle. -/
def opened (live : List LiveSem) (hev : UInt32) : List LiveSem := live.map fun sem =>
    if sem.hev = hev then { sem with users := sem.users + 1 } else sem

/-- One user of a handle less; without users a semaphore is gone. -/
def closed (live : List LiveSem) (hev : UInt32) : List LiveSem := (live.map fun sem =>
    if sem.hev = hev then { sem with users := sem.users - 1 } else sem).filter
      fun sem => sem.users ≠ 0

/-- The semaphores after a request, as the answers count them. -/
def account (live : List LiveSem) (request : SemRequest) (answer : SemAnswer) :
    List LiveSem :=
  if answer.rc ≠ 0 then live
  else
    match request, answer.phev with
    | .create _ pszName _ _, some hev => live ++ [⟨hev, pszName.getD [], 1⟩]
    | .openSem _ _, some hev => opened live hev
    | .close hev, _ => closed live hev
    | _, none => live

/-- A request to create a semaphore has good parameters and a good name. -/
def GoodRequest (pszName : Option (List UInt8)) (flAttr fState : UInt32) : Prop :=
  fState ≤ 1 ∧ flAttr ≤ 1 ∧ (isNamed pszName → sem32 <+: pszName.getD [])

/-- The name of a request is that of a semaphore that lives. -/
def NameLives (live : List LiveSem) (pszName : Option (List UInt8)) : Prop :=
  isNamed pszName ∧ ∃ sem ∈ live, sem.name = pszName.getD []

/-- What the answer to a request should be: a bad request and a name that lives
are refused, a good one makes a new handle unless there are no more, and a handle
or name that does not live is refused.  ERROR_TOO_MANY_HANDLES is 290. -/
def Right (live : List LiveSem) : SemRequest → SemAnswer → Prop
  | .create _ pszName flAttr fState, answer =>
    (¬ GoodRequest pszName flAttr fState ∨ NameLives live pszName → answer.rc ≠ 0) ∧
    (GoodRequest pszName flAttr fState ∧ ¬ NameLives live pszName → answer.rc = 290 ∨
        answer.rc = 0 ∧ ∃ hev, answer.phev = some hev ∧ ∀ sem ∈ live, sem.hev ≠ hev)
  | .openSem pszName phev, answer =>
    match asked live pszName phev with
    | some sem => answer.rc = 0 ∧ answer.phev = some sem.hev
    | none => answer.rc ≠ 0
  | .close hev, answer => answer.rc = 0 ↔ ∃ sem ∈ live, sem.hev = hev

/-- The string in the field for the name of an entry. -/
def nameAt (memory : Memory) (sem : UInt32) : List UInt8 := ((List.range CCHMAXPATH).map fun i =>
    memory (sem + SEM_NAME + UInt32.ofNat i)).takeWhile (· ≠ 0)

/-- The server with the semaphores that live. -/
structure SemState where
  server : SemServer
  live : List LiveSem

namespace SemState

/-- No name lives twice, and the valid handles of the table are those of the
semaphores that live, with their names and counts. -/
structure Good (state : SemState) : Prop where
  unique : ((state.live.map LiveSem.name).filter (· ≠ [])).Nodup
  valid : ∀ hev, (∃ entry, state.server.semOf hev = some entry) ↔ ∃ sem ∈ state.live, sem.hev = hev
  holds : ∀ sem ∈ state.live, ∀ table entry, state.server.semOf sem.hev = some (table, entry) →
      nameAt table.memory entry = sem.name ∧
        (table.memory.long (entry + SEM_REFCNT)).toNat = sem.users

/-- The state after an answer. -/
def after (state : SemState) (request : SemRequest)
    (outcome : SemAnswer × SemServer) : SemState where
  server := outcome.2
  live := account state.live request outcome.1

/-- The request comes back with the right answer, changes nothing if it is
refused, and the table is right after it. -/
def Meets (state : SemState) (request : SemRequest) : Prop :=
  ∃ outcome, state.server.serve request = .ok outcome ∧ Right state.live request outcome.1 ∧
    (outcome.1.rc ≠ 0 → outcome.2 = state.server) ∧
    (state.after request outcome).Good

/-- A step for any request that comes back. -/
def Step (state state' : SemState) : Prop :=
  ∃ request outcome, state.server.serve request = .ok outcome ∧ state' = state.after request outcome

end SemState

/-- A request that the server refuses without its table: bad parameters or a bad
name of a new semaphore, or a name to open. -/
def SemRequest.Refused : SemRequest → Prop
  | .create _ pszName flAttr fState => ¬ GoodRequest pszName flAttr fState
  | .openSem pszName phev => pszName ≠ none ∧ phev ≠ none
  | .close _ => False

namespace SemState

/-- The server when it starts. -/
def initial : SemState := ⟨⟨none⟩, []⟩

theorem cpCreateEventSem_of_bad (server : SemServer) (world : SemWorld)
    {pszName : Option (List UInt8)} {flAttr fState : UInt32}
    (bad : ¬ GoodRequest pszName flAttr fState) :
    ∃ rc, rc ≠ 0 ∧ server.cpCreateEventSem world pszName flAttr fState =
      .ok (⟨rc, none⟩, server) := by
  unfold SemServer.cpCreateEventSem
  split
  · exact ⟨87, by decide, rfl⟩
  · rename_i parameters
    split
    · exact ⟨123, by decide, rfl⟩
    · rename_i name
      refine absurd ⟨?_, ?_, ?_⟩ bad
      · exact UInt32.not_lt.mp fun large => parameters (Or.inl large)
      · exact UInt32.not_lt.mp fun large => parameters (Or.inr large)
      · intro named
        by_contra other
        exact name ⟨named, other⟩

theorem cpCreateEventSem_of_good {world : SemWorld}
    {pszName : Option (List UInt8)} {flAttr fState : UInt32}
    (good : GoodRequest pszName flAttr fState) :
    (⟨none⟩ : SemServer).cpCreateEventSem world pszName flAttr fState =
      if world.opened = 0 then .ok (⟨285, none⟩, ⟨none⟩)
      else .error .nullPointer := by
  obtain ⟨state, attributes, name⟩ := good
  unfold SemServer.cpCreateEventSem
  rw [if_neg, if_neg]
  · exact fun bad => bad.2 (name bad.1)
  · exact not_or.mpr ⟨UInt32.not_lt.mpr state, UInt32.not_lt.mpr attributes⟩

theorem serve_of_refused (server : SemServer) {request : SemRequest} (refused : request.Refused) :
    ∃ answer, answer.rc ≠ 0 ∧ server.serve request = .ok (answer, server) := by
  cases request with
  | create world pszName flAttr fState =>
    obtain ⟨rc, code, served⟩ := cpCreateEventSem_of_bad server world refused
    exact ⟨_, code, served⟩
  | openSem pszName phev =>
    obtain ⟨name, rfl⟩ := Option.ne_none_iff_exists'.mp refused.1
    obtain ⟨hev, rfl⟩ := Option.ne_none_iff_exists'.mp refused.2
    exact ⟨⟨87, some hev⟩, show (87 : UInt32) ≠ 0 by decide, rfl⟩
  | close hev => cases refused

theorem after_of_refused {state : SemState} {request : SemRequest}
    {answer : SemAnswer} (code : answer.rc ≠ 0) :
    state.after request (answer, state.server) = state := by
  unfold after account
  rw [if_pos code]

theorem initial_good : initial.Good where
  unique := List.nodup_nil
  valid hev := by simp [initial, SemServer.semOf]
  holds sem member := by cases member

theorem after_initial {request : SemRequest} {outcome : SemAnswer × SemServer}
    (served : initial.server.serve request = .ok outcome) :
    initial.after request outcome = initial := by
  by_cases refused : request.Refused
  · obtain ⟨answer, code, equal⟩ := serve_of_refused initial.server refused
    cases equal.symm.trans served
    exact after_of_refused code
  · cases request with
    | create world pszName flAttr fState =>
      have answered : initial.server.serve
          (.create world pszName flAttr fState) = _ :=
        cpCreateEventSem_of_good (Classical.not_not.mp refused)
      rw [answered] at served
      split at served
      · cases served
        exact after_of_refused (by decide)
      · cases served
    | openSem pszName phev =>
      refine absurd ⟨?_, ?_⟩ refused
      · rintro rfl
        cases phev with
        | none => cases served
        | some hev => cases served
      · rintro rfl
        cases served
    | close hev =>
      cases served
      rfl

theorem initial_meets_iff (request : SemRequest) :
    initial.Meets request ↔ request.Refused := by
  constructor
  · rintro ⟨outcome, served, right, -⟩
    by_contra other
    cases request with
    | create world pszName flAttr fState =>
      have good := Classical.not_not.mp other
      have answered : initial.server.serve
          (.create world pszName flAttr fState) = _ :=
        cpCreateEventSem_of_good good
      rw [answered] at served
      have fresh : ¬ NameLives initial.live pszName := by
        rintro ⟨-, sem, member, -⟩
        cases member
      split at served
      · cases served
        cases right.2 ⟨good, fresh⟩ with
        | inl full => exact absurd full (by decide)
        | inr made => exact absurd made.1 (by decide)
      · cases served
    | openSem pszName phev =>
      refine other ⟨?_, ?_⟩
      · rintro rfl
        cases phev with
        | none => cases served
        | some hev => cases served
      · rintro rfl
        cases served
    | close hev =>
      cases served
      obtain ⟨sem, member, -⟩ := right.mp rfl
      cases member
  · intro refused
    obtain ⟨answer, code, served⟩ := serve_of_refused initial.server refused
    refine ⟨_, served, ?_, fun _ => rfl, ?_⟩
    · cases request with
      | create world pszName flAttr fState =>
        exact ⟨fun _ => code, fun good => absurd good.1 refused⟩
      | openSem pszName phev =>
        have nothing : asked initial.live pszName phev = none := by
          unfold asked
          split
          · rfl
          · rfl
        simp only [Right, nothing]
        exact code
      | close hev => cases refused
    · rw [after_of_refused code]
      exact initial_good

/-- In every run there are no semaphores, the table is right, and a request meets
what is claimed exactly if the server refuses it without its table. -/
theorem meets_of_run {state : SemState} (run : RunsTo Step initial state) (request : SemRequest) :
    state.Good ∧ (state.Meets request ↔ request.Refused) := by
  have same : state = initial := by
    refine @RunsTo.preserves _ _ (· = initial) _ _ ?_ run rfl
    rintro state state' rfl ⟨request, outcome, served, rfl⟩
    exact after_initial served
  rw [same]
  exact ⟨initial_good, initial_meets_iff request⟩

/-- A run that closes a handle that does not live. -/
theorem closeFive_meets : initial.Good ∧ (initial.Meets (.openSem (some sem32) (some 0)) ↔
      SemRequest.Refused (.openSem (some sem32) (some 0))) :=
  meets_of_run (Relation.ReflTransGen.single ⟨.close 5, (⟨0, none⟩, ⟨none⟩), rfl, rfl⟩) _

/-- A handle that does not live is closed with success, and a new semaphore is
never made. -/
theorem closeFive_not_meets : ¬ initial.Meets (.close 5) ∧
    ∀ world, ¬ initial.Meets (.create world none 0 0) := by
  constructor
  · rw [initial_meets_iff]
    exact not_false
  · intro world
    rw [initial_meets_iff]
    exact fun bad => bad ⟨by decide, by decide, nofun⟩

end SemState

end OsFree.Os2srv
