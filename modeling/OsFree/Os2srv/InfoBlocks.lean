import Mathlib.Logic.Function.Basic
import Mathlib.Tactic.Simps.Basic
import OsFree.Machine.Transition
import OsFree.Os2srv.Pib

/-!
# Sharing the information blocks

A client asks for the block of its process or of a thread.  The server turns the
pointers in the block into offsets, the client attaches the block and turns them
into pointers of its own, and both do so in the memory that they share.
-/

namespace OsFree.Os2srv

open Machine

/-- The offset of `tib_ptib2`. -/
def TIB_PTIB2 : Nat := 12

/-- `sizeof(TIB)`. -/
def TIB_SIZE : Nat := 32

/-- `sizeof(TIB2)`. -/
def TIB2_SIZE : Nat := 16

/-- Whether the region mapper knows the block, whether the dataspace can be
shared, and where the client attaches it. -/
structure ShareAnswers where
  lookup : Bool
  share : Bool
  attach : Option UInt32
  deriving DecidableEq

/-- Change the pointers in some fields of a block. -/
def mapFields (f : UInt32 → UInt32) : List Nat → List UInt8 → Run (List UInt8)
  | [], bytes => .ok bytes
  | field :: fields, bytes => do
      let pointer ← readLong bytes field
      let bytes ← writeLong bytes field (f pointer)
      mapFields f fields bytes

/-- Turn pointers into offsets, and share the block.  ERROR_INVALID_ADDRESS is 487
and ERROR_INVALID_ACCESS is 12. -/
def cpShare (fields : List Nat) (base : UInt32) (bytes : List UInt8)
    (answers : ShareAnswers) : Run (UInt32 × List UInt8) := do
  let bytes ← mapFields (· - base) fields bytes
  if answers.lookup = false then pure (487, bytes)
  else if answers.share = false then pure (12, bytes)
  else pure (0, bytes)

def PIB_FIELDS : List Nat := [PIB_PCHCMD, PIB_PCHENV]

def TIB_FIELDS : List Nat := [TIB_PTIB2]

/-- The server shares the block of a process. -/
def cpGetPIB := cpShare PIB_FIELDS

/-- The server shares the block of a thread. -/
def cpGetTIB := cpShare TIB_FIELDS

/-- The client turns offsets into pointers when it has attached the block. -/
def kalAttach (fields : List Nat) (answers : ShareAnswers) : UInt32 × List UInt8 → Run (List UInt8)
  | (rc, bytes) =>
    match rc == 0, answers.attach with
    | true, some addr => mapFields (· + addr) fields bytes
    | _, _ => .ok bytes

/-- A block at an address of the server, and the offsets that its pointers had
when it was made. -/
structure InfoBlock where
  addr : UInt32
  bytes : List UInt8
  offsets : List UInt32
  deriving DecidableEq

/-- The block of a process, and the environment that the process was given. -/
structure PibBlock extends InfoBlock where
  env : StringList

/-- The blocks of the processes and of their threads. -/
structure InfoState where
  pibs : Nat → Option PibBlock
  tibs : Nat → Nat → Option InfoBlock

/-- The strings for a new process, with what follows them in memory.  Memory of
the server that is not in the block of the parent is known from `elsewhere`. -/
structure NewProcess where
  child : Nat
  parent : Nat
  alloc : Option Fresh
  prg : List UInt8
  nonzero : 0 ∉ prg
  arg : StringList
  env : Option StringList
  behindPrg : List UInt8
  behindArg : List UInt8
  behindEnv : List UInt8
  elsewhere : UInt32 → List UInt8

/-- What a process or the server asks for. -/
inductive InfoRequest where
  | getPIB (proc : Nat) (answers : ShareAnswers)
  | getTIB (proc tid : Nat) (answers : ShareAnswers)
  | newTIB (proc tid : Nat) (fresh : Fresh)
  | create (new : NewProcess)

namespace InfoBlock

/-- Share a block with a client, which attaches it. -/
def share (block : InfoBlock) (fields : List Nat) (answers : ShareAnswers) :
    Run InfoBlock := do
  let shared ← cpShare fields block.addr block.bytes answers
  let bytes ← kalAttach fields answers shared
  pure { block with bytes }

/-- The memory of the server from an address on, which is in the block or
elsewhere. -/
def memoryFrom (block : InfoBlock) (elsewhere : UInt32 → List UInt8)
    (address : UInt32) : List UInt8 :=
  if (address - block.addr).toNat < block.bytes.length then
    block.bytes.drop (address - block.addr).toNat
  else elsewhere address

end InfoBlock

/-- Make the block of a thread: the pointer to its second part is stored. -/
def prcCreateTIB (fresh : Fresh) : Run (UInt32 × List UInt8) := (fresh.addr, ·) <$>
    writeLong ((List.range (TIB_SIZE + TIB2_SIZE)).map fresh.contents) TIB_PTIB2
      (fresh.addr + UInt32.ofNat TIB_SIZE)

namespace InfoState

variable (state : InfoState)

/-- The state with another block of a process. -/
@[simps] def setPib (proc : Nat) (block : PibBlock) : InfoState where
  pibs := Function.update state.pibs proc (some block)
  tibs := state.tibs

/-- The state with another block of a thread. -/
@[simps] def setTib (proc tid : Nat) (block : InfoBlock) : InfoState where
  pibs := state.pibs
  tibs := Function.update state.tibs proc (Function.update (state.tibs proc) tid (some block))

/-- The bytes of the environment of a process without strings of its own: the
pointer in the block of the parent is followed. -/
def inherited (parent : Nat) (elsewhere : UInt32 → List UInt8) :
    Run (List UInt8) :=
  match state.pibs parent with
  | none => .error .nullPointer
  | some block =>
    block.memoryFrom elsewhere <$> readLong block.bytes PIB_PCHENV

/-- The bytes of the environment of a new process. -/
def environment (new : NewProcess) : Run (List UInt8) :=
  match new.env with
  | some list =>
    if list.strings = [] then state.inherited new.parent new.elsewhere
    else .ok (list.encode ++ new.behindEnv)
  | none => state.inherited new.parent new.elsewhere

/-- The environment that a new process should have. -/
def expected (new : NewProcess) : StringList :=
  match new.env with
  | some list =>
    if list.strings = [] then
      ((state.pibs new.parent).map PibBlock.env).getD list
    else list
  | none => ((state.pibs new.parent).map PibBlock.env).getD StringList.empty

/-- Make the block of a new process. -/
def create (new : NewProcess) : Run InfoState := do
  let env ← state.environment new
  let (addr, bytes) ← prcCreatePIB new.alloc (new.prg ++ 0 :: new.behindPrg)
    (new.arg.encode ++ new.behindArg) env
  let pchcmd ← readLong bytes PIB_PCHCMD
  let pchenv ← readLong bytes PIB_PCHENV
  pure (state.setPib new.child
    { addr, bytes, offsets := [pchcmd - addr, pchenv - addr]
      env := state.expected new })

/-- Make the block of a new thread. -/
def newTIB (proc tid : Nat) (fresh : Fresh) : Run InfoState := do
  let (addr, bytes) ← prcCreateTIB fresh
  let ptib2 ← readLong bytes TIB_PTIB2
  pure (state.setTib proc tid { addr, bytes, offsets := [ptib2 - addr] })

/-- Serve a request. -/
def serve : InfoRequest → Run InfoState
  | .getPIB proc answers =>
    match state.pibs proc with
    | none => .error .nullPointer
    | some block => do
        let shared ← block.share PIB_FIELDS answers
        pure (state.setPib proc { shared with env := block.env })
  | .getTIB proc tid answers =>
    match state.tibs proc tid with
    | none => .error .nullPointer
    | some block => do
        let shared ← block.share TIB_FIELDS answers
        pure (state.setTib proc tid shared)
  | .newTIB proc tid fresh => state.newTIB proc tid fresh
  | .create new => state.create new

/-- A request is served. -/
def Step (state state' : InfoState) (request : InfoRequest) : Prop :=
  state.serve request = .ok state'

/-- No process has been made yet. -/
def initial : InfoState where
  pibs := fun _ => none
  tibs := fun _ _ => none

end InfoState

/-- Where the client has the block, or 0 if it does not attach it. -/
def ShareAnswers.attached (answers : ShareAnswers) : UInt32 :=
  if answers.lookup = true ∧ answers.share = true then answers.attach.getD 0
  else 0

/-- The fields of a block hold some words. -/
abbrev Holding (bytes : List UInt8) (fields : List Nat) (words : List UInt32) :
    Prop :=
  List.Forall₂ (fun field word => readLong bytes (field : Nat) = .ok word) fields words

/-- Every request is given the offsets that the block was made with. -/
def InfoBlock.SameOffsets (block : InfoBlock) (fields : List Nat) : Prop := ∀ answers, ∃ rc bytes,
    cpShare fields block.addr block.bytes answers = .ok (rc, bytes) ∧
      Holding bytes fields block.offsets

namespace InfoState

/-- The next request is given the offsets of the first one, and a process
without strings of its own would inherit the environment of its parent. -/
structure Good (state : InfoState) : Prop where
  pibs : ∀ proc block, state.pibs proc = some block → block.SameOffsets PIB_FIELDS
  tibs : ∀ proc tid block, state.tibs proc tid = some block → block.SameOffsets TIB_FIELDS
  inherits : ∀ proc block, state.pibs proc = some block → ∀ elsewhere,
    ∃ env, state.inherited proc elsewhere = .ok env ∧ readStrings env = .ok block.env.strings

/-- The client has the block at the address that the server has it at. -/
def Allowed (state : InfoState) : InfoRequest → Prop
  | .getPIB proc answers => ∀ block, state.pibs proc = some block → answers.attached = block.addr
  | .getTIB proc tid answers => ∀ block, state.tibs proc tid = some block →
      answers.attached = block.addr
  | .newTIB .. => True
  | .create _ => True

/-- A step of a run whose requests are allowed. -/
def AllowedStep (state state' : InfoState) : Prop :=
  ∃ request, state.Allowed request ∧ state.Step state' request

end InfoState

/-- The fields do not overlap. -/
abbrev FieldsApart (fields : List Nat) : Prop :=
  fields.Pairwise fun field other => field + 4 ≤ other ∨ other + 4 ≤ field

variable {fields : List Nat} {words : List UInt32} {bytes : List UInt8}

theorem Holding.congr {bytes' : List UInt8} (holding : Holding bytes fields words)
    (same : ∀ field ∈ fields, readLong bytes' (field : Nat) =
      readLong bytes (field : Nat)) : Holding bytes' fields words := by
  induction fields generalizing words with
  | nil =>
    cases holding
    exact .nil
  | cons field fields ih =>
    cases words with
    | nil => cases holding
    | cons word words =>
      obtain ⟨read, holding⟩ := List.forall₂_cons.mp holding
      refine .cons ((same field (List.mem_cons_self ..)).trans read) ?_
      exact ih holding fun field' member =>
        same field' (List.mem_cons_of_mem _ member)

theorem Holding.unique {words' : List UInt32} (holding : Holding bytes fields words)
    (holding' : Holding bytes fields words') : words = words' := by
  induction fields generalizing words words' with
  | nil =>
    cases holding
    cases holding'
    rfl
  | cons field fields ih =>
    cases words with
    | nil => cases holding
    | cons word words =>
      cases words' with
      | nil => cases holding'
      | cons word' words' =>
        obtain ⟨read, holding⟩ := List.forall₂_cons.mp holding
        obtain ⟨read', holding'⟩ := List.forall₂_cons.mp holding'
        rw [Except.ok.inj (read.symm.trans read'), ih holding holding']

theorem mapFields_holding {f : UInt32 → UInt32}
    (holding : Holding bytes fields words) (apart : FieldsApart fields) :
    ∃ bytes', mapFields f fields bytes = .ok bytes' ∧ Holding bytes' fields (words.map f) ∧
      (∀ other : Nat, (∀ field ∈ fields, field + 4 ≤ other ∨
        other + 4 ≤ field) → readLong bytes' other = readLong bytes other) ∧
      ∀ start, (∀ field ∈ fields, field + 4 ≤ start) →
        bytes'.drop start = bytes.drop start := by
  induction fields generalizing words bytes with
  | nil =>
    cases holding
    exact ⟨bytes, rfl, .nil, fun _ _ => rfl, fun _ _ => rfl⟩
  | cons field fields ih =>
    cases words with
    | nil => cases holding
    | cons word words =>
      obtain ⟨read, holding⟩ := List.forall₂_cons.mp holding
      obtain ⟨others, apart⟩ := List.pairwise_cons.mp apart
      have inside : field + 4 ≤ bytes.length := length_of_readLong read
      have written : writeLong bytes field (f word) =
          .ok (putLong bytes field (f word)) :=
        writeLong_eq_ok_iff.mpr ⟨by unfold Inside; omega, rfl⟩
      have kept : Holding (putLong bytes field (f word)) fields words :=
        Holding.congr holding fun other member =>
          readLong_putLong_of_apart inside (others other member).symm
      obtain ⟨bytes', mapped, holding', outside, behind⟩ := ih kept apart
      refine ⟨bytes', ?_, ?_, ?_, ?_⟩
      · rw [mapFields, read, bind_ok, written, bind_ok, mapped]
      · refine .cons ?_ holding'
        rw [outside field fun other member => (others other member).symm,
          readLong_putLong_self inside]
      · intro other away
        rw [outside other fun field' member =>
          away field' (List.mem_cons_of_mem _ member)]
        exact readLong_putLong_of_apart inside (away field (List.mem_cons_self ..)).symm
      · intro start less
        rw [behind start fun field' member =>
          less field' (List.mem_cons_of_mem _ member)]
        exact drop_putBytes_of_le inside (less field (List.mem_cons_self ..))

namespace InfoBlock

variable {block : InfoBlock} {fields : List Nat}

/-- The pointers of a block lead to the places they led to when it was made. -/
def Intact (block : InfoBlock) (fields : List Nat) : Prop :=
  Holding block.bytes fields (block.offsets.map (block.addr + ·))

theorem cpShare_of_shifted {distance : UInt32} (holding : Holding block.bytes fields
      (block.offsets.map (· + (block.addr + distance))))
    (apart : FieldsApart fields) (answers : ShareAnswers) :
    ∃ rc bytes, cpShare fields block.addr block.bytes answers = .ok (rc, bytes) ∧
      (rc == 0) = (answers.lookup && answers.share) ∧
      Holding bytes fields (block.offsets.map (· + distance)) ∧
      ∀ start, (∀ field ∈ fields, field + 4 ≤ start) →
        bytes.drop start = block.bytes.drop start := by
  obtain ⟨bytes, mapped, held, -, behind⟩ :=
    mapFields_holding (f := (· - block.addr)) holding apart
  have words : (block.offsets.map (· + (block.addr + distance))).map
      (· - block.addr) = block.offsets.map (· + distance) := by
    rw [List.map_map]
    apply List.map_congr_left
    intro offset _
    simp only [Function.comp_apply]
    rw [UInt32.add_comm block.addr, ← UInt32.add_assoc, UInt32.add_sub_cancel]
  rw [words] at held
  unfold cpShare
  rw [mapped, bind_ok]
  cases lookup : answers.lookup with
  | false => exact ⟨487, bytes, by simp, by simp, held, behind⟩
  | true =>
    cases share : answers.share with
    | false => exact ⟨12, bytes, by simp, by simp, held, behind⟩
    | true => exact ⟨0, bytes, by simp, by simp, held, behind⟩

theorem Intact.sameOffsets (intact : block.Intact fields)
    (apart : FieldsApart fields) : block.SameOffsets fields := by
  intro answers
  have shifted : Holding block.bytes fields
      (block.offsets.map (· + (block.addr + 0))) := by
    simpa [Intact, UInt32.add_comm] using intact
  obtain ⟨rc, bytes, shared, -, held, -⟩ := cpShare_of_shifted shifted apart answers
  exact ⟨rc, bytes, shared, by simpa using held⟩

theorem Intact.share (intact : block.Intact fields)
    (apart : FieldsApart fields) (answers : ShareAnswers) :
    ∃ bytes, block.share fields answers = .ok { block with bytes } ∧
      Holding bytes fields (block.offsets.map (· + answers.attached)) ∧
      ∀ start, (∀ field ∈ fields, field + 4 ≤ start) →
        bytes.drop start = block.bytes.drop start := by
  have shifted : Holding block.bytes fields
      (block.offsets.map (· + (block.addr + 0))) := by
    simpa [Intact, UInt32.add_comm] using intact
  obtain ⟨rc, bytes, shared, code, held, behind⟩ := cpShare_of_shifted shifted apart answers
  have offsets : Holding bytes fields block.offsets := by simpa using held
  have unmoved : (block.offsets.map (· + (0 : UInt32))) = block.offsets := by
    simp
  unfold InfoBlock.share
  rw [shared, bind_ok, kalAttach, code]
  cases given : answers.lookup && answers.share with
  | false =>
    have nowhere : answers.attached = 0 := by
      unfold ShareAnswers.attached
      rw [if_neg]
      intro both
      simp [both.1, both.2] at given
    refine ⟨bytes, rfl, ?_, behind⟩
    rw [nowhere, unmoved]
    exact offsets
  | true =>
    obtain ⟨lookup, shares⟩ := (Bool.and_eq_true _ _).mp given
    cases attach : answers.attach with
    | none =>
      refine ⟨bytes, rfl, ?_, behind⟩
      rw [ShareAnswers.attached, if_pos ⟨lookup, shares⟩, attach, Option.getD_none, unmoved]
      exact offsets
    | some addr =>
      obtain ⟨bytes', mapped, held', -, behind'⟩ :=
        mapFields_holding (f := (· + addr)) offsets apart
      refine ⟨bytes', ?_, ?_, fun start less =>
        (behind' start less).trans (behind start less)⟩
      · simp only [mapped, bind_ok, pure_eq_ok]
      · rw [ShareAnswers.attached, if_pos ⟨lookup, shares⟩, attach, Option.getD_some]
        exact held'

end InfoBlock

/-!
## Requests for information blocks

Every request finds the pointers of a block as the last client has left them.
They lead to the same places only if the clients have the block at the address
that the server has it at.
-/

theorem fieldsApart_pib : FieldsApart PIB_FIELDS := by
  simp [FieldsApart, PIB_FIELDS, PIB_PCHCMD, PIB_PCHENV]

theorem fieldsApart_tib : FieldsApart TIB_FIELDS := by
  simp [FieldsApart, TIB_FIELDS]

theorem add_sub_self (base word : UInt32) : base + (word - base) = word := by
  rw [UInt32.add_comm, UInt32.sub_add_cancel]

namespace InfoBlock

variable {block : InfoBlock} {fields : List Nat}

theorem Intact.share_cases {shared : InfoBlock} (intact : block.Intact fields)
    (apart : FieldsApart fields) {answers : ShareAnswers}
    (shares : block.share fields answers = .ok shared) :
    shared.addr = block.addr ∧ shared.offsets = block.offsets ∧
      Holding shared.bytes fields (block.offsets.map (· + answers.attached)) ∧
      ∀ start, (∀ field ∈ fields, field + 4 ≤ start) →
        shared.bytes.drop start = block.bytes.drop start := by
  obtain ⟨bytes, equal, held, behind⟩ := intact.share apart answers
  cases equal.symm.trans shares
  exact ⟨rfl, rfl, held, behind⟩

theorem Intact.sameOffsets_iff {shared : InfoBlock}
    (intact : block.Intact fields) (apart : FieldsApart fields)
    (some : fields ≠ []) {answers : ShareAnswers}
    (shares : block.share fields answers = .ok shared) :
    shared.SameOffsets fields ↔ answers.attached = block.addr := by
  obtain ⟨addr, offsets, held, -⟩ := intact.share_cases apart shares
  constructor
  · intro same
    have shifted : Holding shared.bytes fields (shared.offsets.map
        (· + (shared.addr + (answers.attached - shared.addr)))) := by
      rw [add_sub_self, offsets]
      exact held
    obtain ⟨rc, bytes, shared₁, -, held₁, -⟩ := cpShare_of_shifted shifted apart ⟨true, true, none⟩
    obtain ⟨rc', bytes', shared₂, held₂⟩ := same ⟨true, true, none⟩
    cases shared₁.symm.trans shared₂
    have equal := Holding.unique held₁ held₂
    rw [← addr]
    cases words : shared.offsets with
    | nil =>
      rw [words] at held₂
      cases held₂
      exact absurd rfl some
    | cons offset rest =>
      rw [words] at equal
      have first := (List.cons.inj equal).1
      have distance : answers.attached - shared.addr = 0 := by
        have moved := congrArg (· - offset) first
        simpa [UInt32.add_comm offset, UInt32.add_sub_cancel] using moved
      have back := add_sub_self shared.addr answers.attached
      rw [distance, UInt32.add_zero] at back
      exact back.symm
  · intro here
    apply Intact.sameOffsets _ apart
    unfold Intact
    rw [addr, offsets]
    simpa [here, UInt32.add_comm] using held

end InfoBlock

namespace InfoState

variable {state state' : InfoState}

/-- The pointers of every block lead where they should, and the environment of a
process is behind the fields of its block. -/
structure Sound (state : InfoState) : Prop where
  pibs : ∀ proc block, state.pibs proc = some block → block.Intact PIB_FIELDS ∧
      (∃ pchcmd, block.offsets = [pchcmd, UInt32.ofNat PIB_SIZE]) ∧
      ∃ rest, block.bytes.drop PIB_SIZE = block.env.encode ++ rest
  tibs : ∀ proc tid block, state.tibs proc tid = some block → block.Intact TIB_FIELDS

theorem initial_sound : initial.Sound where
  pibs _ _ found := by cases found
  tibs _ _ _ found := by cases found

variable {proc : Nat}

section

variable (sound : state.Sound)

include sound

theorem Sound.inherited {block : PibBlock} (found : state.pibs proc = some block)
    (elsewhere : UInt32 → List UInt8) :
    ∃ rest, state.inherited proc elsewhere = .ok (block.env.encode ++ rest) := by
  obtain ⟨intact, ⟨pchcmd, offsets⟩, rest, behind⟩ := sound.pibs proc block found
  unfold InfoBlock.Intact at intact
  rw [offsets] at intact
  obtain ⟨-, intact⟩ := List.forall₂_cons.mp intact
  obtain ⟨pchenv, -⟩ := List.forall₂_cons.mp intact
  have place := PibArgs.toNat_add_sub block.addr (show PIB_SIZE < 4294967296 by decide)
  have inside : PIB_SIZE < block.bytes.length := by
    have lengths := congrArg List.length behind
    have bytes := length_encodeStrings_pos block.env.strings
    simp only [List.length_drop, List.length_append, StringList.encode] at lengths
    omega
  refine ⟨rest, ?_⟩
  unfold InfoState.inherited
  simp only [found, pchenv, map_ok, InfoBlock.memoryFrom, place, if_pos inside, behind]

theorem Sound.good : state.Good where
  pibs proc block found := (sound.pibs proc block found).1.sameOffsets fieldsApart_pib
  tibs proc tid block found := (sound.tibs proc tid block found).sameOffsets fieldsApart_tib
  inherits := by
    intro proc block found elsewhere
    obtain ⟨rest, inherited⟩ := sound.inherited found elsewhere
    exact ⟨_, inherited, readStrings_encode block.env rest⟩

theorem Sound.setPib (proc : Nat) {block : PibBlock}
    (intact : block.Intact PIB_FIELDS) {pchcmd : UInt32}
    (offsets : block.offsets = [pchcmd, UInt32.ofNat PIB_SIZE])
    {rest : List UInt8}
    (behind : block.bytes.drop PIB_SIZE = block.env.encode ++ rest) :
    (state.setPib proc block).Sound where
  pibs := by
    intro other found isThere
    by_cases same : other = proc
    · subst same
      rw [setPib_pibs, Function.update_self] at isThere
      cases isThere
      exact ⟨intact, ⟨pchcmd, offsets⟩, rest, behind⟩
    · rw [setPib_pibs, Function.update_of_ne same] at isThere
      exact sound.pibs other found isThere
  tibs := sound.tibs

theorem Sound.setTib (proc tid : Nat) {block : InfoBlock} (intact : block.Intact TIB_FIELDS) :
    (state.setTib proc tid block).Sound where
  pibs := sound.pibs
  tibs := by
    intro other thread found isThere
    rw [setTib_tibs] at isThere
    by_cases same : other = proc
    · subst same
      rw [Function.update_self] at isThere
      by_cases sameThread : thread = tid
      · subst sameThread
        rw [Function.update_self] at isThere
        cases isThere
        exact intact
      · rw [Function.update_of_ne sameThread] at isThere
        exact sound.tibs other thread found isThere
    · rw [Function.update_of_ne same] at isThere
      exact sound.tibs other thread found isThere

theorem Sound.getPIB {answers : ShareAnswers} (step : state.Step state' (.getPIB proc answers)) :
    (state.Allowed (.getPIB proc answers) → state'.Sound) ∧
      (state'.Good → state.Allowed (.getPIB proc answers)) := by
  unfold Step serve at step
  cases found : state.pibs proc with
  | none =>
    simp only [found] at step
    cases step
  | some block =>
    simp only [found] at step
    obtain ⟨shared, shares, step⟩ := bind_eq_ok_iff.mp step
    cases step
    obtain ⟨intact, ⟨pchcmd, offsets⟩, rest, behind⟩ := sound.pibs proc block found
    have iff := intact.sameOffsets_iff fieldsApart_pib (List.cons_ne_nil _ _) shares
    obtain ⟨addr, kept, held, outside⟩ := intact.share_cases fieldsApart_pib shares
    constructor
    · intro allowed
      have here := allowed block found
      refine @Sound.setPib _ sound proc _ ?_ _ (kept.trans offsets) rest ?_
      · unfold InfoBlock.Intact
        simp only [addr, kept]
        simpa [here, UInt32.add_comm] using held
      · rw [← behind]
        apply outside
        simp [PIB_FIELDS, PIB_PCHCMD, PIB_PCHENV, PIB_SIZE]
    · intro good other isThere
      rw [found] at isThere
      cases isThere
      apply iff.mp
      exact good.pibs proc { shared with env := block.env } (by
        rw [setPib_pibs, Function.update_self])

theorem Sound.getTIB {tid : Nat} {answers : ShareAnswers}
    (step : state.Step state' (.getTIB proc tid answers)) :
    (state.Allowed (.getTIB proc tid answers) → state'.Sound) ∧
      (state'.Good → state.Allowed (.getTIB proc tid answers)) := by
  unfold Step serve at step
  cases found : state.tibs proc tid with
  | none =>
    simp only [found] at step
    cases step
  | some block =>
    simp only [found] at step
    obtain ⟨shared, shares, step⟩ := bind_eq_ok_iff.mp step
    cases step
    have intact := sound.tibs proc tid block found
    have iff := intact.sameOffsets_iff fieldsApart_tib (List.cons_ne_nil _ _) shares
    obtain ⟨addr, kept, held, outside⟩ := intact.share_cases fieldsApart_tib shares
    constructor
    · intro allowed
      have here := allowed block found
      apply sound.setTib proc tid
      unfold InfoBlock.Intact
      rw [addr, kept]
      simpa [here, UInt32.add_comm] using held
    · intro good other isThere
      rw [found] at isThere
      cases isThere
      apply iff.mp
      exact good.tibs proc tid shared (by
        rw [setTib_tibs, Function.update_self, Function.update_self])

theorem Sound.newTIB {tid : Nat} {fresh : Fresh}
    (made : state.newTIB proc tid fresh = .ok state') : state'.Sound := by
  obtain ⟨⟨addr, bytes⟩, -, made⟩ := bind_eq_ok_iff.mp made
  obtain ⟨ptib2, read, made⟩ := bind_eq_ok_iff.mp made
  cases made
  apply sound.setTib proc tid
  refine .cons ?_ .nil
  exact read.trans (congrArg Except.ok (add_sub_self addr ptib2).symm)

theorem Sound.environment {new : NewProcess}
    {env : List UInt8} (passed : state.environment new = .ok env) :
    ∃ rest, env = (state.expected new).encode ++ rest := by
  have fromParent : ∀ list : StringList, state.inherited new.parent new.elsewhere = .ok env →
        ∃ rest, env = (((state.pibs new.parent).map PibBlock.env).getD
          list).encode ++ rest := by
    intro list follows
    cases found : state.pibs new.parent with
    | none =>
      unfold InfoState.inherited at follows
      simp only [found] at follows
      cases follows
    | some block =>
      obtain ⟨rest, inherited⟩ := sound.inherited found new.elsewhere
      cases inherited.symm.trans follows
      exact ⟨rest, rfl⟩
  unfold InfoState.environment at passed
  unfold expected
  cases given : new.env with
  | none =>
    simp only [given] at passed
    exact fromParent _ passed
  | some list =>
    simp only [given] at passed
    split at passed
    · rename_i empty
      simp only [if_pos empty]
      exact fromParent _ passed
    · rename_i strings
      cases passed
      simp only [if_neg strings]
      exact ⟨_, rfl⟩

theorem Sound.create {new : NewProcess} (made : state.create new = .ok state') : state'.Sound := by
  obtain ⟨env, passed, made⟩ := bind_eq_ok_iff.mp made
  obtain ⟨⟨addr, bytes⟩, filled, made⟩ := bind_eq_ok_iff.mp made
  obtain ⟨pchcmd, readCmd, made⟩ := bind_eq_ok_iff.mp made
  obtain ⟨pchenv, readEnv, made⟩ := bind_eq_ok_iff.mp made
  cases made
  obtain ⟨rest, rfl⟩ := sound.environment passed
  let args : PibArgs :=
    { prg := new.prg, arg := new.arg, env := state.expected new
      behindPrg := new.behindPrg, behindArg := new.behindArg, behindEnv := rest
      nonzero := new.nonzero }
  have laid : args.Laid addr bytes := PibArgs.laid_of_create filled
  obtain ⟨behind, environment⟩ := laid.environment
  have place : pchenv - addr = UInt32.ofNat PIB_SIZE := by
    rw [← Except.ok.inj (laid.pchenv.symm.trans readEnv), UInt32.add_comm, UInt32.add_sub_cancel]
  refine @Sound.setPib _ sound new.child _ ?_ (pchcmd - addr) ?_ _ environment
  · refine .cons ?_ (.cons ?_ .nil)
    · exact readCmd.trans (congrArg Except.ok (add_sub_self addr pchcmd).symm)
    · exact readEnv.trans (congrArg Except.ok (add_sub_self addr pchenv).symm)
  · rw [place]

theorem Sound.step {request : InfoRequest} (step : state.Step state' request) :
    (state.Allowed request → state'.Sound) ∧
      (state'.Good → state.Allowed request) := by
  cases request with
  | getPIB proc answers => exact sound.getPIB step
  | getTIB proc tid answers => exact sound.getTIB step
  | newTIB proc tid fresh =>
    exact ⟨fun _ => sound.newTIB step, fun _ => trivial⟩
  | create new => exact ⟨fun _ => sound.create step, fun _ => trivial⟩

end

/-- In every run of allowed requests the next request is given the offsets of the
first one and environments are inherited, and the next step keeps that exactly if
its request is allowed. -/
theorem intact_of_run (run : RunsTo AllowedStep initial state) :
    state.Good ∧ ∀ request state', state.Step state' request →
      (state'.Good ↔ state.Allowed request) := by
  have sound : state.Sound := by
    refine RunsTo.preserves ?_ run initial_sound
    rintro state state' sound ⟨request, allowed, step⟩
    exact (sound.step step).1 allowed
  refine ⟨sound.good, fun request state' step => ?_⟩
  obtain ⟨forward, back⟩ := sound.step step
  exact ⟨back, fun allowed => (forward allowed).good⟩

theorem nonzero_prg : (0 : UInt8) ∉ [0x41] := by decide

theorem nonempty_env : ∀ string ∈ [[(0x50 : UInt8), 0x3d]], string ≠ [] := by decide

theorem nonzero_env : ∀ string ∈ [[(0x50 : UInt8), 0x3d]], 0 ∉ string := by decide

/-- A process with an environment of its own. -/
def firstProcess : NewProcess where
  child := 1
  parent := 0
  alloc := some { addr := 0x10000, contents := fun _ => 0 }
  prg := [0x41]
  nonzero := nonzero_prg
  arg := StringList.empty
  env := some ⟨[[0x50, 0x3d]], nonempty_env, nonzero_env⟩
  behindPrg := []
  behindArg := [0]
  behindEnv := []
  elsewhere := fun _ => []

/-- The process asks for its block and attaches it at an address. -/
def askAt (addr : UInt32) : InfoRequest := .getPIB 1 ⟨true, true, some addr⟩

theorem exists_firstProcess : ∃ state block, RunsTo AllowedStep initial state ∧ state.Sound ∧
      state.pibs 1 = some block ∧ block.addr = 0x10000 := by
  obtain ⟨state, block, made, found, addr⟩ :
      ∃ state block, initial.create firstProcess = .ok state ∧
        state.pibs 1 = some block ∧ block.addr = 0x10000 :=
    ⟨_, _, rfl, rfl, rfl⟩
  exact ⟨state, block, .single ⟨.create firstProcess, trivial, made⟩,
    initial_sound.create made, found, addr⟩

/-- A run with one process. -/
theorem firstBlock_intact : ∃ state : InfoState, state.pibs 1 ≠ none ∧ state.Good ∧
      ∀ request state', state.Step state' request →
        (state'.Good ↔ state.Allowed request) := by
  obtain ⟨state, block, run, -, found, -⟩ := exists_firstProcess
  refine ⟨state, ?_, intact_of_run run⟩
  rw [found]
  exact Option.some_ne_none block

/-- A client that has the block elsewhere spoils it for the next request. -/
theorem askElsewhere_not_good : ∃ state state', RunsTo AllowedStep initial state ∧
      state.Step state' (askAt 0x20000) ∧ ¬ state'.Good := by
  obtain ⟨state, block, run, sound, found, addr⟩ := exists_firstProcess
  obtain ⟨intact, -, -⟩ := sound.pibs 1 block found
  obtain ⟨bytes, shared, -⟩ := intact.share fieldsApart_pib ⟨true, true, some 0x20000⟩
  have step : state.Step (state.setPib 1
      { addr := block.addr, bytes, offsets := block.offsets, env := block.env })
        (askAt 0x20000) := by
    unfold Step askAt serve
    simp only [found, shared, bind_ok]
    rfl
  refine ⟨state, _, run, step, ?_⟩
  intro good
  have allowed := (sound.getPIB step).2 good block found
  rw [addr] at allowed
  exact absurd allowed (by decide)

end InfoState

end OsFree.Os2srv
