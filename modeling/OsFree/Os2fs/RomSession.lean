import Mathlib.Algebra.Ring.Nat
import Mathlib.Logic.Function.Basic

/-!
# The ROM session of the file server

A program is loaded through a ROM session for its file.  The image comes from the
parent's ROM service, or else it is read from the file into a dataspace.
-/

namespace OsFree.Os2fs
namespace RomSession

/-- The dataspaces in memory by their capability, the capability of the next one,
and the file handles that are open. -/
structure World where
  spaces : Nat → Option (List UInt8)
  next : Nat
  opened : List Nat
  fresh : ∀ cap, next ≤ cap → spaces cap = none

namespace World

variable (world : World) (cap : Nat)

/-- `alloc` of the RAM session: a new dataspace of zeros. -/
def alloc (size : Nat) : World where
  spaces := Function.update world.spaces world.next (some (List.replicate size 0))
  next := world.next + 1
  opened := world.opened
  fresh other above := by
    rw [Function.update_of_ne (by omega)]
    exact world.fresh other (by omega)

/-- `free` of the RAM session. -/
def free : World where
  spaces := Function.update world.spaces cap none
  next := world.next
  opened := world.opened
  fresh other above := by
    by_cases same : other = cap
    · rw [same, Function.update_self]
    · rw [Function.update_of_ne same, world.fresh other above]

/-- The bytes are written to the front of an attached dataspace. -/
def write (bytes : List UInt8) : World where
  spaces := Function.update world.spaces cap
    ((world.spaces cap).map fun old => bytes ++ old.drop bytes.length)
  next := world.next
  opened := world.opened
  fresh other above := by
    by_cases same : other = cap
    · subst same
      rw [Function.update_self, world.fresh other above, Option.map_none]
    · rw [Function.update_of_ne same, world.fresh other above]

/-- A handle is opened. -/
def hold (hf : Nat) : World := { world with opened := hf :: world.opened }

/-- A handle is closed. -/
def close (hf : Nat) : World := { world with opened := world.opened.erase hf }

theorem alloc_free_spaces (size : Nat) :
    ((world.alloc size).free world.next).spaces = world.spaces := by
  change Function.update (Function.update world.spaces _ _) _ none = world.spaces
  rw [Function.update_idem, ← world.fresh world.next (Nat.le_refl _), Function.update_eq_self]

/-- A new dataspace holds what is written to it, and zeros behind. -/
theorem alloc_write_spaces (size : Nat) (bytes : List UInt8) :
    ((world.alloc size).write world.next bytes).spaces world.next =
      some (bytes ++ List.replicate (size - bytes.length) 0) := by
  have zeros : (world.alloc size).spaces world.next = some (List.replicate size 0) :=
    Function.update_self ..
  change Function.update _ _ _ _ = _
  rw [Function.update_self, zeros, Option.map_some, List.drop_replicate]

end World

/-- How the parent's ROM service goes for a label: the image that it would give,
and whether the session is made, its dataspace is attached, and a copy is
allocated and attached. -/
structure ParentRom where
  image : List UInt8
  connects : Bool
  attaches : Bool
  allocates : Bool
  maps : Bool

/-- How the file system goes for a label: the content of the file, the return codes
of opening and querying it, whether a dataspace is allocated and attached, and how
many bytes the read delivers, whatever it returns. -/
structure FileSteps where
  content : List UInt8
  openRc : UInt32
  hf : Nat
  queryRc : UInt32
  allocates : Bool
  maps : Bool
  delivered : Nat

section Definitions

variable (rom : ParentRom) (steps : FileSteps)

/-- The first half of `_init_file_ds`: whether the image is copied, and the
capability that `file_ds` names, which outlives its dataspace. -/
def fromRom (world : World) : Bool × Option Nat × World :=
  if rom.connects && rom.attaches && rom.allocates then
    let copy := world.alloc rom.image.length
    if rom.maps then (true, some world.next, copy.write world.next rom.image)
    else (false, some world.next, copy.free world.next)
  else (false, none, world)

/-- The second half of `_init_file_ds`, which an exception may leave. -/
def fromFile (file_ds : Option Nat) (world : World) : Option (Option Nat) × World :=
  if steps.openRc ≠ 0 then (some file_ds, world) else
  let held := world.hold steps.hf
  if steps.queryRc ≠ 0 then (some file_ds, held) else
  -- `fSize` has half the bits of `cbFile`
  let fSize := (UInt32.ofNat steps.content.length).toNat
  if steps.allocates then
    let space := held.alloc fSize
    if steps.maps then
      let bytes := (steps.content.take fSize).take steps.delivered
      (some (some held.next), (space.write held.next bytes).close steps.hf)
    else (none, space)
  else (some file_ds, held)

/-- `_init_file_ds`. -/
def _init_file_ds (world : World) : Option (Option Nat) × World :=
  match fromRom rom world with
  | (true, file_ds, world') => (some file_ds, world')
  | (false, file_ds, world') => fromFile steps file_ds world'

/-- How the request for a session ends. -/
inductive Ending where
  | created (file_ds : Nat)
  | denied
  | thrown
  deriving DecidableEq

/-- A session is created with a valid capability only. -/
def session : Option (Option Nat) × World → Ending × World
  | (some (some file_ds), world) => (.created file_ds, world)
  | (some none, world) => (.denied, world)
  | (none, world) => (.thrown, world)

/-- The constructor of `Rom_session_component`. -/
def Rom_session_component (parent : List UInt8 → ParentRom)
    (fs : List UInt8 → FileSteps) (label : List UInt8) (world : World) : Ending × World :=
  session (_init_file_ds (parent label) (fs label) world)

/-- The parent's image is copied. -/
def ParentRom.Copied : Prop := rom.connects ∧ rom.attaches ∧ rom.allocates ∧ rom.maps

/-- A copy of the parent's image is freed again because it cannot be attached. -/
def ParentRom.Freed : Prop := rom.connects ∧ rom.attaches ∧ rom.allocates ∧ ¬ rom.maps

instance : Decidable rom.Copied := inferInstanceAs (Decidable (_ ∧ _))

/-- What a program is loaded from. -/
def complete : List UInt8 := if rom.Copied then rom.image else steps.content

/-- What a request for a session owes: a session comes with all of the file, a
refusal leaves no dataspace behind, and no handle stays open. -/
structure Settled (content : List UInt8) (world : World) (result : Ending × World) :
    Prop where
  complete : ∀ file_ds, result.1 = .created file_ds → result.2.spaces file_ds = some content
  freed : (∀ file_ds, result.1 ≠ .created file_ds) → result.2.spaces = world.spaces
  closed : result.2.opened = world.opened

/-- Every step succeeds for a file below 4 GiB, and what the read does not deliver
is zeros. -/
structure FileSteps.Filled : Prop where
  opens : steps.openRc = 0
  queries : steps.queryRc = 0
  allocates : steps.allocates
  maps : steps.maps
  small : steps.content.length < 2 ^ 32
  zeros : ∀ byte ∈ steps.content.drop steps.delivered, byte = 0

end Definitions

variable {rom : ParentRom} {steps : FileSteps} {world world' : World}
  {content : List UInt8} {file_ds : Option Nat}

@[simp] theorem session_snd (result : Option (Option Nat) × World) :
    (session result).2 = result.2 := by
  match result with
  | (some (some _), _) => rfl
  | (some none, _) => rfl
  | (none, _) => rfl

theorem fromRom_of_copied (world : World) (copied : rom.Copied) : ∃ world',
    fromRom rom world = (true, some world.next, world') ∧
      world'.spaces world.next = some rom.image ∧ world'.opened = world.opened := by
  obtain ⟨connects, attaches, allocates, maps⟩ := copied
  refine ⟨(world.alloc rom.image.length).write world.next rom.image, ?_, ?_, rfl⟩
  · unfold fromRom
    rw [connects, attaches, allocates, maps]
    rfl
  · rw [World.alloc_write_spaces, Nat.sub_self, List.replicate_zero, List.append_nil]

theorem fromRom_of_not_copied (world : World) (failed : ¬ rom.Copied) : ∃ file_ds world',
    fromRom rom world = (false, file_ds, world') ∧
      world'.spaces = world.spaces ∧ world'.opened = world.opened ∧
        (∀ cap, file_ds = some cap → world.spaces cap = none) ∧
          (file_ds = none ↔ ¬ rom.Freed) := by
  unfold fromRom
  split
  next reaches =>
    simp only [Bool.and_eq_true] at reaches
    have unmapped : ¬ rom.maps := fun maps => failed ⟨reaches.1.1, reaches.1.2, reaches.2, maps⟩
    rw [if_neg unmapped]
    refine ⟨_, _, rfl, World.alloc_free_spaces .., rfl, ?_, ?_⟩
    · rintro cap ⟨⟩
      exact world.fresh world.next (Nat.le_refl _)
    · exact iff_of_false (Option.some_ne_none _) (not_not_intro ⟨reaches.1.1,
        reaches.1.2, reaches.2, unmapped⟩)
  next stops =>
    refine ⟨none, world, rfl, rfl, rfl, by rintro cap ⟨⟩, ?_⟩
    refine iff_of_true rfl ?_
    rintro ⟨connects, attaches, allocates, -⟩
    exact stops (by rw [connects, attaches, allocates]; rfl)

theorem padded_eq_iff (content : List UInt8) (delivered : Nat) :
    content.take delivered ++ List.replicate
        (content.length - (content.take delivered).length) 0 = content ↔
      ∀ byte ∈ content.drop delivered, byte = 0 := by
  have sizes : content.length - (content.take delivered).length =
      (content.drop delivered).length := by
    rw [List.length_take, List.length_drop]
    omega
  have parts : ∀ tail, content.take delivered ++ tail = content ↔
      content.drop delivered = tail := by
    intro tail
    have split := List.take_append_drop delivered content
    constructor
    · exact fun whole => (List.append_cancel_left (whole.trans split.symm)).symm
    · rintro rfl
      exact split
  rw [parts, sizes, List.eq_replicate_iff]
  exact and_iff_right rfl

theorem filled_eq_iff (content : List UInt8) (delivered fSize : Nat)
    (size : fSize = content.length % 2 ^ 32) :
    (content.take fSize).take delivered ++ List.replicate
        (fSize - ((content.take fSize).take delivered).length) 0 = content ↔
      content.length < 2 ^ 32 ∧ ∀ byte ∈ content.drop delivered, byte = 0 := by
  by_cases small : content.length < 2 ^ 32
  · rw [size, Nat.mod_eq_of_lt small, List.take_length, padded_eq_iff]
    exact (and_iff_right small).symm
  · refine iff_of_false ?_ (fun whole => small whole.1)
    intro same
    have long := congrArg List.length same
    rw [List.length_append, List.length_replicate, List.length_take, List.length_take] at long
    omega

theorem settled_of_not_opened (failed : steps.openRc ≠ 0)
    (spaces : world'.spaces = world.spaces) (opened : world'.opened = world.opened)
    (stale : ∀ cap, file_ds = some cap → world.spaces cap = none) :
    Settled content world (session (fromFile steps file_ds world')) ↔ file_ds = none := by
  rw [fromFile, if_pos failed]
  cases file_ds with
  | none => exact iff_of_true ⟨by rintro _ ⟨⟩, fun _ => spaces, opened⟩ rfl
  | some cap =>
    refine iff_of_false ?_ (Option.some_ne_none cap)
    intro settled
    have filled := settled.complete cap rfl
    rw [show (session _).2.spaces = world'.spaces from rfl, spaces, stale cap rfl]
      at filled
    contradiction

theorem not_settled_of_held {result : Ending × World} (hf : Nat)
    (opened : world'.opened = world.opened) (held : result.2.opened = hf :: world'.opened) :
    ¬ Settled content world result := by
  intro settled
  have same := settled.closed
  rw [held, opened] at same
  exact List.cons_ne_self _ _ same

theorem settled_fromFile_iff (opens : steps.openRc = 0) (opened : world'.opened = world.opened) :
    Settled steps.content world (session (fromFile steps file_ds world')) ↔
      steps.Filled := by
  rw [fromFile, if_neg (not_not_intro opens)]
  split
  next fails =>
    refine iff_of_false (not_settled_of_held steps.hf opened ?_) ?_
    · rw [session_snd]
      rfl
    · exact fun filled => fails filled.queries
  next queries =>
    split
    next allocates =>
      split
      next maps =>
        have size : (UInt32.ofNat steps.content.length).toNat =
            steps.content.length % 2 ^ 32 := UInt32.toNat_ofNat'
        have whole := filled_eq_iff steps.content steps.delivered _ size
        have held := (world'.hold steps.hf).alloc_write_spaces
          (UInt32.ofNat steps.content.length).toNat
          ((steps.content.take (UInt32.ofNat steps.content.length).toNat).take steps.delivered)
        constructor
        · intro settled
          have complete := settled.complete _ rfl
          obtain ⟨small, zeros⟩ := whole.mp (Option.some.inj (held.symm.trans complete))
          exact ⟨opens, not_not.mp queries, allocates, maps, small, zeros⟩
        · intro filled
          refine ⟨?_, fun refused => absurd rfl (refused _), ?_⟩
          · rintro cap ⟨⟩
            exact held.trans (congrArg some (whole.mpr ⟨filled.small, filled.zeros⟩))
          · exact (List.erase_cons_head ..).trans opened
      next unmapped =>
        refine iff_of_false (not_settled_of_held steps.hf opened rfl) ?_
        exact fun filled => unmapped filled.maps
    next full =>
      refine iff_of_false (not_settled_of_held steps.hf opened ?_) ?_
      · rw [session_snd]
        rfl
      · exact fun filled => full filled.allocates

/-- The session and its refusal keep to what is owed exactly when the image is
copied from the parent, or every step of the file succeeds, or the file cannot be
opened and no copy of the image has been freed. -/
theorem settled_iff (parent : List UInt8 → ParentRom) (fs : List UInt8 → FileSteps)
    (label : List UInt8) (world : World) :
    Settled (complete (parent label) (fs label)) world
        (Rom_session_component parent fs label world) ↔
      (parent label).Copied ∨ (fs label).Filled ∨
        (fs label).openRc ≠ 0 ∧ ¬ (parent label).Freed := by
  unfold Rom_session_component _init_file_ds complete
  by_cases copied : (parent label).Copied
  · obtain ⟨world', taken, image, opened⟩ := fromRom_of_copied world copied
    rw [if_pos copied, taken]
    refine iff_of_true ⟨?_, fun refused => absurd rfl (refused _), opened⟩ (.inl copied)
    rintro cap ⟨⟩
    exact image
  · obtain ⟨file_ds, world', left, spaces, opened, stale, valid⟩ :=
      fromRom_of_not_copied world copied
    rw [if_neg copied, left]
    by_cases opens : (fs label).openRc = 0
    · refine (settled_fromFile_iff opens opened).trans ?_
      simp only [copied, opens, ne_eq, not_true_eq_false, false_and, or_false, false_or]
    · refine (settled_of_not_opened opens spaces opened stale).trans (valid.trans ?_)
      have unfilled : ¬ (fs label).Filled := fun filled => opens filled.opens
      simp only [copied, opens, unfilled, ne_eq, not_false_eq_true, true_and, false_or]

/-- A parent without ROM modules. -/
def noParent : List UInt8 → ParentRom := fun _ =>
  { image := [], connects := false, attaches := false, allocates := false, maps := false }

/-- A file of one byte whose query fails. -/
def unqueried : List UInt8 → FileSteps := fun _ =>
  { content := [1], openRc := 0, hf := 7, queryRc := 87, allocates := true, maps := true,
    delivered := 1 }

def World.empty : World := ⟨fun _ => none, 0, [], fun _ _ => rfl⟩

/-- A file that is opened and cannot be queried stays open. -/
theorem not_settled_unqueried :
    ¬ ∀ parent fs label world, Settled (complete (parent label) (fs label)) world
      (Rom_session_component parent fs label world) := by
  intro settled
  have closed := (settled noParent unqueried [] World.empty).closed
  exact absurd closed (by decide)

end RomSession
end OsFree.Os2fs
