import OsFree.Machine.CString
import OsFree.Machine.Span

/-!
# Strings in an arena

Memory is taken from the start of an arena to its end and never given back.  A
string that stands in the part that has been taken is kept when another one is
put in what is left, and when a write is apart from it.
-/

namespace OsFree.Machine

/-- The bytes of an arena, and how many of them have been taken. -/
structure Arena where
  bytes : List UInt8
  top : Nat
  deriving DecidableEq

namespace Arena

variable (arena : Arena)

/-- Read the string at an offset. -/
def stringAt (offset : Nat) : Run (List UInt8) := readString (arena.bytes.drop offset)

/-- Take some bytes; nothing cannot be taken. -/
def alloc (size : Nat) : Option (Nat × Arena) :=
  if arena.bytes.length < arena.top + size ∨ size = 0 then none
  else some (arena.top, { arena with top := arena.top + size })

/-- Copy a string with its terminator to an offset. -/
def copyTo (offset : Nat) (text : List UInt8) : Run Arena :=
  (fun bytes => { arena with bytes }) <$> writeBytes arena.bytes offset (text ++ [0])

/-- The bytes from an offset on as far as the first zero. -/
def textAt (offset : Nat) : List UInt8 := (arena.bytes.drop offset).takeWhile (· ≠ 0)

/-- A string ends in the part that has been taken. -/
def Stands (offset : Nat) : Prop := offset + (arena.textAt offset).length < arena.top ∧
    arena.top ≤ arena.bytes.length

/-- The bytes of a string. -/
def span (offset : Nat) : Span := ⟨offset, (arena.textAt offset).length + 1⟩

/-- The arena with a string written somewhere. -/
@[simps] def put (offset : Nat) (text : List UInt8) : Arena where
  bytes := putBytes arena.bytes offset (text ++ [0])
  top := arena.top

/-- The arena with some bytes taken. -/
@[simps] def take (size : Nat) : Arena where
  bytes := arena.bytes
  top := arena.top + size

/-- The arena with a string in the bytes that are taken next. -/
def placed (text : List UInt8) : Arena := (arena.take (text.length + 1)).put arena.top text

variable {arena} {offset offset' size : Nat} {text : List UInt8}

theorem alloc_of_fits (positive : size ≠ 0) (fits : arena.top + size ≤ arena.bytes.length) :
    arena.alloc size = some (arena.top, arena.take size) := by
  rw [alloc, if_neg (not_or.mpr ⟨Nat.not_lt.mpr fits, positive⟩)]
  rfl

theorem alloc_of_full (full : arena.bytes.length < arena.top + size) :
    arena.alloc size = none :=
  if_pos (.inl full)

theorem copyTo_of_fits (fits : offset + text.length + 1 ≤ arena.bytes.length) :
    arena.copyTo offset text = .ok (arena.put offset text) := by
  have inside : offset + (text ++ [0]).length ≤ arena.bytes.length := by
    simpa [Nat.add_assoc] using fits
  rw [copyTo, writeBytes, if_pos inside]
  rfl

theorem textAt_of_contains (nonzero : 0 ∉ text)
    (contains : Contains arena.bytes offset (text ++ [0])) :
    arena.textAt offset = text := by
  obtain ⟨rest, equal⟩ := contains.drop_eq
  rw [textAt, equal, List.append_assoc, List.takeWhile_append_of_pos]
  · simp
  · intro byte member
    simp only [ne_eq, decide_eq_true_eq]
    rintro rfl
    exact nonzero member

theorem zero_notMem_textAt : 0 ∉ arena.textAt offset := by
  intro member
  have different := List.all_takeWhile (p := fun byte : UInt8 => decide (byte ≠ 0))
    (l := arena.bytes.drop offset)
  rw [List.all_eq_true] at different
  simpa using different 0 member

theorem Stands.contains (stands : arena.Stands offset) :
    Contains arena.bytes offset (arena.textAt offset ++ [0]) := by
  obtain ⟨below, within⟩ := stands
  unfold textAt at below ⊢
  generalize rest : arena.bytes.drop offset = bytes at below ⊢
  have ends : (bytes.takeWhile (· ≠ 0)).length < bytes.length := by
    rw [← rest] at below ⊢
    rw [List.length_drop]
    omega
  clear below
  unfold Contains
  rw [rest, List.length_append, List.length_singleton]
  clear rest
  induction bytes with
  | nil => cases ends
  | cons byte bytes ih =>
    rw [List.takeWhile_cons] at ends ⊢
    by_cases zero : byte = 0
    · simp [zero]
    · simp only [ne_eq, zero, not_false_eq_true, decide_true, if_true,
        List.length_cons, List.take_succ_cons, List.cons_append] at ends ⊢
      rw [ih (Nat.lt_of_succ_lt_succ ends)]

theorem Stands.stringAt (stands : arena.Stands offset) :
    arena.stringAt offset = .ok (arena.textAt offset) := by
  obtain ⟨rest, equal⟩ := stands.contains.drop_eq
  rw [Arena.stringAt, equal, List.append_assoc]
  exact readString_of_ends zero_notMem_textAt

theorem Stands.stop_le (stands : arena.Stands offset) :
    (arena.span offset).stop ≤ arena.top := by
  have below := stands.1
  exact below

section

variable (nonzero : 0 ∉ text) (fits : offset + text.length + 1 ≤ arena.bytes.length)
include fits

theorem length_put : (arena.put offset text).bytes.length = arena.bytes.length := by
  rw [put_bytes, putBytes_length]
  simpa [Nat.add_assoc] using fits

include nonzero in
theorem textAt_put_self : (arena.put offset text).textAt offset = text := by
  apply textAt_of_contains nonzero
  apply Contains.putBytes_self
  simpa [Nat.add_assoc] using fits

theorem textAt_put_of_apart (stands : arena.Stands offset')
    (apart : (arena.span offset').Apart ⟨offset, text.length + 1⟩) :
    (arena.put offset text).textAt offset' = arena.textAt offset' := by
  apply textAt_of_contains zero_notMem_textAt
  apply stands.contains.putBytes
  · simpa [Nat.add_assoc] using fits
  · simpa [Span.Apart, Span.stop, span, Nat.add_assoc] using apart

theorem Stands.put (stands : arena.Stands offset')
    (apart : (arena.span offset').Apart ⟨offset, text.length + 1⟩) :
    (arena.put offset text).Stands offset' := by
  unfold Stands
  rw [textAt_put_of_apart fits stands apart, length_put fits, put_top]
  exact stands

include nonzero in
theorem stands_put_self (below : offset + text.length < arena.top)
    (within : arena.top ≤ arena.bytes.length) :
    (arena.put offset text).Stands offset := by
  unfold Stands
  rw [textAt_put_self nonzero fits, length_put fits, put_top]
  exact ⟨below, within⟩

end

theorem Stands.take (stands : arena.Stands offset)
    (fits : arena.top + size ≤ arena.bytes.length) : (arena.take size).Stands offset :=
  ⟨Nat.lt_of_lt_of_le stands.1 (Nat.le_add_right _ _), fits⟩

section

variable (fits : arena.top + text.length + 1 ≤ arena.bytes.length)
include fits

theorem Stands.placed (stands : arena.Stands offset) : (arena.placed text).Stands offset ∧
      (arena.placed text).textAt offset = arena.textAt offset := by
  have stands' := @Stands.take _ _ (text.length + 1) stands fits
  have apart : ((arena.take (text.length + 1)).span offset).Apart
      ⟨arena.top, text.length + 1⟩ := .inl stands.stop_le
  exact ⟨stands'.put fits apart, textAt_put_of_apart fits stands' apart⟩

theorem placed_self (nonzero : 0 ∉ text) : (arena.placed text).Stands arena.top ∧
      (arena.placed text).textAt arena.top = text :=
  ⟨stands_put_self nonzero fits (Nat.lt_succ_self _) fits, textAt_put_self nonzero fits⟩

theorem placed_length : (arena.placed text).bytes.length = arena.bytes.length := length_put fits

end

@[simp] theorem placed_top : (arena.placed text).top = arena.top + (text.length + 1) :=
  rfl

end Arena

/-!
## Owners of strings

Each owner has a string in an arena at most.  The strings of two owners are apart
unless the owners share one.
-/

/-- What owners have in an arena: the place of a string, and with whom it is
shared. -/
structure Ownership (ω : Type) where
  place : ω → Option Nat
  shares : ω → ω → Prop

namespace Arena

variable {ω : Type}

/-- Owners have strings that stand in the arena, and are apart. -/
structure Owned (arena : Arena) (owners : Ownership ω) : Prop where
  stands : ∀ owner place, owners.place owner = some place → arena.Stands place
  apart : ∀ owner owner' place place', owner ≠ owner' → owners.place owner = some place →
    owners.place owner' = some place' → ¬ owners.shares owner owner' →
    (arena.span place).Apart (arena.span place')

variable {arena arena' : Arena} {owners owners' : Ownership ω} {owner : ω} {place : Nat}
  {text : List UInt8}

theorem span_eq (same : arena'.textAt place = arena.textAt place) :
    arena'.span place = arena.span place := by
  unfold span
  rw [same]

theorem not_apart_self : ¬ (arena.span place).Apart (arena.span place) := by
  simp only [Span.Apart, Span.stop, span]
  omega

theorem Owned.of_fresh (owned : arena.Owned owners) (changed : ω → Prop)
    (kept : ∀ place, arena.Stands place →
      arena'.Stands place ∧ arena'.textAt place = arena.textAt place)
    (same : ∀ owner, ¬ changed owner → owners'.place owner = owners.place owner)
    (shares : ∀ owner owner', ¬ changed owner → ¬ changed owner' →
      owners.shares owner owner' → owners'.shares owner owner')
    (fresh : ∀ owner place, changed owner → owners'.place owner = some place →
      arena'.Stands place ∧ arena.top ≤ place)
    (between : ∀ owner owner' place place', changed owner → changed owner' →
      owner ≠ owner' → owners'.place owner = some place → owners'.place owner' = some place' →
      ¬ owners'.shares owner owner' → (arena'.span place).Apart (arena'.span place')) :
    arena'.Owned owners' := by
  -- A string that was there ends before those that are new.
  have before : ∀ owner owner' place place', ¬ changed owner → changed owner' →
      owners'.place owner = some place → owners'.place owner' = some place' →
      (arena'.span place).Apart (arena'.span place') := by
    intro owner owner' place place' old new at_place at_place'
    rw [same owner old] at at_place
    have stands := owned.stands owner place at_place
    refine .inl (Nat.le_trans ?_ (fresh owner' place' new at_place').2)
    rw [span_eq (kept place stands).2]
    exact stands.stop_le
  constructor
  · intro owner place at_place
    by_cases new : changed owner
    · exact (fresh owner place new at_place).1
    · rw [same owner new] at at_place
      exact (kept place (owned.stands owner place at_place)).1
  · intro owner owner' place place' different at_place at_place' alone
    by_cases new : changed owner
    · by_cases new' : changed owner'
      · exact between owner owner' place place' new new' different at_place at_place' alone
      · exact Or.symm (before owner' owner place' place new' new at_place' at_place)
    · by_cases new' : changed owner'
      · exact before owner owner' place place' new new' at_place at_place'
      · rw [same owner new] at at_place
        rw [same owner' new'] at at_place'
        rw [span_eq (kept place (owned.stands owner place at_place)).2,
          span_eq (kept place' (owned.stands owner' place' at_place')).2]
        exact owned.apart owner owner' place place' different at_place at_place'
          (fun sharing => alone (shares owner owner' new new' sharing))

theorem Owned.of_move (owned : arena.Owned owners)
    (same : ∀ other, other ≠ owner → owners'.place other = owners.place other)
    (shares : ∀ other other', other ≠ owner → other' ≠ owner →
      owners.shares other other' → owners'.shares other other')
    (symmetric : ∀ other, owners'.shares owner other → owners'.shares other owner)
    (stands : arena.Stands place) (moved : owners'.place owner = some place)
    (free : ∀ other place', other ≠ owner → owners.place other = some place' →
      ¬ owners'.shares owner other → (arena.span place).Apart (arena.span place')) :
    arena.Owned owners' := by
  have apart : ∀ other place', other ≠ owner → owners'.place other = some place' →
      ¬ owners'.shares owner other → (arena.span place).Apart (arena.span place') := by
    intro other place' different at_place
    rw [same other different] at at_place
    exact free other place' different at_place
  constructor
  · intro other place' at_place
    by_cases self : other = owner
    · rw [self, moved] at at_place
      cases at_place
      exact stands
    · rw [same other self] at at_place
      exact owned.stands other place' at_place
  · intro other other' place' place'' different at_place at_place' alone
    by_cases self : other = owner
    · subst self
      obtain rfl := Option.some.inj (moved.symm.trans at_place)
      exact apart other' place'' different.symm at_place' alone
    · by_cases self' : other' = owner
      · subst self'
        obtain rfl := Option.some.inj (moved.symm.trans at_place')
        exact Or.symm (apart other place' self at_place
          (fun sharing => alone (symmetric other sharing)))
      · rw [same other self] at at_place
        rw [same other' self'] at at_place'
        exact owned.apart other other' place' place'' different at_place at_place'
          (fun sharing => alone (shares other other' self self' sharing))

section

variable (owned : arena.Owned owners) (at_place : owners.place owner = some place)
  (together : ∀ other, owners.shares owner other → owners.place other = some place)
  (short : text.length ≤ (arena.textAt place).length) (nonzero : 0 ∉ text)
include owned at_place

include short in
theorem Owned.fits : place + text.length + 1 ≤ arena.bytes.length := by
  obtain ⟨below, within⟩ := owned.stands owner place at_place
  omega

include together in
theorem Owned.elsewhere {other : ω} {place' : Nat} (at_place' : owners.place other = some place')
    (different : place' ≠ place) : (arena.span place').Apart (arena.span place) := by
  have alone : ¬ owners.shares owner other := by
    intro sharing
    exact different (Option.some.inj (at_place'.symm.trans (together other sharing)))
  have distinct : owner ≠ other := by
    rintro rfl
    exact different (Option.some.inj (at_place'.symm.trans at_place))
  exact Or.symm (owned.apart owner other place place' distinct at_place at_place' alone)

include together short in
theorem Owned.kept_by_put {other : ω} {place' : Nat}
    (at_place' : owners.place other = some place') (different : place' ≠ place) :
    (arena.put place text).Stands place' ∧
      (arena.put place text).textAt place' = arena.textAt place' := by
  have fits := owned.fits at_place short
  have stands := owned.stands other place' at_place'
  have apart : (arena.span place').Apart ⟨place, text.length + 1⟩ := by
    have elsewhere := owned.elsewhere at_place together at_place' different
    unfold Span.Apart Span.stop span at elsewhere ⊢
    simp only at elsewhere ⊢
    omega
  exact ⟨stands.put fits apart, textAt_put_of_apart fits stands apart⟩

include short nonzero in
theorem Owned.put_self : (arena.put place text).Stands place ∧
    (arena.put place text).textAt place = text := by
  have fits := owned.fits at_place short
  obtain ⟨below, within⟩ := owned.stands owner place at_place
  exact ⟨stands_put_self nonzero fits (by omega) within, textAt_put_self nonzero fits⟩

include together short nonzero in
/-- A string is written over with one that is not longer. -/
theorem Owned.put : (arena.put place text).Owned owners := by
  have self := owned.put_self at_place short nonzero
  -- No string is longer than it was.
  have within : ∀ other place', owners.place other = some place' →
      (arena.put place text).Stands place' ∧
        ((arena.put place text).textAt place').length ≤ (arena.textAt place').length := by
    intro other place' at_place'
    by_cases same : place' = place
    · rw [same, self.2]
      exact ⟨self.1, short⟩
    · obtain ⟨stands, text⟩ := owned.kept_by_put at_place together short at_place' same
      exact ⟨stands, Nat.le_of_eq (congrArg List.length text)⟩
  constructor
  · intro other place' at_place'
    exact (within other place' at_place').1
  · intro other other' place' place'' different at_place' at_place'' alone
    have apart := owned.apart other other' place' place'' different at_place' at_place'' alone
    have shorter := (within other place' at_place').2
    have shorter' := (within other' place'' at_place'').2
    unfold Span.Apart Span.stop span at apart ⊢
    simp only at apart ⊢
    omega

end

end Arena

end OsFree.Machine
