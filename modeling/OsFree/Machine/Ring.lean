import Mathlib.Data.List.Basic
import Mathlib.Data.Nat.ModEq
import Mathlib.Logic.Function.Basic

/-!
# Rings of slots

A ring keeps a sequence in consecutive slots of a fixed number of slots, where
the first slot comes behind the last one.  Slots are given by their numbers, and
a position of the sequence by its distance from the slot where it starts.
-/

namespace OsFree.Machine
namespace Ring

variable {α : Type} {slots : Nat → α} {size start length : Nat}

/-- The slot that is some places behind another one. -/
def slot (size start place : Nat) : Nat := (start + place) % size

/-- The sequence in a number of slots from a slot on. -/
def contents (slots : Nat → α) (size start length : Nat) : List α :=
  (List.range length).map fun place => slots (slot size start place)

/-- Store the values of the following places, a number of places from a place
on, each one place before. -/
def shift (size start : Nat) : Nat → Nat → (Nat → α) → Nat → α
  | 0, _, slots => slots
  | count + 1, place, slots =>
    shift size start count (place + 1) (Function.update slots (slot size start place)
        (slots (slot size start (place + 1))))

theorem slot_lt (positive : 0 < size) (start place : Nat) :
    slot size start place < size :=
  Nat.mod_lt _ positive

@[simp] theorem slot_zero (inside : start < size) : slot size start 0 = start :=
  Nat.mod_eq_of_lt inside

theorem slot_succ (size start place : Nat) :
    slot size (slot size start 1) place = slot size start (place + 1) := by
  unfold slot
  rw [Nat.mod_add_mod, Nat.add_assoc, Nat.add_comm 1 place]

theorem slot_slot (size start place place' : Nat) : slot size (slot size start place) place' =
      slot size start (place + place') := by
  unfold slot
  rw [Nat.mod_add_mod, Nat.add_assoc]

theorem slot_add_size (size start place : Nat) :
    slot size start (place + size) = slot size start place := by
  unfold slot
  rw [← Nat.add_assoc, Nat.add_mod_right]

theorem slot_injective {place place' : Nat} (near : place < size) (near' : place' < size)
    (same : slot size start place = slot size start place') :
    place = place' := by
  have congruent : Nat.ModEq size place place' := Nat.ModEq.add_left_cancel' start same
  rwa [Nat.ModEq, Nat.mod_eq_of_lt near, Nat.mod_eq_of_lt near'] at congruent

@[simp] theorem length_contents :
    (contents slots size start length).length = length := by
  simp [contents]

@[simp] theorem contents_zero : contents slots size start 0 = [] := rfl

theorem contents_succ : contents slots size start (length + 1) = contents slots size start length ++
        [slots (slot size start length)] := by
  simp [contents, List.range_succ]

theorem contents_cons : contents slots size start (length + 1) = slots (slot size start 0) ::
        contents slots size (slot size start 1) length := by
  unfold contents
  rw [List.range_succ_eq_map, List.map_cons, List.map_map]
  congr 1
  apply List.map_congr_left
  intro place _
  exact congrArg slots (slot_succ size start place).symm

theorem getElem?_contents {place : Nat} (inside : place < length) :
    (contents slots size start length)[place]? =
      some (slots (slot size start place)) := by
  simp [contents, inside]

theorem contents_congr {slots' : Nat → α} (same : ∀ place, place < length →
      slots' (slot size start place) = slots (slot size start place)) :
    contents slots' size start length = contents slots size start length := by
  apply List.map_congr_left
  intro place inside
  exact same place (List.mem_range.mp inside)

theorem contents_store (room : length < size) (value : α) :
    contents (Function.update slots (slot size start length) value) size start (length + 1) =
      contents slots size start length ++ [value] := by
  rw [contents_succ, Function.update_self]
  congr 1
  apply contents_congr
  intro place inside
  refine Function.update_of_ne (fun same => ?_) _ _
  exact Nat.ne_of_lt inside (slot_injective (Nat.lt_trans inside room) room same)

theorem shift_apply {count place other : Nat} (turn : place + count ≤ size)
    (away : 0 < place ∨ place + count < size) (near : other < size) :
    shift size start count place slots (slot size start other) =
      if place ≤ other ∧ other < place + count then
        slots (slot size start (other + 1))
      else slots (slot size start other) := by
  induction count generalizing place slots with
  | zero =>
    rw [if_neg (by omega)]
    rfl
  | succ count ih =>
    have placeNear : place < size := by omega
    rw [shift, ih (by omega) (.inl (Nat.succ_pos place))]
    by_cases behind : place + 1 ≤ other ∧ other < place + 1 + count
    · rw [if_pos behind, if_pos (by omega)]
      by_cases last : other + 1 < size
      · refine Function.update_of_ne (fun same => ?_) _ _
        have := slot_injective last placeNear same
        omega
      · have turned : other + 1 = size := by omega
        have first : slot size start (other + 1) = slot size start 0 := by
          rw [turned, ← slot_add_size size start 0, Nat.zero_add]
        refine Function.update_of_ne (fun same => ?_) _ _
        rw [first] at same
        have := slot_injective (Nat.zero_lt_of_lt near) placeNear same
        omega
    · rw [if_neg behind]
      by_cases here : other = place
      · rw [here, Function.update_self, if_pos (by omega)]
      · rw [if_neg (by omega)]
        refine Function.update_of_ne (fun same => ?_) _ _
        exact here (slot_injective near placeNear same)

theorem shift_slot (size start before count place : Nat) (slots : Nat → α) :
    shift size (slot size start before) count place slots =
      shift size start count (before + place) slots := by
  induction count generalizing place slots with
  | zero => rfl
  | succ count ih =>
    rw [shift, shift, ih, slot_slot, slot_slot]
    rfl

theorem contents_shift {count place : Nat} (inside : place < length)
    (fits : length ≤ size) (far : length ≤ place + count + 1)
    (turn : place + count ≤ size)
    (away : 0 < place ∨ place + count < size) :
    contents (shift size start count place slots) size start (length - 1) =
      (contents slots size start length).eraseIdx place := by
  apply List.ext_getElem?
  intro other
  by_cases within : other < length - 1
  · rw [getElem?_contents within, shift_apply turn away (by omega), List.getElem?_eraseIdx]
    by_cases before : other < place
    · rw [if_neg (by omega), if_pos before, getElem?_contents (by omega)]
    · rw [if_pos (by omega), if_neg before, getElem?_contents (by omega)]
  · rw [List.getElem?_eq_none (by simpa using within), List.getElem?_eq_none]
    rw [List.length_eraseIdx]
    simp only [length_contents]
    split <;> omega

end Ring
end OsFree.Machine
