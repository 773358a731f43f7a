import Mathlib.Algebra.Ring.Nat
import Mathlib.Data.List.Basic

/-!
# Extents

A sequence of blocks that is stored in a list of extents.  An extent has the number
of its first block and its length; the blocks of the sequence are numbered through
the extents in the order of the list.
-/

namespace OsFree.Machine

/-- A run of consecutive blocks. -/
structure Extent where
  start : Nat
  length : Nat

namespace Extents

variable {extents : List Extent} {extent : Extent} {i j k n : Nat}

/-- The number of blocks in the first extents of the list. -/
def before (extents : List Extent) (j : Nat) : Nat := ((extents.take j).map Extent.length).sum

/-- The number of blocks in all extents. -/
def total (extents : List Extent) : Nat := (extents.map Extent.length).sum

/-- The block with a number in the sequence. -/
def locate : List Extent → Nat → Nat
  | [], _ => 0
  | extent :: rest, i =>
    if i < extent.length then extent.start + i
    else locate rest (i - extent.length)

@[simp] theorem before_zero : before extents 0 = 0 := rfl

@[simp] theorem before_cons_succ :
    before (extent :: extents) (j + 1) = extent.length + before extents j := rfl

theorem before_succ (here : extents[j]? = some extent) :
    before extents (j + 1) = before extents j + extent.length := by
  unfold before
  rw [List.take_add_one, here]
  simp

theorem before_of_length_le (all : extents.length ≤ j) :
    before extents j = total extents := by
  unfold before total
  rw [List.take_of_length_le all]

theorem locate_before_add (here : extents[j]? = some extent) (inside : k < extent.length) :
    locate extents (before extents j + k) = extent.start + k := by
  induction extents generalizing j with
  | nil => cases here
  | cons first rest ih =>
    cases j with
    | zero =>
      cases here
      rw [before_zero, Nat.zero_add, locate, if_pos inside]
    | succ j =>
      rw [before_cons_succ, Nat.add_assoc, locate, if_neg (by omega), Nat.add_sub_cancel_left]
      exact ih here

/-- A place in a list of extents: the extent, and the block in it. -/
structure Cursor where
  extent : Nat
  block : Nat
  deriving DecidableEq

/-- The cursor is at the block with a number in the sequence, or behind them all. -/
structure Cursor.At (cursor : Cursor) (extents : List Extent) (i : Nat) : Prop where
  number : i = before extents cursor.extent + cursor.block
  inside : ∀ extent, extents[cursor.extent]? = some extent → cursor.block < extent.length

/-- Move a cursor to the next block, and to the next extent behind the last block of
one. -/
def Cursor.next (cursor : Cursor) (extents : List Extent) : Cursor :=
  let block := cursor.block + 1
  if ((extents[cursor.extent]?).map Extent.length).getD 0 ≤ block then
    ⟨cursor.extent + 1, 0⟩
  else ⟨cursor.extent, block⟩

namespace Cursor

variable {cursor : Cursor}

theorem At.extent_eq (here : cursor.At extents i) (inside : i < total extents) :
    ∃ extent, extents[cursor.extent]? = some extent := by
  cases found : extents[cursor.extent]? with
  | some extent => exact ⟨extent, rfl⟩
  | none =>
    have number := here.number
    rw [before_of_length_le (List.getElem?_eq_none_iff.mp found)] at number
    omega

theorem at_zero (positive : ∀ extent ∈ extents, 0 < extent.length) :
    (⟨0, 0⟩ : Cursor).At extents 0 :=
  ⟨rfl, fun extent here => positive extent (List.mem_of_getElem? here)⟩

theorem At.next (here : cursor.At extents i) (positive : ∀ extent ∈ extents, 0 < extent.length)
    (inside : i < total extents) :
    (cursor.next extents).At extents (i + 1) := by
  obtain ⟨extent, found⟩ := here.extent_eq inside
  have number := here.number
  have block := here.inside extent found
  unfold Cursor.next
  simp only [found, Option.map_some, Option.getD_some]
  split
  · refine ⟨?_, fun next here => positive next (List.mem_of_getElem? here)⟩
    dsimp only
    rw [before_succ found]
    omega
  · refine ⟨by dsimp only; omega, fun same here => ?_⟩
    have equal := found.symm.trans here
    cases equal
    dsimp only
    omega

theorem At.locate_add (here : cursor.At extents i) (found : extents[cursor.extent]? = some extent)
    (inside : cursor.block + k < extent.length) :
    locate extents (i + k) = extent.start + cursor.block + k := by
  rw [here.number, Nat.add_assoc, locate_before_add found inside, Nat.add_assoc]

end Cursor
end Extents
end OsFree.Machine
