import Mathlib.Data.Set.Lattice
import Mathlib.Order.CompletePartialOrder
import OsFree.Machine.Memory

/-!
# Spans of an address space

Bytes are written to a span of addresses, if it ends in the address space.  What
a span holds is kept by a write to a span apart from it.
-/

namespace OsFree.Machine

/-- Some addresses that follow one another. -/
structure Span where
  start : Nat
  length : Nat
  deriving DecidableEq

namespace Span

/-- The address behind a span. -/
def stop (span : Span) : Nat := span.start + span.length

/-- One of two spans is behind the other. -/
def Apart (span other : Span) : Prop := span.stop ≤ other.start ∨ other.stop ≤ span.start

instance (span other : Span) : Decidable (span.Apart other) := inferInstanceAs (Decidable (_ ∨ _))

end Span

namespace Memory

/-- The bytes that a memory has from an address on. -/
def HoldsAt (memory : Memory) (address : Nat) (bytes : List UInt8) : Prop :=
  ∀ k byte, bytes[k]? = some byte → memory (UInt32.ofNat (address + k)) = byte

/-- The memory after a write, which does not go past the last address. -/
def write (memory : Memory) (address : UInt32) (bytes : List UInt8) :
    Run Memory :=
  if address.toNat + bytes.length ≤ 4294967296 then
    .ok (memory.store ⟨address, bytes⟩)
  else
    .error .writeOutside

section

variable {memory memory' : Memory} {address : UInt32} {bytes : List UInt8}

theorem write_eq_ok_iff : memory.write address bytes = .ok memory' ↔
      address.toNat + bytes.length ≤ 4294967296 ∧
        memory.store ⟨address, bytes⟩ = memory' := by
  unfold write
  by_cases fits : address.toNat + bytes.length ≤ 4294967296
  · simp [fits]
  · simp [fits]

theorem holdsAt_store (fits : address.toNat + bytes.length ≤ 4294967296) :
    (memory.store ⟨address, bytes⟩).HoldsAt address.toNat bytes := by
  intro k byte found
  obtain ⟨within, -⟩ := List.getElem?_eq_some_iff.mp found
  have offset : (UInt32.ofNat (address.toNat + k) - address).toNat = k := by
    simp only [UInt32.toNat_sub, UInt32.toNat_ofNat', Nat.reducePow]
    omega
  apply store_of_byte
  unfold Copy.byte
  rw [offset]
  exact found

theorem HoldsAt.store {start : Nat} {held : List UInt8} (holds : memory.HoldsAt start held)
    (inside : start + held.length ≤ 4294967296)
    (fits : address.toNat + bytes.length ≤ 4294967296)
    (apart : Span.Apart ⟨start, held.length⟩ ⟨address.toNat, bytes.length⟩) :
    (memory.store ⟨address, bytes⟩).HoldsAt start held := by
  intro k byte found
  obtain ⟨within, -⟩ := List.getElem?_eq_some_iff.mp found
  have uncovered :
      ¬ Copy.Covers ⟨address, bytes⟩ (UInt32.ofNat (start + k)) := by
    unfold Span.Apart Span.stop at apart
    unfold Copy.Covers
    simp only [UInt32.toNat_sub, UInt32.toNat_ofNat', Nat.reducePow] at apart ⊢
    omega
  rw [store_of_not_covers uncovered]
  exact holds k byte found

end

end Memory

theorem pairwise_apart_append_singleton {spans : List Span} {span : Span} :
    (spans ++ [span]).Pairwise Span.Apart ↔
      spans.Pairwise Span.Apart ∧ ∀ other ∈ spans, other.Apart span := by
  rw [List.pairwise_append]
  constructor
  · rintro ⟨apart, -, last⟩
    exact ⟨apart, fun other member => last other member span (by simp)⟩
  · rintro ⟨apart, last⟩
    refine ⟨apart, List.pairwise_singleton .., ?_⟩
    intro other member span' member'
    rw [List.mem_singleton.mp member']
    exact last other member

/-!
## Ranges of addresses on a circle

A range of 32-bit addresses that passes the last address goes on at address
zero.  Two ranges with addresses meet exactly when one of them starts in the
other.
-/

/-- The addresses of a range: the sums are those of 32-bit integers. -/
def arc (start size : UInt32) : Set UInt32 := {addr | ∃ k < size, start + k = addr}

@[simp]
theorem mem_arc_iff {start size addr : UInt32} :
    addr ∈ arc start size ↔ addr - start < size := by
  constructor
  · intro inside
    obtain ⟨k, k_lt, rfl⟩ := inside
    rwa [UInt32.add_comm, UInt32.add_sub_cancel]
  · intro inside
    exact ⟨addr - start, inside, by rw [UInt32.add_comm, UInt32.sub_add_cancel]⟩

theorem start_mem_arc {start size : UInt32} (positive : 0 < size) :
    start ∈ arc start size := by
  simpa using positive

theorem start_mem_of_mem {start size start' size' addr : UInt32}
    (left : addr ∈ arc start size) (right : addr ∈ arc start' size') :
    start' ∈ arc start size ∨ start ∈ arc start' size' := by
  simp only [mem_arc_iff, UInt32.lt_iff_toNat_lt, UInt32.toNat_sub] at *
  have := start.toNat_lt
  have := start'.toNat_lt
  omega

theorem disjoint_arc_iff {start size start' size' : UInt32}
    (positive : 0 < size) (positive' : 0 < size') :
    Disjoint (arc start size) (arc start' size') ↔
      start' ∉ arc start size ∧ start ∉ arc start' size' := by
  rw [Set.disjoint_left]
  constructor
  · intro apart
    constructor
    · intro inside
      exact apart inside (start_mem_arc positive')
    · exact apart (start_mem_arc positive)
  · intro outside addr left right
    cases start_mem_of_mem left right with
    | inl inside => exact outside.1 inside
    | inr inside => exact outside.2 inside

end OsFree.Machine
