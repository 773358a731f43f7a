import Mathlib.Data.List.Induction
import OsFree.Machine.Word

/-!
# Memory filled by copies

The memory of a 32-bit address space, and what it holds after a sequence of
copies that are laid out in blocks of one size.
-/

namespace OsFree.Machine

/-- The bytes of a 32-bit address space. -/
abbrev Memory := UInt32 → UInt8

/-- Bytes copied to an address. -/
structure Copy where
  address : UInt32
  bytes : List UInt8
  deriving DecidableEq

/-- The copy changes the byte at an address. -/
def Copy.Covers (copy : Copy) (address : UInt32) : Prop :=
  (address - copy.address).toNat < copy.bytes.length

namespace Memory

/-- The memory after a copy. -/
def store (memory : Memory) (copy : Copy) : Memory := fun address =>
  copy.bytes.getD (address - copy.address).toNat (memory address)

/-- The memory after several copies. -/
def storeAll (memory : Memory) (copies : List Copy) : Memory := copies.foldl store memory

variable {memory : Memory} {address : UInt32}

theorem store_of_not_covers {copy : Copy} (uncovered : ¬ copy.Covers address) :
    memory.store copy address = memory address := by
  unfold store
  rw [List.getD_eq_getElem?_getD,
    List.getElem?_eq_none (Nat.le_of_not_lt uncovered), Option.getD_none]

theorem store_congr {memory' : Memory} (same : memory address = memory' address) (copy : Copy) :
    memory.store copy address = memory'.store copy address := by
  unfold store
  rw [same]

theorem storeAll_of_not_covers {copies : List Copy}
    (uncovered : ∀ copy ∈ copies, ¬ copy.Covers address) :
    memory.storeAll copies address = memory address := by
  induction copies generalizing memory with
  | nil => rfl
  | cons copy copies ih =>
    have rest := fun other member =>
      uncovered other (List.mem_cons_of_mem copy member)
    calc (memory.store copy).storeAll copies address
        = memory.store copy address := ih rest
      _ = memory address := store_of_not_covers (uncovered copy (List.mem_cons_self ..))

theorem storeAll_of_covered_once {copies : List Copy} {k : Nat} {copy : Copy}
    (found : copies[k]? = some copy)
    (others : ∀ i other, copies[i]? = some other → i ≠ k → ¬ other.Covers address) :
    memory.storeAll copies address = memory.store copy address := by
  induction copies generalizing memory k with
  | nil => cases found
  | cons first copies ih =>
    cases k with
    | zero =>
      cases found
      have rest : ∀ other ∈ copies, ¬ other.Covers address := by
        intro other member
        obtain ⟨i, found⟩ := List.mem_iff_getElem?.mp member
        exact others (i + 1) other found (Nat.succ_ne_zero i)
      exact storeAll_of_not_covers rest
    | succ k =>
      have before : memory.store first address = memory address :=
        store_of_not_covers (others 0 first rfl (Nat.succ_ne_zero k).symm)
      calc (memory.store first).storeAll copies address
          = (memory.store first).store copy address := by
            apply ih found
            intro i other found different
            exact others (i + 1) other found (by omega)
        _ = memory.store copy address := store_congr before copy

end Memory

instance (copy : Copy) (address : UInt32) : Decidable (copy.Covers address) :=
  inferInstanceAs (Decidable (_ < _))

/-- The last copy that changes the byte at an address. -/
def lastCopy (copies : List Copy) (address : UInt32) : Option Copy :=
  copies.reverse.find? fun copy => copy.Covers address

/-- The byte that a copy has for an address. -/
def Copy.byte (copy : Copy) (address : UInt32) : Option UInt8 :=
  copy.bytes[(address - copy.address).toNat]?

variable {copy : Copy} {address : UInt32} {memory : Memory} {copies : List Copy}

theorem Copy.byte_of_covers
    (covers : copy.Covers address) : ∃ byte, copy.byte address = some byte :=
  ⟨_, List.getElem?_eq_getElem covers⟩

theorem Memory.store_of_byte {byte : UInt8} (found : copy.byte address = some byte) :
    memory.store copy address = byte := by
  unfold store
  rw [List.getD_eq_getElem?_getD, show copy.bytes[_]? = _ from found]
  rfl

theorem lastCopy_eq_none_iff : lastCopy copies address = none ↔
      ∀ copy ∈ copies, ¬ copy.Covers address := by
  unfold lastCopy
  rw [List.find?_eq_none]
  simp only [List.mem_reverse, decide_eq_true_eq]

theorem Memory.storeAll_of_lastCopy (last : lastCopy copies address = some copy) :
    memory.storeAll copies address = memory.store copy address := by
  induction copies using List.reverseRecOn generalizing memory with
  | nil => cases last
  | append_singleton copies final ih =>
    unfold lastCopy at last
    rw [List.reverse_append, List.reverse_singleton, List.singleton_append, List.find?_cons] at last
    rw [storeAll, List.foldl_append]
    change (memory.storeAll copies).store final address = _
    by_cases covers : final.Covers address
    · simp only [covers, decide_true, Option.some.injEq] at last
      obtain ⟨byte, found⟩ := Copy.byte_of_covers covers
      rw [← last, store_of_byte found, store_of_byte found]
    · simp only [covers, decide_false] at last
      rw [store_of_not_covers covers]
      exact ih last

/-- The four bytes at an address are those of a word. -/
def HoldsLong (memory : Memory) (address value : UInt32) : Prop :=
  ∀ k < 4, (longBytes value)[k]? = some (memory (address + UInt32.ofNat k))

theorem holdsLong_storeAll_iff {value : UInt32}
    (covered : ∀ k < 4, ∃ copy ∈ copies, copy.Covers (address + UInt32.ofNat k)) :
    HoldsLong (memory.storeAll copies) address value ↔ ∀ k < 4, ∃ copy,
        lastCopy copies (address + UInt32.ofNat k) = some copy ∧
          copy.byte (address + UInt32.ofNat k) = (longBytes value)[k]? := by
  have stored : ∀ k < 4, ∃ copy byte, lastCopy copies (address + UInt32.ofNat k) = some copy ∧
        copy.byte (address + UInt32.ofNat k) = some byte ∧
        memory.storeAll copies (address + UInt32.ofNat k) = byte := by
    intro k small
    cases last : lastCopy copies (address + UInt32.ofNat k) with
    | none =>
      obtain ⟨copy, member, covers⟩ := covered k small
      exact absurd covers (lastCopy_eq_none_iff.mp last copy member)
    | some copy =>
      have covers := List.find?_some last
      simp only [decide_eq_true_eq] at covers
      obtain ⟨byte, found⟩ := Copy.byte_of_covers covers
      refine ⟨copy, byte, rfl, found, ?_⟩
      rw [Memory.storeAll_of_lastCopy last]
      exact Memory.store_of_byte found
  constructor
  · intro holds k small
    obtain ⟨copy, byte, last, found, held⟩ := stored k small
    exact ⟨copy, last, found.trans (held ▸ (holds k small).symm)⟩
  · intro bytes k small
    obtain ⟨copy, byte, last, found, held⟩ := stored k small
    obtain ⟨copy', last', same⟩ := bytes k small
    rw [last] at last'
    cases last'
    rw [← same, found, held]

/-- The copies fill blocks of one size, one after the other. -/
structure Tiled (start size : UInt32) (copies : List Copy) : Prop where
  address : ∀ {k : Nat} {copy : Copy}, copies[k]? = some copy →
    copy.address = start + size * UInt32.ofNat k
  length_le : ∀ {k : Nat} {copy : Copy}, copies[k]? = some copy → copy.bytes.length ≤ size.toNat
  fits : size.toNat * copies.length ≤ 4294967296

namespace Tiled

variable {start size : UInt32} {copies : List Copy}

variable {k : Nat}

theorem toNat_offset {count : Nat} (fits : size.toNat * count ≤ 4294967296)
    (nonempty : 0 < size.toNat) (within : k < count) :
    (size * UInt32.ofNat k).toNat = size.toNat * k ∧
      size.toNat * k + size.toNat ≤ 4294967296 := by
  have last : size.toNat * (k + 1) ≤ size.toNat * count := Nat.mul_le_mul_left _ within
  have one : k ≤ size.toNat * k := Nat.le_mul_of_pos_left k nonempty
  rw [Nat.mul_add, Nat.mul_one] at last
  have small : k % 4294967296 = k := Nat.mod_eq_of_lt (by omega)
  have product : size.toNat * k % 4294967296 = size.toNat * k := Nat.mod_eq_of_lt (by omega)
  constructor
  · simp only [UInt32.toNat_mul, UInt32.toNat_ofNat', Nat.reducePow, small, product]
  · omega

theorem not_covers (tiled : Tiled start size copies) {i j : Nat}
    {other : Copy} (within : k < copies.length)
    (found : copies[i]? = some other) (different : i ≠ k)
    (inside : j < size.toNat) :
    ¬ other.Covers (start + size * UInt32.ofNat k + UInt32.ofNat j) := by
  obtain ⟨here, hereFits⟩ := toNat_offset tiled.fits (by omega) within
  obtain ⟨bound, -⟩ := List.getElem?_eq_some_iff.mp found
  obtain ⟨there, thereFits⟩ := toNat_offset tiled.fits (by omega) bound
  have short := tiled.length_le found
  have apart : size.toNat * i + size.toNat ≤ size.toNat * k ∨
      size.toNat * k + size.toNat ≤ size.toNat * i := by
    rcases Nat.lt_or_gt_of_ne different with before | behind
    · left
      exact Nat.mul_le_mul_left size.toNat before
    · right
      exact Nat.mul_le_mul_left size.toNat behind
  unfold Copy.Covers
  rw [tiled.address found]
  simp only [UInt32.toNat_sub, UInt32.toNat_add, here, there, UInt32.toNat_ofNat', Nat.reducePow]
  omega

theorem storeAll (tiled : Tiled start size copies) (memory : Memory)
    {j : Nat} {copy : Copy} (found : copies[k]? = some copy)
    (inside : j < size.toNat) :
    memory.storeAll copies (start + size * UInt32.ofNat k + UInt32.ofNat j) = copy.bytes.getD j
        (memory (start + size * UInt32.ofNat k + UInt32.ofNat j)) := by
  have within := (List.getElem?_eq_some_iff.mp found).1
  rw [Memory.storeAll_of_covered_once found fun i other found different =>
    tiled.not_covers within found different inside]
  have offset : (start + size * UInt32.ofNat k + UInt32.ofNat j -
      (start + size * UInt32.ofNat k)).toNat = j := by
    have bound := (start + size * UInt32.ofNat k).toNat_lt
    have small := size.toNat_lt
    simp only [UInt32.toNat_sub, UInt32.toNat_add, UInt32.toNat_ofNat', Nat.reducePow] at bound ⊢
    omega
  unfold Memory.store
  rw [tiled.address found, offset]

end Tiled

end OsFree.Machine
