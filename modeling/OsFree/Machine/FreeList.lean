import Mathlib.Data.List.GetD
import OsFree.Machine.Span

/-!
# A list threaded through memory

Pointers are words of four bytes.  The free cells of a pool form a list: the
pool keeps the address of the first cell, and the first word of each cell is
the address of the next one.  A null pointer ends the list.
-/

namespace OsFree.Machine

namespace Memory

variable (memory : Memory)

/-- The word at an address. -/
def long (address : UInt32) : UInt32 :=
  longOf (memory address) (memory (address + 1)) (memory (address + 2)) (memory (address + 3))

/-- The memory with another word at an address. -/
def putLong (address value : UInt32) : Memory := memory.store ⟨address, longBytes value⟩

/-- Read the word that a pointer refers to. -/
def readPointer (address : UInt32) : Run UInt32 :=
  if address = 0 then .error .nullPointer else .ok (memory.long address)

/-- Write the word that a pointer refers to. -/
def writePointer (address value : UInt32) : Run Memory :=
  if address = 0 then .error .nullPointer
  else .ok (memory.putLong address value)

variable {memory}

theorem readPointer_of_ne {address : UInt32} (nonnull : address ≠ 0) :
    memory.readPointer address = .ok (memory.long address) :=
  if_neg nonnull

theorem writePointer_of_ne {address value : UInt32} (nonnull : address ≠ 0) :
    memory.writePointer address value = .ok (memory.putLong address value) :=
  if_neg nonnull

theorem store_outside {copy : Copy} {address : UInt32}
    (outside : copy.bytes.length ≤ (address - copy.address).toNat) :
    memory.store copy address = memory address :=
  store_of_not_covers (Nat.not_lt.mpr outside)

theorem long_congr {memory' : Memory} {address : UInt32}
    (same : ∀ k < 4, memory' (address + k) = memory (address + k)) :
    memory'.long address = memory.long address := by
  have first := same 0 (by decide)
  rw [UInt32.add_zero] at first
  simp only [long, first, same 1 (by decide), same 2 (by decide), same 3 (by decide)]

@[simp]
theorem long_putLong (memory : Memory) (address value : UInt32) :
    (memory.putLong address value).long address = value := by
  have bytes : ∀ k < 4, memory.putLong address value (address + k) =
      (longBytes value).getD k.toNat 0 := by
    intro k small
    have offset : address + k - address = k := by
      rw [UInt32.add_comm, UInt32.add_sub_cancel]
    have within : k.toNat < (longBytes value).length := by
      simpa using UInt32.lt_iff_toNat_lt.mp small
    simp only [putLong, store, offset]
    rw [List.getD_eq_getElem _ _ within, List.getD_eq_getElem _ _ within]
  have first := bytes 0 (by decide)
  rw [UInt32.add_zero] at first
  simp only [long, first, bytes 1 (by decide), bytes 2 (by decide), bytes 3 (by decide)]
  exact longOf_longBytes value

end Memory

/-- The cells of a list, from the pointer to the first of them. -/
inductive FreeList (memory : Memory) : UInt32 → List UInt32 → Prop where
  | nil : FreeList memory 0 []
  | cons {head : UInt32} {cells : List UInt32} (nonnull : head ≠ 0)
      (rest : FreeList memory (memory.long head) cells) :
      FreeList memory head (head :: cells)

namespace FreeList

variable {memory memory' : Memory} {head : UInt32} {cells : List UInt32}

theorem eq_nil_iff (list : FreeList memory head cells) :
    cells = [] ↔ head = 0 := by
  cases list with
  | nil => simp
  | cons nonnull rest => simp [nonnull]

theorem of_cons {cell : UInt32} (list : FreeList memory head (cell :: cells)) :
    head = cell ∧ head ≠ 0 ∧ FreeList memory (memory.long head) cells := by
  cases list with
  | cons nonnull rest => exact ⟨rfl, nonnull, rest⟩

theorem congr (list : FreeList memory head cells)
    (same : ∀ cell ∈ cells, memory'.long cell = memory.long cell) :
    FreeList memory' head cells := by
  induction list with
  | nil => exact nil
  | cons nonnull rest ih =>
    apply cons nonnull
    rw [same _ (List.mem_cons_self ..)]
    apply ih
    intro cell mem
    exact same cell (List.mem_cons_of_mem _ mem)

theorem push (list : FreeList memory head cells) {cell : UInt32} (nonnull : cell ≠ 0)
    (apart : ∀ cell' ∈ cells, (memory.putLong cell head).long cell' = memory.long cell') :
    FreeList (memory.putLong cell head) cell (cell :: cells) := by
  apply cons nonnull
  rw [Memory.long_putLong]
  exact list.congr apart

end FreeList

/-- The starts of cells of one size, one behind the other. -/
def cellsFrom (start size : UInt32) : Nat → List UInt32
  | 0 => []
  | count + 1 => start :: cellsFrom (start + size) size count

/-- All these cells start in the address space. -/
def CellsFit (start size : UInt32) (count : Nat) : Prop :=
  ∀ k < count, start.toNat + k * size.toNat < 2 ^ 32

variable {start size cell : UInt32} {count : Nat}

theorem CellsFit.toNat_add (fits : CellsFit start size (count + 2)) :
    (start + size).toNat = start.toNat + size.toNat := by
  have second := fits 1 (by omega)
  rw [UInt32.toNat_add]
  omega

theorem CellsFit.tail (fits : CellsFit start size (count + 1)) :
    CellsFit (start + size) size count := by
  cases count with
  | zero =>
    intro k small
    omega
  | succ count =>
    intro k small
    have bound := fits (k + 1) (by omega)
    rw [fits.toNat_add]
    rw [Nat.add_mul] at bound
    omega

theorem mem_cellsFrom_iff (fits : CellsFit start size count) : cell ∈ cellsFrom start size count ↔
      ∃ k < count, cell.toNat = start.toNat + k * size.toNat := by
  induction count generalizing start with
  | zero => simp [cellsFrom]
  | succ count ih =>
    rw [cellsFrom, List.mem_cons, ih fits.tail]
    constructor
    · intro mem
      cases mem with
      | inl first =>
        exact ⟨0, Nat.succ_pos count, by simp [first]⟩
      | inr later =>
        obtain ⟨k, small, place⟩ := later
        cases count with
        | zero => omega
        | succ count =>
          refine ⟨k + 1, by omega, ?_⟩
          rw [place, fits.toNat_add, Nat.add_mul]
          omega
    · intro mem
      obtain ⟨k, small, place⟩ := mem
      cases k with
      | zero =>
        left
        apply UInt32.toNat_inj.mp
        simpa using place
      | succ k =>
        right
        cases count with
        | zero => omega
        | succ count =>
          refine ⟨k, by omega, ?_⟩
          rw [place, fits.toNat_add, Nat.add_mul]
          omega

theorem nodup_cellsFrom (fits : CellsFit start size count)
    (positive : 0 < size.toNat) : (cellsFrom start size count).Nodup := by
  induction count generalizing start with
  | zero => simp [cellsFrom]
  | succ count ih =>
    rw [cellsFrom, List.nodup_cons]
    refine ⟨?_, ih fits.tail⟩
    intro mem
    obtain ⟨k, small, place⟩ := (mem_cellsFrom_iff fits.tail).mp mem
    cases count with
    | zero => omega
    | succ count =>
      rw [fits.toNat_add] at place
      omega

namespace Memory

theorem long_store_apart {memory : Memory} {copy : Copy} {address : UInt32}
    (fits : address.toNat + 4 ≤ 2 ^ 32)
    (copyFits : copy.address.toNat + copy.bytes.length ≤ 2 ^ 32)
    (apart : address.toNat + 4 ≤ copy.address.toNat ∨
      copy.address.toNat + copy.bytes.length ≤ address.toNat) :
    (memory.store copy).long address = memory.long address := by
  apply long_congr
  intro k small
  apply store_outside
  have smallNat := UInt32.lt_iff_toNat_lt.mp small
  have four : (4 : UInt32).toNat = 4 := rfl
  rw [UInt32.toNat_sub, UInt32.toNat_add]
  omega

end Memory

end OsFree.Machine
