import OsFree.Machine.FreeList

/-!
# Tables of handles

A table reserves memory for all its entries when the first handle is allocated,
and links the entries of a page of 4096 bytes into the free list when the list
is empty.  The handle of an entry is its address.  The library and the file
system server have a copy each, which differ in what an allocation returns.
-/

namespace OsFree.Handle

open Machine

/-- A table of handles. -/
structure HandleTable where
  ulMaxHandleCount : UInt32
  ulHandleSize : UInt32
  pNextFree : UInt32
  pFirstHandle : UInt32
  pMaxHandle : UInt32
  pReservedMemory : UInt32
  deriving DecidableEq

/-- A table, and the memory that its entries are in. -/
structure HandleState where
  table : HandleTable
  memory : Memory

/-- The allocator of the C library: a null pointer, or a block that is neither
in the first page of the address space nor reaches into the last one. -/
structure Malloc where
  block : UInt32 → UInt32
  behind : ∀ size, block size ≠ 0 → 4096 ≤ (block size).toNat
  fits : ∀ size, block size ≠ 0 → (block size).toNat + size.toNat + 4096 ≤ 2 ^ 32

/-- A table before its first allocation. -/
def emptyTable (ulMaxHandleCount ulHandleSize : UInt32) : HandleTable where
  ulMaxHandleCount := ulMaxHandleCount
  ulHandleSize := ulHandleSize
  pNextFree := 0
  pFirstHandle := 0
  pMaxHandle := 0
  pReservedMemory := 0

/-- Initialize a table; ERROR_INVALID_PARAMETER is 87. -/
def hndInitializeHandleTable (ulMaxHandleCount ulHandleSize : UInt32)
    (table : HandleTable) : UInt32 × HandleTable :=
  if ulMaxHandleCount = 0 ∨ ulHandleSize = 0 then (87, table)
  else (0, emptyTable ulMaxHandleCount ulHandleSize)

namespace HandleTable

variable (table : HandleTable)

/-- The bytes of all entries, as they are computed. -/
def maxSize : UInt32 := table.ulMaxHandleCount * table.ulHandleSize

/-- The table with its memory reserved. -/
def reserve (malloc : Malloc) : HandleTable :=
  if table.pFirstHandle = 0 then
    { table with
      pFirstHandle := malloc.block table.maxSize
      pReservedMemory := malloc.block table.maxSize
      pMaxHandle := malloc.block table.maxSize + table.maxSize }
  else table

/-- The loop that links the entries of a page: each gets the address behind it
as its link.  It returns the last of them, or null, and the memory.  An entry
has at least one byte, so that the loop ends within 4096 turns. -/
def linkEntries : (turns : Nat) → (offset freeHandle : UInt32) → Memory → Run (UInt32 × Memory)
  | 0, _, freeHandle, memory => .ok (freeHandle, memory)
  | turns + 1, offset, freeHandle, memory =>
    if offset < 4096 then
      if table.pMaxHandle ≤ table.pReservedMemory + offset then
        .ok (freeHandle, memory)
      else do
        let entry := table.pReservedMemory + offset
        let memory ← memory.writePointer entry (entry + table.ulHandleSize)
        linkEntries turns (offset + table.ulHandleSize) entry memory
    else .ok (freeHandle, memory)

end HandleTable

namespace HandleState

variable (state : HandleState)

/-- Reserve memory for the entries and link those of another page, if none is
free; ERROR_NOT_ENOUGH_MEMORY is 8. -/
def hndpAllocateSomeHandles (malloc : Malloc) : Run (UInt32 × HandleState) :=
  let table := state.table.reserve malloc
  if table.pNextFree = 0 then
    if table.pMaxHandle ≤ table.pReservedMemory then
      .ok (8, { state with table })
    else do
      let (freeHandle, memory) ← table.linkEntries 4096 0 0 state.memory
      if freeHandle = 0 then return (8, { table, memory })
      else
        let memory ← memory.writePointer freeHandle 0
        let table := { table with
          pNextFree := table.pReservedMemory
          pReservedMemory := table.pReservedMemory + 4096 }
        return (0, { table, memory })
  else .ok (0, { state with table })

/-- Take the first free entry off the list. -/
def popFree : Run (UInt32 × HandleState) := do
  let handle := state.table.pNextFree
  let pNextFree ← state.memory.readPointer handle
  return (handle, { state with table := { state.table with pNextFree } })

/-- What both copies do to allocate an entry: its handle or
ERROR_TOO_MANY_HANDLES, which is 290. -/
def takeHandle (malloc : Malloc) : Run (Except UInt32 UInt32 × HandleState) :=
  if state.table.pNextFree = 0 then do
    let (rc, state) ← state.hndpAllocateSomeHandles malloc
    if rc ≠ 0 then return (.error 290, state)
    else
      let (handle, state) ← state.popFree
      return (.ok handle, state)
  else do
    let (handle, state) ← state.popFree
    return (.ok handle, state)

/-- The index of the entry at an address. -/
def indexOf (address : UInt32) : UInt32 :=
  (address - state.table.pFirstHandle) / state.table.ulHandleSize

/-- A handle, and the index that comes with it. -/
structure Allocated where
  handle : UInt32
  index : UInt32
  deriving DecidableEq

/-- Allocate an entry in the copy of the library.  `pHandle` is the address of
the pointer that the caller has the handle stored in; the index is computed
from this address. -/
def hndAllocateHandle (malloc : Malloc) (pHandle : UInt32) :
    Run (Except UInt32 Allocated × HandleState) := do
  let (taken, state) ← state.takeHandle malloc
  return (taken.map (⟨·, state.indexOf pHandle⟩), state)

/-- Allocate an entry in the copy of the file system server.  The handle is
stored in the parameter, so that the caller gets the index alone. -/
def hndAllocateHandleFs (malloc : Malloc) :
    Run (Except UInt32 UInt32 × HandleState) := do
  let (taken, state) ← state.takeHandle malloc
  return (taken.map state.indexOf, state)

/-- Free an entry: clear it and put it at the front of the free list. -/
def hndFreeHandle (handle : UInt32) : Run HandleState :=
  if handle = 0 then .error .nullPointer
  else
    let cleared := state.memory.store ⟨handle, List.replicate state.table.ulHandleSize.toNat 0⟩
    .ok {
      table := { state.table with pNextFree := handle }
      memory := cleared.putLong handle state.table.pNextFree }

/-- The handle is between the first one and the end of the pages in use, it is
a multiple of the size where this is a power of two, and the lowest bit of its
first word is set. -/
def hndIsValidHandle (handle : UInt32) : Bool :=
  decide (state.table.pFirstHandle ≤ handle) &&
    decide (handle < state.table.pReservedMemory) &&
    decide (handle &&& (state.table.ulHandleSize - 1) = 0) &&
    decide (state.memory.long handle &&& 1 ≠ 0)

/-- The handle of an index, if it is valid. -/
def hndIsValidIndexHandle (index : UInt32) : Option UInt32 :=
  let handle := state.table.pFirstHandle + index * state.table.ulHandleSize
  if state.hndIsValidHandle handle then some handle else none

/-- What the caller does to an entry that it has got: set the allocated bit. -/
def hndpMakeHandleAllocated (handle : UInt32) : HandleState := { state with
    memory := state.memory.putLong handle (state.memory.long handle ||| 1) }

end HandleState

/-!
## The entries that are linked together

The entries of a page that start before the end of the reserved memory become
the free list when it is empty.  An allocation takes the first of them.
-/

namespace HandleTable

variable {table : HandleTable}

/-- An entry at this offset of the page is linked. -/
def Starts (table : HandleTable) (offset : Nat) : Prop := offset < 4096 ∧
    table.pReservedMemory.toNat + offset < table.pMaxHandle.toNat

/-- A table whose next page is in a block of memory, with entries that have room
for a link. -/
structure Paged (table : HandleTable) : Prop where
  sized : 4 ≤ table.ulHandleSize.toNat
  behind : 4096 ≤ table.pReservedMemory.toNat
  fits : table.pMaxHandle.toNat + 4096 ≤ 2 ^ 32
  room : table.pReservedMemory.toNat < table.pMaxHandle.toNat

/-- The number of entries of the next page. -/
structure Counts (table : HandleTable) (offset count : Nat) : Prop where
  starts : ∀ k < count, table.Starts (offset + k * table.ulHandleSize.toNat)
  ends : ¬table.Starts (offset + count * table.ulHandleSize.toNat)
  fits : offset + count * table.ulHandleSize.toNat < 2 ^ 32

namespace Paged

theorem toNat_entry (paged : table.Paged) {offset : UInt32} (starts : offset.toNat < 4096) :
    (table.pReservedMemory + offset).toNat =
      table.pReservedMemory.toNat + offset.toNat := by
  have fits := paged.fits
  have room := paged.room
  rw [UInt32.toNat_add]
  omega

theorem entry_ne_zero (paged : table.Paged) {offset : UInt32}
    (starts : offset.toNat < 4096) : table.pReservedMemory + offset ≠ 0 := by
  intro null
  have place := paged.toNat_entry starts
  have behind := paged.behind
  rw [null] at place
  simp at place
  omega

theorem linkEntries_succ (paged : table.Paged) (turns : Nat)
    (offset freeHandle : UInt32) (memory : Memory)
    (starts : table.Starts offset.toNat) :
    table.linkEntries (turns + 1) offset freeHandle memory =
      table.linkEntries turns (offset + table.ulHandleSize) (table.pReservedMemory + offset)
        (memory.putLong (table.pReservedMemory + offset)
          (table.pReservedMemory + offset + table.ulHandleSize)) := by
  have place := paged.toNat_entry starts.1
  have before : offset < 4096 := UInt32.lt_iff_toNat_lt.mpr starts.1
  have inside : ¬table.pMaxHandle ≤ table.pReservedMemory + offset := by
    rw [UInt32.le_iff_toNat_le, place]
    exact Nat.not_le.mpr starts.2
  have nonnull := paged.entry_ne_zero starts.1
  rw [linkEntries, if_pos before, if_neg inside]
  simp only [Memory.writePointer_of_ne nonnull, bind_ok]

theorem linkEntries_end (paged : table.Paged) (turns : Nat)
    (offset freeHandle : UInt32) (memory : Memory)
    (ends : ¬table.Starts offset.toNat) :
    table.linkEntries turns offset freeHandle memory =
      .ok (freeHandle, memory) := by
  cases turns with
  | zero => rfl
  | succ turns =>
    rw [linkEntries]
    by_cases before : offset < 4096
    · have place := paged.toNat_entry (UInt32.lt_iff_toNat_lt.mp before)
      have outside : table.pMaxHandle ≤ table.pReservedMemory + offset := by
        rw [UInt32.le_iff_toNat_le, place]
        by_contra inside
        exact ends ⟨UInt32.lt_iff_toNat_lt.mp before, by omega⟩
      rw [if_pos before, if_pos outside]
    · rw [if_neg before]

end Paged

/-- What linking entries from an offset comes to: a list of them once the link
of the last one is cleared, and no change before the first. -/
structure Links (table : HandleTable) (offset : UInt32) (count : Nat)
    (memory : Memory) (last : UInt32) (linked : Memory) : Prop where
  list : FreeList (linked.putLong last 0) (table.pReservedMemory + offset)
    (cellsFrom (table.pReservedMemory + offset) table.ulHandleSize count)
  behind : table.pReservedMemory.toNat + offset.toNat ≤ last.toNat
  fits : last.toNat + 4 ≤ 2 ^ 32
  kept : ∀ address : UInt32, address.toNat + 4 ≤ table.pReservedMemory.toNat + offset.toNat →
      linked.long address = memory.long address

theorem Links.single (paged : table.Paged) {offset : UInt32} (memory : Memory)
    (value : UInt32) (starts : table.Starts offset.toNat) :
    table.Links offset 1 memory (table.pReservedMemory + offset)
      (memory.putLong (table.pReservedMemory + offset) value) := by
  have place := paged.toNat_entry starts.1
  have room := paged.fits
  have inside := starts.2
  constructor
  · apply FreeList.cons (paged.entry_ne_zero starts.1)
    rw [Memory.long_putLong]
    exact FreeList.nil
  · omega
  · omega
  · intro address before
    apply Memory.long_store_apart
    · omega
    · show (table.pReservedMemory + offset).toNat + 4 ≤ 2 ^ 32
      omega
    · left
      show _ ≤ (table.pReservedMemory + offset).toNat
      omega

theorem Links.cons (paged : table.Paged) {offset : UInt32} {count : Nat}
    {memory : Memory} {last : UInt32} {linked : Memory}
    (starts : table.Starts offset.toNat)
    (next : (offset + table.ulHandleSize).toNat = offset.toNat + table.ulHandleSize.toNat)
    (links : table.Links (offset + table.ulHandleSize) count
      (memory.putLong (table.pReservedMemory + offset)
        (table.pReservedMemory + offset + table.ulHandleSize)) last linked) :
    table.Links offset (count + 1) memory last linked := by
  have place := paged.toNat_entry starts.1
  have sized := paged.sized
  have behind := links.behind
  have lastFits := links.fits
  have link : (linked.putLong last 0).long (table.pReservedMemory + offset) =
      table.pReservedMemory + (offset + table.ulHandleSize) := by
    calc (linked.putLong last 0).long (table.pReservedMemory + offset)
        = linked.long (table.pReservedMemory + offset) := by
          apply Memory.long_store_apart
          · omega
          · simpa using lastFits
          · left
            show _ ≤ last.toNat
            omega
      _ = table.pReservedMemory + offset + table.ulHandleSize := by
          rw [links.kept _ (by omega), Memory.long_putLong]
      _ = table.pReservedMemory + (offset + table.ulHandleSize) := UInt32.add_assoc ..
  constructor
  · rw [cellsFrom]
    apply FreeList.cons (paged.entry_ne_zero starts.1)
    rw [link, UInt32.add_assoc]
    exact links.list
  · omega
  · exact lastFits
  · intro address before
    rw [links.kept address (by omega)]
    apply Memory.long_store_apart
    · omega
    · show (table.pReservedMemory + offset).toNat + 4 ≤ 2 ^ 32
      omega
    · left
      show _ ≤ (table.pReservedMemory + offset).toNat
      omega

theorem Paged.linkEntries_links (paged : table.Paged) {turns count : Nat}
    {offset : UInt32} (freeHandle : UInt32) (memory : Memory)
    (counts : table.Counts offset.toNat (count + 1)) (enough : count < turns) :
    ∃ last linked, table.linkEntries turns offset freeHandle memory = .ok (last, linked) ∧
        table.Links offset (count + 1) memory last linked := by
  have starts : table.Starts offset.toNat := by
    simpa using counts.starts 0 (Nat.succ_pos count)
  have next : (offset + table.ulHandleSize).toNat =
      offset.toNat + table.ulHandleSize.toNat := by
    have fits := counts.fits
    rw [Nat.add_mul] at fits
    rw [UInt32.toNat_add]
    omega
  induction count generalizing turns offset freeHandle memory with
  | zero =>
    obtain ⟨turns, rfl⟩ := Nat.exists_eq_succ_of_ne_zero (by omega : turns ≠ 0)
    have ends := counts.ends
    rw [Nat.zero_add, Nat.one_mul, ← next] at ends
    refine ⟨_, _, ?_, Links.single paged memory
      (table.pReservedMemory + offset + table.ulHandleSize) starts⟩
    rw [paged.linkEntries_succ turns offset freeHandle memory starts]
    exact paged.linkEntries_end turns _ _ _ ends
  | succ count ih =>
    obtain ⟨turns, rfl⟩ := Nat.exists_eq_succ_of_ne_zero (by omega : turns ≠ 0)
    have size_mul : ∀ k, (k + 1) * table.ulHandleSize.toNat =
        k * table.ulHandleSize.toNat + table.ulHandleSize.toNat := by
      intro k
      rw [Nat.add_mul, Nat.one_mul]
    have shift : ∀ k, (offset + table.ulHandleSize).toNat + k * table.ulHandleSize.toNat =
        offset.toNat + (k + 1) * table.ulHandleSize.toNat := by
      intro k
      rw [next, size_mul]
      omega
    have later : table.Counts (offset + table.ulHandleSize).toNat
        (count + 1) := by
      constructor
      · intro k small
        rw [shift]
        exact counts.starts (k + 1) (by omega)
      · rw [shift]
        exact counts.ends
      · rw [shift]
        exact counts.fits
    have starts' : table.Starts (offset + table.ulHandleSize).toNat := by
      simpa using later.starts 0 (Nat.succ_pos count)
    have next' : (offset + table.ulHandleSize + table.ulHandleSize).toNat =
        (offset + table.ulHandleSize).toNat + table.ulHandleSize.toNat := by
      have fits := later.fits
      rw [size_mul] at fits
      rw [UInt32.toNat_add]
      omega
    have few : count < turns := by omega
    obtain ⟨last, linked, walk, links⟩ := ih _ _ later few starts' next'
    refine ⟨last, linked, ?_, Links.cons paged starts next links⟩
    rw [paged.linkEntries_succ turns offset freeHandle memory starts]
    exact walk

/-- The entries that the next page has. -/
def pageCount (table : HandleTable) : Nat :=
  (min 4096 (table.pMaxHandle.toNat - table.pReservedMemory.toNat) +
    table.ulHandleSize.toNat - 1) / table.ulHandleSize.toNat

theorem Paged.counts (paged : table.Paged) : table.Counts 0 table.pageCount ∧ 0 < table.pageCount ∧
      table.pageCount ≤ 4096 := by
  have sized := paged.sized
  have room := paged.room
  have small := table.ulHandleSize.toNat_lt
  have count_eq : table.pageCount = (min 4096 (table.pMaxHandle.toNat -
      table.pReservedMemory.toNat) + table.ulHandleSize.toNat - 1) /
      table.ulHandleSize.toNat := rfl
  generalize table.pageCount = count at count_eq
  generalize size_eq : table.ulHandleSize.toNat = size at *
  have limit_eq : ∀ offset, table.Starts offset ↔ offset < min 4096
      (table.pMaxHandle.toNat - table.pReservedMemory.toNat) := by
    intro offset
    unfold Starts
    omega
  generalize min 4096 (table.pMaxHandle.toNat - table.pReservedMemory.toNat) = limit at *
  have limit_pos : 0 < limit := by
    have first := (limit_eq 0).mp ⟨by omega, by omega⟩
    exact first
  have limit_le : limit ≤ 4096 := by
    by_contra above
    have beyond := (limit_eq 4096).mpr (by omega)
    exact absurd beyond.1 (by omega)
  have upper : ∀ k < count, k * size < limit := by
    intro k below
    rw [count_eq] at below
    have bound := (Nat.le_div_iff_mul_le (by omega)).mp (Nat.succ_le_of_lt below)
    rw [Nat.succ_mul] at bound
    omega
  have lower : limit ≤ count * size := by
    have division := Nat.lt_div_mul_add (by omega : 0 < size)
      (a := limit + size - 1)
    rw [← count_eq] at division
    omega
  have positive : 0 < count := by
    apply Nat.pos_of_ne_zero
    intro none
    rw [none] at lower
    omega
  have total : count * size ≤ limit + size - 1 := by
    rw [count_eq]
    exact Nat.div_mul_le_self _ _
  refine ⟨?_, positive, ?_⟩
  · constructor
    · intro k below
      rw [limit_eq, size_eq, Nat.zero_add]
      exact upper k below
    · rw [limit_eq, size_eq, Nat.zero_add]
      omega
    · rw [size_eq, Nat.zero_add]
      by_cases one : count = 1
      · rw [one]
        omega
      · have second := upper 1 (by omega)
        omega
  · by_contra many
    have beyond := upper 4096 (by omega)
    omega

/-- The table behind the first page that is linked. -/
def nextPage (table : HandleTable) : HandleTable := { table with
    pNextFree := table.pReservedMemory
    pReservedMemory := table.pReservedMemory + 4096 }

/-- The entries of the next page. -/
def pageEntries (table : HandleTable) : List UInt32 :=
  cellsFrom table.pReservedMemory table.ulHandleSize table.pageCount

theorem Paged.cellsFit (paged : table.Paged) :
    CellsFit table.pReservedMemory table.ulHandleSize table.pageCount := by
  intro k small
  have starts := (paged.counts.1.starts k small).2
  have fits := paged.fits
  omega

theorem Paged.mem_pageEntries_iff (paged : table.Paged) {handle : UInt32} :
    handle ∈ table.pageEntries ↔ ∃ k, handle.toNat =
      table.pReservedMemory.toNat + k * table.ulHandleSize.toNat ∧
        table.Starts (k * table.ulHandleSize.toNat) := by
  have counts := paged.counts.1
  rw [pageEntries, mem_cellsFrom_iff paged.cellsFit]
  constructor
  · intro mem
    obtain ⟨k, small, place⟩ := mem
    exact ⟨k, place, by simpa using counts.starts k small⟩
  · intro mem
    obtain ⟨k, place, starts⟩ := mem
    refine ⟨k, ?_, place⟩
    by_contra large
    apply counts.ends
    have least := Nat.mul_le_mul_right table.ulHandleSize.toNat (Nat.not_lt.mp large)
    unfold Starts at *
    omega

end HandleTable

namespace HandleState

variable {malloc : Malloc} {state : HandleState}

theorem hndpAllocateSomeHandles_page (paged : (state.table.reserve malloc).Paged)
    (empty : (state.table.reserve malloc).pNextFree = 0) :
    ∃ memory, state.hndpAllocateSomeHandles malloc =
        .ok (0, ⟨(state.table.reserve malloc).nextPage, memory⟩) ∧
      FreeList memory (state.table.reserve malloc).pReservedMemory
        (state.table.reserve malloc).pageEntries := by
  unfold hndpAllocateSomeHandles
  generalize state.table.reserve malloc = table at *
  obtain ⟨counts, positive, few⟩ := paged.counts
  obtain ⟨count, count_eq⟩ := Nat.exists_eq_succ_of_ne_zero positive.ne'
  rw [count_eq] at counts few
  have enough : count < 4096 := by omega
  have fromZero : table.Counts (0 : UInt32).toNat (count + 1) := counts
  obtain ⟨last, linked, walk, links⟩ := paged.linkEntries_links 0 state.memory fromZero enough
  have nonnull : last ≠ 0 := by
    intro null
    have behind := links.behind
    have page := paged.behind
    rw [null] at behind
    omega
  have unfilled : ¬table.pMaxHandle ≤ table.pReservedMemory := by
    exact Nat.not_le.mpr paged.room
  refine ⟨linked.putLong last 0, ?_, ?_⟩
  · simp only [empty, if_true]
    rw [if_neg unfilled, walk, bind_ok]
    simp only [if_neg nonnull, Memory.writePointer_of_ne nonnull]
    rfl
  · have list := links.list
    rw [UInt32.add_zero] at list
    rwa [HandleTable.pageEntries, count_eq]

theorem hndpAllocateSomeHandles_full (full : (state.table.reserve malloc).pMaxHandle ≤
      (state.table.reserve malloc).pReservedMemory)
    (empty : (state.table.reserve malloc).pNextFree = 0) :
    state.hndpAllocateSomeHandles malloc =
      .ok (8, { state with table := state.table.reserve malloc }) := by
  simp [hndpAllocateSomeHandles, full, empty]

/-- The table behind an allocation from a list of free entries. -/
def popped (state : HandleState) : HandleState := { state with
    table := { state.table with
      pNextFree := state.memory.long state.table.pNextFree } }

theorem popFree_of_ne (nonnull : state.table.pNextFree ≠ 0) :
    state.popFree = .ok (state.table.pNextFree, state.popped) := by
  simp [popFree, Memory.readPointer_of_ne nonnull, popped]

theorem takeHandle_of_ne (nonnull : state.table.pNextFree ≠ 0) : state.takeHandle malloc =
      .ok (.ok state.table.pNextFree, state.popped) := by
  rw [takeHandle, if_neg nonnull, popFree_of_ne nonnull]
  rfl

theorem takeHandle_page (paged : (state.table.reserve malloc).Paged)
    (empty : state.table.pNextFree = 0)
    (empty' : (state.table.reserve malloc).pNextFree = 0) :
    ∃ memory, state.takeHandle malloc =
        .ok (.ok (state.table.reserve malloc).pReservedMemory, HandleState.popped
            ⟨(state.table.reserve malloc).nextPage, memory⟩) ∧
      FreeList memory (state.table.reserve malloc).pReservedMemory
        (state.table.reserve malloc).pageEntries := by
  obtain ⟨memory, page, list⟩ := hndpAllocateSomeHandles_page paged empty'
  refine ⟨memory, ?_, list⟩
  have nonnull : HandleTable.pNextFree
      (state.table.reserve malloc).nextPage ≠ 0 := by
    intro null
    have behind := paged.behind
    rw [show (state.table.reserve malloc).pReservedMemory = 0 from null]
      at behind
    simp at behind
  rw [takeHandle, if_pos empty, page]
  simp only [bind_ok, ne_eq, not_true_eq_false, if_false]
  rw [popFree_of_ne nonnull]
  rfl

theorem takeHandle_full (full : (state.table.reserve malloc).pMaxHandle ≤
      (state.table.reserve malloc).pReservedMemory)
    (empty : state.table.pNextFree = 0)
    (empty' : (state.table.reserve malloc).pNextFree = 0) :
    state.takeHandle malloc =
      .ok (.error 290, { state with table := state.table.reserve malloc }) := by
  rw [takeHandle, if_pos empty, hndpAllocateSomeHandles_full full empty']
  rfl

end HandleState

end OsFree.Handle
