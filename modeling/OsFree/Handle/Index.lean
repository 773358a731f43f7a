import OsFree.Handle.Apart

/-!
# Indexes of handles

The index that the library returns is computed from the address of the pointer
that the handle is stored in, so it does not lead to the handle.  Nor is a
handle valid unless the size of the entries goes with its address.
-/

namespace OsFree.Handle

open Machine

/-- A table, the handles that are allocated and those that have been freed and
not allocated again, with their indexes. -/
structure IndexSession where
  state : HandleState
  live : List HandleState.Allocated
  freed : List HandleState.Allocated

namespace IndexSession

variable (malloc : Malloc) (given : TableSize)

/-- A table without allocated handles. -/
def start (memory : Memory) : IndexSession where
  state := ⟨given.table, memory⟩
  live := []
  freed := []

/-- The session behind an allocation that the caller has marked. -/
def allocated (session : IndexSession) (state : HandleState)
    (taken : HandleState.Allocated) : IndexSession where
  state := state.hndpMakeHandleAllocated taken.handle
  live := taken :: session.live
  freed := session.freed.filter fun other => other.handle ≠ taken.handle

/-- Allocate an entry and mark it or be refused, or free one.  The pointer that
the handle is stored in is not in the memory of the table. -/
inductive Step : IndexSession → IndexSession → Prop where
  | allocate {session : IndexSession} {state : HandleState}
      {pHandle : UInt32} {taken : HandleState.Allocated}
      (outside : Disjoint (arc pHandle 4) (arc (malloc.block given.maxSize) given.maxSize))
      (allocates : session.state.hndAllocateHandle malloc pHandle = .ok (.ok taken, state)) :
      Step session (session.allocated state taken)
  | refuse {session : IndexSession} {state : HandleState} {pHandle rc : UInt32}
      (refused : session.state.hndAllocateHandle malloc pHandle = .ok (.error rc, state)) :
      Step session { session with state }
  | free {session : IndexSession} {state : HandleState}
      {taken : HandleState.Allocated} (mem : taken ∈ session.live)
      (frees : session.state.hndFreeHandle taken.handle = .ok state) :
      Step session ⟨state, session.live.erase taken, taken :: session.freed⟩

/-- The index of an allocated handle leads to it and is valid, that of a freed
one is not, and the valid handles are the allocated ones. -/
structure Identifies (session : IndexSession) : Prop where
  place : ∀ taken ∈ session.live, taken.handle = session.state.table.pFirstHandle +
      taken.index * session.state.table.ulHandleSize
  valid : ∀ taken ∈ session.live,
    session.state.hndIsValidIndexHandle taken.index = some taken.handle
  invalid : ∀ taken ∈ session.freed, session.state.hndIsValidIndexHandle taken.index = none
  exactly : ∀ handle, session.state.hndIsValidHandle handle = true ↔
    ∃ taken ∈ session.live, taken.handle = handle

end IndexSession

/-- In every session with the table the indexes identify the handles. -/
def TableSize.IndexesHandles (malloc : Malloc) (given : TableSize) : Prop :=
  ∀ memory session, RunsTo (IndexSession.Step malloc given)
      (IndexSession.start given memory) session → session.Identifies

variable {malloc : Malloc} {given : TableSize}

/-- Nothing is allocated, and the table is as it is initialized but for the
memory that may have been reserved. -/
structure Idle (malloc : Malloc) (given : TableSize)
    (session : IndexSession) : Prop where
  table : session.state.table = given.table ∨ session.state.table = given.table.reserve malloc
  live : session.live = []
  freed : session.freed = []

theorem reserve_reserve (table : HandleTable) :
    (table.reserve malloc).reserve malloc = table.reserve malloc := by
  by_cases first : table.pFirstHandle = 0
  · simp [HandleTable.reserve, first, HandleTable.maxSize]
  · simp [HandleTable.reserve, first]

theorem reserve_table (malloc : Malloc) (given : TableSize) :
    given.table.reserve malloc = { given.table with
        pFirstHandle := malloc.block given.maxSize
        pReservedMemory := malloc.block given.maxSize
        pMaxHandle := malloc.block given.maxSize + given.maxSize } :=
  if_pos rfl

namespace Idle

variable {session session' : IndexSession}

section

variable (idle : Idle malloc given session)

include idle

theorem reserve_eq :
    session.state.table.reserve malloc = given.table.reserve malloc := by
  cases idle.table with
  | inl initial => rw [initial]
  | inr reserved => rw [reserved, reserve_reserve]

theorem pNextFree_eq :
    session.state.table.pNextFree = 0 := by
  cases idle.table with
  | inl initial =>
    rw [initial]
    rfl
  | inr reserved =>
    rw [reserved, reserve_table]
    rfl

theorem takeHandle (nothing : malloc.block given.maxSize = 0 ∨ given.maxSize = 0) :
    session.state.takeHandle malloc =
        .ok (.error 290, ⟨given.table.reserve malloc, session.state.memory⟩) ∨
      session.state.takeHandle malloc = .error .nullPointer := by
  have empty := idle.pNextFree_eq
  have empty' : (session.state.table.reserve malloc).pNextFree = 0 := by
    rw [idle.reserve_eq, reserve_table]
    rfl
  by_cases none : given.maxSize = 0
  · have full : (session.state.table.reserve malloc).pMaxHandle ≤
        (session.state.table.reserve malloc).pReservedMemory := by
      simp [idle.reserve_eq, reserve_table, none]
    left
    rw [HandleState.takeHandle_full full empty empty', idle.reserve_eq]
  · have block := nothing.resolve_right none
    right
    apply takeHandle_null _ _ empty empty'
    · simp [idle.reserve_eq, reserve_table, block]
    · intro le
      apply none
      apply UInt32.toNat_inj.mp
      simpa [idle.reserve_eq, reserve_table, block, UInt32.le_iff_toNat_le] using le

theorem step (nothing : malloc.block given.maxSize = 0 ∨ given.maxSize = 0)
    (step : IndexSession.Step malloc given session session') :
    Idle malloc given session' := by
  cases step with
  | allocate outside allocates =>
    cases idle.takeHandle nothing with
    | inl refuses =>
      rw [HandleState.hndAllocateHandle, refuses] at allocates
      cases allocates
    | inr faults =>
      rw [HandleState.hndAllocateHandle, faults] at allocates
      cases allocates
  | refuse refused =>
    cases idle.takeHandle nothing with
    | inl refuses =>
      rw [HandleState.hndAllocateHandle, refuses] at refused
      cases refused
      exact ⟨Or.inr rfl, idle.live, idle.freed⟩
    | inr faults =>
      rw [HandleState.hndAllocateHandle, faults] at refused
      cases refused
  | free mem frees =>
    rw [idle.live] at mem
    cases mem

/-- In a table that holds nothing no handle is valid. -/
theorem identifies :
    session.Identifies := by
  have invalid : ∀ handle, session.state.hndIsValidHandle handle = false := by
    intro handle
    have none : ¬(session.state.table.pFirstHandle ≤ handle ∧
        handle < session.state.table.pReservedMemory) := by
      have same : session.state.table.pReservedMemory =
          session.state.table.pFirstHandle := by
        cases idle.table with
        | inl initial =>
          rw [initial]
          rfl
        | inr reserved =>
          rw [reserved, reserve_table]
      rw [same, UInt32.le_iff_toNat_le, UInt32.lt_iff_toNat_lt]
      omega
    rw [HandleState.hndIsValidHandle, ← Bool.decide_and]
    simp [none]
  constructor
  · simp [idle.live]
  · simp [idle.live]
  · simp [idle.freed]
  · simp [idle.live, invalid]

end

end Idle

theorem indexesHandles_of_nothing (nothing : malloc.block given.maxSize = 0 ∨ given.maxSize = 0) :
    given.IndexesHandles malloc := by
  intro memory session run
  have start : Idle malloc given (IndexSession.start given memory) := ⟨Or.inl rfl, rfl, rfl⟩
  have idle := run.preserves (fun _ _ idle step => idle.step nothing step) start
  exact idle.identifies

theorem toNat_lt_four {value mask : UInt32} (high : mask.toNat >>> 2 = 2 ^ 30 - 1)
    (clear : value &&& mask = 0) : value.toNat < 4 := by
  have bits : value.toNat &&& mask.toNat = 0 := by
    rw [← UInt32.toNat_and, clear]
    rfl
  have shifted : (value.toNat >>> 2) % 2 ^ 30 = 0 := by
    rw [← Nat.and_two_pow_sub_one_eq_mod, ← high, ← Nat.shiftRight_and_distrib, bits]
    rfl
  have bound := value.toNat_lt
  omega

theorem exists_first (block : malloc.block given.maxSize ≠ 0)
    (room : given.maxSize ≠ 0) (memory : Memory) (pHandle : UInt32) :
    ∃ state, HandleState.hndAllocateHandle ⟨given.table, memory⟩ malloc pHandle =
        .ok (.ok ⟨malloc.block given.maxSize,
          (pHandle - malloc.block given.maxSize) / given.size⟩, state) ∧
      state.table.pFirstHandle = malloc.block given.maxSize ∧
      state.table.ulHandleSize = given.size := by
  have unused : Unused given (Session.start given memory) := ⟨rfl, rfl⟩
  have inUse := unused.reserve block
  have positive : 0 < given.maxSize.toNat := by
    apply Nat.pos_of_ne_zero
    intro none
    exact room (UInt32.toNat_inj.mp none)
  have paged : (given.table.reserve malloc).Paged := inUse.paged (by simpa using positive)
  have empty : (given.table.reserve malloc).pNextFree = 0 := inUse.list.eq_nil_iff.mp rfl
  have first : (given.table.reserve malloc).pFirstHandle = _ := inUse.first
  have size : (given.table.reserve malloc).ulHandleSize = _ := inUse.size
  have page : (given.table.reserve malloc).pReservedMemory =
      malloc.block given.maxSize := by
    rw [reserve_table]
  obtain ⟨memory', taken, -⟩ :=
    @HandleState.takeHandle_page malloc ⟨given.table, memory⟩ paged rfl empty
  refine ⟨HandleState.popped ⟨(given.table.reserve malloc).nextPage, memory'⟩, ?_, ?_, ?_⟩
  · rw [HandleState.hndAllocateHandle, taken]
    simp [HandleState.indexOf, HandleState.popped, HandleTable.nextPage,
      Except.map, first, size, page]
  · simp [HandleState.popped, HandleTable.nextPage, first]
  · simp [HandleState.popped, HandleTable.nextPage, size]

theorem not_indexesHandles (block : malloc.block given.maxSize ≠ 0)
    (room : given.maxSize ≠ 0) : ¬given.IndexesHandles malloc := by
  intro indexes
  have behind := malloc.behind _ block
  have fits := malloc.fits _ block
  have sized := given.sized
  obtain ⟨state, allocates, first, size⟩ := exists_first block room (fun _ => 0)
    (malloc.block given.maxSize - 4)
  have apart : Disjoint (arc (malloc.block given.maxSize - 4) 4)
      (arc (malloc.block given.maxSize) given.maxSize) := by
    have positive : 0 < given.maxSize := UInt32.pos_iff_ne_zero.mpr room
    rw [disjoint_arc_iff (by decide) positive]
    simp only [mem_arc_iff, UInt32.lt_iff_toNat_lt, UInt32.toNat_sub, UInt32.reduceToNat]
    omega
  have identifies := indexes _ _ (Relation.ReflTransGen.single
    (IndexSession.Step.allocate apart allocates))
  have place : malloc.block given.maxSize = state.table.pFirstHandle +
      (malloc.block given.maxSize - 4 - malloc.block given.maxSize) /
        given.size * state.table.ulHandleSize :=
    identifies.place _ (List.mem_cons_self ..)
  have valid : (state.hndpMakeHandleAllocated (malloc.block given.maxSize)).hndIsValidHandle
        (malloc.block given.maxSize) = true :=
    (identifies.exactly _).mpr ⟨_, List.mem_cons_self .., rfl⟩
  by_cases small : given.size.toNat ≤ 2 ^ 32 - 4
  · -- the index is that of an entry behind the first
    rw [first, size] at place
    have zero := congrArg UInt32.toNat (UInt32.add_eq_left.mp place.symm)
    rw [UInt32.toNat_mul, UInt32.toNat_div] at zero
    have offset : (malloc.block given.maxSize - 4 -
        malloc.block given.maxSize).toNat = 2 ^ 32 - 4 := by
      simp only [UInt32.toNat_sub, UInt32.reduceToNat]
      omega
    have multiple := Nat.div_mul_le_self (2 ^ 32 - 4) given.size.toNat
    have positive := Nat.mul_le_mul_right given.size.toNat (Nat.div_pos small given.size_pos)
    rw [offset, Nat.mod_eq_of_lt (by omega)] at zero
    simp only [UInt32.toNat_zero] at zero
    omega
  · -- the mask that tests the alignment has all high bits
    simp only [HandleState.hndIsValidHandle, Bool.and_eq_true, decide_eq_true_eq] at valid
    have aligned : malloc.block given.maxSize &&&
        (state.table.ulHandleSize - 1) = 0 := valid.1.2
    rw [size] at aligned
    have below : (malloc.block given.maxSize).toNat < 4 := by
      apply toNat_lt_four _ aligned
      have bound := given.size.toNat_lt
      rw [Nat.shiftRight_eq_div_pow, UInt32.toNat_sub]
      simp only [UInt32.reduceToNat]
      omega
    omega

/-- The indexes of a table identify its handles exactly if it can hold none:
there is no block of memory for it, or its size is zero in 32 bits. -/
theorem TableSize.indexesHandles_iff (malloc : Malloc) (given : TableSize) :
    given.IndexesHandles malloc ↔
      malloc.block given.maxSize = 0 ∨ given.maxSize = 0 := by
  constructor
  · intro indexes
    by_contra something
    rw [not_or] at something
    exact not_indexesHandles something.1 something.2 indexes
  · exact indexesHandles_of_nothing

/-- Handles of sixteen bytes, which fit the pages. -/
def sixteenBytes : TableSize where
  count := 256
  size := 16
  counted := by decide
  sized := by decide

/-- A pointer in front of the table has an index far behind it. -/
theorem sixteenBytes_not_indexesHandles :
    ¬sixteenBytes.IndexesHandles smallMalloc :=
  not_indexesHandles (by decide) (by decide)

end OsFree.Handle
