import OsFree.Handle.Table
import OsFree.Machine.Transition

/-!
# Sessions with a table of handles

The users of a table allocate entries, fill those they have got and free them.
Where the entries of each page end with the page, or the table ends with its
only page, the entries that are in use or free are apart from each other.
-/

namespace OsFree.Handle

open Machine

/-- The sizes that a table is initialized with: some handles, and entries with
room for a pointer. -/
structure TableSize where
  count : UInt32
  size : UInt32
  counted : count ≠ 0
  sized : 4 ≤ size.toNat

/-- A table, and the handles that are allocated. -/
structure Session where
  state : HandleState
  live : List UInt32

namespace TableSize

variable (given : TableSize)

/-- The bytes of the table, as they are computed. -/
def maxSize : UInt32 := given.count * given.size

/-- The table as it is initialized. -/
def table : HandleTable := emptyTable given.count given.size

theorem size_pos : 0 < given.size.toNat := by
  have sized := given.sized
  omega

end TableSize

namespace Session

variable (malloc : Malloc)

/-- A table without allocated handles. -/
def start (given : TableSize) (memory : Memory) : Session where
  state := ⟨given.table, memory⟩
  live := []

/-- Allocate an entry or be refused, free one, or write to one in use. -/
inductive Step : Session → Session → Prop where
  | allocate {state state' : HandleState} {live : List UInt32} {handle : UInt32}
      (taken : state.takeHandle malloc = .ok (.ok handle, state')) :
      Step ⟨state, live⟩ ⟨state', handle :: live⟩
  | refuse {state state' : HandleState} {live : List UInt32} {rc : UInt32}
      (refused : state.takeHandle malloc = .ok (.error rc, state')) :
      Step ⟨state, live⟩ ⟨state', live⟩
  | free {state state' : HandleState} {live : List UInt32} {handle : UInt32} (mem : handle ∈ live)
      (freed : state.hndFreeHandle handle = .ok state') :
      Step ⟨state, live⟩ ⟨state', live.erase handle⟩
  | fill {state : HandleState} {live : List UInt32} {handle : UInt32}
      {bytes : List UInt8} (mem : handle ∈ live)
      (within : bytes.length ≤ state.table.ulHandleSize.toNat) :
      Step ⟨state, live⟩
        ⟨{ state with memory := state.memory.store ⟨handle, bytes⟩ }, live⟩

/-- The allocated handles are distinct, their entries are apart and inside the
memory of the table, they are not too many, and a freed entry is allocated
again. -/
structure Keeps (given : TableSize) (session : Session) : Prop where
  distinct : session.live.Nodup
  apart : session.live.Pairwise fun handle handle' =>
    Disjoint (arc handle given.size) (arc handle' given.size)
  inside : ∀ handle ∈ session.live,
    arc handle given.size ⊆ arc (malloc.block given.maxSize) given.maxSize
  limited : session.live.length ≤ given.count.toNat
  reused : ∀ handle ∈ session.live, ∃ freed again, session.state.hndFreeHandle handle = .ok freed ∧
      freed.takeHandle malloc = .ok (.ok handle, again)

end Session

namespace TableSize

variable (malloc : Malloc) (given : TableSize)

/-- In every session with the table the handles are kept. -/
def KeepsHandles : Prop := ∀ memory session,
    RunsTo (Session.Step malloc) (Session.start given memory) session →
      Session.Keeps malloc given session

/-- The entries end with the pages or with the only page. -/
def Fits : Prop := given.size.toNat ∣ 4096 ∨
    given.maxSize.toNat ≤ 4096 ∧ given.size.toNat ∣ given.maxSize.toNat

theorem Fits.size_dvd {given : TableSize} (fits : given.Fits) :
    given.size.toNat ∣ given.maxSize.toNat := by
  cases fits with
  | inl page =>
    have whole : given.size.toNat ∣ 2 ^ 32 := page.trans ⟨1048576, rfl⟩
    exact (Nat.dvd_mod_iff whole).mpr (Nat.dvd_mul_left ..)
  | inr one => exact one.2

/-- The address of an entry of the first pages. -/
def IsEntry (pages : Nat) (handle : UInt32) : Prop := ∃ i, handle.toNat =
      (malloc.block given.maxSize).toNat + i * given.size.toNat ∧
    (i + 1) * given.size.toNat ≤ given.maxSize.toNat ∧
    i * given.size.toNat < 4096 * pages

variable {malloc given}

theorem IsEntry.apart {pages : Nat} {handle handle' : UInt32}
    (entry : given.IsEntry malloc pages handle)
    (entry' : given.IsEntry malloc pages handle') (different : handle ≠ handle') :
    handle.toNat + given.size.toNat ≤ handle'.toNat ∨
      handle'.toNat + given.size.toNat ≤ handle.toNat := by
  obtain ⟨i, place, -, -⟩ := entry
  obtain ⟨j, place', -, -⟩ := entry'
  have unequal : i ≠ j := by
    intro same
    apply different
    apply UInt32.toNat_inj.mp
    rw [place, place', same]
  cases Nat.lt_or_gt_of_ne unequal with
  | inl before =>
    have multiple := Nat.mul_le_mul_right given.size.toNat before
    rw [Nat.succ_mul] at multiple
    left
    omega
  | inr behind =>
    have multiple := Nat.mul_le_mul_right given.size.toNat behind
    rw [Nat.succ_mul] at multiple
    right
    omega

theorem IsEntry.mono {pages pages' : Nat} {handle : UInt32}
    (entry : given.IsEntry malloc pages handle) (le : pages ≤ pages') :
    given.IsEntry malloc pages' handle := by
  obtain ⟨i, place, within, early⟩ := entry
  exact ⟨i, place, within, by omega⟩

end TableSize

/-- The table is in use: its memory is reserved, and the entries of the pages
so far are allocated or in the free list. -/
structure InUse (malloc : Malloc) (given : TableSize) (pages : Nat)
    (free : List UInt32) (session : Session) : Prop where
  size : session.state.table.ulHandleSize = given.size
  count : session.state.table.ulMaxHandleCount = given.count
  reserved : malloc.block given.maxSize ≠ 0
  first : session.state.table.pFirstHandle = malloc.block given.maxSize
  last : session.state.table.pMaxHandle = malloc.block given.maxSize + given.maxSize
  page : session.state.table.pReservedMemory.toNat =
    (malloc.block given.maxSize).toNat + 4096 * pages
  list : FreeList session.state.memory session.state.table.pNextFree free
  nodup : (session.live ++ free).Nodup
  entries : ∀ handle ∈ session.live ++ free, given.IsEntry malloc pages handle

/-- The table has been initialized, and nothing is allocated. -/
structure Unused (given : TableSize) (session : Session) : Prop where
  table : session.state.table = given.table
  live : session.live = []

namespace InUse

variable {malloc : Malloc} {given : TableSize} {pages : Nat}
  {free : List UInt32} {session : Session}

variable {handle : UInt32} {state : HandleState} {live : List UInt32}

section

variable (inUse : InUse malloc given pages free session)

include inUse

theorem entry_bounds (entry : given.IsEntry malloc pages handle) :
    4096 ≤ handle.toNat ∧ (malloc.block given.maxSize).toNat ≤ handle.toNat ∧
      handle.toNat + given.size.toNat ≤ (malloc.block given.maxSize).toNat + given.maxSize.toNat ∧
      handle.toNat + given.size.toNat + 4096 ≤ 2 ^ 32 := by
  obtain ⟨i, place, within, -⟩ := entry
  have behind := malloc.behind _ inUse.reserved
  have fits := malloc.fits _ inUse.reserved
  rw [Nat.succ_mul] at within
  omega

theorem entry_ne_zero (entry : given.IsEntry malloc pages handle) :
    handle ≠ 0 := by
  intro null
  have bounds := (inUse.entry_bounds entry).1
  rw [null] at bounds
  simp at bounds

theorem long_store {memory : Memory} {bytes : List UInt8} {handle' : UInt32}
    (entry : given.IsEntry malloc pages handle)
    (entry' : given.IsEntry malloc pages handle') (different : handle ≠ handle')
    (within : bytes.length ≤ given.size.toNat) :
    (memory.store ⟨handle, bytes⟩).long handle' = memory.long handle' := by
  have bounds := inUse.entry_bounds entry
  have bounds' := inUse.entry_bounds entry'
  have sized := given.sized
  have apart := entry.apart entry' different
  apply Memory.long_store_apart
  · omega
  · show handle.toNat + bytes.length ≤ 2 ^ 32
    omega
  · show _ ≤ handle.toNat ∨ handle.toNat + bytes.length ≤ _
    omega

theorem ne_of_mem {handle' : UInt32} (live : handle ∈ session.live)
    (mem : handle' ∈ free) : handle ≠ handle' :=
  (List.nodup_append.mp inUse.nodup).2.2 handle live handle' mem

theorem live_entry (live : handle ∈ session.live) :
    given.IsEntry malloc pages handle :=
  inUse.entries handle (List.mem_append_left _ live)

theorem free_entry (mem : handle ∈ free) :
    given.IsEntry malloc pages handle :=
  inUse.entries handle (List.mem_append_right _ mem)

end

theorem afterFill (inUse : InUse malloc given pages free ⟨state, live⟩)
    {bytes : List UInt8} (mem : handle ∈ live)
    (within : bytes.length ≤ given.size.toNat) :
    InUse malloc given pages free
      ⟨{ state with memory := state.memory.store ⟨handle, bytes⟩ }, live⟩ where
  size := inUse.size
  count := inUse.count
  reserved := inUse.reserved
  first := inUse.first
  last := inUse.last
  page := inUse.page
  list := by
    apply inUse.list.congr
    intro cell memFree
    exact inUse.long_store (inUse.live_entry mem) (inUse.free_entry memFree)
      (inUse.ne_of_mem mem memFree) within
  nodup := inUse.nodup
  entries := inUse.entries

/-- The state behind freeing an entry. -/
def freed (state : HandleState) (handle : UInt32) : HandleState where
  table := { state.table with pNextFree := handle }
  memory := (state.memory.store
    ⟨handle, List.replicate state.table.ulHandleSize.toNat 0⟩).putLong handle state.table.pNextFree

theorem afterFree (inUse : InUse malloc given pages free ⟨state, live⟩) (mem : handle ∈ live) :
    state.hndFreeHandle handle = .ok (freed state handle) ∧
      InUse malloc given pages (handle :: free)
        ⟨freed state handle, live.erase handle⟩ := by
  have entry := inUse.live_entry mem
  have nonnull := inUse.entry_ne_zero entry
  have sized := given.sized
  have perm : (live.erase handle ++ handle :: free).Perm (live ++ free) := by
    calc (live.erase handle ++ handle :: free)
        _ |>.Perm (handle :: live.erase handle ++ free) := List.perm_middle
        _ |>.Perm (live ++ free) := (List.perm_cons_erase mem).symm.append_right free
  refine ⟨if_neg nonnull, ?_⟩
  exact {
    size := inUse.size
    count := inUse.count
    reserved := inUse.reserved
    first := inUse.first
    last := inUse.last
    page := inUse.page
    list := by
      have cleared : FreeList (state.memory.store
          ⟨handle, List.replicate state.table.ulHandleSize.toNat 0⟩)
          state.table.pNextFree free := by
        apply inUse.list.congr
        intro cell memFree
        apply inUse.long_store entry (inUse.free_entry memFree) (inUse.ne_of_mem mem memFree)
        rw [List.length_replicate, inUse.size]
      apply cleared.push nonnull
      intro cell memFree
      apply inUse.long_store entry (inUse.free_entry memFree) (inUse.ne_of_mem mem memFree)
      simpa using sized
    nodup := perm.nodup_iff.mpr inUse.nodup
    entries := by
      intro other memOther
      exact inUse.entries other (perm.mem_iff.mp memOther) }

theorem afterPop (inUse : InUse malloc given pages (handle :: free) ⟨state, live⟩) :
    InUse malloc given pages free ⟨state.popped, handle :: live⟩ := by
  have perm : (handle :: live ++ free).Perm (live ++ handle :: free) := List.perm_middle.symm
  exact {
    size := inUse.size
    count := inUse.count
    reserved := inUse.reserved
    first := inUse.first
    last := inUse.last
    page := inUse.page
    list := inUse.list.of_cons.2.2
    nodup := perm.nodup_iff.mpr inUse.nodup
    entries := by
      intro other mem
      exact inUse.entries other (perm.mem_iff.mp mem) }

theorem toNat_last (inUse : InUse malloc given pages free session) :
    session.state.table.pMaxHandle.toNat =
      (malloc.block given.maxSize).toNat + given.maxSize.toNat := by
  have fits := malloc.fits _ inUse.reserved
  rw [inUse.last, UInt32.toNat_add]
  omega

theorem paged (inUse : InUse malloc given pages free session)
    (room : 4096 * pages < given.maxSize.toNat) :
    session.state.table.Paged where
  sized := by
    rw [inUse.size]
    exact given.sized
  behind := by
    have behind := malloc.behind _ inUse.reserved
    rw [inUse.page]
    omega
  fits := by
    have fits := malloc.fits _ inUse.reserved
    rw [inUse.toNat_last]
    omega
  room := by
    rw [inUse.page, inUse.toNat_last]
    omega

theorem dvd_pages (fits : given.Fits) (room : 4096 * pages < given.maxSize.toNat) :
    ∃ before, 4096 * pages = before * given.size.toNat := by
  have divides : given.size.toNat ∣ 4096 * pages := by
    cases fits with
    | inl page => exact page.mul_right pages
    | inr one =>
      have none : pages = 0 := by omega
      simp [none]
  obtain ⟨before, equal⟩ := divides
  exact ⟨before, by rw [equal, Nat.mul_comm]⟩

theorem afterPage {memory : Memory}
    (fits : given.Fits) (inUse : InUse malloc given pages [] ⟨state, live⟩)
    (room : 4096 * pages < given.maxSize.toNat)
    (list : FreeList memory state.table.pReservedMemory state.table.pageEntries) :
    InUse malloc given (pages + 1) state.table.pageEntries
      ⟨⟨state.table.nextPage, memory⟩, live⟩ := by
  have paged := inUse.paged room
  have page := inUse.page
  have last := inUse.toNat_last
  have blockFits := malloc.fits _ inUse.reserved
  obtain ⟨before, before_eq⟩ := dvd_pages fits room
  obtain ⟨whole, whole_eq⟩ := fits.size_dvd
  have new : ∀ handle ∈ state.table.pageEntries,
      (malloc.block given.maxSize).toNat + 4096 * pages ≤ handle.toNat ∧
        given.IsEntry malloc (pages + 1) handle := by
    intro handle mem
    obtain ⟨k, place, starts⟩ := paged.mem_pageEntries_iff.mp mem
    rw [inUse.size] at place starts
    have early := starts.1
    have inside := starts.2
    have index : (before + k) * given.size.toNat =
        4096 * pages + k * given.size.toNat := by
      rw [Nat.add_mul, before_eq]
    have below : before + k < whole := by
      apply Nat.lt_of_mul_lt_mul_right (a := given.size.toNat)
      rw [index, Nat.mul_comm whole, ← whole_eq]
      omega
    have within := Nat.mul_le_mul_right given.size.toNat (Nat.succ_le_of_lt below)
    rw [Nat.mul_comm whole, ← whole_eq] at within
    exact ⟨by omega, before + k, by omega, within, by omega⟩
  have old : ∀ handle ∈ live,
      handle.toNat < (malloc.block given.maxSize).toNat + 4096 * pages := by
    intro handle mem
    obtain ⟨i, place, -, early⟩ := inUse.live_entry mem
    omega
  have positive : 0 < state.table.ulHandleSize.toNat := by
    rw [inUse.size]
    exact given.size_pos
  exact {
    size := inUse.size
    count := inUse.count
    reserved := inUse.reserved
    first := inUse.first
    last := inUse.last
    page := by
      show (state.table.pReservedMemory + 4096).toNat = _
      rw [UInt32.toNat_add, page]
      simp only [UInt32.reduceToNat]
      omega
    list := list
    nodup := by
      rw [List.nodup_append]
      refine ⟨by simpa using inUse.nodup, nodup_cellsFrom paged.cellsFit positive, ?_⟩
      intro handle mem handle' mem' same
      have less := old handle mem
      have more := (new handle' mem').1
      rw [same] at less
      omega
    entries := by
      intro handle mem
      cases List.mem_append.mp mem with
      | inl mem => exact (inUse.live_entry mem).mono (Nat.le_succ pages)
      | inr mem => exact (new handle mem).2 }

end InUse

end OsFree.Handle
