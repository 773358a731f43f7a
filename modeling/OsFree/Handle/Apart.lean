import Mathlib.Data.List.Nodup
import Mathlib.Data.List.Perm.Subperm
import OsFree.Handle.Session

/-!
# Handles that are kept apart

The handles of every session are kept when the entries fit the pages.  Where an
entry reaches over the end of its page or of the table, allocating all entries
of the first page, and one of the next, gives a handle that is not kept.
-/

namespace OsFree.Handle

section

open Machine

variable {malloc : Malloc} {given : TableSize}

/-- The table is unused or in use. -/
def Sound (malloc : Malloc) (given : TableSize) (session : Session) : Prop :=
  Unused given session ∨ ∃ pages free, InUse malloc given pages free session

/-- The table with its memory reserved. -/
def Session.reserve (malloc : Malloc) (session : Session) : Session where
  state := { session.state with table := session.state.table.reserve malloc }
  live := session.live

theorem Unused.reserve {session : Session} (unused : Unused given session)
    (block : malloc.block given.maxSize ≠ 0) :
    InUse malloc given 0 [] (session.reserve malloc) where
  size := by simp [Session.reserve, HandleTable.reserve, unused.table, TableSize.table, emptyTable]
  count := by simp [Session.reserve, HandleTable.reserve, unused.table, TableSize.table, emptyTable]
  reserved := block
  first := by simp [Session.reserve, HandleTable.reserve, unused.table,
    TableSize.table, emptyTable, HandleTable.maxSize, TableSize.maxSize]
  last := by simp [Session.reserve, HandleTable.reserve, unused.table,
    TableSize.table, emptyTable, HandleTable.maxSize, TableSize.maxSize]
  page := by simp [Session.reserve, HandleTable.reserve, unused.table,
    TableSize.table, emptyTable, HandleTable.maxSize, TableSize.maxSize]
  list := by
    have none : (session.state.table.reserve malloc).pNextFree = 0 := by
      simp [HandleTable.reserve, unused.table, TableSize.table, emptyTable]
    show FreeList _ (session.state.table.reserve malloc).pNextFree []
    rw [none]
    exact FreeList.nil
  nodup := by simp [Session.reserve, unused.live]
  entries := by simp [Session.reserve, unused.live]

theorem InUse.reserve {pages : Nat} {free : List UInt32} {session : Session}
    (inUse : InUse malloc given pages free session) :
    session.state.table.reserve malloc = session.state.table := by
  apply if_neg
  rw [inUse.first]
  exact inUse.reserved

theorem pageEntries_cons {table : HandleTable} (paged : table.Paged) :
    ∃ rest, table.pageEntries = table.pReservedMemory :: rest := by
  obtain ⟨count, equal⟩ := Nat.exists_eq_succ_of_ne_zero paged.counts.2.1.ne'
  rw [HandleTable.pageEntries, equal, cellsFrom]
  exact ⟨_, rfl⟩

variable {state : HandleState} {live : List UInt32}

theorem InUse.takeHandle (fits : given.Fits) {pages : Nat} {free : List UInt32}
    (inUse : InUse malloc given pages free (Session.reserve malloc ⟨state, live⟩))
    (same : state.table.pNextFree = (state.table.reserve malloc).pNextFree)
    (kept : state.table.pNextFree ≠ 0 → state.table.reserve malloc = state.table) :
    (∃ handle state' pages' free', state.takeHandle malloc = .ok (.ok handle, state') ∧
          InUse malloc given pages' free' ⟨state', handle :: live⟩) ∨
      ∃ state', state.takeHandle malloc = .ok (.error 290, state') ∧
        InUse malloc given pages free ⟨state', live⟩ := by
  cases free with
  | cons handle free =>
    have head : state.table.pNextFree = handle := same.trans inUse.list.of_cons.1
    have nonnull : state.table.pNextFree ≠ 0 := by
      rw [same]
      exact inUse.list.of_cons.2.1
    have here : InUse malloc given pages (handle :: free) ⟨state, live⟩ := by
      have whole := inUse
      rw [Session.reserve, kept nonnull] at whole
      exact whole
    left
    refine ⟨handle, state.popped, pages, free, ?_, here.afterPop⟩
    rw [HandleState.takeHandle_of_ne nonnull, head]
  | nil =>
    have empty' : (state.table.reserve malloc).pNextFree = 0 := inUse.list.eq_nil_iff.mp rfl
    have empty := same.trans empty'
    by_cases room : 4096 * pages < given.maxSize.toNat
    · have paged := inUse.paged room
      obtain ⟨memory, taken, list⟩ := HandleState.takeHandle_page paged empty empty'
      have next : InUse malloc given (pages + 1) (state.table.reserve malloc).pageEntries
          ⟨⟨(state.table.reserve malloc).nextPage, memory⟩, live⟩ :=
        inUse.afterPage fits room list
      obtain ⟨rest, entries⟩ : ∃ rest, (state.table.reserve malloc).pageEntries =
            (state.table.reserve malloc).pReservedMemory :: rest :=
        pageEntries_cons paged
      rw [entries] at next
      left
      exact ⟨_, _, pages + 1, rest, taken, next.afterPop⟩
    · have full : (state.table.reserve malloc).pMaxHandle ≤
          (state.table.reserve malloc).pReservedMemory := by
        have page := inUse.page
        have last := inUse.toNat_last
        rw [UInt32.le_iff_toNat_le]
        simp only [Session.reserve] at page last
        omega
      right
      exact ⟨_, HandleState.takeHandle_full full empty empty', inUse⟩

theorem Unused.not_mem {session : Session} (unused : Unused given session)
    {handle : UInt32} : handle ∉ session.live := by
  simp [unused.live]

theorem linkEntries_null {table : HandleTable} {turns : Nat}
    {freeHandle : UInt32} (memory : Memory) (null : table.pReservedMemory = 0)
    (room : ¬table.pMaxHandle ≤ 0) :
    table.linkEntries (turns + 1) 0 freeHandle memory =
      .error .nullPointer := by
  simp [HandleTable.linkEntries, null, room, Memory.writePointer]

theorem takeHandle_null (null : (state.table.reserve malloc).pReservedMemory = 0)
    (room : ¬(state.table.reserve malloc).pMaxHandle ≤ 0)
    (empty : state.table.pNextFree = 0)
    (empty' : (state.table.reserve malloc).pNextFree = 0) :
    state.takeHandle malloc = .error .nullPointer := by
  rw [HandleState.takeHandle, if_pos empty, HandleState.hndpAllocateSomeHandles]
  simp only [empty', if_true]
  rw [null, if_neg room, linkEntries_null _ null room]
  rfl

theorem Unused.takeHandle (unused : Unused given ⟨state, live⟩)
    (null : malloc.block given.maxSize = 0) :
    state.takeHandle malloc =
      if given.maxSize = 0 then .ok (.error 290, state)
      else .error .nullPointer := by
  obtain ⟨table, memory⟩ := state
  have table_eq : table = given.table := unused.table
  subst table_eq
  have size_eq : given.table.maxSize = given.maxSize := rfl
  have first : given.table.pFirstHandle = 0 := rfl
  have empty : given.table.pNextFree = 0 := rfl
  have reserve_eq : given.table.reserve malloc =
      { given.table with pMaxHandle := given.maxSize } := by
    rw [HandleTable.reserve, if_pos first, size_eq, null]
    simp [TableSize.table, emptyTable]
  have empty' : (given.table.reserve malloc).pNextFree = 0 := by
    rfl
  have pages : (given.table.reserve malloc).pReservedMemory = 0 := by
    rw [reserve_eq]
    rfl
  have last : (given.table.reserve malloc).pMaxHandle = given.maxSize := by
    rw [reserve_eq]
  by_cases none : given.maxSize = 0
  · have full : (given.table.reserve malloc).pMaxHandle ≤
        (given.table.reserve malloc).pReservedMemory := by
      simp [last, none, pages]
    have same : given.table.reserve malloc = given.table := by
      rw [reserve_eq, none]
      rfl
    rw [if_pos none, HandleState.takeHandle_full full empty empty']
    simp only [same]
  · have room : ¬(given.table.reserve malloc).pMaxHandle ≤ 0 := by
      intro le
      apply none
      apply UInt32.toNat_inj.mp
      simpa [last, UInt32.le_iff_toNat_le] using le
    rw [if_neg none, takeHandle_null pages room empty empty']

theorem Sound.takeHandle (fits : given.Fits) {state' : HandleState} {result : Except UInt32 UInt32}
    (sound : Sound malloc given ⟨state, live⟩)
    (taken : state.takeHandle malloc = .ok (result, state')) :
    (∃ handle, result = .ok handle ∧ Sound malloc given ⟨state', handle :: live⟩) ∨
      ∃ rc, result = .error rc ∧ Sound malloc given ⟨state', live⟩ := by
  have used : ∀ {pages free}, InUse malloc given pages free (Session.reserve malloc ⟨state, live⟩) →
      state.table.pNextFree = (state.table.reserve malloc).pNextFree →
      (state.table.pNextFree ≠ 0 → state.table.reserve malloc = state.table) →
      (∃ handle, result = .ok handle ∧ Sound malloc given ⟨state', handle :: live⟩) ∨
      ∃ rc, result = .error rc ∧ Sound malloc given ⟨state', live⟩ := by
    intro pages free inUse same kept
    cases inUse.takeHandle fits same kept with
    | inl gives =>
      obtain ⟨handle, next, pages', free', equal, inUse'⟩ := gives
      rw [taken] at equal
      cases equal
      exact Or.inl ⟨handle, rfl, Or.inr ⟨pages', free', inUse'⟩⟩
    | inr refuses =>
      obtain ⟨next, equal, inUse'⟩ := refuses
      rw [taken] at equal
      cases equal
      exact Or.inr ⟨290, rfl, Or.inr ⟨pages, free, inUse'⟩⟩
  cases sound with
  | inl unused =>
    by_cases null : malloc.block given.maxSize = 0
    · rw [unused.takeHandle null] at taken
      split at taken
      · cases taken
        exact Or.inr ⟨290, rfl, Or.inl unused⟩
      · cases taken
    · have nextFree : state.table.pNextFree = 0 := by
        rw [unused.table]
        rfl
      apply used (unused.reserve null)
      · have list := (unused.reserve null).list
        exact nextFree.trans (list.eq_nil_iff.mp rfl).symm
      · intro nonnull
        exact absurd nextFree nonnull
  | inr inUse =>
    obtain ⟨pages, free, inUse⟩ := inUse
    have same : state.table.reserve malloc = state.table := inUse.reserve
    have whole : InUse malloc given pages free
        (Session.reserve malloc ⟨state, live⟩) := by
      rw [Session.reserve, same]
      exact inUse
    exact used whole (by rw [same]) fun _ => same

theorem Sound.step (fits : given.Fits) {session session' : Session}
    (sound : Sound malloc given session)
    (step : Session.Step malloc session session') :
    Sound malloc given session' := by
  cases step with
  | allocate taken =>
    cases sound.takeHandle fits taken with
    | inl gives =>
      obtain ⟨handle, equal, sound'⟩ := gives
      cases equal
      exact sound'
    | inr refuses =>
      obtain ⟨rc, equal, -⟩ := refuses
      cases equal
  | refuse refused =>
    cases sound.takeHandle fits refused with
    | inl gives =>
      obtain ⟨handle, equal, -⟩ := gives
      cases equal
    | inr refuses => exact refuses.choose_spec.2
  | free mem freed =>
    cases sound with
    | inl unused =>
      exact absurd mem unused.not_mem
    | inr inUse =>
      obtain ⟨pages, free, inUse⟩ := inUse
      obtain ⟨equal, inUse'⟩ := inUse.afterFree mem
      rw [freed] at equal
      cases equal
      exact Or.inr ⟨pages, _, inUse'⟩
  | fill mem within =>
    cases sound with
    | inl unused =>
      exact absurd mem unused.not_mem
    | inr inUse =>
      obtain ⟨pages, free, inUse⟩ := inUse
      have size_eq := inUse.size
      rw [size_eq] at within
      exact Or.inr ⟨pages, free, inUse.afterFill mem within⟩

namespace InUse

variable {pages : Nat} {free : List UInt32} {session : Session}

section

variable (inUse : InUse malloc given pages free session)

include inUse

theorem disjoint {handle handle' : UInt32} (entry : given.IsEntry malloc pages handle)
    (entry' : given.IsEntry malloc pages handle') (different : handle ≠ handle') :
    Disjoint (arc handle given.size) (arc handle' given.size) := by
  have apart := entry.apart entry' different
  have bounds := inUse.entry_bounds entry
  have bounds' := inUse.entry_bounds entry'
  have positive : 0 < given.size := UInt32.lt_iff_toNat_lt.mpr given.size_pos
  rw [disjoint_arc_iff positive positive]
  simp only [mem_arc_iff, UInt32.lt_iff_toNat_lt, UInt32.toNat_sub]
  omega

theorem inside {handle : UInt32} (entry : given.IsEntry malloc pages handle) :
    arc handle given.size ⊆ arc (malloc.block given.maxSize) given.maxSize := by
  have bounds := inUse.entry_bounds entry
  intro addr
  simp only [mem_arc_iff, UInt32.lt_iff_toNat_lt, UInt32.toNat_sub]
  omega

/-- A table has at most as many entries as handles are asked for. -/
theorem limited :
    session.live.length ≤ given.count.toNat := by
  have positive := given.size_pos
  let index : UInt32 → Nat := fun handle =>
    (handle.toNat - (malloc.block given.maxSize).toNat) / given.size.toNat
  have index_eq : ∀ {handle : UInt32} {i : Nat}, handle.toNat =
      (malloc.block given.maxSize).toNat + i * given.size.toNat →
        index handle = i := by
    intro handle i place
    show (_ - _) / _ = i
    rw [place, Nat.add_sub_cancel_left, Nat.mul_div_cancel _ positive]
  have distinct : (session.live.map index).Nodup := by
    apply List.Nodup.map_on _ (List.nodup_append.mp inUse.nodup).1
    intro handle mem handle' mem' same
    obtain ⟨i, place, -⟩ := inUse.live_entry mem
    obtain ⟨j, place', -⟩ := inUse.live_entry mem'
    apply UInt32.toNat_inj.mp
    rw [index_eq place, index_eq place'] at same
    rw [place, place', same]
  have below : session.live.map index ⊆
      List.range (given.maxSize.toNat / given.size.toNat) := by
    intro i mem
    obtain ⟨handle, live, equal⟩ := List.mem_map.mp mem
    obtain ⟨j, place, within, -⟩ := inUse.live_entry live
    rw [List.mem_range, ← equal, index_eq place]
    exact (Nat.le_div_iff_mul_le positive).mpr within
  have few : given.maxSize.toNat / given.size.toNat ≤ given.count.toNat := by
    apply Nat.div_le_of_le_mul
    rw [TableSize.maxSize, UInt32.toNat_mul, Nat.mul_comm given.size.toNat]
    exact Nat.mod_le _ _
  calc session.live.length
      = (session.live.map index).length := (List.length_map index).symm
    _ ≤ (List.range (given.maxSize.toNat / given.size.toNat)).length :=
        (distinct.subperm below).length_le
    _ ≤ given.count.toNat := by simpa using few

theorem keeps : Session.Keeps malloc given session where
  distinct := (List.nodup_append.mp inUse.nodup).1
  apart := by
    apply List.Pairwise.imp_of_mem _ (List.nodup_append.mp inUse.nodup).1
    intro handle handle' mem mem' different
    exact inUse.disjoint (inUse.live_entry mem) (inUse.live_entry mem') different
  inside := by
    intro handle mem
    exact inUse.inside (inUse.live_entry mem)
  limited := inUse.limited
  reused := by
    intro handle mem
    obtain ⟨freed, inUse'⟩ := inUse.afterFree mem
    have nonnull := inUse'.list.of_cons.2.1
    exact ⟨_, _, freed, HandleState.takeHandle_of_ne nonnull⟩

end

end InUse

theorem Sound.keeps {session : Session} (sound : Sound malloc given session) :
    Session.Keeps malloc given session := by
  cases sound with
  | inl unused => constructor <;> simp [unused.live]
  | inr inUse =>
    obtain ⟨pages, free, inUse⟩ := inUse
    exact inUse.keeps

theorem TableSize.Fits.keepsHandles (fits : given.Fits) :
    given.KeepsHandles malloc := by
  intro memory session run
  have start : Sound malloc given (Session.start given memory) := Or.inl ⟨rfl, rfl⟩
  have sound := run.preserves (fun _ _ sound step => sound.step fits step) start
  exact sound.keeps

theorem Unused.step (null : malloc.block given.maxSize = 0)
    {session session' : Session} (unused : Unused given session)
    (step : Session.Step malloc session session') : Unused given session' := by
  cases step with
  | allocate taken =>
    rw [unused.takeHandle null] at taken
    split at taken
    · cases taken
    · cases taken
  | refuse refused =>
    rw [unused.takeHandle null] at refused
    split at refused
    · cases refused
      exact unused
    · cases refused
  | free mem freed => exact absurd mem unused.not_mem
  | fill mem within => exact absurd mem unused.not_mem

theorem null_keepsHandles (null : malloc.block given.maxSize = 0) :
    given.KeepsHandles malloc := by
  intro memory session run
  have start : Unused given (Session.start given memory) := ⟨rfl, rfl⟩
  have unused := run.preserves (fun _ _ unused step => unused.step null step) start
  exact Sound.keeps (Or.inl unused)

end

/-!
## Handles that overlap

Allocating all entries of the first page shows whether the last of them ends
with the page or with the table.
-/

open Machine

variable {malloc : Malloc} {given : TableSize}

theorem runs_pop (state : HandleState) (live taken : List UInt32) {rest : List UInt32}
    (list : FreeList state.memory state.table.pNextFree (taken ++ rest)) :
    ∃ next, FreeList state.memory next rest ∧ RunsTo (Session.Step malloc) ⟨state, live⟩
        ⟨{ state with table := { state.table with pNextFree := next } },
          taken.reverse ++ live⟩ := by
  induction taken generalizing state live with
  | nil => exact ⟨state.table.pNextFree, list, Relation.ReflTransGen.refl⟩
  | cons handle taken ih =>
    obtain ⟨head, nonnull, tail⟩ := list.of_cons
    obtain ⟨next, rest_list, run⟩ := ih state.popped (handle :: live) tail
    refine ⟨next, rest_list, ?_⟩
    have first : Session.Step malloc ⟨state, live⟩ ⟨state.popped, handle :: live⟩ := by
      apply Session.Step.allocate
      rw [HandleState.takeHandle_of_ne nonnull, head]
    rw [List.reverse_cons, List.append_assoc]
    exact Relation.ReflTransGen.head first run

/-- The table behind its first page, without a free entry. -/
def TableSize.secondPage (malloc : Malloc) (given : TableSize) : HandleTable :=
  { (given.table.reserve malloc).nextPage with pNextFree := 0 }

section

variable (block : malloc.block given.maxSize ≠ 0)

include block

theorem runs_firstPage (room : 0 < given.maxSize.toNat) (memory : Memory) :
    ∃ memory', RunsTo (Session.Step malloc) (Session.start given memory)
      ⟨⟨given.secondPage malloc, memory'⟩,
        (given.table.reserve malloc).pageEntries.reverse⟩ := by
  have unused : Unused given (Session.start given memory) := ⟨rfl, rfl⟩
  have inUse := unused.reserve block
  have paged : (given.table.reserve malloc).Paged := inUse.paged (by simpa using room)
  have empty : (given.table.reserve malloc).pNextFree = 0 := inUse.list.eq_nil_iff.mp rfl
  obtain ⟨memory', taken, list⟩ :=
    @HandleState.takeHandle_page malloc ⟨given.table, memory⟩ paged rfl empty
  obtain ⟨rest, entries⟩ := pageEntries_cons paged
  rw [entries] at list
  have tail := list.of_cons.2.2
  rw [← List.append_nil rest] at tail
  obtain ⟨next, last, run⟩ := @runs_pop malloc
    (HandleState.popped ⟨(given.table.reserve malloc).nextPage, memory'⟩)
    [(given.table.reserve malloc).pReservedMemory] rest [] tail
  have null : next = 0 := last.eq_nil_iff.mp rfl
  refine ⟨memory', Relation.ReflTransGen.head (Session.Step.allocate taken) ?_⟩
  rw [entries, List.reverse_cons]
  rw [null] at run
  exact run

theorem inUse_reserve (memory : Memory) :
    InUse malloc given 0 [] ⟨⟨given.table.reserve malloc, memory⟩, []⟩ := by
  have unused : Unused given (Session.start given memory) := ⟨rfl, rfl⟩
  exact unused.reserve block

theorem starts_firstPage_iff (offset : Nat) : (given.table.reserve malloc).Starts offset ↔
      offset < 4096 ∧ offset < given.maxSize.toNat := by
  have inUse := inUse_reserve block fun _ => 0
  have page := inUse.page
  have last := inUse.toNat_last
  rw [HandleTable.Starts, page, last]
  omega

theorem exists_lastEntry (room : 0 < given.maxSize.toNat) :
    ∃ k, ∃ handle ∈ (given.table.reserve malloc).pageEntries,
      handle.toNat = (malloc.block given.maxSize).toNat + k * given.size.toNat ∧
      k * given.size.toNat < 4096 ∧
      k * given.size.toNat < given.maxSize.toNat ∧
      (4096 ≤ (k + 1) * given.size.toNat ∨
        given.maxSize.toNat ≤ (k + 1) * given.size.toNat) := by
  have inUse := inUse_reserve block fun _ => 0
  have paged := inUse.paged (by simpa using room)
  have size_eq : (given.table.reserve malloc).ulHandleSize = given.size := inUse.size
  have page : (given.table.reserve malloc).pReservedMemory.toNat = _ := inUse.page
  obtain ⟨counts, positive, -⟩ := paged.counts
  simp only at counts positive
  obtain ⟨k, count_eq⟩ : ∃ k, (given.table.reserve malloc).pageCount = k + 1 :=
    ⟨_, (Nat.sub_add_cancel positive).symm⟩
  have starts := counts.starts k (by omega)
  have ends := counts.ends
  rw [count_eq] at ends
  rw [size_eq, starts_firstPage_iff block, Nat.zero_add] at starts ends
  have fits := malloc.fits _ block
  have place : (UInt32.ofNat ((malloc.block given.maxSize).toNat + k * given.size.toNat)).toNat =
      (malloc.block given.maxSize).toNat + k * given.size.toNat := by
    rw [UInt32.toNat_ofNat']
    omega
  refine ⟨k, _, ?_, place, starts.1, starts.2, by omega⟩
  rw [paged.mem_pageEntries_iff]
  refine ⟨k, ?_, ?_⟩
  · rw [place, size_eq, page]
    rfl
  · rw [size_eq, starts_firstPage_iff block]
    exact starts

end

/-- In a table of one page that is kept the entries end with the table. -/
theorem size_dvd_of_keeps (keeps : given.KeepsHandles malloc)
    (block : malloc.block given.maxSize ≠ 0)
    (room : 0 < given.maxSize.toNat) (small : given.maxSize.toNat ≤ 4096) :
    given.size.toNat ∣ given.maxSize.toNat := by
  obtain ⟨k, handle, mem, place, -, start, finish⟩ := exists_lastEntry block room
  obtain ⟨memory, run⟩ := runs_firstPage block room fun _ => 0
  have inside := (keeps _ _ run).inside handle (List.mem_reverse.mpr mem)
  have fits := malloc.fits _ block
  by_contra outside
  have beyond : given.maxSize.toNat < (k + 1) * given.size.toNat := by
    have different : given.maxSize.toNat ≠ (k + 1) * given.size.toNat := by
      intro equal
      exact outside ⟨k + 1, by rw [equal, Nat.mul_comm]⟩
    omega
  rw [Nat.succ_mul] at beyond
  have behind : malloc.block given.maxSize + given.maxSize ∈
      arc handle given.size := by
    rw [mem_arc_iff, UInt32.lt_iff_toNat_lt, UInt32.toNat_sub, UInt32.toNat_add]
    omega
  have within := inside behind
  rw [mem_arc_iff, UInt32.add_comm, UInt32.add_sub_cancel] at within
  exact UInt32.lt_irrefl _ within

theorem size_dvd_page_of_keeps (keeps : given.KeepsHandles malloc)
    (block : malloc.block given.maxSize ≠ 0)
    (large : 4096 < given.maxSize.toNat) : given.size.toNat ∣ 4096 := by
  have room : 0 < given.maxSize.toNat := by omega
  obtain ⟨k, handle, mem, place, start, -, finish⟩ := exists_lastEntry block room
  obtain ⟨memory, run⟩ := runs_firstPage block room fun _ => 0
  have fits := malloc.fits _ block
  have inUse := inUse_reserve block fun _ => 0
  have page : (given.table.reserve malloc).pReservedMemory.toNat =
      (malloc.block given.maxSize).toNat := inUse.page
  have next : (given.secondPage malloc).pReservedMemory.toNat =
      (malloc.block given.maxSize).toNat + 4096 := by
    show ((given.table.reserve malloc).pReservedMemory + 4096).toNat = _
    rw [UInt32.toNat_add, page]
    simp only [UInt32.reduceToNat]
    omega
  have first : (given.secondPage malloc).pFirstHandle ≠ 0 := by
    exact block
  have reserve_eq : (given.secondPage malloc).reserve malloc =
      given.secondPage malloc := if_neg first
  have paged : ((given.secondPage malloc).reserve malloc).Paged := by
    rw [reserve_eq]
    have last : (given.secondPage malloc).pMaxHandle.toNat = _ := inUse.toNat_last
    have sized : (given.secondPage malloc).ulHandleSize = given.size := inUse.size
    constructor
    · rw [sized]
      exact given.sized
    · rw [next]
      omega
    · rw [last]
      omega
    · rw [next, last]
      omega
  have empty : ((given.secondPage malloc).reserve malloc).pNextFree = 0 := by
    rw [reserve_eq]
    rfl
  obtain ⟨memory', taken, -⟩ := @HandleState.takeHandle_page malloc
    ⟨given.secondPage malloc, memory⟩ paged rfl empty
  have kept := keeps _ _ (run.tail (Session.Step.allocate taken))
  have apart := (List.pairwise_cons.mp kept.apart).1 handle (List.mem_reverse.mpr mem)
  simp only [reserve_eq] at apart
  by_contra outside
  have beyond : 4096 < (k + 1) * given.size.toNat := by
    have different : 4096 ≠ (k + 1) * given.size.toNat := by
      intro equal
      exact outside ⟨k + 1, by rw [equal, Nat.mul_comm]⟩
    omega
  rw [Nat.succ_mul] at beyond
  have positive : 0 < given.size := UInt32.lt_iff_toNat_lt.mpr given.size_pos
  apply Set.disjoint_left.mp apart (start_mem_arc positive)
  rw [mem_arc_iff, UInt32.lt_iff_toNat_lt, UInt32.toNat_sub, next]
  omega

/-- The handles of every session are kept exactly if the table has no block of
memory or its entries fit the pages. -/
theorem TableSize.keepsHandles_iff_fits (malloc : Malloc) (given : TableSize) :
    given.KeepsHandles malloc ↔
      malloc.block given.maxSize = 0 ∨ given.Fits := by
  constructor
  · intro keeps
    by_cases block : malloc.block given.maxSize = 0
    · exact Or.inl block
    · right
      by_cases small : given.maxSize.toNat ≤ 4096
      · by_cases room : 0 < given.maxSize.toNat
        · exact Or.inr ⟨small, size_dvd_of_keeps keeps block room small⟩
        · have none : given.maxSize.toNat = 0 := by omega
          exact Or.inr ⟨small, by rw [none]; exact Nat.dvd_zero _⟩
      · exact Or.inl (size_dvd_page_of_keeps keeps block (by omega))
  · intro condition
    cases condition with
    | inl null => exact null_keepsHandles null
    | inr fits => exact fits.keepsHandles

/-- An allocator that has the memory for small tables. -/
def smallMalloc : Malloc where
  block := fun size => if size ≤ 0x100000 then 0x10000 else 0
  behind := by
    intro size nonnull
    by_cases small : size ≤ 0x100000
    · rw [if_pos small]
      decide
    · exact absurd (if_neg small) nonnull
  fits := by
    intro size nonnull
    by_cases small : size ≤ 0x100000
    · have bound : size.toNat ≤ 0x100000 := UInt32.le_iff_toNat_le.mp small
      rw [if_pos small]
      simp only [UInt32.reduceToNat]
      omega
    · exact absurd (if_neg small) nonnull

/-- Four hundred handles of twelve bytes. -/
def twelveBytes : TableSize where
  count := 400
  size := 12
  counted := by decide
  sized := by decide

/-- The last of the entries that start in the first page ends in the second. -/
theorem twelveBytes_not_keepsHandles :
    ¬twelveBytes.KeepsHandles smallMalloc := by
  intro keeps
  have divides : 12 ∣ 4096 := size_dvd_page_of_keeps keeps (by decide) (by decide)
  revert divides
  decide

end OsFree.Handle
