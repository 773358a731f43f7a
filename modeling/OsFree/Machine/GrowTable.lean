import Mathlib.Logic.Function.Basic
import OsFree.Machine.Fold

/-!
# Tables that grow

A table in memory has a number of entries, and a block with room for more of
them.  Before an entry is added to a full block, the block is allocated again
with more room.  Entries that are not in use are taken again.  To its users, the
table is a partial map from indices to the entries in use.
-/

namespace OsFree.Machine

/-- A table with its number of entries, the room of its block, and the block
that its pointer points to, which is none for a null pointer. -/
structure GrowTable (α : Type) where
  n : Nat
  nAlloced : Nat
  block : Option (List α)
  deriving DecidableEq

namespace GrowTable

variable {α : Type}

/-- The table before its first use. -/
def empty : GrowTable α := ⟨0, 0, none⟩

/-- Read a cell through the pointer of the table. -/
def read (table : GrowTable α) (i : Int) : Run α :=
  match table.block with
  | none => .error .nullPointer
  | some cells =>
    if i < 0 then .error .readOutside
    else
      match cells[i.toNat]? with
      | some cell => .ok cell
      | none => .error .readOutside

/-- The table with another cell. -/
def set (table : GrowTable α) (i : Nat) (cell : α) : GrowTable α :=
  { table with block := table.block.map fun cells => cells.set i cell }

/-- Write a cell through the pointer of the table. -/
def write (table : GrowTable α) (i : Int) (cell : α) : Run (GrowTable α) :=
  match table.block with
  | none => .error .nullPointer
  | some cells =>
    if i < 0 then .error .writeOutside
    else if cells.length ≤ i.toNat then .error .writeOutside
    else .ok (table.set i.toNat cell)

/-- What `realloc` makes of a block: new cells hold what the memory held. -/
def resize (cells : List α) (size : Nat) (junk : Nat → α) : List α :=
  (List.range size).map fun i => cells.getD i (junk i)

/-- More room for a table that is full.  The first block is filled with zeros,
and its first entry is not for use. -/
def grow (growth : Nat) (zero : α) (junk : Nat → α) (table : GrowTable α) :
    GrowTable α :=
  match table.block with
  | none =>
    { n := 1
      nAlloced := table.nAlloced + growth
      block := some (List.replicate (table.nAlloced + growth) zero) }
  | some cells =>
    { table with
      nAlloced := table.nAlloced + growth
      block := some (resize cells (table.nAlloced + growth) junk) }

/-- A new entry behind the last, and its index. -/
def reserve (growth : Nat) (zero : α) (junk : Nat → α) (table : GrowTable α) :
    GrowTable α × Nat :=
  let roomy :=
    if table.n + 1 ≥ table.nAlloced then table.grow growth zero junk else table
  ({ roomy with n := roomy.n + 1 }, roomy.n)

/-- The entries of a table. -/
def entries (table : GrowTable α) : List α := (table.block.getD []).take table.n

/-- The table is new, or its block has room for its entries and one more. -/
inductive Good : GrowTable α → Prop where
  | empty : Good empty
  | filled {n nAlloced : Nat} {cells : List α} :
      cells.length = nAlloced → 1 ≤ n → n < nAlloced → Good ⟨n, nAlloced, some cells⟩

variable {table : GrowTable α} {i : Nat} {cell : α}

section

variable (good : table.Good)

include good

theorem Good.length_entries :
    table.entries.length = table.n := by
  cases good with
  | empty => rfl
  | filled length positive room =>
    rw [entries, Option.getD_some, List.length_take, length]
    exact Nat.min_eq_left (Nat.le_of_lt room)

theorem Good.n_le : table.n ≤ table.nAlloced := by
  cases good with
  | empty => exact Nat.le_refl 0
  | filled length positive room => exact Nat.le_of_lt room

theorem Good.lt_of_getElem? (found : table.entries[i]? = some cell) : i < table.n := by
  rw [← good.length_entries]
  exact (List.getElem?_eq_some_iff.mp found).1

theorem Good.read_eq (found : table.entries[i]? = some cell) : table.read i = .ok cell := by
  have below := good.lt_of_getElem? found
  cases good with
  | empty => cases found
  | @filled n _ cells length positive room =>
    have here : cells[i]? = some cell := by
      rw [entries, Option.getD_some, List.getElem?_take_of_lt below] at found
      exact found
    simp [read, here]

theorem Good.exists_read (inside : i < table.nAlloced) :
    ∃ cell, table.read i = .ok cell := by
  cases good with
  | empty => cases inside
  | @filled _ _ cells length positive room =>
    have here : i < cells.length := by
      rw [length]
      exact inside
    exact ⟨cells[i], by simp [read, here]⟩

theorem Good.write_eq (inside : i < table.nAlloced)
    (cell : α) : table.write i cell = .ok (table.set i cell) := by
  cases good with
  | empty => cases inside
  | @filled _ _ cells length positive room =>
    have here : ¬ cells.length ≤ i := by
      rw [length]
      exact Nat.not_le.mpr inside
    simp [write, here]

end

@[simp] theorem n_set : (table.set i cell).n = table.n := rfl

@[simp] theorem nAlloced_set :
    (table.set i cell).nAlloced = table.nAlloced := rfl

theorem entries_set : (table.set i cell).entries = table.entries.set i cell := by
  unfold entries set
  cases table.block with
  | none => simp
  | some cells => simp [List.take_set]

theorem Good.set (good : table.Good) (i : Nat) (cell : α) :
    (table.set i cell).Good := by
  cases good with
  | empty => exact .empty
  | filled length positive room =>
    exact .filled (by rw [List.length_set, length]) positive room

theorem Good.inside_of_read (good : table.Good) {i : Int}
    (read : table.read i = .ok cell) : 0 ≤ i ∧ i.toNat < table.nAlloced := by
  cases good with
  | empty => cases read
  | filled length positive room =>
    unfold GrowTable.read at read
    dsimp only at read
    split at read
    · cases read
    · rename_i positive
      refine ⟨Int.not_lt.mp positive, ?_⟩
      split at read
      · rename_i found
        rw [← length]
        exact (List.getElem?_eq_some_iff.mp found).1
      · cases read

theorem Good.read_set (good : table.Good) (inside : i < table.nAlloced)
    (cell : α) : (table.set i cell).read i = .ok cell := by
  cases good with
  | empty => cases inside
  | @filled _ _ cells length positive room =>
    have here : i < cells.length := by
      rw [length]
      exact inside
    simp [GrowTable.read, GrowTable.set, here]

theorem entries_set_of_le (behind : table.n ≤ i) (cell : α) :
    (table.set i cell).entries = table.entries := by
  rw [entries_set]
  apply List.set_eq_of_length_le
  rw [entries, List.length_take]
  omega

/-- The entries, with the one that is not for use. -/
def started (zero : α) (table : GrowTable α) : List α :=
  if table.n = 0 then [zero] else table.entries

section

variable {growth : Nat} {zero : α} {junk : Nat → α}

theorem length_resize {cells : List α} {size : Nat} :
    (resize cells size junk).length = size := by
  rw [resize, List.length_map, List.length_range]

theorem take_resize {cells : List α} {size n : Nat} (inside : n ≤ cells.length)
    (larger : cells.length ≤ size) :
    (resize cells size junk).take n = cells.take n := by
  apply List.ext_getElem?
  intro i
  by_cases below : i < n
  · have here : i < cells.length := by omega
    have there : i < size := by omega
    simp [resize, List.getElem?_take_of_lt below, here, there]
  · simp [below]

theorem grow_empty : (empty : GrowTable α).grow growth zero junk =
    ⟨1, 0 + growth, some (List.replicate (0 + growth) zero)⟩ := rfl

theorem grow_filled {n nAlloced : Nat} {cells : List α} :
    (⟨n, nAlloced, some cells⟩ : GrowTable α).grow growth zero junk =
      ⟨n, nAlloced + growth, some (resize cells (nAlloced + growth) junk)⟩ := rfl

theorem nAlloced_grow :
    (table.grow growth zero junk).nAlloced = table.nAlloced + growth := by
  unfold GrowTable.grow
  split
  · rfl
  · rfl

theorem Good.grow (good : table.Good) (large : 3 ≤ growth) : (table.grow growth zero junk).Good ∧
      (table.grow growth zero junk).entries = table.started zero ∧
      (table.grow growth zero junk).n + 1 <
        (table.grow growth zero junk).nAlloced := by
  cases good with
  | empty =>
    have one : min 1 (0 + growth) = 1 := by omega
    rw [grow_empty]
    refine ⟨.filled (List.length_replicate ..) (Nat.le_refl 1) ?_, ?_, ?_⟩
    · omega
    · rw [entries, Option.getD_some, List.take_replicate, one]
      rfl
    · change 1 + 1 < 0 + growth
      omega
  | @filled n nAlloced cells length positive room =>
    have nonzero : n ≠ 0 := by omega
    rw [grow_filled]
    refine ⟨.filled length_resize positive ?_, ?_, ?_⟩
    · omega
    · rw [started, if_neg nonzero]
      exact take_resize (n := n) (by omega) (by omega)
    · change n + 1 < nAlloced + growth
      omega

theorem Good.add_one (good : table.Good) (room : table.n + 1 < table.nAlloced) :
    ({ table with n := table.n + 1 } : GrowTable α).Good ∧
      ∃ cell, ({ table with n := table.n + 1 } : GrowTable α).entries =
        table.entries ++ [cell] := by
  cases good with
  | empty => cases room
  | @filled n nAlloced cells length positive _ =>
    have inside : n < cells.length := by
      rw [length]
      exact Nat.lt_of_succ_lt room
    refine ⟨.filled length (Nat.le_add_left 1 n) room, cells[n], ?_⟩
    exact List.take_succ_eq_append_getElem inside

/-- The new entry is behind all that there are, and behind the first. -/
theorem Good.reserve (good : table.Good) (large : 3 ≤ growth) :
    (table.reserve growth zero junk).1.Good ∧
      (table.reserve growth zero junk).2 = (table.started zero).length ∧
      table.nAlloced ≤ (table.reserve growth zero junk).1.nAlloced ∧
      ∃ cell, (table.reserve growth zero junk).1.entries =
        table.started zero ++ [cell] := by
  by_cases full : table.n + 1 ≥ table.nAlloced
  · obtain ⟨grown, kept, room⟩ := @Good.grow _ _ growth zero junk good large
    obtain ⟨more, cell, added⟩ := grown.add_one room
    simp only [GrowTable.reserve, if_pos full]
    refine ⟨more, ?_, ?_, cell, ?_⟩
    · rw [← kept, grown.length_entries]
    · rw [nAlloced_grow]
      exact Nat.le_add_right ..
    · rw [← kept]
      exact added
  · obtain ⟨more, cell, added⟩ := good.add_one (Nat.not_le.mp full)
    have old : table.started zero = table.entries := by
      cases good with
      | empty => exact absurd (Nat.zero_le 1) full
      | filled length positive room => exact if_neg (Nat.ne_of_gt positive)
    simp only [GrowTable.reserve, if_neg full]
    refine ⟨more, ?_, Nat.le_refl _, cell, ?_⟩
    · rw [old, good.length_entries]
    · rw [old]
      exact added

end

section

variable {used : α → Bool}

/-- The entries in use, by their indices. -/
def contents (used : α → Bool) (table : GrowTable α) (i : Nat) : Option α :=
  table.entries[i]?.filter used

theorem contents_eq_some_iff : table.contents used i = some cell ↔
      table.entries[i]? = some cell ∧ used cell = true := by
  rw [contents, Option.filter_eq_some_iff]

theorem contents_empty : (empty : GrowTable α).contents used i = none := rfl

theorem Good.lt_of_contents (good : table.Good)
    (live : table.contents used i = some cell) : i < table.n :=
  good.lt_of_getElem? (contents_eq_some_iff.mp live).1

theorem contents_set (inside : i < table.entries.length) (j : Nat) :
    (table.set i cell).contents used j =
      if j = i then (some cell).filter used else table.contents used j := by
  unfold contents
  rw [entries_set]
  by_cases here : j = i
  · rw [if_pos here, here, List.getElem?_set_self inside]
  · rw [if_neg here, List.getElem?_set_ne (Ne.symm here)]

theorem Good.read_live (good : table.Good) (live : table.contents used i = some cell) :
    table.read i = .ok cell ∧ used cell = true := by
  obtain ⟨found, uses⟩ := contents_eq_some_iff.mp live
  exact ⟨good.read_eq found, uses⟩

theorem Good.read_free (good : table.Good) (inside : i < table.n)
    (free : table.contents used i = none) :
    ∃ cell, table.read i = .ok cell ∧ used cell = false := by
  have here : i < table.entries.length := by
    rw [good.length_entries]
    exact inside
  have found := List.getElem?_eq_getElem here
  refine ⟨_, good.read_eq found, ?_⟩
  rw [contents, found, Option.filter_some] at free
  simpa using free

theorem contents_set_of_used (inside : i < table.entries.length) (uses : used cell = true) :
    (table.set i cell).contents used =
      Function.update (table.contents used) i (some cell) := by
  funext j
  rw [contents_set inside, Function.update_apply, Option.filter_some, if_pos uses]

theorem contents_set_of_unused (inside : i < table.entries.length) (free : used cell = false) :
    (table.set i cell).contents used =
      Function.update (table.contents used) i none := by
  funext j
  rw [contents_set inside, Function.update_apply, Option.filter_some, free,
    if_neg Bool.false_ne_true]

theorem contents_started {zero : α} (unused : used zero = false) (i : Nat) :
    (table.started zero)[i]?.filter used = table.contents used i := by
  unfold started contents
  split
  · rename_i new
    have none : table.entries = [] := by rw [entries, new, List.take_zero]
    rw [none]
    cases i with
    | zero => simp [unused]
    | succ i => simp
  · rfl

theorem getElem?_started {zero : α} (found : table.entries[i]? = some cell) :
    (table.started zero)[i]? = some cell := by
  unfold started
  split
  · rename_i new
    rw [entries, new, List.take_zero] at found
    cases found
  · exact found

/-- The last entry behind the first that is not in use. -/
def lastFree (used : α → Bool) (table : GrowTable α) : Run (Option Nat) :=
  (List.range' 1 (table.n - 1)).foldlM (fun found (i : Nat) => do
    let cell ← table.read i
    pure (if used cell then found else some i)) none

theorem Good.lastFree (good : table.Good) : ∃ found, table.lastFree used = .ok found ∧
      ∀ i, found = some i →
        1 ≤ i ∧ i < table.n ∧ table.contents used i = none := by
  obtain ⟨found, returned, holds⟩ := @exists_foldlM_range' _ (fun found (i : Nat) => do
      let cell ← table.read i
      pure (if used cell then found else some i))
      (fun _ found => ∀ i, found = some i →
        1 ≤ i ∧ i < table.n ∧ table.contents used i = none) 1 (table.n - 1)
      (by
        intro k found from' below holds
        have inside : k < table.entries.length := by
          rw [good.length_entries]
          omega
        have cell := good.read_eq (List.getElem?_eq_getElem inside)
        refine ⟨_, by rw [cell]; rfl, ?_⟩
        intro i same
        split at same
        · exact holds i same
        · rename_i free
          cases same
          refine ⟨from', by omega, ?_⟩
          rw [contents, List.getElem?_eq_getElem inside, Option.filter_some, if_neg free])
      none (by simp)
  exact ⟨found, returned, holds⟩

end

section

variable {used : α → Bool} {growth : Nat} {zero : α} {junk : Nat → α}

/-- A free entry, or a new one if there is none, is put to use. -/
def take (used : α → Bool) (growth : Nat) (zero : α) (junk : Nat → α)
    (cell : Nat → α) (table : GrowTable α) : Run (GrowTable α × Nat) := do
  let found ← table.lastFree used
  let (table, ind) :=
    match found with
    | some i => (table, i)
    | none => table.reserve growth zero junk
  let table ← table.write ind (cell ind)
  pure (table, ind)

/-- Entries at the end of a table are dropped as long as the one behind them
says so. -/
def trim (used : α → Bool) (table : GrowTable α) : Nat → Run (GrowTable α)
  | 0 => pure { table with n := 0 }
  | n + 1 => do
      let cell ← table.read ((n + 1 : Nat) : Int)
      if used cell then trim used table n
      else pure { table with n := n + 1 }

/-- An entry is given up.  Behind the last one, the table is trimmed. -/
def vacate (used : α → Bool) (clear : α → α) (i : Nat) (table : GrowTable α) :
    Run (GrowTable α) := do
  let cell ← table.read i
  let table ← table.write i (clear cell)
  if (i : Int) = table.n - 1 then table.trim used table.n else pure table

theorem Good.write_reserve (good : table.Good) (large : 3 ≤ growth)
    (unused : used zero = false) (uses : used cell = true) :
    ∃ table', (table.reserve growth zero junk).1.write
        (table.reserve growth zero junk).2 cell = .ok table' ∧
      table'.Good ∧ 1 ≤ (table.reserve growth zero junk).2 ∧
      table.n ≤ (table.reserve growth zero junk).2 ∧
      table'.entries = table.started zero ++ [cell] ∧
      table'.contents used = Function.update (table.contents used)
        (table.reserve growth zero junk).2 (some cell) := by
  obtain ⟨more, index, -, last, added⟩ := @Good.reserve _ _ growth zero junk good large
  have behind : (table.reserve growth zero junk).2 <
      (table.reserve growth zero junk).1.entries.length := by
    rw [added, index, List.length_append, List.length_singleton]
    exact Nat.lt_succ_self _
  have inside := behind
  rw [more.length_entries] at inside
  have written := more.write_eq (Nat.lt_of_lt_of_le inside more.n_le) cell
  have old : 1 ≤ (table.started zero).length ∧
      table.n ≤ (table.started zero).length := by
    unfold started
    split
    · rename_i new
      rw [new]
      exact ⟨Nat.le_refl 1, Nat.zero_le _⟩
    · rename_i positive
      rw [good.length_entries]
      exact ⟨Nat.pos_of_ne_zero positive, Nat.le_refl _⟩
  refine ⟨_, written, more.set _ _, ?_, ?_, ?_, ?_⟩
  · rw [index]
    exact old.1
  · rw [index]
    exact old.2
  · rw [entries_set, added, index, List.set_append_right _ _ (Nat.le_refl _),
      Nat.sub_self, List.set_cons_zero]
  · funext j
    rw [contents_set behind, Function.update_apply, Option.filter_some, if_pos uses]
    split
    · rfl
    · rename_i other
      rw [index] at other
      rw [contents, added, ← contents_started unused]
      rcases Nat.lt_or_gt_of_ne other with before | after
      · rw [List.getElem?_append_left before]
      · rw [List.getElem?_eq_none (by simp; omega), List.getElem?_eq_none (Nat.le_of_lt after)]

theorem Good.take (good : table.Good) (large : 3 ≤ growth)
    (unused : used zero = false) {cell : Nat → α}
    (uses : ∀ ind, used (cell ind) = true) :
    ∃ table' ind, table.take used growth zero junk cell = .ok (table', ind) ∧
      table'.Good ∧ 1 ≤ ind ∧ table.contents used ind = none ∧
      table'.contents used =
        Function.update (table.contents used) ind (some (cell ind)) := by
  obtain ⟨found, returned, free⟩ := @Good.lastFree _ _ used good
  cases found with
  | some ind =>
    obtain ⟨positive, inside, none⟩ := free ind rfl
    have here : ind < table.entries.length := by
      rw [good.length_entries]
      exact inside
    refine ⟨table.set ind (cell ind), ind, ?_, good.set ind _, positive, none,
      contents_set_of_used here (uses ind)⟩
    simp only [GrowTable.take, returned, bind_ok,
      good.write_eq (Nat.lt_of_lt_of_le inside good.n_le) (cell ind),
      pure_eq_ok]
  | none =>
    obtain ⟨table', written, good', positive, behind, -, changed⟩ :=
      @Good.write_reserve _ _ (cell (table.reserve growth zero junk).2) used
        growth zero junk good large unused (uses _)
    refine ⟨table', _, ?_, good', positive, ?_, changed⟩
    · simp only [GrowTable.take, returned, bind_ok, written, pure_eq_ok]
    · cases live : table.contents used (table.reserve growth zero junk).2 with
      | none => rfl
      | some cell =>
        exact absurd (good.lt_of_contents live) (Nat.not_lt.mpr behind)

theorem Good.drop_last (good : table.Good) {n : Nat} (more : table.n = n + 2)
    (free : table.contents used (n + 1) = none) :
    ({ table with n := n + 1 } : GrowTable α).Good ∧
      ({ table with n := n + 1 } : GrowTable α).contents used =
        table.contents used := by
  cases good with
  | empty => cases more
  | @filled size nAlloced cells length positive room =>
    subst more
    refine ⟨.filled length (Nat.le_add_left 1 n) (Nat.lt_of_succ_lt room), ?_⟩
    funext j
    unfold contents entries at free ⊢
    simp only [Option.getD_some, List.getElem?_take] at free ⊢
    by_cases last : j = n + 1
    · rw [last, if_neg (Nat.lt_irrefl _)]
      exact free.symm
    · congr 1
      have same : j < n + 1 ↔ j < n + 2 := by omega
      simp only [same]

theorem Good.trim (good : table.Good) {n : Nat} (more : table.n = n + 2)
    (free : table.contents used (n + 1) = none) :
    ∃ table', table.trim used table.n = .ok table' ∧ table'.Good ∧
      table'.contents used = table.contents used := by
  have room : n + 2 < table.nAlloced := by
    cases good with
    | empty => cases more
    | filled length positive room => exact more ▸ room
  have inside : n + 1 < table.entries.length := by
    rw [good.length_entries, more]
    exact Nat.lt_succ_self _
  have lastRead := good.read_eq (List.getElem?_eq_getElem inside)
  have unused : used table.entries[n + 1] = false := by
    rw [contents, List.getElem?_eq_getElem inside, Option.filter_some] at free
    simpa using free
  obtain ⟨behind, behindRead⟩ := good.exists_read room
  cases wants : used behind with
  | false =>
    refine ⟨table, ?_, good, rfl⟩
    simp only [more, GrowTable.trim, behindRead, bind_ok, wants, pure_eq_ok,
      Bool.false_eq_true, if_false]
    rw [← more]
  | true =>
    obtain ⟨good', same⟩ := good.drop_last more free
    refine ⟨{ table with n := n + 1 }, ?_, good', same⟩
    simp only [more, GrowTable.trim, behindRead, bind_ok, wants, if_true,
      lastRead, unused, pure_eq_ok, Bool.false_eq_true, if_false]

theorem Good.vacate (good : table.Good) {clear : α → α}
    (cleared : ∀ cell, used (clear cell) = false)
    (reserved : table.contents used 0 = none)
    (live : table.contents used i = some cell) :
    ∃ table', table.vacate used clear i = .ok table' ∧ table'.Good ∧ table'.contents used =
        Function.update (table.contents used) i none := by
  obtain ⟨found, -⟩ := contents_eq_some_iff.mp live
  have inside := (List.getElem?_eq_some_iff.mp found).1
  have below := good.lt_of_contents live
  have changed := contents_set_of_unused inside (cleared cell)
  have written := good.write_eq (Nat.lt_of_lt_of_le below good.n_le) (clear cell)
  have positive : i ≠ 0 := by
    intro zero
    rw [zero, reserved] at live
    cases live
  by_cases last : (i : Int) = table.n - 1
  · obtain ⟨n, rfl⟩ := Nat.exists_eq_succ_of_ne_zero positive
    have more : (table.set (n + 1) (clear cell)).n = n + 2 := by
      rw [n_set]
      omega
    have free : (table.set (n + 1) (clear cell)).contents used (n + 1) = none := by
      rw [changed, Function.update_self]
    obtain ⟨table', trimmed, good', same⟩ := (good.set _ _).trim more free
    refine ⟨table', ?_, good', same.trans changed⟩
    rw [GrowTable.vacate, good.read_eq found, bind_ok, written, bind_ok, n_set, if_pos last]
    exact trimmed
  · refine ⟨_, ?_, good.set _ _, changed⟩
    rw [GrowTable.vacate, good.read_eq found, bind_ok, written, bind_ok, n_set,
      if_neg last, pure_eq_ok]

end

end GrowTable

end OsFree.Machine
