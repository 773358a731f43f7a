import Mathlib.Algebra.Order.Ring.Cast
import Mathlib.Algebra.Order.Ring.Rat
import OsFree.Machine.GrowTable
import OsFree.Machine.Transition

/-!
# The anchor blocks of the server

The presentation manager's server keeps a table of anchor blocks.  The index of
an entry is the id of an anchor block.  When a client goes, its entry is marked
with the time, and it is taken again by age.
-/

namespace OsFree.Pm

open Machine

/-- An anchor block at the server. -/
structure HABserverinf where
  nsrvthread : Int
  used : Int
  clientId : UInt32
  disconnect : Int
  deriving DecidableEq

/-- An entry that is filled with zeros. -/
def HABserverinf.zero : HABserverinf := ⟨0, 0, 0, 0⟩

/-- The entry belongs to a client. -/
def HABserverinf.inUse (inf : HABserverinf) : Bool := inf.used != 0

/-- The table `pHabSvrInf` with `n` and `nAlloced`, and the number of clients so
far. -/
structure HabServerList where
  table : GrowTable HABserverinf
  clientCount : UInt32

namespace HabServerList

/-- The time between two readings of the clock. -/
def difftime (time time' : Int) : Int := time - time'

/-- The entry that is longest free, and for how long it is. -/
def getFreeOldest (list : HabServerList) (t : Int) : Run (Option (Nat × Int)) :=
  (List.range' 1 (list.table.n - 1)).foldlM (fun best (i : Nat) => do
    let cell ← list.table.read i
    if cell.inUse then pure best
    else
      let d := difftime t cell.disconnect
      match best with
      | none => pure (some (i, d))
      | some (_, dtmax) => pure (if dtmax < d then some (i, d) else best)) none

/-- A new client gets the entry that is longest free, if it has been so for long
enough, and else an entry of its own.  The clock is read before and after. -/
def add (timeout : ℚ) (list : HabServerList) (threadNum t later : Int)
    (junk : Nat → HABserverinf) : Run (HabServerList × Nat) := do
  let rc ← list.getFreeOldest t
  let rc := rc.filter fun (_, dt) => ¬ (dt : ℚ) < timeout
  let (table, ind) :=
    match rc with
    | some (i, _) => (list.table, i)
    | none => list.table.reserve 256 .zero junk
  let table ← table.write ind
    { nsrvthread := threadNum
      used := 1
      clientId := list.clientCount
      disconnect := later }
  pure (⟨table, list.clientCount + 1⟩, ind)

/-- The client of an entry goes. -/
def free (list : HabServerList) (iHab time : Int) : Run (HabServerList × Int) :=
  if iHab < 0 ∨ iHab ≥ list.table.n then pure (list, -1)
  else do
    let cell ← list.table.read iHab
    let table ← list.table.write iHab
      { cell with used := 0, disconnect := time }
    pure (⟨table, list.clientCount⟩, 0)

end HabServerList

/-- The table, the ids of clients, the ids that were freed and when, and the
time of the last call. -/
structure HabServer where
  list : HabServerList
  live : List Nat
  freed : List (Nat × Int)
  now : Int

/-- A client comes, or an id is freed.  The server reads its clock, and new
memory holds anything. -/
inductive HabRequest where
  | add (threadNum t later : Int) (junk : Nat → HABserverinf)
  | free (iHab time : Int)

namespace HabServer

/-- The server before the first client. -/
def start (now : Int) : HabServer := ⟨⟨.empty, 0⟩, [], [], now⟩

/-- The clock does not go back. -/
def Allows (server : HabServer) : HabRequest → Prop
  | .add _ t later _ => server.now ≤ t ∧ t ≤ later
  | .free _ time => server.now ≤ time

/-- The server after a request. -/
def serve (timeout : ℚ) (server : HabServer) : HabRequest → Run HabServer
  | .add threadNum t later junk => do
      let (list, ind) ← server.list.add timeout threadNum t later junk
      pure { server with list, live := ind :: server.live, now := later }
  | .free iHab time => do
      let (list, rc) ← server.list.free iHab time
      if rc = 0 then
        pure
          { list
            live := server.live.erase iHab.toNat
            freed := (iHab.toNat, time) :: server.freed
            now := time }
      else pure { server with list, now := time }

/-- A step for any request. -/
def Step (timeout : ℚ) (server server' : HabServer) : Prop :=
  ∃ request, server.Allows request ∧ server.serve timeout request = .ok server'

/-- The ids of clients are those of the entries in use; an entry knows the last
time it was freed. -/
structure Sound (server : HabServer) : Prop where
  good : server.list.table.Good
  first : server.list.table.contents HABserverinf.inUse 0 = none
  nodup : server.live.Nodup
  live : ∀ id, id ∈ server.live ↔
    ∃ cell, server.list.table.contents HABserverinf.inUse id = some cell
  freed : ∀ id time, (id, time) ∈ server.freed → time ≤ server.now ∧
      ∃ cell, server.list.table.entries[id]? = some cell ∧ time ≤ cell.disconnect

end HabServer

variable {list : HabServerList} {timeout : ℚ} {t later threadNum : Int} {junk : Nat → HABserverinf}

namespace HabServerList

/-- The entry is free, and the time is that since it was used. -/
def FreeSince (list : HabServerList) (t : Int) (i : Nat) (d : Int) : Prop :=
  1 ≤ i ∧ list.table.contents HABserverinf.inUse i = none ∧
    ∃ cell, list.table.entries[i]? = some cell ∧ d = t - cell.disconnect

theorem getFreeOldest_eq (good : list.table.Good) (t : Int) :
    ∃ best, list.getFreeOldest t = .ok best ∧
      ∀ i d, best = some (i, d) → list.FreeSince t i d := by
  have turn : ∀ k (best : Option (Nat × Int)), 1 ≤ k → k < 1 + (list.table.n - 1) →
      (∀ i d, best = some (i, d) → list.FreeSince t i d) →
      ∃ best', (do
        let cell ← list.table.read k
        if cell.inUse then pure best
        else
          let d := difftime t cell.disconnect
          match best with
          | none => pure (some (k, d))
          | some (_, dtmax) =>
            pure (if dtmax < d then some (k, d) else best)) =
          (.ok best' : Run _) ∧
        ∀ i d, best' = some (i, d) → list.FreeSince t i d := by
    intro k best from' below holds
    have inside : k < list.table.entries.length := by
      rw [good.length_entries]
      omega
    have found := List.getElem?_eq_getElem inside
    rw [good.read_eq found, bind_ok]
    cases uses : list.table.entries[k].inUse with
    | true => exact ⟨best, by rw [if_pos rfl, pure_eq_ok], holds⟩
    | false =>
      have here : list.FreeSince t k
          (difftime t list.table.entries[k].disconnect) := by
        refine ⟨from', ?_, _, found, rfl⟩
        rw [GrowTable.contents, found, Option.filter_some, uses]
        rfl
      cases best with
      | none =>
        refine ⟨_, rfl, ?_⟩
        intro i d same
        cases same
        exact here
      | some pair =>
        refine ⟨_, rfl, ?_⟩
        intro i d same
        split at same
        · cases same
          exact here
        · exact holds i d same
  exact exists_foldlM_range' turn (by simp)

/-- A new client gets an entry of its own, or one that has been free for long
enough.  No other entry changes. -/
theorem add_eq (good : list.table.Good) (timeout : ℚ)
    (threadNum t later : Int) (junk : Nat → HABserverinf) :
    ∃ table' ind cell, list.add timeout threadNum t later junk =
        .ok (⟨table', list.clientCount + 1⟩, ind) ∧
      table'.Good ∧ 1 ≤ ind ∧
      list.table.contents HABserverinf.inUse ind = none ∧
      table'.contents HABserverinf.inUse =
        Function.update (list.table.contents HABserverinf.inUse) ind (some cell) ∧
      cell.disconnect = later ∧ table'.entries[ind]? = some cell ∧
      (∀ i old, i ≠ ind → list.table.entries[i]? = some old → table'.entries[i]? = some old) ∧
      ∀ old, list.table.entries[ind]? = some old → (old.disconnect : ℚ) + timeout ≤ t := by
  obtain ⟨best, returned, free⟩ := getFreeOldest_eq good t
  let cell : HABserverinf := ⟨threadNum, 1, list.clientCount, later⟩
  cases long : best.filter fun (_, dt) => ¬ (dt : ℚ) < timeout with
  | some pair =>
    obtain ⟨ind, d⟩ := pair
    obtain ⟨same, enough⟩ := Option.filter_eq_some_iff.mp long
    obtain ⟨positive, none, old, found, since⟩ := free ind d same
    have here := (List.getElem?_eq_some_iff.mp found).1
    have below := good.lt_of_getElem? found
    have written := good.write_eq (Nat.lt_of_lt_of_le below good.n_le) cell
    refine ⟨list.table.set ind cell, ind, cell, ?_, good.set ind cell,
      positive, none, GrowTable.contents_set_of_used here rfl, rfl, ?_, ?_, ?_⟩
    · simp only [add, returned, bind_ok, long, written, pure_eq_ok, cell]
    · rw [GrowTable.entries_set, List.getElem?_set_self here]
    · intro i other apart found
      rw [GrowTable.entries_set, List.getElem?_set_ne (Ne.symm apart), found]
    · intro other found'
      cases found.symm.trans found'
      subst since
      simp only [not_lt, decide_eq_true_eq, Int.cast_sub] at enough
      exact le_sub_iff_add_le'.mp enough
  | none =>
    obtain ⟨table', written, good', positive, behind, entries, changed⟩ :=
      @GrowTable.Good.write_reserve _ _ cell HABserverinf.inUse 256 .zero junk
        good (by decide) rfl rfl
    have none : list.table.contents HABserverinf.inUse
        (list.table.reserve 256 .zero junk).2 = none := by
      cases live : list.table.contents HABserverinf.inUse (list.table.reserve 256 .zero junk).2 with
      | none => rfl
      | some cell =>
        exact absurd (good.lt_of_contents live) (Nat.not_lt.mpr behind)
    refine ⟨table', _, cell, ?_, good', positive, none, changed, rfl, ?_, ?_, ?_⟩
    · simp only [add, returned, bind_ok, long, written, pure_eq_ok, cell]
    · have live := congrFun changed (list.table.reserve 256 .zero junk).2
      rw [Function.update_self] at live
      exact (GrowTable.contents_eq_some_iff.mp live).1
    · intro i other _ found
      have kept := @GrowTable.getElem?_started _ _ _ _ .zero found
      rw [entries, List.getElem?_append_left (List.getElem?_eq_some_iff.mp kept).1]
      exact kept
    · intro old found
      exact absurd (good.lt_of_getElem? found) (Nat.not_lt.mpr behind)

theorem free_eq (good : list.table.Good) {iHab : Int} (time : Int)
    (inside : 0 ≤ iHab ∧ iHab < list.table.n) :
    ∃ table' cell, list.free iHab time = .ok (⟨table', list.clientCount⟩, 0) ∧ table'.Good ∧
      table'.contents HABserverinf.inUse =
        Function.update (list.table.contents HABserverinf.inUse) iHab.toNat none ∧
      cell.disconnect = time ∧ table'.entries[iHab.toNat]? = some cell ∧
      ∀ i old, i ≠ iHab.toNat → list.table.entries[i]? = some old →
        table'.entries[i]? = some old := by
  obtain ⟨id, rfl⟩ := Int.eq_ofNat_of_zero_le inside.1
  have below : id < list.table.n := Int.ofNat_lt.mp inside.2
  have here : id < list.table.entries.length := by
    rw [good.length_entries]
    exact below
  have read := good.read_eq (List.getElem?_eq_getElem here)
  let cell : HABserverinf :=
    { list.table.entries[id] with used := 0, disconnect := time }
  have written := good.write_eq (Nat.lt_of_lt_of_le below good.n_le) cell
  have guard : ¬ ((id : Int) < 0 ∨ (id : Int) ≥ list.table.n) := by omega
  refine ⟨list.table.set id cell, cell, ?_, good.set id cell,
    GrowTable.contents_set_of_unused here rfl, rfl, ?_, ?_⟩
  · rw [free, if_neg guard, read, bind_ok, written, bind_ok, pure_eq_ok]
  · rw [GrowTable.entries_set, Int.toNat_natCast, List.getElem?_set_self here]
  · intro i other apart found
    rw [Int.toNat_natCast] at apart
    rw [GrowTable.entries_set, List.getElem?_set_ne (Ne.symm apart), found]

end HabServerList

namespace HabServer

variable {server server' : HabServer}

theorem start_sound (now : Int) : (start now).Sound where
  good := .empty
  first := rfl
  nodup := List.nodup_nil
  live := by simp [start, GrowTable.contents_empty]
  freed := by simp [start]

/-- A new client gets an id that no client has. -/
theorem Sound.add (sound : server.Sound) (allowed : server.Allows (.add threadNum t later junk)) :
    ∃ server', server.serve timeout (.add threadNum t later junk) = .ok server' ∧
      server'.Sound := by
  obtain ⟨table', ind, cell, added, good, positive, none, changed, latest, here,
    kept, -⟩ := HabServerList.add_eq sound.good timeout threadNum t later junk
  have fresh : ind ∉ server.live := by
    intro member
    obtain ⟨old, live⟩ := (sound.live ind).mp member
    rw [none] at live
    cases live
  refine ⟨_, by rw [serve, added]; rfl, ?_⟩
  constructor
  · exact good
  · rw [changed, Function.update_of_ne (Nat.ne_of_lt positive)]
    exact sound.first
  · exact List.nodup_cons.mpr ⟨fresh, sound.nodup⟩
  · intro id
    simp only [changed, List.mem_cons, Function.update_apply]
    by_cases same : id = ind
    · simp [same]
    · simp only [same, false_or, if_false]
      exact sound.live id
  · intro id time member
    obtain ⟨before, old, found, since⟩ := sound.freed id time member
    have ordered : time ≤ later := before.trans (allowed.1.trans allowed.2)
    refine ⟨ordered, ?_⟩
    by_cases same : id = ind
    · rw [same]
      exact ⟨cell, here, latest.symm ▸ ordered⟩
    · exact ⟨old, kept id old same found, since⟩

theorem Sound.free (sound : server.Sound) {iHab time : Int}
    (allowed : server.Allows (.free iHab time)) :
    ∃ server', server.serve timeout (.free iHab time) = .ok server' ∧
      server'.Sound := by
  by_cases inside : 0 ≤ iHab ∧ iHab < server.list.table.n
  · obtain ⟨table', cell, freed, good, changed, latest, here, kept⟩ :=
      HabServerList.free_eq sound.good time inside
    refine ⟨_, by rw [serve, freed]; rfl, ?_⟩
    constructor
    · exact good
    · rw [changed, Function.update_apply]
      split
      · rfl
      · exact sound.first
    · exact sound.nodup.erase _
    · intro id
      simp only [changed, Function.update_apply, sound.nodup.mem_erase_iff]
      by_cases same : id = iHab.toNat
      · simp [same]
      · simp only [same, ne_eq, not_false_eq_true, true_and, if_false]
        exact sound.live id
    · intro id time' member
      have known : time' ≤ time ∧
          (id ≠ iHab.toNat → (id, time') ∈ server.freed) := by
        rcases List.mem_cons.mp member with now | member
        · cases now
          exact ⟨Int.le_refl _, fun other => absurd rfl other⟩
        · exact ⟨(sound.freed id time' member).1.trans allowed, fun _ => member⟩
      refine ⟨known.1, ?_⟩
      by_cases same : id = iHab.toNat
      · rw [same]
        exact ⟨cell, here, latest.symm ▸ known.1⟩
      · obtain ⟨-, old, found, since⟩ := sound.freed id time' (known.2 same)
        exact ⟨old, kept id old same found, since⟩
  · have outside : iHab < 0 ∨ iHab ≥ server.list.table.n := by omega
    refine ⟨{ server with now := time }, ?_, ?_⟩
    · rw [serve, HabServerList.free, if_pos outside]
      rfl
    · refine ⟨sound.good, sound.first, sound.nodup, sound.live, ?_⟩
      intro id time' member
      obtain ⟨before, kept⟩ := sound.freed id time' member
      exact ⟨before.trans allowed, kept⟩

theorem Sound.serves (sound : server.Sound) {request : HabRequest}
    (allowed : server.Allows request) :
    ∃ server', server.serve timeout request = .ok server' ∧ server'.Sound := by
  cases request with
  | add threadNum t later junk => exact sound.add allowed
  | free iHab time => exact sound.free allowed

theorem sound_of_run {now : Int}
    (run : RunsTo (Step timeout) (start now) server) : server.Sound := by
  refine RunsTo.preserves ?_ run (start_sound now)
  rintro server server' sound ⟨request, allowed, served⟩
  obtain ⟨next, returned, sound'⟩ := @Sound.serves timeout _ sound _ allowed
  cases returned.symm.trans served
  exact sound'

/-- In every run, the ids of clients are distinct and in range, every request is
served without an access outside the table, and an id that was freed is not
given out before its time. -/
theorem ids_distinct_and_aged {now : Int} (run : RunsTo (Step timeout) (start now) server) :
    server.live.Nodup ∧ (∀ id ∈ server.live, 1 ≤ id ∧ id < server.list.table.n) ∧
      server.list.table.n ≤ server.list.table.nAlloced ∧
      (∀ request, server.Allows request → Returns (server.serve timeout request)) ∧
      ∀ threadNum t later junk list' ind, server.Allows (.add threadNum t later junk) →
        server.list.add timeout threadNum t later junk = .ok (list', ind) →
          1 ≤ ind ∧ ind ∉ server.live ∧
            ∀ time, (ind, time) ∈ server.freed → (time : ℚ) + timeout ≤ t := by
  have sound := sound_of_run run
  refine ⟨sound.nodup, ?_, sound.good.n_le, ?_, ?_⟩
  · intro id member
    obtain ⟨cell, live⟩ := (sound.live id).mp member
    refine ⟨Nat.pos_of_ne_zero ?_, sound.good.lt_of_contents live⟩
    rintro rfl
    rw [sound.first] at live
    cases live
  · intro request allowed
    obtain ⟨server', served, -⟩ := @Sound.serves timeout _ sound _ allowed
    exact ⟨server', served⟩
  · intro threadNum t later junk list' ind allowed returned
    obtain ⟨table', ind', cell, added, -, positive, none, -, -, -, -, aged⟩ :=
      HabServerList.add_eq sound.good timeout threadNum t later junk
    cases added.symm.trans returned
    refine ⟨positive, ?_, ?_⟩
    · intro member
      obtain ⟨old, live⟩ := (sound.live ind).mp member
      rw [none] at live
      cases live
    · intro time member
      obtain ⟨-, old, found, since⟩ := sound.freed ind time member
      have exact' : (time : ℚ) ≤ old.disconnect := Int.cast_le.mpr since
      exact (add_le_add_left exact' timeout).trans (aged old found)

set_option maxRecDepth 4000 in
/-- A client comes and goes. -/
theorem ids_distinct_and_aged_one_client : ∃ server, RunsTo (Step 10) (start 0) server ∧
      server.freed = [(1, 3)] ∧ server.live.Nodup := by
  have run : ∃ server, RunsTo (Step 10) (start 0) server ∧
      server.freed = [(1, 3)] := by
    refine ⟨_, .head ⟨.add 7 1 2 fun _ => .zero, ?_, rfl⟩ (.single ⟨.free 1 3, ?_, rfl⟩), rfl⟩
    · exact ⟨by decide, by decide⟩
    · exact (by decide : (2 : Int) ≤ 3)
  obtain ⟨server, run, freed⟩ := run
  exact ⟨server, run, freed, (ids_distinct_and_aged run).1⟩

end HabServer

end OsFree.Pm
