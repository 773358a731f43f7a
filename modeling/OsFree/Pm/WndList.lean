import OsFree.Machine.GrowTable
import OsFree.Machine.Transition

/-!
# The windows of the server

The presentation manager's server keeps tables of windows, of presentation
spaces and of device contexts.  A handle is an index into its table.
-/

namespace OsFree.Pm

open Machine

/-- A window, as far as handles and contexts are concerned. -/
structure WND where
  used : Int
  hwnd : Int
  iHab : Int
  iHDC : Int
  x : Int
  y : Int
  z : Int
  nx : Int
  ny : Int
  deriving DecidableEq

/-- A device context. -/
structure F_DC where
  used : Int
  dev_type : Int
  hwnd : Int
  iHab : Int
  units : Int
  deriving DecidableEq

/-- A presentation space. -/
structure F_PS where
  used : Int
  iDC : Int
  x0 : Int
  y0 : Int
  z0 : Int
  nx : Int
  ny : Int
  deriving DecidableEq

namespace WND

def zero : WND := ⟨0, 0, 0, 0, 0, 0, 0, 0, 0⟩

def inUse (wnd : WND) : Bool := wnd.used != 0

end WND

namespace F_DC

def zero : F_DC := ⟨0, 0, 0, 0, 0⟩

def inUse (dc : F_DC) : Bool := dc.used != 0

end F_DC

namespace F_PS

def zero : F_PS := ⟨0, 0, 0, 0, 0, 0, 0⟩

def inUse (ps : F_PS) : Bool := ps.used != 0

end F_PS

/-- The tables `pWND`, `pPS` and `pDC` with their counts. -/
structure F_WND_List where
  wnd : GrowTable WND
  ps : GrowTable F_PS
  dc : GrowTable F_DC
  iHwndCurrentDeskTop : Int

namespace F_WND_List

/-- The tables before the first window. -/
def empty : F_WND_List := ⟨.empty, .empty, .empty, 0⟩

/-- A new window of an anchor block. -/
def add (list : F_WND_List) (ihab : Int) (junk : Nat → WND) :
    Run (F_WND_List × Nat) := do
  let (wnd, ind) ← list.wnd.take WND.inUse 256 .zero junk fun ind =>
    { WND.zero with used := 1, iHab := ihab, iHDC := 0, hwnd := ind }
  pure ({ list with wnd }, ind)

/-- Whether there is a window with a handle. -/
def query (list : F_WND_List) (iWND : Int) : Run Int := do
  let rc := if iWND < 0 ∨ iWND ≥ list.wnd.n then -1 else 0
  let cell ← list.wnd.read iWND
  pure (if cell.inUse then 1 else rc)

/-- Whether there is a window with a handle.  If so, its anchor block is stored
to `ihab`. -/
def queryHab (list : F_WND_List) (iWND ihab : Int) : Run (Int × Int) := do
  let rc := if iWND < 0 ∨ iWND ≥ list.wnd.n then -1 else 0
  let cell ← list.wnd.read iWND
  pure (if cell.inUse then (1, cell.iHab) else (rc, ihab))

/-- A handle of a table is given up: `rc` is one for a handle that is out of
range, and two for one that is not in use. -/
def release {α : Type} (used : α → Bool) (clear : α → α) (table : GrowTable α)
    (i : Int) : Run (GrowTable α × Int) :=
  if i < 0 ∨ i ≥ table.n then pure (table, 1)
  else do
    let cell ← table.read i
    if !used cell then pure (table, 2)
    else do
      let table ← table.vacate used clear i.toNat
      pure (table, 0)

/-- A new device context of a window. -/
def openDC (list : F_WND_List) (ihab ihwnd : Int) (junk : Nat → F_DC) :
    Run (F_WND_List × Nat) := do
  let (dc, ind) ← list.dc.take F_DC.inUse 64 .zero junk fun _ =>
    { F_DC.zero with used := 1, iHab := ihab, hwnd := ihwnd }
  pure ({ list with dc }, ind)

def closeDC (list : F_WND_List) (iDC : Int) : Run (F_WND_List × Int) := do
  let (dc, rc) ← release F_DC.inUse ({ · with used := 0 }) list.dc iDC
  pure ({ list with dc }, rc)

def releaseHPS (list : F_WND_List) (ihps : Int) : Run (F_WND_List × Int) := do
  let (ps, rc) ← release F_PS.inUse ({ · with used := 0 }) list.ps ihps
  pure ({ list with ps }, rc)

/-- Clearing as many bytes as a presentation space has, from a device context
on: these are twelve words, and a device context has five. -/
def clearDCs (table : GrowTable F_DC) (ind : Nat) : Run (GrowTable F_DC) := do
  let table ← table.write ind .zero
  let table ← table.write ((ind + 1 : Nat) : Int) .zero
  let cell ← table.read ((ind + 2 : Nat) : Int)
  table.write ((ind + 2 : Nat) : Int) { cell with used := 0, dev_type := 0 }

/-- A free presentation space, or a new one.  The first block is allocated when
there are none, and a larger block has room for one. -/
def takePS (table : GrowTable F_PS) (junk : Nat → F_PS) :
    Run (GrowTable F_PS × Nat) := do
  let found ← table.lastFree F_PS.inUse
  match found with
  | some i => pure (table, i)
  | none =>
    let roomy : GrowTable F_PS :=
      if table.n + 1 ≥ table.nAlloced then
        if table.n = 0 then
          { n := 1
            nAlloced := table.nAlloced + 64
            block := some (List.replicate (table.nAlloced + 64) .zero) }
        else
          { table with
            nAlloced := table.nAlloced + 64
            block := some (GrowTable.resize (table.block.getD []) 1 junk) }
      else table
    pure ({ roomy with n := roomy.n + 1 }, roomy.n)

/-- A presentation space that takes its device context, its place and its size
from a window. -/
def givePS (list : F_WND_List) (iHWND : Int) (junk : Nat → F_PS) :
    Run (F_WND_List × Nat) := do
  let (ps, ind) ← takePS list.ps junk
  let dc ← clearDCs list.dc ind
  let window ← list.wnd.read iHWND
  let cell ← ps.read ind
  let ps ← ps.write ind { cell with
      used := 1
      iDC := window.iHDC
      x0 := window.x
      y0 := window.y
      z0 := window.z
      nx := window.nx
      ny := window.ny }
  pure ({ list with ps, dc }, ind)

/-- A presentation space for a window.  The device context that is opened is not
kept: `rc` gets its handle.  The answer is null for a handle that is refused. -/
def getHPS (hwndDesktop : Int) (list : F_WND_List) (iHWND : Int)
    (junkDC : Nat → F_DC) (junkPS : Nat → F_PS) : Run (F_WND_List × Nat) := do
  let iHWND := if iHWND = hwndDesktop then list.iHwndCurrentDeskTop else iHWND
  let (rc, ihab) ← list.queryHab iHWND 0
  if rc ≠ 1 then pure (list, 0)
  else do
    let window ← list.wnd.read iHWND
    if window.iHDC ≠ 0 then list.givePS iHWND junkPS
    else do
      let (list, _) ← list.openDC ihab iHWND junkDC
      list.givePS iHWND junkPS

/-- A window is deleted.  A device context that it has is closed. -/
def del (list : F_WND_List) (iWND : Int) : Run (F_WND_List × Int) :=
  if iWND < 0 ∨ iWND ≥ list.wnd.n then pure (list, 1)
  else do
    let cell ← list.wnd.read iWND
    if !cell.inUse then pure (list, 2)
    else do
      let (list, _) ←
        if cell.iHDC ≠ 0 then list.closeDC cell.iHDC else pure (list, 0)
      let wnd ← list.wnd.vacate WND.inUse
        ({ · with used := 0, iHDC := 0 }) iWND.toNat
      pure ({ list with wnd }, 0)

end F_WND_List

section

variable {α : Type} {used : α → Bool} {clear : α → α} {table : GrowTable α}

theorem release_of_live (good : table.Good) (cleared : ∀ cell, used (clear cell) = false)
    (reserved : table.contents used 0 = none) {i : Nat} {cell : α}
    (live : table.contents used i = some cell) :
    ∃ table', F_WND_List.release used clear table i = .ok (table', 0) ∧ table'.Good ∧
      table'.contents used =
        Function.update (table.contents used) i none := by
  obtain ⟨read, uses⟩ := good.read_live live
  have below := good.lt_of_contents live
  have inside : ¬ ((i : Int) < 0 ∨ (i : Int) ≥ table.n) := by omega
  obtain ⟨table', vacated, good', changed⟩ := good.vacate cleared reserved live
  refine ⟨table', ?_, good', changed⟩
  rw [F_WND_List.release, if_neg inside, read, bind_ok, uses, Int.toNat_natCast, vacated]
  rfl

theorem release_of_dead (good : table.Good) {i : Int}
    (dead : 0 ≤ i → table.contents used i.toNat = none) :
    ∃ rc, rc ≠ 0 ∧ F_WND_List.release used clear table i = .ok (table, rc) := by
  by_cases outside : i < 0 ∨ i ≥ table.n
  · exact ⟨1, by decide, if_pos outside⟩
  · obtain ⟨k, rfl⟩ := Int.eq_ofNat_of_zero_le (by omega : 0 ≤ i)
    have free := dead (Int.natCast_nonneg k)
    rw [Int.toNat_natCast] at free
    obtain ⟨cell, read, unused⟩ := good.read_free (by omega) free
    refine ⟨2, by decide, ?_⟩
    rw [F_WND_List.release, if_neg outside, read, bind_ok, unused]
    rfl

theorem release_eq (good : table.Good) (cleared : ∀ cell, used (clear cell) = false)
    (reserved : table.contents used 0 = none) (i : Int) :
    ∃ table' rc, F_WND_List.release used clear table i = .ok (table', rc) ∧ table'.Good ∧
      (rc = 0 ↔ 0 ≤ i ∧ (table.contents used i.toNat).isSome) ∧
      table'.contents used =
        if rc = 0 then Function.update (table.contents used) i.toNat none
        else table.contents used := by
  by_cases live : 0 ≤ i ∧ (table.contents used i.toNat).isSome
  · obtain ⟨k, rfl⟩ := Int.eq_ofNat_of_zero_le live.1
    obtain ⟨cell, held⟩ := Option.isSome_iff_exists.mp live.2
    obtain ⟨table', released, good', changed⟩ := release_of_live good cleared reserved held
    exact ⟨table', 0, released, good', iff_of_true rfl live, changed⟩
  · obtain ⟨rc, refused, released⟩ := @release_of_dead _ used clear _ good i fun positive => by
        rw [← Option.not_isSome_iff_eq_none]
        exact fun some => live ⟨positive, some⟩
    refine ⟨table, rc, released, good, iff_of_false refused live, ?_⟩
    rw [if_neg refused]

end

/-!
## Windows come and go

Beside the table of windows stands the anchor block of each window that is live.
The table agrees with it after any number of calls.  A query for a handle that is
in range is answered from the entries alone; one for another handle is not.
-/

/-- A window is created or deleted.  New memory holds anything. -/
inductive WindowRequest where
  | add (ihab : Int) (junk : Nat → WND)
  | del (iWND : Int)

/-- The tables, and the anchor blocks of the windows that are live. -/
structure WindowServer where
  list : F_WND_List
  windows : Nat → Option Int

namespace WindowServer

/-- The server before the first window. -/
def start : WindowServer := ⟨.empty, fun _ => none⟩

/-- The server after a request. -/
def serve (server : WindowServer) : WindowRequest → Run WindowServer
  | .add ihab junk => do
      let (list, ind) ← server.list.add ihab junk
      pure ⟨list, Function.update server.windows ind (some ihab)⟩
  | .del iWND => do
      let (list, rc) ← server.list.del iWND
      pure ⟨list,
        if rc = 0 then Function.update server.windows iWND.toNat none
        else server.windows⟩

/-- A step for any request. -/
def Step (server server' : WindowServer) : Prop := ∃ request, server.serve request = .ok server'

/-- The same entries, in a block of the same size. -/
structure SameEntries (list list' : F_WND_List) : Prop where
  good : list'.wnd.Good
  n : list'.wnd.n = list.wnd.n
  nAlloced : list'.wnd.nAlloced = list.wnd.nAlloced
  entries : list'.wnd.entries = list.wnd.entries

/-- Queries for a handle are answered from the entries of the table, whatever is
behind them: with one for a window that is live, and then with its anchor
block. -/
structure Reports (server : WindowServer) (iWND : Int) : Prop where
  query : ∃ rc, (rc = 1 ↔ 0 ≤ iWND ∧ (server.windows iWND.toNat).isSome) ∧
    ∀ list', SameEntries server.list list' → list'.query iWND = .ok rc
  queryHab : ∀ ihab, ∃ rc ihab', (rc = 1 ↔ 0 ≤ iWND ∧ (server.windows iWND.toNat).isSome) ∧
      (rc = 1 → server.windows iWND.toNat = some ihab') ∧
      ∀ list', SameEntries server.list list' → list'.queryHab iWND ihab = .ok (rc, ihab')

end WindowServer

/-- The table of windows is good, its first entry is not in use, and no window
has a device context. -/
structure F_WND_List.Bare (wnd : GrowTable WND) : Prop where
  good : wnd.Good
  first : wnd.contents WND.inUse 0 = none
  noDC : ∀ h cell, wnd.contents WND.inUse h = some cell → cell.iHDC = 0

namespace WindowServer

/-- The table holds the windows that are live. -/
structure Sound (server : WindowServer) : Prop where
  bare : F_WND_List.Bare server.list.wnd
  windows : ∀ h, server.windows h = (server.list.wnd.contents WND.inUse h).map WND.iHab

end WindowServer

namespace F_WND_List

variable {list : F_WND_List}

theorem bare_empty : Bare .empty where
  good := .empty
  first := rfl
  noDC := fun h cell live => by cases live

theorem add_eq (bare : Bare list.wnd) (ihab : Int) (junk : Nat → WND) : ∃ wnd' ind,
      list.add ihab junk = .ok ({ list with wnd := wnd' }, ind) ∧
      Bare wnd' ∧ list.wnd.contents WND.inUse ind = none ∧
      wnd'.contents WND.inUse = Function.update (list.wnd.contents WND.inUse) ind
          (some { WND.zero with used := 1, iHab := ihab, hwnd := ind }) := by
  obtain ⟨wnd', ind, taken, good', positive, fresh, changed⟩ :=
    @GrowTable.Good.take _ _ WND.inUse 256 .zero junk bare.good (by decide) rfl
      (fun ind => { WND.zero with used := 1, iHab := ihab, iHDC := 0, hwnd := ind })
      fun _ => rfl
  refine ⟨wnd', ind, ?_, ⟨good', ?_, ?_⟩, fresh, changed⟩
  · rw [add, taken]
    rfl
  · rw [changed, Function.update_of_ne (Nat.ne_of_lt positive)]
    exact bare.first
  · intro h cell live
    rw [changed, Function.update_apply] at live
    split at live
    · cases live
      rfl
    · exact bare.noDC h cell live

theorem del_of_live (bare : Bare list.wnd) {h : Nat} {cell : WND}
    (live : list.wnd.contents WND.inUse h = some cell) :
    ∃ wnd', list.del h = .ok ({ list with wnd := wnd' }, 0) ∧ Bare wnd' ∧ wnd'.contents WND.inUse =
        Function.update (list.wnd.contents WND.inUse) h none := by
  obtain ⟨read, uses⟩ := bare.good.read_live live
  have below := bare.good.lt_of_contents live
  have inside : ¬ ((h : Int) < 0 ∨ (h : Int) ≥ list.wnd.n) := by omega
  obtain ⟨wnd', vacated, good', changed⟩ := @GrowTable.Good.vacate _ _ _ _ WND.inUse bare.good
      ({ · with used := 0, iHDC := 0 }) (fun _ => rfl) bare.first live
  refine ⟨wnd', ?_, ⟨good', ?_, ?_⟩, changed⟩
  · rw [del, if_neg inside, read, bind_ok, uses, bare.noDC h cell live, Int.toNat_natCast]
    simp only [Bool.not_true, Bool.false_eq_true, if_false, ne_eq,
      not_true_eq_false, pure_eq_ok, bind_ok]
    rw [vacated]
    rfl
  · rw [changed, Function.update_apply]
    split
    · rfl
    · exact bare.first
  · intro h' cell' live'
    rw [changed, Function.update_apply] at live'
    split at live'
    · cases live'
    · exact bare.noDC h' cell' live'

theorem del_of_dead (good : list.wnd.Good) {iWND : Int}
    (dead : 0 ≤ iWND → list.wnd.contents WND.inUse iWND.toNat = none) :
    ∃ rc, rc ≠ 0 ∧ list.del iWND = .ok (list, rc) := by
  by_cases outside : iWND < 0 ∨ iWND ≥ list.wnd.n
  · exact ⟨1, by decide, if_pos outside⟩
  · obtain ⟨h, rfl⟩ := Int.eq_ofNat_of_zero_le (by omega : 0 ≤ iWND)
    have free := dead (Int.natCast_nonneg h)
    rw [Int.toNat_natCast] at free
    obtain ⟨cell, read, unused⟩ := good.read_free (by omega) free
    refine ⟨2, by decide, ?_⟩
    rw [del, if_neg outside, read, bind_ok, unused]
    rfl

theorem del_eq (bare : Bare list.wnd) (iWND : Int) : ∃ wnd' rc,
      list.del iWND = .ok ({ list with wnd := wnd' }, rc) ∧ Bare wnd' ∧
      (rc = 0 ↔ 0 ≤ iWND ∧ (list.wnd.contents WND.inUse iWND.toNat).isSome) ∧
      wnd'.contents WND.inUse =
        if rc = 0 then
          Function.update (list.wnd.contents WND.inUse) iWND.toNat none
        else list.wnd.contents WND.inUse := by
  by_cases live : 0 ≤ iWND ∧ (list.wnd.contents WND.inUse iWND.toNat).isSome
  · obtain ⟨h, rfl⟩ := Int.eq_ofNat_of_zero_le live.1
    obtain ⟨cell, held⟩ := Option.isSome_iff_exists.mp live.2
    obtain ⟨wnd', deleted, bare', changed⟩ := del_of_live bare held
    exact ⟨wnd', 0, deleted, bare', iff_of_true rfl live, changed⟩
  · obtain ⟨rc, refused, same⟩ := @del_of_dead _ bare.good iWND fun positive => by
        rw [← Option.not_isSome_iff_eq_none]
        exact fun some => live ⟨positive, some⟩
    refine ⟨list.wnd, rc, same, bare, iff_of_false refused live, ?_⟩
    rw [if_neg refused]

theorem query_of_outside {iWND : Int} {cell : WND} (outside : iWND < 0 ∨ iWND ≥ list.wnd.n)
    (read : list.wnd.read iWND = .ok cell) :
    list.query iWND = .ok (if cell.inUse then 1 else -1) := by
  rw [query, read, bind_ok, if_pos outside]
  rfl

end F_WND_List

namespace WindowServer

variable {server server' : WindowServer}

theorem start_sound : start.Sound := ⟨F_WND_List.bare_empty, fun _ => rfl⟩

theorem Sound.windows_eq_none_iff (sound : server.Sound) (h : Nat) :
    server.windows h = none ↔ server.list.wnd.contents WND.inUse h = none := by
  rw [sound.windows, Option.map_eq_none_iff]

theorem Sound.isSome_windows (sound : server.Sound) (h : Nat) : (server.windows h).isSome =
      (server.list.wnd.contents WND.inUse h).isSome := by
  rw [sound.windows, Option.isSome_map]

theorem Sound.serves (sound : server.Sound) (request : WindowRequest) :
    ∃ server', server.serve request = .ok server' ∧ server'.Sound := by
  cases request with
  | add ihab junk =>
    obtain ⟨wnd', ind, added, bare, -, changed⟩ := F_WND_List.add_eq sound.bare ihab junk
    refine ⟨_, by rw [serve, added]; rfl, bare, fun h => ?_⟩
    simp only [changed, Function.update_apply]
    split
    · rfl
    · exact sound.windows h
  | del iWND =>
    obtain ⟨wnd', rc, deleted, bare, -, changed⟩ := F_WND_List.del_eq sound.bare iWND
    refine ⟨_, by rw [serve, deleted]; rfl, bare, fun h => ?_⟩
    simp only [changed]
    split
    · rw [Function.update_apply, Function.update_apply]
      split
      · rfl
      · exact sound.windows h
    · exact sound.windows h

theorem sound_of_run (run : RunsTo Step start server) : server.Sound := by
  refine RunsTo.preserves ?_ run start_sound
  rintro server server' sound ⟨request, served⟩
  obtain ⟨next, returned, sound'⟩ := sound.serves request
  cases returned.symm.trans served
  exact sound'

/-- A query for a handle in range is answered from the entries. -/
theorem Sound.reports (sound : server.Sound) {h : Nat}
    (inside : h < server.list.wnd.n) : server.Reports h := by
  have here : h < server.list.wnd.entries.length := by
    rw [sound.bare.good.length_entries]
    exact inside
  have found := List.getElem?_eq_getElem here
  have read : ∀ list', SameEntries server.list list' →
      list'.wnd.read h = .ok server.list.wnd.entries[h] := by
    intro list' same
    apply same.good.read_eq
    rw [same.entries]
    exact found
  have guard : ∀ list', SameEntries server.list list' →
      ¬ ((h : Int) < 0 ∨ (h : Int) ≥ list'.wnd.n) := by
    intro list' same
    rw [same.n]
    omega
  have known : server.windows h =
      if server.list.wnd.entries[h].inUse then
        some server.list.wnd.entries[h].iHab else none := by
    rw [sound.windows, GrowTable.contents, found, Option.filter_some]
    split
    · rfl
    · rfl
  cases uses : server.list.wnd.entries[h].inUse with
  | true =>
    rw [uses, if_pos rfl] at known
    constructor
    · refine ⟨1, by simp [known], fun list' same => ?_⟩
      rw [F_WND_List.query, read list' same, bind_ok, uses]
      rfl
    · refine fun ihab => ⟨1, _, by simp [known], fun _ => known, ?_⟩
      intro list' same
      rw [F_WND_List.queryHab, read list' same, bind_ok, uses]
      rfl
  | false =>
    rw [uses, if_neg Bool.false_ne_true] at known
    constructor
    · refine ⟨0, by simp [known], fun list' same => ?_⟩
      rw [F_WND_List.query, read list' same, bind_ok, uses, if_neg (guard list' same)]
      rfl
    · refine fun ihab => ⟨0, ihab, by simp [known], by simp, ?_⟩
      intro list' same
      rw [F_WND_List.queryHab, read list' same, bind_ok, uses, if_neg (guard list' same)]
      rfl

/-- A query for another handle is answered from what is behind the entries, or
reads outside the block. -/
theorem Sound.inside_of_reports (sound : server.Sound) {iWND : Int}
    (reports : server.Reports iWND) :
    0 ≤ iWND ∧ iWND < server.list.wnd.n := by
  obtain ⟨rc, -, answers⟩ := reports.query
  have read : ∃ cell, server.list.wnd.read iWND = .ok cell := by
    have answer := answers _ ⟨sound.bare.good, rfl, rfl, rfl⟩
    rw [F_WND_List.query, bind_eq_ok_iff] at answer
    obtain ⟨cell, read, -⟩ := answer
    exact ⟨cell, read⟩
  obtain ⟨cell, read⟩ := read
  obtain ⟨positive, room⟩ := sound.bare.good.inside_of_read read
  refine ⟨positive, Int.not_le.mp fun outside => ?_⟩
  obtain ⟨h, rfl⟩ := Int.eq_ofNat_of_zero_le positive
  have behind : server.list.wnd.n ≤ h := Int.ofNat_le.mp outside
  have answer : ∀ cell : WND, rc = if cell.inUse then 1 else -1 := by
    intro cell
    let list' := { server.list with wnd := server.list.wnd.set h cell }
    have same := answers list'
      ⟨sound.bare.good.set h cell, rfl, rfl, GrowTable.entries_set_of_le behind cell⟩
    have queried := @F_WND_List.query_of_outside list' h cell (Or.inr outside)
      (sound.bare.good.read_set room cell)
    exact Except.ok.inj (same.symm.trans queried)
  have one := answer { WND.zero with used := 1 }
  have other := answer .zero
  rw [one] at other
  exact absurd other (by decide)

/-- In every run, every request is served; a window gets a handle that no window
has; a window that goes changes no other window; and exactly the queries for
handles in range are answered from the entries. -/
theorem handles_kept (run : RunsTo Step start server) :
    (∀ request, Returns (server.serve request)) ∧
      (∀ h ihab, server.windows h = some ihab → 1 ≤ h ∧ h < server.list.wnd.n) ∧
      (∀ ihab junk list' ind, server.list.add ihab junk = .ok (list', ind) →
        server.windows ind = none ∧ ∀ h, h ≠ ind → list'.wnd.contents WND.inUse h =
            server.list.wnd.contents WND.inUse h) ∧
      (∀ iWND list' rc, server.list.del iWND = .ok (list', rc) →
        (rc = 0 ↔ 0 ≤ iWND ∧ (server.windows iWND.toNat).isSome) ∧
          ∀ h : Nat, (h : Int) ≠ iWND → list'.wnd.contents WND.inUse h =
            server.list.wnd.contents WND.inUse h) ∧
      ∀ iWND, server.Reports iWND ↔ 0 ≤ iWND ∧ iWND < server.list.wnd.n := by
  have sound := sound_of_run run
  refine ⟨?_, ?_, ?_, ?_, ?_⟩
  · intro request
    obtain ⟨server', served, -⟩ := sound.serves request
    exact ⟨server', served⟩
  · intro h ihab live
    rw [sound.windows, Option.map_eq_some_iff] at live
    obtain ⟨cell, live, -⟩ := live
    refine ⟨Nat.pos_of_ne_zero ?_, sound.bare.good.lt_of_contents live⟩
    rintro rfl
    rw [sound.bare.first] at live
    cases live
  · intro ihab junk list' ind returned
    obtain ⟨wnd', ind', added, -, fresh, changed⟩ := F_WND_List.add_eq sound.bare ihab junk
    cases added.symm.trans returned
    refine ⟨(sound.windows_eq_none_iff ind).mpr fresh, fun h other => ?_⟩
    rw [changed, Function.update_of_ne other]
  · intro iWND list' rc returned
    obtain ⟨wnd', rc', deleted, -, decides, changed⟩ := F_WND_List.del_eq sound.bare iWND
    cases deleted.symm.trans returned
    rw [sound.isSome_windows]
    refine ⟨decides, fun h other => ?_⟩
    rw [changed]
    split
    · rename_i done
      rw [Function.update_of_ne]
      omega
    · rfl
  · intro iWND
    refine ⟨sound.inside_of_reports, fun inside => ?_⟩
    obtain ⟨h, rfl⟩ := Int.eq_ofNat_of_zero_le inside.1
    exact sound.reports (Int.ofNat_lt.mp inside.2)

set_option maxRecDepth 4000 in
/-- The first window has the first handle. -/
theorem handles_kept_one_window : ∃ server, RunsTo Step start server ∧ server.windows 1 = some 5 ∧
      1 < server.list.wnd.n := by
  have run : ∃ server, RunsTo Step start server ∧
      server.windows 1 = some 5 :=
    ⟨_, .single ⟨.add 5 fun _ => .zero, rfl⟩, rfl⟩
  obtain ⟨server, run, window⟩ := run
  exact ⟨server, run, window, ((handles_kept run).2.1 1 5 window).2⟩

set_option maxRecDepth 4000 in
/-- With one window, a query for a handle behind the block reads there. -/
theorem query_reads_outside : ∃ server, RunsTo Step start server ∧ server.windows 300 = none ∧
      server.list.query 300 = .error .readOutside ∧
      ¬ server.Reports 300 := by
  have run : ∃ server, RunsTo Step start server ∧ server.windows 300 = none ∧ server.list.wnd.Good ∧
      server.list.query 300 = .error .readOutside :=
    ⟨_, .single ⟨.add 5 fun _ => .zero, rfl⟩, rfl, .filled rfl (by decide) (by decide), rfl⟩
  obtain ⟨server, run, none, good, outside⟩ := run
  refine ⟨server, run, none, outside, fun reports => ?_⟩
  obtain ⟨rc, -, answers⟩ := reports.query
  rw [answers _ ⟨good, rfl, rfl, rfl⟩] at outside
  cases outside

end WindowServer

end OsFree.Pm
