import OsFree.Pm.WndList

/-!
# Device contexts come and go

Beside the tables stand the device contexts that are open.  The tables agree with
them as long as no presentation space is given out.  The window of one that is
given out does not get to know its device context.
-/

namespace OsFree.Pm

open Machine

/-- A call at the tables.  New memory holds anything. -/
inductive ContextRequest where
  | add (ihab : Int) (junk : Nat → WND)
  | del (iWND : Int)
  | setCurrentDesktop (iHWND : Int)
  | getHPS (iHWND : Int) (junkDC : Nat → F_DC) (junkPS : Nat → F_PS)
  | releaseHPS (ihps : Int)
  | openDC (ihab ihwnd : Int) (junk : Nat → F_DC)
  | closeDC (iDC : Int)

/-- The tables, and the anchor blocks and the windows of the device contexts that
are open. -/
structure ContextServer where
  list : F_WND_List
  opened : Nat → Option (Int × Int)

namespace ContextServer

/-- The server before the first window. -/
def start : ContextServer := ⟨.empty, fun _ => none⟩

/-- The server after a call. -/
def serve (hwndDesktop : Int) (server : ContextServer) : ContextRequest → Run ContextServer
  | .add ihab junk => do
      let (list, _) ← server.list.add ihab junk
      pure { server with list }
  | .del iWND => do
      let (list, _) ← server.list.del iWND
      pure { server with list }
  | .setCurrentDesktop iHWND =>
    pure { server with
        list := { server.list with iHwndCurrentDeskTop := iHWND } }
  | .getHPS iHWND junkDC junkPS => do
      let (list, _) ← server.list.getHPS hwndDesktop iHWND junkDC junkPS
      pure { server with list }
  | .releaseHPS ihps => do
      let (list, _) ← server.list.releaseHPS ihps
      pure { server with list }
  | .openDC ihab ihwnd junk => do
      let (list, ind) ← server.list.openDC ihab ihwnd junk
      pure ⟨list, Function.update server.opened ind (some (ihab, ihwnd))⟩
  | .closeDC iDC => do
      let (list, rc) ← server.list.closeDC iDC
      pure ⟨list,
        if rc = 0 then Function.update server.opened iDC.toNat none
        else server.opened⟩

/-- The entry that a handle is for. -/
def windowOf (hwndDesktop : Int) (list : F_WND_List) (iHWND : Int) : Int :=
  if iHWND = hwndDesktop then list.iHwndCurrentDeskTop else iHWND

/-- The entry of a handle can be read, and is not in use. -/
def Refused (hwndDesktop : Int) (server : ContextServer) (iHWND : Int) : Prop :=
  ∃ cell, server.list.wnd.read (windowOf hwndDesktop server.list iHWND) =
    .ok cell ∧ cell.inUse = false

/-- No presentation space is given out. -/
def Allows (hwndDesktop : Int) (server : ContextServer) : ContextRequest → Prop
  | .getHPS iHWND _ _ => server.Refused hwndDesktop iHWND
  | _ => True

/-- A step for a call that gives out no presentation space. -/
def AllowedStep (hwndDesktop : Int) (server server' : ContextServer) : Prop :=
  ∃ request, server.Allows hwndDesktop request ∧ server.serve hwndDesktop request = .ok server'

/-- A presentation space is for a window that is live, and was not in use.  The
window knows its device context, which is open and that of the presentation
space.  Nothing else changes, and nothing at all if the handle is refused. -/
def MeetsGet (hwndDesktop : Int) (list : F_WND_List) (iHWND : Int)
    (junkDC : Nat → F_DC) (junkPS : Nat → F_PS) : Prop :=
  ∃ list' ind, list.getHPS hwndDesktop iHWND junkDC junkPS = .ok (list', ind) ∧
      if ind = 0 then list' = list
      else
        list.ps.contents F_PS.inUse ind = none ∧
          ∃ ps h window, list'.ps.contents F_PS.inUse ind = some ps ∧
            windowOf hwndDesktop list iHWND = (h : Nat) ∧
            list'.wnd.contents WND.inUse h = some window ∧
            window.iHDC ≠ 0 ∧ ps.iDC = window.iHDC ∧
            ∃ dc, list'.dc.contents F_DC.inUse window.iHDC.toNat = some dc ∧ dc.hwnd = h

/-- The tables of windows and device contexts are good, no window has a device
context, and there never was a presentation space. -/
structure Sound (server : ContextServer) : Prop where
  bare : F_WND_List.Bare server.list.wnd
  dc : server.list.dc.Good
  firstDC : server.list.dc.contents F_DC.inUse 0 = none
  opened : ∀ d, server.opened d =
    (server.list.dc.contents F_DC.inUse d).map fun dc => (dc.iHab, dc.hwnd)
  ps : server.list.ps = .empty

end ContextServer

namespace F_WND_List

variable {list : F_WND_List}

theorem openDC_eq (good : list.dc.Good) (ihab ihwnd : Int) (junk : Nat → F_DC) : ∃ dc' ind,
      list.openDC ihab ihwnd junk = .ok ({ list with dc := dc' }, ind) ∧
      dc'.Good ∧ 1 ≤ ind ∧ list.dc.contents F_DC.inUse ind = none ∧
      dc'.contents F_DC.inUse = Function.update (list.dc.contents F_DC.inUse) ind
          (some { F_DC.zero with used := 1, iHab := ihab, hwnd := ihwnd }) := by
  obtain ⟨dc', ind, taken, good', positive, fresh, changed⟩ :=
    @GrowTable.Good.take _ _ F_DC.inUse 64 .zero junk good (by decide) rfl
      (fun _ => { F_DC.zero with used := 1, iHab := ihab, hwnd := ihwnd })
      fun _ => rfl
  refine ⟨dc', ind, ?_, good', positive, fresh, changed⟩
  rw [openDC, taken]
  rfl

theorem closeDC_eq (good : list.dc.Good)
    (first : list.dc.contents F_DC.inUse 0 = none) (iDC : Int) :
    ∃ dc' rc,
      list.closeDC iDC = .ok ({ list with dc := dc' }, rc) ∧ dc'.Good ∧
      (rc = 0 ↔ 0 ≤ iDC ∧ (list.dc.contents F_DC.inUse iDC.toNat).isSome) ∧
      dc'.contents F_DC.inUse =
        if rc = 0 then
          Function.update (list.dc.contents F_DC.inUse) iDC.toNat none
        else list.dc.contents F_DC.inUse := by
  obtain ⟨dc', rc, released, good', decides, changed⟩ :=
    @release_eq _ F_DC.inUse ({ · with used := 0 }) _ good (fun _ => rfl) first iDC
  refine ⟨dc', rc, ?_, good', decides, changed⟩
  rw [closeDC, released]
  rfl

theorem frame_of_openDC {list' : F_WND_List} {ihab ihwnd : Int} {junk : Nat → F_DC} {ind : Nat}
    (returned : list.openDC ihab ihwnd junk = .ok (list', ind)) :
    list'.wnd = list.wnd ∧ list'.ps = list.ps := by
  rw [openDC, bind_eq_ok_iff] at returned
  obtain ⟨taken, -, returned⟩ := returned
  cases returned
  exact ⟨rfl, rfl⟩

theorem takePS_empty (junk : Nat → F_PS) :
    ∃ ps, takePS .empty junk = .ok (ps, 1) := ⟨_, rfl⟩

theorem queryHab_of_used {iWND : Int} {cell : WND}
    (read : list.wnd.read iWND = .ok cell) (uses : cell.inUse = true)
    (ihab : Int) : list.queryHab iWND ihab = .ok (1, cell.iHab) := by
  rw [queryHab, read, bind_ok, uses]
  rfl

theorem queryHab_of_unused {iWND : Int} {cell : WND}
    (read : list.wnd.read iWND = .ok cell) (unused : cell.inUse = false)
    (ihab : Int) : ∃ rc, rc ≠ 1 ∧ list.queryHab iWND ihab = .ok (rc, ihab) := by
  refine ⟨if iWND < 0 ∨ iWND ≥ list.wnd.n then -1 else 0, ?_, ?_⟩
  · split
    · decide
    · decide
  · rw [queryHab, read, bind_ok, unused]
    rfl

section

variable {hwndDesktop iHWND : Int} {junkDC : Nat → F_DC} {junkPS : Nat → F_PS} {cell : WND}

theorem getHPS_of_unused
    (read : list.wnd.read (ContextServer.windowOf hwndDesktop list iHWND) = .ok cell)
    (unused : cell.inUse = false) :
    list.getHPS hwndDesktop iHWND junkDC junkPS = .ok (list, 0) := by
  obtain ⟨rc, refused, queried⟩ := queryHab_of_unused read unused 0
  unfold ContextServer.windowOf at queried
  rw [getHPS]
  rw [queried, bind_ok]
  exact if_pos refused

theorem givePS_first {list' : F_WND_List} {iWND : Int} {ind : Nat} (none : list.ps = .empty)
    (returned : list.givePS iWND junkPS = .ok (list', ind)) :
    list'.wnd = list.wnd ∧ ind = 1 := by
  obtain ⟨ps, taken⟩ := takePS_empty junkPS
  rw [givePS, none, taken, bind_ok] at returned
  obtain ⟨dc, -, returned⟩ := bind_eq_ok_iff.mp returned
  obtain ⟨window, -, returned⟩ := bind_eq_ok_iff.mp returned
  obtain ⟨cell', -, returned⟩ := bind_eq_ok_iff.mp returned
  obtain ⟨ps', -, returned⟩ := bind_eq_ok_iff.mp returned
  cases returned
  exact ⟨rfl, rfl⟩

theorem getHPS_of_used {list' : F_WND_List} {ind : Nat}
    (read : list.wnd.read (ContextServer.windowOf hwndDesktop list iHWND) = .ok cell)
    (uses : cell.inUse = true) (none : list.ps = .empty)
    (returned : list.getHPS hwndDesktop iHWND junkDC junkPS =
      .ok (list', ind)) : list'.wnd = list.wnd ∧ ind = 1 := by
  have queried := queryHab_of_used read uses 0
  unfold ContextServer.windowOf at read queried
  rw [getHPS] at returned
  rw [queried, bind_ok] at returned
  dsimp only at returned
  rw [if_neg (not_not.mpr rfl), read, bind_ok] at returned
  split at returned
  · exact givePS_first none returned
  · obtain ⟨⟨between, _⟩, opened, returned⟩ := bind_eq_ok_iff.mp returned
    obtain ⟨sameWnd, samePS⟩ := frame_of_openDC opened
    rw [← sameWnd]
    exact givePS_first (samePS.trans none) returned

end

end F_WND_List

namespace ContextServer

variable {server server' : ContextServer} {hwndDesktop : Int}

theorem start_sound : start.Sound where
  bare := F_WND_List.bare_empty
  dc := .empty
  firstDC := rfl
  opened := fun _ => rfl
  ps := rfl

/-- A presentation space is given out as it should be, exactly if it is not. -/
theorem Sound.meetsGet_iff (sound : server.Sound) (iHWND : Int)
    (junkDC : Nat → F_DC) (junkPS : Nat → F_PS) :
    MeetsGet hwndDesktop server.list iHWND junkDC junkPS ↔
      server.Refused hwndDesktop iHWND := by
  constructor
  · rintro ⟨list', ind, returned, meets⟩
    cases read : server.list.wnd.read (windowOf hwndDesktop server.list iHWND) with
    | error fault =>
      unfold windowOf at read
      simp [F_WND_List.getHPS, F_WND_List.queryHab, read] at returned
    | ok cell =>
      refine ⟨cell, read, ?_⟩
      by_contra uses
      rw [Bool.not_eq_false] at uses
      obtain ⟨kept, rfl⟩ := F_WND_List.getHPS_of_used read uses sound.ps returned
      obtain ⟨-, ps, h, window, -, -, live, some, -⟩ := meets
      rw [kept] at live
      exact some (sound.bare.noDC h window live)
  · rintro ⟨cell, read, unused⟩
    refine ⟨server.list, 0, F_WND_List.getHPS_of_unused read unused, ?_⟩
    rw [if_pos rfl]

theorem Sound.serves (sound : server.Sound) {request : ContextRequest}
    (allowed : server.Allows hwndDesktop request) :
    ∃ server', server.serve hwndDesktop request = .ok server' ∧
      server'.Sound := by
  cases request with
  | add ihab junk =>
    obtain ⟨wnd', ind, added, bare, -, -⟩ := F_WND_List.add_eq sound.bare ihab junk
    refine ⟨_, by rw [serve, added]; rfl, ?_⟩
    exact ⟨bare, sound.dc, sound.firstDC, sound.opened, sound.ps⟩
  | del iWND =>
    obtain ⟨wnd', rc, deleted, bare, -, -⟩ := F_WND_List.del_eq sound.bare iWND
    refine ⟨_, by rw [serve, deleted]; rfl, ?_⟩
    exact ⟨bare, sound.dc, sound.firstDC, sound.opened, sound.ps⟩
  | setCurrentDesktop iHWND =>
    exact ⟨_, rfl, sound.bare, sound.dc, sound.firstDC, sound.opened, sound.ps⟩
  | getHPS iHWND junkDC junkPS =>
    obtain ⟨cell, read, unused⟩ := allowed
    refine ⟨server, ?_, sound⟩
    rw [serve, F_WND_List.getHPS_of_unused read unused]
    rfl
  | releaseHPS ihps =>
    have good : server.list.ps.Good := sound.ps ▸ .empty
    obtain ⟨rc, -, refused⟩ :=
      @release_of_dead _ F_PS.inUse ({ · with used := 0 }) _ good ihps
        fun _ => by rw [sound.ps]; rfl
    refine ⟨server, ?_, sound⟩
    rw [serve, F_WND_List.releaseHPS, refused]
    rfl
  | openDC ihab ihwnd junk =>
    obtain ⟨dc', ind, opens, good, positive, -, changed⟩ :=
      F_WND_List.openDC_eq sound.dc ihab ihwnd junk
    refine ⟨_, by rw [serve, opens]; rfl, ?_⟩
    refine ⟨sound.bare, good, ?_, ?_, sound.ps⟩
    · rw [changed, Function.update_of_ne (Nat.ne_of_lt positive)]
      exact sound.firstDC
    · intro d
      simp only [changed, Function.update_apply]
      split
      · rfl
      · exact sound.opened d
  | closeDC iDC =>
    obtain ⟨dc', rc, closed, good, -, changed⟩ := F_WND_List.closeDC_eq sound.dc sound.firstDC iDC
    refine ⟨_, by rw [serve, closed]; rfl, ?_⟩
    refine ⟨sound.bare, good, ?_, ?_, sound.ps⟩
    · rw [changed]
      split
      · rw [Function.update_apply]
        split
        · rfl
        · exact sound.firstDC
      · exact sound.firstDC
    · intro d
      simp only [changed]
      split
      · rw [Function.update_apply, Function.update_apply]
        split
        · rfl
        · exact sound.opened d
      · exact sound.opened d

theorem sound_of_run (run : RunsTo (AllowedStep hwndDesktop) start server) : server.Sound := by
  refine RunsTo.preserves ?_ run start_sound
  rintro server server' sound ⟨request, allowed, served⟩
  obtain ⟨next, returned, sound'⟩ := sound.serves allowed
  cases returned.symm.trans served
  exact sound'

/-- In every run that gives out no presentation space, the calls that give out
none are served; a device context gets a handle that none has; one that is closed
was open; neither changes anything else; and what is open is in the table.  Any
presentation space that is given out then is wrong. -/
theorem contexts_kept (run : RunsTo (AllowedStep hwndDesktop) start server) :
    (∀ request, server.Allows hwndDesktop request → Returns (server.serve hwndDesktop request)) ∧
      (∀ d, (server.opened d).isSome ↔ ∃ dc, server.list.dc.contents F_DC.inUse d = some dc) ∧
      (∀ d dc, server.list.dc.contents F_DC.inUse d = some dc → 1 ≤ d ∧ d < server.list.dc.n) ∧
      server.list.dc.n ≤ server.list.dc.nAlloced ∧
      (∀ ihab ihwnd junk list' ind, server.list.openDC ihab ihwnd junk = .ok (list', ind) →
          server.opened ind = none ∧
            list' = { server.list with dc := list'.dc } ∧
            ∀ d, d ≠ ind → list'.dc.contents F_DC.inUse d = server.list.dc.contents F_DC.inUse d) ∧
      (∀ iDC list' rc, server.list.closeDC iDC = .ok (list', rc) →
        (rc = 0 ↔ 0 ≤ iDC ∧ (server.opened iDC.toNat).isSome) ∧
          list' = { server.list with dc := list'.dc } ∧
          ∀ d : Nat, (d : Int) ≠ iDC → list'.dc.contents F_DC.inUse d =
            server.list.dc.contents F_DC.inUse d) ∧
      (∀ ihps list' rc, server.list.releaseHPS ihps = .ok (list', rc) →
        rc ≠ 0 ∧ list' = server.list) ∧
      ∀ iHWND junkDC junkPS, MeetsGet hwndDesktop server.list iHWND junkDC junkPS ↔
          server.Refused hwndDesktop iHWND := by
  have sound := sound_of_run run
  have isSome : ∀ d, (server.opened d).isSome =
      (server.list.dc.contents F_DC.inUse d).isSome := by
    intro d
    rw [sound.opened, Option.isSome_map]
  refine ⟨?_, ?_, ?_, sound.dc.n_le, ?_, ?_, ?_, sound.meetsGet_iff⟩
  · intro request allowed
    obtain ⟨server', served, -⟩ := sound.serves allowed
    exact ⟨server', served⟩
  · intro d
    rw [isSome, Option.isSome_iff_exists]
  · intro d dc live
    refine ⟨Nat.pos_of_ne_zero ?_, sound.dc.lt_of_contents live⟩
    rintro rfl
    rw [sound.firstDC] at live
    cases live
  · intro ihab ihwnd junk list' ind returned
    obtain ⟨dc', ind', opens, -, -, fresh, changed⟩ := F_WND_List.openDC_eq sound.dc ihab ihwnd junk
    cases opens.symm.trans returned
    refine ⟨?_, rfl, fun d other => ?_⟩
    · rw [sound.opened, fresh]
      rfl
    · rw [changed, Function.update_of_ne other]
  · intro iDC list' rc returned
    obtain ⟨dc', rc', closed, -, decides, changed⟩ :=
      F_WND_List.closeDC_eq sound.dc sound.firstDC iDC
    cases closed.symm.trans returned
    rw [isSome]
    refine ⟨decides, rfl, fun d other => ?_⟩
    rw [changed]
    split
    · rename_i done
      rw [Function.update_of_ne]
      omega
    · rfl
  · intro ihps list' rc returned
    have good : server.list.ps.Good := sound.ps ▸ .empty
    obtain ⟨rc', refused, released⟩ :=
      @release_of_dead _ F_PS.inUse ({ · with used := 0 }) _ good ihps
        fun _ => by rw [sound.ps]; rfl
    rw [F_WND_List.releaseHPS, released] at returned
    cases returned
    exact ⟨refused, rfl⟩

set_option maxRecDepth 4000 in
/-- The first device context has the first handle. -/
theorem contexts_kept_one_context : ∃ server, RunsTo (AllowedStep 1) start server ∧
      server.opened 1 = some (5, 7) ∧ server.list.dc.n ≤ server.list.dc.nAlloced := by
  have run : ∃ server, RunsTo (AllowedStep 1) start server ∧
      server.opened 1 = some (5, 7) :=
    ⟨_, .single ⟨.openDC 5 7 fun _ => .zero, trivial, rfl⟩, rfl⟩
  obtain ⟨server, run, opened⟩ := run
  exact ⟨server, run, opened, (contexts_kept run).2.2.2.1⟩

set_option maxRecDepth 4000 in
/-- The presentation space of a window has no device context, and the window does
not know of one. -/
theorem getHPS_loses_context : ∃ server list', RunsTo (AllowedStep 1) start server ∧
      server.list.getHPS 1 2 (fun _ => .zero) (fun _ => .zero) = .ok (list', 1) ∧
      (list'.ps.contents F_PS.inUse 1).map F_PS.iDC = some 0 ∧
      (list'.wnd.contents WND.inUse 2).map WND.iHDC = some 0 ∧
      ¬ MeetsGet 1 server.list 2 (fun _ => .zero) fun _ => .zero := by
  have run : ∃ server list' cell, RunsTo (AllowedStep 1) start server ∧
      server.list.getHPS 1 2 (fun _ => .zero) (fun _ => .zero) = .ok (list', 1) ∧
      (list'.ps.contents F_PS.inUse 1).map F_PS.iDC = some 0 ∧
      (list'.wnd.contents WND.inUse 2).map WND.iHDC = some 0 ∧
      server.list.wnd.read 2 = .ok cell ∧ cell.inUse = true :=
    ⟨_, _, _, .head ⟨.add 5 fun _ => .zero, trivial, rfl⟩
      (.single ⟨.add 5 fun _ => .zero, trivial, rfl⟩), rfl, rfl, rfl, rfl, rfl⟩
  obtain ⟨server, list', cell, run, given, space, window, read, uses⟩ := run
  refine ⟨server, list', run, given, space, window, ?_⟩
  rw [(sound_of_run run).meetsGet_iff]
  rintro ⟨cell', read', unused⟩
  cases read.symm.trans read'
  rw [uses] at unused
  cases unused

end ContextServer

end OsFree.Pm
