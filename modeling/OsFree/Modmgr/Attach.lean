import OsFree.Modmgr.ImportGraph

/-!
# Attaching a module with its imports

`attach_all` of a client attaches the sections of a module and then those of its
imports, which it asks the server for one by one.  The server opens an import by
the name that stands in the module.
-/

namespace OsFree.Modmgr

open Machine

namespace Manager

/-- `ExcGetImp`: the handle of an import of a module, or nothing behind the last
one. -/
def excGetImp (handlers : IXFHandlers) (files : Files) (hmod index : Nat)
    (manager : Manager) : Run (Option Nat × Manager) :=
  if hmod = 0 then pure (none, manager)
  else do
    let ixfModule ← manager.ixfModule hmod
    let image ← ixfModule.loaded
    match image.modules[index]? with
    | none => pure (none, manager)
    | some mod => do
        let (reply, manager) ← manager.openModule handlers files cchMaxPath mod false
        if reply.rc = 0 then pure (some reply.phmod, manager)
        else pure (none, manager)

/-- `attach_all` from an import on.  `attach_module`, which attaches the
sections, always returns 0.  The first argument bounds the number of turns and
calls. -/
def attachAll (handlers : IXFHandlers) (files : Files) :
    Nat → Nat → Nat → Manager → Run (Option Manager)
  | 0, _, _, _ => pure none
  | fuel + 1, hmod, index, manager => do
      let (impHmod, manager) ← manager.excGetImp handlers files hmod index
      match impHmod with
      | none => pure (some manager)
      | some 0 => attachAll handlers files fuel hmod (index + 1) manager
      | some impHmod => do
          match ← attachAll handlers files fuel impHmod 0 manager with
          | none => pure none
          | some manager => attachAll handlers files fuel hmod (index + 1) manager

section

variable {handlers : IXFHandlers} {files : Files} {manager manager' : Manager}

variable {hmod index : Nat} {image : IXFImage}

/-- More turns do not matter. -/
theorem attachAll_succ {fuel : Nat}
    (returns : manager.attachAll handlers files fuel hmod index = .ok (some manager')) :
    manager.attachAll handlers files (fuel + 1) hmod index =
      .ok (some manager') := by
  induction fuel generalizing hmod index manager manager' with
  | zero => cases returns
  | succ fuel ih =>
    obtain ⟨⟨impHmod, between⟩, asked, returns⟩ := bind_eq_ok_iff.mp returns
    unfold attachAll
    rw [asked, bind_ok]
    cases impHmod with
    | none => exact returns
    | some impHmod =>
      cases impHmod with
      | zero => exact ih returns
      | succ impHmod =>
        obtain ⟨inner, called, returns⟩ := bind_eq_ok_iff.mp returns
        cases inner with
        | none => cases returns
        | some inner =>
          simp only [ih called, bind_ok]
          exact ih returns

theorem attachAll_add {fuel : Nat} (more : Nat)
    (returns : manager.attachAll handlers files fuel hmod index = .ok (some manager')) :
    manager.attachAll handlers files (fuel + more) hmod index =
      .ok (some manager') := by
  induction more with
  | zero => exact returns
  | succ more ih => exact attachAll_succ ih

theorem excGetImp_end (nonnull : hmod ≠ 0) (has : manager.HasImage hmod image)
    (last : image.modules[index]? = none) :
    manager.excGetImp handlers files hmod index = .ok (none, manager) := by
  obtain ⟨ixfModule, live, loaded⟩ := has
  unfold excGetImp
  rw [if_neg nonnull, ixfModule_eq_ok_iff.mpr ⟨nonnull, live⟩, bind_ok,
    loaded_eq_ok_iff.mpr loaded, bind_ok]
  simp only [last]
  rfl

theorem excGetImp_found {name : Name} {slot : ModuleSlot} (nonnull : hmod ≠ 0)
    (has : manager.HasImage hmod image)
    (here : image.modules[index]? = some name)
    (found : getrec (getFname name) manager.chain = .found slot) :
    manager.excGetImp handlers files hmod index =
      .ok (some slot.first.moduleStruct, manager) := by
  obtain ⟨ixfModule, live, loaded⟩ := has
  have opened : manager.openModule handlers files cchMaxPath name false =
      .ok ({ rc := 0, phmod := slot.first.moduleStruct, pszName := [] },
        manager) := by
    unfold openModule
    simp only [found, Bool.false_eq_true, if_false]
    rfl
  unfold excGetImp
  rw [if_neg nonnull, ixfModule_eq_ok_iff.mpr ⟨nonnull, live⟩, bind_ok,
    loaded_eq_ok_iff.mpr loaded, bind_ok]
  simp only [here, opened, bind_ok, if_true]
  rfl

theorem attachAll_from {hmod : Nat} {image : IXFImage} (nonnull : hmod ≠ 0)
    (has : manager.HasImage hmod image)
    (imports : ∀ name ∈ image.modules, 0x2e ∉ name ∧
      ∃ slot, getrec name manager.chain = .found slot ∧ slot.first.moduleStruct ≠ 0 ∧
        ∃ fuel, manager.attachAll handlers files fuel
          slot.first.moduleStruct 0 = .ok (some manager)) (left : Nat) :
    ∃ fuel, manager.attachAll handlers files fuel hmod
      (image.modules.length - left) = .ok (some manager) := by
  -- The induction is on the number of imports that are left.
  induction left with
  | zero =>
    refine ⟨1, ?_⟩
    have last : image.modules[image.modules.length - 0]? = none := List.getElem?_eq_none le_rfl
    unfold attachAll
    rw [excGetImp_end nonnull has last, bind_ok]
    rfl
  | succ left ih =>
    by_cases more : left < image.modules.length
    · obtain ⟨rest, returns⟩ := ih
      have inside : image.modules.length - (left + 1) <
          image.modules.length := by omega
      have here := List.getElem?_eq_getElem inside
      obtain ⟨plain, slot, found, live, fuel, called⟩ := imports _ (List.getElem_mem inside)
      obtain ⟨impHmod, succ⟩ := Nat.exists_eq_succ_of_ne_zero live
      have next : image.modules.length - (left + 1) + 1 =
          image.modules.length - left := by omega
      refine ⟨fuel + rest + 1, ?_⟩
      have called := attachAll_add rest called
      have returns := attachAll_add fuel returns
      rw [Nat.add_comm rest fuel] at returns
      rw [succ] at called
      unfold attachAll
      rw [← getFname_of_no_dot plain] at found
      rw [excGetImp_found nonnull has here found, bind_ok, succ]
      simp only [called, bind_ok, next]
      exact returns
    · have same : image.modules.length - (left + 1) =
          image.modules.length - left := by omega
      rw [same]
      exact ih

theorem attachAll_ends (addressed : manager.Addressed)
    (closed : manager.Closed) (present : manager.Present)
    {record : ModuleRec}
    (here : manager.HasRecord record)
    (done : record.loadStatus = .doneLoading)
    (has : manager.HasImage record.moduleStruct image) :
    ∃ fuel, manager.attachAll handlers files fuel record.moduleStruct 0 =
      .ok (some manager) := by
  have ends := closed.ends here done
  induction ends generalizing image with
  | intro record _ ih =>
    have all := @attachAll_from handlers files manager record.moduleStruct
      image (addressed.module_pos here) has ?_ image.modules.length
    · rw [Nat.sub_self] at all
      exact all
    intro name member
    obtain ⟨plain, slot, found⟩ := closed.found here done has member
    have known := hasRecord_of_found found
    obtain ⟨next, has'⟩ := present name slot found
    exact ⟨plain.1, slot, found, addressed.module_pos known, ih slot.first
        ⟨image, name, slot, has, member, found, rfl⟩ known
        (getrec_eq_found found).2.2 has'⟩

end

end Manager

namespace Server

/-- A call that is about to return has plain imports only. -/
def LeavesPlain (server : Server) : Event → Prop
  | .accept .. => True
  | .turn _ => ∀ frame ∈ server.frames.head?, server.manager.LeavesPlain frame

variable {handlers : IXFHandlers} {server : Server}

theorem ReachableIf.settled (reachable : server.ReachableIf handlers LeavesPlain) :
    server.manager.Settled server.frames := by
  refine @ReachableIf.step_induction handlers LeavesPlain server
    Manager.Settled reachable Manager.settled_modInitialize ?_
  intro server event reply server' addressed filed settled stepping plain
  have closed := settled.closed
  have present := settled.present
  have kept : ∀ {manager}, Manager.SameRecords server.manager manager →
      manager.Settled [] := fun same =>
    ⟨Manager.calls_nil, closed.sameRecords same, present.sameRecords same, Manager.importing_nil⟩
  cases stepping with
  | opened idle opening =>
    cases opening with
    | failed => exact kept (.refl _)
    | registered => exact kept (.refl _)
    | copied found live =>
      exact ⟨Manager.calls_nil, closed.withInstance addressed _ found live,
        present.withInstance addressed _ _ _ _, Manager.importing_nil⟩
    | unknown => exact kept (.skipped _)
    | opened => exact kept (addressed.sameRecords_alloc _)
  | returned idle entering =>
    exact kept (entering.sameRecords addressed filed)
  | entered idle entering =>
    obtain ⟨ixfModule, base, -, unfinished, same, effects, -, rfl, rfl⟩ := entering.loading filed
    have based := (Manager.filed_of_effects addressed filed effects).1
    rw [← same.chain] at unfinished
    refine ⟨Manager.Calls.entered Manager.calls_nil based _ unfinished,
      (closed.sameRecords same).withLoading based _ _,
      (present.sameRecords same).withLoading based _ _, ?_, ?_, trivial⟩
    · intro frame here image i name _ small
      rw [List.mem_singleton.mp here] at small
      exact absurd small (Nat.not_lt_zero i)
    · intro frame head imported
      cases head
      cases imported
  | turned busy turning =>
    rw [afterTurn_manager]
    rw [busy] at settled
    exact settled.turning addressed filed (plain _ (by rw [busy]; rfl)) turning

/-- The module `X` imports `SUB32`, which imports nothing. -/
def sub32Import : Files := namedFiles [([0x58], sub32), (sub32 ++ dll, [])]

end Server

end OsFree.Modmgr
