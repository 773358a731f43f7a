import OsFree.Machine.Fold
import OsFree.Modmgr.Instance
import OsFree.Modmgr.ProcQuery

/-!
# Linking

What the last turn of `LoadModule` does to the import fixups.  The slot of every
fixup is patched relative to its place.  Linking does not look at the return
code of the queries, and it stops without an error at an import from a module
that is being loaded.
-/

namespace OsFree.Modmgr

open Machine

/-- What the slot of a fixup has to hold when its import has an address. -/
def slotValue (isAbsolute : Bool) (fixup : IXFFixupEntry) (address : UInt32) :
    UInt32 :=
  if isAbsolute then address else address - fixup.srcAddress - 4

/-- What is stored into the slot of a fixup. -/
def linkCopy (fixup : IXFFixupEntry) (address : UInt32) : Copy :=
  { address := fixup.srcVmAddress
    bytes := longBytes (address - fixup.srcAddress - 4) }

namespace Manager

section

variable (manager : Manager)

/-- The import of a fixup is an entry of a module that is not being loaded, and
leads to an address. -/
def ImportLeadsTo (fixup : IXFFixupEntry) (address : UInt32) : Prop :=
  ∃ moduleName prev, fixup.importEntry.moduleName = some moduleName ∧
    getrec moduleName manager.chain = .found prev ∧
    manager.LeadsTo prev.first.moduleStruct (UInt32.ofInt fixup.importEntry.ordinal.toInt)
      fixup.importEntry.functionName address

/-- The import leads to an address that a query finds. -/
def ImportAnswers (fixup : IXFFixupEntry) (address : UInt32) : Prop :=
  ∃ moduleName prev, fixup.importEntry.moduleName = some moduleName ∧
    getrec moduleName manager.chain = .found prev ∧
    manager.LeadsTo prev.first.moduleStruct (UInt32.ofInt fixup.importEntry.ordinal.toInt)
      fixup.importEntry.functionName address ∧
    manager.Answerable prev.first.moduleStruct (UInt32.ofInt fixup.importEntry.ordinal.toInt)
      fixup.importEntry.functionName

/-- All imports lead to addresses that queries find, and the last fixup whose
slot covers a byte of some slot stores there what that slot has to hold. -/
def Linkable (isAbsolute : Nat → Bool) (fixups : List IXFFixupEntry) : Prop :=
  ∃ addresses, List.Forall₂ manager.ImportAnswers fixups addresses ∧
    ∀ i fixup address, fixups[i]? = some fixup → addresses[i]? = some address → ∀ k < 4, ∃ copy,
        lastCopy (List.zipWith linkCopy fixups addresses)
            (fixup.srcVmAddress + UInt32.ofNat k) = some copy ∧
          copy.byte (fixup.srcVmAddress + UInt32.ofNat k) =
            (longBytes (slotValue (isAbsolute i) fixup address))[k]?

end

variable {manager : Manager}

theorem LeadsTo.unique {hmod : Nat} {ordinal : UInt32}
    {pszName : Option Name} {address other : UInt32}
    (leads : manager.LeadsTo hmod ordinal pszName address)
    (leadsOther : manager.LeadsTo hmod ordinal pszName other) :
    address = other := by
  induction leads with
  | address asks here stored =>
    rcases (leadsTo_iff asks).mp leadsOther with ⟨-, stored'⟩ | ⟨moduleName, prev, forwards, -⟩
    · exact Option.some.inj (stored.symm.trans stored')
    · rw [here] at forwards
      cases forwards
  | forward asks forwards found _ ih =>
    rcases (leadsTo_iff asks).mp leadsOther with
      ⟨here, -⟩ | ⟨moduleName, prev, forwards', found', leads⟩
    · rw [forwards] at here
      cases here
    · rw [forwards] at forwards'
      cases forwards'
      rw [found] at found'
      cases found'
      exact ih leads

/-- A fixup with the address of its import. -/
def linkedFixup (fixup : IXFFixupEntry) (address : UInt32) : IXFFixupEntry :=
  { fixup with importEntry :=
      { fixup.importEntry with address := some address } }

variable {fixups : List IXFFixupEntry}

theorem linkFixups_cons {stack : Nat} {fixup : IXFFixupEntry} {memory : Memory} {moduleName : Name}
    {prev : ModuleSlot} {rc address : UInt32}
    (module : fixup.importEntry.moduleName = some moduleName)
    (found : getrec moduleName manager.chain = .found prev)
    (returned : manager.modQueryProcAddr stack prev.first.moduleStruct
      (UInt32.ofInt fixup.importEntry.ordinal.toInt)
      fixup.importEntry.functionName = .ok { rc, ppfn := some address }) :
    manager.linkFixups stack (fixup :: fixups) memory =
      (fun (linked, memory) => (linkedFixup fixup address :: linked, memory)) <$>
        manager.linkFixups stack fixups
          (memory.store (linkCopy fixup address)) := by
  rw [linkFixups]
  simp only [module, found, returned, bind_ok, linkedFixup, Option.orElse]
  rw [show { address := fixup.srcVmAddress
             bytes := longBytes (address - fixup.srcAddress - 4) } =
    linkCopy fixup address from rfl]
  cases manager.linkFixups stack fixups (memory.store (linkCopy fixup address)) with
  | error => rfl
  | ok => rfl

theorem linkFixups_of_answers {addresses : List UInt32}
    (answers : List.Forall₂ manager.ImportAnswers fixups addresses) :
    ∃ enough, ∀ stack, enough ≤ stack → ∀ memory, ∃ linked,
      manager.linkFixups stack fixups memory = .ok (linked,
          memory.storeAll (List.zipWith linkCopy fixups addresses)) := by
  induction answers with
  | nil => exact ⟨0, fun stack _ memory => ⟨[], rfl⟩⟩
  | @cons fixup address fixups addresses answer _ ih =>
    obtain ⟨moduleName, prev, module, found, leads, answerable⟩ := answer
    obtain ⟨enough, answered⟩ := answerable.answersQuery
    obtain ⟨rest, linked⟩ := ih
    refine ⟨max enough rest, ?_⟩
    intro stack deep memory
    obtain ⟨answer, returned, outcome⟩ := answered stack ((le_max_left _ _).trans deep)
    have here : answer = { rc := 0, ppfn := some address } := by
      rcases outcome with ⟨other, leads', equal⟩ | ⟨none, -⟩
      · rw [leads.unique leads']
        exact equal
      · exact absurd ⟨address, leads⟩ none
    obtain ⟨others, linked⟩ := linked stack ((le_max_right _ _).trans deep)
      (memory.store (linkCopy fixup address))
    rw [here] at returned
    refine ⟨linkedFixup fixup address :: others, ?_⟩
    rw [linkFixups_cons module found returned, linked]
    rfl

theorem answers_of_linkFixups {stack : Nat} {linked : List IXFFixupEntry} {memory memory' : Memory}
    (links : manager.linkFixups stack fixups memory = .ok (linked, memory'))
    (leads : ∀ fixup ∈ fixups, ∃ address, manager.ImportLeadsTo fixup address) :
    ∃ addresses, List.Forall₂ manager.ImportAnswers fixups addresses ∧ memory' =
        memory.storeAll (List.zipWith linkCopy fixups addresses) := by
  induction fixups generalizing linked memory with
  | nil =>
    cases links
    exact ⟨[], .nil, rfl⟩
  | cons fixup fixups ih =>
    obtain ⟨address, moduleName, prev, module, found, leadsTo⟩ :=
      leads fixup (List.mem_cons_self ..)
    have asked := links
    rw [linkFixups] at asked
    simp only [module, found] at asked
    obtain ⟨answer, returned, -⟩ := bind_eq_ok_iff.mp asked
    have equal := leadsTo.returned returned
    rw [equal] at returned
    rcases modQueryProcAddr_cases returned with answerable | nothing
    · rw [linkFixups_cons module found returned] at links
      obtain ⟨⟨others, between⟩, links, joined⟩ := map_eq_ok_iff.mp links
      cases joined
      obtain ⟨addresses, answers, stored⟩ := ih links
        fun other member => leads other (List.mem_cons_of_mem fixup member)
      exact ⟨address :: addresses,
        .cons ⟨moduleName, prev, module, found, leadsTo, answerable⟩ answers,
        stored⟩
    · cases nothing

/-- A call has come to its last turn. -/
structure Leaving (manager : Manager) (frame : Frame) (ixfModule : IXFModule)
    (image : IXFImage) : Prop where
  live : manager.ixfModule frame.ixfModule = .ok ixfModule
  loaded : ixfModule.image = some image
  next : frame.imported = false
  last : image.modules[frame.moduleCounter]? = none

/-- With enough stack the call returns, and if it returns no error then each
imported fixup leads to an address and its slot has been patched with it;
whether a fixup is absolute is up to the format. -/
def LinksImports (handlers : IXFHandlers) (files : Files)
    (isAbsolute : Nat → Bool) (manager : Manager) (frame : Frame)
    (image : IXFImage) : Prop :=
  ∃ enough, ∀ stack, enough ≤ stack → ∃ reply manager',
    frame.turn handlers files stack manager = .ok (.returned reply, manager') ∧
      (reply.rc = 0 → ∀ i fixup, image.fixups[i]? = some fixup →
        ∃ address, manager.ImportLeadsTo fixup address ∧
          HoldsLong manager'.memory fixup.srcVmAddress (slotValue (isAbsolute i) fixup address))

section

variable {handlers : IXFHandlers} {files : Files} {frame : Frame}
  {ixfModule : IXFModule} {image : IXFImage}

theorem Leaving.turn_eq (leaving : manager.Leaving frame ixfModule image) (stack : Nat) :
    frame.turn handlers files stack manager =
      frame.leave stack ixfModule image manager := by
  unfold Frame.turn
  rw [leaving.live, bind_ok, loaded_eq_ok_iff.mpr leaving.loaded, bind_ok, leaving.next]
  simp only [Bool.false_eq_true, if_false, leaving.last]

theorem leave_of_error (error : frame.fixupExecutable ixfModule image ≠ 0) (stack : Nat) :
    frame.leave stack ixfModule image manager = .ok (.returned
        { rc := frame.fixupExecutable ixfModule image
          phmod := frame.ixfModule, pszName := [] }, manager) :=
  if_neg error

theorem leave_of_linked (success : frame.fixupExecutable ixfModule image = 0)
    {stack : Nat} {fixups : List IXFFixupEntry} {memory : Memory}
    (linked : manager.linkFixups stack image.fixups manager.memory = .ok (fixups, memory)) :
    frame.leave stack ixfModule image manager =
      .ok (.returned { rc := 0, phmod := frame.ixfModule, pszName := [] },
        (manager.withLinked frame.ixfModule ixfModule image fixups
          memory).withFinished frame.newModuleEl) := by
  unfold Frame.leave
  simp only [success, if_true]
  unfold modLinkModule
  rw [linked]
  rfl

variable {fixup : IXFFixupEntry} {address : UInt32}

theorem holdsLong_slots {fixups : List IXFFixupEntry} {addresses : List UInt32}
    {memory : Memory} {i : Nat} {value : UInt32}
    (found : fixups[i]? = some fixup) (resolved : addresses[i]? = some address) :
    HoldsLong (memory.storeAll (List.zipWith linkCopy fixups addresses)) fixup.srcVmAddress value ↔
      ∀ k < 4, ∃ copy, lastCopy (List.zipWith linkCopy fixups addresses)
            (fixup.srcVmAddress + UInt32.ofNat k) = some copy ∧
          copy.byte (fixup.srcVmAddress + UInt32.ofNat k) =
            (longBytes value)[k]? := by
  apply holdsLong_storeAll_iff
  intro k small
  refine ⟨linkCopy fixup address, ?_, ?_⟩
  · refine List.mem_of_getElem? (?_ : (List.zipWith linkCopy fixups addresses)[i]? = _)
    rw [List.getElem?_zipWith, found, resolved]
  · change (fixup.srcVmAddress + UInt32.ofNat k - fixup.srcVmAddress).toNat < (longBytes _).length
    have bound := fixup.srcVmAddress.toNat_lt
    rw [longBytes_length]
    simp only [UInt32.toNat_sub, UInt32.toNat_add, UInt32.toNat_ofNat', Nat.reducePow]
    omega

theorem ImportLeadsTo.unique {other : UInt32} (leads : manager.ImportLeadsTo fixup address)
    (leadsOther : manager.ImportLeadsTo fixup other) : address = other := by
  obtain ⟨moduleName, prev, module, found, leads⟩ := leads
  obtain ⟨moduleName', prev', module', found', leads'⟩ := leadsOther
  rw [module] at module'
  cases module'
  rw [found] at found'
  cases found'
  exact leads.unique leads'

theorem ImportAnswers.leadsTo (answers : manager.ImportAnswers fixup address) :
    manager.ImportLeadsTo fixup address := by
  obtain ⟨moduleName, prev, module, found, leads, -⟩ := answers
  exact ⟨moduleName, prev, module, found, leads⟩

end

end Manager

/-- `KalInit`. -/
def kalInit : Name := [0x4b, 0x61, 0x6c, 0x49, 0x6e, 0x69, 0x74]

/-- A fixup at 65536 to the function `KalInit`. -/
def kalInitFixup : IXFFixupEntry :=
  { srcAddress := 65536, srcVmAddress := 131072
    importEntry :=
      { functionName := some kalInit, address := none, moduleName := some kal
        ordinal := 0 } }

/-- A format in which every file imports `KalInit`. -/
def kalInitHandlers : IXFHandlers :=
  { first :=
      { identify := fun _ => 0
        load := fun _ _ =>
          (0, { entries := [], modules := [kal], fixups := [kalInitFixup] })
        fixup := fun _ _ => 0 }
    others := [] }

namespace Server

/-- `KAL` alone, with the function `KalInit` at 4096. -/
def kalInitServer : Server := { kalServer with
    manager := modInitialize (kalModule
        [{ functionName := some kalInit, address := some 4096
           moduleName := none, ordinal := 1 }] false false) fun _ => 0 }

theorem kalInitServer_initial : kalInitServer.Initial := ⟨rfl, _, false, false, fun _ => 0, rfl⟩

theorem exists_leaving : ∃ server : Server, server.Reachable kalInitHandlers ∧
      ∃ frame ixfModule image prev, server.frames = [frame] ∧
        server.manager.Leaving frame ixfModule image ∧
        frame.fixupExecutable ixfModule image = 0 ∧
        image.fixups = [kalInitFixup] ∧
        getrec kal server.manager.chain = .found prev ∧
        ∀ stack, server.manager.modQueryProcAddr (stack + 1)
          prev.first.moduleStruct 0 (some kalInit) =
            .ok { rc := 0, ppfn := some 4096 } := by
  have served : ∃ server replies frame ixfModule image prev, kalInitServer.serve kalInitHandlers
          [.accept plainExecutable (.openModule 260 [0x58] true),
            .accept plainExecutable (.loadModule 260 3), .turn 0, .turn 0] =
        some (server, replies) ∧
      server.frames = [frame] ∧
      server.manager.Leaving frame ixfModule image ∧
      frame.fixupExecutable ixfModule image = 0 ∧
      image.fixups = [kalInitFixup] ∧
      getrec kal server.manager.chain = .found prev ∧
      ∀ stack, server.manager.modQueryProcAddr (stack + 1)
        prev.first.moduleStruct 0 (some kalInit) =
          .ok { rc := 0, ppfn := some 4096 } :=
    ⟨_, _, _, _, _, _, rfl, rfl, ⟨rfl, rfl, rfl, rfl⟩, rfl, rfl, rfl, fun _ => rfl⟩
  obtain ⟨server, replies, frame, ixfModule, image, prev, served, rest⟩ := served
  exact ⟨server, reachable_of_serve kalInitServer_initial served, frame,
    ixfModule, image, prev, rest⟩

end Server

end OsFree.Modmgr
