import OsFree.Machine.DoublyLinked
import OsFree.Machine.Keyed
import OsFree.Machine.Transition

/-!
# The file provider

A file is loaded through a session for it, whose dataspace is attached, and a node
of a list keeps both.  When the file is closed, its node is taken off the list,
and the dataspace and the session are given back.
-/

namespace OsFree.Compat

open Machine

def ERROR_FILE_NOT_FOUND : UInt32 := 2
def ERROR_NOT_ENOUGH_MEMORY : UInt32 := 8
def ERROR_INVALID_PARAMETER : UInt32 := 87

/-- What is known of a loaded file. -/
structure Mapped where
  addr : Nat
  size : Nat
  offset : Nat
  ds : Nat
  rom : Nat

/-- `struct vmdata`. -/
structure Vmdata extends Mapped where
  next : Pointer
  prev : Pointer

/-- The links of the list of files. -/
def vmdataLinks : Links Vmdata where
  next := Vmdata.next
  prev := Vmdata.prev
  setNext next node := { node with next }
  setPrev prev node := { node with prev }
  next_setNext _ _ := rfl
  prev_setNext _ _ := rfl
  next_setPrev _ _ := rfl
  prev_setPrev _ _ := rfl

/-- The nodes, the head of the list, the dataspace that is attached at an address,
and the file name of an open session. -/
structure FileProv where
  nodes : Heap Vmdata
  root : Pointer
  rm : Nat → Option Nat
  roms : Nat → Option (List UInt8)

/-- What comes of making a session. -/
inductive Connection where
  | connected (rom : Nat)
  | refused
  | noMemory

/-- What comes of attaching the dataspace of a session. -/
inductive Attachment where
  | attached (ds addr size : Nat)
  | invalid
  | noMemory

/-- A call of `io_load_file`: its arguments, and what the system answers. -/
structure LoadCall where
  filename : Option (List UInt8)
  addr : Bool
  size : Bool
  connection : Connection
  attachment : Attachment
  room : Bool

/-- The call returns, or an exception leaves it. -/
inductive Ending where
  | returned (rc : UInt32)
  | thrown
  deriving DecidableEq

/-- How a load ends, and the address and size that have been stored for the
caller. -/
structure Loaded where
  ending : Ending
  stored : Option (Nat × Nat)

namespace FileProv

variable (prov : FileProv)

/-- `new Rom_connection`. -/
def connect (rom : Nat) (filename : List UInt8) : FileProv :=
  { prov with roms := Function.update prov.roms rom (some filename) }

/-- `destroy` of a session. -/
def destroy (rom : Nat) : FileProv :=
  { prov with roms := Function.update prov.roms rom none }

/-- `attach`. -/
def attach (addr ds : Nat) : FileProv :=
  { prov with rm := Function.update prov.rm addr (some ds) }

/-- `detach`. -/
def detach (addr : Nat) : FileProv :=
  { prov with rm := Function.update prov.rm addr none }

/-- Add a node to the tail of the list. -/
def addNode (file : Mapped) (fuel : Nat) : Option (Run FileProv) :=
  let node := prov.nodes.fresh
  let nodes := prov.nodes.malloc ⟨file, none, none⟩
  match prov.root with
  | none => some (.ok { prov with nodes, root := some node })
  | some first =>
    andThen (vmdataLinks.last nodes fuel first) fun last =>
      some ((fun nodes => { prov with nodes }) <$> vmdataLinks.linkBehind nodes last node)

/-- Attach the dataspace of a session and make a node for it.  Only an invalid
dataspace is caught. -/
def load (call : LoadCall) (rom fuel : Nat) : Option (Run (Loaded × FileProv)) :=
  match call.attachment with
  | .invalid =>
    some (.ok (⟨.returned ERROR_INVALID_PARAMETER, none⟩, prov.destroy rom))
  | .noMemory => some (.ok (⟨.thrown, none⟩, prov))
  | .attached ds addr size =>
    let prov := prov.attach addr ds
    if call.room then
      andThen (prov.addNode ⟨addr, size, 0, ds, rom⟩ fuel) fun prov =>
        some (.ok (⟨.returned 0, some (addr, size)⟩, prov))
    else
      some (.ok (⟨.returned ERROR_NOT_ENOUGH_MEMORY, some (addr, size)⟩,
        (prov.detach addr).destroy rom))

def io_load_file (call : LoadCall) (fuel : Nat) :
    Option (Run (Loaded × FileProv)) :=
  match call.filename with
  | none => some (.ok (⟨.returned ERROR_INVALID_PARAMETER, none⟩, prov))
  | some filename =>
    if filename = [] ∨ ¬ (call.addr ∧ call.size) then
      some (.ok (⟨.returned ERROR_INVALID_PARAMETER, none⟩, prov))
    else
      match call.connection with
      | .refused =>
        some (.ok (⟨.returned ERROR_FILE_NOT_FOUND, none⟩, prov))
      | .noMemory => some (.ok (⟨.thrown, none⟩, prov))
      | .connected rom => (prov.connect rom filename).load call rom fuel

/-- Take a node off the list and give back what it keeps. -/
def release (addr address : Nat) : Run FileProv := do
  let node ← prov.nodes.read address
  let nodes ← vmdataLinks.unlink prov.nodes address
  pure (({ prov with
    nodes
    root := if node.prev = none then node.next else prov.root }.detach addr).destroy node.rom)

def io_close_file (addr fuel : Nat) : Option (Run (UInt32 × FileProv)) :=
  if addr = 0 then some (.ok (ERROR_INVALID_PARAMETER, prov))
  else
    andThen (prov.nodes.find (fun node => .ok (node.addr = addr)) Vmdata.next
        fuel prov.root) fun found =>
      some (match found with
        | none => .ok (0, prov)
        | some address => (0, ·) <$> prov.release addr address)

end FileProv

/-- The list has these nodes, and they keep these files. -/
structure Keeps (nodes : Heap Vmdata) (root : Pointer) (addresses : List Nat)
    (files : List Mapped) : Prop where
  linked : vmdataLinks.WellLinked nodes root addresses
  files : (addresses.map fun address =>
    (nodes.objects address).map Vmdata.toMapped) = files.map some

theorem toMapped_ignored : vmdataLinks.Ignored Vmdata.toMapped where
  setNext _ _ := rfl
  setPrev _ _ := rfl

namespace Keeps

variable {prov : FileProv} {addresses front back : List Nat} {files : List Mapped} {address : Nat}

section

variable (keeps : Keeps prov.nodes prov.root addresses files)

include keeps

theorem fresh_not_mem :
    prov.nodes.fresh ∉ addresses := by
  intro member
  obtain ⟨node, live⟩ := Links.live_of_linked keeps.linked _ member
  rw [prov.nodes.unused _ (Nat.le_refl _)] at live
  cases live

theorem malloc (node : Vmdata) :
    Keeps (prov.nodes.malloc node) prov.root addresses files := by
  have same : ∀ address ∈ addresses,
      (prov.nodes.malloc node).objects address = prov.nodes.objects address := by
    intro address member
    obtain ⟨object, live⟩ := Links.live_of_linked keeps.linked _ member
    rw [Heap.malloc_objects_of_live node live, live]
  refine ⟨Links.linkedTo_congr keeps.linked same, ?_⟩
  rw [← keeps.files]
  refine List.map_congr_left fun address member => ?_
  rw [same address member]

theorem addNode (file : Mapped) :
    ∃ nodes root, Settles (prov.addNode file) (.ok { prov with nodes, root }) ∧
      Keeps nodes root (addresses ++ [prov.nodes.fresh]) (files ++ [file]) := by
  have made := keeps.malloc ⟨file, none, none⟩
  have live := prov.nodes.malloc_objects_fresh ⟨file, none, none⟩
  cases head : prov.root with
  | none =>
    have empty : addresses = [] := by
      have head' := keeps.linked.head_eq
      rw [head] at head'
      exact List.head?_eq_none_iff.mp head'.symm
    subst empty
    refine ⟨prov.nodes.malloc ⟨file, none, none⟩, some prov.nodes.fresh, ?_, ?_, ?_⟩
    · refine Settles.of_forall fun fuel => ?_
      rw [FileProv.addNode, head]
    · exact ⟨rfl, none, ⟨_, live, rfl, rfl⟩, rfl⟩
    · have none : files = [] := by simpa using keeps.files.symm
      simp [none, live]
  | some first =>
    obtain ⟨front, last, rfl⟩ : ∃ front last, addresses = front ++ [last] := by
      refine (List.eq_nil_or_concat' addresses).resolve_left ?_
      rintro rfl
      cases head.symm.trans keeps.linked
    obtain ⟨nodes, linked, keeps', -, -, alike⟩ :=
      Links.linkBehind_linked made.linked live rfl keeps.fresh_not_mem
    refine ⟨nodes, prov.root, ?_, keeps', ?_⟩
    · have unfolded : prov.addNode file = fun fuel =>
          andThen (vmdataLinks.last (prov.nodes.malloc ⟨file, none, none⟩) fuel first) fun last =>
              some ((fun nodes => { prov with nodes }) <$>
                vmdataLinks.linkBehind (prov.nodes.malloc ⟨file, none, none⟩)
                  last prov.nodes.fresh) := by
        funext fuel
        rw [FileProv.addNode, head]
      rw [unfolded]
      refine Settles.andThen (Links.last_settles made.linked head) ?_
      rw [linked]
      exact Settles.const _
    · have fields : (fun address =>
          (nodes.objects address).map Vmdata.toMapped) = _ :=
        funext fun address => alike address _ _ toMapped_ignored
      rw [fields, List.map_append, made.files, List.map_append]
      simp [live]

end

theorem split (keeps : Keeps prov.nodes prov.root (front ++ address :: back) files) :
    ∃ before file behind, files = before ++ file :: behind ∧ (front.map fun address =>
        (prov.nodes.objects address).map Vmdata.toMapped) = before.map some ∧
      (prov.nodes.objects address).map Vmdata.toMapped = some file ∧
      (back.map fun address =>
        (prov.nodes.objects address).map Vmdata.toMapped) = behind.map some := by
  have parts := keeps.files
  rw [List.map_append, List.map_cons] at parts
  obtain ⟨before, rest, rfl, first, second⟩ := List.map_eq_append_iff.mp parts.symm
  obtain ⟨file, behind, rfl, here, last⟩ := List.map_eq_cons_iff.mp second
  exact ⟨before, file, behind, rfl, first.symm, here.symm, last.symm⟩

theorem release {before behind : List Mapped} {file : Mapped} (addr : Nat)
    (linked : vmdataLinks.WellLinked prov.nodes prov.root (front ++ address :: back))
    (first : (front.map fun address =>
      (prov.nodes.objects address).map Vmdata.toMapped) = before.map some)
    (here : (prov.nodes.objects address).map Vmdata.toMapped = some file)
    (last : (back.map fun address =>
      (prov.nodes.objects address).map Vmdata.toMapped) = behind.map some) :
    ∃ nodes root, prov.release addr address =
        .ok (({ prov with nodes, root }.detach addr).destroy file.rom) ∧
      Keeps nodes root (front ++ back) (before ++ behind) := by
  obtain ⟨nodes, root, unlinked, linked', sameRoot, -, -, -, alike⟩ := Links.unlink_linked linked
  have different := List.nodup_middle.mp (Links.nodup_of_linked linked)
  obtain ⟨middle, -, rfl, next, ⟨node, live, rfl, prev⟩, rest⟩ := LinkedTo.append_iff.mp linked
  have newRoot : (if node.prev = none then node.next else prov.root) = root := by
    cases front with
    | nil =>
      rw [if_pos (show node.prev = none from prev), linked'.head_eq]
      exact Linked.head_eq rest
    | cons other front =>
      have before : node.prev ≠ none := by
        rw [show node.prev = _ from prev]
        cases List.eq_nil_or_concat' (other :: front) with
        | inl empty => cases empty
        | inr parts =>
          obtain ⟨front', last', parts⟩ := parts
          rw [parts, lastOr_append_singleton]
          exact Option.some_ne_none last'
      rw [if_neg before, sameRoot (by simp)]
  rw [live] at here
  cases here
  refine ⟨nodes, root, ?_, linked', ?_⟩
  · rw [FileProv.release, Heap.read_of_live live, bind_ok, unlinked, bind_ok, newRoot]
    rfl
  · rw [List.map_append (f := some), ← first, ← last, ← List.map_append]
    refine List.map_congr_left fun other member => ?_
    have away : other ≠ address := by
      rintro rfl
      exact (List.nodup_cons.mp different).1 member
    exact alike other away _ _ toMapped_ignored

theorem find (keeps : Keeps prov.nodes prov.root addresses files) (addr : Nat) :
    ∃ found, Settles (fun fuel => prov.nodes.find
        (fun node => .ok (node.addr = addr)) Vmdata.next fuel prov.root)
      (.ok found) ∧
      match found with
      | none => ∀ file ∈ files, file.addr ≠ addr
      | some address => ∃ front back, addresses = front ++ address :: back ∧
          ∃ file, (prov.nodes.objects address).map Vmdata.toMapped = some file ∧
            file.addr = addr := by
  refine ⟨_, keeps.linked.find_settles fun node => node.addr = addr, ?_⟩
  have passes (address : Nat) : (prov.nodes.objects address).any (fun node => node.addr = addr) =
        ((prov.nodes.objects address).map Vmdata.toMapped).any
          (fun file => file.addr = addr) := by
    rw [Option.any_map]
  split
  · rename_i missed
    intro file member same
    have kept : some file ∈ files.map some := List.mem_map_of_mem member
    rw [← keeps.files, List.mem_map] at kept
    obtain ⟨address, known, kept⟩ := kept
    have other := List.find?_eq_none.mp missed address known
    rw [passes, kept] at other
    simp [same] at other
  · rename_i address found
    obtain ⟨here, front, back, parts, -⟩ := List.find?_eq_some_iff_append.mp found
    rw [passes, Option.any_eq_true] at here
    obtain ⟨file, kept, same⟩ := here
    exact ⟨front, back, parts, file, kept, of_decide_eq_true same⟩

end Keeps

/-!
## Loading and closing files

The list has the files that are loaded and not yet closed, and only they keep a
dataspace attached and a session open.  A failing load changes nothing unless
attaching the dataspace runs out of memory: then nobody closes the session.
-/

/-- A loaded file. -/
structure File extends Mapped where
  name : List UInt8

/-- The provider, and the files that are loaded and not yet closed. -/
structure Provided where
  prov : FileProv
  loaded : List File

/-- A call. -/
inductive FileEvent where
  | load (call : LoadCall)
  | close (addr : Nat)

/-- How a call ends. -/
inductive FileReply where
  | load (loaded : Loaded)
  | close (rc : UInt32)

/-- The file of a load that succeeds. -/
def LoadCall.file (call : LoadCall) : Option File :=
  match call.filename, call.connection, call.attachment with
  | some name, .connected rom, .attached ds addr size =>
    some ⟨⟨addr, size, 0, ds, rom⟩, name⟩
  | _, _, _ => none

/-- The call makes a session. -/
def LoadCall.Connects (call : LoadCall) : Prop :=
  (∃ name, call.filename = some name ∧ name ≠ []) ∧ call.addr = true ∧
    call.size = true ∧ ∃ rom, call.connection = .connected rom

/-- The load succeeds. -/
def FileReply.Succeeds : FileReply → Prop
  | .load loaded => loaded.ending = .returned 0
  | .close _ => True

namespace FileEvent

/-- A new session is another one, and a dataspace is attached where nothing is, but
not at a null pointer. -/
def Valid (prov : FileProv) : FileEvent → Prop
  | load call =>
    (∀ rom, call.connection = .connected rom → prov.roms rom = none) ∧
      ∀ ds addr size, call.attachment = .attached ds addr size → addr ≠ 0 ∧ prov.rm addr = none
  | close _ => True

/-- Attaching the dataspace of a session does not run out of memory. -/
def Allows : FileEvent → Prop
  | load call => call.Connects → call.attachment ≠ .noMemory
  | close _ => True

/-- A call. -/
def serve (prov : FileProv) : FileEvent → Nat → Option (Run (FileReply × FileProv))
  | load call, fuel =>
    (Prod.map FileReply.load id <$> ·) <$> prov.io_load_file call fuel
  | close addr, fuel =>
    (Prod.map FileReply.close id <$> ·) <$> prov.io_close_file addr fuel

/-- The files that are loaded and not yet closed after a call. -/
def after (event : FileEvent) (reply : FileReply) (loaded : List File) :
    List File :=
  match event, reply with
  | load call, .load ended =>
    if ended.ending = .returned 0 then loaded ++ call.file.toList else loaded
  | close addr, .close _ => Keyed.remove (·.addr) loaded addr
  | _, _ => loaded

end FileEvent

namespace Provided

/-- A call, with its reply. -/
def Serves (world : Provided) (event : FileEvent) (reply : FileReply) (world' : Provided) : Prop :=
  (∃ fuel, event.serve world.prov fuel = some (.ok (reply, world'.prov))) ∧
    world'.loaded = event.after reply world.loaded

/-- The list has the loaded files, each once. -/
def Listed (world : Provided) : Prop := (world.loaded.map (·.addr)).Nodup ∧
    ∃ addresses, Keeps world.prov.nodes world.prov.root addresses (world.loaded.map File.toMapped)

/-- What a call should do: the list is right; a failing load changes nothing; and
closing gives back what the file at the address keeps, or nothing. -/
def Meets (world : Provided) (event : FileEvent) (reply : FileReply) (world' : Provided) : Prop :=
  world'.Listed ∧
    match event with
    | .load _ => ¬ reply.Succeeds → world'.prov = world.prov
    | .close addr =>
      (∀ file ∈ world.loaded, file.addr = addr →
        world'.prov.rm = Function.update world.prov.rm addr none ∧
          world'.prov.roms = Function.update world.prov.roms file.rom none) ∧
        ((∀ file ∈ world.loaded, file.addr ≠ addr) → world'.prov = world.prov)

/-- A step for a call that keeps the list right. -/
def AllowedStep (world world' : Provided) : Prop :=
  ∃ event reply, event.Valid world.prov ∧ event.Allows ∧ world.Serves event reply world'

/-- The list has the loaded files; they and others have regions attached and
sessions open. -/
structure Sound (others : Nat → Option Nat)
    (otherRoms : Nat → Option (List UInt8)) (world : Provided) : Prop where
  listed : world.Listed
  roms : (world.loaded.map (·.rom)).Nodup
  attached : world.prov.rm = Keyed.overlay (·.addr) (·.ds) others world.loaded
  opened : world.prov.roms =
    Keyed.overlay (·.rom) (·.name) otherRoms world.loaded
  free : ∀ file ∈ world.loaded, file.addr ≠ 0 ∧ others file.addr = none ∧ otherRoms file.rom = none

end Provided

section

variable {others : Nat → Option Nat} {otherRoms : Nat → Option (List UInt8)}
  {world : Provided} {call : LoadCall} {addr : Nat}

namespace Provided.Sound

theorem add (sound : Sound others otherRoms world) (file : File)
    (nonzero : file.addr ≠ 0) (detached : world.prov.rm file.addr = none)
    (closed : world.prov.roms file.rom = none) :
    ∃ prov, Settles (((world.prov.connect file.rom file.name).attach file.addr
        file.ds).addNode file.toMapped) (.ok prov) ∧
      Sound others otherRoms ⟨prov, world.loaded ++ [file]⟩ := by
  obtain ⟨unique, addresses, keeps⟩ := sound.listed
  have before : Keeps ((world.prov.connect file.rom file.name).attach file.addr
      file.ds).nodes ((world.prov.connect file.rom file.name).attach file.addr
      file.ds).root addresses (world.loaded.map File.toMapped) := keeps
  obtain ⟨nodes, root, settles, keeps'⟩ := before.addNode file.toMapped
  rw [sound.attached, Keyed.overlay_eq_none_iff] at detached
  rw [sound.opened, Keyed.overlay_eq_none_iff] at closed
  rw [← List.map_singleton (f := File.toMapped), ← List.map_append] at keeps'
  refine ⟨_, settles, ?_⟩
  refine ⟨⟨?_, addresses ++ [_], keeps'⟩, ?_, ?_, ?_, ?_⟩
  · rw [List.map_append, List.map_singleton, ← List.concat_eq_append, List.nodup_concat]
    refine ⟨?_, unique⟩
    simpa using detached.1
  · rw [List.map_append, List.map_singleton, ← List.concat_eq_append, List.nodup_concat]
    refine ⟨?_, sound.roms⟩
    simpa using closed.1
  · rw [Keyed.overlay_concat detached.1, ← sound.attached]
    rfl
  · rw [Keyed.overlay_concat closed.1, ← sound.opened]
    rfl
  · intro other member
    rcases List.mem_append.mp member with known | new
    · exact sound.free other known
    · rw [List.mem_singleton.mp new]
      exact ⟨nonzero, detached.2, closed.2⟩

theorem remove (sound : Sound others otherRoms world)
    {before behind : List File} {file : File} {nodes : Heap Vmdata}
    {root : Pointer} {addresses : List Nat}
    (parts : world.loaded = before ++ file :: behind)
    (keeps : Keeps nodes root addresses ((before ++ behind).map File.toMapped)) :
    Sound others otherRoms ⟨({ world.prov with nodes, root }.detach file.addr).destroy file.rom,
        Keyed.remove (·.addr) world.loaded file.addr⟩ := by
  have unique := sound.listed.1
  have roms := sound.roms
  have member : file ∈ world.loaded := by simp [parts]
  obtain ⟨-, free, closed⟩ := sound.free file member
  have less := Keyed.remove_of_append (parts ▸ unique)
  have less' := Keyed.remove_of_append (parts ▸ roms)
  have sublist : (before ++ behind).Sublist world.loaded := by
    rw [parts]
    exact List.Sublist.append_left (List.sublist_cons_self ..) before
  rw [parts, less]
  refine ⟨⟨(sublist.map _).nodup unique, addresses, keeps⟩, (sublist.map _).nodup roms, ?_, ?_, ?_⟩
  · rw [← less, Keyed.overlay_remove free, ← parts, ← sound.attached]
    rfl
  · rw [← less', Keyed.overlay_remove closed, ← parts, ← sound.opened]
    rfl
  · intro other known
    exact sound.free other (sublist.subset known)

end Provided.Sound

theorem FileProv.destroy_connect {prov : FileProv} {rom : Nat}
    (closed : prov.roms rom = none) (name : List UInt8) :
    (prov.connect rom name).destroy rom = prov := by
  have same : Function.update (Function.update prov.roms rom (some name)) rom
      none = prov.roms := by
    rw [Function.update_idem, ← closed, Function.update_eq_self]
  rw [connect, destroy, same]

theorem FileProv.detach_attach {prov : FileProv} {addr : Nat}
    (detached : prov.rm addr = none) (ds : Nat) :
    (prov.attach addr ds).detach addr = prov := by
  have same : Function.update (Function.update prov.rm addr (some ds)) addr
      none = prov.rm := by
    rw [Function.update_idem, ← detached, Function.update_eq_self]
  rw [attach, detach, same]

theorem FileProv.io_load_file_of_not_connects {prov : FileProv} (connects : ¬ call.Connects) :
    ∃ loaded, loaded.ending ≠ .returned 0 ∧
      ∀ fuel, prov.io_load_file call fuel = some (.ok (loaded, prov)) := by
  cases named : call.filename with
  | none =>
    refine ⟨⟨.returned ERROR_INVALID_PARAMETER, none⟩,
      by simp [ERROR_INVALID_PARAMETER], fun fuel => ?_⟩
    rw [FileProv.io_load_file, named]
  | some name =>
    by_cases bad : name = [] ∨ ¬ (call.addr ∧ call.size)
    · refine ⟨⟨.returned ERROR_INVALID_PARAMETER, none⟩,
        by simp [ERROR_INVALID_PARAMETER], fun fuel => ?_⟩
      rw [FileProv.io_load_file, named]
      exact if_pos bad
    · obtain ⟨nonempty, given⟩ := not_or.mp bad
      obtain ⟨addr, size⟩ := not_not.mp given
      cases connection : call.connection with
      | refused =>
        refine ⟨⟨.returned ERROR_FILE_NOT_FOUND, none⟩,
          by simp [ERROR_FILE_NOT_FOUND], fun fuel => ?_⟩
        rw [FileProv.io_load_file, named, connection]
        exact if_neg bad
      | noMemory =>
        refine ⟨⟨.thrown, none⟩, by simp, fun fuel => ?_⟩
        rw [FileProv.io_load_file, named, connection]
        exact if_neg bad
      | connected rom =>
        exact absurd ⟨⟨name, named, nonempty⟩, addr, size, rom, connection⟩ connects

namespace Provided.Sound

theorem load_settles (sound : Sound others otherRoms world)
    (valid : (FileEvent.load call).Valid world.prov) :
    ∃ loaded prov, Settles (world.prov.io_load_file call) (.ok (loaded, prov)) ∧
      ((loaded.ending = .returned 0 ∧ (FileEvent.load call).Allows ∧
          ∃ file, call.file = some file ∧ Sound others otherRoms ⟨prov, world.loaded ++ [file]⟩) ∨
        (loaded.ending ≠ .returned 0 ∧
          ((FileEvent.load call).Allows ↔ prov = world.prov))) := by
  obtain ⟨sessions, places⟩ := valid
  by_cases connects : call.Connects
  · obtain ⟨⟨name, named, nonempty⟩, addr, size, rom, connected⟩ := connects
    have closed := sessions rom connected
    have unfolded (fuel : Nat) : world.prov.io_load_file call fuel =
        (world.prov.connect rom name).load call rom fuel := by
      rw [FileProv.io_load_file, named]
      simp [nonempty, addr, size, connected]
    have connects : call.Connects := ⟨⟨name, named, nonempty⟩, addr, size, rom, connected⟩
    cases attached : call.attachment with
    | invalid =>
      refine ⟨⟨.returned ERROR_INVALID_PARAMETER, none⟩, world.prov,
        Settles.of_forall fun fuel => ?_, .inr ⟨by simp [ERROR_INVALID_PARAMETER], ?_⟩⟩
      · rw [unfolded, FileProv.load, attached]
        simp only [FileProv.destroy_connect closed]
      · simp [FileEvent.Allows, attached]
    | noMemory =>
      refine ⟨⟨.thrown, none⟩, world.prov.connect rom name,
        Settles.of_forall fun fuel => ?_, .inr ⟨by simp, ?_⟩⟩
      · rw [unfolded, FileProv.load, attached]
      · simp only [FileEvent.Allows, attached, ne_eq, not_true_eq_false,
          imp_false, connects, false_iff]
        intro same
        have opened := congrFun (congrArg FileProv.roms same) rom
        simp [FileProv.connect, closed] at opened
    | attached ds addr size =>
      obtain ⟨nonzero, detached⟩ := places ds addr size attached
      cases room : call.room with
      | true =>
        obtain ⟨prov, settles, sound'⟩ := sound.add
          ⟨⟨addr, size, 0, ds, rom⟩, name⟩ nonzero detached closed
        refine ⟨⟨.returned 0, some (addr, size)⟩, prov, ?_,
          .inl ⟨rfl, by simp [FileEvent.Allows, attached], _, ?_, sound'⟩⟩
        · have whole : world.prov.io_load_file call = fun fuel =>
              andThen (((world.prov.connect rom name).attach addr ds).addNode
                ⟨addr, size, 0, ds, rom⟩ fuel) fun prov =>
                  some (.ok (⟨.returned 0, some (addr, size)⟩, prov)) := by
            funext fuel
            rw [unfolded, FileProv.load, attached]
            exact if_pos room
          rw [whole]
          exact settles.andThen (Settles.const _)
        · simp [LoadCall.file, named, connected, attached]
      | false =>
        refine ⟨⟨.returned ERROR_NOT_ENOUGH_MEMORY, some (addr, size)⟩,
          world.prov, Settles.of_forall fun fuel => ?_,
          .inr ⟨by simp [ERROR_NOT_ENOUGH_MEMORY], ?_⟩⟩
        · have detached' : (world.prov.connect rom name).rm addr = none := detached
          rw [unfolded, FileProv.load, attached]
          simp only [room, FileProv.detach_attach detached', FileProv.destroy_connect closed]
          rfl
        · simp [FileEvent.Allows, attached]
  · obtain ⟨loaded, failed, same⟩ := FileProv.io_load_file_of_not_connects connects
    refine ⟨loaded, world.prov, Settles.of_forall same, .inr ⟨failed, ?_⟩⟩
    simp [FileEvent.Allows, connects]

theorem close_settles (sound : Sound others otherRoms world) (addr : Nat) :
    ∃ rc prov, Settles (world.prov.io_close_file addr) (.ok (rc, prov)) ∧
      Sound others otherRoms ⟨prov, Keyed.remove (·.addr) world.loaded addr⟩ ∧
      (∀ file ∈ world.loaded, file.addr = addr → prov.rm = Function.update world.prov.rm addr none ∧
          prov.roms = Function.update world.prov.roms file.rom none) ∧
      ((∀ file ∈ world.loaded, file.addr ≠ addr) → prov = world.prov) := by
  -- Without a file at the address, nothing happens.
  have nothing (missing : ∀ file ∈ world.loaded, file.addr ≠ addr) :
      Sound others otherRoms ⟨world.prov, Keyed.remove (·.addr) world.loaded addr⟩ ∧
        (∀ file ∈ world.loaded, file.addr = addr →
          world.prov.rm = Function.update world.prov.rm addr none ∧
            world.prov.roms = Function.update world.prov.roms file.rom none) ∧
        ((∀ file ∈ world.loaded, file.addr ≠ addr) → world.prov = world.prov) := by
    rw [Keyed.remove_of_missing missing]
    exact ⟨sound, fun file member same => absurd same (missing file member), fun _ => rfl⟩
  by_cases zero : addr = 0
  · have missing : ∀ file ∈ world.loaded, file.addr ≠ addr := by
      intro file member
      rw [zero]
      exact (sound.free file member).1
    refine ⟨ERROR_INVALID_PARAMETER, world.prov,
      Settles.of_forall fun fuel => if_pos zero, nothing missing⟩
  · obtain ⟨unique, addresses, keeps⟩ := sound.listed
    obtain ⟨found, settles, holds⟩ := keeps.find addr
    have unfolded : world.prov.io_close_file addr = fun fuel =>
        andThen (world.prov.nodes.find (fun node => .ok (node.addr = addr))
            Vmdata.next fuel world.prov.root) fun found =>
          some (match found with
            | none => .ok ((0 : UInt32), world.prov)
            | some address => (0, ·) <$> world.prov.release addr address) := by
      funext fuel
      exact if_neg zero
    rw [unfolded]
    cases found with
    | none =>
      have missing : ∀ file ∈ world.loaded, file.addr ≠ addr := fun file member =>
        holds file.toMapped (List.mem_map_of_mem member)
      exact ⟨0, world.prov, settles.andThen (Settles.const _), nothing missing⟩
    | some address =>
      obtain ⟨front, back, rfl, mapped, kept, same⟩ := holds
      obtain ⟨before, file, behind, parts, first, here, last⟩ := keeps.split
      rw [kept] at here
      cases here
      obtain ⟨before, rest, whole, rfl, ends⟩ := List.map_eq_append_iff.mp parts
      obtain ⟨file, behind, rfl, rfl, rfl⟩ := List.map_eq_cons_iff.mp ends
      obtain ⟨nodes, root, released, keeps'⟩ := Keeps.release addr keeps.linked first kept last
      rw [← List.map_append] at keeps'
      subst same
      refine ⟨0, _, settles.andThen ?_, sound.remove whole keeps', ?_, ?_⟩
      · simp only [released]
        exact Settles.const _
      · intro other member same
        have equal := List.inj_on_of_nodup_map unique member
          (show file ∈ world.loaded by simp [whole]) same
        rw [equal]
        exact ⟨rfl, rfl⟩
      · intro missing
        exact absurd rfl (missing file (by simp [whole]))

/-- What a call does. -/
theorem step (sound : Sound others otherRoms world) {event : FileEvent}
    (valid : event.Valid world.prov) :
    ∃ reply prov, Settles (event.serve world.prov) (.ok (reply, prov)) ∧ (event.Allows →
        Sound others otherRoms ⟨prov, event.after reply world.loaded⟩) ∧
      (event.Allows ↔
        world.Meets event reply ⟨prov, event.after reply world.loaded⟩) := by
  cases event with
  | load call =>
    obtain ⟨ended, prov, settles, outcome⟩ := sound.load_settles valid
    refine ⟨.load ended, prov, settles.map (Prod.map FileReply.load id), ?_⟩
    rcases outcome with ⟨succeeds, allowed, file, loaded, sound'⟩ | ⟨fails, same⟩
    · have after : (FileEvent.load call).after (.load ended) world.loaded =
          world.loaded ++ [file] := by
        rw [FileEvent.after, if_pos succeeds, loaded]
        rfl
      rw [after]
      exact ⟨fun _ => sound', fun _ => ⟨sound'.listed, fun fails =>
        absurd succeeds fails⟩, fun _ => allowed⟩
    · have after : (FileEvent.load call).after (.load ended) world.loaded =
          world.loaded := by rw [FileEvent.after, if_neg fails]
      rw [after, same]
      refine ⟨fun same => same ▸ sound, fun same => ?_, fun meets => ?_⟩
      · exact ⟨same ▸ sound.listed, fun _ => same⟩
      · exact meets.2 fails
  | close addr =>
    obtain ⟨rc, prov, settles, sound', gives, nothing⟩ := sound.close_settles addr
    exact ⟨.close rc, prov, settles.map (Prod.map FileReply.close id),
      fun _ => sound', fun _ => ⟨sound'.listed, gives, nothing⟩, fun _ => trivial⟩

end Provided.Sound

end

namespace Provided

/-- After calls in which attaching a dataspace does not run out of memory, the list
has the files that are loaded and not yet closed, and they and others have regions
attached and sessions open; and a call ends as it should if and only if the same
holds for it. -/
theorem files_kept {prov : FileProv} (empty : prov.root = none)
    {world : Provided} (run : RunsTo AllowedStep ⟨prov, []⟩ world) :
    world.Listed ∧ world.prov.rm = Keyed.overlay (·.addr) (·.ds) prov.rm world.loaded ∧
      world.prov.roms = Keyed.overlay (·.rom) (·.name) prov.roms world.loaded ∧
      ∀ event : FileEvent, event.Valid world.prov →
        (event.Allows ↔ ∃ reply world', world.Serves event reply world' ∧
          world.Meets event reply world') := by
  have start : Sound prov.rm prov.roms ⟨prov, []⟩ := by
    refine ⟨⟨List.nodup_nil, [], empty, rfl⟩, List.nodup_nil, rfl, rfl, ?_⟩
    intro file member
    cases member
  have sound : Sound prov.rm prov.roms world := by
    refine run.preserves ?_ start
    rintro state ⟨prov', loaded'⟩ sound ⟨event, reply, valid, allowed, ⟨fuel, served⟩, rfl⟩
    obtain ⟨reply', prov'', settles, sound', -⟩ := sound.step valid
    cases settles.returned fuel _ served
    exact sound' allowed
  refine ⟨sound.listed, sound.attached, sound.opened, ?_⟩
  intro event valid
  obtain ⟨reply, prov', settles, -, meets⟩ := sound.step valid
  constructor
  · intro allowed
    exact ⟨reply, ⟨prov', event.after reply world.loaded⟩,
      ⟨(settles.exists_iff _).mpr rfl, rfl⟩, meets.mp allowed⟩
  · rintro ⟨reply', ⟨prov'', loaded⟩, ⟨⟨fuel, served⟩, rfl⟩, met⟩
    cases settles.returned fuel _ served
    exact meets.mpr met

/-- A file is loaded. -/
theorem files_kept_one_load : ∃ prov world, prov.root = none ∧ RunsTo AllowedStep ⟨prov, []⟩ world ∧
      world.loaded = [⟨⟨4096, 100, 0, 7, 5⟩, [97]⟩] ∧ world.Listed := by
  let prov : FileProv := ⟨Heap.empty, none, fun _ => none, fun _ => none⟩
  let call : LoadCall := ⟨some [97], true, true, .connected 5, .attached 7 4096 100, true⟩
  have valid : (FileEvent.load call).Valid prov := by
    refine ⟨fun _ _ => rfl, ?_⟩
    rintro ds addr size ⟨⟩
    exact ⟨by decide, rfl⟩
  have allows : (FileEvent.load call).Allows := by
    rintro - ⟨⟩
  have run : ∃ world, RunsTo AllowedStep ⟨prov, []⟩ world ∧
      world.loaded = [⟨⟨4096, 100, 0, 7, 5⟩, [97]⟩] :=
    ⟨⟨_, _⟩, .single ⟨.load call, _, valid, allows, ⟨0, rfl⟩, rfl⟩, rfl⟩
  obtain ⟨world, run, loaded⟩ := run
  exact ⟨prov, world, rfl, run, loaded, (files_kept rfl run).1⟩

/-- Attaching the dataspace runs out of memory, and the session stays open. -/
theorem session_stays_open : ∃ prov prov' : FileProv, ∃ call : LoadCall,
      (FileEvent.load call).Valid prov ∧
      (∃ fuel, prov.io_load_file call fuel = some (.ok (⟨.thrown, none⟩, prov'))) ∧
      prov.roms 5 = none ∧ prov'.roms 5 = some [97] := by
  let prov : FileProv := ⟨Heap.empty, none, fun _ => none, fun _ => none⟩
  let call : LoadCall := ⟨some [97], true, true, .connected 5, .noMemory, true⟩
  refine ⟨prov, prov.connect 5 [97], call, ⟨fun _ _ => rfl, ?_⟩, ⟨0, rfl⟩, rfl, rfl⟩
  rintro ds addr size ⟨⟩

end Provided

end OsFree.Compat
