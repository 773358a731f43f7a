import OsFree.Mfsd.Calls

/-!
# Reads of the mini file system

A read of a file that is open returns the bytes of the module that the file has been
opened on, from the position of the file on, and touches nothing else.
-/

namespace OsFree.Mfsd

section

open Machine Machine.SegmentCopy

/-- The size of a module. -/
def Module.size (mod : Module) : Nat := mod.mod_end.toNat - mod.mod_start.toNat

/-- The bytes of a module are in the memory. -/
def Module.Present (mod : Module) (memory : UInt32 → Option UInt8) : Prop :=
  ∀ address, mod.mod_start ≤ address → address < mod.mod_end → ∃ byte, memory address = some byte

/-- What a read of a file on a module should do: as many bytes as are asked for and
left come into the buffer, and only the position of the file moves, by as many.
With no bytes left the length is 0 or the result an error. -/
structure ReadResult.Meets (result : ReadResult) (driver : Driver) (file : Nat)
    (mod : Module) (memory : UInt32 → Option UInt8) (data pLen : UInt16)
    (segment : Segment) (n : Nat) : Prop where
  count : n = min pLen.toNat (mod.size - (driver.records file).sfi_position.toNat)
  read : 0 < n → result.rc = .noError ∧ result.len.toNat = n
  atEnd : n = 0 → result.rc ≠ .noError ∨ result.len = 0
  bytes : ∀ i : UInt16, i.toNat < n →
    memory (mod.mod_start + (driver.records file).sfi_position + i.toUInt32) =
      some (result.segment (data + i))
  rest : ∀ offset, n ≤ (offset - data).toNat → result.segment offset = segment offset
  moves : driver.Moves result.driver file
  position : (result.driver.records file).sfi_position =
    (driver.records file).sfi_position + UInt32.ofNat n

/-- Each read of a file on a module does what it should, and it does so when no
byte but those of the module is in the memory. -/
def World.ReadsWell (world : World) : Prop := ∀ file mod, world.opened file = some (.module mod) →
    ∀ memory, mod.Present memory → ∀ data pLen segment volio, pLen ≠ 0 → ∃ result n,
        world.driver.FS_READ memory file (some data) pLen segment volio = .ok result ∧
          result.Meets world.driver file mod memory data pLen segment n

section

variable {driver : Driver} {file : Nat} {mod : Module}
  {memory : UInt32 → Option UInt8} {data pLen : UInt16} {segment : Segment}
  {volio : Option (UInt16 × Segment)}

theorem size_toNat : (mod.mod_end - mod.mod_start).toNat = mod.size :=
  UInt32.toNat_sub_of_le _ _ mod.ordered

theorem address_toNat {position : UInt32} {i : UInt16}
    (inside : position.toNat + i.toNat < mod.size) :
    (mod.mod_start + position + i.toUInt32).toNat =
      mod.mod_start.toNat + position.toNat + i.toNat := by
  have bound := mod.mod_end.toNat_lt
  unfold Module.size at inside
  rw [UInt32.toNat_add, UInt32.toNat_add, UInt16.toNat_toUInt32]
  omega

theorem present_at (present : mod.Present memory) {position : UInt32} {i : UInt16}
    (inside : position.toNat + i.toNat < mod.size) :
    ∃ byte, memory (mod.mod_start + position + i.toUInt32) = some byte := by
  have address := address_toNat inside
  unfold Module.size at inside
  exact present (mod.mod_start + position + i.toUInt32) (UInt32.le_iff_toNat_le.mpr (by omega))
    (UInt32.lt_iff_toNat_lt.mpr (by omega))

theorem chunk_toNat {position : UInt32} (inside : position ≤ mod.mod_end - mod.mod_start) :
    (if pLen.toUInt32 < mod.mod_end - mod.mod_start - position then pLen.toUInt32
      else mod.mod_end - mod.mod_start - position).toNat =
      min pLen.toNat (mod.size - position.toNat) := by
  have left : (mod.mod_end - mod.mod_start - position).toNat =
      mod.size - position.toNat := by
    rw [UInt32.toNat_sub_of_le _ _ inside, size_toNat]
  split
  · rename_i less
    rw [UInt32.lt_iff_toNat_lt, UInt16.toNat_toUInt32, left] at less
    rw [UInt16.toNat_toUInt32]
    omega
  · rename_i more
    rw [UInt32.lt_iff_toNat_lt, UInt16.toNat_toUInt32, left] at more
    omega

theorem mfsRead_of_past (asked : pLen ≠ 0) (past : driver.filemax < driver.filepos)
    (fileaddr : UInt32) :
    driver.MFS_READ memory fileaddr (some data) pLen segment =
      .ok ⟨.seek, pLen, segment, driver⟩ := by
  unfold Driver.MFS_READ
  dsimp only
  rw [if_neg asked, if_pos past]

theorem mfsRead_of_inside (asked : pLen ≠ 0) (present : mod.Present memory)
    (size : driver.filemax = mod.mod_end - mod.mod_start)
    (inside : driver.filepos ≤ driver.filemax) :
    ∃ chunk : UInt32, chunk.toNat = min pLen.toNat (mod.size - driver.filepos.toNat) ∧
        driver.MFS_READ memory (mod.mod_start + driver.filepos) (some data) pLen segment =
          .ok ⟨.noError, chunk.toUInt16, SegmentCopy.stored segment data chunk.toUInt16 fun i =>
              (memory (mod.mod_start + driver.filepos + i.toUInt32)).getD 0,
            { driver with filepos := driver.filepos + chunk }⟩ := by
  rw [size] at inside
  have count := @chunk_toNat mod pLen _ inside
  refine ⟨_, count, ?_⟩
  unfold Driver.MFS_READ
  dsimp only
  rw [if_neg asked, size, if_neg (UInt32.not_lt.mpr inside), memmove_eq, bind_ok]
  intro i less
  rw [UInt16.lt_iff_toNat_lt, UInt32.toNat_toUInt16, count] at less
  rw [UInt16.zero_add]
  obtain ⟨byte, here⟩ := @present_at mod memory present driver.filepos i (by omega)
  unfold readByte
  rw [here]
  rfl

theorem read_meets (record : (Target.module mod).Of (driver.records file))
    (present : mod.Present memory) (asked : pLen ≠ 0) :
    ∃ result n, driver.FS_READ memory file (some data) pLen segment volio = .ok result ∧
        result.Meets driver file mod memory data pLen segment n := by
  obtain ⟨direct, base, size⟩ := record
  -- The read comes down to one of the module, from the position on.
  obtain ⟨inner, innerEq⟩ : ∃ inner : Driver, inner = { driver with
        filemax := mod.mod_end - mod.mod_start
        filepos := (driver.records file).sfi_position
        filebase := mod.mod_start } := ⟨_, rfl⟩
  have read : driver.FS_READ memory file (some data) pLen segment volio =
      inner.MFS_READ memory (mod.mod_start + inner.filepos) (some data) pLen
        segment >>= fun result => .ok { result with
          driver := result.driver.setRecord file { driver.records file with
              sfi_position := result.driver.filepos } } := by
    unfold Driver.FS_READ
    dsimp only
    rw [direct, base, size, innerEq]
    rfl
  have filemax : inner.filemax = mod.mod_end - mod.mod_start := by rw [innerEq]
  have filepos : inner.filepos = (driver.records file).sfi_position := by rw [innerEq]
  by_cases past : inner.filemax < inner.filepos
  · have beyond : mod.size ≤ (driver.records file).sfi_position.toNat := by
      rw [← size_toNat, ← filemax, ← filepos]
      exact Nat.le_of_lt (UInt32.lt_iff_toNat_lt.mp past)
    rw [read, mfsRead_of_past asked past, bind_ok]
    refine ⟨_, 0, rfl, ?_⟩
    rw [innerEq]
    constructor
    · omega
    · intro less
      exact absurd less (Nat.lt_irrefl 0)
    · intro _
      exact Or.inl (by simp)
    · intro i less
      exact absurd less (Nat.not_lt_zero _)
    · intro offset _
      rfl
    · exact ⟨rfl, rfl, rfl, _, rfl⟩
    · simp [Driver.setRecord]
  · obtain ⟨chunk, count, came⟩ := @mfsRead_of_inside inner mod memory data pLen
      segment asked present filemax (UInt32.not_lt.mp past)
    rw [filepos] at count
    have bound := pLen.toNat_lt
    have short : chunk.toUInt16.toNat = chunk.toNat := by
      rw [UInt32.toNat_toUInt16]
      omega
    rw [read, came, bind_ok]
    refine ⟨_, chunk.toNat, rfl, ?_⟩
    rw [innerEq]
    constructor
    · exact count
    · intro _
      exact ⟨rfl, short⟩
    · intro none
      exact Or.inr (UInt16.toNat.inj (short.trans none))
    · intro i less
      obtain ⟨byte, here⟩ := @present_at mod memory present
        (driver.records file).sfi_position i (by omega)
      have place : data + i - data = i := by grind
      have inChunk : i < chunk.toUInt16 := UInt16.lt_iff_toNat_lt.mpr (by omega)
      simp only [SegmentCopy.stored, place, if_pos inChunk, here, Option.getD_some]
    · intro offset beyond
      have behind : ¬ offset - data < chunk.toUInt16 := by
        rw [UInt16.lt_iff_toNat_lt]
        omega
      exact if_neg behind
    · exact ⟨rfl, rfl, rfl, _, rfl⟩
    · simp [Driver.setRecord]

end

section

variable {loaded : Loaded} {world start : World}

theorem openName_returns {name : CallerName} (some : name.text ≠ []) :
    ∃ p, openName name = .ok p ∧ 0 ∉ p := by
  unfold openName
  rw [if_neg some]
  split
  · exact ⟨_, rfl, fun member => name.nonzero (List.mem_of_mem_drop member)⟩
  · exact ⟨_, rfl, name.nonzero⟩

theorem World.openCreate_returns {file : Nat} {name : CallerName} {dasd : Bool}
    (allowed : world.Allows loaded (.openCreate dasd file name)) :
    Returns (world.driver.FS_OPENCREATE loaded.modules dasd file name) := by
  unfold Driver.FS_OPENCREATE
  cases dasd with
  | true =>
    obtain ⟨root, short, free⟩ := allowed
    rw [if_pos rfl, if_pos root]
    refine returns_bind_iff.mpr ((Driver.save_returns short ?_).imp
      fun driver' saved => ⟨saved, _, rfl⟩)
    exact free
  | false =>
    obtain ⟨some, looked⟩ := allowed
    obtain ⟨p, named, nonzero⟩ := openName_returns some
    obtain ⟨comparable, fits⟩ := looked p named
    obtain ⟨found, opened⟩ := MFS_OPEN_returns nonzero comparable
    unfold Driver.file_open
    rw [if_neg (by decide), named, bind_ok, opened, bind_ok]
    cases found with
    | none => exact ⟨_, rfl⟩
    | some mod =>
      obtain ⟨short, free⟩ := fits mod opened
      rw [bind_ok]
      refine returns_bind_iff.mpr ((Driver.save_returns short ?_).imp
        fun driver' saved => ⟨saved, _, rfl⟩)
      exact free

theorem World.serve_returns (sound : world.Sound loaded) {call : Call}
    (valid : world.Valid call) (allowed : world.Allows loaded call) :
    Returns (world.serve loaded call) := by
  cases call with
  | openCreate dasd file name =>
    obtain ⟨⟨opened, driver⟩, created⟩ := World.openCreate_returns allowed
    rw [World.serve, created, bind_ok]
    cases opened with
    | none => exact ⟨_, rfl⟩
    | some target => exact ⟨_, rfl⟩
  | read file pData pLen segment volio =>
    obtain ⟨held, buffer, asked⟩ := valid
    obtain ⟨target, here⟩ := Option.ne_none_iff_exists'.mp held
    obtain ⟨data, rfl⟩ := Option.ne_none_iff_exists'.mp buffer
    obtain ⟨record, known⟩ := sound.record file target here
    have read : Returns (world.driver.FS_READ loaded.memory file (some data) pLen
        segment volio) := by
      cases target with
      | module mod =>
        obtain ⟨result, n, read, -⟩ := @read_meets world.driver file mod
          loaded.memory data pLen segment volio record
          (loaded.present mod (known mod rfl)) asked
        exact ⟨result, read⟩
      | drive =>
        have direct : (world.driver.records file).direct ≠ 0 := record
        unfold Driver.FS_READ
        rw [if_pos direct]
        cases volio with
        | none => exact ⟨_, rfl⟩
        | some given => exact ⟨_, rfl⟩
    obtain ⟨result, read⟩ := read
    rw [World.serve, read, bind_ok]
    exact ⟨_, rfl⟩
  | chgFilePtr file offset type => exact ⟨_, rfl⟩
  | close file =>
    obtain ⟨slot, index, -, -⟩ := sound.slots.slot file valid
    have number : (world.driver.records file).index = slot.val := index
    have inside : (world.driver.records file).index < 0x80 := number ▸ slot.isLt
    rw [World.serve, Driver.FS_CLOSE, dif_pos inside, bind_ok]
    exact ⟨_, rfl⟩

/-- In every run of allowed calls each read of a file on a module returns the bytes of
the module from the position of the file on, and moves that position only; and every
allowed call comes back. -/
theorem reads_of_run (started : start.Started)
    (run : RunsTo (World.AllowedStep loaded) start world) :
    world.ReadsWell ∧ ∀ call, world.Valid call → world.Allows loaded call →
        Returns (world.serve loaded call) := by
  have sound := World.sound_of_run started run
  refine ⟨?_, fun call => World.serve_returns sound⟩
  intro file mod here memory present data pLen segment volio asked
  exact read_meets (sound.record file _ here).1 present asked

end

/-- A module of four bytes with a command line. -/
def lineModule (cmdline : List UInt8) (nonzero : 0 ∉ cmdline) : Module :=
  ⟨0x1000, 0x1004, cmdline, by decide, nonzero⟩

/-- One module, in a memory that has all bytes. -/
def loadedModule (mod : Module) : Loaded where
  modules := [mod]
  memory address := some address.toUInt8
  present _ _ address _ _ := ⟨address.toUInt8, rfl⟩

/-- A driver with no files. -/
def closedWorld : World where
  driver := ⟨0, 0, 0, 0, fun _ => false, fun _ => ⟨0, []⟩, 0, fun _ => ⟨0, 0, 0, 0, 0⟩⟩
  opened _ := none

theorem closedWorld_started : closedWorld.Started := ⟨fun _ => rfl, fun _ => rfl, rfl⟩

/-- The name `a`. -/
def nameA : CallerName := ⟨[0x61], fun _ => 0, by decide⟩

/-- A module with the command line `a`. -/
def moduleA : Module := lineModule [0x61] (by decide)

theorem openA_allowed :
    closedWorld.Allows (loadedModule moduleA) (.openCreate false 0 nameA) := by
  refine ⟨by decide, fun p named => ?_⟩
  cases named
  refine ⟨fun n mod here _ => ?_, fun _ _ => ⟨by decide, 0, rfl⟩⟩
  cases n with
  | zero =>
    cases here
    exact ⟨⟨by decide, 0x61, by decide⟩, ⟨by decide, 0x61, by decide⟩,
      fun full => absurd full (by decide)⟩
  | succ n => cases here

/-- The file `a` is read well after it has been opened. -/
theorem fileA_readsWell : ∃ world, world.opened 0 = some (.module moduleA) ∧
      RunsTo (World.AllowedStep (loadedModule moduleA)) closedWorld world ∧
      world.ReadsWell := by
  have step : ∃ world, closedWorld.serve (loadedModule moduleA)
      (.openCreate false 0 nameA) = .ok world ∧
        world.opened 0 = some (.module moduleA) := ⟨_, rfl, rfl⟩
  obtain ⟨world, served, opened⟩ := step
  have run : RunsTo (World.AllowedStep (loadedModule moduleA)) closedWorld world :=
    .single ⟨.openCreate false 0 nameA, rfl, openA_allowed, served⟩
  exact ⟨world, opened, run, (reads_of_run closedWorld_started run).1⟩

/-- A module whose command line has `0x100` characters. -/
def longModule : Module := lineModule (List.replicate 0x100 0x61) fun member =>
    absurd (List.eq_of_mem_replicate member) (by decide)

/-- With a long command line among the modules the first attempt to open a file writes
behind the buffer on the stack. -/
theorem longLine_overflows : closedWorld.Valid (.openCreate false 0 nameA) ∧
      closedWorld.serve (loadedModule longModule) (.openCreate false 0 nameA) =
        .error .writeOutside := by
  have length : longModule.cmdline.length = 0x100 := List.length_replicate
  have overflows : strcpy (List.replicate 0x100 0) longModule.cmdline =
      .error .writeOutside := by
    unfold strcpy
    rw [length]
    exact if_pos (by decide)
  have opened : MFS_OPEN (loadedModule longModule).modules [0x61] =
      .error .writeOutside := by
    unfold MFS_OPEN loadedModule
    rw [findModule, overflows, bind_error]
  have named : openName nameA = .ok [0x61] := rfl
  refine ⟨rfl, ?_⟩
  rw [World.serve, Driver.FS_OPENCREATE, if_neg (by decide), Driver.file_open,
    named, bind_ok, opened]
  rfl

end

/-!
## The slots of the mini file system

The files that are open and the slots in use belong to each other, so that all files
can be opened again in the real file system.
-/

open Machine

/-- Each file that is open has the one slot that its record names, the slots in use are
all of such files and are counted, and the names in them end. -/
structure World.SlotsMatch (world : World) : Prop where
  saved : ∀ file, world.opened file ≠ none ↔ ∃ slot, world.driver.save_map slot = true ∧
      (world.driver.save_area slot).file = file
  unique : ∀ slot slot', world.driver.save_map slot = true → world.driver.save_map slot' = true →
    (world.driver.save_area slot).file = (world.driver.save_area slot').file → slot = slot'
  index : ∀ slot, world.driver.save_map slot = true →
    (world.driver.records (world.driver.save_area slot).file).index = slot.val ∧ slot.val < 0x80
  count : world.driver.open_files =
    (Finset.univ.filter fun slot => world.driver.save_map slot = true).card
  named : ∀ slot, world.driver.save_map slot = true →
    (world.driver.save_area slot).pName.length = 0x3a ∧ 0 ∈ (world.driver.save_area slot).pName

section

variable {loaded : Loaded} {world start : World}

theorem World.Sound.slotsMatch (sound : world.Sound loaded) : world.SlotsMatch where
  saved := by
    intro file
    constructor
    · intro held
      obtain ⟨slot, -, marked, owner⟩ := sound.slots.slot file held
      exact ⟨slot, marked, owner⟩
    · rintro ⟨slot, marked, rfl⟩
      exact (sound.slots.owner slot marked).1
  unique slot slot' marked marked' same := sound.slots.injective marked marked' same
  index slot marked := ⟨(sound.slots.owner slot marked).2, slot.isLt⟩
  count := sound.count
  named slot marked := (sound.named slot marked).symm

/-- In every run of allowed calls the files that are open and the slots in use match,
and every allowed call comes back. -/
theorem slots_of_run (started : start.Started)
    (run : RunsTo (World.AllowedStep loaded) start world) :
    world.SlotsMatch ∧ ∀ call, world.Valid call → world.Allows loaded call →
        Returns (world.serve loaded call) := by
  have sound := World.sound_of_run started run
  exact ⟨sound.slotsMatch, fun call => World.serve_returns sound⟩

end

/-- A file and the slots after it has been opened and closed again. -/
theorem openClose_slotsMatch :
    ∃ world, RunsTo (World.AllowedStep (loadedModule moduleA)) closedWorld world ∧
      world.driver.open_files = 0 ∧ world.SlotsMatch := by
  have step : ∃ world, closedWorld.serve (loadedModule moduleA)
      (.openCreate false 0 nameA) = .ok world ∧ world.opened 0 = some (.module moduleA) ∧
        ∃ world', world.serve (loadedModule moduleA) (.close 0) = .ok world' ∧
          world'.driver.open_files = 0 := ⟨_, rfl, rfl, _, rfl, rfl⟩
  obtain ⟨world, served, opened, world', closed, none⟩ := step
  have valid : world.Valid (.close 0) := by
    rw [World.Valid, opened]
    simp
  have run : RunsTo (World.AllowedStep (loadedModule moduleA)) closedWorld world' :=
    .head ⟨.openCreate false 0 nameA, rfl, openA_allowed, served⟩
      (.single ⟨.close 0, valid, trivial, closed⟩)
  exact ⟨world', run, none, (slots_of_run closedWorld_started run).1⟩

/-- The name `C:`. -/
def nameDrive : CallerName := ⟨[0x43, 0x3a], fun _ => 0, by decide⟩

/-- A drive that is not named by its root is opened with a code that was never set, and
in a driver with all slots in use the search for a slot leaves the map. -/
theorem openCreate_neverRefuses : closedWorld.Valid (.openCreate true 0 nameDrive) ∧
      closedWorld.serve (loadedModule moduleA) (.openCreate true 0 nameDrive) =
        .error .uninitialised ∧
      Driver.freeSlot { closedWorld.driver with save_map := fun _ => true } =
        .error .readOutside :=
  ⟨rfl, rfl, rfl⟩

end OsFree.Mfsd
