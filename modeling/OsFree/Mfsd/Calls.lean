import OsFree.Machine.Transition
import OsFree.Mfsd.Files

/-!
# What the calls of the mini file system preserve

The record of a file that is open says what it has been opened on and in which slot it
is saved, and each slot in use is that of a file that is open.
-/

namespace OsFree.Mfsd

open Machine Machine.SegmentCopy

/-- The record of a file that has been opened on a module or a drive. -/
def Target.Of (record : FileRecord) : Target → Prop
  | .module mod =>
    record.direct = 0 ∧ record.base = mod.mod_start ∧ record.sfi_size = mod.mod_end - mod.mod_start
  | .drive => record.direct ≠ 0

/-- The slots of the driver, with the files for owners. -/
def Driver.slots (driver : Driver) : SlotOwners 0x80 Nat where
  marks := driver.save_map
  owner slot := (driver.save_area slot).file
  index file := (driver.records file).index

/-- The records of the files that are open are right, the slots are theirs, and the
saved names end. -/
structure World.Sound (loaded : Loaded) (world : World) : Prop where
  record : ∀ file target, world.opened file = some target →
    target.Of (world.driver.records file) ∧ ∀ mod, target = .module mod → mod ∈ loaded.modules
  slots : world.driver.slots.Matches fun file => world.opened file ≠ none
  count : world.driver.open_files = SlotOwners.count world.driver.save_map
  named : ∀ slot, world.driver.save_map slot = true → 0 ∈ (world.driver.save_area slot).pName ∧
      (world.driver.save_area slot).pName.length = 0x3a

section

variable {driver driver' : Driver} {modules : List Module} {file : Nat}
  {name : CallerName} {memory : UInt32 → Option UInt8}

theorem mem_mapString {buf : List UInt8} (f : UInt8 → UInt8) (ends : 0 ∈ buf) :
    0 ∈ mapString f buf := by
  refine List.mem_append_right _ ?_
  rw [← List.takeWhile_append_dropWhile (p := (· != 0)) (l := buf), List.mem_append] at ends
  rcases ends with early | late
  · exact absurd (List.mem_takeWhile_imp early) (by decide)
  · exact late

theorem length_mapString (f : UInt8 → UInt8) (buf : List UInt8) :
    (mapString f buf).length = buf.length := by
  unfold mapString
  rw [List.length_append, List.length_map, ← List.length_append, List.takeWhile_append_dropWhile]

theorem CallerName.length_bytes (name : CallerName) (n : Nat) :
    (name.bytes n).length = n := by
  unfold CallerName.bytes
  simp
  omega

theorem savedName_returns (short : name.text.length < 0x3a) :
    Returns (savedName name) := by
  refine ⟨_, if_pos ?_⟩
  unfold CallerName.bytes
  rw [List.take_append, List.mem_append]
  right
  obtain ⟨rest, left⟩ := Nat.exists_eq_succ_of_ne_zero (Nat.sub_ne_zero_of_lt short)
  rw [left, List.take_succ_cons]
  exact List.mem_cons_self

namespace Driver

theorem freeSlot_returns (free : ∃ slot, driver.save_map slot = false) :
    Returns driver.freeSlot := by
  obtain ⟨slot, unmarked⟩ := free
  unfold freeSlot
  cases found : (List.finRange 0x80).find? fun slot => !driver.save_map slot with
  | none =>
    have marked := List.find?_eq_none.mp found slot (List.mem_finRange slot)
    simp [unmarked] at marked
  | some slot => exact ⟨slot, rfl⟩

theorem free_of_freeSlot {slot : Fin 0x80} (found : driver.freeSlot = .ok slot) :
    driver.save_map slot = false := by
  unfold freeSlot at found
  split at found
  · cases found
  · rename_i here
    cases found
    simpa using List.find?_some here

theorem eq_of_save (saved : driver.save file name = .ok driver') :
    ∃ slot pName, driver.save_map slot = false ∧ (0 ∈ pName ∧ pName.length = 0x3a) ∧
      driver' = Driver.setRecord { driver with
          save_map := Function.update driver.save_map slot true
          save_area := Function.update driver.save_area slot ⟨file, pName⟩ }
        file { driver.records file with index := slot.val } := by
  unfold save at saved
  simp only [bind_eq_ok_iff] at saved
  obtain ⟨slot, found, pName, fits, saved⟩ := saved
  unfold savedName at fits
  dsimp only at fits
  split at fits
  · rename_i ends
    cases fits
    cases saved
    refine ⟨slot, _, free_of_freeSlot found, ⟨mem_mapString tolower ends, ?_⟩, rfl⟩
    rw [length_mapString, CallerName.length_bytes]
  · cases fits

theorem save_returns (short : name.text.length < 0x3a)
    (free : ∃ slot, driver.save_map slot = false) :
    Returns (driver.save file name) := by
  obtain ⟨slot, found⟩ := freeSlot_returns free
  obtain ⟨pName, fits⟩ := savedName_returns short
  unfold save
  rw [found, bind_ok, fits, bind_ok]
  exact ⟨_, rfl⟩

/-- The driver after a file has been opened, before it is saved: one more file is
counted, only its record has changed, and that is of what it has been opened on. -/
structure Opens (driver driver' : Driver) (file : Nat) (target : Target) :
    Prop where
  save_map : driver'.save_map = driver.save_map
  save_area : driver'.save_area = driver.save_area
  open_files : driver'.open_files = driver.open_files + 1
  others : ∀ other, other ≠ file → driver'.records other = driver.records other
  record : target.Of (driver'.records file)

theorem eq_of_openCreate {dasd : Bool} {opened : Option Target}
    (served : driver.FS_OPENCREATE modules dasd file name = .ok (opened, driver')) :
    (opened = none ∧ driver' = driver.setRecord file
      { driver.records file with direct := 0 }) ∨
    ∃ target driver₁, opened = some target ∧ driver.Opens driver₁ file target ∧
      driver₁.save file name = .ok driver' ∧
      ∀ mod, target = .module mod → mod ∈ modules := by
  unfold FS_OPENCREATE at served
  split at served
  · split at served
    · rw [bind_eq_ok_iff] at served
      obtain ⟨after, saved, same⟩ := served
      cases same
      refine Or.inr ⟨.drive, _, rfl, ?_, saved, fun mod same => by cases same⟩
      refine ⟨rfl, rfl, rfl, fun other apart => ?_, ?_⟩
      · exact Function.update_of_ne apart _ _
      · simp [setRecord, Target.Of]
    · cases served
  · rw [bind_eq_ok_iff] at served
    obtain ⟨⟨found, driver₁⟩, looked, rest⟩ := served
    unfold file_open at looked
    simp only [bind_eq_ok_iff] at looked
    obtain ⟨p, -, found', here, looked⟩ := looked
    cases found' with
    | none =>
      cases looked
      cases rest
      exact Or.inl ⟨rfl, rfl⟩
    | some mod =>
      cases looked
      rw [bind_eq_ok_iff] at rest
      obtain ⟨after, saved, same⟩ := rest
      cases same
      refine Or.inr ⟨.module mod, _, rfl, ?_, saved, ?_⟩
      · refine ⟨rfl, rfl, rfl, fun other apart => ?_, ?_⟩
        · simp [setRecord, apart]
        · simp [setRecord, Target.Of]
      · rintro mod' same
        cases same
        exact mem_of_findModule here

/-- Nothing but the position of a file has changed in the records and the slots. -/
structure Moves (driver driver' : Driver) (file : Nat) : Prop where
  save_map : driver'.save_map = driver.save_map
  save_area : driver'.save_area = driver.save_area
  open_files : driver'.open_files = driver.open_files
  records : ∃ position, driver'.records = Function.update driver.records file
    { driver.records file with sfi_position := position }

theorem same_of_mfsRead {fileaddr : UInt32} {data : Option UInt16}
    {length : UInt16} {segment : Segment} {result : ReadResult}
    (read : driver.MFS_READ memory fileaddr data length segment = .ok result) :
    ∃ position, result.driver = { driver with filepos := position } := by
  unfold MFS_READ at read
  split at read
  · cases read
    exact ⟨driver.filepos, rfl⟩
  · dsimp only at read
    split at read
    · cases read
      exact ⟨driver.filepos, rfl⟩
    · split at read
      · cases read
        exact ⟨driver.filepos, rfl⟩
      · rw [bind_eq_ok_iff] at read
        obtain ⟨segment', -, same⟩ := read
        cases same
        exact ⟨_, rfl⟩

theorem moves_of_read {pData : Option UInt16} {pLen : UInt16} {segment : Segment}
    {volio : Option (UInt16 × Segment)} {result : ReadResult}
    (read : driver.FS_READ memory file pData pLen segment volio = .ok result) :
    driver.Moves result.driver file := by
  unfold FS_READ at read
  dsimp only at read
  split at read
  · split at read
    · cases read
      exact ⟨rfl, rfl, rfl, _, rfl⟩
    · cases read
      exact ⟨rfl, rfl, rfl, _, rfl⟩
  · rw [bind_eq_ok_iff] at read
    obtain ⟨inner, came, same⟩ := read
    obtain ⟨position, eq⟩ := same_of_mfsRead came
    cases same
    rw [eq]
    exact ⟨rfl, rfl, rfl, position, rfl⟩

theorem moves_of_chgFilePtr (driver : Driver) (file : Nat) (offset : UInt32) (type : UInt16) :
    driver.Moves (driver.FS_CHGFILEPTR file offset type).2 file := by
  have moved : ∀ off, driver.Moves (if (driver.records file).direct = 0 then
        { driver.setRecord file
            { driver.records file with sfi_position := off } with
          filebase := (driver.records file).base }
        else driver.setRecord file
          { driver.records file with sfi_position := off }) file := by
    intro off
    split
    · exact ⟨rfl, rfl, rfl, off, rfl⟩
    · exact ⟨rfl, rfl, rfl, off, rfl⟩
  unfold FS_CHGFILEPTR
  split
  · exact moved _
  · split
    · exact moved _
    · split
      · exact moved _
      · exact ⟨rfl, rfl, rfl, (driver.records file).sfi_position,
          (Function.update_eq_self file driver.records).symm⟩

end Driver

namespace World
namespace Sound

variable {loaded : Loaded} {world : World}

section

variable (sound : world.Sound loaded)

include sound

theorem opening {driver₁ : Driver} {target : Target} (closed : world.opened file = none)
    (opens : world.driver.Opens driver₁ file target)
    (saved : driver₁.save file name = .ok driver')
    (known : ∀ mod, target = .module mod → mod ∈ loaded.modules) :
    World.Sound loaded
      ⟨driver', Function.update world.opened file (some target)⟩ := by
  obtain ⟨slot, pName, free, ends, rfl⟩ := Driver.eq_of_save saved
  rw [opens.save_map] at free
  constructor
  · intro other target' here
    dsimp only at here
    by_cases same : other = file
    · subst same
      rw [Function.update_self] at here
      cases here
      refine ⟨?_, known⟩
      have record := opens.record
      cases target with
      | module mod => simpa [Driver.setRecord, Target.Of] using record
      | drive => simpa [Driver.setRecord, Target.Of] using record
    · rw [Function.update_of_ne same] at here
      have record := sound.record other target' here
      rw [← opens.others other same] at record
      simpa [Driver.setRecord, same] using record
  · have assigned := @SlotOwners.Matches.assign _ _ _ _ file slot _ sound.slots
      (fun holds => holds closed) free
    have slots : Driver.slots (Driver.setRecord { driver₁ with
          save_map := Function.update driver₁.save_map slot true
          save_area := Function.update driver₁.save_area slot ⟨file, pName⟩ }
        file { driver₁.records file with index := slot.val }) =
        ⟨Function.update world.driver.slots.marks slot true,
          Function.update world.driver.slots.owner slot file,
          Function.update world.driver.slots.index file slot.val⟩ := by
      unfold Driver.slots Driver.setRecord
      rw [opens.save_map, opens.save_area]
      congr 1
      · funext place
        by_cases here : place = slot
        · rw [here]
          simp
        · simp [here]
      · funext other
        by_cases same : other = file
        · rw [same]
          simp
        · simp [same, opens.others other same]
    have held : (fun other =>
        Function.update world.opened file (some target) other ≠ none) =
        fun other => other = file ∨ world.opened other ≠ none := by
      funext other
      by_cases same : other = file
      · rw [same]
        simp
      · simp [same]
    rw [slots, held]
    exact assigned
  · simp only [Driver.setRecord]
    rw [opens.open_files, opens.save_map, SlotOwners.count_mark free, sound.count]
    rfl
  · intro place marked
    simp only [Driver.setRecord] at marked ⊢
    by_cases here : place = slot
    · rw [here, Function.update_self]
      exact ends
    · rw [Function.update_of_ne here, opens.save_map] at marked
      rw [Function.update_of_ne here, opens.save_area]
      exact sound.named place marked

theorem notFound (closed : world.opened file = none) : World.Sound loaded
      ⟨world.driver.setRecord file { world.driver.records file with direct := 0 },
        world.opened⟩ := by
  have slots : (world.driver.setRecord file
      { world.driver.records file with direct := 0 }).slots =
      world.driver.slots := by
    unfold Driver.slots Driver.setRecord
    congr 1
    funext other
    by_cases same : other = file
    · rw [same]
      simp
    · simp [same]
  refine ⟨fun other target here => ?_, slots ▸ sound.slots, sound.count, sound.named⟩
  have apart : other ≠ file := by
    rintro rfl
    rw [closed] at here
    cases here
  have record := sound.record other target here
  simpa [Driver.setRecord, apart] using record

/-- A position may change. -/
theorem moving (moves : world.driver.Moves driver' file) :
    World.Sound loaded ⟨driver', world.opened⟩ := by
  obtain ⟨position, records⟩ := moves.records
  have slots : driver'.slots = world.driver.slots := by
    unfold Driver.slots
    rw [moves.save_map, moves.save_area, records]
    congr 1
    funext other
    by_cases same : other = file
    · rw [same]
      simp
    · simp [same]
  refine ⟨fun other target here => ?_, slots ▸ sound.slots, ?_, ?_⟩
  · have record := sound.record other target here
    rw [records]
    by_cases same : other = file
    · subst same
      rw [Function.update_self]
      cases target with
      | module mod => exact record
      | drive => exact record
    · rw [Function.update_of_ne same]
      exact record
  · dsimp only
    rw [moves.open_files, moves.save_map]
    exact sound.count
  · dsimp only
    rw [moves.save_map, moves.save_area]
    exact sound.named

theorem closing (held : world.opened file ≠ none)
    (served : world.driver.FS_CLOSE file = .ok driver') :
    World.Sound loaded ⟨driver', Function.update world.opened file none⟩ := by
  obtain ⟨slot, index, marked, owner⟩ := sound.slots.slot file held
  have closed : world.driver.FS_CLOSE file = .ok (Driver.setRecord { world.driver with
        save_map := Function.update world.driver.save_map slot false
        open_files := world.driver.open_files - 1 }
      file { world.driver.records file with base := 0, direct := 0, index := 0 }) := by
    have number : (world.driver.records file).index = slot.val := index
    have inside : (world.driver.records file).index < 0x80 := number ▸ slot.isLt
    have same : (⟨(world.driver.records file).index, inside⟩ : Fin 0x80) = slot := Fin.ext number
    unfold Driver.FS_CLOSE
    rw [dif_pos inside, same]
  rw [closed] at served
  cases served
  constructor
  · intro other target here
    dsimp only at here
    have apart : other ≠ file := by
      rintro rfl
      rw [Function.update_self] at here
      cases here
    rw [Function.update_of_ne apart] at here
    have record := sound.record other target here
    simpa [Driver.setRecord, apart] using record
  · have released := sound.slots.release 0 owner marked
    have slots : Driver.slots (Driver.setRecord { world.driver with
          save_map := Function.update world.driver.save_map slot false
          open_files := world.driver.open_files - 1 }
        file
        { world.driver.records file with base := 0, direct := 0, index := 0 }) =
        ⟨Function.update world.driver.slots.marks slot false, world.driver.slots.owner,
          Function.update world.driver.slots.index file 0⟩ := by
      unfold Driver.slots Driver.setRecord
      congr 1
      funext other
      by_cases same : other = file
      · rw [same]
        simp
      · simp [same]
    have holders : (fun other => Function.update world.opened file none other ≠
        none) = fun other => other ≠ file ∧ world.opened other ≠ none := by
      funext other
      by_cases same : other = file
      · rw [same]
        simp
      · simp [same]
    rw [slots, holders]
    exact released
  · have marked' : world.driver.save_map slot = true := marked
    have some := SlotOwners.count_pos marked'
    have count := sound.count
    simp only [Driver.setRecord]
    rw [SlotOwners.count_unmark marked', count]
    omega
  · intro place here
    simp only [Driver.setRecord] at here ⊢
    refine sound.named place ?_
    by_cases same : place = slot
    · rw [same, Function.update_self] at here
      cases here
    · rw [Function.update_of_ne same] at here
      exact here

theorem serve {call : Call} (valid : world.Valid call) {world' : World}
    (served : world.serve loaded call = .ok world') : world'.Sound loaded := by
  cases call with
  | openCreate dasd file name =>
    simp only [World.serve, bind_eq_ok_iff] at served
    obtain ⟨⟨opened, after⟩, created, served⟩ := served
    rcases Driver.eq_of_openCreate created with
      ⟨rfl, rfl⟩ | ⟨target, driver₁, rfl, opens, saved, known⟩
    · cases served
      exact sound.notFound valid
    · cases served
      exact sound.opening valid opens saved known
  | read file pData pLen segment volio =>
    simp only [World.serve, bind_eq_ok_iff] at served
    obtain ⟨result, read, served⟩ := served
    cases served
    exact sound.moving (Driver.moves_of_read read)
  | chgFilePtr file offset type =>
    cases served
    exact sound.moving (Driver.moves_of_chgFilePtr world.driver file offset type)
  | close file =>
    simp only [World.serve, bind_eq_ok_iff] at served
    obtain ⟨after, closed, served⟩ := served
    cases served
    exact sound.closing valid closed

end

end Sound

theorem Started.sound {world : World} (started : world.Started)
    (loaded : Loaded) : world.Sound loaded := by
  refine ⟨fun file target here => ?_, ⟨fun file held => ?_, fun slot marked => ?_⟩,
    ?_, fun slot marked => ?_⟩
  · rw [started.opened] at here
    cases here
  · exact absurd (started.opened file) held
  · cases (started.save_map slot).symm.trans marked
  · have none : world.driver.save_map = fun _ => false :=
      funext started.save_map
    rw [started.open_files, none]
    simp [SlotOwners.count]
  · rw [started.save_map] at marked
    cases marked

theorem sound_of_run {loaded : Loaded} {start world : World} (started : start.Started)
    (run : RunsTo (World.AllowedStep loaded) start world) : world.Sound loaded := by
  refine @RunsTo.preserves _ _ (fun world => world.Sound loaded) _ _ ?_ run (started.sound loaded)
  rintro world world' sound ⟨call, valid, -, served⟩
  exact sound.serve valid served

end World
end
end OsFree.Mfsd
