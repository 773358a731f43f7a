import OsFree.Machine.Extents
import OsFree.Machine.Run

/-!
# Reading a list of blocks

A file may be given to the loader by a list of its blocks in the partition.  The
loader keeps a cursor in the list, and reads the blocks from where the cursor is.
-/

namespace OsFree.Loader

open Machine

/-- A partition: its length in sectors, its bytes, and which of its sectors can be
read. -/
structure Partition where
  part_length : Nat
  byte : Nat → UInt8
  readable : Nat → Bool
  small : part_length ≤ 2147483648

/-- A file that is given by its blocks: each extent has at least one sector, and the
file ends in one of them. -/
structure BlockFile where
  partition : Partition
  blocks : List Extent
  filemax : Nat
  positive : ∀ extent ∈ blocks, 0 < extent.length
  inside : filemax ≤ Extents.total blocks * 512

/-- Read bytes from a sector on.  `none` is an error. -/
def devread (partition : Partition) (sector byte_offset byte_len : Nat) :
    Option (List UInt8) :=
  if 2147483648 ≤ sector ∨
      partition.part_length ≤ sector + (byte_offset + byte_len - 1) / 512 then none
  else
    let positions := List.range' (sector * 512 + byte_offset) byte_len
    if positions.all fun position => partition.readable (position / 512) then
      some (positions.map partition.byte)
    else none

/-- `BLK_CUR_FILEPOS`, and `BLK_CUR_BLKLIST` with `BLK_CUR_BLKNUM`. -/
structure BlockCursor where
  filepos : Nat
  place : Extents.Cursor
  deriving DecidableEq

/-- Run the cursor up to a position of the file. -/
def BlockCursor.runTo (blocks : List Extent) (filepos : Nat) (cursor : BlockCursor) : BlockCursor :=
  if cursor.filepos < filepos then
    if 512 ≤ filepos - cursor.filepos / 512 * 512 then
      BlockCursor.runTo blocks filepos ⟨cursor.filepos + 512, cursor.place.next blocks⟩
    else ⟨filepos, cursor.place⟩
  else cursor
  termination_by filepos - cursor.filepos
  decreasing_by omega

/-- The cursor for a position: it starts again if the position is before it. -/
def BlockCursor.seek (blocks : List Extent) (filepos : Nat) (cursor : BlockCursor) : BlockCursor :=
  let cursor := if filepos < cursor.filepos then ⟨0, 0, 0⟩ else cursor
  cursor.runTo blocks filepos

/-- What a read has done: the count that is returned, the bytes that are stored, and
the position of the file behind them. -/
structure Transfer where
  count : Nat
  stored : List UInt8
  filepos : Nat
  deriving DecidableEq

/-- The loop over the blocks. -/
def readBlocks (file : BlockFile) : Nat → BlockCursor → Bool → Nat → Transfer →
      Option (Run (Transfer × BlockCursor))
  | 0, _, _, _, _ => none
  | fuel + 1, cursor, errnum, len, done =>
    if len ≠ 0 ∧ errnum = false then
      let cursor := cursor.seek file.blocks done.filepos
      let extent := (file.blocks[cursor.place.extent]?).getD ⟨0, 0⟩
      let off := done.filepos % 512
      let size := min ((extent.length - cursor.place.block) * 512 - off) len
      match devread file.partition (extent.start + cursor.place.block) off size with
      | some bytes =>
        readBlocks file fuel cursor false (len - size)
          ⟨done.count + size, done.stored ++ bytes, done.filepos + size⟩
      | none =>
        readBlocks file fuel cursor true (len - size)
          ⟨done.count + size, done.stored, done.filepos + size⟩
    else
      let count := if errnum then 0 else done.count
      some (.ok ({ done with count := count }, cursor))

/-- The bytes of a file from a position on. -/
def slice (byteAt : Nat → UInt8) (position n : Nat) : List UInt8 :=
  (List.range' position n).map byteAt

@[simp] theorem slice_zero (byteAt : Nat → UInt8) (position : Nat) :
    slice byteAt position 0 = [] := rfl

@[simp] theorem length_slice (byteAt : Nat → UInt8) (position n : Nat) :
    (slice byteAt position n).length = n := by
  unfold slice
  rw [List.length_map, List.length_range']

theorem slice_append (byteAt : Nat → UInt8) (position n m : Nat) :
    slice byteAt position n ++ slice byteAt (position + n) m =
      slice byteAt position (n + m) := by
  unfold slice
  rw [← List.map_append, List.range'_append_1]

namespace BlockFile

variable (file : BlockFile)

/-- The sector that has a position of the file. -/
def sector (position : Nat) : Nat := Extents.locate file.blocks (position / 512)

/-- The byte at a position of the file. -/
def byteAt (position : Nat) : UInt8 :=
  file.partition.byte (file.sector position * 512 + position % 512)

/-- The sector that has a position of the file can be read. -/
def Readable (position : Nat) : Prop := file.sector position < file.partition.part_length ∧
    file.partition.readable (file.sector position) = true

/-- A cursor is at the block that its position is in. -/
def Keeps (cursor : BlockCursor) : Prop := cursor.place.At file.blocks (cursor.filepos / 512)

variable {file} {cursor : BlockCursor} {filepos : Nat}

theorem keeps_start : file.Keeps ⟨0, 0, 0⟩ := Extents.Cursor.at_zero file.positive

theorem keeps_runTo (keeps : file.Keeps cursor) (inside : filepos / 512 < Extents.total file.blocks)
    (behind : cursor.filepos / 512 ≤ filepos / 512) :
    file.Keeps (cursor.runTo file.blocks filepos) ∧
      (cursor.runTo file.blocks filepos).filepos / 512 = filepos / 512 := by
  fun_induction cursor.runTo file.blocks filepos with
  | case1 cursor less far ih =>
    apply ih
    · have next := Extents.Cursor.At.next keeps file.positive (by omega)
      unfold Keeps
      rw [Nat.add_div_right _ (by decide)]
      exact next
    · dsimp only
      omega
  | case2 cursor less near =>
    have same : cursor.filepos / 512 = filepos / 512 := by omega
    refine ⟨?_, rfl⟩
    unfold Keeps at keeps ⊢
    rw [same] at keeps
    exact keeps
  | case3 cursor past => exact ⟨keeps, by omega⟩

theorem keeps_seek (keeps : file.Keeps cursor)
    (inside : filepos / 512 < Extents.total file.blocks) :
    file.Keeps (cursor.seek file.blocks filepos) ∧
      (cursor.seek file.blocks filepos).filepos / 512 = filepos / 512 := by
  unfold BlockCursor.seek
  split
  · exact keeps_runTo keeps_start inside (Nat.zero_le _)
  · exact keeps_runTo keeps inside (Nat.div_le_div_right (by omega))

end BlockFile

section

variable {file : BlockFile} {cursor : BlockCursor} {extent : Extent} {filepos size : Nat}

/-- A sector of a partition that can be read. -/
def Partition.Has (partition : Partition) (sector : Nat) : Prop :=
  sector < partition.part_length ∧ partition.readable sector = true

variable {partition : Partition} {sector byte_offset byte_len : Nat}

theorem devread_of_has (some : 0 < byte_len) (has : ∀ i, i < byte_len →
      partition.Has ((sector * 512 + byte_offset + i) / 512)) :
    devread partition sector byte_offset byte_len =
      .some (slice partition.byte (sector * 512 + byte_offset) byte_len) := by
  have last := (has (byte_len - 1) (by omega)).1
  have small := partition.small
  have readable : (List.range' (sector * 512 + byte_offset) byte_len).all
      (fun position => partition.readable (position / 512)) = true := by
    rw [List.all_eq_true]
    intro position member
    obtain ⟨i, less, rfl⟩ := List.mem_range'.mp member
    rw [Nat.one_mul]
    exact (has i less).2
  unfold devread
  rw [if_neg (by omega)]
  exact if_pos readable

theorem devread_of_not_has {i : Nat} (inside : i < byte_len)
    (missing : ¬ partition.Has ((sector * 512 + byte_offset + i) / 512)) :
    devread partition sector byte_offset byte_len = none := by
  unfold devread
  split
  · rfl
  · rename_i bounds
    refine if_neg (fun readable => missing ⟨by omega, ?_⟩)
    rw [List.all_eq_true] at readable
    exact readable _ (List.mem_range'_1.mpr ⟨by omega, by omega⟩)

end

section

variable {file : BlockFile} {cursor : BlockCursor} {extent : Extent} {filepos len : Nat}

theorem position_of_block (keeps : file.Keeps cursor) (here : cursor.filepos / 512 = filepos / 512)
    (found : file.blocks[cursor.place.extent]? = some extent) {i : Nat}
    (inside : i < (extent.length - cursor.place.block) * 512 - filepos % 512) :
    (extent.start + cursor.place.block) * 512 + filepos % 512 + i =
      file.sector (filepos + i) * 512 + (filepos + i) % 512 := by
  have split : (filepos + i) / 512 = filepos / 512 + (filepos % 512 + i) / 512 := by
    omega
  have sector : file.sector (filepos + i) =
      extent.start + cursor.place.block + (filepos % 512 + i) / 512 := by
    unfold BlockFile.sector
    rw [split, ← here]
    exact keeps.locate_add found (by omega)
  omega

theorem devread_block (keeps : file.Keeps cursor) (here : cursor.filepos / 512 = filepos / 512)
    (found : file.blocks[cursor.place.extent]? = some extent) {size : Nat}
    (some : 0 < size)
    (inside : size ≤ (extent.length - cursor.place.block) * 512 - filepos % 512) :
    ((∀ i, i < size → file.Readable (filepos + i)) →
      devread file.partition (extent.start + cursor.place.block) (filepos % 512)
        size = .some (slice file.byteAt filepos size)) ∧
    ((∃ i, i < size ∧ ¬ file.Readable (filepos + i)) →
      devread file.partition (extent.start + cursor.place.block) (filepos % 512)
        size = none) := by
  have position : ∀ i, i < size → (extent.start + cursor.place.block) * 512 + filepos % 512 + i =
        file.sector (filepos + i) * 512 + (filepos + i) % 512 :=
    fun i less => position_of_block keeps here found (by omega)
  have sector : ∀ i, i < size →
      ((extent.start + cursor.place.block) * 512 + filepos % 512 + i) / 512 =
        file.sector (filepos + i) := by
    intro i less
    rw [position i less]
    omega
  constructor
  · intro readable
    rw [devread_of_has some fun i less => (sector i less).symm ▸ readable i less]
    congr 1
    apply List.ext_getElem
    · rw [length_slice, length_slice]
    · intro i _ less
      rw [length_slice] at less
      simp only [slice, List.getElem_map, List.getElem_range', Nat.one_mul]
      exact congrArg file.partition.byte (position i less)
  · rintro ⟨i, less, missing⟩
    exact devread_of_not_has less (sector i less ▸ missing)

theorem readBlocks_pass (keeps : file.Keeps cursor) (some : 0 < len)
    (done : Transfer) (inside : done.filepos + len ≤ file.filemax) :
    ∃ size cursor', 0 < size ∧ size ≤ len ∧ file.Keeps cursor' ∧
      ((∀ i, i < size → file.Readable (done.filepos + i)) →
        ∀ fuel, readBlocks file (fuel + 1) cursor false len done =
          readBlocks file fuel cursor' false (len - size) ⟨done.count + size,
              done.stored ++ slice file.byteAt done.filepos size,
              done.filepos + size⟩) ∧
      ((∃ i, i < size ∧ ¬ file.Readable (done.filepos + i)) →
        ∀ fuel, readBlocks file (fuel + 1) cursor false len done =
          readBlocks file fuel cursor' true (len - size)
            ⟨done.count + size, done.stored, done.filepos + size⟩) := by
  have bound := file.inside
  have within : done.filepos / 512 < Extents.total file.blocks := by omega
  obtain ⟨keeps', here⟩ := BlockFile.keeps_seek keeps within
  have atBlock := keeps'
  unfold BlockFile.Keeps at atBlock
  rw [here] at atBlock
  obtain ⟨extent, found⟩ := atBlock.extent_eq within
  have block := atBlock.inside extent found
  have nonzero : 0 < min ((extent.length -
      (cursor.seek file.blocks done.filepos).place.block) * 512 -
        done.filepos % 512) len := by
    omega
  obtain ⟨reads, fails⟩ := devread_block keeps' here found nonzero (Nat.min_le_left ..)
  refine ⟨_, _, nonzero, Nat.min_le_right .., keeps', ?_, ?_⟩
  · intro readable fuel
    rw [readBlocks, if_pos ⟨by omega, rfl⟩]
    simp only [found, Option.getD_some, reads readable]
  · intro missing fuel
    rw [readBlocks, if_pos ⟨by omega, rfl⟩]
    simp only [found, Option.getD_some, fails missing]

theorem readBlocks_settles (keeps : file.Keeps cursor) (done : Transfer)
    (inside : done.filepos + len ≤ file.filemax) :
    ∃ result cursor', file.Keeps cursor' ∧
      Settles (fun fuel => readBlocks file fuel cursor false len done) (.ok (result, cursor')) ∧
      ((∀ i, i < len → file.Readable (done.filepos + i)) → result = ⟨done.count + len,
          done.stored ++ slice file.byteAt done.filepos len,
          done.filepos + len⟩) ∧
      ((∃ i, i < len ∧ ¬ file.Readable (done.filepos + i)) →
        result.count = 0 ∧ done.filepos < result.filepos) := by
  induction len using Nat.strongRecOn generalizing cursor done with
  | _ len ih =>
    rcases Nat.eq_zero_or_pos len with rfl | some
    · refine ⟨done, cursor, keeps, ?_, ?_, ?_⟩
      · exact .succ rfl (fun fuel => rfl) (.const _)
      · intro readable
        rw [slice_zero, List.append_nil]
        rfl
      · rintro ⟨i, less, -⟩
        exact absurd less (Nat.not_lt_zero i)
    · obtain ⟨size, cursor', nonzero, bounded, keeps', reads, fails⟩ :=
        readBlocks_pass keeps some done inside
      by_cases readable : ∀ i, i < size → file.Readable (done.filepos + i)
      · obtain ⟨result, last, keepsLast, settles, full, error⟩ :=
          ih (len - size) (by omega) keeps' ⟨done.count + size,
              done.stored ++ slice file.byteAt done.filepos size,
              done.filepos + size⟩ (by dsimp only; omega)
        refine ⟨result, last, keepsLast, settles.succ rfl (reads readable), ?_, ?_⟩
        · intro all
          have rest := full fun i less => by
            have inside := all (size + i) (by omega)
            rw [← Nat.add_assoc] at inside
            exact inside
          rw [rest]
          rw [List.append_assoc, slice_append, Nat.add_assoc, Nat.add_assoc,
            Nat.add_sub_cancel' bounded]
        · rintro ⟨i, less, missing⟩
          have later : size ≤ i := Nat.not_lt.mp fun less => missing (readable i less)
          obtain ⟨count, moved⟩ := error ⟨i - size, by omega, by
            dsimp only
            rw [Nat.add_assoc, Nat.add_sub_cancel' later]
            exact missing⟩
          exact ⟨count, by dsimp only at moved; omega⟩
      · have missing : ∃ i, i < size ∧ ¬ file.Readable (done.filepos + i) := by
          simpa using readable
        refine ⟨⟨0, done.stored, done.filepos + size⟩, cursor', keeps',
          .succ rfl (fails missing) (.succ rfl (fun fuel => ?_) (.const _)),
          ?_, fun _ => ⟨rfl, by dsimp only; omega⟩⟩
        · rw [readBlocks, if_neg (by simp)]
          rfl
        · intro all
          exact absurd (fun i less => all i (by omega)) readable

end

/-!
## Reading a file

Files are read through a driver of 16 bits, which is called in a loop for chunks of
at most `0x400` bytes, or through one of 32 bits: a file system, or a list of
blocks.
-/

/-- A file: its size, and its bytes. -/
structure OpenFile where
  filemax : Nat
  byteAt : Nat → UInt8

/-- Read a file through the driver of 16 bits.  At each call it offers some bytes,
and returns as many as are offered, asked for and left in the file. -/
def readFiletab (file : OpenFile) (len : Nat) :
    Nat → (Nat → Nat) → Nat → Int → Transfer → Option (Run Transfer)
  | 0, _, _, _, _ => none
  | fuel + 1, offers, rc, rest, done =>
    if rest ≠ 0 ∧ done.filepos < file.filemax then
      let rest : Int := len - done.count
      let rc := if rest < rc then rest.toNat else rc
      let rc := min (offers 0) (min rc (file.filemax - done.filepos))
      readFiletab file len fuel (fun call => offers (call + 1)) rc rest
        ⟨done.count + rc, done.stored ++ slice file.byteAt done.filepos rc, done.filepos + rc⟩
    else some (.ok done)

/-- What a file of the loader is read from. -/
inductive Source where
  /-- The driver of 16 bits. -/
  | filetab (file : OpenFile) (offers : Nat → Nat)
  /-- A file system, which may not be mounted, and the size up to which it supports
  files. -/
  | filesystem (file : OpenFile) (mounted : Bool) (fsmax offers : Nat)
  /-- A list of blocks, with its cursor, and an error that may be pending. -/
  | blocks (file : BlockFile) (errnum : Bool) (fsmax : Nat)
      (cursor : BlockCursor) (keeps : file.Keeps cursor)

/-- The file. -/
def Source.file : Source → OpenFile
  | .filetab file _ => file
  | .filesystem file _ _ _ => file
  | .blocks file _ _ _ _ => ⟨file.filemax, file.byteAt⟩

/-- How many bytes are asked for: all that are left for a negative number. -/
def wanted (filemax filepos : Nat) (len : Int) : Nat :=
  if len < 0 ∨ (filemax - filepos : Nat) < len then filemax - filepos
  else len.toNat

/-- Read a file through a driver of 32 bits. -/
def grub_read (source : Source) (fuel filepos : Nat) (len : Int) :
    Option (Run Transfer) :=
  let filemax := source.file.filemax
  let filepos := if filemax < filepos then filemax else filepos
  let len := wanted filemax filepos len
  match source with
  | .filetab _ _ => some (.ok ⟨0, [], filepos⟩)
  | .filesystem file mounted fsmax offers =>
    if fsmax < filepos + len then some (.ok ⟨0, [], filepos⟩)
    else if mounted then
      let n := min offers len
      some (.ok ⟨n, slice file.byteAt filepos n, filepos + n⟩)
    else some (.ok ⟨0, [], filepos⟩)
  | .blocks file errnum fsmax cursor _ =>
    if fsmax < filepos + len then some (.ok ⟨0, [], filepos⟩)
    else andThen (readBlocks file fuel cursor errnum len ⟨0, [], filepos⟩)
      fun result => some (.ok result.1)

/-- Read a file at a position.  A length of `-1` is the whole file. -/
def freeldr_read (source : Source) (fuel filepos : Nat) (len : Int) :
    Option (Run Transfer) :=
  match source with
  | .filetab file offers =>
    let size := if len = -1 then file.filemax else len.toNat
    readFiletab file size fuel offers 0x400 len ⟨0, [], filepos⟩
  | source => grub_read source fuel filepos len

/-- The count is that of the bytes that are stored, they are the file's bytes from
the position on, and the position is moved behind them. -/
structure Transfer.Meets (transfer : Transfer) (file : OpenFile) (filepos : Nat) :
    Prop where
  stored : transfer.stored = slice file.byteAt filepos transfer.count
  inside : transfer.count ≤ file.filemax - filepos
  moved : transfer.filepos = filepos + transfer.count

/-- How many bytes a driver of 16 bits gives in a number of calls: a chunk is as long
as the one before it, or as the bytes that are offered if these are fewer. -/
def delivered : Nat → (Nat → Nat) → Nat → Nat
  | _, _, 0 => 0
  | chunk, offers, calls + 1 =>
    let chunk := min chunk (offers 0)
    chunk + delivered chunk (fun call => offers (call + 1)) calls

/-- When a source serves a read: a driver of 16 bits delivers enough bytes in some
number of calls, and no sector of a list of blocks is missing. -/
def Source.Serves (filepos : Nat) (len : Int) : Source → Prop
  | .filetab file offers =>
    ∃ calls, wanted file.filemax filepos len ≤ delivered 0x400 offers calls
  | .filesystem _ _ _ _ => True
  | .blocks file errnum fsmax _ _ =>
    let n := wanted file.filemax filepos len
    fsmax < filepos + n ∨ errnum = true ∨ ∀ i, i < n → file.Readable (filepos + i)

/-- A source that always returns all available bytes. -/
def Source.AllAvailable : Source → Prop
  | .filetab _ offers => ∀ call, 0x400 ≤ offers call
  | .filesystem file mounted fsmax offers =>
    mounted = true ∧ file.filemax ≤ fsmax ∧ file.filemax ≤ offers
  | .blocks file errnum fsmax _ _ =>
    errnum = false ∧ file.filemax ≤ fsmax ∧
      ∀ position, position < file.filemax → file.Readable position

section

variable {file : OpenFile} {len filepos : Nat} {offers : Nat → Nat} {rc : Nat}
  {rest : Int} {done : Transfer}

/-- How many bytes are still to come. -/
def remaining (file : OpenFile) (len : Nat) (done : Transfer) : Nat :=
  min (len - done.count) (file.filemax - done.filepos)

theorem readFiletab_pass (bounded : done.count ≤ len)
    (entered : rest ≠ 0 ∧ done.filepos < file.filemax) (fuel : Nat) :
    let n := min (min rc (offers 0)) (remaining file len done)
    readFiletab file len (fuel + 1) offers rc rest done =
      readFiletab file len fuel (fun call => offers (call + 1)) n (len - done.count)
        ⟨done.count + n, done.stored ++ slice file.byteAt done.filepos n,
          done.filepos + n⟩ := by
  have chunk : min (offers 0) (min
      (if (len : Int) - done.count < rc then ((len : Int) - done.count).toNat
        else rc) (file.filemax - done.filepos)) =
      min (min rc (offers 0)) (remaining file len done) := by
    unfold remaining
    split
    · omega
    · omega
  rw [readFiletab, if_pos entered]
  dsimp only
  rw [chunk]

theorem remaining_sub (n : Nat) (stored : List UInt8) :
    remaining file len ⟨done.count + n, stored, done.filepos + n⟩ =
      remaining file len done - n := by
  unfold remaining
  dsimp only
  omega

theorem remaining_of_left (stopped : rest = 0 → len = done.count)
    (left : ¬ (rest ≠ 0 ∧ done.filepos < file.filemax)) :
    remaining file len done = 0 := by
  unfold remaining
  omega

theorem stopped_next (n : Nat) : (len : Int) - done.count = 0 →
      len = done.count + min n (remaining file len done) := by
  unfold remaining
  omega

theorem readFiletab_result (bounded : done.count ≤ len)
    (stopped : rest = 0 → len = done.count) {fuel : Nat} {run : Run Transfer}
    (ended : readFiletab file len fuel offers rc rest done = some run) :
    run = .ok ⟨done.count + remaining file len done,
      done.stored ++ slice file.byteAt done.filepos (remaining file len done),
      done.filepos + remaining file len done⟩ := by
  induction fuel generalizing offers rc rest done with
  | zero => cases ended
  | succ fuel ih =>
    by_cases entered : rest ≠ 0 ∧ done.filepos < file.filemax
    · rw [readFiletab_pass bounded entered] at ended
      have less : min (min rc (offers 0)) (remaining file len done) ≤
          remaining file len done := Nat.min_le_right ..
      have rest := ih (by dsimp only; unfold remaining; omega) (stopped_next _) ended
      rw [rest, remaining_sub]
      rw [List.append_assoc, slice_append, Nat.add_assoc, Nat.add_assoc, Nat.add_sub_cancel' less]
    · rw [readFiletab, if_neg entered] at ended
      cases ended
      rw [remaining_of_left stopped entered, slice_zero, List.append_nil]
      rfl

theorem readFiletab_ends_of_none (bounded : done.count ≤ len)
    (nothing : remaining file len done = 0) :
    ∃ fuel run, readFiletab file len fuel offers rc rest done = some run := by
  by_cases entered : rest ≠ 0 ∧ done.filepos < file.filemax
  · refine ⟨2, .ok done, ?_⟩
    rw [readFiletab_pass bounded entered, nothing, Nat.min_zero]
    have zero : (len : Int) - done.count = 0 := by
      unfold remaining at nothing
      omega
    rw [zero, readFiletab, if_neg fun again => again.1 rfl, slice_zero, List.append_nil]
    rfl
  · exact ⟨1, .ok done, by rw [readFiletab, if_neg entered]⟩

theorem readFiletab_ends_iff (bounded : done.count ≤ len) (stopped : rest = 0 → len = done.count) :
    (∃ fuel run, readFiletab file len fuel offers rc rest done = some run) ↔
      ∃ calls, remaining file len done ≤ delivered rc offers calls := by
  constructor
  · rintro ⟨fuel, run, ended⟩
    induction fuel generalizing offers rc rest done with
    | zero => cases ended
    | succ fuel ih =>
      by_cases entered : rest ≠ 0 ∧ done.filepos < file.filemax
      · rw [readFiletab_pass bounded entered] at ended
        rcases Nat.le_total (remaining file len done) (min rc (offers 0)) with last | more
        · exact ⟨1, last⟩
        · rw [Nat.min_eq_left more] at ended
          obtain ⟨calls, enough⟩ := ih (by dsimp only; unfold remaining at more; omega)
            (Nat.min_eq_left more ▸ stopped_next _) ended
          rw [remaining_sub] at enough
          refine ⟨calls + 1, ?_⟩
          exact Nat.sub_le_iff_le_add'.mp enough
      · exact ⟨0, Nat.le_of_eq (remaining_of_left stopped entered)⟩
  · rintro ⟨calls, enough⟩
    induction calls generalizing offers rc rest done with
    | zero => exact readFiletab_ends_of_none bounded (Nat.le_zero.mp enough)
    | succ calls ih =>
      by_cases entered : rest ≠ 0 ∧ done.filepos < file.filemax
      · have pass := @readFiletab_pass file len offers rc rest done bounded entered
        rcases Nat.le_total (remaining file len done) (min rc (offers 0)) with last | more
        · rw [Nat.min_eq_right last] at pass
          have nothing := @remaining_sub file len done (remaining file len done)
            (done.stored ++ slice file.byteAt done.filepos (remaining file len done))
          rw [Nat.sub_self] at nothing
          obtain ⟨fuel, run, ended⟩ := readFiletab_ends_of_none
            (by dsimp only; unfold remaining; omega) nothing
          exact ⟨fuel + 1, run, (pass fuel).trans ended⟩
        · rw [Nat.min_eq_left more] at pass
          have rest := @remaining_sub file len done (min rc (offers 0))
            (done.stored ++ slice file.byteAt done.filepos (min rc (offers 0)))
          obtain ⟨fuel, run, ended⟩ := ih (by dsimp only; unfold remaining at more; omega)
            (Nat.min_eq_left more ▸ stopped_next _)
            (rest.trans_le (Nat.sub_le_iff_le_add'.mpr enough))
          exact ⟨fuel + 1, run, (pass fuel).trans ended⟩
      · exact ⟨1, .ok done, by rw [readFiletab, if_neg entered]⟩

end

theorem delivered_of_le {chunk : Nat} {offers : Nat → Nat}
    (whole : ∀ call, chunk ≤ offers call) (calls : Nat) :
    delivered chunk offers calls = calls * chunk := by
  induction calls generalizing offers with
  | zero => exact (Nat.zero_mul chunk).symm
  | succ calls ih =>
    rw [delivered, Nat.min_eq_left (whole 0), ih fun call => whole (call + 1), Nat.succ_mul,
      Nat.add_comm]
/-- The transfer of a number of bytes from a position. -/
def OpenFile.transfer (file : OpenFile) (filepos n : Nat) : Transfer :=
  ⟨n, slice file.byteAt filepos n, filepos + n⟩

section

variable {file : OpenFile} {filepos : Nat} {len : Int}

theorem OpenFile.transfer_meets {n : Nat} (inside : n ≤ file.filemax - filepos) :
    (file.transfer filepos n).Meets file filepos :=
  ⟨rfl, inside, rfl⟩

theorem wanted_le (filemax : Nat) :
    wanted filemax filepos len ≤ filemax - filepos := by
  unfold wanted
  split
  · exact Nat.le_refl _
  · omega

theorem remaining_start (length : -1 ≤ len) :
    remaining file (if len = -1 then file.filemax else len.toNat)
      ⟨0, [], filepos⟩ = wanted file.filemax filepos len := by
  unfold remaining wanted
  split
  · rw [if_pos (by omega)]
    dsimp only
    omega
  · dsimp only
    split
    · omega
    · omega

/-- A driver of 16 bits returns exactly if it delivers enough bytes, and then with all
of them. -/
theorem readFiletab_eq_iff (length : -1 ≤ len) {offers : Nat → Nat} (transfer : Transfer) :
    (∃ fuel, freeldr_read (.filetab file offers) fuel filepos len = some (.ok transfer)) ↔
      (Source.filetab file offers).Serves filepos len ∧
        transfer = file.transfer filepos (wanted file.filemax filepos len) := by
  have stopped : len = 0 →
      (if len = -1 then file.filemax else len.toNat) = 0 := by
    rintro rfl
    rfl
  have ends := @readFiletab_ends_iff file _ offers 0x400 len ⟨0, [], filepos⟩
    (Nat.zero_le _) stopped
  have result := fun fuel run => @readFiletab_result file _ offers 0x400 len
    ⟨0, [], filepos⟩ (Nat.zero_le _) stopped fuel run
  rw [remaining_start length] at ends result
  simp only [Nat.zero_add, List.nil_append] at result
  constructor
  · rintro ⟨fuel, ended⟩
    refine ⟨ends.mp ⟨fuel, _, ended⟩, ?_⟩
    exact Except.ok.inj (result fuel _ ended)
  · rintro ⟨serves, rfl⟩
    obtain ⟨fuel, run, ended⟩ := ends.mpr serves
    cases result fuel run ended
    exact ⟨fuel, ended⟩

theorem filesystem_read (inside : filepos ≤ file.filemax)
    {mounted : Bool} {fsmax offers : Nat} (fuel : Nat) :
    freeldr_read (.filesystem file mounted fsmax offers) fuel filepos len =
      some (.ok (file.transfer filepos (if fsmax < filepos + wanted file.filemax filepos len then 0
          else if mounted then min offers (wanted file.filemax filepos len)
          else 0))) := by
  unfold freeldr_read grub_read
  dsimp only [Source.file]
  rw [if_neg (Nat.not_lt.mpr inside)]
  split
  · rfl
  · split
    · rfl
    · rfl

theorem readBlocks_of_error {file : BlockFile} (cursor : BlockCursor) (n : Nat) (done : Transfer) :
    Settles (fun fuel => readBlocks file fuel cursor true n done)
      (.ok ({ done with count := 0 }, cursor)) := by
  refine .succ rfl (fun fuel => ?_) (.const _)
  rw [readBlocks, if_neg (by simp)]
  rfl

theorem blocks_settles {file : BlockFile} (inside : filepos ≤ file.filemax)
    {errnum : Bool} {fsmax : Nat} {cursor : BlockCursor}
    (keeps : file.Keeps cursor) :
    let source := Source.blocks file errnum fsmax cursor keeps
    let n := wanted file.filemax filepos len
    ∃ transfer, Settles (fun fuel => freeldr_read source fuel filepos len) (.ok transfer) ∧
      (transfer.Meets source.file filepos ↔ source.Serves filepos len) ∧
      (source.AllAvailable → transfer = source.file.transfer filepos n) := by
  unfold freeldr_read grub_read
  dsimp only [Source.file]
  rw [if_neg (Nat.not_lt.mpr inside)]
  have nothing := fun file => @OpenFile.transfer_meets file filepos 0 (Nat.zero_le _)
  have bounded := @wanted_le filepos len file.filemax
  by_cases supported : fsmax < filepos + wanted file.filemax filepos len
  · simp only [if_pos supported]
    refine ⟨_, .const _, iff_of_true (nothing _) (Or.inl supported), ?_⟩
    rintro ⟨-, large, -⟩
    omega
  · simp only [if_neg supported]
    cases errnum with
    | true =>
      refine ⟨_, (readBlocks_of_error cursor _ _).andThen (.const _),
        iff_of_true (nothing _) (Or.inr (Or.inl rfl)), ?_⟩
      rintro ⟨quiet, -⟩
      cases quiet
    | false =>
      obtain ⟨result, last, -, settles, full, error⟩ :=
        @readBlocks_settles file cursor (wanted file.filemax filepos len) keeps
          ⟨0, [], filepos⟩ (by dsimp only; omega)
      refine ⟨_, settles.andThen (.const _), ?_, ?_⟩
      · by_cases readable : ∀ i, i < wanted file.filemax filepos len → file.Readable (filepos + i)
        · refine iff_of_true ?_ (Or.inr (Or.inr readable))
          rw [full readable]
          dsimp only
          rw [Nat.zero_add]
          exact ⟨rfl, bounded, rfl⟩
        · refine iff_of_false (fun meets => ?_) ?_
          · obtain ⟨count, moved⟩ := error (by simpa using readable)
            have position := meets.moved
            dsimp only at position moved
            omega
          · rintro (unsupported | pending | all)
            · exact supported unsupported
            · cases pending
            · exact readable all
      · rintro ⟨-, -, all⟩
        rw [full fun i less => all _ (by dsimp only; omega)]
        rw [Nat.zero_add]
        rfl

end

theorem read_of_allAvailable {source : Source} {filepos : Nat} {len : Int}
    (inside : filepos ≤ source.file.filemax) (length : -1 ≤ len)
    (all : source.AllAvailable) (transfer : Transfer) :
    (∃ fuel, freeldr_read source fuel filepos len = some (.ok transfer)) ↔
      transfer = source.file.transfer filepos
        (wanted source.file.filemax filepos len) := by
  have bounded := @wanted_le filepos len source.file.filemax
  cases source with
  | filetab file offers =>
    have serves : (Source.filetab file offers).Serves filepos len := by
      refine ⟨wanted file.filemax filepos len, ?_⟩
      rw [delivered_of_le all]
      omega
    rw [readFiletab_eq_iff length, and_iff_right serves]
    rfl
  | filesystem file mounted fsmax offers =>
    obtain ⟨rfl, supported, large⟩ := all
    dsimp only [Source.file] at inside bounded
    have read := fun fuel => @filesystem_read file filepos len inside true fsmax offers fuel
    rw [if_neg (by omega), if_pos rfl, Nat.min_eq_right (by omega)] at read
    simp only [read, exists_const, Option.some.injEq, Except.ok.injEq]
    exact eq_comm
  | blocks file errnum fsmax cursor keeps =>
    obtain ⟨result, settles, -, full⟩ := @blocks_settles filepos len file inside
      errnum fsmax cursor keeps
    rw [settles.exists_iff, Except.ok.injEq, full all]
    exact eq_comm

/-- A read of a file comes back with the bytes at the position of the file exactly if
the source serves it; and two sources of one file that always return all available
bytes, of 16 bits or of 32, give the same result. -/
theorem freeldr_read_meets_iff (source : Source) {filepos : Nat} {len : Int}
    (inside : filepos ≤ source.file.filemax) (length : -1 ≤ len) :
    ((∃ fuel transfer, freeldr_read source fuel filepos len = some (.ok transfer) ∧
          transfer.Meets source.file filepos) ↔
      source.Serves filepos len) ∧
    ∀ other : Source, other.file = source.file → source.AllAvailable →
      other.AllAvailable → ∀ transfer,
        (∃ fuel, freeldr_read source fuel filepos len = some (.ok transfer)) ↔
          ∃ fuel, freeldr_read other fuel filepos len = some (.ok transfer) := by
  constructor
  · cases source with
    | filetab file offers =>
      constructor
      · rintro ⟨fuel, transfer, ended, -⟩
        exact ((readFiletab_eq_iff length transfer).mp ⟨fuel, ended⟩).1
      · intro serves
        obtain ⟨fuel, ended⟩ := (readFiletab_eq_iff length _).mpr ⟨serves, rfl⟩
        exact ⟨fuel, _, ended, OpenFile.transfer_meets (wanted_le _)⟩
    | filesystem file mounted fsmax offers =>
      refine iff_of_true ⟨0, _, filesystem_read inside 0, ?_⟩ trivial
      apply OpenFile.transfer_meets
      have bounded := @wanted_le filepos len file.filemax
      split
      · exact Nat.zero_le _
      · split
        · exact Nat.le_trans (Nat.min_le_right ..) bounded
        · exact Nat.zero_le _
    | blocks file errnum fsmax cursor keeps =>
      obtain ⟨result, settles, meets, -⟩ := @blocks_settles filepos len file
        inside errnum fsmax cursor keeps
      rw [← meets, exists_comm]
      constructor
      · rintro ⟨transfer, fuel, ended, meets⟩
        cases (settles.exists_iff transfer).mp ⟨fuel, ended⟩
        exact meets
      · intro meets
        obtain ⟨fuel, ended⟩ := (settles.exists_iff result).mpr rfl
        exact ⟨result, fuel, ended, meets⟩
  · intro other same all otherAll transfer
    rw [read_of_allAvailable inside length all,
      read_of_allAvailable (same ▸ inside) length otherAll, same]

/-- A file of three bytes, read in chunks of at most two bytes. -/
theorem twoChunks_read : ∃ fuel transfer,
      freeldr_read (.filetab ⟨3, UInt8.ofNat⟩ fun _ => 2) fuel 0 (-1) = some (.ok transfer) ∧
        transfer.Meets ⟨3, UInt8.ofNat⟩ 0 :=
  (freeldr_read_meets_iff (.filetab ⟨3, UInt8.ofNat⟩ fun _ => 2) (Nat.zero_le 3)
    (by decide)).1.mpr ⟨2, by decide⟩

theorem delivered_zero (offers : Nat → Nat) (calls : Nat) :
    delivered 0 offers calls = 0 := by
  induction calls generalizing offers with
  | zero => rfl
  | succ calls ih =>
    rw [delivered, Nat.zero_min, ih]

/-- A driver that once returns no bytes is asked for none from then on: the read
never ends. -/
theorem emptyChunk_neverEnds : ¬ ∃ fuel run, freeldr_read
      (.filetab ⟨3, UInt8.ofNat⟩ fun call => if call = 1 then 0 else 2) fuel 0 3 =
        some run := by
  rintro ⟨fuel, run, ended⟩
  obtain ⟨calls, enough⟩ := (readFiletab_ends_iff (Nat.zero_le 3)
    (fun zero => absurd zero (by decide))).mp ⟨fuel, run, ended⟩
  have few : delivered 0x400 (fun call => if call = 1 then 0 else 2) calls ≤ 2 := by
    match calls with
    | 0 => decide
    | 1 => decide
    | calls + 2 =>
      simp only [delivered, ↓reduceIte, Nat.min_zero, delivered_zero]
      decide
  exact absurd (Nat.le_trans enough few) (by decide)

end OsFree.Loader
