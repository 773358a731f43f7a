import Mathlib.Data.Int.Init

/-!
# Reading a loop device

A loop device is an image file.  A raw read on it opens the image, seeks to the
sector and reads, with the globals of the file that is being read itself.
-/

namespace OsFree.Loader
namespace LoopDrive

/-- The globals of the loader that a read goes through.  `buf_sector_size` is the
sector size in the geometry of the disk buffer. -/
structure Globals where
  current_drive : UInt32
  current_partition : UInt32
  current_slice : Int
  sector_size : UInt32
  buf_sector_size : UInt32
  filepos : Int
  filemax : Int
  errnum : Bool

/-- An image file.  Its size is an `int`. -/
abbrev Image := { bytes : List UInt8 // bytes.length < 2147483648 }

/-- What comes of opening the image: the globals that the file system has left, and
the file, if there is one. -/
inductive Opening where
  | failed (left : Globals)
  | opened (left : Globals) (image : Image)

/-- What comes of reading: the globals that the file system has left, and how many
bytes it has to offer. -/
structure Reading where
  left : Globals
  offers : Nat

/-- What a raw read returns: whether it succeeded, the globals, and what is in the
buffer. -/
structure Result where
  returned : Bool
  globals : Globals
  buffer : List UInt8

/-- A file that has been opened is at its start. -/
def u_open (left : Globals) (image : Image) : Globals :=
  { left with filepos := 0, filemax := image.val.length }

/-- Seek; `-1` asks for the position.  `none` is the result `-1`. -/
def u_seek (globals : Globals) (loffseek : Int) : Option Globals :=
  if loffseek = -1 then some globals
  else if globals.filemax < loffseek ∨ loffseek < 0 then none
  else some { globals with filepos := loffseek }

/-- How many of `count` bytes are read. -/
def readCount (globals : Globals) (reading : Reading) (count : Nat) : Nat :=
  min reading.offers (min count (globals.filemax - globals.filepos).toNat)

/-- Read the image at the position: the globals, the count and the bytes.  After all
of the bytes the position is behind them; after less it is where the file system has
left it. -/
def u_read (globals : Globals) (image : Image) (reading : Reading)
    (count : Nat) : Globals × Nat × List UInt8 :=
  let n := readCount globals reading count
  let bytes := (image.val.drop globals.filepos.toNat).take n
  let filepos :=
    if n = count then globals.filepos + count else reading.left.filepos
  ({ reading.left with filepos := filepos, filemax := globals.filemax }, n, bytes)

/-- The position in the image is computed in 32 bits and is used as an `int`. -/
def imagePosition (sector byte_offset : Int) : Int := (sector * 512 + byte_offset).bmod 4294967296

/-- Read a loop device, from where its image has been positioned on. -/
def rawread_loop_read (globals found : Globals) (image : Image)
    (reading : Reading) (byte_len : Nat) : Result :=
  let ss := globals.buf_sector_size
  let (after, n, bytes) :=
    u_read { found with sector_size := ss } image reading byte_len
  if n ≠ byte_len then ⟨false, after, bytes⟩
  else
    ⟨!after.errnum, { after with
        sector_size := ss
        current_drive := globals.current_drive
        current_partition := globals.current_partition
        current_slice := globals.current_slice },
      bytes⟩

/-- Read a loop device. -/
def rawread_loop (globals : Globals) (opening : Opening) (reading : Reading)
    (sector byte_offset : Int) (byte_len : Nat) : Result :=
  match opening with
  | .failed left => ⟨false, { left with sector_size := 512 }, []⟩
  | .opened left image =>
    let start := { u_open left image with sector_size := 512 }
    match u_seek start (imagePosition sector byte_offset) with
    | none => ⟨false, start, []⟩
    | some found => rawread_loop_read globals found image reading byte_len

/-- Read a drive.  The drives from `0xC0` on are the loop devices, each with its own
image; the others are read from the disk. -/
def rawread (disk : Result) (globals : Globals) (openings : Nat → Opening)
    (reading : Reading) (drive sector byte_offset byte_len : Int) : Result :=
  if byte_len ≤ 0 then ⟨true, globals, []⟩
  else if 0xC0 ≤ drive ∧ drive ≤ 0xC7 then
    rawread_loop globals (openings (drive - 0xC0).toNat) reading sector byte_offset byte_len.toNat
  else disk

/-- Nothing of what a file is read with has changed. -/
structure Globals.Restored (before after : Globals) : Prop where
  drive : after.current_drive = before.current_drive
  partition : after.current_partition = before.current_partition
  slice : after.current_slice = before.current_slice
  sector_size : after.sector_size = before.sector_size
  filepos : after.filepos = before.filepos
  filemax : after.filemax = before.filemax

/-- A read that succeeds has the bytes of the image in the buffer. -/
def Result.Delivers (result : Result) (opening : Opening)
    (sector byte_offset byte_len : Int) : Prop :=
  result.returned = true → 0 < byte_len →
    match opening with
    | .failed _ => False
    | .opened _ image =>
      let position := sector * 512 + byte_offset
      0 ≤ position ∧ position + byte_len ≤ image.val.length ∧ result.buffer =
          (image.val.drop position.toNat).take byte_len.toNat

/-- The same device. -/
def Globals.SameDevice (before left : Globals) : Prop :=
  left.current_drive = before.current_drive ∧ left.current_partition = before.current_partition ∧
    left.current_slice = before.current_slice

/-- The position the image is read at: an offset of `-1` leaves it at its start. -/
def readPosition (sector byte_offset : Int) : Int :=
  let position := imagePosition sector byte_offset
  if position = -1 then 0 else position

/-- The read is not noticed by the file that is being read.  What the file system
leaves, or what the loader sets, is by chance what was there before. -/
def Unnoticed (before : Globals) (reading : Reading)
    (sector byte_offset byte_len : Int) : Opening → Prop
  | .failed left =>
    before.SameDevice left ∧ before.sector_size = 512 ∧
      left.filepos = before.filepos ∧ left.filemax = before.filemax
  | .opened left image =>
    let position := readPosition sector byte_offset
    let size : Int := image.val.length
    before.filemax = size ∧
      if size < position ∨ position < 0 then
        before.SameDevice left ∧ before.sector_size = 512 ∧ before.filepos = 0
      else if reading.offers < byte_len ∨ size < position + byte_len then
        before.SameDevice reading.left ∧ before.sector_size = reading.left.sector_size ∧
          before.filepos = reading.left.filepos
      else
        before.sector_size = before.buf_sector_size ∧ before.filepos = position + byte_len ∧
          (reading.left.errnum = false → 0 ≤ sector * 512 + byte_offset ∧
              sector * 512 + byte_offset < 2147483648)

section

variable {before left : Globals} {image : Image} {reading : Reading}
  {sector byte_offset : Int} {byte_len : Nat}

theorem imagePosition_eq_iff : imagePosition sector byte_offset = sector * 512 + byte_offset ↔
      -2147483648 ≤ sector * 512 + byte_offset ∧
        sector * 512 + byte_offset < 2147483648 := by
  unfold imagePosition
  rw [Int.bmod_eq_iff (by decide)]
  omega

theorem u_seek_start (loffseek : Int) :
    u_seek { u_open left image with sector_size := 512 } loffseek =
      let position := if loffseek = -1 then 0 else loffseek
      if (image.val.length : Int) < position ∨ position < 0 then none
      else some { left with
          filepos := position, filemax := image.val.length, sector_size := 512 } := by
  unfold u_seek
  split
  · simp [u_open]
  · rfl

theorem rawread_loop_of_outside
    (outside : (image.val.length : Int) < readPosition sector byte_offset ∨
      readPosition sector byte_offset < 0) :
    rawread_loop before (.opened left image) reading sector byte_offset byte_len =
      ⟨false, { u_open left image with sector_size := 512 }, []⟩ := by
  unfold rawread_loop
  dsimp only
  rw [u_seek_start]
  simp only [readPosition] at outside
  rw [if_pos outside]

theorem rawread_loop_of_inside
    (inside : ¬ ((image.val.length : Int) < readPosition sector byte_offset ∨
      readPosition sector byte_offset < 0)) :
    rawread_loop before (.opened left image) reading sector byte_offset byte_len =
      rawread_loop_read before { left with
          filepos := readPosition sector byte_offset
          filemax := image.val.length
          sector_size := 512 }
        image reading byte_len := by
  unfold rawread_loop
  dsimp only
  rw [u_seek_start]
  simp only [readPosition] at inside
  rw [if_neg inside]
  rfl

variable {found : Globals}

theorem readCount_eq_iff (some : 0 < byte_len) :
    readCount found reading byte_len = byte_len ↔ ¬ ((reading.offers : Int) < byte_len ∨
        found.filemax < found.filepos + byte_len) := by
  unfold readCount
  omega

theorem rawread_loop_read_of_short (short : readCount found reading byte_len ≠ byte_len) :
    ∃ bytes, rawread_loop_read before found image reading byte_len =
      ⟨false, { reading.left with filemax := found.filemax }, bytes⟩ := by
  unfold rawread_loop_read
  dsimp only [u_read]
  have short' : readCount { found with sector_size := before.buf_sector_size }
      reading byte_len ≠ byte_len := short
  simp only [if_pos short', if_neg short']
  exact ⟨_, rfl⟩

theorem rawread_loop_read_of_full (full : readCount found reading byte_len = byte_len) :
    rawread_loop_read before found image reading byte_len = ⟨!reading.left.errnum,
        { before with
          sector_size := before.buf_sector_size
          buf_sector_size := reading.left.buf_sector_size
          filepos := found.filepos + byte_len
          filemax := found.filemax
          errnum := reading.left.errnum },
        (image.val.drop found.filepos.toNat).take byte_len⟩ := by
  unfold rawread_loop_read
  dsimp only [u_read]
  have full' : readCount { found with sector_size := before.buf_sector_size }
      reading byte_len = byte_len := full
  simp only [full', ne_eq, not_true_eq_false, ↓reduceIte]

theorem readPosition_of_int (nonneg : 0 ≤ sector * 512 + byte_offset)
    (small : sector * 512 + byte_offset < 2147483648) :
    readPosition sector byte_offset = sector * 512 + byte_offset := by
  unfold readPosition
  rw [imagePosition_eq_iff.mpr ⟨by omega, small⟩]
  exact if_neg (by omega)

theorem rawread_loop_iff (some : 0 < byte_len) (opening : Opening) :
    before.Restored (rawread_loop before opening reading sector byte_offset byte_len).globals ∧
        (rawread_loop before opening reading sector byte_offset byte_len).Delivers
          opening sector byte_offset byte_len ↔
      Unnoticed before reading sector byte_offset byte_len opening := by
  cases opening with
  | failed left =>
    constructor
    · rintro ⟨restored, -⟩
      exact ⟨⟨restored.drive, restored.partition, restored.slice⟩,
        restored.sector_size.symm, restored.filepos, restored.filemax⟩
    · rintro ⟨⟨drive, partition, slice⟩, sector_size, filepos, filemax⟩
      refine ⟨⟨drive, partition, slice, sector_size.symm, filepos, filemax⟩, ?_⟩
      intro returned
      cases returned
  | opened left image =>
    unfold Unnoticed
    dsimp only
    by_cases outside : (image.val.length : Int) < readPosition sector byte_offset ∨
          readPosition sector byte_offset < 0
    · rw [rawread_loop_of_outside outside, if_pos outside]
      constructor
      · rintro ⟨restored, -⟩
        exact ⟨restored.filemax.symm, ⟨restored.drive, restored.partition, restored.slice⟩,
          restored.sector_size.symm, restored.filepos.symm⟩
      · rintro ⟨filemax, ⟨drive, partition, slice⟩, sector_size, filepos⟩
        refine ⟨⟨drive, partition, slice, sector_size.symm, filepos.symm, filemax.symm⟩, ?_⟩
        intro returned
        cases returned
    · rw [rawread_loop_of_inside outside, if_neg outside]
      have count := @readCount_eq_iff reading byte_len { left with
          filepos := readPosition sector byte_offset
          filemax := image.val.length
          sector_size := 512 } some
      by_cases short : (reading.offers : Int) < byte_len ∨
          (image.val.length : Int) < readPosition sector byte_offset + byte_len
      · obtain ⟨bytes, read⟩ := @rawread_loop_read_of_short before image
          reading byte_len _ (fun full => count.mp full short)
        rw [read, if_pos short]
        constructor
        · rintro ⟨restored, -⟩
          exact ⟨restored.filemax.symm, ⟨restored.drive, restored.partition, restored.slice⟩,
            restored.sector_size.symm, restored.filepos.symm⟩
        · rintro ⟨filemax, ⟨drive, partition, slice⟩, sector_size, filepos⟩
          refine ⟨⟨drive, partition, slice, sector_size.symm, filepos.symm, filemax.symm⟩, ?_⟩
          intro returned
          cases returned
      · rw [rawread_loop_read_of_full (count.mpr short), if_neg short]
        constructor
        · rintro ⟨restored, delivers⟩
          refine ⟨restored.filemax.symm, restored.sector_size.symm,
            restored.filepos.symm, fun quiet => ?_⟩
          obtain ⟨nonneg, within, -⟩ := delivers (by rw [quiet]; rfl) (Int.natCast_pos.mpr some)
          exact ⟨nonneg, by omega⟩
        · rintro ⟨filemax, sector_size, filepos, position⟩
          refine ⟨⟨rfl, rfl, rfl, sector_size.symm, filepos.symm,
            filemax.symm⟩, fun returned _ => ?_⟩
          obtain ⟨nonneg, small⟩ := position (by simpa using returned)
          have meant := readPosition_of_int nonneg small
          refine ⟨nonneg, by omega, ?_⟩
          rw [meant]
          rfl

end

/-- The globals of a file on the first loop device, at a position in it. -/
def fileOnLoop (filepos filemax : Int) : Globals :=
  ⟨0xC0, 0xffffff, 7, 512, 512, filepos, filemax, false⟩

/-- An image of four bytes on another disk, and the globals it leaves. -/
def fourBytes : Opening :=
  .opened ⟨0x80, 0x1ffff, 6, 512, 512, 0, 0, false⟩ ⟨[1, 2, 3, 4], by decide⟩

end LoopDrive
end OsFree.Loader
