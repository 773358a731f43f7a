import OsFree.Ufsd.Tables

/-!
# The start and the drive letter of a partition

The start of a partition is looked up by its number, and the kernel gets it as the
number of hidden sectors.  The drive letter is in the last sector of the track
that has the partition table.
-/

namespace OsFree.Ufsd

/-- An entry of an extended boot record: the link, and the number of the next
partition. -/
def countEntry (buf : Table) (found : Option (Fin 4) × Nat) (i : Fin 4) :
    Option (Fin 4) × Nat :=
  if buf.isExt i then (some i, found.2) else (found.1, found.2 + 1)

/-- The loop over the extended boot records.  It stops at the one for the
partition, or at one without a link, and gives the sector. -/
def seek (drive : Drive) (part_no : Nat) :
    Nat → UInt32 → UInt32 → Reader Table → Option (Fin 4) → Nat → Option (UInt32 × Reader Table)
  | _, _, part_start, reader, none, _ => some (part_start, reader)
  | 0, _, _, _, some _, _ => none
  | fuel + 1, ext_start, _, reader, some i, parts =>
    let next := Disk.target reader.buf ext_start i
    if parts = part_no then some (next.1, reader)
    else
      let reader := rawread drive next.1 tableOf reader
      let found := two.foldl (countEntry reader.buf) (none, parts)
      seek drive part_no fuel next.2 next.1 reader found.1 found.2

/-- The first of two entries that is not a link, or else the third one. -/
def Table.needed (buf : Table) : Fin 4 :=
  if buf.isExt 0 = false then 0 else if buf.isExt 1 = false then 1 else 2

/-- The start of the boot record of a partition. -/
def recordStart (fuel : Nat) (drive : Drive) (part_no : Nat)
    (reader : Reader Table) : Option (UInt32 × Reader Table) :=
  if part_no < 4 then some (reader.buf.part_start (Fin.ofNat 4 part_no), reader)
  else
    seek drive part_no fuel 0 0 reader ((List.finRange 4).find? reader.buf.isExt) 4

/-- The start of a partition, or with `flag` clear that of its boot record. -/
def offset (fuel : Nat) (drive : Drive) (part_no : Nat) (flag : Bool)
    (errnum : Bool) : Option (UInt32 × Reader Table) := do
  let reader := rawread drive 0 tableOf ⟨fun _ => 0, errnum, 0⟩
  let found ← recordStart fuel drive part_no reader
  if flag then
    let reader := rawread drive found.1 tableOf found.2
    some (found.1 + reader.buf.part_start reader.buf.needed, reader)
  else some found

/-- A word of a sector. -/
def word (sector : Sector) (k : Fin 0x1fd) : UInt32 :=
  (sector ⟨k, by omega⟩).toUInt32 ||| (sector ⟨k + 1, by omega⟩).toUInt32 <<< 8 |||
    (sector ⟨k + 2, by omega⟩).toUInt32 <<< 16 |||
    (sector ⟨k + 3, by omega⟩).toUInt32 <<< 24

/-- A step of an entry of the table for checksums. -/
def crcStep (crc : UInt32) : UInt32 :=
  if crc &&& 1 ≠ 0 then (crc >>> 1) ^^^ 0xEDB88320 else crc >>> 1

/-- An entry of the table for checksums. -/
def crc_table (i : UInt32) : UInt32 := Nat.iterate crcStep 8 i

/-- The checksum of some bytes. -/
def crc32 (bytes : List UInt8) : UInt32 := bytes.foldl (fun crc byte =>
    crc_table ((crc ^^^ byte.toUInt32) &&& 0xff) ^^^ ((crc >>> 8) &&& 0x00ffffff)) 0xFFFFFFFF

/-- A sector without its checksum and what is behind the table. -/
def cleared (sector : Sector) : Sector :=
  fun k => if 8 ≤ k.val ∧ k.val < 12 ∨ 300 ≤ k.val then 0 else sector k

/-- The signatures and the checksum of a table of drive letters are right. -/
def DlaCorrect (sector : Sector) : Prop := word sector 0 = 0x424D5202 ∧ word sector 4 = 0x44464D50 ∧
    word sector 8 = crc32 (List.ofFn (cleared sector))

instance (sector : Sector) : Decidable (DlaCorrect sector) :=
  inferInstanceAs (Decidable (_ ∧ _ ∧ _))

/-- The capital of a letter. -/
def grub_toupper (c : UInt8) : UInt8 :=
  if 97 ≤ c ∧ c ≤ 122 then c - 32 else c

/-- The drive letter of an entry of the table. -/
def drive_Letter (sector : Sector) (i : Fin 4) : UInt8 := sector ⟨60 + 60 * i + 18, by omega⟩

/-- The number of the partition that was booted from. -/
def bootPart (boot_device : UInt32) : UInt8 := (boot_device >>> 16).toUInt8

/-- The sector of the table of drive letters, whether an error is pending, and how
many requests for the drive there have been. -/
def dlaSector (fuel : Nat) (drive : Drive) (add : UInt32) (part_no : UInt8) :
    Option (UInt32 × Bool × Nat) :=
  if part_no < 4 then some (add, false, 0)
  else
    (fun found => (found.1 + add, found.2.errnum, found.2.reads)) <$>
      offset fuel drive part_no.toNat false false

/-- The letter of the partition that was booted from, or none.  `sectors` are
those on a track, if the geometry is known. -/
def dla (fuel : Nat) (drive : Drive) (sectors : Option UInt32)
    (boot_device : UInt32) : Option (Option UInt8) :=
  let part_no := bootPart boot_device
  match sectors with
  | none => some none
  | some sectors =>
    (fun found : UInt32 × Bool × Nat =>
      let p := (rawread drive found.1 id ⟨fun _ => 0, found.2.1, found.2.2⟩).buf
      let dlae := if part_no < 4 then Fin.ofNat 4 part_no.toNat else 0
      if DlaCorrect p then some (grub_toupper (drive_Letter p dlae)) else none)
      <$> dlaSector fuel drive (sectors - 1) part_no

section

variable {drive : Drive} {part_no fuel fuel' : Nat} {flag errnum : Bool}

theorem seek_mono {ext_start part_start : UInt32} {reader : Reader Table}
    {ext : Option (Fin 4)} {parts : Nat} {result : UInt32 × Reader Table}
    (more : fuel ≤ fuel')
    (sought : seek drive part_no fuel ext_start part_start reader ext parts = some result) :
    seek drive part_no fuel' ext_start part_start reader ext parts =
      some result := by
  induction fuel generalizing fuel' ext_start part_start reader ext parts with
  | zero =>
    cases ext with
    | none => cases fuel' <;> exact sought
    | some i => cases sought
  | succ fuel ih =>
    obtain ⟨extra, rfl⟩ := Nat.exists_eq_add_of_le' more
    cases ext with
    | none => exact sought
    | some i =>
      simp only [seek] at sought ⊢
      split at sought
      · rwa [if_pos ‹_›]
      · rw [if_neg ‹_›]
        exact ih (Nat.le_add_left fuel extra) sought

theorem offset_mono {result : UInt32 × Reader Table} (more : fuel ≤ fuel')
    (found : offset fuel drive part_no flag errnum = some result) :
    offset fuel' drive part_no flag errnum = some result := by
  obtain ⟨start, sought, rest⟩ := Option.bind_eq_some_iff.mp found
  refine Option.bind_eq_some_iff.mpr ⟨start, ?_, rest⟩
  unfold recordStart at sought ⊢
  split at sought
  · rwa [if_pos ‹_›]
  · rw [if_neg ‹_›]
    exact seek_mono more sought

theorem dla_mono {sectors : Option UInt32} {boot_device : UInt32}
    {result : Option UInt8} (more : fuel ≤ fuel')
    (found : dla fuel drive sectors boot_device = some result) :
    dla fuel' drive sectors boot_device = some result := by
  cases sectors with
  | none => exact found
  | some sectors =>
    obtain ⟨place, sought, rest⟩ := Option.map_eq_some_iff.mp found
    refine Option.map_eq_some_iff.mpr ⟨place, ?_, rest⟩
    unfold dlaSector at sought ⊢
    split at sought
    · rwa [if_pos ‹_›]
    · rw [if_neg ‹_›]
      obtain ⟨start, found, same⟩ := Option.map_eq_some_iff.mp sought
      exact Option.map_eq_some_iff.mpr ⟨start, offset_mono more found, same⟩

end

/-!
## Which partitions are found

The numbers of the logical partitions count boot records.  So a partition is found
if every earlier boot record has one, and if no other entry is taken for it.
-/

/-- An entry that has a partition. -/
def Table.Used (buf : Table) (i : Fin 4) : Prop := buf.isExt i = false ∧ buf.pte i 4 ≠ 0

instance (buf : Table) (i : Fin 4) : Decidable (buf.Used i) := inferInstanceAs (Decidable (_ ∧ _))

/-- A boot record has a partition. -/
def Table.HasPartition (buf : Table) : Prop := ∃ i ∈ two, buf.Used i

instance (buf : Table) : Decidable buf.HasPartition :=
  inferInstanceAs (Decidable (∃ i ∈ two, buf.Used i))

/-- A drive that works, whose tables are well formed.  Boot records are different
sectors with at most one partition each, and the disk has the start of each
primary partition. -/
structure Drive.Partitioned (drive : Drive) (records : List UInt32) : Prop where
  wellFormed : drive.disk.WellFormed records
  works : ∀ n, drive.outcome n = .read
  readable : ∀ sector ∈ 0 :: records, drive.disk.Readable sector
  nodup : records.Nodup
  single : ∀ sector ∈ records, ∀ i ∈ two, ∀ j ∈ two,
    (drive.disk.table sector).Used i → (drive.disk.table sector).Used j → i = j
  primary : ∀ i, (drive.disk.table 0).Used i →
    drive.disk.Readable ((drive.disk.table 0).part_start i)

/-- An entry of the master boot record, or of an extended one. -/
inductive Place where
  | primary (i : Fin 4)
  | logical (record : Nat) (entry : Fin 4)

namespace Place

variable (disk : Disk) (records : List UInt32)

/-- The sector of the table with the entry. -/
def record : Place → UInt32
  | primary _ => 0
  | logical j _ => records[j]?.getD 0

/-- The entry of the table. -/
def entry : Place → Fin 4
  | primary i => i
  | logical _ e => e

/-- The place has a partition. -/
def Has : Place → Prop
  | primary i => (disk.table 0).Used i
  | logical j e => j < records.length ∧ e ∈ two ∧ (disk.table ((logical j e).record records)).Used e

/-- The number of the partition.  Only boot records that have one are counted. -/
def number : Place → Nat
  | primary i => i.val
  | logical j _ => 4 + (records.take j).countP fun sector =>
    (disk.table sector).HasPartition

/-- Where the partition starts. -/
def start (place : Place) : UInt32 :=
  place.record records + (disk.table (place.record records)).part_start place.entry

/-- The sector with the drive letters for a table: the last one of the track. -/
def letters (sectors : UInt32) (place : Place) : Sector :=
  disk.sector (place.record records + (sectors - 1))

/-- The table of drive letters can be read, and is right. -/
def HasLetters (sectors : UInt32) (place : Place) : Prop :=
  disk.Readable (place.record records + (sectors - 1)) ∧
    DlaCorrect (place.letters disk records sectors)

/-- The drive letter of the partition. -/
def letter (sectors : UInt32) (place : Place) : UInt8 :=
  grub_toupper (drive_Letter (place.letters disk records sectors) place.entry)

/-- The start of the partition is found, and of its boot record if it is a logical
one, and its drive letter if it is booted from and the table is right. -/
def Found (drive : Drive) (sectors : UInt32) (place : Place) : Prop := (∃ fuel reader,
    offset fuel drive (place.number drive.disk records) true false =
      some (place.start drive.disk records, reader)) ∧
    (∀ j e, place = logical j e → ∃ fuel reader,
      offset fuel drive (place.number drive.disk records) false false =
        some (place.record records, reader)) ∧
    (place.HasLetters drive.disk records sectors → ∀ boot_device,
      (bootPart boot_device).toNat = place.number drive.disk records →
      ∃ fuel, dla fuel drive (some sectors) boot_device =
        some (some (place.letter drive.disk records sectors)))

/-- The boot sector of a primary partition has zeros where the start of an entry
would be.  Every boot record before that of a logical partition has a partition;
an unused entry before its own has the same start; and the first drive letter is
its own. -/
def Allows (sectors : UInt32) : Place → Prop
  | primary i =>
    let boot := disk.table ((primary i).start disk records)
    boot.part_start boot.needed = 0
  | logical j e =>
    (∀ sector ∈ records.take j, (disk.table sector).HasPartition) ∧ (∀ i, i < e →
        (disk.table ((logical j e).record records)).isExt i = false →
        (disk.table ((logical j e).record records)).part_start i =
          (disk.table ((logical j e).record records)).part_start e) ∧
      ((logical j e).HasLetters disk records sectors → (logical j e).number disk records < 256 →
        grub_toupper (drive_Letter ((logical j e).letters disk records sectors) 0) =
          (logical j e).letter disk records sectors)

end Place

section

variable {buf : Table} {i e : Fin 4} {n : Nat} {target : Option UInt32}

theorem countEntry_of_link {start : UInt32} (links : buf.LinksTo 2 (some start)) (parts : Nat) :
    two.foldl (countEntry buf) (none, parts) = (buf.lastExt two, parts + 1) := by
  obtain ⟨i, inside, ext, starts, unique⟩ := links
  have one := unique 1 (by decide)
  unfold two Table.lastExt
  simp only [List.foldl_cons, List.foldl_nil, countEntry, List.filter_cons, List.filter_nil]
  grind

theorem find?_isExt_of_linksTo (links : buf.LinksTo 4 target) :
    (List.finRange 4).find? buf.isExt = buf.lastExt (List.finRange 4) := by
  have entries : List.finRange 4 = [0, 1, 2, 3] := rfl
  rw [Table.lastExt, entries]
  cases target with
  | none =>
    have none : [0, 1, 2, 3].filter buf.isExt = [] := by
      rw [List.filter_eq_nil_iff]
      intro i _
      rw [links i i.isLt]
      exact Bool.false_ne_true
    rw [← List.head?_filter, none]
    rfl
  | some start =>
    obtain ⟨i, inside, ext, starts, unique⟩ := links
    simp only [List.find?_cons, List.find?_nil, List.filter_cons, List.filter_nil]
    grind

theorem part_start_needed_iff (inside : e ∈ two) (other : buf.isExt e = false) :
    buf.part_start buf.needed = buf.part_start e ↔
      ∀ i, i < e → buf.isExt i = false → buf.part_start i = buf.part_start e := by
  simp only [two, List.mem_cons, List.not_mem_nil, or_false] at inside
  rcases inside with rfl | rfl
  · rw [Table.needed, if_pos other]
    simp
  · have before (i : Fin 4) : i < 1 ↔ i = 0 := by omega
    simp only [before, forall_eq, Table.needed]
    cases first : buf.isExt 0 with
    | true => simp [other]
    | false => simp

end

section

variable {drive : Drive} {part_no n : Nat} {flag : Bool} {start start' : UInt32}
  {reader : Reader Table}

theorem offset_eq_iff (found : ∀ fuel, offset (n + fuel) drive part_no flag false =
      some (start, reader)) :
    (∃ fuel reader, offset fuel drive part_no flag false =
        some (start', reader)) ↔ start = start' := by
  constructor
  · rintro ⟨fuel, reader', found'⟩
    have more := offset_mono (Nat.le_add_left fuel n) found'
    rw [found fuel] at more
    cases more
    rfl
  · rintro rfl
    exact ⟨n + 0, reader, found 0⟩

end

namespace Drive
namespace Partitioned

variable {drive : Drive} {records : List UInt32} (partitioned : drive.Partitioned records)

include partitioned

theorem result_eq {n : Nat} {sector : UInt32} (readable : drive.disk.Readable sector) :
    drive.result n sector = .read := by
  rw [Drive.result, if_pos readable]
  exact partitioned.works n

variable {k : Nat} {sectors boot_device : UInt32}

theorem readable_getElem (inside : k < records.length) :
    drive.disk.Readable records[k] :=
  partitioned.readable _ (List.mem_cons_of_mem 0 (List.getElem_mem inside))

theorem tableAt_succ (inside : k < records.length) :
    drive.disk.tableAt (k + 1) = drive.disk.table records[k] := by
  rw [Disk.tableAt, partitioned.wellFormed.cursor_succ inside]

theorem seek_eq (inside : k < records.length) (fuel d : Nat)
    {t : Nat} (ahead : t + d = k) (part_start : UInt32) :
    seek drive (4 + k) (d + 1 + fuel) (drive.disk.cursor t).ext_start part_start
        (drive.reader t) (drive.disk.link t) (4 + t) =
      some (records[k], drive.reader k) := by
  have buf (t : Nat) : (drive.reader t).buf = drive.disk.tableAt t := rfl
  induction d generalizing t part_start with
  | zero =>
    rw [Nat.add_zero] at ahead
    subst ahead
    obtain ⟨i, next⟩ := Option.ne_none_iff_exists'.mp (partitioned.wellFormed.link_ne_none inside)
    rw [Nat.add_right_comm, next, seek, if_pos rfl, buf,
      drive.disk.target_fst next, partitioned.wellFormed.cursor_succ inside]
  | succ d ih =>
    obtain ⟨i, next⟩ := Option.ne_none_iff_exists'.mp
      (partitioned.wellFormed.link_ne_none (show t < records.length by omega))
    have links := partitioned.wellFormed.link t records[t] (List.getElem?_eq_getElem _)
    rw [List.getElem?_eq_getElem (show t + 1 < records.length by omega)]
      at links
    have counted := countEntry_of_link links (4 + t)
    rw [← partitioned.tableAt_succ, drive.disk.lastExt_two next] at counted
    have read : rawread drive (drive.disk.cursor (t + 1)).sector tableOf
        (drive.reader t) = drive.reader (t + 1) := by
      refine rawread_of_reads (partitioned.result_eq ?_)
      rw [partitioned.wellFormed.cursor_succ]
      exact partitioned.readable_getElem (by omega)
    rw [Nat.add_right_comm, next, seek, if_neg (by omega), buf,
      drive.disk.target_fst next, drive.disk.target_snd next, read]
    simp only [buf, counted]
    exact ih (by omega) _

theorem rawread_zero :
    rawread drive 0 tableOf ⟨fun _ => 0, false, 0⟩ = drive.reader 0 :=
  rawread_of_reads (partitioned.result_eq (partitioned.readable 0 (List.mem_cons_self ..)))

theorem recordStart_eq (inside : k < records.length) (fuel : Nat) :
    recordStart (k + 1 + fuel) drive (4 + k) (drive.reader 0) =
      some (records[k], drive.reader k) := by
  have first : (List.finRange 4).find? (drive.reader 0).buf.isExt =
      drive.disk.link 0 := find?_isExt_of_linksTo partitioned.wellFormed.mbr
  rw [recordStart, if_neg (by omega), first]
  exact partitioned.seek_eq inside fuel k (Nat.zero_add k) 0

theorem offset_false (inside : k < records.length) (fuel : Nat) :
    offset (k + 1 + fuel) drive (4 + k) false false =
      some (records[k], drive.reader k) := by
  rw [offset, partitioned.rawread_zero, partitioned.recordStart_eq inside]
  rfl

theorem offset_true (inside : k < records.length) (fuel : Nat) :
    offset (k + 1 + fuel) drive (4 + k) true false =
      some (records[k] + (drive.disk.table records[k]).part_start
        (drive.disk.table records[k]).needed,
        ⟨drive.disk.table records[k], false, k + 2⟩) := by
  have read : rawread drive records[k] tableOf (drive.reader k) =
      ⟨drive.disk.table records[k], false, k + 2⟩ :=
    rawread_of_reads (partitioned.result_eq (partitioned.readable_getElem inside))
  rw [offset, partitioned.rawread_zero, partitioned.recordStart_eq inside]
  simp only [Option.bind_eq_bind, Option.bind_some, if_true, read]

theorem offset_primary {i : Fin 4} (used : (drive.disk.table 0).Used i) (fuel : Nat) :
    offset (0 + fuel) drive i true false = some ((drive.disk.table 0).part_start i +
        (drive.disk.table ((drive.disk.table 0).part_start i)).part_start
          (drive.disk.table ((drive.disk.table 0).part_start i)).needed,
        ⟨drive.disk.table ((drive.disk.table 0).part_start i), false, 2⟩) := by
  have read : rawread drive ((drive.disk.table 0).part_start i) tableOf (drive.reader 0) =
        ⟨drive.disk.table ((drive.disk.table 0).part_start i), false, 2⟩ :=
    rawread_of_reads (partitioned.result_eq (partitioned.primary i used))
  have number : Fin.ofNat 4 i = i := Fin.ofNat_val_eq_self i
  have buf : (drive.reader 0).buf = drive.disk.table 0 := rfl
  rw [offset, partitioned.rawread_zero, recordStart, if_pos i.isLt, number, buf]
  simp only [Option.bind_eq_bind, Option.bind_some, if_true, read]

theorem dla_of_dlaSector {fuel reads : Nat} {sec : UInt32}
    (sought : dlaSector fuel drive (sectors - 1) (bootPart boot_device) = some (sec, false, reads))
    (readable : drive.disk.Readable sec)
    (correct : DlaCorrect (drive.disk.sector sec)) :
    dla fuel drive (some sectors) boot_device =
      some (some (grub_toupper (drive_Letter (drive.disk.sector sec)
        (if bootPart boot_device < 4 then
          Fin.ofNat 4 (bootPart boot_device).toNat else 0)))) := by
  have read : rawread drive sec id ⟨fun _ => 0, false, reads⟩ =
      ⟨drive.disk.sector sec, false, reads + 1⟩ :=
    rawread_of_reads (partitioned.result_eq readable)
  simp only [dla, sought, Option.map_eq_map, Option.map_some, read, if_pos correct]

theorem dla_primary {i : Fin 4} (booted : (bootPart boot_device).toNat = i)
    (letters : (Place.primary i).HasLetters drive.disk records sectors) :
    dla 0 drive (some sectors) boot_device =
      some (some ((Place.primary i).letter drive.disk records sectors)) := by
  obtain ⟨readable, correct⟩ := letters
  have low : bootPart boot_device < 4 := UInt8.lt_iff_toNat_lt.mpr (by rw [booted]; exact i.isLt)
  have sought : dlaSector 0 drive (sectors - 1) (bootPart boot_device) =
      some ((Place.primary i).record records + (sectors - 1), false, 0) := by
    rw [dlaSector, if_pos low, Place.record, UInt32.zero_add]
  rw [partitioned.dla_of_dlaSector sought readable correct, if_pos low, booted,
    Fin.ofNat_val_eq_self]
  rfl

theorem dla_logical (inside : k < records.length) (fuel : Nat)
    (booted : (bootPart boot_device).toNat = 4 + k)
    (readable : drive.disk.Readable (records[k] + (sectors - 1)))
    (correct : DlaCorrect (drive.disk.sector (records[k] + (sectors - 1)))) :
    dla (k + 1 + fuel) drive (some sectors) boot_device = some (some (grub_toupper
        (drive_Letter (drive.disk.sector (records[k] + (sectors - 1))) 0))) := by
  have high : ¬ bootPart boot_device < 4 := by
    rw [UInt8.lt_iff_toNat_lt, booted]
    exact Nat.not_lt.mpr (Nat.le_add_right 4 k)
  have sought : dlaSector (k + 1 + fuel) drive (sectors - 1) (bootPart boot_device) =
        some (records[k] + (sectors - 1), false, k + 1) := by
    rw [dlaSector, if_neg high, booted, partitioned.offset_false inside]
    rfl
  rw [partitioned.dla_of_dlaSector sought readable correct, if_neg high]

end Partitioned
end Drive

theorem exists_bootPart {n : Nat} (small : n < 256) :
    ∃ boot_device, (bootPart boot_device).toNat = n := by
  refine ⟨UInt32.ofNat (n * 65536), ?_⟩
  simp [bootPart, Nat.shiftRight_eq_div_pow]
  omega

section

variable {drive : Drive} {records : List UInt32} {sectors : UInt32}

theorem found_primary_iff (partitioned : drive.Partitioned records) {i : Fin 4}
    (used : (drive.disk.table 0).Used i) :
    (Place.primary i).Found records drive sectors ↔
      (Place.primary i).Allows drive.disk records sectors := by
  have start : (Place.primary i).start drive.disk records =
      (drive.disk.table 0).part_start i := UInt32.zero_add _
  have found : (∃ fuel reader, offset fuel drive i true false =
      some ((drive.disk.table 0).part_start i, reader)) ↔ _ :=
    offset_eq_iff (partitioned.offset_primary used)
  rw [UInt32.add_eq_left] at found
  constructor
  · rintro ⟨begins, -, -⟩
    rw [start] at begins
    rw [Place.Allows, start]
    exact found.mp begins
  · intro allowed
    rw [Place.Allows, start] at allowed
    refine ⟨?_, ?_, ?_⟩
    · rw [start]
      exact found.mpr allowed
    · intro j e same
      cases same
    · intro letters boot_device booted
      exact ⟨0, partitioned.dla_primary booted letters⟩

theorem found_logical_iff (partitioned : drive.Partitioned records) {j : Nat}
    {e : Fin 4} (has : (Place.logical j e).Has drive.disk records) :
    (Place.logical j e).Found records drive sectors ↔
      (Place.logical j e).Allows drive.disk records sectors := by
  obtain ⟨inside, member, used⟩ := has
  have record : (Place.logical j e).record records = records[j] := by
    rw [Place.record, List.getElem?_eq_getElem inside]
    rfl
  rw [record] at used
  obtain ⟨k, count⟩ : ∃ k, (records.take j).countP (fun sector =>
    (drive.disk.table sector).HasPartition) = k := ⟨_, rfl⟩
  have number : (Place.logical j e).number drive.disk records = 4 + k := by
    rw [Place.number, count]
  have atMost : k ≤ j := by
    have bound := List.countP_le_length (p := fun sector =>
      decide (drive.disk.table sector).HasPartition) (l := records.take j)
    rw [count, List.length_take] at bound
    omega
  have all : (∀ sector ∈ records.take j,
      (drive.disk.table sector).HasPartition) ↔ k = j := by
    have every := List.countP_eq_length (p := fun sector =>
      decide (drive.disk.table sector).HasPartition) (l := records.take j)
    rw [count, List.length_take, Nat.min_eq_left (Nat.le_of_lt inside)] at every
    simpa using every.symm
  have inside' : k < records.length := Nat.lt_of_le_of_lt atMost inside
  have boot : (∃ fuel reader, offset fuel drive (4 + k) false false =
      some (records[j], reader)) ↔ k = j := by
    rw [offset_eq_iff (partitioned.offset_false inside'), partitioned.nodup.getElem_inj_iff]
  have start : (Place.logical j e).start drive.disk records =
      records[j] + (drive.disk.table records[j]).part_start e := by
    rw [Place.start, record]
    rfl
  by_cases same : k = j
  · subst same
    have begins : (∃ fuel reader, offset fuel drive (4 + k) true false =
        some ((Place.logical k e).start drive.disk records, reader)) ↔ _ :=
      offset_eq_iff (partitioned.offset_true inside)
    rw [start, UInt32.add_right_inj, part_start_needed_iff member used.1] at begins
    have letters (right : (Place.logical k e).HasLetters drive.disk records sectors) :
        (∀ boot_device, (bootPart boot_device).toNat = 4 + k → ∃ fuel,
          dla fuel drive (some sectors) boot_device = some
            (some ((Place.logical k e).letter drive.disk records sectors))) ↔
        (4 + k < 256 → grub_toupper (drive_Letter
              ((Place.logical k e).letters drive.disk records sectors) 0) =
            (Place.logical k e).letter drive.disk records sectors) := by
      obtain ⟨readable, correct⟩ := right
      rw [Place.letters, record] at correct ⊢
      rw [record] at readable
      constructor
      · intro given small
        obtain ⟨boot_device, booted⟩ := exists_bootPart small
        obtain ⟨fuel, found⟩ := given boot_device booted
        have more := dla_mono (Nat.le_add_left fuel (k + 1)) found
        rw [partitioned.dla_logical inside fuel booted readable correct] at more
        exact Option.some.inj (Option.some.inj more)
      · intro same boot_device booted
        have small : 4 + k < 256 := by
          rw [← booted]
          exact UInt8.toNat_lt _
        refine ⟨k + 1 + 0, ?_⟩
        rw [partitioned.dla_logical inside 0 booted readable correct, same small]
    constructor
    · rintro ⟨found, -, given⟩
      rw [number, start] at found
      rw [number] at given
      refine ⟨all.mpr rfl, ?_, ?_⟩
      · rw [record]
        exact begins.mp found
      · intro right
        rw [number]
        exact (letters right).mp (given right)
    · rintro ⟨-, before, same⟩
      rw [record] at before
      rw [number] at same
      refine ⟨?_, ?_, ?_⟩
      · rw [number, start]
        exact begins.mpr before
      · rintro _ _ ⟨rfl, rfl⟩
        rw [number, record]
        exact boot.mpr rfl
      · intro right
        rw [number]
        exact (letters right).mpr (same right)
  · constructor
    · rintro ⟨-, found, -⟩
      have found := found j e rfl
      rw [number, record] at found
      exact absurd (boot.mp found) same
    · rintro ⟨every, -⟩
      exact absurd (all.mp every) same

/-- The start, the boot record and the drive letter of a partition are found if and
only if no other entry is taken for its own. -/
theorem found_iff (partitioned : drive.Partitioned records) (sectors : UInt32)
    {place : Place} (has : place.Has drive.disk records) :
    place.Found records drive sectors ↔
      place.Allows drive.disk records sectors := by
  cases place with
  | primary i => exact found_primary_iff partitioned has
  | logical j e => exact found_logical_iff partitioned has

/-- The first logical partition, which starts behind its boot record 10. -/
theorem found_iff_first_logical : ∃ drive : Drive, drive.Partitioned [10] ∧
      (Place.logical 0 0).start drive.disk [10] = 11 ∧
      (Place.logical 0 0).Found [10] drive 63 := by
  let disk : Disk := ⟨100, fun sector k =>
      if sector = 0 ∧ k = 450 then 5 else if sector = 0 ∧ k = 454 then 10
      else if sector = 10 ∧ k = 450 then 7 else if sector = 10 ∧ k = 454 then 1
      else 0⟩
  let drive : Drive := ⟨0x80, disk, fun _ => .read, by decide⟩
  have wellFormed : disk.WellFormed [10] := by
    refine ⟨⟨0, by decide, by decide, by decide, by decide⟩, by decide, ?_⟩
    rintro (_ | k) sector found
    · cases found
      change ∀ i : Fin 4, _
      decide
    · cases found
  have partitioned : drive.Partitioned [10] := by
    refine ⟨wellFormed, fun _ => rfl, ?_, by decide, ?_, by decide⟩
    · exact List.forall_mem_cons.mpr ⟨by decide, List.forall_mem_singleton.mpr (by decide)⟩
    · exact List.forall_mem_singleton.mpr (by decide)
  have has : (Place.logical 0 0).Has drive.disk [10] := ⟨by decide, by decide, by decide⟩
  refine ⟨drive, partitioned, by decide, (found_iff partitioned 63 has).mpr ?_⟩
  refine ⟨by simp, ?_, fun _ _ => rfl⟩
  intro i before
  exact absurd before (Fin.not_lt_zero i)

/-- The boot sector of a primary partition is read as if it were a partition
table. -/
theorem boot_sector_read_as_table : ∃ drive : Drive, drive.Partitioned [] ∧
      (Place.primary 0).Has drive.disk [] ∧
      (Place.primary 0).start drive.disk [] = 63 ∧
      (∃ reader, offset 0 drive ((Place.primary 0).number drive.disk []) true
        false = some (64, reader)) ∧
      ¬ (Place.primary 0).Found [] drive 63 := by
  let disk : Disk := ⟨100, fun sector k =>
      if sector = 0 ∧ k = 450 then 7 else if sector = 0 ∧ k = 454 then 63
      else if sector = 63 ∧ k = 454 then 1 else 0⟩
  let drive : Drive := ⟨0x80, disk, fun _ => .read, by decide⟩
  have wellFormed : disk.WellFormed [] := by
    refine ⟨?_, by simp, ?_⟩
    · change ∀ i : Fin 4, _
      decide
    · intro k sector found
      cases found
  have partitioned : drive.Partitioned [] :=
    ⟨wellFormed, fun _ => rfl, List.forall_mem_singleton.mpr (by decide), by decide,
      List.forall_mem_nil _, by decide⟩
  have used : (drive.disk.table 0).Used 0 := by decide
  have sum : (drive.disk.table 0).part_start 0 +
      (drive.disk.table ((drive.disk.table 0).part_start 0)).part_start
        (drive.disk.table ((drive.disk.table 0).part_start 0)).needed = 64 := by
    decide
  have found := partitioned.offset_primary used 0
  rw [sum] at found
  refine ⟨drive, partitioned, used, by decide, ⟨_, found⟩, ?_⟩
  rintro ⟨begins, -, -⟩
  have same := (offset_eq_iff (partitioned.offset_primary used)).mp begins
  revert same
  decide

end

end OsFree.Ufsd
