import Mathlib.Algebra.Order.Ring.Int
import Mathlib.Data.List.FinRange

/-!
# Partition tables

The micro file system driver reads the table of the master boot record, and then
one extended boot record after another.  Every table is read to the same buffer,
and nobody asks whether that has succeeded.
-/

namespace OsFree.Ufsd

/-- The bytes of a sector. -/
abbrev Sector := Fin 0x200 → UInt8

/-- The bytes of a partition table. -/
abbrev Table := Fin 0x40 → UInt8

/-- A table has entries, which the literals below count from 0. -/
instance entries_neZero : NeZero 4 := ⟨by decide⟩

/-- An entry has bytes. -/
instance bytes_neZero : NeZero 16 := ⟨by decide⟩

/-- The partition table in a sector. -/
def tableOf (sector : Sector) : Table := fun k => sector ⟨0x1be + k, by omega⟩

namespace Table

variable (buf : Table)

/-- A byte of an entry. -/
def pte (i : Fin 4) (k : Fin 16) : UInt8 := buf ⟨0x10 * i + k, by omega⟩

/-- The entry of an extended partition, which is a link to another table. -/
def isExt (i : Fin 4) : Bool := buf.pte i 4 == 0x5 || buf.pte i 4 == 0xf

/-- Where the partition of an entry starts. -/
def part_start (i : Fin 4) : UInt32 :=
  (buf.pte i 11).toUInt32 <<< 24 ||| (buf.pte i 10).toUInt32 <<< 16 |||
    (buf.pte i 9).toUInt32 <<< 8 ||| (buf.pte i 8).toUInt32

/-- The link that is found last among some entries. -/
def lastExt (entries : List (Fin 4)) : Option (Fin 4) := (entries.filter buf.isExt).getLast?

/-- The only link among the first entries leads to the target, or there is
none. -/
def LinksTo (entries : Nat) (target : Option UInt32) : Prop :=
  match target with
  | none => ∀ i : Fin 4, i.val < entries → buf.isExt i = false
  | some start => ∃ i : Fin 4, i.val < entries ∧ buf.isExt i = true ∧ buf.part_start i = start ∧
      ∀ j : Fin 4, j.val < entries → buf.isExt j = true → j = i

end Table

/-- The entries of an extended boot record. -/
def two : List (Fin 4) := [0, 1]

/-- A disk: the number of its sectors and what is in them. -/
structure Disk where
  total_sectors : UInt32
  sector : UInt32 → Sector

namespace Disk

variable (disk : Disk)

/-- The partition table in a sector of the disk. -/
def table (sector : UInt32) : Table := tableOf (disk.sector sector)

/-- A sector that can be read: its number is not negative as an `int`, and within
the disk. -/
def Readable (sector : UInt32) : Prop := sector.toNat < 2147483648 ∧ sector < disk.total_sectors

instance (sector : UInt32) : Decidable (disk.Readable sector) := inferInstanceAs (Decidable (_ ∧ _))

/-- The extended boot records of a disk: the master boot record has a link to the
first one; the links of the others are relative to it. -/
structure WellFormed (records : List UInt32) : Prop where
  mbr : (disk.table 0).LinksTo 4 records.head?
  nonzero : records.head? ≠ some 0
  link : ∀ k sector, records[k]? = some sector → (disk.table sector).LinksTo 2
      (records[k + 1]?.map (· - records.headD 0))

end Disk

/-- What comes of a request to the BIOS: the sector is read, or nothing is, or it
fails with something in the buffer. -/
inductive Outcome where
  | read
  | refused
  | garbled (left : Sector)

/-- The buffer for a piece of a sector after a request that has failed. -/
def Outcome.left {α : Type} (outcome : Outcome) (piece : Sector → α) (buf : α) : α :=
  match outcome with
  | .garbled left => piece left
  | _ => buf

/-- A drive that the loader lists, with the outcomes of the requests for it in
their order.  The loader lists hard disks only. -/
structure Drive where
  drive_number : UInt8
  disk : Disk
  outcome : Nat → Outcome
  hard : 0x80 ≤ drive_number

/-- The outcome of a request for a sector.  A sector outside the disk is
refused. -/
def Drive.result (drive : Drive) (reads : Nat) (sector : UInt32) : Outcome :=
  if drive.disk.Readable sector then drive.outcome reads else .refused

/-- The buffer, whether an error is pending, and how many requests for the drive
there have been. -/
structure Reader (α : Type) where
  buf : α
  errnum : Bool
  reads : Nat

section

variable {α : Type}

/-- Read a piece of a sector.  Nothing is read any more once an error is
pending. -/
def rawread (drive : Drive) (sector : UInt32) (piece : Sector → α) (reader : Reader α) : Reader α :=
  if reader.errnum then reader
  else
    match drive.result reader.reads sector with
    | .read => ⟨piece (drive.disk.sector sector), false, reader.reads + 1⟩
    | .refused => ⟨reader.buf, true, reader.reads + 1⟩
    | .garbled left => ⟨piece left, true, reader.reads + 1⟩

variable {drive : Drive} {sector : UInt32} {piece : Sector → α} {buf : α} {reads : Nat}

theorem rawread_of_reads (read : drive.result reads sector = .read) :
    rawread drive sector piece ⟨buf, false, reads⟩ =
      ⟨piece (drive.disk.sector sector), false, reads + 1⟩ := by
  simp [rawread, read]

theorem rawread_of_not_reads (fails : drive.result reads sector ≠ .read) :
    rawread drive sector piece ⟨buf, false, reads⟩ =
      ⟨(drive.result reads sector).left piece buf, true, reads + 1⟩ := by
  unfold rawread
  cases outcome : drive.result reads sector with
  | read => exact absurd outcome fails
  | refused => rfl
  | garbled left => rfl

theorem rawread_of_errnum {reader : Reader α} (pending : reader.errnum = true) :
    rawread drive sector piece reader = reader := by
  simp [rawread, pending]

end

/-- A table of the chain: its sector, the start of the first extended partition
that is known, and the entries that are looked at. -/
structure Cursor where
  sector : UInt32
  ext_start : UInt32
  entries : List (Fin 4)

namespace Disk

variable (disk : Disk)

/-- The link of a table. -/
def linkAt (cursor : Cursor) : Option (Fin 4) := (disk.table cursor.sector).lastExt cursor.entries

/-- The start of a link of a table, and of the extended partition. -/
def target (buf : Table) (ext_start : UInt32) (i : Fin 4) : UInt32 × UInt32 :=
  let part_start := buf.part_start i
  if ext_start = 0 then (part_start, part_start)
  else (part_start + ext_start, ext_start)

/-- The tables of the disk, from the master boot record on.  Behind the last one,
it is repeated. -/
def cursor : Nat → Cursor
  | 0 => ⟨0, 0, List.finRange 4⟩
  | k + 1 =>
    match disk.linkAt (cursor k) with
    | none => cursor k
    | some i =>
      let next := target (disk.table (cursor k).sector) (cursor k).ext_start i
      ⟨next.1, next.2, two⟩

/-- A table of the chain. -/
def tableAt (k : Nat) : Table := disk.table (disk.cursor k).sector

/-- The link of a table of the chain. -/
def link (k : Nat) : Option (Fin 4) := disk.linkAt (disk.cursor k)

variable {k : Nat} {i : Fin 4}

theorem cursor_succ (next : disk.link k = some i) :
    disk.cursor (k + 1) = ⟨(target (disk.tableAt k) (disk.cursor k).ext_start i).1,
        (target (disk.tableAt k) (disk.cursor k).ext_start i).2, two⟩ := by
  unfold link at next
  rw [cursor, next]
  rfl

theorem target_fst (next : disk.link k = some i) :
    (target (disk.tableAt k) (disk.cursor k).ext_start i).1 =
      (disk.cursor (k + 1)).sector := by rw [disk.cursor_succ next]

theorem target_snd (next : disk.link k = some i) :
    (target (disk.tableAt k) (disk.cursor k).ext_start i).2 =
      (disk.cursor (k + 1)).ext_start := by rw [disk.cursor_succ next]

theorem lastExt_two (next : disk.link k = some i) :
    (disk.tableAt (k + 1)).lastExt two = disk.link (k + 1) := by
  rw [link, linkAt, tableAt, disk.cursor_succ next]

end Disk

namespace Drive

/-- A table of the chain is read. -/
def Reads (drive : Drive) (k : Nat) : Prop := drive.result k (drive.disk.cursor k).sector = .read

/-- The reader when it has read a table of the chain. -/
def reader (drive : Drive) (k : Nat) : Reader Table := ⟨drive.disk.tableAt k, false, k + 1⟩

end Drive

section

variable {buf : Table}

theorem Table.lastExt_of_linksTo {n : Nat} {entries : List (Fin 4)}
    {target : Option UInt32} (links : buf.LinksTo n target)
    (all : ∀ i, i ∈ entries ↔ i.val < n) :
    (buf.lastExt entries).map buf.part_start = target := by
  cases target with
  | none =>
    have empty : entries.filter buf.isExt = [] := by
      rw [List.filter_eq_nil_iff]
      intro i member
      rw [links i ((all i).mp member)]
      exact Bool.false_ne_true
    rw [Table.lastExt, empty]
    rfl
  | some start =>
    obtain ⟨i, inside, ext, starts, unique⟩ := links
    have found : i ∈ entries.filter buf.isExt := List.mem_filter.mpr ⟨(all i).mpr inside, ext⟩
    have nonempty := List.ne_nil_of_mem found
    have last := List.getLast_mem nonempty
    obtain ⟨member, ext'⟩ := List.mem_filter.mp last
    have same := unique _ ((all _).mp member) ext'
    rw [Table.lastExt, List.getLast?_eq_some_getLast nonempty, same]
    exact congrArg some starts

theorem mem_two_iff (i : Fin 4) : i ∈ two ↔ i.val < 2 := by
  simp only [two, List.mem_cons, List.not_mem_nil, or_false, Fin.ext_iff]
  omega

theorem Table.lastExt_two_eq_none_iff :
    buf.lastExt two = none ↔ buf.LinksTo 2 none := by
  simp [lastExt, LinksTo, mem_two_iff]

end

namespace Disk
namespace WellFormed

variable {disk : Disk} {records : List UInt32} (wellFormed : disk.WellFormed records)

include wellFormed

theorem headD_ne_zero (nonempty : records ≠ []) : records.headD 0 ≠ 0 := by
  have nonzero := wellFormed.nonzero
  cases records with
  | nil => exact absurd rfl nonempty
  | cons first rest => simpa using nonzero

theorem map_link_zero :
    (disk.link 0).map (disk.tableAt 0).part_start = records.head? :=
  Table.lastExt_of_linksTo wellFormed.mbr (by simp [Disk.cursor])

theorem cursor_succ {k : Nat} (inside : k < records.length) :
    disk.cursor (k + 1) = ⟨records[k], records.headD 0, two⟩ := by
  have nonempty := List.ne_nil_of_length_pos (Nat.zero_lt_of_lt inside)
  induction k with
  | zero =>
    have first := wellFormed.map_link_zero
    rw [List.head?_eq_some_head nonempty, Option.map_eq_some_iff] at first
    obtain ⟨i, next, starts⟩ := first
    have zero : (disk.cursor 0).ext_start = 0 := rfl
    rw [Disk.cursor_succ disk next, target, starts, zero, if_pos rfl]
    cases records with
    | nil => exact absurd rfl nonempty
    | cons first rest => rfl
  | succ k ih =>
    have here := ih (Nat.lt_of_succ_lt inside)
    have links := wellFormed.link k records[k] (List.getElem?_eq_getElem _)
    rw [List.getElem?_eq_getElem inside] at links
    have found := Table.lastExt_of_linksTo links mem_two_iff
    rw [Option.map_some, Option.map_eq_some_iff] at found
    obtain ⟨i, last, starts⟩ := found
    have next : disk.link (k + 1) = some i := by
      rw [Disk.link, linkAt, here]
      exact last
    rw [Disk.cursor_succ disk next, tableAt, here, target, starts,
      if_neg (wellFormed.headD_ne_zero nonempty), UInt32.sub_add_cancel]

theorem link_ne_none {k : Nat} (inside : k < records.length) :
    disk.link k ≠ none := by
  intro none
  cases k with
  | zero =>
    have first := wellFormed.map_link_zero
    rw [none, List.head?_eq_some_head (List.ne_nil_of_length_pos inside)] at first
    cases first
  | succ k =>
    have links := wellFormed.link k records[k] (List.getElem?_eq_getElem _)
    rw [List.getElem?_eq_getElem inside] at links
    have found := Table.lastExt_of_linksTo links mem_two_iff
    rw [Disk.link, linkAt, wellFormed.cursor_succ (Nat.lt_of_succ_lt inside)] at none
    rw [none] at found
    cases found

theorem link_length : disk.link records.length = none := by
  cases length : records.length with
  | zero =>
    have first := wellFormed.map_link_zero
    rw [List.eq_nil_of_length_eq_zero length] at first
    simpa using first
  | succ k =>
    have inside : k < records.length := by omega
    have links := wellFormed.link k records[k] (List.getElem?_eq_getElem _)
    rw [List.getElem?_eq_none (Nat.le_of_eq length)] at links
    have found := Table.lastExt_of_linksTo links mem_two_iff
    rw [Disk.link, linkAt, wellFormed.cursor_succ inside]
    simpa using found

end WellFormed
end Disk

end OsFree.Ufsd
