import Mathlib.Algebra.Order.BigOperators.Group.List
import Mathlib.Algebra.Order.Ring.Nat
import OsFree.Ufsd.Tables

/-!
# Automatic drive letters

Each fixed disk but the boot drive takes a letter for its first primary partition
and one for each logical partition, and the boot drive gets the next one.
-/

namespace OsFree.Ufsd

/-- The supported partition types are those before the zero. -/
def types (part_types : List UInt8) : List UInt8 := part_types.takeWhile (· != 0)

/-- What a loop over the entries of a table has found. -/
structure Count where
  ext : Option (Fin 4)
  primaries : Nat
  parts : Nat

/-- An entry of the master boot record. -/
def Count.mbr (part_types : List UInt8) (buf : Table) (count : Count) (i : Fin 4) : Count :=
  if buf.isExt i then { count with ext := some i }
  else
    (types part_types).foldl (fun count p =>
      if buf.pte i 4 = p then
        let primaries := count.primaries + 1
        ⟨count.ext, primaries,
          if primaries = 1 then count.parts + 1 else count.parts⟩
      else count) count

/-- An entry of an extended boot record. -/
def Count.ebr (part_types : List UInt8) (buf : Table) (count : Count) (i : Fin 4) : Count :=
  if buf.isExt i then { count with ext := some i }
  else
    (types part_types).foldl (fun count p =>
      if buf.pte i 4 = p then { count with parts := count.parts + 1 }
      else count) count

/-- The loop over the extended boot records.  It stops at a table without a
link, and gives the partitions and whether an error is pending. -/
def walk (part_types : List UInt8) (drive : Drive) :
    Nat → UInt32 → Reader Table → Option (Fin 4) → Nat → Option (Nat × Bool)
  | _, _, reader, none, parts => some (parts, reader.errnum)
  | 0, _, _, some _, _ => none
  | fuel + 1, ext_start, reader, some i, parts =>
    let next := Disk.target reader.buf ext_start i
    let reader := rawread drive next.1 tableOf reader
    let count := two.foldl (Count.ebr part_types reader.buf) ⟨none, 0, parts⟩
    walk part_types drive fuel next.2 reader count.ext count.parts

/-- The drive letters for the supported partitions on a drive. -/
def get_num_parts (fuel : Nat) (part_types : List UInt8) (drive : Drive)
    (errnum : Bool) : Option (Nat × Bool) :=
  let reader := rawread drive 0 tableOf ⟨fun _ => 0, errnum, 0⟩
  let count := (List.finRange 4).foldl (Count.mbr part_types reader.buf) ⟨none, 0, 0⟩
  walk part_types drive fuel 0 reader count.ext count.parts

/-- The loop over the drives. -/
def countDrives (fuel : Nat) (part_types : List UInt8) (boot_drive : UInt32)
    (fixed_disks : UInt8) : List Drive → Bool → Nat → Option Nat
  | [], _, num_letters => some num_letters
  | drive :: rest, errnum, num_letters =>
    if drive.drive_number.toUInt32 = boot_drive then
      countDrives fuel part_types boot_drive fixed_disks rest errnum num_letters
    else if fixed_disks.toNat < (drive.drive_number &&& 0x7f).toNat + 1 then
      countDrives fuel part_types boot_drive fixed_disks rest errnum num_letters
    else
      match get_num_parts fuel part_types drive errnum with
      | none => none
      | some (parts, errnum) =>
        countDrives fuel part_types boot_drive fixed_disks rest errnum (num_letters + parts)

/-- The drive letter of the boot drive.  The loader may have listed no drives. -/
def assign_auto (fuel : Nat) (part_types : List UInt8) (boot_drive : UInt32)
    (fixed_disks : UInt8) (drives : Option (List Drive)) : Option Nat :=
  match drives with
  | none => some 'C'.toNat
  | some drives =>
    ('C'.toNat + ·) <$> countDrives fuel part_types boot_drive fixed_disks drives false 0

/-! ## What should be counted -/

/-- The entries of an extended boot record that are not links, weighed by their
types. -/
def Table.weigh (weight : UInt8 → Nat) (buf : Table) : Nat :=
  (two.map fun i => if buf.isExt i then 0 else weight (buf.pte i 4)).sum

/-- A supported type counts once. -/
def supported (part_types : List UInt8) (kind : UInt8) : Nat :=
  if kind ∈ types part_types then 1 else 0

/-- One if the disk has a primary partition of a supported type. -/
def Disk.primary (part_types : List UInt8) (disk : Disk) : Nat :=
  if ∃ i, (disk.table 0).isExt i = false ∧ (disk.table 0).pte i 4 ∈ types part_types then 1 else 0

/-- The letters that a disk takes. -/
def Disk.letters (part_types : List UInt8) (records : List UInt32) (disk : Disk) : Nat :=
  disk.primary part_types + (records.map fun sector =>
      (disk.table sector).weigh (supported part_types)).sum

namespace Drive

/-- A fixed disk other than the boot drive. -/
def Counts (boot_drive : UInt32) (fixed_disks : UInt8) (drive : Drive) : Prop :=
  drive.drive_number.toUInt32 ≠ boot_drive ∧ drive.drive_number.toNat < 0x80 + fixed_disks.toNat

instance (boot_drive : UInt32) (fixed_disks : UInt8) (drive : Drive) :
    Decidable (drive.Counts boot_drive fixed_disks) :=
  inferInstanceAs (Decidable (_ ∧ _))

/-- The tables of the disk are well formed, and each is read. -/
def Readable (drive : Drive) (records : List UInt32) : Prop := drive.disk.WellFormed records ∧
    ∀ k sector, (0 :: records)[k]? = some sector → drive.result k sector = .read

/-- The buffer before a table is read. -/
def bufBefore (drive : Drive) : Nat → Table
  | 0 => fun _ => 0
  | k + 1 => drive.disk.tableAt k

/-- The buffer after a table could not be read. -/
def left (drive : Drive) (k : Nat) : Table :=
  (drive.result k (drive.disk.cursor k).sector).left tableOf (drive.bufBefore k)

/-- All tables are read up to one without a link. -/
def Completes (drive : Drive) : Prop :=
  ∃ n, drive.disk.link n = none ∧ (∀ k, k < n → drive.disk.link k ≠ none) ∧
    ∀ k, k ≤ n → drive.Reads k

/-- A table cannot be read, and the first two entries in the buffer are not
links. -/
def Breaks (drive : Drive) : Prop := ∃ n, (∀ k, k < n → drive.disk.link k ≠ none ∧ drive.Reads k) ∧
    ¬ drive.Reads n ∧ (drive.left n).LinksTo 2 none

end Drive

/-- The chains of the disks come to their ends, up to one where a read fails. -/
def AllEnd : List Drive → Prop
  | [] => True
  | drive :: rest => drive.Breaks ∨ drive.Completes ∧ AllEnd rest

/-! ## The loops over the entries -/

section

variable {part_types : List UInt8} {buf : Table} {ext : Option (Fin 4)}

theorem Table.getLast?_cons (i : Fin 4) (entries : List (Fin 4)) :
    (buf.lastExt (i :: entries)).or ext =
      (buf.lastExt entries).or (if buf.isExt i then some i else ext) := by
  unfold lastExt
  by_cases isExt : buf.isExt i = true
  · rw [List.filter_cons_of_pos isExt, List.getLast?_cons, if_pos isExt]
    cases (entries.filter buf.isExt).getLast? <;> rfl
  · rw [List.filter_cons_of_neg isExt, if_neg isExt]

theorem Count.ebr_foldl_types (kind : UInt8) (kinds : List UInt8) (count : Count) :
    kinds.foldl (fun count p =>
        if kind = p then { count with parts := count.parts + 1 } else count)
      count = { count with parts := count.parts + kinds.count kind } := by
  induction kinds generalizing count with
  | nil => rfl
  | cons p kinds ih =>
    rw [List.foldl_cons, ih, List.count_cons]
    by_cases same : kind = p
    · simp [same, Nat.add_comm, Nat.add_left_comm]
    · simp [same, Ne.symm same]

theorem Count.ebr_foldl (entries : List (Fin 4)) (ext : Option (Fin 4)) (parts : Nat) :
    entries.foldl (Count.ebr part_types buf) ⟨ext, 0, parts⟩ =
      ⟨(buf.lastExt entries).or ext, 0, parts + (entries.map fun i => if buf.isExt i then 0
          else (types part_types).count (buf.pte i 4)).sum⟩ := by
  induction entries generalizing ext parts with
  | nil => rfl
  | cons i entries ih =>
    rw [List.foldl_cons, Table.getLast?_cons, List.map_cons, List.sum_cons, ← Nat.add_assoc]
    by_cases isExt : buf.isExt i = true
    · rw [Count.ebr, if_pos isExt, ih]
      simp [isExt]
    · rw [Count.ebr, if_neg isExt, Count.ebr_foldl_types, ih]
      simp [isExt]

theorem Count.mbr_foldl_types (kind : UInt8) (kinds : List UInt8)
    (ext : Option (Fin 4)) (primaries : Nat) :
    kinds.foldl (fun (count : Count) p =>
        if kind = p then
          let primaries := count.primaries + 1
          ⟨count.ext, primaries,
            if primaries = 1 then count.parts + 1 else count.parts⟩
        else count) ⟨ext, primaries, min primaries 1⟩ =
      ⟨ext, primaries + kinds.count kind,
        min (primaries + kinds.count kind) 1⟩ := by
  induction kinds generalizing primaries with
  | nil => rfl
  | cons p kinds ih =>
    rw [List.foldl_cons, List.count_cons]
    by_cases same : kind = p
    · have parts : (if primaries + 1 = 1 then min primaries 1 + 1
          else min primaries 1) = min (primaries + 1) 1 := by
        split <;> omega
      simp only [if_pos same, parts]
      rw [ih, if_pos (by simp [same]), Nat.add_right_comm, Nat.add_assoc]
    · rw [if_neg same, ih]
      simp [Ne.symm same]

theorem Count.mbr_foldl (entries : List (Fin 4)) (ext : Option (Fin 4)) (primaries : Nat) :
    ∃ sum, entries.foldl (Count.mbr part_types buf) ⟨ext, primaries, min primaries 1⟩ =
        ⟨(buf.lastExt entries).or ext, sum, min sum 1⟩ ∧
      (0 < sum ↔ 0 < primaries ∨ ∃ i ∈ entries, buf.isExt i = false ∧
        buf.pte i 4 ∈ types part_types) := by
  induction entries generalizing ext primaries with
  | nil => exact ⟨primaries, rfl, by simp⟩
  | cons i entries ih =>
    rw [List.foldl_cons, Table.getLast?_cons]
    by_cases isExt : buf.isExt i = true
    · obtain ⟨sum, folded, positive⟩ := ih (some i) primaries
      refine ⟨sum, ?_, ?_⟩
      · rw [Count.mbr, if_pos isExt, folded, if_pos isExt]
      · simp [positive, isExt]
    · obtain ⟨sum, folded, positive⟩ := ih ext (primaries + (types part_types).count (buf.pte i 4))
      refine ⟨sum, ?_, ?_⟩
      · rw [Count.mbr, if_neg isExt, Count.mbr_foldl_types, folded, if_neg isExt]
      · rw [positive, Nat.add_pos_iff_pos_or_pos, List.count_pos_iff]
        simp [isExt, or_assoc]

theorem ebr_eq (parts : Nat) : two.foldl (Count.ebr part_types buf) ⟨none, 0, parts⟩ =
      ⟨buf.lastExt two, 0,
        parts + buf.weigh fun kind => (types part_types).count kind⟩ := by
  rw [Count.ebr_foldl, Option.or_none, Table.weigh]

theorem mbr_eq (part_types : List UInt8) (disk : Disk) : ∃ primaries, (List.finRange 4).foldl
        (Count.mbr part_types (disk.table 0)) ⟨none, 0, 0⟩ =
      ⟨disk.link 0, primaries, disk.primary part_types⟩ := by
  obtain ⟨sum, folded, positive⟩ := Count.mbr_foldl (List.finRange 4) none 0
  refine ⟨sum, folded.trans ?_⟩
  rw [Option.or_none, Disk.primary]
  congr 1
  simp only [Nat.lt_irrefl, false_or, List.mem_finRange, true_and] at positive
  split
  · rename_i some
    have := positive.mpr some
    omega
  · rename_i none
    have := mt positive.mp none
    omega

end

/-! ## The walk -/

namespace Drive

section

variable {part_types : List UInt8} {drive : Drive} {i : Fin 4}
  {fuel k parts : Nat} {ext_start : UInt32} {reader : Reader Table}

theorem walk_of_reads (next : drive.disk.link k = some i) (reads : drive.Reads (k + 1)) :
    walk part_types drive (fuel + 1) (drive.disk.cursor k).ext_start
        (drive.reader k) (drive.disk.link k) parts =
      walk part_types drive fuel (drive.disk.cursor (k + 1)).ext_start
        (drive.reader (k + 1)) (drive.disk.link (k + 1))
        (parts + (drive.disk.tableAt (k + 1)).weigh fun kind =>
          (types part_types).count kind) := by
  have buf (k : Nat) : (drive.reader k).buf = drive.disk.tableAt k := rfl
  have read : rawread drive (drive.disk.cursor (k + 1)).sector tableOf (drive.reader k) =
      drive.reader (k + 1) := rawread_of_reads reads
  simp only [next, walk, buf, drive.disk.target_fst next,
    drive.disk.target_snd next, read, ebr_eq, drive.disk.lastExt_two next]

theorem walk_of_errnum (pending : reader.errnum = true) (last : reader.buf.lastExt two ≠ none) :
    walk part_types drive fuel ext_start reader (some i) parts = none := by
  induction fuel generalizing ext_start parts i with
  | zero => rfl
  | succ fuel ih =>
    obtain ⟨j, last'⟩ := Option.ne_none_iff_exists'.mp last
    rw [walk, rawread_of_errnum pending, ebr_eq, last']
    exact ih

theorem walk_of_not_reads (next : drive.disk.link k = some i) (fails : ¬ drive.Reads (k + 1)) :
    ∃ ext_start parts', walk part_types drive (fuel + 1)
        (drive.disk.cursor k).ext_start (drive.reader k) (drive.disk.link k)
        parts =
      walk part_types drive fuel ext_start
        ⟨drive.left (k + 1), true, k + 2⟩ ((drive.left (k + 1)).lastExt two)
        parts' := by
  have buf : (drive.reader k).buf = drive.disk.tableAt k := rfl
  have left : rawread drive (drive.disk.cursor (k + 1)).sector tableOf (drive.reader k) =
      ⟨drive.left (k + 1), true, k + 2⟩ := rawread_of_not_reads fails
  simp only [next, walk, buf, drive.disk.target_fst next, left, ebr_eq]
  exact ⟨_, _, rfl⟩

/-- The partitions in the next tables. -/
def after (part_types : List UInt8) (drive : Drive) (k d : Nat) : Nat :=
  ((List.range' (k + 1) d).map fun j =>
    (drive.disk.tableAt j).weigh fun kind => (types part_types).count kind).sum

theorem walk_of_completes (d : Nat) (last : drive.disk.link (k + d) = none)
    (links : ∀ j, j < k + d → drive.disk.link j ≠ none)
    (reads : ∀ j, j ≤ k + d → drive.Reads j) :
    walk part_types drive (d + fuel) (drive.disk.cursor k).ext_start
        (drive.reader k) (drive.disk.link k) parts =
      some (parts + after part_types drive k d, false) := by
  induction d generalizing k parts with
  | zero =>
    rw [Nat.add_zero] at last
    rw [last, walk]
    rfl
  | succ d ih =>
    obtain ⟨i, next⟩ := Option.ne_none_iff_exists'.mp (links k (by omega))
    have moved : k + 1 + d = k + (d + 1) := by omega
    rw [Nat.succ_add, walk_of_reads next (reads (k + 1) (by omega)),
      ih (by rwa [moved]) (by rwa [moved]) (by rwa [moved]),
      after, after, List.range'_succ, List.map_cons, List.sum_cons, Nat.add_assoc]

theorem walk_of_breaks (d : Nat) (links : ∀ j, j < k + (d + 1) →
      drive.disk.link j ≠ none ∧ drive.Reads j)
    (fails : ¬ drive.Reads (k + (d + 1)))
    (none : (drive.left (k + (d + 1))).lastExt two = none) :
    ∃ parts', walk part_types drive (d + 1 + fuel)
        (drive.disk.cursor k).ext_start (drive.reader k) (drive.disk.link k)
        parts = some (parts', true) := by
  obtain ⟨i, next⟩ := Option.ne_none_iff_exists'.mp (links k (by omega)).1
  induction d generalizing k parts i with
  | zero =>
    obtain ⟨ext_start, parts', walked⟩ := walk_of_not_reads next fails
    refine ⟨parts', ?_⟩
    rw [Nat.succ_add, walked, none, walk]
  | succ d ih =>
    have moved : k + 1 + (d + 1) = k + (d + 1 + 1) := by omega
    obtain ⟨i', next'⟩ := Option.ne_none_iff_exists'.mp (links (k + 1) (by omega)).1
    rw [Nat.succ_add, walk_of_reads next (links (k + 1) (by omega)).2]
    exact ih (by rwa [moved]) (by rwa [moved]) (by rwa [moved]) i' next'

theorem walk_eq_none (incomplete : ¬ drive.Completes) (unbroken : ¬ drive.Breaks)
    (links : ∀ j, j < k → drive.disk.link j ≠ none)
    (reads : ∀ j, j ≤ k → drive.Reads j) :
    walk part_types drive fuel (drive.disk.cursor k).ext_start (drive.reader k)
      (drive.disk.link k) parts = none := by
  induction fuel generalizing k parts with
  | zero =>
    cases next : drive.disk.link k with
    | none => exact absurd ⟨k, next, links, reads⟩ incomplete
    | some i => rfl
  | succ fuel ih =>
    cases next : drive.disk.link k with
    | none => exact absurd ⟨k, next, links, reads⟩ incomplete
    | some i =>
      have links' : ∀ j, j < k + 1 → drive.disk.link j ≠ none := by
        intro j less
        rcases Nat.lt_succ_iff_lt_or_eq.mp less with before | rfl
        · exact links j before
        · simp [next]
      by_cases read : drive.Reads (k + 1)
      · rw [← next, walk_of_reads next read]
        refine ih links' fun j atMost => ?_
        rcases Nat.le_succ_iff.mp atMost with before | rfl
        · exact reads j before
        · exact read
      · obtain ⟨ext_start, parts', walked⟩ := walk_of_not_reads next read
        rw [← next, walked]
        cases left : (drive.left (k + 1)).lastExt two with
        | none =>
          refine absurd ⟨k + 1, fun j less => ⟨links' j less,
            reads j (Nat.le_of_lt_succ less)⟩, read, ?_⟩ unbroken
          exact Table.lastExt_two_eq_none_iff.mp left
        | some i' =>
          refine walk_of_errnum rfl ?_
          simp [left]

theorem walk_mono {fuel' : Nat} {ext : Option (Fin 4)} {result : Nat × Bool} (more : fuel ≤ fuel')
    (walked : walk part_types drive fuel ext_start reader ext parts = some result) :
    walk part_types drive fuel' ext_start reader ext parts = some result := by
  induction fuel generalizing fuel' ext_start reader ext parts with
  | zero =>
    cases ext with
    | none => cases fuel' <;> exact walked
    | some i => cases walked
  | succ fuel ih =>
    obtain ⟨extra, rfl⟩ := Nat.exists_eq_add_of_le' more
    cases ext with
    | none => exact walked
    | some i =>
      simp only [walk] at walked ⊢
      exact ih (Nat.le_add_left fuel extra) walked

/-! ## A drive -/

/-- The letters that a drive is given. -/
def given (part_types : List UInt8) (drive : Drive) (n : Nat) : Nat :=
  drive.disk.primary part_types + after part_types drive 0 n

theorem get_num_parts_mono {fuel' : Nat} {errnum : Bool} {result : Nat × Bool} (more : fuel ≤ fuel')
    (counted : get_num_parts fuel part_types drive errnum = some result) :
    get_num_parts fuel' part_types drive errnum = some result :=
  walk_mono more counted

theorem get_num_parts_of_reads (read : drive.Reads 0) : get_num_parts fuel part_types drive false =
      walk part_types drive fuel (drive.disk.cursor 0).ext_start
        (drive.reader 0) (drive.disk.link 0)
        (drive.disk.primary part_types) := by
  obtain ⟨primaries, folded⟩ := mbr_eq part_types drive.disk
  have reader : rawread drive 0 tableOf ⟨fun _ => 0, false, 0⟩ = drive.reader 0 :=
    rawread_of_reads read
  have buf : (drive.reader 0).buf = drive.disk.table 0 := rfl
  simp only [get_num_parts, reader, buf, folded]
  rfl

theorem get_num_parts_of_not_reads (fails : ¬ drive.Reads 0) :
    ∃ parts, get_num_parts fuel part_types drive false =
      walk part_types drive fuel 0 ⟨drive.left 0, true, 1⟩
        ((drive.left 0).lastExt (List.finRange 4)) parts := by
  obtain ⟨sum, folded, _⟩ := Count.mbr_foldl (List.finRange 4) none 0
  have reader : rawread drive 0 tableOf ⟨fun _ => 0, false, 0⟩ =
      ⟨drive.left 0, true, 1⟩ := rawread_of_not_reads fails
  rw [Option.or_none] at folded
  have folded' : (List.finRange 4).foldl (Count.mbr part_types (drive.left 0))
      ⟨none, 0, 0⟩ = _ := folded
  simp only [get_num_parts, reader, folded']
  exact ⟨_, rfl⟩

theorem get_num_parts_of_errnum :
    ∃ parts, get_num_parts fuel part_types drive true = some (parts, true) := by
  obtain ⟨sum, folded, _⟩ := Count.mbr_foldl (List.finRange 4) none 0
  have folded' : (List.finRange 4).foldl (Count.mbr part_types fun _ => 0)
      ⟨none, 0, 0⟩ = ⟨none, sum, min sum 1⟩ := folded
  have reader : rawread drive 0 tableOf ⟨fun _ => 0, true, 0⟩ =
      ⟨fun _ => 0, true, 0⟩ := rawread_of_errnum rfl
  simp only [get_num_parts, reader, folded', walk]
  exact ⟨_, rfl⟩

theorem get_num_parts_of_completes {n : Nat} (last : drive.disk.link n = none)
    (links : ∀ k, k < n → drive.disk.link k ≠ none)
    (reads : ∀ k, k ≤ n → drive.Reads k) (enough : n ≤ fuel) :
    get_num_parts fuel part_types drive false =
      some (drive.given part_types n, false) := by
  obtain ⟨extra, rfl⟩ := Nat.exists_eq_add_of_le enough
  rw [get_num_parts_of_reads (reads 0 (Nat.zero_le n)),
    walk_of_completes n (by rwa [Nat.zero_add]) (by rwa [Nat.zero_add])
      (by rwa [Nat.zero_add]), given]

theorem get_num_parts_of_breaks (breaks : drive.Breaks) : ∃ n, ∀ fuel, n ≤ fuel → ∃ parts,
      get_num_parts fuel part_types drive false = some (parts, true) := by
  obtain ⟨n, links, fails, unlinked⟩ := breaks
  have none := Table.lastExt_two_eq_none_iff.mpr unlinked
  cases n with
  | zero =>
    refine ⟨1, ?_⟩
    intro fuel enough
    obtain ⟨extra, rfl⟩ := Nat.exists_eq_add_of_le' enough
    obtain ⟨parts, counted⟩ := get_num_parts_of_not_reads fails
    rw [counted]
    cases (drive.left 0).lastExt (List.finRange 4) with
    | none => exact ⟨_, rfl⟩
    | some i =>
      rw [walk, rawread_of_errnum rfl, ebr_eq, none, walk]
      exact ⟨_, rfl⟩
  | succ n =>
    refine ⟨n + 1, ?_⟩
    intro fuel enough
    obtain ⟨extra, rfl⟩ := Nat.exists_eq_add_of_le enough
    rw [get_num_parts_of_reads (links 0 (Nat.zero_lt_succ n)).2]
    exact walk_of_breaks n (by rwa [Nat.zero_add]) (by rwa [Nat.zero_add]) (by rwa [Nat.zero_add])

theorem get_num_parts_eq_none (incomplete : ¬ drive.Completes) (unbroken : ¬ drive.Breaks) :
    get_num_parts fuel part_types drive false = none := by
  by_cases read : drive.Reads 0
  · rw [get_num_parts_of_reads read]
    refine walk_eq_none incomplete unbroken (by simp) fun k atMost => ?_
    rw [Nat.le_zero.mp atMost]
    exact read
  · obtain ⟨parts, counted⟩ := get_num_parts_of_not_reads read
    have left : ¬ (drive.left 0).LinksTo 2 none := by
      intro unlinked
      exact unbroken ⟨0, by simp, read, unlinked⟩
    have linked : (drive.left 0).lastExt (List.finRange 4) ≠ none := by
      intro none
      have unlinked : ∀ i, (drive.left 0).isExt i = false := by
        simpa [Table.lastExt] using none
      exact left fun i _ => unlinked i
    obtain ⟨i, linked⟩ := Option.ne_none_iff_exists'.mp linked
    rw [counted, linked]
    exact walk_of_errnum rfl (mt Table.lastExt_two_eq_none_iff.mp left)

end

end Drive

/-!
## The letter of the boot drive

The algorithm comes to an end if and only if the chains of the fixed disks do, and
it counts right if and only if no type of a logical partition is listed twice.
-/

theorem sum_map_eq_iff {α : Type} {f g : α → Nat} {list : List α} (atMost : ∀ x ∈ list, f x ≤ g x) :
    (list.map f).sum = (list.map g).sum ↔ ∀ x ∈ list, f x = g x := by
  induction list with
  | nil => simp
  | cons x list ih =>
    have head := atMost x (List.mem_cons_self ..)
    have rest : ∀ y ∈ list, f y ≤ g y := fun y member =>
      atMost y (List.mem_cons_of_mem x member)
    have sums := List.sum_le_sum rest
    simp only [List.map_cons, List.sum_cons, List.forall_mem_cons, ← ih rest]
    omega

theorem supported_le_count (part_types : List UInt8) (kind : UInt8) :
    supported part_types kind ≤ (types part_types).count kind := by
  unfold supported
  split
  · exact List.count_pos_iff.mpr ‹_›
  · exact Nat.zero_le _

theorem supported_eq_count_iff (part_types : List UInt8) (kind : UInt8) :
    supported part_types kind = (types part_types).count kind ↔
      (types part_types).count kind ≤ 1 := by
  have atMost := supported_le_count part_types kind
  constructor
  · intro same
    rw [← same, supported]
    split <;> omega
  · intro once
    have zero := List.count_eq_zero (a := kind) (l := types part_types)
    unfold supported at atMost ⊢
    split
    · rename_i member
      have := List.count_pos_iff.mpr member
      omega
    · rename_i missing
      exact (zero.mpr missing).symm

namespace Table

theorem weigh_le (part_types : List UInt8) (buf : Table) : buf.weigh (supported part_types) ≤
      buf.weigh fun kind => (types part_types).count kind := by
  refine List.sum_le_sum fun i _ => ?_
  split
  · exact Nat.le_refl 0
  · exact supported_le_count part_types _

theorem weigh_eq_iff (part_types : List UInt8) (buf : Table) : (buf.weigh (supported part_types) =
        buf.weigh fun kind => (types part_types).count kind) ↔
      ∀ i ∈ two, buf.isExt i = false →
        (types part_types).count (buf.pte i 4) ≤ 1 := by
  unfold weigh
  rw [sum_map_eq_iff fun i _ => ?_]
  · refine forall₂_congr fun i _ => ?_
    cases buf.isExt i with
    | true => simp
    | false => simp [supported_eq_count_iff]
  · split
    · exact Nat.le_refl 0
    · exact supported_le_count part_types _

end Table

/-! ## A disk whose tables are read -/

namespace Drive
namespace Readable

variable {part_types : List UInt8} {drive : Drive} {records : List UInt32}
  (readable : drive.Readable records)

include readable

theorem reads {k : Nat} (atMost : k ≤ records.length) : drive.Reads k := by
  obtain ⟨wellFormed, results⟩ := readable
  cases k with
  | zero => exact results 0 0 rfl
  | succ k =>
    have next : (0 :: records)[k + 1]? = some records[k] := by simp
    rw [Reads, wellFormed.cursor_succ atMost]
    exact results (k + 1) records[k] next

theorem get_num_parts_eq {fuel : Nat} (enough : records.length ≤ fuel) :
    get_num_parts fuel part_types drive false =
      some (drive.given part_types records.length, false) :=
  get_num_parts_of_completes readable.1.link_length (fun _ inside => readable.1.link_ne_none inside)
    (fun _ atMost => readable.reads atMost) enough

theorem given_eq : drive.given part_types records.length =
      drive.disk.primary part_types + (records.map fun sector =>
        (drive.disk.table sector).weigh fun kind =>
          (types part_types).count kind).sum := by
  have tables : ((List.range' 1 records.length).map fun j =>
      (drive.disk.tableAt j).weigh fun kind => (types part_types).count kind) =
      records.map fun sector => (drive.disk.table sector).weigh fun kind =>
        (types part_types).count kind := by
    refine List.ext_getElem (by simp) fun k inside inside' => ?_
    rw [List.length_map] at inside'
    simp [Disk.tableAt, Nat.add_comm 1 k, readable.1.cursor_succ inside']
  rw [given, after, Nat.zero_add, tables]

end Readable

/-- No type of a logical partition is listed twice. -/
def ListedOnce (part_types : List UInt8) (drive : Drive) (records : List UInt32) : Prop :=
  ∀ sector ∈ records, ∀ i ∈ two, (drive.disk.table sector).isExt i = false →
    (types part_types).count ((drive.disk.table sector).pte i 4) ≤ 1

namespace Readable

variable {part_types : List UInt8} {drive : Drive} {records : List UInt32}

theorem letters_le (readable : drive.Readable records) : drive.disk.letters part_types records ≤
      drive.given part_types records.length := by
  rw [readable.given_eq]
  exact Nat.add_le_add_left (List.sum_le_sum fun _ _ => Table.weigh_le part_types _) _

theorem letters_eq_iff (readable : drive.Readable records) :
    drive.disk.letters part_types records = drive.given part_types records.length ↔
      drive.ListedOnce part_types records := by
  rw [readable.given_eq, Disk.letters, Nat.add_left_cancel_iff,
    sum_map_eq_iff fun _ _ => Table.weigh_le part_types _]
  exact forall₂_congr fun _ _ => Table.weigh_eq_iff part_types _

end Readable

theorem counts_iff (boot_drive : UInt32) (fixed_disks : UInt8) (drive : Drive) :
    drive.Counts boot_drive fixed_disks ↔ drive.drive_number.toUInt32 ≠ boot_drive ∧
        ¬ fixed_disks.toNat < (drive.drive_number &&& 0x7f).toNat + 1 := by
  have hard := UInt8.le_iff_toNat_le.mp drive.hard
  have number : (drive.drive_number &&& 0x7f).toNat =
      drive.drive_number.toNat % 128 := by
    exact Nat.and_two_pow_sub_one_eq_mod _ 7
  have bound := drive.drive_number.toNat_lt
  have low : (0x80 : UInt8).toNat = 128 := rfl
  refine and_congr Iff.rfl ?_
  omega

end Drive

/-! ## The loop over the drives -/

section

variable {fuel : Nat} {part_types : List UInt8} {boot_drive : UInt32}
  {fixed_disks : UInt8} {drive : Drive} {drives : List Drive} {errnum : Bool}
  {num_letters : Nat}

theorem countDrives_filter :
    countDrives fuel part_types boot_drive fixed_disks drives errnum num_letters =
      countDrives fuel part_types boot_drive fixed_disks
        (drives.filter (·.Counts boot_drive fixed_disks)) errnum num_letters := by
  induction drives generalizing errnum num_letters with
  | nil => rfl
  | cons drive drives ih =>
    have counts := drive.counts_iff boot_drive fixed_disks
    by_cases counted : drive.Counts boot_drive fixed_disks
    · rw [List.filter_cons_of_pos (by simpa using counted)]
      simp only [countDrives, ih]
    · rw [List.filter_cons_of_neg (by simpa using counted), ← ih, countDrives]
      grind

theorem countDrives_cons (counted : drive.Counts boot_drive fixed_disks) :
    countDrives fuel part_types boot_drive fixed_disks (drive :: drives) errnum num_letters =
      match get_num_parts fuel part_types drive errnum with
      | none => none
      | some (parts, errnum) =>
        countDrives fuel part_types boot_drive fixed_disks drives errnum
          (num_letters + parts) := by
  obtain ⟨other, fixed⟩ := (drive.counts_iff boot_drive fixed_disks).mp counted
  rw [countDrives, if_neg other, if_neg fixed]

theorem countDrives_mono {fuel' letters : Nat} (more : fuel ≤ fuel')
    (all : ∀ drive ∈ drives, drive.Counts boot_drive fixed_disks)
    (counted : countDrives fuel part_types boot_drive fixed_disks drives errnum
      num_letters = some letters) :
    countDrives fuel' part_types boot_drive fixed_disks drives errnum
      num_letters = some letters := by
  induction drives generalizing errnum num_letters with
  | nil => exact counted
  | cons drive drives ih =>
    obtain ⟨here, rest⟩ := List.forall_mem_cons.mp all
    rw [countDrives_cons here] at counted ⊢
    cases given : get_num_parts fuel part_types drive errnum with
    | none =>
      rw [given] at counted
      cases counted
    | some result =>
      rw [given] at counted
      rw [Drive.get_num_parts_mono more given]
      exact ih rest counted

section

variable (all : ∀ drive ∈ drives, drive.Counts boot_drive fixed_disks)

include all

theorem countDrives_of_errnum :
    ∃ letters, countDrives fuel part_types boot_drive fixed_disks drives true
      num_letters = some letters := by
  induction drives generalizing num_letters with
  | nil => exact ⟨num_letters, rfl⟩
  | cons drive drives ih =>
    obtain ⟨here, rest⟩ := List.forall_mem_cons.mp all
    obtain ⟨parts, given⟩ := Drive.get_num_parts_of_errnum
    rw [countDrives_cons here, given]
    exact ih rest

theorem countDrives_of_allEnd (ends : AllEnd drives) :
    ∃ n, ∀ fuel, n ≤ fuel → ∀ num_letters, ∃ letters,
      countDrives fuel part_types boot_drive fixed_disks drives false
        num_letters = some letters := by
  induction drives with
  | nil => exact ⟨0, fun _ _ num_letters => ⟨num_letters, rfl⟩⟩
  | cons drive drives ih =>
    obtain ⟨here, rest⟩ := List.forall_mem_cons.mp all
    rcases ends with breaks | ⟨⟨n, last, links, reads⟩, ends⟩
    · obtain ⟨n, given⟩ := Drive.get_num_parts_of_breaks breaks
      refine ⟨n, ?_⟩
      intro fuel enough num_letters
      obtain ⟨parts, given⟩ := given fuel enough
      rw [countDrives_cons here, given]
      exact countDrives_of_errnum rest
    · obtain ⟨n', counted⟩ := ih rest ends
      refine ⟨max n n', ?_⟩
      intro fuel enough num_letters
      rw [countDrives_cons here, Drive.get_num_parts_of_completes last links
        reads (le_of_max_le_left enough)]
      exact counted fuel (le_of_max_le_right enough) _

/-- Otherwise the loop goes on for ever. -/
theorem countDrives_eq_none (endless : ¬ AllEnd drives) :
    countDrives fuel part_types boot_drive fixed_disks drives false
      num_letters = none := by
  induction drives generalizing num_letters with
  | nil => exact absurd trivial endless
  | cons drive drives ih =>
    obtain ⟨here, rest⟩ := List.forall_mem_cons.mp all
    have unbroken : ¬ drive.Breaks := fun breaks => endless (.inl breaks)
    rw [countDrives_cons here]
    by_cases completes : drive.Completes
    · have endless' : ¬ AllEnd drives := fun ends => endless (.inr ⟨completes, ends⟩)
      obtain ⟨n, last, links, reads⟩ := completes
      cases given : get_num_parts fuel part_types drive false with
      | none => rfl
      | some result =>
        have same := Drive.get_num_parts_mono (Nat.le_max_right n fuel) given
        rw [Drive.get_num_parts_of_completes last links reads (Nat.le_max_left n fuel)] at same
        cases same
        exact ih rest endless'
    · rw [Drive.get_num_parts_eq_none completes unbroken]

theorem countDrives_of_readable {records : Drive → List UInt32}
    (readable : ∀ drive ∈ drives, drive.Readable (records drive)) :
    ∃ n, ∀ fuel, n ≤ fuel → ∀ num_letters,
      countDrives fuel part_types boot_drive fixed_disks drives false num_letters =
        some (num_letters + (drives.map fun drive =>
          drive.given part_types (records drive).length).sum) := by
  induction drives with
  | nil => exact ⟨0, fun _ _ num_letters => rfl⟩
  | cons drive drives ih =>
    obtain ⟨here, rest⟩ := List.forall_mem_cons.mp all
    obtain ⟨first, others⟩ := List.forall_mem_cons.mp readable
    obtain ⟨n, counted⟩ := ih rest others
    refine ⟨max (records drive).length n, ?_⟩
    intro fuel enough num_letters
    rw [countDrives_cons here, first.get_num_parts_eq (le_of_max_le_left enough)]
    simp only [counted fuel (le_of_max_le_right enough), List.map_cons,
      List.sum_cons, Nat.add_assoc]

end

end

/-! ## The letter -/

section

variable (part_types : List UInt8) (boot_drive : UInt32) (fixed_disks : UInt8)
  (drives : Option (List Drive))

/-- The fixed disks other than the boot drive. -/
def otherDisks : List Drive := (drives.getD []).filter (·.Counts boot_drive fixed_disks)

/-- The algorithm comes to an end, and if all tables are well formed and are read,
it gives the letter behind those of the other disks. -/
def AssignsRight : Prop := (∃ fuel letter,
    assign_auto fuel part_types boot_drive fixed_disks drives = some letter) ∧
    ∀ records : Drive → List UInt32, (∀ drive ∈ otherDisks boot_drive fixed_disks drives,
        drive.Readable (records drive)) →
      ∃ fuel, assign_auto fuel part_types boot_drive fixed_disks drives =
        some ('C'.toNat + ((otherDisks boot_drive fixed_disks drives).map fun drive =>
            drive.disk.letters part_types (records drive)).sum)

variable {part_types boot_drive fixed_disks drives}

theorem assign_auto_eq (fuel : Nat) : assign_auto fuel part_types boot_drive fixed_disks drives =
      ('C'.toNat + ·) <$> countDrives fuel part_types boot_drive fixed_disks
        (otherDisks boot_drive fixed_disks drives) false 0 := by
  cases drives with
  | none => rfl
  | some drives => rw [assign_auto, countDrives_filter]; rfl

theorem counts_of_mem_otherDisks : ∀ drive ∈ otherDisks boot_drive fixed_disks drives,
      drive.Counts boot_drive fixed_disks := by
  intro drive member
  simpa using (List.mem_filter.mp member).2

theorem assign_auto_ends_iff :
    (∃ fuel letter, assign_auto fuel part_types boot_drive fixed_disks drives =
        some letter) ↔ AllEnd (otherDisks boot_drive fixed_disks drives) := by
  simp only [assign_auto_eq]
  constructor
  · rintro ⟨fuel, letter, counted⟩
    by_contra endless
    rw [countDrives_eq_none counts_of_mem_otherDisks endless] at counted
    cases counted
  · intro ends
    obtain ⟨n, counted⟩ := countDrives_of_allEnd counts_of_mem_otherDisks ends
    obtain ⟨letters, counted⟩ := counted n (Nat.le_refl n) 0
    exact ⟨n, _, by rw [counted]; rfl⟩

theorem assign_auto_right_iff_listedOnce {records : Drive → List UInt32}
    (readable : ∀ drive ∈ otherDisks boot_drive fixed_disks drives,
      drive.Readable (records drive)) :
    (∃ fuel, assign_auto fuel part_types boot_drive fixed_disks drives =
        some ('C'.toNat + ((otherDisks boot_drive fixed_disks drives).map fun drive =>
            drive.disk.letters part_types (records drive)).sum)) ↔
      ∀ drive ∈ otherDisks boot_drive fixed_disks drives,
        drive.ListedOnce part_types (records drive) := by
  obtain ⟨n, counted⟩ := countDrives_of_readable counts_of_mem_otherDisks readable
  have value (fuel letters : Nat) (enough : n ≤ fuel) :
      assign_auto fuel part_types boot_drive fixed_disks drives = some ('C'.toNat + letters) ↔
        letters = ((otherDisks boot_drive fixed_disks drives).map fun drive =>
          drive.given part_types (records drive).length).sum := by
    rw [assign_auto_eq, counted fuel enough 0]
    simp [eq_comm]
  have sums := sum_map_eq_iff fun drive member =>
    show drive.disk.letters part_types (records drive) ≤
      drive.given part_types (records drive).length from (readable drive member).letters_le
  have once : (∀ drive ∈ otherDisks boot_drive fixed_disks drives,
      drive.disk.letters part_types (records drive) =
        drive.given part_types (records drive).length) ↔
      ∀ drive ∈ otherDisks boot_drive fixed_disks drives,
        drive.ListedOnce part_types (records drive) :=
    forall₂_congr fun drive member => (readable drive member).letters_eq_iff
  rw [← once, ← sums]
  constructor
  · rintro ⟨fuel, right⟩
    refine (value (max n fuel) _ (Nat.le_max_left n fuel)).mp ?_
    rw [assign_auto_eq] at right ⊢
    obtain ⟨letters, given, same⟩ := Option.map_eq_some_iff.mp right
    rw [countDrives_mono (Nat.le_max_right n fuel) counts_of_mem_otherDisks given]
    exact congrArg some same
  · intro same
    exact ⟨n, (value n _ (Nat.le_refl n)).mpr same⟩

/-- The algorithm is right if and only if the chains of the other disks come to
their ends, up to one where a read fails, and no type of a logical partition is
listed twice. -/
theorem assign_auto_right_iff : AssignsRight part_types boot_drive fixed_disks drives ↔
      AllEnd (otherDisks boot_drive fixed_disks drives) ∧ ∀ records : Drive → List UInt32,
          (∀ drive ∈ otherDisks boot_drive fixed_disks drives, drive.Readable (records drive)) →
          ∀ drive ∈ otherDisks boot_drive fixed_disks drives,
            drive.ListedOnce part_types (records drive) := by
  refine and_congr assign_auto_ends_iff (forall₂_congr fun records readable => ?_)
  exact assign_auto_right_iff_listedOnce readable

end

/-- The first entry of the master boot record is an extended partition outside the
disk.  It is not read, and its link is followed for ever. -/
theorem link_outside_disk_followed : ∃ drive : Drive, ∀ fuel,
      assign_auto fuel [7] 0x81 2 (some [drive]) = none := by
  let disk : Disk := ⟨100, fun _ k => if k = 450 then 5 else if k = 454 then 200 else 0⟩
  let drive : Drive := ⟨0x80, disk, fun _ => .read, by decide⟩
  have next : disk.link 0 = some 0 := by decide
  have last : (drive.left 1).lastExt two = some 0 := by decide
  have read : drive.Reads 0 := rfl
  have outside : ¬ disk.Readable (disk.cursor 1).sector := by decide
  have fails : ¬ drive.Reads 1 := by
    intro read
    rw [Drive.Reads, Drive.result, if_neg outside] at read
    cases read
  have endless (fuel : Nat) : get_num_parts fuel [7] drive false = none := by
    rw [Drive.get_num_parts_of_reads read]
    cases fuel with
    | zero => rw [next]; rfl
    | succ fuel =>
      obtain ⟨ext_start, parts, walked⟩ := Drive.walk_of_not_reads
        next fails
      rw [walked, last]
      exact Drive.walk_of_errnum rfl (by simp [last])
  refine ⟨drive, ?_⟩
  intro fuel
  have other : drive.Counts 0x81 2 := ⟨by decide, by decide⟩
  rw [assign_auto, countDrives_cons other, endless]
  rfl

end OsFree.Ufsd
