import OsFree.Machine.Run

/-!
# The partition of the boot sector

The boot sector says where its partition starts.  The loader looks this start up
in the master boot record, and then walks the chain of the logical partitions
until a table does not lie before it.
-/

namespace OsFree.Loader

/-- An entry of a partition table. -/
structure Desc where
  id : UInt8
  start_lba : UInt32
  len : UInt32
  deriving DecidableEq

/-- The table in a partitioning sector. -/
abbrev PartTable := Fin 4 → Desc

/-- What the boot sector says of its partition. -/
structure BootParameters where
  hidden_secs : UInt32
  n_sect : UInt16
  n_sect_ext : UInt32

/-- A disk: its number of sectors, and the table in each of them. -/
structure Disk where
  total_sectors : UInt32
  table : UInt32 → PartTable

/-- The buffer for a sector, and whether an error is pending. -/
structure SectorBuffer where
  buf : PartTable
  errnum : Bool

/-- A sector that can be read: its number is not negative as an `int`, and within
the disk. -/
def Disk.Readable (disk : Disk) (sector : UInt32) : Prop :=
  sector.toNat < 2147483648 ∧ sector < disk.total_sectors

instance (disk : Disk) (sector : UInt32) : Decidable (disk.Readable sector) :=
  inferInstanceAs (Decidable (_ ∧ _))

/-- Read a sector.  Nothing is read any more once an error is pending. -/
def rawread (disk : Disk) (sector : UInt32) (buffer : SectorBuffer) :
    SectorBuffer :=
  if buffer.errnum then buffer
  else if disk.Readable sector then ⟨disk.table sector, false⟩
  else { buffer with errnum := true }

/-- `IS_PC_SLICE_TYPE_BSD`. -/
def isBsd (id : UInt8) : Bool := id == 0xa5 || id == 0xa6 || id == 0xa9

/-- The id of an extended partition. -/
def isExtended (id : UInt8) : Bool := id == 0x5 || id == 0xf

/-- A partition lies inside a slice that has partitions of its own. -/
def insideBsd (part_start part_length : UInt32) (q : Desc) : Bool :=
  isBsd q.id && q.start_lba ≤ part_start && part_start + part_length ≤ q.start_lba + q.len

/-- Search the entries of the master boot record, and remember where the extended
partition starts. -/
def scanMbr (part_start part_length : UInt32) (pt : PartTable) :
    List (Fin 4) → UInt32 → Option (Fin 4) × UInt32
  | [], offset => (none, offset)
  | i :: rest, offset =>
    let q := pt i
    let offset := if isExtended q.id then q.start_lba else offset
    if insideBsd part_start part_length q || q.start_lba == part_start then
      (some i, offset)
    else scanMbr part_start part_length pt rest offset

/-- Read the tables of the chain until one does not lie before the partition. -/
def walkChain (disk : Disk) (lba offset : UInt32) :
    Nat → UInt32 → UInt32 → SectorBuffer → Option (UInt32 × Desc)
  | 0, _, _, _ => none
  | fuel + 1, n, off, buffer =>
    let n := n + 1
    let buffer := rawread disk (offset + off) buffer
    if offset + off < lba then
      walkChain disk lba offset fuel n (buffer.buf 1).start_lba buffer
    else some (n, buffer.buf 0)

/-- The partition that has been opened. -/
structure OpenedPartition where
  part_start : UInt32
  part_length : UInt32
  current_drive : UInt32
  current_partition : UInt32
  current_slice : UInt8

/-- `part_length` of a boot sector. -/
def BootParameters.part_length (bpb : BootParameters) : UInt32 :=
  if bpb.n_sect = 0 then bpb.n_sect_ext else UInt32.ofNat bpb.n_sect.toNat

/-- Open the partition of the boot sector.  No error is pending when a file is
opened; the buffer has what was on the stack. -/
def open_partition_hiddensecs (boot_drive : UInt32) (bpb : BootParameters)
    (disk : Disk) (stack : PartTable) (fuel : Nat) : Option OpenedPartition :=
  let opened (n : UInt32) (slice : UInt8) : OpenedPartition :=
    ⟨bpb.hidden_secs, bpb.part_length, boot_drive,
      (0xff : UInt32) ||| ((0xff : UInt32) <<< 8) ||| (n <<< 16), slice⟩
  if bpb.hidden_secs = 0 then some (opened 0xff 0)
  else
    let buffer := rawread disk 0 ⟨stack, false⟩
    match scanMbr bpb.hidden_secs bpb.part_length buffer.buf (List.finRange 4) 0 with
    | (some i, _) =>
      some (opened (UInt32.ofNat i.val) (buffer.buf i).id)
    | (none, offset) =>
      (walkChain disk bpb.hidden_secs offset fuel 2 0 buffer).map
        fun found => opened found.1 found.2.id

/-- The number of the partition that has been opened. -/
def OpenedPartition.number (opened : OpenedPartition) : Nat :=
  (opened.current_partition >>> 16).toNat

namespace Disk

variable (disk : Disk)

/-- The master boot record. -/
def mbr : PartTable := disk.table 0

/-- A partition: an entry of the master boot record, or a number in the chain. -/
inductive Place where
  | primary (i : Fin 4)
  | logical (k : Nat)
  deriving DecidableEq

/-- The tables of the logical partitions of a disk with at most one extended
partition, by their distance from its start.  The first one is at its start, and
each has the distance of the next one in its second entry, the last one 0. -/
structure Chain where
  extended : Option (Fin 4)
  offs : List UInt32
  unique : ∀ i, isExtended (disk.mbr i).id = true ↔ extended = some i
  nonempty : ∀ i, extended = some i → offs.head? = some 0
  empty : extended = none → offs = []
  link : ∀ i j off, extended = some i → offs[j]? = some off →
    (disk.table ((disk.mbr i).start_lba + off) 1).start_lba = (offs[j + 1]?).getD 0
  forward : ∀ j, offs[j + 1]? ≠ some 0

namespace Chain

variable {disk} (chain : disk.Chain)

/-- Where the extended partition starts. -/
def offset : UInt32 :=
  match chain.extended with
  | none => 0
  | some i => (disk.mbr i).start_lba

/-- The distance of a table from the start of the extended partition. -/
def off (j : Nat) : UInt32 := (chain.offs[j]?).getD 0

/-- The sector of a table of the chain. -/
def position (j : Nat) : UInt32 := chain.offset + chain.off j

/-- The first entry of a table of the chain, which is the logical partition. -/
def entry (j : Nat) : Desc := disk.table (chain.position j) 0

/-- Where a partition starts. -/
def start : Place → UInt32
  | .primary i => (disk.mbr i).start_lba
  | .logical k => chain.position k + (chain.entry k).start_lba

/-- The type id of a partition. -/
def id : Place → UInt8
  | .primary i => (disk.mbr i).id
  | .logical k => (chain.entry k).id

/-- The position of a partition. -/
def number : Place → Nat
  | .primary i => i.val
  | .logical k => 4 + k

/-- A place that has a partition. -/
def Has : Place → Prop
  | .primary i => (disk.mbr i).id ≠ 0 ∧ chain.extended ≠ some i
  | .logical k => k < chain.offs.length

/-- No partition starts at sector 0, which has the master boot record, no entry
of the master boot record starts where another partition does, and logical
partitions lie behind the start of the extended one. -/
structure Apart : Prop where
  readable : disk.Readable 0
  nonzero : ∀ place, chain.Has place → chain.start place ≠ 0
  distinct : ∀ place i, chain.Has place →
    (disk.mbr i).start_lba = chain.start place → place = .primary i
  inside : ∀ k, chain.Has (.logical k) → chain.position 0 < chain.start (.logical k)

/-- The walk of the chain for a partition that starts at `lba` stops at a table,
with an id in hand.  It is the first table that does not lie before the
partition.  If it cannot be read, the table before it is still in the buffer.
If the first table cannot be read, that is the master boot record, and its second
entry is taken for the link. -/
inductive StopsAt (lba : UInt32) : Nat → UInt8 → Prop
  | read {b : Nat} (inside : b < chain.offs.length) (before : ∀ j, j < b →
        chain.position j < lba ∧ disk.Readable (chain.position j))
      (stop : lba ≤ chain.position b)
      (readable : disk.Readable (chain.position b)) :
      StopsAt lba b (chain.entry b).id
  | unread {b : Nat} (inside : b + 1 < chain.offs.length) (before : ∀ j, j < b + 1 →
        chain.position j < lba ∧ disk.Readable (chain.position j))
      (stop : lba ≤ chain.position (b + 1))
      (unreadable : ¬ disk.Readable (chain.position (b + 1))) :
      StopsAt lba (b + 1) (chain.entry b).id
  | noTable (before : chain.position 0 < lba) (unreadable : ¬ disk.Readable (chain.position 0))
      (stop : lba ≤ chain.offset + (disk.mbr 1).start_lba) :
      StopsAt lba 1 (disk.mbr 0).id

/-- The loader finds the partition: no slice that is looked at before it seems to
contain it; and for a logical partition the walk stops one table behind its own
one, counted in 16 bits, with its own id in hand. -/
def Finds (bpb : BootParameters) : Place → Prop
  | .primary i => ∀ j, j < i → insideBsd bpb.hidden_secs bpb.part_length (disk.mbr j) = false
  | .logical k =>
    (∀ j, insideBsd bpb.hidden_secs bpb.part_length (disk.mbr j) = false) ∧
      ∃ b, chain.StopsAt bpb.hidden_secs b (chain.id (.logical k)) ∧ (3 + b) % 65536 = 4 + k

end Chain
end Disk

section

variable {part_start part_length : UInt32} {pt : PartTable}

theorem scanMbr_eq_find? (entries : List (Fin 4)) (offset : UInt32) :
    (scanMbr part_start part_length pt entries offset).1 = entries.find? fun i =>
        insideBsd part_start part_length (pt i) ||
          (pt i).start_lba == part_start := by
  induction entries generalizing offset with
  | nil => rfl
  | cons i rest ih =>
    rw [scanMbr, List.find?_cons]
    cases insideBsd part_start part_length (pt i) || (pt i).start_lba == part_start with
    | true => rfl
    | false => exact ih _

theorem scanMbr_offset {e : Fin 4} {entries : List (Fin 4)} {offset : UInt32}
    (unique : ∀ i, isExtended (pt i).id = true ↔ i = e)
    (nowhere : (scanMbr part_start part_length pt entries offset).1 = none) :
    (scanMbr part_start part_length pt entries offset).2 =
      if entries.contains e then (pt e).start_lba else offset := by
  induction entries generalizing offset with
  | nil => rfl
  | cons i rest ih =>
    simp only [scanMbr] at nowhere ⊢
    split at nowhere
    · cases nowhere
    · rename_i missed
      rw [if_neg missed, ih nowhere]
      by_cases same : i = e
      · subst same
        rw [if_pos ((unique i).mpr rfl), List.contains_cons, beq_self_eq_true,
          Bool.true_or, if_pos rfl]
        split
        · rfl
        · rfl
      · have other : ¬ isExtended (pt i).id = true := fun extended => same ((unique i).mp extended)
        rw [if_neg other, List.contains_cons, beq_eq_false_iff_ne.mpr (Ne.symm same), Bool.false_or]

theorem find?_finRange_eq_some_iff {n : Nat} {p : Fin n → Bool} {i : Fin n} :
    (List.finRange n).find? p = some i ↔
      p i = true ∧ ∀ j, j < i → p j = false := by
  rw [List.find?_eq_some_iff_getElem]
  constructor
  · rintro ⟨holds, k, inside, same, before⟩
    rw [List.getElem_finRange] at same
    refine ⟨holds, fun j less => ?_⟩
    have less' : j.val < k := by
      rw [← same] at less
      exact less
    have earlier := before j.val less'
    simpa using earlier
  · rintro ⟨holds, before⟩
    refine ⟨holds, i.val, by simp, by simp, fun j less => ?_⟩
    simpa using before _ less

end

section

variable {disk : Disk} {lba offset n off : UInt32} {buf : PartTable} {fuel : Nat}

theorem walkChain_of_lt (readable : disk.Readable (offset + off)) (before : offset + off < lba) :
    walkChain disk lba offset (fuel + 1) n off ⟨buf, false⟩ =
      walkChain disk lba offset fuel (n + 1) (disk.table (offset + off) 1).start_lba
        ⟨disk.table (offset + off), false⟩ := by
  simp [walkChain, rawread, readable, before]

theorem walkChain_of_not_lt (stop : ¬ offset + off < lba) :
    walkChain disk lba offset (fuel + 1) n off ⟨buf, false⟩ = some (n + 1,
        if disk.Readable (offset + off) then disk.table (offset + off) 0
        else buf 0) := by
  simp only [walkChain, rawread, Bool.false_eq_true, ↓reduceIte, if_neg stop]
  split
  · rfl
  · rfl

theorem walkChain_of_error (stuck : offset + (buf 1).start_lba < lba) :
    walkChain disk lba offset fuel n (buf 1).start_lba ⟨buf, true⟩ = none := by
  induction fuel generalizing n with
  | zero => rfl
  | succ fuel ih =>
    simp only [walkChain, rawread, ↓reduceIte, if_pos stuck]
    exact ih

theorem walkChain_of_unreadable (unreadable : ¬ disk.Readable (offset + off))
    (before : offset + off < lba) :
    walkChain disk lba offset (fuel + 1) n off ⟨buf, false⟩ =
      walkChain disk lba offset fuel (n + 1) (buf 1).start_lba
        ⟨buf, true⟩ := by
  simp [walkChain, rawread, unreadable, before]

end

namespace Disk
namespace Chain

variable {disk : Disk} {chain : disk.Chain} {lba : UInt32}

/-- What is in the buffer before a table is read. -/
def bufBefore (chain : disk.Chain) : Nat → PartTable
  | 0 => disk.mbr
  | j + 1 => disk.table (chain.position j)

theorem off_zero (chain : disk.Chain) : chain.off 0 = 0 := by
  unfold off
  cases extended : chain.extended with
  | none => rw [chain.empty extended]; rfl
  | some i =>
    have first := chain.nonempty i extended
    rw [List.head?_eq_getElem?] at first
    rw [first]
    rfl

theorem link_eq {j : Nat} (inside : j < chain.offs.length) :
    (disk.table (chain.offset + chain.off j) 1).start_lba =
      chain.off (j + 1) := by
  cases extended : chain.extended with
  | none =>
    rw [chain.empty extended] at inside
    exact absurd inside (Nat.not_lt_zero j)
  | some i =>
    have here : chain.offs[j]? = some (chain.off j) := by
      rw [off, List.getElem?_eq_getElem inside]
      rfl
    have link := chain.link i j _ extended here
    unfold offset
    rw [extended]
    exact link

theorem off_last {j : Nat} (last : chain.offs.length ≤ j) :
    chain.off j = chain.off 0 := by
  rw [off_zero, off, List.getElem?_eq_none last]
  rfl

theorem walkChain_of_all (all : ∀ j, j < chain.offs.length →
      chain.position j < lba ∧ disk.Readable (chain.position j))
    (fuel : Nat) {j : Nat} (inside : j < chain.offs.length) (n : UInt32)
    (buf : PartTable) :
    walkChain disk lba chain.offset fuel n (chain.off j) ⟨buf, false⟩ =
      none := by
  induction fuel generalizing j n buf with
  | zero => rfl
  | succ fuel ih =>
    obtain ⟨before, readable⟩ := all j inside
    rw [walkChain_of_lt readable before, link_eq inside]
    by_cases next : j + 1 < chain.offs.length
    · exact ih next _ _
    · rw [off_last (Nat.not_lt.mp next)]
      exact ih (Nat.zero_lt_of_lt inside) _ _

theorem stopsAt_of_walkChain (first : chain.position 0 < lba) {fuel j : Nat}
    (inside : j < chain.offs.length)
    (before : ∀ i, i < j → chain.position i < lba ∧ disk.Readable (chain.position i))
    {n n' : UInt32} {q : Desc}
    (walked : walkChain disk lba chain.offset fuel n (chain.off j)
      ⟨chain.bufBefore j, false⟩ = some (n', q)) :
    ∃ d, chain.StopsAt lba (j + d) q.id ∧ n' = n + 1 + UInt32.ofNat d := by
  induction fuel generalizing j n with
  | zero => cases walked
  | succ fuel ih =>
    by_cases here : chain.offset + chain.off j < lba
    · by_cases readable : disk.Readable (chain.offset + chain.off j)
      · have upTo : ∀ i, i < j + 1 →
            chain.position i < lba ∧ disk.Readable (chain.position i) := by
          intro i less
          rcases Nat.lt_succ_iff_lt_or_eq.mp less with earlier | rfl
          · exact before i earlier
          · exact ⟨here, readable⟩
        by_cases next : j + 1 < chain.offs.length
        · rw [walkChain_of_lt readable here, link_eq inside] at walked
          obtain ⟨d, stops, count⟩ := ih next upTo walked
          refine ⟨d + 1, ?_, ?_⟩
          · rw [Nat.add_comm d 1, ← Nat.add_assoc]
            exact stops
          · rw [count, UInt32.ofNat_add]
            ac_rfl
        · -- the last table lies before the partition too
          have all : ∀ i, i < chain.offs.length → chain.position i < lba ∧
                disk.Readable (chain.position i) :=
            fun i less => upTo i (by omega)
          rw [walkChain_of_all all _ inside] at walked
          cases walked
      · rw [walkChain_of_unreadable readable here] at walked
        cases j with
        | succ i =>
          have link : (chain.bufBefore (i + 1) 1).start_lba =
              chain.off (i + 1) := link_eq (Nat.lt_of_succ_lt inside)
          rw [← link] at here
          rw [walkChain_of_error here] at walked
          cases walked
        | zero =>
          by_cases stuck : chain.offset + (disk.mbr 1).start_lba < lba
          · rw [bufBefore, walkChain_of_error stuck] at walked
            cases walked
          · cases fuel with
            | zero => cases walked
            | succ fuel =>
              simp only [walkChain, rawread, ↓reduceIte, bufBefore,
                if_neg stuck, Option.some.injEq, Prod.mk.injEq] at walked
              obtain ⟨rfl, rfl⟩ := walked
              exact ⟨1, .noTable first readable (UInt32.not_lt.mp stuck), rfl⟩
    · have stop := UInt32.not_lt.mp here
      rw [walkChain_of_not_lt here] at walked
      obtain ⟨rfl, rfl⟩ := Prod.mk.inj (Option.some.inj walked)
      refine ⟨0, ?_, (UInt32.add_zero _).symm⟩
      by_cases readable : disk.Readable (chain.offset + chain.off j)
      · rw [if_pos readable]
        exact .read inside before stop readable
      · rw [if_neg readable]
        cases j with
        | zero => exact absurd first here
        | succ i => exact .unread inside before stop readable

theorem walkChain_of_before {b : Nat} (inside : b < chain.offs.length)
    (before : ∀ j, j < b → chain.position j < lba ∧ disk.Readable (chain.position j))
    (stop : lba ≤ chain.position b) (d : Nat) {j : Nat} (far : j + d = b)
    (n : UInt32) :
    walkChain disk lba chain.offset (d + 1) n (chain.off j) ⟨chain.bufBefore j, false⟩ =
      some (n + 1 + UInt32.ofNat d,
        if disk.Readable (chain.position b) then
          disk.table (chain.position b) 0
        else chain.bufBefore b 0) := by
  induction d generalizing j n with
  | zero =>
    obtain rfl : j = b := far
    rw [walkChain_of_not_lt (UInt32.not_lt.mpr stop)]
    rw [show UInt32.ofNat 0 = 0 from rfl, UInt32.add_zero]
    rfl
  | succ d ih =>
    have less : j < b := by omega
    obtain ⟨here, readable⟩ := before j less
    rw [walkChain_of_lt readable here, link_eq (Nat.lt_trans less inside)]
    have next := @ih (j + 1) (by omega) (n + 1)
    have count : n + 1 + 1 + UInt32.ofNat d =
        n + 1 + UInt32.ofNat (d + 1) := by
      rw [UInt32.ofNat_add]
      ac_rfl
    rw [count] at next
    exact next

theorem walkChain_eq_some_iff (first : chain.position 0 < lba)
    (some : 0 < chain.offs.length) {n : UInt32} {slice : UInt8} :
    (∃ fuel q, walkChain disk lba chain.offset fuel 2 0 ⟨disk.mbr, false⟩ =
        .some (n, q) ∧ q.id = slice) ↔
      ∃ b, chain.StopsAt lba b slice ∧ n = UInt32.ofNat (3 + b) := by
  have count : ∀ d, (2 : UInt32) + 1 + UInt32.ofNat d = UInt32.ofNat (3 + d) := by
    intro d
    rw [UInt32.ofNat_add]
    rfl
  rw [← off_zero chain]
  constructor
  · rintro ⟨fuel, q, walked, rfl⟩
    obtain ⟨d, stops, rfl⟩ := stopsAt_of_walkChain (j := 0) first some
      (fun i less => absurd less (Nat.not_lt_zero i)) walked
    rw [Nat.zero_add] at stops
    exact ⟨d, stops, count d⟩
  · rintro ⟨b, stops, rfl⟩
    rw [← count]
    cases stops with
    | read inside before stop readable =>
      refine ⟨b + 1, _, walkChain_of_before inside before stop b (Nat.zero_add b) 2, ?_⟩
      rw [if_pos readable]
      rfl
    | @unread b inside before stop unreadable =>
      refine ⟨b + 1 + 1, _, walkChain_of_before inside before stop (b + 1)
        (Nat.zero_add (b + 1)) 2, ?_⟩
      rw [if_neg unreadable]
      rfl
    | noTable before unreadable stop =>
      refine ⟨2, disk.mbr 0, ?_, rfl⟩
      rw [walkChain_of_unreadable unreadable before]
      simp only [walkChain, rawread, ↓reduceIte, if_neg (UInt32.not_lt.mpr stop)]
      rfl

end Chain
end Disk

section

variable {disk : Disk} {chain : disk.Chain} {bpb : BootParameters}
  {boot_drive : UInt32} {stack : PartTable} {place : Disk.Place}

/-- The partition that is opened with a number and a type id. -/
def openedAs (boot_drive : UInt32) (bpb : BootParameters) (n : UInt32)
    (slice : UInt8) : OpenedPartition :=
  ⟨bpb.hidden_secs, bpb.part_length, boot_drive,
    (0xff : UInt32) ||| ((0xff : UInt32) <<< 8) ||| (n <<< 16), slice⟩

theorem number_openedAs (n : UInt32) (slice : UInt8) :
    (openedAs boot_drive bpb n slice).number = n.toNat % 65536 := by
  have low : (0xff : UInt32) ||| ((0xff : UInt32) <<< 8) = 0xffff := by decide
  have high : (n <<< 16).toNat = n.toNat % 65536 * 65536 := by
    rw [UInt32.toNat_shiftLeft]
    simp only [Nat.shiftLeft_eq]
    change n.toNat * 65536 % 4294967296 = _
    omega
  unfold OpenedPartition.number openedAs
  rw [low, UInt32.toNat_shiftRight, UInt32.toNat_or, high]
  rw [Nat.shiftRight_or_distrib, Nat.shiftRight_eq_div_pow, Nat.shiftRight_eq_div_pow]
  simp

theorem open_of_primary (readable : disk.Readable 0) (nonzero : bpb.hidden_secs ≠ 0) {i : Fin 4}
    (found : (scanMbr bpb.hidden_secs bpb.part_length disk.mbr
      (List.finRange 4) 0).1 = some i) (fuel : Nat) :
    open_partition_hiddensecs boot_drive bpb disk stack fuel =
      some (openedAs boot_drive bpb (UInt32.ofNat i.val) (disk.mbr i).id) := by
  have read : rawread disk 0 ⟨stack, false⟩ = ⟨disk.mbr, false⟩ := by
    simp [rawread, readable, Disk.mbr]
  unfold open_partition_hiddensecs
  rw [if_neg nonzero, read]
  cases scanned : scanMbr bpb.hidden_secs bpb.part_length disk.mbr (List.finRange 4) 0 with
  | mk first offset =>
    rw [scanned] at found
    cases found
    dsimp only
    rw [scanned]
    rfl

theorem open_of_logical (readable : disk.Readable 0) (nonzero : bpb.hidden_secs ≠ 0)
    (nowhere : (scanMbr bpb.hidden_secs bpb.part_length disk.mbr
      (List.finRange 4) 0).1 = none) (some : 0 < chain.offs.length)
    (fuel : Nat) :
    open_partition_hiddensecs boot_drive bpb disk stack fuel =
      (walkChain disk bpb.hidden_secs chain.offset fuel 2 0 ⟨disk.mbr, false⟩).map fun found =>
          openedAs boot_drive bpb found.1 found.2.id := by
  have read : rawread disk 0 ⟨stack, false⟩ = ⟨disk.mbr, false⟩ := by
    simp [rawread, readable, Disk.mbr]
  have offset : (scanMbr bpb.hidden_secs bpb.part_length disk.mbr
      (List.finRange 4) 0).2 = chain.offset := by
    unfold Disk.Chain.offset
    cases extended : chain.extended with
    | none =>
      rw [chain.empty extended] at some
      exact absurd some (Nat.not_lt_zero 0)
    | some e =>
      have unique : ∀ i, isExtended (disk.mbr i).id = true ↔ i = e := by
        intro i
        rw [chain.unique, extended, Option.some.injEq]
        exact eq_comm
      rw [scanMbr_offset unique nowhere, if_pos (List.contains_iff_mem.mpr (List.mem_finRange e))]
  unfold open_partition_hiddensecs
  rw [if_neg nonzero, read]
  cases scanned : scanMbr bpb.hidden_secs bpb.part_length disk.mbr (List.finRange 4) 0 with
  | mk first start =>
    rw [scanned] at nowhere offset
    cases nowhere
    cases offset
    dsimp only
    rw [scanned]
    rfl

/-- For each partition of a well-formed disk, the loader comes to an end with its
position and its type id exactly when it finds the partition. -/
theorem open_partition_hiddensecs_iff (apart : chain.Apart)
    (has : chain.Has place) (start : bpb.hidden_secs = chain.start place) :
    (∃ fuel opened, open_partition_hiddensecs boot_drive bpb disk stack fuel = some opened ∧
        opened.number = Disk.Chain.number place ∧
        opened.current_slice = chain.id place) ↔
      chain.Finds bpb place := by
  have nonzero : bpb.hidden_secs ≠ 0 := start ▸ apart.nonzero place has
  have elsewhere : ∀ i, (disk.mbr i).start_lba = bpb.hidden_secs →
      place = .primary i :=
    fun i same => apart.distinct place i has (same.trans start)
  have search := @scanMbr_eq_find? bpb.hidden_secs bpb.part_length disk.mbr (List.finRange 4) 0
  cases place with
  | primary i =>
    have here : (disk.mbr i).start_lba = bpb.hidden_secs := start.symm
    cases found : (scanMbr bpb.hidden_secs bpb.part_length disk.mbr (List.finRange 4) 0).1 with
    | none =>
      rw [found, eq_comm, List.find?_eq_none] at search
      have missed := search i (List.mem_finRange i)
      simp [here] at missed
    | some j =>
      rw [found, eq_comm, find?_finRange_eq_some_iff] at search
      obtain ⟨hit, before⟩ := search
      have small : j.val % 65536 = j.val := Nat.mod_eq_of_lt (by omega)
      constructor
      · rintro ⟨fuel, opened, ran, number, -⟩ k less
        rw [open_of_primary apart.readable nonzero found] at ran
        cases ran
        rw [number_openedAs] at number
        have same : j = i := by
          apply Fin.ext
          have value : (UInt32.ofNat j.val).toNat = j.val := by
            rw [UInt32.toNat_ofNat']
            omega
          rw [value, small] at number
          exact number
        have missed := before k (same ▸ less)
        rw [Bool.or_eq_false_iff] at missed
        exact missed.1
      · intro finds
        have same : j = i := by
          rcases Nat.lt_trichotomy j.val i.val with less | equal | greater
          · rcases Bool.or_eq_true_iff.mp hit with inside | starts
            · rw [finds j less] at inside
              cases inside
            · have equal := elsewhere j (beq_iff_eq.mp starts)
              cases equal
              exact absurd less (Nat.lt_irrefl _)
          · exact Fin.ext equal
          · have missed := before i greater
            simp [here] at missed
        subst same
        refine ⟨0, _, open_of_primary apart.readable nonzero found 0, ?_, rfl⟩
        rw [number_openedAs, UInt32.toNat_ofNat']
        change j.val % 4294967296 % 65536 = j.val
        omega
  | logical k =>
    have some : 0 < chain.offs.length := Nat.zero_lt_of_lt has
    cases found : (scanMbr bpb.hidden_secs bpb.part_length disk.mbr (List.finRange 4) 0).1 with
    | some j =>
      rw [found, eq_comm, find?_finRange_eq_some_iff] at search
      constructor
      · rintro ⟨fuel, opened, ran, number, -⟩
        rw [open_of_primary apart.readable nonzero found] at ran
        cases ran
        rw [number_openedAs, UInt32.toNat_ofNat'] at number
        change j.val % 4294967296 % 65536 = 4 + k at number
        omega
      · rintro ⟨outside, -⟩
        rcases Bool.or_eq_true_iff.mp search.1 with inside | starts
        · rw [outside j] at inside
          cases inside
        · cases elsewhere j (beq_iff_eq.mp starts)
    | none =>
      rw [found, eq_comm, List.find?_eq_none] at search
      have outside : ∀ j, insideBsd bpb.hidden_secs bpb.part_length
          (disk.mbr j) = false := by
        intro j
        have missed := search j (List.mem_finRange j)
        rw [Bool.not_eq_true, Bool.or_eq_false_iff] at missed
        exact missed.1
      have first : chain.position 0 < bpb.hidden_secs := start ▸ apart.inside k has
      have walks := fun n => @Disk.Chain.walkChain_eq_some_iff disk chain
        bpb.hidden_secs first some n (chain.id (.logical k))
      constructor
      · rintro ⟨fuel, opened, ran, number, slice⟩
        rw [open_of_logical apart.readable nonzero found some] at ran
        obtain ⟨⟨n, q⟩, walked, rfl⟩ := Option.map_eq_some_iff.mp ran
        obtain ⟨b, stops, rfl⟩ := (walks n).mp ⟨fuel, q, walked, slice⟩
        refine ⟨outside, b, stops, ?_⟩
        rw [number_openedAs, UInt32.toNat_ofNat'] at number
        change (3 + b) % 4294967296 % 65536 = 4 + k at number
        omega
      · rintro ⟨-, b, stops, number⟩
        obtain ⟨fuel, q, walked, slice⟩ := (walks _).mpr ⟨b, stops, rfl⟩
        refine ⟨fuel, openedAs boot_drive bpb (UInt32.ofNat (3 + b)) q.id, ?_, ?_, slice⟩
        · rw [open_of_logical apart.readable nonzero found some, walked]
          rfl
        · rw [number_openedAs, UInt32.toNat_ofNat']
          change (3 + b) % 4294967296 % 65536 = 4 + k
          omega

end

/-- A table of which two entries are used. -/
def twoEntries (first second : Desc) : PartTable
  | 0 => first
  | 1 => second
  | _ => ⟨0, 0, 0⟩

/-- A disk with a primary partition and two logical ones, all of the same type. -/
def twoLogicals : Disk where
  total_sectors := 4000
  table sector :=
    if sector = 0 then twoEntries ⟨7, 63, 1937⟩ ⟨5, 2000, 2000⟩
    else if sector = 2000 then twoEntries ⟨7, 63, 937⟩ ⟨5, 1000, 1000⟩
    else twoEntries ⟨7, 63, 937⟩ ⟨0, 0, 0⟩

/-- The chain of the two logical partitions. -/
def twoLogicalsChain : twoLogicals.Chain where
  extended := some 1
  offs := [0, 1000]
  unique := by decide
  nonempty := by decide
  empty := by decide
  link := by
    rintro i j off extended here
    cases extended
    match j with
    | 0 => cases here; rfl
    | 1 => cases here; rfl
    | j + 2 => cases here
  forward := by
    intro j
    match j with
    | 0 => decide
    | j + 1 => simp

theorem twoLogicals_apart : twoLogicalsChain.Apart where
  readable := by decide
  nonzero := by
    rintro (i | k) has
    · change (twoLogicals.mbr i).id ≠ 0 ∧ some (1 : Fin 4) ≠ some i at has
      revert i
      decide
    · match k, has with
      | 0, _ => decide
      | 1, _ => decide
      | k + 2, has => exact absurd has (by simp [Disk.Chain.Has, twoLogicalsChain])
  distinct := by
    rintro (i | k) j has same
    · change (twoLogicals.mbr i).id ≠ 0 ∧ some (1 : Fin 4) ≠ some i at has
      congr 1
      revert i j
      decide
    · match k, has with
      | 0, _ =>
        revert j
        decide
      | 1, _ =>
        revert j
        decide
      | k + 2, has => exact absurd has (by simp [Disk.Chain.Has, twoLogicalsChain])
  inside := by
    rintro k has
    match k, has with
    | 0, _ => decide
    | 1, _ => decide
    | k + 2, has => exact absurd has (by simp [Disk.Chain.Has, twoLogicalsChain])

/-- The first of the two logical partitions is found. -/
theorem firstLogical_opened : ∃ fuel opened,
      open_partition_hiddensecs 0x80 ⟨2063, 937, 0⟩ twoLogicals (fun _ => ⟨0, 0, 0⟩)
          fuel = some opened ∧
        opened.number = 4 ∧ opened.current_slice = 7 := by
  have has : twoLogicalsChain.Has (.logical 0) := Nat.zero_lt_two
  refine (open_partition_hiddensecs_iff twoLogicals_apart has
    (by decide)).mpr ⟨by decide, 1, ?_, by decide⟩
  refine .read (by decide) (fun j less => ?_) (by decide) (by decide)
  obtain rfl : j = 0 := Nat.lt_one_iff.mp less
  exact ⟨by decide, by decide⟩

/-- The last logical partition is never opened: its table links back to the first
one, and the walk goes round. -/
theorem lastLogical_notOpened : twoLogicalsChain.Apart ∧ twoLogicalsChain.Has (.logical 1) ∧
      twoLogicalsChain.start (.logical 1) = 3063 ∧
      ∀ fuel, open_partition_hiddensecs 0x80 ⟨3063, 937, 0⟩ twoLogicals
        (fun _ => ⟨0, 0, 0⟩) fuel = none := by
  refine ⟨twoLogicals_apart, Nat.one_lt_two, by decide, fun fuel => ?_⟩
  have all : ∀ j, j < twoLogicalsChain.offs.length → twoLogicalsChain.position j < 3063 ∧
        twoLogicals.Readable (twoLogicalsChain.position j) := by
    intro j inside
    match j, inside with
    | 0, _ => exact ⟨by decide, by decide⟩
    | 1, _ => exact ⟨by decide, by decide⟩
  have walked := Disk.Chain.walkChain_of_all all fuel (j := 0) (by decide) 2 twoLogicals.mbr
  rw [@open_of_logical _ twoLogicalsChain _ _ _ (by decide) (by decide) (by decide) (by decide)]
  rw [Disk.Chain.off_zero] at walked
  rw [walked]
  rfl

end OsFree.Loader
