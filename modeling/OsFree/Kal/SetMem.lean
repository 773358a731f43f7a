import OsFree.Kal.Decommit

/-!
# Setting the state of pages

`kalSetMem` commits or decommits a range of pages of an area.
-/

namespace OsFree.Kal

open Machine

def pagRead : UInt32 := 0x1
def pagWrite : UInt32 := 0x2
def pagExecute : UInt32 := 0x4
def pagCommit : UInt32 := 0x10
def pagDecommit : UInt32 := 0x20
def pagDefault : UInt32 := 0x400

def l4dmRead : UInt32 := 0x1
def l4dmWrite : UInt32 := 0x2

/-- One of these flags is set. -/
def anySet (flags some : UInt32) : Bool := flags &&& some ≠ 0

/-- The rights to a dataspace. -/
def accessRights (flags : UInt32) : UInt32 := (if anySet flags pagRead then l4dmRead else 0) |||
    (if anySet flags pagWrite then l4dmWrite else 0) |||
    (if anySet flags pagExecute then l4dmRead else 0)

/-- The flags of a call, with those that the area was allocated with if the
default is asked for. -/
def VmData.setFlags (area : VmData) (flags : UInt32) : UInt32 :=
  if anySet flags pagDefault then flags ||| area.rights else flags

/-- Flags that are accepted: access rights or the default are given unless pages
are decommitted, and pages are not both committed and decommitted. -/
def validFlags (flags : UInt32) : Bool := (anySet flags pagDecommit || anySet flags pagDefault ||
      anySet flags pagRead || anySet flags pagWrite ||
      anySet flags pagExecute) &&
    !(anySet flags pagCommit && anySet flags pagDecommit)

namespace Client

/-- Change the flags of an area that are kept in its record. -/
def changeRights (client : Client) (ptr : Nat) (f : UInt32 → UInt32) :
    Run Client :=
  (fun areas => { client with areas }) <$>
    client.areas.modify ptr fun area => { area with rights := f area.rights }

/-- Set the state of a range of pages. -/
def kalSetMem (client : Client) (initial : Nat → UInt8) (pb cb : Nat)
    (flags : UInt32) (fuel : Nat) : Option (Run (UInt32 × Client)) :=
  andThen (client.areas.getArea client.areasList pb fuel) fun
    | none => some (.ok (487, client))
    | some ptr =>
      andThen (some (client.areas.read ptr)) fun area =>
        let flags := area.setFlags flags
        if !validFlags flags then some (.ok (87, client))
        else if anySet flags pagCommit then
          andThen (some (client.changeRights ptr (· ||| pagCommit)))
            fun client => client.commitPages (accessRights flags) initial pb cb fuel
        else if anySet flags pagDecommit then
          andThen (some (client.changeRights ptr (· &&& ~~~pagCommit)))
            fun client => client.decommitPages (accessRights flags) pb cb fuel
        else some (.ok (0, client))

/-- The dataspaces of the client are live and made of whole pages, and every
area has a reserved range with an identifier of its own. -/
structure Paged (client : Client) (addresses : List Nat) : Prop where
  sound : client.Sound addresses
  live : ∀ region ∈ client.map.attached, ∀ ds, region.ds = some ds →
    ∃ dataspace, client.dataspaces.objects ds = some dataspace
  pages : ∀ region ∈ client.map.attached, 4096 ∣ region.stop
  home : ∀ ptr ∈ addresses, ∀ area, client.areas.objects ptr = some area →
    client.Home area.area area ∧ ∀ reservation ∈ client.map.reserved,
      reservation.area = area.area → reservation.start = area.addr ∧ reservation.stop = area.stop

/-- A call that ends in a state of this kind. -/
def SetsMem (client : Client) (initial : Nat → UInt8) (pb cb : Nat)
    (flags : UInt32) (exactly : Client → Client → Prop) : Prop :=
  ∃ fuel rc client', client.kalSetMem initial pb cb flags fuel =
    some (.ok (rc, client')) ∧ exactly client client'

variable {client client' : Client} {addresses : List Nat} {ptr other : Nat}
  {area found : VmData} {pb cb : Nat} {flags : UInt32}
  {initial : Nat → UInt8}

theorem Paged.backed (paged : client.Paged addresses) : client.Backed :=
  ⟨paged.live, paged.sound.once⟩

theorem Paged.found_cases (paged : client.Paged addresses)
    (member : ptr ∈ addresses) (live : client.areas.objects ptr = some area)
    (lower : area.addr ≤ pb) (upper : pb < area.stop)
    (finds : client.FindsArea pb other found) :
    other = ptr ∨ (other ≠ ptr ∧ found.stop = area.addr ∧ pb = area.addr) := by
  obtain ⟨search, live'⟩ := paged.sound.findsArea_iff.mp finds
  have member' := List.mem_of_find?_eq_some search
  have small := (paged.sound.good other member' found live').small
  have contains := List.find?_some search
  unfold Areas.containsAt at contains
  rw [live', Option.any_some, VmData.contains_iff small] at contains
  by_cases same : other = ptr
  · exact Or.inl same
  · right
    refine ⟨same, ?_⟩
    rcases paged.sound.apart other member' ptr member found area live' live with
      equal | before | behind
    · exact absurd equal same
    · omega
    · omega

theorem Paged.known (paged : client.Paged addresses)
    (member : ptr ∈ addresses) (live : client.areas.objects ptr = some area)
    (lower : area.addr ≤ pb) (upper : pb < area.stop)
    (finds : client.FindsArea pb other found) :
    (client.Home found.area area ↔ other = ptr) ∧
      (client.Home found.area area ∨ (client.Foreign found.area area ∧
        ∀ region ∈ client.map.attached, ¬ Crosses pb region)) := by
  have good := paged.sound.good ptr member area live
  obtain ⟨search, live'⟩ := paged.sound.findsArea_iff.mp finds
  have member' := List.mem_of_find?_eq_some search
  rcases paged.found_cases member live lower upper finds with same | ⟨different, stop, start⟩
  · subst same
    rw [live] at live'
    cases live'
    have home := (paged.home other member area live).1
    exact ⟨iff_of_true home rfl, Or.inl home⟩
  · have ids := (paged.home other member' found live').2
    have foreign : client.Foreign found.area area := by
      intro reservation reserved id
      exact Or.inl (Nat.le_of_eq ((ids reservation reserved id).2.trans stop))
    refine ⟨iff_of_false ?_ different, Or.inr ⟨foreign, ?_⟩⟩
    · rintro ⟨reservation, reserved, id, -, last⟩
      have stop' := (ids reservation reserved id).2
      have size := good.nonempty
      omega
    · rintro region inMap ⟨first, last⟩
      rcases good.regions region inMap with ⟨inside, -⟩ | before | behind
      · have lower' := inside.1
        omega
      · omega
      · omega

/-- The client after the flags of an area have been changed. -/
def withRights (client : Client) (ptr : Nat) (f : UInt32 → UInt32) : Client :=
  { client with
    areas := client.areas.change ptr fun area =>
      { area with rights := f area.rights } }

section

variable {f : UInt32 → UInt32} {run : Run (UInt32 × Client)}

theorem changeRights_of_live (live : client.areas.objects ptr = some area) (f : UInt32 → UInt32) :
    client.changeRights ptr f = .ok (client.withRights ptr f) := by
  unfold changeRights
  rw [Heap.modify_of_live live, map_ok]
  rfl

theorem withRights_live (live : client.areas.objects ptr = some area) :
    (client.withRights ptr f).areas.objects ptr =
      some { area with rights := f area.rights } := by
  unfold withRights
  rw [Heap.change_objects_self, live, Option.map_some]

theorem withRights_containsAt (addr : Nat) : (client.withRights ptr f).areas.containsAt addr =
      client.areas.containsAt addr := by
  funext address
  unfold Areas.containsAt withRights
  by_cases here : address = ptr
  · rw [here, Heap.change_objects_self, Option.any_map]
    rfl
  · rw [Heap.change_objects_of_ne _ here]

theorem Paged.withArea_settles (paged : client.Paged addresses)
    (finds : client.FindsArea pb ptr area) {shared : Bool}
    (isShared : area.isShared = some shared) (f : UInt32 → UInt32)
    {next : Nat → VmData → Bool → Option (Run (UInt32 × Client))}
    (rest : Settles (fun fuel =>
      next fuel { area with rights := f area.rights } shared) run) :
    Settles (fun fuel =>
      (client.withRights ptr f).withArea pb fuel (next fuel)) run := by
  obtain ⟨search, live⟩ := paged.sound.findsArea_iff.mp finds
  have linked : (client.withRights ptr f).areas.WellLinked client.areasList
      addresses :=
    Areas.change_linked paged.sound.linked ptr fun _ => ⟨rfl, rfl⟩
  have searched := Areas.getArea_settles linked pb
  rw [withRights_containsAt, search] at searched
  refine searched.andThen ?_
  simp only [Heap.read_of_live (withRights_live live)]
  refine (Settles.const (.ok _)).andThen ?_
  have shares : stored area.isShared = .ok shared := by
    rw [isShared]
    rfl
  simp only [shares]
  exact (Settles.const (.ok shared)).andThen rest

theorem Backed.withRights (backed : client.Backed) (ptr : Nat)
    (f : UInt32 → UInt32) : (client.withRights ptr f).Backed :=
  ⟨backed.live, backed.once⟩

theorem GoodArea.withRights (good : client.GoodArea area) (ptr : Nat)
    (f : UInt32 → UInt32) : (client.withRights ptr f).GoodArea area :=
  ⟨good.positive, good.nonempty, good.small, good.shared, good.owned, good.reserved, good.regions⟩

theorem Paged.kalSetMem_commit (paged : client.Paged addresses)
    (finds : client.FindsArea pb ptr area)
    (valid : validFlags (area.setFlags flags) = true)
    (commits : anySet (area.setFlags flags) pagCommit = true)
    (rest : Settles (fun fuel => (client.withRights ptr (· ||| pagCommit)).commitPages
      (accessRights (area.setFlags flags)) initial pb cb fuel) run) :
    Settles (client.kalSetMem initial pb cb flags) run := by
  obtain ⟨search, live⟩ := paged.sound.findsArea_iff.mp finds
  have searched := Areas.getArea_settles paged.sound.linked pb
  rw [search] at searched
  refine searched.andThen ?_
  simp only [Heap.read_of_live live]
  refine (Settles.const (.ok area)).andThen ?_
  simp only [valid, commits, changeRights_of_live live]
  exact (Settles.const (.ok _)).andThen rest

theorem Paged.kalSetMem_decommit (paged : client.Paged addresses)
    (finds : client.FindsArea pb ptr area)
    (valid : validFlags (area.setFlags flags) = true)
    (decommits : anySet (area.setFlags flags) pagDecommit = true)
    (rest : Settles (fun fuel =>
      (client.withRights ptr (· &&& ~~~pagCommit)).decommitPages
        (accessRights (area.setFlags flags)) pb cb fuel) run) :
    Settles (client.kalSetMem initial pb cb flags) run := by
  obtain ⟨search, live⟩ := paged.sound.findsArea_iff.mp finds
  have searched := Areas.getArea_settles paged.sound.linked pb
  rw [search] at searched
  have notCommit : anySet (area.setFlags flags) pagCommit = false := by
    unfold validFlags at valid
    simp only [decommits, Bool.and_true, Bool.and_eq_true, Bool.not_eq_true'] at valid
    exact valid.2
  refine searched.andThen ?_
  simp only [Heap.read_of_live live]
  refine (Settles.const (.ok area)).andThen ?_
  simp only [valid, decommits, notCommit, changeRights_of_live live]
  exact (Settles.const (.ok _)).andThen rest

end

theorem setsMem_iff {rc : UInt32} {exactly : Client → Client → Prop}
    (settles : Settles (client.kalSetMem initial pb cb flags) (.ok (rc, client'))) :
    client.SetsMem initial pb cb flags exactly ↔ exactly client client' := by
  constructor
  · rintro ⟨fuel, rc', last, returned, holds⟩
    have same := settles.returned fuel _ returned
    cases same
    exact holds
  · intro holds
    obtain ⟨fuel, returned⟩ := (settles.exists_iff (rc, client')).mpr rfl
    exact ⟨fuel, rc, client', returned, holds⟩

/-- Committing and decommitting do what they should in exactly these cases. -/
theorem setsMem_exactly_iff (paged : client.Paged addresses)
    (member : ptr ∈ addresses) (live : client.areas.objects ptr = some area)
    (range : PageRange area pb cb) (finds : client.FindsArea pb other found)
    (valid : validFlags (found.setFlags flags) = true)
    (initial : Nat → UInt8) :
    (anySet (found.setFlags flags) pagCommit = true →
      (client.SetsMem initial pb cb flags (CommitsExactly pb cb) ↔
        client.Committable (other = ptr) pb cb)) ∧
    (anySet (found.setFlags flags) pagDecommit = true →
      (client.SetsMem initial pb cb flags (DecommitsExactly pb cb) ↔
        client.Decommittable (other = ptr) (accessRights (found.setFlags flags))
          pb cb)) := by
  have good := paged.sound.good ptr member area live
  obtain ⟨search, live'⟩ := paged.sound.findsArea_iff.mp finds
  obtain ⟨shared, isShared⟩ := (paged.sound.good other
    (List.mem_of_find?_eq_some search) found live').shared
  have upper : pb < area.stop :=
    Nat.lt_of_lt_of_le (Nat.lt_add_of_pos_right range.nonempty) range.upper
  obtain ⟨home, known⟩ := paged.known member live range.lower upper finds
  constructor
  · intro commits
    obtain ⟨rc, client', settles, exact⟩ := commitRange_settles
      { found with rights := found.rights ||| pagCommit } shared
      (accessRights (found.setFlags flags)) initial
      (paged.backed.withRights other (· ||| pagCommit))
      (good.withRights other (· ||| pagCommit)) paged.pages range
      (known.imp_right And.left)
    rw [setsMem_iff (paged.kalSetMem_commit finds valid commits
      (paged.withArea_settles finds isShared _ settles))]
    have same : CommitsExactly pb cb (client.withRights other (· ||| pagCommit)) client' ↔
          CommitsExactly pb cb client client' :=
      commitsExactly_congr fun _ => rfl
    rw [← same, exact]
    exact or_congr_right (and_congr_left fun _ => home)
  · intro decommits
    obtain ⟨rc, client', settles, exact⟩ := decommitRange_settles
      { found with rights := found.rights &&& ~~~pagCommit } shared
      (accessRights (found.setFlags flags))
      (paged.backed.withRights other (· &&& ~~~pagCommit))
      (good.withRights other (· &&& ~~~pagCommit)) range known
    rw [setsMem_iff (paged.kalSetMem_decommit finds valid decommits
      (paged.withArea_settles finds isShared _ settles))]
    have same : DecommitsExactly pb cb (client.withRights other (· &&& ~~~pagCommit)) client' ↔
          DecommitsExactly pb cb client client' :=
      decommitsExactly_congr fun _ => rfl
    rw [← same, exact]
    exact and_congr_left fun _ => or_congr_left home

/-- A private area of two pages. -/
def twoPageArea : VmData :=
  { name := some [], isShared := some false, owner := some 0, refcnt := none
    rights := 0x3, area := 0x10000, addr := 0x10000, size := 0x2000
    next := none, prev := none }

/-- One page of the area is committed. -/
def halfCommitted (page : Nat) (within : page + 0x1000 ≤ 2 ^ 32) : Client where
  areas := Heap.empty.malloc twoPageArea
  areasList := some 0
  map :=
    { attached := [pageRegion page 0]
      reserved := [⟨0x10000, 0x2000, 0x10000⟩]
      positive := by
        intro region member
        rw [List.mem_singleton.mp member]
        exact Nat.succ_pos _
      within := by
        intro region member
        rw [List.mem_singleton.mp member]
        exact within
      apart := by
        intro region member other member'
        left
        rw [List.mem_singleton.mp member, List.mem_singleton.mp member'] }
  dataspaces := Heap.empty.malloc { size := 0x1000, bytes := fun _ => 1 }
  self := 0
  sent := []

section

variable {page : Nat} (within : page + 0x1000 ≤ 2 ^ 32)

theorem halfCommitted_paged (lower : 0x10000 ≤ page) (upper : page ≤ 0x11000)
    (aligned : 4096 ∣ page) : (halfCommitted page within).Paged [0] where
  sound :=
    { linked := ⟨rfl, none, ⟨_, rfl, rfl, rfl⟩, rfl⟩
      good := by
        intro ptr member area live
        rw [List.mem_singleton.mp member] at live
        cases live
        refine
          { positive := by decide, nonempty := by decide, small := by decide
            shared := ⟨false, rfl⟩, owned := ⟨0, rfl⟩
            reserved := ⟨_, List.mem_singleton_self _, rfl, rfl⟩
            regions := ?_ }
        intro region member
        rw [List.mem_singleton.mp member]
        refine Or.inl ⟨⟨lower, ?_⟩, rfl⟩
        exact Nat.add_le_add_right upper 0x1000
      apart := by
        intro ptr member other member' area area' live live'
        left
        rw [List.mem_singleton.mp member, List.mem_singleton.mp member']
      once := by
        intro region member other member' ds isDs isDs'
        rw [List.mem_singleton.mp member, List.mem_singleton.mp member'] }
  live := by
    intro region member ds isDs
    rw [List.mem_singleton.mp member] at isDs
    cases isDs
    exact ⟨_, rfl⟩
  pages := by
    intro region member
    rw [List.mem_singleton.mp member]
    exact Nat.dvd_add aligned (Nat.dvd_refl _)
  home := by
    intro ptr member area live
    rw [List.mem_singleton.mp member] at live
    cases live
    refine ⟨⟨_, List.mem_singleton_self _, rfl, rfl, rfl⟩, ?_⟩
    intro reservation member id
    rw [List.mem_singleton.mp member]
    exact ⟨rfl, rfl⟩

theorem bothPages : PageRange twoPageArea 0x10000 0x2000 :=
  ⟨by decide, by decide, by decide, by decide, by decide⟩

theorem halfCommitted_finds :
    (halfCommitted page within).FindsArea 0x10000 0 twoPageArea :=
  ⟨⟨1, rfl⟩, rfl⟩

end

/-- The second page is committed, and then the first is decommitted. -/
theorem halfCommitted_sets :
    (halfCommitted 0x10000 (by decide)).SetsMem (fun _ => 0) 0x10000 0x2000 0x13
        (CommitsExactly 0x10000 0x2000) ∧
      (halfCommitted 0x10000 (by decide)).SetsMem (fun _ => 0) 0x10000 0x2000
        0x23 (DecommitsExactly 0x10000 0x2000) := by
  have paged := halfCommitted_paged (by decide : 0x10000 + 0x1000 ≤ 2 ^ 32)
    (Nat.le_refl _) (by decide) (by decide)
  have finds := halfCommitted_finds (by decide : 0x10000 + 0x1000 ≤ 2 ^ 32)
  constructor
  · apply ((setsMem_exactly_iff paged (List.mem_singleton_self 0) rfl bothPages
      finds (by decide) _).1 (by decide)).mpr
    refine Or.inr ⟨rfl, ?_⟩
    intro addr addr' inRange inRange' later none
    apply Option.not_isSome_iff_eq_none.mp
    intro committed
    obtain ⟨region, member, has, -⟩ := paged.backed.pageAt_isSome.mp committed
    have earlier : ((halfCommitted 0x10000 (by decide)).pageAt addr).isSome := by
      refine paged.backed.pageAt_isSome.mpr ⟨region, member, ?_, ?_⟩
      · rw [List.mem_singleton.mp member] at has ⊢
        exact ⟨inRange.1, Nat.lt_trans later has.2⟩
      · rw [List.mem_singleton.mp member]
        rfl
    rw [none] at earlier
    cases earlier
  · apply ((setsMem_exactly_iff paged (List.mem_singleton_self 0) rfl bothPages
      finds (by decide) _).2 (by decide)).mpr
    refine ⟨Or.inl rfl, ?_⟩
    intro region member crosses
    rw [List.mem_singleton.mp member]
    rfl

/-- The first page is not committed when the second one is committed already. -/
theorem halfCommitted_fails : (halfCommitted 0x11000 (by decide)).Paged [0] ∧
      PageRange twoPageArea 0x10000 0x2000 ∧
      ¬ (halfCommitted 0x11000 (by decide)).SetsMem (fun _ => 0) 0x10000 0x2000
        0x13 (CommitsExactly 0x10000 0x2000) := by
  have paged := halfCommitted_paged (by decide : 0x11000 + 0x1000 ≤ 2 ^ 32)
    (by decide) (Nat.le_refl _) (by decide)
  have finds := halfCommitted_finds (by decide : 0x11000 + 0x1000 ≤ 2 ^ 32)
  have good := paged.sound.good 0 (List.mem_singleton_self 0) twoPageArea rfl
  refine ⟨paged, bothPages, ?_⟩
  rintro ⟨fuel, rc, client', returned, commits⟩
  have ends : ∃ last, (halfCommitted 0x11000 (by decide)).kalSetMem (fun _ => 0)
      0x10000 0x2000 0x13 3 = some (.ok (8, last)) ∧
        last.pageAt 0x10000 = none := ⟨_, rfl, rfl⟩
  obtain ⟨last, returned', missing⟩ := ends
  obtain ⟨rc', client'', settles, -⟩ := commitRange_settles
    { twoPageArea with rights := twoPageArea.rights ||| pagCommit } false
    (accessRights (twoPageArea.setFlags 0x13)) (fun _ => 0)
    (paged.backed.withRights 0 (· ||| pagCommit))
    (good.withRights 0 (· ||| pagCommit)) paged.pages bothPages
    (Or.inl (paged.home 0 (List.mem_singleton_self 0) twoPageArea rfl).1)
  have valid : validFlags (twoPageArea.setFlags 0x13) = true := by decide
  have called := paged.kalSetMem_commit finds valid (by decide)
    (paged.withArea_settles finds rfl _ settles)
  have same := (called.returned fuel _ returned).trans (called.returned 3 _ returned').symm
  cases same
  have committed := commits.committed 0x10000 ⟨Nat.le_refl _, by decide⟩
  rw [missing] at committed
  cases committed

end Client

end OsFree.Kal
