import OsFree.Kal.Commit

/-!
# Decommitting pages

A hole is made in every dataspace of a range: it is detached, and copies of what
is before and behind the hole are attached in its place.
-/

namespace OsFree.Kal

open Machine

namespace Client

/-- The pages of a range are uncommitted, and everything outside the range is
kept. -/
structure DecommitsExactly (pb cb : Nat) (client client' : Client) : Prop where
  uncommitted : ∀ addr, InRange pb cb addr → client'.pageAt addr = none
  outside : ∀ addr, ¬ InRange pb cb addr → client'.pageAt addr = client.pageAt addr

/-- The address is in the region, behind its start. -/
def Crosses (edge : Nat) (region : Region) : Prop := region.start < edge ∧ edge < region.stop

variable {client client' : Client} {area found : VmData} {region : Region}
  {ds : Nat} {dataspace : Dataspace} {rights : UInt32} {shared : Bool}
  {pb cb stop addr : Nat}

/-! ## Copying a part of a dataspace -/

/-- A part of a dataspace has been copied to an address, if there is anything to
copy. -/
structure Copied (ds : Nat) (dataspace : Dataspace) (rights : UInt32)
    (offset start size : Nat) (client client' : Client) : Prop where
  detached : client'.Detached ds dataspace
  reserved : client'.map.reserved = client.map.reserved
  old : ∀ other ∈ client.map.attached, other ∈ client'.map.attached
  new : ∀ other ∈ client'.map.attached, other ∈ client.map.attached ∨
    (0 < size ∧ other.ds.isSome ∧ other.start = start ∧ other.stop = start + size)
  inside : ∀ addr, start ≤ addr → addr < start + size → client'.pageAt addr =
      some (dataspace.bytes (offset + (addr - start)), rights)
  outside : ∀ addr, ¬ (start ≤ addr ∧ addr < start + size) →
    client'.pageAt addr = client.pageAt addr

/-- The region of a copy. -/
def copyRegion (client : Client) (rights : UInt32) (start size : Nat) : Region :=
  { start, size, ds := some client.dataspaces.fresh, rights }

theorem attachCopy_of_fits (detached : client.Detached ds dataspace)
    (shared : Bool) (offset : Nat) {start size : Nat}
    (fits : client.map.Fits found.area (client.copyRegion rights start size)) :
    ∃ after, client.attachCopy found shared rights ds offset start size = (0, after) ∧
      Attaches (client.copyRegion rights start size)
        ⟨size, fun i => dataspace.bytes (offset + i)⟩ client after := by
  unfold attachCopy
  unfold copyRegion at fits ⊢
  simp only [detached.live, RegionMap.attach_of_fits fits]
  exact ⟨_, rfl, sendIf_attaches shared ⟨rfl, rfl, rfl, rfl⟩⟩

theorem copy_spec (detached : client.Detached ds dataspace) (shared : Bool)
    (copies : Prop) [Decidable copies] (offset : Nat) {start size : Nat}
    (nonempty : copies ↔ 0 < size)
    (fits : copies → client.map.Fits found.area (client.copyRegion rights start size)) :
    ∃ after, (if copies then
        client.attachCopy found shared rights ds offset start size
        else (0, client)) = (0, after) ∧
      Copied ds dataspace rights offset start size client after := by
  by_cases copied : copies
  · obtain ⟨after, attached, attaches⟩ := attachCopy_of_fits detached shared offset (fits copied)
    have pages := attaches.pageAt_eq detached.backed
    refine ⟨after, (if_pos copied).trans attached,
      { detached := detached.attach attaches, reserved := attaches.reserved
        old := ?_, new := ?_, inside := ?_, outside := ?_ }⟩
    · rw [attaches.attached]
      exact fun other member => List.mem_cons_of_mem _ member
    · rw [attaches.attached]
      intro other member
      rcases List.mem_cons.mp member with rfl | member
      · exact Or.inr ⟨nonempty.mp copied, rfl, rfl, rfl⟩
      · exact Or.inl member
    · intro addr lower upper
      exact (pages addr).trans (if_pos ⟨lower, upper⟩)
    · intro addr outside
      exact (pages addr).trans (if_neg outside)
  · have empty : size = 0 := Nat.eq_zero_of_not_pos fun positive => copied (nonempty.mpr positive)
    exact ⟨client, if_neg copied,
      { detached, reserved := rfl, old := fun _ member => member
        new := fun _ member => Or.inl member
        inside := fun addr lower upper => by omega
        outside := fun _ _ => rfl }⟩

/-! ## Making a hole -/

/-- There is a hole in a region, and what is left of it has other rights. -/
structure Punched (region : Region) (pb stop : Nat) (rights : UInt32)
    (client client' : Client) : Prop where
  backed : client'.Backed
  reserved : client'.map.reserved = client.map.reserved
  old : ∀ other ∈ client.map.attached, other ≠ region → other ∈ client'.map.attached
  new : ∀ other ∈ client'.map.attached, (other ∈ client.map.attached ∧ other ≠ region) ∨
      (other.ds.isSome ∧ ((region.start < pb ∧ other.start = region.start ∧ other.stop = pb) ∨
          (stop < region.stop ∧ other.start = stop ∧ other.stop = region.stop)))
  hole : ∀ addr, region.Has addr → pb ≤ addr → addr < stop → client'.pageAt addr = none
  rim : ∀ addr, region.Has addr → ¬ (pb ≤ addr ∧ addr < stop) → client'.pageAt addr =
      (client.pageAt addr).map fun page => (page.1, rights)
  outside : ∀ addr, ¬ region.Has addr → client'.pageAt addr = client.pageAt addr

theorem sendIf_eq (client : Client) (shared : Bool) (request : Request) :
    ∃ sent, client.sendIf shared request = { client with sent } := by
  rcases sendIf_cases client shared request with same | sent
  · exact ⟨client.sent, same⟩
  · exact ⟨_, sent⟩

/-- A dataspace has been detached. -/
structure Unmapped (region : Region) (ds : Nat) (dataspace : Dataspace)
    (client client' : Client) : Prop where
  detached : client'.Detached ds dataspace
  reserved : client'.map.reserved = client.map.reserved
  attached : ∀ other, other ∈ client'.map.attached ↔ other ∈ client.map.attached ∧ other ≠ region
  pageAt : ∀ addr, client'.pageAt addr =
    if region.Has addr then none else client.pageAt addr

theorem unmap_spec (backed : client.Backed)
    (member : region ∈ client.map.attached) (isDs : region.ds = some ds)
    (live : client.dataspaces.objects ds = some dataspace) (shared : Bool) :
    ∃ after, sendIf { client with map := client.map.detach region.start } shared
        (.unmapDataspace region.start ds) = after ∧
      Unmapped region ds dataspace client after := by
  have atStart : region.Has region.start :=
    ⟨Nat.le_refl _, Nat.lt_add_of_pos_right (client.map.positive region member)⟩
  obtain ⟨sent, same⟩ := sendIf_eq
    { client with map := client.map.detach region.start } shared
    (.unmapDataspace region.start ds)
  refine ⟨_, same,
    { detached := backed.detach member atStart isDs live sent, reserved := rfl
      attached := ?_, pageAt := pageAt_detach member atStart sent }⟩
  intro other
  rw [RegionMap.mem_detach_iff]
  apply and_congr_right
  intro member'
  constructor
  · rintro missing rfl
    exact missing atStart
  · intro different has
    exact different (RegionMap.eq_of_has member' member has atStart)

theorem Home.fits_part (home : client.Home found.area area)
    (reserved : client'.map.reserved = client.map.reserved)
    (member : region ∈ client.map.attached) (inside : Inside area region)
    {start size : Nat} (nonempty : 0 < size) (lower : region.start ≤ start)
    (upper : start + size ≤ region.stop)
    (others : ∀ other ∈ client'.map.attached,
      (other ∈ client.map.attached ∧ other ≠ region) ∨ other.stop ≤ start) :
    client'.map.Fits found.area (client'.copyRegion rights start size) := by
  have home' : client'.Home found.area area := by
    unfold Home
    rw [reserved]
    exact home
  have within := client.map.within region member
  apply home'.fits nonempty
  · exact Nat.le_trans upper within
  · exact ⟨Nat.le_trans inside.1 lower, Nat.le_trans upper inside.2⟩
  · intro other member'
    rcases others other member' with ⟨inMap, different⟩ | before
    · rcases client.map.apart other inMap region member with same | before | behind
      · exact absurd same different
      · exact Or.inr (Nat.le_trans before lower)
      · exact Or.inl (Nat.le_trans upper behind)
    · exact Or.inr before

theorem punched_of_copied (inRegion : region.Has pb) (nonempty : 0 < cb)
    (member : region ∈ client.map.attached) (isDs : region.ds = some ds)
    (live : client.dataspaces.objects ds = some dataspace)
    {client₁ client₂ client₃ : Client}
    (unmapped : Unmapped region ds dataspace client client₁)
    (before : Copied ds dataspace rights 0 region.start (pb - region.start) client₁ client₂)
    (behind : Copied ds dataspace rights (pb + cb - region.start) (pb + cb)
      (region.stop - (pb + cb)) client₂ client₃) :
    Punched region pb (pb + cb) rights client (client₃.close ds) where
  backed := behind.detached.close_backed
  reserved := behind.reserved.trans (before.reserved.trans unmapped.reserved)
  old := by
    intro other member' different
    apply behind.old
    apply before.old
    exact (unmapped.attached other).mpr ⟨member', different⟩
  new := by
    intro other member'
    rcases behind.new other member' with old | ⟨some, isSome, start, stop⟩
    · rcases before.new other old with old | ⟨some, isSome, start, stop⟩
      · exact Or.inl ((unmapped.attached other).mp old)
      · refine Or.inr ⟨isSome, Or.inl ⟨?_, start, ?_⟩⟩
        · omega
        · omega
    · refine Or.inr ⟨isSome, Or.inr ⟨?_, start, ?_⟩⟩
      · omega
      · omega
  hole := by
    intro addr has late early
    rw [behind.detached.pageAt_close, behind.outside addr (by omega),
      before.outside addr (by omega), unmapped.pageAt, if_pos has]
  rim := by
    intro addr has outside
    have bytes := pageAt_of_has member has isDs live
    obtain ⟨lower, upper⟩ := inRegion
    obtain ⟨first, last⟩ := has
    rw [behind.detached.pageAt_close, bytes]
    rcases Nat.lt_or_ge addr pb with early | late
    · rw [behind.outside addr (by omega), before.inside addr first (by omega), Nat.zero_add]
      rfl
    · rw [behind.inside addr (by omega) (by omega)]
      have offset : pb + cb - region.start + (addr - (pb + cb)) =
          addr - region.start := by omega
      rw [offset]
      rfl
  outside := by
    intro addr missing
    obtain ⟨lower, upper⟩ := inRegion
    have apart : addr < region.start ∨ region.stop ≤ addr := by
      unfold Region.Has at missing
      omega
    rw [behind.detached.pageAt_close, behind.outside addr (by omega),
      before.outside addr (by omega), unmapped.pageAt, if_neg missing]

theorem punchHole_spec (backed : client.Backed)
    (member : region ∈ client.map.attached) (has : region.Has pb)
    (isDs : region.ds = some ds) (inside : Inside area region)
    (nonempty : 0 < cb)
    (home : client.Home found.area area ∨
      ¬ region.start < pb ∧ ¬ pb + cb < region.stop) (shared : Bool)
    (rights : UInt32) :
    ∃ after, client.punchHole found shared rights region ds pb cb =
        (0, after) ∧ Punched region pb (pb + cb) rights client after := by
  obtain ⟨dataspace, live⟩ := backed.live region member ds isDs
  obtain ⟨lower, upper⟩ := has
  obtain ⟨client₁, sent, unmapped⟩ := unmap_spec backed member isDs live shared
  have fits : region.start < pb → client₁.map.Fits found.area
      (client₁.copyRegion rights region.start (pb - region.start)) := by
    intro copies
    have home := home.resolve_right fun none => none.1 copies
    apply home.fits_part unmapped.reserved member inside (by omega) (Nat.le_refl _) (by omega)
    intro other member'
    exact Or.inl ((unmapped.attached other).mp member')
  obtain ⟨client₂, copied, before⟩ := copy_spec unmapped.detached shared
    (region.start < pb) 0 (by omega) fits
  have fits' : pb + cb < region.stop → client₂.map.Fits found.area
      (client₂.copyRegion rights (pb + cb) (region.stop - (pb + cb))) := by
    intro copies
    have home := home.resolve_right fun none => none.2 copies
    apply home.fits_part (before.reserved.trans unmapped.reserved) member
      inside (by omega) (by omega) (by omega)
    intro other member'
    rcases before.new other member' with old | ⟨-, -, -, stop⟩
    · exact Or.inl ((unmapped.attached other).mp old)
    · exact Or.inr (by omega)
  obtain ⟨client₃, copied', behind⟩ := copy_spec before.detached shared
    (pb + cb < region.stop) (pb + cb - region.start) (by omega) fits'
  refine ⟨client₃.close ds, ?_, punched_of_copied ⟨lower, upper⟩ nonempty member
    isDs live unmapped before behind⟩
  unfold punchHole
  simp only [sent, copied, copied']
  rfl

/-! ## Passes over a range -/

/-- A hole has been made in everything that is attached in a range, and what is
left of the dataspaces at its ends has other rights. -/
structure Hollows (pb stop : Nat) (rights : UInt32) (client client' : Client) :
    Prop where
  hole : ∀ addr, pb ≤ addr → addr < stop → client'.pageAt addr = none
  rim : ∀ addr, ¬ (pb ≤ addr ∧ addr < stop) → ∀ region ∈ client.map.attached, region.Has addr →
      Crosses pb region ∨ Crosses stop region → client'.pageAt addr =
          (client.pageAt addr).map fun page => (page.1, rights)
  outside : ∀ addr, ¬ (pb ≤ addr ∧ addr < stop) → (∀ region ∈ client.map.attached, region.Has addr →
      ¬ Crosses pb region ∧ ¬ Crosses stop region) → client'.pageAt addr = client.pageAt addr

theorem Hollows.kept_or (hollows : Hollows pb stop rights client client')
    (addr : Nat) (outside : ¬ (pb ≤ addr ∧ addr < stop)) :
    client'.pageAt addr = client.pageAt addr ∨ client'.pageAt addr =
        (client.pageAt addr).map fun page => (page.1, rights) := by
  by_cases crossed : ∃ region ∈ client.map.attached, region.Has addr ∧
      (Crosses pb region ∨ Crosses stop region)
  · obtain ⟨region, member, has, crosses⟩ := crossed
    exact Or.inr (hollows.rim addr outside region member has crosses)
  · left
    apply hollows.outside addr outside
    intro region member has
    constructor
    · intro crosses
      exact crossed ⟨region, member, has, Or.inl crosses⟩
    · intro crosses
      exact crossed ⟨region, member, has, Or.inr crosses⟩

theorem Hollows.of_gap (here : client.map.regionAt pb = none)
    (nonempty : pb < stop) (last : stop ≤ (client.map.lookup pb).stop)
    (rights : UInt32) : Hollows pb stop rights client client where
  hole := by
    intro addr late early
    apply pageAt_of_none
    apply RegionMap.regionAt_eq_none_iff.mpr
    rintro region member ⟨lower, upper⟩
    rcases RegionMap.apart_of_gap here member with before | behind
    · omega
    · omega
  rim := by
    intro addr outside region member has crosses
    unfold Crosses at crosses
    rcases RegionMap.apart_of_gap here member with before | behind
    · omega
    · omega
  outside := fun _ _ _ => rfl

/-- Nothing is attached at the start of the range. -/
theorem Hollows.gap (here : client.map.regionAt pb = none)
    (behind : pb < (client.map.lookup pb).stop)
    (rest : Hollows (client.map.lookup pb).stop stop rights client client') :
    Hollows pb stop rights client client' where
  hole := by
    intro addr late early
    rcases Nat.lt_or_ge addr (client.map.lookup pb).stop with inGap | inRest
    · have missing : client.pageAt addr = none := by
        apply pageAt_of_none
        apply RegionMap.regionAt_eq_none_iff.mpr
        rintro region member ⟨lower, upper⟩
        rcases RegionMap.apart_of_gap here member with before | behind
        · omega
        · omega
      rcases rest.kept_or addr (by omega) with same | same
      · rw [same, missing]
      · rw [same, missing]
        rfl
    · exact rest.hole addr inRest early
  rim := by
    intro addr outside region member has crosses
    apply rest.rim addr (by omega) region member has
    right
    refine crosses.resolve_left fun ⟨lower, upper⟩ => ?_
    rcases RegionMap.apart_of_gap here member with before | behind
    · omega
    · omega
  outside := by
    intro addr outside none
    apply rest.outside addr (by omega)
    intro region member has
    refine ⟨fun ⟨lower, upper⟩ => ?_, (none region member has).2⟩
    rcases RegionMap.apart_of_gap here member with before | behind
    · omega
    · omega

section

variable (punched : Punched region pb stop rights client client')

include punched

theorem Punched.last (member : region ∈ client.map.attached) (has : region.Has pb)
    (nonempty : pb < stop) (last : stop ≤ region.stop) :
    Hollows pb stop rights client client' where
  hole := by
    intro addr late early
    exact punched.hole addr ⟨Nat.le_trans has.1 late, Nat.lt_of_lt_of_le early last⟩ late early
  rim := by
    intro addr outside other member' has' crosses
    have same : other = region := by
      rcases client.map.apart other member' region member with same | before | behind
      · exact same
      · unfold Crosses at crosses
        obtain ⟨lower, upper⟩ := has
        omega
      · unfold Crosses at crosses
        omega
    exact punched.rim addr (same ▸ has') outside
  outside := by
    intro addr outside none
    apply punched.outside
    intro has'
    obtain ⟨notFirst, notLast⟩ := none region member has'
    unfold Crosses at notFirst notLast
    obtain ⟨lower, upper⟩ := has
    obtain ⟨lower', upper'⟩ := has'
    omega

theorem Punched.not_crosses (member : region ∈ client.map.attached) (has : region.Has pb)
    (more : region.stop < stop) :
    ∀ other ∈ client'.map.attached, ¬ Crosses region.stop other := by
  rintro other member' ⟨lower, upper⟩
  rcases punched.new other member' with ⟨inMap, different⟩ | ⟨-, ⟨-, -, last⟩ | ⟨past, -, -⟩⟩
  · rcases client.map.apart other inMap region member with same | before | behind
    · exact different same
    · have positive := has
      obtain ⟨lower', upper'⟩ := has
      omega
    · omega
  · have behind := has.2
    omega
  · omega

theorem Punched.mem_of_crosses (has : region.Has pb) (more : region.stop < stop) {other : Region}
    (member : other ∈ client'.map.attached) (crosses : Crosses stop other) :
    other ∈ client.map.attached ∧ other ≠ region := by
  obtain ⟨lower, upper⟩ := crosses
  rcases punched.new other member with old | ⟨-, ⟨-, -, last⟩ | ⟨past, -, -⟩⟩
  · exact old
  · have behind := has.2
    omega
  · omega

end

theorem Punched.next {after : Client} (punched : Punched region pb stop rights client after)
    (member : region ∈ client.map.attached) (has : region.Has pb)
    (more : region.stop < stop)
    (rest : Hollows region.stop stop rights after client') :
    Hollows pb stop rights client client' where
  hole := by
    intro addr late early
    rcases Nat.lt_or_ge addr region.stop with inside | behind
    · have missing := punched.hole addr ⟨Nat.le_trans has.1 late, inside⟩ late early
      rcases rest.kept_or addr (by omega) with same | same
      · rw [same, missing]
      · rw [same, missing]
        rfl
    · exact rest.hole addr behind early
  rim := by
    intro addr outside other member' has' crosses
    obtain ⟨lower, upper⟩ := has
    rcases client.map.apart other member' region member with
      rfl | before | behind
    · have rim := punched.rim addr has' outside
      rcases rest.kept_or addr (by omega) with same | same
      · rw [same, rim]
      · rw [same, rim, Option.map_map]
        rfl
    · unfold Crosses at crosses
      omega
    · have missing : ¬ region.Has addr := by
        rintro ⟨lower', upper'⟩
        have first := has'.1
        omega
      have different : other ≠ region := by
        rintro rfl
        exact missing has'
      rw [rest.rim addr (by omega) other (punched.old other member' different) has'
        (Or.inr (crosses.resolve_left fun ⟨first, last⟩ => by omega)),
        punched.outside addr missing]
  outside := by
    intro addr outside none
    have missing : ¬ region.Has addr := by
      intro has'
      have notFirst := (none region member has').1
      unfold Crosses at notFirst
      obtain ⟨lower, upper⟩ := has
      obtain ⟨lower', upper'⟩ := has'
      omega
    rw [rest.outside addr (by
      obtain ⟨lower, upper⟩ := has
      omega) ?_, punched.outside addr missing]
    intro other member' has'
    refine ⟨punched.not_crosses member has more other member', ?_⟩
    intro crosses
    obtain ⟨inMap, -⟩ := punched.mem_of_crosses has more member' crosses
    exact (none other inMap has').2 crosses

/-! ## The whole range -/

/-- What is attached at an area is a dataspace in it. -/
def OnlyDataspaces (client : Client) (area : VmData) : Prop :=
  ∀ region ∈ client.map.attached, (Inside area region ∧ region.ds.isSome) ∨
      region.stop ≤ area.addr ∨ area.stop ≤ region.start

theorem OnlyDataspaces.of_has (only : client.OnlyDataspaces area)
    (member : region ∈ client.map.attached) (has : region.Has addr)
    (lower : area.addr ≤ addr) (upper : addr < area.stop) :
    Inside area region ∧ ∃ ds, region.ds = some ds := by
  rcases only region member with ⟨inside, isSome⟩ | before | behind
  · exact ⟨inside, Option.isSome_iff_exists.mp isSome⟩
  · exact absurd has.2 (Nat.not_lt.mpr (Nat.le_trans before lower))
  · exact absurd has.1 (Nat.not_le.mpr (Nat.lt_of_lt_of_le upper behind))

theorem Punched.onlyDataspaces (punched : Punched region pb stop rights client client')
    (only : client.OnlyDataspaces area) (inside : Inside area region)
    (has : region.Has pb) (nonempty : pb < stop) :
    client'.OnlyDataspaces area := by
  intro other member
  obtain ⟨first, last⟩ := inside
  obtain ⟨lower, upper⟩ := has
  rcases punched.new other member with
    ⟨inMap, -⟩ | ⟨isSome, ⟨-, start, stop'⟩ | ⟨past, start, stop'⟩⟩
  · exact only other inMap
  · exact Or.inl ⟨⟨by omega, by omega⟩, isSome⟩
  · exact Or.inl ⟨⟨by omega, by omega⟩, isSome⟩

theorem Home.of_reserved {id : Nat} (home : client.Home id area)
    (reserved : client'.map.reserved = client.map.reserved) :
    client'.Home id area := by
  unfold Home
  rw [reserved]
  exact home

theorem Foreign.of_reserved {id : Nat} (foreign : client.Foreign id area)
    (reserved : client'.map.reserved = client.map.reserved) :
    client'.Foreign id area := by
  unfold Foreign
  rw [reserved]
  exact foreign

theorem decommitPass_of_none (here : client.map.regionAt pb = none)
    (found : VmData) (shared : Bool) (rights : UInt32) (cb : Nat) :
    decommitPass found shared rights pb cb client = (0, client) := by
  unfold decommitPass
  rcases RegionMap.lookup_of_none here with reserved | free
  · rw [reserved]
  · rw [free]

theorem decommitPass_of_region (here : client.map.regionAt pb = some region)
    (isDs : region.ds = some ds) (found : VmData) (shared : Bool)
    (rights : UInt32) (cb : Nat) :
    decommitPass found shared rights pb cb client =
      client.punchHole found shared rights region ds pb cb := by
  unfold decommitPass
  rw [RegionMap.lookup_of_region here]
  simp only [isDs]

theorem stop_of_region (here : client.map.regionAt pb = some region) :
    (client.map.lookup pb).stop = region.stop := by
  rw [RegionMap.lookup_of_region here]
  rfl

theorem decommitLoop_hollows (backed : client.Backed)
    (only : client.OnlyDataspaces area) (nonempty : 0 < cb)
    (lower : area.addr ≤ pb) (upper : pb + cb ≤ area.stop)
    (small : area.stop < 2 ^ 32)
    (home : client.Home found.area area ∨ ∀ region ∈ client.map.attached,
      ¬ Crosses pb region ∧ ¬ Crosses (pb + cb) region) :
    ∃ client', Settles (fun fuel => rangeLoop (decommitPass found shared rights) fuel pb cb client)
        (.ok (0, client')) ∧
      Hollows pb (pb + cb) rights client client' := by
  induction cb using Nat.strongRecOn generalizing pb client with
  | ind cb ih =>
  have behind := client.map.lt_lookup_stop (by omega : pb < 2 ^ 32)
  have inRange : pb < pb + cb := Nat.lt_add_of_pos_right nonempty
  have sum : ∀ edge, pb < edge → edge < pb + cb →
      edge + (cb - (edge - pb)) = pb + cb := by
    intro edge first last
    omega
  cases here : client.map.regionAt pb with
  | none =>
    have passed := decommitPass_of_none here found shared rights cb
    rcases Nat.lt_or_ge (client.map.lookup pb).stop (pb + cb) with more | last
    · have sum := sum _ behind more
      have home' : client.Home found.area area ∨ ∀ region ∈ client.map.attached,
            ¬ Crosses (client.map.lookup pb).stop region ∧ ¬ Crosses ((client.map.lookup pb).stop +
                (cb - ((client.map.lookup pb).stop - pb))) region := by
        rw [sum]
        apply home.imp_right
        intro none region member
        refine ⟨fun ⟨first, last⟩ => ?_, (none region member).2⟩
        rcases RegionMap.apart_of_gap here member with before | after
        · omega
        · omega
      obtain ⟨client', settles, rest⟩ := ih _ (by omega)
        backed only (by omega) (by omega) (by omega) home'
      rw [sum] at rest
      exact ⟨client', rangeLoop_next passed more settles, rest.gap here behind⟩
    · exact ⟨client, rangeLoop_last passed last, Hollows.of_gap here inRange last rights⟩
  | some region =>
    obtain ⟨member, has⟩ := RegionMap.regionAt_eq_some_iff.mp here
    obtain ⟨inside, ds, isDs⟩ := only.of_has member has lower (by omega)
    have stop := stop_of_region here
    obtain ⟨after, punches, punched⟩ := punchHole_spec backed member has isDs
      inside nonempty (home.imp id fun none => by
        obtain ⟨notFirst, notLast⟩ := none region member
        unfold Crosses at notFirst notLast
        obtain ⟨lower', upper'⟩ := has
        omega) shared rights
    have passed := (decommitPass_of_region here isDs found shared rights cb).trans punches
    rcases Nat.lt_or_ge region.stop (pb + cb) with more | last
    · have sum := sum region.stop has.2 more
      have home' : after.Home found.area area ∨
          ∀ other ∈ after.map.attached, ¬ Crosses region.stop other ∧
            ¬ Crosses (region.stop + (cb - (region.stop - pb))) other := by
        rw [sum]
        refine home.imp (fun home => home.of_reserved punched.reserved) ?_
        intro none other member'
        refine ⟨punched.not_crosses member has more other member', ?_⟩
        intro crosses
        obtain ⟨inMap, -⟩ := punched.mem_of_crosses has more member' crosses
        exact (none other inMap).2 crosses
      obtain ⟨client', settles, rest⟩ := ih _ (by omega)
        punched.backed (punched.onlyDataspaces only inside has inRange)
        (by omega) (by omega) (by omega) home'
      rw [sum] at rest
      exact ⟨client', rangeLoop_next passed (stop ▸ more)
        (stop.symm ▸ settles), punched.next member has more rest⟩
    · exact ⟨after, rangeLoop_last passed (stop ▸ last), punched.last member has inRange last⟩

/-! ## When the range is decommitted -/

theorem punchHole_fails (backed : client.Backed)
    (member : region ∈ client.map.attached) (isDs : region.ds = some ds)
    (inside : Inside area region) (foreign : client.Foreign found.area area)
    (first : region.start = pb) (crosses : Crosses (pb + cb) region)
    (shared : Bool) (rights : UInt32) :
    ∃ after, client.punchHole found shared rights region ds pb cb =
        (8, after) ∧ after.pageAt (pb + cb) = none := by
  obtain ⟨dataspace, live⟩ := backed.live region member ds isDs
  obtain ⟨client₁, sent, unmapped⟩ := unmap_spec backed member isDs live shared
  have notFirst : ¬ region.start < pb := by omega
  have foreign' := foreign.of_reserved unmapped.reserved
  have blocked : ¬ client₁.map.Fits found.area
      (client₁.copyRegion rights (pb + cb) (region.stop - (pb + cb))) := by
    obtain ⟨lower, upper⟩ := inside
    obtain ⟨lower', upper'⟩ := crosses
    apply foreign'.not_fits
    constructor
    · change area.addr ≤ pb + cb
      omega
    · change pb + cb + (region.stop - (pb + cb)) ≤ area.stop
      omega
  have failed : ∃ dataspaces, client₁.attachCopy found shared rights ds
      (pb + cb - region.start) (pb + cb) (region.stop - (pb + cb)) =
        (8, { client₁ with dataspaces }) := by
    unfold attachCopy
    unfold copyRegion at blocked
    simp only [unmapped.detached.live, RegionMap.attach_of_not_fits blocked]
    exact ⟨_, rfl⟩
  obtain ⟨dataspaces, failed⟩ := failed
  refine ⟨{ client₁ with dataspaces }, ?_, ?_⟩
  · unfold punchHole
    simp only [sent, if_neg notFirst, if_pos crosses.2, failed]
    rfl
  · apply pageAt_of_none
    apply RegionMap.regionAt_eq_none_iff.mpr
    intro other member' has
    obtain ⟨inMap, different⟩ := (unmapped.attached other).mp member'
    exact different (RegionMap.eq_of_has inMap member has ⟨Nat.le_of_lt crosses.1, crosses.2⟩)

theorem decommitLoop_loses (backed : client.Backed)
    (only : client.OnlyDataspaces area) (nonempty : 0 < cb)
    (lower : area.addr ≤ pb) (upper : pb + cb ≤ area.stop)
    (small : area.stop < 2 ^ 32) (foreign : client.Foreign found.area area)
    (first : ∀ region ∈ client.map.attached, ¬ Crosses pb region)
    (member : region ∈ client.map.attached)
    (crosses : Crosses (pb + cb) region) :
    ∃ rc client', Settles (fun fuel => rangeLoop
        (decommitPass found shared rights) fuel pb cb client)
        (.ok (rc, client')) ∧ client'.pageAt (pb + cb) = none := by
  induction cb using Nat.strongRecOn generalizing pb client with
  | ind cb ih =>
  have behind := client.map.lt_lookup_stop (by omega : pb < 2 ^ 32)
  have sum : ∀ edge, pb < edge → edge < pb + cb →
      edge + (cb - (edge - pb)) = pb + cb := by
    intro edge first last
    omega
  cases here : client.map.regionAt pb with
  | none =>
    have passed := decommitPass_of_none here found shared rights cb
    have more : (client.map.lookup pb).stop < pb + cb := by
      obtain ⟨lower', upper'⟩ := crosses
      rcases RegionMap.apart_of_gap here member with before | after
      · omega
      · omega
    have sum := sum _ behind more
    obtain ⟨rc, client', settles, lost⟩ := ih
      (cb - ((client.map.lookup pb).stop - pb)) (by omega) backed only
      (by omega) (by omega) (by omega) foreign (by
        rintro other member' ⟨first', last'⟩
        rcases RegionMap.apart_of_gap here member' with before | after
        · omega
        · exact Nat.lt_irrefl _ (Nat.lt_of_lt_of_le first' after))
      member (sum.symm ▸ crosses)
    rw [sum] at lost
    exact ⟨rc, client', rangeLoop_next passed more settles, lost⟩
  | some other =>
    obtain ⟨member', has⟩ := RegionMap.regionAt_eq_some_iff.mp here
    obtain ⟨inside, ds, isDs⟩ := only.of_has member' has lower (by omega)
    have atStart : other.start = pb := by
      have notFirst := first other member'
      obtain ⟨lower', upper'⟩ := has
      unfold Crosses at notFirst
      omega
    have pass := decommitPass_of_region here isDs found shared rights cb
    rcases client.map.apart other member' region member with same | before | after
    · subst same
      obtain ⟨after, failed, lost⟩ := punchHole_fails backed member' isDs
        inside foreign atStart crosses shared rights
      exact ⟨8, after, rangeLoop_fails (pass.trans failed) (by decide), lost⟩
    · have more : other.stop < pb + cb := Nat.lt_of_le_of_lt before crosses.1
      have stop := stop_of_region here
      have different : region ≠ other := by
        rintro rfl
        have positive := client.map.positive region member
        omega
      obtain ⟨after, punches, punched⟩ := punchHole_spec backed member' has
        isDs inside nonempty (Or.inr ⟨by omega, by omega⟩) shared rights
      have sum := sum _ has.2 more
      obtain ⟨rc, client', settles, lost⟩ := ih (cb - (other.stop - pb)) (by omega) punched.backed
        (punched.onlyDataspaces only inside has (by omega)) (by omega)
        (by omega) (by omega) (foreign.of_reserved punched.reserved)
        (punched.not_crosses member' has more)
        (punched.old region member different) (sum.symm ▸ crosses)
      rw [sum] at lost
      exact ⟨rc, client', rangeLoop_next (pass.trans punches) (stop ▸ more)
        (stop.symm ▸ settles), lost⟩
    · have last := crosses.2
      omega

/-- The area that has been found is the right one or no dataspace reaches over
the end of the range, and the dataspaces that reach over an end of it have the
rights that are asked for. -/
def Decommittable (client : Client) (right : Prop) (rights : UInt32) (pb cb : Nat) : Prop :=
  (right ∨ ∀ region ∈ client.map.attached, ¬ Crosses (pb + cb) region) ∧
    ∀ region ∈ client.map.attached,
      Crosses pb region ∨ Crosses (pb + cb) region → region.rights = rights

theorem OnlyDataspaces.of_crosses (only : client.OnlyDataspaces area)
    (nonempty : 0 < cb) (lower : area.addr ≤ pb)
    (upper : pb + cb ≤ area.stop) (member : region ∈ client.map.attached)
    (crosses : Crosses pb region ∨ Crosses (pb + cb) region) :
    ∃ ds, region.ds = some ds := by
  rcases crosses with ⟨first, last⟩ | ⟨first, last⟩
  · exact (only.of_has member ⟨Nat.le_of_lt first, last⟩ lower (by omega)).2
  · have has : region.Has (pb + cb - 1) := ⟨by omega, by omega⟩
    exact (only.of_has member has (by omega) (by omega)).2

theorem Hollows.decommitsExactly_iff (backed : client.Backed)
    (only : client.OnlyDataspaces area) (nonempty : 0 < cb)
    (lower : area.addr ≤ pb) (upper : pb + cb ≤ area.stop)
    (hollows : Hollows pb (pb + cb) rights client client') :
    DecommitsExactly pb cb client client' ↔ ∀ region ∈ client.map.attached,
        Crosses pb region ∨ Crosses (pb + cb) region →
          region.rights = rights := by
  constructor
  · intro decommits region member crosses
    obtain ⟨ds, isDs⟩ := only.of_crosses nonempty lower upper member crosses
    obtain ⟨dataspace, live⟩ := backed.live region member ds isDs
    -- an address of the region outside the range
    have rim : ∃ addr, region.Has addr ∧ ¬ (pb ≤ addr ∧ addr < pb + cb) := by
      rcases crosses with ⟨first, last⟩ | ⟨first, last⟩
      · exact ⟨region.start, ⟨Nat.le_refl _, by omega⟩, by omega⟩
      · exact ⟨pb + cb, ⟨Nat.le_of_lt first, last⟩, by omega⟩
    obtain ⟨addr, has, outside⟩ := rim
    have page := pageAt_of_has member has isDs live
    have changed := hollows.rim addr outside region member has crosses
    rw [decommits.outside addr outside, page] at changed
    exact congrArg Prod.snd (Option.some.inj changed)
  · intro sameRights
    refine ⟨fun addr inRange => hollows.hole addr inRange.1 inRange.2, ?_⟩
    intro addr outside
    by_cases crossed : ∃ region ∈ client.map.attached, region.Has addr ∧
        (Crosses pb region ∨ Crosses (pb + cb) region)
    · obtain ⟨region, member, has, crosses⟩ := crossed
      obtain ⟨ds, isDs⟩ := only.of_crosses nonempty lower upper member crosses
      obtain ⟨dataspace, live⟩ := backed.live region member ds isDs
      rw [hollows.rim addr outside region member has crosses,
        pageAt_of_has member has isDs live, sameRights region member crosses]
      rfl
    · apply hollows.outside addr outside
      intro region member has
      constructor
      · intro crosses
        exact crossed ⟨region, member, has, Or.inl crosses⟩
      · intro crosses
        exact crossed ⟨region, member, has, Or.inr crosses⟩

theorem decommitRange_settles (found : VmData) (shared : Bool)
    (rights : UInt32) (backed : client.Backed) (good : client.GoodArea area)
    (range : PageRange area pb cb)
    (known : client.Home found.area area ∨ (client.Foreign found.area area ∧
        ∀ region ∈ client.map.attached, ¬ Crosses pb region)) :
    ∃ rc client', Settles (fun fuel => rangeLoop
        (decommitPass found shared rights) fuel pb cb client)
        (.ok (rc, client')) ∧
      (DecommitsExactly pb cb client client' ↔
        client.Decommittable (client.Home found.area area) rights pb cb) := by
  obtain ⟨nonempty, lower, upper, -, -⟩ := range
  have small := good.small
  have only : client.OnlyDataspaces area := good.regions
  by_cases smooth : client.Home found.area area ∨
      ∀ region ∈ client.map.attached, ¬ Crosses (pb + cb) region
  · have smooth' : client.Home found.area area ∨ ∀ region ∈ client.map.attached,
          ¬ Crosses pb region ∧ ¬ Crosses (pb + cb) region := by
      rcases known with home | ⟨foreign, first⟩
      · exact Or.inl home
      · apply smooth.imp_right
        intro last region member
        exact ⟨first region member, last region member⟩
    obtain ⟨client', settles, hollows⟩ := decommitLoop_hollows backed only
      nonempty lower upper small smooth'
    refine ⟨0, client', settles, ?_⟩
    rw [hollows.decommitsExactly_iff backed only nonempty lower upper]
    exact (and_iff_right smooth).symm
  · obtain ⟨notHome, crossed⟩ := not_or.mp smooth
    obtain ⟨foreign, first⟩ := known.resolve_left notHome
    simp only [not_forall, not_not] at crossed
    obtain ⟨region, member, crosses⟩ := crossed
    obtain ⟨rc, client', settles, lost⟩ := decommitLoop_loses backed only
      nonempty lower upper small foreign first member crosses
    refine ⟨rc, client', settles, iff_of_false ?_ fun decommittable => smooth decommittable.1⟩
    intro decommits
    obtain ⟨ds, isDs⟩ := only.of_crosses nonempty lower upper member (Or.inr crosses)
    have kept := decommits.outside (pb + cb) fun inRange =>
      Nat.lt_irrefl _ inRange.2
    have committed := backed.pageAt_isSome.mpr ⟨region, member,
      ⟨Nat.le_of_lt crosses.1, crosses.2⟩, Option.isSome_of_mem isDs⟩
    rw [← kept, lost] at committed
    cases committed

theorem decommitsExactly_congr {before : Client}
    (same : ∀ addr, before.pageAt addr = client.pageAt addr) :
    DecommitsExactly pb cb client client' ↔
      DecommitsExactly pb cb before client' := by
  constructor
  · intro decommits
    refine ⟨decommits.uncommitted, fun addr outside => ?_⟩
    rw [same]
    exact decommits.outside addr outside
  · intro decommits
    refine ⟨decommits.uncommitted, fun addr outside => ?_⟩
    rw [← same]
    exact decommits.outside addr outside

end Client

end OsFree.Kal
