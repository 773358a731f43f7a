import OsFree.Machine.Run

/-!
# The regions of an address space

A region mapper attaches regions to ranges of addresses, and keeps ranges
reserved for areas.  No two attached regions overlap.  Looking up an address
gives the region that contains it: an attached one, or a range between the
bounds of attached regions and reserved areas.
-/

namespace OsFree.Machine

/-- A region that is attached: a dataspace, or a region of another kind. -/
structure Region where
  start : Nat
  size : Nat
  ds : Option Nat
  rights : UInt32
  deriving DecidableEq

/-- A range of addresses that is reserved for an area. -/
structure Reservation where
  start : Nat
  size : Nat
  area : Nat
  deriving DecidableEq

namespace Region

/-- The address behind a region. -/
def stop (region : Region) : Nat := region.start + region.size

/-- The address is in the region. -/
def Has (region : Region) (addr : Nat) : Prop := region.start ≤ addr ∧ addr < region.stop

instance (region : Region) (addr : Nat) : Decidable (region.Has addr) :=
  inferInstanceAs (Decidable (_ ∧ _))

/-- One of two regions is behind the other. -/
def Apart (region other : Region) : Prop := region.stop ≤ other.start ∨ other.stop ≤ region.start

instance (region other : Region) : Decidable (region.Apart other) :=
  inferInstanceAs (Decidable (_ ∨ _))

end Region

namespace Reservation

/-- The address behind a reserved range. -/
def stop (reservation : Reservation) : Nat := reservation.start + reservation.size

/-- The address is in the reserved range. -/
def Has (reservation : Reservation) (addr : Nat) : Prop :=
  reservation.start ≤ addr ∧ addr < reservation.stop

instance (reservation : Reservation) (addr : Nat) :
    Decidable (reservation.Has addr) :=
  inferInstanceAs (Decidable (_ ∧ _))

end Reservation

/-- The regions of an address space. -/
structure RegionMap where
  attached : List Region
  reserved : List Reservation
  /-- A region has addresses. -/
  positive : ∀ region ∈ attached, 0 < region.size
  /-- A region ends in the address space. -/
  within : ∀ region ∈ attached, region.stop ≤ 2 ^ 32
  /-- No two regions overlap. -/
  apart : ∀ region ∈ attached, ∀ other ∈ attached, region = other ∨ region.Apart other

/-- What an address is looked up as. -/
inductive Lookup where
  | attached (region : Region)
  | reserved (start stop : Nat)
  | free (start stop : Nat)
  deriving DecidableEq

namespace Lookup

/-- The first address of the region that has been looked up. -/
def start : Lookup → Nat
  | .attached region => region.start
  | .reserved start _ => start
  | .free start _ => start

/-- The address behind the region that has been looked up. -/
def stop : Lookup → Nat
  | .attached region => region.stop
  | .reserved _ stop => stop
  | .free _ stop => stop

end Lookup

namespace RegionMap

variable (map : RegionMap)

/-- The attached region that contains an address. -/
def regionAt (addr : Nat) : Option Region := map.attached.find? fun region => region.Has addr

/-- The addresses where attached regions and reserved ranges start and end. -/
def bounds : List Nat := map.attached.flatMap (fun region => [region.start, region.stop]) ++
    map.reserved.flatMap fun reservation =>
      [reservation.start, reservation.stop]

/-- The last bound that is not above an address. -/
def below (addr : Nat) : Nat := (map.bounds.filter fun bound => bound ≤ addr).foldr max 0

/-- The first bound above an address.  Addresses have 32 bits. -/
def above (addr : Nat) : Nat := (map.bounds.filter fun bound => addr < bound).foldr min (2 ^ 32)

/-- The region that contains an address. -/
def lookup (addr : Nat) : Lookup :=
  match map.regionAt addr with
  | some region => .attached region
  | none =>
    if map.reserved.any fun reservation => reservation.Has addr then
      .reserved (map.below addr) (map.above addr)
    else .free (map.below addr) (map.above addr)

/-- Detach the region that contains an address. -/
def detach (addr : Nat) : RegionMap where
  attached := map.attached.filter fun region => ¬ region.Has addr
  reserved := map.reserved
  positive := fun region member =>
    map.positive region (List.mem_filter.mp member).1
  within := fun region member =>
    map.within region (List.mem_filter.mp member).1
  apart := fun region member other member' =>
    map.apart region (List.mem_filter.mp member).1 other (List.mem_filter.mp member').1

/-- The region has addresses, they are reserved for the area, and nothing is
attached there. -/
def Fits (area : Nat) (region : Region) : Prop := 0 < region.size ∧ region.stop ≤ 2 ^ 32 ∧
    (∃ reservation ∈ map.reserved, reservation.area = area ∧
      reservation.start ≤ region.start ∧ region.stop ≤ reservation.stop) ∧
    ∀ other ∈ map.attached, region.Apart other

instance (area : Nat) (region : Region) : Decidable (map.Fits area region) :=
  inferInstanceAs (Decidable (_ ∧ _ ∧ _ ∧ _))

/-- The map with another region that fits. -/
def withRegion (area : Nat) (region : Region) (fits : map.Fits area region) : RegionMap where
  attached := region :: map.attached
  reserved := map.reserved
  positive := by
    intro other member
    rcases List.mem_cons.mp member with rfl | member
    · exact fits.1
    · exact map.positive other member
  within := by
    intro other member
    rcases List.mem_cons.mp member with rfl | member
    · exact fits.2.1
    · exact map.within other member
  apart := by
    intro first member second member'
    rcases List.mem_cons.mp member with new | old
    · rcases List.mem_cons.mp member' with new' | old'
      · exact Or.inl (new.trans new'.symm)
      · exact Or.inr (new ▸ fits.2.2.2 second old')
    · rcases List.mem_cons.mp member' with new' | old'
      · exact Or.inr (new' ▸ (fits.2.2.2 first old).symm)
      · exact map.apart first old second old'

/-- Attach a region inside an area, where it fits. -/
def attach (area : Nat) (region : Region) : Option RegionMap :=
  if fits : map.Fits area region then some (map.withRegion area region fits)
  else none

/-- Release the reserved ranges that contain an address, if there are any. -/
def release (addr : Nat) : Option RegionMap :=
  if map.reserved.any fun reservation => reservation.Has addr then
    some { map with
      reserved := map.reserved.filter fun reservation => ¬ reservation.Has addr }
  else none

variable {map}

variable {addr : Nat} {region : Region}

theorem regionAt_eq_none_iff :
    map.regionAt addr = none ↔ ∀ region ∈ map.attached, ¬ region.Has addr := by
  unfold regionAt
  simp

theorem eq_of_has {other : Region} (member : region ∈ map.attached) (member' : other ∈ map.attached)
    (has : region.Has addr) (has' : other.Has addr) : region = other := by
  rcases map.apart region member other member' with equal | apart
  · exact equal
  · obtain ⟨lower, upper⟩ := has
    obtain ⟨lower', upper'⟩ := has'
    rcases apart with before | behind
    · omega
    · omega

theorem has_of_found (found : map.regionAt addr = some region) :
    region ∈ map.attached ∧ region.Has addr := by
  have passes := List.find?_some found
  exact ⟨List.mem_of_find?_eq_some found, of_decide_eq_true passes⟩

theorem regionAt_eq_some_iff : map.regionAt addr = some region ↔
      region ∈ map.attached ∧ region.Has addr := by
  constructor
  · exact has_of_found
  · rintro ⟨member, has⟩
    cases found : map.regionAt addr with
    | none => exact absurd has (regionAt_eq_none_iff.mp found region member)
    | some other =>
      obtain ⟨member', has'⟩ := has_of_found found
      rw [eq_of_has member' member has' has]

theorem lookup_of_region (found : map.regionAt addr = some region) :
    map.lookup addr = .attached region := by
  unfold lookup
  rw [found]

theorem lookup_of_none (found : map.regionAt addr = none) :
    map.lookup addr = .reserved (map.below addr) (map.above addr) ∨
      map.lookup addr = .free (map.below addr) (map.above addr) := by
  unfold lookup
  simp only [found]
  split
  · exact Or.inl rfl
  · exact Or.inr rfl

theorem lookup_of_reserved {reservation : Reservation} (found : map.regionAt addr = none)
    (member : reservation ∈ map.reserved) (has : reservation.Has addr) :
    map.lookup addr = .reserved (map.below addr) (map.above addr) := by
  unfold lookup
  rw [found]
  exact if_pos (List.any_eq_true.mpr ⟨reservation, member, decide_eq_true has⟩)

section

variable {addr bound : Nat}

variable {bounds : List Nat}

theorem foldr_max_le (small : ∀ b ∈ bounds, b ≤ addr) :
    bounds.foldr max 0 ≤ addr := by
  induction bounds with
  | nil => exact Nat.zero_le addr
  | cons first rest ih =>
    have restSmall := ih fun b member =>
      small b (List.mem_cons_of_mem first member)
    exact Nat.max_le.mpr ⟨small first (List.mem_cons_self ..), restSmall⟩

theorem le_foldr_max (member : bound ∈ bounds) :
    bound ≤ bounds.foldr max 0 := by
  induction bounds with
  | nil => cases member
  | cons first rest ih =>
    rcases List.mem_cons.mp member with rfl | member
    · exact Nat.le_max_left ..
    · exact Nat.le_trans (ih member) (Nat.le_max_right ..)

theorem lt_foldr_min {last : Nat} (large : addr < last)
    (above : ∀ b ∈ bounds, addr < b) : addr < bounds.foldr min last := by
  induction bounds with
  | nil => exact large
  | cons first rest ih =>
    have restAbove := ih fun b member =>
      above b (List.mem_cons_of_mem first member)
    exact Nat.lt_min.mpr ⟨above first (List.mem_cons_self ..), restAbove⟩

theorem foldr_min_le {last : Nat} (member : bound ∈ bounds) : bounds.foldr min last ≤ bound := by
  induction bounds with
  | nil => cases member
  | cons first rest ih =>
    rcases List.mem_cons.mp member with rfl | member
    · exact Nat.min_le_left ..
    · exact Nat.le_trans (Nat.min_le_right ..) (ih member)

theorem foldr_min_le_last (bounds : List Nat) (last : Nat) :
    bounds.foldr min last ≤ last := by
  induction bounds with
  | nil => exact Nat.le_refl last
  | cons first rest ih =>
    exact Nat.le_trans (Nat.min_le_right ..) ih

theorem below_le (map : RegionMap) (addr : Nat) : map.below addr ≤ addr := by
  apply foldr_max_le
  intro b member
  exact of_decide_eq_true (List.mem_filter.mp member).2

theorem lt_above (map : RegionMap) (inside : addr < 2 ^ 32) :
    addr < map.above addr := by
  apply lt_foldr_min inside
  intro b member
  exact of_decide_eq_true (List.mem_filter.mp member).2

theorem above_le (map : RegionMap) (addr : Nat) : map.above addr ≤ 2 ^ 32 := foldr_min_le_last ..

theorem bound_outside (addr : Nat) (member : bound ∈ map.bounds) :
    bound ≤ map.below addr ∨ map.above addr ≤ bound := by
  by_cases small : bound ≤ addr
  · left
    exact le_foldr_max (List.mem_filter.mpr ⟨member, decide_eq_true small⟩)
  · right
    exact foldr_min_le (List.mem_filter.mpr ⟨member, decide_eq_true (Nat.lt_of_not_le small)⟩)

theorem region_bounds {region : Region} (member : region ∈ map.attached) :
    region.start ∈ map.bounds ∧ region.stop ∈ map.bounds := by
  unfold bounds
  simp only [List.mem_append, List.mem_flatMap]
  exact ⟨Or.inl ⟨region, member, by simp⟩, Or.inl ⟨region, member, by simp⟩⟩

theorem reservation_bounds {reservation : Reservation} (member : reservation ∈ map.reserved) :
    reservation.start ∈ map.bounds ∧ reservation.stop ∈ map.bounds := by
  unfold bounds
  simp only [List.mem_append, List.mem_flatMap]
  exact ⟨Or.inr ⟨reservation, member, by simp⟩, Or.inr ⟨reservation, member, by simp⟩⟩

end

theorem lt_lookup_stop (map : RegionMap)
    (small : addr < 2 ^ 32) : addr < (map.lookup addr).stop := by
  cases found : map.regionAt addr with
  | none =>
    have behind := map.lt_above small
    rcases lookup_of_none found with reserved | free
    · rw [reserved]
      exact behind
    · rw [free]
      exact behind
  | some region =>
    rw [lookup_of_region found]
    exact (regionAt_eq_some_iff.mp found).2.2

theorem apart_of_gap (found : map.regionAt addr = none) (member : region ∈ map.attached) :
    region.stop ≤ addr ∨ (map.lookup addr).stop ≤ region.start := by
  have stop : (map.lookup addr).stop = map.above addr := by
    rcases lookup_of_none found with reserved | free
    · rw [reserved]
      rfl
    · rw [free]
      rfl
  have before := map.below_le addr
  have missing := regionAt_eq_none_iff.mp found region member
  rw [stop]
  rcases bound_outside addr (region_bounds member).1 with small | large
  · left
    apply Nat.le_of_not_lt
    intro inside
    exact missing ⟨Nat.le_trans small before, inside⟩
  · exact Or.inr large

theorem mem_detach_iff : region ∈ (map.detach addr).attached ↔
      region ∈ map.attached ∧ ¬ region.Has addr := by
  unfold detach
  simp

theorem regionAt_detach {start : Nat}
    (member : region ∈ map.attached) (has : region.Has start) (addr : Nat) :
    (map.detach start).regionAt addr =
      if region.Has addr then none else map.regionAt addr := by
  split
  · apply regionAt_eq_none_iff.mpr
    intro other member' has'
    obtain ⟨inMap, outside⟩ := mem_detach_iff.mp member'
    have same : other = region := eq_of_has inMap member has' ‹_›
    exact outside (same ▸ has)
  · apply Option.ext
    intro other
    rw [regionAt_eq_some_iff, regionAt_eq_some_iff, mem_detach_iff]
    constructor
    · rintro ⟨⟨inMap, -⟩, has'⟩
      exact ⟨inMap, has'⟩
    · rintro ⟨inMap, has'⟩
      refine ⟨⟨inMap, fun atStart => ?_⟩, has'⟩
      have same : other = region := eq_of_has inMap member atStart has
      exact absurd (same ▸ has') ‹_›

theorem regionAt_cons {map' : RegionMap}
    (attached : map'.attached = region :: map.attached) (addr : Nat) :
    map'.regionAt addr =
      if region.Has addr then some region else map.regionAt addr := by
  unfold regionAt
  rw [attached, List.find?_cons]
  by_cases has : region.Has addr
  · simp [has]
  · simp [has]

theorem attach_of_fits {area : Nat} (fits : map.Fits area region) :
    map.attach area region = some (map.withRegion area region fits) :=
  dif_pos fits

theorem attach_of_not_fits {area : Nat}
    (blocked : ¬ map.Fits area region) : map.attach area region = none :=
  dif_neg blocked

end RegionMap

end OsFree.Machine
