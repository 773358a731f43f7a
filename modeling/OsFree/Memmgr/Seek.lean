import OsFree.Memmgr.Areas

/-!
# The search for a free place

The search makes one pass over the list with a candidate, which moves when it
meets an area.  A move adds the end of the area to the candidate, and the areas
that are left behind in the list are not looked at again.
-/

namespace OsFree.Memmgr

open Machine

/-- Round up to a page. -/
def roundUpTo4KiB (i : UInt32) : UInt32 :=
  let align := i % 4096
  if align ≠ 0 then i + (4096 - align) else i

/-- What an area of the list does to the candidate: each of two tests adds the
computed end of the area. -/
def moveStart (size startPos : UInt32) (el : MemArea) : UInt32 :=
  let iStart := startPos
  let startPos :=
    if (el.start ≤ iStart ∧ iStart ≤ el.stop) ∨ (el.start ≤ size + iStart ∧ size + iStart ≤ el.stop)
    then startPos + el.stop else startPos
  if iStart ≤ el.start ∧ el.stop ≤ size + iStart
  then startPos + el.stop else startPos

/-- The walk of `seekFreeMem` from a node; the last node of the list is visited
once more. -/
def seekFrom (size : UInt32) : UInt32 → MemArea → List MemArea → UInt32
  | startPos, el, [] => moveStart size startPos el
  | startPos, _, el :: behind =>
    seekFrom size (moveStart size startPos el) el behind

/-- Search a free place for a size. -/
def MemAreas.seekFreeMem (areas : MemAreas) (size : UInt32) : UInt32 := roundUpTo4KiB
    (seekFrom (roundUpTo4KiB size) 0 areas.root areas.areas)

/-- The list with these areas. -/
def registered (areas : List MemArea) : MemAreas := { initMemmgr with areas }

/-- The place is the start of a page, and the region there meets no area: it
shares no address with one, and is not in use. -/
structure FindsFree (areas : List MemArea) (size : UInt32) : Prop where
  aligned : 4096 ∣ ((registered areas).seekFreeMem size).toNat
  apart : ∀ el ∈ areas, Disjoint el.addresses
    (arc ((registered areas).seekFreeMem size) (roundUpTo4KiB size))
  unused : (registered areas).isMemUsed
    ((registered areas).seekFreeMem size) (roundUpTo4KiB size) = false

/-! ## Where the candidate goes

Addresses and sizes are numbers here, and a sum has no last address.
-/

/-- The next page from an address on. -/
def pageUp (address : ℕ) : ℕ := (address + 4095) / 4096 * 4096

namespace MemArea

/-- The end of an area. -/
def limit (area : MemArea) : ℕ := area.start.toNat + area.size.toNat

/-- The area and a region have an address in common, ends included. -/
def Touches (area : MemArea) (place length : ℕ) : Prop :=
  area.start.toNat ≤ place + length ∧ place ≤ area.limit

/-- The area starts behind a region. -/
def Ahead (area : MemArea) (place length : ℕ) : Prop := place + length < area.start.toNat

/-- How far the area moves the candidate. -/
def move (area : MemArea) (place length : ℕ) : ℕ :=
  (if (area.start.toNat ≤ place ∧ place ≤ area.limit) ∨
      (area.start.toNat ≤ place + length ∧ place + length ≤ area.limit)
    then area.limit else 0) +
  if place ≤ area.start.toNat ∧ area.limit ≤ place + length
    then area.limit else 0

end MemArea

/-- The candidate behind some areas. -/
def candidate (length place : ℕ) (areas : List MemArea) : ℕ :=
  areas.foldl (fun place el => place + el.move place length) place

/-- The areas in the order of their visits. -/
def visits (areas : List MemArea) : List MemArea := areas ++ areas.getLast?.toList

/-- No sum reaches 2^32: neither the end of an area nor the end of the region at
the page to which the pass moves the candidate. -/
structure SumsInside (areas : List MemArea) (size : UInt32) : Prop where
  limits : ∀ el ∈ areas, el.limit < 2 ^ 32
  region : pageUp (candidate (pageUp size.toNat) 0 (visits areas)) + pageUp size.toNat < 2 ^ 32

/-- The pass ends clear of the areas that it left ahead of its candidate. -/
structure LandsClear (areas : List MemArea) (size : UInt32) : Prop where
  /-- There is an area: the root node of an empty list meets the place 0. -/
  some : areas ≠ []
  /-- The moves do not sum up to the end of an area at a page, which counts as
  in use. -/
  notAtLimit : ∀ el ∈ areas, 4096 ∣ el.limit →
    candidate (pageUp size.toNat) 0 (visits areas) ≠ el.limit
  /-- The moves behind an area that was ahead do not bring the candidate back
  to it. -/
  ahead : ∀ before el behind, areas = before ++ el :: behind →
    el.Ahead (candidate (pageUp size.toNat) 0 before) (pageUp size.toNat) →
    ¬ el.Touches (pageUp (candidate (pageUp size.toNat) 0 (visits areas))) (pageUp size.toNat)

theorem le_pageUp (address : ℕ) : address ≤ pageUp address := by
  unfold pageUp
  omega

theorem dvd_pageUp (address : ℕ) : 4096 ∣ pageUp address := Nat.dvd_mul_left ..

theorem pageUp_of_dvd {address : ℕ} (aligned : 4096 ∣ address) :
    pageUp address = address := by
  unfold pageUp
  omega

theorem toNat_roundUp {i : UInt32} (inside : pageUp i.toNat < 2 ^ 32) :
    (roundUpTo4KiB i).toNat = pageUp i.toNat := by
  unfold pageUp at inside ⊢
  simp only [roundUpTo4KiB, ne_eq, ← UInt32.toNat_inj, UInt32.toNat_mod,
    UInt32.toNat_zero, UInt32.reduceToNat]
  split
  · rw [UInt32.toNat_add, UInt32.toNat_sub, UInt32.toNat_mod]
    simp only [UInt32.reduceToNat]
    omega
  · omega

theorem dvd_roundUp (i : UInt32) : 4096 ∣ (roundUpTo4KiB i).toNat := by
  simp only [roundUpTo4KiB, ne_eq, ← UInt32.toNat_inj, UInt32.toNat_mod,
    UInt32.toNat_zero, UInt32.reduceToNat]
  split
  · rw [UInt32.toNat_add, UInt32.toNat_sub, UInt32.toNat_mod]
    simp only [UInt32.reduceToNat]
    omega
  · omega

namespace MemArea

variable {el : MemArea} {size place : UInt32}

theorem toNat_stop_of_inside (inside : el.limit < 2 ^ 32) :
    el.stop.toNat = el.limit := by
  rw [el.toNat_stop]
  exact Nat.mod_eq_of_lt inside

theorem toNat_region (inside : place.toNat + size.toNat < 2 ^ 32) :
    (size + place).toNat = place.toNat + size.toNat := by
  rw [UInt32.toNat_add, Nat.add_comm, Nat.mod_eq_of_lt inside]

theorem meets_iff (limit : el.limit < 2 ^ 32) (inside : place.toNat + size.toNat < 2 ^ 32) :
    el.meets ⟨place, size⟩ = true ↔ el.Touches place.toNat size.toNat := by
  have requested : (MemArea.stop ⟨place, size⟩).toNat =
      place.toNat + size.toNat := toNat_region inside
  simp only [meets, Touches, Bool.or_eq_true, decide_eq_true_iff,
    UInt32.le_iff_toNat_le, toNat_stop_of_inside limit, requested]
  unfold MemArea.limit
  omega

theorem disjoint_of_not_touches (limit : el.limit < 2 ^ 32)
    (inside : place.toNat + size.toNat < 2 ^ 32)
    (clear : ¬ el.Touches place.toNat size.toNat) :
    Disjoint el.addresses (arc place size) := by
  apply Set.disjoint_left.mpr
  intro addr mem mem'
  simp only [Touches, addresses, mem_arc_iff, UInt32.lt_iff_toNat_lt,
    UInt32.toNat_sub, MemArea.limit] at *
  omega

theorem toNat_moveStart (limit : el.limit < 2 ^ 32)
    (inside : place.toNat + el.move place.toNat size.toNat + size.toNat < 2 ^ 32) :
    (moveStart size place el).toNat =
      place.toNat + el.move place.toNat size.toNat := by
  have stop := toNat_stop_of_inside limit
  have region : (size + place).toNat = place.toNat + size.toNat := toNat_region (by omega)
  simp only [moveStart, UInt32.le_iff_toNat_le, stop, region]
  unfold move at inside ⊢
  split_ifs at inside ⊢ <;>
    simp only [UInt32.toNat_add, stop, Nat.add_zero] <;> omega

end MemArea

section

variable {areas before behind : List MemArea} {el : MemArea}
variable {length place : ℕ}

theorem candidate_append (length place : ℕ) (areas behind : List MemArea) :
    candidate length place (areas ++ behind) =
      candidate length (candidate length place areas) behind :=
  List.foldl_append ..

theorem le_candidate (length place : ℕ) (areas : List MemArea) :
    place ≤ candidate length place areas := by
  induction areas generalizing place with
  | nil => exact le_rfl
  | cons el areas ih =>
    calc
      place ≤ place + el.move place length := Nat.le_add_right ..
      _ ≤ candidate length (place + el.move place length) areas := ih _

theorem limit_le_move (touches : el.Touches place length) :
    el.limit ≤ place + el.move place length := by
  unfold MemArea.Touches at touches
  unfold MemArea.move
  by_cases reaches : (el.start.toNat ≤ place ∧ place ≤ el.limit) ∨
      (el.start.toNat ≤ place + length ∧ place + length ≤ el.limit)
  · rw [if_pos reaches]
    omega
  · rw [if_neg reaches, if_pos (by omega)]
    omega

theorem limit_le_candidate (mem : areas = before ++ el :: behind)
    (reached : ¬ el.Ahead (candidate length 0 before) length)
    (again : List MemArea) :
    el.limit ≤ candidate length 0 (areas ++ again) := by
  have later : candidate length 0 before + el.move (candidate length 0 before) length ≤
        candidate length 0 (areas ++ again) := by
    rw [mem, List.append_assoc, candidate_append]
    exact le_candidate length _ (behind ++ again)
  apply le_trans _ later
  by_cases touches : el.Touches (candidate length 0 before) length
  · exact limit_le_move touches
  · unfold MemArea.Ahead at reached
    unfold MemArea.Touches at touches
    omega

theorem seekFrom_eq (size startPos : UInt32) (el : MemArea) (behind : List MemArea) :
    seekFrom size startPos el behind =
      (behind ++ [(el :: behind).getLast (List.cons_ne_nil _ _)]).foldl
        (moveStart size) startPos := by
  induction behind generalizing startPos el with
  | nil => rfl
  | cons next behind ih =>
    rw [seekFrom, ih, List.getLast_cons (List.cons_ne_nil _ _)]
    rfl

theorem seekFrom_visits (some : areas ≠ []) (size startPos : UInt32) (root : MemArea) :
    seekFrom size startPos root areas =
      (visits areas).foldl (moveStart size) startPos := by
  rw [seekFrom_eq, visits, List.getLast?_eq_some_getLast some, List.getLast_cons some]
  rfl

theorem toNat_foldl_moveStart {size startPos : UInt32} (limits : ∀ el ∈ areas, el.limit < 2 ^ 32)
    (inside : candidate size.toNat startPos.toNat areas + size.toNat < 2 ^ 32) :
    (areas.foldl (moveStart size) startPos).toNat =
      candidate size.toNat startPos.toNat areas := by
  induction areas generalizing startPos with
  | nil => rfl
  | cons el areas ih =>
    have later := le_candidate size.toNat (startPos.toNat + el.move startPos.toNat size.toNat) areas
    have step : (moveStart size startPos el).toNat =
        startPos.toNat + el.move startPos.toNat size.toNat :=
      MemArea.toNat_moveStart (limits el List.mem_cons_self)
        (Nat.lt_of_le_of_lt (Nat.add_le_add_right later _) inside)
    have rest := @ih (moveStart size startPos el)
      (fun el mem => limits el (List.mem_cons_of_mem _ mem))
    rw [step] at rest
    exact rest inside

theorem mem_of_mem_visits (mem : el ∈ visits areas) : el ∈ areas := by
  rcases List.mem_append.mp mem with mem | last
  · exact mem
  · exact List.mem_of_getLast? (Option.mem_toList.mp last)

theorem not_findsFree_nil (size : UInt32) : ¬ FindsFree [] size := by
  intro finds
  have still (size : UInt32) : moveStart size 0 ⟨0, 0⟩ = 0 := by
    have stop : MemArea.stop ⟨0, 0⟩ = 0 := rfl
    simp [moveStart, stop]
  have place : (registered []).seekFreeMem size =
      roundUpTo4KiB (moveStart (roundUpTo4KiB size) 0 ⟨0, 0⟩) := rfl
  have met (size : UInt32) : MemArea.meets ⟨0, 0⟩ ⟨0, size⟩ = true := by
    simp [MemArea.meets, MemArea.stop]
  have unused := finds.unused
  rw [MemAreas.isMemUsed, show (registered []).root = ⟨0, 0⟩ from rfl] at unused
  exact Bool.eq_false_iff.mp unused (met _)

theorem toNat_seekFreeMem {size : UInt32} (some : areas ≠ []) (inside : SumsInside areas size) :
    ((registered areas).seekFreeMem size).toNat =
      pageUp (candidate (pageUp size.toNat) 0 (visits areas)) := by
  have region := inside.region
  have length : (roundUpTo4KiB size).toNat = pageUp size.toNat := toNat_roundUp (by omega)
  have low := le_pageUp (candidate (pageUp size.toNat) 0 (visits areas))
  have walked : (seekFrom (roundUpTo4KiB size) 0 (registered areas).root
      areas).toNat = candidate (pageUp size.toNat) 0 (visits areas) := by
    rw [seekFrom_visits some, toNat_foldl_moveStart, length]
    · rfl
    · exact fun el mem => inside.limits el (mem_of_mem_visits mem)
    · rw [length]
      exact Nat.lt_of_le_of_lt (Nat.add_le_add_right low _) region
  have place : (registered areas).seekFreeMem size = roundUpTo4KiB
      (seekFrom (roundUpTo4KiB size) 0 (registered areas).root areas) := rfl
  rw [place, toNat_roundUp, walked]
  rw [walked]
  omega

theorem findsFree_iff_not_touches {size : UInt32} (some : areas ≠ [])
    (inside : SumsInside areas size) :
    FindsFree areas size ↔ ∀ el ∈ areas, ¬ el.Touches
      (pageUp (candidate (pageUp size.toNat) 0 (visits areas)))
        (pageUp size.toNat) := by
  have place := toNat_seekFreeMem some inside
  have region := inside.region
  have length : (roundUpTo4KiB size).toNat = pageUp size.toNat := toNat_roundUp (by omega)
  rw [← place, ← length] at region ⊢
  have compared : (registered areas).compared = areas := if_neg some
  have meets : ∀ el ∈ areas,
      (el.meets ⟨_, _⟩ = true ↔ el.Touches _ _) := fun el mem =>
    MemArea.meets_iff (inside.limits el mem) region
  have used := usedFrom_eq_true_iff ⟨(registered areas).seekFreeMem size, roundUpTo4KiB size⟩
    (registered areas).root areas
  constructor
  · intro finds el mem touches
    have unused : ¬ _ := Bool.eq_false_iff.mp finds.unused
    apply unused
    apply used.mpr
    exact ⟨el, compared.symm ▸ mem, (meets el mem).mpr touches⟩
  · intro clear
    refine ⟨dvd_roundUp _, fun el mem => ?_, ?_⟩
    · exact MemArea.disjoint_of_not_touches (inside.limits el mem) region (clear el mem)
    · apply Bool.eq_false_iff.mpr
      intro isUsed
      obtain ⟨el, mem, met⟩ := used.mp isUsed
      have mem : el ∈ areas := compared ▸ mem
      exact clear el mem ((meets el mem).mp met)

/-- A sum that loses its carry may come to a free place by chance. -/
example : (registered [⟨0, 0x3000⟩, ⟨0x9000, 0xFFFF6000⟩]).seekFreeMem 0x3000 =
    0x5000 := by decide

end

end OsFree.Memmgr
