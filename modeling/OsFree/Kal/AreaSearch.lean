import OsFree.Kal.VmData

/-!
# The area of an address

The search for an address takes the first area that the address is in or is the
first one behind.  Both the server and the clients search their lists so.
-/

namespace OsFree.Kal

open Machine

/-- The address lies in the area. -/
def VmData.Holds (area : VmData) (addr : Nat) : Prop := area.addr ≤ addr ∧ addr < area.stop

namespace Areas

variable (areas : Areas)

/-- The area at an address of the heap holds an address. -/
def HoldsAt (addr ptr : Nat) : Prop := ∃ area, areas.objects ptr = some area ∧ area.Holds addr

/-- The area at an address of the heap ends right in front of an address. -/
def EndsAt (addr ptr : Nat) : Prop := ∃ area, areas.objects ptr = some area ∧ area.stop = addr

/-- The address is not behind the end of the area at an address of the heap, as
its 32 bits give it. -/
def EndNotPassed (addr ptr : Nat) : Prop :=
  ∀ area, areas.objects ptr = some area → addr ≤ area.stop % 2 ^ 32

/-- No address lies in two areas of the list. -/
def Apart (addresses : List Nat) : Prop := ∀ ptr ∈ addresses, ∀ other ∈ addresses, ∀ addr,
    areas.HoldsAt addr ptr → areas.HoldsAt addr other → ptr = other

/-- The pointer leads to the area of the list that holds an address, or it is
null if there is none. -/
def IsHolder (addresses : List Nat) (addr : Nat) (found : Pointer) : Prop :=
  (∀ ptr, found = some ptr → ptr ∈ addresses ∧ areas.HoldsAt addr ptr) ∧
    (found = none → ∀ ptr ∈ addresses, ¬ areas.HoldsAt addr ptr)

/-- The search comes back with the area that holds the address. -/
def FindsHolder (areasList : Pointer) (addresses : List Nat) (addr : UInt32) :
    Prop :=
  ∃ found, Settles (areas.getArea areasList addr.toNat) (.ok found) ∧
    areas.IsHolder addresses addr.toNat found

/-- The condition under which the search finds the area that holds the address.
The end of this area does not wrap around, and no area in front of it in the
list ends at the address; if no area holds the address, none ends there. -/
def SearchFits (addresses : List Nat) (addr : UInt32) : Prop :=
  (∀ before ptr after, addresses = before ++ ptr :: after →
    areas.HoldsAt addr.toNat ptr → areas.EndNotPassed addr.toNat ptr ∧
      ∀ other ∈ before, ¬ areas.EndsAt addr.toNat other) ∧
  ((∀ ptr ∈ addresses, ¬ areas.HoldsAt addr.toNat ptr) →
    ∀ other ∈ addresses, ¬ areas.EndsAt addr.toNat other)

end Areas

section

variable {α : Type} {test : α → Bool} {Wanted : α → Prop} {elements : List α}

theorem find?_wanted_iff (distinct : elements.Nodup)
    (unique : ∀ element ∈ elements, ∀ other ∈ elements,
      Wanted element → Wanted other → element = other) :
    ((∀ element, elements.find? test = some element → element ∈ elements ∧ Wanted element) ∧
      (elements.find? test = none → ∀ element ∈ elements, ¬ Wanted element)) ↔
    (∀ before element after, elements = before ++ element :: after →
      Wanted element → test element ∧ ∀ other ∈ before, ¬ test other) ∧
    ((∀ element ∈ elements, ¬ Wanted element) →
      ∀ other ∈ elements, ¬ test other) := by
  constructor
  · rintro ⟨right, nothing⟩
    constructor
    · rintro before element after rfl wanted
      have member : element ∈ before ++ element :: after := by simp
      cases found : (before ++ element :: after).find? test with
      | none => exact absurd wanted (nothing found element member)
      | some other =>
        obtain ⟨inside, isWanted⟩ := right other found
        cases unique element member other inside wanted isWanted
        refine ⟨List.find?_some found, ?_⟩
        have first : before.find? test = none := by
          cases early : before.find? test with
          | none => rfl
          | some other =>
            rw [List.find?_append, early, Option.some_or] at found
            cases found
            exact absurd rfl ((List.nodup_append.mp distinct).2.2 _
              (List.mem_of_find?_eq_some early) _ (List.mem_cons_self ..))
        exact fun other => List.find?_eq_none.mp first other
    · intro unwanted
      cases found : elements.find? test with
      | none => exact List.find?_eq_none.mp found
      | some element =>
        obtain ⟨inside, wanted⟩ := right element found
        exact absurd wanted (unwanted element inside)
  · rintro ⟨passes, nothing⟩
    by_cases exists_wanted : ∃ element ∈ elements, Wanted element
    · obtain ⟨element, member, wanted⟩ := exists_wanted
      obtain ⟨before, after, rfl⟩ := List.append_of_mem member
      obtain ⟨passed, first⟩ := passes before element after rfl wanted
      have found : (before ++ element :: after).find? test = some element := by
        rw [List.find?_append, List.find?_eq_none.mpr first, Option.none_or,
          List.find?_cons_of_pos passed]
      rw [found]
      refine ⟨?_, by simp⟩
      rintro other same
      cases same
      exact ⟨member, wanted⟩
    · simp only [not_exists, not_and] at exists_wanted
      have none : elements.find? test = none := List.find?_eq_none.mpr (nothing exists_wanted)
      rw [none]
      exact ⟨by simp, fun _ => exists_wanted⟩

end

namespace Areas

variable {areas : Areas} {areasList : Pointer} {addresses : List Nat} {addr : UInt32} {ptr : Nat}

theorem containsAt_of_holdsAt (holds : areas.HoldsAt addr.toNat ptr) :
    areas.containsAt addr.toNat ptr ↔ areas.EndNotPassed addr.toNat ptr := by
  obtain ⟨area, live, lower, -⟩ := holds
  unfold containsAt EndNotPassed
  simp only [live, Option.any_some, VmData.contains, decide_eq_true_eq, lower,
    true_and, Option.some.injEq, forall_eq']

theorem containsAt_of_not_holdsAt (outside : ¬ areas.HoldsAt addr.toNat ptr) :
    areas.containsAt addr.toNat ptr ↔ areas.EndsAt addr.toNat ptr := by
  have bound := addr.toNat_lt
  unfold containsAt EndsAt
  cases live : areas.objects ptr with
  | none => simp
  | some area =>
    have apart : ¬ area.Holds addr.toNat := fun holds =>
      outside ⟨area, live, holds⟩
    unfold VmData.Holds VmData.stop at apart
    simp only [Option.any_some, VmData.contains, decide_eq_true_eq,
      Option.some.injEq, exists_eq_left']
    unfold VmData.stop
    omega

/-- In a list of areas that are apart the search finds the one that holds an
address exactly when the end of this area does not wrap around and no area in
front of it, or none at all if none holds the address, ends there. -/
theorem findsHolder_iff (linked : areas.WellLinked areasList addresses)
    (apart : areas.Apart addresses) (addr : UInt32) :
    areas.FindsHolder areasList addresses addr ↔
      areas.SearchFits addresses addr := by
  have distinct := nodup_of_linked linked
  have settles := getArea_settles linked addr.toNat
  have found : areas.FindsHolder areasList addresses addr ↔ areas.IsHolder addresses addr.toNat
        (addresses.find? (areas.containsAt addr.toNat)) := by
    constructor
    · rintro ⟨found, settled, holder⟩
      obtain ⟨enough, returns⟩ := settled.returns
      cases settles.returned enough _ (returns enough le_rfl)
      exact holder
    · intro holder
      exact ⟨_, settles, holder⟩
  rw [found, IsHolder, find?_wanted_iff distinct
    fun ptr member other member' => apart ptr member other member' addr.toNat]
  refine and_congr ?_ ?_
  · refine forall_congr' fun before => forall_congr' fun ptr =>
      forall_congr' fun after => forall_congr' fun split =>
        forall_congr' fun holds => ?_
    rw [containsAt_of_holdsAt holds]
    refine and_congr_right fun _ => forall_congr' fun other =>
      forall_congr' fun member => ?_
    rw [containsAt_of_not_holdsAt]
    intro holdsOther
    subst split
    exact (List.nodup_append.mp distinct).2.2 other member ptr (List.mem_cons_self ..)
      (apart other (List.mem_append_left _ member) ptr (by simp) addr.toNat holdsOther holds)
  · refine forall_congr' fun none => forall_congr' fun other =>
      forall_congr' fun member => ?_
    rw [containsAt_of_not_holdsAt (none other member)]

end Areas

/-- The record of an area of one page. -/
def pageArea (addr : Nat) (next prev : Pointer) : VmData :=
  { name := some [], isShared := some false, owner := none, refcnt := some 1
    rights := 3, area := 1, addr, size := 0x1000, next, prev }

/-- A list of two areas of one page each. -/
def twoPages (first second : Nat) : Areas :=
  (Heap.empty.malloc (pageArea first (some 1) none)).malloc (pageArea second none (some 0))

theorem wellLinked_twoPages (first second : Nat) :
    (twoPages first second).WellLinked (some 0) [0, 1] :=
  ⟨rfl, some 1, ⟨_, rfl, rfl, rfl⟩, rfl, none, ⟨_, rfl, rfl, rfl⟩, rfl⟩

theorem holdsAt_twoPages_zero {first second addr : Nat} : (twoPages first second).HoldsAt addr 0 ↔
      first ≤ addr ∧ addr < first + 0x1000 := by
  constructor
  · rintro ⟨area, live, holds⟩
    cases live
    exact holds
  · exact fun holds => ⟨_, rfl, holds⟩

theorem holdsAt_twoPages_one {first second addr : Nat} : (twoPages first second).HoldsAt addr 1 ↔
      second ≤ addr ∧ addr < second + 0x1000 := by
  constructor
  · rintro ⟨area, live, holds⟩
    cases live
    exact holds
  · exact fun holds => ⟨_, rfl, holds⟩

theorem apart_twoPages {first second : Nat}
    (apart : first + 0x1000 ≤ second ∨ second + 0x1000 ≤ first) :
    (twoPages first second).Apart [0, 1] := by
  intro ptr member other member' addr
  rcases List.mem_pair.mp member with rfl | rfl
  · rcases List.mem_pair.mp member' with rfl | rfl
    · exact fun _ _ => rfl
    · rw [holdsAt_twoPages_zero, holdsAt_twoPages_one]
      omega
  · rcases List.mem_pair.mp member' with rfl | rfl
    · rw [holdsAt_twoPages_zero, holdsAt_twoPages_one]
      omega
    · exact fun _ _ => rfl

/-- The upper one of two adjacent areas is found by its base when it comes first
in the list. -/
theorem findsHolder_twoPages_upper :
    (twoPages 0x60001000 0x60000000).FindsHolder (some 0) [0, 1] 0x60001000 := by
  apply (Areas.findsHolder_iff (wellLinked_twoPages _ _) (apart_twoPages (by decide)) _).mpr
  constructor
  · intro before ptr after split holds
    cases before with
    | nil =>
      cases split
      refine ⟨?_, by simp⟩
      intro area live
      cases live
      decide
    | cons first before =>
      obtain ⟨rfl, rest⟩ := List.cons.inj split
      have last : ptr = 1 := List.mem_singleton.mp (rest ▸ List.mem_append_right before
          (List.mem_cons_self ..))
      rw [last, holdsAt_twoPages_one] at holds
      exact absurd holds (by decide)
  · intro none
    refine absurd ?_ (none 0 (List.mem_cons_self ..))
    rw [holdsAt_twoPages_zero]
    decide

/-- When the lower one comes first, it is found in place of the upper one. -/
theorem not_findsHolder_twoPages_lower : (twoPages 0x60000000 0x60001000).Apart [0, 1] ∧
      (twoPages 0x60000000 0x60001000).getArea (some 0) 0x60001000 1 = some (.ok (some 0)) ∧
      ¬ (twoPages 0x60000000 0x60001000).FindsHolder (some 0) [0, 1]
        0x60001000 := by
  have found : (twoPages 0x60000000 0x60001000).getArea (some 0) 0x60001000 1 =
      some (.ok (some 0)) := by rfl
  refine ⟨apart_twoPages (by decide), found, ?_⟩
  rintro ⟨pointer, settles, holder, -⟩
  cases settles.returned _ _ found
  have holds := (holder 0 rfl).2
  rw [holdsAt_twoPages_zero] at holds
  exact absurd holds (by decide)

end OsFree.Kal
