import OsFree.Machine.Transition
import OsFree.Pm.Habs

/-!
# Runs of the table of anchor blocks

Beside the table stand the anchor blocks that are live, with their windows.  As
long as only the anchor block of the first slot gets windows and no anchor block
is deleted with windows left, lookups agree with them.
-/

namespace OsFree.Pm

open Machine

/-- A call at the table, by a thread with an ordinal or for an anchor block. -/
inductive HabCall where
  | addHAB (ordinal iHAB clientId : Int)
  | delHAB (iHAB : Int)
  | addHwnd (hwnd pw : UInt32) (ordinal : Int)
  | addHwndIn (hwnd : UInt32) (iHAB : Int) (pw : UInt32)
  | delHwnd (hwnd : UInt32) (ordinal : Int)
  | delHwndIn (hwnd : UInt32) (iHAB : Int)

namespace HabTable

/-- What a call answers, and the table after it. -/
def serve (table : HabTable) : HabCall → Int × HabTable
  | .addHAB ordinal iHAB clientId => table.addHAB ordinal iHAB clientId
  | .delHAB iHAB => table.delHAB iHAB
  | .addHwnd hwnd pw ordinal => table.addHwnd hwnd pw ordinal
  | .addHwndIn hwnd iHAB pw => table.addHwndIn hwnd iHAB pw
  | .delHwnd hwnd ordinal => table.delHwnd hwnd ordinal
  | .delHwndIn hwnd iHAB => table.delHwndIn hwnd iHAB

/-- The anchor block that a call is about. -/
def anchorOf (table : HabTable) : HabCall → Int
  | .addHAB _ iHAB _ => iHAB
  | .delHAB iHAB => iHAB
  | .addHwnd _ _ ordinal => table.queryOrdinalUsed ordinal
  | .addHwndIn _ iHAB _ => iHAB
  | .delHwnd _ ordinal => table.queryOrdinalUsed ordinal
  | .delHwndIn _ iHAB => iHAB

end HabTable

/-- The table, and the windows of the anchor blocks that are live. -/
structure HabWorld where
  table : HabTable
  live : Int → Option (List UInt32)

namespace HabWorld

/-- What becomes of the windows of the anchor block that a call is about, if the
call answers `rc`. -/
def windowsAfter (windows : Option (List UInt32)) (rc : Int) : HabCall → Option (List UInt32)
  | .addHAB .. => if rc = 0 then some [] else windows
  | .delHAB _ => none
  | .addHwnd hwnd _ _ | .addHwndIn hwnd _ _ =>
    if 0 ≤ rc then windows.map (· ++ [hwnd]) else windows
  | .delHwnd hwnd _ | .delHwndIn hwnd _ => windows.map (·.erase hwnd)

/-- The world after a call. -/
def serve (world : HabWorld) (call : HabCall) : HabWorld where
  table := (world.table.serve call).2
  live := Function.update world.live (world.table.anchorOf call)
      (windowsAfter (world.live (world.table.anchorOf call)) (world.table.serve call).1 call)

/-- An anchor block that is added is not live: the server gives live anchor
blocks distinct ids. -/
def Valid (world : HabWorld) : HabCall → Prop
  | .addHAB _ iHAB _ => world.live iHAB = none
  | _ => True

/-- The largest `int`. -/
def maxInt : Int := 2147483647

/-- An id can be counted up and is not negative; an anchor block is deleted
without windows; a new window is for the anchor block of the first slot. -/
def Allows (world : HabWorld) : HabCall → Prop
  | .addHAB _ iHAB _ => 0 ≤ iHAB ∧ iHAB < maxInt
  | .delHAB iHAB => ∀ windows, world.live iHAB = some windows → windows = []
  | .addHwnd hwnd _ ordinal =>
    0 < world.table.queryHwnd hwnd ∨
      world.table.queryHABexist (world.table.queryOrdinalUsed ordinal) ≤ 1
  | .addHwndIn hwnd iHAB _ =>
    0 < world.table.queryHwnd hwnd ∨ world.table.queryHABexist iHAB ≤ 1
  | _ => True

/-- A step for any call. -/
def Step (world world' : HabWorld) : Prop := ∃ call, world.Valid call ∧ world' = world.serve call

/-- A step for a call that keeps lookups right. -/
def AllowedStep (world world' : HabWorld) : Prop :=
  ∃ call, world.Valid call ∧ world.Allows call ∧ world' = world.serve call

/-- No slot has been used, and no anchor block is live. -/
structure Started (world : HabWorld) : Prop where
  n : world.table.n = 0
  live : ∀ iHAB, world.live iHAB = none

/-- A window of a live anchor block is found, with its anchor block and its index
there, and a window is found nowhere else. -/
structure Finds (world : HabWorld) : Prop where
  added : ∀ iHAB windows hwnd, world.live iHAB = some windows → hwnd ∈ windows →
      world.table.queryHwnd hwnd = iHAB + 1 ∧
        world.table.queryHwndIn hwnd iHAB = windows.idxOf hwnd + 1
  absent : ∀ hwnd, (∀ iHAB windows, world.live iHAB = some windows → hwnd ∉ windows) →
      world.table.queryHwnd hwnd = 0
  absentIn : ∀ iHAB hwnd, (∀ windows, world.live iHAB = some windows → hwnd ∉ windows) →
      world.table.queryHwndIn hwnd iHAB ≤ 0

/-- The windows of an anchor block in the table are those that a slot in use has
for it. -/
def Holds (table : HabTable) (iHAB : Int) (windows : List UInt32) : Prop :=
  ∃ i, i < table.n ∧ (table.hab i).used = true ∧ (table.hab i).iHAB = iHAB ∧
    (table.hab i).windows = windows

/-- The table holds what is live; no slot before one in use has its id; and only
the first slot has windows, each once, while it is in use. -/
structure Sound (world : HabWorld) : Prop where
  holds : ∀ iHAB windows, world.live iHAB = some windows ↔ Holds world.table iHAB windows
  first : ∀ i, i < world.table.n → (world.table.hab i).used = true →
    ∀ j, j < i → (world.table.hab j).iHAB ≠ (world.table.hab i).iHAB
  range : ∀ i, i < world.table.n → (world.table.hab i).used = true →
    0 ≤ (world.table.hab i).iHAB ∧ (world.table.hab i).iHAB < maxInt
  bare : ∀ i, i < world.table.n → (world.table.hab i).windows ≠ [] →
    i = 0 ∧ (world.table.hab i).used = true
  nodup : ∀ i, i < world.table.n → (world.table.hab i).windows.Nodup

variable {world : HabWorld} {iHAB : Int} {hwnd : UInt32} {windows : List UInt32} {i : Nat}

theorem Started.sound (started : world.Started) : world.Sound := by
  have none : ∀ i, ¬ i < world.table.n := by
    intro i inside
    rw [started.n] at inside
    exact Nat.not_lt_zero i inside
  refine ⟨fun iHAB windows => ?_, fun i inside => absurd inside (none i),
    fun i inside => absurd inside (none i), fun i inside => absurd inside (none i),
    fun i inside => absurd inside (none i)⟩
  rw [started.live iHAB]
  constructor
  · intro equal
    cases equal
  · rintro ⟨i, inside, -⟩
    exact absurd inside (none i)

namespace Sound

section

variable (sound : world.Sound)

include sound

theorem queryHABexist_of_slot (inside : i < world.table.n)
    (used : (world.table.hab i).used = true) :
    world.table.queryHABexist (world.table.hab i).iHAB = i + 1 :=
  HabTable.queryHABexist_of_first inside used (sound.first i inside used)

theorem queryHABexist_of_dead
    (dead : world.live iHAB = none) : world.table.queryHABexist iHAB ≤ 0 := by
  apply HabTable.queryHABexist_of_absent
  intro i inside used same
  have live := (sound.holds iHAB _).mpr ⟨i, inside, used, same, rfl⟩
  rw [dead] at live
  cases live

theorem slot_of_pos (found : 0 < world.table.queryHABexist iHAB) :
    ∃ i, i < world.table.n ∧ (world.table.hab i).used = true ∧ (world.table.hab i).iHAB = iHAB ∧
      world.table.queryHABexist iHAB = i + 1 := by
  cases live : world.live iHAB with
  | none =>
    exact absurd (sound.queryHABexist_of_dead live) (Int.not_le.mpr found)
  | some windows =>
    obtain ⟨i, inside, used, rfl, -⟩ := (sound.holds iHAB windows).mp live
    exact ⟨i, inside, used, rfl, sound.queryHABexist_of_slot inside used⟩

/-- A window is found in the first slot or nowhere. -/
theorem queryIndexesHwnd_eq (hwnd : UInt32) : world.table.queryIndexesHwnd hwnd =
      if 0 < world.table.n then
        ((world.table.hab 0).indexOf hwnd).map fun j => (0, j)
      else none := by
  unfold HabTable.queryIndexesHwnd
  cases count : world.table.n with
  | zero => rfl
  | succ n =>
    have rest : ((List.range n).map Nat.succ).findSome? (fun i =>
        ((world.table.hab i).indexOf hwnd).map fun j => (i, j)) = none := by
      rw [List.findSome?_eq_none_iff]
      intro i member
      obtain ⟨before, within, rfl⟩ := List.mem_map.mp member
      have inside : before.succ < world.table.n := by
        rw [count]
        exact Nat.succ_lt_succ (List.mem_range.mp within)
      have missing : hwnd ∉ (world.table.hab before.succ).windows := by
        intro member
        have some := List.ne_nil_of_mem member
        exact Nat.succ_ne_zero before (sound.bare _ inside some).1
      rw [HabTable.indexOf_of_not_mem missing]
      rfl
    rw [if_pos (Nat.succ_pos n), List.range_succ_eq_map, List.findSome?_cons, rest]
    split
    · rename_i found
      exact found.symm
    · rename_i found
      exact found.symm

theorem queryHwnd_of_mem (inside : 0 < world.table.n)
    (member : hwnd ∈ (world.table.hab 0).windows) :
    world.table.queryHwnd hwnd = (world.table.hab 0).iHAB + 1 := by
  unfold HabTable.queryHwnd
  rw [sound.queryIndexesHwnd_eq, if_pos inside, HabTable.indexOf_of_mem member]
  rfl

theorem queryHwnd_of_absent (absent : 0 < world.table.n → hwnd ∉ (world.table.hab 0).windows) :
    world.table.queryHwnd hwnd = 0 := by
  unfold HabTable.queryHwnd
  rw [sound.queryIndexesHwnd_eq]
  by_cases inside : 0 < world.table.n
  · rw [if_pos inside, HabTable.indexOf_of_not_mem (absent inside)]
    rfl
  · rw [if_neg inside]

theorem queryHwndIn_first (inside : 0 < world.table.n) (used : (world.table.hab 0).used = true)
    (member : hwnd ∈ (world.table.hab 0).windows) :
    world.table.queryHwndIn hwnd (world.table.hab 0).iHAB =
      (world.table.hab 0).windows.idxOf hwnd + 1 := by
  have first : world.table.queryHABexist (world.table.hab 0).iHAB = 1 := by
    simpa using sound.queryHABexist_of_slot inside used
  have buffer : (world.table.hab 0).pHwnd.isNone = false := by
    cases null : (world.table.hab 0).pHwnd with
    | none =>
      rw [HabInf.windows, null] at member
      cases member
    | some p => rfl
  unfold HabTable.queryHwndIn
  simp [first, buffer, HabTable.indexOf_of_mem member]

theorem queryHwndIn_of_absent
    (absent : ∀ windows, world.live iHAB = some windows → hwnd ∉ windows) :
    world.table.queryHwndIn hwnd iHAB ≤ 0 := by
  unfold HabTable.queryHwndIn
  by_cases first : world.table.queryHABexist iHAB = 1
  · obtain ⟨i, inside, used, same, slot⟩ := sound.slot_of_pos (first ▸ Int.one_pos)
    have zero : i = 0 := by omega
    subst zero
    have live := (sound.holds iHAB _).mpr ⟨0, inside, used, same, rfl⟩
    simp only [first, ne_eq, not_true_eq_false, ↓reduceIte, Int.sub_self,
      Int.toNat_zero, HabTable.indexOf_of_not_mem (absent _ live)]
    split
    · exact Int.neg_le_zero_iff.mpr Int.one_nonneg
    · exact Int.le_refl 0
  · rw [if_pos first]
    exact Int.neg_le_zero_iff.mpr (Int.natCast_nonneg 2)

theorem finds : world.Finds where
  added := by
    intro iHAB windows hwnd live member
    obtain ⟨i, inside, used, rfl, rfl⟩ := (sound.holds iHAB windows).mp live
    obtain ⟨rfl, -⟩ := sound.bare i inside (List.ne_nil_of_mem member)
    exact ⟨sound.queryHwnd_of_mem inside member, sound.queryHwndIn_first inside used member⟩
  absent := by
    intro hwnd absent
    apply sound.queryHwnd_of_absent
    intro inside member
    obtain ⟨-, used⟩ := sound.bare 0 inside (List.ne_nil_of_mem member)
    have live := (sound.holds _ _).mpr ⟨0, inside, used, rfl, rfl⟩
    exact absent _ _ live member
  absentIn := fun _ _ => sound.queryHwndIn_of_absent

end

variable {inf : HabInf} {call : HabCall} {ordinal : Int}

section

variable (sound : world.Sound)

include sound

section

variable (inside : i < world.table.n) (used : (world.table.hab i).used = true)

include inside used

theorem withSlot (same : inf.iHAB = (world.table.hab i).iHAB)
    (bare : inf.windows ≠ [] → i = 0 ∧ inf.used = true) (nodup : inf.windows.Nodup) :
    Sound
      { table := world.table.setSlot i inf
        live := Function.update world.live (world.table.hab i).iHAB
            (if inf.used then some inf.windows else none) } := by
  have here := @HabTable.setSlot_self world.table i inf
  have elsewhere : ∀ j, j ≠ i →
      (world.table.setSlot i inf).hab j = world.table.hab j :=
    fun j other => HabTable.setSlot_of_ne other inf
  have ids := @HabTable.setSlot_iHAB world.table i inf same
  have uses : ∀ j, ((world.table.setSlot i inf).hab j).used = true →
      (world.table.hab j).used = true := by
    intro j usedJ
    by_cases equal : j = i
    · rw [equal, used]
    · rwa [elsewhere j equal] at usedJ
  constructor
  · intro iHAB windows
    dsimp only
    by_cases mine : iHAB = (world.table.hab i).iHAB
    · subst mine
      rw [Function.update_self]
      constructor
      · intro equal
        split at equal
        · rename_i usedStill
          cases equal
          exact ⟨i, inside, by rw [here, usedStill], ids i, by rw [here]⟩
        · cases equal
      · rintro ⟨j, within, usedJ, sameJ, rfl⟩
        rw [ids] at sameJ
        have equal : j = i := by
          rcases Nat.lt_trichotomy j i with before | equal | behind
          · exact absurd sameJ (sound.first i inside used j before)
          · exact equal
          · exact absurd sameJ.symm (sound.first j within (uses j usedJ) i behind)
        rw [equal, here] at usedJ ⊢
        rw [usedJ, if_pos rfl]
    · rw [Function.update_of_ne mine, sound.holds]
      constructor
      · rintro ⟨j, within, usedJ, rfl, rfl⟩
        have other : j ≠ i := fun equal => mine (equal ▸ rfl)
        exact ⟨j, within, by rw [elsewhere j other]; exact usedJ, ids j, by rw [elsewhere j other]⟩
      · rintro ⟨j, within, usedJ, rfl, rfl⟩
        rw [ids] at mine
        have other : j ≠ i := fun equal => mine (equal ▸ rfl)
        exact ⟨j, within, uses j usedJ, (ids j).symm, by rw [elsewhere j other]⟩
  · intro j within usedJ k before
    rw [ids, ids]
    exact sound.first j within (uses j usedJ) k before
  · intro j within usedJ
    rw [ids]
    exact sound.range j within (uses j usedJ)
  · intro j within some
    by_cases equal : j = i
    · rw [equal, here] at some ⊢
      exact bare some
    · rw [elsewhere j equal] at some ⊢
      exact sound.bare j within some
  · intro j within
    by_cases equal : j = i
    · rw [equal, here]
      exact nodup
    · rw [elsewhere j equal]
      exact sound.nodup j within

theorem withWindows (usedStill : inf.used = true) (same : inf.iHAB = (world.table.hab i).iHAB)
    (bare : inf.windows ≠ [] → i = 0) (nodup : inf.windows.Nodup) :
    Sound
      { table := world.table.setSlot i inf
        live := Function.update world.live (world.table.hab i).iHAB
            (some inf.windows) } := by
  have changed := sound.withSlot inside used same (fun some => ⟨bare some, usedStill⟩) nodup
  rwa [usedStill, if_pos rfl] at changed

theorem withFree (bare : (world.table.hab i).windows = []) (unused : inf.used = false)
    (same : inf.iHAB = (world.table.hab i).iHAB)
    (windows : inf.windows = (world.table.hab i).windows) :
    Sound
      { table := world.table.setSlot i inf
        live := Function.update world.live (world.table.hab i).iHAB none } := by
  have none := windows.trans bare
  have changed := sound.withSlot inside used same (fun some => absurd none some)
    (none ▸ List.nodup_nil)
  rwa [unused, if_neg Bool.false_ne_true] at changed

end

theorem withNew {n : Nat}
    (before : ∀ j, j < i → j < world.table.n ∧ (world.table.hab j).used = true)
    (slot : i < world.table.n ∧ (world.table.hab i).used = false ∧ n = world.table.n ∨
      i = world.table.n ∧ n = world.table.n + 1)
    (dead : world.live inf.iHAB = none) (used : inf.used = true)
    (range : 0 ≤ inf.iHAB ∧ inf.iHAB < maxInt) (bare : inf.windows = []) :
    Sound
      { table := (world.table.setSlot i inf).resize n
        live := Function.update world.live inf.iHAB (some []) } := by
  have here := @HabTable.setSlot_self world.table i inf
  have elsewhere : ∀ j, j ≠ i →
      (world.table.setSlot i inf).hab j = world.table.hab j :=
    fun j other => HabTable.setSlot_of_ne other inf
  have within : ∀ j, j < n → j ≠ i → j < world.table.n := by
    intro j inside other
    rcases slot with ⟨-, -, rfl⟩ | ⟨rfl, rfl⟩
    · exact inside
    · exact Nat.lt_of_le_of_ne (Nat.le_of_lt_succ inside) other
  have covered : i < n ∧ ∀ j, j < world.table.n → j < n := by
    rcases slot with ⟨inside, -, rfl⟩ | ⟨rfl, rfl⟩
    · exact ⟨inside, fun _ less => less⟩
    · exact ⟨Nat.lt_succ_self _, fun _ less => Nat.lt_succ_of_lt less⟩
  have old : ∀ j, j < world.table.n → (world.table.hab j).used = true →
      j ≠ i ∧ (world.table.hab j).iHAB ≠ inf.iHAB := by
    intro j inside usedJ
    constructor
    · rintro rfl
      rcases slot with ⟨-, unused, -⟩ | ⟨equal, -⟩
      · rw [unused] at usedJ
        cases usedJ
      · exact Nat.ne_of_lt inside equal
    · intro same
      have live := (sound.holds _ _).mpr ⟨j, inside, usedJ, same, rfl⟩
      rw [dead] at live
      cases live
  constructor
  · intro iHAB windows
    dsimp only
    by_cases mine : iHAB = inf.iHAB
    · subst mine
      rw [Function.update_self]
      constructor
      · intro equal
        cases equal
        refine ⟨i, covered.1, ?_⟩
        rw [HabTable.resize_hab, here]
        exact ⟨used, rfl, bare⟩
      · rintro ⟨j, inside, usedJ, sameJ, rfl⟩
        rw [HabTable.resize_hab] at usedJ sameJ ⊢
        by_cases equal : j = i
        · rw [equal, here, bare]
        · rw [elsewhere j equal] at usedJ sameJ
          exact absurd sameJ (old j (within j inside equal) usedJ).2
    · rw [Function.update_of_ne mine, sound.holds]
      constructor
      · rintro ⟨j, inside, usedJ, rfl, rfl⟩
        obtain ⟨other, -⟩ := old j inside usedJ
        refine ⟨j, covered.2 j inside, ?_⟩
        rw [HabTable.resize_hab, elsewhere j other]
        exact ⟨usedJ, rfl, rfl⟩
      · rintro ⟨j, inside, usedJ, sameJ, windowsJ⟩
        rw [HabTable.resize_hab] at usedJ sameJ windowsJ
        have other : j ≠ i := by
          rintro rfl
          rw [here] at sameJ
          exact mine sameJ.symm
        rw [elsewhere j other] at usedJ sameJ windowsJ
        exact ⟨j, within j inside other, usedJ, sameJ, windowsJ⟩
  · intro j inside usedJ k less
    rw [HabTable.resize_hab] at usedJ ⊢
    by_cases equal : j = i
    · subst equal
      obtain ⟨insideK, usedK⟩ := before k less
      rw [here, elsewhere k (Nat.ne_of_lt less)]
      exact (old k insideK usedK).2
    · rw [elsewhere j equal] at usedJ ⊢
      have insideJ := within j inside equal
      by_cases equalK : k = i
      · rw [equalK, here]
        exact (old j insideJ usedJ).2.symm
      · rw [elsewhere k equalK]
        exact sound.first j insideJ usedJ k less
  · intro j inside usedJ
    rw [HabTable.resize_hab] at usedJ ⊢
    by_cases equal : j = i
    · rw [equal, here]
      exact range
    · rw [elsewhere j equal] at usedJ ⊢
      exact sound.range j (within j inside equal) usedJ
  · intro j inside some
    rw [HabTable.resize_hab] at some ⊢
    by_cases equal : j = i
    · rw [equal, here] at some
      exact absurd bare some
    · rw [elsewhere j equal] at some ⊢
      exact sound.bare j (within j inside equal) some
  · intro j inside
    rw [HabTable.resize_hab]
    by_cases equal : j = i
    · rw [equal, here, bare]
      exact List.nodup_nil
    · rw [elsewhere j equal]
      exact sound.nodup j (within j inside equal)

theorem windows_of_live (live : world.live iHAB = some windows) :
    ∃ i, i < world.table.n ∧ (world.table.hab i).used = true ∧
      (world.table.hab i).iHAB = iHAB ∧ (world.table.hab i).windows = windows ∧
      world.table.queryHABexist iHAB = i + 1 := by
  obtain ⟨i, inside, used, rfl, same⟩ := (sound.holds iHAB windows).mp live
  exact ⟨i, inside, used, rfl, same, sound.queryHABexist_of_slot inside used⟩

theorem not_mem_of_queryHwnd (unknown : world.table.queryHwnd hwnd ≤ 0)
    (live : world.live iHAB = some windows) : hwnd ∉ windows := by
  intro member
  obtain ⟨i, inside, used, rfl, -⟩ := (sound.holds iHAB windows).mp live
  have found := (sound.finds.added _ _ hwnd live member).1
  have range := (sound.range i inside used).1
  omega

theorem unchanged {rc : Int} (served : world.table.serve call = (rc, world.table))
    (windows : windowsAfter (world.live (world.table.anchorOf call)) rc call =
      world.live (world.table.anchorOf call)) : (world.serve call).Sound := by
  unfold HabWorld.serve
  rw [served, windows, Function.update_eq_self]
  exact sound

theorem serve_addHAB {clientId : Int} (valid : world.Valid (.addHAB ordinal iHAB clientId))
    (allowed : world.Allows (.addHAB ordinal iHAB clientId)) :
    (world.serve (.addHAB ordinal iHAB clientId)).Sound := by
  cases found : world.table.slotForNew with
  | none =>
    have served : world.table.addHAB ordinal iHAB clientId =
        (-1, world.table) := by
      simp only [HabTable.addHAB, found]
    exact sound.unchanged served rfl
  | some slot =>
    obtain ⟨i, n⟩ := slot
    obtain ⟨before, free⟩ := HabTable.slotForNew_eq_some found
    have served : world.table.addHAB ordinal iHAB clientId = (0, (world.table.setSlot i
          ⟨true, clientId, ordinal, iHAB, 0, 0, none⟩).resize n) := by
      simp only [HabTable.addHAB, found]
    unfold HabWorld.serve
    rw [HabTable.serve, served]
    exact sound.withNew before free valid rfl allowed rfl

theorem serve_delHAB (allowed : world.Allows (.delHAB iHAB)) :
    (world.serve (.delHAB iHAB)).Sound := by
  by_cases missing : world.table.queryHABexist iHAB ≤ 0
  · have served : world.table.delHAB iHAB =
        (world.table.queryHABexist iHAB, world.table) := if_pos missing
    refine sound.unchanged served ?_
    cases live : world.live iHAB with
    | none => exact live.symm
    | some windows =>
      obtain ⟨i, -, -, -, -, slot⟩ := sound.windows_of_live live
      omega
  · obtain ⟨i, inside, used, rfl, slot⟩ := sound.slot_of_pos (Int.not_le.mp missing)
    have served : world.table.delHAB (world.table.hab i).iHAB = (0, world.table.setSlot i
          { world.table.hab i with used := false, ordinal := 0 }) := by
      unfold HabTable.delHAB
      rw [if_neg missing, slot, Int.add_sub_cancel, Int.toNat_natCast]
    have live := (sound.holds _ _).mpr ⟨i, inside, used, rfl, rfl⟩
    unfold HabWorld.serve
    rw [HabTable.serve, served]
    exact sound.withFree inside used (allowed _ live) rfl rfl rfl

theorem serve_addHwndIn {pw : UInt32} (allowed : world.Allows (.addHwndIn hwnd iHAB pw)) :
    (world.serve (.addHwndIn hwnd iHAB pw)).Sound := by
  by_cases missing : world.table.queryHABexist iHAB ≤ 0
  · have served : world.table.addHwndIn hwnd iHAB pw = (-2, world.table) := if_pos missing
    exact sound.unchanged served rfl
  · obtain ⟨i, inside, used, rfl, slot⟩ := sound.slot_of_pos (Int.not_le.mp missing)
    by_cases unknown : world.table.queryHwnd hwnd ≤ 0
    · have served : world.table.addHwndIn hwnd (world.table.hab i).iHAB pw =
          (((world.table.hab i).windows.length : Int), world.table.setSlot i
              ((world.table.hab i).addWindow ⟨hwnd, pw⟩)) := by
        unfold HabTable.addHwndIn
        rw [if_neg missing, if_pos unknown, slot, Int.add_sub_cancel, Int.toNat_natCast]
      have first : i = 0 := by
        have inFirst := allowed.resolve_left (Int.not_lt.mpr unknown)
        omega
      have live := (sound.holds _ _).mpr ⟨i, inside, used, rfl, rfl⟩
      have fresh := sound.not_mem_of_queryHwnd unknown live
      have windows := HabTable.windows_addWindow (world.table.hab i) ⟨hwnd, pw⟩
      have nodup :
          ((world.table.hab i).addWindow ⟨hwnd, pw⟩).windows.Nodup := by
        rw [windows, ← List.concat_eq_append, List.nodup_concat]
        exact ⟨fresh, sound.nodup i inside⟩
      have usedStill :
          ((world.table.hab i).addWindow ⟨hwnd, pw⟩).used = true := used
      have kept := sound.withWindows inside used usedStill rfl (fun _ => first) nodup
      have after : windowsAfter (world.live (world.table.hab i).iHAB)
          (world.table.hab i).windows.length
          (.addHwndIn hwnd (world.table.hab i).iHAB pw) =
            some ((world.table.hab i).addWindow ⟨hwnd, pw⟩).windows := by
        rw [windows, live, windowsAfter, if_pos (Int.natCast_nonneg _)]
        rfl
      unfold HabWorld.serve
      rw [HabTable.serve, served, HabTable.anchorOf, after]
      exact kept
    · have served : world.table.addHwndIn hwnd (world.table.hab i).iHAB pw =
          (-1, world.table) := by
        unfold HabTable.addHwndIn
        rw [if_neg missing, if_neg unknown]
      exact sound.unchanged served rfl

theorem serve_delHwndIn :
    (world.serve (.delHwndIn hwnd iHAB)).Sound := by
  by_cases first : world.table.queryHABexist iHAB = 1
  · obtain ⟨i, inside, used, rfl, slot⟩ := sound.slot_of_pos (first ▸ Int.one_pos)
    have zero : i = 0 := by omega
    subst zero
    have live := (sound.holds _ _).mpr ⟨0, inside, used, rfl, rfl⟩
    by_cases member : hwnd ∈ (world.table.hab 0).windows
    · have found := sound.queryHwndIn_first inside used member
      have served : world.table.delHwndIn hwnd (world.table.hab 0).iHAB =
          (0, world.table.setSlot 0 ((world.table.hab 0).deleteWindow
            ((world.table.hab 0).windows.idxOf hwnd))) := by
        unfold HabTable.delHwndIn
        simp only [first, found]
        rw [if_neg (by simp), if_pos (by omega), Int.add_sub_cancel, Int.toNat_natCast]
        rfl
      have windows := HabTable.windows_deleteWindow (world.table.hab 0)
          ((world.table.hab 0).windows.idxOf hwnd)
      have erased : (world.table.hab 0).windows.eraseIdx ((world.table.hab 0).windows.idxOf hwnd) =
          (world.table.hab 0).windows.erase hwnd :=
        (List.erase_eq_eraseIdx_of_idxOf rfl).symm
      have nodup : ((world.table.hab 0).deleteWindow
          ((world.table.hab 0).windows.idxOf hwnd)).windows.Nodup := by
        rw [windows, erased]
        exact (sound.nodup 0 inside).erase hwnd
      have usedStill : ((world.table.hab 0).deleteWindow
          ((world.table.hab 0).windows.idxOf hwnd)).used = true := used
      have kept := sound.withWindows inside used usedStill rfl (fun _ => rfl) nodup
      have after : windowsAfter (world.live (world.table.hab 0).iHAB) 0
          (.delHwndIn hwnd (world.table.hab 0).iHAB) = some ((world.table.hab 0).deleteWindow
              ((world.table.hab 0).windows.idxOf hwnd)).windows := by
        rw [windows, erased, live]
        rfl
      unfold HabWorld.serve
      rw [HabTable.serve, served, HabTable.anchorOf, after]
      exact kept
    · have missing :
          ¬ 0 < world.table.queryHwndIn hwnd (world.table.hab 0).iHAB := by
        apply Int.not_lt.mpr
        apply sound.queryHwndIn_of_absent
        intro windows known
        rw [live] at known
        cases known
        exact member
      have served : world.table.delHwndIn hwnd (world.table.hab 0).iHAB =
          (0, world.table) := by
        unfold HabTable.delHwndIn
        rw [if_neg (by simp [first])]
        exact if_neg missing
      refine sound.unchanged served ?_
      rw [HabTable.anchorOf, live]
      exact congrArg some (List.erase_of_not_mem member)
  · have served : world.table.delHwndIn hwnd iHAB = (-2, world.table) := if_pos first
    refine sound.unchanged served ?_
    -- an anchor block in another slot has no windows
    rw [HabTable.anchorOf]
    cases live : world.live iHAB with
    | none => rfl
    | some windows =>
      obtain ⟨i, inside, -, -, rfl, slot⟩ := sound.windows_of_live live
      have empty : (world.table.hab i).windows = [] := by
        by_contra some
        have zero := (sound.bare i inside some).1
        omega
      rw [empty]
      rfl

theorem serve_addHwnd {pw : UInt32} (allowed : world.Allows (.addHwnd hwnd pw ordinal)) :
    (world.serve (.addHwnd hwnd pw ordinal)).Sound := by
  by_cases known : 0 < world.table.queryHwnd hwnd
  · have served : world.table.addHwnd hwnd pw ordinal = (-1, world.table) := if_pos known
    exact sound.unchanged served rfl
  · by_cases unused : world.table.queryOrdinalUsed ordinal = -1
    · have served :
          world.table.addHwnd hwnd pw ordinal = (-2, world.table) := by
        unfold HabTable.addHwnd
        rw [if_neg known]
        exact if_pos unused
      exact sound.unchanged served rfl
    · have served : world.table.addHwnd hwnd pw ordinal =
          world.table.addHwndIn hwnd (world.table.queryOrdinalUsed ordinal)
            pw := by
        unfold HabTable.addHwnd
        rw [if_neg known]
        exact if_neg unused
      have kept := @serve_addHwndIn world
        (world.table.queryOrdinalUsed ordinal) hwnd sound pw allowed
      unfold HabWorld.serve at kept ⊢
      rw [HabTable.serve, served]
      exact kept

theorem serve_delHwnd :
    (world.serve (.delHwnd hwnd ordinal)).Sound := by
  by_cases unknown : world.table.queryHwnd hwnd ≤ 0
  · have served : world.table.delHwnd hwnd ordinal = (-1, world.table) := if_pos unknown
    refine sound.unchanged served ?_
    rw [HabTable.anchorOf]
    cases live : world.live (world.table.queryOrdinalUsed ordinal) with
    | none => rfl
    | some windows =>
      have fresh := sound.not_mem_of_queryHwnd unknown live
      exact congrArg some (List.erase_of_not_mem fresh)
  · by_cases unused : world.table.queryOrdinalUsed ordinal = -1
    · have served : world.table.delHwnd hwnd ordinal = (-2, world.table) := by
        unfold HabTable.delHwnd
        rw [if_neg unknown]
        exact if_pos unused
      refine sound.unchanged served ?_
      rw [HabTable.anchorOf, unused]
      cases live : world.live (-1) with
      | none => rfl
      | some windows =>
        obtain ⟨i, inside, used, same, -⟩ := sound.windows_of_live live
        have range := (sound.range i inside used).1
        omega
    · have served : world.table.delHwnd hwnd ordinal = world.table.delHwndIn hwnd
            (world.table.queryOrdinalUsed ordinal) := by
        unfold HabTable.delHwnd
        rw [if_neg unknown]
        exact if_neg unused
      have kept := @serve_delHwndIn world (world.table.queryOrdinalUsed ordinal) hwnd sound
      unfold HabWorld.serve at kept ⊢
      rw [HabTable.serve, served]
      exact kept

theorem serve (valid : world.Valid call)
    (allowed : world.Allows call) : (world.serve call).Sound := by
  cases call with
  | addHAB ordinal iHAB clientId => exact sound.serve_addHAB valid allowed
  | delHAB iHAB => exact sound.serve_delHAB allowed
  | addHwnd hwnd pw ordinal => exact sound.serve_addHwnd allowed
  | addHwndIn hwnd iHAB pw => exact sound.serve_addHwndIn allowed
  | delHwnd hwnd ordinal => exact sound.serve_delHwnd
  | delHwndIn hwnd iHAB => exact sound.serve_delHwndIn

theorem holds_serve_iff (valid : world.Valid call) (allowed : world.Allows call)
    (other : iHAB ≠ world.table.anchorOf call) :
    Holds (world.serve call).table iHAB windows ↔
      Holds world.table iHAB windows := by
  rw [← (sound.serve valid allowed).holds, ← sound.holds]
  have same : (world.serve call).live iHAB = world.live iHAB := Function.update_of_ne other ..
  rw [same]

end

end Sound

/-- In every run of allowed calls each window of a live anchor block is found with
its anchor block and its index, and no other window is; and a further allowed call
keeps this and the windows of all other anchor blocks. -/
theorem finds_of_run {start : HabWorld} (started : start.Started)
    (run : RunsTo AllowedStep start world) :
    world.Finds ∧ ∀ call, world.Valid call → world.Allows call →
      (world.serve call).Finds ∧ ∀ iHAB windows, iHAB ≠ world.table.anchorOf call →
          (Holds (world.serve call).table iHAB windows ↔
            Holds world.table iHAB windows) := by
  have sound : world.Sound := by
    refine RunsTo.preserves ?_ run started.sound
    intro state state' sound step
    obtain ⟨call, valid, allowed, rfl⟩ := step
    exact sound.serve valid allowed
  refine ⟨sound.finds, fun call valid allowed => ?_⟩
  exact ⟨(sound.serve valid allowed).finds, fun iHAB windows => sound.holds_serve_iff valid allowed⟩

/-- A client that no thread has initialised. -/
def noHabs : HabWorld where
  table := ⟨1024, 0, fun _ => ⟨false, 0, 0, 0, 0, 0, none⟩⟩
  live _ := none

theorem noHabs_started : noHabs.Started := ⟨rfl, fun _ => rfl⟩

/-- One thread with the anchor block 5. -/
def oneHab : HabWorld := noHabs.serve (.addHAB 1 5 1)

/-- A window of the first thread is found. -/
theorem oneHab_found : (oneHab.serve (.addHwndIn 9 5 0)).Finds ∧
      (oneHab.serve (.addHwndIn 9 5 0)).live 5 = some [9] := by
  have first : AllowedStep noHabs oneHab := ⟨.addHAB 1 5 1, rfl, ⟨by decide, by decide⟩, rfl⟩
  have second : AllowedStep oneHab (oneHab.serve (.addHwndIn 9 5 0)) :=
    ⟨.addHwndIn 9 5 0, trivial, .inr (by decide), rfl⟩
  exact ⟨(finds_of_run noHabs_started (.head first (.single second))).1, rfl⟩

/-- A window of the second thread is not found with its anchor block. -/
theorem secondHab_notFound : ¬ ∀ start world : HabWorld, start.Started → RunsTo Step start world →
      world.Finds := by
  intro claim
  have run : RunsTo Step noHabs
      ((oneHab.serve (.addHAB 2 6 1)).serve (.addHwndIn 9 6 0)) :=
    .head ⟨.addHAB 1 5 1, rfl, rfl⟩ <|
    .head ⟨.addHAB 2 6 1, rfl, rfl⟩ <|
    .single ⟨.addHwndIn 9 6 0, trivial, rfl⟩
  have finds := claim _ _ noHabs_started run
  have found := (finds.added 6 [9] 9 rfl (List.mem_singleton_self 9)).2
  exact absurd found (by decide)

end HabWorld
end OsFree.Pm
