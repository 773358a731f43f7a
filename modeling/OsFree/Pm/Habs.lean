import Mathlib.Data.List.InsertIdx
import Mathlib.Data.List.Nodup
import Mathlib.Logic.Function.Basic

/-!
# The anchor blocks of a client

A client keeps a table of anchor blocks, each with the windows of one thread.
Slots are used again, and a lookup answers the number of a slot plus one.
-/

namespace OsFree.Pm

/-- A window of an anchor block, and its object. -/
structure HwndEntry where
  hwnd : UInt32
  pw : UInt32
  deriving DecidableEq

/-- A slot of the table.  The buffer of windows is null until the first one is
added. -/
structure HabInf where
  used : Bool
  clientId : Int
  ordinal : Int
  iHAB : Int
  lastError : Int
  lAllocpHwnd : Nat
  pHwnd : Option (List HwndEntry)
  deriving DecidableEq

/-- The table: the slots that have been used so far, of at most so many
threads. -/
structure HabTable where
  maxThreads : Nat
  n : Nat
  hab : Nat → HabInf

/-- The window handles of a slot. -/
def HabInf.windows (inf : HabInf) : List UInt32 := (inf.pHwnd.getD []).map HwndEntry.hwnd

/-- A slot with one more window.  The buffer grows by 256 windows. -/
def HabInf.addWindow (inf : HabInf) (entry : HwndEntry) : HabInf :=
  let p := inf.pHwnd.getD []
  { inf with
    lAllocpHwnd :=
      if inf.lAllocpHwnd ≤ p.length + 1 then inf.lAllocpHwnd + 256
      else inf.lAllocpHwnd
    pHwnd := some (p ++ [entry]) }

/-- A slot without a window; those behind it move one place. -/
def HabInf.deleteWindow (inf : HabInf) (i : Nat) : HabInf :=
  { inf with pHwnd := inf.pHwnd.map (·.eraseIdx i) }

/-- The index of a window in the buffer of a slot. -/
def HabInf.indexOf (inf : HabInf) (hwnd : UInt32) : Option Nat :=
  match inf.pHwnd with
  | none => none
  | some p => p.findIdx? fun entry => entry.hwnd == hwnd

namespace HabTable

variable (table : HabTable)

/-- The first slot of a kind. -/
def firstSlot (p : HabInf → Bool) : Option Nat :=
  (List.range table.n).find? fun i => p (table.hab i)

/-- The table with a slot changed. -/
def setSlot (i : Nat) (inf : HabInf) : HabTable :=
  { table with hab := Function.update table.hab i inf }

/-- The table with another number of slots. -/
def resize (n : Nat) : HabTable := { table with n }

/-- The anchor block of a thread, or -1. -/
def queryOrdinalUsed (ordinal : Int) : Int :=
  match table.firstSlot fun inf => inf.used && inf.ordinal == ordinal with
  | none => -1
  | some i => (table.hab i).iHAB

/-- One more than the slot of an anchor block; 0 if the slot is free, and -1 if
there is none. -/
def queryHABexist (iHAB : Int) : Int :=
  match table.firstSlot fun inf => inf.iHAB == iHAB with
  | none => -1
  | some i => if (table.hab i).used then i + 1 else 0

/-- The slot for a new anchor block, and the number of slots with it. -/
def slotForNew : Option (Nat × Nat) :=
  match table.firstSlot fun inf => !inf.used with
  | some i => some (i, table.n)
  | none =>
    if table.n < table.maxThreads then some (table.n, table.n + 1) else none

/-- Add an anchor block. -/
def addHAB (ordinal iHAB clientId : Int) : Int × HabTable :=
  match table.slotForNew with
  | none => (-1, table)
  | some (i, n) =>
    (0, (table.setSlot i ⟨true, clientId, ordinal, iHAB, 0, 0, none⟩).resize n)

/-- Delete an anchor block. -/
def delHAB (iHAB : Int) : Int × HabTable :=
  let rc := table.queryHABexist iHAB
  if rc ≤ 0 then (rc, table)
  else
    let i := (rc - 1).toNat
    (0, table.setSlot i { table.hab i with used := false, ordinal := 0 })

/-- The slot of a window, and its index there. -/
def queryIndexesHwnd (hwnd : UInt32) : Option (Nat × Nat) := (List.range table.n).findSome? fun i =>
    ((table.hab i).indexOf hwnd).map fun j => (i, j)

/-- One more than the anchor block of a window, or 0. -/
def queryHwnd (hwnd : UInt32) : Int :=
  match table.queryIndexesHwnd hwnd with
  | none => 0
  | some (i, _) => (table.hab i).iHAB + 1

/-- One more than the index of a window of an anchor block, or 0. -/
def queryHwndIn (hwnd : UInt32) (iHAB : Int) : Int :=
  let rc := table.queryHABexist iHAB
  if rc ≠ 1 then -2
  else
    let inf := table.hab (rc - 1).toNat
    if inf.pHwnd.isNone then -1
    else
      match inf.indexOf hwnd with
      | none => 0
      | some i => i + 1

/-- Add a window to an anchor block. -/
def addHwndIn (hwnd : UInt32) (iHAB : Int) (pw : UInt32) : Int × HabTable :=
  let rc := table.queryHABexist iHAB
  if rc ≤ 0 then (-2, table)
  else
    let i := (rc - 1).toNat
    if table.queryHwnd hwnd ≤ 0 then
      let inf := table.hab i
      (inf.windows.length, table.setSlot i (inf.addWindow ⟨hwnd, pw⟩))
    else (-1, table)

/-- Add a window to the anchor block of a thread. -/
def addHwnd (hwnd pw : UInt32) (ordinal : Int) : Int × HabTable :=
  if 0 < table.queryHwnd hwnd then (-1, table)
  else
    let iHAB := table.queryOrdinalUsed ordinal
    if iHAB = -1 then (-2, table) else table.addHwndIn hwnd iHAB pw

/-- Delete a window of an anchor block. -/
def delHwndIn (hwnd : UInt32) (iHAB : Int) : Int × HabTable :=
  let rc1 := table.queryHABexist iHAB
  if rc1 ≠ 1 then (-2, table)
  else
    let ind := (rc1 - 1).toNat
    let rc := table.queryHwndIn hwnd iHAB
    if 0 < rc then
      let inf := table.hab ind
      (0, table.setSlot ind (inf.deleteWindow (rc - 1).toNat))
    else (0, table)

/-- Delete a window of the anchor block of a thread. -/
def delHwnd (hwnd : UInt32) (ordinal : Int) : Int × HabTable :=
  if table.queryHwnd hwnd ≤ 0 then (-1, table)
  else
    let iHAB := table.queryOrdinalUsed ordinal
    if iHAB = -1 then (-2, table) else table.delHwndIn hwnd iHAB

variable {table : HabTable}

theorem firstSlot_eq_some_iff {p : HabInf → Bool} {i : Nat} :
    table.firstSlot p = some i ↔ i < table.n ∧ p (table.hab i) = true ∧
        ∀ j, j < i → p (table.hab j) = false := by
  unfold firstSlot
  rw [List.find?_range_eq_some]
  simp only [List.mem_range, Bool.not_eq_eq_eq_not, Bool.not_true]
  exact and_left_comm

theorem firstSlot_eq_none_iff {p : HabInf → Bool} :
    table.firstSlot p = none ↔ ∀ i, i < table.n → p (table.hab i) = false := by
  unfold firstSlot
  simp

theorem windows_addWindow (inf : HabInf) (entry : HwndEntry) :
    (inf.addWindow entry).windows = inf.windows ++ [entry.hwnd] := by
  simp [HabInf.windows, HabInf.addWindow]

theorem windows_deleteWindow (inf : HabInf) (i : Nat) :
    (inf.deleteWindow i).windows = inf.windows.eraseIdx i := by
  unfold HabInf.windows HabInf.deleteWindow
  cases inf.pHwnd with
  | none => rfl
  | some p => exact (List.eraseIdx_map _ p i).symm

theorem indexOf_eq (inf : HabInf) (hwnd : UInt32) :
    inf.indexOf hwnd = inf.windows.findIdx? (· == hwnd) := by
  unfold HabInf.indexOf HabInf.windows
  cases inf.pHwnd with
  | none => rfl
  | some p =>
    rw [Option.getD_some, List.findIdx?_map]
    rfl

theorem indexOf_of_mem {inf : HabInf} {hwnd : UInt32} (member : hwnd ∈ inf.windows) :
    inf.indexOf hwnd = some (inf.windows.idxOf hwnd) := by
  rw [indexOf_eq]
  exact List.findIdx?_eq_some_of_exists ⟨hwnd, member, beq_self_eq_true hwnd⟩

theorem indexOf_of_not_mem {inf : HabInf} {hwnd : UInt32}
    (absent : hwnd ∉ inf.windows) : inf.indexOf hwnd = none := by
  rw [indexOf_eq, List.findIdx?_eq_none_iff]
  intro other member
  rw [beq_eq_false_iff_ne]
  rintro rfl
  exact absent member

@[simp] theorem setSlot_n (i : Nat) (inf : HabInf) :
    (table.setSlot i inf).n = table.n := rfl

@[simp] theorem resize_n (n : Nat) : (table.resize n).n = n := rfl

@[simp] theorem resize_hab (n : Nat) : (table.resize n).hab = table.hab := rfl

@[simp] theorem setSlot_self (i : Nat) (inf : HabInf) :
    (table.setSlot i inf).hab i = inf := by
  exact Function.update_self ..

theorem setSlot_of_ne {i j : Nat} (other : j ≠ i) (inf : HabInf) :
    (table.setSlot i inf).hab j = table.hab j := by
  exact Function.update_of_ne other ..

theorem setSlot_iHAB {i : Nat} {inf : HabInf} (same : inf.iHAB = (table.hab i).iHAB) (j : Nat) :
    ((table.setSlot i inf).hab j).iHAB = (table.hab j).iHAB := by
  by_cases equal : j = i
  · rw [equal, setSlot_self, same]
  · rw [setSlot_of_ne equal]

theorem queryHABexist_of_absent {iHAB : Int}
    (absent : ∀ i, i < table.n → (table.hab i).used = true → (table.hab i).iHAB ≠ iHAB) :
    table.queryHABexist iHAB ≤ 0 := by
  unfold queryHABexist
  cases found : table.firstSlot fun inf => inf.iHAB == iHAB with
  | none => exact Int.neg_le_zero_iff.mpr Int.one_nonneg
  | some i =>
    obtain ⟨inside, same, -⟩ := firstSlot_eq_some_iff.mp found
    cases used : (table.hab i).used with
    | false => simp [used]
    | true => exact absurd (by simpa using same) (absent i inside used)

theorem queryHABexist_of_first {i : Nat} (inside : i < table.n) (used : (table.hab i).used = true)
    (first : ∀ j, j < i → (table.hab j).iHAB ≠ (table.hab i).iHAB) :
    table.queryHABexist (table.hab i).iHAB = i + 1 := by
  have found : (table.firstSlot fun inf => inf.iHAB == (table.hab i).iHAB) =
      some i := by
    rw [firstSlot_eq_some_iff]
    exact ⟨inside, by simp, fun j before => by simpa using first j before⟩
  unfold queryHABexist
  rw [found]
  simp [used]

theorem slotForNew_eq_some {i n : Nat} (found : table.slotForNew = some (i, n)) :
    (∀ j, j < i → j < table.n ∧ (table.hab j).used = true) ∧
      (i < table.n ∧ (table.hab i).used = false ∧ n = table.n ∨
        i = table.n ∧ n = table.n + 1) := by
  unfold slotForNew at found
  cases free : table.firstSlot fun inf => !inf.used with
  | some k =>
    rw [free] at found
    cases found
    obtain ⟨inside, unused, before⟩ := firstSlot_eq_some_iff.mp free
    refine ⟨fun j less => ⟨Nat.lt_trans less inside, ?_⟩, .inl ⟨inside, by simpa using unused, rfl⟩⟩
    simpa using before j less
  | none =>
    rw [free] at found
    dsimp only at found
    split at found
    · cases found
      refine ⟨fun j less => ⟨less, ?_⟩, .inr ⟨rfl, rfl⟩⟩
      simpa using firstSlot_eq_none_iff.mp free j less
    · cases found

end HabTable
end OsFree.Pm
