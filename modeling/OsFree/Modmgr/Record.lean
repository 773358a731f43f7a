import Mathlib.Tactic.Common
import OsFree.Machine.Word

/-!
# Names of modules

Module names are C strings, here without the closing zero, and are compared
without regard to the case of the letters of the alphabet.
-/

namespace OsFree.Modmgr

/-- A C string without its closing zero. -/
abbrev Name := List UInt8

/-- The small letter for a capital one. -/
def toLower (c : UInt8) : UInt8 :=
  if 0x41 ≤ c ∧ c ≤ 0x5a then c + 0x20 else c

/-- `stricmp` finds no difference. -/
def Stricmp (s t : Name) : Prop := s.map toLower = t.map toLower

instance (s t : Name) : Decidable (Stricmp s t) := inferInstanceAs (Decidable (_ = _))

/-- The file name without what follows its last dot. -/
def getFname (sPath : Name) : Name :=
  if 0x2e ∈ sPath then
    ((sPath.reverse.dropWhile fun c => c ≠ 0x2e).drop 1).reverse
  else sPath

/-- `EMXWRAP`. -/
def emxwrap : Name := [0x45, 0x4d, 0x58, 0x57, 0x52, 0x41, 0x50]

/-- `SUB32`. -/
def sub32 : Name := [0x53, 0x55, 0x42, 0x33, 0x32]

/-- `SUB32.DLL`. -/
def sub32Dll : Name := sub32 ++ [0x2e, 0x44, 0x4c, 0x4c]

/-- `.dll`. -/
def dll : Name := [0x2e, 0x64, 0x6c, 0x6c]

/-- The name that a module is registered under. -/
def recordName (mname : Name) : Name :=
  if Stricmp mname sub32 then emxwrap else mname

namespace Stricmp

@[refl] theorem refl (s : Name) : Stricmp s s := rfl

theorem symm {s t : Name} (same : Stricmp s t) : Stricmp t s := Eq.symm same

theorem trans {s t u : Name} (first : Stricmp s t) (second : Stricmp t u) :
    Stricmp s u := Eq.trans first second

end Stricmp

theorem getFname_append_dll (name : Name) : getFname (name ++ dll) = name := by
  have dot : (0x2e : UInt8) ∈ name ++ dll := List.mem_append_right name (by decide)
  have reversed : (name ++ dll).reverse = [0x6c, 0x6c, 0x64] ++ (0x2e :: name.reverse) := by
    rw [List.reverse_append]
    rfl
  unfold getFname
  rw [if_pos dot, reversed]
  simp

theorem getFname_of_no_dot {name : Name} (plain : 0x2e ∉ name) :
    getFname name = name := if_neg plain

theorem getFname_sub32Dll : getFname sub32Dll = sub32 := by decide

theorem recordName_of_not_sub32 {mname : Name}
    (other : ¬ Stricmp mname sub32) : recordName mname = mname :=
  if_neg other

theorem recordName_sub32 {mname : Name} (same : Stricmp mname sub32) :
    recordName mname = emxwrap := if_pos same

/-!
## The list of modules

The records of `modmgr.c`.  The next chain has a record for each name, and the
up chain of such a record has a record for each further instance of an
executable.
-/

open Machine

/-- The status of a record. -/
inductive LoadStatus where
  | loading
  | doneLoading
  deriving DecidableEq

/-- A record: its own address, the name, the address of the module, the number
of the instance and the status. -/
structure ModuleRec where
  address : Nat
  modName : Name
  moduleStruct : Nat
  inst : Int
  loadStatus : LoadStatus
  deriving DecidableEq

/-- A record of the next chain with the records of its up chain. -/
structure ModuleSlot where
  first : ModuleRec
  up : List ModuleRec
  deriving DecidableEq

namespace ModuleSlot

variable (slot : ModuleSlot)

/-- The record and those of the further instances. -/
def records : List ModuleRec := slot.first :: slot.up

/-- The last instance. -/
def last : ModuleRec := slot.up.getLastD slot.first

/-- Change the records. -/
def mapRecords (f : ModuleRec → ModuleRec) : ModuleSlot :=
  { first := f slot.first, up := slot.up.map f }

end ModuleSlot

/-- What `getrec` returns: a record, that it is being loaded (`-1`), or that
there is none (`1`). -/
inductive Getrec where
  | found (prev : ModuleSlot)
  | loading
  | absent
  deriving DecidableEq

/-- The record of the next chain with a name. -/
def getrec (mname : Name) : List ModuleSlot → Getrec
  | [] => .absent
  | prev :: next =>
    if Stricmp mname prev.first.modName then
      if prev.first.loadStatus = .loading then .loading else .found prev
    else getrec mname next

/-- The record of the next chain with an address. -/
def getrec2 (hmod : Nat) : List ModuleSlot → Getrec
  | [] => .absent
  | prev :: next =>
    if hmod = prev.first.address then
      if prev.first.loadStatus = .loading then .loading else .found prev
    else getrec2 hmod next

/-- Link a record behind the last instance of the record at an address. -/
def linkUp (address : Nat) (newMod : ModuleRec) (chain : List ModuleSlot) :
    List ModuleSlot :=
  chain.map fun slot =>
    if slot.first.address = address then { slot with up := slot.up ++ [newMod] }
    else slot

/-- Store the status of the record at an address. -/
def setLoadStatus (address : Nat) (loadStatus : LoadStatus)
    (chain : List ModuleSlot) : List ModuleSlot :=
  chain.map fun slot => slot.mapRecords fun record =>
    if record.address = address then { record with loadStatus } else record

/-- Register a module.  A further instance of an executable goes to the end of
the up chain, everything else to the end of the next chain. -/
def modRegister (newMod : Nat) (name : Name) (modStruct : Nat)
    (exeflag : Bool) (chain : List ModuleSlot) : Run (List ModuleSlot) :=
  match getrec name chain, exeflag with
  | .found prev, true => do
      let n ← addInt prev.last.inst 1
      pure (linkUp prev.first.address
        { address := newMod, modName := name, moduleStruct := modStruct
          inst := n, loadStatus := .doneLoading } chain)
  | _, _ => pure (chain ++
      [{ first :=
          { address := newMod, modName := name, moduleStruct := modStruct
            inst := 0, loadStatus := .doneLoading }
         up := [] }])

variable {slot : ModuleSlot}

theorem ModuleSlot.mapRecords_eq_self {f : ModuleRec → ModuleRec}
    (keeps : ∀ record ∈ slot.records, f record = record) :
    slot.mapRecords f = slot := by
  have first := keeps slot.first (List.mem_cons_self ..)
  have up : slot.up.map f = slot.up := by
    conv_rhs => rw [← List.map_id slot.up]
    apply List.map_congr_left
    intro record here
    exact keeps record (List.mem_cons_of_mem _ here)
  unfold mapRecords
  rw [first, up]

variable {mname : Name} {chain : List ModuleSlot}

theorem getrec_congr {other : Name} (same : Stricmp mname other) :
    getrec mname chain = getrec other chain := by
  induction chain with
  | nil => rfl
  | cons slot chain ih =>
    have agree : Stricmp mname slot.first.modName ↔
        Stricmp other slot.first.modName :=
      ⟨fun found => same.symm.trans found, fun found => same.trans found⟩
    unfold getrec
    simp only [agree, ih]

theorem getrec_eq_found (found : getrec mname chain = .found slot) :
    slot ∈ chain ∧ Stricmp mname slot.first.modName ∧
      slot.first.loadStatus = .doneLoading := by
  induction chain with
  | nil => cases found
  | cons first chain ih =>
    unfold getrec at found
    split at found
    · rename_i same
      split at found
      · cases found
      · rename_i done
        cases found
        refine ⟨List.mem_cons_self .., same, ?_⟩
        cases status : slot.first.loadStatus with
        | loading => exact absurd status done
        | doneLoading => rfl
    · obtain ⟨member, rest⟩ := ih found
      exact ⟨List.mem_cons_of_mem first member, rest⟩

theorem getrec_eq_loading (loading : getrec mname chain = .loading) :
    ∃ slot ∈ chain, Stricmp mname slot.first.modName ∧
      slot.first.loadStatus = .loading := by
  induction chain with
  | nil => cases loading
  | cons first chain ih =>
    unfold getrec at loading
    split at loading
    · rename_i same
      split at loading
      · rename_i status
        exact ⟨first, List.mem_cons_self .., same, status⟩
      · cases loading
    · obtain ⟨slot, member, rest⟩ := ih loading
      exact ⟨slot, List.mem_cons_of_mem first member, rest⟩

theorem getrec_eq_absent_iff : getrec mname chain = .absent ↔
      ∀ slot ∈ chain, ¬ Stricmp mname slot.first.modName := by
  induction chain with
  | nil => simp [getrec]
  | cons first chain ih =>
    rw [List.forall_mem_cons, ← ih, getrec]
    by_cases same : Stricmp mname first.first.modName
    · by_cases status : first.first.loadStatus = .loading
      · simp [same, status]
      · simp [same, status]
    · simp [same]

/-- The first record of the next chain with a name, whatever its status. -/
def named (mname : Name) (chain : List ModuleSlot) : Option ModuleSlot :=
  chain.find? fun slot => Stricmp mname slot.first.modName

theorem named_eq_some (first : named mname chain = some slot) :
    slot ∈ chain ∧ Stricmp mname slot.first.modName := by
  have same := List.find?_some first
  simp only [decide_eq_true_eq] at same
  exact ⟨List.mem_of_find?_eq_some first, same⟩

theorem named_congr {other : Name} (same : Stricmp mname other) :
    named mname chain = named other chain := by
  unfold named
  congr 1
  ext slot
  rw [decide_eq_decide]
  exact ⟨fun found => same.symm.trans found, fun found => same.trans found⟩

theorem getrec_eq_named : getrec mname chain =
      match named mname chain with
      | some slot =>
        if slot.first.loadStatus = .loading then .loading else .found slot
      | none => .absent := by
  induction chain with
  | nil => rfl
  | cons slot chain ih =>
    unfold getrec named
    rw [List.find?_cons]
    by_cases same : Stricmp mname slot.first.modName
    · simp only [same, decide_true, if_true]
    · simp only [same, decide_false, if_false]
      exact ih

theorem getrec_eq_found_iff : getrec mname chain = .found slot ↔ named mname chain = some slot ∧
        slot.first.loadStatus = .doneLoading := by
  rw [getrec_eq_named]
  cases named mname chain with
  | none => simp
  | some other =>
    cases status : other.first.loadStatus with
    | loading =>
      simp only [if_true, reduceCtorEq, Option.some.injEq, status, false_iff]
      rintro ⟨rfl, done⟩
      rw [status] at done
      cases done
    | doneLoading =>
      simp only [reduceCtorEq, if_false, Getrec.found.injEq,
        Option.some.injEq, status, iff_self_and]
      rintro rfl
      exact status

theorem getrec_eq_absent_iff_named :
    getrec mname chain = .absent ↔ named mname chain = none := by
  rw [getrec_eq_named]
  cases named mname chain with
  | none => simp
  | some other =>
    simp only [reduceCtorEq, iff_false]
    split
    · exact Getrec.noConfusion
    · exact Getrec.noConfusion

theorem named_append_of_some (behind : List ModuleSlot) (first : named mname chain = some slot) :
    named mname (chain ++ behind) = some slot := by
  unfold named at first ⊢
  rw [List.find?_append, first]
  rfl

theorem named_append_of_none (behind : List ModuleSlot) (none : named mname chain = none) :
    named mname (chain ++ behind) = named mname behind := by
  unfold named at none ⊢
  rw [List.find?_append, none]
  rfl

theorem named_map {change : ModuleSlot → ModuleSlot}
    (keeps : ∀ slot, (change slot).first.modName = slot.first.modName) :
    named mname (chain.map change) = (named mname chain).map change := by
  unfold named
  rw [List.find?_map]
  congr 2
  ext slot
  simp only [Function.comp_apply, keeps]

theorem getrec2_eq_found {hmod : Nat} (found : getrec2 hmod chain = .found slot) :
    slot ∈ chain ∧ hmod = slot.first.address := by
  induction chain with
  | nil => cases found
  | cons first chain ih =>
    unfold getrec2 at found
    split at found
    · rename_i same
      split at found
      · cases found
      · cases found
        exact ⟨List.mem_cons_self .., same⟩
    · obtain ⟨member, same⟩ := ih found
      exact ⟨List.mem_cons_of_mem first member, same⟩

end OsFree.Modmgr
