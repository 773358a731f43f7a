import Mathlib.Data.List.Nodup
import OsFree.Machine.Arena

/-!
# The variables of the boot loader

A variable is a name and a value, which are strings in one store.  A value is
copied there or only pointed at, and one that is long enough is written over.
-/

namespace OsFree.Loader

open Machine

def VARIABLES_MAX : Nat := 30

def VARIABLE_STORE_SIZE : Nat := 1024

/-- A variable that has a name, with the places of its name and of its value. -/
structure Variable where
  name : Nat
  value : Option Nat
  deriving DecidableEq

/-- The store, and the entries of the list that have a name; they come first. -/
structure Variables where
  store : Arena
  list : List Variable
  deriving DecidableEq

/-- ' ', '(' and ')' -/
def blank : UInt8 := 0x20
def openParen : UInt8 := 0x28
def closeParen : UInt8 := 0x29

/-- A name that a new variable can have. -/
def IsName (name : List UInt8) : Prop := ∀ c ∈ name, c ≠ openParen ∧ c ≠ closeParen ∧ c ≠ blank

instance (name : List UInt8) : Decidable (IsName name) :=
  List.decidableBAll (fun c => c ≠ openParen ∧ c ≠ closeParen ∧ c ≠ blank) name

namespace Variables

variable (vars : Variables)

/-- Nothing is set. -/
def initial : Variables where
  store := ⟨List.replicate VARIABLE_STORE_SIZE 0, 0⟩
  list := []

/-- Compare a name with those of the list from an index on. -/
def getIndexLoop (store : Arena) (var : List UInt8) : List Variable → Nat → Run (Option Nat)
  | [], _ => .ok none
  | entry :: rest, i => do
      let name ← store.stringAt entry.name
      if name = var then return some i else getIndexLoop store var rest (i + 1)

def varGetIndex (var : List UInt8) : Run (Option Nat) :=
  if var = [] then .ok none
  else getIndexLoop vars.store var vars.list 0

/-- The place of the value, which is null where there is none. -/
def varGet (var : List UInt8) : Run (Option Nat) := do
  match ← vars.varGetIndex var with
  | none => return none
  | some i => return (vars.list[i]?).bind Variable.value

/-- The variables with the value of one at another place. -/
def setValue (i value : Nat) : Variables := { vars with
    list := vars.list.modify i fun entry => { entry with value := some value } }

/-- Store a string in new memory, if there is enough. -/
def keep (text : List UInt8) : Run (Option (Nat × Variables)) :=
  match vars.store.alloc (text.length + 1) with
  | none => .ok none
  | some (a, store) => do
      let store ← store.copyTo a text
      return some (a, { vars with store })

/-- A new variable without a value, if there is room for it. -/
def addName (name : List UInt8) : Run (Option Variables) :=
  if ¬ IsName name then .ok none
  else if vars.list.length = VARIABLES_MAX then .ok none
  else do
    match ← vars.keep name with
    | none => return none
    | some (a, vars) =>
      return some { vars with list := vars.list ++ [⟨a, none⟩] }

/-- Let a variable have the value at some place, which is none before the store.
It is told whether this has been done. -/
def varSetNoCopy (name : List UInt8) (val : Option Nat) : Run (Bool × Variables) :=
  match val with
  | none => .ok (false, vars)
  | some val =>
    if VARIABLE_STORE_SIZE ≤ val then .ok (false, vars)
    else do
      match ← vars.varGetIndex name with
      | some i => return (true, vars.setValue i val)
      | none =>
        match ← vars.addName name with
        | none => return (false, vars)
        | some added => return (true, added.setValue vars.list.length val)

/-- Let a variable have a value, which has been expanded if that was wanted.  It
is told whether this has been done. -/
def varSet (name value : List UInt8) : Run (Bool × Variables) := do
  match ← vars.varGetIndex name with
  | none =>
    match ← vars.addName name with
    | none => return (false, vars)
    | some added =>
      -- The name stays if there is no room for the value.
      match ← added.keep value with
      | none => return (false, added)
      | some (a, kept) => return (true, kept.setValue vars.list.length a)
  | some i =>
    match (vars.list[i]?).bind Variable.value with
    | none => .error .nullPointer
    | some place => do
        let old ← vars.store.stringAt place
        if value.length ≤ old.length then
          let store ← vars.store.copyTo place value
          return (true, { vars with store })
        else
          match ← vars.keep value with
          | none => return (false, vars)
          | some (a, kept) => return (true, kept.setValue i a)

end Variables

/-!
## Variables in their store

The names and the values stand in the store.  Taking memory for another string
keeps them.
-/

namespace Variables

/-- The names in the order of the list. -/
def names (vars : Variables) : List (List UInt8) :=
  vars.list.map fun var => vars.store.textAt var.name

/-- What is free in the store. -/
def room (vars : Variables) : Nat := VARIABLE_STORE_SIZE - vars.store.top

/-- Each variable has a name of its own and a value, which stand in the store. -/
structure Sound (vars : Variables) : Prop where
  size : vars.store.bytes.length = VARIABLE_STORE_SIZE
  top_le : vars.store.top ≤ VARIABLE_STORE_SIZE
  few : vars.list.length ≤ VARIABLES_MAX
  named : ∀ var ∈ vars.list, vars.store.Stands var.name
  valued : ∀ var ∈ vars.list, ∃ place, var.value = some place ∧ vars.store.Stands place
  distinct : vars.names.Nodup
  nonempty : [] ∉ vars.names

/-- What stands in the store of some variables stands in that of others. -/
def Keeps (vars vars' : Variables) : Prop := ∀ place, vars.store.Stands place →
    vars'.store.Stands place ∧ vars'.store.textAt place = vars.store.textAt place

theorem initial_sound : initial.Sound where
  size := List.length_replicate
  top_le := Nat.zero_le _
  few := Nat.zero_le _
  named := fun _ member => absurd member List.not_mem_nil
  valued := fun _ member => absurd member List.not_mem_nil
  distinct := List.nodup_nil
  nonempty := List.not_mem_nil

section

variable {vars vars' vars'' : Variables} {name text : List UInt8} {i place : Nat}

theorem Keeps.refl (vars : Variables) : vars.Keeps vars := fun _ stands => ⟨stands, rfl⟩

theorem Keeps.trans (keeps : vars.Keeps vars') (keeps' : vars'.Keeps vars'') :
    vars.Keeps vars'' := by
  intro place stands
  obtain ⟨stands', same⟩ := keeps place stands
  obtain ⟨stands'', same'⟩ := keeps' place stands'
  exact ⟨stands'', same'.trans same⟩

theorem getIndexLoop_eq {store : Arena} {list : List Variable}
    (stand : ∀ var ∈ list, store.Stands var.name) (start : Nat) :
    getIndexLoop store name list start =
      .ok (((list.map fun var => store.textAt var.name).idxOf? name).map (· + start)) := by
  induction list generalizing start with
  | nil => rfl
  | cons entry list ih =>
    have others := ih (fun var member => stand var (List.mem_cons_of_mem _ member)) (start + 1)
    simp only [getIndexLoop, (stand entry List.mem_cons_self).stringAt, bind_ok,
      List.map_cons, List.idxOf?_cons]
    by_cases same : store.textAt entry.name = name
    · simp [same]
    · simp only [if_neg same, others, beq_iff_eq]
      simp [Option.map_map, Function.comp_def, Nat.add_assoc, Nat.add_comm 1]

theorem Sound.varGetIndex (sound : vars.Sound) :
    vars.varGetIndex name = .ok (vars.names.idxOf? name) := by
  unfold Variables.varGetIndex
  by_cases empty : name = []
  · subst empty
    rw [if_pos rfl, List.idxOf?_eq_none_iff.mpr sound.nonempty]
  · rw [if_neg empty, getIndexLoop_eq sound.named]
    simp [names]

theorem names_getElem? : vars.names[i]? =
    (vars.list[i]?).map fun var => vars.store.textAt var.name :=
  List.getElem?_map

theorem length_names : vars.names.length = vars.list.length := List.length_map _

theorem Sound.idxOf?_eq_some_iff (sound : vars.Sound) :
    vars.names.idxOf? name = some i ↔ vars.names[i]? = some name := by
  constructor
  · intro found
    obtain ⟨within, same, -⟩ := List.idxOf?_eq_some_iff.mp found
    rw [List.getElem?_eq_getElem within]
    exact congrArg some (by simpa using same)
  · intro found
    obtain ⟨within, same⟩ := List.getElem?_eq_some_iff.mp found
    refine List.idxOf?_eq_some_iff.mpr ⟨within, by simpa using same, ?_⟩
    intro j before
    have different : vars.names[j] ≠ name := by
      intro same'
      have equal := sound.distinct.getElem_inj_iff.mp (same'.trans same.symm)
      omega
    simpa using different

theorem Sound.idxOf?_lt (sound : vars.Sound) (found : vars.names.idxOf? name = some i) :
    i < vars.list.length := by
  obtain ⟨within, -⟩ := List.getElem?_eq_some_iff.mp (sound.idxOf?_eq_some_iff.mp found)
  rwa [length_names] at within

/-- The variables with a string in new memory. -/
def kept (vars : Variables) (text : List UInt8) : Variables :=
  { vars with store := vars.store.placed text }

@[simp] theorem kept_list : (vars.kept text).list = vars.list := rfl

@[simp] theorem kept_top : (vars.kept text).store.top = vars.store.top + (text.length + 1) :=
  rfl

/-- There is room for a string and its terminator. -/
def HasRoom (vars : Variables) (text : List UInt8) : Prop :=
  vars.store.top + text.length + 1 ≤ VARIABLE_STORE_SIZE

instance (vars : Variables) (text : List UInt8) : Decidable (vars.HasRoom text) :=
  inferInstanceAs (Decidable (_ ≤ _))

theorem keep_of_room (size : vars.store.bytes.length = VARIABLE_STORE_SIZE)
    (fits : vars.HasRoom text) :
    vars.keep text = .ok (some (vars.store.top, vars.kept text)) := by
  have within : vars.store.top + (text.length + 1) ≤ vars.store.bytes.length := by
    rw [size]
    exact fits
  have copied := @Arena.copyTo_of_fits (vars.store.take (text.length + 1))
    vars.store.top text within
  rw [keep, Arena.alloc_of_fits (Nat.succ_ne_zero _) within]
  simp only [Nat.succ_eq_add_one, copied, bind_ok]
  rfl

theorem keep_of_full (size : vars.store.bytes.length = VARIABLE_STORE_SIZE)
    (full : ¬ vars.HasRoom text) : vars.keep text = .ok none := by
  rw [keep, Arena.alloc_of_full]
  rw [size]
  exact Nat.not_le.mp full

section

variable (size : vars.store.bytes.length = VARIABLE_STORE_SIZE) (fits : vars.HasRoom text)
include size fits

theorem keeps_kept : vars.Keeps (vars.kept text) := by
  intro place stands
  exact stands.placed (size ▸ fits)

theorem kept_self (nonzero : 0 ∉ text) : (vars.kept text).store.Stands vars.store.top ∧
      (vars.kept text).store.textAt vars.store.top = text :=
  Arena.placed_self (size ▸ fits) nonzero

theorem kept_size : (vars.kept text).store.bytes.length = VARIABLE_STORE_SIZE :=
  (Arena.placed_length (size ▸ fits)).trans size

end

theorem Keeps.names (keeps : vars.Keeps vars')
    (same : vars'.list.map Variable.name = vars.list.map Variable.name)
    (named : ∀ var ∈ vars.list, vars.store.Stands var.name) :
    vars'.names = vars.names := by
  have through : ∀ vars : Variables, vars.names =
      (vars.list.map Variable.name).map vars.store.textAt := by
    intro vars
    simp [Variables.names, Function.comp_def]
  rw [through, through, same, List.map_map, List.map_map]
  refine List.map_congr_left ?_
  intro var member
  exact (keeps var.name (named var member)).2

theorem Sound.of_keeps (sound : vars.Sound) (keeps : vars.Keeps vars')
    (same : vars'.list.map Variable.name = vars.list.map Variable.name)
    (size : vars'.store.bytes.length = VARIABLE_STORE_SIZE)
    (top_le : vars'.store.top ≤ VARIABLE_STORE_SIZE)
    (valued : ∀ var ∈ vars'.list, ∃ place, var.value = some place ∧
      vars'.store.Stands place) : vars'.Sound where
  size := size
  top_le := top_le
  few := by
    have lengths := congrArg List.length same
    simp only [List.length_map] at lengths
    rw [lengths]
    exact sound.few
  named := by
    intro var member
    have among : var.name ∈ vars.list.map Variable.name := by
      rw [← same]
      exact List.mem_map_of_mem member
    obtain ⟨old, member', equal⟩ := List.mem_map.mp among
    rw [← equal]
    exact (keeps old.name (sound.named old member')).1
  valued := valued
  distinct := by
    rw [keeps.names same sound.named]
    exact sound.distinct
  nonempty := by
    rw [keeps.names same sound.named]
    exact sound.nonempty

theorem Sound.kept (sound : vars.Sound) (fits : vars.HasRoom text) :
    (vars.kept text).Sound := by
  have keeps := @keeps_kept vars text sound.size fits
  refine sound.of_keeps keeps rfl (kept_size sound.size fits) fits ?_
  intro var member
  obtain ⟨place, value, stands⟩ := sound.valued var member
  exact ⟨place, value, (keeps place stands).1⟩

theorem Sound.names_kept (sound : vars.Sound) (fits : vars.HasRoom text) :
    (vars.kept text).names = vars.names :=
  (keeps_kept sound.size fits).names rfl sound.named

theorem setValue_names : (vars.setValue i place).list.map Variable.name =
    vars.list.map Variable.name := by
  ext1 j
  simp only [setValue, List.getElem?_map, List.getElem?_modify, Option.map_eq_map, Option.map_map]
  apply Option.map_congr
  intro var _
  by_cases same : i = j
  · simp [same]
  · simp [same]

theorem setValue_getElem? {j : Nat} : (vars.setValue i place).list[j]? =
    (vars.list[j]?).map fun var => if i = j then { var with value := some place } else var :=
  List.getElem?_modify _ _ _ _

theorem keeps_setValue : vars.Keeps (vars.setValue i place) := fun _ stands => ⟨stands, rfl⟩

theorem Sound.setValue (sound : vars.Sound) (stands : vars.store.Stands place) :
    (vars.setValue i place).Sound := by
  refine sound.of_keeps keeps_setValue setValue_names sound.size sound.top_le ?_
  intro var member
  obtain ⟨j, found⟩ := List.mem_iff_getElem?.mp member
  rw [setValue_getElem?] at found
  obtain ⟨old, oldFound, rfl⟩ := Option.map_eq_some_iff.mp found
  by_cases same : i = j
  · exact ⟨place, by simp [same], stands⟩
  · obtain ⟨place', value, stands'⟩ := sound.valued old (List.mem_of_getElem? oldFound)
    exact ⟨place', by simp [same, value], stands'⟩

theorem Sound.names_setValue (sound : vars.Sound) :
    (vars.setValue i place).names = vars.names :=
  keeps_setValue.names setValue_names sound.named

/-- There is room for a new variable. -/
def CanAdd (vars : Variables) (name : List UInt8) : Prop :=
  IsName name ∧ vars.list.length < VARIABLES_MAX ∧ vars.HasRoom name

instance (vars : Variables) (name : List UInt8) : Decidable (vars.CanAdd name) :=
  inferInstanceAs (Decidable (_ ∧ _))

/-- The variables with a new one. -/
def withNew (vars : Variables) (name : List UInt8) (value : Option Nat) : Variables where
  store := vars.store.placed name
  list := vars.list ++ [⟨vars.store.top, value⟩]

theorem addName_of_canAdd (size : vars.store.bytes.length = VARIABLE_STORE_SIZE)
    (can : vars.CanAdd name) :
    vars.addName name = .ok (some (vars.withNew name none)) := by
  obtain ⟨isName, few, fits⟩ := can
  rw [addName, if_neg (not_not.mpr isName), if_neg (Nat.ne_of_lt few), keep_of_room size fits]
  rfl

theorem addName_of_not (size : vars.store.bytes.length = VARIABLE_STORE_SIZE)
    (few : vars.list.length ≤ VARIABLES_MAX) (cannot : ¬ vars.CanAdd name) :
    vars.addName name = .ok none := by
  unfold addName
  by_cases isName : IsName name
  · rw [if_neg (not_not.mpr isName)]
    by_cases full : vars.list.length = VARIABLES_MAX
    · rw [if_pos full]
    · have noRoom : ¬ vars.HasRoom name := fun fits =>
        cannot ⟨isName, Nat.lt_of_le_of_ne few full, fits⟩
      rw [if_neg full, keep_of_full size noRoom]
      rfl
  · rw [if_pos isName]

@[simp] theorem setValue_withNew {value : Option Nat} :
    (vars.withNew name value).setValue vars.list.length place =
      vars.withNew name (some place) := by
  unfold setValue withNew
  congr 1
  rw [List.modify_eq_take_cons_drop (by simp)]
  simp

theorem keeps_withNew {value : Option Nat}
    (size : vars.store.bytes.length = VARIABLE_STORE_SIZE) (fits : vars.HasRoom name) :
    vars.Keeps (vars.withNew name value) :=
  @keeps_kept vars name size fits

theorem Sound.names_withNew {value : Option Nat} (sound : vars.Sound)
    (fits : vars.HasRoom name) (nonzero : 0 ∉ name) :
    (vars.withNew name value).names = vars.names ++ [name] := by
  have keeps := @keeps_withNew vars name value sound.size fits
  have self := (@kept_self vars name sound.size fits nonzero).2
  simp only [Variables.names, withNew, List.map_append, List.map_cons, List.map_nil]
  congr 1
  · refine List.map_congr_left ?_
    intro var member
    exact (keeps var.name (sound.named var member)).2
  · exact congrArg (fun name => [name]) self

theorem Sound.withNew (sound : vars.Sound) (can : vars.CanAdd name)
    (name_ne : name ≠ []) (nonzero : 0 ∉ name) (fresh : name ∉ vars.names)
    (stands : vars.store.Stands place) : (vars.withNew name (some place)).Sound := by
  obtain ⟨-, few, fits⟩ := can
  have keeps := @keeps_withNew vars name (some place) sound.size fits
  have self := (@kept_self vars name sound.size fits nonzero).1
  have names := @Sound.names_withNew vars name (some place) sound fits nonzero
  refine ⟨kept_size sound.size fits, fits, ?_, ?_, ?_, ?_, ?_⟩
  · simp only [Variables.withNew, List.length_append, List.length_singleton]
    exact few
  · intro var member
    rcases List.mem_append.mp member with old | new
    · exact (keeps var.name (sound.named var old)).1
    · rw [List.mem_singleton.mp new]
      exact self
  · intro var member
    rcases List.mem_append.mp member with old | new
    · obtain ⟨place', value, stands'⟩ := sound.valued var old
      exact ⟨place', value, (keeps place' stands').1⟩
    · rw [List.mem_singleton.mp new]
      exact ⟨place, rfl, (keeps place stands).1⟩
  · rw [names]
    exact List.nodup_append_comm.mp (List.nodup_cons.mpr ⟨fresh, sound.distinct⟩)
  · rw [names, List.mem_append, List.mem_singleton]
    exact not_or.mpr ⟨sound.nonempty, name_ne.symm⟩

theorem Sound.place_lt (sound : vars.Sound) (stands : vars.store.Stands place) :
    place < VARIABLE_STORE_SIZE := by
  have below := stands.1
  have top := sound.top_le
  omega

theorem Sound.varSetNoCopy (sound : vars.Sound) (within : place < VARIABLE_STORE_SIZE) :
    vars.varSetNoCopy name (some place) = .ok (match vars.names.idxOf? name with
      | some i => (true, vars.setValue i place)
      | none =>
        if vars.CanAdd name then (true, vars.withNew name (some place))
        else (false, vars)) := by
  simp only [Variables.varSetNoCopy, if_neg (Nat.not_le.mpr within), sound.varGetIndex, bind_ok]
  cases vars.names.idxOf? name with
  | some i => rfl
  | none =>
    by_cases can : vars.CanAdd name
    · simp only [addName_of_canAdd sound.size can, if_pos can, bind_ok, setValue_withNew]
      rfl
    · simp only [addName_of_not sound.size sound.few can, if_neg can, bind_ok]
      rfl

/-- The text of the value of a variable. -/
def valueAt (vars : Variables) (i : Nat) : Option (List UInt8) :=
  ((vars.list[i]?).bind Variable.value).map vars.store.textAt

/-- The text of the value of a name. -/
def valueOf (vars : Variables) (name : List UInt8) : Option (List UInt8) :=
  (vars.names.idxOf? name).bind vars.valueAt

theorem Sound.varGet (sound : vars.Sound) :
    vars.varGet name = .ok ((vars.names.idxOf? name).bind fun i =>
      (vars.list[i]?).bind Variable.value) := by
  simp only [Variables.varGet, sound.varGetIndex, bind_ok]
  cases vars.names.idxOf? name with
  | none => rfl
  | some i => rfl

theorem Sound.varGet_stands (sound : vars.Sound) : ∃ value, vars.varGet name = .ok value ∧
      vars.valueOf name = value.map vars.store.textAt ∧
      ∀ place ∈ value, vars.store.Stands place := by
  refine ⟨_, sound.varGet, ?_, ?_⟩
  · unfold Variables.valueOf valueAt
    rw [Option.map_bind]
    rfl
  · intro place member
    obtain ⟨i, -, found⟩ := Option.bind_eq_some_iff.mp member
    obtain ⟨var, at_i, value⟩ := Option.bind_eq_some_iff.mp found
    obtain ⟨place', value', stands⟩ := sound.valued var (List.mem_of_getElem? at_i)
    rw [Option.some.inj (value.symm.trans value')]
    exact stands

end

end Variables

end OsFree.Loader
