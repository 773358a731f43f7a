import OsFree.Loader.Toggles

/-!
# Blocks are stored

An assignment is stored with a value of its own, unless the value is there
already from another time.  What holds before the blocks of an argument are
stored, and is kept by each assignment, holds behind them.
-/

namespace OsFree.Loader

open Machine

namespace Variables

variable {vars : Variables} {assignment : Assignment}

/-- There is room for the value, and for the name if it is a new one. -/
def CanAssign (vars : Variables) (assignment : Assignment) : Prop :=
  vars.HasRoom assignment.value ∧ (assignment.name ∈ vars.names ∨ assignment.name ≠ [] ∧
      (vars.kept assignment.value).CanAdd assignment.name)

/-- The variables with a value of its own for an assignment. -/
def assigned (vars : Variables) (assignment : Assignment) : Variables :=
  match vars.names.idxOf? assignment.name with
  | some i => (vars.kept assignment.value).setValue i vars.store.top
  | none => (vars.kept assignment.value).withNew assignment.name (some vars.store.top)

/-- The index of the variable that gets the value. -/
def assignedIndex (vars : Variables) (assignment : Assignment) : Nat :=
  (vars.names.idxOf? assignment.name).getD vars.list.length

/-- What it means that a value of its own has been assigned. -/
structure Assigned (vars : Variables) (assignment : Assignment) (vars' : Variables) :
    Prop where
  sound : vars'.Sound
  keeps : vars.Keeps vars'
  names : vars'.names =
    if assignment.name ∈ vars.names then vars.names else vars.names ++ [assignment.name]
  index : vars'.names[vars.assignedIndex assignment]? = some assignment.name
  stands : vars'.store.Stands vars.store.top
  text : vars'.store.textAt vars.store.top = assignment.value
  others : ∀ i, i ≠ vars.assignedIndex assignment → vars'.list[i]? = vars.list[i]?
  value : ∃ name, vars'.list[vars.assignedIndex assignment]? = some ⟨name, some vars.store.top⟩

theorem Sound.assigned (sound : vars.Sound) (clean : assignment.Clean)
    (can : vars.CanAssign assignment) :
    vars.Assigned assignment (vars.assigned assignment) := by
  obtain ⟨fits, known⟩ := can
  have kept := @Sound.kept vars assignment.value sound fits
  have keeps := @keeps_kept vars assignment.value sound.size fits
  have names := @Sound.names_kept vars assignment.value sound fits
  obtain ⟨stands, text⟩ := @kept_self vars assignment.value sound.size fits clean.2
  cases found : vars.names.idxOf? assignment.name with
  | some i =>
    have index : vars.assignedIndex assignment = i := by simp [assignedIndex, found]
    have result : vars.assigned assignment =
        (vars.kept assignment.value).setValue i vars.store.top := by
      simp [Variables.assigned, found]
    have at_i := sound.idxOf?_eq_some_iff.mp found
    have member := List.mem_of_getElem? at_i
    have names' := @Sound.names_setValue (vars.kept assignment.value) i vars.store.top kept
    rw [result]
    refine ⟨kept.setValue stands, keeps.trans keeps_setValue, ?_, ?_, stands, text, ?_, ?_⟩
    · rw [if_pos member]
      exact names'.trans names
    · rw [index, names', names]
      exact at_i
    · intro j other
      rw [index] at other
      rw [setValue_getElem?, kept_list]
      simp [Ne.symm other]
    · obtain ⟨old, oldFound⟩ : ∃ old, vars.list[i]? = some old :=
        ⟨_, List.getElem?_eq_getElem (sound.idxOf?_lt found)⟩
      rw [index, setValue_getElem?, kept_list, oldFound]
      simp
  | none =>
    have index : vars.assignedIndex assignment = vars.list.length := by
      simp [assignedIndex, found]
    have result : vars.assigned assignment =
        (vars.kept assignment.value).withNew assignment.name (some vars.store.top) := by
      simp [Variables.assigned, found]
    have fresh : assignment.name ∉ vars.names := List.idxOf?_eq_none_iff.mp found
    obtain ⟨name_ne, can⟩ := known.resolve_left fresh
    have fits' : (vars.kept assignment.value).HasRoom assignment.name := can.2.2
    have names' := @Sound.names_withNew (vars.kept assignment.value) assignment.name
      (some vars.store.top) kept fits' clean.1
    have keeps' := @keeps_withNew (vars.kept assignment.value) assignment.name
      (some vars.store.top) kept.size fits'
    rw [result]
    refine ⟨kept.withNew can name_ne clean.1 (names ▸ fresh) stands,
      keeps.trans keeps', ?_, ?_, (keeps' _ stands).1,
      (keeps' _ stands).2.trans text, ?_, ?_⟩
    · rw [if_neg fresh, names', names]
    · rw [index, names', names, ← length_names]
      simp
    · intro j other
      rw [index] at other
      rcases Nat.lt_or_gt_of_ne other with before | behind
      · simp [Variables.withNew, List.getElem?_append_left before]
      · simp only [Variables.withNew, kept_list]
        rw [List.getElem?_eq_none (by simp; omega), List.getElem?_eq_none (Nat.le_of_lt behind)]
    · rw [index]
      exact ⟨vars.store.top + (assignment.value.length + 1), by simp [Variables.withNew]⟩

end Variables

/-- The index of a variable, and the text of a value. -/
structure Held where
  var : Option Nat
  value : List UInt8
  deriving DecidableEq

namespace Commands

section

variable {commands : Commands} {slot slot' bl bl' : Nat} {f : Block → Block}

theorem changeBlock_blocks : ((commands.changeBlock slot bl f).slots slot').blocks bl' =
    if slot' = slot ∧ bl' = bl then f ((commands.slots slot').blocks bl')
    else (commands.slots slot').blocks bl' := by
  by_cases same : slot' = slot
  · subst same
    by_cases same' : bl' = bl
    · subst same'
      simp [changeBlock]
    · simp [changeBlock, same']
  · simp [changeBlock, same]

theorem changeBlock_key :
    ((commands.changeBlock slot bl f).slots slot').key = (commands.slots slot').key := by
  by_cases same : slot' = slot
  · subst same
    simp [changeBlock]
  · simp [changeBlock, same]

theorem changeBlock_currentBlock : ((commands.changeBlock slot bl f).slots slot').currentBlock =
    (commands.slots slot').currentBlock := by
  by_cases same : slot' = slot
  · subst same
    simp [changeBlock]
  · simp [changeBlock, same]

theorem changeBlock_nrBlocks : ((commands.changeBlock slot bl f).slots slot').nrBlocks =
    (commands.slots slot').nrBlocks := by
  by_cases same : slot' = slot
  · subst same
    simp [changeBlock]
  · simp [changeBlock, same]

@[simp] theorem changeBlock_vars : (commands.changeBlock slot bl f).vars = commands.vars :=
  rfl

@[simp] theorem changeBlock_togglesUsed :
    (commands.changeBlock slot bl f).togglesUsed = commands.togglesUsed := rfl

end

variable (commands : Commands) (slot : Nat) (item : Item)

/-- What an entry holds, if it has a value. -/
def held (bl var : Nat) : Option Held := (commands.entry slot bl var).value.map fun place =>
    ⟨(commands.entry slot bl var).var, commands.vars.store.textAt place⟩

/-- The value is held for a variable that is known. -/
def Reused : Prop :=
  (commands.held slot item.bl item.var).map Held.value = some item.assignment.value ∧
    item.assignment.name ∈ commands.vars.names

instance : Decidable (commands.Reused slot item) := inferInstanceAs (Decidable (_ ∧ _))

/-- The values of the entries stand in the store. -/
def EntriesStand : Prop := ∀ slot bl var place, (commands.entry slot bl var).value = some place →
    commands.vars.store.Stands place

/-- The commands with an assignment stored. -/
def stored : Commands :=
  if commands.Reused slot item then
    commands.changeBlock slot item.bl (·.grow (item.var + 1))
  else
    { commands with vars := commands.vars.assigned item.assignment }.changeBlock slot
      item.bl fun block =>
        (block.enter item.var ⟨some (commands.vars.assignedIndex item.assignment),
          some commands.vars.store.top⟩).grow (item.var + 1)

variable {commands slot item}

theorem reuses_eq (sound : commands.vars.Sound) (stand : commands.EntriesStand) :
    commands.reuses (commands.entry slot item.bl item.var) item.assignment =
      .ok (decide (commands.Reused slot item)) := by
  suffices told : ∃ told, commands.reuses (commands.entry slot item.bl item.var)
      item.assignment = .ok told ∧ (told = true ↔ commands.Reused slot item) by
    obtain ⟨told, equal, reused⟩ := told
    rw [equal, ← Bool.eq_iff_iff.mpr (reused.trans decide_eq_true_iff.symm)]
  unfold reuses Reused held
  cases value : (commands.entry slot item.bl item.var).value with
  | none => exact ⟨false, rfl, by simp⟩
  | some place =>
    have stands := stand slot item.bl item.var place value
    simp only [sound.varGetIndex, bind_ok]
    cases found : commands.vars.names.idxOf? item.assignment.name with
    | none =>
      have unknown := List.idxOf?_eq_none_iff.mp found
      exact ⟨false, rfl, by simp [unknown]⟩
    | some i =>
      have known := List.mem_of_getElem? (sound.idxOf?_eq_some_iff.mp found)
      simp only [stands.stringAt, bind_ok]
      exact ⟨_, rfl, by simp [known]⟩

section

variable (sound : commands.vars.Sound) (stand : commands.EntriesStand)
include sound stand

theorem processVar_of_reused (reused : commands.Reused slot item) :
    commands.processVar slot item.bl item.var (some item.assignment) =
      .ok (true, commands.stored slot item) := by
  simp only [processVar, reuses_eq sound stand, bind_ok, reused, decide_true, if_true, stored]
  rfl

theorem processVar_of_full (new : ¬ commands.Reused slot item)
    (full : ¬ commands.vars.HasRoom item.assignment.value) :
    commands.processVar slot item.bl item.var (some item.assignment) =
      .ok (false, commands) := by
  simp only [processVar, reuses_eq sound stand, bind_ok, new, decide_false,
    Bool.false_eq_true, if_false, Variables.keep_of_full sound.size full]
  rfl

theorem processVar_of_canAssign (clean : item.assignment.Clean)
    (new : ¬ commands.Reused slot item) (can : commands.vars.CanAssign item.assignment) :
    commands.processVar slot item.bl item.var (some item.assignment) =
      .ok (true, commands.stored slot item) := by
  have fits := can.1
  have kept := @Variables.Sound.kept _ item.assignment.value sound fits
  have names := @Variables.Sound.names_kept _ item.assignment.value sound fits
  have within := kept.place_lt (Variables.kept_self sound.size fits clean.2).1
  have assigned := sound.assigned clean can
  have index : (commands.vars.assigned item.assignment).varGetIndex item.assignment.name =
      .ok (some (commands.vars.assignedIndex item.assignment)) := by
    rw [assigned.sound.varGetIndex, assigned.sound.idxOf?_eq_some_iff.mpr assigned.index]
  have set : (commands.vars.kept item.assignment.value).varSetNoCopy item.assignment.name
      (some commands.vars.store.top) =
      .ok (true, commands.vars.assigned item.assignment) := by
    rw [kept.varSetNoCopy within, names, Variables.assigned]
    cases found : commands.vars.names.idxOf? item.assignment.name with
    | some i => rfl
    | none =>
      have fresh := List.idxOf?_eq_none_iff.mp found
      simp only [if_pos (can.2.resolve_left fresh).2]
  simp only [processVar, reuses_eq sound stand, bind_ok, new, decide_false,
    Bool.false_eq_true, if_false, Variables.keep_of_room sound.size fits, set, index, stored]
  rfl

theorem processVar_of_not_canAdd (new : ¬ commands.Reused slot item)
    (fits : commands.vars.HasRoom item.assignment.value)
    (fresh : item.assignment.name ∉ commands.vars.names)
    (cannot : ¬ (commands.vars.kept item.assignment.value).CanAdd item.assignment.name)
    (clean : item.assignment.Clean) :
    commands.processVar slot item.bl item.var (some item.assignment) = .ok (false,
      { commands with vars := commands.vars.kept item.assignment.value }.changeBlock slot
        item.bl (·.enter item.var
          ⟨none, (commands.entry slot item.bl item.var).value⟩)) := by
  have kept := @Variables.Sound.kept _ item.assignment.value sound fits
  have names := @Variables.Sound.names_kept _ item.assignment.value sound fits
  have within := kept.place_lt (Variables.kept_self sound.size fits clean.2).1
  have unknown := List.idxOf?_eq_none_iff.mpr fresh
  have set : (commands.vars.kept item.assignment.value).varSetNoCopy item.assignment.name
      (some commands.vars.store.top) =
      .ok (false, commands.vars.kept item.assignment.value) := by
    rw [kept.varSetNoCopy within, names, unknown]
    simp only [if_neg cannot]
  have index : (commands.vars.kept item.assignment.value).varGetIndex item.assignment.name =
      .ok none := by
    rw [kept.varGetIndex, names, unknown]
  simp only [processVar, reuses_eq sound stand, bind_ok, new, decide_false,
    Bool.false_eq_true, if_false, Variables.keep_of_room sound.size fits, set, index]
  rfl

end

end Commands

/-!
## The assignments of blocks are stored

Each assignment is stored if there is room for it.  What is kept by one of them
is kept by all, and how much room they need is known before.
-/

namespace Variables

/-- What an entry assigns. -/
def assignmentOf (vars : Variables) (entry : Entry) : Option Assignment := do
  let i ← entry.var
  let place ← entry.value
  let name ← vars.names[i]?
  return ⟨name, vars.store.textAt place⟩

/-- Strings are kept, and names are only added. -/
structure Grows (vars vars' : Variables) : Prop where
  keeps : vars.Keeps vars'
  names : vars.names <+: vars'.names

variable {vars vars' vars'' : Variables} {entry : Entry} {assignment : Assignment}
  {i place : Nat} {name : List UInt8}

theorem Grows.refl (vars : Variables) : vars.Grows vars := ⟨.refl vars, List.prefix_refl _⟩

theorem Keeps.grows (keeps : vars.Keeps vars') (names : vars'.names = vars.names) :
    vars.Grows vars' :=
  ⟨keeps, [], (List.append_nil _).trans names.symm⟩

theorem Grows.trans (grows : vars.Grows vars') (grows' : vars'.Grows vars'') :
    vars.Grows vars'' :=
  ⟨grows.keeps.trans grows'.keeps, grows.names.trans grows'.names⟩

theorem Grows.names_getElem? (grows : vars.Grows vars')
    (found : vars.names[i]? = some name) : vars'.names[i]? = some name := by
  obtain ⟨added, equal⟩ := grows.names
  obtain ⟨within, -⟩ := List.getElem?_eq_some_iff.mp found
  rw [← equal, List.getElem?_append_left within]
  exact found

theorem assignmentOf_eq_some_iff : vars.assignmentOf entry = some assignment ↔
    ∃ i place, entry = ⟨some i, some place⟩ ∧ vars.names[i]? = some assignment.name ∧
      vars.store.textAt place = assignment.value := by
  obtain ⟨var, value⟩ := entry
  obtain ⟨name, text⟩ := assignment
  simp only [assignmentOf, bind, Option.bind_eq_some_iff, pure, Option.some.injEq,
    Assignment.mk.injEq, Entry.mk.injEq]
  constructor
  · rintro ⟨i, rfl, place, rfl, name', found, rfl, rfl⟩
    exact ⟨i, place, ⟨rfl, rfl⟩, found, rfl⟩
  · rintro ⟨i, place, ⟨rfl, rfl⟩, found, rfl⟩
    exact ⟨i, rfl, place, rfl, name, found, rfl, rfl⟩

theorem Grows.assignmentOf (grows : vars.Grows vars')
    (stands : ∀ place, entry.value = some place → vars.store.Stands place)
    (assigns : vars.assignmentOf entry = some assignment) :
    vars'.assignmentOf entry = some assignment := by
  obtain ⟨i, place, rfl, found, text⟩ := assignmentOf_eq_some_iff.mp assigns
  refine assignmentOf_eq_some_iff.mpr ⟨i, place, rfl, grows.names_getElem? found, ?_⟩
  rw [(grows.keeps place (stands place rfl)).2, text]

theorem Assigned.grows (assigned : vars.Assigned assignment vars') : vars.Grows vars' := by
  refine ⟨assigned.keeps, ?_⟩
  rw [assigned.names]
  split_ifs
  · exact List.prefix_refl _
  · exact List.prefix_append _ _

theorem Assigned.assignmentOf (assigned : vars.Assigned assignment vars') :
    vars'.assignmentOf ⟨some (vars.assignedIndex assignment), some vars.store.top⟩ =
      some assignment :=
  assignmentOf_eq_some_iff.mpr ⟨_, _, rfl, assigned.index, assigned.text⟩

end Variables

namespace Commands

/-- The variables are sound, and entries with values are of variables that are
there. -/
structure Inv (commands : Commands) : Prop where
  sound : commands.vars.Sound
  stand : commands.EntriesStand
  known : ∀ slot bl var i place, commands.entry slot bl var = ⟨some i, some place⟩ →
    i < commands.vars.list.length

theorem Inv.congr {commands commands' : Commands} (inv : commands.Inv)
    (vars : commands'.vars = commands.vars)
    (entries : ∀ slot bl var, commands'.entry slot bl var = commands.entry slot bl var) :
    commands'.Inv := by
  constructor
  · rw [vars]
    exact inv.sound
  · intro slot bl var place value
    rw [entries] at value
    rw [vars]
    exact inv.stand slot bl var place value
  · simpa only [vars, entries] using inv.known

variable (commands : Commands) (slot : Nat) (item : Item) (items : List Item)

/-- An assignment can be stored; where its value is there already, it is for the
variable. -/
structure CanStore : Prop where
  clean : item.assignment.Clean
  right : commands.Reused slot item →
    commands.vars.assignmentOf (commands.entry slot item.bl item.var) = some item.assignment
  can : ¬ commands.Reused slot item → commands.vars.CanAssign item.assignment

/-- The commands with assignments stored. -/
def storeAll : Commands := items.foldl (fun commands item => commands.stored slot item) commands

/-- Assignments can be stored, one after the other. -/
def CanStoreAll (slot : Nat) : List Item → Commands → Prop
  | [], _ => True
  | item :: items, commands =>
    commands.CanStore slot item ∧ CanStoreAll slot items (commands.stored slot item)

variable {commands slot item items} {slot' bl var : Nat} {items' : List Item}

@[simp] theorem storeAll_nil : commands.storeAll slot [] = commands := rfl

@[simp] theorem storeAll_cons : commands.storeAll slot (item :: items) =
    (commands.stored slot item).storeAll slot items := rfl

theorem storeAll_append : commands.storeAll slot (items ++ items') =
    (commands.storeAll slot items).storeAll slot items' :=
  List.foldl_append

theorem canStoreAll_append : CanStoreAll slot (items ++ items') commands ↔
    CanStoreAll slot items commands ∧
      CanStoreAll slot items' (commands.storeAll slot items) := by
  induction items generalizing commands with
  | nil => simp [CanStoreAll]
  | cons item items ih =>
    simp [CanStoreAll, ih, and_assoc]

theorem stored_vars : (commands.stored slot item).vars =
    if commands.Reused slot item then commands.vars
    else commands.vars.assigned item.assignment := by
  unfold stored
  split_ifs <;> rfl

theorem stored_entry : (commands.stored slot item).entry slot' bl var =
    if (slot' = slot ∧ bl = item.bl ∧ var = item.var) ∧ ¬ commands.Reused slot item then
      ⟨some (commands.vars.assignedIndex item.assignment), some commands.vars.store.top⟩
    else commands.entry slot' bl var := by
  unfold stored entry
  by_cases reused : commands.Reused slot item
  · simp only [reused, if_true, not_true, and_false, if_false, changeBlock_blocks]
    split_ifs <;> rfl
  · simp only [reused, if_false, not_false_eq_true, and_true, changeBlock_blocks]
    by_cases block : slot' = slot ∧ bl = item.bl
    · obtain ⟨rfl, rfl⟩ := block
      by_cases same : var = item.var
      · subst same
        simp
      · simp [same]
    · have elsewhere : ¬ (slot' = slot ∧ bl = item.bl ∧ var = item.var) :=
        fun same => block ⟨same.1, same.2.1⟩
      rw [if_neg block, if_neg elsewhere]

theorem stored_nrVars : (((commands.stored slot item).slots slot').blocks bl).nrVars =
    if slot' = slot ∧ bl = item.bl then
      max ((commands.slots slot').blocks bl).nrVars (item.var + 1)
    else ((commands.slots slot').blocks bl).nrVars := by
  unfold stored
  split_ifs with reused same same
  all_goals simp [changeBlock_blocks, same]

@[simp] theorem stored_key :
    ((commands.stored slot item).slots slot').key = (commands.slots slot').key := by
  unfold stored
  split_ifs <;> exact changeBlock_key

@[simp] theorem stored_currentBlock : ((commands.stored slot item).slots slot').currentBlock =
    (commands.slots slot').currentBlock := by
  unfold stored
  split_ifs <;> exact changeBlock_currentBlock

@[simp] theorem stored_nrBlocks : ((commands.stored slot item).slots slot').nrBlocks =
    (commands.slots slot').nrBlocks := by
  unfold stored
  split_ifs <;> exact changeBlock_nrBlocks

@[simp] theorem stored_togglesUsed :
    (commands.stored slot item).togglesUsed = commands.togglesUsed := by
  unfold stored
  split_ifs <;> rfl

@[simp] theorem stored_prevCmd :
    (commands.stored slot item).prevCmd = commands.prevCmd := by
  unfold stored
  split_ifs <;> rfl

section

variable (inv : commands.Inv) (can : commands.CanStore slot item)
include inv can

theorem CanStore.grows : commands.vars.Grows (commands.stored slot item).vars := by
  rw [stored_vars]
  split_ifs with reused
  · exact .refl _
  · exact (inv.sound.assigned can.clean (can.can reused)).grows

theorem CanStore.holds : (commands.stored slot item).vars.assignmentOf
    ((commands.stored slot item).entry slot item.bl item.var) = some item.assignment := by
  rw [stored_vars, stored_entry]
  by_cases reused : commands.Reused slot item
  · simpa [reused] using can.right reused
  · simpa [reused] using (inv.sound.assigned can.clean (can.can reused)).assignmentOf

theorem CanStore.inv_stored : (commands.stored slot item).Inv := by
  by_cases reused : commands.Reused slot item
  · have same : ∀ slot' bl var, (commands.stored slot item).entry slot' bl var =
        commands.entry slot' bl var := by
      intro slot' bl var
      rw [stored_entry, if_neg (fun new => new.2 reused)]
    have vars : (commands.stored slot item).vars = commands.vars := by
      rw [stored_vars, if_pos reused]
    exact inv.congr vars same
  · have assigned := inv.sound.assigned can.clean (can.can reused)
    have vars : (commands.stored slot item).vars = commands.vars.assigned item.assignment := by
      rw [stored_vars, if_neg reused]
    constructor
    · rw [vars]
      exact assigned.sound
    · intro slot' bl var place value
      rw [stored_entry] at value
      rw [vars]
      split_ifs at value with new
      · cases value
        exact assigned.stands
      · exact (assigned.keeps place (inv.stand slot' bl var place value)).1
    · intro slot' bl var i place equal
      rw [stored_entry] at equal
      rw [vars, ← Variables.length_names]
      split_ifs at equal with new
      · cases equal
        exact (List.getElem?_eq_some_iff.mp assigned.index).1
      · have within := inv.known slot' bl var i place equal
        rw [← Variables.length_names] at within
        exact Nat.lt_of_lt_of_le within assigned.grows.names.length_le

end

theorem CanStoreAll.induction {P : Commands → Prop}
    (step : ∀ commands item, item ∈ items → Inv commands → CanStore commands slot item →
      P commands → P (commands.stored slot item))
    (can : CanStoreAll slot items commands) (inv : commands.Inv) (holds : P commands) :
    (commands.storeAll slot items).Inv ∧ P (commands.storeAll slot items) := by
  induction items generalizing commands with
  | nil => exact ⟨inv, holds⟩
  | cons item items ih =>
    obtain ⟨first, others⟩ := can
    refine ih ?_ others (first.inv_stored inv)
      (step commands item List.mem_cons_self inv first holds)
    intro commands item member
    exact step commands item (List.mem_cons_of_mem _ member)

section

variable (can : CanStoreAll slot items commands) (inv : commands.Inv)
include can inv

theorem CanStoreAll.inv_storeAll : (commands.storeAll slot items).Inv :=
  (can.induction (P := fun _ => True) (fun _ _ _ _ _ _ => trivial) inv trivial).1

theorem CanStoreAll.grows : commands.vars.Grows (commands.storeAll slot items).vars := by
  refine (can.induction (P := fun behind => commands.vars.Grows behind.vars) ?_ inv (.refl _)).2
  intro behind item _ inv' first grows
  exact grows.trans (first.grows inv')

end

theorem storeAll_entry_of_ne
    (elsewhere : ∀ item ∈ items, ¬ (slot' = slot ∧ bl = item.bl ∧ var = item.var)) :
    (commands.storeAll slot items).entry slot' bl var = commands.entry slot' bl var := by
  induction items generalizing commands with
  | nil => rfl
  | cons item items ih =>
    have first := elsewhere item List.mem_cons_self
    rw [storeAll_cons, ih, stored_entry, if_neg (fun new => first new.1)]
    intro item member
    exact elsewhere item (List.mem_cons_of_mem _ member)

theorem CanStoreAll.holds (can : CanStoreAll slot items commands) (inv : commands.Inv)
    (apart : items.Pairwise fun item item' => ¬ (item.bl = item'.bl ∧ item.var = item'.var))
    (member : item ∈ items) :
    (commands.storeAll slot items).vars.assignmentOf
      ((commands.storeAll slot items).entry slot item.bl item.var) = some item.assignment := by
  induction items generalizing commands with
  | nil => cases member
  | cons first items ih =>
    obtain ⟨canFirst, others⟩ := can
    obtain ⟨different, apart'⟩ := List.pairwise_cons.mp apart
    have inv' := canFirst.inv_stored inv
    rcases List.mem_cons.mp member with rfl | member
    · rw [storeAll_cons, storeAll_entry_of_ne]
      · exact (others.grows inv').assignmentOf (inv'.stand slot item.bl item.var)
          (canFirst.holds inv)
      · intro item' member' same
        exact different item' member' same.2
    · exact ih others inv' apart' member

theorem storeAll_nrVars_le_iff {k : Nat} :
    (((commands.storeAll slot items).slots slot).blocks bl).nrVars ≤ k ↔
      ((commands.slots slot).blocks bl).nrVars ≤ k ∧
        ∀ item ∈ items, item.bl = bl → item.var < k := by
  induction items generalizing commands with
  | nil => simp
  | cons item items ih =>
    rw [storeAll_cons, ih, stored_nrVars, List.forall_mem_cons]
    by_cases same : bl = item.bl
    · simp only [same, and_self, if_true, Nat.max_le, forall_const, and_assoc]
      rfl
    · simp [same, Ne.symm same]

theorem storeAll_slots_of_ne (other : slot' ≠ slot) :
    (commands.storeAll slot items).slots slot' = commands.slots slot' := by
  induction items generalizing commands with
  | nil => rfl
  | cons item items ih =>
    rw [storeAll_cons, ih]
    unfold stored
    split_ifs <;> exact Function.update_of_ne other _ _

@[simp] theorem storeAll_key : ((commands.storeAll slot items).slots slot').key =
    (commands.slots slot').key := by
  induction items generalizing commands with
  | nil => rfl
  | cons item items ih =>
    rw [storeAll_cons, ih, stored_key]

@[simp] theorem storeAll_currentBlock :
    ((commands.storeAll slot items).slots slot').currentBlock =
      (commands.slots slot').currentBlock := by
  induction items generalizing commands with
  | nil => rfl
  | cons item items ih =>
    rw [storeAll_cons, ih, stored_currentBlock]

@[simp] theorem storeAll_nrBlocks : ((commands.storeAll slot items).slots slot').nrBlocks =
    (commands.slots slot').nrBlocks := by
  induction items generalizing commands with
  | nil => rfl
  | cons item items ih =>
    rw [storeAll_cons, ih, stored_nrBlocks]

@[simp] theorem storeAll_togglesUsed :
    (commands.storeAll slot items).togglesUsed = commands.togglesUsed := by
  induction items generalizing commands with
  | nil => rfl
  | cons item items ih =>
    rw [storeAll_cons, ih, stored_togglesUsed]

end Commands

/-!
## Room for assignments

From the names that are known, the room in the store and what the entries hold it
is told before whether all assignments of an argument are stored.
-/

/-- There is room for assignments, given what their entries hold.  A value that is
held already has to be for the same variable. -/
def AllFit : List (List UInt8) → Nat → List (Assignment × Option Held) → Prop
  | _, _, [] => True
  | known, room, (assignment, held) :: rest =>
    if assignment.name ∈ known then
      if held.map Held.value = some assignment.value then
        (held.bind Held.var).bind (known[·]?) = some assignment.name ∧ AllFit known room rest
      else
        assignment.value.length + 1 ≤ room ∧
          AllFit known (room - (assignment.value.length + 1)) rest
    else
      assignment.name ≠ [] ∧ IsName assignment.name ∧ known.length < VARIABLES_MAX ∧
        assignment.value.length + 1 + (assignment.name.length + 1) ≤ room ∧
        AllFit (known ++ [assignment.name])
          (room - (assignment.value.length + 1 + (assignment.name.length + 1))) rest

namespace Variables

variable {vars : Variables} {assignment : Assignment} {text : List UInt8}

theorem hasRoom_iff (sound : vars.Sound) : vars.HasRoom text ↔ text.length + 1 ≤ vars.room := by
  have below := sound.top_le
  unfold HasRoom room
  omega

theorem room_assigned (sound : vars.Sound) : (vars.assigned assignment).room =
    vars.room - if assignment.name ∈ vars.names then assignment.value.length + 1
      else assignment.value.length + 1 + (assignment.name.length + 1) := by
  unfold assigned
  cases found : vars.names.idxOf? assignment.name with
  | some i =>
    have known := List.mem_of_getElem? (sound.idxOf?_eq_some_iff.mp found)
    rw [if_pos known]
    simp only [room, setValue, kept_top]
    omega
  | none =>
    rw [if_neg (List.idxOf?_eq_none_iff.mp found)]
    simp only [room, withNew, Arena.placed_top, kept_top]
    omega

end Variables

namespace Commands

variable {commands : Commands} {slot bl var : Nat} {item : Item} {items : List Item}

/-- Assignments with what their entries hold. -/
def withHeld (commands : Commands) (slot : Nat) (items : List Item) :
    List (Assignment × Option Held) :=
  items.map fun item => (item.assignment, commands.held slot item.bl item.var)

theorem held_stored (inv : commands.Inv) (can : commands.CanStore slot item)
    (elsewhere : ¬ (item.bl = bl ∧ item.var = var)) :
    (commands.stored slot item).held slot bl var = commands.held slot bl var := by
  have same : (commands.stored slot item).entry slot bl var = commands.entry slot bl var := by
    rw [stored_entry, if_neg]
    rintro ⟨⟨-, rfl, rfl⟩, -⟩
    exact elsewhere ⟨rfl, rfl⟩
  unfold held
  rw [same]
  apply Option.map_congr
  intro place value
  rw [((can.grows inv).keeps place (inv.stand slot bl var place value)).2]

theorem withHeld_stored (inv : commands.Inv) (can : commands.CanStore slot item)
    (apart : ∀ item' ∈ items, ¬ (item.bl = item'.bl ∧ item.var = item'.var)) :
    (commands.stored slot item).withHeld slot items = commands.withHeld slot items := by
  refine List.map_congr_left ?_
  intro item' member
  rw [held_stored inv can (apart item' member)]

theorem canStoreAll_of_allFit (inv : commands.Inv) (clean : ∀ item ∈ items, item.assignment.Clean)
    (apart : items.Pairwise fun item item' => ¬ (item.bl = item'.bl ∧ item.var = item'.var))
    (fits : AllFit commands.vars.names commands.vars.room (commands.withHeld slot items)) :
    CanStoreAll slot items commands := by
  induction items generalizing commands with
  | nil => trivial
  | cons item items ih =>
    obtain ⟨different, apart'⟩ := List.pairwise_cons.mp apart
    have clean' := List.forall_mem_cons.mp clean
    simp only [withHeld, List.map_cons, AllFit] at fits
    -- What is known and what room is left after this assignment.
    suffices can : commands.CanStore slot item ∧ AllFit (commands.stored slot item).vars.names
        (commands.stored slot item).vars.room (commands.withHeld slot items) by
      refine ⟨can.1, ih (can.1.inv_stored inv) clean'.2 apart' ?_⟩
      rw [withHeld_stored inv can.1 different]
      exact can.2
    have sound := inv.sound
    by_cases known : item.assignment.name ∈ commands.vars.names
    · rw [if_pos known] at fits
      by_cases here : (commands.held slot item.bl item.var).map Held.value =
          some item.assignment.value
      · have reused : commands.Reused slot item := ⟨here, known⟩
        rw [if_pos here] at fits
        rw [stored_vars, if_pos reused]
        refine ⟨⟨clean'.1, ?_, fun new => absurd reused new⟩, fits.2⟩
        intro _
        obtain ⟨held, holds, value⟩ := Option.map_eq_some_iff.mp here
        obtain ⟨place, at_place, rfl⟩ := Option.map_eq_some_iff.mp holds
        obtain ⟨i, var, found⟩ := Option.bind_eq_some_iff.mp (holds ▸ fits.1)
        exact Variables.assignmentOf_eq_some_iff.mpr
          ⟨i, place, congrArg₂ Entry.mk var at_place, found, value⟩
      · have new : ¬ commands.Reused slot item := fun reused => here reused.1
        rw [if_neg here] at fits
        have room := (Variables.hasRoom_iff sound).mpr fits.1
        have can : commands.vars.CanAssign item.assignment := ⟨room, .inl known⟩
        refine ⟨⟨clean'.1, fun reused => absurd reused new, fun _ => can⟩, ?_⟩
        rw [stored_vars, if_neg new, Variables.room_assigned sound, if_pos known,
          (sound.assigned clean'.1 can).names, if_pos known]
        exact fits.2
    · rw [if_neg known] at fits
      obtain ⟨name_ne, isName, few, room, fits⟩ := fits
      have new : ¬ commands.Reused slot item := fun reused => known reused.2
      have roomValue : commands.vars.HasRoom item.assignment.value :=
        (Variables.hasRoom_iff sound).mpr (by omega)
      have roomName : (commands.vars.kept item.assignment.value).HasRoom
          item.assignment.name := by
        simp only [Variables.HasRoom, Variables.kept_top]
        unfold Variables.room at room
        omega
      have few' : commands.vars.list.length < VARIABLES_MAX := by
        rw [← Variables.length_names]
        exact few
      have can : commands.vars.CanAssign item.assignment :=
        ⟨roomValue, .inr ⟨name_ne, isName, few', roomName⟩⟩
      refine ⟨⟨clean'.1, fun reused => absurd reused new, fun _ => can⟩, ?_⟩
      rw [stored_vars, if_neg new, Variables.room_assigned sound, if_neg known,
        (sound.assigned clean'.1 can).names, if_neg known]
      exact fits

section

variable {assignments : List (Option Assignment)} {parts : List Part} {ends : Bool}

theorem processBlock_of_canStoreAll (inv : commands.Inv)
    (fine : (readBlock bl var assignments).2 = true)
    (can : CanStoreAll slot (readBlock bl var assignments).1 commands) :
    processBlock slot bl assignments var commands =
      .ok (.ok, commands.storeAll slot (readBlock bl var assignments).1) := by
  induction assignments generalizing var commands with
  | nil => rfl
  | cons assignment rest ih =>
    cases assignment with
    | none => cases fine
    | some assignment =>
      by_cases full : var = MAX_VAR_PER_BLOCK
      · simp [readBlock, full] at fine
      · simp only [readBlock, if_neg full] at fine can ⊢
        obtain ⟨first, others⟩ := can
        have done : commands.processVar slot bl var (some assignment) =
            .ok (true, commands.stored slot ⟨bl, var, assignment⟩) := by
          by_cases reused : commands.Reused slot ⟨bl, var, assignment⟩
          · exact processVar_of_reused inv.sound inv.stand reused
          · exact processVar_of_canAssign inv.sound inv.stand first.clean reused (first.can reused)
        simp only [processBlock, if_neg full, done, bind_ok, if_true]
        exact ih (first.inv_stored inv) fine others

theorem processBlocks_of_canStoreAll (inv : commands.Inv)
    (fine : (readParts ends bl parts).2 = true)
    (can : CanStoreAll slot (readParts ends bl parts).1 commands) :
    processBlocks slot ends parts bl commands =
      .ok (.ok, bl + parts.length, commands.storeAll slot (readParts ends bl parts).1) := by
  induction parts generalizing bl commands with
  | nil =>
    simp only [readParts] at fine
    simp [processBlocks, readParts, fine]
  | cons part parts ih =>
    simp only [readParts] at fine can ⊢
    split_ifs at fine can ⊢ with own
    obtain ⟨here, others⟩ := canStoreAll_append.mp can
    have stored := processBlock_of_canStoreAll inv own.1 here
    simp only [processBlocks, stored, bind_ok, ne_eq, not_true, if_false, if_neg own.2,
      ih (here.inv_storeAll inv) fine others, storeAll_append,
      List.length_cons]
    rw [Nat.add_right_comm, Nat.add_assoc]

end

end Commands

end OsFree.Loader
