import OsFree.Loader.Owners
import OsFree.Loader.ToggleRuns

/-!
# Runs of variables

Each command sets the variables that it is to set, or else none.  Commands that
would write over what a toggle holds, or that fail half-way, are not allowed.
-/

namespace OsFree.Loader

open Machine

namespace Commands

variable {commands commands' : Commands} {slot bl var i place : Nat} {key : UInt8}
  {name value : List UInt8}

/-- What is kept between commands. -/
structure Intact (commands : Commands) : Prop where
  inv : commands.Inv
  apart : commands.Apart
  table : commands.Table

/-- The blocks of toggles in use assign what they did. -/
def SameBlocks (commands commands' : Commands) : Prop :=
  ∀ slot bl, slot < commands.togglesUsed → bl < (commands.slots slot).nrBlocks →
    commands'.contents slot bl = commands.contents slot bl

/-- The place is the value of an entry of a block that is in use. -/
def InUse (commands : Commands) (place : Nat) : Prop :=
  ∃ slot bl var, slot < commands.togglesUsed ∧ bl < (commands.slots slot).nrBlocks ∧
    var < ((commands.slots slot).blocks bl).nrVars ∧
    (commands.entry slot bl var).value = some place

/-! ## What is allowed -/

/-- A value is not written over another one that a toggle has, and a name is not
stored without its value. -/
def CanVarSet (commands : Commands) (name value : List UInt8) : Prop :=
  (∀ i place : Nat, commands.vars.names[i]? = some name →
    (commands.vars.list[i]?).bind Variable.value = some place →
    value.length ≤ (commands.vars.store.textAt place).length →
    commands.InUse place → value = commands.vars.store.textAt place) ∧
  (name ∉ commands.vars.names → commands.vars.CanAdd name →
    name ≠ [] ∧ commands.vars.HasBoth name value)

/-- A value that is pointed at is a string that no other variable has. -/
def CanVarSetNoCopy (commands : Commands) (name : List UInt8) (val : Option Nat) : Prop :=
  ∀ place, val = some place → place < VARIABLE_STORE_SIZE →
    (∀ i : Nat, commands.vars.names[i]? = some name →
      commands.vars.store.Stands place ∧ commands.Free i place) ∧
    (name ∉ commands.vars.names → commands.vars.CanAdd name →
      name ≠ [] ∧ commands.vars.store.Stands place ∧ commands.Free commands.vars.list.length place)

/-- The blocks that are selected have a variable for each value. -/
def CanSelect (commands : Commands) (keyboard : Keyboard) : List Selection → Prop
  | [] => True
  | selection :: rest =>
    (selection.key = keyboard.lastKeyPressed ∨
      (commands.prevCmd ≠ .trigger ∧ keyboard.triggersOnly)) ∨
    ∀ bl ∈ selection.block, ∀ slot ∈ commands.toggleFindSlot selection.key,
      bl < (commands.slots slot).nrBlocks →
      (∀ var < ((commands.slots slot).blocks bl).nrVars, (commands.entry slot bl var).var ≠ none) ∧
      commands.CanSelect keyboard rest

/-- All assignments are stored, or the command fails before any is. -/
def CanStoreBlocks (commands : Commands) (slot : Nat) (parts : Parts) : Prop := (parts.Fine ∧
    AllFit commands.vars.names commands.vars.room (commands.withHeld slot parts.items)) ∨
  (¬ parts.Fine ∧ ∀ item ∈ parts.items, commands.Reused slot item) ∨
  commands.Stops slot parts.items

def CanRun (keyboard : Keyboard) : Commands → Toggle → Prop
  | _, .outside => False
  | _, .bad => True
  | commands, .set key parts =>
    ∀ slot ∈ commands.slotFor key, commands.CanStoreBlocks slot parts
  | commands, .select selections => commands.CanSelect keyboard selections
  | commands, .trigger var val inner => commands.vars.valueOf var = some val →
      CanRun keyboard { commands with prevCmd := .trigger } inner

/-! ## What is right -/

/-- A variable is set, or nothing is. -/
def SetsTo (commands : Commands) (name value : List UInt8) (done : Bool)
    (commands' : Commands) : Prop :=
  commands'.vars.valueOf = (if done then Function.update commands.vars.valueOf name (some value)
      else commands.vars.valueOf) ∧
    commands.SameBlocks commands'

/-- What a selection assigns. -/
def selected (commands : Commands) (selection : Selection) : Option (List Assignment) := do
  let bl ← selection.block
  let slot ← commands.toggleFindSlot selection.key
  return (commands.contents slot bl).reduceOption

/-- What a command makes of the variables and of the blocks. -/
def Performs (commands : Commands) : Toggle → Ret → Commands → Prop
  | .outside, _, _ => False
  | .bad, _, commands' =>
    commands'.vars.valueOf = commands.vars.valueOf ∧ commands.SameBlocks commands'
  | .set key parts, ret, commands' =>
    (ret ≠ .ok → commands'.vars.valueOf = commands.vars.valueOf) ∧
    (ret = .ok → ∃ stored : List Assignment,
      stored.Sublist (parts.items.map Item.assignment) ∧ commands'.vars.valueOf =
          applied (applied commands.vars.valueOf stored) (parts.blocks.headD [])) ∧
    ∀ slot bl, slot < commands.togglesUsed → (commands.slots slot).key ≠ key →
      commands'.contents slot bl = commands.contents slot bl
  | .select selections, _, commands' =>
    (∃ count, commands'.vars.valueOf =
      ((selections.take count).filterMap commands.selected).foldl applied commands.vars.valueOf) ∧
    commands.SameBlocks commands'
  | .trigger var val inner, _, commands' =>
    (commands.vars.valueOf var = some val → ∃ ret, commands.Performs inner ret commands') ∧
    (commands.vars.valueOf var ≠ some val →
      commands'.vars.valueOf = commands.vars.valueOf ∧ commands.SameBlocks commands')

/-! ## Blocks that stay -/

theorem assignmentOf_eq_of_grows {vars : Variables} (inv : commands.Inv)
    (grows : commands.vars.Grows vars) (var : Nat) :
    vars.assignmentOf (commands.entry slot bl var) =
      commands.vars.assignmentOf (commands.entry slot bl var) := by
  cases assigns : commands.vars.assignmentOf (commands.entry slot bl var) with
  | some assignment => exact grows.assignmentOf (inv.stand slot bl var) assigns
  | none =>
    cases later : vars.assignmentOf (commands.entry slot bl var) with
    | none => rfl
    | some assignment =>
      obtain ⟨i, place, equal, -⟩ := Variables.assignmentOf_eq_some_iff.mp later
      have within := inv.known slot bl var i place equal
      rw [← Variables.length_names] at within
      have assigns' : commands.vars.assignmentOf (commands.entry slot bl var) =
          some ⟨commands.vars.names[i], commands.vars.store.textAt place⟩ :=
        Variables.assignmentOf_eq_some_iff.mpr
          ⟨i, place, equal, List.getElem?_eq_getElem within, rfl⟩
      rw [assigns] at assigns'
      cases assigns'

theorem contents_eq_of_grows (inv : commands.Inv) (grows : commands.vars.Grows commands'.vars)
    (same : (commands'.slots slot).blocks bl = (commands.slots slot).blocks bl) :
    commands'.contents slot bl = commands.contents slot bl := by
  unfold Commands.contents entry
  rw [same]
  exact List.map_congr_left fun var _ => assignmentOf_eq_of_grows inv grows var

theorem sameBlocks_of_grows (inv : commands.Inv) (grows : commands.vars.Grows commands'.vars)
    (same : ∀ slot, (commands'.slots slot).blocks = (commands.slots slot).blocks) :
    commands.SameBlocks commands' := by
  intro slot bl _ _
  exact contents_eq_of_grows inv grows (congrFun (same slot) bl)

theorem Table.congr (table : commands.Table) (used : commands'.togglesUsed = commands.togglesUsed)
    (keys : ∀ slot, (commands'.slots slot).key = (commands.slots slot).key) :
    commands'.Table := by
  refine ⟨?_, ?_, ?_, ?_⟩
  · rw [used]
    exact table.used_le
  · simpa only [used, keys] using table.used
  · simpa only [used, keys] using table.unused
  · simpa only [used, keys] using table.distinct

theorem assignmentOf_congr {vars vars' : Variables} {entry : Entry}
    (names : vars'.names = vars.names)
    (text : ∀ place, entry.value = some place →
      vars'.store.textAt place = vars.store.textAt place) :
    vars'.assignmentOf entry = vars.assignmentOf entry := by
  obtain ⟨var, value⟩ := entry
  unfold Variables.assignmentOf
  rw [names]
  cases value with
  | none => rfl
  | some place =>
    have same := text place rfl
    simp only [bind, Option.bind_some, same]

theorem Inv.withVars {vars : Variables} (inv : commands.Inv) (sound : vars.Sound)
    (stands : ∀ slot bl var place, (commands.entry slot bl var).value = some place →
      vars.store.Stands place)
    (length : commands.vars.list.length ≤ vars.list.length) :
    Inv { commands with vars } :=
  ⟨sound, stands, fun slot bl var i place equal =>
    Nat.lt_of_lt_of_le (inv.known slot bl var i place equal) length⟩

/-! ## Variables are set -/

section

variable (intact : commands.Intact)

include intact

theorem Intact.withVars {vars : Variables} (sound : vars.Sound)
    (length : commands.vars.list.length ≤ vars.list.length)
    (apart : Apart { commands with vars }) : Intact { commands with vars } := by
  refine ⟨intact.inv.withVars sound ?_ length, apart, intact.table.congr rfl fun _ => rfl⟩
  intro slot bl var place value
  exact apart.stands (.entry slot bl var) place value

theorem Intact.unset :
    Intact { commands with vars := commands.vars } ∧
      commands.SetsTo name value false { commands with vars := commands.vars } :=
  ⟨intact, rfl, fun _ _ _ _ => rfl⟩

theorem Intact.varSet_known (nonzero : 0 ∉ value) (found : commands.vars.names[i]? = some name)
    (at_value : (commands.vars.list[i]?).bind Variable.value = some place)
    (can : value.length ≤ (commands.vars.store.textAt place).length →
      commands.InUse place → value = commands.vars.store.textAt place) :
    ∃ done vars', commands.vars.varSet name value = .ok (done, vars') ∧
      Intact { commands with vars := vars' } ∧
      commands.SetsTo name value done { commands with vars := vars' } := by
  have inv := intact.inv
  have sound := inv.sound
  rw [sound.varSet_known found at_value]
  split_ifs with short fits
  · have written := intact.apart.put inv found at_value short nonzero
    refine ⟨true, _, rfl, intact.withVars written.sound (Nat.le_refl _) written.apart,
      written.set.valueOf sound written.sound, ?_⟩
    intro slot bl used within
    refine List.map_congr_left ?_
    intro var member
    have below := List.mem_range.mp member
    -- The text of an entry in use stays, also where it is the one written over.
    have text : ∀ place', (commands.entry slot bl var).value = some place' →
        (overwritten commands.vars place value).store.textAt place' =
          commands.vars.store.textAt place' := by
      intro place' at_entry
      rw [written.texts slot bl var place' at_entry]
      split_ifs with same
      · rw [same] at at_entry ⊢
        exact can short ⟨slot, bl, var, used, within, below, at_entry⟩
      · rfl
    exact assignmentOf_congr written.names text
  · obtain ⟨sound', set⟩ := Variables.setAt_kept sound fits nonzero found
    have within := (List.getElem?_eq_some_iff.mp found).1
    rw [Variables.length_names] at within
    have names : ((commands.vars.kept value).setValue i commands.vars.store.top).names =
        commands.vars.names :=
      (sound.kept fits).names_setValue.trans (sound.names_kept fits)
    refine ⟨true, _, rfl, intact.withVars sound' (by simp [Variables.setValue])
      (intact.apart.setKept inv fits nonzero within), set.valueOf sound sound', ?_⟩
    have keeps : commands.vars.Keeps
        ((commands.vars.kept value).setValue i commands.vars.store.top) :=
      Variables.keeps_kept sound.size fits
    exact sameBlocks_of_grows inv (keeps.grows names) fun _ => rfl
  · exact ⟨false, _, rfl, intact.unset⟩

theorem Intact.varSet (nonzero : 0 ∉ name) (nonzero' : 0 ∉ value)
    (can : commands.CanVarSet name value) :
    ∃ done vars', commands.vars.varSet name value = .ok (done, vars') ∧
      Intact { commands with vars := vars' } ∧
      commands.SetsTo name value done { commands with vars := vars' } := by
  have inv := intact.inv
  have sound := inv.sound
  by_cases known : name ∈ commands.vars.names
  · obtain ⟨i, found⟩ := List.mem_iff_getElem?.mp known
    have within := (List.getElem?_eq_some_iff.mp found).1
    rw [Variables.length_names] at within
    obtain ⟨place, at_place, -⟩ := sound.valued _ (List.getElem_mem within)
    have at_value : (commands.vars.list[i]?).bind Variable.value = some place := by
      rw [List.getElem?_eq_getElem within]
      exact at_place
    exact intact.varSet_known nonzero' found at_value (can.1 i place found at_value)
  · rw [sound.varSet_new known]
    by_cases add : commands.vars.CanAdd name
    · obtain ⟨name_ne, fits⟩ := can.2 known add
      rw [if_pos add, if_pos fits]
      have sound' := sound.withBoth fits add name_ne nonzero nonzero' known
      refine ⟨true, _, rfl, intact.withVars sound' (by simp [Variables.withBoth])
        (intact.apart.withBoth inv fits nonzero nonzero'),
        (Variables.setAt_withBoth sound fits nonzero nonzero').valueOf sound sound', ?_⟩
      refine sameBlocks_of_grows inv ⟨(Variables.keeps_withBoth sound fits).1, ?_⟩ fun _ => rfl
      rw [Variables.names_withBoth sound fits nonzero]
      exact List.prefix_append _ _
    · rw [if_neg add]
      exact ⟨false, _, rfl, intact.unset⟩

theorem Intact.varSetNoCopy {val : Option Nat} (nonzero : 0 ∉ name)
    (can : commands.CanVarSetNoCopy name val) :
    ∃ done vars', commands.vars.varSetNoCopy name val = .ok (done, vars') ∧
      Intact { commands with vars := vars' } ∧
      ∃ text, (done = true → val.map commands.vars.store.textAt = some text) ∧
        commands.SetsTo name text done { commands with vars := vars' } := by
  have inv := intact.inv
  have sound := inv.sound
  cases val with
  | none => exact ⟨false, _, rfl, intact, [], Bool.noConfusion, rfl, fun _ _ _ _ => rfl⟩
  | some place =>
    by_cases inside : place < VARIABLE_STORE_SIZE
    · rw [sound.varSetNoCopy inside]
      obtain ⟨known, new⟩ := can place rfl inside
      cases at_name : commands.vars.names.idxOf? name with
      | some i =>
        have found := sound.idxOf?_eq_some_iff.mp at_name
        obtain ⟨stands, free⟩ := known i found
        have sound' := sound.setValue stands (i := i)
        have names : (commands.vars.setValue i place).names = commands.vars.names :=
          sound.names_setValue
        refine ⟨true, _, rfl, intact.withVars sound' (by simp [Variables.setValue])
          (intact.apart.setValue (sound.idxOf?_lt at_name) stands free), _, fun _ => rfl,
          (Variables.setAt_setValue sound found).valueOf sound sound', ?_⟩
        exact sameBlocks_of_grows inv (Variables.keeps_setValue.grows names) fun _ => rfl
      | none =>
        have absent := List.idxOf?_eq_none_iff.mp at_name
        by_cases add : commands.vars.CanAdd name
        · obtain ⟨name_ne, stands, free⟩ := new absent add
          have sound' := sound.withNew add name_ne nonzero absent stands
          simp only [if_pos add]
          refine ⟨true, _, rfl, intact.withVars sound' (by simp [Variables.withNew])
            (intact.apart.withNew inv add.2.2 nonzero stands free), _, fun _ => rfl,
            (Variables.setAt_withNew sound add.2.2 nonzero stands).valueOf sound sound', ?_⟩
          refine sameBlocks_of_grows inv
            ⟨Variables.keeps_withNew sound.size add.2.2, ?_⟩ fun _ => rfl
          have names := @Variables.Sound.names_withNew commands.vars name (some place)
            sound add.2.2 nonzero
          rw [names]
          exact List.prefix_append _ _
        · simp only [if_neg add]
          exact ⟨false, _, rfl, intact, [], Bool.noConfusion, rfl, fun _ _ _ _ => rfl⟩
    · have refused : commands.vars.varSetNoCopy name (some place) =
          .ok (false, commands.vars) := if_pos (Nat.le_of_not_lt inside)
      rw [refused]
      exact ⟨false, _, rfl, intact, [], Bool.noConfusion, rfl, fun _ _ _ _ => rfl⟩

end

end Commands

/-!
## Runs of commands for variables and toggles

Toggles are set and selected between variables that are set.  What is kept between
commands is kept in every run of allowed ones, and each of them does what it is to
do.
-/

namespace Variables

variable {vars vars' : Variables}

theorem valueOf_of_keeps (sound : vars.Sound) (keeps : vars.Keeps vars')
    (list : vars'.list = vars.list) : vars'.valueOf = vars.valueOf := by
  have names : vars'.names = vars.names := keeps.names (by rw [list]) sound.named
  funext name
  unfold Variables.valueOf
  rw [names]
  refine congrArg _ ?_
  funext i
  exact keeps.valueText sound (congrArg (·[i]?) list)

end Variables

namespace Commands

variable {commands commands' commands'' : Commands} {slot bl : Nat} {key : UInt8}
  {keyboard : Keyboard} {items : List Item} {parts : Parts}

/-! ## Blocks are selected -/

/-- Only which values variables have is changed, and where toggles stand. -/
structure Alike (commands commands' : Commands) : Prop where
  names : commands'.vars.names = commands.vars.names
  store : commands'.vars.store = commands.vars.store
  keys : ∀ slot, (commands'.slots slot).key = (commands.slots slot).key
  counts : ∀ slot, (commands'.slots slot).nrBlocks = (commands.slots slot).nrBlocks
  blocks : ∀ slot, (commands'.slots slot).blocks = (commands.slots slot).blocks
  used : commands'.togglesUsed = commands.togglesUsed
  prevCmd : commands'.prevCmd = commands.prevCmd

theorem Alike.refl (commands : Commands) : commands.Alike commands :=
  ⟨rfl, rfl, fun _ => rfl, fun _ => rfl, fun _ => rfl, rfl, rfl⟩

section

variable (alike : commands.Alike commands')
include alike

theorem Alike.trans (alike' : commands'.Alike commands'') : commands.Alike commands'' where
  names := alike'.names.trans alike.names
  store := alike'.store.trans alike.store
  keys := fun slot => (alike'.keys slot).trans (alike.keys slot)
  counts := fun slot => (alike'.counts slot).trans (alike.counts slot)
  blocks := fun slot => (alike'.blocks slot).trans (alike.blocks slot)
  used := alike'.used.trans alike.used
  prevCmd := alike'.prevCmd.trans alike.prevCmd

theorem Alike.contents_eq : commands'.contents slot bl = commands.contents slot bl := by
  unfold Commands.contents entry
  rw [alike.blocks]
  refine List.map_congr_left ?_
  intro var _
  exact assignmentOf_congr alike.names fun place _ => by rw [alike.store]

theorem Alike.toggleFindSlot_eq : commands'.toggleFindSlot key = commands.toggleFindSlot key := by
  unfold toggleFindSlot
  simp only [alike.used, alike.keys]

theorem Alike.selected_eq : commands'.selected = commands.selected := by
  funext selection
  unfold selected
  simp only [alike.toggleFindSlot_eq, alike.contents_eq]

theorem Alike.canSelect {selections : List Selection}
    (can : commands.CanSelect keyboard selections) :
    commands'.CanSelect keyboard selections := by
  induction selections with
  | nil => trivial
  | cons selection rest ih =>
    unfold CanSelect at can ⊢
    rw [alike.prevCmd]
    refine can.imp_right ?_
    intro blocks bl at_bl slot found within
    rw [alike.toggleFindSlot_eq] at found
    rw [alike.counts] at within
    obtain ⟨vars, others⟩ := blocks bl at_bl slot found within
    refine ⟨?_, ih others⟩
    unfold entry
    rw [alike.blocks]
    exact vars

theorem Alike.sameBlocks : commands.SameBlocks commands' := fun _ _ _ _ => alike.contents_eq

end

theorem Intact.withBlock (intact : commands.Intact) (used : slot < commands.togglesUsed)
    (within : bl < (commands.slots slot).nrBlocks)
    (vars : ∀ var < ((commands.slots slot).blocks bl).nrVars,
      (commands.entry slot bl var).var ≠ none) :
    commands.toggleDoBlock slot bl = .ok (true, commands.withBlock slot bl) ∧
      (commands.withBlock slot bl).Intact ∧ commands.Alike (commands.withBlock slot bl) ∧
      (commands.withBlock slot bl).vars.valueOf =
        applied commands.vars.valueOf (commands.contents slot bl).reduceOption := by
  have inv := intact.inv
  obtain ⟨done, pointed⟩ := toggleDoBlock_of_valid inv.sound used within (by
    intro var below
    refine ⟨vars var below, ?_⟩
    intro i place equal
    exact ⟨inv.known slot bl var i place equal,
      inv.stand slot bl var place (congrArg Entry.value equal)⟩)
  refine ⟨done, ⟨(withBlock_inv inv pointed).1, ?_, intact.table.congr rfl fun _ => rfl⟩,
    ⟨pointed.names, pointed.store, fun _ => rfl, fun _ => rfl, fun _ => rfl, rfl, rfl⟩, ?_⟩
  · refine intact.apart.pointed inv ?_
    intro entry member
    obtain ⟨var, -, equal⟩ := List.mem_map.mp member
    exact ⟨slot, bl, var, equal⟩
  · rw [pointed.values]
    refine congrArg _ ?_
    unfold Commands.contents List.reduceOption entry
    rw [List.filterMap_map, List.filterMap_map]
    rfl

theorem Intact.congr (intact : commands.Intact) (vars : commands'.vars = commands.vars)
    (blocks : ∀ slot, (commands'.slots slot).blocks = (commands.slots slot).blocks)
    (keys : ∀ slot, (commands'.slots slot).key = (commands.slots slot).key)
    (used : commands'.togglesUsed = commands.togglesUsed) : commands'.Intact := by
  have entries : ∀ slot bl var, commands'.entry slot bl var = commands.entry slot bl var := by
    intro slot bl var
    unfold entry
    rw [blocks]
  exact ⟨intact.inv.congr vars entries, intact.apart.congr vars entries,
    intact.table.congr used keys⟩

theorem Intact.select (intact : commands.Intact) {selections : List Selection}
    (can : commands.CanSelect keyboard selections) :
    ∃ ret commands', toggleSelect keyboard selections commands = .ok (ret, commands') ∧
      commands'.Intact ∧ commands.Alike commands' ∧
      ∃ count, commands'.vars.valueOf =
        ((selections.take count).filterMap commands.selected).foldl applied
          commands.vars.valueOf := by
  induction selections generalizing commands with
  | nil => exact ⟨.ok, commands, rfl, intact, .refl _, 0, rfl⟩
  | cons selection rest ih =>
    unfold toggleSelect
    split_ifs with leave
    · exact ⟨.left, commands, rfl, intact, .refl _, 0, rfl⟩
    · have blocks := can.resolve_left leave
      obtain ⟨key, number⟩ := selection
      cases number with
      | none => exact ⟨.badArg, commands, rfl, intact, .refl _, 0, rfl⟩
      | some bl =>
        cases found : commands.toggleFindSlot key with
        | none => exact ⟨.badArg, commands, rfl, intact, .refl _, 0, rfl⟩
        | some slot =>
          obtain ⟨used, -⟩ := intact.table.toggleFindSlot_eq_some_iff.mp found
          by_cases within : bl < (commands.slots slot).nrBlocks
          · obtain ⟨vars, others⟩ := blocks bl rfl slot found within
            obtain ⟨done, intact', alike, values⟩ := intact.withBlock used within vars
            have stand : (commands.withBlock slot bl).Alike
                ((commands.withBlock slot bl).standAt slot bl) :=
              ⟨rfl, rfl, fun _ => standAt_key, fun _ => standAt_nrBlocks,
                fun _ => standAt_blocks, rfl, rfl⟩
            have alike' := alike.trans stand
            have intactStand : ((commands.withBlock slot bl).standAt slot bl).Intact :=
              intact'.congr rfl (fun _ => standAt_blocks) (fun _ => standAt_key) rfl
            obtain ⟨ret, commands', ran, intact'', alike'', count, values'⟩ :=
              ih intactStand (alike'.canSelect others)
            refine ⟨ret, commands', ?_, intact'', alike'.trans alike'', count + 1, ?_⟩
            · simp only [done, bind_ok, if_true]
              exact ran
            · have first : commands.selected ⟨key, some bl⟩ =
                  some (commands.contents slot bl).reduceOption := by
                simp [selected, found]
              rw [List.take_succ_cons, List.filterMap_cons_some first, List.foldl_cons,
                ← values, values', alike'.selected_eq]
              rfl
          · have undone : commands.toggleDoBlock slot bl = .ok (false, commands) :=
              if_pos (.inr (Nat.le_of_not_lt within))
            refine ⟨.badArg, commands, ?_, intact, .refl _, 0, rfl⟩
            simp only [undone, bind_ok, Bool.false_eq_true, if_false]
            rfl

/-! ## Blocks are set -/

theorem CanStoreAll.valueOf (can : CanStoreAll slot items commands) (inv : commands.Inv) :
    ∃ stored : List Assignment, stored.Sublist (items.map Item.assignment) ∧
      (commands.storeAll slot items).vars.valueOf = applied commands.vars.valueOf stored := by
  induction items generalizing commands with
  | nil => exact ⟨[], List.nil_sublist _, rfl⟩
  | cons item items ih =>
    obtain ⟨first, others⟩ := can
    obtain ⟨stored, sublist, values⟩ := ih others (first.inv_stored inv)
    rw [storeAll_cons, values]
    by_cases reused : commands.Reused slot item
    · refine ⟨stored, sublist.cons _, ?_⟩
      rw [stored_vars, if_pos reused]
    · have assigned := inv.sound.assigned first.clean (first.can reused)
      refine ⟨item.assignment :: stored, sublist.cons_cons _, ?_⟩
      rw [stored_vars, if_neg reused, (assigned.setAt inv.sound).valueOf inv.sound assigned.sound]
      rfl

theorem CanStoreAll.apart (can : CanStoreAll slot items commands) (inv : commands.Inv)
    (apart : commands.Apart) : (commands.storeAll slot items).Apart :=
  (can.induction (fun _ _ _ inv can apart => apart.stored inv can) inv apart).2

theorem Untouched.reset (commands : Commands) (slot : Nat) :
    commands.Untouched slot (commands.change slot Slot.reset) where
  vars := rfl
  entries := fun _ _ _ => reset_entry
  others := fun _ other => Function.update_of_ne other _ _
  keyed := by simp
  used := rfl

theorem Room.sets (room : commands.Room slot parts) (apart : commands.Apart)
    (table : commands.Table) (used : slot < commands.togglesUsed) :
    ∃ commands', commands.setSlot slot parts = .ok (.ok, commands') ∧ commands'.Intact ∧
      commands.vars.Grows commands'.vars ∧
      (∀ slot', slot' ≠ slot → commands'.slots slot' = commands.slots slot') ∧
      ∃ stored : List Assignment, stored.Sublist (parts.items.map Item.assignment) ∧
        commands'.vars.valueOf =
          applied (applied commands.vars.valueOf stored) (parts.blocks.headD []) := by
  have stores := room.canStoreAll
  have apart' : (commands.withBlocks slot parts).Apart := by
    have all := stores.apart room.inv_reset (apart.congr rfl fun _ _ _ => reset_entry)
    refine all.congr rfl ?_
    intro slot' bl var
    unfold entry
    rw [withBlocks_blocks]
  have table' : (commands.withBlocks slot parts).Table :=
    table.congr withBlocks_togglesUsed fun _ => withBlocks_key
  have intact : (commands.withBlocks slot parts).Intact := ⟨room.inv_withBlocks, apart', table'⟩
  obtain ⟨stored, sublist, values⟩ := stores.valueOf room.inv_reset
  by_cases some' : parts.parts = []
  · have ran := processBlocks_of_canStoreAll room.inv_reset room.fine stores
    refine ⟨commands.withBlocks slot parts, ?_, intact, room.grows,
      fun _ => withBlocks_slots_of_ne, stored, sublist, ?_⟩
    · have nothing : (commands.withBlocks slot parts).toggleDoBlock slot 0 =
          .ok (false, commands.withBlocks slot parts) := by
        refine if_pos (.inr ?_)
        rw [withBlocks_nrBlocks, some']
        exact Nat.le_refl _
      unfold Commands.setSlot
      rw [ran]
      simp only [bind_ok, ne_eq, not_true, if_false, Nat.zero_add]
      rw [show ((commands.change slot Slot.reset).storeAll slot
          (readParts parts.ends 0 parts.parts).1).change slot
            (fun slot => { slot with nrBlocks := parts.parts.length }) =
          commands.withBlocks slot parts from rfl, nothing]
      rfl
    · have none' : parts.blocks = [] := by
        unfold Parts.blocks
        rw [some']
        rfl
      rw [none']
      exact values
  · obtain ⟨ran, inv', grows, block, first, values'⟩ := room.setSlot used some'
    have head : parts.blocks.headD [] = block := by
      rw [List.headD_eq_head?_getD, List.head?_eq_getElem?, first]
      rfl
    have entries : ((commands.withBlocks slot parts).withBlock slot 0).Apart := by
      refine apart'.pointed room.inv_withBlocks ?_
      intro entry member
      obtain ⟨var, -, equal⟩ := List.mem_map.mp member
      exact ⟨slot, 0, var, equal⟩
    refine ⟨_, ran, ⟨inv', entries, table'.congr rfl fun _ => rfl⟩, room.grows.trans grows,
      fun _ => withBlocks_slots_of_ne, stored, sublist, ?_⟩
    rw [values', head]
    exact congrArg (applied · block) values

theorem setSlot_of_refused (inv : commands.Inv) (apart : commands.Apart) (proper : parts.Proper)
    (refused : (¬ parts.Fine ∧ ∀ item ∈ parts.items, commands.Reused slot item) ∨
      commands.Stops slot parts.items) :
    ∃ ret commands', commands.setSlot slot parts = .ok (ret, commands') ∧ ret ≠ .ok ∧
      commands.Spared slot commands' := by
  have reset := Untouched.reset commands slot
  have inv' := inv.congr reset.vars reset.entries
  have apart' := apart.congr reset.vars reset.entries
  suffices processed : ∃ ret count commands',
      processBlocks slot parts.ends parts.parts 0 (commands.change slot Slot.reset) =
        .ok (ret, count, commands') ∧ ret ≠ .ok ∧ commands.Spared slot commands' by
    obtain ⟨ret, count, commands', ran, failed, spared⟩ := processed
    refine ⟨ret, commands', ?_, failed, spared⟩
    unfold Commands.setSlot
    rw [ran]
    simp only [bind_ok, ne_eq, failed, not_false_eq_true, if_true]
    rfl
  rcases refused with ⟨malformed, reused⟩ | stops
  · obtain ⟨ret, count, commands', ran, told, untouched⟩ := processBlocks_of_reused inv'
      (fun item member => reset.reused_iff.mpr (reused item member))
    exact ⟨ret, count, commands', ran, fun fine => malformed (told.mp fine),
      reset.spared_trans (untouched.spared inv' apart')⟩
  · obtain ⟨ret, count, commands', ran, failed, spared⟩ := processBlocks_of_stops inv' apart'
      proper.clean_items (reset.stops_iff.mpr stops)
    exact ⟨ret, count, commands', ran, failed, reset.spared_trans spared⟩

theorem Spared.grows (spared : commands.Spared slot commands') (inv : commands.Inv) :
    commands.vars.Grows commands'.vars :=
  spared.keeps.grows (spared.keeps.names (by rw [spared.list]) inv.sound.named)

theorem Spared.keys (spared : commands.Spared slot commands') (slot' : Nat) :
    (commands'.slots slot').key = (commands.slots slot').key := by
  by_cases self : slot' = slot
  · rw [self]
    exact spared.keyed
  · rw [spared.others slot' self]

theorem Intact.set (intact : commands.Intact) (proper : parts.Proper) (nonzero : key ≠ 0)
    (can : ∀ slot ∈ commands.slotFor key, commands.CanStoreBlocks slot parts) :
    ∃ ret commands', commands.toggleSet key parts = .ok (ret, commands') ∧
      commands'.Intact ∧ commands.Performs (.set key parts) ret commands' := by
  cases found : commands.slotFor key with
  | none =>
    refine ⟨.wontFit, commands, toggleSet_of_full found, intact, fun _ => rfl,
      Ret.noConfusion, fun _ _ _ _ => rfl⟩
  | some slot =>
    obtain ⟨prepared', prepared⟩ := intact.table.prepared nonzero found
    have entries : ∀ slot bl var,
        prepared'.entry slot bl var = commands.entry slot bl var := by
      intro slot bl var
      unfold entry
      rw [prepared.blocks]
    have inv' := intact.inv.congr prepared.vars entries
    have apart' := intact.apart.congr prepared.vars entries
    have others : ∀ slot', slot' < commands.togglesUsed →
        (commands.slots slot').key ≠ key → slot' ≠ slot := by
      rintro slot' used other rfl
      exact other (prepared.oldKey used)
    have same : ∀ commands' : Commands, prepared'.vars.Grows commands'.vars →
        (∀ slot', slot' ≠ slot → commands'.slots slot' = prepared'.slots slot') →
        ∀ slot' bl, slot' < commands.togglesUsed → (commands.slots slot').key ≠ key →
          commands'.contents slot' bl = commands.contents slot' bl := by
      intro commands' grows kept slot' bl used other
      refine contents_eq_of_grows intact.inv (prepared.vars ▸ grows) ?_
      rw [kept slot' (others slot' used other), prepared.blocks]
    rw [prepared.ran]
    rcases can slot found with ⟨fine, fits⟩ | refused
    · have room : prepared'.Room slot parts := by
        have held : prepared'.withHeld slot parts.items =
            commands.withHeld slot parts.items := by
          unfold withHeld held
          simp only [entries, prepared.vars]
        refine ⟨inv', proper, fine, ?_⟩
        rw [prepared.vars, held]
        exact fits
      obtain ⟨commands', ran, intact', grows, kept, stored, sublist, values⟩ :=
        room.sets apart' prepared.table prepared.used
      refine ⟨.ok, commands', ran, intact', fun failed => absurd rfl failed, fun _ => ?_,
        same commands' grows kept⟩
      rw [prepared.vars] at values
      exact ⟨stored, sublist, values⟩
    · have refused' : (¬ parts.Fine ∧ ∀ item ∈ parts.items, prepared'.Reused slot item) ∨
          prepared'.Stops slot parts.items := by
        refine refused.imp (And.imp_right ?_) (stops_congr prepared.vars entries).mpr
        intro all item member
        exact (reused_congr prepared.vars entries).mpr (all item member)
      obtain ⟨ret, commands', ran, failed, spared⟩ := setSlot_of_refused inv' apart' proper refused'
      refine ⟨ret, commands', ran,
        ⟨spared.inv, spared.apart, prepared.table.congr spared.used spared.keys⟩, ?_,
        fun done => absurd done failed, same commands' (spared.grows inv') spared.others⟩
      intro _
      rw [Variables.valueOf_of_keeps inv'.sound spared.keeps spared.list, prepared.vars]

/-! ## Arguments are run -/

theorem Intact.prevCmd (intact : commands.Intact) (prevCmd : PrevCmd) :
    Intact { commands with prevCmd } :=
  intact.congr rfl (fun _ => rfl) (fun _ => rfl) rfl

theorem Intact.finished {ret : Ret} (intact : commands.Intact) :
    (finish (ret, commands)).2.Intact := by
  unfold finish
  split_ifs
  · exact intact.prevCmd .none
  · exact intact

@[simp] theorem performs_prevCmd (prevCmd : PrevCmd) (toggle : Toggle) (ret : Ret) :
    Performs { commands with prevCmd } toggle ret commands' =
      commands.Performs toggle ret commands' := by
  induction toggle generalizing ret with
  | outside | bad | set | select => rfl
  | trigger var val inner ih =>
    unfold Performs
    simp only [ih]
    rfl

theorem Performs.finished {toggle : Toggle} {ret ret' : Ret}
    (performs : commands.Performs toggle ret commands') :
    commands.Performs toggle ret (finish (ret', commands')).2 := by
  unfold finish
  split_ifs
  · induction toggle generalizing ret with
    | outside | bad | set | select => exact performs
    | trigger var val inner ih =>
      refine ⟨?_, performs.2⟩
      intro same
      obtain ⟨ret'', inner'⟩ := performs.1 same
      exact ⟨ret'', ih inner'⟩
  · exact performs

theorem Intact.runToggle {toggle : Toggle} (intact : commands.Intact) (proper : toggle.Proper)
    (can : CanRun keyboard commands toggle) :
    ∃ ret commands', runToggle keyboard toggle commands = .ok (ret, commands') ∧
      commands'.Intact ∧ commands.Performs toggle ret commands' := by
  induction toggle generalizing commands with
  | outside => exact can.elim
  | bad => exact ⟨.badArg, commands, rfl, intact, rfl, fun _ _ _ _ => rfl⟩
  | set key parts =>
    obtain ⟨ret, commands', ran, intact', performs⟩ := intact.set proper.2 proper.1 can
    refine ⟨ret, (finish (ret, commands')).2, ?_, intact'.finished, performs.finished⟩
    simp only [Commands.runToggle, ran, map_ok]
    exact congrArg Except.ok (finish_eq ret commands')
  | select selections =>
    obtain ⟨ret, commands', ran, intact', alike, values⟩ := intact.select can
    have performs : commands.Performs (.select selections) ret commands' :=
      ⟨values, alike.sameBlocks⟩
    refine ⟨ret, (finish (ret, commands')).2, ?_, intact'.finished, performs.finished⟩
    simp only [Commands.runToggle, ran, map_ok]
    exact congrArg Except.ok (finish_eq ret commands')
  | trigger var val inner ih =>
    obtain ⟨value, read, valueOf, stand⟩ := @Variables.Sound.varGet_stands _ var intact.inv.sound
    cases value with
    | none =>
      have absent : commands.vars.valueOf var ≠ some val := by
        rw [valueOf]
        exact Option.some_ne_none val ∘ Eq.symm
      refine ⟨.badArg, commands, ?_, intact, fun same => absurd same absent,
        fun _ => ⟨rfl, fun _ _ _ _ => rfl⟩⟩
      simp only [Commands.runToggle, read, bind_ok]
      rfl
    | some place =>
      have text := (stand place rfl).stringAt
      by_cases same : commands.vars.store.textAt place = val
      · have here : commands.vars.valueOf var = some val := by
          rw [valueOf, Option.map_some, same]
        obtain ⟨ret, commands', ran, intact', performs⟩ :=
          ih (intact.prevCmd .trigger) proper (can here)
        rw [performs_prevCmd] at performs
        refine ⟨.ok, (finish (.ok, commands')).2, ?_, intact'.finished,
          fun _ => ⟨ret, performs.finished⟩, fun other => absurd here other⟩
        simp only [Commands.runToggle, read, bind_ok, text, if_pos same, ran]
        rfl
      · have elsewhere : commands.vars.valueOf var ≠ some val := by
          rw [valueOf, Option.map_some]
          exact fun equal => same (Option.some.inj equal)
        refine ⟨.ok, (finish (.ok, { commands with prevCmd := .trigger })).2, ?_,
          (intact.prevCmd .trigger).finished, fun here => absurd here elsewhere,
          fun _ => ⟨rfl, fun _ _ _ _ => rfl⟩⟩
        simp only [Commands.runToggle, read, bind_ok, text, if_neg same]
        rfl

/-- A variable is set, or pointed at some place, or the command for toggles is given
an argument. -/
inductive Demand where
  | varSet (name value : List UInt8) (nonzero : 0 ∉ name) (nonzero' : 0 ∉ value)
  | varSetNoCopy (name : List UInt8) (val : Option Nat) (nonzero : 0 ∉ name)
  | toggle (keyboard : Keyboard) (arg : List UInt8) (nonzero : 0 ∉ arg)

/-- A demand is met; it is told whether this has been done. -/
def serve (commands : Commands) : Demand → Run (Ret × Commands)
  | .varSet name value _ _ =>
    (fun outcome => (if outcome.1 then .ok else .badArg,
      { commands with vars := outcome.2 })) <$> commands.vars.varSet name value
  | .varSetNoCopy name val _ =>
    (fun outcome => (if outcome.1 then .ok else .badArg,
      { commands with vars := outcome.2 })) <$> commands.vars.varSetNoCopy name val
  | .toggle keyboard arg _ => commands.toggleFunc keyboard arg

def CanServe (commands : Commands) : Demand → Prop
  | .varSet name value _ _ => commands.CanVarSet name value
  | .varSetNoCopy name val _ => commands.CanVarSetNoCopy name val
  | .toggle keyboard arg _ => CanRun keyboard commands (parseToggle arg)

/-- A demand does what it is to do. -/
def Serves (commands : Commands) (demand : Demand) (ret : Ret) (commands' : Commands) : Prop :=
  match demand with
  | .varSet name value _ _ => commands.SetsTo name value (ret = .ok) commands'
  | .varSetNoCopy name val _ => ∃ text,
      (ret = .ok → val.map commands.vars.store.textAt = some text) ∧
        commands.SetsTo name text (ret = .ok) commands'
  | .toggle _ arg _ => commands.Performs (parseToggle arg) ret commands'

def DemandStep (commands commands' : Commands) : Prop :=
  ∃ demand ret, commands.serve demand = .ok (ret, commands')

def AllowedDemandStep (commands commands' : Commands) : Prop :=
  ∃ demand ret, commands.CanServe demand ∧ commands.serve demand = .ok (ret, commands')

theorem Intact.serve (intact : commands.Intact) (demand : Demand) (can : commands.CanServe demand) :
    ∃ ret commands', commands.serve demand = .ok (ret, commands') ∧ commands'.Intact ∧
      commands.Serves demand ret commands' := by
  cases demand with
  | varSet name value nonzero nonzero' =>
    obtain ⟨done, vars', ran, intact', sets⟩ := intact.varSet nonzero nonzero' can
    refine ⟨if done then .ok else .badArg, { commands with vars := vars' }, ?_, intact', ?_⟩
    · simp only [Commands.serve, ran, map_ok]
    · cases done <;> exact sets
  | varSetNoCopy name val nonzero =>
    obtain ⟨done, vars', ran, intact', text, told, sets⟩ := intact.varSetNoCopy nonzero can
    refine ⟨if done then .ok else .badArg, { commands with vars := vars' }, ?_, intact',
      text, ?_, ?_⟩
    · simp only [Commands.serve, ran, map_ok]
    · cases done with
      | true => exact fun _ => told rfl
      | false => exact fun equal => Ret.noConfusion equal
    · cases done <;> exact sets
  | toggle keyboard arg nonzero =>
    exact intact.runToggle (parseToggle_proper nonzero) can

theorem initial_intact : initial.Intact := by
  refine ⟨kept_start.inv, ⟨?_, ?_⟩, kept_start.table⟩
  · intro owner place at_owner
    cases owner <;> cases at_owner
  · intro owner owner' place place' _ at_owner
    cases owner <;> cases at_owner

/-- What the variables and their strings are, whatever has been set. -/
structure WellStored (commands : Commands) : Prop where
  sound : commands.vars.Sound
  apart : commands.Apart
  get : ∀ name, ∃ value, commands.vars.varGet name = .ok value ∧
    commands.vars.valueOf name = value.map commands.vars.store.textAt ∧
    ∀ place ∈ value, commands.vars.store.Stands place

theorem commands_intact_of_run (run : RunsTo AllowedDemandStep initial commands) : commands.Intact := by
  refine @RunsTo.preserves _ _ Intact _ _ ?_ run initial_intact
  rintro commands commands' intact ⟨demand, ret, can, ran⟩
  obtain ⟨ret', after, ran', intact', -⟩ := intact.serve demand can
  obtain rfl := congrArg Prod.snd (Except.ok.inj (ran.symm.trans ran'))
  exact intact'

/-- In every run of demands that are allowed the variables are well stored, and each
demand that is allowed does what it is to do. -/
theorem variables_of_run (run : RunsTo AllowedDemandStep initial commands) :
    commands.WellStored ∧ ∀ demand, commands.CanServe demand → ∃ ret commands',
        commands.serve demand = .ok (ret, commands') ∧
          commands.Serves demand ret commands' := by
  have intact := commands_intact_of_run run
  refine ⟨⟨intact.inv.sound, intact.apart, fun _ => intact.inv.sound.varGet_stands⟩, ?_⟩
  intro demand can
  obtain ⟨ret, commands', ran, -, serves⟩ := intact.serve demand can
  exact ⟨ret, commands', ran, serves⟩

/-- A variable "x" is set to "1". -/
theorem setX_stored : ∃ commands', commands'.vars.valueOf [0x78] = some [0x31] ∧
    RunsTo AllowedDemandStep initial commands' ∧ commands'.WellStored ∧
    ∀ demand, commands'.CanServe demand → ∃ ret after,
      commands'.serve demand = .ok (ret, after) ∧ commands'.Serves demand ret after := by
  have nothing : ([0x78] : List UInt8) ∉ initial.vars.names := List.not_mem_nil
  have can : initial.CanServe (.varSet [0x78] [0x31] (by decide) (by decide)) :=
    ⟨fun _ _ found => absurd (List.mem_of_getElem? found) nothing,
      fun _ _ => ⟨List.cons_ne_nil _ _, Nat.le_of_ble_eq_true rfl⟩⟩
  have add : initial.vars.CanAdd [0x78] := ⟨by decide, Nat.succ_pos 29, Nat.le_of_ble_eq_true rfl⟩
  have both : initial.vars.HasBoth [0x78] [0x31] := Nat.le_of_ble_eq_true rfl
  have sound := Variables.initial_sound.withBoth both add (List.cons_ne_nil _ _)
    (by decide) (by decide) nothing
  have values := (@Variables.setAt_withBoth initial.vars [0x78] [0x31] Variables.initial_sound
    both (by decide) (by decide)).valueOf Variables.initial_sound sound
  have ran : initial.serve (.varSet [0x78] [0x31] (by decide) (by decide)) =
      .ok (.ok, { initial with vars := initial.vars.withBoth [0x78] [0x31] }) := by
    have set := @Variables.Sound.varSet_new initial.vars [0x78] [0x31]
      Variables.initial_sound nothing
    simp only [serve, set, if_pos add, if_pos both, map_ok, if_true]
  have run : RunsTo AllowedDemandStep initial
      { initial with vars := initial.vars.withBoth [0x78] [0x31] } :=
    .single ⟨_, .ok, can, ran⟩
  refine ⟨_, ?_, run, variables_of_run run⟩
  rw [values, Function.update_self]

/-- A new name for which there is room, with a value for which there is none. -/
theorem setLong_notStored : ∃ commands', RunsTo DemandStep initial commands' ∧
    ¬ commands'.WellStored := by
  have nothing : ([0x78] : List UInt8) ∉ initial.vars.names := List.not_mem_nil
  have nonzero : (0 : UInt8) ∉ List.replicate 1022 (0x61 : UInt8) := by
    intro zero
    exact absurd (List.eq_of_mem_replicate zero) (by decide)
  have add : initial.vars.CanAdd [0x78] := ⟨by decide, Nat.succ_pos 29, Nat.le_of_ble_eq_true rfl⟩
  have long : ¬ initial.vars.HasBoth [0x78] (List.replicate 1022 0x61) := by
    unfold Variables.HasBoth
    rw [List.length_replicate]
    exact Nat.not_succ_le_self 1024
  have ran : initial.serve (.varSet [0x78] (List.replicate 1022 0x61) (by decide) nonzero) =
      .ok (.badArg, { initial with vars := initial.vars.withNew [0x78] none }) := by
    have set := @Variables.Sound.varSet_new initial.vars [0x78] (List.replicate 1022 0x61)
      Variables.initial_sound nothing
    simp only [serve, set, if_pos add, if_neg long, map_ok, Bool.false_eq_true, if_false]
  refine ⟨_, .single ⟨_, .badArg, ran⟩, ?_⟩
  intro stored
  obtain ⟨place, value, -⟩ := stored.sound.valued ⟨0, none⟩ List.mem_cons_self
  cases value

end Commands

end OsFree.Loader
