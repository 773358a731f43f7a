import OsFree.Loader.ToggleBlocks

/-!
# Variables are set

A variable that is set has the value, and the others have theirs.
-/

namespace OsFree.Loader

open Machine

/-- The values of variables. -/
abbrev Values := List UInt8 → Option (List UInt8)

namespace Variables

variable {vars vars' : Variables} {name value : List UInt8} {i place : Nat}
  {assignment : Assignment}

theorem Sound.valueOf (sound : vars.Sound) (found : vars.names[i]? = some name) :
    vars.valueOf name = ((vars.list[i]?).bind Variable.value).map vars.store.textAt := by
  rw [Variables.valueOf, sound.idxOf?_eq_some_iff.mpr found]
  rfl

theorem valueOf_of_notMem (absent : name ∉ vars.names) : vars.valueOf name = none := by
  rw [Variables.valueOf, List.idxOf?_eq_none_iff.mpr absent]
  rfl

/-- One variable has been set, and the others are as they were. -/
structure SetAt (vars : Variables) (i : Nat) (name value : List UInt8) (vars' : Variables) :
    Prop where
  old : ∀ name', vars.names[i]? = some name' → name' = name
  named : vars'.names[i]? = some name
  valued : ((vars'.list[i]?).bind Variable.value).map vars'.store.textAt = some value
  names : ∀ j, j ≠ i → vars'.names[j]? = vars.names[j]?
  values : ∀ j, j ≠ i → ((vars'.list[j]?).bind Variable.value).map vars'.store.textAt =
    ((vars.list[j]?).bind Variable.value).map vars.store.textAt

theorem SetAt.valueOf (set : vars.SetAt i name value vars') (sound : vars.Sound)
    (sound' : vars'.Sound) :
    vars'.valueOf = Function.update vars.valueOf name (some value) := by
  funext other
  by_cases same : other = name
  · rw [same, Function.update_self, sound'.valueOf set.named]
    exact set.valued
  · rw [Function.update_of_ne same]
    by_cases known : other ∈ vars.names
    · obtain ⟨j, found⟩ := List.mem_iff_getElem?.mp known
      have different : j ≠ i := by
        rintro rfl
        exact same (set.old other found)
      have found' : vars'.names[j]? = some other := (set.names j different).trans found
      rw [sound.valueOf found, sound'.valueOf found']
      exact set.values j different
    · have absent : other ∉ vars'.names := by
        intro known'
        obtain ⟨j, found'⟩ := List.mem_iff_getElem?.mp known'
        by_cases self : j = i
        · rw [self] at found'
          exact same (Option.some.inj (found'.symm.trans set.named))
        · exact known (List.mem_of_getElem? ((set.names j self).symm.trans found'))
      rw [valueOf_of_notMem known, valueOf_of_notMem absent]

theorem Sound.at_value (sound : vars.Sound)
    (found : (vars.list[i]?).bind Variable.value = some place) : vars.store.Stands place := by
  obtain ⟨var, at_i, value⟩ := Option.bind_eq_some_iff.mp found
  obtain ⟨place', value', stands⟩ := sound.valued var (List.mem_of_getElem? at_i)
  rw [Option.some.inj (value.symm.trans value')]
  exact stands

theorem Keeps.valueText (keeps : vars.Keeps vars') (sound : vars.Sound)
    (same : vars'.list[i]? = vars.list[i]?) :
    ((vars'.list[i]?).bind Variable.value).map vars'.store.textAt =
      ((vars.list[i]?).bind Variable.value).map vars.store.textAt := by
  rw [same]
  apply Option.map_congr
  intro place found
  exact (keeps place (sound.at_value found)).2

theorem Assigned.setAt (assigned : vars.Assigned assignment vars') (sound : vars.Sound) :
    vars.SetAt (vars.assignedIndex assignment) assignment.name assignment.value vars' := by
  have elsewhere : ∀ j, j ≠ vars.assignedIndex assignment →
      vars'.names[j]? = vars.names[j]? := by
    intro j other
    rw [names_getElem?, names_getElem?, assigned.others j other]
    apply Option.map_congr
    intro var found
    exact (assigned.keeps _ (sound.named var (List.mem_of_getElem? found))).2
  refine ⟨?_, assigned.index, ?_, elsewhere, ?_⟩
  · intro name' found
    exact Option.some.inj ((assigned.grows.names_getElem? found).symm.trans assigned.index)
  · obtain ⟨name, at_index⟩ := assigned.value
    rw [at_index]
    exact congrArg some assigned.text
  · intro j other
    exact assigned.keeps.valueText sound (assigned.others j other)

theorem setAt_setValue (sound : vars.Sound) (found : vars.names[i]? = some name) :
    vars.SetAt i name (vars.store.textAt place) (vars.setValue i place) := by
  have names : (vars.setValue i place).names = vars.names := sound.names_setValue
  refine ⟨?_, ?_, ?_, ?_, ?_⟩
  · intro name' found'
    exact Option.some.inj (found'.symm.trans found)
  · rw [names]
    exact found
  · obtain ⟨within, -⟩ := List.getElem?_eq_some_iff.mp found
    rw [length_names] at within
    simp [setValue_getElem?, List.getElem?_eq_getElem within]
    rfl
  · intro j _
    rw [names]
  · intro j other
    rw [setValue_getElem?]
    simp only [if_neg (Ne.symm other), Option.map_id']
    rfl

theorem setAt_append (sound : vars.Sound) {var : Variable} (keeps : vars.Keeps vars')
    (names : vars'.names = vars.names ++ [name]) (list : vars'.list = vars.list ++ [var])
    (valued : var.value.map vars'.store.textAt = some value) :
    vars.SetAt vars.list.length name value vars' := by
  refine ⟨?_, ?_, ?_, ?_, ?_⟩
  · intro name' found
    rw [← length_names, List.getElem?_eq_none (Nat.le_refl _)] at found
    cases found
  · rw [names, ← length_names]
    simp
  · rw [list, List.getElem?_concat_length]
    exact valued
  · intro j other
    rw [names]
    rcases Nat.lt_or_gt_of_ne other with before | behind
    · rw [List.getElem?_append_left (by rw [length_names]; exact before)]
    · rw [List.getElem?_eq_none (by rw [List.length_append, length_names]; exact behind),
        List.getElem?_eq_none (by rw [length_names]; exact Nat.le_of_lt behind)]
  · intro j other
    refine keeps.valueText sound ?_
    rw [list]
    rcases Nat.lt_or_gt_of_ne other with before | behind
    · rw [List.getElem?_append_left before]
    · rw [List.getElem?_eq_none (Nat.le_of_lt behind), List.getElem?_eq_none (by simp; omega)]

theorem setAt_withNew (sound : vars.Sound) (fits : vars.HasRoom name) (nonzero : 0 ∉ name)
    (stands : vars.store.Stands place) :
    vars.SetAt vars.list.length name (vars.store.textAt place)
      (vars.withNew name (some place)) := by
  have keeps := @keeps_withNew vars name (some place) sound.size fits
  exact setAt_append sound keeps (sound.names_withNew fits nonzero) rfl
    (congrArg some (keeps place stands).2)

theorem setAt_kept (sound : vars.Sound) (fits : vars.HasRoom value) (nonzero : 0 ∉ value)
    (found : vars.names[i]? = some name) :
    ((vars.kept value).setValue i vars.store.top).Sound ∧
      vars.SetAt i name value ((vars.kept value).setValue i vars.store.top) := by
  have kept := @Sound.kept vars value sound fits
  have keeps := @keeps_kept vars value sound.size fits
  have names := @Sound.names_kept vars value sound fits
  obtain ⟨stands, text⟩ := kept_self sound.size fits nonzero
  have set := @setAt_setValue (vars.kept value) name i vars.store.top kept (names ▸ found)
  rw [text] at set
  refine ⟨kept.setValue stands, ?_, set.named, set.valued, ?_, ?_⟩
  · rw [← names]
    exact set.old
  · rw [← names]
    exact set.names
  · intro j other
    exact (set.values j other).trans (keeps.valueText sound rfl)

/-- The variables with a new one whose value is stored behind its name. -/
def withBoth (vars : Variables) (name value : List UInt8) : Variables where
  store := (vars.store.placed name).placed value
  list := vars.list ++ [⟨vars.store.top, some (vars.store.top + (name.length + 1))⟩]

/-- There is room for a name and a value. -/
def HasBoth (vars : Variables) (name value : List UInt8) : Prop :=
  vars.store.top + (name.length + 1) + value.length + 1 ≤ VARIABLE_STORE_SIZE

instance (vars : Variables) (name value : List UInt8) : Decidable (vars.HasBoth name value) :=
  inferInstanceAs (Decidable (_ ≤ _))

theorem hasRoom_of_hasBoth (fits : vars.HasBoth name value) : vars.HasRoom name := by
  unfold HasBoth at fits
  unfold HasRoom
  omega

section

variable (sound : vars.Sound) (fits : vars.HasBoth name value)
include sound fits

theorem withNew_size {value' : Option Nat} :
    (vars.withNew name value').store.bytes.length = VARIABLE_STORE_SIZE :=
  kept_size sound.size (hasRoom_of_hasBoth fits)

theorem keeps_withBoth : vars.Keeps (vars.withBoth name value) ∧
    (vars.withNew name none).Keeps (vars.withBoth name value) := by
  have behind : (vars.withNew name none).Keeps (vars.withBoth name value) :=
    @keeps_kept (vars.withNew name none) value (withNew_size sound fits) fits
  exact ⟨(keeps_withNew sound.size (hasRoom_of_hasBoth fits)).trans behind, behind⟩

theorem withBoth_self (nonzero : 0 ∉ name) (nonzero' : 0 ∉ value) :
    ((vars.withBoth name value).store.Stands vars.store.top ∧
        (vars.withBoth name value).store.textAt vars.store.top = name) ∧
      (vars.withBoth name value).store.Stands (vars.store.top + (name.length + 1)) ∧
        (vars.withBoth name value).store.textAt (vars.store.top + (name.length + 1)) =
          value := by
  obtain ⟨stands, text⟩ := kept_self sound.size (hasRoom_of_hasBoth fits) nonzero
  obtain ⟨stands', text'⟩ := (keeps_withBoth sound fits).2 vars.store.top stands
  refine ⟨⟨stands', text'.trans text⟩, ?_⟩
  exact @kept_self (vars.withNew name none) value (withNew_size sound fits) fits nonzero'

theorem names_withBoth (nonzero : 0 ∉ name) :
    (vars.withBoth name value).names = vars.names ++ [name] := by
  have keeps := (keeps_withBoth sound fits).1
  obtain ⟨stands, text⟩ := kept_self sound.size (hasRoom_of_hasBoth fits) nonzero
  have self := ((keeps_withBoth sound fits).2 vars.store.top stands).2.trans text
  simp only [Variables.names, withBoth, List.map_append, List.map_cons, List.map_nil]
  congr 1
  · refine List.map_congr_left ?_
    intro var member
    exact (keeps var.name (sound.named var member)).2
  · exact congrArg (fun name => [name]) self

theorem Sound.withBoth (can : vars.CanAdd name) (name_ne : name ≠ []) (nonzero : 0 ∉ name)
    (nonzero' : 0 ∉ value) (new : name ∉ vars.names) : (vars.withBoth name value).Sound := by
  obtain ⟨-, few, -⟩ := can
  have keeps := (keeps_withBoth sound fits).1
  obtain ⟨⟨stands, -⟩, stands', -⟩ := withBoth_self sound fits nonzero nonzero'
  have names := names_withBoth sound fits nonzero
  refine ⟨?_, ?_, ?_, ?_, ?_, ?_, ?_⟩
  · exact @kept_size (vars.withNew name none) value (withNew_size sound fits) fits
  · exact fits
  · simp only [Variables.withBoth, List.length_append, List.length_singleton]
    exact few
  · intro var member
    rcases List.mem_append.mp member with old | last
    · exact (keeps var.name (sound.named var old)).1
    · rw [List.mem_singleton.mp last]
      exact stands
  · intro var member
    rcases List.mem_append.mp member with old | last
    · obtain ⟨place', value, stands'⟩ := sound.valued var old
      exact ⟨place', value, (keeps place' stands').1⟩
    · rw [List.mem_singleton.mp last]
      exact ⟨_, rfl, stands'⟩
  · rw [names]
    exact List.nodup_append_comm.mp (List.nodup_cons.mpr ⟨new, sound.distinct⟩)
  · rw [names, List.mem_append, List.mem_singleton]
    exact not_or.mpr ⟨sound.nonempty, name_ne.symm⟩

theorem setAt_withBoth (nonzero : 0 ∉ name) (nonzero' : 0 ∉ value) :
    vars.SetAt vars.list.length name value (vars.withBoth name value) :=
  setAt_append sound (keeps_withBoth sound fits).1 (names_withBoth sound fits nonzero) rfl
    (congrArg some (withBoth_self sound fits nonzero nonzero').2.2)

end

theorem Sound.varSet_known (sound : vars.Sound) (found : vars.names[i]? = some name)
    (at_value : (vars.list[i]?).bind Variable.value = some place) :
    vars.varSet name value = .ok (if value.length ≤ (vars.store.textAt place).length then
        (true, { vars with store := vars.store.put place value })
      else if vars.HasRoom value then
        (true, (vars.kept value).setValue i vars.store.top)
      else (false, vars)) := by
  have stands := sound.at_value at_value
  simp only [Variables.varSet, sound.varGetIndex, bind_ok,
    sound.idxOf?_eq_some_iff.mpr found, at_value, stands.stringAt]
  split_ifs with short fits
  · have within : place + value.length + 1 ≤ vars.store.bytes.length := by
      have below := stands.1
      have above := stands.2
      omega
    rw [Arena.copyTo_of_fits within]
    rfl
  · rw [keep_of_room sound.size fits]
    rfl
  · rw [keep_of_full sound.size fits]
    rfl

theorem Sound.varSet_new (sound : vars.Sound) (new : name ∉ vars.names) :
    vars.varSet name value = .ok (if vars.CanAdd name then
        if vars.HasBoth name value then (true, vars.withBoth name value)
        else (false, vars.withNew name none)
      else (false, vars)) := by
  simp only [Variables.varSet, sound.varGetIndex, bind_ok, List.idxOf?_eq_none_iff.mpr new]
  split_ifs with can fits
  · have kept := @keep_of_room (vars.withNew name none) value (withNew_size sound fits) fits
    rw [addName_of_canAdd sound.size can]
    simp only [bind_ok, kept]
    have list := congrArg Variables.list
      (@setValue_withNew vars name (vars.store.top + (name.length + 1)) none)
    exact congrArg (fun list => Except.ok (true, Variables.mk _ list)) list
  · have size : (vars.withNew name none).store.bytes.length = VARIABLE_STORE_SIZE :=
      kept_size sound.size can.2.2
    rw [addName_of_canAdd sound.size can]
    simp only [bind_ok, @keep_of_full (vars.withNew name none) value size fits]
    rfl
  · rw [addName_of_not sound.size sound.few can]
    rfl

end Variables

/-!
## Blocks are applied

Variables are values by names.  A block gives its values to its variables, one
after the other.
-/

/-- The values after the assignments of a block. -/
def applied (values : Values) (block : List Assignment) : Values := block.foldl
    (fun values assignment => Function.update values assignment.name (some assignment.value))
    values

namespace Variables

/-- The variables with the values of entries. -/
def pointed (vars : Variables) : List Entry → Variables
  | [] => vars
  | ⟨some i, some place⟩ :: entries => (vars.setValue i place).pointed entries
  | _ :: entries => vars.pointed entries

/-- The variable of an entry with a value is there. -/
def Valid (vars : Variables) (entry : Entry) : Prop :=
  entry.var ≠ none ∧ ∀ i place, entry = ⟨some i, some place⟩ →
    i < vars.list.length ∧ vars.store.Stands place

variable {vars : Variables} {entry : Entry} {entries : List Entry} {i place : Nat}

/-- What entries have made of variables. -/
structure Pointed (vars : Variables) (entries : List Entry) (vars' : Variables) : Prop where
  sound : vars'.Sound
  store : vars'.store = vars.store
  names : vars'.names = vars.names
  values : vars'.valueOf = applied vars.valueOf (entries.filterMap vars.assignmentOf)

theorem assignmentOf_setValue (sound : vars.Sound) :
    (vars.setValue i place).assignmentOf = vars.assignmentOf := by
  funext entry
  have names : (vars.setValue i place).names = vars.names := sound.names_setValue
  have store : (vars.setValue i place).store = vars.store := rfl
  simp only [assignmentOf, names, store]

theorem Valid.setValue (valid : vars.Valid entry) : (vars.setValue i place).Valid entry := by
  refine ⟨valid.1, ?_⟩
  intro j place' equal
  obtain ⟨within, stands⟩ := valid.2 j place' equal
  exact ⟨by simpa [Variables.setValue] using within, stands⟩

theorem Valid.of_assignmentOf {assignment : Assignment}
    (stands : ∀ place, entry.value = some place → vars.store.Stands place)
    (assigns : vars.assignmentOf entry = some assignment) : vars.Valid entry := by
  obtain ⟨i, place, rfl, found, -⟩ := assignmentOf_eq_some_iff.mp assigns
  refine ⟨Option.some_ne_none i, ?_⟩
  intro j place' equal
  cases equal
  obtain ⟨within, -⟩ := List.getElem?_eq_some_iff.mp found
  rw [length_names] at within
  exact ⟨within, stands place rfl⟩

theorem Sound.applyEntries_cons (sound : vars.Sound) (within : i < vars.list.length)
    (stands : vars.store.Stands place) :
    Commands.applyEntries (⟨some i, some place⟩ :: entries) vars =
      Commands.applyEntries entries (vars.setValue i place) := by
  have found : vars.names[i]? = some (vars.store.textAt vars.list[i].name) := by
    rw [names_getElem?, List.getElem?_eq_getElem within]
    rfl
  have named := sound.named _ (List.getElem_mem within)
  simp only [Commands.applyEntries, List.getElem?_eq_getElem within, named.stringAt,
    bind_ok, sound.varSetNoCopy (sound.place_lt stands),
    sound.idxOf?_eq_some_iff.mpr found]

theorem Sound.pointed (sound : vars.Sound) (valid : ∀ entry ∈ entries, vars.Valid entry) :
    vars.Pointed entries (vars.pointed entries) ∧
      Commands.applyEntries entries vars = .ok (vars.pointed entries) := by
  induction entries generalizing vars with
  | nil => exact ⟨⟨sound, rfl, rfl, rfl⟩, rfl⟩
  | cons entry entries ih =>
    obtain ⟨first, others⟩ := List.forall_mem_cons.mp valid
    obtain ⟨var, value⟩ := entry
    cases var with
    | none => exact absurd rfl first.1
    | some i =>
      cases value with
      | none =>
        obtain ⟨pointed, ran⟩ := ih sound others
        have nothing : vars.assignmentOf ⟨some i, none⟩ = none := rfl
        refine ⟨⟨pointed.sound, pointed.store, pointed.names, ?_⟩, ran⟩
        exact pointed.values
      | some place =>
        obtain ⟨within, stands⟩ := first.2 i place rfl
        obtain ⟨pointed, ran⟩ := ih (sound.setValue stands)
          (fun entry member => (others entry member).setValue)
        have found : vars.names[i]? =
            some (vars.store.textAt vars.list[i].name) := by
          rw [names_getElem?, List.getElem?_eq_getElem within]
          rfl
        have assigns : vars.assignmentOf ⟨some i, some place⟩ =
            some ⟨vars.store.textAt vars.list[i].name, vars.store.textAt place⟩ :=
          assignmentOf_eq_some_iff.mpr ⟨i, place, rfl, found, rfl⟩
        refine ⟨⟨pointed.sound, pointed.store, ?_, ?_⟩, ?_⟩
        · exact pointed.names.trans sound.names_setValue
        · rw [List.filterMap_cons_some assigns]
          have values := pointed.values
          rw [assignmentOf_setValue sound,
            (setAt_setValue sound found).valueOf sound (sound.setValue stands)] at values
          exact values
        · rw [sound.applyEntries_cons within stands]
          exact ran

end Variables

namespace Commands

variable {commands : Commands} {slot bl : Nat} {block : List Assignment}

/-- What the entries of a block assign. -/
def contents (commands : Commands) (slot bl : Nat) : List (Option Assignment) :=
  (List.range ((commands.slots slot).blocks bl).nrVars).map fun var =>
    commands.vars.assignmentOf (commands.entry slot bl var)

/-- The commands with a block applied. -/
def withBlock (commands : Commands) (slot bl : Nat) : Commands := { commands with
    vars := commands.vars.pointed ((List.range ((commands.slots slot).blocks bl).nrVars).map
        ((commands.slots slot).blocks bl).entries) }

theorem toggleDoBlock_of_valid (sound : commands.vars.Sound)
    (used : slot < commands.togglesUsed) (within : bl < (commands.slots slot).nrBlocks)
    (valid : ∀ var, var < ((commands.slots slot).blocks bl).nrVars →
      commands.vars.Valid (commands.entry slot bl var)) :
    commands.toggleDoBlock slot bl = .ok (true, commands.withBlock slot bl) ∧
      commands.vars.Pointed ((List.range ((commands.slots slot).blocks bl).nrVars).map
          ((commands.slots slot).blocks bl).entries) (commands.withBlock slot bl).vars := by
  have pointed := @Variables.Sound.pointed commands.vars
    ((List.range ((commands.slots slot).blocks bl).nrVars).map
      ((commands.slots slot).blocks bl).entries) sound (by
    intro entry member
    obtain ⟨var, among, rfl⟩ := List.mem_map.mp member
    exact valid var (List.mem_range.mp among))
  refine ⟨?_, pointed.1⟩
  have applies : ¬ (commands.togglesUsed ≤ slot ∨ (commands.slots slot).nrBlocks ≤ bl) := by
    omega
  rw [toggleDoBlock, if_neg applies]
  simp only [pointed.2, bind_ok]
  rfl

theorem withBlock_inv (inv : commands.Inv) {entries : List Entry}
    (pointed : commands.vars.Pointed entries (commands.withBlock slot bl).vars) :
    (commands.withBlock slot bl).Inv ∧
      commands.vars.Grows (commands.withBlock slot bl).vars := by
  have stand : ∀ place, commands.vars.store.Stands place →
      (commands.withBlock slot bl).vars.store.Stands place := by
    rw [pointed.store]
    exact fun _ stands => stands
  refine ⟨⟨pointed.sound, ?_, ?_⟩, Variables.Keeps.grows ?_ pointed.names⟩
  · intro slot' bl' var place value
    exact stand place (inv.stand slot' bl' var place value)
  · intro slot' bl' var i place equal
    rw [← Variables.length_names, pointed.names, Variables.length_names]
    exact inv.known slot' bl' var i place equal
  · intro place stands
    exact ⟨stand place stands, by rw [pointed.store]⟩

theorem toggleDoBlock_of_contents (inv : commands.Inv)
    (used : slot < commands.togglesUsed) (within : bl < (commands.slots slot).nrBlocks)
    (contents : commands.contents slot bl = block.map some) :
    commands.toggleDoBlock slot bl = .ok (true, commands.withBlock slot bl) ∧
      (commands.withBlock slot bl).Inv ∧
      commands.vars.Grows (commands.withBlock slot bl).vars ∧
      (commands.withBlock slot bl).vars.valueOf = applied commands.vars.valueOf block := by
  have assigns : ∀ var, var < ((commands.slots slot).blocks bl).nrVars → ∃ assignment,
        commands.vars.assignmentOf (commands.entry slot bl var) = some assignment := by
    intro var below
    have member : commands.vars.assignmentOf (commands.entry slot bl var) ∈
        commands.contents slot bl := List.mem_map_of_mem (List.mem_range.mpr below)
    rw [contents] at member
    obtain ⟨assignment, -, equal⟩ := List.mem_map.mp member
    exact ⟨assignment, equal.symm⟩
  obtain ⟨done, pointed⟩ := toggleDoBlock_of_valid inv.sound used within (by
    intro var below
    obtain ⟨assignment, equal⟩ := assigns var below
    exact .of_assignmentOf (inv.stand slot bl var) equal)
  obtain ⟨inv', grows⟩ := withBlock_inv inv pointed
  refine ⟨done, inv', grows, pointed.values.trans (congrArg _ ?_)⟩
  have same : ((List.range ((commands.slots slot).blocks bl).nrVars).map
      ((commands.slots slot).blocks bl).entries).filterMap commands.vars.assignmentOf =
      (commands.contents slot bl).reduceOption := by
    unfold Commands.contents List.reduceOption entry
    rw [List.filterMap_map, List.filterMap_map]
    rfl
  rw [same, contents]
  simp [List.reduceOption]

end Commands

end OsFree.Loader
