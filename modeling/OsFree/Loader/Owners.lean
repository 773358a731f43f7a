import OsFree.Loader.VariableSteps

/-!
# Owners of the strings in the store

A name, a value and the value of a toggle have a string each.  A variable may refer
to the value of a toggle that is for it.
-/

namespace OsFree.Loader

open Machine

/-- What has a string in the store. -/
inductive Owner where
  | name (i : Nat)
  | value (i : Nat)
  | entry (slot bl var : Nat)
  deriving DecidableEq

namespace Commands

/-- A variable has the value of an entry, which is for no other. -/
def Refers (commands : Commands) (i slot bl var : Nat) : Prop :=
  (commands.vars.list[i]?).bind Variable.value = (commands.entry slot bl var).value ∧
    ∀ k, (commands.entry slot bl var).var = some k → k = i

def placeOf (commands : Commands) : Owner → Option Nat
  | .name i => (commands.vars.list[i]?).map Variable.name
  | .value i => (commands.vars.list[i]?).bind Variable.value
  | .entry slot bl var => (commands.entry slot bl var).value

def Shares (commands : Commands) : Owner → Owner → Prop
  | .value i, .entry slot bl var => commands.Refers i slot bl var
  | .entry slot bl var, .value i => commands.Refers i slot bl var
  | _, _ => False

/-- The owners and their strings. -/
def owners (commands : Commands) : Ownership Owner where
  place := commands.placeOf
  shares := commands.Shares

/-- The strings of the owners are apart, but for values that are referred to. -/
def Apart (commands : Commands) : Prop := commands.vars.store.Owned commands.owners

variable {commands commands' : Commands} {slot bl var i place : Nat} {item : Item}
  {entries : List Entry}

theorem shares_symm {owner owner' : Owner} (shares : commands.Shares owner owner') :
    commands.Shares owner' owner := by
  cases owner <;> cases owner' <;> exact shares

theorem Apart.congr (apart : commands.Apart) (vars : commands'.vars = commands.vars)
    (entries : ∀ slot bl var, commands'.entry slot bl var = commands.entry slot bl var) :
    commands'.Apart := by
  have same : commands'.owners = commands.owners := by
    unfold owners
    congr 1
    · funext owner
      cases owner <;> simp only [placeOf, vars, entries]
    · funext owner owner'
      cases owner <;> cases owner' <;> simp only [Shares, Refers, vars, entries]
  unfold Apart
  rw [vars, same]
  exact apart

/-! ## A value is pointed at -/

/-- A variable can have the string at some place: it is apart from the others, or
the value of a toggle that is for this variable. -/
structure Free (commands : Commands) (i place : Nat) : Prop where
  names : ∀ j place' : Nat, (commands.vars.list[j]?).map Variable.name = some place' →
    (commands.vars.store.span place).Apart (commands.vars.store.span place')
  values : ∀ j place' : Nat, j ≠ i → (commands.vars.list[j]?).bind Variable.value = some place' →
    (commands.vars.store.span place).Apart (commands.vars.store.span place')
  entries : ∀ slot bl var place' : Nat, (commands.entry slot bl var).value = some place' →
    (commands.vars.store.span place).Apart (commands.vars.store.span place') ∨
      place' = place ∧ ∀ k, (commands.entry slot bl var).var = some k → k = i

section

variable (within : i < commands.vars.list.length)
include within

theorem setValue_self :
    ((commands.vars.setValue i place).list[i]?).bind Variable.value = some place := by
  rw [Variables.setValue_getElem?, List.getElem?_eq_getElem within]
  simp

omit within in
theorem setValue_of_ne {j : Nat} (other : j ≠ i) :
    (commands.vars.setValue i place).list[j]? = commands.vars.list[j]? := by
  rw [Variables.setValue_getElem?]
  simp only [if_neg (Ne.symm other), Option.map_id']

theorem Apart.setValue (apart : commands.Apart) (stands : commands.vars.store.Stands place)
    (free : commands.Free i place) :
    Apart { commands with vars := commands.vars.setValue i place } := by
  refine @Arena.Owned.of_move Owner _ _ _ (.value i) _ apart ?_ ?_ (fun _ => shares_symm) stands
    (setValue_self within) ?_
  · intro owner other
    cases owner with
    | name j =>
      have names := congrArg (·[j]?) (@Variables.setValue_names commands.vars i place)
      simp only [List.getElem?_map] at names
      exact names
    | value j =>
      have different : j ≠ i := fun same => other (congrArg Owner.value same)
      exact congrArg (fun var => Option.bind var Variable.value) (setValue_of_ne different)
    | entry => rfl
  · have same : ∀ j slot bl var, Owner.value j ≠ .value i → commands.Refers j slot bl var →
        Refers { commands with vars := commands.vars.setValue i place } j slot bl var := by
      intro j slot bl var other refers
      have different : j ≠ i := fun same => other (congrArg Owner.value same)
      refine ⟨?_, refers.2⟩
      rw [setValue_of_ne different]
      exact refers.1
    intro owner owner' other other' shares
    cases owner <;> cases owner' <;> first
      | exact same _ _ _ _ other shares
      | exact same _ _ _ _ other' shares
      | exact shares
  · intro owner place' other at_owner alone
    cases owner with
    | name j => exact free.names j place' at_owner
    | value j =>
      have different : j ≠ i := fun same => other (congrArg Owner.value same)
      exact free.values j place' different at_owner
    | entry slot bl var =>
      refine (free.entries slot bl var place' at_owner).resolve_right ?_
      rintro ⟨rfl, forThis⟩
      exact alone ⟨(setValue_self within).trans at_owner.symm, forThis⟩

end

theorem Apart.free (apart : commands.Apart)
    (at_entry : commands.entry slot bl var = ⟨some i, some place⟩) :
    commands.Free i place := by
  have at_owner : commands.owners.place (.entry slot bl var) = some place :=
    congrArg Entry.value at_entry
  constructor
  · intro j place' at_name
    exact apart.apart (.entry slot bl var) (.name j) place place' Owner.noConfusion at_owner
      at_name id
  · intro j place' other at_value
    refine apart.apart (.entry slot bl var) (.value j) place place' Owner.noConfusion at_owner
      at_value ?_
    intro refers
    exact other (refers.2 i (congrArg Entry.var at_entry)).symm
  · intro slot' bl' var' place' at_entry'
    by_cases same : Owner.entry slot' bl' var' = .entry slot bl var
    · cases same
      rw [at_entry] at at_entry'
      refine .inr ⟨(Option.some.inj at_entry').symm, ?_⟩
      intro k forK
      rw [at_entry] at forK
      exact (Option.some.inj forK).symm
    · exact .inl (apart.apart (.entry slot bl var) (.entry slot' bl' var') place place'
        (Ne.symm same) at_owner at_entry' id)

theorem Apart.pointed (apart : commands.Apart) (inv : commands.Inv)
    (among : ∀ entry ∈ entries, ∃ slot bl var, commands.entry slot bl var = entry) :
    Apart { commands with vars := commands.vars.pointed entries } := by
  induction entries generalizing commands with
  | nil => exact apart
  | cons entry entries ih =>
    obtain ⟨⟨slot, bl, var, at_entry⟩, others⟩ := List.forall_mem_cons.mp among
    match entry with
    | ⟨none, _⟩ | ⟨some _, none⟩ => exact ih apart inv others
    | ⟨some i, some place⟩ =>
      have within := inv.known slot bl var i place at_entry
      have stands := inv.stand slot bl var place (congrArg Entry.value at_entry)
      refine @ih
        { commands with vars := commands.vars.setValue i place }
        (apart.setValue within stands (apart.free at_entry)) ⟨?_, ?_, ?_⟩ others
      · exact inv.sound.setValue stands
      · exact inv.stand
      · intro slot bl var j place' equal
        have below := inv.known slot bl var j place' equal
        simpa [Variables.setValue] using below

/-! ## A value is stored -/

/-- A variable gets a string of its own, and with it an entry may. -/
structure Stores (commands : Commands) (i place : Nat) (new : Prop)
    (changed : Nat → Nat → Nat → Prop) (commands' : Commands) : Prop where
  keeps : commands.vars.Keeps commands'.vars
  others : ∀ j, j ≠ i → commands'.vars.list[j]? = commands.vars.list[j]?
  valued : (commands'.vars.list[i]?).bind Variable.value = some place
  stands : commands'.vars.store.Stands place
  above : commands.vars.store.top ≤ place
  nameSame : ¬ new → (commands'.vars.list[i]?).map Variable.name =
    (commands.vars.list[i]?).map Variable.name
  nameNew : new → ∃ place', (commands'.vars.list[i]?).map Variable.name = some place' ∧
    commands'.vars.store.Stands place' ∧ commands.vars.store.top ≤ place' ∧
    (commands'.vars.store.span place').Apart (commands'.vars.store.span place)
  entrySame : ∀ slot bl var, ¬ changed slot bl var →
    commands'.entry slot bl var = commands.entry slot bl var
  entryNew : ∀ slot bl var, changed slot bl var → commands'.entry slot bl var = ⟨some i, some place⟩
  one : ∀ slot bl var slot' bl' var', changed slot bl var → changed slot' bl' var' →
    Owner.entry slot bl var = .entry slot' bl' var'

theorem Stores.apart {new : Prop} {changed : Nat → Nat → Nat → Prop}
    (stores : commands.Stores i place new changed commands') (apart : commands.Apart) :
    commands'.Apart := by
  refine Arena.Owned.of_fresh apart (fun
      | .name j => j = i ∧ new
      | .value j => j = i
      | .entry slot bl var => changed slot bl var)
    stores.keeps ?_ ?_ ?_ ?_
  · intro owner same
    cases owner with
    | name j =>
      by_cases self : j = i
      · subst self
        exact stores.nameSame fun new => same ⟨rfl, new⟩
      · exact congrArg (Option.map Variable.name) (stores.others j self)
    | value j =>
      exact congrArg (fun var => Option.bind var Variable.value) (stores.others j same)
    | entry slot bl var =>
      exact congrArg Entry.value (stores.entrySame slot bl var same)
  · have same : ∀ j slot bl var, j ≠ i → ¬ changed slot bl var →
        commands.Refers j slot bl var → commands'.Refers j slot bl var := by
      intro j slot bl var other old refers
      unfold Refers
      rw [stores.others j other, stores.entrySame slot bl var old]
      exact refers
    intro owner owner' old old' shares
    cases owner <;> cases owner' <;> first
      | exact same _ _ _ _ old old' shares
      | exact same _ _ _ _ old' old shares
      | exact shares
  · intro owner place' isNew at_owner
    cases owner with
    | name j =>
      obtain ⟨rfl, new⟩ := isNew
      obtain ⟨place'', at_name, stands, above, -⟩ := stores.nameNew new
      obtain rfl := Option.some.inj (at_name.symm.trans at_owner)
      exact ⟨stands, above⟩
    | value j =>
      obtain rfl : j = i := isNew
      obtain rfl := Option.some.inj (stores.valued.symm.trans at_owner)
      exact ⟨stores.stands, stores.above⟩
    | entry slot bl var =>
      have at_entry := congrArg Entry.value (stores.entryNew slot bl var isNew)
      obtain rfl := Option.some.inj (at_entry.symm.trans at_owner)
      exact ⟨stores.stands, stores.above⟩
  · intro owner owner' place' place'' isNew isNew' different at_owner at_owner' alone
    have nameApart : ∀ j place' place'', j = i ∧ new →
        commands'.placeOf (.name j) = some place' → place'' = place →
        (commands'.vars.store.span place').Apart (commands'.vars.store.span place'') := by
      rintro j place' place'' ⟨rfl, new⟩ at_name rfl
      obtain ⟨_, at_name', -, -, apart⟩ := stores.nameNew new
      obtain rfl := Option.some.inj (at_name'.symm.trans at_name)
      exact apart
    have valueAt : ∀ j place', j = i → commands'.placeOf (.value j) = some place' →
        place' = place := by
      rintro j place' rfl at_value
      exact Option.some.inj (at_value.symm.trans stores.valued)
    have entryAt : ∀ slot bl var place', changed slot bl var →
        commands'.placeOf (.entry slot bl var) = some place' → place' = place := by
      intro slot bl var place' isNew at_entry
      exact Option.some.inj
        (at_entry.symm.trans (congrArg Entry.value (stores.entryNew slot bl var isNew)))
    have together : ∀ j slot bl var, j = i → changed slot bl var →
        commands'.Refers j slot bl var := by
      rintro j slot bl var rfl isNew
      unfold Refers
      rw [stores.entryNew slot bl var isNew]
      exact ⟨stores.valued, fun k forK => (Option.some.inj forK).symm⟩
    cases owner with
    | name j =>
      cases owner' with
      | name j' => exact absurd (congrArg Owner.name (isNew.1.trans isNew'.1.symm)) different
      | value j' => exact nameApart j _ _ isNew at_owner (valueAt j' _ isNew' at_owner')
      | entry slot bl var =>
        exact nameApart j _ _ isNew at_owner (entryAt slot bl var _ isNew' at_owner')
    | value j =>
      cases owner' with
      | name j' =>
        exact Or.symm (nameApart j' _ _ isNew' at_owner' (valueAt j _ isNew at_owner))
      | value j' => exact absurd (congrArg Owner.value (isNew.trans isNew'.symm)) different
      | entry slot bl var => exact absurd (together j slot bl var isNew isNew') alone
    | entry slot bl var =>
      cases owner' with
      | name j' =>
        exact Or.symm (nameApart j' _ _ isNew' at_owner' (entryAt slot bl var _ isNew at_owner))
      | value j' => exact absurd (together j' slot bl var isNew' isNew) alone
      | entry slot' bl' var' =>
        exact absurd (stores.one slot bl var slot' bl' var' isNew isNew') different

end Commands

/-!
## Strings of owners stay apart

Each way to set a variable keeps the strings apart, and the values of the others.
-/

namespace Commands

variable {commands commands' : Commands} {slot bl var i place : Nat} {item : Item}
  {name value : List UInt8}

/-! ## New strings -/

theorem span_apart_of_le {arena : Arena} {before behind : Nat} {text : List UInt8}
    (text_eq : arena.textAt before = text) (le : before + (text.length + 1) ≤ behind) :
    (arena.span before).Apart (arena.span behind) := by
  refine .inl ?_
  unfold Span.stop Arena.span
  rw [text_eq]
  exact le

section

variable (apart : commands.Apart) (inv : commands.Inv)

include apart inv

theorem Apart.stored (can : commands.CanStore slot item) : (commands.stored slot item).Apart := by
  by_cases reused : commands.Reused slot item
  · refine apart.congr ?_ ?_
    · rw [stored_vars, if_pos reused]
    · intro slot' bl var
      rw [stored_entry, if_neg (fun new => new.2 reused)]
  · have assigned := inv.sound.assigned can.clean (can.can reused)
    have vars : (commands.stored slot item).vars = commands.vars.assigned item.assignment := by
      rw [stored_vars, if_neg reused]
    have stores : commands.Stores (commands.vars.assignedIndex item.assignment)
        commands.vars.store.top (item.assignment.name ∉ commands.vars.names)
        (fun slot' bl var => slot' = slot ∧ bl = item.bl ∧ var = item.var)
        (commands.stored slot item) := by
      refine ⟨?_, ?_, ?_, ?_, Nat.le_refl _, ?_, ?_, ?_, ?_, ?_⟩
      · rw [vars]
        exact assigned.keeps
      · rw [vars]
        exact assigned.others
      · obtain ⟨name, at_index⟩ := assigned.value
        rw [vars, at_index]
        rfl
      · rw [vars]
        exact assigned.stands
      · intro known
        have found := List.mem_iff_getElem?.mp (not_not.mp known)
        obtain ⟨i, found⟩ := found
        have at_i := inv.sound.idxOf?_eq_some_iff.mpr found
        rw [vars, Variables.assigned, Variables.assignedIndex, at_i]
        have names := congrArg (·[i]?) (@Variables.setValue_names
          (commands.vars.kept item.assignment.value) i commands.vars.store.top)
        simp only [List.getElem?_map, Variables.kept_list] at names
        exact names
      · intro new
        have absent := List.idxOf?_eq_none_iff.mpr new
        have index : commands.vars.assignedIndex item.assignment = commands.vars.list.length := by
          simp [Variables.assignedIndex, absent]
        have shape : commands.vars.assigned item.assignment =
            (commands.vars.kept item.assignment.value).withNew item.assignment.name
              (some commands.vars.store.top) := by
          simp [Variables.assigned, absent]
        refine ⟨commands.vars.store.top + (item.assignment.value.length + 1), ?_, ?_, ?_, ?_⟩
        · rw [vars, index, shape]
          simp [Variables.withNew]
        · have named := assigned.sound.named
            ⟨commands.vars.store.top + (item.assignment.value.length + 1),
              some commands.vars.store.top⟩ (by
                rw [shape]
                simp [Variables.withNew])
          rw [vars]
          exact named
        · omega
        · rw [vars]
          exact Or.symm (span_apart_of_le assigned.text (Nat.le_refl _))
      · intro slot' bl var old
        rw [stored_entry, if_neg (fun new => old new.1)]
      · rintro slot' bl var ⟨rfl, rfl, rfl⟩
        rw [stored_entry, if_pos ⟨⟨rfl, rfl, rfl⟩, reused⟩]
      · rintro slot bl var slot' bl' var' ⟨rfl, rfl, rfl⟩ ⟨rfl, rfl, rfl⟩
        rfl
    exact stores.apart apart

theorem Apart.setKept (fits : commands.vars.HasRoom value) (nonzero : 0 ∉ value)
    (within : i < commands.vars.list.length) :
    Apart { commands with
      vars := (commands.vars.kept value).setValue i commands.vars.store.top } := by
  obtain ⟨stands, -⟩ := Variables.kept_self inv.sound.size fits nonzero
  have stores : commands.Stores i commands.vars.store.top False (fun _ _ _ => False)
      { commands with
        vars := (commands.vars.kept value).setValue i commands.vars.store.top } := by
    refine ⟨Variables.keeps_kept inv.sound.size fits, ?_, ?_, stands, Nat.le_refl _, ?_,
      False.elim, fun _ _ _ _ => rfl, fun _ _ _ => False.elim, fun _ _ _ _ _ _ => False.elim⟩
    · intro j other
      exact @setValue_of_ne { commands with vars := commands.vars.kept value } i _ j other
    · exact @setValue_self { commands with vars := commands.vars.kept value } i _ within
    · intro _
      have names := congrArg (·[i]?) (@Variables.setValue_names
        (commands.vars.kept value) i commands.vars.store.top)
      simp only [List.getElem?_map] at names
      exact names
  exact stores.apart apart

theorem Apart.withBoth
    (fits : commands.vars.HasBoth name value) (nonzero : 0 ∉ name) (nonzero' : 0 ∉ value) :
    Apart { commands with vars := commands.vars.withBoth name value } := by
  obtain ⟨⟨stands, text⟩, stands', -⟩ := Variables.withBoth_self inv.sound fits nonzero nonzero'
  have last : (commands.vars.withBoth name value).list[commands.vars.list.length]? =
      some ⟨commands.vars.store.top, some (commands.vars.store.top + (name.length + 1))⟩ := by
    simp [Variables.withBoth]
  have stores : commands.Stores commands.vars.list.length
      (commands.vars.store.top + (name.length + 1)) True (fun _ _ _ => False)
      { commands with vars := commands.vars.withBoth name value } := by
    refine ⟨(Variables.keeps_withBoth inv.sound fits).1, ?_, ?_, stands', Nat.le_add_right _ _,
      fun old => absurd trivial old, ?_, fun _ _ _ _ => rfl, fun _ _ _ => False.elim,
      fun _ _ _ _ _ _ => False.elim⟩
    · intro j other
      rcases Nat.lt_or_gt_of_ne other with before | behind
      · simp [Variables.withBoth, List.getElem?_append_left before]
      · rw [List.getElem?_eq_none (Nat.le_of_lt behind)]
        exact List.getElem?_eq_none (by simp [Variables.withBoth]; omega)
    · exact congrArg (fun var => Option.bind var Variable.value) last
    · intro _
      exact ⟨commands.vars.store.top, congrArg (Option.map Variable.name) last, stands,
        Nat.le_refl _, span_apart_of_le text (Nat.le_refl _)⟩
  exact stores.apart apart

/-! ## A new variable for a string that is there -/

theorem Apart.withName (fits : commands.vars.HasRoom name) (nonzero : 0 ∉ name) :
    Apart { commands with vars := commands.vars.withNew name none } := by
  obtain ⟨stands, -⟩ := Variables.kept_self inv.sound.size fits nonzero
  have last : (commands.vars.withNew name none).list[commands.vars.list.length]? =
      some ⟨commands.vars.store.top, none⟩ := by
    simp [Variables.withNew]
  have others : ∀ j : Nat, j ≠ commands.vars.list.length →
      (commands.vars.withNew name none).list[j]? = commands.vars.list[j]? := by
    intro j other
    rcases Nat.lt_or_gt_of_ne other with before | behind
    · simp [Variables.withNew, List.getElem?_append_left before]
    · rw [List.getElem?_eq_none (Nat.le_of_lt behind)]
      exact List.getElem?_eq_none (by simp [Variables.withNew]; omega)
  have values : ∀ j : Nat, ((commands.vars.withNew name none).list[j]?).bind Variable.value =
      (commands.vars.list[j]?).bind Variable.value := by
    intro j
    by_cases self : j = commands.vars.list.length
    · subst self
      rw [last, List.getElem?_eq_none (Nat.le_refl _)]
      rfl
    · rw [others j self]
  refine Arena.Owned.of_fresh apart (· = .name commands.vars.list.length)
    (Variables.keeps_withNew inv.sound.size fits) ?_ ?_ ?_ ?_
  · intro owner same
    cases owner with
    | name j =>
      have other : j ≠ commands.vars.list.length := fun self => same (congrArg Owner.name self)
      exact congrArg (Option.map Variable.name) (others j other)
    | value j => exact values j
    | entry => rfl
  · have same : ∀ j slot bl var, commands.Refers j slot bl var →
        Refers { commands with vars := commands.vars.withNew name none } j slot bl var :=
      fun j slot bl var refers => ⟨(values j).trans refers.1, refers.2⟩
    intro owner owner' _ _ shares
    cases owner <;> cases owner' <;> first
      | exact same _ _ _ _ shares
      | exact shares
  · rintro owner place' rfl at_owner
    have at_name : some commands.vars.store.top = some place' :=
      (congrArg (Option.map Variable.name) last).symm.trans at_owner
    obtain rfl := Option.some.inj at_name
    exact ⟨stands, Nat.le_refl _⟩
  · rintro owner owner' place' place'' rfl rfl different
    exact absurd rfl different

theorem Apart.withNew (fits : commands.vars.HasRoom name) (nonzero : 0 ∉ name)
    (stands : commands.vars.store.Stands place)
    (free : commands.Free commands.vars.list.length place) :
    Apart { commands with vars := commands.vars.withNew name (some place) } := by
  have keeps := @Variables.keeps_withNew commands.vars name none inv.sound.size fits
  have named := apart.withName inv fits nonzero
  have within : commands.vars.list.length <
      (commands.vars.withNew name none).list.length := by
    simp [Variables.withNew]
  have before : ∀ j : Nat, j ≠ commands.vars.list.length → ∀ var,
      (commands.vars.withNew name none).list[j]? = some var →
      commands.vars.list[j]? = some var := by
    intro j other var found
    rcases Nat.lt_or_gt_of_ne other with before | behind
    · simpa [Variables.withNew, List.getElem?_append_left before] using found
    · rw [List.getElem?_eq_none (by simp [Variables.withNew]; omega)] at found
      cases found
  have here := Arena.span_eq (keeps place stands).2
  have free' : Free { commands with vars := commands.vars.withNew name none }
      commands.vars.list.length place := by
    refine ⟨?_, ?_, ?_⟩
    · intro j place' at_name
      by_cases self : j = commands.vars.list.length
      · subst self
        have last : (commands.vars.withNew name none).list[commands.vars.list.length]? =
            some ⟨commands.vars.store.top, none⟩ := by
          simp [Variables.withNew]
        obtain rfl : commands.vars.store.top = place' :=
          Option.some.inj ((congrArg (Option.map Variable.name) last).symm.trans at_name)
        refine .inl ?_
        rw [here]
        exact stands.stop_le
      · obtain ⟨var, found, equal⟩ := Option.map_eq_some_iff.mp at_name
        have old := before j self var found
        have stands' := inv.sound.named var (List.mem_of_getElem? old)
        rw [equal] at stands'
        rw [here, Arena.span_eq (keeps place' stands').2]
        exact free.names j place' (by rw [old, Option.map_some, equal])
    · intro j place' other at_value
      obtain ⟨var, found, equal⟩ := Option.bind_eq_some_iff.mp at_value
      have old : (commands.vars.list[j]?).bind Variable.value = some place' := by
        rw [before j other var found]
        exact equal
      rw [here, Arena.span_eq (keeps place' (inv.sound.at_value old)).2]
      exact free.values j place' other old
    · intro slot bl var place' at_entry
      have stands' := inv.stand slot bl var place' at_entry
      rw [here, Arena.span_eq (keeps place' stands').2]
      exact free.entries slot bl var place' at_entry
  have moved := named.setValue within (keeps place stands).1 free'
  rw [Variables.setValue_withNew] at moved
  exact moved

end

/-! ## A value is written over -/

/-- The variables with a string written over another one. -/
def overwritten (vars : Variables) (place : Nat) (value : List UInt8) : Variables :=
  { vars with store := vars.store.put place value }

/-- What is left of the strings when the value of a variable is written over. -/
structure Overwrites (commands : Commands) (i place : Nat) (name value : List UInt8) : Prop where
  apart : Apart { commands with vars := overwritten commands.vars place value }
  sound : (overwritten commands.vars place value).Sound
  set : commands.vars.SetAt i name value (overwritten commands.vars place value)
  names : (overwritten commands.vars place value).names = commands.vars.names
  texts : ∀ slot bl var place', (commands.entry slot bl var).value = some place' →
    (overwritten commands.vars place value).store.textAt place' =
      if place' = place then value else commands.vars.store.textAt place'

theorem Apart.put (apart : commands.Apart) (inv : commands.Inv)
    (found : commands.vars.names[i]? = some name)
    (at_value : (commands.vars.list[i]?).bind Variable.value = some place)
    (short : value.length ≤ (commands.vars.store.textAt place).length) (nonzero : 0 ∉ value) :
    commands.Overwrites i place name value := by
  have at_owner : commands.owners.place (.value i) = some place := at_value
  have together : ∀ other, commands.owners.shares (.value i) other →
      commands.owners.place other = some place := by
    intro other shares
    cases other with
    | name | value => exact shares.elim
    | entry slot bl var => exact shares.1.symm.trans at_value
  have owned := Arena.Owned.put apart at_owner together short nonzero
  obtain ⟨selfStands, selfText⟩ := Arena.Owned.put_self apart at_owner short nonzero
  have keeps : ∀ owner place', commands.placeOf owner = some place' → place' ≠ place →
      (commands.vars.store.put place value).textAt place' =
        commands.vars.store.textAt place' := fun owner place' at_owner' different =>
    (Arena.Owned.kept_by_put apart at_owner together short at_owner' different).2
  have elsewhere : ∀ owner place', owner ≠ .value i → ¬ commands.Shares (.value i) owner →
      commands.placeOf owner = some place' → place' ≠ place := by
    rintro owner place' other alone at_owner' rfl
    exact Arena.not_apart_self (apart.apart owner (.value i) place' place' other at_owner' at_owner
        (fun shares => alone (shares_symm shares)))
  have names : (overwritten commands.vars place value).names = commands.vars.names := by
    refine List.map_congr_left ?_
    intro var member
    obtain ⟨j, at_j⟩ := List.mem_iff_getElem?.mp member
    have at_name : commands.placeOf (.name j) = some var.name :=
      congrArg (Option.map Variable.name) at_j
    exact keeps (.name j) var.name at_name
      (elsewhere (.name j) var.name Owner.noConfusion id at_name)
  refine ⟨owned, ⟨?_, inv.sound.top_le, inv.sound.few, ?_, ?_, ?_, ?_⟩, ⟨?_, ?_, ?_, ?_, ?_⟩,
    names, ?_⟩
  · exact (Arena.length_put (Arena.Owned.fits apart at_owner short)).trans inv.sound.size
  · intro var member
    obtain ⟨j, at_j⟩ := List.mem_iff_getElem?.mp member
    exact owned.stands (.name j) var.name (congrArg (Option.map Variable.name) at_j)
  · intro var member
    obtain ⟨j, at_j⟩ := List.mem_iff_getElem?.mp member
    obtain ⟨place', value', -⟩ := inv.sound.valued var member
    refine ⟨place', value', owned.stands (.value j) place' ?_⟩
    exact (congrArg (fun var => Option.bind var Variable.value) at_j).trans value'
  · rw [names]
    exact inv.sound.distinct
  · rw [names]
    exact inv.sound.nonempty
  · intro name' found'
    exact Option.some.inj (found'.symm.trans found)
  · rw [names]
    exact found
  · exact (congrArg (Option.map _) at_value).trans (congrArg some selfText)
  · intro j _
    rw [names]
  · intro j other
    apply Option.map_congr
    intro place' at_place'
    refine keeps (.value j) place' at_place' (elsewhere (.value j) place' ?_ id at_place')
    exact fun same => other (Owner.value.inj same)
  · intro slot bl var place' at_entry
    split_ifs with same
    · rw [same]
      exact selfText
    · exact keeps (.entry slot bl var) place' at_entry same

end Commands

/-!
## Blocks that are not set

A command that fails leaves the variables as they were if every assignment before
the one that it fails at is there already.
-/

namespace Commands

variable {commands commands' commands'' : Commands} {slot bl var : Nat} {item : Item}
  {items items' : List Item}

/-- There is no room for the value, or the variable cannot be added. -/
def CannotStore (commands : Commands) (item : Item) : Prop :=
  ¬ commands.vars.HasRoom item.assignment.value ∨ item.assignment.name ∉ commands.vars.names ∧
      ¬ (commands.vars.kept item.assignment.value).CanAdd item.assignment.name

/-- An assignment cannot be stored, and those before it are there already. -/
def Stops (commands : Commands) (slot : Nat) : List Item → Prop
  | [] => False
  | item :: items =>
    if commands.Reused slot item then commands.Stops slot items
    else commands.CannotStore item

/-- Only how many entries blocks have is changed. -/
structure Untouched (commands : Commands) (slot : Nat) (commands' : Commands) : Prop where
  vars : commands'.vars = commands.vars
  entries : ∀ slot bl var, commands'.entry slot bl var = commands.entry slot bl var
  others : ∀ slot', slot' ≠ slot → commands'.slots slot' = commands.slots slot'
  keyed : (commands'.slots slot).key = (commands.slots slot).key
  used : commands'.togglesUsed = commands.togglesUsed

/-- The variables are as they were, and the toggles of other slots. -/
structure Spared (commands : Commands) (slot : Nat) (commands' : Commands) : Prop where
  inv : commands'.Inv
  apart : commands'.Apart
  list : commands'.vars.list = commands.vars.list
  keeps : commands.vars.Keeps commands'.vars
  others : ∀ slot', slot' ≠ slot → commands'.slots slot' = commands.slots slot'
  keyed : (commands'.slots slot).key = (commands.slots slot).key
  used : commands'.togglesUsed = commands.togglesUsed

theorem Untouched.refl (commands : Commands) (slot : Nat) : commands.Untouched slot commands :=
  ⟨rfl, fun _ _ _ => rfl, fun _ _ => rfl, rfl, rfl⟩

theorem Untouched.trans (first : commands.Untouched slot commands')
    (second : commands'.Untouched slot commands'') : commands.Untouched slot commands'' where
  vars := second.vars.trans first.vars
  entries := fun slot bl var => (second.entries slot bl var).trans (first.entries slot bl var)
  others := fun slot' other => (second.others slot' other).trans (first.others slot' other)
  keyed := second.keyed.trans first.keyed
  used := second.used.trans first.used

theorem Untouched.spared (untouched : commands.Untouched slot commands') (inv : commands.Inv)
    (apart : commands.Apart) : commands.Spared slot commands' where
  inv := inv.congr untouched.vars untouched.entries
  apart := apart.congr untouched.vars untouched.entries
  list := by rw [untouched.vars]
  keeps := by
    rw [untouched.vars]
    exact .refl _
  others := untouched.others
  keyed := untouched.keyed
  used := untouched.used

theorem Untouched.spared_trans (first : commands.Untouched slot commands')
    (second : commands'.Spared slot commands'') : commands.Spared slot commands'' where
  inv := second.inv
  apart := second.apart
  list := second.list.trans (congrArg Variables.list first.vars)
  keeps := by
    rw [← first.vars]
    exact second.keeps
  others := fun slot' other => (second.others slot' other).trans (first.others slot' other)
  keyed := second.keyed.trans first.keyed
  used := second.used.trans first.used

theorem reused_congr (vars : commands'.vars = commands.vars)
    (entries : ∀ slot bl var, commands'.entry slot bl var = commands.entry slot bl var) :
    commands'.Reused slot item ↔ commands.Reused slot item := by
  unfold Reused held
  rw [vars, entries]

theorem stops_congr (vars : commands'.vars = commands.vars)
    (entries : ∀ slot bl var, commands'.entry slot bl var = commands.entry slot bl var) :
    commands'.Stops slot items ↔ commands.Stops slot items := by
  induction items with
  | nil => rfl
  | cons item items ih =>
    have same : commands'.CannotStore item ↔ commands.CannotStore item := by
      unfold CannotStore
      rw [vars]
    have reused_iff := @reused_congr _ _ slot item vars entries
    unfold Stops
    by_cases reused : commands.Reused slot item
    · rw [if_pos reused, if_pos (reused_iff.mpr reused)]
      exact ih
    · rw [if_neg reused, if_neg (fun again => reused (reused_iff.mp again))]
      exact same

theorem Untouched.reused_iff (untouched : commands.Untouched slot commands') :
    commands'.Reused slot item ↔ commands.Reused slot item :=
  reused_congr untouched.vars untouched.entries

theorem Untouched.stops_iff (untouched : commands.Untouched slot commands') :
    commands'.Stops slot items ↔ commands.Stops slot items :=
  stops_congr untouched.vars untouched.entries

theorem untouched_stored (reused : commands.Reused slot item) :
    commands.Untouched slot (commands.stored slot item) where
  vars := by rw [stored_vars, if_pos reused]
  entries := fun slot' bl var => by rw [stored_entry, if_neg (fun new => new.2 reused)]
  others := fun slot' other =>
    @storeAll_slots_of_ne commands slot [item] slot' other
  keyed := stored_key
  used := stored_togglesUsed

theorem stops_append (stops : commands.Stops slot (items ++ items')) : commands.Stops slot items ∨
      (∀ item ∈ items, commands.Reused slot item) ∧ commands.Stops slot items' := by
  induction items with
  | nil => exact .inr ⟨fun _ member => absurd member List.not_mem_nil, stops⟩
  | cons item items ih =>
    rw [List.cons_append, Stops] at stops
    rw [Stops]
    split_ifs at stops ⊢ with reused
    · rcases ih stops with here | ⟨all, behind⟩
      · exact .inl here
      · exact .inr ⟨List.forall_mem_cons.mpr ⟨reused, all⟩, behind⟩
    · exact .inl stops

/-! ## A value is kept for nothing -/

/-- The commands with a value that no variable has. -/
def wasted (commands : Commands) (slot : Nat) (item : Item) : Commands :=
  { commands with vars := commands.vars.kept item.assignment.value }.changeBlock slot
    item.bl (·.enter item.var ⟨none, (commands.entry slot item.bl item.var).value⟩)

theorem wasted_entry {slot' : Nat} : (commands.wasted slot item).entry slot' bl var =
    if slot' = slot ∧ bl = item.bl ∧ var = item.var then
      ⟨none, (commands.entry slot item.bl item.var).value⟩
    else commands.entry slot' bl var := by
  unfold wasted entry
  rw [changeBlock_blocks]
  by_cases block : slot' = slot ∧ bl = item.bl
  · obtain ⟨rfl, rfl⟩ := block
    by_cases same : var = item.var
    · subst same
      simp
    · simp [same]
  · have elsewhere : ¬ (slot' = slot ∧ bl = item.bl ∧ var = item.var) :=
      fun same => block ⟨same.1, same.2.1⟩
    rw [if_neg block, if_neg elsewhere]

theorem wasted_spared (inv : commands.Inv) (apart : commands.Apart)
    (fits : commands.vars.HasRoom item.assignment.value) :
    commands.Spared slot (commands.wasted slot item) := by
  have keeps := @Variables.keeps_kept _ item.assignment.value inv.sound.size fits
  have values : ∀ slot' bl var, ((commands.wasted slot item).entry slot' bl var).value =
      (commands.entry slot' bl var).value := by
    intro slot' bl var
    rw [wasted_entry]
    split_ifs with same
    · obtain ⟨rfl, rfl, rfl⟩ := same
      rfl
    · rfl
  have vars : ∀ slot' bl var k, ((commands.wasted slot item).entry slot' bl var).var = some k →
      (commands.entry slot' bl var).var = some k := by
    intro slot' bl var k forK
    rw [wasted_entry] at forK
    split_ifs at forK
    exact forK
  refine ⟨⟨inv.sound.kept fits, ?_, ?_⟩, ?_, rfl, keeps, ?_, changeBlock_key, rfl⟩
  · intro slot' bl var place value
    rw [values] at value
    exact (keeps place (inv.stand slot' bl var place value)).1
  · intro slot' bl var i place equal
    rw [wasted_entry] at equal
    split_ifs at equal with same
    · cases equal
    · exact inv.known slot' bl var i place equal
  · refine Arena.Owned.of_fresh apart (fun _ => False) keeps ?_ ?_ ?_ ?_
    · intro owner _
      cases owner with
      | name | value => rfl
      | entry slot' bl var => exact values slot' bl var
    · have same : ∀ j slot' bl var, commands.Refers j slot' bl var →
          (commands.wasted slot item).Refers j slot' bl var := by
        intro j slot' bl var refers
        refine ⟨refers.1.trans (values slot' bl var).symm, ?_⟩
        intro k forK
        exact refers.2 k (vars slot' bl var k forK)
      intro owner owner' _ _ shares
      cases owner <;> cases owner' <;> first
        | exact same _ _ _ _ shares
        | exact shares
    · exact fun _ _ isNew => isNew.elim
    · exact fun _ _ _ _ isNew => isNew.elim
  · intro slot' other
    exact Function.update_of_ne other _ _

section

variable {assignments : List (Option Assignment)} {parts : List Part} {ends : Bool}

theorem processBlock_of_reused (inv : commands.Inv)
    (reused : ∀ item ∈ (readBlock bl var assignments).1, commands.Reused slot item) :
    ∃ ret commands', processBlock slot bl assignments var commands = .ok (ret, commands') ∧
      (ret = .ok ↔ (readBlock bl var assignments).2 = true) ∧
      commands.Untouched slot commands' := by
  induction assignments generalizing var commands with
  | nil => exact ⟨.ok, commands, rfl, by simp [readBlock], .refl _ _⟩
  | cons assignment rest ih =>
    by_cases full : var = MAX_VAR_PER_BLOCK
    · refine ⟨.wontFit, commands, if_pos full, ?_, .refl _ _⟩
      cases assignment <;> simp [readBlock, full]
    · cases assignment with
      | none =>
        refine ⟨.badArg, commands, ?_, by simp [readBlock], .refl _ _⟩
        simp only [processBlock, if_neg full, processVar, bind_ok]
        rfl
      | some assignment =>
        simp only [readBlock, if_neg full] at reused ⊢
        obtain ⟨first, others⟩ := List.forall_mem_cons.mp reused
        have untouched := untouched_stored first
        obtain ⟨ret, commands', ran, told, untouched'⟩ := @ih
          (commands.stored slot ⟨bl, var, assignment⟩) (var + 1)
          (inv.congr untouched.vars untouched.entries)
          (fun item member => untouched.reused_iff.mpr (others item member))
        refine ⟨ret, commands', ?_, told, untouched.trans untouched'⟩
        have done := processVar_of_reused inv.sound inv.stand first
        simp only [processBlock, if_neg full, done, bind_ok, if_true]
        exact ran

theorem processBlock_of_stops (inv : commands.Inv) (apart : commands.Apart)
    (clean : ∀ item ∈ (readBlock bl var assignments).1, item.assignment.Clean)
    (stops : commands.Stops slot (readBlock bl var assignments).1) :
    ∃ ret commands', processBlock slot bl assignments var commands = .ok (ret, commands') ∧
      ret ≠ .ok ∧ commands.Spared slot commands' := by
  induction assignments generalizing var commands with
  | nil => exact stops.elim
  | cons assignment rest ih =>
    cases assignment with
    | none => exact stops.elim
    | some assignment =>
      by_cases full : var = MAX_VAR_PER_BLOCK
      · simp only [readBlock, if_pos full] at stops
        exact stops.elim
      · simp only [readBlock, if_neg full] at stops clean
        obtain ⟨first, others⟩ := List.forall_mem_cons.mp clean
        by_cases reused : commands.Reused slot ⟨bl, var, assignment⟩
        · have untouched := untouched_stored reused
          rw [Stops, if_pos reused] at stops
          obtain ⟨ret, commands', ran, failed, spared⟩ := @ih
            (commands.stored slot ⟨bl, var, assignment⟩) (var + 1)
            (inv.congr untouched.vars untouched.entries)
            (apart.congr untouched.vars untouched.entries) others
            (untouched.stops_iff.mpr stops)
          refine ⟨ret, commands', ?_, failed, untouched.spared_trans spared⟩
          have done := processVar_of_reused inv.sound inv.stand reused
          simp only [processBlock, if_neg full, done, bind_ok, if_true]
          exact ran
        · rw [Stops, if_neg reused] at stops
          by_cases fits : commands.vars.HasRoom assignment.value
          · obtain ⟨fresh, cannot⟩ := stops.resolve_left (not_not.mpr fits)
            have done := processVar_of_not_canAdd inv.sound inv.stand reused fits fresh cannot first
            refine ⟨.badArg, commands.wasted slot ⟨bl, var, assignment⟩, ?_,
              Ret.noConfusion, wasted_spared inv apart fits⟩
            simp only [processBlock, if_neg full, done, bind_ok, Bool.false_eq_true, if_false]
            rfl
          · have done := processVar_of_full inv.sound inv.stand reused fits
            refine ⟨.badArg, commands, ?_, Ret.noConfusion, (Untouched.refl _ _).spared inv apart⟩
            simp only [processBlock, if_neg full, done, bind_ok, Bool.false_eq_true, if_false]
            rfl

theorem processBlocks_of_reused (inv : commands.Inv)
    (reused : ∀ item ∈ (readParts ends bl parts).1, commands.Reused slot item) :
    ∃ ret count commands', processBlocks slot ends parts bl commands = .ok (ret, count, commands') ∧
      (ret = .ok ↔ (readParts ends bl parts).2 = true) ∧
      commands.Untouched slot commands' := by
  induction parts generalizing bl commands with
  | nil =>
    refine ⟨_, bl, commands, rfl, ?_, .refl _ _⟩
    simp only [readParts]
    cases ends <;> simp
  | cons part parts ih =>
    have own : ∀ item ∈ (readBlock bl 0 part.assignments).1, commands.Reused slot item := by
      intro item member
      refine reused item ?_
      simp only [readParts]
      split_ifs
      · exact List.mem_append_left _ member
      · exact member
    obtain ⟨ret, commands', ran, told, untouched⟩ := processBlock_of_reused inv own
    by_cases fine : ret = .ok
    · have read := told.mp fine
      by_cases full : part.more = true ∧ bl + 1 = MAX_BLOCKS
      · refine ⟨.wontFit, bl + 1, commands', ?_, by simp [readParts, full], untouched⟩
        simp only [processBlocks, ran, bind_ok, fine, ne_eq, not_true, if_false, if_pos full]
        rfl
      · simp only [readParts, read, full, not_false_eq_true, and_self, if_true] at reused ⊢
        obtain ⟨ret', count, commands'', ran', told', untouched'⟩ := @ih
          commands' (bl + 1) (inv.congr untouched.vars untouched.entries)
          (fun item member => untouched.reused_iff.mpr
            (reused item (List.mem_append_right _ member)))
        refine ⟨ret', count, commands'', ?_, told', untouched.trans untouched'⟩
        simp only [processBlocks, ran, bind_ok, fine, ne_eq, not_true, if_false, if_neg full]
        exact ran'
    · have unread : (readBlock bl 0 part.assignments).2 ≠ true := fun read => fine (told.mpr read)
      refine ⟨ret, bl, commands', ?_, by simp [readParts, unread, fine], untouched⟩
      simp only [processBlocks, ran, bind_ok, ne_eq, fine, not_false_eq_true, if_true]
      rfl

theorem processBlocks_of_stops (inv : commands.Inv) (apart : commands.Apart)
    (clean : ∀ item ∈ (readParts ends bl parts).1, item.assignment.Clean)
    (stops : commands.Stops slot (readParts ends bl parts).1) :
    ∃ ret count commands', processBlocks slot ends parts bl commands = .ok (ret, count, commands') ∧
      ret ≠ .ok ∧ commands.Spared slot commands' := by
  induction parts generalizing bl commands with
  | nil => exact stops.elim
  | cons part parts ih =>
    have own : ∀ item ∈ (readBlock bl 0 part.assignments).1, item.assignment.Clean := by
      intro item member
      refine clean item ?_
      simp only [readParts]
      split_ifs
      · exact List.mem_append_left _ member
      · exact member
    by_cases here : commands.Stops slot (readBlock bl 0 part.assignments).1
    · obtain ⟨ret, commands', ran, failed, spared⟩ := processBlock_of_stops inv apart own here
      refine ⟨ret, bl, commands', ?_, failed, spared⟩
      simp only [processBlocks, ran, bind_ok, ne_eq, failed, not_false_eq_true, if_true]
      rfl
    · simp only [readParts] at stops clean
      split_ifs at stops clean with fine
      · obtain ⟨reused, behind⟩ := (stops_append stops).resolve_left here
        obtain ⟨ret, commands', ran, told, untouched⟩ := processBlock_of_reused inv reused
        obtain rfl := told.mpr fine.1
        obtain ⟨ret', count, commands'', ran', failed, spared⟩ := @ih
          commands' (bl + 1) (inv.congr untouched.vars untouched.entries)
          (apart.congr untouched.vars untouched.entries)
          (fun item member => clean item (List.mem_append_right _ member))
          (untouched.stops_iff.mpr behind)
        refine ⟨ret', count, commands'', ?_, failed, untouched.spared_trans spared⟩
        simp only [processBlocks, ran, bind_ok, ne_eq, not_true, if_false, if_neg fine.2]
        exact ran'
      · exact absurd stops here

end

end Commands

end OsFree.Loader
