import Mathlib.Data.List.Nodup
import OsFree.Cfg.Meaning

/-!
# Storing a line

A line is to be stored under the statement or the option whose name stands before
its `=`.  The parser does not look for the `=` behind the name of a statement,
and takes every line for a statement that begins like one.
-/

namespace OsFree.Cfg

open Machine

/-- A line as `CfgParseLine` gets it: a string in the array, and a length that
reaches its end. -/
structure GivenLine where
  array : LineArray
  text : List UInt8
  len : Nat
  holds : array.Holds text
  reaches : text.length ≤ len

/-- What stands before the first `=`, in capitals. -/
def key (text : List UInt8) : List UInt8 := (text.takeWhile (· ≠ equals)).map toupper

/-- What stands behind the first `=`. -/
def value (text : List UInt8) : List UInt8 := (text.dropWhile (· ≠ equals)).tail

/-- What a line is meant to change.  Nothing is said of an option with a value that
it cannot have. -/
def demand (config : Config) (text : List UInt8) (lineno : Nat) :
    Option (Config → Prop) :=
  if equals ∉ text then some (· = config)
  else
    match Copy.server.type.find? (·.name = key text) with
    | some statement => some (· = config.add statement ⟨lineno, value text⟩)
    | none =>
      match Opt.optionsList.find? (·.name = key text) with
      | some option =>
        (option.legal.setting (value text)).map fun setting after =>
          after.entries = config.entries ∧ setting.Stores config.options after.options
      | none => some (· = config)

/-- The parser does with a line what it is meant to change. -/
def Treats (config : Config) (line : GivenLine) (lineno : Nat) : Prop :=
  ∀ result, demand config line.text lineno = some result →
    ∃ code after array, parseLine .server atoi config line.array line.len lineno =
      .ok (some (code, after, array)) ∧ result after

/-- A line that begins like a statement has `=` behind its name, and there is room
for it in the array; and there is room for a MODE. -/
def Regular (config : Config) (line : GivenLine) : Prop :=
  match Copy.server.findStatement line.array with
  | some statement =>
    line.text.getD statement.name.length 0 = equals ∧
      (config.entries statement).length < Copy.server.capacity statement
  | none =>
    findOption line.array = some .mode → config.options.mode.length < 20

theorem key_append {front later : List UInt8} (clear : equals ∉ front) :
    key (front ++ equals :: later) = front.map toupper := by
  rw [key, List.takeWhile_append_of_pos]
  · simp
  · intro c mem
    simpa using ne_of_mem_of_not_mem mem clear

theorem value_append {front later : List UInt8} (clear : equals ∉ front) :
    value (front ++ equals :: later) = later := by
  rw [value, List.dropWhile_append_of_pos]
  · simp
  · intro c mem
    simpa using ne_of_mem_of_not_mem mem clear

theorem equals_mem_map_iff {text : List UInt8} :
    equals ∈ text.map toupper ↔ equals ∈ text := by
  rw [List.mem_map]
  constructor
  · intro found
    obtain ⟨c, mem, upper⟩ := found
    rwa [← (toupper_eq_iff (by decide)).mp upper]
  · intro mem
    exact ⟨equals, mem, rfl⟩

variable {line : LineArray} {text name : List UInt8}

theorem startsWith_and_iff (holds : line.Holds text) (nonzero : 0 ∉ name)
    (unequal : equals ∉ name) :
    line.startsWith name = true ∧ text.getD name.length 0 = equals ↔
      equals ∈ text ∧ key text = name := by
  rw [holds.startsWith_eq nonzero, List.isPrefixOf_iff_prefix]
  constructor
  · intro both
    obtain ⟨⟨rest, equal⟩, behind⟩ := both
    obtain ⟨front, later, rfl, upper, -⟩ := List.map_eq_append_iff.mp equal.symm
    have clear : equals ∉ front := by
      rwa [← equals_mem_map_iff, upper]
    rw [← upper, List.length_map, List.getD_append_right _ _ _ _ (Nat.le_refl _),
      Nat.sub_self] at behind
    cases later with
    | nil => cases behind
    | cons c later =>
      subst behind
      exact ⟨by simp, (key_append clear).trans upper⟩
  · intro both
    obtain ⟨mem, upper⟩ := both
    obtain ⟨front, later, rfl, clear⟩ := List.eq_append_cons_of_mem mem
    rw [key_append clear] at upper
    constructor
    · rw [← upper, List.map_append]
      exact List.prefix_append ..
    · rw [← upper, List.length_map, List.getD_append_right _ _ _ _ (Nat.le_refl _), Nat.sub_self]
      rfl

theorem prefix_key (holds : line.Holds text) (nonzero : 0 ∉ name)
    (unequal : equals ∉ name) (mem : equals ∈ text)
    (begins : line.startsWith name = true) :
    name.isPrefixOf (key text) = true := by
  obtain ⟨front, later, rfl, clear⟩ := List.eq_append_cons_of_mem mem
  have upper : toupper equals = equals := rfl
  rwa [holds.startsWith_eq nonzero, List.map_append, List.map_cons, upper,
    isPrefixOf_append_cons unequal, ← key_append clear] at begins

theorem drop_eq_value (mem : equals ∈ text) (named : key text = name) :
    text.drop (name.length + 1) = value text ∧ name.length + 1 ≤ text.length := by
  obtain ⟨front, later, rfl, clear⟩ := List.eq_append_cons_of_mem mem
  rw [key_append clear] at named
  rw [value_append clear, ← named, List.length_map]
  constructor
  · rw [← List.drop_drop, List.drop_left]
    rfl
  · rw [List.length_append, List.length_cons]
    omega

theorem statement_name_clear (statement : Statement) :
    0 ∉ statement.name ∧ equals ∉ statement.name := by
  cases statement <;> decide

theorem option_name_clear (option : Opt) :
    0 ∉ option.name ∧ equals ∉ option.name := by
  cases option <;> decide

theorem Opt.mem_optionsList (option : Opt) : option ∈ Opt.optionsList := by
  cases option <;> decide

theorem Opt.nodup_names : (Opt.optionsList.map Opt.name).Nodup := by
  decide +kernel

theorem option_name_injective {option other : Opt}
    (same : option.name = other.name) : option = other :=
  List.inj_on_of_nodup_map Opt.nodup_names option.mem_optionsList other.mem_optionsList same

variable {config : Config} {len lineno : Nat} {statement : Statement}

theorem storeStatement_eq (holds : line.Holds text) (mem : equals ∈ text)
    (named : key text = statement.name) (reaches : text.length ≤ len) :
    ∃ array, storeStatement .server config line len lineno statement =
      if (config.entries statement).length < Copy.server.capacity statement then
        .ok (some (1, config.add statement ⟨lineno, value text⟩, array))
      else .error .writeOutside := by
  obtain ⟨rest, le⟩ := drop_eq_value mem named
  have stores := @storeStatement_of_le .server config line text len lineno
    statement holds le reaches
  rwa [rest] at stores

theorem add_of_storeStatement {copy : Copy} {code : UInt32} {after : Config} {array : LineArray}
    (stores : storeStatement copy config line len lineno statement =
      .ok (some (code, after, array))) :
    ∃ entry, after = config.add statement entry := by
  simp only [storeStatement, bind_eq_ok_iff] at stores
  obtain ⟨moved, -, pc, -, stores⟩ := stores
  split at stores
  · cases stores
    exact ⟨_, rfl⟩
  · cases stores

@[simp] theorem Config.add_entries_self (config : Config)
    (statement : Statement) (entry : Entry) :
    (config.add statement entry).entries statement =
      config.entries statement ++ [entry] :=
  if_pos rfl

theorem Config.add_entries_of_ne {other : Statement} (entry : Entry)
    (different : other ≠ statement) :
    (config.add statement entry).entries other = config.entries other :=
  if_neg different

theorem find_statement_eq (mem : statement ∈ Copy.server.type) :
    Copy.server.type.find? (·.name = statement.name) = some statement := by
  revert mem
  cases statement <;> decide

theorem find_option_eq (option : Opt) :
    Opt.optionsList.find? (·.name = option.name) = some option := by
  cases found : Opt.optionsList.find? (·.name = option.name) with
  | none =>
    have differs := List.find?_eq_none.mp found option option.mem_optionsList
    simp at differs
  | some other =>
    have same : other.name = option.name := by
      simpa using List.find?_some found
    rw [option_name_injective same]

theorem setboot_of_begins {option : Opt} (mem : statement ∈ Copy.server.type)
    (front : statement.name <+: option.name) : option = .setboot := by
  revert mem front
  cases statement <;> cases option <;> decide

theorem demand_of_begins (holds : line.Holds text) (mem : statement ∈ Copy.server.type)
    (begins : line.startsWith statement.name = true)
    (behind : text.getD statement.name.length 0 ≠ equals) :
    ∃ result, demand config text lineno = some result ∧ ∀ after, result after →
        after.entries statement = config.entries statement := by
  have clear := statement_name_clear statement
  unfold demand
  split
  · exact ⟨_, rfl, fun after same => by rw [same]⟩
  · rename_i within
    rw [not_not] at within
    have other : key text ≠ statement.name := by
      intro named
      exact behind ((startsWith_and_iff holds clear.1 clear.2).mpr ⟨within, named⟩).2
    split
    · rename_i stored found
      have named : stored.name = key text := by
        simpa using List.find?_some found
      refine ⟨_, rfl, fun after same => ?_⟩
      rw [same]
      apply Config.add_entries_of_ne
      intro equal
      rw [← equal] at named
      exact other named.symm
    · split
      · rename_i option found
        have named : option.name = key text := by
          simpa using List.find?_some found
        have front : statement.name <+: option.name := by
          rw [named, ← List.isPrefixOf_iff_prefix]
          exact prefix_key holds clear.1 clear.2 within begins
        rw [setboot_of_begins mem front]
        exact ⟨_, rfl, fun after same => by rw [same.1]⟩
      · exact ⟨_, rfl, fun after same => by rw [same]⟩

theorem findOption_eq_some_iff (holds : line.Holds text) {option : Opt} :
    findOption line = some option ↔
      equals ∈ text ∧ key text = option.name := by
  have test : ∀ other : Opt, (line.startsWith other.name &&
      toupper (line.cells.getD other.name.length 0) = equals) = true ↔
        equals ∈ text ∧ key text = other.name := by
    intro other
    have clear := option_name_clear other
    rw [← startsWith_and_iff holds clear.1 clear.2, Bool.and_eq_true,
      decide_eq_true_eq, toupper_eq_iff (by decide)]
    apply and_congr_right
    intro begins
    have le : other.name.length ≤ text.length := by
      rw [holds.startsWith_eq clear.1, List.isPrefixOf_iff_prefix] at begins
      simpa using begins.length_le
    rw [holds.getD_eq le]
  constructor
  · intro found
    exact (test option).mp (by simpa using List.find?_some found)
  · intro named
    cases found : findOption line with
    | none =>
      have none := List.find?_eq_none.mp found option option.mem_optionsList
      exact absurd ((test option).mpr named) none
    | some other =>
      unfold findOption at found
      have named' := (test other).mp (by simpa using List.find?_some found)
      rw [option_name_injective (named'.2.symm.trans named.2)]

theorem storeOption_eq (holds : line.Holds text) (mem : equals ∈ text)
    {option : Opt} (named : key text = option.name)
    (reaches : text.length ≤ len) :
    ∃ (moved : LineArray) (size : Int), moved.Holds (value text) ∧
      ((value text).length : Int) ≤ size ∧
      storeOption .server atoi config line len option = (do
        match ← option.handler.run .server atoi config.options moved size with
        | none => return none
        | some (options, line) =>
          return some (1, { config with options }, line)) := by
  obtain ⟨rest, le⟩ := drop_eq_value mem named
  obtain ⟨moved, shifted, holds'⟩ := holds.shift le
  rw [rest] at holds'
  have size := congrArg List.length rest
  rw [List.length_drop] at size
  refine ⟨moved, (len : Int) - ((option.name.length + 1 : Nat) : Int), holds', ?_, ?_⟩
  · omega
  · rw [storeOption, shifted]
    rfl

theorem demand_of_option (mem : equals ∈ text) {option : Opt} (named : key text = option.name)
    (none : ∀ statement ∈ Copy.server.type, key text ≠ statement.name) :
    demand config text lineno = (option.legal.setting (value text)).map fun setting after =>
        after.entries = config.entries ∧
          setting.Stores config.options after.options := by
  have missing : Copy.server.type.find? (·.name = key text) = Option.none := by
    rw [List.find?_eq_none]
    intro statement within
    simpa using Ne.symm (none statement within)
  rw [demand, if_neg (not_not.mpr mem), missing, named, find_option_eq]

theorem demand_of_unknown (none : equals ∈ text → ∀ statement ∈ Copy.server.type,
      key text ≠ statement.name)
    (unknown : equals ∈ text → ∀ option : Opt, key text ≠ option.name) :
    demand config text lineno = some (· = config) := by
  unfold demand
  split
  · rfl
  · rename_i within
    rw [not_not] at within
    have missing : Copy.server.type.find? (·.name = key text) = Option.none := by
      rw [List.find?_eq_none]
      intro statement mem
      simpa using Ne.symm (none within statement mem)
    have missing' : Opt.optionsList.find? (·.name = key text) = Option.none := by
      rw [List.find?_eq_none]
      intro option _
      simpa using Ne.symm (unknown within option)
    rw [missing, missing']

theorem option_eq_mode {option : Opt} (legal : option.legal = .mode) :
    option = .mode := by
  revert legal
  cases option <;> simp [Opt.legal]

variable {given : GivenLine}

theorem treats_statement (found : Copy.server.findStatement given.array = some statement) :
    Treats config given lineno ↔ given.text.getD statement.name.length 0 = equals ∧
        (config.entries statement).length < Copy.server.capacity statement := by
  have mem := List.mem_of_find?_eq_some found
  have begins : given.array.startsWith statement.name = true := by
    simpa using List.find?_some found
  have clear := statement_name_clear statement
  have parses : parseLine .server atoi config given.array given.len lineno =
      storeStatement .server config given.array given.len lineno statement := by
    simp only [parseLine, found]
  by_cases behind : given.text.getD statement.name.length 0 = equals
  · have both := (startsWith_and_iff given.holds clear.1 clear.2).mp ⟨begins, behind⟩
    obtain ⟨array, stores⟩ := @storeStatement_eq given.array given.text config
      given.len lineno statement given.holds both.1 both.2 given.reaches
    have demands : demand config given.text lineno =
        some (· = config.add statement ⟨lineno, value given.text⟩) := by
      rw [demand, if_neg (not_not.mpr both.1), both.2, find_statement_eq mem]
    rw [Treats, demands, parses, stores]
    by_cases room : (config.entries statement).length < Copy.server.capacity statement
    · rw [if_pos room]
      refine iff_of_true ?_ ⟨behind, room⟩
      intro result same
      cases same
      exact ⟨_, _, _, rfl, rfl⟩
    · rw [if_neg room]
      refine iff_of_false ?_ (fun regular => room regular.2)
      intro treats
      obtain ⟨code, after, array', returns, -⟩ := treats _ rfl
      cases returns
  · refine iff_of_false ?_ (fun regular => behind regular.1)
    intro treats
    obtain ⟨result, demands, keeps⟩ := @demand_of_begins given.array given.text
      config lineno statement given.holds mem begins behind
    obtain ⟨code, after, array, returns, holds⟩ := treats result demands
    rw [parses] at returns
    obtain ⟨entry, equal⟩ := add_of_storeStatement returns
    have same := keeps after holds
    rw [equal, Config.add_entries_self] at same
    exact absurd (congrArg List.length same) (by simp)

theorem treats_option (none : Copy.server.findStatement given.array = none) :
    Treats config given lineno ↔
      (findOption given.array = some .mode → config.options.mode.length < 20) := by
  have different : equals ∈ given.text → ∀ statement ∈ Copy.server.type,
      key given.text ≠ statement.name := by
    intro within statement mem named
    have clear := statement_name_clear statement
    have begins := ((startsWith_and_iff given.holds clear.1 clear.2).mpr ⟨within, named⟩).1
    exact List.find?_eq_none.mp none statement mem begins
  cases found : findOption given.array with
  | none =>
    refine iff_of_true ?_ (fun absent => by cases absent)
    have unknown : equals ∈ given.text → ∀ option : Opt,
        key given.text ≠ option.name := by
      intro within option named
      have known := (findOption_eq_some_iff given.holds).mpr ⟨within, named⟩
      rw [found] at known
      cases known
    intro result demands
    rw [demand_of_unknown different unknown] at demands
    cases demands
    refine ⟨2, config, given.array, ?_, rfl⟩
    simp only [parseLine, none, found]
  | some option =>
    obtain ⟨within, named⟩ := (findOption_eq_some_iff given.holds).mp found
    obtain ⟨moved, size, holds, fits, stores⟩ := @storeOption_eq given.array
      given.text config given.len given.holds within option named given.reaches
    have parses : parseLine .server atoi config given.array given.len lineno =
        storeOption .server atoi config given.array given.len option := by
      simp only [parseLine, none, found]
    rw [Treats, demand_of_option within named (different within), parses, stores]
    constructor
    · intro treats isMode
      cases isMode
      by_contra full
      obtain ⟨code, after, array, returns, -, stored⟩ := treats _ rfl
      rw [Opt.handler, Handler.run, if_neg full] at returns
      cases returns
      have same := congrArg (fun options => options.mode.length) stored
      simp at same
    · intro room result demands
      obtain ⟨setting, stands, rfl⟩ := Option.map_eq_some_iff.mp demands
      have room' : option.legal = .mode → config.options.mode.length < 20 := by
        intro isMode
        exact room (congrArg some (option_eq_mode isMode))
      obtain ⟨options, line', runs, stored⟩ :=
        stores_of_serves option.serves stands holds fits room'
      rw [runs]
      exact ⟨1, { config with options }, line', rfl, rfl, stored⟩

/-- The line `SETBOOT=1` in an array of zeros. -/
def setbootLine : GivenLine where
  array := {
    cells := chars "SETBOOT=1" ++ 0 :: List.replicate 1502 0
    size := by
      rw [List.length_append, List.length_cons, List.length_replicate]
      rfl }
  text := chars "SETBOOT=1"
  len := 9
  holds := {
    cells := ⟨List.replicate 1502 0, rfl⟩
    nonzero := fun c mem =>
      ne_of_mem_of_not_mem mem (by decide : 0 ∉ chars "SETBOOT=1") }
  reaches := by decide

end OsFree.Cfg
