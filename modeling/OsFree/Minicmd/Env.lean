import Mathlib.Data.List.TakeWhile
import Mathlib.Logic.Function.Basic
import OsFree.Machine.CString
import OsFree.Machine.Transition

/-!
# The environment of the command interpreter

The command interpreter has an array of pointers to the strings of its
environment.  At first, these point into the block of its process; later, some
point to strings that it has allocated.  `SET` changes the array, and a program
that is started gets a new block.
-/

namespace OsFree.Minicmd

open Machine

/-- The upper case letter of a small one. -/
def toupper (c : UInt8) : UInt8 := if 97 ≤ c ∧ c ≤ 122 then c - 32 else c

/-- A string in upper case. -/
def upper (text : List UInt8) : List UInt8 := text.map toupper

/-- The sign between a name and a value. -/
def equals : UInt8 := 61

/-- The ways in which a command leaves defined behaviour: a name is longer than
the buffers for names; a string is freed or reallocated that was not allocated;
the array has been given up. -/
inductive EnvFault where
  | nameTooLong
  | notAllocated
  | freedArray
  deriving DecidableEq

/-- A string of the environment, and whether the interpreter has allocated it. -/
structure EnvString where
  text : List UInt8
  allocated : Bool
  deriving DecidableEq

/-- The array of strings, and whether `envp` points to one that has been given
up. -/
structure Env where
  strings : List EnvString
  freed : Bool
  deriving DecidableEq

/-- The array of the strings of the process's block. -/
def env_create (block : List UInt8) : Run Env :=
  (fun texts => ⟨texts.map (⟨·, false⟩), false⟩) <$> readStrings block

/-- As many characters of the string as the name has are those of the name. -/
def EnvString.begins (name : List UInt8) (string : EnvString) : Bool :=
  upper (string.text.take name.length) == upper name

/-- `SET` with an argument.  Without a sign, a variable is shown.  A variable
without a value is removed: the array is allocated again, but the new one is not
kept, and `moves` says whether it is another one. -/
def env_var_add (moves : Bool) (env : Env) (var : List UInt8) :
    Except EnvFault Env :=
  if env.freed then .error .freedArray
  else if equals ∉ var then
    if 128 ≤ var.length ∧ env.strings ≠ [] then .error .nameTooLong
    else .ok env
  else
    let varname := upper (var.takeWhile (· != equals))
    let p := var.dropWhile (· != equals)
    if 128 ≤ varname.length then .error .nameTooLong
    else
      let before := env.strings.takeWhile fun string => !string.begins varname
      match env.strings.dropWhile fun string => !string.begins varname with
      | [] =>
        if p = [equals] then .ok env
        else
          .ok { env with strings := env.strings ++ [⟨varname ++ p, true⟩] }
      | string :: behind =>
        if !string.allocated then .error .notAllocated
        else if p = [equals] then
          .ok { strings := before ++ behind, freed := moves }
        else
          .ok { env with strings := before ++ ⟨varname ++ p, true⟩ :: behind }

/-- The block for a program. -/
def env_get (env : Env) : Except EnvFault (List UInt8) :=
  if env.freed then .error .freedArray
  else .ok (encodeStrings (env.strings.map EnvString.text))

/-- The name of a variable. -/
def nameOf (text : List UInt8) : List UInt8 := text.takeWhile (· != equals)

/-- The strings for a variable. -/
def stringsOf (name : List UInt8) (texts : List (List UInt8)) :
    List (List UInt8) :=
  texts.filter fun text => upper (nameOf text) == upper name

section

variable {name name' value text : List UInt8}

theorem toupper_toupper (c : UInt8) : toupper (toupper c) = toupper c := by
  unfold toupper
  grind

theorem toupper_eq_equals_iff (c : UInt8) : toupper c = equals ↔ c = equals := by
  unfold toupper equals
  grind

theorem toupper_eq_zero_iff (c : UInt8) : toupper c = 0 ↔ c = 0 := by
  unfold toupper
  grind

@[simp] theorem upper_upper (name : List UInt8) :
    upper (upper name) = upper name := by
  simp [upper, toupper_toupper]

@[simp] theorem length_upper (name : List UInt8) :
    (upper name).length = name.length := List.length_map ..

@[simp] theorem equals_mem_upper_iff : equals ∈ upper name ↔ equals ∈ name := by
  simp [upper, toupper_eq_equals_iff]

@[simp] theorem zero_mem_upper_iff : 0 ∈ upper name ↔ 0 ∈ name := by
  simp [upper, toupper_eq_zero_iff]

theorem forall_ne_equals (clean : equals ∉ name) :
    ∀ c ∈ name, (c != equals) = true := by
  intro c member
  have different : c ≠ equals := by
    intro same
    rw [same] at member
    exact clean member
  exact bne_iff_ne.mpr different

theorem nameOf_append (clean : equals ∉ name) : nameOf (name ++ equals :: value) = name := by
  have all := forall_ne_equals clean
  rw [nameOf, List.takeWhile_append_of_pos all]
  simp

theorem dropWhile_append (clean : equals ∉ name) :
    (name ++ equals :: value).dropWhile (· != equals) = equals :: value := by
  have all := forall_ne_equals clean
  rw [List.dropWhile_append_of_pos all]
  simp

theorem take_length_nameOf (length : (nameOf text).length = name.length) :
    text.take name.length = nameOf text := by
  rw [← length]
  exact (List.prefix_iff_eq_take.mp (List.takeWhile_prefix _)).symm

theorem begins_of_nameOf {string : EnvString} (same : upper (nameOf string.text) = upper name) :
    string.begins name = true := by
  have length : (nameOf string.text).length = name.length := by
    rw [← length_upper, same, length_upper]
  have start := take_length_nameOf length
  rw [EnvString.begins, start, same, beq_self_eq_true]

theorem nameOf_of_begins {string : EnvString} (starts : string.begins name = true)
    (length : (nameOf string.text).length = name.length) :
    upper (nameOf string.text) = upper name := by
  have start := take_length_nameOf length
  rw [EnvString.begins, start] at starts
  exact beq_iff_eq.mp starts

theorem begins_upper (string : EnvString) :
    string.begins (upper name) = string.begins name := by
  simp [EnvString.begins]

variable {texts : List (List UInt8)}

theorem mem_stringsOf : text ∈ stringsOf name texts ↔
      text ∈ texts ∧ upper (nameOf text) = upper name := by
  rw [stringsOf, List.mem_filter, beq_iff_eq]

theorem stringsOf_append (name : List UInt8) (before behind : List (List UInt8)) :
    stringsOf name (before ++ behind) =
      stringsOf name before ++ stringsOf name behind := List.filter_append ..

theorem stringsOf_cons_of_eq (same : upper (nameOf text) = upper name) :
    stringsOf name (text :: texts) = text :: stringsOf name texts :=
  List.filter_cons_of_pos (beq_iff_eq.mpr same)

theorem stringsOf_cons_of_ne (other : upper (nameOf text) ≠ upper name) :
    stringsOf name (text :: texts) = stringsOf name texts :=
  List.filter_cons_of_neg (mt beq_iff_eq.mp other)

theorem stringsOf_congr (same : upper name' = upper name)
    (texts : List (List UInt8)) : stringsOf name' texts = stringsOf name texts := by
  rw [stringsOf, same, stringsOf]

theorem stringsOf_eq_nil {strings : List EnvString}
    (none : ∀ string ∈ strings, string.begins name = false) :
    stringsOf name (strings.map EnvString.text) = [] := by
  simp only [stringsOf, List.filter_eq_nil_iff, List.mem_map, beq_iff_eq]
  rintro _ ⟨string, member, rfl⟩ same
  have starts := begins_of_nameOf same
  rw [none string member] at starts
  cases starts

end

theorem readStrings_env_get {env : Env} (inUse : env.freed = false)
    (nonempty : ∀ string ∈ env.strings, string.text ≠ [])
    (nonzero : ∀ string ∈ env.strings, 0 ∉ string.text) :
    ∃ block, env_get env = .ok block ∧
      readStrings block = .ok (env.strings.map EnvString.text) := by
  let list : StringList :=
    { strings := env.strings.map EnvString.text
      nonempty := by
        intro text member
        obtain ⟨string, known, rfl⟩ := List.mem_map.mp member
        exact nonempty string known
      nonzero := by
        intro text member
        obtain ⟨string, known, rfl⟩ := List.mem_map.mp member
        exact nonzero string known }
  refine ⟨list.encode, ?_, ?_⟩
  · rw [env_get, inUse]
    rfl
  · have read := readStrings_encode list []
    rwa [List.append_nil] at read

theorem freed_of_env_get {env : Env} {block : List UInt8}
    (got : env_get env = .ok block) : env.freed = false := by
  unfold env_get at got
  split at got
  · cases got
  · simpa using ‹¬ env.freed = true›

section

variable {env : Env} {name : List UInt8} {before behind : List EnvString} {string : EnvString}

/-- The string of a variable with a value. -/
def setting (name value : List UInt8) : EnvString := ⟨upper name ++ equals :: value, true⟩

@[simp] theorem text_setting (name value : List UInt8) :
    (setting name value).text = upper name ++ equals :: value := rfl

theorem nameOf_setting (clean : equals ∉ name) (value : List UInt8) :
    nameOf (setting name value).text = upper name :=
  nameOf_append (by rwa [equals_mem_upper_iff])

theorem upper_nameOf_setting (clean : equals ∉ name) (value : List UInt8) :
    upper (nameOf (setting name value).text) = upper name := by
  rw [nameOf_setting clean, upper_upper]

section

variable (moves : Bool) (value : List UInt8) (inUse : env.freed = false) (clean : equals ∉ name)

include moves value inUse clean

theorem env_var_add_long (long : 128 ≤ name.length) :
    env_var_add moves env (name ++ equals :: value) = .error .nameTooLong := by
  have start : (name ++ equals :: value).takeWhile (· != equals) = name := nameOf_append clean
  simp [env_var_add, inUse, start, long]

theorem env_var_add_absent (short : name.length < 128)
    (absent : ∀ string ∈ env.strings, string.begins name = false) :
    env_var_add moves env (name ++ equals :: value) = .ok (if value = [] then env
        else { env with strings := env.strings ++ [setting name value] }) := by
  have start : (name ++ equals :: value).takeWhile (· != equals) = name := nameOf_append clean
  have all : env.strings.dropWhile (fun string => !string.begins name) = [] := by
    rw [List.dropWhile_eq_nil_iff]
    intro string member
    rw [absent string member, Bool.not_false]
  simp only [env_var_add, inUse, Bool.false_eq_true, if_false, start,
    dropWhile_append clean, length_upper, begins_upper, all]
  rw [if_neg (by simp), if_neg (by omega)]
  by_cases empty : value = [] <;> simp [empty, setting]

theorem env_var_add_present (short : name.length < 128)
    (split : env.strings = before ++ string :: behind)
    (unmatched : ∀ string ∈ before, string.begins name = false)
    (starts : string.begins name = true) :
    env_var_add moves env (name ++ equals :: value) =
      if string.allocated = false then .error .notAllocated
      else if value = [] then .ok ⟨before ++ behind, moves⟩
      else .ok ⟨before ++ setting name value :: behind, false⟩ := by
  have start : (name ++ equals :: value).takeWhile (· != equals) = name := nameOf_append clean
  have all : ∀ string ∈ before, (!string.begins name) = true := by
    intro string member
    rw [unmatched string member, Bool.not_false]
  have front : env.strings.takeWhile (fun string => !string.begins name) =
      before := by
    rw [split, List.takeWhile_append_of_pos all, List.takeWhile_cons_of_neg
      (by simp [starts]), List.append_nil]
  have rear : env.strings.dropWhile (fun string => !string.begins name) = string :: behind := by
    rw [split, List.dropWhile_append_of_pos all, List.dropWhile_cons_of_neg (by simp [starts])]
  simp only [env_var_add, inUse, Bool.false_eq_true, if_false, start,
    dropWhile_append clean, length_upper, begins_upper, front, rear]
  rw [if_neg (by simp), if_neg (by omega)]
  by_cases empty : value = [] <;> simp [empty, setting]

end

end

/-!
## Commands that set variables

As long as a name fits the buffers and does not begin the string of another
variable, and only strings that the interpreter has allocated are replaced, each
variable has the value of its last command.  Any other command breaks this.
-/

/-- The command `SET name=value`.  Without a value, the variable is unset, and
the allocator may move the array. -/
structure Command where
  name : List UInt8
  value : List UInt8
  moves : Bool

namespace Command

/-- The argument of the command. -/
def var (command : Command) : List UInt8 := command.name ++ equals :: command.value

/-- The argument is a string, and the name ends at its sign. -/
structure Valid (command : Command) : Prop where
  name : equals ∉ command.name
  nameNonzero : 0 ∉ command.name
  valueNonzero : 0 ∉ command.value

end Command

/-- The environment, and the last value of each variable that a command has
named, by its name in upper case. -/
structure Shell where
  env : Env
  last : List UInt8 → Option (List UInt8)

namespace Shell

/-- The interpreter after its start. -/
def start (block : List UInt8) : Run Shell := (fun env => ⟨env, fun _ => none⟩) <$> env_create block

/-- The interpreter after a command. -/
def serve (shell : Shell) (command : Command) : Except EnvFault Shell := do
  let env ← env_var_add command.moves shell.env command.var
  pure ⟨env, Function.update shell.last (upper command.name) (some command.value)⟩

/-- The strings that a variable should have: those that it had at first until a
command names it, then one with its last value, and none if it is unset. -/
def expected (initial : List (List UInt8)) (shell : Shell) (name : List UInt8) :
    List (List UInt8) :=
  match shell.last (upper name) with
  | none => stringsOf name initial
  | some value => if value = [] then [] else [upper name ++ equals :: value]

/-- The block for a program has the strings that all variables should have. -/
def Kept (initial : List (List UInt8)) (shell : Shell) : Prop :=
  ∃ block texts, env_get shell.env = .ok block ∧ readStrings block = .ok texts ∧
    ∀ name, equals ∉ name → stringsOf name texts = shell.expected initial name

/-- The name is short enough; and if a string begins with the name, the first
one is allocated and that of the variable, and the array stays where it is when
the variable is unset. -/
def Allows (shell : Shell) (command : Command) : Prop := command.name.length < 128 ∧
    ∀ string, shell.env.strings.find? (·.begins command.name) = some string →
      string.allocated = true ∧ (nameOf string.text).length = command.name.length ∧
        (command.value = [] → command.moves = false)

/-- A step for a command that keeps the environment right. -/
def AllowedStep (shell shell' : Shell) : Prop :=
  ∃ command, command.Valid ∧ shell.Allows command ∧ shell.serve command = .ok shell'

/-- The array is in use and its strings make a block; the variables have the
strings that they should have; and an allocated string is the last value of a
variable. -/
structure Sound (initial : List (List UInt8)) (shell : Shell) : Prop where
  freed : shell.env.freed = false
  nonempty : ∀ string ∈ shell.env.strings, string.text ≠ []
  nonzero : ∀ string ∈ shell.env.strings, 0 ∉ string.text
  strings : ∀ name, equals ∉ name →
    stringsOf name (shell.env.strings.map EnvString.text) = shell.expected initial name
  allocated : ∀ string ∈ shell.env.strings, string.allocated = true →
    ∃ name value, equals ∉ name ∧ value ≠ [] ∧ string.text = upper name ++ equals :: value ∧
      shell.last (upper name) = some value

/-- The interpreter after a command has left an environment. -/
def after (shell : Shell) (command : Command) (env : Env) : Shell :=
  ⟨env, Function.update shell.last (upper command.name) (some command.value)⟩

section

variable {initial : List (List UInt8)} {shell shell' : Shell}
  {command : Command} {env : Env} {name : List UInt8} {string : EnvString}
  {before behind : List EnvString}

theorem serve_of_ok (added : env_var_add command.moves shell.env command.var = .ok env) :
    shell.serve command = .ok (shell.after command env) := by
  rw [serve, added]
  rfl

theorem serve_of_error {fault : EnvFault}
    (failed : env_var_add command.moves shell.env command.var = .error fault) :
    shell.serve command = .error fault := by
  rw [serve, failed]
  rfl

theorem expected_after_self (same : upper name = upper command.name) :
    (shell.after command env).expected initial name =
      if command.value = [] then []
      else [(setting command.name command.value).text] := by
  simp [expected, after, same]

theorem expected_after_other (other : upper name ≠ upper command.name) :
    (shell.after command env).expected initial name =
      shell.expected initial name := by
  simp [expected, after, Function.update_of_ne other]

namespace Sound

theorem start (list : StringList) (rest : List UInt8) :
    ∃ shell, Shell.start (list.encode ++ rest) = .ok shell ∧
      Sound list.strings shell := by
  refine ⟨⟨⟨list.strings.map (⟨·, false⟩), false⟩, fun _ => none⟩, ?_, ?_⟩
  · rw [Shell.start, env_create, readStrings_encode]
    rfl
  · refine ⟨rfl, ?_, ?_, ?_, ?_⟩
    · intro string member
      obtain ⟨text, known, rfl⟩ := List.mem_map.mp member
      exact list.nonempty text known
    · intro string member
      obtain ⟨text, known, rfl⟩ := List.mem_map.mp member
      exact list.nonzero text known
    · intro name clean
      simp [expected, Function.comp_def]
    · intro string member allocated
      obtain ⟨text, known, rfl⟩ := List.mem_map.mp member
      cases allocated

section

variable (sound : Sound initial shell)

include sound

theorem kept : Kept initial shell := by
  obtain ⟨block, got, read⟩ := readStrings_env_get sound.freed sound.nonempty sound.nonzero
  exact ⟨block, _, got, read, sound.strings⟩

theorem stored (valid : command.Valid)
    (members : ∀ string ∈ env.strings, string ∈ shell.env.strings ∨
      string = setting command.name command.value) :
    (∀ string ∈ env.strings, string.text ≠ []) ∧
      ∀ string ∈ env.strings, 0 ∉ string.text := by
  constructor
  · intro string member
    rcases members string member with known | rfl
    · exact sound.nonempty string known
    · simp
  · intro string member
    rcases members string member with known | rfl
    · exact sound.nonzero string known
    · simp [valid.nameNonzero, valid.valueNonzero, equals]

theorem strings_of_kept (valid : command.Valid)
    (members : ∀ string ∈ env.strings, string ∈ shell.env.strings ∨
      string = setting command.name command.value)
    (kept : Kept initial (shell.after command env)) (clean : equals ∉ name) :
    stringsOf name (env.strings.map EnvString.text) =
      (shell.after command env).expected initial name := by
  obtain ⟨block, texts, got, read, strings⟩ := kept
  obtain ⟨nonempty, nonzero⟩ := sound.stored valid members
  obtain ⟨block', got', read'⟩ := readStrings_env_get (freed_of_env_get got) nonempty nonzero
  cases got.symm.trans got'
  cases read.symm.trans read'
  exact strings name clean

theorem of_changed (valid : command.Valid) (inUse : env.freed = false)
    (members : ∀ string ∈ env.strings, string ∈ shell.env.strings ∨
      string = setting command.name command.value)
    (changed : stringsOf command.name (env.strings.map EnvString.text) =
      if command.value = [] then []
      else [(setting command.name command.value).text])
    (others : ∀ name, upper name ≠ upper command.name →
      stringsOf name (env.strings.map EnvString.text) =
        stringsOf name (shell.env.strings.map EnvString.text)) :
    Sound initial (shell.after command env) := by
  obtain ⟨nonempty, nonzero⟩ := sound.stored valid members
  refine ⟨inUse, nonempty, nonzero, ?_, ?_⟩
  · intro name clean
    by_cases same : upper name = upper command.name
    · rw [expected_after_self same, ← changed]
      exact stringsOf_congr same _
    · rw [expected_after_other same, ← sound.strings name clean]
      exact others name same
  · intro string member allocated
    by_cases same : upper (nameOf string.text) = upper command.name
    · have found : string.text ∈
          stringsOf command.name (env.strings.map EnvString.text) :=
        mem_stringsOf.mpr ⟨List.mem_map_of_mem member, same⟩
      rw [changed] at found
      by_cases empty : command.value = []
      · simp [empty] at found
      · refine ⟨command.name, command.value, valid.name, empty, ?_, ?_⟩
        · simpa [empty] using found
        · exact Function.update_self ..
    · rcases members string member with known | rfl
      · obtain ⟨name, value, clean, nonempty, text, last⟩ := sound.allocated string known allocated
        have other : upper name ≠ upper command.name := by
          rw [text, nameOf_append (by rwa [equals_mem_upper_iff]), upper_upper] at same
          exact same
        exact ⟨name, value, clean, nonempty, text, (Function.update_of_ne other ..).trans last⟩
      · rw [nameOf_setting valid.name, upper_upper] at same
        exact absurd rfl same

theorem alone (split : shell.env.strings = before ++ string :: behind)
    (allocated : string.allocated = true) :
    ∃ name value, equals ∉ name ∧ value ≠ [] ∧ string = setting name value ∧
      shell.last (upper name) = some value ∧
      stringsOf name (before.map EnvString.text) = [] ∧
      stringsOf name (behind.map EnvString.text) = [] := by
  have member : string ∈ shell.env.strings := by simp [split]
  obtain ⟨name, value, clean, nonempty, text, last⟩ := sound.allocated string member allocated
  have whole : string = setting name value := by
    cases string
    simp_all [setting]
  have named : upper (nameOf string.text) = upper name := by
    rw [whole, nameOf_setting clean, upper_upper]
  have strings := sound.strings name clean
  simp only [split, List.map_append, List.map_cons, expected, last,
    if_neg nonempty, stringsOf_append, stringsOf_cons_of_eq named] at strings
  have lengths := congrArg List.length strings
  simp only [List.length_append, List.length_cons, List.length_nil] at lengths
  exact ⟨name, value, clean, nonempty, whole, last, List.eq_nil_of_length_eq_zero (by omega),
    List.eq_nil_of_length_eq_zero (by omega)⟩

theorem step (valid : command.Valid) (allowed : shell.Allows command) :
    ∃ shell', shell.serve command = .ok shell' ∧ Sound initial shell' := by
  obtain ⟨short, first⟩ := allowed
  cases found : shell.env.strings.find? (·.begins command.name) with
  | none =>
    have absent : ∀ string ∈ shell.env.strings,
        string.begins command.name = false := by
      simpa using found
    have added := env_var_add_absent command.moves command.value sound.freed valid.name short absent
    refine ⟨_, serve_of_ok added, sound.of_changed valid ?_ ?_ ?_ ?_⟩
    · split <;> exact sound.freed
    · intro string member
      split at member
      · exact .inl member
      · exact (List.mem_append.mp member).imp_right List.mem_singleton.mp
    · have before := stringsOf_eq_nil absent
      split
      · exact before
      · rw [List.map_append, stringsOf_append, before]
        exact stringsOf_cons_of_eq (upper_nameOf_setting valid.name _)
    · intro name other
      split
      · rfl
      · rw [List.map_append, stringsOf_append, List.map_singleton,
          stringsOf_cons_of_ne (upper_nameOf_setting valid.name _ ▸ other.symm)]
        exact List.append_nil _
  | some string =>
    obtain ⟨allocated, length, stays⟩ := first string found
    obtain ⟨starts, before, behind, divided, unmatched⟩ := List.find?_eq_some_iff_append.mp found
    obtain ⟨name, value, clean, nonempty, whole, last, none, none'⟩ := sound.alone divided allocated
    have same : upper name = upper command.name := by
      rw [← nameOf_of_begins starts length, whole, upper_nameOf_setting clean]
    have none := (stringsOf_congr same _).symm.trans none
    have none' := (stringsOf_congr same _).symm.trans none'
    have added := env_var_add_present command.moves command.value sound.freed
      valid.name short divided (by simpa using unmatched) starts
    rw [if_neg (by simp [allocated])] at added
    by_cases empty : command.value = []
    · rw [if_pos empty] at added
      refine ⟨_, serve_of_ok added, sound.of_changed valid (stays empty) ?_ ?_ ?_⟩
      · intro string member
        left
        rw [divided]
        simp only [List.mem_append, List.mem_cons] at member ⊢
        exact member.imp_right .inr
      · simp [empty, stringsOf_append, none, none']
      · intro name' other
        have skipped : upper (nameOf string.text) ≠ upper name' := by
          rw [whole, upper_nameOf_setting clean, same]
          exact other.symm
        simp only [divided, List.map_append, List.map_cons, stringsOf_append,
          stringsOf_cons_of_ne skipped]
    · rw [if_neg empty] at added
      refine ⟨_, serve_of_ok added, sound.of_changed valid rfl ?_ ?_ ?_⟩
      · intro string member
        rw [divided]
        simp only [List.mem_append, List.mem_cons] at member ⊢
        tauto
      · have kept := upper_nameOf_setting valid.name command.value
        simp only [List.map_append, List.map_cons, stringsOf_append,
          stringsOf_cons_of_eq kept, none, none', if_neg empty]
        rfl
      · intro name' other
        have skipped : upper (nameOf string.text) ≠ upper name' := by
          rw [whole, upper_nameOf_setting clean, same]
          exact other.symm
        have skipped' : upper (nameOf (setting command.name command.value).text) ≠
            upper name' := by
          rw [upper_nameOf_setting valid.name]
          exact other.symm
        simp only [divided, List.map_append, List.map_cons, stringsOf_append,
          stringsOf_cons_of_ne skipped, stringsOf_cons_of_ne skipped']

theorem allows_of_kept (valid : command.Valid)
    (served : shell.serve command = .ok shell') (kept : Kept initial shell') :
    shell.Allows command := by
  have short : command.name.length < 128 := by
    by_contra long
    have failed := env_var_add_long command.moves command.value sound.freed
      valid.name (Nat.le_of_not_lt long)
    rw [serve_of_error failed] at served
    cases served
  refine ⟨short, ?_⟩
  intro string found
  obtain ⟨starts, before, behind, divided, unmatched⟩ := List.find?_eq_some_iff_append.mp found
  have added := env_var_add_present command.moves command.value sound.freed
    valid.name short divided (by simpa using unmatched) starts
  cases allocated : string.allocated with
  | false =>
    rw [if_pos allocated] at added
    rw [serve_of_error added] at served
    cases served
  | true =>
    rw [if_neg (by simp [allocated])] at added
    obtain ⟨name, value, clean, nonempty, whole, last, none, none'⟩ := sound.alone divided allocated
    -- Otherwise, the string of another variable is lost.
    have length (env : Env) (members : ∀ string ∈ env.strings, string ∈ shell.env.strings ∨
          string = setting command.name command.value)
        (lost : upper name ≠ upper command.name →
          stringsOf name (env.strings.map EnvString.text) = [])
        (kept : Kept initial (shell.after command env)) :
        (nameOf string.text).length = command.name.length := by
      by_contra different
      have other : upper name ≠ upper command.name := by
        intro same
        rw [whole, nameOf_setting clean, same, length_upper] at different
        exact different rfl
      have strings := sound.strings_of_kept valid members kept clean
      rw [lost other, expected_after_other other] at strings
      simp [expected, last, nonempty] at strings
    by_cases empty : command.value = []
    · rw [if_pos empty] at added
      cases (serve_of_ok added).symm.trans served
      refine ⟨rfl, length _ ?_ ?_ kept, ?_⟩
      · intro string member
        left
        rw [divided]
        simp only [List.mem_append, List.mem_cons] at member ⊢
        exact member.imp_right .inr
      · simp [stringsOf_append, none, none']
      · intro _
        obtain ⟨block, texts, got, _⟩ := kept
        exact freed_of_env_get got
    · rw [if_neg empty] at added
      cases (serve_of_ok added).symm.trans served
      refine ⟨rfl, length _ ?_ ?_ kept, fun empty' => absurd empty' empty⟩
      · intro string member
        rw [divided]
        simp only [List.mem_append, List.mem_cons] at member ⊢
        tauto
      · intro other
        have skipped : upper (nameOf (setting command.name command.value).text) ≠
            upper name := by
          rw [upper_nameOf_setting valid.name]
          exact other.symm
        simp only [List.map_append, List.map_cons, stringsOf_append,
          stringsOf_cons_of_ne skipped, none, none']
        rfl

end

end Sound

end

/-- After allowed commands, the block for a program has each variable that a
command has named once with its last value, or not at all if it was unset last,
and the others as they were; and a command is allowed if and only if only
strings that the interpreter has allocated are freed and this stays so. -/
theorem variables_kept (list : StringList) (rest : List UInt8) {shell shell' : Shell}
    (started : start (list.encode ++ rest) = .ok shell)
    (run : RunsTo AllowedStep shell shell') :
    Kept list.strings shell' ∧ ∀ command : Command, command.Valid →
        (shell'.Allows command ↔ ∃ shell'', shell'.serve command = .ok shell'' ∧
            Kept list.strings shell'') := by
  obtain ⟨first, started', sound⟩ := Sound.start list rest
  cases started.symm.trans started'
  have sound' : Sound list.strings shell' := by
    refine run.preserves ?_ sound
    rintro state state' sound ⟨command, valid, allowed, served⟩
    obtain ⟨_, served', sound'⟩ := sound.step valid allowed
    cases served.symm.trans served'
    exact sound'
  refine ⟨sound'.kept, ?_⟩
  intro command valid
  constructor
  · intro allowed
    obtain ⟨shell'', served, sound''⟩ := sound'.step valid allowed
    exact ⟨shell'', served, sound''.kept⟩
  · rintro ⟨shell'', served, kept⟩
    exact sound'.allows_of_kept valid served kept

/-- The environment `A=1`, in which `BC` is set to `2` and unset. -/
theorem variables_kept_set_and_unset : ∃ shell shell', start [65, 61, 49, 0, 0] = .ok shell ∧
      RunsTo AllowedStep shell shell' ∧ shell'.last [66, 67] = some [] ∧
      Kept [[65, 61, 49]] shell' := by
  let list : StringList := ⟨[[65, 61, 49]], by simp, by simp⟩
  obtain ⟨shell, started, sound⟩ := Sound.start list []
  have found : ∃ middle shell', AllowedStep shell middle ∧
      AllowedStep middle shell' ∧ shell'.last [66, 67] = some [] := by
    cases started
    refine ⟨_, _, ⟨⟨[98, 99], [50], false⟩, ?_, ?_, rfl⟩, ⟨⟨[66, 99], [], false⟩, ?_, ?_, rfl⟩, rfl⟩
    · exact ⟨by decide, by decide, by decide⟩
    · exact ⟨by decide, by intro string found; cases found⟩
    · exact ⟨by decide, by decide, by decide⟩
    · exact ⟨by decide, by intro string found; cases found; decide⟩
  obtain ⟨middle, shell', set, unset, last⟩ := found
  have run : RunsTo AllowedStep shell shell' := (Relation.ReflTransGen.single set).tail unset
  exact ⟨shell, shell', started, run, last, (variables_kept list [] started run).1⟩

/-- In the environment `A=1`, setting `A` reallocates a string of the block of
the process. -/
theorem string_of_process_reallocated : ∃ shell, start [65, 61, 49, 0, 0] = .ok shell ∧
      Command.Valid ⟨[65], [50], false⟩ ∧
      shell.serve ⟨[65], [50], false⟩ = .error .notAllocated :=
  ⟨_, rfl, ⟨by decide, by decide, by decide⟩, rfl⟩

end Shell

end OsFree.Minicmd
