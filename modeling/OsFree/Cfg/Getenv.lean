import OsFree.Cfg.StoreLine

/-!
# The environment of CONFIG.SYS

The SET statements are kept as they were written.  A variable is looked for by
comparing its name, in capitals, with each of them up to the `=` there.
-/

namespace OsFree.Cfg

open Machine

/-- The value in a SET, if the characters before its `=` are those of the name in
capitals.  The name may be longer. -/
def valueOf : List UInt8 → List UInt8 → Option (List UInt8)
  | [], _ => none
  | p :: string, name =>
    if p = equals then some string
    else if p = toupper (name.headD 0) then valueOf string name.tail
    else none

/-- Look for a variable.  ERROR_ENVVAR_NOT_FOUND is 203. -/
def cfgGetenv (config : Config) (name : List UInt8) :
    UInt32 × Option (List UInt8) :=
  match (config.entries .set).findSome? fun entry => valueOf entry.string name with
  | some value => (0, some value)
  | none => (203, none)

/-- Parse lines, each with its number. -/
def parseLines (copy : Copy) (convert : List UInt8 → Run Int32) :
    List (GivenLine × Nat) → Config → Run (Option Config)
  | [], config => .ok (some config)
  | (line, lineno) :: lines, config => do
      match ← parseLine copy convert config line.array line.len lineno with
      | none => return none
      | some (code, config, _) =>
        if code = 0 ∧ copy.exits then return none
        else parseLines copy convert lines config

/-- A line `SET name=value` with its number. -/
structure SetLine where
  given : GivenLine
  lineno : Nat
  keyword : List UInt8
  name : List UInt8
  value : List UInt8
  text_eq : given.text = keyword ++ 0x20 :: (name ++ equals :: value)
  isSet : keyword.map toupper = chars "SET"
  clear : equals ∉ name

namespace SetLine

/-- The name of the line is the one that is looked for. -/
def Names (name : List UInt8) (line : SetLine) : Bool := line.name.map toupper = name.map toupper

/-- The name of the line, as it was written, is in front of the one that is looked
for. -/
def Begins (name : List UInt8) (line : SetLine) : Bool := line.name.isPrefixOf (name.map toupper)

end SetLine

/-- The result for a value or for none. -/
def envResult : Option (List UInt8) → UInt32 × Option (List UInt8)
  | some value => (0, some value)
  | none => (203, none)

/-- A variable has the value of the first line with its name. -/
def FindsSetting (copy : Copy) (convert : List UInt8 → Run Int32)
    (lines : List SetLine) (name : List UInt8) : Prop :=
  ∃ config, parseLines copy convert
      (lines.map fun line => (line.given, line.lineno)) .initial = .ok (some config) ∧
    cfgGetenv config name = envResult ((lines.find? (SetLine.Names name)).map SetLine.value)

/-- The first line that has the name, or begins with it as it was written, does
both, or a later line makes up for the difference. -/
def Agrees (name : List UInt8) (lines : List SetLine) : Prop :=
  ∀ before line after, lines = before ++ line :: after →
    (∀ earlier ∈ before, earlier.Names name = false ∧ earlier.Begins name = false) →
    (line.Begins name = true → line.Names name = false →
      (after.find? (SetLine.Names name)).map SetLine.value = some line.value) ∧
    (line.Names name = true → line.Begins name = false →
      (after.find? (SetLine.Begins name)).map SetLine.value = some line.value)

theorem valueOf_eq {front value name : List UInt8} (clear : equals ∉ front)
    (nonzero : ∀ c ∈ front, c ≠ 0) :
    valueOf (front ++ equals :: value) name =
      if front.isPrefixOf (name.map toupper) then some value else none := by
  induction front generalizing name with
  | nil => simp [valueOf]
  | cons p front ih =>
    rw [List.mem_cons, not_or] at clear
    have rest := @ih name.tail clear.2 (fun c mem => nonzero c (List.mem_cons_of_mem _ mem))
    rw [List.cons_append, valueOf, if_neg (Ne.symm clear.1), rest]
    cases name with
    | nil =>
      have zero : p ≠ toupper 0 := nonzero p (List.mem_cons_self ..)
      simp [zero]
    | cons c name =>
      by_cases same : p = toupper c
      · simp [same]
      · simp [same]

variable {copy : Copy} {convert : List UInt8 → Run Int32}

namespace SetLine

variable (line : SetLine)

/-- The entry of the line. -/
def entry : Entry where
  line := line.lineno
  string := line.name ++ equals :: line.value

theorem findStatement_eq : copy.findStatement line.given.array = some .set := by
  have tested : copy.findStatement line.given.array = copy.type.find? fun statement =>
        statement.name.isPrefixOf (line.given.text.map toupper) := by
    apply List.find?_congr
    intro statement _
    exact line.given.holds.startsWith_eq (statement_name_clear statement).1
  rw [tested, line.text_eq, List.map_append, line.isSet, List.map_cons]
  cases copy <;> rfl

theorem parseLine_eq (config : Config) :
    ∃ array, parseLine copy convert config line.given.array line.given.len line.lineno =
      if (config.entries .set).length < 150 then
        .ok (some (1, config.add .set line.entry, array))
      else .error .writeOutside := by
  have size : line.keyword.length = 3 := by
    have same := congrArg List.length line.isSet
    rwa [List.length_map] at same
  have le : Statement.set.name.length + 1 ≤ line.given.text.length := by
    have three : Statement.set.name.length = 3 := rfl
    rw [three, line.text_eq, List.length_append, List.length_cons, size]
    omega
  have rest : line.given.text.drop (Statement.set.name.length + 1) =
      line.name ++ equals :: line.value := by
    have three : Statement.set.name.length = line.keyword.length := size.symm
    rw [three, line.text_eq, ← List.drop_drop, List.drop_left]
    rfl
  have capacity : copy.capacity .set = 150 := by
    cases copy <;> rfl
  obtain ⟨array, stores⟩ := @storeStatement_of_le copy config line.given.array
    line.given.text line.given.len line.lineno .set line.given.holds le
    line.given.reaches
  refine ⟨array, ?_⟩
  rw [rest, capacity] at stores
  simp only [parseLine, findStatement_eq]
  exact stores

end SetLine

/-- The configuration with the entries of more lines. -/
def Config.addLines (config : Config) (lines : List SetLine) : Config :=
  lines.foldl (fun config line => config.add .set line.entry) config

theorem Config.addLines_entries (config : Config) (lines : List SetLine) :
    (config.addLines lines).entries .set =
      config.entries .set ++ lines.map SetLine.entry := by
  induction lines generalizing config with
  | nil => exact (List.append_nil _).symm
  | cons line lines ih =>
    have rest := ih (config.add .set line.entry)
    rw [List.map_cons, List.append_cons]
    exact rest

theorem parseLines_iff {config after : Config} {lines : List SetLine}
    (le : (config.entries .set).length ≤ 150) :
    parseLines copy convert (lines.map fun line => (line.given, line.lineno))
        config = .ok (some after) ↔
      (config.entries .set).length + lines.length ≤ 150 ∧
        after = config.addLines lines := by
  induction lines generalizing config with
  | nil => simp [parseLines, Config.addLines, le, eq_comm]
  | cons line lines ih =>
    obtain ⟨array, parses⟩ := @SetLine.parseLine_eq copy convert line config
    rw [List.map_cons, parseLines, parses]
    by_cases room : (config.entries .set).length < 150
    · have grown : ((config.add .set line.entry).entries .set).length =
          (config.entries .set).length + 1 := by
        rw [Config.add_entries_self, List.length_append, List.length_singleton]
      have rest := @ih (config.add .set line.entry) (by omega)
      rw [grown] at rest
      rw [if_pos room, List.length_cons, Nat.add_comm lines.length, ← Nat.add_assoc]
      exact rest
    · rw [if_neg room]
      refine iff_of_false (fun parsed => by cases parsed) ?_
      rw [List.length_cons]
      omega

theorem envResult_injective {value value' : Option (List UInt8)} :
    envResult value = envResult value' ↔ value = value' := by
  cases value <;> cases value' <;> simp [envResult]

theorem cfgGetenv_addLines (lines : List SetLine) (name : List UInt8) :
    cfgGetenv (Config.initial.addLines lines) name =
      envResult ((lines.find? (SetLine.Begins name)).map SetLine.value) := by
  have found : (lines.map SetLine.entry).findSome? (fun entry => valueOf entry.string name) =
        (lines.find? (SetLine.Begins name)).map SetLine.value := by
    induction lines with
    | nil => rfl
    | cons line lines ih =>
      have nonzero : ∀ c ∈ line.name, c ≠ 0 := by
        intro c mem
        apply line.given.holds.nonzero
        rw [line.text_eq]
        simp [mem]
      have here : valueOf line.entry.string name =
          if line.Begins name then some line.value else none :=
        valueOf_eq line.clear nonzero
      rw [List.map_cons, List.findSome?_cons, here]
      cases begins : line.Begins name with
      | true => simp [begins]
      | false => simpa [List.find?_cons, begins] using ih
  have empty : Config.initial.entries .set = [] := rfl
  rw [cfgGetenv, Config.addLines_entries, empty, List.nil_append, found]
  rfl

theorem findsSetting_iff {lines : List SetLine} {name : List UInt8} :
    FindsSetting copy convert lines name ↔ lines.length ≤ 150 ∧
      (lines.find? (SetLine.Begins name)).map SetLine.value =
        (lines.find? (SetLine.Names name)).map SetLine.value := by
  have parsed : ∀ config, parseLines copy convert
      (lines.map fun line => (line.given, line.lineno)) .initial = .ok (some config) ↔
      lines.length ≤ 150 ∧ config = Config.initial.addLines lines := by
    intro config
    have iff := @parseLines_iff copy convert .initial config lines (Nat.zero_le _)
    have empty : (Config.initial.entries .set).length = 0 := rfl
    rwa [empty, Nat.zero_add] at iff
  constructor
  · intro finds
    obtain ⟨config, parses, found⟩ := finds
    obtain ⟨room, rfl⟩ := (parsed config).mp parses
    rw [cfgGetenv_addLines, envResult_injective] at found
    exact ⟨room, found⟩
  · intro both
    refine ⟨_, (parsed _).mpr ⟨both.1, rfl⟩, ?_⟩
    rw [cfgGetenv_addLines, both.2]

section

variable {name : List UInt8} {line : SetLine} {lines : List SetLine}

theorem agrees_cons_of_unlike (names : line.Names name = false)
    (begins : line.Begins name = false) :
    Agrees name (line :: lines) ↔ Agrees name lines := by
  constructor
  · intro agrees before other after equal unlike
    apply agrees (line :: before) other after (by rw [equal]; rfl)
    rw [List.forall_mem_cons]
    exact ⟨⟨names, begins⟩, unlike⟩
  · intro agrees before other after equal unlike
    cases before with
    | nil =>
      cases equal
      simp [names, begins]
    | cons first before =>
      cases equal
      rw [List.forall_mem_cons] at unlike
      exact agrees before other after rfl unlike.2

theorem agrees_cons_of_like (like : line.Names name = true ∨ line.Begins name = true) :
    Agrees name (line :: lines) ↔ (line.Begins name = true → line.Names name = false →
        (lines.find? (SetLine.Names name)).map SetLine.value = some line.value) ∧
      (line.Names name = true → line.Begins name = false →
        (lines.find? (SetLine.Begins name)).map SetLine.value =
          some line.value) := by
  constructor
  · intro agrees
    exact agrees [] line lines rfl (fun earlier mem => absurd mem List.not_mem_nil)
  · intro decides before other after equal unlike
    cases before with
    | nil =>
      cases equal
      exact decides
    | cons first before =>
      cases equal
      have none := unlike line (List.mem_cons_self ..)
      rw [none.1, none.2] at like
      simp at like

end

theorem agrees_iff {name : List UInt8} {lines : List SetLine} :
    (lines.find? (SetLine.Begins name)).map SetLine.value =
      (lines.find? (SetLine.Names name)).map SetLine.value ↔
    Agrees name lines := by
  induction lines with
  | nil => simp [Agrees]
  | cons line lines ih =>
    cases begins : line.Begins name with
    | true =>
      rw [agrees_cons_of_like (Or.inr begins)]
      cases names : line.Names name with
      | true => simp [begins, names]
      | false => simp [begins, names, eq_comm]
    | false =>
      cases names : line.Names name with
      | true =>
        rw [agrees_cons_of_like (Or.inl names)]
        simp [begins, names]
      | false =>
        rw [agrees_cons_of_unlike names begins, ← ih]
        simp [begins, names]

/-- A variable has the value that is meant exactly if there is room for all lines,
and the first line with its name agrees with the first that begins it. -/
theorem findsSetting_iff_agrees (copy : Copy) (convert : List UInt8 → Run Int32)
    (lines : List SetLine) (name : List UInt8) :
    FindsSetting copy convert lines name ↔
      lines.length ≤ 150 ∧ Agrees name lines := by
  rw [findsSetting_iff, agrees_iff]

/-- A text in an array of zeros. -/
def GivenLine.of (text : List UInt8) (nonzero : 0 ∉ text)
    (short : text.length < maxLength) : GivenLine where
  array := {
    cells := text ++ 0 :: List.replicate (maxLength - (text.length + 1)) 0
    size := by
      rw [List.length_append, List.length_cons, List.length_replicate]
      omega }
  text := text
  len := text.length
  holds := {
    cells := ⟨_, rfl⟩
    nonzero := fun _ mem => ne_of_mem_of_not_mem mem nonzero }
  reaches := Nat.le_refl _

/-- The line `SET PA=1`. -/
def paLine : SetLine where
  given := .of (chars "SET PA=1") (by decide) (by decide)
  lineno := 0
  keyword := chars "SET"
  name := chars "PA"
  value := chars "1"
  text_eq := rfl
  isSet := by decide
  clear := by decide

/-- The line `SET PATH=2`. -/
def pathLine : SetLine where
  given := .of (chars "SET PATH=2") (by decide) (by decide)
  lineno := 1
  keyword := chars "SET"
  name := chars "PATH"
  value := chars "2"
  text_eq := rfl
  isSet := by decide
  clear := by decide

/-- `PATH` has the value of `PA`, which is set before it. -/
theorem pathLine_not_findsSetting :
    ¬FindsSetting .server atoi [paLine, pathLine] (chars "PATH") := by
  rw [findsSetting_iff]
  intro both
  exact absurd both.2 (by decide)

end OsFree.Cfg
