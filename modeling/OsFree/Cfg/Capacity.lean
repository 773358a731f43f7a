import OsFree.Cfg.ReadConfig

/-!
# The arrays for the statements

Every statement that is read gets the next place of an array, without a look at
the size of the array.  Only the modes are counted.
-/

namespace OsFree.Cfg

open Machine

variable {σ : Type}

/-- The readers at which `CfgParseLine` is called. -/
def Copy.visits (copy : Copy) (parseLine : ParseLine σ) : List UInt8 → Reader σ → List (Reader σ)
  | [], _ => []
  | [c], reader =>
    if isLineEnd c = true ∧ reader.len < maxLength then [reader] else []
  | c :: next :: addr, reader =>
    if copy.checksLength = true ∧ maxLength ≤ reader.len then []
    else
      (if isLineEnd c = true ∧ reader.len < maxLength then [reader] else []) ++
        match reader.take copy.exits parseLine c with
        | .ok (some reader) =>
          if isLineEnd next then copy.visits parseLine addr reader
          else copy.visits parseLine (next :: addr) reader
        | _ => []

variable (copy : Copy)

/-- The statement that the line begins like. -/
def Reader.statement (reader : Reader σ) : Option Statement :=
  copy.findStatement (reader.line.put reader.len 0)

/-- In a run, no counter exceeds the size of its array, every statement is stored
in its array, and what has been stored stays there. -/
structure InRange (visits : List (Reader Config)) : Prop where
  stores : ∀ reader ∈ visits, ∀ statement, reader.statement copy = some statement →
      (reader.state.entries statement).length < copy.capacity statement
  counters : ∀ reader ∈ visits, ∀ statement,
    (reader.state.entries statement).length ≤ copy.capacity statement
  modes : ∀ reader ∈ visits, reader.state.options.mode.length ≤ 20
  stays : visits.Pairwise fun earlier later => ∀ statement,
    earlier.state.entries statement <+: later.state.entries statement

/-- The number of lines that begin like a statement. -/
def count (statement : Statement) (visits : List (Reader Config)) : Nat :=
  visits.countP fun reader => reader.statement copy = some statement

theorem skip_induction {motive : List UInt8 → Prop} (nil : motive [])
    (cons : ∀ c addr, motive (skipEnd addr) → motive (c :: addr)) :
    ∀ addr, motive addr := by
  intro addr
  induction size : addr.length using Nat.strong_induction_on generalizing addr with
  | h n ih =>
    cases addr with
    | nil => exact nil
    | cons c addr =>
      apply cons
      refine ih (skipEnd addr).length ?_ _ rfl
      have shorter : (skipEnd addr).length ≤ addr.length := by
        cases addr with
        | nil => exact Nat.le_refl _
        | cons next addr =>
          rw [skipEnd]
          split
          · exact Nat.le_succ _
          · exact Nat.le_refl _
      rw [List.length_cons] at size
      omega

variable {copy} {parseLine' : ParseLine σ}

/-- The call for a character, and those behind it. -/
theorem visits_cons (c : UInt8) (addr : List UInt8) (reader : Reader σ) :
    copy.visits parseLine' (c :: addr) reader =
      if copy.checksLength = true ∧ maxLength ≤ reader.len then []
      else
        (if isLineEnd c = true ∧ reader.len < maxLength then [reader] else []) ++
          match reader.take copy.exits parseLine' c with
          | .ok (some reader) => copy.visits parseLine' (skipEnd addr) reader
          | _ => [] := by
  cases addr with
  | nil =>
    rw [Copy.visits]
    by_cases full : copy.checksLength = true ∧ maxLength ≤ reader.len
    · rw [if_pos full, if_neg]
      omega
    · rw [if_neg full]
      cases reader.take copy.exits parseLine' c with
      | error fault => simp
      | ok taken =>
        cases taken with
        | none => simp
        | some reader => simp [Copy.visits]
  | cons next addr =>
    rw [Copy.visits]
    cases ends : isLineEnd next with
    | true =>
      rw [skipEnd_cons_of_end ends]
      simp
    | false =>
      rw [skipEnd_cons_of_char ends]
      simp

variable {convert : List UInt8 → Run Int32} {config after : Config}
  {line line' : LineArray} {options options' : Options}

theorem mode_le_of_run {handler : Handler} {len : Int}
    (runs : handler.run copy convert options line len = .ok (some (options', line')))
    (le : options.mode.length ≤ 20) : options'.mode.length ≤ 20 := by
  cases handler with
  | words field tests otherwise =>
    simp only [Handler.run] at runs
    split at runs
    · cases runs
      exact le
    · cases runs
      exact le
  | digit field c value otherwise =>
    cases runs
    exact le
  | short field =>
    simp only [Handler.run, bind_eq_ok_iff] at runs
    obtain ⟨helper, -, runs⟩ := runs
    cases runs
    exact le
  | checked field legal =>
    simp only [Handler.run, bind_eq_ok_iff] at runs
    obtain ⟨helper, -, runs⟩ := runs
    split at runs
    · cases runs
      exact le
    · split at runs
      · cases runs
      · cases runs
        exact le
  | int field =>
    simp only [Handler.run, bind_eq_ok_iff] at runs
    obtain ⟨helper, -, runs⟩ := runs
    cases runs
    exact le
  | char field =>
    cases runs
    exact le
  | text field =>
    simp only [Handler.run, bind_eq_ok_iff] at runs
    obtain ⟨pc, -, runs⟩ := runs
    cases runs
    exact le
  | upperText field =>
    simp only [Handler.run, bind_eq_ok_iff] at runs
    obtain ⟨pc, -, runs⟩ := runs
    cases runs
    exact le
  | codepage =>
    cases runs
    exact le
  | devinfo =>
    simp only [Handler.run, bind_eq_ok_iff] at runs
    obtain ⟨pc, -, runs⟩ := runs
    split at runs
    · cases runs
      exact le
    · split at runs
      · cases runs
        exact le
      · cases runs
        exact le
  | mode =>
    simp only [Handler.run] at runs
    split at runs
    · rename_i room
      obtain ⟨pc, -, runs⟩ := bind_eq_ok_iff.mp runs
      cases runs
      simp only [List.length_append, List.length_singleton]
      omega
    · cases runs
      exact le

variable {len lineno : Nat} {code : UInt32}

theorem add_of_parseLine {statement : Statement}
    (parses : parseLine copy convert config line len lineno = .ok (some (code, after, line')))
    (found : copy.findStatement line = some statement) :
    (config.entries statement).length < copy.capacity statement ∧
      ∃ entry, after = config.add statement entry := by
  simp only [parseLine, found, storeStatement, bind_eq_ok_iff] at parses
  obtain ⟨moved, -, pc, -, stores⟩ := parses
  split at stores
  · rename_i room
    cases stores
    exact ⟨room, _, rfl⟩
  · cases stores

theorem keeps_of_parseLine (parses : parseLine copy convert config line len lineno =
      .ok (some (code, after, line')))
    (none : copy.findStatement line = none) :
    after.entries = config.entries ∧
      (config.options.mode.length ≤ 20 → after.options.mode.length ≤ 20) := by
  simp only [parseLine, none] at parses
  cases found : findOption line with
  | none =>
    rw [found] at parses
    cases parses
    exact ⟨rfl, id⟩
  | some option =>
    simp only [found, storeOption, bind_eq_ok_iff] at parses
    obtain ⟨moved, -, result, runs, parses⟩ := parses
    cases result with
    | none => cases parses
    | some result =>
      cases parses
      exact ⟨rfl, mode_le_of_run runs⟩

variable {c : UInt8} {addr : List UInt8} {reader next : Reader Config}

theorem take_cases {exits : Bool} {parse : ParseLine σ} {reader next : Reader σ}
    (taken : reader.take exits parse c = .ok (some next)) :
    (isLineEnd c = false ∧ next.state = reader.state) ∨
      (isLineEnd c = true ∧ reader.len < maxLength ∧ ∃ code line',
        parse reader.state (reader.line.put reader.len 0) reader.len
          reader.lineno = .ok (some (code, next.state, line'))) := by
  unfold Reader.take at taken
  by_cases room : reader.len < maxLength
  · rw [if_pos room] at taken
    cases ends : isLineEnd c with
    | false =>
      left
      rw [ends, if_neg Bool.false_ne_true] at taken
      cases taken
      exact ⟨rfl, rfl⟩
    | true =>
      right
      rw [ends, if_pos rfl, bind_eq_ok_iff] at taken
      obtain ⟨result, parses, taken⟩ := taken
      cases result with
      | none => cases taken
      | some result =>
        obtain ⟨code, state, line'⟩ := result
        simp only at taken
        split at taken
        · cases taken
        · cases taken
          exact ⟨rfl, room, code, line', parses⟩
  · rw [if_neg room] at taken
    cases taken

/-- The counters of a reader are in range. -/
structure Fits (copy : Copy) (config : Config) : Prop where
  counters : ∀ statement, (config.entries statement).length ≤ copy.capacity statement
  modes : config.options.mode.length ≤ 20

theorem parseLine_keeps (parses : parseLine copy convert config line len lineno =
      .ok (some (code, after, line'))) (fits : Fits copy config) :
    Fits copy after ∧ ∀ statement, config.entries statement <+: after.entries statement := by
  cases found : copy.findStatement line with
  | none =>
    obtain ⟨entries, modes⟩ := keeps_of_parseLine parses found
    refine ⟨⟨?_, modes fits.modes⟩, fun statement => ?_⟩
    · rw [entries]
      exact fits.counters
    · exact entries ▸ List.prefix_rfl
  | some statement =>
    obtain ⟨room, entry, equal⟩ := add_of_parseLine parses found
    subst equal
    refine ⟨⟨fun other => ?_, fits.modes⟩, fun other => ?_⟩
    · by_cases same : other = statement
      · subst same
        simp only [Config.add, if_pos, List.length_append, List.length_singleton]
        omega
      · simpa [Config.add, same] using fits.counters other
    · by_cases same : other = statement
      · subst same
        simp [Config.add]
      · simp [Config.add, same]

theorem take_keeps (taken : reader.take copy.exits (parseLine copy convert) c = .ok (some next))
    (fits : Fits copy reader.state) :
    Fits copy next.state ∧ ∀ statement,
      reader.state.entries statement <+: next.state.entries statement := by
  cases take_cases taken with
  | inl char =>
    rw [char.2]
    exact ⟨fits, fun statement => List.prefix_rfl⟩
  | inr call =>
    obtain ⟨-, -, code, line', parses⟩ := call
    exact parseLine_keeps parses fits

theorem mem_visits_cons {parse : ParseLine σ} {reader later : Reader σ}
    (mem : later ∈ copy.visits parse (c :: addr) reader) :
    later = reader ∨ ∃ next, reader.take copy.exits parse c = .ok (some next) ∧
      later ∈ copy.visits parse (skipEnd addr) next := by
  rw [visits_cons] at mem
  split at mem
  · cases mem
  · rw [List.mem_append] at mem
    cases mem with
    | inl here =>
      left
      split at here
      · exact List.mem_singleton.mp here
      · cases here
    | inr behind =>
      right
      split at behind
      · rename_i next taken
        exact ⟨next, taken, behind⟩
      · cases behind

theorem visits_keep (fits : Fits copy reader.state) :
    ∀ later ∈ copy.visits (parseLine copy convert) addr reader, Fits copy later.state ∧ ∀ statement,
        reader.state.entries statement <+: later.state.entries statement := by
  induction addr using skip_induction generalizing reader with
  | nil => exact fun later mem => absurd mem List.not_mem_nil
  | cons c addr ih =>
    intro later mem
    cases mem_visits_cons mem with
    | inl here =>
      rw [here]
      exact ⟨fits, fun statement => List.prefix_rfl⟩
    | inr behind =>
      obtain ⟨next, taken, mem'⟩ := behind
      obtain ⟨fits', stays⟩ := take_keeps taken fits
      obtain ⟨fits'', stays'⟩ := ih fits' later mem'
      exact ⟨fits'', fun statement =>
        (stays statement).trans (stays' statement)⟩

theorem visits_stay (fits : Fits copy reader.state) :
    (copy.visits (parseLine copy convert) addr reader).Pairwise fun earlier later => ∀ statement,
        earlier.state.entries statement <+: later.state.entries statement := by
  induction addr using skip_induction generalizing reader with
  | nil => exact List.Pairwise.nil
  | cons c addr ih =>
    rw [visits_cons]
    split
    · exact List.Pairwise.nil
    · rw [List.pairwise_append]
      refine ⟨?_, ?_, ?_⟩
      · split
        · exact List.pairwise_singleton ..
        · exact List.Pairwise.nil
      · split
        · rename_i next taken
          exact ih (take_keeps taken fits).1
        · exact List.Pairwise.nil
      · intro earlier first later mem statement
        split at first
        · rw [List.mem_singleton.mp first]
          split at mem
          · rename_i next taken
            obtain ⟨fits', stays⟩ := take_keeps taken fits
            exact (stays statement).trans ((visits_keep fits' later mem).2 statement)
          · cases mem
        · cases first

theorem length_of_parseLine (parses : parseLine copy convert config line len lineno =
      .ok (some (code, after, line'))) (statement : Statement) :
    (after.entries statement).length = (config.entries statement).length +
      if copy.findStatement line = some statement then 1 else 0 := by
  cases found : copy.findStatement line with
  | none =>
    rw [(keeps_of_parseLine parses found).1]
    simp
  | some stored =>
    obtain ⟨-, entry, equal⟩ := add_of_parseLine parses found
    subst equal
    by_cases same : statement = stored
    · simp [Config.add, same]
    · simp [Config.add, same, Ne.symm same]

theorem count_cons (statement : Statement) (reader : Reader Config)
    (visits : List (Reader Config)) :
    count copy statement (reader :: visits) = count copy statement visits +
      if reader.statement copy = some statement then 1 else 0 := by
  simp [count, List.countP_cons]

theorem room_iff (fits : Fits copy reader.state) :
    (∀ statement, reader.statement copy = some statement →
      (reader.state.entries statement).length < copy.capacity statement) ↔
    ∀ statement, (reader.state.entries statement).length +
      (if reader.statement copy = some statement then 1 else 0) ≤
        copy.capacity statement := by
  apply forall_congr'
  intro statement
  by_cases found : reader.statement copy = some statement
  · simp only [found, forall_const, if_pos]
    exact Nat.lt_iff_add_one_le
  · simpa [found] using fits.counters statement

theorem stores_iff (fits : Fits copy reader.state) :
    (∀ later ∈ copy.visits (parseLine copy convert) addr reader, ∀ statement,
      later.statement copy = some statement →
        (later.state.entries statement).length < copy.capacity statement) ↔
    ∀ statement, (reader.state.entries statement).length +
      count copy statement (copy.visits (parseLine copy convert) addr reader) ≤
        copy.capacity statement := by
  induction addr using skip_induction generalizing reader with
  | nil => simpa [Copy.visits, count] using fits.counters
  | cons c addr ih =>
    rw [visits_cons]
    by_cases full : copy.checksLength = true ∧ maxLength ≤ reader.len
    · rw [if_pos full]
      simpa [count] using fits.counters
    rw [if_neg full]
    by_cases visit : isLineEnd c = true ∧ reader.len < maxLength
    · simp only [if_pos visit, List.singleton_append, List.forall_mem_cons, count_cons]
      cases taken : reader.take copy.exits (parseLine copy convert) c with
      | error fault => simpa [count] using room_iff fits
      | ok result =>
        cases result with
        | none => simpa [count] using room_iff fits
        | some next =>
          have call : ∃ code line', parseLine copy convert reader.state
              (reader.line.put reader.len 0) reader.len reader.lineno =
                .ok (some (code, next.state, line')) := by
            cases take_cases taken with
            | inl char => exact absurd visit.1 (by simp [char.1])
            | inr call => exact call.2.2
          obtain ⟨code, line', parses⟩ := call
          have room : ∀ statement, reader.statement copy = some statement →
              (reader.state.entries statement).length <
                copy.capacity statement :=
            fun statement found => (add_of_parseLine parses found).1
          have rest := @ih next (take_keeps taken fits).1
          refine (and_iff_right room).trans (rest.trans ?_)
          apply forall_congr'
          intro statement
          rw [length_of_parseLine parses statement, Nat.add_assoc, Nat.add_comm (count ..)]
          rfl
    · rw [if_neg visit, List.nil_append]
      cases taken : reader.take copy.exits (parseLine copy convert) c with
      | error fault => simpa [count] using fits.counters
      | ok result =>
        cases result with
        | none => simpa [count] using fits.counters
        | some next =>
          have same : next.state = reader.state := by
            cases take_cases taken with
            | inl char => exact char.2
            | inr call => exact absurd ⟨call.1, call.2.1⟩ visit
          have rest := @ih next (by rwa [same])
          rwa [same] at rest

theorem fits_initial : Fits copy .initial where
  counters := fun _ => Nat.zero_le _
  modes := Nat.zero_le _

/-- Eleven lines `PSD=`. -/
def elevenPsds : List UInt8 := (List.replicate 11 (chars "PSD=\r\n")).flatten

end OsFree.Cfg
