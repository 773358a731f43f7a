import Mathlib.Data.List.Forall2
import OsFree.Cfg.ReadConfig

/-!
# The ends of the lines

The loop skips a character that ends a line behind any character, and not only
behind the first of two that end the same line.  A text is read line by line
nevertheless if its lines end with two characters.
-/

namespace OsFree.Cfg

/-- The ways to end a line. -/
inductive LineEnd where
  | lf
  | crlf
  deriving DecidableEq

/-- The characters of an end. -/
def LineEnd.cells : LineEnd → List UInt8
  | lf => [0x0a]
  | crlf => [0x0d, 0x0a]

/-- The characters of a line. -/
abbrev LineText := { text : List UInt8 // ∀ c ∈ text, isLineEnd c = false }

/-- A line with its end. -/
structure EndedLine where
  text : LineText
  ending : LineEnd

/-- A text of lines, and what follows the last end. -/
structure ConfigText where
  lines : List EndedLine
  last : LineText

namespace ConfigText

/-- The characters of the lines and of what follows them. -/
def linesCells (lines : List EndedLine) (last : LineText) : List UInt8 :=
  lines.flatMap (fun line => line.text.1 ++ line.ending.cells) ++ last.1

/-- The characters of the text. -/
def cells (text : ConfigText) : List UInt8 := linesCells text.lines text.last

/-- The lines of a text with their numbers.  A last one without an end counts. -/
def numbered (text : ConfigText) : List (List UInt8 × Nat) := (text.lines.map (·.text.1) ++
    if text.last.1 = [] then [] else [text.last.1]).zipIdx

end ConfigText

/-- A call of `CfgParseLine`. -/
structure Call where
  line : LineArray
  len : Nat
  lineno : Nat

/-- The call gets a line with its length and its number, and the zero behind
it. -/
structure Call.Passes (call : Call) (line : List UInt8 × Nat) : Prop where
  cells : call.line.cells.take (call.len + 1) = line.1 ++ [0]
  len : call.len = line.1.length
  lineno : call.lineno = line.2

/-- `CfgParseLine` when it always comes back with success, together with a record
of its calls. -/
def recording {σ : Type} (parseLine : σ → LineArray → Nat → Nat → σ × LineArray) :
    ParseLine (σ × List Call) :=
  fun state line len lineno =>
    let after := parseLine state.1 line len lineno
    .ok (some (1, (after.1, state.2 ++ [⟨line, len, lineno⟩]), after.2))

variable {σ : Type} (copy : Copy) (parseLine : σ → LineArray → Nat → Nat → σ × LineArray)

/-- `CfgParseConfig` passes every line of the text once and in order. -/
def PassesLines (text : ConfigText) (line : LineArray) (state : σ) : Prop :=
  ∃ state' calls, copy.parseConfig (recording parseLine) text.cells line (state, []) =
        .ok (some (state', calls)) ∧
      List.Forall₂ Call.Passes calls text.numbered

/-- A line feed alone ends a line only where all lines before it are empty and
end with two characters. -/
def SingleEnds (lines : List EndedLine) : Prop :=
  ∀ before line after, lines = before ++ line :: after → line.ending = .lf →
    line.text.1 = [] ∧ ∀ earlier ∈ before, earlier.text.1 = [] ∧ earlier.ending = .crlf

/-- All lines have an end and fit in the array, and a line feed alone does not end
a line behind one that it would be skipped for. -/
structure ConfigText.EndsTwice (text : ConfigText) : Prop where
  last : text.last.1 = []
  fits : ∀ line ∈ text.lines, line.text.1.length < maxLength
  single : SingleEnds text.lines

/-- The text that the loop goes on with, if it skips the end of a line or not. -/
def skipIf (skips : Bool) (addr : List UInt8) : List UInt8 :=
  if skips then skipEnd addr else addr

/-- The reader with another character of a line. -/
def Reader.push (reader : Reader σ) (c : UInt8) : Reader σ :=
  { reader with line := reader.line.put reader.len c, len := reader.len + 1 }

/-- The reader with more characters of a line. -/
def Reader.append (reader : Reader σ) (text : List UInt8) : Reader σ :=
  text.foldl Reader.push reader

/-- The call at the end of a line. -/
def Reader.call (reader : Reader σ) : Call where
  line := reader.line.put reader.len 0
  len := reader.len
  lineno := reader.lineno

/-- The reader behind the call. -/
def Reader.called (reader : Reader (σ × List Call)) :
    Reader (σ × List Call) :=
  let call := reader.call
  let after := parseLine reader.state.1 call.line call.len call.lineno
  ⟨after.2, 0, reader.lineno + 1, (after.1, reader.state.2 ++ [call])⟩

theorem Reader.append_len (reader : Reader σ) (text : List UInt8) :
    (reader.append text).len = reader.len + text.length := by
  induction text generalizing reader with
  | nil => rfl
  | cons c text ih =>
    have pushed := ih (reader.push c)
    rw [List.length_cons]
    show ((reader.push c).append text).len = _
    rw [pushed]
    show reader.len + 1 + text.length = _
    omega

variable {copy parseLine} {reader : Reader (σ × List Call)}
  {addr text : List UInt8} {final : σ × List Call}

theorem readLoop_full (full : maxLength ≤ reader.len)
    (reads : copy.readLoop (recording parseLine) addr reader = .ok (some final)) :
    final = reader.state := by
  cases addr with
  | nil =>
    cases reads
    rfl
  | cons c addr =>
    rw [readLoop_cons] at reads
    split at reads
    · cases reads
      rfl
    · rw [Reader.take, if_neg (Nat.not_lt.mpr full)] at reads
      cases reads

theorem readLoop_char {c : UInt8} (room : reader.len < maxLength) (char : isLineEnd c = false) :
    copy.readLoop (recording parseLine) (c :: addr) reader =
      copy.readLoop (recording parseLine) (skipEnd addr) (reader.push c) := by
  rw [readLoop_cons, if_neg (by omega), Reader.take, if_pos room]
  simp [char, Reader.push]

theorem readLoop_end {c : UInt8} (room : reader.len < maxLength) (ends : isLineEnd c = true) :
    copy.readLoop (recording parseLine) (c :: addr) reader =
      copy.readLoop (recording parseLine) (skipEnd addr)
        (reader.called parseLine) := by
  rw [readLoop_cons, if_neg (by omega), Reader.take, if_pos room]
  simp [ends, Reader.called, Reader.call, recording]

theorem skipEnd_append (inside : ∀ c ∈ text, isLineEnd c = false)
    (nonempty : text ≠ []) : skipEnd (text ++ addr) = text ++ addr := by
  cases text with
  | nil => exact absurd rfl nonempty
  | cons c text => exact skipEnd_cons_of_char (inside c (List.mem_cons_self ..))

theorem skipIf_append (skips : Bool) (addr : List UInt8)
    (inside : ∀ c ∈ text, isLineEnd c = false) :
    skipIf skips (text ++ addr) =
      text ++ if text = [] then skipIf skips addr else addr := by
  by_cases empty : text = []
  · rw [empty]
    rfl
  · rw [if_neg empty]
    cases skips with
    | true => exact skipEnd_append inside empty
    | false => rfl

section

variable (inside : ∀ c ∈ text, isLineEnd c = false)

include inside

theorem readLoop_text (room : reader.len + text.length < maxLength) :
    copy.readLoop (recording parseLine) (text ++ addr) reader =
      copy.readLoop (recording parseLine) (if text = [] then addr else skipEnd addr)
        (reader.append text) := by
  induction text generalizing reader with
  | nil => rfl
  | cons c text ih =>
    rw [List.length_cons] at room
    have inside' : ∀ c ∈ text, isLineEnd c = false :=
      fun c mem => inside c (List.mem_cons_of_mem _ mem)
    rw [List.cons_append, readLoop_char (by omega) (inside c (List.mem_cons_self ..)),
      if_neg (List.cons_ne_nil c text)]
    by_cases empty : text = []
    · subst empty
      rfl
    · have shorter : (reader.push c).len + text.length < maxLength := by
        show reader.len + 1 + text.length < maxLength
        omega
      rw [skipEnd_append inside' empty, ih inside' shorter, if_neg empty]
      rfl

theorem readLoop_long (long : maxLength ≤ reader.len + text.length)
    (reads : copy.readLoop (recording parseLine) (text ++ addr) reader = .ok (some final)) :
    final = reader.state := by
  induction text generalizing reader with
  | nil => exact readLoop_full long reads
  | cons c text ih =>
    by_cases full : maxLength ≤ reader.len
    · exact readLoop_full full reads
    · rw [List.length_cons] at long
      have inside' : ∀ c ∈ text, isLineEnd c = false :=
        fun c mem => inside c (List.mem_cons_of_mem _ mem)
      have longer : maxLength ≤ (reader.push c).len + text.length := by
        show maxLength ≤ reader.len + 1 + text.length
        omega
      rw [List.cons_append, readLoop_char (by omega) (inside c (List.mem_cons_self ..))] at reads
      have kept : final = (reader.push c).state := by
        by_cases empty : text = []
        · subst empty
          exact readLoop_full longer reads
        · rw [skipEnd_append inside' empty] at reads
          exact ih inside' longer reads
      exact kept

theorem readLoop_skip_long {skips : Bool} (long : maxLength ≤ reader.len + text.length)
    (reads : copy.readLoop (recording parseLine) (skipIf skips (text ++ addr))
      reader = .ok (some final)) :
    final = reader.state := by
  rw [skipIf_append skips addr inside] at reads
  exact readLoop_long inside long reads

end

theorem readLoop_line {line : EndedLine} {skips : Bool}
    (room : reader.len + line.text.1.length < maxLength) :
    copy.readLoop (recording parseLine)
        (skipIf skips (line.text.1 ++ line.ending.cells ++ addr)) reader =
      if line.ending = .lf ∧ (skips = true ∨ line.text.1 ≠ []) then
        copy.readLoop (recording parseLine) addr (reader.append line.text.1)
      else
        copy.readLoop (recording parseLine)
          (skipIf (skips || line.text.1 ≠ [] || line.ending = .lf) addr)
          ((reader.append line.text.1).called parseLine) := by
  obtain ⟨⟨text, inside⟩, ending⟩ := line
  have room' : (reader.append text).len < maxLength := by
    rw [Reader.append_len]
    exact room
  by_cases empty : text = []
  · subst empty
    cases ending with
    | lf =>
      cases skips with
      | true => rfl
      | false => exact readLoop_end room rfl
    | crlf =>
      cases skips with
      | true => exact readLoop_end room rfl
      | false => exact readLoop_end room rfl
  · rw [List.append_assoc, skipIf_append skips _ inside, if_neg empty,
      readLoop_text inside room, if_neg empty]
    cases ending with
    | lf =>
      rw [if_pos ⟨rfl, Or.inr empty⟩]
      rfl
    | crlf =>
      show copy.readLoop _ (0x0a :: addr) _ = _
      rw [readLoop_end room' rfl]
      simp [empty, skipIf]

/-- What the loop needs of the lines that it has not read. -/
def Ends : Bool → List EndedLine → Prop
  | _, [] => True
  | skips, line :: lines =>
    line.text.1.length < maxLength ∧ ¬(line.ending = .lf ∧ (skips = true ∨ line.text.1 ≠ [])) ∧
      Ends (skips || line.text.1 ≠ [] || line.ending = .lf) lines

theorem linesCells_cons (line : EndedLine) (lines : List EndedLine) (last : LineText) :
    ConfigText.linesCells (line :: lines) last =
      line.text.1 ++ line.ending.cells ++ ConfigText.linesCells lines last := by
  simp [ConfigText.linesCells]

theorem Reader.append_state (reader : Reader σ) (text : List UInt8) :
    (reader.append text).state = reader.state := by
  induction text generalizing reader with
  | nil => rfl
  | cons c text ih => exact ih (reader.push c)

theorem readLoop_calls {lines : List EndedLine} {last : LineText} {skips : Bool}
    (reads : copy.readLoop (recording parseLine)
      (skipIf skips (ConfigText.linesCells lines last)) reader = .ok (some final)) :
    ∃ calls, final.2 = reader.state.2 ++ calls ∧ calls.length ≤ lines.length ∧
      (calls.length = lines.length → Ends skips lines) := by
  induction lines generalizing skips reader with
  | nil =>
    refine ⟨[], ?_, Nat.le_refl _, fun _ => trivial⟩
    have whole : ConfigText.linesCells [] last = last.1 ++ [] := (List.append_nil _).symm
    rw [List.append_nil]
    rw [whole] at reads
    by_cases room : reader.len + last.1.length < maxLength
    · rw [skipIf_append skips [] last.2] at reads
      have nothing : (if last.1 = [] then skipIf skips [] else []) = ([] : List UInt8) := by
        cases skips <;> simp [skipIf]
      rw [nothing, readLoop_text last.2 room, skipEnd_nil, ite_self] at reads
      cases reads
      rw [Reader.append_state]
    · rw [readLoop_skip_long last.2 (Nat.le_of_not_lt room) reads]
  | cons line lines ih =>
    rw [linesCells_cons] at reads
    by_cases room : reader.len + line.text.1.length < maxLength
    · rw [readLoop_line room] at reads
      split at reads
      · rename_i lost
        obtain ⟨calls, equal, le, -⟩ := @ih _ false reads
        rw [Reader.append_state] at equal
        refine ⟨calls, equal, Nat.le_succ_of_le le, ?_⟩
        rw [List.length_cons]
        omega
      · rename_i kept
        obtain ⟨calls, equal, le, ends⟩ := ih reads
        refine ⟨(reader.append line.text.1).call :: calls, ?_, Nat.succ_le_succ le, ?_⟩
        · rw [equal, Reader.called, Reader.append_state]
          exact List.append_assoc ..
        · intro same
          exact ⟨by omega, kept, ends (Nat.succ_injective same)⟩
    · rw [List.append_assoc] at reads
      refine ⟨[], ?_, Nat.zero_le _, fun none => absurd none (by simp)⟩
      rw [readLoop_skip_long line.text.2 (Nat.le_of_not_lt room) reads, List.append_nil]

theorem Reader.take_append {reader : Reader σ} {text : List UInt8}
    (room : reader.len + text.length < maxLength) :
    (reader.append text).line.cells.take (reader.append text).len =
      reader.line.cells.take reader.len ++ text := by
  induction text generalizing reader with
  | nil => exact (List.append_nil _).symm
  | cons c text ih =>
    rw [List.length_cons] at room
    have shorter : (reader.push c).len + text.length < maxLength := by
      show reader.len + 1 + text.length < maxLength
      omega
    have stored : (reader.push c).line.cells.take (reader.push c).len =
        reader.line.cells.take reader.len ++ [c] :=
      LineArray.take_put c (by omega)
    show ((reader.push c).append text).line.cells.take ((reader.push c).append text).len = _
    rw [ih shorter, stored, List.append_assoc]
    rfl

theorem Reader.append_lineno (reader : Reader σ) (text : List UInt8) :
    (reader.append text).lineno = reader.lineno := by
  induction text generalizing reader with
  | nil => rfl
  | cons c text ih => exact ih (reader.push c)

theorem Reader.call_passes {reader : Reader σ} {text : List UInt8}
    (begins : reader.len = 0) (fits : text.length < maxLength) :
    (reader.append text).call.Passes (text, reader.lineno) where
  cells := by
    have room : reader.len + text.length < maxLength := by omega
    have within : (reader.append text).len < maxLength := by
      rw [Reader.append_len]
      exact room
    show ((reader.append text).line.put (reader.append text).len 0).cells.take
      ((reader.append text).len + 1) = _
    rw [LineArray.take_put 0 within, Reader.take_append room, begins]
    rfl
  len := by
    show (reader.append text).len = text.length
    rw [Reader.append_len, begins, Nat.zero_add]
  lineno := Reader.append_lineno reader text

theorem readLoop_passes {lines : List EndedLine} {last : LineText}
    {skips : Bool} (ends : Ends skips lines) (none : last.1 = [])
    (begins : reader.len = 0) :
    ∃ state calls, copy.readLoop (recording parseLine)
        (skipIf skips (ConfigText.linesCells lines last)) reader =
          .ok (some (state, reader.state.2 ++ calls)) ∧
      List.Forall₂ Call.Passes calls
        ((lines.map (·.text.1)).zipIdx reader.lineno) := by
  induction lines generalizing skips reader with
  | nil =>
    refine ⟨reader.state.1, [], ?_, List.Forall₂.nil⟩
    have nothing : skipIf skips (ConfigText.linesCells [] last) = [] := by
      have empty : ConfigText.linesCells [] last = [] := none
      rw [empty]
      cases skips <;> rfl
    rw [nothing, List.append_nil]
    rfl
  | cons line lines ih =>
    obtain ⟨fits, kept, ends'⟩ := ends
    have room : reader.len + line.text.1.length < maxLength := by omega
    obtain ⟨state, calls, reads, passed⟩ := @ih
      ((reader.append line.text.1).called parseLine) _ ends' rfl
    refine ⟨state, (reader.append line.text.1).call :: calls, ?_, ?_⟩
    · rw [linesCells_cons, readLoop_line room, if_neg kept, reads,
        Reader.called, Reader.append_state]
      simp
    · apply List.Forall₂.cons
      · exact Reader.call_passes begins fits
      · simpa [Reader.called, Reader.append_lineno] using passed

theorem ends_true_iff {lines : List EndedLine} : Ends true lines ↔
      ∀ line ∈ lines, line.text.1.length < maxLength ∧ line.ending ≠ .lf := by
  induction lines with
  | nil => simp [Ends]
  | cons line lines ih => simp [Ends, ih, and_assoc]

theorem singleEnds_cons {line : EndedLine} {lines : List EndedLine} :
    SingleEnds (line :: lines) ↔ (line.ending = .lf → line.text.1 = []) ∧
        ((line.text.1 = [] ∧ line.ending = .crlf ∧ SingleEnds lines) ∨
          ∀ later ∈ lines, later.ending ≠ .lf) := by
  constructor
  · intro single
    refine ⟨fun lf => (single [] line lines rfl lf).1, ?_⟩
    by_cases none : ∀ later ∈ lines, later.ending ≠ .lf
    · exact Or.inr none
    · left
      simp only [not_forall, not_not] at none
      obtain ⟨later, mem, lf⟩ := none
      obtain ⟨before, after, equal⟩ := List.append_of_mem mem
      have first := (single (line :: before) later after (by rw [equal]; rfl) lf).2
        line (List.mem_cons_self ..)
      refine ⟨first.1, first.2, ?_⟩
      intro before' line' after' equal' lf'
      have rest := single (line :: before') line' after' (by rw [equal']; rfl) lf'
      exact ⟨rest.1, fun earlier mem =>
        rest.2 earlier (List.mem_cons_of_mem _ mem)⟩
  · intro both before line' after equal lf
    obtain ⟨first, others⟩ := both
    cases before with
    | nil =>
      cases equal
      exact ⟨first lf, fun earlier mem => absurd mem List.not_mem_nil⟩
    | cons head before =>
      cases equal
      cases others with
      | inl blank =>
        obtain ⟨empty, crlf, single⟩ := blank
        have rest := single before line' after rfl lf
        refine ⟨rest.1, ?_⟩
        intro earlier mem
        cases mem with
        | head => exact ⟨empty, crlf⟩
        | tail _ mem => exact rest.2 earlier mem
      | inr none => exact absurd lf (none line' (by simp))

theorem ends_false_iff {lines : List EndedLine} : Ends false lines ↔
      (∀ line ∈ lines, line.text.1.length < maxLength) ∧ SingleEnds lines := by
  induction lines with
  | nil => simp [Ends, SingleEnds]
  | cons line lines ih =>
    rw [singleEnds_cons, List.forall_mem_cons]
    obtain ⟨⟨text, inside⟩, ending⟩ := line
    by_cases empty : text = []
    · subst empty
      cases ending with
      | lf =>
        simp [Ends, ends_true_iff, forall_and, maxLength]
      | crlf =>
        have vacuous : (∀ later ∈ lines, later.ending ≠ .lf) →
            SingleEnds lines := by
          intro none before line after equal lf
          exact absurd lf (none line (by simp [equal]))
        have collapse : (SingleEnds lines ∨
            ∀ later ∈ lines, later.ending ≠ .lf) ↔ SingleEnds lines :=
          or_iff_left_of_imp vacuous
        simpa [Ends, maxLength, collapse] using ih
    · cases ending with
      | lf => simp [Ends, empty]
      | crlf =>
        simp [Ends, empty, ends_true_iff, forall_and, and_assoc]

/-- All lines are passed exactly if they end as they need to. -/
theorem passesLines_iff_endsTwice {σ : Type} (copy : Copy)
    (parseLine : σ → LineArray → Nat → Nat → σ × LineArray) (text : ConfigText)
    (line : LineArray) (state : σ) :
    PassesLines copy parseLine text line state ↔ text.EndsTwice := by
  constructor
  · intro passes
    obtain ⟨state', calls, reads, passed⟩ := passes
    obtain ⟨calls', equal, le, ends⟩ := @readLoop_calls _ _ _ _ _ _ text.last false reads
    have same : calls = calls' := equal
    have count := passed.length_eq
    simp only [ConfigText.numbered, List.length_zipIdx, List.length_append,
      List.length_map] at count
    have none : text.last.1 = [] := by
      by_contra more
      rw [if_neg more, List.length_singleton, same] at count
      omega
    rw [if_pos none, List.length_nil, same] at count
    have both := ends_false_iff.mp (ends count)
    exact ⟨none, both.1, both.2⟩
  · intro ends
    obtain ⟨state', calls, reads, passed⟩ := @readLoop_passes σ copy parseLine
      ⟨line, 0, 0, (state, [])⟩ text.lines text.last false
      (ends_false_iff.mpr ⟨ends.fits, ends.single⟩) ends.last rfl
    refine ⟨state', calls, reads, ?_⟩
    rw [ConfigText.numbered, if_pos ends.last, List.append_nil]
    exact passed

/-- The line `A=1` with a line feed. -/
def lineFeedText : ConfigText where
  lines := [⟨⟨[0x41, 0x3d, 0x31], by simp [isLineEnd]⟩, .lf⟩]
  last := ⟨[], by simp⟩

/-- The only line of a text is not passed if it ends with a line feed. -/
theorem lineFeed_not_passesLines :
    ¬PassesLines .server (fun _ line _ _ => ((), line)) lineFeedText .blank
      () := by
  intro passes
  obtain ⟨state', calls, reads, passed⟩ := passes
  have none : calls = [] := by
    cases reads
    rfl
  subst none
  cases passed

end OsFree.Cfg
