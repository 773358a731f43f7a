import Mathlib.Data.List.TakeWhile
import OsFree.Loader.Variables
import OsFree.Machine.Attempts

/-!
# Included files

The preprocessor of configuration files copies a text to the next free page, with the files
in place of the lines that name them, as long as it finds such a line.
-/

namespace OsFree.Loader

open Machine

/-- `!include ` -/
def includeMark : List UInt8 := [0x21, 0x69, 0x6e, 0x63, 0x6c, 0x75, 0x64, 0x65, 0x20]

/-- `"` -/
def quote : UInt8 := 0x22

/-- CR or LF. -/
def isEnd (c : UInt8) : Bool := c == 0x0d || c == 0x0a

/-- The bytes in front of one that stops the scan, and the memory from it on. -/
def scanTo (stop : UInt8 → Bool) (line : List UInt8) : Run (List UInt8 × List UInt8) :=
  match line.dropWhile fun c => !stop c with
  | [] => .error .readOutside
  | c :: rest => .ok (line.takeWhile fun c => !stop c, c :: rest)

/-- A byte is skipped if the test holds of it. -/
def skipOne (test : UInt8 → Bool) : List UInt8 → Run (List UInt8)
  | [] => .error .readOutside
  | c :: rest => .ok (if test c then rest else c :: rest)

/-- The memory from `line` on, what has been copied to `p`, and the length. -/
structure Copied where
  line : List UInt8
  p : List UInt8
  len : ℤ

/-- A turn of `subst_include`, with the files that can be loaded; others are empty. -/
def includeLine (loadFile : List UInt8 → List UInt8) (copied : Copied) : Run Copied :=
  if includeMark <+: copied.line then do
    let (_, line) ← scanTo (· != blank) (copied.line.drop includeMark.length)
    let line ← skipOne (· == quote) line
    let (name, s) ← scanTo (fun c => isEnd c || c == quote) line
    let s ← skipOne (· == quote) s
    let s ← skipOne isEnd s
    let s ← skipOne isEnd s
    let file := loadFile (name.takeWhile (· ≠ 0))
    .ok ⟨s, copied.p ++ file, copied.len + (file.length - (copied.line.length - s.length : ℤ))⟩
  else do
    let (text, line) ← scanTo isEnd copied.line
    let line ← skipOne isEnd line
    let line ← skipOne isEnd line
    .ok { copied with line, p := copied.p ++ text ++ [0x0d, 0x0a] }

/-- The loop of `subst_include`; no turn is without a byte to read. -/
def includeLoop (loadFile : List UInt8 → List UInt8) (size : ℕ) (m : ℤ) : ℕ → Copied → Run Copied
  | 0, _ => .error .readOutside
  | left + 1, copied => do
      let copied ← includeLine loadFile copied
      if (size - copied.line.length : ℤ) < m then includeLoop loadFile size m left copied
      else .ok copied

/-- `subst_include` on the memory from a text on, with the length of the text. -/
def substInclude (loadFile : List UInt8 → List UInt8) (memory : List UInt8) (len : ℤ) :
    Run Copied :=
  includeLoop loadFile memory.length len memory.length ⟨memory, [], len⟩

/-- `strstr` finds the mark, and the byte in front of it is a line feed. -/
def asksAgain : UInt8 → List UInt8 → Run Bool
  | _, [] => .error .readOutside
  | before, c :: rest =>
    if c = 0 then .ok false
    else if includeMark <+: c :: rest then .ok (before == 0x0a)
    else asksAgain c rest

/-- What a pass has written to an address, and the length it tells. -/
structure Pass where
  start : ℕ
  written : List UInt8
  len : ℤ

/-- `((int)to + len + 0xFFF) & 0xFFFFF000` -/
def Pass.nextStart (pass : Pass) : ℕ := (pass.start + pass.len.toNat + 0xfff) / 0x1000 * 0x1000

/-- The byte in front of the text that each pass reads, and the memory behind it. -/
structure Pages where
  before : ℕ → UInt8
  behind : ℕ → List UInt8

/-- The loop over the passes. -/
def includePasses (loadFile : List UInt8 → List UInt8) (pages : Pages) :
    ℕ → ℕ → ℕ → List UInt8 → ℤ → Option (Run (List Pass))
  | 0, _, _, _, _ => none
  | fuel + 1, n, start, memory, len =>
    andThen (some (substInclude loadFile memory len)) fun copied =>
      let pass : Pass := ⟨start, copied.p, copied.len⟩
      let memory := copied.p ++ pages.behind (n + 1)
      andThen (some (asksAgain (pages.before (n + 1)) memory)) fun again =>
        if again then
          andThen (includePasses loadFile pages fuel (n + 1) pass.nextStart memory copied.len)
            fun passes => some (.ok (pass :: passes))
        else some (.ok [pass])

/-- A name of a file in an `!include` line. -/
structure IsFileName (name : List UInt8) : Prop where
  proper : ∀ c ∈ name, c ≠ 0 ∧ c ≠ quote ∧ isEnd c = false
  nonempty : name ≠ []
  first : name.head? ≠ some blank

/-- A line of a configuration file, which ends in CR LF or in LF only. -/
inductive ConfigLine where
  | text (content : List UInt8) (plain : ∀ c ∈ content, isEnd c = false)
      (other : ¬ includeMark <+: content) (crlf : Bool)
  | inclusion (blanks : ℕ) (opening closing : Bool) (name : List UInt8)
      (proper : IsFileName name) (crlf : Bool)

def lineEnd (crlf : Bool) : List UInt8 := if crlf then [0x0d, 0x0a] else [0x0a]

def quoteIf (quoted : Bool) : List UInt8 := if quoted then [quote] else []

def ConfigLine.bytes : ConfigLine → List UInt8
  | text content _ _ crlf => content ++ lineEnd crlf
  | inclusion blanks opening closing name _ crlf =>
    includeMark ++ List.replicate blanks blank ++ quoteIf opening ++ name ++ quoteIf closing ++
      lineEnd crlf

/-- The file that a line includes. -/
def ConfigLine.included : ConfigLine → Option (List UInt8)
  | text .. => none
  | inclusion _ _ _ name _ _ => some name

/-- A line replaced: a text ends in CR LF. -/
def expandLine (file : List UInt8 → List ConfigLine) : ConfigLine → List ConfigLine
  | .text content plain other _ => [.text content plain other true]
  | .inclusion _ _ _ name _ _ => file name

/-- A text with the files in place of the lines that name them. -/
def expand (file : List UInt8 → List ConfigLine) (lines : List ConfigLine) :
    List ConfigLine :=
  lines.flatMap (expandLine file)

/-- The bytes of lines. -/
def bytesOf (lines : List ConfigLine) : List UInt8 := lines.flatMap ConfigLine.bytes

/-- A line of the text includes a file. -/
def Left (lines : List ConfigLine) : Bool := lines.any fun line => line.included.isSome

/-- A pass tells the length of what it has written, which does not extend into the next
page. -/
def Pass.Right (pass : Pass) : Prop :=
  pass.len = pass.written.length ∧ pass.start + pass.written.length ≤ pass.nextStart

/-- The passes end, each of them is right, and in the end every line that includes a file is
replaced, and all others are kept. -/
def ReplacesIncludes (file : List UInt8 → List ConfigLine) (pages : Pages) (start : ℕ)
    (lines : List ConfigLine) : Prop :=
  ∃ fuel passes, includePasses (fun name => bytesOf (file name)) pages fuel 0 start
      (bytesOf lines ++ pages.behind 0) (bytesOf lines).length = some (.ok passes) ∧
    (∀ pass ∈ passes, pass.Right) ∧ ∃ last rounds, passes.getLast? = some last ∧
      last.written = bytesOf ((expand file)^[rounds] lines) ∧
        Left ((expand file)^[rounds] lines) = false

def ConfigLine.crlf : ConfigLine → Bool
  | text _ _ _ crlf => crlf
  | inclusion _ _ _ _ _ crlf => crlf

/-- Each line ends in CR LF, or it includes a file and is not followed by the end of
a line. -/
def EndsApart (behind : List UInt8) : List ConfigLine → Prop
  | [] => True
  | line :: lines => (line.crlf = true ∨ line.included ≠ none ∧
      ∃ c ∈ (bytesOf lines ++ behind).head?, isEnd c = false) ∧ EndsApart behind lines

/-- The lines that a pass reads end well, and another pass is asked for exactly if a line is
left that includes a file. -/
structure PassFits (file : List UInt8 → List ConfigLine) (pages : Pages) (n : ℕ)
    (lines : List ConfigLine) : Prop where
  ends : EndsApart (pages.behind n) lines
  asks : asksAgain (pages.before (n + 1)) (bytesOf (expand file lines) ++ pages.behind (n + 1)) =
      .ok (Left (expand file lines))

section

variable {file : List UInt8 → List ConfigLine} {p word content rest behind : List UInt8}
  {c : UInt8} {crlf : Bool} {len : ℤ} {line : ConfigLine} {lines : List ConfigLine}

theorem scanTo_eq {stop : UInt8 → Bool} (goes : ∀ d ∈ word, stop d = false)
    (stops : stop c = true) : scanTo stop (word ++ c :: rest) = .ok (word, c :: rest) := by
  have goes' : ∀ d ∈ word, (!stop d) = true := fun d member => by rw [goes d member]; rfl
  have stops' : ∀ d ∈ (c :: rest).head?, (!stop d) = false := by simpa using stops
  rw [scanTo, dropWhile_append_stop goes' stops', takeWhile_append_stop goes' stops']

theorem skipEnds (well : crlf = true ∨ ∃ c ∈ rest.head?, isEnd c = false) :
    ∃ s, skipOne isEnd (lineEnd crlf ++ rest) = .ok s ∧ skipOne isEnd s = .ok rest := by
  cases crlf with
  | true => exact ⟨0x0a :: rest, rfl, rfl⟩
  | false =>
    obtain ⟨c, first, goes⟩ := well.resolve_left Bool.false_ne_true
    refine ⟨rest, rfl, ?_⟩
    obtain ⟨rest, rfl⟩ := List.head?_eq_some_iff.mp first
    rw [skipOne, goes, if_neg Bool.false_ne_true]

theorem exists_lineEnd (crlf : Bool) : ∃ c tail, lineEnd crlf = c :: tail ∧ isEnd c = true := by
  cases crlf with
  | true => exact ⟨0x0d, [0x0a], rfl, rfl⟩
  | false => exact ⟨0x0a, [], rfl, rfl⟩

theorem not_mark_prefix (other : ¬ includeMark <+: content) (ends : isEnd c = true) :
    ¬ includeMark <+: content ++ c :: rest := by
  intro starts
  by_cases long : includeMark.length ≤ content.length
  · exact other (List.prefix_of_prefix_length_le starts (List.prefix_append ..) long)
  · have start' : content ++ [c] <+: content ++ c :: rest :=
      (List.prefix_append_right_inj content).mpr ⟨rest, rfl⟩
    have inside := List.prefix_of_prefix_length_le start' starts (by
      rw [List.length_append, List.length_singleton]
      omega)
    have none : ∀ c ∈ includeMark, isEnd c = false := by simp [includeMark, isEnd]
    have member : c ∈ includeMark := inside.subset (by simp)
    rw [none c member] at ends
    cases ends

theorem includeLine_text {loadFile : List UInt8 → List UInt8}
    (plain : ∀ c ∈ content, isEnd c = false) (other : ¬ includeMark <+: content) :
    includeLine loadFile ⟨content ++ lineEnd true ++ rest, p, len⟩ =
      .ok ⟨rest, p ++ content ++ [0x0d, 0x0a], len⟩ := by
  rw [List.append_assoc]
  have not_mark : ¬ includeMark <+: content ++ (lineEnd true ++ rest) := not_mark_prefix other rfl
  have scanned : scanTo isEnd (content ++ (lineEnd true ++ rest)) =
      .ok (content, lineEnd true ++ rest) := scanTo_eq plain rfl
  simp only [includeLine, if_neg not_mark, scanned]
  rfl

theorem skipOne_quoteIf {quoted : Bool} (other : c ≠ quote) :
    skipOne (· == quote) (quoteIf quoted ++ c :: rest) = .ok (c :: rest) := by
  cases quoted with
  | true => rfl
  | false => simp [skipOne, quoteIf, other]

theorem includeLine_inclusion {loadFile : List UInt8 → List UInt8} {blanks : ℕ}
    {opening closing : Bool} {name memory : List UInt8} (proper : IsFileName name)
    (well : crlf = true ∨ ∃ c ∈ rest.head?, isEnd c = false)
    (stands : memory = includeMark ++ (List.replicate blanks blank ++ (quoteIf opening ++
      (name ++ (quoteIf closing ++ (lineEnd crlf ++ rest)))))) :
    includeLine loadFile ⟨memory, p, len⟩ = .ok ⟨rest, p ++ loadFile name,
      len + ((loadFile name).length - (memory.length - rest.length : ℤ))⟩ := by
  obtain ⟨s, first, second⟩ := skipEnds well
  obtain ⟨e, tail, ends, stop⟩ := exists_lineEnd crlf
  obtain ⟨c, name', rfl⟩ := List.exists_cons_of_ne_nil proper.nonempty
  have not_blank : c ≠ blank := fun same => proper.first (congrArg some same)
  have not_quote := (proper.proper c List.mem_cons_self).2.1
  have e_ne : e ≠ quote := by
    rintro rfl
    cases stop
  rw [ends, List.cons_append] at first stands
  have starts : includeMark <+: memory := stands ▸ List.prefix_append ..
  have behind := congrArg (List.drop includeMark.length) stands
  rw [List.drop_left] at behind
  have blanks_skipped : scanTo (· != blank) (List.replicate blanks blank ++ (quoteIf opening ++
      (c :: name' ++ (quoteIf closing ++ e :: (tail ++ rest))))) =
      .ok (List.replicate blanks blank, quoteIf opening ++
        (c :: name' ++ (quoteIf closing ++ e :: (tail ++ rest)))) := by
    have goes : ∀ d ∈ List.replicate blanks blank, (d != blank) = false := by simp
    cases opening with
    | true => exact scanTo_eq goes rfl
    | false => exact scanTo_eq goes (by simpa using not_blank)
  have opened := @skipOne_quoteIf (name' ++ (quoteIf closing ++ e :: (tail ++ rest))) c opening
    not_quote
  have named : scanTo (fun c => isEnd c || c == quote)
      (c :: (name' ++ (quoteIf closing ++ e :: (tail ++ rest)))) =
      .ok (c :: name', quoteIf closing ++ e :: (tail ++ rest)) := by
    have goes : ∀ d ∈ c :: name', (isEnd d || d == quote) = false := by
      intro d member
      obtain ⟨-, not_quote, goes⟩ := proper.proper d member
      simp [not_quote, goes]
    cases closing with
    | true => exact scanTo_eq goes rfl
    | false => exact scanTo_eq goes (by simp [stop])
  have closed := @skipOne_quoteIf (tail ++ rest) e closing e_ne
  have text : (c :: name').takeWhile (· ≠ 0) = c :: name' :=
    List.takeWhile_eq_self_iff.mpr fun d member => by simp [(proper.proper d member).1]
  rw [List.cons_append] at blanks_skipped
  simp only [includeLine, starts, if_true, behind, blanks_skipped, bind_ok, List.cons_append,
    opened, named, closed, first, second, text]

theorem includeLine_eq (well : line.crlf = true ∨ line.included ≠ none ∧
      ∃ c ∈ rest.head?, isEnd c = false) :
    includeLine (fun name => bytesOf (file name)) ⟨line.bytes ++ rest, p, len⟩ =
      .ok ⟨rest, p ++ bytesOf (expandLine file line),
        len + ((bytesOf (expandLine file line)).length - line.bytes.length : ℤ)⟩ := by
  cases line with
  | text content plain other crlf =>
    obtain rfl : crlf = true := well.resolve_right fun both => both.1 rfl
    have same : bytesOf (expandLine file (.text content plain other true)) =
        content ++ lineEnd true := by
      simp [bytesOf, expandLine, ConfigLine.bytes]
    rw [same, ConfigLine.bytes, includeLine_text plain other]
    simp [lineEnd]
  | inclusion blanks opening closing name proper crlf =>
    have stands : (ConfigLine.inclusion blanks opening closing name proper crlf).bytes ++ rest =
        includeMark ++ (List.replicate blanks blank ++ (quoteIf opening ++
          (name ++ (quoteIf closing ++ (lineEnd crlf ++ rest))))) := by
      simp [ConfigLine.bytes]
    rw [includeLine_inclusion proper (well.imp_right And.right) stands]
    simp only [expandLine, List.length_append]
    congr 2
    omega

theorem expand_cons (line : ConfigLine) (lines : List ConfigLine) :
    expand file (line :: lines) = expandLine file line ++ expand file lines :=
  List.flatMap_cons

theorem bytesOf_cons (line : ConfigLine) (lines : List ConfigLine) :
    bytesOf (line :: lines) = line.bytes ++ bytesOf lines :=
  List.flatMap_cons

theorem bytesOf_append (lines lines' : List ConfigLine) :
    bytesOf (lines ++ lines') = bytesOf lines ++ bytesOf lines' :=
  List.flatMap_append

theorem bytes_length_pos (line : ConfigLine) : 0 < line.bytes.length := by
  have ends : ∀ crlf, 0 < (lineEnd crlf).length := by decide
  cases line <;> rw [ConfigLine.bytes, List.length_append] <;>
    exact Nat.add_pos_right _ (ends _)

theorem includeLoop_eq {size left : ℕ} {m : ℤ} (filled : lines ≠ [])
    (ends : EndsApart behind lines) (turns : lines.length ≤ left)
    (whole : (size : ℤ) = m + behind.length) :
    includeLoop (fun name => bytesOf (file name)) size m left ⟨bytesOf lines ++ behind, p, len⟩ =
      .ok ⟨behind, p ++ bytesOf (expand file lines),
        len + ((bytesOf (expand file lines)).length - (bytesOf lines).length : ℤ)⟩ := by
  induction lines generalizing left p len with
  | nil => exact absurd rfl filled
  | cons line lines ih =>
    obtain ⟨left, rfl⟩ := Nat.exists_eq_succ_of_ne_zero (Nat.ne_zero_of_lt turns)
    rw [bytesOf_cons, List.append_assoc, includeLoop, includeLine_eq ends.1, bind_ok,
      expand_cons, bytesOf_append]
    cases lines with
    | nil =>
      rw [if_neg (by simp only [bytesOf, List.flatMap_nil, List.nil_append]; omega)]
      simp [bytesOf, expand]
    | cons next lines =>
      have more := bytes_length_pos next
      rw [if_pos, ih (List.cons_ne_nil _ _) ends.2 (Nat.le_of_succ_le_succ turns)]
      · simp only [List.append_assoc, List.length_append]
        congr 2
        omega
      · dsimp only
        rw [bytesOf_cons, List.length_append, List.length_append]
        push_cast
        omega

theorem substInclude_eq (filled : lines ≠ []) (ends : EndsApart behind lines) :
    substInclude (fun name => bytesOf (file name)) (bytesOf lines ++ behind)
        (bytesOf lines).length =
      .ok ⟨behind, bytesOf (expand file lines),
        (bytesOf (expand file lines)).length⟩ := by
  have turns : ∀ lines : List ConfigLine, lines.length ≤ (bytesOf lines).length := by
    intro lines
    induction lines with
    | nil => exact Nat.le_refl _
    | cons line lines ih =>
      have some := bytes_length_pos line
      rw [bytesOf_cons, List.length_append, List.length_cons]
      omega
  rw [substInclude, includeLoop_eq filled ends
    ((turns lines).trans (by rw [List.length_append]; exact Nat.le_add_right ..))
    (by rw [List.length_append]; push_cast; rfl)]
  simp

end

section

variable {file : List UInt8 → List ConfigLine} {pages : Pages}

/-- The files that are named are below some bound. -/
def Below (rank : List UInt8 → ℕ) (bound : ℕ) (lines : List ConfigLine) : Prop :=
  ∀ line ∈ lines, ∀ name ∈ line.included, rank name < bound

theorem Below.expand {rank : List UInt8 → ℕ} {bound : ℕ} {lines : List ConfigLine}
    (acyclic : ∀ name, Below rank (rank name) (file name))
    (below : Below rank bound lines) :
    Below rank (bound - 1) (expand file lines) := by
  intro line member name named
  obtain ⟨line', member', inside⟩ := List.mem_flatMap.mp member
  cases line' with
  | text content plain other crlf =>
    rw [expandLine, List.mem_singleton] at inside
    subst inside
    cases named
  | inclusion blanks opening closing name' proper crlf =>
    have less := acyclic name' line inside name named
    have least := below _ member' name' rfl
    omega

theorem exists_below (rank : List UInt8 → ℕ) (lines : List ConfigLine) :
    ∃ bound, Below rank bound lines := by
  induction lines with
  | nil => exact ⟨0, nofun⟩
  | cons line lines ih =>
    obtain ⟨bound, below⟩ := ih
    refine ⟨max bound ((line.included.map rank).getD 0 + 1), List.forall_mem_cons.mpr ⟨?_, ?_⟩⟩
    · intro name named
      rw [Option.mem_def.mp named]
      exact Nat.lt_of_lt_of_le (Nat.lt_succ_self _) (Nat.le_max_right ..)
    · intro line member name named
      exact Nat.lt_of_lt_of_le (below line member name named) (Nat.le_max_left ..)

/-- What a pass writes for lines. -/
def passOf (file : List UInt8 → List ConfigLine) (start : ℕ) (lines : List ConfigLine) : Pass where
  start := start
  written := bytesOf (expand file lines)
  len := (bytesOf (expand file lines)).length

theorem passOf_right (start : ℕ) (lines : List ConfigLine) :
    (passOf file start lines).Right := by
  refine ⟨rfl, ?_⟩
  simp only [Pass.nextStart, passOf, Int.toNat_natCast]
  omega

theorem includePasses_succ {fuel n start : ℕ} {lines : List ConfigLine} (filled : lines ≠ [])
    (fits : PassFits file pages n lines) :
    includePasses (fun name => bytesOf (file name)) pages (fuel + 1) n start
        (bytesOf lines ++ pages.behind n) (bytesOf lines).length =
      if Left (expand file lines) then
        andThen (includePasses (fun name => bytesOf (file name)) pages fuel (n + 1)
            (passOf file start lines).nextStart
            (bytesOf (expand file lines) ++ pages.behind (n + 1))
            (bytesOf (expand file lines)).length)
          fun passes => some (.ok (passOf file start lines :: passes))
      else some (.ok [passOf file start lines]) := by
  rw [includePasses, substInclude_eq filled fits.ends]
  simp only [andThen, fits.asks]
  rfl

theorem passes_end {rank : List UInt8 → ℕ} {bound n start : ℕ} {lines : List ConfigLine}
    (acyclic : ∀ name, Below rank (rank name) (file name)) (below : Below rank bound lines)
    (filled : lines ≠ []) (fits : ∀ k, k = 0 ∨ Left ((expand file)^[k] lines) = true →
      PassFits file pages (n + k) ((expand file)^[k] lines)) :
    ∃ fuel passes, includePasses (fun name => bytesOf (file name)) pages fuel n start
        (bytesOf lines ++ pages.behind n) (bytesOf lines).length = some (.ok passes) ∧
      (∀ pass ∈ passes, pass.Right) ∧ ∃ last rounds, passes.getLast? = some last ∧
        last.written = bytesOf ((expand file)^[rounds] lines) ∧
          Left ((expand file)^[rounds] lines) = false := by
  induction bound using Nat.strong_induction_on generalizing n start lines with
  | _ bound ih =>
    have here : PassFits file pages n lines := fits 0 (.inl rfl)
    cases left : Left (expand file lines) with
    | false =>
      refine ⟨1, [passOf file start lines], ?_, ?_, _, 1, rfl, rfl, left⟩
      · rw [includePasses_succ filled here, left]
        rfl
      · rw [List.forall_mem_singleton]
        exact passOf_right start lines
    | true =>
      have below' := below.expand acyclic
      have filled' : expand file lines ≠ [] := fun none => by
        rw [none] at left
        cases left
      have positive : 0 < bound := by
        obtain ⟨line, member, some⟩ := List.any_eq_true.mp left
        obtain ⟨name, named⟩ := Option.isSome_iff_exists.mp some
        have less := below' line member name named
        omega
      obtain ⟨fuel, passes, run, right, last, rounds, ends, written, done⟩ :=
        @ih (bound - 1) (by omega) (n + 1) (passOf file start lines).nextStart _ below'
          filled' fun k reached => by
            rw [Nat.add_assoc, Nat.add_comm 1]
            exact fits (k + 1) (.inr (reached.elim (fun zero => zero ▸ left) id))
      refine ⟨fuel + 1, passOf file start lines :: passes, ?_, ?_, last, rounds + 1, ?_,
        written, done⟩
      · rw [includePasses_succ filled here, left, if_pos rfl, run]
        rfl
      · exact List.forall_mem_cons.mpr ⟨passOf_right start lines, right⟩
      · rw [List.getLast?_cons, ends]
        rfl

end

/-- There are no files. -/
def noFile (_ : List UInt8) : List ConfigLine := []

/-- Each text is in front of a zero. -/
def zeroPages : Pages := ⟨fun _ => 0, fun _ => [0]⟩

/-- A line with a letter. -/
def letterLine (crlf : Bool) : ConfigLine := .text [0x61] (by simp [isEnd]) (by decide) crlf

/-- The line `!include x`. -/
def missingLine : ConfigLine :=
  .inclusion 0 false false [0x78] ⟨by simp [quote, isEnd], by simp, by decide⟩ true

end OsFree.Loader
