import Mathlib.Data.List.TakeWhile
import OsFree.Machine.Attempts
import OsFree.Machine.Run

/-!
# The command line of the command interpreter

A line is split into words in the buffer it was typed into.  The first word is a
command of the interpreter, or a program that gets the line in two strings.
-/

namespace OsFree.Minicmd

open Machine

def isdelim (c : UInt8) : Bool := c == 0 || c == 32 || c == 9 || c == 44

/-- A character of a word. -/
def inWord (c : UInt8) : Bool := !isdelim c

/-- A blank or a tab. -/
def isBlank (c : UInt8) : Bool := c == 32 || c == 9

/-- A delimiter inside the line. -/
def isGap (c : UInt8) : Bool := c != 0 && isdelim c

def MAXARGS : Nat := 32

/-- A line that has been typed, and what stands in the buffer behind it. -/
structure Line where
  text : List UInt8
  stale : List UInt8
  nonzero : 0 ∉ text
  short : text.length ≤ 255
  full : text.length + 1 + stale.length = 0x8000

def Line.buffer (line : Line) : List UInt8 := line.text ++ 0 :: line.stale

/-- The character that `cmd` points to. -/
def charAt (buffer : List UInt8) (cmd : Nat) : UInt8 := (buffer.drop cmd).headD 0

/-- Where `cmd` stops when it passes over such characters. -/
def skip (p : UInt8 → Bool) (buffer : List UInt8) (cmd : Nat) : Nat :=
  cmd + ((buffer.drop cmd).takeWhile p).length

/-- The buffer, where `cmd` points to, and the first `Argc` pointers of `Argv`. -/
structure Scan where
  buffer : List UInt8
  cmd : Nat
  Argv : List Nat

/-- A turn of the loop through the arguments. -/
def nextWord (s : Scan) : Scan :=
  let stop := skip inWord s.buffer s.cmd
  -- only the program name is ended
  let ends := s.Argv.isEmpty && charAt s.buffer stop != 0
  let buffer := if ends then s.buffer.set stop 0 else s.buffer
  let cmd := if ends then stop + 1 else stop
  ⟨buffer, skip isGap buffer cmd, s.Argv ++ [s.cmd]⟩

/-- The loop through the arguments, with room for so many more. -/
def scanWords : Nat → Scan → Scan
  | 0, s => s
  | left + 1, s => if charAt s.buffer s.cmd = 0 then s else scanWords left (nextWord s)

/-- The loop back over trailing delimiters. -/
def stepBack (buffer : List UInt8) : Nat → Run Nat
  | 0 => if isGap (charAt buffer 0) then .error .readOutside else .ok 0
  | cmd + 1 => if isGap (charAt buffer (cmd + 1)) then stepBack buffer cmd else .ok (cmd + 1)

/-- `exit`. -/
def exitName : List UInt8 := [101, 120, 105, 116]

/-- The names of the table `commands`. -/
def commands : List (List UInt8) :=
  [[63], [104, 101, 108, 112], exitName, [99, 100], [99, 104, 100, 105, 114],
    [100, 105, 114], [115, 101, 116], [101, 110, 118]]

/-- What a line has the interpreter do: nothing, change the disk, leave, call a
command with `Argv`, or start a program with what its name points to. -/
inductive Action where
  | nothing
  | disk (letter : UInt8)
  | leave
  | builtin (name : List UInt8) (Argv : List Nat)
  | external (block : List UInt8)

instance (name : List UInt8) : Decidable (name ∈ commands) :=
  decidable_of_iff (commands.contains name = true) List.contains_iff_mem

/-- The end of `parse_cmd`, for the string and the memory at `Argv[0]`. -/
def dispatch (name block : List UInt8) (Argv : List Nat) : Action :=
  if name = exitName then .leave
  else if name ∈ commands then .builtin name Argv
  else .external block

/-- A zero is stored in the buffer. -/
def endLine (buffer : List UInt8) (cmd : Nat) : Run (List UInt8) :=
  if cmd < buffer.length then .ok (buffer.set cmd 0) else .error .writeOutside

/-- `parse_cmd` from its last loop on. -/
def finish (s : Scan) : Run Action := do
  let cmd ← stepBack s.buffer s.cmd
  let buffer ← endLine s.buffer (cmd + 1)
  -- `Argv[Argc] = NULL`
  if MAXARGS ≤ s.Argv.length then .error .writeOutside
  else match s.Argv with
    | [] => .error .nullPointer
    | start :: _ =>
      let block := buffer.drop start
      .ok (dispatch (block.takeWhile (· ≠ 0)) block s.Argv)

/-- A drive letter. -/
def IsDrive (text : List UInt8) : Prop := text.length = 2 ∧ text[1]? = some 58

instance (text : List UInt8) : Decidable (IsDrive text) := inferInstanceAs (Decidable (_ ∧ _))

def parse_cmd (line : Line) : Run Action :=
  if line.text = [] then .ok .nothing
  else if IsDrive line.text then .ok (.disk (line.text.headD 0))
  else finish (scanWords MAXARGS ⟨line.buffer, skip isBlank line.buffer 0, []⟩)

/-- How many words begin, inside a word or not. -/
def words : Bool → List UInt8 → Nat
  | _, [] => 0
  | inside, c :: text =>
    if isdelim c then words false text
    else (if inside then 0 else 1) + words true text

section Definitions

variable (text : List UInt8)

/-- The first word. -/
def programName : List UInt8 := (text.dropWhile isdelim).takeWhile inWord

/-- What follows the first word. -/
def behindName : List UInt8 := (text.dropWhile isdelim).dropWhile inWord

/-- The program name, a zero, the rest of the line and two zeros. -/
def argumentBlock : List UInt8 := programName text ++ 0 :: (behindName text).tail ++ [0, 0]

/-- `parse_cmd` returns and has written inside the buffer and the table only; a
line without a word does nothing, and a program gets the block that it is owed. -/
def Handled (line : Line) : Prop := ∃ action, parse_cmd line = .ok action ∧
  ((∀ c ∈ line.text, isdelim c = true) → action = .nothing) ∧
    ∀ block, action = .external block → argumentBlock line.text <+: block

/-- Behind blanks and tabs a word begins. -/
def BeginsWord : Prop := ∃ c ∈ (text.dropWhile isBlank).head?, isdelim c = false

end Definitions

/-- When a line is handled: it is empty or a drive letter; or a word comes first,
there are fewer words than the table has places, and the word is a command, or
something follows it, or the byte behind the second zero is a third one. -/
def WellFormed (line : Line) : Prop := line.text = [] ∨ IsDrive line.text ∨
  BeginsWord line.text ∧ words false line.text < MAXARGS ∧
    (programName line.text ∈ commands ∨ behindName line.text ≠ [] ∨ line.stale[1]? = some 0)

variable {line : Line} {text rest stale tail buffer : List UInt8} {c : UInt8} {cmd : Nat}
  {Argv : List Nat}

theorem drop_skip (p : UInt8 → Bool) (buffer : List UInt8) (cmd : Nat) :
    buffer.drop (skip p buffer cmd) = (buffer.drop cmd).dropWhile p := by
  rw [skip, ← List.drop_drop, drop_length_takeWhile]

variable {p : UInt8 → Bool} {front : List UInt8}

theorem dropWhile_zero (stops : p 0 = false) (text stale : List UInt8) :
    (text ++ 0 :: stale).dropWhile p = text.dropWhile p ++ 0 :: stale := by
  induction text with
  | nil => exact List.dropWhile_cons_of_neg (by rw [stops]; exact Bool.false_ne_true)
  | cons c text ih =>
    rw [List.cons_append, List.dropWhile_cons, List.dropWhile_cons]
    split
    · exact ih
    · rfl

theorem isGap_eq (nonzero : c ≠ 0) : isGap c = isdelim c := by
  rw [isGap, bne_iff_ne.mpr nonzero, Bool.true_and]

theorem nonzero_of_not_isdelim (inside : isdelim c = false) : c ≠ 0 := by
  rintro rfl
  contradiction

theorem words_true (text : List UInt8) :
    words true text = words false (text.dropWhile inWord) := by
  induction text with
  | nil => rfl
  | cons c text ih =>
    cases delim : isdelim c with
    | true => simp [words, inWord, delim]
    | false => simpa [words, inWord, delim] using ih

theorem words_dropWhile (gaps : ∀ c, p c = true → isdelim c = true)
    (text : List UInt8) : words false (text.dropWhile p) = words false text := by
  induction text with
  | nil => rfl
  | cons c text ih =>
    rw [List.dropWhile_cons]
    split
    next gap => rw [ih, words, if_pos (gaps c gap)]
    next => rfl

theorem isdelim_of_isGap (c : UInt8) (gap : isGap c = true) : isdelim c = true :=
  (Bool.and_eq_true _ _ ▸ gap).2

theorem isdelim_of_isBlank (c : UInt8) (gap : isBlank c = true) : isdelim c = true := by
  simp only [isBlank, isdelim, Bool.or_eq_true] at *
  tauto

/-- What is left of a line when a word and the delimiters behind it are passed. -/
def nextRest (text : List UInt8) : List UInt8 := (text.dropWhile inWord).dropWhile isGap

theorem words_cons (inside : isdelim c = false) (text : List UInt8) :
    words false (c :: text) = 1 + words false (nextRest (c :: text)) := by
  rw [nextRest, words_dropWhile isdelim_of_isGap, List.dropWhile_cons_of_pos (by simp [inWord, inside]),
    ← words_true, words, if_neg (by rw [inside]; exact Bool.false_ne_true)]
  rfl

theorem not_mem_dropWhile (nonzero : 0 ∉ text) : 0 ∉ text.dropWhile p :=
  fun member => nonzero ((List.dropWhile_suffix p).subset member)

theorem not_mem_nextRest (nonzero : 0 ∉ text) : 0 ∉ nextRest text :=
  not_mem_dropWhile (not_mem_dropWhile nonzero)

theorem nextRest_begins (nonzero : 0 ∉ text) :
    ∀ c ∈ (nextRest text).head?, isdelim c = false := by
  intro c first
  have member := List.mem_of_mem_head? first
  rw [← isGap_eq fun zero => not_mem_nextRest nonzero (zero ▸ member)]
  have stops := List.head?_dropWhile_not isGap (text.dropWhile inWord)
  rw [nextRest] at first
  rw [Option.mem_def.mp first] at stops
  exact stops

theorem nextWord_eq (later : Argv ≠ []) (stands : buffer.drop cmd = text ++ 0 :: stale) :
    ∃ cmd', nextWord ⟨buffer, cmd, Argv⟩ = ⟨buffer, cmd', Argv ++ [cmd]⟩ ∧
      buffer.drop cmd' = nextRest text ++ 0 :: stale := by
  have ends : Argv.isEmpty = false := List.isEmpty_eq_false_iff.mpr later
  refine ⟨skip isGap buffer (skip inWord buffer cmd), ?_, ?_⟩
  · simp only [nextWord, ends, Bool.false_and, Bool.false_eq_true, if_false]
  · rw [drop_skip, drop_skip, stands, dropWhile_zero rfl, dropWhile_zero rfl, nextRest]

theorem charAt_of_stands (stands : buffer.drop cmd = c :: tail) : charAt buffer cmd = c := by
  rw [charAt, stands, List.headD_cons]

theorem scanWords_eq (left : Nat) (later : Argv ≠ []) (nonzero : 0 ∉ text)
    (begins : ∀ c ∈ text.head?, isdelim c = false)
    (stands : buffer.drop cmd = text ++ 0 :: stale) :
    ∃ cmd' more, scanWords left ⟨buffer, cmd, Argv⟩ = ⟨buffer, cmd', Argv ++ more⟩ ∧
      more.length = min left (words false text) ∧
        (words false text ≤ left → buffer.drop cmd' = 0 :: stale) := by
  induction left generalizing cmd Argv text with
  | zero =>
    refine ⟨cmd, [], by rw [List.append_nil]; rfl, (Nat.zero_min _).symm, ?_⟩
    intro few
    cases text with
    | nil => exact stands
    | cons c text =>
      rw [words_cons (begins c rfl)] at few
      omega
  | succ left ih =>
    cases text with
    | nil =>
      refine ⟨cmd, [], ?_, (Nat.min_zero _).symm, fun _ => stands⟩
      rw [scanWords, if_pos (charAt_of_stands stands), List.append_nil]
    | cons c text =>
      have inside := begins c rfl
      obtain ⟨cmd₁, turn, stands₁⟩ := nextWord_eq later stands
      obtain ⟨cmd', more, run, count, ends⟩ := ih (List.append_ne_nil_of_left_ne_nil later [cmd])
        (not_mem_nextRest nonzero) (nextRest_begins nonzero) stands₁
      refine ⟨cmd', cmd :: more, ?_, ?_, ?_⟩
      · rw [scanWords, charAt_of_stands stands, if_neg (nonzero_of_not_isdelim inside), turn, run,
          List.append_assoc]
        rfl
      · rw [List.length_cons, count, words_cons inside]
        omega
      · rw [words_cons inside]
        exact fun few => ends (by omega)

theorem place_of_stands {cmd' : Nat} {c' : UInt8}
    (here : buffer.drop cmd = front ++ c :: tail) (there : buffer.drop cmd' = c' :: tail) :
    cmd' = cmd + front.length := by
  have length := congrArg List.length here
  have length' := congrArg List.length there
  rw [List.length_drop, List.length_append, List.length_cons] at length
  rw [List.length_drop, List.length_cons] at length'
  omega

theorem drop_set_of_stands (value : UInt8) (stands : buffer.drop cmd = front ++ c :: tail) :
    (buffer.set (cmd + front.length) value).drop cmd = front ++ value :: tail := by
  rw [List.drop_set, if_neg (by omega), stands, Nat.add_sub_cancel_left,
    List.set_append_right _ _ (Nat.le_refl _), Nat.sub_self, List.set_cons_zero]

/-- The line from its first word on, with a zero for the delimiter behind it. -/
def cutName (text : List UInt8) : List UInt8 := (text.takeWhile inWord) ++
    match text.dropWhile inWord with
    | [] => []
    | _ :: rest => 0 :: rest

theorem firstWord_eq (nonzero : 0 ∉ text) (stands : buffer.drop cmd = text ++ 0 :: stale) :
    ∃ buffer' cmd', nextWord ⟨buffer, cmd, []⟩ = ⟨buffer', cmd', [cmd]⟩ ∧
      buffer'.drop cmd' = nextRest text ++ 0 :: stale ∧
        buffer'.drop cmd = cutName text ++ 0 :: stale := by
  have stop := drop_skip inWord buffer cmd
  have parts := List.takeWhile_append_dropWhile (p := inWord) (l := text)
  rw [stands, dropWhile_zero rfl] at stop
  unfold nextRest cutName
  cases behind : text.dropWhile inWord with
  | nil =>
    rw [behind] at stop parts
    refine ⟨buffer, skip isGap buffer (skip inWord buffer cmd), ?_, ?_, ?_⟩
    · simp [nextWord, charAt_of_stands stop]
    · rw [drop_skip, stop]
      rfl
    · rw [parts, stands]
  | cons d rest =>
    rw [behind] at stop parts
    have member : d ∈ text := parts ▸ List.mem_append_right _ List.mem_cons_self
    have other : d ≠ 0 := fun zero => nonzero (zero ▸ member)
    have gap : isGap d = true := by
      have stops := List.head?_dropWhile_not inWord text
      rw [behind] at stops
      rw [isGap_eq other]
      simpa [inWord] using stops
    rw [← parts, List.append_assoc, List.cons_append] at stands
    obtain ⟨p, passed⟩ : ∃ p, skip inWord buffer cmd = p := ⟨_, rfl⟩
    rw [passed] at stop
    have place := place_of_stands stands stop
    have next : buffer.drop (p + 1) = rest ++ 0 :: stale := by
      rw [← List.tail_drop, stop, List.cons_append, List.tail_cons]
    refine ⟨buffer.set p 0, skip isGap (buffer.set p 0) (p + 1), ?_, ?_, ?_⟩
    · simp [nextWord, passed, charAt_of_stands stop, other]
    · rw [drop_skip, List.drop_set_of_lt (Nat.lt_succ_self _), next, dropWhile_zero rfl,
        List.dropWhile_cons_of_pos gap]
    · rw [place, drop_set_of_stands 0 stands, List.append_assoc, List.cons_append]

theorem stepBack_of_stands (stands : buffer.drop cmd = 0 :: tail) :
    stepBack buffer cmd = .ok cmd := by
  have stop : ¬ isGap (charAt buffer cmd) = true := by
    rw [charAt_of_stands stands]
    exact Bool.false_ne_true
  cases cmd with
  | zero => rw [stepBack, if_neg stop]
  | succ cmd => rw [stepBack, if_neg stop]

/-- Without a word, a null pointer is compared with a command. -/
theorem not_returns_finish_of_nil (buffer : List UInt8) (cmd : Nat) :
    ¬ Returns (finish ⟨buffer, cmd, []⟩) := by
  rintro ⟨action, run⟩
  obtain ⟨cmd', -, run⟩ := bind_eq_ok_iff.mp run
  obtain ⟨buffer', -, run⟩ := bind_eq_ok_iff.mp run
  contradiction

theorem not_returns_finish_of_full {s : Scan} (full : MAXARGS ≤ s.Argv.length) :
    ¬ Returns (finish s) := by
  rintro ⟨action, run⟩
  obtain ⟨cmd', -, run⟩ := bind_eq_ok_iff.mp run
  obtain ⟨buffer', -, run⟩ := bind_eq_ok_iff.mp run
  rw [if_pos full] at run
  contradiction

/-- Otherwise the second zero stands behind the line. -/
theorem finish_eq {start : Nat} (room : Argv.length + 1 < MAXARGS) (left : stale ≠ [])
    (begins : buffer.drop start = front ++ 0 :: stale) (ends : buffer.drop cmd = 0 :: stale) :
    finish ⟨buffer, cmd, start :: Argv⟩ = .ok (dispatch
      ((front ++ 0 :: 0 :: stale.tail).takeWhile (· ≠ 0)) (front ++ 0 :: 0 :: stale.tail)
      (start :: Argv)) := by
  obtain ⟨c, tail, rfl⟩ := List.exists_cons_of_ne_nil left
  have place := place_of_stands begins ends
  have whole : buffer.drop start = (front ++ [0]) ++ c :: tail := by
    rw [begins, List.append_assoc]
    rfl
  have stored := drop_set_of_stands 0 whole
  rw [List.length_append, List.length_singleton, ← Nat.add_assoc, ← place] at stored
  have inside : cmd + 1 < buffer.length := by
    have length := congrArg List.length ends
    rw [List.length_drop, List.length_cons, List.length_cons] at length
    omega
  unfold finish
  dsimp only
  rw [stepBack_of_stands ends, bind_ok, endLine, if_pos inside, bind_ok,
    if_neg (Nat.not_le_of_lt (by rwa [List.length_cons]))]
  rw [stored, List.append_assoc]
  rfl

theorem takeWhile_cutName (text tail : List UInt8) :
    (cutName text ++ 0 :: tail).takeWhile (· ≠ 0) = text.takeWhile inWord := by
  have goes : ∀ c ∈ text.takeWhile inWord, decide (c ≠ 0) = true := by
    intro c member
    have inside := List.mem_takeWhile_imp member
    exact decide_eq_true (nonzero_of_not_isdelim (by simpa [inWord] using inside))
  unfold cutName
  split
  · rw [List.append_nil, takeWhile_append_stop goes (by rintro c ⟨⟩; rfl)]
  · rw [List.append_assoc, takeWhile_append_stop goes (by rintro c ⟨⟩; rfl)]

theorem not_returns_of_blank (filled : line.text ≠ []) (letter : ¬ IsDrive line.text)
    (blank : line.text.dropWhile isBlank = []) : ¬ Returns (parse_cmd line) := by
  have start : line.buffer.drop (skip isBlank line.buffer 0) = 0 :: line.stale := by
    rw [drop_skip, List.drop_zero, Line.buffer, dropWhile_zero rfl, blank, List.nil_append]
  rw [parse_cmd, if_neg filled, if_neg letter, MAXARGS, scanWords, if_pos (charAt_of_stands start)]
  exact not_returns_finish_of_nil _ _

theorem scanWords_line (first : line.text.dropWhile isBlank = c :: rest) :
    ∃ buffer start cmd more, scanWords MAXARGS ⟨line.buffer, skip isBlank line.buffer 0, []⟩ =
        ⟨buffer, cmd, start :: more⟩ ∧
      more.length = min 31 (words false (nextRest (c :: rest))) ∧
        buffer.drop start = cutName (c :: rest) ++ 0 :: line.stale ∧
          (words false (nextRest (c :: rest)) ≤ 31 → buffer.drop cmd = 0 :: line.stale) := by
  have nonzero : 0 ∉ c :: rest := first ▸ not_mem_dropWhile line.nonzero
  have start : line.buffer.drop (skip isBlank line.buffer 0) = c :: rest ++ 0 :: line.stale := by
    rw [drop_skip, List.drop_zero, Line.buffer, dropWhile_zero rfl, first]
  obtain ⟨buffer, cmd₁, turn, stands, front⟩ := firstWord_eq nonzero start
  obtain ⟨cmd, more, run, count, ends⟩ := scanWords_eq 31 (List.cons_ne_nil _ _)
    (not_mem_nextRest nonzero) (nextRest_begins nonzero) stands
  refine ⟨buffer, _, cmd, more, ?_, count, front, ends⟩
  have goes : c ≠ 0 := fun zero => nonzero (zero ▸ List.mem_cons_self)
  rw [MAXARGS, scanWords, charAt_of_stands start, if_neg goes, turn]
  exact run

theorem parse_cmd_of_first (filled : line.text ≠ []) (letter : ¬ IsDrive line.text)
    (first : line.text.dropWhile isBlank = c :: rest) :
    if words false (nextRest (c :: rest)) < 31 then ∃ Argv, parse_cmd line =
      .ok (dispatch ((c :: rest).takeWhile inWord)
        (cutName (c :: rest) ++ 0 :: 0 :: line.stale.tail) Argv)
    else ¬ Returns (parse_cmd line) := by
  obtain ⟨buffer, start, cmd, more, scanned, count, front, ends⟩ := scanWords_line first
  rw [parse_cmd, if_neg filled, if_neg letter, scanned]
  split
  next few =>
    have left : line.stale ≠ [] := by
      intro none
      have full := line.full
      have short := line.short
      rw [none, List.length_nil] at full
      omega
    refine ⟨start :: more, ?_⟩
    rw [finish_eq (by rw [count, MAXARGS]; omega) left front (ends (by omega)), takeWhile_cutName]
  next many =>
    refine not_returns_finish_of_full ?_
    rw [List.length_cons, count, MAXARGS]
    omega

theorem handled_of_ok {action : Action} (run : parse_cmd line = .ok action) :
    Handled line ↔ ((∀ c ∈ line.text, isdelim c = true) → action = .nothing) ∧
      ∀ block, action = .external block → argumentBlock line.text <+: block := by
  constructor
  · rintro ⟨action', run', holds⟩
    rw [run] at run'
    cases run'
    exact holds
  · exact fun holds => ⟨action, run, holds⟩

theorem dispatch_ne_nothing (name block : List UInt8) (Argv : List Nat) :
    dispatch name block Argv ≠ .nothing := by
  unfold dispatch
  split
  · rintro ⟨⟩
  · split <;> rintro ⟨⟩

theorem dispatch_eq_external_iff {name block block' : List UInt8} :
    dispatch name block Argv = .external block' ↔ name ∉ commands ∧ block = block' := by
  have known : name = exitName → name ∈ commands := by
    rintro rfl
    decide
  unfold dispatch
  split
  next leaves => exact iff_of_false (by rintro ⟨⟩) fun fits => fits.1 (known leaves)
  next =>
    split
    next listed => exact iff_of_false (by rintro ⟨⟩) fun fits => fits.1 listed
    next unlisted => rw [Action.external.injEq, and_iff_right unlisted]

theorem beginsWord_iff (first : text.dropWhile isBlank = c :: rest) :
    BeginsWord text ↔ isdelim c = false := by
  rw [BeginsWord, first]
  simp

theorem dropWhile_isdelim (first : text.dropWhile isBlank = c :: rest)
    (inside : isdelim c = false) : text.dropWhile isdelim = c :: rest := by
  have parts := List.takeWhile_append_dropWhile (p := isBlank) (l := text)
  rw [← parts, first]
  refine dropWhile_append_stop (fun d member => isdelim_of_isBlank d ?_) ?_
  · exact List.mem_takeWhile_imp member
  · rintro d ⟨⟩
    exact inside

theorem block_fits_iff (text stale : List UInt8) :
    argumentBlock text <+: cutName (text.dropWhile isdelim) ++ 0 :: 0 :: stale.tail ↔
      behindName text ≠ [] ∨ stale[1]? = some 0 := by
  unfold argumentBlock cutName programName behindName
  cases (text.dropWhile isdelim).dropWhile inWord with
  | nil =>
    cases stale with
    | nil => simp
    | cons e stale => cases stale <;> simp [eq_comm]
  | cons d rest =>
    refine iff_of_true ⟨stale.tail, ?_⟩ (.inl (List.cons_ne_nil d rest))
    simp

theorem not_block_of_zero {block : List UInt8} (word : ∃ c ∈ text, isdelim c = false) :
    ¬ argumentBlock text <+: 0 :: block := by
  obtain ⟨d, rest, first⟩ : ∃ d rest, text.dropWhile isdelim = d :: rest := by
    refine List.exists_cons_of_ne_nil ?_
    rw [ne_eq, List.dropWhile_eq_nil_iff]
    intro delims
    obtain ⟨c, member, inside⟩ := word
    rw [delims c member] at inside
    contradiction
  have inside := List.head?_dropWhile_not isdelim text
  rw [first] at inside
  rw [argumentBlock, programName, first, List.takeWhile_cons_of_pos (by rw [inWord, inside]; rfl),
    List.cons_append, List.cons_append, List.cons_prefix_cons]
  exact fun begins => nonzero_of_not_isdelim inside begins.1

theorem not_handled_of_comma (filled : line.text ≠ []) (letter : ¬ IsDrive line.text)
    (first : line.text.dropWhile isBlank = c :: rest) (delim : isdelim c = true) :
    ¬ Handled line := by
  rintro ⟨action, result, idle, blocks⟩
  have run := parse_cmd_of_first filled letter first
  split at run
  next few =>
    have unnamed : ((c :: rest).takeWhile inWord) = [] :=
      List.takeWhile_cons_of_neg (by rw [inWord, delim]; decide)
    have cut : cutName (c :: rest) = 0 :: rest := by
      rw [cutName, unnamed, List.dropWhile_cons_of_neg (by rw [inWord, delim]; decide)]
      rfl
    rw [unnamed, cut] at run
    obtain ⟨Argv, run⟩ := run
    cases run.symm.trans result
    by_cases word : ∃ c ∈ line.text, isdelim c = false
    · exact not_block_of_zero word (blocks _ (dispatch_eq_external_iff.mpr ⟨by decide, rfl⟩))
    · refine dispatch_ne_nothing _ _ _ (idle fun c member => ?_)
      exact Bool.of_not_eq_false fun inside => word ⟨c, member, inside⟩
  next => exact run ⟨action, result⟩

theorem handled_iff_of_inside (filled : line.text ≠ []) (letter : ¬ IsDrive line.text)
    (first : line.text.dropWhile isBlank = c :: rest) (inside : isdelim c = false) :
    Handled line ↔ words false line.text < MAXARGS ∧
      (programName line.text ∈ commands ∨ behindName line.text ≠ [] ∨
        line.stale[1]? = some 0) := by
  have run := parse_cmd_of_first filled letter first
  have count : words false line.text = 1 + words false (nextRest (c :: rest)) := by
    rw [← words_dropWhile isdelim_of_isBlank, first, words_cons inside]
  have start := dropWhile_isdelim first inside
  rw [count, MAXARGS]
  split at run
  next few =>
    obtain ⟨Argv, run⟩ := run
    have fits := block_fits_iff line.text line.stale
    have name : programName line.text = (c :: rest).takeWhile inWord := by
      rw [programName, start]
    have word : ¬ ∀ c ∈ line.text, isdelim c = true := by
      intro delims
      have member : c ∈ line.text :=
        (List.dropWhile_suffix isBlank).subset (first ▸ List.mem_cons_self)
      rw [delims c member] at inside
      contradiction
    rw [start] at fits
    rw [handled_of_ok run, name, ← fits, and_iff_right (show 1 + _ < 32 by omega)]
    constructor
    · rintro ⟨-, blocks⟩
      by_cases listed : ((c :: rest).takeWhile inWord) ∈ commands
      · exact .inl listed
      · exact .inr (blocks _ (dispatch_eq_external_iff.mpr ⟨listed, rfl⟩))
    · intro known
      refine ⟨fun delims => absurd delims word, fun block starts => ?_⟩
      obtain ⟨unlisted, rfl⟩ := dispatch_eq_external_iff.mp starts
      exact known.resolve_left unlisted
  next many =>
    refine iff_of_false ?_ fun well => many (by omega)
    rintro ⟨action, result, -⟩
    exact run ⟨action, result⟩

/-- A line is handled exactly when it is well formed. -/
theorem handled_iff (line : Line) : Handled line ↔ WellFormed line := by
  unfold WellFormed
  by_cases empty : line.text = []
  · have run : parse_cmd line = .ok .nothing := by rw [parse_cmd, if_pos empty]
    rw [handled_of_ok run]
    exact iff_of_true ⟨fun _ => rfl, by rintro block ⟨⟩⟩ (.inl empty)
  by_cases letter : IsDrive line.text
  · have run : parse_cmd line = .ok (.disk (line.text.headD 0)) := by
      rw [parse_cmd, if_neg empty, if_pos letter]
    rw [handled_of_ok run]
    refine iff_of_true ⟨?_, by rintro block ⟨⟩⟩ (.inr (.inl letter))
    intro delims
    have colon := delims 58 (List.mem_of_getElem? letter.2)
    contradiction
  simp only [empty, letter, false_or]
  cases first : line.text.dropWhile isBlank with
  | nil =>
    refine iff_of_false ?_ ?_
    · rintro ⟨action, run, -⟩
      exact not_returns_of_blank empty letter first ⟨action, run⟩
    · rintro ⟨⟨c, head, -⟩, -⟩
      rw [first] at head
      contradiction
  | cons c rest =>
    rw [beginsWord_iff first]
    cases inside : isdelim c with
    | true =>
      exact iff_of_false (not_handled_of_comma empty letter first inside)
        fun well => absurd well.1 (by decide)
    | false =>
      rw [handled_iff_of_inside empty letter first inside]
      exact (and_iff_right rfl).symm

/-- A line of one blank. -/
def blankLine : Line where
  text := [32]
  stale := List.replicate 0x7ffe 0
  nonzero := by decide
  short := by decide
  full := by rw [List.length_replicate]; rfl

/-- A line of one blank has the interpreter read through a null pointer. -/
theorem not_handled_blankLine : ¬ ∀ line, Handled line := by
  intro handled
  obtain ⟨action, run, -⟩ := handled blankLine
  exact not_returns_of_blank (List.cons_ne_nil _ _) (by decide) rfl ⟨action, run⟩

end OsFree.Minicmd
