import Mathlib.Tactic.Simps.Basic
import OsFree.Doscalls.InsertMessage

/-!
# The message with its inserts

A message is read as pieces: bytes that stand for themselves, and escapes.  The
loop writes the pieces one after the other, but takes a message to be one byte
longer for each number in it.
-/

namespace OsFree.Doscalls

open Machine

/-- A piece of a message. -/
inductive Piece where
  | plain (byte : UInt8)
  | percent
  | dropped
  | insert (k : Nat)
  deriving DecidableEq

/-- What a piece stands for. -/
def Piece.text (table : List (List UInt8)) : Piece → List UInt8
  | .plain byte => [byte]
  | .percent => [Doscalls.percent]
  | .dropped => []
  | .insert k => table.getD k []

/-- What pieces stand for. -/
def textOf (table : List (List UInt8)) (pieces : List Piece) : List UInt8 :=
  pieces.flatMap fun piece => piece.text table

/-- The piece that is escaped, with a table of some strings. -/
def pieceOf (count : Nat) (digit : UInt8) : Option Piece :=
  if digit = percent then some .percent
  else if digit = zeroDigit then some .dropped
  else if IsInsertDigit digit ∧ digit.toNat - 49 < count then
    some (.insert (digit.toNat - 49))
  else none

/-- The pieces of a message, and what is left at an escape that stands for
nothing. -/
def pieces (count : Nat) : List UInt8 → List Piece × List UInt8
  | [] => ([], [])
  | byte :: rest =>
    if byte = percent then
      match rest with
      | [] => ([], [byte])
      | digit :: rest =>
        match pieceOf count digit with
        | some piece =>
          (piece :: (pieces count rest).1, (pieces count rest).2)
        | none => ([], byte :: digit :: rest)
    else (.plain byte :: (pieces count rest).1, (pieces count rest).2)

/-- The message with the strings of the table, if all its escapes stand for
something. -/
def message (table : List (List UInt8)) (text : List UInt8) :
    Option (List UInt8) :=
  if (pieces table.length text).2 = [] then
    some (textOf table (pieces table.length text).1)
  else none

/-- The number of escapes. -/
def escapes : List UInt8 → Nat
  | [] => 0
  | byte :: rest =>
    if byte = percent then
      match rest with
      | [] => 1
      | _ :: rest => 1 + escapes rest
    else escapes rest

/-- A call with a message, a table and a buffer.  The buffer is in one address
space with the message and a place for a string, and with each string. -/
structure InsertCall where
  table : List (List UInt8)
  text : List UInt8
  buffer : List UInt8
  /-- What happens to be in a variable. -/
  logged : Int
  nonzero : ∀ string ∈ table, 0 ∉ string
  text_le : text.length + buffer.length + 4 ≤ 4294967296
  string_le : ∀ string ∈ table, string.length + buffer.length + 1 ≤ 4294967296
  table_le : 4 * table.length ≤ 4294967296

namespace InsertCall

variable (call : InsertCall) (behind : List UInt8)

/-- The arguments, where some bytes behind the message may be read, too. -/
@[simps] def args : InsertArgs where
  pTable := some call.table
  cTable := UInt32.ofNat call.table.length
  pszMsg := some (call.text ++ behind)
  cbMsg := UInt32.ofNat call.text.length
  pBuf := some call.buffer
  cbBuf := UInt32.ofNat call.buffer.length

def run : Run Inserted := DosInsertMessage (call.args behind) call.logged

/-- The message and a terminator fit in the buffer. -/
def Fits (full : List UInt8) : Prop := full.length + 1 ≤ call.buffer.length

instance (full : List UInt8) : Decidable (call.Fits full) := inferInstanceAs (Decidable (_ ≤ _))

/-- The result is right: the message and its length if it fits, the error if it
does not, and some error if an escape stands for nothing. -/
def Right (result : Inserted) : Prop :=
  match message call.table call.text with
  | some full =>
    if call.Fits full then
      result.rc = NO_ERROR ∧ Contains result.pBuf 0 (full ++ [0]) ∧
        result.pcbMsg = some (UInt32.ofNat (full.length + 1))
    else result.rc = ERROR_MR_MSG_TOO_LONG
  | none => result.rc ≠ NO_ERROR

/-- The call returns with the right result. -/
def MeetsBefore : Prop := ∃ result, call.run behind = .ok result ∧ call.Right result

/-- The call returns with the right result, though nothing behind the message
may be read. -/
def Meets : Prop := call.MeetsBefore []

/-- The length that the code takes the message to have at most: that of the text
and of the strings, each without one byte. -/
def maxlen : Int := maxlenOf call.table (UInt32.ofNat call.text.length)
    (UInt32.ofNat call.buffer.length)

/-- The number of bytes that can be written and counted. -/
def room : Nat := min call.buffer.length 2147483647

def pieces : List Piece := (Doscalls.pieces call.table.length call.text).1

/-- What is left at an escape that stands for nothing. -/
def left : List UInt8 := (Doscalls.pieces call.table.length call.text).2

/-- The length of pieces, with each string cut to the size of the buffer. -/
def shownLength (shown : List Piece) : Nat :=
  (textOf (call.table.map (·.take call.buffer.length)) shown).length

end InsertCall

/-- The piece is a string of the table. -/
def Piece.IsInsert : Piece → Prop
  | .insert _ => True
  | _ => False

instance : DecidablePred Piece.IsInsert
  | .insert _ => .isTrue trivial
  | .plain _ => .isFalse id
  | .percent => .isFalse id
  | .dropped => .isFalse id

namespace InsertCall

variable (call : InsertCall) (behind : List UInt8)

/-- The text shown so far is found too long, before it leaves the buffer and
while the message is not thought to be complete. -/
structure Overrun (shown : List Piece) : Prop where
  nonempty : shown ≠ []
  start : shown <+: call.pieces
  long : call.maxlen < call.shownLength shown
  fits : call.shownLength shown ≤ call.room
  more : shown = call.pieces → call.left = [] → ∃ piece ∈ shown, piece.IsInsert

/-- An escape is no number.  At the end of the message it is one with the byte
behind, if the rest is thought to be longer. -/
def WrongEscape (longer : Prop) : List UInt8 → Prop
  | _ :: digit :: _ => ¬ IsInsertDigit digit
  | _ => behind ≠ [] ∧ longer

/-- What is left is an escape that is no number. -/
def Unperformable : Prop := WrongEscape behind (∃ piece ∈ call.pieces, piece.IsInsert) call.left

/-- The condition, where the table and the text are looked at. -/
def LoopAllowed : Prop :=
  match message call.table call.text with
  | some full =>
    if call.Fits full then
      (∀ piece ∈ call.pieces, ¬ piece.IsInsert) ∧ call.pieces ≠ [] ∧ ¬ ∃ shown, call.Overrun shown
    else ∃ shown, call.Overrun shown
  | none =>
    (∃ shown, call.Overrun shown) ∨
      call.shownLength call.pieces ≤ call.room ∧ call.Unperformable behind

/-- The condition under which the result is right. -/
def AllowedBefore : Prop := Inside (call.text ++ behind) call.logged 1 ∧
    if call.buffer.length < call.text.length then
      ∀ full, message call.table call.text = some full → ¬ call.Fits full
    else call.table ≠ [] ∧ call.LoopAllowed behind

/-- The condition, where nothing behind the message may be read. -/
def Allowed : Prop := call.AllowedBefore []

end InsertCall

/-- What a piece takes off the rest of the message too little. -/
def Piece.extra : Piece → Nat
  | .insert _ => 1
  | _ => 0

/-- The number of escapes of a piece. -/
def Piece.escape : Piece → Nat
  | .plain _ => 0
  | _ => 1

/-- What pieces take off the rest of the message too little. -/
def extraOf (pieces : List Piece) : Nat := (pieces.map Piece.extra).sum

/-- The number of escapes of pieces. -/
def escapesOf (pieces : List Piece) : Nat := (pieces.map Piece.escape).sum

/-- The loop, as it goes over pieces and goes on behind them. -/
def piecesRun (table : List (List UInt8)) (cbBuf : UInt32) (maxlen : Int)
    (left : List UInt8) (onward : Nat → List UInt8 × Nat → Run Inserted) :
    List Piece → Nat → List UInt8 × Nat → Run Inserted
  | [], extra, placed => onward extra placed
  | piece :: rest, extra, placed => do
      let placed ← putPart placed.1 placed.2 (piece.text table)
      if rest = [] ∧ left = [] ∧ extra + piece.extra = 0 then finish placed
      else if maxlen < placed.2 then tooLong placed.1 cbBuf
      else
        piecesRun table cbBuf maxlen left onward rest (extra + piece.extra) placed

/-- What was written is inside the buffer, and counted. -/
def Held (placed : List UInt8 × Nat) : Prop := placed.2 ≤ placed.1.length ∧ placed.2 < 2147483648

section

variable {table : List (List UInt8)} {cbBuf : UInt32} {maxlen : Int}
variable {count : Nat} {rest left behind bytes : List UInt8}
variable {onward : Nat → List UInt8 × Nat → Run Inserted}
variable {placed placed' : List UInt8 × Nat}

variable {digit : UInt8} {piece : Piece}

theorem pieces_percent (found : pieceOf count digit = some piece) :
    pieces count (percent :: digit :: rest) =
      (piece :: (pieces count rest).1, (pieces count rest).2) := by
  simp [pieces, found]

theorem pieces_broken (none : pieceOf count digit = none) :
    pieces count (percent :: digit :: rest) = ([], percent :: digit :: rest) := by
  simp [pieces, none]

theorem pieces_plain {byte : UInt8} (plain : byte ≠ percent) : pieces count (byte :: rest) =
      (.plain byte :: (pieces count rest).1, (pieces count rest).2) := by
  rw [pieces.eq_def]
  simp only [if_neg plain]

theorem putPart_eq_ok_iff {pBuf : List UInt8} {dstlen : Nat} :
    putPart pBuf dstlen bytes = .ok placed' ↔ dstlen + bytes.length ≤ pBuf.length ∧
        dstlen + bytes.length < 2147483648 ∧
        placed' = (putBytes pBuf dstlen bytes, dstlen + bytes.length) := by
  unfold putPart
  simp only [bind_eq_ok_iff, writeBytes_eq_ok_iff]
  constructor
  · rintro ⟨_, ⟨inside, rfl⟩, counted⟩
    split at counted
    · rename_i small
      cases counted
      exact ⟨inside, small, rfl⟩
    · cases counted
  · rintro ⟨inside, small, rfl⟩
    exact ⟨_, ⟨inside, rfl⟩, if_pos small⟩

theorem Held.putPart_nil (held : Held placed) :
    putPart placed.1 placed.2 [] = .ok placed := by
  apply putPart_eq_ok_iff.mpr
  exact ⟨held.1, held.2, by simp [putBytes]⟩

theorem Held.put (put : putPart placed.1 placed.2 bytes = .ok placed') :
    Held placed' := by
  obtain ⟨inside, small, rfl⟩ := putPart_eq_ok_iff.mp put
  refine ⟨?_, small⟩
  rw [putBytes_length inside]
  exact inside

theorem pieces_eq_nil_iff (count : Nat) (text : List UInt8) :
    (pieces count text).1 = [] ∧ (pieces count text).2 = [] ↔ text = [] := by
  induction text using pieces.induct count with
  | case1 => simp [pieces]
  | case2 => simp [pieces]
  | case3 digit rest piece found _ => simp [pieces_percent found]
  | case4 digit rest none => simp [pieces_broken none]
  | case5 byte rest plain _ => simp [pieces_plain plain]

/-- The table with each string cut to the size of the buffer. -/
def cutTable (table : List (List UInt8)) (size : Nat) : List (List UInt8) := table.map (·.take size)

theorem take_strnlen (string : List UInt8) :
    string.take (strnlen string cbBuf) = string.take cbBuf.toNat := by
  unfold strnlen
  rw [← List.take_take, List.take_of_length_le]
  exact List.length_take_le' ..

theorem tableAt_of_lt (cbBuf : UInt32) (within : digit.toNat - 49 < table.length) :
    ∃ string, tableAt table digit = .ok string ∧ string.take (strnlen string cbBuf) =
        (Piece.insert (digit.toNat - 49)).text
          (cutTable table cbBuf.toNat) := by
  refine ⟨table[digit.toNat - 49], ?_, ?_⟩
  · unfold tableAt
    rw [List.getElem?_eq_getElem within]
  · rw [take_strnlen]
    simp [Piece.text, cutTable, List.getD_eq_getElem?_getD, within]

theorem afterPart_eq {srclen : Int} {next : Run Inserted} {extra : Nat}
    {more : List Piece} (counted : srclen = rest.length + extra)
    (ends : more = [] ∧ left = [] ↔ rest = []) :
    afterPart cbBuf maxlen srclen placed next =
      if more = [] ∧ left = [] ∧ extra = 0 then finish placed
      else if maxlen < placed.2 then tooLong placed.1 cbBuf
      else next := by
  have last : srclen ≤ 0 ↔ more = [] ∧ left = [] ∧ extra = 0 := by
    rw [← and_assoc, ends, ← List.length_eq_zero_iff]
    omega
  unfold afterPart
  simp only [last]

theorem escapes_percent (digit : UInt8) (rest : List UInt8) :
    escapes (percent :: digit :: rest) = 1 + escapes rest := by
  simp [escapes]

theorem escapes_plain {byte : UInt8} (plain : byte ≠ percent) :
    escapes (byte :: rest) = escapes rest := by
  rw [escapes.eq_def]
  simp only [if_neg plain]

theorem escape_of_pieceOf (found : pieceOf count digit = some piece) : piece.escape = 1 := by
  unfold pieceOf at found
  split at found
  · cases found
    rfl
  · split at found
    · cases found
      rfl
    · split at found
      · cases found
        rfl
      · cases found

theorem escapes_eq (count : Nat) (text : List UInt8) : escapes text =
      escapesOf (pieces count text).1 + escapes (pieces count text).2 := by
  induction text using pieces.induct count with
  | case1 => rfl
  | case2 => simp [pieces, escapesOf]
  | case3 digit rest piece found ih =>
    rw [pieces_percent found, escapes_percent, ih]
    simp only [escapesOf, List.map_cons, List.sum_cons, escape_of_pieceOf found, Nat.add_assoc]
  | case4 digit rest none =>
    rw [pieces_broken none]
    exact (Nat.zero_add _).symm
  | case5 byte rest plain ih =>
    rw [pieces_plain plain, escapes_plain plain, ih]
    simp only [escapesOf, List.map_cons, List.sum_cons, Piece.escape, Nat.zero_add]

theorem putPart_bind_congr {next next' : List UInt8 × Nat → Run Inserted}
    (same : ∀ placed, Held placed → next placed = next' placed) :
    (putPart placed.1 placed.2 bytes >>= next) =
      putPart placed.1 placed.2 bytes >>= next' := by
  cases put : putPart placed.1 placed.2 bytes with
  | error fault => rfl
  | ok placed' => exact same placed' (Held.put put)

theorem pass_eq {srclen : Int} {ivcount extra : Nat}
    (counted : srclen = rest.length + (extra + piece.extra : Nat))
    (next : ∀ placed, Held placed →
      insertLoop table cbBuf maxlen (rest ++ behind) srclen ivcount placed =
        piecesRun (cutTable table cbBuf.toNat) cbBuf maxlen
          (pieces table.length rest).2 onward (pieces table.length rest).1
          (extra + piece.extra) placed) :
    (putPart placed.1 placed.2 (piece.text (cutTable table cbBuf.toNat)) >>=
        fun placed => afterPart cbBuf maxlen srclen placed
          (insertLoop table cbBuf maxlen (rest ++ behind) srclen ivcount placed)) =
      piecesRun (cutTable table cbBuf.toNat) cbBuf maxlen (pieces table.length rest).2 onward
        (piece :: (pieces table.length rest).1) extra placed := by
  apply putPart_bind_congr
  intro placed' held
  rw [afterPart_eq counted (pieces_eq_nil_iff table.length rest),
    next placed' held]

/-- The loop behind the pieces of a message. -/
def onwardLoop (table : List (List UInt8)) (cbBuf : UInt32) (maxlen : Int)
    (text behind : List UInt8) (ivcount extra : Nat)
    (placed : List UInt8 × Nat) : Run Inserted :=
  insertLoop table cbBuf maxlen ((pieces table.length text).2 ++ behind)
    ((pieces table.length text).2.length + extra)
    (ivcount + escapesOf (pieces table.length text).1) placed

theorem insertLoop_eq (text : List UInt8) (srclen : Int) (ivcount extra : Nat)
    (placed : List UInt8 × Nat) (counted : srclen = text.length + extra)
    (few : ivcount + escapes text ≤ 9) (held : Held placed) :
    insertLoop table cbBuf maxlen (text ++ behind) srclen ivcount placed =
      piecesRun (cutTable table cbBuf.toNat) cbBuf maxlen (pieces table.length text).2
        (onwardLoop table cbBuf maxlen text behind ivcount)
        (pieces table.length text).1 extra placed := by
  induction text using pieces.induct table.length generalizing srclen ivcount extra placed with
  | case1 =>
    rw [counted]
    rfl
  | case2 =>
    have alone : pieces table.length [percent] = ([], [percent]) := by
      simp [pieces]
    simp only [counted, alone, piecesRun, onwardLoop, escapesOf,
      List.map_nil, List.sum_nil, Nat.add_zero]
  | case3 digit rest piece found ih =>
    rw [escapes_percent] at few
    have notMany : ¬ 9 < ivcount + 1 := by omega
    simp only [List.length_cons] at counted
    have pass : ∀ srclen' : Int, srclen' = rest.length + (extra + piece.extra : Nat) →
        (putPart placed.1 placed.2 (piece.text (cutTable table cbBuf.toNat)) >>=
            fun placed => afterPart cbBuf maxlen srclen' placed
              (insertLoop table cbBuf maxlen (rest ++ behind) srclen' (ivcount + 1) placed)) =
          piecesRun (cutTable table cbBuf.toNat) cbBuf maxlen (pieces table.length rest).2
            (onwardLoop table cbBuf maxlen rest behind (ivcount + 1))
            (piece :: (pieces table.length rest).1) extra placed := by
      intro srclen' counted'
      apply pass_eq counted'
      intro placed' held'
      exact ih _ _ _ _ counted' (by omega) held'
    have onward : onwardLoop table cbBuf maxlen (percent :: digit :: rest) behind ivcount =
        onwardLoop table cbBuf maxlen rest behind (ivcount + 1) := by
      funext extra placed
      unfold onwardLoop
      rw [pieces_percent found]
      simp only [escapesOf, List.map_cons, List.sum_cons, escape_of_pieceOf found, Nat.add_assoc]
    rw [onward, List.cons_append, List.cons_append, insertLoop, pieces_percent found]
    simp only [if_neg notMany, if_true]
    unfold pieceOf at found
    by_cases isPercent : digit = percent
    · rw [if_pos isPercent] at found ⊢
      cases found
      rw [← pass (srclen - 2) (by simp only [Piece.extra]; omega), isPercent]
      rfl
    rw [if_neg isPercent] at found ⊢
    by_cases isZero : digit = zeroDigit
    · rw [if_pos isZero] at found ⊢
      cases found
      rw [← pass (srclen - 2) (by simp only [Piece.extra]; omega)]
      change _ = putPart placed.1 placed.2 [] >>= _
      rw [held.putPart_nil]
      rfl
    rw [if_neg isZero] at found ⊢
    by_cases insert : IsInsertDigit digit ∧ digit.toNat - 49 < table.length
    · rw [if_pos insert] at found
      cases found
      obtain ⟨string, looked, cut⟩ := tableAt_of_lt cbBuf insert.2
      rw [if_pos insert.1, looked, bind_ok, cut]
      exact pass (srclen - 1) (by simp only [Piece.extra]; omega)
    · rw [if_neg insert] at found
      cases found
  | case4 digit rest none =>
    simp only [counted, pieces_broken none, piecesRun, onwardLoop, escapesOf,
      List.map_nil, List.sum_nil, Nat.add_zero]
  | case5 byte rest plain ih =>
    rw [escapes_plain plain] at few
    rw [List.length_cons] at counted
    have counted' : srclen - 1 = rest.length + (extra + (Piece.plain byte).extra : Nat) := by
      simp only [Piece.extra]
      omega
    have onward : onwardLoop table cbBuf maxlen (byte :: rest) behind
        ivcount = onwardLoop table cbBuf maxlen rest behind ivcount := by
      funext extra placed
      unfold onwardLoop
      rw [pieces_plain plain]
      simp only [escapesOf, List.map_cons, List.sum_cons, Piece.escape, Nat.zero_add]
    rw [onward, List.cons_append, insertLoop.eq_def]
    simp only [if_neg plain]
    rw [pieces_plain plain]
    apply pass_eq counted'
    intro placed' held'
    exact ih _ _ _ _ counted' few held'

end

end OsFree.Doscalls
