import OsFree.Doscalls.InsertPieces

/-!
# When a message is inserted as it should be

The loop over pieces ends in one of three ways: at the end of the message, at
the first pieces that are found too long, or at an escape that stands for
nothing.
-/

namespace OsFree.Doscalls

open Machine

section

variable {table : List (List UInt8)} {cbBuf : UInt32} {maxlen : Int}
variable {left : List UInt8} {rest : List Piece} {extra : Nat}
variable {onward : Nat → List UInt8 × Nat → Run Inserted}
variable {placed : List UInt8 × Nat} {piece : Piece}

@[simp] theorem textOf_nil : textOf table [] = [] := rfl

@[simp] theorem textOf_cons :
    textOf table (piece :: rest) = piece.text table ++ textOf table rest := rfl

theorem extra_eq_zero_iff : piece.extra = 0 ↔ ¬ piece.IsInsert := by
  cases piece with
  | insert k => simp [Piece.extra, Piece.IsInsert]
  | plain byte => simp [Piece.extra, Piece.IsInsert]
  | percent => simp [Piece.extra, Piece.IsInsert]
  | dropped => simp [Piece.extra, Piece.IsInsert]

theorem putBytes_append {buffer first second : List UInt8} {offset : Nat}
    (fits : offset + first.length ≤ buffer.length) :
    putBytes (putBytes buffer offset first) (offset + first.length) second =
      putBytes buffer offset (first ++ second) := by
  have length : (buffer.take offset ++ first).length =
      offset + first.length := by
    rw [List.length_append, List.length_take, Nat.min_eq_left (Nat.le_of_add_right_le fits)]
  have taken : (putBytes buffer offset first).take (offset + first.length) =
      buffer.take offset ++ first := by
    unfold putBytes
    rw [← length, List.take_left]
  have dropped : (putBytes buffer offset first).drop (offset + first.length + second.length) =
      buffer.drop (offset + (first ++ second).length) := by
    unfold putBytes
    rw [← length, List.drop_length_add_append, List.drop_drop, length,
      List.length_append, Nat.add_assoc]
  rw [putBytes, taken, dropped, List.append_assoc (buffer.take offset)]
  rfl

/-! ## At pieces that are found too long -/

/-- The loop finds pieces too long that it has shown. -/
structure Overruns (table : List (List UInt8)) (maxlen : Int) (room : Nat)
    (left : List UInt8) (pieces : List Piece) (extra dstlen : Nat)
    (shown : List Piece) : Prop where
  nonempty : shown ≠ []
  start : shown <+: pieces
  long : maxlen < (dstlen + (textOf table shown).length : Nat)
  fits : dstlen + (textOf table shown).length ≤ room
  more : shown = pieces → left = [] → 0 < extra ∨ ∃ piece ∈ shown, piece.IsInsert

theorem exists_overruns_cons {room dstlen : Nat} :
    (∃ shown, Overruns table maxlen room left (piece :: rest) extra dstlen shown) ↔
      dstlen + (piece.text table).length ≤ room ∧
        ¬ (rest = [] ∧ left = [] ∧ extra + piece.extra = 0) ∧
        (maxlen < (dstlen + (piece.text table).length : Nat) ∨
          ∃ shown, Overruns table maxlen room left rest (extra + piece.extra)
            (dstlen + (piece.text table).length) shown) := by
  constructor
  · rintro ⟨shown, nonempty, start, long, fits, more⟩
    rcases List.prefix_cons_iff.mp start with rfl | ⟨behind, rfl, starts⟩
    · exact absurd rfl nonempty
    rw [textOf_cons, List.length_append, ← Nat.add_assoc] at long fits
    have notLast : ¬ (rest = [] ∧ left = [] ∧ extra + piece.extra = 0) := by
      rintro ⟨rfl, empty, none⟩
      obtain ⟨rfl, plain⟩ := Nat.add_eq_zero_iff.mp none
      rw [List.prefix_nil.mp starts] at more
      rcases more rfl empty with some | ⟨other, member, insert⟩
      · exact absurd some (Nat.lt_irrefl 0)
      · rw [List.mem_singleton.mp member] at insert
        exact extra_eq_zero_iff.mp plain insert
    refine ⟨Nat.le_trans (Nat.le_add_right ..) fits, notLast, ?_⟩
    by_cases empty : behind = []
    · left
      rw [empty] at long
      exact long
    · right
      refine ⟨behind, empty, starts, long, fits, ?_⟩
      rintro rfl none
      rcases more rfl none with some | ⟨other, member, insert⟩
      · exact .inl (Nat.lt_of_lt_of_le some (Nat.le_add_right ..))
      · rcases List.mem_cons.mp member with rfl | later
        · left
          apply Nat.lt_of_lt_of_le _ (Nat.le_add_left ..)
          exact Nat.pos_of_ne_zero fun zero =>
            extra_eq_zero_iff.mp zero insert
        · exact .inr ⟨other, later, insert⟩
  · rintro ⟨fits, notLast, long | ⟨behind, nonempty, starts, long, fits', more⟩⟩
    · refine ⟨[piece], List.cons_ne_nil _ _,
        List.prefix_cons_iff.mpr (.inr ⟨[], rfl, List.nil_prefix⟩), ?_, ?_, ?_⟩
      · rw [textOf_cons, textOf_nil, List.append_nil]
        exact long
      · rw [textOf_cons, textOf_nil, List.append_nil]
        exact fits
      · intro same empty
        by_cases none : extra = 0
        · right
          refine ⟨piece, List.mem_singleton_self _, ?_⟩
          by_contra plain
          apply notLast
          exact ⟨(List.cons.inj same).2.symm, empty,
            Nat.add_eq_zero_iff.mpr ⟨none, extra_eq_zero_iff.mpr plain⟩⟩
        · exact .inl (Nat.pos_of_ne_zero none)
    · refine ⟨piece :: behind, List.cons_ne_nil _ _,
        List.prefix_cons_iff.mpr (.inr ⟨behind, rfl, starts⟩), ?_, ?_, ?_⟩
      · rw [textOf_cons, List.length_append, ← Nat.add_assoc]
        exact long
      · rw [textOf_cons, List.length_append, ← Nat.add_assoc]
        exact fits'
      · intro same empty
        rcases more (List.cons.inj same).2 empty with some | ⟨other, member, insert⟩
        · rcases Nat.add_pos_iff_pos_or_pos.mp some with before | here
          · exact .inl before
          · right
            refine ⟨piece, List.mem_cons_self, ?_⟩
            by_contra plain
            rw [extra_eq_zero_iff.mpr plain] at here
            exact Nat.lt_irrefl 0 here
        · exact .inr ⟨other, List.mem_cons_of_mem piece member, insert⟩

theorem tooLong_returns {pBuf : List UInt8} (size : pBuf.length = cbBuf.toNat)
    (positive : 0 < pBuf.length) :
    ∃ result, tooLong pBuf cbBuf = .ok result ∧
      result.rc = ERROR_MR_MSG_TOO_LONG := by
  have written : writeBytes pBuf (cbBuf.toNat - 1) [0] = .ok _ :=
    writeBytes_eq_ok_iff.mpr ⟨by rw [List.length_singleton]; omega, rfl⟩
  unfold tooLong
  rw [written]
  exact ⟨_, rfl, rfl⟩

/-- The number of bytes that can be written and counted. -/
def roomOf (pBuf : List UInt8) : Nat := min pBuf.length 2147483647

theorem putPart_of_room {pBuf bytes : List UInt8} {dstlen : Nat} :
    (∃ placed, putPart pBuf dstlen bytes = .ok placed) ↔
      dstlen + bytes.length ≤ roomOf pBuf := by
  simp only [putPart_eq_ok_iff]
  unfold roomOf
  constructor
  · rintro ⟨_, inside, small, -⟩
    omega
  · intro room
    exact ⟨_, by omega, by omega, rfl⟩

theorem piecesRun_of_overruns {pieces : List Piece}
    (size : placed.1.length = cbBuf.toNat) (positive : 0 < placed.1.length)
    (overruns : ∃ shown, Overruns table maxlen (roomOf placed.1) left pieces extra placed.2 shown) :
    ∃ result, piecesRun table cbBuf maxlen left onward pieces extra placed =
        .ok result ∧ result.rc = ERROR_MR_MSG_TOO_LONG := by
  induction pieces generalizing extra placed with
  | nil =>
    obtain ⟨shown, nonempty, start, -⟩ := overruns
    exact absurd (List.prefix_nil.mp start) nonempty
  | cons piece rest ih =>
    obtain ⟨room, last, later⟩ := exists_overruns_cons.mp overruns
    obtain ⟨placed', put⟩ := putPart_of_room.mpr room
    obtain ⟨inside, -, same⟩ := putPart_eq_ok_iff.mp put
    have length := putBytes_length inside
    unfold piecesRun
    rw [put, bind_ok, same, if_neg last]
    by_cases long : maxlen < (placed.2 + (piece.text table).length : Nat)
    · rw [if_pos long]
      exact tooLong_returns (length.trans size) (length ▸ positive)
    · rw [if_neg long]
      apply ih (length.trans size) (length ▸ positive)
      unfold roomOf
      rw [length]
      exact later.resolve_left long

/-- The message is taken to end with its last piece. -/
def Ends (left : List UInt8) (pieces : List Piece) (extra : Nat) : Prop :=
  pieces ≠ [] ∧ left = [] ∧ extra + extraOf pieces = 0

instance (left : List UInt8) (pieces : List Piece) (extra : Nat) :
    Decidable (Ends left pieces extra) :=
  inferInstanceAs (Decidable (_ ∧ _))

theorem ends_cons_iff (more : rest ≠ []) :
    Ends left (piece :: rest) extra ↔ Ends left rest (extra + piece.extra) := by
  unfold Ends extraOf
  rw [List.map_cons, List.sum_cons, Nat.add_assoc]
  simp only [ne_eq, reduceCtorEq, not_false_eq_true, more]

theorem exists_putPart_append {pBuf first second : List UInt8} {dstlen : Nat}
    {P : List UInt8 × Nat → Prop} :
    (∃ placed, putPart pBuf dstlen (first ++ second) = .ok placed ∧ P placed) ↔
      ∃ placed, putPart pBuf dstlen first = .ok placed ∧
        ∃ placed', putPart placed.1 placed.2 second = .ok placed' ∧
          P placed' := by
  simp only [putPart_eq_ok_iff, List.length_append, ← Nat.add_assoc]
  constructor
  · rintro ⟨_, ⟨inside, small, rfl⟩, holds⟩
    have inside' : dstlen + first.length ≤ pBuf.length := by omega
    refine ⟨_, ⟨inside', by omega, rfl⟩, _, ⟨?_, small, rfl⟩, ?_⟩
    · rw [putBytes_length inside']
      exact inside
    · rw [putBytes_append inside']
      exact holds
  · rintro ⟨_, ⟨inside', small', rfl⟩, _, ⟨inside, small, rfl⟩, holds⟩
    rw [putBytes_length inside'] at inside
    rw [putBytes_append inside'] at holds
    exact ⟨_, ⟨inside, small, rfl⟩, holds⟩

theorem piecesRun_ok_iff {pieces : List Piece} {result : Inserted} (held : Held placed)
    (none : ¬ ∃ shown, Overruns table maxlen (roomOf placed.1) left pieces extra placed.2 shown) :
    piecesRun table cbBuf maxlen left onward pieces extra placed = .ok result ↔
      ∃ placed', putPart placed.1 placed.2 (textOf table pieces) = .ok placed' ∧
        (if Ends left pieces extra then finish placed'
          else onward (extra + extraOf pieces) placed') = .ok result := by
  induction pieces generalizing extra placed with
  | nil =>
    have notEnds : ¬ Ends left [] extra := fun ends => ends.1 rfl
    rw [textOf_nil, held.putPart_nil]
    simp [piecesRun, extraOf, notEnds]
  | cons piece rest ih =>
    rw [exists_overruns_cons] at none
    unfold piecesRun
    rw [bind_eq_ok_iff, textOf_cons, exists_putPart_append]
    apply exists_congr
    intro placed'
    apply and_congr_right
    intro put
    have held' := Held.put put
    have room := putPart_of_room.mp ⟨placed', put⟩
    obtain ⟨inside, -, same⟩ := putPart_eq_ok_iff.mp put
    have length : placed'.1.length = placed.1.length := by
      rw [same]
      exact putBytes_length inside
    have count : placed'.2 = placed.2 + (piece.text table).length := by
      rw [same]
    by_cases last : rest = [] ∧ left = [] ∧ extra + piece.extra = 0
    · obtain ⟨rfl, empty, zero⟩ := last
      have ends : Ends left [piece] extra :=
        ⟨List.cons_ne_nil _ _, empty, by simpa [extraOf] using zero⟩
      rw [if_pos ⟨rfl, empty, zero⟩, textOf_nil, held'.putPart_nil]
      simp [ends]
    · have short : ¬ maxlen < placed'.2 := by
        rw [count]
        exact fun long => none ⟨room, last, .inl long⟩
      have later : ¬ ∃ shown, Overruns table maxlen (roomOf placed'.1) left
          rest (extra + piece.extra) placed'.2 shown := by
        unfold roomOf
        rw [length, count]
        exact fun others => none ⟨room, last, .inr others⟩
      rw [if_neg last, if_neg short, ih held' later]
      have total : extra + piece.extra + extraOf rest = extra + extraOf (piece :: rest) := by
        simp only [extraOf, List.map_cons, List.sum_cons, Nat.add_assoc]
      have ends : Ends left (piece :: rest) extra ↔
          Ends left rest (extra + piece.extra) := by
        by_cases more : rest = []
        · refine iff_of_false ?_ fun ends => ends.1 more
          rintro ⟨-, empty, zero⟩
          apply last
          rw [more] at zero
          exact ⟨more, empty, by simpa [extraOf] using zero⟩
        · exact ends_cons_iff more
      simp only [ends, total]

end

/-! ## Strings cut to the size of the buffer -/

section

variable {table : List (List UInt8)} {size : Nat}

theorem text_cutTable (piece : Piece) : min size (piece.text table).length ≤
        (piece.text (cutTable table size)).length ∧
      ((piece.text table).length ≤ size →
        piece.text (cutTable table size) = piece.text table) := by
  cases piece with
  | plain byte => exact ⟨Nat.min_le_right .., fun _ => rfl⟩
  | percent => exact ⟨Nat.min_le_right .., fun _ => rfl⟩
  | dropped => exact ⟨Nat.min_le_right .., fun _ => rfl⟩
  | insert k =>
    have cut : Piece.text (cutTable table size) (.insert k) =
        (Piece.text table (.insert k)).take size := by
      simp only [Piece.text, cutTable, List.getD_eq_getElem?_getD, List.getElem?_map]
      cases table[k]? with
      | none => simp
      | some string => simp
    rw [cut]
    exact ⟨Nat.le_of_eq List.length_take.symm, List.take_of_length_le⟩

theorem textOf_cutTable (pieces : List Piece) : min size (textOf table pieces).length ≤
        (textOf (cutTable table size) pieces).length ∧
      ((textOf table pieces).length ≤ size →
        textOf (cutTable table size) pieces = textOf table pieces) := by
  induction pieces with
  | nil => exact ⟨Nat.min_le_right .., fun _ => rfl⟩
  | cons piece rest ih =>
    obtain ⟨first, firstSame⟩ := @text_cutTable table size piece
    obtain ⟨others, othersSame⟩ := ih
    simp only [textOf_cons, List.length_append]
    constructor
    · omega
    · intro short
      rw [firstSame (by omega), othersSame (by omega)]

theorem length_textOf_le {pieces : List Piece} (plain : ∀ piece ∈ pieces, ¬ piece.IsInsert) :
    (textOf table pieces).length ≤ pieces.length := by
  induction pieces with
  | nil => exact Nat.le_refl 0
  | cons piece rest ih =>
    have others := ih fun other member => plain other (List.mem_cons_of_mem piece member)
    have first : (piece.text table).length ≤ 1 := by
      cases piece with
      | plain byte => exact Nat.le_refl 1
      | percent => exact Nat.le_refl 1
      | dropped => exact Nat.zero_le 1
      | insert k => exact absurd trivial (plain _ List.mem_cons_self)
    rw [textOf_cons, List.length_append, List.length_cons]
    omega

theorem length_pieces_le (count : Nat) (text : List UInt8) :
    (pieces count text).1.length ≤ text.length := by
  induction text using pieces.induct count with
  | case1 => exact Nat.le_refl 0
  | case2 => simp [pieces]
  | case3 digit rest piece found ih =>
    rw [pieces_percent found]
    simp only [List.length_cons]
    omega
  | case4 digit rest none =>
    rw [pieces_broken none]
    exact Nat.zero_le _
  | case5 byte rest plain ih =>
    rw [pieces_plain plain]
    exact Nat.succ_le_succ ih

theorem extraOf_eq_zero_iff {pieces : List Piece} :
    extraOf pieces = 0 ↔ ∀ piece ∈ pieces, ¬ piece.IsInsert := by
  induction pieces with
  | nil => simp [extraOf]
  | cons piece rest ih =>
    rw [List.forall_mem_cons, ← ih, ← extra_eq_zero_iff]
    unfold extraOf
    rw [List.map_cons, List.sum_cons, Nat.add_eq_zero_iff]

end

/-! ## Behind the message -/

/-- What follows a message is read as a byte that stands for itself, and is
known not to be meant behind a '%'. -/
def Follows (behind : List UInt8) : Prop := ∀ byte, behind.head? = some byte →
    byte ≠ percent ∧ byte ≠ zeroDigit ∧ ¬ IsInsertDigit byte

/-- A length is stored that counts what was written and a terminator. -/
def Counted (dstlen : Nat) (result : Inserted) : Prop :=
  ∃ length, result.pcbMsg = some (UInt32.ofNat length) ∧ dstlen < length ∧ length < 2147483648

section

variable {table : List (List UInt8)} {cbBuf : UInt32} {maxlen srclen : Int}
variable {text behind bytes : List UInt8} {ivcount extra : Nat}
variable {placed placed' : List UInt8 × Nat} {result : Inserted}

theorem finish_counted (ended : finish placed = .ok result) : result.rc = NO_ERROR ∧
      result.pcbMsg = some (UInt32.ofNat (placed.2 + 1)) ∧
      result.pBuf = putBytes placed.1 placed.2 [0] ∧
      placed.2 + 1 ≤ placed.1.length ∧ placed.2 + 1 < 2147483648 := by
  obtain ⟨_, put, same⟩ := bind_eq_ok_iff.mp ended
  obtain ⟨inside, small, rfl⟩ := putPart_eq_ok_iff.mp put
  cases same
  exact ⟨rfl, rfl, rfl, inside, small⟩

theorem Counted.mono {dstlen dstlen' : Nat} (counted : Counted dstlen' result)
    (less : dstlen ≤ dstlen') : Counted dstlen result := by
  obtain ⟨length, stored, long, small⟩ := counted
  exact ⟨length, stored, Nat.lt_of_le_of_lt less long, small⟩

theorem afterPart_counted {next : Run Inserted}
    (later : next = .ok result → result.rc = NO_ERROR → Counted placed.2 result)
    (ran : afterPart cbBuf maxlen srclen placed next = .ok result)
    (done : result.rc = NO_ERROR) : Counted placed.2 result := by
  unfold afterPart at ran
  split at ran
  · obtain ⟨-, stored, -, -, small⟩ := finish_counted ran
    exact ⟨_, stored, Nat.lt_succ_self _, small⟩
  · split at ran
    · obtain ⟨_, -, same⟩ := bind_eq_ok_iff.mp ran
      cases same
      cases done
    · exact later ran done

theorem le_of_putPart (put : putPart placed.1 placed.2 bytes = .ok placed') :
    placed'.2 = placed.2 + bytes.length := by
  obtain ⟨-, -, rfl⟩ := putPart_eq_ok_iff.mp put
  rfl

/-- A success stores a length beyond what was written before. -/
theorem insertLoop_counted (ran : insertLoop table cbBuf maxlen text srclen ivcount placed =
      .ok result) (done : result.rc = NO_ERROR) : Counted placed.2 result := by
  induction text using escapes.induct generalizing srclen ivcount placed with
  | case1 => cases ran
  | case2 =>
    unfold insertLoop at ran
    simp only [if_true] at ran
    split at ran
    · cases ran
      cases done
    · cases ran
  | case3 digit rest ih =>
    rw [insertLoop] at ran
    simp only [if_true] at ran
    split at ran
    · cases ran
      cases done
    split at ran
    · obtain ⟨placed', put, ran⟩ := bind_eq_ok_iff.mp ran
      exact (afterPart_counted (fun ran _ => ih ran) ran done).mono
        (by rw [le_of_putPart put]; exact Nat.le_add_right ..)
    split at ran
    · exact afterPart_counted (fun ran _ => ih ran) ran done
    split at ran
    · obtain ⟨string, -, ran⟩ := bind_eq_ok_iff.mp ran
      obtain ⟨placed', put, ran⟩ := bind_eq_ok_iff.mp ran
      exact (afterPart_counted (fun ran _ => ih ran) ran done).mono
        (by rw [le_of_putPart put]; exact Nat.le_add_right ..)
    split at ran
    · obtain ⟨-, stored, -, -, small⟩ := finish_counted ran
      exact ⟨_, stored, Nat.lt_succ_self _, small⟩
    · cases ran
      cases done
  | case4 byte rest plain ih =>
    rw [insertLoop.eq_def] at ran
    simp only [if_neg plain] at ran
    obtain ⟨placed', put, ran⟩ := bind_eq_ok_iff.mp ran
    exact (afterPart_counted (fun ran _ => ih ran) ran done).mono
      (by rw [le_of_putPart put]; exact Nat.le_add_right ..)

theorem insertLoop_behind (follows : Follows behind)
    (ran : insertLoop table cbBuf maxlen behind srclen ivcount placed = .ok result) :
    placed.2 + 1 ≤ placed.1.length ∧
      (result.rc = NO_ERROR → Counted (placed.2 + 1) result) := by
  cases behind with
  | nil => cases ran
  | cons byte rest =>
    have plain := (follows byte rfl).1
    rw [insertLoop.eq_def] at ran
    simp only [if_neg plain] at ran
    obtain ⟨placed', put, ran⟩ := bind_eq_ok_iff.mp ran
    have count := le_of_putPart put
    obtain ⟨inside, -, -⟩ := putPart_eq_ok_iff.mp put
    refine ⟨inside, fun done => ?_⟩
    rw [show placed.2 + 1 = placed'.2 from count.symm]
    exact afterPart_counted (fun ran done => insertLoop_counted ran done) ran done

theorem left_cases (count : Nat) (text : List UInt8) :
    (pieces count text).2 = [] ∨ (pieces count text).2 = [percent] ∨
      ∃ digit rest, (pieces count text).2 = percent :: digit :: rest ∧
        pieceOf count digit = none := by
  induction text using pieces.induct count with
  | case1 => exact .inl rfl
  | case2 => exact .inr (.inl (by simp [pieces]))
  | case3 digit rest piece found ih =>
    rw [pieces_percent found]
    exact ih
  | case4 digit rest none =>
    rw [pieces_broken none]
    exact .inr (.inr ⟨digit, rest, rfl, none⟩)
  | case5 byte rest plain ih =>
    rw [pieces_plain plain]
    exact ih

theorem insertLoop_wrong {digit : UInt8} (few : ivcount + 1 ≤ 9)
    (noPercent : digit ≠ percent) (noZero : digit ≠ zeroDigit)
    (noInsert : ¬ IsInsertDigit digit) :
    insertLoop table cbBuf maxlen (percent :: digit :: text) srclen ivcount placed =
      if srclen - 1 ≤ 0 then finish placed
      else .ok ⟨ERROR_MR_UN_PERFORM, placed.1, none⟩ := by
  have notMany : ¬ 9 < ivcount + 1 := Nat.not_lt.mpr few
  rw [insertLoop]
  simp only [if_true, if_neg notMany, if_neg noPercent, if_neg noZero, if_neg noInsert]

theorem unPerform_ne : ERROR_MR_UN_PERFORM ≠ NO_ERROR := by decide

theorem onward_error_iff {left : List UInt8} {count : Nat}
    (size : table.length = count) (few : ivcount + escapes left ≤ 9)
    (broken : left = [percent] ∨ ∃ digit rest,
      left = percent :: digit :: rest ∧ pieceOf count digit = none)
    (follows : Follows behind) :
    (∃ result, insertLoop table cbBuf maxlen (left ++ behind)
        (left.length + extra) ivcount placed = .ok result ∧ result.rc ≠ NO_ERROR) ↔
      InsertCall.WrongEscape behind (0 < extra) left := by
  rcases broken with rfl | ⟨digit, rest, rfl, none⟩
  · have few' : ivcount + 1 ≤ 9 := by
      simpa [escapes] using few
    simp only [List.length_singleton, List.singleton_append]
    cases behind with
    | nil =>
      have notMany : ¬ 9 < ivcount + 1 := Nat.not_lt.mpr few'
      rw [insertLoop]
      simp [notMany, InsertCall.WrongEscape]
    | cons byte more =>
      obtain ⟨noPercent, noZero, noInsert⟩ := follows byte rfl
      rw [insertLoop_wrong few' noPercent noZero noInsert]
      by_cases alone : extra = 0
      · have last : (1 : Int) + extra - 1 ≤ 0 := by omega
        simp only [Nat.cast_one, if_pos last]
        refine iff_of_false ?_ fun wrong => ?_
        · rintro ⟨result, ended, wrong⟩
          exact wrong (finish_counted ended).1
        · rw [alone] at wrong
          exact Nat.lt_irrefl 0 wrong.2
      · have notLast : ¬ (1 : Int) + extra - 1 ≤ 0 := by omega
        simp only [Nat.cast_one, if_neg notLast]
        refine iff_of_true ⟨_, rfl, unPerform_ne⟩ ⟨List.cons_ne_nil _ _, Nat.pos_of_ne_zero alone⟩
  · have few' : ivcount + 1 ≤ 9 := by
      rw [escapes_percent] at few
      omega
    have notLast : ¬ ((percent :: digit :: rest).length : Int) + extra - 1 ≤ 0 := by
      simp only [List.length_cons]
      omega
    unfold pieceOf at none
    have noPercent : digit ≠ percent := by
      intro same
      simp [same] at none
    rw [if_neg noPercent] at none
    have noZero : digit ≠ zeroDigit := by
      intro same
      simp [same] at none
    rw [if_neg noZero] at none
    by_cases insert : IsInsertDigit digit
    · have beyond : table.length ≤ digit.toNat - 49 := by
        by_contra within
        rw [size] at within
        simp [insert, Nat.lt_of_not_le within] at none
      have notMany : ¬ 9 < ivcount + 1 := Nat.not_lt.mpr few'
      rw [List.cons_append, List.cons_append, insertLoop]
      simp [notMany, noPercent, noZero, insert, tableAt,
        List.getElem?_eq_none beyond, InsertCall.WrongEscape]
    · rw [List.cons_append, List.cons_append,
        insertLoop_wrong few' noPercent noZero insert, if_neg notLast]
      exact iff_of_true ⟨_, rfl, unPerform_ne⟩ insert

end

/-! ## The call -/

namespace InsertCall

variable (call : InsertCall) (behind : List UInt8)

theorem toNat_lengths : (UInt32.ofNat call.text.length).toNat = call.text.length ∧
      (UInt32.ofNat call.buffer.length).toNat = call.buffer.length := by
  have bound := call.text_le
  simp only [UInt32.toNat_ofNat', Nat.reducePow]
  omega

theorem cTable_eq_zero_iff :
    (call.args behind).cTable = 0 ↔ call.table = [] := by
  have bound := call.table_le
  rw [← List.length_eq_zero_iff, UInt32.ext_iff]
  change (UInt32.ofNat call.table.length).toNat = 0 ↔ _
  rw [UInt32.toNat_ofNat', Nat.mod_eq_of_lt (by omega)]

variable {call} {behind}

theorem inside_of_run {result : Inserted} (ran : call.run behind = .ok result) :
    Inside (call.text ++ behind) call.logged 1 := by
  obtain ⟨byte, read, -⟩ := bind_eq_ok_iff.mp ran
  exact returns_readByte_iff.mp ⟨byte, read⟩

theorem run_of_longer (inside : Inside (call.text ++ behind) call.logged 1)
    (longer : call.buffer.length < call.text.length) :
    call.run behind = .ok ⟨ERROR_MR_MSG_TOO_LONG, call.buffer, none⟩ := by
  obtain ⟨byte, read⟩ := returns_readByte_iff.mpr inside
  obtain ⟨text, buffer⟩ := call.toNat_lengths
  have compared : (call.args behind).cbBuf < (call.args behind).cbMsg := by
    rw [UInt32.lt_iff_toNat_lt, args_cbBuf, args_cbMsg, text, buffer]
    exact longer
  unfold run DosInsertMessage
  simp only [args_pszMsg, args_pBuf, args_pTable, read, bind_ok,
    Option.isNone_some, Bool.false_eq_true, and_false, if_false, compared,
    if_true, pure_eq_ok]

/-- A message that is not is copied by the one way or by the other. -/
theorem run_of_not_longer (inside : Inside (call.text ++ behind) call.logged 1)
    (small : call.text.length ≤ call.buffer.length) :
    call.run behind =
      if call.table = [] then do
        let pBuf ← strlcpy call.buffer (call.text ++ behind) (UInt32.ofNat call.text.length)
        return ⟨NO_ERROR, pBuf, none⟩
      else
        insertLoop call.table (UInt32.ofNat call.buffer.length) call.maxlen
          (call.text ++ behind) call.text.length 0 (call.buffer, 0) := by
  obtain ⟨byte, read⟩ := returns_readByte_iff.mpr inside
  obtain ⟨text, buffer⟩ := call.toNat_lengths
  have bound := call.text_le
  have compared : ¬ (call.args behind).cbBuf < (call.args behind).cbMsg := by
    rw [UInt32.lt_iff_toNat_lt, args_cbBuf, args_cbMsg, text, buffer]
    exact Nat.not_lt.mpr small
  have signed : signedLong (UInt32.ofNat call.text.length) =
      call.text.length := by
    rw [signedLong_of_lt (by rw [text]; omega), text]
  have empty := call.cTable_eq_zero_iff behind
  unfold run DosInsertMessage
  simp only [args_pszMsg, args_pBuf, args_pTable, read, bind_ok,
    Option.isNone_some, Bool.false_eq_true, and_false, if_false, compared,
    empty, Option.getD_some]
  simp only [args_cbMsg, args_cbBuf, signed]
  rfl

theorem not_right_of_copied {pBuf : List UInt8} :
    ¬ call.Right ⟨NO_ERROR, pBuf, none⟩ := by
  unfold Right
  split
  · split
    · rintro ⟨-, -, stored⟩
      cases stored
    · intro refused
      cases refused
  · exact fun wrong => wrong rfl

theorem overruns_iff (shown : List Piece) :
    Overruns (cutTable call.table call.buffer.length) call.maxlen
        (roomOf call.buffer) call.left call.pieces 0 0 shown ↔
      call.Overrun shown := by
  constructor
  · rintro ⟨nonempty, start, long, fits, more⟩
    rw [Nat.zero_add] at long fits
    refine ⟨nonempty, start, long, fits, fun same empty => ?_⟩
    rcases more same empty with some | insert
    · exact absurd some (Nat.lt_irrefl 0)
    · exact insert
  · rintro ⟨nonempty, start, long, fits, more⟩
    refine ⟨nonempty, start, ?_, ?_, fun same empty => .inr (more same empty)⟩
    · rw [Nat.zero_add]
      exact long
    · rw [Nat.zero_add]
      exact fits

/-- The text that stands for the message, cut to the size of the buffer. -/
def cutText (call : InsertCall) : List UInt8 :=
  textOf (cutTable call.table call.buffer.length) call.pieces

/-- What the call has left to do where nothing is found too long. -/
def rest (call : InsertCall) (behind : List UInt8) : Run Inserted := do
  let placed ← putPart call.buffer 0 call.cutText
  if Ends call.left call.pieces 0 then
    finish placed
  else
    onwardLoop call.table (UInt32.ofNat call.buffer.length) call.maxlen
      call.text behind 0 (extraOf call.pieces) placed

theorem rest_right_iff_of_whole (follows : Follows behind) (whole : message call.table call.text =
      some (textOf call.table call.pieces)) (empty : call.left = []) :
    (∃ result, call.rest behind = .ok result ∧ call.Right result) ↔
      call.Fits (textOf call.table call.pieces) ∧ call.pieces ≠ [] ∧
        ∀ piece ∈ call.pieces, ¬ piece.IsInsert := by
  have bound := call.text_le
  obtain ⟨longer, same⟩ := @textOf_cutTable call.table call.buffer.length call.pieces
  unfold Right rest
  rw [whole]
  by_cases ends : Ends call.left call.pieces 0
  · have plain : ∀ piece ∈ call.pieces, ¬ piece.IsInsert :=
      extraOf_eq_zero_iff.mp ((Nat.zero_add _).symm.trans ends.2.2)
    simp only [if_pos ends, bind_eq_ok_iff]
    constructor
    · rintro ⟨result, ⟨placed, put, ended⟩, right⟩
      refine ⟨?_, ends.1, plain⟩
      by_contra tooLong
      rw [if_neg tooLong, (finish_counted ended).1] at right
      cases right
    · rintro ⟨fits, -, -⟩
      have short := @length_textOf_le call.table _ plain
      have count := length_pieces_le call.table.length call.text
      have room : (textOf call.table call.pieces).length + 1 ≤
          call.buffer.length := fits
      have uncut : call.cutText = textOf call.table call.pieces := same (Nat.le_of_succ_le room)
      have counted : call.pieces.length ≤ call.text.length := count
      obtain ⟨placed, put⟩ := (@putPart_of_room call.buffer (call.cutText ++ [0]) 0).mpr (by
          unfold roomOf
          rw [uncut, List.length_append, List.length_singleton]
          omega)
      obtain ⟨placed', put', ended⟩ := (@exists_putPart_append call.buffer
        call.cutText [0] 0 (· = placed)).mp ⟨placed, put, rfl⟩
      obtain ⟨placed'', put'', rfl⟩ := ended
      have finished : finish placed' = .ok ⟨NO_ERROR, placed''.1,
          some (UInt32.ofNat placed''.2)⟩ := by
        unfold finish
        rw [put'']
        rfl
      obtain ⟨inside, -, whole⟩ := putPart_eq_ok_iff.mp put
      refine ⟨⟨NO_ERROR, placed''.1, some (UInt32.ofNat placed''.2)⟩, ⟨placed', put', finished⟩, ?_⟩
      rw [if_pos fits, whole, ← uncut]
      refine ⟨rfl, Contains.putBytes_self inside, ?_⟩
      simp only [List.length_append, List.length_singleton, Nat.zero_add]
  · simp only [if_neg ends, bind_eq_ok_iff]
    constructor
    · rintro ⟨result, ⟨placed, put, ran⟩, right⟩
      obtain ⟨inside, -, rfl⟩ := putPart_eq_ok_iff.mp put
      unfold onwardLoop at ran
      rw [show (Doscalls.pieces call.table.length call.text).2 = [] from empty] at ran
      obtain ⟨more, counted⟩ := insertLoop_behind follows ran
      have length := putBytes_length inside
      rw [length] at more
      simp only [Nat.zero_add] at more counted inside
      by_cases fits : call.Fits (textOf call.table call.pieces)
      · rw [if_pos fits] at right
        obtain ⟨done, -, stored⟩ := right
        obtain ⟨count, stored', long, small'⟩ := counted done
        have uncut : call.cutText = textOf call.table call.pieces := same (Nat.le_of_succ_le fits)
        rw [uncut] at long
        have equal := congrArg UInt32.toNat (Option.some.inj (stored'.symm.trans stored))
        simp only [UInt32.toNat_ofNat', Nat.reducePow] at equal
        omega
      · have full : call.buffer.length ≤
            (textOf call.table call.pieces).length := by
          unfold Fits at fits
          omega
        have cut : call.buffer.length ≤ call.cutText.length := by
          unfold cutText
          omega
        omega
    · rintro ⟨-, nonempty, plain⟩
      exact absurd ⟨nonempty, empty, by
        rw [Nat.zero_add]
        exact extraOf_eq_zero_iff.mpr plain⟩ ends

theorem rest_right_iff_of_broken (follows : Follows behind)
    (few : escapes call.text ≤ 9) (broken : call.left ≠ []) :
    (∃ result, call.rest behind = .ok result ∧ result.rc ≠ NO_ERROR) ↔
      call.shownLength call.pieces ≤ call.room ∧ call.Unperformable behind := by
  have notEnds : ¬ Ends call.left call.pieces 0 := fun ends => broken ends.2.1
  rw [escapes_eq call.table.length, Nat.add_comm] at few
  unfold rest
  simp only [if_neg notEnds, bind_eq_ok_iff]
  have onward : ∀ placed, (∃ result, onwardLoop call.table (UInt32.ofNat call.buffer.length)
          call.maxlen call.text behind 0 (extraOf call.pieces) placed =
            .ok result ∧ result.rc ≠ NO_ERROR) ↔
        call.Unperformable behind := by
    intro placed
    have some : 0 < extraOf call.pieces ↔
        ∃ piece ∈ call.pieces, piece.IsInsert := by
      rw [Nat.pos_iff_ne_zero, Ne, extraOf_eq_zero_iff]
      push Not
      rfl
    unfold onwardLoop Unperformable
    rw [onward_error_iff rfl (by rw [Nat.zero_add, Nat.add_comm]; omega)
      ((left_cases call.table.length call.text).resolve_left broken) follows,
      some]
    rfl
  constructor
  · rintro ⟨result, ⟨placed, put, ran⟩, wrong⟩
    refine ⟨?_, (onward placed).mp ⟨result, ran, wrong⟩⟩
    have room := putPart_of_room.mp ⟨placed, put⟩
    rw [Nat.zero_add] at room
    exact room
  · rintro ⟨room, unperformable⟩
    obtain ⟨placed, put⟩ := (@putPart_of_room call.buffer call.cutText 0).mpr
      (by rw [Nat.zero_add]; exact room)
    obtain ⟨result, ran, wrong⟩ := (onward placed).mpr unperformable
    exact ⟨result, ⟨placed, put, ran⟩, wrong⟩

theorem meets_iff_of_loop (follows : Follows behind) (few : escapes call.text ≤ 9)
    (inside : Inside (call.text ++ behind) call.logged 1)
    (positive : 0 < call.buffer.length)
    (small : call.text.length ≤ call.buffer.length)
    (inserts : call.table ≠ []) :
    call.MeetsBefore behind ↔ call.LoopAllowed behind := by
  obtain ⟨-, bufferLength⟩ := call.toNat_lengths
  have held : Held (call.buffer, 0) := ⟨Nat.zero_le _, Nat.succ_pos 2147483647⟩
  have ran : call.run behind = piecesRun (cutTable call.table call.buffer.length)
      (UInt32.ofNat call.buffer.length) call.maxlen call.left
      (onwardLoop call.table (UInt32.ofNat call.buffer.length) call.maxlen
        call.text behind 0) call.pieces 0 (call.buffer, 0) := by
    rw [run_of_not_longer inside small, if_neg inserts,
      insertLoop_eq call.text _ 0 0 _ (Int.add_zero _).symm
        ((Nat.zero_add _).symm ▸ few) held, bufferLength]
    rfl
  unfold MeetsBefore LoopAllowed
  rw [ran]
  by_cases overruns : ∃ shown, call.Overrun shown
  · obtain ⟨result, returned, tooLong⟩ :=
      @piecesRun_of_overruns (cutTable call.table call.buffer.length)
        (UInt32.ofNat call.buffer.length) call.maxlen call.left 0
        (onwardLoop call.table (UInt32.ofNat call.buffer.length) call.maxlen
          call.text behind 0) (call.buffer, 0) call.pieces bufferLength.symm
        positive (by simpa only [overruns_iff] using overruns)
    have only : (∃ result', piecesRun (cutTable call.table call.buffer.length)
        (UInt32.ofNat call.buffer.length) call.maxlen call.left
        (onwardLoop call.table (UInt32.ofNat call.buffer.length) call.maxlen
          call.text behind 0) call.pieces 0 (call.buffer, 0) = .ok result' ∧
          call.Right result') ↔ call.Right result := by
      rw [returned]
      simp
    rw [only]
    unfold Right
    cases message call.table call.text with
    | none => simp [overruns, tooLong, ERROR_MR_MSG_TOO_LONG, NO_ERROR]
    | some full =>
      by_cases fits : call.Fits full
      · simp [overruns, fits, tooLong, ERROR_MR_MSG_TOO_LONG, NO_ERROR]
      · simp [overruns, fits, tooLong]
  · have through : ∀ result, piecesRun (cutTable call.table call.buffer.length)
        (UInt32.ofNat call.buffer.length) call.maxlen call.left
        (onwardLoop call.table (UInt32.ofNat call.buffer.length) call.maxlen
          call.text behind 0) call.pieces 0 (call.buffer, 0) = .ok result ↔
        call.rest behind = .ok result := by
      intro result
      rw [piecesRun_ok_iff held (by simpa only [overruns_iff] using overruns)]
      unfold rest
      rw [bind_eq_ok_iff, Nat.zero_add]
      rfl
    simp only [through, overruns, not_false_eq_true, and_true, false_or]
    by_cases broken : call.left = []
    · have whole : message call.table call.text =
          some (textOf call.table call.pieces) := if_pos broken
      rw [rest_right_iff_of_whole follows whole broken, whole]
      by_cases fits : call.Fits (textOf call.table call.pieces)
      · simp [fits, and_comm]
      · simp [fits]
    · have none : message call.table call.text = Option.none := if_neg broken
      unfold Right
      rw [none]
      exact rest_right_iff_of_broken follows few broken

theorem meetsBefore_iff (follows : Follows behind) (few : escapes call.text ≤ 9)
    (positive : 0 < call.buffer.length ∨ behind = []) :
    call.MeetsBefore behind ↔ call.AllowedBefore behind := by
  unfold AllowedBefore
  by_cases inside : Inside (call.text ++ behind) call.logged 1
  · by_cases longer : call.buffer.length < call.text.length
    · rw [if_pos longer]
      unfold MeetsBefore Right
      rw [run_of_longer inside longer]
      cases message call.table call.text with
      | none => simp [inside, ERROR_MR_MSG_TOO_LONG, NO_ERROR]
      | some full =>
        by_cases fits : call.Fits full
        · simp [inside, fits, ERROR_MR_MSG_TOO_LONG, NO_ERROR]
        · simp [inside, fits]
    · rw [if_neg longer]
      have small := Nat.not_lt.mp longer
      by_cases inserts : call.table = []
      · have never : ¬ call.MeetsBefore behind := by
          rintro ⟨result, ran, right⟩
          rw [run_of_not_longer inside small, if_pos inserts] at ran
          obtain ⟨pBuf, -, same⟩ := bind_eq_ok_iff.mp ran
          cases same
          exact not_right_of_copied right
        exact iff_of_false never fun allowed => allowed.2.1 inserts
      · have positive' : 0 < call.buffer.length := by
          rcases positive with some | rfl
          · exact some
          · rw [List.append_nil] at inside
            unfold Inside at inside
            omega
        rw [meets_iff_of_loop follows few inside positive' small inserts]
        exact ⟨fun allowed => ⟨inside, inserts, allowed⟩, fun allowed => allowed.2.2⟩
  · refine iff_of_false ?_ fun allowed => inside allowed.1
    rintro ⟨result, ran, -⟩
    exact inside (inside_of_run ran)

theorem shortText_le (text : List UInt8) :
    (text.take 8).length + (List.replicate 8 (0 : UInt8)).length + 4 ≤
      4294967296 := by
  have short := List.length_take_le 8 text
  rw [List.length_replicate]
  omega

theorem nonzero_x : ∀ string ∈ [[(120 : UInt8)]], 0 ∉ string := by decide

theorem length_x : ∀ string ∈ [[(120 : UInt8)]],
    string.length + (List.replicate 8 (0 : UInt8)).length + 1 ≤
      4294967296 := by decide

/-- A call with at most eight bytes, "x" to be inserted, and a buffer of eight
bytes. -/
def shortCall (text : List UInt8) : InsertCall where
  table := [[120]]
  text := text.take 8
  buffer := List.replicate 8 0
  logged := 0
  nonzero := nonzero_x
  text_le := shortText_le text
  string_le := length_x
  table_le := Nat.le_of_ble_eq_true rfl

end InsertCall

end OsFree.Doscalls
