import OsFree.Compat.Restore

/-!
# The pieces of a string

A caller that hands a string to the tokenizer, and then a null pointer again and
again, gets the pieces between the separators, and then none.  The separator
that a zero stands for is back whenever the tokenizer is asked again.
-/

namespace OsFree.Compat

/-- The calls for a string: the first one gets it, and the others a null
pointer. -/
def Tokenizer.tokenAfter (world : Tokenizer) (str : Cursor)
    (separators : List UInt8) : ℕ → Option Cursor × Tokenizer
  | 0 => world.strTokenize (some str) separators
  | calls + 1 =>
    (world.tokenAfter str separators calls).2.strTokenize none separators

/-- A text split at every separator. -/
def piecesOf (separators text : List UInt8) : List (List UInt8) := text.splitOnP separators.contains

/-- What a call comes to: the piece of its number, or no token behind the last
one, when the strings are as they were.  Stopping behind the call restores them
too. -/
structure Yields (world : Tokenizer) (str : Cursor) (separators : List UInt8)
    (calls : ℕ) : Prop where
  piece : (world.tokenAfter str separators calls).1.map
      ((world.tokenAfter str separators calls).2.textAt ·) =
    (piecesOf separators (world.textAt str))[calls]?
  ended : (world.tokenAfter str separators calls).1 = none →
    (world.tokenAfter str separators calls).2.strings = world.strings
  stopped : (world.tokenAfter str separators calls).2.strTokStop.strings = world.strings

/-- The pieces that a tokenizer has still to find, with the strings that it is
to restore. -/
inductive Remains (strings : ℕ → List UInt8) (separators : List UInt8) :
    List (List UInt8) → Tokenizer → Prop
  | finished {world : Tokenizer} (nxtToken : world.nxtToken = none)
      (same : world.strings = strings) : Remains strings separators [] world
  | last {world : Tokenizer} {string : ℕ} {before rest : List UInt8}
      (same : world.strings = strings)
      (text : strings string = before ++ rest) (ends : rest.getD 0 0 = 0) :
      Remains strings separators [] (world.pausedAt string before rest)
  | more {world : Tokenizer} {string : ℕ} {before text rest : List UInt8}
      {c : UInt8} (same : world.strings = strings)
      (shape : strings string = before ++ c :: (text ++ rest))
      (separator : c ∈ separators) (nonzero : 0 ∉ c :: text)
      (ends : rest.getD 0 0 = 0) :
      Remains strings separators (piecesOf separators text)
        (world.pausedAt string before (c :: (text ++ rest)))

section

variable {strings : ℕ → List UInt8} {separators before text rest : List UInt8}
  {world : Tokenizer} {string : ℕ} {left : List (List UInt8)}

theorem length_piecesOf (separators text : List UInt8) : (piecesOf separators text).length =
      text.countP separators.contains + 1 := by
  unfold piecesOf
  induction text with
  | nil => rfl
  | cons c text ih =>
    rw [List.splitOnP_cons_eq_if_modifyHead, List.countP_cons]
    split
    · rename_i separator
      rw [List.length_cons, ih]
    · rw [List.length_modifyHead, ih, Nat.add_zero]

theorem withText_same (shape : strings string = text) (same : world.strings = strings) :
    (world.withText string text).strings = strings := by
  funext other
  rw [← shape, ← same]
  by_cases equal : other = string
  · rw [equal, Tokenizer.withText_strings_self]
  · exact world.withText_strings_of_ne _ equal

theorem piece_cases (separators text : List UInt8) : (∀ c ∈ text, c ∉ separators) ∨
      ∃ token c later, text = token ++ c :: later ∧ c ∈ separators ∧
        ∀ c ∈ token, c ∉ separators := by
  induction text with
  | nil => exact .inl (fun _ mem => absurd mem List.not_mem_nil)
  | cons c text ih =>
    by_cases separator : c ∈ separators
    · exact .inr ⟨[], c, text, rfl, separator, fun _ mem => absurd mem List.not_mem_nil⟩
    · cases ih with
      | inl none =>
        exact .inl (List.forall_mem_cons.mpr ⟨separator, none⟩)
      | inr found =>
        obtain ⟨token, c', later, rfl, separator', none⟩ := found
        exact .inr ⟨c :: token, c', later, rfl, separator',
          List.forall_mem_cons.mpr ⟨separator, none⟩⟩

theorem endToken_piece (same : world.strings = strings)
    (shape : strings string = before ++ (text ++ rest)) (nonzero : 0 ∉ text)
    (ends : rest.getD 0 0 = 0) (some_separator : separators ≠ []) :
    ∃ token left ended, piecesOf separators text = token :: left ∧
      world.endToken ⟨string, before.length⟩ separators = (some ⟨string, before.length⟩, ended) ∧
      ended.textAt ⟨string, before.length⟩ = token ∧
        Remains strings separators left ended := by
  have shape' : world.strings string = before ++ (text ++ rest) := by
    rw [same, shape]
  cases piece_cases separators text with
  | inl none =>
    refine ⟨text, [], world.pausedAt string (before ++ text) rest, ?_, ?_, ?_, ?_⟩
    · exact List.splitOnP_eq_singleton fun c mem => by simpa using none c mem
    · apply Tokenizer.endToken_eq shape' some_separator
      · exact fun c mem => ⟨ne_of_mem_of_not_mem mem nonzero, none c mem⟩
      · intro c head
        left
        rw [List.getD_eq_getElem?_getD, ← List.head?_eq_getElem?, head] at ends
        exact ends
    · exact Tokenizer.textAt_pausedAt fun c mem => ne_of_mem_of_not_mem mem nonzero
    · exact .last same (by rw [shape, List.append_assoc]) ends
  | inr found =>
    obtain ⟨token, c, later, rfl, separator, none⟩ := found
    rw [List.mem_append, not_or] at nonzero
    refine ⟨token, piecesOf separators later,
      world.pausedAt string (before ++ token) (c :: (later ++ rest)),
      ?_, ?_, ?_, ?_⟩
    · apply List.splitOnP_append_cons_of_forall_mem
      · exact fun c mem => by simpa using none c mem
      · simpa using separator
    · apply Tokenizer.endToken_eq (by rw [shape']; simp) some_separator
      · exact fun c mem => ⟨ne_of_mem_of_not_mem mem nonzero.1, none c mem⟩
      · intro c' head
        cases head
        exact .inr separator
    · exact Tokenizer.textAt_pausedAt fun c mem => ne_of_mem_of_not_mem mem nonzero.1
    · exact .more same (by rw [shape]; simp) separator nonzero.2 ends

namespace Remains

theorem next {token : List UInt8} (remains : Remains strings separators (token :: left) world) :
    ∃ place, (world.strTokenize none separators).1 = some place ∧
      (world.strTokenize none separators).2.textAt place = token ∧ Remains strings separators left
          (world.strTokenize none separators).2 := by
  generalize shape : token :: left = left' at remains
  cases remains with
  | finished | last => cases shape
  | @more world string before text rest c same layout separator nonzero ends =>
    rw [List.mem_cons, not_or] at nonzero
    obtain ⟨token', left', ended, pieces, result, text, remains⟩ :=
      @endToken_piece strings separators (before ++ [c]) text rest
        { world.withText string (before ++ c :: (text ++ rest)) with
          nxtToken := some ⟨string, before.length⟩
          ch := c }
        string (withText_same layout same) (by rw [layout]; simp) nonzero.2 ends
        (List.ne_nil_of_mem separator)
    rw [pieces] at shape
    obtain ⟨rfl, rfl⟩ := List.cons.inj shape
    rw [Tokenizer.strTokenize_next (Ne.symm nonzero.1), result]
    exact ⟨_, rfl, text, remains⟩

theorem ended (remains : Remains strings separators [] world) :
    (world.strTokenize none separators).1 = none ∧
      (world.strTokenize none separators).2.strings = strings ∧
        Remains strings separators [] (world.strTokenize none separators).2 := by
  generalize shape : [] = left at remains
  cases remains with
  | finished nxtToken same =>
    rw [Tokenizer.strTokenize, nxtToken]
    exact ⟨rfl, same, .finished nxtToken same⟩
  | last same layout ends =>
    rw [Tokenizer.strTokenize_finished separators ends]
    have back := withText_same layout same
    exact ⟨rfl, back, .finished rfl back⟩
  | @more _ _ _ text =>
    have length := length_piecesOf separators text
    rw [← shape] at length
    cases length

theorem stopped (remains : Remains strings separators left world) :
    world.strTokStop.strings = strings := by
  cases remains with
  | finished nxtToken same =>
    rw [Tokenizer.strTokStop, Tokenizer.strTokenize, nxtToken]
    exact same
  | last same layout ends =>
    rw [Tokenizer.strTokStop, Tokenizer.strTokenize_finished [] ends]
    exact withText_same layout same
  | more same layout separator nonzero ends =>
    rw [List.mem_cons, not_or] at nonzero
    rw [Tokenizer.strTokStop, Tokenizer.strTokenize_next (Ne.symm nonzero.1)]
    exact withText_same layout same

end Remains

theorem remains_first (separators : List UInt8) {str : Cursor}
    (inside : str.offset ≤ (world.strings str.string).length) :
    ((world.strTokenize (some str) separators).1.map
        ((world.strTokenize (some str) separators).2.textAt ·) =
      (piecesOf separators (world.textAt str))[0]?) ∧
    Remains world.strings separators ((piecesOf separators (world.textAt str)).drop 1)
        (world.strTokenize (some str) separators).2 := by
  have first : world.strTokenize (some str) separators =
      world.endToken str separators := rfl
  rw [first]
  by_cases none : separators = []
  · subst none
    have whole : piecesOf [] (world.textAt str) = [world.textAt str] :=
      List.splitOnP_eq_singleton fun _ _ => rfl
    rw [whole]
    exact ⟨rfl, .finished rfl rfl⟩
  · have shape : world.strings str.string =
        (world.strings str.string).take str.offset ++ (world.textAt str ++
          ((world.strings str.string).drop str.offset).dropWhile (· ≠ 0)) := by
      rw [Tokenizer.textAt, List.takeWhile_append_dropWhile, List.take_append_drop]
    have place : str = ⟨str.string,
        ((world.strings str.string).take str.offset).length⟩ := by
      rw [List.length_take, Nat.min_eq_left inside]
    obtain ⟨token, left, ended, pieces, result, text, remains⟩ :=
      endToken_piece rfl shape (fun mem => cString_ne_zero mem rfl) (getD_dropWhile _) none
    rw [← place] at result text
    rw [result, pieces]
    exact ⟨congrArg some text, remains⟩

theorem remains_tokenAfter (separators : List UInt8) {str : Cursor}
    (inside : str.offset ≤ (world.strings str.string).length) (calls : ℕ) :
    ((world.tokenAfter str separators calls).1.map
        ((world.tokenAfter str separators calls).2.textAt ·) =
      (piecesOf separators (world.textAt str))[calls]?) ∧
    ((world.tokenAfter str separators calls).1 = none →
      (world.tokenAfter str separators calls).2.strings = world.strings) ∧
    Remains world.strings separators ((piecesOf separators (world.textAt str)).drop (calls + 1))
        (world.tokenAfter str separators calls).2 := by
  induction calls with
  | zero =>
    obtain ⟨piece, remains⟩ := remains_first separators inside
    refine ⟨piece, fun missing => ?_, remains⟩
    rw [Tokenizer.tokenAfter] at missing
    rw [missing] at piece
    have length := length_piecesOf separators (world.textAt str)
    have empty := List.getElem?_eq_none_iff.mp piece.symm
    omega
  | succ calls ih =>
    obtain ⟨_, _, remains⟩ := ih
    have piece : (piecesOf separators (world.textAt str))[calls + 1]? =
        ((piecesOf separators (world.textAt str)).drop (calls + 1)).head? :=
      List.head?_drop.symm
    have later : (piecesOf separators (world.textAt str)).drop (calls + 1 + 1) =
        ((piecesOf separators (world.textAt str)).drop (calls + 1)).tail :=
      List.tail_drop.symm
    rw [piece, later]
    generalize (piecesOf separators (world.textAt str)).drop (calls + 1) =
      left at remains ⊢
    cases left with
    | nil =>
      obtain ⟨none, restored, remains⟩ := remains.ended
      rw [Tokenizer.tokenAfter, none]
      exact ⟨rfl, fun _ => restored, remains⟩
    | cons token left =>
      obtain ⟨place, found, text, remains⟩ := remains.next
      rw [Tokenizer.tokenAfter, found]
      exact ⟨congrArg some text, (fun missing => nomatch missing), remains⟩

/-- The tokenizer finds the pieces of a string, one more than it has separators,
and restores the string behind the last one or where it is stopped. -/
theorem strTokenize_yields (world : Tokenizer) (str : Cursor) (separators : List UInt8)
    (inside : str.offset ≤ (world.strings str.string).length) :
    (piecesOf separators (world.textAt str)).length =
        (world.textAt str).countP separators.contains + 1 ∧
      ∀ calls, Yields world str separators calls := by
  refine ⟨length_piecesOf separators _, fun calls => ?_⟩
  obtain ⟨piece, ended, remains⟩ := remains_tokenAfter separators inside calls
  exact ⟨piece, ended, remains.stopped⟩

/-- The string `a;;b` has three pieces. -/
theorem strTokenize_semicolons : (piecesOf [0x3b] [0x61, 0x3b, 0x3b, 0x62]).length = 3 ∧
      ∀ calls, Yields ⟨fun _ => [0x61, 0x3b, 0x3b, 0x62], none, 0⟩ ⟨0, 0⟩ [0x3b]
        calls :=
  strTokenize_yields ⟨fun _ => [0x61, 0x3b, 0x3b, 0x62], none, 0⟩ ⟨0, 0⟩ [0x3b] (Nat.zero_le _)

/-- Between saving and restoring the state, a string may be tokenized from any state, with
any number of calls, and stopped: the tokenizer and all strings are as they were. -/
theorem strTokRestore_nested (world : Tokenizer) (str : Cursor) (separators : List UInt8)
    (calls : ℕ) (inside : str.offset ≤ (world.strings str.string).length) :
    (world.tokenAfter str separators calls).2.strTokStop.strTokRestore world.strTokSave = world := by
  obtain ⟨-, -, remains⟩ := remains_tokenAfter separators inside calls
  exact Tokenizer.ext (congrFun remains.stopped) rfl rfl

/-- At the second piece of `a;;b`, the same string is tokenized at its letters. -/
theorem strTokRestore_nested_letters :
    let world : Tokenizer := (⟨fun _ => [0x61, 0x3b, 0x3b, 0x62], none, 0⟩ : Tokenizer)
      |>.tokenAfter ⟨0, 0⟩ [0x3b] 1 |>.2
    world.nxtToken ≠ none ∧
      (world.tokenAfter ⟨0, 0⟩ [0x61] 2).2.strTokStop.strTokRestore world.strTokSave = world :=
  ⟨by decide, strTokRestore_nested _ _ _ 2 (Nat.zero_le _)⟩

end

end OsFree.Compat
