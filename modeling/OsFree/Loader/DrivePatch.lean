import OsFree.Machine.Buffer
import OsFree.Modmgr.Record

/-!
# Patching drive letters

At boot time the drive letters `@:` and `!:` of CONFIG.SYS are replaced where they are.
The loop looks at the byte behind the current one first.
-/

namespace OsFree.Loader

open Machine
open Modmgr (Stricmp)

/-- Go back from a place to a blank or a line feed. -/
def scanBack (cfg : List UInt8) : ℕ → Run ℕ
  | 0 => do
      let c ← readByte cfg 0
      if c = 0x20 ∨ c = 0x0a then .ok 0 else .error .readOutside
  | p + 1 => do
      let c ← readByte cfg (p + 1)
      if c = 0x20 ∨ c = 0x0a then .ok (p + 1) else scanBack cfg p

/-- `starts_with`: the characters in front of the blank are those of a word in capital
letters. -/
def startsWith (cfg : List UInt8) (str : ℕ) (s : List UInt8) : Run Bool := do
  let p ← scanBack cfg str
  let c ← readByte cfg p
  if c = 0x0a then .ok false
  else do
    let buf ← readBytes cfg (p - s.length) s.length
    .ok (decide (Stricmp buf s))

/-- `set` -/
def setStatement : List UInt8 := [0x73, 0x65, 0x74]

/-- Delete two characters of a line, and put two blanks in front of its line feed. -/
def deleteLetter (cfg : List UInt8) (i : ℕ) : Run (List UInt8) :=
  let j := ((cfg.drop i).takeWhile (· ≠ 0x0a)).length
  if i + j < cfg.length then
    .ok (cfg.take i ++ ((cfg.drop (i + 2)).take (j - 2) ++ [0x20, 0x20] ++ cfg.drop (i + j)))
  else .error .readOutside

/-- A turn of the loop: `@:`, and then `!:`, for which the second letter may be `*`. -/
def patchTurn (drvletter drvletter2 : UInt8) (i : ℕ) (cfg : List UInt8) :
    Run (List UInt8) := do
  let next ← readByte cfg (i + 1)
  let c ← readByte cfg i
  let cfg := if next = 0x3a ∧ c = 0x40 then cfg.set i drvletter else cfg
  let c ← readByte cfg i
  if next = 0x3a ∧ c = 0x21 then
    if drvletter2 = 0x2a then do
      let statement ← startsWith cfg i setStatement
      if statement then .ok (cfg.set i 0x40) else deleteLetter cfg i
    else .ok (cfg.set i drvletter2)
  else .ok cfg

/-- The loop of `callback`, with the number of turns that are left. -/
def patchLoop (drvletter drvletter2 : UInt8) : ℕ → ℕ → List UInt8 → Run (List UInt8)
  | 0, _, cfg => .ok cfg
  | left + 1, i, cfg => do
      let cfg ← patchTurn drvletter drvletter2 i cfg
      patchLoop drvletter drvletter2 left (i + 1) cfg

/-- The letters of a line replaced: `@:`, and `!:` by another letter. -/
def replaceLetters (drvletter other : UInt8) : List UInt8 → List UInt8
  | 0x40 :: 0x3a :: line => drvletter :: 0x3a :: replaceLetters drvletter other line
  | 0x21 :: 0x3a :: line => other :: 0x3a :: replaceLetters drvletter other line
  | c :: line => c :: replaceLetters drvletter other line
  | [] => []

/-- The line without `!:`. -/
def removeLetters : List UInt8 → List UInt8
  | 0x21 :: 0x3a :: line => removeLetters line
  | c :: line => c :: removeLetters line
  | [] => []

/-- The line is a SET statement. -/
def IsSet (line : List UInt8) : Prop :=
  Stricmp ((line.dropWhile (· = 0x20)).takeWhile (· ≠ 0x20)) setStatement

instance (line : List UInt8) : Decidable (IsSet line) := inferInstanceAs (Decidable (Stricmp _ _))

/-- A line without its terminator, patched; it keeps its length. -/
def patchedLine (drvletter drvletter2 : UInt8) (line : List UInt8) : List UInt8 :=
  if drvletter2 ≠ 0x2a then replaceLetters drvletter drvletter2 line
  else if IsSet line then replaceLetters drvletter 0x40 line
  else
    let kept := removeLetters (replaceLetters drvletter 0x21 line)
    kept ++ List.replicate (line.length - kept.length) 0x20

/-- A line with a carriage return at its end or without one. -/
def patchedEnd (drvletter drvletter2 : UInt8) (line : List UInt8) : List UInt8 :=
  if line.getLast? = some 0x0d then
    patchedLine drvletter drvletter2 line.dropLast ++ [0x0d]
  else patchedLine drvletter drvletter2 line

/-- The text with its lines patched and its terminators where they are. -/
def patchedText (drvletter drvletter2 : UInt8) (text : List UInt8) : List UInt8 :=
  [0x0a].intercalate ((text.splitOn 0x0a).map (patchedEnd drvletter drvletter2))

/-- The loop patches the text, and stays inside it. -/
def PatchesText (drvletter drvletter2 : UInt8) (text : List UInt8) : Prop :=
  patchLoop drvletter drvletter2 text.length 0 text = .ok (patchedText drvletter drvletter2 text)

section

variable {drvletter drvletter2 : UInt8} {i : ℕ} {cfg cfg' : List UInt8}

theorem length_of_deleteLetter (run : deleteLetter cfg i = .ok cfg')
    (two : 2 ≤ ((cfg.drop i).takeWhile (· ≠ 0x0a)).length) : cfg'.length = cfg.length := by
  rw [deleteLetter] at run
  split at run
  · cases run
    simp only [List.length_append, List.length_take, List.length_drop, List.length_cons,
      List.length_nil]
    omega
  · cases run

theorem length_of_patchTurn (run : patchTurn drvletter drvletter2 i cfg = .ok cfg') :
    cfg'.length = cfg.length := by
  rw [patchTurn, bind_eq_ok_iff] at run
  obtain ⟨next, behind, run⟩ := run
  obtain ⟨first, -, run⟩ := bind_eq_ok_iff.mp run
  obtain ⟨c, here, run⟩ := bind_eq_ok_iff.mp run
  have length : (if next = 0x3a ∧ first = 0x40 then cfg.set i drvletter else cfg).length =
      cfg.length := by split <;> simp
  have kept : (if next = 0x3a ∧ first = 0x40 then cfg.set i drvletter else cfg)[i + 1]? =
      cfg[i + 1]? := by split <;> simp
  generalize (if next = 0x3a ∧ first = 0x40 then cfg.set i drvletter else cfg) = now
    at here run length kept
  rw [← length]
  have stands : now[i]? = some c := (readByte_eq_ok_iff.mp here).2
  have follows : now[i + 1]? = some next := kept.trans (readByte_eq_ok_iff.mp behind).2
  split at run
  · rename_i letter
    split at run
    · obtain ⟨statement, -, run⟩ := bind_eq_ok_iff.mp run
      split at run
      · cases run
        exact List.length_set
      · apply length_of_deleteLetter run
        obtain ⟨inside, stands⟩ := List.getElem?_eq_some_iff.mp stands
        obtain ⟨inside', follows⟩ := List.getElem?_eq_some_iff.mp follows
        rw [List.drop_eq_getElem_cons inside, List.drop_eq_getElem_cons inside', stands,
          follows, letter.1, letter.2]
        exact Nat.le_add_left 2 _
    · cases run
      exact List.length_set
  · cases run
    rfl

theorem patchLoop_ne_ok {left : ℕ} (turns : i + (left + 1) = cfg.length) :
    patchLoop drvletter drvletter2 (left + 1) i cfg ≠ .ok cfg' := by
  intro run
  induction left generalizing i cfg with
  | zero =>
    rw [patchLoop, bind_eq_ok_iff] at run
    obtain ⟨next, turn, -⟩ := run
    obtain ⟨c, behind, -⟩ := bind_eq_ok_iff.mp turn
    obtain ⟨-, inside⟩ := readByte_eq_ok_iff.mp behind
    obtain ⟨less, -⟩ := List.getElem?_eq_some_iff.mp inside
    omega
  | succ left ih =>
    rw [patchLoop, bind_eq_ok_iff] at run
    obtain ⟨next, turn, run⟩ := run
    exact ih (by rw [length_of_patchTurn turn]; omega) run

end

/-- The text is patched as it should be exactly if it is empty: the byte behind the text is
read for every other one. -/
theorem patchesText_iff {drvletter drvletter2 : UInt8} {text : List UInt8} :
    PatchesText drvletter drvletter2 text ↔ text = [] := by
  constructor
  · intro patches
    by_contra filled
    obtain ⟨left, length⟩ := Nat.exists_eq_succ_of_ne_zero (mt List.length_eq_zero_iff.mp filled)
    rw [PatchesText, length] at patches
    exact patchLoop_ne_ok (by omega) patches
  · rintro rfl
    have line : patchedEnd drvletter drvletter2 [] = [] := by
      rw [patchedEnd, if_neg (by simp), patchedLine]
      split_ifs <;> rfl
    have text : patchedText drvletter drvletter2 [] =
        [patchedEnd drvletter drvletter2 []].flatten := rfl
    rw [PatchesText, text, line]
    rfl

/-- For the text `@:` the byte behind it is read. -/
theorem not_patchesText_letter : ¬ PatchesText 0x43 0x44 [0x40, 0x3a] :=
  fun patches => patchLoop_ne_ok rfl patches

end OsFree.Loader
