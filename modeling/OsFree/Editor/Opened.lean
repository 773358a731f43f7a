import Mathlib.Data.List.TakeWhile
import OsFree.Editor.Runs

/-!
# The editor with the lines of a file

The lines that are read are those of the text if it ends in a line end, and their list is
ended if the memory behind them happens to hold a sentinel.
-/

namespace OsFree.Editor

open Machine

theorem length_skip_le (c : UInt8) (bytes : List UInt8) :
    (skip c bytes).length ≤ bytes.length := by
  cases bytes with
  | nil => exact Nat.le_refl _
  | cons first rest =>
    change (if first = c then rest else first :: rest).length ≤ rest.length + 1
    split
    · exact Nat.le_succ _
    · exact Nat.le_refl _

/-- What is behind the line ends at some bytes. -/
def behindEnds (bytes : List UInt8) : List UInt8 := skip 0 (skip 10 (skip 13 bytes))

theorem length_behindEnds_le (bytes : List UInt8) :
    (behindEnds bytes).length ≤ bytes.length :=
  (length_skip_le ..).trans <| (length_skip_le ..).trans <| length_skip_le ..

theorem length_behindEnds_lt {c : UInt8} (ends : endsLine c = true) (rest : List UInt8) :
    (behindEnds (c :: rest)).length < (c :: rest).length := by
  have skipped := length_skip_le 0 (skip 10 rest)
  have skipped' := length_skip_le 0 rest
  have skipped'' := length_skip_le 10 rest
  simp only [endsLine, Bool.or_eq_true, beq_iff_eq] at ends
  obtain (rfl | rfl) | rfl := ends
  · exact Nat.lt_succ_self _
  · exact Nat.lt_succ_of_le (skipped.trans skipped'')
  · exact Nat.lt_succ_of_le skipped'

theorem length_lineOf_add_le (text : List UInt8) :
    (lineOf text).length + (behindLine text).length ≤ text.length := by
  have parts := congrArg List.length
    (@List.takeWhile_append_dropWhile _ (fun c => !endsLine c) text)
  have less := length_behindEnds_le (text.dropWhile fun c => !endsLine c)
  rw [List.length_append] at parts
  unfold behindEnds at less
  unfold lineOf behindLine
  omega

theorem length_behindLine_lt {text : List UInt8} (some : text ≠ []) :
    (behindLine text).length < text.length := by
  obtain ⟨first, rest, rfl⟩ := List.exists_cons_of_ne_nil some
  cases ends : endsLine first with
  | true =>
    rw [behindLine, List.dropWhile_cons, ends]
    exact length_behindEnds_lt ends rest
  | false =>
    refine Nat.lt_of_le_of_lt (length_behindEnds_le _) ?_
    rw [List.dropWhile_cons, ends]
    exact Nat.lt_succ_of_le (List.dropWhile_suffix _).length_le

/-- The lines of a text. -/
def linesOf (text : List UInt8) : List (List UInt8) :=
  if _ : text = [] then []
  else lineOf text :: linesOf (behindLine text)
termination_by text.length
decreasing_by exact length_behindLine_lt ‹_›

/-- The text ends in a line end, or is followed by one. -/
def Ended (text behind : List UInt8) : Prop :=
  endsLine (behind.headD 0) = true ∨ ∀ c ∈ text.getLast?, endsLine c = true

/-- The bytes are the rest of a text and those behind it, or some of those behind it when
nothing of the text is left. -/
def Leaves (bytes text behind : List UInt8) : Prop :=
  bytes = text ++ behind ∨ text = [] ∧ bytes.length ≤ behind.length

section

variable {bytes text behind : List UInt8}

theorem Leaves.lt_iff (leaves : Leaves bytes text behind) :
    behind.length < bytes.length ↔ text ≠ [] := by
  obtain rfl | ⟨rfl, short⟩ := leaves
  · rw [List.length_append, ← List.length_pos_iff]
    omega
  · simp [short]

theorem Leaves.skip (leaves : Leaves bytes text behind) (c : UInt8) :
    Leaves (skip c bytes) (skip c text) behind := by
  obtain rfl | ⟨rfl, short⟩ := leaves
  · cases text with
    | nil => exact .inr ⟨rfl, length_skip_le c behind⟩
    | cons first rest =>
      left
      change (if first = c then rest ++ behind else first :: (rest ++ behind)) =
        (if first = c then rest else first :: rest) ++ behind
      split
      · rfl
      · rfl
  · exact .inr ⟨rfl, (length_skip_le c bytes).trans short⟩

theorem Leaves.behindLine (leaves : Leaves bytes text behind) :
    Leaves (behindLine bytes) (behindLine text) behind := by
  refine ((Leaves.skip ?_ 13).skip 10).skip 0
  obtain rfl | ⟨rfl, short⟩ := leaves
  · rw [List.dropWhile_append]
    split
    · rename_i none
      exact .inr ⟨List.isEmpty_iff.mp none, (List.dropWhile_suffix _).length_le⟩
    · exact .inl rfl
  · exact .inr ⟨rfl, (List.dropWhile_suffix _).length_le.trans short⟩

theorem lineOf_append (ended : Ended text behind) (some : text ≠ []) :
    lineOf (text ++ behind) = lineOf text := by
  unfold lineOf
  rw [List.takeWhile_append]
  split
  · rename_i whole
    have all := (List.takeWhile_prefix fun c => !endsLine c).eq_of_length whole
    rw [all]
    have stops : behind.takeWhile (fun c => !endsLine c) = [] := by
      cases behind with
      | nil => rfl
      | cons first rest =>
        obtain ends | last := ended
        · rw [List.takeWhile_cons, show endsLine first = true from ends]
          rfl
        · have known := last _ (List.getLast?_eq_some_getLast some)
          have := List.takeWhile_eq_self_iff.mp all _ (List.getLast_mem some)
          rw [known] at this
          cases this
    rw [stops, List.append_nil]
  · rfl

theorem behindLine_suffix (text : List UInt8) : behindLine text <:+ text := by
  have skips : ∀ (c : UInt8) (bytes : List UInt8), skip c bytes <:+ bytes := by
    intro c bytes
    cases bytes with
    | nil => exact List.suffix_refl _
    | cons first rest =>
      change (if first = c then rest else first :: rest) <:+ first :: rest
      split
      · exact List.suffix_cons ..
      · exact List.suffix_refl _
  exact (skips ..).trans <| (skips ..).trans <| (skips ..).trans <| List.dropWhile_suffix _

theorem Ended.behindLine (ended : Ended text behind) :
    Ended (behindLine text) behind := by
  refine ended.imp_right fun last c member => last c ?_
  obtain ⟨front, parts⟩ := behindLine_suffix text
  cases none : Editor.behindLine text with
  | nil =>
    rw [none] at member
    cases member
  | cons first rest =>
    rw [← parts, List.getLast?_append_of_ne_nil _ (by simp [none])]
    exact member

theorem length_flatten_linesOf_le (text : List UInt8) :
    (linesOf text).flatten.length ≤ text.length := by
  induction text using linesOf.induct with
  | case1 => simp [linesOf]
  | case2 text some ih =>
    have bound := length_lineOf_add_le text
    rw [linesOf, dif_neg some, List.flatten_cons, List.length_append]
    omega

end

namespace Nodes

/-- The pointer to the node before another one of the array. -/
def before (node : Nat) : Pointer :=
  if node = 0 then none else some (node - 1)

/-- The nodes with lines of text from one of them on. -/
def filed (nodes : Nodes) (first : Nat) (text : List (List UInt8)) : Nodes := fun node =>
  if first ≤ node then
    match text[node - first]? with
    | some str =>
      { str, len := str.length, next := some (node + 1), prev := before node }
    | none => nodes node
  else nodes node

variable {nodes : Nodes} {text : List (List UInt8)} {first : Nat}

theorem filed_nil (nodes : Nodes) (first : Nat) : nodes.filed first [] = nodes := by
  funext node
  unfold filed
  split
  · rfl
  · rfl

theorem filed_cons (nodes : Nodes) (first : Nat) (str : List UInt8) (text : List (List UInt8)) :
    filed (Function.update nodes first
          { str, len := str.length, next := some (first + 1), prev := before first })
        (first + 1) text =
      nodes.filed first (str :: text) := by
  funext node
  obtain below | rfl | above := Nat.lt_trichotomy node first
  · rw [filed, filed, if_neg (by omega), if_neg (by omega), Function.update_of_ne (by omega)]
  · rw [filed, filed, if_neg (by omega), if_pos (Nat.le_refl _), Nat.sub_self, Function.update_self]
    rfl
  · rw [filed, filed, if_pos (Nat.succ_le_of_lt above), if_pos (by omega),
      show node - first = node - (first + 1) + 1 by omega, List.getElem?_cons_succ,
      Function.update_of_ne (by omega)]

theorem filed_of_lt {place : Nat} (inside : place < text.length) :
    nodes.filed first text (first + place) =
      { str := text[place]
        len := text[place].length
        next := some (first + place + 1)
        prev := before (first + place) } := by
  rw [filed, if_pos (Nat.le_add_right ..), Nat.add_sub_cancel_left, List.getElem?_eq_getElem inside]

theorem filed_of_le {place : Nat} (behind : text.length ≤ place) :
    nodes.filed first text (first + place) = nodes (first + place) := by
  rw [filed, if_pos (Nat.le_add_right ..), Nat.add_sub_cancel_left, List.getElem?_eq_none behind]

end Nodes

theorem read_file_settles {bytes text behind : List UInt8} (nodes : Nodes) (lines : Nat)
    (leaves : Leaves bytes text behind) (ended : Ended text behind)
    (fits : lines + (linesOf text).length ≤ maxLines) :
    Settles (fun fuel => read_file behind.length fuel nodes lines bytes)
      (.ok (nodes.filed lines (linesOf text), lines + (linesOf text).length)) := by
  induction text using linesOf.induct generalizing bytes nodes lines with
  | case1 =>
    refine Settles.succ rfl (fun fuel => ?_) (.const _)
    rw [read_file, if_neg fun more => leaves.lt_iff.mp more rfl, linesOf, dif_pos rfl,
      Nodes.filed_nil]
    rfl
  | case2 text some ih =>
    have more := leaves.lt_iff.mpr some
    obtain rfl | ⟨none, -⟩ := id leaves
    · rw [linesOf, dif_neg some, List.length_cons] at fits
      have goesOn := ih (Function.update nodes lines
          { str := lineOf text
            len := (lineOf text).length
            next := .some (lines + 1)
            prev := Nodes.before lines })
        (lines + 1) leaves.behindLine ended.behindLine (by omega)
      rw [Nodes.filed_cons, Nat.add_assoc, Nat.add_comm 1] at goesOn
      rw [linesOf, dif_neg some, List.length_cons]
      refine Settles.succ rfl (fun fuel => ?_) goesOn
      rw [read_file, if_pos more, Nodes.write_of_lt (by omega), andThen, lineOf_append ended some]
      rfl
    · cases some none

namespace Nodes

variable {nodes : Nodes}

theorem linked_of_neighbours {first count : Nat}
    (rows : ∀ place < count, nodes.Node (before (first + place)) (first + place)
      (some (first + place + 1)))
    (sentinel : nodes.Node (before (first + count)) (first + count) none) :
    Linked nodes.Node (before first) (some first)
      (List.range' first count ++ [first + count]) := by
  induction count generalizing first with
  | zero => exact ⟨rfl, none, sentinel, rfl⟩
  | succ count ih =>
    refine ⟨rfl, some (first + 1), rows 0 (Nat.succ_pos _), ?_⟩
    rw [← Nat.add_assoc, Nat.add_right_comm] at sentinel ⊢
    refine ih ?_ sentinel
    intro place inside
    have := rows (place + 1) (Nat.succ_lt_succ inside)
    rw [← Nat.add_assoc, Nat.add_right_comm first place 1] at this
    exact this

theorem lists_filed {text : List (List UInt8)} (few : text.length < maxLines)
    (next : (nodes text.length).next = none)
    (prev : (nodes text.length).prev = before text.length) :
    (nodes.filed 0 text).Lists (List.range' 0 text.length) text.length text where
  linked := by
    have row : ∀ place < text.length, (nodes.filed 0 text).Node (before (0 + place))
        (0 + place) (some (0 + place + 1)) := by
      intro place inside
      rw [Node, filed_of_lt inside]
      exact ⟨rfl, rfl⟩
    have sentinel : (nodes.filed 0 text).Node (before (0 + text.length))
        (0 + text.length) none := by
      rw [Node, filed_of_le (Nat.le_refl _), Nat.zero_add]
      exact ⟨next, prev⟩
    have linked := linked_of_neighbours row sentinel
    rw [Nat.zero_add] at linked
    exact linked
  holds := by
    refine List.forall₂_iff_get.mpr ⟨List.length_range' .., fun place inside inside' => ?_⟩
    rw [List.get_eq_getElem, List.get_eq_getElem, List.getElem_range', Nat.one_mul, Holds,
      filed_of_lt inside']
    exact ⟨rfl, rfl⟩
  inside := by
    intro node member
    simp only [List.mem_append, List.mem_range'_1, List.mem_singleton] at member
    omega

end Nodes

/-- The nodes are the list of the lines of the text with a sentinel behind them, the row
of the cursor is one of them, and saving them gives the text. -/
structure Desk.Meets (desk : Desk) : Prop where
  listed : ∃ rows sentinel, desk.session.nodes.Lists rows sentinel desk.page.text ∧
    ∃ node ∈ rows ++ [sentinel],
      line desk.session.nodes desk.session.cursor.y (some 0) = .ok (some node)
  cursor : desk.session.cursor = desk.page.cursor
  saved : Settles (fun fuel => save_file desk.session.nodes fuel (some 0) [])
    (.ok (desk.page.text.flatMap fun str => str ++ [13, 10]))

theorem Desk.Kept.meets {desk : Desk} (kept : desk.Kept) : desk.Meets := by
  obtain ⟨rows, sentinel, lists, -⟩ := kept.shows
  refine ⟨⟨rows, sentinel, lists, ?_⟩, kept.cursor, lists.save⟩
  have inside := kept.cursorInside.row
  have atRow := lists
  rw [← List.take_append_drop desk.session.cursor.y rows] at atRow
  have line_eq := atRow.line_eq
  rw [List.length_take_of_le (lists.length_eq ▸ inside)] at line_eq
  obtain ⟨node, rest, first⟩ := List.exists_cons_of_ne_nil
    (List.append_ne_nil_of_right_ne_nil (rows.drop desk.session.cursor.y)
      (List.cons_ne_nil sentinel []))
  rw [first] at line_eq
  refine ⟨node, ?_, line_eq⟩
  have member : node ∈ rows.drop desk.session.cursor.y ++ [sentinel] := by
    rw [first]
    exact List.mem_cons_self ..
  exact List.mem_append.mpr ((List.mem_append.mp member).imp_left List.mem_of_mem_drop)

/-- A text that ends in a line end, with fewer lines than there are nodes, and a sentinel
in the memory behind the nodes of its lines. -/
structure Ready (memory : Nodes) (text behind : List UInt8) : Prop where
  ended : Ended text behind
  few : (linesOf text).length < maxLines
  next : (memory (linesOf text).length).next = none
  prev : (memory (linesOf text).length).prev = Nodes.before (linesOf text).length
  small : text.length < 2147483648

/-- In every run of allowed keys in an editor with a text that is ready, the nodes are the
list of the lines that the keys mean, and every allowed key comes back. -/
theorem edited_of_run {memory : Nodes} {text behind : List UInt8}
    (ready : Ready memory text behind) (x0 y0 : Nat) :
    ∃ start, Settles (editor memory text behind x0 y0) (.ok start) ∧
      ∀ desk, RunsTo Desk.AllowedStep ⟨start, linesOf text, ⟨0, 0, x0, y0⟩⟩ desk →
        desk.Meets ∧ ∀ key, desk.Allows key →
            Returns (desk.session.edt_get_user_input key) := by
  have read := read_file_settles memory 0 (.inl rfl) ready.ended
    (Nat.zero_add _ ▸ Nat.le_of_lt ready.few)
  rw [Nat.zero_add] at read
  refine ⟨_, read.andThen (.const _), fun desk run => ?_⟩
  have opened : Desk.Kept
      { session :=
          { nodes := memory.filed 0 (linesOf text)
            lines := (linesOf text).length
            cursor := ⟨0, 0, x0, y0⟩ }
        page := ⟨linesOf text, ⟨0, 0, x0, y0⟩⟩ } := by
    refine ⟨⟨_, _, Nodes.lists_filed ready.few ready.next ready.prev, ?_⟩, rfl,
      ⟨Nat.zero_le _, Int.le_refl 0, Int.natCast_nonneg x0⟩,
      Nat.lt_of_le_of_lt (length_flatten_linesOf_le text) ready.small⟩
    intro node member
    simp only [List.mem_append, List.mem_range'_1, List.mem_singleton] at member
    change node ≤ (linesOf text).length
    omega
  have kept := RunsTo.preserves (fun _ _ kept step => kept.step step) run opened
  refine ⟨kept.meets, fun key allowed => ?_⟩
  obtain ⟨session', pressed, -⟩ := kept.pressed allowed
  exact ⟨session', pressed⟩

/-- The session with the lines `A` and `B`, which a sentinel follows. -/
def twoLines : Session where
  nodes := Function.update
      (Function.update (fun _ => ⟨[], 0, none, some 1⟩) 0 ⟨[65], 1, some 1, none⟩) 1
      ⟨[66], 1, some 2, some 0⟩
  lines := 2
  cursor := ⟨0, 0, 0, 0⟩

/-- In the text of the lines `A` and `B`, the second line is broken and joined again, and
its character is deleted. -/
theorem secondLine_edited :
    Settles (editor (fun _ => ⟨[], 0, none, some 1⟩) [65, 13, 10, 66, 13, 10] [] 0 0)
        (.ok twoLines) ∧
      ∃ desk, RunsTo Desk.AllowedStep ⟨twoLines, [[65], [66]], ⟨0, 0, 0, 0⟩⟩ desk ∧
        desk.page.text = [[65], []] ∧ desk.Meets := by
  have lines : linesOf [65, 13, 10, 66, 13, 10] = [[65], [66]] := by
    simp [linesOf, lineOf, behindLine, skip, endsLine]
  have ready : Ready (fun _ => ⟨[], 0, none, some 1⟩) [65, 13, 10, 66, 13, 10] [] := by
    refine ⟨.inl rfl, ?_, rfl, ?_, by decide⟩
    · rw [lines]
      decide
    · rw [lines]
      rfl
  obtain ⟨start, opened, runs⟩ := edited_of_run ready 0 0
  rw [lines] at runs
  cases opened.returned 3 (.ok twoLines) rfl
  have run : ∃ desk, RunsTo Desk.AllowedStep ⟨twoLines, [[65], [66]], ⟨0, 0, 0, 0⟩⟩ desk ∧
      desk.page.text = [[65], []] := by
    refine ⟨_, .head ⟨.move .down, _, ?_, rfl, rfl⟩ <| .head ⟨.enter, _, ?_, rfl, rfl⟩ <|
      .head ⟨.backspace, _, .inr ?_, rfl, rfl⟩ <|
      .head ⟨.move .right, _, ?_, rfl, rfl⟩ <|
      .single ⟨.backspace, _, .inr ?_, rfl, rfl⟩, rfl⟩
    · exact fun _ => by decide
    · exact ⟨by decide, by decide⟩
    · exact ⟨by decide, by decide, by decide⟩
    · exact ⟨by decide, by decide⟩
    · exact ⟨by decide, by decide, by decide⟩
  obtain ⟨desk, run, text⟩ := run
  exact ⟨opened, desk, run, text, (runs desk run).1⟩

/-- On the first line of the text `AB`, the first character cannot be deleted. -/
theorem backspace_firstLine_faults : ∃ start session,
      editor (fun _ => ⟨[], 0, none, some 0⟩) [65, 66, 13, 10] [] 0 0 3 = some (.ok start) ∧
        start.edt_get_user_input (.move .right) = .ok session ∧
        session.edt_get_user_input .backspace = .error .nullPointer :=
  ⟨_, _, rfl, rfl, rfl⟩

end OsFree.Editor
