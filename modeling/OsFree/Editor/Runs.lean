import Mathlib.Data.List.Perm.Subperm
import OsFree.Editor.Edits
import OsFree.Machine.Transition

/-!
# Runs of the configuration editor

The keys that the nodes have room for, and whose lines have the neighbours that they
need, mean for the text what they say.
-/

namespace OsFree.Editor

open Machine

/-- The cursor is in a text with some number of lines, or behind its last one. -/
structure Cursor.Inside (cursor : Cursor) (lines : Nat) : Prop where
  row : cursor.y ≤ lines
  column : 0 ≤ cursor.x
  offset : 0 ≤ cursor.x0

namespace Cursor.Inside

variable {cursor : Cursor} {lines : Nat}

theorem up (inside : cursor.Inside lines) : cursor.up.Inside lines where
  row := Nat.le_trans (Nat.sub_le ..) inside.row
  column := inside.column
  offset := inside.offset

theorem left (inside : cursor.Inside lines) : cursor.left.Inside lines where
  row := inside.row
  column := by
    have := inside.column
    unfold Cursor.left
    grind
  offset := by
    have := inside.offset
    unfold Cursor.left
    grind

theorem broken (inside : cursor.Inside lines) : cursor.broken.Inside (lines + 1) where
  row := Nat.succ_le_succ inside.row
  column := inside.offset
  offset := inside.offset

theorem joined (inside : cursor.Inside (lines + 1)) (some : 0 < cursor.y) (len : Nat) :
    (cursor.joined len).Inside lines where
  row := by
    have := inside.row
    change cursor.y - 1 ≤ lines
    omega
  column := by
    change (0 : Int) ≤ len
    omega
  offset := by
    have := inside.offset
    change 0 ≤ if cursor.x0 + 80 ≤ len then max ((len : Int) - 80 + 1) 0 else cursor.x0
    grind

theorem move (inside : cursor.Inside lines) (len : Nat) (move : Move)
    (above : move = .pgup → cursor.y ≠ 0 → cursor.y0 - 24 ≤ lines) :
    (cursor.move lines len move).Inside lines := by
  have row := inside.row
  have column := inside.column
  have offset := inside.offset
  cases move with
  | down => exact ⟨by unfold Cursor.move Cursor.down; grind, column, offset⟩
  | up => exact inside.up
  | right =>
    exact ⟨row, Int.le_add_one column, by unfold Cursor.move Cursor.right; grind⟩
  | left => exact inside.left
  | pgdn => exact ⟨by unfold Cursor.move Cursor.pgdn; grind, column, offset⟩
  | pgup =>
    exact ⟨by unfold Cursor.move Cursor.pgup; grind, column, offset⟩
  | home => exact ⟨row, Int.le_refl 0, Int.le_refl 0⟩
  | toEnd => exact ⟨row, Int.natCast_nonneg len, Int.le_max_right ..⟩
  | del => exact inside

end Cursor.Inside

section

variable {cursor : Cursor} {lines count : Nat}

theorem Cursor.down_eq (short : count ≤ lines) (stays : cursor.y < lines → cursor.y < count) :
    cursor.down lines = cursor.down count := by
  have same : cursor.y < lines ↔ cursor.y < count :=
    ⟨stays, fun below => Nat.lt_of_lt_of_le below short⟩
  unfold down
  rw [if_congr same rfl rfl]

theorem Cursor.pgdn_eq (short : count ≤ lines) (inside : cursor.y ≤ count)
    (stays : cursor.y < lines → min (cursor.y + 24) lines ≤ count) :
    cursor.pgdn lines = cursor.pgdn count := by
  have same : (if cursor.y < lines then min (cursor.y + 24) lines else cursor.y) =
      if cursor.y < count then min (cursor.y + 24) count else cursor.y := by
    grind
  have offset : cursor.y0 + 24 ≤
      (if cursor.y < count then min (cursor.y + 24) count else cursor.y) →
        min (cursor.y0 + 24) lines = min (cursor.y0 + 24) count := by
    grind
  unfold pgdn
  dsimp only
  rw [same]
  generalize (if cursor.y < count then min (cursor.y + 24) count else cursor.y) = y
    at offset ⊢
  congr 1
  split_ifs with below
  · exact offset below
  · rfl

end

/-- The line of the cursor is empty, or the sentinel is and its length is zero. -/
def Session.EmptyRow (session : Session) : Prop :=
  ∃ node, line session.nodes session.cursor.y (some 0) = .ok (some node) ∧
    (session.nodes node).len = 0

/-- The columns are those of an `int`, and the next one is. -/
def Cursor.HasRight (cursor : Cursor) : Prop :=
  cursor.x + 1 < 2147483648 ∧ cursor.x0 + 80 < 2147483648

/-- The session and the text that it is of. -/
structure Desk where
  session : Session
  page : Page

namespace Desk

/-- A move stays among the lines, an edit has a node and the neighbours that it stores
links to, and a row behind the last line is not read unless it has the length zero. -/
def Allows (desk : Desk) : Key → Prop
  | .move .down =>
    desk.session.cursor.y < desk.session.lines → desk.session.cursor.y < desk.page.text.length
  | .move .pgdn =>
    desk.session.cursor.y < desk.session.lines →
      min (desk.session.cursor.y + 24) desk.session.lines ≤ desk.page.text.length
  | .move .pgup =>
    desk.session.cursor.y ≠ 0 → desk.session.cursor.y0 - 24 ≤ desk.page.text.length
  | .move .right => desk.session.cursor.HasRight
  | .move .toEnd =>
    desk.session.cursor.y < desk.page.text.length ∨ desk.session.EmptyRow
  | .move _ => True
  | .enter =>
    desk.session.cursor.y < desk.page.text.length ∧ desk.session.lines + 1 < maxLines
  | .backspace =>
    (0 < desk.session.cursor.x ∧ desk.session.EmptyRow) ∨
      (desk.session.cursor.y < desk.page.text.length ∧ desk.session.lines + 1 < maxLines ∧
        if desk.session.cursor.x = 0 then
          2 ≤ desk.session.cursor.y ∧ desk.session.cursor.x0 + 80 < 2147483648
        else 1 ≤ desk.session.cursor.y)

/-- An allowed key is pressed, and comes back. -/
def AllowedStep (desk desk' : Desk) : Prop := ∃ key session', desk.Allows key ∧
    desk.session.edt_get_user_input key = .ok session' ∧
    desk' = ⟨session', desk.page.press key⟩

/-- The nodes and the cursor are those of the text, which an `int` counts. -/
structure Kept (desk : Desk) : Prop where
  shows : desk.session.Shows desk.page.text
  cursor : desk.session.cursor = desk.page.cursor
  inside : desk.page.cursor.Inside desk.page.text.length
  small : desk.page.text.flatten.length < 2147483648

end Desk

namespace Session

variable {session : Session} {text : List (List UInt8)}

theorem Shows.length_le (shows : session.Shows text) : text.length ≤ session.lines := by
  obtain ⟨rows, sentinel, lists, allocated⟩ := shows
  have subset : rows ++ [sentinel] ⊆ List.range (session.lines + 1) := by
    intro node member
    exact List.mem_range.mpr (Nat.lt_succ_of_le (allocated node member))
  have short := (List.subperm_of_subset lists.nodup subset).length_le
  rw [List.length_append, List.length_range, lists.length_eq] at short
  exact Nat.le_of_succ_le_succ short

theorem Shows.exists_row (shows : session.Shows text) (inside : session.cursor.y ≤ text.length) :
    ∃ node, line session.nodes session.cursor.y (some 0) = .ok (some node) ∧
      node < maxLines ∧ ∀ inside : session.cursor.y < text.length,
        session.nodes.Holds node text[session.cursor.y] := by
  obtain ⟨rows, sentinel, lists, -⟩ := shows
  have lengths := lists.length_eq
  have holds := List.forall₂_drop session.cursor.y lists.holds
  have allInside := lists.inside
  rw [← List.take_append_drop session.cursor.y rows] at lists allInside
  have line_eq := lists.line_eq
  rw [List.length_take_of_le (by omega)] at line_eq
  generalize rest : rows.drop session.cursor.y = back at *
  cases back with
  | nil =>
    have long := List.drop_eq_nil_iff.mp rest
    exact ⟨sentinel, line_eq, allInside _ (by simp), fun inside => by omega⟩
  | cons node back =>
    refine ⟨node, line_eq, allInside _ (by simp), fun inside => ?_⟩
    rw [List.drop_eq_getElem_cons inside] at holds
    exact (List.forall₂_cons.mp holds).1

end Session

theorem Page.length_row_le (page : Page) :
    page.row.length ≤ page.text.flatten.length := by
  rw [row, List.getD_eq_getElem?_getD]
  cases found : page.text[page.cursor.y]? with
  | none => exact Nat.zero_le _
  | some str =>
    exact (List.sublist_flatten_of_mem (List.mem_of_getElem? found)).length_le

namespace Desk

variable {desk : Desk}

section

variable (kept : desk.Kept)

include kept

theorem Kept.cursorInside :
    desk.session.cursor.Inside desk.page.text.length :=
  kept.cursor ▸ kept.inside

theorem Kept.exists_row :
    ∃ node, line desk.session.nodes desk.session.cursor.y (some 0) = .ok (some node) ∧
      node < maxLines ∧
      (desk.session.cursor.y < desk.page.text.length ∨ desk.session.EmptyRow →
        (desk.session.nodes node).len = desk.page.row.length) := by
  have inside := kept.cursorInside.row
  obtain ⟨node, row, below, holds⟩ := kept.shows.exists_row inside
  refine ⟨node, row, below, fun known => ?_⟩
  rw [Page.row, ← kept.cursor, List.getD_eq_getElem?_getD]
  by_cases here : desk.session.cursor.y < desk.page.text.length
  · rw [List.getElem?_eq_getElem here]
    exact (holds here).2
  · obtain ⟨other, row', empty⟩ := known.resolve_left here
    rw [row] at row'
    cases row'
    rw [List.getElem?_eq_none (Nat.le_of_not_lt here), empty]
    rfl

theorem Kept.move_eq {move : Move} (allowed : desk.Allows (.move move)) :
    desk.session.move move = .ok { desk.session with
          cursor :=
            desk.session.cursor.move desk.page.text.length desk.page.row.length move } := by
  have short := kept.shows.length_le
  have inside := kept.cursorInside
  cases move with
  | down => rw [Session.move, Cursor.down_eq short allowed, Cursor.move]
  | up => rfl
  | right =>
    have column := inside.column
    have offset := inside.offset
    have next : addInt desk.session.cursor.x 1 = .ok (desk.session.cursor.x + 1) :=
      if_pos ⟨by omega, allowed.1⟩
    have edge : addInt desk.session.cursor.x0 80 = .ok (desk.session.cursor.x0 + 80) :=
      if_pos ⟨by omega, allowed.2⟩
    rw [Session.move, next, bind_ok, edge, bind_ok]
    rfl
  | left => rfl
  | pgdn => rw [Session.move, Cursor.pgdn_eq short inside.row allowed, Cursor.move]
  | pgup => rfl
  | home => rfl
  | toEnd =>
    obtain ⟨node, row, below, length⟩ := kept.exists_row
    have small := kept.small
    have bound := desk.page.length_row_le
    have edge : addInt desk.page.row.length (-80) =
        .ok ((desk.page.row.length : Int) + -80) := if_pos (by omega)
    rw [Session.move, row, bind_ok, Nodes.read_of_lt below, bind_ok, length allowed,
      edge, bind_ok, Cursor.move]
  | del => rfl

theorem Kept.move {move : Move} (allowed : desk.Allows (.move move)) :
    ∃ session', desk.session.move move = .ok session' ∧
      Kept ⟨session', desk.page.press (.move move)⟩ := by
  refine ⟨_, kept.move_eq allowed, kept.shows, ?_, ?_, kept.small⟩
  · change desk.session.cursor.move _ _ _ = desk.page.cursor.move _ _ _
    rw [kept.cursor]
  · refine kept.inside.move _ move ?_
    rintro rfl
    rw [← kept.cursor]
    exact allowed

theorem Kept.exists_parts (inside : desk.session.cursor.y < desk.page.text.length) :
    ∃ front str after, desk.page.text = front ++ str :: after ∧
      desk.session.cursor.y = front.length ∧ desk.page.row = str := by
  refine ⟨desk.page.text.take desk.session.cursor.y, desk.page.text[desk.session.cursor.y],
    desk.page.text.drop (desk.session.cursor.y + 1), ?_, ?_, ?_⟩
  · rw [← List.drop_eq_getElem_cons inside, List.take_append_drop]
  · rw [List.length_take_of_le inside.le]
  · rw [Page.row, ← kept.cursor, List.getD_eq_getElem?_getD, List.getElem?_eq_getElem inside]
    rfl

theorem Kept.enter (allowed : desk.Allows .enter) :
    ∃ session', desk.session.enter = .ok session' ∧ Kept ⟨session', desk.page.enter⟩ := by
  obtain ⟨inside, room⟩ := allowed
  obtain ⟨front, str, after, text, row, -⟩ := kept.exists_parts inside
  have shows := kept.shows
  rw [text] at shows
  obtain ⟨session', entered, cursor, shows'⟩ := shows.enter row kept.cursorInside.column room
  have text' := Page.enter_text text (kept.cursor ▸ row)
  rw [← kept.cursor] at text'
  refine ⟨session', entered, ?_, ?_, ?_, ?_⟩
  · rw [text']
    exact shows'
  · rw [cursor, kept.cursor]
    rfl
  · have inside := kept.inside.broken
    have length_eq : desk.page.enter.text.length = desk.page.text.length + 1 := by
      rw [text', text]
      simp only [List.length_append, List.length_cons]
      omega
    rw [length_eq]
    exact inside
  · have small := kept.small
    rw [text'] 
    rw [text] at small
    simp only [List.flatten_append, List.flatten_cons, List.length_append,
      List.length_take, List.length_drop] at small ⊢
    omega

theorem Kept.backspace_empty (start : 0 < desk.session.cursor.x) (empty : desk.session.EmptyRow) :
    ∃ session', desk.session.backspace = .ok session' ∧
      Kept ⟨session', desk.page.backspace⟩ := by
  obtain ⟨node, row, below, length⟩ := kept.exists_row
  have none : desk.page.row = [] := by
    obtain ⟨other, row', none⟩ := id empty
    rw [row] at row'
    cases row'
    have := length (.inr empty)
    exact List.length_eq_zero_iff.mp (by omega)
  have known := length (.inr empty)
  rw [none, List.length_nil, Nat.cast_zero] at known
  have condition : min desk.session.cursor.x (0 : Int) = 0 ∧ desk.session.cursor.x ≠ 0 := by
    omega
  have page : desk.page.backspace =
      { desk.page with cursor := { desk.page.cursor with x := 0 } } := by
    rw [Page.backspace, ← kept.cursor, if_neg condition.2, if_pos none]
  refine ⟨{ desk.session with cursor := { desk.session.cursor with x := 0 } }, ?_, ?_⟩
  · rw [Session.backspace, row, bind_ok, Nodes.read_of_lt below, bind_ok, known, if_pos condition]
  · rw [page]
    have inside := kept.inside
    refine ⟨kept.shows, ?_, ⟨inside.row, Int.le_refl 0, inside.offset⟩, kept.small⟩
    rw [kept.cursor]

theorem Kept.join (room : desk.session.lines + 1 < maxLines)
    (inside : desk.session.cursor.y < desk.page.text.length)
    (far : 2 ≤ desk.session.cursor.y)
    (edge : desk.session.cursor.x0 + 80 < 2147483648) :
    ∃ session', desk.session.join (some (desk.session.lines + 1)) = .ok session' ∧
      Kept ⟨session', desk.page.join⟩ := by
  obtain ⟨front, str, after, text, row, -⟩ := kept.exists_parts inside
  obtain rfl | ⟨front, prevStr, rfl⟩ := List.eq_nil_or_concat front
  · rw [row] at far
    cases far
  obtain rfl | ⟨front, before, rfl⟩ := List.eq_nil_or_concat front
  · rw [row] at far
    simp at far
  simp only [List.concat_eq_append, List.append_assoc, List.cons_append, List.nil_append,
    List.length_append, List.length_cons, List.length_nil] at text row
  have shows := kept.shows
  have small := kept.small
  rw [text] at shows small
  have lengths : prevStr.length + str.length < 2147483648 := by
    simp only [List.flatten_append, List.flatten_cons, List.length_append] at small
    omega
  obtain ⟨session', joined, cursor, shows'⟩ :=
    shows.join row kept.cursorInside.offset edge lengths room
  have page : desk.page.join =
      { text := front ++ [before] ++ (prevStr ++ str) :: after
        cursor := desk.page.cursor.joined prevStr.length } := by
    refine Page.join_eq ?_ ?_
    · rw [text, List.append_assoc]
      rfl
    · rw [← kept.cursor, row, List.length_append]
      rfl
  refine ⟨session', joined, ?_, ?_, ?_, ?_⟩
  · rw [page, List.append_assoc]
    exact shows'
  · rw [page, cursor, kept.cursor]
  · rw [page]
    have shorter : desk.page.text.length =
        (front ++ [before] ++ (prevStr ++ str) :: after).length + 1 := by
      rw [text]
      simp only [List.length_append, List.length_cons, List.length_nil]
      omega
    have inside := kept.inside
    rw [shorter] at inside
    refine inside.joined ?_ _
    rw [← kept.cursor]
    omega
  · rw [page]
    simp only [List.flatten_append, List.flatten_cons, List.length_append,
      List.flatten_nil, List.length_nil] at small ⊢
    omega

theorem Kept.delete (room : desk.session.lines + 1 < maxLines)
    (inside : desk.session.cursor.y < desk.page.text.length)
    (second : 1 ≤ desk.session.cursor.y) (start : 0 < desk.session.cursor.x)
    (filled : desk.page.row ≠ []) :
    ∃ session', desk.session.delete (some (desk.session.lines + 1)) = .ok session' ∧
      Kept ⟨session', desk.page.delete⟩ := by
  obtain ⟨front, str, after, text, row, rfl⟩ := kept.exists_parts inside
  obtain rfl | ⟨front, before, rfl⟩ := List.eq_nil_or_concat front
  · rw [row] at second
    cases second
  have text' := Page.delete_text text (kept.cursor ▸ row)
  simp only [List.concat_eq_append, List.append_assoc, List.cons_append, List.nil_append,
    List.length_append, List.length_cons, List.length_nil] at text text' row
  have shows := kept.shows
  have small := kept.small
  rw [text] at shows small
  obtain ⟨session', deleted, cursor, shows'⟩ := shows.delete row start filled room
  rw [← kept.cursor] at text'
  refine ⟨session', deleted, ?_, ?_, ?_, ?_⟩
  · rw [text']
    exact shows'
  · rw [cursor, kept.cursor]
    rfl
  · have same : desk.page.delete.text.length = desk.page.text.length := by
      rw [text', text]
      simp only [List.length_append, List.length_cons]
    rw [same]
    exact kept.inside.left
  · rw [text']
    have shorter := List.length_eraseIdx_le desk.page.row
      (min desk.session.cursor.x.toNat desk.page.row.length - 1)
    simp only [List.flatten_append, List.flatten_cons, List.length_append] at small ⊢
    omega

theorem Kept.backspace (allowed : desk.Allows .backspace) :
    ∃ session', desk.session.backspace = .ok session' ∧
      Kept ⟨session', desk.page.backspace⟩ := by
  obtain ⟨start, empty⟩ | ⟨inside, room, neighbours⟩ := allowed
  · exact kept.backspace_empty start empty
  obtain ⟨node, line_eq, below, length⟩ := kept.exists_row
  have known := length (.inl inside)
  have column := kept.cursorInside.column
  by_cases first : desk.session.cursor.x = 0
  · rw [if_pos first] at neighbours
    have joins : desk.session.backspace =
        desk.session.join (some (desk.session.lines + 1)) := by
      rw [Session.backspace, line_eq, bind_ok, Nodes.read_of_lt below, bind_ok,
        if_neg fun both => both.2 first, if_pos first]
    rw [joins, Page.backspace, ← kept.cursor, if_pos first]
    exact kept.join room inside neighbours.1 neighbours.2
  · rw [if_neg first] at neighbours
    have start : 0 < desk.session.cursor.x := by omega
    by_cases filled : desk.page.row = []
    · rw [filled] at known
      exact kept.backspace_empty start ⟨node, line_eq, known⟩
    have positive := List.length_pos_iff.mpr filled
    have deletes : desk.session.backspace =
        desk.session.delete (some (desk.session.lines + 1)) := by
      rw [Session.backspace, line_eq, bind_ok, Nodes.read_of_lt below, bind_ok, known,
        if_neg (by omega), if_neg first]
    rw [deletes, Page.backspace, ← kept.cursor, if_neg first, if_neg filled]
    exact kept.delete room inside neighbours start filled

theorem Kept.pressed {key : Key} (allowed : desk.Allows key) :
    ∃ session', desk.session.edt_get_user_input key = .ok session' ∧
      Kept ⟨session', desk.page.press key⟩ := by
  cases key with
  | move move => exact kept.move allowed
  | enter => exact kept.enter allowed
  | backspace => exact kept.backspace allowed

theorem Kept.step {desk' : Desk} (step : desk.AllowedStep desk') :
    desk'.Kept := by
  obtain ⟨key, session', allowed, pressed, rfl⟩ := step
  obtain ⟨_, pressed', kept'⟩ := kept.pressed allowed
  rw [pressed] at pressed'
  cases pressed'
  exact kept'

end

end Desk

end OsFree.Editor
