import Mathlib.Data.List.Forall2
import Mathlib.Logic.Function.Basic
import OsFree.Machine.LinkedList
import OsFree.Machine.Word

/-!
# The lines of the configuration editor

The editor keeps the lines of a text in the nodes of an array, which are linked both
ways.  A string that is stored for a line is never written again, so a node has it as
a value.
-/

namespace OsFree.Editor

open Machine

/-- `struct line`, with the characters that `str` points to. -/
@[ext]
structure Line where
  str : List UInt8
  len : Int
  next : Pointer
  prev : Pointer

/-- `MAX_LINES`. -/
def maxLines : Nat := 8192

/-- The nodes from `string_list` on. -/
abbrev Nodes := Nat → Line

/-- The characters that `memmove` copies from the string of a line. -/
def Line.copy (line : Line) (start count : Int) : Run (List UInt8) :=
  if 0 ≤ start ∧ 0 ≤ count ∧ start + count ≤ line.str.length then
    .ok ((line.str.drop start.toNat).take count.toNat)
  else .error .readOutside

namespace Nodes

/-- Read the node that a pointer leads to. -/
def read (nodes : Nodes) : Pointer → Run Line
  | none => .error .nullPointer
  | some node => if node < maxLines then .ok (nodes node) else .error .readOutside

/-- Change the node that a pointer leads to. -/
def write (nodes : Nodes) (pointer : Pointer) (f : Line → Line) : Run Nodes :=
  match pointer with
  | none => .error .nullPointer
  | some node =>
    if node < maxLines then .ok (Function.update nodes node (f (nodes node)))
    else .error .writeOutside

end Nodes

/-- `line`, from a node of the list on. -/
def line (nodes : Nodes) : Nat → Pointer → Run Pointer
  | 0, s => .ok s
  | i + 1, s => do
      let node ← nodes.read s
      line nodes i node.next

/-- The characters at which a line ends. -/
def endsLine (c : UInt8) : Bool := c == 0 || c == 13 || c == 10

/-- What is behind a character, if it comes first. -/
def skip (c : UInt8) : List UInt8 → List UInt8
  | [] => []
  | first :: rest => if first = c then rest else first :: rest

/-- The first string of some bytes with zero bytes behind them. -/
def lineOf (bytes : List UInt8) : List UInt8 := bytes.takeWhile fun c => !endsLine c

/-- What is behind the first string and its line end. -/
def behindLine (bytes : List UInt8) : List UInt8 :=
  skip 0 (skip 10 (skip 13 (bytes.dropWhile fun c => !endsLine c)))

/-- `read_file`, from the line with the number `lines` on.  The bytes are those of the
text that are left, and some that are behind the text. -/
def read_file (behind : Nat) : Nat → Nodes → Nat → List UInt8 → Option (Run (Nodes × Nat))
  | 0, _, _, _ => none
  | fuel + 1, nodes, lines, bytes =>
    if behind < bytes.length then
      andThen (some (nodes.write (some lines) fun _ =>
          { str := lineOf bytes
            len := (lineOf bytes).length
            next := some (lines + 1)
            prev := if lines = 0 then none else some (lines - 1) }))
        fun nodes => read_file behind fuel nodes (lines + 1) (behindLine bytes)
    else some (.ok (nodes, lines))

/-- `save_file`, from a node on and behind what has been written. -/
def save_file (nodes : Nodes) : Nat → Pointer → List UInt8 → Option (Run (List UInt8))
  | 0, _, _ => none
  | fuel + 1, p, written =>
    andThen (some (nodes.read p)) fun node =>
      match node.next with
      | none => some (.ok written)
      | some next =>
        andThen (some (node.copy 0 node.len)) fun str =>
          save_file nodes fuel (some next) (written ++ str ++ [13, 10])

namespace Nodes

variable {nodes nodes' : Nodes} {node : Nat}

/-- A node with its links. -/
def Node (nodes : Nodes) (before : Pointer) (node : Nat) (next : Pointer) : Prop :=
  (nodes node).next = next ∧ (nodes node).prev = before

/-- A node with its string. -/
def Holds (nodes : Nodes) (node : Nat) (str : List UInt8) : Prop :=
  (nodes node).str = str ∧ (nodes node).len = str.length

/-- The nodes that are linked from the first one on are those of some lines of text,
and a sentinel that ends the list. -/
structure Lists (nodes : Nodes) (rows : List Nat) (sentinel : Nat)
    (text : List (List UInt8)) : Prop where
  linked : Linked nodes.Node none (some 0) (rows ++ [sentinel])
  holds : List.Forall₂ nodes.Holds rows text
  inside : ∀ node ∈ rows ++ [sentinel], node < maxLines

theorem read_of_lt (inside : node < maxLines) :
    nodes.read (some node) = .ok (nodes node) :=
  if_pos inside

theorem write_of_lt (inside : node < maxLines) (f : Line → Line) : nodes.write (some node) f =
      .ok (Function.update nodes node (f (nodes node))) :=
  if_pos inside

theorem node_functional (before before' : Pointer) (node : Nat)
    (next next' : Pointer) (here : nodes.Node before node next)
    (here' : nodes.Node before' node next') : next = next' :=
  here.1.symm.trans here'.1

theorem line_of_linked {before head last : Pointer} {front : List Nat}
    (linked : LinkedTo nodes.Node before head front last)
    (inside : ∀ node ∈ front, node < maxLines) :
    line nodes front.length head = .ok last := by
  induction front generalizing before head with
  | nil =>
    rw [show head = last from linked]
    rfl
  | cons node rest ih =>
    obtain ⟨rfl, next, ⟨rfl, -⟩, linked⟩ := linked
    obtain ⟨here, rest⟩ := List.forall_mem_cons.mp inside
    rw [List.length_cons, line, read_of_lt here, bind_ok]
    exact ih linked rest

theorem Holds.copy {str : List UInt8} (holds : nodes.Holds node str) {start count : Nat}
    (fits : start + count ≤ str.length) :
    (nodes node).copy start count = .ok ((str.drop start).take count) := by
  rw [Line.copy, holds.1, if_pos (by omega)]
  rfl

theorem save_of_linked {before head : Pointer} {rows : List Nat} {sentinel : Nat}
    {text : List (List UInt8)}
    (linked : Linked nodes.Node before head (rows ++ [sentinel]))
    (holds : List.Forall₂ nodes.Holds rows text)
    (inside : ∀ node ∈ rows ++ [sentinel], node < maxLines) (written : List UInt8) :
    Settles (fun fuel => save_file nodes fuel head written)
      (.ok (written ++ text.flatMap fun str => str ++ [13, 10])) := by
  induction holds generalizing before head written with
  | nil =>
    obtain ⟨rfl, next, ⟨rfl, -⟩, ended⟩ := linked
    have here := inside sentinel (List.mem_singleton_self sentinel)
    refine Settles.succ rfl (fun fuel => ?_) (.const _)
    rw [save_file, read_of_lt here, andThen]
    rw [show (nodes sentinel).next = none from ended, List.flatMap_nil, List.append_nil]
  | @cons node str rest strs same _ ih =>
    obtain ⟨rfl, next, ⟨rfl, -⟩, linked⟩ := linked
    obtain ⟨here, inside⟩ := List.forall_mem_cons.mp inside
    have following : ∃ next, (nodes node).next = some next := by
      cases rest with
      | nil => exact ⟨_, linked.1⟩
      | cons other rest => exact ⟨_, linked.1⟩
    obtain ⟨next, link⟩ := following
    have copied : (nodes node).copy 0 (nodes node).len = .ok str := by
      rw [same.2]
      refine (@Holds.copy _ _ _ same 0 str.length (by omega)).trans ?_
      rw [List.drop_zero, List.take_length]
    have goesOn := ih linked inside (written ++ str ++ [13, 10])
    rw [List.flatMap_cons, ← List.append_assoc, ← List.append_assoc]
    refine Settles.succ rfl (fun fuel => ?_) goesOn
    rw [save_file, read_of_lt here, andThen]
    simp only [link, copied, andThen]

namespace Lists

variable {rows : List Nat} {sentinel : Nat} {text : List (List UInt8)}

theorem length_eq (lists : nodes.Lists rows sentinel text) :
    rows.length = text.length :=
  lists.holds.length_eq

theorem nodup (lists : nodes.Lists rows sentinel text) :
    (rows ++ [sentinel]).Nodup :=
  Linked.nodup node_functional lists.linked

theorem save (lists : nodes.Lists rows sentinel text) :
    Settles (fun fuel => save_file nodes fuel (some 0) [])
      (.ok (text.flatMap fun str => str ++ [13, 10])) :=
  save_of_linked lists.linked lists.holds lists.inside []

end Lists

end Nodes

/-!
## The keys of the configuration editor

What `edt_get_user_input` does at each key, beside what the key means for the lines of
the text.
-/

/-- The column and the row of the cursor, and the first ones that are on the screen. -/
structure Cursor where
  x : Int
  y : Nat
  x0 : Int
  y0 : Nat
  deriving DecidableEq

/-- The keys that move the cursor, and the one that does nothing. -/
inductive Move where
  | down
  | up
  | right
  | left
  | pgdn
  | pgup
  | home
  | toEnd
  | del

/-- The keys of the editor. -/
inductive Key where
  | move (move : Move)
  | enter
  | backspace

namespace Cursor

variable (cursor : Cursor)

/-- A row down, if the number of lines is not reached. -/
def down (lines : Nat) : Cursor :=
  let y := if cursor.y < lines then cursor.y + 1 else cursor.y
  { cursor with y, y0 := if y = cursor.y0 + 24 then cursor.y0 + 1 else cursor.y0 }

/-- A row up. -/
def up : Cursor :=
  let y := cursor.y - 1
  { cursor with y, y0 := if y + 1 = cursor.y0 then cursor.y0 - 1 else cursor.y0 }

/-- A column to the right. -/
def right : Cursor :=
  let x := cursor.x + 1
  { cursor with x, x0 := if x = cursor.x0 + 80 then cursor.x0 + 1 else cursor.x0 }

/-- A column to the left. -/
def left : Cursor :=
  let x := if cursor.x ≠ 0 then cursor.x - 1 else cursor.x
  { cursor with x, x0 := if x = cursor.x0 - 1 then cursor.x0 - 1 else cursor.x0 }

/-- A page down. -/
def pgdn (lines : Nat) : Cursor :=
  let y := if cursor.y < lines then min (cursor.y + 24) lines else cursor.y
  { cursor with
    y, y0 := if cursor.y0 + 24 ≤ y then min (cursor.y0 + 24) lines else cursor.y0 }

/-- A page up. -/
def pgup : Cursor :=
  let y := if cursor.y ≠ 0 then cursor.y0 - 24 else cursor.y
  { cursor with y, y0 := if y < cursor.y0 then cursor.y0 - 24 else cursor.y0 }

/-- The start of a line. -/
def home : Cursor :=
  { cursor with x := 0, x0 := 0 }

/-- The end of a line of some length. -/
def toEnd (len : Int) : Cursor :=
  { cursor with x := len, x0 := max (len - 80 + 1) 0 }

/-- The line that a line break makes. -/
def broken : Cursor := { cursor with
    x := cursor.x0
    y := cursor.y + 1
    y0 := if cursor.y = cursor.y0 + 24 then cursor.y0 + 1 else cursor.y0 }

/-- The end of the line before, which has some length. -/
def joined (len : Int) : Cursor := up { cursor with
    x := len
    x0 := if cursor.x0 + 80 ≤ len then max (len - 80 + 1) 0 else cursor.x0 }

/-- What a move means in a text with some number of lines, on a row of some length. -/
def move (lines : Nat) (len : Int) : Move → Cursor
  | .down => cursor.down lines
  | .up => cursor.up
  | .right => cursor.right
  | .left => cursor.left
  | .pgdn => cursor.pgdn lines
  | .pgup => cursor.pgup
  | .home => cursor.home
  | .toEnd => cursor.toEnd len
  | .del => cursor

end Cursor

/-- The nodes, the number `lines`, which is also the index of the last one in use, and
the cursor. -/
structure Session where
  nodes : Nodes
  lines : Nat
  cursor : Cursor

namespace Nodes

/-- Put a node in the place of those from one to another. -/
def replace (nodes : Nodes) (prev_line mid_line next_line : Pointer) : Run Nodes := do
  let prev ← nodes.read prev_line
  let nodes ← nodes.write prev.prev ({ · with next := next_line })
  let prev ← nodes.read prev_line
  let nodes ← nodes.write next_line ({ · with prev := prev.prev })
  let mid ← nodes.read mid_line
  let nodes ← nodes.write next_line ({ · with next := mid.next })
  let mid ← nodes.read mid_line
  nodes.write mid.next ({ · with prev := next_line })

/-- Store the string of a line. -/
def setString (nodes : Nodes) (pointer : Pointer) (str : List UInt8) (len : Int) :
    Run Nodes :=
  nodes.write pointer ({ · with str, len })

end Nodes

namespace Session

variable (session : Session)

/-- The keys that move the cursor. -/
def move : Move → Run Session
  | .down => .ok { session with cursor := session.cursor.down session.lines }
  | .up => .ok { session with cursor := session.cursor.up }
  | .right => do
      let x ← addInt session.cursor.x 1
      let edge ← addInt session.cursor.x0 80
      let x0 := if x = edge then session.cursor.x0 + 1 else session.cursor.x0
      .ok { session with cursor := { session.cursor with x, x0 } }
  | .left => .ok { session with cursor := session.cursor.left }
  | .pgdn => .ok { session with cursor := session.cursor.pgdn session.lines }
  | .pgup => .ok { session with cursor := session.cursor.pgup }
  | .home => .ok { session with cursor := session.cursor.home }
  | .toEnd => do
      let row ← line session.nodes session.cursor.y (some 0)
      let row ← session.nodes.read row
      let _ ← addInt row.len (-80)
      .ok { session with cursor := session.cursor.toEnd row.len }
  | .del => .ok session

/-- The line break. -/
def enter : Run Session := do
  let prev_line ← line session.nodes session.cursor.y (some 0)
  let mid_line : Pointer := some (session.lines + 1)
  let prev ← session.nodes.read prev_line
  let next_line := prev.next
  let nodes ← session.nodes.write prev_line ({ · with next := mid_line })
  let nodes ← nodes.write mid_line ({ · with prev := prev_line })
  let nodes ← nodes.write mid_line ({ · with next := next_line })
  let nodes ← nodes.write next_line ({ · with prev := mid_line })
  let prev ← nodes.read prev_line
  let x1 := min session.cursor.x prev.len
  let tail ← prev.copy x1 (prev.len - x1)
  let head ← prev.copy 0 x1
  let nodes ← nodes.setString mid_line tail (prev.len - x1)
  let nodes ← nodes.setString prev_line head x1
  .ok { nodes, lines := session.lines + 1, cursor := session.cursor.broken }

/-- Join a line with the one before. -/
def join (next_line : Pointer) : Run Session := do
  let mid_line ← line session.nodes session.cursor.y (some 0)
  let mid ← session.nodes.read mid_line
  let prev_line := mid.prev
  let prev ← session.nodes.read prev_line
  let x := prev.len
  let _ ← addInt session.cursor.x0 80
  let nodes ← session.nodes.replace prev_line mid_line next_line
  let prev ← nodes.read prev_line
  let mid ← nodes.read mid_line
  let len ← addInt prev.len mid.len
  let head ← prev.copy 0 prev.len
  let tail ← mid.copy 0 mid.len
  let nodes ← nodes.setString next_line (head ++ tail) len
  .ok { nodes, lines := session.lines + 1, cursor := session.cursor.joined x }

/-- Delete the character before the cursor. -/
def delete (next_line : Pointer) : Run Session := do
  let prev_line ← line session.nodes session.cursor.y (some 0)
  let nodes ← session.nodes.replace prev_line prev_line next_line
  let prev ← nodes.read prev_line
  let x1 := min session.cursor.x prev.len
  let head ← prev.copy 0 (x1 - 1)
  let tail ← prev.copy x1 (prev.len - x1)
  let nodes ← nodes.setString next_line (head ++ tail) (prev.len - 1)
  .ok { nodes, lines := session.lines + 1, cursor := session.cursor.left }

/-- The backspace key. -/
def backspace : Run Session := do
  let next_line : Pointer := some (session.lines + 1)
  let mid_line ← line session.nodes session.cursor.y (some 0)
  let mid ← session.nodes.read mid_line
  if min session.cursor.x mid.len = 0 ∧ session.cursor.x ≠ 0 then
    .ok { session with cursor := { session.cursor with x := 0 } }
  else if session.cursor.x = 0 then session.join next_line
  else session.delete next_line

/-- `edt_get_user_input`, once a key is there. -/
def edt_get_user_input : Key → Run Session
  | .move move => session.move move
  | .enter => session.enter
  | .backspace => session.backspace

end Session

/-- `editor` until the first key.  The offsets of the screen are left from its last
call. -/
def editor (memory : Nodes) (text behind : List UInt8) (x0 : Int) (y0 : Nat)
    (fuel : Nat) : Option (Run Session) :=
  andThen (read_file behind.length fuel memory 0 (text ++ behind)) fun read =>
    some (.ok { nodes := read.1, lines := read.2, cursor := ⟨0, 0, x0, y0⟩ })

/-- The lines of a text and the cursor in it. -/
structure Page where
  text : List (List UInt8)
  cursor : Cursor

namespace Page

/-- Put some lines in the place of a number of lines from a row on. -/
def put (text : List (List UInt8)) (row count : Nat) (new : List (List UInt8)) :
    List (List UInt8) :=
  text.take row ++ new ++ text.drop (row + count)

variable (page : Page)

/-- The line that the cursor is on, which is empty behind the last one. -/
def row : List UInt8 := page.text.getD page.cursor.y []

/-- The character of the line that the cursor is at. -/
def column : Nat := min page.cursor.x.toNat page.row.length

/-- A line is broken at the cursor, or an empty one is put behind the last one. -/
def enter : Page where
  text :=
    if page.cursor.y < page.text.length then
      put page.text page.cursor.y 1 [page.row.take page.column, page.row.drop page.column]
    else page.text ++ [[]]
  cursor := page.cursor.broken

/-- The line of the cursor is put behind the one before it, if there is one. -/
def join : Page :=
  match page.cursor.y with
  | 0 => page
  | before + 1 =>
    { text := put page.text before 2 [page.text.getD before [] ++ page.row]
      cursor := page.cursor.joined (page.text.getD before []).length }

/-- The character before the cursor is deleted. -/
def delete : Page where
  text := put page.text page.cursor.y 1 [page.row.eraseIdx (page.column - 1)]
  cursor := page.cursor.left

/-- What is before the cursor is deleted. -/
def backspace : Page :=
  if page.cursor.x = 0 then page.join
  else if page.row = [] then { page with cursor := { page.cursor with x := 0 } }
  else page.delete

/-- What a key means. -/
def press : Key → Page
  | .move move =>
    { page with cursor := page.cursor.move page.text.length page.row.length move }
  | .enter => page.enter
  | .backspace => page.backspace

end Page

end OsFree.Editor
