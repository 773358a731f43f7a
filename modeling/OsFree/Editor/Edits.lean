import OsFree.Editor.Lines

/-!
# Edits of a linked list of lines

A node is linked behind another one, in the place of the nodes up to a third one, and
the strings of both are stored.
-/

namespace OsFree.Editor

open Machine

namespace Nodes

/-- The link of a node to the next one is stored. -/
def withNext (nodes : Nodes) (node : Nat) (next : Pointer) : Nodes := fun other =>
  { nodes other with next := if other = node then next else (nodes other).next }

/-- The link of a node to the previous one is stored. -/
def withPrev (nodes : Nodes) (node : Nat) (prev : Pointer) : Nodes := fun other =>
  { nodes other with prev := if other = node then prev else (nodes other).prev }

/-- A node is linked between two others. -/
def spliced (nodes : Nodes) (left node right : Nat) : Nodes :=
  (((nodes.withNext left (some node)).withPrev node (some left)).withNext node
    (some right)).withPrev right (some node)

/-- The string of a node is stored. -/
def withString (nodes : Nodes) (node : Nat) (str : List UInt8) : Nodes := fun other =>
  if other = node then { nodes other with str, len := str.length } else nodes other

variable {nodes nodes' : Nodes} {left node right : Nat}

variable {str : List UInt8} {front : List Nat} {sentinel : Nat} {text : List (List UInt8)}

theorem setString_of_lt (inside : node < maxLines) {len : Int} (same : len = str.length) :
    nodes.setString (some node) str len = .ok (nodes.withString node str) := by
  rw [setString, write_of_lt inside, same]
  congr 1
  funext other
  by_cases here : other = node
  · rw [here, Function.update_self, withString, if_pos rfl]
  · rw [Function.update_of_ne here, withString, if_neg here]

@[simp] theorem next_withString (str : List UInt8) (other : Nat) :
    (nodes.withString node str other).next = (nodes other).next := by
  unfold withString
  split
  · rfl
  · rfl

@[simp] theorem prev_withString (str : List UInt8) (other : Nat) :
    (nodes.withString node str other).prev = (nodes other).prev := by
  unfold withString
  split
  · rfl
  · rfl

theorem holds_withString_self (str : List UInt8) :
    (nodes.withString node str).Holds node str := by
  simp [withString, Holds]

theorem Holds.withString_of_ne {other : Nat}
    (holds : nodes.Holds other str) (different : other ≠ node) (new : List UInt8) :
    (nodes.withString node new).Holds other str := by
  rw [Holds, withString, if_neg different]
  exact holds

theorem Holds.spliced {other : Nat} (holds : nodes.Holds other str) :
    (nodes.spliced left node right).Holds other str :=
  holds

theorem write_next (inside : node < maxLines) (next : Pointer) :
    nodes.write (some node) ({ · with next }) = .ok (nodes.withNext node next) := by
  rw [write_of_lt inside]
  congr 1
  funext other
  by_cases here : other = node
  · rw [here, Function.update_self, withNext, if_pos rfl]
  · rw [Function.update_of_ne here, withNext, if_neg here]

theorem write_prev (inside : node < maxLines) (prev : Pointer) :
    nodes.write (some node) ({ · with prev }) = .ok (nodes.withPrev node prev) := by
  rw [write_of_lt inside]
  congr 1
  funext other
  by_cases here : other = node
  · rw [here, Function.update_self, withPrev, if_pos rfl]
  · rw [Function.update_of_ne here, withPrev, if_neg here]

@[simp] theorem next_withNext (next : Pointer) (other : Nat) :
    (nodes.withNext node next other).next =
      if other = node then next else (nodes other).next := rfl

@[simp] theorem prev_withNext (next : Pointer) (other : Nat) :
    (nodes.withNext node next other).prev = (nodes other).prev := rfl

@[simp] theorem next_withPrev (prev : Pointer) (other : Nat) :
    (nodes.withPrev node prev other).next = (nodes other).next := rfl

@[simp] theorem prev_withPrev (prev : Pointer) (other : Nat) :
    (nodes.withPrev node prev other).prev =
      if other = node then prev else (nodes other).prev := rfl

theorem spliced_eq : (((nodes.withNext left (some node)).withPrev node (some left)).withNext node
      (some right)).withPrev right (some node) = nodes.spliced left node right := rfl

theorem next_spliced (other : Nat) : (nodes.spliced left node right other).next =
      if other = node then some right
      else if other = left then some node else (nodes other).next := rfl

theorem prev_spliced (other : Nat) : (nodes.spliced left node right other).prev =
      if other = right then some node
      else if other = node then some left else (nodes other).prev := rfl

theorem replace_eq {first last : Nat} (leftInside : left < maxLines)
    (nodeInside : node < maxLines) (rightInside : right < maxLines)
    (firstInside : first < maxLines) (lastInside : last < maxLines)
    (notLast : last ≠ node) (lastLeft : last ≠ left)
    (before : (nodes first).prev = some left)
    (behind : (nodes last).next = some right) :
    nodes.replace (some first) (some last) (some node) =
      .ok (nodes.spliced left node right) := by
  simp only [replace, read_of_lt firstInside, read_of_lt lastInside, bind_ok, before,
    write_next leftInside, write_next nodeInside, write_prev nodeInside,
    write_prev rightInside, prev_withNext, next_withPrev, next_withNext, behind,
    if_neg notLast, if_neg lastLeft, spliced_eq]

theorem Lists.splice_linked {middles after : List Nat}
    (lists : nodes.Lists (front ++ left :: (middles ++ after)) sentinel text)
    (fresh : node ∉ front ++ left :: (middles ++ after) ++ [sentinel])
    (first : (after ++ [sentinel]).head? = some right) :
    Linked (nodes.spliced left node right).Node none (some 0)
      (front ++ left :: node :: after ++ [sentinel]) := by
  obtain ⟨rest, behind⟩ := List.head?_eq_some_iff.mp first
  have linked := lists.linked
  have nodup := lists.nodup
  simp only [List.append_assoc, List.cons_append, behind] at linked nodup fresh ⊢
  have leftNode : left ≠ node := by grind
  have leftRight : left ≠ right := by grind
  have nodeRight : node ≠ right := by grind
  have others : ∀ other, other ∈ front ∨ other ∈ rest →
      other ≠ left ∧ other ≠ node ∧ other ≠ right := by grind
  refine linked.splice ?_ ?_ ?_ ?_
  · rintro before other next member ⟨rfl, rfl⟩
    obtain ⟨notLeft, notNode, notRight⟩ := others other member
    constructor
    · rw [next_spliced, if_neg notNode, if_neg notLeft]
    · rw [prev_spliced, if_neg notRight, if_neg notNode]
  · rintro before next ⟨rfl, rfl⟩
    constructor
    · rw [next_spliced, if_neg leftNode, if_pos rfl]
    · rw [prev_spliced, if_neg leftRight, if_neg leftNode]
  · constructor
    · rw [next_spliced, if_pos rfl]
    · rw [prev_spliced, if_neg nodeRight, if_pos rfl]
  · rintro before next ⟨rfl, rfl⟩
    constructor
    · rw [next_spliced, if_neg nodeRight.symm, if_neg leftRight.symm]
    · rw [prev_spliced, if_pos rfl]

theorem Lists.exists_append {rows : List Nat} {front back : List (List UInt8)}
    (lists : nodes.Lists rows sentinel (front ++ back)) :
    ∃ frontRows backRows, rows = frontRows ++ backRows ∧ List.Forall₂ nodes.Holds frontRows front ∧
      List.Forall₂ nodes.Holds backRows back :=
  ⟨rows.take front.length, rows.drop front.length, (List.take_append_drop ..).symm,
    List.forall₂_take_append _ _ _ lists.holds,
    List.forall₂_drop_append _ _ _ lists.holds⟩

theorem Lists.splice {middles after : List Nat}
    {frontText afterText : List (List UInt8)} {new : List UInt8}
    (lists : nodes.Lists (front ++ left :: (middles ++ after)) sentinel text)
    (fresh : node ∉ front ++ left :: (middles ++ after) ++ [sentinel])
    (inside : node < maxLines)
    (first : (after ++ [sentinel]).head? = some right)
    (frontHolds : List.Forall₂ nodes.Holds front frontText)
    (afterHolds : List.Forall₂ nodes.Holds after afterText)
    (links : ∀ before other next, (nodes.spliced left node right).Node before other next →
        nodes'.Node before other next)
    (strings : ∀ other str, other ≠ left → other ≠ node → nodes.Holds other str →
      nodes'.Holds other str)
    (leftHolds : nodes'.Holds left str) (nodeHolds : nodes'.Holds node new) :
    nodes'.Lists (front ++ left :: node :: after) sentinel
      (frontText ++ str :: new :: afterText) where
  linked := (lists.splice_linked fresh first).mono
    fun before other next _ => links before other next
  holds := by
    have nodup := lists.nodup
    have kept : ∀ (part : List Nat) (text : List (List UInt8)),
        (∀ other ∈ part, other ≠ left ∧ other ≠ node) →
        List.Forall₂ nodes.Holds part text → List.Forall₂ nodes'.Holds part text := by
      intro part text apart holds
      induction holds with
      | nil => exact .nil
      | cons here _ ih =>
        obtain ⟨different, apart⟩ := List.forall_mem_cons.mp apart
        exact .cons (strings _ _ different.1 different.2 here) (ih apart)
    have frontApart : ∀ other ∈ front, other ≠ left ∧ other ≠ node := by grind
    have afterApart : ∀ other ∈ after, other ≠ left ∧ other ≠ node := by grind
    exact List.rel_append (kept _ _ frontApart frontHolds)
      (.cons leftHolds (.cons nodeHolds (kept _ _ afterApart afterHolds)))
  inside := by
    intro other member
    by_cases new : other = node
    · exact new ▸ inside
    · exact lists.inside other (by grind)

theorem Lists.line_eq {back : List Nat} (lists : nodes.Lists (front ++ back) sentinel text) :
    line nodes front.length (some 0) = .ok (back ++ [sentinel]).head? := by
  have linked := lists.linked
  rw [List.append_assoc] at linked
  obtain ⟨middle, first, second⟩ := LinkedTo.append_iff.mp linked
  rw [← Linked.head_eq second]
  refine line_of_linked first fun other member => lists.inside other ?_
  simp [member]

theorem links_of_linked {before head : Pointer} {rest : List Nat}
    (linked : Linked nodes.Node before head (front ++ left :: right :: rest)) :
    (nodes left).next = some right ∧ (nodes right).prev = some left := by
  obtain ⟨middle, -, -, next, here, linked⟩ := LinkedTo.append_iff.mp linked
  obtain ⟨rfl, next', there, -⟩ := linked
  exact ⟨here.1, there.2⟩

end Nodes

namespace Session

/-- The character of a line that the cursor is at. -/
def column (session : Session) (str : List UInt8) : Nat := min session.cursor.x.toNat str.length

variable {session : Session} {left node right : Nat} {str : List UInt8}

theorem min_eq_column (start : 0 ≤ session.cursor.x) (str : List UInt8) :
    min session.cursor.x (str.length : Int) = session.column str := by
  rw [column]
  omega

theorem column_le_length (session : Session) (str : List UInt8) :
    session.column str ≤ str.length :=
  Nat.min_le_right ..

theorem enter_eq (start : 0 ≤ session.cursor.x)
    (row : line session.nodes session.cursor.y (some 0) = .ok (some left))
    (link : (session.nodes left).next = some right)
    (holds : session.nodes.Holds left str) (leftInside : left < maxLines)
    (rightInside : right < maxLines) (room : session.lines + 1 < maxLines) :
    session.enter = .ok
        { nodes :=
            ((session.nodes.spliced left (session.lines + 1) right).withString
              (session.lines + 1) (str.drop (session.column str))).withString left
                (str.take (session.column str))
          lines := session.lines + 1
          cursor := session.cursor.broken } := by
  have fits := session.column_le_length str
  have stored : (session.nodes.spliced left (session.lines + 1) right).Holds left str :=
    holds.spliced
  have behind : (str.length : Int) - session.column str =
      (str.length - session.column str : Nat) := by
    omega
  have tail := @Nodes.Holds.copy _ _ _ stored (session.column str)
    (str.length - session.column str) (by omega)
  have head := @Nodes.Holds.copy _ _ _ stored 0 (session.column str) (by omega)
  rw [← List.length_drop, List.take_length] at tail
  rw [List.length_drop] at tail
  have tailLength : ((str.length - session.column str : Nat) : Int) =
      (str.drop (session.column str)).length := by
    rw [List.length_drop]
  have headLength : (session.column str : Int) =
      (str.take (session.column str)).length := by
    rw [List.length_take_of_le fits]
  rw [Nat.cast_zero, List.drop_zero] at head
  simp only [enter, row, bind_ok, Nodes.read_of_lt leftInside, link,
    Nodes.write_next leftInside, Nodes.write_prev room, Nodes.write_next room,
    Nodes.write_prev rightInside, Nodes.spliced_eq, stored.2, min_eq_column start, behind,
    tail, head, Nodes.setString_of_lt room tailLength,
    Nodes.setString_of_lt leftInside headLength]

theorem delete_eq {mid : Nat} (start : 0 < session.cursor.x) (filled : str ≠ [])
    (row : line session.nodes session.cursor.y (some 0) = .ok (some mid))
    (before : (session.nodes mid).prev = some left)
    (behind : (session.nodes mid).next = some right)
    (holds : session.nodes.Holds mid str) (leftInside : left < maxLines)
    (midInside : mid < maxLines) (rightInside : right < maxLines)
    (room : session.lines + 1 < maxLines) (fresh : mid ≠ session.lines + 1)
    (apart : mid ≠ left) :
    session.delete (some (session.lines + 1)) = .ok
        { nodes :=
            (session.nodes.spliced left (session.lines + 1) right).withString
              (session.lines + 1) (str.eraseIdx (session.column str - 1))
          lines := session.lines + 1
          cursor := session.cursor.left } := by
  have fits := session.column_le_length str
  have positive : 0 < str.length := List.length_pos_iff.mpr filled
  have some_column : 0 < session.column str := by
    rw [column]
    omega
  have stored : (session.nodes.spliced left (session.lines + 1) right).Holds mid str :=
    holds.spliced
  have rest : (str.length : Int) - session.column str =
      (str.length - session.column str : Nat) := by
    omega
  have first : (session.column str : Int) - 1 = (session.column str - 1 : Nat) := by
    omega
  have tail := @Nodes.Holds.copy _ _ _ stored (session.column str)
    (str.length - session.column str) (by omega)
  have head := @Nodes.Holds.copy _ _ _ stored 0 (session.column str - 1) (by omega)
  rw [← List.length_drop, List.take_length, List.length_drop] at tail
  rw [Nat.cast_zero, List.drop_zero] at head
  have erased : str.take (session.column str - 1) ++ str.drop (session.column str) =
      str.eraseIdx (session.column str - 1) := by
    rw [List.eraseIdx_eq_take_drop_succ, Nat.sub_add_cancel some_column]
  have length_eq : (str.length : Int) - 1 =
      (str.eraseIdx (session.column str - 1)).length := by
    rw [List.length_eraseIdx_of_lt (by omega)]
    omega
  simp only [delete, row, bind_ok,
    Nodes.replace_eq leftInside room rightInside midInside midInside fresh apart before behind,
    Nodes.read_of_lt midInside, stored.2, min_eq_column (Int.le_of_lt start), rest, first,
    tail, head, erased, Nodes.setString_of_lt room length_eq]

theorem join_eq {prev mid : Nat} {prevStr : List UInt8}
    (row : line session.nodes session.cursor.y (some 0) = .ok (some mid))
    (above : (session.nodes mid).prev = some prev)
    (before : (session.nodes prev).prev = some left)
    (behind : (session.nodes mid).next = some right)
    (prevHolds : session.nodes.Holds prev prevStr) (holds : session.nodes.Holds mid str)
    (leftInside : left < maxLines) (prevInside : prev < maxLines)
    (midInside : mid < maxLines) (rightInside : right < maxLines)
    (room : session.lines + 1 < maxLines) (fresh : mid ≠ session.lines + 1)
    (apart : mid ≠ left) (start : 0 ≤ session.cursor.x0)
    (edge : session.cursor.x0 + 80 < 2147483648)
    (small : prevStr.length + str.length < 2147483648) :
    session.join (some (session.lines + 1)) = .ok
        { nodes :=
            (session.nodes.spliced left (session.lines + 1) right).withString
              (session.lines + 1) (prevStr ++ str)
          lines := session.lines + 1
          cursor := session.cursor.joined prevStr.length } := by
  have prevStored :
      (session.nodes.spliced left (session.lines + 1) right).Holds prev prevStr :=
    prevHolds.spliced
  have stored : (session.nodes.spliced left (session.lines + 1) right).Holds mid str :=
    holds.spliced
  have head := @Nodes.Holds.copy _ _ _ prevStored 0 prevStr.length (by omega)
  have tail := @Nodes.Holds.copy _ _ _ stored 0 str.length (by omega)
  rw [Nat.cast_zero, List.drop_zero, List.take_length] at head tail
  have edge_eq : addInt session.cursor.x0 80 = .ok (session.cursor.x0 + 80) := if_pos (by omega)
  have sum_eq : addInt prevStr.length str.length =
      .ok ((prevStr.length : Int) + str.length) := if_pos (by omega)
  have length_eq : (prevStr.length : Int) + str.length = (prevStr ++ str).length := by
    rw [List.length_append, Nat.cast_add]
  simp only [join, row, bind_ok, Nodes.read_of_lt midInside, above,
    Nodes.read_of_lt prevInside, edge_eq,
    Nodes.replace_eq leftInside room rightInside prevInside midInside fresh apart before behind,
    prevStored.2, stored.2, prevHolds.2, sum_eq, head, tail,
    Nodes.setString_of_lt room length_eq]

end Session

/-!
## Edits of the lines of a text

An edit of the nodes is the edit that the key means of the lines of the text.
-/

namespace Page

theorem put_append (front old after new : List (List UInt8)) :
    put (front ++ (old ++ after)) front.length old.length new = front ++ new ++ after := by
  rw [put, List.take_left, ← List.drop_drop, List.drop_left, List.drop_left]

theorem getD_length (front after : List (List UInt8)) (str : List UInt8) :
    (front ++ str :: after).getD front.length [] = str := by
  rw [List.getD_eq_getElem?_getD, List.getElem?_append_right (Nat.le_refl _), Nat.sub_self]
  rfl

variable {page : Page} {front after : List (List UInt8)} {str : List UInt8}

section

variable (text : page.text = front ++ str :: after) (here : page.cursor.y = front.length)

include text here

theorem row_eq
    : page.row = str := by
  rw [row, text, here, getD_length]

theorem enter_text : page.enter.text = front ++ str.take (min page.cursor.x.toNat str.length) ::
        str.drop (min page.cursor.x.toNat str.length) :: after := by
  have inside : page.cursor.y < page.text.length := by
    rw [text, here, List.length_append, List.length_cons]
    omega
  have replaced := put_append front [str] after
  rw [enter, if_pos inside, column, row_eq text here, text, here]
  refine (replaced _).trans ?_
  rw [List.append_assoc]
  rfl

theorem delete_text : page.delete.text =
      front ++ str.eraseIdx (min page.cursor.x.toNat str.length - 1) :: after := by
  have replaced := put_append front [str] after
  rw [delete, column, row_eq text here, text, here]
  refine (replaced _).trans ?_
  rw [List.append_assoc]
  rfl

end

theorem join_eq {before : List UInt8} (text : page.text = front ++ before :: str :: after)
    (here : page.cursor.y = front.length + 1) :
    page.join =
      { text := front ++ (before ++ str) :: after
        cursor := page.cursor.joined before.length } := by
  have replaced := put_append front [before, str] after
  have above : page.text.getD front.length [] = before := by
    rw [text, getD_length]
  have row : page.row = str := by
    refine @row_eq page (front ++ [before]) after str ?_ ?_
    · rw [text, List.append_assoc]
      rfl
    · rw [here, List.length_append]
      rfl
  rw [join, here]
  dsimp only
  rw [above, row, text]
  congr 1
  refine (replaced _).trans ?_
  rw [List.append_assoc]
  rfl

end Page

namespace Session

/-- The nodes of the session are those of some lines of text, and none of them is the
next one that is taken. -/
def Shows (session : Session) (text : List (List UInt8)) : Prop :=
  ∃ rows sentinel, session.nodes.Lists rows sentinel text ∧
    ∀ node ∈ rows ++ [sentinel], node ≤ session.lines

/-- The nodes of the lines before a line, of the line, of some lines behind it and of
those behind them, and the first one of the last. -/
structure Placed (session : Session) (front : List (List UInt8)) (str : List UInt8)
    (middles after : List (List UInt8)) (frontRows : List Nat) (left : Nat)
    (middleRows afterRows : List Nat) (sentinel right : Nat) : Prop where
  lists : session.nodes.Lists (frontRows ++ left :: (middleRows ++ afterRows)) sentinel
    (front ++ str :: (middles ++ after))
  allocated : ∀ node ∈ frontRows ++ left :: (middleRows ++ afterRows) ++ [sentinel],
    node ≤ session.lines
  frontHolds : List.Forall₂ session.nodes.Holds frontRows front
  holds : session.nodes.Holds left str
  middleHolds : List.Forall₂ session.nodes.Holds middleRows middles
  afterHolds : List.Forall₂ session.nodes.Holds afterRows after
  first : (afterRows ++ [sentinel]).head? = some right

variable {session : Session} {text front middles after : List (List UInt8)} {str : List UInt8}

theorem Shows.exists_placed (shows : session.Shows (front ++ str :: (middles ++ after))) :
    ∃ frontRows left middleRows afterRows sentinel right,
      session.Placed front str middles after frontRows left middleRows afterRows
        sentinel right := by
  obtain ⟨rows, sentinel, lists, allocated⟩ := shows
  obtain ⟨frontRows, backRows, rfl, frontHolds, backHolds⟩ := lists.exists_append
  cases backHolds with
  | @cons left _ restRows _ holds restHolds =>
    have middleHolds := List.forall₂_take_append _ _ _ restHolds
    have afterHolds := List.forall₂_drop_append _ _ _ restHolds
    rw [← List.take_append_drop middles.length restRows] at lists allocated
    obtain ⟨right, rest, first⟩ := List.exists_cons_of_ne_nil
      (List.append_ne_nil_of_right_ne_nil (restRows.drop middles.length)
        (List.cons_ne_nil sentinel []))
    exact ⟨frontRows, left, _, _, sentinel, right, lists, allocated, frontHolds, holds,
      middleHolds, afterHolds, by rw [first]; rfl⟩

namespace Placed

variable {session' : Session} {frontRows middleRows afterRows : List Nat}
  {left sentinel right : Nat}
  (placed : session.Placed front str middles after frontRows left middleRows afterRows
    sentinel right)

include placed

theorem lt_of_mem {node : Nat}
    (member : node ∈ frontRows ++ left :: (middleRows ++ afterRows) ++ [sentinel]) :
    node < maxLines :=
  placed.lists.inside node member

theorem ne_next {node : Nat}
    (member : node ∈ frontRows ++ left :: (middleRows ++ afterRows) ++ [sentinel]) :
    node ≠ session.lines + 1 := by
  have := placed.allocated node member
  omega

theorem right_mem :
    right ∈ frontRows ++ left :: (middleRows ++ afterRows) ++ [sentinel] := by
  have := List.mem_of_mem_head? placed.first
  grind

theorem left_lt : left < maxLines := placed.lt_of_mem (by simp)

theorem right_lt : right < maxLines := placed.lt_of_mem placed.right_mem

theorem left_ne_next : left ≠ session.lines + 1 := placed.ne_next (by simp)

theorem shows (room : session.lines + 1 < maxLines) {new new' : List UInt8}
    (links : ∀ before other next,
      (session.nodes.spliced left (session.lines + 1) right).Node before other next →
        session'.nodes.Node before other next)
    (strings : ∀ other str, other ≠ left → other ≠ session.lines + 1 →
      session.nodes.Holds other str → session'.nodes.Holds other str)
    (leftHolds : session'.nodes.Holds left new)
    (nodeHolds : session'.nodes.Holds (session.lines + 1) new')
    (lines : session'.lines = session.lines + 1) :
    session'.Shows (front ++ new :: new' :: after) := by
  have fresh : session.lines + 1 ∉ frontRows ++ left :: (middleRows ++ afterRows) ++ [sentinel] :=
    fun member => placed.ne_next member rfl
  refine ⟨frontRows ++ left :: (session.lines + 1) :: afterRows, sentinel,
    placed.lists.splice fresh room placed.first placed.frontHolds placed.afterHolds links
      strings leftHolds nodeHolds, ?_⟩
  intro node member
  have allocated := placed.allocated node
  grind

end Placed

theorem Shows.enter (shows : session.Shows (front ++ str :: after))
    (row : session.cursor.y = front.length) (start : 0 ≤ session.cursor.x)
    (room : session.lines + 1 < maxLines) :
    ∃ session', session.enter = .ok session' ∧ session'.cursor = session.cursor.broken ∧
      session'.Shows (front ++ str.take (session.column str) :: str.drop (session.column str) ::
          after) := by
  obtain ⟨frontRows, left, middleRows, afterRows, sentinel, right, placed⟩ :=
    @Shows.exists_placed _ _ [] _ _ shows
  cases placed.middleHolds
  have line_eq : line session.nodes session.cursor.y (some 0) = .ok (some left) := by
    rw [row, ← placed.frontHolds.length_eq, placed.lists.line_eq]
    rfl
  obtain ⟨rest, first⟩ := List.head?_eq_some_iff.mp placed.first
  have linked := placed.lists.linked
  rw [List.nil_append, List.append_assoc, List.cons_append, first] at linked
  refine ⟨_, enter_eq start line_eq (Nodes.links_of_linked linked).1 placed.holds
    placed.left_lt placed.right_lt room, rfl, ?_⟩
  refine placed.shows room ?_ ?_ ?_ ?_ rfl
  · rintro before other next ⟨rfl, rfl⟩
    constructor
    · rw [Nodes.next_withString, Nodes.next_withString]
    · rw [Nodes.prev_withString, Nodes.prev_withString]
  · intro other str notLeft notNext holds
    exact (holds.spliced.withString_of_ne notNext _).withString_of_ne notLeft _
  · exact Nodes.holds_withString_self _
  · exact (Nodes.holds_withString_self _).withString_of_ne placed.left_ne_next.symm _

theorem Placed.shows_replaced {frontRows middleRows afterRows : List Nat}
    {left sentinel right : Nat}
    (placed : session.Placed front str middles after frontRows left middleRows afterRows
      sentinel right) (room : session.lines + 1 < maxLines) (new : List UInt8)
    (cursor : Cursor) :
    Shows
      { nodes :=
          (session.nodes.spliced left (session.lines + 1) right).withString (session.lines + 1) new
        lines := session.lines + 1
        cursor } (front ++ str :: new :: after) := by
  refine placed.shows room ?_ ?_ ?_ ?_ rfl
  · rintro before other next ⟨rfl, rfl⟩
    constructor
    · rw [Nodes.next_withString]
    · rw [Nodes.prev_withString]
  · intro other str notLeft notNext holds
    exact holds.spliced.withString_of_ne notNext _
  · exact placed.holds.spliced.withString_of_ne placed.left_ne_next _
  · exact Nodes.holds_withString_self _

theorem Shows.delete {before : List UInt8} (shows : session.Shows (front ++ before :: str :: after))
    (row : session.cursor.y = front.length + 1) (start : 0 < session.cursor.x)
    (filled : str ≠ []) (room : session.lines + 1 < maxLines) :
    ∃ session', session.delete (some (session.lines + 1)) = .ok session' ∧
      session'.cursor = session.cursor.left ∧
      session'.Shows (front ++ before :: str.eraseIdx (session.column str - 1) :: after) := by
  obtain ⟨frontRows, left, middleRows, afterRows, sentinel, right, placed⟩ :=
    @Shows.exists_placed _ _ [str] _ _ shows
  obtain ⟨mid, rest, holds, none, rfl⟩ := List.forall₂_cons_right_iff.mp placed.middleHolds
  cases none
  have lists := placed.lists
  rw [List.append_cons, List.cons_append] at lists
  have line_eq : line session.nodes session.cursor.y (some 0) = .ok (some mid) := by
    have := lists.line_eq
    rw [List.length_append, placed.frontHolds.length_eq] at this
    rw [row]
    exact this
  obtain ⟨rest, first⟩ := List.head?_eq_some_iff.mp placed.first
  have linked := placed.lists.linked
  rw [List.append_assoc, List.cons_append, List.append_assoc, first] at linked
  have above := (Nodes.links_of_linked linked).2
  have below := lists.linked
  rw [List.nil_append, List.append_assoc, List.cons_append, first] at below
  have behind := (Nodes.links_of_linked below).1
  have midMem : mid ∈ frontRows ++ left :: ([mid] ++ afterRows) ++ [sentinel] := by simp
  have apart : mid ≠ left := by
    have := placed.lists.nodup
    grind
  exact ⟨_, delete_eq start filled line_eq above behind holds placed.left_lt
    (placed.lt_of_mem midMem) placed.right_lt room (placed.ne_next midMem) apart, rfl,
    placed.shows_replaced room _ _⟩

theorem Shows.join {before prevStr : List UInt8}
    (shows : session.Shows (front ++ before :: prevStr :: str :: after))
    (row : session.cursor.y = front.length + 2) (start : 0 ≤ session.cursor.x0)
    (edge : session.cursor.x0 + 80 < 2147483648)
    (small : prevStr.length + str.length < 2147483648)
    (room : session.lines + 1 < maxLines) :
    ∃ session', session.join (some (session.lines + 1)) = .ok session' ∧
      session'.cursor = session.cursor.joined prevStr.length ∧
      session'.Shows (front ++ before :: (prevStr ++ str) :: after) := by
  obtain ⟨frontRows, left, middleRows, afterRows, sentinel, right, placed⟩ :=
    @Shows.exists_placed _ _ [prevStr, str] _ _ shows
  obtain ⟨prev, rest, prevHolds, restHolds, rfl⟩ :=
    List.forall₂_cons_right_iff.mp placed.middleHolds
  obtain ⟨mid, rest, holds, none, rfl⟩ := List.forall₂_cons_right_iff.mp restHolds
  cases none
  have lists := placed.lists
  rw [List.append_cons, List.cons_append, List.append_cons] at lists
  have line_eq : line session.nodes session.cursor.y (some 0) = .ok (some mid) := by
    have := lists.line_eq
    rw [List.length_append, List.length_append, placed.frontHolds.length_eq] at this
    rw [row]
    exact this
  obtain ⟨rest, first⟩ := List.head?_eq_some_iff.mp placed.first
  have linked := placed.lists.linked
  rw [List.append_assoc, List.cons_append, List.append_assoc, first] at linked
  have before := (Nodes.links_of_linked linked).2
  have linked' := linked
  rw [List.append_cons] at linked'
  have above := (Nodes.links_of_linked linked').2
  rw [List.cons_append, List.cons_append, List.append_cons] at linked'
  have behind := (Nodes.links_of_linked linked').1
  have prevMem : prev ∈ frontRows ++ left :: ([prev, mid] ++ afterRows) ++ [sentinel] := by
    simp
  have midMem : mid ∈ frontRows ++ left :: ([prev, mid] ++ afterRows) ++ [sentinel] := by
    simp
  have apart : mid ≠ left := by
    have := placed.lists.nodup
    grind
  exact ⟨_, join_eq line_eq above before behind prevHolds holds placed.left_lt
    (placed.lt_of_mem prevMem) (placed.lt_of_mem midMem) placed.right_lt room
    (placed.ne_next midMem) apart start edge small, rfl,
    placed.shows_replaced room _ _⟩

end Session

end OsFree.Editor
