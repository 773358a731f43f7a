import Mathlib.Data.List.TakeWhile
import OsFree.Loader.ConfigLines
import OsFree.Machine.LineStream

/-!
# What the lines of a configuration file say

A line is cut at the first comment and trimmed.  Lines that end in `^` or `&` are joined
with the next one.
-/

namespace OsFree.Loader

open Machine

/-- The line up to a comment, without the white space at its ends. -/
def cleaned (text : List UInt8) : List UInt8 :=
  ((text.takeWhile fun c => c != semicolon && c != hash).dropWhile isspace).rdropWhile isspace

/-- The line is continued by the next one. -/
def isContinued (line : List UInt8) : Bool := line.getLast?.any continues

/-- What a line adds to the line that it is a part of. -/
def part (line : List UInt8) : List UInt8 :=
  if isContinued line then line.dropLast else line

/-- The lines that the rest of the lines of a file make, behind what is there of the
first one. -/
def logicalFrom : List UInt8 → List (List UInt8) → List (List UInt8)
  | str, [] => if str = [] then [] else [str]
  | str, text :: rest =>
    if isContinued (cleaned text) then logicalFrom (str ++ part (cleaned text)) rest
    else (str ++ part (cleaned text)) :: logicalFrom [] rest

/-- The lines up to the first one that is not accepted. -/
def upTo (answers : Nat → Bool) : Nat → List (List UInt8) → List (List UInt8)
  | _, [] => []
  | calls, line :: rest =>
    line :: if answers calls then upTo answers (calls + 1) rest else []

/-- The texts of the lines of some bytes. -/
def texts (bytes : List UInt8) : List (List UInt8) := (LineStream.lines bytes).map Line.text

/-- The lines that a file says, as far as they are accepted. -/
def expected (answers : Nat → Bool) (content : List UInt8) : List (List UInt8) :=
  upTo answers 0 (logicalFrom [] (texts content))

section

variable {α : Type} {p q : α → Bool}

theorem dropWhile_takeWhile_comm (within : ∀ a, p a = true → q a = true) (l : List α) :
    (l.takeWhile q).dropWhile p = (l.dropWhile p).takeWhile q := by
  induction l with
  | nil => rfl
  | cons a l ih =>
    cases first : p a with
    | true =>
      rw [List.takeWhile_cons, within a first, if_pos rfl, List.dropWhile_cons, first,
        if_pos rfl, List.dropWhile_cons, first, if_pos rfl, ih]
    | false =>
      rw [List.dropWhile_cons, first, if_neg Bool.false_ne_true, List.takeWhile_cons]
      split
      · rw [List.dropWhile_cons, first, if_neg Bool.false_ne_true]
      · rfl

theorem rdropWhile_append_of_all {l tail : List α} (all : ∀ a ∈ tail, p a = true) :
    (l ++ tail).rdropWhile p = l.rdropWhile p := by
  induction tail using List.reverseRecOn with
  | nil => rw [List.append_nil]
  | append_singleton tail a ih =>
    rw [← List.append_assoc, List.rdropWhile_concat_pos _ _ _ (all a (by simp))]
    exact ih fun a member => all a (by simp [member])

theorem exists_rdropWhile (p : α → Bool) (l : List α) :
    ∃ tail, l = l.rdropWhile p ++ tail ∧ ∀ a ∈ tail, p a = true :=
  ⟨l.rtakeWhile p, (List.rdropWhile_append_rtakeWhile ..).symm,
    fun _ member => List.mem_rtakeWhile_imp member⟩

theorem rdropWhile_takeWhile (within : ∀ a, p a = true → q a = true) (l : List α) :
    ((l.rdropWhile p).takeWhile q).rdropWhile p = (l.takeWhile q).rdropWhile p := by
  obtain ⟨tail, parts, all⟩ := exists_rdropWhile p l
  conv_rhs => rw [parts]
  rw [List.takeWhile_append]
  split
  · rename_i whole
    rw [(List.takeWhile_prefix q).eq_of_length whole,
      List.takeWhile_eq_self_iff.mpr fun a member => within a (all a member),
      rdropWhile_append_of_all all]
  · rfl

theorem dropWhile_rdropWhile_comm (p : α → Bool) (l : List α) :
    (l.rdropWhile p).dropWhile p = (l.dropWhile p).rdropWhile p := by
  obtain ⟨tail, parts, all⟩ := exists_rdropWhile p l
  conv_rhs => rw [parts]
  rw [List.dropWhile_append]
  split
  · rename_i empty
    rw [List.isEmpty_iff.mp empty, List.dropWhile_eq_nil_iff.mpr all, List.rdropWhile_nil]
  · rw [rdropWhile_append_of_all all, eq_comm, List.rdropWhile_eq_self_iff]
    intro filled
    obtain ⟨front, whole⟩ := @List.dropWhile_suffix _ (l.rdropWhile p) p
    have some : l.rdropWhile p ≠ [] := by
      intro none
      rw [none] at filled
      exact filled rfl
    have last := List.rdropWhile_last_not p l some
    rw [← List.getLast_append_of_right_ne_nil front _ filled]
    simp only [whole]
    exact last

end

variable {c : UInt8} {s : List UInt8}

theorem endAt_eq (c : UInt8) (s : List UInt8) :
    endAt c s = s.takeWhile (· != c) := by
  induction s with
  | nil => rfl
  | cons a s ih =>
    unfold endAt grub_index at ih ⊢
    rw [List.findIdx?_cons, List.takeWhile_cons, ← ih]
    by_cases here : a = c
    · simp [here]
    · cases place : s.findIdx? (· == c) with
      | none => simp [here]
      | some i => simp [here]

theorem endAt_endAt (s : List UInt8) : endAt hash (endAt semicolon s) =
      s.takeWhile fun c => c != semicolon && c != hash := by
  rw [endAt_eq, endAt_eq, List.takeWhile_takeWhile]
  congr 1
  funext c
  rw [Bool.decide_and, Bool.and_comm]
  simp only [bne, Bool.decide_eq_true, beq_eq_decide]

theorem not_comment_of_isspace {c : UInt8} (space : isspace c = true) :
    (c != semicolon && c != hash) = true := by
  simp only [isspace, decide_eq_true_eq] at space
  obtain rfl | rfl | rfl | rfl := space
  all_goals rfl

theorem trimmed_twice (text : List UInt8) :
    ((endAt hash (endAt semicolon ((text.rdropWhile isspace).dropWhile isspace))).rdropWhile
      isspace).dropWhile isspace = cleaned text := by
  have within := fun c => @not_comment_of_isspace c
  rw [endAt_endAt, ← dropWhile_takeWhile_comm within, ← dropWhile_rdropWhile_comm,
    rdropWhile_takeWhile within, List.dropWhile_idempotent, dropWhile_rdropWhile_comm]
  rfl

theorem trim_append {text ending : List UInt8} {c : UInt8}
    (plain : ∀ c ∈ text, c ≠ 10 ∧ c ≠ 13) (ends : c = 10 ∨ c = 13) :
    trim (text ++ c :: ending) = text := by
  have noCr : text.takeWhile (· != 13) = text :=
    List.takeWhile_eq_self_iff.mpr fun a member => bne_iff_ne.mpr (plain a member).2
  have noLf : text.takeWhile (· != 10) = text :=
    List.takeWhile_eq_self_iff.mpr fun a member => bne_iff_ne.mpr (plain a member).1
  rw [trim, endAt_eq, endAt_eq, List.takeWhile_append, noCr, if_pos rfl,
    List.takeWhile_append, noLf, if_pos rfl]
  obtain rfl | rfl := ends
  · simp
  · simp

theorem dropWhile_rdropWhile_eq_nil {text : List UInt8} :
    (text.rdropWhile isspace).dropWhile isspace = [] ↔ text.rdropWhile isspace = [] := by
  refine ⟨fun none => ?_, fun none => by rw [none]; rfl⟩
  by_contra filled
  exact List.rdropWhile_last_not isspace text filled
    (List.dropWhile_eq_nil_iff.mp none _ (List.getLast_mem filled))

section

variable {below : UInt8} {front text : List UInt8}

theorem strip_of_blank (blank : text.rdropWhile isspace = [])
    (spaces : ∀ a ∈ front, isspace a = true) (clear : isspace below = false) :
    strip below { front, text } =
      .ok { front := List.replicate front.length 0, text := [] } := by
  have nothing : front.rdropWhile isspace = [] := List.rdropWhile_eq_nil_iff.mpr spaces
  simp [strip, blank, nothing, clear]

theorem strip_of_filled (filled : text.rdropWhile isspace ≠ []) : strip below { front, text } = .ok
        { front := front ++ (text.rdropWhile isspace).takeWhile isspace
          text := (text.rdropWhile isspace).dropWhile isspace } := by
  simp [strip, filled]

/-- The two times that a line is trimmed, with the comment cut off between them. -/
theorem strip_twice {t : List UInt8} (clear : cleaned t = [] → isspace below = false) :
    ∃ front first, strip below { front := [], text := t } = .ok first ∧
      strip below { first with text := endAt hash (endAt semicolon first.text) } =
        .ok { front, text := cleaned t } ∧
      (cleaned t = [] → (∀ a ∈ front, a = 0) ∧
          (front = [] → (t.rdropWhile isspace).takeWhile isspace = [])) := by
  have twice := trimmed_twice t
  by_cases blank : t.rdropWhile isspace = []
  · rw [blank] at twice
    have none : cleaned t = [] := twice.symm
    refine ⟨[], _, strip_of_blank blank (List.forall_mem_nil _) (clear none), ?_,
      fun _ => ⟨List.forall_mem_nil _, fun _ => by rw [blank]; rfl⟩⟩
    rw [none]
    exact strip_of_blank rfl (List.forall_mem_nil _) (clear none)
  have spaces : ∀ a ∈ [] ++ (t.rdropWhile isspace).takeWhile isspace, isspace a = true :=
    fun a member => List.mem_takeWhile_imp member
  by_cases empty : (endAt hash (endAt semicolon
      ((t.rdropWhile isspace).dropWhile isspace))).rdropWhile isspace = []
  · have none : cleaned t = [] := by rw [← twice, empty, List.dropWhile_nil]
    have again := strip_of_blank empty spaces (clear none)
    refine ⟨_, _, strip_of_filled blank, by rw [again, none],
      fun _ => ⟨fun a => List.eq_of_mem_replicate, fun first => ?_⟩⟩
    exact List.eq_nil_of_length_eq_zero ((List.replicate_eq_nil_iff _).mp first)
  · have again := @strip_of_filled below ([] ++ (t.rdropWhile isspace).takeWhile isspace) _ empty
    rw [twice] at again
    refine ⟨_, _, strip_of_filled blank, again, fun none => ?_⟩
    rw [← twice, dropWhile_rdropWhile_eq_nil] at none
    exact absurd none empty

theorem continues_before {below : UInt8} {front line : List UInt8}
    (zero : line = [] → ∀ a ∈ front, a = 0)
    (clear : line = [] → front = [] → continues below = false) :
    continues ((front ++ line).getLastD below) = isContinued line := by
  cases line using List.reverseRecOn with
  | nil =>
    rw [List.append_nil]
    cases front using List.reverseRecOn with
    | nil => exact clear rfl rfl
    | append_singleton front a =>
      rw [zero rfl a (by simp), List.getLastD_concat]
      rfl
  | append_singleton line a =>
    rw [← List.append_assoc, List.getLastD_concat, isContinued, List.getLast?_concat,
      Option.any_some]

theorem putBehind_eq {s line : List UInt8} (fits : s.length + line.length < bufsize) :
    putBehind s line = .ok (some (s ++ line)) := by
  rw [putBehind, if_neg (Nat.lt_asymm fits), if_pos fits]

theorem isContinued_nil : isContinued [] = false := rfl

/-- The byte before the buffer is not taken for a part of the line. -/
def ClearBefore (below : UInt8) (text : List UInt8) : Prop := cleaned text = [] →
    isspace below = false ∧
      ((text.rdropWhile isspace).takeWhile isspace = [] → continues below = false)

variable {answers : Nat → Bool} {config : ConfigLines} {t : List UInt8}

theorem endLine_eq (trimmed : trim config.s = t) (clear : ClearBefore below t)
    (fits : (config.str ++ part (cleaned t)).length < bufsize) :
    endLine below answers config = .ok (if isContinued (cleaned t) then
          ({ config with s := [], str := config.str ++ part (cleaned t) }, .goesOn)
        else
          ({ s := [], str := [], calls := config.calls ++ [config.str ++ part (cleaned t)] },
            if answers config.calls.length then .goesOn else .returns (-1))) := by
  obtain ⟨front, first, once, again, zero⟩ := strip_twice fun none => (clear none).1
  have before := continues_before (fun none => (zero none).1)
    fun none first => (clear none).2 ((zero none).2 first)
  rw [endLine, trimmed, once]
  simp only [Except.bind, bind]
  rw [again]
  simp only [before]
  rw [List.length_append] at fits
  cases more : isContinued (cleaned t) with
  | false =>
    rw [part, more, if_neg Bool.false_ne_true] at fits ⊢
    rw [if_neg Bool.false_ne_true, putBehind_eq fits, if_neg Bool.false_ne_true]
  | true =>
    rw [part, more, if_pos rfl] at fits ⊢
    have filled : cleaned t ≠ [] := by
      intro none
      rw [none, isContinued_nil] at more
      exact Bool.false_ne_true more
    rw [if_pos rfl, if_neg filled, putBehind_eq fits, if_pos rfl]

end

end OsFree.Loader
