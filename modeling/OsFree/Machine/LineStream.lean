import Mathlib.Data.List.Basic

/-!
# Lines of a text

The lines of a text end at a carriage return, a line feed, or both.
-/

namespace OsFree.Machine

/-- A line, and the line end behind it. -/
structure Line where
  text : List UInt8
  ending : List UInt8

namespace LineStream

/-- The lines of some bytes, with what is before the bytes in the first one. -/
def linesFrom : List UInt8 → List UInt8 → List Line
  | text, [] => if text = [] then [] else [⟨text, []⟩]
  | text, 13 :: 10 :: rest => ⟨text, [13, 10]⟩ :: linesFrom [] rest
  | text, c :: rest =>
    if c = 10 ∨ c = 13 then ⟨text, [c]⟩ :: linesFrom [] rest
    else linesFrom (text ++ [c]) rest

/-- The lines of some bytes. -/
abbrev lines (bytes : List UInt8) : List Line := linesFrom [] bytes

/-- No line ends in the bytes. -/
def Plain (bytes : List UInt8) : Prop := ∀ c ∈ bytes, c ≠ 10 ∧ c ≠ 13

variable {text bytes rest : List UInt8} {c : UInt8}

theorem Plain.append (first : Plain text) (second : Plain bytes) :
    Plain (text ++ bytes) := by
  intro c member
  exact (List.mem_append.mp member).elim (first c) (second c)

theorem linesFrom_cons (plain : c ≠ 10 ∧ c ≠ 13) :
    linesFrom text (c :: rest) = linesFrom (text ++ [c]) rest := by
  rw [linesFrom.eq_3 _ _ _ fun _ cr _ => plain.2 cr, if_neg (not_or.mpr plain)]

theorem linesFrom_append (plain : Plain bytes) :
    linesFrom text (bytes ++ rest) = linesFrom (text ++ bytes) rest := by
  induction bytes generalizing text with
  | nil => rw [List.nil_append, List.append_nil]
  | cons c bytes ih =>
    obtain ⟨first, plain⟩ := List.forall_mem_cons.mp plain
    rw [List.cons_append, linesFrom_cons first, ih plain, List.append_assoc, List.singleton_append]

/-- The end of a line, with what is behind it. -/
inductive Ends : List UInt8 → List UInt8 → Prop where
  | lf {rest : List UInt8} : Ends [10] rest
  | crlf {rest : List UInt8} : Ends [13, 10] rest
  | cr {rest : List UInt8} (single : rest.head? ≠ some 10) : Ends [13] rest

theorem lines_of_ends {ending : List UInt8} (plain : Plain text) (ends : Ends ending rest) :
    lines (text ++ (ending ++ rest)) = ⟨text, ending⟩ :: lines rest := by
  rw [lines, linesFrom_append plain, List.nil_append]
  cases ends with
  | lf => rfl
  | crlf => rfl
  | cr single =>
    rw [List.singleton_append, linesFrom.eq_3 _ _ _ fun _ _ lf => single (by simp [lf]),
      if_pos (.inr rfl)]

theorem lines_of_plain (plain : Plain text) :
    lines text = if text = [] then [] else [⟨text, []⟩] := by
  have whole : linesFrom [] (text ++ []) = linesFrom ([] ++ text) [] := linesFrom_append plain
  rw [List.append_nil, List.nil_append] at whole
  rw [lines, whole, linesFrom]

theorem exists_ends (bytes : List UInt8) : ∃ text rest, Plain text ∧ bytes = text ++ rest ∧
      (rest = [] ∨ ∃ ending behind, rest = ending ++ behind ∧ Ends ending behind) := by
  induction bytes with
  | nil => exact ⟨[], [], List.forall_mem_nil _, rfl, .inl rfl⟩
  | cons c bytes ih =>
    by_cases lf : c = 10
    · exact ⟨[], _, List.forall_mem_nil _, rfl, .inr ⟨[10], bytes, by rw [lf]; rfl, .lf⟩⟩
    by_cases cr : c = 13
    · refine ⟨[], _, List.forall_mem_nil _, rfl, .inr ?_⟩
      by_cases both : bytes.head? = some 10
      · obtain ⟨behind, rfl⟩ := List.head?_eq_some_iff.mp both
        exact ⟨[13, 10], behind, by rw [cr]; rfl, .crlf⟩
      · exact ⟨[13], bytes, by rw [cr]; rfl, .cr both⟩
    obtain ⟨text, rest, plain, rfl, ends⟩ := ih
    exact ⟨c :: text, rest, List.forall_mem_cons.mpr ⟨⟨lf, cr⟩, plain⟩, rfl, ends⟩

end LineStream

end OsFree.Machine
