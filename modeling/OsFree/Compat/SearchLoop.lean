import Mathlib.Data.List.TakeWhile
import OsFree.Compat.Token

/-!
# The loop of a search

The loop looks at the elements of its list one after the other up to the first
one that ends it, and replaces the characters of those only.
-/

namespace OsFree.Compat

open Machine

/-- What the elements of a list come to: the text in the buffer, the code if an
element ends the search, and the elements behind it. -/
abbrev Looked := Run (List UInt8 × Option UInt32 × List (List UInt8))

/-- An element stands in front of those that are looked at behind it. -/
def behindElement (p : List UInt8) : Looked → Looked
  | .error fault => .error fault
  | .ok (buffer, code, elements) => .ok (buffer, code, p :: elements)

/-- The elements of a list are looked at in order. -/
def lookAll (f : UInt8 → UInt8) (look : Look) : List (List UInt8) → List UInt8 → Looked
  | [], buffer => .ok (buffer, none, [])
  | p :: elements, buffer =>
    if p = [] then behindElement p (lookAll f look elements buffer)
    else
      match look (p.map f) with
      | .error fault => .error fault
      | .ok (buffer, some rc) => .ok (buffer, some rc, p.map f :: elements)
      | .ok (buffer, none) =>
        behindElement (p.map f) (lookAll f look elements buffer)

/-- What the loop comes to is what the elements come to: they are in the list,
and the tokenizer is stopped or at the end of it. -/
def LoopComes (world : Tokenizer) (string : ℕ) (before rest : List UInt8)
    (result : Run (Tokenizer × List UInt8 × Option UInt32)) : Looked → Prop
  | .error fault => result = .error fault
  | .ok (buffer, code, elements) =>
    ∃ world', result = .ok (world', buffer, code) ∧ world'.nxtToken = none ∧
      (code = none → world'.ch = 0) ∧
      world'.strings = (world.withText string
        (before ++ ([0x3b].intercalate elements ++ rest))).strings

section

variable {f : UInt8 → UInt8} {look : Look} {world : Tokenizer} {string : ℕ}
  {before p rest : List UInt8} {elements elements' : List (List UInt8)}
  {buffer buffer' : List UInt8} {code : Option UInt32}

theorem element_cases (text : List UInt8) : (0x3b : UInt8) ∉ text ∨
      ∃ p later, text = p ++ 0x3b :: later ∧ (0x3b : UInt8) ∉ p := by
  by_cases mem : (0x3b : UInt8) ∈ text
  · exact Or.inr (List.eq_append_cons_of_mem mem)
  · exact Or.inl mem

theorem mapToken_pausedAt (nonzero : ∀ c ∈ p, c ≠ 0) :
    (world.pausedAt string (before ++ p) rest).mapToken f ⟨string, before.length⟩ =
      world.pausedAt string (before ++ p.map f) rest := by
  have text := @Tokenizer.textAt_pausedAt world string before p rest nonzero
  apply Tokenizer.ext
  · intro other
    rw [Tokenizer.mapToken, text]
    simp only [Tokenizer.pausedAt, Tokenizer.withText_strings_self]
    by_cases same : other = string
    · simp [Tokenizer.withText, same, List.append_assoc]
    · simp [Tokenizer.withText, same]
  · simp [Tokenizer.mapToken, Tokenizer.withText, Tokenizer.pausedAt]
  · rfl

theorem get_pausedAt : (world.pausedAt string (before ++ p) rest).get ⟨string, before.length⟩ =
      p.headD 0 := by
  have zero : (rest.set 0 0).getD 0 (0 : UInt8) = 0 := by
    cases rest <;> simp
  simp only [Tokenizer.get, Tokenizer.pausedAt, Tokenizer.withText_strings_self]
  rw [List.append_assoc, List.getD_append_right _ _ _ _ (Nat.le_refl _), Nat.sub_self]
  cases p with
  | nil => exact zero
  | cons c p => rfl

theorem searchLoop_element (turns : Nat) (buffer : List UInt8)
    (nonzero : ∀ c ∈ p, c ≠ 0) (nonzero' : ∀ c, c ≠ 0 → f c ≠ 0) :
    searchLoop f look (turns + 1) (some ⟨string, before.length⟩,
        world.pausedAt string (before ++ p) rest) buffer =
      if p = [] then
        searchLoop f look turns ((world.pausedAt string (before ++ p.map f) rest).strTokenize none
            psep) buffer
      else
        match look (p.map f) with
        | .error fault => some (.error fault)
        | .ok (buffer, some rc) =>
          some (.ok ((world.pausedAt string (before ++ p.map f) rest).strTokStop, buffer, some rc))
        | .ok (buffer, none) =>
          searchLoop f look turns ((world.pausedAt string (before ++ p.map f) rest).strTokenize none
              psep) buffer := by
  have mapped : ∀ c ∈ p.map f, c ≠ 0 := by
    intro c mem
    obtain ⟨c', mem', equal⟩ := List.mem_map.mp mem
    rw [← equal]
    exact nonzero' c' (nonzero c' mem')
  have text := @Tokenizer.textAt_pausedAt world string before (p.map f) rest mapped
  rw [searchLoop, get_pausedAt]
  cases p with
  | nil => simp
  | cons c p =>
    have first : c ≠ 0 := nonzero c (List.mem_cons_self ..)
    simp only [List.headD_cons, if_neg first, mapToken_pausedAt nonzero, text]
    rfl

theorem strTokStop_pausedAt : (world.pausedAt string before rest).strTokStop.strings =
      (world.withText string (before ++ rest)).strings := by
  rw [Tokenizer.strTokStop]
  cases rest with
  | nil =>
    rw [Tokenizer.strTokenize_finished [] rfl]
    rfl
  | cons c rest =>
    by_cases zero : c = 0
    · have ends : (c :: rest).getD 0 0 = 0 := zero
      rw [Tokenizer.strTokenize_finished [] ends]
      rfl
    · rw [Tokenizer.strTokenize_next zero]
      rfl

theorem behindElement_eq_ok {looked : Looked}
    (goes : behindElement p looked = .ok (buffer, code, elements)) :
    ∃ later, looked = .ok (buffer, code, later) ∧ elements = p :: later := by
  match looked, goes with
  | .ok (_, _, later), goes =>
    cases goes
    exact ⟨later, rfl, rfl⟩

theorem length_of_lookAll
    (looked : lookAll f look elements buffer = .ok (buffer', code, elements')) :
    elements'.length = elements.length := by
  induction elements generalizing buffer elements' with
  | nil =>
    cases looked
    rfl
  | cons p elements ih =>
    rw [lookAll] at looked
    by_cases empty : p = []
    · rw [if_pos empty] at looked
      obtain ⟨later, looked', rfl⟩ := behindElement_eq_ok looked
      rw [List.length_cons, ih looked', List.length_cons]
    · rw [if_neg empty] at looked
      split at looked
      · cases looked
      · cases looked
        rfl
      · obtain ⟨later, looked', rfl⟩ := behindElement_eq_ok looked
        rw [List.length_cons, ih looked', List.length_cons]

theorem LoopComes.behind {world' : Tokenizer} {looked : Looked}
    {result : Run (Tokenizer × List UInt8 × Option UInt32)}
    (others : ∀ other ≠ string, world'.strings other = world.strings other)
    (some : ∀ buffer code elements, looked = .ok (buffer, code, elements) → elements ≠ [])
    (comes : LoopComes world' string (before ++ p ++ [0x3b]) rest result looked) :
    LoopComes world string before rest result (behindElement p looked) := by
  match looked, comes with
  | .error fault, comes => exact comes
  | .ok (buffer, code, elements), comes =>
    obtain ⟨last, equal, stopped, ch, strings⟩ := comes
    refine ⟨last, equal, stopped, ch, ?_⟩
    rw [strings, List.intercalate_cons_of_ne_nil (some _ _ _ rfl)]
    funext other
    by_cases same : other = string
    · rw [same, Tokenizer.withText_strings_self, Tokenizer.withText_strings_self]
      simp
    · rw [Tokenizer.withText_strings_of_ne _ _ same,
        Tokenizer.withText_strings_of_ne _ _ same, others other same]

theorem comes_element {turns : ℕ} {tail : List UInt8}
    (layout : ∀ q, q ++ tail = [0x3b].intercalate (q :: elements) ++ rest)
    (nonzero : ∀ c ∈ p, c ≠ 0) (nonzero' : ∀ c, c ≠ 0 → f c ≠ 0)
    (goes : ∀ buffer, ∃ result, searchLoop f look turns
        ((world.pausedAt string (before ++ p.map f) tail).strTokenize none psep)
          buffer = some result ∧
      LoopComes world string before rest result
        (behindElement (p.map f) (lookAll f look elements buffer))) :
    ∃ result, searchLoop f look (turns + 1) (some ⟨string, before.length⟩,
        world.pausedAt string (before ++ p) tail) buffer = some result ∧
      LoopComes world string before rest result (lookAll f look (p :: elements) buffer) := by
  rw [searchLoop_element turns buffer nonzero nonzero', lookAll]
  by_cases empty : p = []
  · rw [if_pos empty, if_pos empty]
    subst empty
    exact goes buffer
  · rw [if_neg empty, if_neg empty]
    match look (p.map f) with
    | .error fault => exact ⟨_, rfl, rfl⟩
    | .ok (buffer', some rc) =>
      refine ⟨_, rfl, _, rfl, Tokenizer.strTokStop_nxtToken _, nofun, ?_⟩
      rw [strTokStop_pausedAt, List.append_assoc, layout]
    | .ok (buffer', none) => exact goes buffer'

theorem searchLoop_comes (look : Look) {text : List UInt8} {turns : ℕ} (buffer : List UInt8)
    (enough : text.length + 2 ≤ turns)
    (standing : world.strings string = before ++ (text ++ rest))
    (nonzero : ∀ c ∈ text, c ≠ 0) (ends : rest.getD 0 0 = 0)
    (nonzero' : ∀ c, c ≠ 0 → f c ≠ 0) :
    ∃ result, searchLoop f look turns
        (world.endToken ⟨string, before.length⟩ psep) buffer = some result ∧
      LoopComes world string before rest result
        (lookAll f look (text.splitOn 0x3b) buffer) := by
  induction turns generalizing text before world buffer with
  | zero => omega
  | succ turns ih =>
    cases element_cases text with
    | inl single =>
      have stops : ∀ c ∈ rest.head?, c = 0 ∨ c ∈ psep := by
        intro c head
        left
        rw [List.getD_eq_getElem?_getD, ← List.head?_eq_getElem?, head]
          at ends
        exact ends
      have inside : ∀ c ∈ text, c ≠ 0 ∧ c ∉ psep := by
        intro c mem
        refine ⟨nonzero c mem, ?_⟩
        simpa [psep] using ne_of_mem_of_not_mem mem single
      have whole : text.splitOn 0x3b = [text] := List.splitOn_eq_singleton single
      obtain ⟨turns, rfl⟩ := Nat.exists_eq_succ_of_ne_zero (by omega : turns ≠ 0)
      rw [Tokenizer.endToken_eq standing (by simp [psep]) inside stops, whole]
      apply comes_element (fun q => by simp) nonzero nonzero'
      intro buffer
      rw [Tokenizer.strTokenize_finished psep ends]
      refine ⟨_, rfl, _, rfl, rfl, fun _ => rfl, ?_⟩
      rw [List.intercalate_singleton, List.append_assoc]
      rfl
    | inr several =>
      obtain ⟨p, later, rfl, first⟩ := several
      have standing' : world.strings string = before ++ (p ++ (0x3b :: (later ++ rest))) := by
        rw [standing, List.append_assoc, List.cons_append]
      have inside : ∀ c ∈ p, c ≠ 0 ∧ c ∉ psep := by
        intro c mem
        refine ⟨nonzero c (List.mem_append_left _ mem), ?_⟩
        simpa [psep] using ne_of_mem_of_not_mem mem first
      have stops : ∀ c ∈ (0x3b :: (later ++ rest)).head?,
          c = 0 ∨ c ∈ psep := by
        intro c head
        cases head
        exact .inr (by simp [psep])
      have split : (p ++ 0x3b :: later).splitOn 0x3b = p :: later.splitOn 0x3b :=
        List.splitOn_append_cons_self_of_not_mem first later
      have some_element := List.splitOn_ne_nil 0x3b later
      rw [Tokenizer.endToken_eq standing' (by simp [psep]) inside stops, split]
      apply comes_element _ (fun c mem => (inside c mem).1) nonzero'
      · intro buffer
        rw [Tokenizer.strTokenize_next (by decide)]
        obtain ⟨result, walk, comes⟩ := @ih { world.withText string
              (before ++ p.map f ++ 0x3b :: (later ++ rest)) with
            nxtToken := some ⟨string, (before ++ p.map f).length⟩
            ch := 0x3b }
          (before ++ p.map f ++ [0x3b]) later buffer
          (by simp at enough; omega) (by simp [Tokenizer.withText])
          (fun c mem => nonzero c (by simp [mem]))
        refine ⟨result, walk, LoopComes.behind ?_ ?_ comes⟩
        · exact fun other different =>
            world.withText_strings_of_ne _ different
        · intro buffer code elements looked empty
          have length := length_of_lookAll looked
          rw [empty, List.length_nil, eq_comm, List.length_eq_zero_iff] at length
          exact some_element length
      · intro q
        rw [List.intercalate_cons_of_ne_nil some_element, List.intercalate_splitOn]
        simp

end

end OsFree.Compat
