import OsFree.Os2fs.FindFiles

/-!
# Searches

A search should give out every file that matches, once and in its order, each in a
place of its own.
-/

namespace OsFree.Os2fs

open Machine

/-- The buffer holds as many records as are asked for. -/
def FindCall.Holds (call : FindCall) (level : Level) : Prop :=
  call.cbBuf ≠ 0 ∧ call.cbBuf ≤ 0x10000 ∧
    call.pcFileNames.toNat * level.size.toNat ≤ call.cbBuf.toNat

/-- An answer has the records of certain files: each in a place of its own with the
way to the next, counted from where the buffer is, and nothing behind the buffer. -/
structure BatchRight (level : Level) (call : FindCall) (records : List Entry)
    (answer : FindAnswer) : Prop where
  success : answer.rc = 0
  count : answer.pcFileNames.toNat = records.length
  placed : ∀ place entry, records[place]? = some entry → answer.buf.info place = entry.record level
  linked : ∀ place, place < records.length → answer.buf.oNextEntryOffset place =
      some (if place + 1 = records.length then 0 else level.size)
  within : answer.buf.written ≤ call.cbBuf.toNat
  back : answer.pFindBuf = call.pFindBuf

/-- A search, and how many of the files that match it has given out. -/
structure Search where
  hdir : FindHandle
  level : Level
  returned : Nat

namespace Search

variable (search : Search)

/-- The files that are still to be given out. -/
def todo : List Entry := (matching search.hdir.attr search.hdir.g).drop search.returned

/-- The search goes on with the files that are still to be given out. -/
structure Good : Prop where
  level : Level.ofULONG search.hdir.ulInfoLevel = some search.level
  inside : search.hdir.ctr ≤ search.hdir.g.length
  position : matching search.hdir.attr (search.hdir.g.drop search.hdir.ctr) = search.todo

/-- The next files are given out; a buffer may be refused that does not hold them. -/
def Right (call : FindCall) (answer : FindAnswer) : Prop :=
  answer.rc = 18 ∧ search.todo = [] ∨ answer.rc = 111 ∧ ¬ call.Holds search.level ∨
    BatchRight search.level call (search.todo.take call.pcFileNames.toNat) answer

/-- The search after a call. -/
def after (outcome : FindAnswer × FindHandle) : Search where
  hdir := outcome.2
  level := search.level
  returned := search.returned +
      if outcome.1.rc = 0 then outcome.1.pcFileNames.toNat else 0

/-- A call is answered as it should be, and the search goes on with the files that
are left. -/
def Meets (call : FindCall) : Prop := search.Right call (fsFindNext search.hdir call).1 ∧
    (search.after (fsFindNext search.hdir call)).Good

end Search

section

variable (router : FSRouter) (glob : List UInt8 → List Entry)

/-- A request is one for a search at a path of the host. -/
def FindRequest.Starts (request : FindRequest) (t : List UInt8) : Prop :=
  (request.phDir = HDIR_SYSTEM ∨ request.phDir = HDIR_CREATE) ∧ request.pszFileSpec.length ≤ 255 ∧
    pathconv router (request.pszFileSpec.map toBackslash) = .ok (0, t) ∧
    t.length ≤ 255

/-- What should come back for a search at a path. -/
def FindRequest.RightAt (request : FindRequest) (t : List UInt8)
    (outcome : FindAnswer × Option FindHandle) : Prop :=
  match Level.ofULONG request.ulInfoLevel with
  | none => outcome.1.rc = 124 ∧ outcome.2 = none
  | some level =>
    outcome.1.rc = 111 ∧ outcome.2 = none ∧ ¬ request.call.Holds level ∨
      let records := (matching request.flAttribute (glob t)).take request.call.pcFileNames.toNat
      BatchRight level request.call records outcome.1 ∧
        ∃ hdir, outcome.2 = some hdir ∧ hdir.g = glob t ∧ hdir.attr = request.flAttribute ∧
          Search.Good ⟨hdir, level, records.length⟩

/-- A request comes back: with the first files, or refused if there is nothing to
search. -/
def FindRequest.Meets (request : FindRequest) : Prop :=
  ∃ outcome, fsFindFirst router glob request = .ok outcome ∧
    (∀ t, request.Starts router t → request.RightAt glob t outcome) ∧
    ((¬ ∃ t, request.Starts router t) → outcome.1.rc ≠ 0 ∧ outcome.2 = none)

end

/-- What a call looks at. -/
def FindCall.looked (call : FindCall) (attr : UInt32) (entries : List Entry) :
    List Entry :=
  batch (selects attr) call.pcFileNames.toNat entries

/-- At most one file that a call looks at matches; then either one record is asked
for, or two and the last file that it looks at is another one. -/
def FindCall.Allowed (call : FindCall) (attr : UInt32) (entries : List Entry) :
    Prop :=
  (∀ entry ∈ call.looked attr entries, entry.Fine) ∧
    (matching attr (call.looked attr entries) = [] ∧
        (call.looked attr entries = [] ∨ 4 ≤ call.cbBuf.toNat) ∨
      (matching attr (call.looked attr entries)).length = 1 ∧
        (call.pcFileNames.toNat = 1 ∨ call.pcFileNames.toNat = 2 ∧
          ∀ last, (call.looked attr entries).getLast? = some last → ¬ Matches attr last))

/-- When the next call of a search meets what is claimed. -/
def Search.Allowed (search : Search) (call : FindCall) : Prop :=
  let entries := search.hdir.g.drop search.hdir.ctr
  entries = [] ∨ call.Overflows search.level ∨ call.Allowed search.hdir.attr entries ∧
      (search.level = .standard ∨
        matching search.hdir.attr (call.looked search.hdir.attr entries) = [])

/-- When the start of a search meets what is claimed. -/
def FindRequest.Allowed (router : FSRouter) (glob : List UInt8 → List Entry)
    (request : FindRequest) : Prop :=
  request.pszFileSpec.length < 260 ∧
    (¬ (request.phDir = HDIR_SYSTEM ∨ request.phDir = HDIR_CREATE) ∨
      255 < request.pszFileSpec.length ∨
      ∃ rc t, pathconv router (request.pszFileSpec.map toBackslash) = .ok (rc, t) ∧
        (rc = 0 → t.length ≤ 255 → ∀ level, Level.ofULONG request.ulInfoLevel = some level →
          request.call.Overflows level ∨ request.call.Allowed request.flAttribute (glob t) ∧
              (matching request.flAttribute
                  (request.call.looked request.flAttribute (glob t)) = [] ∨
                ∀ first, (glob t).head? = some first → Matches request.flAttribute first)))

/-! ## The records of a call -/

namespace FindCall

variable {call : FindCall} {level : Level} {attr size : UInt32} {entries : List Entry}

theorem matching_looked : matching attr (call.looked attr entries) =
      (matching attr entries).take call.pcFileNames.toNat :=
  filter_batch _ _

theorem fills (fine : ∀ entry ∈ call.looked attr entries, entry.Fine) :
    Fills level attr call.pcFileNames.toNat 0 .empty (call.looked attr entries)
      (call.filled level attr entries) :=
  fills_fill fine

theorem answer_of_rc {filled : Filled} (rc : filled.rc = 0) : call.answer level size filled =
      ⟨0, call.pFindBuf + UInt32.ofNat filled.j * level.size - UInt32.ofNat filled.j * size,
        UInt32.ofNat filled.j * size, UInt32.ofNat filled.j, filled.buf⟩ := by
  unfold answer
  rw [if_neg (not_not.mpr rc)]

theorem answer_rc_of_not_fine (broken : ¬ ∀ entry ∈ call.looked attr entries, entry.Fine) :
    (call.answer level size (call.filled level attr entries)).rc = 208 ∨
      (call.answer level size (call.filled level attr entries)).rc = 87 := by
  have codes : (call.filled level attr entries).rc = 208 ∨
      (call.filled level attr entries).rc = 87 := by
    obtain ⟨entry, member, notFine⟩ :
        ∃ entry ∈ call.looked attr entries, ¬ entry.Fine := by
      simpa using broken
    exact fill_rc ⟨entry, member, notFine⟩
  unfold answer
  cases codes with
  | inl long =>
    rw [if_pos (by rw [long]; decide)]
    exact .inl long
  | inr unknown =>
    rw [if_pos (by rw [unknown]; decide)]
    exact .inr unknown

theorem answer_rc_ne {code : UInt32} (success : code ≠ 0) (long : code ≠ 208)
    (unknown : code ≠ 87) :
    (call.answer level size (call.filled level attr entries)).rc ≠ code := by
  by_cases fine : ∀ entry ∈ call.looked attr entries, entry.Fine
  · rw [answer_of_rc (call.fills fine).rc]
    exact success.symm
  · intro same
    have codes := @answer_rc_of_not_fine call level attr size entries fine
    rw [same] at codes
    exact codes.elim long unknown

theorem fine_of_success
    (success : (call.answer level size (call.filled level attr entries)).rc = 0) :
    ∀ entry ∈ call.looked attr entries, entry.Fine := by
  by_contra broken
  have codes := @answer_rc_of_not_fine call level attr size entries broken
  rw [success] at codes
  exact absurd codes (by decide)

variable {entry : Entry}

theorem record_ne_none (selected : selects attr entry = true) :
    entry.record level ≠ none := by
  obtain ⟨stat, found, -⟩ := selects_iff.mp selected
  simp [Entry.record, found]

theorem batchRight_nil_iff (fine : ∀ entry ∈ call.looked attr entries, entry.Fine)
    (none : matching attr (call.looked attr entries) = []) :
    BatchRight level call [] (call.answer level size (call.filled level attr entries)) ↔
      call.looked attr entries = [] ∨ 4 ≤ call.cbBuf.toNat := by
  have fills := @FindCall.fills call level attr entries fine
  have j : (call.filled level attr entries).j = 0 := by
    rw [fills.j_eq, none]
    rfl
  have written := fills.written_of_none none
  rw [answer_of_rc fills.rc, j]
  constructor
  · intro right
    have within := right.within
    rw [written] at within
    by_cases nothing : call.looked attr entries = []
    · exact .inl nothing
    · rw [if_neg nothing] at within
      exact .inr (le_trans (Nat.le_max_right ..) within)
  · intro fits
    refine ⟨rfl, rfl, ?_, ?_, ?_, ?_⟩
    · intro place entry found
      cases found
    · intro place bound
      cases bound
    · rw [written]
      cases fits with
      | inl nothing =>
        rw [if_pos nothing]
        exact Nat.zero_le _
      | inr fits =>
        split
        · exact Nat.zero_le _
        · exact max_le (Nat.zero_le _) fits
    · simp

theorem not_batchRight_cons_cons (fine : ∀ entry ∈ call.looked attr entries, entry.Fine)
    {first second : Entry} {rest : List Entry}
    (several : matching attr (call.looked attr entries) = first :: second :: rest) :
    ¬ BatchRight level call (first :: second :: rest)
      (call.answer level size (call.filled level attr entries)) := by
  intro right
  have fills := @FindCall.fills call level attr entries fine
  have placed := right.placed 1 second rfl
  rw [answer_of_rc fills.rc] at placed
  have nothing := fills.info_of_pos Nat.zero_lt_one
  have member : second ∈ matching attr (call.looked attr entries) := by
    rw [several]
    simp
  exact record_ne_none (List.mem_filter.mp member).2 (placed.symm.trans nothing)

theorem length_dropLast_of_one {looked : List Entry} (one : matching attr looked = [entry]) :
    (matching attr looked.dropLast).length =
      if ∃ last, looked.getLast? = some last ∧ Matches attr last then 0 else 1 := by
  cases ending : looked.getLast? with
  | none =>
    rw [List.getLast?_eq_none_iff.mp ending] at one
    cases one
  | some last =>
    have split := List.dropLast_append_getLast? last ending
    have parts : matching attr looked.dropLast ++ matching attr [last] = [entry] := by
      rw [← one]
      conv_rhs => rw [← split]
      exact (List.filter_append ..).symm
    have lengths := congrArg List.length parts
    rw [List.length_append, List.length_singleton] at lengths
    by_cases matched : Matches attr last
    · have single : matching attr [last] = [last] :=
        List.filter_cons_of_pos (selects_iff.mpr matched)
      rw [single, List.length_singleton] at lengths
      rw [if_pos ⟨last, rfl, matched⟩]
      omega
    · have nothing : matching attr [last] = [] :=
        List.filter_cons_of_neg (selects_iff.not.mpr matched)
      rw [nothing, List.length_nil] at lengths
      rw [if_neg]
      · omega
      · rintro ⟨other, same, matched'⟩
        cases same
        exact matched matched'

theorem nextOf_eq_zero_iff {count j : Nat} :
    nextOf level count j = 0 ↔ j + 1 = count := by
  unfold nextOf
  cases level with
  | standard => simp [Level.size]
  | standardL => simp [Level.size]

theorem size_le_cbBuf (accepted : ¬ call.Overflows level)
    (few : call.pcFileNames.toNat = 1 ∨ call.pcFileNames.toNat = 2) :
    level.size.toNat ≤ call.cbBuf.toNat := by
  have fits : ¬ call.cbBuf < call.pcFileNames * level.size :=
    fun less => accepted (.inr (.inr less))
  have bound := UInt32.le_iff_toNat_le.mp (UInt32.not_lt.mp fits)
  rw [UInt32.toNat_mul] at bound
  have small : level.size.toNat ≤ 296 := by
    cases level with
    | standard => decide
    | standardL => decide
  cases few with
  | inl one =>
    rw [one, Nat.one_mul, Nat.mod_eq_of_lt (by omega)] at bound
    exact bound
  | inr two =>
    rw [two, Nat.mod_eq_of_lt (by omega)] at bound
    omega

theorem batchRight_one_iff (fine : ∀ entry ∈ call.looked attr entries, entry.Fine)
    (accepted : ¬ call.Overflows level)
    (one : matching attr (call.looked attr entries) = [entry]) :
    BatchRight level call [entry] (call.answer level size (call.filled level attr entries)) ↔
      (call.pcFileNames.toNat = 1 ∨ call.pcFileNames.toNat = 2 ∧
        ∀ last, (call.looked attr entries).getLast? = some last →
          ¬ Matches attr last) ∧ size = level.size := by
  have fills := @FindCall.fills call level attr entries fine
  have some : call.looked attr entries ≠ [] := by
    intro nothing
    rw [nothing] at one
    cases one
  have j : (call.filled level attr entries).j = 1 := by
    rw [fills.j_eq, one]
    rfl
  have before := length_dropLast_of_one one
  have next := fills.next_zero
  rw [if_neg some, Nat.zero_add, before] at next
  rw [answer_of_rc fills.rc, j]
  constructor
  · intro right
    constructor
    · have linked := right.linked 0 Nat.zero_lt_one
      have last := nextOf_eq_zero_iff.mp (Option.some.inj (next.symm.trans linked))
      split at last
      · exact .inl last.symm
      · rename_i other
        refine .inr ⟨last.symm, ?_⟩
        intro last found matched
        exact other ⟨last, found, matched⟩
    · have back := right.back
      grind
  · rintro ⟨few, rfl⟩
    have last : (matching attr (call.looked attr entries).dropLast).length + 1 =
        call.pcFileNames.toNat := by
      cases few with
      | inl single =>
        have less := @length_filter_dropLast_batch_lt _ (selects attr)
          call.pcFileNames.toNat (by omega) entries
        change (matching attr (call.looked attr entries).dropLast).length < _
          at less
        omega
      | inr double =>
        rw [before, if_neg, double.1]
        rintro ⟨last, found, matched⟩
        exact double.2 last found matched
    rw [before] at last
    refine ⟨rfl, rfl, ?_, ?_, ?_, ?_⟩
    · intro place other found
      cases place with
      | zero =>
        cases found
        refine fills.info_zero.trans ?_
        rw [one]
        rfl
      | succ place => cases found
    · intro place bound
      have first : place = 0 := by simpa using bound
      subst first
      refine next.trans ?_
      rw [nextOf_eq_zero_iff.mpr last]
      rfl
    · refine le_trans (fills.written_le (Nat.zero_le _)) (size_le_cbBuf accepted ?_)
      exact few.imp_right And.left
    · simp

theorem batchRight_iff (accepted : ¬ call.Overflows level) :
    BatchRight level call ((matching attr entries).take call.pcFileNames.toNat)
        (call.answer level size (call.filled level attr entries)) ↔
      call.Allowed attr entries ∧
        (size = level.size ∨ matching attr (call.looked attr entries) = []) := by
  rw [← matching_looked]
  by_cases fine : ∀ entry ∈ call.looked attr entries, entry.Fine
  · unfold Allowed
    cases found : matching attr (call.looked attr entries) with
    | nil =>
      rw [batchRight_nil_iff fine found, and_iff_right fine]
      simp
    | cons first rest =>
      cases rest with
      | nil =>
        rw [batchRight_one_iff fine accepted found, and_iff_right fine]
        simp
      | cons second rest =>
        apply iff_of_false (not_batchRight_cons_cons fine found)
        simp
  · apply iff_of_false
    · exact fun right => fine (fine_of_success right.success)
    · exact fun allowed => fine allowed.1.1

end FindCall

/-! ## Calls of a search -/

theorem FindCall.not_holds_of_overflows {call : FindCall} {level : Level}
    (overflows : call.Overflows level) : ¬ call.Holds level := by
  rintro ⟨some, bounded, fits⟩
  have bound := UInt32.le_iff_toNat_le.mp bounded
  rcases overflows with none | large | less
  · exact some none
  · exact absurd bounded (UInt32.not_le.mpr large)
  · have wrapped := UInt32.lt_iff_toNat_lt.mp less
    rw [UInt32.toNat_mul, Nat.mod_eq_of_lt (by omega)] at wrapped
    omega

theorem Level.standard_size_eq_iff {level : Level} :
    Level.standard.size = level.size ↔ level = .standard := by
  cases level with
  | standard => simp
  | standardL => simp [Level.size]

theorem FindCall.matching_drop_looked {call : FindCall} {attr : UInt32} {entries : List Entry} :
    matching attr (entries.drop (call.looked attr entries).length) = (matching attr entries).drop
        ((matching attr entries).take call.pcFileNames.toNat).length := by
  rw [drop_length_take]
  exact filter_drop_batch _ _

namespace Search

variable {search : Search} {call : FindCall}

theorem after_of_refused {rc : UInt32} (refused : rc ≠ 0) :
    search.after (call.answerOf rc, search.hdir) = search := by
  unfold after FindCall.answerOf
  rw [if_neg refused]
  rfl

theorem Good.after_filled (good : search.Good) {answer : FindAnswer} {i : Nat}
    (right : BatchRight search.level call (search.todo.take call.pcFileNames.toNat) answer)
    (looked : i = (call.looked search.hdir.attr (search.hdir.g.drop search.hdir.ctr)).length) :
    (search.after
      (answer, { search.hdir with ctr := search.hdir.ctr + i })).Good where
  level := good.level
  inside := by
    have bound := length_batch_le (p := selects search.hdir.attr)
      call.pcFileNames.toNat (search.hdir.g.drop search.hdir.ctr)
    change (call.looked _ _).length ≤ _ at bound
    rw [← looked, List.length_drop] at bound
    have inside := good.inside
    change search.hdir.ctr + i ≤ search.hdir.g.length
    omega
  position := by
    have next := @FindCall.matching_drop_looked call search.hdir.attr
      (search.hdir.g.drop search.hdir.ctr)
    rw [good.position, ← looked, List.drop_drop] at next
    refine next.trans ?_
    unfold todo after
    rw [if_pos right.success, right.count, List.drop_drop]
    rfl

theorem Good.meets_iff (good : search.Good) :
    search.Meets call ↔ search.Allowed call := by
  unfold Meets Allowed fsFindNext
  by_cases finished : search.hdir.ctr = search.hdir.g.length
  · have nothing : search.hdir.g.drop search.hdir.ctr = [] := by
      rw [finished, List.drop_length]
    rw [if_pos finished]
    apply iff_of_true
    · refine ⟨.inl ⟨rfl, ?_⟩, ?_⟩
      · rw [← good.position, nothing]
        rfl
      · rw [after_of_refused (by decide)]
        exact good
    · exact .inl nothing
  have more : search.hdir.g.drop search.hdir.ctr ≠ [] := by
    intro nothing
    have bound := List.drop_eq_nil_iff.mp nothing
    exact finished (le_antisymm good.inside bound)
  rw [if_neg finished, good.level]
  dsimp only
  rw [or_iff_right more]
  by_cases overflows : call.Overflows search.level
  · rw [if_pos overflows]
    apply iff_of_true
    · refine ⟨.inr (.inl ⟨rfl, FindCall.not_holds_of_overflows overflows⟩), ?_⟩
      exact good
    · exact .inl overflows
  rw [if_neg overflows, or_iff_right overflows]
  have batch_iff := @FindCall.batchRight_iff call search.level search.hdir.attr
    Level.standard.size (search.hdir.g.drop search.hdir.ctr) overflows
  rw [good.position, Level.standard_size_eq_iff] at batch_iff
  rw [← batch_iff]
  constructor
  · rintro ⟨noMore | refused | right, -⟩
    · exact absurd noMore.1 (FindCall.answer_rc_ne (by decide) (by decide) (by decide))
    · exact absurd refused.1 (FindCall.answer_rc_ne (by decide) (by decide) (by decide))
    · exact right
  · intro right
    have fine := FindCall.fine_of_success right.success
    have fills := @FindCall.fills call search.level _ _ fine
    refine ⟨.inr (.inr right), ?_⟩
    rw [if_neg (not_not.mpr fills.rc)]
    exact good.after_filled right fills.i

end Search

/-! ## The start of a search -/

section

variable {router : FSRouter} {glob : List UInt8 → List Entry} {request : FindRequest}

/-- The place that is handed over behind a start with at most one record is the
right one exactly if that record is of the first path. -/
theorem position_first_iff {attr : UInt32} {entries : List Entry} {count : Nat}
    (few : ((matching attr entries).take count).length ≤ 1) :
    matching attr (entries.drop ((matching attr entries).take count).length) =
        (matching attr entries).drop ((matching attr entries).take count).length ↔
      (matching attr entries).take count = [] ∨
        ∀ first, entries.head? = some first → Matches attr first := by
  cases taken : (matching attr entries).take count with
  | nil => exact iff_of_true rfl (.inl rfl)
  | cons record others =>
    rw [taken] at few
    have one : (record :: others).length = 1 := le_antisymm few (by simp)
    rw [one]
    cases entries with
    | nil => simp [matching] at taken
    | cons entry rest =>
      by_cases selected : selects attr entry = true
      · rw [Fills.matching_cons_of_pos selected]
        apply iff_of_true rfl
        refine .inr fun first isFirst => ?_
        cases isFirst
        exact selects_iff.mp selected
      · rw [Fills.matching_cons_of_neg selected] at taken ⊢
        apply iff_of_false
        · intro same
          have lengths := congrArg List.length same
          rw [List.drop_one, List.drop_one, List.tail_cons, List.length_tail] at lengths
          have nothing : matching attr rest = [] := List.eq_nil_of_length_eq_zero (by omega)
          simp [nothing] at taken
        · rintro (nothing | first)
          · cases nothing
          · exact selected (selects_iff.mpr (first entry rfl))

theorem good_first_iff {level : Level} {call : FindCall} {attr ulInfoLevel : UInt32}
    {entries : List Entry} (isLevel : Level.ofULONG ulInfoLevel = some level)
    (allowed : call.Allowed attr entries) :
    Search.Good ⟨⟨entries, (matching attr (call.looked attr entries)).length, attr,
          ulInfoLevel⟩, level,
          ((matching attr entries).take call.pcFileNames.toNat).length⟩ ↔
      matching attr (call.looked attr entries) = [] ∨
        ∀ first, entries.head? = some first → Matches attr first := by
  have few : (matching attr (call.looked attr entries)).length ≤ 1 := by
    rcases allowed.2 with ⟨none, -⟩ | ⟨one, -⟩
    · rw [none]
      exact Nat.zero_le _
    · exact one.le
  rw [FindCall.matching_looked] at few ⊢
  rw [← position_first_iff few]
  constructor
  · exact fun good => good.position
  · intro position
    refine ⟨isLevel, ?_, position⟩
    exact le_trans (List.length_take_le' ..) (List.length_filter_le ..)

namespace FindRequest

variable {t : List UInt8}

theorem fsFindFirst_of_starts (starts : request.Starts router t)
    (short : request.pszFileSpec.length < 260) :
    fsFindFirst router glob request = .ok (match Level.ofULONG request.ulInfoLevel with
        | none => (request.call.answerOf 124, none)
        | some level =>
          if request.call.Overflows level then (request.call.answerOf 111, none)
          else
            let filled := request.call.filled level request.flAttribute (glob t)
            (request.call.answer level level.size filled,
              if filled.rc ≠ 0 then none
              else
                some
                  { g := glob t
                    ctr := filled.j
                    attr := request.flAttribute
                    ulInfoLevel := request.ulInfoLevel })) := by
  obtain ⟨handle, name, converted, path⟩ := starts
  unfold fsFindFirst
  rw [if_neg (Nat.not_le.mpr short), if_neg (not_not.mpr handle),
    if_neg (Nat.not_lt.mpr name), converted, bind_ok]
  dsimp only [pure_eq_ok]
  rw [if_neg (not_not.mpr rfl), if_neg (Nat.not_lt.mpr path)]
  cases Level.ofULONG request.ulInfoLevel with
  | none => rfl
  | some level =>
    dsimp only
    split
    · rfl
    · rfl

theorem meets_iff_rightAt (starts : request.Starts router t)
    {outcome : FindAnswer × Option FindHandle}
    (served : fsFindFirst router glob request = .ok outcome) :
    request.Meets router glob ↔ request.RightAt glob t outcome := by
  constructor
  · rintro ⟨outcome', served', right, -⟩
    cases served.symm.trans served'
    exact right t starts
  · intro right
    refine ⟨outcome, served, ?_, fun nowhere => absurd ⟨t, starts⟩ nowhere⟩
    intro t' starts'
    cases starts.2.2.1.symm.trans starts'.2.2.1
    exact right

theorem meets_iff_of_starts (starts : request.Starts router t)
    (short : request.pszFileSpec.length < 260) :
    request.Meets router glob ↔ ∀ level, Level.ofULONG request.ulInfoLevel = some level →
        request.call.Overflows level ∨ request.call.Allowed request.flAttribute (glob t) ∧
            (matching request.flAttribute (request.call.looked request.flAttribute (glob t)) = [] ∨
              ∀ first, (glob t).head? = some first →
                Matches request.flAttribute first) := by
  rw [meets_iff_rightAt starts (fsFindFirst_of_starts starts short)]
  unfold RightAt
  cases isLevel : Level.ofULONG request.ulInfoLevel with
  | none => simp [FindCall.answerOf]
  | some level =>
    simp only [Option.some.injEq, forall_eq']
    by_cases overflows : request.call.Overflows level
    · rw [if_pos overflows]
      apply iff_of_true
      · exact .inl ⟨rfl, rfl, FindCall.not_holds_of_overflows overflows⟩
      · exact .inl overflows
    rw [if_neg overflows, or_iff_right overflows]
    have batch_iff := @FindCall.batchRight_iff request.call level
      request.flAttribute level.size (glob t) overflows
    rw [and_iff_left (.inl rfl)] at batch_iff
    constructor
    · rintro (refused | ⟨right, hdir, isHandle, -, -, good⟩)
      · exact absurd refused.1 (FindCall.answer_rc_ne (by decide) (by decide) (by decide))
      · have allowed := batch_iff.mp right
        have fills := @FindCall.fills request.call level _ _
          (FindCall.fine_of_success right.success)
        rw [if_neg (not_not.mpr fills.rc)] at isHandle
        cases isHandle
        rw [fills.j_eq, Nat.zero_add] at good
        exact ⟨allowed, (good_first_iff isLevel allowed).mp good⟩
    · rintro ⟨allowed, first⟩
      have right := batch_iff.mpr allowed
      have fills := @FindCall.fills request.call level _ _ (FindCall.fine_of_success right.success)
      refine .inr ⟨right, _, if_neg (not_not.mpr fills.rc), rfl, rfl, ?_⟩
      rw [fills.j_eq, Nat.zero_add]
      exact (good_first_iff isLevel allowed).mpr first

theorem meets_of_refused {rc : UInt32} (refused : rc ≠ 0)
    (served : fsFindFirst router glob request = .ok (request.call.answerOf rc, none))
    (nowhere : ¬ ∃ t, request.Starts router t) : request.Meets router glob := by
  refine ⟨_, served, ?_, fun _ => ⟨refused, rfl⟩⟩
  intro t starts
  exact absurd ⟨t, starts⟩ nowhere

theorem meets_iff : request.Meets router glob ↔ request.Allowed router glob := by
  unfold Allowed
  by_cases long : 260 ≤ request.pszFileSpec.length
  · have served : fsFindFirst router glob request = .error .writeOutside := if_pos long
    apply iff_of_false
    · rintro ⟨outcome, served', -⟩
      cases served.symm.trans served'
    · exact fun allowed => absurd allowed.1 (Nat.not_lt.mpr long)
  have short := Nat.lt_of_not_le long
  rw [and_iff_right short]
  by_cases noHandle : ¬ (request.phDir = HDIR_SYSTEM ∨ request.phDir = HDIR_CREATE)
  · have served : fsFindFirst router glob request =
        .ok (request.call.answerOf 6, none) :=
      (if_neg long).trans (if_pos noHandle)
    refine iff_of_true (meets_of_refused (by decide) served ?_) (.inl noHandle)
    rintro ⟨t, starts⟩
    exact noHandle starts.1
  rw [or_iff_right noHandle]
  by_cases longName : 255 < request.pszFileSpec.length
  · have served : fsFindFirst router glob request =
        .ok (request.call.answerOf 206, none) :=
      (if_neg long).trans ((if_neg noHandle).trans (if_pos longName))
    refine iff_of_true (meets_of_refused (by decide) served ?_) (.inl longName)
    rintro ⟨t, starts⟩
    exact absurd longName (Nat.not_lt.mpr starts.2.1)
  rw [or_iff_right longName]
  have begins : fsFindFirst router glob request = _ :=
    (if_neg long).trans ((if_neg noHandle).trans (if_neg longName))
  cases converted : pathconv router (request.pszFileSpec.map toBackslash) with
  | error fault =>
    rw [converted, bind_error] at begins
    apply iff_of_false
    · rintro ⟨outcome, served, -⟩
      cases begins.symm.trans served
    · rintro ⟨rc, t, isConverted, -⟩
      cases isConverted
  | ok result =>
    obtain ⟨rc, t⟩ := result
    rw [converted, bind_ok] at begins
    dsimp only [pure_eq_ok] at begins
    simp only [Except.ok.injEq, Prod.mk.injEq, existsAndEq, true_and]
    by_cases failed : rc ≠ 0
    · rw [if_pos failed] at begins
      refine iff_of_true (meets_of_refused (by decide) begins ?_)
        fun success => absurd success failed
      rintro ⟨t', starts⟩
      cases converted.symm.trans starts.2.2.1
      exact failed rfl
    rw [if_neg failed] at begins
    have success := not_not.mp failed
    by_cases longPath : 255 < t.length
    · rw [if_pos longPath] at begins
      refine iff_of_true (meets_of_refused (by decide) begins ?_)
        fun _ shortPath => absurd longPath (Nat.not_lt.mpr shortPath)
      rintro ⟨t', starts⟩
      cases converted.symm.trans starts.2.2.1
      exact absurd longPath (Nat.not_lt.mpr starts.2.2.2)
    · have starts : request.Starts router t := by
        refine ⟨not_not.mp noHandle, Nat.not_lt.mp longName, ?_, Nat.not_lt.mp longPath⟩
        rw [converted, success]
      rw [meets_iff_of_starts starts short]
      constructor
      · exact fun every _ _ => every
      · exact fun every => every success (Nat.not_lt.mp longPath)

end FindRequest

end

section

variable (router : FSRouter) (glob : List UInt8 → List Entry)

/-- A search is started, or goes on, by a call that is allowed. -/
inductive FindStep : Option Search → Option Search → Prop
  | first {request : FindRequest} {level : Level} {answer : FindAnswer} {hdir : FindHandle} :
      request.Allowed router glob →
      Level.ofULONG request.ulInfoLevel = some level →
      fsFindFirst router glob request = .ok (answer, some hdir) →
      FindStep none (some ⟨hdir, level, answer.pcFileNames.toNat⟩)
  | next {search : Search} {call : FindCall} : search.Allowed call →
      FindStep (some search) (some (search.after (fsFindNext search.hdir call)))

variable {router glob}

theorem good_of_first {request : FindRequest} {level : Level} {answer : FindAnswer}
    {hdir : FindHandle} (allowed : request.Allowed router glob)
    (isLevel : Level.ofULONG request.ulInfoLevel = some level)
    (served : fsFindFirst router glob request = .ok (answer, some hdir)) :
    Search.Good ⟨hdir, level, answer.pcFileNames.toNat⟩ := by
  obtain ⟨outcome, served', right, refused⟩ := FindRequest.meets_iff.mpr allowed
  cases served.symm.trans served'
  by_cases nowhere : ¬ ∃ t, request.Starts router t
  · cases (refused nowhere).2
  obtain ⟨t, starts⟩ := not_not.mp nowhere
  have rightAt := right t starts
  unfold FindRequest.RightAt at rightAt
  rw [isLevel] at rightAt
  rcases rightAt with ⟨-, none, -⟩ | ⟨records, hdir', same, -, -, good⟩
  · cases none
  · cases same
    rw [records.count]
    exact good

/-- A file, or a directory, of the host. -/
def fileOf (name : UInt8) (st_mode : UInt32) : Entry where
  fname := [0x2f, name]
  stat := some ⟨st_mode, 1, 512, 1, ⟨100, 0, 1, 0, 0, 0⟩, ⟨100, 0, 1, 0, 0, 0⟩,
    ⟨100, 0, 1, 0, 0, 0⟩⟩

/-- A request for a number of records, with a large buffer. -/
def requestOf (flAttribute pcFileNames : UInt32) : FindRequest where
  pszFileSpec := [0x61, 0x3a, 0x2f, 0x2a]
  phDir := HDIR_SYSTEM
  flAttribute := flAttribute
  call := ⟨0x1000, 0x1000, pcFileNames⟩
  ulInfoLevel := 1

theorem requestOf_starts (flAttribute pcFileNames : UInt32) :
    (requestOf flAttribute pcFileNames).Starts FSRouter.init [0x2f, 0x2a] :=
  ⟨.inl rfl, (by decide : 4 ≤ 255), rfl, by decide⟩

end

end OsFree.Os2fs
