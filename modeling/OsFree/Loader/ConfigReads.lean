import OsFree.Loader.ConfigText

/-!
# Reading a configuration file

Whatever the reads get, `process_cfg` takes the same lines from the file, if no read ends
at a byte that `getline` takes for something else.
-/

namespace OsFree.Loader

open Machine
open LineStream

section

variable (below : UInt8) (answers : Nat → Bool)

/-- The lines of a file fit into the buffers, up to the first one that is not accepted. -/
def LinesFit : List UInt8 → Nat → List Line → Prop
  | str, _, [] => str = []
  | str, calls, line :: rest =>
    0 ∉ line.text ∧ line.ending ≠ [] ∧
      (line.text ++ line.ending).length < bufsize ∧ ClearBefore below line.text ∧
      (str ++ part (cleaned line.text)).length < bufsize ∧
      if isContinued (cleaned line.text) then
        LinesFit (str ++ part (cleaned line.text)) calls rest
      else answers calls = true → LinesFit [] (calls + 1) rest

/-- How far a file is read, at least. -/
def reach : Nat → List Line → Nat
  | _, [] => 0
  | calls, line :: rest =>
    (line.text ++ line.ending).length +
      if isContinued (cleaned line.text) then reach calls rest
      else if answers calls then reach (calls + 1) rest else 0

/-- What is read and what is behind it in the buffer and in the file are not mixed up. -/
def EndsWell (got stale later : List UInt8) : Prop :=
  (got.getLast? = some 13 → later.head? = some 10 ∧ stale.head? ≠ some 10) ∧
    (got.getLast? = some 10 ∨ got.getLast? = some 13 ∨
      (stale.head? ≠ some 10 ∧ stale.head? ≠ some 13))

end

section

variable {text ending rest stale : List UInt8} {n : Nat}

theorem takeWhile_of_plain (plain : Plain text) (nonzero : 0 ∉ text) :
    (text.takeWhile fun c => c != 13 && c != 10 && c != 0) = text := by
  refine List.takeWhile_eq_self_iff.mpr fun c member => ?_
  have zero : c ≠ 0 := fun zero => nonzero (zero ▸ member)
  simp [plain c member, zero]

theorem getline_of_ends (plain : Plain text) (nonzero : 0 ∉ text)
    (ends : Ends ending rest) (read : text.length ≤ n)
    (fits : (text ++ ending).length < bufsize) :
    getline n (text ++ (ending ++ rest)) = .ok (text ++ ending, rest) := by
  have found : ((text ++ (ending ++ rest)).take n).takeWhile
      (fun c => c != 13 && c != 10 && c != 0) = text := by
    rw [List.take_append, List.take_of_length_le read, List.takeWhile_append,
      takeWhile_of_plain plain nonzero, if_pos rfl]
    have stops : ((ending ++ rest).take (n - text.length)).takeWhile
        (fun c => c != 13 && c != 10 && c != 0) = [] := by
      cases n - text.length with
      | zero => rw [List.take_zero, List.takeWhile_nil]
      | succ n => cases ends <;> rfl
    rw [stops, List.append_nil]
  rw [getline]
  simp only [found, List.drop_left]
  cases ends with
  | lf => simpa [takeIf] using fits
  | crlf => simpa [takeIf] using fits
  | cr single =>
    cases rest with
    | nil => simpa [takeIf] using fits
    | cons c rest =>
      have other : c ≠ 10 := fun lf => single (by rw [lf]; rfl)
      simpa [takeIf, other] using fits

theorem getline_of_plain (plain : Plain text) (nonzero : 0 ∉ text)
    (noLf : stale.head? ≠ some 10) (noCr : stale.head? ≠ some 13)
    (fits : text.length < bufsize) :
    getline text.length (text ++ stale) = .ok (text, stale) := by
  have found : ((text ++ stale).take text.length).takeWhile
      (fun c => c != 13 && c != 10 && c != 0) = text := by
    rw [List.take_left, takeWhile_of_plain plain nonzero]
  rw [getline]
  simp only [found, List.drop_left]
  cases stale with
  | nil => simpa [takeIf] using fits
  | cons c stale =>
    have lf : c ≠ 10 := fun lf => noLf (by rw [lf]; rfl)
    have cr : c ≠ 13 := fun cr => noCr (by rw [cr]; rfl)
    simpa [takeIf, lf, cr] using fits

end

/-- A part of a line, of whose end no more than the carriage return is there. -/
def Pending (s later : List UInt8) : Prop :=
  Plain s ∨ ∃ text, Plain text ∧ s = text ++ [13] ∧ later.head? = some 10

section

variable {s text ending rest later : List UInt8}

theorem trim_of_ends (plain : Plain text) (ends : Ends ending rest) :
    trim (text ++ ending) = text := by
  cases ends with
  | lf => exact trim_append plain (.inl rfl)
  | crlf => exact trim_append plain (.inr rfl)
  | cr => exact trim_append plain (.inr rfl)

theorem exists_line (pending : Pending s (text ++ (ending ++ rest))) (plain : Plain text)
    (ends : Ends ending rest) :
    ∃ line : Line, s ++ (text ++ ending) = line.text ++ line.ending ∧
      lines (s ++ (text ++ (ending ++ rest))) = line :: lines rest ∧
      trim (s ++ (text ++ ending)) = line.text ∧ ∀ c ∈ text, c ∈ line.text := by
  obtain before | ⟨first, before, rfl, lf⟩ := pending
  · have whole : Plain (s ++ text) := before.append plain
    refine ⟨⟨s ++ text, ending⟩, (List.append_assoc ..).symm, ?_, ?_,
      fun _ => List.mem_append_right s⟩
    · rw [← List.append_assoc, lines_of_ends whole ends]
    · rw [← List.append_assoc, trim_of_ends whole ends]
  cases text with
  | cons c text => exact absurd (Option.some.inj lf) (plain c List.mem_cons_self).1
  | nil =>
    cases ends with
    | lf =>
      refine ⟨⟨first, [13, 10]⟩, ?_, ?_, ?_, fun _ member => (List.not_mem_nil member).elim⟩
      · simp
      · have := lines_of_ends before (@Ends.crlf rest)
        simpa using this
      · have := trim_of_ends before (@Ends.crlf rest)
        simpa using this
    | crlf => exact absurd (Option.some.inj lf) (by decide)
    | cr => exact absurd (Option.some.inj lf) (by decide)

theorem exists_first (plain : Plain s) (filled : s ≠ []) (later : List UInt8) :
    ∃ more ending rest, lines (s ++ later) = ⟨s ++ more, ending⟩ :: rest := by
  obtain ⟨more, rest, first, rfl, rfl | ⟨ending, behind, rfl, ends⟩⟩ := exists_ends later
  · refine ⟨more, [], [], ?_⟩
    rw [List.append_nil, lines_of_plain (plain.append first), if_neg (by simp [filled])]
  · have whole := lines_of_ends (plain.append first) ends
    rw [List.append_assoc] at whole
    exact ⟨more, ending, _, whole⟩

theorem plain_of_pending {c : UInt8} (pending : Pending s (c :: rest)) (other : c ≠ 10) :
    Plain s := by
  obtain plain | ⟨_, _, _, lf⟩ := pending
  · exact plain
  · exact absurd (Option.some.inj lf) other

end

section

variable (below : UInt8) (answers : Nat → Bool)

/-- The lines that are processed, when some bytes are left of the file. -/
def processed (config : ConfigLines) (bytes : List UInt8) : List (List UInt8) := config.calls ++
    upTo answers config.calls.length (logicalFrom config.str (texts (config.s ++ bytes)))

/-- How far the file is read, from the start of the line on that has begun. -/
def reaches (config : ConfigLines) (bytes : List UInt8) : Nat :=
  reach answers config.calls.length (lines (config.s ++ bytes))

/-- The bytes that are left of the file can be taken as they are. -/
structure CanRead (config : ConfigLines) (bytes : List UInt8) : Prop where
  pending : Pending config.s bytes
  fits : LinesFit below answers config.str config.calls.length (lines (config.s ++ bytes))

/-- Bytes have been taken from the file. -/
structure Taken (config : ConfigLines) (bytes : List UInt8) (config' : ConfigLines)
    (bytes' : List UInt8) : Prop where
  canRead : CanRead below answers config' bytes'
  processed_eq : processed answers config' bytes' = processed answers config bytes
  reaches_eq : reaches answers config' bytes' + (config.s ++ bytes).length =
    reaches answers config bytes + (config'.s ++ bytes').length

/-- Bytes have been taken from the file, or a line was not accepted. -/
inductive Progress (config : ConfigLines) (bytes later : List UInt8) :
    ConfigLines × Turn → Prop where
  | goesOn {config' : ConfigLines} (taken : Taken below answers config bytes config' later) :
      Progress config bytes later (config', .goesOn)
  | returns {config' : ConfigLines} (calls_eq : config'.calls = processed answers config bytes) :
      Progress config bytes later (config', .returns (-1))

end

section

variable {below : UInt8} {answers : Nat → Bool} {config config' : ConfigLines}
variable {bytes later : List UInt8}

theorem Taken.progress {done : ConfigLines × Turn} {bytes' : List UInt8}
    (taken : Taken below answers config bytes config' bytes')
    (progress : Progress below answers config' bytes' later done) :
    Progress below answers config bytes later done := by
  cases progress with
  | goesOn further =>
    refine .goesOn ⟨further.canRead, further.processed_eq.trans taken.processed_eq, ?_⟩
    have first := taken.reaches_eq
    have second := further.reaches_eq
    omega
  | returns calls_eq => exact .returns (calls_eq.trans taken.processed_eq)

theorem taken_of_open {text s : List UInt8} (whole : s = config.s ++ text)
    (pending : Pending s later)
    (fits : LinesFit below answers config.str config.calls.length
      (lines (config.s ++ (text ++ later)))) :
    Taken below answers config (text ++ later) { config with s } later := by
  subst whole
  rw [← List.append_assoc] at fits
  refine ⟨⟨pending, fits⟩, ?_, ?_⟩
  · simp only [processed, List.append_assoc]
  · simp only [reaches, List.append_assoc]

theorem endLine_progress {line : Line} {s : List UInt8} (whole : s = line.text ++ line.ending)
    (begins : config.s ++ bytes = s ++ later)
    (first : lines (config.s ++ bytes) = line :: lines later)
    (trimmed : trim s = line.text)
    (fits : LinesFit below answers config.str config.calls.length (lines (config.s ++ bytes))) :
    ∃ done, endLine below answers { config with s } = .ok done ∧
      Progress below answers config bytes later done := by
  rw [first] at fits
  obtain ⟨-, -, -, clear, short, rest⟩ := fits
  have length_eq : (config.s ++ bytes).length =
      (line.text ++ line.ending).length + later.length := by
    rw [begins, whole, List.length_append]
  refine ⟨_, endLine_eq trimmed clear short, ?_⟩
  cases more : isContinued (cleaned line.text) with
  | true =>
    rw [more, if_pos rfl] at rest
    refine .goesOn ⟨⟨.inl (List.forall_mem_nil _), rest⟩, ?_, ?_⟩
    · simp [processed, texts, first, logicalFrom, more]
    · simp only [reaches, first, reach, more, if_pos, List.nil_append]
      omega
  | false =>
    rw [more, if_neg Bool.false_ne_true] at rest
    cases accepted : answers config.calls.length with
    | true =>
      have count : (config.calls ++ [config.str ++ part (cleaned line.text)]).length =
          config.calls.length + 1 := List.length_append
      refine .goesOn ⟨⟨.inl (List.forall_mem_nil _), ?_⟩, ?_, ?_⟩
      · rw [count]
        exact rest accepted
      · simp [processed, texts, first, logicalFrom, more, upTo, accepted]
      · simp only [reaches, first, reach, more, accepted, if_pos, count,
          List.nil_append, if_neg Bool.false_ne_true]
        omega
    | false =>
      refine .returns ?_
      simp [processed, texts, first, logicalFrom, more, upTo, accepted]

end

section

variable {below last : UInt8} {answers : Nat → Bool} {config config' : ConfigLines}
variable {behind fuel : Nat} {p line rest : List UInt8}

theorem readLines_more {turn : Turn} (filled : p.headD 0 ≠ 0)
    (got : getline (p.length - behind) p = .ok (line, rest))
    (fits : (config.s ++ line).length < bufsize) (more : behind < rest.length)
    (ended : endLine below answers { config with s := config.s ++ line } = .ok (config', turn)) :
    readLines below answers behind last (fuel + 1) config p =
      match turn with
      | .goesOn => readLines below answers behind last fuel config' rest
      | turn => some (.ok (config', turn)) := by
  rw [List.length_append] at fits
  rw [readLines, if_neg filled, got]
  simp only [andThen, putBehind_eq fits, if_pos more, ended]
  cases turn <;> rfl

theorem readLines_last (filled : p.headD 0 ≠ 0)
    (got : getline (p.length - behind) p = .ok (line, rest))
    (fits : (config.s ++ line).length < bufsize) (all : rest.length ≤ behind) :
    readLines below answers behind last (fuel + 1) config p =
      if last = 10 then some (endLine below answers { config with s := config.s ++ line })
      else some (.ok ({ config with s := config.s ++ line }, .goesOn)) := by
  rw [List.length_append] at fits
  rw [readLines, if_neg filled, got]
  simp only [andThen, putBehind_eq fits, if_neg all.not_gt]

end

section

variable {below : UInt8} {answers : Nat → Bool} {config : ConfigLines}
variable {text stale later : List UInt8} {fuel : Nat}

theorem le_reach (line : Line) (calls : Nat) (rest : List Line) :
    (line.text ++ line.ending).length ≤ reach answers calls (line :: rest) :=
  Nat.le_add_right ..

theorem headD_ne_zero (filled : text ≠ []) (nonzero : 0 ∉ text) :
    (text ++ stale).headD 0 ≠ 0 := by
  cases text with
  | nil => exact absurd rfl filled
  | cons c text => exact fun zero => nonzero (zero ▸ List.mem_cons_self)

theorem readLines_of_plain (plain : Plain text) (filled : text ≠ [])
    (canRead : CanRead below answers config (text ++ later))
    (ends : (config.s ++ text).length ≤ reaches answers config (text ++ later) →
      EndsWell text stale later) :
    ∃ done, readLines below answers stale.length (text.getLastD 0) (fuel + 1) config
        (text ++ stale) = some (.ok done) ∧
      Progress below answers config (text ++ later) later done := by
  obtain ⟨front, c, rfl⟩ := List.eq_nil_or_concat' text |>.resolve_left filled
  have last := plain c (by simp)
  have before : Plain config.s := by
    cases front with
    | nil => exact plain_of_pending canRead.pending last.1
    | cons c front => exact plain_of_pending canRead.pending (plain c (by simp)).1
  have whole := before.append plain
  obtain ⟨more, ending, rest, first⟩ := exists_first whole (by simp) later
  rw [List.append_assoc] at first
  have fits := canRead.fits
  rw [first] at fits
  obtain ⟨nonzero, -, short, -⟩ := fits
  simp only [List.length_append] at short
  obtain ⟨-, stops⟩ := ends (by
    rw [reaches, first]
    refine le_trans ?_ (le_reach ..)
    simp only [List.length_append]
    omega)
  rw [List.getLast?_concat, Option.some_inj, Option.some_inj] at stops
  obtain ⟨noLf, noCr⟩ := (stops.resolve_left last.1).resolve_left last.2
  have nonzero : 0 ∉ front ++ [c] := fun zero => nonzero (by simp at zero ⊢; tauto)
  have got : getline (((front ++ [c]) ++ stale).length - stale.length)
      ((front ++ [c]) ++ stale) = .ok (front ++ [c], stale) := by
    rw [List.length_append, Nat.add_sub_cancel]
    refine getline_of_plain plain nonzero noLf noCr ?_
    simp only [List.length_append]
    omega
  rw [readLines_last (headD_ne_zero (by simp) nonzero) got
    (by simp only [List.length_append]; omega) le_rfl, List.getLastD_concat, if_neg last.1]
  exact ⟨_, rfl, .goesOn (taken_of_open rfl (.inl whole) canRead.fits)⟩

theorem readLines_of_cr (plain : Plain text)
    (canRead : CanRead below answers config ((text ++ [13]) ++ later))
    (ends : (config.s ++ (text ++ [13])).length ≤ reaches answers config ((text ++ [13]) ++ later) →
      EndsWell (text ++ [13]) stale later) :
    ∃ done, readLines below answers stale.length 13 (fuel + 1) config
        ((text ++ [13]) ++ stale) = some (.ok done) ∧
      Progress below answers config ((text ++ [13]) ++ later) later done := by
  have before : Plain config.s := by
    cases text with
    | nil => exact plain_of_pending canRead.pending (by decide)
    | cons c text => exact plain_of_pending canRead.pending (plain c (by simp)).1
  have whole := before.append plain
  have fits := canRead.fits
  obtain ⟨ending, rest, first, longer⟩ : ∃ ending rest,
      lines (config.s ++ ((text ++ [13]) ++ later)) = ⟨config.s ++ text, ending⟩ :: rest ∧
        1 ≤ ending.length := by
    by_cases lf : later.head? = some 10
    · obtain ⟨behind, rfl⟩ := List.head?_eq_some_iff.mp lf
      have first := lines_of_ends whole (@Ends.crlf behind)
      exact ⟨_, _, by simpa using first, by decide⟩
    · have first := lines_of_ends whole (Ends.cr lf)
      exact ⟨_, _, by simpa using first, by decide⟩
  rw [first] at fits
  obtain ⟨nonzero, -, short, -⟩ := fits
  simp only [List.length_append] at short
  obtain ⟨next, -⟩ := ends (by
    rw [reaches, first]
    refine le_trans ?_ (le_reach ..)
    simp only [List.length_append, List.length_singleton]
    omega)
  obtain ⟨lf, single⟩ := next List.getLast?_concat
  have nonzero : 0 ∉ text := fun zero => nonzero (List.mem_append_right _ zero)
  have fits : (config.s ++ (text ++ [13])).length < bufsize := by
    simp only [List.length_append, List.length_singleton]
    omega
  have got : getline (((text ++ [13]) ++ stale).length - stale.length)
      ((text ++ [13]) ++ stale) = .ok (text ++ [13], stale) := by
    rw [List.length_append, Nat.add_sub_cancel, List.append_assoc, List.length_append]
    refine getline_of_ends plain nonzero (Ends.cr single) (Nat.le_add_right ..) ?_
    exact (List.length_append ▸ Nat.le_add_left _ config.s.length).trans_lt fits
  rw [readLines_last (headD_ne_zero (by simp) (by simpa using nonzero)) got
    fits le_rfl, if_neg (by decide)]
  refine ⟨_, rfl, .goesOn (taken_of_open rfl (.inr ⟨_, whole, ?_, lf⟩) canRead.fits)⟩
  rw [List.append_assoc]

theorem Ends.append {ending behind : List UInt8} (lineEnd : Ends ending behind)
    (whole : ¬ (behind = [] ∧ ending = [13])) (further : List UInt8) :
    Ends ending (behind ++ further) := by
  cases lineEnd with
  | lf => exact .lf
  | crlf => exact .crlf
  | cr single =>
    cases behind with
    | nil => exact absurd ⟨rfl, rfl⟩ whole
    | cons c behind => exact .cr single

theorem takes_line {ending behind : List UInt8} (plain : Plain text)
    (lineEnd : Ends ending behind) (whole : ¬ (behind = [] ∧ ending = [13]))
    (canRead : CanRead below answers config (text ++ (ending ++ (behind ++ later)))) :
    (text ++ (ending ++ (behind ++ stale))).headD 0 ≠ 0 ∧
      getline ((text ++ (ending ++ (behind ++ stale))).length - stale.length)
        (text ++ (ending ++ (behind ++ stale))) = .ok (text ++ ending, behind ++ stale) ∧
      (config.s ++ (text ++ ending)).length < bufsize ∧
      ∃ done,
        endLine below answers { config with s := config.s ++ (text ++ ending) } = .ok done ∧
        Progress below answers config (text ++ (ending ++ (behind ++ later)))
          (behind ++ later) done := by
  obtain ⟨line, parts, first, trimmed, within⟩ :=
    exists_line canRead.pending plain (Ends.append lineEnd whole later)
  have fits := canRead.fits
  rw [first] at fits
  obtain ⟨nonzero, -, short, -⟩ := fits
  have nonzero : 0 ∉ text := fun zero => nonzero (within 0 zero)
  rw [← parts] at short
  refine ⟨?_, ?_, short, ?_⟩
  · rw [← List.append_assoc]
    refine headD_ne_zero ?_ ?_
    · cases lineEnd <;> simp
    · cases lineEnd <;> simpa using nonzero
  · refine getline_of_ends plain nonzero (Ends.append lineEnd whole stale) ?_ ?_
    · simp only [List.length_append]
      omega
    · exact (List.length_append ▸ Nat.le_add_left _ config.s.length).trans_lt short
  · exact endLine_progress parts (by simp only [List.append_assoc]) first trimmed canRead.fits

theorem readLines_progress {p : List UInt8} (filled : p ≠ []) (enough : p.length ≤ fuel)
    (canRead : CanRead below answers config (p ++ later))
    (ends : (config.s ++ p).length ≤ reaches answers config (p ++ later) → EndsWell p stale later) :
    ∃ done, readLines below answers stale.length (p.getLastD 0) fuel config
        (p ++ stale) = some (.ok done) ∧
      Progress below answers config (p ++ later) later done := by
  induction fuel generalizing config p with
  | zero => exact absurd (List.eq_nil_of_length_eq_zero (Nat.le_zero.mp enough)) filled
  | succ fuel ih =>
    obtain ⟨text, tail, plain, rfl, rfl | ⟨ending, behind, rfl, lineEnd⟩⟩ := exists_ends p
    · rw [List.append_nil] at filled canRead ends ⊢
      exact readLines_of_plain plain filled canRead ends
    by_cases cut : behind = [] ∧ ending = [13]
    · obtain ⟨rfl, rfl⟩ := cut
      rw [List.append_nil] at canRead ends ⊢
      rw [List.getLastD_concat]
      exact readLines_of_cr plain canRead ends
    have assoc : ∀ further, (text ++ (ending ++ behind)) ++ further =
        text ++ (ending ++ (behind ++ further)) := fun further => by
      rw [List.append_assoc, List.append_assoc]
    rw [assoc later] at canRead ends
    rw [assoc stale, assoc later]
    obtain ⟨head, got, short, done, ended, progress⟩ := takes_line plain lineEnd cut canRead
    cases behind with
    | nil =>
      have last : (text ++ (ending ++ [])).getLastD 0 = 10 := by
        cases lineEnd with
        | lf => exact List.getLastD_concat
        | crlf =>
          have parts : text ++ ([13, 10] ++ []) = (text ++ [13]) ++ [10] := by simp
          rw [parts, List.getLastD_concat]
        | cr => exact absurd ⟨rfl, rfl⟩ cut
      rw [readLines_last head got short le_rfl, if_pos last, ended]
      exact ⟨done, rfl, progress⟩
    | cons b behind =>
      have more : stale.length < (b :: behind ++ stale).length := by
        rw [List.length_append, List.length_cons]
        omega
      cases progress with
      | returns calls_eq =>
        exact ⟨_, readLines_more head got short more ended, .returns calls_eq⟩
      | goesOn taken =>
        have last : (text ++ (ending ++ b :: behind)).getLast? = (b :: behind).getLast? := by
          rw [← List.append_assoc, List.getLast?_append_of_ne_nil _ (List.cons_ne_nil b behind)]
        have filled : 1 ≤ ending.length := by cases lineEnd <;> exact Nat.succ_pos _
        obtain ⟨done, read, further⟩ := ih (List.cons_ne_nil b behind)
          (by simp only [List.length_append] at enough; omega) taken.canRead
          fun reached => by
            rw [EndsWell, ← last]
            refine ends ?_
            have moved := taken.reaches_eq
            simp only [List.length_append] at moved reached ⊢
            omega
        rw [readLines_more head got short more ended, List.getLastD_eq_getLast?, last,
          ← List.getLastD_eq_getLast?]
        exact ⟨done, read, taken.progress further⟩

end

section

variable (below : UInt8) (answers : Nat → Bool) (file : ConfigFile)

/-- How much a read gets. -/
def gets (read bytes_read : Nat) : Nat :=
  min (file.sizes read) (min bufsize (file.content.length - bytes_read))

/-- What a read gets. -/
def got (read bytes_read : Nat) : List UInt8 :=
  (file.content.drop bytes_read).take (gets file read bytes_read)

/-- How much has been read before a read, and what is in the buffer then. -/
inductive ReadAt : Nat → Nat → List UInt8 → Prop where
  | first : ReadAt 0 0 file.buf
  | next {read bytes_read : Nat} {buf : List UInt8} (before : ReadAt read bytes_read buf) :
      ReadAt (read + 1) (bytes_read + gets file read bytes_read)
        (got file read bytes_read ++ buf.drop (gets file read bytes_read))

/-- The lines of a file fit, every read gets something, and none ends badly, as far as
the file is read. -/
structure ConfigFits : Prop where
  linesFit : LinesFit below answers [] 0 (lines file.content)
  readsWell : ∀ read bytes_read buf, ReadAt file read bytes_read buf →
    bytes_read < reach answers 0 (lines file.content) → 0 < gets file read bytes_read ∧
        (bytes_read + gets file read bytes_read ≤ reach answers 0 (lines file.content) →
          EndsWell (got file read bytes_read) (buf.drop (gets file read bytes_read) ++ file.past)
            (file.content.drop (bytes_read + gets file read bytes_read)))

/-- The lines that the file says are processed, and nothing else is written. -/
def ReadsLines : Prop := ∃ fuel config rc,
    process_cfg below answers file fuel 0 0 file.buf { s := [], str := [], calls := [] } =
      some (.ok (config, .returns rc)) ∧
    config.calls = expected answers file.content

end

section

variable {below : UInt8} {answers : Nat → Bool} {file : ConfigFile}
variable {config config' : ConfigLines} {fuel read bytes_read : Nat} {buf bytes : List UInt8}

theorem process_cfg_of_read {turn : Turn} (more : bytes_read < file.content.length)
    (readsSome : 0 < gets file read bytes_read)
    (done : readLines below answers (buf.drop (gets file read bytes_read) ++ file.past).length
      ((got file read bytes_read).getLastD 0) fuel config
      (got file read bytes_read ++ (buf.drop (gets file read bytes_read) ++ file.past)) =
        some (.ok (config', turn))) :
    process_cfg below answers file (fuel + 1) read bytes_read buf config =
      match turn with
      | .goesOn => process_cfg below answers file fuel (read + 1)
          (bytes_read + gets file read bytes_read)
          (got file read bytes_read ++ buf.drop (gets file read bytes_read)) config'
      | turn => some (.ok (config', turn)) := by
  rw [gets] at readsSome
  simp only [gets, got] at done ⊢
  rw [process_cfg, if_pos more]
  simp only [if_neg readsSome.ne', done, andThen]
  cases turn <;> rfl

/-- A line that has begun goes on while something is left of the file. -/
theorem length_lt_reaches (canRead : CanRead below answers config bytes)
    (filled : bytes ≠ []) : config.s.length < reaches answers config bytes := by
  obtain ⟨text, tail, plain, rfl, rfl | ⟨ending, rest, rfl, ends⟩⟩ := exists_ends bytes
  · rw [List.append_nil] at filled canRead ⊢
    have before : Plain config.s := by
      cases text with
      | nil => exact absurd rfl filled
      | cons c text => exact plain_of_pending canRead.pending (plain c (by simp)).1
    have whole := lines_of_plain (before.append plain)
    rw [if_neg (by simp [filled])] at whole
    rw [reaches, whole]
    refine lt_of_lt_of_le ?_ (le_reach ..)
    have := List.length_pos_iff.mpr filled
    simp only [List.length_append]
    omega
  · obtain ⟨line, whole, first, -, -⟩ := exists_line canRead.pending plain ends
    rw [reaches, first]
    refine lt_of_lt_of_le ?_ (le_reach ..)
    have one : 1 ≤ ending.length := by cases ends <;> exact Nat.succ_pos _
    rw [← whole]
    simp only [List.length_append]
    omega

theorem processed_nil (canRead : CanRead below answers config []) :
    processed answers config [] = config.calls := by
  obtain plain | ⟨_, _, _, lf⟩ := canRead.pending
  · have fits := canRead.fits
    rw [List.append_nil, lines_of_plain plain] at fits
    by_cases empty : config.s = []
    · rw [if_pos empty] at fits
      rw [processed, fits, empty]
      exact List.append_nil _
    · rw [if_neg empty] at fits
      exact absurd rfl fits.2.1
  · exact absurd lf (by simp)

theorem process_cfg_progress (fits : ConfigFits below answers file)
    (readAt : ReadAt file read bytes_read buf)
    (taken : Taken below answers { s := [], str := [], calls := [] } file.content config
      (file.content.drop bytes_read))
    (within : bytes_read ≤ file.content.length)
    (enough : file.content.length - bytes_read < fuel) :
    ∃ config' rc, process_cfg below answers file fuel read bytes_read buf config =
        some (.ok (config', .returns rc)) ∧
      config'.calls = expected answers file.content := by
  induction fuel generalizing read bytes_read buf config with
  | zero => exact absurd enough (Nat.not_lt_zero _)
  | succ fuel ih =>
    by_cases more : bytes_read < file.content.length
    · have filled : file.content.drop bytes_read ≠ [] := by
        rw [Ne, List.drop_eq_nil_iff]
        omega
      have moved := taken.reaches_eq
      have begun := length_lt_reaches taken.canRead filled
      have start : reaches answers { s := [], str := [], calls := [] } file.content =
          reach answers 0 (lines file.content) := rfl
      simp only [start, List.nil_append, List.length_append, List.length_drop] at moved
      obtain ⟨readsSome, ends⟩ := fits.readsWell read bytes_read buf readAt (by omega)
      have atMost : gets file read bytes_read ≤ file.content.length - bytes_read :=
        (Nat.min_le_right ..).trans (Nat.min_le_right ..)
      have parts : got file read bytes_read ++
          file.content.drop (bytes_read + gets file read bytes_read) =
            file.content.drop bytes_read := by
        rw [got, ← List.drop_drop, List.take_append_drop]
      have length_got : (got file read bytes_read).length = gets file read bytes_read := by
        rw [got, List.length_take, List.length_drop]
        omega
      have canRead := taken.canRead
      rw [← parts] at canRead
      obtain ⟨done, read_eq, progress⟩ := @readLines_progress _ _ _
        (buf.drop (gets file read bytes_read) ++ file.past) _ fuel _
        (List.ne_nil_of_length_pos (by omega)) (by omega) canRead fun reached =>
          ends (by
            rw [parts, List.length_append] at reached
            omega)
      rw [parts] at progress
      have progress := taken.progress progress
      cases progress with
      | goesOn taken =>
        rw [process_cfg_of_read more readsSome read_eq]
        exact ih readAt.next taken (by omega) (by omega)
      | returns calls_eq =>
        exact ⟨_, _, process_cfg_of_read more readsSome read_eq, calls_eq⟩
    · have all : file.content.drop bytes_read = [] := by
        rw [List.drop_eq_nil_iff]
        omega
      rw [all] at taken
      refine ⟨config, 1, by rw [process_cfg, if_neg more], ?_⟩
      rw [← processed_nil taken.canRead, taken.processed_eq]
      rfl

end

theorem head?_cleared {c : UInt8} (other : c ≠ 0) (n rd : Nat) :
    ((List.replicate n (0 : UInt8)).drop rd ++ []).head? ≠ some c := by
  intro first
  rw [List.append_nil] at first
  exact other (List.eq_of_mem_replicate (List.mem_of_mem_drop (List.mem_of_head? first)))

/-- `a ^` and `b;c`, where the first read ends between the two bytes of a line end. -/
def continuedFile : ConfigFile :=
  { content := [0x61, 0x20, 0x5e, 13, 10, 0x62, 0x3b, 0x63, 10]
    sizes := fun read => 4 + read
    buf := List.replicate bufsize 0
    past := [] }

theorem lines_continuedFile : lines continuedFile.content =
      [⟨[0x61, 0x20, 0x5e], [13, 10]⟩, ⟨[0x62, 0x3b, 0x63], [10]⟩] := rfl

theorem continuedFile_fits : ConfigFits 0 (fun _ => true) continuedFile := by
  have nine : reach (fun _ => true) 0 (lines continuedFile.content) = 9 := rfl
  constructor
  · rw [lines_continuedFile]
    refine ⟨by decide, by decide, by decide, fun none => absurd none (by decide), by decide, ?_⟩
    refine ⟨by decide, by decide, by decide, fun none => absurd none (by decide), by decide, ?_⟩
    exact fun _ => rfl
  · intro read bytes_read buf readAt within
    rw [nine] at within
    cases readAt with
    | first =>
      exact ⟨by decide, fun _ =>
        ⟨fun _ => ⟨rfl, head?_cleared (by decide) _ _⟩, .inr (.inl rfl)⟩⟩
    | next before =>
      cases before with
      | first => exact ⟨by decide, fun _ => ⟨fun last => absurd last (by decide), .inl rfl⟩⟩
      | next before =>
        have length_eq : continuedFile.content.length = 9 := rfl
        simp only [gets, bufsize, length_eq] at within
        simp only [continuedFile] at within
        omega

/-- `a`, without a line end behind it. -/
def unendedFile : ConfigFile :=
  { content := [0x61]
    sizes := fun _ => bufsize
    buf := List.replicate bufsize 0
    past := [] }

end OsFree.Loader
