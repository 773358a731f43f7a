import Mathlib.Data.List.TakeWhile
import OsFree.Machine.Attempts
import OsFree.Modmgr.Record

/-!
# Searching for modules to preload

LIBPATH is searched for a library, DPATH for the messages, and the libraries that are
named in VIDEO_DEVICES are searched for one after the other.  Each of the three loops
copies an element to an array, and goes on behind the character that has ended it.
-/

namespace OsFree.Loader

open Machine
open Modmgr (toLower)

/-- Whether a search is over with a name, when others have been tried before. -/
abbrev Stops := List (List UInt8) → List UInt8 → Bool

/-- The names that have been tried, and whether the last one has ended the search. -/
abbrev Tried := List (List UInt8) × Bool

/-- A name behind an element and a backslash. -/
def inElement (element name : List UInt8) : List UInt8 :=
  (if element.getLast? = some 0x5c then element else element ++ [0x5c]) ++ name

/-- A name behind an element in an array of a size.  For an empty element the byte in
front of the array is read. -/
def fileIn (size : ℕ) (element name : List UInt8) : Run (List UInt8) :=
  if element = [] then .error .readOutside
  else if (inElement element name).length < size then .ok (inElement element name)
  else .error .writeOutside

/-- The loop of `preload_library`. -/
def libpathLoop (ends : Stops) (name : List UInt8) :
    ℕ → List (List UInt8) → List UInt8 → Option (Run Tried)
  | 0, _, _ => none
  | turns + 1, tried, p =>
    let entry := p.takeWhile (· ≠ 0x3b)
    let t := p.dropWhile (· ≠ 0x3b)
    if entry = [0x2e] then
      match t with
      | [] => some (.error .readOutside)
      | _ :: p => libpathLoop ends name turns tried p
    else
      match fileIn 0x200 entry name with
      | .error fault => some (.error fault)
      | .ok buf =>
        if ends tried buf then some (.ok (tried ++ [buf], true))
        else
          match t with
          | [] => some (.ok (tried ++ [buf], false))
          | _ :: p => libpathLoop ends name turns (tried ++ [buf]) p

/-- `oso001.msg`. -/
def oso001 : List UInt8 := [0x6f, 0x73, 0x6f, 0x30, 0x30, 0x31, 0x2e, 0x6d, 0x73, 0x67]

/-- The loop over DPATH. -/
def dpathLoop (ends : Stops) : ℕ → List (List UInt8) → List UInt8 → Option (Run Tried)
  | 0, _, _ => none
  | turns + 1, tried, t =>
    if t = [] then some (.ok (tried, false))
    else
      let entry := (t.takeWhile (· ≠ 0x3b)).map toLower
      let p := t.dropWhile (· ≠ 0x3b)
      if entry = [0x2e] then
        match p with
        | [] => some (.error .readOutside)
        | _ :: t => dpathLoop ends turns tried t
      else
        match fileIn 0x400 entry oso001 with
        | .error fault => some (.error fault)
        | .ok str =>
          if ends tried str then some (.ok (tried ++ [str], true))
          else
            match p with
            | [] => some (.error .readOutside)
            | _ :: t => dpathLoop ends turns (tried ++ [str]) t

/-- The value of DPATH is copied to an array of 1024 bytes. -/
def searchDpath (ends : Stops) (turns : ℕ) (value : List UInt8) : Option (Run Tried) :=
  if value.length < 0x400 then dpathLoop ends turns [] value else some (.error .writeOutside)

/-- `.dll`. -/
def dotDll : List UInt8 := [0x2e, 0x64, 0x6c, 0x6c]

/-- The loop over VIDEO_DEVICES, behind the parenthesis. -/
def videoLoop (ends : Stops) : ℕ → List (List UInt8) → List UInt8 → Option (Run Tried)
  | 0, _, _ => none
  | turns + 1, tried, p =>
    let str := (p.takeWhile fun c => c ≠ 0x2c && c ≠ 0x29).map toLower
    match p.dropWhile fun c => c ≠ 0x2c && c ≠ 0x29 with
    | [] =>
      if str.length ≤ 0x400 then videoLoop ends turns tried p
      else some (.error .writeOutside)
    | t :: rest =>
      if (str ++ dotDll).length < 0x400 then
        if ends tried (str ++ dotDll) then some (.ok (tried ++ [str ++ dotDll], true))
        else if t = 0x29 then some (.ok (tried ++ [str ++ dotDll], false))
        else videoLoop ends turns (tried ++ [str ++ dotDll]) rest
      else some (.error .writeOutside)

/-- The value of the variable that VIDEO_DEVICES names is copied to an array of 1024
bytes, and its list starts behind the first parenthesis. -/
def searchVideo (ends : Stops) (turns : ℕ) (value : List UInt8) : Option (Run Tried) :=
  if value.length < 0x400 then
    match value.dropWhile (· ≠ 0x28) with
    | [] => some (.ok ([], false))
    | _ :: p => videoLoop ends turns [] p
  else some (.error .writeOutside)

/-- The loop comes to an end with these names tried. -/
def ComesTo (loop : ℕ → Option (Run Tried)) (result : Tried) : Prop :=
  ∃ turns, loop turns = some (.ok result)

/-- The name that is tried for an element, and none for `.`. -/
def candidate (name element : List UInt8) : Option (List UInt8) :=
  if element = [0x2e] then none else some (inElement element name)

/-- The element is `.`, or it is not empty and fits an array with the name. -/
def FitsArray (size : ℕ) (name element : List UInt8) : Prop :=
  element = [0x2e] ∨ element ≠ [] ∧ (inElement element name).length < size

/-- The elements of a list in small letters. -/
def lowerElements (sep : UInt8) (text : List UInt8) : List (List UInt8) :=
  (text.splitOn sep).map (List.map toLower)

/-- The library that is tried for an element of VIDEO_DEVICES, and none for `.`. -/
def videoCandidate (element : List UInt8) : Option (List UInt8) :=
  if element = [0x2e] then none else some (element ++ dotDll)

/-- The element is not `.`, and fits the array as the name of a library. -/
def FitsVideo (element : List UInt8) : Prop := element ≠ [0x2e] ∧ (element ++ dotDll).length < 0x400

/-- The text behind the first parenthesis, and `none` without one. -/
def behindOpening (value : List UInt8) : Option (List UInt8) := (value.dropWhile (· ≠ 0x28)).tail?

/-- The elements of VIDEO_DEVICES: those in parentheses. -/
def videoElements (value : List UInt8) : List (List UInt8) :=
  match behindOpening value with
  | none => []
  | some list => lowerElements 0x2c (list.takeWhile (· ≠ 0x29))

/-- The elements of the three values are tried in order, except for `.`, until the search
is over: with a file that is found, and for VIDEO_DEVICES with a library that is missing. -/
structure SearchesElements (found missing : Stops) (libpath name dpath video : List UInt8) :
    Prop where
  libpath : ComesTo (libpathLoop found name · [] libpath)
    (elementAttempts found (candidate name) [] (libpath.splitOn 0x3b))
  dpath : ComesTo (searchDpath found · dpath)
    (elementAttempts found (candidate oso001) [] (lowerElements 0x3b dpath))
  video : ComesTo (searchVideo missing · video)
    (elementAttempts missing videoCandidate [] (videoElements video))

section

variable {ends : Stops} {name e t : List UInt8} {tried : List (List UInt8)} {size : ℕ}
  {loop loop' : ℕ → Option (Run Tried)} {result : Tried}

theorem comesTo_of_turn (start : loop 0 = none) (turn : ∀ turns, loop (turns + 1) = loop' turns) :
    ComesTo loop result ↔ ComesTo loop' result := by
  constructor
  · rintro ⟨turns, comes⟩
    cases turns with
    | zero => rw [start] at comes; cases comes
    | succ turns => exact ⟨turns, turn turns ▸ comes⟩
  · rintro ⟨turns, comes⟩
    exact ⟨turns + 1, (turn turns).trans comes⟩

theorem comesTo_ok {result' : Tried} :
    ComesTo (fun _ => some (.ok result')) result ↔ result' = result :=
  ⟨fun ⟨_, comes⟩ => by cases comes; rfl, fun same => ⟨0, by rw [same]⟩⟩

theorem not_comesTo_error {fault : Fault} :
    ¬ ComesTo (fun _ => some (.error fault)) result :=
  fun ⟨_, comes⟩ => nomatch comes

theorem candidate_current (current : e = [0x2e]) : candidate name e = none := if_pos current

theorem candidate_other (other : e ≠ [0x2e]) :
    candidate name e = some (inElement e name) := if_neg other

theorem fileIn_cases (size : ℕ) (name : List UInt8) (other : e ≠ [0x2e]) :
    FitsArray size name e ∧ fileIn size e name = .ok (inElement e name) ∨
      ¬ FitsArray size name e ∧ ∃ fault, fileIn size e name = .error fault := by
  rw [FitsArray, fileIn, or_iff_right other]
  by_cases empty : e = []
  · rw [if_pos empty]
    exact .inr ⟨fun fits => fits.1 empty, _, rfl⟩
  · rw [if_neg empty]
    by_cases fits : (inElement e name).length < size
    · rw [if_pos fits]
      exact .inl ⟨⟨empty, fits⟩, rfl⟩
    · rw [if_neg fits]
      exact .inr ⟨fun both => fits both.2, _, rfl⟩

theorem comesTo_element {next : List (List UInt8) → ℕ → Option (Run Tried)}
    {others : List (List UInt8)} {last : Prop}
    (comes : ∀ tried, ComesTo (next tried) (elementAttempts ends (candidate name) tried others) ↔
      EveryReached ends (candidate name) (FitsArray size name) tried others ∧
        ((elementAttempts ends (candidate name) tried others).2 = true ∨ last)) :
    ComesTo (fun turns =>
        if e = [0x2e] then next tried turns
        else
          match fileIn size e name with
          | .error fault => some (.error fault)
          | .ok buf =>
            if ends tried buf then some (.ok (tried ++ [buf], true))
            else next (tried ++ [buf]) turns)
        (elementAttempts ends (candidate name) tried (e :: others)) ↔
      EveryReached ends (candidate name) (FitsArray size name) tried (e :: others) ∧
        ((elementAttempts ends (candidate name) tried (e :: others)).2 = true ∨ last) := by
  by_cases current : e = [0x2e]
  · have skips := @candidate_current name _ current
    have fits : FitsArray size name e := .inl current
    simp only [if_pos current]
    rw [elementAttempts_skip skips, everyReached_skip skips, comes, and_iff_right fits]
  simp only [if_neg current]
  have tries := @candidate_other name _ current
  obtain ⟨fits, file⟩ | ⟨full, fault, file⟩ := fileIn_cases size name current
  · simp only [file]
    by_cases stops : ends tried (inElement e name) = true
    · simp only [if_pos stops]
      rw [elementAttempts_stop tries stops, everyReached_stop tries stops, comesTo_ok]
      exact iff_of_true rfl ⟨⟨fits, trivial⟩, .inl rfl⟩
    · simp only [if_neg stops]
      rw [elementAttempts_next tries stops, everyReached_next tries stops, comes,
        and_iff_right fits]
  · simp only [file]
    exact iff_of_false not_comesTo_error fun both => full (both.1 [] e _ rfl rfl)

theorem parts_of_without (without : (0x3b : UInt8) ∉ e) :
    (e.takeWhile (· ≠ 0x3b) = e ∧ e.dropWhile (· ≠ 0x3b) = []) ∧
      ∀ t, (e ++ 0x3b :: t).takeWhile (· ≠ 0x3b) = e ∧
        (e ++ 0x3b :: t).dropWhile (· ≠ 0x3b) = 0x3b :: t := by
  have goes : ∀ c ∈ e, decide (c ≠ 0x3b) = true := fun c member =>
    decide_eq_true (ne_of_mem_of_not_mem member without)
  have entry := @takeWhile_append_stop _ _ e [] goes (by simp)
  have behind := @dropWhile_append_stop _ _ e [] goes (by simp)
  rw [List.append_nil] at entry behind
  exact ⟨⟨entry, behind⟩, fun t =>
    ⟨takeWhile_append_stop goes (by simp), dropWhile_append_stop goes (by simp)⟩⟩

theorem libpathLoop_last (without : (0x3b : UInt8) ∉ e) (turns : ℕ) :
    libpathLoop ends name (turns + 1) tried e =
      if e = [0x2e] then some (.error .readOutside)
      else
        match fileIn 0x200 e name with
        | .error fault => some (.error fault)
        | .ok buf => some (.ok (tried ++ [buf], ends tried buf)) := by
  obtain ⟨⟨entry, behind⟩, -⟩ := parts_of_without without
  rw [libpathLoop, entry, behind]
  cases fileIn 0x200 e name with
  | error fault => rfl
  | ok buf => cases stops : ends tried buf <;> simp [stops]

theorem libpathLoop_more (without : (0x3b : UInt8) ∉ e) (turns : ℕ) :
    libpathLoop ends name (turns + 1) tried (e ++ 0x3b :: t) =
      if e = [0x2e] then libpathLoop ends name turns tried t
      else
        match fileIn 0x200 e name with
        | .error fault => some (.error fault)
        | .ok buf =>
          if ends tried buf then some (.ok (tried ++ [buf], true))
          else libpathLoop ends name turns (tried ++ [buf]) t := by
  obtain ⟨entry, behind⟩ := (parts_of_without without).2 t
  rw [libpathLoop, entry, behind]

theorem libpathLoop_comes_iff (ends : Stops) (name p : List UInt8) (tried : List (List UInt8)) :
    ComesTo (libpathLoop ends name · tried p)
        (elementAttempts ends (candidate name) tried (p.splitOn 0x3b)) ↔
      EveryReached ends (candidate name) (FitsArray 0x200 name) tried (p.splitOn 0x3b) ∧
        ((elementAttempts ends (candidate name) tried (p.splitOn 0x3b)).2 = true ∨
          (p.splitOn 0x3b).getLast? ≠ some [0x2e]) := by
  induction p using split_induction (0x3b : UInt8) generalizing tried with
  | last e without =>
    rw [splitOn_of_not_mem without]
    refine (comesTo_of_turn rfl (libpathLoop_last without)).trans ?_
    by_cases current : e = [0x2e]
    · subst current
      refine iff_of_false not_comesTo_error fun both => both.2.elim (fun ended => ?_) ?_
      · cases ended
      · exact fun other => other rfl
    simp only [if_neg current]
    have tries := @candidate_other name _ current
    obtain ⟨fits, file⟩ | ⟨full, fault, file⟩ := fileIn_cases 0x200 name current
    · simp only [file]
      refine iff_of_true (comesTo_ok.mpr (elementAttempts_singleton tries).symm)
        ⟨everyReached_singleton.mpr fits, .inr fun last => current (Option.some.inj last)⟩
    · simp only [file]
      exact iff_of_false not_comesTo_error fun both => full (both.1 [] e [] rfl rfl)
  | more e rest without ih =>
    rw [splitOn_append_cons without, getLast?_cons_splitOn]
    exact (comesTo_of_turn rfl (libpathLoop_more without)).trans (comesTo_element ih)

theorem lowerElements_last {sep : UInt8} (without : sep ∉ e) :
    lowerElements sep e = [e.map toLower] := by
  rw [lowerElements, splitOn_of_not_mem without]
  rfl

theorem lowerElements_more {sep : UInt8} (without : sep ∉ e) :
    lowerElements sep (e ++ sep :: t) = e.map toLower :: lowerElements sep t := by
  rw [lowerElements, splitOn_append_cons without]
  rfl

theorem dpathLoop_last (without : (0x3b : UInt8) ∉ e) (filled : e ≠ []) (turns : ℕ) :
    dpathLoop ends (turns + 1) tried e =
      if e.map toLower = [0x2e] then some (.error .readOutside)
      else
        match fileIn 0x400 (e.map toLower) oso001 with
        | .error fault => some (.error fault)
        | .ok str =>
          if ends tried str then some (.ok (tried ++ [str], true))
          else some (.error .readOutside) := by
  obtain ⟨⟨entry, behind⟩, -⟩ := parts_of_without without
  rw [dpathLoop, if_neg filled, entry, behind]

theorem dpathLoop_more (without : (0x3b : UInt8) ∉ e) (turns : ℕ) :
    dpathLoop ends (turns + 1) tried (e ++ 0x3b :: t) =
      if e.map toLower = [0x2e] then dpathLoop ends turns tried t
      else
        match fileIn 0x400 (e.map toLower) oso001 with
        | .error fault => some (.error fault)
        | .ok str =>
          if ends tried str then some (.ok (tried ++ [str], true))
          else dpathLoop ends turns (tried ++ [str]) t := by
  obtain ⟨entry, behind⟩ := (parts_of_without without).2 t
  rw [dpathLoop, if_neg (by simp), entry, behind]

theorem dpathLoop_comes_iff (ends : Stops) (t : List UInt8) (tried : List (List UInt8)) :
    ComesTo (dpathLoop ends · tried t)
        (elementAttempts ends (candidate oso001) tried (lowerElements 0x3b t)) ↔
      EveryReached ends (candidate oso001) (FitsArray 0x400 oso001) tried (lowerElements 0x3b t) ∧
        (elementAttempts ends (candidate oso001) tried (lowerElements 0x3b t)).2 = true := by
  induction t using split_induction (0x3b : UInt8) generalizing tried with
  | last e without =>
    rw [lowerElements_last without, everyReached_singleton]
    by_cases empty : e = []
    · subst empty
      have turn : ∀ turns, dpathLoop ends (turns + 1) tried [] =
          some (.ok (tried, false)) := fun turns => by rw [dpathLoop, if_pos rfl]
      refine (comesTo_of_turn rfl turn).trans (comesTo_ok.trans (iff_of_false ?_ ?_))
      · rw [elementAttempts_singleton (candidate_other (by simp))]
        intro same
        simpa using congrArg (fun result => result.1.length) same
      · exact fun both => both.1.elim nofun fun fits => fits.1 rfl
    refine (comesTo_of_turn rfl (dpathLoop_last without empty)).trans ?_
    by_cases current : e.map toLower = [0x2e]
    · simp only [if_pos current]
      rw [elementAttempts_skip (candidate_current current)]
      exact iff_of_false not_comesTo_error fun both => nomatch both.2
    simp only [if_neg current]
    rw [elementAttempts_singleton (candidate_other current)]
    obtain ⟨fits, file⟩ | ⟨full, fault, file⟩ := fileIn_cases 0x400 oso001 current
    · simp only [file]
      by_cases stops : ends tried (inElement (e.map toLower) oso001) = true
      · simp only [if_pos stops]
        rw [comesTo_ok]
        exact iff_of_true (by rw [stops]) ⟨fits, stops⟩
      · simp only [if_neg stops]
        exact iff_of_false not_comesTo_error fun both => stops both.2
    · simp only [file]
      exact iff_of_false not_comesTo_error fun both => full both.1
  | more e rest without ih =>
    rw [lowerElements_more without]
    refine (comesTo_of_turn rfl (dpathLoop_more without)).trans ?_
    have element := @comesTo_element ends oso001 (e.map toLower) tried 0x400
      (fun tried turns => dpathLoop ends turns tried rest) (lowerElements 0x3b rest) False
    simp only [or_false] at element
    exact element ih

theorem not_comesTo_videoLoop (open' : ∀ c ∈ e, (c ≠ 0x2c && c ≠ 0x29) = true) :
    ¬ ComesTo (videoLoop ends · tried e) result := by
  rintro ⟨turns, comes⟩
  have behind := @dropWhile_append_stop _ _ e [] open' (by simp)
  rw [List.append_nil] at behind
  induction turns with
  | zero => cases comes
  | succ turns ih =>
    simp only [videoLoop, behind] at comes
    split at comes
    · exact ih comes
    · cases comes

theorem videoLoop_turn (open' : ∀ c ∈ e, (c ≠ 0x2c && c ≠ 0x29) = true) {c : UInt8}
    (stop : (c ≠ 0x2c && c ≠ 0x29) = false) (turns : ℕ) :
    videoLoop ends (turns + 1) tried (e ++ c :: t) =
      if (e.map toLower ++ dotDll).length < 0x400 then
        if ends tried (e.map toLower ++ dotDll) then
          some (.ok (tried ++ [e.map toLower ++ dotDll], true))
        else if c = 0x29 then some (.ok (tried ++ [e.map toLower ++ dotDll], false))
        else videoLoop ends turns (tried ++ [e.map toLower ++ dotDll]) t
      else some (.error .writeOutside) := by
  have stop : ∀ d ∈ (c :: t).head?, (d ≠ 0x2c && d ≠ 0x29) = false := by
    simpa using stop
  simp only [videoLoop, takeWhile_append_stop open' stop, dropWhile_append_stop open' stop]

theorem prefix_of_videoLoop {turns : ℕ} (comes : videoLoop ends turns tried t = some (.ok result)) :
    tried <+: result.1 := by
  induction turns generalizing tried t with
  | zero => cases comes
  | succ turns ih =>
    rw [videoLoop] at comes
    split at comes
    · split at comes
      · exact ih comes
      · cases comes
    · split at comes
      · split at comes
        · cases comes
          exact List.prefix_append ..
        · split at comes
          · cases comes
            exact List.prefix_append ..
          · exact (List.prefix_append ..).trans (ih comes)
      · cases comes

theorem not_prefix_current (elements : List (List UInt8)) : ¬ tried ++ [[0x2e] ++ dotDll] <+:
      (elementAttempts ends videoCandidate tried elements).1 := by
  intro starts
  obtain ⟨more, inside, equal⟩ := attempts_eq ends tried (elements.filterMap videoCandidate)
  rw [elementAttempts, equal, List.prefix_append_right_inj] at starts
  have member := (starts.trans inside).subset List.mem_cons_self
  obtain ⟨f, -, tries⟩ := List.mem_filterMap.mp member
  rw [videoCandidate] at tries
  split at tries
  · cases tries
  · rename_i other
    exact other (List.append_cancel_right (Option.some.inj tries))

theorem videoCandidate_other (other : e ≠ [0x2e]) :
    videoCandidate e = some (e ++ dotDll) := if_neg other

theorem videoLoop_comes_iff (ends : Stops) (q close : List UInt8)
    (tried : List (List UInt8)) (without : (0x29 : UInt8) ∉ q)
    (closes : ∀ c ∈ close.head?, c = 0x29) :
    ComesTo (videoLoop ends · tried (q ++ close))
        (elementAttempts ends videoCandidate tried (lowerElements 0x2c q)) ↔
      EveryReached ends videoCandidate FitsVideo tried (lowerElements 0x2c q) ∧
        (close ≠ [] ∨ (elementAttempts ends videoCandidate tried
          (lowerElements 0x2c q).dropLast).2 = true) := by
  induction q using split_induction (0x2c : UInt8) generalizing tried with
  | last e comma =>
    have open' : ∀ c ∈ e, (c ≠ 0x2c && c ≠ 0x29) = true := fun c member => by
      simp [ne_of_mem_of_not_mem member comma, ne_of_mem_of_not_mem member without]
    rw [lowerElements_last comma, everyReached_singleton]
    cases close with
    | nil =>
      rw [List.append_nil]
      exact iff_of_false (not_comesTo_videoLoop open') fun both =>
        both.2.elim (absurd rfl) nofun
    | cons c close =>
      obtain rfl : c = 0x29 := closes c rfl
      refine (comesTo_of_turn rfl (videoLoop_turn open' rfl)).trans ?_
      by_cases room : (e.map toLower ++ dotDll).length < 0x400
      · have ended : (if ends tried (e.map toLower ++ dotDll) then
            some (.ok (tried ++ [e.map toLower ++ dotDll], true))
            else some (.ok (tried ++ [e.map toLower ++ dotDll], false))) =
            (some (.ok (tried ++ [e.map toLower ++ dotDll],
              ends tried (e.map toLower ++ dotDll))) : Option (Run Tried)) := by
          cases ends tried (e.map toLower ++ dotDll) <;> rfl
        simp only [if_pos room, if_true, ended]
        rw [comesTo_ok]
        by_cases current : e.map toLower = [0x2e]
        · refine iff_of_false (fun same => ?_) fun both => both.1.1 current
          have absent := @not_prefix_current ends tried [e.map toLower]
          rw [← same, current] at absent
          exact absent List.prefix_rfl
        · rw [elementAttempts_singleton (videoCandidate_other current)]
          exact iff_of_true rfl ⟨⟨current, room⟩, .inl (List.cons_ne_nil _ _)⟩
      · simp only [if_neg room]
        exact iff_of_false not_comesTo_error fun both => room both.1.2
  | more e rest comma ih =>
    rw [List.mem_append, not_or, List.mem_cons, not_or] at without
    obtain ⟨before, -, behind⟩ := without
    have open' : ∀ c ∈ e, (c ≠ 0x2c && c ≠ 0x29) = true := fun c member => by
      simp [ne_of_mem_of_not_mem member comma, ne_of_mem_of_not_mem member before]
    have filled : lowerElements 0x2c rest ≠ [] := by
      rw [lowerElements, Ne, List.map_eq_nil_iff]
      exact List.splitOn_ne_nil _ _
    rw [lowerElements_more comma, List.dropLast_cons_of_ne_nil filled, List.append_assoc,
      List.cons_append]
    refine (comesTo_of_turn rfl (videoLoop_turn open' rfl)).trans ?_
    have comma' : ¬ (0x2c : UInt8) = 0x29 := by decide
    simp only [if_neg comma']
    by_cases room : (e.map toLower ++ dotDll).length < 0x400
    · simp only [if_pos room]
      by_cases current : e.map toLower = [0x2e]
      · refine iff_of_false ?_ fun both => (both.1 [] _ _ rfl rfl).1 current
        rintro ⟨turns, comes⟩
        apply @not_prefix_current ends tried (e.map toLower :: lowerElements 0x2c rest)
        rw [← current]
        split at comes
        · injection comes with comes
          injection comes with same
          exact same ▸ List.prefix_rfl
        · exact prefix_of_videoLoop comes
      have tries := videoCandidate_other current
      by_cases stops : ends tried (e.map toLower ++ dotDll) = true
      · simp only [if_pos stops]
        rw [elementAttempts_stop tries stops, everyReached_stop tries stops,
          elementAttempts_stop tries stops, comesTo_ok]
        exact iff_of_true rfl ⟨⟨⟨current, room⟩, trivial⟩, .inr rfl⟩
      · have fits : FitsVideo (e.map toLower) := ⟨current, room⟩
        simp only [if_neg stops]
        rw [elementAttempts_next tries stops, everyReached_next tries stops,
          elementAttempts_next tries stops, ih _ behind,
          and_iff_right fits]
    · simp only [if_neg room]
      exact iff_of_false not_comesTo_error fun both => room (both.1 [] _ _ rfl rfl).2

end

/-- LIBPATH can be searched. -/
structure LibpathFits (found : Stops) (libpath name : List UInt8) : Prop where
  fits : EveryReached found (candidate name) (FitsArray 0x200 name) [] (libpath.splitOn 0x3b)
  last : (elementAttempts found (candidate name) [] (libpath.splitOn 0x3b)).2 = true ∨
    (libpath.splitOn 0x3b).getLast? ≠ some [0x2e]

/-- DPATH can be searched. -/
structure DpathFits (found : Stops) (dpath : List UInt8) : Prop where
  room : dpath.length < 0x400
  fits : EveryReached found (candidate oso001) (FitsArray 0x400 oso001) []
    (lowerElements 0x3b dpath)
  found : (elementAttempts found (candidate oso001) [] (lowerElements 0x3b dpath)).2 = true

/-- VIDEO_DEVICES can be searched. -/
structure VideoFits (missing : Stops) (video : List UInt8) : Prop where
  room : video.length < 0x400
  fits : EveryReached missing videoCandidate FitsVideo [] (videoElements video)
  closed : ∀ list ∈ behindOpening video, 0x29 ∈ list ∨
    (elementAttempts missing videoCandidate [] (videoElements video).dropLast).2 = true

theorem searchDpath_comes_iff (found : Stops) (dpath : List UInt8) :
    ComesTo (searchDpath found · dpath)
        (elementAttempts found (candidate oso001) [] (lowerElements 0x3b dpath)) ↔
      DpathFits found dpath := by
  by_cases room : dpath.length < 0x400
  · simp only [searchDpath, if_pos room]
    rw [dpathLoop_comes_iff]
    exact ⟨fun both => ⟨room, both.1, both.2⟩, fun fits => ⟨fits.fits, fits.found⟩⟩
  · simp only [searchDpath, if_neg room]
    exact iff_of_false not_comesTo_error fun fits => room fits.room

theorem searchVideo_comes_iff (missing : Stops) (video : List UInt8) :
    ComesTo (searchVideo missing · video)
        (elementAttempts missing videoCandidate [] (videoElements video)) ↔
      VideoFits missing video := by
  by_cases room : video.length < 0x400
  · simp only [searchVideo, if_pos room]
    cases opened : video.dropWhile (· ≠ 0x28) with
    | nil =>
      have none : behindOpening video = none := by rw [behindOpening, opened]; rfl
      have elements : videoElements video = [] := by rw [videoElements, none]
      rw [elements]
      have reached : EveryReached missing videoCandidate FitsVideo [] (videoElements video) := by
        rw [elements]
        exact everyReached_nil
      refine iff_of_true (comesTo_ok.mpr rfl) ⟨room, reached, ?_⟩
      rw [none]
      nofun
    | cons c list =>
      have behind : behindOpening video = some list := by rw [behindOpening, opened]; rfl
      have elements : videoElements video =
          lowerElements 0x2c (list.takeWhile (· ≠ 0x29)) := by
        rw [videoElements, behind]
      have comes := videoLoop_comes_iff missing (list.takeWhile (· ≠ 0x29))
        (list.dropWhile (· ≠ 0x29)) [] (fun inside => by
          simpa using List.mem_takeWhile_imp inside)
        (fun c first => by
          have := List.head?_dropWhile_not (· ≠ (0x29 : UInt8)) list
          rw [first] at this
          simpa using this)
      rw [List.takeWhile_append_dropWhile, ← elements] at comes
      have closing : list.dropWhile (· ≠ 0x29) ≠ [] ↔ 0x29 ∈ list := by
        simp
      rw [closing] at comes
      refine comes.trans ⟨fun both => ⟨room, both.1, fun _ same => ?_⟩, fun fits =>
        ⟨fits.fits, fits.closed list behind⟩⟩
      rw [behind] at same
      cases same
      exact both.2
  · simp only [searchVideo, if_neg room]
    exact iff_of_false not_comesTo_error fun fits => room fits.room

/-- The file `oso001.msg` in the directory `b`, which ends a search. -/
def inB : Stops := fun _ path => path == inElement [0x62] oso001

end OsFree.Loader
