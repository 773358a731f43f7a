import OsFree.Loader.Variables

/-!
# Variables in a text

A reference `$(name)` is replaced by the value of the variable.  This is done for the whole
text until nothing changes, with a copy of the text in an array of its own.
-/

namespace OsFree.Loader

open Machine

/-- `$` -/
def dollar : UInt8 := 0x24

def bufferSize : ℕ := 1000

/-- The arrays of `var_sprint_once`, and how much has been written to the first. -/
structure Scan where
  buf : List UInt8
  str : List UInt8
  b : ℕ
  deriving DecidableEq

def Scan.append (scan : Scan) (bytes : List UInt8) : Run Scan :=
  (fun buf => { scan with buf, b := scan.b + bytes.length }) <$> writeBytes scan.buf scan.b bytes

/-- The place of the first `)` or zero from a place on. -/
def endVar (str : List UInt8) (c : ℕ) : Run ℕ :=
  let e := c + ((str.drop c).takeWhile fun byte => byte ≠ 0 ∧ byte ≠ closeParen).length
  if e < str.length then .ok e else .error .readOutside

/-- The value of the variable whose name ends where a zero is put. -/
def lookUp (vars : Variables) (str : List UInt8) (c e : ℕ) : Run (Option (List UInt8)) := do
  let name ← readString ((str.set e 0).drop c)
  match ← vars.varGet name with
  | none => .ok none
  | some val => some <$> vars.store.stringAt val

/-- `*b++ = *str++` -/
def copyByte (scan : Scan) (s : ℕ) : Run (Scan × ℕ) := do
  let c ← readByte scan.str s
  (·, s + 1) <$> scan.append [c]

/-- A turn of the loop of `var_sprint_once`. -/
def onceTurn (vars : Variables) (scan : Scan) (s : ℕ) : Run (Scan × ℕ) := do
  let c ← readByte scan.str s
  if c = dollar then do
    let next ← readByte scan.str (s + 1 : ℕ)
    if next = openParen then do
      let e ← endVar scan.str (s + 2)
      let last ← readByte scan.str e
      if last = closeParen then do
        let val ← lookUp vars scan.str (s + 2) e
        let scan := { scan with str := (scan.str.set e 0).set e closeParen }
        match val with
        | some val => (·, e + 1) <$> scan.append val
        -- `str` is behind the name already, and the byte there is copied.
        | none => copyByte scan (e + 1)
      else copyByte scan s
    else copyByte scan s
  else copyByte scan s

/-- The loop, with at least as many turns as there are bytes to read. -/
def onceLoop (vars : Variables) : ℕ → Scan → ℕ → Run Scan
  | 0, _, _ => .error .readOutside
  | left + 1, scan, s => do
      let c ← readByte scan.str s
      if c = 0 then
        (fun buf => { scan with buf }) <$> writeBytes scan.buf scan.b [0]
      else do
        let (scan, s) ← onceTurn vars scan s
        onceLoop vars left scan s

def varSprintOnce (vars : Variables) (buf str : List UInt8) : Run Scan :=
  onceLoop vars str.length ⟨buf, str, 0⟩ 0

/-- The caller's buffer in the end, the length of its text, and whether a loop has been
reported. -/
structure Sprinted where
  buf : List UInt8
  bytes : ℕ
  reported : Bool
  deriving DecidableEq

/-- The rounds of `var_sprint`; there is no result if it stays in `while (1)`. -/
def sprintRounds (vars : Variables) : ℕ → List UInt8 → List UInt8 → Run (Option Sprinted)
  | 0, buf, _ => do
      let text ← readString buf
      .ok (some ⟨buf, text.length, true⟩)
  | i + 1, buf, buffer => do
      let text ← readString buf
      if bufferSize < text.length then .ok none
      else do
        let buffer ← writeBytes buffer 0 (text ++ [0])
        let scan ← varSprintOnce vars buf buffer
        if i = 0 then sprintRounds vars i scan.buf scan.str
        else do
          let new ← readString scan.buf
          let old ← readString scan.str
          if new = old then .ok (some ⟨scan.buf, new.length, false⟩)
          else sprintRounds vars i scan.buf scan.str

def varSprint (vars : Variables) (buf buffer str : List UInt8) : Run (Option Sprinted) := do
  let buf ← writeBytes buf 0 (str ++ [0])
  sprintRounds vars 10 buf buffer

/-- The name of the reference that a text begins with. -/
def nameAt : List UInt8 → Option (List UInt8)
  | c :: next :: text =>
    if c = dollar ∧ next = openParen ∧ closeParen ∈ text then
      some (text.takeWhile (· ≠ closeParen))
    else none
  | _ => none

/-- The text behind some bytes with the references to values replaced once. -/
def replaceFrom (value : List UInt8 → Option (List UInt8)) : ℕ → List UInt8 → List UInt8
  | _, [] => []
  | skip + 1, _ :: text => replaceFrom value skip text
  | 0, c :: text =>
    match (nameAt (c :: text)).bind fun name => (value name).map (name, ·) with
    | some (name, val) => val ++ replaceFrom value (name.length + 2) text
    | none => c :: replaceFrom value 0 text

def replaceOnce (value : List UInt8 → Option (List UInt8)) (text : List UInt8) :
    List UInt8 :=
  replaceFrom value 0 text

/-- Each reference of a text has a value. -/
def Known (value : List UInt8 → Option (List UInt8)) : List UInt8 → Prop
  | [] => True
  | c :: text => (∀ name, nameAt (c :: text) = some name → (value name).isSome) ∧ Known value text

/-- The texts that are replaced, as long as something changes. -/
def roundTexts (value : List UInt8 → Option (List UInt8)) : ℕ → List UInt8 → List (List UInt8)
  | 0, _ => []
  | i + 1, text => text :: if replaceOnce value text = text then []
      else roundTexts value i (replaceOnce value text)

/-- There is an end inside the arrays, where nothing changes any more unless a loop is
reported; and the text that is scanned is kept. -/
def Replaces (vars : Variables) (size : ℕ) (text : List UInt8) : Prop :=
  (∀ buf buffer : List UInt8, buf.length = size → buffer.length = bufferSize →
    ∃ sprinted, varSprint vars buf buffer text = .ok (some sprinted) ∧
      (sprinted.reported = false → ∃ rounds : ℕ,
        let result := (replaceOnce vars.valueOf)^[rounds] text
        readString sprinted.buf = .ok result ∧ replaceOnce vars.valueOf result = result)) ∧
  ∀ buf str scan, varSprintOnce vars buf str = .ok scan → scan.str = str

/-- Each text has room in both arrays, and so has what becomes of it. -/
def RoundsFit (vars : Variables) (size : ℕ) (text : List UInt8) : Prop :=
  text.length < size ∧ ∀ text' ∈ roundTexts vars.valueOf 10 text,
    text'.length < bufferSize ∧ (replaceOnce vars.valueOf text').length < size

theorem writeBytes_append {buffer bytes others : List UInt8} {offset : ℕ} :
    (writeBytes buffer offset bytes >>= fun buffer =>
      writeBytes buffer (offset + bytes.length) others) =
      writeBytes buffer offset (bytes ++ others) := by
  rw [writeBytes, writeBytes, List.length_append]
  by_cases fits : offset + bytes.length ≤ buffer.length
  · rw [if_pos fits, bind_ok, writeBytes, putBytes_length fits, putBytes_putBytes fits,
      Nat.add_assoc]
  · rw [if_neg fits, if_neg (by omega)]
    rfl

section

variable {value : List UInt8 → Option (List UInt8)} {text name val rest : List UInt8}

theorem replaceFrom_skip (skip : ℕ) :
    replaceFrom value skip text = replaceFrom value 0 (text.drop skip) := by
  induction skip generalizing text with
  | zero => rfl
  | succ skip ih =>
    cases text with
    | nil => rfl
    | cons c text => exact ih

theorem Known.drop (known : Known value text) (n : ℕ) : Known value (text.drop n) := by
  induction n generalizing text with
  | zero => exact known
  | succ n ih =>
    cases text with
    | nil => exact known
    | cons c text => exact ih known.2

theorem nameAt_eq_some (named : nameAt text = some name) : closeParen ∉ name ∧ ∃ behind, text =
      dollar :: openParen :: (name ++ closeParen :: behind) := by
  unfold nameAt at named
  split at named
  · rename_i c next text
    split at named
    · rename_i reference
      obtain ⟨rfl, rfl, closed⟩ := reference
      obtain ⟨before, behind, rfl, first⟩ := List.eq_append_cons_of_mem closed
      have different : ∀ c ∈ before, decide (c ≠ closeParen) = true := fun c member =>
        decide_eq_true fun same => first (same ▸ member)
      have taken : (before ++ closeParen :: behind).takeWhile (· ≠ closeParen) = before := by
        rw [List.takeWhile_append_of_pos different]
        simp
      rw [taken] at named
      cases named
      exact ⟨first, behind, rfl⟩
    · cases named
  · cases named

end

section

variable {vars : Variables} {scan : Scan} {s : ℕ} {c : UInt8} {text name rest : List UInt8}

variable {str : List UInt8}

theorem getElem?_of_drop (stands : str.drop s = c :: rest) :
    str[s]? = some c := by
  rw [← Nat.add_zero s, ← List.getElem?_drop, stands]
  rfl

theorem readByte_of_drop (stands : str.drop s = c :: rest) :
    readByte str s = .ok c :=
  readByte_eq_ok_iff.mpr ⟨Int.natCast_nonneg s, getElem?_of_drop stands⟩

theorem copyByte_eq (stands : scan.str.drop s = c :: rest) :
    copyByte scan s = (·, s + 1) <$> scan.append [c] := by
  rw [copyByte, readByte_of_drop stands]
  rfl

theorem endVar_eq (stands : str.drop s = name ++ c :: rest)
    (inside : ∀ byte ∈ name, byte ≠ 0 ∧ byte ≠ closeParen) (ends : c = 0 ∨ c = closeParen) :
    endVar str s = .ok (s + name.length) := by
  have taken : (name ++ c :: rest).takeWhile (fun byte => byte ≠ 0 ∧ byte ≠ closeParen) =
      name := by
    rw [List.takeWhile_append_of_pos (by simpa using inside), List.takeWhile_cons_of_neg]
    · exact List.append_nil _
    · rcases ends with rfl | rfl <;> simp
  have length := congrArg List.length stands
  simp only [List.length_drop, List.length_append, List.length_cons] at length
  rw [endVar, stands, taken, if_pos (by omega)]

/-- Bytes without a reference at their start are copied one by one. -/
theorem onceTurn_of_none (stands : scan.str.drop s = c :: text ++ 0 :: rest)
    (nonzero : 0 ∉ c :: text) (unnamed : nameAt (c :: text) = none) :
    onceTurn vars scan s = (·, s + 1) <$> scan.append [c] := by
  rw [onceTurn, readByte_of_drop stands, bind_ok]
  by_cases sign : c = dollar
  · rw [if_pos sign]
    have behind : scan.str.drop (s + 1) = text ++ 0 :: rest := by
      rw [← List.drop_drop, stands]
      rfl
    cases text with
    | nil =>
      rw [readByte_of_drop behind, bind_ok, if_neg (by decide), copyByte_eq stands]
    | cons next text =>
      rw [readByte_of_drop behind, bind_ok]
      by_cases opens : next = openParen
      · have closed : closeParen ∉ text := by
          intro member
          simp [nameAt, sign, opens, member] at unnamed
        have bytes : scan.str.drop (s + 2) = text ++ 0 :: rest := by
          rw [← List.drop_drop, stands]
          rfl
        have last : scan.str.drop (s + 2 + text.length) = 0 :: rest := by
          rw [← List.drop_drop, bytes, List.drop_left]
        rw [if_pos opens, endVar_eq bytes _ (.inl rfl), bind_ok, readByte_of_drop last,
          bind_ok, if_neg (by decide), copyByte_eq stands]
        intro byte member
        refine ⟨?_, fun same => closed (same ▸ member)⟩
        rintro rfl
        exact nonzero (List.mem_cons_of_mem _ (List.mem_cons_of_mem _ member))
      · rw [if_neg opens, copyByte_eq stands]
  · rw [if_neg sign, copyByte_eq stands]

theorem lookUp_eq (sound : vars.Sound)
    (stands : str.drop s = name ++ closeParen :: rest) (nonzero : 0 ∉ name) :
    lookUp vars str s (s + name.length) = .ok (vars.valueOf name) := by
  have ended : (str.set (s + name.length) 0).drop s = name ++ 0 :: rest := by
    rw [List.drop_set, if_neg (by omega), stands]
    simp
  obtain ⟨place, got, valueOf, stands⟩ := @Variables.Sound.varGet_stands _ name sound
  rw [lookUp, ended, readString_of_ends nonzero, bind_ok, got, valueOf]
  cases place with
  | none => rfl
  | some place => simp [(stands place rfl).stringAt]

theorem set_zero_back (stands : str.drop s = c :: rest) :
    (str.set s 0).set s c = str := by
  obtain ⟨inside, same⟩ := List.getElem?_eq_some_iff.mp (getElem?_of_drop stands)
  rw [List.set_set, ← same, List.set_getElem_self]

theorem onceTurn_of_name (sound : vars.Sound) {val : List UInt8}
    (stands : scan.str.drop s = dollar :: openParen :: (name ++ closeParen :: rest))
    (nonzero : 0 ∉ name) (first : closeParen ∉ name)
    (valued : vars.valueOf name = some val) :
    onceTurn vars scan s = (·, s + (name.length + 3)) <$> scan.append val := by
  have behind : scan.str.drop (s + 1) = openParen :: (name ++ closeParen :: rest) := by
    rw [← List.drop_drop, stands]
    rfl
  have bytes : scan.str.drop (s + 2) = name ++ closeParen :: rest := by
    rw [← List.drop_drop, stands]
    rfl
  have last : scan.str.drop (s + 2 + name.length) = closeParen :: rest := by
    rw [← List.drop_drop, bytes, List.drop_left]
  have inside : ∀ byte ∈ name, byte ≠ 0 ∧ byte ≠ closeParen := by
    intro byte member
    exact ⟨fun same => nonzero (same ▸ member), fun same => first (same ▸ member)⟩
  rw [onceTurn, readByte_of_drop stands, bind_ok, if_pos rfl, readByte_of_drop behind, bind_ok,
    if_pos rfl, endVar_eq bytes inside (.inr rfl), bind_ok, readByte_of_drop last, bind_ok,
    if_pos rfl, lookUp_eq sound bytes nonzero, bind_ok, valued]
  have place : s + 2 + name.length + 1 = s + (name.length + 3) := by omega
  simp only [set_zero_back last, place]

theorem onceLoop_append {left s' : ℕ} {bytes others : List UInt8}
    (ran : ∀ buf, onceLoop vars left ⟨buf, scan.str, scan.b + bytes.length⟩ s' =
      (⟨·, scan.str, scan.b + bytes.length + others.length⟩) <$>
        writeBytes buf (scan.b + bytes.length) (others ++ [0])) :
    ((·, s') <$> scan.append bytes >>= fun next => onceLoop vars left next.1 next.2) =
      (⟨·, scan.str, scan.b + (bytes ++ others).length⟩) <$>
        writeBytes scan.buf scan.b (bytes ++ others ++ [0]) := by
  rw [List.append_assoc, ← writeBytes_append, Scan.append, List.length_append, ← Nat.add_assoc]
  cases writeBytes scan.buf scan.b bytes with
  | error fault => rfl
  | ok buf => exact ran buf

theorem onceLoop_eq (sound : vars.Sound) {left : ℕ} (turns : text.length < left)
    (stands : scan.str.drop s = text ++ 0 :: rest) (nonzero : 0 ∉ text)
    (known : Known vars.valueOf text) : onceLoop vars left scan s =
      (⟨·, scan.str, scan.b + (replaceOnce vars.valueOf text).length⟩) <$>
        writeBytes scan.buf scan.b (replaceOnce vars.valueOf text ++ [0]) := by
  induction left generalizing text scan s with
  | zero => exact absurd turns (Nat.not_lt_zero _)
  | succ left ih =>
    cases text with
    | nil =>
      rw [onceLoop, readByte_of_drop stands, bind_ok, if_pos rfl]
      rfl
    | cons c text =>
      have different : c ≠ 0 := fun same => nonzero (same ▸ List.mem_cons_self)
      rw [List.length_cons] at turns
      rw [onceLoop, readByte_of_drop stands, bind_ok, if_neg different]
      cases found : nameAt (c :: text) with
      | none =>
        have replaced : replaceOnce vars.valueOf (c :: text) =
            [c] ++ replaceOnce vars.valueOf text := by
          rw [replaceOnce, replaceFrom, found]
          rfl
        rw [onceTurn_of_none stands nonzero found, replaced]
        refine onceLoop_append fun buf => ih (by omega) ?_
          (fun member => nonzero (List.mem_cons_of_mem _ member)) known.2
        rw [← List.drop_drop, stands]
        rfl
      | some name =>
        obtain ⟨val, valued⟩ := Option.isSome_iff_exists.mp (known.1 name found)
        obtain ⟨first, behind, equal⟩ := nameAt_eq_some found
        obtain ⟨rfl, rfl⟩ := List.cons.inj equal
        have skipped : (openParen :: (name ++ closeParen :: behind)).drop
            (name.length + 2) = behind := by
          rw [List.drop_succ_cons, ← List.drop_drop, List.drop_left]
          rfl
        have replaced : replaceOnce vars.valueOf
            (dollar :: openParen :: (name ++ closeParen :: behind)) =
              val ++ replaceOnce vars.valueOf behind := by
          rw [replaceOnce, replaceFrom, found, Option.bind_some, valued, Option.map_some]
          simp only [replaceFrom_skip (name.length + 2), skipped]
          rfl
        have stands' : scan.str.drop s = dollar :: openParen ::
            (name ++ closeParen :: (behind ++ 0 :: rest)) := by
          simpa using stands
        have known' := known.2.drop (name.length + 2)
        rw [skipped] at known'
        simp only [List.mem_cons, List.mem_append, not_or] at nonzero
        rw [onceTurn_of_name sound stands' nonzero.2.2.1 first valued, replaced]
        refine onceLoop_append fun buf => ih ?_ ?_ nonzero.2.2.2.2 known'
        · simp only [List.length_cons, List.length_append] at turns
          omega
        · have shape : dollar :: openParen :: (name ++ closeParen :: (behind ++ 0 :: rest))
              = (dollar :: openParen :: name ++ [closeParen]) ++ (behind ++ 0 :: rest) := by
            simp
          rw [← List.drop_drop, stands', shape]
          exact List.drop_left' (by simp)

theorem copyByte_keeps {next : Scan × ℕ} (run : copyByte scan s = .ok next) :
    next.1.str = scan.str := by
  obtain ⟨c, -, run⟩ := bind_eq_ok_iff.mp run
  obtain ⟨scan', appended, rfl⟩ := map_eq_ok_iff.mp run
  obtain ⟨buf, -, rfl⟩ := map_eq_ok_iff.mp appended
  rfl

theorem onceTurn_keeps {next : Scan × ℕ} (run : onceTurn vars scan s = .ok next) :
    next.1.str = scan.str := by
  obtain ⟨c, -, run⟩ := bind_eq_ok_iff.mp run
  split at run
  · obtain ⟨c, -, run⟩ := bind_eq_ok_iff.mp run
    split at run
    · obtain ⟨e, -, run⟩ := bind_eq_ok_iff.mp run
      obtain ⟨last, read, run⟩ := bind_eq_ok_iff.mp run
      split at run
      · rename_i closes
        obtain ⟨val, -, run⟩ := bind_eq_ok_iff.mp run
        -- The `)` is put back where the zero has been.
        have back : (scan.str.set e 0).set e closeParen = scan.str := by
          obtain ⟨inside, same⟩ := List.getElem?_eq_some_iff.mp (readByte_eq_ok_iff.mp read).2
          rw [List.set_set, ← closes, ← same]
          exact List.set_getElem_self inside
        simp only [back] at run
        cases val with
        | none => exact copyByte_keeps run
        | some val =>
          obtain ⟨scan', appended, rfl⟩ := map_eq_ok_iff.mp run
          obtain ⟨buf, -, rfl⟩ := map_eq_ok_iff.mp appended
          rfl
      · exact copyByte_keeps run
    · exact copyByte_keeps run
  · exact copyByte_keeps run

theorem onceLoop_keeps {left : ℕ} {scan' : Scan} (run : onceLoop vars left scan s = .ok scan') :
    scan'.str = scan.str := by
  induction left generalizing scan s with
  | zero => cases run
  | succ left ih =>
    obtain ⟨c, -, run⟩ := bind_eq_ok_iff.mp run
    split at run
    · obtain ⟨buf, -, rfl⟩ := map_eq_ok_iff.mp run
      rfl
    · obtain ⟨next, turn, run⟩ := bind_eq_ok_iff.mp run
      exact (ih run).trans (onceTurn_keeps turn)

end

section

variable {vars : Variables} {text name val rest : List UInt8}

theorem valueOf_nonzero (sound : vars.Sound) (valued : vars.valueOf name = some val) :
    0 ∉ val := by
  obtain ⟨place, -, valueOf, -⟩ := @Variables.Sound.varGet_stands _ name sound
  rw [valued] at valueOf
  obtain ⟨place, -, rfl⟩ := Option.map_eq_some_iff.mp valueOf.symm
  exact Arena.zero_notMem_textAt

theorem replaceFrom_nonzero (sound : vars.Sound) (nonzero : 0 ∉ text) (skip : ℕ) :
    0 ∉ replaceFrom vars.valueOf skip text := by
  induction text generalizing skip with
  | nil =>
    exact List.not_mem_nil
  | cons c text ih =>
    obtain ⟨first, nonzero⟩ := not_or.mp (mt List.mem_cons.mpr nonzero)
    cases skip with
    | succ skip => exact ih nonzero skip
    | zero =>
      rw [replaceFrom]
      split
      · rename_i name val found
        obtain ⟨name', -, valued⟩ := Option.bind_eq_some_iff.mp found
        obtain ⟨val', valued, equal⟩ := Option.map_eq_some_iff.mp valued
        cases equal
        rw [List.mem_append, not_or]
        exact ⟨valueOf_nonzero sound valued, ih nonzero _⟩
      · rw [List.mem_cons, not_or]
        exact ⟨first, ih nonzero 0⟩

/-- A text stands at the start of an array of some size. -/
def StandsIn (array : List UInt8) (size : ℕ) (text : List UInt8) : Prop :=
  array.length = size ∧ ∃ rest, array = text ++ 0 :: rest

variable {array : List UInt8}

theorem writeBytes_standsIn {array' : List UInt8}
    (written : writeBytes array 0 (text ++ [0]) = .ok array') :
    StandsIn array' array.length text := by
  obtain ⟨inside, rfl⟩ := writeBytes_eq_ok_iff.mp written
  refine ⟨putBytes_length inside, array.drop (text.length + 1), ?_⟩
  simp [putBytes]

theorem returns_writeBytes_iff : (∃ array', writeBytes array 0 (text ++ [0]) = .ok array') ↔
      text.length < array.length := by
  simp only [writeBytes_eq_ok_iff, exists_and_left, exists_eq, and_true,
    List.length_append, List.length_singleton]
  omega

theorem StandsIn.readString {size : ℕ} (stands : StandsIn array size text)
    (nonzero : 0 ∉ text) : readString array = .ok text := by
  obtain ⟨-, rest, rfl⟩ := stands
  exact readString_of_ends nonzero

theorem varSprintOnce_eq (sound : vars.Sound) {buf str : List UInt8} {size : ℕ}
    (stands : StandsIn str size text) (nonzero : 0 ∉ text)
    (known : Known vars.valueOf text) :
    varSprintOnce vars buf str = (⟨·, str, (replaceOnce vars.valueOf text).length⟩) <$>
      writeBytes buf 0 (replaceOnce vars.valueOf text ++ [0]) := by
  obtain ⟨-, rest, rfl⟩ := stands
  have ran := @onceLoop_eq vars ⟨buf, text ++ 0 :: rest, 0⟩ 0 text rest sound
    (text ++ 0 :: rest).length (by simp) rfl nonzero known
  rw [varSprintOnce, ran]
  simp only [Nat.zero_add]

variable {size i : ℕ} {buf buffer : List UInt8}

theorem room_of_round (sound : vars.Sound) (stands : StandsIn buf size text)
    (length : buffer.length = bufferSize) (nonzero : 0 ∉ text)
    (known : Known vars.valueOf text) {sprinted : Sprinted}
    (run : sprintRounds vars (i + 1) buf buffer = .ok (some sprinted)) :
    text.length < bufferSize ∧ (replaceOnce vars.valueOf text).length < size := by
  rw [sprintRounds, stands.readString nonzero, bind_ok] at run
  split at run
  · cases run
  · obtain ⟨buffer', written, run⟩ := bind_eq_ok_iff.mp run
    obtain ⟨scan, once, -⟩ := bind_eq_ok_iff.mp run
    rw [varSprintOnce_eq sound (writeBytes_standsIn written) nonzero known] at once
    obtain ⟨buf', written', -⟩ := map_eq_ok_iff.mp once
    rw [← length, ← stands.1]
    exact ⟨returns_writeBytes_iff.mp ⟨_, written⟩, returns_writeBytes_iff.mp ⟨_, written'⟩⟩

theorem round_of_room (sound : vars.Sound) (stands : StandsIn buf size text)
    (length : buffer.length = bufferSize) (nonzero : 0 ∉ text)
    (known : Known vars.valueOf text) (short : text.length < bufferSize)
    (fits : (replaceOnce vars.valueOf text).length < size) : ∃ buf' buffer',
      StandsIn buf' size (replaceOnce vars.valueOf text) ∧ buffer'.length = bufferSize ∧
      sprintRounds vars (i + 1) buf buffer =
        if i = 0 then sprintRounds vars i buf' buffer'
        else if replaceOnce vars.valueOf text = text then
          .ok (some ⟨buf', (replaceOnce vars.valueOf text).length, false⟩)
        else sprintRounds vars i buf' buffer' := by
  obtain ⟨buffer', written⟩ := returns_writeBytes_iff.mpr (length ▸ short)
  obtain ⟨buf', written'⟩ := returns_writeBytes_iff.mpr (stands.1 ▸ fits)
  have copied := writeBytes_standsIn written
  have stands' := writeBytes_standsIn written'
  rw [stands.1] at stands'
  rw [length] at copied
  refine ⟨buf', buffer', stands', copied.1, ?_⟩
  rw [sprintRounds, stands.readString nonzero, bind_ok, if_neg (Nat.not_lt.mpr short.le),
    written, bind_ok, varSprintOnce_eq sound copied nonzero known, written', map_ok, bind_ok]
  simp only [stands'.readString (replaceFrom_nonzero sound nonzero 0),
    copied.readString nonzero, bind_ok]

theorem mem_roundTexts_succ {value : List UInt8 → Option (List UInt8)}
    {P : List UInt8 → Prop} : (∀ text' ∈ roundTexts value (i + 1) text, P text') ↔
      P text ∧ (replaceOnce value text ≠ text →
        ∀ text' ∈ roundTexts value i (replaceOnce value text), P text') := by
  rw [roundTexts, List.forall_mem_cons]
  split <;> simp_all

theorem rounds_of_room (sound : vars.Sound) (stands : StandsIn buf size text)
    (length : buffer.length = bufferSize) (nonzero : 0 ∉ text)
    (known : ∀ text' ∈ roundTexts vars.valueOf i text, Known vars.valueOf text')
    (room : ∀ text' ∈ roundTexts vars.valueOf i text,
      text'.length < bufferSize ∧ (replaceOnce vars.valueOf text').length < size) :
    ∃ sprinted, sprintRounds vars i buf buffer = .ok (some sprinted) ∧
      (sprinted.reported = false → ∃ rounds : ℕ,
        let result := (replaceOnce vars.valueOf)^[rounds] text
        readString sprinted.buf = .ok result ∧
          replaceOnce vars.valueOf result = result) := by
  induction i generalizing text buf buffer with
  | zero =>
    rw [sprintRounds, stands.readString nonzero]
    exact ⟨_, rfl, nofun⟩
  | succ i ih =>
    obtain ⟨known, knowns⟩ := mem_roundTexts_succ.mp known
    obtain ⟨⟨short, fits⟩, rooms⟩ := mem_roundTexts_succ.mp room
    obtain ⟨buf', buffer', stands', length', equal⟩ :=
      round_of_room (i := i) sound stands length nonzero known short fits
    have nonzero' := replaceFrom_nonzero sound nonzero 0
    rw [equal]
    by_cases last : i = 0
    · subst last
      rw [if_pos rfl, sprintRounds, stands'.readString nonzero']
      exact ⟨_, rfl, nofun⟩
    · rw [if_neg last]
      by_cases same : replaceOnce vars.valueOf text = text
      · rw [if_pos same]
        exact ⟨_, rfl, fun _ => ⟨0, (stands'.readString nonzero').trans (by rw [same]; rfl), same⟩⟩
      · rw [if_neg same]
        obtain ⟨sprinted, run, result⟩ := ih stands' length' nonzero' (knowns same) (rooms same)
        refine ⟨sprinted, run, fun unreported => ?_⟩
        obtain ⟨rounds, read, fixed⟩ := result unreported
        exact ⟨rounds + 1, read, fixed⟩

theorem room_of_rounds (sound : vars.Sound) (stands : StandsIn buf size text)
    (length : buffer.length = bufferSize) (nonzero : 0 ∉ text)
    (known : ∀ text' ∈ roundTexts vars.valueOf i text, Known vars.valueOf text')
    {sprinted : Sprinted} (run : sprintRounds vars i buf buffer = .ok (some sprinted)) :
    ∀ text' ∈ roundTexts vars.valueOf i text,
      text'.length < bufferSize ∧ (replaceOnce vars.valueOf text').length < size := by
  induction i generalizing text buf buffer with
  | zero => exact fun _ member => absurd member List.not_mem_nil
  | succ i ih =>
    obtain ⟨known, knowns⟩ := mem_roundTexts_succ.mp known
    have room := room_of_round sound stands length nonzero known run
    refine mem_roundTexts_succ.mpr ⟨room, fun changed => ?_⟩
    obtain ⟨buf', buffer', stands', length', equal⟩ :=
      round_of_room (i := i) sound stands length nonzero known room.1 room.2
    rw [equal, if_neg changed, ite_self] at run
    exact ih stands' length' (replaceFrom_nonzero sound nonzero 0) (knowns changed) run

end

end OsFree.Loader
