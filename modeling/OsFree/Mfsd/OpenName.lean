import OsFree.Machine.Run
import Mathlib.Data.List.DropRight

/-!
# Finding the module of a file

The mini file system has the multiboot modules for files.  A file is opened by its
name, which is compared with the end of each command line in two buffers of 256
bytes.
-/

namespace OsFree.Mfsd

open Machine

/-- An entry of the list of modules, with the string of its command line. -/
structure Module where
  mod_start : UInt32
  mod_end : UInt32
  cmdline : List UInt8
  ordered : mod_start ≤ mod_end
  nonzero : 0 ∉ cmdline

def toupper (c : UInt8) : UInt8 :=
  if 0x61 ≤ c ∧ c ≤ 0x7a then c - 0x20 else c

def tolower (c : UInt8) : UInt8 :=
  if 0x41 ≤ c ∧ c ≤ 0x5a then c + 0x20 else c

def isspace (c : UInt8) : Bool := c == 0x20 || c == 0x9 || c == 0xd || c == 0xa

/-- Translate `/` to `\`. -/
def toBackslash (c : UInt8) : UInt8 :=
  if c = 0x2f then 0x5c else c

/-- `strcpy` into a buffer of `0x100` bytes.  What is behind the string stays in the
buffer. -/
def strcpy (buf s : List UInt8) : Run (List UInt8) :=
  if 0x100 < s.length + 1 then .error .writeOutside
  else .ok (s ++ 0 :: buf.drop (s.length + 1))

/-- Change each character of the string that a buffer starts with. -/
def mapString (f : UInt8 → UInt8) (buf : List UInt8) : List UInt8 :=
  (buf.takeWhile (· != 0)).map f ++ buf.dropWhile (· != 0)

/-- Strip the spaces at both ends of the string in a buffer: the buffer, and what is
in it from the pointer that is returned.  For a string of spaces only, the byte before
the buffer is read. -/
def strip (buf : List UInt8) : Run (List UInt8 × List UInt8) :=
  let s := buf.takeWhile (· != 0)
  let kept := s.rdropWhile isspace
  if kept = [] then .error .readOutside
  else
    let buf := kept ++ List.replicate (s.length - kept.length) 0 ++ buf.drop s.length
    .ok (buf, buf.dropWhile isspace)

/-- Skip a disk or partition in brackets. -/
def skipDisk (p : List UInt8) : List UInt8 :=
  if p.head? = some 0x28 then (p.dropWhile fun c => c != 0 && c != 0x29).tail else p

/-- Skip a drive letter. -/
def skipDrive (q : List UInt8) : List UInt8 :=
  if q[1]? = some 0x3a then q.drop 2 else q

/-- Skip a backslash.  The pointer may be at the end of its buffer. -/
def skipBackslash : List UInt8 → Run (List UInt8)
  | [] => .error .readOutside
  | c :: rest => .ok (if c = 0x5c then rest else c :: rest)

/-- The string at a pointer. -/
def cstring (p : List UInt8) : Run (List UInt8) :=
  if 0 ∈ p then .ok (p.takeWhile (· != 0)) else .error .readOutside

/-- The loop of `lastpos`, from a position on downwards. -/
def lastposLoop (s1 s2 : List UInt8) : Nat → Option Nat
  | 0 => if s2 ≠ [] ∧ s2.isPrefixOf s1 then some 0 else none
  | s + 1 =>
    if s2 ≠ [] ∧ s2.isPrefixOf (s1.drop (s + 1)) then some (s + 1)
    else lastposLoop s1 s2 s

/-- The last place of a string in another one. -/
def lastpos (s1 s2 : List UInt8) : Option Nat :=
  if s1.length < s2.length then none
  else lastposLoop s1 s2 (s1.length - s2.length)

/-- The last place of the name is the end of the command line, and stands behind a
space or is all of it. -/
def atEnd (p q : List UInt8) : Bool :=
  match lastpos p q with
  | none => false
  | some l => p.length == l + q.length && (l == 0 || p[l - 1]? == some 0x20)

/-- Search for the module of a name. -/
def findModule (name : List UInt8) : List Module → List UInt8 → List UInt8 → Run (Option Module)
  | [], _, _ => .ok none
  | mod :: rest, buf1, buf2 => do
      let buf1 ← strcpy buf1 mod.cmdline
      let buf2 ← strcpy buf2 name
      let buf1 := mapString toBackslash buf1
      let buf1 := mapString toupper buf1
      let buf2 := mapString toupper buf2
      let (buf1, p) ← strip buf1
      let (buf2, q) ← strip buf2
      let p := skipDisk p
      let q := skipDrive q
      let q ← skipBackslash q
      let p ← skipBackslash p
      let p ← cstring p
      let q ← cstring q
      if atEnd p q then .ok (some mod) else findModule name rest buf1 buf2

/-- Open a file: the module that it is. -/
def MFS_OPEN (modules : List Module) (name : List UInt8) : Run (Option Module) :=
  findModule name modules (List.replicate 0x100 0) (List.replicate 0x100 0)

/-- A string fits a buffer, and has a character that is not a space. -/
def Fits (s : List UInt8) : Prop := s.length < 0x100 ∧ ∃ c ∈ s, isspace c = false

/-- A command line that fills its buffer does not only open a bracket. -/
def Closes (s : List UInt8) : Prop := s.length = 0xff → (s.dropWhile isspace).head? = some 0x28 →
    0x29 ∈ s ∨ ∃ c, s.getLast? = some c ∧ isspace c = true

/-- The name can be compared with the command line of each module up to the one that
has it. -/
def Comparable (modules : List Module) (name : List UInt8) : Prop :=
  ∀ n mod, modules[n]? = some mod → MFS_OPEN (modules.take n) name = .ok none →
    Fits name ∧ Fits mod.cmdline ∧ Closes mod.cmdline

section

variable {c : UInt8}

/-- A character as it is compared in a command line. -/
def compared (c : UInt8) : UInt8 := toupper (toBackslash c)

theorem toupper_ne_zero (nonzero : c ≠ 0) : toupper c ≠ 0 := by
  unfold toupper
  grind

theorem toBackslash_ne_zero (nonzero : c ≠ 0) : toBackslash c ≠ 0 := by
  unfold toBackslash
  grind

@[simp] theorem isspace_toupper : isspace (toupper c) = isspace c := by
  unfold toupper isspace
  grind

@[simp] theorem isspace_toBackslash : isspace (toBackslash c) = isspace c := by
  unfold toBackslash isspace
  grind

@[simp] theorem isspace_compared : isspace (compared c) = isspace c := by
  unfold compared
  rw [isspace_toupper, isspace_toBackslash]

theorem compared_eq_open_iff : compared c = 0x28 ↔ c = 0x28 := by
  unfold compared toupper toBackslash
  grind

theorem compared_eq_close_iff : compared c = 0x29 ↔ c = 0x29 := by
  unfold compared toupper toBackslash
  grind

end

section

variable {buf s p : List UInt8} {f : UInt8 → UInt8}

/-- The last byte in a buffer, or behind a pointer into it, is zero. -/
def Terminated (p : List UInt8) : Prop := p.getLast? = some 0

theorem Terminated.of_suffix (terminated : Terminated buf) (suffix : p <:+ buf)
    (some : p ≠ []) : Terminated p := by
  obtain ⟨before, rfl⟩ := suffix
  unfold Terminated at terminated ⊢
  rw [List.getLast?_append_of_ne_nil _ some] at terminated
  exact terminated

theorem Terminated.mem (terminated : Terminated p) : 0 ∈ p := List.mem_of_getLast? terminated

/-- A buffer of `0x100` bytes whose last one is zero, with the string that is at its
start. -/
structure Holds (buf s : List UInt8) : Prop where
  length : buf.length = 0x100
  terminated : Terminated buf
  nonzero : 0 ∉ s
  behind : ∃ rest, buf = s ++ 0 :: rest

theorem holds_empty : Holds (List.replicate 0x100 0) [] where
  length := List.length_replicate
  terminated := by
    unfold Terminated
    rfl
  nonzero := List.not_mem_nil
  behind := ⟨List.replicate 0xff 0, List.replicate_succ⟩

theorem nonzero_of_mem (nonzero : 0 ∉ s) : ∀ c ∈ s, (c != 0) = true := by
  intro c member
  rw [bne_iff_ne]
  rintro rfl
  exact nonzero member

theorem takeWhile_append_zero (nonzero : 0 ∉ s) (rest : List UInt8) :
    (s ++ 0 :: rest).takeWhile (· != 0) = s := by
  rw [List.takeWhile_append_of_pos (nonzero_of_mem nonzero)]
  simp

theorem dropWhile_append_zero (nonzero : 0 ∉ s) (rest : List UInt8) :
    (s ++ 0 :: rest).dropWhile (· != 0) = 0 :: rest := by
  rw [List.dropWhile_append_of_pos (nonzero_of_mem nonzero)]
  simp

theorem strcpy_holds (holds : Holds buf p) (short : s.length < 0x100)
    (nonzero : 0 ∉ s) : ∃ buf', strcpy buf s = .ok buf' ∧ Holds buf' s := by
  refine ⟨_, if_neg (by omega), ?_, ?_, nonzero, _, rfl⟩
  · have length := holds.length
    simp
    omega
  · unfold Terminated
    rw [List.getLast?_append_of_ne_nil _ (List.cons_ne_nil _ _)]
    cases rest : buf.drop (s.length + 1) with
    | nil => rfl
    | cons c tail =>
      have suffix := holds.terminated.of_suffix (List.drop_suffix _ buf)
        (rest ▸ List.cons_ne_nil c tail)
      rw [rest] at suffix
      exact suffix

theorem mapString_holds (holds : Holds buf s) (keeps : ∀ c, c ≠ 0 → f c ≠ 0) :
    Holds (mapString f buf) (s.map f) := by
  obtain ⟨rest, rfl⟩ := holds.behind
  have mapped : mapString f (s ++ 0 :: rest) = s.map f ++ 0 :: rest := by
    unfold mapString
    rw [takeWhile_append_zero holds.nonzero, dropWhile_append_zero holds.nonzero]
  rw [mapped]
  refine ⟨?_, ?_, ?_, _, rfl⟩
  · have length := holds.length
    simpa using length
  · have terminated := holds.terminated
    unfold Terminated at terminated ⊢
    rw [List.getLast?_append_of_ne_nil _ (List.cons_ne_nil _ _)] at terminated ⊢
    exact terminated
  · rw [List.mem_map]
    rintro ⟨c, member, zero⟩
    exact keeps c (fun same => holds.nonzero (same ▸ member)) zero

theorem strip_holds (holds : Holds buf s) (some : ∃ c ∈ s, isspace c = false) :
    ∃ buf' rest, strip buf = .ok (buf', (s.rdropWhile isspace).dropWhile isspace ++ 0 :: rest) ∧
        Holds buf' (s.rdropWhile isspace) ∧
        Terminated ((s.rdropWhile isspace).dropWhile isspace ++ 0 :: rest) ∧
        (s.rdropWhile isspace).length + rest.length = 0xff := by
  obtain ⟨behind, rfl⟩ := holds.behind
  have kept : s.rdropWhile isspace ≠ [] := by
    rw [ne_eq, List.rdropWhile_eq_nil_iff]
    obtain ⟨c, member, visible⟩ := some
    exact fun all => absurd (all c member) (by simp [visible])
  have shape : s.rdropWhile isspace ++
      List.replicate (s.length - (s.rdropWhile isspace).length) 0 ++ 0 :: behind =
      s.rdropWhile isspace ++ 0 ::
        (List.replicate (s.length - (s.rdropWhile isspace).length) 0 ++ behind) := by
    rw [List.append_assoc, ← List.singleton_append, ← List.append_assoc _ [0],
      ← List.replicate_succ', List.replicate_succ]
    rfl
  have stripped : strip (s ++ 0 :: behind) = .ok (s.rdropWhile isspace ++ 0 ::
          (List.replicate (s.length - (s.rdropWhile isspace).length) 0 ++ behind),
        (s.rdropWhile isspace).dropWhile isspace ++ 0 ::
          (List.replicate (s.length - (s.rdropWhile isspace).length) 0 ++
            behind)) := by
    unfold strip
    rw [takeWhile_append_zero holds.nonzero]
    dsimp only
    rw [if_neg kept, List.drop_left, shape, List.dropWhile_append, if_neg]
    rw [List.isEmpty_iff, List.dropWhile_eq_nil_iff]
    exact fun all => List.rdropWhile_last_not _ _ kept (all _ (List.getLast_mem kept))
  have shorter := (List.rdropWhile_prefix isspace s).length_le
  have length := holds.length
  have holds' : Holds (s.rdropWhile isspace ++ 0 ::
      (List.replicate (s.length - (s.rdropWhile isspace).length) 0 ++ behind))
      (s.rdropWhile isspace) := by
    refine ⟨?_, ?_, fun member => holds.nonzero
      ((List.rdropWhile_prefix isspace s).subset member), _, rfl⟩
    · simp at length ⊢
      omega
    · have terminated := holds.terminated
      unfold Terminated at terminated ⊢
      rw [List.getLast?_append_of_ne_nil _ (List.cons_ne_nil _ _)] at terminated
      rw [← shape, List.getLast?_append_of_ne_nil _ (List.cons_ne_nil _ _)]
      exact terminated
  refine ⟨_, _, stripped, holds', ?_, ?_⟩
  · refine holds'.terminated.of_suffix ?_ (by simp)
    obtain ⟨spaces, split⟩ := List.dropWhile_suffix isspace
      (l := s.rdropWhile isspace)
    exact ⟨spaces, by rw [← List.append_assoc, split]⟩
  · simp at length ⊢
    omega

theorem skipDisk_suffix {w rest : List UInt8}
    (closes : rest ≠ [] ∨ w.head? ≠ some 0x28 ∨ 0x29 ∈ w) (nonzero : 0 ∉ w) :
    skipDisk (w ++ 0 :: rest) <:+ w ++ 0 :: rest ∧ skipDisk (w ++ 0 :: rest) ≠ [] := by
  unfold skipDisk
  split
  · rename_i opens
    refine ⟨(List.tail_suffix _).trans (List.dropWhile_suffix _), ?_⟩
    rw [List.dropWhile_append]
    split
    · rename_i none
      rw [List.isEmpty_iff, List.dropWhile_eq_nil_iff] at none
      have unclosed : 0x29 ∉ w := fun member => absurd (none _ member) (by decide)
      have opened : w.head? = some 0x28 := by
        cases w with
        | nil => cases opens
        | cons c w => exact opens
      rcases closes with behind | other | closed
      · exact behind
      · exact absurd opened other
      · exact absurd closed unclosed
    · rename_i some
      rw [List.isEmpty_iff] at some
      obtain ⟨c, tail, split⟩ := List.exists_cons_of_ne_nil some
      rw [split]
      simp
  · exact ⟨List.suffix_refl _, by simp⟩

theorem skipBackslash_suffix (terminated : Terminated p) :
    ∃ p', skipBackslash p = .ok p' ∧ p' <:+ p ∧ p' ≠ [] := by
  cases p with
  | nil => cases terminated
  | cons c rest =>
    refine ⟨_, rfl, ?_⟩
    split
    · rename_i backslash
      refine ⟨List.suffix_cons c rest, ?_⟩
      rintro rfl
      cases terminated.symm.trans (congrArg some backslash)
    · exact ⟨List.suffix_refl _, List.cons_ne_nil c rest⟩

theorem cstring_returns (terminated : Terminated p) : ∃ s, cstring p = .ok s :=
  ⟨_, if_pos terminated.mem⟩

theorem skipDrive_suffix (terminated : Terminated p) : skipDrive p <:+ p ∧ skipDrive p ≠ [] := by
  unfold skipDrive
  split
  · rename_i colon
    refine ⟨List.drop_suffix 2 p, ?_⟩
    match p with
    | [] => cases colon
    | [c] => cases colon
    | [c, d] =>
      cases colon.symm.trans terminated
    | c :: d :: e :: rest => exact List.cons_ne_nil e rest
  · refine ⟨List.suffix_refl p, ?_⟩
    rintro rfl
    cases terminated

theorem closes_of_full {cmdline : List UInt8} (closes : Closes cmdline)
    (short : cmdline.length < 0x100)
    (full : ((cmdline.map compared).rdropWhile isspace).length = 0xff) :
    let w := ((cmdline.map compared).rdropWhile isspace).dropWhile isspace
    w.head? ≠ some 0x28 ∨ 0x29 ∈ w := by
  have prefixed := List.rdropWhile_prefix isspace (cmdline.map compared)
  have shorter := prefixed.length_le
  rw [List.length_map] at shorter
  have length : cmdline.length = 0xff := by omega
  have whole : (cmdline.map compared).rdropWhile isspace = cmdline.map compared :=
    prefixed.eq_of_length (by rw [full, List.length_map, length])
  have spaces : isspace ∘ compared = isspace := funext fun c => isspace_compared
  dsimp only
  rw [whole, List.dropWhile_map, spaces, List.head?_map]
  rw [or_iff_not_imp_left, ne_eq, not_not]
  intro opens
  obtain ⟨c, first, same⟩ := Option.map_eq_some_iff.mp opens
  rw [compared_eq_open_iff.mp same] at first
  rcases closes length first with closed | ⟨last, here, space⟩
  · rw [List.mem_map]
    refine ⟨0x29, ?_, compared_eq_close_iff.mpr rfl⟩
    rw [← List.takeWhile_append_dropWhile (p := isspace) (l := cmdline), List.mem_append] at closed
    rcases closed with early | late
    · exact absurd (List.mem_takeWhile_imp early) (by decide)
    · exact late
  · have kept : (cmdline.map compared).rdropWhile isspace ≠ [] := by
      rw [whole]
      rintro none
      rw [List.map_eq_nil_iff] at none
      rw [none] at length
      cases length
    have visible := List.rdropWhile_last_not _ _ kept
    simp only [whole] at visible
    rw [List.getLast_map, isspace_compared] at visible
    rw [(List.getLast_eq_iff_getLast?_eq_some _).mpr here] at visible
    exact absurd space visible

variable {buf1 buf2 s1 s2 name : List UInt8} {mod : Module}

theorem findModule_pass (holds1 : Holds buf1 s1) (holds2 : Holds buf2 s2)
    (nonzero : 0 ∉ name) (fits : Fits name) (fitsLine : Fits mod.cmdline)
    (closes : Closes mod.cmdline) :
    ∃ buf1' buf2' s1' s2', Holds buf1' s1' ∧ Holds buf2' s2' ∧
      ∃ found : Bool, ∀ rest, findModule name (mod :: rest) buf1 buf2 =
        if found then .ok (some mod) else findModule name rest buf1' buf2' := by
  obtain ⟨line, copied1, lineHolds⟩ := strcpy_holds holds1 fitsLine.1 mod.nonzero
  obtain ⟨given, copied2, givenHolds⟩ := strcpy_holds holds2 fits.1 nonzero
  have lineHolds := mapString_holds (mapString_holds lineHolds
    (f := toBackslash) fun c => toBackslash_ne_zero) (f := toupper)
    fun c => toupper_ne_zero
  have givenHolds := mapString_holds givenHolds (f := toupper) fun c => toupper_ne_zero
  have compared' : toupper ∘ toBackslash = compared := rfl
  rw [List.map_map, compared'] at lineHolds
  have someLine : ∃ c ∈ mod.cmdline.map compared, isspace c = false := by
    obtain ⟨c, member, visible⟩ := fitsLine.2
    exact ⟨_, List.mem_map_of_mem member, isspace_compared.trans visible⟩
  have someGiven : ∃ c ∈ name.map toupper, isspace c = false := by
    obtain ⟨c, member, visible⟩ := fits.2
    exact ⟨_, List.mem_map_of_mem member, isspace_toupper.trans visible⟩
  obtain ⟨line', rest, stripped1, lineHolds', terminated, full⟩ := strip_holds lineHolds someLine
  obtain ⟨given', rest', stripped2, givenHolds', terminated', -⟩ := strip_holds givenHolds someGiven
  have disk := @skipDisk_suffix _ rest (by
    by_cases behind : rest = []
    · rw [behind] at full
      exact Or.inr (closes_of_full closes fitsLine.1 full)
    · exact Or.inl behind) (fun member => lineHolds'.nonzero
      ((List.dropWhile_sublist _).subset member))
  obtain ⟨drive, driveSome⟩ := skipDrive_suffix terminated'
  obtain ⟨q, slash2, suffix2, some2⟩ := skipBackslash_suffix (terminated'.of_suffix drive driveSome)
  obtain ⟨p, slash1, suffix1, some1⟩ := skipBackslash_suffix (terminated.of_suffix disk.1 disk.2)
  obtain ⟨pString, string1⟩ := cstring_returns
    ((terminated.of_suffix disk.1 disk.2).of_suffix suffix1 some1)
  obtain ⟨qString, string2⟩ := cstring_returns
    ((terminated'.of_suffix drive driveSome).of_suffix suffix2 some2)
  refine ⟨line', given', _, _, lineHolds', givenHolds', atEnd pString qString, fun others => ?_⟩
  rw [findModule, copied1, bind_ok, copied2, bind_ok]
  dsimp only
  rw [stripped1, bind_ok, stripped2, bind_ok]
  rw [slash2, bind_ok, slash1, bind_ok, string1, bind_ok, string2, bind_ok]

theorem findModule_returns (nonzero : 0 ∉ name) (modules : List Module)
    (holds1 : Holds buf1 s1) (holds2 : Holds buf2 s2)
    (fits : ∀ n mod, modules[n]? = some mod →
      findModule name (modules.take n) buf1 buf2 = .ok none →
        Fits name ∧ Fits mod.cmdline ∧ Closes mod.cmdline) :
    Returns (findModule name modules buf1 buf2) := by
  induction modules generalizing buf1 buf2 s1 s2 with
  | nil => exact ⟨none, rfl⟩
  | cons mod rest ih =>
    obtain ⟨given, line, closes⟩ := fits 0 mod rfl rfl
    obtain ⟨buf1', buf2', s1', s2', holds1', holds2', found, pass⟩ :=
      findModule_pass holds1 holds2 nonzero given line closes
    rw [pass]
    cases found with
    | true => exact ⟨some mod, rfl⟩
    | false =>
      refine ih holds1' holds2' fun n mod' here none => ?_
      refine fits (n + 1) mod' here ?_
      rw [List.take_succ_cons, pass]
      exact none

theorem mem_of_findModule {modules : List Module}
    (found : findModule name modules buf1 buf2 = .ok (some mod)) :
    mod ∈ modules := by
  induction modules generalizing buf1 buf2 with
  | nil => cases found
  | cons first rest ih =>
    simp only [findModule, bind_eq_ok_iff] at found
    obtain ⟨_, -, _, -, _, -, _, -, _, -, _, -, p, -, q, -, found⟩ := found
    split at found
    · cases found
      exact List.mem_cons_self
    · exact List.mem_cons_of_mem first (ih found)

theorem MFS_OPEN_returns {modules : List Module} (nonzero : 0 ∉ name)
    (comparable : Comparable modules name) : Returns (MFS_OPEN modules name) :=
  findModule_returns nonzero modules holds_empty holds_empty comparable

end
end OsFree.Mfsd
