import Mathlib.Data.List.GetD
import OsFree.Machine.Run

/-!
# The tokenizer

The tokenizer keeps one cursor for everyone who uses it.  It ends a token by
writing a zero over the separator behind it, and writes the separator back when
it goes on.  Strings are lists of characters; a character behind their end is
zero, and writing one there has no effect.
-/

namespace OsFree.Compat

open Machine

/-- A place in one of the strings. -/
structure Cursor where
  string : Nat
  offset : Nat
  deriving DecidableEq

/-- The state of the tokenizer and the strings. -/
structure Tokenizer where
  strings : Nat → List UInt8
  nxtToken : Option Cursor
  ch : UInt8

/-- What is saved of the state. -/
structure SavedTokens where
  strNextSavedTokens : Option Cursor
  strChSavedTokens : UInt8
  deriving DecidableEq

namespace Tokenizer

variable (world : Tokenizer)

/-- The tokenizer with another text of a string. -/
def withText (string : Nat) (text : List UInt8) : Tokenizer := { world with
    strings := fun other =>
      if other = string then text else world.strings other }

/-- The character at a place. -/
def get (place : Cursor) : UInt8 := (world.strings place.string).getD place.offset 0

/-- Write a character. -/
def put (place : Cursor) (c : UInt8) : Tokenizer :=
  world.withText place.string ((world.strings place.string).set place.offset c)

/-- The characters from a place up to a zero. -/
def textAt (place : Cursor) : List UInt8 :=
  ((world.strings place.string).drop place.offset).takeWhile (· ≠ 0)

/-- The first place from this one on with a zero or one of the separators. -/
def tokenEnd (place : Cursor) (token : List UInt8) : Cursor where
  string := place.string
  offset := place.offset + (((world.strings place.string).drop place.offset).takeWhile
      fun c => c ≠ 0 && !token.contains c).length

/-- End the token that starts at a place; without separators it is the whole
string. -/
def endToken (str : Cursor) (token : List UInt8) : Option Cursor × Tokenizer :=
  if token = [] then (some str, { world with nxtToken := none })
  else
    let next := world.tokenEnd str token
    let ended := { world with nxtToken := some next, ch := world.get next }
    (some str, ended.put next 0)

/-- The next token: of the string, or behind the last one. -/
def strTokenize (str : Option Cursor) (token : List UInt8) :
    Option Cursor × Tokenizer :=
  match str with
  | some str => world.endToken str token
  | none =>
    match world.nxtToken with
    | none => (none, world)
    | some next =>
      let world := world.put next world.ch
      if world.ch = 0 then (none, { world with nxtToken := none })
      else world.endToken ⟨next.string, next.offset + 1⟩ token

/-- Go to the end of the string at once. -/
def strTokStop : Tokenizer := (world.strTokenize none []).2

/-- Save the state. -/
def strTokSave : SavedTokens where
  strNextSavedTokens := world.nxtToken
  strChSavedTokens := world.ch

/-- Restore a saved state. -/
def strTokRestore (saved : SavedTokens) : Tokenizer := { world with
    nxtToken := saved.strNextSavedTokens
    ch := saved.strChSavedTokens }

@[simp] theorem strTokStop_nxtToken : world.strTokStop.nxtToken = none := by
  unfold strTokStop strTokenize
  cases next : world.nxtToken with
  | none => simp [next]
  | some next =>
    simp only
    split
    · rfl
    · simp [endToken]

@[simp] theorem withText_strings_self (string : Nat) (text : List UInt8) :
    (world.withText string text).strings string = text :=
  if_pos rfl

theorem withText_strings_of_ne {string other : Nat} (text : List UInt8)
    (different : other ≠ string) :
    (world.withText string text).strings other = world.strings other :=
  if_neg different

@[ext]
theorem ext {world world' : Tokenizer}
    (strings : ∀ string, world.strings string = world'.strings string)
    (nxtToken : world.nxtToken = world'.nxtToken) (ch : world.ch = world'.ch) :
    world = world' := by
  cases world
  cases world'
  simp only [mk.injEq]
  exact ⟨funext strings, nxtToken, ch⟩

/-- The tokenizer when it has ended a token before the rest of a string. -/
def pausedAt (string : Nat) (before rest : List UInt8) : Tokenizer where
  strings := (world.withText string (before ++ rest.set 0 0)).strings
  nxtToken := some ⟨string, before.length⟩
  ch := rest.getD 0 0

/-- The tokenizer when it has come to the end of a string. -/
def finished (string : Nat) (text : List UInt8) : Tokenizer where
  strings := (world.withText string text).strings
  nxtToken := none
  ch := 0

variable {world} {string : Nat} {before token rest separators : List UInt8}

theorem endToken_eq (text : world.strings string = before ++ (token ++ rest))
    (some_separator : separators ≠ [])
    (inside : ∀ c ∈ token, c ≠ 0 ∧ c ∉ separators)
    (stops : ∀ c ∈ rest.head?, c = 0 ∨ c ∈ separators) :
    world.endToken ⟨string, before.length⟩ separators = (some ⟨string, before.length⟩,
        world.pausedAt string (before ++ token) rest) := by
  have taken : ((world.strings string).drop before.length).takeWhile
      (fun c => c ≠ 0 && !separators.contains c) = token := by
    rw [text, List.drop_left, List.takeWhile_append_of_pos]
    · cases rest with
      | nil => simp
      | cons c rest =>
        have stop := stops c rfl
        have no : ¬(c ≠ 0 && !separators.contains c) = true := by
          simpa [or_iff_not_imp_left] using stop
        rw [List.takeWhile_cons, if_neg no, List.append_nil]
    · intro c mem
      simpa using inside c mem
  have next : world.tokenEnd ⟨string, before.length⟩ separators =
      ⟨string, (before ++ token).length⟩ := by
    rw [tokenEnd, taken, List.length_append]
  have assoc : world.strings string = (before ++ token) ++ rest := by
    rw [text, List.append_assoc]
  rw [endToken, if_neg some_separator]
  simp only [next, Prod.mk.injEq, true_and]
  apply ext
  · intro other
    simp only [put, pausedAt, withText, assoc]
    rw [List.set_append_right _ _ (Nat.le_refl _), Nat.sub_self]
  · rfl
  · show (world.strings string).getD (before ++ token).length 0 = _
    rw [assoc, List.getD_append_right _ _ _ _ (Nat.le_refl _), Nat.sub_self]
    rfl

theorem put_pausedAt (string : Nat) (before rest : List UInt8) :
    (world.pausedAt string before rest).put ⟨string, before.length⟩ (rest.getD 0 0) =
      { world.withText string (before ++ rest) with
        nxtToken := some ⟨string, before.length⟩
        ch := rest.getD 0 0 } := by
  have back : (rest.set 0 0).set 0 (rest.getD 0 0) = rest := by
    cases rest <;> simp
  apply ext
  · intro other
    simp only [put, pausedAt, withText_strings_self]
    rw [List.set_append_right _ _ (Nat.le_refl _), Nat.sub_self, back]
    by_cases same : other = string
    · simp [withText, same]
    · simp [withText, same]
  · rfl
  · rfl

theorem strTokenize_finished (separators : List UInt8) (ends : rest.getD 0 0 = 0) :
    (world.pausedAt string before rest).strTokenize none separators =
      (none, world.finished string (before ++ rest)) := by
  have back := @put_pausedAt world string before rest
  rw [strTokenize]
  simp only [pausedAt, ends] at back ⊢
  rw [back]
  rfl

theorem strTokenize_next {c : UInt8} (nonzero : c ≠ 0) (separators : List UInt8) :
    (world.pausedAt string before (c :: rest)).strTokenize none separators =
      Tokenizer.endToken { world.withText string (before ++ c :: rest) with
          nxtToken := some ⟨string, before.length⟩
          ch := c }
        ⟨string, (before ++ [c]).length⟩ separators := by
  have back := @put_pausedAt world string before (c :: rest)
  rw [strTokenize]
  simp only [pausedAt, List.getD_cons_zero] at back ⊢
  rw [back]
  simp [nonzero]

theorem textAt_pausedAt (nonzero : ∀ c ∈ token, c ≠ 0) :
    (world.pausedAt string (before ++ token) rest).textAt
      ⟨string, before.length⟩ = token := by
  have zero : (rest.set 0 0).takeWhile (· ≠ (0 : UInt8)) = [] := by
    cases rest <;> simp
  simp only [textAt, pausedAt, withText_strings_self]
  rw [List.append_assoc, List.drop_left, List.takeWhile_append_of_pos, zero, List.append_nil]
  intro c mem
  simpa using nonzero c mem

end Tokenizer

/-!
## Searching a path

Three functions look for a file in the elements of a list that is separated by
semicolons: the module loader in LIBPATH, the server in PATH, and an application
in a list of its own.  Each saves the state of the tokenizer, and goes through
the list with it.
-/

/-- Whether the text of an element leads to a file: the text in the buffer of
the caller, and the code to return with if the search is over. -/
abbrev Look := List UInt8 → Run (List UInt8 × Option UInt32)

/-- `;`. -/
def psep : List UInt8 := [0x3b]

/-- `\`. -/
def backslash : UInt8 := 0x5c

/-- The characters of a token are replaced where they are. -/
def Tokenizer.mapToken (world : Tokenizer) (f : UInt8 → UInt8) (place : Cursor) :
    Tokenizer :=
  world.withText place.string ((world.strings place.string).take place.offset ++
      ((world.textAt place).map f ++ (world.strings place.string).drop
          (place.offset + (world.textAt place).length)))

/-- The loop over the elements of a list: the tokenizer, the buffer, and the
code if an element ends the search.  The characters of an element are replaced
before it is looked at; an empty one is skipped. -/
def searchLoop (f : UInt8 → UInt8) (look : Look) : Nat → Option Cursor × Tokenizer → List UInt8 →
      Option (Run (Tokenizer × List UInt8 × Option UInt32))
  | 0, _, _ => none
  | _ + 1, (none, world), buffer => some (.ok (world, buffer, none))
  | turns + 1, (some p, world), buffer =>
    if world.get p = 0 then
      searchLoop f look turns (world.strTokenize none psep) buffer
    else
      let world := world.mapToken f p
      match look (world.textAt p) with
      | .error fault => some (.error fault)
      | .ok (buffer, some rc) => some (.ok (world.strTokStop, buffer, some rc))
      | .ok (buffer, none) =>
        searchLoop f look turns (world.strTokenize none psep) buffer

/-- Search the elements that the tokenizer finds from a place on, or, with a
null pointer, where it goes on.  Only a search to the end restores the state;
ERROR_FILE_NOT_FOUND is 2. -/
def search (f : UInt8 → UInt8) (look : Look) (list : Option Cursor)
    (buffer : List UInt8) (turns : Nat) (world : Tokenizer) :
    Option (Run (UInt32 × List UInt8 × Tokenizer)) :=
  let st := world.strTokSave
  andThen (searchLoop f look turns (world.strTokenize list psep) buffer) fun
    | (world, buffer, some rc) => some (.ok (rc, buffer, world))
    | (world, buffer, none) => some (.ok (2, buffer, world.strTokRestore st))

/-- The separator of the host, which is `/` under Linux and `\` elsewhere. -/
def hostsep (linux : Bool) : UInt8 := if linux then 0x2f else backslash

/-- The separator of OS/2 is replaced by that of the host. -/
def toHost (linux : Bool) (c : UInt8) : UInt8 :=
  if c = backslash then hostsep linux else c

/-- The path of a module in a directory. -/
def modulePath (linux : Bool) (p name : List UInt8) : List UInt8 :=
  (if p.getLast? = some (hostsep linux) then p else p ++ [hostsep linux]) ++ name

/-- Try to load a module from a directory; its name is also copied to an array
of 251 characters. -/
def lookModule (linux : Bool) (loads : List UInt8 → Bool) (name : List UInt8) : Look := fun p =>
  if name.length < 251 then
    let path := modulePath linux p name
    .ok (path, if loads path then some 0 else none)
  else .error .writeOutside

/-- Search LIBPATH for a module. -/
def findModulePath (linux : Bool) (libpath : Option Nat)
    (loads : List UInt8 → Bool) (name fullPathName : List UInt8) (turns : Nat)
    (world : Tokenizer) : Option (Run (UInt32 × List UInt8 × Tokenizer)) :=
  search (toHost linux) (lookModule linux loads name) (libpath.map (⟨·, 0⟩))
    fullPathName turns world

/-- The path of a file in an element of PATH, where `.` is the root of the boot
drive. -/
def serverPath (bootdrive p name : List UInt8) : List UInt8 :=
  (if p = [0x2e] then bootdrive else p) ++ [backslash] ++ name

/-- Try to load a file from a directory. -/
def lookPath (bootdrive : List UInt8) (loads : List UInt8 → Bool)
    (name : List UInt8) : Look := fun p =>
  let path := serverPath bootdrive p name
  .ok (path, if loads path then some 0 else none)

/-- Search PATH for a file.  The value of PATH is copied to a local array of 4097
characters, which is not initialized otherwise. -/
def findPath (bootdrive : List UInt8) (pathValue : Option (List UInt8))
    (buf : Nat) (loads : List UInt8 → Bool) (name fullPathName : List UInt8)
    (turns : Nat) (world : Tokenizer) :
    Option (Run (UInt32 × List UInt8 × Tokenizer)) :=
  match pathValue with
  | none => some (.error .uninitialised)
  | some value =>
    if value.length < 4097 then
      search id (lookPath bootdrive loads name) (some ⟨buf, 0⟩) fullPathName
        turns (world.withText buf value)
    else some (.error .writeOutside)

/-- Append to a string in a buffer, as much as the buffer has room for. -/
def strlcat (dst src : List UInt8) (siz : Nat) : List UInt8 :=
  if siz ≤ dst.length then dst else dst ++ src.take (siz - dst.length - 1)

/-- The length of a string up to a limit. -/
def strnlen (str : List UInt8) (n : Nat) : Nat := min str.length n

/-- The path of a file in an element of the list, where `.` is the current
directory, as far as the buffer has room. -/
def dosPath (curdir : List UInt8) (cbBuf : Nat) (p name : List UInt8) :
    List UInt8 :=
  let dir := strlcat [] (if p = [0x2e] then curdir else p) cbBuf
  let ended :=
    if p.getD (strnlen p cbBuf - 1) 0 = backslash then dir
    else strlcat dir [backslash] cbBuf
  strlcat ended name cbBuf

/-- Try to open a file in a directory; ERROR_BUFFER_OVERFLOW is 111. -/
def lookDos (curdir : List UInt8) (cbBuf : Nat) (opens : List UInt8 → Bool)
    (name : List UInt8) : Look := fun p =>
  let path := dosPath curdir cbBuf p name
  if strnlen path cbBuf = cbBuf then .ok (path, some 111)
  else .ok (path, if opens path then some 0 else none)

/-- The arguments of `DosSearchPath`: a null pointer is `none`, and the buffer has
a null pointer or a text. -/
structure SearchArgs where
  flag : UInt32
  pszPathOrName : Option (List UInt8)
  pszFilename : Option (List UInt8)
  pBuf : Option (List UInt8)
  cbBuf : UInt32

/-- The list of a search: the value of a variable of the environment or the
string itself, with the current directory in front of it or not. -/
def searchList (flag : UInt32) (scanEnv : List UInt8 → Option (List UInt8))
    (pathOrName : List UInt8) : Option (List UInt8) :=
  let pathtmp := if flag &&& 2 ≠ 0 then scanEnv pathOrName else some pathOrName
  pathtmp.map fun pathtmp =>
    (if flag &&& 1 ≠ 0 then [0x2e, 0x3b] else []) ++ pathtmp

/-- Search a list for a file that can be opened.  The list is copied to new
memory.  ERROR_INVALID_PARAMETER is 87 and ERROR_INVALID_FUNCTION is 1; a
variable that is not found leaves the pointer to the list uninitialized. -/
def dosSearchPath (args : SearchArgs)
    (scanEnv : List UInt8 → Option (List UInt8)) (curdir : List UInt8)
    (path : Nat) (opens : List UInt8 → Bool) (turns : Nat)
    (world : Tokenizer) : Option (Run (UInt32 × List UInt8 × Tokenizer)) :=
  match args.pszPathOrName, args.pszFilename, args.pBuf with
  | some pathOrName, some filename, some buf =>
    if pathOrName = [] ∨ filename = [] ∨ args.cbBuf = 0 then
      some (.ok (87, buf, world))
    else if args.flag &&& ~~~(7 : UInt32) ≠ 0 then
      some (.ok (1, buf, world))
    else
      match searchList args.flag scanEnv pathOrName with
      | none => some (.error .uninitialised)
      | some list =>
        andThen (search id (lookDos curdir args.cbBuf.toNat opens filename)
            (some ⟨path, 0⟩) buf turns (world.withText path list)) fun
          | (rc, buf, world) =>
            some (.ok (rc, if rc = 2 then [] else buf, world))
  | _, _, pBuf => some (.ok (87, pBuf.getD [], world))

end OsFree.Compat
