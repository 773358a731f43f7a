import OsFree.Compat.SearchLoop

/-!
# What a search leaves of the tokenizer

A search that goes through its list to the end gives the tokenizer back as it
was, and the list but for the separators that it has replaced.  One that ends
at an element stops the tokenizer instead, so that nobody can go on.
-/

namespace OsFree.Compat

section

open Machine

/-- The search goes on behind every element that is not empty. -/
def Passes (f : UInt8 → UInt8) (look : Look) (text : List UInt8) : Prop :=
  ∀ p ∈ text.splitOn 0x3b, p ≠ [] → ∃ path, look (p.map f) = .ok (path, none)

/-- What the loop comes to that starts with a tokenizer: it goes to the end and
leaves the text with its characters replaced, or it does not come back or stops
the tokenizer. -/
def LoopLeaves (f : UInt8 → UInt8) (look : Look) (world : Tokenizer)
    (string : Nat) (before text rest : List UInt8)
    (result : Run (Tokenizer × List UInt8 × Option UInt32)) : Prop :=
  (Passes f look text ∧ ∃ buffer,
    result = .ok (world.finished string (before ++ (text.map f ++ rest)), buffer, none)) ∨
  (¬Passes f look text ∧ ((∃ fault, result = .error fault) ∨
      ∃ stopped buffer rc, result = .ok (stopped, buffer, some rc) ∧ stopped.nxtToken = none))

variable {f : UInt8 → UInt8} {look : Look} {world : Tokenizer} {string : Nat}
  {before p rest : List UInt8}

/-- An element that the search goes on behind. -/
def Passed (f : UInt8 → UInt8) (look : Look) (p : List UInt8) : Prop :=
  p ≠ [] → ∃ path, look (p.map f) = .ok (path, none)

theorem lookAll_of_passed {elements : List (List UInt8)} (buffer : List UInt8)
    (passed : ∀ p ∈ elements, Passed f look p) :
    ∃ buffer', lookAll f look elements buffer =
      .ok (buffer', none, elements.map (List.map f)) := by
  induction elements generalizing buffer with
  | nil => exact ⟨buffer, rfl⟩
  | cons p elements ih =>
    obtain ⟨first, others⟩ := List.forall_mem_cons.mp passed
    rw [lookAll]
    by_cases empty : p = []
    · obtain ⟨buffer', looked⟩ := ih buffer others
      rw [if_pos empty, looked, empty]
      exact ⟨buffer', rfl⟩
    · obtain ⟨path, goes⟩ := first empty
      obtain ⟨buffer', looked⟩ := ih path others
      rw [if_neg empty, goes]
      simp only [looked, behindElement]
      exact ⟨buffer', rfl⟩

theorem lookAll_of_not_passed {elements : List (List UInt8)}
    (buffer : List UInt8) (stops : ¬ ∀ p ∈ elements, Passed f look p) :
    (∃ fault, lookAll f look elements buffer = .error fault) ∨ ∃ buffer' rc elements',
        lookAll f look elements buffer = .ok (buffer', some rc, elements') := by
  have behind {looked : Looked} (q : List UInt8) (ends : (∃ fault, looked = .error fault) ∨
        ∃ buffer' rc elements', looked = .ok (buffer', some rc, elements')) :
      (∃ fault, behindElement q looked = .error fault) ∨ ∃ buffer' rc elements',
          behindElement q looked = .ok (buffer', some rc, elements') := by
    rcases ends with ⟨fault, rfl⟩ | ⟨buffer', rc, elements', rfl⟩
    · exact .inl ⟨fault, rfl⟩
    · exact .inr ⟨buffer', rc, q :: elements', rfl⟩
  induction elements generalizing buffer with
  | nil => exact absurd (fun _ mem => absurd mem List.not_mem_nil) stops
  | cons p elements ih =>
    rw [List.forall_mem_cons, not_and] at stops
    rw [lookAll]
    by_cases empty : p = []
    · rw [if_pos empty]
      exact behind p (ih buffer (stops fun nonempty => absurd empty nonempty))
    · rw [if_neg empty]
      cases looked : look (p.map f) with
      | error fault => exact .inl ⟨fault, rfl⟩
      | ok found =>
        obtain ⟨path, code⟩ := found
        cases code with
        | some rc => exact .inr ⟨path, rc, _, rfl⟩
        | none =>
          exact behind (p.map f) (ih path (stops fun _ => ⟨path, looked⟩))

theorem map_intercalate (sep : f 0x3b = 0x3b) (elements : List (List UInt8)) :
    ([0x3b].intercalate elements).map f =
      [0x3b].intercalate (elements.map (List.map f)) := by
  match elements with
  | [] => rfl
  | [p] =>
    rw [List.map_singleton, List.intercalate_singleton, List.intercalate_singleton]
  | p :: q :: elements =>
    rw [List.intercalate_cons_cons, List.map_append, List.map_append,
      map_intercalate sep (q :: elements), List.map_singleton, sep]
    exact List.intercalate_cons_cons.symm

theorem searchLoop_leaves {text : List UInt8} {turns : Nat}
    (buffer : List UInt8) (enough : text.length + 2 ≤ turns)
    (standing : world.strings string = before ++ (text ++ rest))
    (nonzero : ∀ c ∈ text, c ≠ 0) (ends : rest.getD 0 0 = 0)
    (nonzero' : ∀ c, c ≠ 0 → f c ≠ 0) (sep : f 0x3b = 0x3b) :
    ∃ result, searchLoop f look turns
        (world.endToken ⟨string, before.length⟩ psep) buffer = some result ∧
      LoopLeaves f look world string before text rest result := by
  obtain ⟨result, walk, comes⟩ := searchLoop_comes look buffer enough standing nonzero ends nonzero'
  refine ⟨result, walk, ?_⟩
  have replaced : [0x3b].intercalate ((text.splitOn 0x3b).map (List.map f)) =
      text.map f := by
    rw [← map_intercalate sep, List.intercalate_splitOn]
  by_cases passes : Passes f look text
  · obtain ⟨buffer', looked⟩ := lookAll_of_passed buffer passes
    rw [looked] at comes
    obtain ⟨last, equal, stopped, ch, strings⟩ := comes
    rw [replaced] at strings
    refine .inl ⟨passes, buffer', ?_⟩
    rw [equal]
    have finished : last =
        world.finished string (before ++ (text.map f ++ rest)) :=
      Tokenizer.ext (fun other => congrFun strings other) stopped (ch rfl)
    rw [finished]
  · refine .inr ⟨passes, ?_⟩
    rcases lookAll_of_not_passed buffer passes with
      ⟨fault, looked⟩ | ⟨buffer', rc, elements, looked⟩
    · rw [looked] at comes
      exact .inl ⟨fault, comes⟩
    · rw [looked] at comes
      obtain ⟨last, equal, stopped, _⟩ := comes
      exact .inr ⟨last, buffer', rc, equal, stopped⟩

theorem searchLoop_mono {turns turns' : Nat} (le : turns ≤ turns')
    {start : Option Cursor × Tokenizer} {buffer : List UInt8}
    {result : Run (Tokenizer × List UInt8 × Option UInt32)}
    (walk : searchLoop f look turns start buffer = some result) :
    searchLoop f look turns' start buffer = some result := by
  induction turns generalizing turns' start buffer with
  | zero => cases walk
  | succ turns ih =>
    obtain ⟨turns', rfl⟩ := Nat.exists_eq_succ_of_ne_zero (by omega : turns' ≠ 0)
    have less : turns ≤ turns' := by omega
    obtain ⟨place, world⟩ := start
    cases place with
    | none => exact walk
    | some place =>
      rw [searchLoop] at walk ⊢
      by_cases empty : world.get place = 0
      · rw [if_pos empty] at walk ⊢
        exact ih less walk
      · rw [if_neg empty] at walk ⊢
        simp only at walk ⊢
        split at walk
        · exact walk
        · exact walk
        · exact ih less walk

theorem searchLoop_unique {turns turns' : Nat}
    {start : Option Cursor × Tokenizer} {buffer : List UInt8}
    {result result' : Run (Tokenizer × List UInt8 × Option UInt32)}
    (walk : searchLoop f look turns start buffer = some result)
    (walk' : searchLoop f look turns' start buffer = some result') :
    result = result' := by
  have more := searchLoop_mono (Nat.le_max_left turns turns') walk
  have more' := searchLoop_mono (Nat.le_max_right turns turns') walk'
  rw [more] at more'
  exact Option.some.inj more'

/-- The tokenizer behind a search that has gone to the end of the list. -/
def searched (saved from' : Tokenizer) (string : Nat) (text : List UInt8) :
    Tokenizer :=
  (from'.finished string text).strTokRestore saved.strTokSave

theorem search_iff {list : Option Cursor} {from' : Tokenizer}
    {text : List UInt8} (buffer : List UInt8)
    (begins : world.strTokenize list psep = from'.endToken ⟨string, before.length⟩ psep)
    (standing : from'.strings string = before ++ (text ++ rest))
    (nonzero : ∀ c ∈ text, c ≠ 0) (ends : rest.getD 0 0 = 0)
    (nonzero' : ∀ c, c ≠ 0 → f c ≠ 0) (sep : f 0x3b = 0x3b)
    (going : world.nxtToken ≠ none) (Q : Tokenizer → Prop) :
    (∃ turns rc buffer' world',
      search f look list buffer turns world = some (.ok (rc, buffer', world')) ∧
        world'.nxtToken = world.nxtToken ∧ Q world') ↔
      Passes f look text ∧
        Q (searched world from' string (before ++ (text.map f ++ rest))) := by
  obtain ⟨result, walk, leaves⟩ := @searchLoop_leaves f look from' string before
    rest text (text.length + 2) buffer (Nat.le_refl _) standing nonzero ends
    nonzero' sep
  rw [← begins] at walk
  constructor
  · intro keeps
    obtain ⟨turns, rc, buffer', world', returns, kept, holds⟩ := keeps
    rw [search, andThen_eq_ok_iff] at returns
    obtain ⟨value, walk', rest'⟩ := returns
    cases searchLoop_unique walk walk'
    cases leaves with
    | inl finishes =>
      obtain ⟨passes, buffer'', equal⟩ := finishes
      cases equal
      cases rest'
      exact ⟨passes, holds⟩
    | inr stops =>
      obtain ⟨-, faults | ⟨stopped, buffer'', rc', equal, none⟩⟩ := stops
      · obtain ⟨fault, equal⟩ := faults
        cases equal
      · cases equal
        cases rest'
        exact absurd (kept.symm.trans none) going
  · intro both
    cases leaves with
    | inl finishes =>
      obtain ⟨-, buffer'', equal⟩ := finishes
      rw [equal] at walk
      refine ⟨text.length + 2, 2, buffer'', _, ?_, ?_, both.2⟩
      · rw [search, andThen_eq_ok_iff]
        exact ⟨_, walk, rfl⟩
      · rfl
    | inr stops => exact absurd both.1 stops.1

/-- The characters of a string before its first zero. -/
def cString (text : List UInt8) : List UInt8 := text.takeWhile (· ≠ 0)

theorem cString_append (text : List UInt8) :
    text = cString text ++ text.dropWhile (· ≠ 0) :=
  (List.takeWhile_append_dropWhile ..).symm

theorem cString_ne_zero {text : List UInt8} {c : UInt8} (mem : c ∈ cString text) : c ≠ 0 := by
  simpa using List.mem_takeWhile_imp mem

theorem getD_dropWhile (text : List UInt8) : (text.dropWhile (· ≠ 0)).getD 0 0 = (0 : UInt8) := by
  induction text with
  | nil => rfl
  | cons c text ih =>
    rw [List.dropWhile_cons]
    split
    · exact ih
    · simp_all

end

/-!
## Searching in the middle of a string

A caller that has tokenized a part of a string of its own can go on behind a
search exactly if the search has not found anything.
-/

open Machine

/-- A tokenizer that has ended a token of the caller's string: the separator is
in `ch`, and a zero where it was. -/
structure Midway where
  world : Tokenizer
  caller : Cursor
  going : world.nxtToken = some caller
  ended : world.get caller = 0
  inside : world.ch ≠ 0 → caller.offset < (world.strings caller.string).length

/-- A call of one of the searches, with what its callees answer. -/
inductive SearchCall where
  | findModulePath (linux : Bool) (libpath : Option Nat)
      (loads : List UInt8 → Bool) (name fullPathName : List UInt8)
  | findPath (bootdrive : List UInt8) (pathValue : Option (List UInt8))
      (buf : Nat) (loads : List UInt8 → Bool) (name fullPathName : List UInt8)
  | dosSearchPath (args : SearchArgs)
      (scanEnv : List UInt8 → Option (List UInt8)) (curdir : List UInt8)
      (path : Nat) (opens : List UInt8 → Bool)

namespace SearchCall

/-- What the call comes to. -/
def run (turns : Nat) (world : Tokenizer) :
    SearchCall → Option (Run (UInt32 × List UInt8 × Tokenizer))
  | findModulePath linux libpath loads name fullPathName =>
    Compat.findModulePath linux libpath loads name fullPathName turns world
  | findPath bootdrive pathValue buf loads name fullPathName =>
    Compat.findPath bootdrive pathValue buf loads name fullPathName turns world
  | dosSearchPath args scanEnv curdir path opens =>
    Compat.dosSearchPath args scanEnv curdir path opens turns world

/-- The memory that the call has for itself. -/
def ownMemory : SearchCall → Option Nat
  | findModulePath .. => none
  | findPath _ _ buf .. => some buf
  | dosSearchPath _ _ _ path _ => some path

/-- The call returns with the state of the tokenizer and with the strings as
they were. -/
def KeepsTokens (call : SearchCall) (world : Tokenizer) : Prop :=
  ∃ turns rc buffer world', call.run turns world = some (.ok (rc, buffer, world')) ∧
      world'.nxtToken = world.nxtToken ∧ world'.ch = world.ch ∧
      ∀ string, call.ownMemory ≠ some string → world'.strings string = world.strings string

/-- Nothing is found.  The list of `findModulePath` has no separators to replace
either, or there is no list and the caller is at the end of its string; the value
of PATH fits in its array; a variable of the environment is there. -/
def Quiet (world : Tokenizer) : SearchCall → Prop
  | findModulePath linux libpath loads name _ =>
    match libpath with
    | none => world.ch = 0
    | some list =>
      let text := world.textAt ⟨list, 0⟩
      (linux = true → backslash ∉ text) ∧ ∀ p ∈ text.splitOn 0x3b, p ≠ [] →
          name.length < 251 ∧ loads (modulePath linux p name) = false
  | findPath bootdrive pathValue _ loads name _ =>
    ∃ value, pathValue = some value ∧ value.length < 4097 ∧
      ∀ p ∈ (cString value).splitOn 0x3b, p ≠ [] → loads (serverPath bootdrive p name) = false
  | dosSearchPath args scanEnv curdir _ opens =>
    ∀ pathOrName filename buf, args.pszPathOrName = some pathOrName →
      args.pszFilename = some filename → args.pBuf = some buf →
      pathOrName ≠ [] → filename ≠ [] → args.cbBuf ≠ 0 →
      args.flag &&& ~~~(7 : UInt32) = 0 →
        ∃ list, searchList args.flag scanEnv pathOrName = some list ∧
          ∀ p ∈ (cString list).splitOn 0x3b, p ≠ [] →
            opens (dosPath curdir args.cbBuf.toNat p filename) = false

end SearchCall

variable (outer : Midway)

theorem Midway.ne_none : outer.world.nxtToken ≠ none := by
  rw [outer.going]
  exact Option.some_ne_none _

theorem search_own_iff {look : Look} {block : Nat} {value buffer : List UInt8} :
    (∃ turns rc buffer' world', search id look (some ⟨block, 0⟩) buffer turns
          (outer.world.withText block value) = some (.ok (rc, buffer', world')) ∧
        world'.nxtToken = outer.world.nxtToken ∧ world'.ch = outer.world.ch ∧
        ∀ string, some block ≠ some string → world'.strings string = outer.world.strings string) ↔
      Passes id look (cString value) := by
  have standing : (outer.world.withText block value).strings block =
      [] ++ (cString value ++ value.dropWhile (· ≠ 0)) := by
    simpa using cString_append value
  have iff := @search_iff id look (outer.world.withText block value) block []
    (value.dropWhile (· ≠ 0)) (some ⟨block, 0⟩)
    (outer.world.withText block value) (cString value) buffer rfl standing
    (fun c mem => cString_ne_zero mem) (getD_dropWhile value)
    (fun c nonzero => nonzero) rfl outer.ne_none
    (fun world' => world'.ch = outer.world.ch ∧ ∀ string, some block ≠ some string →
        world'.strings string = outer.world.strings string)
  refine iff.trans ⟨And.left, fun passes => ⟨passes, rfl, ?_⟩⟩
  intro string different
  have other : string ≠ block := by
    intro same
    exact different (congrArg some same.symm)
  simp [searched, Tokenizer.strTokRestore, Tokenizer.finished, Tokenizer.withText, other]

variable {name text curdir : List UInt8} {opens : List UInt8 → Bool} {linux : Bool} {c : UInt8}

theorem passes_lookPath_iff {bootdrive : List UInt8} {loads : List UInt8 → Bool} :
    Passes id (lookPath bootdrive loads name) text ↔ ∀ p ∈ text.splitOn 0x3b, p ≠ [] →
        loads (serverPath bootdrive p name) = false := by
  apply forall₃_congr
  intro p mem nonempty
  cases found : loads (serverPath bootdrive p name) <;> simp [lookPath, found]

theorem keepsTokens_findPath (bootdrive : List UInt8)
    (pathValue : Option (List UInt8)) (buf : Nat) (loads : List UInt8 → Bool)
    (name fullPathName : List UInt8) :
    (SearchCall.findPath bootdrive pathValue buf loads name fullPathName).KeepsTokens outer.world ↔
      SearchCall.Quiet outer.world
        (.findPath bootdrive pathValue buf loads name fullPathName) := by
  cases pathValue with
  | none => simp [SearchCall.KeepsTokens, SearchCall.run, findPath, SearchCall.Quiet]
  | some value =>
    by_cases fits : value.length < 4097
    · have own := @search_own_iff outer (lookPath bootdrive loads name) buf value fullPathName
      rw [passes_lookPath_iff] at own
      simpa [SearchCall.KeepsTokens, SearchCall.run, findPath, fits,
        SearchCall.Quiet, SearchCall.ownMemory] using own
    · simp [SearchCall.KeepsTokens, SearchCall.run, findPath, fits, SearchCall.Quiet]

theorem strlcat_length_lt {dst src : List UInt8} {siz : Nat}
    (room : dst.length < siz) : (strlcat dst src siz).length < siz := by
  rw [strlcat, if_neg (Nat.not_le.mpr room)]
  simp
  omega

theorem dosPath_length_lt {curdir p name : List UInt8} {cbBuf : Nat}
    (room : 0 < cbBuf) : (dosPath curdir cbBuf p name).length < cbBuf := by
  have dir : (strlcat [] (if p = [0x2e] then curdir else p) cbBuf).length <
      cbBuf := strlcat_length_lt room
  apply strlcat_length_lt
  split
  · exact dir
  · exact strlcat_length_lt dir

theorem passes_lookDos_iff {cbBuf : Nat} (room : 0 < cbBuf) :
    Passes id (lookDos curdir cbBuf opens name) text ↔ ∀ p ∈ text.splitOn 0x3b, p ≠ [] →
        opens (dosPath curdir cbBuf p name) = false := by
  apply forall₃_congr
  intro p mem nonempty
  have short := @dosPath_length_lt curdir p name cbBuf room
  have fits : strnlen (dosPath curdir cbBuf p name) cbBuf ≠ cbBuf := by
    unfold strnlen
    omega
  cases found : opens (dosPath curdir cbBuf p name) <;>
    simp [lookDos, found, fits]

theorem keepsTokens_of_refused {call : SearchCall} {world : Tokenizer}
    {rc : UInt32} {buffer : List UInt8}
    (refused : call.run 0 world = some (.ok (rc, buffer, world))) :
    call.KeepsTokens world :=
  ⟨0, rc, buffer, world, refused, rfl, rfl, fun _ _ => rfl⟩

theorem dosSearchPath_run {flag cbBuf : UInt32} {pathOrName filename buf list : List UInt8}
    {scanEnv : List UInt8 → Option (List UInt8)} {path : Nat}
    {turns : Nat} {world : Tokenizer}
    (given : ¬(pathOrName = [] ∨ filename = [] ∨ cbBuf = 0))
    (known : flag &&& ~~~(7 : UInt32) = 0)
    (searches : searchList flag scanEnv pathOrName = some list) :
    dosSearchPath ⟨flag, some pathOrName, some filename, some buf, cbBuf⟩ scanEnv
        curdir path opens turns world =
      andThen (search id (lookDos curdir cbBuf.toNat opens filename)
          (some ⟨path, 0⟩) buf turns (world.withText path list)) fun
        | (rc, buf, world) =>
          some (.ok (rc, if rc = 2 then [] else buf, world)) := by
  rw [dosSearchPath]
  simp only
  rw [if_neg given, if_neg (not_not.mpr known), searches]

theorem keepsTokens_dosSearchPath_list {flag cbBuf : UInt32}
    {pathOrName filename buf list : List UInt8}
    {scanEnv : List UInt8 → Option (List UInt8)} {path : Nat}
    (given : ¬(pathOrName = [] ∨ filename = [] ∨ cbBuf = 0))
    (known : flag &&& ~~~(7 : UInt32) = 0)
    (searches : searchList flag scanEnv pathOrName = some list) :
    (SearchCall.dosSearchPath ⟨flag, some pathOrName, some filename, some buf, cbBuf⟩ scanEnv curdir
        path opens).KeepsTokens outer.world ↔
      ∀ p ∈ (cString list).splitOn 0x3b, p ≠ [] →
        opens (dosPath curdir cbBuf.toNat p filename) = false := by
  have room : 0 < cbBuf.toNat := by
    have nonzero : cbBuf ≠ 0 := fun zero => given (Or.inr (Or.inr zero))
    have : cbBuf.toNat ≠ 0 := fun zero => nonzero (UInt32.toNat_inj.mp zero)
    omega
  rw [← passes_lookDos_iff room, ← @search_own_iff outer _ path list buf]
  constructor
  · intro keeps
    obtain ⟨turns, rc, buffer, world', returns, kept⟩ := keeps
    rw [SearchCall.run, dosSearchPath_run given known searches, andThen_eq_ok_iff] at returns
    obtain ⟨⟨rc', buffer', world''⟩, walk, rest⟩ := returns
    cases rest
    exact ⟨turns, rc, buffer', world', walk, kept⟩
  · intro keeps
    obtain ⟨turns, rc, buffer, world', walk, kept⟩ := keeps
    refine ⟨turns, rc, if rc = 2 then [] else buffer, world', ?_, kept⟩
    rw [SearchCall.run, dosSearchPath_run given known searches, andThen_eq_ok_iff]
    exact ⟨_, walk, rfl⟩

theorem keepsTokens_dosSearchPath (args : SearchArgs)
    (scanEnv : List UInt8 → Option (List UInt8)) (curdir : List UInt8)
    (path : Nat) (opens : List UInt8 → Bool) :
    (SearchCall.dosSearchPath args scanEnv curdir path opens).KeepsTokens outer.world ↔
      SearchCall.Quiet outer.world
        (.dosSearchPath args scanEnv curdir path opens) := by
  obtain ⟨flag, pathOrName, filename, pBuf, cbBuf⟩ := args
  cases pathOrName with
  | none =>
    refine iff_of_true (keepsTokens_of_refused rfl) ?_
    simp [SearchCall.Quiet]
  | some pathOrName =>
    cases filename with
    | none =>
      refine iff_of_true (keepsTokens_of_refused rfl) ?_
      simp [SearchCall.Quiet]
    | some filename =>
      cases pBuf with
      | none =>
        refine iff_of_true (keepsTokens_of_refused rfl) ?_
        simp [SearchCall.Quiet]
      | some buf =>
        by_cases given : pathOrName = [] ∨ filename = [] ∨ cbBuf = 0
        · refine iff_of_true (keepsTokens_of_refused (if_pos given)) ?_
          intro _ _ _ isPath isName _ path name size
          cases isPath
          cases isName
          exact absurd given (by simp [path, name, size])
        · by_cases known : flag &&& ~~~(7 : UInt32) = 0
          · have three : pathOrName ≠ [] ∧ filename ≠ [] ∧ cbBuf ≠ 0 := by
              simpa only [not_or] using given
            cases searches : searchList flag scanEnv pathOrName with
            | none =>
              simp [SearchCall.KeepsTokens, SearchCall.run,
                SearchCall.Quiet, dosSearchPath, known, three, searches]
            | some list =>
              rw [keepsTokens_dosSearchPath_list outer given known searches]
              simp [SearchCall.Quiet, known, three, searches]
          · refine iff_of_true (keepsTokens_of_refused ((if_neg given).trans (if_pos known))) ?_
            intro _ _ _ _ _ _ _ _ _ clear
            exact absurd clear known

theorem toHost_eq_self_iff :
    toHost linux c = c ↔ (linux = true → c ≠ backslash) := by
  by_cases equal : c = backslash
  · subst equal
    cases linux <;> simp [toHost, hostsep, backslash]
  · simp [toHost, equal]

theorem map_toHost_iff :
    text.map (toHost linux) = text ↔ (linux = true → backslash ∉ text) := by
  have pointwise : text.map (toHost linux) = text ↔
      ∀ c ∈ text, toHost linux c = c := by
    conv_lhs => rw [← List.map_id text, List.map_map]
    exact List.map_inj_left
  rw [pointwise]
  constructor
  · intro same isLinux mem
    exact toHost_eq_self_iff.mp (same backslash mem) isLinux rfl
  · intro without c mem
    apply toHost_eq_self_iff.mpr
    intro isLinux
    exact ne_of_mem_of_not_mem mem (without isLinux)

theorem toHost_ne_zero (nonzero : c ≠ 0) :
    toHost linux c ≠ 0 := by
  unfold toHost
  split
  · cases linux <;> simp [hostsep, backslash]
  · exact nonzero

theorem mem_of_mem_splitOn {p : List UInt8}
    (mem : p ∈ text.splitOn 0x3b) (inside : c ∈ p) : c ∈ text := by
  rw [← @List.intercalate_splitOn _ text _ _ 0x3b]
  generalize text.splitOn 0x3b = elements at mem
  induction elements with
  | nil => cases mem
  | cons first others ih =>
    by_cases last : others = []
    · subst last
      rw [List.intercalate_singleton]
      rwa [List.mem_singleton.mp mem] at inside
    · rw [List.intercalate_cons_of_ne_nil last]
      cases List.mem_cons.mp mem with
      | inl equal => simp [← equal, inside]
      | inr later => simp [ih later]

theorem passes_lookModule_iff
    {loads : List UInt8 → Bool} (nothing : text.map (toHost linux) = text) :
    Passes (toHost linux) (lookModule linux loads name) text ↔ ∀ p ∈ text.splitOn 0x3b, p ≠ [] →
        name.length < 251 ∧ loads (modulePath linux p name) = false := by
  apply forall₃_congr
  intro p mem nonempty
  have same : p.map (toHost linux) = p := by
    rw [map_toHost_iff] at nothing ⊢
    intro isLinux inside
    exact nothing isLinux (mem_of_mem_splitOn mem inside)
  rw [same]
  by_cases fits : name.length < 251
  · cases found : loads (modulePath linux p name) <;>
      simp [lookModule, found, fits]
  · simp [lookModule, fits]

theorem searched_strings_iff {saved from' : Tokenizer} {string : Nat} :
    (∀ other, (none : Option Nat) ≠ some other →
        (searched saved from' string text).strings other = from'.strings other) ↔
      text = from'.strings string := by
  constructor
  · intro same
    have there := same string (Option.some_ne_none _).symm
    simpa [searched, Tokenizer.strTokRestore, Tokenizer.finished] using there
  · intro same other _
    by_cases equal : other = string
    · simp [searched, Tokenizer.strTokRestore, Tokenizer.finished, same, equal]
    · simp [searched, Tokenizer.strTokRestore, Tokenizer.finished, Tokenizer.withText, equal]

theorem keepsTokens_findModulePath_list (linux : Bool) (list : Nat)
    (loads : List UInt8 → Bool) (name fullPathName : List UInt8) :
    (SearchCall.findModulePath linux (some list) loads name fullPathName).KeepsTokens outer.world ↔
      SearchCall.Quiet outer.world
        (.findModulePath linux (some list) loads name fullPathName) := by
  have standing : outer.world.strings list = [] ++ (outer.world.textAt ⟨list, 0⟩ ++
        (outer.world.strings list).dropWhile (· ≠ 0)) :=
    cString_append (outer.world.strings list)
  have iff := @search_iff (toHost linux) (lookModule linux loads name)
    outer.world list [] ((outer.world.strings list).dropWhile (· ≠ 0))
    (some ⟨list, 0⟩) outer.world (outer.world.textAt ⟨list, 0⟩) fullPathName rfl
    standing (fun c mem => cString_ne_zero mem) (getD_dropWhile _)
    (fun c nonzero => toHost_ne_zero nonzero)
    (by cases linux <;> simp [toHost, backslash]) outer.ne_none
    (fun world' => world'.ch = outer.world.ch ∧ ∀ string, none ≠ some string →
        world'.strings string = outer.world.strings string)
  refine iff.trans ?_
  have replaced : [] ++ ((outer.world.textAt ⟨list, 0⟩).map (toHost linux) ++
      (outer.world.strings list).dropWhile (· ≠ 0)) = outer.world.strings list ↔
      (outer.world.textAt ⟨list, 0⟩).map (toHost linux) =
        outer.world.textAt ⟨list, 0⟩ := by
    conv_lhs => rhs; rw [standing]
    simp only [List.nil_append, List.append_cancel_right_eq]
  rw [searched_strings_iff, replaced, SearchCall.Quiet]
  constructor
  · intro kept
    obtain ⟨passes, -, same⟩ := kept
    exact ⟨map_toHost_iff.mp same, (passes_lookModule_iff same).mp passes⟩
  · intro quiet
    have same := map_toHost_iff.mpr quiet.1
    exact ⟨(passes_lookModule_iff same).mpr quiet.2, rfl, same⟩

theorem Midway.strTokenize_none (last : outer.world.ch = 0) : outer.world.strTokenize none psep =
      (none, { outer.world.put outer.caller 0 with nxtToken := none }) := by
  have zero : (outer.world.put outer.caller 0).ch = 0 := last
  simp only [Tokenizer.strTokenize, outer.going, last, if_pos zero]

theorem Midway.strTokenize_some (more : outer.world.ch ≠ 0) : outer.world.strTokenize none psep =
      (outer.world.put outer.caller outer.world.ch).endToken
        ⟨outer.caller.string, outer.caller.offset + 1⟩ psep := by
  have nonzero : (outer.world.put outer.caller outer.world.ch).ch ≠ 0 := more
  simp only [Tokenizer.strTokenize, outer.going, if_neg nonzero]

theorem Midway.put_zero : outer.world.put outer.caller 0 = outer.world := by
  have ended := outer.ended
  apply Tokenizer.ext
  · intro other
    by_cases equal : other = outer.caller.string
    · subst equal
      rw [Tokenizer.put, Tokenizer.withText_strings_self]
      apply List.ext_getElem
      · rw [List.length_set]
      · intro position _ within
        rw [List.getElem_set]
        split
        · rename_i here
          subst here
          rw [Tokenizer.get, List.getD_eq_getElem _ _ within] at ended
          exact ended.symm
        · rfl
    · exact Tokenizer.withText_strings_of_ne _ _ equal
  · rfl
  · rfl

theorem keepsTokens_findModulePath_none (linux : Bool)
    (loads : List UInt8 → Bool) (name fullPathName : List UInt8) :
    (SearchCall.findModulePath linux none loads name
        fullPathName).KeepsTokens outer.world ↔ outer.world.ch = 0 := by
  constructor
  · intro keeps
    by_contra more
    obtain ⟨turns, rc, buffer, world', returns, kept, -, same⟩ := keeps
    let text := outer.world.strings outer.caller.string
    let back := text.set outer.caller.offset outer.world.ch
    let behind := back.drop (outer.caller.offset + 1)
    have within : outer.caller.offset < text.length := outer.inside more
    have size : (back.take (outer.caller.offset + 1)).length =
        outer.caller.offset + 1 := by
      rw [List.length_take, List.length_set]
      omega
    have standing : (outer.world.put outer.caller outer.world.ch).strings
        outer.caller.string = back.take (outer.caller.offset + 1) ++
          (cString behind ++ behind.dropWhile (· ≠ 0)) := by
      rw [← cString_append, List.take_append_drop]
      exact Tokenizer.withText_strings_self ..
    have begins := outer.strTokenize_some more
    rw [← size] at begins
    have left := (search_iff fullPathName begins standing
      (fun c mem => cString_ne_zero mem) (getD_dropWhile _)
      (fun c nonzero => toHost_ne_zero nonzero)
      (by cases linux <;> simp [toHost, backslash]) outer.ne_none
      (fun world' => world'.strings outer.caller.string = text)).mp
      ⟨turns, rc, buffer, world', returns, kept, same _ (Option.some_ne_none _).symm⟩
    have there := congrArg (·.getD outer.caller.offset 0) left.2
    have zero : text.getD outer.caller.offset 0 = 0 := outer.ended
    simp only [searched, Tokenizer.strTokRestore, Tokenizer.finished,
      Tokenizer.withText_strings_self, zero] at there
    rw [List.getD_append _ _ _ _ (by omega), List.getD_eq_getElem _ _ (by omega),
      List.getElem_take, List.getElem_set_self] at there
    exact more there
  · intro last
    refine ⟨1, 2, fullPathName, outer.world, ?_, rfl, rfl, fun _ _ => rfl⟩
    rw [SearchCall.run, findModulePath, search, andThen_eq_ok_iff]
    refine ⟨({ outer.world with nxtToken := none }, fullPathName, none), ?_, rfl⟩
    rw [Option.map_none, outer.strTokenize_none last, outer.put_zero, searchLoop]

/-- A caller between the `a` and the `b` of `a;b`, in memory with an empty
buffer. -/
def betweenTokens : Midway where
  world := ⟨fun string => if string = 0 then [0x61, 0, 0x62] else [], some ⟨0, 1⟩, 0x3b⟩
  caller := ⟨0, 1⟩
  going := rfl
  ended := by decide
  inside := by decide

end OsFree.Compat
