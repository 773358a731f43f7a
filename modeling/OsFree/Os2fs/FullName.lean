import OsFree.Machine.CString
import OsFree.Os2srv.CurrentDir

/-!
# The full name of a path

The name is copied to the buffer of the caller, and then the buffer is changed by the
components of the name as if it were a directory.
-/

namespace OsFree.Os2fs

open Compat (backslash)
open Machine
open Os2srv (Components cutLast dot dotdot render)

def CCHMAXPATH : ℕ := 260

/-- Append a string to one in a buffer of some size. -/
def strcatInfo (size : ℕ) (dir src : List UInt8) : Run (List UInt8) :=
  if dir.length + src.length < size then .ok (dir ++ src) else .error .writeOutside

/-- Change the directory in the buffer by one component. -/
def cdir (size : ℕ) (dir component : List UInt8) : Run (List UInt8) :=
  if component = dotdot then
    if dir = [] then .ok dir else .ok (cutLast dir)
  else if component = dot then .ok dir
  else if component.head? ≠ some backslash then do
    let dir ← if dir = [] then pure dir else strcatInfo size dir [backslash]
    strcatInfo size dir component
  else strcatInfo size [] component

/-- The loop over the components of a name, which are copied to an array. -/
def componentLoop (size : ℕ) : ℕ → List UInt8 → List UInt8 → Run (List UInt8)
  | 0, _, _ => .error .readOutside
  | fuel + 1, q, dir =>
    let str := q.takeWhile (· ≠ backslash)
    if str.length < CCHMAXPATH then do
      let dir ← cdir size dir str
      match q.drop str.length with
      | [] => pure dir
      | _ :: p => componentLoop size fuel p dir
    else .error .writeOutside

/-- A name is copied to a buffer of some size, and its components are gone through; there is
no answer with ERROR_BUFFER_OVERFLOW. -/
def copyName (size : ℕ) (fname : List UInt8) : Run (Option (List UInt8)) :=
  if size ≤ fname.length then .ok none
  else if fname = [backslash] then .ok (some [])
  else some <$> componentLoop size (fname.length + 1) fname fname

/-- `FIL_QUERYFULLNAME` of `FSQueryPathInfo`, with what the array for the path holds. -/
def queryFullName (fn : List UInt8) (size : ℕ) (pszPathName : List UInt8) :
    Run (Option (List UInt8)) := do
  let fn ← writeBytes fn 0 (pszPathName.map Os2srv.toBackslash ++ [0])
  let c ← readByte fn 1
  if c = 0x3a then copyName size (pszPathName.map Os2srv.toBackslash)
  -- `fname[len] = 0` with the size of `fname`
  else .error .writeOutside

/-- A component of a directory. -/
structure IsComponent (component : List UInt8) : Prop where
  nonempty : component ≠ []
  ne_dot : component ≠ dot
  ne_dotdot : component ≠ dotdot
  no_backslash : backslash ∉ component
  no_colon : 0x3a ∉ component

/-- The current drive, and the current directory of each drive. -/
structure Current where
  drive : UInt8
  dir : UInt8 → Components
  letter : drive ≠ backslash
  proper : ∀ drive, ∀ component ∈ dir drive, IsComponent component

namespace Current

variable (current : Current)

/-- The drive of a name, and what is behind it. -/
def splitDrive : List UInt8 → UInt8 × List UInt8
  | drive :: 0x3a :: rest =>
    if drive = backslash then (current.drive, drive :: 0x3a :: rest) else (drive, rest)
  | name => (current.drive, name)

/-- The components that a name without its drive stands for. -/
def components (drive : UInt8) (rest : List UInt8) : Components :=
  (rest.splitOn backslash).foldl Os2srv.follow
    (if rest.head? = some backslash then [] else current.dir drive)

/-- The canonical name: drive, root and components. -/
def canonical (path : List UInt8) : List UInt8 :=
  let (drive, rest) := current.splitDrive (path.map Os2srv.toBackslash)
  drive :: 0x3a :: backslash :: render (current.components drive rest)

/-- The answer is the canonical name, and the same for itself, if the buffer is not too
small for an answer; nothing is done outside the arrays. -/
def Queries (size : ℕ) (path : List UInt8) : Prop :=
  ∀ fn : List UInt8, fn.length = CCHMAXPATH → ∃ answer,
    queryFullName fn size path = .ok answer ∧ ∀ name, answer = some name →
      name = current.canonical path ∧ name.length < size ∧
        ∀ fn' : List UInt8, fn'.length = CCHMAXPATH → queryFullName fn' size name = .ok (some name)

end Current

/-- The components of the buffer after one more of them. -/
def push (dir : Components) (component : List UInt8) : Components :=
  if component = dotdot then dir.dropLast
  else if component = dot then dir
  else dir ++ [component]

/-- Without a backslash in the components. -/
def Whole (dir : Components) : Prop := ∀ component ∈ dir, backslash ∉ component

section

variable {size fuel : ℕ} {dir base : Components} {component q text : List UInt8}

theorem Whole.push (whole : Whole dir) (nowhere : backslash ∉ component) :
    Whole (push dir component) := by
  unfold Os2fs.push
  split_ifs
  · exact fun other member => whole other (List.dropLast_subset dir member)
  · exact whole
  · intro other member
    rcases List.mem_append.mp member with member | member
    · exact whole other member
    · rwa [List.mem_singleton.mp member]

theorem strcatInfo_eq {dir src : List UInt8} (run : strcatInfo size dir src = .ok text) :
    text = dir ++ src := by
  unfold strcatInfo at run
  split at run <;> cases run
  rfl

theorem cdir_eq (whole : Whole dir) (filled : render dir ≠ []) (nowhere : backslash ∉ component)
    (run : cdir size (render dir) component = .ok text) :
    text = render (push dir component) := by
  obtain ⟨front, last, rfl⟩ := (List.eq_nil_or_concat' dir).resolve_left fun none =>
    filled (none ▸ rfl)
  unfold cdir at run
  unfold push
  split_ifs at run ⊢ with up stay
  · cases run
    rw [Os2srv.cutLast_render (whole last (by simp)), List.dropLast_concat]
  · cases run
    rfl
  · obtain ⟨dir, appended, run⟩ := bind_eq_ok_iff.mp run
    have long : front ++ [last] ≠ [] := List.append_ne_nil_of_right_ne_nil _ (by simp)
    rw [strcatInfo_eq run, strcatInfo_eq appended, Os2srv.render_concat long, List.append_assoc]
    rfl
  · rename_i starts
    exact absurd (List.mem_of_mem_head? (not_not.mp starts)) nowhere

theorem componentLoop_cases (whole : Whole dir) (filled : render dir ≠ [])
    (run : componentLoop size (fuel + 1) q (render dir) = .ok text) :
    ∃ component, backslash ∉ component ∧
      (q.splitOn backslash = [component] ∧ text = render (push dir component) ∨
        ∃ rest, q.splitOn backslash = component :: rest.splitOn backslash ∧
          componentLoop size fuel rest (render (push dir component)) = .ok text) := by
  rw [componentLoop] at run
  split at run
  · obtain ⟨next, changed, run⟩ := bind_eq_ok_iff.mp run
    rcases Os2srv.path_cases q with ⟨nowhere, all⟩ | ⟨component, rest, nowhere, rfl, first⟩
    · rw [all] at changed run
      rw [List.drop_length] at run
      cases run
      exact ⟨q, nowhere, .inl ⟨List.splitOn_eq_singleton nowhere,
        cdir_eq whole filled nowhere changed⟩⟩
    · rw [first] at changed run
      rw [List.drop_left] at run
      refine ⟨component, nowhere, .inr ⟨rest,
        List.splitOn_append_cons_self_of_not_mem nowhere rest, ?_⟩⟩
      rwa [← cdir_eq whole filled nowhere changed]
  · cases run

theorem prefix_push (stands : base <+: dir) :
    base.take (base.length - [component].count dotdot) <+: push dir component := by
  unfold push
  split_ifs with up stay
  · obtain ⟨behind, rfl⟩ := stands
    rw [up, List.count_singleton_self, ← List.dropLast_eq_take]
    by_cases all : behind = []
    · simp only [all, List.append_nil, List.prefix_rfl]
    · rw [List.dropLast_append_of_ne_nil all]
      exact (List.dropLast_prefix base).trans (List.prefix_append ..)
  · exact (List.take_prefix ..).trans stands
  · exact ((List.take_prefix ..).trans stands).trans (List.prefix_append ..)

theorem render_ne_nil (two : 2 ≤ dir.length) : render dir ≠ [] := by
  obtain ⟨front, last, rfl⟩ := (List.eq_nil_or_concat' dir).resolve_left
    (List.ne_nil_of_length_pos (by omega))
  rw [Os2srv.render_concat (fun none => by simp [none] at two)]
  simp

theorem componentLoop_eq (whole : Whole dir) (stands : base <+: dir)
    (room : (q.splitOn backslash).count dotdot + 2 ≤ base.length)
    (run : componentLoop size fuel q (render dir) = .ok text) :
    ∃ dir', text = render dir' ∧ Whole dir' ∧
      base.take (base.length - (q.splitOn backslash).count dotdot) <+: dir' := by
  induction fuel generalizing q dir base with
  | zero => cases run
  | succ fuel ih =>
    have two : 2 ≤ dir.length := (Nat.le_of_add_left_le room).trans stands.length_le
    obtain ⟨component, nowhere, ⟨last, rfl⟩ | ⟨rest, split, run⟩⟩ :=
      componentLoop_cases whole (render_ne_nil two) run
    · rw [last]
      exact ⟨_, rfl, whole.push nowhere, prefix_push stands⟩
    · rw [split] at room ⊢
      have counts : (component :: rest.splitOn backslash).count dotdot =
          [component].count dotdot + (rest.splitOn backslash).count dotdot := by
        rw [← List.count_append, List.singleton_append]
      obtain ⟨dir', equal, whole', stands'⟩ := ih (whole.push nowhere)
        (prefix_push stands) (by rw [List.length_take]; omega) run
      refine ⟨dir', equal, whole', ?_⟩
      rw [List.take_take, List.length_take] at stands'
      convert stands' using 2
      omega

/-- The name in the buffer starts with the name that has been copied, and its first component
again, unless there are `..`. -/
theorem prefix_of_componentLoop {first : List UInt8} {others : Components}
    (split : q.splitOn backslash = first :: others) (filled : q ≠ [])
    (not_up : first ≠ dotdot) (not_stay : first ≠ dot)
    (run : componentLoop size (fuel + 1) q q = .ok text) :
    ∃ dir', text = render dir' ∧ Whole dir' ∧ (first :: others ++ [first]).take
        (others.length + 2 - others.count dotdot) <+: dir' := by
  have q_eq : render (first :: others) = q := by
    rw [← split, render, List.intercalate_splitOn]
  have whole : Whole (first :: others) := fun component member =>
    Os2srv.not_mem_of_mem_splitOn (split ▸ member)
  have pushed : push (first :: others) first = first :: others ++ [first] := by
    rw [push, if_neg not_up, if_neg not_stay]
  rw [← q_eq] at filled
  conv at run => enter [1, 4]; rw [← q_eq]
  obtain ⟨component, nowhere, ⟨last, rfl⟩ | ⟨rest, split', run⟩⟩ :=
    componentLoop_cases whole filled run
  · rw [split] at last
    cases last
    refine ⟨_, rfl, whole.push nowhere, ?_⟩
    rw [pushed]
    exact List.take_prefix ..
  · rw [split] at split'
    cases split'
    have few := List.count_le_length (a := dotdot) (l := rest.splitOn backslash)
    rw [pushed] at run
    have reached := componentLoop_eq (pushed ▸ whole.push nowhere) List.prefix_rfl
      (by simp only [List.length_append, List.length_cons, List.length_nil]; omega) run
    simpa using reached

end

/-- A root without components is followed by the empty string. -/
def rooted (dir : Components) : Components := if dir = [] then [[]] else dir

theorem render_rooted {dir : Components} (first : List UInt8) :
    first ++ backslash :: render dir = render (first :: rooted dir) := by
  unfold rooted
  split_ifs with none
  · simp [none, render]
  · obtain ⟨component, others, rfl⟩ := List.exists_cons_of_ne_nil none
    simp [render, List.intercalate_cons_cons]

theorem foldl_follow_proper {components dir : Components} (whole : Whole components)
    (proper : ∀ component ∈ dir, component ≠ dotdot ∧ backslash ∉ component) :
    ∀ component ∈ components.foldl Os2srv.follow dir, component ≠ dotdot ∧
      backslash ∉ component := by
  induction components generalizing dir with
  | nil => exact proper
  | cons component components ih =>
    refine ih (fun other member => whole other (List.mem_cons_of_mem _ member)) ?_
    intro other member
    unfold Os2srv.follow at member
    split_ifs at member with up stay
    · exact proper other (List.dropLast_subset dir member)
    · exact proper other member
    · rcases List.mem_append.mp member with member | member
      · exact proper other member
      · rw [List.mem_singleton.mp member]
        exact ⟨up, whole component List.mem_cons_self⟩

theorem length_foldl_follow (components dir : Components) :
    (components.foldl Os2srv.follow dir).length ≤ dir.length + components.length := by
  induction components generalizing dir with
  | nil => exact Nat.le_refl _
  | cons component components ih =>
    have one : (Os2srv.follow dir component).length ≤ dir.length + 1 := by
      unfold Os2srv.follow
      split_ifs <;> simp
      omega
    have others := ih (Os2srv.follow dir component)
    rw [List.foldl_cons, List.length_cons]
    omega

theorem render_injective {dir dir' : Components} (whole : Whole dir) (whole' : Whole dir')
    (some : dir ≠ []) (some' : dir' ≠ []) (same : render dir = render dir') :
    dir = dir' := by
  rw [← List.splitOn_intercalate backslash whole some,
    ← List.splitOn_intercalate backslash whole' some']
  exact congrArg (List.splitOn backslash) same

theorem dotdot_mem_take {dir : Components} {n : ℕ} (inside : n ≤ dir.length)
    (few : dir.length < n + dir.count dotdot) : dotdot ∈ dir.take n := by
  have whole := congrArg (List.count dotdot) (List.take_append_drop n dir)
  have behind := List.count_le_length (a := dotdot) (l := dir.drop n)
  rw [List.count_append] at whole
  rw [List.length_drop] at behind
  rw [← List.count_pos_iff]
  omega

namespace Current

variable {current : Current} {size : ℕ} {path name : List UInt8}

theorem components_proper (drive : UInt8) (rest : List UInt8) :
    ∀ component ∈ current.components drive rest,
      component ≠ dotdot ∧ backslash ∉ component := by
  refine foldl_follow_proper (fun _ => Os2srv.not_mem_of_mem_splitOn) ?_
  intro component member
  split at member
  · cases member
  · have proper := current.proper drive component member
    exact ⟨proper.ne_dotdot, proper.no_backslash⟩

theorem splitDrive_letter (name : List UInt8) :
    (current.splitDrive name).1 ≠ backslash := by
  unfold splitDrive
  split
  · split_ifs with root
    · exact current.letter
    · exact root
  · exact current.letter

/-- The components of the copied name with the first one once more are no start of those of
the canonical name. -/
theorem not_prefix {first text : List UInt8} {others : Components} {drive : UInt8}
    {rest : List UInt8} (split : text.splitOn backslash = first :: others)
    (parts : current.splitDrive text = (drive, rest)) :
    ¬ first :: others ++ [first] <+: [drive, 0x3a] :: rooted
      (current.components drive rest) := by
  intro stands
  have text_eq : text = render (first :: others) := by
    rw [← split, render, List.intercalate_splitOn]
  have letter := current.splitDrive_letter text
  rw [parts] at letter
  obtain ⟨rfl, behind⟩ := List.cons_prefix_cons.mp stands
  cases others with
  | nil =>
    rw [text_eq] at parts
    have same : (drive, []) = (drive, rest) := (if_neg letter).symm.trans parts
    cases same
    have at_root : current.components drive [] = current.dir drive := rfl
    have member := behind.subset (List.mem_singleton_self [drive, 0x3a])
    rw [at_root, rooted] at member
    split_ifs at member
    · simp at member
    · exact (current.proper drive _ member).no_colon (by simp)
  | cons other others =>
    have cut : render ([drive, 0x3a] :: other :: others) =
        drive :: 0x3a :: backslash :: render (other :: others) := List.intercalate_cons_cons
    rw [text_eq, cut] at parts
    have same : (drive, backslash :: render (other :: others)) = (drive, rest) :=
      (if_neg letter).symm.trans parts
    cases same
    have whole : Whole (other :: others) := fun component member =>
      Os2srv.not_mem_of_mem_splitOn (split ▸ List.mem_cons_of_mem _ member)
    have components_eq : current.components drive (backslash :: render (other :: others)) =
          (other :: others).foldl Os2srv.follow [] := by
      rw [components, ← List.nil_append (backslash :: _),
        List.splitOn_append_cons_self_of_not_mem List.not_mem_nil, render,
        List.splitOn_intercalate backslash whole (List.cons_ne_nil _ _)]
      rfl
    have long : (other :: others ++ [[drive, 0x3a]]).length ≤ _ := behind.length_le
    have short := length_foldl_follow (other :: others) []
    rw [components_eq] at long
    unfold rooted at long
    simp only [List.length_append, List.length_cons, List.length_nil] at long short
    split_ifs at long
    · simp at long
    · omega

theorem ne_canonical {fuel : ℕ} (colon : (path.map Os2srv.toBackslash)[1]? = some 0x3a)
    (run : componentLoop size (fuel + 1) (path.map Os2srv.toBackslash)
      (path.map Os2srv.toBackslash) = .ok name) : name ≠ current.canonical path := by
  intro same
  unfold canonical at same
  generalize path.map Os2srv.toBackslash = text at colon run same
  obtain ⟨first, others, split⟩ := List.exists_cons_of_ne_nil (List.splitOn_ne_nil backslash text)
  have text_eq : text = render (first :: others) := by
    rw [← split, render, List.intercalate_splitOn]
  have not_up : first ≠ dotdot := by
    rintro rfl
    cases others <;> simp [text_eq, render, dotdot, List.intercalate_cons_cons] at colon
  have not_stay : first ≠ dot := by
    rintro rfl
    cases others <;>
      simp [text_eq, render, dot, backslash, List.intercalate_cons_cons] at colon
  have filled : text ≠ [] := by
    rintro rfl
    cases colon
  obtain ⟨dir, rfl, whole, stands⟩ := prefix_of_componentLoop split filled not_up not_stay run
  generalize parts : current.splitDrive text = driveAndRest at same
  obtain ⟨drive, rest⟩ := driveAndRest
  have proper := current.components_proper drive rest
  have proper' : ∀ component ∈ [drive, 0x3a] :: rooted (current.components drive rest),
      component ≠ dotdot ∧ backslash ∉ component := by
    have letter := current.splitDrive_letter text
    rw [parts] at letter
    intro component member
    rcases List.mem_cons.mp member with rfl | member
    · refine ⟨by simp [dotdot], ?_⟩
      simpa [backslash, eq_comm] using letter
    · unfold rooted at member
      split_ifs at member
      · rw [List.mem_singleton.mp member]
        exact ⟨(List.cons_ne_nil _ _).symm, List.not_mem_nil⟩
      · exact proper component member
  have few := List.count_le_length (a := dotdot) (l := others)
  have long := stands.length_le
  simp only [List.length_take, List.length_append, List.length_cons, List.length_nil] at long
  have equal := render_injective whole (fun component member => (proper' component member).2)
    (List.ne_nil_of_length_pos (by omega)) (List.cons_ne_nil _ _)
    (same.trans (render_rooted [drive, 0x3a]))
  subst equal
  by_cases none : others.count dotdot = 0
  · rw [none, Nat.sub_zero, List.take_of_length_le (by simp)] at stands
    exact not_prefix split parts stands
  · have member : dotdot ∈ (first :: others).take
        (others.length + 2 - others.count dotdot) := by
      apply dotdot_mem_take (by rw [List.length_cons]; omega)
      rw [List.count_cons_of_ne not_up, List.length_cons]
      omega
    rw [List.take_append_of_le_length (by rw [List.length_cons]; omega)] at stands
    exact (proper' dotdot (stands.subset member)).1 rfl

theorem read_colon_iff {fn : List UInt8} (zeros : fn = List.replicate CCHMAXPATH 0) :
    readByte (putBytes fn 0 (path ++ [0])) 1 = .ok 0x3a ↔ path[1]? = some 0x3a := by
  subst zeros
  rw [readByte_eq_ok_iff]
  match path with
  | [] => decide
  | [c] => simp [putBytes]
  | c :: c' :: path => simp [putBytes]

/-- The answer is as it should be exactly if the path has a drive and the buffer is too small
for it. -/
theorem queries_iff : current.Queries size path ↔
    path[1]? = some 0x3a ∧ path.length < CCHMAXPATH ∧ size ≤ path.length := by
  have colon_iff :
      (path.map Os2srv.toBackslash)[1]? = some 0x3a ↔ path[1]? = some 0x3a := by
    rw [List.getElem?_map]
    cases path[1]? with
    | none => simp
    | some c =>
      simp only [Option.map_some, Option.some.injEq, Os2srv.toBackslash]
      split_ifs with slash
      · simp [slash, backslash]
      · rfl
  have fits_iff : ∀ fn : List UInt8, fn.length = CCHMAXPATH →
      (0 + (path.map Os2srv.toBackslash ++ [0]).length ≤ fn.length ↔
        path.length < CCHMAXPATH) := by
    intro fn length
    rw [List.length_append, List.length_map, List.length_singleton, length]
    omega
  constructor
  · intro queries
    have length : (List.replicate CCHMAXPATH (0 : UInt8)).length = CCHMAXPATH :=
      List.length_replicate
    obtain ⟨answer, run, good⟩ := queries (List.replicate CCHMAXPATH 0) length
    obtain ⟨fn, written, run⟩ := bind_eq_ok_iff.mp run
    obtain ⟨fits, rfl⟩ := writeBytes_eq_ok_iff.mp written
    obtain ⟨c, read, run⟩ := bind_eq_ok_iff.mp run
    split at run
    · rename_i drive
      have colon := (read_colon_iff rfl).mp (drive ▸ read)
      refine ⟨colon_iff.mp colon, (fits_iff _ length).mp fits, ?_⟩
      unfold copyName at run
      split_ifs at run with small root
      · rwa [List.length_map] at small
      · rw [root] at colon
        cases colon
      · obtain ⟨name, loop, rfl⟩ := map_eq_ok_iff.mp run
        exact absurd (good name rfl).1 (ne_canonical colon loop)
    · cases run
  · rintro ⟨drive, short, small⟩ fn length
    refine ⟨none, ?_, nofun⟩
    have read :
        readByte (putBytes fn 0 (path.map Os2srv.toBackslash ++ [0])) 1 = .ok 0x3a := by
      rw [readByte_eq_ok_iff, ← colon_iff.mpr drive]
      refine ⟨Int.one_nonneg, ?_⟩
      obtain ⟨inside, -⟩ := List.getElem?_eq_some_iff.mp (colon_iff.mpr drive)
      simp only [putBytes, List.take_zero, List.nil_append, List.append_assoc]
      exact List.getElem?_append_left inside
    rw [queryFullName, writeBytes, if_pos ((fits_iff fn length).mpr short), bind_ok, read,
      bind_ok, if_pos rfl, copyName, if_pos (by rwa [List.length_map])]

/-- The current drive is `c:`, and each current directory is the root. -/
def atRoot : Current where
  drive := 0x63
  dir := fun _ => []
  letter := by decide
  proper := nofun

theorem not_queries_file : ¬ atRoot.Queries CCHMAXPATH [0x63, 0x3a, 0x5c, 0x61] := by
  intro queries
  obtain ⟨answer, run, good⟩ := queries (List.replicate CCHMAXPATH 0) List.length_replicate
  have ran : (queryFullName (List.replicate CCHMAXPATH 0) CCHMAXPATH
      [0x63, 0x3a, 0x5c, 0x61]).toOption =
      some (some [0x63, 0x3a, 0x5c, 0x61, 0x5c, 0x63, 0x3a, 0x5c, 0x61]) := by
    decide +kernel
  rw [run] at ran
  cases ran
  have same := (good _ rfl).1
  exact absurd same (by decide)

end Current

end OsFree.Os2fs
