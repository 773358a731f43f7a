import Mathlib.Data.List.TakeWhile
import OsFree.Compat.Token
import OsFree.Machine.Transition
import OsFree.Os2srv.ProcessList

/-!
# The current directory

A request for another directory goes through the components of a path and
changes the directory of the process by each of them, in a field of 256
characters.  An absolute path starts with an empty component.
-/

namespace OsFree.Os2srv

open Machine
open Compat (backslash)
open Prcmgr (Thread)

/-- `..`. -/
def dotdot : List UInt8 := [0x2e, 0x2e]

/-- `.`. -/
def dot : List UInt8 := [0x2e]

/-- Append a string to one in an array of 256 characters. -/
def strcatDir (dir src : List UInt8) : Run (List UInt8) :=
  if dir.length + src.length < 256 then .ok (dir ++ src)
  else .error .writeOutside

/-- The string before the last backslash; nothing if there is none. -/
def cutLast (dir : List UInt8) : List UInt8 :=
  ((dir.reverse.dropWhile (· ≠ backslash)).drop 1).reverse

/-- Change a directory by one component. -/
def cdir (dir component : List UInt8) : Run (List UInt8) :=
  if component = dotdot then
    if dir = [] then .ok dir else .ok (cutLast dir)
  else if component = dot then .ok dir
  else if component.head? ≠ some backslash then do
    let dir ← if dir = [] then pure dir else strcatDir dir [backslash]
    strcatDir dir component
  else strcatDir [] component

/-- Change a directory by the components of a path.  Each is copied to an array of
256 characters. -/
def cdirAll : Nat → List UInt8 → List UInt8 → Run (List UInt8)
  | 0, _, _ => .error .readOutside
  | fuel + 1, q, dir => do
      let str := q.takeWhile (· ≠ backslash)
      let str ← if str.length < 256 then pure str else .error .writeOutside
      let dir ← cdir dir str
      match q.drop str.length with
      | [] => pure dir
      | _ :: p => cdirAll fuel p dir

/-- A slash is turned into a backslash. -/
def toBackslash (c : UInt8) : UInt8 := if c = 0x2f then backslash else c

/-- The directory after a request.  A null pointer is `none`. -/
def changeDir (curdir : List UInt8) : Option (List UInt8) → Run (List UInt8)
  | none => .ok []
  | some pszDir =>
    let path := pszDir.map toBackslash
    if path = [backslash] then .ok []
    else cdirAll (path.length + 1) path curdir

namespace ProcServer

variable (server : ProcServer)

/-- Change the directory of the process of a thread.  ERROR_INVALID_PROCID is
303. -/
def cpSetCurrentDir (thread : Thread) (pszDir : Option (List UInt8))
    (fuel : Nat) : Option (Run (UInt32 × ProcServer)) :=
  andThen (server.prcGetProcNative thread fuel) fun proc =>
    match proc with
    | none => some (.ok (303, server))
    | some proc =>
      some do
        let record ← server.procs.read proc
        let curdir ← changeDir record.curdir pszDir
        let procs ← server.procs.modify proc fun record =>
          { record with curdir }
        pure (0, { server with procs })

end ProcServer

/-- A directory as the components that lead to it from the root. -/
abbrev Components := List (List UInt8)

/-- The directory as a string. -/
def render (dir : Components) : List UInt8 := [backslash].intercalate dir

/-- The directory that a component leads to. -/
def follow (dir : Components) (component : List UInt8) : Components :=
  if component = dotdot then dir.dropLast
  else if component = dot ∨ component = [] then dir
  else dir ++ [component]

/-- The components of a path. -/
def componentsOf (path : List UInt8) : Components := (path.map toBackslash).splitOn backslash

/-- The directory that a path leads to: an absolute one starts at the root, and
no path at all is the root. -/
def resolve (dir : Components) : Option (List UInt8) → Components
  | none => []
  | some path =>
    let start := if (path.map toBackslash).head? = some backslash then []
      else dir
    (componentsOf path).foldl follow start

/-- A directory whose components are not empty and have no backslash. -/
def Plain (dir : Components) : Prop := ∀ component ∈ dir, component ≠ [] ∧ backslash ∉ component

/-- The components of a path can be followed in the field: an empty one is met at
the root only, and every directory on the way has fewer than 256 characters. -/
def Fits (dir : Components) : List (List UInt8) → Prop
  | [] => True
  | component :: rest =>
    (component = [] → dir = []) ∧ (render (follow dir component)).length < 256 ∧
      Fits (follow dir component) rest

variable {dir : Components} {component : List UInt8}

theorem intercalate_concat {separator last : List UInt8} (some : dir ≠ []) :
    separator.intercalate (dir ++ [last]) =
      separator.intercalate dir ++ separator ++ last := by
  induction dir with
  | nil => exact absurd rfl some
  | cons component rest ih =>
    cases rest with
    | nil => simp
    | cons next rest =>
      have whole := ih (List.cons_ne_nil next rest)
      rw [List.cons_append, List.cons_append, List.intercalate_cons_cons,
        ← List.cons_append, whole, List.intercalate_cons_cons]
      simp only [List.append_assoc]

theorem render_concat (some : dir ≠ []) (component : List UInt8) :
    render (dir ++ [component]) = render dir ++ backslash :: component := by
  rw [render, intercalate_concat some, List.append_assoc]
  rfl

theorem render_ne_nil (plain : Plain dir) (some : dir ≠ []) : render dir ≠ [] := by
  cases List.eq_nil_or_concat' dir with
  | inl none => exact absurd none some
  | inr parts =>
    obtain ⟨front, last, rfl⟩ := parts
    have nonempty := (plain last (by simp)).1
    cases front with
    | nil => simpa [render] using nonempty
    | cons first rest =>
      rw [render_concat (List.cons_ne_nil first rest)]
      simp

theorem cutLast_render (nowhere : backslash ∉ component) :
    cutLast (render (dir ++ [component])) = render dir := by
  have letters : ∀ c ∈ component.reverse, decide (c ≠ backslash) = true := by
    intro c member
    have different := ne_of_mem_of_not_mem (List.mem_reverse.mp member) nowhere
    simpa using different
  cases dir with
  | nil =>
    have all : component.reverse.dropWhile (· ≠ backslash) = [] := by
      rw [← List.append_nil component.reverse, List.dropWhile_append_of_pos letters]
      rfl
    rw [cutLast, List.nil_append, show render [component] = component by
      simp [render], all]
    rfl
  | cons first rest =>
    rw [render_concat (List.cons_ne_nil first rest), cutLast,
      List.reverse_append, List.reverse_cons, List.append_assoc,
      List.dropWhile_append_of_pos letters]
    simp

theorem splitOn_render (plain : Plain dir)
    (some : dir ≠ []) : (render dir).splitOn backslash = dir :=
  List.splitOn_intercalate backslash (fun component member =>
    (plain component member).2) some

theorem plain_follow (plain : Plain dir) (nowhere : backslash ∉ component) :
    Plain (follow dir component) := by
  unfold follow
  split
  · exact fun other member => plain other ((List.dropLast_subset dir) member)
  · split
    · exact plain
    · rename_i named
      intro other member
      cases List.mem_append.mp member with
      | inl member => exact plain other member
      | inr member =>
        cases List.mem_singleton.mp member
        exact ⟨fun empty => named (Or.inr empty), nowhere⟩

theorem strcatDir_of_fits {dir src : List UInt8} (fits : (dir ++ src).length < 256) :
    strcatDir dir src = .ok (dir ++ src) := by
  rw [strcatDir, if_pos (by simpa using fits)]

theorem cdir_render (plain : Plain dir) (nowhere : backslash ∉ component)
    (empty : component = [] → dir = [])
    (fits : (render (follow dir component)).length < 256) :
    cdir (render dir) component = .ok (render (follow dir component)) := by
  unfold cdir
  by_cases up : component = dotdot
  · rw [if_pos up]
    unfold follow
    rw [if_pos up]
    cases List.eq_nil_or_concat' dir with
    | inl root =>
      subst root
      rfl
    | inr parts =>
      obtain ⟨front, last, rfl⟩ := parts
      rw [if_neg (render_ne_nil plain (by simp)),
        cutLast_render (plain last (by simp)).2, List.dropLast_concat]
  · rw [if_neg up]
    unfold follow at fits ⊢
    rw [if_neg up] at fits ⊢
    by_cases here : component = dot
    · rw [if_pos here, if_pos (Or.inl here)]
    · have first : component.head? ≠ some backslash := fun starts =>
        nowhere (List.mem_of_head? starts)
      rw [if_neg here, if_pos first]
      by_cases nothing : component = []
      · cases empty nothing
        subst nothing
        rfl
      · have named : ¬ (component = dot ∨ component = []) := not_or.mpr ⟨here, nothing⟩
        rw [if_neg named] at fits ⊢
        cases dir with
        | nil =>
          have alone : render [] = [] := rfl
          have single : render ([] ++ [component]) = component := by
            simp [render]
          rw [single] at fits
          have less : ([] ++ component).length < 256 := fits
          rw [alone, single, if_pos rfl, pure_eq_ok, bind_ok]
          exact strcatDir_of_fits less
        | cons head rest =>
          rw [render_concat (List.cons_ne_nil head rest)] at fits ⊢
          have whole : render (head :: rest) ++ backslash :: component =
              (render (head :: rest) ++ [backslash]) ++ component := by
            simp
          rw [whole] at fits ⊢
          have less : (render (head :: rest) ++ [backslash]).length < 256 := by
            rw [List.length_append] at fits
            omega
          rw [if_neg (render_ne_nil plain (List.cons_ne_nil head rest)),
            strcatDir_of_fits less, bind_ok]
          exact strcatDir_of_fits fits

theorem path_cases (q : List UInt8) : (backslash ∉ q ∧ q.takeWhile (· ≠ backslash) = q) ∨
      ∃ component rest, backslash ∉ component ∧ q = component ++ backslash :: rest ∧
        q.takeWhile (· ≠ backslash) = component := by
  have letters : ∀ component : List UInt8, backslash ∉ component →
      ∀ c ∈ component, decide (c ≠ backslash) = true := by
    intro component nowhere c member
    simpa using ne_of_mem_of_not_mem member nowhere
  by_cases somewhere : backslash ∈ q
  · right
    obtain ⟨component, rest, rfl, nowhere⟩ := List.eq_append_cons_of_mem somewhere
    refine ⟨component, rest, nowhere, rfl, ?_⟩
    rw [List.takeWhile_append_of_pos (letters component nowhere)]
    simp
  · left
    exact ⟨somewhere, List.takeWhile_eq_self_iff.mpr (letters q somewhere)⟩

theorem not_mem_of_mem_splitOn {path : List UInt8}
    (member : component ∈ path.splitOn backslash) : backslash ∉ component := by
  induction length : path.length using Nat.strong_induction_on generalizing path with
  | _ length ih =>
    cases path_cases path with
    | inl single =>
      rw [List.splitOn_eq_singleton single.1] at member
      rw [List.mem_singleton.mp member]
      exact single.1
    | inr several =>
      obtain ⟨first, rest, nowhere, rfl, -⟩ := several
      rw [List.splitOn_append_cons_self_of_not_mem nowhere] at member
      cases List.mem_cons.mp member with
      | inl here =>
        rw [here]
        exact nowhere
      | inr later =>
        simp only [List.length_append, List.length_cons] at length
        exact ih rest.length (by omega) later rfl

theorem length_le_render_concat (dir : Components) (component : List UInt8) :
    component.length ≤ (render (dir ++ [component])).length := by
  cases dir with
  | nil => simp [render]
  | cons first rest =>
    rw [render_concat (List.cons_ne_nil first rest), List.length_append, List.length_cons]
    omega

theorem length_lt_of_follow (fits : (render (follow dir component)).length < 256) :
    component.length < 256 := by
  unfold follow at fits
  split at fits
  · rename_i up
    rw [up]
    decide
  · split at fits
    · rename_i here
      cases here with
      | inl here =>
        rw [here]
        decide
      | inr nothing =>
        rw [nothing]
        decide
    · exact Nat.lt_of_le_of_lt (length_le_render_concat dir component) fits

theorem cdirAll_render {fuel : Nat} {q : List UInt8} (plain : Plain dir) (enough : q.length < fuel)
    (fits : Fits dir (q.splitOn backslash)) :
    cdirAll fuel q (render dir) =
      .ok (render ((q.splitOn backslash).foldl follow dir)) := by
  induction fuel generalizing q dir with
  | zero => omega
  | succ fuel ih =>
    cases path_cases q with
    | inl single =>
      obtain ⟨nowhere, whole⟩ := single
      rw [List.splitOn_eq_singleton nowhere] at fits ⊢
      obtain ⟨empty, less, -⟩ := fits
      unfold cdirAll
      simp only [whole, if_pos (length_lt_of_follow less), pure_eq_ok,
        bind_ok, cdir_render plain nowhere empty less, List.drop_length]
      rfl
    | inr several =>
      obtain ⟨component, rest, nowhere, rfl, first⟩ := several
      rw [List.splitOn_append_cons_self_of_not_mem nowhere] at fits ⊢
      obtain ⟨empty, less, fits⟩ := fits
      unfold cdirAll
      simp only [first, if_pos (length_lt_of_follow less), pure_eq_ok,
        bind_ok, cdir_render plain nowhere empty less, List.drop_left]
      have shorter : rest.length < fuel := by
        simp only [List.length_append, List.length_cons] at enough
        omega
      exact ih (plain_follow plain nowhere) shorter fits

/-- A path that can be resolved in the field: none, the root alone, or one whose
components fit. -/
def FitsPath (dir : Components) : Option (List UInt8) → Prop
  | none => True
  | some path => path.map toBackslash = [backslash] ∨ Fits dir (componentsOf path)

theorem start_of_fits {path : List UInt8} (fits : Fits dir (path.splitOn backslash)) :
    (if path.head? = some backslash then [] else dir) = dir := by
  split
  · rename_i absolute
    obtain ⟨rest, rfl⟩ := List.head?_eq_some_iff.mp absolute
    rw [show backslash :: rest = [] ++ backslash :: rest from rfl,
      List.splitOn_append_cons_self_of_not_mem (List.not_mem_nil)] at fits
    exact (fits.1 rfl).symm
  · rfl

theorem changeDir_render {pszDir : Option (List UInt8)}
    (plain : Plain dir) (fits : FitsPath dir pszDir) :
    changeDir (render dir) pszDir = .ok (render (resolve dir pszDir)) := by
  cases pszDir with
  | none => rfl
  | some path =>
    unfold changeDir resolve componentsOf
    by_cases root : path.map toBackslash = [backslash]
    · simp only [root, if_true]
      rfl
    · have fits : Fits dir ((path.map toBackslash).splitOn backslash) := fits.resolve_left root
      simp only [if_neg root, start_of_fits fits]
      exact cdirAll_render plain (Nat.lt_succ_self _) fits

theorem foldl_follow {components : Components} (plain : Plain dir)
    (nowhere : ∀ component ∈ components, backslash ∉ component)
    (short : (render dir).length < 256) (fits : Fits dir components) :
    Plain (components.foldl follow dir) ∧
      (render (components.foldl follow dir)).length < 256 := by
  induction components generalizing dir with
  | nil => exact ⟨plain, short⟩
  | cons component rest ih =>
    obtain ⟨-, less, fits⟩ := fits
    apply ih _ _ less fits
    · exact plain_follow plain (nowhere component (List.mem_cons_self ..))
    · intro other member
      exact nowhere other (List.mem_cons_of_mem component member)

theorem resolve_of_fits {pszDir : Option (List UInt8)}
    (plain : Plain dir) (short : (render dir).length < 256)
    (fits : FitsPath dir pszDir) :
    Plain (resolve dir pszDir) ∧ (render (resolve dir pszDir)).length < 256 := by
  have root : Plain [] ∧ (render []).length < 256 := ⟨by simp [Plain], by decide⟩
  cases pszDir with
  | none => exact root
  | some path =>
    unfold resolve componentsOf
    by_cases alone : path.map toBackslash = [backslash]
    · simp only [alone]
      exact root
    · have fits : Fits dir ((path.map toBackslash).splitOn backslash) := fits.resolve_left alone
      simp only [start_of_fits fits]
      exact foldl_follow plain (fun _ => not_mem_of_mem_splitOn) short fits

/-- A string without an empty component, and so without a backslash at its start
or end; the root is the empty string. -/
def NoEmptyComponent (curdir : List UInt8) : Prop := curdir ≠ [] → [] ∉ curdir.splitOn backslash

theorem noEmptyComponent_render (plain : Plain dir) :
    NoEmptyComponent (render dir) := by
  intro someString
  have some : dir ≠ [] := by
    intro none
    rw [none] at someString
    exact someString rfl
  rw [splitOn_render plain some]
  intro empty
  exact (plain [] empty).1 rfl

/-- The server, with the directories of its processes as the requests so far
resolve. -/
structure DirState where
  server : ProcServer
  dirs : Nat → Components

namespace DirState

/-- A thread asks for a directory; the reference resolves what it asks for. -/
def request (state : DirState) (thread : Thread) (pszDir : Option (List UInt8))
    (fuel : Nat) : Option (Run DirState) :=
  andThen (state.server.prcGetProcNative thread fuel) fun proc =>
    andThen (state.server.cpSetCurrentDir thread pszDir fuel) fun answer =>
      some (.ok
        { server := answer.2
          dirs :=
            match proc with
            | none => state.dirs
            | some proc => Function.update state.dirs proc (resolve (state.dirs proc) pszDir) })

/-- The state when a process has changed to a directory. -/
def arrive (state : DirState) (proc : Nat) (dir : Components) : DirState where
  server := { state.server with
      procs := state.server.procs.change proc fun record =>
        { record with curdir := render dir } }
  dirs := Function.update state.dirs proc dir

/-- A record holds a directory: its string is that of the directory, has no
empty component, and fits its field of 256 characters. -/
structure Holds (record : OS2Process) (dir : Components) : Prop where
  plain : Plain dir
  curdir : record.curdir = render dir
  wellFormed : NoEmptyComponent record.curdir
  fits : record.curdir.length < 256

/-- Every record holds the directory of the reference. -/
def Good (state : DirState) : Prop :=
  ∀ proc record, state.server.procs.objects proc = some record → Holds record (state.dirs proc)

/-- The path fits the directory of the process that asks. -/
def Allowed (state : DirState) (thread : Thread) (pszDir : Option (List UInt8)) : Prop :=
  ∀ fuel proc, state.server.prcGetProcNative thread fuel = some (.ok (some proc)) →
    FitsPath (state.dirs proc) pszDir

/-- A step for any request. -/
def Step (state state' : DirState) : Prop :=
  ∃ thread pszDir fuel, state.request thread pszDir fuel = some (.ok state')

/-- A step for a request that is allowed. -/
def AllowedStep (state state' : DirState) : Prop :=
  ∃ thread pszDir fuel, state.Allowed thread pszDir ∧
    state.request thread pszDir fuel = some (.ok state')

variable {start state state' : DirState} {thread : Thread}
  {pszDir : Option (List UInt8)} {fuel : Nat}

theorem Good.arrive (good : state.Good) {proc : Nat} {record : OS2Process}
    (live : state.server.procs.objects proc = some record) {dir : Components}
    (plain : Plain dir) (short : (render dir).length < 256) :
    (state.arrive proc dir).Good := by
  intro other found isThere
  dsimp only [DirState.arrive] at isThere ⊢
  by_cases same : other = proc
  · subst same
    rw [Heap.change_objects_self, live, Option.map_some] at isThere
    cases isThere
    rw [Function.update_self]
    exact ⟨plain, rfl, noEmptyComponent_render plain, short⟩
  · rw [Heap.change_objects_of_ne _ same] at isThere
    rw [Function.update_of_ne same]
    exact good other found isThere

theorem Good.request (good : state.Good) (allowed : state.Allowed thread pszDir) {found : Pointer}
    (finds : state.server.prcGetProcNative thread fuel = some (.ok found)) :
    ∃ state', state.request thread pszDir fuel = some (.ok state') ∧
      state'.Good := by
  cases found with
  | none =>
    refine ⟨state, ?_, good⟩
    simp only [DirState.request, ProcServer.cpSetCurrentDir, finds, andThen]
  | some proc =>
    obtain ⟨record, live⟩ := Heap.live_of_find finds
    have holds := good proc record live
    have fits := allowed fuel proc finds
    obtain ⟨plain, short⟩ := resolve_of_fits holds.plain (holds.curdir ▸ holds.fits) fits
    have moved : changeDir record.curdir pszDir =
        .ok (render (resolve (state.dirs proc) pszDir)) := by
      rw [holds.curdir]
      exact changeDir_render holds.plain fits
    refine ⟨_, ?_, good.arrive live plain short⟩
    simp only [DirState.request, ProcServer.cpSetCurrentDir, finds, andThen,
      Heap.read_of_live live, bind_ok, moved, Heap.modify_of_live live,
      pure_eq_ok]
    rfl

theorem Good.step (good : state.Good) (step : AllowedStep state state') :
    state'.Good := by
  obtain ⟨thread, pszDir, fuel, allowed, step⟩ := step
  obtain ⟨found, finds, -⟩ := andThen_eq_ok_iff.mp step
  obtain ⟨next, stepped, good⟩ := good.request allowed finds
  cases step.symm.trans stepped
  exact good

/-- In every run of requests whose paths fit, every record holds the directory
that its requests resolve to, and the next such request comes back. -/
theorem dirs_of_run (good : start.Good) (run : RunsTo AllowedStep start state) :
    state.Good ∧ ∀ thread pszDir fuel found, state.Allowed thread pszDir →
      state.server.prcGetProcNative thread fuel = some (.ok found) →
      ∃ state', state.request thread pszDir fuel = some (.ok state') ∧
        state'.Good := by
  have good := run.preserves (fun _ _ good step => Good.step good step) good
  exact ⟨good, fun _ _ _ _ allowed finds => good.request allowed finds⟩

/-- One process, at the root. -/
def oneProcess : DirState where
  server := { ProcServer.initial ⟨0, 0⟩ with
      procs := Heap.empty.malloc { OS2Process.blank with task := ⟨1, 1⟩ }
      procRoot := some 0 }
  dirs := fun _ => []

theorem oneProcess_good : oneProcess.Good := by
  intro proc record isThere
  by_cases first : proc = 0
  · subst first
    cases isThere
    exact ⟨by simp [Plain, oneProcess], rfl, fun named => absurd rfl named, by decide⟩
  · have nothing := @Heap.malloc_objects_of_ne _ Heap.empty _
      { OS2Process.blank with task := ⟨1, 1⟩ } first
    cases isThere.symm.trans nothing

theorem oneProcess_allowed : oneProcess.Allowed ⟨1, 1⟩ (some [0x61]) := by
  intro fuel proc found
  have fits : Fits [] [[0x61]] := ⟨fun _ => rfl, by decide, trivial⟩
  exact Or.inr fits

/-- A process that changes to `a`. -/
theorem changeToA_good :
    (oneProcess.arrive 0 [[0x61]]).Good :=
  (dirs_of_run oneProcess_good (Relation.ReflTransGen.single
      ⟨⟨1, 1⟩, some [0x61], 2, oneProcess_allowed, rfl⟩)).1

/-- From `a` the absolute path of `b` leads to a directory with an empty
component. -/
theorem absoluteFromA_not_good :
    ∃ state, oneProcess.Good ∧ RunsTo Step oneProcess state ∧ state.dirs 0 = [[0x62]] ∧
      (∃ record, state.server.procs.objects 0 = some record ∧
        record.curdir = [0x61, backslash, backslash, 0x62]) ∧ ¬ state.Good := by
  refine ⟨_, oneProcess_good, (Relation.ReflTransGen.single
    ⟨⟨1, 1⟩, some [0x61], 2, rfl⟩).tail ⟨⟨1, 1⟩, some [backslash, 0x62], 2, rfl⟩,
    rfl, ⟨_, rfl, rfl⟩, ?_⟩
  intro good
  have same := (good 0 _ rfl).curdir
  exact absurd same (by decide)

end DirState

end OsFree.Os2srv
