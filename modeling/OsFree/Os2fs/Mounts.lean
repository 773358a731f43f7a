import OsFree.Cfg.Getopt
import OsFree.Compat.Token
import OsFree.Machine.Transition

/-!
# Mounts

The file system server has a table of mounts, from which it makes a map of the
drives once, and turns the paths of applications into those of the host.
-/

namespace OsFree.Os2fs

open Machine
open Cfg (tolower)
open Compat (backslash)

/-- `I_Fs_srv_t`; the strings have no zero. -/
structure Mount where
  mountpoint : List UInt8
  drive : List UInt8
  deriving DecidableEq

/-- The letter of a drive, as it is compared. -/
def Mount.letter (mount : Mount) : UInt8 := tolower (mount.drive.headD 0)

/-- The table of mounts; a null pointer is `none`. -/
structure FSRouter where
  servers : List (Option Mount)
  maxDrv : Nat

namespace FSRouter

/-- `FSRouter_init`. -/
def init : FSRouter where
  servers := []
  maxDrv := 24

/-- The pointers that there is memory for: that of 25 structures of two
pointers. -/
def ROOM : Nat := 50

variable (router : FSRouter)

/-- Add a mount behind the others. -/
def add (server : Option Mount) : Run FSRouter :=
  if router.servers.length < ROOM then
    .ok { router with servers := router.servers ++ [server] }
  else .error .writeOutside

/-- The first mount of a drive. -/
def route (drv : UInt8) : Option Mount := router.servers.findSome? fun server =>
    server.filter fun mount => mount.letter = tolower drv

end FSRouter

/-- The loop over the mounts.  A character that is negative or comes before `a`
makes a shift by a negative number. -/
def setdrivemapLoop : List (Option Mount) → UInt32 → Run UInt32
  | [], map => .ok map
  | none :: _, _ => .error .nullPointer
  | some fsrv :: rest, map =>
    let drv := fsrv.letter
    if 0x61 ≤ drv ∧ drv < 0x80 then
      setdrivemapLoop rest (map ||| bitOf (drv - 0x61).toUInt32)
    else .error .shiftTooWide

/-- The map of the drives that have a mount. -/
def setdrivemap (router : FSRouter) : Run UInt32 := setdrivemapLoop router.servers 0

/-- The drive of a path, 0 if it has none. -/
def getDrv : List UInt8 → Run UInt8
  | [] => .error .readOutside
  | drv :: 0x3a :: _ => .ok drv
  | _ => .ok 0

/-- The last place of a backslash from a place on, 0 if there is none. -/
def lastBackslash (path : List UInt8) (s : Nat) : Nat := ((List.range path.length).filter fun i =>
    s ≤ i ∧ path[i]? = some backslash).getLastD 0

/-- The directory of a path with its last backslash, behind the drive; a null
pointer if that is at the start. -/
def getDirectory (path : List UInt8) : Option (List UInt8) :=
  let s := if path[1]? = some 0x3a then 2 else 0
  let e := lastBackslash path s
  if e = 0 then none else some ((path.drop s).take (e - s + 1))

/-- The name of a path, behind its last backslash. -/
def getName (path : List UInt8) : List UInt8 :=
  if backslash ∈ path then path.drop (lastBackslash path 0 + 1) else path

/-- Turn backslashes into slashes and capital letters into small ones. -/
def dosNameConversion (name : List UInt8) : List UInt8 :=
  name.map fun c => tolower (if c = backslash then 0x2f else c)

/-- Turn a path into one of the host: 1 for a path without a drive or a
directory, or 0 and the path. -/
def pathconv (router : FSRouter) (fname : List UInt8) :
    Run (UInt32 × List UInt8) := do
  let drv ← tolower <$> getDrv fname
  if drv = 0 then return (1, [])
  else
    match getDirectory fname with
    | none => return (1, [])
    | some directory =>
      let directory := dosNameConversion directory
      let name := dosNameConversion (getName fname)
      if 0x63 ≤ drv ∧ drv ≤ 0x7a then
        match router.route drv with
        | none => .error .nullPointer
        | some fsrv => return (0, fsrv.mountpoint ++ directory ++ name)
      else return (0, directory ++ name)

/-- The mounts, and the map that is kept; -1 is none. -/
structure MountState where
  router : FSRouter
  drivemap : UInt32

namespace MountState

/-- Before anything is mounted. -/
def initial : MountState where
  router := FSRouter.init
  drivemap := 0xffffffff

variable (state : MountState)

/-- Mount a drive. -/
def mount (server : Option Mount) : Run MountState :=
  ({ state with router := · }) <$> state.router.add server

/-- Ask for the map of the drives. -/
def fsGetDriveMap : Run (UInt32 × MountState) := do
  if state.drivemap = 0xffffffff then
    let drivemap ← setdrivemap state.router
    return (drivemap, { state with drivemap })
  else return (state.drivemap, state)

/-- There are no more mounts than the table is for. -/
def Fits : Prop := state.router.servers.length ≤ state.router.maxDrv

/-- The map that is asked for has the bits of the letters with a mount. -/
def MapRight : Prop := ∃ map state', state.fsGetDriveMap = .ok (map, state') ∧
    ∀ i < 26, HasBit map i ↔ (state.router.route (0x61 + UInt8.ofNat i)).isSome

/-- A path on a drive without a mount is refused. -/
def Refuses (fname : List UInt8) : Prop :=
  ∀ drv rest, fname = drv :: 0x3a :: rest → drv ≠ 0 → state.router.route drv = none →
    ∃ rc converted, pathconv state.router fname = .ok (rc, converted) ∧ rc ≠ 0

/-- A step of a run: a drive is mounted, or the map is asked for. -/
inductive Step : MountState → MountState → Prop where
  | mount {state state' : MountState} {server : Option Mount}
      (mounted : state.mount server = .ok state') : Step state state'
  | query {state state' : MountState} {map : UInt32}
      (asked : state.fsGetDriveMap = .ok (map, state')) : Step state state'

/-- A mount is for a letter, or a character behind the letters. -/
def Lettered (server : Option Mount) : Prop :=
  ∃ mount, server = some mount ∧ 0x61 ≤ mount.letter ∧ mount.letter < 0x80

/-- There is room for a mount, and before the map is made it is for a letter,
after that for no new letter. -/
def Allowed (server : Option Mount) : Prop := state.router.servers.length < state.router.maxDrv ∧
    (state.drivemap = 0xffffffff → Lettered server) ∧
    (state.drivemap ≠ 0xffffffff → ∀ mount, server = some mount →
      0x61 ≤ mount.letter → mount.letter ≤ 0x7a → (state.router.route mount.letter).isSome)

/-- A step where what is mounted is allowed. -/
inductive AllowedStep : MountState → MountState → Prop where
  | mount {state state' : MountState} {server : Option Mount} (allowed : state.Allowed server)
      (mounted : state.mount server = .ok state') : AllowedStep state state'
  | query {state state' : MountState} {map : UInt32}
      (asked : state.fsGetDriveMap = .ok (map, state')) : AllowedStep state state'

end MountState

namespace FSRouter

theorem isSome_route_iff (router : FSRouter) (drv : UInt8) : (router.route drv).isSome ↔
      ∃ mount, some mount ∈ router.servers ∧ mount.letter = tolower drv := by
  rw [route, List.findSome?_isSome_iff]
  constructor
  · rintro ⟨server, member, found⟩
    cases server with
    | none => cases found
    | some mount =>
      refine ⟨mount, member, ?_⟩
      simpa [Option.isSome_filter] using found
  · rintro ⟨mount, member, same⟩
    refine ⟨some mount, member, ?_⟩
    simp [same]

end FSRouter

theorem toNat_letter {i : Nat} (small : i < 26) :
    (0x61 + UInt8.ofNat i).toNat = 97 + i := by
  rw [UInt8.toNat_add, UInt8.toNat_ofNat']
  simp only [UInt8.reduceToNat]
  omega

theorem tolower_letter {i : Nat} (small : i < 26) :
    tolower (0x61 + UInt8.ofNat i) = 0x61 + UInt8.ofNat i := by
  rw [tolower, if_neg]
  rintro ⟨-, capital⟩
  have bound := UInt8.le_iff_toNat_le.mp capital
  rw [toNat_letter small] at bound
  simp only [UInt8.reduceToNat] at bound
  omega

theorem setdrivemapLoop_of_lettered {servers : List (Option Mount)}
    (lettered : ∀ server ∈ servers, MountState.Lettered server) (map : UInt32) :
    ∃ map', setdrivemapLoop servers map = .ok map' ∧ ∀ i, HasBit map' i ↔ HasBit map i ∨
        ∃ mount, some mount ∈ servers ∧ mount.letter.toNat = 97 + i := by
  induction servers generalizing map with
  | nil => exact ⟨map, rfl, fun i => by simp⟩
  | cons server rest ih =>
    obtain ⟨mount, rfl, low, high⟩ := lettered server (List.mem_cons_self ..)
    obtain ⟨map', returned, bits⟩ := ih
      (fun other member => lettered other (List.mem_cons_of_mem _ member))
      (map ||| bitOf (mount.letter - 0x61).toUInt32)
    refine ⟨map', ?_, ?_⟩
    · rw [setdrivemapLoop]
      simp only [low, high, and_self, if_true, returned]
    · have least := UInt8.le_iff_toNat_le.mp low
      have most := UInt8.lt_iff_toNat_lt.mp high
      simp only [UInt8.reduceToNat] at least most
      have shift : (mount.letter - 0x61).toUInt32.toNat =
          mount.letter.toNat - 97 := by
        rw [UInt8.toNat_toUInt32, UInt8.toNat_sub_of_le _ _ low]
        rfl
      intro i
      rw [bits i, hasBit_or_iff, hasBit_bitOf_iff (by omega), shift]
      constructor
      · rintro ((before | here) | ⟨other, member, same⟩)
        · exact Or.inl before
        · exact Or.inr ⟨mount, List.mem_cons_self .., by omega⟩
        · exact Or.inr ⟨other, List.mem_cons_of_mem _ member, same⟩
      · rintro (before | ⟨other, member, same⟩)
        · exact Or.inl (Or.inl before)
        · cases List.mem_cons.mp member with
          | inl here =>
            cases here
            exact Or.inl (Or.inr (by omega))
          | inr later => exact Or.inr ⟨other, later, same⟩

theorem setdrivemap_of_lettered {router : FSRouter}
    (lettered : ∀ server ∈ router.servers, MountState.Lettered server) :
    ∃ map, setdrivemap router = .ok map ∧ map ≠ 0xffffffff ∧ ∀ i < 26, HasBit map i ↔
        (router.route (0x61 + UInt8.ofNat i)).isSome := by
  obtain ⟨map, returned, bits⟩ := setdrivemapLoop_of_lettered lettered 0
  refine ⟨map, returned, ?_, ?_⟩
  · apply ne_ones_of_not_hasBit (show 31 < 32 by decide)
    rw [bits]
    rintro (nothing | ⟨mount, member, same⟩)
    · exact not_hasBit_zero nothing
    · obtain ⟨other, equal, -, high⟩ := lettered _ member
      cases equal
      have most := UInt8.lt_iff_toNat_lt.mp high
      simp only [UInt8.reduceToNat] at most
      omega
  · intro i small
    rw [bits, FSRouter.isSome_route_iff, tolower_letter small]
    simp only [not_hasBit_zero, false_or, ← UInt8.toNat_inj, toNat_letter small]

theorem lastBackslash_eq_zero_iff {path : List UInt8} {s : Nat} (behind : 0 < s) :
    lastBackslash path s = 0 ↔ backslash ∉ path.drop s := by
  unfold lastBackslash
  cases List.eq_nil_or_concat' ((List.range path.length).filter fun i =>
      s ≤ i ∧ path[i]? = some backslash) with
  | inl none =>
    rw [none]
    refine ⟨fun _ member => ?_, fun _ => rfl⟩
    obtain ⟨k, found⟩ := List.mem_iff_getElem?.mp member
    rw [List.getElem?_drop] at found
    have inside := (List.getElem?_eq_some_iff.mp found).1
    have excluded := List.filter_eq_nil_iff.mp none (s + k) (List.mem_range.mpr inside)
    simp [found] at excluded
  | inr parts =>
    obtain ⟨front, last, equal⟩ := parts
    have listed : last ∈ front ++ [last] := by simp
    rw [← equal] at listed
    obtain ⟨later, found⟩ : s ≤ last ∧ path[last]? = some backslash := by
      simpa using (List.mem_filter.mp listed).2
    rw [equal, List.getLastD_concat]
    constructor
    · omega
    · intro nowhere
      refine absurd (List.mem_iff_getElem?.mpr ⟨last - s, ?_⟩) nowhere
      rw [List.getElem?_drop, Nat.add_sub_cancel' later, found]

theorem getDirectory_eq_none_iff (drv : UInt8) (rest : List UInt8) :
    getDirectory (drv :: 0x3a :: rest) = none ↔ backslash ∉ rest := by
  have start : (if (drv :: 0x3a :: rest)[1]? = some 0x3a then 2 else 0) = 2 := rfl
  have last := @lastBackslash_eq_zero_iff (drv :: 0x3a :: rest) 2 (by decide)
  unfold getDirectory
  rw [show rest = (drv :: 0x3a :: rest).drop 2 from rfl, ← last]
  simp

theorem eq_zero_of_tolower {c : UInt8} (zero : tolower c = 0) : c = 0 := by
  unfold tolower at zero
  split at zero
  · rename_i capital
    have least := UInt8.le_iff_toNat_le.mp capital.1
    have most := UInt8.le_iff_toNat_le.mp capital.2
    have value := congrArg UInt8.toNat zero
    rw [UInt8.toNat_add] at value
    simp only [UInt8.reduceToNat] at least most value
    omega
  · exact zero

theorem tolower_tolower (c : UInt8) : tolower (tolower c) = tolower c := by
  unfold tolower
  split
  · rename_i capital
    have least := UInt8.le_iff_toNat_le.mp capital.1
    have most := UInt8.le_iff_toNat_le.mp capital.2
    simp only [UInt8.reduceToNat] at least most
    have value : (c + 0x20).toNat = c.toNat + 32 := by
      rw [UInt8.toNat_add]
      simp only [UInt8.reduceToNat]
      omega
    rw [if_neg]
    rintro ⟨-, small⟩
    have bound := UInt8.le_iff_toNat_le.mp small
    simp only [UInt8.reduceToNat] at bound
    omega
  · rfl

theorem FSRouter.route_tolower (router : FSRouter) (drv : UInt8) :
    router.route (tolower drv) = router.route drv := by
  unfold FSRouter.route
  rw [tolower_tolower]

namespace MountState

variable {state state' : MountState}

theorem refuses_iff (fname : List UInt8) :
    state.Refuses fname ↔ ∀ drv rest, fname = drv :: 0x3a :: rest → drv ≠ 0 →
      state.router.route drv = none → backslash ∉ rest := by
  constructor
  · intro refuses drv rest equal named unmounted somewhere
    obtain ⟨rc, converted, done, refused⟩ := refuses drv rest equal named unmounted
    subst equal
    have unfound : state.router.route (tolower drv) = none := by
      rw [FSRouter.route_tolower]
      exact unmounted
    have directory := (getDirectory_eq_none_iff drv rest).not.mpr (not_not.mpr somewhere)
    obtain ⟨directory, found⟩ := Option.ne_none_iff_exists'.mp directory
    have letter : tolower drv ≠ 0 := fun zero => named (eq_zero_of_tolower zero)
    simp only [pathconv, getDrv, map_ok, bind_ok, letter, if_false, found, unfound] at done
    split at done
    · cases done
    · cases done
      exact refused rfl
  · intro condition drv rest equal named unmounted
    have nowhere := condition drv rest equal named unmounted
    subst equal
    refine ⟨1, [], ?_, by decide⟩
    have directory := (getDirectory_eq_none_iff drv rest).mpr nowhere
    simp [pathconv, getDrv, directory]

/-- The table is not too large, and the map that is kept is right or can be
made. -/
structure Sound (state : MountState) : Prop where
  size : state.router.maxDrv = 24
  fits : state.Fits
  map : state.drivemap = 0xffffffff ∧ (∀ server ∈ state.router.servers, Lettered server) ∨
    state.drivemap ≠ 0xffffffff ∧ ∀ i < 26, HasBit state.drivemap i ↔
      (state.router.route (0x61 + UInt8.ofNat i)).isSome

theorem initial_sound : initial.Sound where
  size := rfl
  fits := Nat.zero_le _
  map := Or.inl ⟨rfl, fun _ member => nomatch member⟩

theorem Sound.query (sound : state.Sound) :
    ∃ map state', state.fsGetDriveMap = .ok (map, state') ∧ state'.Sound ∧ ∀ i < 26, HasBit map i ↔
        (state.router.route (0x61 + UInt8.ofNat i)).isSome := by
  cases sound.map with
  | inl unmade =>
    obtain ⟨map, made, kept, bits⟩ := setdrivemap_of_lettered unmade.2
    refine ⟨map, { state with drivemap := map }, ?_, ?_, bits⟩
    · simp only [fsGetDriveMap, if_pos unmade.1, made, bind_ok, pure_eq_ok]
    · exact ⟨sound.size, sound.fits, Or.inr ⟨kept, bits⟩⟩
  | inr made =>
    exact ⟨state.drivemap, state, if_neg made.1, sound, made.2⟩

theorem Sound.mount (sound : state.Sound) {server : Option Mount} (allowed : state.Allowed server) :
    ∃ state', state.mount server = .ok state' ∧ state'.Sound := by
  obtain ⟨room, before, later⟩ := allowed
  have size := sound.size
  have inside : state.router.servers.length < FSRouter.ROOM := by
    rw [size] at room
    exact Nat.lt_trans room (by decide)
  refine ⟨{ state with router :=
    { state.router with servers := state.router.servers ++ [server] } }, ?_, ?_⟩
  · rw [MountState.mount, FSRouter.add, if_pos inside, map_ok]
  · have fits : (state.router.servers ++ [server]).length ≤ state.router.maxDrv := by
      rw [List.length_append]
      exact room
    refine ⟨size, fits, ?_⟩
    cases sound.map with
    | inl unmade =>
      refine Or.inl ⟨unmade.1, fun other member => ?_⟩
      cases List.mem_append.mp member with
      | inl old => exact unmade.2 other old
      | inr new =>
        rw [List.mem_singleton.mp new]
        exact before unmade.1
    | inr made =>
      refine Or.inr ⟨made.1, fun i small => ?_⟩
      rw [made.2 i small, FSRouter.isSome_route_iff, FSRouter.isSome_route_iff]
      constructor
      · rintro ⟨mount, member, same⟩
        exact ⟨mount, List.mem_append_left _ member, same⟩
      · rintro ⟨mount, member, same⟩
        cases List.mem_append.mp member with
        | inl old => exact ⟨mount, old, same⟩
        | inr new =>
          have letter := same.trans (tolower_letter small)
          have value := toNat_letter small
          rw [← letter] at value
          obtain ⟨other, old, equal⟩ := (FSRouter.isSome_route_iff _ _).mp
            (later made.1 mount (List.mem_singleton.mp new).symm
              (UInt8.le_iff_toNat_le.mpr (by simp only [UInt8.reduceToNat]; omega))
              (UInt8.le_iff_toNat_le.mpr (by simp only [UInt8.reduceToNat]; omega)))
          refine ⟨other, old, ?_⟩
          rw [equal, letter]

theorem Sound.step (sound : state.Sound) (step : AllowedStep state state') :
    state'.Sound := by
  cases step with
  | mount allowed mounted =>
    obtain ⟨next, equal, sound⟩ := sound.mount allowed
    cases equal.symm.trans mounted
    exact sound
  | query asked =>
    obtain ⟨map, next, equal, sound, -⟩ := sound.query
    cases equal.symm.trans asked
    exact sound

/-- In every run where what is mounted is allowed, the table is not too large and
the map has the bits of the letters with a mount; another allowed mount can be
added, and a path on a drive without a mount is refused exactly if it has no
directory. -/
theorem map_of_run (run : RunsTo AllowedStep initial state) :
    state.Fits ∧ state.MapRight ∧ (∀ server, state.Allowed server →
        ∃ state', state.mount server = .ok state' ∧ state'.Fits) ∧
      ∀ fname, state.Refuses fname ↔ ∀ drv rest, fname = drv :: 0x3a :: rest → drv ≠ 0 →
          state.router.route drv = none → backslash ∉ rest := by
  have sound := run.preserves (fun _ _ sound step => Sound.step sound step) initial_sound
  refine ⟨sound.fits, ?_, ?_, state.refuses_iff⟩
  · obtain ⟨map, state', asked, -, bits⟩ := sound.query
    exact ⟨map, state', asked, bits⟩
  · intro server allowed
    obtain ⟨state', mounted, after⟩ := sound.mount allowed
    exact ⟨state', mounted, after.fits⟩

/-- A drive of the host. -/
def driveC : Mount where
  mountpoint := [0x2f]
  drive := [0x63, 0x3a]

/-- The map is asked for when a drive is mounted. -/
theorem driveC_mapRight : ∃ state : MountState, state.router.servers = [some driveC] ∧
      state.MapRight := by
  have step : AllowedStep initial
      { initial with router := { initial.router with servers := [some driveC] } } :=
    .mount ⟨by decide, fun _ => ⟨driveC, rfl, by decide, by decide⟩,
      fun other => absurd rfl other⟩ rfl
  exact ⟨_, rfl, (map_of_run (Relation.ReflTransGen.single step)).2.1⟩

/-- A drive that is mounted when the map has been asked for is not in the map, and
a path on a drive without a mount ends the server. -/
theorem lateDrive_not_mapRight : (∃ state, RunsTo Step initial state ∧
      (state.router.route 0x63).isSome ∧ ¬ state.MapRight) ∧
    ¬ initial.Refuses [0x63, 0x3a, backslash, 0x61] := by
  constructor
  · refine ⟨⟨⟨[some driveC], 24⟩, 0⟩, ?_, rfl, ?_⟩
    · exact (Relation.ReflTransGen.single (@Step.query _ ⟨FSRouter.init, 0⟩ 0 rfl)).tail
          (@Step.mount _ _ (some driveC) rfl)
    · rintro ⟨map, state', asked, bits⟩
      cases asked
      exact not_hasBit_zero ((bits 2 (by decide)).mpr rfl)
  · rw [refuses_iff]
    intro condition
    exact condition 0x63 [backslash, 0x61] rfl (by decide) rfl (by simp)

end MountState

end OsFree.Os2fs
