import OsFree.Exec.ProcessAreas

/-!
# Names of shared areas

A process looks for a name in its own list only, so two processes can allocate
areas with the same name.  The names stay unique along every run in which this
is not asked for.
-/

namespace OsFree.Exec

open Machine
open Modmgr (Name)
open Kal

namespace AreaServer

/-- The list is sound, and no two areas of it have the same name. -/
structure Tidy (server : AreaServer) (addresses : List Nat) : Prop where
  sound : server.Sound addresses
  distinct : ∀ ptr ∈ addresses, ∀ other ∈ addresses, ∀ name,
    server.areas.namedAt name ptr = true → server.areas.namedAt name other = true → ptr = other

/-- The list of a process can be searched. -/
def Searchable (own : OwnAreas) : Prop :=
  ∃ addresses, own.areas.WellLinked own.areasList addresses ∧ own.areas.Named addresses

variable {server server' : AreaServer} {addresses : List Nat}
  {ptr fuel : Nat} {name : Name} {answer : Answer}

theorem namedAt_congr {areas areas' : Areas} (same : areas.SameData areas' ptr)
    (name : Name) : areas'.namedAt name ptr = areas.namedAt name ptr := by
  have names : (areas'.objects ptr).map VmData.name =
      (areas.objects ptr).map VmData.name := by
    have mapped := congrArg (Option.map VmData.name) same
    rw [Option.map_map, Option.map_map] at mapped
    exact mapped
  have asked : ∀ object : Option VmData, (object.any fun area =>
      area.name.any fun stored => stored ≠ [] ∧ stored = name) =
        (object.map VmData.name).any fun area =>
          area.any fun stored => stored ≠ [] ∧ stored = name := by
    intro object
    cases object with
    | none => rfl
    | some area => rfl
  unfold Areas.namedAt
  rw [asked, asked, names]

theorem withCount_namedAt (count : UInt32) (address : Nat) :
    (server.withCount ptr count).areas.namedAt name address =
      server.areas.namedAt name address := by
  unfold Areas.namedAt withCount
  by_cases here : address = ptr
  · rw [here, Heap.change_objects_self, Option.any_map]
  · rw [Heap.change_objects_of_ne _ here]

namespace Tidy

theorem initial : AreaServer.initial.Tidy [] where
  sound := Sound.initial
  distinct := by
    intro ptr member
    cases member

section

variable (tidy : server.Tidy addresses)

include tidy

theorem of_subset {others : List Nat} (sound : server'.Sound others)
    (kept : ∀ address ∈ others, address ∈ addresses ∧ ∀ name,
      server'.areas.namedAt name address = server.areas.namedAt name address) :
    server'.Tidy others where
  sound := sound
  distinct := by
    intro ptr member other member' name named named'
    obtain ⟨old, same⟩ := kept ptr member
    obtain ⟨old', same'⟩ := kept other member'
    rw [same] at named
    rw [same'] at named'
    exact tidy.distinct ptr old other old' name named named'

theorem withCount (member : ptr ∈ addresses) {count : UInt32} (positive : count ≠ 0) :
    (server.withCount ptr count).Tidy addresses :=
  tidy.of_subset (tidy.sound.withCount member positive)
    fun address inside => ⟨inside, fun _ => withCount_namedAt count address⟩

theorem onArea {missing : UInt32} {next : Nat → Run (Answer × AreaServer)} {passes : Nat → Bool}
    (kept : ∀ ptr ∈ addresses, addresses.find? passes = some ptr →
      ∀ answer server', next ptr = .ok (answer, server') → ∃ others, server'.Tidy others)
    (done : server.onArea missing next (addresses.find? passes) =
      .ok (answer, server')) : ∃ others, server'.Tidy others := by
  cases found : addresses.find? passes with
  | none =>
    rw [found] at done
    cases done
    exact ⟨addresses, tidy⟩
  | some ptr =>
    rw [found] at done
    exact kept ptr (List.mem_of_find?_eq_some found) found answer server' done

theorem counts (member : ptr ∈ addresses)
    (room : ¬ server.HasCount ptr (-1)) {run : Run (Answer × AreaServer)}
    (counts : ∀ area count, server.areas.objects ptr = some area →
      area.refcnt = some count → ∃ answer, run = .ok (answer, server.withCount ptr (count + 1)))
    (done : run = .ok (answer, server')) : ∃ others, server'.Tidy others := by
  obtain ⟨area, count, found, counted, -⟩ := tidy.sound.count member
  obtain ⟨answer', returned⟩ := counts area count found counted
  rw [returned] at done
  cases done
  refine ⟨addresses, tidy.withCount member ?_⟩
  intro zero
  apply room
  refine ⟨area, found, counted.trans (congrArg some ?_)⟩
  calc count = count + 1 - 1 := (UInt32.add_sub_cancel count 1).symm
    _ = -1 := by rw [zero, UInt32.zero_sub]

/-- A reference is given up. -/
theorem releases (member : ptr ∈ addresses)
    (notHead : server.HasCount ptr 1 → server.areasList ≠ some ptr)
    {released : UInt32}
    (done : server.releaseArea released ptr = .ok (answer, server')) :
    ∃ others, server'.Tidy others := by
  obtain ⟨area, count, found, counted, positive⟩ := tidy.sound.count member
  by_cases last : count = 1
  · rw [last] at counted
    rw [releaseArea_of_last released found counted] at done
    obtain ⟨areas, unlinked, equal⟩ := map_eq_ok_iff.mp done
    cases equal
    obtain ⟨front, back, rfl⟩ := List.append_of_mem member
    have inside : front ≠ [] := by
      rintro rfl
      exact notHead ⟨area, found, counted⟩ tidy.sound.linked.head_eq
    have outside := (List.nodup_cons.mp (List.nodup_middle.mp
      (Areas.nodup_of_linked tidy.sound.linked))).1
    obtain ⟨areas', unlinked', sound, data⟩ := tidy.sound.unlinked inside
    rw [unlinked] at unlinked'
    cases unlinked'
    refine ⟨front ++ back, tidy.of_subset sound ?_⟩
    intro address kept
    refine ⟨?_, fun name => ?_⟩
    · rw [List.mem_append, List.mem_cons]
      exact (List.mem_append.mp kept).imp_right Or.inr
    · have different : address ≠ ptr := by
        rintro rfl
        exact outside kept
      rw [namedAt_congr (data address different) name, withCount_namedAt]
  · have more : count - 1 ≠ 0 := by
      intro zero
      apply last
      calc count = count - 1 + 1 := (UInt32.sub_add_cancel count 1).symm
        _ = 1 := by rw [zero, UInt32.zero_add]
    rw [releaseArea_of_more released found counted more] at done
    cases done
    exact ⟨addresses, tidy.withCount member more⟩

theorem serve {call : SharedMemCall} (allowed : server.Allowed call)
    (served : server.serve fuel call = some (.ok (answer, server')))
    (notAlloc : ∀ size name rights reserved room, call ≠ .alloc size name rights reserved room) :
    ∃ others, server'.Tidy others := by
  have linked := tidy.sound.linked
  cases call with
  | alloc size name rights reserved room =>
    exact absurd rfl (notAlloc size name rights reserved room)
  | get pb =>
    have settles := Areas.getArea_settles linked pb
    simp only [Allowed, FindsArea, settles.exists_iff, Except.ok.injEq]
      at allowed
    refine tidy.onArea ?_ ((withArea_settles 487 server.giveArea
      settles).returned fuel _ served).symm
    intro ptr member found answer server'
    exact tidy.counts member (allowed ptr found) fun area count => giveArea_of_live
  | getNamed name =>
    have settles := Areas.getMemByName_settles linked tidy.sound.named name
    simp only [Allowed, FindsName, settles.exists_iff, Except.ok.injEq]
      at allowed
    refine tidy.onArea ?_ ((withArea_settles 123 server.giveArea
      settles).returned fuel _ served).symm
    intro ptr member found answer server'
    exact tidy.counts member (allowed ptr found) fun area count => giveArea_of_live
  | increment addr =>
    have settles := Areas.getArea_settles linked addr
    simp only [Allowed, FindsArea, settles.exists_iff, Except.ok.injEq]
      at allowed
    refine tidy.onArea ?_ ((withArea_settles 123 _ settles).returned fuel _ served).symm
    intro ptr member found answer server'
    apply tidy.counts member (allowed ptr found)
    intro area count live counted
    rw [addReference_of_live live counted]
    exact ⟨_, rfl⟩
  | release addr released =>
    have settles := Areas.getArea_settles linked addr
    simp only [Allowed, FindsArea, settles.exists_iff, Except.ok.injEq]
      at allowed
    refine tidy.onArea ?_ ((withArea_settles 487 _ settles).returned fuel _ served).symm
    intro ptr member found answer server'
    exact tidy.releases member (allowed ptr found)

theorem alloc {size : Nat} {rights : UInt32} {reserved : Option (Nat × Nat)} {room : Bool}
    (new : reserved = none ∨ room = false ∨ ∀ other ∈ addresses,
      server.areas.namedAt name other = false)
    (done : server.excAllocSharedMem size (some name) rights reserved room =
      .ok (answer, server')) : ∃ others, server'.Tidy others := by
  unfold excAllocSharedMem at done
  match reserved, room, new with
  | none, _, _ =>
    cases done
    exact ⟨addresses, tidy⟩
  | some range, false, _ =>
    cases done
    exact ⟨addresses, tidy⟩
  | some (addr, area), true, new =>
    have new := (new.resolve_left (by simp)).resolve_left (by simp)
    by_cases fits : name.length < 256
    · have stored := tidy.sound.pushed
        { name := some name, isShared := none, owner := none
          refcnt := some 1, rights, area, addr, size, next := none
          prev := none } rfl rfl
      obtain ⟨areas, pushed, sound, data, others⟩ := stored
      simp only [copyName, if_true, if_pos fits, map_ok, bind_ok, pushed]
        at done
      cases done
      refine ⟨server.areas.fresh :: addresses, sound, ?_⟩
      have freshName : ∀ name', areas.namedAt name' server.areas.fresh =
          true → name' = name := by
        intro name' named
        obtain ⟨record, found, kept⟩ := Option.map_eq_some_iff.mp data
        have isName : record.name = some name := congrArg VmData.name kept
        unfold Areas.namedAt at named
        rw [found, Option.any_some, isName, Option.any_some, decide_eq_true_iff] at named
        exact named.2.symm
      have oldName : ∀ address ∈ addresses, ∀ name', areas.namedAt name' address =
            server.areas.namedAt name' address := by
        intro address member name'
        obtain ⟨old, live⟩ := Areas.live_of_linked tidy.sound.linked address member
        exact namedAt_congr (others address (Nat.ne_of_lt (Heap.lt_fresh live))) name'
      intro ptr member other member' name' named named'
      rcases List.mem_cons.mp member with rfl | old
      · rcases List.mem_cons.mp member' with rfl | old'
        · rfl
        · rw [oldName other old', freshName name' named, new other old']
            at named'
          cases named'
      · rcases List.mem_cons.mp member' with rfl | old'
        · rw [oldName ptr old, freshName name' named', new ptr old] at named
          cases named
        · rw [oldName ptr old] at named
          rw [oldName other old'] at named'
          exact tidy.distinct ptr old other old' name' named named'
    · simp only [copyName, if_true, if_neg fits] at done
      cases done

end

end Tidy

section

variable {own own' : OwnAreas} {area : VmData}

theorem Searchable.addOwn (searchable : own.Searchable)
    (named : area.name = some name) (done : own.addOwn area = .ok own') :
    own'.Searchable := by
  obtain ⟨addresses, linked, names⟩ := searchable
  obtain ⟨areas, pushed, equal⟩ := map_eq_ok_iff.mp done
  cases equal
  obtain ⟨areas', pushed', linked', data, others⟩ := Areas.push_linked linked area
  rw [pushed] at pushed'
  cases pushed'
  refine ⟨_, linked', ?_⟩
  intro address member record found
  by_cases here : address = own.areas.fresh
  · rw [here] at found
    rw [found] at data
    exact ⟨name, (congrArg VmData.name (Option.some.inj data)).trans named⟩
  · have same : areas.Named [address] := by
      apply names.congr
      intro other inside
      rw [List.mem_singleton.mp inside]
      exact ⟨(List.mem_cons.mp member).resolve_left here, others address here⟩
    exact same address (List.mem_singleton_self address) record found

theorem Searchable.change (searchable : own.Searchable) (ptr : Nat)
    (f : VmData → UInt32) : Searchable { own with
        areas := own.areas.change ptr fun area => { area with rights := f area } } := by
  obtain ⟨addresses, linked, names⟩ := searchable
  refine ⟨addresses, Areas.change_linked linked ptr fun _ => ⟨rfl, rfl⟩, ?_⟩
  intro address member record found
  by_cases here : address = ptr
  · rw [here, Heap.change_objects_self] at found
    obtain ⟨old, live, rfl⟩ := Option.map_eq_some_iff.mp found
    exact names address member old (here ▸ live)
  · rw [Heap.change_objects_of_ne _ here] at found
    exact names address member record found

theorem Searchable.unlink {addresses : List Nat}
    (linked : own.areas.WellLinked own.areasList addresses)
    (names : own.areas.Named addresses) (member : ptr ∈ addresses)
    (notHead : own.areasList ≠ some ptr) {areas : Areas}
    (unlinked : own.areas.unlink ptr = .ok areas) :
    Searchable { own with areas } := by
  have nodup := Areas.nodup_of_linked linked
  have head := linked.head_eq
  obtain ⟨front, back, rfl⟩ := List.append_of_mem member
  obtain ⟨areas', head', unlinked', linked', sameHead, -, -, data⟩ := Areas.unlink_linked linked
  rw [unlinked] at unlinked'
  cases unlinked'
  have inside : front ≠ [] := by
    rintro rfl
    exact notHead head
  rw [sameHead inside] at linked'
  refine ⟨front ++ back, linked', names.congr ?_⟩
  intro address kept
  have outside := (List.nodup_cons.mp (List.nodup_middle.mp nodup)).1
  refine ⟨?_, data address ?_⟩
  · rw [List.mem_append, List.mem_cons]
    exact (List.mem_append.mp kept).imp_right Or.inr
  · rintro rfl
    exact outside kept

theorem Searchable.takeArea (searchable : own.Searchable) {anywhere : Bool}
    {addr size : Nat} {owner : Option Nat} {flags rc : UInt32}
    {outcome : GetOutcome}
    (done : own.takeArea name anywhere addr size owner flags outcome fuel =
      some (.ok (rc, own'))) : own'.Searchable := by
  obtain ⟨found, search, done⟩ := andThen_eq_ok_iff.mp done
  cases found with
  | some ptr =>
    obtain ⟨areas, modified, equal⟩ := map_eq_ok_iff.mp (Option.some.inj done)
    cases equal
    obtain ⟨area, -, rfl⟩ := map_eq_ok_iff.mp modified
    exact searchable.change ptr fun area => area.rights ||| flags
  | none =>
    simp only at done
    split at done
    · cases done
      exact searchable
    · split at done
      · obtain ⟨copied, -, done⟩ := bind_eq_ok_iff.mp (Option.some.inj done)
        obtain ⟨added, adds, done⟩ := bind_eq_ok_iff.mp done
        cases done
        exact searchable.addOwn rfl adds
      · cases done
        exact searchable

end

end AreaServer

namespace AreaSystem

/-- The list of the server is tidy, and those of the processes can be
searched. -/
structure Sound (system : AreaSystem) : Prop where
  server : ∃ addresses, system.server.Tidy addresses
  own : ∀ process, (system.own process).Searchable

variable {system system' : AreaSystem} {process fuel ptr : Nat} {rc : UInt32} {name : Name}

theorem Sound.initial : AreaSystem.initial.Sound where
  server := ⟨[], AreaServer.Tidy.initial⟩
  own := fun _ => ⟨[], rfl, by simp [Areas.Named]⟩

variable {server : AreaServer} {size : Nat} {flags : UInt32} {outcome : AllocOutcome}

theorem Sound.after (sound : system.Sound)
    {own : OwnAreas} (tidy : ∃ addresses, server.Tidy addresses)
    (searchable : own.Searchable) :
    (system.after process server own).Sound where
  server := tidy
  own := by
    intro other
    change AreaServer.Searchable (if other = process then own else system.own other)
    split
    · exact searchable
    · exact sound.own other

theorem after_self (process : Nat) :
    system.after process system.server (system.own process) = system := by
  have own : (fun other => if other = process then system.own process
      else system.own other) = system.own := by
    funext other
    split
    · rw [‹other = process›]
    · rfl
  unfold after
  rw [own]

theorem live_iff {addresses : List Nat} (sound : system.server.Sound addresses) :
    system.server.areas.namedAt name ptr = true ∧ ptr ∈ addresses ↔
      name ≠ [] ∧ system.Live ptr name := by
  unfold Areas.namedAt Live
  constructor
  · rintro ⟨named, member⟩
    obtain ⟨area, count, found, counted, positive⟩ := sound.count member
    obtain ⟨stored, isName⟩ := sound.named ptr member area found
    rw [found, Option.any_some, isName, Option.any_some, decide_eq_true_iff]
      at named
    obtain ⟨nonempty, rfl⟩ := named
    exact ⟨nonempty, area, found, isName, count, positive, counted⟩
  · rintro ⟨nonempty, area, found, isName, count, positive, counted⟩
    refine ⟨?_, (sound.counted ptr).mpr ⟨count, positive, area, found, counted⟩⟩
    rw [found, Option.any_some, isName, Option.any_some, decide_eq_true_iff]
    exact ⟨nonempty, rfl⟩

theorem Sound.allocNew (sound : system.Sound)
    (new : outcome.reserved = none ∨ outcome.room = false ∨ name = [] ∨
      ∀ ptr, ¬ system.Live ptr name)
    (done : system.allocNew process name size flags outcome =
      .ok (rc, system')) : system'.Sound := by
  obtain ⟨addresses, tidy⟩ := sound.server
  obtain ⟨⟨answer, server⟩, asked, done⟩ := bind_eq_ok_iff.mp done
  have tidy' : ∃ others, server.Tidy others := by
    refine tidy.alloc (new.imp_right (Or.imp_right ?_)) asked
    intro unused other member
    apply Bool.eq_false_iff.mpr
    intro named
    obtain ⟨nonempty, live⟩ := (live_iff tidy.sound).mp ⟨named, member⟩
    rcases unused with empty | none
    · exact nonempty empty
    · exact none other live
  have own := sound.own process
  simp only at done
  split at done
  · cases done
    exact sound.after tidy' own
  · obtain ⟨addr, -, done⟩ := bind_eq_ok_iff.mp done
    split at done
    · cases done
      exact sound.after tidy' own
    · split at done
      · obtain ⟨copied, -, done⟩ := bind_eq_ok_iff.mp done
        obtain ⟨added, adds, done⟩ := bind_eq_ok_iff.mp done
        cases done
        exact sound.after tidy' (own.addOwn rfl adds)
      · cases done
        exact sound.after tidy' own

theorem own_settles (searchable : (system.own process).Searchable) (name : Name) :
    ∃ found, Settles ((system.own process).areas.getMemByName
      (system.own process).areasList name) (.ok found) := by
  obtain ⟨addresses, linked, named⟩ := searchable
  exact ⟨_, Areas.getMemByName_settles linked named name⟩

theorem Sound.alloc (sound : system.Sound) {asked : Option Name}
    (allowed : system.Allowed process (.alloc asked size flags outcome))
    (done : system.kalAllocSharedMem process asked size flags outcome fuel =
      some (.ok (rc, system'))) : system'.Sound := by
  cases asked with
  | none =>
    refine sound.allocNew ?_ (Option.some.inj done)
    exact Or.inr (Or.inr (Or.inl rfl))
  | some name =>
    unfold kalAllocSharedMem at done
    simp only at done
    split at done
    · have allowed := allowed (name.map toUpper) (if_pos ‹_›)
      obtain ⟨found, search, done⟩ := andThen_eq_ok_iff.mp done
      cases found with
      | some ptr =>
        cases done
        exact sound
      | none =>
        refine sound.allocNew ?_ (Option.some.inj done)
        rcases allowed with ⟨ptr, fuel', found⟩ | none | full | ⟨-, unused⟩
        · obtain ⟨result, settles⟩ := own_settles (sound.own process) (name.map toUpper)
          have first := settles.returned fuel _ search
          have second := settles.returned fuel' _ found
          rw [← first] at second
          cases second
        · exact Or.inl none
        · exact Or.inr (Or.inl full)
        · exact Or.inr (Or.inr unused)
    · cases done
      exact sound

theorem Sound.releaseShared (sound : system.Sound) {shared : Bool}
    {addr : Nat} {released refcnt : UInt32}
    (allowed : shared = true → system.server.Allowed (.release addr released))
    (done : system.releaseShared shared addr released fuel =
      some (.ok (refcnt, server))) : ∃ others, server.Tidy others := by
  obtain ⟨addresses, tidy⟩ := sound.server
  cases shared with
  | false =>
    cases done
    exact ⟨addresses, tidy⟩
  | true =>
    obtain ⟨⟨answer, server'⟩, served, done⟩ := andThen_eq_ok_iff.mp done
    cases done
    apply tidy.serve (allowed rfl) served
    intro size name rights reserved room equal
    cases equal

theorem refcnt_ne_zero {addresses : List Nat} {addr found : Nat} {released refcnt : UInt32}
    (sound : system.server.Sound addresses)
    (finds : system.server.FindsArea addr found)
    (more : ¬ system.server.HasCount found 1)
    (done : system.releaseShared true addr released fuel =
      some (.ok (refcnt, server))) : refcnt ≠ 0 := by
  have settles := Areas.getArea_settles sound.linked addr
  have search := Except.ok.inj ((settles.exists_iff _).mp finds)
  obtain ⟨area, count, live, counted, -⟩ := sound.count (List.mem_of_find?_eq_some search)
  have left : count - 1 ≠ 0 := by
    intro zero
    apply more
    refine ⟨area, live, counted.trans (congrArg some ?_)⟩
    calc count = count - 1 + 1 := (UInt32.sub_add_cancel count 1).symm
      _ = 1 := by rw [zero, UInt32.zero_add]
  obtain ⟨⟨answer, server'⟩, served, done⟩ := andThen_eq_ok_iff.mp done
  have run := (AreaServer.withArea_settles 487
    (system.server.releaseArea released) settles).returned fuel _ served
  rw [search] at run
  rw [show system.server.onArea 487 (system.server.releaseArea released)
    (some found) = _ from AreaServer.releaseArea_of_more released live counted left] at run
  cases run
  cases done
  exact left

section

variable (sound : system.Sound)

include sound

theorem Sound.free {pb : Nat} {outcome : FreeOutcome}
    (allowed : system.Allowed process (.free pb outcome))
    (done : system.kalFreeMem process pb outcome fuel =
      some (.ok (rc, system'))) : system'.Sound := by
  obtain ⟨found, search, done⟩ := andThen_eq_ok_iff.mp done
  cases found with
  | none =>
    cases done
    exact sound
  | some ptr =>
    obtain ⟨area, read, done⟩ := andThen_eq_ok_iff.mp done
    obtain ⟨shared, isShared, done⟩ := andThen_eq_ok_iff.mp done
    obtain ⟨⟨refcnt, server⟩, released, done⟩ := andThen_eq_ok_iff.mp done
    have live := Heap.read_eq_ok_iff.mp (Option.some.inj read)
    have sharedEq : area.isShared = some shared := by
      cases isStored : area.isShared with
      | none =>
        rw [isStored] at isShared
        cases isShared
      | some value =>
        rw [isStored] at isShared
        cases isShared
        rfl
    obtain ⟨release, keepsHead⟩ := allowed ptr area ⟨fuel, search⟩ live
    have tidy : ∃ others, server.Tidy others :=
      sound.releaseShared (fun equal => release (equal ▸ sharedEq)) released
    have own := sound.own process
    simp only at done
    split at done
    · cases done
      exact sound.after tidy own
    · split at done
      · cases done
        exact sound.after tidy own
      · split at done
        · cases done
          exact sound.after tidy own
        · rename_i detached last ownReleased
          obtain ⟨areas, unlinked, equal⟩ := map_eq_ok_iff.mp (Option.some.inj done)
          cases equal
          obtain ⟨addresses, linked, named⟩ := own
          have found := (Areas.getArea_settles linked pb).returned fuel _ search
          have member := List.mem_of_find?_eq_some (Except.ok.inj found).symm
          refine sound.after tidy (AreaServer.Searchable.unlink linked named member ?_ unlinked)
          intro head
          rcases keepsHead head with stopped | kept | ⟨isTrue, other, finds, more⟩
          · simp [stopped] at detached
          · simp [kept] at ownReleased
          · obtain ⟨others, tidyBefore⟩ := sound.server
            rw [sharedEq] at isTrue
            cases isTrue
            exact last (refcnt_ne_zero tidyBefore.sound finds more released)

theorem Sound.answered {anywhere : Bool} {outcome : GetOutcome} {answer : Answer}
    (tidy : ∃ addresses, server.Tidy addresses)
    (done : system.getAnswered process name anywhere flags outcome fuel answer
      server = some (.ok (rc, system'))) : system'.Sound := by
  have own := sound.own process
  unfold getAnswered at done
  split at done
  · cases done
    exact sound.after tidy own
  · obtain ⟨addr, -, done⟩ := andThen_eq_ok_iff.mp done
    obtain ⟨size, -, done⟩ := andThen_eq_ok_iff.mp done
    obtain ⟨⟨code, taken⟩, takes, done⟩ := andThen_eq_ok_iff.mp done
    cases done
    exact sound.after tidy (own.takeArea takes)

theorem Sound.step (step : AllowedStep system system') : system'.Sound := by
  obtain ⟨process, call, fuel, rc, allowed, done⟩ := step
  cases call with
  | alloc name size flags outcome => exact sound.alloc allowed done
  | free pb outcome => exact sound.free allowed done
  | get pb flags outcome =>
    obtain ⟨addresses, tidy⟩ := sound.server
    obtain ⟨⟨answer, server⟩, served, done⟩ := andThen_eq_ok_iff.mp done
    have isAllowed : system.server.Allowed (.get pb) := allowed
    refine sound.answered (tidy.serve isAllowed served ?_) done
    intro size name rights reserved room equal
    cases equal
  | getNamed name flags outcome =>
    obtain ⟨addresses, tidy⟩ := sound.server
    unfold call kalGetNamedSharedMem at done
    simp only at done
    split at done
    · obtain ⟨⟨answer, server⟩, served, done⟩ := andThen_eq_ok_iff.mp done
      refine sound.answered (tidy.serve (allowed ‹_›) served ?_) done
      intro size name rights reserved room equal
      cases equal
    · cases done
      exact sound

theorem Sound.finds_iff :
    system.server.FindsName name ptr ↔ name ≠ [] ∧ system.Live ptr name := by
  obtain ⟨addresses, tidy⟩ := sound.server
  have settles := Areas.getMemByName_settles tidy.sound.linked tidy.sound.named name
  unfold AreaServer.FindsName
  rw [settles.exists_iff, Except.ok.injEq, ← live_iff tidy.sound]
  constructor
  · intro found
    exact ⟨List.find?_some found, List.mem_of_find?_eq_some found⟩
  · rintro ⟨named, member⟩
    cases found : addresses.find? (system.server.areas.namedAt name) with
    | none => exact absurd named (List.find?_eq_none.mp found ptr member)
    | some other =>
      rw [tidy.distinct other (List.mem_of_find?_eq_some found) ptr member
        name (List.find?_some found) named]

theorem Sound.gets {area : VmData} (nonempty : name ≠ []) (isLive : system.Live ptr name)
    (found : system.server.areas.objects ptr = some area) :
    ∃ fuel answer server', system.server.excGetNamedSharedMem name fuel =
      some (.ok (answer, server')) ∧ answer.rc = 0 ∧
        answer.addr = some area.addr ∧ answer.size = some area.size := by
  obtain ⟨fuel, finds⟩ := sound.finds_iff.mpr ⟨nonempty, isLive⟩
  obtain ⟨live, foundLive, -, count, -, counted⟩ := isLive
  rw [found] at foundLive
  cases foundLive
  have given : system.server.giveArea ptr =
      .ok ({ rc := 0, addr := some area.addr, size := some area.size
             owner := area.owner },
        system.server.withCount ptr (count + 1)) := by
    unfold AreaServer.giveArea
    rw [AreaServer.addReference_of_live found counted, bind_ok,
      Heap.read_of_live (AreaServer.withCount_objects_self found _)]
    rfl
  refine ⟨fuel, _, _, andThen_eq_ok_iff.mpr ⟨some ptr, finds, congrArg some given⟩, rfl, rfl, rfl⟩

theorem Sound.refused (nonempty : name.map toUpper ≠ []) (live : system.Live ptr (name.map toUpper))
    (allowed : system.Allowed process (.alloc (some name) size flags outcome)) :
    ∃ fuel rc, rc ≠ 0 ∧ system.call process fuel
      (.alloc (some name) size flags outcome) = some (.ok (rc, system)) := by
  by_cases fits : sharemem <+: name.map toUpper
  · obtain ⟨found, settles⟩ := own_settles (sound.own process) (name.map toUpper)
    obtain ⟨fuel, search⟩ := (settles.exists_iff found).mpr rfl
    cases found with
    | some other =>
      refine ⟨fuel, 183, by decide, ?_⟩
      unfold call kalAllocSharedMem
      simp only [if_pos fits, search]
      rfl
    | none =>
      refine ⟨fuel, 8, by decide, ?_⟩
      have full : outcome.reserved = none ∨ outcome.room = false := by
        rcases allowed (name.map toUpper) (if_pos fits) with
          ⟨other, fuel', found⟩ | none | full | ⟨-, empty | unused⟩
        · cases settles.returned fuel' _ found
        · exact Or.inl none
        · exact Or.inr full
        · exact absurd empty nonempty
        · exact absurd live (unused ptr)
      have failed : ∃ answer, answer.rc = 8 ∧
          system.server.excAllocSharedMem size (some (name.map toUpper)) flags
            outcome.reserved outcome.room = .ok (answer, system.server) := by
        cases reserved : outcome.reserved with
        | none => exact ⟨_, rfl, rfl⟩
        | some range =>
          have full := full.resolve_left (by simp [reserved])
          rw [full]
          exact ⟨_, rfl, rfl⟩
      obtain ⟨answer, code, failed⟩ := failed
      unfold call kalAllocSharedMem
      simp only [if_pos fits, search]
      unfold andThen
      unfold AreaSystem.allocNew
      rw [failed, bind_ok]
      simp only [code]
      rw [if_pos (by decide), after_self]
      rfl
  · refine ⟨0, 123, by decide, ?_⟩
    unfold call kalAllocSharedMem
    simp only [if_neg fits]

theorem Sound.namesUnique : system.NamesUnique where
  unique := by
    intro ptr other name nonempty live live'
    obtain ⟨addresses, tidy⟩ := sound.server
    obtain ⟨named, member⟩ := (live_iff tidy.sound).mpr ⟨nonempty, live⟩
    obtain ⟨named', member'⟩ := (live_iff tidy.sound).mpr ⟨nonempty, live'⟩
    exact tidy.distinct ptr member other member' name named named'
  finds := fun _ _ => sound.finds_iff
  gets := fun _ _ _ => sound.gets
  unnamed := by
    intro ptr live name finds
    obtain ⟨nonempty, area, found, isName, -⟩ := sound.finds_iff.mp finds
    obtain ⟨area', found', unnamed, -⟩ := live
    rw [found] at found'
    cases found'
    rw [isName] at unnamed
    exact nonempty (Option.some.inj unnamed)
  refused := fun _ _ _ _ _ _ => sound.refused

end

/-- Along every run of allowed calls of any processes the names of the shared
areas are unique. -/
theorem namesUnique_of_run (run : RunsTo AllowedStep initial system) :
    system.NamesUnique := by
  apply Sound.namesUnique
  induction run with
  | refl => exact Sound.initial
  | tail _ step ih => exact ih.step step

/-- `\SHAREMEM\` and one more letter. -/
def sharedName (letter : UInt8) : Name := sharemem ++ [letter]

/-- A page is reserved at an address. -/
def pageReserved (addr : Nat) : AllocOutcome :=
  { reserved := some (addr, 1), room := true, area := some 1, ownRoom := true
    committed := 0 }

/-- A process allocates a page with a name. -/
def allocPage (letter : UInt8) (addr : Nat) : ProcessCall :=
  .alloc (some (sharedName letter)) 0x1000 3 (pageReserved addr)

/-- The system after a process has allocated the first area. -/
def firstShared : AreaSystem := initial.after 0
    { areas := Heap.empty.malloc
        (AreaServer.namedArea (sharedName 0x41) 0x60000000 none)
      areasList := some 0 }
    { areas := Heap.empty.malloc
        { AreaServer.namedArea (sharedName 0x41) 0x60000000 none with
          isShared := some true, owner := some 0, refcnt := none }
      areasList := some 0 }

/-- Two processes allocate areas with different names. -/
theorem differentNames_unique : ∃ system, RunsTo AllowedStep initial system ∧
      firstShared.call 1 1 (allocPage 0x42 0x60010000) =
        some (.ok (0, system)) ∧ system.NamesUnique := by
  have first : AllowedStep initial firstShared := by
    refine ⟨0, allocPage 0x41 0x60000000, 1, 0, ?_, rfl⟩
    intro asked request
    have equal : asked = sharedName 0x41 := Option.some.inj
      (request.symm.trans (by decide : _ = some (sharedName 0x41)))
    refine Or.inr (Or.inr (Or.inr ⟨by rw [equal]; decide, Or.inr ?_⟩))
    rintro ptr ⟨area, found, -⟩
    cases found
  have allowed : firstShared.Allowed 1 (allocPage 0x42 0x60010000) := by
    intro asked request
    have equal : asked = sharedName 0x42 := Option.some.inj
      (request.symm.trans (by decide : _ = some (sharedName 0x42)))
    refine Or.inr (Or.inr (Or.inr ⟨by rw [equal]; decide, Or.inr ?_⟩))
    rintro ptr ⟨area, found, isName, -⟩
    have live : ptr = 0 := by
      have small := Heap.lt_fresh found
      exact Nat.lt_one_iff.mp small
    subst live
    cases found
    rw [equal] at isName
    exact absurd isName (by decide)
  have returned : ∃ system, firstShared.call 1 1 (allocPage 0x42 0x60010000) =
      some (.ok (0, system)) := ⟨_, rfl⟩
  obtain ⟨system, returned⟩ := returned
  have run : RunsTo AllowedStep initial system :=
    (Relation.ReflTransGen.single first).tail ⟨1, _, 1, 0, allowed, returned⟩
  exact ⟨system, run, returned, namesUnique_of_run run⟩

/-- Two processes allocate areas with the same name. -/
theorem sameName_not_unique : ∃ middle system,
      initial.call 0 1 (allocPage 0x41 0x60000000) = some (.ok (0, middle)) ∧
        middle.call 1 1 (allocPage 0x41 0x60010000) = some (.ok (0, system)) ∧
        ¬ system.NamesUnique := by
  refine ⟨_, _, rfl, rfl, ?_⟩
  intro names
  have same := names.unique 0 1 (sharedName 0x41) (by decide)
    ⟨_, rfl, rfl, 1, by decide, rfl⟩ ⟨_, rfl, rfl, 1, by decide, rfl⟩
  cases same

end AreaSystem

end OsFree.Exec
