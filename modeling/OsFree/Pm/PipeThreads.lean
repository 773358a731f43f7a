import OsFree.Machine.Slots
import OsFree.Machine.Transition

/-!
# The threads of the pipe server

For each client, the server has a thread with a slot of its own.  A thread whose
client has come starts the next one.  The new thread reads its slot under the
lock, and then the one that has started it registers it, under the lock again.
Threads may end in between.
-/

namespace OsFree.Pm

open Machine

/-- The largest number of threads. -/
abbrev FREEPMS_MAX_NUM_THREADS : Nat := 32

/-- A slot of a thread. -/
abbrev ThreadSlot := Fin FREEPMS_MAX_NUM_THREADS

/-- The table of threads. -/
structure LS_threads where
  n : Nat
  num : Int
  next_free : ThreadSlot
  working : Int
  Nclients : Int
  thread_id : ThreadSlot → Int
  state : ThreadSlot → Int

namespace LS_threads

/-- The table that the server starts with. -/
def fresh : LS_threads := ⟨0, 0, 0, 0, 0, fun _ => -1, fun _ => 0⟩

/-- The first free slot is the next. -/
def searchFree (threads : LS_threads) : LS_threads :=
  match Slots.slotOf threads.thread_id (-1) with
  | some i => { threads with next_free := i }
  | none => threads

/-- The first free slot from the next one on is the next. -/
def searchFrom (threads : LS_threads) : LS_threads :=
  match ((List.finRange FREEPMS_MAX_NUM_THREADS).map
    (· + threads.next_free)).find? fun i => threads.thread_id i == -1 with
  | some i => { threads with next_free := i }
  | none => threads

/-- A new thread takes the next slot. -/
def takeSlot (threads : LS_threads) : LS_threads := { threads with
    state := Function.update threads.state threads.next_free (-1)
    n := max threads.n threads.next_free }

/-- A thread registers the one that it has started. -/
def register (threads : LS_threads) (id : Int) : LS_threads := searchFree { threads with
      Nclients := threads.Nclients + 1
      working := 1
      num := threads.num + 1
      thread_id := Function.update threads.thread_id threads.next_free id }

/-- `_startServerThreads` registers the first thread. -/
def registerFirst (threads : LS_threads) (id : Int) : LS_threads := searchFrom
    { threads with
      num := threads.num + 1
      thread_id := Function.update threads.thread_id threads.next_free id }

/-- A thread leaves its slot. -/
def endThread (threads : LS_threads) (threadNum : ThreadSlot) : LS_threads :=
  let thread_id := Function.update threads.thread_id threadNum (-1)
  let next_free :=
    if thread_id threads.next_free ≠ -1 ∨ threads.next_free > threadNum then
      threadNum
    else threads.next_free
  let threads := searchFree { threads with
      num := threads.num - 1
      thread_id
      state := Function.update threads.state threadNum (-1)
      next_free
      n := max threads.n threadNum }
  { threads with Nclients := threads.Nclients - 1 }

end LS_threads

/-- How far the start of a thread is.  The counter `ThreadStart` is three when
none starts, one until the new thread has its slot, and then two.  The first
thread is started by none. -/
inductive Starting where
  | none
  | begun (creator : Option Int) (id : Int)
  | took (creator : Option Int) (id : Int) (slot : ThreadSlot)

/-- The thread that starts another one. -/
def Starting.creator : Starting → Option Int
  | .none => Option.none
  | .begun creator _ => creator
  | .took creator _ _ => creator

/-- The table, the threads that work with the slots that they have read, and the
one that is being started. -/
structure PipeServer where
  threads : LS_threads
  live : List (Int × ThreadSlot)
  starting : Starting

namespace PipeServer

/-- The server when it begins its first thread. -/
def start (id : Int) : PipeServer := ⟨.fresh, [], .begun none id⟩

/-- What threads do under the lock, and the begin of a thread. -/
inductive Event where
  | begin (creator id : Int)
  | take
  | register
  | finish (id : Int) (slot : ThreadSlot)

/-- The server after an event.  No thread has the id that marks a free slot; a
thread that starts another one does not end before it has registered it. -/
inductive Step : PipeServer → Event → PipeServer → Prop
  | begin {server : PipeServer} {creator id : Int} {slot : ThreadSlot} :
      server.starting = .none → (creator, slot) ∈ server.live → id ≠ -1 →
        Step server (.begin creator id)
          { server with starting := .begun (some creator) id }
  | take {server : PipeServer} {creator : Option Int} {id : Int} :
      server.starting = .begun creator id → Step server .take { server with
            threads := server.threads.takeSlot
            starting := .took creator id server.threads.next_free }
  | register {server : PipeServer} {creator id : Int} {slot : ThreadSlot} :
      server.starting = .took (some creator) id slot → Step server .register
          { threads := server.threads.register id
            live := (id, slot) :: server.live
            starting := .none }
  | registerFirst {server : PipeServer} {id : Int} {slot : ThreadSlot} :
      server.starting = .took none id slot → Step server .register
          { threads := server.threads.registerFirst id
            live := (id, slot) :: server.live
            starting := .none }
  | finish {server : PipeServer} {id : Int} {slot : ThreadSlot} :
      (id, slot) ∈ server.live → server.starting.creator ≠ some id →
        Step server (.finish id slot) { server with
            threads := server.threads.endThread slot
            live := server.live.erase (id, slot) }

/-- A new thread takes the next slot while it is free; and while a thread has its
slot but is not registered, no thread before it ends. -/
def Allows (server : PipeServer) : Event → Prop
  | .take => server.threads.thread_id server.threads.next_free = -1
  | .finish _ slot => ∀ creator id taken, server.starting = .took creator id taken → taken < slot
  | _ => True

/-- A step that keeps the table right. -/
def AllowedStep (server server' : PipeServer) : Prop :=
  ∃ event, server.Allows event ∧ Step server event server'

/-- The threads that work have distinct slots; the table has the ids of these
threads, and marks the slots of none as free; the next slot is free if one is; and
a thread that is started is in the slot of none. -/
structure Kept (server : PipeServer) : Prop where
  slots : (server.live.map Prod.snd).Nodup
  ids : ∀ id slot, (id, slot) ∈ server.live → server.threads.thread_id slot = id
  free : ∀ slot, server.threads.thread_id slot = -1 ↔ ∀ id, (id, slot) ∉ server.live
  next : (∃ slot, server.threads.thread_id slot = -1) →
    server.threads.thread_id server.threads.next_free = -1
  taken : ∀ creator id slot, server.starting = .took creator id slot →
    ∀ id', (id', slot) ∉ server.live

/-- Whatever is started, the next slot is the first that is free, and a thread
that has its slot is there. -/
structure Sound (server : PipeServer) : Prop where
  kept : server.Kept
  lowest : server.threads.thread_id server.threads.next_free = -1 →
    ∀ i, i < server.threads.next_free → server.threads.thread_id i ≠ -1
  took : ∀ creator id slot, server.starting = .took creator id slot →
    slot = server.threads.next_free ∧ server.threads.thread_id slot = -1
  begun : ∀ creator id, server.starting = .begun creator id → id ≠ -1 ∧
    (creator = none → server.threads.next_free = 0 ∧ server.live = [])
  registers : ∀ creator id slot, server.starting = .took creator id slot → id ≠ -1 ∧
      (creator = none → server.threads.next_free = 0 ∧ server.live = [])

end PipeServer

namespace LS_threads

variable {threads : LS_threads}

@[simp] theorem thread_id_searchFree :
    threads.searchFree.thread_id = threads.thread_id := by
  unfold searchFree
  split
  · rfl
  · rfl

theorem thread_id_endThread (threads : LS_threads) (slot : ThreadSlot) :
    (threads.endThread slot).thread_id =
      Function.update threads.thread_id slot (-1) := by
  simp [endThread]

theorem searchFrom_zero (zero : threads.next_free = 0) :
    threads.searchFrom = threads.searchFree := by
  simp only [searchFrom, searchFree, Slots.slotOf, zero, Fin.add_zero, List.map_id']
  rfl

theorem next_free_searchFree {slot : ThreadSlot} (free : threads.thread_id slot = -1)
    (before : ∀ i, i < slot → threads.thread_id i ≠ -1) :
    threads.searchFree.next_free = slot := by
  rw [searchFree, Slots.slotOf_eq_some_iff.mpr ⟨free, before⟩]

theorem lowest_searchFree (threads : LS_threads)
    (free : ∃ slot, threads.searchFree.thread_id slot = -1) :
    threads.searchFree.thread_id threads.searchFree.next_free = -1 ∧
      ∀ i, i < threads.searchFree.next_free →
        threads.searchFree.thread_id i ≠ -1 := by
  rw [thread_id_searchFree] at free ⊢
  unfold searchFree
  cases found : Slots.slotOf threads.thread_id (-1) with
  | some i => exact Slots.slotOf_eq_some_iff.mp found
  | none =>
    obtain ⟨slot, free⟩ := free
    exact absurd free (Slots.slotOf_eq_none_iff.mp found slot)

theorem lowest_endThread (threads : LS_threads) (slot : ThreadSlot) :
    (threads.endThread slot).thread_id (threads.endThread slot).next_free = -1 ∧
      ∀ i, i < (threads.endThread slot).next_free →
        (threads.endThread slot).thread_id i ≠ -1 := by
  refine lowest_searchFree _ ⟨slot, ?_⟩
  rw [thread_id_searchFree]
  exact Function.update_self ..

theorem next_free_endThread {threads : LS_threads} {slot : ThreadSlot}
    (before : ∀ i, i < slot → threads.thread_id i ≠ -1) :
    (threads.endThread slot).next_free = slot := by
  refine next_free_searchFree (Function.update_self ..) fun i less => ?_
  dsimp only
  rw [Function.update_of_ne (Fin.ne_of_lt less)]
  exact before i less

end LS_threads

namespace PipeServer

variable {server server' : PipeServer} {event : Event} {id : Int}

theorem start_sound (valid : id ≠ -1) : (start id).Sound where
  kept :=
    { slots := List.nodup_nil
      ids := by simp [start]
      free := by simp [start, LS_threads.fresh]
      next := fun _ => rfl
      taken := by simp [start] }
  lowest := fun _ i less => absurd less (Nat.not_lt_zero i.val)
  took := by simp [start]
  begun := by
    intro creator id' same
    cases same
    exact ⟨valid, fun _ => ⟨rfl, rfl⟩⟩
  registers := by simp [start]

theorem Sound.registered (sound : server.Sound) {creator : Option Int}
    {slot : ThreadSlot} (took : server.starting = .took creator id slot)
    {threads : LS_threads}
    (ids : threads.thread_id = Function.update server.threads.thread_id server.threads.next_free id)
    (search : (∃ slot, threads.thread_id slot = -1) → threads.thread_id threads.next_free = -1 ∧
        ∀ i, i < threads.next_free → threads.thread_id i ≠ -1) :
    Sound ⟨threads, (id, slot) :: server.live, .none⟩ := by
  obtain ⟨rfl, unused⟩ := sound.took _ _ _ took
  have absent := (sound.kept.free _).mp unused
  have valid := (sound.registers _ _ _ took).1
  constructor
  · constructor
    · refine List.nodup_cons.mpr ⟨?_, sound.kept.slots⟩
      intro member
      obtain ⟨⟨id', slot'⟩, member, same⟩ := List.mem_map.mp member
      cases same
      exact absent id' member
    · intro id' slot' member
      rw [ids, Function.update_apply]
      rcases List.mem_cons.mp member with same | member
      · cases same
        rw [if_pos rfl]
      · rw [if_neg, sound.kept.ids id' slot' member]
        rintro rfl
        exact absent id' member
    · intro slot'
      dsimp only
      rw [ids, Function.update_apply]
      split
      · rename_i same
        rw [same]
        exact iff_of_false valid fun none => none id (List.mem_cons_self ..)
      · rename_i other
        rw [sound.kept.free slot']
        apply forall_congr'
        intro id'
        simp [other]
    · exact fun free => (search free).1
    · exact fun _ _ _ none => by cases none
  · exact fun free => (search ⟨_, free⟩).2
  · exact fun _ _ _ none => by cases none
  · exact fun _ _ none => by cases none
  · exact fun _ _ _ none => by cases none

theorem Sound.finished (sound : server.Sound) {slot : ThreadSlot}
    (member : (id, slot) ∈ server.live)
    (allowed : ∀ creator id taken, server.starting = .took creator id taken → taken < slot) :
    Sound { server with
      threads := server.threads.endThread slot
      live := server.live.erase (id, slot) } := by
  have only : ∀ id', (id', slot) ∈ server.live → id' = id := fun id' member' =>
    (sound.kept.ids id' slot member').symm.trans (sound.kept.ids id slot member)
  have distinct := sound.kept.slots.of_map
  have search := LS_threads.lowest_endThread server.threads slot
  constructor
  · constructor
    · exact sound.kept.slots.sublist (List.erase_sublist.map _)
    · intro id' slot' member'
      obtain ⟨other, before⟩ := distinct.mem_erase_iff.mp member'
      have apart : slot' ≠ slot := fun same =>
        other (by rw [same, only id' (same ▸ before)])
      rw [LS_threads.thread_id_endThread, Function.update_of_ne apart,
        sound.kept.ids id' slot' before]
    · intro slot'
      dsimp only
      rw [LS_threads.thread_id_endThread, Function.update_apply]
      split
      · rename_i same
        rw [same]
        refine iff_of_true rfl fun id' member' => ?_
        obtain ⟨other, before⟩ := distinct.mem_erase_iff.mp member'
        exact other (by rw [only id' before])
      · rename_i other
        rw [sound.kept.free slot']
        apply forall_congr'
        intro id'
        simp [other]
    · exact fun _ => search.1
    · intro creator id' taken took id'' member'
      exact sound.kept.taken creator id' taken took id'' (List.mem_of_mem_erase member')
  · exact fun _ => search.2
  · intro creator id' taken took
    obtain ⟨rfl, unused⟩ := sound.took creator id' taken took
    have before := allowed creator id' _ took
    have still : (server.threads.endThread slot).thread_id
        server.threads.next_free = -1 := by
      rw [LS_threads.thread_id_endThread, Function.update_of_ne (Fin.ne_of_lt before), unused]
    refine ⟨?_, still⟩
    rcases lt_trichotomy server.threads.next_free
      (server.threads.endThread slot).next_free with less | same | less
    · exact absurd still (search.2 _ less)
    · exact same
    · have lower := search.1
      rw [LS_threads.thread_id_endThread,
        Function.update_of_ne (Fin.ne_of_lt (less.trans before))] at lower
      exact absurd lower (sound.lowest unused _ less)
  · intro creator id' begun
    obtain ⟨valid, first⟩ := sound.begun creator id' begun
    refine ⟨valid, fun none => ?_⟩
    rw [(first none).2] at member
    cases member
  · intro creator id' taken took
    obtain ⟨valid, first⟩ := sound.registers creator id' taken took
    refine ⟨valid, fun none => ?_⟩
    rw [(first none).2] at member
    cases member

theorem Sound.step (sound : server.Sound) (allowed : server.Allows event)
    (step : Step server event server') : server'.Sound := by
  cases step with
  | begin idle creator valid =>
    refine ⟨?_, sound.lowest, ?_, ?_, ?_⟩
    · refine ⟨sound.kept.slots, sound.kept.ids, sound.kept.free, sound.kept.next, ?_⟩
      exact fun _ _ _ none => by cases none
    · exact fun _ _ _ none => by cases none
    · intro creator' id' same
      cases same
      exact ⟨valid, fun none => by cases none⟩
    · exact fun _ _ _ none => by cases none
  | take begun =>
    have here := (sound.kept.free _).mp allowed
    obtain ⟨valid, first⟩ := sound.begun _ _ begun
    refine ⟨?_, sound.lowest, ?_, ?_, ?_⟩
    · refine ⟨sound.kept.slots, sound.kept.ids, sound.kept.free, sound.kept.next, ?_⟩
      intro creator' id' slot' same
      cases same
      exact here
    · intro creator' id' slot' same
      cases same
      exact ⟨rfl, allowed⟩
    · exact fun _ _ none => by cases none
    · intro creator' id' slot' same
      cases same
      exact ⟨valid, first⟩
  | register took =>
    exact sound.registered took LS_threads.thread_id_searchFree (LS_threads.lowest_searchFree _)
  | registerFirst took =>
    have zero := ((sound.registers _ _ _ took).2 rfl).1
    rw [LS_threads.registerFirst, LS_threads.searchFrom_zero]
    swap
    · exact zero
    exact sound.registered took LS_threads.thread_id_searchFree (LS_threads.lowest_searchFree _)
  | finish member other => exact sound.finished member allowed

theorem sound_of_run (valid : id ≠ -1)
    (run : RunsTo AllowedStep (start id) server) : server.Sound := by
  refine RunsTo.preserves ?_ run (start_sound valid)
  rintro server server' sound ⟨event, allowed, step⟩
  exact sound.step allowed step

theorem Sound.take_breaks (sound : server.Sound)
    (full : ¬ server.Allows .take) (step : Step server .take server') :
    ¬ server'.Kept := by
  intro kept
  cases step with
  | take begun =>
    apply full
    rw [Allows, sound.kept.free]
    exact kept.taken _ _ _ rfl

theorem Sound.finish_breaks (sound : server.Sound) {slot : ThreadSlot}
    (early : ¬ server.Allows (.finish id slot))
    (step : Step server (.finish id slot) server') :
    ∃ server'', Step server' .register server'' ∧ ¬ server''.Kept := by
  cases step with
  | finish member other =>
  rw [Allows] at early
  push Not at early
  obtain ⟨creator, id', taken, took, before⟩ := early
  obtain ⟨rfl, unused⟩ := sound.took creator id' taken took
  obtain ⟨valid, first⟩ := sound.registers creator id' _ took
  have apart : slot ≠ server.threads.next_free := by
    intro same
    rw [← same] at unused
    exact (sound.kept.free slot).mp unused id member
  have less := lt_of_le_of_ne before apart
  have freed := LS_threads.next_free_endThread
    fun i lower => sound.lowest unused i (lower.trans less)
  cases creator with
  | none =>
    rw [(first rfl).2] at member
    cases member
  | some creator =>
    refine ⟨_, .register took, fun kept => valid ?_⟩
    have registered := kept.ids id' _ (List.mem_cons_self ..)
    rw [← registered]
    rw [LS_threads.register, LS_threads.thread_id_searchFree]
    dsimp only
    rw [freed, Function.update_of_ne apart.symm,
      LS_threads.thread_id_endThread, Function.update_of_ne apart.symm, unused]

/-- In every run in which a new thread finds a slot free, and no thread before it
ends until it is registered, the table is right.  Any step against this makes it
wrong, at the latest when the new thread is registered. -/
theorem threads_kept (valid : id ≠ -1) (run : RunsTo AllowedStep (start id) server) :
    server.Kept ∧ ∀ event server', Step server event server' → ¬ server.Allows event →
        ∃ server'', (server'' = server' ∨ Step server' .register server'') ∧
          ¬ server''.Kept := by
  have sound := sound_of_run valid run
  refine ⟨sound.kept, ?_⟩
  intro event server' step against
  cases event with
  | begin creator id => exact absurd trivial against
  | register => exact absurd trivial against
  | take => exact ⟨server', Or.inl rfl, sound.take_breaks against step⟩
  | finish id slot =>
    obtain ⟨server'', registered, wrong⟩ := sound.finish_breaks against step
    exact ⟨server'', Or.inr registered, wrong⟩

/-- The first thread is registered in the first slot. -/
theorem threads_kept_first_thread :
    ∃ server, RunsTo AllowedStep (start 7) server ∧ server.live = [(7, 0)] ∧
      server.Kept := by
  have run : ∃ server, RunsTo AllowedStep (start 7) server ∧
      server.live = [(7, 0)] :=
    ⟨_, .head ⟨.take, rfl, .take rfl⟩ (.single ⟨.register, trivial, .registerFirst rfl⟩), rfl⟩
  obtain ⟨server, run, live⟩ := run
  exact ⟨server, run, live, (threads_kept (by decide) run).1⟩

/-- In every such run, the next thread takes the lowest slot that no thread works with, if
there is one. -/
theorem lowest_of_run (valid : id ≠ -1) (run : RunsTo AllowedStep (start id) server)
    (unused : ∃ slot, ∀ thread, (thread, slot) ∉ server.live) :
    (∀ thread, (thread, server.threads.next_free) ∉ server.live) ∧
      ∀ slot, slot < server.threads.next_free → ∃ thread, (thread, slot) ∈ server.live := by
  have sound := sound_of_run valid run
  have free := sound.kept.next (unused.imp fun slot => (sound.kept.free slot).mpr)
  refine ⟨(sound.kept.free _).mp free, fun slot less => ?_⟩
  exact not_forall_not.mp (mt (sound.kept.free slot).mpr (sound.lowest free slot less))

/-- Behind the first thread, the second slot is the next one. -/
theorem lowest_of_run_second : ∃ server, RunsTo AllowedStep (start 7) server ∧
    server.threads.next_free = 1 ∧ ∀ slot, slot < server.threads.next_free →
      ∃ thread, (thread, slot) ∈ server.live := by
  have run : RunsTo AllowedStep (start 7) _ :=
    .head ⟨.take, rfl, .take rfl⟩ (.single ⟨.register, trivial, .registerFirst rfl⟩)
  refine ⟨_, run, rfl, (lowest_of_run (by decide) run ⟨1, fun thread member => ?_⟩).2⟩
  cases List.mem_singleton.mp member

/-- The third thread takes the third slot, the first thread ends, and the third
is registered in the first slot. -/
theorem registered_in_other_slot :
    ∃ server, RunsTo (fun server server' => ∃ event, Step server event server') (start 7) server ∧
      server.live = [(9, 2), (8, 1)] ∧ server.threads.thread_id 0 = 9 ∧
      server.threads.thread_id 2 = -1 ∧ ¬ server.Kept := by
  refine ⟨_, .head ⟨.take, .take rfl⟩ <| .head ⟨.register, .registerFirst rfl⟩ <|
    .head ⟨.begin 7 8, .begin rfl (List.mem_singleton_self _) (by decide)⟩ <|
    .head ⟨.take, .take rfl⟩ <| .head ⟨.register, .register rfl⟩ <|
    .head ⟨.begin 8 9, .begin rfl (List.mem_cons_self ..) (by decide)⟩ <|
    .head ⟨.take, .take rfl⟩ <| .head ⟨.finish 7 0, .finish ?_ ?_⟩ <|
    .single ⟨.register, .register rfl⟩, rfl, rfl, rfl, ?_⟩
  · exact List.mem_cons_of_mem _ (List.mem_singleton_self _)
  · decide
  · intro kept
    exact absurd (kept.ids 9 2 (List.mem_cons_self ..)) (by decide)

end PipeServer

end OsFree.Pm
