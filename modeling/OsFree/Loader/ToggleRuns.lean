import OsFree.Loader.ToggleCycle

/-!
# Runs of toggles

Blocks that are set replace all earlier ones of their key.  What is kept between
commands is kept in every run of allowed ones.
-/

namespace OsFree.Loader

open Machine

namespace Commands

variable {commands commands' : Commands} {last : LastSet} {slot bl : Nat} {key : UInt8}

/-- A slot is there for a key, and nothing else is changed. -/
structure Prepared (commands : Commands) (key : UInt8) (slot : Nat) (commands' : Commands) :
    Prop where
  vars : commands'.vars = commands.vars
  blocks : ∀ slot', (commands'.slots slot').blocks = (commands.slots slot').blocks
  table : commands'.Table
  used : slot < commands'.togglesUsed
  keyed : (commands'.slots slot).key = key
  others : ∀ slot' < commands'.togglesUsed, slot' ≠ slot →
    slot' < commands.togglesUsed ∧ commands'.slots slot' = commands.slots slot'
  le : commands.togglesUsed ≤ commands'.togglesUsed
  oldKey : slot < commands.togglesUsed → (commands.slots slot).key = key
  ran : ∀ parts, commands.toggleSet key parts = commands'.setSlot slot parts

theorem Table.prepared (table : commands.Table) (nonzero : key ≠ 0)
    (found : commands.slotFor key = some slot) :
    ∃ commands', commands.Prepared key slot commands' := by
  unfold slotFor at found
  cases known : commands.getToggleSlotForKey key with
  | some slot' =>
    rw [known] at found
    obtain rfl := Option.some.inj found
    have at_slot := known
    rw [table.getToggleSlotForKey_eq nonzero] at at_slot
    obtain ⟨used, same⟩ := table.toggleFindSlot_eq_some_iff.mp at_slot
    refine ⟨commands, rfl, fun _ => rfl, table, used, same,
      fun _ below _ => ⟨below, rfl⟩, Nat.le_refl _, fun _ => same, ?_⟩
    intro parts
    simp only [toggleSet, known]
  | none =>
    rw [known] at found
    simp only [Option.ite_none_left_eq_some, Option.some.injEq] at found
    obtain ⟨free, rfl⟩ := found
    have absent : ∀ slot < commands.togglesUsed, (commands.slots slot).key ≠ key := by
      intro slot below same
      have unknown := known
      rw [table.getToggleSlotForKey_eq nonzero,
        table.toggleFindSlot_eq_some_iff.mpr ⟨below, same⟩] at unknown
      cases unknown
    have others : ∀ slot, slot ≠ commands.togglesUsed →
        (commands.takeSlot key).slots slot = commands.slots slot :=
      fun _ other => Function.update_of_ne other _ _
    have self : ((commands.takeSlot key).slots commands.togglesUsed).key = key := by
      simp [takeSlot]
    have below : ∀ slot < (commands.takeSlot key).togglesUsed,
        slot ≠ commands.togglesUsed → slot < commands.togglesUsed :=
      fun _ before other => Nat.lt_of_le_of_ne (Nat.le_of_lt_succ before) other
    refine ⟨commands.takeSlot key, rfl, ?_, ?_, Nat.lt_succ_self _, self,
      fun slot before other => ⟨below slot before other, others slot other⟩,
      Nat.le_succ _, fun before => absurd before (Nat.lt_irrefl _), ?_⟩
    · intro slot
      by_cases same : slot = commands.togglesUsed
      · simp [takeSlot, same]
      · rw [others slot same]
    · refine ⟨Nat.lt_of_le_of_ne table.used_le free, ?_, ?_, ?_⟩
      · intro slot before
        by_cases same : slot = commands.togglesUsed
        · rw [same, self]
          exact nonzero
        · rw [others slot same]
          exact table.used slot (below slot before same)
      · intro slot behind
        have other : slot ≠ commands.togglesUsed := Nat.ne_of_gt behind
        rw [others slot other]
        exact table.unused slot (Nat.le_of_succ_le behind)
      · intro slot before slot' before' same
        by_cases last : slot = commands.togglesUsed
        · by_cases last' : slot' = commands.togglesUsed
          · exact last.trans last'.symm
          · rw [last, self, others slot' last'] at same
            exact absurd same.symm (absent slot' (below slot' before' last'))
        · by_cases last' : slot' = commands.togglesUsed
          · rw [last', self, others slot last] at same
            exact absurd same (absent slot (below slot before last))
          · rw [others slot last, others slot' last'] at same
            exact table.distinct slot (below slot before last) slot'
              (below slot' before' last') same
    · intro parts
      simp only [toggleSet, known, if_neg free]

variable {parts : Parts} {ret : Ret}

theorem toggleSet_of_full (full : commands.slotFor key = none) :
    commands.toggleSet key parts = .ok (.wontFit, commands) := by
  unfold slotFor at full
  unfold toggleSet
  cases known : commands.getToggleSlotForKey key with
  | some slot => simp [known] at full
  | none =>
    simp only [known, ite_eq_left_iff, reduceCtorEq, imp_false, not_not] at full
    simp only [if_pos full]

/-- A slot with blocks stored in it. -/
def withBlocks (commands : Commands) (slot : Nat) (parts : Parts) : Commands :=
  ((commands.change slot Slot.reset).storeAll slot parts.items).change slot fun slot =>
    { slot with nrBlocks := parts.parts.length }

section

variable {parts : Parts} {slot' var : Nat}

theorem reset_entry : (commands.change slot Slot.reset).entry slot' bl var =
    commands.entry slot' bl var := by
  unfold entry
  by_cases same : slot' = slot
  · subst same
    simp only [change_slots, Function.update_self, Slot.reset_blocks]
    split_ifs <;> rfl
  · simp [same]

theorem withBlocks_slots_of_ne (other : slot' ≠ slot) :
    (commands.withBlocks slot parts).slots slot' = commands.slots slot' := by
  simp only [withBlocks, change_slots, Function.update_of_ne other, storeAll_slots_of_ne other]

theorem withBlocks_blocks : ((commands.withBlocks slot parts).slots slot').blocks =
    (((commands.change slot Slot.reset).storeAll slot parts.items).slots slot').blocks := by
  by_cases same : slot' = slot
  · subst same
    simp [withBlocks]
  · simp [withBlocks, same]

theorem withBlocks_key : ((commands.withBlocks slot parts).slots slot').key =
    (commands.slots slot').key := by
  by_cases same : slot' = slot
  · subst same
    simp [withBlocks]
  · rw [withBlocks_slots_of_ne same]

theorem withBlocks_currentBlock :
    ((commands.withBlocks slot parts).slots slot).currentBlock = 0 := by
  simp [withBlocks]

theorem withBlocks_nrBlocks :
    ((commands.withBlocks slot parts).slots slot).nrBlocks = parts.parts.length := by
  simp [withBlocks]

theorem withBlocks_togglesUsed :
    (commands.withBlocks slot parts).togglesUsed = commands.togglesUsed := by
  simp [withBlocks]

theorem reset_nrVars : (((commands.change slot Slot.reset).slots slot).blocks bl).nrVars =
    if bl < MAX_VAR_PER_BLOCK then 0 else ((commands.slots slot).blocks bl).nrVars := by
  simp only [change_slots, Function.update_self, Slot.reset_blocks]
  split_ifs <;> rfl

end

/-- What it takes to store blocks in a slot. -/
structure Room (commands : Commands) (slot : Nat) (parts : Parts) : Prop where
  inv : commands.Inv
  proper : parts.Proper
  fine : parts.Fine
  fits : AllFit commands.vars.names commands.vars.room (commands.withHeld slot parts.items)

section

variable {parts : Parts} (room : commands.Room slot parts)
include room

theorem Room.inv_reset : (commands.change slot Slot.reset).Inv :=
  room.inv.congr rfl fun _ _ _ => reset_entry

theorem Room.canStoreAll :
    CanStoreAll slot parts.items (commands.change slot Slot.reset) := by
  have held : (commands.change slot Slot.reset).withHeld slot parts.items =
      commands.withHeld slot parts.items := by
    unfold withHeld held
    simp only [reset_entry]
    rfl
  refine canStoreAll_of_allFit room.inv_reset room.proper.clean_items ?_ ?_
  · rw [Parts.items_of_fine room.fine]
    exact layout_pairwise
  · rw [held]
    exact room.fits

theorem Room.inv_withBlocks : (commands.withBlocks slot parts).Inv := by
  refine (room.canStoreAll.inv_storeAll room.inv_reset).congr rfl ?_
  intro slot' bl var
  unfold entry
  rw [withBlocks_blocks]

theorem Room.grows : commands.vars.Grows (commands.withBlocks slot parts).vars :=
  room.canStoreAll.grows room.inv_reset

theorem Room.nrVars {block : List Assignment} (at_bl : parts.blocks[bl]? = some block)
    (old : MAX_VAR_PER_BLOCK ≤ bl → ((commands.slots slot).blocks bl).nrVars ≤ block.length) :
    (((commands.withBlocks slot parts).slots slot).blocks bl).nrVars = block.length := by
  apply eq_of_forall_ge_iff
  intro k
  rw [withBlocks_blocks, storeAll_nrVars_le_iff, reset_nrVars]
  constructor
  · rintro ⟨-, below⟩
    -- The last assignment of the block, if there is one, is below.
    by_contra long
    have within : k < block.length := Nat.lt_of_not_le long
    have member : (⟨bl, k, block[k]⟩ : Item) ∈ parts.items :=
      (Parts.mem_items_of_fine room.fine).mpr ⟨block, at_bl, List.getElem?_eq_getElem within⟩
    exact Nat.lt_irrefl k (below _ member rfl)
  · intro long
    constructor
    · split_ifs with reset
      · exact Nat.zero_le k
      · exact Nat.le_trans (old (Nat.le_of_not_lt reset)) long
    · rintro item member rfl
      obtain ⟨block', found, found'⟩ := (Parts.mem_items_of_fine room.fine).mp member
      obtain rfl := Option.some.inj (at_bl.symm.trans found)
      exact Nat.lt_of_lt_of_le (List.getElem?_eq_some_iff.mp found').1 long

theorem Room.contents {block : List Assignment} (at_bl : parts.blocks[bl]? = some block)
    (old : MAX_VAR_PER_BLOCK ≤ bl → ((commands.slots slot).blocks bl).nrVars ≤ block.length) :
    (commands.withBlocks slot parts).contents slot bl = block.map some := by
  unfold Commands.contents
  rw [room.nrVars at_bl old]
  ext1 var
  rw [List.getElem?_map, List.getElem?_map]
  by_cases within : var < block.length
  · have member : (⟨bl, var, block[var]⟩ : Item) ∈ parts.items :=
      (Parts.mem_items_of_fine room.fine).mpr ⟨block, at_bl, List.getElem?_eq_getElem within⟩
    have apart := @layout_pairwise 0 parts.blocks
    rw [← Parts.items_of_fine room.fine] at apart
    have assigns := room.canStoreAll.holds room.inv_reset apart member
    rw [List.getElem?_range within, List.getElem?_eq_getElem within]
    unfold entry at assigns ⊢
    rw [withBlocks_blocks]
    exact congrArg some assigns
  · rw [List.getElem?_eq_none (by simpa using within),
      List.getElem?_eq_none (Nat.le_of_not_lt within)]
    rfl

theorem Room.few (few : ∀ bl, ((commands.slots slot).blocks bl).nrVars ≤ MAX_VAR_PER_BLOCK) :
    (((commands.withBlocks slot parts).slots slot).blocks bl).nrVars ≤ MAX_VAR_PER_BLOCK := by
  rw [withBlocks_blocks, storeAll_nrVars_le_iff, reset_nrVars]
  constructor
  · split_ifs
    · exact Nat.zero_le _
    · exact few bl
  · intro item member _
    obtain ⟨block, found, found'⟩ := (Parts.mem_items_of_fine room.fine).mp member
    exact Nat.lt_of_lt_of_le (List.getElem?_eq_some_iff.mp found').1
      (Parts.length_of_fine room.fine (List.mem_of_getElem? found))

theorem Room.setSlot (used : slot < commands.togglesUsed) (some' : parts.parts ≠ []) :
    commands.setSlot slot parts = .ok (.ok, (commands.withBlocks slot parts).withBlock slot 0) ∧
      ((commands.withBlocks slot parts).withBlock slot 0).Inv ∧
      (commands.withBlocks slot parts).vars.Grows
        ((commands.withBlocks slot parts).withBlock slot 0).vars ∧
      ∃ block, parts.blocks[0]? = some block ∧
        ((commands.withBlocks slot parts).withBlock slot 0).vars.valueOf =
          applied (commands.withBlocks slot parts).vars.valueOf block := by
  have stored := processBlocks_of_canStoreAll room.inv_reset room.fine room.canStoreAll
  have positive : 0 < parts.parts.length := List.length_pos_iff.mpr some'
  have length : parts.blocks.length = parts.parts.length := List.length_map _
  have at_first : parts.blocks[0]? = some parts.blocks[0] :=
    List.getElem?_eq_getElem (length ▸ positive)
  have contents := room.contents at_first (fun above => absurd above (Nat.not_succ_le_zero _))
  obtain ⟨done, inv', grows, values⟩ := toggleDoBlock_of_contents room.inv_withBlocks
    (Nat.lt_of_lt_of_eq used withBlocks_togglesUsed.symm)
    (Nat.lt_of_lt_of_eq positive withBlocks_nrBlocks.symm) contents
  refine ⟨?_, inv', grows, _, at_first, values⟩
  unfold Commands.setSlot
  rw [stored]
  simp only [bind_ok, ne_eq, not_true, if_false, Nat.zero_add]
  rw [show ((commands.change slot Slot.reset).storeAll slot
      (readParts parts.ends 0 parts.parts).1).change slot
        (fun slot => { slot with nrBlocks := parts.parts.length }) =
      commands.withBlocks slot parts from rfl, done]
  rfl

end

theorem Kept.set_of_prepared (kept : commands.Kept last)
    (prepared : commands.Prepared key slot commands') (room : commands'.Room slot parts)
    (some' : parts.parts ≠ [])
    (old : ∀ bl block, MAX_VAR_PER_BLOCK ≤ bl → parts.blocks[bl]? = some block →
      ((commands'.slots slot).blocks bl).nrVars ≤ block.length) :
    ((commands'.withBlocks slot parts).withBlock slot 0).Kept
      (Function.update last key (some parts.blocks)) := by
  obtain ⟨-, inv', grows, -⟩ := room.setSlot prepared.used some'
  have grows' := room.grows.trans grows
  have vars : commands.vars.Grows commands'.vars := by
    rw [prepared.vars]
    exact .refl _
  have table := prepared.table
  have length : parts.blocks.length = parts.parts.length := List.length_map _
  have others : ∀ slot' < commands'.togglesUsed, slot' ≠ slot →
      (commands'.slots slot').key ≠ key := by
    intro slot' below other same
    exact other (table.distinct slot' below slot prepared.used (same.trans prepared.keyed.symm))
  -- The table has the keys it had, and the blocks of other slots.
  have keys : ∀ slot', (((commands'.withBlocks slot parts).withBlock slot 0).slots slot').key =
      (commands'.slots slot').key := fun _ => withBlocks_key
  have same : ∀ slot' ≠ slot, ((commands'.withBlocks slot parts).withBlock slot 0).slots slot' =
      commands'.slots slot' := fun _ other => withBlocks_slots_of_ne other
  have used : ((commands'.withBlocks slot parts).withBlock slot 0).togglesUsed =
      commands'.togglesUsed := withBlocks_togglesUsed
  refine ⟨inv', ⟨?_, ?_, ?_, ?_⟩, ⟨?_, ?_, ?_, ?_⟩⟩
  · rw [used]
    exact table.used_le
  · simpa only [used, keys] using table.used
  · simpa only [used, keys] using table.unused
  · simpa only [used, keys] using table.distinct
  · rw [used]
    intro slot' below
    by_cases self : slot' = slot
    · subst self
      refine ⟨?_, ?_, ?_⟩
      · exact Nat.lt_of_lt_of_eq (List.length_pos_iff.mpr some') withBlocks_nrBlocks.symm
      · refine Nat.le_trans (Nat.le_of_eq withBlocks_nrBlocks) ?_
        rw [← length]
        exact Parts.length_blocks_of_fine room.fine room.proper
      · exact Nat.lt_of_le_of_lt (Nat.le_of_eq withBlocks_currentBlock)
          (Nat.lt_of_lt_of_eq (List.length_pos_iff.mpr some') withBlocks_nrBlocks.symm)
    · obtain ⟨before, equal⟩ := prepared.others slot' below self
      rw [same slot' self, equal]
      exact kept.shows.counted slot' before
  · intro slot' bl
    by_cases self : slot' = slot
    · subst self
      refine room.few ?_
      intro bl
      rw [prepared.blocks]
      exact kept.shows.few slot' bl
    · rw [same slot' self, prepared.blocks]
      exact kept.shows.few slot' bl
  · rw [used]
    intro slot' below
    by_cases self : slot' = slot
    · subst self
      refine ⟨parts.blocks, ?_, length.trans withBlocks_nrBlocks.symm, ?_⟩
      · rw [keys, prepared.keyed, Function.update_self]
      · intro bl block at_bl
        exact contents_of_grows room.inv_withBlocks grows rfl
          (room.contents at_bl (fun above => old bl block above at_bl))
    · obtain ⟨before, equal⟩ := prepared.others slot' below self
      obtain ⟨blocks, found, count, holds⟩ := kept.shows.holds slot' before
      have different := others slot' below self
      rw [equal] at different
      rw [same slot' self, equal, Function.update_of_ne different]
      refine ⟨blocks, found, count, ?_⟩
      intro bl block at_bl
      refine contents_of_grows kept.inv (vars.trans grows') ?_ (holds bl block at_bl)
      rw [same slot' self, equal]
  · rw [used]
    intro key' blocks found
    by_cases self : key' = key
    · rw [self]
      exact ⟨slot, prepared.used, (keys slot).trans prepared.keyed⟩
    · rw [Function.update_of_ne self] at found
      obtain ⟨slot', before, keyed⟩ := kept.shows.found key' blocks found
      have below := Nat.lt_of_lt_of_le before prepared.le
      have other : slot' ≠ slot := by
        rintro rfl
        exact self (keyed.symm.trans (prepared.oldKey before))
      refine ⟨slot', below, ?_⟩
      rw [keys, (prepared.others slot' below other).2, keyed]

/-- A toggle stands at its first block, which has been applied. -/
def Restarted (key : UInt8) (blocks : List (List Assignment)) (commands : Commands) : Prop :=
  ∃ slot block values, commands.toggleFindSlot key = some slot ∧
    (commands.slots slot).currentBlock = 0 ∧ blocks[0]? = some block ∧
    commands.vars.valueOf = applied values block

/-- Blocks that are set are the last ones of their key, or else nothing is
changed. -/
def AllOrNothing (commands : Commands) (last : LastSet) (toggle : Toggle) (ret : Ret)
    (commands' : Commands) : Prop :=
  ∀ key parts, toggle = .set key parts → (ret = .ok ∧ Restarted key parts.blocks commands' ∧
      commands.noted last toggle = Function.update last key (some parts.blocks)) ∨
      (ret ≠ .ok ∧ commands' = commands ∧ commands.noted last toggle = last)

theorem Kept.set (kept : commands.Kept last) (proper : parts.Proper)
    (nonzero : key ≠ 0) (can : commands.CanSet key parts) :
    ∃ ret commands', commands.toggleSet key parts = .ok (ret, commands') ∧
      commands'.Kept (commands.noted last (.set key parts)) ∧
      commands.AllOrNothing last (.set key parts) ret commands' := by
  cases found : commands.slotFor key with
  | none =>
    have nothing : commands.noted last (.set key parts) = last := by
      simp [noted, found]
    refine ⟨.wontFit, commands, toggleSet_of_full found, ?_, ?_⟩
    · rw [nothing]
      exact kept
    · intro key' parts' equal
      exact .inr ⟨Ret.noConfusion, rfl, nothing⟩
  | some slot =>
    have update : commands.noted last (.set key parts) =
        Function.update last key (some parts.blocks) := by
      simp [noted, found]
    obtain ⟨fine, some', fits, old⟩ := can slot found
    obtain ⟨commands', prepared⟩ := kept.table.prepared nonzero found
    have entries : ∀ slot bl var, commands'.entry slot bl var = commands.entry slot bl var := by
      intro slot bl var
      unfold entry
      rw [prepared.blocks]
    have room : commands'.Room slot parts := by
      refine ⟨kept.inv.congr prepared.vars entries, proper, fine, ?_⟩
      have held : commands'.withHeld slot parts.items = commands.withHeld slot parts.items := by
        unfold withHeld held
        simp only [entries, prepared.vars]
      rw [prepared.vars, held]
      exact fits
    have old' : ∀ bl block, MAX_VAR_PER_BLOCK ≤ bl → parts.blocks[bl]? = some block →
        ((commands'.slots slot).blocks bl).nrVars ≤ block.length := by
      rw [prepared.blocks]
      exact old
    obtain ⟨ran, -, -, block, first, values⟩ := room.setSlot prepared.used some'
    have kept' := kept.set_of_prepared prepared room some' old'
    refine ⟨.ok, _, (prepared.ran parts).trans ran, ?_, ?_⟩
    · rw [update]
      exact kept'
    · intro key' parts' equal
      cases equal
      refine .inl ⟨rfl, ⟨slot, block, _, ?_, withBlocks_currentBlock, first, values⟩, update⟩
      exact kept'.table.toggleFindSlot_eq_some_iff.mpr
        ⟨Nat.lt_of_lt_of_eq prepared.used withBlocks_togglesUsed.symm,
          withBlocks_key.trans prepared.keyed⟩

theorem Kept.prevCmd (kept : commands.Kept last) (prevCmd : PrevCmd) :
    Kept { commands with prevCmd } last :=
  kept.advance (kept.inv.congr rfl fun _ _ _ => rfl) (.refl _) rfl (fun _ => rfl)
    (fun _ => rfl) (fun _ => rfl) fun slot below => (kept.shows.counted slot below).2.2

theorem Kept.finished (kept : commands.Kept last) :
    (finish (ret, commands)).2.Kept last := by
  unfold finish
  split_ifs
  · exact kept.prevCmd .none
  · exact kept

theorem Restarted.finished {blocks : List (List Assignment)}
    (restarted : Restarted key blocks commands) :
    Restarted key blocks (finish (ret, commands)).2 := by
  unfold finish
  split_ifs
  · exact restarted
  · exact restarted

@[simp] theorem canToggle_prevCmd (prevCmd : PrevCmd) (toggle : Toggle) :
    CanToggle { commands with prevCmd } toggle = commands.CanToggle toggle := by
  induction toggle with
  | outside | bad | set | select => rfl
  | trigger var val inner ih =>
    simp only [CanToggle, ih]

@[simp] theorem noted_prevCmd (prevCmd : PrevCmd) (toggle : Toggle) :
    noted { commands with prevCmd } last toggle = commands.noted last toggle := by
  induction toggle with
  | outside | bad | set | select => rfl
  | trigger var val inner ih =>
    simp only [noted, ih]

theorem finish_eq_of_ne (failed : ret ≠ .ok) :
    finish (ret, commands) = (ret, commands) :=
  if_neg failed

theorem finish_eq (ret : Ret) (commands : Commands) :
    finish (ret, commands) = (ret, (finish (ret, commands)).2) := by
  unfold finish
  split_ifs with done
  · exact congrArg (·, _) done.symm
  · rfl

theorem Kept.runToggle (kept : commands.Kept last) (keyboard : Keyboard) (toggle : Toggle)
    (proper : toggle.Proper) (can : commands.CanToggle toggle) :
    ∃ ret commands', runToggle keyboard toggle commands = .ok (ret, commands') ∧
      commands'.Kept (commands.noted last toggle) ∧
      commands.AllOrNothing last toggle ret commands' := by
  induction toggle generalizing commands with
  | outside => exact can.elim
  | bad => exact ⟨.badArg, commands, rfl, kept, fun _ _ equal => Toggle.noConfusion equal⟩
  | set key parts =>
    obtain ⟨ret, commands', ran, kept', whole⟩ := kept.set proper.2 proper.1 can
    refine ⟨ret, (finish (ret, commands')).2, ?_, kept'.finished, ?_⟩
    · simp only [Commands.runToggle, ran, map_ok]
      exact congrArg Except.ok (finish_eq ret commands')
    · intro key' parts' equal
      cases equal
      rcases whole key parts rfl with ⟨done, restarted, update⟩ | ⟨failed, same, nothing⟩
      · exact .inl ⟨done, restarted.finished, update⟩
      · refine .inr ⟨failed, ?_, nothing⟩
        rw [finish_eq_of_ne failed]
        exact same
  | select selections =>
    obtain ⟨ret, commands', ran, kept'⟩ := kept.select keyboard selections
    refine ⟨ret, (finish (ret, commands')).2, ?_, kept'.finished,
      fun _ _ equal => Toggle.noConfusion equal⟩
    simp only [Commands.runToggle, ran, map_ok]
    exact congrArg Except.ok (finish_eq ret commands')
  | trigger var val inner ih =>
    have notSet : ∀ ret commands', commands.AllOrNothing last (.trigger var val inner) ret
        commands' := fun _ _ _ _ equal => Toggle.noConfusion equal
    obtain ⟨value, read, valueOf, stand⟩ := @Variables.Sound.varGet_stands _ var kept.inv.sound
    cases value with
    | none =>
      have nothing : commands.noted last (.trigger var val inner) = last := by
        simp [noted, valueOf]
      refine ⟨.badArg, commands, ?_, ?_, notSet _ _⟩
      · simp only [Commands.runToggle, read, bind_ok]
        rfl
      · rw [nothing]
        exact kept
    | some place =>
      have text := (stand place rfl).stringAt
      by_cases same : commands.vars.store.textAt place = val
      · have here : commands.vars.valueOf var = some val := by
          rw [valueOf, Option.map_some, same]
        obtain ⟨ret, commands', ran, kept', -⟩ :=
          @ih { commands with prevCmd := .trigger } (kept.prevCmd .trigger)
            proper ((canToggle_prevCmd _ _).mpr (can here))
        refine ⟨.ok, (finish (.ok, commands')).2, ?_, ?_, notSet _ _⟩
        · simp only [Commands.runToggle, read, bind_ok, text, if_pos same, ran]
          rfl
        · simp only [noted, if_pos here]
          rw [noted_prevCmd] at kept'
          exact kept'.finished
      · have elsewhere : commands.vars.valueOf var ≠ some val := by
          rw [valueOf, Option.map_some]
          exact fun equal => same (Option.some.inj equal)
        refine ⟨.ok, (finish (.ok, { commands with prevCmd := .trigger })).2, ?_, ?_, notSet _ _⟩
        · simp only [Commands.runToggle, read, bind_ok, text, if_neg same]
          rfl
        · simp only [noted, if_neg elsewhere]
          exact (kept.prevCmd .trigger).finished

/-- The command is given an argument, or a key is pressed. -/
inductive Request where
  | toggle (keyboard : Keyboard) (arg : List UInt8) (nonzero : 0 ∉ arg)
  | press (key : UInt8)

/-- A request is served. -/
def respond (commands : Commands) : Request → Run (Ret × Commands)
  | .toggle keyboard arg _ => commands.toggleFunc keyboard arg
  | .press key => (fun outcome => (.ok, outcome.2)) <$> commands.toggleDoKey key

def Allows (commands : Commands) : Request → Prop
  | .toggle _ arg _ => commands.CanToggle (parseToggle arg)
  | .press _ => True

/-- What has been set last, after a request. -/
def recorded (commands : Commands) (last : LastSet) : Request → LastSet
  | .toggle _ arg _ => commands.noted last (parseToggle arg)
  | .press _ => last

/-- The commands, and what has been set last for each key. -/
abbrev History := Commands × LastSet

def History.Step (state state' : History) : Prop :=
  ∃ request ret, state.1.respond request = .ok (ret, state'.1) ∧
    state'.2 = state.1.recorded state.2 request

def History.AllowedStep (state state' : History) : Prop :=
  ∃ request ret, state.1.Allows request ∧ state.1.respond request = .ok (ret, state'.1) ∧
    state'.2 = state.1.recorded state.2 request

/-- Nothing has been set. -/
def start : History := (initial, fun _ => none)

theorem kept_start : start.1.Kept start.2 := by
  refine ⟨⟨Variables.initial_sound, ?_, ?_⟩, ⟨?_, ?_, fun _ _ => rfl, ?_⟩, ⟨?_, ?_, ?_, ?_⟩⟩
  · intro slot bl var place value
    cases value
  · intro slot bl var i place equal
    cases equal
  · exact Nat.zero_le _
  · intro slot below
    cases below
  · intro slot below
    cases below
  · intro slot below
    cases below
  · intro slot bl
    exact Nat.zero_le _
  · intro slot below
    cases below
  · intro key blocks found
    cases found

/-- A toggle that is set starts at its first block, and one that is not leaves
everything as it was. -/
def Responds (state : History) (request : Request) (ret : Ret) (commands' : Commands) : Prop :=
  match request with
  | .toggle _ arg _ => state.1.AllOrNothing state.2 (parseToggle arg) ret commands'
  | .press _ => True

theorem Kept.respond (kept : commands.Kept last) (request : Request)
    (allowed : commands.Allows request) :
    ∃ ret commands', commands.respond request = .ok (ret, commands') ∧
      commands'.Kept (commands.recorded last request) ∧
      Responds (commands, last) request ret commands' := by
  cases request with
  | toggle keyboard arg nonzero =>
    exact kept.runToggle keyboard _ (parseToggle_proper nonzero) allowed
  | press key =>
    cases found : commands.toggleFindSlot key with
    | none =>
      refine ⟨.ok, commands, ?_, kept, trivial⟩
      simp only [Commands.respond, toggleDoKey, found, map_ok]
    | some slot =>
      obtain ⟨below, rfl⟩ := kept.table.toggleFindSlot_eq_some_iff.mp found
      obtain ⟨commands', done, pressed⟩ := kept.press below
      refine ⟨.ok, commands', ?_, pressed.kept, trivial⟩
      simp only [Commands.respond, done, map_ok]

theorem kept_of_run {state : History} (run : RunsTo History.AllowedStep start state) :
    state.1.Kept state.2 := by
  refine @RunsTo.preserves _ _ (fun state : History => state.1.Kept state.2) _ _ ?_ run kept_start
  rintro ⟨commands, last⟩ ⟨commands', last'⟩ kept ⟨request, ret, allowed, ran, rfl⟩
  obtain ⟨ret', after, ran', kept', -⟩ := kept.respond request allowed
  obtain rfl := congrArg Prod.snd (Except.ok.inj (ran.symm.trans ran'))
  exact kept'

/-- In every run of requests that are allowed the toggles have the blocks that were
set last and go round them, and a toggle is set or everything is left as it was. -/
theorem toggles_of_run {state : History} (run : RunsTo History.AllowedStep start state) :
    state.1.Shows state.2 ∧ state.1.Cycles state.2 ∧
      ∀ request, state.1.Allows request → ∃ ret commands',
        state.1.respond request = .ok (ret, commands') ∧
          Responds state request ret commands' := by
  have kept := kept_of_run run
  refine ⟨kept.shows, kept.cycles, ?_⟩
  intro request allowed
  obtain ⟨ret, commands', ran, -, responds⟩ := kept.respond request allowed
  exact ⟨ret, commands', ran, responds⟩

/-- "set a\x7bx=1\x7d\x7bx=2\x7d" -/
def setTwoBlocks : List UInt8 :=
  [0x73, 0x65, 0x74, 0x20, 0x61, 0x7b, 0x78, 0x3d, 0x31, 0x7d, 0x7b, 0x78, 0x3d, 0x32, 0x7d]

def twoBlocks : Parts := ⟨[⟨[some ⟨[0x78], [0x31]⟩], true⟩, ⟨[some ⟨[0x78], [0x32]⟩], false⟩], true⟩

/-- What has been set last after that. -/
def lastTwoBlocks : LastSet := fun key =>
  if key = 0x61 then some [[⟨[0x78], [0x31]⟩], [⟨[0x78], [0x32]⟩]] else none

theorem parse_setTwoBlocks : parseToggle setTwoBlocks = .set 0x61 twoBlocks := by
  have head : parseHead setTwoBlocks = .set 0x61 twoBlocks := by decide
  rw [parseToggle]
  split <;> simp_all

/-- Two blocks are set, and the key goes round them. -/
theorem twoBlocks_goRound : ∃ commands',
    let state : History := (commands', lastTwoBlocks)
    RunsTo History.AllowedStep start state ∧ state.1.Shows state.2 ∧ state.1.Cycles state.2 ∧
      ∀ request, state.1.Allows request → ∃ ret commands',
        state.1.respond request = .ok (ret, commands') ∧
          Responds state request ret commands' := by
  have slot : start.1.slotFor 0x61 = some 0 := by decide
  have allowed : start.1.Allows (.toggle ⟨0, false⟩ setTwoBlocks (by decide)) := by
    change start.1.CanToggle (parseToggle setTwoBlocks)
    rw [parse_setTwoBlocks]
    intro slot' found
    refine ⟨by decide, by decide, ?_, fun _ _ _ _ => Nat.zero_le _⟩
    change AllFit [] 1024 [(⟨[0x78], [0x31]⟩, none), (⟨[0x78], [0x32]⟩, none)]
    simp [AllFit, IsName, openParen, closeParen, blank, VARIABLES_MAX]
  obtain ⟨ret, commands', ran, -, -⟩ := kept_start.respond _ allowed
  have noted : start.1.recorded start.2 (.toggle ⟨0, false⟩ setTwoBlocks (by decide)) =
      lastTwoBlocks := by
    change start.1.noted start.2 (parseToggle setTwoBlocks) = _
    rw [parse_setTwoBlocks]
    funext key
    simp only [Commands.noted, slot, reduceCtorEq, if_false, Function.update_apply]
    rfl
  have run : RunsTo History.AllowedStep start (commands', lastTwoBlocks) :=
    .single ⟨_, ret, allowed, ran, noted.symm⟩
  exact ⟨commands', run, toggles_of_run run⟩

/-- "set a " -/
def setNothing : List UInt8 := [0x73, 0x65, 0x74, 0x20, 0x61, 0x20]

theorem parse_setNothing : parseToggle setNothing = .set 0x61 ⟨[], true⟩ := by
  have head : parseHead setNothing = .set 0x61 ⟨[], true⟩ := by decide
  rw [parseToggle]
  split <;> simp_all

/-- A key that is set without blocks has none to go round. -/
theorem noBlocks_notShown : ∃ state, RunsTo History.Step start state ∧
    ¬ state.1.Shows state.2 := by
  have ran : ∃ commands', start.1.respond (.toggle ⟨0, false⟩ setNothing (by decide)) =
      .ok (.ok, commands') ∧ commands'.togglesUsed = 1 ∧
        (commands'.slots 0).nrBlocks = 0 := by
    simp only [respond, toggleFunc, parse_setNothing]
    exact ⟨_, rfl, rfl, rfl⟩
  obtain ⟨commands', ran, used, count⟩ := ran
  refine ⟨(commands', _), .single ⟨_, .ok, ran, rfl⟩, ?_⟩
  intro shows'
  have positive := (shows'.counted 0 (Nat.lt_of_lt_of_eq Nat.zero_lt_one used.symm)).1
  rw [count] at positive
  exact Nat.not_succ_le_zero 0 positive

end Commands

end OsFree.Loader
