import OsFree.Loader.VariableSteps
import OsFree.Machine.Transition

/-!
# Toggles go round

A key that has been set has the blocks that were set last for it, and goes round
them.  A command that leaves a toggle without blocks, or with others than those
it was given, is not allowed.
-/

namespace OsFree.Loader

open Machine

/-- The blocks that were set last for a key. -/
abbrev LastSet := UInt8 → Option (List (List Assignment))

namespace Commands

/-- The slot that blocks for a key are stored in, if there is one. -/
def slotFor (commands : Commands) (key : UInt8) : Option Nat :=
  match commands.getToggleSlotForKey key with
  | some slot => some slot
  | none => if commands.togglesUsed = TOGGLES then none else some commands.togglesUsed

/-- Blocks are not stored for want of a slot, or there is one at least and all are
stored.  Nothing of an earlier block is left in one that is not reset. -/
def CanSet (commands : Commands) (key : UInt8) (parts : Parts) : Prop :=
  ∀ slot ∈ commands.slotFor key, parts.Fine ∧ parts.parts ≠ [] ∧
    AllFit commands.vars.names commands.vars.room (commands.withHeld slot parts.items) ∧
    ∀ bl block, MAX_VAR_PER_BLOCK ≤ bl → parts.blocks[bl]? = some block →
      ((commands.slots slot).blocks bl).nrVars ≤ block.length

/-- The argument is a command, and if it sets blocks it can. -/
def CanToggle (commands : Commands) : Toggle → Prop
  | .outside => False
  | .bad => True
  | .set key parts => commands.CanSet key parts
  | .select _ => True
  | .trigger var val inner => commands.vars.valueOf var = some val → commands.CanToggle inner

/-- What has been set last, after a command. -/
def noted (commands : Commands) (last : LastSet) : Toggle → LastSet
  | .set key parts =>
    if commands.slotFor key = none then last
    else Function.update last key (some parts.blocks)
  | .trigger var val inner =>
    if commands.vars.valueOf var = some val then commands.noted last inner else last
  | _ => last

/-- Each toggle in use has the blocks that were set last for its key, and stands at
one of them. -/
structure Shows (commands : Commands) (last : LastSet) : Prop where
  counted : ∀ slot < commands.togglesUsed, 1 ≤ (commands.slots slot).nrBlocks ∧
    (commands.slots slot).nrBlocks ≤ MAX_BLOCKS ∧
    (commands.slots slot).currentBlock < (commands.slots slot).nrBlocks
  few : ∀ slot bl, ((commands.slots slot).blocks bl).nrVars ≤ MAX_VAR_PER_BLOCK
  holds : ∀ slot < commands.togglesUsed, ∃ blocks, last (commands.slots slot).key = some blocks ∧
      blocks.length = (commands.slots slot).nrBlocks ∧
      ∀ bl block, blocks[bl]? = some block → commands.contents slot bl = block.map some
  found : ∀ key blocks, last key = some blocks →
    ∃ slot < commands.togglesUsed, (commands.slots slot).key = key

/-- The toggles in use come first, each with a key of its own. -/
structure Table (commands : Commands) : Prop where
  used_le : commands.togglesUsed ≤ TOGGLES
  used : ∀ slot < commands.togglesUsed, (commands.slots slot).key ≠ 0
  unused : ∀ slot, commands.togglesUsed ≤ slot → (commands.slots slot).key = 0
  distinct : ∀ slot < commands.togglesUsed, ∀ slot' < commands.togglesUsed,
    (commands.slots slot).key = (commands.slots slot').key → slot = slot'

/-- What is kept between commands. -/
structure Kept (commands : Commands) (last : LastSet) : Prop where
  inv : commands.Inv
  table : commands.Table
  shows : commands.Shows last

variable {commands commands' : Commands} {last : LastSet} {slot bl : Nat} {key : UInt8}
  {block : List Assignment}

theorem Table.toggleFindSlot_eq_some_iff (table : commands.Table) :
    commands.toggleFindSlot key = some slot ↔
      slot < commands.togglesUsed ∧ (commands.slots slot).key = key := by
  simp only [toggleFindSlot, List.find?_range_eq_some, decide_eq_true_eq, List.mem_range,
    Bool.not_eq_true', decide_eq_false_iff_not]
  constructor
  · rintro ⟨same, used, -⟩
    exact ⟨used, same⟩
  · rintro ⟨used, same⟩
    refine ⟨same, used, ?_⟩
    intro slot' before same'
    have equal := table.distinct slot' (Nat.lt_trans before used) slot used (same'.trans same.symm)
    omega

theorem Table.getToggleSlotForKey_eq (table : commands.Table) (nonzero : key ≠ 0) :
    commands.getToggleSlotForKey key = commands.toggleFindSlot key := by
  ext slot
  rw [table.toggleFindSlot_eq_some_iff]
  simp only [getToggleSlotForKey, List.find?_range_eq_some, decide_eq_true_eq,
    List.mem_range, Bool.not_eq_true', decide_eq_false_iff_not]
  constructor
  · rintro ⟨same, -, -⟩
    refine ⟨?_, same⟩
    by_contra unused
    exact nonzero (same.symm.trans (table.unused slot (Nat.le_of_not_lt unused)))
  · rintro ⟨used, same⟩
    refine ⟨same, Nat.lt_of_lt_of_le used table.used_le, ?_⟩
    intro slot' before same'
    have equal := table.distinct slot' (Nat.lt_trans before used) slot used (same'.trans same.symm)
    omega

theorem contents_of_grows (inv : commands.Inv) (grows : commands.vars.Grows commands'.vars)
    (same : (commands'.slots slot).blocks bl = (commands.slots slot).blocks bl)
    (contents : commands.contents slot bl = block.map some) :
    commands'.contents slot bl = block.map some := by
  rw [← contents]
  unfold Commands.contents entry
  rw [same]
  refine List.map_congr_left ?_
  intro var below
  have member : commands.vars.assignmentOf (commands.entry slot bl var) ∈
      commands.contents slot bl := List.mem_map_of_mem below
  rw [contents] at member
  obtain ⟨assignment, -, assigns⟩ := List.mem_map.mp member
  exact (grows.assignmentOf (inv.stand slot bl var) assigns.symm).trans assigns

theorem Kept.advance (kept : commands.Kept last) (inv' : commands'.Inv)
    (grows : commands.vars.Grows commands'.vars)
    (used : commands'.togglesUsed = commands.togglesUsed)
    (keys : ∀ slot, (commands'.slots slot).key = (commands.slots slot).key)
    (counts : ∀ slot, (commands'.slots slot).nrBlocks = (commands.slots slot).nrBlocks)
    (blocks : ∀ slot, (commands'.slots slot).blocks = (commands.slots slot).blocks)
    (current : ∀ slot < commands.togglesUsed,
      (commands'.slots slot).currentBlock < (commands.slots slot).nrBlocks) :
    commands'.Kept last := by
  obtain ⟨inv, table, shows'⟩ := kept
  refine ⟨inv', ⟨?_, ?_, ?_, ?_⟩, ⟨?_, ?_, ?_, ?_⟩⟩
  · rw [used]
    exact table.used_le
  · simpa only [used, keys] using table.used
  · simpa only [used, keys] using table.unused
  · simpa only [used, keys] using table.distinct
  · rw [used]
    intro slot below
    obtain ⟨positive, few, -⟩ := shows'.counted slot below
    rw [counts]
    exact ⟨positive, few, current slot below⟩
  · simpa only [blocks] using shows'.few
  · rw [used]
    intro slot below
    obtain ⟨set, found, length, holds⟩ := shows'.holds slot below
    rw [keys, counts]
    refine ⟨set, found, length, ?_⟩
    intro bl block at_bl
    exact contents_of_grows inv grows (congrFun (blocks slot) bl) (holds bl block at_bl)
  · simpa only [used, keys] using shows'.found

theorem Kept.blockAt (kept : commands.Kept last) (below : slot < commands.togglesUsed)
    (within : bl < (commands.slots slot).nrBlocks) :
    ∃ blocks block, last (commands.slots slot).key = some blocks ∧
      blocks[bl]? = some block ∧ commands.contents slot bl = block.map some := by
  obtain ⟨blocks, found, length, holds⟩ := kept.shows.holds slot below
  rw [← length] at within
  exact ⟨blocks, blocks[bl], found, List.getElem?_eq_getElem within,
    holds bl _ (List.getElem?_eq_getElem within)⟩

/-- The commands with a toggle standing at a block. -/
def standAt (commands : Commands) (slot bl : Nat) : Commands :=
  commands.change slot fun slot => { slot with currentBlock := bl }

section

variable {slot' : Nat}

theorem standAt_blocks : ((commands.standAt slot bl).slots slot').blocks =
    (commands.slots slot').blocks := by
  by_cases same : slot' = slot
  · subst same
    simp [standAt]
  · simp [standAt, same]

theorem standAt_key : ((commands.standAt slot bl).slots slot').key =
    (commands.slots slot').key := by
  by_cases same : slot' = slot
  · subst same
    simp [standAt]
  · simp [standAt, same]

theorem standAt_nrBlocks : ((commands.standAt slot bl).slots slot').nrBlocks =
    (commands.slots slot').nrBlocks := by
  by_cases same : slot' = slot
  · subst same
    simp [standAt]
  · simp [standAt, same]

theorem standAt_currentBlock : ((commands.standAt slot bl).slots slot').currentBlock =
    if slot' = slot then bl else (commands.slots slot').currentBlock := by
  by_cases same : slot' = slot
  · subst same
    simp [standAt]
  · simp [standAt, same]

end

theorem Kept.standAt (kept : commands.Kept last) (within : bl < (commands.slots slot).nrBlocks) :
    (commands.standAt slot bl).Kept last := by
  have entries : ∀ slot' bl' var,
      (commands.standAt slot bl).entry slot' bl' var = commands.entry slot' bl' var := by
    intro slot' bl' var
    simp only [entry, standAt_blocks]
  refine kept.advance (kept.inv.congr rfl entries) (.refl _) rfl (fun _ => standAt_key)
    (fun _ => standAt_nrBlocks) (fun _ => standAt_blocks) ?_
  intro slot' below
  rw [standAt_currentBlock]
  split_ifs with same
  · rw [same]
    exact within
  · exact (kept.shows.counted slot' below).2.2

theorem Kept.withBlock (kept : commands.Kept last) (below : slot < commands.togglesUsed)
    (within : bl < (commands.slots slot).nrBlocks) :
    commands.toggleDoBlock slot bl = .ok (true, commands.withBlock slot bl) ∧
      (commands.withBlock slot bl).Kept last ∧
      ∀ blocks block, last (commands.slots slot).key = some blocks → blocks[bl]? = some block →
        (commands.withBlock slot bl).vars.valueOf = applied commands.vars.valueOf block := by
  obtain ⟨blocks, block, found, at_bl, contents⟩ := kept.blockAt below within
  obtain ⟨done, inv', grows, values⟩ := toggleDoBlock_of_contents kept.inv below within contents
  refine ⟨done, ?_, ?_⟩
  · exact kept.advance inv' grows rfl (fun _ => rfl) (fun _ => rfl) (fun _ => rfl)
      (fun slot below => (kept.shows.counted slot below).2.2)
  · intro blocks' block' found' at_bl'
    obtain rfl := Option.some.inj (found.symm.trans found')
    obtain rfl := Option.some.inj (at_bl.symm.trans at_bl')
    exact values

theorem next_eq_mod {current count : Nat} (below : current < count) :
    (if current + 1 = count then 0 else current + 1) = (current + 1) % count := by
  split_ifs with last
  · rw [last, Nat.mod_self]
  · exact (Nat.mod_eq_of_lt (Nat.lt_of_le_of_ne below last)).symm

/-- A key that is pressed goes on to the next block. -/
structure Pressed (commands : Commands) (last : LastSet) (slot : Nat)
    (commands' : Commands) : Prop where
  kept : commands'.Kept last
  used : commands'.togglesUsed = commands.togglesUsed
  key : (commands'.slots slot).key = (commands.slots slot).key
  count : (commands'.slots slot).nrBlocks = (commands.slots slot).nrBlocks
  current : (commands'.slots slot).currentBlock =
    ((commands.slots slot).currentBlock + 1) % (commands.slots slot).nrBlocks
  values : ∀ blocks block, last (commands.slots slot).key = some blocks →
    blocks[(commands'.slots slot).currentBlock]? = some block →
    commands'.vars.valueOf = applied commands.vars.valueOf block

theorem Kept.press (kept : commands.Kept last) (below : slot < commands.togglesUsed) :
    ∃ commands', commands.toggleDoKey (commands.slots slot).key = .ok (true, commands') ∧
      commands.Pressed last slot commands' := by
  obtain ⟨positive, -, current⟩ := kept.shows.counted slot below
  have next := next_eq_mod current
  have within : ((commands.slots slot).currentBlock + 1) % (commands.slots slot).nrBlocks <
      (commands.slots slot).nrBlocks := Nat.mod_lt _ positive
  have found : commands.toggleFindSlot (commands.slots slot).key = some slot :=
    kept.table.toggleFindSlot_eq_some_iff.mpr ⟨below, rfl⟩
  have kept' := kept.standAt within
  have current' : ((commands.standAt slot (((commands.slots slot).currentBlock + 1) %
      (commands.slots slot).nrBlocks)).slots slot).currentBlock =
      ((commands.slots slot).currentBlock + 1) % (commands.slots slot).nrBlocks := by
    rw [standAt_currentBlock, if_pos rfl]
  obtain ⟨done, kept'', values⟩ := @Kept.withBlock _ _ slot
    (((commands.slots slot).currentBlock + 1) % (commands.slots slot).nrBlocks) kept' below
    (by rw [standAt_nrBlocks]; exact within)
  refine ⟨_, ?_, kept'', rfl, standAt_key, standAt_nrBlocks, current', ?_⟩
  · have turned : (commands.change slot fun slot =>
        { slot with
          currentBlock :=
            if slot.currentBlock + 1 = slot.nrBlocks then 0 else slot.currentBlock + 1 }) =
        commands.standAt slot (((commands.slots slot).currentBlock + 1) %
          (commands.slots slot).nrBlocks) := by
      rw [← next]
      rfl
    simp only [toggleDoKey, found, turned, current', done, bind_ok]
    rfl
  · intro blocks block set at_block
    refine values blocks block ?_ ?_
    · rw [standAt_key]
      exact set
    · rw [← at_block]
      exact congrArg (blocks[·]?) current'.symm

/-- A key is pressed some times. -/
def presses (key : UInt8) : Nat → Commands → Run Commands
  | 0, commands => .ok commands
  | m + 1, commands => do
      let (_, commands) ← commands.toggleDoKey key
      presses key m commands

/-- Each toggle in use goes round its blocks and applies them. -/
def Cycles (commands : Commands) (last : LastSet) : Prop :=
  ∀ slot < commands.togglesUsed, ∀ m, ∃ before after,
    presses (commands.slots slot).key m commands = .ok before ∧
      before.toggleDoKey (commands.slots slot).key = .ok (true, after) ∧
      (after.slots slot).currentBlock =
        ((commands.slots slot).currentBlock + m + 1) % (commands.slots slot).nrBlocks ∧
      ∀ blocks block, last (commands.slots slot).key = some blocks →
        blocks[(after.slots slot).currentBlock]? = some block →
        after.vars.valueOf = applied before.vars.valueOf block

theorem Kept.cycles (kept : commands.Kept last) : commands.Cycles last := by
  intro slot below m
  induction m generalizing commands with
  | zero =>
    obtain ⟨after, done, pressed⟩ := kept.press below
    exact ⟨commands, after, rfl, done, pressed.current, pressed.values⟩
  | succ m ih =>
    obtain ⟨next, done, pressed⟩ := kept.press below
    obtain ⟨before, after, ran, last', current, values⟩ := ih pressed.kept (pressed.used ▸ below)
    rw [pressed.key] at ran last' values
    refine ⟨before, after, ?_, last', ?_, values⟩
    · simp only [presses, done, bind_ok, ran]
    · rw [current, pressed.current, pressed.count, Nat.add_assoc, Nat.mod_add_mod]
      congr 1
      omega

theorem Kept.select (kept : commands.Kept last) (keyboard : Keyboard)
    (selections : List Selection) :
    ∃ ret commands', toggleSelect keyboard selections commands = .ok (ret, commands') ∧
      commands'.Kept last := by
  induction selections generalizing commands with
  | nil => exact ⟨.ok, commands, rfl, kept⟩
  | cons selection rest ih =>
    obtain ⟨key, number⟩ := selection
    unfold toggleSelect
    split_ifs with leave
    · exact ⟨.left, commands, rfl, kept⟩
    · cases number with
      | none => exact ⟨.badArg, commands, rfl, kept⟩
      | some bl =>
        cases found : commands.toggleFindSlot key with
        | none => exact ⟨.badArg, commands, rfl, kept⟩
        | some slot =>
          obtain ⟨below, -⟩ := kept.table.toggleFindSlot_eq_some_iff.mp found
          by_cases within : bl < (commands.slots slot).nrBlocks
          · obtain ⟨done, kept', -⟩ := kept.withBlock below within
            obtain ⟨ret, commands', ran, kept''⟩ := ih (@Kept.standAt _ _ slot bl kept' within)
            refine ⟨ret, commands', ?_, kept''⟩
            simp only [done, bind_ok, if_true]
            exact ran
          · have undone : commands.toggleDoBlock slot bl = .ok (false, commands) :=
              if_pos (.inr (Nat.le_of_not_lt within))
            refine ⟨.badArg, commands, ?_, kept⟩
            simp only [undone, bind_ok, Bool.false_eq_true, if_false]
            rfl

end Commands

end OsFree.Loader
