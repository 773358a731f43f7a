import Mathlib.Data.List.ReduceOption
import Mathlib.Logic.Function.Basic
import OsFree.Loader.Variables

/-!
# The arguments of the command for toggles

The command reads its argument while it stores what it finds.  Nothing that is
stored changes how the rest is read, so that the argument is read first here.
-/

namespace OsFree.Loader

def isspace (c : UInt8) : Bool := c = 0x20 ∨ c = 0x09 ∨ c = 0x0d ∨ c = 0x0a

def skipWs (text : List UInt8) : List UInt8 := text.dropWhile isspace

/-- '=' -/
def equals : UInt8 := 0x3d

/-- '\x7b' and '\x7d' -/
def openBrace : UInt8 := 0x7b
def closeBrace : UInt8 := 0x7d

/-- ',' -/
def comma : UInt8 := 0x2c

/-- What is assigned to a variable. -/
structure Assignment where
  name : List UInt8
  value : List UInt8
  deriving DecidableEq

/-- An assignment in a block.  The name ends at a blank or an equals sign, or
before the last character. -/
def parseVar (text : List UInt8) : Option Assignment :=
  let start := skipWs text
  let name := start.dropLast.takeWhile fun c => c ≠ equals ∧ ¬ isspace c
  match skipWs (start.drop name.length) with
  | [] => none
  | c :: rest => if c = equals then some ⟨name, skipWs rest⟩ else none

/-- The parts between commas; the last character is no comma between parts. -/
def splitBlock : List UInt8 → List UInt8 → List (List UInt8)
  | _, [] => []
  | part, [c] => [part ++ [c]]
  | part, c :: c' :: rest =>
    if c = comma then part :: splitBlock [] (c' :: rest)
    else splitBlock (part ++ [c]) (c' :: rest)

/-- A block of assignments, each of which may be malformed, and whether something
follows the block. -/
structure Part where
  assignments : List (Option Assignment)
  more : Bool
  deriving DecidableEq

/-- The blocks of an argument, and whether it ends well behind them. -/
structure Parts where
  parts : List Part
  ends : Bool
  deriving DecidableEq

/-- Read blocks; inside a block, its start has been read. -/
def parseBlocks : Option (List UInt8) → List UInt8 → Parts
  | none, [] => ⟨[], true⟩
  | some _, [] => ⟨[], false⟩
  | none, c :: rest =>
    if isspace c then parseBlocks none rest
    else if c = openBrace then parseBlocks (some []) rest
    else ⟨[], false⟩
  | some block, c :: rest =>
    if c = closeBrace then
      let others := parseBlocks none rest
      { others with
        parts := ⟨(splitBlock [] block).map parseVar, !rest.isEmpty⟩ :: others.parts }
    else parseBlocks (some (block ++ [c])) rest

/-- The digit that a character is, below the base. -/
def digitOf (base : Nat) (c : UInt8) : Option Nat :=
  if 0x30 ≤ c ∧ c ≤ 0x39 then some (c.toNat - 0x30)
  else if base = 16 ∧ 0x61 ≤ c ∧ c ≤ 0x66 then some (c.toNat - 0x57)
  else if base = 16 ∧ 0x41 ≤ c ∧ c ≤ 0x46 then some (c.toNat - 0x37)
  else none

def MAXINT : Nat := 0x7fffffff

/-- Read digits; none if the number gets too large. -/
def parseDigits (base : Nat) : Nat → List UInt8 → Option (Nat × List UInt8)
  | value, [] => some (value, [])
  | value, c :: rest =>
    match digitOf base c with
    | none => some (value, c :: rest)
    | some digit =>
      if (MAXINT - digit) / base < value then none
      else parseDigits base (value * base + digit) rest

/-- Read a number of some base, which has a digit at least. -/
def parseNumber (base : Nat) (text : List UInt8) : Option (Nat × List UInt8) :=
  match text with
  | [] => none
  | c :: _ => if (digitOf base c).isSome then parseDigits base 0 text else none

/-- Read a number that is not negative. -/
def safeParseMaxint (text : List UInt8) : Option (Nat × List UInt8) :=
  match text with
  | 0x30 :: c :: rest =>
    if c = 0x78 ∨ c = 0x58 then parseNumber 16 rest else parseNumber 10 text
  | _ => parseNumber 10 text

/-- A key and the number of a block, if one follows. -/
structure Selection where
  key : UInt8
  block : Option Nat
  deriving DecidableEq

section

variable {base value value' : Nat} {text rest : List UInt8}

theorem length_skipWs_le (text : List UInt8) : (skipWs text).length ≤ text.length :=
  (List.dropWhile_suffix _).length_le

theorem length_of_parseDigits (read : parseDigits base value text = some (value', rest)) :
    rest.length ≤ text.length := by
  induction text generalizing value with
  | nil =>
    cases read
    exact Nat.le_refl _
  | cons c text ih =>
    unfold parseDigits at read
    split at read
    · cases read
      exact Nat.le_refl _
    · split at read
      · cases read
      · exact Nat.le_succ_of_le (ih read)

theorem length_of_parseNumber (read : parseNumber base text = some (value', rest)) :
    rest.length ≤ text.length := by
  unfold parseNumber at read
  split at read
  · cases read
  · split at read
    · exact length_of_parseDigits read
    · cases read

theorem length_of_safeParseMaxint (read : safeParseMaxint text = some (value', rest)) :
    rest.length ≤ text.length := by
  unfold safeParseMaxint at read
  split at read
  · split at read
    · have short := length_of_parseNumber read
      simp only [List.length_cons]
      omega
    · exact length_of_parseNumber read
  · exact length_of_parseNumber read

end

/-- Read the selections of an argument, as far as they are well formed. -/
def parseSelections (text : List UInt8) : List Selection :=
  match text with
  | [] => []
  | [key] => [⟨key, none⟩]
  | key :: c :: number =>
    if c = equals then
      match _read : safeParseMaxint number with
      | none => [⟨key, none⟩]
      | some (block, rest) => ⟨key, some block⟩ :: parseSelections (skipWs rest)
    else [⟨key, none⟩]
termination_by text.length
decreasing_by
  have short := length_of_safeParseMaxint _read
  have shorter := length_skipWs_le rest
  simp only [List.length_cons]
  omega

/-- What an argument of the command says: a key and its blocks, selections, or
another argument if a variable has some value.  A word may not end before the
argument does. -/
inductive Head where
  | outside
  | bad
  | set (key : UInt8) (parts : Parts)
  | select (selections : List Selection)
  | trigger (var val inner : List UInt8)
  deriving DecidableEq

/-- "set", "select" and "trigger" -/
def setWord : List UInt8 := [0x73, 0x65, 0x74]
def selectWord : List UInt8 := [0x73, 0x65, 0x6c, 0x65, 0x63, 0x74]
def triggerWord : List UInt8 := [0x74, 0x72, 0x69, 0x67, 0x67, 0x65, 0x72]

/-- The first word of a text. -/
def word (text : List UInt8) : List UInt8 := text.takeWhile (¬ isspace ·)

/-- What follows the first word, from the blank on. -/
def behindWord (text : List UInt8) : List UInt8 := text.dropWhile (¬ isspace ·)

/-- What follows the word "set". -/
def parseSet (text : List UInt8) : Head :=
  match text with
  | key :: c :: rest => .set key (parseBlocks none (c :: rest))
  | _ => .bad

/-- Part of the name of a variable before an equals sign. -/
def inName (c : UInt8) : Bool := c ≠ blank ∧ c ≠ equals

/-- What follows the word "trigger". -/
def parseTrigger (text : List UInt8) : Head :=
  match text.dropWhile inName with
  | c :: c' :: behind =>
    if c = equals ∧ c' = equals ∧ text.takeWhile inName ≠ [] then
      if behindWord behind = [] then .outside
      else if word behind = [] then .bad
      else .trigger (text.takeWhile inName) (word behind) (skipWs (behindWord behind))
    else .bad
  | _ => .bad

def parseHead (arg : List UInt8) : Head :=
  let a := arg.dropWhile (· = blank)
  if behindWord a = [] then .outside
  else
    let rest := skipWs (behindWord a)
    if word a = setWord then parseSet rest
    else if word a = selectWord then .select (parseSelections rest)
    else if word a = triggerWord then parseTrigger rest
    else .bad

section

variable {text arg var val inner : List UInt8}

theorem length_of_parseTrigger (read : parseTrigger text = .trigger var val inner) :
    inner.length < text.length := by
  have rest := (List.dropWhile_suffix (l := text) inName).length_le
  unfold parseTrigger at read
  split at read
  case h_1 c c' behind found =>
    rw [found] at rest
    split_ifs at read
    cases read
    have shorter := length_skipWs_le (behindWord behind)
    have behindLe : (behindWord behind).length ≤ behind.length :=
      (List.dropWhile_suffix _).length_le
    simp only [List.length_cons] at rest
    omega
  case h_2 => cases read

theorem length_of_parseHead (read : parseHead arg = .trigger var val inner) :
    inner.length < arg.length := by
  have start := (List.dropWhile_suffix (l := arg) (· = blank)).length_le
  have behindLe : (behindWord (arg.dropWhile (· = blank))).length ≤
      (arg.dropWhile (· = blank)).length := (List.dropWhile_suffix _).length_le
  have rest := length_skipWs_le (behindWord (arg.dropWhile (· = blank)))
  simp only [parseHead] at read
  split_ifs at read
  · unfold parseSet at read
    split at read <;> cases read
  · have shorter := length_of_parseTrigger read
    omega

end

/-- An argument that has been read to its end. -/
inductive Toggle where
  | outside
  | bad
  | set (key : UInt8) (parts : Parts)
  | select (selections : List Selection)
  | trigger (var val : List UInt8) (inner : Toggle)
  deriving DecidableEq

/-- Read an argument. -/
def parseToggle (arg : List UInt8) : Toggle :=
  match _read : parseHead arg with
  | .outside => .outside
  | .bad => .bad
  | .set key parts => .set key parts
  | .select selections => .select selections
  | .trigger var val inner => .trigger var val (parseToggle inner)
termination_by arg.length
decreasing_by exact length_of_parseHead _read

/-!
## Toggles of the boot loader

A toggle is a key with blocks of assignments, whose values stand in the store of
the variables.  Pressing the key goes on to the next block.
-/

section

open Machine

def TOGGLES : Nat := 24
def MAX_BLOCKS : Nat := 24
def MAX_VAR_PER_BLOCK : Nat := 5

/-- An assignment: the index of a variable, none for -1, and the place of the
value. -/
structure Entry where
  var : Option Nat
  value : Option Nat
  deriving DecidableEq

structure Block where
  nrVars : Nat
  entries : Nat → Entry

structure Slot where
  key : UInt8
  currentBlock : Nat
  nrBlocks : Nat
  blocks : Nat → Block

/-- The commands that `prev_cmd` tells of. -/
inductive PrevCmd where
  | initial
  | none
  | trigger
  deriving DecidableEq

/-- The variables, the toggles and how many are in use, and the last command. -/
structure Commands where
  vars : Variables
  slots : Nat → Slot
  togglesUsed : Nat
  prevCmd : PrevCmd

/-- The key that has been pressed last, and whether only triggers are looked at. -/
structure Keyboard where
  lastKeyPressed : UInt8
  triggersOnly : Bool
  deriving DecidableEq

/-- How a command ends; it may be left early without an error. -/
inductive Ret where
  | ok
  | left
  | wontFit
  | badArg
  deriving DecidableEq

/-- A block with an entry in a place. -/
@[simps] def Block.enter (block : Block) (var : Nat) (entry : Entry) : Block where
  nrVars := block.nrVars
  entries := Function.update block.entries var entry

/-- A block that has at least some number of entries. -/
@[simps] def Block.grow (block : Block) (count : Nat) : Block where
  nrVars := max block.nrVars count
  entries := block.entries

/-- A slot with a block changed. -/
@[simps] def Slot.change (slot : Slot) (bl : Nat) (f : Block → Block) : Slot where
  key := slot.key
  currentBlock := slot.currentBlock
  nrBlocks := slot.nrBlocks
  blocks := Function.update slot.blocks bl (f (slot.blocks bl))

/-- A slot without blocks.  Of the blocks themselves only the first ones are
reset, as many as a block has variables. -/
@[simps] def Slot.reset (slot : Slot) : Slot where
  key := slot.key
  currentBlock := 0
  nrBlocks := 0
  blocks := fun bl =>
    if bl < MAX_VAR_PER_BLOCK then { slot.blocks bl with nrVars := 0 } else slot.blocks bl

namespace Commands

variable (commands : Commands)

/-- Nothing has been set. -/
def initial : Commands where
  vars := .initial
  slots := fun _ => ⟨0, 0, 0, fun _ => ⟨0, fun _ => ⟨some 0, none⟩⟩⟩
  togglesUsed := 0
  prevCmd := .initial

/-- Change a slot. -/
@[simps] def change (slot : Nat) (f : Slot → Slot) : Commands where
  vars := commands.vars
  slots := Function.update commands.slots slot (f (commands.slots slot))
  togglesUsed := commands.togglesUsed
  prevCmd := commands.prevCmd

/-- Change a block. -/
def changeBlock (slot bl : Nat) (f : Block → Block) : Commands :=
  commands.change slot (·.change bl f)

def entry (slot bl var : Nat) : Entry := ((commands.slots slot).blocks bl).entries var

/-- Set the variables of entries to their values. -/
def applyEntries : List Entry → Variables → Run Variables
  | [], vars => .ok vars
  | entry :: rest, vars =>
    match entry.var, entry.value with
    | none, _ => .error .readOutside
    | some _, none => applyEntries rest vars
    | some l, some value =>
      match vars.list[l]? with
      | none => .error .nullPointer
      | some var => do
          let name ← vars.store.stringAt var.name
          let (_, vars) ← vars.varSetNoCopy name (some value)
          applyEntries rest vars

def toggleDoBlock (slot blockNr : Nat) : Run (Bool × Commands) :=
  if commands.togglesUsed ≤ slot ∨ (commands.slots slot).nrBlocks ≤ blockNr then
    .ok (false, commands)
  else do
    let block := (commands.slots slot).blocks blockNr
    let vars ← applyEntries ((List.range block.nrVars).map block.entries) commands.vars
    return (true, { commands with vars })

/-- The slot in use for a key. -/
def toggleFindSlot (key : UInt8) : Option Nat :=
  (List.range commands.togglesUsed).find? fun i => (commands.slots i).key = key

/-- The slot for a key, of those not in use too. -/
def getToggleSlotForKey (key : UInt8) : Option Nat :=
  (List.range TOGGLES).find? fun i => (commands.slots i).key = key

/-- A key is pressed.  It is told whether a slot belongs to it. -/
def toggleDoKey (key : UInt8) : Run (Bool × Commands) :=
  match commands.toggleFindSlot key with
  | none => .ok (false, commands)
  | some slot => do
      let commands := commands.change slot fun slot =>
        { slot with
          currentBlock :=
            if slot.currentBlock + 1 = slot.nrBlocks then 0 else slot.currentBlock + 1 }
      let (_, commands) ← commands.toggleDoBlock slot (commands.slots slot).currentBlock
      return (true, commands)

/-- The value is stored for an entry already. -/
def reuses (entry : Entry) (assignment : Assignment) : Run Bool :=
  match entry.value with
  | none => .ok false
  | some place => do
      match ← commands.vars.varGetIndex assignment.name with
      | none => return false
      | some _ =>
        let text ← commands.vars.store.stringAt place
        return text = assignment.value

/-- Store the assignment for an entry.  It is told whether this has been done. -/
def processVar (slot bl var : Nat) (assignment : Option Assignment) :
    Run (Bool × Commands) :=
  match assignment with
  | none => .ok (false, commands)
  | some assignment => do
      if ← commands.reuses (commands.entry slot bl var) assignment then
        return (true, commands.changeBlock slot bl (·.grow (var + 1)))
      else
        match ← commands.vars.keep assignment.value with
        | none => return (false, commands)
        | some (v, vars) => do
            let (_, vars) ← vars.varSetNoCopy assignment.name (some v)
            match ← vars.varGetIndex assignment.name with
            | none =>
              let old := (commands.entry slot bl var).value
              return (false, { commands with vars }.changeBlock slot bl (·.enter var ⟨none, old⟩))
            | some i =>
              return (true, { commands with vars }.changeBlock slot bl fun block =>
                  (block.enter var ⟨some i, some v⟩).grow (var + 1))

/-- Store the assignments of a block from an entry on. -/
def processBlock (slot bl : Nat) : List (Option Assignment) → Nat → Commands → Run (Ret × Commands)
  | [], _, commands => .ok (.ok, commands)
  | assignment :: rest, var, commands =>
    if var = MAX_VAR_PER_BLOCK then .ok (.wontFit, commands)
    else do
      let (fine, commands) ← commands.processVar slot bl var assignment
      if fine then processBlock slot bl rest (var + 1) commands
      else return (.badArg, commands)

/-- Store the blocks of an argument, and count them. -/
def processBlocks (slot : Nat) (ends : Bool) :
    List Part → Nat → Commands → Run (Ret × Nat × Commands)
  | [], block, commands => .ok (if ends then .ok else .badArg, block, commands)
  | part :: parts, block, commands => do
      let (ret, commands) ← processBlock slot block part.assignments 0 commands
      if ret ≠ .ok then return (ret, block, commands)
      else if part.more ∧ block + 1 = MAX_BLOCKS then
        return (.wontFit, block + 1, commands)
      else processBlocks slot ends parts (block + 1) commands

/-- Set the blocks of a slot, and the variables of the first block. -/
def setSlot (slot : Nat) (parts : Parts) : Run (Ret × Commands) := do
  let (ret, block, commands) ← processBlocks slot parts.ends parts.parts 0
    (commands.change slot Slot.reset)
  if ret ≠ .ok then return (ret, commands)
  else
    let (_, commands) ← (commands.change slot fun slot =>
      { slot with nrBlocks := block }).toggleDoBlock slot 0
    return (.ok, commands)

/-- The slot is taken for a key. -/
def takeSlot (key : UInt8) : Commands :=
  { commands.change commands.togglesUsed fun slot => { slot with key } with
    togglesUsed := commands.togglesUsed + 1 }

def toggleSet (key : UInt8) (parts : Parts) : Run (Ret × Commands) :=
  match commands.getToggleSlotForKey key with
  | some slot => commands.setSlot slot parts
  | none =>
    if commands.togglesUsed = TOGGLES then .ok (.wontFit, commands)
    else (commands.takeSlot key).setSlot commands.togglesUsed parts

/-- Select blocks, one after the other. -/
def toggleSelect (keyboard : Keyboard) : List Selection → Commands → Run (Ret × Commands)
  | [], commands => .ok (.ok, commands)
  | selection :: rest, commands =>
    if selection.key = keyboard.lastKeyPressed ∨
        (commands.prevCmd ≠ .trigger ∧ keyboard.triggersOnly) then
      .ok (.left, commands)
    else
      match selection.block, commands.toggleFindSlot selection.key with
      | some block, some slot => do
          let (done, commands) ← commands.toggleDoBlock slot block
          if done then
            toggleSelect keyboard rest
              (commands.change slot fun slot => { slot with currentBlock := block })
          else return (.badArg, commands)
      | _, _ => .ok (.badArg, commands)

/-- A command that comes to its end is the last one. -/
def finish (outcome : Ret × Commands) : Ret × Commands :=
  if outcome.1 = .ok then (.ok, { outcome.2 with prevCmd := .none }) else outcome

/-- Do what an argument says. -/
def runToggle (keyboard : Keyboard) : Toggle → Commands → Run (Ret × Commands)
  | .outside, _ => .error .readOutside
  | .bad, commands => .ok (.badArg, commands)
  | .set key parts, commands => finish <$> commands.toggleSet key parts
  | .select selections, commands => finish <$> toggleSelect keyboard selections commands
  | .trigger var val inner, commands => do
      match ← commands.vars.varGet var with
      | none => return (.badArg, commands)
      | some place =>
        let vrval ← commands.vars.store.stringAt place
        let commands := { commands with prevCmd := .trigger }
        if vrval = val then
          let (_, commands) ← runToggle keyboard inner commands
          return finish (.ok, commands)
        else return finish (.ok, commands)

def toggleFunc (keyboard : Keyboard) (arg : List UInt8) : Run (Ret × Commands) :=
  runToggle keyboard (parseToggle arg) commands

end Commands

end

/-!
## The assignments of an argument

The assignments of blocks in the order in which they are stored, as far as the
first mistake.
-/

/-- An assignment of two strings. -/
def Assignment.Clean (assignment : Assignment) : Prop := 0 ∉ assignment.name ∧ 0 ∉ assignment.value

/-- An assignment and the entry that it is for. -/
structure Item where
  bl : Nat
  var : Nat
  assignment : Assignment
  deriving DecidableEq

/-- The assignments of a block from an entry on, and whether all are well formed
and none is too much. -/
def readBlock (bl : Nat) : Nat → List (Option Assignment) → List Item × Bool
  | _, [] => ([], true)
  | _, none :: _ => ([], false)
  | var, some assignment :: rest =>
    if var = MAX_VAR_PER_BLOCK then ([], false)
    else
      let others := readBlock bl (var + 1) rest
      (⟨bl, var, assignment⟩ :: others.1, others.2)

/-- The assignments of blocks from one on, and whether there is no mistake. -/
def readParts (ends : Bool) : Nat → List Part → List Item × Bool
  | _, [] => ([], ends)
  | bl, part :: parts =>
    let own := readBlock bl 0 part.assignments
    if own.2 ∧ ¬ (part.more ∧ bl + 1 = MAX_BLOCKS) then
      let others := readParts ends (bl + 1) parts
      (own.1 ++ others.1, others.2)
    else (own.1, false)

namespace Parts

variable (parts : Parts)

/-- The assignments before the first mistake. -/
def items : List Item := (readParts parts.ends 0 parts.parts).1

/-- There is no mistake. -/
def Fine : Prop := (readParts parts.ends 0 parts.parts).2 = true

instance : Decidable parts.Fine := inferInstanceAs (Decidable (_ = _))

/-- The assignments of each block. -/
def blocks : List (List Assignment) := parts.parts.map fun part => part.assignments.reduceOption

end Parts

/-- The assignments of blocks, each with its entry. -/
def layout (bl : Nat) (blocks : List (List Assignment)) : List Item :=
  (blocks.zipIdx bl).flatMap fun block =>
    block.1.zipIdx.map fun assignment => ⟨block.2, assignment.2, assignment.1⟩

section

variable {bl var : Nat} {assignments : List (Option Assignment)} {ends : Bool}
  {parts : List Part} {blocks : List (List Assignment)} {item : Item}

theorem readBlock_of_fine (fine : (readBlock bl var assignments).2 = true)
    (few : var ≤ MAX_VAR_PER_BLOCK) :
    assignments = assignments.reduceOption.map some ∧
      var + assignments.reduceOption.length ≤ MAX_VAR_PER_BLOCK ∧
      (readBlock bl var assignments).1 = (assignments.reduceOption.zipIdx var).map fun assignment =>
          ⟨bl, assignment.2, assignment.1⟩ := by
  induction assignments generalizing var with
  | nil => exact ⟨rfl, few, rfl⟩
  | cons assignment rest ih =>
    cases assignment with
    | none => cases fine
    | some assignment =>
      by_cases full : var = MAX_VAR_PER_BLOCK
      · simp [readBlock, full] at fine
      · simp only [readBlock, if_neg full] at fine ⊢
        obtain ⟨same, within, read⟩ := ih fine (Nat.lt_of_le_of_ne few full)
        refine ⟨?_, ?_, ?_⟩
        · rw [List.reduceOption_cons_of_some, List.map_cons, ← same]
        · rw [List.reduceOption_cons_of_some, List.length_cons]
          omega
        · rw [List.reduceOption_cons_of_some, List.zipIdx_cons, List.map_cons, read]

theorem readParts_of_fine (fine : (readParts ends bl parts).2 = true) :
    (readParts ends bl parts).1 = layout bl (parts.map fun part => part.assignments.reduceOption) ∧
      ∀ part ∈ parts, part.assignments = part.assignments.reduceOption.map some ∧
        part.assignments.reduceOption.length ≤ MAX_VAR_PER_BLOCK := by
  induction parts generalizing bl with
  | nil => exact ⟨rfl, fun _ member => absurd member List.not_mem_nil⟩
  | cons part parts ih =>
    simp only [readParts] at fine ⊢
    split_ifs at fine ⊢ with own
    obtain ⟨same, within, read⟩ := readBlock_of_fine own.1 (Nat.zero_le _)
    obtain ⟨others, all⟩ := ih fine
    constructor
    · rw [read, others]
      rfl
    · intro part' member
      rcases List.mem_cons.mp member with rfl | member
      · exact ⟨same, by omega⟩
      · exact all part' member

theorem mem_layout : item ∈ layout bl blocks ↔ bl ≤ item.bl ∧
    ∃ block, blocks[item.bl - bl]? = some block ∧ block[item.var]? = some item.assignment := by
  simp only [layout, List.mem_flatMap, List.mem_map, Prod.exists,
    List.mem_zipIdx_iff_le_and_getElem?_sub, Nat.zero_le, true_and, Nat.sub_zero]
  constructor
  · rintro ⟨block, bl, found, assignment, var, found', rfl⟩
    exact ⟨found.1, block, found.2, found'⟩
  · rintro ⟨above, block, found, found'⟩
    exact ⟨block, item.bl, ⟨above, found⟩, item.assignment, item.var, found', rfl⟩

theorem zipIdx_pairwise {α : Type} (list : List α) (start : Nat) :
    (list.zipIdx start).Pairwise fun entry entry' => entry.2 ≠ entry'.2 := by
  have nodup : ((list.zipIdx start).map Prod.snd).Nodup := by
    rw [List.zipIdx_map_snd]
    exact List.nodup_range'
  exact List.pairwise_map.mp nodup

theorem layout_pairwise : (layout bl blocks).Pairwise fun item item' =>
    ¬ (item.bl = item'.bl ∧ item.var = item'.var) := by
  rw [layout, List.pairwise_flatMap]
  constructor
  · intro block _
    rw [List.pairwise_map]
    refine (zipIdx_pairwise block.1 0).imp ?_
    intro assignment assignment' different same
    exact different same.2
  · refine (zipIdx_pairwise blocks bl).imp ?_
    intro block block' different item member item' member' same
    obtain ⟨assignment, -, rfl⟩ := List.mem_map.mp member
    obtain ⟨assignment', -, rfl⟩ := List.mem_map.mp member'
    exact different same.1

end

/-- The assignments are of strings, and a block that is not the last one is told to
have something behind it. -/
structure Parts.Proper (parts : Parts) : Prop where
  clean : ∀ part ∈ parts.parts, ∀ assignment, some assignment ∈ part.assignments → assignment.Clean
  more : parts.parts.Pairwise fun part _ => part.more = true

/-- The blocks of an argument are proper, and a key is a character. -/
def Toggle.Proper : Toggle → Prop
  | .set key parts => key ≠ 0 ∧ parts.Proper
  | .trigger _ _ inner => inner.Proper
  | _ => True

section

variable {text part part' block arg : List UInt8} {assignment : Assignment}

theorem clean_of_parseVar (nonzero : 0 ∉ text) (read : parseVar text = some assignment) :
    assignment.Clean := by
  have start : ∀ c ∈ skipWs text, c ∈ text := (List.dropWhile_suffix _).subset
  unfold parseVar at read
  dsimp only at read
  split at read
  · cases read
  · rename_i c rest found
    split_ifs at read
    cases read
    constructor
    · intro zero
      exact nonzero (start 0 (List.dropLast_subset _ ((List.takeWhile_sublist _).subset zero)))
    · intro zero
      have among : (0 : UInt8) ∈ c :: rest :=
        List.mem_cons_of_mem c ((List.dropWhile_suffix _).subset zero)
      rw [← found] at among
      exact nonzero (start 0 (List.mem_of_mem_drop ((List.dropWhile_suffix _).subset among)))

theorem zero_notMem_of_splitBlock (nonzero : 0 ∉ part) (nonzero' : 0 ∉ block)
    (among : part' ∈ splitBlock part block) : 0 ∉ part' := by
  fun_induction splitBlock part block with
  | case1 => cases among
  | case2 part c =>
    rw [List.mem_singleton.mp among, List.mem_append]
    exact not_or.mpr ⟨nonzero, nonzero'⟩
  | case3 part c' rest ih =>
    have behind : (0 : UInt8) ∉ c' :: rest := fun zero => nonzero' (List.mem_cons_of_mem comma zero)
    rcases List.mem_cons.mp among with rfl | among
    · exact nonzero
    · exact ih List.not_mem_nil behind among
  | case4 part c c' rest separate ih =>
    have behind : (0 : UInt8) ∉ c' :: rest := fun zero => nonzero' (List.mem_cons_of_mem c zero)
    refine ih ?_ behind among
    rw [List.mem_append, List.mem_singleton]
    exact not_or.mpr ⟨nonzero, fun zero => nonzero' (zero ▸ List.mem_cons_self)⟩

theorem parseBlocks_proper (inside : Option (List UInt8)) (nonzero : ∀ block ∈ inside, 0 ∉ block)
    (nonzero' : 0 ∉ text) : (parseBlocks inside text).Proper := by
  have behind : ∀ {c : UInt8} {rest : List UInt8}, 0 ∉ c :: rest → 0 ∉ rest :=
    fun absent zero => absent (List.mem_cons_of_mem _ zero)
  fun_induction parseBlocks inside text with
  | case1 => exact ⟨fun _ member => absurd member List.not_mem_nil, .nil⟩
  | case2 => exact ⟨fun _ member => absurd member List.not_mem_nil, .nil⟩
  | case3 c rest space ih =>
    exact ih (by simp) (behind nonzero')
  | case4 rest space ih =>
    exact ih (by simp) (behind nonzero')
  | case5 => exact ⟨fun _ member => absurd member List.not_mem_nil, .nil⟩
  | case6 block rest others ih =>
    have proper := ih (by simp) (behind nonzero')
    constructor
    · intro part member assignment among
      rcases List.mem_cons.mp member with rfl | member
      · obtain ⟨text, piece, read⟩ := List.mem_map.mp among
        exact clean_of_parseVar (zero_notMem_of_splitBlock List.not_mem_nil
          (nonzero block rfl) piece) read
      · exact proper.clean part member assignment among
    · refine List.pairwise_cons.mpr ⟨?_, proper.more⟩
      intro part member
      cases rest with
      | nil => cases member
      | cons c rest => rfl
  | case7 block c rest separate ih =>
    refine ih ?_ (behind nonzero')
    intro block' equal
    rw [← Option.some.inj equal, List.mem_append, List.mem_singleton]
    exact not_or.mpr ⟨nonzero block rfl, fun zero => nonzero' (zero ▸ List.mem_cons_self)⟩

theorem parseHead_proper (nonzero : 0 ∉ arg) :
    (∀ key parts, parseHead arg = .set key parts → key ≠ 0 ∧ parts.Proper) ∧
      ∀ var val inner, parseHead arg = .trigger var val inner → 0 ∉ inner := by
  have rest : skipWs (behindWord (arg.dropWhile (· = blank))) ⊆ arg :=
    ((List.dropWhile_suffix _).trans
      ((List.dropWhile_suffix _).trans (List.dropWhile_suffix _))).subset
  constructor
  · intro key parts read
    simp only [parseHead, parseTrigger] at read
    split_ifs at read
    · unfold parseSet at read
      split at read
      · rename_i c c' behind found
        cases read
        rw [found] at rest
        refine ⟨fun zero => nonzero (rest (zero ▸ List.mem_cons_self)), ?_⟩
        exact parseBlocks_proper none (by simp)
          fun zero => nonzero (rest (List.mem_cons_of_mem _ zero))
      · cases read
    · split at read
      · split_ifs at read
      · cases read
  · intro var val inner read
    simp only [parseHead, parseSet] at read
    split_ifs at read
    · split at read <;> cases read
    · unfold parseTrigger at read
      split at read
      · rename_i c c' behind found
        split_ifs at read
        cases read
        intro zero
        have among : (0 : UInt8) ∈ behind :=
          (List.dropWhile_suffix _).subset ((List.dropWhile_suffix _).subset zero)
        have among' := List.mem_cons_of_mem c (List.mem_cons_of_mem c' among)
        rw [← found] at among'
        exact nonzero (rest ((List.dropWhile_suffix _).subset among'))
      · cases read

theorem parseToggle_proper (nonzero : 0 ∉ arg) : (parseToggle arg).Proper := by
  fun_induction parseToggle arg with
  | case1 | case2 | case4 => trivial
  | case3 arg key parts read => exact (parseHead_proper nonzero).1 key parts read
  | case5 arg var val inner read ih =>
    exact ih ((parseHead_proper nonzero).2 var val inner read)

end

namespace Parts

variable {parts : Parts} {item : Item}

theorem items_of_fine (fine : parts.Fine) : parts.items = layout 0 parts.blocks :=
  (readParts_of_fine fine).1

theorem mem_items_of_fine (fine : parts.Fine) : item ∈ parts.items ↔
    ∃ block, parts.blocks[item.bl]? = some block ∧
      block[item.var]? = some item.assignment := by
  simp [items_of_fine fine, mem_layout]

theorem length_of_fine (fine : parts.Fine) {block : List Assignment}
    (member : block ∈ parts.blocks) : block.length ≤ MAX_VAR_PER_BLOCK := by
  obtain ⟨part, among, rfl⟩ := List.mem_map.mp member
  exact ((readParts_of_fine fine).2 part among).2

end Parts

theorem mem_of_readBlock {bl var : Nat} {assignments : List (Option Assignment)} {item : Item}
    (member : item ∈ (readBlock bl var assignments).1) :
    some item.assignment ∈ assignments := by
  induction assignments generalizing var with
  | nil => cases member
  | cons assignment rest ih =>
    cases assignment with
    | none => cases member
    | some assignment =>
      simp only [readBlock] at member
      split_ifs at member
      · cases member
      · rcases List.mem_cons.mp member with rfl | member
        · exact List.mem_cons_self
        · exact List.mem_cons_of_mem _ (ih member)

theorem mem_of_readParts {ends : Bool} {bl : Nat} {parts : List Part} {item : Item}
    (member : item ∈ (readParts ends bl parts).1) :
    ∃ part ∈ parts, some item.assignment ∈ part.assignments := by
  induction parts generalizing bl with
  | nil => cases member
  | cons part parts ih =>
    simp only [readParts] at member
    split_ifs at member
    · rcases List.mem_append.mp member with here | behind
      · exact ⟨part, List.mem_cons_self, mem_of_readBlock here⟩
      · obtain ⟨part', among, found⟩ := ih behind
        exact ⟨part', List.mem_cons_of_mem _ among, found⟩
    · exact ⟨part, List.mem_cons_self, mem_of_readBlock member⟩

theorem Parts.Proper.clean_items {parts : Parts} (proper : parts.Proper) :
    ∀ item ∈ parts.items, item.assignment.Clean := by
  intro item member
  obtain ⟨part, among, found⟩ := mem_of_readParts member
  exact proper.clean part among item.assignment found

theorem length_of_readParts {ends : Bool} {bl : Nat} {parts : List Part}
    (more : parts.Pairwise fun part _ => part.more = true)
    (fine : (readParts ends bl parts).2 = true) (below : bl < MAX_BLOCKS) :
    bl + parts.length ≤ MAX_BLOCKS := by
  induction parts generalizing bl with
  | nil => exact Nat.le_of_lt below
  | cons part parts ih =>
    simp only [readParts] at fine
    split_ifs at fine with own
    obtain ⟨first, others⟩ := List.pairwise_cons.mp more
    cases parts with
    | nil => exact below
    | cons part' parts =>
      have more' := first part' List.mem_cons_self
      have free : bl + 1 ≠ MAX_BLOCKS := fun full => own.2 ⟨more', full⟩
      have within := ih others fine (Nat.lt_of_le_of_ne below free)
      simp only [List.length_cons] at within ⊢
      omega

theorem Parts.length_blocks_of_fine {parts : Parts} (fine : parts.Fine)
    (proper : parts.Proper) : parts.blocks.length ≤ MAX_BLOCKS := by
  have within := length_of_readParts proper.more fine (Nat.le_of_ble_eq_true rfl)
  rwa [Parts.blocks, List.length_map, ← Nat.zero_add parts.parts.length]

end OsFree.Loader
