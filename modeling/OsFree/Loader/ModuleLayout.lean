import Mathlib.Data.List.Forall2
import OsFree.Machine.Span
import OsFree.Machine.Transition

/-!
# The modules of the boot loader

The boot loader reads modules to the pages behind one another, writes the
command line of each behind it, and describes them in the list that the kernel
is given.
-/

namespace OsFree.Loader

open Machine

/-- An entry of the module list. -/
structure ModList where
  mod_start : UInt32
  mod_end : UInt32
  cmdline : UInt32
  pad : UInt32
  deriving DecidableEq

/-- A file that is opened, and what reading it to its end gives. -/
structure File where
  size : UInt32
  data : List UInt8
  /-- No more is read than the file has. -/
  length_le : data.length ≤ size.toNat

def ERR_BADMODADDR : UInt32 := 36

def MB_INFO_MODS : UInt32 := 8

/-- The number of entries that the module list has room for. -/
def mllEntries : Nat := 256

/-- What the boot loader has of its modules.  The list holds the entries in use;
an entry that was never used is zero. -/
structure Boot where
  cur_addr : UInt32
  mll : List ModList
  memory : Memory
  errnum : UInt32
  flags : UInt32

namespace Boot

/-- The number of modules in the information for the kernel. -/
def mods_count (boot : Boot) : Nat := boot.mll.length

/-- The next page, where a module goes. -/
def page (boot : Boot) : UInt32 := (boot.cur_addr + 0xFFF) &&& 0xFFFFF000

/-- The loader goes on to the next page. -/
def toPage (boot : Boot) : Boot := { boot with cur_addr := boot.page }

/-- An entry is written to the list, if there is one left. -/
def addEntry (boot : Boot) (entry : ModList) : Run Boot :=
  if boot.mll.length < mllEntries then
    .ok { boot with
      mll := boot.mll ++ [entry]
      flags := boot.flags ||| MB_INFO_MODS }
  else
    .error .writeOutside

/-- Bytes are written to memory. -/
def put (boot : Boot) (address : UInt32) (bytes : List UInt8) : Run Boot := do
  let memory ← boot.memory.write address bytes
  return { boot with memory }

end Boot

/-- A module would end behind the memory there is.  The sums wrap around. -/
def refused (mem_upper : UInt32) (cur_addr : UInt32) (file : File) : Prop :=
  1024 * (1024 + mem_upper) ≤ cur_addr + file.size

instance (mem_upper cur_addr : UInt32) (file : File) :
    Decidable (refused mem_upper cur_addr file) :=
  inferInstanceAs (Decidable (_ ≤ _))

/-- Load a file as a module with an argument.  Its result is whether this
succeeded. -/
def load_module (mem_upper : UInt32) (boot : Boot) (module : Option File)
    (arg : List UInt8) : Run (Boot × Bool) :=
  let boot := boot.toPage
  match module with
  | none => .ok (boot, false)
  | some file =>
    if refused mem_upper boot.cur_addr file then
      .ok ({ boot with errnum := ERR_BADMODADDR }, false)
    else do
      let boot ← boot.put boot.cur_addr file.data
      if file.data = [] then
        return (boot, false)
      else
        let mod_end := boot.cur_addr + UInt32.ofNat file.data.length
        let boot ← boot.addEntry {
          mod_start := boot.cur_addr
          mod_end
          cmdline := mod_end
          pad := 0 }
        let boot ← boot.put mod_end (arg ++ [0])
        -- The next address is that of the terminator.
        return ({ boot with
          cur_addr := mod_end + UInt32.ofNat arg.length }, true)

/-- The bytes of a `lip2_t`. -/
def lip2Size : Nat := 60

/-- "*lip" -/
def lip_magic : List UInt8 := [42, 108, 105, 112]

/-- Make a module of the loader's interface. -/
def create_lip_module (boot : Boot) (lip : Vector UInt8 lip2Size) :
    Run Boot := do
  let boot := boot.toPage
  let mod_end := boot.cur_addr + UInt32.ofNat lip2Size
  let boot ← boot.put boot.cur_addr lip.toList
  let boot ← boot.put mod_end (lip_magic ++ [0])
  let boot ← boot.addEntry {
    mod_start := boot.cur_addr
    mod_end
    cmdline := mod_end
    pad := 0 }
  return { boot with cur_addr := mod_end + 5 }

/-- What the number of a drive is made of its letter, or of none. -/
def driveNumber (drv : UInt8) : UInt8 :=
  if drv < 65 ∨ 90 < drv then 0x80 else drv - 67 + 0x80

/-- Load a boot sector as a module, and complete its parameter block with the
first sector of the partition and the number of the drive.  The letter of the
drive is that of the argument or of the partition. -/
def create_bs_module (mem_upper : UInt32) (boot : Boot) (module : Option File)
    (part_start : UInt32) (drv : UInt8) : Run (Boot × Bool) :=
  let boot := boot.toPage
  match module with
  | none => .ok (boot, false)
  | some file =>
    if refused mem_upper boot.cur_addr file then
      .ok ({ boot with errnum := ERR_BADMODADDR }, false)
    else do
      let boot ← boot.put boot.cur_addr file.data
      if file.data = [] then
        return (boot, false)
      else
        let bpb := boot.cur_addr + 0xb
        let mod_end := boot.cur_addr + UInt32.ofNat file.data.length
        -- Nothing is stored as the command line.
        let boot ← boot.addEntry {
          mod_start := boot.cur_addr
          mod_end
          cmdline := 0
          pad := 0 }
        let boot ← boot.put (bpb + 17) (longBytes part_start)
        let boot ← boot.put (bpb + 26) [driveNumber drv]
        return ({ boot with cur_addr := mod_end }, true)

/-!
## The module list describes the modules

Over any sequence of loads the module list should describe the modules that
were loaded, and their images and command lines should be apart from one another
and below the memory limit.  A command line is counted without its terminator,
the limit is compared with the end of the file alone, and a boot sector gets no
command line.
-/

/-- What a module in the list was made of. -/
structure Loaded where
  length : Nat
  arg : List UInt8
  deriving DecidableEq

/-- The boot loader, and the modules that it has loaded in their order. -/
structure State where
  boot : Boot
  loaded : List Loaded

/-- The calls that make a module. -/
inductive Request where
  | load (module : Option File) (arg : List UInt8)
  | lip (contents : Vector UInt8 lip2Size)
  | bs (module : Option File) (name : List UInt8) (part_start : UInt32) (drv : UInt8)

/-- The number of bytes that reading a file gives. -/
def fileLength (module : Option File) : Nat := module.elim 0 fun file => file.data.length

/-- What a module is made of. -/
def Request.module : Request → Loaded
  | .load module arg => ⟨fileLength module, arg⟩
  | .lip _ => ⟨lip2Size, lip_magic⟩
  | .bs module name _ _ => ⟨fileLength module, name⟩

/-- The result of a call. -/
def Request.call (mem_upper : UInt32) (boot : Boot) : Request → Run (Boot × Bool)
  | .load module arg => load_module mem_upper boot module arg
  | .lip contents => (·, true) <$> create_lip_module boot contents
  | .bs module _ part_start drv =>
    create_bs_module mem_upper boot module part_start drv

namespace State

/-- A call is noted, if it made a module. -/
def after (state : State) (request : Request) (result : Boot × Bool) : State where
  boot := result.1
  loaded :=
    if result.2 then state.loaded ++ [request.module] else state.loaded

def perform (mem_upper : UInt32) (state : State) (request : Request) :
    Run State :=
  state.after request <$> request.call mem_upper state.boot

end State

/-! ## What the list should say -/

/-- An entry describes a module. -/
structure Describes (memory : Memory) (entry : ModList) (module : Loaded) :
    Prop where
  length : entry.mod_start.toNat + module.length = entry.mod_end.toNat
  cmdline_ne : entry.cmdline ≠ 0
  cmdline : memory.HoldsAt entry.cmdline.toNat (module.arg ++ [0])

/-- The addresses of a module's image and of its command line. -/
def moduleSpans (entry : ModList) (module : Loaded) : List Span :=
  [⟨entry.mod_start.toNat, module.length⟩, ⟨entry.cmdline.toNat, module.arg.length + 1⟩]

/-- The addresses of all images and command lines. -/
def State.spans (state : State) : List Span :=
  (List.zipWith moduleSpans state.boot.mll state.loaded).flatten

/-- The end of memory. -/
def memoryLimit (mem_upper : UInt32) : Nat := 1024 * (1024 + mem_upper.toNat)

/-- The module list is as it should be. -/
structure Good (mem_upper : UInt32) (state : State) : Prop where
  described : List.Forall₂ (Describes state.boot.memory) state.boot.mll state.loaded
  apart : state.spans.Pairwise Span.Apart
  below : ∀ span ∈ state.spans, span.stop ≤ memoryLimit mem_upper
  entries : state.boot.mods_count ≤ mllEntries

/-- A call returns, leaves the list as it was if it made no module, and leaves
it as it should be. -/
def Meets (mem_upper : UInt32) (state : State) (request : Request) : Prop :=
  ∃ state', state.perform mem_upper request = .ok state' ∧
    (state'.loaded = state.loaded → state'.boot.mll = state.boot.mll) ∧
    Good mem_upper state'

/-! ## When it does -/

/-- No module is made: there is no file, it would end behind the memory there
is, or it gives no bytes. -/
def Fails (mem_upper : UInt32) (boot : Boot) (module : Option File) : Prop :=
  ∀ file, module = some file → refused mem_upper boot.page file ∨ file.data = []

/-- There is an entry for another module, no terminator of a command line on the
next page, and room from there on for the module, its command line and the
terminator. -/
structure Fits (mem_upper : UInt32) (state : State) (module : Loaded) :
    Prop where
  entry : state.boot.mods_count < mllEntries
  free : ∀ span ∈ state.spans, span.stop ≤ state.boot.page.toNat
  room : state.boot.page.toNat + module.length + module.arg.length + 1 ≤
    min (memoryLimit mem_upper) 4294967296

/-- The calls that go well. -/
def Allowed (mem_upper : UInt32) (state : State) (request : Request) : Prop :=
  match request with
  | .load module _ =>
    Fails mem_upper state.boot module ∨ Fits mem_upper state request.module
  | .lip _ => Fits mem_upper state request.module
  | .bs module _ _ _ => Fails mem_upper state.boot module

/-- There is a next page. -/
def HasPage (boot : Boot) : Prop := boot.cur_addr ≤ 0xFFFFF000

/-- A call that goes well. -/
def AllowedStep (mem_upper : UInt32) (state state' : State) : Prop :=
  ∃ request, HasPage state.boot ∧ Allowed mem_upper state request ∧
    state.perform mem_upper request = .ok state'

/-- The boot loader before the first module. -/
def State.initial (cur_addr : UInt32) (memory : Memory) (errnum flags : UInt32) : State where
  boot := { cur_addr, mll := [], memory, errnum, flags }
  loaded := []

/-- The list is as it should be, and all that was loaded is behind the next
address, but for a terminator there. -/
structure Sound (mem_upper : UInt32) (state : State) : Prop
    extends Good mem_upper state where
  behind : ∀ span ∈ state.spans, span.stop ≤ state.boot.cur_addr.toNat + 1
  positive : ∀ span ∈ state.spans, 0 < span.length

/-! ## The next page -/

theorem toNat_and_page (value : UInt32) :
    (value &&& 0xFFFFF000).toNat = value.toNat / 4096 * 4096 := by
  have bound := value.toNat_lt
  change value.toNat &&& ((2 ^ 20 - 1) * 2 ^ 12) = value.toNat / 2 ^ 12 * 2 ^ 12
  apply Nat.eq_of_testBit_eq
  intro i
  rw [Nat.testBit_and, Nat.testBit_mul_two_pow, Nat.testBit_mul_two_pow,
    Nat.testBit_div_two_pow, Nat.testBit_two_pow_sub_one]
  by_cases high : 12 ≤ i
  · by_cases low : i - 12 < 20
    · simp [high, low, Nat.sub_add_cancel high]
    · have zero : value.toNat.testBit i = false := Nat.testBit_lt_two_pow (Nat.lt_of_lt_of_le bound
          (Nat.pow_le_pow_right (by decide) (by omega)))
      simp [high, low, Nat.sub_add_cancel high, zero]
  · simp [high]

theorem page_le (boot : Boot) : boot.page.toNat ≤ 0xFFFFF000 := by
  have bound := (boot.cur_addr + 0xFFF).toNat_lt
  unfold Boot.page
  rw [toNat_and_page]
  omega

theorem HasPage.le_page {boot : Boot} (hasPage : HasPage boot) :
    boot.cur_addr.toNat ≤ boot.page.toNat := by
  have bound : boot.cur_addr.toNat ≤ 0xFFFFF000 := UInt32.le_iff_toNat_le.mp hasPage
  have sum : (boot.cur_addr + 0xFFF).toNat = boot.cur_addr.toNat + 0xFFF := by
    exact Nat.mod_eq_of_lt (Nat.lt_of_le_of_lt (Nat.add_le_add_right bound 0xFFF) (by decide))
  unfold Boot.page
  rw [toNat_and_page, sum]
  omega

/-! ## What the calls do -/

/-- The loader with a module on the next page, and its command line behind. -/
def Boot.placed (boot : Boot) (data arg : List UInt8) (next : UInt32) : Boot where
  cur_addr := next
  mll := boot.mll ++ [{
    mod_start := boot.page
    mod_end := boot.page + UInt32.ofNat data.length
    cmdline := boot.page + UInt32.ofNat data.length
    pad := 0 }]
  memory := (boot.memory.store ⟨boot.page, data⟩).store
    ⟨boot.page + UInt32.ofNat data.length, arg ++ [0]⟩
  errnum := boot.errnum
  flags := boot.flags ||| MB_INFO_MODS

/-- No write of a call goes past the end of the list or of the addresses. -/
structure Writable (boot : Boot) (data arg : List UInt8) : Prop where
  entry : boot.mods_count < mllEntries
  image : boot.page.toNat + data.length ≤ 4294967296
  cmdline : (boot.page + UInt32.ofNat data.length).toNat + (arg.length + 1) ≤ 4294967296

theorem put_eq_ok_iff {boot boot' : Boot} {address : UInt32} {bytes : List UInt8} :
    boot.put address bytes = .ok boot' ↔ address.toNat + bytes.length ≤ 4294967296 ∧
        { boot with memory := boot.memory.store ⟨address, bytes⟩ } = boot' := by
  unfold Boot.put
  simp only [bind_eq_ok_iff, Memory.write_eq_ok_iff, pure_eq_ok, Except.ok.injEq]
  constructor
  · rintro ⟨_, ⟨fits, rfl⟩, same⟩
    exact ⟨fits, same⟩
  · rintro ⟨fits, same⟩
    exact ⟨_, ⟨fits, rfl⟩, same⟩

theorem addEntry_eq_ok_iff {boot boot' : Boot} {entry : ModList} :
    boot.addEntry entry = .ok boot' ↔ boot.mods_count < mllEntries ∧ { boot with
          mll := boot.mll ++ [entry]
          flags := boot.flags ||| MB_INFO_MODS } = boot' := by
  unfold Boot.addEntry Boot.mods_count
  by_cases room : boot.mll.length < mllEntries
  · simp [room]
  · simp [room]

section

variable {mem_upper : UInt32} {boot : Boot}

theorem load_module_eq_ok_iff {file : File} {arg : List UInt8}
    {result : Boot × Bool} (accepted : ¬ refused mem_upper boot.page file)
    (nonempty : file.data ≠ []) :
    load_module mem_upper boot (some file) arg = .ok result ↔
      Writable boot file.data arg ∧ (boot.placed file.data arg (boot.page +
          UInt32.ofNat file.data.length + UInt32.ofNat arg.length), true) =
            result := by
  unfold load_module
  simp only [Boot.toPage, if_neg accepted, if_neg nonempty, bind_eq_ok_iff,
    put_eq_ok_iff, addEntry_eq_ok_iff, pure_eq_ok, Except.ok.injEq,
    List.length_append, List.length_singleton]
  constructor
  · rintro ⟨_, ⟨image, rfl⟩, _, ⟨entry, rfl⟩, _, ⟨cmdline, rfl⟩, same⟩
    exact ⟨⟨entry, image, cmdline⟩, same⟩
  · rintro ⟨⟨entry, image, cmdline⟩, same⟩
    exact ⟨_, ⟨image, rfl⟩, _, ⟨entry, rfl⟩, _, ⟨cmdline, rfl⟩, same⟩

theorem create_lip_module_eq_ok_iff {contents : Vector UInt8 lip2Size} {boot' : Boot} :
    create_lip_module boot contents = .ok boot' ↔
      Writable boot contents.toList lip_magic ∧ boot.placed contents.toList lip_magic
          (boot.page + UInt32.ofNat lip2Size + 5) = boot' := by
  have size : contents.toList.length = lip2Size := Vector.length_toList
  unfold create_lip_module
  simp only [Boot.toPage, bind_eq_ok_iff, put_eq_ok_iff, addEntry_eq_ok_iff,
    pure_eq_ok, Except.ok.injEq, List.length_append, List.length_singleton]
  constructor
  · rintro ⟨_, ⟨image, rfl⟩, _, ⟨cmdline, rfl⟩, _, ⟨entry, rfl⟩, same⟩
    constructor
    · refine ⟨entry, image, ?_⟩
      rw [size]
      exact cmdline
    · rw [← same, Boot.placed, size]
  · rintro ⟨⟨entry, image, cmdline⟩, same⟩
    rw [size] at cmdline
    refine ⟨_, ⟨image, rfl⟩, _, ⟨cmdline, rfl⟩, _, ⟨entry, rfl⟩, ?_⟩
    rw [← same, Boot.placed, size]

/-- The list, the memory and the next page are as they were. -/
structure Unchanged (boot boot' : Boot) : Prop where
  mll : boot'.mll = boot.mll
  memory : boot'.memory = boot.memory
  cur_addr : boot'.cur_addr = boot.page

theorem put_nil {boot : Boot} {address : UInt32} :
    boot.put address [] = .ok boot :=
  put_eq_ok_iff.mpr ⟨Nat.le_of_lt address.toNat_lt, rfl⟩

theorem modules_of_fails {module : Option File}
    (fails : Fails mem_upper boot module) (arg : List UInt8) (part_start : UInt32)
    (drv : UInt8) :
    ∃ boot', load_module mem_upper boot module arg = .ok (boot', false) ∧
      create_bs_module mem_upper boot module part_start drv = .ok (boot', false) ∧
      Unchanged boot boot' := by
  unfold load_module create_bs_module
  match module with
  | none => exact ⟨_, rfl, rfl, rfl, rfl, rfl⟩
  | some file =>
    by_cases rejected : refused mem_upper boot.page file
    · simp only [Boot.toPage, if_pos rejected]
      exact ⟨_, rfl, rfl, rfl, rfl, rfl⟩
    · have empty := (fails file rfl).resolve_left rejected
      simp only [Boot.toPage, if_neg rejected, empty, put_nil]
      exact ⟨_, rfl, rfl, rfl, rfl, rfl⟩

theorem create_bs_module_of_file {file : File} {part_start : UInt32}
    {drv : UInt8} {result : Boot × Bool}
    (accepted : ¬ refused mem_upper boot.page file)
    (nonempty : file.data ≠ [])
    (called : create_bs_module mem_upper boot (some file) part_start drv = .ok result) :
    result.2 = true ∧
      ∃ entry, result.1.mll = boot.mll ++ [entry] ∧ entry.cmdline = 0 := by
  unfold create_bs_module at called
  simp only [Boot.toPage, if_neg accepted, if_neg nonempty, bind_eq_ok_iff,
    put_eq_ok_iff, addEntry_eq_ok_iff, pure_eq_ok, Except.ok.injEq] at called
  obtain ⟨_, ⟨-, rfl⟩, _, ⟨-, rfl⟩, _, ⟨-, rfl⟩, _, ⟨-, rfl⟩, rfl⟩ := called
  exact ⟨rfl, _, rfl, rfl⟩

end

/-! ## A module on the next page -/

/-- The state with a module on the next page. -/
def State.placed (state : State) (data arg : List UInt8) (next : UInt32) : State where
  boot := state.boot.placed data arg next
  loaded := state.loaded ++ [⟨data.length, arg⟩]

section

variable {mem_upper next : UInt32} {state : State} {data arg : List UInt8}

theorem spans_placed (same : state.boot.mll.length = state.loaded.length) :
    (state.placed data arg next).spans = state.spans ++ [⟨state.boot.page.toNat, data.length⟩] ++
      [⟨(state.boot.page + UInt32.ofNat data.length).toNat,
        arg.length + 1⟩] := by
  unfold State.spans
  simp only [State.placed, Boot.placed, List.zipWith_append same,
    List.zipWith_cons_cons, List.zipWith_nil_left, List.flatten_append,
    moduleSpans, List.flatten_cons, List.flatten_nil, List.append_nil,
    List.append_assoc, List.cons_append, List.nil_append]

theorem Fits.toNat_end (fits : Fits mem_upper state ⟨data.length, arg⟩) :
    (state.boot.page + UInt32.ofNat data.length).toNat =
      state.boot.page.toNat + data.length := by
  have room := Nat.le_trans fits.room (Nat.min_le_right ..)
  simp only [UInt32.toNat_add, UInt32.toNat_ofNat', Nat.reducePow] at room ⊢
  omega

theorem Fits.writable (fits : Fits mem_upper state ⟨data.length, arg⟩) :
    Writable state.boot data arg := by
  have room := Nat.le_trans fits.room (Nat.min_le_right ..)
  refine ⟨fits.entry, ?_, ?_⟩
  · simp only at room
    omega
  · rw [fits.toNat_end]
    exact room

theorem cmdline_mem_spans {entry : ModList} {module : Loaded}
    (listed : (entry, module) ∈ state.boot.mll.zip state.loaded) :
    (⟨entry.cmdline.toNat, module.arg.length + 1⟩ : Span) ∈ state.spans := by
  unfold State.spans
  rw [← List.map_uncurry_zip_eq_zipWith]
  apply List.mem_flatten.mpr
  refine ⟨moduleSpans entry module, List.mem_map_of_mem listed, ?_⟩
  simp [moduleSpans]

theorem Sound.described_earlier (sound : Sound mem_upper state)
    (fits : Fits mem_upper state ⟨data.length, arg⟩) :
    List.Forall₂ (Describes (state.boot.placed data arg next).memory)
      state.boot.mll state.loaded := by
  obtain ⟨same, described⟩ := List.forall₂_iff_zip.mp sound.described
  apply List.forall₂_iff_zip.mpr
  refine ⟨same, ?_⟩
  intro entry module listed
  have before := fits.free _ (cmdline_mem_spans listed)
  have writable := fits.writable
  have ends := fits.toNat_end
  have inside : entry.cmdline.toNat + (module.arg ++ [0]).length ≤
      state.boot.page.toNat := by
    rw [List.length_append]
    exact before
  have bound := state.boot.page.toNat_lt
  obtain ⟨length, nonzero, cmdline⟩ := described listed
  refine ⟨length, nonzero, ?_⟩
  apply Memory.HoldsAt.store (cmdline.store (by omega) writable.image _)
  · omega
  · rw [List.length_append]
    exact writable.cmdline
  · left
    rw [ends]
    exact Nat.le_trans inside (Nat.le_add_right ..)
  · left
    exact inside

theorem Fits.describes (fits : Fits mem_upper state ⟨data.length, arg⟩) (nonempty : data ≠ []) :
    Describes (state.boot.placed data arg next).memory
      ⟨state.boot.page, state.boot.page + UInt32.ofNat data.length,
        state.boot.page + UInt32.ofNat data.length, 0⟩
      ⟨data.length, arg⟩ where
  length := fits.toNat_end.symm
  cmdline_ne := by
    have positive : 0 < data.length := List.length_pos_iff.mpr nonempty
    have ends := fits.toNat_end
    intro zero
    change state.boot.page + UInt32.ofNat data.length = 0 at zero
    rw [zero] at ends
    have none : (0 : UInt32).toNat = 0 := rfl
    omega
  cmdline := by
    apply Memory.holdsAt_store
    rw [List.length_append]
    exact fits.writable.cmdline

section

variable (sound : Sound mem_upper state)

include sound

theorem Sound.good_placed (fits : Fits mem_upper state ⟨data.length, arg⟩) (nonempty : data ≠ []) :
    Good mem_upper (state.placed data arg next) := by
  have room := Nat.le_trans fits.room (Nat.min_le_left ..)
  have ends := fits.toNat_end
  simp only at room
  have spans := @spans_placed next _ data arg sound.described.length_eq
  constructor
  · exact List.rel_append (sound.described_earlier fits) (.cons (fits.describes nonempty) .nil)
  · rw [spans, pairwise_apart_append_singleton, pairwise_apart_append_singleton]
    refine ⟨⟨sound.apart, fun other member => .inl (fits.free other member)⟩, ?_⟩
    intro other member
    left
    rw [ends]
    rcases List.mem_append.mp member with earlier | image
    · exact Nat.le_trans (fits.free other earlier) (Nat.le_add_right ..)
    · rw [List.mem_singleton.mp image]
      exact Nat.le_refl _
  · rw [spans]
    simp only [List.mem_append, List.mem_singleton, Span.stop]
    rintro span ((earlier | rfl) | rfl)
    · exact sound.below span earlier
    · simp only
      omega
    · simp only
      omega
  · unfold Boot.mods_count
    change (state.boot.mll ++ [_]).length ≤ _
    rw [List.length_append]
    exact fits.entry

/-- A module that is listed as it should be had an entry and room, and no
terminator was on its page. -/
theorem Sound.fits_of_placed (hasPage : HasPage state.boot)
    (writable : Writable state.boot data arg) (nonempty : data ≠ [])
    (good : Good mem_upper (state.placed data arg next)) :
    Fits mem_upper state ⟨data.length, arg⟩ := by
  have positive : 0 < data.length := List.length_pos_iff.mpr nonempty
  have spans := @spans_placed next _ data arg sound.described.length_eq
  have apart := good.apart
  have below := good.below
  rw [spans, pairwise_apart_append_singleton, pairwise_apart_append_singleton] at apart
  rw [spans] at below
  have ends : state.boot.page.toNat + data.length =
      (state.boot.page + UInt32.ofNat data.length).toNat :=
    ((List.forall₂_iff_zip.mp good.described).2 (by
      simp only [State.placed, Boot.placed,
        List.zip_append sound.described.length_eq, List.zip_cons_cons,
        List.zip_nil_left]
      exact List.mem_append_right _ (List.mem_singleton_self _))).length
  have last := below _ (List.mem_append_right _ (List.mem_singleton_self _))
  have cmdline := writable.cmdline
  refine ⟨writable.entry, ?_, ?_⟩
  · intro span member
    have behind := sound.behind span member
    have some := sound.positive span member
    have page := hasPage.le_page
    have beside := apart.1.2 span member
    unfold Span.Apart Span.stop at beside
    unfold Span.stop at behind ⊢
    simp only at beside
    omega
  · apply Nat.le_min.mpr
    unfold Span.stop at last
    simp only at last ⊢
    omega

theorem Sound.placed (hasPage : HasPage state.boot)
    (fits : Fits mem_upper state ⟨data.length, arg⟩) (nonempty : data ≠ [])
    (next_le : state.boot.page.toNat + data.length + arg.length ≤ next.toNat) :
    Sound mem_upper (state.placed data arg next) := by
  have positive : 0 < data.length := List.length_pos_iff.mpr nonempty
  have page := hasPage.le_page
  have ends := fits.toNat_end
  have spans := @spans_placed next _ data arg sound.described.length_eq
  refine ⟨sound.good_placed fits nonempty, ?_, ?_⟩
  · rw [spans]
    change ∀ span : Span, span ∈ _ → span.stop ≤ next.toNat + 1
    simp only [List.mem_append, List.mem_singleton]
    rintro span ((earlier | rfl) | rfl)
    · have behind := sound.behind span earlier
      omega
    · unfold Span.stop
      simp only
      omega
    · unfold Span.stop
      simp only
      omega
  · rw [spans]
    simp only [List.mem_append, List.mem_singleton]
    rintro span ((earlier | rfl) | rfl)
    · exact sound.positive span earlier
    · exact positive
    · exact Nat.succ_pos arg.length

/-- A call that makes no module keeps all as it was. -/
theorem Sound.unchanged {boot : Boot}
    (hasPage : HasPage state.boot) (unchanged : Unchanged state.boot boot) :
    Sound mem_upper ⟨boot, state.loaded⟩ := by
  have spans : State.spans ⟨boot, state.loaded⟩ = state.spans := by
    unfold State.spans
    rw [unchanged.mll]
  refine ⟨⟨?_, ?_, ?_, ?_⟩, ?_, ?_⟩
  · rw [unchanged.mll, unchanged.memory]
    exact sound.described
  · rw [spans]
    exact sound.apart
  · rw [spans]
    exact sound.below
  · unfold Boot.mods_count
    rw [unchanged.mll]
    exact sound.entries
  · rw [spans]
    intro span member
    rw [unchanged.cur_addr]
    exact Nat.le_trans (sound.behind span member) (Nat.succ_le_succ hasPage.le_page)
  · rw [spans]
    exact sound.positive

end

end

/-! ## One call -/

theorem fails_or_accepted (mem_upper : UInt32) (boot : Boot) (module : Option File) :
    Fails mem_upper boot module ∨ ∃ file, module = some file ∧
      ¬ refused mem_upper boot.page file ∧ file.data ≠ [] := by
  by_cases fails : Fails mem_upper boot module
  · exact .inl fails
  · right
    unfold Fails at fails
    push Not at fails
    exact fails

theorem not_fails {mem_upper : UInt32} {boot : Boot} {file : File}
    (accepted : ¬ refused mem_upper boot.page file)
    (nonempty : file.data ≠ []) : ¬ Fails mem_upper boot (some file) := by
  intro fails
  rcases fails file rfl with rejected | empty
  · exact accepted rejected
  · exact nonempty empty

/-- How a call comes out: it makes no module, or one on the next page, or a
boot sector's. -/
inductive Outcome (mem_upper : UInt32) (state : State) (request : Request) :
    Prop where
  | none (boot : Boot) (call : request.call mem_upper state.boot = .ok (boot, false))
      (unchanged : Unchanged state.boot boot)
      (allowed : Allowed mem_upper state request)
  | placed (data arg : List UInt8) (next : UInt32) (nonempty : data ≠ [])
      (module : request.module = ⟨data.length, arg⟩)
      (call : ∀ result, request.call mem_upper state.boot = .ok result ↔
        Writable state.boot data arg ∧ (state.boot.placed data arg next, true) = result)
      (next_le : Fits mem_upper state request.module →
        state.boot.page.toNat + data.length + arg.length ≤ next.toNat)
      (allowed : Allowed mem_upper state request ↔ Fits mem_upper state request.module)
  | unnamed (call : ∀ result, request.call mem_upper state.boot = .ok result →
        result.2 = true ∧ ∃ entry, result.1.mll = state.boot.mll ++ [entry] ∧ entry.cmdline = 0)
      (rejected : ¬ Allowed mem_upper state request)

section

variable {mem_upper : UInt32} {state state' : State} {request : Request}

theorem Fits.toNat_next {data arg : List UInt8} {count : Nat}
    (fits : Fits mem_upper state ⟨data.length, arg⟩)
    (within : state.boot.page.toNat + data.length + count < 4294967296) :
    (state.boot.page + UInt32.ofNat data.length + UInt32.ofNat count).toNat =
      state.boot.page.toNat + data.length + count := by
  rw [UInt32.toNat_add, fits.toNat_end]
  simp only [UInt32.toNat_ofNat', Nat.reducePow]
  omega

theorem outcome_lip (contents : Vector UInt8 lip2Size) :
    Outcome mem_upper state (.lip contents) := by
  have size : contents.toList.length = lip2Size := Vector.length_toList
  have named : (Request.lip contents).module =
      ⟨contents.toList.length, lip_magic⟩ := by
    unfold Request.module
    rw [size]
  apply Outcome.placed contents.toList lip_magic (state.boot.page + UInt32.ofNat lip2Size + 5)
  · apply List.ne_nil_of_length_pos
    rw [size]
    exact Nat.succ_pos 59
  · exact named
  · intro result
    unfold Request.call
    simp only [map_eq_ok_iff, create_lip_module_eq_ok_iff]
    constructor
    · rintro ⟨_, ⟨writable, rfl⟩, rfl⟩
      exact ⟨writable, rfl⟩
    · rintro ⟨writable, rfl⟩
      exact ⟨_, ⟨writable, rfl⟩, rfl⟩
  · rw [named]
    intro fits
    have page := page_le state.boot
    have small : lip2Size = 60 := rfl
    have sum := @Fits.toNat_next _ _ _ _ 5 fits (by omega)
    rw [size] at sum ⊢
    change _ ≤ (state.boot.page + UInt32.ofNat lip2Size + UInt32.ofNat 5).toNat
    rw [sum]
    exact Nat.add_le_add_left (Nat.le_succ 4) _
  · exact Iff.rfl

theorem outcome_load (module : Option File) (arg : List UInt8) :
    Outcome mem_upper state (.load module arg) := by
  rcases fails_or_accepted mem_upper state.boot module with fails | ⟨file, rfl, accepted, nonempty⟩
  · obtain ⟨boot, call, -, unchanged⟩ := modules_of_fails fails arg 0 0
    exact .none boot call unchanged (.inl fails)
  · refine .placed file.data arg _ nonempty rfl
      (fun result => load_module_eq_ok_iff accepted nonempty) ?_ ?_
    · intro fits
      have room := Nat.le_trans fits.room (Nat.min_le_right ..)
      exact Nat.le_of_eq (Fits.toNat_next fits room).symm
    · exact or_iff_right (not_fails accepted nonempty)

theorem outcome_bs (module : Option File) (name : List UInt8) (part_start : UInt32) (drv : UInt8) :
    Outcome mem_upper state (.bs module name part_start drv) := by
  rcases fails_or_accepted mem_upper state.boot module with fails | ⟨file, rfl, accepted, nonempty⟩
  · obtain ⟨boot, -, call, unchanged⟩ := modules_of_fails fails [] part_start drv
    exact .none boot call unchanged fails
  · exact .unnamed (fun result => create_bs_module_of_file accepted nonempty)
      (not_fails accepted nonempty)

theorem outcome (mem_upper : UInt32) (state : State) (request : Request) :
    Outcome mem_upper state request := by
  cases request with
  | load module arg => exact outcome_load module arg
  | lip contents => exact outcome_lip contents
  | bs module name part_start drv => exact outcome_bs module name part_start drv

theorem after_placed {data arg : List UInt8} {next : UInt32}
    (module : request.module = ⟨data.length, arg⟩) :
    state.after request (state.boot.placed data arg next, true) =
      state.placed data arg next := by
  unfold State.after State.placed
  rw [module]
  rfl

theorem not_good_of_unnamed {result : Boot × Bool} {entry : ModList}
    (same : state.boot.mll.length = state.loaded.length)
    (made : result.2 = true) (listed : result.1.mll = state.boot.mll ++ [entry])
    (null : entry.cmdline = 0) :
    ¬ Good mem_upper (state.after request result) := by
  intro good
  have described := good.described
  simp only [State.after, made, if_pos, listed] at described
  obtain ⟨-, described⟩ := List.forall₂_iff_zip.mp described
  rw [List.zip_append same] at described
  have last := described (List.mem_append_right _ (List.mem_singleton_self _))
  exact last.cmdline_ne null

theorem Sound.meets_iff (sound : Sound mem_upper state)
    (hasPage : HasPage state.boot) (request : Request) :
    Meets mem_upper state request ↔ Allowed mem_upper state request := by
  unfold Meets State.perform
  simp only [map_eq_ok_iff]
  cases outcome mem_upper state request with
  | none boot call unchanged allowed =>
    refine iff_of_true ⟨_, ⟨_, call, rfl⟩, ?_, ?_⟩ allowed
    · intro _
      exact unchanged.mll
    · exact (sound.unchanged hasPage unchanged).toGood
  | placed data arg next nonempty module call next_le allowed =>
    simp only [call]
    rw [allowed, module]
    constructor
    · rintro ⟨_, ⟨_, ⟨writable, rfl⟩, rfl⟩, -, good⟩
      rw [after_placed module] at good
      exact sound.fits_of_placed hasPage writable nonempty good
    · intro fits
      refine ⟨_, ⟨_, ⟨fits.writable, rfl⟩, rfl⟩, ?_, ?_⟩
      · rw [after_placed module]
        intro same
        have longer := congrArg List.length same
        simp [State.placed] at longer
      · rw [after_placed module]
        exact sound.good_placed fits nonempty
  | unnamed call rejected =>
    refine iff_of_false ?_ rejected
    rintro ⟨_, ⟨result, called, rfl⟩, -, good⟩
    obtain ⟨made, entry, listed, null⟩ := call result called
    exact not_good_of_unnamed sound.described.length_eq made listed null good

theorem Sound.step (sound : Sound mem_upper state)
    (step : AllowedStep mem_upper state state') : Sound mem_upper state' := by
  obtain ⟨request, hasPage, permitted, performed⟩ := step
  obtain ⟨result, called, rfl⟩ := map_eq_ok_iff.mp performed
  cases outcome mem_upper state request with
  | none boot call unchanged allowed =>
    rw [call] at called
    cases called
    exact sound.unchanged hasPage unchanged
  | placed data arg next nonempty module call next_le allowed =>
    have fits := allowed.mp permitted
    obtain ⟨-, rfl⟩ := (call result).mp called
    rw [after_placed module]
    have behind := next_le fits
    rw [module] at fits
    exact sound.placed hasPage fits nonempty behind
  | unnamed call rejected => exact absurd permitted rejected

theorem Sound.initial (cur_addr : UInt32) (memory : Memory) (errnum flags : UInt32) :
    Sound mem_upper (.initial cur_addr memory errnum flags) where
  described := .nil
  apart := .nil
  below := fun _ member => absurd member List.not_mem_nil
  entries := Nat.zero_le _
  behind := fun _ member => absurd member List.not_mem_nil
  positive := fun _ member => absurd member List.not_mem_nil

/-- In every run of calls that go well the list is always as it should be, and a
next call is right exactly when it goes well. -/
theorem modules_of_run (cur_addr : UInt32) (memory : Memory) (errnum flags : UInt32)
    (run : RunsTo (AllowedStep mem_upper) (.initial cur_addr memory errnum flags) state) :
    Good mem_upper state ∧ ∀ request, HasPage state.boot →
        (Meets mem_upper state request ↔ Allowed mem_upper state request) := by
  have sound : Sound mem_upper state := run.preserves (fun _ _ sound step => Sound.step sound step)
      (.initial cur_addr memory errnum flags)
  exact ⟨sound.toGood, fun request hasPage => sound.meets_iff hasPage request⟩

end

theorem length_zeros (count : UInt16) :
    (List.replicate count.toNat (0 : UInt8)).length ≤ count.toUInt32.toNat := by
  rw [List.length_replicate, UInt16.toNat_toUInt32]

/-- A file of zeros. -/
def zeroFile (count : UInt16) : File where
  size := count.toUInt32
  data := List.replicate count.toNat 0
  length_le := length_zeros count

/-- The loader with two megabytes, before the first module. -/
def emptyLoader : State := .initial 0x100000 (fun _ => 0) 0 0

/-- The loader with a module of zeros and "A" as its argument. -/
def oneModule (count : UInt16) : State := emptyLoader.placed (zeroFile count).data [65]
    (0x100000 + UInt32.ofNat (zeroFile count).data.length + UInt32.ofNat 1)

theorem hasPage_emptyLoader : HasPage emptyLoader.boot := UInt32.le_iff_toNat_le.mpr (by decide)

theorem allowedStep_oneModule {count : UInt16} (positive : 0 < count.toNat) :
    AllowedStep 1024 emptyLoader (oneModule count) := by
  have length : (zeroFile count).data.length = count.toNat := List.length_replicate
  have small := count.toNat_lt
  have page : emptyLoader.boot.page = 0x100000 := by decide
  have limit : (1024 * (1024 + 1024) : UInt32).toNat = 2097152 := rfl
  have start : (0x100000 : UInt32).toNat = 1048576 := rfl
  have nonempty : (zeroFile count).data ≠ [] := by
    apply List.ne_nil_of_length_pos
    rw [length]
    exact positive
  have fits : Fits 1024 emptyLoader ⟨(zeroFile count).data.length, [65]⟩ := by
    refine ⟨by decide, fun _ member => absurd member List.not_mem_nil, ?_⟩
    rw [page, start, List.length_singleton]
    change _ ≤ min 2097152 _
    simp only
    omega
  have accepted : ¬ refused 1024 emptyLoader.boot.page (zeroFile count) := by
    have size : (zeroFile count).size.toNat = count.toNat := UInt16.toNat_toUInt32 count
    unfold refused
    rw [page, UInt32.le_iff_toNat_le, UInt32.toNat_add, limit, size, start]
    omega
  refine ⟨.load (some (zeroFile count)) [65], hasPage_emptyLoader, .inr fits, ?_⟩
  apply map_eq_ok_iff.mpr
  refine ⟨_, (load_module_eq_ok_iff accepted nonempty).mpr ⟨fits.writable, rfl⟩, ?_⟩
  rfl

/-- A module is loaded and described. -/
theorem module_described : ∃ state, RunsTo (AllowedStep 1024) emptyLoader state ∧
      state.loaded = [⟨1, [65]⟩] ∧ Good 1024 state := by
  have run : RunsTo (AllowedStep 1024) emptyLoader (oneModule 1) :=
    .single (allowedStep_oneModule (by decide))
  exact ⟨oneModule 1, run, by decide, (modules_of_run _ _ _ _ run).1⟩

theorem accepted_zeroFile_one {cur_addr : UInt32} (low : cur_addr.toNat < 2097151) :
    ¬ refused 1024 cur_addr (zeroFile 1) := by
  have limit : (1024 * (1024 + 1024) : UInt32).toNat = 2097152 := rfl
  have size : (zeroFile 1).size.toNat = 1 := rfl
  unfold refused
  rw [UInt32.le_iff_toNat_le, UInt32.toNat_add, limit, size]
  omega

/-- The image of the second module overwrites the terminator of the first one's
command line, if that is on a page's first byte; and a boot sector gets no
command line. -/
theorem terminator_overwritten : (∃ state, RunsTo (AllowedStep 1024) emptyLoader state ∧
      ¬ Meets 1024 state (.load (some (zeroFile 1)) [65])) ∧
      ¬ Meets 1024 emptyLoader (.bs (some (zeroFile 1)) [] 0 67) := by
  have sound : Sound 1024 emptyLoader := .initial 0x100000 (fun _ => 0) 0 0
  have step : AllowedStep 1024 emptyLoader (oneModule 4095) := allowedStep_oneModule (by decide)
  have length : (zeroFile 4095).data.length = 4095 := List.length_replicate
  have nonempty : (zeroFile 1).data ≠ [] := by decide
  constructor
  · refine ⟨oneModule 4095, .single step, ?_⟩
    have next : (oneModule 4095).boot.cur_addr = 0x101000 := by
      change 0x100000 + UInt32.ofNat (zeroFile 4095).data.length + _ = _
      rw [length]
      decide
    have page : (oneModule 4095).boot.page = 0x101000 := by
      unfold Boot.page
      rw [next]
      decide
    have terminator : (⟨0x100FFF, 2⟩ : Span) ∈ (oneModule 4095).spans := by
      unfold oneModule
      rw [spans_placed rfl, length]
      exact List.mem_append_right _ (List.mem_singleton_self _)
    rw [(sound.step step).meets_iff (UInt32.le_iff_toNat_le.mpr (by rw [next]; decide))]
    rintro (fails | fits)
    · refine not_fails (accepted_zeroFile_one ?_) nonempty fails
      rw [page]
      decide
    · have free := fits.free _ terminator
      rw [page] at free
      exact absurd free (by decide)
  · rw [sound.meets_iff hasPage_emptyLoader]
    exact not_fails (accepted_zeroFile_one (by decide)) nonempty

end OsFree.Loader
