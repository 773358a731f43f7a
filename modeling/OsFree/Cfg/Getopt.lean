import OsFree.Cfg.StoreLine
import OsFree.Machine.Word

/-!
# Asking for an option

The library and the server have one function each to ask for an option by its
name.  They look for the name in four tables, one for each type of field.
-/

namespace OsFree.Cfg

open Machine

/-- The small letter for a capital one. -/
def tolower (c : UInt8) : UInt8 :=
  if 0x41 ≤ c ∧ c ≤ 0x5a then c + 0x20 else c

/-- The address of a field that is taken for a `short int`. -/
inductive IntAddr where
  | short (field : ShortField)
  | int (field : IntField)
  deriving DecidableEq

/-- `intlist`. -/
def intlist : List (String × IntAddr) :=
  [("autofail", .short .autofail), ("buffers", .short .buffers),
   ("clockscale", .short .clockscale), ("closefiles", .short .closefiles),
   ("dllbasing", .short .dllbasing), ("earlymeminit", .short .earlymeminit),
   ("fakeiss", .short .fakeiss), ("i13pages", .short .i13pages),
   ("javanofpk", .short .javanofpk), ("ldrstackopt", .short .ldrstackopt),
   ("maxwait", .short .maxwait), ("ndwtimer", .short .ndwtimer),
   ("pauseonerror", .short .pauseonerror), ("priority", .short .priority),
   ("priority_disk_io", .short .priorityDiskIo),
   ("protectonly", .short .protectonly), ("raskdata", .short .raskdata),
   ("reipl", .short .reipl), ("sxfakehwfpu", .short .sxfakehwfpu),
   ("threads", .int .threads), ("tracebuf", .int .tracebuf),
   ("truemode", .short .truemode), ("vme", .short .vme),
   ("workplace_native", .short .workplaceNative),
   ("workplace_primary_cp", .short .workplacePrimaryCp),
   ("workplace_process", .short .workplaceProcess),
   ("wp_objhandle", .int .wpObjhandle), ("debugmodmgr", .short .debugmodmgr),
   ("debugixfmgr", .short .debugixfmgr), ("debugprcmgr", .short .debugprcmgr),
   ("debugmemmgr", .short .debugmemmgr)]

/-- `chrlist`. -/
def chrlist : List (String × CharField) :=
  [("dumpprocess", .dumpprocess), ("lastdrive", .lastdrive),
   ("remote_install_state", .remoteInstallState),
   ("reservedriveletter", .reservedriveletter),
   ("suppresspopups", .suppresspopups)]

/-- `arrlist`, which has the array of the code pages only. -/
def arrlist : List (String × Unit) := [("codepage", ())]

/-- `strlist`. -/
def strlist : List (String × TextField) := [("country", .country), ("devinfo_kbd", .devinfoKbd),
   ("devinfo_vio", .devinfoVio), ("diskcache", .diskcache),
   ("ibm_java_options", .ibmJavaOptions), ("iopl", .iopl), ("iropt", .iropt),
   ("libpath", .libpath), ("memman", .memman),
   ("printmonbufsize", .printmonbufsize), ("protshell", .protshell),
   ("sourcepath", .sourcepath), ("strace", .strace), ("swapppath", .swappath),
   ("sysdump", .sysdump), ("timeslice", .timeslice), ("trace", .trace),
   ("trapdump", .trapdump), ("traplog", .traplog), ("configfile", .configfile),
   ("bootdrive", .bootdrive)]

/-- The entry of a table with a name. -/
def findTab {α : Type} (table : List (String × α)) (name : List UInt8) :
    Option α :=
  (table.find? fun entry => chars entry.1 = name).map Prod.snd

/-- What a query gives: a number or a string. -/
inductive OptValue where
  | int (value : Int32)
  | text (value : List UInt8)
  deriving DecidableEq

/-- Read a `short int` at the address of a field. -/
def Options.readShort (options : Options) : IntAddr → Int16
  | .short field => options.shorts field
  | .int field => (options.ints field).toInt16

/-- What is on the stack from the entry of `arrlist` on: the address of the array
of the code pages, and other things. -/
structure EntryStack where
  addr : UInt32
  behind : List UInt8

namespace EntryStack

/-- The characters on the stack. -/
def cells (stack : EntryStack) : List UInt8 := longBytes stack.addr ++ stack.behind

/-- The string that begins with the entry itself. -/
def string (stack : EntryStack) : Run (List UInt8) :=
  if 0 ∈ stack.cells then .ok (stack.cells.takeWhile (· ≠ 0))
  else .error .readOutside

end EntryStack

/-- Ask the library for an option.  The code is 1 for a name that is not in the
tables. -/
def cfgGetopt (options : Options) (stack : EntryStack) (name : List UInt8) :
    Run (UInt32 × Option OptValue) :=
  match findTab intlist name with
  | some addr => .ok (0, some (.int (options.readShort addr).toInt32))
  | none =>
    match findTab chrlist name with
    | some field =>
      let ch := options.chars field
      .ok (0, some (.text (if ch = 0 then [] else [ch])))
    | none =>
      match findTab arrlist name with
      | some () => do
          -- The address of the entry is copied from, not the one in it.
          let string ← stack.string
          return (0, some (.text string))
      | none =>
        match findTab strlist name with
        | some field =>
          match options.texts field with
          | some string => .ok (0, some (.text string))
          | none => .error .nullPointer
        | none => .ok (1, none)

/-- Ask the server for an option, which does the same. -/
def cpCfgGetopt (options : Options) (stack : EntryStack) (name : List UInt8) :
    Run (UInt32 × Option OptValue) :=
  cfgGetopt options stack name

/-- The name that is asked for. -/
def Opt.query (option : Opt) : List UInt8 := option.name.map tolower

/-- What a query is meant to give. -/
def Setting.given : Setting → OptValue
  | short _ value => .int value.toInt32
  | int _ value => .int value
  | char _ value => .text [value]
  | text _ value => .text value
  | codepage value => .text value
  | mode value => .text value

/-- A line for an option, with a value that it can have. -/
structure OptionLine where
  line : GivenLine
  option : Opt
  setting : Setting
  mem : equals ∈ line.text
  named : key line.text = option.name
  stands : option.legal.setting (value line.text) = some setting

/-- Behind the line for an option, both functions give its value. -/
def GivesValue (stack : EntryStack) (config : Config) (given : OptionLine) (lineno : Nat) : Prop :=
  ∃ code after array, parseLine .server atoi config given.line.array
      given.line.len lineno = .ok (some (code, after, array)) ∧
    cfgGetopt after.options stack given.option.query = .ok (0, some given.setting.given) ∧
    cpCfgGetopt after.options stack given.option.query = .ok (0, some given.setting.given)

/-- The options that are in none of the tables under their names. -/
def Opt.unlisted : List Opt := [.devinfo, .mode, .setboot, .swappath, .virtualaddresslimit]

/-- A number of an `int` has no more than 15 bits, and the stack happens to spell
the code pages. -/
def Setting.Passes (stack : EntryStack) : Setting → Prop
  | int _ value => value.toInt < 2 ^ 15
  | codepage value => stack.string = .ok value
  | _ => True

/-- The option is in a table, and its value is what is read there. -/
structure Readable (stack : EntryStack) (given : OptionLine) : Prop where
  listed : given.option ∉ Opt.unlisted
  passes : given.setting.Passes stack

/-- Where the tables lead to for the values of an option. -/
def Listed (query : List UInt8) : Legal → Prop
  | .words field _ | .number field _ =>
    findTab intlist query = some (.short field)
  | .int field => findTab intlist query = some (.int field)
  | .char field =>
    findTab intlist query = none ∧ findTab chrlist query = some field
  | .codepage =>
    findTab intlist query = none ∧ findTab chrlist query = none ∧ findTab arrlist query = some ()
  | .text field | .upperText field =>
    findTab intlist query = none ∧ findTab chrlist query = none ∧
      findTab arrlist query = none ∧ findTab strlist query = some field
  | .devinfo | .mode => False

theorem Opt.listed {option : Opt} (listed : option ∉ Opt.unlisted) :
    Listed option.query option.legal := by
  revert listed
  cases option <;> simp only [Opt.legal, Listed] <;> decide

theorem Opt.not_found {option : Opt} (unlisted : option ∈ Opt.unlisted) :
    findTab intlist option.query = none ∧ findTab chrlist option.query = none ∧
      findTab arrlist option.query = none ∧
        findTab strlist option.query = none := by
  revert unlisted
  cases option <;> decide

theorem toInt16_toInt32_eq_iff {value : Int32} (nonneg : 0 ≤ value.toInt) :
    value.toInt16.toInt32 = value ↔ value.toInt < 2 ^ 15 := by
  rw [← Int32.toInt_inj, Int16.toInt_toInt32, Int32.toInt_toInt16]
  constructor
  · intro same
    rw [← same]
    exact Int.bmod_lt (by decide)
  · intro small
    exact Int.bmod_eq_of_le (by omega) (by omega)

theorem cfgGetopt_eq_iff {legal : Legal} {query value : List UInt8}
    {setting : Setting} {before after : Options} {stack : EntryStack}
    (listed : Listed query legal)
    (stands : legal.setting value = some setting)
    (nonzero : ∀ c ∈ value, c ≠ 0) (stores : setting.Stores before after) :
    cfgGetopt after stack query = .ok (0, some setting.given) ↔
      setting.Passes stack := by
  cases legal with
  | words field list =>
    simp only [Legal.setting, Option.map_eq_some_iff] at stands
    obtain ⟨word, -, rfl⟩ := stands
    have found : findTab intlist query = some (.short field) := listed
    subst stores
    simp [cfgGetopt, found, Options.readShort, Options.setShort, Setting.given, Setting.Passes]
  | number field legal =>
    simp only [Legal.setting, Option.map_eq_some_iff] at stands
    obtain ⟨n, -, rfl⟩ := stands
    have found : findTab intlist query = some (.short field) := listed
    subst stores
    simp [cfgGetopt, found, Options.readShort, Options.setShort, Setting.given, Setting.Passes]
  | int field =>
    simp only [Legal.setting, Option.map_eq_some_iff] at stands
    obtain ⟨n, filtered, rfl⟩ := stands
    have small : n < 2 ^ 31 := by
      simpa using (number?_of_filter filtered).2
    have found : findTab intlist query = some (.int field) := listed
    subst stores
    have nonneg : 0 ≤ (Int32.ofNat n).toInt := by
      rw [Int32.toInt_ofNat_of_lt small]
      exact Int.natCast_nonneg n
    simp only [cfgGetopt, found, Options.readShort, Options.setInt, Setting.given, Setting.Passes]
    simpa using toInt16_toInt32_eq_iff nonneg
  | char field =>
    simp only [Legal.setting] at stands
    split at stands
    · rename_i c
      cases stands
      have given : c ≠ 0 := nonzero c (List.mem_cons_self ..)
      subst stores
      simp [cfgGetopt, listed.1, listed.2, Options.setChar, Setting.given, Setting.Passes, given]
    · cases stands
  | text field =>
    cases stands
    subst stores
    simp [cfgGetopt, listed.1, listed.2.1, listed.2.2.1, listed.2.2.2,
      Options.setText, Setting.given, Setting.Passes]
  | upperText field =>
    cases stands
    subst stores
    simp [cfgGetopt, listed.1, listed.2.1, listed.2.2.1, listed.2.2.2,
      Options.setText, Setting.given, Setting.Passes]
  | codepage =>
    simp only [Legal.setting] at stands
    split at stands
    · cases stands
      simp only [cfgGetopt, listed.1, listed.2.1, listed.2.2, Setting.given, Setting.Passes]
      cases stack.string <;> simp
    · cases stands
  | devinfo => exact listed.elim
  | mode => exact listed.elim

theorem cfgGetopt_of_unlisted {option : Opt} (unlisted : option ∈ Opt.unlisted)
    (options : Options) (stack : EntryStack) :
    cfgGetopt options stack option.query = .ok (1, none) := by
  obtain ⟨ints, chrs, arrs, strs⟩ := Opt.not_found unlisted
  simp [cfgGetopt, ints, chrs, arrs, strs]

theorem stores_of_listed {given : OptionLine} (config : Config) (lineno : Nat)
    (listed : given.option ∉ Opt.unlisted) :
    ∃ code after array, parseLine .server atoi config given.line.array
        given.line.len lineno = .ok (some (code, after, array)) ∧
      given.setting.Stores config.options after.options := by
  have different : ∀ statement ∈ Copy.server.type, ¬statement.name <+: given.option.name := by
    intro statement mem front
    apply listed
    rw [setboot_of_begins mem front]
    decide
  have none : Copy.server.findStatement given.line.array = none := by
    rw [Copy.findStatement, List.find?_eq_none]
    intro statement mem begins
    have clear' := statement_name_clear statement
    have front := prefix_key given.line.holds clear'.1 clear'.2 given.mem begins
    rw [given.named, List.isPrefixOf_iff_prefix] at front
    exact different statement mem front
  have keys : ∀ statement ∈ Copy.server.type,
      key given.line.text ≠ statement.name := by
    intro statement mem same
    have front : statement.name <+: key given.line.text := same ▸ List.prefix_rfl
    exact different statement mem (given.named ▸ front)
  have found : findOption given.line.array = some given.option :=
    (findOption_eq_some_iff given.line.holds).mpr ⟨given.mem, given.named⟩
  have notMode : findOption given.line.array = some .mode →
      config.options.mode.length < 20 := by
    intro isMode
    rw [found] at isMode
    rw [Option.some.inj isMode] at listed
    exact absurd (by decide) listed
  have treats := (@treats_option config lineno given.line none).mpr notMode
  have demands := @demand_of_option given.line.text config lineno given.mem
    given.option given.named keys
  rw [given.stands] at demands
  obtain ⟨code, after, array, returns, -, stores⟩ := treats _ demands
  exact ⟨code, after, array, returns, stores⟩

theorem givesValue_iff_passes {stack : EntryStack} {config : Config}
    {given : OptionLine} {lineno : Nat} (listed : given.option ∉ Opt.unlisted) :
    GivesValue stack config given lineno ↔ given.setting.Passes stack := by
  obtain ⟨code, after, array, returns, stores⟩ := stores_of_listed config lineno listed
  have nonzero : ∀ c ∈ value given.line.text, c ≠ 0 := by
    intro c mem
    apply given.line.holds.nonzero
    obtain ⟨rest, -⟩ := drop_eq_value given.mem given.named
    rw [← rest] at mem
    exact List.mem_of_mem_drop mem
  have gives := @cfgGetopt_eq_iff given.option.legal given.option.query
    (value given.line.text) given.setting config.options after.options stack
    (Opt.listed listed) given.stands nonzero stores
  rw [← gives]
  constructor
  · intro both
    obtain ⟨code', after', array', returns', answers, -⟩ := both
    rw [returns] at returns'
    cases returns'
    exact answers
  · intro answers
    exact ⟨code, after, array, returns, answers, answers⟩

/-- The value of an option is given back exactly if it can be read. -/
theorem givesValue_iff_readable (stack : EntryStack) (config : Config)
    (given : OptionLine) (lineno : Nat) :
    GivesValue stack config given lineno ↔ Readable stack given := by
  by_cases listed : given.option ∉ Opt.unlisted
  · rw [givesValue_iff_passes listed]
    exact ⟨fun passes => ⟨listed, passes⟩, Readable.passes⟩
  · refine iff_of_false ?_ (fun readable => listed readable.listed)
    intro gives
    obtain ⟨code, after, array, -, answers, -⟩ := gives
    rw [cfgGetopt_of_unlisted (not_not.mp listed)] at answers
    cases answers

/-- The line `THREADS=40000` in an array of zeros. -/
def threadsLine : OptionLine where
  line := {
    array := {
      cells := chars "THREADS=40000" ++ 0 :: List.replicate 1498 0
      size := by
        rw [List.length_append, List.length_cons, List.length_replicate]
        rfl }
    text := chars "THREADS=40000"
    len := 13
    holds := {
      cells := ⟨List.replicate 1498 0, rfl⟩
      nonzero := fun c mem =>
        ne_of_mem_of_not_mem mem (by decide : 0 ∉ chars "THREADS=40000") }
    reaches := by decide }
  option := .threads
  setting := .int .threads 40000
  mem := by decide
  named := by decide
  stands := rfl

/-- A number of more than 15 bits is cut off. -/
theorem threadsLine_not_givesValue :
    ¬GivesValue ⟨0x00408000, []⟩ .initial threadsLine 0 := by
  have listed : threadsLine.option ∉ Opt.unlisted := by decide
  rw [givesValue_iff_passes listed]
  have large : ¬(40000 : Int32).toInt < 2 ^ 15 := by decide
  exact large

end OsFree.Cfg
