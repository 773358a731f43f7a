import Mathlib.Data.List.Find
import Mathlib.Data.List.GetD
import Mathlib.Data.List.TakeWhile
import OsFree.Cfg.ReadConfig

/-!
# Strings in the array for a line

What the parser reads of the array depends on the string in it alone, but for a
copy of seven characters and for a statement that is nothing but its name.
-/

namespace OsFree.Cfg

open Machine

variable {c : UInt8}

theorem toupper_eq_zero_iff : toupper c = 0 ↔ c = 0 := by
  unfold toupper
  split
  · rename_i small
    constructor
    · intro zero
      have low : 0x61 ≤ c.toNat := small.1
      have same := congrArg UInt8.toNat zero
      rw [UInt8.toNat_sub_of_le c 0x20 (Nat.le_trans (by decide) low)] at same
      have : c.toNat - 0x20 = 0 := same
      omega
    · intro zero
      subst zero
      exact absurd small.1 (by decide)
  · rfl

theorem toupper_eq_iff {d : UInt8} (low : d < 0x41) : toupper c = d ↔ c = d := by
  unfold toupper
  split
  · rename_i small
    have low' : d.toNat < 0x41 := low
    have large : 0x61 ≤ c.toNat := small.1
    constructor
    · intro equal
      have same := congrArg UInt8.toNat equal
      rw [UInt8.toNat_sub_of_le c 0x20 (Nat.le_trans (by decide) large)] at same
      have : c.toNat - 0x20 = d.toNat := same
      omega
    · intro equal
      exfalso
      rw [equal] at large
      omega
  · rfl

theorem isPrefixOf_append_cons {name text rest : List UInt8} {d : UInt8} (without : d ∉ name) :
    name.isPrefixOf (text ++ d :: rest) = name.isPrefixOf text := by
  induction name generalizing text with
  | nil => simp
  | cons c name ih =>
    rw [List.mem_cons, not_or] at without
    cases text with
    | nil => simp [List.isPrefixOf, Ne.symm without.1]
    | cons first text =>
      simp only [List.cons_append, List.isPrefixOf]
      rw [ih without.2]

/-- The array has a string in front. -/
structure LineArray.Holds (line : LineArray) (text : List UInt8) : Prop where
  cells : ∃ rest, line.cells = text ++ 0 :: rest
  nonzero : ∀ c ∈ text, c ≠ 0

namespace LineArray.Holds

variable {line : LineArray} {text : List UInt8}

section

variable (holds : line.Holds text)

include holds

theorem text_eq : line.text = text := by
  obtain ⟨rest, cells⟩ := holds.cells
  rw [LineArray.text, cells, List.takeWhile_append_of_pos]
  · simp
  · intro c mem
    simpa using holds.nonzero c mem

theorem startsWith_eq {name : List UInt8} (nonzero : 0 ∉ name) :
    line.startsWith name = name.isPrefixOf (text.map toupper) := by
  obtain ⟨rest, cells⟩ := holds.cells
  have zero : toupper 0 = 0 := toupper_eq_zero_iff.mpr rfl
  rw [LineArray.startsWith, cells, List.map_append, List.map_cons, zero,
    isPrefixOf_append_cons nonzero]

theorem getD_eq {index : Nat}
    (le : index ≤ text.length) : line.cells.getD index 0 = text.getD index 0 := by
  obtain ⟨rest, cells⟩ := holds.cells
  rw [cells]
  cases Nat.lt_or_eq_of_le le with
  | inl less => rw [List.getD_append _ _ _ _ less]
  | inr equal =>
    rw [equal, List.getD_append_right _ _ _ _ (Nat.le_refl _)]
    simp

theorem shift {count : Nat} (le : count ≤ text.length) :
    ∃ moved, line.shift count = .ok moved ∧ moved.Holds (text.drop count) := by
  obtain ⟨rest, cells⟩ := holds.cells
  have nonzero : ∀ c ∈ text.drop count, c ≠ 0 :=
    fun c mem => holds.nonzero c (List.mem_of_mem_drop mem)
  have dropped : line.cells.drop count = text.drop count ++ 0 :: rest := by
    rw [cells, List.drop_append_of_le_length le]
  have taken : (line.cells.drop count).takeWhile (· ≠ 0) = text.drop count := by
    rw [dropped, List.takeWhile_append_of_pos]
    · simp
    · intro c mem
      simpa using nonzero c mem
  have ends : ((line.cells.drop count).takeWhile (· ≠ 0)).length <
      (line.cells.drop count).length := by
    rw [taken, dropped, List.length_append, List.length_cons]
    omega
  rw [LineArray.shift, dif_pos ends]
  refine ⟨_, rfl, ?_, nonzero⟩
  simp only [taken]
  exact ⟨_, rfl⟩

theorem strupr : line.strupr.Holds (text.map toupper) where
  cells := by
    obtain ⟨rest, cells⟩ := holds.cells
    refine ⟨rest, ?_⟩
    show line.text.map toupper ++ line.cells.drop line.text.length = _
    rw [holds.text_eq, cells, List.drop_left]
  nonzero := by
    intro c mem
    obtain ⟨d, mem', equal⟩ := List.mem_map.mp mem
    rw [← equal]
    exact mt toupper_eq_zero_iff.mp (holds.nonzero d mem')

end

end LineArray.Holds

theorem copyText_eq {text : List UInt8} {len : Int}
    (fits : (text.length : Int) ≤ len) : copyText text len = .ok text :=
  if_pos fits

theorem storeStatement_of_le {copy : Copy} {config : Config} {line : LineArray}
    {text : List UInt8} {len lineno : Nat} {statement : Statement}
    (holds : line.Holds text) (le : statement.name.length + 1 ≤ text.length)
    (reaches : text.length ≤ len) :
    ∃ array, storeStatement copy config line len lineno statement =
      if (config.entries statement).length < copy.capacity statement then
        .ok (some (1, config.add statement ⟨lineno, text.drop (statement.name.length + 1)⟩, array))
      else .error .writeOutside := by
  obtain ⟨moved, shifted, holds'⟩ := holds.shift le
  have fits : ((text.drop (statement.name.length + 1)).length : Int) ≤
      (len : Int) - ((statement.name.length + 1 : Nat) : Int) := by
    rw [List.length_drop]
    omega
  refine ⟨moved, ?_⟩
  rw [storeStatement, shifted]
  simp only [bind_ok, holds'.text_eq]
  rw [copyText_eq fits]
  rfl

/-!
## The values of the options

The comments of `cfg_opts` say which values an option can have.  Here is what
such a value stands for, and that the parser stores just that.
-/

/-- What a value stands for: a field with what belongs there. -/
inductive Setting where
  | short (field : ShortField) (value : Int16)
  | int (field : IntField) (value : Int32)
  | char (field : CharField) (value : UInt8)
  | text (field : TextField) (value : List UInt8)
  | codepage (value : List UInt8)
  | mode (value : List UInt8)

/-- The setting is stored, and the other options stay as they were.  The array of
the code pages may be longer than the value. -/
def Setting.Stores (before after : Options) : Setting → Prop
  | short field value => after = before.setShort field value
  | int field value => after = before.setInt field value
  | char field value => after = before.setChar field value
  | text field value => after = before.setText field value
  | codepage value =>
    after.codepage.takeWhile (· ≠ 0) = value ∧
      after = { before with codepage := after.codepage }
  | mode value => after = { before with mode := before.mode ++ [value] }

/-- The values that an option can have. -/
inductive Legal where
  | words (field : ShortField) (list : List (String × Int16))
  | number (field : ShortField) (legal : Nat → Bool)
  | int (field : IntField)
  | char (field : CharField)
  | text (field : TextField)
  | upperText (field : TextField)
  | codepage
  | devinfo
  | mode

/-- The number that is written with nothing but digits. -/
def number? (value : List UInt8) : Option Nat :=
  if value ≠ [] ∧ value.all isdigit = true then some (decimal value) else none

/-- A code page has a number of three digits, and there are one or two of
them. -/
def isCodepages (value : List UInt8) : Bool := (value.length = 3 && value.all isdigit) ||
    (value.length = 7 && (value.take 3).all isdigit &&
      value.getD 3 0 = 0x2c && (value.drop 4).all isdigit)

/-- What a value stands for, if the option can have it.  Countries, devices and
the cache are kept in capitals. -/
def Legal.setting (value : List UInt8) : Legal → Option Setting
  | words field list =>
    (list.find? fun word => chars word.1 = value.map toupper).map fun word => .short field word.2
  | number field legal =>
    ((number? value).filter legal).map fun n => .short field (Int16.ofNat n)
  | int field =>
    ((number? value).filter (· < 2 ^ 31)).map fun n => .int field (Int32.ofNat n)
  | char field =>
    match value with
    | [c] => some (.char field c)
    | _ => none
  | text field => some (.text field value)
  | upperText field => some (.text field (value.map toupper))
  | codepage => if isCodepages value then some (.codepage value) else none
  | devinfo =>
    let device := value.map toupper
    if device.take 4 = chars "KBD," then some (.text .devinfoKbd device)
    else if device.take 4 = chars "SCR," then some (.text .devinfoVio device)
    else none
  | mode => some (.mode value)

/-- The values of an option. -/
def Opt.legal : Opt → Legal
  | autofail => .words .autofail [("YES", 1), ("NO", 0)]
  | buffers => .number .buffers fun n => 3 ≤ n && n ≤ 100
  | clockscale => .number .clockscale fun n => n = 1 || n = 2 || n = 4
  | closefiles => .words .closefiles [("TRUE", 1), ("FALSE", 0)]
  | codepage => .codepage
  | country => .upperText .country
  | devinfo => .devinfo
  | diskcache => .upperText .diskcache
  | dllbasing => .words .dllbasing [("ON", 1), ("OFF", 0)]
  | dumpprocess => .char .dumpprocess
  | earlymeminit => .words .earlymeminit [("TRUE", 1), ("FALSE", 0)]
  | fakeiss => .words .fakeiss [("YES", 1), ("NO", 0)]
  | i13pages => .words .i13pages [("1", 1), ("0", 0)]
  | ibmJavaOptions => .text .ibmJavaOptions
  | iopl => .text .iopl
  | iropt => .text .iropt
  | javanofpk => .words .javanofpk [("YES", 1), ("NO", 0)]
  | lastdrive => .char .lastdrive
  | ldrstackopt => .words .ldrstackopt [("FALSE", 0), ("TRUE", 1)]
  | libpath => .text .libpath
  | maxwait => .number .maxwait fun n => 1 ≤ n && n ≤ 255
  | memman => .text .memman
  | mode => .mode
  | ndwtimer => .words .ndwtimer [("OFF", 0), ("ON", 1)]
  | pauseonerror => .words .pauseonerror [("YES", 1), ("NO", 0)]
  | printmonbufsize => .text .printmonbufsize
  | priority => .words .priority [("DYNAMIC", 1), ("ABSOLUTE", 0)]
  | priorityDiskIo => .words .priorityDiskIo [("YES", 1), ("NO", 0)]
  | protectonly => .words .protectonly [("YES", 1), ("NO", 0)]
  | protshell => .text .protshell
  | raskdata => .words .raskdata [("OTE", 1)]
  | reipl => .words .reipl [("ON", 1), ("OFF", 0)]
  | remoteInstallState => .char .remoteInstallState
  | reservedriveletter => .char .reservedriveletter
  | setboot => .text .setboot
  | sourcepath => .text .sourcepath
  | strace => .text .strace
  | suppresspopups => .char .suppresspopups
  | swappath => .text .swappath
  | sxfakehwfpu => .words .sxfakehwfpu [("1", 1), ("0", 0)]
  | sysdump => .text .sysdump
  | threads => .int .threads
  | timeslice => .text .timeslice
  | trace => .text .trace
  | tracebuf => .int .tracebuf
  | trapdump => .text .trapdump
  | traplog => .text .traplog
  | truemode => .words .truemode [("1", 1), ("0", 0)]
  | virtualaddresslimit => .int .virtualaddresslimit
  | vme => .words .vme [("NO", 0), ("YES", 1)]
  | workplaceNative => .words .workplaceNative [("0", 0), ("1", 1)]
  | workplacePrimaryCp => .words .workplacePrimaryCp [("1", 1), ("0", 0)]
  | workplaceProcess => .words .workplaceProcess [("NO", 0), ("YES", 1)]
  | wpObjhandle => .int .wpObjhandle
  | debugmodmgr => .words .debugmodmgr [("NO", 0), ("YES", 1)]
  | debugixfmgr => .words .debugixfmgr [("NO", 0), ("YES", 1)]
  | debugprcmgr => .words .debugprcmgr [("NO", 0), ("YES", 1)]

theorem isspace_of_isdigit (digit : isdigit c = true) :
    isspace c = false := by
  simp only [isdigit, Bool.and_eq_true, decide_eq_true_eq] at digit
  have low : 0x30 ≤ c.toNat := digit.1
  have blank : c ≠ 0x20 := by
    intro equal
    rw [equal] at low
    exact absurd low (by decide)
  have above : ¬c ≤ 0x0d := by
    intro le
    have : c.toNat ≤ 0x0d := le
    omega
  simp [isspace, blank, above]

theorem atoi_eq {value : List UInt8} {n : Nat} (number : number? value = some n)
    (fits : n < 2 ^ 31) : atoi value = .ok (Int32.ofNat n) := by
  unfold number? at number
  split at number
  · rename_i digits
    cases number
    obtain ⟨nonempty, all⟩ := digits
    obtain ⟨c, rest, rfl⟩ := List.exists_cons_of_ne_nil nonempty
    have first : isdigit c = true := by
      rw [List.all_cons, Bool.and_eq_true] at all
      exact all.1
    have minus : c ≠ 0x2d := by
      intro equal
      rw [equal] at first
      cases first
    have plus : c ≠ 0x2b := by
      intro equal
      rw [equal] at first
      cases first
    have taken : (c :: rest).takeWhile isdigit = c :: rest := by
      rw [List.takeWhile_eq_self_iff]
      exact fun d mem => List.all_eq_true.mp all d mem
    have kept : (c :: rest).dropWhile isspace = c :: rest := by
      simp [isspace_of_isdigit first]
    have range : -2 ^ 31 ≤ (decimal (c :: rest) : Int) ∧ (decimal (c :: rest) : Int) < 2 ^ 31 := by
      omega
    have bare : unsigned (c :: rest) = c :: rest := by
      simp [unsigned, minus, plus]
    unfold atoi
    simp only [kept, bare, taken, List.head?_cons, Option.some.injEq, if_neg minus]
    rw [if_pos range, Int32.ofInt_eq_ofNat]
  · cases number

/-- The answers of a handler to the words that an option can have. -/
def Answers (tests : List (String × Int16)) (otherwise : Option Int16)
    (list : List (String × Int16)) : Prop :=
  ∀ word ∈ list, ((tests.find? fun test =>
    (chars test.1).isPrefixOf (chars word.1)).map Prod.snd).or otherwise = some word.2

/-- The handler fits the values of an option. -/
def Handler.Serves : Handler → Legal → Prop
  | words field tests otherwise, .words field' list =>
    field = field' ∧ (∀ test ∈ tests, 0 ∉ chars test.1) ∧ Answers tests otherwise list
  | digit field c value otherwise, .words field' list =>
    field = field' ∧ c < 0x41 ∧ ∀ word ∈ list, chars word.1 ≠ [] ∧
      (if (chars word.1).head? = some c then value else otherwise) = word.2
  | short field, .number field' legal =>
    field = field' ∧ ∀ n, legal n = true → n < 2 ^ 31
  | checked field test, .number field' legal =>
    field = field' ∧ ∀ n, legal n = true → n < 2 ^ 31 ∧ test (Int32.ofNat n) = true
  | int field, .int field' => field = field'
  | char field, .char field' => field = field'
  | text field, .text field' => field = field'
  | upperText field, .upperText field' => field = field'
  | codepage, .codepage => True
  | devinfo, .devinfo => True
  | mode, .mode => True
  | _, _ => False

theorem le_ofNat {low n : Nat} (le : low ≤ n) (fits : n < 2 ^ 31) :
    Int32.ofNat low ≤ Int32.ofNat n := by
  rw [Int32.le_iff_toInt_le, Int32.toInt_ofNat_of_lt fits,
    Int32.toInt_ofNat_of_lt (Nat.lt_of_le_of_lt le fits)]
  exact Int.ofNat_le.mpr le

theorem Opt.serves (option : Opt) : option.handler.Serves option.legal := by
  cases option
  case buffers =>
    refine ⟨rfl, ?_⟩
    simp
    omega
  case clockscale =>
    refine ⟨rfl, ?_⟩
    intro n legal
    simp only [Bool.or_eq_true, decide_eq_true_eq] at legal
    rcases legal with (rfl | rfl) | rfl <;> decide
  case maxwait =>
    refine ⟨rfl, ?_⟩
    intro n legal
    simp only [Bool.and_eq_true, decide_eq_true_eq] at legal
    have fits : n < 2 ^ 31 := by omega
    refine ⟨fits, ?_⟩
    simp only [Bool.and_eq_true, decide_eq_true_eq]
    exact ⟨le_ofNat legal.1 fits, le_ofNat legal.2 (by decide)⟩
  all_goals simp only [Opt.handler, Opt.legal, Handler.Serves, Answers]
  all_goals exact ⟨trivial, by decide, by decide⟩

section

variable {options : Options} {line : LineArray} {len : Int} {value : List UInt8} {setting : Setting}

/-- The handler comes back, and what the value stands for is stored. -/
def Handler.StoresSetting (handler : Handler) (options : Options)
    (line : LineArray) (len : Int) (setting : Setting) : Prop :=
  ∃ after line', handler.run .server atoi options line len =
    .ok (some (after, line')) ∧ setting.Stores options after

variable {field : ShortField} {legal : Nat → Bool}

theorem stores_words {tests list : List (String × Int16)}
    {otherwise : Option Int16} (nonzero : ∀ test ∈ tests, 0 ∉ chars test.1)
    (answers : Answers tests otherwise list)
    (stands : (Legal.words field list).setting value = some setting)
    (holds : line.Holds value) :
    (Handler.words field tests otherwise).StoresSetting options line len
      setting := by
  simp only [Legal.setting, Option.map_eq_some_iff] at stands
  obtain ⟨word, found, rfl⟩ := stands
  have same : chars word.1 = value.map toupper := by
    simpa using List.find?_some found
  have tested : (tests.find? fun test => line.startsWith (chars test.1)) =
      tests.find? fun test => (chars test.1).isPrefixOf (chars word.1) := by
    apply List.find?_congr
    intro test mem
    rw [holds.startsWith_eq (nonzero test mem), same]
  refine ⟨options.setShort field word.2, line, ?_, rfl⟩
  simp only [Handler.run, tested, answers word (List.mem_of_find?_eq_some found)]

theorem stores_digit {c : UInt8} {given otherwise : Int16}
    {list : List (String × Int16)} (low : c < 0x41)
    (answers : ∀ word ∈ list, chars word.1 ≠ [] ∧
      (if (chars word.1).head? = some c then given else otherwise) = word.2)
    (stands : (Legal.words field list).setting value = some setting)
    (holds : line.Holds value) :
    (Handler.digit field c given otherwise).StoresSetting options line len
      setting := by
  simp only [Legal.setting, Option.map_eq_some_iff] at stands
  obtain ⟨word, found, rfl⟩ := stands
  obtain ⟨nonempty, answer⟩ := answers word (List.mem_of_find?_eq_some found)
  have same : chars word.1 = value.map toupper := by
    simpa using List.find?_some found
  rw [same] at nonempty answer
  obtain ⟨rest, cells⟩ := holds.cells
  refine ⟨_, line, rfl, ?_⟩
  cases value with
  | nil => exact absurd rfl nonempty
  | cons d value =>
    rw [List.map_cons, List.head?_cons] at answer
    simp only [Option.some.injEq, toupper_eq_iff low] at answer
    simp only [cells, List.cons_append, List.head?_cons, Option.some.injEq, answer, Setting.Stores]

theorem number?_of_filter {n : Nat} (filtered : (number? value).filter legal = some n) :
    number? value = some n ∧ legal n = true := by
  rwa [Option.filter_eq_some_iff] at filtered

theorem stores_short (small : ∀ n, legal n = true → n < 2 ^ 31)
    (stands : (Legal.number field legal).setting value = some setting)
    (holds : line.Holds value) :
    (Handler.short field).StoresSetting options line len setting := by
  simp only [Legal.setting, Option.map_eq_some_iff] at stands
  obtain ⟨n, filtered, rfl⟩ := stands
  obtain ⟨number, isLegal⟩ := number?_of_filter filtered
  refine ⟨options.setShort field (Int16.ofNat n), line, ?_, rfl⟩
  simp [Handler.run, holds.text_eq, atoi_eq number (small n isLegal)]

theorem stores_checked {test : Int32 → Bool} (passes : ∀ n, legal n = true → n < 2 ^ 31 ∧
      test (Int32.ofNat n) = true)
    (stands : (Legal.number field legal).setting value = some setting)
    (holds : line.Holds value) :
    (Handler.checked field test).StoresSetting options line len setting := by
  simp only [Legal.setting, Option.map_eq_some_iff] at stands
  obtain ⟨n, filtered, rfl⟩ := stands
  obtain ⟨number, isLegal⟩ := number?_of_filter filtered
  obtain ⟨small, passed⟩ := passes n isLegal
  refine ⟨options.setShort field (Int16.ofNat n), line, ?_, rfl⟩
  simp [Handler.run, holds.text_eq, atoi_eq number small, passed]

theorem stores_int {field : IntField} (stands : (Legal.int field).setting value = some setting)
    (holds : line.Holds value) :
    (Handler.int field).StoresSetting options line len setting := by
  simp only [Legal.setting, Option.map_eq_some_iff] at stands
  obtain ⟨n, filtered, rfl⟩ := stands
  obtain ⟨number, small⟩ := number?_of_filter filtered
  refine ⟨options.setInt field (Int32.ofNat n), line, ?_, rfl⟩
  simp [Handler.run, holds.text_eq, atoi_eq number (by simpa using small)]

theorem stores_char {field : CharField} (stands : (Legal.char field).setting value = some setting)
    (holds : line.Holds value) :
    (Handler.char field).StoresSetting options line len setting := by
  obtain ⟨rest, cells⟩ := holds.cells
  simp only [Legal.setting] at stands
  split at stands
  · rename_i c
    cases stands
    refine ⟨options.setChar field c, line, ?_, rfl⟩
    simp [Handler.run, cells]
  · cases stands

theorem stores_text {field : TextField} (stands : (Legal.text field).setting value = some setting)
    (holds : line.Holds value) (fits : (value.length : Int) ≤ len) :
    (Handler.text field).StoresSetting options line len setting := by
  cases stands
  refine ⟨options.setText field value, line, ?_, rfl⟩
  simp [Handler.run, holds.text_eq, copyText_eq fits]

theorem copyText_strupr (holds : line.Holds value) (fits : (value.length : Int) ≤ len) :
    copyText line.strupr.text len = .ok (value.map toupper) := by
  rw [holds.strupr.text_eq]
  exact copyText_eq (by rwa [List.length_map])

theorem stores_upperText {field : TextField}
    (stands : (Legal.upperText field).setting value = some setting)
    (holds : line.Holds value) (fits : (value.length : Int) ≤ len) :
    (Handler.upperText field).StoresSetting options line len setting := by
  cases stands
  refine ⟨options.setText field (value.map toupper), line.strupr, ?_, rfl⟩
  simp [Handler.run, copyText_strupr holds fits]

theorem take_three_of_take_four {text name : List UInt8} {c : UInt8}
    (begins : text.take 4 = name ++ [c]) (size : name.length = 3) :
    text.take 3 = name := by
  calc
    text.take 3 = (text.take 4).take 3 := by rw [List.take_take]; rfl
    _ = (name ++ [c]).take name.length := by rw [begins, size]
    _ = name := List.take_left

theorem stores_devinfo (stands : Legal.devinfo.setting value = some setting)
    (holds : line.Holds value) (fits : (value.length : Int) ≤ len) :
    Handler.devinfo.StoresSetting options line len setting := by
  simp only [Legal.setting] at stands
  split at stands
  · rename_i keyboard
    cases stands
    have begins : (value.map toupper).take 3 = chars "KBD" := take_three_of_take_four keyboard rfl
    refine ⟨options.setText .devinfoKbd (value.map toupper), line.strupr, ?_, rfl⟩
    simp [Handler.run, copyText_strupr holds fits, begins]
  · split at stands
    · rename_i screen
      cases stands
      have begins : (value.map toupper).take 3 = chars "SCR" := take_three_of_take_four screen rfl
      have other : chars "SCR" ≠ chars "KBD" := by decide
      refine ⟨options.setText .devinfoVio (value.map toupper), line.strupr, ?_, rfl⟩
      simp [Handler.run, copyText_strupr holds fits, begins, other]
    · cases stands

theorem stores_mode (stands : Legal.mode.setting value = some setting)
    (holds : line.Holds value) (fits : (value.length : Int) ≤ len)
    (room : options.mode.length < 20) :
    Handler.mode.StoresSetting options line len setting := by
  cases stands
  refine ⟨{ options with mode := options.mode ++ [value] }, line, ?_, rfl⟩
  simp [Handler.run, holds.text_eq, copyText_eq fits, room]

theorem stores_codepage (stands : Legal.codepage.setting value = some setting)
    (holds : line.Holds value) :
    Handler.codepage.StoresSetting options line len setting := by
  simp only [Legal.setting] at stands
  split at stands
  · rename_i form
    cases stands
    refine ⟨_, line, rfl, ?_, rfl⟩
    have size : value.length ≤ 7 := by
      simp only [isCodepages, Bool.or_eq_true, Bool.and_eq_true, decide_eq_true_eq] at form
      omega
    obtain ⟨rest, cells⟩ := holds.cells
    simp only [cells, List.take_append]
    rw [List.take_of_length_le size, List.takeWhile_append_of_pos]
    · cases 7 - value.length <;> simp
    · intro c mem
      simpa using holds.nonzero c mem
  · cases stands

theorem stores_of_serves {handler : Handler} {legal : Legal} (serves : handler.Serves legal)
    (stands : legal.setting value = some setting) (holds : line.Holds value)
    (fits : (value.length : Int) ≤ len)
    (room : legal = .mode → options.mode.length < 20) :
    handler.StoresSetting options line len setting := by
  cases handler <;> cases legal <;> try exact serves.elim
  case words.words =>
    obtain ⟨rfl, nonzero, answers⟩ := serves
    exact stores_words nonzero answers stands holds
  case digit.words =>
    obtain ⟨rfl, low, answers⟩ := serves
    exact stores_digit low answers stands holds
  case short.number =>
    obtain ⟨rfl, small⟩ := serves
    exact stores_short small stands holds
  case checked.number =>
    obtain ⟨rfl, passes⟩ := serves
    exact stores_checked passes stands holds
  case int.int =>
    cases serves
    exact stores_int stands holds
  case char.char =>
    cases serves
    exact stores_char stands holds
  case text.text =>
    cases serves
    exact stores_text stands holds fits
  case upperText.upperText =>
    cases serves
    exact stores_upperText stands holds fits
  case codepage.codepage => exact stores_codepage stands holds
  case devinfo.devinfo => exact stores_devinfo stands holds fits
  case mode.mode => exact stores_mode stands holds fits (room rfl)

end

end OsFree.Cfg
