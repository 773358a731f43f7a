import OsFree.Machine.Run

/-!
# Reading CONFIG.SYS line by line

There are two copies of the parser of CONFIG.SYS, one of the servers and one of
the boot loader.  Both collect the characters of a line in an array on the
stack, and pass it to `CfgParseLine` when they come to the end of the line.
-/

namespace OsFree.Cfg

section

open Machine

/-- The characters of a text. -/
def chars (text : String) : List UInt8 := text.toList.map fun c => c.toNat.toUInt8

/-- The size of the array for a line. -/
def maxLength : Nat := 1512

/-- The array that a line is read to. -/
structure LineArray where
  cells : List UInt8
  size : cells.length = maxLength

namespace LineArray

/-- Store a character. -/
def put (line : LineArray) (len : Nat) (c : UInt8) : LineArray where
  cells := line.cells.set len c
  size := by rw [List.length_set, line.size]

/-- A new array, full of zeros. -/
def blank : LineArray where
  cells := List.replicate maxLength 0
  size := List.length_replicate

end LineArray

/-- `'\r'` or `'\n'`. -/
def isLineEnd (c : UInt8) : Bool := c = 0x0d || c = 0x0a

/-- What `CfgParseLine` makes of a line, its length and its number: a code, the
next state of the parser and the array, which it works in; `none` if the process
exits. -/
abbrev ParseLine (σ : Type) := σ → LineArray → Nat → Nat → Run (Option (UInt32 × σ × LineArray))

/-- The variables of the loop. -/
structure Reader (σ : Type) where
  line : LineArray
  len : Nat
  lineno : Nat
  state : σ

/-- The copies of the parser. -/
inductive Copy where
  | server
  | bootLoader
  deriving DecidableEq

namespace Copy

/-- Only the servers stop at a line that is too long for the array. -/
def checksLength : Copy → Bool
  | server => true
  | bootLoader => false

/-- The `exit` of the boot loader does nothing. -/
def exits : Copy → Bool
  | server => true
  | bootLoader => false

end Copy

variable {σ : Type}

/-- Store a character, and parse the line if it is at its end. -/
def Reader.take (exits : Bool) (parseLine : ParseLine σ) (c : UInt8)
    (reader : Reader σ) : Run (Option (Reader σ)) :=
  if reader.len < maxLength then
    if isLineEnd c then do
      match ← parseLine reader.state (reader.line.put reader.len 0) reader.len reader.lineno with
      | none => pure none
      | some (code, state, line) =>
        if code = 0 ∧ exits = true then pure none
        else pure (some ⟨line, 0, reader.lineno + 1, state⟩)
    else
      pure (some { reader with
        line := reader.line.put reader.len c
        len := reader.len + 1 })
  else .error .writeOutside

/-- The loop over the characters.  Behind every character it skips one that is an
end of a line. -/
def Copy.readLoop (copy : Copy) (parseLine : ParseLine σ) : List UInt8 → Reader σ → Run (Option σ)
  | [], reader => pure (some reader.state)
  | [c], reader =>
    if copy.checksLength = true ∧ maxLength ≤ reader.len then
      pure (some reader.state)
    else do
      match ← reader.take copy.exits parseLine c with
      | none => pure none
      | some reader => pure (some reader.state)
  | c :: next :: addr, reader =>
    if copy.checksLength = true ∧ maxLength ≤ reader.len then
      pure (some reader.state)
    else do
      match ← reader.take copy.exits parseLine c with
      | none => pure none
      | some reader =>
        if isLineEnd next then copy.readLoop parseLine addr reader
        else copy.readLoop parseLine (next :: addr) reader

/-- Parse a text, with what is in the array before. -/
def Copy.parseConfig (copy : Copy) (parseLine : ParseLine σ) (addr : List UInt8)
    (line : LineArray) (state : σ) : Run (Option σ) :=
  copy.readLoop parseLine addr ⟨line, 0, 0, state⟩

/-- A text without the end of a line that it begins with. -/
def skipEnd : List UInt8 → List UInt8
  | [] => []
  | c :: addr => if isLineEnd c then addr else c :: addr

@[simp] theorem skipEnd_nil : skipEnd [] = [] := rfl

theorem skipEnd_cons_of_end {c : UInt8} {addr : List UInt8}
    (ends : isLineEnd c = true) : skipEnd (c :: addr) = addr :=
  if_pos ends

theorem skipEnd_cons_of_char {c : UInt8} {addr : List UInt8}
    (char : isLineEnd c = false) : skipEnd (c :: addr) = c :: addr :=
  if_neg (by simp [char])

variable {copy : Copy} {parseLine : ParseLine σ}

theorem readLoop_cons (c : UInt8) (addr : List UInt8) (reader : Reader σ) :
    copy.readLoop parseLine (c :: addr) reader =
      if copy.checksLength = true ∧ maxLength ≤ reader.len then
        pure (some reader.state)
      else (do
        match ← reader.take copy.exits parseLine c with
        | none => pure none
        | some reader => copy.readLoop parseLine (skipEnd addr) reader) := by
  cases addr with
  | nil => rfl
  | cons next addr =>
    rw [Copy.readLoop]
    cases ends : isLineEnd next with
    | true =>
      rw [skipEnd_cons_of_end ends]
      simp
    | false =>
      rw [skipEnd_cons_of_char ends]
      simp

theorem LineArray.take_put {line : LineArray} {len : Nat} (c : UInt8) (room : len < maxLength) :
    (line.put len c).cells.take (len + 1) = line.cells.take len ++ [c] := by
  have within : len < line.cells.length := by
    rw [line.size]
    exact room
  have below : (line.cells.set len c).take len = line.cells.take len :=
    List.take_set_of_le (Nat.le_refl len)
  rw [LineArray.put, List.take_add_one, below]
  simp [within]

end

/-!
## The options of CONFIG.SYS

The parser keeps the options in a structure with fields of four types, an array
for the code pages, and an array for the MODE statements.
-/

open Machine

/-- The fields of type `short int`. -/
inductive ShortField where
  | autofail | buffers | clockscale | closefiles | dllbasing | earlymeminit
  | fakeiss | i13pages | javanofpk | ldrstackopt | maxwait | ndwtimer
  | pauseonerror | priority | priorityDiskIo | protectonly | raskdata | reipl
  | sxfakehwfpu | truemode | vme | workplaceNative | workplacePrimaryCp
  | workplaceProcess | debugmodmgr | debugixfmgr | debugprcmgr | debugmemmgr
  deriving DecidableEq

/-- The fields of type `int`. -/
inductive IntField where
  | threads | tracebuf | virtualaddresslimit | wpObjhandle
  deriving DecidableEq

/-- The fields of type `char`. -/
inductive CharField where
  | dumpprocess | lastdrive | remoteInstallState | reservedriveletter
  | suppresspopups
  deriving DecidableEq

/-- The fields that point to a string. -/
inductive TextField where
  | country | devinfoKbd | devinfoVio | diskcache | ibmJavaOptions | iopl
  | iropt | libpath | memman | printmonbufsize | protshell | setboot
  | sourcepath | strace | swappath | sysdump | timeslice | trace | trapdump
  | traplog | configfile | bootdrive
  deriving DecidableEq

/-- `cfg_opts`.  The length of `mode` is `mode_id`. -/
@[ext]
structure Options where
  shorts : ShortField → Int16
  ints : IntField → Int32
  chars : CharField → UInt8
  texts : TextField → Option (List UInt8)
  codepage : List UInt8
  mode : List (List UInt8)

namespace Options

/-- Store a `short int`. -/
def setShort (options : Options) (field : ShortField) (value : Int16) : Options :=
  { options with
    shorts := fun other => if other = field then value else options.shorts other }

/-- Store an `int`. -/
def setInt (options : Options) (field : IntField) (value : Int32) : Options :=
  { options with
    ints := fun other => if other = field then value else options.ints other }

/-- Store a character. -/
def setChar (options : Options) (field : CharField) (value : UInt8) : Options :=
  { options with
    chars := fun other => if other = field then value else options.chars other }

/-- Store a pointer to a new string. -/
def setText (options : Options) (field : TextField) (value : List UInt8) :
    Options :=
  { options with
    texts := fun other =>
      if other = field then some value else options.texts other }

/-- The options before `CONFIG.SYS` is parsed. -/
def initial : Options where
  shorts
    | .dllbasing | .ldrstackopt | .pauseonerror | .priority | .priorityDiskIo => 1
    | .maxwait => 3
    | _ => 0
  ints _ := 0
  chars _ := 0
  texts
    | .iopl => some (Cfg.chars "YES")
    | .configfile => some (Cfg.chars "config.sys")
    | .bootdrive => some (Cfg.chars "C:")
    | _ => none
  codepage := List.replicate 7 0
  mode := []

end Options

/-- The options that the parser knows. -/
inductive Opt where
  | autofail | buffers | clockscale | closefiles | codepage | country | devinfo
  | diskcache | dllbasing | dumpprocess | earlymeminit | fakeiss | i13pages
  | ibmJavaOptions | iopl | iropt | javanofpk | lastdrive | ldrstackopt
  | libpath | maxwait | memman | mode | ndwtimer | pauseonerror
  | printmonbufsize | priority | priorityDiskIo | protectonly | protshell
  | raskdata | reipl | remoteInstallState | reservedriveletter | setboot
  | sourcepath | strace | suppresspopups | swappath | sxfakehwfpu | sysdump
  | threads | timeslice | trace | tracebuf | trapdump | traplog | truemode
  | virtualaddresslimit | vme | workplaceNative | workplacePrimaryCp
  | workplaceProcess | wpObjhandle | debugmodmgr | debugixfmgr | debugprcmgr
  deriving DecidableEq

namespace Opt

/-- `options_list`. -/
def optionsList : List Opt := [.autofail, .buffers, .clockscale, .closefiles, .codepage, .country,
   .devinfo, .diskcache, .dllbasing, .dumpprocess, .earlymeminit, .fakeiss,
   .i13pages, .ibmJavaOptions, .iopl, .iropt, .javanofpk, .lastdrive,
   .ldrstackopt, .libpath, .maxwait, .memman, .mode, .ndwtimer, .pauseonerror,
   .printmonbufsize, .priority, .priorityDiskIo, .protectonly, .protshell,
   .raskdata, .reipl, .remoteInstallState, .reservedriveletter, .setboot,
   .sourcepath, .strace, .suppresspopups, .swappath, .sxfakehwfpu, .sysdump,
   .threads, .timeslice, .trace, .tracebuf, .trapdump, .traplog, .truemode,
   .virtualaddresslimit, .vme, .workplaceNative, .workplacePrimaryCp,
   .workplaceProcess, .wpObjhandle, .debugmodmgr, .debugixfmgr, .debugprcmgr]

/-- The name of an option. -/
def name : Opt → List UInt8
  | autofail => chars "AUTOFAIL"
  | buffers => chars "BUFFERS"
  | clockscale => chars "CLOCKSCALE"
  | closefiles => chars "CLOSEFILES"
  | codepage => chars "CODEPAGE"
  | country => chars "COUNTRY"
  | devinfo => chars "DEVINFO"
  | diskcache => chars "DISKCACHE"
  | dllbasing => chars "DLLBASING"
  | dumpprocess => chars "DUMPPROCESS"
  | earlymeminit => chars "EARLYMEMINIT"
  | fakeiss => chars "FAKEISS"
  | i13pages => chars "I13PAGES"
  | ibmJavaOptions => chars "IBM_JAVA_OPTIONS"
  | iopl => chars "IOPL"
  | iropt => chars "IROPT"
  | javanofpk => chars "JAVANOFPK"
  | lastdrive => chars "LASTDRIVE"
  | ldrstackopt => chars "LDRSTACKOPT"
  | libpath => chars "LIBPATH"
  | maxwait => chars "MAXWAIT"
  | memman => chars "MEMMAN"
  | mode => chars "MODE"
  | ndwtimer => chars "NDWTIMER"
  | pauseonerror => chars "PAUSEONERROR"
  | printmonbufsize => chars "PRINTMONBUFSIZE"
  | priority => chars "PRIORITY"
  | priorityDiskIo => chars "PRIORITY_DISK_IO"
  | protectonly => chars "PROTECTONLY"
  | protshell => chars "PROTSHELL"
  | raskdata => chars "RASKDATA"
  | reipl => chars "REIPL"
  | remoteInstallState => chars "REMOTE_INSTALL_STATE"
  | reservedriveletter => chars "RESERVEDRIVELETTER"
  | setboot => chars "SETBOOT"
  | sourcepath => chars "SOURCEPATH"
  | strace => chars "STRACE"
  | suppresspopups => chars "SUPPRESSPOPUPS"
  | swappath => chars "SWAPPATH"
  | sxfakehwfpu => chars "SXFAKEHWFPU"
  | sysdump => chars "SYSDUMP"
  | threads => chars "THREADS"
  | timeslice => chars "TIMESLICE"
  | trace => chars "TRACE"
  | tracebuf => chars "TRACEBUF"
  | trapdump => chars "TRAPDUMP"
  | traplog => chars "TRAPLOG"
  | truemode => chars "TRUEMODE"
  | virtualaddresslimit => chars "VIRTUALADDRESSLIMIT"
  | vme => chars "VME"
  | workplaceNative => chars "WORKPLACE_NATIVE"
  | workplacePrimaryCp => chars "WORKPLACE_PRIMARY_CP"
  | workplaceProcess => chars "WORKPLACE_PROCESS"
  | wpObjhandle => chars "WP_OBJHANDLE"
  | debugmodmgr => chars "DEBUGMODMGR"
  | debugixfmgr => chars "DEBUGIXFMGR"
  | debugprcmgr => chars "DEBUGPRCMGR"

end Opt

/-- The statements that the parser collects. -/
inductive Statement where
  | call | runserver | run | set | ixf | psd | basedev | device | ifs
  deriving DecidableEq

/-- The name of a statement. -/
def Statement.name : Statement → List UInt8
  | call => chars "CALL"
  | runserver => chars "RUNSERVER"
  | run => chars "RUN"
  | set => chars "SET"
  | ixf => chars "IXF"
  | psd => chars "PSD"
  | basedev => chars "BASEDEV"
  | device => chars "DEVICE"
  | ifs => chars "IFS"

namespace Copy

/-- The statements of `type`. -/
def type : Copy → List Statement
  | server => [.call, .runserver, .run, .set, .ixf]
  | bootLoader => [.psd, .basedev, .device, .ifs, .call, .run, .set, .ixf]

/-- The sizes of the arrays for the statements. -/
def capacity : Copy → Statement → Nat
  | server, .set => 150
  | server, _ => 30
  | bootLoader, .psd => 10
  | bootLoader, .basedev | bootLoader, .device | bootLoader, .set => 150
  | bootLoader, _ => 30

end Copy

/-- `struct name`. -/
structure Entry where
  line : Nat
  string : List UInt8
  deriving DecidableEq

/-- What the parser has read: the options, and the entries of the arrays for the
statements, whose number is `ip`. -/
@[ext]
structure Config where
  options : Options
  entries : Statement → List Entry

/-- What the parser begins with. -/
def Config.initial : Config where
  options := .initial
  entries _ := []

/-- Another entry of a statement. -/
def Config.add (config : Config) (statement : Statement) (entry : Entry) :
    Config :=
  { config with
    entries := fun other =>
      if other = statement then config.entries statement ++ [entry]
      else config.entries other }

/-!
## Parsing a line of CONFIG.SYS

`CfgParseLine` looks for the name of a statement in front of the line, and then
for that of an option.  It moves what follows the name to the front of the array,
and stores it in memory of its own or converts it.
-/

/-- The capital letter for a small one. -/
def toupper (c : UInt8) : UInt8 :=
  if 0x61 ≤ c ∧ c ≤ 0x7a then c - 0x20 else c

/-- `=`. -/
def equals : UInt8 := 0x3d

namespace LineArray

/-- The string in the array. -/
def text (line : LineArray) : List UInt8 := line.cells.takeWhile (· ≠ 0)

/-- The array begins with a name, in small letters or capitals. -/
def startsWith (line : LineArray) (name : List UInt8) : Bool :=
  name.isPrefixOf (line.cells.map toupper)

/-- Move the string at a place to the front.  It must end in the array. -/
def shift (line : LineArray) (count : Nat) : Run LineArray :=
  let text := (line.cells.drop count).takeWhile (· ≠ 0)
  if ends : text.length < (line.cells.drop count).length then
    .ok {
      cells := text ++ 0 :: line.cells.drop (text.length + 1)
      size := by
        have size := line.size
        simp only [List.length_append, List.length_cons, List.length_drop]
          at ends ⊢
        omega }
  else .error .readOutside

/-- Convert the string to capitals where it is. -/
def strupr (line : LineArray) : LineArray where
  cells := line.text.map toupper ++ line.cells.drop line.text.length
  size := by
    have le : line.text.length ≤ line.cells.length := (List.takeWhile_sublist _).length_le
    rw [List.length_append, List.length_map, List.length_drop, Nat.add_sub_cancel' le, line.size]

end LineArray

/-- Copy a string to a new block for a number of characters and the zero. -/
def copyText (text : List UInt8) (len : Int) : Run (List UInt8) :=
  if (text.length : Int) ≤ len then .ok text else .error .writeOutside

/-- What is done with the value of an option. -/
inductive Handler where
  /-- Look for words in front of the value, in small letters or capitals.  Where
  nothing is stored for another value there is a warning. -/
  | words (field : ShortField) (tests : List (String × Int16)) (otherwise : Option Int16)
  /-- Compare the first character. -/
  | digit (field : ShortField) (c : UInt8) (value otherwise : Int16)
  /-- Convert the value, and cut it off to 16 bits. -/
  | short (field : ShortField)
  /-- Convert the value, which must be one of some numbers. -/
  | checked (field : ShortField) (legal : Int32 → Bool)
  | int (field : IntField)
  | char (field : CharField)
  | text (field : TextField)
  | upperText (field : TextField)
  | codepage
  | devinfo
  | mode

variable (copy : Copy) (convert : List UInt8 → Run Int32)

/-- Handle a value, which is in front of the array; `none` if the process
exits. -/
def Handler.run (options : Options) (line : LineArray) (len : Int) :
    Handler → Run (Option (Options × LineArray))
  | words field tests otherwise =>
    let found := tests.find? fun test => line.startsWith (chars test.1)
    match (found.map Prod.snd).or otherwise with
    | some value => .ok (some (options.setShort field value, line))
    | none => .ok (some (options, line))
  | digit field c value otherwise =>
    let value := if line.cells.head? = some c then value else otherwise
    .ok (some (options.setShort field value, line))
  | short field => do
      let helper ← convert line.text
      return some (options.setShort field helper.toInt16, line)
  | checked field legal => do
      let helper ← convert line.text
      if legal helper then
        return some (options.setShort field helper.toInt16, line)
      else if copy.exits then return none
      else return some (options, line)
  | int field => do
      let helper ← convert line.text
      return some (options.setInt field helper, line)
  | char field =>
    .ok (some (options.setChar field (line.cells.headD 0), line))
  | text field => do
      let pc ← copyText line.text len
      return some (options.setText field pc, line)
  | upperText field => do
      let pc ← copyText line.strupr.text len
      return some (options.setText field pc, line.strupr)
  | codepage =>
    .ok (some ({ options with codepage := line.cells.take 7 }, line))
  | devinfo => do
      let pc ← copyText line.strupr.text len
      if pc.take 3 = chars "KBD" then
        return some (options.setText .devinfoKbd pc, line.strupr)
      else if pc.take 3 = chars "SCR" then
        return some (options.setText .devinfoVio pc, line.strupr)
      else return some (options, line.strupr)
  | mode =>
    if options.mode.length < 20 then do
      let pc ← copyText line.text len
      return some ({ options with mode := options.mode ++ [pc] }, line)
    else .ok (some (options, line))

/-- The handler of an option. -/
def Opt.handler : Opt → Handler
  | autofail => .words .autofail [("NO", 0), ("YES", 1)] none
  | buffers => .short .buffers
  | clockscale => .checked .clockscale fun helper =>
    helper = 1 || helper = 2 || helper = 4
  | closefiles => .words .closefiles [("TRUE", 1)] (some 0)
  | codepage => .codepage
  | country => .upperText .country
  | devinfo => .devinfo
  | diskcache => .upperText .diskcache
  | dllbasing => .words .dllbasing [("ON", 1), ("OFF", 0)] none
  | dumpprocess => .char .dumpprocess
  | earlymeminit => .words .earlymeminit [("TRUE", 1)] (some 0)
  | fakeiss => .words .fakeiss [("YES", 1)] (some 0)
  | i13pages => .digit .i13pages 0x31 1 0
  | ibmJavaOptions => .text .ibmJavaOptions
  | iopl => .text .iopl
  | iropt => .text .iropt
  | javanofpk => .words .javanofpk [("YES", 1)] (some 0)
  | lastdrive => .char .lastdrive
  | ldrstackopt => .words .ldrstackopt [("TRUE", 1), ("FALSE", 0)] none
  | libpath => .text .libpath
  | maxwait => .checked .maxwait fun helper => 1 ≤ helper && helper ≤ 255
  | memman => .text .memman
  | mode => .mode
  | ndwtimer => .words .ndwtimer [("OFF", 0)] (some 1)
  | pauseonerror => .words .pauseonerror [("NO", 0), ("YES", 1)] none
  | printmonbufsize => .text .printmonbufsize
  | priority => .words .priority [("DYNAMIC", 1), ("ABSOLUTE", 0)] none
  | priorityDiskIo => .words .priorityDiskIo [("NO", 0), ("YES", 1)] none
  | protectonly => .words .protectonly [("NO", 0), ("YES", 1)] none
  | protshell => .text .protshell
  | raskdata => .words .raskdata [("OTE", 1)] (some 0)
  | reipl => .words .reipl [("ON", 1), ("OFF", 0)] none
  | remoteInstallState => .char .remoteInstallState
  | reservedriveletter => .char .reservedriveletter
  | setboot => .text .setboot
  | sourcepath => .text .sourcepath
  | strace => .text .strace
  | suppresspopups => .char .suppresspopups
  | swappath => .text .swappath
  | sxfakehwfpu => .digit .sxfakehwfpu 0x31 1 0
  | sysdump => .text .sysdump
  | threads => .int .threads
  | timeslice => .text .timeslice
  | trace => .text .trace
  | tracebuf => .int .tracebuf
  | trapdump => .text .trapdump
  | traplog => .text .traplog
  | truemode => .digit .truemode 0x31 1 0
  | virtualaddresslimit => .int .virtualaddresslimit
  | vme => .words .vme [("NO", 0)] (some 1)
  | workplaceNative => .digit .workplaceNative 0x30 0 1
  | workplacePrimaryCp => .digit .workplacePrimaryCp 0x31 1 0
  | workplaceProcess => .words .workplaceProcess [("NO", 0)] (some 1)
  | wpObjhandle => .int .wpObjhandle
  | debugmodmgr => .words .debugmodmgr [("NO", 0)] (some 1)
  | debugixfmgr => .words .debugixfmgr [("NO", 0)] (some 1)
  | debugprcmgr => .words .debugprcmgr [("NO", 0)] (some 1)

/-- The first statement whose name the line begins with. -/
def Copy.findStatement (line : LineArray) : Option Statement :=
  copy.type.find? fun statement => line.startsWith statement.name

/-- The first option whose name the line begins with, with `=` behind it. -/
def findOption (line : LineArray) : Option Opt := Opt.optionsList.find? fun option =>
    line.startsWith option.name && toupper (line.cells.getD option.name.length 0) = equals

/-- Store what follows the name of a statement and one more character. -/
def storeStatement (config : Config) (line : LineArray) (len lineno : Nat)
    (statement : Statement) : Run (Option (UInt32 × Config × LineArray)) := do
  let count := statement.name.length + 1
  let line ← line.shift count
  let pc ← copyText line.text (len - count)
  if (config.entries statement).length < copy.capacity statement then
    return some (1, config.add statement ⟨lineno, pc⟩, line)
  else .error .writeOutside

/-- Store the value of an option. -/
def storeOption (config : Config) (line : LineArray) (len : Nat) (option : Opt) :
    Run (Option (UInt32 × Config × LineArray)) := do
  let count := option.name.length + 1
  let line ← line.shift count
  match ← option.handler.run copy convert config.options line (len - count) with
  | none => return none
  | some (options, line) => return some (1, { config with options }, line)

/-- Parse a line. -/
def parseLine : ParseLine Config := fun config line len lineno =>
  match copy.findStatement line with
  | some statement => storeStatement copy config line len lineno statement
  | none =>
    match findOption line with
    | some option => storeOption copy convert config line len option
    | none => .ok (some (2, config, line))

/-- The number that is written with digits. -/
def decimal (digits : List UInt8) : Nat :=
  digits.foldl (fun value c => 10 * value + (c.toNat - 0x30)) 0

/-- `isdigit`. -/
def isdigit (c : UInt8) : Bool := 0x30 ≤ c && c ≤ 0x39

/-- `isspace`. -/
def isspace (c : UInt8) : Bool := c = 0x20 || (0x09 ≤ c && c ≤ 0x0d)

/-- What follows a sign. -/
def unsigned (text : List UInt8) : List UInt8 :=
  if text.head? = some 0x2d ∨ text.head? = some 0x2b then text.tail else text

/-- `atoi` of the library.  A value that is too large for an `int` has no defined
result. -/
def atoi (text : List UInt8) : Run Int32 :=
  let text := text.dropWhile isspace
  let digits := (unsigned text).takeWhile isdigit
  let value : Int :=
    if text.head? = some 0x2d then -decimal digits else decimal digits
  if -2 ^ 31 ≤ value ∧ value < 2 ^ 31 then .ok (Int32.ofInt value)
  else .error .overflow

end OsFree.Cfg
