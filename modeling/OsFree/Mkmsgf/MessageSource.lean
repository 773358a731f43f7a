import OsFree.Doscalls.InsertMessage

/-!
# The message file compiler

`Compile` reads the lines of a message source, keeps the messages, and writes a
message file with a header, an index, country information and the messages.
-/

namespace OsFree.Mkmsgf

open Machine

/-- #10#13, which the program takes for the end of a line. -/
def LineEnding : List UInt8 := [10, 13]

def MSGFileHeaderMagic : List UInt8 := [255, 77, 75, 77, 83, 71, 70, 0]

/-- The size of `TMsgFileHeader`. -/
def headerSize : Nat := 31

/-- The size of `TMSGFileCountryInfo`. -/
def countryInfoSize : Nat := 302

/-- "Let's play the Yuri's game" -/
def game : List UInt8 :=
  [76, 101, 116, 39, 115, 32, 112, 108, 97, 121, 32, 116, 104, 101, 32, 89, 117,
    114, 105, 39, 115, 32, 103, 97, 109, 101]

/-- ';' -/
def comment : UInt8 := 59

/-- The next line, which is empty at the end of the file. -/
def ReadLn : List (List UInt8) → List UInt8 × List (List UInt8)
  | [] => ([], [])
  | line :: rest => (line, rest)

/-- The line has nothing but blanks and control characters. -/
def IsBlank (line : List UInt8) : Prop := ∀ byte ∈ line, byte ≤ 32

instance (line : List UInt8) : Decidable (IsBlank line) :=
  List.decidableBAll (fun byte => byte ≤ 32) line

/-- Skip comments and blank lines.  At the end of the file this goes on. -/
def skipComments : Nat → List (List UInt8) → Option (List UInt8 × List (List UInt8))
  | 0, _ => none
  | fuel + 1, lines =>
    let (S, lines) := ReadLn lines
    let S := if IsBlank S then [comment] else S
    if S.head? = some comment then skipComments fuel lines
    else some (S, lines)

/-- The line starts like the header of a message. -/
def IsHeader (identifier S : List UInt8) : Prop := 7 < S.length ∧ S.take 3 = identifier

instance (identifier S : List UInt8) : Decidable (IsHeader identifier S) :=
  inferInstanceAs (Decidable (_ ∧ _))

/-- A message with a line that follows its header. -/
def addLine (Message S : List UInt8) : List UInt8 :=
  if S = [] then Message ++ LineEnding
  else if S.head? = some comment then Message
  else Message ++ S ++ LineEnding

/-- Read a message up to the next header, or to the end of the file.  Gives the
message, the last line read and the lines behind it. -/
def readMessage (identifier : List UInt8) : List (List UInt8) → List UInt8 → List UInt8 →
      List UInt8 × List UInt8 × List (List UInt8)
  | [], Message, S => (Message, S, [])
  | line :: rest, Message, _ =>
    if IsHeader identifier line then (Message, line, rest)
    else if rest = [] then (addLine Message line, line, [])
    else readMessage identifier rest (addLine Message line) line

/-- The message without its first "%0", if there is one. -/
def deleteZero : List UInt8 → Option (List UInt8)
  | 37 :: 48 :: rest => some rest
  | byte :: rest => (byte :: ·) <$> deleteZero rest
  | [] => none

/-- The message that is kept.  With a "%0" it has no line end, and it ends at
the first zero. -/
def keptMessage (Message : List UInt8) : List UInt8 :=
  let Message :=
    match deleteZero Message with
    | some Message => Message.take (Message.length - LineEnding.length)
    | none => Message
  Message.takeWhile (· ≠ 0)

/-- Where the reader of the source is: the lines that are left, the line read
last, and what was read so far. -/
structure Reader where
  lines : List (List UInt8)
  S : List UInt8
  messages : List (List UInt8)
  FirstMessageNumber : UInt16
  deriving DecidableEq

/-- A pass of the loop over the source, if the number of a message is one. -/
def pass (StrToInt : List UInt8 → Option UInt16) (identifier : List UInt8)
    (reader : Reader) : Option Reader :=
  let (S, lines) :=
    if reader.S = game then ReadLn reader.lines else (reader.S, reader.lines)
  let reader := { reader with S, lines }
  if S = [] ∨ S.head? = some comment ∨ ¬ IsHeader identifier S then
    -- The line is left as it is, and met again by the next pass.
    some reader
  else do
    let Number ← StrToInt ((S.drop 3).take 4)
    let first :=
      if reader.messages = [] then Number else reader.FirstMessageNumber
    let S := S.drop 7
    let S := S.take 1 ++ S.drop 3
    let (Message, S, lines) := readMessage identifier lines (S ++ LineEnding) S
    return {
      lines
      S
      messages := reader.messages ++ [keptMessage Message]
      FirstMessageNumber := first }

/-- The loop over the source, which ends with the last line or with an
exception. -/
def readLoop (StrToInt : List UInt8 → Option UInt16)
    (identifier : List UInt8) : Nat → Reader → Option (Option Reader)
  | 0, _ => none
  | fuel + 1, reader =>
    if reader.lines = [] then some (some reader)
    else
      match pass StrToInt identifier reader with
      | none => some none
      | some reader => readLoop StrToInt identifier fuel reader

/-- An entry is stored in the index. -/
def setEntry (Idx : List UInt32) (Number : UInt16) (value : UInt32) :
    Run (List UInt32) :=
  if Number.toNat < Idx.length then .ok (Idx.set Number.toNat value)
  else .error .writeOutside

/-- An entry is read from the index. -/
def getEntry (Idx : List UInt32) (Number : UInt16) : Run UInt32 :=
  match Idx[Number.toNat]? with
  | some value => .ok value
  | none => .error .readOutside

/-- Each message ends where the next one starts. -/
def indexLoop : List (List UInt8) → UInt16 → List UInt32 → Run (List UInt32)
  | [], _, Idx => .ok Idx
  | Message :: rest, Number, Idx => do
      let start ← getEntry Idx (Number - 1)
      let Idx ← setEntry Idx Number (start + UInt32.ofNat Message.length)
      indexLoop rest (Number + 1) Idx

/-- What is in memory and in fields that nothing was stored to. -/
structure Garbage where
  FirstMessageNumber : UInt16
  index : UInt32
  countryInfo : Vector UInt8 291

/-- The message file of the messages that were read. -/
def writeFile (garbage : Garbage) (identifier : List UInt8) (reader : Reader) :
    Run (List UInt8) := do
  let MsgCount := UInt16.ofNat reader.messages.length
  let header := MSGFileHeaderMagic ++ identifier ++ wordBytes MsgCount ++
    wordBytes reader.FirstMessageNumber ++ [0] ++ wordBytes 2 ++
    wordBytes (UInt16.ofNat headerSize) ++
    wordBytes (UInt16.ofNat (headerSize + MsgCount.toNat * 4)) ++ longBytes 0 ++
    List.replicate 5 0
  let CountryInfo := [1] ++ wordBytes 0 ++ wordBytes 7 ++ wordBytes 1 ++
    wordBytes 1 ++ wordBytes 866 ++ garbage.countryInfo.toList
  let Idx := List.replicate MsgCount.toNat garbage.index
  let Idx ← setEntry Idx 0 (UInt32.ofNat (headerSize + countryInfoSize + MsgCount.toNat * 4))
  let Idx ← indexLoop reader.messages 1 Idx
  return header ++ Idx.flatMap longBytes ++ CountryInfo ++ reader.messages.flatten

/-- The identifier is the first three characters, of which no more than the
terminator of the line may be missing. -/
def readIdentifier (S : List UInt8) : Run (List UInt8) :=
  if S.length < 2 then .error .readOutside
  else .ok ((S ++ [0]).take 3)

/-- Compile the lines of a message source.  It may not come to an end, or end
with an exception, in which case it gives no file. -/
def Compile (StrToInt : List UInt8 → Option UInt16) (garbage : Garbage)
    (fuel : Nat) (lines : List (List UInt8)) :
    Option (Run (Option (List UInt8))) :=
  match skipComments fuel lines with
  | none => none
  | some (S, lines) =>
    match readIdentifier S with
    | .error fault => some (.error fault)
    | .ok identifier =>
      match readLoop StrToInt identifier fuel ⟨lines, game, [], garbage.FirstMessageNumber⟩ with
      | none => none
      | some none => some (.ok none)
      | some (some reader) =>
        some (some <$> writeFile garbage identifier reader)

/-!
## Message sources are compiled

The file made of a message source should have each message once, and each
message should be got from it by its number.  The index has an entry for each
message, but one more is stored to it.
-/

/-- A message of a source: the letter for its type, the text behind the header,
and the lines that follow. -/
structure SourceMessage where
  letter : UInt8
  first : List UInt8
  more : List (List UInt8)

/-- The text of a message, with a line end behind each of its lines. -/
def SourceMessage.text (message : SourceMessage) : List UInt8 :=
  (message.first :: message.more).flatMap (· ++ [13, 10])

/-- The four digits of a number. -/
def fourDigits (number : Nat) : List UInt8 :=
  [number / 1000 % 10, number / 100 % 10, number / 10 % 10, number % 10].map
    fun digit => UInt8.ofNat (48 + digit)

/-- A message source: comments, an identifier of three letters, and messages
numbered from a first number on, of which each may have comments behind it. -/
structure MessageSource where
  comments : List (List UInt8)
  identifier : List UInt8
  first : Nat
  messages : List (SourceMessage × List (List UInt8))
  comments_start : ∀ line ∈ comments, line.head? = some comment
  identifier_length : identifier.length = 3
  nonempty : messages ≠ []
  number_lt : first + messages.length ≤ 10000

namespace MessageSource

variable (source : MessageSource)

/-- The header line of a message, "SYS0001E: text", and the lines that follow. -/
def messageLines (k : Nat) (message : SourceMessage × List (List UInt8)) :
    List (List UInt8) :=
  (source.identifier ++ fourDigits (source.first + k) ++
      [message.1.letter, 58, 32] ++ message.1.first) ::
    message.1.more ++ message.2

/-- The lines of a source. -/
def lines : List (List UInt8) := source.comments ++ [source.identifier] ++
    (source.messages.mapIdx source.messageLines).flatten

/-- The bytes of a message in a file. -/
def fileMessages : List (List UInt8) :=
  source.messages.map fun message => message.1.letter :: message.1.text

/-- The number of places where some bytes are in a file. -/
def occurrences (bytes file : List UInt8) : Nat :=
  file.tails.countP fun tail => bytes.isPrefixOf tail

/-- Each message is got by its number, without strings to insert, in any buffer
that has room for it. -/
def Gets (file : List UInt8) : Prop := ∀ k message, source.messages[k]? = some message →
    ∀ (buffer : List UInt8) (logged : Int),
      message.1.text.length < buffer.length → buffer.length < 4294967296 →
      ∃ got, Doscalls.DosTrueGetMessage
          { msgSeg := none
            pTable := none
            cTable := 0
            pBuf := some buffer
            cbBuf := UInt32.ofNat buffer.length
            msgnumber := UInt32.ofNat (source.first + k) }
          (some file) logged = .ok got ∧
        got.inserted.rc = Doscalls.NO_ERROR ∧
        Contains got.inserted.pBuf 0 message.1.text

/-- The compiler comes to an end without leaving the index, and gives a file
that has each message once and from which each can be got. -/
def Meets (StrToInt : List UInt8 → Option UInt16) (garbage : Garbage) : Prop :=
  ∃ fuel file, Compile StrToInt garbage fuel source.lines = some (.ok (some file)) ∧
    (∀ message ∈ source.fileMessages,
      occurrences message file = source.fileMessages.count message) ∧
    source.Gets file

end MessageSource

section

variable {messages : List (List UInt8)} {Number : UInt16} {Idx : List UInt32}

theorem indexLoop_of_short (positive : 0 < Number.toNat) (inside : Number.toNat ≤ Idx.length)
    (short : Idx.length < Number.toNat + messages.length)
    (small : Idx.length < 65536) :
    indexLoop messages Number Idx = .error .writeOutside := by
  induction messages generalizing Number Idx with
  | nil => simp only [List.length_nil] at short; omega
  | cons Message rest ih =>
    have before : (Number - 1).toNat = Number.toNat - 1 := by
      have one : (1 : UInt16).toNat = 1 := rfl
      rw [UInt16.toNat_sub_of_le, one]
      exact UInt16.le_iff_toNat_le.mpr positive
    have found : Idx[(Number - 1).toNat]? =
        some (Idx.get ⟨Number.toNat - 1, by omega⟩) := by
      rw [before]
      exact List.getElem?_eq_getElem _
    unfold indexLoop getEntry setEntry
    rw [found]
    by_cases within : Number.toNat < Idx.length
    · have next : (Number + 1).toNat = Number.toNat + 1 := by
        have one : (1 : UInt16).toNat = 1 := rfl
        rw [UInt16.toNat_add, one]
        omega
      simp only [if_pos within, bind_ok]
      apply ih
      · omega
      · rw [next, List.length_set]
        exact within
      · rw [next, List.length_set]
        rw [List.length_cons] at short
        omega
      · rw [List.length_set]
        exact small
    · simp only [if_neg within, bind_ok, bind_error]

/-- However many messages there are, one entry more is stored than the index
has. -/
theorem writeFile_eq (garbage : Garbage) (identifier : List UInt8) (reader : Reader) :
    writeFile garbage identifier reader = .error .writeOutside := by
  have short : (UInt16.ofNat reader.messages.length).toNat ≤
      reader.messages.length := by
    exact Nat.mod_le ..
  have small := (UInt16.ofNat reader.messages.length).toNat_lt
  unfold writeFile
  by_cases none : (UInt16.ofNat reader.messages.length).toNat = 0
  · simp only [none, List.replicate_zero]
    rfl
  · have stored : ∀ value, setEntry (List.replicate (UInt16.ofNat reader.messages.length).toNat
          garbage.index) 0 value = .ok (List.set (List.replicate
            (UInt16.ofNat reader.messages.length).toNat garbage.index) 0
            value) := by
      intro value
      unfold setEntry
      rw [List.length_replicate]
      exact if_pos (Nat.pos_of_ne_zero none)
    simp only [stored, bind_ok]
    rw [indexLoop_of_short]
    · rfl
    · exact Nat.one_pos
    · rw [List.length_set, List.length_replicate]
      exact Nat.one_le_iff_ne_zero.mpr none
    · rw [List.length_set, List.length_replicate]
      change _ < 1 + _
      omega
    · rw [List.length_set, List.length_replicate]
      exact small

end

theorem compile_gives_no_file (StrToInt : List UInt8 → Option UInt16)
    (garbage : Garbage) (fuel : Nat) (lines : List (List UInt8))
    (file : List UInt8) :
    Compile StrToInt garbage fuel lines ≠ some (.ok (some file)) := by
  unfold Compile
  intro compiled
  split at compiled
  · cases compiled
  · split at compiled
    · cases compiled
    · split at compiled
      · cases compiled
      · cases compiled
      · rw [writeFile_eq] at compiled
        cases compiled

/-- No message source is compiled as it should be. -/
theorem source_not_meets (source : MessageSource)
    (StrToInt : List UInt8 → Option UInt16) (garbage : Garbage) :
    ¬ source.Meets StrToInt garbage := by
  rintro ⟨fuel, file, compiled, -⟩
  exact compile_gives_no_file StrToInt garbage fuel source.lines file compiled

theorem no_comments : ∀ line ∈ ([] : List (List UInt8)),
    line.head? = some comment := by simp

/-- "SYS", "SYS0001E: a" and "b". -/
def oneMessage : MessageSource where
  comments := []
  identifier := [83, 89, 83]
  first := 1
  messages := [(⟨69, [97], [[98]]⟩, [])]
  comments_start := no_comments
  identifier_length := rfl
  nonempty := List.cons_ne_nil _ _
  number_lt := Nat.le_of_ble_eq_true rfl

def zeroGarbage : Garbage where
  FirstMessageNumber := 0
  index := 0
  countryInfo := Vector.replicate 291 0

/-- The message is read, and the index is left. -/
theorem index_left : readLoop (fun _ => some 1) [83, 89, 83] 2
        ⟨oneMessage.lines.tail, game, [], 0⟩ =
      some (some ⟨[], [98], [[69, 97, 10, 13, 98, 10, 13]], 1⟩) ∧
    Compile (fun _ => some 1) zeroGarbage 2 oneMessage.lines = some (.error .writeOutside) ∧
    ¬ oneMessage.Meets (fun _ => some 1) zeroGarbage := by
  have ended : Compile (fun _ => some 1) zeroGarbage 2 oneMessage.lines =
      some (.error .writeOutside) := by decide
  refine ⟨by decide, ended, ?_⟩
  rintro ⟨fuel, file, compiled, -⟩
  exact compile_gives_no_file _ _ _ _ _ compiled

end OsFree.Mkmsgf
