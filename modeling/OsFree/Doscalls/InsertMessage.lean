import OsFree.Machine.CString

/-!
# Inserting strings into a message

`DosInsertMessage` copies a message to a buffer and puts strings of a table in
the places of `%1` to `%9`.
-/

namespace OsFree.Doscalls

open Machine

def NO_ERROR : UInt32 := 0
def ERROR_INVALID_PARAMETER : UInt32 := 87
def ERROR_MR_MSG_TOO_LONG : UInt32 := 316
def ERROR_MR_INV_IVCOUNT : UInt32 := 320
def ERROR_MR_UN_PERFORM : UInt32 := 321

/-- '%' -/
def percent : UInt8 := 37

/-- '0' -/
def zeroDigit : UInt8 := 48

/-- The digit stands for an insert string. -/
def IsInsertDigit (digit : UInt8) : Prop := 49 ≤ digit ∧ digit ≤ 57

instance (digit : UInt8) : Decidable (IsInsertDigit digit) := inferInstanceAs (Decidable (_ ∧ _))

/-- The arguments.  A string of the table is given by its bytes before the
terminator, and the message and the buffer are all that may be accessed. -/
structure InsertArgs where
  pTable : Option (List (List UInt8))
  cTable : UInt32
  pszMsg : Option (List UInt8)
  cbMsg : UInt32
  pBuf : Option (List UInt8)
  cbBuf : UInt32

/-- The result, the buffer, and the length if one is stored. -/
structure Inserted where
  rc : UInt32
  pBuf : List UInt8
  pcbMsg : Option UInt32
  deriving DecidableEq

/-- The length of a string up to a limit. -/
def strnlen (string : List UInt8) (limit : UInt32) : Nat := min string.length limit.toNat

/-- Copy a string to a buffer of some size, with a terminator.  The string is
read to its end in any case. -/
def strlcpy (dst src : List UInt8) (siz : UInt32) : Run (List UInt8) := do
  let length ← strlen src
  if siz = 0 then
    return dst
  else
    writeBytes dst 0 (src.take (min length (siz.toNat - 1)) ++ [0])

/-- Bytes are written to the buffer, and counted in an `int`. -/
def putPart (pBuf : List UInt8) (dstlen : Nat) (bytes : List UInt8) :
    Run (List UInt8 × Nat) := do
  let pBuf ← writeBytes pBuf dstlen bytes
  if dstlen + bytes.length < 2147483648 then
    return (pBuf, dstlen + bytes.length)
  else
    .error .overflow

/-- The message is ended with a zero. -/
def finish (placed : List UInt8 × Nat) : Run Inserted := do
  let (pBuf, dstlen) ← putPart placed.1 placed.2 [0]
  return ⟨NO_ERROR, pBuf, some (UInt32.ofNat dstlen)⟩

/-- The buffer is too small. -/
def tooLong (pBuf : List UInt8) (cbBuf : UInt32) : Run Inserted := do
  let pBuf ← writeBytes pBuf (cbBuf.toNat - 1) [0]
  return ⟨ERROR_MR_MSG_TOO_LONG, pBuf, some cbBuf⟩

/-- A pass of the loop ends: the message is complete, or too long, or the next
pass follows. -/
def afterPart (cbBuf : UInt32) (maxlen srclen : Int)
    (placed : List UInt8 × Nat) (next : Run Inserted) : Run Inserted :=
  if srclen ≤ 0 then finish placed
  else if maxlen < placed.2 then tooLong placed.1 cbBuf
  else next

/-- The string that a digit stands for. -/
def tableAt (table : List (List UInt8)) (digit : UInt8) : Run (List UInt8) :=
  match table[digit.toNat - 49]? with
  | some string => .ok string
  | none => .error .readOutside

/-- The loop over the message from a place on. -/
def insertLoop (table : List (List UInt8)) (cbBuf : UInt32) (maxlen : Int) :
    List UInt8 → Int → Nat → List UInt8 × Nat → Run Inserted
  | [], _, _, _ => .error .readOutside
  | byte :: rest, srclen, ivcount, placed =>
    if byte = percent then
      if 9 < ivcount + 1 then
        .ok ⟨ERROR_MR_INV_IVCOUNT, placed.1, none⟩
      else
        match rest with
        | [] => .error .readOutside
        | digit :: rest =>
          if digit = percent then do
            let placed ← putPart placed.1 placed.2 [digit]
            afterPart cbBuf maxlen (srclen - 2) placed
              (insertLoop table cbBuf maxlen rest (srclen - 2) (ivcount + 1) placed)
          else if digit = zeroDigit then
            afterPart cbBuf maxlen (srclen - 2) placed
              (insertLoop table cbBuf maxlen rest (srclen - 2) (ivcount + 1) placed)
          else if IsInsertDigit digit then do
            let string ← tableAt table digit
            let placed ← putPart placed.1 placed.2 (string.take (strnlen string cbBuf))
            -- The digit is not counted in the rest of the message.
            afterPart cbBuf maxlen (srclen - 1) placed
              (insertLoop table cbBuf maxlen rest (srclen - 1) (ivcount + 1) placed)
          else if srclen - 1 ≤ 0 then
            finish placed
          else
            .ok ⟨ERROR_MR_UN_PERFORM, placed.1, none⟩
    else do
      let placed ← putPart placed.1 placed.2 [byte]
      afterPart cbBuf maxlen (srclen - 1) placed
        (insertLoop table cbBuf maxlen rest (srclen - 1) ivcount placed)

/-- The length that the message is thought to have at most.  The sum wraps
around. -/
def maxlenOf (table : List (List UInt8)) (cbMsg cbBuf : UInt32) : Int := signedLong (table.foldl
    (fun maxlen string => maxlen + (UInt32.ofNat (strnlen string cbBuf) - 1))
    cbMsg)

/-- Put strings in the places of their numbers.  `logged` is what the variable
`i` happens to hold, which is read before anything is stored in it. -/
def DosInsertMessage (args : InsertArgs) (logged : Int) : Run Inserted := do
  match args.pszMsg with
  | none => .error .nullPointer
  | some pszMsg =>
    let _ ← readByte pszMsg logged
    match args.pBuf with
    | none => return ⟨ERROR_INVALID_PARAMETER, [], none⟩
    | some pBuf =>
      if args.cTable ≠ 0 ∧ args.pTable.isNone then
        return ⟨ERROR_INVALID_PARAMETER, pBuf, none⟩
      else if args.cbBuf < args.cbMsg then
        return ⟨ERROR_MR_MSG_TOO_LONG, pBuf, none⟩
      else if args.cTable = 0 then do
        let pBuf ← strlcpy pBuf pszMsg args.cbMsg
        return ⟨NO_ERROR, pBuf, none⟩
      else
        let table := args.pTable.getD []
        insertLoop table args.cbBuf (maxlenOf table args.cbMsg args.cbBuf) pszMsg
          (signedLong args.cbMsg) 0 (pBuf, 0)

/-!
## Messages of a message file

`DosTrueGetMessage` looks up the number of a message in the index of a message
file, and inserts strings into the message found there.
-/

def ERROR_MR_MID_NOT_FOUND : UInt32 := 317
def ERROR_MR_UN_ACC_MSGF : UInt32 := 318
def ERROR_MR_INV_MSGF_FORMAT : UInt32 := 319

/-- The header magic of a message file, with its terminator. -/
def HDR_MAGIC : List UInt8 := [0xFF, 77, 75, 77, 83, 71, 70, 0]

/-- The bytes differ from a string with its terminator, which is compared up to
the first difference. -/
def strncmpDiffers : List UInt8 → List UInt8 → Run Bool
  | _, [] => .ok false
  | [], _ :: _ => .error .readOutside
  | byte :: bytes, char :: chars =>
    if byte = char then strncmpDiffers bytes chars else .ok true

def PvtChkMsgFileFmt (msgSeg : List UInt8) : Run UInt32 := do
  let differs ← strncmpDiffers msgSeg HDR_MAGIC
  return if differs then ERROR_MR_INV_MSGF_FORMAT else NO_ERROR

/-- What of the header is read. -/
structure MsgHdr where
  id : List UInt8
  msgs_no : UInt16
  firstmsgno : UInt16
  is_offs_16bits : UInt8
  idx_ofs : UInt16
  next_ctry_info : UInt16
  deriving DecidableEq

/-- The header at the start of a message file. -/
def readHdr (msg : List UInt8) : Run MsgHdr := do
  let id ← readBytes msg 8 3
  let msgs_no ← readWord msg 11
  let firstmsgno ← readWord msg 13
  let is_offs_16bits ← readByte msg 15
  let idx_ofs ← readWord msg 18
  let next_ctry_info ← readWord msg 22
  return { id, msgs_no, firstmsgno, is_offs_16bits, idx_ofs, next_ctry_info }

/-- The offset of a message, from the index. -/
def messageOffset (msg : List UInt8) (hdr : MsgHdr) (number : Nat) :
    Run UInt32 :=
  if hdr.is_offs_16bits ≠ 0 then
    UInt16.toUInt32 <$> readWord msg (hdr.idx_ofs.toNat + 2 * number)
  else
    readLong msg (hdr.idx_ofs.toNat + 4 * number)

/-- A number with at least four digits. -/
def fourDigits (number : Nat) : List UInt8 :=
  let digits := (Nat.toDigits 10 number).map fun digit =>
    UInt8.ofNat digit.toNat
  List.replicate (4 - digits.length) zeroDigit ++ digits

/-- The name of the file, "%04u" of the number and ": ". -/
def prefixOf (id : List UInt8) (number : Nat) : List UInt8 :=
  id.takeWhile (· ≠ 0) ++ fourDigits number ++ [58, 32]

/-- The arguments, with the message segment that is bound to the program. -/
structure GetArgs where
  msgSeg : Option (List UInt8)
  pTable : Option (List (List UInt8))
  cTable : UInt32
  pBuf : Option (List UInt8)
  cbBuf : UInt32
  msgnumber : UInt32

/-- What `DosInsertMessage` gives, and what is put to the standard output. -/
structure Got where
  inserted : Inserted
  put : List UInt8
  deriving DecidableEq

/-- A return before anything is inserted. -/
def GetArgs.answer (args : GetArgs) (rc : UInt32) : Run Got :=
  .ok ⟨⟨rc, args.pBuf.getD [], none⟩, []⟩

/-- The end of the message of a number, which for the last one is that of the
file or of its part. -/
def messageEnd (msg : List UInt8) (hdr : MsgHdr) (number : UInt32) :
    Run UInt32 :=
  if number + 1 = hdr.msgs_no.toUInt32 then
    if hdr.next_ctry_info ≠ 0 then .ok hdr.next_ctry_info.toUInt32
    else .ok (UInt32.ofNat msg.length)
  else
    messageOffset msg hdr (number + 1).toNat

/-- The message between two offsets. -/
def insertFrom (args : GetArgs) (logged : Int) (msg : List UInt8) (hdr : MsgHdr)
    (number msgoff msgend : UInt32) : Run Got :=
  let cbFile := UInt32.ofNat msg.length
  if cbFile < msgoff ∨ cbFile < msgend then
    args.answer ERROR_MR_MSG_TOO_LONG
  else do
    let letter ← readByte msg msgoff.toNat
    let put :=
      if letter = 69 ∨ letter = 87 ∨ letter = 73 then
        prefixOf hdr.id number.toNat
      else []
    let inserted ← DosInsertMessage
      { pTable := args.pTable
        cTable := args.cTable
        pszMsg := some (msg.drop (msgoff.toNat + 1))
        cbMsg := msgend - msgoff - 1
        pBuf := args.pBuf
        cbBuf := args.cbBuf }
      logged
    return ⟨inserted, put⟩

/-- The message of a number from a file that was loaded. -/
def getFrom (args : GetArgs) (logged : Int) (msg : List UInt8) : Run Got := do
  let format ← PvtChkMsgFileFmt msg
  if format ≠ NO_ERROR then
    args.answer ERROR_MR_INV_MSGF_FORMAT
  else do
    let hdr ← readHdr msg
    let number := args.msgnumber - hdr.firstmsgno.toUInt32
    if hdr.msgs_no.toUInt32 < number then
      args.answer ERROR_MR_MID_NOT_FOUND
    else do
      let msgoff ← messageOffset msg hdr number.toNat
      let msgend ← messageEnd msg hdr number
      insertFrom args logged msg hdr number msgoff msgend

/-- Get a message.  `loaded` is the message file, if `PvtLoadMsgFile` can read
it, and `logged` what a variable of `DosInsertMessage` happens to hold. -/
def DosTrueGetMessage (args : GetArgs) (loaded : Option (List UInt8)) (logged : Int) : Run Got := do
  if args.cTable ≠ 0 ∧ args.pTable.isNone then
    .error .nullPointer
  else if 9 < args.cTable then
    args.answer ERROR_MR_INV_IVCOUNT
  else if args.pBuf.isNone ∨ args.cbBuf = 0 then
    args.answer ERROR_INVALID_PARAMETER
  else do
    let bound ←
      match args.msgSeg with
      | none => .ok false
      | some msgSeg => (· == NO_ERROR) <$> PvtChkMsgFileFmt msgSeg
    if bound then
      -- Nothing was stored in `rc` for a segment of the right format.
      .error .uninitialised
    else
      match loaded with
      | none => args.answer ERROR_MR_UN_ACC_MSGF
      | some msg => getFrom args logged msg

end OsFree.Doscalls
