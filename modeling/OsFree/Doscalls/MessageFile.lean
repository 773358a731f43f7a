import OsFree.Doscalls.InsertOutcome

/-!
# A message is found by its number

A message file has an index of its messages, which stand one behind the other.
A message is found if its number is in the range of the file; the number behind
the last one is looked up as well, beyond the index.
-/

namespace OsFree.Doscalls

open Machine

/-- The letters for the types of messages. -/
def typeLetters : List UInt8 := [69, 87, 80, 73, 72, 63]

/-- The bytes between two offsets. -/
def between (bytes : List UInt8) (start stop : Nat) : List UInt8 :=
  (bytes.drop start).take (stop - start)

/-- A message file.  Each message is a letter for its type and a text with no
more escapes than can be inserted. -/
structure MessageFile where
  bytes : List UInt8
  hdr : MsgHdr
  /-- Where each message starts, and behind the last one where it ends. -/
  start : Nat → Nat
  magic : bytes.take 8 = HDR_MAGIC
  header : readHdr bytes = .ok hdr
  size : bytes.length < 2147483648
  index : ∀ k < hdr.msgs_no.toNat, ∃ offset,
    messageOffset bytes hdr k = .ok offset ∧ offset.toNat = start k
  ordered : ∀ k < hdr.msgs_no.toNat, start k < start (k + 1)
  /-- The last message ends with the file, or where the next country
  information has the width of its characters. -/
  last : if hdr.next_ctry_info = 0 then start hdr.msgs_no.toNat = bytes.length
    else start hdr.msgs_no.toNat = hdr.next_ctry_info.toNat ∧
      ∃ width ∈ [1, 2], bytes[hdr.next_ctry_info.toNat]? = some width
  letter : ∀ k < hdr.msgs_no.toNat, ∃ letter ∈ typeLetters, bytes[start k]? = some letter
  few : ∀ k < hdr.msgs_no.toNat, escapes (between bytes (start k + 1) (start (k + 1))) ≤ 9

namespace MessageFile

variable (file : MessageFile)

/-- The text of a message, without the letter. -/
def text (k : Nat) : List UInt8 := between file.bytes (file.start k + 1) (file.start (k + 1))

/-- What follows a message in the file. -/
def behind (k : Nat) : List UInt8 := file.bytes.drop (file.start (k + 1))

/-- The number is that of a message of the file. -/
def Has (number : UInt32) : Prop := file.hdr.firstmsgno.toNat ≤ number.toNat ∧
    number.toNat < file.hdr.firstmsgno.toNat + file.hdr.msgs_no.toNat

instance (number : UInt32) : Decidable (file.Has number) := inferInstanceAs (Decidable (_ ∧ _))

/-- The place of a number in the index. -/
def placeOf (number : UInt32) : Nat := number.toNat - file.hdr.firstmsgno.toNat

end MessageFile

/-- A call with at most nine strings to insert and a buffer, which is in one
address space with the file. -/
structure GetCall where
  file : MessageFile
  table : List (List UInt8)
  buffer : List UInt8
  /-- What happens to be in a variable. -/
  logged : Int
  nine : table.length ≤ 9
  nonempty : buffer ≠ []
  nonzero : ∀ string ∈ table, 0 ∉ string
  string_le : ∀ string ∈ table, string.length + buffer.length + 1 ≤ 4294967296
  file_le : file.bytes.length + buffer.length + 4 ≤ 4294967296

namespace GetCall

variable (call : GetCall)

/-- The arguments for a number. -/
@[simps] def args (number : UInt32) : GetArgs where
  msgSeg := none
  pTable := some call.table
  cTable := UInt32.ofNat call.table.length
  pBuf := some call.buffer
  cbBuf := UInt32.ofNat call.buffer.length
  msgnumber := number

def run (number : UInt32) : Run Got :=
  DosTrueGetMessage (call.args number) (some call.file.bytes) call.logged

theorem length_text_le (k : Nat) :
    (call.file.text k).length + call.buffer.length + 4 ≤ 4294967296 := by
  have bound := call.file_le
  unfold MessageFile.text between
  rw [List.length_take, List.length_drop]
  omega

theorem table_le : 4 * call.table.length ≤ 4294967296 := by
  have bound := call.nine
  omega

/-- The call for the text of a message. -/
def insertCall (k : Nat) : InsertCall where
  table := call.table
  text := call.file.text k
  buffer := call.buffer
  logged := call.logged
  nonzero := call.nonzero
  text_le := call.length_text_le k
  string_le := call.string_le
  table_le := call.table_le

/-- The result is right: that of inserting the strings into the text of the
message, or that there is no message of the number. -/
def Right (number : UInt32) (got : Got) : Prop :=
  if call.file.Has number then
    (call.insertCall (call.file.placeOf number)).Right got.inserted
  else got.inserted.rc = ERROR_MR_MID_NOT_FOUND

def Meets (number : UInt32) : Prop := ∃ got, call.run number = .ok got ∧ call.Right number got

/-- The number is not the one behind the last, and the strings can be inserted
into a message of the number. -/
def Allowed (number : UInt32) : Prop := number.toNat ≠
      call.file.hdr.firstmsgno.toNat + call.file.hdr.msgs_no.toNat ∧
    (call.file.Has number → (call.insertCall (call.file.placeOf number)).AllowedBefore
        (call.file.behind (call.file.placeOf number)))

end GetCall

theorem strncmpDiffers_of_take {bytes chars : List UInt8} (same : bytes.take chars.length = chars) :
    strncmpDiffers bytes chars = .ok false := by
  induction chars generalizing bytes with
  | nil =>
    unfold strncmpDiffers
    rfl
  | cons char chars ih =>
    cases bytes with
    | nil => cases same
    | cons byte bytes =>
      obtain ⟨rfl, rest⟩ := List.cons.inj same
      rw [strncmpDiffers, if_pos rfl]
      exact ih rest

namespace MessageFile

variable {file : MessageFile} {k : Nat}

theorem start_le (within : k ≤ file.hdr.msgs_no.toNat) :
    file.start k ≤ file.start file.hdr.msgs_no.toNat := by
  induction within using Nat.decreasingInduction with
  | of_succ k below ih =>
    exact Nat.le_trans (Nat.le_of_lt (file.ordered k below)) ih
  | self => exact Nat.le_refl _

theorem stop_le : file.start file.hdr.msgs_no.toNat ≤ file.bytes.length := by
  have last := file.last
  split at last
  · exact Nat.le_of_eq last
  · obtain ⟨stop, width, -, found⟩ := last
    rw [stop]
    exact Nat.le_of_lt (List.getElem?_eq_some_iff.mp found).1

theorem bounds (within : k < file.hdr.msgs_no.toNat) : file.start k < file.start (k + 1) ∧
      file.start (k + 1) ≤ file.bytes.length :=
  ⟨file.ordered k within, Nat.le_trans (start_le within) stop_le⟩

theorem length_text (within : k < file.hdr.msgs_no.toNat) :
    (file.text k).length = file.start (k + 1) - file.start k - 1 := by
  obtain ⟨ordered, inside⟩ := bounds within
  unfold text between
  rw [List.length_take, List.length_drop]
  omega

theorem text_append_behind (within : k < file.hdr.msgs_no.toNat) :
    file.text k ++ file.behind k = file.bytes.drop (file.start k + 1) := by
  obtain ⟨ordered, -⟩ := bounds within
  have stop : file.start (k + 1) =
      file.start k + 1 + (file.start (k + 1) - (file.start k + 1)) := by omega
  unfold behind
  conv_lhs => rw [stop]
  rw [← List.drop_drop]
  exact List.take_append_drop ..

theorem head?_behind (k : Nat) :
    (file.behind k).head? = file.bytes[file.start (k + 1)]? :=
  List.head?_drop

theorem follows (within : k < file.hdr.msgs_no.toNat) :
    Follows (file.behind k) := by
  intro byte head
  rw [head?_behind] at head
  have known : byte ∈ typeLetters ∨ byte ∈ [1, 2] := by
    by_cases more : k + 1 < file.hdr.msgs_no.toNat
    · obtain ⟨letter, known, found⟩ := file.letter (k + 1) more
      rw [head] at found
      exact .inl (Option.some.inj found ▸ known)
    · have ends : k + 1 = file.hdr.msgs_no.toNat := by omega
      have last := file.last
      rw [ends] at head
      split at last
      · rw [last, List.getElem?_eq_none (Nat.le_refl _)] at head
        cases head
      · obtain ⟨stop, width, known, found⟩ := last
        rw [stop, found] at head
        exact .inr (Option.some.inj head ▸ known)
  have none : (typeLetters ++ [1, 2]).all (fun byte =>
      decide (byte ≠ percent ∧ byte ≠ zeroDigit ∧ ¬ IsInsertDigit byte)) = true := by decide
  exact of_decide_eq_true (List.all_eq_true.mp none byte (List.mem_append.mpr known))

end MessageFile

namespace GetCall

variable {call : GetCall} {number : UInt32} {got : Got}

theorem run_eq : call.run number =
    (let hdr := call.file.hdr
    let place := number - hdr.firstmsgno.toUInt32
    if hdr.msgs_no.toUInt32 < place then
      (call.args number).answer ERROR_MR_MID_NOT_FOUND
    else do
      let msgoff ← messageOffset call.file.bytes hdr place.toNat
      let msgend ← messageEnd call.file.bytes hdr place
      insertFrom (call.args number) call.logged call.file.bytes hdr place
        msgoff msgend) := by
  have nine := call.nine
  have few : ¬ 9 < UInt32.ofNat call.table.length := by
    rw [UInt32.lt_iff_toNat_lt, UInt32.toNat_ofNat']
    change ¬ 9 < _
    omega
  have some : UInt32.ofNat call.buffer.length ≠ 0 := by
    have positive := List.length_pos_iff.mpr call.nonempty
    have bound := call.file_le
    intro zero
    have none := congrArg UInt32.toNat zero
    simp only [UInt32.toNat_ofNat', UInt32.toNat_zero, Nat.reducePow] at none
    omega
  have format : PvtChkMsgFileFmt call.file.bytes = .ok NO_ERROR := by
    unfold PvtChkMsgFileFmt
    rw [@strncmpDiffers_of_take _ HDR_MAGIC call.file.magic]
    rfl
  unfold run DosTrueGetMessage getFrom
  simp only [args_pTable, args_cTable, args_pBuf, args_cbBuf, args_msgSeg,
    args_msgnumber, Option.isNone_some, Bool.false_eq_true, and_false,
    if_false, few, some, or_self, bind_ok, format, call.file.header, ne_eq,
    not_true]

theorem toNat_place : (number - call.file.hdr.firstmsgno.toUInt32).toNat =
    if call.file.hdr.firstmsgno.toNat ≤ number.toNat then
      number.toNat - call.file.hdr.firstmsgno.toNat
    else 4294967296 + number.toNat - call.file.hdr.firstmsgno.toNat := by
  have small := number.toNat_lt
  have short := call.file.hdr.firstmsgno.toNat_lt
  rw [UInt32.toNat_sub, UInt16.toNat_toUInt32]
  split
  · omega
  · omega

theorem looked_iff : ¬ call.file.hdr.msgs_no.toUInt32 < number - call.file.hdr.firstmsgno.toUInt32 ↔
    call.file.hdr.firstmsgno.toNat ≤ number.toNat ∧ number.toNat ≤
        call.file.hdr.firstmsgno.toNat + call.file.hdr.msgs_no.toNat := by
  have short := call.file.hdr.firstmsgno.toNat_lt
  have short' := call.file.hdr.msgs_no.toNat_lt
  rw [UInt32.lt_iff_toNat_lt, toNat_place, UInt16.toNat_toUInt32]
  split
  · omega
  · omega

theorem rc_of_insertLoop {table : List (List UInt8)} {cbBuf : UInt32}
    {maxlen srclen : Int} {text : List UInt8} {ivcount : Nat}
    {placed : List UInt8 × Nat} {result : Inserted}
    (ran : insertLoop table cbBuf maxlen text srclen ivcount placed =
      .ok result) : result.rc ≠ ERROR_MR_MID_NOT_FOUND := by
  have ended : ∀ {placed : List UInt8 × Nat}, finish placed = .ok result →
      result.rc ≠ ERROR_MR_MID_NOT_FOUND := by
    intro placed ended
    rw [(finish_counted ended).1]
    decide
  have after : ∀ {srclen : Int} {placed : List UInt8 × Nat} {next : Run Inserted},
      (next = .ok result → result.rc ≠ ERROR_MR_MID_NOT_FOUND) →
      afterPart cbBuf maxlen srclen placed next = .ok result →
      result.rc ≠ ERROR_MR_MID_NOT_FOUND := by
    intro srclen placed next later ran
    unfold afterPart at ran
    split at ran
    · exact ended ran
    · split at ran
      · obtain ⟨_, -, same⟩ := bind_eq_ok_iff.mp ran
        cases same
        exact fun wrong => by cases wrong
      · exact later ran
  induction text using escapes.induct generalizing srclen ivcount placed with
  | case1 => cases ran
  | case2 =>
    unfold insertLoop at ran
    simp only [if_true] at ran
    split at ran
    · cases ran
      exact fun wrong => by cases wrong
    · cases ran
  | case3 digit rest ih =>
    rw [insertLoop] at ran
    simp only [if_true] at ran
    split at ran
    · cases ran
      exact fun wrong => by cases wrong
    split at ran
    · obtain ⟨placed', -, ran⟩ := bind_eq_ok_iff.mp ran
      exact after ih ran
    split at ran
    · exact after ih ran
    split at ran
    · obtain ⟨string, -, ran⟩ := bind_eq_ok_iff.mp ran
      obtain ⟨placed', -, ran⟩ := bind_eq_ok_iff.mp ran
      exact after ih ran
    split at ran
    · exact ended ran
    · cases ran
      exact fun wrong => by cases wrong
  | case4 byte rest plain ih =>
    rw [insertLoop.eq_def] at ran
    simp only [if_neg plain] at ran
    obtain ⟨placed', -, ran⟩ := bind_eq_ok_iff.mp ran
    exact after ih ran

theorem rc_of_insertMessage {args : InsertArgs} {logged : Int}
    {result : Inserted} (ran : DosInsertMessage args logged = .ok result) :
    result.rc ≠ ERROR_MR_MID_NOT_FOUND := by
  unfold DosInsertMessage at ran
  split at ran
  · cases ran
  obtain ⟨_, -, ran⟩ := bind_eq_ok_iff.mp ran
  split at ran
  · cases ran
    exact fun wrong => by cases wrong
  split at ran
  · cases ran
    exact fun wrong => by cases wrong
  split at ran
  · cases ran
    exact fun wrong => by cases wrong
  split at ran
  · obtain ⟨_, -, same⟩ := bind_eq_ok_iff.mp ran
    cases same
    exact fun wrong => by cases wrong
  · exact rc_of_insertLoop ran

theorem rc_of_insertFrom {args : GetArgs} {logged : Int} {msg : List UInt8}
    {hdr : MsgHdr} {place msgoff msgend : UInt32}
    (ran : insertFrom args logged msg hdr place msgoff msgend = .ok got) :
    got.inserted.rc ≠ ERROR_MR_MID_NOT_FOUND := by
  unfold insertFrom at ran
  simp only at ran
  split at ran
  · cases ran
    exact fun wrong => by cases wrong
  · obtain ⟨_, -, ran⟩ := bind_eq_ok_iff.mp ran
    obtain ⟨inserted, made, same⟩ := bind_eq_ok_iff.mp ran
    cases same
    exact rc_of_insertMessage made

theorem not_meets_behind (next : number.toNat =
    call.file.hdr.firstmsgno.toNat + call.file.hdr.msgs_no.toNat) :
    ¬ call.Meets number := by
  rintro ⟨got, ran, right⟩
  have hasNot : ¬ call.file.Has number := by
    unfold MessageFile.Has
    omega
  unfold Right at right
  rw [if_neg hasNot] at right
  rw [run_eq] at ran
  rw [if_neg (looked_iff.mpr (by omega))] at ran
  obtain ⟨msgoff, -, ran⟩ := bind_eq_ok_iff.mp ran
  obtain ⟨msgend, -, ran⟩ := bind_eq_ok_iff.mp ran
  exact rc_of_insertFrom ran right

theorem meets_outside (outside : ¬ call.file.Has number) (next : number.toNat ≠
      call.file.hdr.firstmsgno.toNat + call.file.hdr.msgs_no.toNat) :
    call.Meets number := by
  have refused : call.file.hdr.msgs_no.toUInt32 <
      number - call.file.hdr.firstmsgno.toUInt32 := by
    by_contra looked
    have bounds := looked_iff.mp looked
    unfold MessageFile.Has at outside
    omega
  unfold Meets Right
  rw [run_eq]
  simp only [if_pos refused, if_neg outside]
  exact ⟨_, rfl, rfl⟩

theorem placeOf_lt (has : call.file.Has number) :
    call.file.placeOf number < call.file.hdr.msgs_no.toNat ∧
      (number - call.file.hdr.firstmsgno.toUInt32).toNat =
        call.file.placeOf number := by
  obtain ⟨low, high⟩ := has
  rw [toNat_place, if_pos low]
  unfold MessageFile.placeOf
  exact ⟨by omega, rfl⟩

theorem messageEnd_eq (has : call.file.Has number) :
    ∃ stop, messageEnd call.file.bytes call.file.hdr
        (number - call.file.hdr.firstmsgno.toUInt32) = .ok stop ∧
      stop.toNat = call.file.start (call.file.placeOf number + 1) := by
  obtain ⟨within, place⟩ := placeOf_lt has
  have size := call.file.size
  have short := call.file.hdr.msgs_no.toNat_lt
  have next : (number - call.file.hdr.firstmsgno.toUInt32 + 1).toNat =
      call.file.placeOf number + 1 := by
    have one : (1 : UInt32).toNat = 1 := rfl
    rw [UInt32.toNat_add, place, one]
    omega
  have isLast : number - call.file.hdr.firstmsgno.toUInt32 + 1 = call.file.hdr.msgs_no.toUInt32 ↔
      call.file.placeOf number + 1 = call.file.hdr.msgs_no.toNat := by
    rw [UInt32.ext_iff, next, UInt16.toNat_toUInt32]
  unfold messageEnd
  by_cases ends : call.file.placeOf number + 1 = call.file.hdr.msgs_no.toNat
  · have last := call.file.last
    rw [if_pos (isLast.mpr ends), ends]
    by_cases alone : call.file.hdr.next_ctry_info = 0
    · rw [if_pos alone] at last
      rw [if_neg (not_not.mpr alone)]
      refine ⟨_, rfl, ?_⟩
      rw [UInt32.toNat_ofNat', last]
      omega
    · rw [if_neg alone] at last
      rw [if_pos alone]
      refine ⟨_, rfl, ?_⟩
      rw [UInt16.toNat_toUInt32, last.1]
  · rw [if_neg (isLast.not.mpr ends), next]
    exact call.file.index _ (by omega)

theorem run_of_has (has : call.file.Has number) : ∃ put,
    call.run number = (⟨·, put⟩) <$> (call.insertCall (call.file.placeOf number)).run
        (call.file.behind (call.file.placeOf number)) := by
  obtain ⟨within, place⟩ := placeOf_lt has
  obtain ⟨msgoff, offset, begins⟩ := call.file.index _ within
  obtain ⟨msgend, ends, stops⟩ := messageEnd_eq has
  obtain ⟨ordered, inside⟩ := MessageFile.bounds within
  obtain ⟨letter, -, found⟩ := call.file.letter _ within
  have size := call.file.size
  have looked := (@looked_iff call number).mpr ⟨has.1, Nat.le_of_lt has.2⟩
  have length := MessageFile.length_text within
  have total : (UInt32.ofNat call.file.bytes.length).toNat =
      call.file.bytes.length := by
    rw [UInt32.toNat_ofNat']
    omega
  have near : ¬ (UInt32.ofNat call.file.bytes.length < msgoff ∨
      UInt32.ofNat call.file.bytes.length < msgend) := by
    rw [UInt32.lt_iff_toNat_lt, UInt32.lt_iff_toNat_lt, total, begins, stops]
    omega
  have count : msgend - msgoff - 1 = UInt32.ofNat
      (call.file.text (call.file.placeOf number)).length := by
    have one : (1 : UInt32).toNat = 1 := rfl
    rw [UInt32.ext_iff, UInt32.toNat_sub, UInt32.toNat_sub, one, begins,
      stops, length, UInt32.toNat_ofNat']
    omega
  have read : readByte call.file.bytes
      (call.file.start (call.file.placeOf number) : Nat) = .ok letter :=
    readByte_eq_ok_iff.mpr ⟨Int.natCast_nonneg _, found⟩
  have text := MessageFile.text_append_behind within
  rw [run_eq]
  simp only [if_neg looked, place, offset, ends, bind_ok]
  unfold insertFrom
  simp only [if_neg near, begins, read, bind_ok, count, ← text]
  exact ⟨_, rfl⟩

theorem meets_inside_iff (has : call.file.Has number) : call.Meets number ↔
      (call.insertCall (call.file.placeOf number)).AllowedBefore
        (call.file.behind (call.file.placeOf number)) := by
  obtain ⟨within, -⟩ := placeOf_lt has
  obtain ⟨put, ran⟩ := run_of_has has
  have inserted := @InsertCall.meetsBefore_iff (call.insertCall (call.file.placeOf number)) _
    (MessageFile.follows within) (call.file.few _ within)
    (.inl (List.length_pos_iff.mpr call.nonempty))
  rw [← inserted]
  unfold Meets InsertCall.MeetsBefore Right
  rw [ran]
  simp only [if_pos has, map_eq_ok_iff]
  constructor
  · rintro ⟨_, ⟨result, made, rfl⟩, right⟩
    exact ⟨result, made, right⟩
  · rintro ⟨result, made, right⟩
    exact ⟨_, ⟨result, made, rfl⟩, right⟩

end GetCall

/-- The message file "SYS" with message 5, "?ab". -/
def oneMessage : List UInt8 := HDR_MAGIC ++ [83, 89, 83, 1, 0, 5, 0, 1, 2, 0, 31, 0, 0, 0, 0, 0] ++
    List.replicate 7 0 ++ [33, 0] ++ [63, 97, 98]

def oneMessageHdr : MsgHdr where
  id := [83, 89, 83]
  msgs_no := 1
  firstmsgno := 5
  is_offs_16bits := 1
  idx_ofs := 31
  next_ctry_info := 0

def oneMessageStart (k : Nat) : Nat := 33 + 3 * k

theorem oneMessage_magic : oneMessage.take 8 = HDR_MAGIC := by decide

theorem oneMessage_header : readHdr oneMessage = .ok oneMessageHdr := by decide

theorem oneMessage_size : oneMessage.length < 2147483648 := by decide

theorem oneMessage_index : ∀ k < 1, ∃ offset,
    messageOffset oneMessage oneMessageHdr k = .ok offset ∧
      offset.toNat = oneMessageStart k := by
  intro k first
  obtain rfl := Nat.lt_one_iff.mp first
  exact ⟨33, by decide, by decide⟩

theorem oneMessage_ordered :
    ∀ k < 1, oneMessageStart k < oneMessageStart (k + 1) := by decide

theorem oneMessage_letter : ∀ k < 1, ∃ letter ∈ typeLetters,
    oneMessage[oneMessageStart k]? = some letter := by decide

theorem oneMessage_few : ∀ k < 1, escapes (between oneMessage
    (oneMessageStart k + 1) (oneMessageStart (k + 1))) ≤ 9 := by decide

def oneMessageFile : MessageFile where
  bytes := oneMessage
  hdr := oneMessageHdr
  start := oneMessageStart
  magic := oneMessage_magic
  header := oneMessage_header
  size := oneMessage_size
  index := oneMessage_index
  ordered := oneMessage_ordered
  last := rfl
  letter := oneMessage_letter
  few := oneMessage_few

theorem oneMessage_file_le : oneMessage.length + (List.replicate 8 (0 : UInt8)).length + 4 ≤
      4294967296 := by decide

/-- A call that has "x" to insert. -/
def oneMessageCall : GetCall where
  file := oneMessageFile
  table := [[120]]
  buffer := List.replicate 8 0
  logged := 0
  nine := Nat.succ_le_succ (Nat.zero_le 8)
  nonempty := List.cons_ne_nil _ _
  nonzero := InsertCall.nonzero_x
  string_le := InsertCall.length_x
  file_le := oneMessage_file_le

example : oneMessageCall.run 5 =
    .ok ⟨⟨NO_ERROR, [97, 98, 0, 0, 0, 0, 0, 0], some 3⟩, []⟩ := by decide

end OsFree.Doscalls
