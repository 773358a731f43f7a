import OsFree.Machine.MessagePipe

/-!
# Data through the pipe of a client

The client of the presentation manager sends commands and data to the server
through a pipe of messages.  More data than one message may have goes in portions.
The sender counts them by the length of the data, and the receiver by the room
that it has.
-/

namespace OsFree.Pm

open Machine

/-- The codes that reads of a pipe return. -/
def NO_ERROR : Int := 0

def ERROR_MORE_DATA : Int := 234

/-- The number of portions for a length, as `int` arithmetic has it. -/
def nraz (len : Nat) : Run Nat := do
  let sum ← addInt len 0x7fff
  pure (sum / 0x8000).toNat

namespace NPipe

/-- Write a message to the pipe. -/
def dosWrite (pipe : MessagePipe) (data : List UInt8) :
    MessagePipe × Int :=
  (pipe.write data, NO_ERROR)

/-- A command and its data, in one message. -/
def sendCmdToServer (pipe : MessagePipe) (ncmd data : UInt32) :
    MessagePipe × Int :=
  dosWrite pipe (longBytes ncmd ++ longBytes data)

/-- Portions of data from the `i`-th on.  None of them is too long for one
message. -/
def sendPortions (data : List UInt8) (nraz : Nat) : Nat → Nat → MessagePipe → MessagePipe × Int
  | 0, _, pipe => (pipe, 0)
  | n + 1, i, pipe =>
    let portionLen := if i = nraz - 1 then data.length - 0x8000 * i else 0x8000
    let (pipe, rc0) := dosWrite pipe ((data.drop (0x8000 * i)).take portionLen)
    if rc0 ≠ 0 then (pipe, -1)
    else sendPortions data nraz n (i + 1) pipe

def sendLongDataToServer (pipe : MessagePipe) (data : List UInt8) :
    Run (MessagePipe × Int) := do
  let nraz ← nraz data.length
  pure (sendPortions data nraz nraz 0 pipe)

def sendDataToServer (pipe : MessagePipe) (data : List UInt8) :
    Run (MessagePipe × Int) :=
  if data.length > 0x8000 then sendLongDataToServer pipe data
  else pure (dosWrite pipe data)

/-- What has been received: the pipe and the buffer after it, the number of bytes
and the code. -/
structure Received where
  pipe : MessagePipe
  buffer : List UInt8
  len : Nat
  rc : Int
  deriving DecidableEq

section

variable (splits : Nat → Nat)

/-- Receive one message of up to `maxlen` bytes, with as many reads as it
takes. -/
def recvMessage (pipe : MessagePipe) (buffer : List UInt8)
    (pos maxlen : Nat) : Option (Run Received) :=
  andThen (MessagePipe.drain splits pipe buffer pos maxlen 0) fun got =>
    some (.ok ⟨got.pipe, got.buffer, got.length,
      if got.more then ERROR_MORE_DATA else NO_ERROR⟩)

/-- Receive portions from the `i`-th on. -/
def recvPortions (maxlen nraz : Nat) : Nat → Nat → Received → Option (Run Received)
  | 0, _, got => some (.ok got)
  | n + 1, i, got =>
    let portionLen := if i = nraz - 1 then maxlen - 0x8000 * i else 0x8000
    andThen (recvMessage splits got.pipe got.buffer (0x8000 * i) portionLen) fun next =>
        if next.rc ≠ ERROR_MORE_DATA ∧ next.rc ≠ NO_ERROR then
          some (.ok { next with len := got.len + next.len })
        else
          recvPortions maxlen nraz n (i + 1)
            { next with len := got.len + next.len, rc := got.rc }

def recvLongDataFromClient (pipe : MessagePipe) (buffer : List UInt8)
    (maxlen : Nat) : Option (Run Received) :=
  andThen (some (nraz maxlen)) fun nraz =>
    recvPortions splits maxlen nraz nraz 0 ⟨pipe, buffer, 0, 0⟩

def recvDataFromClient (pipe : MessagePipe) (buffer : List UInt8)
    (maxlen : Nat) : Option (Run Received) :=
  if maxlen > 0x8000 then recvLongDataFromClient splits pipe buffer maxlen
  else recvMessage splits pipe buffer 0 maxlen

/-- A command that has been received, with its data and the code. -/
structure ReceivedCmd where
  pipe : MessagePipe
  ncmd : UInt32
  data : UInt32
  rc : Int
  deriving DecidableEq

/-- Receive a command to a buffer `str`.  A message of another length is refused,
but for an empty one, which is no command. -/
def recvCmdFromClient (pipe : MessagePipe) (str : List UInt8) :
    Option (Run ReceivedCmd) :=
  andThen (MessagePipe.drain splits pipe str 0 8 0) fun got =>
    andThen (some (readLong got.buffer 0)) fun ncmd =>
      andThen (some (readLong got.buffer 4)) fun data =>
        if got.length = 8 then some (.ok ⟨got.pipe, ncmd, data, NO_ERROR⟩)
        else if got.more then
          some (.ok ⟨got.pipe, ncmd, data, ERROR_MORE_DATA⟩)
        else if got.length = 0 then some (.ok ⟨got.pipe, 0, data, NO_ERROR⟩)
        else some (.ok ⟨got.pipe, ncmd, data, -1⟩)

end

end NPipe

namespace NPipe

/-- The data is received whole, and the messages behind it are left, however the
pipe splits reads. -/
def ReceivedAsSent (splits : Nat → Nat) (reads : Nat) (data : List UInt8)
    (rest : List (List UInt8)) (maxlen : Nat) (buffer : List UInt8) : Prop :=
  ∃ sent, sendDataToServer ⟨[], reads⟩ data = .ok (sent, NO_ERROR) ∧
    ∃ got, recvDataFromClient splits
        { sent with messages := sent.messages ++ rest } buffer maxlen = some (.ok got) ∧
      got.rc = NO_ERROR ∧ got.len = data.length ∧
      got.buffer.take data.length = data ∧ got.pipe.messages = rest

/-- Sender and receiver count the same portions. -/
def Agree (n maxlen : Nat) : Prop := maxlen ≤ 0x8000 ∨ 0x8000 < n ∧ maxlen + 0x7fff < 2 ^ 31 ∧
      (n + 0x7fff) / 0x8000 = (maxlen + 0x7fff) / 0x8000

/-- The `i`-th portion of data. -/
def piece (data : List UInt8) (i : Nat) : List UInt8 := (data.drop (0x8000 * i)).take 0x8000

/-- Portions of data, from the `i`-th on. -/
def pieces (data : List UInt8) (i n : Nat) : List (List UInt8) := (List.range' i n).map (piece data)

variable {data : List UInt8} {rest : List (List UInt8)} {maxlen reads : Nat}
  {buffer : List UInt8} {splits : Nat → Nat} {n : Nat}

theorem nraz_eq {len : Nat} (fits : len + 0x7fff < 2 ^ 31) :
    nraz len = .ok ((len + 0x7fff) / 0x8000) := by
  have sum : addInt (len : Int) 0x7fff = .ok ((len : Int) + 0x7fff) := if_pos ⟨by omega, by omega⟩
  rw [nraz, sum, bind_ok, pure_eq_ok]
  congr 1

theorem nraz_of_overflow {len : Nat} (large : 2 ^ 31 ≤ len + 0x7fff) :
    nraz len = .error .overflow := by
  have sum : addInt (len : Int) 0x7fff = .error .overflow := if_neg fun fits => by omega
  rw [nraz, sum, bind_error]

theorem pieces_succ (data : List UInt8) (i n : Nat) :
    pieces data i (n + 1) = piece data i :: pieces data (i + 1) n := by
  rw [pieces, List.range'_succ, List.map_cons, pieces]

theorem piece_last {n : Nat} (count : (data.length + 0x7fff) / 0x8000 = n + 1) :
    (data.drop (0x8000 * n)).take (data.length - 0x8000 * n) = piece data n := by
  have short : (data.drop (0x8000 * n)).length ≤ 0x8000 := by
    rw [List.length_drop]
    omega
  rw [piece, List.take_of_length_le short, ← List.length_drop, List.take_length]

theorem sendPortions_eq (count : (data.length + 0x7fff) / 0x8000 = n)
    {k i : Nat} (all : i + k = n) (pipe : MessagePipe) :
    sendPortions data n k i pipe =
      ({ pipe with messages := pipe.messages ++ pieces data i k }, NO_ERROR) := by
  induction k generalizing i pipe with
  | zero => simp [sendPortions, pieces, NO_ERROR]
  | succ k ih =>
    have here : (data.drop (0x8000 * i)).take
        (if i = n - 1 then data.length - 0x8000 * i else 0x8000) =
        piece data i := by
      split
      · rename_i last
        exact piece_last (by omega)
      · rfl
    rw [sendPortions]
    simp only [here, dosWrite, NO_ERROR, ne_eq, not_true_eq_false, if_false]
    rw [ih (by omega), pieces_succ]
    simp [MessagePipe.write, NO_ERROR]

/-- The number of messages for data of a length. -/
def messageCount (n : Nat) : Nat :=
  if n > 0x8000 then (n + 0x7fff) / 0x8000 else 1

theorem sendDataToServer_eq (fits : data.length ≤ 0x8000 ∨
      data.length + 0x7fff < 2 ^ 31) (reads : Nat) :
    sendDataToServer ⟨[], reads⟩ data =
      .ok (⟨pieces data 0 (messageCount data.length), reads⟩, NO_ERROR) := by
  unfold sendDataToServer messageCount
  by_cases long : data.length > 0x8000
  · rw [if_pos long, if_pos long, sendLongDataToServer,
      nraz_eq (fits.resolve_left (Nat.not_le.mpr long)), bind_ok, pure_eq_ok,
      sendPortions_eq rfl (Nat.zero_add _)]
    rfl
  · have whole : piece data 0 = data := by
      rw [piece, Nat.mul_zero, List.drop_zero, List.take_of_length_le (Nat.not_lt.mp long)]
    rw [if_neg long, if_neg long, pieces_succ, whole]
    rfl

/-- The server has received the first `i` portions of `count`. -/
structure ReceivedTo (data : List UInt8) (rest : List (List UInt8))
    (maxlen count i : Nat) (got : Received) : Prop where
  messages : got.pipe.messages = pieces data i (count - i) ++ rest
  room : got.buffer.length = maxlen
  stored : got.buffer.take (min data.length (0x8000 * i)) = data.take (0x8000 * i)
  len : got.len = min data.length (0x8000 * i)
  rc : got.rc = NO_ERROR

theorem length_piece (data : List UInt8) (i : Nat) :
    (piece data i).length = min 0x8000 (data.length - 0x8000 * i) := by
  rw [piece, List.length_take, List.length_drop]

theorem recvPortion {count i room : Nat} {got : Received}
    (before : ReceivedTo data rest maxlen count i got) (less : i < count)
    (inside : 0x8000 * i ≤ data.length) (fits : data.length ≤ maxlen)
    (enough : (piece data i).length ≤ room) :
    ∃ next, recvMessage splits got.pipe got.buffer (0x8000 * i) room =
        some (.ok next) ∧ next.rc = NO_ERROR ∧
      ReceivedTo data rest maxlen count (i + 1)
        { next with len := got.len + next.len, rc := got.rc } := by
  have length := length_piece data i
  have waits : got.pipe = ⟨piece data i :: (pieces data (i + 1) (count - (i + 1)) ++ rest),
        got.pipe.reads⟩ := by
    have more : count - i = count - (i + 1) + 1 := by omega
    rw [← List.cons_append, ← pieces_succ, ← more, ← before.messages]
  have within : 0x8000 * i + (piece data i).length ≤ got.buffer.length := by
    rw [before.room]
    omega
  obtain ⟨reads', drained⟩ := @MessagePipe.drain_cons splits (piece data i)
    (pieces data (i + 1) (count - (i + 1)) ++ rest) got.pipe.reads room
    (0x8000 * i) 0 got.buffer enough within
  have all : min data.length (0x8000 * i) = 0x8000 * i := by omega
  have next : min data.length (0x8000 * (i + 1)) =
      0x8000 * i + (piece data i).length := by omega
  refine ⟨⟨⟨_, reads'⟩, putBytes got.buffer (0x8000 * i) (piece data i),
    0 + (piece data i).length, NO_ERROR⟩, ?_, rfl, rfl, ?_, ?_, ?_, before.rc⟩
  · rw [recvMessage, waits, drained]
    rfl
  · rw [putBytes_length within]
    exact before.room
  · have stored := before.stored
    rw [all] at stored
    rw [next, take_putBytes within, stored, piece, ← List.take_add]
    rfl
  · change got.len + (0 + (piece data i).length) = _
    rw [before.len, next, all, Nat.zero_add]

theorem recvPortions_pieces {count total : Nat} (fits : data.length ≤ maxlen) (most : count ≤ total)
    (roomy : ∀ i, i < count → 0x8000 * i ≤ data.length ∧ (piece data i).length ≤
      if i = total - 1 then maxlen - 0x8000 * i else 0x8000)
    {k i : Nat} (all : i + k = count) {got : Received}
    (before : ReceivedTo data rest maxlen count i got) :
    ∃ got', ReceivedTo data rest maxlen count count got' ∧
      recvPortions splits maxlen total (total - i) i got =
        recvPortions splits maxlen total (total - count) count got' := by
  induction k generalizing i got with
  | zero =>
    cases all
    exact ⟨got, before, rfl⟩
  | succ k ih =>
    have less : i < count := by omega
    obtain ⟨inside, enough⟩ := roomy i less
    obtain ⟨next, received, done, after⟩ :=
      @recvPortion _ _ _ splits _ _ _ _ before less inside fits enough
    obtain ⟨got', behind, same⟩ := ih (by omega) after
    refine ⟨got', behind, ?_⟩
    rw [← same, show total - i = total - (i + 1) + 1 by omega, recvPortions]
    simp only [received, andThen, done]
    rw [if_neg fun wrong => wrong.2 rfl]

theorem size_of_recvPortions {total : Nat} (roomy : ∀ i, i < total →
      0 < if i = total - 1 then maxlen - 0x8000 * i else 0x8000)
    {k i : Nat} (all : i + k = total) {got got' : Received}
    (returned : recvPortions splits maxlen total k i got = some (.ok got'))
    (some : 0 < k) :
    MessagePipe.size got'.pipe.messages < MessagePipe.size got.pipe.messages := by
  induction k generalizing i got with
  | zero => cases some
  | succ k ih =>
    rw [recvPortions, andThen_eq_ok_iff] at returned
    obtain ⟨next, received, returned⟩ := returned
    rw [recvMessage, andThen_eq_ok_iff] at received
    obtain ⟨drained, taken, received⟩ := received
    have smaller := MessagePipe.size_of_drain (roomy i (by omega)) taken
    have same : next.pipe = drained.pipe := by
      cases received
      rfl
    rw [← same] at smaller
    split at returned
    · cases returned
      exact smaller
    · cases k with
      | zero =>
        cases returned
        exact smaller
      | succ k =>
        exact (ih (by omega) returned (Nat.succ_pos k)).trans smaller

section

variable (fits : data.length ≤ maxlen)

include fits

theorem receivedAsSent_short (short : maxlen ≤ 0x8000) (room : buffer.length = maxlen) :
    ReceivedAsSent splits reads data rest maxlen buffer := by
  have one : messageCount data.length = 1 := if_neg (by omega)
  have whole : pieces data 0 1 = [data] := by
    rw [pieces_succ, piece, Nat.mul_zero, List.drop_zero, List.take_of_length_le (by omega)]
    rfl
  refine ⟨_, sendDataToServer_eq (Or.inl (by omega)) reads, ?_⟩
  rw [one, whole]
  obtain ⟨reads', drained⟩ := @MessagePipe.drain_cons splits data rest reads
    maxlen 0 0 buffer fits (by omega)
  refine ⟨⟨⟨rest, reads'⟩, putBytes buffer 0 data, 0 + data.length, NO_ERROR⟩,
    ?_, rfl, Nat.zero_add _, ?_, rfl⟩
  · rw [recvDataFromClient, if_neg (Nat.not_lt.mpr short), recvMessage,
      List.singleton_append, drained]
    rfl
  · have stored := @take_putBytes buffer data 0 (by omega)
    rw [Nat.zero_add] at stored
    rw [stored, List.take_zero, List.nil_append]

theorem recvDataFromClient_long (long : maxlen > 0x8000) (int : maxlen + 0x7fff < 2 ^ 31)
    (room : buffer.length = maxlen) :
    ∃ got, ReceivedTo data rest maxlen (messageCount data.length) (messageCount data.length) got ∧
      recvDataFromClient splits
        ⟨pieces data 0 (messageCount data.length) ++ rest, reads⟩ buffer maxlen =
        recvPortions splits maxlen ((maxlen + 0x7fff) / 0x8000)
          ((maxlen + 0x7fff) / 0x8000 - messageCount data.length)
          (messageCount data.length) got := by
  have most : messageCount data.length ≤ (maxlen + 0x7fff) / 0x8000 := by
    unfold messageCount
    split
    · exact Nat.div_le_div_right (by omega)
    · omega
  have start : ReceivedTo data rest maxlen (messageCount data.length) 0
      ⟨⟨pieces data 0 (messageCount data.length) ++ rest, reads⟩, buffer, 0, 0⟩ :=
    ⟨rfl, room, by simp, by simp, rfl⟩
  have roomy : ∀ i, i < messageCount data.length →
      0x8000 * i ≤ data.length ∧ (piece data i).length ≤
        if i = (maxlen + 0x7fff) / 0x8000 - 1 then maxlen - 0x8000 * i
        else 0x8000 := by
    intro i less
    rw [length_piece]
    unfold messageCount at less
    split at less
    · refine ⟨by omega, ?_⟩
      split
      · omega
      · omega
    · refine ⟨by omega, ?_⟩
      split
      · omega
      · omega
  obtain ⟨got, behind, same⟩ := @recvPortions_pieces data rest maxlen splits
    (messageCount data.length) ((maxlen + 0x7fff) / 0x8000) fits most roomy
    (messageCount data.length) 0 (Nat.zero_add _) _ start
  refine ⟨got, behind, ?_⟩
  rw [recvDataFromClient, if_pos long, recvLongDataFromClient, nraz_eq int]
  exact same

theorem receivedAsSent_long_iff (long : maxlen > 0x8000) (int : maxlen + 0x7fff < 2 ^ 31)
    (room : buffer.length = maxlen) :
    ReceivedAsSent splits reads data rest maxlen buffer ↔
      messageCount data.length = (maxlen + 0x7fff) / 0x8000 := by
  have sent := @sendDataToServer_eq data (Or.inr (by omega)) reads
  obtain ⟨got, behind, received⟩ := @recvDataFromClient_long data rest maxlen
    reads buffer splits fits long int room
  have left : got.pipe.messages = rest := by
    rw [behind.messages, Nat.sub_self]
    rfl
  have most : data.length ≤ 0x8000 * messageCount data.length := by
    unfold messageCount
    split
    · omega
    · omega
  constructor
  · rintro ⟨sent', equal, got', returned, -, -, -, rest'⟩
    cases sent.symm.trans equal
    rw [received] at returned
    by_contra differ
    have fewer : 0 <
        (maxlen + 0x7fff) / 0x8000 - messageCount data.length := by
      unfold messageCount at differ ⊢
      split at differ
      · rw [if_pos ‹_›]
        have ordered : (data.length + 0x7fff) / 0x8000 ≤
            (maxlen + 0x7fff) / 0x8000 := Nat.div_le_div_right (by omega)
        omega
      · rw [if_neg ‹_›]
        omega
    have smaller := size_of_recvPortions (by
      intro i less
      split
      · omega
      · omega) (by omega) returned fewer
    rw [rest', left] at smaller
    exact absurd smaller (Nat.lt_irrefl _)
  · intro same
    refine ⟨_, sent, got, ?_, behind.rc, ?_, ?_, left⟩
    · rw [received, ← same, Nat.sub_self]
      rfl
    · rw [behind.len]
      exact Nat.min_eq_left most
    · have stored := behind.stored
      rw [Nat.min_eq_left most, List.take_of_length_le most] at stored
      exact stored

theorem receivedAsSent_iff_agree (room : buffer.length = maxlen) :
    ReceivedAsSent splits reads data rest maxlen buffer ↔
      Agree data.length maxlen := by
  unfold Agree
  by_cases long : maxlen > 0x8000
  · by_cases int : maxlen + 0x7fff < 2 ^ 31
    · rw [receivedAsSent_long_iff fits long int room]
      unfold messageCount
      split
      · omega
      · omega
    · refine iff_of_false ?_ (by omega)
      rintro ⟨sent, -, got, returned, -⟩
      rw [recvDataFromClient, if_pos long, recvLongDataFromClient,
        nraz_of_overflow (Nat.not_lt.mp int)] at returned
      cases returned
  · have short := Nat.not_lt.mp long
    exact iff_of_true (receivedAsSent_short fits short room) (Or.inl short)

end

theorem recvCmd_sendCmd (ncmd cmdData : UInt32) {str : List UInt8} (room : str.length = 32) :
    ∃ reads', recvCmdFromClient splits
        { (sendCmdToServer ⟨[], reads⟩ ncmd cmdData).1 with
          messages := (sendCmdToServer ⟨[], reads⟩ ncmd cmdData).1.messages ++ rest } str =
      some (.ok ⟨⟨rest, reads'⟩, ncmd, cmdData, NO_ERROR⟩) := by
  have eight : (longBytes ncmd ++ longBytes cmdData).length = 8 := rfl
  obtain ⟨reads', drained⟩ := @MessagePipe.drain_cons splits
    (longBytes ncmd ++ longBytes cmdData) rest reads 8 0 0 str (Nat.le_refl 8)
    (by omega)
  have first : RestAt (putBytes str 0 (longBytes ncmd ++ longBytes cmdData)) 0
      (longBytes ncmd ++ (longBytes cmdData ++ str.drop 8)) := by
    refine ⟨[], ?_, rfl⟩
    simp [putBytes]
  refine ⟨reads', ?_⟩
  change andThen (MessagePipe.drain splits
    ⟨(longBytes ncmd ++ longBytes cmdData) :: rest, reads⟩ str 0 8 0) _ = _
  rw [drained]
  have second := first.skip
  simp only [andThen, first.readLong]
  rw [show readLong (putBytes str 0 (longBytes ncmd ++ longBytes cmdData)) 4 =
    .ok cmdData from second.readLong]
  rfl

/-- Data is received as it was sent exactly if sender and receiver count the same
portions; a command always is. -/
theorem sent_is_received (splits : Nat → Nat) (reads : Nat)
    (data : List UInt8) (rest : List (List UInt8)) (maxlen : Nat)
    (buffer : List UInt8) (fits : data.length ≤ maxlen)
    (room : buffer.length = maxlen) :
    (ReceivedAsSent splits reads data rest maxlen buffer ↔ Agree data.length maxlen) ∧
      ∀ ncmd cmdData str, str.length = 32 →
        (sendCmdToServer ⟨[], reads⟩ ncmd cmdData).2 = NO_ERROR ∧ ∃ reads', recvCmdFromClient splits
            { (sendCmdToServer ⟨[], reads⟩ ncmd cmdData).1 with
              messages := (sendCmdToServer ⟨[], reads⟩ ncmd cmdData).1.messages ++ rest }
            str = some (.ok ⟨⟨rest, reads'⟩, ncmd, cmdData, NO_ERROR⟩) :=
  ⟨receivedAsSent_iff_agree fits room, fun ncmd cmdData _ long =>
    ⟨rfl, recvCmd_sendCmd ncmd cmdData long⟩⟩

/-- A message that is read byte by byte. -/
theorem sent_is_received_byte_by_byte :
    ReceivedAsSent (fun _ => 0) 0 [1, 2, 3] [[9]] 4 [0, 0, 0, 0] :=
  (sent_is_received (fun _ => 0) 0 [1, 2, 3] [[9]] 4 [0, 0, 0, 0] (by decide)
    rfl).1.mpr (Or.inl (by decide))

/-- With room for more than one portion, the message behind is read as well. -/
theorem short_data_takes_following : ¬ ReceivedAsSent (fun _ => 0x8000) 0 [7] [[9]] 0x8001
      (List.replicate 0x8001 0) := by
  rw [receivedAsSent_iff_agree (by decide) List.length_replicate]
  rintro (short | ⟨long, -⟩)
  · exact absurd short (by decide)
  · exact absurd long (by decide)

end NPipe

end OsFree.Pm
