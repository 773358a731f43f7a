import OsFree.Machine.CString

/-!
# Lengths and copies of string lists

The arguments and the environment of a program are lists of strings.  One
function counts the bytes of a list, and another one copies it.
-/

namespace OsFree.Os2srv

open Machine

/-- Count the bytes of the strings from a pointer on. -/
def strlstlenLoop : Nat → List UInt8 → Int → Run Int
  | 0, _, _ => .error .readOutside
  | _ + 1, [], _ => .error .readOutside
  | fuel + 1, byte :: rest, len =>
    if byte = 0 then addInt len 1
    else do
      let l ← strlen (byte :: rest)
      let len ← addInt len (l + 1)
      strlstlenLoop fuel ((byte :: rest).drop (l + 1)) len

/-- The number of bytes of a list.  A null pointer is `none`. -/
def strlstlen : Option (List UInt8) → Run Int
  | none => .ok 2
  | some [] => .error .readOutside
  | some (byte :: rest) =>
    if byte = 0 then .ok 2
    else strlstlenLoop (rest.length + 2) (byte :: rest) 0

/-- Copy the strings from a pointer on, behind what has been copied. -/
def strlstcpyLoop : Nat → List UInt8 → List UInt8 → Int → Run (Int × List UInt8)
  | 0, _, _, _ => .error .readOutside
  | _ + 1, [], _, _ => .error .readOutside
  | fuel + 1, byte :: rest, copied, len =>
    if byte = 0 then (·, copied ++ [0]) <$> addInt len 1
    else do
      let l ← strlen (byte :: rest)
      let len ← addInt len (l + 1)
      strlstcpyLoop fuel ((byte :: rest).drop (l + 1)) (copied ++ (byte :: rest).take (l + 1)) len

/-- Copy a list: the number of bytes, and the bytes that are stored. -/
def strlstcpy (s2 : List UInt8) : Run (Int × List UInt8) := strlstcpyLoop (s2.length + 1) s2 [] 0

theorem addInt_addInt {len first second : Int} (start : 0 ≤ len)
    (nonneg : 0 ≤ first) (nonneg' : 0 ≤ second) :
    (addInt len first >>= fun sum => addInt sum second) =
      addInt len (first + second) := by
  by_cases fits : len + first < 2147483648
  · rw [addInt, if_pos (by omega), bind_ok, addInt, addInt, Int.add_assoc]
  · rw [addInt, if_neg (by omega), addInt, if_neg (by omega)]
    rfl

theorem map_addInt {α : Type} {f : Int → α} {len first second : Int}
    (start : 0 ≤ len) (nonneg : 0 ≤ first) (nonneg' : 0 ≤ second) :
    (addInt len first >>= fun sum => f <$> addInt sum second) =
      f <$> addInt len (first + second) := by
  rw [← addInt_addInt start nonneg nonneg']
  cases addInt len first with
  | ok sum => rfl
  | error fault => rfl

theorem strlstlenLoop_eq (fuel : Nat) (bytes copied : List UInt8) (len : Int) :
    strlstlenLoop fuel bytes len = Prod.fst <$> strlstcpyLoop fuel bytes copied len := by
  induction fuel generalizing bytes copied len with
  | zero => rfl
  | succ fuel ih =>
    cases bytes with
    | nil => rfl
    | cons byte bytes =>
      rw [strlstlenLoop, strlstcpyLoop]
      split
      · cases addInt len 1 <;> rfl
      · cases strlen (byte :: bytes) with
        | error fault => rfl
        | ok l =>
          simp only [bind_ok]
          cases addInt len (l + 1) with
          | error fault => rfl
          | ok len => exact ih ..

section

variable {string : List UInt8} {strings : List (List UInt8)}

theorem exists_encodeStrings_cons (nonempty : string ≠ []) (nonzero : 0 ∉ string)
    (rest : List UInt8) :
    ∃ byte bytes, byte ≠ 0 ∧ string.head? = some byte ∧
      encodeStrings (string :: strings) ++ rest = byte :: bytes ∧
      strlen (byte :: bytes) = .ok string.length ∧
      (byte :: bytes).take (string.length + 1) = string ++ [0] ∧
      (byte :: bytes).drop (string.length + 1) = encodeStrings strings ++ rest := by
  obtain ⟨byte, text, rfl⟩ := List.exists_cons_of_ne_nil nonempty
  have equal : encodeStrings ((byte :: text) :: strings) ++ rest =
      (byte :: text) ++ 0 :: (encodeStrings strings ++ rest) := by
    simp [encodeStrings_cons]
  refine ⟨byte, text ++ 0 :: (encodeStrings strings ++ rest), ?_, rfl, equal,
    strlen_of_ends nonzero, ?_, ?_⟩
  · rintro rfl
    exact nonzero (List.mem_cons_self ..)
  · rw [← List.cons_append, List.take_append, List.take_of_length_le (Nat.le_succ _)]
    simp
  · rw [← List.cons_append, List.drop_append]
    simp

variable (nonempty : ∀ string ∈ strings, string ≠ [])
  (nonzero : ∀ string ∈ strings, 0 ∉ string) (rest : List UInt8)

include nonempty nonzero

theorem strlstcpyLoop_encode {fuel : Nat} {copied : List UInt8} {len : Int}
    (start : 0 ≤ len) (enough : (encodeStrings strings).length ≤ fuel) :
    strlstcpyLoop fuel (encodeStrings strings ++ rest) copied len =
      (·, copied ++ encodeStrings strings) <$>
        addInt len (encodeStrings strings).length := by
  induction strings generalizing fuel copied len with
  | nil =>
    cases fuel with
    | zero => simp at enough
    | succ fuel => rfl
  | cons string strings ih =>
    cases fuel with
    | zero => simp [encodeStrings_cons] at enough
    | succ fuel =>
      obtain ⟨byte, bytes, different, -, equal, length, taken, following⟩ :=
        exists_encodeStrings_cons (nonempty string (List.mem_cons_self ..))
          (nonzero string (List.mem_cons_self ..)) rest
      have shorter : (encodeStrings strings).length ≤ fuel := by
        simp only [encodeStrings_cons, List.length_append, List.length_cons] at enough
        omega
      have goes : ∀ sum : Int, 0 ≤ sum → strlstcpyLoop fuel (encodeStrings strings ++ rest)
              (copied ++ (string ++ [0])) sum =
            (·, copied ++ (string ++ [0]) ++ encodeStrings strings) <$>
              addInt sum (encodeStrings strings).length := fun sum least =>
        ih (fun other member => nonempty other (List.mem_cons_of_mem _ member))
          (fun other member => nonzero other (List.mem_cons_of_mem _ member))
          least shorter
      rw [equal, strlstcpyLoop, if_neg different, length, bind_ok, taken, following]
      trans addInt len (string.length + 1) >>= fun sum =>
        (·, copied ++ (string ++ [0]) ++ encodeStrings strings) <$>
          addInt sum (encodeStrings strings).length
      · cases added : addInt len (string.length + 1) with
        | error fault => rfl
        | ok sum =>
          rw [bind_ok, bind_ok, goes]
          rw [addInt_eq_ok_iff] at added
          omega
      · rw [map_addInt start (by omega) (by omega), encodeStrings_cons,
          List.length_append, List.length_cons]
        congr 2
        · simp
        · push_cast
          omega

theorem strlstlenLoop_encode {fuel : Nat} {len : Int} (start : 0 ≤ len)
    (enough : (encodeStrings strings).length ≤ fuel) :
    strlstlenLoop fuel (encodeStrings strings ++ rest) len =
      addInt len (encodeStrings strings).length := by
  rw [strlstlenLoop_eq fuel _ [], strlstcpyLoop_encode nonempty nonzero rest start enough]
  cases addInt len (encodeStrings strings).length <;> rfl

end

/-- What is allowed for the bytes of a list: the empty one counts two. -/
def listSize (list : StringList) : Nat :=
  if list.strings = [] then 2 else list.encode.length

theorem length_encode_le_listSize (list : StringList) :
    list.encode.length ≤ listSize list := by
  unfold listSize
  split
  · rename_i none
    simp [StringList.encode, none]
  · exact Nat.le_refl _

theorem strlstlen_encode (list : StringList) (rest : List UInt8) :
    strlstlen (some (list.encode ++ rest)) = addInt 0 (listSize list) := by
  obtain ⟨strings, nonempty, nonzero⟩ := list
  unfold listSize StringList.encode
  cases strings with
  | nil => simp [strlstlen, addInt]
  | cons string strings =>
    obtain ⟨byte, bytes, different, -, equal, -⟩ :=
      @exists_encodeStrings_cons _ strings (nonempty string (List.mem_cons_self ..))
        (nonzero string (List.mem_cons_self ..)) rest
    have length := congrArg List.length equal
    simp only [List.length_append, List.length_cons] at length
    rw [equal, strlstlen, if_neg different, ← equal,
      strlstlenLoop_encode nonempty nonzero rest (Int.le_refl 0) (by omega),
      if_neg (List.cons_ne_nil _ _)]

theorem strlstcpy_encode (list : StringList) (rest : List UInt8) : strlstcpy (list.encode ++ rest) =
      (·, list.encode) <$> addInt 0 list.encode.length := by
  have enough : (encodeStrings list.strings).length ≤
      (encodeStrings list.strings ++ rest).length + 1 := by
    rw [List.length_append]
    omega
  exact @strlstcpyLoop_encode _ list.nonempty list.nonzero rest _ [] _ (Int.le_refl 0) enough

/-- Counting a list and copying it agree: the copy has as many bytes as are
counted, in the list and in the copy. -/
def HelpersAgree (list : StringList) (rest : List UInt8) : Prop :=
  ∃ len copied, strlstlen (some (list.encode ++ rest)) = .ok len ∧
    strlstcpy (list.encode ++ rest) = .ok (len, copied) ∧ copied.length = len ∧
    strlstlen (some copied) = .ok len

theorem helpersAgree_iff (list : StringList) (rest : List UInt8) : HelpersAgree list rest ↔
      list.strings ≠ [] ∧ list.encode.length < 2147483648 := by
  have whole := strlstlen_encode list []
  rw [List.append_nil] at whole
  unfold HelpersAgree
  simp only [strlstlen_encode, strlstcpy_encode, map_eq_ok_iff, addInt_eq_ok_iff, Prod.mk.injEq]
  constructor
  · rintro ⟨len, copied, ⟨counted, -, small⟩, ⟨value, ⟨equal, -, -⟩, rfl, rfl⟩, -, -⟩
    have same : list.encode.length = listSize list := by omega
    refine ⟨?_, by omega⟩
    intro none
    simp [listSize, StringList.encode, none] at same
  · rintro ⟨some, small⟩
    have same : listSize list = list.encode.length := if_neg some
    refine ⟨list.encode.length, list.encode, by omega,
      ⟨_, ⟨rfl, by omega, by omega⟩, by omega, rfl⟩, rfl, ?_⟩
    rw [whole, addInt_eq_ok_iff]
    omega

/-!
## Process information blocks

The block of a process is made in memory of its own.  The environment, the name
of the program and its arguments follow the fields of the block.
-/

/-- `sizeof(PIB)`. -/
def PIB_SIZE : Nat := 28

/-- The offset of `pib_pchcmd`. -/
def PIB_PCHCMD : Nat := 12

/-- The offset of `pib_pchenv`. -/
def PIB_PCHENV : Nat := 16

/-- What `alloc_mem` returns: an address, and the bytes that happen to be there. -/
structure Fresh where
  addr : UInt32
  contents : Nat → UInt8

/-- The lengths of the strings, and the size of the block. -/
structure PibLengths where
  len1 : Int
  len2 : Int
  len3 : Int
  len4 : Int
  size : Int
  deriving DecidableEq

/-- The sizes of the environment and of the name, and of two strings of the
arguments. -/
def pibLengths (prg arg env : List UInt8) : Run PibLengths := do
  let len1 ← strlstlen (some env)
  let size ← addInt PIB_SIZE len1
  let prgLength ← strlen prg
  let len2 ← addInt prgLength 1
  let size ← addInt size len2
  let argLength ← strlen arg
  let len3 ← addInt argLength 1
  let lastLength ← strlen (arg.drop len3.toNat)
  let len4 ← addInt lastLength 1
  let both ← addInt len3 len4
  let size ← addInt size both
  pure { len1, len2, len3, len4, size }

/-- The strings and the pointers to them are stored in the block. -/
def pibFill (fresh : Fresh) (lengths : PibLengths)
    (prg arg env : List UInt8) : Run (List UInt8) := do
  let block := (List.range lengths.size.toNat).map fresh.contents
  let s1 := PIB_SIZE
  let env ← strlstcpy env
  let block ← writeBytes block s1 env.2
  let s2 := s1 + lengths.len1.toNat
  let block ← writeBytes block s2 (prg.take lengths.len2.toNat)
  let s3 := s2 + lengths.len2.toNat
  let arg ← strlstcpy arg
  let block ← writeBytes block s3 arg.2
  let block ← writeLong block PIB_PCHENV (fresh.addr + UInt32.ofNat s1)
  writeLong block PIB_PCHCMD (fresh.addr + UInt32.ofNat s3)

/-- Make the block of a process.  Without memory for it the strings are stored
at a null pointer. -/
def prcCreatePIB (alloc : Option Fresh) (prg arg env : List UInt8) :
    Run (UInt32 × List UInt8) := do
  let lengths ← pibLengths prg arg env
  match alloc with
  | none => .error .nullPointer
  | some fresh => (fresh.addr, ·) <$> pibFill fresh lengths prg arg env

/-- The strings for a program, and what follows them in memory. -/
structure PibArgs where
  prg : List UInt8
  arg : StringList
  env : StringList
  behindPrg : List UInt8
  behindArg : List UInt8
  behindEnv : List UInt8
  nonzero : 0 ∉ prg

namespace PibArgs

variable (args : PibArgs)

/-- Make the block for these strings. -/
def create (alloc : Option Fresh) : Run (UInt32 × List UInt8) :=
  prcCreatePIB alloc (args.prg ++ 0 :: args.behindPrg)
    (args.arg.encode ++ args.behindArg) (args.env.encode ++ args.behindEnv)

/-- The strings are read back from the pointers in the block.  The name of the
program follows the environment, and the arguments are behind both. -/
structure ReadBack (addr : UInt32) (block : List UInt8) : Prop where
  environment : ∃ pchenv, readLong block PIB_PCHENV = .ok pchenv ∧
    readStrings (block.drop (pchenv - addr).toNat) = .ok args.env.strings ∧
    ∃ len, strlstlen (some (block.drop (pchenv - addr).toNat)) = .ok len ∧
      readString (block.drop ((pchenv - addr).toNat + len.toNat)) = .ok args.prg
  arguments : ∃ pchcmd, readLong block PIB_PCHCMD = .ok pchcmd ∧
    readStrings (block.drop (pchcmd - addr).toNat) = .ok args.arg.strings
  apart : ∃ pchenv pchcmd len, readLong block PIB_PCHENV = .ok pchenv ∧
    readLong block PIB_PCHCMD = .ok pchcmd ∧
    strlstlen (some (block.drop (pchenv - addr).toNat)) = .ok len ∧
    (pchenv - addr).toNat + len.toNat + args.prg.length < (pchcmd - addr).toNat

/-- The block is made within its memory and holds the strings. -/
def Fits (alloc : Option Fresh) : Prop :=
  ∃ addr block, args.create alloc = .ok (addr, block) ∧ args.ReadBack addr block

/-- The bytes that the second string of the arguments is taken to have, which is
behind the arguments if there are none. -/
def lastLength : Nat :=
  match args.arg.strings with
  | [] => (args.behindArg.takeWhile (· ≠ 0)).length
  | _ :: rest => (rest.headD []).length

/-- The size of the block. -/
def size : Nat := PIB_SIZE + listSize args.env + (args.prg.length + 1) +
    ((args.arg.strings.headD []).length + 1 + (args.lastLength + 1))

/-- What is counted for these strings. -/
def lengths : PibLengths where
  len1 := listSize args.env
  len2 := args.prg.length + 1
  len3 := (args.arg.strings.headD []).length + 1
  len4 := args.lastLength + 1
  size := args.size

variable {args}

theorem strlen_prg : strlen (args.prg ++ 0 :: args.behindPrg) = .ok args.prg.length :=
  strlen_of_ends args.nonzero

theorem strlen_encodeStrings {strings : List (List UInt8)}
    (nonzero : ∀ string ∈ strings, 0 ∉ string) (rest : List UInt8) :
    strlen (encodeStrings strings ++ rest) =
      .ok (strings.headD []).length := by
  cases strings with
  | nil => rfl
  | cons string strings =>
    rw [encodeStrings_cons, List.append_assoc, List.cons_append]
    exact strlen_of_ends (nonzero string (List.mem_cons_self ..))

theorem strlen_last_eq_ok_iff {count : Nat} : strlen ((args.arg.encode ++ args.behindArg).drop
        ((args.arg.strings.headD []).length + 1)) = .ok count ↔
      (args.arg.strings = [] → 0 ∈ args.behindArg) ∧
        count = args.lastLength := by
  unfold StringList.encode lastLength
  have nonzero := args.arg.nonzero
  cases equal : args.arg.strings with
  | nil => simp [strlen_eq_ok_iff]
  | cons string strings =>
    rw [equal] at nonzero
    have following : (encodeStrings (string :: strings) ++
        args.behindArg).drop (string.length + 1) =
          encodeStrings strings ++ args.behindArg := by
      simp [encodeStrings_cons]
    rw [List.headD_cons, following, strlen_encodeStrings fun other member =>
      nonzero other (List.mem_cons_of_mem _ member)]
    simp [eq_comm]

theorem pibLengths_eq_ok_iff {result : PibLengths} :
    pibLengths (args.prg ++ 0 :: args.behindPrg) (args.arg.encode ++ args.behindArg)
        (args.env.encode ++ args.behindEnv) = .ok result ↔
      (args.arg.strings = [] → 0 ∈ args.behindArg) ∧
        args.size < 2147483648 ∧ result = args.lengths := by
  have counted := strlstlen_encode args.env args.behindEnv
  have named := @strlen_prg args
  have first : strlen (args.arg.encode ++ args.behindArg) =
      .ok (args.arg.strings.headD []).length :=
    strlen_encodeStrings args.arg.nonzero args.behindArg
  rw [pibLengths, counted, named, first]
  constructor
  · intro returned
    obtain ⟨len1, added1, returned⟩ := bind_eq_ok_iff.mp returned
    obtain ⟨size1, sum1, returned⟩ := bind_eq_ok_iff.mp returned
    rw [bind_ok] at returned
    obtain ⟨len2, added2, returned⟩ := bind_eq_ok_iff.mp returned
    obtain ⟨size2, sum2, returned⟩ := bind_eq_ok_iff.mp returned
    rw [bind_ok] at returned
    obtain ⟨len3, added3, returned⟩ := bind_eq_ok_iff.mp returned
    obtain ⟨last, length, returned⟩ := bind_eq_ok_iff.mp returned
    obtain ⟨len4, added4, returned⟩ := bind_eq_ok_iff.mp returned
    obtain ⟨both, added, returned⟩ := bind_eq_ok_iff.mp returned
    obtain ⟨size, sum, returned⟩ := bind_eq_ok_iff.mp returned
    rw [addInt_eq_ok_iff] at added1 sum1 added2 sum2 added3 added4 added sum
    have step : len3.toNat = (args.arg.strings.headD []).length + 1 := by omega
    rw [step, strlen_last_eq_ok_iff] at length
    have total : size = args.size := by
      unfold PibArgs.size
      omega
    refine ⟨length.1, by omega, ?_⟩
    rw [pure_eq_ok, Except.ok.injEq] at returned
    rw [← returned, lengths, PibLengths.mk.injEq]
    omega
  · rintro ⟨ends, small, rfl⟩
    have parts : (args.size : Int) = PIB_SIZE + listSize args.env +
        (args.prg.length + 1) + ((args.arg.strings.headD []).length + 1 +
          (args.lastLength + 1)) := by
      unfold PibArgs.size
      omega
    have last := strlen_last_eq_ok_iff.mpr ⟨ends, rfl⟩
    have ok : ∀ left right : Int, 0 ≤ left → 0 ≤ right →
        left + right ≤ args.size → addInt left right = .ok (left + right) := by
      intro left right start nonneg most
      rw [addInt_eq_ok_iff]
      omega
    have skip : ((args.arg.strings.headD []).length + 1 : Int).toNat =
        (args.arg.strings.headD []).length + 1 := by omega
    rw [ok 0 _ (by omega) (by omega) (by omega), bind_ok,
      ok _ _ (by omega) (by omega) (by omega), bind_ok, bind_ok,
      ok args.prg.length 1 (by omega) (by omega) (by omega), bind_ok,
      ok _ _ (by omega) (by omega) (by omega), bind_ok, bind_ok,
      ok (args.arg.strings.headD []).length 1 (by omega) (by omega) (by omega),
      bind_ok, skip, last, bind_ok,
      ok args.lastLength 1 (by omega) (by omega) (by omega), bind_ok,
      ok _ _ (by omega) (by omega) (by omega), bind_ok,
      ok _ _ (by omega) (by omega) (by omega), bind_ok, pure_eq_ok, lengths,
      Except.ok.injEq, PibLengths.mk.injEq]
    omega

theorem encode_arg_le_iff : args.arg.encode.length ≤ (args.arg.strings.headD []).length + 1 +
        (args.lastLength + 1) ↔ args.arg.strings.length ≤ 1 := by
  unfold lastLength StringList.encode
  match args.arg.strings with
  | [] => simp
  | [string] => simp [encodeStrings_cons]
  | string :: next :: rest =>
    have more := length_encodeStrings_pos rest
    simp only [encodeStrings_cons, List.length_append, List.length_cons, List.headD_cons]
    omega

variable {fresh : Fresh}

theorem pibFill_eq_ok_iff (small : args.size < 2147483648) {block : List UInt8} :
    pibFill fresh args.lengths (args.prg ++ 0 :: args.behindPrg) (args.arg.encode ++ args.behindArg)
        (args.env.encode ++ args.behindEnv) = .ok block ↔
      args.arg.strings.length ≤ 1 ∧ block = putBytes (putBytes (putBytes (putBytes (putBytes
          ((List.range args.size).map fresh.contents)
          PIB_SIZE args.env.encode)
          (PIB_SIZE + listSize args.env) (args.prg ++ [0]))
          (PIB_SIZE + listSize args.env + (args.prg.length + 1)) args.arg.encode)
          PIB_PCHENV (longBytes (fresh.addr + UInt32.ofNat PIB_SIZE)))
          PIB_PCHCMD (longBytes (fresh.addr + UInt32.ofNat
            (PIB_SIZE + listSize args.env + (args.prg.length + 1)))) := by
  have contents : ((List.range args.size).map fresh.contents).length =
      args.size := by
    simp
  have start : PIB_SIZE = 28 ∧ PIB_PCHCMD = 12 ∧ PIB_PCHENV = 16 := ⟨rfl, rfl, rfl⟩
  have named : (args.prg ++ 0 :: args.behindPrg).take (args.prg.length + 1) =
      args.prg ++ [0] := by
    rw [List.take_append, List.take_of_length_le (Nat.le_succ _)]
    simp
  have envFits := length_encode_le_listSize args.env
  have total : args.size = PIB_SIZE + listSize args.env +
      (args.prg.length + 1) + ((args.arg.strings.headD []).length + 1 +
        (args.lastLength + 1)) := rfl
  have prgLength : (args.prg ++ [0]).length = args.prg.length + 1 := by simp
  have room := @encode_arg_le_iff args
  -- the blocks after the three copies
  let block1 := putBytes ((List.range args.size).map fresh.contents) PIB_SIZE args.env.encode
  have length1 : block1.length = args.size := by
    rw [putBytes_length (by omega), contents]
  let block2 := putBytes block1 (PIB_SIZE + listSize args.env) (args.prg ++ [0])
  have length2 : block2.length = args.size := by
    rw [putBytes_length (by omega), length1]
  let block3 := putBytes block2
    (PIB_SIZE + listSize args.env + (args.prg.length + 1)) args.arg.encode
  have copies : pibFill fresh args.lengths (args.prg ++ 0 :: args.behindPrg)
      (args.arg.encode ++ args.behindArg) (args.env.encode ++ args.behindEnv) = (do
          let arg ← strlstcpy (args.arg.encode ++ args.behindArg)
          let block ← writeBytes block2 (PIB_SIZE + listSize args.env + (args.prg.length + 1)) arg.2
          let block ← writeLong block PIB_PCHENV (fresh.addr + UInt32.ofNat PIB_SIZE)
          writeLong block PIB_PCHCMD (fresh.addr + UInt32.ofNat
            (PIB_SIZE + listSize args.env + (args.prg.length + 1)))) := by
    have counted : addInt 0 args.env.encode.length = .ok (args.env.encode.length : Int) := by
      rw [addInt_eq_ok_iff]
      omega
    have second : (args.prg.length + 1 : Int).toNat = args.prg.length + 1 := by
      omega
    rw [pibFill, strlstcpy_encode, counted, map_ok, bind_ok]
    simp only [lengths, Int.toNat_natCast, second, named]
    rw [writeBytes_eq_ok_iff.mpr ⟨by omega, rfl⟩, bind_ok,
      writeBytes_eq_ok_iff.mpr ⟨by rw [length1]; omega, rfl⟩, bind_ok]
  rw [copies, strlstcpy_encode]
  constructor
  · intro returned
    obtain ⟨copy, copied, returned⟩ := bind_eq_ok_iff.mp returned
    obtain ⟨count, -, rfl⟩ := map_eq_ok_iff.mp copied
    obtain ⟨filled, written, returned⟩ := bind_eq_ok_iff.mp returned
    obtain ⟨fits, rfl⟩ := writeBytes_eq_ok_iff.mp written
    obtain ⟨linked, written, returned⟩ := bind_eq_ok_iff.mp returned
    obtain ⟨-, rfl⟩ := writeLong_eq_ok_iff.mp written
    obtain ⟨-, rfl⟩ := writeLong_eq_ok_iff.mp returned
    refine ⟨room.mp ?_, rfl⟩
    change _ + args.arg.encode.length ≤ _ at fits
    omega
  · rintro ⟨few, rfl⟩
    have counted : addInt 0 args.arg.encode.length = .ok (args.arg.encode.length : Int) := by
      rw [addInt_eq_ok_iff]
      omega
    have length3 : block3.length = args.size := by
      rw [putBytes_length (by omega), length2]
    have length4 : (putLong block3 PIB_PCHENV
        (fresh.addr + UInt32.ofNat PIB_SIZE)).length = args.size := by
      rw [putLong_length (by unfold Inside; omega), length3]
    have stored3 : writeBytes block2 (PIB_SIZE + listSize args.env + (args.prg.length + 1))
          args.arg.encode = .ok block3 :=
      writeBytes_eq_ok_iff.mpr ⟨by omega, rfl⟩
    have stored4 : writeLong block3 PIB_PCHENV
        (fresh.addr + UInt32.ofNat PIB_SIZE) = .ok (putLong block3 PIB_PCHENV
          (fresh.addr + UInt32.ofNat PIB_SIZE)) :=
      writeLong_eq_ok_iff.mpr ⟨by unfold Inside; omega, rfl⟩
    rw [counted, map_ok, bind_ok, stored3, bind_ok, stored4, bind_ok,
      writeLong_eq_ok_iff.mpr ⟨by unfold Inside; omega, rfl⟩]
    rfl

theorem toNat_add_sub (addr : UInt32) {offset : Nat} (small : offset < 4294967296) :
    (addr + UInt32.ofNat offset - addr).toNat = offset := by
  rw [UInt32.add_comm, UInt32.add_sub_cancel, UInt32.toNat_ofNat']
  omega

/-- Where the pointers of a block lead, and what is there. -/
structure Laid (args : PibArgs) (addr : UInt32) (block : List UInt8) : Prop where
  pchenv : readLong block PIB_PCHENV = .ok (addr + UInt32.ofNat PIB_SIZE)
  pchcmd : readLong block PIB_PCHCMD = .ok (addr + UInt32.ofNat
    (PIB_SIZE + listSize args.env + (args.prg.length + 1)))
  environment : ∃ rest, block.drop PIB_SIZE = args.env.encode ++ rest
  program : ∃ rest, block.drop (PIB_SIZE + listSize args.env) = (args.prg ++ [0]) ++ rest
  arguments : ∃ rest, block.drop
    (PIB_SIZE + listSize args.env + (args.prg.length + 1)) = args.arg.encode ++ rest
  small : PIB_SIZE + listSize args.env + (args.prg.length + 1) < 2147483648

theorem laid_of_fill (small : args.size < 2147483648) {block : List UInt8}
    (filled : pibFill fresh args.lengths (args.prg ++ 0 :: args.behindPrg)
        (args.arg.encode ++ args.behindArg)
        (args.env.encode ++ args.behindEnv) = .ok block) :
    args.Laid fresh.addr block := by
  obtain ⟨few, rfl⟩ := (pibFill_eq_ok_iff small).mp filled
  have room := encode_arg_le_iff.mpr few
  have envFits := length_encode_le_listSize args.env
  have total : args.size = PIB_SIZE + listSize args.env +
      (args.prg.length + 1) + ((args.arg.strings.headD []).length + 1 +
        (args.lastLength + 1)) := rfl
  have start : PIB_SIZE = 28 ∧ PIB_PCHCMD = 12 ∧ PIB_PCHENV = 16 := ⟨rfl, rfl, rfl⟩
  have prgLength : (args.prg ++ [0]).length = args.prg.length + 1 := by simp
  have less : PIB_SIZE + listSize args.env + (args.prg.length + 1) <
      2147483648 := by omega
  generalize fresh.addr = addr
  let parts : List Part := [(PIB_SIZE, args.env.encode),
    (PIB_SIZE + listSize args.env, args.prg ++ [0]),
    (PIB_SIZE + listSize args.env + (args.prg.length + 1), args.arg.encode),
    (PIB_PCHENV, longBytes (addr + UInt32.ofNat PIB_SIZE)),
    (PIB_PCHCMD, longBytes (addr + UInt32.ofNat
      (PIB_SIZE + listSize args.env + (args.prg.length + 1))))]
  have inside : ∀ part ∈ parts, part.stop ≤
      ((List.range args.size).map fresh.contents).length := by
    simp only [parts, List.forall_mem_cons, Part.stop, longBytes_length,
      List.length_map, List.length_range]
    refine ⟨?_, ?_, ?_, ?_, ?_, by simp⟩ <;> omega
  have apart : parts.Pairwise Part.Apart := by
    simp only [parts, List.pairwise_cons, List.forall_mem_cons, Part.Apart,
      Part.stop, longBytes_length]
    simp only [List.not_mem_nil, false_imp_iff, implies_true, and_true, List.Pairwise.nil]
    omega
  have held := forall_contains_putAll inside apart
  change args.Laid addr (putAll _ parts)
  simp only [parts, List.forall_mem_cons] at held
  obtain ⟨held1, held2, held3, pointer1, pointer2, -⟩ := held
  exact ⟨pointer1.readLong, pointer2.readLong, held1.drop_eq, held2.drop_eq, held3.drop_eq, less⟩

theorem Laid.readBack {addr : UInt32} {block : List UInt8}
    (laid : args.Laid addr block) : args.ReadBack addr block := by
  have less := laid.small
  have back1 := toNat_add_sub addr (show PIB_SIZE < 4294967296 by omega)
  have back3 := toNat_add_sub addr
    (show PIB_SIZE + listSize args.env + (args.prg.length + 1) < 4294967296 by omega)
  obtain ⟨behind1, rest1⟩ := laid.environment
  obtain ⟨behind2, rest2⟩ := laid.program
  obtain ⟨behind3, rest3⟩ := laid.arguments
  have counted : strlstlen (some (block.drop PIB_SIZE)) = .ok (listSize args.env : Int) := by
    rw [rest1, strlstlen_encode, addInt_eq_ok_iff]
    omega
  refine ⟨⟨_, laid.pchenv, ?_, listSize args.env, ?_, ?_⟩, ⟨_, laid.pchcmd, ?_⟩,
    ⟨_, _, listSize args.env, laid.pchenv, laid.pchcmd, ?_, ?_⟩⟩
  · rw [back1, rest1, readStrings_encode]
  · rw [back1, counted]
  · rw [back1, Int.toNat_natCast, rest2, List.append_assoc]
    exact readString_of_ends args.nonzero
  · rw [back3, rest3, readStrings_encode]
  · rw [back1, counted]
  · rw [back1, back3, Int.toNat_natCast]
    omega

theorem laid_of_create {alloc : Option Fresh} {addr : UInt32}
    {block : List UInt8} (made : args.create alloc = .ok (addr, block)) :
    args.Laid addr block := by
  obtain ⟨lengths, counted, made⟩ := bind_eq_ok_iff.mp made
  obtain ⟨-, small, rfl⟩ := pibLengths_eq_ok_iff.mp counted
  cases alloc with
  | none => cases made
  | some fresh =>
    obtain ⟨filled, fills, equal⟩ := map_eq_ok_iff.mp made
    cases equal
    exact laid_of_fill small fills

theorem fits_iff (args : PibArgs) (alloc : Option Fresh) :
    args.Fits alloc ↔ alloc ≠ none ∧ args.arg.strings.length ≤ 1 ∧
      (args.arg.strings = [] → 0 ∈ args.behindArg) ∧ args.size < 2147483648 := by
  unfold Fits create prcCreatePIB
  constructor
  · rintro ⟨addr, block, made, -⟩
    obtain ⟨lengths, counted, made⟩ := bind_eq_ok_iff.mp made
    obtain ⟨ends, small, rfl⟩ := pibLengths_eq_ok_iff.mp counted
    cases alloc with
    | none => cases made
    | some fresh =>
      obtain ⟨filled, fills, -⟩ := map_eq_ok_iff.mp made
      exact ⟨Option.some_ne_none _, ((pibFill_eq_ok_iff small).mp fills).1, ends, small⟩
  · rintro ⟨allocated, few, ends, small⟩
    obtain ⟨fresh, rfl⟩ := Option.ne_none_iff_exists'.mp allocated
    have fills := (@pibFill_eq_ok_iff args fresh small _).mpr ⟨few, rfl⟩
    refine ⟨_, _, ?_, (laid_of_fill small fills).readBack⟩
    rw [pibLengths_eq_ok_iff.mpr ⟨ends, small, rfl⟩, bind_ok]
    exact map_eq_ok_iff.mpr ⟨_, fills, rfl⟩

/-- Two arguments need a byte more than the block has. -/
def twoArguments : PibArgs where
  prg := [65]
  arg := ⟨[[65], [66]], by simp, by simp⟩
  env := ⟨[[80, 61]], by simp, by simp⟩
  behindPrg := []
  behindArg := []
  behindEnv := []
  nonzero := by simp

end PibArgs

/-- Blocks of processes, and the lengths of lists. -/
theorem pib_fits_and_helpersAgree_iff (args : PibArgs) (alloc : Option Fresh)
    (list : StringList) (rest : List UInt8) :
    (args.Fits alloc ↔ alloc ≠ none ∧ args.arg.strings.length ≤ 1 ∧
        (args.arg.strings = [] → 0 ∈ args.behindArg) ∧
        args.size < 2147483648) ∧
    (HelpersAgree list rest ↔
      list.strings ≠ [] ∧ list.encode.length < 2147483648) :=
  ⟨args.fits_iff alloc, helpersAgree_iff list rest⟩

theorem twoArguments_not_fits :
    ¬ PibArgs.twoArguments.Fits (some { addr := 0x10000, contents := fun _ => 0 })
      ∧ ¬ HelpersAgree StringList.empty [] := by
  constructor
  · rw [PibArgs.fits_iff]
    rintro ⟨-, few, -⟩
    exact absurd few (by decide)
  · rw [helpersAgree_iff]
    exact fun agree => agree.1 rfl

end OsFree.Os2srv
