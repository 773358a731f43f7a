import Mathlib.Data.List.DropRight
import OsFree.Loader.Toggles

/-!
# The lines of a configuration file

The file is read in pieces.  Lines are taken out of a piece into a buffer of their own,
are put together in the buffer `s`, and the lines that continue each other in the buffer
`str`.
-/

namespace OsFree.Loader

open Machine

/-- `BUFSIZE`. -/
def bufsize : Nat := 0x400

/-- `grub_index`. -/
def grub_index (c : UInt8) (s : List UInt8) : Nat :=
  match s.findIdx? (· == c) with
  | some i => i + 1
  | none => 0

/-- A string that is ended where a character is. -/
def endAt (c : UInt8) (s : List UInt8) : List UInt8 :=
  let i := grub_index c s
  if i ≠ 0 then s.take (i - 1) else s

/-- `trim`. -/
def trim (s : List UInt8) : List UInt8 := endAt 10 (endAt 13 s)

/-- A string in a buffer, with what is before it in the buffer. -/
structure InBuffer where
  front : List UInt8
  text : List UInt8

/-- `strip`, with the byte that is before the buffer.  White space at the end is looked
for without regard to where the string starts. -/
def strip (below : UInt8) (p : InBuffer) : Run InBuffer :=
  let kept := p.text.rdropWhile isspace
  if kept = [] then
    let front := p.front.rdropWhile isspace
    if front = [] ∧ isspace below then .error .writeOutside
    else
      .ok
        { front := front ++ List.replicate (p.front.length - front.length) 0
          text := [] }
  else
    .ok { front := p.front ++ kept.takeWhile isspace, text := kept.dropWhile isspace }

/-- A character that is taken if it comes first. -/
def takeIf (c : UInt8) : List UInt8 → List UInt8 × List UInt8
  | [] => ([], [])
  | first :: rest => if first = c then ([c], rest) else ([], first :: rest)

/-- `getline`, from the bytes at `p` on, the first `n` of which have been read. -/
def getline (n : Nat) (p : List UInt8) : Run (List UInt8 × List UInt8) :=
  let text := (p.take n).takeWhile fun c => c != 13 && c != 10 && c != 0
  let cr := takeIf 13 (p.drop text.length)
  let lf := takeIf 10 cr.2
  let linebuf := text ++ cr.1 ++ lf.1
  if linebuf.length < bufsize then .ok (linebuf, lf.2) else .error .writeOutside

/-- `;` -/
def semicolon : UInt8 := 0x3b

/-- `#` -/
def hash : UInt8 := 0x23

/-- `^` or `&`. -/
def continues (c : UInt8) : Bool := c == 0x5e || c == 0x26

/-- The strings in the buffers `s` and `str`, which end at `s_pos` and `str_pos`, and the
lines that `process_cfg_line` has been called with. -/
structure ConfigLines where
  s : List UInt8
  str : List UInt8
  calls : List (List UInt8)

/-- How `process_cfg` goes on: with the next line, with its return, or not at all. -/
inductive Turn where
  | goesOn
  | returns (rc : Int)
  | panics
  deriving DecidableEq

/-- A string is put behind another one in a buffer, and `none` if that is refused. -/
def putBehind (s line : List UInt8) : Run (Option (List UInt8)) :=
  if bufsize < s.length + line.length then .ok none
  else if s.length + line.length < bufsize then .ok (some (s ++ line))
  else .error .writeOutside

section

variable (below : UInt8) (answers : Nat → Bool)

/-- What `process_cfg` does with a line that has ended. -/
def endLine (config : ConfigLines) : Run (ConfigLines × Turn) := do
  let line ← strip below { front := [], text := trim config.s }
  let line ← strip below { line with text := endAt hash (endAt semicolon line.text) }
  if continues ((line.front ++ line.text).getLastD below) then
    -- An empty line has cleared the white space before it, so the byte is before `s`.
    if line.text = [] then .error .writeOutside
    else
      match ← putBehind config.str line.text.dropLast with
      | none => .ok (config, .panics)
      | some str => .ok ({ config with s := [], str }, .goesOn)
  else
    match ← putBehind config.str line.text with
    | none => .ok (config, .panics)
    | some str =>
      .ok
        ({ s := [], str := [], calls := config.calls ++ [str] },
          if answers config.calls.length then .goesOn else .returns (-1))

/-- The loop over the lines of a piece, from the bytes at `p` on.  The last of those that
have been read is `last`, and some are behind them. -/
def readLines (behind : Nat) (last : UInt8) :
    Nat → ConfigLines → List UInt8 → Option (Run (ConfigLines × Turn))
  | 0, _, _ => none
  | fuel + 1, config, p =>
    if p.headD 0 = 0 then some (.ok (config, .goesOn))
    else
      andThen (some (getline (p.length - behind) p)) fun got =>
        andThen (some (putBehind config.s got.1)) fun s =>
          match s with
          | none => some (.ok (config, .panics))
          | some s =>
            if behind < got.2.length then
              andThen (some (endLine below answers { config with s })) fun ended =>
                match ended.2 with
                | .goesOn => readLines behind last fuel ended.1 got.2
                | turn => some (.ok (ended.1, turn))
            else if last = 10 then some (endLine below answers { config with s })
            else some (.ok ({ config with s }, .goesOn))

/-- A file, how much each read of it gets at most, and the buffer that it is read to with
the bytes behind it. -/
structure ConfigFile where
  content : List UInt8
  sizes : Nat → Nat
  buf : List UInt8
  past : List UInt8

variable (file : ConfigFile)

/-- `process_cfg`, from a read on. -/
def process_cfg : Nat → Nat → Nat → List UInt8 → ConfigLines → Option (Run (ConfigLines × Turn))
  | 0, _, _, _, _ => none
  | fuel + 1, read, bytes_read, buf, config =>
    if bytes_read < file.content.length then
      let rd := min (file.sizes read) (min bufsize (file.content.length - bytes_read))
      if rd = 0 then some (.ok (config, .returns 0))
      else
        let got := (file.content.drop bytes_read).take rd
        let stale := buf.drop rd
        andThen (readLines below answers (stale ++ file.past).length (got.getLastD 0) fuel
            config (got ++ (stale ++ file.past)))
          fun done =>
            match done.2 with
            | .goesOn =>
              process_cfg fuel (read + 1) (bytes_read + rd) (got ++ stale) done.1
            | turn => some (.ok (done.1, turn))
    else some (.ok (config, .returns 1))

end

end OsFree.Loader
