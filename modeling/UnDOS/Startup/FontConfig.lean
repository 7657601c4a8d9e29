import Mathlib
import UnDOS.Lib.Safe
import UnDOS.Startup.Arguments

/-!
# The Font Configuration

`parse_font_config` and `make_font_loader_arguments` of `Apps/Init/font_config.hpp`.

- A `Slice` is a list of bytes, and a `char[256]` is the string in it.
- `false` is an error without a value.  A write outside of `digits` gets stuck.
-/

namespace UnDOS.Startup

open UnDOS.Lib
open UnDOS.Lib.Outcome (ensure)

/-! ## The configuration -/

/-- `FontBackend`. -/
inductive FontBackend where
  | builtinBitmap | trueType
deriving DecidableEq

/-- `FontConfiguration`. -/
structure FontConfiguration where
  backend : FontBackend := .trueType
  regular : List UInt8 := []
  bold : List UInt8 := []
  sizePt : Nat := 0
  ppem : Nat := 0
deriving DecidableEq

/-- The bytes of a string literal. -/
def ascii (s : String) : List UInt8 := s.toList.map fun c => UInt8.ofNat c.toNat

/-- `'\n'`. -/
def newline : UInt8 := 10

/-- `'\r'`. -/
def carriageReturn : UInt8 := 13

def horizontalSpace (ch : UInt8) : Bool := ch == 32 || ch == 9

def trim (value : List UInt8) :
    List UInt8 := (value.dropWhile horizontalSpace).rdropWhile horizontalSpace

/-- A byte that `parse_path` takes. -/
def pathByte (quoted : Bool) (ch : UInt8) : Bool :=
  !(ch < 0x20 || ch == 0x7f || ch == quote || (!quoted && horizontalSpace ch))

/-- `parse_path`. -/
def parseConfigPath (value : List UInt8) : Option (List UInt8) :=
  let value := trim value
  match value with
  | [] => none
  | ch :: tail =>
    let quoted := ch == quote
    if quoted && (tail.length < 1 || tail.getLast? != some quote) then none
    else
      let text := if quoted then tail.dropLast else value
      if text.length = 0 ∨ 255 < text.length ∨ text.head? ≠ some 47 then none
      else if text.all (pathByte quoted) then some text
      else none

/-- The loop of `parse_size`. -/
def parseSizeLoop : Nat → List UInt8 → Option Nat
  | parsed, [] => some parsed
  | parsed, ch :: rest =>
    if ch < 48 ∨ 57 < ch then none
    else
      let digit := ch.toNat - 48
      if (192 - digit) / 10 < parsed then none else parseSizeLoop (parsed * 10 + digit) rest

def parseSize (value : List UInt8) : Option Nat :=
  if value.length = 0 then none
  else
    match parseSizeLoop 0 value with
    | some 0 => none
    | r => r

def pointSizeToPpem (sizePt : Nat) : Option Nat :=
  if sizePt < 1 ∨ 192 < sizePt then none
  else
    let ppem := (sizePt * 96 + 36) / 72
    if 1 ≤ ppem ∧ ppem ≤ 256 then some ppem else none

/-! ## The text -/

/-- The local variables of `parse_font_config`: what was parsed, and which parts were seen. -/
structure Seen where
  parsed : FontConfiguration := {}
  sectionSeen : Bool := false
  backend : Bool := false
  regular : Bool := false
  bold : Bool := false
  size : Bool := false
deriving DecidableEq

/-- A line with a key. -/
def parseKey (seen : Seen) (line : List UInt8) : Option Seen :=
  if seen.sectionSeen = false ∨ 61 ∉ line then none
  else
    let key := trim (line.takeWhile (· != 61))
    let value := trim ((line.dropWhile (· != 61)).drop 1)
    if key = ascii "Backend" then
      if seen.backend then none
      else if value = ascii "bitmap" then
        some { seen with parsed := { seen.parsed with backend := .builtinBitmap }, backend := true }
      else if value = ascii "truetype" then
        some { seen with parsed := { seen.parsed with backend := .trueType }, backend := true }
      else none
    else if key = ascii "Regular" then
      if seen.regular then none
      else (parseConfigPath value).map fun path =>
        { seen with parsed := { seen.parsed with regular := path }, regular := true }
    else if key = ascii "Bold" then
      if seen.bold then none
      else (parseConfigPath value).map fun path =>
        { seen with parsed := { seen.parsed with bold := path }, bold := true }
    else if key = ascii "SizePt" then
      if seen.size then none
      else (parseSize value).map fun size =>
        { seen with parsed := { seen.parsed with sizePt := size }, size := true }
    else none

/-- The line with the section. -/
def parseSection (seen : Seen) (line : List UInt8) : Option Seen :=
  if line.length < 2 ∨ line.getLast? ≠ some 93 ∨
      trim ((line.drop 1).dropLast) ≠ ascii "Fonts" ∨ seen.sectionSeen = true then none
  else some { seen with sectionSeen := true }

/-- A line, which is trimmed. -/
def parseLine (seen : Seen) (line : List UInt8) : Option Seen :=
  match line with
  | [] => some seen
  | ch :: _ =>
    if ch = 35 ∨ ch = 59 then some seen
    else if ch = 91 then parseSection seen line
    else parseKey seen line

/-- A byte that ends a line. -/
def endsLine (ch : UInt8) : Bool := ch == newline || ch == carriageReturn

/-- The text behind the end of its first line. -/
def behindLine (text : List UInt8) : List UInt8 :=
  match text.dropWhile (!endsLine ·) with
  | [] => []
  | ch :: rest => if ch = carriageReturn then rest.drop 1 else rest

theorem behindLine_length_lt {text : List UInt8} (h : text ≠ []) :
    (behindLine text).length < text.length := by
  have hpos := List.length_pos_of_ne_nil h
  have hle := List.length_dropWhile_le (!endsLine ·) text
  unfold behindLine
  split
  · exact hpos
  · next ch rest heq =>
    rw [heq, List.length_cons] at hle
    split
    · rw [List.length_drop]
      omega
    · omega

/-- The loop over the lines. -/
def parseLines (seen : Seen) (text : List UInt8) : Option Seen :=
  if text = [] then some seen
  else
    match parseLine seen (trim (text.takeWhile (!endsLine ·))) with
    | none => none
    | some seen' => parseLines seen' (behindLine text)
termination_by text.length
decreasing_by exact behindLine_length_lt ‹_›

/-- The bytes of the text: no zero, nothing beyond ASCII, and no `'\r'` without its `'\n'`. -/
def validText : List UInt8 → Bool
  | [] => true
  | ch :: rest =>
    !(ch == 0 || 0x7f < ch || (ch == carriageReturn && rest.head? != some newline)) &&
      validText rest

/-- What `parse_font_config` has parsed when it accepts. -/
def parsedConfig (text : List UInt8) : Option FontConfiguration :=
  if text.length = 0 ∨ 1023 < text.length ∨ validText text = false then none
  else
    match parseLines {} text with
    | none => none
    | some seen =>
      if seen.sectionSeen = false ∨ seen.backend = false then none
      else if seen.parsed.backend = .builtinBitmap then
        if seen.regular ∨ seen.bold ∨ seen.size then none else some seen.parsed
      else if seen.regular = false ∨ seen.bold = false ∨ seen.size = false then none
      else (pointSizeToPpem seen.parsed.sizePt).map fun ppem => { seen.parsed with ppem }

/-- `parse_font_config`: whether it accepts, and `out`. -/
def parseFontConfig (text : List UInt8) (out : FontConfiguration) : Bool × FontConfiguration :=
  match parsedConfig text with
  | none => (false, out)
  | some parsed => (true, parsed)

/-! ## The command for the font loader -/

/-- `append`, on the string in `output`. -/
def append (capacity : Nat) (output : List UInt8) (value : UInt8) : Outcome Unit (List UInt8) := do
  ensure (output.length + 1 < capacity) ()
  pure (output ++ [value])

/-- A loop of `append`. -/
def appendAll (capacity : Nat) : List UInt8 → List UInt8 → Outcome Unit (List UInt8)
  | output, [] => pure output
  | output, ch :: rest => do
    let output ← append capacity output ch
    appendAll capacity output rest

def appendPath (capacity : Nat) (output path : List UInt8) : Outcome Unit (List UInt8) := do
  ensure (path.length ≤ 255 ∧ ∀ ch ∈ path, ¬(ch < 0x20 ∨ 0x7f ≤ ch ∨ ch = quote)) ()
  ensure (path ≠ [] ∧ path.head? = some 47) ()
  let output ← append capacity output quote
  let output ← appendAll capacity output path
  append capacity output quote

/-- The loop that fills `digits`, which has room for `room` more of them. -/
def digitsLoop : Nat → Nat → Outcome Unit (List UInt8)
  | 0, value => if value = 0 then pure [] else .stuck
  | room + 1, value =>
    if value = 0 then pure []
    else do
      let rest ← digitsLoop room (value / 10)
      pure (UInt8.ofNat (48 + value % 10) :: rest)

def makeFontLoaderArguments (config : FontConfiguration) (capacity : Nat) :
    Outcome Unit (List UInt8) := do
  ensure (capacity ≠ 0) ()
  ensure (config.backend = .trueType ∧ pointSizeToPpem config.sizePt = some config.ppem) ()
  let output ← appendPath capacity [] config.regular
  let output ← append capacity output 32
  let output ← appendPath capacity output config.bold
  let output ← append capacity output 32
  let digits ← digitsLoop 3 config.ppem
  appendAll capacity output digits.reverse

end UnDOS.Startup
