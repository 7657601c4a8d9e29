import UnDOS.Kernel.Error
import UnDOS.Lib.Ring

/-!
# Virtual Terminals

`kernel/tty/tty.hpp` and `tty.cpp`: the two rings of a `KVtty`, the buffer in which a line is
edited, and the calls at its two ends.  Every call runs under the lock of the terminal, so a
call is a function on the state.

- The edit buffer is the list of its first `m_editLen` bytes.
- `sinkReadWait` is one round of the loop of `sink_read_wait`; `none` means that the caller
  goes to sleep on `m_inputReady`.
-/

namespace UnDOS.Tty

open UnDOS.Lib
open UnDOS.Kernel (KernelError)

/-- `TtyFlags`. -/
structure TtyFlags where
  echo : Bool := true
  canonical : Bool := true
  crToNl : Bool := true
  nlToCrNl : Bool := true
  echoNl : Bool := false
deriving DecidableEq

/-- `kDefaultBufferSize` and `kMaxEditBufferSize`. -/
def defaultBufferSize : Nat := 4096
def maxEditBufferSize : Nat := 1024

/-- `RingBuffer<uint8_t, kDefaultBufferSize>`. -/
abbrev RingBuffer := Ring UInt8 defaultBufferSize

/-- `KVtty`. -/
structure Vtty where
  sinkInRing : RingBuffer := Ring.empty fun _ => 0
  sourceOutRing : RingBuffer := Ring.empty fun _ => 0
  editBuffer : List UInt8 := []
  flags : TtyFlags := {}
  sourceClosed : Bool := false
  sinkClosed : Bool := false
  eofSignaled : Bool := false
  inputReady : Bool := false

namespace Vtty

/-- Bytes for the reader at the source; what does not fit is dropped. -/
def echo (t : Vtty) (bytes : List UInt8) : Vtty :=
  { t with sourceOutRing := (t.sourceOutRing.write bytes).1 }

/-- A line for the reader at the sink. -/
def deliver (t : Vtty) (line : List UInt8) : Vtty :=
  { t with sinkInRing := (t.sinkInRing.write line).1, editBuffer := [] }

/-- `"\b \b"`. -/
def eraseSeq : List UInt8 := [0x08, 0x20, 0x08]

/-- `'\n'` as it is echoed. -/
def newline (t : Vtty) : List UInt8 := if t.flags.nlToCrNl then [0x0D, 0x0A] else [0x0A]

/-- `\r` read as `\n`. -/
def translate (flags : TtyFlags) (ch : UInt8) : UInt8 :=
  if flags.crToNl ∧ ch = 0x0D then 0x0A else ch

/-- A byte in raw mode; `none` when the ring is full. -/
def rawByte (t : Vtty) (ch : UInt8) : Option Vtty :=
  if t.sinkInRing.count < defaultBufferSize then
    let t := { t with sinkInRing := t.sinkInRing.push ch }
    some (if t.flags.echo then t.echo (if ch = 0x0A then t.newline else [ch]) else t)
  else none

/-- `'\n'` at the end of the edit buffer, over its last byte when it is full. -/
def endLine (edit : List UInt8) : List UInt8 :=
  if edit.length < maxEditBufferSize then edit ++ [0x0A]
  else edit.take (maxEditBufferSize - 1) ++ [0x0A]

/-- A byte in canonical mode. -/
def cookedByte (t : Vtty) (ch : UInt8) : Vtty :=
  if ch = 0x08 ∨ ch = 0x7F then
    if 0 < t.editBuffer.length then
      let t := { t with editBuffer := t.editBuffer.dropLast }
      if t.flags.echo then t.echo eraseSeq else t
    else t
  else if ch = 0x15 then
    let t' := if t.flags.echo then t.echo (List.replicate t.editBuffer.length eraseSeq).flatten
      else t
    { t' with editBuffer := [] }
  else if ch = 0x04 then
    if 0 < t.editBuffer.length then t.deliver t.editBuffer else { t with eofSignaled := true }
  else if ch = 0x0A then
    let line := endLine t.editBuffer
    let t := if t.flags.echo ∨ t.flags.echoNl then t.echo t.newline else t
    t.deliver line
  else if t.editBuffer.length < maxEditBufferSize then
    let t := { t with editBuffer := t.editBuffer ++ [ch] }
    if t.flags.echo then t.echo [ch] else t
  else t

/-- The loop of `source_write`: the state and how many bytes were processed. -/
def sourceLoop (t : Vtty) : List UInt8 → Vtty × Nat
  | [] => (t, 0)
  | ch :: rest =>
    let ch := translate t.flags ch
    if t.flags.canonical then
      let (t, n) := (t.cookedByte ch).sourceLoop rest
      (t, n + 1)
    else match t.rawByte ch with
      | none => (t, 0)
      | some t =>
        let (t, n) := t.sourceLoop rest
        (t, n + 1)

def sourceWrite (t : Vtty) (src : List UInt8) : Except KernelError Nat × Vtty :=
  if t.sourceClosed ∨ t.sinkClosed then (.error .invalidState, t)
  else
    let (t, processed) := t.sourceLoop src
    (.ok processed,
      if 0 < t.sinkInRing.count ∨ t.eofSignaled then { t with inputReady := true } else t)

/-- `KVtty::sink_read`: the bytes read. -/
def sinkRead (t : Vtty) (count : Nat) : List UInt8 × Vtty :=
  if count = 0 then ([], t)
  else if t.sinkInRing.count = 0 then ([], { t with eofSignaled := false })
  else
    let (bytes, ring) := t.sinkInRing.read count
    (bytes, { t with sinkInRing := ring })

/-- One round of `KVtty::sink_read_wait`. -/
def sinkReadWait (t : Vtty) (count : Nat) : Option (List UInt8) × Vtty :=
  if count = 0 then (some [], t)
  else if 0 < t.sinkInRing.count then
    let (bytes, ring) := t.sinkInRing.read count
    (some bytes, { t with sinkInRing := ring })
  else if t.eofSignaled ∨ t.sourceClosed ∨ t.sinkClosed then
    (some [], { t with eofSignaled := false })
  else (none, { t with inputReady := false })

end Vtty

end UnDOS.Tty
