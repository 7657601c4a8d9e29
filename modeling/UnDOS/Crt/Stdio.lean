import UnDOS.Crt.Heap

/-!
# Output Streams of the C Runtime

The writing half of `CRT/libc/stdio.c`, for one stream: `write_bytes`, `fflush`, `fwrite` and what
is built on them.

- `crt_get_std_handle` and `undos_libc_write` answer from two streams in the state, so a theorem
  about every state is one about every backend.  An answer to a write accepts a prefix or fails.
- What the backend has accepted is recorded in `sent`; the code does not read it.
- A byte that would be stored behind the end of the buffer gets stuck, and so does a loop that makes
  no progress.
-/

namespace UnDOS.Crt.Stdio

open UnDOS.Lib

/-! ## The state -/

/-- `UNDOS_LIBC_IO_CHUNK_SIZE`. -/
def chunkSize : Nat := 4096

/-- `BUFSIZ`. -/
def bufSize : Nat := 256

def eof : Int := -1

inductive Errno where
  | ebadf
  | einval
  | eio
  | enosys
  | other (code : Nat)
deriving DecidableEq

/-- `_IONBF`, `_IOLBF` and `_IOFBF`. -/
inductive Mode where
  | unbuffered
  | line
  | full
deriving DecidableEq

/-- What the writing half uses of `FILE`. -/
structure File where
  active : Bool
  readable : Bool
  writable : Bool
  error : Bool
  started : Bool
  standard : Int
  handle : Nat
  mode : Mode
  used : Nat
  capacity : Nat
  buffer : ByteStore

/-- How the backend answers a write: it accepts some bytes from the front, or fails. -/
inductive Answer where
  | accept (n : Nat)
  | fail (error : Errno)
deriving DecidableEq

/-- The stream, `errno`, and the two streams of answers that are still to come. -/
structure World where
  file : File
  errno : Option Errno
  handles : Nat → Option Nat
  answers : Nat → Answer
  sent : List UInt8

abbrev Op := Prog World Unit

def modifyFile (f : File → File) : Op Unit := Prog.modify fun w => { w with file := f w.file }

def setErrno (error : Errno) : Op Unit := Prog.modify fun w => { w with errno := some error }

/-! ## The backend -/

/-- `crt_get_std_handle`. -/
def getStdHandle : Op (Option Nat) := do
  let w ← Prog.get
  Prog.modify fun w => { w with handles := fun n => w.handles (n + 1) }
  pure (w.handles 0)

/-- `undos_libc_write`: the error, if there is one, and the length. -/
def undosWrite (data : List UInt8) : Op (Option Errno × Nat) := do
  let w ← Prog.get
  Prog.modify fun w => { w with answers := fun n => w.answers (n + 1) }
  match w.answers 0 with
  | .accept n =>
    Prog.modify fun w => { w with sent := w.sent ++ data.take n }
    pure (none, min n data.length)
  | .fail error => pure (some error, 0)

/-! ## The operations -/

/-- `fail`, without its result. -/
def fail (error : Errno) : Op Unit := do
  modifyFile fun f => { f with error := true }
  setErrno error

/-- `ready`, for writing. -/
def ready : Op Bool := do
  let f := (← Prog.get).file
  if f.active = false then
    setErrno .ebadf
    pure false
  else if f.writable = false then
    fail .ebadf
    pure false
  else
    modifyFile fun f => { f with started := true }
    if 0 ≤ f.standard then
      match ← getStdHandle with
      | some handle =>
        modifyFile fun f => { f with handle }
        pure true
      | none =>
        fail .ebadf
        pure false
    else pure true

/-- The loop of `write_bytes`, with `n` rounds to go. -/
def writeRest (data : List UInt8) : Nat → Nat → Op Nat
  | 0, _ => Prog.diverge
  | n + 1, done => do
    if done < data.length then
      let requested := min (data.length - done) chunkSize
      let (error, length) ← undosWrite ((data.drop done).take requested)
      if error.isSome = true ∨ length = 0 ∨ requested < length then
        fail (error.getD .eio)
        pure done
      else writeRest data n (done + length)
    else pure done

def writeBytes (data : List UInt8) : Op Nat := writeRest data (data.length + 1) 0

/-- `fflush`, for a stream. -/
def fflush : Op Int := do
  let f := (← Prog.get).file
  if f.active = false then
    setErrno .ebadf
    pure eof
  else if f.writable = false then
    setErrno .enosys
    pure eof
  else if f.used = 0 then pure 0
  else if ← ready then
    let done ← writeBytes (readAt f.buffer 0 f.used)
    modifyFile fun f => { f with used := f.used - done }
    let f := (← Prog.get).file
    if f.used ≠ 0 then
      modifyFile fun f => { f with buffer := writeAt f.buffer 0 (readAt f.buffer done f.used) }
      pure eof
    else pure 0
  else pure eof

/-- `stream->buffer[stream->used++] = byte`. -/
def store (byte : UInt8) : Op Unit := do
  let f := (← Prog.get).file
  if f.used < f.capacity then
    modifyFile fun f => { f with buffer := writeAt f.buffer f.used [byte], used := f.used + 1 }
  else Prog.diverge

/-- The flush before a byte is stored, if the buffer is full: whether it failed. -/
def blocked : Op Bool := do
  let f := (← Prog.get).file
  if f.used = f.capacity then return (← fflush) ≠ 0
  else pure false

/-- The flush behind a byte that was stored, if it is due: whether it failed. -/
def flushFails (byte : UInt8) : Op Bool := do
  let f := (← Prog.get).file
  if f.used = f.capacity ∨ (f.mode = .line ∧ byte = 10) then return (← fflush) ≠ 0
  else pure false

/-- The loop of `fwrite` through the buffer, with `n` rounds to go. -/
def storeRest (bytes : ByteStore) (size total : Nat) : Nat → Nat → Op Nat
  | 0, _ => Prog.diverge
  | n + 1, done => do
    if done < total then
      if ← blocked then pure (done / size)
      else
        store (bytes done)
        if ← flushFails (bytes done) then pure ((done + 1 - 1) / size)
        else storeRest bytes size total n (done + 1)
    else pure (done / size)

/-- `fwrite`.  The argument `none` is a null pointer. -/
def fwrite (buffer : Option ByteStore) (size count : Nat) : Op Nat := do
  if size = 0 ∨ count = 0 then pure 0
  else if ← ready then
    match buffer with
    | none =>
      fail .einval
      pure 0
    | some bytes =>
      if sizeMax / size < count then
        fail .einval
        pure 0
      else
        let total := size * count
        if (← Prog.get).file.mode = .unbuffered then
          let done ← writeBytes (readAt bytes 0 total)
          pure (done / size)
        else storeRest bytes size total (total + 1) 0
  else pure 0

/-- `(unsigned char)ch`. -/
def toByte (ch : Int) : UInt8 := UInt8.ofNat (ch % 256).toNat

/-- `fputc`, `putc` and `putchar`. -/
def fputc (ch : Int) : Op Int := do
  let n ← fwrite (some fun _ => toByte ch) 1 1
  pure (if n = 1 then (toByte ch).toNat else eof)

/-- `fputs`, for the bytes before the zero. -/
def fputs (text : List UInt8) : Op Int := do
  if ← ready then
    let n ← fwrite (some (writeAt (fun _ => 0) 0 text)) 1 text.length
    pure (if n = text.length then 0 else eof)
  else pure eof

def puts (text : List UInt8) : Op Int := do
  if (← fputs text) = eof then pure eof
  else if (← fputc 10) = eof then pure eof
  else pure 0

/-- `setvbuf`.  The mode `none` is any other number; the buffer `none` is a null pointer, for which
the stream uses its own. -/
def setvbuf (buffer : Option ByteStore) (mode : Option Mode) (size : Nat) (storage : ByteStore) :
    Op Int := do
  let f := (← Prog.get).file
  if f.active = false then
    setErrno .ebadf
    pure (-1)
  else
    match mode with
    | none =>
      setErrno .einval
      pure (-1)
    | some mode =>
      if f.started = true ∨ (mode ≠ .unbuffered ∧ size = 0) then
        setErrno .einval
        pure (-1)
      else if f.readable = true ∧ mode ≠ .unbuffered then
        setErrno .enosys
        pure (-1)
      else
        modifyFile fun f => { f with
          mode
          buffer := buffer.getD storage
          capacity := if buffer.isSome = true then size else min size bufSize }
        pure 0

def clearerr : Op Unit := modifyFile fun f => { f with error := false }

end UnDOS.Crt.Stdio
