import UnDOS.Kernel.Error
import UnDOS.Lib.ByteStore
import UnDOS.Lib.Within

/-!
# Process Arguments

`parse`, `stack_size` and `write_stack` of `process_startup.hpp`, and the way an application finds
its arguments on the stack.

- A string with a length is a list of bytes.  The pointers are not null.
- The two arrays of `Arguments` have a fixed room, and a write outside of them gets stuck.
- The `while` over the command is bounded by the length of the command, of which every round takes
  at least one byte.
-/

namespace UnDOS.Startup

open UnDOS.Lib
open UnDOS.Kernel

/-! ## Arguments -/

def pathCapacity : Nat := 256
def argumentCapacity : Nat := 1024
def maxArguments : Nat := 32

/-- The room of `text`. -/
def textCapacity : Nat := pathCapacity + argumentCapacity

/-- `Arguments`. -/
structure Arguments where
  argc : Nat := 0
  bytes : Nat := 0
  offsets : Nat → Nat := fun _ => 0
  text : ByteStore := fun _ => 0

abbrev Parse := Prog Arguments KernelError

/-- `'"'`. -/
def quote : UInt8 := 34

def whitespace (ch : UInt8) : Bool :=
  ch == 32 || ch == 9 || ch == 10 || ch == 13 || ch == 11 || ch == 12

/-- `out.offsets[out.argc++] = out.bytes`. -/
def pushOffset : Parse Unit := do
  let out ← Prog.get
  if out.argc < maxArguments then
    Prog.modify fun out =>
      { out with offsets := Function.update out.offsets out.argc out.bytes, argc := out.argc + 1 }
  else Prog.diverge

/-- `out.text[out.bytes++] = ch`. -/
def pushByte (ch : UInt8) : Parse Unit := do
  let out ← Prog.get
  if out.bytes < textCapacity then
    Prog.modify fun out =>
      { out with text := writeAt out.text out.bytes [ch], bytes := out.bytes + 1 }
  else Prog.diverge

/-- The loop over the path. -/
def parsePath : List UInt8 → Parse Unit
  | [] => pure ()
  | ch :: rest => do
    if ch = 0 then Prog.throw .invalidData
    else
      pushByte ch
      parsePath rest

/-- The loop over one argument: what it leaves of the command, and `quoted`. -/
def parseWord : Bool → List UInt8 → Parse (List UInt8 × Bool)
  | quoted, [] => pure ([], quoted)
  | quoted, ch :: rest =>
    if ch = 0 then Prog.throw .invalidData
    else if !quoted && whitespace ch then pure (ch :: rest, quoted)
    else if ch = quote then parseWord (!quoted) rest
    else do
      pushByte ch
      parseWord quoted rest

/-- The loop over the command, with `n` rounds to go. -/
def parseCommand : Nat → List UInt8 → Parse Unit
  | 0, command => if command = [] then pure () else Prog.diverge
  | n + 1, command =>
    if command = [] then pure ()
    else
      match command.dropWhile whitespace with
      | [] => pure ()
      | ch :: word => do
        let out ← Prog.get
        if out.argc = maxArguments then Prog.throw .tooManyArguments
        else
          pushOffset
          let (rest, quoted) ← parseWord false (ch :: word)
          if quoted then Prog.throw .invalidFormat
          else
            pushByte 0
            parseCommand n rest

def parse (path command : List UInt8) : Parse Unit := do
  Prog.modify fun out => { out with argc := 0, bytes := 0 }
  if path.length = 0 then Prog.throw .invalidArgument
  else if pathCapacity ≤ path.length ∨ argumentCapacity ≤ command.length then
    Prog.throw .bufferTooSmall
  else
    pushOffset
    parsePath path
    pushByte 0
    parseCommand command.length command

/-! ## The stack -/

/-- `sizeof(UnDOSStartupInfoV1)`. -/
def infoSize : Nat := 48

/-- `UNDOS_APPLICATION_ABI_VERSION`. -/
def abiVersion : Nat := 1

def stackSize (args : Arguments) : Nat :=
  (16 + infoSize + (args.argc + 2) * 4 + args.bytes + 15) / 16 * 16

abbrev Store := Prog ByteStore KernelError

/-- A write into the `capacity` bytes of the storage. -/
def store (capacity offset : Nat) (data : List UInt8) : Store Unit :=
  if offset + data.length ≤ capacity then Prog.modify fun m => writeAt m offset data
  else Prog.diverge

/-- `words[k] = value`. -/
def storeWord (capacity k value : Nat) : Store Unit := store capacity (4 * k) (leBytes 4 value)

/-- Several words, from word `k` on. -/
def storeWords (capacity : Nat) : Nat → List Nat → Store Unit
  | _, [] => pure ()
  | k, v :: rest => do
    storeWord capacity k v
    storeWords capacity (k + 1) rest

/-- `write_stack`.  The fields of the startup information that are not set are zero. -/
def writeStack (capacity address : Nat) (args : Arguments) (startupEvent : Nat) : Store Unit :=
  let size := stackSize args
  let argv := address + 16 + infoSize
  let envp := argv + (args.argc + 1) * 4
  let text := envp + 4
  if args.argc = 0 ∨ maxArguments < args.argc ∨ textCapacity < args.bytes then
    Prog.throw .invalidData
  else if capacity < size then Prog.throw .bufferTooSmall
  else if address % 16 ≠ 0 then Prog.throw .invalidAlignment
  else if 2 ^ 32 - 1 - size < address then Prog.throw .arithmeticOverflow
  else do
    storeWords capacity 0 [0, address + 16, startupEvent, 0]
    storeWords capacity 4 [infoSize, abiVersion, args.argc, argv, envp, 0, 0, 0, 0, 0, 0, 0]
    Prog.forRange args.argc fun i => storeWord capacity (16 + i) (text + args.offsets i)
    storeWord capacity (16 + args.argc) 0
    storeWord capacity (16 + args.argc + 1) 0
    Prog.forRange args.bytes fun i => store capacity (4 * (16 + args.argc + 2) + i) [args.text i]

/-! ## The reader -/

/-- A string that ends with a zero within the next `room` bytes. -/
def readString (m : ByteStore) : Nat → Nat → Option (List UInt8)
  | 0, _ => none
  | room + 1, p => if m p = 0 then some [] else (readString m room (p + 1)).map (m p :: ·)

/-- A word that lies in the `size` bytes at `address`. -/
def readWord (m : ByteStore) (address size p : Nat) : Option Nat :=
  if address ≤ p ∧ p + 4 ≤ address + size then some (wordAt m p 4) else none

/-- A string that lies in the `size` bytes at `address`. -/
def readText (m : ByteStore) (address size p : Nat) : Option (List UInt8) :=
  if address ≤ p ∧ p < address + size then readString m (address + size - p) p else none

/-- `valid_startup`, on the words of the startup information. -/
def validStartup (info : List Nat) : Bool :=
  info.getD 0 0 == infoSize && info.getD 1 0 == abiVersion && info.getD 2 0 != 0 &&
    decide (info.getD 2 0 ≤ 32) && info.getD 3 0 != 0 && info.getD 4 0 != 0 && info.getD 7 0 == 0 &&
    (info.drop 8).all (· == 0)

/-- What an application finds: the strings of its arguments.  The second word on the stack is the
address of the startup information, which has those of the two tables of pointers.  Both tables have
to end with a null pointer, and every pointer has to point into the `size` bytes at `address`. -/
def readStartup (m : ByteStore) (address size : Nat) : Option (List (List UInt8)) := do
  let start ← readWord m address size (address + 4)
  let info ← (List.range 12).mapM fun i => readWord m address size (start + 4 * i)
  guard (validStartup info)
  let argc := info.getD 2 0
  let pointers ← (List.range argc).mapM fun i => readWord m address size (info.getD 3 0 + 4 * i)
  guard (readWord m address size (info.getD 3 0 + 4 * argc) = some 0)
  guard (readWord m address size (info.getD 4 0) = some 0)
  pointers.mapM fun p => readText m address size p

end UnDOS.Startup
