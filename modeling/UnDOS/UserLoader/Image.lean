import UnDOS.Lib.ByteStore
import UnDOS.Lib.Safe

/-!
# The user-mode loader: objects and their memory

The data model of `Kernel/Loader/loader.cpp` and the accessors at its top.

- 32-bit values are numbers; sums that the source lets wrap are written with `wrap32`.
- The arrays of an object are lists.  `phnum` and `needed_count` are their lengths.
- An access through an address that an image supplied names the object it belongs to.  It is `stuck`
  unless the bytes lie in a `PT_LOAD` range of that object, on pages that were mapped for it.
- A pointer to a string is the string that it points to, without its terminator.
-/

namespace UnDOS.UserLoader

open UnDOS.Lib UnDOS.Lib.Outcome

/-! ## Constants -/

def etExec : Nat := 2
def etDyn : Nat := 3
def em386 : Nat := 3

def ptLoad : Nat := 1
def ptDynamic : Nat := 2
def ptInterp : Nat := 3
def ptNote : Nat := 4
def ptTls : Nat := 7

def stbLocal : Nat := 0
def stbWeak : Nat := 2
def stvHidden : Nat := 2
def shnUndef : Nat := 0

def r386None : Nat := 0
def r386Abs32 : Nat := 1
def r386Pc32 : Nat := 2
def r386Copy : Nat := 5
def r386GlobDat : Nat := 6
def r386JmpSlot : Nat := 7
def r386Relative : Nat := 8

def pageSize : Nat := 4096
def maxObjects : Nat := 8
def maxImageSize : Nat := 4 * 1024 * 1024
def maxProgramHeaders : Nat := 16
def maxDependencies : Nat := 32
def maxPathLength : Nat := 256

def userSpaceMinAddr : Nat := 0x00010000
def userSpaceMaxAddr : Nat := 0xC0000000
def sharedLibBaseWindow : Nat := 0x10000000
def sharedLibSlotSize : Nat := 0x01000000

/-- The low 32 bits. -/
def wrap32 (n : Nat) : Nat := n % 2 ^ 32

/-- `& PAGE_MASK`. -/
def pageFloor (n : Nat) : Nat := n / pageSize * pageSize

/-- The little-endian number in `n` bytes of a record. -/
def field (bytes : List UInt8) (off n : Nat) : Nat := leNat ((bytes.drop off).take n)

/-! ## Records -/

/-- `ProgramHeader`, without the fields that are never read. -/
structure ProgramHeader where
  type : Nat
  offset : Nat
  vaddr : Nat
  filesz : Nat
  memsz : Nat
  flags : Nat
deriving DecidableEq, Inhabited

/-- `PF_X` is set. -/
def ProgramHeader.executable (p : ProgramHeader) : Bool := p.flags % 2 == 1

/-- `Symbol`. -/
structure Symbol where
  name : Nat := 0
  value : Nat := 0
  size : Nat := 0
  info : Nat := 0
  other : Nat := 0
  section_ : Nat := 0
deriving DecidableEq, Inhabited

namespace Symbol

def binding (symbol : Symbol) : Nat := symbol.info / 16

def type (symbol : Symbol) : Nat := symbol.info % 16

def visibility (symbol : Symbol) : Nat := symbol.other % 4

/-- The size of the range that a definition must have. -/
def extent (symbol : Symbol) : Nat := if 0 < symbol.size then symbol.size else 1

end Symbol

/-- `Rel`. -/
structure Rel where
  offset : Nat
  info : Nat
deriving DecidableEq, Inhabited

namespace Rel

def type (reloc : Rel) : Nat := reloc.info % 256

def symIndex (reloc : Rel) : Nat := reloc.info / 256

end Rel

/-- `LoadedObject`. -/
structure LoadedObject where
  path : List UInt8 := []
  programHeaders : List ProgramHeader := []
  bias : Nat := 0
  entry : Nat := 0
  type : Nat := 0
  strtabVaddr : Nat := 0
  strtabSize : Nat := 0
  symtabVaddr : Nat := 0
  symentSize : Nat := 0
  symbolCount : Nat := 0
  relVaddr : Nat := 0
  relSize : Nat := 0
  relEntSize : Nat := 0
  pltRelVaddr : Nat := 0
  pltRelSize : Nat := 0
  pltRelType : Nat := 0
  initFuncVaddr : Nat := 0
  initArrayVaddr : Nat := 0
  initArraySize : Nat := 0
  finiFuncVaddr : Nat := 0
  finiArrayVaddr : Nat := 0
  finiArraySize : Nat := 0
  neededOffsets : List Nat := []
  dependencies : List Nat := []
deriving DecidableEq, Inhabited

/-! ## The process around the loader -/

/-- What the loader runs on: the files, the linked image of the loader itself, and the pages that
the kernel does not map, because they are in use or for want of memory. -/
structure System where
  files : List UInt8 → Option (List UInt8)
  loaderBegin : Nat
  loaderEnd : Nat
  refuses : Nat → Bool

/-- The state of a run.  `owner` says for which object `map_and_load_segments` mapped a page; the
source keeps no such record. -/
structure State where
  memory : ByteStore
  owner : Nat → Option Nat
  objects : List LoadedObject
  totalMappedBytes : Nat

/-- The bytes lie in one `PT_LOAD` range of an object. -/
def LoadedObject.holds (obj : LoadedObject) (addr size : Nat) : Bool :=
  obj.programHeaders.any fun p =>
    p.type == ptLoad && decide (p.vaddr + obj.bias ≤ addr ∧
      addr + size ≤ p.vaddr + p.memsz + obj.bias)

/-- The pages of the bytes were mapped for an object. -/
def State.mappedFor (s : State) (index addr size : Nat) : Bool :=
  (List.range size).all fun n => s.owner ((addr + n) / pageSize) == some index

/-- May bytes of object `index` be read? -/
def mayRead (s : State) (index : Nat) (obj : LoadedObject) (addr size : Nat) : Bool :=
  size == 0 || (obj.holds addr size && s.mappedFor index addr size)

/-- May bytes of object `index` be written? -/
def mayWrite (sys : System) (s : State) (index : Nat) (obj : LoadedObject)
    (addr size : Nat) : Bool :=
  size == 0 || (obj.holds addr size && s.mappedFor index addr size &&
    decide (userSpaceMinAddr ≤ addr ∧ addr + size ≤ userSpaceMaxAddr ∧
      (addr + size ≤ sys.loaderBegin ∨ sys.loaderEnd ≤ addr)))

/-- Read bytes of object `index`. -/
def readBytes (s : State) (index : Nat) (obj : LoadedObject) (addr size : Nat) :
    Outcome Unit (List UInt8) :=
  if mayRead s index obj addr size then .ok (readAt s.memory addr size) else .stuck

/-- Read a word of object `index`. -/
def readWord (s : State) (index : Nat) (obj : LoadedObject) (addr : Nat) : Outcome Unit Nat := do
  let bytes ← readBytes s index obj addr 4
  return leNat bytes

/-! ## Ranges of an object -/

def isValidVirtualRange (obj : LoadedObject) (vaddr size : Nat) : Bool :=
  decide (vaddr ≤ 0xffffffff - size) &&
    obj.programHeaders.any fun p =>
      p.type == ptLoad && decide (p.vaddr ≤ vaddr ∧ size ≤ p.memsz ∧
        vaddr - p.vaddr ≤ p.memsz - size)

def resolveVirtualToHostAddress (obj : LoadedObject) (vaddr size : Nat) : Outcome Unit Nat := do
  ensure (isValidVirtualRange obj vaddr size = true ∧ vaddr ≤ 0xffffffff - obj.bias) ()
  return vaddr + obj.bias

def resolveTableAddress (obj : LoadedObject) (vaddr count elemSize : Nat) : Outcome Unit Nat := do
  ensure (elemSize ≠ 0 ∧ count ≤ maxImageSize / elemSize) ()
  resolveVirtualToHostAddress obj vaddr (count * elemSize)

/-- The loop of `get_string_at`: the bytes up to a terminator within the next `limit`. -/
def scanString (s : State) (index : Nat) (obj : LoadedObject) :
    Nat → Nat → Outcome Unit (List UInt8)
  | _, 0 => .err ()
  | addr, limit + 1 => do
    let bytes ← readBytes s index obj addr 1
    if bytes = [0] then return []
    else
      let rest ← scanString s index obj (addr + 1) limit
      return bytes ++ rest

def getStringAt (s : State) (index : Nat) (obj : LoadedObject) (offset : Nat) :
    Outcome Unit (List UInt8) := do
  ensure (obj.strtabVaddr ≠ 0 ∧ offset < obj.strtabSize ∧ obj.strtabVaddr ≤ 0xffffffff - offset) ()
  let host ← resolveVirtualToHostAddress obj (obj.strtabVaddr + offset) (obj.strtabSize - offset)
  scanString s index obj host (obj.strtabSize - offset)

/-- `sizeof(Symbol)`. -/
def symbolSize : Nat := 16

/-- The fields of a symbol in memory. -/
def readSymbol (s : State) (index : Nat) (obj : LoadedObject) (addr : Nat) :
    Outcome Unit Symbol := do
  let bytes ← readBytes s index obj addr symbolSize
  return {
    name := field bytes 0 4
    value := field bytes 4 4
    size := field bytes 8 4
    info := field bytes 12 1
    other := field bytes 13 1
    section_ := field bytes 14 2 }

def getSymbolAt (s : State) (index : Nat) (obj : LoadedObject) (symIndex : Nat) :
    Outcome Unit Symbol := do
  ensure (symIndex < obj.symbolCount ∧
    obj.symtabVaddr ≤ 0xffffffff - wrap32 (symIndex * symbolSize)) ()
  let host ← resolveTableAddress obj (wrap32 (obj.symtabVaddr + wrap32 (symIndex * symbolSize))) 1
    symbolSize
  readSymbol s index obj host

end UnDOS.UserLoader
