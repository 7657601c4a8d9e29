import UnDOS.Lib.ByteStore
import UnDOS.Lib.Safe

/-!
# Direct Loader: ELF Records and Checked Reads

The data model of `Boot/GrubDirect/core/loader_core.h` and the accessors at the
top of `loader_core.c`.

- A blob is the list of its bytes.  A read outside it is `stuck`.
- `udl_u32` values are numbers below `2 ^ 32`; sums that the source lets wrap are
  written with `wrap32`, sums that it checks go through `add32`.
- The section array of an image is indexed by `sectionAt`, which is `stuck` from
  `section_count` on.
- A `const char *` is the rest of the object it points into, so that reading past
  the end of that object is visible.

The pointer arguments of the source are never null here.
-/

namespace UnDOS.Loader

open UnDOS.Lib

/-! ## Constants -/

def elfHeaderSize : Nat := 52
def elfProgramSize : Nat := 32
def elfSectionSize : Nat := 40
def elfSymbolSize : Nat := 16
def elfRelSize : Nat := 8
def elfRelaSize : Nat := 12
def elfMaxSegments : Nat := 4096

def udlPageSize : Nat := 4096
def udlKernelBase : Nat := 0xc0000000
def udlHalLinkBase : Nat := 0x80000000
def udlVirtualLimit : Nat := 0xc0800000
def udlMaxSections : Nat := 4096
def udlMaxSymbols : Nat := 65536
def udlMaxRelocations : Nat := 1048576
def udlMaxExports : Nat := 1024
def udlNamePoolSize : Nat := 48 * 1024
def udlBootinfoSizeMax : Nat := 0x00100000

def roleKernel : Nat := 0
def roleHal : Nat := 1

/-- `0xffffffffu`: no such section, or an unused write slot. -/
def noIndex : Nat := 0xffffffff

def ptLoad : Nat := 1
def ptDynamic : Nat := 2
def ptInterp : Nat := 3
def ptTls : Nat := 7
def shtNull : Nat := 0
def shtSymtab : Nat := 2
def shtStrtab : Nat := 3
def shtRela : Nat := 4
def shtNobits : Nat := 8
def shtRel : Nat := 9
def shtDynsym : Nat := 11
def shnUndef : Nat := 0
def shnAbs : Nat := 0xfff1
def shnCommon : Nat := 0xfff2
def shnXindex : Nat := 0xffff
def stbGlobal : Nat := 1
def stbWeak : Nat := 2
def stvDefault : Nat := 0
def stvProtected : Nat := 3
def sttTls : Nat := 6

def r386None : Nat := 0
def r386Abs32 : Nat := 1
def r386Pc32 : Nat := 2
def r386Got32 : Nat := 3
def r386Plt32 : Nat := 4
def r386Relative : Nat := 8
def r386Gotoff : Nat := 9
def r386Gotpc : Nat := 10
def r386Got32x : Nat := 43

/-! ## Records -/

/-- `udl_error`, without `UDL_OK`: a routine that succeeds returns its value. -/
inductive UdlError where
  | badArgument | badElf | unsupportedElf | capacity | badMemoryMap | noMemory
  | unresolvedSymbol | badRelocation | badLayout
deriving DecidableEq

/-- What a loader routine computes. -/
abbrev Load := Outcome UdlError

/-- `udl_section`. -/
structure Section where
  name : Nat
  type : Nat
  flags : Nat
  address : Nat
  offset : Nat
  size : Nat
  link : Nat
  info : Nat
  alignment : Nat
  entrySize : Nat
deriving DecidableEq

/-- `SHF_ALLOC` is set: the section occupies memory at run time. -/
def Section.alloc (s : Section) : Bool := s.flags / 2 % 2 == 1

/-- `udl_segment`, without the type, which is always `PT_LOAD`. -/
structure Segment where
  offset : Nat
  address : Nat
  fileSize : Nat
  memorySize : Nat
  alignment : Nat
deriving DecidableEq

/-- The out-parameters of `get_symbol`. -/
structure Symbol where
  name : Nat
  value : Nat
  size : Nat
  info : Nat
  other : Nat
  section_ : Nat
deriving DecidableEq

/-- `udl_image`.  `sections` is the caller's array up to `section_count`. -/
structure Image where
  blob : List UInt8
  sections : List Section
  linkedBase : Nat
  runtimeBase : Nat
  end_ : Nat
  span : Nat
  entry : Nat
  programOffset : Nat
  programCount : Nat
  sectionCount : Nat
  symbolSection : Nat
  stringSection : Nat
  gotSection : Nat
  gotLinkedBase : Nat
  gotSize : Nat
  bias : Nat
  role : Nat
deriving DecidableEq

/-- A C string: the bytes of its object from the pointer on. -/
abbrev CString := List UInt8

/-- `udl_export`.  `name` points at the copy of the name in the name pool, which
    ends right after its terminator. -/
structure Export where
  name : CString
  address : Nat
  nameOffset : Nat
  image : Nat
deriving DecidableEq

/-- `udl_export_table`. -/
structure ExportTable where
  exports : List Export
  exportCapacity : Nat
  nameCapacity : Nat
  namesUsed : Nat
  kernelExportCount : Nat
  duplicateExports : Nat
deriving DecidableEq

/-- `udl_write_slot`. -/
structure WriteSlot where
  site : Nat
  value : Nat
deriving DecidableEq

/-! ## 32-bit arithmetic -/

/-- The value of an unsigned 32-bit expression. -/
def wrap32 (n : Nat) : Nat := n % 2 ^ 32

/-- `left - right` on `udl_u32`. -/
def sub32 (left right : Nat) : Nat := wrap32 (left + (2 ^ 32 - right))

/-- `add32`: the sum, unless it overflows. -/
def add32 (left right : Nat) : Option Nat :=
  if left + right > 0xffffffff then none else some (left + right)

def powerOfTwo (value : Nat) : Bool := value != 0 && value &&& (value - 1) == 0

def rangeFits (size offset length : Nat) : Bool := offset ≤ size && length ≤ size - offset

/-- `(value + UDL_PAGE_SIZE - 1) & ~(UDL_PAGE_SIZE - 1)` on `udl_u32`. -/
def pageUp (value : Nat) : Nat := wrap32 (value + (udlPageSize - 1)) / udlPageSize * udlPageSize

theorem wrap32_lt (n : Nat) : wrap32 n < 2 ^ 32 := Nat.mod_lt _ (by decide)

theorem wrap32_of_lt {n : Nat} (h : n < 2 ^ 32) : wrap32 n = n := Nat.mod_eq_of_lt h

theorem sub32_of_le {a b : Nat} (h : b ≤ a) (ha : a < 2 ^ 32) : sub32 a b = a - b := by
  unfold sub32 wrap32
  omega

theorem add32_eq_some {a b c : Nat} (h : add32 a b = some c) : c = a + b ∧ a + b < 2 ^ 32 := by
  unfold add32 at h
  split at h
  · cases h
  · rename_i hfit
    cases h
    exact ⟨rfl, by omega⟩

theorem rangeFits_iff {size offset length : Nat} :
    rangeFits size offset length = true ↔ offset + length ≤ size := by
  simp only [rangeFits, Bool.and_eq_true, decide_eq_true_eq]
  omega

/-! ## Reads of the blob -/

/-- `blob.bytes[at]`. -/
def byteAt (blob : List UInt8) (at_ : Nat) : Load UInt8 :=
  match blob[at_]? with
  | some b => .ok b
  | none => .stuck

/-- The little-endian number in `n` bytes of the blob, zero-extended past its end. -/
def blobWord (blob : List UInt8) (at_ n : Nat) : Nat := leNat ((blob.drop at_).take n)

/-- `read16(blob.bytes + at)`. -/
def read16 (blob : List UInt8) (at_ : Nat) : Load Nat :=
  if at_ + 2 ≤ blob.length then .ok (blobWord blob at_ 2) else .stuck

/-- `read32(blob.bytes + at)`. -/
def read32 (blob : List UInt8) (at_ : Nat) : Load Nat :=
  if at_ + 4 ≤ blob.length then .ok (blobWord blob at_ 4) else .stuck

theorem byteAt_of_lt {blob : List UInt8} {i : Nat} (h : i < blob.length) :
    byteAt blob i = .ok (blob.getD i 0) := by
  unfold byteAt
  simp [h]

theorem read16_of_le {blob : List UInt8} {i : Nat} (h : i + 2 ≤ blob.length) :
    read16 blob i = .ok (blobWord blob i 2) := if_pos h

theorem read32_of_le {blob : List UInt8} {i : Nat} (h : i + 4 ≤ blob.length) :
    read32 blob i = .ok (blobWord blob i 4) := if_pos h

theorem blobWord_lt (blob : List UInt8) (i n : Nat) : blobWord blob i n < 256 ^ n := by
  have hlt := leNat_lt ((blob.drop i).take n)
  have hlen : ((blob.drop i).take n).length ≤ n := List.length_take_le n _
  exact hlt.trans_le (Nat.pow_le_pow_right (by decide) hlen)

theorem blobWord_lt_word (blob : List UInt8) (i : Nat) : blobWord blob i 4 < 2 ^ 32 :=
  blobWord_lt blob i 4

section Reads

variable {blob : List UInt8} {β : Type} {R : β → Prop} {i : Nat}

theorem safe_byteAt {f : UInt8 → Load β} (h : i < blob.length)
    (hf : Outcome.Safe (f (blob.getD i 0)) R) : Outcome.Safe (byteAt blob i >>= f) R := by
  rw [byteAt_of_lt h]
  exact hf

theorem safe_read16 {f : Nat → Load β} (h : i + 2 ≤ blob.length)
    (hf : Outcome.Safe (f (blobWord blob i 2)) R) : Outcome.Safe (read16 blob i >>= f) R := by
  rw [read16_of_le h]
  exact hf

theorem safe_read32 {f : Nat → Load β} (h : i + 4 ≤ blob.length)
    (hf : Outcome.Safe (f (blobWord blob i 4)) R) : Outcome.Safe (read32 blob i >>= f) R := by
  rw [read32_of_le h]
  exact hf

end Reads

/-! ## Section array and strings -/

/-- `image->sections[index]`. -/
def sectionAt (image : Image) (index : Nat) : Load Section :=
  if index < image.sectionCount then
    match image.sections[index]? with
    | some s => .ok s
    | none => .stuck
  else .stuck

/-- The byte index of the first zero among `remaining` bytes from `at`, counted
    from `i`. -/
def findNul (blob : List UInt8) (at_ : Nat) : Nat → Nat → Load (Option Nat)
  | 0, _ => .ok none
  | remaining + 1, i => do
    let b ← byteAt blob (at_ + i)
    if b = 0 then pure (some i) else findNul blob at_ remaining (i + 1)

/-- `bounded_string`: the string at `offset` of a section, with its length, if it
    ends inside the section. -/
def boundedString (image : Image) (sectionIndex offset : Nat) : Load (Option (CString × Nat)) :=
  if image.sectionCount ≤ sectionIndex then pure none
  else do
    let s ← sectionAt image sectionIndex
    if s.size ≤ offset then pure none
    else do
      let bytes := s.offset + offset
      let found ← findNul image.blob bytes (s.size - offset) 0
      pure (found.map fun length => (image.blob.drop bytes, length))

def stringEqual : CString → CString → Load Bool
  | l :: left, r :: right =>
    if l ≠ 0 ∧ l = r then stringEqual left right else pure (l == r)
  | _, _ => .stuck

/-- `string_prefix` with a literal prefix, given without its terminator. -/
def stringPrefix : CString → List UInt8 → Load Bool
  | _, [] => pure true
  | [], _ :: _ => .stuck
  | v :: value, p :: rest => if v ≠ p then pure false else stringPrefix value rest

/-- The characters of a C string, without the terminator. -/
def chars (s : CString) : List UInt8 := s.takeWhile (· ≠ 0)

/-- `"_GLOBAL_OFFSET_TABLE_"`. -/
def gotSymbolName : List UInt8 :=
  [95, 71, 76, 79, 66, 65, 76, 95, 79, 70, 70, 83, 69, 84, 95, 84, 65, 66, 76, 69, 95]

/-- `".got"`. -/
def gotSectionPrefix : List UInt8 := [46, 103, 111, 116]

def getSymbol (image : Image) (index : Nat) : Load (Option Symbol) := do
  let symtab ← sectionAt image image.symbolSection
  if symtab.size / elfSymbolSize ≤ index then pure none
  else do
    let strings ← sectionAt image image.stringSection
    let symbol := symtab.offset + wrap32 (index * elfSymbolSize)
    let name ← read32 image.blob symbol
    let value ← read32 image.blob (symbol + 4)
    let size ← read32 image.blob (symbol + 8)
    let info ← byteAt image.blob (symbol + 12)
    let other ← byteAt image.blob (symbol + 13)
    let sec ← read16 image.blob (symbol + 14)
    if name < strings.size then
      pure (some ⟨name, value, size, info.toNat, other.toNat, sec⟩)
    else pure none

/-! ## Program headers -/

/-- The offset of program header `i`. -/
def programAt (image : Image) (i : Nat) : Nat := image.programOffset + wrap32 (i * elfProgramSize)

def rangeInSegment (image : Image) (address length : Nat) : Load Bool :=
  Outcome.anyRange image.programCount fun i => do
    let program := programAt image i
    let start ← read32 image.blob (program + 8)
    let memsz ← read32 image.blob (program + 20)
    let type ← read32 image.blob program
    if type ≠ ptLoad ∨ memsz = 0 then pure false
    else
      match add32 start memsz with
      | none => pure false
      | some end_ =>
        pure (start ≤ address && address ≤ end_ && length ≤ end_ - address)

def sectionIsLoaded (image : Image) (s : Section) : Load Bool :=
  if !s.alloc ∨ s.size = 0 then pure true
  else rangeInSegment image s.address s.size

def segmentByte (image : Image) (segment : Segment) (address : Nat) : Load UInt8 :=
  let offset := sub32 address segment.address
  if offset < segment.fileSize then byteAt image.blob (wrap32 (segment.offset + offset))
  else pure 0

/-- The fields of program header `i` that the loader keeps. -/
def segmentFields (image : Image) (i : Nat) : Load Segment := do
  let program := programAt image i
  let offset ← read32 image.blob (program + 4)
  let address ← read32 image.blob (program + 8)
  let fileSize ← read32 image.blob (program + 16)
  let memorySize ← read32 image.blob (program + 20)
  let alignment ← read32 image.blob (program + 28)
  pure ⟨offset, address, fileSize, memorySize, alignment⟩

def readSegment (image : Image) (index : Nat) : Load (Option Segment) :=
  if image.programCount ≤ index then pure none
  else do
    let type ← read32 image.blob (programAt image index)
    if type ≠ ptLoad then pure none
    else do
      let segment ← segmentFields image index
      pure (if segment.memorySize ≠ 0 then some segment else none)

end UnDOS.Loader
