import UnDOS.Memory.Vmm

/-!
# Loading ELF Images

The mapping phase of `LoadElfFromVfs` (`elf_loader.cpp`, up to the point where the
segments are in place and relocation starts) and `MapAndCopySegment`
(`elf_segment_loader.cpp`).

- A file is its bytes and what the virtual file system answers to seeks and reads.  A
  read may return fewer bytes than were asked for, or an error, but what it returns are
  the file's bytes at the current position.
- Opening and closing the file and the capture callback do not touch the memory manager
  and are left out.
- `p_vaddr + load_delta` is a 32-bit sum.
-/

namespace UnDOS.Memory

open UnDOS.Lib
open UnDOS.Kernel (KernelError)

/-! ## Files -/

/-- An open file: its bytes, and the answers of `KE_VFS_SeekFile` and `KE_VFS_ReadFile`. -/
structure VfsFile where
  bytes : List UInt8
  seek : Nat → Except KernelError Nat
  read : Nat → Nat → Except KernelError (List UInt8)
  /-- What a read returns are the file's bytes at the position. -/
  read_bytes : ∀ pos n data, read pos n = .ok data → data = (bytes.drop pos).take data.length

/-- The read loop of `ReadExact`: `todo` bytes from `pos` on. -/
def readLoop (file : VfsFile) : Nat → Nat → Nat → Except KernelError (List UInt8)
  | 0, _, todo => if todo = 0 then .ok [] else .error .unexpectedEndOfFile
  | fuel + 1, pos, todo =>
    if todo = 0 then .ok []
    else match file.read pos todo with
      | .error e => .error e
      | .ok data =>
        if data.length = 0 then .error .unexpectedEndOfFile
        else if todo < data.length then .error .invalidData
        else match readLoop file fuel (pos + data.length) (todo - data.length) with
          | .error e => .error e
          | .ok rest => .ok (data ++ rest)

def readExact (file : VfsFile) (offset size : Nat) : Except KernelError (List UInt8) :=
  match file.seek offset with
  | .error e => .error e
  | .ok pos => if pos ≠ offset then .error .ioError else readLoop file size offset size

/-! ## Headers -/

/-- The little-endian number in `n` bytes at `off`. -/
def fieldAt (record : List UInt8) (off n : Nat) : Nat := leNat ((record.drop off).take n)

/-- The fields of `Elf32_Ehdr` that the loader reads. -/
structure ElfHeader where
  ident : List UInt8
  phoff : Nat
  shoff : Nat
  phentsize : Nat
  phnum : Nat
  shentsize : Nat
  shnum : Nat
  shstrndx : Nat
deriving DecidableEq

def ehdrSize : Nat := 52
def phdrSize : Nat := 32
def shdrSize : Nat := 40

def ElfHeader.decode (r : List UInt8) : ElfHeader where
  ident := r.take 4
  phoff := fieldAt r 28 4
  shoff := fieldAt r 32 4
  phentsize := fieldAt r 42 2
  phnum := fieldAt r 44 2
  shentsize := fieldAt r 46 2
  shnum := fieldAt r 48 2
  shstrndx := fieldAt r 50 2

/-- The fields of `Elf32_Phdr` that the loader reads. -/
structure ProgramHeader where
  type : Nat
  offset : Nat
  vaddr : Nat
  filesz : Nat
  memsz : Nat
  flags : Nat
deriving DecidableEq

def ProgramHeader.decode (r : List UInt8) : ProgramHeader where
  type := fieldAt r 0 4
  offset := fieldAt r 4 4
  vaddr := fieldAt r 8 4
  filesz := fieldAt r 16 4
  memsz := fieldAt r 20 4
  flags := fieldAt r 24 4

/-- `PT_LOAD`. -/
def ProgramHeader.isLoad (ph : ProgramHeader) : Bool := ph.type == 1

/-- The fields of `Elf32_Shdr` that the mapping phase reads. -/
structure SectionHeader where
  name : Nat
  offset : Nat
  size : Nat
deriving DecidableEq

def SectionHeader.decode (r : List UInt8) : SectionHeader where
  name := fieldAt r 0 4
  offset := fieldAt r 16 4
  size := fieldAt r 20 4

/-- A table of `n` records of `width` bytes. -/
def decodeTable {α : Type} (decode : List UInt8 → α) (width : Nat) (raw : List UInt8) :
    Nat → List α
  | 0 => []
  | n + 1 => decode (raw.take width) :: decodeTable decode width (raw.drop width) n

def maxProgramHeaders : Nat := 16
def maxSectionHeaders : Nat := 64

/-- `0x7F 'E' 'L' 'F'`. -/
def elfMagic : List UInt8 := [0x7F, 0x45, 0x4C, 0x46]

/-! ## Policies and buffers -/

/-- `kernel::elf::LoadPolicy`, what the mapping phase reads of it.  `capture` is the name
filter of a valid capture callback, empty for every named section. -/
structure LoadPolicy where
  relocatable : Bool := false
  userMode : Bool := false
  targetAs : Option SpaceRef := none
  capture : Option (List UInt8) := none

/-- `ReadBlob`: the bytes and the heap block they are in.  No block for no bytes. -/
def readBlob (file : VfsFile) (offset size : Nat) : Vmm (List UInt8 × Option Block) :=
  if size = 0 then pure ([], none)
  else do
    let block ← malloc size
    match block with
    | none => Prog.throw .outOfMemory
    | some block =>
      match readExact file offset size with
      | .error e => do
        free block
        Prog.throw e
      | .ok data => pure (data, some block)

/-- `KE_Free` of a pointer that may be null. -/
def freeBlock : Option Block → Vmm Unit
  | none => pure ()
  | some block => free block

/-- Use a blob and free it, also when its user fails. -/
def withBlob {α : Type} (file : VfsFile) (offset size : Nat) (body : List UInt8 → Vmm α) :
    Vmm α := do
  let (data, block) ← readBlob file offset size
  let r ← Prog.attempt (body data)
  freeBlock block
  Prog.ofExcept r

/-- One round of the loop in `CaptureSections`. -/
def captureSection (file : VfsFile) (wanted shstr : List UInt8) (sh : SectionHeader) : Vmm Unit :=
  if shstr.length ≤ sh.name then pure ()
  else
    let name := (shstr.drop sh.name).takeWhile (· ≠ 0)
    if name = [] then pure ()
    else if wanted ≠ [] ∧ name ≠ wanted then pure ()
    else withBlob file sh.offset sh.size fun _ => pure ()

/-- The loop in `CaptureSections`. -/
def captureLoop (file : VfsFile) (wanted shstr : List UInt8) : List SectionHeader → Vmm Unit
  | [] => pure ()
  | sh :: rest => do
    captureSection file wanted shstr sh
    captureLoop file wanted shstr rest

def captureSections (file : VfsFile) (header : ElfHeader) (shdrs : List SectionHeader)
    (policy : LoadPolicy) : Vmm Unit :=
  match policy.capture with
  | none => pure ()
  | some wanted =>
    match shdrs[header.shstrndx]? with
    | none => Prog.throw .invalidData
    | some shstrtab =>
      withBlob file shstrtab.offset shstrtab.size fun shstr => captureLoop file wanted shstr shdrs

/-! ## Segments -/

/-- One round of the mapping loop of `MapAndCopySegment`. -/
def mapSegmentPage (startPage : Nat) (flags : ProtectFlags) (i : Nat) : Vmm Unit := do
  let phys ← pmmAllocateFrames 1
  if phys = 0 then Prog.throw .outOfMemory
  else do
    let ok ← vmmMapPage (startPage + i * pageSize) phys flags
    if ok then memsetPage (startPage + i * pageSize)
    else do
      pmmFreeFrames phys 1
      Prog.throw .deviceError

/-- One round of its rollback. -/
def rollbackPage (page : Nat) : Vmm Unit := do
  let phys ← vmmGetPhysicalAddress page
  vmmUnmapPage page
  if phys ≠ 0 then pmmFreeFrames phys 1 else pure ()

/-- The first page address of a segment, and the address after its last page. -/
def segmentStart (virt : Nat) : Nat := alignDown virt
def segmentEnd (virt memSize : Nat) : Nat := alignUp (virt + memSize)

/-- `MapAndCopySegment`.  `data` is `none` for a null pointer. -/
def mapAndCopySegment (virt : Nat) (data : Option (List UInt8)) (fileSize memSize : Nat)
    (flags : ProtectFlags) : Vmm Unit :=
  if (fileSize ≠ 0 ∧ data = none) ∨ fileSize > memSize then Prog.throw .invalidArgument
  else if memSize > uintptrMax - virt ∨ virt + memSize > uintptrMax - 4095 then
    Prog.throw .arithmeticOverflow
  else do
    let count := (segmentEnd virt memSize - segmentStart virt) / pageSize
    let (mapped, failure) ← Prog.countTry count (mapSegmentPage (segmentStart virt) flags)
    match failure with
    | some e => do
      Prog.forRange mapped fun i => rollbackPage (segmentStart virt + i * pageSize)
      Prog.throw e
    | none => memcpyTo virt ((data.getD []).take fileSize)

/-- A program header with the bytes that were read for it. -/
structure LoadedSegment where
  header : ProgramHeader
  data : Option (List UInt8) := none
  block : Option Block := none
deriving DecidableEq

/-- Read the file bytes of every `PT_LOAD` segment, up to the first failure. -/
def readSegments (file : VfsFile) : List ProgramHeader →
    Vmm (List LoadedSegment × Option KernelError)
  | [] => pure ([], none)
  | ph :: rest =>
    if !ph.isLoad ∨ ph.filesz = 0 then do
      let (segs, status) ← readSegments file rest
      pure (⟨ph, none, none⟩ :: segs, status)
    else do
      let blob ← Prog.attempt (readBlob file ph.offset ph.filesz)
      match blob with
      | .error e => pure ([], some e)
      | .ok (data, block) => do
        let (segs, status) ← readSegments file rest
        pure (⟨ph, some data, block⟩ :: segs, status)

/-- The protection of a segment. -/
def segmentFlags (policy : LoadPolicy) (ph : ProgramHeader) : ProtectFlags :=
  let perms := match policy.targetAs with
    | none => ProtectFlags.readWrite
    | some _ =>
      let user := if policy.userMode then ProtectFlags.onlyUser else {}
      let write := if ph.flags / 2 % 2 = 1 then ProtectFlags.onlyWrite else {}
      (ProtectFlags.onlyRead.or user).or write
  if ph.flags % 2 = 1 then perms.or ProtectFlags.onlyExecute else perms

/-- `p_vaddr + load_delta`. -/
def segmentVirt (delta : Nat) (ph : ProgramHeader) : Nat := (ph.vaddr + delta) % 2 ^ 32

/-- Map the `PT_LOAD` segments one after another, up to the first failure. -/
def mapSegments (policy : LoadPolicy) (delta : Nat) : List LoadedSegment →
    Vmm (Option KernelError)
  | [] => pure none
  | seg :: rest =>
    if !seg.header.isLoad then mapSegments policy delta rest
    else do
      let r ← Prog.attempt (mapAndCopySegment (segmentVirt delta seg.header) seg.data
        seg.header.filesz seg.header.memsz (segmentFlags policy seg.header))
      match r with
      | .error e => pure (some e)
      | .ok _ => mapSegments policy delta rest

/-! ## The mapping phase -/

/-- Where the image goes: what is added to every `p_vaddr`, and the kernel region. -/
structure Placement where
  delta : Nat := 0
  regionBase : Nat := 0
  regionSize : Nat := 0
deriving DecidableEq

/-- The lowest address of the `PT_LOAD` segments and the highest end, as 32-bit sums. -/
def loadBounds : List ProgramHeader → Nat × Nat
  | [] => (uintptrMax, 0)
  | ph :: rest =>
    let (lo, hi) := loadBounds rest
    if ph.isLoad then (min ph.vaddr lo, max ((ph.vaddr + ph.memsz) % 2 ^ 32) hi) else (lo, hi)

/-- The kernel region for a relocatable image; an image with a target address space is
mapped where it asks to be.  `insert` is the object manager's answer. -/
def placeImage (policy : LoadPolicy) (phdrs : List ProgramHeader)
    (insert : Except KernelError Unit) : Vmm Placement :=
  match policy.targetAs with
  | some _ => pure {}
  | none =>
    let (minVaddr, maxVaddr) := loadBounds phdrs
    if maxVaddr ≤ minVaddr then Prog.throw .invalidExecutable
    else do
      let ok ← cacheAllocate
      if !ok then Prog.throw .outOfMemory
      else do
        Prog.ofExcept insert
        let vad ← mapBackingObject .kernel (some .kernelModule) (maxVaddr - minVaddr)
          ProtectFlags.readWrite
        -- A 32-bit difference.
        pure ⟨(vad.start + 2 ^ 32 - minVaddr) % 2 ^ 32, vad.start, maxVaddr - minVaddr⟩

/-- The program headers, after the checks on the file header. -/
def readHeaders (file : VfsFile) : Except KernelError (ElfHeader × List ProgramHeader) :=
  match readExact file 0 ehdrSize with
  | .error e => .error e
  | .ok raw =>
    let header := ElfHeader.decode raw
    if header.ident ≠ elfMagic ∨ maxProgramHeaders < header.phnum ∨ header.phentsize ≠ phdrSize then
      .error .invalidExecutable
    else match readExact file header.phoff (header.phnum * phdrSize) with
      | .error e => .error e
      | .ok raw => .ok (header, decodeTable ProgramHeader.decode phdrSize raw header.phnum)

/-- The section headers, for a relocatable image. -/
def readSections (file : VfsFile) (header : ElfHeader) :
    Except KernelError (List SectionHeader) :=
  if maxSectionHeaders < header.shnum ∨ header.shentsize ≠ shdrSize then .error .invalidExecutable
  else match readExact file header.shoff (header.shnum * shdrSize) with
    | .error e => .error e
    | .ok raw => .ok (decodeTable SectionHeader.decode shdrSize raw header.shnum)

/-- The sections of a relocatable image, captured. -/
def captureImage (file : VfsFile) (policy : LoadPolicy) (header : ElfHeader) : Vmm Unit :=
  if !policy.relocatable then pure ()
  else match readSections file header with
    | .error e => Prog.throw e
    | .ok shdrs => captureSections file header shdrs policy

/-- What the mapping phase leaves behind. -/
structure MappedImage where
  placement : Placement
  segments : List LoadedSegment
  status : Option KernelError
deriving DecidableEq

/-- `LoadElfFromVfs` up to the end of the mapping loop. -/
def mapImage (file : VfsFile) (policy : LoadPolicy) (insert : Except KernelError Unit) :
    Vmm MappedImage := do
  let (header, phdrs) ← Prog.ofExcept (readHeaders file)
  captureImage file policy header
  let placement ← placeImage policy phdrs insert
  let (segments, readStatus) ← readSegments file phdrs
  match readStatus with
  | some e => pure ⟨placement, segments, some e⟩
  | none => do
    let m ← Prog.get
    let root := match policy.targetAs with
      | none => 0
      | some ref => (m.space ref).translationRoot
    let status ← withSpace policy.targetAs.isSome root
      (mapSegments policy placement.delta segments)
    pure ⟨placement, segments, status⟩

end UnDOS.Memory
