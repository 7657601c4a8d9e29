import UnDOS.Loader.Format

/-!
# Direct Loader: Opening an Image

`udl_image_open`, cut at the blocks of its body.  Every block is a routine of its
own here; `imageOpen` runs them in the source's order.  A block that fails ends
the whole routine with its error.
-/

namespace UnDOS.Loader

open UnDOS.Lib UnDOS.Lib.Outcome

/-! ## Header -/

/-- The fields of the ELF header that the loader keeps. -/
structure Header where
  entry : Nat
  phoff : Nat
  shoff : Nat
  phnum : Nat
  shnum : Nat
  shstrndx : Nat
deriving DecidableEq

/-- The identification bytes, the file type, the machine and the version. -/
def checkIdentity (blob : List UInt8) : Load Unit := do
  let b0 ← byteAt blob 0
  let b1 ← byteAt blob 1
  let b2 ← byteAt blob 2
  let b3 ← byteAt blob 3
  let b4 ← byteAt blob 4
  let b5 ← byteAt blob 5
  let b6 ← byteAt blob 6
  let type ← read16 blob 16
  let machine ← read16 blob 18
  let version ← read32 blob 20
  ensure ([b0, b1, b2, b3, b4, b5, b6] = [0x7f, 69, 76, 70, 1, 1, 1]
    ∧ type = 2 ∧ machine = 3 ∧ version = 1) .unsupportedElf

/-- The header, once the sizes and counts in it have been checked. -/
def readHeader (blob : List UInt8) (sectionCapacity : Nat) : Load Header := do
  let entry ← read32 blob 24
  let phoff ← read32 blob 28
  let shoff ← read32 blob 32
  let ehsize ← read16 blob 40
  let phentsize ← read16 blob 42
  let phnum ← read16 blob 44
  let shentsize ← read16 blob 46
  let shnum ← read16 blob 48
  let shstrndx ← read16 blob 50
  ensure (ehsize = elfHeaderSize ∧ phentsize = elfProgramSize ∧ shentsize = elfSectionSize
    ∧ phnum ≠ 0 ∧ phnum ≤ elfMaxSegments ∧ phnum ≠ 0xffff ∧ shnum ≠ 0 ∧ shnum ≠ 0xffff
    ∧ shstrndx ≠ 0xffff ∧ shstrndx < shnum) .badElf
  ensure (shnum ≤ udlMaxSections ∧ shnum ≤ sectionCapacity
    ∧ rangeFits blob.length phoff (phnum * elfProgramSize)
    ∧ rangeFits blob.length shoff (shnum * elfSectionSize)) .capacity
  pure ⟨entry, phoff, shoff, phnum, shnum, shstrndx⟩

/-- The image right after the header was accepted. -/
def initialImage (blob : List UInt8) (header : Header) (role : Nat) : Image where
  blob := blob
  sections := []
  linkedBase := if role = roleKernel then udlKernelBase else udlHalLinkBase
  runtimeBase := 0
  end_ := 0
  span := 0
  entry := header.entry
  programOffset := header.phoff
  programCount := header.phnum
  sectionCount := header.shnum
  symbolSection := noIndex
  stringSection := noIndex
  gotSection := noIndex
  gotLinkedBase := 0
  gotSize := 0
  bias := 0
  role := role

/-! ## Section headers -/

/-- One section header. -/
def readSection (blob : List UInt8) (source : Nat) : Load Section := do
  let name ← read32 blob source
  let type ← read32 blob (source + 4)
  let flags ← read32 blob (source + 8)
  let address ← read32 blob (source + 12)
  let offset ← read32 blob (source + 16)
  let size ← read32 blob (source + 20)
  let link ← read32 blob (source + 24)
  let info ← read32 blob (source + 28)
  let alignment ← read32 blob (source + 32)
  let entrySize ← read32 blob (source + 36)
  pure ⟨name, type, flags, address, offset, size, link, info, alignment, entrySize⟩

/-- The checks on one section header that need nothing but the header itself. -/
def checkSection (shnum : Nat) (s : Section) : Load Unit := do
  ensure (s.type ≠ shtDynsym) .unsupportedElf
  ensure (¬(s.type = shtRela ∧ s.alloc)) .unsupportedElf
  ensure (¬(s.type = shtRela ∧ shnum ≤ s.info)) .badElf
  ensure (¬(s.type = shtRel ∧ shnum ≤ s.info)) .badElf
  ensure (s.alloc → (add32 s.address s.size).isSome) .badElf

/-- Remember section `i` as the symbol table if it is one. -/
def noteSymtab (i : Nat) (s : Section) (image : Image) : Load Image :=
  if s.type = shtSymtab then do
    ensure (image.symbolSection = noIndex) .unsupportedElf
    pure { image with symbolSection := i }
  else pure image

/-- The loop over the section headers: it fills `sections` and finds the symbol
    table. -/
def readSections (shoff : Nat) (image : Image) : Load Image :=
  forRange image.sectionCount (fun i image => do
    let s ← readSection image.blob (shoff + wrap32 (i * elfSectionSize))
    let image := { image with sections := image.sections ++ [s] }
    ensure (s.alignment > 1 → powerOfTwo s.alignment) .badElf
    ensure (s.type ≠ shtNull ∧ s.type ≠ shtNobits →
      rangeFits image.blob.length s.offset s.size) .badElf
    let image ← noteSymtab i s image
    checkSection image.sectionCount s
    pure image) image

/-- `validate_strings`: every section has a name in the section name table. -/
def validateStrings (image : Image) : Load Unit := do
  let shstrndx ← read16 image.blob 50
  let names ← sectionAt image shstrndx
  ensure (names.type = shtStrtab ∧ names.size ≠ 0) .badElf
  forRange image.sectionCount (fun i _ => do
    let s ← sectionAt image i
    let name ← boundedString image shstrndx s.name
    ensure name.isSome .badElf) ()

/-- The checks on the symbol table, and its string table. -/
def bindSymbolTable (image : Image) : Load Image := do
  ensure (image.symbolSection ≠ noIndex) .badElf
  let symtab ← sectionAt image image.symbolSection
  ensure (symtab.entrySize = elfSymbolSize ∧ symtab.size % elfSymbolSize = 0
    ∧ symtab.size / elfSymbolSize ≤ udlMaxSymbols ∧ symtab.link < image.sectionCount) .badElf
  let strings ← sectionAt image symtab.link
  ensure (strings.type = shtStrtab) .badElf
  let symtabLoaded ← sectionIsLoaded image symtab
  ensure symtabLoaded .badElf
  let stringsLoaded ← sectionIsLoaded image strings
  ensure stringsLoaded .badElf
  pure { image with stringSection := symtab.link }

/-! ## Program headers -/

/-- What the loop over the program headers accumulates. -/
structure Extent where
  minAddress : Nat := 0xffffffff
  maxAddress : Nat := 0
  segmentCount : Nat := 0
deriving DecidableEq

/-- The checks on one `PT_LOAD` header. -/
def checkSegment (blobSize : Nat) (segment : Segment) : Load Nat := do
  ensure (segment.fileSize ≤ segment.memorySize
    ∧ rangeFits blobSize segment.offset segment.fileSize
    ∧ (segment.alignment > 1 → powerOfTwo segment.alignment
      ∧ segment.offset % segment.alignment = segment.address % segment.alignment)) .badElf
  orElse .badElf (add32 segment.address segment.memorySize)

/-- The loop over the program headers. -/
def scanSegments (image : Image) : Load Extent :=
  forRange image.programCount (fun i extent => do
    let type ← read32 image.blob (programAt image i)
    ensure (type ≠ ptInterp ∧ type ≠ ptDynamic ∧ type ≠ ptTls) .unsupportedElf
    if type ≠ ptLoad then pure extent
    else do
      ensure (extent.segmentCount < elfMaxSegments) .capacity
      let segment ← segmentFields image i
      let end_ ← checkSegment image.blob.length segment
      pure (if segment.memorySize = 0 then extent else
        { minAddress := if segment.address < extent.minAddress
            then segment.address else extent.minAddress
          maxAddress := if end_ > extent.maxAddress then end_ else extent.maxAddress
          segmentCount := extent.segmentCount + 1 })) {}

/-- The loaded bytes of two segments agree on `[start, end)`. -/
def checkOverlap (image : Image) (left right : Segment) (start end_ : Nat) : Load Unit :=
  forRange (end_ - start) (fun k _ => do
    let a ← segmentByte image left (start + k)
    let b ← segmentByte image right (start + k)
    ensure (a = b) .badElf) ()

def checkSegmentOverlaps (image : Image) : Load Unit :=
  forRange image.programCount (fun i _ => do
    match ← readSegment image i with
    | none => pure ()
    | some left =>
      forRange (image.programCount - (i + 1)) (fun k _ => do
        match ← readSegment image (i + 1 + k) with
        | none => pure ()
        | some right =>
          let aEnd := wrap32 (left.address + left.memorySize)
          let bEnd := wrap32 (right.address + right.memorySize)
          let start := if left.address > right.address then left.address else right.address
          let end_ := if aEnd < bEnd then aEnd else bEnd
          checkOverlap image left right start end_) ()) ()

/-- The extent of the image in memory. -/
def checkExtent (image : Image) (extent : Extent) : Load Unit :=
  ensure (extent.segmentCount ≠ 0 ∧ extent.minAddress = image.linkedBase
    ∧ extent.minAddress ≤ extent.maxAddress ∧ extent.maxAddress ≤ udlVirtualLimit
    ∧ extent.maxAddress - extent.minAddress ≤ udlVirtualLimit - udlKernelBase) .badLayout

/-- The entry point of a kernel lies in an executable segment. -/
def checkEntry (image : Image) (extent : Extent) : Load Unit :=
  if image.role = roleKernel then do
    ensure (extent.minAddress ≤ image.entry ∧ image.entry < extent.maxAddress) .badLayout
    let executable ← anyRange image.programCount (fun i => do
      let program := programAt image i
      let start ← read32 image.blob (program + 8)
      let memsz ← read32 image.blob (program + 20)
      let end_ := wrap32 (start + memsz)
      let type ← read32 image.blob program
      let flags ← read32 image.blob (program + 24)
      pure (type == ptLoad && flags % 2 == 1 && start ≤ image.entry && image.entry < end_))
    ensure executable .badLayout
  else pure ()

/-- Every section that occupies memory lies in a segment. -/
def checkSectionsLoaded (image : Image) : Load Unit :=
  forRange image.sectionCount (fun i _ => do
    let s ← sectionAt image i
    let loaded ← sectionIsLoaded image s
    ensure loaded .badElf) ()

/-! ## Symbols -/

/-- The loop over the symbols. -/
def checkSymbols (image : Image) : Load Unit := do
  let symtab ← sectionAt image image.symbolSection
  let strtab ← sectionAt image image.stringSection
  forRange (symtab.size / elfSymbolSize) (fun i _ => do
    let symbol := symtab.offset + wrap32 (i * elfSymbolSize)
    let nameOffset ← read32 image.blob symbol
    let info ← byteAt image.blob (symbol + 12)
    let type := info.toNat % 16
    let sectionIndex ← read16 image.blob (symbol + 14)
    let sectionValue ← read32 image.blob (symbol + 4)
    let symbolSize ← read32 image.blob (symbol + 8)
    ensure (nameOffset < strtab.size) .badElf
    let name ← boundedString image image.stringSection nameOffset
    ensure name.isSome .badElf
    ensure (type ≠ sttTls ∧ sectionIndex ≠ shnCommon ∧ sectionIndex ≠ shnXindex
      ∧ (image.sectionCount ≤ sectionIndex → sectionIndex = shnUndef ∨ sectionIndex = shnAbs))
      .unsupportedElf
    if sectionIndex < image.sectionCount ∧ sectionIndex ≠ shnUndef then do
      let s ← sectionAt image sectionIndex
      if s.alloc ∧ symbolSize ≠ 0 then do
        let inside ← rangeInSegment image sectionValue symbolSize
        ensure inside .badElf
      else pure ()
    else pure ()) ()

/-! ## Relocations -/

/-- The checks on one relocation entry. -/
def checkRelocation (image : Image) (target : Section) (rel : Nat) : Load Unit := do
  let info ← read32 image.blob (rel + 4)
  let symbolIndex := info / 256
  let relType := info % 256
  let site ← read32 image.blob rel
  let symtab ← sectionAt image image.symbolSection
  ensure (symbolIndex < symtab.size / elfSymbolSize) .badElf
  if target.alloc ∧ relType ≠ r386None then do
    ensure (target.address ≤ site ∧ site - target.address ≤ target.size
      ∧ 4 ≤ target.size - (site - target.address)) .badElf
    let inside ← rangeInSegment image site 4
    ensure inside .badElf
  else pure ()

/-- The loop over the relocation sections; it counts the relocations. -/
def checkRelocations (image : Image) : Load Nat :=
  forRange image.sectionCount (fun i relocationCount => do
    let relocations ← sectionAt image i
    let entrySize := if relocations.type = shtRel then elfRelSize else elfRelaSize
    let count := relocations.size / entrySize
    if relocations.type ≠ shtRel ∧ relocations.type ≠ shtRela then pure relocationCount
    else do
      ensure (relocations.entrySize = entrySize ∧ relocations.size % entrySize = 0
        ∧ relocations.link = image.symbolSection ∧ relocations.info < image.sectionCount) .badElf
      ensure (count ≤ udlMaxRelocations - relocationCount) .capacity
      let target ← sectionAt image relocations.info
      forRange count (fun r _ =>
        checkRelocation image target (relocations.offset + wrap32 (r * entrySize))) ()
      ensure (¬(relocations.type = shtRela ∧ target.alloc)) .unsupportedElf
      pure (relocationCount + count)) 0

/-! ## Global offset table -/

/-- Is this the name of the symbol that marks the GOT? -/
def isGotName (name : CString × Nat) : Load Bool :=
  if name.2 = gotSymbolName.length then stringEqual name.1 (gotSymbolName ++ [0])
  else pure false

/-- The loop that looks for `_GLOBAL_OFFSET_TABLE_`.  The last such symbol wins. -/
def findGot (shstrndx : Nat) (image : Image) : Load Image := do
  let symtab ← sectionAt image image.symbolSection
  forRange (symtab.size / elfSymbolSize) (fun i image => do
    let symbol ← getSymbol image i
    let symbol ← orElse .badElf symbol
    let name ← boundedString image image.stringSection symbol.name
    let name ← orElse .badElf name
    let isGot ← isGotName name
    if isGot then do
      ensure (symbol.section_ < image.sectionCount) .badElf
      let s ← sectionAt image symbol.section_
      ensure s.alloc .badElf
      -- `bounded_string` may return null and `string_prefix` does not ask.
      match ← boundedString image shstrndx s.name with
      | none => .stuck
      | some sectionName =>
        let isGotSection ← stringPrefix sectionName.1 gotSectionPrefix
        ensure isGotSection .badElf
        ensure (s.address ≤ symbol.value ∧ symbol.value - s.address < s.size) .badElf
        pure { image with
          gotSection := symbol.section_
          gotLinkedBase := symbol.value
          gotSize := sub32 (s.address + s.size) symbol.value }
    else pure image) image

/-! ## The whole routine -/

/-- The section headers, the section names and the symbol table. -/
def openTables (blob : List UInt8) (header : Header) (role : Nat) : Load Image := do
  let image ← readSections header.shoff (initialImage blob header role)
  validateStrings image
  bindSymbolTable image

/-- The program headers: where the image lies in memory. -/
def openSegments (image : Image) : Load Image := do
  let extent ← scanSegments image
  checkExtent image extent
  checkSegmentOverlaps image
  let image := { image with
    end_ := extent.maxAddress
    span := extent.maxAddress - extent.minAddress }
  ensure (image.span ≠ 0) .badLayout
  checkEntry image extent
  pure image

/-- `udl_image_open`. -/
def imageOpen (blob : List UInt8) (sectionCapacity role : Nat) : Load Image := do
  ensure (role ≤ roleHal) .badArgument
  ensure (elfHeaderSize ≤ blob.length) .badElf
  ensure (blob.length ≤ 0xffffffff) .capacity
  checkIdentity blob
  let header ← readHeader blob sectionCapacity
  let image ← openTables blob header role
  let image ← openSegments image
  checkSectionsLoaded image
  checkSymbols image
  let _ ← checkRelocations image
  findGot header.shstrndx image

end UnDOS.Loader
