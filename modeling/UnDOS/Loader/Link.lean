import UnDOS.Loader.Open

/-!
# Direct Loader: Layout, Exports and Relocation

The passes that run on opened images: `udl_plan_layout`, `udl_collect_exports`,
`udl_image_relocation_count` and `udl_link_images`.

A destination is a byte store.  It is read and written through `load32`,
`store32` and `store8`, which are `stuck` outside the window `[0, limit)`; the
linker runs them with the span of the image as the limit.
-/

namespace UnDOS.Loader

open UnDOS.Lib UnDOS.Lib.Outcome

/-! ## Layout -/

/-- `udl_layout`, without the copies of the two images. -/
structure Layout where
  kernelEnd : Nat
  halBase : Nat
  halEnd : Nat
  stackBottom : Nat
  stackTop : Nat
  bootinfoBase : Nat
  bootinfoEnd : Nat
  payloadSize : Nat
  kernelEntry : Nat
deriving DecidableEq

/-- The room that the layout leaves for the boot stack. -/
def bootStackSize : Nat := 16384

/-- `image` placed at the run-time address `base`. -/
def Image.placedAt (image : Image) (base : Nat) : Image :=
  { image with runtimeBase := base, bias := sub32 base image.linkedBase }

/-- `udl_plan_layout`: the two images with their run-time bases, and the layout. -/
def planLayout (kernel hal : Image) (bootinfoSize : Nat) : Load (Image × Image × Layout) := do
  ensure (kernel.role = roleKernel ∧ hal.role = roleHal ∧ bootinfoSize ≠ 0
    ∧ bootinfoSize ≤ udlBootinfoSizeMax) .badArgument
  ensure (kernel.span ≤ udlVirtualLimit - udlKernelBase) .badLayout
  let kernel := kernel.placedAt udlKernelBase
  let cursor ← orElse .badLayout (add32 kernel.runtimeBase kernel.span)
  let cursor := pageUp cursor
  ensure (udlKernelBase ≤ cursor ∧ cursor ≤ udlVirtualLimit) .badLayout
  let hal := hal.placedAt cursor
  ensure (hal.span ≤ udlVirtualLimit - hal.runtimeBase) .badLayout
  let cursor ← orElse .badLayout (add32 hal.runtimeBase hal.span)
  let cursor := pageUp cursor
  ensure (cursor ≤ udlVirtualLimit) .badLayout
  let stackTop ← orElse .badLayout (add32 cursor bootStackSize)
  let bootinfoLast ← orElse .badLayout (add32 stackTop bootinfoSize)
  let bootinfoEnd := pageUp bootinfoLast
  ensure (bootinfoLast ≤ bootinfoEnd ∧ bootinfoEnd ≤ udlVirtualLimit) .badLayout
  pure (kernel, hal,
    { kernelEnd := pageUp (kernel.runtimeBase + kernel.span)
      halBase := hal.runtimeBase
      halEnd := cursor
      stackBottom := cursor
      stackTop := stackTop
      bootinfoBase := stackTop
      bootinfoEnd := bootinfoEnd
      payloadSize := bootinfoEnd - udlKernelBase
      kernelEntry := wrap32 (kernel.entry + kernel.bias) })

/-! ## Exports -/

def exportByName : List Export → CString → Load (Option Nat)
  | [], _ => pure none
  | e :: rest, name => do
    let same ← stringEqual e.name name
    if same then pure (some e.address) else exportByName rest name

/-- Is the symbol visible to the other image? -/
def Symbol.exported (s : Symbol) : Bool :=
  (s.info / 16 == stbGlobal || s.info / 16 == stbWeak)
    && (s.other % 4 == stvDefault || s.other % 4 == stvProtected)
    && s.section_ != shnUndef

/-- Add a definition to the table, unless its name is already there. -/
def addExport (imageIndex : Nat) (table : ExportTable) (name : CString) (nameLength : Nat)
    (address : Nat) : Load ExportTable := do
  match ← exportByName table.exports name with
  | some _ => pure { table with duplicateExports := wrap32 (table.duplicateExports + 1) }
  | none =>
    ensure (table.exports.length < table.exportCapacity
      ∧ nameLength + 1 ≤ table.nameCapacity - table.namesUsed) .capacity
    pure { table with
      exports := table.exports ++
        [⟨name.take nameLength ++ [0], address, table.namesUsed, imageIndex⟩]
      namesUsed := table.namesUsed + (nameLength + 1) }

/-- The run-time address of a defined symbol; `none` if it has none. -/
def exportValue (image : Image) (symbol : Symbol) : Load (Option Nat) :=
  if symbol.section_ = shnAbs then pure (some symbol.value)
  else do
    ensure (symbol.section_ < image.sectionCount) .unsupportedElf
    let s ← sectionAt image symbol.section_
    if !s.alloc then pure none
    else do
      ensure (image.linkedBase ≤ symbol.value ∧
        symbol.value - image.linkedBase < image.span) .badElf
      let runtimeValue ← orElse .badElf (add32 symbol.value image.bias)
      pure (some runtimeValue)

/-- The loop over the symbols of one image. -/
def collectImage (imageIndex : Nat) (image : Image) (table : ExportTable) : Load ExportTable := do
  let symtab ← sectionAt image image.symbolSection
  forRange (symtab.size / elfSymbolSize) (fun i table => do
    let symbol ← getSymbol image i
    let symbol ← orElse .badElf symbol
    let name ← boundedString image image.stringSection symbol.name
    let name ← orElse .badElf name
    if name.2 = 0 ∨ !symbol.exported then pure table
    else do
      match ← exportValue image symbol with
      | none => pure table
      | some address => addExport imageIndex table name.1 name.2 address) table

/-- `udl_collect_exports`. -/
def collectExports (kernel hal : Image) (table : ExportTable) : Load ExportTable := do
  ensure (udlMaxExports ≤ table.exportCapacity ∧ udlNamePoolSize ≤ table.nameCapacity) .badArgument
  let table := { table with
    exports := [], namesUsed := 0, kernelExportCount := 0, duplicateExports := 0 }
  let table ← collectImage 0 kernel table
  collectImage 1 hal { table with kernelExportCount := table.exports.length }

/-! ## Write table -/

def sectionContains (image : Image) (sectionIndex address length : Nat) : Load Bool :=
  if image.sectionCount ≤ sectionIndex then pure false
  else do
    let s ← sectionAt image sectionIndex
    pure (s.alloc && s.address ≤ address && address - s.address ≤ s.size
      && length ≤ s.size - (address - s.address))

def loadedWordOffset (image : Image) (address : Nat) : Option Nat :=
  match add32 address image.bias with
  | none => none
  | some runtime =>
    if runtime < image.runtimeBase ∨ runtime - image.runtimeBase > image.span
        ∨ image.span - (runtime - image.runtimeBase) < 4 then none
    else some (runtime - image.runtimeBase)

/-- The probe loop of `register_write`, with `i` rounds left. -/
def probeWrite (site value : Nat) : Nat → Nat → List WriteSlot → Load (List WriteSlot)
  | 0, _, _ => .err .capacity
  | i + 1, position, slots =>
    match slots[position]? with
    | none => .stuck
    | some slot =>
      if slot.site = noIndex then pure (slots.set position ⟨site, value⟩)
      else if slot.site = site then
        if slot.value = value then pure slots else .err .badRelocation
      else probeWrite site value i ((position + 1) &&& (slots.length - 1)) slots

/-- `register_write`: a site may be written again, but only with the same value. -/
def registerWrite (slots : List WriteSlot) (site value : Nat) : Load (List WriteSlot) := do
  ensure (slots.length ≠ 0 ∧ slots.length &&& (slots.length - 1) = 0) .capacity
  let position := wrap32 (site * 2654435761) &&& (slots.length - 1)
  probeWrite site value slots.length position slots

/-- `writes[i].site = 0xffffffffu` for every slot. -/
def resetWrites (slots : List WriteSlot) : List WriteSlot :=
  slots.map fun slot => { slot with site := noIndex }

/-- `udl_image_relocation_count`. -/
def imageRelocationCount (image : Image) : Load Nat :=
  forRange image.sectionCount (fun i count => do
    let s ← sectionAt image i
    if s.type = shtRel then do
      let entries := s.size / elfRelSize
      ensure (entries ≤ udlMaxRelocations - count) .capacity
      pure (count + entries)
    else pure count) 0

/-! ## Relocation -/

/-- `read32(destination + offset)` inside the first `limit` bytes. -/
def load32 (limit : Nat) (destination : ByteStore) (offset : Nat) : Load Nat :=
  if offset + 4 ≤ limit then .ok (wordAt destination offset 4) else .stuck

/-- `write32(destination + offset, value)` inside the first `limit` bytes. -/
def store32 (limit : Nat) (destination : ByteStore) (offset value : Nat) : Load ByteStore :=
  if offset + 4 ≤ limit then .ok (writeAt destination offset (leBytes 4 value)) else .stuck

/-- `destination[offset] = value` inside the first `limit` bytes. -/
def store8 (limit : Nat) (destination : ByteStore) (offset : Nat) (value : UInt8) :
    Load ByteStore :=
  if offset < limit then .ok (writeAt destination offset [value]) else .stuck

/-- One relocation entry, with the section it applies to. -/
structure Relocation where
  target : Nat
  offset : Nat
  info : Nat
deriving DecidableEq

def Relocation.symbolIndex (rel : Relocation) : Nat := rel.info / 256

def Relocation.type (rel : Relocation) : Nat := rel.info % 256

/-- A word that `relocate_one` is about to write: the run-time address that it
    registers, the offset in the destination, and the value. -/
structure Patch where
  address : Nat
  offset : Nat
  value : Nat
deriving DecidableEq

/-- What `relocate_one` finds out about the symbol of a relocation. -/
structure SymbolDelta where
  delta : Nat
  sameImageDefined : Bool
deriving DecidableEq

/-- The `delta_symbol` part of `relocate_one`. -/
def symbolDelta (image : Image) (exports : ExportTable) (rel : Relocation) (symbol : Symbol)
    (symbolName : CString) : Load SymbolDelta :=
  if rel.type = r386Relative then do
    ensure (rel.symbolIndex = 0) .badRelocation
    pure ⟨0, false⟩
  else if symbol.section_ = shnAbs then pure ⟨0, false⟩
  else if symbol.section_ ≠ shnUndef then do
    ensure (symbol.section_ < image.sectionCount) .unsupportedElf
    let s ← sectionAt image symbol.section_
    ensure s.alloc .badRelocation
    ensure (s.address ≤ symbol.value ∧ symbol.value - s.address ≤ s.size
      ∧ symbol.size ≤ s.size - (symbol.value - s.address)
      ∧ (add32 symbol.value image.bias).isSome) .badRelocation
    pure ⟨image.bias, true⟩
  else if rel.symbolIndex ≠ 0 then do
    let resolved ← exportByName exports.exports symbolName
    let resolved ← orElse .unresolvedSymbol resolved
    pure ⟨resolved, false⟩
  else pure ⟨0, false⟩

/-- The linked address of the GOT slot that the operand `gotOffset` selects. -/
def gotSite (image : Image) (gotOffset : Nat) : Option Nat :=
  if 2 ^ 31 ≤ gotOffset then
    let magnitude := 2 ^ 32 - gotOffset
    if magnitude > image.gotLinkedBase then none else some (image.gotLinkedBase - magnitude)
  else add32 image.gotLinkedBase gotOffset

/-- The `got_value` of a symbol: its run-time address. -/
def gotValue (image : Image) (exports : ExportTable) (symbol : Symbol) (symbolName : CString)
    (sameImageDefined : Bool) : Load Nat :=
  if symbol.section_ = shnAbs then pure symbol.value
  else if sameImageDefined then orElse .badRelocation (add32 symbol.value image.bias)
  else if symbol.section_ = shnUndef then do
    let resolved ← exportByName exports.exports symbolName
    orElse .unresolvedSymbol resolved
  else .err .badRelocation

/-- The `R_386_GOT32` and `R_386_GOT32X` cases of `relocate_one`. -/
def gotPatch (image : Image) (exports : ExportTable) (rel : Relocation) (symbol : Symbol)
    (symbolName : CString) (sameImageDefined : Bool) (linkedWord : Nat) : Load (Option Patch) := do
  ensure (image.gotSection ≠ noIndex) .badRelocation
  let site ← orElse .badRelocation (gotSite image linkedWord)
  let contained ← sectionContains image image.gotSection site 4
  ensure contained .badRelocation
  let inside ← rangeInSegment image site 4
  ensure inside .badRelocation
  let gotRuntime ← orElse .badRelocation (loadedWordOffset image site)
  ensure (rel.symbolIndex ≠ 0) .badRelocation
  let value ← gotValue image exports symbol symbolName sameImageDefined
  let address ← orElse .badRelocation (add32 image.runtimeBase gotRuntime)
  pure (some ⟨address, gotRuntime, value⟩)

/-- `relocate_one` up to its write: the word it would write, if any. -/
def relocationPatch (image : Image) (exports : ExportTable) (destination : ByteStore)
    (rel : Relocation) : Load (Option Patch) :=
  if rel.type = r386None then pure none
  else do
    let symtab ← sectionAt image image.symbolSection
    ensure (rel.symbolIndex < symtab.size / elfSymbolSize) .badRelocation
    let patchOffset ← orElse .badRelocation (loadedWordOffset image rel.offset)
    let contained ← sectionContains image rel.target rel.offset 4
    ensure contained .badRelocation
    let patchAddress ← orElse .badRelocation (add32 rel.offset image.bias)
    let symbol ← getSymbol image rel.symbolIndex
    let symbol ← orElse .badElf symbol
    let name ← boundedString image image.stringSection symbol.name
    let name ← orElse .badElf name
    let linkedWord ← load32 image.span destination patchOffset
    let d ← symbolDelta image exports rel symbol name.1
    if rel.type = r386Abs32 then
      pure (some ⟨patchAddress, patchOffset, wrap32 (linkedWord + d.delta)⟩)
    else if rel.type = r386Pc32 ∨ rel.type = r386Plt32 ∨ rel.type = r386Gotoff then
      pure (some ⟨patchAddress, patchOffset, sub32 (linkedWord + d.delta) image.bias⟩)
    else if rel.type = r386Relative then
      pure (some ⟨patchAddress, patchOffset, wrap32 (linkedWord + image.bias)⟩)
    else if rel.type = r386Gotpc then do
      ensure (image.gotSection ≠ noIndex) .badRelocation
      let gotContained ← sectionContains image image.gotSection image.gotLinkedBase 1
      ensure gotContained .badRelocation
      let siteContained ← sectionContains image rel.target rel.offset 4
      ensure siteContained .badRelocation
      let isGot ← stringEqual name.1 (gotSymbolName ++ [0])
      ensure isGot .badRelocation
      pure none
    else if rel.type = r386Got32 ∨ rel.type = r386Got32x then
      gotPatch image exports rel symbol name.1 d.sameImageDefined linkedWord
    else .err .badRelocation

/-- The destination of one image together with the write table. -/
structure LinkState where
  destination : ByteStore
  writes : List WriteSlot

def relocateOne (image : Image) (exports : ExportTable) (rel : Relocation) (state : LinkState) :
    Load LinkState := do
  match ← relocationPatch image exports state.destination rel with
  | none => pure state
  | some patch =>
    let writes ← registerWrite state.writes patch.address patch.value
    let destination ← store32 image.span state.destination patch.offset patch.value
    pure ⟨destination, writes⟩

def linkOne (image : Image) (exports : ExportTable) (state : LinkState) : Load LinkState :=
  forRange image.sectionCount (fun i state => do
    let relocations ← sectionAt image i
    if relocations.type ≠ shtRel then pure state
    else do
      let target ← sectionAt image relocations.info
      if !target.alloc then pure state
      else forRange (relocations.size / elfRelSize) (fun r state => do
        let rel := relocations.offset + wrap32 (r * elfRelSize)
        let offset ← read32 image.blob rel
        let info ← read32 image.blob (rel + 4)
        relocateOne image exports ⟨relocations.info, offset, info⟩ state) state) state

/-! ## The whole linker -/

/-- The loop that clears the destination. -/
def clearDestination (image : Image) (destination : ByteStore) : Load ByteStore :=
  forRange image.span (fun b destination => store8 image.span destination b 0) destination

/-- The loop that copies one segment. -/
def copySegment (image : Image) (segment : Segment) (destination : ByteStore) :
    Load ByteStore :=
  forRange segment.fileSize (fun b destination => do
    let value ← byteAt image.blob (wrap32 (segment.offset + b))
    store8 image.span destination (wrap32 (sub32 segment.address image.linkedBase + b)) value)
    destination

/-- One round of the outer loop of `udl_link_images`: the destination holds the
    image as the file has it. -/
def loadImage (image : Image) (size : Nat) (destination : ByteStore) : Load ByteStore := do
  ensure (image.span ≤ size) .badArgument
  let destination ← clearDestination image destination
  forRange image.programCount (fun p destination => do
    let type ← read32 image.blob (programAt image p)
    let segment ← segmentFields image p
    if type ≠ ptLoad ∨ segment.memorySize = 0 then pure destination
    else do
      ensure (image.linkedBase ≤ segment.address
        ∧ segment.address - image.linkedBase ≤ image.span
        ∧ segment.memorySize ≤ image.span - (segment.address - image.linkedBase)) .badLayout
      copySegment image segment destination) destination

/-- `udl_link_images`: the two destinations after linking. -/
def linkImages (kernel hal : Image) (exports : ExportTable)
    (kernelDestination : ByteStore) (kernelSize : Nat)
    (halDestination : ByteStore) (halSize : Nat) (writes : List WriteSlot) :
    Load (ByteStore × ByteStore) := do
  ensure (kernel.span ≤ kernelSize ∧ hal.span ≤ halSize ∧ writes.length ≠ 0) .badArgument
  let writes := resetWrites writes
  let kernelDestination ← loadImage kernel kernelSize kernelDestination
  let halDestination ← loadImage hal halSize halDestination
  let linkedKernel ← linkOne kernel exports ⟨kernelDestination, writes⟩
  let linkedHal ← linkOne hal exports ⟨halDestination, resetWrites linkedKernel.writes⟩
  pure (linkedKernel.destination, linkedHal.destination)

end UnDOS.Loader
