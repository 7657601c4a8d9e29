import UnDOS.Lib.Within
import UnDOS.UserLoader.Image

/-!
# The user-mode loader: loading an object

`load_object` and its stages: headers, bounds and bias, segments, the ABI note, the dynamic segment,
the symbol tables.

A stage that returns false throws the `load_failure_reason` that is in force there.
`object_count` is `index + 1` while object `index` is loaded.
-/

namespace UnDOS.UserLoader

open UnDOS.Lib UnDOS.Lib.Outcome

/-- What the loader runs. -/
abbrev Loading := Prog State String

/-- A check or a read, with the reason that its failure is reported with. -/
def orFail {α : Type} (reason : String) (f : State → Outcome Unit α) : Loading α := fun s =>
  match f s with
  | .ok a => (.ok a, s)
  | .err _ => (.err reason, s)
  | .stuck => (.stuck, s)

/-- Write bytes of object `index`. -/
def writeBytes (sys : System) (index : Nat) (obj : LoadedObject) (addr : Nat) (data : List UInt8) :
    Loading Unit := fun s =>
  if mayWrite sys s index obj addr data.length then
    (.ok (), { s with memory := writeAt s.memory addr data })
  else (.stuck, s)

/-- Store into the next element of an array of the loader. -/
def pushBounded {α : Type} (capacity : Nat) (items : List α) (a : α) : Outcome Unit (List α) :=
  if items.length < capacity then .ok (items ++ [a]) else .stuck

/-! ## Headers -/

/-- `sizeof(ElfHeader)`. -/
def elfHeaderSize : Nat := 52

/-- `sizeof(ProgramHeader)`. -/
def programHeaderSize : Nat := 32

/-- `read_exact_bytes` after `skip_bytes`, into the loader's own memory. -/
def readExact (file : List UInt8) (pos size : Nat) : Outcome Unit (List UInt8) :=
  if pos + size ≤ file.length then .ok ((file.drop pos).take size) else .err ()

/-- The program header at `off` of a table. -/
def decodeProgramHeader (table : List UInt8) (off : Nat) : ProgramHeader where
  type := field table off 4
  offset := field table (off + 4) 4
  vaddr := field table (off + 8) 4
  filesz := field table (off + 16) 4
  memsz := field table (off + 20) 4
  flags := field table (off + 24) 4

def readAndValidateHeaders (file : List UInt8) (obj : LoadedObject) :
    Outcome Unit LoadedObject := do
  let header ← readExact file 0 elfHeaderSize
  let phnum := field header 44 2
  let phoff := field header 28 4
  ensure (header.take 7 = [0x7f, 0x45, 0x4c, 0x46, 1, 1, 1]) ()
  ensure ((field header 16 2 = etExec ∨ field header 16 2 = etDyn) ∧ field header 18 2 = em386 ∧
    field header 20 4 = 1 ∧ field header 40 2 = elfHeaderSize ∧
    field header 42 2 = programHeaderSize) ()
  ensure (0 < phnum ∧ phnum ≤ maxProgramHeaders ∧ elfHeaderSize ≤ phoff ∧
    phoff ≤ maxImageSize - phnum * programHeaderSize) ()
  let table ← readExact file phoff (phnum * programHeaderSize)
  let headers ← forRange phnum
    (fun i headers => pushBounded maxProgramHeaders headers
      (decodeProgramHeader table (i * programHeaderSize))) []
  return { obj with
    programHeaders := headers
    type := field header 16 2
    entry := field header 24 4 }

/-! ## Bounds and bias -/

/-- A segment that is loaded. -/
def ProgramHeader.loads (p : ProgramHeader) : Bool := p.type == ptLoad && p.memsz != 0

/-- The body of the loop of `calculate_bounds_and_bias` over the lowest and highest address. -/
def extendBounds (p : ProgramHeader) (bounds : Nat × Nat) : Outcome Unit (Nat × Nat) := do
  if p.loads then
    ensure (p.filesz ≤ p.memsz ∧ p.vaddr ≤ 0xffffffff - p.memsz ∧ p.offset ≤ maxImageSize ∧
      p.filesz ≤ maxImageSize - p.offset ∧ p.vaddr + p.memsz ≤ 0xffffffff - (pageSize - 1)) ()
    let low := pageFloor p.vaddr
    let high := p.vaddr + p.memsz
    return (if low < bounds.1 then low else bounds.1, if bounds.2 < high then high else bounds.2)
  else return bounds

def boundsOf : List ProgramHeader → Nat × Nat → Outcome Unit (Nat × Nat)
  | [], bounds => .ok bounds
  | p :: rest, bounds => do
    let bounds ← extendBounds p bounds
    boundsOf rest bounds

/-- The bias of object `index`, whose lowest and highest address are given. -/
def biasOf (index : Nat) (obj : LoadedObject) (low high : Nat) : Outcome Unit Nat := do
  if obj.type = etDyn then
    let slot := sharedLibBaseWindow + index * sharedLibSlotSize
    ensure (low ≤ slot ∧ high ≤ slot + sharedLibSlotSize) ()
    return slot - low
  else return obj.bias

/-- The entry point of the executable lies in an executable segment. -/
def entryIsExecutable (obj : LoadedObject) : Bool :=
  obj.programHeaders.any fun p =>
    p.type == ptLoad && p.executable && decide (p.vaddr ≤ obj.entry ∧ obj.entry - p.vaddr < p.memsz)

def calculateBoundsAndBias (index : Nat) (obj : LoadedObject) : Outcome Unit LoadedObject := do
  let (low, high) ← boundsOf obj.programHeaders (0xffffffff, 0)
  ensure (low ≠ 0xffffffff ∧ high - low ≤ maxImageSize) ()
  let bias ← biasOf index obj low high
  let obj := { obj with bias := bias }
  if index = 0 then
    let _ ← resolveVirtualToHostAddress obj obj.entry 1
    ensure (entryIsExecutable obj = true) ()
  return obj

/-! ## Segments -/

/-- `begin` of a segment. -/
def segmentBegin (obj : LoadedObject) (p : ProgramHeader) : Nat :=
    pageFloor (wrap32 (p.vaddr + obj.bias))

/-- `end` of a segment. -/
def segmentEnd (obj : LoadedObject) (p : ProgramHeader) : Nat :=
  pageFloor (wrap32 (p.vaddr + p.memsz + obj.bias + (pageSize - 1)))

/-- A page was mapped for an earlier segment of the object. -/
def alreadyMapped (obj : LoadedObject) (earlier : List ProgramHeader) (page : Nat) : Bool :=
  earlier.any fun prev =>
    prev.loads && decide (segmentBegin obj prev ≤ page ∧ page < segmentEnd obj prev)

/-- `UD_SYS_MapFixedPagesV1` for one page. -/
def mapFixedPage (sys : System) (index page : Nat) : Loading Unit := fun s =>
  if (s.owner (page / pageSize)).isSome || sys.refuses (page / pageSize) then
    (.err "ELoader: fixed page allocation failed\n", s)
  else (.ok (), { s with owner := Function.update s.owner (page / pageSize) (some index) })

/-- The body of the loop of `map_and_load_segments` over the pages of a segment. -/
def mapPage (sys : System) (index : Nat) (obj : LoadedObject) (earlier : List ProgramHeader)
    (page : Nat) : Loading Unit := do
  if alreadyMapped obj earlier page then return ()
  else
    let s ← Prog.get
    if maxImageSize - pageSize < s.totalMappedBytes then
      Prog.throw "ELoader: fixed page allocation failed\n"
    else
      mapFixedPage sys index page
      Prog.modify fun s => { s with totalMappedBytes := s.totalMappedBytes + pageSize }

/-- The file data of a segment.  A file that ends early leaves what was read. -/
def loadSegmentData (sys : System) (index : Nat) (obj : LoadedObject) (p : ProgramHeader) :
    Loading Unit := do
  if 0 < p.filesz then
    match sys.files obj.path with
    | none => Prog.throw "ELoader: failed to read image segment\n"
    | some file =>
      let data := (file.drop p.offset).take p.filesz
      writeBytes sys index obj (wrap32 (p.vaddr + obj.bias)) data
      if data.length < p.filesz then Prog.throw "ELoader: failed to read image segment\n"

/-- The body of the loop of `map_and_load_segments`. -/
def mapAndLoadSegment (sys : System) (index : Nat) (obj : LoadedObject)
    (earlier : List ProgramHeader) (p : ProgramHeader) : Loading Unit := do
  if p.loads then
    let first := segmentBegin obj p
    let last := segmentEnd obj p
    if first < userSpaceMinAddr ∨ (first < sys.loaderEnd ∧ sys.loaderBegin < last) ∨
        userSpaceMaxAddr < last then
      Prog.throw "ELoader: image overlaps reserved memory\n"
    else
      Prog.forRange ((last - first) / pageSize) fun n =>
        mapPage sys index obj earlier (first + n * pageSize)
      loadSegmentData sys index obj p
      writeBytes sys index obj (wrap32 (p.vaddr + obj.bias + p.filesz))
        (List.replicate (p.memsz - p.filesz) 0)

/-- `map_and_load_segments`, from some segment on. -/
def mapAndLoadSegments (sys : System) (index : Nat) (obj : LoadedObject) :
    List ProgramHeader → List ProgramHeader → Loading Unit
  | _, [] => pure ()
  | earlier, p :: rest => do
    mapAndLoadSegment sys index obj earlier p
    mapAndLoadSegments sys index obj (earlier ++ [p]) rest

/-! ## The ABI note -/

/-- `(n + 3) & ~3`. -/
def wordSpan (n : Nat) : Nat := (n + 3) / 4 * 4

/-- `UNDOS_ABI_NOTE_TYPE`. -/
def abiNoteType : Nat := 1

/-- `UNDOS_APPLICATION_ABI_VERSION`. -/
def applicationAbiVersion : Nat := 1

/-- The note that `scan_notes` counts. -/
def checkAbiNote (s : State) (index : Nat) (obj : LoadedObject)
    (addr type descriptorSize nameSpan found : Nat) : Outcome Unit Nat := do
  let name ← readBytes s index obj addr 6
  if name = [0x55, 0x6e, 0x44, 0x4f, 0x53, 0] then
    ensure (type = abiNoteType ∧ descriptorSize = 8) ()
    let version ← readWord s index obj (addr + nameSpan)
    ensure (version = applicationAbiVersion) ()
    let reserved ← readWord s index obj (addr + nameSpan + 4)
    ensure (reserved = 0 ∧ wrap32 (found + 1) = 1) ()
    return wrap32 (found + 1)
  else return found

/-- `scan_notes`: the notes in `size` bytes.  A loop that goes on for longer than there are bytes is
`stuck`. -/
def scanNotes (s : State) (index : Nat) (obj : LoadedObject) :
    Nat → Nat → Nat → Nat → Outcome Unit Nat
  | 0, _, size, found => if size = 0 then .ok found else .stuck
  | fuel + 1, addr, size, found => do
    if size = 0 then return found
    else
      ensure (12 ≤ size) ()
      let nameSize ← readWord s index obj addr
      let descriptorSize ← readWord s index obj (addr + 4)
      let type ← readWord s index obj (addr + 8)
      let addr := addr + 12
      let size := size - 12
      ensure (nameSize ≤ size ∧ nameSize ≤ 0xffffffff - 3) ()
      let nameSpan := wordSpan nameSize
      ensure (nameSpan ≤ size ∧ descriptorSize ≤ size - nameSpan ∧
        descriptorSize ≤ 0xffffffff - 3) ()
      let descriptorSpan := wordSpan descriptorSize
      ensure (descriptorSpan ≤ size - nameSpan) ()
      let found ← if nameSize = 6 then
          checkAbiNote s index obj addr type descriptorSize nameSpan found
        else pure found
      scanNotes s index obj fuel (addr + (nameSpan + descriptorSpan))
        (size - (nameSpan + descriptorSpan)) found

/-- The loop of `load_object` over the program headers. -/
def checkNotes (index : Nat) (obj : LoadedObject) : List ProgramHeader → Nat → Loading Nat
  | [], notes => pure notes
  | p :: rest, notes => do
    if p.type = ptInterp then Prog.throw "ELoader: external ELF interpreters are unsupported\n"
    else if p.type = ptTls then Prog.throw "ELoader: TLS is unsupported by ABI v1\n"
    else if p.type = ptNote then
      let notes ← orFail "ELoader: missing or incompatible UnDOS ABI note\n" fun s => do
        let addr ← resolveVirtualToHostAddress obj p.vaddr p.filesz
        scanNotes s index obj p.filesz addr p.filesz notes
      checkNotes index obj rest notes
    else checkNotes index obj rest notes

/-! ## The dynamic segment -/

/-- `sizeof(Dynamic)`. -/
def dynamicSize : Nat := 8

/-- The `switch` of `parse_dynamic_segment`. -/
def recordDynamic (s : State) (index : Nat) (obj : LoadedObject) (tag value : Nat) :
    Outcome Unit LoadedObject :=
  match tag with
  | 1 => do
    ensure (obj.neededOffsets.length < maxDependencies) ()
    let offsets ← pushBounded maxDependencies obj.neededOffsets value
    return { obj with neededOffsets := offsets }
  | 2 => .ok { obj with pltRelSize := value }
  | 4 => do
    let host ← resolveVirtualToHostAddress obj value 8
    let count ← readWord s index obj (host + 4)
    return { obj with symbolCount := count }
  | 5 => .ok { obj with strtabVaddr := value }
  | 6 => .ok { obj with symtabVaddr := value }
  | 10 => .ok { obj with strtabSize := value }
  | 11 => .ok { obj with symentSize := value }
  | 12 => .ok { obj with initFuncVaddr := value }
  | 13 => .ok { obj with finiFuncVaddr := value }
  | 17 => .ok { obj with relVaddr := value }
  | 18 => .ok { obj with relSize := value }
  | 19 => .ok { obj with relEntSize := value }
  | 20 => .ok { obj with pltRelType := value }
  | 23 => .ok { obj with pltRelVaddr := value }
  | 25 => .ok { obj with initArrayVaddr := value }
  | 26 => .ok { obj with finiArrayVaddr := value }
  | 27 => .ok { obj with initArraySize := value }
  | 28 => .ok { obj with finiArraySize := value }
  -- `DT_RELA`, `DT_RELR`, the symbol versions and their kin must be absent or zero.
  | 7 | 8 | 35 | 36 | 37 | 0x6ffffff0 | 0x6ffffffc | 0x6ffffffe => do
    ensure (value = 0) ()
    return obj
  | _ => .ok obj

/-- The entries of a dynamic segment, up to `DT_NULL`. -/
def parseEntries (s : State) (index : Nat) : Nat → Nat → LoadedObject → Outcome Unit LoadedObject
  | 0, _, _ => .err ()
  | count + 1, addr, obj => do
    let tag ← readWord s index obj addr
    if tag = 0 then return obj
    else
      let value ← readWord s index obj (addr + 4)
      let obj ← recordDynamic s index obj tag value
      parseEntries s index count (addr + dynamicSize) obj

/-- `parse_dynamic_segment`, from some program header on. -/
def parseDynamicSegment (s : State) (index : Nat) :
    List ProgramHeader → LoadedObject → Outcome Unit LoadedObject
  | [], obj => .ok obj
  | p :: rest, obj => do
    if p.type = ptDynamic then
      ensure (p.memsz ≠ 0 ∧ p.memsz ≤ pageSize ∧ p.memsz % dynamicSize = 0) ()
      let host ← resolveVirtualToHostAddress obj p.vaddr p.memsz
      let obj ← parseEntries s index (p.memsz / dynamicSize) host obj
      parseDynamicSegment s index rest obj
    else parseDynamicSegment s index rest obj

/-! ## Symbol tables -/

/-- The first half of `validate_symbol_tables`. -/
def checkTableBounds (obj : LoadedObject) : Outcome Unit Unit := do
  if 0 < obj.symbolCount ∨ obj.neededOffsets ≠ [] ∨ 0 < obj.relSize ∨ 0 < obj.pltRelSize then
    ensure (obj.symentSize = symbolSize ∧ obj.symbolCount ≠ 0 ∧
      obj.symbolCount ≤ maxImageSize / symbolSize) ()
    let _ ← resolveTableAddress obj obj.symtabVaddr obj.symbolCount symbolSize
    ensure (obj.strtabSize ≠ 0 ∧ obj.strtabSize ≤ maxImageSize) ()
    let _ ← resolveVirtualToHostAddress obj obj.strtabVaddr obj.strtabSize
    return ()
  else return ()

def validateSymbolTables (index : Nat) (obj : LoadedObject) : Loading Unit := do
  orFail "ELoader: invalid symbol tables\n" fun _ => checkTableBounds obj
  Prog.forRange obj.symbolCount fun i => do
    let symbol ← orFail "ELoader: invalid symbol tables\n" fun s => getSymbolAt s index obj i
    if symbol.type = 6 ∨ symbol.type = 10 then
      Prog.throw "ELoader: TLS and IFUNC symbols are unsupported\n"

/-- `load_object`, for object `index`. -/
def loadObject (sys : System) (index : Nat) (path : List UInt8) : Loading LoadedObject := do
  match sys.files path with
  | none => Prog.throw "ELoader: cannot open image\n"
  | some file =>
    let obj ← orFail "ELoader: invalid ELF header\n" fun _ =>
      readAndValidateHeaders file { path := path }
    let obj ← orFail "ELoader: invalid ELF segments\n" fun _ => calculateBoundsAndBias index obj
    mapAndLoadSegments sys index obj [] obj.programHeaders
    let notes ← checkNotes index obj obj.programHeaders 0
    if notes = 1 then
      let obj ← orFail "ELoader: invalid dynamic segment\n" fun s =>
        parseDynamicSegment s index obj.programHeaders obj
      validateSymbolTables index obj
      return obj
    else Prog.throw "ELoader: missing or incompatible UnDOS ABI note\n"

end UnDOS.UserLoader
