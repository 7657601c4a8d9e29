import UnDOS.Hive.Format
import UnDOS.Kernel.Error
import UnDOS.Lib.Prog

/-!
# Raw Hive I/O

`configuration_manager_io.cpp`: the routines that read and write the hive file.
They run on a `KConfigurationRoot`, the resident index together with the file
behind it.

Two loops of this module follow `nextBlockOffset` pointers through the file and
have no bound of their own.  Each is given enough fuel that running out of it
means that a block was visited twice, in which case the source never returns;
the model is then `stuck`.
-/

namespace UnDOS.Hive

open UnDOS.Lib UnDOS.Kernel

/-! ## State -/

/-- A file access that fails: the error it reports and, for a write, how many
    bytes reached the file first. -/
structure IoFault where
  error : KernelError
  written : Nat := 0

/-- The backing file.  `faults` lists what happens to the next accesses, in
    order; accesses beyond the list succeed. -/
structure HiveFile where
  size : Nat := 0
  bytes : ByteStore := fun _ => 0
  faults : List (Option IoFault) := []

/-- `KConfigurationRoot::Root`, one resident index entry. -/
structure Root where
  keyHash : UInt64
  parentHash : UInt64
  valueType : ConfigurationValueType := .invalid
  offset : UInt32 := 0
  length : UInt32 := 0
  /-- `kstd::static_string<32>`: at most 31 characters. -/
  name : Name := []
  indexEntryOffset : UInt32 := 0
  indexBlockOffset : UInt32 := 0
  nameEntryIndex : UInt16 := noNameEntry
deriving DecidableEq

/-- `KConfigurationRoot`, as far as an opened hive uses it. -/
structure KConfigurationRoot where
  /-- The name the hive is registered under. -/
  hiveName : Name
  file : HiveFile := {}
  configptrReferences : Nat := 1
  indexLoaded : Bool := false
  roots : List Root := []
  numRoots : Nat := 0

/-- A routine on a hive. -/
abbrev HiveProg := Prog KConfigurationRoot KernelError

/-- Assignment to a `kstd::static_string<32>`. -/
def staticString32 (name : Name) : Name := name.take 31

/-! ## Raw access -/

/-- Takes the next planned fault, if any. -/
def nextFault : HiveProg (Option IoFault) := fun s =>
  match s.file.faults with
  | [] => (.ok none, s)
  | x :: rest => (.ok x, { s with file := { s.file with faults := rest } })

/-- `ReadRawAt`: exactly `n` bytes at `offset`, or an error. -/
def readRawAt (offset n : Nat) : HiveProg (List UInt8) := do
  match (← nextFault) with
  | some fault => Prog.throw fault.error
  | none =>
    let s ← Prog.get
    if n = 0 ∨ offset + n ≤ s.file.size then return readAt s.file.bytes offset n
    else Prog.throw .unexpectedEndOfFile

/-- The file after `data` was written at `offset`. -/
def HiveFile.write (f : HiveFile) (offset : Nat) (data : List UInt8) : HiveFile :=
  { f with
    size := if data = [] then f.size else max f.size (offset + data.length)
    bytes := writeAt f.bytes offset data }

def writeRawAt (offset : Nat) (data : List UInt8) : HiveProg Unit := do
  match (← nextFault) with
  | some fault =>
    Prog.modify fun s => { s with file := s.file.write offset (data.take fault.written) }
    Prog.throw fault.error
  | none => Prog.modify fun s => { s with file := s.file.write offset data }

/-! ## Entries -/

/-- `ComputeDataRegionEnd`: one past the highest byte used by the entries of the
    block at `indexBlockOffset`. -/
def computeDataRegionEnd (roots : List Root) (indexBlockOffset : Nat) : Nat :=
  roots.foldl (fun fin entry =>
    if entry.indexBlockOffset.toNat ≠ indexBlockOffset then fin
    else if fin < entry.offset.toNat + entry.length.toNat then
      entry.offset.toNat + entry.length.toNat
    else fin) (indexBlockOffset + blockPairBytes)

/-- The on-disk form of a resident entry. -/
def Root.onDisk (root : Root) : ConfigurationIndexEntry where
  keyHash := root.keyHash
  parentHash := root.parentHash
  nameEntryIndex := root.nameEntryIndex
  valueType := root.valueType.toRaw
  offset := root.offset
  length := root.length

def persistIndexEntry (root : Root) : HiveProg Unit :=
  writeRawAt root.indexEntryOffset.toNat root.onDisk.encode

def persistNameEntry (indexBlockOffset : Nat) (nameEntryIndex : Nat) (keyHash : UInt64)
    (name : Name) : HiveProg Unit :=
  writeRawAt (nameSlotOffset indexBlockOffset nameEntryIndex) (encodeNameEntry keyHash name)

/-- The loop of `FindOrAllocateNameSlot`, `remaining` slots before its end. -/
def findNameSlotFrom (indexBlockOffset : Nat) (keyHash : UInt64) (name : Name) :
    Nat → HiveProg UInt16
  | 0 => Prog.throw .resourceLimitExceeded
  | remaining + 1 => do
    let slot := entriesPerNameBlock - (remaining + 1)
    let existingHash ← readRawAt (nameSlotOffset indexBlockOffset slot) 8
    if leNat existingHash = 0 then
      persistNameEntry indexBlockOffset slot keyHash name
      return UInt16.ofNat slot
    else findNameSlotFrom indexBlockOffset keyHash name remaining

def findOrAllocateNameSlot (indexBlockOffset : Nat) (keyHash : UInt64) (name : Name) :
    HiveProg UInt16 :=
  findNameSlotFrom indexBlockOffset keyHash name entriesPerNameBlock

/-- The entry that `keyHash` and `parentHash` identify: the first match wins. -/
def findEntry (roots : List Root) (keyHash parentHash : UInt64) : Option Root :=
  roots.find? fun entry => entry.keyHash = keyHash ∧ entry.parentHash = parentHash

def readKeyValue (keyHash parentHash : UInt64) (expectedType : ConfigurationValueType)
    (size : Nat) : HiveProg (List UInt8) := do
  let s ← Prog.get
  match findEntry s.roots keyHash parentHash with
  | none => Prog.throw .notFound
  | some entry =>
    if entry.valueType ≠ expectedType ∨ entry.length.toNat ≠ size then
      Prog.throw .invalidFormat
    else readRawAt entry.offset.toNat size

/-! ## Slot allocation -/

/-- How many resident entries live in the block at `indexBlockOffset`. -/
def occupied (roots : List Root) (indexBlockOffset : Nat) : Nat :=
  (roots.filter fun entry => entry.indexBlockOffset.toNat = indexBlockOffset).length

/-- The loop of `FindOrAllocateFreeSlot`, at the block `indexBlockOffset`. -/
def findFreeSlotFrom : Nat → Nat → HiveProg (UInt32 × UInt32)
  | 0, _ => Prog.diverge
  | fuel + 1, indexBlockOffset => do
    let s ← Prog.get
    let count := occupied s.roots indexBlockOffset
    if count < entriesPerIndexBlock then
      return (UInt32.ofNat indexBlockOffset, UInt32.ofNat (indexSlotOffset indexBlockOffset count))
    else
      let nextBlockOffset ← readRawAt indexBlockOffset 4
      if leNat nextBlockOffset ≠ 0 then findFreeSlotFrom fuel (leNat nextBlockOffset)
      else
        -- The last pair of the chain is full: append a fresh pair right after its data.
        let newIndexBlockOffset :=
          computeDataRegionEnd s.roots (UInt32.ofNat indexBlockOffset).toNat
        writeRawAt newIndexBlockOffset freshIndexBlock
        writeRawAt (newIndexBlockOffset + blockBytes) freshNameBlock
        writeRawAt indexBlockOffset (leBytes 4 newIndexBlockOffset)
        findFreeSlotFrom fuel newIndexBlockOffset

/-- `FindOrAllocateFreeSlot`.  Until a pair is appended the walk reads only the
    unchanged file, so more than `size` steps repeat a block; after that the block
    offsets increase and every block left behind holds resident entries. -/
def findOrAllocateFreeSlot : HiveProg (UInt32 × UInt32) := do
  let s ← Prog.get
  findFreeSlotFrom (s.file.size + s.roots.length + 2) headerBytes

/-! ## Values -/

/-- Replaces the first entry `keyHash` and `parentHash` identify. -/
def updateEntry (roots : List Root) (keyHash parentHash : UInt64) (f : Root → Root) : List Root :=
  match roots with
  | [] => []
  | entry :: rest =>
    if entry.keyHash = keyHash ∧ entry.parentHash = parentHash then f entry :: rest
    else entry :: updateEntry rest keyHash parentHash f

/-- Where `WriteKeyValue` puts `data`: in place, or at the end of the data region
    of the entry's own block when the old space is too small. -/
def valueTarget (roots : List Root) (entry : Root) (data : List UInt8) : Nat :=
  if entry.length.toNat < data.length then
    computeDataRegionEnd roots entry.indexBlockOffset.toNat
  else entry.offset.toNat

/-- The entry after `WriteKeyValue`. -/
def Root.withValue (entry : Root) (target : Nat) (type : ConfigurationValueType)
    (data : List UInt8) : Root :=
  { entry with
    offset := UInt32.ofNat target
    length := UInt32.ofNat data.length
    valueType := type }

def writeKeyValue (keyHash parentHash : UInt64) (type : ConfigurationValueType)
    (data : List UInt8) : HiveProg Unit := do
  let s ← Prog.get
  match findEntry s.roots keyHash parentHash with
  | none => Prog.throw .notFound
  | some entry =>
    let targetOffset := valueTarget s.roots entry data
    writeRawAt targetOffset data
    let updated := entry.withValue targetOffset type data
    Prog.modify fun s =>
      { s with roots := updateEntry s.roots keyHash parentHash fun _ => updated }
    persistIndexEntry updated

/-! ## Formatting and loading -/

def formatEmptyConfigurationFile : HiveProg Unit := do
  writeRawAt 0 emptyHeader
  writeRawAt headerBytes freshIndexBlock
  writeRawAt (headerBytes + blockBytes) freshNameBlock

/-- The bytes of slot `slot` of an INDEX BLOCK in memory. -/
def slotBytes (indexBlock : List UInt8) (slot : Nat) : List UInt8 :=
  (indexBlock.drop (8 + slot * 32)).take 32

/-- The name `LoadConfigurationIndex` attaches to an entry, from the paired NAME BLOCK. -/
def loadedName (nameBlock : List UInt8) (entry : ConfigurationIndexEntry) : Name :=
  let index := entry.nameEntryIndex.toNat
  if entry.nameEntryIndex ≠ noNameEntry ∧ index < entriesPerNameBlock then
    let nameEntry := (nameBlock.drop (8 + index * 72)).take 72
    if leNat (nameEntry.take 8) = entry.keyHash.toNat then
      staticString32 ((nameEntry.drop 8).takeWhile fun c => c ≠ 0)
    else []
  else []

/-- The resident entry for slot `slot`, unless the slot is empty. -/
def loadSlot (indexBlockOffset : Nat) (indexBlock nameBlock : List UInt8) (slot : Nat) :
    Option Root :=
  let entry := ConfigurationIndexEntry.decode (slotBytes indexBlock slot)
  if entry.keyHash = 0 then none
  else some
    { keyHash := entry.keyHash
      parentHash := entry.parentHash
      valueType := .ofRaw entry.valueType
      offset := entry.offset
      length := entry.length
      name := loadedName nameBlock entry
      indexEntryOffset := UInt32.ofNat (indexSlotOffset indexBlockOffset slot)
      indexBlockOffset := UInt32.ofNat indexBlockOffset
      nameEntryIndex := entry.nameEntryIndex }

/-- The loop of `LoadConfigurationIndex`, at the block `indexBlockOffset`. -/
def loadChain : Nat → Nat → HiveProg (List Root)
  | 0, _ => Prog.diverge
  | fuel + 1, indexBlockOffset => do
    let indexBlock ← readRawAt indexBlockOffset blockBytes
    let nameBlock ← readRawAt
      (pairedNameBlockOffset (UInt32.ofNat indexBlockOffset).toNat) blockBytes
    let loaded := (List.range entriesPerIndexBlock).filterMap
      (loadSlot indexBlockOffset indexBlock nameBlock)
    let nextBlockOffset := leNat (indexBlock.take 4)
    if nextBlockOffset = 0 then return loaded
    else
      let rest ← loadChain fuel nextBlockOffset
      return loaded ++ rest

/-- `LoadConfigurationIndex`.  Every block it reads lies inside the file, so more
    than `size` steps repeat a block. -/
def loadConfigurationIndex : HiveProg (List Root) := do
  let header ← readRawAt 0 headerBytes
  if header.take 4 ≠ [67, 70, 71, 49] then Prog.throw .invalidFormat
  else
    let s ← Prog.get
    loadChain (s.file.size + 1) (leNat ((header.drop 16).take 4))

end UnDOS.Hive
