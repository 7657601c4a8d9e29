import UnDOS.Hive.Io

/-!
# The Configuration Manager

`configuration_manager.cpp`: the `KE_CM_*` calls on one registered hive.  A key
handle carries only the hash of its own name and the hash of its parent's name;
every call finds its entry in the resident index by these two numbers.

Two things outside the module are parameters: whether the kernel heap can
allocate a key handle (`handleAllocated`), and the outcome of each file access
(`HiveFile.faults`).
-/

namespace UnDOS.Hive

open UnDOS.Lib UnDOS.Kernel

/-! ## Handles -/

/-- `KConfigurationKeyAccess`, a bit mask. -/
abbrev KConfigurationKeyAccess := UInt16

/-- `KConfigurationKeyAccess::Exclusive`: fail if the key exists. -/
def accessExclusive : KConfigurationKeyAccess := 0x20
/-- `KConfigurationKeyAccess::Key`. -/
def accessKey : KConfigurationKeyAccess := 0x40

/-- `KConfigurationKey`: a handle to one entry of the hive. -/
structure KConfigurationKey where
  keyHash : UInt64
  parentHash : UInt64
  access : KConfigurationKeyAccess := accessKey
deriving DecidableEq

/-- The handle `KE_CM_OpenRoot` returns: hash 0 stands for the hive root. -/
def rootKey : KConfigurationKey := { keyHash := 0, parentHash := 0 }

/-! ## Opening and reference counting -/

/-- `IncrementConfigRootReferenceLocked`. -/
def incrementConfigRootReference : HiveProg Unit := do
  let s ← Prog.get
  if s.configptrReferences = 2 ^ 32 - 1 then Prog.throw .resourceLimitExceeded
  else Prog.modify fun s => { s with configptrReferences := s.configptrReferences + 1 }

/-- `ReleaseConfigRootReferenceLocked`. -/
def releaseConfigRootReference : HiveProg Unit :=
  Prog.modify fun s =>
    if 1 < s.configptrReferences then
      { s with configptrReferences := s.configptrReferences - 1 }
    else s

/-- `EnsureRootIsOpenedLocked` on an open file: load the index unless it is loaded. -/
def ensureRootIsOpened : HiveProg Unit := do
  let s ← Prog.get
  if s.indexLoaded then return ()
  else
    match (← Prog.attempt loadConfigurationIndex) with
    | .error e =>
      Prog.modify fun s => { s with roots := [], numRoots := 0, indexLoaded := false }
      Prog.throw e
    | .ok loaded =>
      Prog.modify fun s =>
        { s with roots := loaded, numRoots := loaded.length, indexLoaded := true }

def openAndReferenceConfigRoot : HiveProg Unit := do
  ensureRootIsOpened
  incrementConfigRootReference

/-- The key hash, the parent hash and the short name a call addresses.  Without a
    parent handle the name must be qualified by the hive's own name. -/
def resolveTarget (hiveName : Name) (parentKey : Option KConfigurationKey) (subKeyName : Name) :
    Except KernelError (UInt64 × UInt64 × Name) :=
  match parentKey with
  | some parent => .ok (configurationKey subKeyName, parent.keyHash, subKeyName)
  | none =>
    if 47 ∉ subKeyName then .error .invalidArgument
    else if subKeyName.takeWhile (fun c => c ≠ 47) ≠ hiveName then .error .notFound
    else
      let resolvedName := (subKeyName.dropWhile (fun c => c ≠ 47)).drop 1
      .ok (configurationKey resolvedName, 0, resolvedName)

/-- `resolveTarget` against the hive at hand. -/
def resolveName (parentKey : Option KConfigurationKey) (subKeyName : Name) :
    HiveProg (UInt64 × UInt64 × Name) := do
  let s ← Prog.get
  Prog.ofExcept (resolveTarget s.hiveName parentKey subKeyName)

/-- A fresh handle on an existing entry; it holds a reference on the hive. -/
def makeHandle (handleAllocated : Bool) (key : KConfigurationKey) : HiveProg KConfigurationKey :=
  if handleAllocated then do
    incrementConfigRootReference
    return key
  else Prog.throw .outOfMemory

/-- Runs `body` between `OpenAndReferenceConfigRoot` and `ReleaseConfigRootReference`. -/
def withConfigRoot {α : Type} (body : HiveProg α) : HiveProg α := do
  openAndReferenceConfigRoot
  let result ← Prog.attempt body
  releaseConfigRootReference
  Prog.ofExcept result

/-! ## Roots and handles -/

/-- `KE_CM_OpenRoot`. -/
def openRoot (handleAllocated : Bool) : HiveProg KConfigurationKey :=
  withConfigRoot (makeHandle handleAllocated rootKey)

/-- `KE_CM_DecrementConfigRootReferenceCount`, when a handle goes out of scope. -/
def closeKey : HiveProg Unit := releaseConfigRootReference

/-! ## Keys -/

/-- `KE_CM_OpenKey`. -/
def openKey (parentKey : Option KConfigurationKey) (subKeyName : Name)
    (desiredAccess : KConfigurationKeyAccess) (handleAllocated : Bool) :
    HiveProg KConfigurationKey := do
  let (keyHash, parentHash, _) ← resolveName parentKey subKeyName
  withConfigRoot do
    let s ← Prog.get
    match findEntry s.roots keyHash parentHash with
    | none => Prog.throw .notFound
    | some child =>
      makeHandle handleAllocated
        { keyHash := child.keyHash, parentHash := child.parentHash, access := desiredAccess }

/-- The name slot of a new entry: a full NAME BLOCK leaves the key unnamed, it does
    not fail the call. -/
def nameEntryIndexOf : Except KernelError UInt16 → UInt16
  | .ok index => index
  | .error _ => noNameEntry

/-- The entry of a freshly created key: folder-like, with no value. -/
def newEntry (keyHash parentHash : UInt64) (resolvedName : Name)
    (indexBlockOffset indexEntryOffset : UInt32) (nameEntryIndex : UInt16) : Root :=
  { keyHash := keyHash
    parentHash := parentHash
    name := staticString32 resolvedName
    indexEntryOffset := indexEntryOffset
    indexBlockOffset := indexBlockOffset
    nameEntryIndex := nameEntryIndex }

/-- The branch of `KE_CM_CreateKey` that adds an entry to the index. -/
def createEntry (keyHash parentHash : UInt64) (resolvedName : Name) : HiveProg Unit := do
  let (indexBlockOffset, indexEntryOffset) ← findOrAllocateFreeSlot
  let named ← Prog.attempt
    (findOrAllocateNameSlot indexBlockOffset.toNat keyHash resolvedName)
  let entry := newEntry keyHash parentHash resolvedName indexBlockOffset indexEntryOffset
    (nameEntryIndexOf named)
  persistIndexEntry entry
  Prog.modify fun s =>
    { s with roots := s.roots ++ [entry], numRoots := s.numRoots + 1 }

/-- `KE_CM_CreateKey`. -/
def createKey (parentKey : Option KConfigurationKey) (subKeyName : Name)
    (desiredAccess : KConfigurationKeyAccess) (handleAllocated : Bool) :
    HiveProg KConfigurationKey := do
  let (keyHash, parentHash, resolvedName) ← resolveName parentKey subKeyName
  let handle : KConfigurationKey :=
    { keyHash := keyHash, parentHash := parentHash, access := desiredAccess }
  withConfigRoot do
    let s ← Prog.get
    match findEntry s.roots keyHash parentHash with
    | some _ =>
      if desiredAccess &&& accessExclusive ≠ 0 then Prog.throw .alreadyExists
      else makeHandle handleAllocated handle
    | none => do
      createEntry keyHash parentHash resolvedName
      makeHandle handleAllocated handle

/-- `root->roots.erase(it)` for the first entry the two hashes identify. -/
def eraseEntry (roots : List Root) (keyHash parentHash : UInt64) : List Root :=
  roots.eraseP fun entry => entry.keyHash = keyHash ∧ entry.parentHash = parentHash

/-- The entry `KE_CM_DeleteKey` persists over the slot it frees. -/
def clearedEntry (entry : Root) : Root :=
  { keyHash := 0, parentHash := 0, indexEntryOffset := entry.indexEntryOffset }

/-- `KE_CM_DeleteKey`. -/
def deleteKey (parentKey : Option KConfigurationKey) (subKeyName : Name) : HiveProg Unit := do
  let (keyHash, parentHash, _) ← resolveName parentKey subKeyName
  withConfigRoot do
    let s ← Prog.get
    match findEntry s.roots keyHash parentHash with
    | none => Prog.throw .notFound
    | some entry =>
      persistIndexEntry (clearedEntry entry)
      -- Losing the name slot is not an error: the key is gone either way.
      if entry.nameEntryIndex ≠ noNameEntry then
        let _ ← Prog.attempt (persistNameEntry entry.indexBlockOffset.toNat
          entry.nameEntryIndex.toNat 0 [])
      Prog.modify fun s =>
        { s with
          roots := eraseEntry s.roots keyHash parentHash
          numRoots := s.numRoots - 1 }

/-! ## Values -/

/-- The guard every value call starts with (`IsRootReady`). -/
def requireReady : HiveProg Unit := do
  let s ← Prog.get
  if s.indexLoaded then return () else Prog.throw .notInitialized

/-- The payload one of the `KE_CM_SetKeyValue*` calls stores. -/
inductive ConfigurationValue where
  | boolean (v : Bool)
  | uint32 (v : UInt32)
  | uint64 (v : UInt64)
  | sint32 (v : UInt32)
  | sint64 (v : UInt64)
  | string (v : List UInt8)
deriving DecidableEq

namespace ConfigurationValue

/-- The type tag the call passes on. -/
def type : ConfigurationValue → ConfigurationValueType
  | boolean _ => .boolean
  | uint32 _ => .uint32
  | uint64 _ => .uint64
  | sint32 _ => .sint32
  | sint64 _ => .sint64
  | string _ => .string

/-- The bytes the call passes on. -/
def payload : ConfigurationValue → List UInt8
  | boolean v => [if v then 1 else 0]
  | uint32 v => leBytes 4 v.toNat
  | uint64 v => leBytes 8 v.toNat
  | sint32 v => leBytes 4 v.toNat
  | sint64 v => leBytes 8 v.toNat
  | string v => v

end ConfigurationValue

/-- `KE_CM_SetKeyValue*`: the six setters differ only in tag and payload. -/
def setKeyValue (key : KConfigurationKey) (value : ConfigurationValue) : HiveProg Unit := do
  requireReady
  writeKeyValue key.keyHash key.parentHash value.type value.payload

/-- `KE_CM_GetKeyValueBool`, `UInt32`, `UInt64`, `SInt32` and `SInt64`, as the raw
    bytes read: the getters differ in the expected tag and size. -/
def getFixedValue (key : KConfigurationKey) (type : ConfigurationValueType) (size : Nat) :
    HiveProg (List UInt8) := do
  requireReady
  readKeyValue key.keyHash key.parentHash type size

/-- `KE_CM_GetKeyValueString` into a buffer of `capacity` bytes. -/
def getKeyValueString (key : KConfigurationKey) (capacity : Nat) : HiveProg (List UInt8) := do
  requireReady
  let s ← Prog.get
  match findEntry s.roots key.keyHash key.parentHash with
  | none => Prog.throw .notFound
  | some entry =>
    if entry.valueType ≠ .string then Prog.throw .invalidFormat
    else if capacity < entry.length.toNat then Prog.throw .bufferTooSmall
    else readRawAt entry.offset.toNat entry.length.toNat

/-- `KE_CM_GetKeyValueStringSize`. -/
def getKeyValueStringSize (key : KConfigurationKey) : HiveProg Nat := do
  requireReady
  let s ← Prog.get
  match findEntry s.roots key.keyHash key.parentHash with
  | none => Prog.throw .notFound
  | some entry =>
    if entry.valueType ≠ .string then Prog.throw .invalidFormat
    else return entry.length.toNat

/-- The entry after its value was deleted: folder-like again, as freshly created. -/
def Root.withoutValue (entry : Root) : Root :=
  { entry with valueType := .invalid, offset := 0, length := 0 }

/-- `KE_CM_DeleteValue`.  The resident entry is changed before it is persisted. -/
def deleteValue (key : KConfigurationKey) (valueName : Name) : HiveProg Unit := do
  requireReady
  let s ← Prog.get
  match findEntry s.roots (configurationKey valueName) key.keyHash with
  | none => Prog.throw .notFound
  | some entry =>
    if entry.valueType = .invalid then Prog.throw .notFound
    else
      Prog.modify fun s =>
        { s with
          roots := updateEntry s.roots (configurationKey valueName) key.keyHash
            (fun _ => entry.withoutValue) }
      persistIndexEntry entry.withoutValue

/-! ## Enumeration -/

/-- The folder-like children of `key`, in index order. -/
def childKeys (roots : List Root) (key : KConfigurationKey) : List Root :=
  roots.filter fun entry => entry.parentHash = key.keyHash ∧ entry.valueType = .invalid

/-- The value-holding children of `key`, in index order. -/
def childValues (roots : List Root) (key : KConfigurationKey) : List Root :=
  roots.filter fun entry => entry.parentHash = key.keyHash ∧ entry.valueType ≠ .invalid

/-- `KE_CM_EnumKey`: the name of the `index`-th folder-like child, `none` at the end. -/
def enumKey (key : KConfigurationKey) (index : Nat) : HiveProg (Option Name) := do
  requireReady
  let s ← Prog.get
  return (childKeys s.roots key)[index]?.map Root.name

/-- `KE_CM_EnumValue`: name and type of the `index`-th value-holding child. -/
def enumValue (key : KConfigurationKey) (index : Nat) :
    HiveProg (Option (Name × ConfigurationValueType)) := do
  requireReady
  let s ← Prog.get
  return (childValues s.roots key)[index]?.map fun entry => (entry.name, entry.valueType)

end UnDOS.Hive
