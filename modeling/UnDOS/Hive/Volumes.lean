import UnDOS.Hive.Manager

/-!
# Hives on Several Volumes

`configuration_manager.cpp`: opening the file behind a hive, and moving a hive to the volume
the system boots from.  A path names one file on every volume, and which of them
`KE_VFS_OpenFile` returns is decided by what is mounted at that moment.  A `RegisteredHive`
therefore remembers the volume its index came from beside the file that is open.

What lies outside the module is a parameter of each call (`Outside`): what opening and closing
the file gives, which file accesses fail, and whether the heap can hold a key handle.
-/

namespace UnDOS.Hive

open UnDOS.Lib UnDOS.Kernel

/-! ## State -/

/-- A `KDevice`, by its identity. -/
abbrev Volume := Nat

/-- `KIOObject`, as far as the module looks at it: the volume of the file's mount point,
    `none` when either of the two is missing. -/
structure KIOObject where
  volume : Option Volume
deriving DecidableEq

/-- What happened to a resident index. -/
inductive IndexChange where
  /-- It was read from the file on `volume`. -/
  | loaded (volume : Volume) (entries : List Root)
  /-- Entries were added, in memory and in the file on `volume`. -/
  | added (volume : Volume) (entries : List Root)
  /-- An entry was removed, in memory and in the file on `volume`. -/
  | removed (volume : Volume) (keyHash parentHash : UInt64)
  /-- It was dropped. -/
  | cleared

/-- The volume an index was loaded from and the entries it has now.  A change made through the
    file of another volume leaves an index of no volume. -/
def IndexChange.apply : Option (Volume × List Root) → IndexChange → Option (Volume × List Root)
  | _, .loaded volume entries => some (volume, entries)
  | some (source, entries), .added volume more =>
    if source = volume then some (source, entries ++ more) else none
  | some (source, entries), .removed volume keyHash parentHash =>
    if source = volume then some (source, eraseEntry entries keyHash parentHash) else none
  | _, _ => none

/-- What a history, newest change first, says the resident index is. -/
def provenance : List IndexChange → Option (Volume × List Root)
  | [] => none
  | change :: earlier => change.apply (provenance earlier)

/-- `KConfigurationRoot`, with the file behind it and the volume it was loaded from.  `history`
    is not in the source: it records where the resident entries came from. -/
structure RegisteredHive where
  hiveName : Name
  filePath : Name
  file : Option KIOObject := none
  configptrReferences : Nat := 1
  loadedVolume : Option Volume := none
  indexLoaded : Bool := false
  roots : List Root := []
  numRoots : Nat := 0
  history : List IndexChange := []

namespace RegisteredHive

/-- The hive, with the contents of its file at hand. -/
def onto (h : RegisteredHive) (file : HiveFile) : KConfigurationRoot where
  hiveName := h.hiveName
  file := file
  configptrReferences := h.configptrReferences
  indexLoaded := h.indexLoaded
  roots := h.roots
  numRoots := h.numRoots

/-- The hive after a routine left `root` behind. -/
def back (h : RegisteredHive) (root : KConfigurationRoot) : RegisteredHive :=
  { h with
    configptrReferences := root.configptrReferences
    indexLoaded := root.indexLoaded
    roots := root.roots
    numRoots := root.numRoots }

/-- `roots.clear()` and the fields that go with it. -/
def forget (h : RegisteredHive) : RegisteredHive :=
  { h with
    roots := []
    numRoots := 0
    loadedVolume := none
    indexLoaded := false
    history := .cleared :: h.history }

/-- The index that was loaded from the file on `volume` becomes the resident one. -/
def install (h : RegisteredHive) (volume : Volume) (loaded : List Root) : RegisteredHive :=
  { h with
    roots := loaded
    numRoots := loaded.length
    loadedVolume := some volume
    indexLoaded := true
    history := .loaded volume loaded :: h.history }

def IsRootReady (h : RegisteredHive) : Prop := h.file ≠ none ∧ h.indexLoaded = true

end RegisteredHive

/-- The files of all volumes, by path. -/
abbrev Disk := Name → Volume → HiveFile

/-- The disk with another file at `path` on `volume`. -/
def Disk.put (disk : Disk) (path : Name) (volume : Volume) (file : HiveFile) : Disk :=
  fun p v => if p = path ∧ v = volume then file else disk p v

/-- One hive, the disk, and what happens to the next file accesses. -/
structure HiveState where
  hive : RegisteredHive
  disk : Disk
  faults : List (Option IoFault)

/-- A routine on a registered hive. -/
abbrev VolumeProg := Prog HiveState KernelError

/-- What a call finds outside the module. -/
structure Outside where
  /-- What `KE_VFS_OpenFile` returns. -/
  opened : Except KernelError KIOObject
  /-- The error of `KE_VFS_CloseFile`, if it fails. -/
  closed : Option KernelError := none
  /-- As in `HiveFile.faults`. -/
  faults : List (Option IoFault) := []
  handleAllocated : Bool := true

/-- Changes the hive itself. -/
def changeHive (f : RegisteredHive → RegisteredHive) : VolumeProg Unit :=
  Prog.modify fun s => { s with hive := f s.hive }

/-- Runs a routine of the hive format on the file that the hive has on `volume`. -/
def onFile {α : Type} (volume : Volume) (x : HiveProg α) : VolumeProg α := fun s =>
  let file := { s.disk s.hive.filePath volume with faults := s.faults }
  let r := x (s.hive.onto file)
  (r.1,
    { hive := s.hive.back r.2
      disk := s.disk.put s.hive.filePath volume { r.2.file with faults := [] }
      faults := r.2.file.faults })

/-- Runs a routine that does not reach the file. -/
def onRoot {α : Type} (x : HiveProg α) : VolumeProg α := fun s =>
  let r := x (s.hive.onto {})
  (r.1, { s with hive := s.hive.back r.2 })

/-! ## Opening and reference counting -/

/-- The first step of `EnsureRootIsOpenedLocked`: open the file unless it is open. -/
def openHiveFile (opened : Except KernelError KIOObject) : VolumeProg Unit := do
  let s ← Prog.get
  match s.hive.file with
  | some _ => return ()
  | none =>
    let file ← Prog.ofExcept opened
    changeHive fun h => { h with file := some file }

/-- Both `EnsureRootIsOpenedLocked` and `PromoteBootHive` end by loading the index of a file
    they have on `volume`; if that fails, the hive keeps neither file nor index. -/
def loadIndex (volume : Volume) : VolumeProg (List Root) := do
  match (← Prog.attempt (onFile volume loadConfigurationIndex)) with
  | .error e =>
    changeHive fun h => { h.forget with file := none }
    Prog.throw e
  | .ok loaded => return loaded

/-- `EnsureRootIsOpenedLocked`.  The volume it returns is the one of the open file. -/
def ensureRootIsOpenedLocked (opened : Except KernelError KIOObject) : VolumeProg Volume := do
  openHiveFile opened
  let s ← Prog.get
  match s.hive.file.bind KIOObject.volume with
  | none =>
    changeHive fun h => { h with file := none }
    Prog.throw .invalidState
  | some currentVolume =>
    if s.hive.indexLoaded = true ∧ s.hive.loadedVolume = some currentVolume then
      return currentVolume
    else
      let loaded ← loadIndex currentVolume
      changeHive fun h => h.install currentVolume loaded
      return currentVolume

/-- Runs `body` between `OpenAndReferenceConfigRoot` and `ReleaseConfigRootReference`, with the
    volume of the open file. -/
def withOpenRoot {α : Type} (outside : Outside) (body : Volume → VolumeProg α) :
    VolumeProg α := do
  let volume ← ensureRootIsOpenedLocked outside.opened
  onRoot incrementConfigRootReference
  let result ← Prog.attempt (body volume)
  onRoot releaseConfigRootReference
  Prog.ofExcept result

/-! ## Keys -/

/-- `KE_CM_OpenRoot`, once the hive is found. -/
def openRootOf (outside : Outside) : VolumeProg KConfigurationKey :=
  withOpenRoot outside fun _ => onRoot (makeHandle outside.handleAllocated rootKey)

/-- `KE_CM_OpenKey`, once the hive and the hashes are known. -/
def openKeyOf (keyHash parentHash : UInt64) (desiredAccess : KConfigurationKeyAccess)
    (outside : Outside) : VolumeProg KConfigurationKey :=
  withOpenRoot outside fun _ => do
    let s ← Prog.get
    match findEntry s.hive.roots keyHash parentHash with
    | none => Prog.throw .notFound
    | some child =>
      onRoot (makeHandle outside.handleAllocated
        { keyHash := child.keyHash, parentHash := child.parentHash, access := desiredAccess })

/-- The branch of `KE_CM_CreateKey` that adds an entry. -/
def addEntry (volume : Volume) (keyHash parentHash : UInt64) (resolvedName : Name) :
    VolumeProg Unit := do
  let s ← Prog.get
  onFile volume (createEntry keyHash parentHash resolvedName)
  changeHive fun h =>
    { h with history := .added volume (h.roots.drop s.hive.roots.length) :: h.history }

/-- `KE_CM_CreateKey`, once the hive and the hashes are known. -/
def createKeyOf (keyHash parentHash : UInt64) (resolvedName : Name)
    (desiredAccess : KConfigurationKeyAccess) (outside : Outside) :
    VolumeProg KConfigurationKey :=
  withOpenRoot outside fun volume => do
    let handle : KConfigurationKey :=
      { keyHash := keyHash, parentHash := parentHash, access := desiredAccess }
    let s ← Prog.get
    match findEntry s.hive.roots keyHash parentHash with
    | some _ =>
      if desiredAccess &&& accessExclusive ≠ 0 then Prog.throw .alreadyExists
      else onRoot (makeHandle outside.handleAllocated handle)
    | none => do
      addEntry volume keyHash parentHash resolvedName
      onRoot (makeHandle outside.handleAllocated handle)

/-- The loop of `KE_CM_DeleteKey`. -/
def deleteEntry (keyHash parentHash : UInt64) : HiveProg Unit := do
  let s ← Prog.get
  match findEntry s.roots keyHash parentHash with
  | none => Prog.throw .notFound
  | some entry =>
    persistIndexEntry (clearedEntry entry)
    if entry.nameEntryIndex ≠ noNameEntry then
      let _ ← Prog.attempt (persistNameEntry entry.indexBlockOffset.toNat
        entry.nameEntryIndex.toNat 0 [])
    Prog.modify fun s =>
      { s with
        roots := eraseEntry s.roots keyHash parentHash
        numRoots := s.numRoots - 1 }

/-- `KE_CM_DeleteKey`, once the hive and the hashes are known. -/
def deleteKeyOf (keyHash parentHash : UInt64) (outside : Outside) : VolumeProg Unit :=
  withOpenRoot outside fun volume => do
    onFile volume (deleteEntry keyHash parentHash)
    changeHive fun h => { h with history := .removed volume keyHash parentHash :: h.history }

/-! ## Switching the boot volume -/

/-- `PrepareRootVolumeSwitch`, once the hive is found. -/
def prepareSwitch (outside : Outside) : VolumeProg Unit := do
  let s ← Prog.get
  if 1 < s.hive.configptrReferences then Prog.throw .resourceConflict
  else
    match s.hive.file with
    | none => return ()
    | some _ =>
      match outside.closed with
      | some e => Prog.throw e
      | none => changeHive fun h => { h with file := none }

/-- `PromoteBootHive`, once the hive is found. -/
def promote (selectedVolume : Volume) (outside : Outside) : VolumeProg Unit := do
  let s ← Prog.get
  if 1 < s.hive.configptrReferences then Prog.throw .resourceConflict
  else
    match outside.opened with
    | .error e =>
      -- An index of the selected volume stays: the file may be opened later.
      if s.hive.indexLoaded = false ∨ s.hive.loadedVolume ≠ some selectedVolume then
        changeHive RegisteredHive.forget
        Prog.throw e
      else Prog.throw e
    | .ok file =>
      if file.volume ≠ some selectedVolume then Prog.throw .invalidState
      else if s.hive.indexLoaded = true ∧ s.hive.loadedVolume = some selectedVolume then
        changeHive fun h => { h with file := some file }
      else
        let loaded ← loadIndex selectedVolume
        changeHive fun h => { h.install selectedVolume loaded with file := some file }

/-! ## The registry -/

/-- A live `KConfigurationKey`: the hive it keeps referenced, by its place in the registry. -/
structure KeyHandle where
  hive : Nat
  key : KConfigurationKey

/-- The hives of the configuration directory, the disk, and the key handles the callers hold. -/
structure Registry where
  hives : List RegisteredHive := []
  disk : Disk
  handles : List KeyHandle := []

/-- A call of the module. -/
abbrev RegistryProg := Prog Registry KernelError

/-- `KE_OB_FindDirectChildOfType` on the configuration directory. -/
def Registry.hiveIndex (w : Registry) (hiveName : Name) : Option Nat :=
  w.hives.findIdx? fun h => h.hiveName = hiveName

/-- Runs a routine on the hive at `i`. -/
def onHive {α : Type} (i : Nat) (faults : List (Option IoFault)) (x : VolumeProg α) :
    RegistryProg α := fun w =>
  match w.hives[i]? with
  | none => (.err .notFound, w)
  | some hive =>
    let r := x { hive := hive, disk := w.disk, faults := faults }
    (r.1, { w with hives := w.hives.set i r.2.hive, disk := r.2.disk })

/-- Runs a routine on the hive that is registered under `hiveName`. -/
def onNamed {α : Type} (hiveName : Name) (faults : List (Option IoFault)) (x : VolumeProg α) :
    RegistryProg α := do
  let w ← Prog.get
  match w.hiveIndex hiveName with
  | none => Prog.throw .notFound
  | some i => onHive i faults x

/-- The hive and the entry a call addresses.  `parentKey` is a handle the caller holds, by its
    place among the live ones. -/
def Registry.resolve (w : Registry) (parentKey : Option Nat) (subKeyName : Name) :
    Except KernelError (Nat × UInt64 × UInt64 × Name) :=
  match parentKey with
  | some k =>
    match w.handles[k]? with
    | none => .error .invalidHandle
    | some handle =>
      .ok (handle.hive, configurationKey subKeyName, handle.key.keyHash, subKeyName)
  | none =>
    if 47 ∉ subKeyName then .error .invalidArgument
    else
      match w.hiveIndex (subKeyName.takeWhile fun c => c ≠ 47) with
      | none => .error .notFound
      | some i =>
        let resolvedName := (subKeyName.dropWhile fun c => c ≠ 47).drop 1
        .ok (i, configurationKey resolvedName, 0, resolvedName)

/-- The caller holds the handle that `x` returns. -/
def keepHandle (i : Nat) (x : RegistryProg KConfigurationKey) : RegistryProg Unit := do
  let key ← x
  Prog.modify fun w => { w with handles := w.handles ++ [{ hive := i, key := key }] }

/-- `"LocalMachine"`. -/
def localMachine : Name := [76, 111, 99, 97, 108, 77, 97, 99, 104, 105, 110, 101]

/-- A call of the module, as its callers make it. -/
inductive RegistryCall where
  /-- `inserted` is the error of creating the object or of `KE_OB_InsertObject`. -/
  | registerHive (hiveName filePath : Name) (inserted : Option KernelError)
  | openRoot (rootName : Name)
  | openKey (parentKey : Option Nat) (subKeyName : Name) (access : KConfigurationKeyAccess)
  | createKey (parentKey : Option Nat) (subKeyName : Name) (access : KConfigurationKeyAccess)
  | deleteKey (parentKey : Option Nat) (subKeyName : Name)
  /-- A handle goes out of scope. -/
  | release (handle : Nat)
  | prepareRootVolumeSwitch
  | promoteBootHive (selectedVolume : Option Volume)

namespace RegistryCall

/-- `KE_CM_RegisterHive`. -/
def register (hiveName filePath : Name) (inserted : Option KernelError) : RegistryProg Unit := do
  let w ← Prog.get
  match w.hiveIndex hiveName with
  | some _ => Prog.throw .alreadyExists
  | none =>
    match inserted with
    | some e => Prog.throw e
    | none =>
      Prog.modify fun w =>
        { w with hives := w.hives ++ [{ hiveName := hiveName, filePath := filePath }] }

/-- `KE_CM_DecrementConfigRootReferenceCount` for a handle that goes away. -/
def releaseHandle (k : Nat) : RegistryProg Unit := do
  let w ← Prog.get
  match w.handles[k]? with
  | none => Prog.throw .invalidHandle
  | some handle =>
    Prog.modify fun w => { w with handles := w.handles.eraseIdx k }
    onHive handle.hive [] (onRoot closeKey)

/-- The call, without the handle that it gives to its caller. -/
def exec (outside : Outside) : RegistryCall → RegistryProg Unit
  | registerHive hiveName filePath inserted => register hiveName filePath inserted
  | openRoot rootName => do
    let w ← Prog.get
    match w.hiveIndex rootName with
    | none => Prog.throw .notFound
    | some i => keepHandle i (onHive i outside.faults (openRootOf outside))
  | openKey parentKey subKeyName access => do
    let w ← Prog.get
    let (i, keyHash, parentHash, _) ← Prog.ofExcept (w.resolve parentKey subKeyName)
    keepHandle i (onHive i outside.faults (openKeyOf keyHash parentHash access outside))
  | createKey parentKey subKeyName access => do
    let w ← Prog.get
    let (i, keyHash, parentHash, resolvedName) ← Prog.ofExcept (w.resolve parentKey subKeyName)
    keepHandle i
      (onHive i outside.faults (createKeyOf keyHash parentHash resolvedName access outside))
  | deleteKey parentKey subKeyName => do
    let w ← Prog.get
    let (i, keyHash, parentHash, _) ← Prog.ofExcept (w.resolve parentKey subKeyName)
    onHive i outside.faults (deleteKeyOf keyHash parentHash outside)
  | release handle => releaseHandle handle
  | prepareRootVolumeSwitch => onNamed localMachine outside.faults (prepareSwitch outside)
  | promoteBootHive selectedVolume =>
    match selectedVolume with
    | none => Prog.throw .invalidArgument
    | some volume => onNamed localMachine outside.faults (promote volume outside)

/-- One call after the other; errors go to the callers. -/
def run : List (RegistryCall × Outside) → RegistryProg Unit
  | [] => pure ()
  | (call, outside) :: calls => do
    let _ ← Prog.attempt (call.exec outside)
    run calls

end RegistryCall

end UnDOS.Hive
