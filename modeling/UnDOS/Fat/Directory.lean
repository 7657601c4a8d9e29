import UnDOS.Fat.Volume

/-!
# Directories

Directory entries, the nodes with their cached positions, and the search that
`FAT_ReadDirectory` and `FAT_OperateFile` share (`FAT_DirectorySector`, `FAT_FindEntry` in
`fat_operations.hpp`).

A search follows the sectors of a directory one by one.  Its place is a `Cursor`; the
bound on the sector number ends it, so the recursion is over the sectors that are left.
-/

namespace UnDOS.Fat

open UnDOS.Lib
open UnDOS.Kernel (KernelError)

/-! ## Entries -/

/-- `FAT_DirEntry`: 32 packed bytes. -/
abbrev DirEntry := List UInt8

/-- `sizeof(FAT_DirEntry)`. -/
def dirEntrySize : Nat := 32

namespace DirEntry

def name (e : DirEntry) : List UInt8 := e.take 11

/-- `name[0]`. -/
def first (e : DirEntry) : UInt8 := e.getD 0 0

def attr (e : DirEntry) : Nat := field e 11 1

def fileSize (e : DirEntry) : Nat := field e 28 4

/-- `FAT_EntryCluster`. -/
def cluster (e : DirEntry) : Nat := field e 20 2 * 2 ^ 16 + field e 26 2

/-- `kAttrVolumeId` and `kAttrDirectory`. -/
def isVolumeId (e : DirEntry) : Bool := e.attr / 8 % 2 == 1
def isDirectory (e : DirEntry) : Bool := e.attr / 16 % 2 == 1

/-- Never used, or deleted. -/
def unused (e : DirEntry) : Bool := e.first == 0 || e.first == 0xE5

/-- `attr == kAttrLongName`. -/
def isLongName (e : DirEntry) : Bool := e.attr == 0x0F

end DirEntry

/-- Entry number `slot` of a sector. -/
def entryAt (sector : List UInt8) (slot : Nat) : DirEntry :=
  (sector.drop (slot * dirEntrySize)).take dirEntrySize

/-! ## Nodes -/

/-- `FAT_ChainCheckpoint`. -/
structure ChainCheckpoint where
  valid : Bool := false
  generation : Nat := 0
  startCluster : Nat := 0
  clusterIndex : Nat := 0
  cluster : Nat := 0
deriving DecidableEq

/-- `FAT_OrdinalCheckpoint`. -/
structure OrdinalCheckpoint where
  valid : Bool := false
  generation : Nat := 0
  ordinal : Nat := 0
  sector : Nat := 0
  slot : Nat := 0
  pendingLongName : Bool := false
deriving DecidableEq

/-- `FAT_VFSNode`. -/
structure Node where
  startCluster : Nat := 0
  isFixedRoot : Bool := false
  fileChain : ChainCheckpoint := {}
  clusterData : List UInt8 := []
  clusterCacheValid : Bool := false
  cachedGeneration : Nat := 0
  cachedStartCluster : Nat := 0
  cachedClusterIndex : Nat := 0
  cachedCluster : Nat := 0
  directoryChain : ChainCheckpoint := {}
  directoryOrdinal : OrdinalCheckpoint := {}
  directoryEofKnown : Bool := false
  directoryEofCount : Nat := 0
  directoryEofGeneration : Nat := 0
deriving DecidableEq

/-- `kernel::VFSNodeType`. -/
inductive NodeType where
  | unknown | file | directory
deriving DecidableEq

/-- `kernel::KVFSNode`; `fat` is its `fsPrivate`. -/
structure VfsNode where
  type : NodeType := .unknown
  size : Nat := 0
  attributes : Nat := 0
  fat : Node := {}
deriving DecidableEq

/-- `FAT_FillNode`. -/
def fillNode (e : DirEntry) : VfsNode where
  type := if e.isDirectory then .directory else .file
  size := if e.isDirectory then 0 else e.fileSize
  attributes := e.attr
  fat := { startCluster := e.cluster }

/-- `FAT_GetRootNode`. -/
def getRootNode (vol : Volume) : VfsNode where
  type := .directory
  attributes := 0x10
  fat := match vol.type with
    | .fat32 | .exFat => { startCluster := vol.rootCluster }
    | _ => { isFixedRoot := true }

/-! ## The sectors of a directory -/

section Search
variable {D : Type} (io : Device D) (vol : Volume) (d : D)

/-- The loop of `FAT_DirectorySector`: `steps` clusters further, or `none` at the end of the
chain. -/
def directoryWalk : Nat → Nat → Except KernelError (Option Nat)
  | 0, cluster => .ok (some cluster)
  | steps + 1, cluster =>
    if !vol.validCluster cluster then .error .invalidFormat
    else match getNextCluster io vol d cluster with
      | .error e => .error e
      | .ok next =>
        if vol.isEndOfChain next then .ok none
        else if !vol.validCluster next then .error .invalidFormat
        else directoryWalk steps next

/-- Whether `FAT_DirectorySector` may start at the checkpoint. -/
def ChainCheckpoint.usable (checkpoint : ChainCheckpoint) (dir : Node) (targetIndex : Nat) :
    Bool :=
  !vol.traversalReuseDisabled && checkpoint.valid &&
    checkpoint.generation == vol.traversalGeneration &&
    checkpoint.startCluster == dir.startCluster &&
    decide (checkpoint.clusterIndex ≤ targetIndex) && vol.validCluster checkpoint.cluster

/-- The checkpoint that `FAT_DirectorySector` leaves. -/
def directoryCheckpoint (dir : Node) (checkpoint : ChainCheckpoint) (index cluster : Nat) :
    ChainCheckpoint :=
  if vol.traversalReuseDisabled then { checkpoint with valid := false }
  else
    { valid := true, generation := vol.traversalGeneration, startCluster := dir.startCluster,
      clusterIndex := index, cluster := cluster }

/-- `FAT_DirectorySector`: the sector, 0 at the end of the directory, and the checkpoint. -/
def directorySector (dir : Node) (index : Nat) (checkpoint : ChainCheckpoint) :
    Except KernelError (Nat × ChainCheckpoint) :=
  if dir.isFixedRoot then
    .ok (if index < vol.rootDirSectors then wrap32 (vol.rootDirSector + index) else 0, checkpoint)
  else if vol.totalClusters ≤ index / vol.sectorsPerCluster then .error .invalidFormat
  else
    let targetIndex := index / vol.sectorsPerCluster
    let usable := checkpoint.usable vol dir targetIndex
    let cluster := if usable then checkpoint.cluster else dir.startCluster
    let clusterIndex := if usable then checkpoint.clusterIndex else 0
    match directoryWalk io vol d (targetIndex - clusterIndex) cluster with
    | .error e => .error e
    | .ok none => .ok (0, checkpoint)
    | .ok (some cluster) =>
      if !vol.validCluster cluster then .error .invalidFormat
      else
        .ok (wrap32 (vol.clusterToSector cluster + index % vol.sectorsPerCluster),
          directoryCheckpoint vol dir checkpoint targetIndex cluster)

/-! ## The search -/

/-- `FAT_EntryLocation`. -/
structure EntryLocation where
  entry : DirEntry := []
  address : Nat := 0
  directorySector : Nat := 0
  slot : Nat := 0
  longName : Bool := false
deriving DecidableEq

/-- What `FAT_FindEntry` looks for: visible entry number `ordinal` (`name` is null), a slot
that can be reused (`name` is empty), or a name. -/
inductive Search where
  | enumerate (ordinal : Nat)
  | free
  | named (name : List UInt8)
deriving DecidableEq

/-- What one entry means for the search. -/
inductive Verdict where
  | found
  | ended
  | longName
  | passed (seen : Nat)
deriving DecidableEq

/-- One round of the loop over the slots of a sector. -/
def Search.examine (search : Search) (e : DirEntry) (seen : Nat) : Verdict :=
  if search = .free ∧ e.unused then .found
  else if e.first = 0 then .ended
  else if !e.unused && e.isLongName then .longName
  else if !e.unused && !e.isVolumeId && e.first != 0x2E then
    match search with
    | .enumerate ordinal => if seen = ordinal then .found else .passed (seen + 1)
    | .named name => if e.name = name then .found else .passed seen
    | .free => .passed seen
  else .passed seen

/-- How the loop over the slots ends. -/
inductive SlotScan where
  | found (slot seen : Nat) (longName : Bool)
  | ended (seen : Nat)
  | exhausted (seen : Nat) (longName : Bool)
deriving DecidableEq

/-- The loop over the slots of a sector, `left` of them from `slot` on. -/
def scanSlots (search : Search) (sector : List UInt8) : Nat → Nat → Nat → Bool → SlotScan
  | 0, _, seen, longName => .exhausted seen longName
  | left + 1, slot, seen, longName =>
    match search.examine (entryAt sector slot) seen with
    | .found => .found slot seen longName
    | .ended => .ended seen
    | .longName => scanSlots search sector left (slot + 1) seen true
    | .passed seen => scanSlots search sector left (slot + 1) seen false

/-- Where the search is. -/
structure Cursor where
  sector : Nat := 0
  slot : Nat := 0
  seen : Nat := 0
  longName : Bool := false
deriving DecidableEq

/-- How the search ends. -/
inductive Scan where
  | found (location : EntryLocation) (seen : Nat)
  | ended (seen : Nat)
deriving DecidableEq

/-- The search in one sector of the directory, which is `sector` on the device: it ends
there, or goes on at the next sector. -/
def searchSector (search : Search) (c : Cursor) (sector : Nat) :
    Except KernelError (Scan ⊕ Cursor) :=
  if sector = 0 then .ok (.inl (.ended c.seen))
  else match io.read d (sector * vol.bytesPerSector) vol.bytesPerSector with
    | .error e => .error e
    | .ok data =>
      if data.length ≠ vol.bytesPerSector then .error .unexpectedEndOfFile
      else match scanSlots search data (vol.bytesPerSector / dirEntrySize - c.slot) c.slot c.seen
          c.longName with
        | .found slot seen longName =>
          .ok (.inl (.found
            { entry := entryAt data slot
              address := sector * vol.bytesPerSector + slot * dirEntrySize
              directorySector := c.sector, slot := slot, longName := longName } seen))
        | .ended seen => .ok (.inl (.ended seen))
        | .exhausted seen longName => .ok (.inr ⟨c.sector + 1, 0, seen, longName⟩)

/-- One round of the loop over the sectors, with the checkpoint it leaves. -/
def scanSector (search : Search) (dir : Node) (c : Cursor) (chain : ChainCheckpoint) :
    Except KernelError ((Scan ⊕ Cursor) × ChainCheckpoint) :=
  match directorySector io vol d dir c.sector chain with
  | .error e => .error e
  | .ok (sector, nextChain) =>
    (searchSector io vol d search c sector).map fun scan => (scan, nextChain)

/-- The loop over the sectors; `left` more sector numbers fit in 32 bits. -/
def scanSectors (search : Search) (dir : Node) :
    Nat → Cursor → ChainCheckpoint → Except KernelError (Scan × ChainCheckpoint)
  | left, c, chain =>
    match scanSector io vol d search dir c chain with
    | .error e => .error e
    | .ok (.inl scan, nextChain) => .ok (scan, nextChain)
    | .ok (.inr c, nextChain) =>
      match left with
      | 0 => .error .invalidFormat
      | left + 1 => scanSectors search dir left c nextChain

/-- The search from a cursor on. -/
def scanFrom (search : Search) (dir : Node) (c : Cursor) (chain : ChainCheckpoint) :
    Except KernelError (Scan × ChainCheckpoint) :=
  scanSectors io vol d search dir (uint32Max - c.sector) c chain

/-- Whether what the node remembers of the directory is of another generation. -/
def Node.directoryStale (dir : Node) : Bool :=
  vol.traversalReuseDisabled ||
    (dir.directoryOrdinal.valid && dir.directoryOrdinal.generation != vol.traversalGeneration) ||
    (!dir.isFixedRoot && dir.directoryChain.valid &&
      dir.directoryChain.generation != vol.traversalGeneration) ||
    (dir.directoryEofKnown && dir.directoryEofGeneration != vol.traversalGeneration)

def Node.forgetDirectory (dir : Node) : Node :=
  { dir with
    directoryOrdinal := { dir.directoryOrdinal with valid := false }
    directoryChain := { dir.directoryChain with valid := false }
    directoryEofKnown := false }

/-- Where an enumeration starts: at the last entry found, or at the beginning. -/
def Node.startCursor (dir : Node) (ordinal : Nat) : Cursor × ChainCheckpoint :=
  let last := dir.directoryOrdinal
  if !vol.traversalReuseDisabled && last.valid && last.generation == vol.traversalGeneration &&
      decide (last.ordinal ≤ ordinal) then
    (⟨last.sector, last.slot, last.ordinal, last.pendingLongName⟩, dir.directoryChain)
  else ({}, {})

/-- What an enumeration that found an entry remembers. -/
def Node.rememberEntry (dir : Node) (location : EntryLocation) (seen : Nat)
    (chain : ChainCheckpoint) : Node :=
  let generation := vol.traversalGeneration
  if vol.traversalReuseDisabled then { dir.forgetDirectory with directoryEofKnown := false }
  else
    { dir with
      directoryOrdinal :=
        ⟨true, generation, seen, location.directorySector, location.slot, location.longName⟩
      directoryChain := if dir.isFixedRoot then { chain with generation := generation } else chain
      directoryEofKnown := false }

/-- `FAT_FindEntry` with a null name. -/
def enumerateEntry (dir : Node) (ordinal : Nat) :
    Except KernelError (Option EntryLocation) × Node :=
  let dir := if dir.directoryStale vol then dir.forgetDirectory else dir
  if dir.directoryEofKnown && dir.directoryEofGeneration == vol.traversalGeneration &&
      decide (dir.directoryEofCount ≤ ordinal) then (.ok none, dir)
  else
    let (start, chain) := dir.startCursor vol ordinal
    match scanFrom io vol d (.enumerate ordinal) dir start chain with
    | .error e => (.error e, dir)
    | .ok (.ended seen, _) =>
      (.ok none, { dir with
        directoryEofKnown := true, directoryEofCount := seen,
        directoryEofGeneration := vol.traversalGeneration })
    | .ok (.found location seen, chain) =>
      (.ok (some location), dir.rememberEntry vol location seen chain)

/-- `FAT_FindEntry`: where the entry is, and the node with what it remembers. -/
def findEntry (parent : VfsNode) (search : Search) :
    Except KernelError (Option EntryLocation) × Node :=
  if vol.type = .exFat then (.error .unsupported, parent.fat)
  else if parent.type ≠ .directory then (.error .notDirectory, parent.fat)
  else match search with
    | .enumerate ordinal => enumerateEntry io vol d parent.fat ordinal
    | _ =>
      match scanFrom io vol d search parent.fat {} {} with
      | .error e => (.error e, parent.fat)
      | .ok (.ended _, _) => (.ok none, parent.fat)
      | .ok (.found location _, _) => (.ok (some location), parent.fat)

/-! ## `FAT_ReadDirectory` -/

/-- `kernel::KVFSDirectoryEntry`. -/
structure DirectoryEntry where
  name : List UInt8
  size : Nat
  attributes : Nat
deriving DecidableEq

/-- The name with a dot before its extension, and without the padding. -/
def displayName (name : List UInt8) : List UInt8 :=
  (name.take 8).takeWhile (· ≠ 0x20) ++
    if name.getD 8 0 ≠ 0x20 then 0x2E :: ((name.drop 8).take 3).takeWhile (· ≠ 0x20) else []

/-- `FAT_ReadDirectory`. -/
def readDirectory (parent : VfsNode) (index : Nat) :
    Except KernelError (Option DirectoryEntry) × Node :=
  let (found, dir) := findEntry io vol d parent (.enumerate index)
  (found.map (Option.map fun location =>
    ⟨displayName location.entry.name, location.entry.fileSize, location.entry.attr⟩), dir)

end Search

end UnDOS.Fat
