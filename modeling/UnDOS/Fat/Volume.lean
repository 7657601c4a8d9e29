import UnDOS.Kernel.Error
import UnDOS.Lib.ByteStore

/-!
# FAT Volumes

`Drivers/fs_fat/fat.cpp`: the boot sector, the cluster arithmetic and the reading of the
file allocation table.

- The device is a parameter.  Reading is a function of the state of the device; a read may
  fail and may be short (`transferred` is the length of what it returns).
- Allocations of buffers succeed.
- The driver computes sectors and byte offsets in 32 bits; where the source lets a sum or
  a product wrap, so does the model (`wrap32`).
-/

namespace UnDOS.Fat

open UnDOS.Lib
open UnDOS.Kernel (KernelError)

/-! ## Devices -/

/-- A block device with states `D`: `KE_IO_ReadDevice` and `KE_IO_WriteDevice`. -/
structure Device (D : Type) where
  read : D → Nat → Nat → Except KernelError (List UInt8)
  write : D → Nat → List UInt8 → Except KernelError Nat × D
  read_length : ∀ {d : D} {offset length : Nat} {data : List UInt8},
    read d offset length = .ok data → data.length ≤ length

/-- A device that never fails: bytes at every address. -/
def memoryDevice : Device ByteStore where
  read := fun d offset length => .ok (readAt d offset length)
  write := fun d offset data => (.ok data.length, writeAt d offset data)
  read_length := by
    intro d offset length data h
    rw [← Except.ok.inj h, readAt_length]

/-! ## Volumes -/

/-- `FAT_Type`. -/
inductive FatType where
  | fat12 | fat16 | fat32 | exFat
deriving DecidableEq

/-- `FAT_Volume`. -/
structure Volume where
  type : FatType := .fat12
  bytesPerSector : Nat := 0
  sectorsPerCluster : Nat := 0
  reservedSectors : Nat := 0
  numFATs : Nat := 0
  fatSizeSectors : Nat := 0
  firstFATSector : Nat := 0
  rootDirSector : Nat := 0
  rootDirSectors : Nat := 0
  rootCluster : Nat := 0
  dataStartSector : Nat := 0
  totalClusters : Nat := 0
  writable : Bool := true
  traversalGeneration : Nat := 1
  traversalReuseDisabled : Bool := false
  fsInfoSector : Nat := 0
  backupFsInfoSector : Nat := 0
  fsInfoInvalidated : Bool := false
deriving DecidableEq

def wrap32 (n : Nat) : Nat := n % 2 ^ 32

/-- `UINT32_MAX` and `UINT64_MAX`. -/
def uint32Max : Nat := 2 ^ 32 - 1
def uint64Max : Nat := 2 ^ 64 - 1

/-- `FAT_IsPowerOfTwo`. -/
def isPowerOfTwo (value : Nat) : Bool := value != 0 && value &&& (value - 1) == 0

/-- A little-endian field of a packed structure. -/
def field (raw : List UInt8) (offset size : Nat) : Nat := leNat ((raw.drop offset).take size)

/-- `FAT_HasVbrSignature`. -/
def hasVbrSignature (sector : List UInt8) : Bool :=
  field sector 510 1 == 0x55 && field sector 511 1 == 0xAA

/-- `"EXFAT   "`. -/
def exFatName : List UInt8 := [0x45, 0x58, 0x46, 0x41, 0x54, 0x20, 0x20, 0x20]

/-- The serial number after an extended boot signature at `offset`. -/
def serialAt (sector : List UInt8) (offset : Nat) : Option Nat :=
  if field sector offset 1 = 0x28 ∨ field sector offset 1 = 0x29 then
    some (field sector (offset + 1) 4)
  else none

/-- `FAT_ParseVbr` for a volume that calls itself exFAT. -/
def parseExFat (sector : List UInt8) : Except KernelError (Volume × Option Nat) :=
  let bytesPerSectorShift := field sector 108 1
  let sectorsPerClusterShift := field sector 109 1
  if bytesPerSectorShift < 9 ∨ bytesPerSectorShift > 12 ∨ sectorsPerClusterShift > 7 then
    .error .invalidFormat
  else
    .ok ({ type := .exFat
           bytesPerSector := 2 ^ bytesPerSectorShift
           sectorsPerCluster := 2 ^ sectorsPerClusterShift
           numFATs := field sector 110 1
           fatSizeSectors := field sector 84 4
           firstFATSector := field sector 80 4
           dataStartSector := field sector 88 4
           rootCluster := field sector 96 4
           totalClusters := field sector 92 4 }, none)

/-- The type that the number of clusters gives. -/
def typeOfClusters (totalClusters : Nat) : FatType :=
  if totalClusters < 4085 then .fat12 else if totalClusters < 65525 then .fat16 else .fat32

/-- The bytes that the FAT needs for `totalClusters` clusters. -/
def requiredFatBytes (type : FatType) (totalClusters : Nat) : Nat :=
  match type with
  | .fat12 => ((totalClusters + 2) * 3 + 1) / 2
  | .fat16 => (totalClusters + 2) * 2
  | _ => (totalClusters + 2) * 4

/-- The fields that only FAT32 has: `FAT_BPB_FAT32` at offset 36. -/
def parseFat32 (sector : List UInt8) (vol : Volume) : Except KernelError (Volume × Option Nat) :=
  let rootCluster := field sector 44 4
  let fsInfo := field sector 48 2
  let backupBootSector := field sector 50 2
  let hasFsInfo := decide (0 < fsInfo ∧ fsInfo < vol.reservedSectors)
  let backup := backupBootSector + fsInfo
  if rootCluster < 2 ∨ vol.totalClusters + 2 ≤ rootCluster then .error .invalidFormat
  else
    .ok ({ vol with
           rootCluster := rootCluster
           writable := field sector 40 2 / 128 % 2 == 0 && field sector 42 2 == 0
           fsInfoSector := if hasFsInfo then fsInfo else 0
           backupFsInfoSector :=
             if hasFsInfo ∧ backupBootSector ≠ 0 ∧ backup < vol.reservedSectors then backup
             else 0 }, serialAt sector 66)

/-- `FAT_ParseVbr`: the volume, and its serial number if it has one. -/
def parseVbr (sector : List UInt8) : Except KernelError (Volume × Option Nat) :=
  if !hasVbrSignature sector then .error .invalidFormat
  else if (sector.drop 3).take 8 = exFatName then parseExFat sector
  else
    let bytesPerSector := field sector 11 2
    let sectorsPerCluster := field sector 13 1
    let reservedSectors := field sector 14 2
    let numFATs := field sector 16 1
    let rootEntryCount := field sector 17 2
    let totalSectors := if field sector 19 2 ≠ 0 then field sector 19 2 else field sector 32 4
    let fatSize := if field sector 22 2 ≠ 0 then field sector 22 2 else field sector 36 4
    let rootDirSectors := (rootEntryCount * 32 + bytesPerSector - 1) / bytesPerSector
    let metadataSectors := reservedSectors + numFATs * fatSize + rootDirSectors
    let totalClusters := (totalSectors - metadataSectors) / sectorsPerCluster
    let type := typeOfClusters totalClusters
    let fixedRoot := reservedSectors + numFATs * fatSize
    let vol : Volume :=
      { type := type
        bytesPerSector := bytesPerSector
        sectorsPerCluster := sectorsPerCluster
        reservedSectors := reservedSectors
        numFATs := numFATs
        fatSizeSectors := fatSize
        firstFATSector := reservedSectors
        rootDirSector := if type = .fat32 then 0 else fixedRoot
        rootDirSectors := if type = .fat32 then 0 else rootDirSectors
        dataStartSector := if type = .fat32 then fixedRoot else fixedRoot + rootDirSectors
        totalClusters := totalClusters }
    if bytesPerSector < 512 ∨ bytesPerSector > 4096 ∨ !isPowerOfTwo bytesPerSector ∨
        !isPowerOfTwo sectorsPerCluster ∨ sectorsPerCluster > 128 ∨
        reservedSectors = 0 ∨ numFATs = 0 ∨ totalSectors = 0 then .error .invalidFormat
    else if fatSize = 0 ∨ totalSectors ≤ reservedSectors + numFATs * fatSize then
      .error .invalidFormat
    else if totalSectors ≤ metadataSectors then .error .invalidFormat
    else if 0x0ffffff0 ≤ totalClusters then .error .invalidFormat
    else if fatSize * bytesPerSector < requiredFatBytes type totalClusters then
      .error .invalidFormat
    else if type = .fat32 then parseFat32 sector vol
    else .ok (vol, serialAt sector 38)

/-! ## Clusters -/

namespace Volume

/-- `FAT_IsEndOfChain`. -/
def isEndOfChain (vol : Volume) (cluster : Nat) : Bool :=
  match vol.type with
  | .fat12 => 0x0FF8 ≤ cluster
  | .fat16 => 0xFFF8 ≤ cluster
  | .fat32 | .exFat => 0x0FFFFFF8 ≤ cluster

/-- `FAT_ValidCluster`. -/
def validCluster (vol : Volume) (cluster : Nat) : Bool :=
  decide (2 ≤ cluster ∧ cluster - 2 < vol.totalClusters)

/-- `FAT_ClusterToSector`, in 32 bits also for a number that is no cluster. -/
def clusterToSector (vol : Volume) (cluster : Nat) : Nat :=
  wrap32 (vol.dataStartSector + wrap32 (cluster + 2 ^ 32 - 2) * vol.sectorsPerCluster)

/-- `bytesPerSector * sectorsPerCluster`. -/
def clusterBytes (vol : Volume) : Nat := vol.bytesPerSector * vol.sectorsPerCluster

/-- The offset of the entry of `cluster` in the FAT. -/
def entryOffset (vol : Volume) (cluster : Nat) : Nat :=
  match vol.type with
  | .fat12 => wrap32 (cluster + cluster / 2)
  | .fat16 => wrap32 (cluster * 2)
  | _ => wrap32 (cluster * 4)

/-- The bytes of an entry that are read. -/
def entryWidth (vol : Volume) : Nat :=
  match vol.type with
  | .fat12 | .fat16 => 2
  | _ => 4

/-- The value of the entry of `cluster`, from its bytes. -/
def entryValue (vol : Volume) (cluster raw : Nat) : Nat :=
  match vol.type with
  | .fat12 => if cluster % 2 = 1 then raw / 16 else raw % 4096
  | .fat16 => raw
  | _ => raw % 2 ^ 28

end Volume

section Reading
variable {D : Type} (io : Device D) (vol : Volume) (d : D)

/-- `FAT_GetNextCluster`. -/
def getNextCluster (cluster : Nat) : Except KernelError Nat :=
  let byteOffset := vol.entryOffset cluster
  let fatSector := wrap32 (vol.firstFATSector + byteOffset / vol.bytesPerSector)
  let entryOffset := byteOffset % vol.bytesPerSector
  -- Two sectors, since a FAT12 entry may straddle a boundary.
  match io.read d (fatSector * vol.bytesPerSector) (vol.bytesPerSector * 2) with
  | .error e => .error e
  | .ok bytes =>
    if bytes.length < entryOffset + vol.entryWidth then .error .unexpectedEndOfFile
    else .ok (vol.entryValue cluster (field bytes entryOffset vol.entryWidth))

end Reading

end UnDOS.Fat
