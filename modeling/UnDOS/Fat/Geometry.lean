import UnDOS.Fat.Session

/-!
# The Geometry of a Volume

What the checks of `FAT_ParseVbr` are worth.  Every sector address and every offset that the
driver computes later from the fields of `FAT_Volume` is computed without a check of its own.

- `checkedParseVbr` is `FAT_ParseVbr` with 32-bit operations that fail where the machine's
  wrap; it never fails (`checkedParseVbr_eq`).
- `Volume.Laid` is what an accepted boot sector says about the volume; the places of clusters
  and of their entries follow from it.
-/

namespace UnDOS.Fat

open UnDOS.Lib
open UnDOS.Kernel (KernelError)

/-! ## Checked arithmetic -/

/-- A result that 32 bits hold. -/
def fits32 (n : Nat) : Option Nat := if n < 2 ^ 32 then some n else none

def add32 (a b : Nat) : Option Nat := fits32 (a + b)
def mul32 (a b : Nat) : Option Nat := fits32 (a * b)
def sub32 (a b : Nat) : Option Nat := if b ≤ a then some (a - b) else none

theorem fits32_of_lt {n : Nat} (h : n < 2 ^ 32) : fits32 n = some n := if_pos h

theorem wrap32_of_lt {n : Nat} (h : n < 2 ^ 32) : wrap32 n = n := Nat.mod_eq_of_lt h

theorem sub32_of_le {a b : Nat} (h : b ≤ a) : sub32 a b = some (a - b) := if_pos h

theorem field_lt (raw : List UInt8) (offset size : Nat) : field raw offset size < 256 ^ size := by
  have hlength : ((raw.drop offset).take size).length ≤ size := by
    rw [List.length_take]
    exact min_le_left ..
  exact (leNat_lt _).trans_le (Nat.pow_le_pow_right (by decide) hlength)

/-- The total of `totalSectors16` and `totalSectors32`. -/
def totalSectors (sector : List UInt8) : Nat :=
  if field sector 19 2 ≠ 0 then field sector 19 2 else field sector 32 4

/-- `fatSize16` or `fatSize32`. -/
def fatSize (sector : List UInt8) : Nat :=
  if field sector 22 2 ≠ 0 then field sector 22 2 else field sector 36 4

theorem totalSectors_lt (sector : List UInt8) : totalSectors sector < 2 ^ 32 := by
  unfold totalSectors
  split_ifs
  · exact (field_lt sector 19 2).trans (by decide)
  · exact field_lt sector 32 4

/-- `FAT_ParseVbr` on the fields of FAT32, with checked operations. -/
def checkedParseFat32 (sector : List UInt8) (vol : Volume) :
    Option (Except KernelError (Volume × Option Nat)) := do
  let rootCluster := field sector 44 4
  if rootCluster < 2 ∨ (← add32 vol.totalClusters 2) ≤ rootCluster then
    return .error .invalidFormat
  let fsInfo := field sector 48 2
  let backupBootSector := field sector 50 2
  let hasFsInfo := decide (0 < fsInfo ∧ fsInfo < vol.reservedSectors)
  let backup ← add32 backupBootSector fsInfo
  return .ok ({ vol with
    rootCluster := rootCluster
    writable := field sector 40 2 / 128 % 2 == 0 && field sector 42 2 == 0
    fsInfoSector := if hasFsInfo then fsInfo else 0
    backupFsInfoSector :=
      if hasFsInfo ∧ backupBootSector ≠ 0 ∧ backup < vol.reservedSectors then backup
      else 0 }, serialAt sector 66)

/-- `FAT_ParseVbr` in the order of the source: every operation on 32 bits is checked, those on
64 bits are not. -/
def checkedParseVbr (sector : List UInt8) : Option (Except KernelError (Volume × Option Nat)) := do
  if !hasVbrSignature sector then return .error .invalidFormat
  if (sector.drop 3).take 8 = exFatName then return parseExFat sector
  let bytesPerSector := field sector 11 2
  let sectorsPerCluster := field sector 13 1
  let reservedSectors := field sector 14 2
  let numFATs := field sector 16 1
  if bytesPerSector < 512 ∨ bytesPerSector > 4096 ∨ !isPowerOfTwo bytesPerSector ∨
      !isPowerOfTwo sectorsPerCluster ∨ sectorsPerCluster > 128 ∨
      reservedSectors = 0 ∨ numFATs = 0 ∨ totalSectors sector = 0 then
    return .error .invalidFormat
  if fatSize sector = 0 ∨ totalSectors sector ≤ reservedSectors + numFATs * fatSize sector then
    return .error .invalidFormat
  let rounded ← sub32 (← add32 (← mul32 (field sector 17 2) 32) bytesPerSector) 1
  let rootDirSectors := rounded / bytesPerSector
  let metadataSectors := reservedSectors + numFATs * fatSize sector + rootDirSectors
  if totalSectors sector ≤ metadataSectors then return .error .invalidFormat
  let dataSectors ← sub32 (totalSectors sector) (← fits32 metadataSectors)
  let totalClusters := dataSectors / sectorsPerCluster
  if 0x0ffffff0 ≤ totalClusters then return .error .invalidFormat
  let type := typeOfClusters totalClusters
  let fixedRoot ← add32 reservedSectors (← mul32 numFATs (fatSize sector))
  let dataStartSector ← if type = .fat32 then pure fixedRoot else add32 fixedRoot rootDirSectors
  let vol : Volume :=
    { type := type
      bytesPerSector := bytesPerSector
      sectorsPerCluster := sectorsPerCluster
      reservedSectors := reservedSectors
      numFATs := numFATs
      fatSizeSectors := fatSize sector
      firstFATSector := reservedSectors
      rootDirSector := if type = .fat32 then 0 else fixedRoot
      rootDirSectors := if type = .fat32 then 0 else rootDirSectors
      dataStartSector := dataStartSector
      totalClusters := totalClusters }
  -- `requiredFatBytes` widens `totalClusters + 2` after the addition.
  let _ ← add32 totalClusters 2
  if fatSize sector * bytesPerSector < requiredFatBytes type totalClusters then
    return .error .invalidFormat
  if type = .fat32 then checkedParseFat32 sector vol else return .ok (vol, serialAt sector 38)

variable {sector : List UInt8}

theorem checkedParseFat32_eq {vol : Volume} (hclusters : vol.totalClusters + 2 < 2 ^ 32) :
    checkedParseFat32 sector vol = some (parseFat32 sector vol) := by
  have hinfo := field_lt sector 48 2
  have hbackup := field_lt sector 50 2
  have hcount : add32 vol.totalClusters 2 = some (vol.totalClusters + 2) := fits32_of_lt hclusters
  have hsum : add32 (field sector 50 2) (field sector 48 2) =
      some (field sector 50 2 + field sector 48 2) := fits32_of_lt (by omega)
  unfold checkedParseFat32 parseFat32
  by_cases hroot : field sector 44 4 < 2 ∨ vol.totalClusters + 2 ≤ field sector 44 4
  · simp only [hcount, Option.bind_eq_bind, Option.bind_some, if_pos hroot, Option.pure_def]
  · simp only [hcount, hsum, Option.bind_eq_bind, Option.bind_some, if_neg hroot, Option.pure_def]

/-- No operation of `FAT_ParseVbr` leaves 32 bits, whatever the boot sector says. -/
theorem checkedParseVbr_eq (sector : List UInt8) :
    checkedParseVbr sector = some (parseVbr sector) := by
  have hroot := field_lt sector 17 2
  have htotal := totalSectors_lt sector
  have htotalDef : (if field sector 19 2 ≠ 0 then field sector 19 2 else field sector 32 4) =
      totalSectors sector := rfl
  have hsizeDef : (if field sector 22 2 ≠ 0 then field sector 22 2 else field sector 36 4) =
      fatSize sector := rfl
  unfold checkedParseVbr parseVbr
  simp only [htotalDef, hsizeDef]
  by_cases hsignature : hasVbrSignature sector = true
  case neg => simp [hsignature]
  by_cases hexFat : (sector.drop 3).take 8 = exFatName
  case pos => simp [hsignature, hexFat]
  simp only [hsignature, hexFat, if_false]
  generalize field sector 11 2 = bytesPerSector at *
  generalize field sector 13 1 = sectorsPerCluster
  generalize field sector 14 2 = reserved at *
  generalize field sector 16 1 = numFATs
  generalize field sector 17 2 = rootEntries at *
  -- The checks on the single fields, then on the size of the FAT.
  by_cases hfields : bytesPerSector < 512 ∨ bytesPerSector > 4096 ∨ !isPowerOfTwo bytesPerSector ∨
      !isPowerOfTwo sectorsPerCluster ∨ sectorsPerCluster > 128 ∨ reserved = 0 ∨ numFATs = 0 ∨
      totalSectors sector = 0
  case pos => simp only [if_pos hfields]; rfl
  by_cases hfat : fatSize sector = 0 ∨ totalSectors sector ≤ reserved + numFATs * fatSize sector
  case pos => simp only [if_neg hfields, if_pos hfat]; rfl
  simp only [if_neg hfields, if_neg hfat]
  -- From here on the products are below the number of sectors.
  have hentries : mul32 rootEntries 32 = some (rootEntries * 32) := fits32_of_lt (by omega)
  have hsum : add32 (rootEntries * 32) bytesPerSector =
      some (rootEntries * 32 + bytesPerSector) := fits32_of_lt (by omega)
  have hrounded : sub32 (rootEntries * 32 + bytesPerSector) 1 =
      some (rootEntries * 32 + bytesPerSector - 1) := sub32_of_le (by omega)
  have hcopies : mul32 numFATs (fatSize sector) = some (numFATs * fatSize sector) :=
    fits32_of_lt (by omega)
  have hstart : add32 reserved (numFATs * fatSize sector) =
      some (reserved + numFATs * fatSize sector) := fits32_of_lt (by omega)
  simp only [hentries, hsum, hrounded, hcopies, hstart, Option.bind_eq_bind, Option.bind_some]
  generalize (rootEntries * 32 + bytesPerSector - 1) / bytesPerSector = rootSectors
  by_cases hmetadata : totalSectors sector ≤ reserved + numFATs * fatSize sector + rootSectors
  case pos => simp only [if_pos hmetadata]; rfl
  have hnarrow : fits32 (reserved + numFATs * fatSize sector + rootSectors) =
      some (reserved + numFATs * fatSize sector + rootSectors) := fits32_of_lt (by omega)
  have hdata : sub32 (totalSectors sector) (reserved + numFATs * fatSize sector + rootSectors) =
      some (totalSectors sector - (reserved + numFATs * fatSize sector + rootSectors)) :=
    sub32_of_le (by omega)
  have hafter : add32 (reserved + numFATs * fatSize sector) rootSectors =
      some (reserved + numFATs * fatSize sector + rootSectors) := fits32_of_lt (by omega)
  simp only [if_neg hmetadata, hnarrow, hdata, hafter, Option.bind_some]
  generalize (totalSectors sector - (reserved + numFATs * fatSize sector + rootSectors)) /
    sectorsPerCluster = clusters
  by_cases hclusters : 0x0ffffff0 ≤ clusters
  case pos => simp only [if_pos hclusters]; rfl
  have hcount : add32 clusters 2 = some (clusters + 2) := fits32_of_lt (by omega)
  simp only [hcount]
  by_cases htype : typeOfClusters clusters = .fat32
  · simp only [Option.pure_def, Option.bind_some]
    rw [checkedParseFat32_eq (by dsimp only; omega)]
    split_ifs <;> rfl
  · simp only [if_neg htype]
    split_ifs <;> rfl

/-! ## Accepted volumes -/

namespace Volume

/-- The sectors before the data area: the reserved ones, the copies of the FAT and the fixed
root directory. -/
def metadataEnd (vol : Volume) : Nat :=
  vol.reservedSectors + vol.numFATs * vol.fatSizeSectors + vol.rootDirSectors

/-- What an accepted boot sector with `total` sectors says about the volume. -/
structure Laid (vol : Volume) (total : Nat) : Prop where
  type : vol.type = typeOfClusters vol.totalClusters
  bytes : 512 ≤ vol.bytesPerSector ∧ vol.bytesPerSector ≤ 4096
  perCluster : 1 ≤ vol.sectorsPerCluster ∧ vol.sectorsPerCluster ≤ 128
  reserved : 1 ≤ vol.reservedSectors
  copies : 1 ≤ vol.numFATs
  fatStart : vol.firstFATSector = vol.reservedSectors
  /-- FAT32 has no fixed root directory. -/
  noFixedRoot : vol.type = .fat32 → vol.rootDirSectors = 0
  rootStart : vol.type ≠ .fat32 →
    vol.rootDirSector = vol.reservedSectors + vol.numFATs * vol.fatSizeSectors
  dataStart : vol.dataStartSector = vol.metadataEnd
  data : vol.dataStartSector + vol.totalClusters * vol.sectorsPerCluster ≤ total
  total : total < 2 ^ 32
  clusters : vol.totalClusters < 0x0ffffff0
  entries : requiredFatBytes vol.type vol.totalClusters ≤ vol.fatSizeSectors * vol.bytesPerSector
  root : vol.type = .fat32 → vol.validCluster vol.rootCluster = true
  /-- The sectors with the free count, 0 where there is none. -/
  fsInfo : vol.fsInfoSector < vol.reservedSectors
  backup : vol.backupFsInfoSector < vol.reservedSectors

end Volume

theorem typeOfClusters_ne_exFat (n : Nat) : typeOfClusters n ≠ .exFat := by
  unfold typeOfClusters
  split_ifs <;> simp

theorem isPowerOfTwo_pos {n : Nat} (h : isPowerOfTwo n = true) : 1 ≤ n := by
  unfold isPowerOfTwo at h
  rw [Bool.and_eq_true, bne_iff_ne] at h
  exact pos_of_ne_zero h.1

theorem parseExFat_type {vol : Volume} {serial : Option Nat}
    (h : parseExFat sector = .ok (vol, serial)) : vol.type = .exFat := by
  unfold parseExFat at h
  dsimp only at h
  split at h
  · cases h
  · cases h
    rfl

theorem parseFat32_laid {vol parsed : Volume} {serial : Option Nat}
    {total : Nat} (h : parseFat32 sector vol = .ok (parsed, serial))
    (hlaid : ∀ root, vol.validCluster root = true → { vol with rootCluster := root }.Laid total) :
    parsed.Laid total := by
  unfold parseFat32 at h
  dsimp only at h
  split at h
  · cases h
  · rename_i hroot
    cases h
    have hvalid : vol.validCluster (field sector 44 4) = true := decide_eq_true (by omega)
    have hbase := hlaid _ hvalid
    have hreserved : 1 ≤ vol.reservedSectors := hbase.reserved
    refine { hbase with root := fun _ => hvalid, fsInfo := ?_, backup := ?_ }
    · dsimp only
      split_ifs with hinfo
      · exact (of_decide_eq_true hinfo).2
      · exact hreserved
    · dsimp only
      split_ifs with hinfo
      · exact hinfo.2.2
      · exact hreserved

/-- An accepted boot sector lays its areas out inside the volume. -/
theorem parseVbr_laid {vol : Volume} {serial : Option Nat}
    (h : parseVbr sector = .ok (vol, serial)) (htype : vol.type ≠ .exFat) :
    vol.Laid (totalSectors sector) := by
  have htotal := totalSectors_lt sector
  have htotalDef : (if field sector 19 2 ≠ 0 then field sector 19 2 else field sector 32 4) =
      totalSectors sector := rfl
  unfold parseVbr at h
  simp only [htotalDef] at h
  generalize (if field sector 22 2 ≠ 0 then field sector 22 2 else field sector 36 4) = size at h
  generalize hroots : (field sector 17 2 * 32 + field sector 11 2 - 1) / field sector 11 2 = roots
    at h
  split at h
  · cases h
  split at h
  · exact absurd (parseExFat_type h) htype
  split at h
  · cases h
  rename_i hfields
  split at h
  · cases h
  split at h
  · cases h
  rename_i hfat hmetadata
  split at h
  · cases h
  split at h
  · cases h
  rename_i hentries
  simp only [not_or, Bool.not_eq_true', Bool.not_eq_false] at hfields hfat
  obtain ⟨hbytes, hbytes', -, hpower, hper, hreserved, hcopies, -⟩ := hfields
  have hpos := isPowerOfTwo_pos hpower
  have hdata := Nat.div_mul_le_self (totalSectors sector -
    (field sector 14 2 + field sector 16 1 * size + roots)) (field sector 13 1)
  generalize (totalSectors sector - (field sector 14 2 + field sector 16 1 * size + roots)) /
    field sector 13 1 = clusters at *
  -- FAT32 alone has its root directory in clusters, without an area of its own.
  by_cases hfat32 : typeOfClusters clusters = .fat32
  · rw [if_pos hfat32] at h
    refine parseFat32_laid h fun root hroot => ?_
    exact
      { type := rfl
        bytes := ⟨by dsimp only; omega, by dsimp only; omega⟩
        perCluster := ⟨hpos, by dsimp only; omega⟩
        reserved := pos_of_ne_zero hreserved
        copies := pos_of_ne_zero hcopies
        fatStart := rfl
        noFixedRoot := fun _ => if_pos hfat32
        rootStart := absurd hfat32
        dataStart := by
          simp only [Volume.metadataEnd, if_pos hfat32, add_zero]
        data := by
          simp only [if_pos hfat32]
          omega
        total := htotal
        clusters := by dsimp only; omega
        entries := not_lt.mp hentries
        root := fun _ => hroot
        fsInfo := pos_of_ne_zero hreserved
        backup := pos_of_ne_zero hreserved }
  · rw [if_neg hfat32] at h
    cases h
    exact
      { type := rfl
        bytes := ⟨by dsimp only; omega, by dsimp only; omega⟩
        perCluster := ⟨hpos, by dsimp only; omega⟩
        reserved := pos_of_ne_zero hreserved
        copies := pos_of_ne_zero hcopies
        fatStart := rfl
        noFixedRoot := fun hyes => absurd hyes hfat32
        rootStart := fun _ => if_neg hfat32
        dataStart := by
          simp only [Volume.metadataEnd, if_neg hfat32]
        data := by
          simp only [if_neg hfat32]
          omega
        total := htotal
        clusters := by dsimp only; omega
        entries := not_lt.mp hentries
        root := fun hyes => absurd hyes hfat32
        fsInfo := pos_of_ne_zero hreserved
        backup := pos_of_ne_zero hreserved }

/-- The fields of a volume that stay as they were parsed. -/
def Volume.fixedFields (vol : Volume) : Volume :=
  { vol with
    writable := true, traversalGeneration := 1, traversalReuseDisabled := false
    fsInfoInvalidated := false }

theorem Volume.Laid.of_fixedFields {vol vol' : Volume} {total : Nat} (h : vol.Laid total)
    (heq : vol'.fixedFields = vol.fixedFields) : vol'.Laid total := by
  have hfixed : vol.fixedFields.Laid total := { h with }
  have hfixed' : vol'.fixedFields.Laid total := heq ▸ hfixed
  exact { hfixed' with }

/-! ## Where clusters and entries lie -/

namespace Volume

/-- Sectors from the first up to the second. -/
abbrev Area := Nat × Nat

/-- The copies of the FAT. -/
def fatCopies (vol : Volume) : List Area :=
  (List.range vol.numFATs).map fun copy =>
    (vol.firstFATSector + copy * vol.fatSizeSectors,
      vol.firstFATSector + (copy + 1) * vol.fatSizeSectors)

/-- The areas of a volume with `total` sectors. -/
def areas (vol : Volume) (total : Nat) : List Area :=
  (0, vol.reservedSectors) :: vol.fatCopies ++
    (if vol.type = .fat32 then [] else
      [(vol.rootDirSector, vol.rootDirSector + vol.rootDirSectors)]) ++
    [(vol.dataStartSector, total)]

/-- The sectors of a cluster. -/
def clusterArea (vol : Volume) (cluster : Nat) : Area :=
  (vol.clusterToSector cluster, vol.clusterToSector cluster + vol.sectorsPerCluster)

/-- Where `FAT_SetCluster` writes the entry of `cluster` in a copy of the FAT. -/
def entryAddress (vol : Volume) (copy cluster : Nat) : Nat :=
  wrap32 (vol.firstFATSector + wrap32 (copy * vol.fatSizeSectors)) * vol.bytesPerSector +
    vol.entryOffset cluster

/-- The entry of a cluster that must not be used. -/
def badMark (vol : Volume) : Nat :=
  match vol.type with
  | .fat12 => 0xFF7
  | .fat16 => 0xFFF7
  | .fat32 | .exFat => 0x0FFFFFF7

/-- What the driver relies on when it computes an address. -/
structure Geometry (vol : Volume) (total : Nat) : Prop where
  /-- The areas follow each other and none reaches into the next. -/
  areas : (vol.areas total).Pairwise fun a b => a.2 ≤ b.1
  area : ∀ a ∈ vol.areas total, a.1 ≤ a.2 ∧ a.2 ≤ total
  cluster : ∀ c, vol.validCluster c = true →
    vol.clusterToSector c = vol.dataStartSector + (c - 2) * vol.sectorsPerCluster ∧
      vol.dataStartSector ≤ (vol.clusterArea c).1 ∧ (vol.clusterArea c).2 ≤ total
  apart : ∀ c d, vol.validCluster c = true → vol.validCluster d = true → c ≠ d →
    (vol.clusterArea c).2 ≤ (vol.clusterArea d).1 ∨ (vol.clusterArea d).2 ≤ (vol.clusterArea c).1
  /-- An entry lies in its copy, and its address is not the result of a wrap. -/
  entry : ∀ c, vol.validCluster c = true → ∀ copy < vol.numFATs,
    vol.entryAddress copy c = (vol.firstFATSector + copy * vol.fatSizeSectors) *
        vol.bytesPerSector + vol.entryOffset c ∧
      vol.entryOffset c + vol.entryWidth ≤ vol.fatSizeSectors * vol.bytesPerSector
  mark : ∀ c, vol.validCluster c = true → vol.isEndOfChain c = false ∧ c ≠ vol.badMark
  root : vol.type = .fat32 → vol.validCluster vol.rootCluster = true

theorem fatCopies_ordered (vol : Volume) : vol.fatCopies.Pairwise fun a b => a.2 ≤ b.1 := by
  unfold fatCopies
  rw [List.pairwise_map]
  apply List.pairwise_lt_range.imp
  intro copy next hlt
  exact Nat.add_le_add_left (Nat.mul_le_mul_right _ hlt) _

end Volume

namespace Volume.Laid
variable {vol : Volume} {total : Nat} (h : vol.Laid total)
include h

theorem copy_le {copy : Nat} (hcopy : copy < vol.numFATs) :
    vol.firstFATSector + (copy + 1) * vol.fatSizeSectors ≤
      vol.reservedSectors + vol.numFATs * vol.fatSizeSectors := by
  rw [h.fatStart]
  exact Nat.add_le_add_left (Nat.mul_le_mul_right _ hcopy) _

theorem copies_lt : vol.reservedSectors + vol.numFATs * vol.fatSizeSectors < 2 ^ 32 := by
  have hdata := h.data
  have hstart := h.dataStart
  have htotal := h.total
  unfold Volume.metadataEnd at hstart
  omega

theorem data_le {c : Nat} (hc : vol.validCluster c = true) :
    vol.dataStartSector + (c - 2) * vol.sectorsPerCluster + vol.sectorsPerCluster ≤ total := by
  have hvalid := of_decide_eq_true hc
  have hmul : (c - 2 + 1) * vol.sectorsPerCluster ≤ vol.totalClusters * vol.sectorsPerCluster :=
    Nat.mul_le_mul_right _ hvalid.2
  have hdata := h.data
  rw [add_mul] at hmul
  omega

theorem clusterToSector_eq {c : Nat} (hc : vol.validCluster c = true) :
    vol.clusterToSector c = vol.dataStartSector + (c - 2) * vol.sectorsPerCluster := by
  have hvalid := of_decide_eq_true hc
  have hclusters := h.clusters
  have hdata := h.data_le hc
  have htotal := h.total
  have hindex : wrap32 (c + 2 ^ 32 - 2) = c - 2 := by
    rw [show c + 2 ^ 32 - 2 = c - 2 + 2 ^ 32 by omega]
    unfold wrap32
    rw [Nat.add_mod_right, Nat.mod_eq_of_lt (by omega)]
  unfold Volume.clusterToSector
  rw [hindex, wrap32_of_lt (by omega)]

theorem entryOffset_le {c : Nat} (hc : vol.validCluster c = true) :
    vol.entryOffset c + vol.entryWidth ≤ vol.fatSizeSectors * vol.bytesPerSector := by
  have hvalid := of_decide_eq_true hc
  have hclusters := h.clusters
  have hentries := h.entries
  unfold Volume.entryOffset Volume.entryWidth
  cases htype : vol.type with
  | fat12 =>
    simp only [htype, requiredFatBytes] at hentries
    dsimp only
    rw [wrap32_of_lt (by omega)]
    omega
  | fat16 =>
    simp only [htype, requiredFatBytes] at hentries
    dsimp only
    rw [wrap32_of_lt (by omega)]
    omega
  | fat32 =>
    simp only [htype, requiredFatBytes] at hentries
    dsimp only
    rw [wrap32_of_lt (by omega)]
    omega
  | exFat => exact absurd (h.type.symm.trans htype) (typeOfClusters_ne_exFat _)

theorem entryAddress_eq {copy : Nat} (hcopy : copy < vol.numFATs) (c : Nat) :
    vol.entryAddress copy c = (vol.firstFATSector + copy * vol.fatSizeSectors) *
      vol.bytesPerSector + vol.entryOffset c := by
  have hle := h.copy_le hcopy
  have hlt := h.copies_lt
  rw [add_mul] at hle
  unfold Volume.entryAddress
  rw [wrap32_of_lt (show copy * vol.fatSizeSectors < 2 ^ 32 by omega), wrap32_of_lt (by omega)]

theorem not_mark {c : Nat} (hc : vol.validCluster c = true) :
    vol.isEndOfChain c = false ∧ c ≠ vol.badMark := by
  have hvalid := of_decide_eq_true hc
  have hclusters := h.clusters
  have htype := h.type
  unfold typeOfClusters at htype
  unfold Volume.isEndOfChain Volume.badMark
  split_ifs at htype with h12 h16 <;> simp only [htype, decide_eq_false_iff_not] <;> omega

theorem mem_fatCopies {a : Volume.Area} (ha : a ∈ vol.fatCopies) :
    vol.reservedSectors ≤ a.1 ∧ a.1 ≤ a.2 ∧
      a.2 ≤ vol.reservedSectors + vol.numFATs * vol.fatSizeSectors := by
  obtain ⟨copy, hcopy, rfl⟩ := List.mem_map.mp ha
  have hle := h.copy_le (List.mem_range.mp hcopy)
  have hstart := h.fatStart
  refine ⟨by dsimp only; omega, ?_, hle⟩
  rw [add_mul]
  omega

theorem mem_fixedRoot {a : Volume.Area} (ha : a ∈ if vol.type = .fat32 then [] else
      [(vol.rootDirSector, vol.rootDirSector + vol.rootDirSectors)]) :
    vol.reservedSectors + vol.numFATs * vol.fatSizeSectors ≤ a.1 ∧ a.1 ≤ a.2 ∧
      a.2 ≤ vol.dataStartSector := by
  split_ifs at ha with htype
  · cases ha
  · have hstart := h.rootStart htype
    have hdata := h.dataStart
    unfold Volume.metadataEnd at hdata
    rw [List.mem_singleton.mp ha]
    omega

/-- Reserved sectors, tables, root and data follow each other without overlap. -/
theorem areas_ordered : (vol.areas total).Pairwise fun a b => a.2 ≤ b.1 := by
  have hdata := h.dataStart
  unfold Volume.metadataEnd at hdata
  unfold Volume.areas
  rw [List.pairwise_append, List.cons_append, List.pairwise_cons, List.pairwise_append]
  refine ⟨⟨?_, vol.fatCopies_ordered, ?_, ?_⟩, List.pairwise_singleton _ _, ?_⟩
  · -- The reserved sectors come first.
    intro a ha
    rcases List.mem_append.mp ha with hcopy | hroot
    · exact (h.mem_fatCopies hcopy).1
    · have := (h.mem_fixedRoot hroot).1
      omega
  · split_ifs
    · exact List.Pairwise.nil
    · exact List.pairwise_singleton _ _
  · intro a ha b hb
    exact (h.mem_fatCopies ha).2.2.trans (h.mem_fixedRoot hb).1
  · -- The data area comes last.
    intro a ha b hb
    rw [List.mem_singleton.mp hb]
    rcases List.mem_cons.mp ha with rfl | ha
    · omega
    rcases List.mem_append.mp ha with hcopy | hroot
    · have := (h.mem_fatCopies hcopy).2.2
      omega
    · exact (h.mem_fixedRoot hroot).2.2

theorem mem_areas {a : Volume.Area} (ha : a ∈ vol.areas total) : a.1 ≤ a.2 ∧ a.2 ≤ total := by
  have hdata := h.dataStart
  have hend := h.data
  unfold Volume.metadataEnd at hdata
  rcases List.mem_append.mp ha with ha | hlast
  · rcases List.mem_cons.mp ha with rfl | ha
    · omega
    rcases List.mem_append.mp ha with hcopy | hroot
    · have := h.mem_fatCopies hcopy
      omega
    · have := h.mem_fixedRoot hroot
      omega
  · rw [List.mem_singleton.mp hlast]
    omega

theorem clusters_apart {c d : Nat} (hc : vol.validCluster c = true)
    (hd : vol.validCluster d = true) (hlt : c < d) :
    (vol.clusterArea c).2 ≤ (vol.clusterArea d).1 := by
  have hvalid := of_decide_eq_true hc
  have hmul : (c - 2 + 1) * vol.sectorsPerCluster ≤ (d - 2) * vol.sectorsPerCluster :=
    Nat.mul_le_mul_right _ (by omega)
  unfold Volume.clusterArea
  rw [h.clusterToSector_eq hc, h.clusterToSector_eq hd]
  rw [add_mul] at hmul
  omega

theorem geometry : vol.Geometry total where
  areas := h.areas_ordered
  area := fun _ => h.mem_areas
  cluster := fun c hc => by
    have heq := h.clusterToSector_eq hc
    have hle := h.data_le hc
    unfold Volume.clusterArea
    omega
  apart := fun c d hc hd hne => by
    rcases lt_or_gt_of_ne hne with hlt | hgt
    · exact .inl (h.clusters_apart hc hd hlt)
    · exact .inr (h.clusters_apart hd hc hgt)
  entry := fun c hc _ hcopy => ⟨h.entryAddress_eq hcopy c, h.entryOffset_le hc⟩
  mark := fun _ => h.not_mark
  root := h.root

end Volume.Laid

/-- Whatever boot sector `FAT_ParseVbr` accepts as FAT12, FAT16 or FAT32: it was read without
a wrap, and the areas, the clusters and their entries lie where they should. -/
theorem parseVbr_geometry {sector : List UInt8} {vol : Volume} {serial : Option Nat}
    (h : parseVbr sector = .ok (vol, serial)) (htype : vol.type ≠ .exFat) :
    checkedParseVbr sector = some (.ok (vol, serial)) ∧ vol.Geometry (totalSectors sector) :=
  ⟨h ▸ checkedParseVbr_eq sector, (parseVbr_laid h htype).geometry⟩

theorem parseVbr_geometry_small :
    checkedParseVbr (readAt smallDisk 0 512) = some (.ok (smallVolume, none)) ∧
      smallVolume.Geometry (totalSectors (readAt smallDisk 0 512)) :=
  parseVbr_geometry smallBootSector_parse (by decide)

end UnDOS.Fat
