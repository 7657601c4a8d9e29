import UnDOS.Fat.Geometry
import Mathlib.Data.Fintype.Pigeonhole

/-!
# Names in Directories

`FAT_Lookup` with the walk of its own that it makes through a directory (`FAT_ReadDirSector`).
The walk ends where the chain does; it does not count clusters, as `FAT_DirectorySector` does for
`FAT_FindEntry`.

A loop that need not end runs on fuel: `none` says that the fuel was used up.
-/

namespace UnDOS.Fat

open UnDOS.Lib
open UnDOS.Kernel (KernelError)

/-! ## Short names -/

/-- An upper-case ASCII letter for a lower-case one. -/
def upperCase (c : UInt8) : UInt8 := if 0x61 ≤ c ∧ c ≤ 0x7A then c - 0x61 + 0x41 else c

/-- The extension: what follows the last dot, if there is one. -/
def extension (name : List UInt8) : Option (List UInt8) :=
  if 0x2E ∈ name then some (name.reverse.takeWhile (· ≠ 0x2E)).reverse else none

/-- `FAT_ToShortName`. -/
def toShortName (name : List UInt8) : Except KernelError (List UInt8) :=
  let ext := (extension name).getD []
  let base := if (extension name).isSome then name.take (name.length - ext.length - 1) else name
  if 8 < base.length ∨ 3 < ext.length then .error .nameTooLong
  else
    .ok (base.map upperCase ++ List.replicate (8 - base.length) 0x20 ++
      (ext.map upperCase ++ List.replicate (3 - ext.length) 0x20))

example : toShortName [0x61, 0x2E, 0x62, 0x63] =
    .ok [0x41, 0x20, 0x20, 0x20, 0x20, 0x20, 0x20, 0x20, 0x42, 0x43, 0x20] := by decide

/-! ## The walk -/

/-- `cluster`, `sectorInCluster` and `fixedSectorIndex` of a lookup. -/
structure DirWalk where
  cluster : Nat
  sectorInCluster : Nat := 0
  fixedSectorIndex : Nat := 0
deriving DecidableEq

section Lookup
variable {D : Type} (io : Device D) (vol : Volume) (d : D)

/-- One whole sector of the device. -/
def readSector (sector : Nat) : Except KernelError (List UInt8) :=
  match io.read d (sector * vol.bytesPerSector) vol.bytesPerSector with
  | .error e => .error e
  | .ok data => if data.length ≠ vol.bytesPerSector then .error .unexpectedEndOfFile else .ok data

/-- Where a walk in a cluster goes on: the next cluster is looked up before the last sector of
this one is read. -/
def DirWalk.advance (w : DirWalk) : Except KernelError DirWalk :=
  if vol.sectorsPerCluster ≤ w.sectorInCluster + 1 then
    (getNextCluster io vol d w.cluster).map fun next =>
      { w with cluster := next, sectorInCluster := 0 }
  else .ok { w with sectorInCluster := w.sectorInCluster + 1 }

/-- `FAT_ReadDirSector`: the next sector, or nothing when there is none left. -/
def readDirSector (dir : Node) (w : DirWalk) : Except KernelError (Option (List UInt8 × DirWalk)) :=
  if dir.isFixedRoot then
    if vol.rootDirSectors ≤ w.fixedSectorIndex then .ok none
    else (readSector io vol d (wrap32 (vol.rootDirSector + w.fixedSectorIndex))).map fun data =>
      some (data, { w with fixedSectorIndex := w.fixedSectorIndex + 1 })
  else if w.cluster = 0 ∨ vol.isEndOfChain w.cluster then .ok none
  else
    match w.advance io vol d with
    | .error e => .error e
    | .ok next =>
      (readSector io vol d (wrap32 (vol.clusterToSector w.cluster + w.sectorInCluster))).map
        fun data => some (data, next)

/-- The loop over the entries of a sector; nothing if the search goes on. -/
def lookupSlots (name sector : List UInt8) : Nat → Nat → Option (Except KernelError VfsNode)
  | 0, _ => none
  | left + 1, slot =>
    let entry := entryAt sector slot
    if entry.first = 0 then some (.error .notFound)
    else if entry.first = 0xE5 ∨ entry.attr % 16 = 15 ∨ entry.isVolumeId then
      lookupSlots name sector left (slot + 1)
    else if entry.name = name then some (.ok (fillNode entry))
    else lookupSlots name sector left (slot + 1)

/-- The loop over the sectors of a directory. -/
def lookupSectors (name : List UInt8) (dir : Node) : Nat → DirWalk →
    Option (Except KernelError VfsNode)
  | 0, _ => none
  | fuel + 1, w =>
    match readDirSector io vol d dir w with
    | .error e => some (.error e)
    | .ok none => some (.error .notFound)
    | .ok (some (data, w)) =>
      match lookupSlots name data (vol.bytesPerSector / dirEntrySize) 0 with
      | some found => some found
      | none => lookupSectors name dir fuel w

/-- `FAT_Lookup`, within `fuel` sectors. -/
def lookup (fuel : Nat) (parent : VfsNode) (name : List UInt8) :
    Option (Except KernelError VfsNode) :=
  if parent.type ≠ .directory then some (.error .notDirectory)
  else match toShortName name with
    | .error e => some (.error e)
    | .ok shortName =>
      lookupSectors io vol d shortName parent.fat fuel { cluster := parent.fat.startCluster }

/-! ## The search by ordinal or short name -/

/-- The loop of `FAT_FindEntry`, within `fuel` sectors. -/
def scanWithin (search : Search) (dir : Node) : Nat → Cursor → ChainCheckpoint →
    Option (Except KernelError (Scan × ChainCheckpoint))
  | 0, _, _ => none
  | fuel + 1, c, chain =>
    match scanSector io vol d search dir c chain with
    | .error e => some (.error e)
    | .ok (.inl scan, nextChain) => some (.ok (scan, nextChain))
    | .ok (.inr next, nextChain) =>
      if c.sector = uint32Max then some (.error .invalidFormat)
      else scanWithin search dir fuel next nextChain

/-- `FAT_FindEntry` with a null name, within `fuel` sectors. -/
def enumerateWithin (fuel : Nat) (dir : Node) (ordinal : Nat) :
    Option (Except KernelError (Option EntryLocation) × Node) :=
  let dir := if dir.directoryStale vol then dir.forgetDirectory else dir
  if dir.directoryEofKnown && dir.directoryEofGeneration == vol.traversalGeneration &&
      decide (dir.directoryEofCount ≤ ordinal) then some (.ok none, dir)
  else
    let (start, chain) := dir.startCursor vol ordinal
    (scanWithin io vol d (.enumerate ordinal) dir fuel start chain).map fun
      | .error e => (.error e, dir)
      | .ok (.ended seen, _) =>
        (.ok none, { dir with
          directoryEofKnown := true, directoryEofCount := seen,
          directoryEofGeneration := vol.traversalGeneration })
      | .ok (.found location seen, chain) =>
        (.ok (some location), dir.rememberEntry vol location seen chain)

/-- `FAT_FindEntry`, within `fuel` sectors. -/
def findEntryWithin (fuel : Nat) (parent : VfsNode) (search : Search) :
    Option (Except KernelError (Option EntryLocation) × Node) :=
  if vol.type = .exFat then some (.error .unsupported, parent.fat)
  else if parent.type ≠ .directory then some (.error .notDirectory, parent.fat)
  else match search with
    | .enumerate ordinal => enumerateWithin io vol d fuel parent.fat ordinal
    | _ => (scanWithin io vol d search parent.fat fuel {} {}).map fun
      | .error e => (.error e, parent.fat)
      | .ok (.ended _, _) => (.ok none, parent.fat)
      | .ok (.found location _, _) => (.ok (some location), parent.fat)

end Lookup

section
variable {D : Type} {io : Device D} {vol : Volume} {d : D}

/-! ## Bounded searches -/

/-- The sectors that a directory can have. -/
def Volume.directorySectors (vol : Volume) (dir : Node) : Nat :=
  if dir.isFixedRoot then vol.rootDirSectors else vol.totalClusters * vol.sectorsPerCluster

theorem scanSector_ends {search : Search} {dir : Node} {c next : Cursor}
    {chain nextChain : ChainCheckpoint} (hper : 0 < vol.sectorsPerCluster)
    (hsector : vol.directorySectors dir ≤ c.sector) :
    scanSector io vol d search dir c chain ≠ .ok (.inr next, nextChain) := by
  intro h
  unfold Volume.directorySectors at hsector
  unfold scanSector directorySector at h
  by_cases hroot : dir.isFixedRoot = true
  · rw [if_pos hroot] at hsector
    rw [if_pos hroot, if_neg (not_lt.mpr hsector)] at h
    cases h
  · rw [if_neg hroot] at hsector
    rw [if_neg hroot, if_pos ((Nat.le_div_iff_mul_le hper).mpr hsector)] at h
    cases h

theorem scanSector_next {search : Search} {dir : Node} {c next : Cursor}
    {chain nextChain : ChainCheckpoint}
    (h : scanSector io vol d search dir c chain = .ok (.inr next, nextChain)) :
    next.sector = c.sector + 1 := by
  unfold scanSector at h
  rcases hsector : directorySector io vol d dir c.sector chain with e | ⟨sector, after⟩
  · rw [hsector] at h
    cases h
  rw [hsector] at h
  unfold searchSector at h
  dsimp only at h
  by_cases hzero : sector = 0
  · rw [if_pos hzero] at h
    cases h
  rw [if_neg hzero] at h
  rcases hread : io.read d (sector * vol.bytesPerSector) vol.bytesPerSector with e | data
  · rw [hread] at h
    cases h
  rw [hread] at h
  dsimp only at h
  by_cases hlength : data.length ≠ vol.bytesPerSector
  · rw [if_pos hlength] at h
    cases h
  rw [if_neg hlength] at h
  rcases hslots : scanSlots search data (vol.bytesPerSector / dirEntrySize - c.slot) c.slot c.seen
      c.longName with _ | _ | _
  · rw [hslots] at h
    cases h
  · rw [hslots] at h
    cases h
  · rw [hslots] at h
    cases h
    rfl

theorem scanWithin_eq {search : Search} {dir : Node} (hper : 0 < vol.sectorsPerCluster)
    (hbound : vol.directorySectors dir ≤ uint32Max) {fuel : Nat} {c : Cursor}
    (chain : ChainCheckpoint) (hfuel : vol.directorySectors dir < c.sector + fuel + 1) :
    scanWithin io vol d search dir (fuel + 1) c chain =
      some (scanFrom io vol d search dir c chain) := by
  induction fuel generalizing c chain with
  | zero =>
    unfold scanWithin scanFrom scanSectors
    rcases hscan : scanSector io vol d search dir c chain with e | ⟨_ | next, nextChain⟩
    · rfl
    · rfl
    · exact absurd hscan (scanSector_ends hper (by omega))
  | succ fuel ih =>
    unfold scanWithin scanFrom scanSectors
    rcases hscan : scanSector io vol d search dir c chain with e | ⟨_ | next, nextChain⟩
    · rfl
    · rfl
    have hnext := scanSector_next hscan
    have hinside : c.sector < vol.directorySectors dir := by
      by_contra hout
      exact scanSector_ends hper (not_lt.mp hout) hscan
    obtain ⟨left, hleft⟩ : ∃ left, uint32Max - c.sector = left + 1 :=
      ⟨uint32Max - c.sector - 1, by omega⟩
    have hrest := ih (c := next) nextChain (by omega)
    unfold scanFrom at hrest
    rw [hnext, show uint32Max - (c.sector + 1) = left by omega] at hrest
    rw [hleft]
    dsimp only
    rw [if_neg (by omega), hrest]

/-- One round more than there are directory sectors is enough for every search. -/
theorem findEntryWithin_eq {total : Nat} (h : vol.Laid total) (parent : VfsNode) (search : Search) :
    findEntryWithin io vol d (vol.directorySectors parent.fat + 1) parent search =
      some (findEntry io vol d parent search) := by
  have hper := h.perCluster.1
  have htotal := h.total
  have hdata := h.data
  have hstart := h.dataStart
  unfold Volume.metadataEnd at hstart
  have hbound : ∀ dir : Node, vol.directorySectors dir ≤ uint32Max := by
    intro dir
    unfold Volume.directorySectors uint32Max
    split <;> omega
  have hscan : ∀ (dir : Node) (s : Search) (c : Cursor) (chain : ChainCheckpoint),
      dir.isFixedRoot = parent.fat.isFixedRoot →
        scanWithin io vol d s dir (vol.directorySectors parent.fat + 1) c chain =
          some (scanFrom io vol d s dir c chain) := by
    intro dir s c chain hroot
    apply scanWithin_eq hper (hbound dir) chain
    unfold Volume.directorySectors
    rw [hroot]
    omega
  unfold findEntryWithin findEntry
  by_cases htype : vol.type = .exFat
  · rw [if_pos htype, if_pos htype]
  by_cases hparent : parent.type ≠ .directory
  · rw [if_neg htype, if_neg htype, if_pos hparent, if_pos hparent]
  rw [if_neg htype, if_neg htype, if_neg hparent, if_neg hparent]
  cases search with
  | enumerate ordinal =>
    unfold enumerateWithin enumerateEntry
    dsimp only
    have hforget : ∀ dir : Node, dir = (if parent.fat.directoryStale vol = true then
        parent.fat.forgetDirectory else parent.fat) →
        dir.isFixedRoot = parent.fat.isFixedRoot := by
      rintro dir rfl
      split <;> rfl
    generalize hdir : (if parent.fat.directoryStale vol = true then parent.fat.forgetDirectory
      else parent.fat) = dir
    have hroot := hforget dir hdir.symm
    split
    · rfl
    · rw [hscan dir _ _ _ hroot]
      rcases scanFrom io vol d _ dir _ _ with e | ⟨_ | _, _⟩ <;> rfl
  | free =>
    rw [hscan _ _ _ _ rfl]
    rcases scanFrom io vol d _ _ _ _ with e | ⟨_ | _, _⟩ <;> rfl
  | named name =>
    rw [hscan _ _ _ _ rfl]
    rcases scanFrom io vol d _ _ _ _ with e | ⟨_ | _, _⟩ <;> rfl

/-! ## The clusters that a lookup comes to -/

/-- A sector in which the search does not end. -/
def SectorPasses (io : Device D) (vol : Volume) (d : D) (name : List UInt8) (sector : Nat) : Prop :=
  ∃ data, readSector io vol d sector = .ok data ∧
    lookupSlots name data (vol.bytesPerSector / dirEntrySize) 0 = none

/-- The search does not end in `cluster`, and `next` is the cluster after it. -/
structure ClusterPasses (io : Device D) (vol : Volume) (d : D) (name : List UInt8)
    (cluster next : Nat) : Prop where
  nonzero : cluster ≠ 0
  inside : vol.isEndOfChain cluster = false
  link : getNextCluster io vol d cluster = .ok next
  sectors : ∀ i < vol.sectorsPerCluster,
    SectorPasses io vol d name (wrap32 (vol.clusterToSector cluster + i))

/-- The search for a name comes to number `index` of the chain from `start` on. -/
inductive Reaches (io : Device D) (vol : Volume) (d : D) (name : List UInt8) (start : Nat) :
    Nat → Nat → Prop
  | first : Reaches io vol d name start 0 start
  | next {index cluster next : Nat} : Reaches io vol d name start index cluster →
      ClusterPasses io vol d name cluster next → Reaches io vol d name start (index + 1) next

variable {name : List UInt8} {dir : Node}

theorem lookupSectors_succ (fuel : Nat) (w : DirWalk) :
    lookupSectors io vol d name dir (fuel + 1) w = match readDirSector io vol d dir w with
      | .error e => some (.error e)
      | .ok none => some (.error .notFound)
      | .ok (some (data, w)) =>
        match lookupSlots name data (vol.bytesPerSector / dirEntrySize) 0 with
        | some found => some found
        | none => lookupSectors io vol d name dir fuel w := rfl

theorem lookupSectors_mono {fuel : Nat} {w : DirWalk} {r : Except KernelError VfsNode}
    (h : lookupSectors io vol d name dir fuel w = some r) :
    lookupSectors io vol d name dir (fuel + 1) w = some r := by
  induction fuel generalizing w with
  | zero => cases h
  | succ fuel ih =>
    rw [lookupSectors_succ] at h ⊢
    rcases hread : readDirSector io vol d dir w with e | _ | ⟨data, next⟩
    · rwa [hread] at h
    · rwa [hread] at h
    rw [hread] at h
    dsimp only at h ⊢
    rcases hslots : lookupSlots name data (vol.bytesPerSector / dirEntrySize) 0 with _ | found
    · rw [hslots] at h
      exact ih h
    · rwa [hslots] at h

theorem lookupSectors_none {fuel more : Nat} {w : DirWalk}
    (h : lookupSectors io vol d name dir (fuel + more) w = none) :
    lookupSectors io vol d name dir fuel w = none := by
  induction more with
  | zero => exact h
  | succ more ih =>
    apply ih
    rcases hr : lookupSectors io vol d name dir (fuel + more) w with _ | r
    · rfl
    · rw [← add_assoc, lookupSectors_mono hr] at h
      cases h

section Chain
variable (hroot : dir.isFixedRoot = false)
include hroot

variable {cluster i left start : Nat}

theorem lookupSectors_passes {fuel : Nat} {next : DirWalk}
    (hcluster : cluster ≠ 0) (hend : vol.isEndOfChain cluster = false)
    (hadvance : DirWalk.advance io vol d ⟨cluster, i, 0⟩ = .ok next)
    (hsector : SectorPasses io vol d name (wrap32 (vol.clusterToSector cluster + i))) :
    lookupSectors io vol d name dir (fuel + 1) ⟨cluster, i, 0⟩ =
      lookupSectors io vol d name dir fuel next := by
  obtain ⟨data, hread, hslots⟩ := hsector
  have hno : ¬(cluster = 0 ∨ vol.isEndOfChain cluster = true) := by
    rw [not_or]
    exact ⟨hcluster, by simp [hend]⟩
  rw [lookupSectors_succ]
  unfold readDirSector
  rw [if_neg (by simp [hroot]), if_neg hno, hadvance]
  simp only [hread, Except.map, hslots]

theorem lookupSectors_stops (hstop : cluster = 0 ∨ vol.isEndOfChain cluster = true ∨
      (∀ next, DirWalk.advance io vol d ⟨cluster, i, 0⟩ ≠ .ok next) ∨
      ¬SectorPasses io vol d name (wrap32 (vol.clusterToSector cluster + i))) :
    lookupSectors io vol d name dir 1 ⟨cluster, i, 0⟩ ≠ none := by
  rw [lookupSectors_succ]
  unfold readDirSector
  rw [if_neg (by simp [hroot])]
  by_cases hno : cluster = 0 ∨ vol.isEndOfChain cluster = true
  · simp [hno]
  rw [if_neg hno]
  rw [not_or] at hno
  rcases hadvance : DirWalk.advance io vol d ⟨cluster, i, 0⟩ with e | next
  · simp
  rcases hread : readSector io vol d (wrap32 (vol.clusterToSector cluster + i)) with e | data
  · simp [Except.map]
  simp only [Except.map]
  rcases hslots : lookupSlots name data (vol.bytesPerSector / dirEntrySize) 0 with _ | found
  · rcases hstop with hzero | hend | hlink | hsector
    · exact absurd hzero hno.1
    · exact absurd hend hno.2
    · exact absurd hadvance (hlink next)
    · exact absurd ⟨data, hread, hslots⟩ hsector
  · simp

theorem lookupSectors_goes {successor : Nat} (hcluster : cluster ≠ 0)
    (hend : vol.isEndOfChain cluster = false)
    (hlink : getNextCluster io vol d cluster = .ok successor)
    (hsplit : i + (left + 1) = vol.sectorsPerCluster)
    (hsectors : ∀ j, i ≤ j → j < vol.sectorsPerCluster →
      SectorPasses io vol d name (wrap32 (vol.clusterToSector cluster + j))) (fuel : Nat) :
    lookupSectors io vol d name dir (left + 1 + fuel) ⟨cluster, i, 0⟩ =
      lookupSectors io vol d name dir fuel ⟨successor, 0, 0⟩ := by
  induction left generalizing i with
  | zero =>
    have hadvance : DirWalk.advance io vol d ⟨cluster, i, 0⟩ = .ok ⟨successor, 0, 0⟩ := by
      unfold DirWalk.advance
      rw [if_pos (by dsimp only; omega), hlink]
      rfl
    rw [add_comm]
    exact lookupSectors_passes hroot hcluster hend hadvance (hsectors i le_rfl (by omega))
  | succ left ih =>
    have hadvance : DirWalk.advance io vol d ⟨cluster, i, 0⟩ = .ok ⟨cluster, i + 1, 0⟩ := by
      unfold DirWalk.advance
      rw [if_neg (by dsimp only; omega)]
    rw [add_right_comm, lookupSectors_passes hroot hcluster hend hadvance
      (hsectors i le_rfl (by omega))]
    exact ih (by omega) fun j hij hj => hsectors j (by omega) hj

theorem lookupSectors_first
    (hnone : lookupSectors io vol d name dir (left + 1) ⟨cluster, i, 0⟩ = none) :
    (cluster ≠ 0 ∧ vol.isEndOfChain cluster = false) ∧
      (∃ next, DirWalk.advance io vol d ⟨cluster, i, 0⟩ = .ok next ∧
        lookupSectors io vol d name dir left next = none) ∧
      SectorPasses io vol d name (wrap32 (vol.clusterToSector cluster + i)) := by
  have hgoes : ¬(cluster = 0 ∨ vol.isEndOfChain cluster = true ∨
      (∀ next, DirWalk.advance io vol d ⟨cluster, i, 0⟩ ≠ .ok next) ∨
      ¬SectorPasses io vol d name (wrap32 (vol.clusterToSector cluster + i))) := by
    intro hstop
    have hone := hnone
    rw [add_comm] at hone
    exact lookupSectors_stops hroot hstop (lookupSectors_none hone)
  simp only [not_or, not_forall, not_not, Bool.not_eq_true] at hgoes
  obtain ⟨hcluster, hend, ⟨next, hadvance⟩, hsector⟩ := hgoes
  rw [lookupSectors_passes hroot hcluster hend hadvance hsector] at hnone
  exact ⟨⟨hcluster, hend⟩, ⟨next, hadvance, hnone⟩, hsector⟩

theorem lookupSectors_passed (hsplit : i + (left + 1) = vol.sectorsPerCluster)
    (hnone : lookupSectors io vol d name dir (left + 1) ⟨cluster, i, 0⟩ = none) :
    (cluster ≠ 0 ∧ vol.isEndOfChain cluster = false) ∧
      (∃ next, getNextCluster io vol d cluster = .ok next) ∧
      ∀ j, i ≤ j → j < vol.sectorsPerCluster →
        SectorPasses io vol d name (wrap32 (vol.clusterToSector cluster + j)) := by
  induction left generalizing i with
  | zero =>
    -- The last sector of the cluster.
    obtain ⟨hcluster, ⟨next, hadvance, -⟩, hsector⟩ := lookupSectors_first hroot hnone
    unfold DirWalk.advance at hadvance
    rw [if_pos (by dsimp only; omega)] at hadvance
    refine ⟨hcluster, ?_, fun j hij hj => ?_⟩
    · rcases hlink : getNextCluster io vol d cluster with e | successor
      · rw [hlink] at hadvance
        cases hadvance
      · exact ⟨successor, rfl⟩
    · obtain rfl : j = i := by omega
      exact hsector
  | succ left ih =>
    obtain ⟨hcluster, ⟨next, hadvance, hrest⟩, hsector⟩ := lookupSectors_first hroot hnone
    unfold DirWalk.advance at hadvance
    rw [if_neg (by dsimp only; omega)] at hadvance
    cases hadvance
    have hnext : i + 1 + (left + 1) = vol.sectorsPerCluster := by omega
    obtain ⟨-, hlink, hall⟩ := ih hnext hrest
    refine ⟨hcluster, hlink, fun j hij hj => ?_⟩
    rcases eq_or_lt_of_le hij with rfl | hlt
    · exact hsector
    · exact hall j hlt hj

variable (hper : 0 < vol.sectorsPerCluster)
include hper

theorem ClusterPasses.step {next : Nat} (h : ClusterPasses io vol d name cluster next)
    (fuel : Nat) : lookupSectors io vol d name dir (vol.sectorsPerCluster + fuel) ⟨cluster, 0, 0⟩ =
      lookupSectors io vol d name dir fuel ⟨next, 0, 0⟩ := by
  obtain ⟨left, hleft⟩ := Nat.exists_eq_add_of_lt hper
  rw [hleft]
  exact lookupSectors_goes hroot h.nonzero h.inside h.link (by omega)
    (fun j _ hj => h.sectors j hj) fuel

theorem clusterPasses_of_none
    (hnone : lookupSectors io vol d name dir vol.sectorsPerCluster ⟨cluster, 0, 0⟩ = none) :
    ∃ next, ClusterPasses io vol d name cluster next := by
  obtain ⟨left, hleft⟩ := Nat.exists_eq_add_of_lt hper
  rw [hleft] at hnone
  obtain ⟨⟨hcluster, hend⟩, ⟨next, hlink⟩, hsectors⟩ :=
    lookupSectors_passed hroot (by omega) hnone
  exact ⟨next, hcluster, hend, hlink, fun j hj => hsectors j (Nat.zero_le j) hj⟩

theorem Reaches.run {index : Nat} (h : Reaches io vol d name start index cluster) (fuel : Nat) :
    lookupSectors io vol d name dir (index * vol.sectorsPerCluster + fuel) ⟨start, 0, 0⟩ =
      lookupSectors io vol d name dir fuel ⟨cluster, 0, 0⟩ := by
  induction h generalizing fuel with
  | first => rw [zero_mul, zero_add]
  | next _ hpass ih =>
    rw [Nat.succ_mul, add_assoc, ih, hpass.step hroot hper]

theorem lookupSectors_circles {j : Nat} (hij : i < j)
    (hi : Reaches io vol d name start i cluster) (hj : Reaches io vol d name start j cluster)
    (fuel : Nat) : lookupSectors io vol d name dir fuel ⟨start, 0, 0⟩ = none := by
  have hround : ∀ fuel, lookupSectors io vol d name dir
      ((j - i) * vol.sectorsPerCluster + fuel) ⟨cluster, 0, 0⟩ =
        lookupSectors io vol d name dir fuel ⟨cluster, 0, 0⟩ := by
    intro fuel
    rw [← hi.run hroot hper, ← hj.run hroot hper fuel, ← add_assoc, ← add_mul,
      Nat.add_sub_cancel' hij.le]
  have hpositive : 0 < (j - i) * vol.sectorsPerCluster := mul_pos (by omega) hper
  generalize (j - i) * vol.sectorsPerCluster = round at hround hpositive
  -- On the way round no fuel is enough.
  have hnever : ∀ fuel, lookupSectors io vol d name dir fuel ⟨cluster, 0, 0⟩ = none := by
    intro fuel
    induction fuel using Nat.strongRecOn with
    | ind fuel ih =>
      by_cases hlt : fuel < round
      · have hwhole : lookupSectors io vol d name dir (fuel + (round - fuel)) ⟨cluster, 0, 0⟩ =
            none := by
          rw [Nat.add_sub_cancel' hlt.le]
          exact (hround 0).trans rfl
        exact lookupSectors_none hwhole
      · obtain ⟨rest, rfl⟩ := Nat.exists_eq_add_of_le (not_lt.mp hlt)
        rw [hround]
        exact ih rest (by omega)
  have hstart := hi.run hroot hper fuel
  rw [hnever, add_comm] at hstart
  exact lookupSectors_none hstart

theorem reaches_of_none
    (hnever : ∀ fuel, lookupSectors io vol d name dir fuel ⟨start, 0, 0⟩ = none) (index : Nat) :
    ∃ cluster, Reaches io vol d name start index cluster := by
  induction index with
  | zero => exact ⟨start, .first⟩
  | succ index ih =>
    obtain ⟨cluster, hreach⟩ := ih
    have hnone := hreach.run hroot hper vol.sectorsPerCluster
    rw [hnever] at hnone
    obtain ⟨next, hpass⟩ := clusterPasses_of_none hroot hper hnone.symm
    exact ⟨next, hreach.next hpass⟩

end Chain

/-! ## When a lookup ends -/

theorem lookupSectors_fixedRoot (hroot : dir.isFixedRoot = true) {fuel : Nat} {w : DirWalk}
    (hfuel : vol.rootDirSectors ≤ w.fixedSectorIndex + fuel) :
    lookupSectors io vol d name dir (fuel + 1) w ≠ none := by
  induction fuel generalizing w with
  | zero =>
    rw [lookupSectors_succ]
    unfold readDirSector
    rw [if_pos hroot, if_pos (by omega)]
    simp
  | succ fuel ih =>
    rw [lookupSectors_succ]
    unfold readDirSector
    rw [if_pos hroot]
    by_cases hend : vol.rootDirSectors ≤ w.fixedSectorIndex
    · simp [hend]
    rw [if_neg hend]
    rcases readSector io vol d (wrap32 (vol.rootDirSector + w.fixedSectorIndex)) with e | data
    · simp [Except.map]
    simp only [Except.map]
    rcases lookupSlots name data (vol.bytesPerSector / dirEntrySize) 0 with _ | found
    · exact ih (by dsimp only; omega)
    · simp

theorem entryValue_lt {cluster raw : Nat} (h : raw < 256 ^ vol.entryWidth) :
    vol.entryValue cluster raw < 2 ^ 28 := by
  unfold Volume.entryWidth at h
  unfold Volume.entryValue
  cases htype : vol.type with
  | fat12 =>
    rw [htype] at h
    dsimp only at h ⊢
    split_ifs <;> omega
  | fat16 =>
    rw [htype] at h
    dsimp only at h ⊢
    omega
  | fat32 => exact Nat.mod_lt _ (by decide)
  | exFat => exact Nat.mod_lt _ (by decide)

theorem getNextCluster_lt {cluster next : Nat} (h : getNextCluster io vol d cluster = .ok next) :
    next < 2 ^ 28 := by
  unfold getNextCluster at h
  dsimp only at h
  split at h
  · cases h
  · split at h
    · cases h
    · cases h
      exact entryValue_lt (field_lt ..)

theorem Reaches.lt {start index cluster : Nat}
    (h : Reaches io vol d name start (index + 1) cluster) : cluster < 2 ^ 28 := by
  cases h with
  | next _ hpass => exact getNextCluster_lt hpass.link

theorem lookupSectors_ends_iff (hroot : dir.isFixedRoot = false) (hper : 0 < vol.sectorsPerCluster)
    (start : Nat) : (∃ fuel, lookupSectors io vol d name dir fuel ⟨start, 0, 0⟩ ≠ none) ↔
      ∀ i j cluster, i < j → Reaches io vol d name start i cluster →
        ¬Reaches io vol d name start j cluster := by
  constructor
  · rintro ⟨fuel, hfuel⟩ i j cluster hij hi hj
    exact hfuel (lookupSectors_circles hroot hper hij hi hj fuel)
  · intro honce
    by_contra hnever
    push Not at hnever
    choose cluster hreach using reaches_of_none hroot hper hnever
    -- Infinitely many numbers and finitely many clusters.
    obtain ⟨i, j, hne, hsame⟩ := Finite.exists_ne_map_eq_of_infinite
      fun index : Nat => (⟨cluster (index + 1), (hreach (index + 1)).lt⟩ : Fin (2 ^ 28))
    have heq : cluster (i + 1) = cluster (j + 1) := Fin.mk.inj hsame
    rcases lt_or_gt_of_ne hne with hlt | hgt
    · exact honce _ _ _ (Nat.succ_lt_succ hlt) (hreach (i + 1)) (heq ▸ hreach (j + 1))
    · exact honce _ _ _ (Nat.succ_lt_succ hgt) (hreach (j + 1)) (heq ▸ hreach (i + 1))

/-- For every volume that `FAT_ParseVbr` accepts and every device: `FAT_FindEntry` always returns,
and `FAT_Lookup` does unless it is led in a circle. -/
theorem searches_end_iff (io : Device D) (d : D) {sector : List UInt8} {parsed : Volume}
    {serial : Option Nat} (hparse : parseVbr sector = .ok (parsed, serial))
    (htype : parsed.type ≠ .exFat) {vol : Volume} (hvol : vol.fixedFields = parsed.fixedFields)
    (parent : VfsNode) (name : List UInt8) (search : Search) :
    ((∃ fuel, lookup io vol d fuel parent name ≠ none) ∧
        ∃ fuel, findEntryWithin io vol d fuel parent search ≠ none) ↔
      (parent.type = .directory → parent.fat.isFixedRoot = false →
        ∀ shortName, toShortName name = .ok shortName → ∀ i j cluster, i < j →
          Reaches io vol d shortName parent.fat.startCluster i cluster →
            ¬Reaches io vol d shortName parent.fat.startCluster j cluster) := by
  have hlaid := (parseVbr_laid hparse htype).of_fixedFields hvol
  have hfind : ∃ fuel, findEntryWithin io vol d fuel parent search ≠ none :=
    ⟨_, by rw [findEntryWithin_eq hlaid]; exact Option.some_ne_none _⟩
  constructor
  · rintro ⟨⟨fuel, hfuel⟩, -⟩ hdirectory hroot shortName hshort
    refine (lookupSectors_ends_iff hroot hlaid.perCluster.1 _).mp ⟨fuel, ?_⟩
    unfold lookup at hfuel
    rwa [if_neg (not_not.mpr hdirectory), hshort] at hfuel
  · intro h
    refine ⟨?_, hfind⟩
    by_cases hdirectory : parent.type = .directory
    case neg => exact ⟨0, by unfold lookup; rw [if_pos hdirectory]; exact Option.some_ne_none _⟩
    rcases hshort : toShortName name with e | shortName
    · refine ⟨0, ?_⟩
      unfold lookup
      rw [if_neg (not_not.mpr hdirectory), hshort]
      exact Option.some_ne_none _
    have hends : ∃ fuel, lookupSectors io vol d shortName parent.fat fuel
        ⟨parent.fat.startCluster, 0, 0⟩ ≠ none := by
      cases hroot : parent.fat.isFixedRoot with
      | true => exact ⟨vol.rootDirSectors + 1, lookupSectors_fixedRoot hroot (by dsimp only; omega)⟩
      | false =>
        exact (lookupSectors_ends_iff hroot hlaid.perCluster.1 _).mpr
          (h hdirectory hroot shortName hshort)
    obtain ⟨fuel, hfuel⟩ := hends
    refine ⟨fuel, ?_⟩
    unfold lookup
    rwa [if_neg (not_not.mpr hdirectory), hshort]

end

/-- A subdirectory in cluster 2. -/
def subdirectory : VfsNode := { type := .directory, fat := { startCluster := 2 } }

/-- A device where cluster 2 holds 16 entries of files `AAAAAAAAAAA`. -/
def filledDisk : ByteStore := fun i =>
  if 1536 ≤ i ∧ i < 2048 then if i % 32 < 11 then 0x41 else 0 else smallDisk i

/-- Cluster 3 follows cluster 2 and is the last one. -/
def chainedDisk : ByteStore := writeAt filledDisk 512 [0, 0, 0, 0x03, 0xF0, 0xFF]

/-- The search for `B` goes on to cluster 3 and ends there; the walk over the entries ends, too. -/
theorem searches_end_iff_small :
    parseVbr (readAt chainedDisk 0 512) = .ok (smallVolume, none) ∧
      lookup memoryDevice smallVolume chainedDisk 2 subdirectory [0x42] = some (.error .notFound) ∧
      (findEntryWithin memoryDevice smallVolume chainedDisk 40 subdirectory
        (.enumerate 15)).isSome = true ∧
      Reaches memoryDevice smallVolume chainedDisk (0x42 :: List.replicate 10 0x20) 2 1 3 ∧
      ∀ i j cluster, i < j →
        Reaches memoryDevice smallVolume chainedDisk (0x42 :: List.replicate 10 0x20) 2 i cluster →
          ¬Reaches memoryDevice smallVolume chainedDisk (0x42 :: List.replicate 10 0x20) 2 j
            cluster := by
  have hlookup : lookup memoryDevice smallVolume chainedDisk 2 subdirectory [0x42] =
      some (.error .notFound) := by
    decide +kernel
  have hfind : (findEntryWithin memoryDevice smallVolume chainedDisk 40 subdirectory
      (.enumerate 15)).isSome = true := by
    decide +kernel
  have hpass : ClusterPasses memoryDevice smallVolume chainedDisk
      (0x42 :: List.replicate 10 0x20) 2 3 := by
    refine ⟨by decide, by decide, by decide +kernel, fun i hi => ?_⟩
    obtain rfl : i = 0 := Nat.lt_one_iff.mp hi
    exact ⟨readAt chainedDisk 1536 512, by decide +kernel, by decide +kernel⟩
  have hparse : parseVbr (readAt chainedDisk 0 512) = .ok (smallVolume, none) := by decide +kernel
  have hends := (searches_end_iff memoryDevice chainedDisk hparse (by decide) rfl subdirectory
    [0x42] (.enumerate 15)).mp ⟨⟨2, by rw [hlookup]; exact Option.some_ne_none _⟩,
      ⟨40, Option.isSome_iff_ne_none.mp hfind⟩⟩
  exact ⟨hparse, hlookup, hfind, .next .first hpass, hends rfl rfl _ (by decide)⟩

/-- Cluster 2 follows itself. -/
def circularDisk : ByteStore := writeAt filledDisk 512 [0, 0, 0, 0x02, 0x00]

/-- The search for `B` goes round for ever. -/
theorem lookup_circles : parseVbr (readAt circularDisk 0 512) = .ok (smallVolume, none) ∧
      ∀ fuel, lookup memoryDevice smallVolume circularDisk fuel subdirectory [0x42] = none := by
  refine ⟨by decide +kernel, fun fuel => ?_⟩
  have hpass : ClusterPasses memoryDevice smallVolume circularDisk
      (0x42 :: List.replicate 10 0x20) 2 2 := by
    refine ⟨by decide, by decide, by decide +kernel, fun i hi => ?_⟩
    obtain rfl : i = 0 := Nat.lt_one_iff.mp hi
    exact ⟨readAt circularDisk 1536 512, by decide +kernel, by decide +kernel⟩
  have hfirst : Reaches memoryDevice smallVolume circularDisk
      (0x42 :: List.replicate 10 0x20) 2 0 2 := .first
  exact lookupSectors_circles rfl (by decide) zero_lt_one hfirst (hfirst.next hpass) fuel

end UnDOS.Fat
