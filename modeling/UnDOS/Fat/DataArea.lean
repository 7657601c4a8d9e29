import UnDOS.Fat.Geometry

/-!
# What a File Reads

`FAT_ReadHandle` asks the device for whole clusters.  `FAT_ValidCluster` guards only the place
that a read remembers: the number of the first cluster comes from the directory entry, the
others from the FAT, and the walk compares them with the end mark alone.
-/

namespace UnDOS.Fat

open UnDOS.Lib
open UnDOS.Kernel (KernelError)

/-! ## The clusters of a call -/

section Fetches
variable {D : Type} (io : Device D) (vol : Volume) (d : D)

/-- The clusters that the reading loop asks the device for. -/
def loopFetches (readSize : Nat) : Nat → Progress → List Nat
  | 0, _ => []
  | fuel + 1, p =>
    if readSize ≤ p.data.length ∨ vol.isEndOfChain p.cluster then []
    else
      (if p.node.cached vol p.index p.cluster then [] else [p.cluster]) ++
        match readRound io vol d readSize p with
        | .next p => loopFetches readSize fuel p
        | _ => []

/-- The clusters that `FAT_ReadHandle` asks the device for. -/
def readFetches (file : VfsNode) (offset length : Nat) : List Nat :=
  let node := file.fat
  if file.type ≠ .file ∨ file.size ≤ offset ∨ length = 0 ∨ node.startCluster = 0 ∨
      vol.clusterBytes = 0 then []
  else
    let readSize := min length (file.size - offset)
    let clusterIndex := offset / vol.clusterBytes
    let current := node.checkpointCurrent vol
    let reusable := current && decide (node.fileChain.clusterIndex ≤ clusterIndex)
    let cluster := if reusable then node.fileChain.cluster else node.startCluster
    let index := if reusable then node.fileChain.clusterIndex else 0
    let node :=
      if current then node else { node with fileChain := { node.fileChain with valid := false } }
    match seekCluster io vol d (clusterIndex - index) cluster with
    | .error _ => []
    | .ok cluster =>
      loopFetches io vol d readSize readSize
        ⟨node, cluster, clusterIndex, offset % vol.clusterBytes, [], cluster, clusterIndex⟩

/-- A file after calls of `FAT_ReadHandle` with these offsets and lengths. -/
def afterReads (file : VfsNode) : List (Nat × Nat) → VfsNode
  | [] => file
  | (offset, length) :: calls =>
    afterReads { file with fat := (readHandle io vol d file offset length).2 } calls

/-- Number `index` of the cluster chain that starts with `start`. -/
inductive OnChain (start : Nat) : Nat → Nat → Prop
  | first : OnChain start 0 start
  | next {index cluster next : Nat} : OnChain start index cluster →
      getNextCluster io vol d cluster = .ok next → vol.isEndOfChain next = false →
      OnChain start (index + 1) next

end Fetches

/-- A sector of a cluster. -/
def Volume.InCluster (vol : Volume) (sector : Nat) : Prop :=
  ∃ c, vol.validCluster c = true ∧ (vol.clusterArea c).1 ≤ sector ∧ sector < (vol.clusterArea c).2

/-- The sectors that are read for the number `cluster` are sectors of clusters. -/
def Volume.LeadsToClusters (vol : Volume) (cluster : Nat) : Prop :=
  ∀ sector, (vol.clusterArea cluster).1 ≤ sector → sector < (vol.clusterArea cluster).2 →
    vol.InCluster sector

section
variable {D : Type} {io : Device D} {vol : Volume} {d : D}

variable {cluster offset readSize : Nat} {p q : Progress}

/-! ## The chain of the file -/

theorem seekCluster_error {i start : Nat} {e : KernelError} (j : Nat)
    (h : seekCluster io vol d i start = .error e) :
    seekCluster io vol d (i + j) start = .error e := by
  induction i generalizing start with
  | zero => cases h
  | succ i ih =>
    rw [add_right_comm, seekCluster_succ]
    rw [seekCluster_succ] at h
    rcases hnext : getNextCluster io vol d start with e' | next
    · rw [hnext] at h
      exact h
    · rw [hnext] at h
      dsimp only at h ⊢
      split_ifs at h ⊢ with hend
      · exact h
      · exact ih h

theorem seekCluster_iff_onChain {start steps : Nat} :
    seekCluster io vol d steps start = .ok cluster ↔ OnChain io vol d start steps cluster := by
  constructor
  · induction steps generalizing cluster with
    | zero =>
      intro h
      cases h
      exact .first
    | succ steps ih =>
      intro h
      rcases hseek : seekCluster io vol d steps start with e | before
      · rw [seekCluster_error 1 hseek] at h
        cases h
      rw [seekCluster_add 1 hseek, seekCluster_succ] at h
      rcases hnext : getNextCluster io vol d before with e | next
      · rw [hnext] at h
        cases h
      rw [hnext] at h
      dsimp only at h
      by_cases hend : vol.isEndOfChain next = true
      · rw [if_pos hend] at h
        cases h
      · rw [if_neg hend] at h
        cases h
        exact .next (ih hseek) hnext (by simpa using hend)
  · intro h
    induction h with
    | first => rfl
    | next _ hnext hend ih => exact seekCluster_next ih hnext hend

/-- Where the loop stands in a file from which `readSize` bytes from `offset` on are read. -/
structure Progress.At (io : Device D) (vol : Volume) (d : D) (offset readSize : Nat)
    (p : Progress) : Prop where
  coherent : p.node.Coherent io vol d
  here : p.HereOn io vol d p.node.startCluster
  last : p.LastOn io vol d p.node.startCluster
  place : p.index * vol.clusterBytes + p.offsetInCluster = offset + p.data.length
  inside : p.offsetInCluster < vol.clusterBytes
  wanted : p.data.length ≤ readSize

theorem giveUp_ne_next {e : KernelError} {node : Node} :
    Round.giveUp p e node ≠ .next q := by
  unfold Round.giveUp
  split <;> exact Round.noConfusion

theorem takeCluster_next
    {fetched : Except KernelError (List UInt8)} {node : Node}
    (hinside : p.offsetInCluster < vol.clusterBytes) (hwanted : p.data.length ≤ readSize)
    (h : takeCluster io vol d readSize p fetched node = .next q) :
    q.index = p.index + 1 ∧ q.offsetInCluster = 0 ∧
      q.data.length = p.data.length + (vol.clusterBytes - p.offsetInCluster) ∧
      q.data.length ≤ readSize := by
  unfold takeCluster at h
  rcases fetched with e | bytes
  · exact absurd h giveUp_ne_next
  dsimp only at h
  by_cases hshort : bytes.length ≤ p.offsetInCluster
  · rw [if_pos hshort] at h
    exact absurd h giveUp_ne_next
  rw [if_neg hshort] at h
  generalize hchunk : min (min (vol.clusterBytes - p.offsetInCluster) (readSize - p.data.length))
    (bytes.length - p.offsetInCluster) = chunk at h
  have htake : (p.take node bytes chunk).data = p.data ++
      (bytes.drop p.offsetInCluster).take chunk ∧
      (p.take node bytes chunk).index = p.index ∧
      (p.take node bytes chunk).cluster = p.cluster := by
    unfold Progress.take
    split <;> exact ⟨rfl, rfl, rfl⟩
  have hlength : (p.take node bytes chunk).data.length = p.data.length + chunk := by
    rw [htake.1, List.length_append, List.length_take, List.length_drop]
    omega
  by_cases hfull : bytes.length < vol.clusterBytes
  · rw [if_pos hfull] at h
    cases h
  rw [if_neg hfull, htake.2.1, htake.2.2] at h
  by_cases hdone : (p.take node bytes chunk).data.length = readSize
  · rw [if_pos hdone] at h
    cases h
  rw [if_neg hdone] at h
  rcases hnext : getNextCluster io vol d p.cluster with e | next
  · rw [hnext] at h
    exact absurd h giveUp_ne_next
  rw [hnext] at h
  dsimp only at h
  split at h
  · cases h
  · cases h
    dsimp only
    exact ⟨rfl, rfl, by omega, by omega⟩

theorem Progress.At.next
    (h : p.At io vol d offset readSize) (hround : readRound io vol d readSize p = .next q) :
    q.At io vol d offset readSize ∧ q.node.startCluster = p.node.startCluster := by
  obtain ⟨node, hnode, hplace, hplain⟩ := readRound_plain readSize h.coherent
  have hstart : node.startCluster = p.node.startCluster := congrArg Place.startCluster hplace
  have hon : (plainReadRound io vol d readSize p).On io vol d p.node.startCluster := by
    unfold plainReadRound
    split
    · exact h.last
    · exact takeCluster_on readSize h.last h.here _ _
  have hnext : ∃ fetched node, takeCluster io vol d readSize p fetched node = .next q := by
    unfold readRound at hround
    split at hround
    · cases hround
    · exact ⟨_, _, hround⟩
  obtain ⟨fetched, node', htaken⟩ := hnext
  obtain ⟨hindex, hoffset, hlength, hwanted⟩ := takeCluster_next h.inside h.wanted htaken
  rw [hround] at hplain
  rcases hplainRound : plainReadRound io vol d readSize p with _ | _ | r
  · rw [hplainRound] at hplain
    cases hplain
  · rw [hplainRound] at hplain
    cases hplain
  rw [hplainRound] at hplain hon
  obtain rfl : q = { r with node := node } := Round.next.inj hplain
  refine ⟨⟨hnode, hstart ▸ hon.2, hstart ▸ hon.1, ?_, ?_, hwanted⟩, hstart⟩
  · rw [hindex, hoffset, hlength, Nat.succ_mul]
    have hinside := h.inside
    have hplace := h.place
    omega
  · rw [hoffset]
    exact (Nat.zero_le _).trans_lt h.inside

theorem loopFetches_onChain {fuel : Nat}
    (h : p.At io vol d offset readSize)
    (hcluster : cluster ∈ loopFetches io vol d readSize fuel p) :
    ∃ index, OnChain io vol d p.node.startCluster index cluster ∧
      index * vol.clusterBytes < offset + readSize ∧ vol.isEndOfChain cluster = false := by
  induction fuel generalizing p with
  | zero => cases hcluster
  | succ fuel ih =>
    unfold loopFetches at hcluster
    by_cases hstop : readSize ≤ p.data.length ∨ vol.isEndOfChain p.cluster = true
    · rw [if_pos hstop] at hcluster
      cases hcluster
    rw [if_neg hstop] at hcluster
    rw [not_or] at hstop
    rcases List.mem_append.mp hcluster with hhere | hlater
    · obtain rfl : cluster = p.cluster := by
        split at hhere
        · cases hhere
        · exact List.mem_singleton.mp hhere
      refine ⟨p.index, seekCluster_iff_onChain.mp h.here, ?_, by simpa using hstop.2⟩
      have hplace := h.place
      omega
    · rcases hround : readRound io vol d readSize p with _ | _ | q
      · rw [hround] at hlater
        cases hlater
      · rw [hround] at hlater
        cases hlater
      rw [hround] at hlater
      obtain ⟨hnext, hstart⟩ := h.next hround
      rw [← hstart]
      exact ih hnext hlater

/-! ## The calls -/

theorem afterReads_spec {file : VfsNode} (h : file.fat.Coherent io vol d)
    (calls : List (Nat × Nat)) :
    (afterReads io vol d file calls).fat.Coherent io vol d ∧
      (afterReads io vol d file calls).fat.startCluster = file.fat.startCluster ∧
      (afterReads io vol d file calls).type = file.type ∧
      (afterReads io vol d file calls).size = file.size := by
  induction calls generalizing file with
  | nil => exact ⟨h, rfl, rfl, rfl⟩
  | cons call calls ih =>
    obtain ⟨offset, length⟩ := call
    obtain ⟨-, hcoherent, hplace⟩ := readHandle_spec h offset length
    have hfile : ({ file with fat := (readHandle io vol d file offset length).2 } :
        VfsNode).fat.Coherent io vol d := hcoherent
    obtain ⟨hafter, hstart, htype, hsize⟩ := ih hfile
    exact ⟨hafter, hstart.trans (congrArg Place.startCluster hplace), htype, hsize⟩

/-- Every cluster that a read fetches is on the chain of the file and before its end. -/
theorem readFetches_onChain {file : VfsNode} (h : file.fat.Coherent io vol d) {length c : Nat}
    (hc : c ∈ readFetches io vol d file offset length) :
    file.type = .file ∧ file.fat.startCluster ≠ 0 ∧ ∃ index,
      OnChain io vol d file.fat.startCluster index c ∧ vol.isEndOfChain c = false ∧
        index * vol.clusterBytes < file.size := by
  unfold readFetches at hc
  dsimp only at hc
  by_cases hnone : file.type ≠ .file ∨ file.size ≤ offset ∨ length = 0 ∨
      file.fat.startCluster = 0 ∨ vol.clusterBytes = 0
  · rw [if_pos hnone] at hc
    cases hc
  rw [if_neg hnone, seekCluster_reuse h] at hc
  simp only [not_or] at hnone
  obtain ⟨htype, hoffset, -, hstart, hbytes⟩ := hnone
  refine ⟨not_not.mp htype, hstart, ?_⟩
  rcases hseek : seekCluster io vol d (offset / vol.clusterBytes) file.fat.startCluster with
    e | cluster
  · rw [hseek] at hc
    cases hc
  rw [hseek] at hc
  generalize hnode : (if file.fat.checkpointCurrent vol = true then file.fat
    else { file.fat with fileChain := { file.fat.fileChain with valid := false } }) = node at hc
  have hcoherent : node.Coherent io vol d ∧ node.startCluster = file.fat.startCluster := by
    rw [← hnode]
    split
    · exact ⟨h, rfl⟩
    · exact ⟨{ h with
        recent := { h.recent with position := h.recent.position }
        position := fun _ hvalid => by cases hvalid }, rfl⟩
  have hat : Progress.At io vol d offset (min length (file.size - offset))
      ⟨node, cluster, offset / vol.clusterBytes, offset % vol.clusterBytes, [], cluster,
        offset / vol.clusterBytes⟩ := by
    refine ⟨hcoherent.1, ?_, ?_, ?_, Nat.mod_lt _ (pos_of_ne_zero hbytes), Nat.zero_le _⟩
    · exact hcoherent.2 ▸ hseek
    · exact hcoherent.2 ▸ hseek
    · rw [mul_comm]
      exact Nat.div_add_mod ..
  obtain ⟨index, hchain, hlt, hend⟩ := loopFetches_onChain hat hc
  exact ⟨index, hcoherent.2 ▸ hchain, hend, by omega⟩

theorem mem_readFetches {file : VfsNode} (hfresh : file.fat = file.fat.fresh)
    (htype : file.type = .file) (hstart : file.fat.startCluster ≠ 0) (hbytes : vol.clusterBytes ≠ 0)
    {index c : Nat} (hchain : OnChain io vol d file.fat.startCluster index c)
    (hend : vol.isEndOfChain c = false) (hsize : index * vol.clusterBytes < file.size) :
    c ∈ readFetches io vol d file (index * vol.clusterBytes) 1 := by
  have hcoherent : file.fat.Coherent io vol d := hfresh ▸ Node.Coherent.fresh file.fat
  have hindex : index * vol.clusterBytes / vol.clusterBytes = index :=
    Nat.mul_div_cancel _ (pos_of_ne_zero hbytes)
  have hone : min 1 (file.size - index * vol.clusterBytes) = 1 := by omega
  have hnone : ¬(file.type ≠ .file ∨ file.size ≤ index * vol.clusterBytes ∨ 1 = 0 ∨
      file.fat.startCluster = 0 ∨ vol.clusterBytes = 0) := by
    simp only [not_or]
    exact ⟨not_not.mpr htype, by omega, by decide, hstart, hbytes⟩
  unfold readFetches
  dsimp only
  rw [if_neg hnone, seekCluster_reuse hcoherent, hindex, seekCluster_iff_onChain.mpr hchain, hone]
  dsimp only
  unfold loopFetches
  rw [if_neg (by simp [hend])]
  apply List.mem_append_left
  have huncached : (if file.fat.checkpointCurrent vol = true then file.fat
      else { file.fat with fileChain := { file.fat.fileChain with valid := false } }).cached vol
        index c = false := by
    have hinvalid : file.fat.clusterCacheValid = false := by
      rw [hfresh]
      rfl
    unfold Node.cached
    split <;> simp [hinvalid]
  rw [huncached]
  exact List.mem_singleton_self c

/-- What the reads of a file lead to depends on the numbers of its chain within its size, for
every volume that `FAT_ParseVbr` accepts. -/
theorem reads_in_clusters_iff (io : Device D) (d : D) {sector : List UInt8} {parsed : Volume}
    {serial : Option Nat} (hparse : parseVbr sector = .ok (parsed, serial))
    (htype : parsed.type ≠ .exFat) {vol : Volume} (hvol : vol.fixedFields = parsed.fixedFields)
    (e : DirEntry) :
    (∀ calls offset length,
        ∀ c ∈ readFetches io vol d (afterReads io vol d (fillNode e) calls) offset length,
          vol.LeadsToClusters c) ↔
      (e.isDirectory = false → e.cluster ≠ 0 → ∀ index c, OnChain io vol d e.cluster index c →
        vol.isEndOfChain c = false → index * vol.clusterBytes < e.fileSize →
          vol.LeadsToClusters c) := by
  have hlaid := (parseVbr_laid hparse htype).of_fixedFields hvol
  have hbytes : vol.clusterBytes ≠ 0 := by
    have hsector := hlaid.bytes
    have hcluster := hlaid.perCluster
    exact mul_ne_zero (by omega) (by omega)
  constructor
  · intro h hfile hstart index c hchain hend hsize
    have hnode : (fillNode e).type = .file := by
      unfold fillNode
      rw [hfile]
      rfl
    have hfileSize : (fillNode e).size = e.fileSize := by
      unfold fillNode
      rw [hfile]
      rfl
    exact h [] _ _ c (mem_readFetches rfl hnode hstart hbytes hchain hend (hfileSize ▸ hsize))
  · intro h calls offset length c hc
    have hfresh : (fillNode e).fat.Coherent io vol d := Node.Coherent.fresh (fillNode e).fat
    obtain ⟨hcoherent, hsame, hnodeType, hsize⟩ := afterReads_spec hfresh calls
    obtain ⟨hfileType, hstart, index, hchain, hend, hinside⟩ := readFetches_onChain hcoherent hc
    have hfile : e.isDirectory = false := by
      rw [hnodeType] at hfileType
      unfold fillNode at hfileType
      cases hdir : e.isDirectory with
      | false => rfl
      | true =>
        rw [hdir] at hfileType
        cases hfileType
    have hfileSize : (fillNode e).size = e.fileSize := by
      unfold fillNode
      rw [hfile]
      rfl
    rw [hsame] at hstart hchain
    rw [hsize, hfileSize] at hinside
    exact h hfile hstart index c hchain hend hinside

end

theorem leadsToClusters_of_valid {vol : Volume} {c : Nat} (hc : vol.validCluster c = true) :
    vol.LeadsToClusters c :=
  fun _ hle hlt => ⟨c, hc, hle, hlt⟩

theorem reads_in_clusters_iff_small : smallEntry.fileSize = 1 ∧
    ∀ calls offset length, ∀ c ∈ readFetches memoryDevice smallVolume smallDisk
      (afterReads memoryDevice smallVolume smallDisk (fillNode smallEntry) calls) offset length,
      smallVolume.LeadsToClusters c := by
  refine ⟨by decide, ?_⟩
  refine (reads_in_clusters_iff memoryDevice smallDisk smallBootSector_parse (by decide) rfl
    smallEntry).mpr ?_
  intro _ _ index c hchain _ hsize
  have hzero : index = 0 := by
    have hbytes : smallVolume.clusterBytes = 512 := rfl
    have hfileSize : smallEntry.fileSize = 1 := by decide
    rw [hbytes] at hsize
    omega
  subst hzero
  cases hchain
  exact leadsToClusters_of_valid (by decide)

/-- The entry of a file of one byte in cluster 1. -/
def reservedEntry : DirEntry :=
  List.replicate 11 0x41 ++ List.replicate 15 0 ++ [0x01, 0x00, 0x01, 0x00, 0x00, 0x00]

/-- A device whose root directory, in sector 2, starts with an `M`. -/
def rootDisk : ByteStore := writeAt smallDisk 1024 [0x4D]

/-- There is no cluster 1.  The file shows the first byte of the root directory. -/
theorem rootDirectory_returned :
    parseVbr (readAt rootDisk 0 512) = .ok (smallVolume, none) ∧
      (readHandle memoryDevice smallVolume rootDisk (fillNode reservedEntry) 0 1).1 = .ok [0x4D] ∧
      ¬∀ calls offset length, ∀ c ∈ readFetches memoryDevice smallVolume rootDisk
        (afterReads memoryDevice smallVolume rootDisk (fillNode reservedEntry) calls) offset length,
        smallVolume.LeadsToClusters c := by
  refine ⟨by decide +kernel, by decide +kernel, fun h => ?_⟩
  have hfetched : 1 ∈ readFetches memoryDevice smallVolume rootDisk
      (fillNode reservedEntry) 0 1 := by
    decide +kernel
  have harea : smallVolume.clusterArea 1 = (2, 3) := by decide
  obtain ⟨c, hc, hle, -⟩ := h [] 0 1 1 hfetched 2 (by rw [harea]) (by rw [harea]; decide)
  have hsector := ((parseVbr_laid smallBootSector_parse (by decide)).geometry.cluster c hc).2.1
  have hstart : smallVolume.dataStartSector = 3 := rfl
  omega

end UnDOS.Fat
