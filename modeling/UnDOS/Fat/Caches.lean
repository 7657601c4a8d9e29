import UnDOS.Fat.Enumerate
import UnDOS.Fat.Handle

/-!
# The Caches of a Node

A node is coherent when everything its caches hold, as far as the driver would use it, is
what the device holds.  On coherent nodes `FAT_ReadHandle` and `FAT_ReadDirectory` return
what they return on a node that remembers nothing, and leave the node coherent.
-/

namespace UnDOS.Fat

open UnDOS.Lib
open UnDOS.Kernel (KernelError)

/-! ## Coherent nodes -/

/-- The node as it was created: no cache. -/
def Node.fresh (node : Node) : Node :=
  { startCluster := node.startCluster, isFixedRoot := node.isFixedRoot }

def VfsNode.fresh (node : VfsNode) : VfsNode := { node with fat := node.fat.fresh }

/-- No cache is of a generation to come. -/
structure Node.Recent (vol : Volume) (node : Node) : Prop where
  position : node.fileChain.generation ≤ vol.traversalGeneration
  cluster : node.cachedGeneration ≤ vol.traversalGeneration
  chain : node.directoryChain.generation ≤ vol.traversalGeneration
  ordinal : node.directoryOrdinal.generation ≤ vol.traversalGeneration
  eof : node.directoryEofGeneration ≤ vol.traversalGeneration

/-- What the caches of a node hold is true of the device. -/
structure Node.Coherent {D : Type} (io : Device D) (vol : Volume) (d : D) (node : Node) :
    Prop where
  recent : node.Recent vol
  position : vol.traversalReuseDisabled = false → node.fileChain.valid = true →
    node.fileChain.generation = vol.traversalGeneration →
    node.fileChain.startCluster = node.startCluster →
    seekCluster io vol d node.fileChain.clusterIndex node.startCluster =
      .ok node.fileChain.cluster
  cluster : node.clusterCacheValid = true → node.cachedGeneration = vol.traversalGeneration →
    node.cachedStartCluster = node.startCluster →
    io.read d (vol.clusterToSector node.cachedCluster * vol.bytesPerSector) vol.clusterBytes =
      .ok node.clusterData
  chain : node.directoryChain.Right io vol d node.place
  ordinal : vol.traversalReuseDisabled = false → node.directoryOrdinal.valid = true →
    node.directoryOrdinal.generation = vol.traversalGeneration →
    ∀ m, node.directoryOrdinal.ordinal ≤ m →
      plainFrom io vol d (.enumerate m) node.place {} =
        plainFrom io vol d (.enumerate m) node.place
          ⟨node.directoryOrdinal.sector, node.directoryOrdinal.slot,
            node.directoryOrdinal.ordinal, node.directoryOrdinal.pendingLongName⟩
  eof : vol.traversalReuseDisabled = false → node.directoryEofKnown = true →
    node.directoryEofGeneration = vol.traversalGeneration →
    ∀ m, node.directoryEofCount ≤ m →
      plainFrom io vol d (.enumerate m) node.place {} = .ok (.ended node.directoryEofCount)

section
variable {D : Type} {io : Device D} {vol : Volume} {d : D}

theorem Node.Coherent.fresh (node : Node) : node.fresh.Coherent io vol d where
  recent := ⟨Nat.zero_le _, Nat.zero_le _, Nat.zero_le _, Nat.zero_le _, Nat.zero_le _⟩
  position := by
    intro _ hvalid
    cases hvalid
  cluster := by
    intro hvalid
    cases hvalid
  chain := .of_invalid (Nat.zero_le _) rfl
  ordinal := by
    intro _ hvalid
    cases hvalid
  eof := by
    intro _ hknown
    cases hknown

/-! ## The position in the chain -/

theorem seekCluster_succ (steps cluster : Nat) : seekCluster io vol d (steps + 1) cluster =
      match getNextCluster io vol d cluster with
      | .error e => .error e
      | .ok next =>
        if vol.isEndOfChain next then .error .unexpectedEndOfFile
        else seekCluster io vol d steps next := rfl

variable {cluster start : Nat} {node dir : Node} {p : Progress}

theorem seekCluster_add {i next : Nat} (j : Nat) (h : seekCluster io vol d i cluster = .ok next) :
    seekCluster io vol d (i + j) cluster = seekCluster io vol d j next := by
  induction i generalizing cluster with
  | zero =>
    cases h
    rw [zero_add]
  | succ i ih =>
    rw [add_right_comm, seekCluster_succ]
    rw [seekCluster_succ] at h
    rcases hnext : getNextCluster io vol d cluster with e | next'
    · rw [hnext] at h
      cases h
    · rw [hnext] at h
      dsimp only at h ⊢
      by_cases hend : vol.isEndOfChain next' = true
      · rw [if_pos hend] at h
        cases h
      · rw [if_neg hend] at h ⊢
        exact ih h

theorem seekCluster_next {i next : Nat} (h : seekCluster io vol d i start = .ok cluster)
    (hnext : getNextCluster io vol d cluster = .ok next) (hend : vol.isEndOfChain next = false) :
    seekCluster io vol d (i + 1) start = .ok next := by
  rw [seekCluster_add 1 h, seekCluster_succ, hnext]
  dsimp only
  rw [if_neg (by simp [hend])]
  rfl

/-! ## The cached cluster -/

theorem fetchCluster_spec (h : node.Coherent io vol d) (index cluster : Nat) :
    (fetchCluster io vol d node index cluster).1 =
      io.read d (vol.clusterToSector cluster * vol.bytesPerSector) vol.clusterBytes ∧
    (fetchCluster io vol d node index cluster).2.Coherent io vol d ∧
    (fetchCluster io vol d node index cluster).2.place = node.place := by
  unfold fetchCluster
  by_cases hcached : node.cached vol index cluster = true
  · rw [if_pos hcached]
    unfold Node.cached at hcached
    simp only [Bool.and_eq_true, beq_iff_eq] at hcached
    obtain ⟨⟨⟨⟨hvalid, hgen⟩, hstart⟩, -⟩, hcluster⟩ := hcached
    have hdata := h.cluster hvalid hgen hstart
    rw [hcluster] at hdata
    exact ⟨hdata.symm, h, rfl⟩
  rw [if_neg hcached]
  have hinvalid : ({ node with clusterCacheValid := false } : Node).Coherent io vol d :=
    { h with
      recent := { h.recent with position := h.recent.position }
      cluster := fun hvalid => by cases hvalid }
  rcases hread : io.read d (vol.clusterToSector cluster * vol.bytesPerSector) vol.clusterBytes with
    e | data
  · exact ⟨rfl, hinvalid, rfl⟩
  dsimp only
  by_cases hlen : data.length = vol.clusterBytes
  · rw [if_pos hlen]
    refine ⟨rfl, ?_, rfl⟩
    exact { h with
      recent := { h.recent with cluster := le_rfl }
      cluster := fun _ _ _ => hread }
  · rw [if_neg hlen]
    refine ⟨rfl, ?_, rfl⟩
    exact { h with
      recent := { h.recent with position := h.recent.position }
      cluster := fun hvalid => by cases hvalid }

/-! ## Reading a file without caches -/

section
variable (io : Device D) (vol : Volume) (d : D)

/-- A round that reads its cluster from the device. -/
def plainReadRound (readSize : Nat) (p : Progress) : Round :=
  if vol.isEndOfChain p.cluster then .done p
  else
    takeCluster io vol d readSize p
      (io.read d (vol.clusterToSector p.cluster * vol.bytesPerSector) vol.clusterBytes) p.node

def plainReadLoop (readSize : Nat) : Nat → Progress → Round
  | 0, p => .done p
  | fuel + 1, p =>
    if readSize ≤ p.data.length then .done p
    else match plainReadRound io vol d readSize p with
      | .next p => plainReadLoop readSize fuel p
      | r => r

def plainReadFrom (cluster clusterIndex offset readSize : Nat) :
    Except KernelError (List UInt8) :=
  match plainReadLoop io vol d readSize readSize
      ⟨{}, cluster, clusterIndex, offset, [], cluster, clusterIndex⟩ with
  | .failed e _ => .error e
  | .next p | .done p => if p.data = [] then .error .unexpectedEndOfFile else .ok p.data

/-- `FAT_ReadHandle` by the chain of the file alone. -/
def plainRead (file : VfsNode) (offset length : Nat) : Except KernelError (List UInt8) :=
  if file.type ≠ .file then .error .invalidState
  else if file.size ≤ offset ∨ length = 0 then .ok []
  else if file.fat.startCluster = 0 ∨ vol.clusterBytes = 0 then .error .invalidFormat
  else match seekCluster io vol d (offset / vol.clusterBytes) file.fat.startCluster with
    | .error e => .error e
    | .ok cluster =>
      plainReadFrom io vol d cluster (offset / vol.clusterBytes) (offset % vol.clusterBytes)
        (min length (file.size - offset))

end

/-- The same round with another node. -/
def Round.withNode (node : Node) : Round → Round
  | .failed e _ => .failed e node
  | .done p => .done { p with node := node }
  | .next p => .next { p with node := node }

theorem Round.withNode_withNode (node node' : Node) (r : Round) :
    (r.withNode node).withNode node' = r.withNode node' := by
  rcases r with ⟨e, n⟩ | p | p
  · rfl
  · rfl
  · rfl

theorem giveUp_withNode (p : Progress) (e : KernelError) (node node' : Node) :
    Round.giveUp p e node' = (Round.giveUp { p with node := node } e node).withNode node' := by
  unfold Round.giveUp
  by_cases hdata : p.data = []
  · simp only [hdata]
    rfl
  · simp only [hdata]
    rfl

theorem Progress.take_withNode (p : Progress) (bytes : List UInt8) (chunk : Nat)
    (node node' : Node) : p.take node' bytes chunk =
      { ({ p with node := node } : Progress).take node bytes chunk with node := node' } := by
  unfold Progress.take
  by_cases hchunk : chunk = 0
  · simp [hchunk]
  · simp [hchunk]

theorem takeCluster_withNode (readSize : Nat) (p : Progress)
    (fetched : Except KernelError (List UInt8)) (node node' : Node) :
    takeCluster io vol d readSize p fetched node' =
      (takeCluster io vol d readSize { p with node := node } fetched node).withNode node' := by
  unfold takeCluster
  rcases fetched with e | bytes
  · exact giveUp_withNode p e node node'
  by_cases hshort : bytes.length ≤ p.offsetInCluster
  · simp only [hshort]
    exact giveUp_withNode p _ node node'
  simp only [hshort, if_false]
  rw [p.take_withNode bytes _ node node']
  generalize ({ p with node := node } : Progress).take node bytes _ = q
  dsimp only
  split
  · rfl
  · split
    · rfl
    · split
      · exact giveUp_withNode q _ node node'
      · split
        · rfl
        · rfl

theorem plainReadRound_withNode (readSize : Nat) (p : Progress) (node : Node) :
    plainReadRound io vol d readSize { p with node := node } =
      (plainReadRound io vol d readSize p).withNode node := by
  unfold plainReadRound
  split
  · rfl
  · exact takeCluster_withNode readSize { p with node := node } _ p.node node

theorem plainReadLoop_withNode (io : Device D) (vol : Volume) (d : D) (readSize fuel : Nat)
    (p : Progress) (node : Node) :
    plainReadLoop io vol d readSize fuel { p with node := node } =
      (plainReadLoop io vol d readSize fuel p).withNode node := by
  induction fuel generalizing p with
  | zero => rfl
  | succ fuel ih =>
    unfold plainReadLoop
    split
    · rfl
    · rw [plainReadRound_withNode]
      rcases plainReadRound io vol d readSize p with ⟨e, n⟩ | q | q
      · rfl
      · rfl
      · exact ih q

theorem readRound_plain (readSize : Nat) (h : p.node.Coherent io vol d) :
    ∃ node, node.Coherent io vol d ∧ node.place = p.node.place ∧
      readRound io vol d readSize p = (plainReadRound io vol d readSize p).withNode node := by
  unfold readRound plainReadRound
  split
  · exact ⟨p.node, h, rfl, rfl⟩
  · obtain ⟨hfetched, hnode, hplace⟩ := fetchCluster_spec h p.index p.cluster
    refine ⟨_, hnode, hplace, ?_⟩
    rw [← hfetched]
    exact takeCluster_withNode readSize p _ p.node _

theorem readLoop_plain (readSize fuel : Nat) (h : p.node.Coherent io vol d) :
    ∃ node, node.Coherent io vol d ∧ node.place = p.node.place ∧ readLoop io vol d readSize fuel p =
        (plainReadLoop io vol d readSize fuel p).withNode node := by
  induction fuel generalizing p with
  | zero => exact ⟨p.node, h, rfl, rfl⟩
  | succ fuel ih =>
    unfold readLoop plainReadLoop
    by_cases hdone : readSize ≤ p.data.length
    · simp only [hdone]
      exact ⟨p.node, h, rfl, rfl⟩
    simp only [hdone]
    obtain ⟨node, hnode, hplace, hround⟩ := readRound_plain readSize h
    rw [hround]
    rcases plainReadRound io vol d readSize p with ⟨e, n⟩ | q | q
    · exact ⟨node, hnode, hplace, rfl⟩
    · exact ⟨node, hnode, hplace, rfl⟩
    · obtain ⟨node', hnode', hplace', hloop⟩ := @ih { q with node := node } hnode
      refine ⟨node', hnode', hplace'.trans hplace, ?_⟩
      show readLoop io vol d readSize fuel { q with node := node } =
        (plainReadLoop io vol d readSize fuel q).withNode node'
      rw [hloop, plainReadLoop_withNode, Round.withNode_withNode]

/-! ## The position a read leaves -/

/-- The last cluster that was read is on the chain from `start`. -/
def Progress.LastOn (io : Device D) (vol : Volume) (d : D) (start : Nat) (p : Progress) : Prop :=
  seekCluster io vol d p.lastReadIndex start = .ok p.lastReadCluster

/-- So is the cluster to read next. -/
def Progress.HereOn (io : Device D) (vol : Volume) (d : D) (start : Nat) (p : Progress) : Prop :=
  seekCluster io vol d p.index start = .ok p.cluster

def Round.On (io : Device D) (vol : Volume) (d : D) (start : Nat) : Round → Prop
  | .failed _ _ => True
  | .done p => p.LastOn io vol d start
  | .next p => p.LastOn io vol d start ∧ p.HereOn io vol d start

theorem giveUp_on (h : p.LastOn io vol d start) (e : KernelError)
    (node : Node) : (Round.giveUp p e node).On io vol d start := by
  unfold Round.giveUp
  split
  · trivial
  · exact h

theorem Progress.take_lastOn (hlast : p.LastOn io vol d start)
    (hhere : p.HereOn io vol d start) (node : Node) (bytes : List UInt8) (chunk : Nat) :
    (p.take node bytes chunk).LastOn io vol d start := by
  unfold Progress.take
  split
  · exact hhere
  · exact hlast

theorem Progress.take_hereOn (h : p.HereOn io vol d start)
    (node : Node) (bytes : List UInt8) (chunk : Nat) :
    (p.take node bytes chunk).HereOn io vol d start := by
  unfold Progress.take
  split
  · exact h
  · exact h

theorem takeCluster_on (readSize : Nat)
    (hlast : p.LastOn io vol d start) (hhere : p.HereOn io vol d start)
    (fetched : Except KernelError (List UInt8)) (node : Node) :
    (takeCluster io vol d readSize p fetched node).On io vol d start := by
  unfold takeCluster
  rcases fetched with e | bytes
  · exact giveUp_on hlast e node
  dsimp only
  by_cases hshort : bytes.length ≤ p.offsetInCluster
  · rw [if_pos hshort]
    exact giveUp_on hlast _ node
  rw [if_neg hshort]
  have hlast' := Progress.take_lastOn hlast hhere node bytes
    (min (min (vol.clusterBytes - p.offsetInCluster) (readSize - p.data.length))
      (bytes.length - p.offsetInCluster))
  have hhere' := Progress.take_hereOn hhere node bytes
    (min (min (vol.clusterBytes - p.offsetInCluster) (readSize - p.data.length))
      (bytes.length - p.offsetInCluster))
  generalize p.take node bytes _ = q at hlast' hhere' ⊢
  split
  · exact hlast'
  · split
    · exact hlast'
    · rcases hnext : getNextCluster io vol d q.cluster with e | next
      · exact giveUp_on hlast' e node
      · dsimp only
        by_cases hend : vol.isEndOfChain next = true
        · rw [if_pos hend]
          exact hlast'
        · rw [if_neg hend]
          exact ⟨hlast', seekCluster_next hhere' hnext (by simpa using hend)⟩

theorem plainReadLoop_on (readSize fuel : Nat)
    (hlast : p.LastOn io vol d start) (hhere : p.HereOn io vol d start) :
    (plainReadLoop io vol d readSize fuel p).On io vol d start := by
  induction fuel generalizing p with
  | zero => exact hlast
  | succ fuel ih =>
    unfold plainReadLoop
    split
    · exact hlast
    · have hround : (plainReadRound io vol d readSize p).On io vol d start := by
        unfold plainReadRound
        split
        · exact hlast
        · exact takeCluster_on readSize hlast hhere _ _
      rcases hr : plainReadRound io vol d readSize p with ⟨e, n⟩ | q | q
      · trivial
      · rw [hr] at hround
        exact hround
      · rw [hr] at hround
        exact ih hround.1 hround.2

theorem rememberPosition_coherent (h : p.node.Coherent io vol d)
    (hlast : p.LastOn io vol d p.node.startCluster) :
    (rememberPosition vol p).Coherent io vol d ∧ (rememberPosition vol p).place = p.node.place := by
  unfold rememberPosition
  split
  · refine ⟨?_, rfl⟩
    exact { h with
      recent := { h.recent with position := le_rfl }
      position := fun _ _ _ _ => hlast }
  · refine ⟨?_, rfl⟩
    exact { h with
      recent := { h.recent with position := h.recent.position }
      position := fun _ hvalid => by cases hvalid }

/-! ## `FAT_ReadHandle` -/

/-- A read through the caches agrees with the plain one and leaves them coherent. -/
theorem readFrom_spec {clusterIndex : Nat} (offset readSize : Nat) (h : node.Coherent io vol d)
    (hseek : seekCluster io vol d clusterIndex node.startCluster = .ok cluster) :
    (readFrom io vol d node cluster clusterIndex offset readSize).1 =
      plainReadFrom io vol d cluster clusterIndex offset readSize ∧
    (readFrom io vol d node cluster clusterIndex offset readSize).2.Coherent io vol d ∧
    (readFrom io vol d node cluster clusterIndex offset readSize).2.place = node.place := by
  have hsame := plainReadLoop_withNode io vol d readSize readSize
    ⟨{}, cluster, clusterIndex, offset, [], cluster, clusterIndex⟩ node
  have hon := plainReadLoop_on (p := ⟨{}, cluster, clusterIndex, offset, [], cluster, clusterIndex⟩)
    readSize readSize hseek hseek
  obtain ⟨node', hnode', hplace', hloop⟩ :=
    readLoop_plain (p := ⟨node, cluster, clusterIndex, offset, [], cluster, clusterIndex⟩)
      readSize readSize h
  have hstart : node'.startCluster = node.startCluster := congrArg Place.startCluster hplace'
  unfold readFrom plainReadFrom
  dsimp only at hsame hloop ⊢
  rw [hloop, hsame]
  rcases hplain : plainReadLoop io vol d readSize readSize
      ⟨{}, cluster, clusterIndex, offset, [], cluster, clusterIndex⟩ with ⟨e, n⟩ | q | q
  · exact ⟨rfl, hnode', hplace'⟩
  · rw [hplain] at hon
    simp only [Round.withNode]
    by_cases hdata : q.data = []
    · simp only [hdata, if_true]
      exact ⟨trivial, hnode', hplace'⟩
    · simp only [hdata, if_false]
      have hlast : ({ q with node := node' } : Progress).LastOn io vol d node'.startCluster := by
        rw [hstart]
        exact hon
      obtain ⟨hcoherent, hplace⟩ := rememberPosition_coherent hnode' hlast
      exact ⟨trivial, hcoherent, hplace.trans hplace'⟩
  · rw [hplain] at hon
    simp only [Round.withNode]
    by_cases hdata : q.data = []
    · simp only [hdata, if_true]
      exact ⟨trivial, hnode', hplace'⟩
    · simp only [hdata, if_false]
      have hlast : ({ q with node := node' } : Progress).LastOn io vol d node'.startCluster := by
        rw [hstart]
        exact hon.1
      obtain ⟨hcoherent, hplace⟩ := rememberPosition_coherent hnode' hlast
      exact ⟨trivial, hcoherent, hplace.trans hplace'⟩

theorem seekCluster_reuse (h : node.Coherent io vol d) (target : Nat) : seekCluster io vol d
      (target - if node.checkpointCurrent vol && decide (node.fileChain.clusterIndex ≤ target)
        then node.fileChain.clusterIndex else 0)
      (if node.checkpointCurrent vol && decide (node.fileChain.clusterIndex ≤ target)
        then node.fileChain.cluster else node.startCluster) =
      seekCluster io vol d target node.startCluster := by
  split
  · rename_i hreuse
    unfold Node.checkpointCurrent at hreuse
    simp only [Bool.and_eq_true, Bool.not_eq_true', beq_iff_eq, decide_eq_true_eq] at hreuse
    obtain ⟨⟨⟨⟨⟨henabled, hvalid⟩, hgen⟩, hstart⟩, -⟩, hle⟩ := hreuse
    have hsplit := seekCluster_add (target - node.fileChain.clusterIndex)
      (h.position henabled hvalid hgen hstart)
    rw [Nat.add_sub_cancel' hle] at hsplit
    exact hsplit.symm
  · rfl

theorem readHandle_spec {file : VfsNode} (h : file.fat.Coherent io vol d) (offset length : Nat) :
    (readHandle io vol d file offset length).1 = plainRead io vol d file offset length ∧
    (readHandle io vol d file offset length).2.Coherent io vol d ∧
    (readHandle io vol d file offset length).2.place = file.fat.place := by
  unfold readHandle plainRead
  by_cases htype : file.type ≠ .file
  · simp only [if_pos htype]
    exact ⟨trivial, h, trivial⟩
  simp only [if_neg htype]
  by_cases hempty : file.size ≤ offset ∨ length = 0
  · simp only [hempty, if_true]
    exact ⟨trivial, h, trivial⟩
  simp only [hempty, if_false]
  by_cases hformat : file.fat.startCluster = 0 ∨ vol.clusterBytes = 0
  · simp only [hformat, if_true]
    exact ⟨trivial, h, trivial⟩
  simp only [hformat]
  have hnode : ∃ node, node.Coherent io vol d ∧ node.place = file.fat.place ∧ node =
      if file.fat.checkpointCurrent vol then file.fat
      else { file.fat with fileChain := { file.fat.fileChain with valid := false } } := by
    refine ⟨_, ?_, ?_, rfl⟩
    · split
      · exact h
      · exact { h with
          recent := { h.recent with position := h.recent.position }
          position := fun _ hvalid => by cases hvalid }
    · split
      · rfl
      · rfl
  obtain ⟨node, hcoherent, hplace, heq⟩ := hnode
  have hstart : node.startCluster = file.fat.startCluster := congrArg Place.startCluster hplace
  rw [← heq, seekCluster_reuse h]
  rcases hseek : seekCluster io vol d (offset / vol.clusterBytes) file.fat.startCluster with
    e | cluster
  · exact ⟨rfl, hcoherent, hplace⟩
  · rw [← hstart] at hseek
    obtain ⟨hread, hafter, hsame⟩ := readFrom_spec (offset % vol.clusterBytes)
      (min length (file.size - offset)) hcoherent hseek
    exact ⟨hread, hafter, hsame.trans hplace⟩

/-! ## `FAT_ReadDirectory` -/

/-- Visible entry number `ordinal` of a directory, without caches. -/
def plainEntry (io : Device D) (vol : Volume) (d : D) (dir : Place) (ordinal : Nat) :
    Except KernelError (Option EntryLocation) :=
  match plainFrom io vol d (.enumerate ordinal) dir {} with
  | .error e => .error e
  | .ok (.ended _) => .ok none
  | .ok (.found location _) => .ok (some location)

theorem Node.Coherent.forget (h : dir.Coherent io vol d) : dir.forgetDirectory.Coherent io vol d :=
  { h with
    recent := { h.recent with position := h.recent.position }
    chain := .of_invalid h.chain.recent rfl
    ordinal := fun _ hvalid => by cases hvalid
    eof := fun _ hknown => by cases hknown }

theorem startCursor_spec (h : dir.Coherent io vol d) (ordinal : Nat) :
    (dir.startCursor vol ordinal).1.seen ≤ ordinal ∧
    (dir.startCursor vol ordinal).2.Right io vol d dir.place ∧
    ∀ m, (dir.startCursor vol ordinal).1.seen ≤ m → plainFrom io vol d (.enumerate m) dir.place {} =
        plainFrom io vol d (.enumerate m) dir.place (dir.startCursor vol ordinal).1 := by
  unfold Node.startCursor
  dsimp only
  split
  · rename_i hreuse
    simp only [Bool.and_eq_true, Bool.not_eq_true', beq_iff_eq, decide_eq_true_eq] at hreuse
    obtain ⟨⟨⟨henabled, hvalid⟩, hgen⟩, hle⟩ := hreuse
    exact ⟨hle, h.chain, h.ordinal henabled hvalid hgen⟩
  · exact ⟨Nat.zero_le _, .of_invalid (Nat.zero_le _) rfl, fun _ _ => rfl⟩

theorem rememberEntry_coherent {location : EntryLocation} {seen : Nat}
    {chain : ChainCheckpoint} (h : dir.Coherent io vol d) (hchain : chain.Right io vol d dir.place)
    (hfound : ∀ m, seen ≤ m → plainFrom io vol d (.enumerate m) dir.place {} =
      plainFrom io vol d (.enumerate m) dir.place
        ⟨location.directorySector, location.slot, seen, location.longName⟩) :
    (dir.rememberEntry vol location seen chain).Coherent io vol d ∧
      (dir.rememberEntry vol location seen chain).place = dir.place := by
  unfold Node.rememberEntry
  split
  · exact ⟨{ h.forget with
      recent := { h.forget.recent with position := h.recent.position }
      eof := fun _ hknown => by cases hknown }, rfl⟩
  refine ⟨?_, rfl⟩
  have hright : (if dir.isFixedRoot then { chain with generation := vol.traversalGeneration }
      else chain).Right io vol d dir.place := by
    split
    · rename_i hroot
      refine ⟨le_rfl, ?_⟩
      intro _ habsurd
      exact Bool.noConfusion (hroot.symm.trans habsurd)
    · exact hchain
  exact
    { h with
      recent := { h.recent with
        ordinal := le_rfl
        chain := hright.recent }
      chain := hright
      ordinal := fun _ _ _ => hfound
      eof := fun _ hknown => by cases hknown }

/-- On a coherent node an enumeration finds the entry of the directory. -/
theorem enumerateEntry_spec (h : dir.Coherent io vol d) (ordinal : Nat) :
    (enumerateEntry io vol d dir ordinal).1 = plainEntry io vol d dir.place ordinal ∧
    (enumerateEntry io vol d dir ordinal).2.Coherent io vol d ∧
    (enumerateEntry io vol d dir ordinal).2.place = dir.place := by
  unfold enumerateEntry
  dsimp only
  -- What the directory remembers is dropped as a whole when a part of it is stale.
  have hclean : ∃ clean : Node, clean.Coherent io vol d ∧ clean.place = dir.place ∧
      (clean.directoryEofKnown = true → vol.traversalReuseDisabled = false) ∧
      clean = if dir.directoryStale vol then dir.forgetDirectory else dir := by
    refine ⟨_, ?_, ?_, ?_, rfl⟩
    · split
      · exact h.forget
      · exact h
    · split
      · rfl
      · rfl
    · split
      · intro hknown
        cases hknown
      · rename_i hstale
        intro _
        unfold Node.directoryStale at hstale
        simp only [Bool.or_eq_true, not_or, Bool.not_eq_true] at hstale
        exact hstale.1.1.1
  obtain ⟨clean, hcoherent, hplace, henabled, heq⟩ := hclean
  rw [← heq, ← hplace]
  by_cases heof : (clean.directoryEofKnown &&
      clean.directoryEofGeneration == vol.traversalGeneration &&
      decide (clean.directoryEofCount ≤ ordinal)) = true
  · rw [if_pos heof]
    simp only [Bool.and_eq_true, beq_iff_eq, decide_eq_true_eq] at heof
    obtain ⟨⟨hknown, hgen⟩, hle⟩ := heof
    refine ⟨?_, hcoherent, rfl⟩
    unfold plainEntry
    rw [hcoherent.eof (henabled hknown) hknown hgen ordinal hle]
  rw [if_neg heof]
  obtain ⟨hseen, hchain, hsame⟩ := startCursor_spec hcoherent ordinal
  have hscan := scanSectors_plain (.enumerate ordinal)
    (uint32Max - (clean.startCursor vol ordinal).1.sector) (clean.startCursor vol ordinal).1 hchain
  unfold plainEntry
  rw [hsame ordinal hseen]
  unfold scanFrom plainFrom
  rcases hresult : scanSectors io vol d (.enumerate ordinal) clean
      (uint32Max - (clean.startCursor vol ordinal).1.sector) (clean.startCursor vol ordinal).1
      (clean.startCursor vol ordinal).2 with e | ⟨⟨location, seen⟩ | s, next⟩
  · rw [hresult] at hscan
    rw [hscan]
    exact ⟨rfl, hcoherent, rfl⟩
  · rw [hresult] at hscan
    obtain ⟨hplain, hnext⟩ := hscan
    rw [hplain]
    obtain ⟨rfl, hsector, hresume⟩ := plainScan_resume hseen hplain
    have hfound : ∀ m, seen ≤ m → plainFrom io vol d (.enumerate m) clean.place {} =
        plainFrom io vol d (.enumerate m) clean.place
          ⟨location.directorySector, location.slot, seen, location.longName⟩ := by
      intro m hm
      rw [hsame m (by omega)]
      unfold plainFrom
      rw [hresume m hm]
      congr 1
      dsimp only
      omega
    obtain ⟨hafter, hafterPlace⟩ := rememberEntry_coherent hcoherent hnext hfound
    exact ⟨rfl, hafter, hafterPlace⟩
  · rw [hresult] at hscan
    obtain ⟨hplain, hnext⟩ := hscan
    rw [hplain]
    obtain ⟨hstart, hended⟩ := plainScan_ended hseen hplain
    refine ⟨rfl, ?_, rfl⟩
    exact
      { hcoherent with
        recent := { hcoherent.recent with eof := le_rfl }
        eof := by
          intro _ _ _ m hm
          exact (hsame m (by dsimp only at hm; omega)).trans (hended m hm) }

/-- `FAT_ReadDirectory` by the directory alone. -/
def plainDirectory (io : Device D) (vol : Volume) (d : D) (parent : VfsNode) (index : Nat) :
    Except KernelError (Option DirectoryEntry) :=
  if vol.type = .exFat then .error .unsupported
  else if parent.type ≠ .directory then .error .notDirectory
  else (plainEntry io vol d parent.fat.place index).map (Option.map fun location =>
    ⟨displayName location.entry.name, location.entry.fileSize, location.entry.attr⟩)

theorem readDirectory_spec {parent : VfsNode} (h : parent.fat.Coherent io vol d) (index : Nat) :
    (readDirectory io vol d parent index).1 = plainDirectory io vol d parent index ∧
    (readDirectory io vol d parent index).2.Coherent io vol d ∧
    (readDirectory io vol d parent index).2.place = parent.fat.place := by
  obtain ⟨hentry, hafter, hplace⟩ := enumerateEntry_spec h index
  unfold readDirectory findEntry plainDirectory
  by_cases hexfat : vol.type = .exFat
  · simp only [hexfat, if_true]
    exact ⟨rfl, h, trivial⟩
  simp only [hexfat, if_false]
  by_cases htype : parent.type ≠ .directory
  · simp only [if_pos htype]
    exact ⟨rfl, h, trivial⟩
  simp only [if_neg htype]
  refine ⟨?_, hafter, hplace⟩
  rw [hentry]

theorem plainDirectory_later {parent : VfsNode} (k m : Nat) (hm : k ≤ m) :
    (∃ e, plainDirectory io vol d parent k = .ok (some e)) ∨
      plainDirectory io vol d parent m = plainDirectory io vol d parent k := by
  unfold plainDirectory plainEntry plainFrom
  split
  · exact .inr rfl
  split
  · exact .inr rfl
  rcases @plainScan_later D io vol d parent.fat.place (uint32Max - ({} : Cursor).sector) k m {}
    k.zero_le hm with ⟨location, seen, hfound⟩ | hsame
  · exact .inl ⟨_, by rw [hfound]; rfl⟩
  · exact .inr (by rw [hsame])

/-! ## Cached and fresh nodes -/

theorem readHandle_fresh {file : VfsNode} (h : file.fat.Coherent io vol d) (offset length : Nat) :
    (readHandle io vol d file offset length).1 =
      (readHandle io vol d file.fresh offset length).1 := by
  have hfresh : file.fresh.fat.Coherent io vol d := .fresh file.fat
  rw [(readHandle_spec h offset length).1, (readHandle_spec hfresh offset length).1]
  rfl

theorem readDirectory_fresh {parent : VfsNode} (h : parent.fat.Coherent io vol d) (index : Nat) :
    (readDirectory io vol d parent index).1 = (readDirectory io vol d parent.fresh index).1 := by
  have hfresh : parent.fresh.fat.Coherent io vol d := .fresh parent.fat
  rw [(readDirectory_spec h index).1, (readDirectory_spec hfresh index).1]
  rfl

end

end UnDOS.Fat
