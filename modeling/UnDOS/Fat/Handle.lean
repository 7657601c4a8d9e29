import UnDOS.Fat.Directory

/-!
# Reading Files

`FAT_ReadHandle`, with the two caches it keeps in the node of the file: the place in the
cluster chain where the last read ended, and the bytes of the last cluster.

Every round of the reading loop copies at least one byte, so the bytes that are still
wanted bound the number of rounds.
-/

namespace UnDOS.Fat

open UnDOS.Lib
open UnDOS.Kernel (KernelError)

section Reading
variable {D : Type} (io : Device D) (vol : Volume) (d : D)

/-- The loop that walks to the first cluster of a read. -/
def seekCluster : Nat → Nat → Except KernelError Nat
  | 0, cluster => .ok cluster
  | steps + 1, cluster =>
    match getNextCluster io vol d cluster with
    | .error e => .error e
    | .ok next =>
      if vol.isEndOfChain next then .error .unexpectedEndOfFile else seekCluster steps next

def Node.checkpointCurrent (node : Node) : Bool :=
  !vol.traversalReuseDisabled && node.fileChain.valid &&
    node.fileChain.generation == vol.traversalGeneration &&
    node.fileChain.startCluster == node.startCluster && vol.validCluster node.fileChain.cluster

/-- Whether the buffer of the node holds the cluster, number `index` of the file. -/
def Node.cached (node : Node) (index cluster : Nat) : Bool :=
  node.clusterCacheValid && node.cachedGeneration == vol.traversalGeneration &&
    node.cachedStartCluster == node.startCluster && node.cachedClusterIndex == index &&
    node.cachedCluster == cluster

/-- The bytes of a cluster, from the buffer of the node or from the device into it. -/
def fetchCluster (node : Node) (index cluster : Nat) : Except KernelError (List UInt8) × Node :=
  if node.cached vol index cluster then (.ok node.clusterData, node)
  else
    let node := { node with clusterCacheValid := false }
    match io.read d (vol.clusterToSector cluster * vol.bytesPerSector) vol.clusterBytes with
    | .error e => (.error e, node)
    | .ok data =>
      if data.length = vol.clusterBytes then
        (.ok data, { node with
          clusterData := data, clusterCacheValid := true
          cachedGeneration := vol.traversalGeneration, cachedStartCluster := node.startCluster
          cachedClusterIndex := index, cachedCluster := cluster })
      else (.ok data, { node with clusterData := data })

/-- The variables of the reading loop. -/
structure Progress where
  node : Node
  cluster : Nat
  index : Nat
  offsetInCluster : Nat
  /-- `destination[0 .. actually_read)`. -/
  data : List UInt8
  lastReadCluster : Nat
  lastReadIndex : Nat
deriving DecidableEq

/-- How one round of the loop ends. -/
inductive Round where
  | failed (e : KernelError) (node : Node)
  | done (p : Progress)
  | next (p : Progress)
deriving DecidableEq

/-- An error counts only before the first byte. -/
def Round.giveUp (p : Progress) (e : KernelError) (node : Node) : Round :=
  if p.data = [] then .failed e node else .done { p with node := node }

/-- The progress after a chunk of the cluster's bytes. -/
def Progress.take (p : Progress) (node : Node) (bytes : List UInt8) (chunk : Nat) : Progress :=
  let p := { p with
    node := node, data := p.data ++ (bytes.drop p.offsetInCluster).take chunk }
  if chunk ≠ 0 then { p with lastReadCluster := p.cluster, lastReadIndex := p.index } else p

/-- A round once the bytes of the cluster are fetched into the node. -/
def takeCluster (readSize : Nat) (p : Progress) (fetched : Except KernelError (List UInt8))
    (node : Node) : Round :=
  match fetched with
  | .error e => Round.giveUp p e node
  | .ok bytes =>
    if bytes.length ≤ p.offsetInCluster then Round.giveUp p .unexpectedEndOfFile node
    else
      let chunk := min (min (vol.clusterBytes - p.offsetInCluster) (readSize - p.data.length))
        (bytes.length - p.offsetInCluster)
      let p := p.take node bytes chunk
      if bytes.length < vol.clusterBytes then .done p
      else if p.data.length = readSize then .done p
      else match getNextCluster io vol d p.cluster with
        | .error e => Round.giveUp p e node
        | .ok next =>
          if vol.isEndOfChain next then .done { p with cluster := next }
          else .next { p with cluster := next, index := p.index + 1, offsetInCluster := 0 }

/-- One round of the reading loop. -/
def readRound (readSize : Nat) (p : Progress) : Round :=
  if vol.isEndOfChain p.cluster then .done p
  else
    let (fetched, node) := fetchCluster io vol d p.node p.index p.cluster
    takeCluster io vol d readSize p fetched node

/-- The reading loop. -/
def readLoop (readSize : Nat) : Nat → Progress → Round
  | 0, p => .done p
  | fuel + 1, p =>
    if readSize ≤ p.data.length then .done p
    else match readRound io vol d readSize p with
      | .next p => readLoop readSize fuel p
      | r => r

/-- The chain position that a read leaves behind. -/
def rememberPosition (p : Progress) : Node :=
  if !vol.traversalReuseDisabled && vol.validCluster p.lastReadCluster then
    { p.node with fileChain :=
        { valid := true, generation := vol.traversalGeneration,
          startCluster := p.node.startCluster, clusterIndex := p.lastReadIndex,
          cluster := p.lastReadCluster } }
  else { p.node with fileChain := { p.node.fileChain with valid := false } }

/-- `FAT_ReadHandle` from the first cluster on. -/
def readFrom (node : Node) (cluster clusterIndex offset readSize : Nat) :
    Except KernelError (List UInt8) × Node :=
  let start : Progress := ⟨node, cluster, clusterIndex, offset, [], cluster, clusterIndex⟩
  match readLoop io vol d readSize readSize start with
  | .failed e node => (.error e, node)
  | .next p | .done p =>
    if p.data = [] then (.error .unexpectedEndOfFile, p.node)
      else (.ok p.data, rememberPosition vol p)

/-- `FAT_ReadHandle`: the bytes read, and the node with its caches. -/
def readHandle (file : VfsNode) (offset length : Nat) : Except KernelError (List UInt8) × Node :=
  let node := file.fat
  if file.type ≠ .file then (.error .invalidState, node)
  else if file.size ≤ offset ∨ length = 0 then (.ok [], node)
  else if node.startCluster = 0 ∨ vol.clusterBytes = 0 then (.error .invalidFormat, node)
  else
    let readSize := min length (file.size - offset)
    let clusterIndex := offset / vol.clusterBytes
    let current := node.checkpointCurrent vol
    let reusable := current && decide (node.fileChain.clusterIndex ≤ clusterIndex)
    let cluster := if reusable then node.fileChain.cluster else node.startCluster
    let index := if reusable then node.fileChain.clusterIndex else 0
    let node :=
      if current then node else { node with fileChain := { node.fileChain with valid := false } }
    match seekCluster io vol d (clusterIndex - index) cluster with
    | .error e => (.error e, node)
    | .ok cluster =>
      readFrom io vol d node cluster clusterIndex (offset % vol.clusterBytes) readSize

end Reading

end UnDOS.Fat
