import UnDOS.Fat.Caches
import UnDOS.Lib.Listing
import UnDOS.Lib.Run

/-!
# Reading While Writing

The calls of a mounted volume that read files and directories and write the device, in any
order.  A write starts a new generation, so nothing that a node remembers is used again
(`Session.Coherent.write`).

- The last generation has no successor.  From there on a write only disables reuse, and
  `FAT_ReadHandle` looks at the generation of its cached cluster but not at that flag.
-/

namespace UnDOS.Fat

open UnDOS.Lib
open UnDOS.Kernel (KernelError)
open Function (update update_of_ne update_self)

/-! ## Writing -/

/-- `FAT_InvalidateTraversal`. -/
def invalidateTraversal (vol : Volume) : Volume :=
  if vol.traversalGeneration = uint64Max then { vol with traversalReuseDisabled := true }
  else { vol with traversalGeneration := vol.traversalGeneration + 1 }

/-- `FAT_WriteBytes`. -/
def writeBytes {D : Type} (io : Device D) (vol : Volume) (d : D) (offset : Nat)
    (bytes : List UInt8) : Except KernelError Unit × Volume × D :=
  let vol := invalidateTraversal vol
  match io.write d offset bytes with
  | (.ok transferred, d) =>
    if transferred = bytes.length then (.ok (), vol, d)
    else (.error .ioError, { vol with writable := false }, d)
  | (.error e, d) => (.error e, { vol with writable := false }, d)

/-! ## Sessions -/

/-- A mounted volume with its device and the nodes that are open. -/
structure Session (D : Type) where
  vol : Volume
  device : D
  nodes : Nat → VfsNode

/-- The calls on a mounted volume. -/
inductive Access where
  | create (id : Nat) (node : VfsNode)
  | readHandle (id offset length : Nat)
  | readDirectory (id index : Nat)
  | writeBytes (offset : Nat) (bytes : List UInt8)

/-- A call that only reads. -/
def Access.reads : Access → Prop
  | .readHandle .. | .readDirectory .. => True
  | _ => False

namespace Session
variable {D : Type} (io : Device D)

/-- What node `id` remembers after a call. -/
def remember (s : Session D) (id : Nat) (node : Node) : Session D :=
  { s with nodes := update s.nodes id { s.nodes id with fat := node } }

def access (s : Session D) : Access → Session D
  | .create id node => { s with nodes := update s.nodes id node.fresh }
  | .readHandle id offset length =>
    s.remember id (readHandle io s.vol s.device (s.nodes id) offset length).2
  | .readDirectory id index => s.remember id (readDirectory io s.vol s.device (s.nodes id) index).2
  | .writeBytes offset bytes =>
    { s with
      vol := (writeBytes io s.vol s.device offset bytes).2.1
      device := (writeBytes io s.vol s.device offset bytes).2.2 }

/-- Every call returns what it would return on a node that remembers nothing. -/
structure Transparent (s : Session D) : Prop where
  file : ∀ id offset length,
    (readHandle io s.vol s.device (s.nodes id) offset length).1 =
      (readHandle io s.vol s.device (s.nodes id).fresh offset length).1
  directory : ∀ id index,
    (readDirectory io s.vol s.device (s.nodes id) index).1 =
      (readDirectory io s.vol s.device (s.nodes id).fresh index).1

/-- One call. -/
def Step (s : Session D) (a : Access) (s' : Session D) : Prop := s' = s.access io a

/-- The last generation is not written to while a cluster of it is cached. -/
def Careful (s : Session D) : Access → Prop
  | .writeBytes _ _ => s.vol.traversalGeneration = uint64Max → ∀ id,
      ¬((s.nodes id).fat.clusterCacheValid = true ∧ (s.nodes id).fat.cachedGeneration = uint64Max)
  | _ => True

/-! ## The invariant -/

/-- Every node is coherent. -/
def Coherent (s : Session D) : Prop := ∀ id, (s.nodes id).fat.Coherent io s.vol s.device

variable {io} {s : Session D}

theorem Coherent.transparent (h : s.Coherent io) : s.Transparent io where
  file := fun id => readHandle_fresh (h id)
  directory := fun id => readDirectory_fresh (h id)

theorem Coherent.remember (h : s.Coherent io) {id : Nat} {node : Node}
    (hnode : node.Coherent io s.vol s.device) : (s.remember id node).Coherent io := by
  intro other
  show (update s.nodes id { s.nodes id with fat := node } other).fat.Coherent io s.vol
    s.device
  by_cases hid : other = id
  · subst hid
    rw [update_self]
    exact hnode
  · rw [update_of_ne hid]
    exact h other

/-- What a node remembers is of no use after a write. -/
theorem Coherent.write (h : s.Coherent io) {offset : Nat} {bytes : List UInt8}
    (hcareful : s.Careful (.writeBytes offset bytes)) :
    (s.access io (.writeBytes offset bytes)).Coherent io := by
  intro id
  have hrecent := (h id).recent
  -- The device may have changed in any way; the volume has a new generation or no reuse.
  have hvol : ∀ vol' : Volume, vol'.traversalGeneration =
      (invalidateTraversal s.vol).traversalGeneration →
      vol'.traversalReuseDisabled = (invalidateTraversal s.vol).traversalReuseDisabled →
      ∀ d : D, (s.nodes id).fat.Coherent io vol' d := by
    intro vol' hgen hdisabled d
    unfold invalidateTraversal at hgen hdisabled
    by_cases hlast : s.vol.traversalGeneration = uint64Max
    · rw [if_pos hlast] at hgen hdisabled
      have hno : vol'.traversalReuseDisabled ≠ false := by
        rw [hdisabled]
        exact Bool.noConfusion
      exact
        { recent := ⟨hgen ▸ hrecent.position, hgen ▸ hrecent.cluster, hgen ▸ hrecent.chain,
            hgen ▸ hrecent.ordinal, hgen ▸ hrecent.eof⟩
          position := fun henabled => absurd henabled hno
          cluster := fun hvalid hcached =>
            absurd ⟨hvalid, (hcached.trans hgen).trans hlast⟩ (hcareful hlast id)
          chain := ⟨hgen ▸ hrecent.chain, fun henabled => absurd henabled hno⟩
          ordinal := fun henabled => absurd henabled hno
          eof := fun henabled => absurd henabled hno }
    · rw [if_neg hlast] at hgen
      dsimp only at hgen
      have hold {g : Nat} (hle : g ≤ s.vol.traversalGeneration) :
          g ≤ vol'.traversalGeneration ∧ g ≠ vol'.traversalGeneration := by omega
      exact
        { recent := ⟨(hold hrecent.position).1, (hold hrecent.cluster).1, (hold hrecent.chain).1,
            (hold hrecent.ordinal).1, (hold hrecent.eof).1⟩
          position := fun _ _ hsame => absurd hsame (hold hrecent.position).2
          cluster := fun _ hsame => absurd hsame (hold hrecent.cluster).2
          chain := ⟨(hold hrecent.chain).1, fun _ _ _ hsame => absurd hsame (hold hrecent.chain).2⟩
          ordinal := fun _ _ hsame => absurd hsame (hold hrecent.ordinal).2
          eof := fun _ _ hsame => absurd hsame (hold hrecent.eof).2 }
  show (s.nodes id).fat.Coherent io (writeBytes io s.vol s.device offset bytes).2.1
    (writeBytes io s.vol s.device offset bytes).2.2
  unfold writeBytes
  split
  · split
    · exact hvol (invalidateTraversal s.vol) rfl rfl _
    · exact hvol { invalidateTraversal s.vol with writable := false } rfl rfl _
  · exact hvol { invalidateTraversal s.vol with writable := false } rfl rfl _

theorem Coherent.access (h : s.Coherent io) {a : Access} (hcareful : s.Careful a) :
    (s.access io a).Coherent io := by
  cases a with
  | create id node =>
    intro other
    show (update s.nodes id node.fresh other).fat.Coherent io s.vol s.device
    by_cases hid : other = id
    · subst hid
      rw [update_self]
      exact .fresh node.fat
    · rw [update_of_ne hid]
      exact h other
  | readHandle id offset length => exact h.remember (readHandle_spec (h id) offset length).2.1
  | readDirectory id index => exact h.remember (readDirectory_spec (h id) index).2.1
  | writeBytes offset bytes => exact h.write hcareful

/-- A read changes what a node remembers, and nothing that a listing depends on. -/
theorem listing_remember {id other : Nat} {node : Node}
    (hplace : node.place = (s.nodes other).fat.place) (k : Nat) :
    plainDirectory io s.vol s.device ((s.remember other node).nodes id) k =
      plainDirectory io s.vol s.device (s.nodes id) k := by
  unfold remember
  dsimp only
  by_cases hid : id = other
  · subst hid
    rw [update_self]
    unfold plainDirectory
    dsimp only
    rw [hplace]
  · rw [update_of_ne hid]

end Session

/-- In every run that does not write to the last generation while a cluster of it is cached,
no cache shows. -/
theorem caches_invisible {D : Type} {io : Device D} {start : Session D}
    {run : List (Access × Session D)} (hfresh : ∀ id, (start.nodes id).fresh = start.nodes id)
    (hrun : Run (fun s a s' => s.Step io a s' ∧ s.Careful a) start run) :
    (lastState start run).Transparent io := by
  have hstart : start.Coherent io := by
    intro id
    rw [← hfresh id]
    exact .fresh _
  refine Session.Coherent.transparent (hrun.invariant hstart ?_)
  rintro s a s' h ⟨rfl, hcareful⟩
  exact h.access hcareful

/-- Once the end of a directory has been seen, all that is read from it by index, with any other
reads in between, is one list. -/
theorem directory_listed {D : Type} {io : Device D} {start : Session D}
    {run : List (Access × Session D)} (hfresh : ∀ id, (start.nodes id).fresh = start.nodes id)
    (hrun : Run (fun s a s' => s.Step io a s' ∧ s.Careful a) start run) {id n : Nat}
    (hend : (readDirectory io (lastState start run).vol (lastState start run).device
      ((lastState start run).nodes id) n).1 = .ok none) :
    ∃ L : List DirectoryEntry, L.length ≤ n ∧ ∀ later,
      Run (fun s a s' => s.Step io a s' ∧ a.reads) (lastState start run) later →
        let s := lastState (lastState start run) later
        ∀ k, (readDirectory io s.vol s.device (s.nodes id) k).1 = .ok L[k]? := by
  have hcoherent : (lastState start run).Coherent io := by
    refine hrun.invariant (fun id => ?_) ?_
    · rw [← hfresh id]
      exact .fresh _
    · rintro s a s' h ⟨rfl, hcareful⟩
      exact h.access hcareful
  rw [(readDirectory_spec (hcoherent id) n).1] at hend
  obtain ⟨L, hlen, hL⟩ := exists_list_of_end hend fun k m hm => plainDirectory_later k m hm
  refine ⟨L, hlen, fun later hlater k => ?_⟩
  have hkept := hlater.invariant (I := fun s => s.Coherent io ∧ ∀ k,
    plainDirectory io s.vol s.device (s.nodes id) k = .ok L[k]?) ⟨hcoherent, hL⟩ ?_
  · rw [(readDirectory_spec (hkept.1 id) k).1]
    exact hkept.2 k
  rintro s a s' ⟨h, hsame⟩ ⟨rfl, hreads⟩
  cases a with
  | readHandle other offset length =>
    obtain ⟨-, hafter, hplace⟩ := readHandle_spec (h other) offset length
    exact ⟨h.remember hafter, fun k => (Session.listing_remember hplace k).trans (hsame k)⟩
  | readDirectory other index =>
    obtain ⟨-, hafter, hplace⟩ := readDirectory_spec (h other) index
    exact ⟨h.remember hafter, fun k => (Session.listing_remember hplace k).trans (hsame k)⟩
  | create => cases hreads
  | writeBytes => cases hreads

/-! ## A small volume -/

/-- The boot sector of a FAT12 volume of 64 sectors of 512 bytes. -/
def smallBootSector : List UInt8 :=
  [0xEB, 0x3C, 0x90] ++ List.replicate 8 0x20 ++
    [0x00, 0x02, 0x01, 0x01, 0x00, 0x01, 0x10, 0x00, 0x40, 0x00, 0xF8, 0x01, 0x00] ++
    List.replicate 486 0 ++ [0x55, 0xAA]

/-- What `FAT_ParseVbr` makes of it. -/
def smallVolume : Volume :=
  { type := .fat12, bytesPerSector := 512, sectorsPerCluster := 1, reservedSectors := 1,
    numFATs := 1, fatSizeSectors := 1, firstFATSector := 1, rootDirSector := 2,
    rootDirSectors := 1, dataStartSector := 3, totalClusters := 61 }

/-- The entry of a file of one byte in cluster 2. -/
def smallEntry : DirEntry :=
  List.replicate 11 0x41 ++ List.replicate 15 0 ++ [0x02, 0x00, 0x01, 0x00, 0x00, 0x00]

/-- The device of the volume: zeros after the boot sector. -/
def smallDisk : ByteStore := fun i => smallBootSector.getD i 0

theorem smallBootSector_parse : parseVbr (readAt smallDisk 0 512) = .ok (smallVolume, none) := by
  decide +kernel

/-- The volume after its mount. -/
def smallSession : Session ByteStore := ⟨smallVolume, smallDisk, fun _ => {}⟩

/-- A file is read, overwritten and read again. -/
theorem caches_invisible_small :
    ∃ run, Run (fun s a s' => s.Step memoryDevice a s' ∧ s.Careful a) smallSession run ∧
      run.map Prod.fst = [.readHandle 0 0 1, .writeBytes 1536 [7], .readHandle 0 0 1,
        .create 0 (fillNode smallEntry)] ∧
      (lastState smallSession run).Transparent memoryDevice := by
  let opened := smallSession.access memoryDevice (.create 0 (fillNode smallEntry))
  let cached := opened.access memoryDevice (.readHandle 0 0 1)
  let written := cached.access memoryDevice (.writeBytes 1536 [7])
  have hopened : Run (fun s a s' => s.Step memoryDevice a s' ∧ s.Careful a) smallSession
      [(.create 0 (fillNode smallEntry), opened)] := .cons .nil ⟨rfl, trivial⟩
  have hcached := Run.cons (a := Access.readHandle 0 0 1) (s := cached) hopened ⟨rfl, trivial⟩
  have hcareful : cached.Careful (.writeBytes 1536 [7]) := by
    intro habsurd
    exact absurd habsurd (by decide +kernel)
  have hwritten := Run.cons (a := Access.writeBytes 1536 [7]) (s := written) hcached ⟨rfl, hcareful⟩
  have hrun := Run.cons (a := Access.readHandle 0 0 1)
    (s := written.access memoryDevice (.readHandle 0 0 1)) hwritten ⟨rfl, trivial⟩
  exact ⟨_, hrun, rfl, caches_invisible (fun _ => rfl) hrun⟩

/-- The root of the small volume with one file in it. -/
def oneFileSession : Session ByteStore :=
  ⟨smallVolume, writeAt smallDisk 1024 smallEntry, fun _ => getRootNode smallVolume⟩

theorem directory_listed_root : ∃ L : List DirectoryEntry, L.length ≤ 1 ∧ ∀ later,
    Run (fun s a s' => s.Step memoryDevice a s' ∧ a.reads) oneFileSession later →
      let s := lastState oneFileSession later
      ∀ k, (readDirectory memoryDevice s.vol s.device (s.nodes 0) k).1 = .ok L[k]? :=
  directory_listed (fun _ => rfl) .nil (by decide +kernel)

/-! ## The last generation -/

/-- The small volume at generation `generation`, with the file open. -/
def agedSession (generation : Nat) : Session ByteStore :=
  ⟨{ smallVolume with traversalGeneration := generation }, smallDisk,
    update (fun _ => {}) 0 (fillNode smallEntry).fresh⟩

theorem agedSession_write {generation : Nat} (h : generation ≠ uint64Max) :
    (agedSession generation).access memoryDevice (.writeBytes 0x7000 [0]) =
      agedSession (generation + 1) := by
  have hsame : writeAt smallDisk 0x7000 [0] = smallDisk := by
    funext i
    unfold writeAt
    split
    · rename_i hin
      have hi : i = 0x7000 := by
        simp only [List.length_singleton] at hin
        omega
      subst hi
      show 0 = smallBootSector.getD 0x7000 0
      rw [List.getD_eq_getElem?_getD, List.getElem?_eq_none (by decide +kernel)]
      rfl
    · rfl
  have hnext : invalidateTraversal { smallVolume with traversalGeneration := generation } =
      { smallVolume with traversalGeneration := generation + 1 } := if_neg h
  simp only [Session.access, agedSession, writeBytes, memoryDevice, hnext, hsame, if_true]

theorem agedSession_reached (n : Nat) (h : n < uint64Max) :
    ∃ run, Run (Session.Step memoryDevice) smallSession run ∧
      lastState smallSession run = agedSession (n + 1) := by
  induction n with
  | zero =>
    exact ⟨[(.create 0 (fillNode smallEntry), agedSession 1)], .cons .nil rfl, rfl⟩
  | succ n ih =>
    obtain ⟨run, hrun, hlast⟩ := ih (by omega)
    refine ⟨(.writeBytes 0x7000 [0], agedSession (n + 2)) :: run, .cons hrun ?_, rfl⟩
    rw [hlast]
    exact (agedSession_write (by omega)).symm

/-- The file is read at the last generation, then its byte is overwritten. -/
def staleSession : Session ByteStore :=
  ((agedSession uint64Max).access memoryDevice (.readHandle 0 0 1)).access memoryDevice
    (.writeBytes 1536 [7])

theorem staleSession_cached :
    (readHandle memoryDevice staleSession.vol staleSession.device (staleSession.nodes 0) 0 1).1 =
      .ok [0] := by
  decide +kernel

theorem staleSession_fresh :
    (readHandle memoryDevice staleSession.vol staleSession.device (staleSession.nodes 0).fresh
      0 1).1 = .ok [7] := by
  decide +kernel

/-- A volume that has been written often enough shows a cache. -/
theorem cluster_cache_survives_write :
    ¬∀ (vol : Volume) (serial : Option Nat) (disk : ByteStore) (run : List (Access × _)),
      parseVbr (readAt disk 0 512) = .ok (vol, serial) → vol.type ≠ .exFat →
      Run (Session.Step memoryDevice) ⟨vol, disk, fun _ => {}⟩ run →
      (lastState ⟨vol, disk, fun _ => {}⟩ run).Transparent memoryDevice := by
  intro h
  obtain ⟨run, hrun, hlast⟩ := agedSession_reached (uint64Max - 1) (by decide)
  have hread : Session.Step memoryDevice (lastState smallSession run) (.readHandle 0 0 1)
      ((agedSession uint64Max).access memoryDevice (.readHandle 0 0 1)) := by
    rw [hlast]
    rfl
  have hstale := (h smallVolume none smallDisk ((.writeBytes 1536 [7], staleSession) :: _ :: run)
    smallBootSector_parse (by decide) (.cons (.cons hrun hread) rfl)).file 0 0 1
  have hbytes := (staleSession_cached.symm.trans hstale).trans staleSession_fresh
  cases hbytes

end UnDOS.Fat
