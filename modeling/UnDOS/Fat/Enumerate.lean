import UnDOS.Fat.Directory

/-!
# Enumerating a Directory Without Remembering

`plainScan` is the search of a directory by its sectors alone, with no checkpoint.  The
search of the driver finds what it finds, from every checkpoint that is a cluster of the
chain (`scanSectors_plain`).
-/

namespace UnDOS.Fat

open UnDOS.Lib
open UnDOS.Kernel (KernelError)

section
variable {D : Type} (io : Device D) (vol : Volume) (d : D)

/-! ## The search without checkpoints -/

/-- Where a directory is. -/
structure Place where
  startCluster : Nat
  isFixedRoot : Bool
deriving DecidableEq

@[simp] def Node.place (dir : Node) : Place := ⟨dir.startCluster, dir.isFixedRoot⟩

/-- The sector with a number in the directory, 0 past its end. -/
def plainSector (dir : Place) (index : Nat) : Except KernelError Nat :=
  if dir.isFixedRoot then
    .ok (if index < vol.rootDirSectors then wrap32 (vol.rootDirSector + index) else 0)
  else if vol.totalClusters ≤ index / vol.sectorsPerCluster then .error .invalidFormat
  else match directoryWalk io vol d (index / vol.sectorsPerCluster) dir.startCluster with
    | .error e => .error e
    | .ok none => .ok 0
    | .ok (some cluster) =>
      if !vol.validCluster cluster then .error .invalidFormat
      else .ok (wrap32 (vol.clusterToSector cluster + index % vol.sectorsPerCluster))

/-- One round of the search. -/
def plainRound (search : Search) (dir : Place) (c : Cursor) : Except KernelError (Scan ⊕ Cursor) :=
  match plainSector io vol d dir c.sector with
  | .error e => .error e
  | .ok sector => searchSector io vol d search c sector

/-- The search, `left` sector numbers on from the cursor. -/
def plainScan (search : Search) (dir : Place) : Nat → Cursor → Except KernelError Scan
  | left, c =>
    match plainRound io vol d search dir c with
    | .error e => .error e
    | .ok (.inl scan) => .ok scan
    | .ok (.inr c) =>
      match left with
      | 0 => .error .invalidFormat
      | left + 1 => plainScan search dir left c

/-- The search from a cursor on. -/
def plainFrom (search : Search) (dir : Place) (c : Cursor) : Except KernelError Scan :=
  plainScan io vol d search dir (uint32Max - c.sector) c

end

section
variable {D : Type} {io : Device D} {vol : Volume} {d : D}

/-! ## Cluster chains -/

theorem directoryWalk_succ (steps cluster : Nat) : directoryWalk io vol d (steps + 1) cluster =
      if !vol.validCluster cluster then .error .invalidFormat
      else match getNextCluster io vol d cluster with
        | .error e => .error e
        | .ok next =>
          if vol.isEndOfChain next then .ok none
          else if !vol.validCluster next then .error .invalidFormat
          else directoryWalk io vol d steps next := rfl

theorem directoryWalk_add (i j cluster : Nat) : directoryWalk io vol d (i + j) cluster =
      match directoryWalk io vol d i cluster with
      | .error e => .error e
      | .ok none => .ok none
      | .ok (some next) => directoryWalk io vol d j next := by
  induction i generalizing cluster with
  | zero =>
    rw [zero_add]
    rfl
  | succ i ih =>
    rw [add_right_comm, directoryWalk_succ, directoryWalk_succ]
    split
    · rfl
    · split
      · rfl
      · split
        · rfl
        · split
          · rfl
          · exact ih _

/-- A checkpoint that would be used is a cluster of the chain of `dir`. -/
structure ChainCheckpoint.Right (io : Device D) (vol : Volume) (d : D) (dir : Place)
    (checkpoint : ChainCheckpoint) : Prop where
  recent : checkpoint.generation ≤ vol.traversalGeneration
  reached : vol.traversalReuseDisabled = false → dir.isFixedRoot = false →
    checkpoint.valid = true → checkpoint.generation = vol.traversalGeneration →
    checkpoint.startCluster = dir.startCluster →
    directoryWalk io vol d checkpoint.clusterIndex dir.startCluster = .ok (some checkpoint.cluster)

theorem ChainCheckpoint.Right.of_invalid {dir : Place} {checkpoint : ChainCheckpoint}
    (hrecent : checkpoint.generation ≤ vol.traversalGeneration) (h : checkpoint.valid = false) :
    checkpoint.Right io vol d dir where
  recent := hrecent
  reached := by
    intro _ _ hvalid
    rw [h] at hvalid
    cases hvalid

theorem directoryCheckpoint_right {dir : Node} {checkpoint : ChainCheckpoint} {index cluster : Nat}
    (h : checkpoint.Right io vol d dir.place)
    (hreach : directoryWalk io vol d index dir.startCluster = .ok (some cluster)) :
    (directoryCheckpoint vol dir checkpoint index cluster).Right io vol d dir.place := by
  unfold directoryCheckpoint
  split
  · exact .of_invalid h.recent rfl
  · exact ⟨le_rfl, fun _ _ _ _ _ => hreach⟩

theorem directoryWalk_checkpoint {dir : Node} {checkpoint : ChainCheckpoint} {target : Nat}
    (h : checkpoint.Right io vol d dir.place) (hroot : dir.isFixedRoot = false)
    (husable : checkpoint.usable vol dir target = true) :
    directoryWalk io vol d (target - checkpoint.clusterIndex) checkpoint.cluster =
      directoryWalk io vol d target dir.startCluster := by
  unfold ChainCheckpoint.usable at husable
  simp only [Bool.and_eq_true, Bool.not_eq_true', beq_iff_eq, decide_eq_true_eq] at husable
  obtain ⟨⟨⟨⟨⟨henabled, hvalid⟩, hgen⟩, hstart⟩, hle⟩, -⟩ := husable
  have hreach : directoryWalk io vol d checkpoint.clusterIndex dir.startCluster =
      .ok (some checkpoint.cluster) := h.reached henabled hroot hvalid hgen hstart
  have hsplit : directoryWalk io vol d
      (checkpoint.clusterIndex + (target - checkpoint.clusterIndex)) dir.startCluster = _ :=
    directoryWalk_add _ _ _
  rw [hreach, Nat.add_sub_cancel' hle] at hsplit
  exact hsplit.symm

theorem directorySector_plain {dir : Node} {checkpoint : ChainCheckpoint} (index : Nat)
    (h : checkpoint.Right io vol d dir.place) :
    match directorySector io vol d dir index checkpoint with
    | .error e => plainSector io vol d dir.place index = .error e
    | .ok (sector, next) =>
      plainSector io vol d dir.place index = .ok sector ∧ next.Right io vol d dir.place := by
  unfold plainSector directorySector
  dsimp only [Node.place]
  by_cases hroot : dir.isFixedRoot = true
  · simp only [hroot, if_true]
    refine ⟨trivial, ?_⟩
    simpa only [Node.place, hroot] using h
  have hwalk : directoryWalk io vol d
      (index / vol.sectorsPerCluster -
        if checkpoint.usable vol dir (index / vol.sectorsPerCluster) then checkpoint.clusterIndex
        else 0)
      (if checkpoint.usable vol dir (index / vol.sectorsPerCluster) then checkpoint.cluster
        else dir.startCluster) =
      directoryWalk io vol d (index / vol.sectorsPerCluster) dir.startCluster := by
    split
    · rename_i husable
      exact directoryWalk_checkpoint h (by simpa using hroot) husable
    · rfl
  simp only [hroot, Node.place, Bool.false_eq_true, if_false] at h ⊢
  by_cases hbound : vol.totalClusters ≤ index / vol.sectorsPerCluster
  · simp only [hbound, if_true]
  simp only [hbound, if_false]
  rw [hwalk]
  rcases hend : directoryWalk io vol d (index / vol.sectorsPerCluster) dir.startCluster with
    e | _ | cluster
  · rfl
  · exact ⟨rfl, h⟩
  · by_cases hvalid : vol.validCluster cluster = true
    · simp only [hvalid, Bool.not_true, Bool.false_eq_true, if_false]
      refine ⟨trivial, ?_⟩
      have hright : checkpoint.Right io vol d dir.place := by
        simpa only [Node.place, hroot] using h
      simpa only [Node.place, hroot] using directoryCheckpoint_right hright hend
    · simp only [hvalid, Bool.not_false, if_true]

theorem scanSector_plain {dir : Node} {chain : ChainCheckpoint} (search : Search) (c : Cursor)
    (h : chain.Right io vol d dir.place) : match scanSector io vol d search dir c chain with
    | .error e => plainRound io vol d search dir.place c = .error e
    | .ok (round, next) =>
      plainRound io vol d search dir.place c = .ok round ∧ next.Right io vol d dir.place := by
  have hsector := directorySector_plain c.sector h
  unfold scanSector plainRound
  rcases hd : directorySector io vol d dir c.sector chain with e | ⟨sector, next⟩
  · simp only [hd] at hsector
    simp only [hsector]
  · simp only [hd] at hsector
    simp only [hsector.1]
    rcases searchSector io vol d search c sector with e | round
    · rfl
    · exact ⟨rfl, hsector.2⟩

/-- The search from a right checkpoint is the search without one. -/
theorem scanSectors_plain {dir : Node} {chain : ChainCheckpoint} (search : Search) (left : Nat)
    (c : Cursor) (h : chain.Right io vol d dir.place) :
    match scanSectors io vol d search dir left c chain with
    | .error e => plainScan io vol d search dir.place left c = .error e
    | .ok (scan, next) =>
      plainScan io vol d search dir.place left c = .ok scan ∧ next.Right io vol d dir.place := by
  induction left generalizing c chain with
  | zero =>
    have hround := scanSector_plain search c h
    rw [scanSectors.eq_def, plainScan.eq_def]
    rcases hs : scanSector io vol d search dir c chain with e | ⟨scan | next, chain'⟩
    · simp only [hs] at hround ⊢
      simp only [hround]
    · simp only [hs] at hround ⊢
      simp only [hround.1]
      exact ⟨trivial, hround.2⟩
    · simp only [hs] at hround ⊢
      simp only [hround.1]
  | succ left ih =>
    have hround := scanSector_plain search c h
    rw [scanSectors.eq_def, plainScan.eq_def]
    rcases hs : scanSector io vol d search dir c chain with e | ⟨scan | next, chain'⟩
    · simp only [hs] at hround ⊢
      simp only [hround]
    · simp only [hs] at hround ⊢
      simp only [hround.1]
      exact ⟨trivial, hround.2⟩
    · simp only [hs] at hround ⊢
      simp only [hround.1]
      exact ih next hround.2

/-! ## Where an enumeration has stopped -/

theorem examine_enumerate (e : DirEntry) (seen : Nat) :
    (∀ n, (Search.enumerate n).examine e seen = .ended) ∨
      (∀ n, (Search.enumerate n).examine e seen = .longName) ∨
      (∀ n, (Search.enumerate n).examine e seen = .passed seen) ∨
      (∀ n, (Search.enumerate n).examine e seen =
        if seen = n then .found else .passed (seen + 1)) := by
  unfold Search.examine
  by_cases hend : e.first = 0
  · simp [hend]
  by_cases hlong : (!e.unused && e.isLongName) = true
  · simp [hend, hlong]
  by_cases hvisible : (!e.unused && !e.isVolumeId && e.first != 0x2E) = true
  · simp [hend, hlong, hvisible]
  · simp [hend, hlong, hvisible]

/-- The search for a later entry goes on where this one ended. -/
theorem scanSlots_found {sector : List UInt8} {left slot seen k slot' seen' : Nat}
    {long long' : Bool} (hseen : seen ≤ k)
    (h : scanSlots (.enumerate k) sector left slot seen long = .found slot' seen' long') :
    seen' = k ∧ slot ≤ slot' ∧ slot' < slot + left ∧
      ∀ m, k ≤ m → scanSlots (.enumerate m) sector left slot seen long =
        scanSlots (.enumerate m) sector (slot + left - slot') slot' k long' := by
  induction left generalizing slot seen long with
  | zero => cases h
  | succ left ih =>
    have hnext : slot + 1 + left = slot + (left + 1) := by omega
    have hlater {seen₁ : Nat} {long₁ : Bool} (hle : seen₁ ≤ k)
        (h₁ : scanSlots (.enumerate k) sector left (slot + 1) seen₁ long₁ =
          .found slot' seen' long')
        (hgo : ∀ m, k ≤ m → scanSlots (.enumerate m) sector (left + 1) slot seen long =
          scanSlots (.enumerate m) sector left (slot + 1) seen₁ long₁) :
        seen' = k ∧ slot ≤ slot' ∧ slot' < slot + (left + 1) ∧
          ∀ m, k ≤ m → scanSlots (.enumerate m) sector (left + 1) slot seen long =
            scanSlots (.enumerate m) sector (slot + (left + 1) - slot') slot' k long' := by
      obtain ⟨hk, hge, hlt, heq⟩ := ih hle h₁
      refine ⟨hk, by omega, by omega, ?_⟩
      intro m hm
      rw [hgo m hm, heq m hm, hnext]
    rw [scanSlots] at h
    rcases examine_enumerate (entryAt sector slot) seen with hx | hx | hx | hx
    · rw [hx k] at h
      cases h
    · rw [hx k] at h
      apply hlater hseen h
      intro m _
      rw [scanSlots, hx m]
    · rw [hx k] at h
      apply hlater hseen h
      intro m _
      rw [scanSlots, hx m]
    · rw [hx k] at h
      by_cases hk : seen = k
      · -- The entry itself: the later enumeration starts again on this very slot.
        rw [if_pos hk] at h
        cases h
        refine ⟨hk, le_rfl, by omega, ?_⟩
        intro m _
        rw [Nat.add_sub_cancel_left, hk]
      · rw [if_neg hk] at h
        apply hlater (by omega) h
        intro m hm
        rw [scanSlots, hx m, if_neg (by omega)]

/-- An enumeration that came to the end of the entries, or of the sector: so does every
other one for a number that has not been passed. -/
theorem scanSlots_passed {sector : List UInt8} {left slot seen k : Nat} {long : Bool}
    (hseen : seen ≤ k) : match scanSlots (.enumerate k) sector left slot seen long with
    | .found _ _ _ => True
    | .ended s => seen ≤ s ∧ s ≤ k ∧ ∀ m, s ≤ m →
        scanSlots (.enumerate m) sector left slot seen long = .ended s
    | .exhausted s l => seen ≤ s ∧ s ≤ k ∧ ∀ m, s ≤ m →
        scanSlots (.enumerate m) sector left slot seen long = .exhausted s l := by
  induction left generalizing slot seen long with
  | zero => exact ⟨le_rfl, hseen, fun _ _ => rfl⟩
  | succ left ih =>
    rw [scanSlots]
    rcases examine_enumerate (entryAt sector slot) seen with hx | hx | hx | hx
    · rw [hx k]
      refine ⟨le_rfl, hseen, ?_⟩
      intro m _
      rw [scanSlots, hx m]
    · simp only [scanSlots, hx]
      exact ih hseen
    · simp only [scanSlots, hx]
      exact ih hseen
    · rw [hx k]
      by_cases hk : seen = k
      · rw [if_pos hk]
        trivial
      rw [if_neg hk]
      have hrest := @ih (slot + 1) (seen + 1) false (by omega)
      dsimp only
      -- What the rest has seen is more than `seen`, so this entry is passed each time.
      have hgo : ∀ s m, seen + 1 ≤ s → s ≤ m →
          scanSlots (.enumerate m) sector (left + 1) slot seen long =
            scanSlots (.enumerate m) sector left (slot + 1) (seen + 1) false := by
        intro s m hs hm
        rw [scanSlots, hx m, if_neg (by omega)]
      rcases hscan : scanSlots (.enumerate k) sector left (slot + 1) (seen + 1) false with
        ⟨slot', seen', long'⟩ | s | ⟨s, l⟩
      · trivial
      · rw [hscan] at hrest
        obtain ⟨hle, hsk, heq⟩ := hrest
        refine ⟨by omega, hsk, ?_⟩
        intro m hm
        rw [hgo s m hle hm, heq m hm]
      · rw [hscan] at hrest
        obtain ⟨hle, hsk, heq⟩ := hrest
        refine ⟨by omega, hsk, ?_⟩
        intro m hm
        rw [hgo s m hle hm, heq m hm]

theorem searchSector_found {c : Cursor} {sector k seen : Nat} {location : EntryLocation}
    (hseen : c.seen ≤ k)
    (h : searchSector io vol d (.enumerate k) c sector = .ok (.inl (.found location seen))) :
    seen = k ∧ location.directorySector = c.sector ∧
      ∀ m, k ≤ m → searchSector io vol d (.enumerate m) c sector =
        searchSector io vol d (.enumerate m) ⟨c.sector, location.slot, k, location.longName⟩
          sector := by
  unfold searchSector at h ⊢
  by_cases hzero : sector = 0
  · simp only [hzero] at h
    cases h
  simp only [hzero] at h ⊢
  rcases hread : io.read d (sector * vol.bytesPerSector) vol.bytesPerSector with e | data
  · rw [hread] at h
    cases h
  rw [hread] at h
  dsimp only at h ⊢
  by_cases hlen : data.length ≠ vol.bytesPerSector
  · rw [if_pos hlen] at h
    cases h
  simp only [hlen, if_false] at h ⊢
  rcases hscan : scanSlots (.enumerate k) data (vol.bytesPerSector / dirEntrySize - c.slot) c.slot
      c.seen c.longName with ⟨slot', seen', long'⟩ | s | ⟨s, l⟩
  · rw [hscan] at h
    cases h
    obtain ⟨hk, hge, hlt, heq⟩ := scanSlots_found hseen hscan
    refine ⟨hk, rfl, ?_⟩
    intro m hm
    rw [heq m hm]
    rw [show c.slot + (vol.bytesPerSector / dirEntrySize - c.slot) - slot' =
      vol.bytesPerSector / dirEntrySize - slot' by omega]
  · rw [hscan] at h
    cases h
  · rw [hscan] at h
    cases h

/-- What a round for `k` that found nothing says about the round for every other number. -/
def Passed (k start : Nat) (other : Nat → Except KernelError (Scan ⊕ Cursor)) :
    Except KernelError (Scan ⊕ Cursor) → Prop
  | .error e => ∀ m, other m = .error e
  | .ok (.inl (.found _ _)) => True
  | .ok (.inl (.ended s)) => start ≤ s ∧ s ≤ k ∧ ∀ m, s ≤ m → other m = .ok (.inl (.ended s))
  | .ok (.inr c) => start ≤ c.seen ∧ c.seen ≤ k ∧ ∀ m, c.seen ≤ m → other m = .ok (.inr c)

theorem searchSector_passed {c : Cursor} {k : Nat} (sector : Nat) (hseen : c.seen ≤ k) :
    Passed k c.seen (fun m => searchSector io vol d (.enumerate m) c sector)
      (searchSector io vol d (.enumerate k) c sector) := by
  unfold searchSector
  by_cases hzero : sector = 0
  · simp only [hzero]
    exact ⟨le_rfl, hseen, fun _ _ => rfl⟩
  simp only [hzero]
  rcases io.read d (sector * vol.bytesPerSector) vol.bytesPerSector with e | data
  · exact fun _ => rfl
  dsimp only
  by_cases hlen : data.length ≠ vol.bytesPerSector
  · rw [if_pos hlen]
    exact fun _ => if_pos hlen
  simp only [hlen, if_false]
  have hslots := @scanSlots_passed data (vol.bytesPerSector / dirEntrySize - c.slot) c.slot c.seen k
    c.longName hseen
  rcases hscan : scanSlots (.enumerate k) data (vol.bytesPerSector / dirEntrySize - c.slot) c.slot
      c.seen c.longName with ⟨slot', seen', long'⟩ | s | ⟨s, l⟩
  · trivial
  · rw [hscan] at hslots
    obtain ⟨hle, hsk, heq⟩ := hslots
    refine ⟨hle, hsk, ?_⟩
    intro m hm
    simp only [heq m hm]
  · rw [hscan] at hslots
    obtain ⟨hle, hsk, heq⟩ := hslots
    refine ⟨hle, hsk, ?_⟩
    intro m hm
    simp only [heq m hm]

theorem plainRound_passed {c : Cursor} {k : Nat} (io : Device D) (vol : Volume) (d : D)
    (dir : Place)
    (hseen : c.seen ≤ k) : Passed k c.seen (fun m => plainRound io vol d (.enumerate m) dir c)
      (plainRound io vol d (.enumerate k) dir c) := by
  unfold plainRound
  rcases plainSector io vol d dir c.sector with e | sector
  · exact fun _ => rfl
  · exact searchSector_passed sector hseen

theorem plainRound_next {search : Search} {dir : Place} {c c' : Cursor}
    (h : plainRound io vol d search dir c = .ok (.inr c')) : c'.sector = c.sector + 1 := by
  unfold plainRound at h
  rcases hsector : plainSector io vol d dir c.sector with e | sector
  · rw [hsector] at h
    cases h
  · rw [hsector] at h
    dsimp only at h
    unfold searchSector at h
    split at h
    · cases h
    · split at h
      · cases h
      · split at h
        · cases h
        · split at h
          · cases h
          · cases h
          · cases h
            rfl

theorem plainRound_found {dir : Place} {c : Cursor} {k seen : Nat} {location : EntryLocation}
    (hseen : c.seen ≤ k)
    (h : plainRound io vol d (.enumerate k) dir c = .ok (.inl (.found location seen))) :
    seen = k ∧ location.directorySector = c.sector ∧
      ∀ m, k ≤ m → plainRound io vol d (.enumerate m) dir c =
        plainRound io vol d (.enumerate m) dir ⟨c.sector, location.slot, k, location.longName⟩ := by
  unfold plainRound at h ⊢
  rcases hsector : plainSector io vol d dir c.sector with e | sector
  · rw [hsector] at h
    cases h
  · rw [hsector] at h
    exact searchSector_found hseen h

theorem plainScan_congr {search : Search} {dir : Place} {left : Nat} {c c' : Cursor}
    (h : plainRound io vol d search dir c = plainRound io vol d search dir c') :
    plainScan io vol d search dir left c = plainScan io vol d search dir left c' := by
  rw [plainScan.eq_def, plainScan.eq_def]
  simp only [h]

theorem plainScan_next {search : Search} {dir : Place} {left : Nat} {c c' : Cursor}
    (h : plainRound io vol d search dir c = .ok (.inr c')) :
    plainScan io vol d search dir (left + 1) c = plainScan io vol d search dir left c' := by
  rw [plainScan.eq_def]
  simp only [h]

theorem plainScan_done {search : Search} {dir : Place} {left : Nat} {c : Cursor} {scan : Scan}
    (h : plainRound io vol d search dir c = .ok (.inl scan)) :
    plainScan io vol d search dir left c = .ok scan := by
  rw [plainScan.eq_def]
  simp only [h]

theorem plainScan_cases {search : Search} {dir : Place} {left : Nat} {c : Cursor} {scan : Scan}
    (h : plainScan io vol d search dir left c = .ok scan) :
    plainRound io vol d search dir c = .ok (.inl scan) ∨
      ∃ rest c', left = rest + 1 ∧ plainRound io vol d search dir c = .ok (.inr c') ∧
        plainScan io vol d search dir rest c' = .ok scan := by
  rw [plainScan.eq_def] at h
  rcases hround : plainRound io vol d search dir c with e | scan' | c'
  · simp only [hround] at h
    cases h
  · simp only [hround] at h
    cases h
    exact .inl rfl
  · simp only [hround] at h
    cases left with
    | zero => cases h
    | succ rest => exact .inr ⟨rest, c', rfl, rfl, h⟩

/-- A search for a later entry can start at an entry that was found. -/
theorem plainScan_resume {dir : Place} {left k seen : Nat} {c : Cursor} {location : EntryLocation}
    (hseen : c.seen ≤ k)
    (h : plainScan io vol d (.enumerate k) dir left c = .ok (.found location seen)) :
    seen = k ∧ c.sector ≤ location.directorySector ∧
      ∀ m, k ≤ m → plainScan io vol d (.enumerate m) dir left c =
        plainScan io vol d (.enumerate m) dir (left - (location.directorySector - c.sector))
          ⟨location.directorySector, location.slot, k, location.longName⟩ := by
  induction left generalizing c with
  | zero =>
    rcases plainScan_cases h with hround | ⟨_, _, habsurd, _⟩
    · obtain ⟨hk, hsector, heq⟩ := plainRound_found hseen hround
      refine ⟨hk, hsector.ge, ?_⟩
      intro m hm
      rw [hsector, Nat.sub_self]
      exact plainScan_congr (heq m hm)
    · cases habsurd
  | succ left ih =>
    rcases plainScan_cases h with hround | ⟨rest, c', hleft, hround, hrest⟩
    · obtain ⟨hk, hsector, heq⟩ := plainRound_found hseen hround
      refine ⟨hk, hsector.ge, ?_⟩
      intro m hm
      rw [hsector, Nat.sub_self]
      exact plainScan_congr (heq m hm)
    · cases hleft
      have hpassed := plainRound_passed io vol d dir hseen
      rw [hround] at hpassed
      obtain ⟨-, hle, hsame⟩ := hpassed
      have hsector := plainRound_next hround
      obtain ⟨hk, hge, heq⟩ := ih hle hrest
      refine ⟨hk, by omega, ?_⟩
      intro m hm
      rw [plainScan_next (hsame m (by omega)), heq m hm]
      congr 1
      omega

/-- A search that ended has counted the entries: no later number is there. -/
theorem plainScan_ended {dir : Place} {left k s : Nat} {c : Cursor} (hseen : c.seen ≤ k)
    (h : plainScan io vol d (.enumerate k) dir left c = .ok (.ended s)) : c.seen ≤ s ∧
      ∀ m, s ≤ m → plainScan io vol d (.enumerate m) dir left c = .ok (.ended s) := by
  induction left generalizing c with
  | zero =>
    have hpassed := plainRound_passed io vol d dir hseen
    rcases plainScan_cases h with hround | ⟨_, _, habsurd, _⟩
    · rw [hround] at hpassed
      exact ⟨hpassed.1, fun m hm => plainScan_done (hpassed.2.2 m hm)⟩
    · cases habsurd
  | succ left ih =>
    have hpassed := plainRound_passed io vol d dir hseen
    rcases plainScan_cases h with hround | ⟨rest, c', hleft, hround, hrest⟩
    · rw [hround] at hpassed
      exact ⟨hpassed.1, fun m hm => plainScan_done (hpassed.2.2 m hm)⟩
    · cases hleft
      rw [hround] at hpassed
      obtain ⟨hstart, hle, hsame⟩ := hpassed
      obtain ⟨hge, heq⟩ := ih hle hrest
      refine ⟨by omega, ?_⟩
      intro m hm
      rw [plainScan_next (hsame m (by omega)), heq m hm]

/-- A search that does not find its entry goes like the search for every later one. -/
theorem plainScan_later {dir : Place} {left k m : Nat} {c : Cursor} (hseen : c.seen ≤ k)
    (hm : k ≤ m) :
    (∃ location seen, plainScan io vol d (.enumerate k) dir left c = .ok (.found location seen)) ∨
      plainScan io vol d (.enumerate m) dir left c =
        plainScan io vol d (.enumerate k) dir left c := by
  have hpassed := plainRound_passed io vol d dir hseen
  rcases hround : plainRound io vol d (.enumerate k) dir c with e | (⟨location, seen⟩ | s) | c'
  all_goals rw [hround] at hpassed
  · refine .inr ?_
    rw [plainScan.eq_def, plainScan.eq_def]
    simp only [hround, hpassed m]
  · exact .inl ⟨location, seen, plainScan_done hround⟩
  · refine .inr ?_
    rw [plainScan_done hround, plainScan_done (hpassed.2.2 m (hpassed.2.1.trans hm))]
  · have hsame := hpassed.2.2 m (hpassed.2.1.trans hm)
    cases left with
    | zero =>
      refine .inr ?_
      rw [plainScan.eq_def, plainScan.eq_def]
      simp only [hround, hsame]
    | succ left =>
      rw [plainScan_next hround, plainScan_next hsame]
      exact plainScan_later hpassed.2.1 hm

end

end UnDOS.Fat
