import Mathlib.Data.List.Nodup
import Mathlib.Data.List.Pairwise
import UnDOS.Hive.Layout

/-!
# The Coherence Invariant

`Coherent chain h` relates the resident index of a hive to its file: every live
entry is stored in its own slot, every other slot is empty, and the bytes of every
value lie in the data region behind the entry's own block pair, away from all other
values.
-/

namespace UnDOS.Hive

open UnDOS.Lib UnDOS.Kernel

/-! ## Data regions -/

/-- One past the last byte of an entry's value. -/
def Root.dataEnd (r : Root) : Nat := r.offset.toNat + r.length.toNat

private theorem le_foldl_dataEnd (b : Nat) (roots : List Root) (init : Nat) :
    init ≤ roots.foldl (fun fin entry =>
      if entry.indexBlockOffset.toNat ≠ b then fin
      else if fin < entry.offset.toNat + entry.length.toNat then
        entry.offset.toNat + entry.length.toNat else fin) init := by
  induction roots generalizing init with
  | nil => exact le_rfl
  | cons r roots ih =>
    simp only [List.foldl_cons]
    refine le_trans ?_ (ih _)
    split
    · exact le_rfl
    · split <;> omega

theorem pair_le_computeDataRegionEnd (roots : List Root) (b : Nat) :
    b + blockPairBytes ≤ computeDataRegionEnd roots b :=
  le_foldl_dataEnd b roots _

private theorem mem_le_foldl_dataEnd (b : Nat) {roots : List Root} {r : Root} (hr : r ∈ roots)
    (hb : r.indexBlockOffset.toNat = b) (init : Nat) : r.dataEnd ≤ roots.foldl (fun fin entry =>
      if entry.indexBlockOffset.toNat ≠ b then fin
      else if fin < entry.offset.toNat + entry.length.toNat then
        entry.offset.toNat + entry.length.toNat else fin) init := by
  induction roots generalizing init with
  | nil => cases hr
  | cons s roots ih =>
    simp only [List.foldl_cons]
    rcases List.mem_cons.mp hr with rfl | hmem
    · refine le_trans ?_ (le_foldl_dataEnd b roots _)
      rw [if_neg (by simpa using hb)]
      unfold Root.dataEnd
      split <;> omega
    · exact ih hmem _

theorem dataEnd_le_computeDataRegionEnd {roots : List Root} {r : Root} (hr : r ∈ roots) :
    r.dataEnd ≤ computeDataRegionEnd roots r.indexBlockOffset.toNat :=
  mem_le_foldl_dataEnd _ hr rfl _

theorem computeDataRegionEnd_eq_of_empty {roots : List Root} {b : Nat}
    (h : ∀ r ∈ roots, r.indexBlockOffset.toNat = b → r.dataEnd ≤ b + blockPairBytes) :
    computeDataRegionEnd roots b = b + blockPairBytes := by
  unfold computeDataRegionEnd
  induction roots with
  | nil => rfl
  | cons r roots ih =>
    have hrest := ih fun s hs => h s (.tail _ hs)
    simp only [List.foldl_cons]
    by_cases hb : r.indexBlockOffset.toNat = b
    · have hr := h r (.head _) hb
      unfold Root.dataEnd at hr
      rw [if_neg (by simpa using hb), if_neg (by omega)]
      exact hrest
    · rw [if_pos hb]
      exact hrest

/-! ## The invariant -/

/-- The bytes of two values do not meet. -/
def Root.Apart (r s : Root) : Prop :=
  r.length = 0 ∨ s.length = 0 ∨ r.dataEnd ≤ s.offset.toNat ∨ s.dataEnd ≤ r.offset.toNat

theorem Root.Apart.symm {r s : Root} (h : r.Apart s) : s.Apart r := by
  unfold Root.Apart at *
  tauto

/-- The entry lives in slot `i` of the block at `b`. -/
structure Root.At (r : Root) (b i : Nat) : Prop where
  block : r.indexBlockOffset.toNat = b
  slot : r.indexEntryOffset.toNat = indexSlotOffset b i

/-- What one live entry of a hive with the blocks `chain` satisfies by itself. -/
structure Root.Sound (chain : List Nat) (size : Nat) (r : Root) : Prop where
  placed : ∃ b ∈ chain, ∃ i < entriesPerIndexBlock, r.At b i
  hashed : r.keyHash ≠ 0
  nameIndex : r.nameEntryIndex = noNameEntry ∨ r.nameEntryIndex.toNat < entriesPerNameBlock
  /-- A value starts behind its block pair and ends before every later one. -/
  data : r.length ≠ 0 → r.indexBlockOffset.toNat + blockPairBytes ≤ r.offset.toNat ∧
    r.dataEnd ≤ size ∧ ∀ b ∈ chain, r.indexBlockOffset.toNat < b → r.dataEnd ≤ b

/-- The resident index and the file of `h` describe the same entries. -/
structure Coherent (chain : List Nat) (h : KConfigurationRoot) : Prop where
  layout : Layout chain h
  loaded : h.indexLoaded = true
  sound : ∀ r ∈ h.roots, r.Sound chain h.file.size
  stored : ∀ r ∈ h.roots,
    readAt h.file.bytes r.indexEntryOffset.toNat 32 = r.onDisk.encode
  vacant : ∀ b ∈ chain, ∀ i < entriesPerIndexBlock,
    (∀ r ∈ h.roots, r.indexEntryOffset.toNat ≠ indexSlotOffset b i) →
      wordAt h.file.bytes (indexSlotOffset b i) 8 = 0
  nodup : h.roots.Nodup
  slots : ∀ r ∈ h.roots, ∀ s ∈ h.roots, r.indexEntryOffset = s.indexEntryOffset → r = s
  identified : ∀ r ∈ h.roots, ∀ s ∈ h.roots,
    r.keyHash = s.keyHash → r.parentHash = s.parentHash → r = s
  apart : ∀ r ∈ h.roots, ∀ s ∈ h.roots, r ≠ s → r.Apart s

/-! ## Geometry of the block chain -/

theorem indexSlotOffset_bounds {b i : Nat} (hi : i < entriesPerIndexBlock) :
    b + 8 ≤ indexSlotOffset b i ∧ indexSlotOffset b i + 32 ≤ b + blockBytes := by
  simp only [entriesPerIndexBlock, indexSlotOffset, blockBytes] at *
  omega

theorem nameSlotOffset_bounds {b i : Nat} (hi : i < entriesPerNameBlock) :
    b + blockBytes ≤ nameSlotOffset b i ∧ nameSlotOffset b i + 72 ≤ b + blockPairBytes := by
  simp only [entriesPerNameBlock, nameSlotOffset, pairedNameBlockOffset, blockBytes,
    blockPairBytes] at *
  omega

namespace Layout

variable {chain : List Nat} {h : KConfigurationRoot}

theorem eq_or_spaced (L : Layout chain h) {b b' : Nat} (hb : b ∈ chain) (hb' : b' ∈ chain) :
    b = b' ∨ b + blockPairBytes ≤ b' ∨ b' + blockPairBytes ≤ b := by
  let R : Nat → Nat → Prop := fun x y =>
    x = y ∨ x + blockPairBytes ≤ y ∨ y + blockPairBytes ≤ x
  have hsymm : Std.Symm R := ⟨by intro x y; simp only [R]; tauto⟩
  have hp : chain.Pairwise R := L.spaced.imp fun hxy => .inr (.inl hxy)
  exact hp.forall_of_forall (fun x _ => .inl rfl) hb hb'

theorem slot_inj (L : Layout chain h) {b b' i i' : Nat} (hb : b ∈ chain) (hb' : b' ∈ chain)
    (hi : i < entriesPerIndexBlock) (hi' : i' < entriesPerIndexBlock)
    (heq : indexSlotOffset b i = indexSlotOffset b' i') : b = b' ∧ i = i' := by
  have hsp := L.eq_or_spaced hb hb'
  simp only [indexSlotOffset, blockPairBytes, entriesPerIndexBlock] at *
  omega

theorem slot_disjoint (L : Layout chain h) {b b' i i' : Nat} (hb : b ∈ chain) (hb' : b' ∈ chain)
    (hi : i < entriesPerIndexBlock) (hi' : i' < entriesPerIndexBlock)
    (hne : indexSlotOffset b i ≠ indexSlotOffset b' i') :
    indexSlotOffset b i + 32 ≤ indexSlotOffset b' i' ∨
      indexSlotOffset b' i' + 32 ≤ indexSlotOffset b i := by
  have hsp := L.eq_or_spaced hb hb'
  simp only [indexSlotOffset, blockPairBytes, entriesPerIndexBlock] at *
  omega

theorem wrote (L : Layout chain h) {o : Nat} {d : List UInt8} (hoff : headerBytes ≤ o)
    (hout : ∀ b ∈ chain, b + 4 ≤ o ∨ o + d.length ≤ b) : Layout chain (h.wrote o d) where
  faults := L.faults
  header := by
    rw [wrote_bytes, readAt_writeAt_of_disjoint (.inl (by simpa using hoff))]
    exact L.header
  head := L.head
  linked := by
    apply L.linked.congr
    intro b hb
    exact wordAt_writeAt_of_disjoint (hout b hb)
  spaced := L.spaced
  inFile := fun b hb => le_trans (L.inFile b hb) (size_le_wrote h o d)
  inRange := L.inRange

theorem congr (L : Layout chain h) {h' : KConfigurationRoot} (hfile : h'.file = h.file) :
    Layout chain h' where
  faults := by rw [hfile]; exact L.faults
  header := by rw [hfile]; exact L.header
  head := L.head
  linked := by rw [hfile]; exact L.linked
  spaced := L.spaced
  inFile := by rw [hfile]; exact L.inFile
  inRange := L.inRange

end Layout

/-! ## Writes outside the INDEX BLOCKs -/

namespace Root.Sound

variable {chain : List Nat} {size : Nat} {r : Root}

theorem mono {size' : Nat} (S : r.Sound chain size) (hsize : size ≤ size') :
    r.Sound chain size' where
  placed := S.placed
  hashed := S.hashed
  nameIndex := S.nameIndex
  data := by
    intro hlen
    obtain ⟨hstart, hend, hnext⟩ := S.data hlen
    exact ⟨hstart, le_trans hend hsize, hnext⟩

theorem block_mem (S : r.Sound chain size) : r.indexBlockOffset.toNat ∈ chain := by
  obtain ⟨b, hb, i, hi, hat⟩ := S.placed
  rw [hat.block]
  exact hb

end Root.Sound

namespace Coherent

variable {chain : List Nat} {h : KConfigurationRoot}

theorem congr (C : Coherent chain h) {h' : KConfigurationRoot} (hfile : h'.file = h.file)
    (hroots : h'.roots = h.roots) (hloaded : h'.indexLoaded = h.indexLoaded) :
    Coherent chain h' where
  layout := C.layout.congr hfile
  loaded := by rw [hloaded]; exact C.loaded
  sound := by rw [hfile, hroots]; exact C.sound
  stored := by rw [hfile, hroots]; exact C.stored
  vacant := by rw [hfile, hroots]; exact C.vacant
  nodup := by rw [hroots]; exact C.nodup
  slots := by rw [hroots]; exact C.slots
  identified := by rw [hroots]; exact C.identified
  apart := by rw [hroots]; exact C.apart

theorem exists_at (C : Coherent chain h) {r : Root} (hr : r ∈ h.roots) :
    ∃ b ∈ chain, ∃ i < entriesPerIndexBlock, r.At b i :=
  (C.sound r hr).placed

/-- Names and values can be written without touching any entry. -/
theorem wrote_outside (C : Coherent chain h) {off : Nat} {data : List UInt8}
    (hoff : headerBytes ≤ off) (hout : ∀ b ∈ chain, b + blockBytes ≤ off ∨ off + data.length ≤ b) :
    Coherent chain (h.wrote off data) where
  layout := by
    apply C.layout.wrote hoff
    intro b hb
    have hb' := hout b hb
    simp only [blockBytes] at hb'
    omega
  loaded := C.loaded
  sound := fun r hr => (C.sound r hr).mono (size_le_wrote h off data)
  stored := by
    intro r hr
    obtain ⟨b, hb, i, hi, hat⟩ := C.exists_at hr
    have hbounds := indexSlotOffset_bounds (b := b) hi
    have hb' := hout b hb
    rw [wrote_bytes, readAt_writeAt_of_disjoint (by rw [hat.slot]; omega)]
    exact C.stored r hr
  vacant := by
    intro b hb i hi hfree
    have hbounds := indexSlotOffset_bounds (b := b) hi
    have hb' := hout b hb
    rw [wrote_bytes, wordAt_writeAt_of_disjoint (by omega)]
    exact C.vacant b hb i hi hfree
  nodup := C.nodup
  slots := C.slots
  identified := C.identified
  apart := C.apart

theorem wrote_name (C : Coherent chain h) {b slot : Nat} {data : List UInt8} (hb : b ∈ chain)
    (hslot : slot < entriesPerNameBlock) (hdata : data.length = 72) :
    Coherent chain (h.wrote (nameSlotOffset b slot) data) := by
  have hbounds := nameSlotOffset_bounds (b := b) hslot
  have hhead := C.layout.header_le hb
  simp only [headerBytes] at hbounds hhead
  apply C.wrote_outside
  · simp only [headerBytes]
    omega
  · intro b' hb'
    have hsp := C.layout.eq_or_spaced hb hb'
    omega

/-! ## Rewriting one slot -/

/-- What the entry `r` must satisfy to take slot `i` of the block at `b` next to `others`. -/
structure Admits (chain : List Nat) (size b i : Nat) (others : List Root) (r : Root) : Prop where
  at_slot : r.At b i
  sound : r.Sound chain size
  fresh : ∀ s ∈ others, ¬ (r.keyHash = s.keyHash ∧ r.parentHash = s.parentHash)
  apart : ∀ s ∈ others, r.Apart s

/-- One slot and the entry that lives in it change together; `old` and `new` are
    absent when the entry is created or deleted. -/
theorem rewriteSlot (C : Coherent chain h) {h' : KConfigurationRoot} (pre post : List Root)
    (old new : Option Root) {b i : Nat} {data : List UInt8}
    (hroots : h.roots = pre ++ (old.toList ++ post))
    (hroots' : h'.roots = pre ++ (new.toList ++ post))
    (hfile : h'.file = (h.wrote (indexSlotOffset b i) data).file)
    (hloaded : h'.indexLoaded = h.indexLoaded) (hb : b ∈ chain) (hi : i < entriesPerIndexBlock)
    (hold : ∀ r ∈ old, r.indexEntryOffset.toNat = indexSlotOffset b i)
    (hothers : ∀ r ∈ pre ++ post, r.indexEntryOffset.toNat ≠ indexSlotOffset b i)
    (hdata : data.length = 32) (hempty : new = none → leNat (data.take 8) = 0)
    (henc : ∀ r ∈ new, data = r.onDisk.encode)
    (hnew : ∀ r ∈ new, Admits chain h.file.size b i (pre ++ post) r) : Coherent chain h' := by
  have hmem : ∀ r, r ∈ pre ++ post → r ∈ h.roots := by
    intro r hr
    rw [hroots]
    simp only [List.mem_append] at hr ⊢
    tauto
  have hmem' : ∀ r, r ∈ h'.roots ↔ r ∈ pre ++ post ∨ r ∈ new := by
    rw [hroots']
    simp only [List.mem_append, Option.mem_toList]
    tauto
  have hsize : h.file.size ≤ h'.file.size := by
    rw [hfile]
    exact size_le_wrote h _ data
  have hbytes : h'.file.bytes = writeAt h.file.bytes (indexSlotOffset b i) data := by
    rw [hfile]
    rfl
  have hbounds := indexSlotOffset_bounds (b := b) hi
  have hhead := C.layout.header_le hb
  -- The slot the new entry takes is used by no other entry.
  have hslot : ∀ r ∈ pre ++ post, ∀ s ∈ new, r.indexEntryOffset ≠ s.indexEntryOffset := by
    intro r hr s hs heq
    apply hothers r hr
    rw [heq, (hnew s hs).at_slot.slot]
  refine ⟨?_, hloaded.trans C.loaded, ?_, ?_, ?_, ?_, ?_, ?_, ?_⟩
  case refine_1 =>
    refine (C.layout.wrote (o := indexSlotOffset b i) (d := data) ?_ ?_).congr hfile
    · omega
    · intro b' hb'
      have hsp := C.layout.eq_or_spaced hb hb'
      simp only [blockBytes, blockPairBytes] at *
      omega
  case refine_2 =>
    intro r hr
    rcases (hmem' r).mp hr with hr | hr
    · exact (C.sound r (hmem r hr)).mono hsize
    · exact (hnew r hr).sound.mono hsize
  case refine_3 =>
    intro r hr
    rw [hbytes]
    rcases (hmem' r).mp hr with hr | hr
    · obtain ⟨b', hb', i', hi', hat⟩ := C.exists_at (hmem r hr)
      have hne := hothers r hr
      rw [hat.slot] at hne
      have hdis := C.layout.slot_disjoint hb' hb hi' hi hne
      rw [readAt_writeAt_of_disjoint (by rw [hat.slot, hdata]; exact hdis)]
      exact C.stored r (hmem r hr)
    · rw [(hnew r hr).at_slot.slot, ← henc r hr, ← hdata]
      exact readAt_writeAt_self _ _ _
  case refine_4 =>
    intro b' hb' i' hi' hfree
    rw [hbytes]
    by_cases heq : indexSlotOffset b' i' = indexSlotOffset b i
    · -- The rewritten slot is only free when no entry took it.
      have hnone : new = none := by
        cases hn : new with
        | none => rfl
        | some r =>
          have hr : r ∈ new := by rw [hn]; rfl
          exact absurd ((hnew r hr).at_slot.slot.trans heq.symm) (hfree r ((hmem' r).mpr (.inr hr)))
      have hwin := readAt_writeAt_window (m := h.file.bytes) (o := indexSlotOffset b i)
        (k := 0) (n := 8) (d := data) (by omega)
      rw [add_zero] at hwin
      rw [heq, wordAt, hwin]
      exact hempty hnone
    · have hdis := C.layout.slot_disjoint hb' hb hi' hi heq
      rw [wordAt_writeAt_of_disjoint (by rw [hdata]; omega)]
      apply C.vacant b' hb' i' hi'
      intro r hr
      rw [hroots] at hr
      simp only [List.mem_append, Option.mem_toList] at hr
      by_cases ho : r ∈ old
      · rw [hold r ho]
        exact fun hc => heq hc.symm
      · apply hfree r
        rw [hmem' r, List.mem_append]
        tauto
  case refine_5 =>
    have hnd := C.nodup
    rw [hroots] at hnd
    rw [hroots']
    have hsub : (pre ++ post).Nodup :=
      List.Nodup.sublist ((List.Sublist.refl pre).append (List.sublist_append_right _ _)) hnd
    cases hn : new with
    | none => simpa using hsub
    | some r =>
      simp only [Option.toList_some, List.cons_append]
      rw [List.nodup_middle, List.nodup_cons]
      have hr : r ∈ new := by rw [hn]; rfl
      exact ⟨fun hin => hslot r hin r hr rfl, hsub⟩
  case refine_6 =>
    intro r hr s hs heq
    rcases (hmem' r).mp hr with hr | hr <;> rcases (hmem' s).mp hs with hs | hs
    · exact C.slots r (hmem r hr) s (hmem s hs) heq
    · exact absurd heq (hslot r hr s hs)
    · exact absurd heq.symm (hslot s hs r hr)
    · exact Option.mem_unique hr hs
  case refine_7 =>
    intro r hr s hs hk hp
    rcases (hmem' r).mp hr with hr | hr <;> rcases (hmem' s).mp hs with hs | hs
    · exact C.identified r (hmem r hr) s (hmem s hs) hk hp
    · exact absurd ⟨hk.symm, hp.symm⟩ ((hnew s hs).fresh r hr)
    · exact absurd ⟨hk, hp⟩ ((hnew r hr).fresh s hs)
    · exact Option.mem_unique hr hs
  case refine_8 =>
    intro r hr s hs hne
    rcases (hmem' r).mp hr with hr | hr <;> rcases (hmem' s).mp hs with hs | hs
    · exact C.apart r (hmem r hr) s (hmem s hs) hne
    · exact ((hnew s hs).apart r hr).symm
    · exact (hnew r hr).apart s hs
    · exact absurd (Option.mem_unique hr hs) hne

/-! ## Appending a block pair -/

private theorem drop_flatten_replicate (x : List UInt8) (k n : Nat) :
    ((List.replicate (k + n) x).flatten).drop (k * x.length) = (List.replicate n x).flatten := by
  induction k with
  | zero => simp
  | succ k ih =>
    rw [show k + 1 + n = (k + n) + 1 by omega, List.replicate_succ, List.flatten_cons,
      Nat.succ_mul, add_comm, ← List.drop_drop, List.drop_left' rfl]
    exact ih

theorem freshIndexBlock_slot {i : Nat} (hi : i < entriesPerIndexBlock) :
    leNat ((freshIndexBlock.drop (8 + i * 32)).take 8) = 0 := by
  have hdrop := drop_flatten_replicate
    (ConfigurationIndexEntry.encode { keyHash := 0, parentHash := 0 }) i
    (entriesPerIndexBlock - i)
  rw [ConfigurationIndexEntry.encode_length, show i + (entriesPerIndexBlock - i) =
    entriesPerIndexBlock by omega] at hdrop
  obtain ⟨n, hn⟩ : ∃ n, entriesPerIndexBlock - i = n + 1 := ⟨entriesPerIndexBlock - i - 1, by omega⟩
  rw [freshIndexBlock, ← List.drop_drop, List.drop_left' (by simp), List.drop_append_of_le_length
    (by simp only [List.length_flatten, List.map_replicate, List.sum_replicate_nat,
      ConfigurationIndexEntry.encode_length]; omega), hdrop, hn, List.replicate_succ,
    List.flatten_cons, List.append_assoc, List.take_append_of_le_length (by simp)]
  exact ConfigurationIndexEntry.encode_take_keyHash _

theorem freshIndexBlock_next : leNat (freshIndexBlock.take 4) = 0 := by
  decide

theorem linked_append {m : ByteStore} {chain : List Nat} {last e : Nat} (hl : Linked m chain)
    (hlast : chain.getLast? = some last) (hsp : chain.Pairwise fun b b' => b + blockPairBytes ≤ b')
    (he : last + blockPairBytes ≤ e) (h32 : e < 2 ^ 32) (hend : wordAt m e 4 = 0) :
    Linked (writeAt m last (leBytes 4 e)) (chain ++ [e]) := by
  induction chain with
  | nil => cases hlast
  | cons b rest ih =>
    cases rest with
    | nil =>
      simp only [List.getLast?_singleton, Option.some.injEq] at hlast
      subst hlast
      constructor
      · rw [wordAt_writeAt_self]
        exact Nat.mod_eq_of_lt (by simpa using h32)
      · show wordAt _ e 4 = 0
        simp only [blockPairBytes] at he
        rw [wordAt_writeAt_of_disjoint (by rw [leBytes_length]; omega)]
        exact hend
    | cons b' rest =>
      rw [List.pairwise_cons] at hsp
      have hmem : last ∈ b' :: rest := List.mem_of_getLast? hlast
      have hblast := hsp.1 last hmem
      simp only [blockPairBytes] at hblast
      refine ⟨?_, ih hl.2 hlast hsp.2⟩
      rw [wordAt_writeAt_of_disjoint (by rw [leBytes_length]; omega)]
      exact hl.1

theorem le_of_getLast (C : Coherent chain h) {last b : Nat} (hlast : chain.getLast? = some last)
    (hb : b ∈ chain) : b = last ∨ b + blockPairBytes ≤ last := by
  obtain ⟨init, rfl⟩ := List.getLast?_eq_some_iff.mp hlast
  rcases List.mem_append.mp hb with hinit | hend
  · exact .inr ((List.pairwise_append.mp C.layout.spaced).2.2 b hinit last (by simp))
  · exact .inl (by simpa using hend)

theorem dataEnd_le_last (C : Coherent chain h) {last : Nat} (hlast : chain.getLast? = some last)
    {r : Root} (hr : r ∈ h.roots) (hlen : r.length ≠ 0) :
    r.dataEnd ≤ computeDataRegionEnd h.roots last := by
  have S := C.sound r hr
  rcases C.le_of_getLast hlast S.block_mem with heq | hlt
  · rw [← heq]
    exact dataEnd_le_computeDataRegionEnd hr
  · have hend := (S.data hlen).2.2 last (List.mem_of_getLast? hlast)
      (by simp only [blockPairBytes] at hlt; omega)
    have hpair := pair_le_computeDataRegionEnd h.roots last
    omega

/-- A fresh pair behind all data of the last block extends the chain. -/
theorem append_pair (C : Coherent chain h) {last e : Nat} (hlast : chain.getLast? = some last)
    (he : e = computeDataRegionEnd h.roots last) (h32 : e + blockPairBytes ≤ 2 ^ 32) :
    Coherent (chain ++ [e]) (appendPair h last e) := by
  have hmem : last ∈ chain := List.mem_of_getLast? hlast
  have hle : last + blockPairBytes ≤ e := by
    rw [he]
    exact pair_le_computeDataRegionEnd _ _
  have hall : ∀ b ∈ chain, b + blockPairBytes ≤ e := by
    intro b hb
    rcases C.le_of_getLast hlast hb with heq | hlt
    · rw [heq]
      exact hle
    · omega
  have hhead := C.layout.header_le hmem
  -- Writing the fresh pair disturbs nothing, since it lies behind every block.
  let h₁ := (h.wrote e freshIndexBlock).wrote (e + blockBytes) freshNameBlock
  have C₁ : Coherent chain h₁ := by
    refine (C.wrote_outside (by omega) ?_).wrote_outside (by omega) ?_
    · intro b hb
      have hbe := hall b hb
      simp only [blockPairBytes, blockBytes] at *
      omega
    · intro b hb
      have hbe := hall b hb
      omega
  have hfresh : ∀ k n, k + n ≤ blockBytes →
      readAt h₁.file.bytes (e + k) n = (freshIndexBlock.drop k).take n := by
    intro k n hkn
    show readAt (writeAt (writeAt h.file.bytes e freshIndexBlock) _ _) (e + k) n = _
    rw [readAt_writeAt_of_disjoint (by omega), readAt_writeAt_window (by simpa using hkn)]
  have hend : wordAt h₁.file.bytes e 4 = 0 := by
    have hf := hfresh 0 4 (by decide)
    rw [add_zero] at hf
    rw [wordAt, hf]
    exact freshIndexBlock_next
  have hsize : e + blockPairBytes ≤ h₁.file.size := by
    have hw := end_le_wrote (h.wrote e freshIndexBlock) (e + blockBytes) freshNameBlock
      (List.ne_nil_of_length_pos (by rw [freshNameBlock_length]; decide))
    rw [freshNameBlock_length] at hw
    exact hw
  have hgrow : h₁.file.size ≤ (appendPair h last e).file.size := size_le_wrote h₁ _ _
  have hbytes : (appendPair h last e).file.bytes =
      writeAt h₁.file.bytes last (leBytes 4 e) := rfl
  refine ⟨?_, C.loaded, ?_, ?_, ?_, C.nodup, C.slots, C.identified, C.apart⟩
  case refine_1 =>
    refine ⟨C.layout.faults, ?_, ?_, ?_, ?_, ?_, ?_⟩
    · rw [hbytes, readAt_writeAt_of_disjoint (by omega)]
      exact C₁.layout.header
    · obtain ⟨rest, hrest⟩ := C.layout.head
      exact ⟨rest ++ [e], by rw [hrest]; rfl⟩
    · exact linked_append C₁.layout.linked hlast C.layout.spaced hle
        (by simp only [blockPairBytes] at h32; omega) hend
    · rw [List.pairwise_append]
      refine ⟨C.layout.spaced, List.pairwise_singleton _ _, ?_⟩
      intro b hb c hc
      rw [List.mem_singleton.mp hc]
      exact hall b hb
    · intro b hb
      rcases List.mem_append.mp hb with hb | hb
      · exact le_trans (C₁.layout.inFile b hb) hgrow
      · rw [List.mem_singleton.mp hb]
        exact le_trans hsize hgrow
    · intro b hb
      rcases List.mem_append.mp hb with hb | hb
      · exact C.layout.inRange b hb
      · rw [List.mem_singleton.mp hb]
        exact h32
  case refine_2 =>
    intro r hr
    have S := (C₁.sound r hr).mono hgrow
    refine ⟨?_, S.hashed, S.nameIndex, ?_⟩
    · obtain ⟨b, hb, hat⟩ := S.placed
      exact ⟨b, List.mem_append_left _ hb, hat⟩
    · intro hlen
      obtain ⟨hstart, hin, hnext⟩ := S.data hlen
      refine ⟨hstart, hin, ?_⟩
      intro b hb hlt
      rcases List.mem_append.mp hb with hb | hb
      · exact hnext b hb hlt
      · rw [List.mem_singleton.mp hb, he]
        exact C.dataEnd_le_last hlast hr hlen
  case refine_3 =>
    intro r hr
    obtain ⟨b, hb, i, hi, hat⟩ := C.exists_at hr
    have hbounds := indexSlotOffset_bounds (b := b) hi
    have hbl := C.le_of_getLast hlast hb
    rw [hbytes, readAt_writeAt_of_disjoint (by
      rw [hat.slot, leBytes_length]
      simp only [blockPairBytes, blockBytes] at *
      omega)]
    exact C₁.stored r hr
  case refine_4 =>
    intro b hb i hi hfree
    have hbounds := indexSlotOffset_bounds (b := b) hi
    rcases List.mem_append.mp hb with hb | hb
    · have hbl := C.le_of_getLast hlast hb
      rw [hbytes, wordAt_writeAt_of_disjoint (by
        rw [leBytes_length]
        simp only [blockPairBytes, blockBytes] at *
        omega)]
      exact C₁.vacant b hb i hi hfree
    · obtain rfl := List.mem_singleton.mp hb
      have hf := hfresh (8 + i * 32) 8 (by
        simp only [entriesPerIndexBlock, blockBytes] at *
        omega)
      rw [hbytes, wordAt_writeAt_of_disjoint (by
        rw [leBytes_length]
        omega), wordAt, indexSlotOffset, add_assoc, hf]
      exact freshIndexBlock_slot hi

end Coherent

end UnDOS.Hive
