import UnDOS.Hive.Manager

/-!
# The Block Chain of a Hive

`Layout chain h` says that the file of `h` holds a header and that its INDEX
BLOCKs are exactly `chain`, in file order, each followed by its NAME BLOCK.  On
such a file the two pointer-following loops of the source terminate.
-/

namespace UnDOS.Hive

open UnDOS.Lib UnDOS.Kernel

/-! ## Raw access without faults -/

variable {h : KConfigurationRoot} {chain rest : List Nat}

theorem readRawAt_eq {o n : Nat} (hf : h.file.faults = []) (hn : o + n ≤ h.file.size) :
    readRawAt o n h = (.ok (readAt h.file.bytes o n), h) := by
  have hnext : nextFault h = (.ok none, h) := by
    unfold nextFault
    rw [hf]
  unfold readRawAt
  rw [Prog.bind_ok hnext]
  simp [hn]

theorem readRawAt_zero {off : Nat} (hf : h.file.faults = []) : readRawAt off 0 h = (.ok [], h) := by
  have hnext : nextFault h = (.ok none, h) := by
    unfold nextFault
    rw [hf]
  unfold readRawAt
  rw [Prog.bind_ok hnext]
  simp [readAt]

/-- The hive after `data` was written to its file at `off`. -/
def KConfigurationRoot.wrote (h : KConfigurationRoot) (off : Nat) (data : List UInt8) :
    KConfigurationRoot :=
  { h with file := h.file.write off data }

theorem writeRawAt_eq {off : Nat} {data : List UInt8}
    (hf : h.file.faults = []) : writeRawAt off data h = (.ok (), h.wrote off data) := by
  have hnext : nextFault h = (.ok none, h) := by
    unfold nextFault
    rw [hf]
  unfold writeRawAt
  rw [Prog.bind_ok hnext]
  rfl

section Wrote

variable (h : KConfigurationRoot) (off : Nat) (data : List UInt8)

@[simp] theorem wrote_faults : (h.wrote off data).file.faults = h.file.faults := rfl

@[simp] theorem wrote_bytes : (h.wrote off data).file.bytes = writeAt h.file.bytes off data := rfl

@[simp] theorem wrote_roots : (h.wrote off data).roots = h.roots := rfl

@[simp] theorem wrote_indexLoaded : (h.wrote off data).indexLoaded = h.indexLoaded := rfl

theorem size_le_wrote : h.file.size ≤ (h.wrote off data).file.size := by
  unfold KConfigurationRoot.wrote HiveFile.write
  split
  · exact le_rfl
  · exact le_max_left _ _

theorem end_le_wrote (hd : data ≠ []) : off + data.length ≤ (h.wrote off data).file.size := by
  unfold KConfigurationRoot.wrote HiveFile.write
  rw [if_neg hd]
  exact le_max_right _ _

end Wrote

/-! ## Chains -/

/-- The blocks of the list are linked by their `nextBlockOffset` fields, and the
    last one ends the chain. -/
def Linked (m : ByteStore) : List Nat → Prop
  | [] => True
  | [b] => wordAt m b 4 = 0
  | b :: b' :: rest => wordAt m b 4 = b' ∧ Linked m (b' :: rest)

/-- The blocks reached from `b` in at most `fuel` steps. -/
def chainFrom (m : ByteStore) : Nat → Nat → List Nat
  | 0, _ => []
  | fuel + 1, b =>
    if wordAt m b 4 = 0 then [b] else b :: chainFrom m fuel (wordAt m b 4)

/-- The INDEX BLOCKs of the hive file, in chain order. -/
def indexBlocks (h : KConfigurationRoot) : List Nat :=
  chainFrom h.file.bytes h.file.size headerBytes

/-- The file of `h` is a hive whose INDEX BLOCKs are `chain`. -/
structure Layout (chain : List Nat) (h : KConfigurationRoot) : Prop where
  faults : h.file.faults = []
  header : readAt h.file.bytes 0 headerBytes = emptyHeader
  head : ∃ rest, chain = headerBytes :: rest
  linked : Linked h.file.bytes chain
  /-- Block pairs do not overlap and appear in file order. -/
  spaced : chain.Pairwise fun b b' => b + blockPairBytes ≤ b'
  inFile : ∀ b ∈ chain, b + blockPairBytes ≤ h.file.size
  inRange : ∀ b ∈ chain, b + blockPairBytes ≤ 2 ^ 32

theorem Linked.congr {m m' : ByteStore} (h : Linked m chain)
    (hw : ∀ b ∈ chain, wordAt m' b 4 = wordAt m b 4) : Linked m' chain := by
  induction chain with
  | nil => trivial
  | cons b rest ih =>
    cases rest with
    | nil =>
      show wordAt m' b 4 = 0
      rw [hw b (.head _)]
      exact h
    | cons b' rest =>
      refine ⟨?_, ih h.2 fun c hc => hw c (.tail _ hc)⟩
      rw [hw b (.head _)]
      exact h.1

theorem length_mul_le_of_spaced {size : Nat}
    (hs : chain.Pairwise fun b b' => b + blockPairBytes ≤ b')
    (hsize : ∀ b ∈ chain, b + blockPairBytes ≤ size) :
    ∀ lo, (∀ b ∈ chain, lo ≤ b) → chain = [] ∨ lo + chain.length * blockPairBytes ≤ size := by
  induction chain with
  | nil => exact fun _ _ => .inl rfl
  | cons b rest ih =>
    intro lo hlo
    rw [List.pairwise_cons] at hs
    have hb : lo ≤ b := hlo b (.head _)
    have hbs : b + blockPairBytes ≤ size := hsize b (.head _)
    have hrest := ih hs.2 (fun c hc => hsize c (.tail _ hc))
      (b + blockPairBytes) hs.1
    rcases hrest with hnil | hle
    · subst hnil
      simp only [List.length_cons, List.length_nil]
      omega
    · simp only [List.length_cons]
      rw [add_mul]
      omega

namespace Layout

variable {chain : List Nat} {h : KConfigurationRoot}

theorem header_le (L : Layout chain h) {b : Nat} (hb : b ∈ chain) : headerBytes ≤ b := by
  obtain ⟨rest, rfl⟩ := L.head
  rcases List.mem_cons.mp hb with rfl | hrest
  · exact le_rfl
  · have hsp := (List.pairwise_cons.mp L.spaced).1 b hrest
    omega

theorem length_lt (L : Layout chain h) : chain.length < h.file.size := by
  have hlen := length_mul_le_of_spaced L.spaced L.inFile headerBytes fun b hb => L.header_le hb
  rcases hlen with hnil | hle
  · obtain ⟨rest, hrest⟩ := L.head
    rw [hnil] at hrest
    cases hrest
  · simp only [headerBytes, blockPairBytes] at hle
    omega

theorem pos (L : Layout chain h) {b : Nat} (hb : b ∈ chain) : 0 < b :=
  lt_of_lt_of_le (by decide) (L.header_le hb)

theorem toNat_ofNat (L : Layout chain h) {b : Nat} (hb : b ∈ chain) :
    (UInt32.ofNat b).toNat = b := by
  have hlt := L.inRange b hb
  simp only [blockPairBytes] at hlt
  exact Nat.mod_eq_of_lt (by omega)

end Layout

theorem chainFrom_eq_of_linked {m : ByteStore} {b fuel : Nat}
    (hl : Linked m (b :: rest)) (hpos : ∀ c ∈ rest, 0 < c) (hfuel : rest.length < fuel) :
    chainFrom m fuel b = b :: rest := by
  induction rest generalizing b fuel with
  | nil =>
    obtain ⟨n, rfl⟩ : ∃ n, fuel = n + 1 := ⟨fuel - 1, by omega⟩
    have hend : wordAt m b 4 = 0 := hl
    simp [chainFrom, hend]
  | cons b' rest ih =>
    obtain ⟨n, rfl⟩ : ∃ n, fuel = n + 1 := ⟨fuel - 1, by omega⟩
    simp only [List.length_cons] at hfuel
    have hnext : wordAt m b 4 = b' := hl.1
    have hb' : 0 < b' := hpos b' (.head _)
    have hrec := ih hl.2 (fun c hc => hpos c (.tail _ hc)) (show rest.length < n by omega)
    simp only [chainFrom, hnext, if_neg hb'.ne', hrec]

theorem Layout.indexBlocks_eq (L : Layout chain h) : indexBlocks h = chain := by
  have hlen := L.length_lt
  have hpos : ∀ b ∈ chain, 0 < b := fun b hb => L.pos hb
  have hl := L.linked
  obtain ⟨rest, rfl⟩ := L.head
  apply chainFrom_eq_of_linked hl
  · exact fun c hc => hpos c (.tail _ hc)
  · simp only [List.length_cons] at hlen
    omega

theorem mem_indexBlocks_of_next {b : Nat} (hsize : 2 ≤ h.file.size)
    (hnext : wordAt h.file.bytes headerBytes 4 = b) (hb : b ≠ 0) : b ∈ indexBlocks h := by
  obtain ⟨n, hn⟩ : ∃ n, h.file.size = n + 2 := ⟨h.file.size - 2, by omega⟩
  have hhead : ∀ c, c ∈ chainFrom h.file.bytes (n + 1) c := by
    intro c
    rw [chainFrom]
    split <;> simp
  unfold indexBlocks
  rw [hn, chainFrom, hnext, if_neg hb]
  exact .tail _ (hhead b)

/-! ## Loading -/

/-- The entries `LoadConfigurationIndex` finds in the block at `b`. -/
def blockEntries (m : ByteStore) (b : Nat) : List Root :=
  (List.range entriesPerIndexBlock).filterMap
    (loadSlot b (readAt m b blockBytes) (readAt m (pairedNameBlockOffset b) blockBytes))

/-- One block of the chain: its entries are read, and the walk goes on to the next block. -/
theorem loadChain_succ {b : Nat} (n : Nat) (hf : h.file.faults = [])
    (hb : b + blockPairBytes ≤ h.file.size ∧ b + blockPairBytes ≤ 2 ^ 32) :
    loadChain (n + 1) b h =
      (if wordAt h.file.bytes b 4 = 0 then return blockEntries h.file.bytes b
        else do return blockEntries h.file.bytes b ++ (← loadChain n (wordAt h.file.bytes b 4)) :
        HiveProg (List Root)) h := by
  simp only [blockPairBytes] at hb
  have hcast : (UInt32.ofNat b).toNat = b := Nat.mod_eq_of_lt (by omega)
  have hread := readRawAt_eq (h := h) (o := b) (n := blockBytes) hf (by
    simp only [blockBytes]; omega)
  have hname := readRawAt_eq (h := h) (o := pairedNameBlockOffset b) (n := blockBytes) hf (by
    simp only [pairedNameBlockOffset, blockBytes]; omega)
  rw [loadChain, Prog.bind_ok hread, hcast, Prog.bind_ok hname]
  rfl

theorem loadChain_eq_of_linked {b fuel : Nat}
    (hf : h.file.faults = []) (hl : Linked h.file.bytes (b :: rest)) (hpos : ∀ c ∈ rest, 0 < c)
    (hin : ∀ c ∈ b :: rest, c + blockPairBytes ≤ h.file.size ∧ c + blockPairBytes ≤ 2 ^ 32)
    (hfuel : rest.length < fuel) :
    loadChain fuel b h = (.ok ((b :: rest).flatMap (blockEntries h.file.bytes)), h) := by
  induction rest generalizing b fuel with
  | nil =>
    obtain ⟨n, rfl⟩ : ∃ n, fuel = n + 1 := ⟨fuel - 1, by omega⟩
    have hnext : wordAt h.file.bytes b 4 = 0 := hl
    rw [loadChain_succ n hf (hin b (.head _))]
    simp [hnext]
  | cons b' rest ih =>
    obtain ⟨n, rfl⟩ : ∃ n, fuel = n + 1 := ⟨fuel - 1, by omega⟩
    simp only [List.length_cons] at hfuel
    have hb' : b' ≠ 0 := ne_of_gt (hpos b' (.head _))
    have hrec := ih hl.2 (fun c hc => hpos c (.tail _ hc))
      (fun c hc => hin c (.tail _ hc)) (show rest.length < n by omega)
    have hnext : wordAt h.file.bytes b 4 = b' := hl.1
    rw [loadChain_succ n hf (hin b (.head _))]
    simp only [hnext, if_neg hb']
    rw [Prog.bind_ok hrec]
    simp

/-- Loading a laid-out hive returns the entries of its blocks, in chain order. -/
theorem Layout.loadConfigurationIndex_eq (L : Layout chain h) :
    loadConfigurationIndex h = (.ok (chain.flatMap (blockEntries h.file.bytes)), h) := by
  have hlen := L.length_lt
  have hl := L.linked
  have hpos : ∀ b ∈ chain, 0 < b := fun b hb => L.pos hb
  have hin : ∀ b ∈ chain, b + blockPairBytes ≤ h.file.size ∧ b + blockPairBytes ≤ 2 ^ 32 :=
    fun b hb => ⟨L.inFile b hb, L.inRange b hb⟩
  obtain ⟨rest, rfl⟩ := L.head
  have hfirst := hin headerBytes (.head _)
  have hhead := readRawAt_eq (h := h) (o := 0) (n := headerBytes) L.faults (by omega)
  have hmagic : emptyHeader.take 4 = [67, 70, 71, 49] := by decide
  have hblock : leNat ((emptyHeader.drop 16).take 4) = headerBytes := by decide
  rw [loadConfigurationIndex, Prog.bind_ok hhead, L.header]
  apply loadChain_eq_of_linked L.faults hl (fun c hc => hpos c (.tail _ hc)) hin
  simp only [List.length_cons] at hlen
  omega

/-! ## The slot search -/

/-- A full block sends the search to the next one. -/
theorem findFreeSlotFrom_next {b b' : Nat} (n : Nat) (hf : h.file.faults = [])
    (hb : b + blockPairBytes ≤ h.file.size) (hfull : ¬occupied h.roots b < entriesPerIndexBlock)
    (hnext : wordAt h.file.bytes b 4 = b') (hb' : 0 < b') :
    findFreeSlotFrom (n + 1) b h = findFreeSlotFrom n b' h := by
  simp only [blockPairBytes] at hb
  have hread := readRawAt_eq (h := h) (o := b) (n := 4) hf (by omega)
  have hword : leNat (readAt h.file.bytes b 4) = b' := hnext
  rw [findFreeSlotFrom]
  simp only [Prog.get_bind_apply, if_neg hfull]
  rw [Prog.bind_ok hread]
  simp [hword, ne_of_gt hb']

/-- The search stops at the first block with room and changes nothing. -/
theorem findFreeSlotFrom_eq_of_room {b c fuel : Nat}
    (hf : h.file.faults = []) (hl : Linked h.file.bytes (b :: rest))
    (hpos : ∀ c ∈ rest, 0 < c) (hin : ∀ c ∈ b :: rest, c + blockPairBytes ≤ h.file.size)
    (hfuel : rest.length < fuel)
    (hroom : (b :: rest).find? (fun b => occupied h.roots b < entriesPerIndexBlock) = some c) :
    findFreeSlotFrom fuel b h =
      (.ok (UInt32.ofNat c, UInt32.ofNat (indexSlotOffset c (occupied h.roots c))), h) := by
  induction rest generalizing b fuel with
  | nil =>
    obtain ⟨n, rfl⟩ : ∃ n, fuel = n + 1 := ⟨fuel - 1, by omega⟩
    by_cases hb : occupied h.roots b < entriesPerIndexBlock
    · simp only [List.find?_cons, hb, decide_true, Option.some.injEq] at hroom
      subst hroom
      simp [findFreeSlotFrom, hb]
    · simp [hb] at hroom
  | cons b' rest ih =>
    obtain ⟨n, rfl⟩ : ∃ n, fuel = n + 1 := ⟨fuel - 1, by omega⟩
    simp only [List.length_cons] at hfuel
    by_cases hb : occupied h.roots b < entriesPerIndexBlock
    · simp only [List.find?_cons, hb, decide_true, Option.some.injEq] at hroom
      subst hroom
      simp [findFreeSlotFrom, hb]
    · rw [List.find?_cons_of_neg (by simpa using hb)] at hroom
      rw [findFreeSlotFrom_next n hf (hin b (.head _)) hb hl.1
        (hpos b' (.head _))]
      exact ih hl.2 (fun c hc => hpos c (.tail _ hc))
        (fun c hc => hin c (.tail _ hc)) (by omega) hroom

/-- The hive after a fresh block pair was written at `e` and linked behind `last`. -/
def appendPair (h : KConfigurationRoot) (last e : Nat) : KConfigurationRoot :=
  ((h.wrote e freshIndexBlock).wrote (e + blockBytes) freshNameBlock).wrote last (leBytes 4 e)

/-- When every block is full the search appends a pair behind the last one and
    returns its first slot. -/
theorem findFreeSlotFrom_eq_of_full {b fuel e : Nat}
    (hf : h.file.faults = []) (hl : Linked h.file.bytes (b :: rest)) (hpos : ∀ c ∈ rest, 0 < c)
    (hin : ∀ c ∈ b :: rest, c + blockPairBytes ≤ h.file.size ∧ c + blockPairBytes ≤ 2 ^ 32)
    (hfuel : rest.length + 1 < fuel)
    (hfull : ∀ c ∈ b :: rest, ¬ occupied h.roots c < entriesPerIndexBlock)
    (he : e = computeDataRegionEnd h.roots ((b :: rest).getLast (by simp)))
    (hnew : occupied h.roots e = 0) : findFreeSlotFrom fuel b h =
      (.ok (UInt32.ofNat e, UInt32.ofNat (indexSlotOffset e 0)),
        appendPair h ((b :: rest).getLast (by simp)) e) := by
  induction rest generalizing b fuel with
  | nil =>
    obtain ⟨n, rfl⟩ : ∃ n, fuel = n + 2 :=
      ⟨fuel - 2, by simp only [List.length_nil] at hfuel; omega⟩
    have hbin := hin b (.head _)
    simp only [blockPairBytes] at hbin
    have hcast : (UInt32.ofNat b).toNat = b := by
      exact Nat.mod_eq_of_lt (by omega)
    have hread := readRawAt_eq (h := h) (o := b) (n := 4) hf (by omega)
    have hnext : leNat (readAt h.file.bytes b 4) = 0 := hl
    have hb := hfull b (.head _ ..)
    simp only [List.getLast_singleton] at he ⊢
    rw [findFreeSlotFrom]
    simp only [Prog.get_bind_apply, if_neg hb]
    rw [Prog.bind_ok hread]
    simp only [hnext, ne_eq, not_true_eq_false, if_false, hcast, ← he]
    rw [Prog.bind_ok (writeRawAt_eq hf), Prog.bind_ok (writeRawAt_eq (by simpa using hf)),
      Prog.bind_ok (writeRawAt_eq (by simpa using hf)), findFreeSlotFrom]
    simp [appendPair, hnew, entriesPerIndexBlock]
  | cons b' rest ih =>
    obtain ⟨n, rfl⟩ : ∃ n, fuel = n + 1 := ⟨fuel - 1, by omega⟩
    simp only [List.length_cons] at hfuel
    rw [findFreeSlotFrom_next n hf (hin b (.head _)).1 (hfull b (.head _))
      hl.1 (hpos b' (.head _))]
    exact ih hl.2 (fun c hc => hpos c (.tail _ hc))
      (fun c hc => hin c (.tail _ hc)) (by omega)
      (fun c hc => hfull c (.tail _ hc)) he

end UnDOS.Hive
