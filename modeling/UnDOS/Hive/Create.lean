import UnDOS.Hive.Effects

/-!
# Creating a Key

`KE_CM_CreateKey` takes the slot of the first block with room that the number of
live entries selects, or the first slot of a fresh block pair.  `CreateFits` says
that this slot is free.
-/

namespace UnDOS.Hive

open UnDOS.Lib UnDOS.Kernel

variable {chain : List Nat} {h : KConfigurationRoot}

/-! ## The slot -/

/-- The first block that holds fewer live entries than it has slots. -/
def firstRoomy (roots : List Root) (chain : List Nat) : Option Nat :=
  chain.find? fun b => occupied roots b < entriesPerIndexBlock

/-- A key with hash `kh` can be created: the hash is not the mark of an empty slot,
    the slot that the number of live entries selects is free, and a block pair that
    has to be appended stays below 4 GiB. -/
def CreateFits (h : KConfigurationRoot) (kh : UInt64) : Prop :=
  kh ≠ 0 ∧
  match firstRoomy h.roots (indexBlocks h) with
  | some b => ∀ r ∈ h.roots,
      r.indexEntryOffset.toNat ≠ indexSlotOffset b (occupied h.roots b)
  | none => ∀ last ∈ (indexBlocks h).getLast?,
      computeDataRegionEnd h.roots last + blockPairBytes ≤ 2 ^ 32

theorem firstRoomy_spec {roots : List Root} {b : Nat} (hroom : firstRoomy roots chain = some b) :
    b ∈ chain ∧ occupied roots b < entriesPerIndexBlock :=
  ⟨List.mem_of_find?_eq_some hroom, by simpa using List.find?_some hroom⟩

theorem Layout.findOrAllocateFreeSlot_of_room (L : Layout chain h) {b : Nat}
    (hroom : firstRoomy h.roots chain = some b) : findOrAllocateFreeSlot h =
      (.ok (UInt32.ofNat b, UInt32.ofNat (indexSlotOffset b (occupied h.roots b))), h) := by
  have hlen := L.length_lt
  have hpos : ∀ b ∈ chain, 0 < b := fun b hb => L.pos hb
  have hin := L.inFile
  have hl := L.linked
  obtain ⟨rest, hrest⟩ := L.head
  rw [hrest] at hl hpos hin hroom hlen
  rw [List.length_cons] at hlen
  exact findFreeSlotFrom_eq_of_room L.faults hl (fun c hc => hpos c (.tail _ hc))
    hin (by omega) hroom

theorem Coherent.pair_le_last (C : Coherent chain h) {last b : Nat}
    (hlast : chain.getLast? = some last) (hb : b ∈ chain) :
    b + blockPairBytes ≤ computeDataRegionEnd h.roots last := by
  have hpair := pair_le_computeDataRegionEnd h.roots last
  have hle := C.le_of_getLast hlast hb
  omega

theorem Coherent.findOrAllocateFreeSlot_of_full (C : Coherent chain h) {last : Nat}
    (hfull : firstRoomy h.roots chain = none) (hlast : chain.getLast? = some last) :
    findOrAllocateFreeSlot h = (.ok (UInt32.ofNat (computeDataRegionEnd h.roots last),
          UInt32.ofNat (indexSlotOffset (computeDataRegionEnd h.roots last) 0)),
        appendPair h last (computeDataRegionEnd h.roots last)) := by
  have hempty : occupied h.roots (computeDataRegionEnd h.roots last) = 0 := by
    unfold occupied
    rw [List.length_eq_zero_iff, List.filter_eq_nil_iff]
    intro r hr hbl
    have hlt := C.pair_le_last hlast (C.sound r hr).block_mem
    simp only [decide_eq_true_eq, blockPairBytes] at hbl hlt
    omega
  have hfull' : ∀ b ∈ chain, ¬ occupied h.roots b < entriesPerIndexBlock := by
    intro b hb
    simpa using List.find?_eq_none.mp hfull b hb
  have hlen := C.layout.length_lt
  have hpos : ∀ b ∈ chain, 0 < b := fun b hb => C.layout.pos hb
  have hin : ∀ b ∈ chain, b + blockPairBytes ≤ h.file.size ∧ b + blockPairBytes ≤ 2 ^ 32 :=
    fun b hb => ⟨C.layout.inFile b hb, C.layout.inRange b hb⟩
  have hl := C.layout.linked
  obtain ⟨rest, hrest⟩ := C.layout.head
  subst hrest
  rw [List.length_cons] at hlen
  have hgetLast : (headerBytes :: rest).getLast (by simp) = last := by
    rw [List.getLast?_eq_some_getLast (by simp), Option.some.injEq] at hlast
    exact hlast
  have hrun := findFreeSlotFrom_eq_of_full C.layout.faults hl
    (fun c hc => hpos c (.tail _ hc)) hin
    (show rest.length + 1 < h.file.size + h.roots.length + 2 by omega) hfull'
    (e := computeDataRegionEnd h.roots last) (by rw [hgetLast]) hempty
  rw [hgetLast] at hrun
  exact hrun

/-- The slot the search returns, and the chain after it. -/
def SlotChoice (chain : List Nat) (roots : List Root) (chain' : List Nat) (b i : Nat) : Prop :=
  match firstRoomy roots chain with
  | some c => chain' = chain ∧ b = c ∧ i = occupied roots c
  | none => ∃ last, chain.getLast? = some last ∧ b = computeDataRegionEnd roots last ∧
      chain' = chain ++ [b] ∧ i = 0

/-- The search for a slot, on a hive where a key can be created. -/
structure FoundSlot (chain : List Nat) (h : KConfigurationRoot) (chain' : List Nat)
    (h' : KConfigurationRoot) (b i : Nat) : Prop where
  eval : findOrAllocateFreeSlot h =
    (.ok (UInt32.ofNat b, UInt32.ofNat (indexSlotOffset b i)), h')
  choice : SlotChoice chain h.roots chain' b i
  coherent : Coherent chain' h'
  roots : h'.roots = h.roots
  hiveName : h'.hiveName = h.hiveName
  references : h'.configptrReferences = h.configptrReferences
  keeps : ∀ r ∈ h.roots, Keeps h h' r
  block_mem : b ∈ chain'
  slot_lt : i < entriesPerIndexBlock
  free : ∀ r ∈ h.roots, r.indexEntryOffset.toNat ≠ indexSlotOffset b i

/-- The first block with room, or a new block at the end of the chain. -/
theorem findOrAllocateFreeSlot_spec (C : Coherent chain h) {kh : UInt64}
    (fits : CreateFits h kh) : ∃ chain' h' b i, FoundSlot chain h chain' h' b i := by
  have hfits := fits.2
  rw [C.layout.indexBlocks_eq] at hfits
  cases hroom : firstRoomy h.roots chain with
  | some b =>
    rw [hroom] at hfits
    obtain ⟨hb, hlt⟩ := firstRoomy_spec hroom
    exact ⟨chain, h, b, occupied h.roots b, C.layout.findOrAllocateFreeSlot_of_room hroom,
      by simp [SlotChoice, hroom], C, rfl, rfl, rfl, fun r _ => rfl, hb, hlt, hfits⟩
  | none =>
    rw [hroom] at hfits
    obtain ⟨rest, hrest⟩ := C.layout.head
    obtain ⟨last, hlast⟩ : ∃ last, chain.getLast? = some last := by
      rw [hrest]
      exact ⟨_, List.getLast?_eq_some_getLast (by simp)⟩
    have h32 := hfits last hlast
    refine ⟨chain ++ [computeDataRegionEnd h.roots last], _, computeDataRegionEnd h.roots last, 0,
      C.findOrAllocateFreeSlot_of_full hroom hlast, ?_, C.append_pair hlast rfl h32, rfl, rfl, rfl,
      ?_, by simp, by decide, ?_⟩
    · simp [SlotChoice, hroom, hlast]
    · -- The fresh pair lies behind every value, the link inside the last pair.
      intro r hr
      have hdata : r.length ≠ 0 → _ := C.dataEnd_le_last hlast hr
      have hpair := fun hlen => C.value_outside_pair hr hlen (List.mem_of_getLast? hlast)
      refine (keeps_wrote ?_).trans ((keeps_wrote ?_).trans (keeps_wrote ?_))
      · exact fun hlen => .inl (hdata hlen)
      · intro hlen
        have hend := hdata hlen
        omega
      · intro hlen
        have hout := hpair hlen
        simp only [leBytes_length, blockPairBytes] at *
        omega
    · intro r hr
      obtain ⟨b, hb, i, hi, hat⟩ := C.exists_at hr
      have hbounds := indexSlotOffset_bounds (b := b) hi
      have hbe := C.pair_le_last hlast hb
      rw [hat.slot]
      simp only [indexSlotOffset, blockBytes, blockPairBytes] at *
      omega

/-! ## The name -/

theorem findNameSlotFrom_cases (L : Layout chain h) {b : Nat} (hb : b ∈ chain) (kh : UInt64)
    (nm : Name) (remaining : Nat) (hrem : remaining ≤ entriesPerNameBlock) :
    findNameSlotFrom b kh nm remaining h = (.err .resourceLimitExceeded, h) ∨
      ∃ slot < entriesPerNameBlock, findNameSlotFrom b kh nm remaining h =
        (.ok (UInt16.ofNat slot), h.wrote (nameSlotOffset b slot) (encodeNameEntry kh nm)) := by
  induction remaining with
  | zero => exact .inl rfl
  | succ remaining ih =>
    have hslot : entriesPerNameBlock - (remaining + 1) < entriesPerNameBlock := by
      omega
    have hbounds := nameSlotOffset_bounds (b := b) hslot
    have hin := L.inFile b hb
    have hread := readRawAt_eq (h := h) (n := 8) L.faults
      (o := nameSlotOffset b (entriesPerNameBlock - (remaining + 1))) (by omega)
    rw [findNameSlotFrom, Prog.bind_ok hread]
    split
    · have hwrite : persistNameEntry b (entriesPerNameBlock - (remaining + 1)) kh nm h =
        (.ok (), _) :=
        writeRawAt_eq L.faults
      rw [Prog.bind_ok hwrite]
      exact .inr ⟨_, hslot, rfl⟩
    · exact ih (by omega)

theorem findOrAllocateNameSlot_spec (L : Layout chain h) {b : Nat} (hb : b ∈ chain)
    (kh : UInt64) (nm : Name) :
    ∃ res h', Prog.attempt (findOrAllocateNameSlot b kh nm) h = (.ok res, h') ∧
      (h' = h ∧ nameEntryIndexOf res = noNameEntry ∨
        ∃ slot < entriesPerNameBlock, (nameEntryIndexOf res).toNat = slot ∧
          h' = h.wrote (nameSlotOffset b slot) (encodeNameEntry kh nm)) := by
  rcases findNameSlotFrom_cases L hb kh nm entriesPerNameBlock le_rfl with
    hfull | ⟨slot, hslot, hfound⟩
  · exact ⟨_, h, Prog.attempt_err hfull, .inl ⟨rfl, rfl⟩⟩
  · refine ⟨_, _, Prog.attempt_ok hfound, .inr ⟨slot, hslot, ?_, rfl⟩⟩
    simp only [nameEntryIndexOf, entriesPerNameBlock, UInt16.toNat_ofNat'] at hslot ⊢
    omega

/-! ## The entry -/

/-- The hive after a new entry was persisted in slot `i` of the block at `b`. -/
def withEntry (h : KConfigurationRoot) (b i : Nat) (r : Root) : KConfigurationRoot :=
  { h.wrote (indexSlotOffset b i) r.onDisk.encode with
    roots := h.roots ++ [r]
    numRoots := h.numRoots + 1 }

theorem Layout.slot_toNat_ofNat (L : Layout chain h) {b i : Nat} (hb : b ∈ chain)
    (hi : i < entriesPerIndexBlock) :
    (UInt32.ofNat (indexSlotOffset b i)).toNat = indexSlotOffset b i := by
  have hbounds := indexSlotOffset_bounds (b := b) hi
  have h32 := L.inRange b hb
  simp only [blockBytes, blockPairBytes] at hbounds h32
  exact Nat.mod_eq_of_lt (by omega)

theorem createEntry_eq {h₁ : KConfigurationRoot} (L : Layout chain h₁) {b i : Nat}
    (hb : b ∈ chain) (hi : i < entriesPerIndexBlock) (hslot : findOrAllocateFreeSlot h =
      (.ok (UInt32.ofNat b, UInt32.ofNat (indexSlotOffset b i)), h₁)) (kh ph : UInt64) (nm : Name) :
    ∃ h₂ idx, createEntry kh ph nm h = (.ok (), withEntry h₂ b i
        (newEntry kh ph nm (UInt32.ofNat b) (UInt32.ofNat (indexSlotOffset b i)) idx)) ∧
      (h₂ = h₁ ∧ idx = noNameEntry ∨ ∃ slot < entriesPerNameBlock, idx.toNat = slot ∧
        h₂ = h₁.wrote (nameSlotOffset b slot) (encodeNameEntry kh nm)) := by
  obtain ⟨res, h₂, hnamed, hcases⟩ := findOrAllocateNameSlot_spec L hb kh nm
  refine ⟨h₂, nameEntryIndexOf res, ?_, hcases⟩
  have hf : h₂.file.faults = [] := by
    rcases hcases with ⟨rfl, -⟩ | ⟨slot, -, -, rfl⟩ <;> exact L.faults
  let r := newEntry kh ph nm (UInt32.ofNat b) (UInt32.ofNat (indexSlotOffset b i))
    (nameEntryIndexOf res)
  have hpersist : persistIndexEntry r h₂ =
      (.ok (), h₂.wrote (indexSlotOffset b i) r.onDisk.encode) := by
    unfold persistIndexEntry
    rw [show r.indexEntryOffset.toNat = indexSlotOffset b i from L.slot_toNat_ofNat hb hi]
    exact writeRawAt_eq hf
  unfold createEntry
  rw [Prog.bind_ok hslot]
  simp only []
  rw [L.toNat_ofNat hb, Prog.bind_ok hnamed, Prog.bind_ok hpersist]
  rfl

/-- A key was created. -/
structure Created (chain : List Nat) (h : KConfigurationRoot) (kh ph : UInt64) (nm : Name)
    (chain' : List Nat) (h' : KConfigurationRoot) : Prop where
  coherent : Coherent chain' h'
  touches : Touches kh ph h h'
  references : h'.configptrReferences = h.configptrReferences
  entry : ∃ b i idx, SlotChoice chain h.roots chain' b i ∧ h'.roots = h.roots ++
    [newEntry kh ph nm (UInt32.ofNat b) (UInt32.ofNat (indexSlotOffset b i)) idx]

/-- Creating a key that fits adds one fresh entry at the end of the index. -/
theorem createEntry_spec (C : Coherent chain h) {kh ph : UInt64} (fits : CreateFits h kh)
    (hnone : findEntry h.roots kh ph = none) (nm : Name) :
    ∃ chain' h', createEntry kh ph nm h = (.ok (), h') ∧ Created chain h kh ph nm chain' h' := by
  obtain ⟨chain', h₁, b, i, F⟩ := findOrAllocateFreeSlot_spec C fits
  have hb := F.block_mem
  have hi := F.slot_lt
  obtain ⟨h₂, idx, hrun, hcases⟩ := createEntry_eq F.coherent.layout hb hi F.eval kh ph nm
  have hbounds := indexSlotOffset_bounds (b := b) hi
  -- Naming the key changes no entry and no value.
  obtain ⟨C₂, hroots₂, hname₂, hrefs₂, hkeep₂, hidx⟩ : Coherent chain' h₂ ∧ h₂.roots = h.roots ∧
      h₂.hiveName = h.hiveName ∧ h₂.configptrReferences = h.configptrReferences ∧
      (∀ r ∈ h.roots, Keeps h₁ h₂ r) ∧
      (idx = noNameEntry ∨ idx.toNat < entriesPerNameBlock) := by
    rcases hcases with ⟨rfl, hidx⟩ | ⟨slot, hslot, hidx, rfl⟩
    · exact ⟨F.coherent, F.roots, F.hiveName, F.references, fun r _ => rfl, .inl hidx⟩
    · have hnb := nameSlotOffset_bounds (b := b) hslot
      refine ⟨F.coherent.wrote_name hb hslot (encodeNameEntry_length kh nm), F.roots, F.hiveName,
        F.references, ?_, .inr (by omega)⟩
      intro r hr
      refine F.coherent.keeps_wrote_pair hb ?_ ?_ (by rw [F.roots]; exact hr)
      · omega
      · rw [encodeNameEntry_length]
        exact hnb.2
  let r := newEntry kh ph nm (UInt32.ofNat b) (UInt32.ofNat (indexSlotOffset b i)) idx
  have hat : r.At b i :=
    ⟨F.coherent.layout.toNat_ofNat hb, F.coherent.layout.slot_toNat_ofNat hb hi⟩
  have hfresh := findEntry_eq_none.mp hnone
  refine ⟨chain', withEntry h₂ b i r, hrun, ?_, ⟨?_, ?_, ?_, hname₂⟩, hrefs₂, b, i, idx,
    F.choice, ?_⟩
  · refine C₂.rewriteSlot h₂.roots [] none (some r)
      (by simp) rfl rfl rfl hb hi (fun r hr => nomatch hr) ?_
      (ConfigurationIndexEntry.encode_length _) nofun ?_ ?_
    · intro s hs
      rw [List.append_nil, hroots₂] at hs
      exact F.free s hs
    · rintro s ⟨⟩
      rfl
    · rintro s ⟨⟩
      refine ⟨hat, ⟨⟨b, hb, i, hi, hat⟩, fits.1, hidx, absurd rfl⟩, ?_,
        fun s _ => .inl rfl⟩
      intro s hs hid
      rw [List.append_nil, hroots₂] at hs
      exact hfresh s hs ⟨hid.1.symm, hid.2.symm⟩
  · have hr : r.Is kh ph := ⟨rfl, rfl⟩
    show (h₂.roots ++ [r]).filter _ = _
    rw [hroots₂]
    simp [hr]
  · intro s hs _
    refine (F.keeps s hs).trans ((hkeep₂ s hs).trans ?_)
    refine C₂.keeps_wrote_pair hb ?_ ?_ (by rw [hroots₂]; exact hs)
    · omega
    · rw [ConfigurationIndexEntry.encode_length]
      simp only [blockBytes, blockPairBytes] at *
      omega
  · exact C₂.loaded.trans C.loaded.symm
  · show h₂.roots ++ [r] = _
    rw [hroots₂]

/-! ## The call -/

variable {parentKey : Option KConfigurationKey}

theorem createKey_error {subKeyName : Name}
    {e : KernelError} (hres : resolveTarget h.hiveName parentKey subKeyName = .error e)
    (access : KConfigurationKeyAccess) (alloc : Bool) :
    createKey parentKey subKeyName access alloc h = (.err e, h) := by
  have hname : resolveName parentKey subKeyName h = (.err e, h) := by
    simp [resolveName, hres]
  unfold createKey
  rw [Prog.bind_err hname]

theorem createKey_returns (C : Coherent chain h) {subKeyName : Name} {kh ph : UInt64} {nm : Name}
    (hres : resolveTarget h.hiveName parentKey subKeyName = .ok (kh, ph, nm))
    (fits : h.configptrReferences ≠ 2 ^ 32 - 1 → findEntry h.roots kh ph = none →
      CreateFits h kh) (access : KConfigurationKeyAccess) (alloc : Bool) :
    Returns kh ph h (createKey parentKey subKeyName access alloc h) := by
  have hname : resolveName parentKey subKeyName h = (.ok (kh, ph, nm), h) := by
    simp [resolveName, hres]
  unfold createKey
  rw [Prog.bind_ok hname]
  refine Returns.withConfigRoot C fun hrefs => ?_
  have C' := (SameHive.referenced h).coherent C
  simp only [Prog.get_bind_apply]
  cases hfind : findEntry h.roots kh ph with
  | some e =>
    have hfind' : findEntry (referenced h).roots kh ph = some e := hfind
    rw [hfind']
    split
    · exact .ofSame C' (by simp) (SameHive.refl _) _ _
    · obtain ⟨ho, S⟩ := makeHandle_same alloc
        { keyHash := kh, parentHash := ph, access := access } (referenced h)
      exact .ofSame C' ho S _ _
  | none =>
    have hfind' : findEntry (referenced h).roots kh ph = none := hfind
    rw [hfind']
    simp only []
    obtain ⟨chain', h', hrun, N⟩ := createEntry_spec C' (fits hrefs hfind) hfind' nm
    rw [Prog.bind_ok hrun]
    obtain ⟨ho, S⟩ := makeHandle_same alloc
      { keyHash := kh, parentHash := ph, access := access } h'
    exact ⟨ho, ⟨chain', S.coherent N.coherent⟩, N.touches.trans (Touches.ofSame S kh ph)⟩

theorem createKey_ok {subKeyName : Name} {kh ph : UInt64} {nm : Name} (hl : h.indexLoaded = true)
    (hres : resolveTarget h.hiveName parentKey subKeyName = .ok (kh, ph, nm))
    (hrefs : h.configptrReferences + 2 < 2 ^ 32) (hnone : findEntry h.roots kh ph = none)
    {h' : KConfigurationRoot} (hrun : createEntry kh ph nm (referenced h) = (.ok (), h'))
    (hrefs' : h'.configptrReferences = (referenced h).configptrReferences)
    (access : KConfigurationKeyAccess) : createKey parentKey subKeyName access true h =
      (.ok { keyHash := kh, parentHash := ph, access := access }, released (referenced h')) := by
  have hname : resolveName parentKey subKeyName h = (.ok (kh, ph, nm), h) := by
    simp [resolveName, hres]
  have hcount : (referenced h).configptrReferences = h.configptrReferences + 1 := rfl
  have hinc := incrementConfigRootReference_eq h'
  rw [if_neg (by omega)] at hinc
  unfold createKey
  rw [Prog.bind_ok hname]
  refine withConfigRoot_eq hl (by omega) ?_ (by simp)
  have hfind' : findEntry (referenced h).roots kh ph = none := hnone
  simp only [Prog.get_bind_apply, hfind']
  rw [Prog.bind_ok hrun]
  unfold makeHandle
  simp only [if_true]
  rw [Prog.bind_ok hinc]
  rfl

end UnDOS.Hive
