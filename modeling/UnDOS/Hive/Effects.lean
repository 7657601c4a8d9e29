import UnDOS.Hive.Invariant

/-!
# Effects of the Configuration Calls

For each `KE_CM_*` call that changes a hive: the outcome it has on a coherent hive
whose file never fails, and the hive it leaves behind.  `Keeps` is the frame
condition on values, `Extends` the one on everything a call does not address.
-/

namespace UnDOS.Hive

open UnDOS.Lib UnDOS.Kernel

/-! ## The resident index -/

variable {roots : List Root} {kh ph : UInt64} {e r : Root} {h h' : KConfigurationRoot}
  {data : List UInt8} {chain : List Nat} {parentKey : Option KConfigurationKey}

theorem findEntry_split (hf : findEntry roots kh ph = some e) :
    ∃ pre post, roots = pre ++ e :: post ∧ e.keyHash = kh ∧ e.parentHash = ph ∧
      (∀ f, updateEntry roots kh ph f = pre ++ f e :: post) ∧
      eraseEntry roots kh ph = pre ++ post := by
  induction roots with
  | nil => cases hf
  | cons r roots ih =>
    unfold findEntry at hf
    by_cases hr : r.keyHash = kh ∧ r.parentHash = ph
    · rw [List.find?_cons_of_pos (by simpa using hr), Option.some.injEq] at hf
      subst hf
      refine ⟨[], roots, rfl, hr.1, hr.2, ?_, ?_⟩
      · simp [updateEntry, hr]
      · simp [eraseEntry, hr]
    · rw [List.find?_cons_of_neg (by simpa using hr)] at hf
      obtain ⟨pre, post, hroots, hk, hp, hupd, hers⟩ := ih hf
      refine ⟨r :: pre, post, by rw [hroots]; rfl, hk, hp, ?_, ?_⟩
      · intro f
        simp only [updateEntry, if_neg hr, hupd, List.cons_append]
      · have herase : eraseEntry (r :: roots) kh ph = r :: eraseEntry roots kh ph := by
          unfold eraseEntry
          rw [List.eraseP_cons_of_neg (by simpa using hr)]
        rw [herase, hers]
        rfl

theorem findEntry_mem (hf : findEntry roots kh ph = some e) :
    e ∈ roots ∧ e.keyHash = kh ∧ e.parentHash = ph := by
  obtain ⟨pre, post, hroots, hk, hp, -, -⟩ := findEntry_split hf
  exact ⟨by rw [hroots]; simp, hk, hp⟩

theorem findEntry_eq_none :
    findEntry roots kh ph = none ↔ ∀ r ∈ roots, ¬ (r.keyHash = kh ∧ r.parentHash = ph) := by
  unfold findEntry
  simp

theorem resolveTarget_child (hiveName : Name) (parent : KConfigurationKey) (name : Name) :
    resolveTarget hiveName (some parent) name =
      .ok (configurationKey name, parent.keyHash, name) := rfl

/-! ## References -/

/-- The hive while a call holds a reference on it. -/
def referenced (h : KConfigurationRoot) : KConfigurationRoot :=
  { h with configptrReferences := h.configptrReferences + 1 }

/-- The hive after a call dropped its reference. -/
def released (h : KConfigurationRoot) : KConfigurationRoot :=
  if 1 < h.configptrReferences then
    { h with configptrReferences := h.configptrReferences - 1 }
  else h

/-- Two hives that differ in their reference count at most. -/
structure SameHive (h h' : KConfigurationRoot) : Prop where
  file : h'.file = h.file
  roots : h'.roots = h.roots
  loaded : h'.indexLoaded = h.indexLoaded
  hiveName : h'.hiveName = h.hiveName

namespace SameHive

variable {h h' h'' : KConfigurationRoot}

theorem refl (h : KConfigurationRoot) : SameHive h h := ⟨rfl, rfl, rfl, rfl⟩

theorem trans (a : SameHive h h') (b : SameHive h' h'') : SameHive h h'' :=
  ⟨b.file.trans a.file, b.roots.trans a.roots, b.loaded.trans a.loaded,
    b.hiveName.trans a.hiveName⟩

theorem referenced (h : KConfigurationRoot) : SameHive h (Hive.referenced h) :=
  ⟨rfl, rfl, rfl, rfl⟩

theorem released (h : KConfigurationRoot) : SameHive h (Hive.released h) := by
  unfold Hive.released
  split
  · exact ⟨rfl, rfl, rfl, rfl⟩
  · exact refl h

theorem coherent {chain : List Nat} (S : SameHive h h') (C : Coherent chain h) :
    Coherent chain h' :=
  C.congr S.file S.roots S.loaded

end SameHive

theorem incrementConfigRootReference_eq (h : KConfigurationRoot) : incrementConfigRootReference h =
      if h.configptrReferences = 2 ^ 32 - 1 then (.err .resourceLimitExceeded, h)
      else (.ok (), referenced h) := by
  unfold incrementConfigRootReference
  simp only [Prog.get_bind_apply]
  split <;> rfl

theorem openAndReferenceConfigRoot_eq (hl : h.indexLoaded = true) : openAndReferenceConfigRoot h =
      if h.configptrReferences = 2 ^ 32 - 1 then (.err .resourceLimitExceeded, h)
      else (.ok (), referenced h) := by
  have hopen : ensureRootIsOpened h = (.ok (), h) := by
    simp [ensureRootIsOpened, hl]
  unfold openAndReferenceConfigRoot
  rw [Prog.bind_ok hopen]
  exact incrementConfigRootReference_eq h

theorem withConfigRoot_eq {α : Type} {body : HiveProg α}
    {o : Outcome KernelError α} (hl : h.indexLoaded = true)
    (hrefs : h.configptrReferences ≠ 2 ^ 32 - 1) (hbody : body (referenced h) = (o, h'))
    (ho : o ≠ .stuck) : withConfigRoot body h = (o, released h') := by
  have hopen := openAndReferenceConfigRoot_eq hl
  rw [if_neg hrefs] at hopen
  unfold withConfigRoot
  rw [Prog.bind_ok hopen]
  have hrel : ∀ s, releaseConfigRootReference s = (.ok (), released s) := fun _ => rfl
  cases o with
  | ok a => rw [Prog.bind_ok (Prog.attempt_ok hbody)]; rfl
  | err e => rw [Prog.bind_ok (Prog.attempt_err hbody)]; rfl
  | stuck => exact absurd rfl ho

theorem withConfigRoot_eq_of_max {α : Type} {body : HiveProg α}
    (hl : h.indexLoaded = true) (hrefs : h.configptrReferences = 2 ^ 32 - 1) :
    withConfigRoot body h = (.err .resourceLimitExceeded, h) := by
  have hopen := openAndReferenceConfigRoot_eq hl
  rw [if_pos hrefs] at hopen
  unfold withConfigRoot
  rw [Prog.bind_err hopen]

theorem makeHandle_same (alloc : Bool) (key : KConfigurationKey) (h : KConfigurationRoot) :
    (makeHandle alloc key h).1 ≠ .stuck ∧ SameHive h (makeHandle alloc key h).2 := by
  have hinc := incrementConfigRootReference_eq h
  unfold makeHandle
  cases alloc with
  | false => exact ⟨by simp, SameHive.refl h⟩
  | true =>
    simp only [if_true]
    split at hinc
    · rw [Prog.bind_err hinc]
      exact ⟨by simp, SameHive.refl h⟩
    · rw [Prog.bind_ok hinc]
      exact ⟨by simp, SameHive.referenced h⟩

/-! ## Values under a write -/

/-- The bytes of the value of `r` are the same in both files. -/
def Keeps (h h' : KConfigurationRoot) (r : Root) : Prop :=
  readAt h'.file.bytes r.offset.toNat r.length.toNat =
    readAt h.file.bytes r.offset.toNat r.length.toNat

theorem Keeps.trans {h'' : KConfigurationRoot} (a : Keeps h h' r)
    (b : Keeps h' h'' r) : Keeps h h'' r :=
  Eq.trans b a

theorem keeps_wrote {off : Nat}
    (hdis : r.length ≠ 0 → r.dataEnd ≤ off ∨ off + data.length ≤ r.offset.toNat) :
    Keeps h (h.wrote off data) r := by
  unfold Keeps
  by_cases hlen : r.length = 0
  · rw [hlen]
    rfl
  · exact readAt_writeAt_of_disjoint (hdis hlen)

theorem Coherent.value_outside_pair
    (C : Coherent chain h) (hr : r ∈ h.roots) (hlen : r.length ≠ 0) {b : Nat}
    (hb : b ∈ chain) : r.dataEnd ≤ b ∨ b + blockPairBytes ≤ r.offset.toNat := by
  have S := C.sound r hr
  obtain ⟨hstart, -, hnext⟩ := S.data hlen
  rcases lt_or_ge r.indexBlockOffset.toNat b with hlt | hge
  · exact .inl (hnext b hb hlt)
  · omega

theorem Coherent.keeps_wrote_pair
    (C : Coherent chain h) {b off : Nat} (hb : b ∈ chain) (hoff : b ≤ off)
    (hend : off + data.length ≤ b + blockPairBytes) (hr : r ∈ h.roots) :
    Keeps h (h.wrote off data) r := by
  apply keeps_wrote
  intro hlen
  have hout := C.value_outside_pair hr hlen hb
  omega

theorem Coherent.keeps_wrote_slot (C : Coherent chain h) (he : e ∈ h.roots) (hr : r ∈ h.roots)
    (onDisk : ConfigurationIndexEntry) :
    Keeps h (h.wrote e.indexEntryOffset.toNat onDisk.encode) r := by
  obtain ⟨b, hb, i, hi, hat⟩ := C.exists_at he
  have hbounds := indexSlotOffset_bounds (b := b) hi
  refine C.keeps_wrote_pair hb ?_ ?_ hr
  · rw [hat.slot]
    omega
  · rw [hat.slot, ConfigurationIndexEntry.encode_length]
    simp only [blockBytes, blockPairBytes] at *
    omega

/-! ## Setting a value -/

/-- The hive after `WriteKeyValue` stored `data` under the entry `e`. -/
def valueSet (h : KConfigurationRoot) (e : Root) (type : ConfigurationValueType)
    (data : List UInt8) : KConfigurationRoot :=
  let e' := e.withValue (valueTarget h.roots e data) type data
  let h₁ := h.wrote (valueTarget h.roots e data) data
  let h₂ := { h₁ with roots := updateEntry h.roots e.keyHash e.parentHash fun _ => e' }
  h₂.wrote e'.indexEntryOffset.toNat e'.onDisk.encode

theorem size_le_valueSet (h : KConfigurationRoot) (e : Root) (type : ConfigurationValueType)
    (data : List UInt8) : h.file.size ≤ (valueSet h e type data).file.size := by
  exact le_trans (size_le_wrote h _ data) (size_le_wrote _ _ _)

theorem setKeyValue_eq (hl : h.indexLoaded = true)
    (hf : h.file.faults = []) (key : KConfigurationKey) (value : ConfigurationValue) :
    setKeyValue key value h = match findEntry h.roots key.keyHash key.parentHash with
      | none => (.err .notFound, h)
      | some e => (.ok (), valueSet h e value.type value.payload) := by
  have hready : requireReady h = (.ok (), h) := by
    simp [requireReady, hl]
  unfold setKeyValue
  rw [Prog.bind_ok hready]
  unfold writeKeyValue
  simp only [Prog.get_bind_apply]
  cases hfind : findEntry h.roots key.keyHash key.parentHash with
  | none => rfl
  | some e =>
    obtain ⟨-, hk, hp⟩ := findEntry_mem hfind
    rw [← hk, ← hp]
    simp only []
    rw [Prog.bind_ok (writeRawAt_eq hf)]
    exact writeRawAt_eq hf

/-- A value of `n` bytes can be stored under `e`: when it does not fit in the old
    place, the end of the block's data region has room for it before the next block
    pair and before the 4 GiB limit of the offset field. -/
def ValueFits (h : KConfigurationRoot) (e : Root) (n : Nat) : Prop :=
  e.length.toNat < n →
    computeDataRegionEnd h.roots e.indexBlockOffset.toNat + n ≤ 2 ^ 32 ∧
    ∀ b ∈ indexBlocks h, e.indexBlockOffset.toNat < b →
      computeDataRegionEnd h.roots e.indexBlockOffset.toNat + n ≤ b

/-- The place `WriteKeyValue` chooses for a value that fits. -/
structure ClearTarget (chain : List Nat) (h : KConfigurationRoot) (e : Root) (target n : Nat) :
    Prop where
  target_lt : target < 2 ^ 32
  size_lt : n < 2 ^ 32
  behind : n ≠ 0 → e.indexBlockOffset.toNat + blockPairBytes ≤ target
  before : n ≠ 0 → ∀ b ∈ chain, e.indexBlockOffset.toNat < b → target + n ≤ b
  apart : n ≠ 0 → ∀ r ∈ h.roots, r ≠ e → r.length ≠ 0 →
    r.dataEnd ≤ target ∨ target + n ≤ r.offset.toNat

theorem Coherent.clearTarget (C : Coherent chain h)
    (he : e ∈ h.roots) (fits : ValueFits h e data.length) :
    ClearTarget chain h e (valueTarget h.roots e data) data.length := by
  have S := C.sound e he
  unfold valueTarget
  by_cases hgrow : e.length.toNat < data.length
  · -- The value moves to the end of the data region.
    obtain ⟨h32, hnext⟩ := fits hgrow
    rw [C.layout.indexBlocks_eq] at hnext
    have hpair := pair_le_computeDataRegionEnd h.roots e.indexBlockOffset.toNat
    have hpos : 0 < blockPairBytes := by decide
    rw [if_pos hgrow]
    refine ⟨by omega, by omega, fun _ => hpair, fun _ => hnext, ?_⟩
    intro _ r hr hne hlen
    have R := C.sound r hr
    rcases lt_trichotomy r.indexBlockOffset.toNat e.indexBlockOffset.toNat with hlt | heq | hgt
    · have hend := (R.data hlen).2.2 _ S.block_mem hlt
      omega
    · left
      rw [← heq]
      exact dataEnd_le_computeDataRegionEnd hr
    · have hstart := (R.data hlen).1
      have hbound := hnext _ R.block_mem hgt
      omega
  · -- The value stays where it is.
    have hoff := e.offset.toNat_lt
    have hlen := e.length.toNat_lt
    have hnz : data.length ≠ 0 → e.length ≠ 0 := by
      intro hn hz
      rw [hz] at hgrow
      simp only [UInt32.toNat_zero] at hgrow
      omega
    rw [if_neg hgrow]
    refine ⟨by omega, by omega, ?_, ?_, ?_⟩
    · exact fun hn => (S.data (hnz hn)).1
    · intro hn b hb hlt
      have hend := (S.data (hnz hn)).2.2 b hb hlt
      unfold Root.dataEnd at hend
      omega
    · intro hn r hr hne hrlen
      have hap := C.apart r hr e he hne
      unfold Root.Apart Root.dataEnd at *
      rcases hap with h0 | h0 | h0 | h0
      · exact absurd h0 hrlen
      · exact absurd h0 (hnz hn)
      · exact .inl h0
      · exact .inr (by omega)

theorem Coherent.wrote_value (C : Coherent chain h) {target : Nat}
    (T : ClearTarget chain h e target data.length) : Coherent chain (h.wrote target data) ∧
      ∀ r ∈ h.roots, r ≠ e → Keeps h (h.wrote target data) r := by
  by_cases hn : data.length = 0
  · have hnil : data = [] := List.eq_nil_of_length_eq_zero hn
    have hsame : h.wrote target data = h := by
      rw [hnil]
      unfold KConfigurationRoot.wrote HiveFile.write
      rw [writeAt_nil]
      rfl
    rw [hsame]
    exact ⟨C, fun r _ _ => rfl⟩
  · have hbehind := T.behind hn
    refine ⟨C.wrote_outside ?_ ?_, ?_⟩
    · simp only [blockPairBytes, headerBytes] at *
      omega
    · intro b hb
      have hnext := T.before hn b hb
      simp only [blockPairBytes, blockBytes] at *
      omega
    · intro r hr hne
      exact keeps_wrote (T.apart hn r hr hne)

theorem withValue_dataEnd {target : Nat} (T : ClearTarget chain h e target data.length)
    (type : ConfigurationValueType) : (e.withValue target type data).offset.toNat = target ∧
      (e.withValue target type data).length.toNat = data.length := by
  exact ⟨Nat.mod_eq_of_lt T.target_lt, Nat.mod_eq_of_lt T.size_lt⟩

/-! ## Rewriting and removing entries -/

/-- `e'` is `e` with another value: same identity, slot and name. -/
structure Root.SameSlot (e e' : Root) : Prop where
  keyHash : e'.keyHash = e.keyHash
  parentHash : e'.parentHash = e.parentHash
  indexEntryOffset : e'.indexEntryOffset = e.indexEntryOffset
  indexBlockOffset : e'.indexBlockOffset = e.indexBlockOffset
  nameEntryIndex : e'.nameEntryIndex = e.nameEntryIndex

namespace Coherent

variable {chain : List Nat} {h : KConfigurationRoot}

theorem others_elsewhere (C : Coherent chain h) {pre post : List Root} {e : Root}
    (hroots : h.roots = pre ++ e :: post) {r : Root} (hr : r ∈ pre ++ post) :
    r ∈ h.roots ∧ r ≠ e ∧ r.indexEntryOffset.toNat ≠ e.indexEntryOffset.toNat := by
  have hnd := C.nodup
  rw [hroots, List.nodup_middle, List.nodup_cons] at hnd
  have hmem : r ∈ h.roots := by
    rw [hroots]
    simp only [List.mem_append] at hr ⊢
    tauto
  have hne : r ≠ e := by
    rintro rfl
    exact hnd.1 hr
  refine ⟨hmem, hne, ?_⟩
  intro heq
  exact hne (C.slots r hmem e (by rw [hroots]; simp) (UInt32.toNat_inj.mp heq))

/-- The entry on disk follows the one in memory. -/
theorem persistUpdate (C : Coherent chain h) {kh ph : UInt64} {e e' : Root}
    (hfind : findEntry h.roots kh ph = some e) (hsame : e.SameSlot e')
    (hdata : e'.length ≠ 0 → e'.indexBlockOffset.toNat + blockPairBytes ≤ e'.offset.toNat ∧
      e'.dataEnd ≤ h.file.size ∧ ∀ b ∈ chain, e'.indexBlockOffset.toNat < b → e'.dataEnd ≤ b)
    (hapart : ∀ r ∈ h.roots, r ≠ e → e'.Apart r) :
    Coherent chain (({ h with roots := updateEntry h.roots kh ph fun _ => e' }).wrote
      e'.indexEntryOffset.toNat e'.onDisk.encode) := by
  obtain ⟨pre, post, hroots, hk, hp, hupd, -⟩ := findEntry_split hfind
  have he : e ∈ h.roots := by
    rw [hroots]
    simp
  obtain ⟨b, hb, i, hi, hat⟩ := C.exists_at he
  have hat' : e'.At b i := by
    constructor
    · rw [hsame.indexBlockOffset]
      exact hat.block
    · rw [hsame.indexEntryOffset]
      exact hat.slot
  rw [hat'.slot]
  -- The slot is that of the old entry; what is left is about the new one and the others.
  refine C.rewriteSlot pre post (some e) (some e') hroots (hupd fun _ => e') rfl rfl hb hi
    ?_ ?_ ?_ ?_ ?_ ?_
  case refine_1 =>
    rintro r ⟨⟩
    exact hat.slot
  case refine_2 =>
    intro r hr
    rw [← hat.slot]
    exact (C.others_elsewhere hroots hr).2.2
  case refine_3 => exact ConfigurationIndexEntry.encode_length _
  case refine_4 => exact nofun
  case refine_5 =>
    rintro r ⟨⟩
    rfl
  case refine_6 =>
    rintro r ⟨⟩
    refine ⟨hat', ⟨⟨b, hb, i, hi, hat'⟩, ?_, ?_, hdata⟩, ?_, ?_⟩
    · rw [hsame.keyHash]
      exact (C.sound e he).hashed
    · rw [hsame.nameEntryIndex]
      exact (C.sound e he).nameIndex
    · rintro s hs ⟨hks, hps⟩
      obtain ⟨hmem, hne, -⟩ := C.others_elsewhere hroots hs
      rw [hsame.keyHash] at hks
      rw [hsame.parentHash] at hps
      exact hne (C.identified s hmem e he hks.symm hps.symm)
    · intro s hs
      obtain ⟨hmem, hne, -⟩ := C.others_elsewhere hroots hs
      exact hapart s hmem hne

theorem persistErase (C : Coherent chain h) {kh ph : UInt64} {e : Root} {h' : KConfigurationRoot}
    (hfind : findEntry h.roots kh ph = some e)
    (hfile : h'.file = (h.wrote e.indexEntryOffset.toNat (clearedEntry e).onDisk.encode).file)
    (hroots' : h'.roots = eraseEntry h.roots kh ph) (hloaded : h'.indexLoaded = h.indexLoaded) :
    Coherent chain h' := by
  obtain ⟨pre, post, hroots, hk, hp, -, hers⟩ := findEntry_split hfind
  have he : e ∈ h.roots := by
    rw [hroots]
    simp
  obtain ⟨b, hb, i, hi, hat⟩ := C.exists_at he
  rw [hat.slot] at hfile
  refine C.rewriteSlot pre post (some e) none (b := b) (i := i) hroots (hroots'.trans hers) hfile
    hloaded hb hi ?_ ?_
    (ConfigurationIndexEntry.encode_length _) ?_ (fun r hr => nomatch hr) (fun r hr => nomatch hr)
  case refine_1 =>
    rintro r ⟨⟩
    exact hat.slot
  case refine_2 =>
    intro r hr
    rw [← hat.slot]
    exact (C.others_elsewhere hroots hr).2.2
  case refine_3 =>
    intro _
    exact ConfigurationIndexEntry.encode_take_keyHash _

end Coherent

/-! ## Frames -/

/-- The entry has these two hashes. -/
def Root.Is (kh ph : UInt64) (r : Root) : Prop := r.keyHash = kh ∧ r.parentHash = ph

instance (kh ph : UInt64) (r : Root) : Decidable (r.Is kh ph) :=
  inferInstanceAs (Decidable (_ ∧ _))

/-- A call changed the entry with the hashes `kh` and `ph` at most. -/
structure Touches (kh ph : UInt64) (h h' : KConfigurationRoot) : Prop where
  others : h'.roots.filter (fun r => ¬ r.Is kh ph) = h.roots.filter (fun r => ¬ r.Is kh ph)
  keeps : ∀ r ∈ h.roots, ¬ r.Is kh ph → Keeps h h' r
  loaded : h'.indexLoaded = h.indexLoaded
  hiveName : h'.hiveName = h.hiveName

namespace Touches

variable {kh ph : UInt64} {h h' h'' : KConfigurationRoot}

theorem mem_iff (T : Touches kh ph h h') {r : Root} (hr : ¬ r.Is kh ph) :
    r ∈ h'.roots ↔ r ∈ h.roots := by
  have hmem : r ∈ h'.roots.filter (fun r => ¬ r.Is kh ph) ↔
      r ∈ h.roots.filter (fun r => ¬ r.Is kh ph) := by rw [T.others]
  simpa [hr] using hmem

theorem ofSame (S : SameHive h h') (kh ph : UInt64) : Touches kh ph h h' where
  others := by rw [S.roots]
  keeps := by
    intro r _ _
    unfold Keeps
    rw [S.file]
  loaded := S.loaded
  hiveName := S.hiveName

theorem trans (a : Touches kh ph h h') (b : Touches kh ph h' h'') : Touches kh ph h h'' where
  others := b.others.trans a.others
  keeps := fun r hr hne => (a.keeps r hr hne).trans (b.keeps r ((a.mem_iff hne).mpr hr) hne)
  loaded := b.loaded.trans a.loaded
  hiveName := b.hiveName.trans a.hiveName

end Touches

theorem filter_updateEntry {e' : Root}
    (hfind : findEntry roots kh ph = some e) (hsame : e.SameSlot e') :
    (updateEntry roots kh ph fun _ => e').filter (fun r => ¬ r.Is kh ph) =
      roots.filter (fun r => ¬ r.Is kh ph) := by
  obtain ⟨pre, post, hroots, hk, hp, hupd, -⟩ := findEntry_split hfind
  have he : e.Is kh ph := ⟨hk, hp⟩
  have he' : e'.Is kh ph := ⟨hsame.keyHash.trans hk, hsame.parentHash.trans hp⟩
  rw [hupd fun _ => e', hroots]
  simp [he, he']

theorem filter_eraseEntry (hfind : findEntry roots kh ph = some e) :
    (eraseEntry roots kh ph).filter (fun r => ¬ r.Is kh ph) =
      roots.filter (fun r => ¬ r.Is kh ph) := by
  obtain ⟨pre, post, hroots, hk, hp, -, hers⟩ := findEntry_split hfind
  have he : e.Is kh ph := ⟨hk, hp⟩
  rw [hers, hroots]
  simp [he]

/-! ## The calls -/

theorem withValue_sameSlot (e : Root) (target : Nat) (type : ConfigurationValueType)
    (data : List UInt8) : e.SameSlot (e.withValue target type data) :=
  ⟨rfl, rfl, rfl, rfl, rfl⟩

/-- Setting a value keeps the hive coherent and touches its own key only. -/
theorem valueSet_spec (C : Coherent chain h) (hfind : findEntry h.roots kh ph = some e)
    (fits : ValueFits h e data.length) (type : ConfigurationValueType) :
    Coherent chain (valueSet h e type data) ∧ Touches kh ph h (valueSet h e type data) := by
  obtain ⟨he, hk, hp⟩ := findEntry_mem hfind
  have T := C.clearTarget he fits
  obtain ⟨hoff, hlen⟩ := withValue_dataEnd T type
  obtain ⟨C₁, hkeep⟩ := C.wrote_value T
  let target := valueTarget h.roots e data
  let e' := e.withValue target type data
  have hsame : e.SameSlot e' := withValue_sameSlot e target type data
  have hnz : e'.length ≠ 0 → data.length ≠ 0 := by
    intro hl hz
    apply hl
    apply UInt32.toNat_inj.mp
    rw [hlen, hz]
    rfl
  have C₂ : Coherent chain (valueSet h e type data) := by
    subst hk hp
    apply C₁.persistUpdate hfind hsame
    · intro hl
      have hn := hnz hl
      unfold Root.dataEnd
      rw [hoff, hlen]
      refine ⟨T.behind hn, ?_, T.before hn⟩
      apply end_le_wrote
      intro hnil
      rw [hnil] at hn
      exact hn rfl
    · intro r hr hne
      unfold Root.Apart Root.dataEnd
      rw [hoff, hlen]
      by_cases hr0 : r.length = 0
      · exact .inr (.inl hr0)
      by_cases hl0 : e'.length = 0
      · exact .inl hl0
      · have hap := T.apart (hnz hl0) r hr hne hr0
        tauto
  refine ⟨C₂, ?_, ?_, rfl, rfl⟩
  · subst hk hp
    exact filter_updateEntry hfind hsame
  · intro r hr hne
    have hre : r ≠ e := by
      rintro rfl
      exact hne ⟨hk, hp⟩
    apply (hkeep r hr hre).trans
    exact C₁.keeps_wrote_slot he hr e'.onDisk

/-- A call returned, left a coherent hive and touched one entry at most. -/
structure Returns {α : Type} (kh ph : UInt64) (h : KConfigurationRoot)
    (result : Outcome KernelError α × KConfigurationRoot) : Prop where
  returned : result.1 ≠ .stuck
  coherent : ∃ chain, Coherent chain result.2
  touches : Touches kh ph h result.2

theorem Returns.ofSame {α : Type}
    {o : Outcome KernelError α} (C : Coherent chain h) (ho : o ≠ .stuck) (S : SameHive h h')
    (kh ph : UInt64) : Returns kh ph h (o, h') :=
  ⟨ho, ⟨chain, S.coherent C⟩, Touches.ofSame S kh ph⟩

theorem Returns.withConfigRoot {α : Type} {body : HiveProg α} (C : Coherent chain h)
    (hbody : h.configptrReferences ≠ 2 ^ 32 - 1 →
      Returns kh ph (referenced h) (body (referenced h))) :
    Returns kh ph h (Hive.withConfigRoot body h) := by
  by_cases hrefs : h.configptrReferences = 2 ^ 32 - 1
  · rw [withConfigRoot_eq_of_max C.loaded hrefs]
    exact .ofSame C (by simp) (SameHive.refl h) kh ph
  · have R := hbody hrefs
    rw [withConfigRoot_eq C.loaded hrefs (Prod.eta _).symm R.returned]
    obtain ⟨chain', C'⟩ := R.coherent
    have S := SameHive.released (body (referenced h)).2
    refine ⟨R.returned, ⟨chain', S.coherent C'⟩, ?_⟩
    exact (Touches.ofSame (SameHive.referenced h) kh ph).trans
      (R.touches.trans (Touches.ofSame S kh ph))

theorem setKeyValue_returns (C : Coherent chain h)
    (key : KConfigurationKey) (value : ConfigurationValue)
    (fits : ∀ e, findEntry h.roots key.keyHash key.parentHash = some e →
      ValueFits h e value.payload.length) :
    Returns key.keyHash key.parentHash h (setKeyValue key value h) := by
  rw [setKeyValue_eq C.loaded C.layout.faults]
  cases hfind : findEntry h.roots key.keyHash key.parentHash with
  | none => exact .ofSame C (by simp) (SameHive.refl h) _ _
  | some e =>
    obtain ⟨C', T⟩ := valueSet_spec C hfind (fits e hfind) value.type
    exact ⟨by simp, ⟨chain, C'⟩, T⟩

/-- The hive after `KE_CM_DeleteValue` emptied the entry `e`. -/
def valueDeleted (h : KConfigurationRoot) (e : Root) : KConfigurationRoot :=
  ({ h with roots := updateEntry h.roots e.keyHash e.parentHash fun _ => e.withoutValue }).wrote
    e.withoutValue.indexEntryOffset.toNat e.withoutValue.onDisk.encode

theorem deleteValue_eq (hl : h.indexLoaded = true)
    (hf : h.file.faults = []) (key : KConfigurationKey) (name : Name) : deleteValue key name h =
      match findEntry h.roots (configurationKey name) key.keyHash with
      | none => (.err .notFound, h)
      | some e =>
        if e.valueType = .invalid then (.err .notFound, h) else (.ok (), valueDeleted h e) := by
  have hready : requireReady h = (.ok (), h) := by
    simp [requireReady, hl]
  unfold deleteValue
  rw [Prog.bind_ok hready]
  simp only [Prog.get_bind_apply]
  cases hfind : findEntry h.roots (configurationKey name) key.keyHash with
  | none => rfl
  | some e =>
    obtain ⟨-, hk, hp⟩ := findEntry_mem hfind
    simp only []
    split
    · rfl
    · rw [← hk, ← hp]
      exact writeRawAt_eq hf

theorem deleteValue_returns (C : Coherent chain h) (key : KConfigurationKey) (name : Name) :
    Returns (configurationKey name) key.keyHash h (deleteValue key name h) := by
  rw [deleteValue_eq C.loaded C.layout.faults]
  cases hfind : findEntry h.roots (configurationKey name) key.keyHash with
  | none => exact .ofSame C (by simp) (SameHive.refl h) _ _
  | some e =>
    simp only []
    split
    · exact .ofSame C (by simp) (SameHive.refl h) _ _
    · obtain ⟨he, hk, hp⟩ := findEntry_mem hfind
      rw [← hk, ← hp] at hfind ⊢
      have hsame : e.SameSlot e.withoutValue := ⟨rfl, rfl, rfl, rfl, rfl⟩
      refine ⟨by simp, ⟨chain, ?_⟩, ⟨?_, ?_, rfl, rfl⟩⟩
      · exact C.persistUpdate hfind hsame (absurd rfl) fun r _ _ => .inl rfl
      · exact filter_updateEntry hfind hsame
      · intro r hr _
        exact C.keeps_wrote_slot he hr e.withoutValue.onDisk

/-- The hive after `KE_CM_DeleteKey` removed the entry `e`. -/
def keyDeleted (h : KConfigurationRoot) (e : Root) : KConfigurationRoot :=
  let h₁ := h.wrote e.indexEntryOffset.toNat (clearedEntry e).onDisk.encode
  let h₂ := if e.nameEntryIndex ≠ noNameEntry then
      h₁.wrote (nameSlotOffset e.indexBlockOffset.toNat e.nameEntryIndex.toNat)
        (encodeNameEntry 0 [])
    else h₁
  { h₂ with
    roots := eraseEntry h.roots e.keyHash e.parentHash
    numRoots := h.numRoots - 1 }

theorem keyDeleted_references (h : KConfigurationRoot) (e : Root) :
    (keyDeleted h e).configptrReferences = h.configptrReferences := by
  unfold keyDeleted
  split <;> rfl

theorem keyDeleted_spec (C : Coherent chain h) (hfind : findEntry h.roots kh ph = some e) :
    Coherent chain (keyDeleted h e) ∧ Touches kh ph h (keyDeleted h e) := by
  obtain ⟨he, rfl, rfl⟩ := findEntry_mem hfind
  let h₁ : KConfigurationRoot :=
    { h.wrote e.indexEntryOffset.toNat (clearedEntry e).onDisk.encode with
      roots := eraseEntry h.roots e.keyHash e.parentHash
      numRoots := h.numRoots - 1 }
  have C₁ : Coherent chain h₁ := C.persistErase hfind rfl rfl rfl
  have T₁ : Touches e.keyHash e.parentHash h h₁ :=
    ⟨filter_eraseEntry hfind, fun r hr _ => C.keeps_wrote_slot he hr _, rfl, rfl⟩
  by_cases hname : e.nameEntryIndex = noNameEntry
  · have heq : keyDeleted h e = h₁ := by
      simp only [keyDeleted, h₁, hname, ne_eq, not_true_eq_false, if_false]
    rw [heq]
    exact ⟨C₁, T₁⟩
  · have heq : keyDeleted h e = h₁.wrote (nameSlotOffset e.indexBlockOffset.toNat
        e.nameEntryIndex.toNat) (encodeNameEntry 0 []) := by
      simp only [keyDeleted, hname, ne_eq]
      rfl
    have S := C.sound e he
    have hidx := S.nameIndex.resolve_left hname
    have hbounds := nameSlotOffset_bounds (b := e.indexBlockOffset.toNat) hidx
    rw [heq]
    refine ⟨C₁.wrote_name S.block_mem hidx (encodeNameEntry_length 0 []), T₁.trans ?_⟩
    refine ⟨rfl, ?_, rfl, rfl⟩
    intro r hr _
    refine C₁.keeps_wrote_pair S.block_mem ?_ ?_ hr
    · omega
    · exact hbounds.2

theorem deleteKey_eq (hl : h.indexLoaded = true) (hf : h.file.faults = []) {subKeyName : Name}
    {nm : Name} (hres : resolveTarget h.hiveName parentKey subKeyName = .ok (kh, ph, nm)) :
    deleteKey parentKey subKeyName h =
      if h.configptrReferences = 2 ^ 32 - 1 then (.err .resourceLimitExceeded, h)
      else match findEntry h.roots kh ph with
        | none => (.err .notFound, released (referenced h))
        | some e => (.ok (), released (keyDeleted (referenced h) e)) := by
  have hname : resolveName parentKey subKeyName h = (.ok (kh, ph, nm), h) := by
    simp [resolveName, hres]
  unfold deleteKey
  rw [Prog.bind_ok hname]
  simp only []
  by_cases hrefs : h.configptrReferences = 2 ^ 32 - 1
  · rw [if_pos hrefs, withConfigRoot_eq_of_max hl hrefs]
  · rw [if_neg hrefs]
    cases hfind : findEntry h.roots kh ph with
    | none =>
      refine withConfigRoot_eq hl hrefs ?_ (by simp)
      have hfind' : findEntry (referenced h).roots kh ph = none := hfind
      simp [hfind']
    | some e =>
      obtain ⟨-, rfl, rfl⟩ := findEntry_mem hfind
      refine withConfigRoot_eq hl hrefs ?_ (by simp)
      have hfind' : findEntry (referenced h).roots e.keyHash e.parentHash = some e := hfind
      simp only [Prog.get_bind_apply, hfind']
      have hidx : persistIndexEntry (clearedEntry e) (referenced h) =
          (.ok (), (referenced h).wrote e.indexEntryOffset.toNat (clearedEntry e).onDisk.encode) :=
        writeRawAt_eq hf
      rw [Prog.bind_ok hidx]
      unfold keyDeleted
      split
      · have hnm : persistNameEntry e.indexBlockOffset.toNat e.nameEntryIndex.toNat 0 []
            ((referenced h).wrote e.indexEntryOffset.toNat (clearedEntry e).onDisk.encode) = _ :=
          writeRawAt_eq hf
        rw [Prog.bind_ok (Prog.attempt_ok hnm)]
        rfl
      · rfl

theorem deleteKey_error {subKeyName : Name} {e : KernelError}
    (hres : resolveTarget h.hiveName parentKey subKeyName = .error e) :
    deleteKey parentKey subKeyName h = (.err e, h) := by
  have hname : resolveName parentKey subKeyName h = (.err e, h) := by
    simp [resolveName, hres]
  unfold deleteKey
  rw [Prog.bind_err hname]

theorem deleteKey_returns (C : Coherent chain h) {subKeyName : Name} {nm : Name}
    (hres : resolveTarget h.hiveName parentKey subKeyName = .ok (kh, ph, nm)) :
    Returns kh ph h (deleteKey parentKey subKeyName h) := by
  rw [deleteKey_eq C.loaded C.layout.faults hres]
  have S := SameHive.referenced h
  split
  · exact .ofSame C (by simp) (SameHive.refl h) _ _
  · cases hfind : findEntry h.roots kh ph with
    | none => exact .ofSame C (by simp) (S.trans (SameHive.released _)) _ _
    | some e =>
      obtain ⟨C', T⟩ := keyDeleted_spec (S.coherent C) hfind
      have S' := SameHive.released (keyDeleted (referenced h) e)
      exact ⟨by simp, ⟨chain, S'.coherent C'⟩,
        (Touches.ofSame S kh ph).trans (T.trans (Touches.ofSame S' kh ph))⟩

end UnDOS.Hive
