import UnDOS.Hive.Row

/-!
# Values Do Not Interfere

Along a run whose calls all fit, the bytes of different values never meet each other
or a block pair, so setting one value is invisible to every other key.

`ComputeDataRegionEnd` bounds the data region of a block only by the values of that
block, not by the block pair that may already follow it.  Once the chain has a second
pair, a value of the first block that grows is written over it.
-/

namespace UnDOS.Hive

open UnDOS.Lib UnDOS.Kernel

/-! ## Reading values -/

theorem findEntry_filter {roots : List Root} {kh ph kh' ph' : UInt64}
    (hne : ¬ (kh' = kh ∧ ph' = ph)) :
    findEntry (roots.filter fun r => ¬ r.Is kh ph) kh' ph' = findEntry roots kh' ph' := by
  unfold findEntry
  induction roots with
  | nil => rfl
  | cons r roots ih =>
    by_cases hr : r.Is kh ph
    · have hother : ¬ (r.keyHash = kh' ∧ r.parentHash = ph') := by
        rintro ⟨hk, hp⟩
        exact hne ⟨hk.symm.trans hr.1, hp.symm.trans hr.2⟩
      rw [List.filter_cons_of_neg (by simpa using hr),
        List.find?_cons_of_neg (by simpa using hother)]
      exact ih
    · rw [List.filter_cons_of_pos (by simpa using hr), List.find?_cons, List.find?_cons, ih]

variable {h : KConfigurationRoot} {chain : List Nat}

theorem Touches.findEntry_eq {kh ph kh' ph' : UInt64} {h' : KConfigurationRoot}
    (T : Touches kh ph h h') (hne : ¬ (kh' = kh ∧ ph' = ph)) :
    findEntry h'.roots kh' ph' = findEntry h.roots kh' ph' := by
  rw [← findEntry_filter hne, T.others, findEntry_filter hne]

theorem Coherent.readRawAt_value (C : Coherent chain h) {r : Root} (hr : r ∈ h.roots) :
    readRawAt r.offset.toNat r.length.toNat h =
      (.ok (readAt h.file.bytes r.offset.toNat r.length.toNat), h) := by
  by_cases hlen : r.length = 0
  · rw [hlen]
    exact readRawAt_zero C.layout.faults
  · have hend := ((C.sound r hr).data hlen).2.1
    exact readRawAt_eq C.layout.faults hend

theorem Coherent.getFixedValue_eq
    (C : Coherent chain h) (key : KConfigurationKey) (type : ConfigurationValueType) (size : Nat) :
    getFixedValue key type size h = match findEntry h.roots key.keyHash key.parentHash with
      | none => (.err .notFound, h)
      | some r =>
        if r.valueType ≠ type ∨ r.length.toNat ≠ size then (.err .invalidFormat, h)
        else (.ok (readAt h.file.bytes r.offset.toNat r.length.toNat), h) := by
  have hready : requireReady h = (.ok (), h) := by
    simp [requireReady, C.loaded]
  unfold getFixedValue
  rw [Prog.bind_ok hready]
  unfold readKeyValue
  simp only [Prog.get_bind_apply]
  cases hfind : findEntry h.roots key.keyHash key.parentHash with
  | none => rfl
  | some r =>
    simp only []
    by_cases hbad : r.valueType ≠ type ∨ r.length.toNat ≠ size
    · rw [if_pos hbad, if_pos hbad]
      rfl
    · rw [if_neg hbad, if_neg hbad]
      have hsize : r.length.toNat = size := by
        by_contra hne
        exact hbad (.inr hne)
      rw [← hsize]
      exact C.readRawAt_value (findEntry_mem hfind).1

theorem Coherent.getKeyValueString_eq
    (C : Coherent chain h) (key : KConfigurationKey) (capacity : Nat) :
    getKeyValueString key capacity h = match findEntry h.roots key.keyHash key.parentHash with
      | none => (.err .notFound, h)
      | some r =>
        if r.valueType ≠ .string then (.err .invalidFormat, h)
        else if capacity < r.length.toNat then (.err .bufferTooSmall, h)
        else (.ok (readAt h.file.bytes r.offset.toNat r.length.toNat), h) := by
  have hready : requireReady h = (.ok (), h) := by
    simp [requireReady, C.loaded]
  unfold getKeyValueString
  rw [Prog.bind_ok hready]
  simp only [Prog.get_bind_apply]
  cases hfind : findEntry h.roots key.keyHash key.parentHash with
  | none => rfl
  | some r =>
    simp only []
    by_cases hbad : r.valueType ≠ .string
    · rw [if_pos hbad, if_pos hbad]
      rfl
    · rw [if_neg hbad]
      split
      · rfl
      · exact C.readRawAt_value (findEntry_mem hfind).1

theorem Coherent.getKeyValueStringSize_eq (C : Coherent chain h) (key : KConfigurationKey) :
    getKeyValueStringSize key h = match findEntry h.roots key.keyHash key.parentHash with
      | none => (.err .notFound, h)
      | some r =>
        if r.valueType ≠ .string then (.err .invalidFormat, h) else (.ok r.length.toNat, h) := by
  have hready : requireReady h = (.ok (), h) := by
    simp [requireReady, C.loaded]
  unfold getKeyValueStringSize
  rw [Prog.bind_ok hready]
  simp only [Prog.get_bind_apply]
  cases findEntry h.roots key.keyHash key.parentHash with
  | none => rfl
  | some r =>
    simp only []
    split <;> rfl

/-- Every getter returns the same for `key` in both hives. -/
def SameValues (key : KConfigurationKey) (h h' : KConfigurationRoot) : Prop :=
  (∀ type size, (getFixedValue key type size h').1 = (getFixedValue key type size h).1) ∧
  (∀ capacity, (getKeyValueString key capacity h').1 = (getKeyValueString key capacity h).1) ∧
  (getKeyValueStringSize key h').1 = (getKeyValueStringSize key h).1

/-- A call on one key reads the same values for every other key. -/
theorem Touches.sameValues {chain' : List Nat} {h' : KConfigurationRoot} {kh ph : UInt64}
    (T : Touches kh ph h h') (C : Coherent chain h) (C' : Coherent chain' h')
    {key : KConfigurationKey} (hne : ¬ (key.keyHash = kh ∧ key.parentHash = ph)) :
    SameValues key h h' := by
  have hfind := T.findEntry_eq hne
  have hkeeps : ∀ r, findEntry h.roots key.keyHash key.parentHash = some r → Keeps h h' r := by
    intro r hr
    obtain ⟨hmem, hk, hp⟩ := findEntry_mem hr
    apply T.keeps r hmem
    rintro ⟨hk', hp'⟩
    exact hne ⟨hk.symm.trans hk', hp.symm.trans hp'⟩
  refine ⟨?_, ?_, ?_⟩
  · intro type size
    rw [C.getFixedValue_eq, C'.getFixedValue_eq, hfind]
    cases hr : findEntry h.roots key.keyHash key.parentHash with
    | none => rfl
    | some r =>
      have hread : readAt h'.file.bytes _ _ = _ := hkeeps r hr
      simp only []
      split
      · rfl
      · rw [hread]
  · intro capacity
    rw [C.getKeyValueString_eq, C'.getKeyValueString_eq, hfind]
    cases hr : findEntry h.roots key.keyHash key.parentHash with
    | none => rfl
    | some r =>
      have hread : readAt h'.file.bytes _ _ = _ := hkeeps r hr
      simp only []
      split
      · rfl
      · split
        · rfl
        · rw [hread]
  · rw [C.getKeyValueStringSize_eq, C'.getKeyValueStringSize_eq, hfind]
    cases findEntry h.roots key.keyHash key.parentHash with
    | none => rfl
    | some r =>
      simp only []
      split <;> rfl

/-! ## Setting a value -/

theorem valueSet_nameBlock (C : Coherent chain h)
    {e : Root} (he : e ∈ h.roots) {data : List UInt8} (fits : ValueFits h e data.length)
    (type : ConfigurationValueType) {b : Nat} (hb : b ∈ chain) :
    readAt (valueSet h e type data).file.bytes (pairedNameBlockOffset b) blockBytes =
      readAt h.file.bytes (pairedNameBlockOffset b) blockBytes := by
  have T := C.clearTarget he fits
  obtain ⟨c, hc, i, hi, hat⟩ := C.exists_at he
  have hbounds := indexSlotOffset_bounds (b := c) hi
  have hsp := C.layout.eq_or_spaced hc hb
  have hslot : (e.withValue (valueTarget h.roots e data) type data).indexEntryOffset.toNat =
      indexSlotOffset c i := hat.slot
  show readAt (writeAt (writeAt _ _ data) _ _) _ _ = _
  rw [readAt_writeAt_of_disjoint (by
    rw [ConfigurationIndexEntry.encode_length]
    simp only [pairedNameBlockOffset, blockBytes, blockPairBytes] at *
    omega)]
  by_cases hn : data.length = 0
  · rw [List.eq_nil_of_length_eq_zero hn, writeAt_nil]
  · have hbehind := T.behind hn
    have hbefore := T.before hn b hb
    apply readAt_writeAt_of_disjoint
    simp only [pairedNameBlockOffset, blockBytes, blockPairBytes] at *
    omega

/-- What setting the value of one entry leaves as it was for the entry `r`. -/
structure Undisturbed (h h' : KConfigurationRoot) (r : Root) : Prop where
  resident : r ∈ h'.roots
  values : SameValues { keyHash := r.keyHash, parentHash := r.parentHash } h h'
  indexEntry : readAt h'.file.bytes r.indexEntryOffset.toNat 32 =
    readAt h.file.bytes r.indexEntryOffset.toNat 32
  nameEntry : r.nameEntryIndex ≠ noNameEntry →
    readAt h'.file.bytes (nameSlotOffset r.indexBlockOffset.toNat r.nameEntryIndex.toNat) 72 =
      readAt h.file.bytes (nameSlotOffset r.indexBlockOffset.toNat r.nameEntryIndex.toNat) 72

theorem setKeyValue_undisturbed (C : Coherent chain h)
    {key : KConfigurationKey} {value : ConfigurationValue} (fits : (Call.set key value).Fits h)
    {r : Root} (hr : r ∈ h.roots) (hne : ¬ r.Is key.keyHash key.parentHash) :
    Undisturbed h (setKeyValue key value h).2 r := by
  have heval := setKeyValue_eq C.loaded C.layout.faults key value
  cases hfind : findEntry h.roots key.keyHash key.parentHash with
  | none =>
    rw [hfind] at heval
    rw [heval]
    exact ⟨hr, ⟨fun _ _ => rfl, fun _ => rfl, rfl⟩, rfl, fun _ => rfl⟩
  | some e =>
    rw [hfind] at heval
    rw [heval]
    obtain ⟨C', T⟩ := valueSet_spec C hfind (fits e hfind) value.type
    have hr' := (T.mem_iff hne).mpr hr
    refine ⟨hr', T.sameValues C C' hne, ?_, ?_⟩
    · rw [C'.stored r hr', C.stored r hr]
    · intro hname
      have S := C.sound r hr
      have hidx := S.nameIndex.resolve_left hname
      have hblock := valueSet_nameBlock C (findEntry_mem hfind).1 (fits e hfind) value.type
        S.block_mem
      -- A name slot is a window of its NAME BLOCK.
      have hwin := fun m => readAt_drop_take m
        (o := pairedNameBlockOffset r.indexBlockOffset.toNat) (n := blockBytes)
        (k := 8 + r.nameEntryIndex.toNat * 72) (j := 72) (by
          simp only [entriesPerNameBlock, blockBytes] at *
          omega)
      have hslot : nameSlotOffset r.indexBlockOffset.toNat r.nameEntryIndex.toNat =
          pairedNameBlockOffset r.indexBlockOffset.toNat + (8 + r.nameEntryIndex.toNat * 72) := by
        unfold nameSlotOffset
        omega
      rw [hslot, ← hwin, ← hwin, hblock]

/-! ## Runs -/

/-- No two values share a byte, and no value reaches into a block pair of the chain. -/
structure Separated (h : KConfigurationRoot) : Prop where
  values : h.roots.Pairwise Root.Apart
  blocks : ∀ r ∈ h.roots, r.length ≠ 0 → ∀ b ∈ indexBlocks h,
    r.dataEnd ≤ b ∨ b + blockPairBytes ≤ r.offset.toNat

theorem Coherent.separated (C : Coherent chain h) : Separated h where
  values := C.nodup.pairwise_of_forall_ne C.apart
  blocks := by
    intro r hr hlen b hb
    rw [C.layout.indexBlocks_eq] at hb
    exact C.value_outside_pair hr hlen hb

/-- After every run whose calls all fit, values are separated, and setting one that
    fits disturbs no other key. -/
theorem run_values_separated {file : HiveFile} (hf : file.faults = []) (hiveName : Name)
    (calls : List Call) (fits : AllFit calls (freshHive hiveName file)) :
    ∃ h, run calls (freshHive hiveName file) = (.ok (), h) ∧ Separated h ∧
      ∀ key value, (Call.set key value).Fits h → ∀ r ∈ h.roots,
        ¬ r.Is key.keyHash key.parentHash → Undisturbed h (setKeyValue key value h).2 r := by
  obtain ⟨h, chain, hrun, C⟩ := run_coherent (freshHive_coherent hf hiveName) fits
  refine ⟨h, hrun, C.separated, ?_⟩
  intro key value hset r hr hne
  exact setKeyValue_undisturbed C hset hr hne

set_option maxRecDepth 10000 in
/-- Two keys with values, one of which has grown; growing it once more leaves the other
    one alone. -/
theorem run_values_separated_create : AllFit sampleRun (freshHive [] {}) ∧
      ∃ h, run sampleRun (freshHive [] {}) = (.ok (), h) ∧ Separated h ∧
        h.roots.map (fun r => (r.name, r.offset, r.length)) = [([97], 8226, 8), ([98], 8225, 1)] ∧
        ∃ r ∈ h.roots, r.name = [98] ∧
          Undisturbed h (setKeyValue (topKey [97]) (.string (List.replicate 9 120)) h).2 r := by
  obtain ⟨hfit, h, i, j, hrun, C, hroots⟩ := sampleRun_spec
  obtain ⟨h', hrun', hsep, hset⟩ := run_values_separated rfl [] sampleRun hfit
  cases hrun.symm.trans hrun'
  -- The value of the first key ends the data region, so it moves behind itself.
  have hfits := (setKeyValue_single C (topKey [97]) _ 8234
    (.string (List.replicate 9 120)) (by rw [hroots]; rfl) (by rw [hroots]; rfl) (by decide)).1
  have hmem : sampleEntry [98] 1 j .boolean 8225 1 ∈ h.roots := by
    rw [hroots]
    simp
  refine ⟨hfit, h, hrun, hsep, by rw [hroots]; rfl, _, hmem, rfl, hset _ _ hfits _ hmem ?_⟩
  rintro ⟨hkey, -⟩
  exact absurd (show configurationKey [98] = configurationKey [97] from hkey) (by decide)

/-! ## The second block pair -/

theorem computeDataRegionEnd_rowEntries (row : List RowKey) (b : Nat) :
    computeDataRegionEnd (rowEntries row) b = b + blockPairBytes := by
  apply computeDataRegionEnd_eq_of_empty
  intro r hr _
  obtain ⟨i, -, key, -, rfl⟩ := mem_rowEntries hr
  exact Nat.zero_le _

/-- One key more than the first block holds is created in a second block pair, which
    starts where the data region of the first one starts. -/
theorem Row.create_full {row : List RowKey} (R : Row row h)
    (name : Name) (hrefs : h.configptrReferences + 2 < 2 ^ 32)
    (hlen : row.length = entriesPerIndexBlock) (hne : configurationKey name ≠ 0)
    (hnew : NewIn row 0 name) : ∃ h' r, (createTop name).exec h = (.ok (), h') ∧
      Coherent [headerBytes, headerBytes + blockPairBytes] h' ∧
      h'.roots = rowEntries row ++ [r] ∧ r.dataEnd = 0 := by
  have hnone := R.findEntry_eq_none hnew
  have hroom : firstRoomy h.roots [headerBytes] = none := by
    have hocc := occupied_rowEntries row
    simp [firstRoomy, R.roots, hocc, hlen]
  have hend : computeDataRegionEnd h.roots headerBytes = headerBytes + blockPairBytes := by
    rw [R.roots]
    exact computeDataRegionEnd_rowEntries row headerBytes
  have fits : CreateFits h (configurationKey name) := by
    refine ⟨hne, ?_⟩
    rw [R.coherent.layout.indexBlocks_eq, hroom]
    intro last hlast
    simp only [List.getLast?_singleton, Option.mem_some_iff] at hlast
    rw [← hlast, hend]
    decide
  obtain ⟨chain', h', hrun, N⟩ := createEntry_spec
    ((SameHive.referenced h).coherent R.coherent) fits
    (show findEntry (referenced h).roots (configurationKey name) 0 = none from hnone) name
  obtain ⟨b, i, idx, hchoice, hroots⟩ := N.entry
  have hroom' : firstRoomy (referenced h).roots [headerBytes] = none := hroom
  simp only [SlotChoice, hroom', List.getLast?_singleton, Option.some.injEq] at hchoice
  obtain ⟨last, rfl, rfl, rfl, rfl⟩ := hchoice
  have hend' : computeDataRegionEnd (referenced h).roots headerBytes =
      headerBytes + blockPairBytes := hend
  have hcall := createKey_ok R.coherent.loaded (resolveTarget_child _ rootKey name) hrefs hnone
    hrun N.references accessKey
  have S := (SameHive.referenced h').trans (SameHive.released _)
  have C' := S.coherent N.coherent
  rw [hend'] at C'
  have hroots' := S.roots.trans hroots
  rw [show (referenced h).roots = rowEntries row from R.roots] at hroots'
  exact ⟨_, _, Prog.bind_ok hcall, C', hroots', rfl⟩

/-- As many key names as the first block has slots. -/
def firstNames : List Name := (List.range 127).map fun i => [UInt8.ofNat i]

theorem firstNames_hashes : ((firstNames ++ [[127]]).map configurationKey).Nodup ∧
    ∀ name ∈ firstNames ++ [[127]], configurationKey name ≠ 0 := by
  decide +kernel

/-- The byte range of a value that grew after the second block pair was appended lies
    in that pair's INDEX BLOCK. -/
theorem grown_value_meets_next_block : ∃ h, Succeeds (firstNames.map createTop ++ [createTop [127],
        .set { keyHash := configurationKey [0], parentHash := 0 } (.boolean true)])
      (freshHive [] {}) h ∧ ¬ Separated h := by
  obtain ⟨hnd, hne⟩ := firstNames_hashes
  -- 127 keys fill the first block, one more opens the second pair.
  obtain ⟨row, h₁, hcreated, -, R, hnames, hrefs⟩ := (freshHive_row emptyFile_faults []).create_all
    firstNames (by rw [freshHive_eq rfl]; simp [firstNames])
    (by simp [firstNames, entriesPerIndexBlock])
    (fun n hn => hne n (List.mem_append_left _ hn))
    (by rw [List.map_append] at hnd; simpa using (List.nodup_append.mp hnd).1)
  rw [List.map_nil, List.nil_append] at hnames
  have hlen : row.length = entriesPerIndexBlock := by
    rw [← List.length_map (f := fun key : RowKey => (key.parentHash, key.name)), hnames]
    simp [firstNames, entriesPerIndexBlock]
  have hrefs₁ : h₁.configptrReferences + 2 < 2 ^ 32 := by
    rw [hrefs, freshHive_eq rfl]
    simp [firstNames]
  obtain ⟨h₂, last, hexec, C, hroots, hlast⟩ := R.create_full [127] hrefs₁ hlen
    (hne [127] (by simp)) (by
      rintro key hkey ⟨heq, -⟩
      rw [List.map_append, List.nodup_append] at hnd
      have hmem : (key.parentHash, key.name) ∈
          firstNames.map (fun name => ((0 : UInt64), name)) := by
        rw [← hnames]
        exact List.mem_map_of_mem hkey
      obtain ⟨name, hname, hpair⟩ := List.mem_map.mp hmem
      obtain ⟨-, rfl⟩ := Prod.mk.inj hpair
      exact hnd.2.2 _ (List.mem_map_of_mem hname) _ (by simp) heq)
  obtain ⟨idx, row', rfl⟩ : ∃ idx row', row = ⟨0, [0], idx⟩ :: row' := by
    obtain _ | ⟨⟨_, _, idx⟩, row'⟩ := row
    · cases hnames
    · obtain ⟨hhead, -⟩ := List.cons.inj hnames
      cases hhead
      exact ⟨idx, row', rfl⟩
  -- The first key's value is placed at the end of the first data region: at the pair.
  let A := newEntry (configurationKey [0]) 0 [0] (UInt32.ofNat headerBytes)
    (UInt32.ofNat (indexSlotOffset headerBytes 0)) idx
  have hfind : findEntry h₂.roots (configurationKey [0]) 0 = some A := by
    rw [hroots, rowEntries, List.mapIdx_cons]
    exact List.find?_cons_of_pos (by simp [newEntry])
  have hend : computeDataRegionEnd h₂.roots headerBytes = headerBytes + blockPairBytes := by
    apply computeDataRegionEnd_eq_of_empty
    intro r hr _
    rw [hroots] at hr
    rcases List.mem_append.mp hr with hrow | hnew
    · obtain ⟨i, -, key, -, rfl⟩ := mem_rowEntries hrow
      exact Nat.zero_le _
    · rw [List.mem_singleton.mp hnew, hlast]
      exact Nat.zero_le _
  have hset := setKeyValue_eq C.loaded C.layout.faults
    { keyHash := configurationKey [0], parentHash := 0 } (.boolean true)
  simp only [hfind] at hset
  refine ⟨_, hcreated.append ⟨h₂, hexec, _, hset, rfl⟩, ?_⟩
  intro S
  have htarget : valueTarget h₂.roots A [1] = headerBytes + blockPairBytes := hend
  let A' := A.withValue (headerBytes + blockPairBytes) .boolean [1]
  have hstate : (valueSet h₂ A .boolean [1]).roots =
      updateEntry h₂.roots (configurationKey [0]) 0 fun _ => A' := by
    simp only [A', ← htarget]
    rfl
  have hmem : A' ∈ (valueSet h₂ A .boolean [1]).roots := by
    obtain ⟨pre, post, -, -, -, hupd, -⟩ := findEntry_split hfind
    rw [hstate, hupd]
    simp
  -- The link to the second pair is still in place.
  have hnext : wordAt (valueSet h₂ A .boolean [1]).file.bytes headerBytes 4 =
      headerBytes + blockPairBytes := by
    show wordAt (writeAt (writeAt _ _ _) (indexSlotOffset headerBytes 0) _) _ 4 = _
    rw [htarget]
    exact C.layout.linked.1
  have hsize : 2 ≤ (valueSet h₂ A .boolean [1]).file.size := by
    have hin := C.layout.inFile headerBytes (by simp)
    have hle := size_le_valueSet h₂ A .boolean [1]
    simp only [blockPairBytes] at hin
    omega
  have hoff : A'.offset.toNat = headerBytes + blockPairBytes := rfl
  have hlength : A'.length.toNat = 1 := rfl
  have hbad := S.blocks A' hmem (by intro h0; rw [h0] at hlength; cases hlength) _
    (mem_indexBlocks_of_next hsize hnext (by decide))
  rw [Root.dataEnd, hoff] at hbad
  simp only [blockPairBytes] at hbad
  omega

end UnDOS.Hive
