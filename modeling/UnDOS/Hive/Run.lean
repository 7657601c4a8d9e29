import Mathlib.Data.List.Perm.Basic
import UnDOS.Hive.Create

/-!
# Runs of Configuration Calls

A run is a list of calls on one hive, in any order and with any arguments; a call
that fails is followed by the next one.  `Fits` is what one call needs of the hive
it meets: the slot it takes and the bytes it writes are free.
-/

namespace UnDOS.Hive

open UnDOS.Lib UnDOS.Kernel

/-! ## Calls and runs -/

/-- A call that changes a hive. -/
inductive Call where
  | create (parentKey : Option KConfigurationKey) (subKeyName : Name)
      (access : KConfigurationKeyAccess) (handleAllocated : Bool)
  | delete (parentKey : Option KConfigurationKey) (subKeyName : Name)
  | set (key : KConfigurationKey) (value : ConfigurationValue)
  | deleteValue (key : KConfigurationKey) (valueName : Name)

/-- The call, without the handle that `createKey` returns. -/
def Call.exec : Call → HiveProg Unit
  | create parentKey subKeyName access handleAllocated => do
    let _ ← createKey parentKey subKeyName access handleAllocated
  | delete parentKey subKeyName => Hive.deleteKey parentKey subKeyName
  | set key value => setKeyValue key value
  | deleteValue key valueName => Hive.deleteValue key valueName

/-- One call after the other; errors go to the callers, the hive lives on. -/
def run : List Call → HiveProg Unit
  | [] => pure ()
  | call :: calls => do
    let _ ← Prog.attempt call.exec
    run calls

/-- The hashes of the entry a call addresses. -/
def Call.target (hiveName : Name) : Call → Except KernelError (UInt64 × UInt64)
  | create parentKey subKeyName _ _ =>
    (resolveTarget hiveName parentKey subKeyName).map fun (kh, ph, _) => (kh, ph)
  | delete parentKey subKeyName =>
    (resolveTarget hiveName parentKey subKeyName).map fun (kh, ph, _) => (kh, ph)
  | set key _ => .ok (key.keyHash, key.parentHash)
  | deleteValue key valueName => .ok (configurationKey valueName, key.keyHash)

/-- The call finds what it needs free: a key that has to be added fits in the index,
    a value that has to move fits behind the values of its block. -/
def Call.Fits (h : KConfigurationRoot) : Call → Prop
  | create parentKey subKeyName _ _ =>
    ∀ kh ph nm, resolveTarget h.hiveName parentKey subKeyName = .ok (kh, ph, nm) →
      h.configptrReferences ≠ 2 ^ 32 - 1 → findEntry h.roots kh ph = none → CreateFits h kh
  | delete _ _ => True
  | set key value => ∀ e, findEntry h.roots key.keyHash key.parentHash = some e →
      ValueFits h e value.payload.length
  | deleteValue _ _ => True

/-- Every call of the run fits the hive it meets. -/
def AllFit : List Call → KConfigurationRoot → Prop
  | [], _ => True
  | call :: calls, h => call.Fits h ∧ AllFit calls (call.exec h).2

/-- The hive `FormatEmptyConfigurationFile` leaves in `file`, with its index loaded. -/
def freshHive (hiveName : Name) (file : HiveFile) : KConfigurationRoot :=
  ((do formatEmptyConfigurationFile; ensureRootIsOpened : HiveProg Unit)
    { hiveName := hiveName, file := file }).2

/-! ## One step -/

variable {chain : List Nat} {h : KConfigurationRoot} {file : HiveFile} {i b : Nat}

/-- A call that addresses an entry touches that entry; one that addresses none fails
    and changes nothing. -/
theorem Call.exec_spec (C : Coherent chain h) {call : Call} (fits : call.Fits h) :
    match call.target h.hiveName with
    | .error e => call.exec h = (.err e, h)
    | .ok (kh, ph) => Returns kh ph h (call.exec h) := by
  cases call with
  | create parentKey subKeyName access handleAllocated =>
    cases hres : resolveTarget h.hiveName parentKey subKeyName with
    | error e =>
      simp only [Call.target, hres]
      exact Prog.bind_err (createKey_error hres access handleAllocated)
    | ok target =>
      obtain ⟨kh, ph, nm⟩ := target
      simp only [Call.target, hres]
      have R := createKey_returns C hres (fits kh ph nm hres) access handleAllocated
      cases hrun : createKey parentKey subKeyName access handleAllocated h with
      | mk o h' =>
        rw [hrun] at R
        cases o with
        | ok key =>
          have hexec : (create parentKey subKeyName access handleAllocated).exec h = (.ok (), h') :=
            Prog.bind_ok hrun
          rw [hexec]
          exact ⟨by simp, R.coherent, R.touches⟩
        | err e =>
          have hexec : (create parentKey subKeyName access handleAllocated).exec h = (.err e, h') :=
            Prog.bind_err hrun
          rw [hexec]
          exact ⟨by simp, R.coherent, R.touches⟩
        | stuck => exact absurd rfl R.returned
  | delete parentKey subKeyName =>
    cases hres : resolveTarget h.hiveName parentKey subKeyName with
    | error e =>
      simp only [Call.target, hres]
      exact deleteKey_error hres
    | ok target =>
      simp only [Call.target, hres]
      exact deleteKey_returns C hres
  | set key value => exact setKeyValue_returns C key value fits
  | deleteValue key valueName => exact deleteValue_returns C key valueName

theorem Call.exec_coherent (C : Coherent chain h) {call : Call} (fits : call.Fits h) :
    (call.exec h).1 ≠ .stuck ∧ ∃ chain', Coherent chain' (call.exec h).2 := by
  have hspec := call.exec_spec C fits
  cases htarget : call.target h.hiveName with
  | error e =>
    rw [htarget] at hspec
    rw [hspec]
    exact ⟨by simp, chain, C⟩
  | ok target =>
    rw [htarget] at hspec
    exact ⟨hspec.returned, hspec.coherent⟩

/-! ## Whole runs -/

theorem run_cons {call : Call} (calls : List Call) (hret : (call.exec h).1 ≠ .stuck) :
    run (call :: calls) h = run calls (call.exec h).2 := by
  rw [run]
  cases hrun : call.exec h with
  | mk o h' =>
    rw [hrun] at hret
    cases o with
    | ok u => rw [Prog.bind_ok (Prog.attempt_ok hrun)]
    | err e => rw [Prog.bind_ok (Prog.attempt_err hrun)]
    | stuck => exact absurd rfl hret

/-- A run whose calls all fit returns on a coherent hive. -/
theorem run_coherent (C : Coherent chain h) {calls : List Call} (fits : AllFit calls h) :
    ∃ h' chain', run calls h = (.ok (), h') ∧ Coherent chain' h' := by
  induction calls generalizing chain h with
  | nil => exact ⟨h, chain, rfl, C⟩
  | cons call calls ih =>
    obtain ⟨hret, chain₁, C₁⟩ := call.exec_coherent C fits.1
    obtain ⟨h', chain', hrun, C'⟩ := ih C₁ fits.2
    refine ⟨h', chain', ?_, C'⟩
    rw [run_cons calls hret]
    exact hrun

/-! ## The freshly formatted hive -/

/-- The file `FormatEmptyConfigurationFile` leaves behind. -/
def formattedFile (file : HiveFile) : HiveFile :=
  ((file.write 0 emptyHeader).write headerBytes freshIndexBlock).write
    (headerBytes + blockBytes) freshNameBlock

theorem formatEmptyConfigurationFile_eq (hf : h.file.faults = []) :
    formatEmptyConfigurationFile h = (.ok (), { h with file := formattedFile h.file }) := by
  unfold formatEmptyConfigurationFile
  rw [Prog.bind_ok (writeRawAt_eq hf), Prog.bind_ok (writeRawAt_eq (by simpa using hf)),
    writeRawAt_eq (by simpa using hf)]
  rfl

theorem readAt_formattedFile_block (file : HiveFile) {k n : Nat} (hkn : k + n ≤ blockBytes) :
    readAt (formattedFile file).bytes (headerBytes + k) n = (freshIndexBlock.drop k).take n := by
  show readAt (writeAt (writeAt _ headerBytes freshIndexBlock) _ freshNameBlock) _ n = _
  rw [readAt_writeAt_of_disjoint (by omega), readAt_writeAt_window (by simpa using hkn)]

theorem headerBytes_pair_le (file : HiveFile) :
    headerBytes + blockPairBytes ≤ (formattedFile file).size := by
  have hne : freshNameBlock ≠ [] :=
    List.ne_nil_of_length_pos (by rw [freshNameBlock_length]; decide)
  unfold formattedFile
  simp only [HiveFile.write, if_neg hne, freshNameBlock_length]
  exact le_trans (by decide) (le_max_right _ _)

theorem formatted_layout
    (hfile : h.file = formattedFile file) (hf : file.faults = []) : Layout [headerBytes] h where
  faults := by
    rw [hfile]
    exact hf
  header := by
    have hself := readAt_writeAt_self file.bytes 0 emptyHeader
    rw [hfile]
    exact hself
  head := ⟨[], rfl⟩
  linked := by
    have hread := readAt_formattedFile_block file (k := 0) (n := 4) (by decide)
    rw [add_zero] at hread
    show wordAt h.file.bytes headerBytes 4 = 0
    rw [hfile, wordAt, hread]
    exact Coherent.freshIndexBlock_next
  spaced := List.pairwise_singleton _ _
  inFile := by
    intro b hb
    rw [List.mem_singleton.mp hb, hfile]
    exact headerBytes_pair_le file
  inRange := by
    intro b hb
    rw [List.mem_singleton.mp hb]
    decide

theorem formatted_vacant (file : HiveFile) (hi : i < entriesPerIndexBlock) :
    wordAt (formattedFile file).bytes (indexSlotOffset headerBytes i) 8 = 0 := by
  have hread := readAt_formattedFile_block file (k := 8 + i * 32) (n := 8) (by
    simp only [entriesPerIndexBlock, blockBytes] at *
    omega)
  rw [wordAt, indexSlotOffset, add_assoc, hread]
  exact Coherent.freshIndexBlock_slot hi

theorem formatted_coherent
    (hfile : h.file = formattedFile file) (hf : file.faults = []) (hl : h.indexLoaded = true)
    (hroots : h.roots = []) : Coherent [headerBytes] h := by
  have hnone : ∀ r, r ∉ h.roots := by
    rw [hroots]
    exact fun r hr => nomatch hr
  refine ⟨formatted_layout hfile hf, hl, fun r hr => absurd hr (hnone r),
    fun r hr => absurd hr (hnone r), ?_, ?_, fun r hr => absurd hr (hnone r),
    fun r hr => absurd hr (hnone r), fun r hr => absurd hr (hnone r)⟩
  · intro b hb i hi _
    rw [List.mem_singleton.mp hb, hfile]
    exact formatted_vacant file hi
  · rw [hroots]
    exact List.nodup_nil

/-! ## Loading the index again -/

/-- Everything about an entry but its name. -/
def Root.unnamed (r : Root) : Root := { r with name := [] }

theorem slotBytes_readAt (m : ByteStore) (b : Nat) (hi : i < entriesPerIndexBlock) :
    slotBytes (readAt m b blockBytes) i = readAt m (indexSlotOffset b i) 32 := by
  unfold slotBytes indexSlotOffset
  rw [readAt_drop_take m (by simp only [entriesPerIndexBlock, blockBytes] at *; omega),
    add_assoc]

theorem loadSlot_offset {indexBlock nameBlock : List UInt8} {r : Root}
    (hload : loadSlot b indexBlock nameBlock i = some r) :
    r.indexEntryOffset = UInt32.ofNat (indexSlotOffset b i) := by
  unfold loadSlot at hload
  simp only at hload
  split at hload
  · cases hload
  · cases hload
    rfl

theorem loadSlot_of_vacant {m : ByteStore} (hi : i < entriesPerIndexBlock)
    (hvac : wordAt m (indexSlotOffset b i) 8 = 0) (nameBlock : List UInt8) :
    loadSlot b (readAt m b blockBytes) nameBlock i = none := by
  have hzero : (ConfigurationIndexEntry.decode
      (slotBytes (readAt m b blockBytes) i)).keyHash = 0 := by
    have hwin := readAt_drop_take m (o := indexSlotOffset b i) (n := 32) (k := 0) (j := 8)
      (by decide)
    rw [List.drop_zero, add_zero] at hwin
    rw [slotBytes_readAt _ _ hi]
    simp only [ConfigurationIndexEntry.decode, hwin]
    rw [show leNat (readAt m (indexSlotOffset b i) 8) = 0 from hvac]
    rfl
  unfold loadSlot
  simp only [hzero, if_true]

theorem Coherent.loadSlot_of_mem (C : Coherent chain h) {r : Root} (hr : r ∈ h.roots)
    (hi : i < entriesPerIndexBlock) (hat : r.At b i) (nameBlock : List UInt8) :
    ∃ r', loadSlot b (readAt h.file.bytes b blockBytes) nameBlock i = some r' ∧
      r'.unnamed = r.unnamed := by
  have hbytes : slotBytes (readAt h.file.bytes b blockBytes) i = r.onDisk.encode := by
    rw [slotBytes_readAt _ _ hi, ← hat.slot]
    exact C.stored r hr
  have hk : r.onDisk.keyHash ≠ 0 := (C.sound r hr).hashed
  unfold loadSlot
  simp only [hbytes, ConfigurationIndexEntry.decode_encode, if_neg hk]
  refine ⟨_, rfl, ?_⟩
  have hslot : UInt32.ofNat (indexSlotOffset b i) = r.indexEntryOffset := by
    rw [← hat.slot, UInt32.ofNat_toNat]
  have hblock : UInt32.ofNat b = r.indexBlockOffset := by
    rw [← hat.block, UInt32.ofNat_toNat]
  simp only [Root.unnamed, hslot, hblock, Root.onDisk, ConfigurationValueType.ofRaw_toRaw]

theorem Coherent.mem_of_loadSlot
    (C : Coherent chain h) (hb : b ∈ chain) (hi : i < entriesPerIndexBlock)
    {nameBlock : List UInt8} {r' : Root}
    (hload : loadSlot b (readAt h.file.bytes b blockBytes) nameBlock i = some r') :
    ∃ r ∈ h.roots, r.unnamed = r'.unnamed := by
  by_cases hlive : ∃ r ∈ h.roots, r.indexEntryOffset.toNat = indexSlotOffset b i
  · obtain ⟨r, hr, hslot⟩ := hlive
    obtain ⟨b', hb', i', hi', hat⟩ := C.exists_at hr
    obtain ⟨rfl, rfl⟩ := C.layout.slot_inj hb' hb hi' hi (hat.slot.symm.trans hslot)
    obtain ⟨r'', hload', hsame⟩ := C.loadSlot_of_mem hr hi hat nameBlock
    rw [hload] at hload'
    cases hload'
    exact ⟨r, hr, hsame.symm⟩
  · have hvac := C.vacant b hb i hi (by simpa using hlive)
    rw [loadSlot_of_vacant hi hvac] at hload
    cases hload

theorem mem_blockEntries {m : ByteStore} {r : Root} :
    r ∈ blockEntries m b ↔ ∃ i < entriesPerIndexBlock, loadSlot b (readAt m b blockBytes)
      (readAt m (pairedNameBlockOffset b) blockBytes) i = some r := by
  simp [blockEntries]

theorem Layout.loaded_slots_ne (L : Layout chain h) :
    (chain.flatMap (blockEntries h.file.bytes)).Pairwise
      fun r s => r.indexEntryOffset ≠ s.indexEntryOffset := by
  -- Slot offsets are below 4 GiB, so the cast to `uint32_t` tells them apart.
  have hinj : ∀ b ∈ chain, ∀ b' ∈ chain, ∀ i < entriesPerIndexBlock,
      ∀ i' < entriesPerIndexBlock, ¬ (b = b' ∧ i = i') →
      UInt32.ofNat (indexSlotOffset b i) ≠ UInt32.ofNat (indexSlotOffset b' i') := by
    intro b hb b' hb' i hi i' hi' hne heq
    have h32 := L.inRange b hb
    have h32' := L.inRange b' hb'
    have hbounds := indexSlotOffset_bounds (b := b) hi
    have hbounds' := indexSlotOffset_bounds (b := b') hi'
    have hnat := congrArg UInt32.toNat heq
    simp only [UInt32.toNat_ofNat', blockBytes, blockPairBytes] at *
    rw [Nat.mod_eq_of_lt (by omega), Nat.mod_eq_of_lt (by omega)] at hnat
    exact hne (L.slot_inj hb hb' hi hi' hnat)
  rw [List.pairwise_flatMap]
  constructor
  · intro b hb
    unfold blockEntries
    rw [List.pairwise_filterMap]
    refine List.Pairwise.imp_of_mem ?_ List.pairwise_lt_range
    intro i i' hi hi' hlt r hr s hs
    rw [loadSlot_offset hr, loadSlot_offset hs]
    exact hinj b hb b hb i (List.mem_range.mp hi) i' (List.mem_range.mp hi') (by omega)
  · refine List.Pairwise.imp_of_mem ?_ L.spaced
    intro b b' hb hb' hsp r hr s hs
    obtain ⟨i, hi, hri⟩ := mem_blockEntries.mp hr
    obtain ⟨i', hi', hsi⟩ := mem_blockEntries.mp hs
    rw [loadSlot_offset hri, loadSlot_offset hsi]
    apply hinj b hb b' hb' i hi i' hi'
    simp only [blockPairBytes] at hsp
    omega

/-- Loading a coherent hive again yields its resident entries, up to their order and
    the names. -/
theorem Coherent.loadConfigurationIndex_perm (C : Coherent chain h) :
    ∃ loaded, loadConfigurationIndex h = (.ok loaded, h) ∧
      (loaded.map Root.unnamed).Perm (h.roots.map Root.unnamed) := by
  refine ⟨_, C.layout.loadConfigurationIndex_eq, ?_⟩
  have hnd : ((chain.flatMap (blockEntries h.file.bytes)).map Root.unnamed).Nodup := by
    refine List.Pairwise.map _ ?_ C.layout.loaded_slots_ne
    intro r s hne heq
    have hoff : r.unnamed.indexEntryOffset = s.unnamed.indexEntryOffset := by rw [heq]
    exact hne hoff
  have hnd' : (h.roots.map Root.unnamed).Nodup := by
    refine List.Nodup.map_on ?_ C.nodup
    intro r hr s hs heq
    have hoff : r.unnamed.indexEntryOffset = s.unnamed.indexEntryOffset := by rw [heq]
    exact C.slots r hr s hs hoff
  rw [List.perm_ext_iff_of_nodup hnd hnd']
  intro v
  simp only [List.mem_map, List.mem_flatMap, mem_blockEntries]
  constructor
  · rintro ⟨r', ⟨b, hb, i, hi, hload⟩, rfl⟩
    exact C.mem_of_loadSlot hb hi hload
  · rintro ⟨r, hr, rfl⟩
    obtain ⟨b, hb, i, hi, hat⟩ := C.exists_at hr
    obtain ⟨r', hload, hsame⟩ := C.loadSlot_of_mem hr hi hat _
    exact ⟨r', ⟨b, hb, i, hi, hload⟩, hsame⟩

/-! ## Runs from a fresh hive -/

theorem loadConfigurationIndex_formatted
    (hfile : h.file = formattedFile file) (hf : file.faults = []) :
    loadConfigurationIndex h = (.ok [], h) := by
  have hempty : [headerBytes].flatMap (blockEntries h.file.bytes) = [] := by
    rw [List.flatMap_cons, List.flatMap_nil, List.append_nil, hfile]
    apply List.filterMap_eq_nil_iff.mpr
    intro i hi
    exact loadSlot_of_vacant (List.mem_range.mp hi) (formatted_vacant file (List.mem_range.mp hi)) _
  rw [(formatted_layout hfile hf).loadConfigurationIndex_eq, hempty]

theorem freshHive_eq (hf : file.faults = []) (hiveName : Name) : freshHive hiveName file =
      { hiveName := hiveName, file := formattedFile file, indexLoaded := true } := by
  have hformat := formatEmptyConfigurationFile_eq
    (h := { hiveName := hiveName, file := file }) hf
  have hload := loadConfigurationIndex_formatted
    (h := { hiveName := hiveName, file := formattedFile file }) rfl hf
  have hopen : ensureRootIsOpened { hiveName := hiveName, file := formattedFile file } =
      (.ok (), { hiveName := hiveName, file := formattedFile file, indexLoaded := true }) := by
    exact Prog.bind_ok (Prog.attempt_ok hload)
  unfold freshHive
  rw [Prog.bind_ok hformat, hopen]

theorem freshHive_coherent (hf : file.faults = []) (hiveName : Name) :
    Coherent [headerBytes] (freshHive hiveName file) := by
  rw [freshHive_eq hf]
  exact formatted_coherent rfl hf rfl rfl

end UnDOS.Hive
