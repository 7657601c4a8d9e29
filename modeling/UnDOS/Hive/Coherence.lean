import UnDOS.Hive.Row

/-!
# Memory and Disk Agree

The resident index of a hive and the entries on its disk are the same collection as
long as no call takes a slot or bytes that are in use.  The slot search counts live
entries instead of looking for an empty slot, so after a deletion it can choose the
slot of a live entry; `reused_slot_not_coherent` is the shortest such run.
-/

namespace UnDOS.Hive

open UnDOS.Lib UnDOS.Kernel

/-- Memory and disk agree after every run whose calls all fit: the run returns, and
    loading the file again yields the entries of the resident index. -/
theorem run_loads_resident_index {file : HiveFile} (hf : file.faults = []) (hiveName : Name)
    (calls : List Call) (fits : AllFit calls (freshHive hiveName file)) :
    ∃ h loaded, run calls (freshHive hiveName file) = (.ok (), h) ∧
      loadConfigurationIndex h = (.ok loaded, h) ∧
      (loaded.map Root.unnamed).Perm (h.roots.map Root.unnamed) := by
  obtain ⟨h, chain, hrun, C⟩ := run_coherent (freshHive_coherent hf hiveName) fits
  obtain ⟨loaded, hload, hperm⟩ := C.loadConfigurationIndex_perm
  exact ⟨h, loaded, hrun, hload, hperm⟩

/-- Three keys, two values of which one grows, and a deletion; disk and memory hold the two
    other keys. -/
theorem run_loads_resident_index_create : AllFit sampleRun (freshHive [] {}) ∧
      ∃ h loaded, run sampleRun (freshHive [] {}) = (.ok (), h) ∧
        loadConfigurationIndex h = (.ok loaded, h) ∧
        (loaded.map Root.unnamed).Perm (h.roots.map Root.unnamed) ∧
        h.roots.map (fun r => (r.name, r.offset, r.length)) =
          [([97], 8226, 8), ([98], 8225, 1)] := by
  obtain ⟨hfit, h, i, j, hrun, -, hroots⟩ := sampleRun_spec
  obtain ⟨h', loaded, hrun', hload, hperm⟩ := run_loads_resident_index rfl [] sampleRun hfit
  cases hrun.symm.trans hrun'
  exact ⟨hfit, h, loaded, hrun, hload, hperm, by rw [hroots]; rfl⟩

theorem Layout.slots_ne_of_perm {chain : List Nat} {h : KConfigurationRoot} (L : Layout chain h)
    {loaded roots : List Root} (hload : loadConfigurationIndex h = (.ok loaded, h))
    (hperm : (loaded.map Root.unnamed).Perm (roots.map Root.unnamed)) :
    roots.Pairwise fun r s => r.indexEntryOffset ≠ s.indexEntryOffset := by
  have hloaded : loaded = chain.flatMap (blockEntries h.file.bytes) := by
    rw [L.loadConfigurationIndex_eq] at hload
    cases hload
    rfl
  let R : Root → Root → Prop := fun r s => r.indexEntryOffset ≠ s.indexEntryOffset
  have hne : (loaded.map Root.unnamed).Pairwise R := by
    rw [List.pairwise_map, hloaded]
    exact L.loaded_slots_ne
  have hroots : (roots.map Root.unnamed).Pairwise R :=
    (hperm.pairwise_iff Ne.symm).mp hne
  rw [List.pairwise_map] at hroots
  exact hroots

theorem createTop_takes_second_slot {h : KConfigurationRoot} (C : Coherent [headerBytes] h)
    {B : Root} (hroots : h.roots = [B]) (hblock : B.indexBlockOffset.toNat = headerBytes)
    (hslot : B.indexEntryOffset = UInt32.ofNat (indexSlotOffset headerBytes 1))
    (hrefs : h.configptrReferences + 2 < 2 ^ 32) (name : Name)
    (hne : B.keyHash ≠ configurationKey name) :
    ∃ h' B', (createTop name).exec h = (.ok (), h') ∧ Layout [headerBytes] h' ∧
      h'.roots = [B, B'] ∧ B'.indexEntryOffset = B.indexEntryOffset := by
  have C₁ := (SameHive.referenced h).coherent C
  have hocc : occupied (referenced h).roots headerBytes = 1 := by
    show occupied h.roots headerBytes = 1
    simp [hroots, occupied, hblock]
  have hroom : firstRoomy (referenced h).roots [headerBytes] = some headerBytes := by
    simp [firstRoomy, hocc, entriesPerIndexBlock]
  have hfree := C₁.layout.findOrAllocateFreeSlot_of_room hroom
  rw [hocc] at hfree
  obtain ⟨h₂, idx, hrun, hnamed⟩ := createEntry_eq C₁.layout (by simp) (by decide) hfree
    (configurationKey name) 0 name
  have hcommon : Coherent [headerBytes] h₂ ∧ h₂.roots = h.roots ∧
      h₂.configptrReferences = (referenced h).configptrReferences := by
    rcases hnamed with ⟨rfl, -⟩ | ⟨slot, hlt, -, rfl⟩
    · exact ⟨C₁, rfl, rfl⟩
    · exact ⟨C₁.wrote_name (by simp) hlt (encodeNameEntry_length _ _), rfl, rfl⟩
  obtain ⟨C₂, hroots₂, hrefs₂⟩ := hcommon
  let B' := newEntry (configurationKey name) 0 name (UInt32.ofNat headerBytes)
    (UInt32.ofNat (indexSlotOffset headerBytes 1)) idx
  have hnone : findEntry h.roots (configurationKey name) 0 = none := by
    rw [hroots]
    simp [findEntry, hne]
  have hcall := createKey_ok C.loaded (resolveTarget_child _ rootKey name) hrefs hnone hrun
    hrefs₂ accessKey
  have S := (SameHive.referenced (withEntry h₂ headerBytes 1 B')).trans (SameHive.released _)
  refine ⟨_, B', Prog.bind_ok hcall, ?_, ?_, hslot.symm⟩
  · refine (C₂.layout.wrote (o := indexSlotOffset headerBytes 1) (d := B'.onDisk.encode)
      (by decide) ?_).congr S.file
    intro b hb
    rw [List.mem_singleton.mp hb]
    exact .inl (by decide)
  · rw [S.roots]
    show h₂.roots ++ [B'] = _
    rw [hroots₂, hroots]
    rfl

/-- Two keys, the first of them deleted, and a third key: the number of live entries
    selects the slot of the second key, which is lost on disk. -/
theorem reused_slot_not_coherent :
    ¬ ∃ h loaded, run [createTop [97], createTop [98], .delete (some rootKey) [97],
          createTop [99]] (freshHive [] {}) = (.ok (), h) ∧
        loadConfigurationIndex h = (.ok loaded, h) ∧
        (loaded.map Root.unnamed).Perm (h.roots.map Root.unnamed) := by
  rintro ⟨h, loaded, hrun, hload, hperm⟩
  -- Both keys get their slots.
  obtain ⟨row, h₂, hcreated, -, R, hnames, hrefs⟩ := (freshHive_row emptyFile_faults []).create_all
    [[97], [98]] (by rw [freshHive_eq rfl]; decide) (by decide) (by decide) (by decide)
  have hrefs₂ : h₂.configptrReferences = 3 := by
    rw [hrefs, freshHive_eq rfl]
    rfl
  obtain ⟨idx, idx', rfl⟩ : ∃ idx idx', row = [⟨0, [97], idx⟩, ⟨0, [98], idx'⟩] := by
    match row, hnames with
    | [⟨_, _, idx⟩, ⟨_, _, idx'⟩], rfl => exact ⟨idx, idx', rfl⟩
  -- Deleting the first key leaves the second one in slot 1.
  let A := newEntry (configurationKey [97]) 0 [97] (UInt32.ofNat headerBytes)
    (UInt32.ofNat (indexSlotOffset headerBytes 0)) idx
  let B := newEntry (configurationKey [98]) 0 [98] (UInt32.ofNat headerBytes)
    (UInt32.ofNat (indexSlotOffset headerBytes 1)) idx'
  have hroots : h₂.roots = [A, B] := R.roots
  have hfind : findEntry h₂.roots (configurationKey [97]) 0 = some A := by
    rw [hroots]
    rfl
  obtain ⟨h₃, hdelete, C₃, hroots₃, hrefs₃⟩ := deleteTop R.coherent _ (by omega) (by omega) hfind
  replace hroots₃ : h₃.roots = [B] := by
    rw [hroots₃, hroots]
    rfl
  have hother : B.keyHash ≠ configurationKey [99] := by
    show configurationKey [98] ≠ configurationKey [99]
    decide
  obtain ⟨h₄, B', hexec, L, hroots₄, hsame⟩ := createTop_takes_second_slot C₃ hroots₃
    rfl rfl (by omega) [99] hother
  have hall : Succeeds ([[97], [98]].map createTop ++
      [.delete (some rootKey) [97], createTop [99]]) (freshHive [] {}) h₄ :=
    hcreated.append ⟨h₃, hdelete, h₄, hexec, rfl⟩
  have hfinal : h = h₄ := by
    have heq := hrun.symm.trans hall.run_eq
    cases heq
    rfl
  subst hfinal
  have hne := L.slots_ne_of_perm hload hperm
  rw [hroots₄] at hne
  exact (List.pairwise_cons.mp hne).1 B' (by simp) hsame.symm

end UnDOS.Hive
