import UnDOS.Hive.Run

/-!
# A Row of Fresh Keys

Keys created one after the other below the hive root, with different hashes, take
the slots of the first block from left to right (`Row`).
-/

namespace UnDOS.Hive

open UnDOS.Lib UnDOS.Kernel

/-- Every call of the run succeeds. -/
def Succeeds : List Call → KConfigurationRoot → KConfigurationRoot → Prop
  | [], h, h' => h' = h
  | call :: calls, h, h' => ∃ h₁, call.exec h = (.ok (), h₁) ∧ Succeeds calls h₁ h'

variable {h h' : KConfigurationRoot}

theorem Succeeds.append {calls calls' : List Call} {h₁ : KConfigurationRoot}
    (a : Succeeds calls h h₁) (b : Succeeds calls' h₁ h') : Succeeds (calls ++ calls') h h' := by
  induction calls generalizing h with
  | nil =>
    have heq : h₁ = h := a
    subst heq
    exact b
  | cons call calls ih =>
    obtain ⟨h₂, hexec, hrest⟩ := a
    exact ⟨h₂, hexec, ih hrest⟩

theorem Succeeds.run_eq {calls : List Call}
    (s : Succeeds calls h h') : run calls h = (.ok (), h') := by
  induction calls generalizing h with
  | nil =>
    have heq : h' = h := s
    rw [heq]
    rfl
  | cons call calls ih =>
    obtain ⟨h₁, hexec, hrest⟩ := s
    rw [run_cons calls (by rw [hexec]; simp), hexec]
    exact ih hrest

theorem AllFit.cons {call : Call} {calls : List Call} {h₁ : KConfigurationRoot} (fits : call.Fits h)
    (hexec : call.exec h = (.ok (), h₁)) (hrest : AllFit calls h₁) : AllFit (call :: calls) h := by
  refine ⟨fits, ?_⟩
  rw [hexec]
  exact hrest

theorem AllFit.append {calls calls' : List Call} (a : AllFit calls h) (s : Succeeds calls h h')
    (b : AllFit calls' h') : AllFit (calls ++ calls') h := by
  induction calls generalizing h with
  | nil =>
    obtain rfl : h' = h := s
    exact b
  | cons call calls ih =>
    obtain ⟨h₁, hexec, hrest⟩ := s
    have hfit := a.2
    rw [hexec] at hfit
    exact AllFit.cons a.1 hexec (ih hfit hrest)

/-- One key of a row. -/
structure RowKey where
  parentHash : UInt64
  name : Name
  nameEntryIndex : UInt16

/-- The entries of a row of keys. -/
def rowEntries (row : List RowKey) : List Root :=
  row.mapIdx fun i key => newEntry (configurationKey key.name) key.parentHash key.name
    (UInt32.ofNat headerBytes) (UInt32.ofNat (indexSlotOffset headerBytes i)) key.nameEntryIndex

/-- The hive holds exactly the keys of `row`, in the first slots of its only block. -/
structure Row (row : List RowKey) (h : KConfigurationRoot) : Prop where
  coherent : Coherent [headerBytes] h
  roots : h.roots = rowEntries row

theorem SameHive.row {row : List RowKey} (S : SameHive h h') (R : Row row h) : Row row h' :=
  ⟨S.coherent R.coherent, S.roots.trans R.roots⟩

theorem rowEntries_append (row : List RowKey) (key : RowKey) :
    rowEntries (row ++ [key]) = rowEntries row ++
      [newEntry (configurationKey key.name) key.parentHash key.name (UInt32.ofNat headerBytes)
        (UInt32.ofNat (indexSlotOffset headerBytes row.length)) key.nameEntryIndex] := by
  simp [rowEntries]

theorem mem_rowEntries {row : List RowKey} {r : Root} (hr : r ∈ rowEntries row) :
    ∃ i < row.length, ∃ key ∈ row, r = newEntry (configurationKey key.name) key.parentHash key.name
      (UInt32.ofNat headerBytes) (UInt32.ofNat (indexSlotOffset headerBytes i))
      key.nameEntryIndex := by
  obtain ⟨i, hi, rfl⟩ := List.mem_mapIdx.mp hr
  exact ⟨i, hi, row[i], List.getElem_mem hi, rfl⟩

theorem occupied_rowEntries (row : List RowKey) :
    occupied (rowEntries row) headerBytes = row.length := by
  have hall : (rowEntries row).filter
      (fun entry => entry.indexBlockOffset.toNat = headerBytes) = rowEntries row := by
    rw [List.filter_eq_self]
    intro r hr
    obtain ⟨i, -, key, -, rfl⟩ := mem_rowEntries hr
    rfl
  rw [occupied, hall, rowEntries, List.length_mapIdx]

theorem emptyFile_faults : ({} : HiveFile).faults = [] := rfl

theorem freshHive_row {file : HiveFile} (hf : file.faults = []) (hiveName : Name) :
    Row [] (freshHive hiveName file) := by
  refine ⟨freshHive_coherent hf hiveName, ?_⟩
  rw [freshHive_eq hf]
  rfl

/-! ## Extending a row -/

/-- No key of the row has the hashes of the key `name` below `parentHash`. -/
def NewIn (row : List RowKey) (parentHash : UInt64) (name : Name) : Prop :=
  ∀ key ∈ row, ¬ (configurationKey key.name = configurationKey name ∧ key.parentHash = parentHash)

namespace Row

variable {row : List RowKey} {h : KConfigurationRoot}

theorem firstRoomy_eq (R : Row row h) (hlen : row.length < entriesPerIndexBlock) :
    firstRoomy h.roots [headerBytes] = some headerBytes := by
  have hocc := occupied_rowEntries row
  simp [firstRoomy, R.roots, hocc, hlen]

theorem findEntry_eq_none (R : Row row h) {parentHash : UInt64} {name : Name}
    (hnew : NewIn row parentHash name) :
    findEntry h.roots (configurationKey name) parentHash = none := by
  rw [Hive.findEntry_eq_none, R.roots]
  intro r hr
  obtain ⟨i, -, key, hkey, rfl⟩ := mem_rowEntries hr
  exact hnew key hkey

theorem createFits (R : Row row h) (hlen : row.length < entriesPerIndexBlock) {kh : UInt64}
    (hne : kh ≠ 0) : CreateFits h kh := by
  refine ⟨hne, ?_⟩
  rw [R.coherent.layout.indexBlocks_eq, R.firstRoomy_eq hlen]
  intro r hr
  rw [R.roots] at hr ⊢
  obtain ⟨i, hi, key, -, rfl⟩ := mem_rowEntries hr
  have hslot := R.coherent.layout.slot_toNat_ofNat (b := headerBytes) (i := i) (by simp) (by omega)
  show (UInt32.ofNat (indexSlotOffset headerBytes i)).toNat ≠ _
  rw [hslot, occupied_rowEntries]
  simp only [indexSlotOffset]
  omega

theorem createEntry (R : Row row h) {parentHash : UInt64} {name : Name}
    (hlen : row.length < entriesPerIndexBlock) (hne : configurationKey name ≠ 0)
    (hnew : NewIn row parentHash name) :
    ∃ idx h', Hive.createEntry (configurationKey name) parentHash name h = (.ok (), h') ∧
      Row (row ++ [⟨parentHash, name, idx⟩]) h' ∧
      h'.configptrReferences = h.configptrReferences := by
  obtain ⟨chain', h', hrun, N⟩ := createEntry_spec R.coherent (R.createFits hlen hne)
    (R.findEntry_eq_none hnew) name
  obtain ⟨b, i, idx, hchoice, hroots⟩ := N.entry
  simp only [SlotChoice, R.firstRoomy_eq hlen] at hchoice
  obtain ⟨rfl, rfl, rfl⟩ := hchoice
  refine ⟨idx, h', hrun, ⟨N.coherent, ?_⟩, N.references⟩
  rw [hroots, R.roots, occupied_rowEntries, rowEntries_append]

end Row

theorem released_referenced (hpos : 0 < h.configptrReferences) :
    (released (referenced h)).configptrReferences = h.configptrReferences := by
  have hlt : 1 < (referenced h).configptrReferences := Nat.succ_lt_succ hpos
  rw [released, if_pos hlt]
  rfl

theorem Row.createKey {row : List RowKey} (R : Row row h)
    (parent : KConfigurationKey) {name : Name} (hrefs : h.configptrReferences + 2 < 2 ^ 32)
    (hlen : row.length < entriesPerIndexBlock) (hne : configurationKey name ≠ 0)
    (hnew : NewIn row parent.keyHash name) :
    ∃ idx h', Hive.createKey (some parent) name accessKey true h =
        (.ok { keyHash := configurationKey name, parentHash := parent.keyHash }, h') ∧
      Row (row ++ [⟨parent.keyHash, name, idx⟩]) h' ∧
      h'.configptrReferences = h.configptrReferences + 1 := by
  obtain ⟨idx, h', hrun, R', hrefs'⟩ :=
    ((SameHive.referenced h).row R).createEntry hlen hne hnew
  have hcall := createKey_ok R.coherent.loaded (resolveTarget_child _ parent name) hrefs
     (R.findEntry_eq_none hnew) hrun hrefs' accessKey
  have hcount : h'.configptrReferences = h.configptrReferences + 1 := hrefs'
  refine ⟨idx, _, hcall, ((SameHive.referenced h').trans (SameHive.released _)).row R', ?_⟩
  rw [released_referenced (by omega), hcount]

/-! ## Keys below the hive root -/

/-- Creating a key below the hive root, with a handle to hold it. -/
def createTop (name : Name) : Call := .create (some rootKey) name accessKey true

theorem Row.create_all {row : List RowKey} (R : Row row h)
    (names : List Name) (hrefs : h.configptrReferences + names.length + 2 < 2 ^ 32)
    (hlen : row.length + names.length ≤ entriesPerIndexBlock)
    (hne : ∀ name ∈ names, configurationKey name ≠ 0)
    (hnd : (row.map (fun key => configurationKey key.name) ++ names.map configurationKey).Nodup) :
    ∃ row' h', Succeeds (names.map createTop) h h' ∧ AllFit (names.map createTop) h ∧ Row row' h' ∧
      row'.map (fun key => (key.parentHash, key.name)) =
        row.map (fun key => (key.parentHash, key.name)) ++ names.map (fun name => (0, name)) ∧
      h'.configptrReferences = h.configptrReferences + names.length := by
  induction names generalizing row h with
  | nil => exact ⟨row, h, rfl, trivial, R, by simp, rfl⟩
  | cons name names ih =>
    simp only [List.length_cons] at hlen hrefs ⊢
    have hnew : NewIn row 0 name := by
      rintro key hkey ⟨heq, -⟩
      rw [List.nodup_append] at hnd
      exact hnd.2.2 _ (List.mem_map_of_mem hkey) _ (by simp) heq
    obtain ⟨idx, h₁, hcall, R₁, hrefs₁⟩ := R.createKey rootKey (by omega) (by omega)
      (hne name (by simp)) hnew
    obtain ⟨row', h', hrest, hfit, R', hnames, hrefs'⟩ := ih R₁ (by omega) (by simp; omega)
      (fun n hn => hne n (.tail _ hn)) (by simpa using hnd)
    have hexec : (createTop name).exec h = (.ok (), h₁) := Prog.bind_ok hcall
    have hfits : (createTop name).Fits h := by
      intro kh ph nm hres _ _
      cases hres
      exact R.createFits (by omega) (hne name (by simp))
    exact ⟨row', h', ⟨h₁, hexec, hrest⟩, AllFit.cons hfits hexec hfit, R',
      by simpa [rootKey] using hnames, by omega⟩

/-! ## A sample run -/

/-- A value set under a key of a hive with one block pair. -/
theorem setKeyValue_single (C : Coherent [headerBytes] h) (key : KConfigurationKey) (e : Root)
    (fin : Nat) (value : ConfigurationValue)
    (hfind : findEntry h.roots key.keyHash key.parentHash = some e)
    (hend : computeDataRegionEnd h.roots e.indexBlockOffset.toNat = fin)
    (hroom : fin + value.payload.length ≤ 2 ^ 32) :
    (Call.set key value).Fits h ∧
      (Call.set key value).exec h = (.ok (), valueSet h e value.type value.payload) ∧
      Coherent [headerBytes] (valueSet h e value.type value.payload) := by
  have hfits : ValueFits h e value.payload.length := by
    intro _
    rw [hend, C.layout.indexBlocks_eq]
    refine ⟨hroom, ?_⟩
    -- No block pair lies behind the only one.
    intro b hb hlt
    have hblock := List.mem_singleton.mp (C.sound e (findEntry_mem hfind).1).block_mem
    rw [List.mem_singleton.mp hb, hblock] at hlt
    exact absurd hlt (lt_irrefl _)
  refine ⟨?_, ?_, (valueSet_spec C hfind hfits value.type).1⟩
  · intro e' he'
    rw [hfind] at he'
    cases he'
    exact hfits
  · have heval := setKeyValue_eq C.loaded C.layout.faults key value
    rwa [hfind] at heval

theorem deleteTop {chain : List Nat} (C : Coherent chain h) (name : Name) {e : Root}
    (hpos : 0 < h.configptrReferences) (hrefs : h.configptrReferences < 2 ^ 32 - 1)
    (hfind : findEntry h.roots (configurationKey name) 0 = some e) :
    ∃ h', (Call.delete (some rootKey) name).exec h = (.ok (), h') ∧ Coherent chain h' ∧
      h'.roots = eraseEntry h.roots e.keyHash e.parentHash ∧
      h'.configptrReferences = h.configptrReferences := by
  have hdelete := deleteKey_eq C.loaded C.layout.faults (resolveTarget_child _ rootKey name)
  rw [if_neg (by omega)] at hdelete
  simp only [rootKey, hfind] at hdelete
  have S := SameHive.released (keyDeleted (referenced h) e)
  refine ⟨_, hdelete, S.coherent (keyDeleted_spec ((SameHive.referenced h).coherent C) hfind).1,
    S.roots, ?_⟩
  have hcount : (keyDeleted (referenced h) e).configptrReferences = h.configptrReferences + 1 :=
    keyDeleted_references _ _
  rw [released, if_pos (by omega)]
  exact Nat.sub_eq_of_eq_add hcount

/-- The key that `name` names below the hive root. -/
def topKey (name : Name) : KConfigurationKey :=
  { keyHash := configurationKey name, parentHash := 0 }

/-- Three keys, two of them with values, the third one deleted; then the first value grows. -/
def sampleRun : List Call :=
  [[97], [98], [99]].map createTop ++ [.set (topKey [97]) (.boolean true),
    .set (topKey [98]) (.boolean true), .delete (some rootKey) [99],
    .set (topKey [97]) (.uint64 9)]

/-- The entry of a key of the sample run, with its value. -/
def sampleEntry (name : Name) (slot : Nat) (idx : UInt16) (type : ConfigurationValueType)
    (offset length : UInt32) : Root :=
  { newEntry (configurationKey name) 0 name (UInt32.ofNat headerBytes)
      (UInt32.ofNat (indexSlotOffset headerBytes slot)) idx with
    valueType := type, offset, length }

set_option maxRecDepth 10000 in
theorem sampleRun_spec : AllFit sampleRun (freshHive [] {}) ∧ ∃ h i j,
    run sampleRun (freshHive [] {}) = (.ok (), h) ∧ Coherent [headerBytes] h ∧
    h.roots = [sampleEntry [97] 0 i .uint64 8226 8, sampleEntry [98] 1 j .boolean 8225 1] := by
  obtain ⟨row, h₁, hcreated, hfit, R, hnames, hrefs⟩ :=
    (freshHive_row emptyFile_faults []).create_all
    [[97], [98], [99]] (by rw [freshHive_eq rfl]; decide) (by decide) (by decide) (by decide)
  have hrefs₁ : h₁.configptrReferences = 4 := by
    rw [hrefs, freshHive_eq rfl]
    rfl
  obtain ⟨i, j, k, rfl⟩ : ∃ i j k, row = [⟨0, [97], i⟩, ⟨0, [98], j⟩, ⟨0, [99], k⟩] := by
    match row, hnames with
    | [⟨_, _, i⟩, ⟨_, _, j⟩, ⟨_, _, k⟩], rfl => exact ⟨i, j, k, rfl⟩
  let entry (name : Name) (slot : Nat) (idx : UInt16) : Root :=
    sampleEntry name slot idx .invalid 0 0
  have hroots₁ : h₁.roots = [entry [97] 0 i, entry [98] 1 j, entry [99] 2 k] := R.roots
  -- Both values are stored behind the block pair, one after the other.
  let A := (entry [97] 0 i).withValue 8224 .boolean [1]
  let B := (entry [98] 1 j).withValue 8225 .boolean [1]
  obtain ⟨hfit₂, hexec₂, C₂⟩ := setKeyValue_single R.coherent (topKey [97]) (entry [97] 0 i)
    8224 (.boolean true) (by rw [hroots₁]; rfl) (by rw [hroots₁]; rfl) (by decide)
  set h₂ := valueSet h₁ (entry [97] 0 i) _ _
  have hroots₂ : h₂.roots = [A, entry [98] 1 j, entry [99] 2 k] := by
    show updateEntry h₁.roots _ _ _ = _
    rw [hroots₁]
    rfl
  obtain ⟨hfit₃, hexec₃, C₃⟩ := setKeyValue_single C₂ (topKey [98]) (entry [98] 1 j)
    8225 (.boolean true) (by rw [hroots₂]; rfl) (by rw [hroots₂]; rfl) (by decide)
  set h₃ := valueSet h₂ (entry [98] 1 j) _ _
  have hroots₃ : h₃.roots = [A, B, entry [99] 2 k] := by
    show updateEntry h₂.roots _ _ _ = _
    rw [hroots₂]
    rfl
  have hrefs₃ : h₃.configptrReferences = 4 := hrefs₁
  obtain ⟨h₄, hexec₄, C₄, hroots₄, -⟩ := deleteTop C₃ [99] (by omega) (by omega)
    (by rw [hroots₃]; rfl)
  replace hroots₄ : h₄.roots = [A, B] := by
    rw [hroots₄, hroots₃]
    rfl
  obtain ⟨hfit₅, hexec₅, C₅⟩ := setKeyValue_single C₄ (topKey [97]) A 8226
    (.uint64 9) (by rw [hroots₄]; rfl) (by rw [hroots₄]; rfl) (by decide)
  have hlast : Succeeds [.set (topKey [97]) (.boolean true), .set (topKey [98]) (.boolean true),
      .delete (some rootKey) [99], .set (topKey [97]) (.uint64 9)] h₁ _ :=
    ⟨_, hexec₂, _, hexec₃, _, hexec₄, _, hexec₅, rfl⟩
  refine ⟨hfit.append hcreated (.cons hfit₂ hexec₂ (.cons hfit₃ hexec₃ (.cons trivial hexec₄
    (.cons hfit₅ hexec₅ trivial)))), _, i, j,
    (hcreated.append hlast).run_eq, C₅, ?_⟩
  show updateEntry h₄.roots _ _ _ = _
  rw [hroots₄]
  rfl

end UnDOS.Hive
