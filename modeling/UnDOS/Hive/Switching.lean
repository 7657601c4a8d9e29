import UnDOS.Hive.Run
import UnDOS.Hive.Volumes
import UnDOS.Lib.Hoare
import UnDOS.Lib.Within

/-!
# Switching the Boot Volume

Every routine is described by a triple over `Holds n`: the hive has `n` references and its
index, when it is loaded, has one volume as its source.  The temporary reference of a call is
the difference between the counts before and inside it.
-/

namespace UnDOS.Hive

open UnDOS.Lib UnDOS.Kernel

variable {α β : Type}

/-! ## Routines that only reach the file -/

/-- The two hives differ in the file at most. -/
def OnlyFile (h h' : KConfigurationRoot) : Prop := h' = { h with file := h'.file }

theorem onlyFile_effect : Prog.IsEffect OnlyFile where
  refl _ := rfl
  trans h₁ h₂ := by
    unfold OnlyFile at *
    rw [h₂, h₁]

namespace OnlyFile

open Prog (Within)

theorem nextFault : Within OnlyFile nextFault := by
  intro s _
  unfold Hive.nextFault OnlyFile
  split <;> rfl

theorem readRawAt (offset n : Nat) : Within OnlyFile (readRawAt offset n) := by
  refine .bind onlyFile_effect nextFault fun fault => ?_
  cases fault with
  | some fault => exact .throw onlyFile_effect _
  | none =>
    exact .bind onlyFile_effect (.get onlyFile_effect) fun s =>
      .ite (fun _ => .pure onlyFile_effect _) fun _ => .throw onlyFile_effect _

theorem writeRawAt (offset : Nat) (data : List UInt8) :
    Within OnlyFile (writeRawAt offset data) := by
  refine .bind onlyFile_effect nextFault fun fault => ?_
  cases fault with
  | some fault =>
    exact .bind onlyFile_effect (.modify fun _ => rfl) fun _ => .throw onlyFile_effect _
  | none => exact .modify fun _ => rfl

theorem findNameSlotFrom (indexBlockOffset : Nat) (keyHash : UInt64) (name : Name)
    (remaining : Nat) :
    Within OnlyFile (findNameSlotFrom indexBlockOffset keyHash name remaining) := by
  induction remaining with
  | zero => exact .throw onlyFile_effect _
  | succ remaining ih =>
    exact .bind onlyFile_effect (readRawAt _ _) fun existingHash =>
      .ite (fun _ => .bind onlyFile_effect (writeRawAt _ _) fun _ => .pure onlyFile_effect _)
        fun _ => ih

theorem findFreeSlotFrom (fuel indexBlockOffset : Nat) :
    Within OnlyFile (findFreeSlotFrom fuel indexBlockOffset) := by
  induction fuel generalizing indexBlockOffset with
  | zero => exact .diverge
  | succ fuel ih =>
    refine .bind onlyFile_effect (.get onlyFile_effect) fun s => ?_
    refine .ite (fun _ => .pure onlyFile_effect _) fun _ => ?_
    refine .bind onlyFile_effect (readRawAt _ _) fun next => ?_
    refine .ite (fun _ => ih _) fun _ => ?_
    exact .bind onlyFile_effect (writeRawAt _ _) fun _ =>
      .bind onlyFile_effect (writeRawAt _ _) fun _ =>
        .bind onlyFile_effect (writeRawAt _ _) fun _ => ih _

theorem findOrAllocateFreeSlot : Within OnlyFile findOrAllocateFreeSlot :=
  .bind onlyFile_effect (.get onlyFile_effect) fun _ => findFreeSlotFrom _ _

theorem loadChain (fuel indexBlockOffset : Nat) :
    Within OnlyFile (loadChain fuel indexBlockOffset) := by
  induction fuel generalizing indexBlockOffset with
  | zero => exact .diverge
  | succ fuel ih =>
    refine .bind onlyFile_effect (readRawAt _ _) fun indexBlock => ?_
    refine .bind onlyFile_effect (readRawAt _ _) fun nameBlock => ?_
    exact .ite (fun _ => .pure onlyFile_effect _) fun _ =>
      .bind onlyFile_effect (ih _) fun _ => .pure onlyFile_effect _

theorem loadConfigurationIndex : Within OnlyFile loadConfigurationIndex := by
  refine .bind onlyFile_effect (readRawAt _ _) fun header => ?_
  exact .ite (fun _ => .throw onlyFile_effect _) fun _ =>
    .bind onlyFile_effect (.get onlyFile_effect) fun _ => loadChain _ _

end OnlyFile

theorem triple_of_within {σ ε : Type} {R : σ → σ → Prop} (hR : Prog.IsEffect R)
    {x : Prog σ ε α} (hx : Prog.Within R x) (start : σ) :
    Prog.Triple (R start) x (fun _ => R start) fun _ => R start := by
  intro s hs
  have hrun := hx s
  rcases hout : x s with ⟨_ | _ | _, s'⟩
  · rw [hout] at hrun
    exact hR.trans hs (hrun (by simp))
  · rw [hout] at hrun
    exact hR.trans hs (hrun (by simp))
  · trivial

/-! ## Routines that change the index -/

/-- The count, the flag and the entries of a hive. -/
structure Indexed (n : Nat) (loaded : Bool) (roots : List Root) (h : KConfigurationRoot) :
    Prop where
  references : h.configptrReferences = n
  indexLoaded : h.indexLoaded = loaded
  roots : h.roots = roots

theorem OnlyFile.indexed {h h' : KConfigurationRoot} (o : OnlyFile h h') :
    Indexed h.configptrReferences h.indexLoaded h.roots h' := by
  rw [o]
  exact ⟨rfl, rfl, rfl⟩

open Prog (Triple)

theorem fileStep_triple (h : KConfigurationRoot) {x : HiveProg α} (hx : Prog.Within OnlyFile x) :
    Triple (OnlyFile h) x (fun _ => OnlyFile h)
      fun _ => Indexed h.configptrReferences h.indexLoaded h.roots :=
  (triple_of_within onlyFile_effect hx h).weaken (fun _ hs => hs) (fun _ _ hs => hs)
    fun _ _ hs => hs.indexed

theorem createEntry_triple (h : KConfigurationRoot) (keyHash parentHash : UInt64)
    (resolvedName : Name) :
    Triple (OnlyFile h) (createEntry keyHash parentHash resolvedName)
      (fun _ h' => ∃ entry, Indexed h.configptrReferences h.indexLoaded (h.roots ++ [entry]) h')
      fun _ => Indexed h.configptrReferences h.indexLoaded h.roots := by
  refine .bind (fileStep_triple h OnlyFile.findOrAllocateFreeSlot) fun slot => ?_
  refine .bind (fileStep_triple h (.attempt (OnlyFile.findNameSlotFrom _ _ _ _))) fun named => ?_
  refine .bind (fileStep_triple h (OnlyFile.writeRawAt _ _)) fun _ => .modify fun s hs => ?_
  exact ⟨_, hs.indexed.references, hs.indexed.indexLoaded, by rw [hs.indexed.roots]⟩

theorem deleteEntry_triple (h : KConfigurationRoot) (keyHash parentHash : UInt64) :
    Triple (OnlyFile h) (deleteEntry keyHash parentHash)
      (fun _ => Indexed h.configptrReferences h.indexLoaded (eraseEntry h.roots keyHash parentHash))
      fun _ => Indexed h.configptrReferences h.indexLoaded h.roots := by
  have erase : Triple (OnlyFile h) (Prog.modify fun s : KConfigurationRoot =>
      { s with
        roots := eraseEntry s.roots keyHash parentHash
        numRoots := s.numRoots - 1 })
      (fun _ => Indexed h.configptrReferences h.indexLoaded (eraseEntry h.roots keyHash parentHash))
      (fun (_ : KernelError) => Indexed h.configptrReferences h.indexLoaded h.roots) := by
    refine .modify fun s hs => ?_
    exact ⟨hs.indexed.references, hs.indexed.indexLoaded, by rw [hs.indexed.roots]⟩
  refine .bind (fileStep_triple h (.get onlyFile_effect)) fun s => ?_
  cases findEntry s.roots keyHash parentHash with
  | none => exact .throw fun _ hs => hs.indexed
  | some entry =>
    refine .bind (fileStep_triple h (OnlyFile.writeRawAt _ _)) fun _ => ?_
    refine .ite (fun _ => ?_) fun _ => erase
    exact .bind (fileStep_triple h (.attempt (OnlyFile.writeRawAt _ _))) fun _ => erase

/-! ## What holds of one hive -/

/-- A loaded index has one volume as its source. -/
def Loaded (h : RegisteredHive) : Prop :=
  h.indexLoaded = true → ∃ v, h.loadedVolume = some v ∧ provenance h.history = some (v, h.roots)

/-- A loaded index comes from the volume that the open file is on. -/
def Matched (h : RegisteredHive) : Prop :=
  h.indexLoaded = true → ∀ file, h.file = some file → file.volume = h.loadedVolume

/-- The hive has `n` references and serves one volume. -/
structure Holds (n : Nat) (s : HiveState) : Prop where
  references : s.hive.configptrReferences = n
  loaded : Loaded s.hive
  matched : Matched s.hive

/-- The hive is ready, on `volume`. -/
structure OpenOn (volume : Volume) (h : RegisteredHive) : Prop where
  file : h.file = some { volume := some volume }
  indexLoaded : h.indexLoaded = true
  loadedVolume : h.loadedVolume = some volume
  source : provenance h.history = some (volume, h.roots)

variable {volume : Volume} {s : HiveState} {n : Nat}

theorem OpenOn.holds (o : OpenOn volume s.hive) :
    Holds s.hive.configptrReferences s where
  references := rfl
  loaded _ := ⟨volume, o.loadedVolume, o.source⟩
  matched _ file hfile := by
    rw [o.file, Option.some.injEq] at hfile
    rw [← hfile, o.loadedVolume]

theorem Holds.openOn (H : Holds n s) (hready : s.hive.IsRootReady) :
    ∃ volume, OpenOn volume s.hive := by
  obtain ⟨hfile, hl⟩ := hready
  obtain ⟨volume, hvolume, hsource⟩ := H.loaded hl
  obtain ⟨file, hfile⟩ := Option.ne_none_iff_exists'.1 hfile
  have heq : file = { volume := some volume } := by
    rw [← hvolume, ← H.matched hl file hfile]
  exact ⟨volume, by rw [hfile, heq], hl, hvolume, hsource⟩

theorem Holds.of_unloaded (hn : s.hive.configptrReferences = n)
    (hl : s.hive.indexLoaded = false) : Holds n s where
  references := hn
  loaded h := by rw [hl] at h; cases h
  matched h := by rw [hl] at h; cases h

theorem Holds.of_closed (hn : s.hive.configptrReferences = n)
    (hl : Loaded s.hive) (hfile : s.hive.file = none) : Holds n s where
  references := hn
  loaded := hl
  matched _ file h := by rw [hfile] at h; cases h

/-! ## Routines of one hive -/

theorem onFile_triple {h : RegisteredHive} {x : HiveProg α} (volume : Volume)
    {Q : α → KConfigurationRoot → Prop} {E : KernelError → KConfigurationRoot → Prop}
    (hx : ∀ file, Triple (OnlyFile (h.onto file)) x Q E) :
    Triple (fun s => s.hive = h) (onFile volume x)
      (fun a s => ∃ root, Q a root ∧ s.hive = h.back root)
      fun e s => ∃ root, E e root ∧ s.hive = h.back root := by
  rintro s rfl
  have hrun := hx _ (s.hive.onto { s.disk s.hive.filePath volume with faults := s.faults })
    (onlyFile_effect.refl _)
  unfold onFile
  dsimp only
  rcases hout : x (s.hive.onto { s.disk s.hive.filePath volume with faults := s.faults }) with
    ⟨a | e | _, root⟩
  · rw [hout] at hrun
    exact ⟨root, hrun, rfl⟩
  · rw [hout] at hrun
    exact ⟨root, hrun, rfl⟩
  · trivial

theorem triple_each {σ ε : Type} {P : σ → Prop} {x : Prog σ ε α} {Q : α → σ → Prop}
    {E : ε → σ → Prop} (f : σ → β) (h : ∀ s, P s → Triple (fun t => f t = f s) x Q E) :
    Triple P x Q E :=
  fun s hs => h s hs s rfl

/-! ## Opening -/

theorem back_of_indexed {h : RegisteredHive} {root : KConfigurationRoot} {roots : List Root}
    (I : Indexed h.configptrReferences h.indexLoaded roots root) :
    ∃ count, h.back root = { h with roots := roots, numRoots := count } := by
  refine ⟨root.numRoots, ?_⟩
  unfold RegisteredHive.back
  rw [I.references, I.indexLoaded, I.roots]

/-- Two hives that differ in the number of entries they note at most. -/
def SameButCount (h h' : RegisteredHive) : Prop := ∃ count, h' = { h with numRoots := count }

theorem loadIndex_triple (h : RegisteredHive) (volume : Volume) :
    Triple (fun s => s.hive = h) (loadIndex volume) (fun _ s => SameButCount h s.hive)
      fun _ => Holds h.configptrReferences := by
  have hload : Triple (fun s => s.hive = h)
      (Prog.attempt (onFile volume loadConfigurationIndex)) (fun _ s => SameButCount h s.hive)
      fun (_ : KernelError) => Holds h.configptrReferences := by
    have hfile := onFile_triple (h := h) volume (x := loadConfigurationIndex)
      (Q := fun _ => Indexed h.configptrReferences h.indexLoaded h.roots)
      (E := fun _ => Indexed h.configptrReferences h.indexLoaded h.roots) fun file =>
        (triple_of_within onlyFile_effect OnlyFile.loadConfigurationIndex (h.onto file)).weaken
          (fun _ hs => hs) (fun _ _ hs => hs.indexed) fun _ _ hs => hs.indexed
    refine .attempt (hfile.weaken (fun _ hs => hs) ?_ ?_)
    · rintro _ s ⟨root, I, hs⟩
      rw [hs]
      exact back_of_indexed I
    · rintro _ s ⟨root, I, hs⟩
      rw [hs]
      exact back_of_indexed I
  refine .bind hload fun loaded => ?_
  cases loaded with
  | error e =>
    refine .bind (R := fun _ => Holds h.configptrReferences) (.modify fun s hs => ?_) fun _ =>
      .throw fun _ hs => hs
    obtain ⟨count, hs⟩ := hs
    exact .of_unloaded (by rw [hs]; rfl) rfl
  | ok loaded => exact .pure fun _ hs => hs

theorem openHiveFile_triple (opened : Except KernelError KIOObject) :
    Triple (Holds n) (openHiveFile opened)
      (fun _ s => s.hive.configptrReferences = n ∧ Loaded s.hive)
      fun _ => Holds n := by
  intro s hs
  unfold openHiveFile
  rw [Prog.get_bind_apply]
  cases hfile : s.hive.file with
  | some file => exact ⟨hs.references, hs.loaded⟩
  | none =>
    cases opened with
    | error e => exact hs
    | ok file => exact ⟨hs.references, hs.loaded⟩

/-- `EnsureRootIsOpenedLocked` leaves a hive that is ready on the volume of its file, or one
    that serves what it served before. -/
theorem ensureRootIsOpenedLocked_triple (opened : Except KernelError KIOObject) :
    Triple (Holds n) (ensureRootIsOpenedLocked opened)
      (fun volume s => s.hive.configptrReferences = n ∧ OpenOn volume s.hive)
      fun _ => Holds n := by
  refine .bind (openHiveFile_triple opened) fun _ => ?_
  refine triple_each (fun s => s.hive) fun s hs => ?_
  obtain ⟨hn, hl⟩ := hs
  refine .bind (R := fun a t => a.hive = s.hive ∧ t.hive = s.hive)
    (.get fun t ht => ⟨ht, ht⟩) fun a => ?_
  refine triple_each (fun s => s.hive) fun t ht => ?_
  obtain ⟨ha, ht⟩ := ht
  rw [ha, ht]
  cases hvolume : s.hive.file.bind KIOObject.volume with
  | none =>
    refine .bind (R := fun _ => Holds n) (.modify fun u hu => ?_) fun _ => .throw fun _ h => h
    rw [hu]
    exact .of_closed hn hl rfl
  | some currentVolume =>
    have hfile : s.hive.file = some { volume := some currentVolume } := by
      obtain ⟨file, hfile, hv⟩ := Option.bind_eq_some_iff.1 hvolume
      rw [hfile, ← hv]
    refine .ite (fun hready => .pure fun u hu => ?_) fun _ => ?_
    · -- The index of this volume is there already.
      rw [hu]
      obtain ⟨v, hv, hsource⟩ := hl hready.1
      have heq : v = currentVolume := Option.some.inj (hv.symm.trans hready.2)
      exact ⟨hn, hfile, hready.1, hready.2, heq ▸ hsource⟩
    · have hload := loadIndex_triple s.hive currentVolume
      rw [hn] at hload
      refine .bind hload fun loaded => ?_
      refine .bind (.modify (Q := fun _ u => u.hive.configptrReferences = n ∧
        OpenOn currentVolume u.hive) ?_) fun _ => .pure fun _ h => h
      rintro u ⟨count, hu⟩
      rw [hu]
      exact ⟨hn, hfile, rfl, rfl, rfl⟩

/-! ## Bodies of calls -/

theorem OpenOn.recount {h : RegisteredHive} (o : OpenOn volume h) (n : Nat) :
    OpenOn volume { h with configptrReferences := n } :=
  ⟨o.file, o.indexLoaded, o.loadedVolume, o.source⟩

/-- A ready hive with `n` references. -/
def Ready (n : Nat) (volume : Volume) (s : HiveState) : Prop :=
  s.hive.configptrReferences = n ∧ OpenOn volume s.hive

theorem Ready.holds (R : Ready n volume s) :
    Holds n s := by
  have H := R.2.holds
  rw [R.1] at H
  exact H

theorem increment_triple :
    Triple (Ready n volume) (onRoot incrementConfigRootReference) (fun _ => Ready (n + 1) volume)
      fun _ => Ready n volume := by
  rintro s ⟨hn, o⟩
  unfold onRoot incrementConfigRootReference
  simp only [Prog.get_bind_apply]
  by_cases hmax : (s.hive.onto {}).configptrReferences = 2 ^ 32 - 1
  · rw [if_pos hmax]
    exact ⟨hn, o⟩
  · rw [if_neg hmax]
    exact ⟨congrArg (· + 1) hn, o.recount _⟩

theorem makeHandle_triple (handleAllocated : Bool)
    (key : KConfigurationKey) :
    Triple (Ready n volume) (onRoot (makeHandle handleAllocated key))
      (fun _ => Ready (n + 1) volume) fun _ => Ready n volume := by
  intro s hs
  cases handleAllocated with
  | false => exact hs
  | true =>
    have h := increment_triple s hs
    unfold onRoot makeHandle at *
    simp only [if_true]
    rcases hout : incrementConfigRootReference (s.hive.onto {}) with ⟨_ | _ | _, root⟩
    · rw [hout] at h
      rw [Prog.bind_ok hout]
      exact h
    · rw [hout] at h
      rw [Prog.bind_err hout]
      exact h
    · rw [Prog.bind_stuck hout]
      trivial

theorem release_triple (hpos : 0 < n) :
    Triple (Holds (n + 1)) (onRoot releaseConfigRootReference) (fun _ => Holds n)
      fun (_ : KernelError) _ => False := by
  intro s hs
  have hlt : 1 < (s.hive.onto {}).configptrReferences := by
    rw [show (s.hive.onto {}).configptrReferences = n + 1 from hs.references]
    omega
  unfold onRoot releaseConfigRootReference
  simp only [Prog.modify_apply, if_pos hlt]
  refine ⟨?_, hs.loaded, hs.matched⟩
  show s.hive.configptrReferences - 1 = n
  rw [hs.references, Nat.add_sub_cancel]

theorem withOpenRoot_triple {d : Nat} (hpos : 0 < n) (outside : Outside)
    {body : Volume → VolumeProg α}
    (hbody : ∀ volume, Triple (Ready (n + 1) volume) (body volume) (fun _ => Holds (n + d + 1))
      fun _ => Holds (n + 1)) :
    Triple (Holds n) (withOpenRoot outside body) (fun _ => Holds (n + d)) fun _ => Holds n := by
  refine .bind (ensureRootIsOpenedLocked_triple outside.opened) fun volume => ?_
  refine .bind (increment_triple.weaken (fun _ h => h) (fun _ _ h => h) fun _ _ h => h.holds)
    fun _ => ?_
  refine .bind (.attempt (Q := fun r => match r with
    | .ok _ => Holds (n + d + 1)
    | .error _ => Holds (n + 1)) (hbody volume)) fun result => ?_
  cases result with
  | ok a =>
    refine .bind (R := fun _ => Holds (n + d)) ?_ fun _ => .pure fun _ h => h
    exact (release_triple (by omega)).weaken (fun _ h => h) (fun _ _ h => h)
      fun _ _ h => h.elim
  | error e =>
    refine .bind (R := fun _ => Holds n) ?_ fun _ => .throw fun _ h => h
    exact (release_triple hpos).weaken (fun _ h => h) (fun _ _ h => h) fun _ _ h => h.elim

theorem lookup_triple {body : HiveState → VolumeProg α}
    {Q : α → HiveState → Prop} {E : KernelError → HiveState → Prop}
    (h : ∀ s, Ready n volume s → Triple (fun t => t = s) (body s) Q E) :
    Triple (Ready n volume) (do
      let s ← Prog.get
      body s) Q E :=
  fun s hs => h s hs s rfl

theorem addEntry_triple (volume : Volume) (keyHash parentHash : UInt64)
    (resolvedName : Name) :
    Triple (Ready n volume) (addEntry volume keyHash parentHash resolvedName)
      (fun _ => Ready n volume) fun _ => Ready n volume := by
  refine lookup_triple fun s hs => ?_
  have hcreate := onFile_triple (h := s.hive) volume (x := createEntry keyHash parentHash
    resolvedName)
    (Q := fun _ root => ∃ entry, Indexed s.hive.configptrReferences s.hive.indexLoaded
      (s.hive.roots ++ [entry]) root)
    (E := fun _ => Indexed s.hive.configptrReferences s.hive.indexLoaded s.hive.roots)
    fun file => createEntry_triple (s.hive.onto file) keyHash parentHash resolvedName
  refine .bind (hcreate.weaken (fun t ht => by rw [ht]) (fun _ _ h => h) ?_) fun _ =>
    .modify ?_
  · rintro _ t ⟨root, I, ht⟩
    obtain ⟨count, hback⟩ := back_of_indexed I
    rw [Ready, ht, hback]
    exact ⟨hs.1, hs.2.file, hs.2.indexLoaded, hs.2.loadedVolume, hs.2.source⟩
  · rintro t ⟨root, ⟨entry, I⟩, ht⟩
    obtain ⟨count, hback⟩ := back_of_indexed I
    rw [ht, hback]
    refine ⟨hs.1, hs.2.file, hs.2.indexLoaded, hs.2.loadedVolume, ?_⟩
    show IndexChange.apply (provenance s.hive.history) _ = _
    rw [hs.2.source, List.drop_left]
    exact if_pos rfl

theorem deleteBody_triple (volume : Volume) (keyHash parentHash : UInt64) :
    Triple (Ready n volume) (do
      onFile volume (deleteEntry keyHash parentHash)
      changeHive fun h => { h with history := .removed volume keyHash parentHash :: h.history })
      (fun _ => Ready n volume) fun _ => Ready n volume := by
  refine triple_each (fun s => s.hive) fun s hs => ?_
  have hdelete := onFile_triple (h := s.hive) volume (x := deleteEntry keyHash parentHash)
    (Q := fun _ => Indexed s.hive.configptrReferences s.hive.indexLoaded
      (eraseEntry s.hive.roots keyHash parentHash))
    (E := fun _ => Indexed s.hive.configptrReferences s.hive.indexLoaded s.hive.roots)
    fun file => deleteEntry_triple (s.hive.onto file) keyHash parentHash
  refine .bind (hdelete.weaken (fun _ ht => ht) (fun _ _ h => h) ?_) fun _ => .modify ?_
  · rintro _ t ⟨root, I, ht⟩
    obtain ⟨count, hback⟩ := back_of_indexed I
    rw [Ready, ht, hback]
    exact ⟨hs.1, hs.2.file, hs.2.indexLoaded, hs.2.loadedVolume, hs.2.source⟩
  · rintro t ⟨root, I, ht⟩
    obtain ⟨count, hback⟩ := back_of_indexed I
    rw [ht, hback]
    refine ⟨hs.1, hs.2.file, hs.2.indexLoaded, hs.2.loadedVolume, ?_⟩
    show IndexChange.apply (provenance s.hive.history) _ = _
    rw [hs.2.source]
    exact if_pos rfl

/-! ## Calls on one hive -/

section Calls

variable {n : Nat} (hpos : 0 < n) (outside : Outside)

include hpos

theorem openRootOf_triple :
    Triple (Holds n) (openRootOf outside) (fun _ => Holds (n + 1)) fun _ => Holds n :=
  withOpenRoot_triple hpos outside fun _ =>
    (makeHandle_triple _ _).weaken (fun _ h => h) (fun _ _ h => h.holds) fun _ _ h => h.holds

theorem openKeyOf_triple (keyHash parentHash : UInt64) (access : KConfigurationKeyAccess) :
    Triple (Holds n) (openKeyOf keyHash parentHash access outside) (fun _ => Holds (n + 1))
      fun _ => Holds n := by
  refine withOpenRoot_triple hpos outside fun volume => lookup_triple fun s hs => ?_
  cases findEntry s.hive.roots keyHash parentHash with
  | none => exact .throw fun t ht => ht ▸ hs.holds
  | some child =>
    exact (makeHandle_triple _ _).weaken (fun t ht => ht ▸ hs) (fun _ _ h => h.holds)
      fun _ _ h => h.holds

theorem createKeyOf_triple (keyHash parentHash : UInt64) (resolvedName : Name)
    (access : KConfigurationKeyAccess) :
    Triple (Holds n) (createKeyOf keyHash parentHash resolvedName access outside)
      (fun _ => Holds (n + 1)) fun _ => Holds n := by
  refine withOpenRoot_triple hpos outside fun volume => lookup_triple fun s hs => ?_
  have handle : Triple (Ready (n + 1) volume)
      (onRoot (makeHandle outside.handleAllocated
        { keyHash := keyHash, parentHash := parentHash, access := access }))
      (fun _ => Ready (n + 1 + 1) volume) fun _ => Ready (n + 1) volume :=
    makeHandle_triple _ _
  have handle' := handle.weaken (fun _ h => h) (fun _ _ h => Ready.holds h)
    fun _ _ h => Ready.holds h
  cases findEntry s.hive.roots keyHash parentHash with
  | some _ =>
    exact .ite (fun _ => .throw fun t ht => ht ▸ hs.holds) fun _ =>
      handle'.weaken (fun t ht => ht ▸ hs) (fun _ _ h => h) fun _ _ h => h
  | none =>
    exact .bind ((addEntry_triple volume keyHash parentHash resolvedName).weaken
      (fun t ht => ht ▸ hs) (fun _ _ h => h) fun _ _ h => h.holds) fun _ => handle'

theorem deleteKeyOf_triple (keyHash parentHash : UInt64) :
    Triple (Holds n) (deleteKeyOf keyHash parentHash outside) (fun _ => Holds n)
      fun _ => Holds n :=
  withOpenRoot_triple (d := 0) hpos outside fun volume =>
    (deleteBody_triple volume keyHash parentHash).weaken (fun _ h => h) (fun _ _ h => h.holds)
      fun _ _ h => h.holds

end Calls

theorem prepareSwitch_triple (outside : Outside) :
    Triple (Holds n) (prepareSwitch outside) (fun _ s => Holds n s ∧ n ≤ 1) fun _ => Holds n := by
  intro s hs
  unfold prepareSwitch
  rw [Prog.get_bind_apply]
  by_cases hrefs : 1 < s.hive.configptrReferences
  · rw [if_pos hrefs]
    exact hs
  · rw [if_neg hrefs]
    have hn : n ≤ 1 := by
      rw [← hs.references]
      exact Nat.le_of_not_lt hrefs
    cases s.hive.file with
    | none => exact ⟨hs, hn⟩
    | some file =>
      cases outside.closed with
      | some e => exact hs
      | none => exact ⟨.of_closed hs.references hs.loaded rfl, hn⟩

/-- `PromoteBootHive` succeeds without references of callers only, and leaves no index of
    another volume beside the file. -/
theorem promote_triple (selectedVolume : Volume) (outside : Outside) :
    Triple (Holds n) (promote selectedVolume outside) (fun _ s => Holds n s ∧ n ≤ 1)
      fun _ => Holds n := by
  refine triple_each id fun s hs => ?_
  refine fun t (ht : t = s) => ?_
  subst ht
  unfold promote
  rw [Prog.get_bind_apply]
  by_cases hrefs : 1 < t.hive.configptrReferences
  · rw [if_pos hrefs]
    exact hs
  rw [if_neg hrefs]
  have hn : n ≤ 1 := by
    rw [← hs.references]
    exact Nat.le_of_not_lt hrefs
  cases outside.opened with
  | error e =>
    by_cases hkeep : t.hive.indexLoaded = false ∨ t.hive.loadedVolume ≠ some selectedVolume
    · simp only [if_pos hkeep]
      exact .of_unloaded hs.references rfl
    · simp only [if_neg hkeep]
      exact hs
  | ok file =>
    by_cases hfile : file.volume ≠ some selectedVolume
    · simp only [if_pos hfile]
      exact hs
    simp only [if_neg hfile]
    rw [not_not] at hfile
    by_cases hsame : t.hive.indexLoaded = true ∧ t.hive.loadedVolume = some selectedVolume
    · -- The index of the selected volume is kept; only the file is new.
      rw [if_pos hsame]
      refine ⟨⟨hs.references, hs.loaded, fun _ file' hfile' => ?_⟩, hn⟩
      rw [← Option.some.inj hfile', hfile]
      exact hsame.2.symm
    · rw [if_neg hsame]
      have hload := loadIndex_triple t.hive selectedVolume
      rw [hs.references] at hload
      refine (Triple.bind hload fun loaded => Triple.modify ?_ :
        Triple _ _ (fun _ u => Holds n u ∧ n ≤ 1) _) t rfl
      rintro u ⟨count, hu⟩
      dsimp only
      rw [hu]
      refine ⟨⟨hs.references, fun _ => ⟨selectedVolume, rfl, rfl⟩, fun _ file' hfile' => ?_⟩, hn⟩
      rw [← Option.some.inj hfile', hfile]
      rfl

/-! ## The registry -/

/-- The live key handles on the hive at `i`. -/
def liveHandles (w : Registry) (i : Nat) : Nat := w.handles.countP fun handle => handle.hive = i

/-- The hive `h` has `n` references and serves one volume. -/
def HiveHolds (n : Nat) (h : RegisteredHive) : Prop :=
  ∀ disk faults, Holds n { hive := h, disk := disk, faults := faults }

theorem Holds.hiveHolds (H : Holds n s) : HiveHolds n s.hive :=
  fun _ _ => ⟨H.references, H.loaded, H.matched⟩

/-- Every hive has one reference, one for each live handle on it, and the hive at `i` has
    `extra` more. -/
structure HivesAccounted (i extra : Nat) (w : Registry) : Prop where
  hives : ∀ j h, w.hives[j]? = some h →
    HiveHolds (1 + liveHandles w j + if j = i then extra else 0) h
  handles : ∀ handle ∈ w.handles, handle.hive < w.hives.length

namespace HivesAccounted

variable {w : Registry} {i j extra : Nat}

theorem move (B : HivesAccounted i 0 w) (j : Nat) : HivesAccounted j 0 w := by
  refine ⟨fun k h hk => ?_, B.handles⟩
  have H := B.hives k h hk
  rw [ite_self] at H ⊢
  exact H

theorem hive (B : HivesAccounted i 0 w) {h : RegisteredHive} (hj : w.hives[j]? = some h) :
    HiveHolds (1 + liveHandles w j) h := by
  have H := B.hives j h hj
  rw [ite_self] at H
  exact H

theorem set {extra' : Nat} (B : HivesAccounted i extra w) {h : RegisteredHive} (disk : Disk)
    (H : HiveHolds (1 + liveHandles w i + extra') h) :
    HivesAccounted i extra' { w with hives := w.hives.set i h, disk := disk } := by
  refine ⟨fun j g hj => ?_, fun handle hm => ?_⟩
  · by_cases hji : j = i
    · subst hji
      rw [if_pos rfl]
      have hlt : j < w.hives.length := by
        have hset := (List.getElem?_eq_some_iff.1 hj).1
        rwa [List.length_set] at hset
      have heq : h = g := by
        rw [List.getElem?_set_self hlt] at hj
        exact Option.some.inj hj
      exact heq ▸ H
    · rw [List.getElem?_set_ne (Ne.symm hji)] at hj
      have H' := B.hives j g hj
      rwa [if_neg hji] at H' ⊢
  · rw [List.length_set]
    exact B.handles handle hm

end HivesAccounted

theorem onHive_triple {i a b c : Nat} {x : VolumeProg α} (faults : List (Option IoFault))
    (hx : ∀ n, 0 < n → Triple (Holds (n + a)) x (fun _ => Holds (n + b)) fun _ => Holds (n + c)) :
    Triple (HivesAccounted i a) (onHive i faults x)
      (fun _ w => HivesAccounted i b w ∧ i < w.hives.length) fun _ => HivesAccounted i c := by
  intro w B
  unfold onHive
  cases hi : w.hives[i]? with
  | none =>
    refine ⟨fun j h hj => ?_, B.handles⟩
    have hji : j ≠ i := by
      rintro rfl
      rw [hi] at hj
      cases hj
    have H := B.hives j h hj
    rwa [if_neg hji] at H ⊢
  | some h =>
    have H := B.hives i h hi
    rw [if_pos rfl] at H
    have hrun := hx _ (by omega) { hive := h, disk := w.disk, faults := faults } (H _ _)
    dsimp only
    rcases hout : x { hive := h, disk := w.disk, faults := faults } with ⟨o | e | _, s⟩
    · rw [hout] at hrun
      refine ⟨B.set s.disk (Holds.hiveHolds hrun), ?_⟩
      rw [List.length_set]
      exact (List.getElem?_eq_some_iff.1 hi).1
    · rw [hout] at hrun
      exact B.set s.disk (Holds.hiveHolds hrun)
    · trivial

theorem keepHandle_triple {i : Nat} {x : RegistryProg KConfigurationKey} {P : Registry → Prop}
    (hx : Triple P x (fun _ w => HivesAccounted i 1 w ∧ i < w.hives.length)
      fun _ => HivesAccounted i 0) :
    Triple P (keepHandle i x) (fun _ => HivesAccounted i 0) fun _ => HivesAccounted i 0 := by
  refine .bind hx fun key => .modify ?_
  rintro w ⟨B, hlt⟩
  refine ⟨fun j h hj => ?_, fun handle hm => ?_⟩
  · have H := B.hives j h hj
    have hcount : liveHandles { w with handles := w.handles ++ [{ hive := i, key := key }] } j =
        liveHandles w j + if j = i then 1 else 0 := by
      unfold liveHandles
      by_cases hji : j = i
      · simp [hji]
      · simp [hji, Ne.symm hji]
    rw [hcount, ite_self, ← add_assoc]
    exact H
  · rcases List.mem_append.1 hm with hold | hnew
    · exact B.handles handle hold
    · rw [List.mem_singleton.1 hnew]
      exact hlt

/-! ## Calls -/

namespace RegistryCall

/-- Between calls no hive has an extra reference. -/
def Settled (w : Registry) : Prop := HivesAccounted 0 0 w

theorem handle_triple {i : Nat} {x : VolumeProg KConfigurationKey}
    (faults : List (Option IoFault))
    (hx : ∀ n, 0 < n → Triple (Holds n) x (fun _ => Holds (n + 1)) fun _ => Holds n) :
    Triple Settled (keepHandle i (onHive i faults x)) (fun _ => Settled) fun _ => Settled :=
  (keepHandle_triple (onHive_triple (a := 0) (b := 1) (c := 0) faults hx)).weaken
    (fun _ B => B.move i) (fun _ _ B => B.move 0) fun _ _ B => B.move 0

theorem plain_triple {i : Nat} {x : VolumeProg Unit} (faults : List (Option IoFault))
    (hx : ∀ n, 0 < n → Triple (Holds n) x (fun _ => Holds n) fun _ => Holds n) :
    Triple Settled (onHive i faults x) (fun _ => Settled) fun _ => Settled :=
  (onHive_triple (a := 0) (b := 0) (c := 0) faults hx).weaken (fun _ B => B.move i)
    (fun _ _ B => B.1.move 0) fun _ _ B => B.move 0

theorem resolved_triple {parentKey : Option Nat} {subKeyName : Name}
    {body : Nat × UInt64 × UInt64 × Name → RegistryProg Unit}
    (h : ∀ target, Triple Settled (body target) (fun _ => Settled) fun _ => Settled) :
    Triple Settled (do
      let w ← Prog.get
      let target ← Prog.ofExcept (w.resolve parentKey subKeyName)
      body target) (fun _ => Settled) fun _ => Settled := by
  refine .bind (R := fun _ => Settled) (.get fun _ B => B) fun w => ?_
  exact .bind (.ofExcept (fun _ _ _ B => B) fun _ _ _ B => B) h

theorem onNamed_triple {hiveName : Name} {x : VolumeProg Unit} (faults : List (Option IoFault))
    (hx : ∀ n, 0 < n → Triple (Holds n) x (fun _ => Holds n) fun _ => Holds n) :
    Triple Settled (onNamed hiveName faults x) (fun _ => Settled) fun _ => Settled := by
  refine .bind (R := fun _ => Settled) (.get fun _ B => B) fun w => ?_
  cases w.hiveIndex hiveName with
  | none => exact .throw fun _ B => B
  | some i => exact plain_triple faults hx

theorem register_triple (hiveName filePath : Name) (inserted : Option KernelError) :
    Triple Settled (register hiveName filePath inserted) (fun _ => Settled) fun _ => Settled := by
  refine .bind (R := fun _ => Settled) (.get fun _ B => B) fun w => ?_
  cases w.hiveIndex hiveName with
  | some _ => exact .throw fun _ B => B
  | none =>
    cases inserted with
    | some e => exact .throw fun _ B => B
    | none =>
      refine .modify fun w B => ⟨fun j h hj => ?_, fun handle hm => ?_⟩
      · rcases lt_or_ge j w.hives.length with hlt | hge
        · rw [List.getElem?_append_left hlt] at hj
          exact B.hives j h hj
        · -- No live handle can name the new hive.
          have hnone : liveHandles w j = 0 := by
            refine List.countP_eq_zero.2 fun handle hm heq => ?_
            have hlt := B.handles handle hm
            have hj := of_decide_eq_true heq
            omega
          rw [List.getElem?_append_right hge] at hj
          have heq : h = { hiveName := hiveName, filePath := filePath } :=
            List.mem_singleton.1 (List.mem_of_getElem? hj)
          subst heq
          have hlive : liveHandles
              { w with hives := w.hives ++ [{ hiveName := hiveName, filePath := filePath }] } j =
                0 :=
            hnone
          rw [ite_self, hlive]
          exact fun _ _ => .of_unloaded rfl rfl
      · rw [List.length_append]
        exact Nat.lt_add_right 1 (B.handles handle hm)

theorem liveHandles_eraseIdx {w : Registry} {k : Nat} {handle : KeyHandle}
    (hk : w.handles[k]? = some handle) (j : Nat) :
    liveHandles { w with handles := w.handles.eraseIdx k } j +
      (if j = handle.hive then 1 else 0) = liveHandles w j := by
  obtain ⟨hlt, hget⟩ := List.getElem?_eq_some_iff.1 hk
  unfold liveHandles
  have hsplit : w.handles = w.handles.take k ++ handle :: w.handles.drop (k + 1) := by
    rw [← hget, List.getElem_cons_drop, List.take_append_drop]
  rw [List.eraseIdx_eq_take_drop_succ]
  conv_rhs => rw [hsplit]
  by_cases hj : j = handle.hive
  · simp [hj, add_assoc]
  · simp [hj, Ne.symm hj]

theorem releaseHandle_triple (k : Nat) :
    Triple Settled (releaseHandle k) (fun _ => Settled) fun _ => Settled := by
  refine fun w B => ?_
  unfold releaseHandle
  rw [Prog.get_bind_apply]
  cases hk : w.handles[k]? with
  | none => exact B
  | some handle =>
    have hclose := onHive_triple (i := handle.hive) (a := 1) (b := 0) (c := 0) [] fun n hn =>
      (release_triple hn).weaken (fun _ h => h) (fun _ _ h => h) fun _ _ h => h.elim
    apply (hclose.weaken (fun _ B => B) (fun _ _ B => B.1.move 0) fun _ _ B => B.move 0)
    refine ⟨fun j h hj => ?_, fun handle' hm => B.handles handle' (List.mem_of_mem_eraseIdx hm)⟩
    have H := HivesAccounted.hive B hj
    rwa [← liveHandles_eraseIdx hk j, ← add_assoc] at H

/-- Every call settles its references, also when it fails. -/
theorem exec_triple (call : RegistryCall) (outside : Outside) :
    Triple Settled (call.exec outside) (fun _ => Settled) fun _ => Settled := by
  cases call with
  | registerHive hiveName filePath inserted => exact register_triple hiveName filePath inserted
  | openRoot rootName =>
    refine .bind (R := fun _ => Settled) (.get fun _ B => B) fun w => ?_
    cases w.hiveIndex rootName with
    | none => exact .throw fun _ B => B
    | some i => exact handle_triple _ fun n hn => openRootOf_triple hn outside
  | openKey parentKey subKeyName access =>
    refine resolved_triple fun (i, keyHash, parentHash, _) => ?_
    exact handle_triple _ fun n hn => openKeyOf_triple hn outside keyHash parentHash access
  | createKey parentKey subKeyName access =>
    refine resolved_triple fun (i, keyHash, parentHash, resolvedName) => ?_
    exact handle_triple _ fun n hn =>
      createKeyOf_triple hn outside keyHash parentHash resolvedName access
  | deleteKey parentKey subKeyName =>
    refine resolved_triple fun (i, keyHash, parentHash, _) => ?_
    exact plain_triple _ fun n hn => deleteKeyOf_triple hn outside keyHash parentHash
  | release handle => exact releaseHandle_triple handle
  | prepareRootVolumeSwitch =>
    exact onNamed_triple _ fun n _ => (prepareSwitch_triple outside).weaken (fun _ h => h)
      (fun _ _ h => h.1) fun _ _ h => h
  | promoteBootHive selectedVolume =>
    cases selectedVolume with
    | none => exact .throw fun _ B => B
    | some volume =>
      exact onNamed_triple _ fun n _ => (promote_triple volume outside).weaken (fun _ h => h)
        (fun _ _ h => h.1) fun _ _ h => h

theorem run_triple (calls : List (RegistryCall × Outside)) :
    Triple Settled (run calls) (fun _ => Settled) fun _ => Settled := by
  induction calls with
  | nil => exact .pure fun _ B => B
  | cons step calls ih =>
    refine .bind (R := fun _ => Settled) (.attempt ?_) fun _ => ih
    exact (step.1.exec_triple step.2).weaken (fun _ B => B) (fun _ _ B => B) fun _ _ B => B

theorem settled_empty (disk : Disk) : Settled { disk := disk } where
  hives _ _ hj := by cases hj
  handles _ hm := by cases hm

theorem unreferenced_of_onNamed {w w' : Registry} (B : Settled w) {hiveName : Name}
    {faults : List (Option IoFault)} {x : VolumeProg Unit}
    (hx : ∀ n, Triple (Holds n) x (fun _ s => Holds n s ∧ n ≤ 1) fun _ => Holds n)
    (hrun : onNamed hiveName faults x w = (.ok (), w')) {i : Nat}
    (hi : w.hiveIndex hiveName = some i) : liveHandles w i = 0 := by
  unfold onNamed at hrun
  rw [Prog.get_bind_apply, hi] at hrun
  unfold onHive at hrun
  dsimp only at hrun
  cases hget : w.hives[i]? with
  | none =>
    rw [hget] at hrun
    cases hrun
  | some h =>
    rw [hget] at hrun
    dsimp only at hrun
    rcases hout : x { hive := h, disk := w.disk, faults := faults } with ⟨o, s⟩
    rw [hout] at hrun
    cases hrun
    have hn := ((hx _).of_ok (HivesAccounted.hive B hget _ _) hout).2
    omega

/-- The calls that move the boot hive to another volume. -/
def IsSwitch : RegistryCall → Prop
  | prepareRootVolumeSwitch => True
  | promoteBootHive _ => True
  | _ => False

theorem unreferenced_of_switch {w w' : Registry} (B : Settled w) {call : RegistryCall}
    (hcall : call.IsSwitch) {outside : Outside}
    (hrun : call.exec outside w = (.ok (), w')) {i : Nat}
    (hi : w.hiveIndex localMachine = some i) : liveHandles w i = 0 := by
  cases call with
  | prepareRootVolumeSwitch =>
    exact unreferenced_of_onNamed B (fun _ => prepareSwitch_triple outside) hrun hi
  | promoteBootHive selectedVolume =>
    cases selectedVolume with
    | none => cases hrun
    | some volume =>
      exact unreferenced_of_onNamed B (fun _ => promote_triple volume outside) hrun hi
  | _ => exact hcall.elim

/-- Starting without hives, after any calls: each hive has one reference and one for each live
    handle on it; a hive that is ready serves the entries that were loaded from the volume its
    open file is on, with the changes made in that file since; and the boot volume is switched
    only while no handle on the boot hive is live. -/
theorem calls_sound (calls : List (RegistryCall × Outside)) (disk : Disk) {w : Registry}
    (hrun : run calls { disk := disk } = (.ok (), w)) :
    (∀ i h, w.hives[i]? = some h →
      h.configptrReferences = 1 + liveHandles w i ∧
        (h.IsRootReady → ∃ volume, h.file = some { volume := some volume } ∧
          provenance h.history = some (volume, h.roots))) ∧
      ∀ (call : RegistryCall) (outside : Outside) (w' : Registry), call.IsSwitch →
        call.exec outside w = (.ok (), w') →
          ∀ i, w.hiveIndex localMachine = some i → liveHandles w i = 0 := by
  have B : Settled w := (run_triple calls).of_ok (settled_empty disk) hrun
  refine ⟨fun i h hi => ?_, fun call outside w' hcall hexec i hi =>
    unreferenced_of_switch B hcall hexec hi⟩
  have H : Holds (1 + liveHandles w i) { hive := h, disk := w.disk, faults := [] } :=
    HivesAccounted.hive B hi _ _
  refine ⟨H.references, fun hready => ?_⟩
  obtain ⟨volume, o⟩ := H.openOn hready
  exact ⟨volume, o.file, o.source⟩

/-- The boot hive, with its file open on volume 5. -/
def openedHive : RegisteredHive :=
  { hiveName := localMachine, filePath := [], file := some { volume := some 5 } }

/-- Opening the root of a fresh boot hive reads the index of the volume that is mounted. -/
theorem openRoot_loads {file : HiveFile} (hf : file.faults = [])
    (hload : loadConfigurationIndex (openedHive.onto file) = (.ok [], openedHive.onto file)) :
    ∃ disk', run [(.registerHive localMachine [] none, { opened := .error .notFound }),
      (.openRoot localMachine, { opened := .ok { volume := some 5 } })]
        { disk := fun _ _ => file } =
          (.ok (),
            { hives := [{ (openedHive.install 5 []) with configptrReferences := 2 }]
              disk := disk'
              handles := [{ hive := 0, key := rootKey }] }) := by
  have heq : { file with faults := [] } = file := by
    cases file
    cases hf
    rfl
  have hfile : onFile 5 loadConfigurationIndex
      { hive := openedHive, disk := fun _ _ => file, faults := [] } =
        (.ok [],
          { hive := openedHive
            disk := Disk.put (fun _ _ => file) [] 5 file
            faults := [] }) := by
    unfold onFile
    dsimp only
    rw [heq, hload]
    rw [show (openedHive.onto file).file = file from rfl, heq, hf]
    rfl
  have hindex : loadIndex 5 { hive := openedHive, disk := fun _ _ => file, faults := [] } =
      (.ok [],
        { hive := openedHive
          disk := Disk.put (fun _ _ => file) [] 5 file
          faults := [] }) := Prog.bind_ok (Prog.attempt_ok hfile)
  have hensure : ensureRootIsOpenedLocked (.ok { volume := some 5 })
      { hive := { hiveName := localMachine, filePath := [] }
        disk := fun _ _ => file
        faults := [] } =
        (.ok 5,
          { hive := openedHive.install 5 []
            disk := Disk.put (fun _ _ => file) [] 5 file
            faults := [] }) := by
    exact Prog.bind_ok hindex
  have hroot : openRootOf { opened := .ok { volume := some 5 } }
      { hive := { hiveName := localMachine, filePath := [] }
        disk := fun _ _ => file
        faults := [] } =
        (.ok rootKey,
          { hive := { (openedHive.install 5 []) with configptrReferences := 2 }
            disk := Disk.put (fun _ _ => file) [] 5 file
            faults := [] }) := by
    unfold openRootOf withOpenRoot
    rw [Prog.bind_ok hensure]
    rfl
  refine ⟨Disk.put (fun _ _ => file) [] 5 file, ?_⟩
  have hhive : onHive 0 [] (openRootOf { opened := .ok { volume := some 5 } })
      { hives := [{ hiveName := localMachine, filePath := [] }], disk := fun _ _ => file } =
        (.ok rootKey,
          { hives := [{ (openedHive.install 5 []) with configptrReferences := 2 }]
            disk := Disk.put (fun _ _ => file) [] 5 file }) := by
    unfold onHive
    simp only [List.getElem?_cons_zero]
    rw [hroot]
    rfl
  have hcall : (openRoot localMachine).exec { opened := .ok { volume := some 5 } }
      { hives := [{ hiveName := localMachine, filePath := [] }], disk := fun _ _ => file } =
        (.ok (),
          { hives := [{ (openedHive.install 5 []) with configptrReferences := 2 }]
            disk := Disk.put (fun _ _ => file) [] 5 file
            handles := [{ hive := 0, key := rootKey }] }) := Prog.bind_ok hhive
  exact Prog.bind_ok (Prog.attempt_ok hcall)

/-- The boot hive on a formatted volume 5, with one handle on its root. -/
theorem calls_sound_formatted :
    ∃ w : Registry, w.hives[0]? = some { (openedHive.install 5 []) with configptrReferences := 2 } ∧
      liveHandles w 0 = 1 ∧ provenance (openedHive.install 5 []).history = some (5, []) := by
  have hload := loadConfigurationIndex_formatted (h := openedHive.onto (formattedFile {})) rfl rfl
  have hclean : (formattedFile {}).faults = [] := rfl
  generalize formattedFile {} = file at hload hclean
  obtain ⟨disk', hrun⟩ := openRoot_loads hclean hload
  have hsound := (calls_sound _ _ hrun).1 0 _ rfl
  obtain ⟨volume, hfile, hsource⟩ := hsound.2 ⟨by simp [RegisteredHive.install, openedHive], rfl⟩
  obtain rfl : volume = 5 := by
    have h := Option.some.inj hfile
    injection h with h
    exact (Option.some.inj h).symm
  have hrefs := hsound.1
  refine ⟨{ hives := [{ (openedHive.install 5 []) with configptrReferences := 2 }]
            disk := disk'
            handles := [{ hive := 0, key := rootKey }] }, rfl, ?_, hsource⟩
  exact (Nat.add_left_cancel (n := 1) (hrefs : 1 + 1 = _)).symm

end RegistryCall

end UnDOS.Hive
