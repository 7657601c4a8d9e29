import UnDOS.Lib.Run
import UnDOS.Font.Tables

/-!
# Sessions with Font Handles

Any number of processes upload fonts, close handles and hold references, in any order.

- A handle that no longer resolves never does again (`Evolves`, `handles_dead`).
- The bytes of a face are those that were appended to its upload (`Recorded`).
-/

namespace UnDOS.Font

open UnDOS.Lib UnDOS.Kernel
open UnDOS.Lib.Prog (Ends)

variable {n : Nat}

/-! ## Time -/

/-- Every slot of every table and of the registry gets older, or stays as it is. -/
structure Evolves (w w' : World n) : Prop where
  tables : ∀ p i, Later maxGeneration ((w.tables p).slots i).stamp ((w'.tables p).slots i).stamp
  registry : ∀ j, Later maxGeneration (w.registry.slots j).stamp (w'.registry.slots j).stamp

theorem Evolves.refl (w : World n) : Evolves w w := ⟨fun _ _ => .refl _, fun _ => .refl _⟩

variable {w w' : World n}

theorem Evolves.trans {w'' : World n} (h : Evolves w w') (h' : Evolves w' w'') : Evolves w w'' :=
  ⟨fun p i => (h.tables p i).trans (h'.tables p i), fun j => (h.registry j).trans (h'.registry j)⟩

section

variable {w w' : World n} {p : Fin n} {i : Fin resourceSlots}

theorem later_withSlot {tables : Fin n → Table} {s : Slot} (bytes : Nat)
    (h : Later maxGeneration ((tables p).slots i).stamp s.stamp) :
    ∀ q k, Later maxGeneration ((tables q).slots k).stamp ((withSlot tables p i s bytes q).slots
      k).stamp :=
  withSlot_forall (P := fun q k s => Later maxGeneration ((tables q).slots k).stamp s.stamp) h
    fun _ _ _ => .refl _

theorem later_update {slots : Fin faceSlots → FaceSlot} {j : Fin faceSlots} {s : FaceSlot}
    (h : Later maxGeneration (slots j).stamp s.stamp) :
    ∀ k, Later maxGeneration (slots k).stamp (Function.update slots j s k).stamp := by
  intro k
  by_cases hk : k = j
  · rw [hk, Function.update_self]
    exact h
  · rw [Function.update_of_ne hk]
    exact .refl _

theorem Begun.evolves {r : Except KernelError Nat} (h : Begun w p r w') : Evolves w w' := by
  rcases h with ⟨-, -, rfl⟩ | ⟨i, m, size, bytes, budget, -, -, -, rfl⟩
  · exact .refl w'
  · exact ⟨later_withSlot _ (.inr ⟨rfl, fun _ => rfl⟩), fun _ => .refl _⟩

theorem Appended.evolves {handle : Nat} {data : Option (List UInt8)} {r : Except KernelError Unit}
    (h : Appended w p handle data r w') : Evolves w w' := by
  rcases h with ⟨-, -, rfl⟩ | ⟨i, bytes, l, -, -, -, -, rfl⟩
  · exact .refl w'
  · exact ⟨later_withSlot _ (.inr ⟨rfl, id⟩), fun _ => .refl _⟩

theorem Released.evolves (h : Released w p i w') (hgen : ((w.tables p).slots i).generation ≠ 0) :
    Evolves w w' where
  tables := by
    rw [h.tables]
    exact later_withSlot _ (.next hgen _)
  registry := by
    rcases h.registry with ⟨-, hslots⟩ | ⟨-, j, hj, hslots⟩
    · rw [hslots]
      exact fun _ => .refl _
    · rw [hslots]
      exact later_update (.next (FaceRegistry.lookup_eq_some_iff.1 hj).2.1 _)

theorem rank_succ {g : Nat} (hgen : g ≠ 0) : rank maxGeneration g < rank maxGeneration (g + 1) := by
  unfold rank
  rw [if_neg hgen]
  exact Nat.lt_succ_self g

theorem Taken.evolves {j : Fin faceSlots} (h : Taken w p i j w')
    (hgen : ((w.tables p).slots i).generation ≠ 0) : Evolves w w' where
  tables := by
    rw [h.tables]
    exact later_withSlot _ (.inl (rank_succ hgen))
  registry := by
    rw [h.registry]
    exact later_update (.inr ⟨rfl, fun _ => rfl⟩)

end

/-! ## What was appended -/

/-- The bytes of a face. -/
def Bytes.contents (b : Bytes) : List UInt8 := readAt b.data 0 b.size

/-- The generation `g` of the slot is still to come. -/
def Slot.Future (s : Slot) (g : Nat) : Prop :=
  s.generation ≠ 0 ∧ (s.generation < g ∨ (s.generation = g ∧ s.used = false))

/-- The log says what was appended to each upload; `done` are the uploads that were committed. -/
structure Recorded (w : World n) (log : Fin n → Nat → List UInt8) (done : Fin n → Nat → Prop) :
    Prop where
  fresh : ∀ p i g, ((w.tables p).slots i).Future g → log p (handleOf slotCodes g i) = []
  uploading : ∀ p i, ((w.tables p).slots i).budget = true →
    readAt ((w.tables p).slots i).data.data 0 ((w.tables p).slots i).written =
      log p (handleOf slotCodes ((w.tables p).slots i).generation i)
  faces : ∀ p i, ((w.tables p).slots i).registry = true → ∃ j, ∃ c ∈ w.faces,
    w.registry.lookup ((w.tables p).slots i).faceHandle = some j ∧
      (w.registry.slots j).face = some c.id ∧
      c.value.bytes.contents = log p (handleOf slotCodes (((w.tables p).slots i).generation - 1) i)
  all : ∀ c ∈ w.faces, ∃ p, ∃ i : Fin resourceSlots, ∃ g,
    rank maxGeneration g < rank maxGeneration ((w.tables p).slots i).generation ∧
      done p (handleOf slotCodes g i) ∧ c.value.bytes.contents = log p (handleOf slotCodes g i)

theorem face_persists {mine : Nat → Nat} {bytes : Bytes} (hfaces : FacesOk w mine)
    (hfaces' : FacesOk w' noRefs)
    (hvalues : ∀ c ∈ w'.faces, (c.id = w.nextFace ∧ c.value.bytes = bytes) ∨
      ∃ d ∈ w.faces, d.id = c.id ∧ d.value = c.value)
    {c : Counted Face} (hc : c ∈ w.faces) {j : Fin faceSlots} (hj : (w'.registry.slots j).face =
      some c.id) :
    ∃ d ∈ w'.faces, d.id = c.id ∧ d.value = c.value := by
  obtain ⟨d, hd, hid⟩ := hfaces'.exists_face hj
  refine ⟨d, hd, hid, ?_⟩
  rcases hvalues d hd with ⟨hnew, -⟩ | ⟨e, he, hid', hvalue⟩
  · exact absurd (hfaces.fresh c hc) (by rw [← hid, hnew]; exact lt_irrefl _)
  · rw [← hvalue, hfaces.counts.unique he hc (hid'.trans hid)]

section

variable {w w' : World n} {p : Fin n} {i : Fin resourceSlots} {log : Fin n → Nat → List UInt8}
  {done : Fin n → Nat → Prop}

theorem Recorded.face {mine : Nat → Nat} (bytes : Bytes) (hr : Recorded w log done)
    (hfaces : FacesOk w mine)
    (hfaces' : FacesOk w' noRefs)
    (hvalues : ∀ c ∈ w'.faces, (c.id = w.nextFace ∧ c.value.bytes = bytes) ∨
      ∃ d ∈ w.faces, d.id = c.id ∧ d.value = c.value)
    (hregistry : ((w.tables p).slots i).registry = true)
    (hkept : ∀ j, w.registry.lookup ((w.tables p).slots i).faceHandle = some j →
      w'.registry.slots j = w.registry.slots j) :
    ∃ j, ∃ c ∈ w'.faces, w'.registry.lookup ((w.tables p).slots i).faceHandle = some j ∧
      (w'.registry.slots j).face = some c.id ∧
      c.value.bytes.contents =
        log p (handleOf slotCodes (((w.tables p).slots i).generation - 1) i) := by
  obtain ⟨j, c, hc, hj, hface, hcontents⟩ := hr.faces p i hregistry
  have hsame := hkept j hj
  rw [← hsame] at hface
  obtain ⟨d, hd, hid, hvalue⟩ := face_persists hfaces hfaces' hvalues hc hface
  exact ⟨j, d, hd, FaceRegistry.lookup_congr hj hsame, by rw [hid]; exact hface, by rw [hvalue,
    hcontents]⟩

theorem Recorded.heldOnly (hr : Recorded w log done) (hfaces : FacesOk w noRefs)
    (h : HeldOnly w w') :
    Recorded w' log done := by
  obtain ⟨hfaces', ⟨htables, -⟩, hold, hslots, -⟩ := h
  refine ⟨?_, ?_, ?_, ?_⟩
  · rw [htables]
    exact hr.fresh
  · rw [htables]
    exact hr.uploading
  · rw [htables]
    intro p i hregistry
    exact hr.face Bytes.none hfaces hfaces' (fun c hc => .inr (hold c hc)) hregistry
      fun j _ => congrFun hslots j
  · rw [htables]
    intro c hc
    obtain ⟨d, hd, -, hvalue⟩ := hold c hc
    obtain ⟨p, i, g, hlt, hdone, hcontents⟩ := hr.all d hd
    exact ⟨p, i, g, hlt, hdone, by rw [← hvalue, hcontents]⟩

theorem rank_withSlot {tables : Fin n → Table} {s : Slot} {bytes g : Nat} {q : Fin n}
    {k : Fin resourceSlots}
    (hlater : Later maxGeneration ((tables p).slots i).stamp s.stamp)
    (h : rank maxGeneration g < rank maxGeneration ((tables q).slots k).generation) :
    rank maxGeneration g < rank maxGeneration ((withSlot tables p i s bytes q).slots
      k).generation :=
  lt_of_lt_of_le h (later_withSlot bytes hlater q k).rank_le

theorem Recorded.begun {r : Except KernelError Nat} (hr : Recorded w log done) (hok : UploadsOk w)
    (h : Begun w p r w') : Recorded w' log done := by
  rcases h with ⟨-, -, rfl⟩ | ⟨i, m, size, bytes, budget, -, hunused, hgen, rfl⟩
  · exact hr
  have hlater : Later maxGeneration ((w.tables p).slots i).stamp
      (((w.tables p).slots i).begun m size).stamp := .inr ⟨rfl, fun _ => rfl⟩
  refine ⟨?_, ?_, ?_, fun c hc => ?_⟩
  · refine withSlot_forall (P := fun q k s => ∀ g, s.Future g → log q (handleOf slotCodes g k) = [])
      (fun g hg => hr.fresh p i g ⟨hgen, hg.2.imp_right fun h => by cases h.2⟩)
        fun q k _ => hr.fresh q k
  · refine withSlot_forall (P := fun q k s => s.budget = true →
      readAt s.data.data 0 s.written = log q (handleOf slotCodes s.generation k))
      (fun _ => (hr.fresh p i _ ⟨hgen, .inr ⟨rfl, hunused⟩⟩).symm) fun q k _ => hr.uploading q k
  · refine withSlot_forall (P := fun q k s => s.registry = true → ∃ j, ∃ c ∈ w.faces,
      w.registry.lookup s.faceHandle = some j ∧ (w.registry.slots j).face = some c.id ∧
        c.value.bytes.contents = log q (handleOf slotCodes (s.generation - 1) k))
      (fun h => ?_) fun q k _ => hr.faces q k
    have hregistry : ((w.tables p).slots i).registry = true := h
    rw [(hok.slots p i).registry, hunused] at hregistry
    cases hregistry
  · obtain ⟨q, k, g, hlt, hdone, hcontents⟩ := hr.all c hc
    exact ⟨q, k, g, rank_withSlot hlater hlt, hdone, hcontents⟩

/-- The log with more bytes appended to one upload. -/
def logged (log : Fin n → Nat → List UInt8) (p : Fin n) (handle : Nat) (data : List UInt8) :
    Fin n → Nat → List UInt8 := fun q h => log q h ++ if q = p ∧ h = handle then data else []

theorem logged_self (data : List UInt8) (handle : Nat) :
    logged log p handle data p handle = log p handle ++ data := by
  unfold logged
  rw [if_pos ⟨rfl, rfl⟩]

theorem logged_of_ne {data : List UInt8} {handle h : Nat} {q : Fin n}
    (hne : ¬(q = p ∧ h = handle)) :
    logged log p handle data q h = log q h := by
  unfold logged
  rw [if_neg hne, List.append_nil]

theorem handle_ne {g g' : Nat} {q : Fin n} {k : Fin resourceSlots} (h : q = p → k = i → g ≠ g') :
    ¬(q = p ∧ handleOf slotCodes g k = handleOf slotCodes g' i) := by
  rintro ⟨hq, heq⟩
  have hslots : resourceSlots + 1 < slotCodes := by decide
  obtain ⟨hg, hki⟩ := handleOf_inj (by omega) (by omega) heq
  exact h hq (Fin.ext hki) hg

/-- Appending to one upload leaves the bytes of the others as they were. -/
theorem Recorded.appended {handle : Nat} {l : List UInt8} {bytes : Nat} (hr : Recorded w log done)
    (hok : UploadsOk w) (hlookup : (w.tables p).lookup handle = some i)
    (hcommitted : ((w.tables p).slots i).committed = false) :
    Recorded { w with tables := withSlot w.tables p i (((w.tables p).slots i).appended l) bytes }
      (logged log p handle l) done := by
  obtain ⟨hused, hgen, rfl⟩ := Table.lookup_eq_some_iff.1 hlookup
  have hs := hok.slots p i
  have hbudget : ((w.tables p).slots i).budget = true := by
    rw [hs.budget, hused, hcommitted]
    rfl
  have hregistry : ((w.tables p).slots i).registry = false := by
    rw [hs.registry, hcommitted, Bool.and_false]
  -- The upload that grows is in the present generation of its slot.
  have hfuture : ∀ q k g, ((w.tables q).slots k).Future g →
      ¬(q = p ∧ handleOf slotCodes g k =
        handleOf slotCodes ((w.tables p).slots i).generation i) := by
    intro q k g hg
    apply handle_ne
    rintro rfl rfl rfl
    rcases hg.2 with hlt | ⟨-, hunused⟩
    · exact absurd hlt (lt_irrefl _)
    · rw [hused] at hunused
      cases hunused
  refine ⟨?_, ?_, ?_, fun c hc => ?_⟩
  · refine withSlot_forall (P := fun q k s => ∀ g, s.Future g →
      logged log p _ l q (handleOf slotCodes g k) = [])
      (fun g hg => ?_) fun q k _ g hg => ?_
    · rw [logged_of_ne (hfuture p i g hg)]
      exact hr.fresh p i g hg
    · rw [logged_of_ne (hfuture q k g hg)]
      exact hr.fresh q k g hg
  · refine withSlot_forall (P := fun q k s => s.budget = true →
      readAt s.data.data 0 s.written = logged log p _ l q (handleOf slotCodes s.generation k))
      (fun _ => ?_) fun q k hne hq => ?_
    · show readAt (writeAt ((w.tables p).slots i).data.data ((w.tables p).slots i).written l) 0
        (((w.tables p).slots i).written + l.length) =
          logged log p _ l p (handleOf slotCodes ((w.tables p).slots i).generation i)
      rw [logged_self, ← hr.uploading p i hbudget, readAt_add, zero_add,
        readAt_writeAt_of_disjoint (by omega), readAt_writeAt_self]
    · rw [logged_of_ne (handle_ne fun hp hk => absurd ⟨hp, hk⟩ hne)]
      exact hr.uploading q k hq
  · refine withSlot_forall (P := fun q k s => s.registry = true → ∃ j, ∃ c ∈ w.faces,
      w.registry.lookup s.faceHandle = some j ∧ (w.registry.slots j).face = some c.id ∧
        c.value.bytes.contents = logged log p _ l q (handleOf slotCodes (s.generation - 1) k))
      (fun h => ?_) fun q k hne hq => ?_
    · have h' : ((w.tables p).slots i).registry = true := h
      rw [hregistry] at h'
      cases h'
    · rw [logged_of_ne (handle_ne fun hp hk => absurd ⟨hp, hk⟩ hne)]
      exact hr.faces q k hq
  · obtain ⟨q, k, g, hlt, hdone, hcontents⟩ := hr.all c hc
    have hlater : Later maxGeneration ((w.tables p).slots i).stamp
        (((w.tables p).slots i).appended l).stamp := .inr ⟨rfl, id⟩
    refine ⟨q, k, g, rank_withSlot hlater hlt, hdone, ?_⟩
    rw [hcontents, logged_of_ne (handle_ne ?_)]
    rintro rfl rfl rfl
    exact absurd hlt (lt_irrefl _)

theorem Recorded.released (hr : Recorded w log done) (hok : UploadsOk w) (hfaces : FacesOk w noRefs)
    (hfaces' : FacesOk w' noRefs) (hgen : ((w.tables p).slots i).generation ≠ 0)
    (h : Released w p i w') : Recorded w' log done := by
  have hlater : Later maxGeneration ((w.tables p).slots i).stamp
    ((w.tables p).slots i).released.stamp :=
    .next hgen _
  refine ⟨?_, ?_, ?_, fun c hc => ?_⟩
  · rw [h.tables]
    refine withSlot_forall (P := fun q k s => ∀ g, s.Future g → log q (handleOf slotCodes g k) = [])
      (fun g hg => hr.fresh p i g ⟨hgen, .inl ?_⟩) fun q k _ => hr.fresh q k
    -- What is to come for the next generation was to come for this one.
    obtain ⟨hnext, hlt⟩ := hg
    have hnext' : nextGeneration maxGeneration ((w.tables p).slots i).generation ≠ 0 := hnext
    have hlt' : nextGeneration maxGeneration ((w.tables p).slots i).generation ≤ g :=
      hlt.elim le_of_lt fun h => le_of_eq h.1
    unfold nextGeneration at hnext' hlt'
    split at hnext'
    · exact absurd rfl hnext'
    · next hlast =>
      rw [if_neg hlast] at hlt'
      exact hlt'
  · rw [h.tables]
    exact withSlot_forall (P := fun q k s => s.budget = true →
      readAt s.data.data 0 s.written = log q (handleOf slotCodes s.generation k))
      (fun h => by cases h) fun q k _ => hr.uploading q k
  · rw [h.tables]
    refine withSlot_forall (P := fun q k s => s.registry = true → ∃ j, ∃ c ∈ w'.faces,
      w'.registry.lookup s.faceHandle = some j ∧ (w'.registry.slots j).face = some c.id ∧
        c.value.bytes.contents = log q (handleOf slotCodes (s.generation - 1) k))
      (fun h => by cases h) fun q k hne hq => ?_
    refine hr.face Bytes.none hfaces hfaces' (fun c hc => .inr (h.old c hc)) hq fun j hj => ?_
    rcases h.registry with ⟨-, hslots⟩ | ⟨hregistry, j', hj', hslots⟩
    · rw [hslots]
    · rw [hslots]
      refine Function.update_of_ne ?_ _ _
      rintro rfl
      exact hne (hok.distinct q k p i hq hregistry (hj.trans hj'.symm))
  · obtain ⟨d, hd, -, hvalue⟩ := h.old c hc
    obtain ⟨q, k, g, hlt, hdone, hcontents⟩ := hr.all d hd
    rw [h.tables]
    exact ⟨q, k, g, rank_withSlot hlater hlt, hdone, by rw [← hvalue, hcontents]⟩

/-- A commit moves the bytes of the upload into the face, unchanged. -/
theorem Recorded.taken {j : Fin faceSlots} (hr : Recorded w log done) (hok : UploadsOk w)
    (hfaces : FacesOk w noRefs) (hfaces' : FacesOk w' noRefs)
    (hused : ((w.tables p).slots i).used = true)
    (hcommitted : ((w.tables p).slots i).committed = false) (h : Taken w p i j w')
    (hdone : done p (handleOf slotCodes ((w.tables p).slots i).generation i)) :
      Recorded w' log done := by
  have hs := hok.slots p i
  have hgen := hs.live hused
  have hbudget : ((w.tables p).slots i).budget = true := by
    rw [hs.budget, hused, hcommitted]
    rfl
  have hcontents : ((w.tables p).slots i).data.contents =
      log p (handleOf slotCodes ((w.tables p).slots i).generation i) := by
    unfold Bytes.contents
    rw [← h.complete]
    exact hr.uploading p i hbudget
  -- From now on the handle of the upload has an older generation.
  have hrank := (h.evolves hgen).tables p i
  rw [h.tables, withSlot_self] at hrank
  refine ⟨?_, ?_, ?_, fun c hc => ?_⟩
  · rw [h.tables]
    refine withSlot_forall (P := fun q k s => ∀ g, s.Future g → log q (handleOf slotCodes g k) = [])
      (fun g hg => hr.fresh p i g ⟨hgen, .inl ?_⟩) fun q k _ => hr.fresh q k
    rcases hg.2 with hlt | ⟨-, hunused⟩
    · exact Nat.lt_of_succ_lt hlt
    · have hunused' : ((w.tables p).slots i).used = false := hunused
      rw [hused] at hunused'
      cases hunused'
  · rw [h.tables]
    exact withSlot_forall (P := fun q k s => s.budget = true →
      readAt s.data.data 0 s.written = log q (handleOf slotCodes s.generation k))
      (fun h => by cases h) fun q k _ => hr.uploading q k
  · rw [h.tables]
    refine withSlot_forall (P := fun q k s => s.registry = true → ∃ j, ∃ c ∈ w'.faces,
      w'.registry.lookup s.faceHandle = some j ∧ (w'.registry.slots j).face = some c.id ∧
        c.value.bytes.contents = log q (handleOf slotCodes (s.generation - 1) k))
      (fun _ => ?_) fun q k hne hq => ?_
    · -- The new face.
      have hslot : w'.registry.slots j = { w.registry.slots j with face := some w.nextFace } := by
        rw [h.registry, Function.update_self]
      have hface : (w'.registry.slots j).face = some w.nextFace := by rw [hslot]
      obtain ⟨c, hc, hid⟩ := hfaces'.exists_face hface
      refine ⟨j, c, hc, ?_, by rw [hface, hid], ?_⟩
      · rw [FaceRegistry.lookup_eq_some_iff, hslot]
        exact ⟨rfl, h.generation, rfl⟩
      · rcases h.faces c hc with ⟨-, hbytes⟩ | ⟨d, hd, hid', -⟩
        · rw [hbytes]
          exact hcontents
        · exact absurd (hfaces.fresh d hd) (by rw [hid', hid]; exact lt_irrefl _)
    · refine hr.face _ hfaces hfaces' h.faces hq fun j' hj' => ?_
      rw [h.registry]
      refine Function.update_of_ne ?_ _ _
      rintro rfl
      have hsome := (FaceRegistry.lookup_eq_some_iff.1 hj').1
      rw [h.free] at hsome
      cases hsome
  · rw [h.tables]
    rcases h.faces c hc with ⟨-, hbytes⟩ | ⟨d, hd, -, hvalue⟩
    · refine ⟨p, i, _, ?_, hdone, by rw [hbytes]; exact hcontents⟩
      rw [withSlot_self]
      exact rank_succ hgen
    · obtain ⟨q, k, g, hlt, hdone, hcontents⟩ := hr.all d hd
      exact ⟨q, k, g, rank_withSlot hrank hlt, hdone, by rw [← hvalue, hcontents]⟩

end

/-! ## The calls -/

/-- What a process, or the holder of a reference, does. -/
inductive Call (n : Nat) where
  | begin (p : Fin n) (size : Nat) (memory : Option ByteStore)
  | append (p : Fin n) (handle offset : Nat) (data : Option (List UInt8))
  | commit (p : Fin n) (handle : Nat) (room : Bool)
  | close (p : Fin n) (handle : Nat)
  | clear (p : Fin n)
  | acquire (faceHandle : Nat)
  | copy (id : Nat)
  | drop (id : Nat)

/-- A result without a value. -/
def unitResult (r : Except KernelError Unit) : Except KernelError Nat := r.map fun _ => 0

/-- The call, with its result. -/
def Call.run : Call n → Op n (Except KernelError Nat)
  | .begin p size memory => beginUpload p size memory
  | .append p handle offset data => do return unitResult (← Font.append p handle offset data)
  | .commit p handle room => do return (← Font.commit p handle room).1
  | .close p handle => do return unitResult (← Font.close p handle)
  | .clear p => do
    Font.clear p
    pure (.ok 0)
  | .acquire faceHandle => do
    let _ ← Font.acquire faceHandle
    pure (.ok 0)
  | .copy id => do
    hold id
    pure (.ok 0)
  | .drop id => do
    unhold id
    pure (.ok 0)

/-- Only a reference that somebody holds is copied or dropped. -/
def Call.Permitted (w : World n) : Call n → Prop
  | .copy id => id ∈ w.held
  | .drop id => id ∈ w.held
  | _ => True

/-- One call, with its result. -/
def Step (w : World n) (action : Call n × Except KernelError Nat) (w' : World n) : Prop :=
  action.1.Permitted w ∧ action.1.run w = (.ok action.2, w')

/-- The bytes that were appended to an upload, in order. -/
def appendedTo (p : Fin n) (handle : Nat) : List ((Call n × Except KernelError Nat) × World n) →
    List UInt8
  | [] => []
  | ((.append q h _ (some data), .ok _), _) :: past =>
    appendedTo p handle past ++ if p = q ∧ handle = h then data else []
  | _ :: past => appendedTo p handle past

/-- The upload was committed. -/
def CommittedIn (run : List ((Call n × Except KernelError Nat) × World n)) (p : Fin n)
    (handle : Nat) : Prop :=
  ∃ room h' w', ((.commit p handle room, .ok h'), w') ∈ run

/-- The invariant of the state. -/
def WorldOk (w : World n) : Prop := UploadsOk w ∧ FacesOk w noRefs

section

variable {w : World n} {E : Unit → Prop} {p : Fin n}

/-- Giving slots up keeps the invariant, and all that was recorded. -/
def Quiet (w w' : World n) : Prop :=
  WorldOk w' ∧ Evolves w w' ∧ ∀ log done, Recorded w log done → Recorded w' log done

theorem Quiet.refl (hw : WorldOk w) : Quiet w w := ⟨hw, .refl w, fun _ _ => id⟩

theorem Quiet.trans {w' w'' : World n} (h : Quiet w w') (h' : Quiet w' w'') : Quiet w w'' :=
  ⟨h'.1, h.2.1.trans h'.2.1, fun log done hr => h'.2.2 log done (h.2.2 log done hr)⟩

theorem Released.quiet {w' : World n} {i : Fin resourceSlots} (h : Released w p i w')
    (hw : WorldOk w)
    (hw' : WorldOk w') (hgen : ((w.tables p).slots i).generation ≠ 0) : Quiet w w' :=
  ⟨hw', h.evolves hgen, fun _ _ hr => hr.released hw.1 hw.2 hw'.2 hgen h⟩

/-- The handle of the face goes with the slot. -/
theorem Released.face_lookup {w' : World n} {i : Fin resourceSlots} (h : Released w p i w')
    (hregistry : ((w.tables p).slots i).registry = true) :
    w'.registry.lookup ((w.tables p).slots i).faceHandle = none := by
  rcases h.registry with ⟨hfalse, -⟩ | ⟨-, j, hj, hslots⟩
  · rw [hregistry] at hfalse
    cases hfalse
  · apply FaceRegistry.lookup_closed hj
    rw [hslots, Function.update_self]
    rfl

/-- Every handle of a registry face in the table is dead when the faces of its slots are. -/
theorem registryHandle_dead {w' : World n} (hw : WorldOk w)
    (h : ∀ i, ((w.tables p).slots i).registry = true →
      w'.registry.lookup ((w.tables p).slots i).faceHandle = none) (handle : Nat) :
    w'.registry.lookup ((w.tables p).registryHandle handle) = none := by
  unfold Table.registryHandle
  split
  · exact FaceRegistry.lookup_zero _
  · next i hi =>
    split
    · next hcommitted =>
      apply h
      rw [(hw.1.slots p i).registry, (Table.lookup_eq_some_iff.1 hi).1, hcommitted]
      rfl
    · exact FaceRegistry.lookup_zero _

theorem clearSlots_ends {slots : List (Fin resourceSlots)} :
    ∀ {w : World n}, WorldOk w → Ends (clearSlots p slots) w E fun _ w' =>
      Quiet w w' ∧ (∀ i, ((w.tables p).slots i).used = false →
        ((w'.tables p).slots i).used = false) ∧
        ∀ i ∈ slots, ((w'.tables p).slots i).used = false ∧
          (((w.tables p).slots i).registry = true →
            w'.registry.lookup ((w.tables p).slots i).faceHandle = none) := by
  induction slots with
  | nil =>
    intro w hw
    exact Ends.pure ⟨.refl hw, fun _ => id, fun i hi => nomatch hi⟩
  | cons i slots ih =>
    intro w hw
    apply Ends.get_bind
    by_cases hused : ((w.tables p).slots i).used = true
    · rw [if_pos hused]
      apply (release_ends hw.1 hw.2).bind
      rintro _ w₁ ⟨hok₁, hfaces₁, hreleased⟩
      have hquiet := hreleased.quiet hw ⟨hok₁, hfaces₁⟩ ((hw.1.slots p i).live hused)
      have hunused : ((w₁.tables p).slots i).used = false := by
        rw [hreleased.tables, withSlot_self]
        rfl
      have hothers : ∀ k, k ≠ i → (w₁.tables p).slots k = (w.tables p).slots k := by
        intro k hk
        rw [hreleased.tables, withSlot_of_ne fun h => hk h.2]
      have hstill : ∀ k, ((w.tables p).slots k).used = false →
          ((w₁.tables p).slots k).used = false := by
        intro k hk
        by_cases hki : k = i
        · rw [hki]
          exact hunused
        · rw [hothers k hki]
          exact hk
      apply (ih ⟨hok₁, hfaces₁⟩).mono
      rintro _ w₂ ⟨hquiet₂, hstill₂, hall⟩
      refine ⟨hquiet.trans hquiet₂, fun k hk => hstill₂ k (hstill k hk), fun k hk => ?_⟩
      by_cases hki : k = i
      · subst hki
        -- The handle is dead after this round, and stays dead in the others.
        exact ⟨hstill₂ k hunused, fun hregistry => resolve_dead (by decide) hquiet.2.1.registry
          hquiet₂.2.1.registry (hw.1.linked p k hregistry) (hreleased.face_lookup hregistry)⟩
      · have hrest := hall k ((List.mem_cons.1 hk).resolve_left hki)
        rwa [hothers k hki] at hrest
    · rw [if_neg hused]
      have hrest : Ends (clearSlots p slots) w E _ := ih hw
      apply hrest.mono
      rintro _ w₂ ⟨hquiet₂, hstill₂, hall⟩
      refine ⟨hquiet₂, hstill₂, fun k hk => ?_⟩
      by_cases hki : k = i
      · subst hki
        have hunused : ((w.tables p).slots k).used = false := Bool.not_eq_true _ ▸ hused
        refine ⟨hstill₂ k hunused, fun hregistry => ?_⟩
        rw [(hw.1.slots p k).registry, hunused] at hregistry
        cases hregistry
      · exact hall k ((List.mem_cons.1 hk).resolve_left hki)

/-- What one call does to what was appended and to what was committed. -/
def logAfter (log : Fin n → Nat → List UInt8) (r : Except KernelError Nat) :
    Call n → Fin n → Nat → List UInt8
  | .append p handle _ (some data) =>
    match r with
    | .ok _ => logged log p handle data
    | .error _ => log
  | _ => log

def doneAfter (done : Fin n → Nat → Prop) (r : Except KernelError Nat) (q : Fin n) (h : Nat) :
    Call n → Prop
  | .commit p handle _ => done q h ∨ (q = p ∧ h = handle ∧ ∃ h', r = .ok h')
  | _ => done q h

/-- The handles that a call ends, if it does. -/
def Ended (w : World n) (r : Except KernelError Nat) (w' : World n) : Call n → Prop
  | .close p handle => (∃ v, r = .ok v) → (w'.tables p).lookup handle = none ∧
      w'.registry.lookup ((w.tables p).registryHandle handle) = none
  | .commit p handle _ => r ≠ .error .invalidState → (w'.tables p).lookup handle = none
  | .clear p => ∀ handle, (w'.tables p).lookup handle = none ∧
      w'.registry.lookup ((w.tables p).registryHandle handle) = none
  | _ => True

/-- The handle of a face is that of its upload in the next generation. -/
def NewHandle (r : Except KernelError Nat) : Call n → Prop
  | .commit _ handle _ => ∀ h', r = .ok h' → h' = handle + slotCodes
  | _ => True

/-- What a call keeps, and what it ends. -/
structure CallPost (w : World n) (call : Call n) (r : Except KernelError Nat) (w' : World n) :
    Prop where
  ok : WorldOk w'
  evolves : Evolves w w'
  recorded : ∀ log done, Recorded w log done →
    Recorded w' (logAfter log r call) fun q h => doneAfter done r q h call
  ended : Ended w r w' call
  handle : NewHandle r call

theorem Recorded.mono {log : Fin n → Nat → List UInt8} {done done' : Fin n → Nat → Prop}
    (hr : Recorded w log done) (h : ∀ q handle, done q handle → done' q handle) :
      Recorded w log done' where
  fresh := hr.fresh
  uploading := hr.uploading
  faces := hr.faces
  all c hc := by
    obtain ⟨q, k, g, hlt, hdone, hcontents⟩ := hr.all c hc
    exact ⟨q, k, g, hlt, h q _ hdone, hcontents⟩

theorem append_post (handle offset : Nat) (data : Option (List UInt8)) (hw : WorldOk w) :
    Ends (Call.run (.append p handle offset data)) w
      E (CallPost w (.append p handle offset data)) := by
  apply (append_ends handle offset data hw.1 hw.2).bind
  rintro r w' ⟨hok', hfaces', happended⟩
  refine Ends.pure ⟨⟨hok', hfaces'⟩, happended.evolves, fun log done hr => ?_, trivial, trivial⟩
  rcases happended with ⟨e, rfl, rfl⟩ | ⟨i, bytes, l, rfl, rfl, hlookup, hcommitted, rfl⟩
  · cases data <;> exact hr
  · exact hr.appended hw.1 hlookup hcommitted

theorem Released.lookup {w' : World n} {handle : Nat} {i : Fin resourceSlots}
    (h : Released w p i w')
    (hlookup : (w.tables p).lookup handle = some i) : (w'.tables p).lookup handle = none := by
  refine Table.lookup_dead hlookup (.inl ?_)
  rw [h.tables, withSlot_self]
  rfl

theorem commit_post (handle : Nat) (room : Bool) (hw : WorldOk w) :
    Ends (Call.run (.commit p handle room)) w E (CallPost w (.commit p handle room)) := by
  apply (commit_ends handle room hw.1 hw.2).bind
  rintro ⟨r, v⟩ w' ⟨hok', hfaces', hcommitted⟩
  have hcommitted' : Committed w p handle r w' := hcommitted
  rcases hcommitted' with ⟨hrefused, rfl⟩ | ⟨i, hlookup, hopen, hcase⟩
  · refine ⟨hw, .refl w', fun log done hr => hr.mono fun q h => .inl, fun hr => ?_, fun h' hr => ?_⟩
    · exact (hrefused.resolve_right hr).2
    · rcases hrefused with ⟨rfl, -⟩ | rfl <;> cases hr
  · obtain ⟨hused, hgen, hhandle⟩ := Table.lookup_eq_some_iff.1 hlookup
    rcases hcase with ⟨e, rfl, hreleased⟩ | ⟨j, rfl, htaken⟩
    · obtain ⟨-, hevolves, hrecorded⟩ := hreleased.quiet hw ⟨hok', hfaces'⟩ hgen
      exact ⟨⟨hok', hfaces'⟩, hevolves, fun log done hr => (hrecorded log done hr).mono
        fun q h => .inl,
        fun _ => hreleased.lookup hlookup, (fun h' hr => by cases hr)⟩
    · refine ⟨⟨hok', hfaces'⟩, htaken.evolves hgen, fun log done hr => ?_, fun _ => ?_,
        fun h' hr => ?_⟩
      · apply (hr.mono fun q h => .inl).taken hw.1 hw.2 hfaces' hused hopen htaken
        exact .inr ⟨rfl, hhandle.symm, _, rfl⟩
      · refine Table.lookup_dead hlookup (.inr ?_)
        rw [htaken.tables, withSlot_self]
        exact Nat.succ_ne_self _
      · rw [← Except.ok.inj hr, hhandle]
        unfold handleOf
        ring

theorem close_post (handle : Nat) (hw : WorldOk w) :
    Ends (Call.run (.close p handle)) w E (CallPost w (.close p handle)) := by
  apply (close_ends handle hw.1 hw.2).bind
  rintro r w' ⟨hok', hfaces', hclosed⟩
  rcases hclosed with ⟨rfl, rfl⟩ | ⟨i, rfl, hlookup, hreleased⟩
  · exact ⟨hw, .refl w', fun log done hr => hr, (fun ⟨v, hv⟩ => by cases hv), trivial⟩
  · obtain ⟨hused, hgen, -⟩ := Table.lookup_eq_some_iff.1 hlookup
    obtain ⟨-, hevolves, hrecorded⟩ := hreleased.quiet hw ⟨hok', hfaces'⟩ hgen
    refine ⟨⟨hok', hfaces'⟩, hevolves, hrecorded, fun _ => ⟨hreleased.lookup hlookup, ?_⟩, trivial⟩
    unfold Table.registryHandle
    rw [hlookup]
    dsimp only
    split
    · next hcommitted =>
      apply hreleased.face_lookup
      rw [(hw.1.slots p i).registry, hused, hcommitted]
      rfl
    · exact FaceRegistry.lookup_zero _

theorem HeldOnly.post {w' : World n} {call : Call n} {r : Except KernelError Nat}
    (h : HeldOnly w w')
    (hw : WorldOk w) (hlog : ∀ log, logAfter log r call = log) (hdone : ∀ done q h,
      doneAfter done r q h call = done q h)
    (hended : Ended w r w' call) (hhandle : NewHandle r call) : CallPost w call r w' := by
  have hfaces' := h.1
  have hsame := h.2.1
  have hslots := h.2.2.2.1
  refine ⟨⟨hw.1.refused hsame hslots, hfaces'⟩, ⟨?_, ?_⟩, fun log done hr => ?_, hended, hhandle⟩
  · rw [hsame.1]
    exact fun _ _ => .refl _
  · rw [hslots]
    exact fun _ => .refl _
  · rw [hlog]
    exact (hr.heldOnly hw.2 h).mono fun q handle hd => by rw [hdone]; exact hd

theorem Call.post (call : Call n) (hw : WorldOk w) (hp : call.Permitted w) :
    Ends call.run w E (CallPost w call) := by
  cases call with
  | begin p size memory =>
    apply (beginUpload_ends size memory hw.1 hw.2).mono
    rintro r w' ⟨hok', hfaces', hbegun⟩
    exact ⟨⟨hok', hfaces'⟩, hbegun.evolves, fun log done hr => hr.begun hw.1 hbegun,
      trivial, trivial⟩
  | append p handle offset data => exact append_post handle offset data hw
  | commit p handle room => exact commit_post handle room hw
  | close p handle => exact close_post handle hw
  | clear p =>
    apply (clearSlots_ends hw).bind
    rintro _ w' ⟨⟨hw', hevolves, hrecorded⟩, -, hall⟩
    refine Ends.pure ⟨hw', hevolves, hrecorded, fun handle => ⟨?_, ?_⟩, trivial⟩
    · by_contra hsome
      obtain ⟨i, hi⟩ := Option.ne_none_iff_exists'.1 hsome
      have hused := (Table.lookup_eq_some_iff.1 hi).1
      rw [(hall i (List.mem_finRange i)).1] at hused
      cases hused
    · exact registryHandle_dead hw (fun i => (hall i (List.mem_finRange i)).2) handle
  | acquire faceHandle =>
    exact (acquire_ends faceHandle hw.2).bind fun _ _ h =>
      Ends.pure (h.post hw (fun _ => rfl) (fun _ _ _ => rfl) trivial trivial)
  | copy id =>
    have hlive : ∃ c ∈ w.faces, c.id = id := by
      refine hw.2.counts.all id fun hzero => ?_
      have hcount := List.count_pos_iff.2 (hp)
      unfold World.refs at hzero
      omega
    exact (hold_ends hw.2 hlive).bind fun _ _ h =>
      Ends.pure (h.post hw (fun _ => rfl) (fun _ _ _ => rfl) trivial trivial)
  | drop id =>
    exact (unhold_ends hw.2 hp).bind fun _ _ h =>
      Ends.pure (h.post hw (fun _ => rfl) (fun _ _ _ => rfl) trivial trivial)

end

/-! ## Runs -/

theorem sum_zero {k : Nat} : (∑ _i : Fin k, 0) = 0 := Finset.sum_const_zero

theorem one_le_maxGeneration : 1 ≤ maxGeneration := by decide

theorem start_none (id : Nat) : ({} : World n).refs id + noRefs id = 0 := by
  simp [World.refs, noRefs]

theorem start_ok : WorldOk ({} : World n) where
  left := {
    slots := fun p i => ⟨one_le_maxGeneration, (fun h => by cases h), rfl, rfl, fun _ => rfl,
      fun h => by cases h⟩
    bytes := fun p => sum_zero.symm
    bytesSmall := fun p => Nat.zero_le _
    budget := (Finset.sum_eq_zero fun p _ => Finset.sum_eq_zero fun i _ => rfl).symm
    budgetSmall := Nat.zero_le _
    linked := fun p i h => by cases h
    distinct := fun p i q k h => by cases h }
  right := {
    counts := ⟨List.nodup_nil, fun c hc => absurd hc List.not_mem_nil,
      fun c hc => absurd hc List.not_mem_nil, fun id h => absurd (start_none id) h⟩
    fresh := fun c hc => nomatch hc
    sized := fun c hc => nomatch hc
    budget := rfl
    small := Nat.zero_le _
    generations := fun j => one_le_maxGeneration
    live := fun j h => absurd rfl h }

theorem start_recorded : Recorded ({} : World n) (fun _ _ => []) fun _ _ => False :=
  ⟨fun _ _ _ _ => rfl, (fun p i h => by cases h), (fun p i h => by cases h),
    fun c hc => nomatch hc⟩

theorem appendedTo_cons (call : Call n) (r : Except KernelError Nat) (w' : World n)
    (past : List ((Call n × Except KernelError Nat) × World n)) :
    logAfter (fun p h => appendedTo p h past) r call = fun p h =>
      appendedTo p h (((call, r), w') :: past) := by
  cases call with
  | append q handle offset data =>
    cases data with
    | none => rfl
    | some data => cases r <;> rfl
  | begin | commit | close | clear | acquire | copy | drop => rfl

theorem committedIn_cons {call : Call n} {r : Except KernelError Nat}
    {past : List ((Call n × Except KernelError Nat) × World n)} {q : Fin n} {handle : Nat}
    (h : doneAfter (CommittedIn past) r q handle call) :
      CommittedIn (((call, r), w') :: past) q handle := by
  have hpast : CommittedIn past q handle → CommittedIn (((call, r), w') :: past) q handle := by
    rintro ⟨room, h', w'', hmem⟩
    exact ⟨room, h', w'', .tail _ hmem⟩
  cases call with
  | commit p handle' room =>
    rcases h with h | ⟨rfl, rfl, h', rfl⟩
    · exact hpast h
    · exact ⟨room, h', w', .head _⟩
  | begin | append | close | clear | acquire | copy | drop => exact hpast h

theorem Step.post {call : Call n} {r : Except KernelError Nat} (hw : WorldOk w)
    (h : Step w (call, r) w') : CallPost w call r w' :=
  (Call.post (E := fun _ => False) call hw h.1).of_ok h.2

theorem run_ok {run : List ((Call n × Except KernelError Nat) × World n)} (h : Run Step {} run) :
    WorldOk (lastState {} run) ∧
      Recorded (lastState {} run) (fun p handle => appendedTo p handle run) (CommittedIn run) := by
  induction h with
  | nil => exact ⟨start_ok, start_recorded.mono fun _ _ h => h.elim⟩
  | @cons past action w' _ last ih =>
    obtain ⟨hw, hr⟩ := ih
    have hpost := Step.post hw last
    refine ⟨hpost.ok, ?_⟩
    have hr' := hpost.recorded _ _ hr
    rw [appendedTo_cons action.1 action.2 w' past] at hr'
    exact hr'.mono fun q handle => committedIn_cons

theorem run_evolves (hw : WorldOk w) {run : List ((Call n × Except KernelError Nat) × World n)}
    (h : Run Step w run) : Evolves w (lastState w run) := by
  have hboth := h.invariant (I := fun w' => WorldOk w' ∧ Evolves w w') ⟨hw, .refl w⟩
    fun s a s' hs hstep => by
      have hpost := Step.post hs.1 hstep
      exact ⟨hpost.ok, hs.2.trans hpost.evolves⟩
  exact hboth.2

theorem handleOf_pred {g i : Nat} (hgen : g ≠ 0) :
    handleOf slotCodes (g - 1) i = handleOf slotCodes g i - slotCodes := by
  obtain ⟨g, rfl⟩ := Nat.exists_eq_succ_of_ne_zero hgen
  unfold handleOf
  rw [Nat.succ_sub_one, Nat.succ_mul]
  omega

/-- The budgets, the tables and the faces in every state. -/
structure Sound (run : List ((Call n × Except KernelError Nat) × World n)) (w : World n) :
    Prop where
  uploadBudget : w.budget = ∑ p, ∑ i, if ((w.tables p).slots i).used = true ∧
    ((w.tables p).slots i).committed = false then ((w.tables p).slots i).reserved else 0
  tableBytes : ∀ p, (w.tables p).bytes =
    ∑ i, if ((w.tables p).slots i).used = true then ((w.tables p).slots i).reserved else 0
  faceBudget : w.registry.budget = (w.faces.map fun c => c.value.bytes.size).sum
  faces : CountsOk w.faces w.refs
  faceBytes : ∀ p handle i, (w.tables p).lookup handle = some i →
    ((w.tables p).slots i).committed = true →
    ∃ j, ∃ c ∈ w.faces, w.registry.lookup ((w.tables p).registryHandle handle) = some j ∧
      (w.registry.slots j).face = some c.id ∧
      c.value.bytes.contents = appendedTo p (handle - slotCodes) run
  everyFace : ∀ c ∈ w.faces, ∃ p handle, CommittedIn run p handle ∧
    c.value.bytes.contents = appendedTo p handle run

theorem WorldOk.sound {run : List ((Call n × Except KernelError Nat) × World n)}
    (hw : WorldOk w) (hr : Recorded w (fun p handle => appendedTo p handle run) (CommittedIn run)) :
    Sound run w where
  uploadBudget := by
    rw [hw.1.budget]
    exact Finset.sum_congr rfl fun p _ => Finset.sum_congr rfl fun i _ => (hw.1.slots p i).charge
  tableBytes p := by
    rw [hw.1.bytes p]
    refine Finset.sum_congr rfl fun i _ => ?_
    split
    · rfl
    · next hunused => exact (hw.1.slots p i).unused (Bool.not_eq_true _ ▸ hunused)
  faceBudget := by
    rw [hw.2.budget]
    unfold weight
    rw [List.map_congr_left hw.2.sized]
  faces := by
    have hcounts := hw.2.counts
    rwa [show (fun id => w.refs id + noRefs id) = w.refs from funext
      fun id => add_zero _] at hcounts
  faceBytes p handle i hlookup hcommitted := by
    obtain ⟨hused, hgen, rfl⟩ := Table.lookup_eq_some_iff.1 hlookup
    have hregistry : ((w.tables p).slots i).registry = true := by
      rw [(hw.1.slots p i).registry, hused, hcommitted]
      rfl
    obtain ⟨j, c, hc, hj, hface, hcontents⟩ := hr.faces p i hregistry
    -- The upload had the generation before.
    rw [← handleOf_pred hgen]
    refine ⟨j, c, hc, ?_, hface, hcontents⟩
    unfold Table.registryHandle
    rw [hlookup]
    exact (congrArg w.registry.lookup (if_pos hcommitted)).trans hj
  everyFace c hc := by
    obtain ⟨p, i, g, -, hdone, hcontents⟩ := hr.all c hc
    exact ⟨p, _, hdone, hcontents⟩

/-- **Font handles and their budgets.**  In every state that is reached, the budgets are the sums of
what is charged to them, the faces live exactly as long as something refers to them, and have the
bytes that were appended to their uploads.  A handle that was closed, committed away or cleared does
not resolve any more, and neither does the handle of its face in the registry; a handle that stopped
resolving never does again. -/
theorem sessions_sound (run : List ((Call n × Except KernelError Nat) × World n))
    (h : Run Step {} run) :
    Sound run (lastState {} run) ∧ (∀ later call r w' past, run = later ++ ((call, r), w') :: past →
        Ended (lastState {} past) r w' call ∧ NewHandle r call) ∧
      ∀ later middle past, run = later ++ (middle ++ past) →
        (∀ p handle, ((lastState {} past).tables p).lookup handle ≠ none →
          ((lastState {} (middle ++ past)).tables p).lookup handle = none →
          ((lastState {} run).tables p).lookup handle = none) ∧
        ∀ handle, (lastState {} past).registry.lookup handle ≠ none →
          (lastState {} (middle ++ past)).registry.lookup handle = none →
          (lastState {} run).registry.lookup handle = none := by
  obtain ⟨hw, hr⟩ := run_ok h
  refine ⟨hw.sound hr, ?_, ?_⟩
  · rintro later call r w' past rfl
    obtain ⟨hrest, -⟩ := h.of_append
    cases hrest with
    | cons hpast hlast =>
      have hpost := Step.post (run_ok hpast).1 hlast
      exact ⟨hpost.ended, hpost.handle⟩
  · rintro later middle past rfl
    obtain ⟨hrest, hlater⟩ := h.of_append
    obtain ⟨hpast, hmiddle⟩ := hrest.of_append
    have hfirst := run_evolves (run_ok hpast).1 hmiddle
    have hsecond := run_evolves (run_ok hrest).1 hlater
    rw [← lastState_append] at hfirst hsecond
    exact ⟨fun p handle => resolve_dead (by decide) (hfirst.tables p) (hsecond.tables p),
      fun handle => resolve_dead (by decide) hfirst.registry hsecond.registry⟩

/-! ## A session -/

instance (w : World n) (call : Call n) : Decidable (call.Permitted w) :=
  match call with
  | .copy id | .drop id => inferInstanceAs (Decidable (id ∈ w.held))
  | .begin .. | .append .. | .commit .. | .close .. | .clear .. | .acquire .. => isTrue trivial

/-- A permitted call that has this result. -/
def Call.next (w : World n) (action : Call n × Except KernelError Nat) : Option (World n) :=
  if action.1.Permitted w ∧ (action.1.run w).1 = .ok action.2 then some (action.1.run w).2 else none

theorem Call.step_of_next {action : Call n × Except KernelError Nat} (h : next w action = some w') :
    Step w action w' := by
  unfold next at h
  split at h
  · next hok => exact ⟨hok.1, Prod.ext hok.2 (Option.some.inj h)⟩
  · cases h

/-- A font with one empty glyph, for the space. -/
def emptyFont : List UInt8 :=
  let header := [magic, version, headerSize, 308, sectionCount, 1, 2048, 1800, 2 ^ 32 - 400, 0, 400,
    0, 0, 0, 0, 0]
  let directory := [1, 184, 60, 2, 244, 0, 3, 244, 0, 4, 244, 0, 5, 244, 12, 6, 256, 0, 7, 256, 0,
    8, 256, 0, 9, 256, 0, 10, 256, 52]
  let glyph := [0, 600, 0, 0, 0, 0, 0, 0, 0, 0, 0, 0, 0, 0, 0]
  let limits := [0, 0, 0, 0, 2, 0, 0, 0, 0, 1, 1, 1, 1]
  (header ++ directory ++ glyph ++ [32, 32, 0] ++ limits).flatMap (leBytes 4)

/-- The font is uploaded and committed, and somebody holds its face. -/
def uploadedFont : List (Call 1 × Except KernelError Nat) :=
  [(.begin 0 308 (some fun _ => 0), .ok 257), (.append 0 257 0 (some emptyFont), .ok 0),
    (.commit 0 257 true, .ok 513), (.acquire 257, .ok 0)]

/-- What is left when the table is cleared: only the face that is held. -/
theorem sessions_sound_closed : ∃ past w' : World 1, ∃ run,
    Run Step {} run ∧ run.reverse.map Prod.fst = uploadedFont ∧ lastState {} run = past ∧
      (past.tables 0).registryHandle 513 = 257 ∧ ((past.tables 0).lookup 513).isSome = true ∧
      Sound (((.clear 0, .ok 0), w') :: run) w' ∧
      w'.faces.map (fun c => c.value.bytes.contents) = [emptyFont] ∧ w'.budget = 0 ∧
      (w'.tables 0).lookup 513 = none ∧ w'.registry.lookup 257 = none := by
  have hview : ((replay Call.next {} uploadedFont).bind fun w =>
      (Call.next w (.clear 0, .ok 0)).map fun w' => ((w.tables 0).registryHandle 513,
        ((w.tables 0).lookup 513).isSome, w'.faces.map (fun c => c.value.bytes.contents),
          w'.budget)) =
      some (257, true, [emptyFont], 0) := by
    decide +kernel
  obtain ⟨past, hpast, hrest⟩ := Option.bind_eq_some_iff.1 hview
  obtain ⟨w', hclear, hrest⟩ := Option.map_eq_some_iff.1 hrest
  simp only [Prod.mk.injEq] at hrest
  obtain ⟨hhandle, hlookup, hfaces, hbudget⟩ := hrest
  obtain ⟨run, hrun, hacts, rfl⟩ := Run.exists_replay (fun _ _ _ => Call.step_of_next) Run.nil hpast
  obtain ⟨hsound, hended, -⟩ := sessions_sound _ (hrun.cons (Call.step_of_next hclear))
  obtain ⟨hdead, hface⟩ := (hended [] (.clear 0) (.ok 0) w' run rfl).1 513
  rw [hhandle] at hface
  refine ⟨_, w', run, hrun, ?_, rfl, hhandle, hlookup, hsound, hfaces, hbudget, hdead, hface⟩
  rw [List.map_reverse, hacts, List.map_nil, List.append_nil, List.reverse_reverse]

end UnDOS.Font
