import Mathlib.Algebra.BigOperators.Fin
import Mathlib.Algebra.Order.BigOperators.Group.Finset
import UnDOS.Lib.Checked
import UnDOS.Font.Returns
import UnDOS.Font.Uploads

/-!
# Faces and Their References

A face lives exactly as long as something refers to it: a slot of the registry, or somebody who
holds a reference.  The budget of the registry is the sum of the sizes of the live faces
(`FacesOk`), whatever is published, acquired, closed or dropped.
-/

namespace UnDOS.Font

open UnDOS.Lib UnDOS.Kernel
open UnDOS.Lib.Prog (Ends)
open Function (update update_of_ne update_self)

variable {n : Nat}

/-! ## The invariant -/

/-- The references to a face. -/
def World.refs (w : World n) (id : Nat) : Nat :=
  (∑ j, if (w.registry.slots j).face = some id then 1 else 0) + w.held.count id

/-- One reference to `id`. -/
def one (id : Nat) (x : Nat) : Nat := if x = id then 1 else 0

/-- The invariant of the faces, where a routine has the references `mine`. -/
structure FacesOk (w : World n) (mine : Nat → Nat) : Prop where
  counts : CountsOk w.faces fun id => w.refs id + mine id
  fresh : ∀ c ∈ w.faces, c.id < w.nextFace
  sized : ∀ c ∈ w.faces, c.value.reserved = c.value.bytes.size
  budget : w.registry.budget = weight Face.reserved w.faces
  small : w.registry.budget ≤ maxRegisteredBytes
  generations : ∀ j, (w.registry.slots j).generation ≤ maxGeneration
  live : ∀ j, (w.registry.slots j).face ≠ none → (w.registry.slots j).generation ≠ 0

/-- No reference is in hand. -/
def noRefs (_ : Nat) : Nat := 0

/-- The tables and their budget stay. -/
def SameTables (w w' : World n) : Prop := w'.tables = w.tables ∧ w'.budget = w.budget

theorem SameTables.trans {w w' w'' : World n} (h : SameTables w w') (h' : SameTables w' w'') :
    SameTables w w'' := ⟨h'.1.trans h.1, h'.2.trans h.2⟩

/-- Every face was there before. -/
def OldFaces (w w' : World n) : Prop := ∀ c ∈ w'.faces, ∃ d ∈ w.faces, d.id = c.id ∧
    d.value = c.value

theorem OldFaces.refl (w : World n) : OldFaces w w := fun c hc => ⟨c, hc, rfl, rfl⟩

theorem OldFaces.trans {w w' w'' : World n} (h : OldFaces w w') (h' : OldFaces w' w'') :
    OldFaces w w'' := by
  intro c hc
  obtain ⟨d, hd, hid, hvalue⟩ := h' c hc
  obtain ⟨e, he, hid', hvalue'⟩ := h d hd
  exact ⟨e, he, hid'.trans hid, hvalue'.trans hvalue⟩

theorem subWord_add (a b : Nat) : subWord (a + b) b = a := by
  unfold subWord
  rw [if_pos (Nat.le_add_left b a), Nat.add_sub_cancel]

section

variable {w : World n} {E : Unit → Prop} {mine : Nat → Nat} {id : Nat}

/-- The last reference gives the bytes back to the budget. -/
theorem dropFace_ends (hok : FacesOk w fun x => mine x + one id x) :
      Ends (dropFace id) w E fun _ w' =>
    FacesOk w' mine ∧ SameTables w w' ∧ OldFaces w w' ∧ w'.registry.slots = w.registry.slots ∧
      w'.held = w.held ∧ w'.nextFace = w.nextFace := by
  have hrefs : ∀ x, w.refs x + (mine x + one id x) = w.refs x + mine x + if x = id then 1 else 0 :=
    fun x => (add_assoc _ _ _).symm
  obtain ⟨hcounts, hold, hweight⟩ := hok.counts.unref hrefs
  have hreserved := hweight Face.reserved
  have hbudget := hok.budget
  have hsmall := hok.small
  have hfresh : ∀ c ∈ (unref id w.faces).1, c.id < w.nextFace := fun c hc => by
    obtain ⟨d, hd, hid, -⟩ := hold c hc
    exact hid ▸ hok.fresh d hd
  have hsized : ∀ c ∈ (unref id w.faces).1, c.value.reserved = c.value.bytes.size := fun c hc => by
    obtain ⟨d, hd, -, hvalue⟩ := hold c hc
    exact hvalue ▸ hok.sized d hd
  refine Ends.get_bind ((Ends.modify (Q := fun _ w' =>
    w' = { w with faces := (unref id w.faces).1 })
    rfl).bind ?_)
  rintro _ w₁ rfl
  cases hdropped : (unref id w.faces).2 with
  | none =>
    rw [hdropped] at hreserved
    exact Ends.pure ⟨⟨hcounts, hfresh, hsized, hbudget.trans hreserved, hsmall, hok.generations,
      hok.live⟩,
      ⟨rfl, rfl⟩, hold, rfl, rfl, rfl⟩
  | some face =>
    rw [hdropped] at hreserved
    have hreleased : releaseBytes w.registry.budget face.reserved =
        weight Face.reserved (unref id w.faces).1 := by
      have hsum : w.registry.budget = weight Face.reserved (unref id w.faces).1 + face.reserved :=
        hbudget.trans hreserved
      rw [hsum]
      exact subWord_add _ _
    have hsmall' : releaseBytes w.registry.budget face.reserved ≤ maxRegisteredBytes := by
      rw [hreleased]
      exact (hbudget.trans hreserved ▸ Nat.le_add_right _ _ : _ ≤ w.registry.budget).trans hsmall
    refine Ends.modify ⟨⟨hcounts, hfresh, hsized, hreleased, hsmall', hok.generations, hok.live⟩,
      ⟨rfl, rfl⟩, hold, rfl, rfl, rfl⟩

theorem retainFace_ends (hok : FacesOk w mine) (hlive : ∃ c ∈ w.faces, c.id = id) :
    Ends (retainFace id) w E fun _ w' =>
      FacesOk w' (fun x => mine x + one id x) ∧ SameTables w w' ∧ OldFaces w w' ∧
        w'.registry = w.registry ∧ w'.held = w.held ∧ w'.nextFace = w.nextFace := by
  refine Ends.modify ⟨⟨hok.counts.retain hlive fun x => (add_assoc _ _ _).symm, fun c hc => ?_,
    fun c hc => ?_, hok.budget.trans (weight_retain _ _ _).symm, hok.small, hok.generations,
      hok.live⟩,
    ⟨rfl, rfl⟩, fun c hc => mem_retain hc, rfl, rfl, rfl⟩
  · obtain ⟨d, hd, hid, -⟩ := mem_retain hc
    exact hid ▸ hok.fresh d hd
  · obtain ⟨d, hd, -, hvalue⟩ := mem_retain hc
    exact hvalue ▸ hok.sized d hd

/-- What one slot of the registry adds to the references. -/
def FaceSlot.refs (s : FaceSlot) (id : Nat) : Nat := if s.face = some id then 1 else 0

/-- The world with another slot of the registry. -/
def World.withFaceSlot (w : World n) (j : Fin faceSlots) (s : FaceSlot) : World n :=
  { w with registry := { w.registry with slots := update w.registry.slots j s } }

theorem refs_withFaceSlot (w : World n) (j : Fin faceSlots) (s : FaceSlot) (id : Nat) :
    (w.withFaceSlot j s).refs id + (w.registry.slots j).refs id = w.refs id + s.refs id := by
  have hsum := sum_update w.registry.slots (fun s => s.refs id) j s
  show (∑ k, (update w.registry.slots j s k).refs id) + w.held.count id + _ =
    (∑ k, (w.registry.slots k).refs id) + w.held.count id + _
  omega

theorem FacesOk.withFaceSlot {mine' : Nat → Nat} (hok : FacesOk w mine) {j : Fin faceSlots}
    {s : FaceSlot}
    (hrefs : ∀ x, s.refs x + mine' x = (w.registry.slots j).refs x + mine x)
    (hgeneration : s.generation ≤ maxGeneration) (hlive : s.face ≠ none → s.generation ≠ 0) :
    FacesOk (w.withFaceSlot j s) mine' where
  counts := by
    have hsame : (fun x => (w.withFaceSlot j s).refs x + mine' x) = fun x => w.refs x + mine x := by
      funext x
      have hslot := refs_withFaceSlot w j s x
      have hx := hrefs x
      omega
    rw [hsame]
    exact hok.counts
  fresh := hok.fresh
  sized := hok.sized
  budget := hok.budget
  small := hok.small
  generations k := by
    show (update w.registry.slots j s k).generation ≤ maxGeneration
    by_cases hk : k = j
    · rw [hk, update_self]
      exact hgeneration
    · rw [update_of_ne hk]
      exact hok.generations k
  live k := by
    show (update w.registry.slots j s k).face ≠ none →
      (update w.registry.slots j s k).generation ≠ 0
    by_cases hk : k = j
    · rw [hk, update_self]
      exact hlive
    · rw [update_of_ne hk]
      exact hok.live k

/-- A new face with the first reference in hand, or an error and nothing. -/
def Created (w : World n) (bytes : Bytes) (r : Except KernelError Nat) (w' : World n) : Prop :=
  (∃ e, r = .error e ∧ FacesOk w' noRefs ∧ OldFaces w w') ∨
    (r = .ok w.nextFace ∧ validate bytes = .ok () ∧ FacesOk w' (one w.nextFace) ∧
      w'.faces = ⟨w.nextFace, 1, ⟨bytes, bytes.size⟩⟩ :: w.faces)

theorem createFace_ends (bytes : Bytes) (room : Bool) (hok : FacesOk w noRefs) :
    Ends (createFace bytes room) w E fun r w' =>
      SameTables w w' ∧ w'.held = w.held ∧ w'.registry.slots = w.registry.slots ∧
        w.nextFace ≤ w'.nextFace ∧ Created w bytes r.1 w' := by
  have hsame : ∀ (e : KernelError) (v : Option Error), Ends
      (pure (.error e, v) : Op n (Except KernelError Nat × Option Error)) w E fun r w' =>
      SameTables w w' ∧ w'.held = w.held ∧ w'.registry.slots = w.registry.slots ∧
        w.nextFace ≤ w'.nextFace ∧ Created w bytes r.1 w' := fun e v =>
    Ends.pure ⟨⟨rfl, rfl⟩, rfl, rfl, le_rfl, .inl ⟨e, rfl, hok, .refl w⟩⟩
  unfold createFace
  cases hvalid : validate bytes with
  | stuck => exact absurd hvalid (validate_returns bytes)
  | err e => exact hsame _ _
  | ok u =>
    apply Ends.get_bind
    unfold reserve
    by_cases hfull : maxRegisteredBytes - w.registry.budget < bytes.size
    · rw [if_pos hfull]
      exact hsame _ _
    rw [if_neg hfull]
    have hsmall := hok.small
    have hroom : w.registry.budget + bytes.size ≤ maxRegisteredBytes := by omega
    refine (Ends.modify (Q := fun _ w' => w' = { w with
      registry := { w.registry with budget := w.registry.budget + bytes.size } }) rfl).bind ?_
    rintro _ w₁ rfl
    refine Ends.ite (fun _ => ?_) fun _ => ?_
    · refine (Ends.modify (Q := fun _ w' => w' = { w with
        registry := { w.registry with budget := w.registry.budget + bytes.size }
        faces := ⟨w.nextFace, 1, ⟨bytes, bytes.size⟩⟩ :: w.faces
        nextFace := w.nextFace + 1 }) rfl).bind ?_
      rintro _ w₂ rfl
      refine Ends.pure ⟨⟨rfl, rfl⟩, rfl, rfl, Nat.le_succ _,
        .inr ⟨rfl, hvalid, ⟨?_, ?_, ?_, ?_, hroom,
        hok.generations, hok.live⟩, rfl⟩⟩
      · refine hok.counts.create ⟨bytes, bytes.size⟩ (fun c hc => (hok.fresh c hc).ne) fun x => ?_
        show w.refs x + one w.nextFace x = w.refs x + 0 + one w.nextFace x
        rw [add_zero]
      · intro c hc
        rcases List.mem_cons.1 hc with rfl | hc
        · exact Nat.lt_succ_self _
        · exact (hok.fresh c hc).trans (Nat.lt_succ_self _)
      · intro c hc
        rcases List.mem_cons.1 hc with rfl | hc
        · rfl
        · exact hok.sized c hc
      · show w.registry.budget + bytes.size = bytes.size + weight Face.reserved w.faces
        rw [hok.budget, add_comm]
    · have hback : releaseBytes (w.registry.budget + bytes.size) bytes.size = w.registry.budget :=
        subWord_add _ _
      refine (Ends.modify (Q := fun _ w' => w' = w) ?_).bind ?_
      · rw [hback]
      rintro _ w₂ rfl
      exact hsame _ _

theorem modifyFaceSlot_run (w : World n) (j : Fin faceSlots) (f : FaceSlot → FaceSlot) :
    modifyFaceSlot j f w = (.ok (), w.withFaceSlot j (f (w.registry.slots j))) := rfl

theorem noRefs_add (id : Nat) : one id = fun x => noRefs x + one id x :=
  funext fun _ => (zero_add _).symm

theorem FacesOk.exists_face (hok : FacesOk w mine) {j : Fin faceSlots}
    (hj : (w.registry.slots j).face = some id) :
    ∃ c ∈ w.faces, c.id = id := by
  refine hok.counts.all id fun hzero => ?_
  have hterm : (if (w.registry.slots j).face = some id then 1 else 0) ≤
      ∑ k, if (w.registry.slots k).face = some id then 1 else 0 :=
    Finset.single_le_sum (f := fun k => if (w.registry.slots k).face = some id then 1 else 0)
      (fun _ _ => Nat.zero_le _) (Finset.mem_univ j)
  rw [if_pos hj] at hterm
  unfold World.refs at hzero
  omega

theorem refs_congr {w' : World n} (hslots : w'.registry.slots = w.registry.slots)
    (hheld : w'.held = w.held) :
    w'.refs = w.refs := by
  unfold World.refs
  rw [hslots, hheld]

theorem FacesOk.refs_next (hok : FacesOk w mine) : w.refs w.nextFace = 0 := by
  by_contra hne
  obtain ⟨c, hc, hid⟩ := hok.counts.all w.nextFace fun hzero =>
    hne (Nat.eq_zero_of_add_eq_zero_right hzero)
  exact absurd (hok.fresh c hc) (hid ▸ lt_irrefl _)

/-- The face is in a slot that was free, or nothing has changed. -/
def Published (w : World n) (bytes : Bytes) (r : Except KernelError Nat) (w' : World n) : Prop :=
  (∃ e, r = .error e ∧ OldFaces w w' ∧ w'.registry.slots = w.registry.slots) ∨
    (validate bytes = .ok () ∧ ∃ j, r = .ok (handleOf slotCodes (w.registry.slots j).generation j) ∧
      (w.registry.slots j).face = none ∧ (w.registry.slots j).generation ≠ 0 ∧
      w'.registry.slots = update w.registry.slots j
        { w.registry.slots j with face := some w.nextFace } ∧
      ∀ c ∈ w'.faces, (c.id = w.nextFace ∧ c.value.bytes = bytes) ∨
        ∃ d ∈ w.faces, d.id = c.id ∧ d.value = c.value)

/-- A face that finds no slot in the registry is dropped again. -/
theorem publish_ends (bytes : Bytes) (room : Bool) (hok : FacesOk w noRefs) :
    Ends (publish bytes room) w E fun r w' =>
      FacesOk w' noRefs ∧ SameTables w w' ∧ w'.held = w.held ∧ w.nextFace ≤ w'.nextFace ∧
        Published w bytes r.1 w' := by
  apply (createFace_ends bytes room hok).bind
  rintro ⟨face, validationError⟩ w₁ ⟨hsame, hheld, hslots, hnext, hcreated⟩
  rcases hcreated with ⟨e, hface, hok₁, hold⟩ | ⟨hface, hvalid, hok₁, hfaces⟩
  · subst hface
    exact Ends.pure ⟨hok₁, hsame, hheld, hnext, .inl ⟨e, rfl, hold, hslots⟩⟩
  subst hface
  apply Ends.get_bind
  have hmem : (⟨w.nextFace, 1, ⟨bytes, bytes.size⟩⟩ : Counted Face) ∈ w₁.faces := by
    rw [hfaces]
    exact .head _
  cases hfree : w₁.registry.freeSlot with
  | none =>
    -- No slot is free: the only reference goes, and the face with it.
    rw [noRefs_add] at hok₁
    apply (dropFace_ends hok₁).bind
    rintro _ w₂ ⟨hok₂, hsame₂, hold₂, hslots₂, hheld₂, hnext₂⟩
    refine Ends.pure ⟨hok₂, hsame.trans hsame₂, hheld₂.trans hheld, hnext₂ ▸ hnext,
      .inl ⟨_, rfl, fun c hc => ?_, hslots₂.trans hslots⟩⟩
    obtain ⟨d, hd, hid, hvalue⟩ := hold₂ c hc
    rw [hfaces] at hd
    rcases List.mem_cons.1 hd with rfl | hd
    · -- Nothing refers to the new face any more.
      have hpos := hok₂.counts.pos c hc
      have hcount := hok₂.counts.exact c hc
      rw [refs_congr (hslots₂.trans hslots) (hheld₂.trans hheld), ← hid, hok.refs_next] at hcount
      have hzero : c.count = 0 := hcount
      omega
    · exact ⟨d, hd, hid, hvalue⟩
  | some j =>
    have hfound := List.find?_some hfree
    rw [Bool.and_eq_true, Option.isNone_iff_eq_none, bne_iff_ne, hslots] at hfound
    obtain ⟨hnone, hgen⟩ := hfound
    apply (retainFace_ends hok₁ ⟨_, hmem, rfl⟩).bind
    rintro _ w₂ ⟨hok₂, hsame₂, hold₂, hregistry₂, hheld₂, hnext₂⟩
    have hslots₂ : w₂.registry.slots = w.registry.slots := by rw [hregistry₂, hslots]
    apply Ends.bind_run (modifyFaceSlot_run w₂ j _)
    rw [hslots₂, hslots]
    have hok₃ : FacesOk (w₂.withFaceSlot j { w.registry.slots j with face := some w.nextFace })
        (fun x => noRefs x + one w.nextFace x) := by
      refine hok₂.withFaceSlot (fun x => ?_) ?_ fun _ => hgen
      · have hzero : (w₂.registry.slots j).refs x = 0 := by
          unfold FaceSlot.refs
          rw [hslots₂, hnone]
          exact if_neg (by simp)
        show (if some w.nextFace = some x then 1 else 0) + (0 + one w.nextFace x) = _
        unfold one
        simp only [Option.some.injEq, eq_comm]
        omega
      · have hle := hok.generations j
        exact hle
    -- The registry holds a reference now; that of the routine goes.
    apply (dropFace_ends hok₃).bind
    rintro _ w₃ ⟨hok₄, hsame₃, hold₃, hslots₃, hheld₃, hnext₃⟩
    have hslots' : w₃.registry.slots = update w.registry.slots j
        { w.registry.slots j with face := some w.nextFace } := by
      rw [hslots₃]
      show update w₂.registry.slots j _ = _
      rw [hslots₂]
    refine Ends.pure ⟨hok₄, hsame.trans (hsame₂.trans hsame₃),
      hheld₃.trans (hheld₂.trans hheld), ?_,
      .inr ⟨hvalid, j, rfl, hnone, hgen, hslots', fun c hc => ?_⟩⟩
    · rw [hnext₃]
      exact hnext₂ ▸ hnext
    · obtain ⟨d, hd, hid, hvalue⟩ := hold₃ c hc
      obtain ⟨e, he, hid', hvalue'⟩ := hold₂ d hd
      rw [hfaces] at he
      rcases List.mem_cons.1 he with rfl | he
      · exact .inl ⟨(hid'.trans hid).symm, by rw [← hvalue, ← hvalue']⟩
      · exact .inr ⟨e, he, hid'.trans hid, hvalue'.trans hvalue⟩

theorem FacesOk.withHeld {mine' : Nat → Nat} {held : List Nat} (hok : FacesOk w mine)
    (hrefs : ∀ x, held.count x + mine' x = w.held.count x + mine x) :
    FacesOk { w with held } mine' where
  counts := by
    have hsame : (fun x => World.refs { w with held } x + mine' x) =
        fun x => w.refs x + mine x := by
      funext x
      have hx := hrefs x
      unfold World.refs
      dsimp only
      omega
    rw [hsame]
    exact hok.counts
  fresh := hok.fresh
  sized := hok.sized
  budget := hok.budget
  small := hok.small
  generations := hok.generations
  live := hok.live

theorem count_cons_one (l : List Nat) (id x : Nat) : (id :: l).count x = l.count x + one id x := by
  unfold one
  by_cases hx : x = id
  · rw [hx, List.count_cons_self, if_pos rfl]
  · rw [List.count_cons_of_ne (Ne.symm hx), if_neg hx, add_zero]

/-- The references of others to one face change; everything else stays. -/
def HeldOnly (w w' : World n) : Prop :=
  FacesOk w' noRefs ∧ SameTables w w' ∧ OldFaces w w' ∧ w'.registry.slots = w.registry.slots ∧
    w'.nextFace = w.nextFace

theorem hold_ends (hok : FacesOk w noRefs) (hlive : ∃ c ∈ w.faces, c.id = id) :
    Ends (hold id) w E fun _ w' => HeldOnly w w' := by
  apply (retainFace_ends hok hlive).bind
  rintro _ w₁ ⟨hok₁, hsame, hold, hregistry, -, hnext⟩
  refine Ends.modify ⟨hok₁.withHeld fun x => ?_, hsame, hold,
    congrArg FaceRegistry.slots hregistry, hnext⟩
  rw [count_cons_one, add_assoc, add_comm (one id x)]

theorem unhold_ends (hok : FacesOk w noRefs) (hheld : id ∈ w.held) :
    Ends (unhold id) w E fun _ w' => HeldOnly w w' := by
  have hok₁ : FacesOk { w with held := w.held.erase id } (fun x => noRefs x + one id x) := by
    refine hok.withHeld fun x => ?_
    have hcount := count_cons_one (w.held.erase id) id x
    rw [← (List.perm_cons_erase hheld).count_eq] at hcount
    rw [hcount, add_comm (noRefs x), add_assoc]
  refine Ends.bind_run (rfl : Prog.modify _ w = _) ((dropFace_ends hok₁).mono ?_)
  rintro _ w₁ ⟨hok₂, hsame, hold, hslots, -, hnext⟩
  exact ⟨hok₂, hsame, hold, hslots, hnext⟩

theorem acquire_ends (handle : Nat) (hok : FacesOk w noRefs) :
    Ends (acquire handle) w E fun _ w' => HeldOnly w w' := by
  apply Ends.get_bind
  cases hface : (w.registry.lookup handle).bind fun j => (w.registry.slots j).face with
  | none => exact Ends.pure ⟨hok, ⟨rfl, rfl⟩, .refl w, rfl, rfl⟩
  | some id =>
    obtain ⟨j, -, hj⟩ := Option.bind_eq_some_iff.1 hface
    exact (hold_ends hok (hok.exists_face hj)).bind fun _ _ h => Ends.pure h

/-- A slot of the registry that is given up. -/
def FaceSlot.closed (s : FaceSlot) : FaceSlot := ⟨nextGeneration maxGeneration s.generation, none⟩

theorem nextGeneration_le {last g : Nat} (h : g ≤ last) : nextGeneration last g ≤ last := by
  unfold nextGeneration
  split <;> omega

/-- The handle did not resolve, or its slot is given up now. -/
def Closed (w : World n) (handle : Nat) (r : Except KernelError Unit) (w' : World n) : Prop :=
  (w.registry.lookup handle = none ∧ r = .error .invalidHandle ∧
    w'.registry.slots = w.registry.slots) ∨
    ∃ j, w.registry.lookup handle = some j ∧ r = .ok () ∧
      w'.registry.slots = update w.registry.slots j (w.registry.slots j).closed

theorem closeFace_ends (handle : Nat) (hok : FacesOk w noRefs) :
      Ends (closeFace handle) w E fun r w' =>
    FacesOk w' noRefs ∧ SameTables w w' ∧ OldFaces w w' ∧ w'.held = w.held ∧
      w'.nextFace = w.nextFace ∧ Closed w handle r w' := by
  apply Ends.get_bind
  cases hlookup : w.registry.lookup handle with
  | none => exact Ends.pure ⟨hok, ⟨rfl, rfl⟩, .refl w, rfl, rfl, .inl ⟨hlookup, rfl, rfl⟩⟩
  | some j =>
    apply Ends.bind_run (modifyFaceSlot_run w j _)
    cases hface : (w.registry.slots j).face with
    | none =>
      have hclosed : FacesOk (w.withFaceSlot j (w.registry.slots j).closed) noRefs := by
        refine hok.withFaceSlot (fun x => ?_) (nextGeneration_le (hok.generations j))
          fun h => absurd rfl h
        unfold FaceSlot.refs FaceSlot.closed
        rw [hface]
      exact Ends.pure ⟨hclosed, ⟨rfl, rfl⟩, .refl w, rfl, rfl, .inr ⟨j, hlookup, rfl, rfl⟩⟩
    | some id =>
      have hclosed : FacesOk (w.withFaceSlot j (w.registry.slots j).closed)
          (fun x => noRefs x + one id x) := by
        refine hok.withFaceSlot (fun x => ?_) (nextGeneration_le (hok.generations j))
          fun h => absurd rfl h
        unfold FaceSlot.refs FaceSlot.closed
        rw [hface]
        show (if none = some x then 1 else 0) + (0 + one id x) =
          (if some id = some x then 1 else 0) + 0
        unfold one
        simp only [eq_comm]
        simp
      apply (dropFace_ends hclosed).bind
      rintro _ w₁ ⟨hok₁, hsame, hold, hslots, hheld, hnext⟩
      exact Ends.pure ⟨hok₁, hsame, hold, hheld, hnext, .inr ⟨j, hlookup, rfl, hslots⟩⟩

end

end UnDOS.Font
