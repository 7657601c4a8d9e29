import UnDOS.Font.Faces

/-!
# Upload Slots and Their Budgets

The invariant of the tables (`UploadsOk`): a table has taken what its slots have reserved, the
budget of the uploads covers exactly the slots that are not committed, and every committed slot has
a slot of the registry for itself.
-/

namespace UnDOS.Font

open UnDOS.Lib UnDOS.Kernel
open UnDOS.Lib.Prog (Ends)
open Function (update update_idem update_of_ne update_self)

variable {n : Nat}

/-! ## The invariant -/

/-- What a slot has of the budget of the uploads. -/
def Slot.charge (s : Slot) : Nat := if s.budget = true then s.reserved else 0

structure SlotOk (s : Slot) : Prop where
  generation : s.generation ≤ maxGeneration
  live : s.used = true → s.generation ≠ 0
  budget : s.budget = (s.used && !s.committed)
  registry : s.registry = (s.used && s.committed)
  unused : s.used = false → s.reserved = 0
  uploading : s.budget = true → s.data.size = s.reserved ∧ s.written ≤ s.reserved

/-- What all uploads have of their budget. -/
def charges (tables : Fin n → Table) : Nat := ∑ p, ∑ i, ((tables p).slots i).charge

structure UploadsOk (w : World n) : Prop where
  slots : ∀ p i, SlotOk ((w.tables p).slots i)
  bytes : ∀ p, (w.tables p).bytes = ∑ i, ((w.tables p).slots i).reserved
  bytesSmall : ∀ p, (w.tables p).bytes ≤ maxProcessBytes
  budget : w.budget = charges w.tables
  budgetSmall : w.budget ≤ maxRegisteredBytes
  linked : ∀ p i, ((w.tables p).slots i).registry = true →
    w.registry.lookup ((w.tables p).slots i).faceHandle ≠ none
  distinct : ∀ p i q k, ((w.tables p).slots i).registry = true →
    ((w.tables q).slots k).registry = true →
    w.registry.lookup ((w.tables p).slots i).faceHandle =
      w.registry.lookup ((w.tables q).slots k).faceHandle → p = q ∧ i = k

/-! ## Lookups -/

variable {handle : Nat} {r r' : FaceRegistry}

theorem Table.lookup_eq_some_iff {t : Table} {i : Fin resourceSlots} :
    t.lookup handle = some i ↔ (t.slots i).used = true ∧ (t.slots i).generation ≠ 0 ∧
      handle = handleOf slotCodes (t.slots i).generation i := resolve_eq_some_iff (by decide)

theorem FaceRegistry.lookup_eq_some_iff {j : Fin faceSlots} :
    r.lookup handle = some j ↔ (r.slots j).face.isSome = true ∧ (r.slots j).generation ≠ 0 ∧
      handle = handleOf slotCodes (r.slots j).generation j := resolve_eq_some_iff (by decide)

theorem Table.lookup_dead {t t' : Table} {i : Fin resourceSlots} (h : t.lookup handle = some i)
    (hdead : (t'.slots i).used = false ∨ (t'.slots i).generation ≠ (t.slots i).generation) :
    t'.lookup handle = none := by
  by_contra hsome
  obtain ⟨k, hk⟩ := Option.ne_none_iff_exists'.1 hsome
  obtain ⟨-, -, hhandle⟩ := lookup_eq_some_iff.1 h
  obtain ⟨hused, -, hhandle'⟩ := lookup_eq_some_iff.1 hk
  have hslots : resourceSlots + 1 < slotCodes := by decide
  obtain ⟨hgen, hik⟩ := handleOf_inj (by omega) (by omega) (hhandle.symm.trans hhandle')
  obtain rfl : i = k := Fin.ext hik
  rcases hdead with hunused | hother
  · rw [hunused] at hused
    cases hused
  · exact hother hgen.symm

theorem FaceRegistry.lookup_closed {j : Fin faceSlots}
    (h : r.lookup handle = some j) (hclosed : (r'.slots j).face = none) :
      r'.lookup handle = none := by
  by_contra hsome
  obtain ⟨k, hk⟩ := Option.ne_none_iff_exists'.1 hsome
  obtain ⟨-, -, hhandle⟩ := lookup_eq_some_iff.1 h
  obtain ⟨hface, -, hhandle'⟩ := lookup_eq_some_iff.1 hk
  have hslots : faceSlots + 1 < slotCodes := by decide
  obtain ⟨-, hjk⟩ := handleOf_inj (by omega) (by omega) (hhandle.symm.trans hhandle')
  obtain rfl : j = k := Fin.ext hjk
  rw [hclosed] at hface
  cases hface

theorem FaceRegistry.lookup_zero (r : FaceRegistry) : r.lookup 0 = none := by
  by_contra hsome
  obtain ⟨k, hk⟩ := Option.ne_none_iff_exists'.1 hsome
  have hzero := (lookup_eq_some_iff.1 hk).2.2
  unfold handleOf at hzero
  omega

theorem FaceRegistry.lookup_congr {j : Fin faceSlots}
    (h : r.lookup handle = some j) (hsame : r'.slots j = r.slots j) :
      r'.lookup handle = some j := by
  rw [lookup_eq_some_iff, hsame]
  exact lookup_eq_some_iff.1 h

theorem FaceRegistry.lookup_slots (hslots : r'.slots = r.slots) : r'.lookup = r.lookup := by
  unfold lookup
  rw [hslots]

/-! ## Another slot -/

/-- The tables with another slot, and another number of bytes for its table. -/
def withSlot (tables : Fin n → Table) (p : Fin n) (i : Fin resourceSlots) (s : Slot) (bytes : Nat) :
    Fin n → Table :=
  update tables p { slots := update (tables p).slots i s, bytes }

section

variable {tables : Fin n → Table} {p q : Fin n} {i k : Fin resourceSlots} {s : Slot} {bytes : Nat}

@[simp] theorem withSlot_self : (withSlot tables p i s bytes p).slots i = s := by
  unfold withSlot
  rw [update_self]
  exact update_self _ _ _

theorem withSlot_of_ne (h : ¬(q = p ∧ k = i)) :
    (withSlot tables p i s bytes q).slots k = (tables q).slots k := by
  unfold withSlot
  by_cases hq : q = p
  · subst hq
    rw [update_self]
    exact update_of_ne (fun hk => h ⟨rfl, hk⟩) _ _
  · rw [update_of_ne hq]

theorem withSlot_bytes : (withSlot tables p i s bytes q).bytes = if q = p then bytes
    else (tables q).bytes := by
  unfold withSlot
  by_cases hq : q = p
  · rw [hq, update_self, if_pos rfl]
  · rw [update_of_ne hq, if_neg hq]

theorem withSlot_forall {P : Fin n → Fin resourceSlots → Slot → Prop} (hnew : P p i s)
    (hold : ∀ q k, ¬(q = p ∧ k = i) → P q k ((tables q).slots k)) :
    ∀ q k, P q k ((withSlot tables p i s bytes q).slots k) := by
  intro q k
  by_cases h : q = p ∧ k = i
  · obtain ⟨rfl, rfl⟩ := h
    rw [withSlot_self]
    exact hnew
  · rw [withSlot_of_ne h]
    exact hold q k h

theorem reserved_withSlot (tables : Fin n → Table) (p : Fin n) (i : Fin resourceSlots) (s : Slot)
    (bytes : Nat) : (∑ k, ((withSlot tables p i s bytes p).slots k).reserved) +
    ((tables p).slots i).reserved = (∑ k, ((tables p).slots k).reserved) + s.reserved := by
  unfold withSlot
  rw [update_self]
  exact sum_update (tables p).slots Slot.reserved i s

theorem charges_withSlot (tables : Fin n → Table) (p : Fin n) (i : Fin resourceSlots) (s : Slot)
    (bytes : Nat) : charges (withSlot tables p i s bytes) + ((tables p).slots i).charge =
    charges tables + s.charge := by
  have houter := sum_update tables (fun t : Table => ∑ k, (t.slots k).charge) p
    { slots := update (tables p).slots i s, bytes }
  have hinner := sum_update (tables p).slots Slot.charge i s
  dsimp only at houter hinner
  unfold charges withSlot
  omega

end

section

variable {w : World n} {E : Unit → Prop} {p : Fin n} {i : Fin resourceSlots}

theorem modifySlot_run (w : World n) (p : Fin n) (i : Fin resourceSlots) (f : Slot → Slot) :
    modifySlot p i f w = (.ok (), { w with
      tables := withSlot w.tables p i (f ((w.tables p).slots i)) (w.tables p).bytes }) := rfl

/-- One slot changes, and what belongs to it in the sums and in the registry. -/
theorem UploadsOk.change {w' : World n} {s : Slot} {bytes : Nat} (hok : UploadsOk w)
    (htables : w'.tables = withSlot w.tables p i s bytes) (hs : SlotOk s)
    (hbytes : bytes + ((w.tables p).slots i).reserved = (w.tables p).bytes + s.reserved)
    (hbytesSmall : bytes ≤ maxProcessBytes)
    (hbudget : w'.budget + ((w.tables p).slots i).charge = w.budget + s.charge)
    (hbudgetSmall : w'.budget ≤ maxRegisteredBytes)
    (hothers : ∀ q k, ¬(q = p ∧ k = i) → ((w.tables q).slots k).registry = true →
      w'.registry.lookup ((w.tables q).slots k).faceHandle =
        w.registry.lookup ((w.tables q).slots k).faceHandle)
    (hown : s.registry = true → w'.registry.lookup s.faceHandle ≠ none ∧
      ∀ q k, ¬(q = p ∧ k = i) → ((w.tables q).slots k).registry = true →
        w'.registry.lookup ((w.tables q).slots k).faceHandle ≠ w'.registry.lookup s.faceHandle) :
    UploadsOk w' where
  slots := by
    rw [htables]
    exact withSlot_forall (P := fun _ _ s => SlotOk s) hs fun q k _ => hok.slots q k
  bytes q := by
    rw [htables, withSlot_bytes]
    by_cases hq : q = p
    · subst hq
      rw [if_pos rfl]
      have hsum := reserved_withSlot w.tables q i s bytes
      have hold := hok.bytes q
      omega
    · rw [if_neg hq, hok.bytes q]
      refine Finset.sum_congr rfl fun k _ => ?_
      rw [withSlot_of_ne fun h => hq h.1]
  bytesSmall q := by
    rw [htables, withSlot_bytes]
    split
    · exact hbytesSmall
    · exact hok.bytesSmall q
  budget := by
    have hsum := charges_withSlot w.tables p i s bytes
    have hold := hok.budget
    rw [htables]
    omega
  budgetSmall := hbudgetSmall
  linked := by
    rw [htables]
    refine withSlot_forall (P := fun _ _ s => s.registry = true →
      w'.registry.lookup s.faceHandle ≠ none)
      (fun h => (hown h).1) fun q k hne h => ?_
    rw [hothers q k hne h]
    exact hok.linked q k h
  distinct := by
    intro q k q' k' hq hq' hsame
    rw [htables] at hq hq' hsame
    -- The slot that has changed, or one of the others, on either side.
    by_cases h : q = p ∧ k = i <;> by_cases h' : q' = p ∧ k' = i
    · exact ⟨h.1.trans h'.1.symm, h.2.trans h'.2.symm⟩
    · obtain ⟨rfl, rfl⟩ := h
      rw [withSlot_self] at hq hsame
      rw [withSlot_of_ne h'] at hq' hsame
      exact absurd hsame.symm ((hown hq).2 q' k' h' hq')
    · obtain ⟨rfl, rfl⟩ := h'
      rw [withSlot_self] at hq' hsame
      rw [withSlot_of_ne h] at hq hsame
      exact absurd hsame ((hown hq').2 q k h hq)
    · rw [withSlot_of_ne h] at hq hsame
      rw [withSlot_of_ne h'] at hq' hsame
      rw [hothers q k h hq, hothers q' k' h' hq'] at hsame
      exact hok.distinct q k q' k' hq hq' hsame

/-! ## Giving a slot up -/

/-- A slot that is given up. -/
def Slot.released (s : Slot) : Slot := { generation := nextGeneration maxGeneration s.generation }

theorem SlotOk.released {s : Slot} (hs : SlotOk s) : SlotOk s.released where
  generation := nextGeneration_le hs.generation
  live h := by cases h
  budget := rfl
  registry := rfl
  unused _ := rfl
  uploading h := by cases h

theorem SlotOk.charge {s : Slot} (hs : SlotOk s) :
    s.charge = if s.used = true ∧ s.committed = false then s.reserved else 0 := by
  unfold Slot.charge
  rw [hs.budget]
  cases s.used <;> cases s.committed <;> rfl

/-- The slot is given up, and its slot of the registry. -/
structure Released (w : World n) (p : Fin n) (i : Fin resourceSlots) (w' : World n) : Prop where
  tables : w'.tables = withSlot w.tables p i ((w.tables p).slots i).released
    ((w.tables p).bytes - ((w.tables p).slots i).reserved)
  registry : (((w.tables p).slots i).registry = false ∧ w'.registry.slots = w.registry.slots) ∨
    (((w.tables p).slots i).registry = true ∧
      ∃ j, w.registry.lookup ((w.tables p).slots i).faceHandle = some j ∧
        w'.registry.slots = update w.registry.slots j (w.registry.slots j).closed)
  old : OldFaces w w'
  next : w.nextFace ≤ w'.nextFace

theorem FacesOk.withTables {mine : Nat → Nat} (hok : FacesOk w mine) (tables : Fin n → Table)
    (budget : Nat) :
    FacesOk { w with tables, budget } mine :=
  ⟨hok.counts, hok.fresh, hok.sized, hok.budget, hok.small, hok.generations, hok.live⟩

theorem charge_le (tables : Fin n → Table) (p : Fin n) (i : Fin resourceSlots) :
    ((tables p).slots i).charge ≤ charges tables := by
  have hsum := charges_withSlot tables p i {} 0
  have hzero : Slot.charge {} = 0 := rfl
  omega

theorem reserved_le (tables : Fin n → Table) (p : Fin n) (i : Fin resourceSlots) :
    ((tables p).slots i).reserved ≤ ∑ k, ((tables p).slots k).reserved := by
  have hsum := reserved_withSlot tables p i {} 0
  dsimp only at hsum
  omega

theorem subWord_of_le {a b : Nat} (h : b ≤ a) : subWord a b = a - b := if_pos h

theorem releaseCharge_run (hok : UploadsOk w) : releaseCharge ((w.tables p).slots i) w =
      (.ok (), { w with budget := w.budget - ((w.tables p).slots i).charge }) := by
  unfold releaseCharge Slot.charge
  split
  · next hbudget =>
    have hle := charge_le w.tables p i
    unfold Slot.charge at hle
    rw [if_pos hbudget, ← hok.budget] at hle
    rw [Prog.modify_apply, releaseBytes, subWord_of_le hle]
  · rfl

theorem closeSlotFace_ends {slot : Slot} (hfaces : FacesOk w noRefs)
    (hlinked : slot.registry = true → w.registry.lookup slot.faceHandle ≠ none) :
    Ends (closeSlotFace slot) w E fun _ w' => FacesOk w' noRefs ∧ SameTables w w' ∧ OldFaces w w' ∧
      w'.held = w.held ∧ w'.nextFace = w.nextFace ∧
      ((slot.registry = false ∧ w'.registry.slots = w.registry.slots) ∨
        (slot.registry = true ∧ ∃ j, w.registry.lookup slot.faceHandle = some j ∧
          w'.registry.slots = update w.registry.slots j (w.registry.slots j).closed)) := by
  refine Ends.ite (fun hregistry => ?_) fun hregistry => ?_
  · apply (closeFace_ends slot.faceHandle hfaces).bind
    rintro r w' ⟨hfaces', hsame, hold, hheld, hnext, hclosed⟩
    refine Ends.pure ⟨hfaces', hsame, hold, hheld, hnext, .inr ⟨hregistry, ?_⟩⟩
    rcases hclosed with ⟨hnone, -⟩ | ⟨j, hj, -, hslots⟩
    · exact absurd hnone (hlinked hregistry)
    · exact ⟨j, hj, hslots⟩
  · exact Ends.pure ⟨hfaces, ⟨rfl, rfl⟩, .refl w, rfl, rfl,
      .inl ⟨Bool.not_eq_true _ ▸ hregistry, rfl⟩⟩

/-- A slot gives back what it holds: its budget, or its place in the registry. -/
theorem release_ends (hok : UploadsOk w) (hfaces : FacesOk w noRefs) :
    Ends (release p i) w E fun _ w' => UploadsOk w' ∧ FacesOk w' noRefs ∧ Released w p i w' := by
  refine Ends.get_bind (Ends.bind_run (releaseCharge_run hok) ?_)
  have hfaces₀ := hfaces.withTables w.tables (w.budget - ((w.tables p).slots i).charge)
  apply (closeSlotFace_ends hfaces₀ (hok.linked p i)).bind
  rintro _ w₁ ⟨hfaces₁, hsame, hold, hheld, hnext, hregistry⟩
  obtain ⟨htables, hbudget⟩ := hsame
  dsimp only at htables hbudget
  have hreserved := reserved_le w.tables p i
  have hcharge := charge_le w.tables p i
  have hsum := hok.bytes p
  have hbytes := hok.bytesSmall p
  have hcharges := hok.budget
  have hsmall := hok.budgetSmall
  have hword : subWord (w.tables p).bytes ((w.tables p).slots i).reserved =
      (w.tables p).bytes - ((w.tables p).slots i).reserved := subWord_of_le (by omega)
  have hrun : (do
      modifyTable p fun t => { t with bytes := subWord t.bytes ((w.tables p).slots i).reserved }
      modifySlot p i fun s => { generation := nextGeneration maxGeneration s.generation } :
        Op n Unit) w₁ =
      (.ok (), { w₁ with tables := (withSlot w.tables p i ((w.tables p).slots i).released
        ((w.tables p).bytes - ((w.tables p).slots i).reserved)) }) := by
    unfold modifySlot modifyTable
    rw [Prog.modify_bind_apply, Prog.modify_apply]
    dsimp only
    rw [htables, update_self, update_idem, hword]
    rfl
  have hchange : UploadsOk { w₁ with
      tables := (withSlot w.tables p i ((w.tables p).slots i).released
        ((w.tables p).bytes - ((w.tables p).slots i).reserved)) } := by
    refine hok.change rfl (hok.slots p i).released ?_ ?_ ?_ ?_ (fun q k hne hq => ?_)
      fun h => by cases h
    · show _ - _ + _ = _ + 0
      omega
    · omega
    · show w₁.budget + _ = w.budget + 0
      omega
    · show w₁.budget ≤ _
      omega
    · obtain ⟨j', hj'⟩ := Option.ne_none_iff_exists'.1 (hok.linked q k hq)
      rw [hj']
      rcases hregistry with ⟨-, hslots⟩ | ⟨hp, j, hj, hslots⟩
      · exact FaceRegistry.lookup_congr hj' (congrFun hslots j')
      · apply FaceRegistry.lookup_congr hj'
        have hne' : j' ≠ j := by
          rintro rfl
          exact hne (hok.distinct q k p i hq hp (hj'.trans hj.symm))
        exact (congrFun hslots j').trans (update_of_ne hne' _ _)
  exact Ends.of_run hrun ⟨hchange, hfaces₁.withTables _ _, rfl, hregistry, hold, hnext.ge⟩

/-! ## Uploads -/

/-- A slot that an upload has begun in. -/
def Slot.begun (s : Slot) (m : ByteStore) (size : Nat) : Slot :=
  { s with
    data := ⟨m, size⟩, used := true, committed := false, written := 0, reserved := size,
    budget := true }

/-- An upload has begun, or nothing has changed. -/
def Begun (w : World n) (p : Fin n) (r : Except KernelError Nat) (w' : World n) : Prop :=
  (∃ e, r = .error e ∧ w' = w) ∨
    ∃ i m size bytes budget, r = .ok (handleOf slotCodes ((w.tables p).slots i).generation i) ∧
      ((w.tables p).slots i).used = false ∧ ((w.tables p).slots i).generation ≠ 0 ∧
      w' = { w with
        tables := withSlot w.tables p i (((w.tables p).slots i).begun m size) bytes, budget }

theorem beginUpload_ends (size : Nat) (memory : Option ByteStore) (hok : UploadsOk w)
    (hfaces : FacesOk w noRefs) : Ends (beginUpload p size memory) w E fun r w' =>
      UploadsOk w' ∧ FacesOk w' noRefs ∧ Begun w p r w' := by
  have hsame : ∀ e : KernelError, Ends (pure (.error e) : Op n (Except KernelError Nat)) w E
    fun r w' =>
      UploadsOk w' ∧ FacesOk w' noRefs ∧ Begun w p r w' := fun e =>
    Ends.pure ⟨hok, hfaces, .inl ⟨e, rfl, rfl⟩⟩
  refine Ends.ite (fun _ => hsame _) fun _ => Ends.get_bind (Ends.ite (fun _ => hsame _)
    fun hroom => ?_)
  cases hfree : (w.tables p).freeSlot with
  | none => exact hsame _
  | some i =>
    have hfound := List.find?_some hfree
    rw [Bool.and_eq_true, Bool.not_eq_true', bne_iff_ne] at hfound
    obtain ⟨hunused, hgen⟩ := hfound
    -- The budget is taken before the memory, and given back when there is none.
    unfold reserve
    by_cases hfull : maxRegisteredBytes - w.budget < size
    · rw [if_pos hfull]
      exact hsame _
    rw [if_neg hfull]
    apply (Ends.modify (Q := fun _ w' => w' = { w with budget := w.budget + size }) rfl).bind
    rintro _ w₁ rfl
    cases memory with
    | none =>
      refine (Ends.modify (Q := fun _ w' => w' = w) ?_).bind ?_
      · dsimp only
        rw [releaseBytes, subWord_add]
      rintro _ w₂ rfl
      exact hsame _
    | some m =>
      have hs := hok.slots p i
      have hreserved := hs.unused hunused
      have hbytes := hok.bytesSmall p
      have hbudget := hok.budgetSmall
      have hcharge : ((w.tables p).slots i).charge = 0 := by
        rw [hs.charge, if_neg fun h => by rw [hunused] at h; cases h.1]
      have hrun : (do
          modifySlot p i fun s => { s with
            data := ⟨m, size⟩
            used := true
            committed := false
            written := 0
            reserved := size
            budget := true }
          modifyTable p fun t => { t with bytes := t.bytes + size }
          pure (.ok (handleOf slotCodes ((w.tables p).slots i).generation i)) :
            Op n (Except KernelError Nat)) { w with budget := w.budget + size } =
          (.ok (.ok (handleOf slotCodes ((w.tables p).slots i).generation i)), { w with
            tables := (withSlot w.tables p i (((w.tables p).slots i).begun m size)
              ((w.tables p).bytes + size))
            budget := w.budget + size }) := by
        unfold modifySlot modifyTable
        rw [Prog.modify_bind_apply, Prog.modify_bind_apply]
        dsimp only
        rw [update_self, update_idem]
        rfl
      have hbegun : SlotOk (((w.tables p).slots i).begun m size) := by
        refine ⟨hs.generation, fun _ => hgen, rfl, ?_, (fun h => by cases h),
          fun _ => ⟨rfl, Nat.zero_le _⟩⟩
        show ((w.tables p).slots i).registry = false
        rw [hs.registry, hunused]
        rfl
      refine Ends.of_run hrun ⟨?_, hfaces.withTables _ _,
        .inr ⟨i, m, size, _, _, rfl, hunused, hgen, rfl⟩⟩
      refine hok.change rfl hbegun ?_ ?_ ?_ ?_ (fun _ _ _ _ => rfl) fun h => ?_
      · rw [hreserved]
        rfl
      · omega
      · rw [hcharge]
        rfl
      · show w.budget + size ≤ _
        omega
      · rw [hbegun.registry] at h
        cases h

/-- A slot that more bytes were written to. -/
def Slot.appended (s : Slot) (data : List UInt8) : Slot :=
  { s with
    data := ⟨writeAt s.data.data s.written data, s.data.size⟩, written := s.written + data.length }

/-- The bytes were appended to the upload, or nothing has changed. -/
def Appended (w : World n) (p : Fin n) (handle : Nat) (data : Option (List UInt8))
    (r : Except KernelError Unit) (w' : World n) : Prop :=
  (∃ e, r = .error e ∧ w' = w) ∨
    ∃ i bytes l, r = .ok () ∧ data = some l ∧ (w.tables p).lookup handle = some i ∧
      ((w.tables p).slots i).committed = false ∧
      w' = { w with tables := withSlot w.tables p i (((w.tables p).slots i).appended l) bytes }

theorem append_ends (handle offset : Nat) (data : Option (List UInt8)) (hok : UploadsOk w)
    (hfaces : FacesOk w noRefs) : Ends (append p handle offset data) w E fun r w' =>
      UploadsOk w' ∧ FacesOk w' noRefs ∧ Appended w p handle data r w' := by
  have hsame : ∀ e : KernelError, Ends (pure (.error e) : Op n (Except KernelError Unit)) w E
    fun r w' =>
      UploadsOk w' ∧ FacesOk w' noRefs ∧ Appended w p handle data r w' := fun e =>
    Ends.pure ⟨hok, hfaces, .inl ⟨e, rfl, rfl⟩⟩
  cases data with
  | none => exact hsame _
  | some data =>
    refine Ends.ite (fun _ => hsame _) fun _ => Ends.get_bind ?_
    cases hlookup : (w.tables p).lookup handle with
    | none => exact hsame _
    | some i =>
      obtain ⟨hused, hgen, -⟩ := Table.lookup_eq_some_iff.1 hlookup
      refine Ends.ite (fun _ => hsame _) fun hopen => Ends.ite (fun _ => hsame _) fun hfits => ?_
      have hcommitted : ((w.tables p).slots i).committed = false := Bool.not_eq_true _ ▸ hopen
      rw [not_or, not_not] at hfits
      obtain ⟨rfl, hfits⟩ := hfits
      have hs := hok.slots p i
      have hbudget : ((w.tables p).slots i).budget = true := by
        rw [hs.budget, hused, hcommitted]
        rfl
      obtain ⟨hsize, hwritten⟩ := hs.uploading hbudget
      have hnew : SlotOk (((w.tables p).slots i).appended data) := by
        refine ⟨hs.generation, hs.live, hs.budget, hs.registry, hs.unused, fun _ => ⟨hsize, ?_⟩⟩
        show ((w.tables p).slots i).written + data.length ≤ ((w.tables p).slots i).reserved
        omega
      refine Ends.bind_run (modifySlot_run w p i _) (Ends.pure ⟨?_, hfaces.withTables _ _,
        .inr ⟨i, _, data, rfl, rfl, hlookup, hcommitted, rfl⟩⟩)
      refine hok.change rfl hnew rfl (hok.bytesSmall p) rfl hok.budgetSmall (fun _ _ _ _ => rfl)
        fun h => ?_
      have hstill : ((w.tables p).slots i).registry = true := h
      rw [hs.registry, hcommitted, Bool.and_false] at hstill
      cases hstill

/-! ## The end of an upload -/

/-- A slot whose bytes the registry has. -/
def Slot.published (s : Slot) (faceHandle : Nat) : Slot :=
  { s with
    data := Bytes.none
    budget := false
    registry := true
    faceHandle
    generation := s.generation + 1
    committed := true }

/-- The upload has become the face in slot `j` of the registry. -/
structure Taken (w : World n) (p : Fin n) (i : Fin resourceSlots) (j : Fin faceSlots)
    (w' : World n) :
    Prop where
  complete : ((w.tables p).slots i).written = ((w.tables p).slots i).data.size
  notLast : ((w.tables p).slots i).generation ≠ maxGeneration
  tables : w'.tables = withSlot w.tables p i
    (((w.tables p).slots i).published (handleOf slotCodes (w.registry.slots j).generation j))
      (w.tables p).bytes
  free : (w.registry.slots j).face = none
  generation : (w.registry.slots j).generation ≠ 0
  registry : w'.registry.slots = update w.registry.slots j
    { w.registry.slots j with face := some w.nextFace }
  faces : ∀ c ∈ w'.faces, (c.id = w.nextFace ∧ c.value.bytes = ((w.tables p).slots i).data) ∨
    ∃ d ∈ w.faces, d.id = c.id ∧ d.value = c.value
  next : w.nextFace ≤ w'.nextFace

/-- The handle was refused; or the slot was given up; or the upload has become a face. -/
def Committed (w : World n) (p : Fin n) (handle : Nat) (r : Except KernelError Nat)
    (w' : World n) : Prop :=
  (((r = .error .invalidHandle ∧ (w.tables p).lookup handle = none) ∨ r = .error .invalidState) ∧
    w' = w) ∨
    ∃ i, (w.tables p).lookup handle = some i ∧ ((w.tables p).slots i).committed = false ∧
      ((∃ e, r = .error e ∧ Released w p i w') ∨
        ∃ j, r = .ok (handleOf slotCodes (((w.tables p).slots i).generation + 1) i) ∧
          Taken w p i j w')

theorem FaceRegistry.lookup_update {r r' : FaceRegistry} {handle : Nat} {j k : Fin faceSlots}
    {s : FaceSlot}
    (h : r.lookup handle = some k) (hslots : r'.slots = update r.slots j s) (hne : k ≠ j) :
    r'.lookup handle = some k :=
  lookup_congr h (by rw [hslots, update_of_ne hne])

theorem UploadsOk.taken {w' : World n} {j : Fin faceSlots} (hok : UploadsOk w)
    (h : Taken w p i j w')
    (hused : ((w.tables p).slots i).used = true)
    (hbudget : w'.budget + ((w.tables p).slots i).charge = w.budget) : UploadsOk w' := by
  have hs := hok.slots p i
  have hle := hs.generation
  have hnot := h.notLast
  have hsmall := hok.budgetSmall
  -- The slots of the other faces are in use, and the new one was free.
  have hother : ∀ q k, ((w.tables q).slots k).registry = true → ∃ j', j' ≠ j ∧
      w.registry.lookup ((w.tables q).slots k).faceHandle = some j' ∧
      w'.registry.lookup ((w.tables q).slots k).faceHandle = some j' := by
    intro q k hq
    obtain ⟨j', hj'⟩ := Option.ne_none_iff_exists'.1 (hok.linked q k hq)
    have hne : j' ≠ j := by
      rintro rfl
      have hsome := (FaceRegistry.lookup_eq_some_iff.1 hj').1
      rw [h.free] at hsome
      cases hsome
    exact ⟨j', hne, hj', FaceRegistry.lookup_update hj' h.registry hne⟩
  have hown : w'.registry.lookup (handleOf slotCodes (w.registry.slots j).generation j) =
      some j := by
    rw [FaceRegistry.lookup_eq_some_iff, h.registry, update_self]
    exact ⟨rfl, h.generation, rfl⟩
  refine hok.change h.tables ?_ rfl (hok.bytesSmall p) hbudget (by omega) (fun q k _ hq => ?_)
    fun _ => ⟨?_, ?_⟩
  · refine ⟨?_, fun _ => Nat.succ_ne_zero _, ?_, ?_, hs.unused, fun hfalse => by cases hfalse⟩
    · show ((w.tables p).slots i).generation + 1 ≤ maxGeneration
      omega
    · show false = (((w.tables p).slots i).used && !true)
      rw [hused]
      rfl
    · show true = (((w.tables p).slots i).used && true)
      rw [hused]
      rfl
  · obtain ⟨j', -, hthen, hnow⟩ := hother q k hq
    rw [hthen, hnow]
  · show w'.registry.lookup (handleOf slotCodes (w.registry.slots j).generation j) ≠ none
    rw [hown]
    exact fun h => by cases h
  · intro q k _ hq
    obtain ⟨j', hne, -, hnow⟩ := hother q k hq
    show _ ≠ w'.registry.lookup (handleOf slotCodes (w.registry.slots j).generation j)
    rw [hown, hnow]
    exact fun heq => hne (Option.some.inj heq)

theorem Released.refused {w' w'' : World n} (h : Released w' p i w'') (hsame : SameTables w w')
    (hslots : w'.registry.slots = w.registry.slots) (hold : OldFaces w w')
    (hnext : w.nextFace ≤ w'.nextFace) :
    Released w p i w'' where
  tables := by
    have htables := h.tables
    rw [hsame.1] at htables
    exact htables
  registry := by
    have hregistry := h.registry
    rw [hsame.1, hslots, FaceRegistry.lookup_slots hslots] at hregistry
    exact hregistry
  old := hold.trans h.old
  next := hnext.trans h.next

theorem UploadsOk.refused {w' : World n} (hok : UploadsOk w) (hsame : SameTables w w')
    (hslots : w'.registry.slots = w.registry.slots) : UploadsOk w' := by
  obtain ⟨htables, hbudget⟩ := hsame
  have hlookup := FaceRegistry.lookup_slots hslots
  refine ⟨?_, ?_, ?_, ?_, ?_, ?_, ?_⟩
  · rw [htables]
    exact hok.slots
  · rw [htables]
    exact hok.bytes
  · rw [htables]
    exact hok.bytesSmall
  · rw [htables, hbudget]
    exact hok.budget
  · rw [hbudget]
    exact hok.budgetSmall
  · rw [htables, hlookup]
    exact hok.linked
  · rw [htables, hlookup]
    exact hok.distinct

/-- The handle is refused, or the upload given up, or it has become a face. -/
theorem commit_ends (handle : Nat) (room : Bool) (hok : UploadsOk w) (hfaces : FacesOk w noRefs) :
    Ends (commit p handle room) w E fun r w' =>
      UploadsOk w' ∧ FacesOk w' noRefs ∧ Committed w p handle r.1 w' := by
  apply Ends.get_bind
  cases hlookup : (w.tables p).lookup handle with
  | none => exact Ends.pure ⟨hok, hfaces, .inl ⟨.inl ⟨rfl, hlookup⟩, rfl⟩⟩
  | some i =>
    refine Ends.ite (fun _ => Ends.pure ⟨hok, hfaces, .inl ⟨.inr rfl, rfl⟩⟩) fun hopen => ?_
    rw [not_or, Bool.not_eq_true, not_not] at hopen
    obtain ⟨hcommitted, hcomplete⟩ := hopen
    obtain ⟨hused, hgen, -⟩ := Table.lookup_eq_some_iff.1 hlookup
    have hs := hok.slots p i
    refine Ends.ite (fun _ => ?_) fun hlast => ?_
    · apply (release_ends hok hfaces).bind
      rintro _ w₁ ⟨hok₁, hfaces₁, hreleased⟩
      exact Ends.pure ⟨hok₁, hfaces₁, .inr ⟨i, hlookup, hcommitted, .inl ⟨_, rfl, hreleased⟩⟩⟩
    · refine (publish_ends ((w.tables p).slots i).data room hfaces).bind ?_
      rintro ⟨published, validationError⟩ w₁ ⟨hfaces₁, hsame, hheld, hnext, hpublished⟩
      have hpublished' : Published w ((w.tables p).slots i).data published w₁ := hpublished
      rcases hpublished' with ⟨e, rfl, hold, hslots⟩ | ⟨-, j, rfl, hnone, hgen', hslots, hvalues⟩
      · -- The registry has refused the bytes.
        apply (release_ends (hok.refused hsame hslots) hfaces₁).bind
        rintro _ w₂ ⟨hok₂, hfaces₂, hreleased⟩
        exact Ends.pure ⟨hok₂, hfaces₂, .inr ⟨i, hlookup, hcommitted,
          .inl ⟨_, rfl, hreleased.refused hsame hslots hold hnext⟩⟩⟩
      · obtain ⟨htables, hbudget⟩ := hsame
        have hcharge := charge_le w.tables p i
        have hcharges := hok.budget
        have hreserved : ((w.tables p).slots i).charge = ((w.tables p).slots i).reserved := by
          rw [hs.charge, if_pos ⟨hused, hcommitted⟩]
        have hword : releaseBytes w₁.budget ((w.tables p).slots i).reserved =
            w.budget - ((w.tables p).slots i).charge := by
          rw [hbudget, ← hreserved]
          exact subWord_of_le (by omega)
        refine (Ends.modify (Q := fun _ w' => w' = { w₁ with
          budget := w.budget - ((w.tables p).slots i).charge }) (by rw [hword])).bind ?_
        rintro _ w₂ rfl
        apply Ends.bind_run (modifySlot_run _ p i _)
        rw [htables]
        have htaken : ∀ tables, tables = withSlot w.tables p i (((w.tables p).slots i).published
            (handleOf slotCodes (w.registry.slots j).generation j)) (w.tables p).bytes →
            Taken w p i j { w₁ with tables, budget := w.budget - ((w.tables p).slots i).charge } :=
          fun tables heq => ⟨hcomplete, hlast, heq, hnone, hgen', hslots, hvalues, hnext⟩
        have hnow := htaken _ rfl
        refine Ends.pure ⟨hok.taken hnow hused ?_, hfaces₁.withTables _ _,
          .inr ⟨i, hlookup, hcommitted, .inr ⟨j, rfl, hnow⟩⟩⟩
        show w.budget - _ + _ = w.budget
        omega

theorem close_ends (handle : Nat) (hok : UploadsOk w) (hfaces : FacesOk w noRefs) :
    Ends (close p handle) w E fun r w' => UploadsOk w' ∧ FacesOk w' noRefs ∧
      ((r = .error .invalidHandle ∧ w' = w) ∨
        ∃ i, r = .ok () ∧ (w.tables p).lookup handle = some i ∧ Released w p i w') := by
  apply Ends.get_bind
  cases hlookup : (w.tables p).lookup handle with
  | none => exact Ends.pure ⟨hok, hfaces, .inl ⟨rfl, rfl⟩⟩
  | some i =>
    apply (release_ends hok hfaces).bind
    rintro _ w₁ ⟨hok₁, hfaces₁, hreleased⟩
    exact Ends.pure ⟨hok₁, hfaces₁, .inr ⟨i, rfl, rfl, hreleased⟩⟩

end

end UnDOS.Font
