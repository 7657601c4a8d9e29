import UnDOS.Memory.Effects

/-!
# Page Table Walks

What mapping and unmapping one page does to the walk of every other page, under every
root.

`Extends m m'`: every page that was mapped in `m` is mapped to the same frame in `m'`.

The windows above slot 1022 show the tables themselves and are left out.
-/

namespace UnDOS.Memory

open UnDOS.Lib
open UnDOS.Lib.Prog (Within IsEffect)

/-! ## Walks and halves -/

theorem pageOf_add_mul {start : Nat} (i : Nat) :
    pageOf (start + i * pageSize) = pageOf start + i := by
  unfold pageOf pageSize
  omega

variable {m m' : Machine} {root page pd root' pd' phys virt : Nat} {t : PageTables}

theorem walk_eq_lookup (h : pdIndex page < tempPdSlot) :
    m.walk root page = (m.half root (pdIndex page)).lookup page := by
  unfold Machine.walk tempPdSlot recursiveSlot at *
  rw [if_neg (by omega), if_neg (by omega)]

/-- Two directory slots of two roots lie in the same half. -/
def SameHalf (root pd root' pd' : Nat) : Prop :=
  (pd < kernelSplit ∧ pd' < kernelSplit ∧ root = root') ∨ (¬pd < kernelSplit ∧ ¬pd' < kernelSplit)

theorem half_setHalf_same (t : PageTables)
    (h : SameHalf root pd root' pd') : (m.setHalf root pd t).half root' pd' = t := by
  unfold Machine.setHalf Machine.half
  rcases h with ⟨h₁, h₂, rfl⟩ | ⟨h₁, h₂⟩
  · simp [h₁, h₂]
  · simp [h₁, h₂]

theorem half_setHalf_other (t : PageTables) (h : ¬SameHalf root pd root' pd') :
    (m.setHalf root pd t).half root' pd' = m.half root' pd' := by
  unfold Machine.setHalf Machine.half
  by_cases h₁ : pd < kernelSplit
  · by_cases h₂ : pd' < kernelSplit
    · have hne : root' ≠ root := fun heq => h (.inl ⟨h₁, h₂, heq.symm⟩)
      simp [h₁, hne]
    · simp [h₁, h₂]
  · have h₂ : pd' < kernelSplit := by
      by_contra hnot
      exact h (.inr ⟨h₁, hnot⟩)
    simp [h₁, h₂]

theorem half_congr (h : SameHalf root pd root' pd') : m.half root' pd' = m.half root pd := by
  unfold Machine.half
  rcases h with ⟨h₁, h₂, rfl⟩ | ⟨h₁, h₂⟩
  · simp [h₁, h₂]
  · simp [h₁, h₂]

@[simp] theorem setHalf_current (m : Machine) (root pd : Nat) (t : PageTables) :
    (m.setHalf root pd t).current = m.current := by
  unfold Machine.setHalf
  split <;> rfl

@[simp] theorem setHalf_used (m : Machine) (root pd : Nat) (t : PageTables) :
    (m.setHalf root pd t).used = m.used := by
  unfold Machine.setHalf
  split <;> rfl

@[simp] theorem setHalf_stores (m : Machine) (root pd : Nat) (t : PageTables) :
    (m.setHalf root pd t).stores = m.stores := by
  unfold Machine.setHalf
  split <;> rfl

theorem walk_setHalf (hpage : pdIndex page < tempPdSlot)
    (h : SameHalf root pd root' (pdIndex page) → t.lookup page = (m.half root pd).lookup page) :
    (m.setHalf root pd t).walk root' page = m.walk root' page := by
  rw [walk_eq_lookup hpage, walk_eq_lookup hpage]
  by_cases hs : SameHalf root pd root' (pdIndex page)
  · rw [half_setHalf_same t hs, half_congr hs, h hs]
  · rw [half_setHalf_other t hs]

theorem walk_used (m : Machine) (u : Nat → Bool) (root page : Nat) :
    ({ m with used := u } : Machine).walk root page = m.walk root page := rfl

/-! ## Tables and entries -/

theorem lookup_newTable (h : t.tables pd = none) :
    (t.newTable pd phys).lookup page = t.lookup page := by
  unfold PageTables.lookup PageTables.newTable
  by_cases hpd : pdIndex page = pd
  · simp [hpd, h]
  · simp [hpd]

theorem lookup_setEntry_self {e : Option Pte}
    (h : t.tables (pdIndex page) ≠ none) : (t.setEntry page e).lookup page = e := by
  unfold PageTables.lookup PageTables.setEntry
  split
  · exact absurd ‹_› h
  · simp

theorem lookup_setEntry_of_ne {page' : Nat} {e : Option Pte}
    (h : page' ≠ page) : (t.setEntry page e).lookup page' = t.lookup page' := by
  unfold PageTables.lookup PageTables.setEntry
  simp [h]

theorem tableIsEmpty_entries (h : t.tableIsEmpty pd = true)
    (hpage : pdIndex page = pd) : t.entries page = none := by
  unfold PageTables.tableIsEmpty at h
  rw [List.all_eq_true] at h
  have hi := h (page % 1024) (List.mem_range.2 (Nat.mod_lt _ (by decide)))
  have heq : pd * 1024 + page % 1024 = page := by
    unfold pdIndex at hpage
    omega
  rw [heq] at hi
  simpa using hi

theorem lookup_dropTable (h : t.tableIsEmpty pd = true) :
    (t.dropTable pd).lookup page = t.lookup page := by
  unfold PageTables.lookup PageTables.dropTable
  by_cases hpd : pdIndex page = pd
  · rw [tableIsEmpty_entries h hpd]
    simp only [hpd, if_true]
    split <;> rfl
  · simp [hpd]

/-! ## Mapping -/

/-- Every page that was mapped still is, to the same frame. -/
def Extends (m m' : Machine) : Prop :=
  ∀ root page e, pdIndex page < tempPdSlot → m.walk root page = some e →
    m'.walk root page = some e

theorem extends_isEffect : IsEffect Extends where
  refl := fun _ _ _ _ _ h => h
  trans := fun h₁ h₂ root page e hp h => h₂ root page e hp (h₁ root page e hp h)

theorem extends_of_walk (h : ∀ root page, m'.walk root page = m.walk root page) : Extends m m' := by
  intro root page e _ hw
  rw [h, hw]

/-- What a mapping routine leaves alone besides the walks. -/
structure MapsOnly (m m' : Machine) : Prop where
  walks : Extends m m'
  current : m'.current = m.current
  stores : m'.stores = m.stores
  used : ∀ f, m.used f = true → m'.used f = true

theorem mapsOnly_isEffect : IsEffect MapsOnly where
  refl := fun m => ⟨extends_isEffect.refl m, rfl, rfl, fun _ h => h⟩
  trans := fun h₁ h₂ => ⟨extends_isEffect.trans h₁.walks h₂.walks, h₂.current.trans h₁.current,
    h₂.stores.trans h₁.stores, fun f h => h₂.used f (h₁.used f h)⟩

theorem pmmAllocateFrames_ok {count : Nat} (h : pmmAllocateFrames count m = (.ok phys, m')) :
    MapsOnly m m' ∧ m'.half = m.half := by
  unfold pmmAllocateFrames at h
  split at h
  · cases h
    exact ⟨mapsOnly_isEffect.refl m, rfl⟩
  · cases h
    refine ⟨⟨extends_of_walk fun root page => walk_used m _ root page, rfl, rfl, ?_⟩, rfl⟩
    intro f hf
    simp [hf]

theorem ensureTable_ok {ok : Bool} (h : ensureTable page m = (.ok ok, m')) :
    MapsOnly m m' ∧ (∀ root p, pdIndex p < tempPdSlot → m'.walk root p = m.walk root p) ∧
      (ok = true → (m'.half m'.current (pdIndex page)).tables (pdIndex page) ≠ none) := by
  unfold ensureTable at h
  rw [Prog.get_bind_apply] at h
  rcases ht : (m.half m.current (pdIndex page)).tables (pdIndex page) with _ | t
  · rw [ht] at h
    rw [Prog.bind_eq_ok] at h
    obtain ⟨phys, m₁, hpmm, h⟩ := h
    obtain ⟨halloc, hhalf⟩ := pmmAllocateFrames_ok hpmm
    have hwalk₁ : ∀ root p, pdIndex p < tempPdSlot → m₁.walk root p = m.walk root p := by
      intro root p hp
      rw [walk_eq_lookup hp, walk_eq_lookup hp, hhalf]
    split at h
    · obtain ⟨hok, rfl⟩ := Prod.mk.inj h
      obtain rfl := Outcome.ok.inj hok
      exact ⟨halloc, hwalk₁, by simp⟩
    · cases h
      -- The new table is empty, and there was none before.
      have hempty : (m₁.half m₁.current (pdIndex page)).tables (pdIndex page) = none := by
        rw [hhalf, halloc.current, ht]
      have hwalk : ∀ root p, pdIndex p < tempPdSlot →
          (m₁.setHalf m₁.current (pdIndex page)
            ((m₁.half m₁.current (pdIndex page)).newTable (pdIndex page) phys)).walk root p =
          m₁.walk root p := by
        intro root p hp
        exact walk_setHalf hp fun _ => lookup_newTable hempty
      refine ⟨mapsOnly_isEffect.trans halloc ⟨?_, by simp, by simp, fun f hf => by simpa using hf⟩,
        fun root p hp => (hwalk root p hp).trans (hwalk₁ root p hp), fun _ => ?_⟩
      · intro root p e hp hw
        rw [hwalk root p hp, hw]
      · rw [setHalf_current, half_setHalf_same _ (by unfold SameHalf; tauto)]
        simp [PageTables.newTable]
  · rw [ht] at h
    cases h
    exact ⟨mapsOnly_isEffect.refl m, fun _ _ _ => rfl, fun _ => by rw [ht]; simp⟩

/-- `HAL_VMM_MapPage` only extends the walks.  When it answers `true` the page was not
mapped before and is mapped to the frame now. -/
theorem vmmMapPage_ok {flags : ProtectFlags} {ok : Bool}
    (h : vmmMapPage virt phys flags m = (.ok ok, m')) :
    MapsOnly m m' ∧ pdIndex (pageOf virt) < tempPdSlot ∧
      (ok = true → m.walk m.current (pageOf virt) = none ∧
        m'.walk m.current (pageOf virt) = some (Pte.setFrame phys flags)) := by
  unfold vmmMapPage at h
  split at h
  · simp at h
  rename_i hpd
  have hpage : pdIndex (pageOf virt) < tempPdSlot := not_le.1 hpd
  obtain ⟨hasTable, m₁, htable, h⟩ := Prog.bind_eq_ok.1 h
  obtain ⟨hmaps, hwalk₁, hsome⟩ := ensureTable_ok htable
  cases hasTable with
  | false =>
    obtain ⟨hok, rfl⟩ := Prod.mk.inj h
    obtain rfl := Outcome.ok.inj hok
    exact ⟨hmaps, hpage, by simp⟩
  | true =>
    replace hsome := hsome rfl
    simp only [Bool.not_true, Bool.false_eq_true, if_false] at h
    rw [Prog.get_bind_apply] at h
    rcases he : (m₁.half m₁.current (pdIndex (pageOf virt))).entries (pageOf virt) with _ | e
    · rw [he] at h
      cases h
      have hlookup : (m₁.half m₁.current (pdIndex (pageOf virt))).lookup (pageOf virt) = none := by
        unfold PageTables.lookup
        split
        · rfl
        · exact he
      have hcur : m₁.current = m.current := hmaps.current
      refine ⟨mapsOnly_isEffect.trans hmaps
        ⟨?_, by simp, by simp, fun f hf => by simpa using hf⟩, hpage, fun _ => ⟨?_, ?_⟩⟩
      · -- Another page keeps its entry; the page itself had none.
        intro root p e hp hw
        rw [walk_setHalf hp, hw]
        intro hs
        by_cases hne : p = pageOf virt
        · subst hne
          rw [walk_eq_lookup hp, half_congr hs, hlookup] at hw
          simp at hw
        · exact lookup_setEntry_of_ne hne
      · rw [← hwalk₁ _ _ hpage, ← hcur, walk_eq_lookup hpage, hlookup]
      · rw [walk_eq_lookup hpage, half_setHalf_same _ (by unfold SameHalf; tauto)]
        exact lookup_setEntry_self hsome
    · rw [he] at h
      obtain ⟨hok, rfl⟩ := Prod.mk.inj h
      obtain rfl := Outcome.ok.inj hok
      exact ⟨hmaps, hpage, by simp⟩

theorem memsetPage_ok (h : memsetPage virt m = (.ok (), m')) :
    ∃ e, m.walk m.current (pageOf virt) = some e ∧
      m' = { m with stores := .zeros e.frame pageSize :: m.stores } := by
  unfold memsetPage at h
  rw [Prog.get_bind_apply] at h
  rcases hw : m.walk m.current (pageOf virt) with _ | e
  · rw [hw] at h
    simp at h
  · rw [hw] at h
    cases h
    exact ⟨e, rfl, rfl⟩

/-! ## Unmapping -/

theorem vmmUnmapPage_ok (h : vmmUnmapPage virt m = (.ok (), m')) :
    m'.current = m.current ∧ m'.stores = m.stores ∧ ∀ root page, pdIndex page < tempPdSlot →
        ¬(page = pageOf virt ∧ SameHalf m.current (pdIndex page) root (pdIndex page)) →
        m'.walk root page = m.walk root page := by
  unfold vmmUnmapPage at h
  split at h
  · simp at h
  rw [Prog.get_bind_apply] at h
  rcases ht : (m.half m.current (pdIndex (pageOf virt))).tables (pdIndex (pageOf virt)) with _ | t
  · rw [ht] at h
    cases h
    exact ⟨rfl, rfl, fun _ _ _ _ => rfl⟩
  · rw [ht] at h
    dsimp only at h
    rw [Prog.modify_bind_apply] at h
    generalize hm₁ : m.setHalf m.current (pdIndex (pageOf virt))
      ((m.half m.current (pdIndex (pageOf virt))).setEntry (pageOf virt) none) = m₁ at h
    have hcur : m₁.current = m.current := by rw [← hm₁, setHalf_current]
    have hstores : m₁.stores = m.stores := by rw [← hm₁, setHalf_stores]
    have hwalk : ∀ root page, pdIndex page < tempPdSlot →
        ¬(page = pageOf virt ∧ SameHalf m.current (pdIndex page) root (pdIndex page)) →
        m₁.walk root page = m.walk root page := by
      intro root page hp hother
      rw [← hm₁]
      apply walk_setHalf hp
      intro hs
      apply lookup_setEntry_of_ne
      rintro rfl
      exact hother ⟨rfl, hs⟩
    -- Giving an empty table back changes no walk.
    unfold reclaimTable at h
    rw [Prog.get_bind_apply] at h
    rcases ht₁ : (m₁.half m₁.current (pdIndex (pageOf virt))).tables
      (pdIndex (pageOf virt)) with _ | t₁
    · rw [ht₁] at h
      cases h
      exact ⟨hcur, hstores, hwalk⟩
    · rw [ht₁] at h
      dsimp only at h
      split at h
      · rename_i hcond
        cases h
        refine ⟨by simpa using hcur, by simpa using hstores, ?_⟩
        intro root page hp hother
        rw [walk_used, walk_setHalf hp fun _ => lookup_dropTable hcond.1]
        exact hwalk root page hp hother
      · cases h
        exact ⟨hcur, hstores, hwalk⟩

end UnDOS.Memory
