import UnDOS.Memory.Blocks

/-!
# Mapping Loops and Their Rollback

`allocate_memory` and `map_fixed_memory` map page after page and take the pages back when
one of them fails.  Whatever the outcome, the pages that were mapped before the call stay
mapped, and the regions of every address space are untouched: a loop unmaps only pages
that it has mapped itself.
-/

namespace UnDOS.Memory

open UnDOS.Lib
open UnDOS.Lib.Prog (Within IsEffect)
open UnDOS.Kernel (KernelError)

/-! ## Regions are left alone -/

/-- The address spaces are the same. -/
structure SameSpaces (m m' : Machine) : Prop where
  kernel : m'.kernel = m.kernel
  spaces : m'.spaces = m.spaces

theorem sameSpaces_isEffect : IsEffect SameSpaces where
  refl := fun _ => ⟨rfl, rfl⟩
  trans := fun h₁ h₂ => ⟨h₂.kernel.trans h₁.kernel, h₂.spaces.trans h₁.spaces⟩

theorem sameSpaces_setHalf (m : Machine) (root pd : Nat) (t : PageTables) :
    SameSpaces m (m.setHalf root pd t) := by
  unfold Machine.setHalf
  split
  · exact ⟨rfl, rfl⟩
  · exact ⟨rfl, rfl⟩

theorem sameSpaces_shape : ShapeEffect SameSpaces where
  toIsEffect := sameSpaces_isEffect
  used := fun _ _ => ⟨rfl, rfl⟩
  half := sameSpaces_setHalf
  stores := fun _ _ => ⟨rfl, rfl⟩

theorem SameSpaces.space {m m' : Machine} (h : SameSpaces m m') (ref : SpaceRef) :
    m'.space ref = m.space ref := by
  cases ref with
  | kernel => exact h.kernel
  | user pid => exact congrFun h.spaces pid

/-! ## The invariant of a mapping loop -/

structure Stays (base : Machine) (root : Nat) (m : Machine) : Prop where
  pages : Extends base m
  regions : SameSpaces base m
  current : m.current = root

theorem vmmUnmapPage_neverFails (virt : Nat) : Prog.NeverFails (vmmUnmapPage virt) := by
  have hreclaim : Prog.NeverFails (reclaimTable (pdIndex (pageOf virt))) := by
    apply Prog.NeverFails.bind Prog.NeverFails.get
    intro m
    dsimp only
    split
    · exact Prog.NeverFails.pure ()
    · exact Prog.NeverFails.ite
        (Prog.NeverFails.bind (Prog.NeverFails.modify _) fun _ => Prog.NeverFails.modify _)
        (Prog.NeverFails.pure ())
  unfold vmmUnmapPage
  dsimp only
  apply Prog.NeverFails.ite Prog.NeverFails.diverge
  apply Prog.NeverFails.bind Prog.NeverFails.get
  intro m
  split
  · exact Prog.NeverFails.pure ()
  · exact Prog.NeverFails.bind (Prog.NeverFails.modify _) fun _ => hreclaim

theorem vmmGetPhysicalAddress_ok (virt : Nat) (m : Machine) :
    ∃ phys, vmmGetPhysicalAddress virt m = (.ok phys, m) := by
  unfold vmmGetPhysicalAddress
  rw [Prog.get_bind_apply]
  rcases m.walk m.current (pageOf virt) with _ | e
  · exact ⟨_, rfl⟩
  · exact ⟨_, rfl⟩

theorem memsetPage_neverFails (virt : Nat) : Prog.NeverFails (memsetPage virt) := by
  apply Prog.NeverFails.bind Prog.NeverFails.get
  intro m
  split
  · exact Prog.NeverFails.diverge
  · exact Prog.NeverFails.modify _

namespace Stays

variable {base m m' : Machine} {root : Nat}

theorem refl (m : Machine) : Stays m m.current m :=
  ⟨extends_isEffect.refl m, sameSpaces_isEffect.refl m, rfl⟩

theorem used (h : Stays base root m) (u : Nat → Bool) : Stays base root { m with used := u } :=
  ⟨extends_isEffect.trans h.pages (extends_of_walk fun r p => walk_used m u r p),
    sameSpaces_isEffect.trans h.regions ⟨rfl, rfl⟩, h.current⟩

variable {count phys virt : Nat} {o : Outcome KernelError Unit} {flags : ProtectFlags}

theorem pmmAllocateFrames (h : Stays base root m)
    (hrun : Memory.pmmAllocateFrames count m = (.ok phys, m')) : Stays base root m' := by
  unfold Memory.pmmAllocateFrames at hrun
  split at hrun
  · cases hrun
    exact h
  · cases hrun
    exact h.used _

theorem unmap (h : Stays base root m)
    (hnone : base.walk root (pageOf virt) = none) (hrun : vmmUnmapPage virt m = (o, m'))
    (ho : o ≠ .stuck) : o = .ok () ∧ Stays base root m' := by
  cases o with
  | stuck => exact absurd rfl ho
  | err e => exact absurd hrun (vmmUnmapPage_neverFails _ _ _ _)
  | ok u =>
    have hregions := (sameSpaces_shape.vmmUnmapPage virt).of_eq hrun (by simp)
    obtain ⟨hcurrent, -, hwalk⟩ := vmmUnmapPage_ok hrun
    refine ⟨rfl, ?_, sameSpaces_isEffect.trans h.regions hregions, hcurrent.trans h.current⟩
    intro r page e hpd hbase
    rw [hwalk r page hpd, h.pages r page e hpd hbase]
    -- The unmapped page had no entry in `base`, under any directory that shares it.
    rintro ⟨rfl, hsame⟩
    rw [h.current] at hsame
    rw [walk_eq_lookup hpd, half_congr hsame, ← walk_eq_lookup hpd, hnone] at hbase
    cases hbase

theorem map {ok : Bool} (h : Stays base root m)
    (hrun : vmmMapPage virt phys flags m = (.ok ok, m')) :
    Stays base root m' ∧ (ok = true → base.walk root (pageOf virt) = none) := by
  obtain ⟨hmaps, hpd, hok⟩ := vmmMapPage_ok hrun
  have hregions := (sameSpaces_shape.vmmMapPage virt phys flags).of_eq hrun (by simp)
  refine ⟨⟨extends_isEffect.trans h.pages hmaps.walks,
    sameSpaces_isEffect.trans h.regions hregions, hmaps.current.trans h.current⟩, ?_⟩
  intro htrue
  have hfree := (hok htrue).1
  rw [h.current] at hfree
  rcases hw : base.walk root (pageOf virt) with _ | e
  · rfl
  · rw [h.pages _ _ e hpd hw] at hfree
    cases hfree

theorem mapInitialized {page : Nat} {o : Outcome KernelError Bool}
    (h : Stays base root m) (hrun : Memory.mapInitialized page phys flags m = (o, m'))
    (ho : o ≠ .stuck) : ∃ ok, o = .ok ok ∧ Stays base root m' ∧
      (ok = true → base.walk root (pageOf page) = none) := by
  unfold Memory.mapInitialized at hrun
  rcases h₁ : vmmMapPage page phys (flags.or ProtectFlags.onlyWrite) m with ⟨o₁, m₁⟩
  cases o₁ with
  | stuck =>
    rw [Prog.bind_stuck h₁] at hrun
    exact absurd (Prod.mk.inj hrun).1.symm ho
  | err e => exact absurd h₁ (vmmMapPage_neverFails _ _ _ _ _ _)
  | ok ok =>
    rw [Prog.bind_ok h₁] at hrun
    obtain ⟨hstays₁, hfree⟩ := h.map h₁
    cases ok with
    | false =>
      cases hrun
      exact ⟨false, rfl, hstays₁, by simp⟩
    | true =>
      replace hfree := hfree rfl
      simp only [Bool.not_true, Bool.false_eq_true, if_false] at hrun
      rcases h₂ : memsetPage page m₁ with ⟨o₂, m₂⟩
      cases o₂ with
      | stuck =>
        rw [Prog.bind_stuck h₂] at hrun
        exact absurd (Prod.mk.inj hrun).1.symm ho
      | err e => exact absurd h₂ (memsetPage_neverFails _ _ _ _)
      | ok u =>
        rw [Prog.bind_ok h₂] at hrun
        have hstays₂ : Stays base root m₂ := by
          obtain ⟨e, -, rfl⟩ := memsetPage_ok h₂
          exact ⟨hstays₁.pages, ⟨hstays₁.regions.kernel, hstays₁.regions.spaces⟩,
            hstays₁.current⟩
        split at hrun
        · cases hrun
          exact ⟨true, rfl, hstays₂, fun _ => hfree⟩
        · -- A read-only page is mapped a second time.
          rcases h₃ : vmmUnmapPage page m₂ with ⟨o₃, m₃⟩
          by_cases hstuck : o₃ = .stuck
          · subst hstuck
            rw [Prog.bind_stuck h₃] at hrun
            exact absurd (Prod.mk.inj hrun).1.symm ho
          · obtain ⟨rfl, hstays₃⟩ := hstays₂.unmap hfree h₃ hstuck
            rw [Prog.bind_ok h₃] at hrun
            cases o with
            | stuck => exact absurd rfl ho
            | err e => exact absurd hrun (vmmMapPage_neverFails _ _ _ _ _ _)
            | ok ok =>
              exact ⟨ok, rfl, (hstays₃.map hrun).1, fun _ => hfree⟩

/-! ## The loops -/

/-- The first `n` pages from `virt` on had no mapping in `base`. -/
def NewPages (base : Machine) (root virt n : Nat) : Prop :=
  ∀ k < n, base.walk root (pageOf (virt + k * pageSize)) = none

theorem NewPages.succ {n : Nat} (h : NewPages base root virt n)
    (hn : base.walk root (pageOf (virt + n * pageSize)) = none) :
    NewPages base root virt (n + 1) := by
  intro k hk
  rcases Nat.lt_succ_iff_lt_or_eq.1 hk with hk | rfl
  · exact h k hk
  · exact hn

theorem allocateLoop {o : Outcome KernelError (Nat × Option KernelError)} (h : Stays base root m)
    (hrun : Prog.countTry count (allocatePage virt phys flags) m = (o, m')) (ho : o ≠ .stuck) :
    ∃ n f, o = .ok (n, f) ∧ Stays base root m' ∧ NewPages base root virt n ∧
      (f = none → n = count) := by
  obtain ⟨n, f, hf, ⟨hstays, hnew⟩, -, hn⟩ := Prog.countTry_run
    (I := fun i t => Stays base root t ∧ NewPages base root virt i)
    ⟨h, fun k hk => absurd hk (Nat.not_lt_zero k)⟩ (by
      rintro i - t ob t' ⟨hstays, hnew⟩ hbody hob
      unfold allocatePage at hbody
      rcases h₁ : Memory.mapInitialized (virt + i * pageSize) (phys + i * pageSize) flags t
        with ⟨o₁, t₁⟩
      by_cases hstuck : o₁ = .stuck
      · subst hstuck
        rw [Prog.bind_stuck h₁] at hbody
        exact absurd (Prod.mk.inj hbody).1.symm hob
      obtain ⟨ok, rfl, hstays₁, hfree⟩ := hstays.mapInitialized h₁ hstuck
      rw [Prog.bind_ok h₁] at hbody
      cases ok with
      | true =>
        cases hbody
        exact ⟨fun _ => ⟨hstays₁, hnew.succ (hfree rfl)⟩, by simp⟩
      | false =>
        cases hbody
        exact ⟨by simp, fun _ _ => ⟨hstays₁, hnew⟩⟩) hrun ho
  exact ⟨n, f, hf, hstays, hnew, hn⟩

theorem unmapLoop {n : Nat} (h : Stays base root m) (hnew : NewPages base root virt n)
    (hrun : Prog.forRange n (fun i => vmmUnmapPage (virt + i * pageSize)) m = (o, m'))
    (ho : o ≠ .stuck) : o = .ok () ∧ Stays base root m' :=
  Prog.forRange_run (I := fun _ t => Stays base root t) h
    (fun i hi _ _ _ hstays hbody hob => hstays.unmap (hnew i hi) hbody hob) hrun ho

theorem allocatePages {ref : SpaceRef} {o : Outcome KernelError Bool} (h : Stays base root m)
    (hrun : Memory.allocatePages ref virt phys count flags m = (o, m')) (ho : o ≠ .stuck) :
    (o = .ok true ∧ Stays base root m' ∧ NewPages base root virt count) ∨
      (o = .ok false ∧ ∃ m₁ o₁, Stays base root m₁ ∧ freeRegion ref virt m₁ = (o₁, m') ∧
        o₁ ≠ .stuck) := by
  unfold Memory.allocatePages at hrun
  rcases h₁ : Prog.countTry count (allocatePage virt phys flags) m with ⟨o₁, m₁⟩
  by_cases hstuck : o₁ = .stuck
  · subst hstuck
    rw [Prog.bind_stuck h₁] at hrun
    exact absurd (Prod.mk.inj hrun).1.symm ho
  obtain ⟨n, f, rfl, hstays₁, hnew, hn⟩ := h.allocateLoop h₁ hstuck
  rw [Prog.bind_ok h₁] at hrun
  cases f with
  | none =>
    cases hrun
    exact .inl ⟨rfl, hstays₁, hn rfl ▸ hnew⟩
  | some e =>
    dsimp only at hrun
    rcases h₂ : Prog.forRange n (fun i => vmmUnmapPage (virt + i * pageSize)) m₁ with ⟨o₂, m₂⟩
    by_cases hstuck₂ : o₂ = .stuck
    · subst hstuck₂
      rw [Prog.bind_stuck h₂] at hrun
      exact absurd (Prod.mk.inj hrun).1.symm ho
    obtain ⟨rfl, hstays₂⟩ := hstays₁.unmapLoop hnew h₂ hstuck₂
    rw [Prog.bind_ok h₂] at hrun
    rcases h₃ : freeRegion ref virt m₂ with ⟨o₃, m₃⟩
    cases o₃ with
    | ok u =>
      rw [Prog.bind_ok (Prog.attempt_ok h₃)] at hrun
      cases hrun
      exact .inr ⟨rfl, m₂, _, hstays₂, h₃, by simp⟩
    | err e =>
      rw [Prog.bind_ok (Prog.attempt_err h₃)] at hrun
      cases hrun
      exact .inr ⟨rfl, m₂, _, hstays₂, h₃, by simp⟩
    | stuck =>
      unfold freeRegion at h₃
      dsimp only at h₃
      split at h₃ <;> simp at h₃

theorem mapFixedPage {address i : Nat}
    (h : Stays base root m) (hrun : Memory.mapFixedPage address flags i m = (o, m'))
    (ho : o ≠ .stuck) :
    Stays base root m' ∧ (o = .ok () →
      base.walk root (pageOf (address + i * pageSize)) = none) := by
  unfold Memory.mapFixedPage at hrun
  obtain ⟨present, hread⟩ := vmmGetPhysicalAddress_ok (address + i * pageSize) m
  rw [Prog.bind_ok hread] at hrun
  split at hrun
  · cases hrun
    exact ⟨h, by simp⟩
  rcases h₁ : Memory.pmmAllocateFrames 1 m with ⟨o₁, m₁⟩
  cases o₁ with
  | stuck =>
    rw [Prog.bind_stuck h₁] at hrun
    exact absurd (Prod.mk.inj hrun).1.symm ho
  | err e => exact absurd h₁ (pmmAllocateFrames_neverFails _ _ _ _)
  | ok phys =>
    have hstays₁ := h.pmmAllocateFrames h₁
    rw [Prog.bind_ok h₁] at hrun
    split at hrun
    · cases hrun
      exact ⟨hstays₁, by simp⟩
    rcases h₂ : Memory.mapInitialized (address + i * pageSize) phys flags m₁ with ⟨o₂, m₂⟩
    by_cases hstuck : o₂ = .stuck
    · subst hstuck
      rw [Prog.bind_stuck h₂] at hrun
      exact absurd (Prod.mk.inj hrun).1.symm ho
    obtain ⟨ok, rfl, hstays₂, hfree⟩ := hstays₁.mapInitialized h₂ hstuck
    rw [Prog.bind_ok h₂] at hrun
    cases ok with
    | true =>
      cases hrun
      exact ⟨hstays₂, fun _ => hfree rfl⟩
    | false =>
      cases hrun
      exact ⟨hstays₂.used _, by simp⟩

theorem unmapAndFree {page : Nat} (h : Stays base root m)
    (hnone : base.walk root (pageOf page) = none) (hrun : Memory.unmapAndFree page m = (o, m'))
    (ho : o ≠ .stuck) : o = .ok () ∧ Stays base root m' := by
  unfold Memory.unmapAndFree at hrun
  obtain ⟨phys, hread⟩ := vmmGetPhysicalAddress_ok page m
  rw [Prog.bind_ok hread] at hrun
  rcases h₁ : vmmUnmapPage page m with ⟨o₁, m₁⟩
  by_cases hstuck : o₁ = .stuck
  · subst hstuck
    rw [Prog.bind_stuck h₁] at hrun
    exact absurd (Prod.mk.inj hrun).1.symm ho
  obtain ⟨rfl, hstays₁⟩ := h.unmap hnone h₁ hstuck
  rw [Prog.bind_ok h₁] at hrun
  cases hrun
  exact ⟨rfl, hstays₁.used _⟩

theorem mapFixedPages {address : Nat}
    {o : Outcome KernelError (Option KernelError)} (h : Stays base root m)
    (hrun : Memory.mapFixedPages address count flags m = (o, m')) (ho : o ≠ .stuck) :
    ∃ f, o = .ok f ∧ Stays base root m' ∧ (f = none → NewPages base root address count) := by
  unfold Memory.mapFixedPages at hrun
  rcases h₁ : Prog.countTry count (Memory.mapFixedPage address flags) m with ⟨o₁, m₁⟩
  by_cases hstuck : o₁ = .stuck
  · subst hstuck
    rw [Prog.bind_stuck h₁] at hrun
    exact absurd (Prod.mk.inj hrun).1.symm ho
  obtain ⟨n, f, rfl, ⟨hstays₁, hnew⟩, -, hn⟩ := Prog.countTry_run
    (I := fun i t => Stays base root t ∧ NewPages base root address i)
    ⟨h, fun k hk => absurd hk (Nat.not_lt_zero k)⟩ (by
      rintro i - t ob t' ⟨hstays, hnew⟩ hbody hob
      obtain ⟨hstays', hfree⟩ := hstays.mapFixedPage hbody hob
      exact ⟨fun hok => ⟨hstays', hnew.succ (hfree hok)⟩, fun _ _ => ⟨hstays', hnew⟩⟩) h₁ hstuck
  rw [Prog.bind_ok h₁] at hrun
  cases f with
  | none =>
    cases hrun
    exact ⟨none, rfl, hstays₁, fun _ => hn rfl ▸ hnew⟩
  | some e =>
    dsimp only at hrun
    rcases h₂ : Prog.forRange n (fun i => Memory.unmapAndFree (address + i * pageSize)) m₁
      with ⟨o₂, m₂⟩
    by_cases hstuck₂ : o₂ = .stuck
    · subst hstuck₂
      rw [Prog.bind_stuck h₂] at hrun
      exact absurd (Prod.mk.inj hrun).1.symm ho
    obtain ⟨rfl, hstays₂⟩ := Prog.forRange_run (I := fun _ t => Stays base root t) hstays₁
      (fun i hi _ _ _ hstays hbody hob => hstays.unmapAndFree (hnew i hi) hbody hob) h₂ hstuck₂
    rw [Prog.bind_ok h₂] at hrun
    cases hrun
    exact ⟨some e, rfl, hstays₂, by simp⟩

end Stays

theorem withSpace_cases {α : Type} {switch : Bool} {root : Nat} {body : Vmm α} {m m' : Machine}
    {o : Outcome KernelError α} (h : withSpace switch root body m = (o, m')) (ho : o ≠ .stuck) :
    ∃ o₁ m₁, body { m with current := if switch then root else m.current } = (o₁, m₁) ∧
      o₁ ≠ .stuck ∧ ((∃ a c, o₁ = .ok a ∧ o = .ok a ∧ m' = { m₁ with current := c }) ∨
        (∃ e, o₁ = .err e ∧ o = .err e ∧ m' = m₁)) := by
  unfold withSpace at h
  rw [Prog.get_bind_apply] at h
  cases switch with
  | false =>
    refine ⟨o, m', h, ho, ?_⟩
    cases o with
    | ok a => exact .inl ⟨a, m'.current, rfl, rfl, rfl⟩
    | err e => exact .inr ⟨e, rfl, rfl, rfl⟩
    | stuck => exact absurd rfl ho
  | true =>
    simp only [if_true] at h ⊢
    unfold vmmSwitchAddressSpace at h
    rw [Prog.modify_bind_apply] at h
    rcases hb : body { m with current := root } with ⟨o₁, m₁⟩
    refine ⟨o₁, m₁, rfl, ?_⟩
    cases o₁ with
    | ok a =>
      rw [Prog.bind_ok hb] at h
      cases h
      exact ⟨by simp, .inl ⟨a, _, rfl, rfl, rfl⟩⟩
    | err e =>
      rw [Prog.bind_err hb] at h
      cases h
      exact ⟨by simp, .inr ⟨e, rfl, rfl, rfl⟩⟩
    | stuck =>
      rw [Prog.bind_stuck hb] at h
      exact absurd (Prod.mk.inj h).1.symm ho

end UnDOS.Memory
