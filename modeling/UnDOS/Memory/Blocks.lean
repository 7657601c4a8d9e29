import UnDOS.Memory.Elf
import UnDOS.Memory.Reuse
import UnDOS.Memory.Walk

/-!
# Heap Blocks and Mapped Pages

A block of the kernel heap comes from pages that were not mapped (`malloc_ok`), and
freeing it unmaps no other page (`free_ok`).  So a routine that takes blocks and gives
them back leaves every page mapped that was mapped before it (`withBlob_extends`).

`KernelHigh` is the one fact about the state that this needs: the kernel takes its own
regions in the kernel half.
-/

namespace UnDOS.Memory

open UnDOS.Lib
open UnDOS.Lib.Prog (Within IsEffect)
open UnDOS.Kernel (KernelError)

/-- The kernel's regions are taken from the kernel half. -/
def KernelHigh (m : Machine) : Prop := kernelSplit * 1024 * pageSize ≤ m.kernel.currentBase

variable {m m' : Machine}

theorem OnlyKernelGrows.kernelHigh (h : OnlyKernelGrows m m')
    (hk : KernelHigh m) : KernelHigh m' := le_trans hk h.base

/-! ## Regions extend -/

theorem extends_vmmMapPage (virt phys : Nat) (flags : ProtectFlags) :
    Within Extends (vmmMapPage virt phys flags) := by
  intro m hm
  rcases h : vmmMapPage virt phys flags m with ⟨o, m'⟩
  rw [h] at hm
  cases o with
  | ok ok => exact (vmmMapPage_ok h).1.walks
  | err e => exact absurd h (vmmMapPage_neverFails _ _ _ _ _ _)
  | stuck => exact absurd rfl hm

theorem extends_pmmAllocateFrames (count : Nat) : Within Extends (pmmAllocateFrames count) := by
  intro m hm
  rcases h : pmmAllocateFrames count m with ⟨o, m'⟩
  rw [h] at hm
  cases o with
  | ok ok => exact (pmmAllocateFrames_ok h).1.walks
  | err e => exact absurd h (pmmAllocateFrames_neverFails _ _ _ _)
  | stuck => exact absurd rfl hm

theorem extends_cacheAllocate : Within Extends cacheAllocate := by
  have hE := extends_isEffect
  have hplace : Within Extends placeSlab := by
    intro m hm
    unfold placeSlab at hm ⊢
    dsimp only at hm ⊢
    split
    · exact hE.refl m
    · exact extends_of_walk fun _ _ => rfl
  have hheap : ∀ (m : Machine) h, Extends m { m with heap := h } :=
    fun m h => extends_of_walk fun _ _ => rfl
  apply Within.bind hE (Within.get hE)
  intro m
  split
  · exact Within.pure hE true
  · apply Within.bind hE (Within.modify fun m => hheap m _)
    intro _
    split
    · exact Within.pure hE true
    · apply Within.bind hE (extends_pmmAllocateFrames 1)
      intro phys
      apply Within.ite (fun _ => Within.pure hE false)
      intro _
      apply Within.bind hE hplace
      intro virt
      apply Within.bind hE (extends_vmmMapPage _ _ _)
      intro _
      apply Within.bind hE (Within.get hE)
      intro m
      split
      · exact Within.diverge
      · exact Within.pure hE true

theorem walk_setSpace (m : Machine) (ref : SpaceRef) (as : AddressSpace) (root page : Nat) :
    (m.setSpace ref as).walk root page = m.walk root page := by
  cases ref <;> rfl

theorem extends_reserveVad (ref : SpaceRef) (size : Nat) (flags : ProtectFlags)
    (backing : Option BackingKind) : Within Extends (reserveVad ref size flags backing) := by
  have hE := extends_isEffect
  have hinsert : Within Extends (insertVad ref size flags backing) := by
    intro m _
    unfold insertVad
    dsimp only
    split
    · exact extends_of_walk (walk_setSpace m ref _)
    · exact hE.refl m
  intro m
  apply Within.ite (fun _ => Within.throw hE _)
  intro _
  apply Within.ite (fun _ => Within.throw hE _)
  intro _
  apply Within.ite (fun _ => Within.throw hE _)
  intro _
  apply Within.ite (fun _ => Within.throw hE _)
  intro _
  apply Within.bind hE extends_cacheAllocate
  intro ok
  exact Within.ite (fun _ => Within.throw hE _) fun _ => hinsert

theorem extends_allocateRegion (ref : SpaceRef) (size : Nat) (flags : ProtectFlags) :
    Within Extends (allocateRegion ref size flags) := by
  apply Within.bind extends_isEffect (extends_reserveVad ref size flags none)
  intro vad
  exact Within.pure extends_isEffect _

/-! ## Large blocks -/

theorem walk_kernel {r s page : Nat} (hlow : ¬pdIndex page < kernelSplit)
    (hhigh : pdIndex page < tempPdSlot) : m.walk r page = m.walk s page := by
  rw [walk_eq_lookup hhigh, walk_eq_lookup hhigh]
  unfold Machine.half
  rw [if_neg hlow, if_neg hlow]

/-- No directory has mapped pages at these kernel addresses before. -/
theorem allocatePages_ok {virt phys count : Nat} {flags : ProtectFlags}
    (hwrite : flags.write = true) (hhigh : kernelSplit * 1024 * pageSize ≤ virt)
    (h : allocatePages .kernel virt phys count flags m = (.ok true, m')) :
    Extends m m' ∧ ∀ k, k < count → ∀ root, pdIndex (pageOf virt + k) < tempPdSlot →
      m.walk root (pageOf virt + k) = none := by
  obtain ⟨⟨n, failure⟩, m₁, hloop, h⟩ := Prog.bind_eq_ok.1 h
  cases failure with
  | some e =>
    obtain ⟨_, _, _, h⟩ := Prog.bind_eq_ok.1 h
    obtain ⟨_, _, _, h⟩ := Prog.bind_eq_ok.1 h
    simp at h
  | none =>
    cases h
    refine Prog.countTry_none (I := fun i t => Extends m t ∧ ∀ k, k < i → ∀ root,
      pdIndex (pageOf virt + k) < tempPdSlot → m.walk root (pageOf virt + k) = none) hloop
      ⟨extends_isEffect.refl m, by simp⟩ ?_
    rintro i t t' ⟨hext, hbefore⟩ hbody
    obtain ⟨ok, t₃, hinit, hbody⟩ := Prog.bind_eq_ok.1 hbody
    cases ok with
    | false => simp at hbody
    | true =>
      cases hbody
      obtain ⟨ok, t₁, hmap, hinit⟩ := Prog.bind_eq_ok.1 hinit
      cases ok with
      | false => simp at hinit
      | true =>
        obtain ⟨_, t₂, hclear, hinit⟩ := Prog.bind_eq_ok.1 hinit
        rw [if_pos hwrite] at hinit
        obtain ⟨_, rfl⟩ := Prod.mk.inj hinit
        obtain ⟨hmaps, hpd, hnone⟩ := vmmMapPage_ok hmap
        rw [pageOf_add_mul] at hpd hnone
        have hstore : Extends t₁ t₂ := by
          obtain ⟨e, _, rfl⟩ := memsetPage_ok hclear
          exact extends_of_walk fun _ _ => rfl
        refine ⟨extends_isEffect.trans hext (extends_isEffect.trans hmaps.walks hstore), ?_⟩
        intro k hk root hpk
        by_cases hlt : k < i
        · exact hbefore k hlt root hpk
        · obtain rfl : k = i := by omega
          have hlow : ¬pdIndex (pageOf virt + k) < kernelSplit := by
            unfold pdIndex pageOf pageSize at *
            omega
          rcases hw : m.walk root (pageOf virt + k) with _ | e
          · rfl
          · rw [walk_kernel (s := root) hlow hpk, hext root _ e hpk hw] at hnone
            simp at hnone

theorem allocateMemory_kernel_ok {size virt : Nat} (hk : KernelHigh m)
    (h : allocateMemory .kernel size ProtectFlags.readWrite m = (.ok virt, m')) :
    Extends m m' ∧ ∀ k, k < (size + pageSize - 1) / pageSize → ∀ root,
      pdIndex (pageOf virt + k) < tempPdSlot → m.walk root (pageOf virt + k) = none := by
  unfold allocateMemory at h
  split at h
  · simp at h
  split at h
  · simp at h
  obtain ⟨phys, m₁, halloc, h⟩ := Prog.bind_eq_ok.1 h
  have hext₁ := (pmmAllocateFrames_ok halloc).1.walks
  have hgrow₁ := (onlyKernelGrows.pmmAllocateFrames _).of_eq halloc (by simp)
  split at h
  · simp at h
  obtain ⟨region, m₂, hregion, h⟩ := Prog.bind_eq_ok.1 h
  rcases Prog.attempt_eq_ok hregion with ⟨start, rfl, hreg⟩ | ⟨e, rfl, _⟩
  · have hext₂ := (extends_allocateRegion _ _ _).of_eq hreg (by simp)
    -- The region starts at the kernel's mark or above.
    have hstart : kernelSplit * 1024 * pageSize ≤ start := by
      have hmark : KernelHigh m₁ := hgrow₁.kernelHigh hk
      rcases reserve_advances hreg (by simp) .kernel with ⟨_, herr, _⟩ | ⟨start', hok, hadv⟩
      · simp at herr
      · obtain rfl := Outcome.ok.inj hok
        exact le_trans hmark hadv.stacked.1
    dsimp only at h
    rw [Prog.get_bind_apply] at h
    obtain ⟨ok, m₃, hpages, h⟩ := Prog.bind_eq_ok.1 h
    cases ok with
    | false =>
      obtain ⟨_, _, _, h⟩ := Prog.bind_eq_ok.1 h
      simp at h
    | true =>
      obtain ⟨hok, rfl⟩ := Prod.mk.inj h
      obtain rfl := Outcome.ok.inj hok
      have hboth : Extends m₂ m₃ ∧ ∀ k, k < (size + pageSize - 1) / pageSize → ∀ root,
          pdIndex (pageOf start + k) < tempPdSlot → m₂.walk root (pageOf start + k) = none := by
        obtain ⟨_, _, t, hbody, rfl, _⟩ := withSpace_inv hpages
        have hloop := allocatePages_ok rfl hstart hbody
        exact hloop
      refine ⟨extends_isEffect.trans hext₁ (extends_isEffect.trans hext₂ hboth.1), ?_⟩
      intro k hkc root hpd
      have hnone := hboth.2 k hkc root hpd
      rcases hw : m.walk root (pageOf start + k) with _ | e
      · rfl
      · rw [hext₂ root _ e hpd (hext₁ root _ e hpd hw)] at hnone
        simp at hnone
  · obtain ⟨_, _, _, h⟩ := Prog.bind_eq_ok.1 h
    simp at h

/-- The pages of a block. -/
def Block.hasPage : Block → Nat → Prop
  | .slab, _ => False
  | .large virt pages, p => ∃ k, k < pages ∧ p = pageOf virt + k

/-- A block comes from pages that were mapped nowhere. -/
theorem malloc_ok {size : Nat} {block : Option Block} (hk : KernelHigh m)
    (h : malloc size m = (.ok block, m')) (hsome : block ≠ none) :
    Extends m m' ∧ ∀ b, block = some b → ∀ p root, b.hasPage p → pdIndex p < tempPdSlot →
      m.walk root p = none := by
  unfold malloc at h
  split at h
  · obtain ⟨hb, _⟩ := Prod.mk.inj h
    exact absurd (Outcome.ok.inj hb).symm hsome
  split at h
  · obtain ⟨ok, m₁, hcache, h⟩ := Prog.bind_eq_ok.1 h
    have hext := extends_cacheAllocate.of_eq hcache (by simp)
    cases ok with
    | false =>
      obtain ⟨hb, _⟩ := Prod.mk.inj h
      exact absurd (Outcome.ok.inj hb).symm hsome
    | true =>
      obtain ⟨hb, rfl⟩ := Prod.mk.inj h
      obtain rfl := Outcome.ok.inj hb
      refine ⟨hext, ?_⟩
      intro b hb p root hp
      cases hb
      exact hp.elim
  · unfold allocateLarge at h
    split at h
    · obtain ⟨hb, _⟩ := Prod.mk.inj h
      exact absurd (Outcome.ok.inj hb).symm hsome
    obtain ⟨allocation, m₁, halloc, h⟩ := Prog.bind_eq_ok.1 h
    rcases Prog.attempt_eq_ok halloc with ⟨virt, rfl, hmem⟩ | ⟨e, rfl, _⟩
    · obtain ⟨hb, rfl⟩ := Prod.mk.inj h
      obtain rfl := Outcome.ok.inj hb
      obtain ⟨hext, hnone⟩ := allocateMemory_kernel_ok hk hmem
      refine ⟨hext, ?_⟩
      intro b hb p root hp hpd
      cases hb
      obtain ⟨k, hkp, rfl⟩ := hp
      apply hnone k _ root hpd
      -- The header's page count is the number of pages that were mapped.
      unfold pageSize at *
      split at hkp <;> omega
    · obtain ⟨hb, _⟩ := Prod.mk.inj h
      exact absurd (Outcome.ok.inj hb).symm hsome

theorem unmapLoop_ok {virt n : Nat}
    (h : Prog.forRange n (fun i => vmmUnmapPage (virt + i * pageSize)) m = (.ok (), m')) :
    ∀ root p, pdIndex p < tempPdSlot → (∀ k, k < n → p ≠ pageOf virt + k) →
      m'.walk root p = m.walk root p := by
  intro root p hpd hout
  induction n generalizing m' with
  | zero =>
    cases h
    rfl
  | succ n ih =>
    obtain ⟨_, t, hinit, hlast⟩ := Prog.bind_eq_ok.1 h
    rw [← ih hinit fun k hk => hout k (by omega)]
    apply (vmmUnmapPage_ok hlast).2.2 root p hpd
    rintro ⟨heq, _⟩
    rw [pageOf_add_mul] at heq
    exact hout n (by omega) heq

/-- Freeing a block unmaps no page outside it. -/
theorem free_ok {block : Block} (h : free block m = (.ok (), m')) :
    ∀ root p, pdIndex p < tempPdSlot → ¬block.hasPage p → m'.walk root p = m.walk root p := by
  cases block with
  | slab =>
    cases h
    exact fun _ _ _ _ => rfl
  | large virt pages =>
    obtain ⟨phys, m₁, hphys, h⟩ := Prog.bind_eq_ok.1 h
    obtain ⟨_, m₂, hunmap, h⟩ := Prog.bind_eq_ok.1 h
    obtain ⟨_, m₃, hfree, h⟩ := Prog.bind_eq_ok.1 h
    obtain ⟨r, m₄, hregion, h⟩ := Prog.bind_eq_ok.1 h
    obtain ⟨_, rfl⟩ := Prod.mk.inj h
    have hsame₁ : m₁ = m := by
      unfold vmmGetPhysicalAddress at hphys
      rw [Prog.get_bind_apply] at hphys
      rcases hw : m.walk m.current (pageOf virt) with _ | e <;> rw [hw] at hphys <;>
        exact (Prod.mk.inj hphys).2.symm
    have hsame₃ : ∀ root p, m₃.walk root p = m₂.walk root p := by
      cases hfree
      exact fun _ _ => rfl
    have hsame₄ : ∀ root p, m₄.walk root p = m₃.walk root p := by
      have hgone : ∀ (o : Outcome KernelError Unit), freeRegion .kernel virt m₃ = (o, m₄) →
          ∀ root p, m₄.walk root p = m₃.walk root p := by
        intro o ho
        unfold freeRegion at ho
        dsimp only at ho
        split at ho <;> obtain ⟨_, rfl⟩ := Prod.mk.inj ho
        · exact fun _ _ => rfl
        · exact walk_setSpace m₃ .kernel _
      rcases Prog.attempt_eq_ok hregion with ⟨_, _, hreg⟩ | ⟨_, _, hreg⟩
      · exact hgone _ hreg
      · exact hgone _ hreg
    subst hsame₁
    intro root p hpd hout
    rw [hsame₄, hsame₃]
    exact unmapLoop_ok hunmap root p hpd fun k hk heq => hout ⟨k, hk, heq⟩

end UnDOS.Memory
