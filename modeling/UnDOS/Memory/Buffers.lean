import UnDOS.Memory.Footprint

/-!
# Buffers of the Loader

`LoadElfFromVfs` reads every segment into a block of the kernel heap, maps the segments
and frees the blocks again.  A large block is pages of the kernel half over frames of its
own; these frames stay in hand from `KE_Malloc` to `KE_Free`, and the pages only show
them.

`BlockOver root m block F` says that `F` are the frames of a live block, `Held` that of a
list of blocks.
-/

namespace UnDOS.Memory

open UnDOS.Lib
open UnDOS.Kernel (KernelError)

/-- The pages of a run are kernel pages behind the bump pointer. -/
def KernelPages (virt n : Nat) (m : Machine) : Prop :=
  ∀ k < n, ¬pdIndex (pageOf (virt + k * pageSize)) < kernelSplit ∧
    pageOf (virt + k * pageSize) < pageOf m.kernel.currentBase

/-- The pages of a run can be mapped. -/
def BelowWindows (virt n : Nat) : Prop :=
  ∀ k < n, pdIndex (pageOf (virt + k * pageSize)) < tempPdSlot

/-- The frames of a live block. -/
def BlockOver (root : Nat) (m : Machine) : Option Block → Set Nat → Prop
  | some (.large virt pages), F => ∃ phys, F = frameRun phys pages ∧ 0 < pages ∧
      virt % pageSize = 0 ∧ PagesOver root virt phys 0 pages m ∧ KernelPages virt pages m ∧
      BelowWindows virt pages
  | _, F => F = ∅

variable {root virt : Nat} {m m' : Machine} {F G : Set Nat} {blocks : List (Option Block)}

theorem PagesOver.extends {phys lo hi : Nat} (h : Extends m m')
    (hpd : BelowWindows virt hi) (hover : PagesOver root virt phys lo hi m) :
    PagesOver root virt phys lo hi m' :=
  fun k hlo hk => h.holder (hpd k hk) (hover k hlo hk)

theorem KernelPages.mono {n : Nat}
    (hbase : m.kernel.currentBase ≤ m'.kernel.currentBase) (h : KernelPages virt n m) :
    KernelPages virt n m' :=
  fun k hk => ⟨(h k hk).1, lt_of_lt_of_le (h k hk).2 (Nat.div_le_div_right hbase)⟩

theorem BlockOver.extends {block : Option Block}
    (h : Extends m m') (hbase : m.kernel.currentBase ≤ m'.kernel.currentBase)
    (hblock : BlockOver root m block F) : BlockOver root m' block F := by
  rcases block with _ | _ | ⟨virt, pages⟩
  · exact hblock
  · exact hblock
  · obtain ⟨phys, hF, hpos, haligned, hover, hkernel, hpd⟩ := hblock
    exact ⟨phys, hF, hpos, haligned, hover.extends h hpd, hkernel.mono hbase, hpd⟩

/-! ## Large blocks -/

theorem allocateRegion_kernel_ok {size : Nat} {flags : ProtectFlags}
    (h : allocateRegion .kernel size flags m = (.ok virt, m')) :
    m.kernel.currentBase ≤ virt ∧ m'.kernel.currentBase = virt + alignUp size := by
  obtain ⟨vad, m₁, hreserve, hpure⟩ := Prog.bind_eq_ok.1 h
  obtain ⟨hvirt, rfl⟩ := Prod.mk.inj hpure
  obtain rfl := Outcome.ok.inj hvirt
  rcases reserveVad_cases hreserve (by simp) with ⟨_, herr, _⟩ | ⟨vad', m₂, hok, hgrow, hinsert⟩
  · cases herr
  · obtain rfl := Outcome.ok.inj hok
    unfold insertVad at hinsert
    dsimp only [Machine.space] at hinsert
    split at hinsert
    · obtain ⟨hvad, rfl⟩ := Prod.mk.inj hinsert
      obtain rfl := Outcome.ok.inj hvad
      exact ⟨hgrow.base, rfl⟩
    · cases (Prod.mk.inj hinsert).1

theorem largePages (total : Nat) : total / pageSize + (if total % pageSize ≠ 0 then 1 else 0) =
      (total + pageSize - 1) / pageSize := by
  unfold pageSize
  split
  · omega
  · omega

theorem extends_freeRegion {ref : SpaceRef} {addr : Nat}
    {o : Outcome KernelError Unit} (h : freeRegion ref addr m = (o, m')) : Extends m m' := by
  unfold freeRegion at h
  dsimp only at h
  split at h
  · cases h
    exact extends_isEffect.refl m
  · cases h
    exact extends_of_walk (walk_setSpace m ref _)

namespace Book

variable {old hand : Set Nat} {root pid : Nat} {m m' : Machine}
variable {flags : ProtectFlags}

theorem showPage {page phys : Nat} {o : Outcome KernelError Bool}
    (h : Book old root pid hand m) (hwrite : flags.write = true) (hphys : phys ∈ hand)
    (hkernel : ¬pdIndex (pageOf page) < kernelSplit)
    (hbelow : pageOf page < pageOf m.kernel.currentBase)
    (hrun : Memory.mapInitialized page phys flags m = (o, m')) (ho : o ≠ .stuck) :
    ∃ ok, o = .ok ok ∧ Book old root pid hand m' ∧ m'.kernel = m.kernel ∧ Extends m m' ∧
      (ok = true → pdIndex (pageOf page) < tempPdSlot ∧
        m'.holder root (.page (pageOf page)) = some phys) := by
  obtain ⟨ok, m₁, hmap, hrun⟩ := (vmmMapPage_neverFails _ _ _).bind_run hrun ho
  have h₁ := h.mapKernelPage hkernel hbelow hmap
  have hsame := (sameSpaces_shape.vmmMapPage _ _ _).of_eq hmap (by simp)
  obtain ⟨hmaps, hpd, -⟩ := vmmMapPage_ok hmap
  cases ok with
  | false =>
    cases hrun
    exact ⟨false, rfl, h₁, hsame.kernel, hmaps.walks, by simp⟩
  | true =>
    simp only [hwrite] at hrun
    obtain ⟨_, m₂, hclear, hrun⟩ := (memsetPage_neverFails _).bind_run hrun ho
    have h₂ := h₁.memsetPage hclear
    obtain ⟨_, -, rfl⟩ := memsetPage_ok hclear
    cases hrun
    refine ⟨true, rfl, h₂, hsame.kernel, hmaps.walks, fun _ => ⟨hpd, ?_⟩⟩
    obtain ⟨_, _, -, hcases⟩ := vmmMapPage_slots (Reaches.of_kernel root _ hkernel) hmap
    rcases hcases with ⟨hfalse, -⟩ | ⟨-, -, -, hself, -⟩
    · cases hfalse
    · rw [h.owns.aligned hphys] at hself
      exact hself

/-- The pages of a buffer show frames that stay in the hand. -/
theorem showLoop {virt phys count : Nat}
    {o : Outcome KernelError (Nat × Option KernelError)} (h : Book old root pid hand m)
    (hwrite : flags.write = true) (hin : ∀ a ∈ frameRun phys count, a ∈ hand)
    (hkernel : KernelPages virt count m)
    (hrun : Prog.countTry count (allocatePage virt phys flags) m = (o, m')) (ho : o ≠ .stuck) :
    ∃ n f, o = .ok (n, f) ∧ n ≤ count ∧ (f = none → n = count) ∧ Book old root pid hand m' ∧
      m'.kernel = m.kernel ∧ Extends m m' ∧ PagesOver root virt phys 0 n m' ∧
      BelowWindows virt n := by
  obtain ⟨n, f, hf, ⟨hbook, hsame, hext, hpages, hpd⟩, hle, hn⟩ := Prog.countTry_run
    (I := fun i t => Book old root pid hand t ∧ t.kernel = m.kernel ∧ Extends m t ∧
      PagesOver root virt phys 0 i t ∧ BelowWindows virt i)
    ⟨h, rfl, extends_isEffect.refl m, fun k _ hk => absurd hk (Nat.not_lt_zero k),
      fun k hk => absurd hk (Nat.not_lt_zero k)⟩ (by
      rintro i hi t ob t' ⟨hbook, hsame, hext, hpages, hpd⟩ hbody hob
      obtain ⟨hslot, hbelow⟩ := hkernel i hi
      rw [← hsame] at hbelow
      rcases Prog.bind_run hbody hob with ⟨ok, t₁, hinit, hbody⟩ | ⟨e, hinit, -⟩
      · obtain ⟨ok', hok, hbook₁, hsame₁, hext₁, hself⟩ :=
          hbook.showPage hwrite (hin _ ⟨i, hi, rfl⟩) hslot hbelow hinit (by simp)
        obtain rfl := Outcome.ok.inj hok
        have hkept := hpages.extends hext₁ hpd
        cases ok with
        | true =>
          cases hbody
          obtain ⟨hpage, hself⟩ := hself rfl
          refine ⟨fun _ => ⟨hbook₁, hsame₁.trans hsame, extends_isEffect.trans hext hext₁, ?_, ?_⟩,
            by simp⟩
          · intro k hlo hk
            rcases Nat.lt_succ_iff_lt_or_eq.1 hk with hk | rfl
            · exact hkept k hlo hk
            · exact hself
          · intro k hk
            rcases Nat.lt_succ_iff_lt_or_eq.1 hk with hk | rfl
            · exact hpd k hk
            · exact hpage
        | false =>
          cases hbody
          exact ⟨by simp, fun _ _ => ⟨hbook₁, hsame₁.trans hsame,
            extends_isEffect.trans hext hext₁, hkept, hpd⟩⟩
      · obtain ⟨_, herr, -⟩ :=
          hbook.showPage hwrite (hin _ ⟨i, hi, rfl⟩) hslot hbelow hinit (by simp)
        cases herr) hrun ho
  exact ⟨n, f, hf, hle, hn, hbook, hsame, hext, hpages, hpd⟩

theorem hideLoop {virt phys n : Nat} {o : Outcome KernelError Unit} (h : Book old root pid hand m)
    (hin : ∀ a ∈ frameRun phys n, a ∈ hand) (hkernel : KernelPages virt n m)
    (hpd : BelowWindows virt n) (hpages : PagesOver root virt phys 0 n m)
    (hrun : Prog.forRange n (fun i => vmmUnmapPage (virt + i * pageSize)) m = (o, m'))
    (ho : o ≠ .stuck) : o = .ok () ∧ Book old root pid hand m' := by
  obtain ⟨rfl, hbook, -⟩ := Prog.forRange_run
    (I := fun j t => Book old root pid hand t ∧ t.kernel = m.kernel ∧
      PagesOver root virt phys j n t)
    ⟨h, rfl, hpages⟩ (by
      rintro j hj t ob t' ⟨hbook, hsame, hpages⟩ hbody hob
      obtain ⟨hslot, hbelow⟩ := hkernel j hj
      rw [← hsame] at hbelow
      rcases ob with _ | e | _
      · have hregions := (sameSpaces_shape.vmmUnmapPage _).of_eq hbody (by simp)
        refine ⟨rfl, hbook.unmapKernelPage hslot ?_ hbelow hbody,
          hregions.kernel.trans hsame, ?_⟩
        · intro a ha
          rw [hpages j (le_refl j) hj] at ha
          cases ha
          exact hin _ ⟨j, hj, rfl⟩
        · intro k hk hkn
          rw [vmmUnmapPage_other hbody ?_ (hpd k hkn)]
          · exact hpages k (Nat.le_of_succ_le hk) hkn
          · rw [pageOf_add_mul, pageOf_add_mul]
            omega
      · exact absurd hbody (vmmUnmapPage_neverFails _ _ _ _)
      · exact absurd rfl hob) hrun ho
  exact ⟨rfl, hbook⟩

theorem showPages {virt phys count : Nat} {o : Outcome KernelError Bool}
    (h : Book old root pid hand m) (hwrite : flags.write = true)
    (hin : ∀ a ∈ frameRun phys count, a ∈ hand) (hkernel : KernelPages virt count m)
    (hrun : Memory.allocatePages .kernel virt phys count flags m = (o, m')) (ho : o ≠ .stuck) :
    ∃ ok, o = .ok ok ∧ Book old root pid hand m' ∧ Extends m m' ∧
      (ok = true → m'.kernel = m.kernel ∧ PagesOver root virt phys 0 count m' ∧
        BelowWindows virt count) := by
  have hext : Extends m m' := by
    rcases (Stays.refl m).allocatePages hrun ho with ⟨-, hstays, -⟩ | ⟨-, m₁, o₁, hstays, hfree, -⟩
    · exact hstays.pages
    · exact extends_isEffect.trans hstays.pages (extends_freeRegion hfree)
  obtain ⟨n, f, m₁, hloop, ⟨hle, hn, hbook, hsame, -, hpages, hpd⟩, hrun⟩ :=
    Prog.bind_returns_pair hrun ho fun _ _ => h.showLoop hwrite hin hkernel
  cases f with
  | none =>
    cases hrun
    obtain rfl := hn rfl
    exact ⟨true, rfl, hbook, hext, fun _ => ⟨hsame, hpages, hpd⟩⟩
  | some e =>
    have hkernel₁ : KernelPages virt n m₁ := by
      intro k hk
      rw [hsame]
      exact hkernel k (by omega)
    have hin₁ : ∀ a ∈ frameRun phys n, a ∈ hand := fun a ⟨k, hk, heq⟩ =>
      hin a ⟨k, by omega, heq⟩
    obtain ⟨m₂, hundo, hback, hrun⟩ :=
      Prog.bind_done hrun ho fun _ _ => hbook.hideLoop hin₁ hkernel₁ hpd hpages
    rcases Prog.attempt_run hrun ho with ⟨_, m₃, hfree, hrun⟩ | ⟨e', m₃, hfree, hrun⟩
    · cases hrun
      exact ⟨false, rfl, hback.freeRegion (.inl rfl) hfree, hext, by simp⟩
    · cases hrun
      exact ⟨false, rfl, hback.freeRegion (.inl rfl) hfree, hext, by simp⟩

/-- `allocate_memory` for the kernel, from the frames on. -/
theorem allocateBlock {phys count : Nat} {o : Outcome KernelError Nat}
    (h : Book old root pid hand m) (hwrite : flags.write = true) (hpos : 0 < count)
    (hin : ∀ a ∈ frameRun phys count, a ∈ hand)
    (hrun : Memory.allocateMapped .kernel phys count flags m = (o, m')) (ho : o ≠ .stuck) :
    Extends m m' ∧ ((∃ e, o = .err e ∧ Book old root pid (hand \ frameRun phys count) m') ∨
      ∃ virt, o = .ok virt ∧ Book old root pid hand m' ∧
        BlockOver root m' (some (.large virt count)) (frameRun phys count)) := by
  have hfreed : ∀ {t t' : Machine} {of : Outcome KernelError Unit},
      pmmFreeFrames phys count t = (of, t') → Extends t t' := by
    intro t t' of hfree
    cases hfree
    exact extends_of_walk fun _ _ => rfl
  rcases Prog.attempt_run hrun ho with ⟨virt, m₁, hregion, hrun⟩ | ⟨e, m₁, hregion, hrun⟩
  · have h₁ := h.allocateRegion (.inl rfl) hregion (by simp)
    have hext₁ := (extends_allocateRegion _ _ _).of_eq hregion (by simp)
    obtain ⟨hbase, hnext⟩ := allocateRegion_kernel_ok hregion
    rw [alignUp_mul_pageSize] at hnext
    have haligned : virt % pageSize = 0 := by
      have := h₁.aligned
      rwa [hnext, Nat.add_mul_mod_self_right] at this
    have hkernel : KernelPages virt count m₁ := by
      intro k hk
      refine ⟨h.high.slot (le_trans hbase (Nat.le_add_right _ _)), ?_⟩
      rw [hnext, pageOf_add_mul, pageOf_add_mul]
      omega
    dsimp only at hrun
    rw [Prog.get_bind_apply] at hrun
    have hloop : ∀ {sw r ol m₂}, withSpace sw r
        (Memory.allocatePages .kernel virt phys count flags) m₁ = (ol, m₂) → ol ≠ .stuck →
        ∃ ok, ol = .ok ok ∧ Book old root pid hand m₂ ∧ Extends m₁ m₂ ∧
          (ok = true → BlockOver root m₂ (some (.large virt count)) (frameRun phys count)) := by
      intro sw r ol m₂ hspace hol
      obtain ⟨ob, m₃, hbody, hob, hback⟩ := withSpace_cases hspace hol
      obtain ⟨ok, rfl, hbook, hext, hdone⟩ :=
        (h₁.current (if sw then r else m₁.current)).showPages hwrite hin hkernel hbody hob
      rcases hback with ⟨_, c, hok, rfl, rfl⟩ | ⟨_, herr, -⟩
      · obtain rfl := Outcome.ok.inj hok
        refine ⟨ok, rfl, hbook.current c, hext, ?_⟩
        intro htrue
        obtain ⟨hsame, hpages, hpd⟩ := hdone htrue
        exact ⟨phys, rfl, hpos, haligned, hpages, hkernel.mono (le_of_eq (by rw [hsame])), hpd⟩
      · cases herr
    obtain ⟨ok, m₂, hspace, ⟨hbook, hext, hdone⟩, hrun⟩ :=
      Prog.bind_returns hrun ho fun _ _ => hloop
    have hext₂ := extends_isEffect.trans hext₁ hext
    cases ok with
    | true =>
      cases hrun
      exact ⟨hext₂, .inr ⟨virt, rfl, hbook, hdone rfl⟩⟩
    | false =>
      obtain ⟨_, m₃, hfree, hrun⟩ := (pmmFreeFrames_neverFails _ _).bind_run hrun ho
      cases hrun
      exact ⟨extends_isEffect.trans hext₂ (hfreed hfree), .inl ⟨_, rfl, hbook.free hin hfree⟩⟩
  · have h₁ := h.allocateRegion (.inl rfl) hregion (by simp)
    have hext₁ := (extends_allocateRegion _ _ _).of_eq hregion (by simp)
    obtain ⟨_, m₂, hfree, hrun⟩ := (pmmFreeFrames_neverFails _ _).bind_run hrun ho
    cases hrun
    exact ⟨extends_isEffect.trans hext₁ (hfreed hfree), .inl ⟨_, rfl, h₁.free hin hfree⟩⟩

theorem allocateKernel {size : Nat} {o : Outcome KernelError Nat}
    (h : Book old root pid hand m) (hwrite : flags.write = true)
    (hrun : Memory.allocateMemory .kernel size flags m = (o, m')) (ho : o ≠ .stuck) :
    Extends m m' ∧ ((∃ e, o = .err e ∧ Book old root pid hand m') ∨
      ∃ virt F, o = .ok virt ∧ Book old root pid (hand ∪ F) m' ∧ (∀ a ∈ F, a ∉ hand) ∧
        BlockOver root m' (some (.large virt ((size + pageSize - 1) / pageSize))) F) := by
  unfold Memory.allocateMemory at hrun
  split at hrun
  · cases hrun
    exact ⟨extends_isEffect.refl m, .inl ⟨_, rfl, h⟩⟩
  split at hrun
  · cases hrun
    exact ⟨extends_isEffect.refl m, .inl ⟨_, rfl, h⟩⟩
  have hpos : 0 < (size + pageSize - 1) / pageSize :=
    Nat.div_pos (by unfold pageSize; omega) (by decide)
  obtain ⟨phys, m₁, hpmm, hrest⟩ := (pmmAllocateFrames_neverFails _).bind_run hrun ho
  have hext₁ := (pmmAllocateFrames_ok hpmm).1.walks
  rcases h.allocate hpmm with ⟨rfl, rfl⟩ | ⟨hphys, h₁, hnew⟩
  · rw [if_pos rfl] at hrest
    cases hrest
    exact ⟨hext₁, .inl ⟨_, rfl, h⟩⟩
  · rw [if_neg hphys, if_pos rfl] at hrest
    obtain ⟨hext₂, hcases⟩ := h₁.allocateBlock hwrite hpos (fun a ha => .inr ha) hrest ho
    refine ⟨extends_isEffect.trans hext₁ hext₂, ?_⟩
    rcases hcases with ⟨e, rfl, hbook⟩ | ⟨virt, rfl, hbook, hblock⟩
    · rw [union_sdiff_run hnew] at hbook
      exact .inl ⟨e, rfl, hbook⟩
    · exact .inr ⟨virt, _, rfl, hbook, hnew, hblock⟩

theorem malloc {size : Nat} {o : Outcome KernelError (Option Block)} (h : Book old root pid hand m)
    (hrun : Memory.malloc size m = (o, m')) (ho : o ≠ .stuck) :
    ∃ block F, o = .ok block ∧ Extends m m' ∧ Book old root pid (hand ∪ F) m' ∧
      (∀ a ∈ F, a ∉ hand) ∧ BlockOver root m' block F := by
  have hnone : ∀ {t : Machine}, Extends m t → Book old root pid hand t →
      ∃ block F, (.ok none : Outcome KernelError (Option Block)) = .ok block ∧ Extends m t ∧
        Book old root pid (hand ∪ F) t ∧ (∀ a ∈ F, a ∉ hand) ∧ BlockOver root t block F := by
    intro t hext hbook
    exact ⟨none, ∅, rfl, hext, by rwa [Set.union_empty], fun a ha => ha.elim, rfl⟩
  unfold Memory.malloc at hrun
  split at hrun
  · cases hrun
    exact hnone (extends_isEffect.refl m) h
  split at hrun
  · obtain ⟨ok, m₁, hheap, hrest⟩ := cacheAllocate_neverFails.bind_run hrun ho
    have h₁ := h.cacheAllocate hheap
    have hext := extends_cacheAllocate.of_eq hheap (by simp)
    cases ok with
    | true =>
      cases hrest
      exact ⟨some .slab, ∅, rfl, hext, by rwa [Set.union_empty], fun a ha => ha.elim, rfl⟩
    | false =>
      cases hrest
      exact hnone hext h₁
  · unfold allocateLarge at hrun
    split at hrun
    · cases hrun
      exact hnone (extends_isEffect.refl m) h
    rcases Prog.attempt_run hrun ho with ⟨virt, m₁, hmem, hrest⟩ | ⟨e, m₁, hmem, hrest⟩
    · obtain ⟨hext, hcases⟩ := h.allocateKernel rfl hmem (by simp)
      cases hrest
      rcases hcases with ⟨_, herr, -⟩ | ⟨virt', F, hok, hbook, hnew, hblock⟩
      · cases herr
      · obtain rfl := Outcome.ok.inj hok
        refine ⟨_, F, rfl, hext, hbook, hnew, ?_⟩
        rw [largePages]
        exact hblock
    · obtain ⟨hext, hcases⟩ := h.allocateKernel rfl hmem (by simp)
      cases hrest
      rcases hcases with ⟨_, -, hbook⟩ | ⟨_, _, hok, -⟩
      · exact hnone hext hbook
      · cases hok

theorem freeBlock {block : Option Block} {F : Set Nat} {o : Outcome KernelError Unit}
    (h : Book old root pid hand m) (hblock : BlockOver root m block F) (hin : ∀ a ∈ F, a ∈ hand)
    (hrun : Memory.freeBlock block m = (o, m')) (ho : o ≠ .stuck) :
    o = .ok () ∧ Book old root pid (hand \ F) m' := by
  rcases block with _ | _ | ⟨virt, pages⟩
  · cases hrun
    rw [hblock, Set.sdiff_empty]
    exact ⟨rfl, h⟩
  · cases hrun
    rw [hblock, Set.sdiff_empty]
    exact ⟨rfl, h⟩
  · obtain ⟨phys, rfl, hpos, haligned, hpages, hkernel, hpd⟩ := hblock
    rcases Prog.bind_run hrun ho with ⟨phys', m₁, hread, hrest⟩ | ⟨e, hread, -⟩
    · -- The address of the block translates to its first frame.
      obtain ⟨rfl, rfl⟩ : phys' = phys ∧ m₁ = m := by
        have hfirst := hpages 0 (le_refl 0) hpos
        have hslot := (hkernel 0 hpos).1
        have hpd₀ := hpd 0 hpos
        rw [zero_mul, add_zero] at hfirst hslot hpd₀
        rw [← walk_eq_holder hpd₀] at hfirst
        obtain ⟨e, he, hframe⟩ := Option.map_eq_some_iff.1 hfirst
        unfold vmmGetPhysicalAddress at hread
        rw [Prog.get_bind_apply, walk_kernel (s := root) hslot hpd₀, he] at hread
        obtain ⟨hphys, rfl⟩ := Prod.mk.inj hread
        refine ⟨?_, rfl⟩
        rw [← Outcome.ok.inj hphys]
        omega
      obtain ⟨m₂, hunmap, h₂, hlast⟩ :=
        Prog.bind_done hrest ho fun _ _ => h.hideLoop hin hkernel hpd hpages
      obtain ⟨_, m₃, hfree, hend⟩ := (pmmFreeFrames_neverFails _ _).bind_run hlast ho
      have h₃ := h₂.free hin hfree
      rcases Prog.attempt_run hend ho with ⟨_, m₄, hregion, hend⟩ | ⟨e, m₄, hregion, hend⟩
      · cases hend
        exact ⟨rfl, h₃.freeRegion (.inl rfl) hregion⟩
      · cases hend
        exact ⟨rfl, h₃.freeRegion (.inl rfl) hregion⟩
    · obtain ⟨_, hok⟩ := vmmGetPhysicalAddress_ok virt m
      rw [hok] at hread
      cases hread

end Book

theorem BlockOver.frame {block : Block}
    (h : BlockOver root m (some block) F) {p : Nat} (hp : block.hasPage p) :
    ∃ a ∈ F, m.holder root (.page p) = some a := by
  rcases block with _ | ⟨virt, pages⟩
  · exact hp.elim
  · obtain ⟨phys, rfl, -, -, hpages, -, -⟩ := h
    obtain ⟨k, hk, rfl⟩ := hp
    refine ⟨_, ⟨k, hk, rfl⟩, ?_⟩
    rw [← pageOf_add_mul]
    exact hpages k (Nat.zero_le k) hk

theorem BlockOver.freeOther {block other : Option Block}
    (h : BlockOver root m block F) (hother : BlockOver root m other G)
    (happart : ∀ a ∈ F, a ∉ G) (hfree : freeBlock block m = (.ok (), m')) :
    BlockOver root m' other G := by
  rcases block with _ | block
  · cases hfree
    exact hother
  rcases other with _ | _ | ⟨virt, pages⟩
  · exact hother
  · exact hother
  · obtain ⟨phys, rfl, hpos, haligned, hpages, hkernel, hpd⟩ := hother
    have hgrow := (onlyKernelGrows.free block).of_eq hfree (by simp)
    refine ⟨phys, rfl, hpos, haligned, ?_, hkernel.mono hgrow.base, hpd⟩
    intro k hlo hk
    have hshown := hpages k hlo hk
    rw [← walk_eq_holder (hpd k hk)] at hshown ⊢
    rw [free_ok hfree root _ (hpd k hk), hshown]
    -- A page of both blocks would show a frame of both.
    intro hp
    obtain ⟨a, ha, hholder⟩ := h.frame hp
    rw [← walk_eq_holder (hpd k hk), hshown] at hholder
    cases hholder
    exact happart _ ha ⟨k, hk, rfl⟩

/-! ## Lists of blocks -/

/-- The frames of live blocks, each with frames of its own. -/
inductive Held (root : Nat) (m : Machine) : List (Option Block) → Set Nat → Prop where
  | nil : Held root m [] ∅
  | cons {block : Option Block} {rest : List (Option Block)} {F G : Set Nat}
      (block_over : BlockOver root m block F) (rest_held : Held root m rest G)
      (apart : ∀ a ∈ F, a ∉ G) : Held root m (block :: rest) (F ∪ G)

theorem Held.extends (h : Extends m m') (hbase : m.kernel.currentBase ≤ m'.kernel.currentBase)
    (hheld : Held root m blocks G) : Held root m' blocks G := by
  induction hheld with
  | nil => exact nil
  | cons hover _ happart ih => exact cons (hover.extends h hbase) ih happart

theorem Held.freeOther {block : Option Block} (hheld : Held root m blocks G)
    (h : BlockOver root m block F) (happart : ∀ a ∈ F, a ∉ G)
    (hfree : freeBlock block m = (.ok (), m')) : Held root m' blocks G := by
  induction hheld with
  | nil => exact nil
  | cons hover _ hown ih =>
    exact cons (h.freeOther hover (fun a ha hin => happart a ha (.inl hin)) hfree)
      (ih fun a ha hin => happart a ha (.inr hin)) hown

/-- Free the blocks of the segments. -/
def freeBlocks : List (Option Block) → Vmm Unit
  | [] => pure ()
  | block :: rest => do
    freeBlock block
    freeBlocks rest

theorem Book.freeBlocks {old hand : Set Nat} {pid : Nat} {o : Outcome KernelError Unit}
    (h : Book old root pid (hand ∪ G) m) (hheld : Held root m blocks G)
    (hnew : ∀ a ∈ G, a ∉ hand) (hrun : Memory.freeBlocks blocks m = (o, m')) (ho : o ≠ .stuck) :
    o = .ok () ∧ Book old root pid hand m' := by
  induction blocks generalizing G m with
  | nil =>
    cases hheld
    cases hrun
    rw [Set.union_empty] at h
    exact ⟨rfl, h⟩
  | cons block rest ih =>
    cases hheld with
    | @cons _ _ F G hover hrest happart =>
      obtain ⟨m₁, hfree, h₁, hrun⟩ :=
        Prog.bind_done hrun ho fun _ _ => h.freeBlock hover (fun a ha => .inr (.inl ha))
      have hset : (hand ∪ (F ∪ G)) \ F = hand ∪ G := by
        ext a
        constructor
        · rintro ⟨ha | ha | ha, hout⟩
          · exact .inl ha
          · exact absurd ha hout
          · exact .inr ha
        · rintro (ha | ha)
          · exact ⟨.inl ha, fun hin => hnew a (.inl hin) ha⟩
          · exact ⟨.inr (.inr ha), fun hin => happart a hin ha⟩
      rw [hset] at h₁
      exact ih h₁ (hrest.freeOther hover happart hfree) (fun a ha => hnew a (.inr ha)) hrun

end UnDOS.Memory
