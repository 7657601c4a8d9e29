import UnDOS.Memory.Image
import UnDOS.Memory.Ownership

/-!
# What the Memory Manager Leaves Behind

Every routine that works on the address space of a process leaves its ledger balanced:
the frames it has taken are behind pages and tables, or back in the pool, whether the
routine succeeds or fails.
-/

namespace UnDOS.Memory

open UnDOS.Lib
open UnDOS.Kernel (KernelError)

/-- The address space of a process whose directory is `root`: its regions start at pages
and end below the kernel half. -/
structure SpaceOf (root : Nat) (as : AddressSpace) : Prop where
  root : as.translationRoot = root
  limit : as.limit = kernelSplit * 1024 * pageSize
  base : as.currentBase % pageSize = 0
  regions : ∀ v ∈ as.vads.inorder, v.start % pageSize = 0 ∧ v.stop ≤ as.limit

structure Book (old : Set Nat) (root pid : Nat) (hand : Set Nat) (m : Machine) : Prop where
  zero : 0 ∈ old
  nonzero : root ≠ 0
  space : SpaceOf root (m.spaces pid)
  owns : Owns old root hand m
  high : KernelHigh m
  aligned : m.kernel.currentBase % pageSize = 0
  clear : ∀ p, pageOf m.kernel.currentBase ≤ p → pdIndex p < tempPdSlot →
    m.holder root (.page p) = none

theorem pageOf_next (a : Nat) : pageOf (a + pageSize) = pageOf a + 1 :=
  Nat.add_div_right a (by decide)

/-- The pages of a run have the frames of a run behind them. -/
def PagesOver (root virt phys lo hi : Nat) (m : Machine) : Prop :=
  ∀ k, lo ≤ k → k < hi →
    m.holder root (.page (pageOf (virt + k * pageSize))) = some (phys + k * pageSize)

variable {m m' : Machine}

theorem allocateRegion_user_ok {pid size virt : Nat} {flags : ProtectFlags}
    (h : allocateRegion (.user pid) size flags m = (.ok virt, m')) :
    virt + alignUp size ≤ (m.spaces pid).limit := by
  obtain ⟨vad, m₁, hreserve, hpure⟩ := Prog.bind_eq_ok.1 h
  obtain ⟨hvirt, rfl⟩ := Prod.mk.inj hpure
  obtain rfl := Outcome.ok.inj hvirt
  rcases reserveVad_cases hreserve (by simp) with ⟨_, herr, _⟩ | ⟨vad', m₂, hok, hgrow, hinsert⟩
  · cases herr
  · obtain rfl := Outcome.ok.inj hok
    unfold insertVad at hinsert
    dsimp only [Machine.space] at hinsert
    rw [hgrow.spaces] at hinsert
    split at hinsert
    · rename_i hroom
      obtain ⟨hvad, -⟩ := Prod.mk.inj hinsert
      obtain rfl := Outcome.ok.inj hvad
      simp only [AddressSpace.hasRoom, decide_eq_true_eq] at hroom
      dsimp only
      omega
    · cases (Prod.mk.inj hinsert).1

theorem union_sdiff_run {hand F : Set Nat} (h : ∀ a ∈ F, a ∉ hand) : (hand ∪ F) \ F = hand :=
  Set.union_sdiff_cancel_right fun a ⟨hhand, hin⟩ => h a hin hhand

/-! ## Pages that a routine does not touch -/

theorem vmmMapPage_other {root virt phys : Nat} {flags : ProtectFlags} {ok : Bool}
    (hreach : Reaches root m.current (pageOf virt))
    (hrun : vmmMapPage virt phys flags m = (.ok ok, m')) {p : Nat} (hp : p ≠ pageOf virt)
    (hpd : pdIndex p < tempPdSlot) : m'.holder root (.page p) = m.holder root (.page p) := by
  obtain ⟨hasTable, m₁, htable, hcases⟩ := vmmMapPage_slots hreach hrun
  have hsame : m₁.holder root (.page p) = m.holder root (.page p) := by
    rw [← walk_eq_holder hpd, ← walk_eq_holder hpd, (ensureTable_ok htable).2.1 root p hpd]
  rcases hcases with ⟨-, rfl⟩ | ⟨-, -, -, -, hother⟩
  · exact hsame
  · rw [hother (.page p) fun heq => hp (Slot.page.inj heq), hsame]

theorem vmmUnmapPage_other {root virt : Nat}
    (hrun : vmmUnmapPage virt m = (.ok (), m')) {p : Nat} (hp : p ≠ pageOf virt)
    (hpd : pdIndex p < tempPdSlot) : m'.holder root (.page p) = m.holder root (.page p) := by
  rw [← walk_eq_holder hpd, ← walk_eq_holder hpd,
    (vmmUnmapPage_ok hrun).2.2 root p hpd fun hboth => hp hboth.1]

theorem Extends.holder {root p a : Nat} (h : Extends m m')
    (hpd : pdIndex p < tempPdSlot) (ha : m.holder root (.page p) = some a) :
    m'.holder root (.page p) = some a := by
  rw [← walk_eq_holder hpd] at ha ⊢
  obtain ⟨e, he, rfl⟩ := Option.map_eq_some_iff.1 ha
  rw [h root p e hpd he]
  rfl

theorem low_lt_temp {p : Nat} (h : pdIndex p < kernelSplit) : pdIndex p < tempPdSlot :=
  lt_trans h (by decide)

theorem KernelHigh.ne_of_low (h : KernelHigh m) {p q : Nat}
    (hlow : pdIndex q < kernelSplit) (hp : pageOf m.kernel.currentBase ≤ p) : p ≠ q := by
  unfold KernelHigh pdIndex pageOf pageSize at *
  omega

namespace Book

variable {old hand : Set Nat} {root pid : Nat} {m m' : Machine}

theorem raise (h : Book old root pid hand m) (hused : m'.used = m.used)
    (hhalf : m'.half root = m.half root) (hspace : m'.spaces pid = m.spaces pid)
    (hbase : m.kernel.currentBase ≤ m'.kernel.currentBase)
    (haligned : m'.kernel.currentBase % pageSize = 0) : Book old root pid hand m' := by
  refine ⟨h.zero, h.nonzero, by rw [hspace]; exact h.space, h.owns.congr hused hhalf,
    le_trans h.high hbase, haligned, ?_⟩
  intro p hp hpd
  have hle : pageOf m.kernel.currentBase ≤ p := le_trans (Nat.div_le_div_right hbase) hp
  dsimp only [Machine.holder]
  rw [hhalf]
  exact h.clear p hle hpd

theorem congr (h : Book old root pid hand m) (hused : m'.used = m.used)
    (hhalf : m'.half root = m.half root) (hspace : m'.spaces pid = m.spaces pid)
    (hbase : m'.kernel.currentBase = m.kernel.currentBase) : Book old root pid hand m' :=
  h.raise hused hhalf hspace hbase.symm.le (by rw [hbase]; exact h.aligned)

theorem current (h : Book old root pid hand m) (c : Nat) :
    Book old root pid hand { m with current := c } := h.congr rfl rfl rfl rfl

theorem setUserSpace (h : Book old root pid hand m) {as : AddressSpace} (hspace : SpaceOf root as) :
    Book old root pid hand (m.setSpace (.user pid) as) := by
  refine ⟨h.zero, h.nonzero, ?_, h.owns.congr rfl rfl, h.high, h.aligned, h.clear⟩
  have hself := space_setSpace_self m (.user pid) as
  dsimp only [Machine.space] at hself
  rw [hself]
  exact hspace

theorem of_owns (h : Book old root pid hand m) {hand' : Set Nat} (howns : Owns old root hand' m')
    (hsame : SameSpaces m m')
    (hpages : ∀ p, pageOf m.kernel.currentBase ≤ p → pdIndex p < tempPdSlot →
      m'.holder root (.page p) = m.holder root (.page p)) : Book old root pid hand' m' := by
  refine ⟨h.zero, h.nonzero, by rw [hsame.spaces]; exact h.space, howns, ?_, ?_, ?_⟩
  · unfold KernelHigh
    rw [hsame.kernel]
    exact h.high
  · rw [hsame.kernel]
    exact h.aligned
  · intro p hp hpd
    rw [hsame.kernel] at hp
    rw [hpages p hp hpd]
    exact h.clear p hp hpd

/-! ## The hardware layer -/

variable {count phys virt a size page address : Nat} {flags : ProtectFlags} {ref : SpaceRef}
  {o : Outcome KernelError Unit}

theorem allocate (h : Book old root pid hand m)
    (hrun : pmmAllocateFrames count m = (.ok phys, m')) : (phys = 0 ∧ m' = m) ∨
      (phys ≠ 0 ∧ Book old root pid (hand ∪ frameRun phys count) m' ∧
        ∀ a ∈ frameRun phys count, a ∉ hand) := by
  have hhalf := (pmmAllocateFrames_ok hrun).2
  have hsame := (sameSpaces_shape.pmmAllocateFrames count).of_eq hrun (by simp)
  rcases h.owns.allocate h.zero hrun with hfail | ⟨hphys, howns, hnew⟩
  · exact .inl hfail
  · refine .inr ⟨hphys, h.of_owns howns hsame ?_, hnew⟩
    intro p _ _
    dsimp only [Machine.holder]
    rw [hhalf]

theorem free (h : Book old root pid hand m) (hhand : ∀ a ∈ frameRun phys count, a ∈ hand)
    (hrun : pmmFreeFrames phys count m = (.ok (), m')) :
    Book old root pid (hand \ frameRun phys count) m' := by
  have howns := h.owns.free hhand hrun
  cases hrun
  exact h.of_owns howns ⟨rfl, rfl⟩ fun _ _ _ => rfl

theorem mapPage {ok : Bool} (h : Book old root pid hand m)
    (hcur : m.current = root) (hlow : pdIndex (pageOf virt) < kernelSplit) (hphys : phys ∈ hand)
    (hrun : vmmMapPage virt phys flags m = (.ok ok, m')) :
    Book old root pid (if ok then hand \ {phys} else hand) m' := by
  have hreach : Reaches root m.current (pageOf virt) := fun _ => hcur
  have hsame := (sameSpaces_shape.vmmMapPage virt phys flags).of_eq hrun (by simp)
  apply h.of_owns (h.owns.mapPage h.zero hreach hphys hrun) hsame
  intro p hp hpd
  exact vmmMapPage_other hreach hrun (h.high.ne_of_low hlow hp) hpd

theorem unmapPage (h : Book old root pid hand m) (hcur : m.current = root)
    (hlow : pdIndex (pageOf virt) < kernelSplit) (ha : m.holder root (.page (pageOf virt)) = some a)
    (hrun : vmmUnmapPage virt m = (.ok (), m')) : Book old root pid (insert a hand) m' := by
  have hsame := (sameSpaces_shape.vmmUnmapPage virt).of_eq hrun (by simp)
  apply h.of_owns (h.owns.unmapPage (fun _ => hcur) hlow ha hrun) hsame
  intro p hp hpd
  exact vmmUnmapPage_other hrun (h.high.ne_of_low hlow hp) hpd

theorem kernelPages {ok : Bool} (h : Book old root pid hand m)
    (hkernel : ¬pdIndex (pageOf virt) < kernelSplit)
    (hbelow : pageOf virt < pageOf m.kernel.currentBase)
    (hrun : vmmMapPage virt phys flags m = (.ok ok, m')) {hand' : Set Nat}
    (howns : Owns old root hand' m') : Book old root pid hand' m' := by
  have hsame := (sameSpaces_shape.vmmMapPage virt phys flags).of_eq hrun (by simp)
  apply h.of_owns howns hsame
  intro p hp hpd
  exact vmmMapPage_other (Reaches.of_kernel root _ hkernel) hrun (by omega) hpd

theorem mapKernelFrame (h : Book old root pid hand m)
    (hkernel : ¬pdIndex (pageOf virt) < kernelSplit)
    (hbelow : pageOf virt < pageOf m.kernel.currentBase) (hphys : phys ∈ hand)
    (hrun : vmmMapPage virt phys flags m = (.ok true, m')) : Book old root pid (hand \ {phys}) m' :=
  h.kernelPages hkernel hbelow hrun
    (h.owns.mapPage h.zero (Reaches.of_kernel root _ hkernel) hphys hrun)

theorem mapKernelPage {ok : Bool}
    (h : Book old root pid hand m) (hkernel : ¬pdIndex (pageOf virt) < kernelSplit)
    (hbelow : pageOf virt < pageOf m.kernel.currentBase)
    (hrun : vmmMapPage virt phys flags m = (.ok ok, m')) : Book old root pid hand m' :=
  h.kernelPages hkernel hbelow hrun (h.owns.mapKernelPage h.zero hkernel hrun)

theorem unmapKernelPage (h : Book old root pid hand m)
    (hkernel : ¬pdIndex (pageOf virt) < kernelSplit)
    (hhand : ∀ a, m.holder root (.page (pageOf virt)) = some a → a ∈ hand)
    (hbelow : pageOf virt < pageOf m.kernel.currentBase)
    (hrun : vmmUnmapPage virt m = (.ok (), m')) : Book old root pid hand m' := by
  have hsame := (sameSpaces_shape.vmmUnmapPage virt).of_eq hrun (by simp)
  apply h.of_owns (h.owns.unmapKernelPage hkernel hhand hrun) hsame
  intro p hp hpd
  exact vmmUnmapPage_other hrun (by omega) hpd

/-! ## The kernel heap -/

theorem placeSlab (h : Book old root pid hand m) (hrun : Memory.placeSlab m = (.ok virt, m')) :
    Book old root pid hand m' ∧ ¬pdIndex (pageOf virt) < kernelSplit ∧
      pageOf virt < pageOf m'.kernel.currentBase ∧
      (pdIndex (pageOf virt) < tempPdSlot → m'.holder root (.page (pageOf virt)) = none) := by
  obtain ⟨rfl, rfl⟩ := placeSlab_ok hrun
  refine ⟨h.raise rfl rfl rfl ?_ ?_, h.high.slot (Nat.le_add_right _ _), ?_, ?_⟩
  · dsimp only
    omega
  · rw [Nat.add_mod_right, Nat.add_mod_right]
    exact h.aligned
  · rw [pageOf_next (m.kernel.currentBase + pageSize)]
    exact Nat.lt_succ_self _
  · intro hpd
    exact h.clear _ (by rw [pageOf_next]; exact Nat.le_succ _) hpd

theorem cacheAllocate {ok : Bool} (h : Book old root pid hand m)
    (hrun : Memory.cacheAllocate m = (.ok ok, m')) : Book old root pid hand m' := by
  unfold Memory.cacheAllocate at hrun
  rw [Prog.get_bind_apply] at hrun
  rcases hheap : m.heap with _ | ⟨answer, rest⟩
  · rw [hheap] at hrun
    cases hrun
    exact h
  rw [hheap] at hrun
  dsimp only at hrun
  rw [Prog.modify_bind_apply] at hrun
  have h₀ : Book old root pid hand { m with heap := rest } := h.congr rfl rfl rfl rfl
  cases answer with
  | reuse =>
    cases hrun
    exact h₀
  | grow =>
    obtain ⟨phys, m₁, hpmm, hrun⟩ := Prog.bind_eq_ok.1 hrun
    rcases h₀.allocate hpmm with ⟨rfl, rfl⟩ | ⟨hphys, h₁, hnew⟩
    · cases hrun
      exact h₀
    rw [if_neg hphys] at hrun
    generalize hgen : Memory.placeSlab = place at hrun
    rw [Prog.bind_eq_ok] at hrun
    obtain ⟨virt, m₂, hplace, hrun⟩ := hrun
    rw [← hgen] at hplace
    obtain ⟨h₂, hkernel, hbelow, hfree⟩ := h₁.placeSlab hplace
    rw [Prog.bind_eq_ok] at hrun
    obtain ⟨mapped, m₃, hmap, hrun⟩ := hrun
    rw [Prog.get_bind_apply] at hrun
    obtain ⟨-, hpd, -⟩ := vmmMapPage_ok hmap
    rcases hw : m₃.walk m₃.current (pageOf virt) with _ | e
    · rw [hw] at hrun
      simp at hrun
    rw [hw] at hrun
    cases hrun
    cases mapped with
    | false =>
      -- The page was free, so only a missing table can have stopped the mapping.
      obtain ⟨_, m₄, htable, hcases⟩ := vmmMapPage_slots (Reaches.of_kernel root _ hkernel) hmap
      rcases hcases with ⟨-, rfl⟩ | ⟨htrue, -⟩
      · have hnone := hfree hpd
        rw [walk_kernel hkernel hpd, (ensureTable_ok htable).2.1 root _ hpd] at hw
        rw [← walk_eq_holder hpd, hw] at hnone
        cases hnone
      · cases htrue
    | true =>
      have hmapped := h₂.mapKernelFrame hkernel hbelow (.inr ⟨0, by decide, by omega⟩) hmap
      rw [frameRun_one, Set.union_singleton, Set.insert_sdiff_self_of_notMem] at hmapped
      · exact hmapped
      · exact hnew phys ⟨0, by decide, by omega⟩

/-! ## Regions -/

theorem insertVad
    {backing : Option BackingKind} {o : Outcome KernelError Vad} (h : Book old root pid hand m)
    (href : ref = .kernel ∨ ref = .user pid)
    (hrun : Memory.insertVad ref size flags backing m = (o, m')) : Book old root pid hand m' := by
  unfold Memory.insertVad at hrun
  dsimp only at hrun
  split at hrun
  · rename_i hroom
    cases hrun
    rcases href with rfl | rfl
    · refine h.raise rfl rfl rfl (Nat.le_add_right _ _) ?_
      dsimp only [Machine.space, Machine.setSpace]
      rw [Nat.add_mod, alignUp_mod, h.aligned]
      rfl
    · have hle := le_alignUp size
      dsimp only [Machine.space] at hroom ⊢
      simp only [AddressSpace.hasRoom, decide_eq_true_eq] at hroom
      refine h.setUserSpace ⟨h.space.root, h.space.limit, ?_, ?_⟩
      · rw [Nat.add_mod, alignUp_mod, h.space.base]
        rfl
      · intro v hv
        rcases List.mem_cons.1 ((VadTree.inorder_insert_perm _ _).mem_iff.1 hv) with rfl | hv
        · exact ⟨h.space.base, by dsimp only; omega⟩
        · exact h.space.regions v hv
  · cases hrun
    exact h

theorem reserveVad
    {backing : Option BackingKind} {o : Outcome KernelError Vad} (h : Book old root pid hand m)
    (href : ref = .kernel ∨ ref = .user pid)
    (hrun : Memory.reserveVad ref size flags backing m = (o, m')) (ho : o ≠ .stuck) :
    Book old root pid hand m' := by
  by_cases hchecks : (m.space ref).reserveChecks size = true
  · obtain ⟨ok, m₁, hheap, hrest⟩ := reserveVad_checked hchecks hrun ho
    have h₁ := h.cacheAllocate hheap
    rcases hrest with rfl | ⟨-, hinsert⟩
    · exact h₁
    · exact h₁.insertVad href hinsert
  · rw [reserveVad_unchecked hchecks hrun]
    exact h

theorem allocateRegion {o : Outcome KernelError Nat} (h : Book old root pid hand m)
    (href : ref = .kernel ∨ ref = .user pid)
    (hrun : Memory.allocateRegion ref size flags m = (o, m')) (ho : o ≠ .stuck) :
    Book old root pid hand m' := by
  rcases Prog.bind_run hrun ho with ⟨vad, m₁, hreserve, hpure⟩ | ⟨e, hreserve, -⟩
  · cases hpure
    exact h.reserveVad href hreserve (by simp)
  · exact h.reserveVad href hreserve (by simp)

theorem freeRegion {addr : Nat}
    (h : Book old root pid hand m) (href : ref = .kernel ∨ ref = .user pid)
    (hrun : Memory.freeRegion ref addr m = (o, m')) : Book old root pid hand m' := by
  unfold Memory.freeRegion at hrun
  dsimp only at hrun
  split at hrun
  · cases hrun
    exact h
  · rename_i v hfind
    cases hrun
    rcases href with rfl | rfl
    · exact h.raise rfl rfl rfl le_rfl h.aligned
    · refine h.setUserSpace ⟨h.space.root, h.space.limit, h.space.base, ?_⟩
      intro w hw
      obtain ⟨a, b, hold, hnew⟩ := VadTree.inorder_remove hfind
      apply h.space.regions w
      dsimp only [Machine.space] at hold hnew hw
      rw [hold]
      rw [hnew] at hw
      rcases List.mem_append.1 hw with hw | hw
      · exact List.mem_append_left _ hw
      · exact List.mem_append_right _ (.tail _ hw)

/-! ## Mapping loops -/

theorem memsetPage (h : Book old root pid hand m)
    (hrun : Memory.memsetPage virt m = (.ok (), m')) : Book old root pid hand m' := by
  obtain ⟨e, -, rfl⟩ := memsetPage_ok hrun
  exact h.congr rfl rfl rfl rfl

theorem mapInitialized {o : Outcome KernelError Bool}
    (h : Book old root pid hand m) (hcur : m.current = root)
    (hlow : pdIndex (pageOf page) < kernelSplit) (hphys : phys ∈ hand)
    (hrun : Memory.mapInitialized page phys flags m = (o, m')) (ho : o ≠ .stuck) :
    ∃ ok, o = .ok ok ∧ Book old root pid (if ok then hand \ {phys} else hand) m' ∧
      m'.current = root ∧ (ok = true → m'.holder root (.page (pageOf page)) = some phys) := by
  have hmapped : ∀ {t t' : Machine} {f}, t.current = root →
      vmmMapPage page phys f t = (.ok true, t') →
      t'.holder root (.page (pageOf page)) = some phys := by
    intro t t' f ht hmap
    obtain ⟨_, _, -, hcases⟩ := vmmMapPage_slots (fun _ => ht) hmap
    rcases hcases with ⟨hfalse, -⟩ | ⟨-, -, -, hself, -⟩
    · cases hfalse
    · rw [hself, h.owns.aligned hphys]
  obtain ⟨ok, m₁, hmap, hrun⟩ := (vmmMapPage_neverFails _ _ _).bind_run hrun ho
  have h₁ := h.mapPage hcur hlow hphys hmap
  have hcur₁ : m₁.current = root := (vmmMapPage_ok hmap).1.current.trans hcur
  cases ok with
  | false =>
    cases hrun
    exact ⟨false, rfl, h₁, hcur₁, by simp⟩
  | true =>
    rw [if_pos rfl] at h₁
    obtain ⟨_, m₂, hclear, hrun⟩ := (memsetPage_neverFails _).bind_run hrun ho
    have h₂ := h₁.memsetPage hclear
    have hsame : m₂.holder root = m₁.holder root ∧ m₂.current = m₁.current := by
      obtain ⟨_, -, rfl⟩ := memsetPage_ok hclear
      exact ⟨rfl, rfl⟩
    have hself := hmapped hcur hmap
    rw [← hsame.1] at hself
    rw [← hsame.2] at hcur₁
    split at hrun
    · cases hrun
      exact ⟨true, rfl, h₂, hcur₁, fun _ => hself⟩
    · obtain ⟨_, m₃, hunmap, hrun⟩ := (vmmUnmapPage_neverFails _).bind_run hrun ho
      have h₃ := h₂.unmapPage hcur₁ hlow hself hunmap
      rw [Set.insert_sdiff_self_of_mem hphys] at h₃
      have hcur₃ : m₃.current = root := (vmmUnmapPage_ok hunmap).1.trans hcur₁
      rcases o with ok | e | _
      · exact ⟨ok, rfl, h₃.mapPage hcur₃ hlow hphys hrun,
          (vmmMapPage_ok hrun).1.current.trans hcur₃, fun htrue => hmapped hcur₃
            (htrue ▸ hrun)⟩
      · exact absurd hrun (vmmMapPage_neverFails _ _ _ _ _ _)
      · exact absurd rfl ho

/-- A loop that stops early has put the frames of its rounds, the others stay in the hand. -/
theorem allocateLoop
    {o : Outcome KernelError (Nat × Option KernelError)} (h : Book old root pid hand m)
    (hcur : m.current = root)
    (hlow : ∀ i < count, pdIndex (pageOf (virt + i * pageSize)) < kernelSplit)
    (hin : ∀ a ∈ frameRun phys count, a ∈ hand)
    (hrun : Prog.countTry count (allocatePage virt phys flags) m = (o, m')) (ho : o ≠ .stuck) :
    ∃ n f, o = .ok (n, f) ∧ n ≤ count ∧ (f = none → n = count) ∧
      Book old root pid (hand \ frameRun phys n) m' ∧ m'.current = root ∧
      PagesOver root virt phys 0 n m' := by
  obtain ⟨n, f, hf, ⟨hbook, hcur', hpages⟩, hle, hn⟩ := Prog.countTry_run
    (I := fun i t => Book old root pid (hand \ frameRun phys i) t ∧ t.current = root ∧
      PagesOver root virt phys 0 i t)
    ⟨by rw [← tailRun_zero, tailRun_self, Set.sdiff_empty]; exact h, hcur,
      fun k _ hk => absurd hk (Nat.not_lt_zero k)⟩ (by
      rintro i hi t ob t' ⟨hbook, hcur, hpages⟩ hbody hob
      rcases Prog.bind_run hbody hob with ⟨ok, t₁, hinit, hbody⟩ | ⟨e, hinit, -⟩
      · have hmem : phys + i * pageSize ∈ hand \ frameRun phys i := by
          refine ⟨hin _ ⟨i, hi, rfl⟩, ?_⟩
          rintro ⟨k, hk, heq⟩
          rw [frame_inj heq] at hk
          exact absurd hk (lt_irrefl k)
        obtain ⟨ok', hok, hbook₁, hcur₁, hself⟩ :=
          hbook.mapInitialized hcur (hlow i hi) hmem hinit (by simp)
        obtain rfl := Outcome.ok.inj hok
        obtain ⟨_, _, hstays, -⟩ := (Stays.refl t).mapInitialized hinit (by simp)
        cases ok with
        | true =>
          obtain ⟨rfl, rfl⟩ := Prod.mk.inj hbody
          rw [sdiff_frameRun_succ] at hbook₁
          refine ⟨fun _ => ⟨hbook₁, hcur₁, ?_⟩, by simp⟩
          intro k _ hk
          rcases Nat.lt_succ_iff_lt_or_eq.1 hk with hk | rfl
          · exact hstays.pages.holder (low_lt_temp (hlow k (lt_trans hk hi)))
              (hpages k (Nat.zero_le k) hk)
          · exact hself rfl
        | false =>
          cases hbody
          refine ⟨by simp, fun _ _ => ⟨hbook₁, hcur₁, ?_⟩⟩
          intro k _ hk
          exact hstays.pages.holder (low_lt_temp (hlow k (lt_trans hk hi)))
            (hpages k (Nat.zero_le k) hk)
      · obtain ⟨_, herr, -⟩ := (Stays.refl t).mapInitialized hinit (by simp)
        cases herr) hrun ho
  exact ⟨n, f, hf, hle, hn, hbook, hcur', hpages⟩

theorem unmapLoop {n : Nat}
    (h : Book old root pid (hand \ frameRun phys n) m) (hcur : m.current = root)
    (hlow : ∀ i < n, pdIndex (pageOf (virt + i * pageSize)) < kernelSplit)
    (hin : ∀ a ∈ frameRun phys n, a ∈ hand) (hpages : PagesOver root virt phys 0 n m)
    (hrun : Prog.forRange n (fun i => vmmUnmapPage (virt + i * pageSize)) m = (o, m'))
    (ho : o ≠ .stuck) : o = .ok () ∧ Book old root pid hand m' := by
  rw [← tailRun_zero] at h
  obtain ⟨rfl, hbook, -⟩ := Prog.forRange_run
    (I := fun j t => Book old root pid (hand \ tailRun phys j n) t ∧ t.current = root ∧
      PagesOver root virt phys j n t)
    ⟨h, hcur, hpages⟩ (by
      rintro j hj t ob t' ⟨hbook, hcur, hpages⟩ hbody hob
      rcases ob with _ | e | _
      · refine ⟨rfl, ?_, (vmmUnmapPage_ok hbody).1.trans hcur, ?_⟩
        · rw [← insert_sdiff_tailRun (hin _ ⟨j, hj, rfl⟩)]
          exact hbook.unmapPage hcur (hlow j hj) (hpages j (le_refl j) hj) hbody
        · intro k hk hkn
          rw [vmmUnmapPage_other hbody ?_ (low_lt_temp (hlow k hkn))]
          · exact hpages k (Nat.le_of_succ_le hk) hkn
          · rw [pageOf_add_mul, pageOf_add_mul]
            omega
      · exact absurd hbody (vmmUnmapPage_neverFails _ _ _ _)
      · exact absurd rfl hob) hrun ho
  rw [tailRun_self, Set.sdiff_empty] at hbook
  exact ⟨rfl, hbook⟩

/-- `allocate_memory`'s loop with its rollback: the frames are behind the pages, or all of
them are in hand again. -/
theorem allocatePages
    {o : Outcome KernelError Bool} (h : Book old root pid hand m) (hcur : m.current = root)
    (href : ref = .kernel ∨ ref = .user pid)
    (hlow : ∀ i < count, pdIndex (pageOf (virt + i * pageSize)) < kernelSplit)
    (hin : ∀ a ∈ frameRun phys count, a ∈ hand)
    (hrun : Memory.allocatePages ref virt phys count flags m = (o, m')) (ho : o ≠ .stuck) :
    ∃ ok, o = .ok ok ∧ Book old root pid (if ok then hand \ frameRun phys count else hand) m' := by
  obtain ⟨n, f, m₁, hloop, ⟨hle, hn, hbook, hcur₁, hpages⟩, hrun⟩ :=
    Prog.bind_returns_pair hrun ho fun _ _ => h.allocateLoop hcur hlow hin
  cases f with
  | none =>
    cases hrun
    rw [hn rfl] at hbook
    exact ⟨true, rfl, hbook⟩
  | some e =>
    obtain ⟨m₂, hundo, hback, hrun⟩ :=
      Prog.bind_done hrun ho fun _ _ =>
        hbook.unmapLoop hcur₁ (fun i hi => hlow i (by omega)) (fun a ⟨k, hk, heq⟩ => hin
          a ⟨k, by omega, heq⟩) hpages
    rcases Prog.attempt_run hrun ho with ⟨_, m₃, hfree, hrun⟩ | ⟨e', m₃, hfree, hrun⟩
    · cases hrun
      exact ⟨false, rfl, hback.freeRegion href hfree⟩
    · cases hrun
      exact ⟨false, rfl, hback.freeRegion href hfree⟩

theorem active (h : Book old root pid hand m) :
    (if decide ((m.space (.user pid)).translationRoot ≠ 0 ∧
        (m.space (.user pid)).translationRoot ≠ m.current) = true
      then (m.space (.user pid)).translationRoot else m.current) = root := by
  have hroot : (m.space (.user pid)).translationRoot = root := h.space.root
  rw [hroot]
  split
  · rfl
  · rename_i hswitch
    by_contra hne
    exact hswitch (decide_eq_true ⟨h.nonzero, fun heq => hne heq.symm⟩)

theorem low (h : Book old root pid hand m) (ha : a < (m.spaces pid).limit) :
    pdIndex (pageOf a) < kernelSplit := by
  rw [h.space.limit] at ha
  unfold pdIndex pageOf pageSize at *
  omega

theorem allocateMapped {o : Outcome KernelError Nat}
    (h : Book old root pid hand m) (hin : ∀ a ∈ frameRun phys count, a ∈ hand)
    (hrun : Memory.allocateMapped (.user pid) phys count flags m = (o, m')) (ho : o ≠ .stuck) :
    Book old root pid (hand \ frameRun phys count) m' := by
  rcases Prog.attempt_run hrun ho with ⟨virt, m₁, hregion, hrun⟩ | ⟨e, m₁, hregion, hrun⟩
  · have h₁ := h.allocateRegion (.inr rfl) hregion (by simp)
    have hlimit := allocateRegion_user_ok hregion
    rw [alignUp_mul_pageSize, h.space.limit, ← h₁.space.limit] at hlimit
    have hlow : ∀ i < count, pdIndex (pageOf (virt + i * pageSize)) < kernelSplit := by
      intro i hi
      have hmul : i * pageSize < count * pageSize := mul_lt_mul_of_pos_right hi (by decide)
      exact h₁.low (by omega)
    dsimp only at hrun
    rw [Prog.get_bind_apply] at hrun
    have hloop : ∀ {ol m₂}, withSpace (decide ((m₁.space (.user pid)).translationRoot ≠ 0 ∧
        (m₁.space (.user pid)).translationRoot ≠ m₁.current))
        (m₁.space (.user pid)).translationRoot
        (Memory.allocatePages (.user pid) virt phys count flags) m₁ = (ol, m₂) → ol ≠ .stuck →
        ∃ ok, ol = .ok ok ∧
          Book old root pid (if ok then hand \ frameRun phys count else hand) m₂ := by
      intro ol m₂ hspace hol
      obtain ⟨ob, m₃, hbody, hob, hback⟩ := withSpace_cases hspace hol
      obtain ⟨ok, rfl, hbook⟩ := (h₁.current _).allocatePages h₁.active (.inr rfl) hlow hin
        hbody hob
      rcases hback with ⟨_, c, hok, rfl, rfl⟩ | ⟨_, herr, -⟩
      · obtain rfl := Outcome.ok.inj hok
        exact ⟨ok, rfl, hbook.current c⟩
      · cases herr
    obtain ⟨ok, m₂, hspace, hbook, hrun⟩ := Prog.bind_returns hrun ho fun _ _ => hloop
    cases ok with
    | true =>
      cases hrun
      exact hbook
    | false =>
      obtain ⟨_, m₃, hfree, hrun⟩ := (pmmFreeFrames_neverFails _ _).bind_run hrun ho
      cases hrun
      exact hbook.free hin hfree
  · have h₁ := h.allocateRegion (.inr rfl) hregion (by simp)
    obtain ⟨_, m₂, hfree, hrun⟩ := (pmmFreeFrames_neverFails _ _).bind_run hrun ho
    cases hrun
    exact h₁.free hin hfree

theorem allocateMemory {o : Outcome KernelError Nat} (h : Book old root pid hand m)
    (hrun : Memory.allocateMemory (.user pid) size flags m = (o, m')) (ho : o ≠ .stuck) :
    Book old root pid hand m' := by
  unfold Memory.allocateMemory at hrun
  split at hrun
  · cases hrun
    exact h
  split at hrun
  · cases hrun
    exact h
  obtain ⟨phys, m₁, hpmm, hrest⟩ := (pmmAllocateFrames_neverFails _).bind_run hrun ho
  rcases h.allocate hpmm with ⟨rfl, rfl⟩ | ⟨hphys, h₁, hnew⟩
  · cases hrest
    exact h
  · rw [if_neg hphys] at hrest
    have hbook := h₁.allocateMapped (fun a ha => .inr ha) hrest ho
    rw [union_sdiff_run hnew] at hbook
    exact hbook

/-! ## Loops that take one frame for each page -/

theorem pageLoop {body : Nat → Vmm Unit} {page : Nat → Nat}
    {o : Outcome KernelError (Nat × Option KernelError)} (h : Book old root pid hand m)
    (hcur : m.current = root) (hlow : ∀ i < count, pdIndex (page i) < kernelSplit)
    (hbody : ∀ i < count, ∀ t o t', Book old root pid hand t → t.current = root →
      body i t = (o, t') → o ≠ .stuck → Book old root pid hand t' ∧ t'.current = root ∧
        Extends t t' ∧ (o = .ok () → ∃ a, t'.holder root (.page (page i)) = some a))
    (hrun : Prog.countTry count body m = (o, m')) (ho : o ≠ .stuck) :
    ∃ n f, o = .ok (n, f) ∧ n ≤ count ∧ Book old root pid hand m' ∧ m'.current = root ∧
      ∀ k < n, ∃ a, m'.holder root (.page (page k)) = some a := by
  obtain ⟨n, f, hf, ⟨hbook, hcur', hpages⟩, hle, -⟩ := Prog.countTry_run
    (I := fun i t => Book old root pid hand t ∧ t.current = root ∧
      ∀ k < i, ∃ a, t.holder root (.page (page k)) = some a)
    ⟨h, hcur, fun k hk => absurd hk (Nat.not_lt_zero k)⟩ (by
      rintro i hi t ob t' ⟨hbook, hcur, hpages⟩ hrun hob
      obtain ⟨hbook', hcur', hext, hself⟩ := hbody i hi t ob t' hbook hcur hrun hob
      have hkept : ∀ k < i, ∃ a, t'.holder root (.page (page k)) = some a := by
        intro k hk
        obtain ⟨a, ha⟩ := hpages k hk
        exact ⟨a, hext.holder (low_lt_temp (hlow k (lt_trans hk hi))) ha⟩
      refine ⟨fun hok => ⟨hbook', hcur', ?_⟩, fun _ _ => ⟨hbook', hcur', hkept⟩⟩
      intro k hk
      rcases Nat.lt_succ_iff_lt_or_eq.1 hk with hk | rfl
      · exact hkept k hk
      · exact hself hok) hrun ho
  exact ⟨n, f, hf, hle, hbook, hcur', hpages⟩

theorem holder_ne_zero {p : Nat} (h : Book old root pid hand m)
    (hlow : pdIndex p < kernelSplit) (ha : m.holder root (.page p) = some a) : a ≠ 0 := by
  rintro rfl
  exact (h.owns.held (.page p) hlow 0 ha).2 h.zero

theorem physical (hcur : m.current = root)
    (hlow : pdIndex (pageOf page) < kernelSplit) (haligned : page % pageSize = 0)
    (ha : m.holder root (.page (pageOf page)) = some a)
    (hrun : vmmGetPhysicalAddress page m = (.ok phys, m')) : phys = a ∧ m' = m := by
  rw [← walk_eq_holder (low_lt_temp hlow)] at ha
  obtain ⟨e, he, rfl⟩ := Option.map_eq_some_iff.1 ha
  unfold vmmGetPhysicalAddress at hrun
  rw [Prog.get_bind_apply, hcur, he] at hrun
  obtain ⟨hphys, rfl⟩ := Prod.mk.inj hrun
  exact ⟨by rw [← Outcome.ok.inj hphys, haligned, add_zero], rfl⟩

theorem unmapAndFree (h : Book old root pid hand m)
    (hcur : m.current = root) (hlow : pdIndex (pageOf page) < kernelSplit)
    (haligned : page % pageSize = 0) (ha : m.holder root (.page (pageOf page)) = some a)
    (hrun : Memory.unmapAndFree page m = (o, m')) (ho : o ≠ .stuck) :
    o = .ok () ∧ Book old root pid hand m' ∧ m'.current = root ∧
      ∀ p, p ≠ pageOf page → pdIndex p < tempPdSlot →
        m'.holder root (.page p) = m.holder root (.page p) := by
  rcases Prog.bind_run hrun ho with ⟨phys, m₁, hphys, hrest⟩ | ⟨e, hphys, -⟩
  · obtain ⟨rfl, rfl⟩ := physical hcur hlow haligned ha hphys
    obtain ⟨_, m₂, hunmap, hlast⟩ := (vmmUnmapPage_neverFails _).bind_run hrest ho
    have h₂ := h.unmapPage hcur hlow ha hunmap
    have hfree : pmmFreeFrames phys 1 m₂ = (.ok (), m') := by
      cases hlast
      rfl
    have h₃ := h₂.free (by rw [frameRun_one]; rintro b rfl; exact Set.mem_insert _ _) hfree
    rw [frameRun_one, Set.insert_sdiff_self_of_notMem] at h₃
    · cases hlast
      refine ⟨rfl, h₃, (vmmUnmapPage_ok hunmap).1.trans hcur, ?_⟩
      intro p hp hpd
      exact vmmUnmapPage_other hunmap hp hpd
    · intro hin
      exact (h.owns.inHand phys hin).2.2 (.page (pageOf page)) hlow ha
  · obtain ⟨phys, hread⟩ := vmmGetPhysicalAddress_ok page m
    rw [hread] at hphys
    cases hphys

theorem undoLoop {undo : Nat → Vmm Unit} {n : Nat}
    (h : Book old root pid hand m) (hcur : m.current = root)
    (hlow : ∀ i < n, pdIndex (pageOf (address + i * pageSize)) < kernelSplit)
    (hpages : ∀ k < n, ∃ a, m.holder root (.page (pageOf (address + k * pageSize))) = some a)
    (hundo : ∀ i < n, ∀ t o t' a, Book old root pid hand t → t.current = root →
      t.holder root (.page (pageOf (address + i * pageSize))) = some a →
      undo i t = (o, t') → o ≠ .stuck → o = .ok () ∧ Book old root pid hand t' ∧ t'.current = root ∧
        ∀ p, p ≠ pageOf (address + i * pageSize) → pdIndex p < tempPdSlot →
          t'.holder root (.page p) = t.holder root (.page p))
    (hrun : Prog.forRange n undo m = (o, m')) (ho : o ≠ .stuck) :
    o = .ok () ∧ Book old root pid hand m' := by
  obtain ⟨rfl, hbook, -⟩ := Prog.forRange_run
    (I := fun j t => Book old root pid hand t ∧ t.current = root ∧ ∀ k, j ≤ k → k < n →
      ∃ a, t.holder root (.page (pageOf (address + k * pageSize))) = some a)
    ⟨h, hcur, fun k _ hk => hpages k hk⟩ (by
      rintro j hj t ob t' ⟨hbook, hcur, hpages⟩ hbody hob
      obtain ⟨a, ha⟩ := hpages j (le_refl j) hj
      obtain ⟨rfl, hbook', hcur', hother⟩ := hundo j hj t ob t' a hbook hcur ha hbody hob
      refine ⟨rfl, hbook', hcur', ?_⟩
      intro k hk hkn
      rw [hother _ ?_ (low_lt_temp (hlow k hkn))]
      · exact hpages k (Nat.le_of_succ_le hk) hkn
      · rw [pageOf_add_mul, pageOf_add_mul]
        omega) hrun ho
  exact ⟨rfl, hbook⟩

theorem mapFixedPage {i : Nat} (h : Book old root pid hand m) (hcur : m.current = root)
    (hlow : pdIndex (pageOf (address + i * pageSize)) < kernelSplit)
    (hrun : Memory.mapFixedPage address flags i m = (o, m')) (ho : o ≠ .stuck) :
    Book old root pid hand m' ∧ m'.current = root ∧
      (o = .ok () → ∃ a, m'.holder root (.page (pageOf (address + i * pageSize))) = some a) := by
  unfold Memory.mapFixedPage at hrun
  obtain ⟨present, hread⟩ := vmmGetPhysicalAddress_ok (address + i * pageSize) m
  rw [Prog.bind_ok hread] at hrun
  split at hrun
  · cases hrun
    exact ⟨h, hcur, by simp⟩
  obtain ⟨phys, m₁, hpmm, hrest⟩ := (pmmAllocateFrames_neverFails _).bind_run hrun ho
  rcases h.allocate hpmm with ⟨rfl, rfl⟩ | ⟨hphys, h₁, hnew⟩
  · cases hrest
    exact ⟨h, hcur, by simp⟩
  rw [if_neg hphys] at hrest
  have hcur₁ : m₁.current = root := (pmmAllocateFrames_ok hpmm).1.current.trans hcur
  have hmem : phys ∈ hand ∪ frameRun phys 1 := .inr ⟨0, by decide, by omega⟩
  obtain ⟨ok, m₂, hinit, ⟨h₂, hcur₂, hself⟩, hlast⟩ :=
    Prog.bind_returns hrest ho fun _ _ => h₁.mapInitialized hcur₁ hlow hmem
  cases ok with
  | true =>
    cases hlast
    rw [← frameRun_one, union_sdiff_run hnew] at h₂
    exact ⟨h₂, hcur₂, fun _ => ⟨phys, hself rfl⟩⟩
  | false =>
    simp only [Bool.false_eq_true, if_false] at hlast h₂
    obtain ⟨_, m₃, hfree, hend⟩ := (pmmFreeFrames_neverFails _ _).bind_run hlast ho
    have h₃ := h₂.free (fun a ha => .inr ha) hfree
    rw [union_sdiff_run hnew] at h₃
    cases hfree
    cases hend
    exact ⟨h₃, hcur₂, by simp⟩

theorem mapFixedPages {o : Outcome KernelError (Option KernelError)} (h : Book old root pid hand m)
    (hcur : m.current = root) (haligned : address % pageSize = 0)
    (hlow : ∀ i < count, pdIndex (pageOf (address + i * pageSize)) < kernelSplit)
    (hrun : Memory.mapFixedPages address count flags m = (o, m')) (ho : o ≠ .stuck) :
    Book old root pid hand m' := by
  have hloop : ∀ {ol m₁}, Prog.countTry count (Memory.mapFixedPage address flags) m = (ol, m₁) →
      ol ≠ .stuck → ∃ n f, ol = .ok (n, f) ∧ n ≤ count ∧ Book old root pid hand m₁ ∧
        m₁.current = root ∧
        ∀ k < n, ∃ a, m₁.holder root (.page (pageOf (address + k * pageSize))) = some a := by
    intro ol m₁ hloop hol
    refine h.pageLoop hcur hlow ?_ hloop hol
    intro i hi t ob t' ht hcur hbody hob
    obtain ⟨hbook, hcur', hself⟩ := ht.mapFixedPage hcur (hlow i hi) hbody hob
    exact ⟨hbook, hcur', ((Stays.refl t).mapFixedPage hbody hob).1.pages, hself⟩
  obtain ⟨n, f, m₁, hrun₁, ⟨hle, hbook, hcur₁, hpages⟩, hrest⟩ :=
    Prog.bind_returns_pair hrun ho fun _ _ => hloop
  cases f with
  | none =>
    cases hrest
    exact hbook
  | some e =>
    have hundo : ∀ {ou m₂}, Prog.forRange n
        (fun i => Memory.unmapAndFree (address + i * pageSize)) m₁ = (ou, m₂) → ou ≠ .stuck →
        ou = .ok () ∧ Book old root pid hand m₂ := by
      intro ou m₂ hundo hou
      refine hbook.undoLoop hcur₁ (fun i hi => hlow i (by omega)) hpages ?_ hundo hou
      intro i hi t ob t' a ht hcur ha hbody hob
      refine ht.unmapAndFree hcur (hlow i (by omega)) ?_ ha hbody hob
      rw [Nat.add_mul_mod_self_right]
      exact haligned
    rcases Prog.bind_run hrest ho with ⟨_, m₂, hrun₂, hend⟩ | ⟨e', hrun₂, -⟩
    · cases hend
      exact (hundo hrun₂ (by simp)).2
    · cases (hundo hrun₂ (by simp)).1

theorem mapFixedMemory (h : Book old root pid hand m)
    (hrun : Memory.mapFixedMemory (.user pid) address size flags m = (o, m')) (ho : o ≠ .stuck) :
    Book old root pid hand m' := by
  by_cases hchecks : (m.space (.user pid)).fixedChecks address size = true
  · obtain ⟨hbounds, -⟩ := fixedChecks_eq_true.1 hchecks
    obtain ⟨ok, m₁, hheap, hrest⟩ := mapFixedMemory_checked hchecks hrun ho
    have h₁ := h.cacheAllocate hheap
    rcases hrest with rfl | ⟨f, m₂, hspace, hrest⟩
    · exact h₁
    have hcount : alignUp size / pageSize * pageSize = alignUp size :=
      Nat.div_mul_cancel (Nat.dvd_of_mod_eq_zero (alignUp_mod size))
    have hlow : ∀ i < alignUp size / pageSize,
        pdIndex (pageOf (address + i * pageSize)) < kernelSplit := by
      intro i hi
      have hmul : i * pageSize < alignUp size / pageSize * pageSize :=
        mul_lt_mul_of_pos_right hi (by decide)
      apply h.low
      have hlimit : address + alignUp size ≤ (m.spaces pid).limit := by
        dsimp only [Machine.space] at hbounds
        omega
      omega
    obtain ⟨ob, m₃, hbody, hob, hback⟩ := withSpace_cases hspace (by simp)
    have hactive : (if decide ((m.space (.user pid)).translationRoot ≠ m₁.current) = true
        then (m.space (.user pid)).translationRoot else m₁.current) = root := by
      have hroot : (m.space (.user pid)).translationRoot = root := h.space.root
      rw [hroot]
      split
      · rfl
      · rename_i hsame
        by_contra hne
        exact hsame (decide_eq_true fun heq => hne heq.symm)
    have h₃ := (h₁.current _).mapFixedPages hactive hbounds.2.1 hlow hbody hob
    have h₂ : Book old root pid hand m₂ := by
      rcases hback with ⟨_, c, -, -, rfl⟩ | ⟨_, -, -, rfl⟩
      · exact h₃.current c
      · exact h₃
    rcases hrest with ⟨e, -, rfl⟩ | ⟨-, v, hstart, hstop, rfl⟩
    · exact h₂
    · refine h₂.setUserSpace ⟨h₂.space.root, h₂.space.limit, h₂.space.base, ?_⟩
      intro w hw
      rcases List.mem_cons.1 ((VadTree.inorder_insert_perm _ _).mem_iff.1 hw) with rfl | hw
      · refine ⟨by rw [hstart]; exact hbounds.2.1, ?_⟩
        dsimp only [Machine.space] at hbounds ⊢
        rw [h.space.limit, ← h₂.space.limit] at hbounds
        omega
      · exact h₂.space.regions w hw
  · rw [mapFixedMemory_unchecked hchecks hrun]
    exact h

/-! ## Memory that is mapped on demand -/

theorem allocateUserBackedRegion {insert : Except KernelError Unit} {o : Outcome KernelError Nat}
    (h : Book old root pid hand m)
    (hrun : Memory.allocateUserBackedRegion (.user pid) size flags insert m = (o, m'))
    (ho : o ≠ .stuck) : Book old root pid hand m' := by
  obtain ⟨ok, m₁, hheap, hrun⟩ := cacheAllocate_neverFails.bind_run hrun ho
  have h₁ := h.cacheAllocate hheap
  cases ok with
  | false =>
    cases hrun
    exact h₁
  | true =>
    simp only [Bool.not_true, Bool.false_eq_true, if_false] at hrun
    cases insert with
    | error e =>
      cases hrun
      exact h₁
    | ok u =>
      rw [Prog.bind_ok (Prog.ofExcept_ok u m₁)] at hrun
      rcases Prog.bind_run hrun ho with ⟨vad, m₂, hreserve, hpure⟩ | ⟨e, hreserve, -⟩
      · cases hpure
        exact h₁.reserveVad (.inr rfl) hreserve (by simp)
      · exact h₁.reserveVad (.inr rfl) hreserve (by simp)

theorem handlePagefault {info : PageFaultInfo}
    (h : Book old root pid hand m) (hcur : m.current = root) (huser : info.user = true)
    (hrun : Memory.handlePagefault (some pid) info m = (o, m')) (ho : o ≠ .stuck) :
    Book old root pid hand m' := by
  unfold Memory.handlePagefault at hrun
  rw [Prog.get_bind_apply, huser, if_pos rfl] at hrun
  dsimp only [Option.map_some] at hrun
  rcases hfind : (m.space (.user pid)).vads.find info.faultAddr with _ | vad
  · rw [hfind] at hrun
    exact absurd (Prod.mk.inj hrun).1.symm ho
  rw [hfind] at hrun
  dsimp only at hrun
  obtain ⟨hmem, hlo, hhi⟩ := VadTree.find_mem hfind
  have hlow : pdIndex (pageOf (alignDown info.faultAddr)) < kernelSplit := by
    apply h.low
    have hstop := (h.space.regions vad hmem).2
    have hdown : alignDown info.faultAddr ≤ info.faultAddr := Nat.div_mul_le_self _ _
    omega
  split at hrun
  · exact absurd (Prod.mk.inj hrun).1.symm ho
  cases hkind : vad.backing.getD .anonymous with
  | anonymous =>
    rw [hkind] at hrun
    obtain ⟨phys, m₁, hpmm, hrest⟩ := (pmmAllocateFrames_neverFails _).bind_run hrun ho
    rcases h.allocate hpmm with ⟨rfl, rfl⟩ | ⟨hphys, h₁, hnew⟩
    · exact absurd (Prod.mk.inj hrest).1.symm ho
    rw [if_neg hphys] at hrest
    obtain ⟨ok, m₂, hmap, hlast⟩ := (vmmMapPage_neverFails _ _ _).bind_run hrest ho
    have h₂ := h₁.mapPage ((pmmAllocateFrames_ok hpmm).1.current.trans hcur) hlow
      (.inr ⟨0, by decide, by omega⟩) hmap
    cases ok with
    | true =>
      cases hlast
      rw [← frameRun_one, union_sdiff_run hnew] at h₂
      exact h₂
    | false => exact absurd (Prod.mk.inj hlast).1.symm ho
  | file | shared | kernelModule =>
    rw [hkind] at hrun
    exact absurd (Prod.mk.inj hrun).1.symm ho

end Book

end UnDOS.Memory
