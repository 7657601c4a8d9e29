import UnDOS.Memory.Loading

/-!
# The Life of an Address Space

From `create_user_address_space` on, every call on the address space of a process keeps
its book (`Book`): loading an image, mapping memory, faults, and giving memory back.

`handle_FreePages_V1` is how a process gives memory back.  It refuses regions with a
backing object and regions with holes; `releaseRegion` is the same for any region.
-/

namespace UnDOS.Memory

open UnDOS.Lib
open UnDOS.Kernel (KernelError)

/-! ## Giving memory back -/

/-- One round of the check in `handle_FreePages_V1`. -/
def requireMapped (page : Nat) : Vmm Unit := do
  let phys ← vmmGetPhysicalAddress page
  if phys = 0 then Prog.throw .invalidAddress else pure ()

/-- `handle_FreePages_V1`; `pid` is the current process.  Nothing ever sets `lock_count`. -/
def handleFreePages (pid address size : Nat) : Vmm Unit :=
  if size = 0 ∨ size > uintptrMax - 4095 ∨ address % pageSize ≠ 0 then
    Prog.throw .invalidArgument
  else do
    let m ← Prog.get
    match (m.spaces pid).vads.find address with
    | none => Prog.throw .invalidAddress
    | some vad =>
      if vad.start ≠ address ∨ vad.stop - vad.start ≠ alignUp size ∨ vad.backing ≠ none then
        Prog.throw .invalidAddress
      else do
        Prog.forRange (alignUp size / pageSize) fun i => requireMapped (address + i * pageSize)
        Prog.forRange (alignUp size / pageSize) fun i => unmapAndFree (address + i * pageSize)
        freeRegion (.user pid) address

/-- Unmap and free what is mapped of the region at `addr`, then `KE_VMM_FreeRegion`. -/
def releaseRegion (pid addr : Nat) : Vmm Unit := do
  let m ← Prog.get
  match (m.spaces pid).vads.find addr with
  | none => Prog.throw .notFound
  | some vad => do
    withSpace true (m.spaces pid).translationRoot
      (Prog.forRange ((vad.stop - vad.start + pageSize - 1) / pageSize) fun i =>
        rollbackPage (vad.start + i * pageSize))
    freeRegion (.user pid) addr

theorem vmmGetPhysicalAddress_none {page : Nat} {m : Machine}
    (h : m.walk m.current (pageOf page) = none) : vmmGetPhysicalAddress page m = (.ok 0, m) := by
  unfold vmmGetPhysicalAddress
  rw [Prog.get_bind_apply, h]
  rfl

theorem requireMapped_run {page : Nat} {m m' : Machine} {o : Outcome KernelError Unit}
    (h : requireMapped page m = (o, m')) :
    m' = m ∧ (o = .ok () → m.walk m.current (pageOf page) ≠ none) := by
  unfold requireMapped at h
  obtain ⟨phys, hread⟩ := vmmGetPhysicalAddress_ok page m
  rw [Prog.bind_ok hread] at h
  split at h
  · cases h
    exact ⟨rfl, by simp⟩
  · rename_i hphys
    cases h
    refine ⟨rfl, ?_⟩
    intro _ hnone
    rw [vmmGetPhysicalAddress_none hnone] at hread
    exact hphys (Outcome.ok.inj (Prod.mk.inj hread).1).symm

theorem requireMapped_loop {address n : Nat} {m m' : Machine} {o : Outcome KernelError Unit}
    (h : Prog.forRange n (fun i => requireMapped (address + i * pageSize)) m = (o, m'))
    (ho : o ≠ .stuck) :
    m' = m ∧ (o = .ok () → ∀ k < n, m.walk m.current (pageOf (address + k * pageSize)) ≠ none) := by
  induction n generalizing o m' with
  | zero =>
    cases h
    exact ⟨rfl, fun _ k hk => absurd hk (Nat.not_lt_zero k)⟩
  | succ n ih =>
    rcases Prog.bind_run h ho with ⟨_, m₁, hfirst, hlast⟩ | ⟨e, hfirst, rfl⟩
    · obtain ⟨rfl, hmapped⟩ := ih hfirst (by simp)
      obtain ⟨rfl, hpage⟩ := requireMapped_run hlast
      refine ⟨rfl, fun hok k hk => ?_⟩
      rcases Nat.lt_succ_iff_lt_or_eq.1 hk with hk | rfl
      · exact hmapped rfl k hk
      · exact hpage hok
    · exact ⟨(ih hfirst ho).1, by simp⟩

namespace Book

variable {old hand : Set Nat} {root pid : Nat} {m m' : Machine}
variable {o : Outcome KernelError Unit}

theorem rollbackPage {page : Nat} (h : Book old root pid hand m)
    (hcur : m.current = root) (hlow : pdIndex (pageOf page) < kernelSplit)
    (haligned : page % pageSize = 0) (hrun : Memory.rollbackPage page m = (o, m'))
    (ho : o ≠ .stuck) : o = .ok () ∧ Book old root pid hand m' ∧ m'.current = root := by
  rcases ha : m.holder root (.page (pageOf page)) with _ | a
  · have hnone : m.walk m.current (pageOf page) = none := by
      rw [← walk_eq_holder (low_lt_temp hlow), ← hcur] at ha
      exact Option.map_eq_none_iff.1 ha
    unfold Memory.rollbackPage at hrun
    rw [Prog.bind_ok (vmmGetPhysicalAddress_none hnone)] at hrun
    obtain ⟨_, m₁, hunmap, hlast⟩ := (vmmUnmapPage_neverFails _).bind_run hrun ho
    cases hlast
    have hsame := (sameSpaces_shape.vmmUnmapPage page).of_eq hunmap (by simp)
    refine ⟨rfl, h.of_owns (h.owns.unmapNothing (fun _ => hcur) ha hunmap) hsame ?_,
      (vmmUnmapPage_ok hunmap).1.trans hcur⟩
    intro p hp hpd
    exact vmmUnmapPage_other hunmap (h.high.ne_of_low hlow hp) hpd
  · rw [h.rollbackPage_eq hcur hlow haligned ha] at hrun
    obtain ⟨rfl, hbook, hcur', -⟩ := h.unmapAndFree hcur hlow haligned ha hrun ho
    exact ⟨rfl, hbook, hcur'⟩

theorem regionPage {v : Vad} {i : Nat} (h : Book old root pid hand m)
    (hv : v ∈ (m.spaces pid).vads.inorder) (hi : i < (v.stop - v.start + pageSize - 1) / pageSize) :
    (v.start + i * pageSize) % pageSize = 0 ∧
      pdIndex (pageOf (v.start + i * pageSize)) < kernelSplit := by
  obtain ⟨haligned, hstop⟩ := h.space.regions v hv
  refine ⟨by rw [Nat.add_mul_mod_self_right]; exact haligned, h.low ?_⟩
  unfold pageSize at *
  omega

theorem releaseRegion {addr : Nat} (h : Book old root pid hand m)
    (hrun : Memory.releaseRegion pid addr m = (o, m')) (ho : o ≠ .stuck) :
    Book old root pid hand m' := by
  unfold Memory.releaseRegion at hrun
  rw [Prog.get_bind_apply] at hrun
  rcases hfind : (m.spaces pid).vads.find addr with _ | vad
  · rw [hfind] at hrun
    cases hrun
    exact h
  rw [hfind, h.space.root] at hrun
  obtain ⟨hmem, -⟩ := VadTree.find_mem hfind
  have hloop : ∀ {ob m₁}, withSpace true root
      (Prog.forRange ((vad.stop - vad.start + pageSize - 1) / pageSize) fun i =>
        Memory.rollbackPage (vad.start + i * pageSize)) m = (ob, m₁) → ob ≠ .stuck →
      ob = .ok () ∧ Book old root pid hand m₁ := by
    intro ob m₁ hspace hob
    obtain ⟨o₂, m₂, hbody, ho₂, hback⟩ := withSpace_cases hspace hob
    obtain ⟨rfl, hbook, -⟩ := Prog.forRange_run
      (I := fun _ t => Book old root pid hand t ∧ t.current = root)
      ⟨h.current root, rfl⟩ (by
        rintro i hi t o₃ t' ⟨ht, hcur⟩ hround ho₃
        obtain ⟨haligned, hlow⟩ := h.regionPage hmem hi
        exact ht.rollbackPage hcur hlow haligned hround ho₃) hbody ho₂
    rcases hback with ⟨_, c, -, rfl, rfl⟩ | ⟨_, herr, -⟩
    · exact ⟨rfl, hbook.current c⟩
    · cases herr
  rcases Prog.bind_run hrun ho with ⟨_, m₁, hspace, hlast⟩ | ⟨e, hspace, -⟩
  · exact (hloop hspace (by simp)).2.freeRegion (.inr rfl) hlast
  · cases (hloop hspace (by simp)).1

theorem handleFreePages {address size : Nat}
    (h : Book old root pid hand m) (hcur : m.current = root)
    (hrun : Memory.handleFreePages pid address size m = (o, m')) (ho : o ≠ .stuck) :
    Book old root pid hand m' := by
  unfold Memory.handleFreePages at hrun
  split at hrun
  · cases hrun
    exact h
  rw [Prog.get_bind_apply] at hrun
  rcases hfind : (m.spaces pid).vads.find address with _ | vad
  · rw [hfind] at hrun
    cases hrun
    exact h
  rw [hfind] at hrun
  dsimp only at hrun
  split at hrun
  · cases hrun
    exact h
  rename_i hregion
  obtain ⟨hmem, -⟩ := VadTree.find_mem hfind
  have hpages : ∀ i < alignUp size / pageSize,
      (address + i * pageSize) % pageSize = 0 ∧
        pdIndex (pageOf (address + i * pageSize)) < kernelSplit := by
    intro i hi
    obtain rfl : vad.start = address := by
      by_contra hne
      exact hregion (.inl hne)
    apply h.regionPage hmem
    unfold pageSize at *
    omega
  rcases Prog.bind_run hrun ho with ⟨_, m₁, hcheck, hrest⟩ | ⟨e, hcheck, -⟩
  · obtain ⟨rfl, hmapped⟩ := requireMapped_loop hcheck (by simp)
    -- The check has found every page mapped.
    have hheld : ∀ k < alignUp size / pageSize,
        ∃ a, m₁.holder root (.page (pageOf (address + k * pageSize))) = some a := by
      intro k hk
      have hsome := hmapped rfl k hk
      rw [hcur] at hsome
      obtain ⟨e, he⟩ := Option.ne_none_iff_exists'.1 hsome
      refine ⟨e.frame, ?_⟩
      rw [← walk_eq_holder (low_lt_temp (hpages k hk).2), he]
      rfl
    have hundo : ∀ {ob m₂}, Prog.forRange (alignUp size / pageSize)
        (fun i => Memory.unmapAndFree (address + i * pageSize)) m₁ = (ob, m₂) → ob ≠ .stuck →
        ob = .ok () ∧ Book old root pid hand m₂ := by
      intro ob m₂ hloop hob
      refine h.undoLoop hcur (fun i hi => (hpages i hi).2) hheld ?_ hloop hob
      intro i hi t ot t' a ht hcur ha hbody hot
      exact ht.unmapAndFree hcur (hpages i hi).2 (hpages i hi).1 ha hbody hot
    rcases Prog.bind_run hrest ho with ⟨_, m₂, hloop, hlast⟩ | ⟨e, hloop, -⟩
    · exact (hundo hloop (by simp)).2.freeRegion (.inr rfl) hlast
    · cases (hundo hloop (by simp)).1
  · obtain ⟨rfl, -⟩ := requireMapped_loop hcheck (by simp)
    exact h

end Book

/-! ## The calls on an address space -/

/-- What happens to the address space of process `pid` between its creation and its end.
`switchTo` and `cacheAllocate` stand for the rest of the kernel: another directory becomes
the active one, and a heap request may take a new slab. -/
inductive SpaceCall where
  | loadImage (file : VfsFile)
  | allocateMemory (size : Nat) (flags : ProtectFlags)
  | mapFixedMemory (address size : Nat) (flags : ProtectFlags)
  | allocateUserData (size : Nat) (insert : Except KernelError Unit)
  | allocateUserProcess (size : Nat) (insert : Except KernelError Unit)
  | fault (info : PageFaultInfo)
  | freePages (address size : Nat)
  | releaseRegion (addr : Nat)
  | cacheAllocate
  | switchTo (root : Nat)

namespace SpaceCall

/-- The machine after the call, if the call returns. -/
def next (pid : Nat) (m : Machine) : SpaceCall → Option Machine
  | loadImage file => settled (loadProcessImage pid file m)
  | allocateMemory size flags => settled (Memory.allocateMemory (.user pid) size flags m)
  | mapFixedMemory address size flags =>
    settled (Memory.mapFixedMemory (.user pid) address size flags m)
  | allocateUserData size insert => settled (Memory.allocateUserData (.user pid) size insert m)
  | allocateUserProcess size insert =>
    settled (Memory.allocateUserProcess (.user pid) size insert m)
  | fault info => settled (handlePagefault (some pid) info m)
  | freePages address size => settled (handleFreePages pid address size m)
  | releaseRegion addr => settled (Memory.releaseRegion pid addr m)
  | cacheAllocate => settled (Memory.cacheAllocate m)
  | switchTo root => settled (vmmSwitchAddressSpace root m)

/-- Faults and system calls of a process come while its own directory is active. -/
def Legal (pid : Nat) (m : Machine) : SpaceCall → Prop
  | fault info => info.user = true ∧ m.current = (m.spaces pid).translationRoot
  | freePages _ _ => m.current = (m.spaces pid).translationRoot
  | _ => True

/-- The segments of an image end at or below the limit. -/
def Fits (pid : Nat) (m : Machine) : SpaceCall → Prop
  | loadImage file => FitsBelowLimit file (processPolicy pid) m
  | _ => True

def LegalStep (pid : Nat) (m : Machine) (c : SpaceCall) (m' : Machine) : Prop :=
  c.Legal pid m ∧ c.next pid m = some m'

def FittingStep (pid : Nat) (m : Machine) (c : SpaceCall) (m' : Machine) : Prop :=
  c.Fits pid m ∧ LegalStep pid m c m'

end SpaceCall

/-! ## Creation -/

/-- What the kernel looks like when it creates an address space: frame 0 is never handed
out, and nothing is mapped at or above the kernel's bump pointer. -/
structure Ready (m : Machine) : Prop where
  zero : m.used 0 = true
  high : KernelHigh m
  aligned : m.kernel.currentBase % pageSize = 0
  clear : ∀ p, pageOf m.kernel.currentBase ≤ p → pdIndex p < tempPdSlot →
    m.kernelHalf.lookup p = none

theorem createUserAddressSpace_ok {pid : Nat} {m m' : Machine}
    (h : createUserAddressSpace pid m = (.ok (), m')) : ∃ f, m.used f = false ∧ f * pageSize ≠ 0 ∧
      (∀ k, m'.used k = (m.used k || decide (f ≤ k ∧ k < f + 1))) ∧
      m'.userHalf (f * pageSize) = PageTables.empty ∧ m'.kernelHalf = m.kernelHalf ∧
      m'.kernel = m.kernel ∧ m'.spaces pid =
        { vads := .nil, translationRoot := f * pageSize, currentBase := 0x10000000,
          limit := 0xC0000000 } := by
  unfold createUserAddressSpace at h
  rw [Prog.get_bind_apply] at h
  split at h
  · cases (Prod.mk.inj h).1
  obtain ⟨root, m₁, hcreate, hlast⟩ := Prog.bind_eq_ok.1 h
  split at hlast
  · cases (Prod.mk.inj hlast).1
  rename_i hroot
  obtain ⟨phys, m₂, hpmm, hcreate⟩ := Prog.bind_eq_ok.1 hcreate
  split at hcreate
  · exact absurd (Outcome.ok.inj (Prod.mk.inj hcreate).1).symm hroot
  rw [Prog.get_bind_apply] at hcreate
  split at hcreate
  · cases (Prod.mk.inj hcreate).1
  obtain ⟨hok, rfl⟩ := Prod.mk.inj hcreate
  obtain rfl := Outcome.ok.inj hok
  cases hlast
  unfold pmmAllocateFrames at hpmm
  rcases hpick : pickFrames m.used m.maxFrames 1 with _ | f
  · rw [hpick] at hpmm
    exact absurd (Outcome.ok.inj (Prod.mk.inj hpmm).1).symm hroot
  · rw [hpick] at hpmm
    obtain ⟨hphys, rfl⟩ := Prod.mk.inj hpmm
    obtain rfl := Outcome.ok.inj hphys
    exact ⟨f, pickFrames_free hpick f (le_refl f) (Nat.lt_succ_self f), hroot, fun _ => rfl,
      if_pos rfl, rfl, rfl, if_pos rfl⟩

theorem Owns.start {m₀ m : Machine} {root : Nat} (hfree : root ∉ usedFrames m₀)
    (hused : usedFrames m = usedFrames m₀ ∪ {root}) (hempty : m.userHalf root = PageTables.empty) :
    Owns (usedFrames m₀) root ∅ m := by
  have hmine : ∀ s ∈ userSlots, ∀ a, m.holder root s = some a → s = .directory ∧ a = root := by
    intro s hs a ha
    cases s with
    | directory => exact ⟨rfl, (Option.some.inj ha).symm⟩
    | table pd =>
      dsimp only [Machine.holder, Machine.half] at ha
      rw [if_pos (show pd < kernelSplit from hs), hempty] at ha
      cases ha
    | page p =>
      dsimp only [Machine.holder, Machine.half] at ha
      rw [if_pos (show pdIndex p < kernelSplit from hs), hempty] at ha
      cases ha
  refine ⟨?_, fun a ha => ha.elim, ?_, ?_, ?_⟩
  · intro a ha
    rw [hused]
    exact .inl ha
  · intro s hs a ha
    obtain ⟨-, rfl⟩ := hmine s hs a ha
    rw [hused]
    exact ⟨.inr rfl, hfree⟩
  · intro s hs t ht a ha hb
    rw [(hmine s hs a ha).1, (hmine t ht a hb).1]
  · intro a ha
    rw [hused] at ha
    rcases ha with ha | rfl
    · exact .inl ha
    · exact .inr (.inl ⟨.directory, rfl⟩)

namespace Book

variable {old hand : Set Nat} {root pid : Nat} {m m' : Machine}

theorem create (hready : Ready m) (hrun : createUserAddressSpace pid m = (.ok (), m')) :
    Book (usedFrames m) (m'.spaces pid).translationRoot pid ∅ m' := by
  obtain ⟨f, hfree, hroot, hused, hempty, hhalf, hkernel, hspace⟩ := createUserAddressSpace_ok hrun
  rw [hspace]
  refine ⟨⟨0, (zero_mul _).symm, hready.zero⟩, hroot, ?_, ?_, ?_, ?_, ?_⟩
  · rw [hspace]
    exact ⟨rfl, rfl, show 0x10000000 % pageSize = 0 by decide, fun v hv => by cases hv⟩
  · apply Owns.start
    · rintro ⟨g, hg, htaken⟩
      obtain rfl : f = g := Nat.eq_of_mul_eq_mul_right (by decide) hg
      rw [hfree] at htaken
      cases htaken
    · rw [← frameRun_one]
      exact usedFrames_take hused
    · exact hempty
  · unfold KernelHigh
    rw [hkernel]
    exact hready.high
  · rw [hkernel]
    exact hready.aligned
  · intro p hp hpd
    rw [hkernel] at hp
    have hslot : ¬pdIndex p < kernelSplit := fun hlow => hready.high.ne_of_low hlow hp rfl
    dsimp only [Machine.holder, Machine.half]
    rw [if_neg hslot, hhalf, hready.clear p hp hpd]
    rfl

/-- Between two calls no frame is in the hand. -/
theorem step {c : SpaceCall} (h : Book old root pid ∅ m) (hstep : c.FittingStep pid m m') :
    Book old root pid ∅ m' := by
  obtain ⟨hfits, hlegal, hnext⟩ := hstep
  cases c with
  | loadImage file =>
    obtain ⟨o, ho, hrun⟩ := settled_eq_some.1 hnext
    exact h.loadProcessImage hfits hrun ho
  | allocateMemory size flags =>
    obtain ⟨o, ho, hrun⟩ := settled_eq_some.1 hnext
    exact h.allocateMemory hrun ho
  | mapFixedMemory address size flags =>
    obtain ⟨o, ho, hrun⟩ := settled_eq_some.1 hnext
    exact h.mapFixedMemory hrun ho
  | allocateUserData size insert =>
    obtain ⟨o, ho, hrun⟩ := settled_eq_some.1 hnext
    exact h.allocateUserBackedRegion hrun ho
  | allocateUserProcess size insert =>
    obtain ⟨o, ho, hrun⟩ := settled_eq_some.1 hnext
    exact h.allocateUserBackedRegion hrun ho
  | fault info =>
    obtain ⟨huser, hcur⟩ := hlegal
    obtain ⟨o, ho, hrun⟩ := settled_eq_some.1 hnext
    exact h.handlePagefault (hcur.trans h.space.root) huser hrun ho
  | freePages address size =>
    obtain ⟨o, ho, hrun⟩ := settled_eq_some.1 hnext
    exact h.handleFreePages (hlegal.trans h.space.root) hrun ho
  | releaseRegion addr =>
    obtain ⟨o, ho, hrun⟩ := settled_eq_some.1 hnext
    exact h.releaseRegion hrun ho
  | cacheAllocate =>
    obtain ⟨o, ho, hrun⟩ := settled_eq_some.1 hnext
    cases o with
    | ok ok => exact h.cacheAllocate hrun
    | err e => exact absurd hrun (cacheAllocate_neverFails _ _ _)
    | stuck => exact absurd rfl ho
  | switchTo other =>
    obtain rfl : { m with current := other } = m' := Option.some.inj hnext
    exact h.current other

end Book

end UnDOS.Memory
