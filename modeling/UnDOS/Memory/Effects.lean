import UnDOS.Memory.Vmm

/-!
# What the Kernel's Own Routines May Change

Every proof about whole runs starts from the effects of single routines.  The routines
that the kernel runs for itself (its heap, its regions, borrowed mappings) are built
from a handful of primitive changes.  `KernelEffect R` says that `R` allows each of
these primitives; then `R` allows every routine, by one pass over the code.
-/

namespace UnDOS.Memory

open UnDOS.Lib
open UnDOS.Lib.Prog (Within IsEffect)

/-- A relation that allows the primitive changes behind the kernel's own routines. -/
structure KernelEffect (R : Machine → Machine → Prop) : Prop extends IsEffect R where
  used : ∀ m u, R m { m with used := u }
  current : ∀ m root, R m { m with current := root }
  heap : ∀ m h, R m { m with heap := h }
  /-- New regions in the kernel's address space, and a base that has moved up. -/
  kernel : ∀ m vads base, m.kernel.currentBase ≤ base →
    R m { m with kernel := { m.kernel with vads := vads, currentBase := base } }
  mapPage : ∀ virt phys flags, flags.user = false → Within R (vmmMapPage virt phys flags)
  unmapPage : ∀ virt, Within R (vmmUnmapPage virt)
  memsetPage : ∀ virt, Within R (memsetPage virt)

namespace KernelEffect

variable {R : Machine → Machine → Prop} (hR : KernelEffect R)

include hR

theorem pmmAllocateFrames (count : Nat) : Within R (pmmAllocateFrames count) := by
  intro m _
  unfold Memory.pmmAllocateFrames
  split
  · exact hR.refl m
  · exact hR.used m _

theorem pmmFreeFrames (base count : Nat) : Within R (pmmFreeFrames base count) :=
  Within.modify fun m => hR.used m _

theorem vmmGetPhysicalAddress (virt : Nat) : Within R (vmmGetPhysicalAddress virt) := by
  apply Within.bind hR.toIsEffect (Within.get hR.toIsEffect)
  intro m
  split
  · exact Within.pure hR.toIsEffect _
  · exact Within.pure hR.toIsEffect _

theorem vmmSwitchAddressSpace (root : Nat) : Within R (vmmSwitchAddressSpace root) :=
  Within.modify fun m => hR.current m root

theorem withSpace {α : Type} (switch : Bool) (root : Nat) {body : Vmm α} (h : Within R body) :
    Within R (withSpace switch root body) := by
  intro m
  apply Within.ite
  · intro _
    apply Within.bind hR.toIsEffect (hR.vmmSwitchAddressSpace root)
    intro _
    apply Within.bind hR.toIsEffect h
    intro r
    apply Within.bind hR.toIsEffect (hR.vmmSwitchAddressSpace m.current)
    intro _
    exact Within.pure hR.toIsEffect r
  · intro _
    exact h

/-! ## The heap and the kernel's regions -/

theorem placeSlab : Within R placeSlab := by
  intro m hm
  unfold Memory.placeSlab at hm ⊢
  dsimp only at hm ⊢
  split at hm
  · exact absurd rfl hm
  · rename_i h
    rw [if_neg h]
    exact hR.kernel m m.kernel.vads _ (by rw [add_assoc]; exact Nat.le_add_right _ _)

theorem allocateSlab : Within R allocateSlab := by
  apply Within.bind hR.toIsEffect (hR.pmmAllocateFrames 1)
  intro phys
  apply Within.ite (fun _ => Within.pure hR.toIsEffect false)
  intro _
  apply Within.bind hR.toIsEffect hR.placeSlab
  intro virt
  apply Within.bind hR.toIsEffect (hR.mapPage _ _ _ rfl)
  intro _
  apply Within.bind hR.toIsEffect (Within.get hR.toIsEffect)
  intro m
  split
  · exact Within.diverge
  · exact Within.pure hR.toIsEffect true

theorem cacheAllocate : Within R cacheAllocate := by
  apply Within.bind hR.toIsEffect (Within.get hR.toIsEffect)
  intro m
  split
  · exact Within.pure hR.toIsEffect true
  · apply Within.bind hR.toIsEffect (Within.modify fun m => hR.heap m _)
    intro _
    split
    · exact Within.pure hR.toIsEffect true
    · exact hR.allocateSlab

theorem insertVad_kernel (size : Nat) (flags : ProtectFlags) (backing : Option BackingKind) :
    Within R (insertVad .kernel size flags backing) := by
  intro m _
  unfold Memory.insertVad
  dsimp only
  split
  · exact hR.kernel m _ _ (Nat.le_add_right _ _)
  · exact hR.refl m

theorem reserveVad_kernel (size : Nat) (flags : ProtectFlags) (backing : Option BackingKind) :
    Within R (reserveVad .kernel size flags backing) := by
  intro m
  apply Within.ite (fun _ => Within.throw hR.toIsEffect _)
  intro _
  apply Within.ite (fun _ => Within.throw hR.toIsEffect _)
  intro _
  apply Within.ite (fun _ => Within.throw hR.toIsEffect _)
  intro _
  apply Within.ite (fun _ => Within.throw hR.toIsEffect _)
  intro _
  apply Within.bind hR.toIsEffect hR.cacheAllocate
  intro ok
  exact Within.ite (fun _ => Within.throw hR.toIsEffect _)
    fun _ => hR.insertVad_kernel size flags backing

theorem allocateRegion_kernel (size : Nat) (flags : ProtectFlags) :
    Within R (allocateRegion .kernel size flags) := by
  apply Within.bind hR.toIsEffect (hR.reserveVad_kernel size flags none)
  intro vad
  exact Within.pure hR.toIsEffect _

theorem freeRegion_kernel (addr : Nat) : Within R (freeRegion .kernel addr) := by
  intro m _
  unfold Memory.freeRegion
  dsimp only
  split
  · exact hR.refl m
  · exact hR.kernel m _ _ le_rfl

/-! ## Large blocks -/

theorem mapInitialized (page phys : Nat) (flags : ProtectFlags) (h : flags.user = false) :
    Within R (mapInitialized page phys flags) := by
  apply Within.bind hR.toIsEffect (hR.mapPage _ _ _ (by simp [h, ProtectFlags.onlyWrite]))
  intro ok
  apply Within.ite (fun _ => Within.pure hR.toIsEffect false)
  intro _
  apply Within.bind hR.toIsEffect (hR.memsetPage page)
  intro _
  apply Within.ite (fun _ => Within.pure hR.toIsEffect true)
  intro _
  apply Within.bind hR.toIsEffect (hR.unmapPage page)
  intro _
  exact hR.mapPage _ _ _ h

theorem allocatePages_kernel (virt phys count : Nat) (flags : ProtectFlags)
    (h : flags.user = false) : Within R (allocatePages .kernel virt phys count flags) := by
  have hpage : ∀ i, Within R (allocatePage virt phys flags i) := by
    intro i
    apply Within.bind hR.toIsEffect (hR.mapInitialized _ _ flags h)
    intro ok
    exact Within.ite (fun _ => Within.pure hR.toIsEffect ()) fun _ => Within.throw hR.toIsEffect _
  apply Within.bind hR.toIsEffect (Within.countTry hR.toIsEffect hpage)
  rintro ⟨mapped, failure⟩
  cases failure with
  | none => exact Within.pure hR.toIsEffect true
  | some e =>
    apply Within.bind hR.toIsEffect
      (Within.forRange hR.toIsEffect fun i => hR.unmapPage (virt + i * pageSize))
    intro _
    apply Within.bind hR.toIsEffect (Within.attempt (hR.freeRegion_kernel virt))
    intro _
    exact Within.pure hR.toIsEffect false

theorem allocateMemory_kernel (size : Nat) (flags : ProtectFlags) (h : flags.user = false) :
    Within R (allocateMemory .kernel size flags) := by
  apply Within.ite (fun _ => Within.throw hR.toIsEffect _)
  intro _
  apply Within.ite (fun _ => Within.throw hR.toIsEffect _)
  intro _
  apply Within.bind hR.toIsEffect (hR.pmmAllocateFrames _)
  intro phys
  apply Within.ite (fun _ => Within.throw hR.toIsEffect _)
  intro _
  apply Within.bind hR.toIsEffect (Within.attempt (hR.allocateRegion_kernel _ _))
  intro region
  cases region with
  | error e =>
    apply Within.bind hR.toIsEffect (hR.pmmFreeFrames _ _)
    intro _
    exact Within.throw hR.toIsEffect e
  | ok virt =>
    intro m
    apply Within.bind hR.toIsEffect
      (hR.withSpace _ _ (hR.allocatePages_kernel virt phys _ _ (by simpa using h)))
    intro ok
    apply Within.ite (fun _ => Within.pure hR.toIsEffect virt)
    intro _
    apply Within.bind hR.toIsEffect (hR.pmmFreeFrames _ _)
    intro _
    exact Within.throw hR.toIsEffect _

theorem malloc (size : Nat) : Within R (malloc size) := by
  apply Within.ite (fun _ => Within.pure hR.toIsEffect none)
  intro _
  apply Within.ite
  · intro _
    apply Within.bind hR.toIsEffect hR.cacheAllocate
    intro ok
    exact Within.ite (fun _ => Within.pure hR.toIsEffect _) fun _ => Within.pure hR.toIsEffect _
  · intro _
    apply Within.ite (fun _ => Within.pure hR.toIsEffect none)
    intro _
    apply Within.bind hR.toIsEffect
      (Within.attempt (hR.allocateMemory_kernel _ ProtectFlags.readWrite rfl))
    intro allocation
    cases allocation with
    | error e => exact Within.pure hR.toIsEffect none
    | ok virt => exact Within.pure hR.toIsEffect _

theorem free (block : Block) : Within R (free block) := by
  cases block with
  | slab => exact Within.pure hR.toIsEffect ()
  | large virt pages =>
    apply Within.bind hR.toIsEffect (hR.vmmGetPhysicalAddress virt)
    intro phys
    apply Within.bind hR.toIsEffect
      (Within.forRange hR.toIsEffect fun i => hR.unmapPage (virt + i * pageSize))
    intro _
    apply Within.bind hR.toIsEffect (hR.pmmFreeFrames phys pages)
    intro _
    apply Within.bind hR.toIsEffect (Within.attempt (hR.freeRegion_kernel virt))
    intro _
    exact Within.pure hR.toIsEffect ()

/-! ## Borrowed mappings -/

theorem collectFrames (start count : Nat) : Within R (collectFrames start count) := by
  induction count generalizing start with
  | zero => exact Within.pure hR.toIsEffect _
  | succ count ih =>
    apply Within.bind hR.toIsEffect (hR.vmmGetPhysicalAddress start)
    intro phys
    apply Within.ite (fun _ => Within.pure hR.toIsEffect none)
    intro _
    apply Within.bind hR.toIsEffect (ih (start + pageSize))
    intro rest
    exact Within.pure hR.toIsEffect _

theorem borrowPage (start : Nat) (frames : List Nat) (i : Nat) :
    Within R (borrowPage start frames i) := by
  apply Within.bind hR.toIsEffect (hR.mapPage _ _ _ rfl)
  intro ok
  exact Within.ite (fun _ => Within.pure hR.toIsEffect ()) fun _ => Within.throw hR.toIsEffect _

theorem mapFramesAt (frames : List Nat) (offset : Nat) (block : Block) (start : Nat) :
    Within R (mapFramesAt frames offset block start) := by
  apply Within.bind hR.toIsEffect (Within.countTry hR.toIsEffect (hR.borrowPage start frames))
  rintro ⟨mapped, failure⟩
  apply Within.bind hR.toIsEffect (hR.free block)
  intro _
  cases failure with
  | none => exact Within.pure hR.toIsEffect _
  | some e =>
    apply Within.bind hR.toIsEffect
      (Within.forRange hR.toIsEffect fun i => hR.unmapPage (start + i * pageSize))
    intro _
    apply Within.bind hR.toIsEffect (Within.attempt (hR.freeRegion_kernel start))
    intro _
    exact Within.throw hR.toIsEffect e

theorem mapFrames (frames : List Nat) (offset : Nat) (block : Block) :
    Within R (mapFrames frames offset block) := by
  apply Within.bind hR.toIsEffect (Within.attempt (hR.allocateRegion_kernel _ _))
  intro region
  cases region with
  | error e =>
    apply Within.bind hR.toIsEffect (hR.free block)
    intro _
    exact Within.throw hR.toIsEffect e
  | ok start => exact hR.mapFramesAt frames offset block start

theorem checkBorrowRange (addr size : Nat) : Within R (checkBorrowRange addr size) := by
  apply Within.ite (fun _ => Within.throw hR.toIsEffect _)
  intro _
  exact Within.ite (fun _ => Within.throw hR.toIsEffect _) fun _ => Within.pure hR.toIsEffect ()

theorem mapBorrowed (addr size : Nat) (ref : SpaceRef) : Within R (mapBorrowed addr size ref) := by
  apply Within.bind hR.toIsEffect (hR.checkBorrowRange addr size)
  intro _
  apply Within.ite (fun _ => Within.throw hR.toIsEffect _)
  intro _
  apply Within.bind hR.toIsEffect (hR.malloc _)
  intro block
  cases block with
  | none => exact Within.throw hR.toIsEffect _
  | some block =>
    intro m
    apply Within.bind hR.toIsEffect (hR.withSpace _ _ (hR.collectFrames _ _))
    intro frames
    cases frames with
    | none =>
      apply Within.bind hR.toIsEffect (hR.free block)
      intro _
      exact Within.throw hR.toIsEffect _
    | some frames => exact hR.mapFrames frames _ block

theorem unmapBorrowed (addr size : Nat) : Within R (unmapBorrowed addr size) := by
  apply Within.bind hR.toIsEffect (hR.checkBorrowRange addr size)
  intro _
  apply Within.bind hR.toIsEffect (Within.forRange hR.toIsEffect fun i => hR.unmapPage _)
  intro _
  exact hR.freeRegion_kernel _

end KernelEffect

/-! ## Relations that do not look at page tables -/

/-- A relation that also allows any change of the page tables and any store. -/
structure ShapeEffect (R : Machine → Machine → Prop) : Prop extends IsEffect R where
  used : ∀ m u, R m { m with used := u }
  half : ∀ m root pd t, R m (m.setHalf root pd t)
  stores : ∀ m s, R m { m with stores := s }

namespace ShapeEffect

variable {R : Machine → Machine → Prop} (hR : ShapeEffect R)

include hR

theorem pmmAllocateFrames (count : Nat) : Within R (pmmAllocateFrames count) := by
  intro m _
  unfold Memory.pmmAllocateFrames
  split
  · exact hR.refl m
  · exact hR.used m _

theorem vmmMapPage (virt phys : Nat) (flags : ProtectFlags) :
    Within R (vmmMapPage virt phys flags) := by
  have htable : Within R (ensureTable (pageOf virt)) := by
    apply Within.bind hR.toIsEffect (Within.get hR.toIsEffect)
    intro m
    split
    · exact Within.pure hR.toIsEffect true
    · apply Within.bind hR.toIsEffect (hR.pmmAllocateFrames 1)
      intro table
      apply Within.ite (fun _ => Within.pure hR.toIsEffect false)
      intro _
      apply Within.bind hR.toIsEffect (Within.modify fun m => hR.half m _ _ _)
      intro _
      exact Within.pure hR.toIsEffect true
  refine Within.ite (fun _ => Within.diverge) ?_
  intro _
  apply Within.bind hR.toIsEffect htable
  intro ok
  apply Within.ite (fun _ => Within.pure hR.toIsEffect false)
  intro _
  apply Within.bind hR.toIsEffect (Within.get hR.toIsEffect)
  intro m
  split
  · exact Within.pure hR.toIsEffect false
  · apply Within.bind hR.toIsEffect (Within.modify fun m => hR.half m _ _ _)
    intro _
    exact Within.pure hR.toIsEffect true

theorem vmmUnmapPage (virt : Nat) : Within R (vmmUnmapPage virt) := by
  have hreclaim : Within R (reclaimTable (pdIndex (pageOf virt))) := by
    apply Within.bind hR.toIsEffect (Within.get hR.toIsEffect)
    intro m
    dsimp only
    split
    · exact Within.pure hR.toIsEffect ()
    · apply Within.ite
      · intro _
        apply Within.bind hR.toIsEffect (Within.modify fun m => hR.half m _ _ _)
        intro _
        exact Within.modify fun m => hR.used m _
      · intro _
        exact Within.pure hR.toIsEffect ()
  unfold Memory.vmmUnmapPage
  dsimp only
  refine Within.ite (fun _ => Within.diverge) ?_
  intro _
  apply Within.bind hR.toIsEffect (Within.get hR.toIsEffect)
  intro m
  split
  · exact Within.pure hR.toIsEffect ()
  · apply Within.bind hR.toIsEffect (Within.modify fun m => hR.half m _ _ _)
    intro _
    exact hreclaim

theorem memsetPage (virt : Nat) : Within R (memsetPage virt) := by
  apply Within.bind hR.toIsEffect (Within.get hR.toIsEffect)
  intro m
  split
  · exact Within.diverge
  · exact Within.modify fun m => hR.stores m _

end ShapeEffect

/-! ## Routines that return no error -/

theorem pmmAllocateFrames_neverFails (count : Nat) : Prog.NeverFails (pmmAllocateFrames count) := by
  intro s e s' h
  unfold pmmAllocateFrames at h
  split at h <;> simp at h

theorem pmmFreeFrames_neverFails (base count : Nat) : Prog.NeverFails (pmmFreeFrames base count) :=
  Prog.NeverFails.modify _

theorem vmmMapPage_neverFails (virt phys : Nat) (flags : ProtectFlags) :
    Prog.NeverFails (vmmMapPage virt phys flags) := by
  have htable : Prog.NeverFails (ensureTable (pageOf virt)) := by
    apply Prog.NeverFails.bind Prog.NeverFails.get
    intro m
    split
    · exact Prog.NeverFails.pure true
    · apply Prog.NeverFails.bind (pmmAllocateFrames_neverFails 1)
      intro table
      apply Prog.NeverFails.ite (Prog.NeverFails.pure false)
      exact Prog.NeverFails.bind (Prog.NeverFails.modify _) fun _ => Prog.NeverFails.pure true
  apply Prog.NeverFails.ite Prog.NeverFails.diverge
  apply Prog.NeverFails.bind htable
  intro ok
  apply Prog.NeverFails.ite (Prog.NeverFails.pure false)
  apply Prog.NeverFails.bind Prog.NeverFails.get
  intro m
  split
  · exact Prog.NeverFails.pure false
  · exact Prog.NeverFails.bind (Prog.NeverFails.modify _) fun _ => Prog.NeverFails.pure true

theorem cacheAllocate_neverFails : Prog.NeverFails cacheAllocate := by
  have hplace : Prog.NeverFails placeSlab := by
    intro s e s' h
    unfold placeSlab at h
    dsimp only at h
    split at h <;> simp at h
  apply Prog.NeverFails.bind Prog.NeverFails.get
  intro m
  split
  · exact Prog.NeverFails.pure true
  · apply Prog.NeverFails.bind (Prog.NeverFails.modify _)
    intro _
    split
    · exact Prog.NeverFails.pure true
    · apply Prog.NeverFails.bind (pmmAllocateFrames_neverFails 1)
      intro phys
      apply Prog.NeverFails.ite (Prog.NeverFails.pure false)
      apply Prog.NeverFails.bind hplace
      intro virt
      apply Prog.NeverFails.bind (vmmMapPage_neverFails _ _ _)
      intro _
      apply Prog.NeverFails.bind Prog.NeverFails.get
      intro m
      split
      · exact Prog.NeverFails.diverge
      · exact Prog.NeverFails.pure true

end UnDOS.Memory
