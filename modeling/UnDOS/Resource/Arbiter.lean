import Mathlib
import UnDOS.Kernel.Error

/-!
# The Resource Arbiter

`kernel/resource.hpp` and `kernel/resource_arbiter.hpp`: hardware resources as ranges of
32-bit addresses, and the test whether a wanted range meets a reserved one.

The test compares inclusive ends that are computed in 32 bits.  It sees every overlap of
ranges that end in the address space (`rangesOverlap_of_meet`).
-/

namespace UnDOS.Resource

open UnDOS.Kernel (KernelError)

/-! ## Descriptors -/

/-- `kernel::ResourceType`. -/
inductive ResourceType where
  | null | port | memory | interrupt | dma
deriving DecidableEq

/-- `kernel::ResourceShare`. -/
inductive ResourceShare where
  | deviceExclusive | shared
deriving DecidableEq

/-- `kernel::IoResourceDescriptor`, with the fields that a reservation reads. -/
structure IoResourceDescriptor where
  type : ResourceType
  share : ResourceShare
  start : UInt32
  length : UInt32
deriving DecidableEq

/-- `kernel::CmPartialResourceDescriptor`. -/
structure CmPartialResourceDescriptor where
  type : ResourceType
  share : ResourceShare
  flags : UInt16
  start : UInt32
  length : UInt32
deriving DecidableEq

/-- `kernel::IoResourceList`: what must be satisfied together. -/
abbrev IoResourceList := List IoResourceDescriptor

/-- The addresses of a grant. -/
def CmPartialResourceDescriptor.addresses (r : CmPartialResourceDescriptor) : Set Nat :=
  Set.Ico r.start.toNat (r.start.toNat + r.length.toNat)

/-! ## Conflicts -/

def rangesOverlap (aStart aEnd bStart bEnd : UInt32) : Bool :=
  decide (aStart ≤ bEnd) && decide (bStart ≤ aEnd)

/-- `SpanEnd`: the sum wraps. -/
def spanEnd (start length : UInt32) : UInt32 :=
  start + if length ≠ 0 then length - 1 else 0

/-- The test of `ConflictsWithReserved` against one reserved range. -/
def conflictsWith (desc : IoResourceDescriptor) (r : CmPartialResourceDescriptor) : Bool :=
  decide (r.type = desc.type) &&
    rangesOverlap desc.start (spanEnd desc.start desc.length) r.start (spanEnd r.start r.length) &&
    !(decide (desc.share = .shared) && decide (r.share = .shared))

def conflictsWithReserved (desc : IoResourceDescriptor)
    (reserved : List CmPartialResourceDescriptor) : Bool :=
  reserved.any (conflictsWith desc)

/-- What is granted for a requirement. -/
def grantFor (desc : IoResourceDescriptor) : CmPartialResourceDescriptor where
  type := desc.type
  share := desc.share
  flags := 0
  start := desc.start
  length := if desc.length ≠ 0 then desc.length else 1

/-- `TryReserveAlternative`; `alloc n` says whether allocation number `n` succeeds. -/
def tryReserveAlternative (alt : IoResourceList) (reserved : List CmPartialResourceDescriptor)
    (alloc : Nat → Bool) : Except KernelError (List CmPartialResourceDescriptor) :=
  if alt.any (conflictsWithReserved · reserved) then .error .resourceConflict
  else if (List.range alt.length).all alloc then .ok (alt.map grantFor)
  else .error .outOfMemory

/-! ## What the test sees -/

/-- The range ends in the 32-bit address space. -/
def IoResourceDescriptor.Fits (desc : IoResourceDescriptor) : Prop :=
  desc.start.toNat + max desc.length.toNat 1 ≤ 2 ^ 32

instance (desc : IoResourceDescriptor) : Decidable desc.Fits :=
  inferInstanceAs (Decidable (_ ≤ _))

/-- The same for a grant, which is never empty. -/
structure CmPartialResourceDescriptor.Fits (r : CmPartialResourceDescriptor) : Prop where
  nonempty : 0 < r.length.toNat
  fits : r.start.toNat + r.length.toNat ≤ 2 ^ 32

theorem grantFor_length (desc : IoResourceDescriptor) :
    (grantFor desc).length.toNat = max desc.length.toNat 1 := by
  unfold grantFor
  by_cases hzero : desc.length = 0
  · simp [hzero]
  · have hpos : desc.length.toNat ≠ 0 := by
      intro h
      exact hzero (UInt32.toNat_inj.1 h)
    simp only [hzero, ne_eq, not_false_eq_true, if_true]
    omega

variable {desc : IoResourceDescriptor}

theorem grantFor_fits (h : desc.Fits) : (grantFor desc).Fits := by
  have hlength := grantFor_length desc
  refine ⟨by omega, ?_⟩
  rw [hlength]
  exact h

theorem spanEnd_toNat {start length : UInt32} (h : start.toNat + max length.toNat 1 ≤ 2 ^ 32) :
    (spanEnd start length).toNat = start.toNat + max length.toNat 1 - 1 := by
  unfold spanEnd
  by_cases hzero : length = 0
  · simp [hzero]
  · have hpos : length.toNat ≠ 0 := by
      intro habsurd
      exact hzero (UInt32.toNat_inj.1 habsurd)
    have hle : (1 : UInt32) ≤ length := by
      rw [UInt32.le_iff_toNat_le]
      simp
      omega
    have hone : (1 : UInt32).toNat = 1 := rfl
    have hpred : (length - 1).toNat = length.toNat - 1 := by
      rw [UInt32.toNat_sub_of_le _ _ hle, hone]
    simp only [hzero, ne_eq, not_false_eq_true, if_true]
    rw [UInt32.toNat_add]
    omega

/-- The test sees an address that two fitting ranges share. -/
theorem rangesOverlap_of_meet {r : CmPartialResourceDescriptor}
    (hdesc : desc.Fits) (hr : r.Fits) {n : Nat} (hn : n ∈ (grantFor desc).addresses)
    (hn' : n ∈ r.addresses) : rangesOverlap desc.start (spanEnd desc.start desc.length) r.start
      (spanEnd r.start r.length) = true := by
  have hlength := grantFor_length desc
  have hend := spanEnd_toNat hdesc
  have hend' : (spanEnd r.start r.length).toNat = r.start.toNat + max r.length.toNat 1 - 1 := by
    have hpos := hr.nonempty
    have hfits := hr.fits
    exact spanEnd_toNat (by omega)
  obtain ⟨hlow, hhigh⟩ := hn
  obtain ⟨hlow', hhigh'⟩ := hn'
  have hstart : (grantFor desc).start = desc.start := rfl
  rw [hstart] at hlow hhigh
  unfold rangesOverlap
  simp only [Bool.and_eq_true, decide_eq_true_eq, UInt32.le_iff_toNat_le]
  omega

theorem disjoint_of_not_conflict {r : CmPartialResourceDescriptor}
    (hdesc : desc.Fits) (hr : r.Fits) (hfree : conflictsWith desc r = false)
    (htype : r.type = desc.type) (hshare : ¬(desc.share = .shared ∧ r.share = .shared)) :
    Disjoint (grantFor desc).addresses r.addresses := by
  rw [Set.disjoint_left]
  intro n hn hn'
  have hmeet := rangesOverlap_of_meet hdesc hr hn hn'
  unfold conflictsWith at hfree
  rw [hmeet] at hfree
  simp only [htype, decide_true, Bool.true_and, Bool.not_eq_false', Bool.and_eq_true,
    decide_eq_true_eq] at hfree
  exact hshare hfree

end UnDOS.Resource
