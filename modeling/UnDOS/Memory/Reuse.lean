import UnDOS.Memory.Borrow

/-!
# Regions Are Handed Out Once

The five calls through which address ranges are taken and given back
(`KE_VMM_AllocateRegion`, `KE_VMM_MapBackingObject`, `KE_VMM_FreeRegion`,
`KE_VMM_MapBorrowed`, `KE_VMM_UnmapBorrowed`), run in any order on any address spaces.

`reserve_vad` takes every range at `current_base` and moves `current_base` past it;
nothing moves it back.  So `current_base` is a high-water mark.
-/

namespace UnDOS.Memory

open UnDOS.Lib
open UnDOS.Lib.Prog (Within IsEffect)
open UnDOS.Kernel (KernelError)

/-! ## Calls and runs -/

/-- A call that takes or gives back a range of addresses. -/
inductive RegionCall where
  | allocateRegion (ref : SpaceRef) (size : Nat) (flags : ProtectFlags)
  | mapBackingObject (ref : SpaceRef) (backing : Option BackingKind) (size : Nat)
      (flags : ProtectFlags)
  | freeRegion (ref : SpaceRef) (addr : Nat)
  | mapBorrowed (addr size : Nat) (ref : SpaceRef)
  | unmapBorrowed (addr size : Nat)
deriving DecidableEq

namespace RegionCall

/-- The call, with the address it returns (0 where it returns none). -/
def run : RegionCall → Vmm Nat
  | allocateRegion ref size flags => Memory.allocateRegion ref size flags
  | mapBackingObject ref backing size flags => do
    let vad ← Memory.mapBackingObject ref backing size flags
    pure vad.start
  | freeRegion ref addr => do
    Memory.freeRegion ref addr
    pure 0
  | mapBorrowed addr size ref => Memory.mapBorrowed addr size ref
  | unmapBorrowed addr size => do
    Memory.unmapBorrowed addr size
    pure 0

/-- The range that a call has taken in address space `ref` when it returned `result`: its
start and its length in whole pages.  A borrow takes its range in the kernel. -/
def taken (ref : SpaceRef) (result : Nat) : RegionCall → Option (Nat × Nat)
  | allocateRegion r size _ => if r = ref then some (result, alignUp size) else none
  | mapBackingObject r _ size _ => if r = ref then some (result, alignUp size) else none
  | freeRegion _ _ => none
  | mapBorrowed addr size _ =>
    if ref = .kernel then some (result - addr % pageSize, borrowPages addr size * pageSize)
    else none
  | unmapBorrowed _ _ => none

end RegionCall

/-- A call and what it returned. -/
abbrev CallResult := RegionCall × Outcome KernelError Nat

/-- The range that a call took in `ref`, if it returned and took one. -/
def CallResult.ranges (ref : SpaceRef) : CallResult → List (Nat × Nat)
  | (c, .ok result) => (c.taken ref result).toList
  | _ => []

/-- The high-water mark of an address space. -/
def Machine.mark (m : Machine) (ref : SpaceRef) : Nat := (m.space ref).currentBase

/-! ## One call -/

/-- What a routine that takes no range for a process may do to the marks. -/
structure OnlyKernelGrows (m m' : Machine) : Prop where
  base : m.kernel.currentBase ≤ m'.kernel.currentBase
  limit : m'.kernel.limit = m.kernel.limit
  root : m'.kernel.translationRoot = m.kernel.translationRoot
  spaces : m'.spaces = m.spaces

theorem onlyKernelGrows_setHalf (m : Machine) (root pd : Nat) (t : PageTables) :
    OnlyKernelGrows m (m.setHalf root pd t) := by
  unfold Machine.setHalf
  split
  · exact ⟨le_rfl, rfl, rfl, rfl⟩
  · exact ⟨le_rfl, rfl, rfl, rfl⟩

theorem onlyKernelGrows_isEffect : IsEffect OnlyKernelGrows where
  refl := fun _ => ⟨le_rfl, rfl, rfl, rfl⟩
  trans := fun h₁ h₂ =>
    ⟨h₁.base.trans h₂.base, h₂.limit.trans h₁.limit, h₂.root.trans h₁.root,
      h₂.spaces.trans h₁.spaces⟩

theorem onlyKernelGrows_shape : ShapeEffect OnlyKernelGrows where
  toIsEffect := onlyKernelGrows_isEffect
  used := fun _ _ => ⟨le_rfl, rfl, rfl, rfl⟩
  half := onlyKernelGrows_setHalf
  stores := fun _ _ => ⟨le_rfl, rfl, rfl, rfl⟩

theorem onlyKernelGrows : KernelEffect OnlyKernelGrows where
  toIsEffect := onlyKernelGrows_isEffect
  used := fun _ _ => ⟨le_rfl, rfl, rfl, rfl⟩
  current := fun _ _ => ⟨le_rfl, rfl, rfl, rfl⟩
  heap := fun _ _ => ⟨le_rfl, rfl, rfl, rfl⟩
  kernel := fun _ _ _ h => ⟨h, rfl, rfl, rfl⟩
  mapPage := fun virt phys flags _ => onlyKernelGrows_shape.vmmMapPage virt phys flags
  unmapPage := onlyKernelGrows_shape.vmmUnmapPage
  memsetPage := onlyKernelGrows_shape.memsetPage

/-- Ranges one above the other, all of them between `lo` and `hi`. -/
def Stacked : Nat → List (Nat × Nat) → Nat → Prop
  | lo, [], hi => lo ≤ hi
  | lo, (start, length) :: rest, hi => lo ≤ start ∧ Stacked (start + length) rest hi

variable {lo hi size n : Nat} {xs : List (Nat × Nat)} {ref : SpaceRef} {m m' : Machine}
  {flags : ProtectFlags} {backing : Option BackingKind}

theorem Stacked.append {mid : Nat} {ys : List (Nat × Nat)} (hx : Stacked lo xs mid)
    (hy : Stacked mid ys hi) : Stacked lo (xs ++ ys) hi := by
  induction xs generalizing lo with
  | nil =>
    cases ys with
    | nil => exact le_trans hx hy
    | cons y ys => exact ⟨le_trans hx hy.1, hy.2⟩
  | cons x xs ih => exact ⟨hx.1, ih hx.2⟩

theorem Stacked.le (h : Stacked lo xs hi) : lo + (xs.map Prod.snd).sum ≤ hi := by
  induction xs generalizing lo with
  | nil => simpa [Stacked] using h
  | cons x xs ih =>
    have hrest := ih h.2
    have hstart : lo ≤ x.1 := h.1
    simp only [List.map_cons, List.sum_cons]
    omega

theorem Stacked.mem (h : Stacked lo xs hi) {x : Nat × Nat}
    (hx : x ∈ xs) : lo ≤ x.1 ∧ x.1 + x.2 ≤ hi := by
  induction xs generalizing lo with
  | nil => simp at hx
  | cons y ys ih =>
    have hsum := Stacked.le h.2
    have hlo : lo ≤ y.1 := h.1
    rcases List.mem_cons.1 hx with rfl | hmem
    · exact ⟨hlo, by omega⟩
    · have hrest := ih h.2 hmem
      exact ⟨by omega, hrest.2⟩

/-- From `m` to `m'` the ranges were taken in `ref`, in this order. -/
structure Advances (ref : SpaceRef) (m m' : Machine) (ranges : List (Nat × Nat)) : Prop where
  limit : (m'.space ref).limit = (m.space ref).limit
  stacked : Stacked (m.mark ref) ranges (m'.mark ref)
  fits : ∀ r ∈ ranges, r.1 + r.2 ≤ (m.space ref).limit
  /-- Below a process's mark there is nothing but what was taken. -/
  exact : ∀ pid, ref = .user pid → m'.mark ref = m.mark ref + (ranges.map Prod.snd).sum

theorem Advances.trans {m'' : Machine} {ys : List (Nat × Nat)}
    (hx : Advances ref m m' xs) (hy : Advances ref m' m'' ys) : Advances ref m m'' (xs ++ ys) where
  limit := hy.limit.trans hx.limit
  stacked := hx.stacked.append hy.stacked
  fits := by
    intro r hr
    rcases List.mem_append.1 hr with h | h
    · exact hx.fits r h
    · rw [← hx.limit]
      exact hy.fits r h
  exact := by
    intro pid hpid
    rw [hy.exact pid hpid, hx.exact pid hpid, List.map_append, List.sum_append, add_assoc]

theorem OnlyKernelGrows.advances (h : OnlyKernelGrows m m') (ref : SpaceRef) :
    Advances ref m m' [] := by
  cases ref with
  | kernel => exact ⟨h.limit, h.base, by simp, by simp⟩
  | user pid =>
    have hspace : m'.space (.user pid) = m.space (.user pid) := by
      simp only [Machine.space, h.spaces]
    have hmark : m'.mark (.user pid) = m.mark (.user pid) := by
      simp only [Machine.mark, hspace]
    exact ⟨by rw [hspace], hmark.ge, by simp, fun _ _ => by simp [hmark]⟩

theorem space_setSpace_self (m : Machine) (ref : SpaceRef) (as : AddressSpace) :
    (m.setSpace ref as).space ref = as := by
  cases ref with
  | kernel => rfl
  | user pid => simp [Machine.setSpace, Machine.space]

theorem space_setSpace_of_ne {ref' : SpaceRef} (m : Machine) (as : AddressSpace)
    (h : ref' ≠ ref) : (m.setSpace ref as).space ref' = m.space ref' := by
  cases ref with
  | kernel =>
    cases ref' with
    | kernel => exact absurd rfl h
    | user pid => rfl
  | user pid =>
    cases ref' with
    | kernel => rfl
    | user pid' =>
      have hne : pid' ≠ pid := fun heq => h (by rw [heq])
      simp [Machine.setSpace, Machine.space, hne]

theorem advances_setSpace_of_ne {ref' : SpaceRef} (m : Machine) (as : AddressSpace)
    (h : ref' ≠ ref) : Advances ref' m (m.setSpace ref as) [] := by
  have hspace := space_setSpace_of_ne m as h
  exact ⟨by rw [hspace], by simp [Stacked, Machine.mark, hspace], by simp,
    fun _ _ => by simp [Machine.mark, hspace]⟩

theorem insertVad_ok {vad : Vad} (h : insertVad ref size flags backing m = (.ok vad, m')) :
    Advances ref m m' [(vad.start, alignUp size)] ∧ ∀ ref', ref' ≠ ref → Advances ref' m m' [] := by
  unfold insertVad at h
  dsimp only at h
  split at h
  · rename_i hroom
    obtain ⟨hvad, rfl⟩ := Prod.mk.inj h
    obtain rfl := Outcome.ok.inj hvad
    simp only [AddressSpace.hasRoom, decide_eq_true_eq] at hroom
    refine ⟨⟨?_, ?_, ?_, ?_⟩, fun ref' hne => advances_setSpace_of_ne m _ hne⟩
    · rw [space_setSpace_self]
    · simp [Stacked, Machine.mark, space_setSpace_self]
    · simp only [List.mem_singleton, forall_eq]
      omega
    · simp [Machine.mark, space_setSpace_self]
  · exact absurd (Prod.mk.inj h).1 (by simp)

theorem reserveVad_cases {o : Outcome KernelError Vad}
    (h : reserveVad ref size flags backing m = (o, m')) (ho : o ≠ .stuck) :
    (∃ e, o = .err e ∧ OnlyKernelGrows m m') ∨ ∃ vad m₁, o = .ok vad ∧ OnlyKernelGrows m m₁ ∧
        insertVad ref size flags backing m₁ = (.ok vad, m') := by
  have hrefl := onlyKernelGrows_isEffect.refl m
  unfold reserveVad at h
  rw [Prog.get_bind_apply] at h
  -- The four checks on entry fail without touching the state.
  split at h
  · exact .inl ⟨_, (Prod.mk.inj h).1.symm, (Prod.mk.inj h).2 ▸ hrefl⟩
  split at h
  · exact .inl ⟨_, (Prod.mk.inj h).1.symm, (Prod.mk.inj h).2 ▸ hrefl⟩
  split at h
  · exact .inl ⟨_, (Prod.mk.inj h).1.symm, (Prod.mk.inj h).2 ▸ hrefl⟩
  split at h
  · exact .inl ⟨_, (Prod.mk.inj h).1.symm, (Prod.mk.inj h).2 ▸ hrefl⟩
  have hheap := onlyKernelGrows.cacheAllocate m
  rcases hc : cacheAllocate m with ⟨oc, m₁⟩
  rw [hc] at hheap
  cases oc with
  | stuck =>
    rw [Prog.bind_stuck hc] at h
    exact absurd (Prod.mk.inj h).1.symm ho
  | err e =>
    rw [Prog.bind_err hc] at h
    cases h
    exact .inl ⟨e, rfl, hheap (by simp)⟩
  | ok ok =>
    rw [Prog.bind_ok hc] at h
    have hgrow := hheap (by simp)
    cases ok with
    | false =>
      cases h
      exact .inl ⟨_, rfl, hgrow⟩
    | true =>
      replace h : insertVad ref size flags backing m₁ = (o, m') := h
      rcases o with vad | e | _
      · exact .inr ⟨vad, m₁, rfl, hgrow, h⟩
      · refine .inl ⟨e, rfl, ?_⟩
        unfold insertVad at h
        dsimp only at h
        split at h
        · exact absurd (Prod.mk.inj h).1 (by simp)
        · exact (Prod.mk.inj h).2 ▸ hgrow
      · exact absurd rfl ho

theorem reserve_advances {o : Outcome KernelError Nat}
    (h : (do let vad ← reserveVad ref size flags backing; pure vad.start : Vmm Nat) m = (o, m'))
    (ho : o ≠ .stuck) (ref' : SpaceRef) : (∃ e, o = .err e ∧ Advances ref' m m' []) ∨
      ∃ start, o = .ok start ∧
        Advances ref' m m' (if ref = ref' then [(start, alignUp size)] else []) := by
  rcases hr : reserveVad ref size flags backing m with ⟨or, m₂⟩
  cases or with
  | stuck =>
    rw [Prog.bind_stuck hr] at h
    exact absurd (Prod.mk.inj h).1.symm ho
  | err e =>
    rw [Prog.bind_err hr] at h
    cases h
    rcases reserveVad_cases hr (by simp) with ⟨e', _, hgrow⟩ | ⟨vad, _, hok, _⟩
    · exact .inl ⟨e, rfl, hgrow.advances ref'⟩
    · simp at hok
  | ok vad =>
    rw [Prog.bind_ok hr] at h
    cases h
    rcases reserveVad_cases hr (by simp) with ⟨_, herr, _⟩ | ⟨vad', m₁, hok, hgrow, hins⟩
    · simp at herr
    · obtain rfl := Outcome.ok.inj hok
      obtain ⟨hself, hother⟩ := insertVad_ok hins
      refine .inr ⟨vad.start, rfl, ?_⟩
      by_cases href : ref = ref'
      · subst href
        rw [if_pos rfl]
        exact (hgrow.advances ref).trans hself
      · rw [if_neg href]
        exact (hgrow.advances ref').trans (hother ref' fun heq => href heq.symm)

/-- The call asks for a range of `n` bytes in `ref`. -/
def RegionCall.asks (ref : SpaceRef) (n : Nat) : RegionCall → Prop
  | allocateRegion r size _ => r = ref ∧ size = n
  | mapBackingObject r backing size _ => r = ref ∧ backing ≠ none ∧ size = n
  | _ => False

/-- The call returns `AddressSpaceExhausted`. -/
def RegionCall.refused (c : RegionCall) (m : Machine) : Prop :=
  (c.run m).1 = .err .addressSpaceExhausted

/-- The address space of process 1, as `create_user_address_space` leaves it. -/
def freshSpace : AddressSpace :=
  { vads := .nil, translationRoot := 0x1000000, currentBase := 0x10000000, limit := 0xC0000000 }

/-- A machine with that process and nothing mapped. -/
def freshMachine : Machine where
  used := fun _ => true
  maxFrames := 0
  current := 0x1000000
  roots := [0x1000000]
  kernelHalf := PageTables.empty
  userHalf := fun _ => PageTables.empty
  kernel := { translationRoot := 0x1000000, currentBase := 0xC0800000 }
  spaces := fun _ => freshSpace
  heap := []
  stores := []

end UnDOS.Memory
