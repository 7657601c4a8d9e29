import UnDOS.Lib.Run
import UnDOS.Memory.Rollback

/-!
# Regions of an Address Space

The ranges of an address space come from three places: `reserve_vad` and the growth of the
kernel heap take them at a bump pointer, and `map_fixed_memory` takes them where the
caller asks.  Only the last looks at the regions that exist.

`Regions` is the machine with the pages of the live slabs.  Where a call asks the heap for
a descriptor, and so may make it grow, is `AddressCall.heapAt`.
-/

namespace UnDOS.Memory

open UnDOS.Lib
open UnDOS.Kernel (KernelError)

/-! ## Calls -/

inductive AddressCall where
  | allocateRegion (ref : SpaceRef) (size : Nat) (flags : ProtectFlags)
  | mapBackingObject (ref : SpaceRef) (backing : Option BackingKind) (size : Nat)
      (flags : ProtectFlags)
  | allocateMemory (ref : SpaceRef) (size : Nat) (flags : ProtectFlags)
  | mapFixedMemory (ref : SpaceRef) (address size : Nat) (flags : ProtectFlags)
  | freeRegion (ref : SpaceRef) (addr : Nat)
  /-- A request to the kernel heap by somebody else. -/
  | cacheAllocate
deriving DecidableEq

/-- The machine after a routine that returned, whatever it returned. -/
def settled {α : Type} : Outcome KernelError α × Machine → Option Machine
  | (.stuck, _) => none
  | (_, m) => some m

/-- The checks of `reserve_vad` before it allocates the descriptor. -/
def AddressSpace.reserveChecks (as : AddressSpace) (size : Nat) : Bool :=
  decide (as.currentBase ≠ 0 ∧ size ≠ 0 ∧ size ≤ uintptrMax - (pageSize - 1)) &&
    as.hasRoom (alignUp size)

/-- The checks of `map_fixed_memory` before it allocates the descriptor. -/
def AddressSpace.fixedChecks (as : AddressSpace) (address size : Nat) : Bool :=
  decide (size ≠ 0 ∧ address % pageSize = 0 ∧ 0x10000 ≤ address ∧ address < as.limit ∧
    size ≤ as.limit - address ∧ size ≤ uintptrMax - (pageSize - 1) ∧
    alignUp size ≤ as.limit - address) &&
  as.vads.postorder.all fun v => decide (v.stop ≤ address ∨ address + alignUp size ≤ v.start)

/-- The page of the slab that a request to the heap adds. -/
def slabOf (m : Machine) : List Nat :=
  match cacheAllocate m with
  | (.ok true, m') =>
    if m'.kernel.currentBase = m.kernel.currentBase then []
    else [m.kernel.currentBase + pageSize]
  | _ => []

namespace AddressCall

def next (m : Machine) : AddressCall → Option Machine
  | allocateRegion ref size flags => settled (Memory.allocateRegion ref size flags m)
  | mapBackingObject ref backing size flags =>
    settled (Memory.mapBackingObject ref backing size flags m)
  | allocateMemory ref size flags => settled (Memory.allocateMemory ref size flags m)
  | mapFixedMemory ref address size flags =>
    settled (Memory.mapFixedMemory ref address size flags m)
  | freeRegion ref addr => settled (Memory.freeRegion ref addr m)
  | cacheAllocate => settled (Memory.cacheAllocate m)

/-- The pages that `allocate_memory` asks for. -/
def pages (size : Nat) : Nat := (size + pageSize - 1) / pageSize

/-- The state in which the call asks the heap for an object, if it gets that far. -/
def heapAt (m : Machine) : AddressCall → Option Machine
  | allocateRegion ref size _ => if (m.space ref).reserveChecks size then some m else none
  | mapBackingObject ref backing size _ =>
    if backing.isSome ∧ (m.space ref).reserveChecks size then some m else none
  | allocateMemory ref size _ =>
    if size = 0 ∨ size > uintptrMax - (pageSize - 1) then none
    else match pmmAllocateFrames (pages size) m with
      | (.ok phys, m₁) =>
        if phys ≠ 0 ∧ (m₁.space ref).reserveChecks (pages size * pageSize) then some m₁ else none
      | _ => none
  | mapFixedMemory ref address size _ =>
    if (m.space ref).fixedChecks address size then some m else none
  | freeRegion _ _ => none
  | cacheAllocate => some m

/-- The slab that the call adds. -/
def newSlabs (m : Machine) (c : AddressCall) : List Nat := ((c.heapAt m).map slabOf).getD []

/-- The address space and the size of the range that the call takes at the bump pointer. -/
def reserves : AddressCall → Option (SpaceRef × Nat)
  | allocateRegion ref size _ => some (ref, size)
  | mapBackingObject ref _ size _ => some (ref, size)
  | allocateMemory ref size _ => some (ref, pages size * pageSize)
  | _ => none

end AddressCall

/-- The machine and the pages of the live slabs. -/
structure Regions where
  machine : Machine
  slabs : List Nat

/-- Slabs are in the kernel's address space. -/
def Regions.slabsIn (s : Regions) : SpaceRef → List Nat
  | .kernel => s.slabs
  | .user _ => []

/-- A call that returns. -/
def Regions.Step (s : Regions) (c : AddressCall) (s' : Regions) : Prop :=
  c.next s.machine = some s'.machine ∧
    s'.slabs = c.newSlabs s.machine ++ s.slabs

/-! ## Disjoint ranges -/

/-- Every range of an address space: its regions and its slabs. -/
def ranges (as : AddressSpace) (slabs : List Nat) : List (Nat × Nat) :=
  as.vads.inorder.map (fun v => (v.start, v.stop)) ++ slabs.map fun p => (p, p + pageSize)

/-- Ranges that have no address in common. -/
def RangesApart (a b : Nat × Nat) : Prop := a.2 ≤ b.1 ∨ b.2 ≤ a.1

/-- The regions and slabs of an address space are apart and below its limit, and `find`
returns the region that holds an address. -/
structure RegionsDisjoint (as : AddressSpace) (slabs : List Nat) : Prop where
  apart : (ranges as slabs).Pairwise RangesApart
  below : ∀ r ∈ ranges as slabs, r.2 ≤ as.limit
  find : ∀ addr v, as.vads.find addr = some v ↔
    v ∈ as.vads.inorder ∧ v.start ≤ addr ∧ addr < v.stop

/-! ## The ranges taken at a bump pointer -/

/-- A new slab ends below the kernel's limit and meets no region. -/
def SlabClear (m : Machine) : Prop :=
  ∀ p ∈ slabOf m, p + pageSize ≤ m.kernel.limit ∧
    ∀ v ∈ m.kernel.vads.inorder, v.stop ≤ p ∨ p + pageSize ≤ v.start

/-- The range that `reserve_vad` takes once it has its descriptor meets no region. -/
def RangeClear (m : Machine) (ref : SpaceRef) (size : Nat) : Prop :=
  ∀ m', cacheAllocate m = (.ok true, m') → (m'.space ref).hasRoom (alignUp size) = true →
    ∀ v ∈ (m'.space ref).vads.inorder,
      v.stop ≤ (m'.space ref).currentBase ∨ (m'.space ref).currentBase + size ≤ v.start

/-- Nothing lies in the ranges that the call takes at a bump pointer. -/
def Regions.Clear (s : Regions) (c : AddressCall) : Prop :=
  ∀ m, c.heapAt s.machine = some m →
    SlabClear m ∧ ∀ ref size, c.reserves = some (ref, size) → RangeClear m ref size

def Regions.ClearStep (s : Regions) (c : AddressCall) (s' : Regions) : Prop :=
  s.Clear c ∧ s.Step c s'

/-! ## The invariant -/

structure SpaceOk (as : AddressSpace) (slabs : List Nat) : Prop where
  ordered : as.vads.Ordered
  bounds : ∀ v ∈ as.vads.inorder, v.start < v.stop ∧ v.stop ≤ as.limit
  apart : as.vads.inorder.Pairwise VadTree.Apart
  slabsBelow : ∀ p ∈ slabs, p + pageSize ≤ as.limit
  slabsApart : slabs.Pairwise fun p q => p + pageSize ≤ q ∨ q + pageSize ≤ p
  across : ∀ v ∈ as.vads.inorder, ∀ p ∈ slabs, v.stop ≤ p ∨ p + pageSize ≤ v.start

structure Regions.Inv (s : Regions) : Prop where
  spaces : ∀ ref, SpaceOk (s.machine.space ref) (s.slabsIn ref)
  high : KernelHigh s.machine
  aligned : s.machine.kernel.currentBase % pageSize = 0
  behind : ∀ p ∈ s.slabs, p % pageSize = 0 ∧ p + pageSize ≤ s.machine.kernel.currentBase
  mapped : ∀ p ∈ s.slabs, pdIndex (pageOf p) < tempPdSlot ∧
    ∀ root, ∃ e, s.machine.walk root (pageOf p) = some e

/-- Before the first call: no regions, no slabs, and the kernel's bump pointer at a page of
the kernel half. -/
structure Regions.Fresh (s : Regions) : Prop where
  spaces : ∀ ref, (s.machine.space ref).vads = .nil
  slabs : s.slabs = []
  high : KernelHigh s.machine
  aligned : s.machine.kernel.currentBase % pageSize = 0

variable {as : AddressSpace} {m m' : Machine} {ref : SpaceRef} {size address : Nat}
  {flags : ProtectFlags}

theorem SpaceOk.disjoint {slabs : List Nat} (h : SpaceOk as slabs) : RegionsDisjoint as slabs := by
  refine ⟨?_, ?_, ?_⟩
  · unfold ranges
    rw [List.pairwise_append, List.pairwise_map, List.pairwise_map]
    refine ⟨h.apart, h.slabsApart, ?_⟩
    intro a ha b hb
    obtain ⟨v, hv, rfl⟩ := List.mem_map.1 ha
    obtain ⟨p, hp, rfl⟩ := List.mem_map.1 hb
    exact h.across v hv p hp
  · intro r hr
    rcases List.mem_append.1 hr with hr | hr
    · obtain ⟨v, hv, rfl⟩ := List.mem_map.1 hr
      exact (h.bounds v hv).2
    · obtain ⟨p, hp, rfl⟩ := List.mem_map.1 hr
      exact h.slabsBelow p hp
  · intro addr v
    constructor
    · exact VadTree.find_mem
    · rintro ⟨hv, hlo, hhi⟩
      exact VadTree.find_complete h.ordered (fun w hw => (h.bounds w hw).1) h.apart hv hlo hhi

theorem Regions.Fresh.inv {s : Regions} (h : s.Fresh) : s.Inv := by
  have hslabs : ∀ ref, s.slabsIn ref = [] := by
    intro ref
    cases ref with
    | kernel => exact h.slabs
    | user pid => rfl
  refine ⟨?_, h.high, h.aligned, by rw [h.slabs]; simp, by rw [h.slabs]; simp⟩
  intro ref
  rw [hslabs ref]
  refine ⟨?_, ?_, ?_, by simp, List.Pairwise.nil, by simp⟩
  · rw [h.spaces ref]
    exact List.Pairwise.nil
  · rw [h.spaces ref]
    simp [VadTree.inorder]
  · rw [h.spaces ref]
    exact List.Pairwise.nil

/-! ## What the parts of a call do -/

namespace SpaceOk

variable {as : AddressSpace} {slabs : List Nat}

theorem insert (h : SpaceOk as slabs) {v : Vad} {base : Nat} (hne : v.start < v.stop)
    (hlimit : v.stop ≤ as.limit)
    (hvads : ∀ w ∈ as.vads.inorder, w.stop ≤ v.start ∨ v.stop ≤ w.start)
    (hslabs : ∀ p ∈ slabs, v.stop ≤ p ∨ p + pageSize ≤ v.start) :
    SpaceOk { as with vads := as.vads.insert v, currentBase := base } slabs := by
  have hmem : ∀ w, w ∈ (as.vads.insert v).inorder ↔ w = v ∨ w ∈ as.vads.inorder := by
    intro w
    rw [(VadTree.inorder_insert_perm v as.vads).mem_iff, List.mem_cons]
  refine ⟨h.ordered.insert v, ?_, ?_, h.slabsBelow, h.slabsApart, ?_⟩
  · intro w hw
    rcases (hmem w).1 hw with rfl | hw
    · exact ⟨hne, hlimit⟩
    · exact h.bounds w hw
  · have hsymm : ∀ {a b : Vad}, VadTree.Apart a b → VadTree.Apart b a := fun hab => hab.symm
    apply ((VadTree.inorder_insert_perm v as.vads).pairwise_iff hsymm).2
    exact List.pairwise_cons.2 ⟨fun w hw => (hvads w hw).symm, h.apart⟩
  · intro w hw p hp
    rcases (hmem w).1 hw with rfl | hw
    · exact hslabs p hp
    · exact h.across w hw p hp

theorem remove (h : SpaceOk as slabs) {addr : Nat} {v : Vad} (hfind : as.vads.find addr = some v) :
    SpaceOk { as with vads := as.vads.remove addr } slabs := by
  obtain ⟨a, b, hold, hnew⟩ := VadTree.inorder_remove hfind
  have hsub : (as.vads.remove addr).inorder.Sublist as.vads.inorder := by
    rw [hold, hnew]
    exact (List.Sublist.refl a).append (List.sublist_cons_self v b)
  refine ⟨h.ordered.sublist hsub, fun w hw => h.bounds w (hsub.mem hw), h.apart.sublist hsub,
    h.slabsBelow, h.slabsApart, fun w hw => h.across w (hsub.mem hw)⟩

theorem grow (h : SpaceOk as slabs) {p base : Nat} (hlimit : p + pageSize ≤ as.limit)
    (hvads : ∀ v ∈ as.vads.inorder, v.stop ≤ p ∨ p + pageSize ≤ v.start)
    (hslabs : ∀ q ∈ slabs, q + pageSize ≤ p) :
    SpaceOk { as with currentBase := base } (p :: slabs) := by
  refine ⟨h.ordered, h.bounds, h.apart, ?_, ?_, ?_⟩
  · intro q hq
    rcases List.mem_cons.1 hq with rfl | hq
    · exact hlimit
    · exact h.slabsBelow q hq
  · exact List.pairwise_cons.2 ⟨fun q hq => .inr (hslabs q hq), h.slabsApart⟩
  · intro v hv q hq
    rcases List.mem_cons.1 hq with rfl | hq
    · exact hvads v hv
    · exact h.across v hv q hq

end SpaceOk

theorem placeSlab_ok {virt : Nat} (h : placeSlab m = (.ok virt, m')) :
    virt = m.kernel.currentBase + pageSize ∧
      m' = { m with kernel := { m.kernel with currentBase := virt + pageSize } } := by
  unfold placeSlab at h
  dsimp only at h
  split at h
  · exact absurd (Prod.mk.inj h).1 (by simp)
  · obtain ⟨hvirt, hm'⟩ := Prod.mk.inj h
    obtain rfl := Outcome.ok.inj hvirt
    exact ⟨rfl, hm'.symm⟩

/-- What a request to the heap does: nothing to the address spaces, or a slab. -/
theorem cacheAllocate_cases {ok : Bool} (h : cacheAllocate m = (.ok ok, m')) :
    Extends m m' ∧ m'.spaces = m.spaces ∧ ((m'.kernel = m.kernel ∧ slabOf m = []) ∨
        (slabOf m = [m.kernel.currentBase + pageSize] ∧
          m'.kernel = { m.kernel with currentBase := m.kernel.currentBase + pageSize + pageSize } ∧
          pdIndex (pageOf (m.kernel.currentBase + pageSize)) < tempPdSlot ∧
          ∃ e, m'.walk m'.current (pageOf (m.kernel.currentBase + pageSize)) = some e)) := by
  refine ⟨extends_cacheAllocate.of_eq h (by simp), (onlyKernelGrows.cacheAllocate.of_eq h
    (by simp)).spaces, ?_⟩
  have hslab : m'.kernel = m.kernel → slabOf m = [] := by
    intro hk
    unfold slabOf
    rw [h]
    cases ok with
    | true => exact if_pos (by rw [hk])
    | false => rfl
  have hgrown : ok = true → m.kernel.currentBase < m'.kernel.currentBase →
      slabOf m = [m.kernel.currentBase + pageSize] := by
    rintro rfl hlt
    unfold slabOf
    rw [h]
    exact if_neg hlt.ne'
  rcases hheap : m.heap with _ | ⟨answer, rest⟩
  · have hsame : m' = m := by
      unfold cacheAllocate at h
      rw [Prog.get_bind_apply, hheap] at h
      exact (Prod.mk.inj h).2.symm
    exact .inl ⟨by rw [hsame], hslab (by rw [hsame])⟩
  · unfold cacheAllocate at h
    rw [Prog.get_bind_apply, hheap] at h
    dsimp only at h
    rw [Prog.modify_bind_apply] at h
    cases answer with
    | reuse =>
      cases h
      exact .inl ⟨rfl, hslab rfl⟩
    | grow =>
      obtain ⟨phys, m₁, hpmm, h⟩ := Prog.bind_eq_ok.1 h
      have hsame₁ := (sameSpaces_shape.pmmAllocateFrames 1).of_eq hpmm (by simp)
      split at h
      · cases h
        exact .inl ⟨hsame₁.kernel, hslab hsame₁.kernel⟩
      -- The slab is placed, mapped and written to.
      generalize hgen : placeSlab = place at h
      rw [Prog.bind_eq_ok] at h
      obtain ⟨virt, m₂, hplace, h⟩ := h
      rw [← hgen] at hplace
      obtain ⟨rfl, rfl⟩ := placeSlab_ok hplace
      rw [Prog.bind_eq_ok] at h
      obtain ⟨mapped, m₃, hmap, h⟩ := h
      rw [Prog.get_bind_apply] at h
      have hsame₃ := (sameSpaces_shape.vmmMapPage _ _ _).of_eq hmap (by simp)
      obtain ⟨-, hpd, -⟩ := vmmMapPage_ok hmap
      rw [hsame₁.kernel] at hpd
      rcases hw : m₃.walk m₃.current (pageOf (m₁.kernel.currentBase + pageSize)) with _ | e
      · rw [hw] at h
        simp at h
      · rw [hw] at h
        obtain ⟨hok, rfl⟩ := Prod.mk.inj h
        have hk : m₃.kernel =
            { m.kernel with currentBase := m.kernel.currentBase + pageSize + pageSize } := by
          rw [hsame₃.kernel]
          rw [hsame₁.kernel]
        rw [hsame₁.kernel] at hw
        refine .inr ⟨hgrown (Outcome.ok.inj hok).symm ?_, hk, hpd, e, hw⟩
        rw [hk]
        exact Nat.lt_add_right _ (Nat.lt_add_of_pos_right (by decide))

theorem cacheAllocate_space {ok : Bool} (h : cacheAllocate m = (.ok ok, m')) (ref : SpaceRef) :
    (m'.space ref).vads = (m.space ref).vads ∧ (m'.space ref).limit = (m.space ref).limit := by
  obtain ⟨-, hspaces, hcases⟩ := cacheAllocate_cases h
  cases ref with
  | user pid =>
    dsimp only [Machine.space]
    rw [hspaces]
    exact ⟨rfl, rfl⟩
  | kernel =>
    dsimp only [Machine.space]
    rcases hcases with ⟨hkernel, -⟩ | ⟨-, hkernel, -⟩
    · rw [hkernel]
      exact ⟨rfl, rfl⟩
    · rw [hkernel]
      exact ⟨rfl, rfl⟩

/-! ## The invariant through the parts of a call -/

theorem alignUp_mod (n : Nat) : alignUp n % pageSize = 0 := Nat.mul_mod_left _ _

theorem le_alignUp (n : Nat) : n ≤ alignUp n := by
  unfold alignUp pageSize
  omega

theorem alignUp_pos {n : Nat} (h : n ≠ 0) : 0 < alignUp n := by
  have := le_alignUp n
  omega

theorem KernelHigh.slot (h : KernelHigh m) {a : Nat}
    (ha : m.kernel.currentBase ≤ a) : ¬pdIndex (pageOf a) < kernelSplit := by
  unfold KernelHigh pdIndex pageOf pageSize at *
  omega

namespace Regions.Inv

variable {m m' : Machine} {slabs : List Nat}

theorem stays (h : Inv ⟨m, slabs⟩) (hpages : Extends m m') (hsame : SameSpaces m m') :
    Inv ⟨m', slabs⟩ := by
  refine ⟨?_, ?_, ?_, ?_, ?_⟩
  · intro ref
    have hspace := h.spaces ref
    rw [hsame.space ref]
    exact hspace
  · exact (hsame.kernel ▸ h.high : kernelSplit * 1024 * pageSize ≤ m'.kernel.currentBase)
  · rw [hsame.kernel]
    exact h.aligned
  · rw [hsame.kernel]
    exact h.behind
  · intro p hp
    obtain ⟨hpd, hroot⟩ := h.mapped p hp
    refine ⟨hpd, ?_⟩
    intro root
    obtain ⟨e, he⟩ := hroot root
    exact ⟨e, hpages root _ e hpd he⟩

theorem grow {ok : Bool} (h : Inv ⟨m, slabs⟩) (hrun : cacheAllocate m = (.ok ok, m'))
    (hclear : SlabClear m) : Inv ⟨m', slabOf m ++ slabs⟩ := by
  obtain ⟨hpages, hspaces, hcases⟩ := cacheAllocate_cases hrun
  rcases hcases with ⟨hkernel, hnone⟩ | ⟨hslab, hkernel, hpd, e, he⟩
  · rw [hnone]
    exact h.stays hpages ⟨hkernel, hspaces⟩
  · obtain ⟨hlimit, hvads⟩ := hclear _ (by rw [hslab]; exact .head _)
    have haligned := h.aligned
    have hbehind := h.behind
    have hhigh := h.high
    dsimp only at haligned hbehind hhigh
    rw [hslab]
    refine ⟨?_, ?_, ?_, ?_, ?_⟩
    · intro ref
      have hspace := h.spaces ref
      cases ref with
      | kernel =>
        dsimp only [Machine.space] at hspace ⊢
        rw [hkernel]
        apply hspace.grow hlimit hvads
        intro q hq
        exact (hbehind q hq).2.trans (Nat.le_add_right _ _)
      | user pid =>
        dsimp only [Machine.space] at hspace ⊢
        rw [hspaces]
        exact hspace
    · unfold KernelHigh at *
      rw [hkernel]
      dsimp only
      omega
    · rw [hkernel]
      rw [Nat.add_mod_right, Nat.add_mod_right]
      exact haligned
    · intro q hq
      rw [hkernel]
      dsimp only
      rcases List.mem_cons.1 hq with rfl | hq
      · exact ⟨(Nat.add_mod_right _ _).trans haligned, le_rfl⟩
      · exact ⟨(hbehind q hq).1, by have := (hbehind q hq).2; omega⟩
    · intro q hq
      rcases List.mem_cons.1 hq with rfl | hq
      · -- The directories share the table, so the slab is mapped under each of them.
        refine ⟨hpd, ?_⟩
        intro root
        refine ⟨e, ?_⟩
        rw [← he]
        exact walk_kernel (hhigh.slot (Nat.le_add_right _ _)) hpd
      · obtain ⟨hpd', hroot⟩ := h.mapped q hq
        refine ⟨hpd', ?_⟩
        intro root
        obtain ⟨e', he'⟩ := hroot root
        exact ⟨e', hpages root _ e' hpd' he'⟩

theorem setSpace {ref : SpaceRef} {as : AddressSpace} (h : Inv ⟨m, slabs⟩)
    (hspace : SpaceOk as ((⟨m, slabs⟩ : Regions).slabsIn ref))
    (hbase : ref = .kernel → m.kernel.currentBase ≤ as.currentBase ∧
      as.currentBase % pageSize = 0) : Inv ⟨m.setSpace ref as, slabs⟩ := by
  refine ⟨?_, ?_, ?_, ?_, ?_⟩
  · intro ref'
    by_cases href : ref' = ref
    · subst href
      rw [space_setSpace_self]
      exact hspace
    · have hother := h.spaces ref'
      rw [space_setSpace_of_ne m as href]
      exact hother
  · cases ref with
    | kernel => exact le_trans h.high (hbase rfl).1
    | user pid => exact h.high
  · cases ref with
    | kernel => exact (hbase rfl).2
    | user pid => exact h.aligned
  · cases ref with
    | kernel =>
      intro p hp
      exact ⟨(h.behind p hp).1, (h.behind p hp).2.trans (hbase rfl).1⟩
    | user pid => exact h.behind
  · intro p hp
    obtain ⟨hpd, hroot⟩ := h.mapped p hp
    refine ⟨hpd, ?_⟩
    intro root
    obtain ⟨e, he⟩ := hroot root
    exact ⟨e, (walk_setSpace m ref as root _).trans he⟩

theorem freeRegion {ref : SpaceRef} {addr : Nat} {o : Outcome KernelError Unit}
    (h : Inv ⟨m, slabs⟩) (hrun : Memory.freeRegion ref addr m = (o, m')) : Inv ⟨m', slabs⟩ := by
  unfold Memory.freeRegion at hrun
  dsimp only at hrun
  split at hrun
  · cases hrun
    exact h
  · rename_i v hfind
    cases hrun
    apply h.setSpace ((h.spaces ref).remove hfind)
    rintro rfl
    exact ⟨le_rfl, h.aligned⟩

end Regions.Inv

/-! ## One lemma for each call -/

/-- The slab that `reserve_vad` adds. -/
def reserveSlabs (m : Machine) (ref : SpaceRef) (size : Nat) : List Nat :=
  if (m.space ref).reserveChecks size then slabOf m else []

/-- What a call to `reserve_vad` needs. -/
def ReserveClear (m : Machine) (ref : SpaceRef) (size : Nat) : Prop :=
  (m.space ref).reserveChecks size = true → SlabClear m ∧ RangeClear m ref size

theorem reserveSlabs_eq (c : AddressCall)
    (h : c.heapAt m = if (m.space ref).reserveChecks size then some m else none) :
    reserveSlabs m ref size = c.newSlabs m := by
  unfold reserveSlabs AddressCall.newSlabs
  rw [h]
  split
  · rfl
  · rfl

theorem settled_eq_some {α : Type} {r : Outcome KernelError α × Machine} :
    settled r = some m' ↔ ∃ o, o ≠ .stuck ∧ r = (o, m') := by
  obtain ⟨o, m⟩ := r
  cases o with
  | ok a => simp [settled]
  | err e => simp [settled]
  | stuck => simp [settled]

theorem reserveChecks_eq_true : as.reserveChecks size = true ↔
      (as.currentBase ≠ 0 ∧ size ≠ 0 ∧ size ≤ uintptrMax - (pageSize - 1)) ∧
        as.hasRoom (alignUp size) = true := by
  unfold AddressSpace.reserveChecks
  rw [Bool.and_eq_true, decide_eq_true_eq]

theorem reserveVad_unchecked {backing : Option BackingKind} {o : Outcome KernelError Vad}
    (hchecks : ¬(m.space ref).reserveChecks size = true)
    (hrun : reserveVad ref size flags backing m = (o, m')) : m' = m := by
  unfold reserveVad at hrun
  rw [Prog.get_bind_apply] at hrun
  split at hrun
  · exact (Prod.mk.inj hrun).2.symm
  split at hrun
  · exact (Prod.mk.inj hrun).2.symm
  split at hrun
  · exact (Prod.mk.inj hrun).2.symm
  split at hrun
  · exact (Prod.mk.inj hrun).2.symm
  rename_i hbase hsize hmax hroom
  refine absurd (reserveChecks_eq_true.2 ⟨⟨hbase, hsize, Nat.le_of_not_lt hmax⟩, ?_⟩) hchecks
  simpa using hroom

theorem reserveVad_checked {backing : Option BackingKind} {o : Outcome KernelError Vad}
    (hchecks : (m.space ref).reserveChecks size = true)
    (hrun : reserveVad ref size flags backing m = (o, m')) (ho : o ≠ .stuck) :
    ∃ ok m₁, cacheAllocate m = (.ok ok, m₁) ∧
      (m' = m₁ ∨ (ok = true ∧ insertVad ref size flags backing m₁ = (o, m'))) := by
  obtain ⟨⟨hbase, hsize, hmax⟩, hroom⟩ := reserveChecks_eq_true.1 hchecks
  unfold reserveVad at hrun
  rw [Prog.get_bind_apply, if_neg hbase, if_neg hsize, if_neg (not_lt.2 hmax), hroom] at hrun
  obtain ⟨ok, m₁, hheap, hrun⟩ := cacheAllocate_neverFails.bind_run hrun ho
  refine ⟨ok, m₁, hheap, ?_⟩
  cases ok with
  | false => exact .inl (Prod.mk.inj hrun).2.symm
  | true => exact .inr ⟨rfl, hrun⟩

theorem fixedChecks_eq_true : as.fixedChecks address size = true ↔
      (size ≠ 0 ∧ address % pageSize = 0 ∧ 0x10000 ≤ address ∧ address < as.limit ∧
        size ≤ as.limit - address ∧ size ≤ uintptrMax - (pageSize - 1) ∧
        alignUp size ≤ as.limit - address) ∧
      ∀ v ∈ as.vads.inorder, v.stop ≤ address ∨ address + alignUp size ≤ v.start := by
  unfold AddressSpace.fixedChecks
  rw [Bool.and_eq_true, decide_eq_true_eq, List.all_eq_true]
  refine and_congr_right fun _ => ?_
  constructor
  · intro h v hv
    exact of_decide_eq_true (h v ((VadTree.postorder_perm as.vads).mem_iff.2 hv))
  · intro h v hv
    exact decide_eq_true (h v ((VadTree.postorder_perm as.vads).mem_iff.1 hv))

theorem overlap_eq_false {aligned : Nat} :
    (as.vads.postorder.any fun v => address < v.stop && address + aligned > v.start) = false ↔
      ∀ v ∈ as.vads.inorder, v.stop ≤ address ∨ address + aligned ≤ v.start := by
  rw [List.any_eq_false]
  constructor
  · intro h v hv
    have hv' := h v ((VadTree.postorder_perm as.vads).mem_iff.2 hv)
    simp only [Bool.and_eq_true, decide_eq_true_eq] at hv'
    omega
  · intro h v hv
    have hv' := h v ((VadTree.postorder_perm as.vads).mem_iff.1 hv)
    simp only [Bool.and_eq_true, decide_eq_true_eq]
    omega

theorem mapFixedMemory_unchecked {o : Outcome KernelError Unit}
    (hchecks : ¬(m.space ref).fixedChecks address size = true)
    (hrun : mapFixedMemory ref address size flags m = (o, m')) : m' = m := by
  unfold mapFixedMemory at hrun
  rw [Prog.get_bind_apply] at hrun
  split at hrun
  · exact (Prod.mk.inj hrun).2.symm
  split at hrun
  · exact (Prod.mk.inj hrun).2.symm
  split at hrun
  · exact (Prod.mk.inj hrun).2.symm
  split at hrun
  · exact (Prod.mk.inj hrun).2.symm
  split at hrun
  · exact (Prod.mk.inj hrun).2.symm
  rename_i hsize haddr hmax hout hmeet
  refine absurd (fixedChecks_eq_true.2 ⟨?_, overlap_eq_false.1 (by simpa using hmeet)⟩) hchecks
  omega

theorem mapFixedMemory_checked {o : Outcome KernelError Unit}
    (hchecks : (m.space ref).fixedChecks address size = true)
    (hrun : mapFixedMemory ref address size flags m = (o, m')) (ho : o ≠ .stuck) :
    ∃ ok m₁, cacheAllocate m = (.ok ok, m₁) ∧ (m' = m₁ ∨ ∃ f m₂,
      withSpace (decide ((m.space ref).translationRoot ≠ m₁.current))
        (m.space ref).translationRoot (mapFixedPages address (alignUp size / pageSize)
          (flags.or ProtectFlags.onlyUser)) m₁ = (.ok f, m₂) ∧
      ((∃ e, f = some e ∧ m' = m₂) ∨ (f = none ∧ ∃ v : Vad, v.start = address ∧
        v.stop = address + alignUp size ∧ m' = m₂.setSpace ref
          { m₂.space ref with vads := (m₂.space ref).vads.insert v }))) := by
  obtain ⟨hbounds, hapart⟩ := fixedChecks_eq_true.1 hchecks
  unfold mapFixedMemory at hrun
  rw [Prog.get_bind_apply] at hrun
  rw [if_neg hbounds.1, if_neg (by omega), if_neg (by omega), if_neg (by omega),
    overlap_eq_false.2 hapart] at hrun
  obtain ⟨ok, m₁, hheap, hrun⟩ := cacheAllocate_neverFails.bind_run hrun ho
  refine ⟨ok, m₁, hheap, ?_⟩
  cases ok with
  | false => exact .inl (Prod.mk.inj hrun).2.symm
  | true =>
    simp only [Bool.not_true, Bool.false_eq_true, if_false] at hrun
    rw [Prog.get_bind_apply] at hrun
    rcases Prog.bind_run hrun ho with ⟨f, m₂, hspace, hrun⟩ | ⟨e, hspace, -⟩
    · refine .inr ⟨f, m₂, hspace, ?_⟩
      cases f with
      | none => exact .inr ⟨rfl, _, rfl, rfl, (Prod.mk.inj hrun).2.symm⟩
      | some e => exact .inl ⟨e, rfl, (Prod.mk.inj hrun).2.symm⟩
    · -- The loop reports its failure as a value.
      obtain ⟨ob, m₃, hbody, hob, hback⟩ := withSpace_cases hspace (by simp)
      obtain ⟨f, rfl, -⟩ := (Stays.refl _).mapFixedPages hbody hob
      rcases hback with ⟨_, _, -, herr, -⟩ | ⟨_, herr, -⟩
      · cases herr
      · cases herr

namespace Regions.Inv

variable {m m' : Machine} {slabs : List Nat} {ref : SpaceRef}
variable {flags : ProtectFlags} {o : Outcome KernelError Nat}

theorem insertVad {size : Nat} {backing : Option BackingKind}
    {o : Outcome KernelError Vad} (h : Inv ⟨m, slabs⟩) (hsize : size ≠ 0)
    (hclear : (m.space ref).hasRoom (alignUp size) = true → ∀ v ∈ (m.space ref).vads.inorder,
      v.stop ≤ (m.space ref).currentBase ∨ (m.space ref).currentBase + size ≤ v.start)
    (hrun : Memory.insertVad ref size flags backing m = (o, m')) : Inv ⟨m', slabs⟩ := by
  unfold Memory.insertVad at hrun
  dsimp only at hrun
  split at hrun
  · rename_i hroom
    cases hrun
    have hvads := hclear hroom
    have hle := le_alignUp size
    simp only [AddressSpace.hasRoom, decide_eq_true_eq] at hroom
    refine h.setSpace ((h.spaces ref).insert ?_ ?_ hvads ?_) ?_
    · dsimp only
      omega
    · dsimp only
      omega
    · intro p hp
      cases ref with
      | kernel => exact .inr (h.behind p hp).2
      | user pid => simp [slabsIn] at hp
    · rintro rfl
      refine ⟨Nat.le_add_right _ _, ?_⟩
      dsimp only [Machine.space]
      rw [Nat.add_mod, alignUp_mod, h.aligned]
      rfl
  · cases hrun
    exact h

theorem reserveVad {size : Nat} {backing : Option BackingKind}
    {o : Outcome KernelError Vad} (h : Inv ⟨m, slabs⟩) (hclear : ReserveClear m ref size)
    (hrun : Memory.reserveVad ref size flags backing m = (o, m')) (ho : o ≠ .stuck) :
    Inv ⟨m', reserveSlabs m ref size ++ slabs⟩ := by
  unfold reserveSlabs
  by_cases hchecks : (m.space ref).reserveChecks size = true
  · rw [if_pos hchecks]
    obtain ⟨hslab, hrange⟩ := hclear hchecks
    obtain ⟨ok, m₁, hheap, hrest⟩ := reserveVad_checked hchecks hrun ho
    have hgrown := h.grow hheap hslab
    rcases hrest with rfl | ⟨rfl, hinsert⟩
    · exact hgrown
    · exact hgrown.insertVad (reserveChecks_eq_true.1 hchecks).1.2.1 (hrange m₁ hheap) hinsert
  · rw [if_neg hchecks, reserveVad_unchecked hchecks hrun]
    exact h

theorem allocateRegion {size : Nat} (h : Inv ⟨m, slabs⟩) (hclear : ReserveClear m ref size)
    (hrun : Memory.allocateRegion ref size flags m = (o, m')) (ho : o ≠ .stuck) :
    Inv ⟨m', reserveSlabs m ref size ++ slabs⟩ := by
  rcases Prog.bind_run hrun ho with ⟨vad, m₁, hreserve, hpure⟩ | ⟨e, hreserve, -⟩
  · cases hpure
    exact h.reserveVad hclear hreserve (by simp)
  · exact h.reserveVad hclear hreserve (by simp)

theorem used (h : Inv ⟨m, slabs⟩) (u : Nat → Bool) : Inv ⟨{ m with used := u }, slabs⟩ :=
  h.stays (extends_of_walk fun r p => walk_used m u r p) ⟨rfl, rfl⟩

theorem loop {c root : Nat} (h : Inv ⟨m, slabs⟩) (hloop : Stays { m with current := c } root m') :
    Inv ⟨m', slabs⟩ :=
  h.stays hloop.pages ⟨hloop.regions.kernel, hloop.regions.spaces⟩

theorem current (h : Inv ⟨m, slabs⟩) (c : Nat) : Inv ⟨{ m with current := c }, slabs⟩ :=
  h.stays (extends_of_walk fun _ _ => rfl) ⟨rfl, rfl⟩

theorem allocateLoop {switch : Bool} {root virt phys count : Nat}
    {o : Outcome KernelError Bool} (h : Inv ⟨m, slabs⟩)
    (hrun : withSpace switch root (allocatePages ref virt phys count flags) m = (o, m'))
    (ho : o ≠ .stuck) : Inv ⟨m', slabs⟩ := by
  obtain ⟨ob, m₁, hbody, hob, hback⟩ := withSpace_cases hrun ho
  have hinv₁ : Inv ⟨m₁, slabs⟩ := by
    rcases (Stays.refl _).allocatePages hbody hob with ⟨-, hloop, -⟩ | ⟨-, m₂, o₂, hloop, hfree, -⟩
    · exact h.loop hloop
    · exact (h.loop hloop).freeRegion hfree
  rcases hback with ⟨_, c, -, -, rfl⟩ | ⟨_, -, -, rfl⟩
  · exact hinv₁.current c
  · exact hinv₁

theorem allocateMapped {phys count : Nat}
    (h : Inv ⟨m, slabs⟩) (hclear : ReserveClear m ref (count * pageSize))
    (hrun : Memory.allocateMapped ref phys count flags m = (o, m')) (ho : o ≠ .stuck) :
    Inv ⟨m', reserveSlabs m ref (count * pageSize) ++ slabs⟩ := by
  rcases Prog.attempt_run hrun ho with ⟨virt, m₁, hregion, hrun⟩ | ⟨e, m₁, hregion, hrun⟩
  · have hinv₁ := h.allocateRegion hclear hregion (by simp)
    dsimp only at hrun
    rw [Prog.get_bind_apply] at hrun
    rcases Prog.bind_run hrun ho with ⟨ok, m₂, hspace, hrun⟩ | ⟨e, hspace, -⟩
    · have hinv₂ := hinv₁.allocateLoop hspace (by simp)
      split at hrun
      · cases hrun
        exact hinv₂
      · cases hrun
        exact hinv₂.used _
    · exact hinv₁.allocateLoop hspace (by simp)
  · cases hrun
    exact (h.allocateRegion hclear hregion (by simp)).used _

theorem allocateMemory {size : Nat}
    (h : Inv ⟨m, slabs⟩) (hclear : Clear ⟨m, slabs⟩ (.allocateMemory ref size flags))
    (hrun : Memory.allocateMemory ref size flags m = (o, m')) (ho : o ≠ .stuck) :
    Inv ⟨m', (AddressCall.allocateMemory ref size flags).newSlabs m ++ slabs⟩ := by
  unfold Memory.allocateMemory at hrun
  unfold Clear at hclear
  unfold AddressCall.newSlabs
  dsimp only [AddressCall.heapAt] at hclear ⊢
  by_cases hzero : size = 0
  · rw [if_pos hzero] at hrun
    rw [if_pos (.inl hzero)]
    cases hrun
    exact h
  by_cases hmax : size > uintptrMax - (pageSize - 1)
  · rw [if_neg hzero, if_pos hmax] at hrun
    rw [if_pos (.inr hmax)]
    cases hrun
    exact h
  rw [if_neg hzero, if_neg hmax] at hrun
  rw [if_neg (not_or.2 ⟨hzero, hmax⟩)] at hclear ⊢
  obtain ⟨phys, m₁, hpmm, hrun⟩ := (pmmAllocateFrames_neverFails _).bind_run hrun ho
  change pmmAllocateFrames (AddressCall.pages size) m = _ at hpmm
  have hinv₁ : Inv ⟨m₁, slabs⟩ :=
    h.stays (pmmAllocateFrames_ok hpmm).1.walks
      ((sameSpaces_shape.pmmAllocateFrames _).of_eq hpmm (by simp))
  rw [hpmm] at hclear ⊢
  dsimp only at hclear ⊢
  by_cases hphys : phys = 0
  · rw [if_pos hphys] at hrun
    rw [if_neg fun hboth => hboth.1 hphys]
    cases hrun
    exact hinv₁
  · rw [if_neg hphys] at hrun
    have hreserve : ReserveClear m₁ ref (AddressCall.pages size * pageSize) := by
      intro hchecks
      obtain ⟨hslab, hrange⟩ := hclear m₁ (if_pos ⟨hphys, hchecks⟩)
      exact ⟨hslab, hrange ref _ rfl⟩
    have hinv := hinv₁.allocateMapped hreserve hrun ho
    unfold reserveSlabs at hinv
    by_cases hchecks : (m₁.space ref).reserveChecks (AddressCall.pages size * pageSize) = true
    · rw [if_pos hchecks] at hinv
      rw [if_pos ⟨hphys, hchecks⟩]
      exact hinv
    · rw [if_neg hchecks] at hinv
      rw [if_neg fun hboth => hchecks hboth.2]
      exact hinv

theorem newPages_apart {c root address n : Nat} (h : Inv ⟨m, slabs⟩)
    (hnew : Stays.NewPages { m with current := c } root address n)
    (haligned : address % pageSize = 0) :
    ∀ p ∈ slabs, address + n * pageSize ≤ p ∨ p + pageSize ≤ address := by
  intro p hp
  obtain ⟨hmod, -⟩ := h.behind p hp
  obtain ⟨-, hroot⟩ := h.mapped p hp
  by_contra hmeet
  -- The slab's page would be page `k` of the loop, which had no mapping before.
  obtain ⟨k, hk, hpage⟩ : ∃ k < n, address + k * pageSize = p := by
    refine ⟨(p - address) / pageSize, ?_, ?_⟩
    · unfold pageSize at *
      omega
    · unfold pageSize at *
      omega
  obtain ⟨e, he⟩ := hroot root
  have hnone := hnew k hk
  rw [hpage] at hnone
  exact absurd (he.symm.trans hnone) (by simp)

theorem mapFixedMemory {address size : Nat} {o : Outcome KernelError Unit}
    (h : Inv ⟨m, slabs⟩) (hclear : Clear ⟨m, slabs⟩ (.mapFixedMemory ref address size flags))
    (hrun : Memory.mapFixedMemory ref address size flags m = (o, m')) (ho : o ≠ .stuck) :
    Inv ⟨m', (AddressCall.mapFixedMemory ref address size flags).newSlabs m ++ slabs⟩ := by
  unfold Clear at hclear
  unfold AddressCall.newSlabs
  dsimp only [AddressCall.heapAt] at hclear ⊢
  by_cases hchecks : (m.space ref).fixedChecks address size = true
  · rw [if_pos hchecks] at hclear ⊢
    obtain ⟨hslab, -⟩ := hclear m rfl
    obtain ⟨ok, m₁, hheap, hrest⟩ := mapFixedMemory_checked hchecks hrun ho
    have hgrown := h.grow hheap hslab
    rcases hrest with rfl | ⟨f, m₂, hspace, hrest⟩
    · exact hgrown
    obtain ⟨ob, m₃, hbody, hob, hback⟩ := withSpace_cases hspace (by simp)
    obtain ⟨f', rfl, hloop, hnew⟩ := (Stays.refl _).mapFixedPages hbody hob
    obtain ⟨c, rfl, rfl⟩ : ∃ c, f' = f ∧ m₂ = { m₃ with current := c } := by
      rcases hback with ⟨a, c, ha, hf, hm⟩ | ⟨e, he, -⟩
      · exact ⟨c, (Outcome.ok.inj ha).trans (Outcome.ok.inj hf).symm, hm⟩
      · cases he
    have hinv₂ := (hgrown.loop hloop).current c
    rcases hrest with ⟨e, rfl, rfl⟩ | ⟨rfl, v, hstart, hstop, rfl⟩
    · exact hinv₂
    · obtain ⟨hbounds, hapart⟩ := fixedChecks_eq_true.1 hchecks
      have hkept : ({ m₃ with current := c } : Machine).space ref = m₁.space ref := by
        cases ref with
        | kernel => exact hloop.regions.kernel
        | user pid => exact congrFun hloop.regions.spaces pid
      obtain ⟨hvads, hlimit⟩ := cacheAllocate_space hheap ref
      have hpos := alignUp_pos hbounds.1
      refine hinv₂.setSpace ((hinv₂.spaces ref).insert ?_ ?_ ?_ ?_) ?_
      · omega
      · rw [hkept]
        omega
      · rw [hkept, hvads, hstart, hstop]
        exact hapart
      · rw [hstart, hstop]
        cases ref with
        | kernel =>
          have hcount : alignUp size / pageSize * pageSize = alignUp size :=
            Nat.div_mul_cancel (Nat.dvd_of_mod_eq_zero (alignUp_mod size))
          have happ := hgrown.newPages_apart (hnew rfl) hbounds.2.1
          rw [hcount] at happ
          exact happ
        | user pid => simp [slabsIn]
      · rintro rfl
        exact ⟨le_rfl, hinv₂.aligned⟩
  · rw [if_neg hchecks, mapFixedMemory_unchecked hchecks hrun]
    exact h

theorem step {s s' : Regions} {c : AddressCall} (h : s.Inv) (hstep : s.ClearStep c s') :
    s'.Inv := by
  obtain ⟨m, slabs⟩ := s
  obtain ⟨m', slabs'⟩ := s'
  obtain ⟨hclear, hnext, hslabs⟩ := hstep
  subst hslabs
  -- A call that reserves a range asks the heap in the state it starts in.
  have hreserve : ∀ {ref size}, c.reserves = some (ref, size) →
      ((m.space ref).reserveChecks size = true → c.heapAt m = some m) →
      ReserveClear m ref size := by
    intro ref size hres hat hchecks
    obtain ⟨hslab, hrange⟩ := hclear m (hat hchecks)
    exact ⟨hslab, hrange ref size hres⟩
  cases c with
  | allocateRegion ref size flags =>
    obtain ⟨o, ho, hrun⟩ := settled_eq_some.1 hnext
    have hinv := h.allocateRegion (hreserve rfl fun hchecks => if_pos hchecks) hrun ho
    rwa [reserveSlabs_eq (AddressCall.allocateRegion ref size flags) rfl] at hinv
  | mapBackingObject ref backing size flags =>
    obtain ⟨o, ho, hrun⟩ := settled_eq_some.1 hnext
    cases backing with
    | none =>
      cases hrun
      exact h
    | some kind =>
      have hinv := h.reserveVad (hreserve rfl fun hchecks => if_pos ⟨rfl, hchecks⟩) hrun ho
      rwa [reserveSlabs_eq (AddressCall.mapBackingObject ref (some kind) size flags)
        (by simp [AddressCall.heapAt])] at hinv
  | allocateMemory ref size flags =>
    obtain ⟨o, ho, hrun⟩ := settled_eq_some.1 hnext
    exact h.allocateMemory hclear hrun ho
  | mapFixedMemory ref address size flags =>
    obtain ⟨o, ho, hrun⟩ := settled_eq_some.1 hnext
    exact h.mapFixedMemory hclear hrun ho
  | freeRegion ref addr =>
    obtain ⟨o, -, hrun⟩ := settled_eq_some.1 hnext
    exact h.freeRegion hrun
  | cacheAllocate =>
    obtain ⟨o, ho, hrun⟩ := settled_eq_some.1 hnext
    cases o with
    | ok ok => exact h.grow hrun (hclear m rfl).1
    | err e => exact absurd hrun (cacheAllocate_neverFails _ _ _)
    | stuck => exact absurd rfl ho

end Regions.Inv

/-! ## Every run -/

/-- The regions and slabs of every address space stay apart, as long as nothing lies where
a bump pointer hands out the next range. -/
theorem regions_stay_disjoint {start : Regions} (hstart : start.Fresh)
    {run : List (AddressCall × Regions)} (hrun : Run Regions.ClearStep start run) (ref : SpaceRef) :
    RegionsDisjoint ((lastState start run).machine.space ref)
      ((lastState start run).slabsIn ref) := by
  have hinv := Run.invariant hstart.inv (fun _ _ _ h hstep => h.step hstep) hrun
  exact (hinv.spaces ref).disjoint

/-! ## A fixed mapping ahead of the bump pointer -/

/-- Sixteen frames, two of them taken, and the address space of process 1. -/
def smallMachine : Machine where
  used := fun f => decide (f < 2)
  maxFrames := 16
  current := 0x1000
  roots := [0x1000]
  kernelHalf := PageTables.empty
  userHalf := fun _ => PageTables.empty
  kernel := { translationRoot := 0x1000, currentBase := 0xC0800000 }
  spaces := fun _ =>
    { vads := .nil, translationRoot := 0x1000, currentBase := 0x10000000, limit := 0xC0000000 }
  heap := []
  stores := []

theorem smallMachine_fresh : Regions.Fresh ⟨smallMachine, []⟩ := by
  refine ⟨?_, rfl, ?_, by decide⟩
  · intro ref
    cases ref with
    | kernel => rfl
    | user pid => rfl
  · unfold KernelHigh
    decide

/-- One page at a fixed address of process 1. -/
def smallMachineFixed (address : Nat) : Machine :=
  (AddressCall.next smallMachine
    (.mapFixedMemory (.user 1) address 0x1000 ProtectFlags.readWrite)).getD smallMachine

/-- And two pages from the bump pointer on. -/
def smallMachineBoth (address : Nat) : Machine :=
  (AddressCall.next (smallMachineFixed address)
    (.allocateRegion (.user 1) 0x2000 ProtectFlags.readWrite)).getD smallMachine

/-- A page behind the bump pointer is in nobody's way. -/
theorem regions_stay_disjoint_behind : Run Regions.ClearStep ⟨smallMachine, []⟩
      [(.allocateRegion (.user 1) 0x2000 ProtectFlags.readWrite, ⟨smallMachineBoth 0x10000, []⟩),
        (.mapFixedMemory (.user 1) 0x10000 0x1000 ProtectFlags.readWrite,
          ⟨smallMachineFixed 0x10000, []⟩)] ∧
      RegionsDisjoint ((smallMachineBoth 0x10000).space (.user 1)) [] := by
  have hclear₁ : Regions.Clear ⟨smallMachine, []⟩
      (.mapFixedMemory (.user 1) 0x10000 0x1000 ProtectFlags.readWrite) := by
    intro m hat
    obtain rfl : smallMachine = m := Option.some.inj hat
    refine ⟨?_, by simp [AddressCall.reserves]⟩
    intro p hp
    cases hp
  have hclear₂ : Regions.Clear ⟨smallMachineFixed 0x10000, []⟩
      (.allocateRegion (.user 1) 0x2000 ProtectFlags.readWrite) := by
    intro m hat
    obtain rfl : smallMachineFixed 0x10000 = m := Option.some.inj hat
    constructor
    · intro p hp
      cases hp
    · rintro ref size hres m' hheap - v hv
      cases hheap
      obtain ⟨rfl, rfl⟩ := Prod.mk.inj (Option.some.inj hres)
      obtain rfl : v = _ := List.mem_singleton.1 hv
      exact .inl (by decide)
  have hstep₁ : Regions.ClearStep ⟨smallMachine, []⟩ _ ⟨smallMachineFixed 0x10000, []⟩ :=
    ⟨hclear₁, rfl, rfl⟩
  have hstep₂ : Regions.ClearStep ⟨smallMachineFixed 0x10000, []⟩ _
      ⟨smallMachineBoth 0x10000, []⟩ := ⟨hclear₂, rfl, rfl⟩
  have hrun := Run.cons (Run.cons Run.nil hstep₁) hstep₂
  exact ⟨hrun, regions_stay_disjoint smallMachine_fresh hrun (.user 1)⟩

/-- A page mapped at a fixed address one page above the bump pointer, and then two pages
from the bump pointer on: the regions overlap. -/
theorem fixed_mapping_overlapped : Regions.Fresh ⟨smallMachine, []⟩ ∧
    Run Regions.Step ⟨smallMachine, []⟩
      [(.allocateRegion (.user 1) 0x2000 ProtectFlags.readWrite, ⟨smallMachineBoth 0x10001000, []⟩),
        (.mapFixedMemory (.user 1) 0x10001000 0x1000 ProtectFlags.readWrite,
          ⟨smallMachineFixed 0x10001000, []⟩)] ∧
      ¬RegionsDisjoint ((smallMachineBoth 0x10001000).space (.user 1)) [] := by
  refine ⟨smallMachine_fresh, Run.cons (Run.cons Run.nil ⟨rfl, rfl⟩) ⟨rfl, rfl⟩, ?_⟩
  intro h
  have hapart := h.apart
  change List.Pairwise RangesApart [(0x10000000, 0x10002000), (0x10001000, 0x10002000)] at hapart
  simp [RangesApart] at hapart

end UnDOS.Memory
