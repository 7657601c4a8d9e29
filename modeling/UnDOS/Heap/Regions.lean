import UnDOS.Heap.Slots

/-!
# Regions of Large Blocks

What the kernel's address space keeps for the large blocks: `RegionsOk h regions`.

- `reserveVad` takes a region at the bump pointer, above every slab and region, with a small
  block as its descriptor.
-/

namespace UnDOS.Heap

open UnDOS.Memory (Vad VadTree)
open UnDOS.Memory.VadTree (Apart)

/-- A region of whole pages and the object that is its descriptor. -/
structure Region where
  start : Nat
  pages : Nat
  slot : Slot
deriving DecidableEq

/-- The range of a region in the tree. -/
def Region.vad (r : Region) : Vad :=
  { start := r.start, stop := r.start + r.pages * pageSize, flags := {} }

/-- A region below the bump pointer, with its descriptor, apart from every slab. -/
structure RegionOk (h : State) (r : Region) : Prop where
  pages : 0 < r.pages
  below : r.vad.stop ≤ h.currentBase
  descriptor : h.descriptors r.start = some r.slot.addr
  slabs : ∀ b s, h.slabs b = some s → b + pageSize ≤ r.start ∨ r.vad.stop ≤ b

/-- The tree holds exactly the regions of the list. -/
structure RegionsOk (h : State) (regions : List Region) : Prop where
  ordered : h.vads.Ordered
  perm : h.vads.inorder.Perm (regions.map Region.vad)
  apart : (regions.map Region.vad).Pairwise Apart
  region : ∀ r ∈ regions, RegionOk h r

section
variable {h h' : State} {slots : List Slot} {regions : List Region} {r : Region}

theorem Region.nonempty (hr : RegionOk h r) : r.vad.start < r.vad.stop := by
  have hbytes : 0 < r.pages * pageSize := Nat.mul_pos hr.pages (by decide)
  show r.start < r.start + r.pages * pageSize
  omega

theorem RegionsOk.congr {regions' : List Region} (hok : RegionsOk h regions)
    (hperm : regions.Perm regions') : RegionsOk h regions' where
  ordered := hok.ordered
  perm := hok.perm.trans (hperm.map _)
  apart := ((hperm.map _).pairwise_iff Or.symm).1 hok.apart
  region r hr := hok.region r (hperm.mem_iff.2 hr)

/-- Operations on small blocks keep the regions: new slabs lie above them. -/
theorem RegionsOk.frame (hok : RegionsOk h regions) (hframe : Frame h h') :
    RegionsOk h' regions where
  ordered := by
    rw [hframe.vads]
    exact hok.ordered
  perm := by
    rw [hframe.vads]
    exact hok.perm
  apart := hok.apart
  region r hr := by
    have hold := hok.region r hr
    refine ⟨hold.pages, Nat.le_trans hold.below hframe.base, ?_, ?_⟩
    · rw [hframe.descriptors]
      exact hold.descriptor
    · intro b s hs
      rcases hframe.slabs b s hs with ⟨s', hs'⟩ | hb
      · exact hold.slabs b s' hs'
      · exact .inr (Nat.le_trans hold.below hb)

theorem RegionsOk.withHeaders (hok : RegionsOk h regions) (headers : Nat → Option Nat) :
    RegionsOk { h with headers := headers } regions := by
  refine ⟨hok.ordered, hok.perm, hok.apart, fun r hr => ?_⟩
  obtain ⟨hpages, hbelow, hdescriptor, hslabs⟩ := hok.region r hr
  exact ⟨hpages, hbelow, hdescriptor, hslabs⟩

theorem RegionsOk.inorder_apart (hok : RegionsOk h regions) : h.vads.inorder.Pairwise Apart :=
  (hok.perm.pairwise_iff Or.symm).2 hok.apart

theorem RegionsOk.find (hok : RegionsOk h regions) (hr : r ∈ regions) :
    h.vads.find r.start = some r.vad := by
  have hne : ∀ v ∈ h.vads.inorder, v.start < v.stop := by
    intro v hv
    obtain ⟨r', hr', rfl⟩ := List.mem_map.1 (hok.perm.mem_iff.1 hv)
    exact Region.nonempty (hok.region r' hr')
  exact VadTree.find_complete hok.ordered hne hok.inorder_apart
    (hok.perm.mem_iff.2 (List.mem_map_of_mem hr)) .refl
    (Region.nonempty (hok.region r hr))

theorem RegionsOk.start_ne (hok : RegionsOk h (r :: regions)) {r' : Region} (hr' : r' ∈ regions) :
    r'.start ≠ r.start := by
  intro heq
  have hapart := hok.apart
  rw [List.map_cons, List.pairwise_cons] at hapart
  have hne := Region.nonempty (hok.region r (.head _))
  have hne' := Region.nonempty (hok.region r' (.tail _ hr'))
  have hstart : r.vad.start = r'.vad.start := heq.symm
  rcases hapart.1 _ (List.mem_map_of_mem hr') with hd | hd <;> omega

theorem SlotsOk.raise (hok : SlotsOk h slots) (hslabs : h'.slabs = h.slabs)
    (hlinks : h'.links = h.links) (hlists : h'.lists = h.lists)
    (hbytes : h'.allocatedBytes = h.allocatedBytes) (hregistry : h'.registry = h.registry)
    (hbase : h.currentBase ≤ h'.currentBase) (htop : h'.currentBase < 2 ^ 32) :
      SlotsOk h' slots where
  listed := by
    unfold Listed
    rw [hlinks, hlists, hslabs]
    exact hok.listed
  slab := by
    rw [hslabs]
    intro b s hs
    have hold := hok.slab b s hs
    exact { hold with high := Nat.le_trans hold.high hbase }
  apart := by
    rw [hslabs]
    exact hok.apart
  ordered := by
    rw [hregistry]
    exact hok.ordered
  rangesApart := by
    rw [hregistry]
    exact hok.rangesApart
  registered := by
    rw [hregistry, hslabs]
    exact hok.registered
  nodup := hok.nodup
  taken := by
    rw [hslabs]
    exact hok.taken
  bytes := by
    rw [hbytes]
    exact hok.bytes
  top := ⟨Nat.lt_of_lt_of_le hok.top.1 hbase, htop⟩

/-! ## Taking a region -/

theorem RegionsOk.insert (hok : RegionsOk h regions) (hslots : SlotsOk h slots) {pages : Nat}
    (hpages : 0 < pages) (t : Slot)
    (hvads : h'.vads = h.vads.insert (Region.vad ⟨h.currentBase, pages, t⟩))
    (hdescriptors : h'.descriptors = Function.update h.descriptors h.currentBase (some t.addr))
    (hslabs : h'.slabs = h.slabs) (hbase : h'.currentBase = h.currentBase + pages * pageSize) :
    RegionsOk h' (⟨h.currentBase, pages, t⟩ :: regions) where
  ordered := by
    rw [hvads]
    exact hok.ordered.insert _
  perm := by
    rw [hvads]
    exact (VadTree.inorder_insert_perm _ _).trans (hok.perm.cons _)
  apart := by
    rw [List.map_cons, List.pairwise_cons]
    refine ⟨?_, hok.apart⟩
    intro v hv
    obtain ⟨r, hr, rfl⟩ := List.mem_map.1 hv
    exact .inr (hok.region r hr).below
  region := by
    intro r hr
    rcases List.mem_cons.1 hr with rfl | hr
    · refine ⟨hpages, ?_, ?_, ?_⟩
      · rw [hbase]
        exact .refl
      · rw [hdescriptors, Function.update_self]
      · intro b s hs
        rw [hslabs] at hs
        exact .inl (hslots.slab b s hs).high
    · have hold := hok.region r hr
      have hne := Region.nonempty hold
      have hbelow : r.vad.stop ≤ h.currentBase := hold.below
      refine ⟨hold.pages, ?_, ?_, ?_⟩
      · omega
      · have hstart : r.start ≠ h.currentBase := by
          have : r.vad.start = r.start := rfl
          omega
        rw [hdescriptors, Function.update_of_ne hstart]
        exact hold.descriptor
      · rw [hslabs]
        exact hold.slabs

theorem hasRoom_spec {size : Nat} (hroom : hasRoom h size = true) :
    h.currentBase ≤ h.limit ∧ size ≤ h.limit - h.currentBase := of_decide_eq_true hroom

/-- A region is reserved at the base, above all others, or none is. -/
theorem reserveVad_spec (hslots : SlotsOk h slots) (hok : RegionsOk h regions) {pages : Nat}
    (hpages : 0 < pages) {answer : Pages}
    (hroomy : hasRoom h (pages * pageSize) = true → ∀ c, cacheFor sizeofDescriptor = some c →
      Roomy h c answer) (hlimit : h.limit < 2 ^ 32) {res : Option Nat × State}
    (hres : reserveVad h (pages * pageSize) answer = some res) :
    res.2.headers = h.headers ∧ res.2.limit = h.limit ∧
      (res.1 = none ∧ SlotsOk res.2 slots ∧ RegionsOk res.2 regions ∨
        ∃ start t, res.1 = some start ∧ SlotsOk res.2 (t :: slots) ∧
          RegionsOk res.2 (⟨start, pages, t⟩ :: regions)) := by
  unfold reserveVad at hres
  split at hres
  · cases hres
    exact ⟨rfl, rfl, .inl ⟨rfl, hslots, hok⟩⟩
  split at hres
  · cases hres
    exact ⟨rfl, rfl, .inl ⟨rfl, hslots, hok⟩⟩
  rename_i _ hroom
  rw [Bool.not_eq_true', Bool.not_eq_false] at hroom
  rcases hc : cacheFor sizeofDescriptor with _ | c
  · rw [hc] at hres
    cases hres
  rw [hc] at hres
  dsimp only [Option.bind_some] at hres
  rcases htake : cacheAllocate h c answer with _ | ⟨descriptor, h₁⟩
  · rw [htake] at hres
    cases hres
  rw [htake] at hres
  obtain ⟨hframe, hcases⟩ := hslots.take (hroomy hroom c hc) htake
  have hok₁ : RegionsOk h₁ regions := hok.frame hframe
  dsimp only at hres hcases hframe
  rcases hcases with ⟨rfl, hslots₁⟩ | ⟨t, -, -, rfl, hne, hslots₁⟩
  · cases hres
    exact ⟨hframe.headers, hframe.limit, .inl ⟨rfl, hslots₁, hok₁⟩⟩
  rw [if_neg hne] at hres
  split at hres
  · -- The slab of the descriptor took the last room: the descriptor goes back.
    obtain ⟨h₂, hfree, hslots₂, hframe₂, -⟩ := hslots₁.give (t := t) (.head _)
    rw [hfree] at hres
    cases hres
    rw [List.erase_cons_head] at hslots₂
    exact ⟨hframe₂.headers.trans hframe.headers, hframe₂.limit.trans hframe.limit,
      .inl ⟨rfl, hslots₂, hok₁.frame hframe₂⟩⟩
  · rename_i hroom₁
    rw [Bool.not_eq_true', Bool.not_eq_false] at hroom₁
    obtain ⟨hle, hfits⟩ := hasRoom_spec hroom₁
    cases hres
    refine ⟨hframe.headers, hframe.limit, .inr ⟨h₁.currentBase, t, rfl, ?_, ?_⟩⟩
    · refine hslots₁.raise rfl rfl rfl rfl rfl (Nat.le_add_right _ _) ?_
      have hlim := hframe.limit
      show h₁.currentBase + pages * pageSize < 2 ^ 32
      omega
    · exact hok₁.insert hslots₁ hpages t rfl rfl rfl rfl

/-! ## Giving a region back -/

theorem RegionsOk.remove (hok : RegionsOk h (r :: regions))
    (hvads : h'.vads = h.vads.remove r.start) (hdescriptors : h'.descriptors = h.descriptors)
    (hslabs : h'.slabs = h.slabs) (hbase : h'.currentBase = h.currentBase) :
    RegionsOk h' regions := by
  obtain ⟨a, b, hold, hnew⟩ := VadTree.inorder_remove (hok.find (.head _))
  have hapart := hok.apart
  rw [List.map_cons, List.pairwise_cons] at hapart
  refine ⟨?_, ?_, hapart.2, ?_⟩
  · unfold VadTree.Ordered
    rw [hvads, hnew]
    have hord := hok.ordered
    unfold VadTree.Ordered at hord
    rw [hold] at hord
    exact hord.sublist ((List.Sublist.refl a).append (List.sublist_cons_self _ b))
  · have hperm := hok.perm
    rw [hold] at hperm
    rw [hvads, hnew]
    exact (List.perm_middle.symm.trans hperm).cons_inv
  · intro r' hr'
    have hregion := hok.region r' (.tail _ hr')
    refine ⟨hregion.pages, ?_, ?_, ?_⟩
    · rw [hbase]
      exact hregion.below
    · rw [hdescriptors]
      exact hregion.descriptor
    · rw [hslabs]
      exact hregion.slabs

theorem freeRegion_spec (hslots : SlotsOk h (r.slot :: slots)) (hok : RegionsOk h (r :: regions)) :
    ∃ h', freeRegion h r.start = some h' ∧ h'.headers = h.headers ∧ h'.limit = h.limit ∧
      SlotsOk h' slots ∧ RegionsOk h' regions := by
  have hfind := hok.find (.head _)
  have hdescriptor := (hok.region r (.head _)).descriptor
  have hslots₁ : SlotsOk { h with vads := h.vads.remove r.start } (r.slot :: slots) :=
    hslots.raise rfl rfl rfl rfl rfl .refl hslots.top.2
  have hok₁ : RegionsOk { h with vads := h.vads.remove r.start } regions :=
    hok.remove rfl rfl rfl rfl
  obtain ⟨h', hfree, hslots', hframe, -⟩ := hslots₁.give (.head _)
  rw [List.erase_cons_head] at hslots'
  refine ⟨h', ?_, hframe.headers, hframe.limit, hslots', hok₁.frame hframe⟩
  unfold freeRegion
  rw [hfind]
  dsimp only
  rw [show h.descriptors r.vad.start = _ from hdescriptor]
  exact hfree

end

end UnDOS.Heap
