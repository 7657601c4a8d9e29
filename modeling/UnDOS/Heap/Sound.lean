import UnDOS.Heap.Regions

/-!
# The Kernel Heap Keeps Blocks Apart

`Sound h live`: the blocks of `live` are those that were handed out and not freed.  A live block
is an object of a slab, or a region that has another object as its descriptor.

All this rests on new slabs lying above everything that was taken before, which fails when the
address space runs out: `allocate_slab` does not compare with the limit, as `reserve_vad` does.
-/

namespace UnDOS.Heap

open UnDOS.Lib
open UnDOS.Memory (Vad VadTree)
open UnDOS.Memory.VadTree (Apart)

/-! ## Live blocks -/

/-- A block with the size that was asked for. -/
inductive Block where
  | small (slot : Slot) (size : Nat)
  | large (region : Region) (size : Nat)
deriving DecidableEq

namespace Block

/-- The object that the block is, or that its descriptor is. -/
def slot : Block → Slot
  | small t _ => t
  | large r _ => r.slot

def region : Block → Option Region
  | small _ _ => none
  | large r _ => some r

/-- Where the block starts and where its room ends. -/
def extent : Block → Nat × Nat
  | small t _ => (t.addr, t.addr + (layoutOf t.cache).objectSize)
  | large r _ => (r.start + sizeofHeader, r.vad.stop)

/-- What the caller knows of the block. -/
def entry : Block → Nat × Nat
  | small t n => (t.addr, n)
  | large r n => (r.start + sizeofHeader, n)

@[simp] theorem entry_fst (b : Block) : b.entry.1 = b.extent.1 := by
  cases b <;> rfl

end Block

/-- A block is large enough, and the header of a large one is in place. -/
def BlockOk (h : State) (b : Block) : Prop :=
  0 < b.entry.2 ∧ b.entry.1 + b.entry.2 ≤ b.extent.2 ∧
    ∀ r, b.region = some r → h.headers r.start = some r.pages

/-- The heap, when `live` are the blocks that are held. -/
structure Sound (h : State) (live : List Block) : Prop where
  slots : SlotsOk h (live.map Block.slot)
  regions : RegionsOk h (live.filterMap Block.region)
  block : ∀ b ∈ live, BlockOk h b
  limit : h.limit = 2 ^ 32 - 1

section
variable {h h' : State} {live live' : List Block} {b : Block}

theorem SlotsOk.congr {slots slots' : List Slot} (hok : SlotsOk h slots)
    (hperm : slots.Perm slots') : SlotsOk h slots' :=
  { hok with
    nodup := hperm.nodup_iff.1 hok.nodup
    taken := fun t => hperm.mem_iff.symm.trans (hok.taken t)
    bytes := fun c => by rw [hok.bytes c, hperm.countP_eq] }

theorem Sound.congr (hs : Sound h live) (hperm : live.Perm live') : Sound h live' where
  slots := hs.slots.congr (hperm.map _)
  regions := hs.regions.congr (hperm.filterMap _)
  block b hb := hs.block b (hperm.mem_iff.2 hb)
  limit := hs.limit

theorem BlockOk.congr (hb : BlockOk h b)
    (hheaders : ∀ r, b.region = some r → h'.headers r.start = h.headers r.start) :
      BlockOk h' b := by
  obtain ⟨hpos, hfits, hheader⟩ := hb
  exact ⟨hpos, hfits, fun r hr => (hheaders r hr).trans (hheader r hr)⟩

theorem sound_booted {base : Nat} (hbase : 0 < base) (htop : base < 2 ^ 32) :
    Sound (State.booted base) [] where
  slots :=
    { listed := ⟨fun _ => [], Intrusive.isFamily_empty (fun _ => rfl),
      fun b c k => by simp [State.booted]⟩
      slab := fun b s hs => by cases hs
      apart := fun b b' s s' hs => by cases hs
      ordered := List.Pairwise.nil
      rangesApart := List.Pairwise.nil
      registered := fun v => by simp [State.booted, VadTree.inorder]
      nodup := List.nodup_nil
      taken := fun t => by simp [State.booted]
      bytes := fun c => by simp [State.booted]
      top := ⟨hbase, htop⟩ }
  regions := ⟨List.Pairwise.nil, List.Perm.nil, List.Pairwise.nil, fun r hr => by cases hr⟩
  block b hb := by cases hb
  limit := rfl

/-! ## Blocks are apart -/

/-- Two ranges have no address in common. -/
def RangesApart (a b : Nat × Nat) : Prop := a.2 ≤ b.1 ∨ b.2 ≤ a.1

theorem SlotsOk.objects_apart {slots : List Slot} (hok : SlotsOk h slots) {t t' : Slot}
    (ht : t ∈ slots) (ht' : t' ∈ slots) (hne : t ≠ t') :
    t.addr + (layoutOf t.cache).objectSize ≤ t'.addr ∨
      t'.addr + (layoutOf t'.cache).objectSize ≤ t.addr := by
  obtain ⟨s, hs, hc, -⟩ := (hok.taken t).1 ht
  obtain ⟨s', hs', hc', -⟩ := (hok.taken t').1 ht'
  obtain ⟨hlo, hend, hcontrol, -⟩ := hok.object ht
  obtain ⟨hlo', hend', hcontrol', -⟩ := hok.object ht'
  by_cases hbase : t.base = t'.base
  · -- In one slab the objects have different indices.
    have hss : s = s' := Option.some.inj (hs.symm.trans (hbase ▸ hs'))
    have hcache : t.cache = t'.cache := by rw [← hc, ← hc', hss]
    have hindex : t.index ≠ t'.index := by
      intro hindex
      obtain ⟨c, b, i⟩ := t
      dsimp only at hbase hcache hindex
      exact hne (by rw [hbase, hcache, hindex])
    have hstep : ∀ i j : Nat, i < j → i * (layoutOf t'.cache).objectSize +
        (layoutOf t'.cache).objectSize ≤ j * (layoutOf t'.cache).objectSize := by
      intro i j hij
      rw [← Nat.succ_mul]
      exact Nat.mul_le_mul_right _ hij
    unfold Slot.addr
    rw [hcache]
    rcases Nat.lt_or_gt_of_ne hindex with hlt | hlt
    · have := hstep _ _ hlt
      exact .inl (by omega)
    · have := hstep _ _ hlt
      exact .inr (by omega)
  · rcases hok.apart _ _ s s' hs hs' hbase with hd | hd
    · exact .inl (by omega)
    · exact .inr (by omega)

theorem RegionOk.object_apart {slots : List Slot} {r : Region} (hr : RegionOk h r)
    (hok : SlotsOk h slots) {t : Slot} (ht : t ∈ slots) :
    t.addr + (layoutOf t.cache).objectSize ≤ r.start ∨ r.vad.stop ≤ t.addr := by
  obtain ⟨s, hs, -⟩ := (hok.taken t).1 ht
  obtain ⟨hlo, hend, hcontrol, -⟩ := hok.object ht
  rcases hr.slabs _ s hs with hd | hd
  · exact .inl (by omega)
  · exact .inr (by omega)

/-- Live blocks are pairwise apart. -/
theorem Sound.extents_apart (hs : Sound h live) :
    live.Pairwise fun a b => RangesApart a.extent b.extent := by
  have hslots : live.Pairwise fun a b => a.slot ≠ b.slot := List.pairwise_map.1 hs.slots.nodup
  have hregions : live.Pairwise fun a b =>
      ∀ r, a.region = some r → ∀ r', b.region = some r' → Apart r.vad r'.vad :=
    List.pairwise_filterMap.1 (List.pairwise_map.1 hs.regions.apart)
  have hregion : ∀ b ∈ live, ∀ r, b.region = some r → RegionOk h r :=
    fun b hb r hr => hs.regions.region r (List.mem_filterMap.2 ⟨b, hb, hr⟩)
  apply (hslots.and hregions).imp_of_mem
  rintro a b ha hb ⟨hslot, hapart⟩
  have hta := List.mem_map_of_mem (f := Block.slot) ha
  have htb := List.mem_map_of_mem (f := Block.slot) hb
  cases a with
  | small t n =>
    cases b with
    | small t' n' => exact hs.slots.objects_apart hta htb hslot
    | large r' n' =>
      rcases (hregion _ hb r' rfl).object_apart hs.slots hta with hd | hd
      · exact .inl (Nat.le_trans hd (Nat.le_add_right _ _))
      · exact .inr hd
  | large r n =>
    cases b with
    | small t' n' =>
      rcases (hregion _ ha r rfl).object_apart hs.slots htb with hd | hd
      · exact .inr (Nat.le_trans hd (Nat.le_add_right _ _))
      · exact .inl hd
    | large r' n' =>
      rcases hapart r rfl r' rfl with hd | hd
      · exact .inl (Nat.le_trans hd (Nat.le_add_right _ _))
      · exact .inr (Nat.le_trans hd (Nat.le_add_right _ _))

/-- A live block is apart from the control data of every slab. -/
theorem Sound.control_apart (hs : Sound h live) (hb : b ∈ live) {base : Nat} {s : Slab}
    (hslab : h.slabs base = some s) :
    b.extent.2 ≤ base + (layoutOf s.cache).controlOffset ∨ base + pageSize ≤ b.extent.1 := by
  cases b with
  | small t n =>
    have ht := List.mem_map_of_mem (f := Block.slot) hb
    obtain ⟨s', hs', hc, -⟩ := (hs.slots.taken _).1 ht
    obtain ⟨hlo, hend, hcontrol, -⟩ := hs.slots.object ht
    dsimp only [Block.slot] at hs' hc hlo hend hcontrol
    unfold Block.extent
    dsimp only
    by_cases hbase : t.base = base
    · have hss : s = s' := Option.some.inj (hslab.symm.trans (hbase ▸ hs'))
      rw [hss, hc, ← hbase]
      exact .inl hend
    · rcases hs.slots.apart _ _ _ _ hs' hslab hbase with hd | hd
      · exact .inl (by omega)
      · exact .inr (by omega)
  | large r n =>
    have hr := hs.regions.region r (List.mem_filterMap.2 ⟨_, hb, rfl⟩)
    rcases hr.slabs base s hslab with hd | hd
    · exact .inr (Nat.le_trans hd (Nat.le_add_right _ _))
    · exact .inl (Nat.le_trans hd (Nat.le_add_right _ _))

theorem Sound.extent_pos (hs : Sound h live) (hb : b ∈ live) : b.extent.1 < b.extent.2 := by
  obtain ⟨hpos, hfits, -⟩ := hs.block b hb
  rw [Block.entry_fst] at hfits
  omega

/-! ## Calls -/

/-- A large request gets as far as asking for a descriptor. -/
def reserves (h : State) (size : Nat) (weather : Weather) : Bool :=
  decide (size ≤ 2 ^ 32 - 1 - sizeofHeader ∧ size + sizeofHeader ≤ 2 ^ 32 - 1 - (pageSize - 1)) &&
    weather.large != .noFrames && hasRoom h (largePages size * pageSize)

/-- The cache that a request takes an object from, if it gets that far. -/
def requestCache (h : State) (size : Nat) (weather : Weather) : Option CacheIndex :=
  if size = 0 then none
  else
    match cacheFor size with
    | some c => some c
    | none => if reserves h size weather then cacheFor sizeofDescriptor else none

/-- If the call makes the heap take a new slab, its page ends below `slabLimit`. -/
def Call.Fits (h : State) : Call → Prop
  | .malloc size weather => ∀ c, requestCache h size weather = some c → Roomy h c weather.slab
  | .free _ => True

theorem le_largePages (size : Nat) : size + sizeofHeader ≤ largePages size * pageSize :=
  le_roundUp (show 0 < pageSize by decide) (size + sizeofHeader)

theorem largePages_pos (size : Nat) : 0 < largePages size := by
  have hle := le_largePages size
  have hheader : 0 < sizeofHeader := by decide
  rcases Nat.eq_zero_or_pos (largePages size) with hzero | hpos
  · rw [hzero] at hle
    omega
  · exact hpos

theorem Sound.cacheAllocate (hs : Sound h live) {c : CacheIndex} {size : Nat} (hpos : 0 < size)
    (hsize : size ≤ (layoutOf c).objectSize) {answer : Pages} (hroomy : Roomy h c answer)
    {r : Nat × State} (hr : cacheAllocate h c answer = some r) : r.1 = 0 ∧ Sound r.2 live ∨
      ∃ b : Block, b.entry = (r.1, size) ∧ r.1 ≠ 0 ∧ Sound r.2 (b :: live) := by
  obtain ⟨hframe, hcases⟩ := hs.slots.take hroomy hr
  have hblock : ∀ b ∈ live, BlockOk r.2 b := fun b hb =>
    (hs.block b hb).congr fun r _ => by rw [hframe.headers]
  have hlimit : r.2.limit = 2 ^ 32 - 1 := hframe.limit.trans hs.limit
  rcases hcases with ⟨hzero, hslots⟩ | ⟨t, -, rfl, haddr, hne, hslots⟩
  · exact .inl ⟨hzero, hslots, hs.regions.frame hframe, hblock, hlimit⟩
  · refine .inr ⟨.small t size, by rw [haddr]; rfl, haddr ▸ hne, hslots,
      hs.regions.frame hframe, ?_, hlimit⟩
    intro b hb
    rcases List.mem_cons.1 hb with rfl | hb
    · refine ⟨hpos, Nat.add_le_add_left hsize _, fun r hr => by cases hr⟩
    · exact hblock b hb

theorem Sound.allocateLarge (hs : Sound h live) {size : Nat} (hpos : 0 < size) {weather : Weather}
    (hroomy : reserves h size weather = true → ∀ c, cacheFor sizeofDescriptor = some c →
      Roomy h c weather.slab) {r : Nat × State} (hr : allocateLarge h size weather = some r) :
    r.1 = 0 ∧ Sound r.2 live ∨
      ∃ b : Block, b.entry = (r.1, size) ∧ r.1 ≠ 0 ∧ Sound r.2 (b :: live) := by
  unfold Heap.allocateLarge at hr
  split at hr
  · cases hr
    exact .inl ⟨rfl, hs⟩
  split at hr
  · cases hr
    exact .inl ⟨rfl, hs⟩
  split at hr
  · cases hr
    exact .inl ⟨rfl, hs⟩
  rename_i hsize₁ hsize₂ hframes
  have hreserves : hasRoom h (largePages size * pageSize) = true → ∀ c,
      cacheFor sizeofDescriptor = some c → Roomy h c weather.slab := by
    intro hroom
    apply hroomy
    simp only [reserves, Bool.and_eq_true, decide_eq_true_eq, bne_iff_ne]
    exact ⟨⟨⟨Nat.le_of_not_lt hsize₁, Nat.le_of_not_lt hsize₂⟩, hframes⟩, hroom⟩
  rcases hres : reserveVad h (largePages size * pageSize) weather.slab with _ | ⟨virt, h₁⟩
  · rw [hres] at hr
    cases hr
  rw [hres] at hr
  obtain ⟨hheaders, hlimit, hcases⟩ := reserveVad_spec hs.slots hs.regions (largePages_pos size)
    hreserves (by rw [hs.limit]; decide) hres
  rcases hcases with ⟨rfl, hslots, hregions⟩ | ⟨start, t, rfl, hslots, hregions⟩
  · cases hr
    exact .inl ⟨rfl, hslots, hregions, fun b hb => (hs.block b hb).congr
      fun r _ => by rw [hheaders],
      hlimit.trans hs.limit⟩
  dsimp only at hr
  split at hr
  · -- The pages cannot be mapped: the region goes back at once.
    obtain ⟨h₂, hfree, hheaders₂, hlimit₂, hslots₂, hregions₂⟩ :=
      freeRegion_spec (r := ⟨start, largePages size, t⟩) hslots hregions
    rw [hfree] at hr
    cases hr
    exact .inl ⟨rfl, hslots₂, hregions₂,
      fun b hb => (hs.block b hb).congr fun r _ => by rw [hheaders₂, hheaders],
      (hlimit₂.trans hlimit).trans hs.limit⟩
  · -- The block begins behind the header, on the first page of the region.
    cases hr
    refine .inr ⟨.large ⟨start, largePages size, t⟩ size, rfl, Nat.succ_ne_zero _, ?_, ?_, ?_, ?_⟩
    · exact hslots.raise rfl rfl rfl rfl rfl .refl hslots.top.2
    · exact hregions.withHeaders _
    · intro b hb
      rcases List.mem_cons.1 hb with rfl | hb
      · refine ⟨hpos, ?_, ?_⟩
        · have hle := le_largePages size
          show start + sizeofHeader + size ≤ start + largePages size * pageSize
          omega
        · rintro r hr
          cases hr
          exact Function.update_self _ _ _
      · refine (hs.block b hb).congr fun r hr => ?_
        have hne := hregions.start_ne (List.mem_filterMap.2 ⟨b, hb, hr⟩)
        show Function.update h₁.headers start _ r.start = _
        rw [Function.update_of_ne hne, hheaders]
    · exact hlimit.trans hs.limit

/-- `KE_Malloc` answers null and hands out nothing, or hands out a new block. -/
theorem keMalloc_sound (hs : Sound h live) {size : Nat} {weather : Weather}
    (hfits : (Call.malloc size weather).Fits h) {r : Nat × State}
    (hr : keMalloc h size weather = some r) : r.1 = 0 ∧ Sound r.2 live ∨
      ∃ b : Block, b.entry = (r.1, size) ∧ r.1 ≠ 0 ∧ Sound r.2 (b :: live) := by
  unfold keMalloc at hr
  unfold Call.Fits requestCache at hfits
  split at hr
  · cases hr
    exact .inl ⟨rfl, hs⟩
  rename_i hzero
  dsimp only at hfits
  rw [if_neg hzero] at hfits
  have hpos := Nat.pos_of_ne_zero hzero
  rcases hcache : cacheFor size with _ | c
  · rw [hcache] at hr hfits
    refine hs.allocateLarge hpos (fun hreserves => ?_) hr
    rw [if_pos hreserves] at hfits
    exact hfits
  · rw [hcache] at hr hfits
    have hsize : size ≤ (layoutOf c).objectSize := by
      simpa using List.find?_some hcache
    exact hs.cacheAllocate hpos hsize (hfits c rfl) hr

/-- `KE_Free` of a live block returns, and the block is gone. -/
theorem keFree_sound (hs : Sound h (b :: live)) :
    ∃ h', keFree h b.extent.1 = some h' ∧ Sound h' live := by
  have hbelow : ∀ b' ∈ live, BlockOk h b' := fun b' hb' => hs.block b' (.tail _ hb')
  cases b with
  | small t n =>
    have ht : t ∈ (Block.small t n :: live).map Block.slot := .head _
    have hne := Slot.addr_ne_zero hs.slots ht
    obtain ⟨h', hfree, hslots, hframe, -⟩ := hs.slots.give ht
    obtain ⟨s, hslab, -⟩ := (hs.slots.taken t).1 ht
    obtain ⟨hlo, hend, hcontrol, -⟩ := hs.slots.object ht
    have hsize := layoutOf_objectSize_pos t.cache
    have hfind := hs.slots.find hslab hlo (by omega)
    refine ⟨h', ?_, ?_, hs.regions.frame hframe, ?_, hframe.limit.trans hs.limit⟩
    · unfold keFree Block.extent
      rw [if_neg hne, hfind]
      exact hfree
    · rw [List.map_cons, show (Block.small t n).slot = t from rfl, List.erase_cons_head] at hslots
      exact hslots
    · intro b' hb'
      exact (hbelow b' hb').congr fun r _ => by rw [hframe.headers]
  | large r n =>
    have hregion := hs.regions.region r (.head _)
    have hslots : SlotsOk { h with headers := Function.update h.headers r.start none }
        (r.slot :: live.map Block.slot) :=
      hs.slots.raise rfl rfl rfl rfl rfl .refl hs.slots.top.2
    have hregions : RegionsOk { h with headers := Function.update h.headers r.start none }
        (r :: live.filterMap Block.region) := hs.regions.withHeaders _
    obtain ⟨h', hfree, hheaders, hlimit, hslots', hregions'⟩ := freeRegion_spec hslots hregions
    have hheader : h.headers r.start = some r.pages :=
      (hs.block _ (.head _)).2.2 r rfl
    -- The block lies in no slab, so `find_slab` misses it.
    have hfind : h.registry.find (r.start + sizeofHeader) = none := by
      refine hs.slots.find_none fun base s hslab => ?_
      have hextent : r.start + sizeofHeader < r.vad.stop :=
        hs.extent_pos (b := .large r n) (.head _)
      rcases hregion.slabs base s hslab with hd | hd
      · exact .inr (Nat.le_trans hd (Nat.le_add_right _ _))
      · exact .inl (Nat.lt_of_lt_of_le hextent hd)
    refine ⟨h', ?_, hslots', hregions', ?_, hlimit.trans hs.limit⟩
    · unfold keFree Block.extent
      rw [hfind]
      unfold freeLarge
      dsimp only
      rw [Nat.add_sub_cancel, hheader]
      exact hfree
    · intro b' hb'
      refine (hbelow b' hb').congr fun r' hr' => ?_
      have hne := hs.regions.start_ne (List.mem_filterMap.2 ⟨b', hb', hr'⟩)
      rw [hheaders]
      show Function.update h.headers r.start none r'.start = _
      rw [Function.update_of_ne hne]

end

/-! ## Runs -/

/-- A call that returned and took no slab above `slabLimit`. -/
def FitStep (p : State × View) (call : Call) (q : State × View) : Prop :=
  Step p call q ∧ call.Fits p.1

/-- Where a block of `n` bytes at `p` may lie: in one object of a slab, or in one region behind
its header. -/
def Placed (h : State) (p n : Nat) : Prop :=
  (∃ base s i, h.slabs base = some s ∧ i < (layoutOf s.cache).objects ∧
    p = base + i * (layoutOf s.cache).objectSize ∧ n ≤ (layoutOf s.cache).objectSize ∧
    p + n ≤ base + (layoutOf s.cache).controlOffset) ∨
  ∃ v ∈ h.vads.inorder, (h.headers v.start).isSome ∧ p = v.start + sizeofHeader ∧ p + n ≤ v.stop

/-- What the heap is for: the blocks of a view are usable, the slabs are in order, and nothing is
counted that is not held. -/
structure HeapRight (h : State) (view : View) : Prop where
  placed : ∀ block ∈ view, block.1 ≠ 0 ∧ Placed h block.1 block.2
  apart : view.Pairwise fun a b => a.1 + a.2 ≤ b.1 ∨ b.1 + b.2 ≤ a.1
  control : ∀ block ∈ view, ∀ base s, h.slabs base = some s →
    block.1 + block.2 ≤ base + (layoutOf s.cache).controlOffset ∨ base + pageSize ≤ block.1
  listed : Listed h
  drained : view = [] → ∀ c, h.allocatedBytes c = 0
  frees : ∀ block ∈ view, (keFree h block.1).isSome

/-- A view that shows the live blocks of a sound heap. -/
def Shows (p : State × View) : Prop := ∃ live, Sound p.1 live ∧ p.2.Perm (live.map Block.entry)

section
variable {h : State} {live : List Block} {b : Block}

theorem Sound.placed (hs : Sound h live) (hb : b ∈ live) :
    b.entry.1 ≠ 0 ∧ Placed h b.entry.1 b.entry.2 := by
  obtain ⟨hpos, hfits, hheader⟩ := hs.block b hb
  cases b with
  | small t n =>
    have ht := List.mem_map_of_mem (f := Block.slot) hb
    obtain ⟨s, hslab, hc, hidx, -⟩ := (hs.slots.taken _).1 ht
    obtain ⟨-, hend, -, -⟩ := hs.slots.object ht
    refine ⟨Slot.addr_ne_zero hs.slots ht, .inl ⟨t.base, s, t.index, hslab, ?_⟩⟩
    rw [hc]
    exact ⟨hidx, rfl, Nat.le_of_add_le_add_left hfits, Nat.le_trans hfits hend⟩
  | large r n =>
    have hr : r ∈ live.filterMap Block.region := List.mem_filterMap.2 ⟨_, hb, rfl⟩
    refine ⟨Nat.succ_ne_zero _, .inr ⟨r.vad, ?_, ?_, rfl, hfits⟩⟩
    · exact hs.regions.perm.mem_iff.2 (List.mem_map_of_mem hr)
    · rw [show h.headers r.vad.start = some r.pages from hheader r rfl]
      rfl

theorem Sound.entries_apart (hs : Sound h live) :
    (live.map Block.entry).Pairwise fun a b => a.1 + a.2 ≤ b.1 ∨ b.1 + b.2 ≤ a.1 := by
  rw [List.pairwise_map]
  apply hs.extents_apart.imp_of_mem
  intro a b ha hb hapart
  obtain ⟨-, hfits, -⟩ := hs.block a ha
  obtain ⟨-, hfits', -⟩ := hs.block b hb
  rw [Block.entry_fst] at hfits hfits' ⊢
  rw [Block.entry_fst]
  rcases hapart with hd | hd
  · exact .inl (Nat.le_trans hfits hd)
  · exact .inr (Nat.le_trans hfits' hd)

theorem Shows.right {p : State × View} (hp : Shows p) : HeapRight p.1 p.2 := by
  obtain ⟨live, hs, hperm⟩ := hp
  have hlive : ∀ block ∈ p.2, ∃ b ∈ live, b.entry = block :=
    fun block hblock => List.mem_map.1 (hperm.mem_iff.1 hblock)
  refine ⟨?_, ?_, ?_, hs.slots.listed, ?_, ?_⟩
  · intro block hblock
    obtain ⟨b, hb, rfl⟩ := hlive block hblock
    exact hs.placed hb
  · exact (hperm.pairwise_iff Or.symm).2 hs.entries_apart
  · intro block hblock base s hslab
    obtain ⟨b, hb, rfl⟩ := hlive block hblock
    obtain ⟨-, hfits, -⟩ := hs.block b hb
    rw [Block.entry_fst] at hfits ⊢
    rcases hs.control_apart hb hslab with hd | hd
    · exact .inl (Nat.le_trans hfits hd)
    · exact .inr hd
  · intro hempty c
    rw [hempty, List.nil_perm, List.map_eq_nil_iff] at hperm
    rw [hs.slots.bytes c, hperm]
    rfl
  · intro block hblock
    obtain ⟨b, hb, rfl⟩ := hlive block hblock
    obtain ⟨h', hfree, -⟩ := keFree_sound (hs.congr (List.perm_cons_erase hb))
    rw [Block.entry_fst, hfree]
    rfl

theorem Sound.filter_entries (hs : Sound h (b :: live)) :
    ((b :: live).map Block.entry).filter (fun block => block.1 ≠ b.entry.1) =
      live.map Block.entry := by
  have hapart := List.pairwise_cons.1 hs.extents_apart
  rw [List.map_cons, List.filter_cons_of_neg (by simp), List.filter_eq_self]
  intro block hblock
  obtain ⟨b', hb', rfl⟩ := List.mem_map.1 hblock
  have hpos := hs.extent_pos (b := b) (.head _)
  have hpos' := hs.extent_pos (b := b') (.tail _ hb')
  rw [decide_eq_true_eq, Block.entry_fst, Block.entry_fst]
  rcases hapart.1 b' hb' with hd | hd <;> omega

/-- One fitting call: the blocks that the caller sees are those of the heap. -/
theorem Shows.step {p q : State × View} {call : Call} (hp : Shows p) (hstep : FitStep p call q) :
    Shows q := by
  obtain ⟨live, hs, hperm⟩ := hp
  obtain ⟨⟨hpermitted, hnext⟩, hfits⟩ := hstep
  cases call with
  | malloc size weather =>
    obtain ⟨r, hr, rfl⟩ := Option.map_eq_some_iff.1 hnext
    rcases keMalloc_sound hs hfits hr with ⟨hzero, hs'⟩ | ⟨b, hentry, hne, hs'⟩
    · refine ⟨live, hs', ?_⟩
      rw [if_pos hzero]
      exact hperm
    · refine ⟨b :: live, hs', ?_⟩
      rw [if_neg hne, List.map_cons, hentry]
      exact hperm.cons _
  | free ptr =>
    obtain ⟨h', hh', rfl⟩ := Option.map_eq_some_iff.1 hnext
    rcases hpermitted with rfl | ⟨size, hin⟩
    · -- The null pointer frees nothing, and no block starts at null.
      cases hh'
      refine ⟨live, hs, ?_⟩
      have hkeep : p.2.filter (fun block => block.1 ≠ 0) = p.2 := by
        rw [List.filter_eq_self]
        intro block hblock
        obtain ⟨b, hb, rfl⟩ := List.mem_map.1 (hperm.mem_iff.1 hblock)
        exact decide_eq_true (hs.placed hb).1
      rw [hkeep]
      exact hperm
    · obtain ⟨b, hb, hentry⟩ := List.mem_map.1 (hperm.mem_iff.1 hin)
      have hs₁ := hs.congr (List.perm_cons_erase hb)
      have hptr : ptr = b.entry.1 := by rw [hentry]
      obtain ⟨h'', hfree, hs'⟩ := keFree_sound hs₁
      rw [hptr, Block.entry_fst, hfree] at hh'
      cases hh'
      refine ⟨live.erase b, hs', ?_⟩
      have hfilter := (hperm.trans ((List.perm_cons_erase hb).map _)).filter
        (fun block => block.1 ≠ b.entry.1)
      rw [hs₁.filter_entries] at hfilter
      rw [hptr]
      exact hfilter

end

/-- Every run of the heap in which each new slab finds room keeps blocks apart, each large enough
and in its place, and ends with nothing counted when all is freed. -/
theorem heap_blocks_right {base : Nat} (hbase : 0 < base) (htop : base < 2 ^ 32)
    {run : List (Call × State × View)} (hrun : Run FitStep (State.booted base, []) run) :
    HeapRight (lastState (State.booted base, []) run).1 (lastState (State.booted base, []) run).2 :=
  Shows.right (hrun.invariant ⟨[], sound_booted hbase htop, List.Perm.nil⟩
    fun _ _ _ hp hstep => hp.step hstep)

/-! ## Replaying calls -/

instance (v : View) (call : Call) : Decidable (call.Permitted v) :=
  match call with
  | .malloc size _ => inferInstanceAs (Decidable (size < 2 ^ 32))
  | .free ptr =>
    decidable_of_iff (ptr = 0 ∨ ptr ∈ v.map Prod.fst) (by simp [Call.Permitted])

instance (h : State) (c : CacheIndex) (pages : Pages) : Decidable (Roomy h c pages) :=
  inferInstanceAs (Decidable (¬(_ ∨ _) → pages = .mapped → _ ≤ slabLimit))

instance (h : State) (call : Call) : Decidable (call.Fits h) :=
  match call with
  | .malloc size weather =>
    inferInstanceAs (Decidable (∀ c, requestCache h size weather = some c → Roomy h c weather.slab))
  | .free _ => isTrue trivial

/-- A call that is permitted. -/
def Call.permittedNext (p : State × View) (call : Call) : Option (State × View) :=
  if call.Permitted p.2 then call.next p else none

/-- A call that is permitted and takes no slab above `slabLimit`. -/
def Call.fitNext (p : State × View) (call : Call) : Option (State × View) :=
  if call.Fits p.1 then call.permittedNext p else none

theorem Call.step_of_permittedNext (p : State × View) (call : Call) (q : State × View)
    (h : call.permittedNext p = some q) : Step p call q := by
  unfold Call.permittedNext at h
  split at h
  · rename_i hpermitted
    exact ⟨hpermitted, h⟩
  · cases h

theorem Call.step_of_fitNext (p : State × View) (call : Call) (q : State × View)
    (h : call.fitNext p = some q) : FitStep p call q := by
  unfold Call.fitNext at h
  split at h
  · rename_i hfits
    exact ⟨call.step_of_permittedNext p q h, hfits⟩
  · cases h

/-- A small block, a large one, a request with no frames left, and both blocks freed. -/
def sampleCalls : List Call :=
  [.malloc 100 {}, .malloc 5000 {}, .malloc 2000 { slab := .noFrames }, .free 0xD0001000,
    .free 0xD0004008]

theorem heap_blocks_right_freed :
    ∃ run : List (Call × State × View), Run FitStep (State.booted 0xD0000000, []) run ∧
      (lastState (State.booted 0xD0000000, []) run).2 = [] ∧
      (∀ c, (lastState (State.booted 0xD0000000, []) run).1.allocatedBytes c = 0) := by
  have hview : (replay Call.fitNext (State.booted 0xD0000000, []) sampleCalls).map (·.2) =
      some [] := by
    decide +kernel
  obtain ⟨q, hq, hempty⟩ := Option.map_eq_some_iff.1 hview
  obtain ⟨run, hrun, -, rfl⟩ := Run.exists_replay Call.step_of_fitNext
    (Run.nil : Run FitStep (State.booted 0xD0000000, []) []) hq
  exact ⟨run, hrun, hempty, (heap_blocks_right (by decide) (by decide) hrun).drained hempty⟩

/-- Two large blocks taken and freed, one that cannot be mapped, and a small request, which
takes the slab at address 0 and answers null for its first object. -/
def wrappingCalls : List Call :=
  [.malloc 0x0FFFFFF8 {}, .free 0xD0002008, .malloc 0x0FFFFFF8 {}, .free 0xE0002008,
    .malloc 0x0FFFCFF8 { large := .mapFails }, .malloc 16 {}]

theorem heap_blocks_wrong_after_wrap :
    ¬∀ (base : Nat) (run : List (Call × State × View)), 0 < base → base < 2 ^ 32 →
      Run Step (State.booted base, []) run →
      HeapRight (lastState (State.booted base, []) run).1 (lastState (State.booted base, [])
        run).2 := by
  intro hall
  have hcounted : (replay Call.permittedNext (State.booted 0xD0000000, []) wrappingCalls).map
      (fun p => (p.2, p.1.allocatedBytes 0)) = some ([], 16) := by
    decide +kernel
  obtain ⟨q, hq, hmap⟩ := Option.map_eq_some_iff.1 hcounted
  obtain ⟨hempty, hbytes⟩ := Prod.mk.inj hmap
  obtain ⟨run, hrun, -, rfl⟩ := Run.exists_replay Call.step_of_permittedNext
    (Run.nil : Run Step (State.booted 0xD0000000, []) []) hq
  have hzero := (hall _ run (by decide) (by decide) hrun).drained hempty 0
  rw [hzero] at hbytes
  cases hbytes

end UnDOS.Heap
