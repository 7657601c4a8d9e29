import UnDOS.Heap.Blocks

/-!
# Objects in Slabs

What the slabs and caches keep between calls, in terms of the objects that are handed out.

- `Slot` names an object of a slab.  `SlotsOk h slots`: the objects handed out are those of
  `slots`, each slab is on the list of its cache that its count calls for, and the registry finds
  the slab of every address in one.
-/

namespace UnDOS.Heap

open UnDOS.Lib
open UnDOS.Lib.Intrusive (Links Queue IsList IsFamily)
open UnDOS.Memory (Vad VadTree)
open UnDOS.Memory.VadTree (Apart)
open Function (update update_of_ne update_self)

/-! ## Layouts -/

theorem le_roundUp {alignment : Nat} (h : 0 < alignment) (n : Nat) : n ≤ roundUp alignment n := by
  unfold roundUp
  have hlt : n + alignment - 1 < ((n + alignment - 1) / alignment + 1) * alignment :=
    Nat.lt_mul_of_div_lt (Nat.lt_succ_self _) h
  rw [Nat.succ_mul] at hlt
  omega

theorem fitObjects_fits (objectSize slabSize n : Nat) : fitObjects objectSize slabSize n = 0 ∨
      controlOffset objectSize (fitObjects objectSize slabSize n) + sizeofSlab +
        fitObjects objectSize slabSize n * sizeofStorage ≤ slabSize := by
  induction n with
  | zero => exact .inl rfl
  | succ n ih =>
    unfold fitObjects
    split
    · exact ih
    · rename_i hfits
      exact .inr (Nat.le_of_not_lt hfits)

/-- Objects, then control data, all within the slab. -/
structure Layout.Fits (l : Layout) : Prop where
  objects : l.objects * l.objectSize ≤ l.controlOffset
  control : l.controlOffset + sizeofSlab + l.objects * sizeofStorage ≤ l.slabSize

theorem calculateLayout_fits (objectSize alignment pageSize : Nat)
    (h : 0 < (calculateLayout objectSize alignment pageSize).objects) :
    (calculateLayout objectSize alignment pageSize).Fits := by
  unfold calculateLayout at h ⊢
  split at h
  · exact absurd h (Nat.lt_irrefl 0)
  · rename_i hpage
    rw [if_neg hpage]
    refine ⟨le_roundUp (by decide) _, ?_⟩
    rcases fitObjects_fits (roundUp alignment objectSize) pageSize
      ((pageSize - sizeofSlab) / (roundUp alignment objectSize + sizeofStorage)) with hzero | hfits
    · exact absurd h (by dsimp only; omega)
    · exact hfits

theorem layoutOf_objects_pos : ∀ c : CacheIndex, 0 < (layoutOf c).objects := by decide

theorem layoutOf_objectSize_pos : ∀ c : CacheIndex, 0 < (layoutOf c).objectSize := by decide

theorem layoutOf_slabSize (c : CacheIndex) : (layoutOf c).slabSize = pageSize := by
  unfold layoutOf calculateLayout
  split <;> rfl

theorem layoutOf_fits (c : CacheIndex) : (layoutOf c).Fits :=
  calculateLayout_fits _ _ _ (layoutOf_objects_pos c)

theorem object_end {c : CacheIndex} {index : Nat} (h : index < (layoutOf c).objects) :
    index * (layoutOf c).objectSize + (layoutOf c).objectSize ≤ (layoutOf c).controlOffset ∧
      (layoutOf c).controlOffset ≤ pageSize := by
  have hfits := layoutOf_fits c
  have hcontrol := hfits.control
  rw [layoutOf_slabSize] at hcontrol
  refine ⟨?_, by omega⟩
  calc index * (layoutOf c).objectSize + (layoutOf c).objectSize
      = (index + 1) * (layoutOf c).objectSize := (Nat.succ_mul _ _).symm
    _ ≤ (layoutOf c).objects * (layoutOf c).objectSize := Nat.mul_le_mul_right _ h
    _ ≤ (layoutOf c).controlOffset := hfits.objects

/-! ## The lists of the caches -/

@[simp] theorem State.pushBack_slabs (h : State) (l : CacheIndex × SlabList) (b : Nat) :
    (h.pushBack l b).slabs = h.slabs := rfl

/-- The list that a slab belongs on. -/
def Slab.list (s : Slab) : SlabList :=
  if s.empty then .freeSlabs else if s.full then .fullSlabs else .partialSlabs

/-- Every slab is on exactly the list that it belongs on. -/
def Listed (h : State) : Prop :=
  ∃ Q, IsFamily h.links h.lists Q ∧
    ∀ b c k, b ∈ Q (c, k) ↔ ∃ s, h.slabs b = some s ∧ s.cache = c ∧ s.list = k

section Listed
variable {h : State} {b : Nat} {s s' : Slab}

theorem Listed.stay (hl : Listed h) (hb : h.slabs b = some s) (s' : Slab) (hc : s'.cache = s.cache)
    (hk : s'.list = s.list) : Listed (h.setSlab b s') := by
  obtain ⟨Q, hQ, hmem⟩ := hl
  refine ⟨Q, hQ, fun b' c k => (hmem b' c k).trans ?_⟩
  unfold State.setSlab
  dsimp only
  by_cases hb' : b' = b
  · subst hb'
    rw [update_self, hb]
    constructor
    · rintro ⟨s₁, hs₁, rfl, rfl⟩
      cases hs₁
      exact ⟨s', rfl, hc, hk⟩
    · rintro ⟨s₁, hs₁, rfl, rfl⟩
      cases hs₁
      exact ⟨s, rfl, hc.symm, hk.symm⟩
  · rw [update_of_ne hb']

theorem Listed.move (hl : Listed h) (hb : h.slabs b = some s) (s' : Slab)
    (hc : s'.cache = s.cache) :
    Listed (((h.setSlab b s').remove (s.cache, s.list) b).pushBack (s.cache, s'.list) b) := by
  obtain ⟨Q, hQ, hmem⟩ := hl
  have hin : b ∈ Q (s.cache, s.list) := (hmem _ _ _).2 ⟨s, hb, rfl, rfl⟩
  obtain ⟨A, B, hsplit⟩ := List.append_of_mem hin
  have hfree := hQ.remove hsplit
  rw [← (hQ.isList _).detach_eq hin] at hfree
  -- Once it is unlinked, the slab is on no list.
  have hout : ∀ j, b ∉ update Q (s.cache, s.list) (A ++ B) j := by
    intro j hj
    by_cases hji : j = (s.cache, s.list)
    · subst hji
      rw [update_self] at hj
      have hnodup := (hQ.isList (s.cache, s.list)).nodup
      rw [hsplit, List.nodup_middle, List.nodup_cons] at hnodup
      exact hnodup.1 hj
    · rw [update_of_ne hji] at hj
      exact hji (hQ.disjoint j _ b hj hin)
  refine ⟨_, hfree.enqueue (s.cache, s'.list) hout, fun b' c k => ?_⟩
  show _ ↔ ∃ s₁, update h.slabs b (some s') b' = some s₁ ∧ _
  by_cases hb' : b' = b
  · subst hb'
    rw [update_self]
    constructor
    · intro hin'
      by_cases hck : (c, k) = (s.cache, s'.list)
      · cases hck
        exact ⟨s', rfl, hc, rfl⟩
      · rw [update_of_ne hck] at hin'
        exact absurd hin' (hout _)
    · rintro ⟨s₁, hs₁, rfl, rfl⟩
      cases hs₁
      rw [hc]
      simp
  · rw [update_of_ne hb', ← hmem]
    have hstay : b' ∈ update Q (s.cache, s.list) (A ++ B) (c, k) ↔ b' ∈ Q (c, k) := by
      by_cases hck : (c, k) = (s.cache, s.list)
      · rw [hck, hsplit]
        simp [hb']
      · rw [update_of_ne hck]
    by_cases hck : (c, k) = (s.cache, s'.list)
    · rw [hck, update_self, ← hck, List.mem_append, hstay]
      simp [hb']
    · rw [update_of_ne hck, hstay]

theorem Listed.grow (hl : Listed h) (hb : h.slabs b = none) (hk : s.list = .freeSlabs) :
    Listed ((h.setSlab b s).pushBack (s.cache, .freeSlabs) b) := by
  obtain ⟨Q, hQ, hmem⟩ := hl
  have hout : ∀ j, b ∉ Q j := by
    rintro ⟨c, k⟩ hj
    obtain ⟨s₁, hs₁, -⟩ := (hmem b c k).1 hj
    rw [hb] at hs₁
    cases hs₁
  refine ⟨_, hQ.enqueue (s.cache, .freeSlabs) hout, fun b' c k => ?_⟩
  show _ ↔ ∃ s₁, update h.slabs b (some s) b' = some s₁ ∧ _
  by_cases hb' : b' = b
  · subst hb'
    rw [update_self]
    constructor
    · intro hin
      by_cases hck : (c, k) = (s.cache, .freeSlabs)
      · cases hck
        exact ⟨s, rfl, rfl, hk⟩
      · rw [update_of_ne hck] at hin
        exact absurd hin (hout _)
    · rintro ⟨s₁, hs₁, rfl, rfl⟩
      cases hs₁
      rw [hk]
      simp
  · rw [update_of_ne hb', ← hmem]
    by_cases hck : (c, k) = (s.cache, .freeSlabs)
    · rw [hck]
      simp [hb']
    · rw [update_of_ne hck]

theorem Listed.head (hl : Listed h) {c : CacheIndex} {k : SlabList}
    (hb : (h.lists (c, k)).head = some b) : ∃ s, h.slabs b = some s ∧ s.cache = c ∧ s.list = k := by
  obtain ⟨Q, hQ, hmem⟩ := hl
  rw [(hQ.isList (c, k)).head] at hb
  exact (hmem b c k).1 (List.mem_of_head? hb)

end Listed

/-! ## The objects that are handed out -/

/-- An object of a slab. -/
structure Slot where
  cache : CacheIndex
  base : Nat
  index : Nat
deriving DecidableEq

/-- Where the object starts. -/
def Slot.addr (t : Slot) : Nat := t.base + t.index * (layoutOf t.cache).objectSize

/-- A slab below `top` with its free objects. -/
structure SlabOk (top b : Nat) (s : Slab) : Prop where
  nodup : s.freelist.Nodup
  bound : ∀ i ∈ s.freelist, i < (layoutOf s.cache).objects
  count : s.allocated + s.freelist.length = (layoutOf s.cache).objects
  low : 0 < b
  high : b + pageSize ≤ top

/-- The slabs, their lists and the registry, when the objects of `slots` are handed out. -/
structure SlotsOk (h : State) (slots : List Slot) : Prop where
  listed : Listed h
  slab : ∀ b s, h.slabs b = some s → SlabOk h.currentBase b s
  apart : ∀ b b' s s', h.slabs b = some s → h.slabs b' = some s' → b ≠ b' →
    b + pageSize ≤ b' ∨ b' + pageSize ≤ b
  ordered : h.registry.Ordered
  rangesApart : h.registry.inorder.Pairwise Apart
  registered : ∀ v, v ∈ h.registry.inorder ↔ ∃ b s, h.slabs b = some s ∧ v = slabRange b
  nodup : slots.Nodup
  taken : ∀ t, t ∈ slots ↔ ∃ s, h.slabs t.base = some s ∧ s.cache = t.cache ∧
    t.index < (layoutOf t.cache).objects ∧ t.index ∉ s.freelist
  bytes : ∀ c, h.allocatedBytes c =
    UInt32.ofNat ((layoutOf c).objectSize * slots.countP fun t => t.cache = c)
  top : 0 < h.currentBase ∧ h.currentBase < 2 ^ 32

/-- What an operation on small blocks leaves alone: regions stay, and new slabs lie above
everything. -/
structure Frame (h h' : State) : Prop where
  vads : h'.vads = h.vads
  descriptors : h'.descriptors = h.descriptors
  headers : h'.headers = h.headers
  limit : h'.limit = h.limit
  base : h.currentBase ≤ h'.currentBase
  slabs : ∀ b s, h'.slabs b = some s → (∃ s', h.slabs b = some s') ∨ h.currentBase ≤ b

theorem Frame.refl (h : State) : Frame h h :=
  ⟨rfl, rfl, rfl, rfl, Nat.le_refl _, fun _ s hb => .inl ⟨s, hb⟩⟩

theorem Frame.trans {h h' h'' : State} (h₁ : Frame h h') (h₂ : Frame h' h'') : Frame h h'' where
  vads := h₂.vads.trans h₁.vads
  descriptors := h₂.descriptors.trans h₁.descriptors
  headers := h₂.headers.trans h₁.headers
  limit := h₂.limit.trans h₁.limit
  base := Nat.le_trans h₁.base h₂.base
  slabs := by
    intro b s hb
    rcases h₂.slabs b s hb with ⟨s', hs'⟩ | hb
    · exact h₁.slabs b s' hs'
    · exact .inr (Nat.le_trans h₁.base hb)

section Slots
variable {h : State} {slots : List Slot} {b : Nat} {s s' : Slab} {t : Slot}

theorem SlotsOk.object (hok : SlotsOk h slots) (ht : t ∈ slots) :
    t.base ≤ t.addr ∧ t.addr + (layoutOf t.cache).objectSize ≤
      t.base + (layoutOf t.cache).controlOffset ∧
      (layoutOf t.cache).controlOffset ≤ pageSize ∧ t.base + pageSize ≤ h.currentBase := by
  obtain ⟨s, hs, -, hidx, -⟩ := (hok.taken t).1 ht
  obtain ⟨hend, hpage⟩ := object_end hidx
  have hhigh := (hok.slab _ _ hs).high
  unfold Slot.addr
  refine ⟨Nat.le_add_right _ _, by omega, hpage, hhigh⟩

theorem SlotsOk.find (hok : SlotsOk h slots) (hb : h.slabs b = some s) {addr : Nat}
    (hlo : b ≤ addr) (hhi : addr < b + pageSize) : h.registry.find addr = some (slabRange b) := by
  refine VadTree.find_complete hok.ordered ?_ hok.rangesApart ((hok.registered _).2 ⟨b, s, hb, rfl⟩)
    hlo hhi
  intro v hv
  obtain ⟨b', s', -, rfl⟩ := (hok.registered v).1 hv
  exact Nat.lt_add_of_pos_right (by decide)

theorem SlotsOk.find_none (hok : SlotsOk h slots) {addr : Nat}
    (hout : ∀ b s, h.slabs b = some s → addr < b ∨ b + pageSize ≤ addr) :
    h.registry.find addr = none := by
  rcases hfind : h.registry.find addr with _ | v
  · rfl
  · obtain ⟨hv, hlo, hhi⟩ := VadTree.find_mem hfind
    obtain ⟨b, s, hb, rfl⟩ := (hok.registered v).1 hv
    have hlo' : b ≤ addr := hlo
    have hhi' : addr < b + pageSize := hhi
    rcases hout b s hb with ho | ho <;> omega

theorem SlotsOk.replace (hok : SlotsOk h slots) {h' : State} {slots' : List Slot}
    (hb : h.slabs b = some s) (hslabs : h'.slabs = update h.slabs b (some s'))
    (hregistry : h'.registry = h.registry) (hbase : h'.currentBase = h.currentBase)
    (hlisted : Listed h') (hslab : SlabOk h.currentBase b s') (hnodup : slots'.Nodup)
    (hsame : ∀ t, t.base ≠ b → (t ∈ slots' ↔ t ∈ slots))
    (htaken : ∀ t, t.base = b → (t ∈ slots' ↔ s'.cache = t.cache ∧
      t.index < (layoutOf t.cache).objects ∧ t.index ∉ s'.freelist))
    (hbytes : ∀ c, h'.allocatedBytes c =
      UInt32.ofNat ((layoutOf c).objectSize * slots'.countP fun t => t.cache = c)) :
    SlotsOk h' slots' := by
  -- The same pages hold slabs.
  have hdomain : ∀ b', (∃ s₁, h'.slabs b' = some s₁) ↔ ∃ s₁, h.slabs b' = some s₁ := by
    intro b'
    rw [hslabs]
    by_cases hb' : b' = b
    · rw [hb', hb]
      simp
    · rw [update_of_ne hb']
  refine ⟨hlisted, ?_, ?_, ?_, ?_, ?_, hnodup, ?_, hbytes, ?_⟩
  · intro b' s₁ hs₁
    rw [hbase]
    rw [hslabs] at hs₁
    by_cases hb' : b' = b
    · rw [hb', update_self, Option.some.injEq] at hs₁
      rw [hb', ← hs₁]
      exact hslab
    · rw [update_of_ne hb'] at hs₁
      exact hok.slab b' s₁ hs₁
  · intro b₁ b₂ s₁ s₂ h₁ h₂
    obtain ⟨s₁', h₁'⟩ := (hdomain b₁).1 ⟨s₁, h₁⟩
    obtain ⟨s₂', h₂'⟩ := (hdomain b₂).1 ⟨s₂, h₂⟩
    exact hok.apart b₁ b₂ s₁' s₂' h₁' h₂'
  · rw [hregistry]
    exact hok.ordered
  · rw [hregistry]
    exact hok.rangesApart
  · intro v
    rw [hregistry, hok.registered]
    constructor
    · rintro ⟨b', s₁, hs₁, rfl⟩
      obtain ⟨s₂, hs₂⟩ := (hdomain b').2 ⟨s₁, hs₁⟩
      exact ⟨b', s₂, hs₂, rfl⟩
    · rintro ⟨b', s₁, hs₁, rfl⟩
      obtain ⟨s₂, hs₂⟩ := (hdomain b').1 ⟨s₁, hs₁⟩
      exact ⟨b', s₂, hs₂, rfl⟩
  · intro t
    rw [hslabs]
    by_cases htb : t.base = b
    · rw [htb, htaken t htb]
      simp
    · rw [update_of_ne htb, hsame t htb]
      exact hok.taken t
  · rw [hbase]
    exact hok.top

theorem Slot.addr_ne_zero (hok : SlotsOk h slots) (ht : t ∈ slots) : t.addr ≠ 0 := by
  obtain ⟨s, hs, -⟩ := (hok.taken t).1 ht
  have hlow := (hok.slab _ _ hs).low
  have hle := (hok.object ht).1
  omega

/-! ## Taking an object -/

theorem countP_cons_cache (t : Slot) (slots : List Slot) (c : CacheIndex) :
    (t :: slots).countP (fun t => t.cache = c) =
      slots.countP (fun t => t.cache = c) + if t.cache = c then 1 else 0 := by
  rw [List.countP_cons]
  simp

variable {top i : Nat}

theorem SlabOk.not_full {rest : List Nat} (hslab : SlabOk top b s)
    (hfree : s.freelist = i :: rest) : s.full = false := by
  have hcount := hslab.count
  rw [hfree, List.length_cons] at hcount
  simp only [Slab.full, beq_eq_false_iff_ne]
  omega

theorem SlabOk.allocate {rest : List Nat} (hslab : SlabOk top b s)
    (hfree : s.freelist = i :: rest) :
    SlabOk top b { s with allocated := s.allocated + 1, freelist := rest } := by
  obtain ⟨hnodup, hbound, hcount, hlow, hhigh⟩ := hslab
  rw [hfree] at hnodup hbound hcount
  refine ⟨(List.nodup_cons.1 hnodup).2, fun j hj => hbound j (.tail _ hj), ?_, hlow,
    hhigh⟩
  rw [List.length_cons] at hcount
  show s.allocated + 1 + rest.length = (layoutOf s.cache).objects
  omega

theorem Listed.allocated (hl : Listed h) (hb : h.slabs b = some s) (hfull : s.full = false)
    (s' : Slab) (hc : s'.cache = s.cache) (hsome : s'.empty = false) (bytes : CacheIndex → UInt32) :
    Listed (relistAllocated { h.setSlab b s' with allocatedBytes := bytes } s.cache b
      s.empty s') := by
  have hmove := hl.move hb s' hc
  have hstay := hl.stay hb s' hc
  have hlist : s.list = if s.empty then .freeSlabs else .partialSlabs := by
    simp [Slab.list, hfull]
  have hlist' : s'.list = if s'.full then .fullSlabs else .partialSlabs := by
    simp [Slab.list, hsome]
  rw [hlist, hlist'] at hmove hstay
  unfold relistAllocated
  rcases hempty : s.empty with _ | _
  · rw [hempty] at hmove hstay
    rcases hfull' : s'.full with _ | _
    · rw [hfull'] at hstay
      exact hstay rfl
    · rw [hfull'] at hmove
      exact hmove
  · rw [hempty] at hmove
    exact hmove

theorem relistAllocated_eq (h : State) (c : CacheIndex) (b : Nat) (e : Bool) (s : Slab) :
    ∃ links lists, relistAllocated h c b e s = { h with links := links, lists := lists } := by
  unfold relistAllocated
  split
  · exact ⟨_, _, rfl⟩
  · split
    · exact ⟨_, _, rfl⟩
    · exact ⟨h.links, h.lists, rfl⟩

/-- The head of a free list leaves it, and the slab is listed as its count says. -/
theorem SlotsOk.allocate (hok : SlotsOk h slots) (hb : h.slabs b = some s)
    {rest : List Nat} (hfree : s.freelist = i :: rest) {bytes : CacheIndex → UInt32}
    (hbytes : bytes = update h.allocatedBytes s.cache
      (h.allocatedBytes s.cache + UInt32.ofNat (layoutOf s.cache).objectSize))
    (hs' : s' = { s with allocated := s.allocated + 1, freelist := rest }) :
    ∃ h', relistAllocated { h.setSlab b s' with allocatedBytes := bytes } s.cache b s.empty s' =
      h' ∧
      (⟨s.cache, b, i⟩ : Slot) ∉ slots ∧ SlotsOk h' (⟨s.cache, b, i⟩ :: slots) ∧ Frame h h' := by
  have hslab := hok.slab b s hb
  have hin : i ∈ s.freelist := by rw [hfree]; exact .head _
  have hnew : (⟨s.cache, b, i⟩ : Slot) ∉ slots := by
    intro hmem
    obtain ⟨s₁, hs₁, -, -, hout⟩ := (hok.taken _).1 hmem
    rw [hb, Option.some.injEq] at hs₁
    exact hout (hs₁ ▸ hin)
  have hlisted := hok.listed.allocated hb (hslab.not_full hfree) s' (by rw [hs'])
    (by rw [hs']; rfl) bytes
  obtain ⟨links, lists, heq⟩ := relistAllocated_eq
    { h.setSlab b s' with allocatedBytes := bytes } s.cache b s.empty s'
  refine ⟨_, rfl, hnew, ?_, ?_⟩
  · rw [heq] at hlisted ⊢
    refine hok.replace hb rfl rfl rfl hlisted (hs' ▸ hslab.allocate hfree)
      (List.nodup_cons.2 ⟨hnew, hok.nodup⟩) ?_ ?_ ?_
    · intro t htb
      rw [List.mem_cons, or_iff_right]
      intro heq
      exact htb (heq ▸ rfl)
    · rintro ⟨c, b', j⟩ rfl
      have hnodup := hslab.nodup
      rw [hfree, List.nodup_cons] at hnodup
      rw [List.mem_cons, hok.taken, hb, hs']
      simp only [Option.some.injEq, exists_eq_left', hfree, List.mem_cons, Slot.mk.injEq, true_and]
      constructor
      · rintro (⟨rfl, rfl⟩ | ⟨hc, hlt, hout⟩)
        · exact ⟨rfl, hslab.bound _ hin, hnodup.1⟩
        · exact ⟨hc, hlt, fun hj => hout (.inr hj)⟩
      · rintro ⟨rfl, hlt, hout⟩
        by_cases hji : j = i
        · exact .inl ⟨rfl, hji⟩
        · exact .inr ⟨rfl, hlt, by rintro (rfl | hj) <;> contradiction⟩
    · intro c
      rw [countP_cons_cache]
      show bytes c = _
      rw [hbytes]
      by_cases hc : c = s.cache
      · rw [hc, update_self, if_pos rfl, hok.bytes, Nat.mul_add, UInt32.ofNat_add,
          Nat.mul_one]
      · rw [update_of_ne hc, if_neg (fun h => hc h.symm), hok.bytes, Nat.add_zero]
  · rw [heq]
    refine ⟨rfl, rfl, rfl, rfl, .refl, ?_⟩
    intro b' s₁ hs₁
    by_cases hb' : b' = b
    · exact .inl ⟨s, hb' ▸ hb⟩
    · exact .inl ⟨s₁, (update_of_ne hb' _ _).symm.trans hs₁⟩

/-- Where the last two entries of a page directory map.  The HAL keeps these to itself
(`TEMP_PD_SLOT` and the recursive window). -/
def slabLimit : Nat := 0xFF800000

/-- A new slab of a cache. -/
def Slab.fresh (c : CacheIndex) :
    Slab := { cache := c, freelist := List.range (layoutOf c).objects }

theorem SlabOk.fresh (c : CacheIndex) (hlow : 0 < b) (hhigh : b + pageSize ≤ top) :
    SlabOk top b (.fresh c) where
  nodup := List.nodup_range
  bound _ hi := List.mem_range.1 hi
  count := by
    show 0 + (List.range (layoutOf c).objects).length = _
    rw [List.length_range, Nat.zero_add]
    rfl
  low := hlow
  high := hhigh

/-- The page of the next slab. -/
def nextSlab (h : State) : Nat := h.currentBase + pageSize

/-- The heap with one more slab, above everything. -/
def grown (h : State) (c : CacheIndex) : State :=
  { h with
    currentBase := nextSlab h + pageSize
    slabs := update h.slabs (nextSlab h) (some (.fresh c))
    registry := h.registry.insert (slabRange (nextSlab h)) }

theorem allocateSlab_mapped (c : CacheIndex) (hroom : h.currentBase + 2 * pageSize ≤ slabLimit) :
    allocateSlab h c .mapped = some (some (nextSlab h), grown h c) := by
  have hlimit : slabLimit < 2 ^ 32 := by decide
  have hvirt : (h.currentBase + pageSize) % 2 ^ 32 = nextSlab h := Nat.mod_eq_of_lt (by omega)
  have hbase : (nextSlab h + pageSize) % 2 ^ 32 = nextSlab h + pageSize :=
    Nat.mod_eq_of_lt (by unfold nextSlab; omega)
  unfold allocateSlab
  rw [hvirt]
  dsimp only
  rw [hbase]
  rfl

theorem grown_nextSlab (h : State) (c : CacheIndex) :
    (grown h c).slabs (nextSlab h) = some (.fresh c) := by
  simp [grown]

theorem grown_slabs {c : CacheIndex} (hs : (grown h c).slabs b = some s) :
    b = nextSlab h ∧ s = .fresh c ∨ h.slabs b = some s := by
  have hs : update h.slabs (nextSlab h) (some (Slab.fresh c)) b = some s := hs
  by_cases hb : b = nextSlab h
  · rw [hb, update_self, Option.some.injEq] at hs
    exact .inl ⟨hb, hs.symm⟩
  · rw [update_of_ne hb] at hs
    exact .inr hs

theorem SlotsOk.below (hok : SlotsOk h slots) (hb : h.slabs b = some s) :
    b + pageSize < nextSlab h := by
  have hhigh := (hok.slab b s hb).high
  have hpage : 0 < pageSize := by decide
  unfold nextSlab
  omega

theorem SlotsOk.nextSlab_free (hok : SlotsOk h slots) : h.slabs (nextSlab h) = none := by
  rcases hs : h.slabs (nextSlab h) with _ | s
  · rfl
  · have := hok.below hs
    omega

theorem SlotsOk.grown_old (hok : SlotsOk h slots) (c : CacheIndex) (hs : h.slabs b = some s) :
    (grown h c).slabs b = some s := by
  have hbelow := hok.below hs
  exact (update_of_ne (by omega) _ _).trans hs

theorem SlotsOk.grow (hok : SlotsOk h slots) (c : CacheIndex)
    (hroom : h.currentBase + 2 * pageSize ≤ slabLimit) :
    SlotsOk ((grown h c).pushBack (c, .freeSlabs) (nextSlab h)) slots := by
  have hlimit : slabLimit < 2 ^ 32 := by decide
  have hnext : nextSlab h = h.currentBase + pageSize := rfl
  refine ⟨hok.listed.grow (s := .fresh c) hok.nextSlab_free rfl, ?_, ?_,
    hok.ordered.insert _, ?_, ?_,
    hok.nodup, ?_, hok.bytes, ?_⟩
  · intro b s hs
    show SlabOk (nextSlab h + pageSize) b s
    rcases grown_slabs (c := c) hs with ⟨rfl, rfl⟩ | hs
    · exact .fresh c (by have := hok.top.1; omega) .refl
    · have hold := hok.slab b s hs
      exact { hold with high := by have := hold.high; omega }
  · intro b b' s s' hs hs' hne
    rcases grown_slabs (c := c) hs with ⟨rfl, rfl⟩ | hs
    · rcases grown_slabs (c := c) hs' with ⟨rfl, rfl⟩ | hs'
      · exact absurd rfl hne
      · exact .inr (Nat.le_of_lt (hok.below hs'))
    · rcases grown_slabs (c := c) hs' with ⟨rfl, rfl⟩ | hs'
      · exact .inl (Nat.le_of_lt (hok.below hs))
      · exact hok.apart b b' s s' hs hs' hne
  · apply ((VadTree.inorder_insert_perm _ h.registry).pairwise_iff fun hab => Or.symm hab).2
    refine List.pairwise_cons.2 ⟨?_, hok.rangesApart⟩
    intro v hv
    obtain ⟨b, s, hs, rfl⟩ := (hok.registered v).1 hv
    have hbelow : (slabRange b).stop ≤ nextSlab h := Nat.le_of_lt (hok.below hs)
    exact .inr hbelow
  · intro v
    show v ∈ (h.registry.insert (slabRange (nextSlab h))).inorder ↔
      ∃ b s, (grown h c).slabs b = some s ∧ v = slabRange b
    rw [(VadTree.inorder_insert_perm _ h.registry).mem_iff, List.mem_cons, hok.registered]
    constructor
    · rintro (rfl | ⟨b, s, hs, rfl⟩)
      · exact ⟨nextSlab h, .fresh c, grown_nextSlab h c, rfl⟩
      · exact ⟨b, s, hok.grown_old c hs, rfl⟩
    · rintro ⟨b, s, hs, rfl⟩
      rcases grown_slabs hs with ⟨rfl, -⟩ | hs
      · exact .inl rfl
      · exact .inr ⟨b, s, hs, rfl⟩
  · intro t
    rw [hok.taken]
    constructor
    · rintro ⟨s, hs, hrest⟩
      exact ⟨s, hok.grown_old c hs, hrest⟩
    · rintro ⟨s, hs, hc, hlt, hout⟩
      rcases grown_slabs hs with ⟨-, rfl⟩ | hs
      · -- The objects of the new slab are all free.
        rw [← hc] at hlt
        exact absurd (List.mem_range.2 hlt) hout
      · exact ⟨s, hs, hc, hlt, hout⟩
  · show 0 < nextSlab h + pageSize ∧ nextSlab h + pageSize < 2 ^ 32
    have := hok.top.1
    omega

theorem Frame.grow (h : State) (c : CacheIndex) :
    Frame h ((grown h c).pushBack (c, .freeSlabs) (nextSlab h)) := by
  refine ⟨rfl, rfl, rfl, rfl, ?_, ?_⟩
  · show h.currentBase ≤ h.currentBase + pageSize + pageSize
    omega
  · intro b s hs
    rcases grown_slabs (c := c) hs with ⟨rfl, -⟩ | hs
    · exact .inr (Nat.le_add_right _ _)
    · exact .inl ⟨s, hs⟩

theorem SlabOk.has_free (hslab : SlabOk top b s) (hlist : s.list ≠ .fullSlabs) :
    ∃ i rest, s.freelist = i :: rest := by
  rcases hfree : s.freelist with _ | ⟨i, rest⟩
  · refine absurd ?_ hlist
    have hcount := hslab.count
    have hpos := layoutOf_objects_pos s.cache
    rw [hfree, List.length_nil] at hcount
    have hempty : s.empty = false := by
      simp only [Slab.empty, beq_eq_false_iff_ne]
      omega
    have hfull : s.full = true := by
      simp only [Slab.full, beq_iff_eq]
      exact hcount
    simp [Slab.list, hempty, hfull]
  · exact ⟨i, rest, rfl⟩

/-- The cache has a slab with a free object on its lists. -/
def Stocked (h : State) (c : CacheIndex) : Prop :=
  (h.lists (c, .partialSlabs)).head.isSome ∨ (h.lists (c, .freeSlabs)).head.isSome

/-- A new slab, if the cache takes one, fits below `slabLimit`. -/
def Roomy (h : State) (c : CacheIndex) (pages : Pages) : Prop :=
  ¬Stocked h c → pages = .mapped → h.currentBase + 2 * pageSize ≤ slabLimit

theorem SlotsOk.available (hok : SlotsOk h slots) {c : CacheIndex} {pages : Pages}
    (hroomy : Roomy h c pages) {r : Option Nat × State} (hr : getAvailableSlab h c pages = some r) :
    SlotsOk r.2 slots ∧ Frame h r.2 ∧
      ∀ b, r.1 = some b → ∃ s, r.2.slabs b = some s ∧ s.cache = c ∧ s.list ≠ .fullSlabs := by
  unfold getAvailableSlab at hr
  rcases hpart : (h.lists (c, .partialSlabs)).head with _ | b
  · rw [hpart] at hr
    rcases hfree : (h.lists (c, .freeSlabs)).head with _ | b
    · rw [hfree] at hr
      -- Neither list has a slab: the heap grows, if the page allocator lets it.
      cases pages with
      | noFrames =>
        cases hr
        exact ⟨hok, Frame.refl h, fun b hb => by cases hb⟩
      | mapFails => cases hr
      | mapped =>
        have hroom := hroomy (by simp [Stocked, hpart, hfree]) rfl
        rw [allocateSlab_mapped c hroom] at hr
        cases hr
        refine ⟨hok.grow c hroom, Frame.grow h c, fun b hb => ?_⟩
        cases hb
        exact ⟨.fresh c, by rw [State.pushBack_slabs, grown_nextSlab], rfl, SlabList.noConfusion⟩
    · rw [hfree] at hr
      cases hr
      refine ⟨hok, Frame.refl h, fun b' hb' => ?_⟩
      cases hb'
      obtain ⟨s, hs, hc, hk⟩ := hok.listed.head hfree
      exact ⟨s, hs, hc, by rw [hk]; decide⟩
  · rw [hpart] at hr
    obtain rfl := Option.some.inj hr
    refine ⟨hok, Frame.refl h, fun b' hb' => ?_⟩
    cases hb'
    obtain ⟨s, hs, hc, hk⟩ := hok.listed.head hpart
    exact ⟨s, hs, hc, by rw [hk]; decide⟩

theorem SlotsOk.objectAt_eq (hok : SlotsOk h slots) (ht : t ∈ slots) :
    objectAt t.cache t.base t.index = t.addr := by
  obtain ⟨-, hend, hpage, hbase⟩ := hok.object ht
  have htop := hok.top.2
  exact Nat.mod_eq_of_lt (show t.addr < 2 ^ 32 by
    omega)

theorem SlotsOk.take (hok : SlotsOk h slots) {c : CacheIndex} {pages : Pages}
    (hroomy : Roomy h c pages) {r : Nat × State} (hr : cacheAllocate h c pages = some r) :
    Frame h r.2 ∧ (r.1 = 0 ∧ SlotsOk r.2 slots ∨
      ∃ t, t ∉ slots ∧ t.cache = c ∧ r.1 = t.addr ∧ t.addr ≠ 0 ∧ SlotsOk r.2 (t :: slots)) := by
  unfold cacheAllocate at hr
  rcases hget : getAvailableSlab h c pages with _ | ⟨_ | b, h₁⟩
  · rw [hget] at hr
    cases hr
  · rw [hget] at hr
    cases hr
    obtain ⟨hok₁, hframe, -⟩ := hok.available hroomy hget
    exact ⟨hframe, .inl ⟨rfl, hok₁⟩⟩
  · rw [hget] at hr
    obtain ⟨hok₁, hframe, hslab⟩ := hok.available hroomy hget
    obtain ⟨s, hs, rfl, hlist⟩ := hslab b rfl
    obtain ⟨i, rest, hfree⟩ := (hok₁.slab b s hs).has_free hlist
    dsimp only at hr hs
    rw [hs] at hr
    simp only [Slab.allocate, hfree] at hr
    cases hr
    obtain ⟨h', heq, hnew, hok', hframe'⟩ := hok₁.allocate hs hfree rfl rfl
    rw [heq]
    have hin : (⟨s.cache, b, i⟩ : Slot) ∈ (⟨s.cache, b, i⟩ : Slot) :: slots := .head _
    exact ⟨hframe.trans hframe', .inr ⟨⟨s.cache, b, i⟩, hnew, rfl, hok'.objectAt_eq hin,
      Slot.addr_ne_zero hok' hin, hok'⟩⟩

/-! ## Giving an object back -/

theorem SlabOk.allocated_pos (hslab : SlabOk top b s)
    (hi : i < (layoutOf s.cache).objects) (hout : i ∉ s.freelist) : 0 < s.allocated := by
  have hnodup : (i :: s.freelist).Nodup := List.nodup_cons.2 ⟨hout, hslab.nodup⟩
  have hsub : i :: s.freelist ⊆ List.range (layoutOf s.cache).objects := by
    intro j hj
    rw [List.mem_range]
    rcases List.mem_cons.1 hj with rfl | hj
    · exact hi
    · exact hslab.bound j hj
  have hlength := hnodup.length_le_of_subset hsub
  rw [List.length_cons, List.length_range] at hlength
  have hcount := hslab.count
  omega

theorem SlabOk.free (hslab : SlabOk top b s) (hi : i < (layoutOf s.cache).objects)
    (hout : i ∉ s.freelist) :
    SlabOk top b { s with allocated := s.allocated - 1, freelist := s.freelist ++ [i] } := by
  have hpos := hslab.allocated_pos hi hout
  have hcount := hslab.count
  refine ⟨?_, ?_, ?_, hslab.low, hslab.high⟩
  · rw [List.nodup_append]
    refine ⟨hslab.nodup, List.nodup_singleton i, ?_⟩
    rintro j hj _ hi' rfl
    exact hout (List.mem_singleton.1 hi' ▸ hj)
  · intro j hj
    rcases List.mem_append.1 hj with hj | hj
    · exact hslab.bound j hj
    · rw [List.mem_singleton.1 hj]
      exact hi
  · show s.allocated - 1 + (s.freelist ++ [i]).length = (layoutOf s.cache).objects
    rw [List.length_append, List.length_singleton]
    omega

theorem Listed.freed (hl : Listed h) (hb : h.slabs b = some s) (s' : Slab)
    (hc : s'.cache = s.cache) (hsome : s.empty = false) (hfull : s'.full = false)
    (bytes : CacheIndex → UInt32) :
    Listed (relistFreed { h.setSlab b s' with allocatedBytes := bytes } b s.full s') := by
  have hmove := hl.move hb s' hc
  have hstay := hl.stay hb s' hc
  have hlist : s.list = if s.full then .fullSlabs else .partialSlabs := by
    simp [Slab.list, hsome]
  have hlist' : s'.list = if s'.empty then .freeSlabs else .partialSlabs := by
    simp [Slab.list, hfull]
  rw [hlist, hlist', ← hc] at hmove
  rw [hlist, hlist'] at hstay
  unfold relistFreed
  rcases hempty : s'.empty with _ | _
  · rw [hempty] at hmove hstay
    rcases hwas : s.full with _ | _
    · rw [hwas] at hstay
      exact hstay rfl
    · rw [hwas] at hmove
      exact hmove
  · rw [hempty] at hmove
    exact hmove

theorem relistFreed_eq (h : State) (b : Nat) (e : Bool) (s : Slab) :
    ∃ links lists, relistFreed h b e s = { h with links := links, lists := lists } := by
  unfold relistFreed
  split
  · exact ⟨_, _, rfl⟩
  · split
    · exact ⟨_, _, rfl⟩
    · exact ⟨h.links, h.lists, rfl⟩

theorem countP_erase_cache (ht : t ∈ slots) (c : CacheIndex) : slots.countP (fun t => t.cache = c) =
      (slots.erase t).countP (fun t => t.cache = c) + if t.cache = c then 1 else 0 := by
  rw [(List.perm_cons_erase ht).countP_eq, countP_cons_cache]

/-- A slot comes back to its slab, which may become free or partial. -/
theorem SlotsOk.cacheFree (hok : SlotsOk h slots) (hs : h.slabs b = some s)
    (ht : (⟨s.cache, b, i⟩ : Slot) ∈ slots) :
    SlotsOk (Heap.cacheFree h (⟨s.cache, b, i⟩ : Slot).addr b s) (slots.erase ⟨s.cache, b, i⟩) ∧
      Frame h (Heap.cacheFree h (⟨s.cache, b, i⟩ : Slot).addr b s) ∧
      (Heap.cacheFree h (⟨s.cache, b, i⟩ : Slot).addr b s).currentBase = h.currentBase := by
  obtain ⟨s₁, hs₁, -, hidx, hout⟩ := (hok.taken _).1 ht
  obtain rfl : s = s₁ := Option.some.inj (hs.symm.trans hs₁)
  have hslab := hok.slab b s hs
  have hcount := hslab.allocated_pos hidx hout
  have hcount' := hslab.count
  -- The node that goes back is that of the object's index.
  have hindex : ((⟨s.cache, b, i⟩ : Slot).addr - b) / (layoutOf s.cache).objectSize = i := by
    show (b + i * (layoutOf s.cache).objectSize - b) / (layoutOf s.cache).objectSize = i
    rw [Nat.add_sub_cancel_left, Nat.mul_div_cancel _ (layoutOf_objectSize_pos s.cache)]
  unfold Heap.cacheFree Slab.free
  rw [hindex]
  have hlisted := hok.listed.freed hs
    { s with allocated := s.allocated - 1, freelist := s.freelist ++ [i] } rfl
    (by simp only [Slab.empty, beq_eq_false_iff_ne]; omega)
    (by simp only [Slab.full, beq_eq_false_iff_ne]; omega)
    (update h.allocatedBytes s.cache
      (h.allocatedBytes s.cache - UInt32.ofNat (layoutOf s.cache).objectSize))
  obtain ⟨links, lists, heq⟩ := relistFreed_eq
    { h.setSlab b { s with allocated := s.allocated - 1, freelist := s.freelist ++ [i] } with
      allocatedBytes := update h.allocatedBytes s.cache
        (h.allocatedBytes s.cache - UInt32.ofNat (layoutOf s.cache).objectSize) } b s.full
    { s with allocated := s.allocated - 1, freelist := s.freelist ++ [i] }
  rw [heq] at hlisted ⊢
  refine ⟨?_, ?_, rfl⟩
  · refine hok.replace hs rfl rfl rfl hlisted (hslab.free hidx hout) (hok.nodup.erase _) ?_ ?_ ?_
    · intro t htb
      exact List.mem_erase_of_ne fun heq => htb (heq ▸ rfl)
    · rintro ⟨c, b', j⟩ rfl
      rw [hok.nodup.mem_erase_iff, hok.taken, hs]
      simp only [Option.some.injEq, exists_eq_left', List.mem_append, List.mem_singleton, ne_eq,
        Slot.mk.injEq]
      constructor
      · rintro ⟨hne, hc, hlt, hout'⟩
        refine ⟨hc, hlt, ?_⟩
        rintro (hj | rfl)
        · exact hout' hj
        · exact hne ⟨hc.symm, trivial, rfl⟩
      · rintro ⟨hc, hlt, hout'⟩
        refine ⟨?_, hc, hlt, fun hj => hout' (.inl hj)⟩
        rintro ⟨-, -, rfl⟩
        exact hout' (.inr rfl)
    · intro c
      have hbytes := hok.bytes c
      rw [countP_erase_cache ht c] at hbytes
      show update h.allocatedBytes s.cache _ c = _
      by_cases hcs : c = s.cache
      · rw [hcs, if_pos rfl, Nat.mul_add, UInt32.ofNat_add, Nat.mul_one] at hbytes
        rw [hcs, update_self, hbytes, UInt32.add_sub_cancel]
      · rw [if_neg (fun h => hcs h.symm), Nat.add_zero] at hbytes
        rw [update_of_ne hcs, hbytes]
  · refine ⟨rfl, rfl, rfl, rfl, .refl, ?_⟩
    intro b' s₁ hs₁
    by_cases hb' : b' = b
    · exact .inl ⟨s, hb' ▸ hs⟩
    · exact .inl ⟨s₁, (update_of_ne hb' _ _).symm.trans hs₁⟩

theorem SlotsOk.give (hok : SlotsOk h slots) (ht : t ∈ slots) :
    ∃ h', freeSmall h t.addr = some h' ∧ SlotsOk h' (slots.erase t) ∧ Frame h h' ∧
      h'.currentBase = h.currentBase := by
  obtain ⟨s, hs, hc, -⟩ := (hok.taken t).1 ht
  obtain ⟨hlo, hend, hcontrol, -⟩ := hok.object ht
  have hpos := layoutOf_objectSize_pos t.cache
  have hfind := hok.find hs hlo (by omega)
  refine ⟨Heap.cacheFree h t.addr t.base s, ?_, ?_⟩
  · unfold freeSmall
    rw [hfind]
    show (h.slabs t.base).map _ = _
    rw [hs]
    rfl
  · obtain ⟨c, b, i⟩ := t
    obtain rfl : s.cache = c := hc
    exact hok.cacheFree hs ht

end Slots

end UnDOS.Heap
