import Mathlib.Data.List.Perm.Basic
import UnDOS.Crt.Blocks

/-!
# Allocation

`crt_malloc` takes the first free block that is large enough or carves a fresh one, from a new arena
if it has to (`malloc_ends`).  Of the sizes that it computes only `v + a` in `align_up` can wrap,
for the last page below 2^32, and the size is right there too (`alignUp_run`).  Its walk over the
free list ends.
-/

namespace UnDOS.Crt

open UnDOS.Lib
open UnDOS.Lib.Prog (Ends)

variable {h : Heap} {blocks : List Block} {frees : List Nat} {E : Unit → Prop}

/-! ## The free list -/

/-- The link behind the nodes `before` of the free list. -/
def LinkBehind (before : List Nat) : Link → Prop
  | .root => before = []
  | .next p => ∃ front, before = front ++ [p]

theorem LinkBehind.get {link : Link} {before rest : List Nat} (hlink : LinkBehind before link)
    (hchain : Chain (nextIn h.mem) h.freeList (before ++ rest)) :
    ∃ v, link.get h = (.ok v, h) ∧ Chain (nextIn h.mem) v rest := by
  cases link with
  | root =>
    have hnil : before = [] := hlink
    subst hnil
    exact ⟨h.freeList, rfl, hchain⟩
  | next p =>
    obtain ⟨front, rfl⟩ := hlink
    rw [List.append_assoc] at hchain
    exact ⟨nextIn h.mem p, rfl, hchain.suffix⟩

theorem unlink_ends {link : Link} {before rest : List Nat} {x : Nat}
    (hlink : LinkBehind before link)
    (hok : HeapOk h blocks (before ++ x :: rest)) : Ends (link.set (nextIn h.mem x)) h E fun _ h' =>
      HeapOk h' blocks (before ++ rest) ∧ Kept blocks h h' ∧ h'.pages = h.pages := by
  have hsub : (before ++ rest).Sublist (before ++ x :: rest) :=
    (List.sublist_cons_self x rest).append_left before
  have hisBlock : ∀ y ∈ before ++ rest, ∃ b ∈ blocks, b.header = y :=
    fun y hy => hok.isBlock y (hsub.subset hy)
  cases link with
  | root =>
    have hnil : before = [] := hlink
    subst hnil
    refine Ends.modify ⟨⟨fun b hb => ?_, hok.apart, ?_, hok.chain.2.2, hok.nodup.sublist hsub,
      hisBlock, hok.wraps⟩, .refl _ _, rfl⟩
    · have hb' := hok.each b hb
      exact ⟨hb'.aligned, hb'.pos, hb'.word, hb'.inside, hb'.fits⟩
    · exact ⟨hok.arena.aligned, hok.arena.order, hok.arena.inside, hok.arena.apart⟩
  | next p =>
    obtain ⟨front, rfl⟩ := hlink
    simp only [List.append_assoc] at hok hisBlock hsub ⊢
    obtain ⟨b, hb, rfl⟩ := hok.isBlock p (by simp)
    have hchain : Chain (nextIn (withNext h b (nextIn h.mem x)).mem) h.freeList
        (front ++ b.header :: rest) := by
      refine hok.chain.unlink (withNext_self (wordAt_lt _ _ 4)) fun y hy => ?_
      have hy' : y ∈ front ++ ([b.header] ++ x :: rest) := by
        rcases List.mem_append.1 hy with hf | hr
        · exact List.mem_append_left _ hf
        · exact List.mem_append_right _ (.tail _ (.tail _ hr))
      obtain ⟨c, hc, rfl⟩ := hok.isBlock y hy'
      refine withNext_next hok hb _ hc fun heq => ?_
      -- The node before the link occurs once.
      have hnodup := hok.nodup
      rw [heq] at hy
      rcases List.mem_append.1 hy with hf | hr
      · exact (List.disjoint_of_nodup_append hnodup) hf (.head _)
      · exact (List.nodup_cons.1 (List.Nodup.of_append_right hnodup)).1 (.tail _ hr)
    exact Ends.modify ⟨withNext_ok hok hb _ hchain (hok.nodup.sublist hsub) hisBlock,
      withNext_kept hok hb _, rfl⟩

/-- What taking a free block leaves behind. -/
structure Taken (blocks : List Block) (frees frees' : List Nat) (alignedSize : Nat) (b : Block) :
    Prop where
  mem : b ∈ blocks
  wasFree : b.header ∈ frees
  notFree : b.header ∉ frees'
  rest : frees' ⊆ frees
  size : alignedSize ≤ b.size

/-- The walk over the free list ends, with the first fit or with nothing. -/
theorem takeFit_ends (alignedSize : Nat) (hok : HeapOk h blocks frees) :
    ∀ {n : Nat} {link : Link} {before rest : List Nat}, frees = before ++ rest →
      LinkBehind before link → rest.length < n → Ends (takeFit alignedSize n link) h E fun r h' =>
        (r = none ∧ h' = h) ∨ ∃ b frees', r = some b.header ∧
          Taken blocks frees frees' alignedSize b ∧
          HeapOk h' blocks frees' ∧ Kept blocks h h' ∧ h'.pages = h.pages := by
  intro n
  induction n with
  | zero =>
    intro link before rest _ _ hlt
    cases hlt
  | succ n ih =>
    intro link before rest hfrees hlink hlt
    subst hfrees
    obtain ⟨v, hget, hv⟩ := hlink.get hok.chain
    apply Ends.bind_run hget
    cases rest with
    | nil =>
      have hzero : v = 0 := hv
      rw [if_pos hzero]
      exact Ends.pure (.inl ⟨rfl, rfl⟩)
    | cons x rest =>
      obtain ⟨rfl, hne, -⟩ := hv
      obtain ⟨b, hb, rfl⟩ := hok.isBlock v (by simp)
      rw [if_neg hne]
      have hsize : sizeOf b.header h = (.ok b.size, h) := by
        unfold sizeOf load
        rw [Prog.get_bind_apply, (hok.each b hb).word]
        rfl
      refine Ends.bind_run hsize (Ends.ite (fun hfit => ?_) fun _ => ?_)
      · have hnext : nextOf b.header h = (.ok (nextIn h.mem b.header), h) := rfl
        refine Ends.bind_run hnext ((unlink_ends hlink hok).bind
          fun _ h' hh' => Ends.pure (.inr ?_))
        have hnodup := List.nodup_middle.1 hok.nodup
        refine ⟨b, before ++ rest, rfl, ⟨hb, by simp, (List.nodup_cons.1 hnodup).1, ?_, hfit⟩, hh'⟩
        exact ((List.sublist_cons_self b.header rest).append_left before).subset
      · rw [List.length_cons] at hlt
        refine @ih _ (before ++ [b.header]) rest (by rw [List.append_assoc]; rfl) ⟨before, rfl⟩ ?_
        omega

theorem frees_length_lt (hok : HeapOk h blocks frees) : frees.length < walkLimit := by
  have hsub : 0 :: frees ⊆ List.range walkLimit := by
    intro x hx
    rw [List.mem_range]
    rcases List.mem_cons.1 hx with rfl | hx
    · decide
    · obtain ⟨b, hb, rfl⟩ := hok.isBlock x hx
      have hfits := (hok.each b hb).fits
      unfold Block.stop sizeMax at hfits
      unfold walkLimit
      omega
  have hnodup : (0 :: frees).Nodup := List.nodup_cons.2 ⟨hok.chain.zero_notMem, hok.nodup⟩
  have hle := (List.subperm_of_subset hnodup hsub).length_le
  rw [List.length_range] at hle
  exact hle

/-! ## The arena -/

/-- What the backend promises: whole fresh pages, or nothing. -/
def BackendOk (pages : List (Nat × Nat)) (grow : Nat → Nat) : Prop :=
  ∀ n, grow n = 0 ∨ (grow n % pageSize = 0 ∧ grow n + n ≤ 2 ^ 32 ∧
    ∀ r ∈ pages, r.1 + r.2 ≤ grow n ∨ grow n + n ≤ r.1)

theorem addSize_run {a b : Nat} (hroom : a + b ≤ sizeMax) (h : Heap) :
    addSize a b h = (.ok (a + b), h) := by
  unfold addSize
  rw [if_pos hroom]
  rfl

/-- The rounded size is exact even where `v + a` wraps: taking 1 from 0 wraps back. -/
theorem alignUp_run {v a : Nat} (ha : 0 < a) (hroom : v + (a - 1) ≤ sizeMax) (h : Heap) :
    alignUp v a h = (.ok ((v + (a - 1)) / a * a), h.summed v a) := by
  have hexact : ((v + a) % 2 ^ 32 + sizeMax) % 2 ^ 32 = v + (a - 1) := by
    unfold sizeMax at *
    omega
  show (Outcome.ok (((v + a) % 2 ^ 32 + sizeMax) % 2 ^ 32 / a * a), h.summed v a) = _
  rw [hexact]

theorem summed_frame (h : Heap) (v a : Nat) :
    (h.summed v a).mem = h.mem ∧ (h.summed v a).pages = h.pages := by
  unfold Heap.summed
  split
  · exact ⟨rfl, rfl⟩
  · exact ⟨rfl, rfl⟩

theorem HeapOk.summed (hok : HeapOk h blocks frees) {v a : Nat}
    (hsum : v + a ≤ sizeMax ∨ (v, a) = (2 ^ 32 - pageSize, pageSize)) :
    HeapOk (h.summed v a) blocks frees := by
  unfold Heap.summed
  split
  · exact hok
  · rename_i hwrap
    refine ⟨fun b hb => ?_, hok.apart, ?_, hok.chain, hok.nodup, hok.isBlock, fun s hs => ?_⟩
    · have hb' := hok.each b hb
      exact ⟨hb'.aligned, hb'.pos, hb'.word, hb'.inside, hb'.fits⟩
    · exact ⟨hok.arena.aligned, hok.arena.order, hok.arena.inside, hok.arena.apart⟩
    · rcases List.mem_cons.1 hs with rfl | hs
      · exact hsum.resolve_left hwrap
      · exact hok.wraps s hs

theorem HeapOk.withPages (hok : HeapOk h blocks frees) (r : Nat × Nat) :
    HeapOk { h with pages := r :: h.pages } blocks frees where
  each b hb := by
    obtain ⟨p, hp, hin⟩ := (hok.each b hb).inside
    exact ⟨(hok.each b hb).aligned, (hok.each b hb).pos, (hok.each b hb).word,
      ⟨p, .tail r hp, hin⟩, (hok.each b hb).fits⟩
  apart := hok.apart
  arena := by
    refine ⟨hok.arena.aligned, hok.arena.order, fun hlt => ?_, hok.arena.apart⟩
    obtain ⟨hne, p, hp, hin⟩ := hok.arena.inside hlt
    exact ⟨hne, p, .tail r hp, hin⟩
  chain := hok.chain
  nodup := hok.nodup
  isBlock := hok.isBlock
  wraps := hok.wraps

/-- The backend has not taken pages back. -/
def MorePages (h h' : Heap) : Prop := h.pages ⊆ h'.pages

/-- A new arena gives room but changes no byte and no block. -/
theorem growArena_ends {grow : Nat → Nat} {minSize : Nat} (hok : HeapOk h blocks frees)
    (hgrow : BackendOk h.pages grow) : Ends (growArena grow minSize) h E fun r h' =>
      HeapOk h' blocks frees ∧ h'.mem = h.mem ∧ MorePages h h' ∧
        (r = true → minSize ≤ h'.arenaEnd - h'.cursor) := by
  refine Ends.ite (fun _ => Ends.pure ⟨hok, rfl, List.Subset.refl _, fun hfalse => by cases hfalse⟩)
    fun hsmall => ?_
  have hroom : max minSize arenaChunkSize + (pageSize - 1) ≤ sizeMax := by
    unfold arenaChunkSize
    unfold pageSize sizeMax at *
    omega
  obtain ⟨chunk, hmin, halign⟩ : ∃ chunk, minSize ≤ chunk ∧
      alignUp (max minSize arenaChunkSize) pageSize h =
        (.ok chunk, h.summed (max minSize arenaChunkSize) pageSize) := by
    refine ⟨_, ?_, alignUp_run (by decide) hroom h⟩
    unfold pageSize
    omega
  apply Ends.bind_run halign
  -- The sum wraps for one size only: the last page below 2^32.
  have hsum : max minSize arenaChunkSize + pageSize ≤ sizeMax ∨
      (max minSize arenaChunkSize, pageSize) = (2 ^ 32 - pageSize, pageSize) := by
    rw [Prod.mk.injEq]
    unfold sizeMax pageSize at *
    omega
  replace hok := hok.summed hsum
  obtain ⟨hmem, hpages⟩ := summed_frame h (max minSize arenaChunkSize) pageSize
  unfold MorePages
  rw [← hmem, ← hpages]
  rw [← hpages] at hgrow
  clear halign
  generalize h.summed (max minSize arenaChunkSize) pageSize = h at *
  refine Ends.ite (fun _ => Ends.pure ⟨hok, rfl, List.Subset.refl _, fun hfalse => by cases hfalse⟩)
    fun hne => ?_
  obtain ⟨haligned, -, hfresh⟩ := (hgrow chunk).resolve_left hne
  have hmore := hok.withPages (grow chunk, chunk)
  refine (Ends.modify (Q := fun _ h' => h' = { h with pages := (grow chunk, chunk) :: h.pages })
    rfl).bind ?_
  rintro _ h₁ rfl
  refine Ends.ite (fun _ => Ends.pure ⟨hmore, rfl, List.subset_cons_self _ _,
    fun hfalse => by cases hfalse⟩)
    fun hhigh => ?_
  have hend : grow chunk + chunk ≤ sizeMax := by
    omega
  apply Ends.bind_run (addSize_run hend _)
  have harena : ArenaOk { h with
      pages := (grow chunk, chunk) :: h.pages, cursor := grow chunk,
        arenaEnd := grow chunk + chunk }
      blocks := by
    refine ⟨?_, ⟨Nat.le_add_right _ _, hend⟩, fun _ => ⟨hne, (grow chunk, chunk), .head _,
      le_rfl, le_rfl⟩, fun b hb => ?_⟩
    · unfold pageSize at haligned
      dsimp only
      omega
    · -- The new pages have nothing in common with those of the blocks.
      obtain ⟨r, hr, hlow, hhigh'⟩ := (hok.each b hb).inside
      rcases hfresh r hr with hbelow | habove
      · exact .inl (hhigh'.trans hbelow)
      · exact .inr (habove.trans hlow)
  refine ⟨⟨fun b hb => ?_, hmore.apart, harena, hmore.chain, hmore.nodup, hmore.isBlock,
    hmore.wraps⟩, rfl,
    List.subset_cons_self _ _, ?_⟩
  · have hb' := hmore.each b hb
    exact ⟨hb'.aligned, hb'.pos, hb'.word, hb'.inside, hb'.fits⟩
  · dsimp only
    omega

theorem HeapOk.withMem (hok : HeapOk h blocks frees) {m : ByteStore}
    (hsame : ∀ b ∈ blocks, ∀ i < headerSize, m (b.header + i) = h.mem (b.header + i)) :
    HeapOk { h with mem := m } blocks frees := by
  have hword : ∀ b ∈ blocks, ∀ k, k + 4 ≤ headerSize →
      wordAt m (b.header + k) 4 = wordAt h.mem (b.header + k) 4 := by
    intro b hb k hk
    refine congrArg leNat (readAt_congr fun i hi => ?_)
    rw [add_assoc]
    exact hsame b hb (k + i) (by omega)
  refine ⟨fun b hb => ?_, hok.apart, ?_, hok.chain.congr fun x hx => ?_, hok.nodup, hok.isBlock,
    hok.wraps⟩
  · have hb' := hok.each b hb
    exact ⟨hb'.aligned, hb'.pos, (hword b hb 0 (by decide)).trans hb'.word, hb'.inside, hb'.fits⟩
  · exact ⟨hok.arena.aligned, hok.arena.order, hok.arena.inside, hok.arena.apart⟩
  · obtain ⟨b, hb, rfl⟩ := hok.isBlock x hx
    exact hword b hb 4 (by decide)

/-- A fresh block is carved from the front of the arena. -/
theorem carve_ends {alignedSize : Nat} (hok : HeapOk h blocks frees)
    (haligned : alignedSize % 16 = 0)
    (hroom : headerSize + alignedSize ≤ h.arenaEnd - h.cursor) :
    Ends (carve alignedSize (headerSize + alignedSize)) h E fun p h' =>
      ∃ b, p = b.data ∧ b.size = alignedSize ∧ (∀ c ∈ blocks, c.header ≠ b.header) ∧
        HeapOk h' (b :: blocks) frees ∧ Kept blocks h h' ∧ MorePages h h' := by
  obtain ⟨hcursor, harenaEnd⟩ := hok.arena.order
  have hpos : 0 < headerSize := by decide
  obtain ⟨hne, r, hr, hlow, hhigh⟩ := hok.arena.inside (by omega)
  let b : Block := ⟨h.cursor, alignedSize⟩
  -- No block reaches into the part of the arena that is written.
  have hclear : ∀ c ∈ blocks, c.stop ≤ h.cursor ∨
      h.cursor + headerSize + alignedSize ≤ c.header := by
    intro c hc
    rcases hok.arena.apart c hc with hbelow | habove
    · exact .inl hbelow
    · exact .inr (by omega)
  let m := writeAt (writeAt h.mem h.cursor (leBytes 4 alignedSize)) (h.cursor + 4) (leBytes 4 0)
  have hm : ∀ a, a < h.cursor ∨ h.cursor + headerSize ≤ a → m a = h.mem a := by
    intro a ha
    unfold headerSize at ha
    rcases ha with hbelow | habove
    · exact (writeAt_of_lt (by omega)).trans (writeAt_of_lt hbelow)
    · exact (writeAt_of_ge (by rw [leBytes_length]; omega)).trans
        (writeAt_of_ge (by rw [leBytes_length]; omega))
  have hother : ∀ c ∈ blocks, ∀ a, c.header ≤ a → a < c.stop → m a = h.mem a := by
    intro c hc a ha ha'
    rcases hclear c hc with hbelow | habove
    · exact hm a (.inl (by omega))
    · exact hm a (.inr (by omega))
  have hmem : HeapOk { h with mem := m } blocks frees :=
    hok.withMem fun c hc i hi => hother c hc _ (by omega) (by unfold Block.stop; omega)
  have hfits : alignedSize < 2 ^ 32 := by
    unfold sizeMax at harenaEnd
    omega
  have hword : wordAt m h.cursor 4 = alignedSize := by
    refine (wordAt_writeAt_of_disjoint (.inl le_rfl)).trans (wordAt_writeAt_self.trans ?_)
    exact Nat.mod_eq_of_lt hfits
  have hstop : b.stop = h.cursor + (headerSize + alignedSize) := add_assoc _ _ _
  apply Ends.get_bind
  refine (Ends.modify (Q := fun _ h' =>
    h' = { h with mem := writeAt h.mem h.cursor (leBytes 4 alignedSize) })
    rfl).bind ?_
  rintro _ h₁ rfl
  apply (Ends.modify (Q := fun _ h' => h' = { h with mem := m }) rfl).bind
  rintro _ h₂ rfl
  apply Ends.bind_run (addSize_run (by omega) _)
  refine (Ends.modify (Q := fun _ h' => h' = { h with
    mem := m, cursor := h.cursor + (headerSize + alignedSize) }) rfl).bind ?_
  rintro _ h₃ rfl
  refine Ends.pure ⟨b, rfl, rfl, fun c hc heq => ?_, ⟨fun c hc => ?_, ?_, ?_, hmem.chain,
    hok.nodup, ?_,
    hok.wraps⟩,
    fun c hc i hi => ?_, List.Subset.refl _⟩
  · have heq' : c.header = h.cursor := heq
    rcases hclear c hc with hbelow | habove
    · unfold Block.stop at hbelow
      omega
    · omega
  · rcases List.mem_cons.1 hc with rfl | hc
    · refine ⟨⟨hok.arena.aligned, haligned⟩, hne, hword, ⟨r, hr, hlow, ?_⟩, ?_⟩
      · omega
      · omega
    · have hc' := hmem.each c hc
      exact ⟨hc'.aligned, hc'.pos, hc'.word, hc'.inside, hc'.fits⟩
  · -- The new block lies apart from those before.
    intro c hc d hd hne'
    rcases List.mem_cons.1 hc with rfl | hc
    · rcases List.mem_cons.1 hd with rfl | hd
      · exact absurd rfl hne'
      · exact (hclear d hd).symm
    · rcases List.mem_cons.1 hd with rfl | hd
      · exact hclear c hc
      · exact hok.apart c hc d hd hne'
  · refine ⟨?_, ⟨by dsimp only; omega, harenaEnd⟩,
      fun _ => ⟨by dsimp only; omega, r, hr, ?_, hhigh⟩,
      fun c hc => ?_⟩
    · have hcursor' := hok.arena.aligned
      unfold headerSize
      dsimp only
      omega
    · dsimp only
      omega
    · rcases List.mem_cons.1 hc with rfl | hc
      · exact .inl hstop.le
      · rcases hok.arena.apart c hc with hbelow | habove
        · exact .inl (hbelow.trans (Nat.le_add_right _ _))
        · exact .inr habove
  · intro x hx
    obtain ⟨c, hc, hcx⟩ := hok.isBlock x hx
    exact ⟨c, .tail _ hc, hcx⟩
  · apply hother c hc
    · unfold Block.data
      omega
    · unfold Block.data Block.stop
      omega

/-! ## The whole -/

theorem ensureRoom_ends {grow : Nat → Nat} {needed : Nat} (hok : HeapOk h blocks frees)
    (hgrow : BackendOk h.pages grow) : Ends (ensureRoom grow needed) h E fun r h' =>
      HeapOk h' blocks frees ∧ h'.mem = h.mem ∧ MorePages h h' ∧
        (r = true → needed ≤ h'.arenaEnd - h'.cursor) := by
  refine Ends.get_bind (Ends.ite (fun _ => growArena_ends hok hgrow) fun hroom => ?_)
  exact Ends.pure ⟨hok, rfl, List.Subset.refl _, fun _ => not_lt.1 hroom⟩

/-- The block `b` was handed out. -/
structure Allocated (blocks : List Block) (frees : List Nat) (blocks' : List Block)
    (frees' : List Nat)
    (size : Nat) (b : Block) : Prop where
  mem : b ∈ blocks'
  notFree : b.header ∉ frees'
  size : size ≤ b.size
  more : blocks ⊆ blocks'
  fewer : frees' ⊆ frees
  fresh : ∀ c ∈ blocks, c.header ∉ frees → c.header ≠ b.header

/-- What `crt_malloc` leaves: a new block, or everything as it was. -/
def MallocPost (h : Heap) (blocks : List Block) (frees : List Nat) (size p : Nat)
    (h' : Heap) : Prop :=
  ∃ blocks' frees', HeapOk h' blocks' frees' ∧ Kept blocks h h' ∧ MorePages h h' ∧
    ((p = 0 ∧ blocks' = blocks ∧ frees' = frees) ∨
      ∃ b, p = b.data ∧ Allocated blocks frees blocks' frees' size b)

theorem malloc_ends {grow : Nat → Nat} {size : Nat} (hok : HeapOk h blocks frees)
    (hgrow : BackendOk h.pages grow) :
    Ends (malloc grow size) h E (MallocPost h blocks frees size) := by
  refine Ends.ite (fun _ => Ends.pure ⟨blocks, frees, hok, .refl _ _, List.Subset.refl _,
    .inl ⟨rfl, rfl, rfl⟩⟩) fun hsize => ?_
  have hheader : headerSize = 16 := rfl
  have hroom : size + (headerSize - 1) ≤ sizeMax := by omega
  have halign := alignUp_run (by decide) hroom h
  rw [Heap.summed, if_pos (by omega)] at halign
  obtain ⟨alignedSize, haligned, hle, hsmall, hrun⟩ : ∃ n, n % 16 = 0 ∧ size ≤ n ∧
      headerSize + n ≤ sizeMax ∧ alignUp size headerSize h = (.ok n, h) := by
    refine ⟨_, ?_, ?_, ?_, halign⟩
    · exact Nat.mul_mod_left _ _
    · rw [hheader]
      omega
    · rw [hheader]
      omega
  apply Ends.bind_run hrun
  have hroot : LinkBehind [] .root := rfl
  refine (takeFit_ends alignedSize hok (List.nil_append frees).symm
    hroot (frees_length_lt hok)).bind fun r h₁ hr => ?_
  rcases hr with ⟨rfl, rfl⟩ | ⟨b, frees', rfl, htaken, hok', hkept, hpages⟩
  · -- Nothing is free that is large enough: a fresh block.
    apply Ends.bind_run (addSize_run hsmall _)
    refine (ensureRoom_ends hok hgrow).bind fun r h₂ hh₂ => ?_
    obtain ⟨hok₂, hmem₂, hmore₂, hroom₂⟩ := hh₂
    have hkept₂ : Kept blocks h₁ h₂ := fun b _ i _ => by rw [hmem₂]
    refine Ends.ite (fun htrue => ?_) fun _ => Ends.pure ⟨blocks, frees, hok₂, hkept₂, hmore₂,
      .inl ⟨rfl, rfl, rfl⟩⟩
    apply (carve_ends hok₂ haligned (hroom₂ htrue)).mono
    rintro p h₃ ⟨b, rfl, hbsize, hfresh, hok₃, hkept₃, hmore₃⟩
    refine ⟨b :: blocks, frees, hok₃, hkept₂.trans hkept₃, List.Subset.trans hmore₂ hmore₃,
      .inr ⟨b, rfl,
      .head _, fun hfree => ?_, hbsize ▸ hle, List.subset_cons_self _ _, List.Subset.refl _,
      fun c hc _ => hfresh c hc⟩⟩
    obtain ⟨c, hc, hcb⟩ := hok.isBlock _ hfree
    exact hfresh c hc hcb
  · have hmore : MorePages h h₁ := by
      unfold MorePages
      rw [hpages]
      exact List.Subset.refl _
    refine Ends.pure ⟨blocks, frees', hok', hkept, hmore, .inr ⟨b, rfl,
      htaken.mem, htaken.notFree, hle.trans htaken.size, List.Subset.refl _, htaken.rest, ?_⟩⟩
    exact fun c _ hlive heq => hlive (heq ▸ htaken.wasFree)

end UnDOS.Crt
