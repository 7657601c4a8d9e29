import UnDOS.Lib.Chain
import UnDOS.Lib.Checked
import UnDOS.Crt.Heap

/-!
# The Blocks of the Heap

What holds of the heap between its operations (`HeapOk`): the blocks that were carved, each with its
header in memory, lie apart from each other and from the rest of the arena, inside the pages of the
backend; the free list is a chain through some of their headers.
-/

namespace UnDOS.Crt

open UnDOS.Lib
open UnDOS.Lib.Prog (Ends)

/-! ## The invariant -/

/-- A block that was carved: its header and the bytes behind it. -/
structure Block where
  header : Nat
  size : Nat
deriving DecidableEq

/-- The pointer that the program gets. -/
def Block.data (b : Block) : Nat := b.header + headerSize

/-- The end of the block. -/
def Block.stop (b : Block) : Nat := b.header + headerSize + b.size

/-- Two blocks have no byte in common. -/
def Apart (b c : Block) : Prop := b.stop ≤ c.header ∨ c.stop ≤ b.header

/-- The bytes from `first` to `last` lie in pages of the backend. -/
def InPages (pages : List (Nat × Nat)) (first last : Nat) : Prop :=
  ∃ r ∈ pages, r.1 ≤ first ∧ last ≤ r.1 + r.2

/-- One block. -/
structure BlockOk (h : Heap) (b : Block) : Prop where
  aligned : b.header % 16 = 0 ∧ b.size % 16 = 0
  pos : b.header ≠ 0
  word : wordAt h.mem b.header 4 = b.size
  inside : InPages h.pages b.header b.stop
  fits : b.stop ≤ sizeMax

/-- The rest of the arena. -/
structure ArenaOk (h : Heap) (blocks : List Block) : Prop where
  aligned : h.cursor % 16 = 0
  order : h.cursor ≤ h.arenaEnd ∧ h.arenaEnd ≤ sizeMax
  inside : h.cursor < h.arenaEnd → h.cursor ≠ 0 ∧ InPages h.pages h.cursor h.arenaEnd
  apart : ∀ b ∈ blocks, b.stop ≤ h.cursor ∨ h.arenaEnd ≤ b.header

/-- The links of the free list. -/
def nextIn (m : ByteStore) (header : Nat) : Nat := wordAt m (header + 4) 4

/-- The heap with the blocks `blocks`, of which those with the headers `frees` are free. -/
structure HeapOk (h : Heap) (blocks : List Block) (frees : List Nat) : Prop where
  each : ∀ b ∈ blocks, BlockOk h b
  apart : ∀ b ∈ blocks, ∀ c ∈ blocks, b ≠ c → Apart b c
  arena : ArenaOk h blocks
  chain : Chain (nextIn h.mem) h.freeList frees
  nodup : frees.Nodup
  isBlock : ∀ x ∈ frees, ∃ b ∈ blocks, b.header = x
  /-- The one sum that can wrap. -/
  wraps : ∀ s ∈ h.wraps, s = (2 ^ 32 - pageSize, pageSize)

/-- What the program has in the blocks is still there. -/
def Kept (blocks : List Block) (h h' : Heap) : Prop :=
  ∀ b ∈ blocks, ∀ i < b.size, h'.mem (b.data + i) = h.mem (b.data + i)

theorem Kept.refl (blocks : List Block) (h : Heap) : Kept blocks h h := fun _ _ _ _ => rfl

theorem Kept.trans {blocks : List Block} {h h' h'' : Heap} (hk : Kept blocks h h')
    (hk' : Kept blocks h' h'') : Kept blocks h h'' :=
  fun b hb i hi => (hk' b hb i hi).trans (hk b hb i hi)

namespace HeapOk

variable {h : Heap} {blocks : List Block} {frees : List Nat}

theorem headers_apart (hok : HeapOk h blocks frees) {b c : Block} (hb : b ∈ blocks)
    (hc : c ∈ blocks)
    (hne : b.header ≠ c.header) : b.stop ≤ c.header ∨ c.stop ≤ b.header :=
  hok.apart b hb c hc fun heq => hne (congrArg Block.header heq)

theorem freeList_lt (hok : HeapOk h blocks frees) : h.freeList < 2 ^ 32 := by
  have hchain := hok.chain
  cases hfree : frees with
  | nil =>
    rw [hfree] at hchain
    have hzero : h.freeList = 0 := hchain
    omega
  | cons x rest =>
    rw [hfree] at hchain
    obtain ⟨b, hb, hx⟩ := hok.isBlock x (hfree ▸ .head _)
    have hfits := (hok.each b hb).fits
    have hhead : h.freeList = x := hchain.1
    unfold Block.stop sizeMax at hfits
    omega

end HeapOk

/-! ## Writing a link -/

section Linking

variable {h : Heap} {blocks : List Block} {frees : List Nat} {b : Block}

/-- The heap after `b->next = v`. -/
def withNext (h : Heap) (b : Block) (v : Nat) : Heap :=
  { h with mem := writeAt h.mem (b.header + 4) (leBytes 4 v) }

theorem withNext_word (hok : HeapOk h blocks frees) (hb : b ∈ blocks) (v : Nat) {c : Block}
    (hc : c ∈ blocks) : wordAt (withNext h b v).mem c.header 4 = wordAt h.mem c.header 4 := by
  apply wordAt_writeAt_of_disjoint
  rw [leBytes_length]
  by_cases heq : c.header = b.header
  · omega
  · have hapart := hok.headers_apart hc hb heq
    unfold Block.stop headerSize at hapart
    omega

theorem withNext_next (hok : HeapOk h blocks frees) (hb : b ∈ blocks) (v : Nat) {c : Block}
    (hc : c ∈ blocks) (hne : c.header ≠ b.header) :
    nextIn (withNext h b v).mem c.header = nextIn h.mem c.header := by
  apply wordAt_writeAt_of_disjoint
  rw [leBytes_length]
  have hapart := hok.headers_apart hc hb hne
  unfold Block.stop headerSize at hapart
  omega

theorem withNext_self {v : Nat} (hv : v < 2 ^ 32) : nextIn (withNext h b v).mem b.header = v := by
  unfold nextIn withNext
  rw [wordAt_writeAt_self]
  exact Nat.mod_eq_of_lt hv

theorem withNext_kept (hok : HeapOk h blocks frees) (hb : b ∈ blocks) (v : Nat) :
    Kept blocks h (withNext h b v) := by
  intro c hc i hi
  unfold Block.data headerSize
  by_cases heq : c.header = b.header
  · apply writeAt_of_ge
    rw [leBytes_length]
    omega
  · have hapart := hok.headers_apart hc hb heq
    unfold Block.stop headerSize at hapart
    rcases hapart with hbelow | habove
    · exact writeAt_of_lt (by omega)
    · apply writeAt_of_ge
      rw [leBytes_length]
      omega

theorem withNext_ok (hok : HeapOk h blocks frees) (hb : b ∈ blocks) (v : Nat) {head : Nat}
    {frees' : List Nat} (hchain : Chain (nextIn (withNext h b v).mem) head frees')
    (hnodup : frees'.Nodup) (hisBlock : ∀ x ∈ frees', ∃ c ∈ blocks, c.header = x) :
    HeapOk { withNext h b v with freeList := head } blocks frees' where
  each c hc :=
    { aligned := (hok.each c hc).aligned
      pos := (hok.each c hc).pos
      word := (withNext_word hok hb v hc).trans (hok.each c hc).word
      inside := (hok.each c hc).inside
      fits := (hok.each c hc).fits }
  apart := hok.apart
  arena := ⟨hok.arena.aligned, hok.arena.order, hok.arena.inside, hok.arena.apart⟩
  chain := hchain
  nodup := hnodup
  isBlock := hisBlock
  wraps := hok.wraps

end Linking

/-! ## Freeing -/

theorem free_ends {h : Heap} {blocks : List Block} {frees : List Nat} {b : Block} {E : Unit → Prop}
    (hok : HeapOk h blocks frees) (hb : b ∈ blocks) (hlive : b.header ∉ frees) :
    Ends (free b.data) h E fun _ h' =>
      HeapOk h' blocks (b.header :: frees) ∧ Kept blocks h h' ∧ h'.pages = h.pages := by
  have hbok := hok.each b hb
  have hself := withNext_self (h := h) (b := b) hok.freeList_lt
  have hchain : Chain (nextIn (withNext h b h.freeList).mem) b.header (b.header :: frees) := by
    refine hok.chain.push hbok.pos hself fun x hx => ?_
    obtain ⟨c, hc, rfl⟩ := hok.isBlock x hx
    exact withNext_next hok hb _ hc fun heq => hlive (heq ▸ hx)
  refine Ends.get_bind (Ends.bind (P := fun _ h' => h' = withNext h b h.freeList) rfl ?_)
  rintro _ h' rfl
  refine Ends.modify ⟨withNext_ok hok hb _ hchain (List.nodup_cons.2 ⟨hlive, hok.nodup⟩) ?_,
    withNext_kept hok hb _, rfl⟩
  intro x hx
  rcases List.mem_cons.1 hx with rfl | hx
  · exact ⟨b, hb, rfl⟩
  · exact hok.isBlock x hx

end UnDOS.Crt
