import UnDOS.Lib.Run
import UnDOS.Crt.Allocation

/-!
# Programs That Use the Heap

A program calls the four operations in any order, writes into the blocks that it has, and frees only
those.  Around it, memory that is not in the pages of the heap changes as it likes.
-/

namespace UnDOS.Crt

open UnDOS.Lib
open UnDOS.Lib.Prog (Ends)

/-! ## The program -/

/-- The heap, and the blocks that the program has: each pointer with the size that was asked for. -/
structure World where
  heap : Heap
  live : List (Nat × Nat)

/-- A call, a write into a block, or a change outside of the pages. -/
inductive Call where
  | malloc (grow : Nat → Nat) (size : Nat)
  | calloc (grow : Nat → Nat) (count size : Nat)
  | realloc (grow : Nat → Nat) (ptr size : Nat)
  | free (ptr : Nat)
  | write (ptr offset : Nat) (data : List UInt8)
  | outside (m : ByteStore)

/-- What happens, with the pointer that is returned. -/
def Call.run : Call → Op Nat
  | .malloc grow size => Crt.malloc grow size
  | .calloc grow count size => Crt.calloc grow count size
  | .realloc grow ptr size => Crt.realloc grow ptr size
  | .free ptr => do
    Crt.free ptr
    pure 0
  | .write ptr offset data => do
    storeBytes (ptr + offset) data
    pure 0
  | .outside m => do
    Prog.modify fun h => { h with mem := m }
    pure 0

/-- The blocks of the program after the call has returned `r`. -/
def Call.liveAfter (live : List (Nat × Nat)) (r : Nat) : Call → List (Nat × Nat)
  | .malloc _ size => if r = 0 then live else (r, size) :: live
  | .calloc _ count size => if r = 0 then live else (r, count * size) :: live
  | .realloc _ ptr size =>
    if r ≠ 0 then (r, size) :: live.filter (·.1 ≠ ptr)
    else if size = 0 then live.filter (·.1 ≠ ptr)
    else live
  | .free ptr => live.filter (·.1 ≠ ptr)
  | .write _ _ _ => live
  | .outside _ => live

/-- What the program may do. -/
def Call.Permitted (w : World) : Call → Prop
  | .malloc grow size => BackendOk w.heap.pages grow ∧ size ≤ sizeMax
  | .calloc grow count size => BackendOk w.heap.pages grow ∧ count ≤ sizeMax ∧ size ≤ sizeMax
  | .realloc grow ptr size => BackendOk w.heap.pages grow ∧ size ≤ sizeMax ∧
      (ptr = 0 ∨ ∃ n, (ptr, n) ∈ w.live)
  | .free ptr => ptr = 0 ∨ ∃ n, (ptr, n) ∈ w.live
  | .write ptr offset data => ∃ n, (ptr, n) ∈ w.live ∧ offset + data.length ≤ n
  | .outside m => ∀ a, InPages w.heap.pages a (a + 1) → m a = w.heap.mem a

/-- One step. -/
def Step (w : World) (call : Call) (w' : World) : Prop :=
  call.Permitted w ∧ ∃ r, call.run w.heap = (.ok r, w'.heap) ∧ w'.live = call.liveAfter w.live r

/-! ## What is promised -/

/-- The size of the block at a pointer, as its header says. -/
def blockSize (w : World) (p : Nat) : Nat := wordAt w.heap.mem (p - headerSize) 4

/-- The heap between two calls. -/
structure Sound (w : World) : Prop where
  aligned : ∀ x ∈ w.live, x.1 % 16 = 0
  large : ∀ x ∈ w.live, x.2 ≤ blockSize w x.1
  distinct : (w.live.map Prod.fst).Nodup
  apart : ∀ x ∈ w.live, ∀ y ∈ w.live, x.1 ≠ y.1 →
    x.1 + blockSize w x.1 ≤ y.1 - headerSize ∨ y.1 + blockSize w y.1 ≤ x.1 - headerSize
  inPages : ∀ x ∈ w.live, InPages w.heap.pages (x.1 - headerSize) (x.1 + blockSize w x.1)
  free : ∃ frees, Chain (nextIn w.heap.mem) w.heap.freeList frees ∧ frees.Nodup ∧
    ∀ header ∈ frees, (∀ x ∈ w.live, x.1 ≠ header + headerSize) ∧
      ∀ x ∈ w.live, x.1 + blockSize w x.1 ≤ header ∨ header + headerSize ≤ x.1 - headerSize
  /-- Only the sum for the last page below 2^32 wraps. -/
  wraps : ∀ s ∈ w.heap.wraps, s = (2 ^ 32 - pageSize, pageSize)

/-- What the call does with the contents of the blocks: it returned `r` and left the heap `h`. -/
def Call.ContentsOk (w : World) (r : Nat) (h : Heap) : Call → Prop
  | .malloc _ _ => ∀ x ∈ w.live, ∀ i < x.2, h.mem (x.1 + i) = w.heap.mem (x.1 + i)
  | .calloc _ count size => (∀ x ∈ w.live, ∀ i < x.2, h.mem (x.1 + i) = w.heap.mem (x.1 + i)) ∧
      (r ≠ 0 → ∀ i < count * size, h.mem (r + i) = 0)
  | .realloc _ ptr size =>
      (∀ x ∈ w.live, x.1 ≠ ptr ∨ (r = 0 ∧ size ≠ 0) →
        ∀ i < x.2, h.mem (x.1 + i) = w.heap.mem (x.1 + i)) ∧
      (r ≠ 0 → ∀ n, (ptr, n) ∈ w.live → ∀ i < min n size, h.mem (r + i) = w.heap.mem (ptr + i))
  | .free ptr => ∀ x ∈ w.live, x.1 ≠ ptr → ∀ i < x.2, h.mem (x.1 + i) = w.heap.mem (x.1 + i)
  | .write _ _ _ => True
  | .outside _ => True

/-! ## The invariant -/

/-- The blocks of the program are blocks of the heap that are not free. -/
structure LiveOk (blocks : List Block) (frees : List Nat) (live : List (Nat × Nat)) : Prop where
  each : ∀ x ∈ live, ∃ b ∈ blocks, x.1 = b.data ∧ x.2 ≤ b.size ∧ b.header ∉ frees
  distinct : (live.map Prod.fst).Nodup

/-- The invariant of a run. -/
def WorldOk (w : World) : Prop :=
  ∃ blocks frees, HeapOk w.heap blocks frees ∧ LiveOk blocks frees w.live

section

variable {h : Heap} {blocks : List Block} {frees : List Nat} {live : List (Nat × Nat)} {b : Block}

theorem data_inj {c : Block} (heq : b.data = c.data) : b.header = c.header := add_right_cancel heq

theorem data_ne_zero (b : Block) : b.data ≠ 0 := by
  unfold Block.data headerSize
  omega

theorem data_sub (b : Block) : b.data - headerSize = b.header := Nat.add_sub_cancel _ _

variable {w : World} {grow : Nat → Nat} {E : Unit → Prop}

theorem WorldOk.sound (hw : WorldOk w) : Sound w := by
  obtain ⟨blocks, frees, hok, hlive⟩ := hw
  have hsize : ∀ b ∈ blocks, blockSize w b.data = b.size := by
    intro b hb
    exact (hok.each b hb).word
  have hstop : ∀ b : Block, b.data + b.size = b.stop := fun _ => rfl
  refine ⟨fun x hx => ?_, fun x hx => ?_, hlive.distinct, fun x hx y hy hne => ?_, fun x hx => ?_,
    ⟨frees, hok.chain, hok.nodup, fun header hheader => ⟨fun x hx heq => ?_, fun x hx => ?_⟩⟩,
      hok.wraps⟩
  · obtain ⟨b, hb, hdata, -, -⟩ := hlive.each x hx
    have haligned := (hok.each b hb).aligned.1
    rw [hdata]
    unfold Block.data headerSize
    omega
  · obtain ⟨b, hb, hdata, hle, -⟩ := hlive.each x hx
    rw [hdata, hsize b hb]
    exact hle
  · obtain ⟨b, hb, hx', -, -⟩ := hlive.each x hx
    obtain ⟨c, hc, hy', -, -⟩ := hlive.each y hy
    rw [hx', hy', hsize b hb, hsize c hc]
    exact hok.apart b hb c hc fun heq => hne (by rw [hx', hy', heq])
  · obtain ⟨b, hb, hdata, -, -⟩ := hlive.each x hx
    rw [hdata, hsize b hb]
    exact (hok.each b hb).inside
  · obtain ⟨b, hb, hdata, -, hnot⟩ := hlive.each x hx
    exact hnot (add_right_cancel (hdata.symm.trans heq) ▸ hheader)
  · obtain ⟨b, hb, hdata, -, hnot⟩ := hlive.each x hx
    obtain ⟨c, hc, rfl⟩ := hok.isBlock header hheader
    rw [hdata, hsize b hb, data_sub, hstop]
    rcases hok.headers_apart hb hc fun heq => hnot (heq ▸ hheader) with hbelow | habove
    · exact .inl hbelow
    · unfold Block.stop at habove
      exact .inr (by omega)

theorem LiveOk.allocate (hlive : LiveOk blocks frees live) {blocks' : List Block}
    {frees' : List Nat}
    {size : Nat} (hnew : Allocated blocks frees blocks' frees' size b) :
    LiveOk blocks' frees' ((b.data, size) :: live) where
  each x hx := by
    rcases List.mem_cons.1 hx with rfl | hx
    · exact ⟨b, hnew.mem, rfl, hnew.size, hnew.notFree⟩
    · obtain ⟨c, hc, hdata, hle, hnot⟩ := hlive.each x hx
      exact ⟨c, hnew.more hc, hdata, hle, fun hm => hnot (hnew.fewer hm)⟩
  distinct := by
    refine List.nodup_cons.2 ⟨fun hm => ?_, hlive.distinct⟩
    obtain ⟨x, hx, heq⟩ := List.mem_map.1 hm
    obtain ⟨c, hc, hdata, -, hnot⟩ := hlive.each x hx
    exact hnew.fresh c hc hnot (data_inj (hdata.symm.trans heq))

theorem LiveOk.release (hlive : LiveOk blocks frees live) (b : Block) :
    LiveOk blocks (b.header :: frees) (live.filter (·.1 ≠ b.data)) where
  each x hx := by
    obtain ⟨hx, hne⟩ := List.mem_filter.1 hx
    obtain ⟨c, hc, hdata, hle, hnot⟩ := hlive.each x hx
    refine ⟨c, hc, hdata, hle, fun hm => ?_⟩
    rcases List.mem_cons.1 hm with heq | hm
    · have hne' : x.1 ≠ b.data := of_decide_eq_true hne
      exact hne' (by rw [hdata]; unfold Block.data; rw [heq])
    · exact hnot hm
  distinct := hlive.distinct.sublist (List.filter_sublist.map Prod.fst)

theorem LiveOk.ne_null (hlive : LiveOk blocks frees live) : ∀ x ∈ live, x.1 ≠ 0 := by
  intro x hx heq
  obtain ⟨b, -, hdata, -, -⟩ := hlive.each x hx
  exact data_ne_zero b (hdata.symm.trans heq)

theorem LiveOk.filter_null (hlive : LiveOk blocks frees live) : live.filter (·.1 ≠ 0) = live :=
  List.filter_eq_self.2 fun x hx => decide_eq_true (hlive.ne_null x hx)

theorem LiveOk.resize (hlive : LiveOk blocks frees live) (hb : b ∈ blocks) (hnot : b.header ∉ frees)
    {size : Nat} (hsize : size ≤ b.size) :
    LiveOk blocks frees ((b.data, size) :: live.filter (·.1 ≠ b.data)) where
  each x hx := by
    rcases List.mem_cons.1 hx with rfl | hx
    · exact ⟨b, hb, rfl, hsize, hnot⟩
    · exact hlive.each x (List.mem_filter.1 hx).1
  distinct := by
    refine List.nodup_cons.2 ⟨fun hm => ?_,
      hlive.distinct.sublist (List.filter_sublist.map Prod.fst)⟩
    obtain ⟨x, hx, heq⟩ := List.mem_map.1 hm
    exact of_decide_eq_true (List.mem_filter.1 hx).2 heq

theorem LiveOk.size_unique (hlive : LiveOk blocks frees live) {p n m : Nat} (hn : (p, n) ∈ live)
    (hm : (p, m) ∈ live) : n = m :=
  (Prod.mk.inj (List.inj_on_of_nodup_map hlive.distinct hn hm rfl)).2

theorem HeapOk.withData (hok : HeapOk h blocks frees) (hb : b ∈ blocks) (offset : Nat)
    (data : List UInt8) (hroom : offset + data.length ≤ b.size) :
    HeapOk { h with mem := writeAt h.mem (b.data + offset) data } blocks frees ∧
      ∀ c ∈ blocks, c ≠ b → ∀ i < c.size,
        writeAt h.mem (b.data + offset) data (c.data + i) = h.mem (c.data + i) := by
  have hwrite : ∀ a, a < b.data ∨ b.stop ≤ a → writeAt h.mem (b.data + offset) data a =
      h.mem a := by
    intro a ha
    have hstop : b.stop = b.data + b.size := rfl
    rcases ha with hbelow | habove
    · exact writeAt_of_lt (by omega)
    · exact writeAt_of_ge (by omega)
  have hout : ∀ c ∈ blocks, c ≠ b → ∀ i < headerSize + c.size,
      writeAt h.mem (b.data + offset) data (c.header + i) = h.mem (c.header + i) := by
    intro c hc hne i hi
    apply hwrite
    have hapart := hok.apart c hc b hb hne
    unfold Apart Block.stop at hapart
    unfold Block.data Block.stop
    omega
  refine ⟨hok.withMem fun c hc i hi => ?_, fun c hc hne i hi => ?_⟩
  · by_cases heq : c = b
    · subst heq
      exact hwrite _ (.inl (by unfold Block.data; omega))
    · exact hout c hc heq i (by omega)
  · have hdata := hout c hc hne (headerSize + i) (by omega)
    rw [← add_assoc] at hdata
    exact hdata

theorem LiveOk.kept (hlive : LiveOk blocks frees live) {h' : Heap} (hkept : Kept blocks h h') :
    ∀ x ∈ live, ∀ i < x.2, h'.mem (x.1 + i) = h.mem (x.1 + i) := by
  intro x hx i hi
  obtain ⟨b, hb, hdata, hle, -⟩ := hlive.each x hx
  rw [hdata]
  exact hkept b hb i (by omega)

/-! ## The calls -/

/-- What a call leaves. -/
def CallPost (w : World) (call : Call) (r : Nat) (h' : Heap) : Prop :=
  WorldOk ⟨h', call.liveAfter w.live r⟩ ∧ call.ContentsOk w r h'

theorem malloc_post {size : Nat}
    (hok : HeapOk w.heap blocks frees) (hlive : LiveOk blocks frees w.live)
    (hgrow : BackendOk w.heap.pages grow) :
    Ends (malloc grow size) w.heap E (CallPost w (.malloc grow size)) := by
  apply (malloc_ends hok hgrow).mono
  rintro p h' ⟨blocks', frees', hok', hkept, -, hcase⟩
  refine ⟨?_, hlive.kept hkept⟩
  rcases hcase with ⟨rfl, rfl, rfl⟩ | ⟨b, rfl, hnew⟩
  · exact ⟨_, _, hok', hlive⟩
  · exact ⟨_, _, hok', hlive.allocate hnew⟩

theorem calloc_post {count size : Nat}
    (hok : HeapOk w.heap blocks frees) (hlive : LiveOk blocks frees w.live)
    (hgrow : BackendOk w.heap.pages grow) :
    Ends (calloc grow count size) w.heap E (CallPost w (.calloc grow count size)) := by
  have hnull : CallPost w (.calloc grow count size) 0 w.heap :=
    ⟨⟨_, _, hok, hlive⟩, fun _ _ _ _ => rfl, absurd rfl⟩
  refine Ends.ite (fun _ => Ends.pure hnull) fun hcheck => ?_
  have htotal : count * size ≤ sizeMax := by
    rcases eq_zero_or_pos size with rfl | hpos
    · exact Nat.zero_le _
    · have hle : count ≤ sizeMax / size := by
        by_contra hlt
        exact hcheck ⟨ne_of_gt hpos, not_le.1 hlt⟩
      exact (Nat.le_div_iff_mul_le hpos).1 hle
  have hmul : mulSize count size w.heap = (.ok (count * size), w.heap) := by
    unfold mulSize
    rw [if_pos htotal]
    rfl
  refine Ends.bind_run hmul ((malloc_ends hok hgrow).bind ?_)
  rintro p h₁ ⟨blocks', frees', hok', hkept, -, hcase⟩
  rcases hcase with ⟨rfl, rfl, rfl⟩ | ⟨b, rfl, hnew⟩
  · exact Ends.pure ⟨⟨_, _, hok', hlive⟩, hlive.kept hkept, absurd rfl⟩
  · rw [if_pos (data_ne_zero b)]
    obtain ⟨hzero, hothers⟩ := hok'.withData hnew.mem 0 (List.replicate (count * size) 0)
      (by rw [List.length_replicate, zero_add]; exact hnew.size)
    refine (Ends.modify (Q := fun _ h' => h' = { h₁ with
      mem := writeAt h₁.mem b.data (List.replicate (count * size) 0) }) rfl).bind ?_
    rintro _ h' rfl
    refine Ends.pure ⟨?_, fun x hx i hi => ?_, fun _ i hi => ?_⟩
    · exact ⟨_, _, hzero, hlive.allocate hnew⟩
    · obtain ⟨c, hc, hdata, hle, hnot⟩ := hlive.each x hx
      have hne : c ≠ b := fun heq => hnew.fresh c hc hnot (congrArg Block.header heq)
      have hsame := hothers c (hnew.more hc) hne i (by omega)
      rw [hdata]
      exact hsame.trans (hkept c hc i (by omega))
    · dsimp only
      rw [writeAt_inside (by rw [List.length_replicate]; exact hi), List.getD_eq_getElem?_getD,
        List.getElem?_replicate, if_pos hi]
      rfl

theorem free_post {ptr : Nat} (hok : HeapOk w.heap blocks frees)
    (hlive : LiveOk blocks frees w.live) (hptr : ptr = 0 ∨ ∃ n, (ptr, n) ∈ w.live) :
    Ends (Call.run (.free ptr)) w.heap E (CallPost w (.free ptr)) := by
  rcases hptr with rfl | ⟨n, hmem⟩
  · refine Ends.pure ⟨⟨blocks, frees, hok, ?_⟩, fun _ _ _ _ _ => rfl⟩
    rw [Call.liveAfter, hlive.filter_null]
    exact hlive
  · obtain ⟨b, hb, hdata, -, hnot⟩ := hlive.each _ hmem
    have hdata' : ptr = b.data := hdata
    subst hdata'
    refine (free_ends hok hb hnot).bind fun _ h' hh' => ?_
    obtain ⟨hok', hkept, -⟩ := hh'
    exact Ends.pure ⟨⟨_, _, hok', hlive.release b⟩, fun x hx _ => hlive.kept hkept x hx⟩

/-- The old bytes are copied before the old block is freed. -/
theorem realloc_move {n size : Nat} {h₁ : Heap}
    {blocks' : List Block} {frees' : List Nat} {c : Block} (hlive : LiveOk blocks frees w.live)
    (hb : b ∈ blocks) (hnot : b.header ∉ frees) (hn : (b.data, n) ∈ w.live) (hle : n ≤ b.size)
    (hlt : b.size < size) (hok' : HeapOk h₁ blocks' frees') (hkept : Kept blocks w.heap h₁)
    (hnew : Allocated blocks frees blocks' frees' size c) :
    Ends (do
      let old ← sizeOf (b.data - headerSize)
      let h ← Prog.get
      storeBytes c.data (readAt h.mem b.data old)
      Crt.free b.data
      pure c.data) h₁ E (CallPost w (.realloc grow b.data size)) := by
  have hb' := hnew.more hb
  have hsizeOf : sizeOf (b.data - headerSize) h₁ = (.ok b.size, h₁) := by
    unfold sizeOf load
    rw [data_sub, Prog.get_bind_apply, (hok'.each b hb').word]
    rfl
  refine Ends.bind_run hsizeOf (Ends.get_bind ?_)
  obtain ⟨hcopy, hothers⟩ := hok'.withData hnew.mem 0 (readAt h₁.mem b.data b.size)
    (by rw [readAt_length, zero_add]; exact hlt.le.trans hnew.size)
  refine (Ends.modify (Q := fun _ h' => h' = { h₁ with
    mem := writeAt h₁.mem c.data (readAt h₁.mem b.data b.size) }) rfl).bind ?_
  rintro _ h₂ rfl
  refine (free_ends hcopy hb' fun hfree => hnot (hnew.fewer hfree)).bind fun _ h' hh' => ?_
  obtain ⟨hok'', hkept', -⟩ := hh'
  refine Ends.pure ⟨?_, fun x hx hcase i hi => ?_, fun _ m hm i hi => ?_⟩
  · have hmoved := (hlive.allocate hnew).release b
    have hkeep : decide (c.data ≠ b.data) = true := decide_eq_true fun heq =>
      hnew.fresh b hb hnot (data_inj heq.symm)
    rw [List.filter_cons, if_pos hkeep] at hmoved
    exact ⟨_, _, hok'', hmoved⟩
  · obtain ⟨d, hd, hdata, hdle, hdnot⟩ := hlive.each x hx
    have hdc : d ≠ c := fun heq => hnew.fresh d hd hdnot (congrArg Block.header heq)
    rw [hdata, hkept' d (hnew.more hd) i (by omega), ← hkept d hd i (by omega)]
    exact hothers d (hnew.more hd) hdc i (by omega)
  · -- The new block has the bytes of the old one.
    have hmn := hlive.size_unique hm hn
    have hi' : i < b.size := by omega
    have hread : i < (readAt h₁.mem b.data b.size).length := by
      rw [readAt_length]
      exact hi'
    rw [hkept' c hnew.mem i (by have := hnew.size; omega), ← hkept b hb i hi']
    show writeAt h₁.mem c.data (readAt h₁.mem b.data b.size) (c.data + i) = _
    rw [writeAt_inside hread, readAt_getD _ hi']

theorem realloc_post {ptr size : Nat}
    (hok : HeapOk w.heap blocks frees) (hlive : LiveOk blocks frees w.live)
    (hgrow : BackendOk w.heap.pages grow) (hptr : ptr = 0 ∨ ∃ n, (ptr, n) ∈ w.live) :
    Ends (realloc grow ptr size) w.heap E (CallPost w (.realloc grow ptr size)) := by
  unfold realloc
  rcases hptr with rfl | ⟨n, hmem⟩
  · -- Without a block this is an allocation.
    apply (malloc_post hok hlive hgrow).mono
    rintro r h' ⟨hworld, hcontents⟩
    refine ⟨?_, fun x hx _ => hcontents x hx, fun _ m hm => absurd rfl (hlive.ne_null _ hm)⟩
    have hsame : Call.liveAfter w.live r (.realloc grow 0 size) =
        Call.liveAfter w.live r (.malloc grow size) := by
      unfold Call.liveAfter
      dsimp only
      rw [hlive.filter_null]
      by_cases hr : r = 0
      · rw [if_neg (not_not.2 hr), if_pos hr, ite_self]
      · rw [if_pos hr, if_neg hr]
    rw [hsame]
    exact hworld
  obtain ⟨b, hb, hdata, hle, hnot⟩ := hlive.each _ hmem
  have hdata' : ptr = b.data := hdata
  subst hdata'
  rw [if_neg (data_ne_zero b)]
  refine Ends.ite (fun hzero => ?_) fun hpos => ?_
  · refine (free_ends hok hb hnot).bind fun _ h' hh' => ?_
    obtain ⟨hok', hkept, -⟩ := hh'
    refine Ends.pure ⟨?_, fun x hx _ => hlive.kept hkept x hx, absurd rfl⟩
    rw [Call.liveAfter, if_pos hzero]
    exact ⟨_, _, hok', hlive.release b⟩
  have hsizeOf : sizeOf (b.data - headerSize) w.heap = (.ok b.size, w.heap) := by
    unfold sizeOf load
    rw [data_sub, Prog.get_bind_apply, (hok.each b hb).word]
    rfl
  refine Ends.bind_run hsizeOf (Ends.ite (fun hfits => ?_) fun hlarge => ?_)
  · -- The block is large enough as it is.
    refine Ends.pure ⟨?_, fun _ _ _ _ _ => rfl, fun _ _ _ _ _ => rfl⟩
    exact ⟨_, _, hok, hlive.resize hb hnot hfits⟩
  apply (malloc_ends hok hgrow).bind
  rintro p h₁ ⟨blocks', frees', hok', hkept, -, hcase⟩
  rcases hcase with ⟨rfl, rfl, rfl⟩ | ⟨c, rfl, hnew⟩
  · refine Ends.pure ⟨?_, fun x hx _ => hlive.kept hkept x hx, absurd rfl⟩
    rw [Call.liveAfter, if_neg hpos]
    exact ⟨_, _, hok', hlive⟩
  · exact realloc_move hlive hb hnot hmem hle (not_le.1 hlarge) hok' hkept hnew

end

/-! ## Runs -/

theorem Call.post {w : World} (hw : WorldOk w) {call : Call} (hp : call.Permitted w) :
    Ends call.run w.heap (fun _ => False) (CallPost w call) := by
  obtain ⟨blocks, frees, hok, hlive⟩ := hw
  cases call with
  | malloc grow size => exact malloc_post hok hlive hp.1
  | calloc grow count size => exact calloc_post hok hlive hp.1
  | realloc grow ptr size => exact realloc_post hok hlive hp.1 hp.2.2
  | free ptr => exact free_post hok hlive hp
  | write ptr offset data =>
    obtain ⟨n, hmem, hroom⟩ := hp
    obtain ⟨b, hb, hdata, hle, -⟩ := hlive.each _ hmem
    have hdata' : ptr = b.data := hdata
    subst hdata'
    have hwritten := (hok.withData hb offset data (hroom.trans hle)).1
    exact (Ends.modify (Q := fun _ h' => h' = { w.heap with
      mem := writeAt w.heap.mem (b.data + offset) data }) rfl).bind fun _ h' hh' =>
        Ends.pure ⟨⟨blocks, frees, hh' ▸ hwritten, hlive⟩, trivial⟩
  | outside m =>
    have hsame : HeapOk { w.heap with mem := m } blocks frees := hok.withMem fun b hb i hi => by
      obtain ⟨r, hr, hlow, hhigh⟩ := (hok.each b hb).inside
      refine hp _ ⟨r, hr, by omega, ?_⟩
      unfold Block.stop at hhigh
      omega
    exact (Ends.modify (Q := fun _ h' => h' = { w.heap with mem := m }) rfl).bind fun _ h' hh' =>
      Ends.pure ⟨⟨blocks, frees, hh' ▸ hsame, hlive⟩, trivial⟩

/-- Nothing is allocated, and no pages were taken. -/
def start (m : ByteStore) : World := ⟨{ mem := m }, []⟩

theorem start_ok (m : ByteStore) : WorldOk (start m) := by
  refine ⟨[], [], ⟨fun b hb => absurd hb List.not_mem_nil, fun b hb =>
    absurd hb List.not_mem_nil, ?_,
    rfl, List.nodup_nil, fun x hx => (nomatch hx), fun s hs => (nomatch hs)⟩,
    fun x hx => absurd hx List.not_mem_nil, List.nodup_nil⟩
  exact ⟨rfl, ⟨le_rfl, Nat.zero_le _⟩, fun hlt => absurd hlt (lt_irrefl 0),
    fun b hb => nomatch hb⟩

theorem run_ok {m : ByteStore} {run : List (Call × World)} (h : Run Step (start m) run) :
    WorldOk (lastState (start m) run) := by
  refine h.invariant (start_ok m) fun w call w' hw hstep => ?_
  obtain ⟨hp, r, hrun, hlive⟩ := hstep
  have hpost := ((Call.post hw hp).of_ok hrun).1
  rw [← hlive] at hpost
  exact hpost

/-- **The heap is sound.**  In every state that a program reaches, its blocks are aligned, as large
as it asked, apart from each other and from all headers, inside the pages of the backend, and not in
the free list.  Every call that is permitted there returns: no walk is endless, and no size wraps
but the sum in `align_up` for the last page below 2^32, where the rounded size is exact all the
same.  `calloc` gives zeros, `realloc` keeps the contents, and no call changes the other blocks of
the program. -/
theorem heap_sound (m : ByteStore) (run : List (Call × World)) (h : Run Step (start m) run) :
    Sound (lastState (start m) run) ∧
      (∀ h, (alignUp (2 ^ 32 - pageSize) pageSize h).1 = .ok (2 ^ 32 - pageSize)) ∧
      ∀ call : Call, call.Permitted (lastState (start m) run) →
        ∃ r h', call.run (lastState (start m) run).heap = (.ok r, h') ∧
          call.ContentsOk (lastState (start m) run) r h' := by
  have hw := run_ok h
  refine ⟨hw.sound, fun h => congrArg Prod.fst (alignUp_run (by decide) (by decide) h),
    fun call hp => ?_⟩
  have hpost := Call.post hw hp
  rcases hrun : call.run (lastState (start m) run).heap with ⟨r | e | _, h'⟩
  · exact ⟨r, h', rfl, (hpost.of_ok hrun).2⟩
  · exact absurd (hpost.of_err hrun) id
  · rw [Ends, hrun] at hpost
    cases hpost

/-! ## A run -/

/-- A backend that has one arena left, at 64 KiB. -/
def oneArena (n : Nat) : Nat := if n = arenaChunkSize then arenaChunkSize else 0

theorem oneArena_ok : BackendOk [] oneArena := by
  intro n
  unfold oneArena pageSize
  by_cases hn : n = 64 * 1024
  · right
    rw [hn]
    exact ⟨by decide, by decide, fun r hr => nomatch hr⟩
  · exact .inl (if_neg hn)

/-- Ten bytes were allocated, behind the first header of the arena. -/
def tenBytes : World := ⟨(malloc oneArena 10 { mem := fun _ => 0 }).2, [(65552, 10)]⟩

theorem tenBytes_run : (malloc oneArena 10 { mem := fun _ => 0 }).1 = .ok 65552 := by decide +kernel

theorem heap_sound_tenBytes : Sound tenBytes ∧
    (∀ h, (alignUp (2 ^ 32 - pageSize) pageSize h).1 = .ok (2 ^ 32 - pageSize)) ∧
    ∀ call : Call, call.Permitted tenBytes →
    ∃ r h', call.run tenBytes.heap = (.ok r, h') ∧ call.ContentsOk tenBytes r h' :=
  heap_sound (fun _ => 0) [(.malloc oneArena 10, tenBytes)]
    (.cons .nil ⟨⟨oneArena_ok, by decide⟩, 65552, Prod.ext tenBytes_run rfl, rfl⟩)

/-- Almost the whole address space is asked for: `v + a` wraps before the backend refuses. -/
theorem rounding_wraps : ∃ w,
    Run Step (start fun _ => 0) [(.malloc (fun _ => 0) 0xFFFFEFE1, w)] ∧ w.live = [] ∧
      w.heap.wraps = [(2 ^ 32 - pageSize, pageSize)] := by
  have hrun : (malloc (fun _ => 0) 0xFFFFEFE1 { mem := fun _ => 0 }).1 = .ok 0 := by decide +kernel
  refine ⟨⟨(malloc (fun _ => 0) 0xFFFFEFE1 { mem := fun _ => 0 }).2, []⟩,
    .cons .nil ⟨⟨fun _ => .inl rfl, by decide⟩, 0, Prod.ext hrun rfl, rfl⟩, rfl, ?_⟩
  decide +kernel

end UnDOS.Crt
