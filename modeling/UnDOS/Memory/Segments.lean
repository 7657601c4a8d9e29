import UnDOS.Memory.Elf
import UnDOS.Memory.Walk

/-!
# What a Mapped Segment Holds

The invariant behind the loading of an image: a set of pages, each with the bytes that
it is known to hold (`Holds`).  Mapping a fresh, cleared page adds a page of zeros
(`Holds.mapPage`), and copying file bytes patches the pages it goes to (`Holds.memcpy`).
-/

namespace UnDOS.Memory

open UnDOS.Lib
open UnDOS.Kernel (KernelError)

/-! ## Fresh frames -/

variable {count f root p virt memSize : Nat} {m m' : Machine} {mem : ByteStore} {E : Contents}

theorem scanFrames_free {used : Nat → Bool} {stop : Nat} {skip : Bool} {fuel frame run start : Nat}
    (hrun : run = 0 ∨ (start + run = frame ∧ ∀ k, start ≤ k → k < frame → used k = false))
    (h : scanFrames used count stop skip fuel frame run start = some f) :
    ∀ k, f ≤ k → k < f + count → used k = false := by
  induction fuel generalizing frame run start with
  | zero => simp [scanFrames] at h
  | succ fuel ih =>
    unfold scanFrames at h
    split at h
    · simp at h
    split at h
    · exact ih (.inl rfl) h
    split at h
    · exact ih (.inl rfl) h
    rename_i hused
    have hframe : used frame = false := by simpa using hused
    -- The frame is free: the run of free frames is one longer, and ends here or goes on.
    have hlonger : (if run = 0 then frame else start) + (run + 1) = frame + 1 ∧
        ∀ k, (if run = 0 then frame else start) ≤ k → k < frame + 1 → used k = false := by
      rcases hrun with rfl | ⟨hsum, hfree⟩
      · refine ⟨by simp, ?_⟩
        intro k hk₁ hk₂
        rw [if_pos rfl] at hk₁
        rw [show k = frame by omega, hframe]
      · by_cases h0 : run = 0
        · subst h0
          refine ⟨by simp, ?_⟩
          intro k hk₁ hk₂
          rw [if_pos rfl] at hk₁
          rw [show k = frame by omega, hframe]
        · refine ⟨by rw [if_neg h0]; omega, ?_⟩
          intro k hk₁ hk₂
          rw [if_neg h0] at hk₁
          by_cases hlt : k < frame
          · exact hfree k hk₁ hlt
          · rw [show k = frame by omega, hframe]
    dsimp only at h
    split at h
    · rename_i hcount
      cases h
      intro k hk₁ hk₂
      exact hlonger.2 k hk₁ (by omega)
    · exact ih (.inr hlonger) h

theorem pickFrames_free {used : Nat → Bool} {maxFrames : Nat}
    (h : pickFrames used maxFrames count = some f) :
    ∀ k, f ≤ k → k < f + count → used k = false := by
  unfold pickFrames at h
  split at h
  · simp at h
  split at h
  · rename_i f' hscan
    cases h
    exact scanFrames_free (.inl rfl) hscan
  · exact scanFrames_free (.inl rfl) h

theorem pmmAllocateFrames_fresh {phys : Nat}
    (h : pmmAllocateFrames 1 m = (.ok phys, m')) (hphys : phys ≠ 0) :
    ∃ f, phys = f * pageSize ∧ m.used f = false ∧ m'.used f = true := by
  unfold pmmAllocateFrames at h
  rcases hp : pickFrames m.used m.maxFrames 1 with _ | f
  · rw [hp] at h
    obtain ⟨hok, _⟩ := Prod.mk.inj h
    exact absurd (Outcome.ok.inj hok).symm hphys
  · rw [hp] at h
    obtain ⟨hok, rfl⟩ := Prod.mk.inj h
    refine ⟨f, (Outcome.ok.inj hok).symm, pickFrames_free hp f (le_refl f) (by omega), ?_⟩
    simp

/-! ## Stores -/

theorem afterStores_cons_of_not_covers {st : Store} {stores : List Store}
    {a : Nat} (h : ¬st.Covers a) : afterStores (st :: stores) mem a = afterStores stores mem a := by
  show st.apply (afterStores stores mem) a = _
  unfold Store.apply
  rw [if_neg h]

theorem afterStores_cons_of_covers {st : Store} {stores : List Store}
    {a : Nat} (h : st.Covers a) : afterStores (st :: stores) mem a = st.value := by
  show st.apply (afterStores stores mem) a = _
  unfold Store.apply
  rw [if_pos h]

theorem frame_byte_inj {g off off' : Nat} (ho : off < pageSize) (ho' : off' < pageSize)
    (h : f * pageSize + off = g * pageSize + off') : f = g ∧ off = off' := by
  unfold pageSize at *
  omega

/-! ## Pages and what they hold -/

/-- Page `page` is mapped to frame `f` under `root`. -/
def MapsTo (m : Machine) (root page f : Nat) : Prop :=
  ∃ e, m.walk root page = some e ∧ e.frame = f * pageSize

/-- Known pages and the bytes they hold. -/
abbrev Contents := Nat → Option (Nat → UInt8)

/-- Every known page is mapped, to a frame of its own that is in use, and holds its bytes.
`mem` is memory before the logged stores. -/
structure Holds (mem : ByteStore) (root : Nat) (E : Contents) (m : Machine) : Prop where
  page : ∀ p c, E p = some c → pdIndex p < tempPdSlot ∧ ∃ f, MapsTo m root p f ∧ m.used f = true ∧
    ∀ off, off < pageSize → afterStores m.stores mem (f * pageSize + off) = c off
  apart : ∀ p q c d f, E p = some c → E q = some d → MapsTo m root p f → MapsTo m root q f → p = q

theorem MapsTo.frame_unique {g : Nat} (hf : MapsTo m root p f)
    (hg : MapsTo m root p g) : f = g := by
  obtain ⟨e, hw, he⟩ := hf
  obtain ⟨e', hw', he'⟩ := hg
  rw [hw] at hw'
  cases hw'
  unfold pageSize at he he'
  omega

theorem MapsTo.extends (h : Extends m m')
    (hp : pdIndex p < tempPdSlot) (hf : MapsTo m root p f) : MapsTo m' root p f := by
  obtain ⟨e, hw, he⟩ := hf
  exact ⟨e, h root p e hp hw, he⟩

theorem Holds.mapsOnly (h : Holds mem root E m) (hm : MapsOnly m m') : Holds mem root E m' where
  page := by
    intro p c hc
    obtain ⟨hp, f, hmap, hused, hbytes⟩ := h.page p c hc
    refine ⟨hp, f, hmap.extends hm.walks hp, hm.used f hused, ?_⟩
    rw [hm.stores]
    exact hbytes
  apart := by
    intro p q c d f hc hd hpf hqf
    obtain ⟨hp, fp, hmap, _⟩ := h.page p c hc
    obtain ⟨hq, fq, hmap', _⟩ := h.page q d hd
    have hfp := (hmap.extends hm.walks hp).frame_unique hpf
    have hfq := (hmap'.extends hm.walks hq).frame_unique hqf
    subst hfp hfq
    exact h.apart p q c d _ hc hd hmap hmap'

/-- One more known page. -/
def Contents.set (E : Contents) (page : Nat) (c : Nat → UInt8) : Contents := fun p =>
  if p = page then some c else E p

/-- A fresh page, mapped and cleared. -/
theorem Holds.mapPage {phys : Nat}
    {m₁ m₂ m₃ : Machine} {flags : ProtectFlags} (h : Holds mem root E m)
    (hroot : m.current = root) (halloc : pmmAllocateFrames 1 m = (.ok phys, m₁)) (hphys : phys ≠ 0)
    (hmap : vmmMapPage virt phys flags m₁ = (.ok true, m₂))
    (hclear : memsetPage virt m₂ = (.ok (), m₃)) :
    Holds mem root (E.set (pageOf virt) fun _ => 0) m₃ ∧ Extends m m₃ ∧ m₃.current = root ∧
      m.walk root (pageOf virt) = none ∧ E (pageOf virt) = none := by
  obtain ⟨hm₁, hhalf⟩ := pmmAllocateFrames_ok halloc
  obtain ⟨hm₂, hpd, hmapped⟩ := vmmMapPage_ok hmap
  obtain ⟨hnone, hsome⟩ := hmapped rfl
  obtain ⟨f, rfl, hfree, hnow⟩ := pmmAllocateFrames_fresh halloc hphys
  have hcur₁ : m₁.current = root := hm₁.current.trans hroot
  have hcur₂ : m₂.current = root := hm₂.current.trans hcur₁
  rw [hcur₁] at hnone hsome
  have hwalk : m.walk root (pageOf virt) = none := by
    rw [walk_eq_lookup hpd] at hnone ⊢
    rw [← hhalf]
    exact hnone
  have hEnone : E (pageOf virt) = none := by
    rcases hE : E (pageOf virt) with _ | c
    · rfl
    · obtain ⟨_, g, ⟨e, hw, _⟩, _⟩ := h.page _ c hE
      rw [hwalk] at hw
      simp at hw
  -- What the store does: it clears exactly the new frame.
  have hframe : (Pte.setFrame (f * pageSize) flags).frame = f * pageSize := by
    simp [Pte.setFrame, alignDown, pageSize]
  unfold memsetPage at hclear
  rw [Prog.get_bind_apply, hcur₂, hsome] at hclear
  obtain ⟨_, rfl⟩ := Prod.mk.inj hclear
  have h₂ := (h.mapsOnly hm₁).mapsOnly hm₂
  have hnew : MapsTo m₂ root (pageOf virt) f := ⟨_, hsome, hframe⟩
  have hold : ∀ p c, E p = some c → ∀ g, MapsTo m₂ root p g → g ≠ f := by
    rintro p c hc g hg rfl
    obtain ⟨hp, g', hmap', hused, _⟩ := h.page p c hc
    have heq := ((hmap'.extends hm₁.walks hp).extends hm₂.walks hp).frame_unique hg
    subst heq
    rw [hfree] at hused
    simp at hused
  refine ⟨⟨?_, ?_⟩, extends_isEffect.trans hm₁.walks hm₂.walks, hcur₂, hwalk, hEnone⟩
  · intro p c hc
    by_cases hpv : p = pageOf virt
    · subst hpv
      simp only [Contents.set, if_true, Option.some.injEq] at hc
      subst hc
      refine ⟨hpd, f, hnew, hm₂.used f hnow, ?_⟩
      intro off hoff
      exact afterStores_cons_of_covers ⟨by omega, by omega⟩
    · simp only [Contents.set, if_neg hpv] at hc
      obtain ⟨hp, g, hg, hused, hbytes⟩ := h₂.page p c hc
      refine ⟨hp, g, hg, hused, ?_⟩
      intro off hoff
      have hne := hold p c hc g hg
      rw [← hbytes off hoff]
      apply afterStores_cons_of_not_covers
      rintro ⟨hlo, hhi⟩
      unfold pageSize at *
      omega
  · intro p q c d g hc hd hpg hqg
    by_cases hpv : p = pageOf virt
    · by_cases hqv : q = pageOf virt
      · rw [hpv, hqv]
      · simp only [Contents.set, if_neg hqv] at hd
        subst hpv
        have hgf : f = g := hnew.frame_unique hpg
        exact absurd hgf.symm (hold q d hd g hqg)
    · simp only [Contents.set, if_neg hpv] at hc
      by_cases hqv : q = pageOf virt
      · subst hqv
        have hgf : f = g := hnew.frame_unique hqg
        exact absurd hgf.symm (hold p c hc g hpg)
      · simp only [Contents.set, if_neg hqv] at hd
        exact h₂.apart p q c d g hc hd hpg hqg

/-! ## Copying -/

/-- The byte of page `p` at `off` lies in the `n` bytes from `virt` on. -/
abbrev InRange (virt n p off : Nat) : Prop :=
  off < pageSize ∧ virt ≤ p * pageSize + off ∧ p * pageSize + off < virt + n

/-- Bytes written over what a page holds: `data` at the virtual address `virt`. -/
def patchPage (virt : Nat) (data : List UInt8) (p : Nat) (c : Nat → UInt8) : Nat → UInt8 :=
  fun off =>
    if InRange virt data.length p off then data.getD (p * pageSize + off - virt) 0 else c off

def Contents.patch (E : Contents) (virt : Nat) (data : List UInt8) : Contents := fun p =>
  (E p).map (patchPage virt data p)

theorem patchPage_nil (virt p : Nat) (c : Nat → UInt8) : patchPage virt [] p c = c := by
  funext off
  unfold patchPage InRange
  rw [if_neg]
  simp only [List.length_nil]
  omega

theorem patchPage_cons (virt : Nat) (b : UInt8) (rest : List UInt8) (p : Nat) (c : Nat → UInt8) :
    patchPage virt (b :: rest) p c = patchPage (virt + 1) rest p (patchPage virt [b] p c) := by
  funext off
  unfold patchPage InRange
  simp only [List.length_cons, List.length_nil]
  by_cases hoff : off < pageSize
  · generalize p * pageSize + off = a
    by_cases hlt : a < virt
    · rw [if_neg (by omega), if_neg (by omega), if_neg (by omega)]
    by_cases heq : a = virt
    · subst heq
      simp
    by_cases hin : a < virt + 1 + rest.length
    · rw [if_pos (by omega), if_pos (by omega), show a - virt = a - (virt + 1) + 1 by omega]
      rfl
    · rw [if_neg (by omega), if_neg (by omega), if_neg (by omega)]
  · rw [if_neg (by omega), if_neg (by omega), if_neg (by omega)]

theorem Contents.patch_cons (E : Contents) (virt : Nat) (b : UInt8) (rest : List UInt8) :
    E.patch virt (b :: rest) = (E.patch virt [b]).patch (virt + 1) rest := by
  funext p
  unfold Contents.patch
  rcases E p with _ | c
  · rfl
  · simp [patchPage_cons virt b rest]

theorem virt_eq (virt : Nat) : pageOf virt * pageSize + virt % pageSize = virt :=
  Nat.div_add_mod' virt pageSize

/-- A byte is stored in the frame that the page is mapped to. -/
theorem Holds.storeByte {e : Pte}
    {b : UInt8} (h : Holds mem root E m) (hin : E (pageOf virt) ≠ none)
    (hwalk : m.walk root (pageOf virt) = some e) : Holds mem root (E.patch virt [b])
      { m with stores := .byte (e.frame + virt % pageSize) b :: m.stores } := by
  obtain ⟨c₀, hc₀⟩ := Option.ne_none_iff_exists'.1 hin
  obtain ⟨_, f, hmap, _, _⟩ := h.page _ _ hc₀
  have hframe : e.frame = f * pageSize := by
    obtain ⟨e', hw, he⟩ := hmap
    rw [hwalk] at hw
    rwa [← Option.some.inj hw] at he
  have hoffv : virt % pageSize < pageSize := Nat.mod_lt _ (by decide)
  have hvirt := virt_eq virt
  rw [hframe]
  constructor
  · intro p c hc
    obtain ⟨c', hc', rfl⟩ := Option.map_eq_some_iff.1 hc
    obtain ⟨hp, g, hg, hused, hbytes⟩ := h.page p c' hc'
    refine ⟨hp, g, hg, hused, ?_⟩
    intro off hoff
    by_cases hhit : p = pageOf virt ∧ off = virt % pageSize
    · obtain ⟨rfl, rfl⟩ := hhit
      have hgf : f = g := hmap.frame_unique hg
      subst hgf
      have hrange : InRange virt [b].length (pageOf virt) (virt % pageSize) := by
        simp only [List.length_cons]
        omega
      unfold patchPage
      rw [if_pos hrange, hvirt, Nat.sub_self]
      exact afterStores_cons_of_covers rfl
    · -- Another byte: the store is at a different physical address.
      have hout : ¬InRange virt [b].length p off := by
        simp only [List.length_cons, List.length_nil]
        rintro ⟨_, hlo, hhi⟩
        have heq : p * pageSize + off = pageOf virt * pageSize + virt % pageSize := by omega
        exact hhit (frame_byte_inj hoff hoffv heq)
      unfold patchPage
      rw [if_neg hout, ← hbytes off hoff]
      apply afterStores_cons_of_not_covers
      intro hcov
      obtain ⟨hgf, hoffs⟩ := frame_byte_inj hoff hoffv (hcov)
      subst hgf
      exact hhit ⟨h.apart p _ c' c₀ g hc' hc₀ hg hmap, hoffs⟩
  · intro p q c d g hc hd hpg hqg
    obtain ⟨c', hc', _⟩ := Option.map_eq_some_iff.1 hc
    obtain ⟨d', hd', _⟩ := Option.map_eq_some_iff.1 hd
    exact h.apart p q c' d' g hc' hd' hpg hqg

/-- `memcpy` to known pages. -/
theorem Holds.memcpy {data : List UInt8} (h : Holds mem root E m) (hroot : m.current = root)
    (hin : ∀ i, i < data.length → E (pageOf (virt + i)) ≠ none)
    (hrun : memcpyTo virt data m = (.ok (), m')) :
    Holds mem root (E.patch virt data) m' ∧ Extends m m' ∧ m'.current = root := by
  -- Induction on the bytes; each one is a store through the page it lies in.
  induction data generalizing virt m E with
  | nil =>
    obtain ⟨_, rfl⟩ := Prod.mk.inj hrun
    have hsame : E.patch virt [] = E := by
      funext p
      unfold Contents.patch
      rcases E p with _ | c
      · rfl
      · simp [patchPage_nil]
    rw [hsame]
    exact ⟨h, extends_isEffect.refl m, hroot⟩
  | cons b rest ih =>
    unfold memcpyTo at hrun
    rw [Prog.get_bind_apply, hroot] at hrun
    rcases hwalk : m.walk root (pageOf virt) with _ | e
    · rw [hwalk] at hrun
      simp at hrun
    · rw [hwalk] at hrun
      have hin₀ : E (pageOf virt) ≠ none := by simpa using hin 0 (by simp)
      have hstep := h.storeByte (b := b) hin₀ hwalk
      have hin' : ∀ i, i < rest.length → E.patch virt [b] (pageOf (virt + 1 + i)) ≠ none := by
        intro i hi
        have hsucc := hin (i + 1) (by simpa using hi)
        rw [show virt + (i + 1) = virt + 1 + i by omega] at hsucc
        unfold Contents.patch
        simpa using hsucc
      rw [Contents.patch_cons]
      obtain ⟨hend, hext, hcur⟩ := ih hstep hroot hin' hrun
      exact ⟨hend, extends_isEffect.trans (extends_of_walk fun _ _ => rfl) hext, hcur⟩

/-! ## One segment -/

/-- `n` pages of zeros from page `first` on. -/
def Contents.setRange (E : Contents) (first n : Nat) : Contents := fun p =>
  if first ≤ p ∧ p < first + n then some (fun _ => 0) else E p

theorem Contents.setRange_zero (E : Contents) (first : Nat) : E.setRange first 0 = E := by
  funext p
  unfold Contents.setRange
  rw [if_neg (by omega)]

theorem Contents.setRange_succ (E : Contents) (first n : Nat) :
    E.setRange first (n + 1) = (E.setRange first n).set (first + n) fun _ => 0 := by
  funext p
  unfold Contents.setRange Contents.set
  dsimp only
  by_cases hp : p = first + n
  · rw [if_pos (by omega), if_pos hp]
  · rw [if_neg hp]
    by_cases hin : first ≤ p ∧ p < first + n
    · rw [if_pos (by omega), if_pos hin]
    · rw [if_neg (by omega), if_neg hin]

theorem mapSegmentPages_ok {start n : Nat}
    {flags : ProtectFlags} (h : Holds mem root E m) (hroot : m.current = root)
    (hrun : Prog.countTry count (mapSegmentPage start flags) m = (.ok (n, none), m')) :
    Holds mem root (E.setRange (pageOf start) count) m' ∧ Extends m m' ∧ m'.current = root ∧
      ∀ k, k < count → m.walk root (pageOf start + k) = none ∧ E (pageOf start + k) = none := by
  refine Prog.countTry_none (I := fun i t =>
    Holds mem root (E.setRange (pageOf start) i) t ∧ Extends m t ∧ t.current = root ∧
      ∀ k, k < i → m.walk root (pageOf start + k) = none ∧ E (pageOf start + k) = none) hrun ?_ ?_
  · rw [Contents.setRange_zero]
    exact ⟨h, extends_isEffect.refl m, hroot, by simp⟩
  · rintro i t t' ⟨hholds, hext, hcur, hbefore⟩ hbody
    obtain ⟨phys, t₁, halloc, hbody⟩ := Prog.bind_eq_ok.1 hbody
    split at hbody
    · simp at hbody
    rename_i hphys
    obtain ⟨ok, t₂, hmap, hbody⟩ := Prog.bind_eq_ok.1 hbody
    cases ok with
    | false =>
      obtain ⟨_, t₃, _, hbody⟩ := Prog.bind_eq_ok.1 hbody
      simp at hbody
    | true =>
      obtain ⟨hnew, hext', hcur', hwalk, hE⟩ := hholds.mapPage hcur halloc hphys hmap hbody
      rw [pageOf_add_mul] at hnew hwalk hE
      rw [Contents.setRange_succ]
      refine ⟨hnew, extends_isEffect.trans hext hext', hcur', ?_⟩
      intro k hk
      by_cases hlt : k < i
      · exact hbefore k hlt
      · obtain rfl : k = i := by omega
        -- The page had no mapping in round `i`, so it had none before the loop.
        have hpd := (hnew.page (pageOf start + k) (fun _ => 0) (by simp [Contents.set])).1
        constructor
        · rcases hw : m.walk root (pageOf start + k) with _ | e
          · rfl
          · rw [hext root _ e hpd hw] at hwalk
            simp at hwalk
        · unfold Contents.setRange at hE
          rwa [if_neg (by omega)] at hE

/-- Page `p` is one of the pages that a segment is mapped to. -/
def InSegment (virt memSize p : Nat) : Prop :=
  segmentStart virt ≤ p * pageSize ∧ p * pageSize < segmentEnd virt memSize

theorem inSegment_iff : InSegment virt memSize p ↔ pageOf (segmentStart virt) ≤ p ∧
      p < pageOf (segmentStart virt) + (segmentEnd virt memSize - segmentStart virt) /
        pageSize := by
  unfold InSegment segmentStart segmentEnd alignDown alignUp pageOf pageSize
  omega

theorem inSegment_of_byte {k : Nat} (h : k < memSize) :
    InSegment virt memSize (pageOf (virt + k)) := by
  unfold InSegment segmentStart segmentEnd alignDown alignUp pageOf pageSize
  omega

theorem inSegment_of_inRange {n off : Nat} (hn : n ≤ memSize)
    (h : InRange virt n p off) : InSegment virt memSize p := by
  obtain ⟨hoff, hlo, hhi⟩ := h
  unfold InSegment segmentStart segmentEnd alignDown alignUp
  unfold pageSize at *
  omega

/-- What the bytes of a segment's page are: file bytes where there are any, zeros elsewhere. -/
def segmentPage (virt : Nat) (data : List UInt8) (p : Nat) : Nat → UInt8 :=
  patchPage virt data p fun _ => 0

/-- One segment, mapped and copied: its pages were free, now hold the segment, and no known
page has changed. -/
theorem mapAndCopySegment_ok {fileSize : Nat} {data : Option (List UInt8)} {flags : ProtectFlags}
    (h : Holds mem root E m) (hroot : m.current = root)
    (hrun : mapAndCopySegment virt data fileSize memSize flags m = (.ok (), m')) :
    ∃ E' : Contents, (∀ p c, E p = some c → E' p = some c) ∧ Holds mem root E' m' ∧
      Extends m m' ∧ m'.current = root ∧ fileSize ≤ memSize ∧ virt + memSize ≤ uintptrMax - 4095 ∧
      ∀ p, InSegment virt memSize p →
        E' p = some (segmentPage virt ((data.getD []).take fileSize) p) ∧ m.walk root p = none := by
  unfold mapAndCopySegment at hrun
  split at hrun
  · simp at hrun
  split at hrun
  · simp at hrun
  rename_i hargs hrange
  have hsize : fileSize ≤ memSize := by
    by_contra hgt
    exact hargs (.inr (not_le.1 hgt))
  obtain ⟨⟨n, failure⟩, m₁, hloop, hrun⟩ := Prog.bind_eq_ok.1 hrun
  cases failure with
  | some e =>
    obtain ⟨_, m₂, _, hrun⟩ := Prog.bind_eq_ok.1 hrun
    simp at hrun
  | none =>
    obtain ⟨hholds, hext, hcur, hfresh⟩ := mapSegmentPages_ok h hroot hloop
    generalize hdata : (data.getD []).take fileSize = bytes at hrun
    have hlen : bytes.length ≤ memSize := by
      rw [← hdata, List.length_take]
      omega
    have hnone : ∀ p, InSegment virt memSize p → m.walk root p = none ∧ E p = none := by
      intro p hp
      obtain ⟨hlo, hhi⟩ := inSegment_iff.1 hp
      have hk := hfresh (p - pageOf (segmentStart virt)) (by omega)
      rwa [show pageOf (segmentStart virt) + (p - pageOf (segmentStart virt)) = p by omega] at hk
    have hknown : ∀ p, InSegment virt memSize p →
        E.setRange (pageOf (segmentStart virt))
          ((segmentEnd virt memSize - segmentStart virt) / pageSize) p = some fun _ => 0 := by
      intro p hp
      unfold Contents.setRange
      rw [if_pos (inSegment_iff.1 hp)]
    obtain ⟨hend, hext', hcur'⟩ := hholds.memcpy hcur
      (fun i hi => by rw [hknown _ (inSegment_of_byte (by omega))]; simp) hrun
    refine ⟨_, ?_, hend, extends_isEffect.trans hext hext', hcur', hsize, by omega, ?_⟩
    · intro p c hc
      have hout : ¬InSegment virt memSize p := fun hp => by
        rw [(hnone p hp).2] at hc
        simp at hc
      have hsame : patchPage virt bytes p c = c := by
        funext off
        unfold patchPage
        rw [if_neg fun hin => hout (inSegment_of_inRange hlen hin)]
      unfold Contents.patch Contents.setRange
      rw [if_neg fun hin => hout (inSegment_iff.2 hin), hc, Option.map_some, hsame]
    · intro p hp
      refine ⟨?_, (hnone p hp).1⟩
      unfold Contents.patch
      rw [hknown p hp]
      rfl

/-! ## All segments -/

/-- The bytes that were read for a segment. -/
def LoadedSegment.bytes (seg : LoadedSegment) : List UInt8 :=
  (seg.data.getD []).take seg.header.filesz

/-- Every `PT_LOAD` segment, mapped and copied. -/
theorem mapSegments_ok {delta : Nat} {policy : LoadPolicy}
    {segs : List LoadedSegment} (h : Holds mem root E m) (hroot : m.current = root)
    (hrun : mapSegments policy delta segs m = (.ok none, m')) :
    ∃ E' : Contents, (∀ p c, E p = some c → E' p = some c) ∧ Holds mem root E' m' ∧
      Extends m m' ∧ m'.current = root ∧ ∀ seg ∈ segs, seg.header.isLoad = true →
        seg.header.filesz ≤ seg.header.memsz ∧
        segmentVirt delta seg.header + seg.header.memsz ≤ uintptrMax - 4095 ∧
        ∀ p, InSegment (segmentVirt delta seg.header) seg.header.memsz p →
          E' p = some (segmentPage (segmentVirt delta seg.header) seg.bytes p) ∧
            m.walk root p = none := by
  -- Induction on the segments: a later one finds its pages free, so it leaves the pages of
  -- the earlier ones as they are.
  induction segs generalizing m E with
  | nil =>
    obtain ⟨_, rfl⟩ := Prod.mk.inj hrun
    exact ⟨E, fun _ _ hc => hc, h, extends_isEffect.refl m, hroot, by simp⟩
  | cons seg rest ih =>
    unfold mapSegments at hrun
    by_cases hload : seg.header.isLoad = true
    · simp only [hload] at hrun
      obtain ⟨r, m₁, hr, hrun⟩ := Prog.bind_eq_ok.1 hrun
      rcases Prog.attempt_eq_ok hr with ⟨_, rfl, hseg⟩ | ⟨e, rfl, _⟩
      · obtain ⟨E₁, hkeep₁, hholds₁, hext₁, hcur₁, hsz, hend, hpages⟩ :=
          mapAndCopySegment_ok h hroot hseg
        obtain ⟨E₂, hkeep₂, hholds₂, hext₂, hcur₂, hrest⟩ := ih hholds₁ hcur₁ hrun
        refine ⟨E₂, fun p c hc => hkeep₂ p c (hkeep₁ p c hc), hholds₂,
          extends_isEffect.trans hext₁ hext₂, hcur₂, ?_⟩
        intro seg' hmem hload'
        rcases List.mem_cons.1 hmem with rfl | hmem
        · refine ⟨hsz, hend, ?_⟩
          intro p hp
          obtain ⟨hE, hw⟩ := hpages p hp
          exact ⟨hkeep₂ p _ hE, hw⟩
        · obtain ⟨hsz', hend', hpages'⟩ := hrest seg' hmem hload'
          refine ⟨hsz', hend', ?_⟩
          intro p hp
          obtain ⟨hE, hw⟩ := hpages' p hp
          refine ⟨hE, ?_⟩
          have hpd := (hholds₂.page p _ hE).1
          rcases hwm : m.walk root p with _ | e
          · rfl
          · rw [hext₁ root p e hpd hwm] at hw
            simp at hw
      · simp at hrun
    · have hskip : mapSegments policy delta rest m = (.ok none, m') := by
        simpa [hload] using hrun
      obtain ⟨E', hkeep, hholds, hext, hcur, hrest⟩ := ih h hroot hskip
      refine ⟨E', hkeep, hholds, hext, hcur, ?_⟩
      intro seg' hmem hload'
      rcases List.mem_cons.1 hmem with rfl | hmem
      · exact absurd hload' hload
      · exact hrest seg' hmem hload'

end UnDOS.Memory
