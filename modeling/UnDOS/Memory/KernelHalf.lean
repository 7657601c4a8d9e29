import UnDOS.Memory.Directory

/-!
# The Kernel Half Is the Same in Every Directory

`Spaces` is the paging state with the list of directories that are alive.  The invariant
`Spaces.Inv` says who owns which frame: each directory its own, each private slot its own
table, and the tables of the kernel half belong to all directories at once.

The registry has 64 places.  A directory that is created when it is full is never told of
new kernel tables.
-/

namespace UnDOS.Memory

open UnDOS.Lib

/-! ## Calls -/

inductive HalCall where
  | createAddressSpace
  | destroyAddressSpace (root : Nat)
  | switchAddressSpace (root : Nat)
  | mapPage (virt phys : Nat) (flags : ProtectFlags)
  | unmapPage (virt : Nat)
deriving DecidableEq

/-- The paging state and the directories that are alive. -/
structure Spaces where
  hal : Paging
  live : List Nat

namespace Spaces

/-- A call that returns. -/
def call (s : Spaces) : HalCall → Option Spaces
  | .createAddressSpace =>
    match UnDOS.Memory.createAddressSpace s.hal with
    | (.ok root, hal) => some ⟨hal, if root = 0 then s.live else root :: s.live⟩
    | _ => none
  | .destroyAddressSpace root =>
    match UnDOS.Memory.destroyAddressSpace root s.hal with
    | (.ok _, hal) => some ⟨hal, s.live.erase root⟩
    | _ => none
  | .switchAddressSpace root =>
    match UnDOS.Memory.switchAddressSpace root s.hal with
    | (.ok _, hal) => some ⟨hal, s.live⟩
    | _ => none
  | .mapPage virt phys flags =>
    match UnDOS.Memory.mapPage virt phys flags s.hal with
    | (.ok _, hal) => some ⟨hal, s.live⟩
    | _ => none
  | .unmapPage virt =>
    match UnDOS.Memory.unmapPage virt s.hal with
    | (.ok _, hal) => some ⟨hal, s.live⟩
    | _ => none

/-- Only directories that are alive are destroyed or made active, and addresses have
32 bits. -/
def Legal (s : Spaces) : HalCall → Prop
  | .createAddressSpace => True
  | .destroyAddressSpace root => root ∈ s.live
  | .switchAddressSpace root => root ∈ s.live
  | .mapPage virt _ _ => virt < 2 ^ 32
  | .unmapPage virt => virt < 2 ^ 32

/-- The registry has room, the active directory stays, and nobody maps into the window
onto the page tables. -/
def Careful (s : Spaces) : HalCall → Prop
  | .createAddressSpace => s.hal.roots.length < maxAddressSpaces
  | .destroyAddressSpace root => root ≠ s.hal.current
  | .switchAddressSpace _ => True
  | .mapPage virt _ _ => pdIndex (pageOf virt) ≠ recursiveSlot
  | .unmapPage virt => pdIndex (pageOf virt) ≠ recursiveSlot

def LegalStep (s : Spaces) (c : HalCall) (s' : Spaces) : Prop := s.Legal c ∧ s.call c = some s'

def CarefulStep (s : Spaces) (c : HalCall) (s' : Spaces) : Prop :=
  s.Careful c ∧ s.LegalStep c s'

/-! ## Who owns which frame -/

/-- A slot whose table is shared by all directories. -/
def KernelSlot (i : Nat) : Prop := kernelSplit ≤ i ∧ i < tempPdSlot

structure Inv (s : Spaces) : Prop where
  active : s.hal.current ∈ s.live
  nodup : s.live.Nodup
  registered : s.hal.roots.Perm s.live
  aligned : ∀ d ∈ s.live, d % pageSize = 0 ∧ d ≠ 0
  self : ∀ d ∈ s.live, ∃ e, s.hal.mem d recursiveSlot = some e ∧ e.frame = d
  directories : ∀ d ∈ s.live, s.hal.used (d / pageSize) = true
  tables : ∀ d ∈ s.live, ∀ i < recursiveSlot, ∀ e, s.hal.mem d i = some e →
    e.frame % pageSize = 0 ∧ s.hal.used (e.frame / pageSize) = true ∧ e.frame ∉ s.live
  apart : ∀ d ∈ s.live, ∀ d' ∈ s.live, ∀ i < recursiveSlot, ∀ i' < recursiveSlot, ∀ e e',
    s.hal.mem d i = some e → s.hal.mem d' i' = some e' → e.frame = e'.frame →
    i = i' ∧ (d = d' ∨ KernelSlot i)
  agree : ∀ d ∈ s.live, ∀ d' ∈ s.live, ∀ i, KernelSlot i → s.hal.mem d i = s.hal.mem d' i

/-- Every frame that a step writes is allocated, before the step or after it. -/
def WritesAllocated (s s' : Spaces) : Prop :=
  ∃ w, s'.hal.written = w ++ s.hal.written ∧
    ∀ g ∈ w, s.hal.used (g / pageSize) = true ∨ s'.hal.used (g / pageSize) = true

theorem page_inj {a b : Nat} (ha : a % pageSize = 0) (hb : b % pageSize = 0)
    (h : a / pageSize = b / pageSize) : a = b := by
  unfold pageSize at *
  omega

theorem page_mul (f : Nat) : f * pageSize % pageSize = 0 ∧ f * pageSize / pageSize = f := by
  unfold pageSize
  omega

namespace Inv

variable {s : Spaces}

theorem selfMapped (h : s.Inv) : s.hal.SelfMapped := h.self _ h.active

theorem fresh (h : s.Inv) {f : Nat} (hf : s.hal.used f = false) :
    f * pageSize ∉ s.live ∧ ∀ d ∈ s.live, ∀ i < recursiveSlot, ∀ e, s.hal.mem d i = some e →
      e.frame ≠ f * pageSize := by
  constructor
  · intro hlive
    have := h.directories _ hlive
    rw [(page_mul f).2, hf] at this
    exact Bool.false_ne_true this
  · intro d hd i hi e he hframe
    have := (h.tables d hd i hi e he).2.1
    rw [hframe, (page_mul f).2, hf] at this
    exact Bool.false_ne_true this

theorem same (h : s.Inv) {t : Paging} (hmem : ∀ d ∈ s.live, ∀ j, t.mem d j = s.hal.mem d j)
    (hused : ∀ k, s.hal.used k = true → t.used k = true) (hroots : t.roots = s.hal.roots)
    (hcurrent : t.current ∈ s.live) : Inv ⟨t, s.live⟩ := by
  refine ⟨hcurrent, h.nodup, ?_, h.aligned, ?_, ?_, ?_, ?_, ?_⟩
  · rw [hroots]
    exact h.registered
  · intro d hd
    rw [hmem d hd]
    exact h.self d hd
  · exact fun d hd => hused _ (h.directories d hd)
  · intro d hd i hi e he
    have he : s.hal.mem d i = some e := (hmem d hd i).symm.trans he
    obtain ⟨halign, hu, hnot⟩ := h.tables d hd i hi e he
    exact ⟨halign, hused _ hu, hnot⟩
  · intro d hd d' hd' i hi i' hi' e e' he he'
    exact h.apart d hd d' hd' i hi i' hi' e e' ((hmem d hd i).symm.trans he)
      ((hmem d' hd' i').symm.trans he')
  · intro d hd d' hd' i hi
    rw [hmem d hd, hmem d' hd']
    exact h.agree d hd d' hd' i hi

/-- A new table in slot `pd` of the active directory, or of all directories when the slot
is in the kernel half. -/
theorem newTable (h : s.Inv) {pd f : Nat} {t : Paging} (hpd : pd < recursiveSlot)
    (hnone : s.hal.mem s.hal.current pd = none) (hfree : s.hal.used f = false)
    (hmem : t.mem = tabledMem s.hal pd (f * pageSize))
    (hused : ∀ k, t.used k = true ↔ s.hal.used k = true ∨ k = f)
    (hroots : t.roots = s.hal.roots) (hcurrent : t.current = s.hal.current) : Inv ⟨t, s.live⟩ := by
  obtain ⟨hnotLive, hnotTable⟩ := h.fresh hfree
  have hne : ∀ d ∈ s.live, d ≠ f * pageSize := fun d hd hin => hnotLive (hin ▸ hd)
  -- An entry is the new one, or it was there before.
  have hcases : ∀ d ∈ s.live, ∀ j e, t.mem d j = some e →
      (j = pd ∧ e.frame = f * pageSize ∧ (d = s.hal.current ∨ KernelSlot pd)) ∨
        s.hal.mem d j = some e := by
    intro d hd j e he
    rw [hmem, tabledMem, if_neg fun hin => hne d hd hin.1] at he
    split at he
    · rename_i hin
      refine .inl ⟨hin.1, ?_, hin.2.imp_right fun hk => ⟨hk.1, hk.2.1⟩⟩
      rw [← Option.some.inj he]
      exact setPageTable_frame (page_mul f).1 true
    · split at he
      · cases he
      · exact .inr he
  have hkept : ∀ d ∈ s.live, ∀ j, j ≠ pd → j ≠ tempPdSlot → t.mem d j = s.hal.mem d j := by
    intro d hd j hj hj'
    rw [hmem, tabledMem, if_neg fun hin => hne d hd hin.1, if_neg fun hin => hj hin.1,
      if_neg fun hin => hj' hin.2.1]
  refine ⟨by rw [hcurrent]; exact h.active, h.nodup, by rw [hroots]; exact h.registered,
    h.aligned, ?_, ?_, ?_, ?_, ?_⟩
  · intro d hd
    rw [hkept d hd _ hpd.ne' (by decide)]
    exact h.self d hd
  · exact fun d hd => (hused _).2 (.inl (h.directories d hd))
  · intro d hd i hi e he
    rcases hcases d hd i e he with ⟨-, hframe, -⟩ | he
    · rw [hframe]
      exact ⟨(page_mul f).1, (hused _).2 (.inr (page_mul f).2), hnotLive⟩
    · obtain ⟨halign, hu, hnot⟩ := h.tables d hd i hi e he
      exact ⟨halign, (hused _).2 (.inl hu), hnot⟩
  · intro d hd d' hd' i hi i' hi' e e' he he' hframe
    rcases hcases d hd i e he with ⟨rfl, hnew, hd₁⟩ | he <;>
      rcases hcases d' hd' i' e' he' with ⟨rfl, hnew', hd₂⟩ | he'
    · refine ⟨rfl, ?_⟩
      rcases hd₁ with rfl | hk
      · rcases hd₂ with rfl | hk
        · exact .inl rfl
        · exact .inr hk
      · exact .inr hk
    · exact absurd (hframe.symm.trans hnew) (hnotTable d' hd' i' hi' e' he')
    · exact absurd (hframe.trans hnew') (hnotTable d hd i hi e he)
    · exact h.apart d hd d' hd' i hi i' hi' e e' he he' hframe
  · intro d hd d' hd' i hi
    have htemp : i ≠ tempPdSlot := ne_of_lt hi.2
    by_cases hnew : i = pd
    · subst hnew
      -- Every directory is registered, so every directory has the new entry.
      have hall : ∀ d ∈ s.live, t.mem d i = some (setPageTable (f * pageSize) true) := by
        intro d hd
        rw [hmem, tabledMem, if_neg fun hin => hne d hd hin.1,
          if_pos ⟨rfl, .inr ⟨hi.1, hi.2, h.registered.mem_iff.2 hd⟩⟩]
      exact (hall d hd).trans (hall d' hd').symm
    · rw [hkept d hd i hnew htemp, hkept d' hd' i hnew htemp]
      exact h.agree d hd d' hd' i hi

theorem dropTable (h : s.Inv) {pd : Nat} {e : Pte} {t : Paging} (hpd : pd < kernelSplit)
    (he : s.hal.mem s.hal.current pd = some e) (hmem : ∀ d ∈ s.live, ∀ j,
      t.mem d j = if d = s.hal.current ∧ j = pd then none else s.hal.mem d j)
    (hused : ∀ k, t.used k = true ↔ s.hal.used k = true ∧ k ≠ e.frame / pageSize)
    (hroots : t.roots = s.hal.roots) (hcurrent : t.current = s.hal.current) : Inv ⟨t, s.live⟩ := by
  have hpd' : pd < recursiveSlot := hpd.trans (by decide)
  obtain ⟨halign, -, hnot⟩ := h.tables _ h.active pd hpd' e he
  have hcases : ∀ d ∈ s.live, ∀ j e', t.mem d j = some e' →
      s.hal.mem d j = some e' ∧ ¬(d = s.hal.current ∧ j = pd) := by
    intro d hd j e' he'
    rw [hmem d hd] at he'
    split at he'
    · cases he'
    · rename_i hin
      exact ⟨he', hin⟩
  have hkept : ∀ d ∈ s.live, ∀ j, j ≠ pd → t.mem d j = s.hal.mem d j := by
    intro d hd j hj
    rw [hmem d hd, if_neg fun hin => hj hin.2]
  refine ⟨by rw [hcurrent]; exact h.active, h.nodup, by rw [hroots]; exact h.registered,
    h.aligned, ?_, ?_, ?_, ?_, ?_⟩
  · intro d hd
    rw [hkept d hd _ hpd'.ne']
    exact h.self d hd
  · intro d hd
    refine (hused _).2 ⟨h.directories d hd, fun hpage => hnot ?_⟩
    rw [← page_inj (h.aligned d hd).1 halign hpage]
    exact hd
  · intro d hd i hi e' he'
    obtain ⟨he', hother⟩ := hcases d hd i e' he'
    obtain ⟨halign', hu, hnot'⟩ := h.tables d hd i hi e' he'
    refine ⟨halign', (hused _).2 ⟨hu, fun hpage => ?_⟩, hnot'⟩
    -- The same frame would be the table of two slots.
    obtain ⟨rfl, hd' | hk⟩ := h.apart d hd _ h.active i hi pd hpd' e' e he' he
      (page_inj halign' halign hpage)
    · exact hother ⟨hd', rfl⟩
    · exact absurd hk.1 (not_le.2 hpd)
  · intro d hd d' hd' i hi i' hi' e₁ e₂ he₁ he₂
    exact h.apart d hd d' hd' i hi i' hi' e₁ e₂ (hcases d hd i e₁ he₁).1
      (hcases d' hd' i' e₂ he₂).1
  · intro d hd d' hd' i hi
    have hne : i ≠ pd := fun hin => absurd hi.1 (not_le.2 (hin ▸ hpd))
    rw [hkept d hd i hne, hkept d' hd' i hne]
    exact h.agree d hd d' hd' i hi

/-- A new directory. -/
theorem create (h : s.Inv) {f : Nat} {t : Paging} (hroom : s.hal.roots.length < maxAddressSpaces)
    (hfree : s.hal.used f = false) (h0 : f * pageSize ≠ 0)
    (hmem : t.mem = filledMem s.hal (f * pageSize))
    (hused : ∀ k, t.used k = true ↔ s.hal.used k = true ∨ k = f)
    (hroots : t.roots = registerRoot s.hal.roots (f * pageSize))
    (hcurrent : t.current = s.hal.current) : Inv ⟨t, f * pageSize :: s.live⟩ := by
  obtain ⟨hnotLive, hnotTable⟩ := h.fresh hfree
  have hne : ∀ d ∈ s.live, d ≠ f * pageSize := fun d hd hin => hnotLive (hin ▸ hd)
  have hold : ∀ d ∈ s.live, ∀ j, t.mem d j =
      if d = s.hal.current ∧ j = tempPdSlot then none else s.hal.mem d j := by
    intro d hd j
    rw [hmem, filledMem, if_neg fun hin => hne d hd hin.1]
  have hkernel : ∀ j, KernelSlot j → t.mem (f * pageSize) j = s.hal.mem s.hal.current j := by
    intro j hj
    have hlt : j < recursiveSlot + 1 := hj.2.trans (by decide)
    rw [hmem, filledMem, if_pos ⟨rfl, hlt⟩, if_neg (not_lt.2 hj.1), if_pos hj.2]
  -- An entry was there before; those of the new directory came from the active one.
  have hcases : ∀ d ∈ f * pageSize :: s.live, ∀ j < recursiveSlot, ∀ e, t.mem d j = some e →
      ∃ d' ∈ s.live, s.hal.mem d' j = some e ∧ (d = d' ∨ KernelSlot j) := by
    intro d hd j hj e he
    rcases List.mem_cons.1 hd with rfl | hd
    · rw [hmem, filledMem, if_pos ⟨rfl, by omega⟩] at he
      split at he
      · cases he
      rename_i hlow
      split at he
      · rename_i hhigh
        exact ⟨_, h.active, he, .inr ⟨not_lt.1 hlow, hhigh⟩⟩
      · rename_i hhigh
        rw [if_pos (by unfold recursiveSlot tempPdSlot at *; omega)] at he
        cases he
    · rw [hold d hd] at he
      split at he
      · cases he
      · exact ⟨d, hd, he, .inl rfl⟩
  refine ⟨?_, List.nodup_cons.2 ⟨hnotLive, h.nodup⟩, ?_, ?_, ?_, ?_, ?_, ?_, ?_⟩
  · rw [hcurrent]
    exact .tail _ h.active
  · rw [hroots, registerRoot, if_pos hroom]
    exact (List.perm_append_singleton _ _).trans (h.registered.cons _)
  · intro d hd
    rcases List.mem_cons.1 hd with rfl | hd
    · exact ⟨(page_mul f).1, h0⟩
    · exact h.aligned d hd
  · intro d hd
    rcases List.mem_cons.1 hd with rfl | hd
    · exact ⟨_, by rw [hmem]; simp [filledMem, recursiveSlot, kernelSplit, tempPdSlot],
        setPageTable_frame (page_mul f).1 false⟩
    · rw [hold d hd, if_neg fun hin => nomatch hin.2]
      exact h.self d hd
  · intro d hd
    rcases List.mem_cons.1 hd with rfl | hd
    · exact (hused _).2 (.inr (page_mul f).2)
    · exact (hused _).2 (.inl (h.directories d hd))
  · intro d hd i hi e he
    obtain ⟨d', hd', he', -⟩ := hcases d hd i hi e he
    obtain ⟨halign, hu, hnot⟩ := h.tables d' hd' i hi e he'
    refine ⟨halign, (hused _).2 (.inl hu), ?_⟩
    exact List.not_mem_cons_of_ne_of_not_mem (hnotTable d' hd' i hi e he') hnot
  · intro d₁ hd₁ d₂ hd₂ i hi i' hi' e e' he he' hframe
    obtain ⟨d₁', hd₁', he, hfrom⟩ := hcases d₁ hd₁ i hi e he
    obtain ⟨d₂', hd₂', he', hfrom'⟩ := hcases d₂ hd₂ i' hi' e' he'
    obtain ⟨rfl, hsame | hk⟩ := h.apart d₁' hd₁' d₂' hd₂' i hi i' hi' e e' he he' hframe
    · refine ⟨rfl, ?_⟩
      rcases hfrom with rfl | hk
      · rcases hfrom' with rfl | hk
        · exact .inl hsame
        · exact .inr hk
      · exact .inr hk
    · exact ⟨rfl, .inr hk⟩
  · -- Every entry of the kernel half is the active directory's.
    have hall : ∀ d ∈ f * pageSize :: s.live, ∀ i, KernelSlot i →
        t.mem d i = s.hal.mem s.hal.current i := by
      intro d hd i hi
      rcases List.mem_cons.1 hd with rfl | hd
      · exact hkernel i hi
      · rw [hold d hd, if_neg fun hin => hi.2.ne hin.2]
        exact h.agree d hd _ h.active i hi
    intro d hd d' hd' i hi
    exact (hall d hd i hi).trans (hall d' hd' i hi).symm

theorem destroy (h : s.Inv) {root : Nat} {t : Paging} (hroot : root ∈ s.live)
    (hne : root ≠ s.hal.current) (hmem : ∀ g j, t.mem g j = if g = root ∧ j < kernelSplit then none
      else if g = s.hal.current ∧ j = tempPdSlot then none else s.hal.mem g j)
    (hused : ∀ k, t.used k = true ↔ s.hal.used k = true ∧
      ¬tablesBelow s.hal root kernelSplit k ∧ k ≠ root / pageSize)
    (hroots : t.roots.Perm (s.hal.roots.erase root)) (hcurrent : t.current = s.hal.current) :
    Inv ⟨t, s.live.erase root⟩ := by
  have hleft : ∀ d ∈ s.live.erase root, d ∈ s.live ∧ d ≠ root := by
    intro d hd
    exact ⟨List.mem_of_mem_erase hd, fun hin => h.nodup.not_mem_erase (hin ▸ hd)⟩
  have hold : ∀ d ∈ s.live.erase root, ∀ j, t.mem d j =
      if d = s.hal.current ∧ j = tempPdSlot then none else s.hal.mem d j := by
    intro d hd j
    rw [hmem, if_neg fun hin => (hleft d hd).2 hin.1]
  have hcases : ∀ d ∈ s.live.erase root, ∀ j e, t.mem d j = some e →
      s.hal.mem d j = some e := by
    intro d hd j e he
    rw [hold d hd] at he
    split at he
    · cases he
    · exact he
  refine ⟨?_, h.nodup.erase root, ?_, fun d hd => h.aligned d (hleft d hd).1, ?_, ?_, ?_, ?_, ?_⟩
  · rw [hcurrent]
    exact (List.mem_erase_of_ne fun hin => hne hin.symm).2 h.active
  · exact hroots.trans (h.registered.erase root)
  · intro d hd
    rw [hold d hd, if_neg fun hin => nomatch hin.2]
    exact h.self d (hleft d hd).1
  · intro d hd
    obtain ⟨hlive, hother⟩ := hleft d hd
    refine (hused _).2 ⟨h.directories d hlive, ?_, ?_⟩
    · rintro ⟨i, e, hi, he, hpage⟩
      obtain ⟨halign, -, hnot⟩ := h.tables root hroot i (hi.trans (by decide)) e he
      exact hnot (page_inj (h.aligned d hlive).1 halign hpage ▸ hlive)
    · exact fun hpage => hother (page_inj (h.aligned d hlive).1 (h.aligned root hroot).1 hpage)
  · intro d hd i hi e he
    obtain ⟨hlive, hother⟩ := hleft d hd
    have he := hcases d hd i e he
    obtain ⟨halign, hu, hnot⟩ := h.tables d hlive i hi e he
    refine ⟨halign, (hused _).2 ⟨hu, ?_, ?_⟩, fun hin => hnot (List.mem_of_mem_erase hin)⟩
    · -- A private table of the directory that goes is nobody else's.
      rintro ⟨i', e', hi', he', hpage⟩
      have hi'' : i' < recursiveSlot := hi'.trans (by decide)
      obtain ⟨halign', -, -⟩ := h.tables root hroot i' hi'' e' he'
      obtain ⟨rfl, hsame | hk⟩ := h.apart d hlive root hroot i hi i' hi'' e e' he he'
        (page_inj halign halign' hpage)
      · exact hother hsame
      · exact absurd hk.1 (not_le.2 hi')
    · intro hpage
      exact hnot (page_inj halign (h.aligned root hroot).1 hpage ▸ hroot)
  · intro d hd d' hd' i hi i' hi' e e' he he'
    exact h.apart d (hleft d hd).1 d' (hleft d' hd').1 i hi i' hi' e e' (hcases d hd i e he)
      (hcases d' hd' i' e' he')
  · intro d hd d' hd' i hi
    have htemp : i ≠ tempPdSlot := ne_of_lt hi.2
    rw [hold d hd, hold d' hd', if_neg fun hin => htemp hin.2, if_neg fun hin => htemp hin.2]
    exact h.agree d (hleft d hd).1 d' (hleft d' hd').1 i hi

end Inv

theorem unregisterRoot_perm (root : Nat) (roots : List Nat) :
    (unregisterRoot root roots).Perm (roots.erase root) := by
  induction roots with
  | nil => exact .nil
  | cons r rest ih =>
    unfold unregisterRoot
    by_cases hr : r = root
    · rw [if_pos hr, hr, List.erase_cons_head]
      rcases hlast : rest.getLast? with _ | last
      · rw [List.getLast?_eq_none_iff.1 hlast]
      · have hrest : rest = rest.dropLast ++ [last] :=
          (List.dropLast_append_getLast? last hlast).symm
        conv_rhs => rw [hrest]
        exact (List.perm_append_singleton _ _).symm
    · rw [if_neg hr, List.erase_cons_tail (by simpa using hr)]
      exact ih.cons r

/-! ## Each call -/

section Calls

variable {s : Spaces}

/-- What a call does to a state with the invariant. -/
def Kept (s : Spaces) (c : HalCall) : Prop :=
  ∃ s', s.call c = some s' ∧ s'.Inv ∧ s.WritesAllocated s'

theorem Inv.call_create (h : s.Inv) (hroom : s.hal.roots.length < maxAddressSpaces) :
    s.Kept .createAddressSpace := by
  unfold Kept Spaces.call
  rcases hf : pickFrames s.hal.used s.hal.maxFrames 1 with _ | f
  · have hfail : createAddressSpace s.hal = (.ok 0, s.hal) := by
      unfold createAddressSpace
      rw [Prog.bind_ok (allocateFrame_none hf), if_pos rfl, Prog.pure_apply]
    rw [hfail]
    exact ⟨s, rfl, h, [], rfl, by simp⟩
  have hfree : s.hal.used f = false := pickFrames_free hf f (le_refl f) (by omega)
  by_cases h0 : f * pageSize = 0
  · have hfail : createAddressSpace s.hal =
        (.ok 0, { s.hal with used := fun k => s.hal.used k || decide (k = f) }) := by
      unfold createAddressSpace
      rw [Prog.bind_ok (allocateFrame_some hf), if_pos h0, Prog.pure_apply]
    rw [hfail]
    exact ⟨_, rfl, h.same (fun _ _ _ => rfl) (fun k hk => by simp [hk]) rfl h.active,
      [], rfl, by simp⟩
  · have hne : f * pageSize ≠ s.hal.current := fun hin => (h.fresh hfree).1 (hin ▸ h.active)
    obtain ⟨t, ht, hmem, hused, -, hcurrent, hroots, w, hw, hall⟩ :=
      createAddressSpace_ok h.selfMapped hf h0 hne
    have hused' : ∀ k, t.used k = true ↔ s.hal.used k = true ∨ k = f := by
      rw [hused]
      simp
    rw [ht]
    refine ⟨_, by dsimp only; rw [if_neg h0],
      h.create hroom hfree h0 hmem hused' hroots hcurrent, w, hw, ?_⟩
    intro g hg
    rcases hall g hg with rfl | rfl
    · exact .inr ((hused' _).2 (.inr (page_mul f).2))
    · exact .inl (h.directories _ h.active)

theorem Inv.call_destroy (h : s.Inv) {root : Nat} (hroot : root ∈ s.live)
    (hne : root ≠ s.hal.current) : s.Kept (.destroyAddressSpace root) := by
  obtain ⟨halign, h0⟩ := h.aligned root hroot
  obtain ⟨t, ht, hmem, hused, -, hcurrent, hroots, w, hw, hall⟩ :=
    destroyAddressSpace_ok h.selfMapped halign h0 hne
  unfold Kept Spaces.call
  dsimp only
  rw [ht]
  refine ⟨_, rfl, h.destroy hroot hne hmem hused ?_ hcurrent, w, hw, ?_⟩
  · rw [hroots]
    exact unregisterRoot_perm root _
  · intro g hg
    rcases hall g hg with rfl | rfl
    · exact .inl (h.directories _ hroot)
    · exact .inl (h.directories _ h.active)

theorem Inv.destroyStep (h : s.Inv) {root : Nat} (hroot : root ∈ s.live)
    (hne : root ≠ s.hal.current) :
    ∃ t, s.CarefulStep (.destroyAddressSpace root) ⟨t, s.live.erase root⟩ ∧
      ∀ g j, t.mem g j = if g = root ∧ j < kernelSplit then none
        else if g = s.hal.current ∧ j = tempPdSlot then none else s.hal.mem g j := by
  obtain ⟨halign, h0⟩ := h.aligned root hroot
  obtain ⟨t, ht, hmem, -⟩ := destroyAddressSpace_ok h.selfMapped halign h0 hne
  refine ⟨t, ⟨hne, hroot, ?_⟩, hmem⟩
  unfold Spaces.call
  dsimp only
  rw [ht]

theorem Inv.call_switch (h : s.Inv) {root : Nat} (hroot : root ∈ s.live) :
    s.Kept (.switchAddressSpace root) :=
  ⟨_, rfl, h.same (fun _ _ _ => rfl) (fun _ hk => hk) rfl hroot, [], rfl, by simp⟩

theorem Inv.storeTable (h : s.Inv) {g : Nat} (hg : g ∉ s.live) (i : Nat) (e : Option Pte) :
    Inv ⟨s.hal.store g i e, s.live⟩ := by
  refine h.same ?_ (fun _ hk => hk) rfl h.active
  intro d hd j
  apply if_neg
  rintro ⟨rfl, -⟩
  exact hg hd

theorem Inv.window (h : s.Inv) {pd : Nat} {e : Pte}
    (he : s.hal.mem s.hal.current pd = some e) : s.hal.window pd = some e.frame := by
  rw [h.selfMapped.window, he, Option.map_some]

theorem Inv.placeEntry (h : s.Inv) {pd : Nat} {e : Pte} (hpd : pd < recursiveSlot)
    (he : s.hal.mem s.hal.current pd = some e) (pt : Nat) (new : Pte) :
    ∃ b t, placeEntry pd pt new s.hal = (.ok b, t) ∧ Inv ⟨t, s.live⟩ ∧ t.used = s.hal.used ∧
      ∃ w, t.written = w ++ s.hal.written ∧ ∀ g ∈ w, g = e.frame := by
  unfold UnDOS.Memory.placeEntry
  rw [Prog.bind_ok (readEntry_ok (h.window he) pt)]
  rcases s.hal.mem e.frame pt with _ | old
  · dsimp only
    rw [Prog.bind_ok (writeEntry_ok (h.window he) _ _)]
    exact ⟨true, _, rfl, h.storeTable (h.tables _ h.active pd hpd e he).2.2 _ _, rfl,
      [e.frame], rfl, by simp⟩
  · exact ⟨false, s.hal, rfl, h, rfl, [], rfl, by simp⟩

theorem pdIndex_lt {virt : Nat} (h : virt < 2 ^ 32) (hne : pdIndex (pageOf virt) ≠ recursiveSlot) :
    pdIndex (pageOf virt) < recursiveSlot := by
  unfold pdIndex pageOf pageSize recursiveSlot at *
  omega

/-- A new table above the split goes to every live directory, one below it to the current one. -/
theorem Inv.call_map (h : s.Inv) {virt : Nat} (phys : Nat) (flags : ProtectFlags)
    (hvirt : virt < 2 ^ 32) (hcareful : pdIndex (pageOf virt) ≠ recursiveSlot) :
    s.Kept (.mapPage virt phys flags) := by
  have hpd := pdIndex_lt hvirt hcareful
  have halign : ∀ r ∈ s.hal.roots, r % pageSize = 0 :=
    fun r hr => (h.aligned r (h.registered.mem_iff.1 hr)).1
  have hfresh : ∀ f, s.hal.used f = false →
      f * pageSize ≠ s.hal.current ∧ f * pageSize ∉ s.hal.roots := by
    intro f hf
    exact ⟨fun hin => (h.fresh hf).1 (hin ▸ h.active),
      fun hin => (h.fresh hf).1 (h.registered.mem_iff.1 hin)⟩
  unfold Kept Spaces.call UnDOS.Memory.mapPage
  dsimp only
  rcases requireTable_cases h.selfMapped halign hpd hfresh with
    ⟨e, he, hok⟩ | ⟨used', hfail, hmono⟩ | ⟨f, t, hnone, hfree, hok, hmem, hedit⟩
  · -- The table is there.
    rw [Prog.bind_ok hok]
    obtain ⟨b, t, ht, hinv, hused, w, hw, hall⟩ :=
      h.placeEntry hpd he (pageOf virt % 1024) (Pte.setFrame phys flags)
    refine ⟨⟨t, s.live⟩, by rw [if_neg (by simp), ht], hinv, w, hw, ?_⟩
    intro g hg
    rw [hall g hg]
    exact .inl (h.tables _ h.active _ hpd e he).2.1
  · -- There is no frame for it.
    rw [Prog.bind_ok hfail]
    exact ⟨_, rfl, h.same (fun _ _ _ => rfl) hmono rfl h.active, [], rfl, by simp⟩
  · -- It is new.
    have hused : ∀ k, t.used k = true ↔ s.hal.used k = true ∨ k = f := by
      rw [hedit.used]
      simp
    have hinv : Inv ⟨t, s.live⟩ :=
      h.newTable hpd hnone hfree hmem hused hedit.roots hedit.current
    have he : t.mem t.current (pdIndex (pageOf virt)) =
        some (setPageTable (f * pageSize) true) := by
      rw [hmem, hedit.current, tabledMem,
        if_neg fun hin => (hfresh f hfree).1 hin.1.symm, if_pos ⟨rfl, .inl rfl⟩]
    rw [Prog.bind_ok hok]
    obtain ⟨b, t', ht', hinv', hused', w, hw, hall⟩ :=
      hinv.placeEntry hpd he (pageOf virt % 1024) (Pte.setFrame phys flags)
    obtain ⟨w₁, hw₁, hall₁⟩ := hedit.log
    refine ⟨⟨t', s.live⟩, by rw [if_neg (by simp), ht'], hinv', w ++ w₁, ?_, ?_⟩
    · rw [hw, hw₁, List.append_assoc]
    · have hnew : t'.used (f * pageSize / pageSize) = true := by
        rw [hused', (page_mul f).2]
        exact (hused f).2 (.inr rfl)
      intro g hg
      rcases List.mem_append.1 hg with hg | hg
      · rw [hall g hg, setPageTable_frame (page_mul f).1]
        exact .inr hnew
      · rcases hall₁ g hg with rfl | rfl | hin
        · exact .inr hnew
        · exact .inl (h.directories _ h.active)
        · exact .inl (h.directories g (h.registered.mem_iff.1 hin))

/-- The first page under a slot of the kernel half. -/
theorem Inv.mapPage_kernel (h : s.Inv) {virt pd pt f : Nat} (hvirt : pageOf virt = pd * 1024 + pt)
    (hpt : pt < 1024) (hkernel : KernelSlot pd) (hnone : s.hal.mem s.hal.current pd = none)
    (hpick : pickFrames s.hal.used s.hal.maxFrames 1 = some f) (h0 : f ≠ 0)
    (phys : Nat) (flags : ProtectFlags) :
    ∃ s', s.CarefulStep (.mapPage virt phys flags) s' ∧ s'.Inv ∧ s'.live = s.live ∧
      s'.hal.used = (fun k => s.hal.used k || decide (k = f)) ∧
      s'.hal.maxFrames = s.hal.maxFrames ∧ s'.hal.current = s.hal.current ∧
      s'.hal.mem s.hal.current pd = some (setPageTable (f * pageSize) true) ∧
      s'.hal.mem (f * pageSize) pt = some (Pte.setFrame phys flags) ∧
      ∀ g j, g ≠ f * pageSize → j ≠ pd → j ≠ tempPdSlot → s'.hal.mem g j = s.hal.mem g j := by
  have hslot : pdIndex (pageOf virt) = pd := by
    unfold pdIndex
    omega
  have hoffset : pageOf virt % 1024 = pt := by omega
  have hpd : pd < recursiveSlot := Nat.lt_succ_of_lt hkernel.2
  have hfree : s.hal.used f = false := pickFrames_free hpick f (le_refl f) (by omega)
  have hnot := (h.fresh hfree).1
  have hcur : f * pageSize ≠ s.hal.current := fun hin => hnot (hin ▸ h.active)
  obtain ⟨t, ht, hmem, hused, hmax, hcurrent⟩ := mapPage_new h.selfMapped
    (fun r hr => (h.aligned r (h.registered.mem_iff.1 hr)).1) (by rwa [hslot]) (by rwa [hslot])
    hpick (Nat.mul_ne_zero h0 (by decide)) hcur (fun hin => hnot (h.registered.mem_iff.1 hin))
    phys flags
  rw [hslot, hoffset] at hmem
  have hcall : s.call (.mapPage virt phys flags) = some ⟨t, s.live⟩ := by
    unfold Spaces.call
    dsimp only
    rw [ht]
  have hlegal : virt < 2 ^ 32 := by
    unfold pageOf pageSize KernelSlot tempPdSlot at *
    omega
  have hcareful : pdIndex (pageOf virt) ≠ recursiveSlot := by
    rw [hslot]
    exact hpd.ne
  obtain ⟨s', hcall', hinv, -⟩ := h.call_map phys flags hlegal hcareful
  rw [hcall] at hcall'
  cases hcall'
  refine ⟨_, ⟨hcareful, hlegal, hcall⟩, hinv, rfl, hused, hmax, hcurrent, ?_, ?_, ?_⟩
  · rw [hmem, if_neg fun hin => hcur hin.1.symm, tabledMem, if_neg fun hin => hcur hin.1.symm]
    exact if_pos ⟨rfl, .inl rfl⟩
  · rw [hmem, if_pos ⟨rfl, rfl⟩]
  · intro g j hg hj hj'
    rw [hmem, if_neg fun hin => hg hin.1, tabledMem, if_neg fun hin => hg hin.1,
      if_neg fun hin => hj hin.1, if_neg fun hin => hj' hin.2.1]

/-- A table that becomes empty is dropped below the split only. -/
theorem Inv.call_unmap (h : s.Inv) {virt : Nat} (hvirt : virt < 2 ^ 32)
    (hcareful : pdIndex (pageOf virt) ≠ recursiveSlot) : s.Kept (.unmapPage virt) := by
  have hpd := pdIndex_lt hvirt hcareful
  unfold Kept Spaces.call UnDOS.Memory.unmapPage
  dsimp only
  rw [Prog.bind_ok (readEntry_ok h.selfMapped.directory _)]
  rcases he : s.hal.mem s.hal.current (pdIndex (pageOf virt)) with _ | e
  · exact ⟨s, rfl, h, [], rfl, by simp⟩
  generalize pdIndex (pageOf virt) = pd at *
  obtain ⟨-, hu, hnot⟩ := h.tables _ h.active pd hpd e he
  dsimp only
  rw [Prog.bind_ok (writeEntry_ok (h.window he) _ _)]
  have hinv := h.storeTable hnot (pageOf virt % 1024) none
  -- The directory itself is as it was.
  have he' : (s.hal.store e.frame (pageOf virt % 1024) none).mem s.hal.current pd = some e := by
    rw [← he]
    refine if_neg fun hin => hnot ?_
    rw [← hin.1]
    exact h.active
  have hwin := hinv.window he'
  generalize ht : s.hal.store e.frame (pageOf virt % 1024) none = t at *
  have hcurrent : t.current = s.hal.current := by rw [← ht, Paging.store_current]
  have hlog : t.written = [e.frame] ++ s.hal.written := by rw [← ht]; rfl
  unfold reclaimIfEmpty
  have hempty : tableIsEmpty pd t =
      (.ok ((List.range 1024).all fun i => (t.mem e.frame i).isNone), t) := by
    unfold tableIsEmpty
    rw [hwin]
  rw [Prog.bind_ok hempty]
  by_cases hreclaim : ((List.range 1024).all fun i => (t.mem e.frame i).isNone) = true ∧
      pd < kernelSplit
  · rw [if_pos hreclaim, Prog.bind_ok (readEntry_ok hinv.selfMapped.directory pd),
      Prog.bind_ok (writeEntry_ok hinv.selfMapped.directory pd none)]
    rw [hcurrent, he']
    refine ⟨_, rfl, ?_, [s.hal.current, e.frame], ?_, ?_⟩
    · refine hinv.dropTable hreclaim.2 (by rw [hcurrent]; exact he') ?_ ?_ rfl rfl
      · intro d _ j
        show (if d = s.hal.current ∧ j = pd then none else t.mem d j) = _
        rw [hcurrent]
      · intro k
        simp
    · show s.hal.current :: t.written = _
      rw [hlog]
      rfl
    · intro g hg
      simp only [List.mem_cons, List.not_mem_nil, or_false] at hg
      rcases hg with rfl | rfl
      · exact .inl (h.directories _ h.active)
      · exact .inl hu
  · rw [if_neg hreclaim]
    refine ⟨_, rfl, hinv, [e.frame], hlog, ?_⟩
    intro g hg
    rw [List.mem_singleton.1 hg]
    exact .inl hu

theorem Inv.call (h : s.Inv) {c : HalCall} (hlegal : s.Legal c) (hcareful : s.Careful c) :
    s.Kept c := by
  cases c with
  | createAddressSpace => exact h.call_create hcareful
  | destroyAddressSpace root => exact h.call_destroy hlegal hcareful
  | switchAddressSpace root => exact h.call_switch hlegal
  | mapPage virt phys flags => exact h.call_map phys flags hlegal hcareful
  | unmapPage virt => exact h.call_unmap hlegal hcareful

end Calls

/-! ## Every run -/

/-- The state that `init_vmm` leaves: one directory, which maps itself in its last entry
and has a table of its own in each slot that is present. -/
structure Boot (s : Spaces) : Prop where
  live : s.live = [s.hal.current]
  roots : s.hal.roots = [s.hal.current]
  aligned : s.hal.current % pageSize = 0 ∧ s.hal.current ≠ 0
  self : s.hal.SelfMapped
  directory : s.hal.used (s.hal.current / pageSize) = true
  tables : ∀ i < recursiveSlot, ∀ e, s.hal.mem s.hal.current i = some e →
    e.frame % pageSize = 0 ∧ s.hal.used (e.frame / pageSize) = true ∧ e.frame ≠ s.hal.current
  apart : ∀ i < recursiveSlot, ∀ i' < recursiveSlot, ∀ e e', s.hal.mem s.hal.current i = some e →
    s.hal.mem s.hal.current i' = some e' → e.frame = e'.frame → i = i'

theorem Boot.inv {s : Spaces} (h : s.Boot) : s.Inv := by
  have honly : ∀ d ∈ s.live, d = s.hal.current := by
    intro d hd
    rw [h.live] at hd
    exact List.mem_singleton.1 hd
  refine ⟨by rw [h.live]; exact .head _,
    by rw [h.live]; simp, by rw [h.live, h.roots], ?_, ?_, ?_, ?_, ?_, ?_⟩
  · intro d hd
    rw [honly d hd]
    exact h.aligned
  · intro d hd
    rw [honly d hd]
    exact h.self
  · intro d hd
    rw [honly d hd]
    exact h.directory
  · intro d hd i hi e he
    rw [honly d hd] at he
    obtain ⟨halign, hu, hne⟩ := h.tables i hi e he
    exact ⟨halign, hu, fun hin => hne (honly _ hin)⟩
  · intro d hd d' hd' i hi i' hi' e e' he he' hframe
    rw [honly d hd] at he ⊢
    rw [honly d' hd'] at he' ⊢
    exact ⟨h.apart i hi i' hi' e e' he he' hframe, .inl rfl⟩
  · intro d hd d' hd' i _
    rw [honly d hd, honly d' hd']

/-- All live directories have the same entries 768 to 1021, and so translate the pages of
the kernel half alike. -/
def SameKernelHalf (s : Spaces) : Prop :=
  ∀ d ∈ s.live, ∀ d' ∈ s.live,
    (∀ i, 768 ≤ i → i ≤ 1021 → s.hal.mem d i = s.hal.mem d' i) ∧
    ∀ page, 768 ≤ pdIndex page → pdIndex page ≤ 1021 →
      s.hal.translate d page = s.hal.translate d' page

/-- The frame of a destroyed directory is not written for as long as it is not handed out
again. -/
def DestroyedUnwritten (start : Spaces) (run : List (HalCall × Spaces)) : Prop :=
  ∀ later root s₁ past, run = later ++ (.destroyAddressSpace root, s₁) :: past →
    (∀ x ∈ later, x.2.hal.used (root / pageSize) = false) →
    ∃ w, (lastState start run).hal.written = w ++ s₁.hal.written ∧ root ∉ w

theorem Inv.sameKernelHalf {s : Spaces} (h : s.Inv) : s.SameKernelHalf := by
  intro d hd d' hd'
  have hsame : ∀ i, 768 ≤ i → i ≤ 1021 → s.hal.mem d i = s.hal.mem d' i :=
    fun i hlo hhi => h.agree d hd d' hd' i ⟨hlo, Nat.lt_succ_of_le hhi⟩
  refine ⟨hsame, ?_⟩
  intro page hlo hhi
  unfold Paging.translate
  rw [hsame _ hlo hhi]

theorem inv_run {start : Spaces} (hstart : start.Inv) {run : List (HalCall × Spaces)}
    (hrun : Run CarefulStep start run) : (lastState start run).Inv := by
  apply hrun.invariant (I := Inv) hstart
  rintro s c s' hinv ⟨hcareful, hlegal, hcall⟩
  obtain ⟨s'', hcall', hinv', -⟩ := hinv.call hlegal hcareful
  rw [hcall] at hcall'
  rw [Option.some.inj hcall']
  exact hinv'

theorem Inv.destroyed_free {s s' : Spaces} {root : Nat} (h : s.Inv)
    (hstep : s.CarefulStep (.destroyAddressSpace root) s') :
    s'.hal.used (root / pageSize) = false := by
  obtain ⟨hne, hroot, hcall⟩ := hstep
  obtain ⟨halign, h0⟩ := h.aligned root hroot
  obtain ⟨t, ht, -, hused, -⟩ := destroyAddressSpace_ok h.selfMapped halign h0 hne
  simp only [Spaces.call, ht, Option.some.injEq] at hcall
  rw [← hcall]
  by_contra hu
  exact ((hused _).1 (by simpa using hu)).2.2 rfl

theorem destroyedUnwritten_run {start : Spaces} (hstart : start.Inv)
    {run : List (HalCall × Spaces)} (hrun : Run CarefulStep start run) :
    DestroyedUnwritten start run := by
  intro later root s₁ past hsplit hfree
  -- By induction on the calls since then; the frame is free before and after each.
  suffices hall : ∃ w, (lastState start run).hal.written = w ++ s₁.hal.written ∧ root ∉ w ∧
      (lastState start run).hal.used (root / pageSize) = false from
    let ⟨w, hw, hnot, _⟩ := hall
    ⟨w, hw, hnot⟩
  induction later generalizing run with
  | nil =>
    subst hsplit
    cases hrun with
    | cons hpast hlast =>
      exact ⟨[], rfl, by simp, (inv_run hstart hpast).destroyed_free hlast⟩
  | cons x later ih =>
    subst hsplit
    obtain ⟨c, s'⟩ := x
    cases hrun with
    | cons hpast hlast =>
      obtain ⟨w, hw, hnot, hbefore⟩ := ih hpast rfl fun y hy => hfree y (.tail _ hy)
      obtain ⟨hcareful, hlegal, hcall⟩ := hlast
      obtain ⟨s'', hcall', -, w', hw', hall⟩ := (inv_run hstart hpast).call hlegal hcareful
      rw [hcall] at hcall'
      cases hcall'
      have hafter := hfree (c, s') (.head _)
      refine ⟨w' ++ w, by rw [List.append_assoc, ← hw]; exact hw', ?_, hafter⟩
      intro hin
      rcases List.mem_append.1 hin with hin | hin
      · rcases hall root hin with hu | hu
        · exact Bool.false_ne_true (hbefore.symm.trans hu)
        · exact Bool.false_ne_true (hafter.symm.trans hu)
      · exact hnot hin

end Spaces

/-- A directory at 16 MiB that maps nothing but itself, and the frames above it free. -/
def bootSpaces : Spaces where
  hal :=
    { mem := fun g j => if g = 0x1000000 ∧ j = recursiveSlot then
        some (setPageTable 0x1000000 false) else none
      used := fun k => decide (k < 4097)
      maxFrames := 8192
      current := 0x1000000
      roots := [0x1000000]
      written := [] }
  live := [0x1000000]

def sampleFlags : ProtectFlags := ⟨true, true, false, false, false⟩

theorem bootSpaces_boot : bootSpaces.Boot := by
  refine ⟨rfl, rfl, by decide, ⟨_, rfl, rfl⟩, by decide, ?_, ?_⟩
  · intro i hi e he
    simp [bootSpaces, ne_of_lt hi] at he
  · intro i hi i' _ e e' he
    simp [bootSpaces, ne_of_lt hi] at he

/-- After `n` directories have been created from `bootSpaces`. -/
structure Crowded (n : Nat) (s : Spaces) : Prop where
  inv : s.Inv
  used : s.hal.used = fun k => decide (k < 4097 + n)
  maxFrames : s.hal.maxFrames = 8192
  current : s.hal.current = 0x1000000
  roots : s.hal.roots.length = n + 1
  unmapped : ∀ i, kernelSplit ≤ i → i < tempPdSlot → s.hal.mem 0x1000000 i = none

namespace Crowded

variable {n : Nat} {s : Spaces}

theorem pick (h : Crowded n s) (hn : n ≤ 64) :
    pickFrames s.hal.used s.hal.maxFrames 1 = some (4097 + n) := by
  rw [h.used, h.maxFrames]
  exact pickFrames_first (by unfold dmaFrames pageSize; omega) (by omega)

theorem free (h : Crowded n s) : s.hal.used (4097 + n) = false := by
  rw [h.used]
  simp

theorem used_succ (n : Nat) :
    (fun k => decide (k < n) || decide (k = n)) = fun k => decide (k < n + 1) := by
  funext k
  simp only [← Bool.decide_or, Nat.lt_succ_iff_lt_or_eq]

theorem create (h : Crowded n s) (hn : n ≤ 64) : ∃ t,
    s.call .createAddressSpace = some ⟨t, (4097 + n) * pageSize :: s.live⟩ ∧
      t.mem = filledMem s.hal ((4097 + n) * pageSize) ∧
      t.used = (fun k => decide (k < 4097 + (n + 1))) ∧ t.maxFrames = 8192 ∧
      t.current = 0x1000000 ∧ t.roots = registerRoot s.hal.roots ((4097 + n) * pageSize) := by
  have h0 : (4097 + n) * pageSize ≠ 0 := by
    unfold pageSize
    omega
  have hne : (4097 + n) * pageSize ≠ s.hal.current := by
    rw [h.current]
    unfold pageSize
    omega
  obtain ⟨t, ht, hmem, hused, hmax, hcurrent, hroots, -⟩ :=
    createAddressSpace_ok h.inv.selfMapped (h.pick hn) h0 hne
  refine ⟨t, ?_, hmem, ?_, hmax.trans h.maxFrames, hcurrent.trans h.current, hroots⟩
  · unfold Spaces.call
    rw [ht]
    dsimp only
    rw [if_neg h0]
  · rw [hused, h.used, used_succ, Nat.add_assoc]

theorem next (h : Crowded n s) (hn : n + 1 < 64) :
    ∃ s', s.CarefulStep .createAddressSpace s' ∧ Crowded (n + 1) s' ∧
      s'.live = (4097 + n) * pageSize :: s.live := by
  obtain ⟨t, hcall, hmem, hused, hmax, hcurrent, hroots⟩ := h.create (by omega)
  have hroom : s.hal.roots.length < maxAddressSpaces := by
    rw [h.roots]
    exact hn
  refine ⟨_, ⟨hroom, trivial, hcall⟩, ⟨?_, hused, hmax, hcurrent, ?_, ?_⟩, rfl⟩
  · refine h.inv.create hroom h.free (by unfold pageSize; omega) hmem ?_ hroots
      (hcurrent.trans h.current.symm)
    rw [hused, h.used]
    simp only [decide_eq_true_eq]
    omega
  · rw [hroots, registerRoot, if_pos hroom, List.length_append, h.roots]
    rfl
  · intro i hlo hhi
    rw [hmem, filledMem, if_neg (by unfold pageSize; omega), if_neg fun hin => hhi.ne hin.2]
    exact h.unmapped i hlo hhi

theorem start : Crowded 0 bootSpaces :=
  ⟨bootSpaces_boot.inv, rfl, rfl, rfl, rfl, fun _ _ hhi =>
    if_neg fun hin => absurd (hin.2 ▸ hhi) (by decide)⟩

theorem reached (hn : n < 64) : ∃ run, Run Spaces.LegalStep bootSpaces run ∧
    Crowded n (lastState bootSpaces run) := by
  induction n with
  | zero => exact ⟨[], .nil, start⟩
  | succ n ih =>
    obtain ⟨run, hrun, hcrowded⟩ := ih (by omega)
    obtain ⟨s', ⟨-, hstep⟩, hnext, -⟩ := hcrowded.next hn
    exact ⟨_, hrun.cons hstep, hnext⟩

end Crowded

/-! ## Every run shares one kernel half -/

/-- In every run of careful calls all live directories share one kernel half, destroyed
directories are left alone, and the next careful call returns. -/
theorem kernel_half_same {start : Spaces} (hboot : start.Boot) {run : List (HalCall × Spaces)}
    (hrun : Run Spaces.CarefulStep start run) :
    (lastState start run).SameKernelHalf ∧ Spaces.DestroyedUnwritten start run ∧
      ∀ c, (lastState start run).Legal c → (lastState start run).Careful c →
        ∃ s', (lastState start run).call c = some s' := by
  have hinv := Spaces.inv_run hboot.inv hrun
  refine ⟨hinv.sameKernelHalf, Spaces.destroyedUnwritten_run hboot.inv hrun, ?_⟩
  intro c hlegal hcareful
  obtain ⟨s', hs', -⟩ := hinv.call hlegal hcareful
  exact ⟨s', hs'⟩

/-- Two directories are created, the boot directory and the first new one each map a page of
the kernel half, and the second new one is destroyed. -/
def sampleCalls : List HalCall :=
  [.createAddressSpace, .createAddressSpace, .mapPage 0xC0000000 0x2000000 sampleFlags,
    .switchAddressSpace 0x1001000, .mapPage 0xC0400000 0x2001000 sampleFlags,
    .switchAddressSpace 0x1000000, .destroyAddressSpace 0x1002000]

/-- Both directories that are left translate both pages. -/
theorem kernel_half_same_boot : bootSpaces.Boot ∧ ∃ run, Run Spaces.CarefulStep bootSpaces run ∧
    run.reverse.map Prod.fst = sampleCalls ∧
    (lastState bootSpaces run).live = [0x1001000, 0x1000000] ∧
    (∀ d ∈ (lastState bootSpaces run).live,
      (lastState bootSpaces run).hal.translate d 0xC0000 =
          some (Pte.setFrame 0x2000000 sampleFlags) ∧
        (lastState bootSpaces run).hal.translate d 0xC0400 =
          some (Pte.setFrame 0x2001000 sampleFlags)) ∧
    (lastState bootSpaces run).SameKernelHalf ∧ Spaces.DestroyedUnwritten bootSpaces run := by
  obtain ⟨s₁, hstep₁, C₁, hlive₁⟩ := Crowded.start.next (by decide)
  obtain ⟨s₂, hstep₂, C₂, hlive₂⟩ := C₁.next (by decide)
  rw [hlive₁] at hlive₂
  -- A page under slot 768, from the boot directory.
  obtain ⟨s₃, hstep₃, I₃, hlive₃, hused₃, hmax₃, -, hentry₃, hpage₃, hkept₃⟩ :=
    C₂.inv.mapPage_kernel (show pageOf 0xC0000000 = 768 * 1024 + 0 by decide) (by decide)
      ⟨by decide, by decide⟩ (by rw [C₂.current]; exact C₂.unmapped _ (by decide) (by decide))
      (C₂.pick (by decide)) (by decide) 0x2000000 sampleFlags
  replace hlive₃ : s₃.live = [0x1002000, 0x1001000, 0x1000000] := hlive₃.trans hlive₂
  rw [C₂.current] at hentry₃
  have hA : 0x1001000 ∈ s₃.live := by
    rw [hlive₃]
    decide
  have hstep₄ : s₃.CarefulStep (.switchAddressSpace 0x1001000)
      ⟨{ s₃.hal with current := 0x1001000 }, s₃.live⟩ := ⟨trivial, hA, rfl⟩
  obtain ⟨s₄, hcall₄, I₄, -⟩ := I₃.call_switch hA
  cases hcall₄
  -- A page under slot 769, from the first new directory.
  obtain ⟨s₅, hstep₅, I₅, hlive₅, -, -, -, hentry₅, hpage₅, hkept₅⟩ :=
    I₄.mapPage_kernel (show pageOf 0xC0400000 = 769 * 1024 + 0 by decide) (by decide)
      ⟨by decide, by decide⟩
      (by
        rw [I₄.agree _ I₄.active 0x1000000 (by rw [hlive₃]; decide) 769 ⟨by decide, by decide⟩]
        exact (hkept₃ _ _ (by decide) (by decide) (by decide)).trans
          (C₂.unmapped _ (by decide) (by decide)))
      (by
        show pickFrames s₃.hal.used s₃.hal.maxFrames 1 = some 4100
        rw [hused₃, hmax₃, C₂.used, C₂.maxFrames, Crowded.used_succ]
        exact pickFrames_first (by decide) (by decide))
      (by decide) 0x2001000 sampleFlags
  replace hlive₅ : s₅.live = [0x1002000, 0x1001000, 0x1000000] := hlive₅.trans hlive₃
  have hboot : 0x1000000 ∈ s₅.live := by
    rw [hlive₅]
    decide
  have hstep₆ : s₅.CarefulStep (.switchAddressSpace 0x1000000)
      ⟨{ s₅.hal with current := 0x1000000 }, s₅.live⟩ := ⟨trivial, hboot, rfl⟩
  obtain ⟨s₆, hcall₆, I₆, -⟩ := I₅.call_switch hboot
  cases hcall₆
  -- The second new directory goes.
  have hB : 0x1002000 ∈ s₅.live := by
    rw [hlive₅]
    decide
  obtain ⟨t, hstep₇, hmem⟩ := I₆.destroyStep hB (show 0x1002000 ≠ 0x1000000 by decide)
  have hrun : Run Spaces.CarefulStep bootSpaces _ :=
    ((((((Run.nil.cons hstep₁).cons hstep₂).cons hstep₃).cons hstep₄).cons hstep₅).cons hstep₆).cons
      hstep₇
  obtain ⟨hsame, hdestroyed, -⟩ := kernel_half_same bootSpaces_boot hrun
  have hlive : s₅.live.erase 0x1002000 = [0x1001000, 0x1000000] := by
    rw [hlive₅]
    decide
  refine ⟨bootSpaces_boot, _, hrun, rfl, hlive, ?_, hsame, hdestroyed⟩
  have hfirst : t.translate 0x1000000 0xC0000 = some (Pte.setFrame 0x2000000 sampleFlags) := by
    unfold Paging.translate
    rw [show pdIndex 0xC0000 = 768 by decide, hmem, if_neg (by decide),
      if_neg fun hin => absurd hin.2 (by decide)]
    dsimp only
    rw [hkept₅ _ _ (by decide) (by decide) (by decide)]
    dsimp only
    rw [hentry₃, Option.bind_some, setPageTable_frame (by decide), hmem, if_neg (by decide),
      if_neg fun hin => absurd hin.2 (by decide)]
    exact (hkept₅ _ _ (by decide) (by decide) (by decide)).trans hpage₃
  have hsecond : t.translate 0x1001000 0xC0400 = some (Pte.setFrame 0x2001000 sampleFlags) := by
    unfold Paging.translate
    rw [show pdIndex 0xC0400 = 769 by decide, hmem, if_neg (by decide),
      if_neg fun hin => absurd hin.2 (by decide)]
    dsimp only at hentry₅ ⊢
    rw [hentry₅, Option.bind_some, setPageTable_frame (by decide), hmem, if_neg (by decide),
      if_neg fun hin => absurd hin.2 (by decide)]
    exact hpage₅
  intro d hd
  constructor
  · rw [← hfirst]
    exact (hsame d hd _ (by show _ ∈ s₅.live.erase _; rw [hlive]; decide)).2 _ (by decide)
      (by decide)
  · rw [← hsecond]
    exact (hsame d hd _ (by show _ ∈ s₅.live.erase _; rw [hlive]; decide)).2 _ (by decide)
      (by decide)

/-! ## A full registry -/

/-- When the registry is full, the next directory misses the kernel page that is mapped
after it. -/
theorem Crowded.left_behind {s : Spaces} (h : Crowded 63 s) (phys : Nat) (flags : ProtectFlags) :
    ∃ s₁ s₂, s.LegalStep .createAddressSpace s₁ ∧
      s₁.LegalStep (.mapPage 0xC0000000 phys flags) s₂ ∧ ¬s₂.SameKernelHalf := by
  obtain ⟨t, hcall, hmem, hused, hmax, hcurrent, hroots⟩ := h.create (by omega)
  have hfull : t.roots = s.hal.roots := by
    rw [hroots, registerRoot, h.roots]
    rfl
  have hcur : s.hal.current = t.current := h.current.trans hcurrent.symm
  generalize hnew : (4097 + 63) * pageSize = new at *
  obtain ⟨hnewLive, -⟩ := h.inv.fresh h.free
  rw [hnew] at hnewLive
  have hroots' : ∀ r, r ∈ t.roots ↔ r ∈ s.live := by
    rw [hfull]
    exact fun r => h.inv.registered.mem_iff
  have hactive : t.current ∈ s.live := by
    rw [← hcur]
    exact h.inv.active
  -- The table for the new page comes from the next frame.
  have hfree' : s.hal.used (4097 + 64) = false := by
    rw [h.used]
    rfl
  obtain ⟨htableLive, -⟩ := h.inv.fresh hfree'
  have hpick : pickFrames t.used t.maxFrames 1 = some (4097 + 64) := by
    rw [hused, hmax]
    exact pickFrames_first (by decide) (by decide)
  have hnewCur : new ≠ t.current := fun hin => hnewLive (hin ▸ hactive)
  have htableCur : (4097 + 64) * pageSize ≠ t.current := fun hin => htableLive (hin ▸ hactive)
  have hmine : ∀ j, j ≠ tempPdSlot → t.mem t.current j = s.hal.mem t.current j := by
    intro j hj
    rw [hmem, filledMem, if_neg fun hin => hnewCur hin.1.symm, if_neg fun hin => hj hin.2]
  have hself : t.SelfMapped := by
    obtain ⟨e, he, hframe⟩ := h.inv.selfMapped
    refine ⟨e, ?_, hframe.trans hcur⟩
    rw [hmine _ (by decide), ← hcur]
    exact he
  obtain ⟨t₂, ht₂, hmem₂, -, -, hcurrent₂⟩ := mapPage_new hself
    (fun r hr => (h.inv.aligned r ((hroots' r).1 hr)).1)
    (show pdIndex (pageOf 0xC0000000) < recursiveSlot by decide)
    (by
      rw [hmine _ (by decide), hcurrent]
      exact h.unmapped _ (by decide) (by decide))
    hpick (by decide) htableCur (fun hin => htableLive ((hroots' _).1 hin)) phys flags
  refine ⟨⟨t, new :: s.live⟩, ⟨t₂, new :: s.live⟩, ⟨trivial, hcall⟩,
    ⟨by show 0xC0000000 < 2 ^ 32; decide, by unfold Spaces.call; dsimp only; rw [ht₂]⟩, ?_⟩
  -- The new directory has no entry 768, the active one has.
  intro hsame
  have heq := (hsame new (.head _) t.current (.tail _ hactive)).1 768 (by decide) (by decide)
  have hnewTable : new ≠ (4097 + 64) * pageSize := by
    rw [← hnew]
    decide
  have hthere : t₂.mem t.current 768 = some (setPageTable ((4097 + 64) * pageSize) true) := by
    rw [hmem₂, if_neg fun hin => htableCur hin.1.symm, tabledMem,
      if_neg fun hin => htableCur hin.1.symm]
    exact if_pos ⟨rfl, .inl rfl⟩
  have hmissing : t₂.mem new 768 = none := by
    rw [hmem₂, if_neg fun hin => hnewTable hin.1, tabledMem, if_neg fun hin => hnewTable hin.1,
      if_neg, if_neg fun hin => hnewCur hin.1, hmem, filledMem, if_pos ⟨rfl, by decide⟩,
      if_neg (by decide), if_pos (by decide), h.current]
    · exact h.unmapped _ (by decide) (by decide)
    · rintro ⟨-, hin | ⟨-, -, hin⟩⟩
      · exact hnewCur hin
      · exact hnewLive ((hroots' _).1 hin)
  rw [hmissing, hthere] at heq
  cases heq

/-- The 65th directory is not registered. -/
theorem late_directory_left_behind : ¬∀ start : Spaces, start.Boot →
    ∀ run, Run Spaces.LegalStep start run →
      (lastState start run).SameKernelHalf ∧ Spaces.DestroyedUnwritten start run := by
  intro hclaim
  obtain ⟨run, hrun, hfull⟩ := Crowded.reached (n := 63) (by decide)
  obtain ⟨s₁, s₂, hstep₁, hstep₂, hdiffer⟩ :=
    hfull.left_behind 0x2000000 sampleFlags
  exact hdiffer (hclaim bootSpaces bootSpaces_boot _ ((hrun.cons hstep₁).cons hstep₂)).1

end UnDOS.Memory
