import UnDOS.Memory.Pmm

/-!
# Page Directories in Physical Memory

`HAL/x86_old/vmm.cpp` at the level of single directory and table entries.  Every access
goes through an address in the last 4 MiB, that is, through the entry 1023 of the active
directory; entry 1022 is set for a moment to reach a directory that is not active.

- `mem` is physical memory as the page walker reads it: for the frame at an address, its
  1024 entries.
- `written` lists the frames that were written, newest first.
- An access through a window entry that is not present is a page fault in the kernel, and
  the routine does not return.

`Machine` has one kernel half for all directories; here each directory has its own
entries, and that they agree is a theorem.
-/

namespace UnDOS.Memory

open UnDOS.Lib
open UnDOS.Kernel (KernelError)

/-! ## State -/

structure Paging where
  mem : Nat → Nat → Option Pte
  used : Bitmap
  maxFrames : Nat
  /-- `CR3`. -/
  current : Nat
  /-- The first `g_root_count` entries of `g_roots`. -/
  roots : List Nat
  written : List Nat

abbrev Hal (α : Type) := Prog Paging KernelError α

namespace Paging

/-- One entry of the frame at `f` is written. -/
def store (s : Paging) (f i : Nat) (e : Option Pte) : Paging :=
  { s with
    mem := fun g j => if g = f ∧ j = i then e else s.mem g j
    written := f :: s.written }

/-- The frame behind window page `slot`: the walk goes through entry 1023 of the active
directory and then through entry `slot` of what it finds there. -/
def window (s : Paging) (slot : Nat) : Option Nat :=
  (s.mem s.current recursiveSlot).bind fun pd => (s.mem pd.frame slot).map Pte.frame

/-- The page table walk from the directory at `root`. -/
def translate (s : Paging) (root page : Nat) : Option Pte :=
  (s.mem root (pdIndex page)).bind fun table => s.mem table.frame (page % 1024)

end Paging

/-- `set_page_table` with `PRESENT | WRITABLE`, and `USER` for the tables of `MapPage`. -/
def setPageTable (phys : Nat) (user : Bool) : Pte where
  frame := alignDown phys
  writable := true
  user := user
  cacheDisable := false

/-! ## `HAL/x86_old/vmm.cpp` -/

/-- `window[slot][i]`; slot 1023 is the active directory. -/
def readEntry (slot i : Nat) : Hal (Option Pte) := fun s =>
  match s.window slot with
  | none => (.stuck, s)
  | some f => (.ok (s.mem f i), s)

/-- `window[slot][i] = e`. -/
def writeEntry (slot i : Nat) (e : Option Pte) : Hal Unit := fun s =>
  match s.window slot with
  | none => (.stuck, s)
  | some f => (.ok (), s.store f i e)

/-- `HAL_PMM_AllocateFrames(1)`. -/
def allocateFrame : Hal Nat := fun s =>
  match pickFrames s.used s.maxFrames 1 with
  | none => (.ok 0, s)
  | some f => (.ok (f * pageSize), { s with used := fun k => s.used k || decide (k = f) })

/-- `HAL_PMM_FreeFrames(base, 1)`. -/
def freeFrame (base : Nat) : Hal Unit :=
  Prog.modify fun s => { s with used := fun k => s.used k && !decide (k = base / pageSize) }

def registerRoot (roots : List Nat) (root : Nat) : List Nat :=
  if roots.length < maxAddressSpaces then roots ++ [root] else roots

/-- `unregister_root`: the last root takes the place of the one that goes. -/
def unregisterRoot (root : Nat) : List Nat → List Nat
  | [] => []
  | r :: rest =>
    if r = root then
      match rest.getLast? with
      | none => []
      | some last => last :: rest.dropLast
    else r :: unregisterRoot root rest

/-- One round of `propagate_kernel_pde`. -/
def propagateTo (pd i : Nat) : Hal Unit := do
  let s ← Prog.get
  match s.roots[i]? with
  | none => Prog.diverge
  | some root =>
    if root = s.current then pure ()
    else do
      writeEntry recursiveSlot tempPdSlot (some (setPageTable root false))
      let e ← readEntry recursiveSlot pd
      writeEntry tempPdSlot pd e

def propagateKernelPde (pd : Nat) : Hal Unit := do
  let s ← Prog.get
  Prog.forRange s.roots.length (propagateTo pd)
  writeEntry recursiveSlot tempPdSlot none

/-- The entries of a new directory. -/
def fillDirectory (root : Nat) : Hal Unit := do
  writeEntry recursiveSlot tempPdSlot (some (setPageTable root false))
  Prog.forRange kernelSplit fun i => writeEntry tempPdSlot i none
  Prog.forRange (recursiveSlot - kernelSplit) fun i => do
    let e ← readEntry recursiveSlot (kernelSplit + i)
    writeEntry tempPdSlot (kernelSplit + i) e
  -- The window entry aliases the new directory itself and is not inherited.
  writeEntry tempPdSlot tempPdSlot none
  writeEntry tempPdSlot recursiveSlot (some (setPageTable root false))
  writeEntry recursiveSlot tempPdSlot none

/-- `HAL_VMM_CreateAddressSpace`. -/
def createAddressSpace : Hal Nat := do
  let root ← allocateFrame
  if root = 0 then pure 0
  else do
    fillDirectory root
    Prog.modify fun s => { s with roots := registerRoot s.roots root }
    pure root

/-- One round of the loop that gives back the tables of the user half. -/
def reclaimEntry (i : Nat) : Hal Unit := do
  let e ← readEntry tempPdSlot i
  match e with
  | none => pure ()
  | some e => do
    freeFrame e.frame
    writeEntry tempPdSlot i none

/-- `HAL_VMM_DestroyAddressSpace`. -/
def destroyAddressSpace (root : Nat) : Hal Unit := do
  if root = 0 then pure ()
  else do
    writeEntry recursiveSlot tempPdSlot (some (setPageTable root false))
    Prog.forRange kernelSplit reclaimEntry
    writeEntry recursiveSlot tempPdSlot none
    Prog.modify fun s => { s with roots := unregisterRoot root s.roots }
    freeFrame root

/-- `HAL_VMM_SwitchAddressSpace`. -/
def switchAddressSpace (root : Nat) : Hal Unit := Prog.modify fun s => { s with current := root }

/-- The last step of a new table: the entry of a kernel slot goes to every directory. -/
def shareTable (pd : Nat) : Hal Bool :=
  if kernelSplit ≤ pd ∧ pd < tempPdSlot then do
    propagateKernelPde pd
    pure true
  else pure true

/-- The table for directory slot `pd`, allocated, cleared and shared when it is missing. -/
def requireTable (pd : Nat) : Hal Bool := do
  let e ← readEntry recursiveSlot pd
  match e with
  | some _ => pure true
  | none => do
    let table ← allocateFrame
    if table = 0 then pure false
    else do
      writeEntry recursiveSlot pd (some (setPageTable table true))
      Prog.forRange 1024 fun i => writeEntry pd i none
      shareTable pd

/-- The table entry is set unless it is in use. -/
def placeEntry (pd pt : Nat) (e : Pte) : Hal Bool := do
  let old ← readEntry pd pt
  match old with
  | some _ => pure false
  | none => do
    writeEntry pd pt (some e)
    pure true

/-- `HAL_VMM_MapPage`. -/
def mapPage (virt phys : Nat) (flags : ProtectFlags) : Hal Bool := do
  let page := pageOf virt
  let ok ← requireTable (pdIndex page)
  if !ok then pure false
  else placeEntry (pdIndex page) (page % 1024) (Pte.setFrame phys flags)

/-- Whether no entry of the table in slot `pd` is present. -/
def tableIsEmpty (pd : Nat) : Hal Bool := fun s =>
  match s.window pd with
  | none => (.stuck, s)
  | some f => (.ok ((List.range 1024).all fun i => (s.mem f i).isNone), s)

/-- The empty table of a user slot goes back; tables of the kernel half stay. -/
def reclaimIfEmpty (pd : Nat) : Hal Unit := do
  let empty ← tableIsEmpty pd
  if empty ∧ pd < kernelSplit then do
    let e ← readEntry recursiveSlot pd
    writeEntry recursiveSlot pd none
    match e with
    | none => freeFrame 0
    | some e => freeFrame e.frame
  else pure ()

/-- `HAL_VMM_UnmapPage`. -/
def unmapPage (virt : Nat) : Hal Unit := do
  let page := pageOf virt
  let e ← readEntry recursiveSlot (pdIndex page)
  match e with
  | none => pure ()
  | some _ => do
    writeEntry (pdIndex page) (page % 1024) none
    reclaimIfEmpty (pdIndex page)

/-! ## Single accesses -/

namespace Paging

variable {s : Paging}

@[simp] theorem store_mem (s : Paging) (f i : Nat) (e : Option Pte) (g j : Nat) :
    (s.store f i e).mem g j = if g = f ∧ j = i then e else s.mem g j := rfl

@[simp] theorem store_used (s : Paging) (f i : Nat) (e : Option Pte) :
    (s.store f i e).used = s.used := rfl

@[simp] theorem store_current (s : Paging) (f i : Nat) (e : Option Pte) :
    (s.store f i e).current = s.current := rfl

/-- Entry 1023 of the active directory points back to it. -/
def SelfMapped (s : Paging) : Prop :=
  ∃ e, s.mem s.current recursiveSlot = some e ∧ e.frame = s.current

theorem SelfMapped.window (h : s.SelfMapped) (slot : Nat) :
    s.window slot = (s.mem s.current slot).map Pte.frame := by
  obtain ⟨e, he, hframe⟩ := h
  unfold Paging.window
  rw [he, Option.bind_some, hframe]

theorem SelfMapped.directory (h : s.SelfMapped) : s.window recursiveSlot = some s.current := by
  rw [h.window]
  obtain ⟨e, he, hframe⟩ := h
  rw [he, Option.map_some, hframe]

/-- What is reached by a series of stores to the frames in `P`. -/
structure Edit (P : Nat → Prop) (s s' : Paging) : Prop where
  used : s'.used = s.used
  maxFrames : s'.maxFrames = s.maxFrames
  current : s'.current = s.current
  roots : s'.roots = s.roots
  log : ∃ w, s'.written = w ++ s.written ∧ ∀ g ∈ w, P g

theorem Edit.refl (P : Nat → Prop) (s : Paging) : Edit P s s :=
  ⟨rfl, rfl, rfl, rfl, [], rfl, by simp⟩

theorem Edit.store {P : Nat → Prop} {s s' : Paging} (h : Edit P s s') {f : Nat} (hf : P f)
    (i : Nat) (e : Option Pte) : Edit P s (s'.store f i e) := by
  obtain ⟨w, hw, hall⟩ := h.log
  refine ⟨h.used, h.maxFrames, h.current, h.roots, f :: w, ?_, ?_⟩
  · show f :: s'.written = _
    rw [hw, List.cons_append]
  · intro g hg
    rcases List.mem_cons.1 hg with rfl | hg
    · exact hf
    · exact hall g hg

theorem Edit.mono {P Q : Nat → Prop} {s s' : Paging} (h : Edit P s s') (hPQ : ∀ g, P g → Q g) :
    Edit Q s s' := by
  obtain ⟨w, hw, hall⟩ := h.log
  exact ⟨h.used, h.maxFrames, h.current, h.roots, w, hw, fun g hg => hPQ g (hall g hg)⟩

theorem Edit.trans {P : Nat → Prop} {s s' s'' : Paging} (h : Edit P s s') (h' : Edit P s' s'') :
    Edit P s s'' := by
  obtain ⟨w, hw, hall⟩ := h.log
  obtain ⟨w', hw', hall'⟩ := h'.log
  refine ⟨h'.used.trans h.used, h'.maxFrames.trans h.maxFrames, h'.current.trans h.current,
    h'.roots.trans h.roots, w' ++ w, by rw [hw', hw, List.append_assoc], ?_⟩
  intro g hg
  rcases List.mem_append.1 hg with hg | hg
  · exact hall' g hg
  · exact hall g hg

end Paging

variable {s t : Paging} {f root i pd : Nat}

theorem writeEntry_ok {slot : Nat} (h : s.window slot = some f) (i : Nat)
    (e : Option Pte) : writeEntry slot i e s = (.ok (), s.store f i e) := by
  unfold writeEntry
  rw [h]

theorem readEntry_ok {slot : Nat} (h : s.window slot = some f) (i : Nat) :
    readEntry slot i s = (.ok (s.mem f i), s) := by
  unfold readEntry
  rw [h]

theorem setPageTable_frame {phys : Nat} (h : phys % pageSize = 0) (user : Bool) :
    (setPageTable phys user).frame = phys := by
  show phys / pageSize * pageSize = phys
  have := Nat.div_add_mod phys pageSize
  rw [mul_comm] at this
  omega

/-! ## A new directory -/

/-- Memory in which the directory at `root` has been filled in. -/
def filledMem (s : Paging) (root g j : Nat) : Option Pte :=
  if g = root ∧ j < recursiveSlot + 1 then
    if j < kernelSplit then none
    else if j < tempPdSlot then s.mem s.current j
    else if j = tempPdSlot then none
    else some (setPageTable root false)
  else if g = s.current ∧ j = tempPdSlot then none
  else s.mem g j

/-- The window entry is set: entry `tempPdSlot` leads to the directory at `root`. -/
structure Peeking (s s' : Paging) (root : Nat) : Prop where
  edit : s.Edit (fun g => g = root ∨ g = s.current) s'
  mine : ∀ j, s'.mem s.current j =
    if j = tempPdSlot then some (setPageTable root false) else s.mem s.current j

namespace Peeking

variable {s s' : Paging} {root : Nat}

theorem selfMapped (h : Peeking s s' root) (hself : s.SelfMapped) : s'.SelfMapped := by
  obtain ⟨e, he, hframe⟩ := hself
  refine ⟨e, ?_, hframe.trans h.edit.current.symm⟩
  rw [h.edit.current, h.mine]
  exact he

theorem window (h : Peeking s s' root) (hself : s.SelfMapped) (halign : root % pageSize = 0) :
    s'.window tempPdSlot = some root := by
  rw [(h.selfMapped hself).window, h.edit.current, h.mine, if_pos rfl, Option.map_some,
    setPageTable_frame halign]

theorem store (h : Peeking s s' root) (hne : root ≠ s.current) (i : Nat) (e : Option Pte) :
    Peeking s (s'.store root i e) root := by
  refine ⟨h.edit.store (.inl rfl) i e, ?_⟩
  intro j
  rw [Paging.store_mem, if_neg fun hj => hne hj.1.symm, h.mine]

end Peeking

theorem peeking_start (s : Paging) (root : Nat) :
    Peeking s (s.store s.current tempPdSlot (some (setPageTable root false))) root := by
  refine ⟨(Paging.Edit.refl _ s).store (.inr rfl) _ _, ?_⟩
  simp

theorem Peeking.loop (h : Peeking s t root) (hne : root ≠ s.current)
    (n base : Nat) (v : Nat → Option Pte) (body : Nat → Hal Unit)
    (hbody : ∀ i t, Peeking s t root →
      body i t = (.ok (), t.store root (base + i) (v (base + i)))) :
    ∃ t', Prog.forRange n body t = (.ok (), t') ∧ Peeking s t' root ∧
      ∀ g j, g ≠ s.current →
        t'.mem g j = if g = root ∧ base ≤ j ∧ j < base + n then v j else t.mem g j := by
  refine Prog.forRange_ok n body (fun i t' => Peeking s t' root ∧ ∀ g j, g ≠ s.current →
    t'.mem g j = if g = root ∧ base ≤ j ∧ j < base + i then v j else t.mem g j)
    ⟨h, fun g j _ => (if_neg (by omega)).symm⟩ ?_
  rintro i - t' ⟨hpeek, hmem⟩
  refine ⟨_, hbody i t' hpeek, hpeek.store hne _ _, ?_⟩
  intro g j hg
  rw [Paging.store_mem, hmem g j hg]
  by_cases hj : g = root ∧ j = base + i
  · rw [if_pos hj, hj.2, if_pos ⟨hj.1, by omega, by omega⟩]
  · rw [if_neg hj]
    by_cases hj' : g = root ∧ base ≤ j ∧ j < base + i
    · rw [if_pos hj', if_pos ⟨hj'.1, hj'.2.1, by omega⟩]
    · have hout : ¬(g = root ∧ base ≤ j ∧ j < base + (i + 1)) := by omega
      rw [if_neg hj', if_neg hout]

theorem fillDirectory_ok (hself : s.SelfMapped)
    (halign : root % pageSize = 0) (hne : root ≠ s.current) :
    ∃ s', fillDirectory root s = (.ok (), s') ∧
      s.Edit (fun g => g = root ∨ g = s.current) s' ∧ s'.mem = filledMem s root := by
  unfold fillDirectory
  rw [Prog.bind_ok (writeEntry_ok hself.directory _ _)]
  -- The user half is cleared.
  obtain ⟨s₁, hs₁, hpeek₁, hmem₁⟩ := (peeking_start s root).loop hne kernelSplit 0
    (fun _ => none) (fun i => writeEntry tempPdSlot i none) (by
      intro i t hpeek
      rw [zero_add]
      exact writeEntry_ok (hpeek.window hself halign) i none)
  rw [Prog.bind_ok hs₁]
  -- The kernel half is copied, the window entry with it.
  obtain ⟨s₂, hs₂, hpeek₂, hmem₂⟩ := hpeek₁.loop hne (recursiveSlot - kernelSplit) kernelSplit
    (fun j => if j = tempPdSlot then some (setPageTable root false) else s.mem s.current j)
    (fun i => do
      let e ← readEntry recursiveSlot (kernelSplit + i)
      writeEntry tempPdSlot (kernelSplit + i) e) (by
      intro i t hpeek
      have hread := readEntry_ok ((hpeek.selfMapped hself).directory) (kernelSplit + i)
      rw [hpeek.edit.current, hpeek.mine] at hread
      exact (Prog.bind_ok hread).trans (writeEntry_ok (hpeek.window hself halign) _ _))
  rw [Prog.bind_ok hs₂, Prog.bind_ok (writeEntry_ok (hpeek₂.window hself halign) _ _)]
  have hpeek₃ := hpeek₂.store hne tempPdSlot none
  rw [Prog.bind_ok (writeEntry_ok (hpeek₃.window hself halign) _ _)]
  have hpeek₄ := hpeek₃.store hne recursiveSlot (some (setPageTable root false))
  refine ⟨_, writeEntry_ok (hpeek₄.selfMapped hself).directory _ _,
    hpeek₄.edit.store (.inr hpeek₄.edit.current) _ _, ?_⟩
  funext g j
  rw [Paging.store_mem, hpeek₄.edit.current]
  unfold filledMem
  by_cases hg : g = s.current
  · subst hg
    rw [if_neg (c := s.current = root ∧ _) fun h => hne h.1.symm]
    by_cases hj : s.current = s.current ∧ j = tempPdSlot
    · rw [if_pos hj, if_pos hj]
    · rw [if_neg hj, if_neg hj, hpeek₄.mine, if_neg fun h => hj ⟨rfl, h⟩]
  · rw [Paging.store_mem,
      Paging.store_mem, hmem₂ g j hg, hmem₁ g j hg, Paging.store_mem]
    unfold kernelSplit tempPdSlot recursiveSlot
    by_cases hroot : g = root
    · split_ifs <;> first | rfl | omega
    · simp only [hroot, hg, false_and, if_false]

theorem allocateFrame_some
    (h : pickFrames s.used s.maxFrames 1 = some f) :
    allocateFrame s =
      (.ok (f * pageSize), { s with used := fun k => s.used k || decide (k = f) }) := by
  unfold allocateFrame
  rw [h]

theorem allocateFrame_none (h : pickFrames s.used s.maxFrames 1 = none) :
    allocateFrame s = (.ok 0, s) := by
  unfold allocateFrame
  rw [h]

theorem createAddressSpace_ok (hself : s.SelfMapped)
    (hf : pickFrames s.used s.maxFrames 1 = some f) (h0 : f * pageSize ≠ 0)
    (hne : f * pageSize ≠ s.current) :
    ∃ s', createAddressSpace s = (.ok (f * pageSize), s') ∧
      s'.mem = filledMem s (f * pageSize) ∧
      s'.used = (fun k => s.used k || decide (k = f)) ∧ s'.maxFrames = s.maxFrames ∧
      s'.current = s.current ∧ s'.roots = registerRoot s.roots (f * pageSize) ∧
      ∃ w, s'.written = w ++ s.written ∧ ∀ g ∈ w, g = f * pageSize ∨ g = s.current := by
  unfold createAddressSpace
  rw [Prog.bind_ok (allocateFrame_some hf), if_neg h0]
  obtain ⟨s₁, hs₁, hedit, hmem⟩ := fillDirectory_ok
    (s := { s with used := fun k => s.used k || decide (k = f) }) hself
    (Nat.mul_mod_left f pageSize) hne
  rw [Prog.bind_ok hs₁]
  refine ⟨_, rfl, hmem, hedit.used, hedit.maxFrames, hedit.current, ?_, hedit.log⟩
  show registerRoot s₁.roots _ = _
  rw [hedit.roots]

/-! ## The end of a directory -/

theorem freeFrame_ok (base : Nat) (s : Paging) :
    freeFrame base s =
      (.ok (), { s with used := fun k => s.used k && !decide (k = base / pageSize) }) := rfl

/-- The tables of the first `n` slots of the directory at `root`. -/
def tablesBelow (s : Paging) (root n k : Nat) : Prop :=
  ∃ i e, i < n ∧ s.mem root i = some e ∧ k = e.frame / pageSize

theorem tablesBelow_succ {k : Nat} :
    tablesBelow s root (i + 1) k ↔
      tablesBelow s root i k ∨ ∃ e, s.mem root i = some e ∧ k = e.frame / pageSize := by
  constructor
  · rintro ⟨j, e, hj, he, hk⟩
    rcases Nat.lt_succ_iff_lt_or_eq.1 hj with hj | rfl
    · exact .inl ⟨j, e, hj, he, hk⟩
    · exact .inr ⟨e, he, hk⟩
  · rintro (⟨j, e, hj, he, hk⟩ | ⟨e, he, hk⟩)
    · exact ⟨j, e, by omega, he, hk⟩
    · exact ⟨i, e, by omega, he, hk⟩

/-- After `i` rounds the first `i` entries are clear and their tables free. -/
structure Reclaimed (s : Paging) (root i : Nat) (t : Paging) : Prop where
  mem : ∀ g j, g ≠ s.current → t.mem g j = if g = root ∧ j < i then none else s.mem g j
  used : ∀ k, t.used k = true ↔ s.used k = true ∧ ¬tablesBelow s root i k
  peeking : Peeking s { t with used := s.used } root

theorem reclaimEntry_ok (hself : s.SelfMapped)
    (halign : root % pageSize = 0) (hne : root ≠ s.current) (h : Reclaimed s root i t) :
    ∃ t', reclaimEntry i t = (.ok (), t') ∧ Reclaimed s root (i + 1) t' := by
  have hwin : t.window tempPdSlot = some root := h.peeking.window hself halign
  unfold reclaimEntry
  rw [Prog.bind_ok (readEntry_ok hwin i), h.mem root i hne, if_neg (by omega)]
  rcases he : s.mem root i with _ | e
  · -- Nothing in this slot.
    refine ⟨t, rfl, ?_, ?_, h.peeking⟩
    · intro g j hg
      rw [h.mem g j hg]
      by_cases hj : g = root ∧ j = i
      · rw [hj.1, hj.2, he]
        simp
      · exact if_congr (by omega) rfl rfl
    · intro k
      rw [h.used k, tablesBelow_succ]
      simp [he]
  · -- The table goes back and its entry is cleared.
    have hwrite := writeEntry_ok (s := { t with
      used := fun k => t.used k && !decide (k = e.frame / pageSize) }) hwin i none
    refine ⟨_, (Prog.bind_ok (freeFrame_ok e.frame t)).trans hwrite, ?_, ?_,
      h.peeking.store hne i none⟩
    · intro g j hg
      show (if g = root ∧ j = i then none else t.mem g j) = _
      rw [h.mem g j hg]
      by_cases hj : g = root ∧ j = i
      · rw [if_pos hj, if_pos (by omega)]
      · rw [if_neg hj]
        exact if_congr (by omega) rfl rfl
    · intro k
      rw [tablesBelow_succ]
      simp [he, h.used k, and_assoc]

/-- What is freed: the directory and its own tables, no table of the kernel. -/
theorem destroyAddressSpace_ok (hself : s.SelfMapped)
    (halign : root % pageSize = 0) (h0 : root ≠ 0) (hne : root ≠ s.current) :
    ∃ s', destroyAddressSpace root s = (.ok (), s') ∧
      (∀ g j, s'.mem g j = if g = root ∧ j < kernelSplit then none
        else if g = s.current ∧ j = tempPdSlot then none else s.mem g j) ∧
      (∀ k, s'.used k = true ↔
        s.used k = true ∧ ¬tablesBelow s root kernelSplit k ∧ k ≠ root / pageSize) ∧
      s'.maxFrames = s.maxFrames ∧ s'.current = s.current ∧
      s'.roots = unregisterRoot root s.roots ∧
      ∃ w, s'.written = w ++ s.written ∧ ∀ g ∈ w, g = root ∨ g = s.current := by
  unfold destroyAddressSpace
  rw [if_neg h0, Prog.bind_ok (writeEntry_ok hself.directory _ _)]
  obtain ⟨s₁, hs₁, hdone⟩ := Prog.forRange_ok kernelSplit reclaimEntry
    (s := s.store s.current tempPdSlot (some (setPageTable root false))) (Reclaimed s root)
    ⟨fun g j hg => by simp [hg], fun k => by simp [tablesBelow], peeking_start s root⟩
    fun i _ t h => reclaimEntry_ok hself halign hne h
  rw [Prog.bind_ok hs₁]
  have hself₁ : s₁.SelfMapped := hdone.peeking.selfMapped hself
  have hcurrent₁ : s₁.current = s.current := hdone.peeking.edit.current
  rw [Prog.bind_ok (writeEntry_ok hself₁.directory _ _)]
  refine ⟨_, rfl, ?_, ?_, hdone.peeking.edit.maxFrames, hcurrent₁, ?_,
    (hdone.peeking.edit.store (.inr hcurrent₁) tempPdSlot none).log⟩
  · intro g j
    show (if g = s₁.current ∧ j = tempPdSlot then none else s₁.mem g j) = _
    rw [hcurrent₁]
    by_cases hg : g = s.current
    · subst hg
      rw [if_neg (c := s.current = root ∧ _) fun h => hne h.1.symm]
      by_cases hj : s.current = s.current ∧ j = tempPdSlot
      · rw [if_pos hj, if_pos hj]
      · rw [if_neg hj, if_neg hj]
        exact (hdone.peeking.mine j).trans (if_neg fun h => hj ⟨rfl, h⟩)
    · rw [if_neg (c := g = s.current ∧ _) fun h => hg h.1, hdone.mem g j hg]
      rw [if_neg (c := g = s.current ∧ _) fun h => hg h.1]
  · intro k
    show (s₁.used k && !decide (k = root / pageSize)) = true ↔ _
    simp only [Bool.and_eq_true, hdone.used k, Bool.not_eq_true', decide_eq_false_iff_not,
      and_assoc]
  · show unregisterRoot root s₁.roots = _
    rw [hdone.peeking.edit.roots]

/-! ## Sharing a kernel table -/

/-- After `i` rounds the first `i` roots have the active directory's entry `pd`. -/
structure Propagated (s : Paging) (pd i : Nat) (t : Paging) : Prop where
  edit : s.Edit (fun g => g ∈ s.roots ∨ g = s.current) t
  mine : ∀ j, j ≠ tempPdSlot → t.mem s.current j = s.mem s.current j
  others : ∀ g j, g ≠ s.current →
    t.mem g j = if j = pd ∧ g ∈ s.roots.take i then s.mem s.current pd else s.mem g j

theorem Propagated.selfMapped (h : Propagated s pd i t)
    (hself : s.SelfMapped) : t.SelfMapped := by
  obtain ⟨e, he, hframe⟩ := hself
  refine ⟨e, ?_, hframe.trans h.edit.current.symm⟩
  rw [h.edit.current, h.mine _ (by decide)]
  exact he

/-- One directory more has the kernel's new table. -/
theorem propagateTo_ok (hself : s.SelfMapped)
    (halign : ∀ r ∈ s.roots, r % pageSize = 0) (hpd : pd < tempPdSlot)
    (hi : i < s.roots.length) (h : Propagated s pd i t) :
    ∃ t', propagateTo pd i t = (.ok (), t') ∧ Propagated s pd (i + 1) t' := by
  obtain ⟨root, hroot⟩ : ∃ root, s.roots[i]? = some root :=
    ⟨_, List.getElem?_eq_getElem hi⟩
  have hmem : root ∈ s.roots := List.mem_of_getElem? hroot
  have htake : ∀ g, g ∈ s.roots.take (i + 1) ↔ g ∈ s.roots.take i ∨ g = root := by
    intro g
    rw [List.take_add_one, hroot, List.mem_append, Option.toList_some, List.mem_singleton]
  unfold propagateTo
  rw [Prog.get_bind_apply, h.edit.roots, hroot]
  dsimp only
  rw [h.edit.current]
  by_cases hactive : root = s.current
  · -- The active directory has the entry already.
    rw [if_pos hactive]
    refine ⟨t, rfl, h.edit, h.mine, ?_⟩
    intro g j hg
    rw [h.others g j hg]
    exact if_congr (by rw [htake, hactive]; simp [hg]) rfl rfl
  · rw [if_neg hactive]
    have hself₁ := h.selfMapped hself
    rw [Prog.bind_ok (writeEntry_ok hself₁.directory _ _)]
    have hpeek := peeking_start t root
    have hselfPeek := hpeek.selfMapped hself₁
    rw [Prog.bind_ok (readEntry_ok hselfPeek.directory pd)]
    refine ⟨_, writeEntry_ok (hpeek.window hself₁ (halign root hmem)) _ _, ?_, ?_, ?_⟩
    · exact (h.edit.store (.inr h.edit.current) _ _).store (.inl hmem) _ _
    · intro j hj
      rw [Paging.store_mem, if_neg fun hin => hactive hin.1.symm, Paging.store_mem,
        if_neg fun hin => hj hin.2, h.mine j hj]
    · intro g j hg
      have hread : (t.store t.current tempPdSlot (some (setPageTable root false))).mem
          (t.store t.current tempPdSlot (some (setPageTable root false))).current pd =
          s.mem s.current pd := by
        rw [Paging.store_mem, if_neg fun hin => hpd.ne hin.2, Paging.store_current,
          h.edit.current, h.mine pd hpd.ne]
      rw [hread, Paging.store_mem, Paging.store_mem,
        if_neg (c := g = t.current ∧ _) fun hin => hg (hin.1.trans h.edit.current),
        h.others g j hg]
      by_cases hroot' : g = root ∧ j = pd
      · rw [if_pos hroot', if_pos ⟨hroot'.2, (htake g).2 (.inr hroot'.1)⟩]
      · rw [if_neg hroot']
        refine if_congr ⟨fun hin => ⟨hin.1, (htake g).2 (.inl hin.2)⟩, ?_⟩ rfl rfl
        rintro ⟨hj, hin⟩
        rcases (htake g).1 hin with hin | rfl
        · exact ⟨hj, hin⟩
        · exact absurd ⟨rfl, hj⟩ hroot'

theorem propagateKernelPde_ok (hself : s.SelfMapped)
    (halign : ∀ r ∈ s.roots, r % pageSize = 0) (hpd : pd < tempPdSlot) :
    ∃ s', propagateKernelPde pd s = (.ok (), s') ∧
      s.Edit (fun g => g ∈ s.roots ∨ g = s.current) s' ∧
      ∀ g j, s'.mem g j = if g = s.current ∧ j = tempPdSlot then none
        else if g ≠ s.current ∧ j = pd ∧ g ∈ s.roots then s.mem s.current pd else s.mem g j := by
  unfold propagateKernelPde
  rw [Prog.get_bind_apply]
  obtain ⟨t, ht, hdone⟩ := Prog.forRange_ok s.roots.length (propagateTo pd) (s := s)
    (Propagated s pd) ⟨.refl _ s, fun _ _ => rfl, fun g j _ => by simp⟩
    fun i hi t h => propagateTo_ok hself halign hpd hi h
  rw [Prog.bind_ok ht]
  refine ⟨_, writeEntry_ok (hdone.selfMapped hself).directory _ _,
    hdone.edit.store (.inr hdone.edit.current) _ _, ?_⟩
  intro g j
  rw [Paging.store_mem, hdone.edit.current]
  by_cases hg : g = s.current
  · subst hg
    by_cases hj : s.current = s.current ∧ j = tempPdSlot
    · rw [if_pos hj, if_pos hj]
    · rw [if_neg hj, if_neg hj, if_neg fun hin => hin.1 rfl, hdone.mine j fun h => hj ⟨rfl, h⟩]
  · rw [if_neg fun hin => hg hin.1, if_neg fun hin => hg hin.1, hdone.others g j hg,
      List.take_length]
    exact if_congr ⟨fun hin => ⟨hg, hin⟩, fun hin => hin.2⟩ rfl rfl

/-! ## A new table -/

/-- Memory in which slot `pd` has a new table. -/
def tabledMem (s : Paging) (pd table g j : Nat) : Option Pte :=
  if g = table ∧ j < 1024 then none
  else if j = pd ∧ (g = s.current ∨ (kernelSplit ≤ pd ∧ pd < tempPdSlot ∧ g ∈ s.roots)) then
    some (setPageTable table true)
  else if g = s.current ∧ j = tempPdSlot ∧ kernelSplit ≤ pd ∧ pd < tempPdSlot then none
  else s.mem g j

theorem clearTable_ok {table : Nat} {e : Pte} (hself : s.SelfMapped)
    (hne : table ≠ s.current) (he : s.mem s.current pd = some e) (hframe : e.frame = table) :
    ∃ s', Prog.forRange 1024 (fun i => writeEntry pd i none) s = (.ok (), s') ∧
      s.Edit (fun g => g = table) s' ∧
      ∀ g j, s'.mem g j = if g = table ∧ j < 1024 then none else s.mem g j := by
  refine Prog.forRange_ok 1024 _ (fun i t => s.Edit (fun g => g = table) t ∧
    ∀ g j, t.mem g j = if g = table ∧ j < i then none else s.mem g j)
    ⟨.refl _ s, fun g j => by simp⟩ ?_
  rintro i - t ⟨hedit, hmem⟩
  have hmine : ∀ j, t.mem t.current j = s.mem s.current j := by
    intro j
    rw [hedit.current, hmem, if_neg fun hin => hne hin.1.symm]
  have hself' : t.SelfMapped := by
    obtain ⟨e', he', hframe'⟩ := hself
    exact ⟨e', (hmine _).trans he', hframe'.trans hedit.current.symm⟩
  have hwin : t.window pd = some table := by
    rw [hself'.window, hmine, he, Option.map_some, hframe]
  refine ⟨_, writeEntry_ok hwin i none, hedit.store rfl _ _, ?_⟩
  intro g j
  rw [Paging.store_mem, hmem]
  by_cases hj : g = table ∧ j = i
  · rw [if_pos hj, if_pos (by omega)]
  · rw [if_neg hj]
    exact if_congr (by omega) rfl rfl

/-- A new table in slot `pd`, in the frame at `table`. -/
theorem newTable_ok {table : Nat} (hself : s.SelfMapped)
    (halign : ∀ r ∈ s.roots, r % pageSize = 0) (hpd : pd < recursiveSlot)
    (htable : table % pageSize = 0) (hne : table ≠ s.current) (hnot : table ∉ s.roots) :
    ∃ s', (do
        writeEntry recursiveSlot pd (some (setPageTable table true))
        Prog.forRange 1024 fun i => writeEntry pd i none
        shareTable pd : Hal Bool) s = (.ok true, s') ∧
      s.Edit (fun g => g = table ∨ g = s.current ∨ g ∈ s.roots) s' ∧
      s'.mem = tabledMem s pd table := by
  rw [Prog.bind_ok (writeEntry_ok hself.directory _ _)]
  generalize hs₁ : s.store s.current pd (some (setPageTable table true)) = s₁
  have hmem₁ : ∀ g j, s₁.mem g j = if g = s.current ∧ j = pd then
      some (setPageTable table true) else s.mem g j := by
    rw [← hs₁]
    exact fun _ _ => rfl
  have hedit₁ : s.Edit (fun g => g = table ∨ g = s.current ∨ g ∈ s.roots) s₁ := by
    rw [← hs₁]
    exact (Paging.Edit.refl _ s).store (.inr (.inl rfl)) _ _
  have hself₁ : s₁.SelfMapped := by
    obtain ⟨e, he, hframe⟩ := hself
    refine ⟨e, ?_, hframe.trans hedit₁.current.symm⟩
    rw [hmem₁, if_neg fun hin => hpd.ne' hin.2, hedit₁.current, he]
  obtain ⟨s₂, hs₂, hedit₂, hmem₂⟩ := clearTable_ok hself₁
    (show table ≠ s₁.current by rwa [hedit₁.current])
      ((hmem₁ _ _).trans (if_pos ⟨hedit₁.current, rfl⟩))
    (setPageTable_frame htable true)
  rw [Prog.bind_ok hs₂]
  have hedit : s.Edit (fun g => g = table ∨ g = s.current ∨ g ∈ s.roots) s₂ :=
    hedit₁.trans (hedit₂.mono fun _ hg => .inl hg)
  unfold shareTable
  by_cases hkernel : kernelSplit ≤ pd ∧ pd < tempPdSlot
  · rw [if_pos hkernel]
    have hself₂ : s₂.SelfMapped := by
      obtain ⟨e, he, hframe⟩ := hself₁
      refine ⟨e, ?_, by rw [hframe, hedit₂.current]⟩
      rw [hmem₂, hedit₂.current, if_neg fun hin => hne (hin.1.symm.trans hedit₁.current), he]
    obtain ⟨s₃, hs₃, hedit₃, hmem₃⟩ := propagateKernelPde_ok hself₂
      (by rwa [hedit.roots]) hkernel.2
    refine ⟨s₃, by rw [Prog.bind_ok hs₃]; rfl, hedit.trans (hedit₃.mono ?_), ?_⟩
    · intro g hg
      rw [hedit.roots, hedit.current] at hg
      exact .inr hg.symm
    · funext g j
      rw [hmem₃, hedit.current, hedit.roots, hmem₂, hmem₂, hmem₁, hmem₁]
      unfold tabledMem
      have hpd' : pd ≠ tempPdSlot := ne_of_lt hkernel.2
      by_cases hg : g = table
      · subst hg
        simp only [hne, hnot, false_and, and_false, if_false, true_and, ne_eq, not_false_eq_true,
          or_self]
      · have hne' : ¬s.current = table := fun h => hne h.symm
        simp only [hg, hne', hkernel]
        by_cases hj : j = pd
        · subst hj
          by_cases hcur : g = s.current <;> by_cases hin : g ∈ s.roots <;>
            simp [hcur, hpd']
        · simp [hj]
  · rw [if_neg hkernel]
    refine ⟨s₂, rfl, hedit, ?_⟩
    funext g j
    rw [hmem₂, hmem₁]
    unfold tabledMem
    split_ifs <;> first | rfl | omega

theorem requireTable_new (hself : s.SelfMapped)
    (halign : ∀ r ∈ s.roots, r % pageSize = 0) (hpd : pd < recursiveSlot)
    (hnone : s.mem s.current pd = none) (hf : pickFrames s.used s.maxFrames 1 = some f)
    (h0 : f * pageSize ≠ 0) (hne : f * pageSize ≠ s.current) (hnot : f * pageSize ∉ s.roots) :
    ∃ s', requireTable pd s = (.ok true, s') ∧ s'.mem = tabledMem s pd (f * pageSize) ∧
      Paging.Edit (fun g => g = f * pageSize ∨ g = s.current ∨ g ∈ s.roots)
        { s with used := fun k => s.used k || decide (k = f) } s' := by
  unfold requireTable
  rw [Prog.bind_ok (readEntry_ok hself.directory pd), hnone]
  dsimp only
  rw [Prog.bind_ok (allocateFrame_some hf), if_neg h0]
  obtain ⟨s', hs', hedit, hmem⟩ := newTable_ok
    (s := { s with used := fun k => s.used k || decide (k = f) }) hself halign hpd
    (Nat.mul_mod_left f pageSize) hne hnot
  exact ⟨s', hs', hmem, hedit⟩

theorem requireTable_cases (hself : s.SelfMapped)
    (halign : ∀ r ∈ s.roots, r % pageSize = 0) (hpd : pd < recursiveSlot)
    (hfresh : ∀ f, s.used f = false → f * pageSize ≠ s.current ∧ f * pageSize ∉ s.roots) :
    (∃ e, s.mem s.current pd = some e ∧ requireTable pd s = (.ok true, s)) ∨
    (∃ used', requireTable pd s = (.ok false, { s with used := used' }) ∧
      ∀ k, s.used k = true → used' k = true) ∨
    (∃ f s', s.mem s.current pd = none ∧ s.used f = false ∧
      requireTable pd s = (.ok true, s') ∧ s'.mem = tabledMem s pd (f * pageSize) ∧
      Paging.Edit (fun g => g = f * pageSize ∨ g = s.current ∨ g ∈ s.roots)
        { s with used := fun k => s.used k || decide (k = f) } s') := by
  have hread := readEntry_ok hself.directory pd
  rcases he : s.mem s.current pd with _ | e
  · refine .inr ?_
    rw [he] at hread
    rcases hf : pickFrames s.used s.maxFrames 1 with _ | f
    · refine .inl ⟨s.used, ?_, fun _ hk => hk⟩
      unfold requireTable
      rw [Prog.bind_ok hread]
      dsimp only
      rw [Prog.bind_ok (allocateFrame_none hf), if_pos rfl, Prog.pure_apply]
    by_cases h0 : f * pageSize = 0
    · -- Frame 0 is lost: its address reads as a failure.
      refine .inl ⟨fun k => s.used k || decide (k = f), ?_, fun k hk => by simp [hk]⟩
      unfold requireTable
      rw [Prog.bind_ok hread]
      dsimp only
      rw [Prog.bind_ok (allocateFrame_some hf), if_pos h0, Prog.pure_apply]
    · have hfree : s.used f = false := pickFrames_free hf f (le_refl f) (by omega)
      obtain ⟨hne, hnot⟩ := hfresh f hfree
      obtain ⟨s', hs', hmem, hedit⟩ := requireTable_new hself halign hpd he hf h0 hne hnot
      exact .inr ⟨f, s', rfl, hfree, hs', hmem, hedit⟩
  · refine .inl ⟨e, rfl, ?_⟩
    unfold requireTable
    rw [Prog.bind_ok hread, he]
    rfl

/-- The first page under a directory slot. -/
theorem mapPage_new (hself : s.SelfMapped) (halign : ∀ r ∈ s.roots, r % pageSize = 0) {virt : Nat}
    (hpd : pdIndex (pageOf virt) < recursiveSlot)
    (hnone : s.mem s.current (pdIndex (pageOf virt)) = none)
    (hf : pickFrames s.used s.maxFrames 1 = some f) (h0 : f * pageSize ≠ 0)
    (hne : f * pageSize ≠ s.current) (hnot : f * pageSize ∉ s.roots)
    (phys : Nat) (flags : ProtectFlags) :
    ∃ s', mapPage virt phys flags s = (.ok true, s') ∧
      (∀ g j, s'.mem g j = if g = f * pageSize ∧ j = pageOf virt % 1024 then
        some (Pte.setFrame phys flags)
          else tabledMem s (pdIndex (pageOf virt)) (f * pageSize) g j) ∧
      s'.used = (fun k => s.used k || decide (k = f)) ∧ s'.maxFrames = s.maxFrames ∧
      s'.current = s.current := by
  obtain ⟨t, ht, hmem, hedit⟩ := requireTable_new hself halign hpd hnone hf h0 hne hnot
  have hcurrent : t.current = s.current := hedit.current
  have hpt : pageOf virt % 1024 < 1024 := Nat.mod_lt _ (by decide)
  unfold mapPage
  generalize pdIndex (pageOf virt) = pd at *
  have hmine : ∀ j, t.mem t.current j = if j = pd then some (setPageTable (f * pageSize) true)
      else tabledMem s pd (f * pageSize) s.current j := by
    intro j
    rw [hmem, hcurrent]
    by_cases hj : j = pd
    · rw [if_pos hj, tabledMem, if_neg fun hin => hne hin.1.symm, if_pos ⟨hj, .inl rfl⟩]
    · rw [if_neg hj]
  have hself' : t.SelfMapped := by
    obtain ⟨e, he, hframe⟩ := hself
    refine ⟨e, ?_, hframe.trans hcurrent.symm⟩
    rw [hmine, if_neg hpd.ne', tabledMem, if_neg fun hin => hne hin.1.symm,
      if_neg fun hin => hpd.ne' hin.1, if_neg fun hin => absurd hin.2.1 (by decide)]
    exact he
  have hwin : t.window pd = some (f * pageSize) := by
    rw [hself'.window, hmine, if_pos rfl, Option.map_some,
      setPageTable_frame (Nat.mul_mod_left f pageSize)]
  -- The new table has no entry yet.
  have hempty : t.mem (f * pageSize) (pageOf virt % 1024) = none := by
    rw [hmem, tabledMem, if_pos ⟨rfl, hpt⟩]
  refine ⟨t.store (f * pageSize) (pageOf virt % 1024) (some (Pte.setFrame phys flags)), ?_,
    fun g j => ?_, hedit.used, hedit.maxFrames, hcurrent⟩
  · rw [Prog.bind_ok ht, if_neg (by decide), placeEntry, Prog.bind_ok (readEntry_ok hwin _), hempty]
    dsimp only
    rw [Prog.bind_ok (writeEntry_ok hwin _ _), Prog.pure_apply]
  · rw [Paging.store_mem, hmem]

end UnDOS.Memory
