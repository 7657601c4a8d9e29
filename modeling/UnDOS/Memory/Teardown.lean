import Mathlib.Data.List.Count
import Mathlib.Data.List.Nodup
import UnDOS.Memory.Lifetime

/-!
# Tearing an Address Space Down

`destroy_user_address_space` frees the frame behind every page of every region, then the
tables of the user half, then the directory.  `destroyFrees` is the list of the frames it
hands to `HAL_PMM_FreeFrames`, in that order and read off the state before the call.

A page that is mapped outside every region keeps its frame, and a page in two regions has
its frame freed twice.  Nothing else can go wrong.
-/

namespace UnDOS.Memory

open UnDOS.Lib
open UnDOS.Kernel (KernelError)

/-! ## The frames that are freed -/

/-- The page addresses of a region, in the order in which they are visited. -/
def Vad.pages (v : Vad) : List Nat :=
  (List.range ((v.stop - v.start + pageSize - 1) / pageSize)).map fun i => v.start + i * pageSize

/-- What `HAL_VMM_GetPhysicalAddress` answers under `root`, if it is not 0. -/
def Machine.frameBehind (m : Machine) (root page : Nat) : Option Nat :=
  match m.walk root (pageOf page) with
  | none => none
  | some e => if e.frame + page % pageSize = 0 then none else some (e.frame + page % pageSize)

/-- What `destroy_user_address_space` hands to `HAL_PMM_FreeFrames`, one after another. -/
def destroyFrees (pid : Nat) (m : Machine) : List Nat :=
  let root := (m.spaces pid).translationRoot
  ((m.spaces pid).vads.postorder.flatMap Vad.pages).filterMap (m.frameBehind root) ++
    (List.range kernelSplit).filterMap (m.userHalf root).tables ++ [root]

/-- The bitmap after frames have been freed. -/
def afterFrees (used : Nat → Bool) (frees : List Nat) : Nat → Bool :=
  fun k => used k && !frees.any fun a => decide (a / pageSize = k)

def Machine.freed (m : Machine) (frees : List Nat) : Machine :=
  { m with used := afterFrees m.used frees }

theorem freed_nil (m : Machine) : m.freed [] = m := by
  have hused : afterFrees m.used [] = m.used := funext fun k => Bool.and_true _
  unfold Machine.freed
  rw [hused]

theorem freed_append (m : Machine) (l l' : List Nat) :
    (m.freed l).freed l' = m.freed (l ++ l') := by
  have hused : afterFrees (afterFrees m.used l) l' = afterFrees m.used (l ++ l') := by
    funext k
    unfold afterFrees
    rw [List.any_append, Bool.not_or, Bool.and_assoc]
  unfold Machine.freed
  rw [hused]

theorem frameBehind_freed (m : Machine) (frees : List Nat) (root : Nat) :
    (m.freed frees).frameBehind root = m.frameBehind root := by
  funext page
  unfold Machine.frameBehind Machine.freed
  rw [walk_used]

theorem pmmFreeFrames_one (a : Nat) (m : Machine) : pmmFreeFrames a 1 m =
    (.ok (), m.freed [a]) := by
  have hused : (fun k => m.used k && !decide (a / pageSize ≤ k ∧ k < a / pageSize + 1)) =
      afterFrees m.used [a] := by
    funext k
    unfold afterFrees
    rw [List.any_cons, List.any_nil, Bool.or_false]
    congr 3
    exact propext ⟨fun h => by omega, fun h => by omega⟩
  unfold Machine.freed
  rw [← hused]
  rfl

theorem freePage_run {root : Nat} {m : Machine} (hcur : m.current = root) (page : Nat) :
    freePage page m = (.ok (), m.freed (m.frameBehind root page).toList) := by
  unfold freePage Machine.frameBehind
  rcases hw : m.walk root (pageOf page) with _ | e
  · rw [Prog.bind_ok (vmmGetPhysicalAddress_none (by rw [hcur, hw]))]
    exact congrArg (Prod.mk _) (freed_nil m).symm
  · have hread : vmmGetPhysicalAddress page m = (.ok (e.frame + page % pageSize), m) := by
      unfold vmmGetPhysicalAddress
      rw [Prog.get_bind_apply, hcur, hw]
      rfl
    rw [Prog.bind_ok hread]
    by_cases hzero : e.frame + page % pageSize = 0
    · simp only [hzero]
      exact congrArg (Prod.mk _) (freed_nil m).symm
    · simp only [hzero, ne_eq]
      exact pmmFreeFrames_one _ _

theorem freeRegionPages_run {root : Nat} {m : Machine} (hcur : m.current = root) (start n : Nat) :
    Prog.forRange n (fun i => freePage (start + i * pageSize)) m = (.ok (), m.freed
        (((List.range n).map fun i => start + i * pageSize).filterMap (m.frameBehind root))) := by
  induction n with
  | zero => exact congrArg (Prod.mk _) (freed_nil m).symm
  | succ n ih =>
    unfold Prog.forRange
    rw [Prog.bind_ok ih, freePage_run (by exact hcur), frameBehind_freed, freed_append,
      List.range_succ, List.map_append]
    cases hframe : m.frameBehind root (start + n * pageSize) with
    | none => simp [hframe]
    | some a => simp [hframe]

theorem freeVads_run {root : Nat} {m : Machine} (hcur : m.current = root) (vads : List Vad) :
    freeVads vads m =
      (.ok (), m.freed ((vads.flatMap Vad.pages).filterMap (m.frameBehind root))) := by
  induction vads generalizing m with
  | nil => exact congrArg (Prod.mk _) (freed_nil m).symm
  | cons v rest ih =>
    unfold freeVads
    rw [Prog.bind_ok (freeRegionPages_run hcur _ _), ih (by exact hcur),
      freed_append, List.flatMap_cons, List.filterMap_append]
    rfl

theorem reclaimSlots_run (root n : Nat) (m : Machine) :
    ∃ m', Prog.forRange n (reclaimSlot root) m = (.ok (), m') ∧
      m'.used = (m.freed ((List.range n).filterMap (m.userHalf root).tables)).used ∧
      m'.current = m.current ∧
      ∀ pd, n ≤ pd → (m'.userHalf root).tables pd = (m.userHalf root).tables pd := by
  refine Prog.forRange_ok n (reclaimSlot root) (fun i t =>
    t.used = (m.freed ((List.range i).filterMap (m.userHalf root).tables)).used ∧
      t.current = m.current ∧
      ∀ pd, i ≤ pd → (t.userHalf root).tables pd = (m.userHalf root).tables pd) ?_ ?_
  · exact ⟨by rw [List.range_zero, List.filterMap_nil, freed_nil], rfl, fun _ _ => rfl⟩
  · rintro i - t ⟨hused, hcur, htables⟩
    unfold reclaimSlot
    rw [Prog.get_bind_apply, List.range_succ, List.filterMap_append]
    rcases ht : (m.userHalf root).tables i with _ | phys
    · rw [htables i (le_refl i), ht]
      refine ⟨t, rfl, ?_, hcur, fun pd hpd => htables pd (Nat.le_of_succ_le hpd)⟩
      simpa [ht] using hused
    · rw [htables i (le_refl i), ht]
      dsimp only
      rw [Prog.bind_ok (pmmFreeFrames_one phys t)]
      refine ⟨_, rfl, ?_, hcur, ?_⟩
      · rw [← freed_append]
        simp only [List.filterMap_cons, ht, List.filterMap_nil]
        unfold Machine.freed at hused ⊢
        rw [hused]
      · intro pd hpd
        show ((if root = root then _ else _ : PageTables)).tables pd = _
        rw [if_pos rfl]
        show (if pd = i then none else (t.userHalf root).tables pd) = _
        rw [if_neg (by omega), htables pd (Nat.le_of_succ_le hpd)]

theorem vmmDestroyAddressSpace_run {root : Nat} (hroot : root ≠ 0) (m : Machine) :
    ∃ m', vmmDestroyAddressSpace root m = (.ok (), m') ∧ m'.used = (m.freed
        ((List.range kernelSplit).filterMap (m.userHalf root).tables ++ [root])).used := by
  unfold vmmDestroyAddressSpace
  rw [if_neg hroot]
  obtain ⟨m₁, hslots, hused, -⟩ := reclaimSlots_run root kernelSplit m
  rw [Prog.bind_ok hslots, Prog.modify_bind_apply, pmmFreeFrames_one]
  refine ⟨_, rfl, ?_⟩
  rw [← freed_append]
  unfold Machine.freed at hused ⊢
  rw [hused]

/-- What the bitmap is after the frees, in the order in which they happen. -/
theorem destroyUserAddressSpace_run {pid : Nat} {m : Machine}
    (hzero : (m.spaces pid).translationRoot ≠ 0)
    (hvalid : (m.spaces pid).translationRoot ≠ uintptrMax) :
    ∃ m', destroyUserAddressSpace pid m = (.ok (), m') ∧
      m'.used = afterFrees m.used (destroyFrees pid m) := by
  have hroot : ¬((m.spaces pid).translationRoot = 0 ∨
      (m.spaces pid).translationRoot = uintptrMax) := fun h => h.elim hzero hvalid
  unfold destroyUserAddressSpace
  rw [Prog.get_bind_apply, if_neg hroot]
  unfold vmmSwitchAddressSpace
  rw [Prog.modify_bind_apply, Prog.bind_ok (freeVads_run rfl _), Prog.modify_bind_apply]
  obtain ⟨m₁, hdestroy, hused⟩ := vmmDestroyAddressSpace_run hzero _
  rw [Prog.bind_ok hdestroy]
  refine ⟨_, rfl, ?_⟩
  show m₁.used = _
  rw [hused]
  have happend := freed_append m (((m.spaces pid).vads.postorder.flatMap Vad.pages).filterMap
    (m.frameBehind (m.spaces pid).translationRoot))
    ((List.range kernelSplit).filterMap (m.userHalf (m.spaces pid).translationRoot).tables ++
      [(m.spaces pid).translationRoot])
  have hlist := congrArg Machine.used happend
  rw [← List.append_assoc] at hlist
  exact hlist

/-! ## Slots that are visited -/

/-- The slots whose frames are freed. -/
def destroySlots (as : AddressSpace) : List Slot :=
  (as.vads.postorder.flatMap Vad.pages).map (fun a => .page (pageOf a)) ++
    (List.range kernelSplit).map .table ++ [.directory]

theorem mem_pages {v : Vad} {p : Nat} (h : v.start % pageSize = 0) :
    p ∈ v.pages.map pageOf ↔ v.contains (p * pageSize) = true := by
  unfold Vad.pages Vad.contains
  rw [List.map_map, List.mem_map, decide_eq_true_eq]
  constructor
  · rintro ⟨i, hi, rfl⟩
    rw [List.mem_range] at hi
    dsimp only [Function.comp]
    unfold pageOf pageSize at *
    omega
  · rintro ⟨hlo, hhi⟩
    refine ⟨p - pageOf v.start, ?_, ?_⟩
    · rw [List.mem_range]
      unfold pageOf pageSize at *
      omega
    · dsimp only [Function.comp]
      unfold pageOf pageSize at *
      omega

theorem pages_nodup (v : Vad) : (v.pages.map pageOf).Nodup := by
  unfold Vad.pages
  rw [List.map_map]
  refine List.Nodup.map ?_ List.nodup_range
  intro i j hij
  dsimp only [Function.comp] at hij
  rw [pageOf_add_mul, pageOf_add_mul] at hij
  omega

theorem count_pages {vads : List Vad} (h : ∀ v ∈ vads, v.start % pageSize = 0) (p : Nat) :
    ((vads.flatMap Vad.pages).map pageOf).count p =
      vads.countP fun v => v.contains (p * pageSize) := by
  induction vads with
  | nil => rfl
  | cons v rest ih =>
    rw [List.flatMap_cons, List.map_append, List.count_append, List.countP_cons,
      ih fun w hw => h w (.tail _ hw), add_comm]
    congr 1
    have hmem := mem_pages (p := p) (h v (.head _))
    split
    · rename_i hin
      exact List.count_eq_one_of_mem (pages_nodup v) (hmem.2 hin)
    · rename_i hout
      exact List.count_eq_zero_of_not_mem fun hin => hout (hmem.1 hin)

theorem count_destroySlots {as : AddressSpace} (h : ∀ v ∈ as.vads.inorder, v.start % pageSize = 0)
    (s : Slot) : (destroySlots as).count s = match s with
      | .directory => 1
      | .table pd => if pd < kernelSplit then 1 else 0
      | .page p => as.vads.inorder.countP fun v => v.contains (p * pageSize) := by
  have hstarts : ∀ v ∈ as.vads.postorder, v.start % pageSize = 0 :=
    fun v hv => h v (as.vads.postorder_perm.mem_iff.1 hv)
  have hpage : Function.Injective Slot.page := fun _ _ => Slot.page.inj
  have htable : Function.Injective Slot.table := fun _ _ => Slot.table.inj
  have hpages : (as.vads.postorder.flatMap Vad.pages).map (fun a => Slot.page (pageOf a)) =
      ((as.vads.postorder.flatMap Vad.pages).map pageOf).map .page := by
    rw [List.map_map]
    rfl
  unfold destroySlots
  rw [List.count_append, List.count_append, hpages]
  cases s with
  | directory => simp [List.count_eq_zero]
  | table pd =>
    rw [List.count_map_of_injective _ _ htable]
    simp [List.count_eq_zero]
  | page p =>
    rw [List.count_map_of_injective _ _ hpage, count_pages hstarts,
      as.vads.postorder_perm.countP_eq]
    simp [List.count_eq_zero]

/-! ## What comes back -/

/-- Every mapped page of the user half lies in exactly one region. -/
def CoveredOnce (pid : Nat) (m : Machine) : Prop :=
  ∀ p, pdIndex p < kernelSplit → m.walk (m.spaces pid).translationRoot p ≠ none →
    (m.spaces pid).vads.inorder.countP (fun v => v.contains (p * pageSize)) = 1

/-- A frame of the kernel half, and of no slot of the process. -/
def KernelsAlone (root : Nat) (m : Machine) (a : Nat) : Prop :=
  (∃ s, s ∉ userSlots ∧ m.holder root s = some a) ∧ ∀ s ∈ userSlots, m.holder root s ≠ some a

/-- The frames of the address space have gone back: `before` is the state before its
creation, `m` the state before its end and `m'` the state after it.  What is in use in
addition is the kernel heap's: slabs and the tables that map them. -/
structure Returned (pid : Nat) (before m m' : Machine) : Prop where
  kept : ∀ a ∈ usedFrames before, a ∈ usedFrames m'
  rest : ∀ a ∈ usedFrames m', a ∈ usedFrames before ∨
    KernelsAlone (m.spaces pid).translationRoot m a
  taken : ∀ a ∈ destroyFrees pid m, a ∈ usedFrames m
  once : (destroyFrees pid m).Nodup

theorem mem_usedFrames_freed {m m' : Machine} {frees : List Nat}
    (hused : m'.used = afterFrees m.used frees) (haligned : ∀ a ∈ frees, ∃ f, a = f * pageSize)
    {a : Nat} : a ∈ usedFrames m' ↔ a ∈ usedFrames m ∧ a ∉ frees := by
  have hframe : ∀ f, (frees.any fun b => decide (b / pageSize = f)) = true ↔
      f * pageSize ∈ frees := by
    intro f
    rw [List.any_eq_true]
    constructor
    · rintro ⟨b, hb, hf⟩
      obtain ⟨g, rfl⟩ := haligned b hb
      rw [decide_eq_true_eq, Nat.mul_div_cancel _ (by decide)] at hf
      rwa [← hf]
    · intro hin
      exact ⟨_, hin, by rw [decide_eq_true_eq, Nat.mul_div_cancel _ (by decide)]⟩
  have hiff : ∀ f, m'.used f = true ↔ m.used f = true ∧ f * pageSize ∉ frees := by
    intro f
    rw [hused]
    unfold afterFrees
    rw [Bool.and_eq_true, Bool.not_eq_true', Bool.eq_false_iff, ne_eq, hframe]
  constructor
  · rintro ⟨f, rfl, hf⟩
    obtain ⟨hin, hout⟩ := (hiff f).1 hf
    exact ⟨⟨f, rfl, hin⟩, hout⟩
  · rintro ⟨⟨f, rfl, hf⟩, hout⟩
    exact ⟨f, rfl, (hiff f).2 ⟨hf, hout⟩⟩

namespace Book

variable {old : Set Nat} {root pid : Nat} {m m' : Machine}

theorem destroySlots_mine (h : Book old root pid ∅ m) {s : Slot}
    (hs : s ∈ destroySlots (m.spaces pid)) : s ∈ userSlots := by
  rcases List.mem_append.1 hs with hs | hs
  · rcases List.mem_append.1 hs with hs | hs
    · obtain ⟨a, ha, rfl⟩ := List.mem_map.1 hs
      obtain ⟨v, hv, hin⟩ := List.mem_flatMap.1 ha
      obtain ⟨i, hi, rfl⟩ := List.mem_map.1 hin
      exact (h.regionPage ((VadTree.postorder_perm _).mem_iff.1 hv) (List.mem_range.1 hi)).2
    · obtain ⟨pd, hpd, rfl⟩ := List.mem_map.1 hs
      exact List.mem_range.1 hpd
  · rw [List.mem_singleton.1 hs]
    trivial

theorem frameBehind_eq (h : Book old root pid ∅ m) {a : Nat}
    (ha : a ∈ (m.spaces pid).vads.postorder.flatMap Vad.pages) :
    m.frameBehind root a = m.holder root (.page (pageOf a)) := by
  obtain ⟨v, hv, hin⟩ := List.mem_flatMap.1 ha
  obtain ⟨i, hi, rfl⟩ := List.mem_map.1 hin
  obtain ⟨haligned, hlow⟩ :=
    h.regionPage ((VadTree.postorder_perm _).mem_iff.1 hv) (List.mem_range.1 hi)
  rw [← walk_eq_holder (low_lt_temp hlow)]
  unfold Machine.frameBehind
  rcases hw : m.walk root (pageOf (v.start + i * pageSize)) with _ | e
  · rfl
  · have hheld : m.holder root (.page (pageOf (v.start + i * pageSize))) = some e.frame := by
      rw [← walk_eq_holder (low_lt_temp hlow), hw]
      rfl
    dsimp only [Option.map_some]
    rw [haligned, add_zero, if_neg (h.holder_ne_zero hlow hheld)]

theorem destroyFrees_eq (h : Book old root pid ∅ m) :
    destroyFrees pid m = (destroySlots (m.spaces pid)).filterMap (m.holder root) := by
  unfold destroyFrees destroySlots
  rw [h.space.root, List.filterMap_append, List.filterMap_append, List.filterMap_map,
    List.filterMap_map]
  refine congrArg₂ _ (congrArg₂ _ ?_ ?_) rfl
  · exact List.filterMap_congr fun a ha => h.frameBehind_eq ha
  · apply List.filterMap_congr
    intro pd hpd
    dsimp only [Function.comp, Machine.holder, Machine.half]
    rw [if_pos (List.mem_range.1 hpd)]

theorem mem_destroyFrees (h : Book old root pid ∅ m) {a : Nat} :
    a ∈ destroyFrees pid m ↔ ∃ s ∈ destroySlots (m.spaces pid), m.holder root s = some a := by
  rw [h.destroyFrees_eq, List.mem_filterMap]

theorem count_destroyFrees (h : Book old root pid ∅ m) {s : Slot} (hs : s ∈ userSlots) {a : Nat}
    (ha : m.holder root s = some a) :
    (destroyFrees pid m).count a = (destroySlots (m.spaces pid)).count s := by
  rw [h.destroyFrees_eq, List.count_filterMap]
  apply List.countP_congr
  intro t ht
  rw [beq_iff_eq, beq_iff_eq]
  constructor
  · intro htest
    exact h.owns.apart t (h.destroySlots_mine ht) s hs a htest ha
  · rintro rfl
    exact ha

/-- The address space gives everything back exactly when every mapped page of it lies in
one region. -/
theorem returned_iff {before : Machine} (h : Book (usedFrames before) root pid ∅ m)
    (hused : m'.used = afterFrees m.used (destroyFrees pid m)) :
    Returned pid before m m' ↔ CoveredOnce pid m := by
  have hstarts : ∀ v ∈ (m.spaces pid).vads.inorder, v.start % pageSize = 0 :=
    fun v hv => (h.space.regions v hv).1
  have hheld : ∀ a ∈ destroyFrees pid m, a ∈ usedFrames m ∧ a ∉ usedFrames before := by
    intro a ha
    obtain ⟨s, hs, hholder⟩ := h.mem_destroyFrees.1 ha
    exact h.owns.held s (h.destroySlots_mine hs) a hholder
  have haligned : ∀ a ∈ destroyFrees pid m, ∃ f, a = f * pageSize := by
    intro a ha
    obtain ⟨f, hf, -⟩ := (hheld a ha).1
    exact ⟨f, hf⟩
  have hcount : ∀ {s a}, s ∈ userSlots → m.holder root s = some a →
      (destroyFrees pid m).count a = _ := fun hs ha =>
    (h.count_destroyFrees hs ha).trans (count_destroySlots hstarts _)
  constructor
  · intro hback p hlow hmapped
    rw [h.space.root] at hmapped
    obtain ⟨e, he⟩ := Option.ne_none_iff_exists'.1 hmapped
    have ha : m.holder root (.page p) = some e.frame := by
      rw [← walk_eq_holder (low_lt_temp hlow), he]
      rfl
    have honce := hcount (s := .page p) hlow ha
    dsimp only at honce
    rw [← honce]
    apply le_antisymm (List.nodup_iff_count_le_one.1 hback.once _)
    -- A frame that is not freed would be left in use.
    rw [Nat.succ_le_iff, List.count_pos_iff]
    by_contra hout
    obtain ⟨hin, hnew⟩ := h.owns.held (.page p) hlow _ ha
    rcases hback.rest _ ((mem_usedFrames_freed hused haligned).2 ⟨hin, hout⟩) with hold | halone
    · exact hnew hold
    · rw [h.space.root] at halone
      exact halone.2 (.page p) hlow ha
  · intro hcovered
    have hfreed : ∀ {s a}, s ∈ userSlots → m.holder root s = some a →
        (destroyFrees pid m).count a = 1 := by
      intro s a hs ha
      rw [hcount hs ha]
      cases s with
      | directory => rfl
      | table pd => exact if_pos hs
      | page p =>
        apply hcovered p hs
        rw [h.space.root]
        intro hnone
        rw [← walk_eq_holder (low_lt_temp hs), hnone] at ha
        cases ha
    refine ⟨?_, ?_, fun a ha => (hheld a ha).1, ?_⟩
    · intro a ha
      exact (mem_usedFrames_freed hused haligned).2
        ⟨h.owns.kept a ha, fun hin => (hheld a hin).2 ha⟩
    · intro a ha
      obtain ⟨hin, hout⟩ := (mem_usedFrames_freed hused haligned).1 ha
      have hothers : ∀ s ∈ userSlots, m.holder root s ≠ some a := by
        intro s hs hholder
        apply hout
        rw [← List.count_pos_iff, hfreed hs hholder]
        exact one_pos
      rcases h.owns.complete a hin with hold | ⟨s, hs⟩ | hhand
      · exact .inl hold
      · refine .inr ?_
        rw [h.space.root]
        exact ⟨⟨s, fun hmine => hothers s hmine hs, hs⟩, hothers⟩
      · exact hhand.elim
    · rw [List.nodup_iff_count_le_one]
      intro a
      by_cases ha : a ∈ destroyFrees pid m
      · obtain ⟨s, hs, hholder⟩ := h.mem_destroyFrees.1 ha
        exact le_of_eq (hfreed (h.destroySlots_mine hs) hholder)
      · rw [List.count_eq_zero_of_not_mem ha]
        exact Nat.zero_le 1

end Book

/-- Every run of calls on a new address space, and then its end: the frames come back, each
of them freed once, exactly when every page that is still mapped lies in one region. -/
theorem address_space_returned {before start : Machine} {pid : Nat} (hready : Ready before)
    (hcreate : createUserAddressSpace pid before = (.ok (), start))
    {run : List (SpaceCall × Machine)} (hrun : Run (SpaceCall.FittingStep pid) start run) :
    ∃ m', destroyUserAddressSpace pid (lastState start run) = (.ok (), m') ∧
      (Returned pid before (lastState start run) m' ↔ CoveredOnce pid (lastState start run)) := by
  have hbook := Run.invariant (Book.create hready hcreate)
    (fun _ _ _ h hstep => h.step hstep) hrun
  obtain ⟨f, hroot, -⟩ := (hbook.owns.held .directory trivial _ rfl).1
  have hzero : ((lastState start run).spaces pid).translationRoot ≠ 0 := by
    rw [hbook.space.root]
    exact hbook.nonzero
  have hvalid : ((lastState start run).spaces pid).translationRoot ≠ uintptrMax := by
    rw [hbook.space.root, hroot]
    unfold pageSize uintptrMax
    omega
  obtain ⟨m', hdestroy, hused⟩ := destroyUserAddressSpace_run hzero hvalid
  exact ⟨m', hdestroy, hbook.returned_iff hused⟩

/-! ## An image that stays behind -/

/-- The machine of `smallMachine` before process 1 has an address space. -/
def idleMachine : Machine := { smallMachine with spaces := fun _ => {} }

theorem idleMachine_ready : Ready idleMachine where
  zero := rfl
  high := by
    unfold KernelHigh
    decide
  aligned := by decide
  clear := fun _ _ _ => rfl

/-- With a new address space for process 1, whose directory is frame 2. -/
def createdMachine : Machine := (createUserAddressSpace 1 idleMachine).2

/-- One call on that address space. -/
def afterCall (c : SpaceCall) (m : Machine) : Machine := (c.next 1 m).getD m

/-- The first page of a region of two, mapped by a fault. -/
def faultedMachine : Machine :=
  afterCall (.fault ⟨0x10000000, true, true, false⟩)
    (afterCall (.switchTo 0x2000) (afterCall (.allocateUserData 0x2000 (.ok ())) createdMachine))

theorem faultedMachine_half : faultedMachine.userHalf 0x2000 =
    (PageTables.empty.newTable 64 0x4000).setEntry 0x10000
      (some (Pte.setFrame 0x3000 (ProtectFlags.readWrite.or ProtectFlags.onlyUser))) := rfl

theorem faultedMachine_covered : CoveredOnce 1 faultedMachine := by
  intro p hlow hmapped
  replace hmapped : faultedMachine.walk 0x2000 p ≠ none := hmapped
  rw [walk_eq_lookup (low_lt_temp hlow)] at hmapped
  unfold Machine.half at hmapped
  rw [if_pos hlow, faultedMachine_half] at hmapped
  have hpage : p = 0x10000 := by
    by_contra hne
    rw [lookup_setEntry_of_ne hne] at hmapped
    exact hmapped (lookup_newTable rfl)
  subst hpage
  rfl

/-- A demand-mapped page comes back. -/
theorem address_space_returned_faulted : ∃ m',
    destroyUserAddressSpace 1 faultedMachine = (.ok (), m') ∧
      Returned 1 idleMachine faultedMachine m' := by
  have hrun : Run (SpaceCall.FittingStep 1) createdMachine
      [(.fault ⟨0x10000000, true, true, false⟩, faultedMachine),
        (.switchTo 0x2000, afterCall (.switchTo 0x2000)
          (afterCall (.allocateUserData 0x2000 (.ok ())) createdMachine)),
        (.allocateUserData 0x2000 (.ok ()),
          afterCall (.allocateUserData 0x2000 (.ok ())) createdMachine)] :=
    Run.cons (Run.cons (Run.cons Run.nil ⟨trivial, trivial, rfl⟩) ⟨trivial, trivial, rfl⟩)
      ⟨trivial, ⟨rfl, rfl⟩, rfl⟩
  obtain ⟨m', hdestroy, hiff⟩ := address_space_returned idleMachine_ready
    (show createUserAddressSpace 1 idleMachine = (.ok (), createdMachine) from rfl) hrun
  exact ⟨m', hdestroy, hiff.2 faultedMachine_covered⟩

/-- The executable of one page at 4 MiB, loaded into the new address space. -/
def loadedMachine : Machine := afterCall (.loadImage (smallExecutable 0x400000)) createdMachine

/-- The page of the image is in no region, so its frame is still in use in the end. -/
theorem image_frames_left_behind : Ready idleMachine ∧
    createUserAddressSpace 1 idleMachine = (.ok (), createdMachine) ∧
    Run (SpaceCall.LegalStep 1) createdMachine
      [(.loadImage (smallExecutable 0x400000), loadedMachine)] ∧
    ∃ m', destroyUserAddressSpace 1 loadedMachine = (.ok (), m') ∧
      ¬Returned 1 idleMachine loadedMachine m' := by
  refine ⟨idleMachine_ready, rfl, Run.cons Run.nil ⟨trivial, rfl⟩, ?_⟩
  have hroot : (loadedMachine.spaces 1).translationRoot = 0x2000 := by decide +kernel
  obtain ⟨m', hdestroy, hused⟩ :=
    destroyUserAddressSpace_run (hroot.trans_ne (by decide)) (hroot.trans_ne (by decide))
  refine ⟨m', hdestroy, ?_⟩
  intro hback
  have hleft : (0x3000 : Nat) ∈ usedFrames m' := by
    refine ⟨3, by decide, ?_⟩
    rw [hused]
    decide +kernel
  rcases hback.rest _ hleft with ⟨f, hf, hold⟩ | halone
  · obtain rfl : f = 3 := by
      unfold pageSize at hf
      omega
    cases hold
  · exact halone.2 (.page 0x400) (show pdIndex 0x400 < kernelSplit by decide) (by decide +kernel)

end UnDOS.Memory
