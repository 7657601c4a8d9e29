import UnDOS.Lib.Ledger
import UnDOS.Memory.Regions
import UnDOS.Memory.Segments

/-!
# Who Holds a Frame

The frames of an address space are held by its page directory, by the page tables of its
user half and by its pages.  The kernel half is shared: what its tables and pages hold is
the kernel heap's and stays when the address space goes.

`Owns old root hand m` is the ledger of the frames that were taken since the state in
which the frames `old` were in use, for the directory `root`.  Frames are named by their
physical address.
-/

namespace UnDOS.Memory

open UnDOS.Lib
open UnDOS.Kernel (KernelError)

/-! ## Slots -/

/-- Where a frame is held. -/
inductive Slot where
  | directory
  | table (pd : Nat)
  | page (p : Nat)
deriving DecidableEq

/-- What a slot holds under the directory `root`. -/
def Machine.holder (m : Machine) (root : Nat) : Slot → Option Nat
  | .directory => some root
  | .table pd => (m.half root pd).tables pd
  | .page p => ((m.half root (pdIndex p)).lookup p).map Pte.frame

/-- The slots of the address space itself. -/
def userSlots : Set Slot := fun s =>
  match s with
  | .directory => True
  | .table pd => pd < kernelSplit
  | .page p => pdIndex p < kernelSplit

/-- The frames in use, by address. -/
def usedFrames (m : Machine) : Set Nat := fun a => ∃ f, a = f * pageSize ∧ m.used f = true

/-- The addresses of a run of frames. -/
def frameRun (phys count : Nat) : Set Nat := fun a => ∃ i, i < count ∧ a = phys + i * pageSize

/-- A routine works on the directory `root`, or on the kernel half that all of them share. -/
def Reaches (root current page : Nat) : Prop := pdIndex page < kernelSplit → current = root

def Owns (old : Set Nat) (root : Nat) (hand : Set Nat) (m : Machine) : Prop :=
  Ledger old userSlots (usedFrames m) (m.holder root) hand

/-! ## Halves and slots -/

variable {m : Machine} {root page f count phys : Nat}

theorem holder_setHalf {pd : Nat} {t : PageTables} {s : Slot}
    (htables : ∀ pd', s = .table pd' → t.tables pd' = (m.half m.current pd).tables pd')
    (hpages : ∀ p, s = .page p → t.lookup p = (m.half m.current pd).lookup p) :
    (m.setHalf m.current pd t).holder root s = m.holder root s := by
  cases s with
  | directory => rfl
  | table pd' =>
    dsimp only [Machine.holder]
    by_cases hs : SameHalf m.current pd root pd'
    · rw [half_setHalf_same t hs, htables pd' rfl, half_congr hs]
    · rw [half_setHalf_other t hs]
  | page p =>
    dsimp only [Machine.holder]
    by_cases hs : SameHalf m.current pd root (pdIndex p)
    · rw [half_setHalf_same t hs, hpages p rfl, half_congr hs]
    · rw [half_setHalf_other t hs]

theorem Reaches.sameHalf {current : Nat} (h : Reaches root current page) :
    SameHalf current (pdIndex page) root (pdIndex page) := by
  tauto

theorem Reaches.of_kernel (root current : Nat) (h : ¬pdIndex page < kernelSplit) :
    Reaches root current page := fun hlow => absurd hlow h

theorem half_eq (h : Reaches root m.current page) :
    m.half m.current (pdIndex page) = m.half root (pdIndex page) :=
  (half_congr h.sameHalf).symm

theorem walk_eq_holder (hpd : pdIndex page < tempPdSlot) :
    (m.walk root page).map Pte.frame = m.holder root (.page page) := by
  rw [walk_eq_lookup hpd]
  rfl

/-! ## Runs of frames -/

theorem mem_frameRun {g : Nat} :
    g * pageSize ∈ frameRun (f * pageSize) count ↔ f ≤ g ∧ g < f + count := by
  constructor
  · rintro ⟨i, hi, heq⟩
    unfold pageSize at heq
    omega
  · rintro ⟨hlo, hhi⟩
    refine ⟨g - f, by omega, ?_⟩
    rw [← add_mul]
    congr 1
    omega

theorem frameRun_aligned {a : Nat} (h : a ∈ frameRun (f * pageSize) count) :
    ∃ g, a = g * pageSize := by
  obtain ⟨i, -, rfl⟩ := h
  exact ⟨f + i, by rw [add_mul]⟩

theorem frameRun_one (a : Nat) : frameRun a 1 = {a} := by
  ext b
  constructor
  · rintro ⟨i, hi, rfl⟩
    obtain rfl : i = 0 := by omega
    exact Set.mem_singleton_iff.2 (by omega)
  · rintro rfl
    exact ⟨0, by decide, by omega⟩

/-- The frames of a run from number `j` on. -/
def tailRun (phys j n : Nat) : Set Nat := fun a => ∃ k, j ≤ k ∧ k < n ∧ a = phys + k * pageSize

theorem tailRun_zero (phys n : Nat) : tailRun phys 0 n = frameRun phys n := by
  ext a
  constructor
  · rintro ⟨k, -, hk, rfl⟩
    exact ⟨k, hk, rfl⟩
  · rintro ⟨k, hk, rfl⟩
    exact ⟨k, Nat.zero_le k, hk, rfl⟩

theorem tailRun_self (phys n : Nat) : tailRun phys n n = ∅ := by
  ext a
  constructor
  · rintro ⟨k, hle, hlt, -⟩
    exact absurd hlt (not_lt.2 hle)
  · exact False.elim

theorem frame_inj {j k : Nat} (h : phys + j * pageSize = phys + k * pageSize) : j = k := by
  unfold pageSize at h
  omega

theorem sdiff_frameRun_succ (H : Set Nat) (phys i : Nat) :
    (H \ frameRun phys i) \ {phys + i * pageSize} = H \ frameRun phys (i + 1) := by
  ext a
  constructor
  · rintro ⟨⟨ha, hout⟩, hne⟩
    refine ⟨ha, ?_⟩
    rintro ⟨k, hk, rfl⟩
    rcases Nat.lt_succ_iff_lt_or_eq.1 hk with hk | rfl
    · exact hout ⟨k, hk, rfl⟩
    · exact hne rfl
  · rintro ⟨ha, hout⟩
    refine ⟨⟨ha, ?_⟩, ?_⟩
    · rintro ⟨k, hk, rfl⟩
      exact hout ⟨k, Nat.lt_succ_of_lt hk, rfl⟩
    · rintro rfl
      exact hout ⟨i, Nat.lt_succ_self i, rfl⟩

theorem insert_sdiff_tailRun {H : Set Nat} {j n : Nat} (hin : phys + j * pageSize ∈ H) :
    insert (phys + j * pageSize) (H \ tailRun phys j n) = H \ tailRun phys (j + 1) n := by
  ext a
  constructor
  · rintro (rfl | ⟨ha, hout⟩)
    · refine ⟨hin, ?_⟩
      rintro ⟨k, hk, -, heq⟩
      rw [frame_inj heq] at hk
      exact absurd hk (Nat.not_succ_le_self k)
    · exact ⟨ha, fun ⟨k, hk, hkn, heq⟩ => hout ⟨k, Nat.le_of_succ_le hk, hkn, heq⟩⟩
  · rintro ⟨ha, hout⟩
    by_cases hself : a = phys + j * pageSize
    · exact .inl hself
    · refine .inr ⟨ha, ?_⟩
      rintro ⟨k, hk, hkn, rfl⟩
      rcases eq_or_lt_of_le hk with rfl | hlt
      · exact hself rfl
      · exact hout ⟨k, hlt, hkn, rfl⟩

theorem usedFrames_take {u : Nat → Bool}
    (hu : ∀ k, u k = (m.used k || decide (f ≤ k ∧ k < f + count))) :
    usedFrames { m with used := u } = usedFrames m ∪ frameRun (f * pageSize) count := by
  ext a
  constructor
  · rintro ⟨g, rfl, hg⟩
    replace hg : u g = true := hg
    rw [hu, Bool.or_eq_true, decide_eq_true_eq] at hg
    rcases hg with hg | hg
    · exact .inl ⟨g, rfl, hg⟩
    · exact .inr (mem_frameRun.2 hg)
  · rintro (⟨g, rfl, hg⟩ | hin)
    · refine ⟨g, rfl, ?_⟩
      show u g = true
      rw [hu, hg, Bool.true_or]
    · obtain ⟨g, rfl⟩ := frameRun_aligned hin
      refine ⟨g, rfl, ?_⟩
      show u g = true
      rw [hu, decide_eq_true (mem_frameRun.1 hin), Bool.or_true]

theorem usedFrames_drop {u : Nat → Bool}
    (hu : ∀ k, u k = (m.used k && !decide (f ≤ k ∧ k < f + count))) :
    usedFrames { m with used := u } = usedFrames m \ frameRun (f * pageSize) count := by
  ext a
  constructor
  · rintro ⟨g, rfl, hg⟩
    replace hg : u g = true := hg
    rw [hu, Bool.and_eq_true, Bool.not_eq_true', decide_eq_false_iff_not] at hg
    exact ⟨⟨g, rfl, hg.1⟩, fun hin => hg.2 (mem_frameRun.1 hin)⟩
  · rintro ⟨⟨g, rfl, hg⟩, hout⟩
    refine ⟨g, rfl, ?_⟩
    show u g = true
    rw [hu, hg, decide_eq_false fun hin => hout (mem_frameRun.2 hin)]
    rfl

namespace Owns

variable {old hand : Set Nat} {root : Nat} {m m' : Machine}

theorem congr (h : Owns old root hand m) (hused : m'.used = m.used)
    (hhalf : m'.half root = m.half root) : Owns old root hand m' := by
  have hholder : m'.holder root = m.holder root := by
    funext s
    cases s with
    | directory => rfl
    | table pd =>
      dsimp only [Machine.holder]
      rw [hhalf]
    | page p =>
      dsimp only [Machine.holder]
      rw [hhalf]
  unfold Owns usedFrames at *
  rw [hused, hholder]
  exact h

/-! ## Frames -/

theorem allocate {count phys : Nat} (h : Owns old root hand m) (hzero : 0 ∈ old)
    (hrun : pmmAllocateFrames count m = (.ok phys, m')) : (phys = 0 ∧ m' = m) ∨
      (phys ≠ 0 ∧ Owns old root (hand ∪ frameRun phys count) m' ∧
        ∀ a ∈ frameRun phys count, a ∉ hand) := by
  unfold pmmAllocateFrames at hrun
  rcases hpick : pickFrames m.used m.maxFrames count with _ | f
  · rw [hpick] at hrun
    obtain ⟨hok, rfl⟩ := Prod.mk.inj hrun
    exact .inl ⟨(Outcome.ok.inj hok).symm, rfl⟩
  · rw [hpick] at hrun
    obtain ⟨hok, rfl⟩ := Prod.mk.inj hrun
    obtain rfl := Outcome.ok.inj hok
    have hpos : 0 < count := by
      rcases eq_zero_or_pos count with rfl | hpos
      · simp [pickFrames] at hpick
      · exact hpos
    have hunused : ∀ a ∈ frameRun (f * pageSize) count, a ∉ usedFrames m := by
      rintro a hin ⟨g, rfl, hused⟩
      obtain ⟨hlo, hhi⟩ := mem_frameRun.1 hin
      rw [pickFrames_free hpick g hlo hhi] at hused
      cases hused
    refine .inr ⟨?_, ?_, fun a ha hhand => hunused a ha (h.inHand a hhand).1⟩
    · -- Address 0 stands for failure; its frame is never free.
      intro h0
      apply hunused (f * pageSize) ⟨0, hpos, by omega⟩
      rw [h0]
      exact h.kept 0 hzero
    · have htaken := Ledger.take h hunused
      unfold Owns
      rw [usedFrames_take fun _ => rfl]
      exact htaken

theorem free {count phys : Nat} (h : Owns old root hand m)
    (hhand : ∀ a ∈ frameRun phys count, a ∈ hand)
    (hrun : pmmFreeFrames phys count m = (.ok (), m')) :
    Owns old root (hand \ frameRun phys count) m' := by
  cases hrun
  have hrun : frameRun (phys / pageSize * pageSize) count = frameRun phys count := by
    rcases eq_zero_or_pos count with rfl | hpos
    · ext a
      constructor
      · rintro ⟨i, hi, -⟩
        exact absurd hi (Nat.not_lt_zero i)
      · rintro ⟨i, hi, -⟩
        exact absurd hi (Nat.not_lt_zero i)
    · -- The run starts at the address of a frame.
      obtain ⟨f, hf, -⟩ := (h.inHand phys (hhand phys ⟨0, hpos, by omega⟩)).1
      rw [hf, Nat.mul_div_cancel _ (by decide)]
  have hback := Ledger.giveBack h hhand
  unfold Owns
  rw [usedFrames_drop fun _ => rfl, hrun]
  exact hback

/-! ## Mapping -/

theorem ensureTable {page : Nat} {ok : Bool} (h : Owns old root hand m) (hzero : 0 ∈ old)
    (hreach : Reaches root m.current page)
    (hrun : Memory.ensureTable page m = (.ok ok, m')) : Owns old root hand m' := by
  unfold Memory.ensureTable at hrun
  rw [Prog.get_bind_apply] at hrun
  rcases ht : (m.half m.current (pdIndex page)).tables (pdIndex page) with _ | t
  · rw [ht] at hrun
    rw [Prog.bind_eq_ok] at hrun
    obtain ⟨phys, m₁, hpmm, hrun⟩ := hrun
    obtain ⟨hmaps, hhalf⟩ := pmmAllocateFrames_ok hpmm
    rcases h.allocate hzero hpmm with ⟨rfl, rfl⟩ | ⟨hphys, howns, hnew⟩
    · cases hrun
      exact h
    · rw [if_neg hphys] at hrun
      cases hrun
      have hempty : (m₁.half m₁.current (pdIndex page)).tables (pdIndex page) = none := by
        rw [hhalf, hmaps.current, ht]
      rw [← hmaps.current] at hreach
      have hself : (m₁.setHalf m₁.current (pdIndex page)
          ((m₁.half m₁.current (pdIndex page)).newTable (pdIndex page) phys)).holder root
          (.table (pdIndex page)) = some phys := by
        dsimp only [Machine.holder]
        rw [half_setHalf_same _ hreach.sameHalf]
        exact if_pos rfl
      have hother : ∀ s, s ≠ Slot.table (pdIndex page) →
          (m₁.setHalf m₁.current (pdIndex page)
            ((m₁.half m₁.current (pdIndex page)).newTable (pdIndex page) phys)).holder root s =
          m₁.holder root s := by
        intro s hs
        apply holder_setHalf
        · rintro pd' rfl
          exact if_neg fun heq => hs (by rw [heq])
        · rintro p rfl
          exact lookup_newTable hempty
      rw [half_eq hreach] at hempty
      have hput := Ledger.put (s := .table (pdIndex page)) howns
        (.inr ⟨0, by decide, by omega⟩) hempty hself hother
      unfold Owns usedFrames
      rw [setHalf_used]
      rw [frameRun_one, Set.union_singleton, Set.insert_sdiff_self_of_notMem] at hput
      · exact hput
      · exact hnew phys ⟨0, by decide, by omega⟩
  · rw [ht] at hrun
    cases hrun
    exact h

end Owns

/-- Mapping a page fills its slot, or at most makes its table. -/
theorem vmmMapPage_slots {virt : Nat} {flags : ProtectFlags} {m' : Machine} {ok : Bool}
    (hreach : Reaches root m.current (pageOf virt))
    (hrun : vmmMapPage virt phys flags m = (.ok ok, m')) :
    ∃ hasTable m₁, ensureTable (pageOf virt) m = (.ok hasTable, m₁) ∧ ((ok = false ∧ m' = m₁) ∨
        (ok = true ∧ m'.used = m₁.used ∧ m₁.holder root (.page (pageOf virt)) = none ∧
          m'.holder root (.page (pageOf virt)) = some (alignDown phys) ∧
          ∀ s, s ≠ Slot.page (pageOf virt) → m'.holder root s = m₁.holder root s)) := by
  unfold vmmMapPage at hrun
  split at hrun
  · simp at hrun
  obtain ⟨hasTable, m₁, htable, hrun⟩ := Prog.bind_eq_ok.1 hrun
  obtain ⟨hmaps, -, hsome⟩ := ensureTable_ok htable
  refine ⟨hasTable, m₁, htable, ?_⟩
  cases hasTable with
  | false =>
    obtain ⟨hok, rfl⟩ := Prod.mk.inj hrun
    exact .inl ⟨(Outcome.ok.inj hok).symm, rfl⟩
  | true =>
    replace hsome := hsome rfl
    simp only [Bool.not_true, Bool.false_eq_true, if_false] at hrun
    rw [Prog.get_bind_apply] at hrun
    rw [← hmaps.current] at hreach
    rcases he : (m₁.half m₁.current (pdIndex (pageOf virt))).entries (pageOf virt) with _ | e
    · rw [he] at hrun
      obtain ⟨hok, rfl⟩ := Prod.mk.inj hrun
      refine .inr ⟨(Outcome.ok.inj hok).symm, setHalf_used _ _ _ _, ?_, ?_, ?_⟩
      · have hlookup : (m₁.half m₁.current (pdIndex (pageOf virt))).lookup (pageOf virt) =
            none := by
          unfold PageTables.lookup
          split
          · rfl
          · exact he
        dsimp only [Machine.holder]
        rw [← half_eq hreach, hlookup]
        rfl
      · dsimp only [Machine.holder]
        rw [half_setHalf_same _ hreach.sameHalf, lookup_setEntry_self hsome]
        rfl
      · intro s hs
        apply holder_setHalf
        · rintro pd' rfl
          rfl
        · rintro p rfl
          exact lookup_setEntry_of_ne fun heq => hs (by rw [heq])
    · rw [he] at hrun
      obtain ⟨hok, rfl⟩ := Prod.mk.inj hrun
      exact .inl ⟨(Outcome.ok.inj hok).symm, rfl⟩

theorem vmmUnmapPage_slots {virt : Nat} {m' : Machine}
    (hreach : Reaches root m.current (pageOf virt)) (hrun : vmmUnmapPage virt m = (.ok (), m')) :
    (m' = m ∧ m.holder root (.page (pageOf virt)) = none) ∨
      ∃ m₁, m₁.used = m.used ∧ m₁.current = m.current ∧
        m₁.holder root (.page (pageOf virt)) = none ∧
        (∀ s, s ≠ Slot.page (pageOf virt) → m₁.holder root s = m.holder root s) ∧
        reclaimTable (pdIndex (pageOf virt)) m₁ = (.ok (), m') := by
  unfold vmmUnmapPage at hrun
  split at hrun
  · simp at hrun
  rw [Prog.get_bind_apply] at hrun
  rcases ht : (m.half m.current (pdIndex (pageOf virt))).tables (pdIndex (pageOf virt)) with _ | t
  · rw [ht] at hrun
    cases hrun
    refine .inl ⟨rfl, ?_⟩
    dsimp only [Machine.holder]
    rw [← half_eq hreach]
    unfold PageTables.lookup
    rw [ht]
    rfl
  · have hsome : (m.half m.current (pdIndex (pageOf virt))).tables (pdIndex (pageOf virt)) ≠
        none := by
      rw [ht]
      simp
    rw [ht] at hrun
    refine .inr ⟨_, setHalf_used _ _ _ _, setHalf_current _ _ _ _, ?_, ?_, hrun⟩
    · dsimp only [Machine.holder]
      rw [half_setHalf_same _ hreach.sameHalf, lookup_setEntry_self hsome]
      rfl
    · intro s hs
      apply holder_setHalf
      · rintro pd' rfl
        rfl
      · rintro p rfl
        exact lookup_setEntry_of_ne fun heq => hs (by rw [heq])

namespace Owns

variable {old hand : Set Nat} {root : Nat} {m m' : Machine}

theorem aligned (h : Owns old root hand m) {a : Nat} (ha : a ∈ hand) : alignDown a = a := by
  obtain ⟨f, rfl, -⟩ := (h.inHand a ha).1
  unfold alignDown
  rw [Nat.mul_div_cancel _ (by decide)]

theorem mapPage {virt phys : Nat} {flags : ProtectFlags} {ok : Bool} (h : Owns old root hand m)
    (hzero : 0 ∈ old) (hreach : Reaches root m.current (pageOf virt)) (hphys : phys ∈ hand)
    (hrun : vmmMapPage virt phys flags m = (.ok ok, m')) :
    Owns old root (if ok then hand \ {phys} else hand) m' := by
  obtain ⟨hasTable, m₁, htable, hcases⟩ := vmmMapPage_slots hreach hrun
  have howns := h.ensureTable hzero hreach htable
  rcases hcases with ⟨rfl, rfl⟩ | ⟨rfl, hused, hempty, hself, hother⟩
  · exact howns
  · rw [h.aligned hphys] at hself
    have hput := Ledger.put howns hphys hempty hself hother
    unfold Owns usedFrames
    rw [hused]
    exact hput

theorem mapKernelPage {virt phys : Nat} {flags : ProtectFlags} {ok : Bool}
    (h : Owns old root hand m) (hzero : 0 ∈ old) (hkernel : ¬pdIndex (pageOf virt) < kernelSplit)
    (hrun : vmmMapPage virt phys flags m = (.ok ok, m')) : Owns old root hand m' := by
  have hreach := Reaches.of_kernel root m.current hkernel
  obtain ⟨hasTable, m₁, htable, hcases⟩ := vmmMapPage_slots hreach hrun
  have howns := h.ensureTable hzero hreach htable
  rcases hcases with ⟨rfl, rfl⟩ | ⟨rfl, hused, hempty, -, hother⟩
  · exact howns
  · have hlent := Ledger.lend howns hkernel hempty hother
    unfold Owns usedFrames
    rw [hused]
    exact hlent

/-! ## Unmapping -/

theorem reclaimTable {page : Nat} (h : Owns old root hand m) (hreach : Reaches root m.current page)
    (hrun : Memory.reclaimTable (pdIndex page) m = (.ok (), m')) : Owns old root hand m' := by
  unfold Memory.reclaimTable at hrun
  rw [Prog.get_bind_apply] at hrun
  rcases ht : (m.half m.current (pdIndex page)).tables (pdIndex page) with _ | t
  · rw [ht] at hrun
    cases hrun
    exact h
  · rw [ht] at hrun
    dsimp only at hrun
    split at hrun
    · rename_i hdrop
      obtain ⟨hempty, hlow⟩ := hdrop
      have hself : (m.setHalf m.current (pdIndex page)
          ((m.half m.current (pdIndex page)).dropTable (pdIndex page))).holder root
          (.table (pdIndex page)) = none := by
        dsimp only [Machine.holder]
        rw [half_setHalf_same _ hreach.sameHalf]
        exact if_pos rfl
      have hother : ∀ s, s ≠ Slot.table (pdIndex page) →
          (m.setHalf m.current (pdIndex page)
            ((m.half m.current (pdIndex page)).dropTable (pdIndex page))).holder root s =
          m.holder root s := by
        intro s hs
        apply holder_setHalf
        · rintro pd' rfl
          exact if_neg fun heq => hs (by rw [heq])
        · rintro p rfl
          exact lookup_dropTable hempty
      rw [half_eq hreach] at ht
      have hlift : Owns old root (insert t hand) (m.setHalf m.current (pdIndex page)
          ((m.half m.current (pdIndex page)).dropTable (pdIndex page))) := by
        have hledger := Ledger.lift (s := .table (pdIndex page)) h hlow ht hself hother
        unfold Owns usedFrames
        rw [setHalf_used]
        exact hledger
      have hhand : ∀ a ∈ frameRun t 1, a ∈ insert t hand := by
        rw [frameRun_one]
        rintro a rfl
        exact Set.mem_insert _ _
      have hfree := hlift.free hhand hrun
      rw [frameRun_one, Set.insert_sdiff_self_of_notMem] at hfree
      · exact hfree
      · intro hin
        exact (h.inHand t hin).2.2 (.table (pdIndex page)) hlow ht
    · obtain ⟨-, rfl⟩ := Prod.mk.inj hrun
      exact h

theorem unmapPage {virt a : Nat} (h : Owns old root hand m)
    (hreach : Reaches root m.current (pageOf virt)) (hlow : pdIndex (pageOf virt) < kernelSplit)
    (ha : m.holder root (.page (pageOf virt)) = some a)
    (hrun : vmmUnmapPage virt m = (.ok (), m')) : Owns old root (insert a hand) m' := by
  rcases vmmUnmapPage_slots hreach hrun with ⟨-, hnone⟩ | ⟨m₁, hused, hcur, hself, hother, hrun⟩
  · rw [ha] at hnone
    cases hnone
  · have hlift : Owns old root (insert a hand) m₁ := by
      have hledger := Ledger.lift (s := .page (pageOf virt)) h hlow ha hself hother
      unfold Owns usedFrames
      rw [hused]
      exact hledger
    rw [← hcur] at hreach
    exact hlift.reclaimTable hreach hrun

theorem unmapKernelPage {virt : Nat} (h : Owns old root hand m)
    (hkernel : ¬pdIndex (pageOf virt) < kernelSplit)
    (hhand : ∀ a, m.holder root (.page (pageOf virt)) = some a → a ∈ hand)
    (hrun : vmmUnmapPage virt m = (.ok (), m')) : Owns old root hand m' := by
  have hreach := fun c => Reaches.of_kernel root c hkernel
  rcases vmmUnmapPage_slots (hreach _) hrun with ⟨rfl, -⟩ | ⟨m₁, hused, hcur, hself, hother, hrun⟩
  · exact h
  · have hlent : Owns old root hand m₁ := by
      have hledger := Ledger.unlend (s := .page (pageOf virt)) h hkernel hhand hother
      unfold Owns usedFrames
      rw [hused]
      exact hledger
    exact hlent.reclaimTable (hreach _) hrun

theorem unmapNothing {virt : Nat} (h : Owns old root hand m)
    (hreach : Reaches root m.current (pageOf virt))
    (hnone : m.holder root (.page (pageOf virt)) = none)
    (hrun : vmmUnmapPage virt m = (.ok (), m')) : Owns old root hand m' := by
  rcases vmmUnmapPage_slots hreach hrun with ⟨rfl, -⟩ | ⟨m₁, hused, hcur, hself, hother, hrun⟩
  · exact h
  · have hsame : m₁.holder root = m.holder root := by
      funext s
      by_cases hs : s = .page (pageOf virt)
      · rw [hs, hself, hnone]
      · exact hother s hs
    have howns : Owns old root hand m₁ := by
      unfold Owns usedFrames
      rw [hused, hsame]
      exact h
    rw [← hcur] at hreach
    exact howns.reclaimTable hreach hrun

end Owns

end UnDOS.Memory
