import UnDOS.Sched.Wait

/-!
# What the Wait Lists Keep

One inversion lemma for each section under the wait lock says everything it can do.
`WaitInv` says that the lists hold live blocks only: a header's list holds exactly the
unsatisfied blocks that wait for it, and the timed list holds blocks with a deadline.
-/

namespace UnDOS.Sched

open Function (update update_of_ne update_self)

/-! ## What each section does -/

/-- The state after a wait has queued its block. -/
def Waits.queued (w : Waits) (t h : Nat) (timeout now : Int) : Waits where
  headers := update w.headers h
    { w.headers h with waiters := (w.headers h).waiters ++ [t] }
  timed := if 0 < timeout then t :: w.timed else w.timed
  live := insert t w.live
  block := update w.block t (newBlock h timeout now)

theorem enterWait_cases {w w' : Waits} {t h : Nat} {timeout now : Int} {r : Option WaitResult}
    (hstep : enterWait w t h timeout now = (w', r)) :
    ((w.headers h).signalled = true ∧ r = some .success ∧
      w' = w.setHeader h { w.headers h with signalled := (w.headers h).manualReset }) ∨
    ((w.headers h).signalled = false ∧ r = some .timeout ∧ w' = w) ∨
    ((w.headers h).signalled = false ∧ r = none ∧ w' = w.queued t h timeout now) := by
  unfold enterWait KDispatcherHeader.tryAcquire at hstep
  rcases hheader : w.headers h with ⟨signalled, manualReset, waiters⟩
  rw [hheader] at hstep
  cases signalled with
  | true =>
    left
    cases manualReset <;>
      · cases hstep
        exact ⟨rfl, rfl, rfl⟩
  | false =>
    right
    by_cases hzero : timeout = 0
    · left
      rw [hzero] at hstep
      cases hstep
      exact ⟨rfl, rfl, rfl⟩
    · right
      have hqueued : (w.queued t h timeout now, none) = (w', r) := by
        rw [← hstep]
        unfold Waits.queued
        by_cases hpos : 0 < timeout <;>
          simp [hzero, hpos, Waits.setHeader, Waits.setBlock]
      cases hqueued
      exact ⟨rfl, rfl, rfl⟩

/-- The timed list after a thread has left its wait. -/
def Waits.untimed (w : Waits) (t : Nat) : List Nat :=
  if (w.block t).timed then w.timed.erase t else w.timed

theorem recheck_cases {w w' : Waits} {t : Nat} {r : Option WaitResult}
    (hstep : recheck w t = (w', r)) :
    ((w.block t).satisfied = false ∧ (w.block t).timedOut = false ∧ r = none ∧ w' = w) ∨
    ((w.block t).satisfied = true ∧ r = some .success ∧
      w' = { w with timed := w.untimed t, live := w.live.erase t }) ∨
    ((w.block t).satisfied = false ∧ r = some .timeout ∧
      w' = { w with
        timed := w.untimed t
        live := w.live.erase t
        headers := update w.headers (w.block t).header
          { w.headers (w.block t).header with
            waiters := (w.headers (w.block t).header).waiters.erase t } }) := by
  unfold recheck leaveWait at hstep
  unfold Waits.untimed
  cases hsat : (w.block t).satisfied with
  | true =>
    right
    left
    cases htimed : (w.block t).timed <;>
      · simp only [hsat, htimed] at hstep
        cases hstep
        exact ⟨rfl, rfl, rfl⟩
  | false =>
    cases hout : (w.block t).timedOut with
    | false =>
      left
      simp only [hsat, hout] at hstep
      cases hstep
      exact ⟨rfl, rfl, rfl, rfl⟩
    | true =>
      right
      right
      cases htimed : (w.block t).timed <;>
        · simp only [hsat, hout, htimed] at hstep
          cases hstep
          exact ⟨rfl, rfl, rfl⟩

theorem signalHeader_cases {w w' : Waits} {h : Nat} {wakeAll : Bool} {woken : List Nat}
    (hstep : signalHeader w h wakeAll = (w', woken)) :
    (((w.headers h).manualReset || wakeAll) = true ∧ woken = (w.headers h).waiters ∧
      w' = (w.satisfy (w.headers h).waiters).setHeader h
        { w.headers h with waiters := [], signalled := (w.headers h).manualReset }) ∨
    (((w.headers h).manualReset || wakeAll) = false ∧ ∃ t rest,
      (w.headers h).waiters = t :: rest ∧ woken = [t] ∧
      w' = (w.satisfy [t]).setHeader h { w.headers h with waiters := rest }) ∨
    (((w.headers h).manualReset || wakeAll) = false ∧ (w.headers h).waiters = [] ∧ woken = [] ∧
      w' = w.setHeader h { w.headers h with signalled := true }) := by
  unfold signalHeader at hstep
  dsimp only at hstep
  split at hstep
  · rename_i hall
    cases hstep
    exact .inl ⟨hall, rfl, rfl⟩
  · rename_i hall
    rw [Bool.not_eq_true] at hall
    split at hstep
    · rename_i t rest hw
      cases hstep
      exact .inr (.inl ⟨hall, t, rest, hw, rfl, rfl⟩)
    · rename_i hw
      cases hstep
      exact .inr (.inr ⟨hall, hw, rfl, rfl⟩)

/-! ## The invariant -/

/-- The lists hold live blocks, each once. -/
structure WaitInv (w : Waits) : Prop where
  waiter : ∀ h t, t ∈ (w.headers h).waiters →
    t ∈ w.live ∧ (w.block t).header = h ∧ (w.block t).satisfied = false
  linked : ∀ t ∈ w.live, (w.block t).satisfied = false →
    t ∈ (w.headers (w.block t).header).waiters
  nodup : ∀ h, (w.headers h).waiters.Nodup
  timed : ∀ t ∈ w.timed, t ∈ w.live ∧ (w.block t).timed = true
  timedNodup : w.timed.Nodup

theorem waitInv_quiet {w : Waits} (h : w.Quiet) : WaitInv w := by
  obtain ⟨hlive, htimed, hwaiters⟩ := h
  constructor <;> simp [hlive, htimed, hwaiters]

section
variable {w : Waits}

theorem WaitInv.setHeader (hinv : WaitInv w) {h : Nat} {header : KDispatcherHeader}
    (hsame : header.waiters = (w.headers h).waiters) : WaitInv (w.setHeader h header) := by
  have hwaiters : ∀ d, ((w.setHeader h header).headers d).waiters = (w.headers d).waiters := by
    intro d
    by_cases hd : d = h
    · subst hd
      simpa [Waits.setHeader] using hsame
    · simp [Waits.setHeader, hd]
  constructor
  · intro d t ht
    rw [hwaiters] at ht
    exact hinv.waiter d t ht
  · intro t ht hsat
    rw [hwaiters]
    exact hinv.linked t ht hsat
  · intro d
    rw [hwaiters]
    exact hinv.nodup d
  · exact hinv.timed
  · exact hinv.timedNodup

theorem WaitInv.queued (hinv : WaitInv w) {t h : Nat} {timeout now : Int} (ht : t ∉ w.live) :
    WaitInv (w.queued t h timeout now) := by
  have hne : ∀ x ∈ w.live, x ≠ t := by
    rintro x hx rfl
    exact ht hx
  constructor
  · intro d x hx
    have hcases : (x = t ∧ d = h) ∨ x ∈ (w.headers d).waiters := by
      by_cases hd : d = h
      · subst hd
        simpa [Waits.queued, or_comm] using hx
      · exact .inr (by simpa [Waits.queued, hd] using hx)
    rcases hcases with ⟨rfl, rfl⟩ | hold
    · simp [Waits.queued, newBlock]
    · obtain ⟨hlive, hheader⟩ := hinv.waiter d x hold
      simp [Waits.queued, hne x hlive, hlive, hheader]
  · intro x hx hsat
    by_cases hxt : x = t
    · subst hxt
      simp [Waits.queued, newBlock]
    · have hlive : x ∈ w.live := by simpa [Waits.queued, hxt] using hx
      have hmem := hinv.linked x hlive (by simpa [Waits.queued, hxt] using hsat)
      by_cases hd : (w.block x).header = h
      · rw [hd] at hmem
        simp [Waits.queued, hxt, hd, hmem]
      · simpa [Waits.queued, hxt, hd] using hmem
  · intro d
    by_cases hd : d = h
    · subst hd
      simpa [Waits.queued, List.nodup_append, hinv.nodup d] using
        fun x hx => hne x (hinv.waiter d x hx).1
    · simpa [Waits.queued, hd] using hinv.nodup d
  · intro x hx
    have hcases : (x = t ∧ 0 < timeout) ∨ x ∈ w.timed := by
      by_cases hpos : 0 < timeout
      · simpa [Waits.queued, hpos] using hx
      · exact .inr (by simpa [Waits.queued, hpos] using hx)
    rcases hcases with ⟨rfl, hpos⟩ | hold
    · simp [Waits.queued, newBlock, hpos]
    · obtain ⟨hlive, htimed⟩ := hinv.timed x hold
      simp [Waits.queued, hne x hlive, hlive, htimed]
  · have hnot : t ∉ w.timed := fun hmem => ht (hinv.timed t hmem).1
    by_cases hpos : 0 < timeout
    · simp [Waits.queued, hpos, hnot, hinv.timedNodup]
    · simp [Waits.queued, hpos, hinv.timedNodup]

theorem WaitInv.mem_untimed (hinv : WaitInv w) {t x : Nat} (hx : x ∈ w.untimed t) :
    x ∈ w.timed ∧ x ≠ t := by
  unfold Waits.untimed at hx
  cases htimed : (w.block t).timed with
  | true =>
    rw [htimed, if_pos rfl, hinv.timedNodup.mem_erase_iff] at hx
    exact ⟨hx.2, hx.1⟩
  | false =>
    rw [htimed] at hx
    refine ⟨by simpa using hx, ?_⟩
    rintro rfl
    have hpos := (hinv.timed x (by simpa using hx)).2
    rw [htimed] at hpos
    cases hpos

theorem WaitInv.untimed_nodup (hinv : WaitInv w) (t : Nat) : (w.untimed t).Nodup := by
  unfold Waits.untimed
  split
  · exact hinv.timedNodup.erase t
  · exact hinv.timedNodup

theorem WaitInv.leave_satisfied (hinv : WaitInv w) {t : Nat} (hsat : (w.block t).satisfied = true) :
    WaitInv { w with timed := w.untimed t, live := w.live.erase t } := by
  constructor
  · intro d x hx
    obtain ⟨hlive, hheader, hx'⟩ := hinv.waiter d x hx
    have hne : x ≠ t := by
      rintro rfl
      rw [hsat] at hx'
      cases hx'
    exact ⟨Finset.mem_erase.2 ⟨hne, hlive⟩, hheader, hx'⟩
  · intro x hx hx'
    exact hinv.linked x (Finset.mem_erase.1 hx).2 hx'
  · exact hinv.nodup
  · intro x hx
    obtain ⟨hold, hne⟩ := hinv.mem_untimed hx
    obtain ⟨hlive, htimed⟩ := hinv.timed x hold
    exact ⟨Finset.mem_erase.2 ⟨hne, hlive⟩, htimed⟩
  · exact hinv.untimed_nodup t

theorem WaitInv.leave_timedOut (hinv : WaitInv w) (t : Nat) : WaitInv { w with
      timed := w.untimed t
      live := w.live.erase t
      headers := update w.headers (w.block t).header
        { w.headers (w.block t).header with
          waiters := (w.headers (w.block t).header).waiters.erase t } } := by
  have hmem : ∀ d x, x ∈ (update w.headers (w.block t).header
      { w.headers (w.block t).header with
        waiters := (w.headers (w.block t).header).waiters.erase t } d).waiters ↔
      x ∈ (w.headers d).waiters ∧ x ≠ t := by
    intro d x
    by_cases hd : d = (w.block t).header
    · subst hd
      rw [update_self, (hinv.nodup _).mem_erase_iff, and_comm]
    · rw [update_of_ne hd]
      constructor
      · intro hx
        refine ⟨hx, ?_⟩
        rintro rfl
        exact hd (hinv.waiter d x hx).2.1.symm
      · exact And.left
  constructor
  · intro d x hx
    obtain ⟨hold, hne⟩ := (hmem d x).1 hx
    obtain ⟨hlive, hrest⟩ := hinv.waiter d x hold
    exact ⟨Finset.mem_erase.2 ⟨hne, hlive⟩, hrest⟩
  · intro x hx hsat
    obtain ⟨hne, hlive⟩ := Finset.mem_erase.1 hx
    exact (hmem _ x).2 ⟨hinv.linked x hlive hsat, hne⟩
  · intro d
    by_cases hd : d = (w.block t).header
    · subst hd
      simpa using (hinv.nodup _).erase t
    · simpa [hd] using hinv.nodup d
  · intro x hx
    obtain ⟨hold, hne⟩ := hinv.mem_untimed hx
    obtain ⟨hlive, htimed⟩ := hinv.timed x hold
    exact ⟨Finset.mem_erase.2 ⟨hne, hlive⟩, htimed⟩
  · exact hinv.untimed_nodup t

/-- The first waiters are satisfied and leave the header. -/
theorem WaitInv.release (hinv : WaitInv w) {h : Nat} {ts rest : List Nat}
    {header : KDispatcherHeader} (hsplit : (w.headers h).waiters = ts ++ rest)
    (hrest : header.waiters = rest) : WaitInv ((w.satisfy ts).setHeader h header) := by
  have hnd := hinv.nodup h
  rw [hsplit, List.nodup_append] at hnd
  have hts : ∀ x ∈ ts, x ∈ (w.headers h).waiters := by
    intro x hx
    rw [hsplit]
    exact List.mem_append_left _ hx
  have hmem : ∀ d x, x ∈ (((w.satisfy ts).setHeader h header).headers d).waiters ↔
      x ∈ (w.headers d).waiters ∧ x ∉ ts := by
    intro d x
    by_cases hd : d = h
    · subst hd
      simp only [Waits.setHeader, update_self, hrest, hsplit, List.mem_append]
      constructor
      · exact fun hx => ⟨.inr hx, fun hxt => hnd.2.2 x hxt x hx rfl⟩
      · rintro ⟨hx | hx, hnot⟩
        · exact absurd hx hnot
        · exact hx
    · simp only [Waits.setHeader, update_of_ne hd]
      constructor
      · refine fun hx => ⟨hx, fun hxt => hd ?_⟩
        exact (hinv.waiter d x hx).2.1.symm.trans (hinv.waiter h x (hts x hxt)).2.1
      · exact And.left
  constructor
  · intro d x hx
    obtain ⟨hold, hnot⟩ := (hmem d x).1 hx
    simpa [Waits.setHeader, Waits.satisfy, hnot] using hinv.waiter d x hold
  · intro x hx hsat
    have hnot : x ∉ ts := by
      intro hxt
      simp [Waits.setHeader, Waits.satisfy, hxt] at hsat
    rw [hmem]
    simp only [Waits.setHeader, Waits.satisfy, hnot] at hsat ⊢
    exact ⟨hinv.linked x hx hsat, not_false⟩
  · intro d
    by_cases hd : d = h
    · subst hd
      simpa [Waits.setHeader, hrest] using hnd.2.1
    · simpa [Waits.setHeader, Waits.satisfy, hd] using hinv.nodup d
  · intro x hx
    obtain ⟨hlive, htimed⟩ := hinv.timed x hx
    refine ⟨hlive, ?_⟩
    simp only [Waits.setHeader, Waits.satisfy]
    split <;> exact htimed
  · exact hinv.timedNodup

theorem WaitInv.expire (hinv : WaitInv w) (ts : List Nat) (p : Nat → Bool) :
    WaitInv { w.expireBlocks ts with timed := w.timed.filter p } := by
  have hfields : ∀ x, ((w.expireBlocks ts).block x).header = (w.block x).header ∧
      ((w.expireBlocks ts).block x).satisfied = (w.block x).satisfied ∧
      ((w.expireBlocks ts).block x).timed = (w.block x).timed := by
    intro x
    simp only [Waits.expireBlocks]
    split <;> exact ⟨rfl, rfl, rfl⟩
  constructor
  · intro d x hx
    obtain ⟨hlive, hheader, hsat⟩ := hinv.waiter d x hx
    exact ⟨hlive, (hfields x).1.trans hheader, (hfields x).2.1.trans hsat⟩
  · intro x hx hsat
    have hmem := hinv.linked x hx ((hfields x).2.1.symm.trans hsat)
    rw [← (hfields x).1] at hmem
    exact hmem
  · exact hinv.nodup
  · intro x hx
    obtain ⟨hlive, htimed⟩ := hinv.timed x (List.mem_of_mem_filter hx)
    exact ⟨hlive, (hfields x).2.2.trans htimed⟩
  · exact hinv.timedNodup.filter p

theorem WaitInv.step (hinv : WaitInv w) {e : WaitEvent} {w' : Waits} (hstep : WaitStep w e w') :
    WaitInv w' := by
  cases e with
  | enter t h timeout now result =>
    obtain ⟨ht, hstep⟩ := hstep
    rcases enterWait_cases hstep with ⟨-, -, rfl⟩ | ⟨-, -, rfl⟩ | ⟨-, -, rfl⟩
    · exact hinv.setHeader rfl
    · exact hinv
    · exact hinv.queued ht
  | resume t h result =>
    rcases recheck_cases hstep.2.2 with ⟨-, -, -, rfl⟩ | ⟨hsat, -, rfl⟩ | ⟨-, -, rfl⟩
    · exact hinv
    · exact hinv.leave_satisfied hsat
    · exact hinv.leave_timedOut t
  | signal h wakeAll already woken =>
    rcases signalHeader_cases hstep.2 with ⟨-, -, rfl⟩ | ⟨-, t, rest, hw, -, rfl⟩ | ⟨-, -, -, rfl⟩
    · exact hinv.release (List.append_nil _).symm rfl
    · exact hinv.release (show (w.headers h).waiters = [t] ++ rest from hw) rfl
    · exact hinv.setHeader rfl
  | tick now woken =>
    cases hstep
    exact hinv.expire _ _

end

end UnDOS.Sched
