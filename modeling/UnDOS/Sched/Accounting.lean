import UnDOS.Sched.WaitInvariant

/-!
# Signals and Waits on an Auto-Reset Header

`signal_accounting`: over every interleaving of waits, signals that wake one, and timer
ticks, each signal of an auto-reset header is either still pending in the header, or on its
way to one waiter, or has been returned as one success, or was made while one was pending.
-/

namespace UnDOS.Sched

open UnDOS.Lib

/-! ## Counting -/

/-- A wait for `h` that returned success. -/
def returnsSuccess (h : Nat) : WaitEvent → Bool
  | .enter _ d _ _ (some .success) => d == h
  | .resume _ d (some .success) => d == h
  | _ => false

/-- A signal of `h`. -/
def signals (h : Nat) : WaitEvent → Bool
  | .signal d _ _ _ => d == h
  | _ => false

/-- A signal of `h` that found it signalled and without a waiter. -/
def findsSignalled (h : Nat) : WaitEvent → Bool
  | .signal d _ true _ => d == h
  | _ => false

/-- How often something happened in a run. -/
def times (p : WaitEvent → Bool) (run : List (WaitEvent × Waits)) : Nat :=
  run.countP fun x => p x.1

/-- The live blocks that are satisfied and wait for `h`. -/
def Waits.pending (w : Waits) (h : Nat) : Finset Nat :=
  w.live.filter fun t => (w.block t).header = h ∧ (w.block t).satisfied = true

@[simp] theorem Waits.mem_pending {w : Waits} {h t : Nat} : t ∈ w.pending h ↔
    t ∈ w.live ∧ (w.block t).header = h ∧ (w.block t).satisfied = true := Finset.mem_filter

/-- 1 when the header is signalled. -/
def Waits.signalCount (w : Waits) (h : Nat) : Nat := (w.headers h).signalled.toNat

/-- An auto-reset header is never signalled while threads wait for it. -/
structure AutoReset (w : Waits) (h : Nat) : Prop where
  auto : (w.headers h).manualReset = false
  idle : (w.headers h).signalled = true → (w.headers h).waiters = []

/-- Signals of `h` wake one thread at most. -/
def WakesOne (h : Nat) : WaitEvent → Prop
  | .signal d wakeAll _ _ => d = h → wakeAll = false
  | _ => True

section
variable {w w' : Waits} {h : Nat} {e : WaitEvent}

theorem AutoReset.step (ha : AutoReset w h) (hstep : WaitStep w e w') (hone : WakesOne h e) :
    AutoReset w' h := by
  cases e with
  | enter t d timeout now result =>
    rcases enterWait_cases hstep.2 with ⟨hsig, -, rfl⟩ | ⟨-, -, rfl⟩ | ⟨hsig, -, rfl⟩
    · by_cases hd : h = d
      · subst hd
        exact ⟨by simp [Waits.setHeader, ha.auto], by simp [Waits.setHeader, ha.auto]⟩
      · exact ⟨by simp [Waits.setHeader, hd, ha.auto], by simpa [Waits.setHeader, hd] using ha.idle⟩
    · exact ha
    · by_cases hd : h = d
      · subst hd
        exact ⟨by simp [Waits.queued, ha.auto], by simp [Waits.queued, hsig]⟩
      · exact ⟨by simp [Waits.queued, hd, ha.auto], by simpa [Waits.queued, hd] using ha.idle⟩
  | resume t d result =>
    rcases recheck_cases hstep.2.2 with ⟨-, -, -, rfl⟩ | ⟨-, -, rfl⟩ | ⟨-, -, rfl⟩
    · exact ha
    · exact ⟨ha.auto, ha.idle⟩
    · by_cases hd : h = (w.block t).header
      · subst hd
        refine ⟨by simp [ha.auto], fun hsig => ?_⟩
        have hnil := ha.idle (by simpa using hsig)
        simp [hnil]
      · exact ⟨by simp [hd, ha.auto], by simpa [hd] using ha.idle⟩
  | signal d wakeAll already woken =>
    by_cases hd : h = d
    · subst hd
      obtain rfl : wakeAll = false := hone rfl
      rcases signalHeader_cases hstep.2 with
        ⟨hall, -, -⟩ | ⟨-, t, rest, hw, -, rfl⟩ | ⟨-, hw, -, rfl⟩
      · simp [ha.auto] at hall
      · refine ⟨by simp [Waits.setHeader, ha.auto], fun hsig => ?_⟩
        have hnil := ha.idle (by simpa [Waits.setHeader] using hsig)
        simp [hnil] at hw
      · exact ⟨by simp [Waits.setHeader, ha.auto], by simp [Waits.setHeader, hw]⟩
    · rcases signalHeader_cases hstep.2 with ⟨-, -, rfl⟩ | ⟨-, t, rest, -, -, rfl⟩ |
        ⟨-, -, -, rfl⟩ <;>
        exact ⟨by simp [Waits.setHeader, Waits.satisfy, hd, ha.auto],
          by simpa [Waits.setHeader, Waits.satisfy, hd] using ha.idle⟩
  | tick now woken =>
    cases hstep
    exact ⟨ha.auto, ha.idle⟩

/-- The books balance over one section. -/
theorem accounting_step (hinv : WaitInv w) (ha : AutoReset w h) (hstep : WaitStep w e w')
    (hone : WakesOne h e) : (returnsSuccess h e).toNat + (w'.pending h).card + w'.signalCount h +
        (findsSignalled h e).toNat =
      (signals h e).toNat + (w.pending h).card + w.signalCount h := by
  unfold Waits.signalCount
  cases e with
  | enter t d timeout now result =>
    rcases enterWait_cases hstep.2 with ⟨hsig, rfl, rfl⟩ | ⟨-, rfl, rfl⟩ | ⟨-, rfl, rfl⟩
    · -- The pending signal is the success.
      have hpend : (w.setHeader d { w.headers d with
          signalled := (w.headers d).manualReset }).pending h = w.pending h := rfl
      rw [hpend]
      by_cases hd : h = d
      · subst hd
        simp [returnsSuccess, findsSignalled, signals, Waits.setHeader, ha.auto, hsig]
        omega
      · simp [returnsSuccess, findsSignalled, signals, Waits.setHeader, hd, Ne.symm hd]
    · simp [returnsSuccess, findsSignalled, signals]
    · -- A new block is not satisfied.
      have hpend : (w.queued t d timeout now).pending h = w.pending h := by
        ext x
        by_cases hx : x = t
        · subst hx
          simp [Waits.queued, newBlock, hstep.1]
        · simp [Waits.queued, hx]
      rw [hpend]
      by_cases hd : h = d
      · subst hd
        simp [returnsSuccess, findsSignalled, signals, Waits.queued]
      · simp [returnsSuccess, findsSignalled, signals, Waits.queued, hd]
  | resume t d result =>
    obtain ⟨hlive, rfl, hstep⟩ := hstep
    rcases recheck_cases hstep with ⟨-, -, rfl, rfl⟩ | ⟨hsat, rfl, rfl⟩ | ⟨hsat, rfl, rfl⟩
    · simp [returnsSuccess, findsSignalled, signals]
    · -- The satisfied block becomes the success.
      by_cases hd : (w.block t).header = h
      · have hpend : ({ w with timed := w.untimed t, live := w.live.erase t } : Waits).pending h =
            (w.pending h).erase t := by
          unfold Waits.pending
          rw [Finset.filter_erase]
        have hmem : t ∈ w.pending h := Finset.mem_filter.2 ⟨hlive, hd, hsat⟩
        have hcard := Finset.card_erase_add_one hmem
        rw [hpend]
        simp [returnsSuccess, findsSignalled, signals, hd]
        omega
      · have hpend : ({ w with timed := w.untimed t, live := w.live.erase t } : Waits).pending h =
            w.pending h := by
          ext x
          by_cases hx : x = t
          · subst hx
            simp [hd]
          · simp [hx]
        rw [hpend]
        simp [returnsSuccess, findsSignalled, signals, hd]
    · have hpend : ({ w with
          timed := w.untimed t
          live := w.live.erase t
          headers := Function.update w.headers (w.block t).header
            { w.headers (w.block t).header with
              waiters := (w.headers (w.block t).header).waiters.erase t } } : Waits).pending h =
            w.pending h := by
        ext x
        by_cases hx : x = t
        · subst hx
          simp [hsat]
        · simp [hx]
      rw [hpend]
      by_cases hd : h = (w.block t).header
      · subst hd
        simp [returnsSuccess, findsSignalled, signals]
      · simp [returnsSuccess, findsSignalled, signals, hd]
  | signal d wakeAll already woken =>
    obtain ⟨rfl, hstep⟩ := hstep
    by_cases hd : h = d
    · subst hd
      obtain rfl : wakeAll = false := hone rfl
      rcases signalHeader_cases hstep with
        ⟨hall, -, -⟩ | ⟨-, t, rest, hw, -, rfl⟩ | ⟨-, hw, -, rfl⟩
      · simp [ha.auto] at hall
      · -- The signal goes to the first waiter, and none was pending.
        have hsig : (w.headers h).signalled = false := by
          cases hs : (w.headers h).signalled with
          | false => rfl
          | true =>
            rw [ha.idle hs] at hw
            cases hw
        obtain ⟨hlive, hheader, hsat⟩ := hinv.waiter h t (by simp [hw])
        have hpend : ((w.satisfy [t]).setHeader h { w.headers h with waiters := rest }).pending h =
            insert t (w.pending h) := by
          ext x
          by_cases hx : x = t
          · subst hx
            simp [Waits.setHeader, Waits.satisfy, hlive, hheader]
          · simp [Waits.setHeader, Waits.satisfy, hx]
        have hnot : t ∉ w.pending h := by simp [hsat]
        rw [hpend, Finset.card_insert_of_notMem hnot]
        simp [returnsSuccess, findsSignalled, signals, Waits.setHeader, hw]
        omega
      · have hpend : (w.setHeader h { w.headers h with signalled := true }).pending h =
            w.pending h := rfl
        rw [hpend]
        cases (w.headers h).signalled <;>
          · simp [returnsSuccess, findsSignalled, signals, Waits.setHeader, hw]
            omega
    · -- Another header: its waiters do not wait for `h`.
      have hpend : ∀ ts rest header, (w.headers d).waiters = ts ++ rest →
          ((w.satisfy ts).setHeader d header).pending h = w.pending h := by
        intro ts rest header hsplit
        ext x
        by_cases hx : x ∈ ts
        · have hxd := (hinv.waiter d x (by simp [hsplit, hx])).2.1
          simp [Waits.setHeader, Waits.satisfy, hx, hxd, Ne.symm hd]
        · simp [Waits.setHeader, Waits.satisfy, hx]
      have hnone : findsSignalled h (.signal d wakeAll
          ((w.headers d).signalled && (w.headers d).waiters.isEmpty) woken) = false := by
        cases ((w.headers d).signalled && (w.headers d).waiters.isEmpty) <;>
          simp [findsSignalled, Ne.symm hd]
      rw [hnone]
      rcases signalHeader_cases hstep with
        ⟨-, -, rfl⟩ | ⟨-, t, rest, hw, -, rfl⟩ | ⟨-, -, -, rfl⟩
      · rw [hpend _ [] _ (List.append_nil _).symm]
        simp [returnsSuccess, signals, Waits.setHeader, Waits.satisfy, hd, Ne.symm hd]
      · rw [hpend [t] rest _ hw]
        simp [returnsSuccess, signals, Waits.setHeader, Waits.satisfy, hd, Ne.symm hd]
      · have hsame : (w.setHeader d { w.headers d with signalled := true }).pending h =
            w.pending h := rfl
        rw [hsame]
        simp [returnsSuccess, signals, Waits.setHeader, hd, Ne.symm hd]
  | tick now woken =>
    cases hstep
    have hpend : ({ w.expireBlocks (w.due now) with
        timed := w.timed.filter fun t => !w.isDue now t } : Waits).pending h = w.pending h := by
      ext x
      by_cases hx : x ∈ w.due now <;> simp [Waits.expireBlocks, hx]
    rw [hpend]
    simp [returnsSuccess, findsSignalled, signals, Waits.expireBlocks]

end

/-! ## Over whole runs -/

/-- The interleavings in which signals of `h` wake one thread at most. -/
def WakeOneStep (h : Nat) (w : Waits) (e : WaitEvent) (w' : Waits) : Prop :=
  WaitStep w e w' ∧ WakesOne h e

section
variable {start : Waits} {h : Nat} {run : List (WaitEvent × Waits)}

theorem run_waitInv (hquiet : start.Quiet) (hrun : Run (WakeOneStep h) start run) :
    WaitInv (lastState start run) :=
  hrun.invariant (waitInv_quiet hquiet) fun _ _ _ hinv hstep => hinv.step hstep.1

theorem run_autoReset (hquiet : start.Quiet) (hauto : (start.headers h).manualReset = false)
    (hrun : Run (WakeOneStep h) start run) : AutoReset (lastState start run) h :=
  hrun.invariant (I := fun w => AutoReset w h) ⟨hauto, fun _ => hquiet.2.2 h⟩
    fun _ _ _ ha hstep => ha.step hstep.1 hstep.2

theorem times_cons (p : WaitEvent → Bool) (e : WaitEvent) (w : Waits)
    (run : List (WaitEvent × Waits)) : times p ((e, w) :: run) = times p run + (p e).toNat := by
  unfold times
  rw [List.countP_cons]
  cases p e <;> rfl

theorem run_accounting (hquiet : start.Quiet) (hauto : (start.headers h).manualReset = false)
    (hrun : Run (WakeOneStep h) start run) :
    times (returnsSuccess h) run + ((lastState start run).pending h).card +
        (lastState start run).signalCount h + times (findsSignalled h) run =
      times (signals h) run + start.signalCount h := by
  induction hrun with
  | nil =>
    have hnone : start.pending h = ∅ := by
      ext x
      simp [hquiet.1]
    simp [times, lastState, hnone]
  | cons hrun last ih =>
    have hstep := accounting_step (run_waitInv hquiet hrun) (run_autoReset hquiet hauto hrun) last.1
      last.2
    rw [times_cons, times_cons, times_cons]
    simp only [lastState]
    omega

/-- A thread that waits for `h`. -/
def WaitsFor (h : Nat) (w : Waits) (t : Nat) : Prop := t ∈ w.live ∧ (w.block t).header = h

instance (h : Nat) (t : Nat) : DecidablePred fun w => WaitsFor h w t :=
  fun _ => inferInstanceAs (Decidable (_ ∧ _))

variable {w w' : Waits} {e : WaitEvent}

/-- A queue loses waiters or gets one at its end. -/
theorem waiters_step (hinv : WaitInv w) (hstep : WaitStep w e w') (h : Nat) :
    ((w'.headers h).waiters.Sublist (w.headers h).waiters) ∨
      ∃ t, (w'.headers h).waiters = (w.headers h).waiters ++ [t] ∧ ¬WaitsFor h w t := by
  cases e with
  | enter t d timeout now result =>
    rcases enterWait_cases hstep.2 with ⟨-, -, rfl⟩ | ⟨-, -, rfl⟩ | ⟨-, -, rfl⟩
    · left
      by_cases hd : h = d
      · subst hd
        simp [Waits.setHeader]
      · simp [Waits.setHeader, hd]
    · exact .inl (List.Sublist.refl _)
    · by_cases hd : h = d
      · subst hd
        exact .inr ⟨t, by simp [Waits.queued], fun hw => hstep.1 hw.1⟩
      · exact .inl (by simp [Waits.queued, hd])
  | resume t d result =>
    left
    rcases recheck_cases hstep.2.2 with ⟨-, -, -, rfl⟩ | ⟨-, -, rfl⟩ | ⟨-, -, rfl⟩
    · exact List.Sublist.refl _
    · exact List.Sublist.refl _
    · by_cases hd : h = (w.block t).header
      · subst hd
        simpa using List.erase_sublist
      · simp [hd]
  | signal d wakeAll already woken =>
    by_cases hd : h = d
    · subst hd
      rcases signalHeader_cases hstep.2 with ⟨-, -, rfl⟩ | ⟨-, t, rest, hw, -, rfl⟩ | ⟨-, -, -, rfl⟩
      · simp [Waits.setHeader]
      · simp [Waits.setHeader, hw]
      · simp [Waits.setHeader]
    · rcases signalHeader_cases hstep.2 with ⟨-, -, rfl⟩ | ⟨-, t, rest, -, -, rfl⟩ |
        ⟨-, -, -, rfl⟩ <;>
        simp [Waits.setHeader, Waits.satisfy, hd]
  | tick now woken =>
    cases hstep
    exact .inl (List.Sublist.refl _)

theorem run_waiters_sorted (hquiet : start.Quiet) (hrun : Run (WakeOneStep h) start run) :
    AgeSorted (WaitsFor h) start run ((lastState start run).headers h).waiters := by
  induction hrun with
  | nil =>
    simp only [lastState]
    rw [hquiet.2.2 h]
    exact List.Pairwise.nil
  | @cons past e w hrun last ih =>
    have hinv := run_waitInv hquiet hrun
    have hinv' := hinv.step last.1
    have hwait : ∀ x ∈ (w.headers h).waiters, WaitsFor h w x :=
      fun x hx => ⟨(hinv'.waiter h x hx).1, (hinv'.waiter h x hx).2.1⟩
    simp only [lastState]
    rcases waiters_step hinv last.1 h with hsub | ⟨t, hpush, hnew⟩
    · exact ih.keep (WaitsFor h) hsub hwait
    · rw [hpush] at hwait ⊢
      exact ih.push (WaitsFor h) (List.Sublist.refl _) (fun x hx => hwait x (by simp [hx])) hnew

/-! ## Timeouts -/

/-- Thread `t` starts a wait. -/
def enters (t : Nat) : WaitEvent → Bool
  | .enter u _ _ _ _ => u == t
  | _ => false

/-- A signal satisfies the block of thread `t`. -/
def satisfies (t : Nat) : WaitEvent → Bool
  | .signal _ _ _ woken => woken.contains t
  | _ => false

/-- A wait of thread `t` returns. -/
def returns (t : Nat) (r : WaitResult) : WaitEvent → Bool
  | .enter u _ _ _ result => u == t && result == some r
  | .resume u _ result => u == t && result == some r
  | _ => false

theorem satisfied_step {t : Nat} (hstep : WaitStep w e w')
    (hnot : enters t e = false) (h : t ∉ w.live ∨ (w.block t).satisfied = true) :
    t ∉ w'.live ∨ (w'.block t).satisfied = true := by
  cases e with
  | enter u d timeout now result =>
    have hne : t ≠ u := by
      rintro rfl
      simp [enters] at hnot
    rcases enterWait_cases hstep.2 with ⟨-, -, rfl⟩ | ⟨-, -, rfl⟩ | ⟨-, -, rfl⟩
    · exact h
    · exact h
    · simpa [Waits.queued, hne] using h
  | resume u d result =>
    rcases recheck_cases hstep.2.2 with ⟨-, -, -, rfl⟩ | ⟨-, -, rfl⟩ | ⟨-, -, rfl⟩
    · exact h
    · exact h.imp_left fun hlive hmem => hlive (Finset.mem_of_mem_erase hmem)
    · exact h.imp_left fun hlive hmem => hlive (Finset.mem_of_mem_erase hmem)
  | signal d wakeAll already woken =>
    have hkeep : ∀ ts header, t ∉ ((w.satisfy ts).setHeader d header).live ∨
        (((w.satisfy ts).setHeader d header).block t).satisfied = true := by
      intro ts header
      refine h.imp_right fun hsat => ?_
      simp only [Waits.setHeader, Waits.satisfy]
      split
      · rfl
      · exact hsat
    rcases signalHeader_cases hstep.2 with ⟨-, -, rfl⟩ | ⟨-, u, rest, -, -, rfl⟩ | ⟨-, -, -, rfl⟩
    · exact hkeep _ _
    · exact hkeep _ _
    · exact h
  | tick now woken =>
    cases hstep
    refine h.imp_right fun hsat => ?_
    simp only [Waits.expireBlocks]
    split <;> exact hsat

theorem satisfied_of_satisfies {t : Nat} (hstep : WaitStep w e w')
    (hsat : satisfies t e = true) : (w'.block t).satisfied = true := by
  cases e with
  | signal d wakeAll already woken =>
    have hmem : t ∈ woken := by simpa [satisfies] using hsat
    rcases signalHeader_cases hstep.2 with
      ⟨-, rfl, rfl⟩ | ⟨-, u, rest, -, rfl, rfl⟩ | ⟨-, -, rfl, -⟩
    · simp [Waits.setHeader, Waits.satisfy, hmem]
    · obtain rfl := List.mem_singleton.1 hmem
      simp [Waits.setHeader, Waits.satisfy]
    · simp at hmem
  | _ => simp [satisfies] at hsat

theorem not_satisfied_before_timeout {t d : Nat} {mid older : List (WaitEvent × Waits)}
    (hrun : Run (WakeOneStep h) start ((.resume t d (some .timeout), w) :: (mid ++ older)))
    (hmid : ∀ x ∈ mid, enters t x.1 = false) : ∀ x ∈ mid, satisfies t x.1 = false := by
  cases hrun with
  | cons hrun last =>
    -- Otherwise the block would still be satisfied when the thread looks at it.
    have hkept : (∃ x ∈ mid, satisfies t x.1 = true) →
        t ∉ (lastState start (mid ++ older)).live ∨
          ((lastState start (mid ++ older)).block t).satisfied = true := by
      clear last
      induction mid with
      | nil => rintro ⟨x, hx, -⟩; simp at hx
      | cons x mid ih =>
        obtain ⟨e, w'⟩ := x
        cases hrun with
        | cons hrun last =>
          rintro ⟨y, hy, hsat⟩
          rcases List.mem_cons.1 hy with rfl | hy
          · exact .inr (satisfied_of_satisfies last.1 hsat)
          · exact satisfied_step last.1 (hmid (e, w') (by simp))
              (ih (fun z hz => hmid z (by simp [hz])) hrun ⟨y, hy, hsat⟩)
    intro x hx
    by_contra hne
    obtain ⟨hlive, -, hstep⟩ := last.1
    rcases recheck_cases hstep with ⟨-, -, hr, -⟩ | ⟨-, hr, -⟩ | ⟨hsat, -, -⟩
    · cases hr
    · cases hr
    · rcases hkept ⟨x, hx, by simpa using hne⟩ with hgone | hsat'
      · exact hgone hlive
      · rw [hsat] at hsat'
        cases hsat'

theorem timeout_keeps_signals {t : Nat} (hstep : WaitStep w e w')
    (hreturn : returns t .timeout e = true) :
    (∀ d, (w'.headers d).signalled = (w.headers d).signalled) ∧
      ∀ d, w'.pending d = w.pending d := by
  cases e with
  | enter u d timeout now result =>
    rcases enterWait_cases hstep.2 with ⟨-, rfl, -⟩ | ⟨-, -, rfl⟩ | ⟨-, rfl, -⟩
    · simp [returns] at hreturn
    · exact ⟨fun _ => rfl, fun _ => rfl⟩
    · simp [returns] at hreturn
  | resume u d result =>
    rcases recheck_cases hstep.2.2 with ⟨-, -, rfl, -⟩ | ⟨-, rfl, -⟩ | ⟨hsat, -, rfl⟩
    · simp [returns] at hreturn
    · simp [returns] at hreturn
    · constructor
      · intro c
        by_cases hc : c = (w.block u).header
        · subst hc
          simp
        · simp [hc]
      · intro c
        ext x
        by_cases hx : x = u
        · subst hx
          simp [hsat]
        · simp [hx]
  | _ => simp [returns] at hreturn

theorem not_live_of_returns {t : Nat} {r : WaitResult}
    (hstep : WaitStep w e w') (hreturn : returns t r e = true) : t ∉ w'.live := by
  cases e with
  | enter u d timeout now result =>
    have hu : u = t ∧ result = some r := by simpa [returns] using hreturn
    obtain ⟨rfl, rfl⟩ := hu
    rcases enterWait_cases hstep.2 with ⟨-, -, rfl⟩ | ⟨-, -, rfl⟩ | ⟨-, hr, -⟩
    · exact hstep.1
    · exact hstep.1
    · cases hr
  | resume u d result =>
    have hu : u = t ∧ result = some r := by simpa [returns] using hreturn
    obtain ⟨rfl, rfl⟩ := hu
    rcases recheck_cases hstep.2.2 with ⟨-, -, hr, -⟩ | ⟨-, -, rfl⟩ | ⟨-, -, rfl⟩
    · cases hr
    · simp
    · simp
  | _ => simp [returns] at hreturn

/-- Over every interleaving of waits, ticks and signals that wake one thread, from a state
without waits:

1. successes, satisfied blocks still waiting and a pending signal account for every signal
   of the auto-reset header that did not find one pending;
2. a wait that returns a timeout has consumed none: it leaves signals and satisfied blocks
   as they are, and no signal satisfied it since it started;
3. a signal satisfies the thread that has waited longest among the unsatisfied ones;
4. when a wait has returned, its block is on no list. -/
theorem signal_accounting (hquiet : start.Quiet)
    (hauto : (start.headers h).manualReset = false) (hrun : Run (WakeOneStep h) start run) :
    (times (returnsSuccess h) run + ((lastState start run).pending h).card +
        (lastState start run).signalCount h + times (findsSignalled h) run =
      times (signals h) run + start.signalCount h) ∧
    (∀ e w past t, run = (e, w) :: past → returns t .timeout e = true →
      (∀ d, (w.headers d).signalled = ((lastState start past).headers d).signalled) ∧
      (∀ d, w.pending d = (lastState start past).pending d) ∧
      ∀ d mid older, e = .resume t d (some .timeout) → past = mid ++ older →
        (∀ x ∈ mid, enters t x.1 = false) → ∀ x ∈ mid, satisfies t x.1 = false) ∧
    (∀ wakeAll already woken w past, run = (.signal h wakeAll already woken, w) :: past →
      ∀ t ∈ woken, ∀ u, WaitsFor h (lastState start past) u →
        ((lastState start past).block u).satisfied = false →
          age (fun w => WaitsFor h w u) start past ≤ age (fun w => WaitsFor h w t) start past) ∧
    ∀ e w past t r, run = (e, w) :: past → returns t r e = true →
      t ∉ w.timed ∧ ∀ d, t ∉ (w.headers d).waiters := by
  refine ⟨run_accounting hquiet hauto hrun, ?_, ?_, ?_⟩
  · rintro e w past t rfl hreturn
    have hlast : WaitStep (lastState start past) e w := by
      cases hrun with
      | cons _ last => exact last.1
    obtain ⟨hsignals, hpending⟩ := timeout_keeps_signals hlast hreturn
    refine ⟨hsignals, hpending, ?_⟩
    rintro d mid older rfl rfl hmid
    exact not_satisfied_before_timeout hrun hmid
  · rintro wakeAll already woken w past rfl t ht u ⟨hlive, hheader⟩ hsat
    cases hrun with
    | cons hrun last =>
      obtain ⟨⟨-, hstep⟩, hone⟩ := last
      obtain rfl : wakeAll = false := hone rfl
      have hinv := run_waitInv hquiet hrun
      have ha := run_autoReset hquiet hauto hrun
      have hmem := hinv.linked u hlive hsat
      rw [hheader] at hmem
      have hsorted := run_waiters_sorted hquiet hrun
      rcases signalHeader_cases hstep with ⟨hall, -, -⟩ | ⟨-, x, rest, hw, rfl, -⟩ | ⟨-, hw, -, -⟩
      · simp [ha.auto] at hall
      · obtain rfl := List.mem_singleton.1 ht
        -- The head of a list sorted by age is the oldest.
        rw [hw] at hmem hsorted
        rcases List.mem_cons.1 hmem with rfl | hmem
        · exact le_rfl
        · exact (List.pairwise_cons.1 hsorted).1 u hmem
      · rw [hw] at hmem
        simp at hmem
  · rintro e w past t r rfl hreturn
    have hinv := run_waitInv hquiet hrun
    have hlast : WaitStep (lastState start past) e w := by
      cases hrun with
      | cons _ last => exact last.1
    have hgone := not_live_of_returns hlast hreturn
    exact ⟨fun hmem => hgone (hinv.timed t hmem).1, fun d hmem => hgone (hinv.waiter d t hmem).1⟩

end

/-- One auto-reset header, not signalled, and no waits. -/
def freshWaits : Waits where
  headers := fun _ => { manualReset := false }
  timed := []
  live := ∅
  block := fun _ => {}

/-- A block that is timed out and then signalled before its thread runs again: the wait
returns success, and the books balance. -/
theorem signal_accounting_sample : ∃ run, Run (WakeOneStep 0) freshWaits run ∧
    run.map Prod.fst = [.resume 7 0 (some .success), .signal 0 false false [7], .tick 9000000 [7],
      .enter 7 0 5 0 none] ∧
    times (returnsSuccess 0) run + ((lastState freshWaits run).pending 0).card +
        (lastState freshWaits run).signalCount 0 + times (findsSignalled 0) run = 1 := by
  have hrun : Run (WakeOneStep 0) freshWaits [(.resume 7 0 (some .success), _),
      (.signal 0 false false [7], _), (.tick 9000000 [7], _), (.enter 7 0 5 0 none, _)] :=
    (((Run.nil.cons ⟨⟨by decide, rfl⟩, trivial⟩).cons ⟨rfl, trivial⟩).cons
      ⟨⟨rfl, rfl⟩, fun _ => rfl⟩).cons ⟨⟨by decide, rfl, rfl⟩, trivial⟩
  exact ⟨_, hrun, rfl, (signal_accounting (h := 0) ⟨rfl, rfl, fun _ => rfl⟩ rfl hrun).1⟩

end UnDOS.Sched
