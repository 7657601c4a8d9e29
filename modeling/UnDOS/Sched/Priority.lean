import UnDOS.Sched.Consistency

/-!
# Priorities at Scheduling Points

`schedule_next` picks among the queued threads before it puts the outgoing thread back.
The pick is the oldest thread of greatest priority in the queue
(`schedulingPoint_spec`, `run_sorted`); the outgoing thread itself is not compared with it.
-/

namespace UnDOS.Sched

open UnDOS.Lib
open UnDOS.Lib.Intrusive

/-! ## One CPU -/

/-- Only the bootstrap processor is brought up. -/
def OneCpu : Action → Prop
  | .initAp _ => False
  | _ => True

/-- The steps of a machine with one CPU. -/
def OneCpuStep (s : Scheduler) (a : Action) (s' : Scheduler) : Prop := Step s a s' ∧ OneCpu a

variable {s s' : Scheduler}

theorem quiet_of_oneCpu {a : Action} (h : OneCpu a) : BringsUpQuietly s a := by
  cases a <;> trivial

theorem scheduleNext_online {c : Nat} (h : scheduleNext s c = some s') (d : Nat) :
    (s'.cpus d).online = (s.cpus d).online := by
  unfold scheduleNext at h
  dsimp only at h
  split at h
  · cases h
  · split at h
    · rw [← Option.some.inj h]
    · rw [← Option.some.inj h]
      rfl
  · rw [← Option.some.inj h]
    unfold switchTo requeue
    split
    · simp
    · split <;> simp

theorem step_online {a : Action} (hbsp : ∀ c, a ≠ .initBsp c)
    (hap : ∀ c, a ≠ .initAp c) (h : step s a = some s') (d : Nat) :
    (s'.cpus d).online = (s.cpus d).online := by
  cases a with
  | initBsp c => exact absurd rfl (hbsp c)
  | initAp c => exact absurd rfl (hap c)
  | createThread c priority =>
    rw [← Option.some.inj h]
    exact (sameButQueues_enqueueOn _ _ _).online d
  | yield c => exact scheduleNext_online h d
  | block c | terminate c =>
    change leaveCpu s c _ = some s' at h
    unfold leaveCpu at h
    split at h
    · exact scheduleNext_online h d
    · exact scheduleNext_online h d
  | unblock c t =>
    rw [← Option.some.inj h]
    unfold readyLocked
    split
    · exact (sameButQueues_enqueueOn _ _ _).online d
    · rfl
  | tick c =>
    change schedTick s c = some s' at h
    unfold schedTick at h
    split at h
    · rw [← Option.some.inj h]
    · dsimp only at h
      split at h
      · exact scheduleNext_online h d
      · rw [← Option.some.inj h]
        rfl

theorem bringUp_online {c d : Nat}
    (h : ((bringUp s c).cpus d).online = true) : d = c ∨ (s.cpus d).online = true := by
  unfold bringUp createIdleThread at h
  rw [Scheduler.online_setIdle, (sameButQueues_enqueueOn _ _ _).online,
    (sameButQueues_unlinkEverywhere _ _ _).online] at h
  unfold createThread at h
  rw [(sameButQueues_enqueueOn _ _ _).online, newThread_cpus, adoptStream_online] at h
  by_cases hd : d = c
  · exact .inl hd
  · rw [if_neg hd] at h
    exact .inr h

theorem run_oneCpu {run : List (Action × Scheduler)} (h : Run OneCpuStep Scheduler.initial run) :
    ∀ c d, IsUp (lastState Scheduler.initial run) c →
      IsUp (lastState Scheduler.initial run) d → c = d := by
  apply h.invariant (I := fun s => ∀ c d, IsUp s c → IsUp s d → c = d)
  · rintro c d ⟨-, hc⟩ -
    cases hc
  · rintro s a s' ih ⟨⟨henabled, hstep⟩, hone⟩
    cases a with
    | initAp c => exact hone.elim
    | initBsp b =>
      -- No CPU was up before.
      cases hstep
      have hall : ∀ c, IsUp (initBsp s b) c → c = b := by
        intro c hc
        rcases bringUp_online hc.2 with rfl | hold
        · rfl
        · exact absurd ⟨hc.1, hold⟩ (henabled.2 c hc.1)
      intro c d hc hd
      rw [hall c hc, hall d hd]
    | _ =>
      intro c d hc hd
      have honline := step_online (by simp) (by simp) hstep
      exact ih c d ⟨hc.1, (honline c).symm.trans hc.2⟩ ⟨hd.1, (honline d).symm.trans hd.2⟩

/-! ## The queues are sorted by age -/

/-- In every state of a run, no thread of a queue has waited longer than one before it. -/
theorem run_sorted {run : List (Action × Scheduler)} (h : Run OneCpuStep Scheduler.initial run) :
    ∃ Q, Inv (lastState Scheduler.initial run) Q ∧
      ∀ c, AgeSorted Waiting Scheduler.initial run (Q c) := by
  induction h with
  | nil => exact ⟨_, inv_initial, fun c => List.Pairwise.nil⟩
  | cons h last ih =>
    obtain ⟨Q, hinv, hsorted⟩ := ih
    obtain ⟨⟨henabled, hstep⟩, hone⟩ := last
    obtain ⟨t, Q', ht, hinv', hserves⟩ := hinv.step henabled (quiet_of_oneCpu hone)
    obtain rfl := Option.some.inj (ht.symm.trans hstep)
    refine ⟨Q', hinv', fun c => ?_⟩
    have hwait : ∀ x ∈ Q' c, Waiting t x := hinv'.placed.queued c
    rcases hserves c with hsub | ⟨M, x, hQ, hsub, hnew⟩
    · exact (hsorted c).keep Waiting hsub hwait
    · rw [hQ] at hwait ⊢
      exact (hsorted c).push Waiting hsub (fun y hy => hwait y (by simp [hy])) hnew

/-! ## Scheduling points -/

/-- `schedule_next` is called on CPU `c` while its thread is still runnable: it yields, or
its quantum ends with this tick. -/
def SchedulingPoint (s : Scheduler) (c : Nat) : Action → Prop
  | .yield cpu => cpu = c
  | .tick cpu => cpu = c ∧ ∀ p, s.current c = some p → (s.threads p).quantumTicks ≤ 1
  | _ => False

/-- What a scheduling point does: nothing if the queue is empty, otherwise the first thread
of greatest priority in the queue takes the CPU. -/
theorem schedulingPoint_spec {Q : Nat → List Nat} (h : Inv s Q) {c p : Nat}
    (hp : s.current c = some p) {a : Action} (hpoint : SchedulingPoint s c a)
    (hstep : step s a = some s') : (Q c = [] ∧ s'.current c = some p) ∨
      ∃ A n B, Q c = A ++ n :: B ∧ s'.current c = some n ∧
        (∀ x ∈ A, s.priority x < s.priority n) ∧ ∀ x ∈ B, s.priority x ≤ s.priority n := by
  -- A tick that ends the quantum calls `schedule_next` on a state that differs in the quantum.
  have hnext : ∃ s₁, scheduleNext s₁ c = some s' ∧ Inv s₁ Q ∧ s₁.current = s.current ∧
      s₁.priority = s.priority := by
    cases a with
    | yield cpu =>
      obtain rfl : cpu = c := hpoint
      exact ⟨s, hstep, h, rfl, rfl⟩
    | tick cpu =>
      obtain ⟨rfl, hquantum⟩ := hpoint
      have hle := hquantum p hp
      change schedTick s cpu = some s' at hstep
      unfold schedTick at hstep
      rw [hp] at hstep
      have hzero : ((s.setQuantum p ((s.threads p).quantumTicks - 1)).threads p).quantumTicks =
          0 := by
        simp only [Scheduler.setQuantum, Function.update_self]
        exact Nat.sub_eq_zero_of_le hle
      dsimp only at hstep
      rw [if_pos hzero] at hstep
      exact ⟨_, hstep, h.setQuantum p _, rfl, Scheduler.priority_setQuantum s p _⟩
    | _ => exact hpoint.elim
  obtain ⟨s₁, hnext, hinv, hcurrent, hpriority⟩ := hnext
  have hp₁ : s₁.current c = some p := hcurrent ▸ hp
  have hself := setState_self (hinv.placed.on_cpu c p hp₁).2
  by_cases hQ : Q c = []
  · left
    have hrun := hinv.scheduleNext_empty hp₁ hQ .running
    rw [hself, hnext] at hrun
    rw [Option.some.inj hrun]
    exact ⟨hQ, hp₁⟩
  · right
    obtain ⟨A, n, B, hsplit, hA, hB, hrun⟩ := hinv.scheduleNext_switch hp₁ hQ .running
    rw [hself, hnext] at hrun
    rw [hpriority] at hA hB
    refine ⟨A, n, B, hsplit, ?_, hA, hB⟩
    rw [Option.some.inj hrun]
    unfold switchTo
    simp

/-- A thread that could run on the one CPU. -/
def Runnable (s : Scheduler) (t : Nat) : Prop :=
  t < s.created ∧ (s.state t = .ready ∨ s.state t = .running)

/-- How many states in a row, up to the last one, the thread has been waiting for a CPU. -/
def waited (run : List (Action × Scheduler)) (t : Nat) : Nat :=
  age (fun s => Waiting s t) Scheduler.initial run

/-- The thread that runs in `s'` has a priority no lower than that of every thread that was
runnable at the end of the run, and among those of its own priority it has waited longest. -/
def PriorityRespected (run : List (Action × Scheduler)) (c : Nat) (s' : Scheduler) : Prop :=
  ∃ n, s'.current c = some n ∧ ∀ t, Runnable (lastState Scheduler.initial run) t →
    (lastState Scheduler.initial run).priority t ≤ (lastState Scheduler.initial run).priority n ∧
    ((lastState Scheduler.initial run).priority t = (lastState Scheduler.initial run).priority n →
      waited run t ≤ waited run n)

/-- The ready queue is empty, or some waiting thread has a priority no lower than that of the
current thread. -/
def OutgoingIsMatched (s : Scheduler) (c : Nat) : Prop :=
  (s.ready c).head = none ∨
    ∃ t, Waiting s t ∧ ∀ p, s.current c = some p → s.priority p ≤ s.priority t

/-- On one CPU, in every state of every run, a scheduling point respects the priorities
exactly when the outgoing thread is matched by a waiting one or nothing waits. -/
theorem priority_respected_iff {run : List (Action × Scheduler)}
    (h : Run OneCpuStep Scheduler.initial run) {c : Nat} {a : Action} {s' : Scheduler}
    (hup : IsUp (lastState Scheduler.initial run) c)
    (hpoint : SchedulingPoint (lastState Scheduler.initial run) c a)
    (hstep : step (lastState Scheduler.initial run) a = some s') :
    PriorityRespected run c s' ↔ OutgoingIsMatched (lastState Scheduler.initial run) c := by
  obtain ⟨Q, hinv, hsorted⟩ := run_sorted h
  have hone := run_oneCpu h
  unfold PriorityRespected waited
  generalize hs : lastState Scheduler.initial run = s at *
  obtain ⟨p, hp⟩ := hinv.busy c hup.2
  -- The runnable threads are the current one and the queued ones.
  have hqueued : ∀ t, Waiting s t → t ∈ Q c := by
    rintro t ⟨ht, hready⟩
    obtain ⟨d, hd⟩ := hinv.placed.ready_queued t ht hready
    cases hdup : (s.cpus d).online with
    | true => rwa [hone c d hup ⟨hinv.bound d hdup, hdup⟩]
    | false =>
      rw [(hinv.offline d hdup).1] at hd
      simp at hd
  have hrunnable : ∀ t, Runnable s t → t ∈ Q c ∨ t = p := by
    rintro t ⟨ht, hready | hrunning⟩
    · exact .inl (hqueued t ⟨ht, hready⟩)
    · obtain ⟨d, hd⟩ := hinv.placed.running_on_cpu t ht hrunning
      have hdup : (s.cpus d).online = true := by
        by_contra hdown
        rw [(hinv.offline d (by simpa using hdown)).2] at hd
        cases hd
      rw [← hone c d hup ⟨hinv.bound d hdup, hdup⟩, hp] at hd
      exact .inr (Option.some.inj hd).symm
  rcases schedulingPoint_spec hinv hp hpoint hstep with ⟨hQ, hcur⟩ | ⟨A, n, B, hQ, hcur, hA, hB⟩
  · constructor
    · intro _
      left
      rw [(hinv.family.isList c).head, hQ]
      rfl
    · intro _
      refine ⟨p, hcur, fun t ht => ?_⟩
      rcases hrunnable t ht with hmem | rfl
      · rw [hQ] at hmem
        simp at hmem
      · exact ⟨.refl, fun _ => .refl⟩
  · have hnwait : Waiting s n := hinv.placed.queued c n (by simp [hQ])
    have hbest : ∀ t ∈ Q c, s.priority t ≤ s.priority n := by
      intro t ht
      rw [hQ] at ht
      rcases List.mem_append.1 ht with ht | ht
      · exact Nat.le_of_lt (hA t ht)
      · rcases List.mem_cons.1 ht with rfl | ht
        · exact .refl
        · exact hB t ht
    constructor
    · -- The outgoing thread was runnable, so the incoming one matches it.
      rintro ⟨n', hn', hall⟩
      obtain rfl : n = n' := Option.some.inj (hcur.symm.trans hn')
      right
      refine ⟨n, hnwait, fun q hq => ?_⟩
      obtain rfl : p = q := Option.some.inj (hp.symm.trans hq)
      obtain ⟨hplt, hprun⟩ := hinv.placed.on_cpu c p hp
      exact (hall p ⟨hplt, .inr hprun⟩).1
    · intro hmatched
      have hple : s.priority p ≤ s.priority n := by
        rcases hmatched with hempty | ⟨t, hwait, hle⟩
        · rw [(hinv.family.isList c).head, hQ] at hempty
          rcases A with _ | ⟨a, A⟩ <;> simp at hempty
        · exact Nat.le_trans (hle p hp) (hbest t (hqueued t hwait))
      refine ⟨n, hcur, fun t ht => ?_⟩
      rcases hrunnable t ht with hmem | rfl
      · refine ⟨hbest t hmem, fun heq => ?_⟩
        have hsort := hsorted c
        rw [hQ] at hmem hsort
        unfold AgeSorted at hsort
        rw [List.pairwise_append, List.pairwise_cons] at hsort
        rcases List.mem_append.1 hmem with hmem | hmem
        · exact absurd heq (Nat.ne_of_lt (hA t hmem))
        · rcases List.mem_cons.1 hmem with rfl | hmem
          · exact .refl
          · exact hsort.2.1.1 t hmem
      · -- The outgoing thread has not waited at all.
        have hzero : age (fun s => Waiting s t) Scheduler.initial run = 0 :=
          age_of_not (fun s => Waiting s t) (by rw [hs]; exact hinv.not_waiting hp)
        exact ⟨hple, fun _ => hzero ▸ Nat.zero_le _⟩

/-- The first thread of the machine yields, and the idle thread takes the CPU. -/
theorem idle_preferred_on_yield : ∃ run s',
    Run OneCpuStep Scheduler.initial run ∧ run.map Prod.fst = [.initBsp 0] ∧
    IsUp (lastState Scheduler.initial run) 0 ∧
    step (lastState Scheduler.initial run) (.yield 0) = some s' ∧
    s'.current 0 = (s'.cpus 0).idle ∧ ¬PriorityRespected run 0 s' := by
  have h : Run OneCpuStep Scheduler.initial [(.initBsp 0, _)] :=
    Run.nil.cons ⟨⟨by decide, rfl⟩, trivial⟩
  refine ⟨_, _, h, rfl, by decide, rfl, rfl, ?_⟩
  rintro ⟨n, hn, hall⟩
  obtain rfl : 1 = n := Option.some.inj hn
  exact absurd (hall 0 ⟨by decide, .inr rfl⟩).1 (by decide)

/-- A thread of priority 3 is created; it takes the CPU at the next yield. -/
theorem priority_respected_iff_sample : ∃ run s', Run OneCpuStep Scheduler.initial run ∧
    step (lastState Scheduler.initial run) (.yield 0) = some s' ∧
    s'.current 0 = some 2 ∧ PriorityRespected run 0 s' := by
  have h : Run OneCpuStep Scheduler.initial [(.createThread 0 3, _), (.initBsp 0, _)] :=
    (Run.nil.cons ⟨⟨by decide, rfl⟩, trivial⟩).cons ⟨⟨by decide, rfl⟩, trivial⟩
  refine ⟨_, _, h, rfl, rfl,
    (priority_respected_iff h (c := 0) (a := .yield 0) (by decide) (rfl) rfl).2 ?_⟩
  right
  refine ⟨2, by decide, fun p hp => ?_⟩
  obtain rfl : 0 = p := Option.some.inj hp
  decide

end UnDOS.Sched
