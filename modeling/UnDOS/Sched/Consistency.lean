import UnDOS.Sched.Invariant

/-!
# The Scheduler's State over Whole Runs

`create_idle_thread` unlinks the new idle thread from the queue of every CPU, and each of
these removals counts the queue down, whether the thread was on it or not.  A queue that
holds threads at that moment has a wrong size from then on (`wrong_size_after_init_ap`).
-/

namespace UnDOS.Sched

open UnDOS.Lib
open UnDOS.Lib.Intrusive

/-- Threads, ready queues and CPUs agree; `Q` are the threads linked in each queue. -/
structure Consistent (s : Scheduler) (Q : Nat → List Nat) : Prop where
  linked : ∀ c < maxCpus, IsList s.links (s.ready c) (Q c)
  size : ∀ c < maxCpus, (s.ready c).count = (Q c).length
  ready : ∀ t < s.created, s.state t = .ready ↔ ∃! c, c < maxCpus ∧ t ∈ Q c
  running : ∀ t < s.created, s.state t = .running ↔ ∃! c, c < maxCpus ∧ s.current c = some t
  /-- A current thread is running, and is current on no other CPU. -/
  current : ∀ c < maxCpus, ∀ t, s.current c = some t →
    s.state t = .running ∧ ∀ d < maxCpus, s.current d = some t → d = c
  elsewhere : ∀ t < s.created, s.state t = .blocked ∨ s.state t = .terminated →
    ∀ c < maxCpus, t ∉ Q c
  known : ∀ c < maxCpus, (∀ t ∈ Q c, t < s.created) ∧ ∀ t, s.current c = some t → t < s.created

/-- An application processor comes up only while every ready queue is empty. -/
def BringsUpQuietly (s : Scheduler) : Action → Prop
  | .initAp _ => ∀ c < maxCpus, (s.ready c).head = none
  | _ => True

variable {Q : Nat → List Nat}

theorem Inv.queue_bound {s : Scheduler} (h : Inv s Q) {c t : Nat} (ht : t ∈ Q c) : c < maxCpus := by
  cases hup : (s.cpus c).online with
  | true => exact h.bound c hup
  | false =>
    rw [(h.offline c hup).1] at ht
    simp at ht

theorem Inv.current_bound {s : Scheduler} (h : Inv s Q) {c t : Nat}
    (ht : s.current c = some t) : c < maxCpus := by
  cases hup : (s.cpus c).online with
  | true => exact h.bound c hup
  | false =>
    rw [(h.offline c hup).2] at ht
    cases ht

theorem Inv.consistent {s : Scheduler} (h : Inv s Q) : Consistent s Q := by
  constructor
  · exact fun c _ => h.family.isList c
  · exact fun c _ => h.family.count c
  · intro t ht
    constructor
    · intro hready
      obtain ⟨c, hc⟩ := h.placed.ready_queued t ht hready
      exact ⟨c, ⟨h.queue_bound hc, hc⟩, fun d hd => h.family.disjoint d c t hd.2 hc⟩
    · rintro ⟨c, ⟨-, hc⟩, -⟩
      exact (h.placed.queued c t hc).2
  · intro t ht
    constructor
    · intro hrunning
      obtain ⟨c, hc⟩ := h.placed.running_on_cpu t ht hrunning
      exact ⟨c, ⟨h.current_bound hc, hc⟩, fun d hd => h.placed.once d c t hd.2 hc⟩
    · rintro ⟨c, ⟨-, hc⟩, -⟩
      exact (h.placed.on_cpu c t hc).2
  · intro c _ t hc
    exact ⟨(h.placed.on_cpu c t hc).2, fun d _ hd => h.placed.once d c t hd hc⟩
  · intro t ht hstate c _ hmem
    have hready := (h.placed.queued c t hmem).2
    rcases hstate with hs | hs <;> (rw [hs] at hready; cases hready)
  · exact fun c _ => ⟨fun t ht => (h.placed.queued c t ht).1,
      fun t ht => (h.placed.on_cpu c t ht).1⟩

theorem Inv.step {s : Scheduler} (h : Inv s Q) {a : Action}
    (henabled : Enabled s a) (hquiet : BringsUpQuietly s a) :
    ∃ s' Q', step s a = some s' ∧ Inv s' Q' ∧ ∀ d, Serves s (Q d) (Q' d) := by
  have hdown : ∀ c, c < maxCpus → ¬IsUp s c → (s.cpus c).online = false := by
    intro c hc hnot
    simpa [IsUp, hc] using hnot
  cases a with
  | initBsp c =>
    obtain ⟨hc, hnone⟩ := henabled
    have hall : ∀ d, (s.cpus d).online = false := by
      intro d
      cases hup : (s.cpus d).online with
      | true => exact absurd ⟨h.bound d hup, hup⟩ (hnone d (h.bound d hup))
      | false => rfl
    obtain ⟨Q', hinv⟩ := h.bringUp hc (hall c) fun d => (h.offline d (hall d)).1
    exact ⟨_, Q', rfl, hinv⟩
  | initAp c =>
    obtain ⟨hc, hnot, -⟩ := henabled
    have hempty : ∀ d, Q d = [] := by
      intro d
      by_cases hd : d < maxCpus
      · have hhead := (h.family.isList d).head
        rw [hquiet d hd] at hhead
        exact List.head?_eq_none_iff.1 hhead.symm
      · refine (h.offline d ?_).1
        cases hup : (s.cpus d).online with
        | true => exact absurd (h.bound d hup) hd
        | false => rfl
    obtain ⟨Q', hinv⟩ := h.bringUp hc (hdown c hc hnot) hempty
    exact ⟨_, Q', rfl, hinv⟩
  | createThread c priority =>
    obtain ⟨Q', hinv⟩ := h.createThread ⟨c, henabled⟩ priority
    exact ⟨_, Q', rfl, hinv⟩
  | yield c => exact h.scheduleNext henabled.2
  | block c => exact h.leaveCpu henabled.1.2 henabled.2 (by simp) (by simp)
  | unblock c t =>
    obtain ⟨Q', hinv⟩ := h.readyLocked ⟨c, henabled.1⟩ henabled.2
    exact ⟨_, Q', rfl, hinv⟩
  | tick c => exact h.schedTick henabled.2
  | terminate c => exact h.leaveCpu henabled.1.2 henabled.2 (by simp) (by simp)

theorem run_inv {run : List (Action × Scheduler)}
    (h : Run (fun s a s' => Step s a s' ∧ BringsUpQuietly s a) Scheduler.initial run) :
    ∃ Q, Inv (lastState Scheduler.initial run) Q := by
  apply h.invariant (I := fun s => ∃ Q, Inv s Q) ⟨_, inv_initial⟩
  rintro s a s' ⟨Q, hinv⟩ ⟨⟨henabled, hstep⟩, hquiet⟩
  obtain ⟨t, Q', ht, hinv', -⟩ := hinv.step henabled hquiet
  obtain rfl : t = s' := Option.some.inj (ht.symm.trans hstep)
  exact ⟨Q', hinv'⟩

/-- In every run in which application processors come up while the ready queues are empty,
every state is consistent, and every further action of this kind leads to a next state. -/
theorem scheduler_consistent {run : List (Action × Scheduler)}
    (h : Run (fun s a s' => Step s a s' ∧ BringsUpQuietly s a) Scheduler.initial run) :
    (∃ Q, Consistent (lastState Scheduler.initial run) Q) ∧
      ∀ a, Enabled (lastState Scheduler.initial run) a →
        BringsUpQuietly (lastState Scheduler.initial run) a →
          ∃ s', step (lastState Scheduler.initial run) a = some s' := by
  obtain ⟨Q, hinv⟩ := run_inv h
  refine ⟨⟨Q, hinv.consistent⟩, ?_⟩
  intro a henabled hquiet
  obtain ⟨s', -, hstep, -⟩ := hinv.step henabled hquiet
  exact ⟨s', hstep⟩

/-- The bootstrap processor comes up, creates a thread of priority 3 and yields to it. -/
theorem scheduler_consistent_sample : ∃ run s,
    Run (fun s a s' => Step s a s' ∧ BringsUpQuietly s a) Scheduler.initial run ∧
    lastState Scheduler.initial run = s ∧ s.current 0 = some 2 ∧ ∃ Q, Consistent s Q := by
  have h : Run (fun s a s' => Step s a s' ∧ BringsUpQuietly s a) Scheduler.initial
      [(.yield 0, _), (.createThread 0 3, _), (.initBsp 0, _)] :=
    ((Run.nil.cons ⟨⟨by decide, rfl⟩, trivial⟩).cons ⟨⟨by decide, rfl⟩, trivial⟩).cons
      ⟨⟨by decide, rfl⟩, trivial⟩
  exact ⟨_, _, h, rfl, rfl, (scheduler_consistent h).1⟩

/-- The second CPU comes up while the idle thread of the first is queued: that queue then
holds a thread and has size 0. -/
theorem wrong_size_after_init_ap : ∃ run, Run Step Scheduler.initial run ∧
    run.map Prod.fst = [.initAp 1, .initBsp 0] ∧
    ¬∃ Q, Consistent (lastState Scheduler.initial run) Q := by
  have h : Run Step Scheduler.initial [(.initAp 1, _), (.initBsp 0, _)] :=
    (Run.nil.cons ⟨by decide, rfl⟩).cons ⟨by decide, rfl⟩
  refine ⟨_, h, rfl, ?_⟩
  rintro ⟨Q, hcons⟩
  have hhead : some 1 = (Q 0).head? := (hcons.linked 0 (by decide)).head
  have hsize : 0 = (Q 0).length := hcons.size 0 (by decide)
  rw [List.length_eq_zero_iff.1 hsize.symm] at hhead
  cases hhead

end UnDOS.Sched
