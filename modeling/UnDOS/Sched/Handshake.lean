import UnDOS.Sched.Invariant
import UnDOS.Sched.WaitInvariant

/-!
# The Handshake between Waiting and Waking

Waits and the scheduler together, on any number of CPUs.  A thread inside
`KE_SCHED_WaitForHeader` is in its gap after it has released the wait lock and before
`block_current_locked` has marked it blocked; then it is parked until it runs again and
takes the lock.  Its CPU runs with interrupts off from the first lock to the return, so
nothing else happens on that CPU while the thread is current.
-/

namespace UnDOS.Sched

open UnDOS.Lib
open UnDOS.Lib.Intrusive
open Function (update update_eq_self update_of_ne update_self)

/-! ## The system -/

/-- Where a thread is with respect to `KE_SCHED_WaitForHeader`. -/
inductive WaitPc where
  | outside
  | gap
  | parked
deriving DecidableEq

structure System where
  sched : Scheduler
  waits : Waits
  pc : Nat → WaitPc

/-- `sched::ready_locked` for each thread that a section wakes. -/
def wakeThreads (s : Scheduler) : List Nat → Scheduler
  | [] => s
  | t :: rest => wakeThreads (readyLocked s t) rest

/-- The CPU that an action of the scheduler happens on. -/
def Action.cpu : Action → Nat
  | .initBsp cpu | .initAp cpu | .createThread cpu _ | .yield cpu | .block cpu | .unblock cpu _
  | .tick cpu | .terminate cpu => cpu

inductive SysAction where
  | sched (a : Action)
  | enter (cpu h : Nat) (timeout now : Int)
  | blockCurrent (cpu : Nat)
  | relock (cpu : Nat)
  | signal (cpu h : Nat) (wakeAll : Bool)
  | expire (cpu : Nat) (now : Int)
deriving DecidableEq

/-- The thread on a CPU is not inside a wait. -/
def System.IsFree (s : System) (cpu : Nat) : Prop :=
  match s.sched.current cpu with
  | none => True
  | some t => s.pc t = .outside

instance (s : System) (cpu : Nat) : Decidable (s.IsFree cpu) := by
  unfold System.IsFree
  split <;> infer_instance

/-- The thread on a CPU, when it is at this point of a wait. -/
def System.threadAt (s : System) (cpu : Nat) (pc : WaitPc) : Option Nat :=
  match s.sched.current cpu with
  | none => none
  | some t => if IsUp s.sched cpu ∧ s.pc t = pc then some t else none

/-- One step; `none` when the action is not possible. -/
def sysStep (s : System) : SysAction → Option System
  | .sched a =>
    if Enabled s.sched a ∧ s.IsFree a.cpu then
      (step s.sched a).map fun sched => { s with sched }
    else none
  | .enter cpu h timeout now =>
    (s.threadAt cpu .outside).map fun t =>
      let (waits, result) := enterWait s.waits t h timeout now
      { s with waits, pc := update s.pc t (if result = none then .gap else .outside) }
  | .blockCurrent cpu =>
    (s.threadAt cpu .gap).bind fun t =>
      (blockCurrentLocked s.sched cpu).map fun sched =>
        { s with sched, pc := update s.pc t .parked }
  | .relock cpu =>
    (s.threadAt cpu .parked).map fun t =>
      let (waits, result) := recheck s.waits t
      { s with waits, pc := update s.pc t (if result = none then .gap else .outside) }
  | .signal cpu h wakeAll =>
    if IsUp s.sched cpu ∧ s.IsFree cpu then
      let (waits, woken) := signalHeader s.waits h wakeAll
      some { s with waits, sched := wakeThreads s.sched woken }
    else none
  | .expire cpu now =>
    if IsUp s.sched cpu ∧ s.IsFree cpu then
      let (waits, woken) := expireTimed s.waits now
      some { s with waits, sched := wakeThreads s.sched woken }
    else none

/-- The block of a thread is satisfied or timed out. -/
def Waits.Marked (w : Waits) (t : Nat) : Prop :=
  (w.block t).satisfied = true ∨ (w.block t).timedOut = true

/-- A lost wake-up: the thread is blocked and on no ready queue, and its block is already
satisfied or timed out. -/
def System.Lost (s : System) (t : Nat) : Prop :=
  t ∈ s.waits.live ∧ s.sched.state t = .blocked ∧
    (∀ c < maxCpus, ¬Reaches s.sched.links (s.sched.ready c).head t) ∧ s.waits.Marked t

/-- The threads whose blocks a signal marks. -/
def Waits.released (w : Waits) (h : Nat) (wakeAll : Bool) : List Nat :=
  if (w.headers h).manualReset || wakeAll then (w.headers h).waiters
  else (w.headers h).waiters.take 1

/-- The action marks no block of a thread in its gap. -/
def MarksNoneInGap (s : System) : SysAction → Prop
  | .signal _ h wakeAll => ∀ t ∈ s.waits.released h wakeAll, s.pc t ≠ .gap
  | .expire _ now => ∀ t ∈ s.waits.due now, s.pc t ≠ .gap
  | _ => True

/-! ## Who can become blocked -/

section
variable {s s' : Scheduler} {t c : Nat}

theorem scheduleNext_blocked (h : scheduleNext s c = some s') (hb : s'.state t = .blocked) :
    s.state t = .blocked := by
  unfold scheduleNext at h
  dsimp only at h
  split at h
  · cases h
  · split at h
    · rwa [← Option.some.inj h] at hb
    · rwa [← Option.some.inj h, Scheduler.state_setQuantum] at hb
  · rename_i next lq _
    rw [← Option.some.inj h] at hb
    unfold switchTo at hb
    rw [Scheduler.state_setCurrent, Scheduler.state_setQuantum, Scheduler.state_setState] at hb
    have hne : t ≠ next := by
      rintro rfl
      simp at hb
    rw [update_of_ne hne] at hb
    unfold requeue at hb
    split at hb
    · exact hb
    · rename_i prev _
      split at hb
      · rw [Scheduler.state_setReady, Scheduler.state_setState] at hb
        have hne : t ≠ prev := by
          rintro rfl
          simp at hb
        rwa [update_of_ne hne] at hb
      · exact hb

theorem leaveCpu_blocked {st : ThreadState} (h : leaveCpu s c st = some s')
    (hb : s'.state t = .blocked) : s.state t = .blocked ∨ s.current c = some t := by
  unfold leaveCpu at h
  split at h
  · exact .inl (scheduleNext_blocked h hb)
  · rename_i cur hcur
    have hold := scheduleNext_blocked h hb
    by_cases hne : t = cur
    · exact .inr (by rw [hcur, hne])
    · rw [Scheduler.state_setState, update_of_ne hne] at hold
      exact .inl hold

theorem readyLocked_blocked {u : Nat} (hb : (readyLocked s u).state t = .blocked) :
    s.state t = .blocked ∧ t ≠ u := by
  unfold readyLocked at hb
  split at hb
  · rw [(sameButQueues_enqueueOn _ _ _).state, Scheduler.state_setState] at hb
    have hne : t ≠ u := by
      rintro rfl
      simp at hb
    rw [update_of_ne hne] at hb
    exact ⟨hb, hne⟩
  · rename_i hu
    refine ⟨hb, ?_⟩
    rintro rfl
    exact hu hb

theorem wakeThreads_blocked {ts : List Nat} (hb : (wakeThreads s ts).state t = .blocked) :
    s.state t = .blocked ∧ t ∉ ts := by
  induction ts generalizing s with
  | nil => exact ⟨hb, by simp⟩
  | cons u ts ih =>
    obtain ⟨hstate, hts⟩ := ih hb
    obtain ⟨hold, hne⟩ := readyLocked_blocked hstate
    exact ⟨hold, by simp [hne, hts]⟩

theorem bringUp_blocked (hb : (bringUp s c).state t = .blocked) : s.state t = .blocked := by
  unfold bringUp createIdleThread createThread at hb
  rw [Scheduler.state_setIdle, (sameButQueues_enqueueOn _ _ _).state,
    (sameButQueues_unlinkEverywhere _ _ _).state, (sameButQueues_enqueueOn _ _ _).state,
    newThread_state, adoptStream_state] at hb
  by_cases h₁ : t = (adoptStream s c).created
  · rw [h₁, update_self] at hb
    cases hb
  · rw [update_of_ne h₁] at hb
    by_cases h₂ : t = s.created
    · rw [h₂, update_self] at hb
      cases hb
    · rwa [update_of_ne h₂] at hb

theorem step_blocked {a : Action} (h : step s a = some s') (hb : s'.state t = .blocked) :
    s.state t = .blocked ∨ s.current a.cpu = some t := by
  cases a with
  | initBsp c =>
    rw [← Option.some.inj h] at hb
    exact .inl (bringUp_blocked hb)
  | initAp c =>
    rw [← Option.some.inj h] at hb
    exact .inl (bringUp_blocked hb)
  | createThread c priority =>
    left
    rw [← Option.some.inj h] at hb
    unfold createThread at hb
    rw [(sameButQueues_enqueueOn _ _ _).state, newThread_state] at hb
    by_cases hne : t = s.created
    · rw [hne, update_self] at hb
      cases hb
    · rwa [update_of_ne hne] at hb
  | yield c => exact .inl (scheduleNext_blocked h hb)
  | block c => exact leaveCpu_blocked h hb
  | terminate c => exact leaveCpu_blocked h hb
  | unblock c u =>
    rw [← Option.some.inj h] at hb
    exact .inl (readyLocked_blocked hb).1
  | tick c =>
    left
    change schedTick s c = some s' at h
    unfold schedTick at h
    split at h
    · rwa [← Option.some.inj h] at hb
    · dsimp only at h
      split at h
      · have hold := scheduleNext_blocked h hb
        rwa [Scheduler.state_setQuantum] at hold
      · rwa [← Option.some.inj h, Scheduler.state_setQuantum] at hb

end

/-! ## The invariant -/

/-- Threads with a block are those inside a wait, and a thread with a marked block is parked
and not blocked. -/
structure HandshakeInv (s : System) : Prop where
  waits : WaitInv s.waits
  live : ∀ t, t ∈ s.waits.live ↔ s.pc t ≠ .outside
  awake : ∀ t ∈ s.waits.live, s.waits.Marked t → s.pc t = .parked ∧ s.sched.state t ≠ .blocked

section
variable {s s' : System} {cpu t : Nat}

theorem threadAt_eq_some {pc : WaitPc} (h : s.threadAt cpu pc = some t) :
    s.sched.current cpu = some t ∧ s.pc t = pc := by
  unfold System.threadAt at h
  split at h
  · cases h
  · rename_i u hu
    split at h
    · rename_i hpc
      cases h
      exact ⟨hu, hpc.2⟩
    · cases h

theorem HandshakeInv.sched (hinv : HandshakeInv s) {a : Action}
    (h : sysStep s (.sched a) = some s') : HandshakeInv s' := by
  simp only [sysStep] at h
  split at h
  · rename_i hfree
    obtain ⟨sched, hstep, rfl⟩ := Option.map_eq_some_iff.1 h
    refine ⟨hinv.waits, hinv.live, ?_⟩
    intro t ht hmarked
    obtain ⟨hpc, hnot⟩ := hinv.awake t ht hmarked
    refine ⟨hpc, fun hb => ?_⟩
    rcases step_blocked hstep hb with hold | hcur
    · exact hnot hold
    · -- The thread of that CPU is not inside a wait.
      have hout := hfree.2
      unfold System.IsFree at hout
      rw [hcur] at hout
      exact (hinv.live t).1 ht hout
  · cases h

theorem HandshakeInv.enter (hinv : HandshakeInv s) {h : Nat} {timeout now : Int}
    (hs : sysStep s (.enter cpu h timeout now) = some s') : HandshakeInv s' := by
  obtain ⟨t, hthread, hs⟩ := Option.map_eq_some_iff.1 hs
  obtain ⟨-, hpc⟩ := threadAt_eq_some hthread
  have hout : t ∉ s.waits.live := fun hmem => (hinv.live t).1 hmem hpc
  rcases hent : enterWait s.waits t h timeout now with ⟨w, r⟩
  rw [hent] at hs
  have hwaits : WaitInv w := hinv.waits.step (e := .enter t h timeout now r) ⟨hout, hent⟩
  rw [← hs]
  -- Without a block nothing changes for the thread.
  have hself : update s.pc t .outside = s.pc := by
    rw [← hpc, update_eq_self]
  rcases enterWait_cases hent with ⟨-, rfl, rfl⟩ | ⟨-, rfl, rfl⟩ | ⟨-, rfl, rfl⟩
  · simp only [reduceCtorEq, if_false, hself]
    exact ⟨hwaits, hinv.live, hinv.awake⟩
  · simp only [reduceCtorEq, if_false, hself]
    exact ⟨hwaits, hinv.live, hinv.awake⟩
  · refine ⟨hwaits, ?_, ?_⟩
    · intro u
      by_cases hu : u = t
      · simp [hu, Waits.queued]
      · simpa [hu, Waits.queued] using hinv.live u
    · intro u hu hmarked
      by_cases hut : u = t
      · subst hut
        simp [Waits.Marked, Waits.queued, newBlock] at hmarked
      · simpa [hut] using hinv.awake u (by simpa [hut, Waits.queued] using hu)
          (by simpa [hut, Waits.Marked, Waits.queued] using hmarked)

theorem HandshakeInv.blockCurrent (hinv : HandshakeInv s)
    (hs : sysStep s (.blockCurrent cpu) = some s') : HandshakeInv s' := by
  obtain ⟨t, hthread, hs⟩ := Option.bind_eq_some_iff.1 hs
  obtain ⟨sched, hblock, rfl⟩ := Option.map_eq_some_iff.1 hs
  obtain ⟨hcur, hpc⟩ := threadAt_eq_some hthread
  refine ⟨hinv.waits, ?_, ?_⟩
  · intro u
    by_cases hu : u = t
    · simp [hu, hinv.live t, hpc]
    · simpa [hu] using hinv.live u
  · intro u hu hmarked
    obtain ⟨hparked, hnot⟩ := hinv.awake u hu hmarked
    -- The thread that blocks is in its gap, so its block is not marked.
    have hut : u ≠ t := by
      rintro rfl
      rw [hpc] at hparked
      cases hparked
    refine ⟨by simpa [hut] using hparked, fun hb => ?_⟩
    rcases leaveCpu_blocked hblock hb with hold | hcur'
    · exact hnot hold
    · exact hut (Option.some.inj (hcur'.symm.trans hcur))

theorem HandshakeInv.relock (hinv : HandshakeInv s)
    (hs : sysStep s (.relock cpu) = some s') : HandshakeInv s' := by
  obtain ⟨t, hthread, hs⟩ := Option.map_eq_some_iff.1 hs
  obtain ⟨-, hpc⟩ := threadAt_eq_some hthread
  have hlive : t ∈ s.waits.live := (hinv.live t).2 (by simp [hpc])
  rcases hre : recheck s.waits t with ⟨w, r⟩
  rw [hre] at hs
  have hwaits : WaitInv w := hinv.waits.step (e := .resume t _ r) ⟨hlive, rfl, hre⟩
  rw [← hs]
  -- When the thread leaves the wait it has no block, and nothing changes for the others.
  have hleft : ∀ live : Finset Nat, live = s.waits.live.erase t → ∀ u, u ∈ live ↔
      update s.pc t .outside u ≠ .outside := by
    rintro live rfl u
    by_cases hu : u = t
    · simp [hu]
    · simpa [hu] using hinv.live u
  have hkept : ∀ u ∈ s.waits.live.erase t, s.waits.Marked u →
      update s.pc t .outside u = .parked ∧ s.sched.state u ≠ .blocked := by
    intro u hu hmarked
    obtain ⟨hut, hu⟩ := Finset.mem_erase.1 hu
    simpa [hut] using hinv.awake u hu hmarked
  rcases recheck_cases hre with ⟨hsat, hout, rfl, rfl⟩ | ⟨-, rfl, rfl⟩ | ⟨-, rfl, rfl⟩
  · refine ⟨hwaits, ?_, ?_⟩
    · intro u
      by_cases hu : u = t
      · simp [hu, hlive]
      · simpa [hu] using hinv.live u
    · intro u hu hmarked
      have hut : u ≠ t := by
        rintro rfl
        simp [Waits.Marked, hsat, hout] at hmarked
      simpa [hut] using hinv.awake u hu hmarked
  · exact ⟨hwaits, hleft _ rfl, hkept⟩
  · exact ⟨hwaits, hleft _ rfl, hkept⟩

theorem HandshakeInv.wake (hinv : HandshakeInv s) {w : Waits} {woken : List Nat}
    (hwaits : WaitInv w) (hlive : w.live = s.waits.live)
    (hmarks : ∀ t, w.Marked t → s.waits.Marked t ∨ t ∈ woken) (hgap : ∀ t ∈ woken, s.pc t ≠ .gap) :
    HandshakeInv { s with waits := w, sched := wakeThreads s.sched woken } := by
  refine ⟨hwaits, by simpa [hlive] using hinv.live, ?_⟩
  intro t ht hmarked
  have ht : t ∈ s.waits.live := hlive ▸ ht
  rcases hmarks t hmarked with hold | hnew
  · obtain ⟨hpc, hnot⟩ := hinv.awake t ht hold
    exact ⟨hpc, fun hb => hnot (wakeThreads_blocked hb).1⟩
  · refine ⟨?_, fun hb => (wakeThreads_blocked hb).2 hnew⟩
    have hin := (hinv.live t).1 ht
    cases hpc : s.pc t with
    | outside => exact absurd hpc hin
    | gap => exact absurd hpc (hgap t hnew)
    | parked => rfl

theorem signalHeader_marks {w w' : Waits} {h : Nat} {wakeAll : Bool} {woken : List Nat}
    (hstep : signalHeader w h wakeAll = (w', woken)) :
    w'.live = w.live ∧ woken = w.released h wakeAll ∧
      ∀ t, w'.Marked t → w.Marked t ∨ t ∈ woken := by
  have hsat : ∀ ts header t, ((w.satisfy ts).setHeader h header).Marked t →
      w.Marked t ∨ t ∈ ts := by
    intro ts header t hmarked
    by_cases ht : t ∈ ts
    · exact .inr ht
    · left
      simpa [Waits.Marked, Waits.setHeader, Waits.satisfy, ht] using hmarked
  unfold Waits.released
  rcases signalHeader_cases hstep with
    ⟨hall, rfl, rfl⟩ | ⟨hall, t, rest, hw, rfl, rfl⟩ | ⟨hall, hw, rfl, rfl⟩
  · exact ⟨rfl, by simp [hall], hsat _ _⟩
  · exact ⟨rfl, by simp [hall, hw], hsat _ _⟩
  · exact ⟨rfl, by simp [hw], fun t ht => .inl ht⟩

theorem HandshakeInv.signal (hinv : HandshakeInv s) {h : Nat} {wakeAll : Bool}
    (hs : sysStep s (.signal cpu h wakeAll) = some s')
    (hgap : MarksNoneInGap s (.signal cpu h wakeAll)) : HandshakeInv s' := by
  simp only [sysStep] at hs
  split at hs
  · rcases hsig : signalHeader s.waits h wakeAll with ⟨w, woken⟩
    rw [hsig] at hs
    cases hs
    obtain ⟨hlive, hwoken, hmarks⟩ := signalHeader_marks hsig
    apply hinv.wake (hinv.waits.step (e := .signal h wakeAll _ woken) ⟨rfl, hsig⟩) hlive hmarks
    rw [hwoken]
    exact hgap
  · cases hs

theorem HandshakeInv.expire (hinv : HandshakeInv s) {now : Int}
    (hs : sysStep s (.expire cpu now) = some s') (hgap : MarksNoneInGap s (.expire cpu now)) :
    HandshakeInv s' := by
  simp only [sysStep] at hs
  split at hs
  · cases hs
    refine hinv.wake (hinv.waits.step (e := .tick now _) rfl) rfl ?_ hgap
    intro t hmarked
    by_cases ht : t ∈ s.waits.due now
    · exact .inr ht
    · left
      simpa [Waits.Marked, expireTimed, Waits.expireBlocks, ht] using hmarked
  · cases hs

theorem HandshakeInv.step (hinv : HandshakeInv s) {a : SysAction} (hs : sysStep s a = some s')
    (hgap : MarksNoneInGap s a) : HandshakeInv s' := by
  cases a with
  | sched a => exact hinv.sched hs
  | enter cpu h timeout now => exact hinv.enter hs
  | blockCurrent cpu => exact hinv.blockCurrent hs
  | relock cpu => exact hinv.relock hs
  | signal cpu h wakeAll => exact hinv.signal hs hgap
  | expire cpu now => exact hinv.expire hs hgap

end

/-- In every run in which no action marks the block of a thread in its gap, no wake-up is
lost in any state. -/
theorem no_lost_wakeup {start : System} {run : List (SysAction × System)}
    (hquiet : start.waits.Quiet) (hpc : ∀ t, start.pc t = .outside)
    (hrun : Run (fun s a s' => sysStep s a = some s' ∧ MarksNoneInGap s a) start run) (t : Nat) :
    ¬(lastState start run).Lost t := by
  have hstart : HandshakeInv start :=
    ⟨waitInv_quiet hquiet, by simp [hquiet.1, hpc], by simp [hquiet.1]⟩
  have hinv := hrun.invariant hstart fun s a s' hinv hstep => hinv.step hstep.1 hstep.2
  rintro ⟨hlive, hblocked, -, hmarked⟩
  exact (hinv.awake t hlive hmarked).2 hblocked

/-- No CPU is up and nobody waits; header 0 is an auto-reset event. -/
def freshSystem : System where
  sched := Scheduler.initial
  waits :=
    { headers := fun _ => { manualReset := false }, timed := [], live := ∅, block := fun _ => {} }
  pc := fun _ => .outside

theorem not_queued_of_heads {s : Scheduler} {x t : Nat}
    (hheads : ∀ c < maxCpus, (s.ready c).head = if c = 1 then some x else none)
    (hnext : s.links.next x = none) (hne : t ≠ x) :
    ∀ c < maxCpus, ¬Reaches s.links (s.ready c).head t := by
  intro c hc hreach
  rw [hheads c hc] at hreach
  split at hreach
  · cases hreach with
    | here => exact hne rfl
    | next h =>
      rw [hnext] at h
      cases h
  · cases hreach

/-- Thread 0 waits for the event; CPU 1 signals it between the release of the wait lock and
`block_current_locked`. -/
theorem wakeup_lost_in_gap : ∃ run, Run (fun s a s' => sysStep s a = some s') freshSystem run ∧
    run.map Prod.fst = [.blockCurrent 0, .signal 1 0 false, .enter 0 0 (-1) 0,
      .sched (.initAp 1), .sched (.initBsp 0)] ∧ (lastState freshSystem run).Lost 0 := by
  have hrun : Run (fun s a s' => sysStep s a = some s') freshSystem
      [(.blockCurrent 0, _), (.signal 1 0 false, _), (.enter 0 0 (-1) 0, _),
        (.sched (.initAp 1), _), (.sched (.initBsp 0), _)] :=
    ((((Run.nil.cons rfl).cons rfl).cons rfl).cons rfl).cons rfl
  -- The idle thread of CPU 1 is the only thread on a ready queue.
  exact ⟨_, hrun, rfl, by decide, rfl, not_queued_of_heads (x := 3) (by decide) rfl (by decide),
    .inl rfl⟩

/-- The thread blocks first and is signalled then; it finds its block satisfied. -/
theorem no_lost_wakeup_sample : ∃ run,
    Run (fun s a s' => sysStep s a = some s' ∧ MarksNoneInGap s a) freshSystem run ∧
    run.map Prod.fst = [.signal 1 0 false, .blockCurrent 0, .enter 0 0 (-1) 0,
      .sched (.initAp 1), .sched (.initBsp 0)] ∧ ¬(lastState freshSystem run).Lost 0 := by
  have hrun : Run (fun s a s' => sysStep s a = some s' ∧ MarksNoneInGap s a) freshSystem
      [(.signal 1 0 false, _), (.blockCurrent 0, _), (.enter 0 0 (-1) 0, _),
        (.sched (.initAp 1), _), (.sched (.initBsp 0), _)] :=
    ((((Run.nil.cons ⟨rfl, trivial⟩).cons ⟨rfl, trivial⟩).cons ⟨rfl, trivial⟩).cons
      ⟨rfl, trivial⟩).cons ⟨rfl, by unfold MarksNoneInGap; decide⟩
  exact ⟨_, hrun, rfl, no_lost_wakeup ⟨rfl, rfl, fun _ => rfl⟩ (fun _ => rfl) hrun 0⟩

end UnDOS.Sched
