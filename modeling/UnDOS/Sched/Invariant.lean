import Mathlib.Data.List.Perm.Subperm
import UnDOS.Sched.Scheduler

/-!
# What the Scheduler Keeps

`Inv s Q` is the invariant of the scheduler: `Q` lists the threads of every ready queue,
the links and counters agree with it, ready threads are the queued ones, running threads
are the current ones, and every CPU that is up has its idle thread at hand.
-/

namespace UnDOS.Sched

open UnDOS.Lib.Intrusive
open Function (update update_comm update_eq_self update_idem update_of_ne update_self)

/-! ## Reading the state after an update -/

section
variable (s : Scheduler) (t u cpu c : Nat) (st : ThreadState) (n : Nat)
  (lq : Links Nat × Queue Nat) (object : KThreadObject)

namespace Scheduler

@[simp] theorem state_setState : (s.setState t st).state = update s.state t st := by
  funext x
  by_cases hx : x = t <;> simp [state, setState, hx]

@[simp] theorem state_setQuantum : (s.setQuantum t n).state = s.state := by
  funext x
  by_cases hx : x = t <;> simp [state, setQuantum, hx]

@[simp] theorem state_setCurrent : (s.setCurrent cpu t).state = s.state := rfl

@[simp] theorem state_setReady : (s.setReady cpu lq).state = s.state := rfl

@[simp] theorem priority_setState : (s.setState t st).priority = s.priority := by
  funext x
  by_cases hx : x = t <;> simp [priority, setState, hx]

@[simp] theorem priority_setQuantum : (s.setQuantum t n).priority = s.priority := by
  funext x
  by_cases hx : x = t <;> simp [priority, setQuantum, hx]

@[simp] theorem priority_setCurrent : (s.setCurrent cpu t).priority = s.priority := rfl

@[simp] theorem priority_setReady : (s.setReady cpu lq).priority = s.priority := rfl

@[simp] theorem links_setState : (s.setState t st).links = s.links := rfl

@[simp] theorem links_setQuantum : (s.setQuantum t n).links = s.links := rfl

@[simp] theorem links_setCurrent : (s.setCurrent cpu t).links = s.links := rfl

@[simp] theorem links_setReady : (s.setReady cpu lq).links = lq.1 := rfl

@[simp] theorem created_setState : (s.setState t st).created = s.created := rfl

@[simp] theorem created_setQuantum : (s.setQuantum t n).created = s.created := rfl

@[simp] theorem created_setCurrent : (s.setCurrent cpu t).created = s.created := rfl

@[simp] theorem created_setReady : (s.setReady cpu lq).created = s.created := rfl

@[simp] theorem cpus_setState : (s.setState t st).cpus = s.cpus := rfl

@[simp] theorem cpus_setQuantum : (s.setQuantum t n).cpus = s.cpus := rfl

@[simp] theorem ready_setState : (s.setState t st).ready = s.ready := rfl

@[simp] theorem ready_setQuantum : (s.setQuantum t n).ready = s.ready := rfl

@[simp] theorem ready_setCurrent : (s.setCurrent cpu t).ready = s.ready := by
  funext x
  by_cases hx : x = cpu <;> simp [ready, setCurrent, hx]

@[simp] theorem ready_setReady : (s.setReady cpu lq).ready = update s.ready cpu lq.2 := by
  funext x
  by_cases hx : x = cpu <;> simp [ready, setReady, hx]

@[simp] theorem current_setState : (s.setState t st).current = s.current := rfl

@[simp] theorem current_setQuantum : (s.setQuantum t n).current = s.current := rfl

@[simp] theorem current_setCurrent :
    (s.setCurrent cpu t).current = update s.current cpu (some t) := by
  funext x
  by_cases hx : x = cpu <;> simp [current, setCurrent, hx]

@[simp] theorem current_setReady : (s.setReady cpu lq).current = s.current := by
  funext x
  by_cases hx : x = cpu <;> simp [current, setReady, hx]

@[simp] theorem links_setIdle : (s.setIdle cpu t).links = s.links := rfl

@[simp] theorem created_setIdle : (s.setIdle cpu t).created = s.created := rfl

@[simp] theorem state_setIdle : (s.setIdle cpu t).state = s.state := rfl

@[simp] theorem ready_setIdle : (s.setIdle cpu t).ready = s.ready := by
  funext x
  by_cases hx : x = cpu <;> simp [ready, setIdle, hx]

@[simp] theorem current_setIdle : (s.setIdle cpu t).current = s.current := by
  funext x
  by_cases hx : x = cpu <;> simp [current, setIdle, hx]

@[simp] theorem online_setIdle : ((s.setIdle cpu t).cpus c).online = (s.cpus c).online := by
  by_cases hx : c = cpu <;> simp [setIdle, hx]

@[simp] theorem idle_setIdle :
    ((s.setIdle cpu t).cpus c).idle = if c = cpu then some t else (s.cpus c).idle := by
  by_cases hx : c = cpu <;> simp [setIdle, hx]

@[simp] theorem online_setCurrent : ((s.setCurrent cpu t).cpus c).online = (s.cpus c).online := by
  by_cases hx : c = cpu <;> simp [setCurrent, hx]

@[simp] theorem online_setReady : ((s.setReady cpu lq).cpus c).online = (s.cpus c).online := by
  by_cases hx : c = cpu <;> simp [setReady, hx]

@[simp] theorem idle_setCurrent : ((s.setCurrent cpu t).cpus c).idle = (s.cpus c).idle := by
  by_cases hx : c = cpu <;> simp [setCurrent, hx]

@[simp] theorem idle_setReady : ((s.setReady cpu lq).cpus c).idle = (s.cpus c).idle := by
  by_cases hx : c = cpu <;> simp [setReady, hx]

end Scheduler

@[simp] theorem newThread_state :
    (newThread s object).state = update s.state s.created object.state := by
  funext x
  by_cases hx : x = s.created <;> simp [Scheduler.state, newThread, hx]

@[simp] theorem newThread_created : (newThread s object).created = s.created + 1 := rfl

@[simp] theorem newThread_cpus : (newThread s object).cpus = s.cpus := rfl

@[simp] theorem newThread_ready : (newThread s object).ready = s.ready := rfl

@[simp] theorem newThread_current : (newThread s object).current = s.current := rfl

end

/-! ## Where threads are -/

/-- Ready threads are the queued ones and running threads are the current ones. -/
structure Placed (created : Nat) (state : Nat → ThreadState) (current : Nat → Option Nat)
    (Q : Nat → List Nat) : Prop where
  queued : ∀ c t, t ∈ Q c → t < created ∧ state t = .ready
  ready_queued : ∀ t < created, state t = .ready → ∃ c, t ∈ Q c
  on_cpu : ∀ c t, current c = some t → t < created ∧ state t = .running
  running_on_cpu : ∀ t < created, state t = .running → ∃ c, current c = some t
  once : ∀ c d t, current c = some t → current d = some t → c = d

section
variable {created : Nat} {state : Nat → ThreadState} {current : Nat → Option Nat}
  {Q : Nat → List Nat}

theorem mem_update_append {c d t x : Nat} {L : List Nat} : x ∈ update Q c (L ++ [t]) d ↔
      (d = c ∧ x = t) ∨ x ∈ update Q c L d := by
  by_cases hd : d = c
  · subst hd
    simp [or_comm]
  · simp [hd]

theorem Placed.not_queued (h : Placed created state current Q) {c t : Nat}
    (hc : current c = some t) (d : Nat) : t ∉ Q d := by
  intro hmem
  have hq := (h.queued d t hmem).2
  rw [(h.on_cpu c t hc).2] at hq
  cases hq

/-- The first half of a switch: the incoming thread leaves its queue for the CPU, the
outgoing one leaves the CPU in the state `st` and is on no queue. -/
theorem Placed.switch (h : Placed created state current Q) {c p n : Nat} {A B : List Nat}
    {st : ThreadState} (hdisj : ∀ i j t, t ∈ Q i → t ∈ Q j → i = j) (hnodup : (Q c).Nodup)
    (hp : current c = some p) (hQ : Q c = A ++ n :: B) (hr : st ≠ .ready) (hrun : st ≠ .running) :
    Placed created (update (update state p st) n .running)
      (update current c (some n)) (update Q c (A ++ B)) := by
  have hn : n ∈ Q c := by simp [hQ]
  obtain ⟨hnlt, hnready⟩ := h.queued c n hn
  have hsub : ∀ d t, t ∈ update Q c (A ++ B) d → t ∈ Q d ∧ t ≠ n := by
    intro d t ht
    by_cases hd : d = c
    · subst hd
      rw [update_self] at ht
      rw [hQ] at hnodup ⊢
      refine ⟨by rcases List.mem_append.1 ht with h | h <;> simp [h], ?_⟩
      rintro rfl
      rw [List.nodup_append, List.nodup_cons] at hnodup
      rcases List.mem_append.1 ht with hA | hB
      · exact hnodup.2.2 _ hA _ (by simp) rfl
      · exact hnodup.2.1.1 hB
    · rw [update_of_ne hd] at ht
      refine ⟨ht, ?_⟩
      rintro rfl
      exact hd (hdisj d c _ ht hn)
  constructor
  · intro d t ht
    obtain ⟨hold, hne⟩ := hsub d t ht
    have htp : t ≠ p := fun heq => h.not_queued hp d (heq ▸ hold)
    rw [update_of_ne hne, update_of_ne htp]
    exact h.queued d t hold
  · intro t ht hready
    have hne : t ≠ n := by
      rintro rfl
      simp at hready
    rw [update_of_ne hne] at hready
    have htp : t ≠ p := by
      rintro rfl
      rw [update_self] at hready
      exact hr hready
    rw [update_of_ne htp] at hready
    obtain ⟨d, hd⟩ := h.ready_queued t ht hready
    refine ⟨d, ?_⟩
    by_cases hdc : d = c
    · subst hdc
      rw [hQ] at hd
      simpa [hne] using hd
    · rwa [update_of_ne hdc]
  · intro d t ht
    by_cases hd : d = c
    · subst hd
      obtain rfl : n = t := by simpa using ht
      exact ⟨hnlt, by simp⟩
    · rw [update_of_ne hd] at ht
      obtain ⟨hlt, hrunning⟩ := h.on_cpu d t ht
      have hne : t ≠ n := by
        rintro rfl
        rw [hnready] at hrunning
        cases hrunning
      have htp : t ≠ p := by
        rintro rfl
        exact hd (h.once d c _ ht hp)
      rw [update_of_ne hne, update_of_ne htp]
      exact ⟨hlt, hrunning⟩
  · intro t ht hrunning
    by_cases htn : t = n
    · exact ⟨c, by rw [update_self, htn]⟩
    · rw [update_of_ne htn] at hrunning
      have htp : t ≠ p := by
        rintro rfl
        rw [update_self] at hrunning
        exact hrun hrunning
      rw [update_of_ne htp] at hrunning
      obtain ⟨d, hd⟩ := h.running_on_cpu t ht hrunning
      refine ⟨d, ?_⟩
      rw [update_of_ne]
      · exact hd
      · rintro rfl
        exact htp (Option.some.inj (hd.symm.trans hp))
  · intro d e t hd he
    by_cases hdc : d = c <;> by_cases hec : e = c
    · rw [hdc, hec]
    · subst hdc
      obtain rfl : n = t := by simpa using hd
      rw [update_of_ne hec] at he
      have hrunning := (h.on_cpu e _ he).2
      rw [hnready] at hrunning
      cases hrunning
    · subst hec
      obtain rfl : n = t := by simpa using he
      rw [update_of_ne hdc] at hd
      have hrunning := (h.on_cpu d _ hd).2
      rw [hnready] at hrunning
      cases hrunning
    · rw [update_of_ne hdc] at hd
      rw [update_of_ne hec] at he
      exact h.once d e t hd he

theorem Placed.push (h : Placed created state current Q) {c t : Nat} (ht : t < created)
    (hr : state t ≠ .ready) (hrun : state t ≠ .running) :
    Placed created (update state t .ready) current (update Q c (Q c ++ [t])) := by
  constructor
  · intro d x hx
    rcases mem_update_append.1 hx with ⟨rfl, rfl⟩ | hx
    · exact ⟨ht, by simp⟩
    · rw [update_eq_self] at hx
      obtain ⟨hlt, hready⟩ := h.queued d x hx
      have hne : x ≠ t := by
        rintro rfl
        exact hr hready
      rw [update_of_ne hne]
      exact ⟨hlt, hready⟩
  · intro x hx hready
    by_cases hxt : x = t
    · exact ⟨c, by rw [hxt]; simp⟩
    · rw [update_of_ne hxt] at hready
      obtain ⟨d, hd⟩ := h.ready_queued x hx hready
      refine ⟨d, mem_update_append.2 (.inr ?_)⟩
      rwa [update_eq_self]
  · intro d x hx
    obtain ⟨hlt, hrunning⟩ := h.on_cpu d x hx
    have hne : x ≠ t := by
      rintro rfl
      exact hrun hrunning
    rw [update_of_ne hne]
    exact ⟨hlt, hrunning⟩
  · intro x hx hrunning
    have hne : x ≠ t := by
      rintro rfl
      simp at hrunning
    rw [update_of_ne hne] at hrunning
    exact h.running_on_cpu x hx hrunning
  · exact h.once

theorem Placed.create (h : Placed created state current Q) (st : ThreadState) (hr : st ≠ .ready)
    (hrun : st ≠ .running) : Placed (created + 1) (update state created st) current Q := by
  have hne : ∀ t, t < created → t ≠ created := fun t ht => Nat.ne_of_lt ht
  constructor
  · intro c t ht
    obtain ⟨hlt, hready⟩ := h.queued c t ht
    rw [update_of_ne (hne t hlt)]
    exact ⟨Nat.lt_succ_of_lt hlt, hready⟩
  · intro t ht hready
    by_cases htc : t = created
    · rw [htc, update_self] at hready
      exact absurd hready hr
    · rw [update_of_ne htc] at hready
      exact h.ready_queued t (Nat.lt_of_le_of_ne (Nat.le_of_lt_succ ht) htc) hready
  · intro c t ht
    obtain ⟨hlt, hrunning⟩ := h.on_cpu c t ht
    rw [update_of_ne (hne t hlt)]
    exact ⟨Nat.lt_succ_of_lt hlt, hrunning⟩
  · intro t ht hrunning
    by_cases htc : t = created
    · rw [htc, update_self] at hrunning
      exact absurd hrunning hrun
    · rw [update_of_ne htc] at hrunning
      exact h.running_on_cpu t (Nat.lt_of_le_of_ne (Nat.le_of_lt_succ ht) htc) hrunning
  · exact h.once

theorem Placed.boot (h : Placed created state current Q) {c : Nat} (hc : current c = none) :
    Placed (created + 1) (update state created .running)
      (update current c (some created)) Q := by
  have hne : ∀ t, t < created → t ≠ created := fun t ht => Nat.ne_of_lt ht
  constructor
  · intro d t ht
    obtain ⟨hlt, hready⟩ := h.queued d t ht
    rw [update_of_ne (hne t hlt)]
    exact ⟨Nat.lt_succ_of_lt hlt, hready⟩
  · intro t ht hready
    have htc : t ≠ created := by
      rintro rfl
      simp at hready
    rw [update_of_ne htc] at hready
    exact h.ready_queued t (Nat.lt_of_le_of_ne (Nat.le_of_lt_succ ht) htc) hready
  · intro d t ht
    by_cases hd : d = c
    · subst hd
      obtain rfl : created = t := by simpa using ht
      exact ⟨Nat.lt_succ_self _, by simp⟩
    · rw [update_of_ne hd] at ht
      obtain ⟨hlt, hrunning⟩ := h.on_cpu d t ht
      rw [update_of_ne (hne t hlt)]
      exact ⟨Nat.lt_succ_of_lt hlt, hrunning⟩
  · intro t ht hrunning
    by_cases htc : t = created
    · exact ⟨c, by rw [htc, update_self]⟩
    · rw [update_of_ne htc] at hrunning
      obtain ⟨d, hd⟩ :=
        h.running_on_cpu t (Nat.lt_of_le_of_ne (Nat.le_of_lt_succ ht) htc) hrunning
      refine ⟨d, ?_⟩
      rw [update_of_ne]
      · exact hd
      · rintro rfl
        rw [hc] at hd
        cases hd
  · intro d e t hd he
    by_cases hdc : d = c <;> by_cases hec : e = c
    · rw [hdc, hec]
    · subst hdc
      obtain rfl : created = t := by simpa using hd
      rw [update_of_ne hec] at he
      exact absurd (h.on_cpu e _ he).1 (Nat.lt_irrefl _)
    · subst hec
      obtain rfl : created = t := by simpa using he
      rw [update_of_ne hdc] at hd
      exact absurd (h.on_cpu d _ hd).1 (Nat.lt_irrefl _)
    · rw [update_of_ne hdc] at hd
      rw [update_of_ne hec] at he
      exact h.once d e t hd he

end

/-! ## The invariant -/

/-- The invariant, for the threads `Q` of the ready queues. -/
structure Inv (s : Scheduler) (Q : Nat → List Nat) : Prop where
  family : IsFamily s.links s.ready Q
  placed : Placed s.created s.state s.current Q
  bound : ∀ c, (s.cpus c).online = true → c < maxCpus
  offline : ∀ c, (s.cpus c).online = false → Q c = [] ∧ s.current c = none
  busy : ∀ c, (s.cpus c).online = true → ∃ t, s.current c = some t
  idle : ∀ c, (s.cpus c).online = true →
    ∃ i, (s.cpus c).idle = some i ∧ (i ∈ Q c ∨ s.current c = some i)

theorem inv_initial : Inv Scheduler.initial fun _ => [] := by
  constructor
  · exact ⟨fun _ => isList_empty _, fun _ => rfl, by simp⟩
  · constructor <;> simp [Scheduler.initial, Scheduler.current]
  all_goals simp [Scheduler.initial, Scheduler.current]

/-- A thread that waits for a CPU. -/
def Waiting (s : Scheduler) (t : Nat) : Prop := t < s.created ∧ s.state t = .ready

instance (s : Scheduler) (t : Nat) : Decidable (Waiting s t) := inferInstanceAs (Decidable (_ ∧ _))

/-- How a queue changes in one action: threads leave it, and at most one that was not waiting
before joins it at the end. -/
def Serves (s : Scheduler) (L L' : List Nat) : Prop :=
  L'.Sublist L ∨ ∃ M t, L' = M ++ [t] ∧ M.Sublist L ∧ ¬Waiting s t

theorem serves_self (s : Scheduler) (L : List Nat) : Serves s L L := .inl (List.Sublist.refl L)

theorem serves_update {s : Scheduler} {Q : Nat → List Nat} {c : Nat} {L : List Nat}
    (h : Serves s (Q c) L) (d : Nat) : Serves s (Q d) (update Q c L d) := by
  by_cases hd : d = c
  · subst hd
    rwa [update_self]
  · rw [update_of_ne hd]
    exact serves_self s _

section
variable {s : Scheduler} {Q : Nat → List Nat}

theorem Inv.length_le (h : Inv s Q) (c : Nat) : (Q c).length ≤ s.created := by
  have hsub : Q c ⊆ List.range s.created := by
    intro t ht
    exact List.mem_range.2 (h.placed.queued c t ht).1
  simpa using (List.subperm_of_subset (h.family.isList c).nodup hsub).length_le

theorem Inv.fresh (h : Inv s Q) (c : Nat) : s.created ∉ Q c :=
  fun hmem => Nat.lt_irrefl _ (h.placed.queued c _ hmem).1

theorem pickRound_cases (s : Scheduler) (best : Option (Nat × Nat)) (i : Nat) :
    (pickRound s best i = best ∧ ((s.cpus i).online = true → best ≠ none)) ∨
      ∃ load, pickRound s best i = some (i, load) ∧ (s.cpus i).online = true := by
  unfold pickRound
  by_cases hup : (s.cpus i).online = true
  · rcases best with _ | ⟨b, load⟩
    · exact .inr ⟨(s.ready i).count, by simp [hup], hup⟩
    · by_cases hlt : (s.ready i).count < load
      · exact .inr ⟨(s.ready i).count, by simp [hup, hlt], hup⟩
      · exact .inl ⟨by simp [hlt], by simp⟩
  · exact .inl ⟨by simp [hup], fun h => absurd h hup⟩

theorem foldl_pickRound {L : List Nat} {best : Option (Nat × Nat)}
    (hbest : ∀ b load, best = some (b, load) → (s.cpus b).online = true ∧ b < maxCpus)
    (hL : ∀ i ∈ L, i < maxCpus) (hsome : best ≠ none ∨ ∃ i ∈ L, (s.cpus i).online = true) :
    ∃ b load, L.foldl (pickRound s) best = some (b, load) ∧ (s.cpus b).online = true ∧
      b < maxCpus := by
  induction L generalizing best with
  | nil =>
    have hne : best ≠ none := by simpa using hsome
    obtain ⟨⟨b, load⟩, rfl⟩ := Option.ne_none_iff_exists'.1 hne
    exact ⟨b, load, rfl, hbest b load rfl⟩
  | cons i L ih =>
    have hrest : ∀ j ∈ L, j < maxCpus := fun j hj => hL j (by simp [hj])
    rw [List.foldl_cons]
    rcases pickRound_cases s best i with ⟨hround, hup⟩ | ⟨load, hround, hup⟩
    · rw [hround]
      apply ih hbest hrest
      rcases hsome with hne | ⟨j, hj, hjup⟩
      · exact .inl hne
      · rcases List.mem_cons.1 hj with rfl | hj
        · exact .inl (hup hjup)
        · exact .inr ⟨j, hj, hjup⟩
    · rw [hround]
      refine ih ?_ hrest (.inl (by simp))
      intro b load' hb
      obtain ⟨rfl, -⟩ := Prod.mk.inj (Option.some.inj hb)
      exact ⟨hup, hL _ (by simp)⟩

theorem pickTargetCpu_online (h : ∃ i < maxCpus, (s.cpus i).online = true) :
    (s.cpus (pickTargetCpu s)).online = true ∧ pickTargetCpu s < maxCpus := by
  obtain ⟨i, hi, hup⟩ := h
  obtain ⟨b, load, hb, hup'⟩ := foldl_pickRound (s := s) (L := List.range maxCpus)
    (fun b load (hb : none = some (b, load)) => nomatch hb) (by simp)
      (.inr ⟨i, by simpa using hi, hup⟩)
  unfold pickTargetCpu
  rw [hb]
  exact hup'

variable {c t p : Nat}

theorem Inv.push (h : Inv s Q) (hc : (s.cpus c).online = true) (ht : t < s.created)
    (hr : s.state t ≠ .ready) (hrun : s.state t ≠ .running) :
    Inv ((s.setState t .ready).setReady c (enqueue s.links (s.ready c) t))
      (update Q c (Q c ++ [t])) := by
  have hfree : ∀ d, t ∉ Q d := fun d hd => hr (h.placed.queued d t hd).2
  constructor
  · simpa using h.family.enqueue c hfree
  · simpa using h.placed.push ht hr hrun
  · simpa using h.bound
  · intro d hd
    have hd' : (s.cpus d).online = false := by simpa using hd
    have hdc : d ≠ c := by
      rintro rfl
      rw [hc] at hd'
      cases hd'
    simpa [hdc] using h.offline d hd'
  · simpa using h.busy
  · intro d hd
    obtain ⟨i, hi, hwhere⟩ := h.idle d (by simpa using hd)
    refine ⟨i, by simpa using hi, ?_⟩
    rcases hwhere with hq | hcur
    · left
      rw [mem_update_append, update_eq_self]
      exact .inr hq
    · right
      simpa using hcur

theorem enqueueOn_eq (hc : c < maxCpus) :
    enqueueOn s c t = s.setReady c (enqueue s.links (s.ready c) t) := by
  unfold enqueueOn
  rw [if_pos hc]

theorem Inv.readyLocked (h : Inv s Q) (hup : ∃ i < maxCpus, (s.cpus i).online = true)
    (ht : t < s.created) : ∃ Q', Inv (readyLocked s t) Q' ∧ ∀ d, Serves s (Q d) (Q' d) := by
  unfold Sched.readyLocked
  by_cases hb : s.state t = .blocked
  · rw [if_pos hb]
    obtain ⟨htarget, hlt⟩ := pickTargetCpu_online (s := s.setState t .ready) (by simpa using hup)
    have hpush := h.push (c := pickTargetCpu (s.setState t .ready)) (by simpa using htarget) ht
      (by simp [hb]) (by simp [hb])
    rw [enqueueOn_eq hlt]
    refine ⟨_, hpush, serves_update (.inr ⟨_, t, rfl, List.Sublist.refl _, ?_⟩)⟩
    rintro ⟨-, hready⟩
    rw [hb] at hready
    cases hready
  · rw [if_neg hb]
    exact ⟨Q, h, fun d => serves_self s _⟩

/-! ## New threads -/

theorem Inv.family_newThread (h : Inv s Q) (object : KThreadObject) :
    IsFamily (newThread s object).links s.ready Q := by
  refine ⟨fun c => ?_, h.family.count, h.family.disjoint⟩
  apply (h.family.isList c).congr rfl rfl
  intro x hx
  have hne : x ≠ s.created := fun heq => h.fresh c (heq ▸ hx)
  simp [newThread, hne]

theorem Inv.newThread (h : Inv s Q) (object : KThreadObject) (hr : object.state ≠ .ready)
    (hrun : object.state ≠ .running) : Inv (newThread s object) Q := by
  constructor
  · simpa using h.family_newThread object
  · simpa using h.placed.create _ hr hrun
  · exact h.bound
  · exact h.offline
  · exact h.busy
  · exact h.idle

theorem newThread_ready_eq (s : Scheduler) (object : KThreadObject) : newThread s object =
      (Sched.newThread s { object with state := .blocked }).setState s.created object.state := by
  unfold Sched.newThread Scheduler.setState
  simp

theorem Inv.createThread (h : Inv s Q) (hup : ∃ i < maxCpus, (s.cpus i).online = true)
    (priority : UInt8) : ∃ Q', Inv (createThread s priority) Q' ∧ ∀ d, Serves s (Q d) (Q' d) := by
  have hnew := h.newThread { state := .blocked, priority } (by simp) (by simp)
  obtain ⟨htarget, hlt⟩ := pickTargetCpu_online (s := Sched.newThread s { priority }) hup
  unfold Sched.createThread
  rw [enqueueOn_eq hlt]
  rw [newThread_ready_eq]
  refine ⟨_, hnew.push htarget (Nat.lt_succ_self _) (by simp) (by simp),
    serves_update (.inr ⟨_, _, rfl, List.Sublist.refl _, ?_⟩)⟩
  exact fun hwait => Nat.lt_irrefl _ hwait.1

/-! ## Scheduling -/

theorem Inv.scheduleNext_empty (h : Inv s Q) (hp : s.current c = some p)
    (hQ : Q c = []) (st : ThreadState) :
    scheduleNext (s.setState p st) c = some ((s.setState p st).setQuantum p defaultQuantum) := by
  have hlist := h.family.isList c
  rw [hQ] at hlist
  unfold scheduleNext
  simp only [Scheduler.links_setState, Scheduler.ready_setState, Scheduler.current_setState, hp,
    popNext_nil hlist]

theorem Inv.scheduleNext_switch (h : Inv s Q) (hp : s.current c = some p)
    (hQ : Q c ≠ []) (st : ThreadState) :
    ∃ A n B, Q c = A ++ n :: B ∧ (∀ x ∈ A, s.priority x < s.priority n) ∧
      (∀ x ∈ B, s.priority x ≤ s.priority n) ∧
      scheduleNext (s.setState p st) c = some (switchTo (requeue
        ((s.setState p st).setReady c (remove s.links (s.ready c) n)) c (some p)) c n) := by
  obtain ⟨A, n, B, hsplit, hpop, hA, hB⟩ :=
    popNext_spec (h.family.isList c) hQ s.priority (h.length_le c)
  refine ⟨A, n, B, hsplit, hA, hB, ?_⟩
  unfold scheduleNext
  simp only [Scheduler.links_setState, Scheduler.ready_setState, Scheduler.current_setState,
    Scheduler.priority_setState, Scheduler.created_setState, hp, hpop]

theorem Inv.switch_away (h : Inv s Q) {n : Nat} {A B : List Nat} {st : ThreadState}
    (hp : s.current c = some p) (hsplit : Q c = A ++ n :: B) (hr : st ≠ .ready)
    (hrun : st ≠ .running) (hidle : some p ≠ (s.cpus c).idle) :
    Inv (switchTo ((s.setState p st).setReady c (remove s.links (s.ready c) n)) c n)
      (update Q c (A ++ B)) := by
  unfold switchTo
  constructor
  · simpa using h.family.remove hsplit
  · simpa using h.placed.switch h.family.disjoint (h.family.isList c).nodup hp hsplit hr hrun
  · simpa using h.bound
  · intro d hd
    have hd' : (s.cpus d).online = false := by simpa using hd
    have hdc : d ≠ c := by
      rintro rfl
      rw [(h.offline d hd').2] at hp
      cases hp
    simpa [hdc] using h.offline d hd'
  · intro d hd
    by_cases hdc : d = c
    · exact ⟨n, by simp [hdc]⟩
    · simpa [hdc] using h.busy d (by simpa using hd)
  · intro d hd
    obtain ⟨i, hi, hwhere⟩ := h.idle d (by simpa using hd)
    refine ⟨i, by simpa using hi, ?_⟩
    by_cases hdc : d = c
    · -- The idle thread of this CPU was queued: it stays there or is the incoming thread.
      subst hdc
      rcases hwhere with hq | hcur
      · rw [hsplit] at hq
        rcases List.mem_append.1 hq with hq | hq
        · exact .inl (by simp [hq])
        · rcases List.mem_cons.1 hq with rfl | hq
          · exact .inr (by simp)
          · exact .inl (by simp [hq])
      · rw [hi] at hidle
        exact absurd (hp.symm.trans hcur) hidle
    · simpa [hdc] using hwhere

/-- The next thread gets the CPU, and the preempted one goes to the end of its queue. -/
theorem Inv.switch_back (h : Inv s Q) {n : Nat} {A B : List Nat}
    (hp : s.current c = some p) (hsplit : Q c = A ++ n :: B) :
    Inv (switchTo (requeue (s.setReady c (remove s.links (s.ready c) n)) c (some p)) c n)
      (update Q c (A ++ B ++ [p])) := by
  obtain ⟨hplt, hprun⟩ := h.placed.on_cpu c p hp
  have hn : n ∈ Q c := by simp [hsplit]
  have hpn : p ≠ n := fun heq => h.placed.not_queued hp c (heq ▸ hn)
  have hfam := h.family.remove hsplit
  -- As if it left the CPU blocked and was then made ready.
  have hplaced : Placed s.created
      (update (update s.state p .blocked) n .running)
      (update s.current c (some n)) (update Q c (A ++ B)) :=
    h.placed.switch h.family.disjoint (h.family.isList c).nodup hp hsplit (by simp) (by simp)
  have hout : ∀ d, p ∉ update Q c (A ++ B) d := by
    intro d hd
    have hb := (hplaced.queued d p hd).2
    rw [update_of_ne hpn, update_self] at hb
    cases hb
  unfold requeue switchTo
  simp only [Scheduler.state_setReady, hprun]
  constructor
  · simpa using hfam.enqueue c hout
  · have hpush := hplaced.push (c := c) (t := p) hplt (by simp [hpn]) (by simp [hpn])
    have hstate : update (update (update s.state p .blocked) n .running)
        p .ready = update (update s.state p .ready) n .running := by
      rw [update_comm hpn, update_idem, update_comm hpn]
    rw [hstate] at hpush
    simpa using hpush
  · simpa using h.bound
  · intro d hd
    have hd' : (s.cpus d).online = false := by simpa using hd
    have hdc : d ≠ c := by
      rintro rfl
      rw [(h.offline d hd').2] at hp
      cases hp
    simpa [hdc] using h.offline d hd'
  · intro d hd
    by_cases hdc : d = c
    · exact ⟨n, by simp [hdc]⟩
    · simpa [hdc] using h.busy d (by simpa using hd)
  · intro d hd
    obtain ⟨i, hi, hwhere⟩ := h.idle d (by simpa using hd)
    refine ⟨i, by simpa using hi, ?_⟩
    by_cases hdc : d = c
    · -- The idle thread of this CPU is queued, or goes to the queue, or comes in.
      subst hdc
      rcases hwhere with hq | hcur
      · rw [hsplit] at hq
        rcases List.mem_append.1 hq with hq | hq
        · exact .inl (by simp [hq])
        · rcases List.mem_cons.1 hq with rfl | hq
          · exact .inr (by simp)
          · exact .inl (by simp [hq])
      · obtain rfl : p = i := Option.some.inj (hp.symm.trans hcur)
        exact .inl (by simp)
    · simpa [hdc] using hwhere

theorem Inv.setQuantum (h : Inv s Q) (t n : Nat) : Inv (s.setQuantum t n) Q := by
  constructor
  · simpa using h.family
  · simpa using h.placed
  · exact h.bound
  · exact h.offline
  · exact h.busy
  · exact h.idle

theorem setState_self {st : ThreadState} (h : s.state t = st) : s.setState t st = s := by
  unfold Scheduler.setState
  have hobject : { s.threads t with state := st } = s.threads t := by
    rw [← h]
    rfl
  rw [hobject, update_eq_self]

theorem Inv.not_waiting (h : Inv s Q) (hp : s.current c = some p) : ¬Waiting s p := by
  rintro ⟨-, hready⟩
  rw [(h.placed.on_cpu c p hp).2] at hready
  cases hready

theorem Inv.scheduleNext (h : Inv s Q) (hup : (s.cpus c).online = true) :
    ∃ s' Q', scheduleNext s c = some s' ∧ Inv s' Q' ∧ ∀ d, Serves s (Q d) (Q' d) := by
  obtain ⟨p, hp⟩ := h.busy c hup
  have hself := setState_self (h.placed.on_cpu c p hp).2
  by_cases hQ : Q c = []
  · have hrun := h.scheduleNext_empty hp hQ .running
    rw [hself] at hrun
    exact ⟨_, Q, hrun, h.setQuantum p _, fun d => serves_self s _⟩
  · obtain ⟨A, n, B, hsplit, -, -, hrun⟩ := h.scheduleNext_switch hp hQ .running
    rw [hself] at hrun
    refine ⟨_, _, hrun, h.switch_back hp hsplit,
      serves_update (.inr ⟨A ++ B, p, rfl, ?_, h.not_waiting hp⟩)⟩
    rw [hsplit]
    simp

theorem Inv.leaveCpu (h : Inv s Q) {st : ThreadState} (hup : (s.cpus c).online = true)
    (hidle : s.current c ≠ (s.cpus c).idle) (hr : st ≠ .ready) (hrun : st ≠ .running) :
    ∃ s' Q', leaveCpu s c st = some s' ∧ Inv s' Q' ∧ ∀ d, Serves s (Q d) (Q' d) := by
  obtain ⟨p, hp⟩ := h.busy c hup
  have hQ : Q c ≠ [] := by
    -- The idle thread is not the current one, so it is queued.
    obtain ⟨i, hi, hq | hcur⟩ := h.idle c hup
    · exact List.ne_nil_of_mem hq
    · exact absurd (hcur.trans hi.symm) hidle
  obtain ⟨A, n, B, hsplit, -, -, hnext⟩ := h.scheduleNext_switch hp hQ st
  refine ⟨_, update Q c (A ++ B), ?_, h.switch_away hp hsplit hr hrun (hp ▸ hidle),
    serves_update (.inl ?_)⟩
  · unfold Sched.leaveCpu
    simp only [hp, hnext]
    unfold requeue
    simp [hrun]
  · rw [hsplit]
    simp

theorem Inv.schedTick (h : Inv s Q) (hup : (s.cpus c).online = true) :
    ∃ s' Q', schedTick s c = some s' ∧ Inv s' Q' ∧ ∀ d, Serves s (Q d) (Q' d) := by
  obtain ⟨p, hp⟩ := h.busy c hup
  unfold Sched.schedTick
  simp only [hp]
  split
  · obtain ⟨s', Q', hnext, hinv, hserves⟩ :=
      (h.setQuantum p ((s.threads p).quantumTicks - 1)).scheduleNext hup
    refine ⟨s', Q', hnext, hinv, ?_⟩
    unfold Serves Waiting at *
    simpa using hserves
  · exact ⟨_, Q, rfl, h.setQuantum p _, fun d => serves_self s _⟩

/-! ## Bringing a CPU up -/

/-- What does not change when only links and queues do. -/
structure SameButQueues (s s' : Scheduler) : Prop where
  created : s'.created = s.created
  state : s'.state = s.state
  current : s'.current = s.current
  online : ∀ c, (s'.cpus c).online = (s.cpus c).online
  idle : ∀ c, (s'.cpus c).idle = (s.cpus c).idle

theorem sameButQueues_setReady (s : Scheduler) (c : Nat) (lq : Links Nat × Queue Nat) :
    SameButQueues s (s.setReady c lq) := by
  constructor <;> simp

theorem SameButQueues.trans {a b c : Scheduler} (h : SameButQueues a b) (h' : SameButQueues b c) :
    SameButQueues a c where
  created := h'.created.trans h.created
  state := h'.state.trans h.state
  current := h'.current.trans h.current
  online := fun i => (h'.online i).trans (h.online i)
  idle := fun i => (h'.idle i).trans (h.idle i)

theorem sameButQueues_unlinkEverywhere (s : Scheduler) (t : Nat) (L : List Nat) :
    SameButQueues s (unlinkEverywhere s t L) := by
  induction L generalizing s with
  | nil => constructor <;> simp [unlinkEverywhere]
  | cons i L ih => exact (sameButQueues_setReady s i _).trans (ih _)

theorem unlinkEverywhere_queues {L : List Nat} {s : Scheduler}
    (hnext : s.links.next t = none) (hprev : s.links.prev t = none)
    (hready : ∀ c, s.ready c = {} ∨ s.ready c = { head := some t, tail := some t, count := 1 }) :
    (unlinkEverywhere s t L).links = s.links ∧
      ∀ c, (unlinkEverywhere s t L).ready c = if c ∈ L then {} else s.ready c := by
  induction L generalizing s with
  | nil => simp [unlinkEverywhere]
  | cons i L ih =>
    have hremove : remove s.links (s.ready i) t = (s.links, {}) := by
      rcases hready i with hq | hq
      · rw [hq, remove_unlinked hnext hprev (by simp) (by simp)]
        rfl
      · rw [hq, remove_alone hnext hprev]
    obtain ⟨hlinks, hqueues⟩ := ih (s := s.setReady i (remove s.links (s.ready i) t))
      (by simpa [hremove] using hnext) (by simpa [hremove] using hprev) (by
        intro c
        by_cases hc : c = i
        · left
          simp [hc, hremove]
        · simpa [hc] using hready c)
    refine ⟨by rw [unlinkEverywhere, hlinks, hremove]; rfl, ?_⟩
    intro c
    rw [unlinkEverywhere, hqueues]
    by_cases hcL : c ∈ L
    · simp [hcL]
    · by_cases hc : c = i
      · simp [hc, hremove]
      · simp [hc]

theorem sameButQueues_enqueueOn (s : Scheduler) (c t : Nat) : SameButQueues s (enqueueOn s c t) :=
  sameButQueues_setReady s _ _

theorem createThread_alone {s : Scheduler} (hempty : ∀ d, s.ready d = {}) (priority : UInt8)
    (hup : ∃ i < maxCpus, (s.cpus i).online = true) :
    (createThread s priority).links.next s.created = none ∧
      (createThread s priority).links.prev s.created = none ∧
      ∀ d, (createThread s priority).ready d = {} ∨
        d < maxCpus ∧ (createThread s priority).ready d =
          { head := some s.created, tail := some s.created, count := 1 } := by
  obtain ⟨-, hlt⟩ := pickTargetCpu_online (s := newThread s { priority }) hup
  unfold createThread
  rw [enqueueOn_eq hlt]
  refine ⟨by simp [hempty, enqueue], by simp [hempty, enqueue], ?_⟩
  intro d
  by_cases hd : d = pickTargetCpu (newThread s { priority })
  · right
    rw [hd]
    exact ⟨hlt, by simp [hempty, enqueue]⟩
  · left
    simp [hd, hempty]

theorem createIdleThread_spec {s : Scheduler} (hempty : ∀ d, s.ready d = {})
    (hc : c < maxCpus) (hup : ∃ i < maxCpus, (s.cpus i).online = true) :
    IsFamily (createIdleThread s c).links (createIdleThread s c).ready
        (update (fun _ => []) c [s.created]) ∧
      SameButQueues (newThread s { priority := 0 }) (createIdleThread s c) := by
  obtain ⟨hnext, hprev, hready⟩ := createThread_alone hempty 0 hup
  obtain ⟨-, hqueues⟩ := unlinkEverywhere_queues (L := List.range maxCpus) hnext hprev
    (fun d => (hready d).imp_right And.right)
  have hnone : ∀ d, (unlinkEverywhere (createThread s 0) s.created (List.range maxCpus)).ready d =
      {} := by
    intro d
    rw [hqueues]
    rcases hready d with hq | ⟨hd, -⟩
    · rw [hq]
      split <;> rfl
    · rw [if_pos (List.mem_range.2 hd)]
  have hfam := (isFamily_empty (l := (unlinkEverywhere (createThread s 0) s.created
    (List.range maxCpus)).links) hnone).enqueue c (t := s.created) (by simp)
  constructor
  · unfold createIdleThread
    rw [enqueueOn_eq hc]
    simpa using hfam
  · exact (sameButQueues_enqueueOn _ _ _).trans
      ((sameButQueues_unlinkEverywhere _ _ _).trans (sameButQueues_enqueueOn _ _ _))

section
variable (s : Scheduler) (c d : Nat)

@[simp] theorem adoptStream_created : (adoptStream s c).created = s.created + 1 := rfl

@[simp] theorem adoptStream_state :
    (adoptStream s c).state = update s.state s.created .running := by
  unfold adoptStream
  rw [Scheduler.state_setCurrent, newThread_state]
  rfl

@[simp] theorem adoptStream_current :
    (adoptStream s c).current = update s.current c (some s.created) := by
  funext x
  by_cases hx : x = c <;> simp [adoptStream, Scheduler.current, Scheduler.setCurrent, hx]

@[simp] theorem adoptStream_ready : (adoptStream s c).ready = s.ready := by
  funext x
  by_cases hx : x = c <;> simp [adoptStream, Scheduler.ready, Scheduler.setCurrent, hx]

@[simp] theorem adoptStream_online :
    ((adoptStream s c).cpus d).online = if d = c then true else (s.cpus d).online := by
  by_cases hd : d = c <;> simp [adoptStream, hd]

@[simp] theorem adoptStream_idle : ((adoptStream s c).cpus d).idle = (s.cpus d).idle := by
  by_cases hd : d = c <;> simp [adoptStream, hd]

end

theorem Inv.bringUp (h : Inv s Q) (hc : c < maxCpus)
    (hdown : (s.cpus c).online = false) (hempty : ∀ d, Q d = []) :
    ∃ Q', Inv (bringUp s c) Q' ∧ ∀ d, Serves s (Q d) (Q' d) := by
  obtain rfl : Q = fun _ => [] := funext hempty
  obtain ⟨-, hnocur⟩ := h.offline c hdown
  have hqueues : ∀ d, s.ready d = {} := by
    intro d
    have hlist := h.family.isList d
    have hcount := h.family.count d
    rcases hq : s.ready d with ⟨hd, tl, n⟩
    rw [hq] at hlist hcount
    obtain rfl : hd = none := hlist.head
    obtain rfl : tl = none := hlist.tail
    obtain rfl : n = 0 := hcount
    rfl
  obtain ⟨hfam, hsame⟩ := createIdleThread_spec (s := adoptStream s c) (by simpa using hqueues) hc
    ⟨c, hc, by simp⟩
  have hplaced := ((h.placed.boot hnocur).create .blocked (by simp) (by simp)).push (c := c)
    (Nat.lt_succ_self _) (by simp) (by simp)
  refine ⟨update (fun _ => []) c [s.created + 1], ?_,
    serves_update (.inr ⟨[], _, rfl, List.Sublist.refl _, fun hwait => absurd hwait.1 (by simp)⟩)⟩
  unfold Sched.bringUp
  dsimp only
  generalize createIdleThread (adoptStream s c) c = s' at hfam hsame ⊢
  have honline : ∀ d, (s'.cpus d).online = if d = c then true else (s.cpus d).online := by
    intro d
    rw [hsame.online, newThread_cpus, adoptStream_online]
  have hcurrent : s'.current = update s.current c (some s.created) := by
    rw [hsame.current, newThread_current, adoptStream_current]
  constructor
  · simpa using hfam
  · simpa [hsame.created, hsame.state, hcurrent] using hplaced
  · intro d hd
    by_cases hdc : d = c
    · rwa [hdc]
    · exact h.bound d (by simpa [honline, hdc] using hd)
  · intro d hd
    have hdc : d ≠ c := by
      rintro rfl
      simp [honline] at hd
    simpa [hcurrent, hdc] using h.offline d (by simpa [honline, hdc] using hd)
  · intro d hd
    by_cases hdc : d = c
    · exact ⟨s.created, by simp [hcurrent, hdc]⟩
    · simpa [hcurrent, hdc] using h.busy d (by simpa [honline, hdc] using hd)
  · intro d hd
    by_cases hdc : d = c
    · exact ⟨s.created + 1, by simp [hdc], .inl (by simp [hdc])⟩
    · simpa [hcurrent, hdc, hsame.idle] using h.idle d (by simpa [honline, hdc] using hd)

end

end UnDOS.Sched
