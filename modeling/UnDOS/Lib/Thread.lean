import Mathlib.Data.List.Basic
import UnDOS.Lib.Stateful

/-!
# Threads of Atomic Sections

A `Thread σ α` runs on a state `σ` that it shares with other threads.  What it does between
taking a lock and giving it back is one atomic section, and other threads run between its
sections.

`Sound I le Q t s` is the proof obligation of the thread `t` in the state `s`.  Other threads may
have run before each of its sections, so the section has to keep the invariant `I` in every later
state that satisfies it, where `le` says which states are later.  Its result has to satisfy `Q`.

A `System` is a state with threads; `System.run_sound` is what any order of their sections keeps.
-/

namespace UnDOS.Lib

/-- A thread that returned, or its next section and what follows it. -/
inductive Thread (σ α : Type) : Type 1 where
  | ret (a : α)
  | section {β : Type} (body : StateM σ β) (next : β → Thread σ α)

/-- What holds of a value in a state stays so in later states. -/
def Stays {σ α : Type} (le : σ → σ → Prop) (Q : α → σ → Prop) : Prop :=
  ∀ a s t, Q a s → le s t → Q a t

namespace Thread

variable {σ α β : Type}

protected def bind : Thread σ α → (α → Thread σ β) → Thread σ β
  | .ret a, f => f a
  | .section body next, f => .section body fun b => (next b).bind f

instance : Monad (Thread σ) where
  pure := .ret
  bind := Thread.bind

/-- One section. -/
def atomic (body : StateM σ α) : Thread σ α := .section body .ret

/-! ## Obligations -/

/-- What the thread has to show in a state: see the head of this file. -/
def Sound (I : σ → Prop) (le : σ → σ → Prop) (Q : α → σ → Prop) : Thread σ α → σ → Prop
  | .ret a, s => Q a s
  | .section body next, s => ∀ t, le s t → I t →
      I (body.run t).2 ∧ le t (body.run t).2 ∧ (next (body.run t).1).Sound I le Q (body.run t).2

variable {I : σ → Prop} {le : σ → σ → Prop} {Q : α → σ → Prop}

theorem Sound.mono [IsLater le] (hQ : Stays le Q) {x : Thread σ α} {s t : σ}
    (h : x.Sound I le Q s) (hst : le s t) : x.Sound I le Q t := by
  cases x with
  | ret a => exact hQ a s t h hst
  | «section» body next => exact fun u htu hu => h u (IsLater.trans _ _ _ hst htu) hu

theorem Sound.frame {F : σ → Prop} (hF : ∀ s t, F s → le s t → F t) {x : Thread σ α} {s : σ}
    (h : x.Sound I le Q s) (hs : F s) : x.Sound I le (fun a t => Q a t ∧ F t) s := by
  induction x generalizing s with
  | ret a => exact ⟨h, hs⟩
  | «section» body next ih =>
    intro t hst ht
    obtain ⟨hI, hle, hnext⟩ := h t hst ht
    exact ⟨hI, hle, ih _ hnext (hF _ _ (hF _ _ hs hst) hle)⟩

theorem Sound.pure {a : α} {s : σ} (h : Q a s) : (Pure.pure a : Thread σ α).Sound I le Q s := h

/-- One section: what it does to every later state. -/
theorem Sound.atomic {body : StateM σ α} {s : σ} (h : ∀ t, le s t → I t →
    I (body.run t).2 ∧ le t (body.run t).2 ∧ Q (body.run t).1 (body.run t).2) :
    (Thread.atomic body).Sound I le Q s := h

theorem Sound.bind {R : α → σ → Prop} {f : α → Thread σ β} {Q : β → σ → Prop} {x : Thread σ α}
    {s : σ} (hx : x.Sound I le R s) (hf : ∀ a t, R a t → (f a).Sound I le Q t) :
    (x >>= f).Sound I le Q s := by
  induction x generalizing s with
  | ret a => exact hf a s hx
  | «section» body next ih =>
    intro t hst ht
    obtain ⟨hI, hle, hnext⟩ := hx t hst ht
    exact ⟨hI, hle, ih _ hnext⟩

theorem Sound.ite {c : Prop} [Decidable c] {x y : Thread σ α} {s : σ}
    (hx : c → x.Sound I le Q s) (hy : ¬c → y.Sound I le Q s) :
    (if c then x else y).Sound I le Q s := by
  by_cases hc : c
  · rw [if_pos hc]
    exact hx hc
  · rw [if_neg hc]
    exact hy hc

/-- One section, from `P`: it keeps the invariant, goes to a later state, and satisfies `Q`. -/
def Advances (I : σ → Prop) (le : σ → σ → Prop) (P : σ → Prop) (body : StateM σ α)
    (Q : α → σ → Prop) : Prop :=
  ∀ s, I s → P s → I (body.run s).2 ∧ le s (body.run s).2 ∧ Q (body.run s).1 (body.run s).2

theorem Advances.sound {P : σ → Prop} {body : StateM σ α} (h : Advances I le P body Q)
    (hP : ∀ s t, P s → le s t → P t) {s : σ} (hs : P s) : (Thread.atomic body).Sound I le Q s :=
  .atomic fun t hst ht => h t ht (hP s t hs hst)

theorem Advances.returning {P : σ → Prop} {body : StateM σ α} {R : α → Prop}
    (h : Advances I le P body Q) (hR : Returns R body) :
    Advances I le P body fun a s => Q a s ∧ R a :=
  fun s hs hp => ⟨(h s hs hp).1, (h s hs hp).2.1, (h s hs hp).2.2, hR s⟩

end Thread

/-! ## Systems -/

/-- A state and the threads on it. -/
structure System (σ α : Type) : Type 1 where
  state : σ
  threads : List (Thread σ α) := []

/-- What the scheduler does. -/
inductive Turn (κ : Type) where
  /-- A new call. -/
  | call (k : κ)
  /-- The next section of a thread. -/
  | run (thread : Nat)
deriving DecidableEq

namespace System

variable {σ α κ : Type}

/-- The next section of the thread `i`, if it has not returned. -/
def runThread (s : System σ α) (i : Nat) : System σ α :=
  match s.threads[i]? with
  | some (.section body next) =>
    { state := (body.run s.state).2
      threads := s.threads.set i (next (body.run s.state).1) }
  | _ => s

def turn (call : κ → Thread σ α) (s : System σ α) : Turn κ → System σ α
  | .call k => { s with threads := s.threads ++ [call k] }
  | .run i => s.runThread i

/-- The system after the turns. -/
def run (call : κ → Thread σ α) (s : System σ α) (turns : List (Turn κ)) : System σ α :=
  turns.foldl (turn call) s

/-- The invariant holds, and every thread meets its obligation. -/
structure Good (I : σ → Prop) (le : σ → σ → Prop) (Q : α → σ → Prop) (s : System σ α) : Prop where
  holds : I s.state
  sound : ∀ x ∈ s.threads, x.Sound I le Q s.state

variable {I : σ → Prop} {le : σ → σ → Prop} {Q : α → σ → Prop}

theorem Good.runThread [IsLater le] (hQ : Stays le Q) {s : System σ α} (h : s.Good I le Q)
    (i : Nat) : (s.runThread i).Good I le Q ∧ le s.state (s.runThread i).state := by
  unfold System.runThread
  rcases hi : s.threads[i]? with _ | _ | ⟨body, next⟩
  · exact ⟨h, IsLater.refl _⟩
  · exact ⟨h, IsLater.refl _⟩
  · obtain ⟨hI, hlater, hnext⟩ :=
      h.sound _ (List.mem_of_getElem? hi) s.state (IsLater.refl _) h.holds
    refine ⟨⟨hI, fun x hx => ?_⟩, hlater⟩
    rcases List.mem_or_eq_of_mem_set hx with hold | rfl
    · exact (h.sound x hold).mono hQ hlater
    · exact hnext

/-- A call meets its obligation wherever it is made; then the invariant and the obligations hold
    after any order of the sections. -/
theorem run_sound [IsLater le] (hQ : Stays le Q) {call : κ → Thread σ α}
    (hcall : ∀ k s, (call k).Sound I le Q s) {s : System σ α} (h : s.Good I le Q)
    (turns : List (Turn κ)) :
    (s.run call turns).Good I le Q ∧ le s.state (s.run call turns).state := by
  induction turns generalizing s with
  | nil => exact ⟨h, IsLater.refl _⟩
  | cons t turns ih =>
    cases t with
    | call k =>
      refine ih ⟨h.holds, fun x hx => ?_⟩
      rcases List.mem_append.mp hx with hold | hnew
      · exact h.sound x hold
      · rw [List.mem_singleton.mp hnew]
        exact hcall k s.state
    | run i =>
      obtain ⟨hgood, hlater⟩ := h.runThread hQ i
      obtain ⟨hrest, hlater'⟩ := ih hgood
      exact ⟨hrest, IsLater.trans _ _ _ hlater hlater'⟩

theorem Good.returned {s : System σ α} (h : s.Good I le Q) {a : α}
    (ha : Thread.ret a ∈ s.threads) : Q a s.state :=
  h.sound _ ha

end System

end UnDOS.Lib
