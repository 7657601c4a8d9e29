import Mathlib.Data.List.Pairwise

/-!
# Runs of a Transition System

A run is the list of what happened, newest first: each action with the state it led to.

- `Run.invariant` is the induction over runs, done once.
- `replay` computes the run of a list of actions.
- `age P` is how long a property has held: the number of states up to the last one in
  which it held without a break.  A queue that only grows at its tail is sorted by age.
-/

namespace UnDOS.Lib

variable {σ α : Type}

/-- The state that a run has reached. -/
def lastState (start : σ) : List (α × σ) → σ
  | [] => start
  | (_, s) :: _ => s

theorem lastState_append (start : σ) (later past : List (α × σ)) :
    lastState start (later ++ past) = lastState (lastState start past) later := by
  cases later with
  | nil => rfl
  | cons x later => rfl

/-- The runs of the steps `step` from `start`. -/
inductive Run (step : σ → α → σ → Prop) (start : σ) : List (α × σ) → Prop where
  | nil : Run step start []
  | cons {past : List (α × σ)} {a : α} {s : σ} (run : Run step start past)
      (last : step (lastState start past) a s) : Run step start ((a, s) :: past)

/-- What a list of actions leads to, if each can be taken. -/
def replay (next : σ → α → Option σ) : σ → List α → Option σ
  | s, [] => some s
  | s, a :: acts => (next s a).bind fun s => replay next s acts

namespace Run

variable {step : σ → α → σ → Prop} {start : σ}

/-- What holds at the start and is kept by every step holds in every state reached. -/
theorem invariant {I : σ → Prop} (hstart : I start)
    (hstep : ∀ s a s', I s → step s a s' → I s') {run : List (α × σ)} (h : Run step start run) :
    I (lastState start run) := by
  induction h with
  | nil => exact hstart
  | cons _ last ih => exact hstep _ _ _ ih last

theorem of_append {later past : List (α × σ)} (h : Run step start (later ++ past)) :
    Run step start past ∧ Run step (lastState start past) later := by
  induction later with
  | nil => exact ⟨h, nil⟩
  | cons x later ih =>
    obtain ⟨a, s⟩ := x
    cases h with
    | cons run last =>
      obtain ⟨hpast, hlater⟩ := ih run
      have hlast : step (lastState start (later ++ past)) a s := last
      rw [lastState_append] at hlast
      exact ⟨hpast, cons hlater hlast⟩

theorem exists_replay {next : σ → α → Option σ} (hnext : ∀ s a s', next s a = some s' → step s a s')
    {past : List (α × σ)} (h : Run step start past) {acts : List α} {s' : σ}
    (hreplay : replay next (lastState start past) acts = some s') :
    ∃ run, Run step start run ∧ run.map Prod.fst = acts.reverse ++ past.map Prod.fst ∧
      lastState start run = s' := by
  induction acts generalizing past with
  | nil => exact ⟨past, h, rfl, Option.some.inj hreplay⟩
  | cons a acts ih =>
    obtain ⟨s, hs, hrest⟩ := Option.bind_eq_some_iff.1 hreplay
    obtain ⟨run, hrun, hacts, hlast⟩ := ih (cons h (hnext _ a s hs)) hrest
    refine ⟨run, hrun, ?_, hlast⟩
    rw [hacts, List.reverse_cons, List.append_assoc, List.map_cons, List.singleton_append]

end Run

/-! ## Loops -/

/-- A loop stays within a reflexive and transitive relation that every round stays within. -/
theorem foldl_rel {R : σ → σ → Prop} (hrefl : ∀ s, R s s) (htrans : ∀ s t u, R s t → R t u → R s u)
    {f : σ → α → σ} (hf : ∀ s a, R s (f s a)) (s : σ) (L : List α) : R s (L.foldl f s) := by
  induction L generalizing s with
  | nil => exact hrefl s
  | cons a L ih => exact htrans _ _ _ (hf s a) (ih (f s a))

theorem foldl_keeps {I : σ → Prop} {f : σ → α → σ} {L : List α}
    (hf : ∀ s a, a ∈ L → I s → I (f s a)) {s : σ} (hs : I s) : I (L.foldl f s) := by
  induction L generalizing s with
  | nil => exact hs
  | cons a L ih =>
    exact ih (fun s b hb => hf s b (.tail _ hb)) (hf s a (.head _) hs)

/-! ## How long a property has held -/

section Age
variable (P : σ → Prop) [DecidablePred P]

/-- The number of states in a row, up to the last one, in which `P` held. -/
def age (start : σ) : List (α × σ) → Nat
  | [] => if P start then 1 else 0
  | (_, s) :: past => if P s then age start past + 1 else 0

theorem age_of_not {start : σ} {run : List (α × σ)} (h : ¬P (lastState start run)) :
    age P start run = 0 := by
  rcases run with _ | ⟨⟨_, s⟩, past⟩
  · exact if_neg h
  · exact if_neg h

theorem age_cons {start s : σ} {a : α} {past : List (α × σ)} (h : P s) :
    age P start ((a, s) :: past) = age P start past + 1 := if_pos h

end Age

section Sorted
variable {β : Type} (P : σ → β → Prop) [∀ x, DecidablePred fun s => P s x]

/-- No node of the list is older than one before it. -/
def AgeSorted (start : σ) (run : List (α × σ)) (L : List β) : Prop :=
  L.Pairwise fun x y => age (fun s => P s y) start run ≤ age (fun s => P s x) start run

theorem AgeSorted.keep {start s : σ} {run : List (α × σ)} {a : α} {L L' : List β}
    (h : AgeSorted P start run L) (hsub : L'.Sublist L) (hP : ∀ x ∈ L', P s x) :
    AgeSorted P start ((a, s) :: run) L' := by
  apply (List.Pairwise.sublist hsub h).imp_of_mem
  intro x y hx hy hxy
  rw [age_cons (fun s => P s x) (hP x hx), age_cons (fun s => P s y) (hP y hy)]
  exact Nat.succ_le_succ hxy

theorem AgeSorted.push {start s : σ} {run : List (α × σ)} {a : α} {L L' : List β} {t : β}
    (h : AgeSorted P start run L) (hsub : L'.Sublist L) (hP : ∀ x ∈ L', P s x)
    (hnew : ¬P (lastState start run) t) : AgeSorted P start ((a, s) :: run) (L' ++ [t]) := by
  unfold AgeSorted
  rw [List.pairwise_append]
  refine ⟨h.keep P hsub hP, List.pairwise_singleton _ _, ?_⟩
  intro x hx y hy
  rw [List.mem_singleton.1 hy, age_cons (fun s => P s x) (hP x hx)]
  unfold age
  split
  · rw [age_of_not (fun s => P s t) hnew]
    exact Nat.succ_le_succ (Nat.zero_le _)
  · exact Nat.zero_le _

end Sorted

end UnDOS.Lib
