import UnDOS.Lib.Prog

/-!
# Checked Computations and Their Safety Rules

A routine that only reads shared data needs no state: it is an `Outcome ε α`.
An access outside its object is `stuck`, so what has to be shown about such a
routine is `Safe x Q`: it does not get stuck, and what it returns satisfies `Q`.
-/

namespace UnDOS.Lib

namespace Outcome

variable {ε α β σ : Type}

instance : Monad (Outcome ε) where
  pure a := .ok a
  bind x f :=
    match x with
    | .ok a => f a
    | .err e => .err e
    | .stuck => .stuck

/-- Go on when `c` holds, fail with `e` otherwise. -/
def ensure (c : Prop) [Decidable c] (e : ε) : Outcome ε Unit :=
  if c then .ok () else .err e

/-- `for (i = 0; i < n; ++i) s = body i s`. -/
def forRange : Nat → (Nat → σ → Outcome ε σ) → σ → Outcome ε σ
  | 0, _, s => .ok s
  | n + 1, body, s => do
    let s' ← forRange n body s
    body n s'

/-- `for (i = 0; i < n; ++i) if (test i) return true; return false`. -/
def anyRange : Nat → (Nat → Outcome ε Bool) → Outcome ε Bool
  | 0, _ => .ok false
  | n + 1, test => do
    let found ← anyRange n test
    if found then pure true else test n

/-- The value of an option, or the error `e`. -/
def orElse (e : ε) : Option α → Outcome ε α
  | some a => .ok a
  | none => .err e

/-- Did the computation return a value? -/
def isOk : Outcome ε α → Bool
  | .ok _ => true
  | _ => false

variable {x : Outcome ε α}

theorem exists_of_isOk (h : x.isOk = true) : ∃ a, x = .ok a := by
  cases x with
  | ok a => exact ⟨a, rfl⟩
  | err e => simp [isOk] at h
  | stuck => simp [isOk] at h

theorem bind_eq_ok {f : α → Outcome ε β} {b : β}
    (h : (x >>= f) = .ok b) : ∃ a, x = .ok a ∧ f a = .ok b := by
  cases x with
  | ok a => exact ⟨a, rfl, h⟩
  | err e => cases h
  | stuck => cases h

theorem ensure_eq_ok {c : Prop} [Decidable c] {e : ε} {u : Unit} (h : ensure c e = .ok u) : c := by
  unfold ensure at h
  split at h
  · assumption
  · cases h

theorem forRange_eq_ok {n : Nat} {body : Nat → σ → Outcome ε σ} {s s' : σ} (I : Nat → σ → Prop)
    (hinit : I 0 s) (hstep : ∀ i, i < n → ∀ t t', I i t → body i t = .ok t' → I (i + 1) t')
    (h : forRange n body s = .ok s') : I n s' := by
  induction n generalizing s' with
  | zero =>
    cases h
    exact hinit
  | succ n ih =>
    obtain ⟨t, ht, hlast⟩ := bind_eq_ok h
    exact hstep n (by omega) t s' (ih (fun i hi => hstep i (by omega)) ht) hlast

theorem ensure_eq_ok_iff {c : Prop} [Decidable c] {e : ε} {u : Unit} : ensure c e = .ok u ↔ c := by
  constructor
  · exact ensure_eq_ok
  · intro hc
    exact if_pos hc

theorem bind_congr {f g : α → Outcome ε β} (h : ∀ a, x = .ok a → f a = g a) :
    (x >>= f) = (x >>= g) := by
  cases x with
  | ok a => exact h a rfl
  | err e => rfl
  | stuck => rfl

theorem ensure_bind_congr {c : Prop} [Decidable c] {e : ε} {f g : Unit → Outcome ε β}
    (h : c → f () = g ()) : (ensure c e >>= f) = (ensure c e >>= g) :=
  bind_congr fun _ hc => h (ensure_eq_ok hc)

theorem forRange_congr {n : Nat} {body body' : Nat → σ → Outcome ε σ} {s : σ}
    (h : ∀ i < n, ∀ t, body i t = body' i t) : forRange n body s = forRange n body' s := by
  induction n with
  | zero => rfl
  | succ n ih =>
    rw [forRange, ih fun i hi => h i (Nat.lt_succ_of_lt hi)]
    exact bind_congr fun t _ => h n (Nat.lt_succ_self n) t

@[simp] theorem ok_bind (a : α) (f : α → Outcome ε β) :
    ((Outcome.ok a : Outcome ε α) >>= f) = f a := rfl

@[simp] theorem err_bind (e : ε) (f : α → Outcome ε β) :
    ((Outcome.err e : Outcome ε α) >>= f) = .err e := rfl

@[simp] theorem stuck_bind (f : α → Outcome ε β) :
    ((Outcome.stuck : Outcome ε α) >>= f) = .stuck := rfl

@[simp] theorem pure_eq_ok (a : α) : (pure a : Outcome ε α) = .ok a := rfl

/-- `x` does not get stuck, and what it returns satisfies `Q`. -/
def Safe (x : Outcome ε α) (Q : α → Prop) : Prop :=
  match x with
  | .ok a => Q a
  | .err _ => True
  | .stuck => False

namespace Safe

variable {x : Outcome ε α} {P Q : α → Prop} {R : β → Prop}

theorem ne_stuck (h : Safe x Q) : x ≠ .stuck := by
  rintro rfl
  exact h

theorem of_ok (h : Safe x Q) {a : α} (hx : x = .ok a) : Q a := by
  subst hx
  exact h

theorem ok {a : α} (h : Q a) : Safe (.ok a : Outcome ε α) Q := h

theorem err {e : ε} : Safe (.err e : Outcome ε α) Q := trivial

theorem mono (h : Safe x P) (hPQ : ∀ a, P a → Q a) : Safe x Q := by
  cases x with
  | ok a => exact hPQ a h
  | err e => trivial
  | stuck => exact h

theorem strengthen (h : Safe x P) (hQ : ∀ a, x = .ok a → P a → Q a) : Safe x Q := by
  cases x with
  | ok a => exact hQ a rfl h
  | err e => trivial
  | stuck => exact h

theorem bind {f : α → Outcome ε β} (h : Safe x P) (hf : ∀ a, P a → Safe (f a) R) :
    Safe (x >>= f) R := by
  cases x with
  | ok a => exact hf a h
  | err e => trivial
  | stuck => exact h

theorem ensure {c : Prop} [Decidable c] {e : ε} {f : Unit → Outcome ε β}
    (hf : c → Safe (f ()) R) : Safe (Outcome.ensure c e >>= f) R := by
  unfold Outcome.ensure
  split
  case isTrue hc => exact hf hc
  case isFalse => trivial

theorem ensure_last {c : Prop} [Decidable c] {e : ε} {Q : Unit → Prop} (hQ : c → Q ()) :
    Safe (Outcome.ensure c e) Q := by
  unfold Outcome.ensure
  split
  case isTrue hc => exact hQ hc
  case isFalse => trivial

theorem orElse {e : ε} {o : Option α} {f : α → Outcome ε β}
    (hf : ∀ a, o = some a → Safe (f a) R) : Safe (Outcome.orElse e o >>= f) R := by
  cases o with
  | some a => exact hf a rfl
  | none => trivial

theorem ite {c : Prop} [Decidable c] {x y : Outcome ε α}
    (ht : c → Safe x Q) (hf : ¬c → Safe y Q) : Safe (if c then x else y) Q := by
  split
  case isTrue hc => exact ht hc
  case isFalse hc => exact hf hc

/-- The invariant rule: `I i` holds of the state before iteration `i`. -/
theorem forRange {n : Nat} {body : Nat → σ → Outcome ε σ} {s : σ} (I : Nat → σ → Prop)
    (hinit : I 0 s) (hstep : ∀ i, i < n → ∀ t, I i t → Safe (body i t) (I (i + 1))) :
    Safe (Outcome.forRange n body s) (I n) := by
  induction n with
  | zero => exact hinit
  | succ n ih =>
    have hbefore := ih fun i hi => hstep i (by omega)
    exact hbefore.bind fun t ht => hstep n (by omega) t ht

theorem forRange_all {n : Nat} {body : Nat → Unit → Outcome ε Unit} (P : Nat → Prop)
    (hstep : ∀ i, i < n → Safe (body i ()) (fun _ => P i)) :
    Safe (Outcome.forRange n body ()) (fun _ => ∀ i, i < n → P i) := by
  apply Safe.forRange (I := fun k _ => ∀ i, i < k → P i)
  · omega
  · intro k hk _ hall
    refine (hstep k hk).mono fun _ hPk i hi => ?_
    rcases Nat.lt_succ_iff_lt_or_eq.mp hi with hlt | rfl
    · exact hall i hlt
    · exact hPk

theorem anyRange_safe {n : Nat} {test : Nat → Outcome ε Bool}
    (hstep : ∀ i, i < n → Safe (test i) (fun _ => True)) :
    Safe (Outcome.anyRange n test) (fun _ => True) := by
  induction n with
  | zero => trivial
  | succ n ih =>
    refine (ih fun i hi => hstep i (by omega)).bind fun found _ => ?_
    exact Safe.ite (fun _ => trivial) fun _ => hstep n (by omega)

/-- A search loop decides whether some index satisfies `P`. -/
theorem anyRange {n : Nat} {test : Nat → Outcome ε Bool} (P : Nat → Prop)
    (hstep : ∀ i, i < n → Safe (test i) (fun found => found = true ↔ P i)) :
    Safe (Outcome.anyRange n test) (fun found => found = true ↔ ∃ i, i < n ∧ P i) := by
  induction n with
  | zero =>
    show (false = true ↔ ∃ i, i < 0 ∧ P i)
    simp
  | succ n ih =>
    refine (ih fun i hi => hstep i (by omega)).bind fun found hfound => ?_
    by_cases hf : found = true
    · rw [if_pos hf]
      obtain ⟨i, hi, hP⟩ := hfound.mp hf
      exact Safe.ok (iff_of_true rfl ⟨i, by omega, hP⟩)
    · rw [if_neg hf]
      refine (hstep n (by omega)).mono fun last hlast => ?_
      rw [hlast]
      constructor
      · intro hP
        exact ⟨n, by omega, hP⟩
      · rintro ⟨i, hi, hP⟩
        rcases Nat.lt_succ_iff_lt_or_eq.mp hi with hlt | rfl
        · exact absurd (hfound.mpr ⟨i, hlt, hP⟩) hf
        · exact hP

end Safe

end Outcome

end UnDOS.Lib
