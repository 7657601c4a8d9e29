import UnDOS.Lib.Prog

/-!
# Loops, Inversion and What a Program May Change

Three things that every proof about a `Prog` needs.

- Loops: `forRange` runs a body a fixed number of times, `countTry` stops at the
  first body that fails and returns how many did not.
- Inversion: a finished run is taken apart into the runs of its parts.
- Effects: `Within R x` says that whatever `x` does to the state is allowed by the
  relation `R`.  When `R` is reflexive and transitive (`IsEffect`) the rules compose, so the
  effect of a routine follows from the effects of the routines it calls.
-/

namespace UnDOS.Lib.Prog

variable {σ ε α β : Type}

/-! ## Loops -/

/-- `for (i = 0; i < n; ++i) body(i)`. -/
def forRange (n : Nat) (body : Nat → Prog σ ε Unit) : Prog σ ε Unit :=
  match n with
  | 0 => pure ()
  | n + 1 => do
    forRange n body
    body n

/-- The loop behind `countTry`: `todo` more bodies, `i` of them done. -/
def countTryFrom (body : Nat → Prog σ ε Unit) : Nat → Nat → Prog σ ε (Nat × Option ε)
  | 0, i => pure (i, none)
  | todo + 1, i => do
    let r ← attempt (body i)
    match r with
    | .ok _ => countTryFrom body todo (i + 1)
    | .error e => pure (i, some e)

/-- `for (i = 0; i < n; ++i) if (body(i) fails) break;`, with the final `i` and the error
that ended the loop, if one did. -/
def countTry (n : Nat) (body : Nat → Prog σ ε Unit) : Prog σ ε (Nat × Option ε) :=
  countTryFrom body n 0

variable {s s' : σ} {x : Prog σ ε α} {f : α → Prog σ ε β} {body : Nat → Prog σ ε Unit}
  {I : Nat → σ → Prop}

theorem forRange_ok (n : Nat) (body : Nat → Prog σ ε Unit) (I : Nat → σ → Prop)
    (h0 : I 0 s) (hstep : ∀ i < n, ∀ s, I i s → ∃ s', body i s = (.ok (), s') ∧ I (i + 1) s') :
    ∃ s', forRange n body s = (.ok (), s') ∧ I n s' := by
  induction n with
  | zero => exact ⟨s, rfl, h0⟩
  | succ n ih =>
    obtain ⟨s₁, hs₁, hI₁⟩ := ih fun i hi => hstep i (Nat.lt_succ_of_lt hi)
    obtain ⟨s₂, hs₂, hI₂⟩ := hstep n (Nat.lt_succ_self n) s₁ hI₁
    exact ⟨s₂, (bind_ok hs₁).trans hs₂, hI₂⟩

/-! ## Inversion -/

theorem bind_eq_ok {b : β} :
    (x >>= f) s = (.ok b, s') ↔ ∃ a t, x s = (.ok a, t) ∧ f a t = (.ok b, s') := by
  constructor
  · intro h
    rcases hx : x s with ⟨o, t⟩
    cases o with
    | ok a => exact ⟨a, t, rfl, by rw [← h, bind_ok hx]⟩
    | err e => rw [bind_err hx] at h; simp at h
    | stuck => rw [bind_stuck hx] at h; simp at h
  · rintro ⟨a, t, hx, hf⟩
    rw [bind_ok hx, hf]

theorem bind_eq_err {e : ε} : (x >>= f) s = (.err e, s') ↔
      x s = (.err e, s') ∨ ∃ a t, x s = (.ok a, t) ∧ f a t = (.err e, s') := by
  rcases hx : x s with ⟨o, t⟩
  cases o with
  | ok a => rw [bind_ok hx]; simp
  | err e' => rw [bind_err hx]; simp
  | stuck => rw [bind_stuck hx]; simp

theorem bind_run {o : Outcome ε β} (h : (x >>= f) s = (o, s')) (ho : o ≠ .stuck) :
    (∃ a t, x s = (.ok a, t) ∧ f a t = (o, s')) ∨ ∃ e, x s = (.err e, s') ∧ o = .err e := by
  rcases hx : x s with ⟨ox, t⟩
  cases ox with
  | ok a => exact .inl ⟨a, t, rfl, by rw [← h, bind_ok hx]⟩
  | err e =>
    rw [bind_err hx] at h
    cases h
    exact .inr ⟨e, rfl, rfl⟩
  | stuck =>
    rw [bind_stuck hx] at h
    exact absurd (Prod.mk.inj h).1.symm ho

/-- After a first part that returns a value the second part runs on it. -/
theorem bind_returns {P : α → σ → Prop} {o : Outcome ε β} (h : (x >>= f) s = (o, s'))
    (ho : o ≠ .stuck)
    (hx : ∀ ox t, x s = (ox, t) → ox ≠ .stuck → ∃ a, ox = .ok a ∧ P a t) :
    ∃ a t, x s = (.ok a, t) ∧ P a t ∧ f a t = (o, s') := by
  rcases bind_run h ho with ⟨a, t, hrun, hf⟩ | ⟨e, hrun, -⟩
  · obtain ⟨a', hok, hP⟩ := hx _ _ hrun (by simp)
    exact ⟨a, t, hrun, Outcome.ok.inj hok ▸ hP, hf⟩
  · obtain ⟨_, herr, -⟩ := hx _ _ hrun (by simp)
    cases herr

theorem bind_returns_pair {γ : Type} {x : Prog σ ε (α × γ)} {f : α × γ → Prog σ ε β}
    {P : α → γ → σ → Prop}
    {o : Outcome ε β} (h : (x >>= f) s = (o, s')) (ho : o ≠ .stuck)
    (hx : ∀ ox t, x s = (ox, t) → ox ≠ .stuck → ∃ a c, ox = .ok (a, c) ∧ P a c t) :
    ∃ a c t, x s = (.ok (a, c), t) ∧ P a c t ∧ f (a, c) t = (o, s') := by
  have hpair := bind_returns (P := fun p => P p.1 p.2) h ho fun ox t hrun hox => by
    obtain ⟨a, c, hok, hP⟩ := hx ox t hrun hox
    exact ⟨(a, c), hok, hP⟩
  obtain ⟨⟨a, c⟩, t, hrun, hP, hf⟩ := hpair
  exact ⟨a, c, t, hrun, hP, hf⟩

theorem bind_done {x : Prog σ ε Unit} {f : Unit → Prog σ ε β} {P : σ → Prop} {o : Outcome ε β}
    (h : (x >>= f) s = (o, s')) (ho : o ≠ .stuck)
    (hx : ∀ ox t, x s = (ox, t) → ox ≠ .stuck → ox = .ok () ∧ P t) :
    ∃ t, x s = (.ok (), t) ∧ P t ∧ f () t = (o, s') := by
  obtain ⟨_, t, hrun, hP, hf⟩ := bind_returns (P := fun _ => P) h ho fun ox t hrun hox =>
    ⟨(), hx ox t hrun hox⟩
  exact ⟨t, hrun, hP, hf⟩

theorem bind_ne_stuck (h : ((x >>= f) s).1 ≠ .stuck) : (x s).1 ≠ .stuck := by
  intro hx
  rcases hs : x s with ⟨o, t⟩
  rw [hs] at hx
  subst hx
  rw [bind_stuck hs] at h
  exact h rfl

theorem attempt_eq_ok {r : Except ε α} (h : attempt x s = (.ok r, s')) :
    (∃ a, r = .ok a ∧ x s = (.ok a, s')) ∨ (∃ e, r = .error e ∧ x s = (.err e, s')) := by
  unfold attempt at h
  rcases hx : x s with ⟨o, t⟩
  rw [hx] at h
  cases o with
  | ok a =>
    obtain ⟨hr, rfl⟩ : Except.ok a = r ∧ t = s' := by simpa using h
    exact .inl ⟨a, hr.symm, rfl⟩
  | err e =>
    obtain ⟨hr, rfl⟩ : Except.error e = r ∧ t = s' := by simpa using h
    exact .inr ⟨e, hr.symm, rfl⟩
  | stuck => simp at h

theorem attempt_run {f : Except ε α → Prog σ ε β} {o : Outcome ε β}
    (h : (attempt x >>= f) s = (o, s')) (ho : o ≠ .stuck) :
    (∃ a t, x s = (.ok a, t) ∧ f (.ok a) t = (o, s')) ∨
      ∃ e t, x s = (.err e, t) ∧ f (.error e) t = (o, s') := by
  rcases hx : x s with ⟨ox, t⟩
  cases ox with
  | ok a => exact .inl ⟨a, t, rfl, by rw [← h, bind_ok (attempt_ok hx)]⟩
  | err e => exact .inr ⟨e, t, rfl, by rw [← h, bind_ok (attempt_err hx)]⟩
  | stuck =>
    have hstuck : attempt x s = (.stuck, t) := by
      unfold attempt
      rw [hx]
    rw [bind_stuck hstuck] at h
    exact absurd (Prod.mk.inj h).1.symm ho

theorem countTryFrom_none {todo i n : Nat}
    (h : countTryFrom body todo i s = (.ok (n, none), s')) (h0 : I i s)
    (hstep : ∀ j t t', i ≤ j → I j t → body j t = (.ok (), t') → I (j + 1) t') :
    I (i + todo) s' := by
  induction todo generalizing i s with
  | zero =>
    cases h
    exact h0
  | succ todo ih =>
    obtain ⟨r, t, hr, h⟩ := bind_eq_ok.1 h
    rcases attempt_eq_ok hr with ⟨_, rfl, hbody⟩ | ⟨e, rfl, _⟩
    · have hnext := ih h (hstep i s t (Nat.le_refl i) h0 hbody)
        fun j t t' hj => hstep j t t' (by omega)
      rwa [show i + 1 + todo = i + (todo + 1) by omega] at hnext
    · simp at h

theorem countTry_none {count n : Nat} (h : countTry count body s = (.ok (n, none), s')) (h0 : I 0 s)
    (hstep : ∀ j t t', I j t → body j t = (.ok (), t') → I (j + 1) t') : I count s' := by
  have hend := countTryFrom_none h h0 fun j t t' _ => hstep j t t'
  rwa [Nat.zero_add] at hend

theorem countTryFrom_run {todo i : Nat} {o : Outcome ε (Nat × Option ε)} (h0 : I i s)
    (hbody : ∀ j < i + todo, ∀ t o t', I j t → body j t = (o, t') → o ≠ .stuck →
      (o = .ok () → I (j + 1) t') ∧ ∀ e, o = .err e → I j t')
    (h : countTryFrom body todo i s = (o, s')) (ho : o ≠ .stuck) :
    ∃ n f, o = .ok (n, f) ∧ I n s' ∧ n ≤ i + todo ∧ (f = none → n = i + todo) := by
  induction todo generalizing i s with
  | zero =>
    cases h
    exact ⟨i, none, rfl, h0, .refl, fun _ => rfl⟩
  | succ todo ih =>
    have hround := hbody i (by omega) s
    unfold countTryFrom at h
    rcases hb : body i s with ⟨ob, t⟩
    cases ob with
    | ok u =>
      rw [bind_ok (attempt_ok hb)] at h
      obtain ⟨n, f, hf, hI, hle, hn⟩ := ih ((hround _ t h0 hb (by simp)).1 rfl)
        (fun j hj => hbody j (by omega)) h
      exact ⟨n, f, hf, hI, by omega, fun hnone => by rw [hn hnone]; omega⟩
    | err e =>
      rw [bind_ok (attempt_err hb)] at h
      obtain ⟨rfl, rfl⟩ := Prod.mk.inj h
      exact ⟨i, some e, rfl, (hround _ t h0 hb (by simp)).2 e rfl, by omega, by simp⟩
    | stuck =>
      have hstuck : attempt (body i) s = (.stuck, t) := by
        unfold attempt
        rw [hb]
      rw [bind_stuck hstuck] at h
      exact absurd (Prod.mk.inj h).1.symm ho

theorem countTry_run {count : Nat} {o : Outcome ε (Nat × Option ε)} (h0 : I 0 s)
    (hbody : ∀ j < count, ∀ t o t', I j t → body j t = (o, t') → o ≠ .stuck →
      (o = .ok () → I (j + 1) t') ∧ ∀ e, o = .err e → I j t')
    (h : countTry count body s = (o, s')) (ho : o ≠ .stuck) :
    ∃ n f, o = .ok (n, f) ∧ I n s' ∧ n ≤ count ∧ (f = none → n = count) := by
  have hbody' : ∀ j < 0 + count, ∀ t o t', I j t → body j t = (o, t') → o ≠ .stuck →
      (o = .ok () → I (j + 1) t') ∧ ∀ e, o = .err e → I j t' := by
    rw [Nat.zero_add]
    exact hbody
  obtain ⟨n, f, hf, hI, hle, hn⟩ := countTryFrom_run h0 hbody' h ho
  rw [Nat.zero_add] at hle hn
  exact ⟨n, f, hf, hI, hle, hn⟩

theorem forRange_run {n : Nat} {o : Outcome ε Unit} (h0 : I 0 s)
    (hbody : ∀ i < n, ∀ t o t', I i t → body i t = (o, t') → o ≠ .stuck → o = .ok () ∧ I (i + 1) t')
    (h : forRange n body s = (o, s')) (ho : o ≠ .stuck) : o = .ok () ∧ I n s' := by
  induction n generalizing o s' with
  | zero =>
    cases h
    exact ⟨rfl, h0⟩
  | succ n ih =>
    unfold forRange at h
    rcases hr : forRange n body s with ⟨o₁, t⟩
    cases o₁ with
    | ok u =>
      obtain ⟨-, hI⟩ := ih (fun i hi => hbody i (Nat.lt_succ_of_lt hi)) hr (by simp)
      rw [bind_ok hr] at h
      exact hbody n (Nat.lt_succ_self n) t o s' hI h ho
    | err e =>
      have hok := (ih (fun i hi => hbody i (Nat.lt_succ_of_lt hi)) hr (by simp)).1
      cases hok
    | stuck =>
      rw [bind_stuck hr] at h
      exact absurd (Prod.mk.inj h).1.symm ho

/-! ## Effects -/

/-- A relation that allows doing nothing and doing one thing after another. -/
structure IsEffect (R : σ → σ → Prop) : Prop where
  refl : ∀ s, R s s
  trans : ∀ {a b c}, R a b → R b c → R a c

/-- Every change that `x` makes to the state, when it ends, is allowed by `R`. -/
def Within (R : σ → σ → Prop) (x : Prog σ ε α) : Prop :=
  ∀ s, (x s).1 ≠ .stuck → R s (x s).2

namespace Within

variable {R : σ → σ → Prop}
variable {x : Prog σ ε α} {body : Nat → Prog σ ε Unit}

theorem of_eq (h : Within R x) {s s' : σ} {o : Outcome ε α} (hx : x s = (o, s'))
    (ho : o ≠ .stuck) : R s s' := by
  have hrun := h s
  rw [hx] at hrun
  exact hrun ho

theorem of_same (hR : IsEffect R) (h : ∀ s, (x s).2 = s) : Within R x := by
  intro s _
  rw [h s]
  exact hR.refl s

theorem pure (hR : IsEffect R) (a : α) : Within R (Pure.pure a : Prog σ ε α) :=
  of_same hR fun _ => rfl

theorem throw (hR : IsEffect R) (e : ε) : Within R (throw e : Prog σ ε α) :=
  of_same hR fun _ => rfl

theorem get (hR : IsEffect R) : Within R (get : Prog σ ε σ) := of_same hR fun _ => rfl

theorem diverge : Within R (diverge : Prog σ ε α) := fun _ h => absurd rfl h

theorem modify {f : σ → σ} (h : ∀ s, R s (f s)) : Within R (modify f : Prog σ ε Unit) :=
  fun s _ => h s

theorem bind (hR : IsEffect R) {f : α → Prog σ ε β}
    (hx : Within R x) (hf : ∀ a, Within R (f a)) : Within R (x >>= f) := by
  intro s hs
  have hxs := hx s (bind_ne_stuck hs)
  rcases hrun : x s with ⟨o, t⟩
  rw [hrun] at hxs
  cases o with
  | ok a =>
    rw [bind_ok hrun] at hs ⊢
    exact hR.trans hxs (hf a t hs)
  | err e => rw [bind_err hrun]; exact hxs
  | stuck => rw [bind_stuck hrun] at hs; exact absurd rfl hs

theorem ite {c : Prop} [Decidable c] {y : Prog σ ε α} (hx : c → Within R x)
    (hy : ¬c → Within R y) : Within R (if c then x else y) := by
  split
  · exact hx ‹_›
  · exact hy ‹_›

theorem attempt (hx : Within R x) : Within R (attempt x) := by
  intro s hs
  unfold Prog.attempt at hs ⊢
  rcases hrun : x s with ⟨o, t⟩
  have hxs := hx s
  rw [hrun] at hs hxs
  cases o with
  | ok a => exact hxs (by simp)
  | err e => exact hxs (by simp)
  | stuck => simp at hs

theorem ofExcept (hR : IsEffect R) (r : Except ε α) : Within R (ofExcept r : Prog σ ε α) := by
  cases r with
  | ok a => exact pure hR a
  | error e => exact throw hR e

theorem forRange (hR : IsEffect R) {n : Nat}
    (h : ∀ i, Within R (body i)) : Within R (forRange n body) := by
  induction n with
  | zero => exact pure hR ()
  | succ n ih => exact bind hR ih fun _ => h n

theorem countTryFrom (hR : IsEffect R)
    (h : ∀ i, Within R (body i)) (todo i : Nat) : Within R (countTryFrom body todo i) := by
  induction todo generalizing i with
  | zero => exact pure hR (i, none)
  | succ todo ih =>
    apply bind hR (attempt (h i))
    intro r
    cases r with
    | ok _ => exact ih (i + 1)
    | error e => exact pure hR (i, some e)

theorem countTry (hR : IsEffect R) {n : Nat}
    (h : ∀ i, Within R (body i)) : Within R (countTry n body) :=
  countTryFrom hR h n 0

end Within

/-! ## Programs that return no error -/

/-- The program returns a value or does not return. -/
def NeverFails (x : Prog σ ε α) : Prop := ∀ s e s', x s ≠ (.err e, s')

namespace NeverFails

theorem pure (a : α) : NeverFails (Pure.pure a : Prog σ ε α) := by
  intro s e s' h
  simp at h

theorem get : NeverFails (get : Prog σ ε σ) := by
  intro s e s' h
  simp at h

theorem modify (f : σ → σ) : NeverFails (modify f : Prog σ ε Unit) := by
  intro s e s' h
  simp at h

theorem diverge : NeverFails (diverge : Prog σ ε α) := by
  intro s e s' h
  simp at h

theorem bind {x : Prog σ ε α} {f : α → Prog σ ε β} (hx : NeverFails x)
    (hf : ∀ a, NeverFails (f a)) : NeverFails (x >>= f) := by
  intro s e s' h
  rcases bind_eq_err.1 h with herr | ⟨a, t, _, herr⟩
  · exact hx s e s' herr
  · exact hf a t e s' herr

theorem ite {c : Prop} [Decidable c] {x y : Prog σ ε α} (hx : NeverFails x)
    (hy : NeverFails y) : NeverFails (if c then x else y) := by
  split
  · exact hx
  · exact hy

/-- After a first part that never fails the second part runs. -/
theorem bind_run {x : Prog σ ε α} {f : α → Prog σ ε β} {s s' : σ} {o : Outcome ε β}
    (hx : NeverFails x)
    (h : (x >>= f) s = (o, s')) (ho : o ≠ .stuck) : ∃ a t, x s = (.ok a, t) ∧ f a t = (o, s') :=
  (Prog.bind_run h ho).resolve_right fun ⟨e, he, _⟩ => hx s e s' he

end NeverFails

end UnDOS.Lib.Prog
