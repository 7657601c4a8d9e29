import UnDOS.Lib.Prog

/-!
# Pre- and Postconditions

`Triple P x Q E`: started where `P` holds, a run of `x` that returns leaves `Q` when it returns
a value and `E` when it returns an error.  Nothing is said about a run that gets stuck.
-/

namespace UnDOS.Lib.Prog

variable {σ ε α β : Type}

/-- From `P`, a value comes with `Q` and an error with `E`. -/
def Triple (P : σ → Prop) (x : Prog σ ε α) (Q : α → σ → Prop) (E : ε → σ → Prop) : Prop :=
  ∀ s, P s →
    match x s with
    | (.ok a, s') => Q a s'
    | (.err e, s') => E e s'
    | (.stuck, _) => True

namespace Triple

variable {P P' : σ → Prop} {x : Prog σ ε α} {Q Q' : α → σ → Prop} {E E' : ε → σ → Prop}

/-! ## Using a triple -/

theorem of_ok (h : Triple P x Q E) {s s' : σ} {a : α} (hP : P s) (hx : x s = (.ok a, s')) :
    Q a s' := by
  have hs := h s hP
  rw [hx] at hs
  exact hs

theorem of_err (h : Triple P x Q E) {s s' : σ} {e : ε} (hP : P s) (hx : x s = (.err e, s')) :
    E e s' := by
  have hs := h s hP
  rw [hx] at hs
  exact hs

theorem weaken (h : Triple P x Q E) (hP : ∀ s, P' s → P s) (hQ : ∀ a s, Q a s → Q' a s)
    (hE : ∀ e s, E e s → E' e s) : Triple P' x Q' E' := by
  intro s hs
  have hx := h s (hP s hs)
  rcases hrun : x s with ⟨_ | _ | _, s'⟩
  · rw [hrun] at hx
    exact hQ _ _ hx
  · rw [hrun] at hx
    exact hE _ _ hx
  · trivial

/-! ## The rules -/

theorem assume {c : Prop} (h : c → Triple P x Q E) : Triple (fun s => P s ∧ c) x Q E :=
  fun s hs => h hs.2 s hs.1

theorem pure {a : α} (h : ∀ s, P s → Q a s) : Triple P (Pure.pure a : Prog σ ε α) Q E := h

theorem throw {e : ε} (h : ∀ s, P s → E e s) : Triple P (Prog.throw e : Prog σ ε α) Q E := h

theorem diverge : Triple P (Prog.diverge : Prog σ ε α) Q E := fun _ _ => trivial

theorem get {Q : σ → σ → Prop} (h : ∀ s, P s → Q s s) : Triple P (Prog.get : Prog σ ε σ) Q E := h

theorem modify {f : σ → σ} {Q : Unit → σ → Prop} (h : ∀ s, P s → Q () (f s)) :
    Triple P (Prog.modify f : Prog σ ε Unit) Q E := h

theorem bind {R : α → σ → Prop} {f : α → Prog σ ε β} {Q : β → σ → Prop} (hx : Triple P x R E)
    (hf : ∀ a, Triple (R a) (f a) Q E) : Triple P (x >>= f) Q E := by
  intro s hP
  have hs := hx s hP
  rcases hrun : x s with ⟨a | e | _, s'⟩
  · rw [hrun] at hs
    rw [bind_ok hrun]
    exact hf a s' hs
  · rw [hrun] at hs
    rw [bind_err hrun]
    exact hs
  · rw [bind_stuck hrun]
    trivial

theorem ite {c : Prop} [Decidable c] {y : Prog σ ε α} (hx : c → Triple P x Q E)
    (hy : ¬c → Triple P y Q E) : Triple P (if c then x else y) Q E := by
  by_cases hc : c
  · rw [if_pos hc]
    exact hx hc
  · rw [if_neg hc]
    exact hy hc

theorem attempt {Q : Except ε α → σ → Prop}
    (h : Triple P x (fun a => Q (.ok a)) fun e => Q (.error e)) :
    Triple P (Prog.attempt x) Q E := by
  intro s hP
  have hs := h s hP
  rcases hrun : x s with ⟨a | e | _, s'⟩
  · rw [hrun] at hs
    rw [attempt_ok hrun]
    exact hs
  · rw [hrun] at hs
    rw [attempt_err hrun]
    exact hs
  · unfold Prog.attempt
    rw [hrun]
    trivial

theorem ofExcept {r : Except ε α} (hok : ∀ a s, r = .ok a → P s → Q a s)
    (herr : ∀ e s, r = .error e → P s → E e s) : Triple P (Prog.ofExcept r : Prog σ ε α) Q E := by
  rcases r with e | a
  · exact fun s hP => herr e s rfl hP
  · exact fun s hP => hok a s rfl hP

end Triple

end UnDOS.Lib.Prog
