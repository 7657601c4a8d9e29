import UnDOS.Lib.Safe
import UnDOS.Lib.Within

/-!
# Programs That Do Not Get Stuck

`Ends x s E Q`: run from the state `s`, `x` does not get stuck, `Q` holds when it returns a value,
and `E` of the error when it fails; nothing is said about the state that an error leaves.
`Checked x s Q` allows all errors.  It is `Outcome.Safe` for programs with a state.
-/

namespace UnDOS.Lib.Prog

variable {σ ε α β : Type}

/-- From `s`, the program does not get stuck, a value comes with `Q` and an error with `E`. -/
def Ends (x : Prog σ ε α) (s : σ) (E : ε → Prop) (Q : α → σ → Prop) : Prop :=
  match x s with
  | (.ok a, s') => Q a s'
  | (.err e, _) => E e
  | (.stuck, _) => False

namespace Ends

variable {x : Prog σ ε α} {s : σ} {E : ε → Prop} {P Q : α → σ → Prop}

theorem strengthen (h : Ends x s E P) (hQ : ∀ a s', x s = (.ok a, s') → P a s' → Q a s') :
    Ends x s E Q := by
  rcases hrun : x s with ⟨_ | _ | _, s'⟩
  · rw [Ends, hrun] at h ⊢
    exact hQ _ _ hrun h
  · rw [Ends, hrun] at h ⊢
    exact h
  · rw [Ends, hrun] at h
    cases h

theorem mono (h : Ends x s E P) (hPQ : ∀ a s', P a s' → Q a s') : Ends x s E Q :=
  h.strengthen fun a s' _ => hPQ a s'

theorem allow {E' : ε → Prop} (h : Ends x s E Q) (hE : ∀ e, E e → E' e) : Ends x s E' Q := by
  rcases hrun : x s with ⟨_ | _ | _, s'⟩
  · rw [Ends, hrun] at h ⊢
    exact h
  · rw [Ends, hrun] at h ⊢
    exact hE _ h
  · rw [Ends, hrun] at h
    cases h

theorem of_ok (h : Ends x s E Q) {a : α} {s' : σ} (hx : x s = (.ok a, s')) : Q a s' := by
  rw [Ends, hx] at h
  exact h

theorem of_err (h : Ends x s E Q) {e : ε} {s' : σ} (hx : x s = (.err e, s')) : E e := by
  rw [Ends, hx] at h
  exact h

theorem pure {a : α} (h : Q a s) : Ends (Pure.pure a : Prog σ ε α) s E Q := h

theorem throw {e : ε} (h : E e) : Ends (Prog.throw e : Prog σ ε α) s E Q := h

theorem modify {f : σ → σ} {Q : Unit → σ → Prop} (h : Q () (f s)) :
    Ends (Prog.modify f : Prog σ ε Unit) s E Q := h

theorem bind {f : α → Prog σ ε β} {R : β → σ → Prop} (h : Ends x s E P)
    (hf : ∀ a s', P a s' → Ends (f a) s' E R) : Ends (x >>= f) s E R := by
  rcases hrun : x s with ⟨a | e | _, s'⟩
  · rw [Ends, hrun] at h
    rw [Ends, bind_ok hrun]
    exact hf a s' h
  · rw [Ends, hrun] at h
    rw [Ends, bind_err hrun]
    exact h
  · rw [Ends, hrun] at h
    cases h

theorem bind_run {f : α → Prog σ ε β} {R : β → σ → Prop} {a : α} {s' : σ} (h : x s = (.ok a, s'))
    (hf : Ends (f a) s' E R) : Ends (x >>= f) s E R := by
  rw [Ends, bind_ok h]
  exact hf

theorem of_run {a : α} {s' : σ} (h : x s = (.ok a, s')) (hQ : Q a s') : Ends x s E Q := by
  rw [Ends, h]
  exact hQ

theorem get_bind {f : σ → Prog σ ε β} {R : β → σ → Prop} (h : Ends (f s) s E R) :
    Ends (Prog.get >>= f) s E R := h

theorem ite {c : Prop} [Decidable c] {y : Prog σ ε α} (hx : c → Ends x s E Q)
    (hy : ¬c → Ends y s E Q) : Ends (if c then x else y) s E Q := by
  split
  · exact hx ‹_›
  · exact hy ‹_›

theorem forRange {n : Nat} {body : Nat → Prog σ ε Unit} (I : Nat → σ → Prop) (hstart : I 0 s)
    (hround : ∀ i < n, ∀ t, I i t → Ends (body i) t E fun _ => I (i + 1)) :
    Ends (forRange n body) s E fun _ => I n := by
  induction n with
  | zero => exact pure hstart
  | succ n ih =>
    exact bind (ih fun i hi => hround i (Nat.lt_succ_of_lt hi)) fun _ t ht =>
      hround n (Nat.lt_succ_self n) t ht

end Ends

/-- From `s`, the program does not get stuck, and a value comes with `Q`. -/
def Checked (x : Prog σ ε α) (s : σ) (Q : α → σ → Prop) : Prop :=
  match x s with
  | (.ok a, s') => Q a s'
  | (.err _, _) => True
  | (.stuck, _) => False

theorem checked_iff {x : Prog σ ε α} {s : σ} {Q : α → σ → Prop} :
    Checked x s Q ↔ Ends x s (fun _ => True) Q := Iff.rfl

namespace Checked

variable {x : Prog σ ε α} {s : σ} {P Q : α → σ → Prop}

theorem ne_stuck (h : Checked x s Q) : (x s).1 ≠ .stuck := by
  intro hstuck
  rcases hrun : x s with ⟨o, s'⟩
  rw [Checked, hrun] at h
  rw [hrun] at hstuck
  subst hstuck
  exact h

theorem of_ok (h : Checked x s Q) {a : α} {s' : σ} (hx : x s = (.ok a, s')) : Q a s' := by
  rw [Checked, hx] at h
  exact h

theorem strengthen (h : Checked x s P) (hQ : ∀ a s', x s = (.ok a, s') → P a s' → Q a s') :
    Checked x s Q := checked_iff.2 ((checked_iff.1 h).strengthen hQ)

theorem mono (h : Checked x s P) (hPQ : ∀ a s', P a s' → Q a s') : Checked x s Q :=
  h.strengthen fun a s' _ => hPQ a s'

theorem pure {a : α} (h : Q a s) : Checked (Pure.pure a : Prog σ ε α) s Q := h

theorem throw {e : ε} : Checked (Prog.throw e : Prog σ ε α) s Q := trivial

theorem modify {f : σ → σ} {Q : Unit → σ → Prop} (h : Q () (f s)) :
    Checked (Prog.modify f : Prog σ ε Unit) s Q := h

theorem bind {f : α → Prog σ ε β} {R : β → σ → Prop} (h : Checked x s P)
    (hf : ∀ a s', P a s' → Checked (f a) s' R) : Checked (x >>= f) s R :=
  checked_iff.2 ((checked_iff.1 h).bind fun a s' ha => checked_iff.1 (hf a s' ha))

theorem get_bind {f : σ → Prog σ ε β} {R : β → σ → Prop} (h : Checked (f s) s R) :
    Checked (Prog.get >>= f) s R := h

theorem ite {c : Prop} [Decidable c] {y : Prog σ ε α} (hx : c → Checked x s Q)
    (hy : ¬c → Checked y s Q) : Checked (if c then x else y) s Q := by
  split
  · exact hx ‹_›
  · exact hy ‹_›

theorem forRange {n : Nat} {body : Nat → Prog σ ε Unit} (I : Nat → σ → Prop) (hstart : I 0 s)
    (hround : ∀ i < n, ∀ t, I i t → Checked (body i) t fun _ => I (i + 1)) :
    Checked (forRange n body) s fun _ => I n :=
  checked_iff.2 (Ends.forRange I hstart fun i hi t ht => checked_iff.1 (hround i hi t ht))

end Checked

end UnDOS.Lib.Prog
