import Mathlib.Tactic.Common

/-!
# Pre- and Postconditions of Total Programs

A routine that always returns, and hands its errors back as values, is a `StateM σ α`.
`Meets P x Q` is its triple: started where `P` holds, `x` ends where `Q` holds of its value.
`Returns Q x` is about the value alone.  `Does R x` says that whatever `x` does to a state
is allowed by the relation `R`, a preorder (`IsLater`), so that the effects of a sequence compose.
-/

namespace UnDOS.Lib

variable {σ α β : Type}

/-- From `P`, the value and the state at the end satisfy `Q`. -/
def Meets (P : σ → Prop) (x : StateM σ α) (Q : α → σ → Prop) : Prop :=
  ∀ s, P s → Q (x.run s).1 (x.run s).2

namespace Meets

variable {P P' : σ → Prop} {x : StateM σ α} {Q Q' : α → σ → Prop}

theorem weaken (h : Meets P x Q) (hP : ∀ s, P' s → P s) (hQ : ∀ a s, Q a s → Q' a s) :
    Meets P' x Q' :=
  fun s hs => hQ _ _ (h s (hP s hs))

theorem and_const {c : Prop} (h : Meets P x Q) : Meets (fun s => c ∧ P s) x fun a s => c ∧ Q a s :=
  fun s hs => ⟨hs.1, h s hs.2⟩

theorem pure {a : α} (h : ∀ s, P s → Q a s) : Meets P (Pure.pure a : StateM σ α) Q := h

theorem get {Q : σ → σ → Prop} (h : ∀ s, P s → Q s s) : Meets P (MonadState.get : StateM σ σ) Q := h

theorem modify {f : σ → σ} {Q : PUnit → σ → Prop} (h : ∀ s, P s → Q ⟨⟩ (f s)) :
    Meets P (modifyGet (fun s => (PUnit.unit, f s)) : StateM σ PUnit) Q := h

theorem bind {R : α → σ → Prop} {f : α → StateM σ β} {Q : β → σ → Prop} (hx : Meets P x R)
    (hf : ∀ a, Meets (R a) (f a) Q) : Meets P (x >>= f) Q :=
  fun s hs => hf _ _ (hx s hs)

theorem ite {c : Prop} [Decidable c] {y : StateM σ α} (hx : c → Meets P x Q)
    (hy : ¬c → Meets P y Q) : Meets P (if c then x else y) Q := by
  by_cases hc : c
  · rw [if_pos hc]
    exact hx hc
  · rw [if_neg hc]
    exact hy hc

theorem before {c : Prop} [Decidable c] {f : α → StateM σ β} {Q : β → σ → Prop} {rest : StateM σ β}
    (hx : Meets P x fun _ => P) (hrest : Meets P rest Q) (hf : ∀ a, f a = rest) :
    Meets P (if c then x >>= f else rest) Q :=
  .ite (fun _ => .bind hx fun a => hf a ▸ hrest) fun _ => hrest

theorem either {c : Prop} [Decidable c] {f : α → StateM σ β} {b : α} {Q : β → σ → Prop}
    (hx : Meets P x fun _ => P) (hf : ∀ a, Meets P (f a) Q) :
    Meets P (if c then x >>= f else Pure.pure b >>= f) Q :=
  .ite (fun _ => .bind hx hf) fun _ => hf b

theorem or (h : Meets P x Q) (h' : Meets P' x Q) : Meets (fun s => P s ∨ P' s) x Q := by
  rintro s (hs | hs)
  · exact h s hs
  · exact h' s hs

end Meets

/-! ## Values -/

/-- Wherever `x` is started, its value satisfies `Q`. -/
def Returns (Q : α → Prop) (x : StateM σ α) : Prop := ∀ s, Q (x.run s).1

namespace Returns

variable {Q : α → Prop} {x : StateM σ α}

theorem pure {a : α} (h : Q a) : Returns Q (Pure.pure a : StateM σ α) := fun _ => h

theorem bind {R : α → Prop} {f : α → StateM σ β} {Q : β → Prop} (hx : Returns R x)
    (hf : ∀ a, R a → Returns Q (f a)) : Returns Q (x >>= f) :=
  fun s => hf _ (hx s) _

theorem of_get {Q : σ → α → Prop} {f : σ → StateM σ α} (hf : ∀ s, Returns (Q s) (f s)) (s : σ) :
    Q s ((MonadState.get >>= f : StateM σ α).run s).1 := hf s s

theorem after {f : α → StateM σ β} {Q : β → Prop} (hf : ∀ a, Returns Q (f a)) :
    Returns Q (x >>= f) :=
  fun _ => hf _ _

theorem ite {c : Prop} [Decidable c] {y : StateM σ α} (hx : Returns Q x) (hy : Returns Q y) :
    Returns Q (if c then x else y) := by
  by_cases hc : c
  · rw [if_pos hc]
    exact hx
  · rw [if_neg hc]
    exact hy

end Returns

/-! ## Effects -/

/-- A preorder on states: one is later than the other. -/
class IsLater {σ : Type} (R : σ → σ → Prop) : Prop where
  refl : ∀ a, R a a
  trans : ∀ a b c, R a b → R b c → R a c

/-- An invariant that held before holds now. -/
def Keeps (I : σ → Prop) (s t : σ) : Prop := I s → I t

instance {I : σ → Prop} : IsLater (Keeps I) where
  refl _ := id
  trans _ _ _ hab hbc := hbc ∘ hab

/-- Every state that `x` is started in is related to the one it ends in. -/
def Does (R : σ → σ → Prop) (x : StateM σ α) : Prop := ∀ s, R s (x.run s).2

namespace Does

variable {R R' : σ → σ → Prop} {x : StateM σ α}

theorem weaken (h : Does R x) (hR : ∀ s t, R s t → R' s t) : Does R' x := fun s => hR _ _ (h s)

theorem modify {f : σ → σ} (h : ∀ s, R s (f s)) :
    Does R (modifyGet fun s => (PUnit.unit, f s) : StateM σ PUnit) := h

variable [IsLater R]

theorem pure (a : α) : Does R (Pure.pure a : StateM σ α) := IsLater.refl

theorem get : Does R (MonadState.get : StateM σ σ) := IsLater.refl

theorem bind {f : α → StateM σ β} (hx : Does R x) (hf : ∀ a, Does R (f a)) : Does R (x >>= f) :=
  fun s => IsLater.trans _ _ _ (hx s) (hf _ _)

theorem bind_with {Q : α → Prop} {f : α → StateM σ β} (hx : Does R x) (hQ : Returns Q x)
    (hf : ∀ a, Q a → Does R (f a)) : Does R (x >>= f) :=
  fun s => IsLater.trans _ _ _ (hx s) (hf _ (hQ s) _)

omit [IsLater R] in
theorem ite {c : Prop} [Decidable c] {y : StateM σ α} (hx : Does R x) (hy : Does R y) :
    Does R (if c then x else y) := by
  by_cases hc : c
  · rw [if_pos hc]
    exact hx
  · rw [if_neg hc]
    exact hy

/-- What may come first, and what comes after in any case. -/
theorem before {c : Prop} [Decidable c] {f : α → StateM σ β} {rest : StateM σ β} (hx : Does R x)
    (hrest : Does R rest) (hf : ∀ a, f a = rest) : Does R (if c then x >>= f else rest) :=
  .ite (.bind hx fun a => hf a ▸ hrest) hrest

/-- What may come first, or a value in its place, and what the result goes to. -/
theorem either {c : Prop} [Decidable c] {f : α → StateM σ β} {b : α} (hx : Does R x)
    (hf : ∀ a, Does R (f a)) : Does R (if c then x >>= f else Pure.pure b >>= f) :=
  .ite (.bind hx hf) (hf b)

theorem meets (h : Does R x) (s : σ) : Meets (R s) x fun _ => R s :=
  fun t hst => IsLater.trans _ _ _ hst (h t)

end Does

end UnDOS.Lib
