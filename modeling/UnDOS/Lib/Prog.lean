import Mathlib.Tactic.Common

/-!
# Stateful Programs That Can Fail or Get Stuck

`Prog σ ε α` is the shape of every imperative routine in this development: it
runs on a state `σ`, and ends in one of three ways.

- `ok a`: it returned `a`.
- `err e`: it returned the error `e`.  The state at that moment is kept, since a
  routine that fails halfway may already have changed something.
- `stuck`: it never returned.  A loop that does not terminate and an access
  outside a buffer are both modeled this way, so "never stuck" is a safety claim.
-/

namespace UnDOS.Lib

/-- How a program ends. -/
inductive Outcome (ε α : Type) where
  | ok (a : α)
  | err (e : ε)
  | stuck
deriving DecidableEq

/-- A program over the state `σ` with errors in `ε`. -/
def Prog (σ ε α : Type) := σ → Outcome ε α × σ

namespace Prog

variable {σ ε α β : Type}

instance : Monad (Prog σ ε) where
  pure a := fun s => (.ok a, s)
  bind x f := fun s =>
    match x s with
    | (.ok a, s') => f a s'
    | (.err e, s') => (.err e, s')
    | (.stuck, s') => (.stuck, s')

/-- Return the error `e`. -/
def throw (e : ε) : Prog σ ε α := fun s => (.err e, s)

/-- Never return. -/
def diverge : Prog σ ε α := fun s => (.stuck, s)

def get : Prog σ ε σ := fun s => (.ok s, s)

def modify (f : σ → σ) : Prog σ ε Unit := fun s => (.ok (), f s)

/-- Run `x` and hand its error to the caller as a value. -/
def attempt (x : Prog σ ε α) : Prog σ ε (Except ε α) := fun s =>
  match x s with
  | (.ok a, s') => (.ok (.ok a), s')
  | (.err e, s') => (.ok (.error e), s')
  | (.stuck, s') => (.stuck, s')

/-- Re-raise what `attempt` caught. -/
def ofExcept : Except ε α → Prog σ ε α
  | .ok a => pure a
  | .error e => throw e

@[simp] theorem pure_apply (a : α) (s : σ) : (pure a : Prog σ ε α) s = (.ok a, s) := rfl

@[simp] theorem throw_apply (e : ε) (s : σ) : (throw e : Prog σ ε α) s = (.err e, s) := rfl

@[simp] theorem diverge_apply (s : σ) : (diverge : Prog σ ε α) s = (.stuck, s) := rfl

@[simp] theorem get_apply (s : σ) : (get : Prog σ ε σ) s = (.ok s, s) := rfl

@[simp] theorem modify_apply (f : σ → σ) (s : σ) :
    (modify f : Prog σ ε Unit) s = (.ok (), f s) := rfl

variable {x : Prog σ ε α}

theorem bind_ok {f : α → Prog σ ε β} {s s' : σ} {a : α}
    (h : x s = (.ok a, s')) : (x >>= f) s = f a s' := by
  show (match x s with
    | (.ok a, s') => f a s'
    | (.err e, s') => (.err e, s')
    | (.stuck, s') => (.stuck, s')) = f a s'
  rw [h]

theorem bind_err {f : α → Prog σ ε β} {s s' : σ} {e : ε}
    (h : x s = (.err e, s')) : (x >>= f) s = (.err e, s') := by
  show (match x s with
    | (.ok a, s') => f a s'
    | (.err e, s') => (.err e, s')
    | (.stuck, s') => (.stuck, s')) = (.err e, s')
  rw [h]

theorem bind_stuck {f : α → Prog σ ε β} {s s' : σ}
    (h : x s = (.stuck, s')) : (x >>= f) s = (.stuck, s') := by
  show (match x s with
    | (.ok a, s') => f a s'
    | (.err e, s') => (.err e, s')
    | (.stuck, s') => (.stuck, s')) = (.stuck, s')
  rw [h]

@[simp] theorem pure_bind_apply (a : α) (f : α → Prog σ ε β) (s : σ) :
    ((pure a : Prog σ ε α) >>= f) s = f a s := rfl

@[simp] theorem throw_bind_apply (e : ε) (f : α → Prog σ ε β) (s : σ) :
    ((throw e : Prog σ ε α) >>= f) s = (.err e, s) := rfl

@[simp] theorem get_bind_apply (f : σ → Prog σ ε β) (s : σ) :
    ((get : Prog σ ε σ) >>= f) s = f s s := rfl

@[simp] theorem modify_bind_apply (g : σ → σ) (f : Unit → Prog σ ε β) (s : σ) :
    ((modify g : Prog σ ε Unit) >>= f) s = f () (g s) := rfl

theorem attempt_ok {s s' : σ} {a : α} (h : x s = (.ok a, s')) :
    attempt x s = (.ok (.ok a), s') := by
  unfold attempt
  rw [h]

theorem attempt_err {s s' : σ} {e : ε} (h : x s = (.err e, s')) :
    attempt x s = (.ok (.error e), s') := by
  unfold attempt
  rw [h]

@[simp] theorem ofExcept_ok (a : α) (s : σ) : (ofExcept (.ok a) : Prog σ ε α) s = (.ok a, s) := rfl

@[simp] theorem ofExcept_error (e : ε) (s : σ) :
    (ofExcept (.error e) : Prog σ ε α) s = (.err e, s) := rfl

end Prog

end UnDOS.Lib
