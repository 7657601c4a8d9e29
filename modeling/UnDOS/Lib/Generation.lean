import Mathlib.Data.List.Basic

/-!
# Handles with Generations

A handle names a slot of a table and the generation that the slot had when the handle was given out.
A slot that is given up goes on to the next generation, and behind the last one it is retired: it
has the generation 0, which no handle has.

- `resolve` looks a handle up.
- `Later` is how a slot may change over time.  It never gets younger.
-/

namespace UnDOS.Lib

/-- What a handle is compared with. -/
structure Stamp where
  generation : Nat
  live : Bool

/-- The handle of slot `i`, with `base` codes for slots. -/
def handleOf (base generation i : Nat) : Nat := generation * base + (i + 1)

/-- The generation behind `generation`, where `last` is the last one. -/
def nextGeneration (last generation : Nat) : Nat := if generation = last then 0 else generation + 1

/-- The slot of a handle. -/
def resolve (base : Nat) {k : Nat} (stamps : Fin k → Stamp) (handle : Nat) : Option (Fin k) :=
  if h : 0 < handle % base ∧ handle % base ≤ k ∧ handle / base ≠ 0 then
    let i : Fin k := ⟨handle % base - 1, by omega⟩
    if (stamps i).live = true ∧ (stamps i).generation = handle / base then some i else none
  else none

variable {base last k : Nat} {stamps stamps' stamps'' : Fin k → Stamp} {handle : Nat} {i : Fin k}

theorem handleOf_mod {g i : Nat} (h : i + 1 < base) : handleOf base g i % base = i + 1 := by
  unfold handleOf
  rw [Nat.mul_comm, Nat.mul_add_mod, Nat.mod_eq_of_lt h]

theorem handleOf_div {g i : Nat} (h : i + 1 < base) : handleOf base g i / base = g := by
  unfold handleOf
  rw [Nat.mul_comm, Nat.mul_add_div (by omega), Nat.div_eq_of_lt h, Nat.add_zero]

theorem handleOf_inj {g g' i j : Nat} (hi : i + 1 < base) (hj : j + 1 < base)
    (h : handleOf base g i = handleOf base g' j) : g = g' ∧ i = j := by
  have hdiv := congrArg (· / base) h
  have hmod := congrArg (· % base) h
  simp only [handleOf_div hi, handleOf_div hj, handleOf_mod hi, handleOf_mod hj] at hdiv hmod
  exact ⟨hdiv, Nat.succ.inj hmod⟩

theorem resolve_eq_some_iff (hbase : k < base) : resolve base stamps handle = some i ↔
    (stamps i).live = true ∧ (stamps i).generation ≠ 0 ∧
      handle = handleOf base (stamps i).generation i := by
  constructor
  · intro h
    unfold resolve at h
    split at h
    · next hrange =>
      obtain ⟨hlow, hhigh, hgen⟩ := hrange
      dsimp only at h
      split at h
      · next hlive =>
        cases h
        refine ⟨hlive.1, by rw [hlive.2]; exact hgen, ?_⟩
        rw [hlive.2]
        have hdiv := Nat.div_add_mod handle base
        rw [Nat.mul_comm] at hdiv
        show handle = handle / base * base + (handle % base - 1 + 1)
        omega
      · cases h
    · cases h
  · rintro ⟨hlive, hgen, rfl⟩
    have hi : i.val + 1 < base := by omega
    have hmod := handleOf_mod (g := (stamps i).generation) hi
    have hdiv := handleOf_div (g := (stamps i).generation) hi
    have hfin : ∀ h, (⟨handleOf base (stamps i).generation i % base - 1, h⟩ : Fin k) = i := fun h =>
      Fin.ext (by simp only [hmod, Nat.add_sub_cancel])
    unfold resolve
    rw [dif_pos (by rw [hmod, hdiv]; exact ⟨Nat.succ_pos _, i.isLt, hgen⟩)]
    rw [hfin, hdiv, if_pos ⟨hlive, rfl⟩]

/-! ## Time -/

/-- Generations in the order of time: retirement comes last. -/
def rank (last generation : Nat) : Nat := if generation = 0 then last + 1 else generation

theorem rank_next {g : Nat} (hzero : g ≠ 0) : rank last g < rank last (nextGeneration last g) := by
  unfold rank nextGeneration
  rw [if_neg hzero]
  by_cases hlast : g = last
  · rw [if_pos hlast, if_pos rfl]
    omega
  · rw [if_neg hlast]
    exact Nat.lt_succ_self g

/-- A slot gets older, or stays in its generation and in use. -/
def Later (last : Nat) (s s' : Stamp) : Prop :=
  rank last s.generation < rank last s'.generation ∨
    (s'.generation = s.generation ∧ (s.live = true → s'.live = true))

namespace Later

variable {s s' s'' : Stamp}

theorem refl (s : Stamp) : Later last s s := .inr ⟨rfl, id⟩

theorem rank_le (h : Later last s s') : rank last s.generation ≤ rank last s'.generation := by
  rcases h with hlt | ⟨heq, -⟩
  · exact Nat.le_of_lt hlt
  · exact Nat.le_of_eq (by rw [heq])

theorem trans (h : Later last s s') (h' : Later last s' s'') : Later last s s'' := by
  rcases h with hlt | ⟨heq, hlive⟩
  · exact .inl (Nat.lt_of_lt_of_le hlt h'.rank_le)
  · rcases h' with hlt' | ⟨heq', hlive'⟩
    · exact .inl (heq ▸ hlt')
    · exact .inr ⟨heq'.trans heq, fun hs => hlive' (hlive hs)⟩

end Later

theorem Later.next {s : Stamp} (h : s.generation ≠ 0) (live : Bool) :
    Later last s ⟨nextGeneration last s.generation, live⟩ := .inl (rank_next h)

/-- A handle that resolved and does no longer will never again. -/
theorem resolve_dead (hbase : k < base) (h : ∀ i, Later last (stamps i) (stamps' i))
    (h' : ∀ i, Later last (stamps' i) (stamps'' i)) (hthen : resolve base stamps handle ≠ none)
    (hnow : resolve base stamps' handle = none) : resolve base stamps'' handle = none := by
  obtain ⟨i, hi⟩ := Option.ne_none_iff_exists'.1 hthen
  obtain ⟨hlive, hgen, hhandle⟩ := (resolve_eq_some_iff hbase).1 hi
  -- The slot has got older since, so its generation is another one for ever.
  have holder : rank last (stamps i).generation < rank last (stamps' i).generation := by
    refine (h i).resolve_right fun ⟨heq, hstill⟩ => ?_
    have hsome : resolve base stamps' handle = some i :=
      (resolve_eq_some_iff hbase).2 ⟨hstill hlive, heq ▸ hgen, heq ▸ hhandle⟩
    rw [hnow] at hsome
    cases hsome
  by_contra hlater
  obtain ⟨j, hj⟩ := Option.ne_none_iff_exists'.1 hlater
  obtain ⟨-, -, hhandle'⟩ := (resolve_eq_some_iff hbase).1 hj
  obtain ⟨heq, hij⟩ := handleOf_inj (by omega) (by omega) (hhandle.symm.trans hhandle')
  obtain rfl : i = j := Fin.ext hij
  have hle := (h' i).rank_le
  rw [← heq] at hle
  exact absurd holder (Nat.not_lt.2 hle)

end UnDOS.Lib
