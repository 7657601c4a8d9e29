/-!
# Lists That Are Read by Index

A reader that is asked for one entry after the other, until it answers that there is none.
-/

namespace UnDOS.Lib

/-- What is read by index is a list, if nothing comes after a first end. -/
theorem exists_list_of_end {ε α : Type} {f : Nat → Except ε (Option α)} {n : Nat}
    (hend : f n = .ok none) (hnext : ∀ k m, k ≤ m → (∃ x, f k = .ok (some x)) ∨ f m = f k) :
    ∃ L : List α, L.length ≤ n ∧ ∀ k, f k = .ok L[k]? := by
  induction n generalizing f with
  | zero =>
    refine ⟨[], Nat.le_refl 0, fun k => ?_⟩
    rcases hnext 0 k k.zero_le with ⟨x, hx⟩ | hk
    · cases hx.symm.trans hend
    · exact hk.trans hend
  | succ n ih =>
    rcases hnext 0 (n + 1) (n + 1).zero_le with ⟨x, hx⟩ | h0
    · obtain ⟨L, hlen, hL⟩ := ih (f := fun k => f (k + 1)) hend fun k m hm =>
        hnext (k + 1) (m + 1) (Nat.succ_le_succ hm)
      refine ⟨x :: L, Nat.succ_le_succ hlen, fun k => ?_⟩
      cases k with
      | zero => exact hx
      | succ k => exact hL k
    · refine ⟨[], (n + 1).zero_le, fun k => ?_⟩
      rcases hnext 0 k k.zero_le with ⟨x, hx⟩ | hk
      · cases hx.symm.trans (h0.symm.trans hend)
      · exact hk.trans (h0.symm.trans hend)

end UnDOS.Lib
