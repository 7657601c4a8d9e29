import Mathlib.Data.List.Nodup

/-!
# Singly Linked Lists

`Chain next head L`: from `head` on, the links `next` go through the nodes `L` and end in 0.  Where
the links are kept does not matter; two tables of links that agree on `L` have the same chains on
it.
-/

namespace UnDOS.Lib

/-- The links go from `head` through the nodes of the list. -/
def Chain (next : Nat → Nat) : Nat → List Nat → Prop
  | head, [] => head = 0
  | head, x :: rest => head = x ∧ x ≠ 0 ∧ Chain next (next x) rest

namespace Chain

variable {next next' : Nat → Nat} {head : Nat} {L : List Nat}

theorem congr (h : Chain next head L) (heq : ∀ x ∈ L, next' x = next x) : Chain next' head L := by
  induction L generalizing head with
  | nil => exact h
  | cons x L ih =>
    obtain ⟨hhead, hx, hrest⟩ := h
    refine ⟨hhead, hx, ?_⟩
    rw [heq x (.head _)]
    exact ih hrest fun y hy => heq y (.tail x hy)

theorem push (h : Chain next head L) {x : Nat} (hx : x ≠ 0) (hnew : next' x = head)
    (heq : ∀ y ∈ L, next' y = next y) : Chain next' x (x :: L) :=
  ⟨rfl, hx, hnew ▸ h.congr heq⟩

theorem suffix {A B : List Nat} {x : Nat} (h : Chain next head (A ++ x :: B)) :
    Chain next (next x) B := by
  induction A generalizing head with
  | nil => exact h.2.2
  | cons a A ih => exact ih h.2.2

theorem unlink {A B : List Nat} {p x : Nat} (h : Chain next head (A ++ p :: x :: B))
    (hp : next' p = next x)
    (heq : ∀ y ∈ A ++ B, next' y = next y) : Chain next' head (A ++ p :: B) := by
  induction A generalizing head with
  | nil =>
    obtain ⟨hhead, hne, -, hx, hrest⟩ := h
    refine ⟨hhead, hne, ?_⟩
    rw [hp]
    exact hrest.congr heq
  | cons a A ih =>
    obtain ⟨hhead, hne, hrest⟩ := h
    refine ⟨hhead, hne, ?_⟩
    rw [heq a (.head _)]
    exact ih hrest fun y hy => heq y (.tail a hy)

theorem zero_notMem (h : Chain next head L) : 0 ∉ L := by
  induction L generalizing head with
  | nil => exact List.not_mem_nil
  | cons x L ih =>
    intro hm
    rcases List.mem_cons.1 hm with hx | hm
    · exact h.2.1 hx.symm
    · exact ih h.2.2 hm

end Chain

end UnDOS.Lib
