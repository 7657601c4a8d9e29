import Mathlib.Data.List.Pairwise
import Mathlib.Data.Fintype.Card

/-!
# Nested Orders of a Forest

Lists in which every subtree of a forest is one block with its root last, as in a stacking order
where children lie in front of their parents.

- A forest is a parent function.  `climb` follows it upwards; `Climbs` says that a table of
  ancestors is complete.
- `Block P L`: the elements of `L` with `P` stand together.
- `Nested U L` for the relation `U x a`: `x` is `a` or lies below it.
-/

namespace UnDOS.Lib.Forest

variable {α : Type}

/-! ## Blocks -/

/-- A block that has begun: elements with `P`, then none. -/
def Begun (P : α → Prop) : List α → Prop
  | [] => True
  | x :: L => P x ∧ Begun P L ∨ ¬P x ∧ ∀ y ∈ L, ¬P y

/-- The elements with `P` stand together. -/
def Block (P : α → Prop) : List α → Prop
  | [] => True
  | x :: L => P x ∧ Begun P L ∨ ¬P x ∧ Block P L

section Blocks
variable {P : α → Prop} {L R M : List α} {f : α}

theorem Begun.of_none (h : ∀ x ∈ L, ¬P x) : Begun P L := by
  cases L with
  | nil => trivial
  | cons x L => exact .inr ⟨h x (.head _), fun y hy => h y (.tail _ hy)⟩

theorem Block.of_none (h : ∀ x ∈ L, ¬P x) : Block P L := by
  induction L with
  | nil => trivial
  | cons x L ih =>
    exact .inr ⟨h x (.head _), ih fun y hy => h y (.tail _ hy)⟩

theorem Begun.filter (h : Begun P L) (q : α → Bool) : Begun P (L.filter q) := by
  induction L with
  | nil => trivial
  | cons x L ih =>
    rcases h with ⟨hx, hL⟩ | ⟨hx, hL⟩
    · rw [List.filter_cons]
      split
      · exact .inl ⟨hx, ih hL⟩
      · exact ih hL
    · refine Begun.of_none fun y hy => ?_
      rcases List.mem_cons.1 (List.mem_of_mem_filter hy) with rfl | hy
      · exact hx
      · exact hL y hy

theorem Block.filter (h : Block P L) (q : α → Bool) : Block P (L.filter q) := by
  induction L with
  | nil => trivial
  | cons x L ih =>
    rw [List.filter_cons]
    rcases h with ⟨hx, hL⟩ | ⟨hx, hL⟩
    · split
      · exact .inl ⟨hx, hL.filter q⟩
      · -- A block that has begun is a block.
        have hblock : ∀ {K : List α}, Begun P K → Block P K := by
          intro K hK
          cases K with
          | nil => trivial
          | cons y K =>
            rcases hK with hK | ⟨hy, hK⟩
            · exact .inl hK
            · exact .inr ⟨hy, Block.of_none hK⟩
        exact hblock (hL.filter q)
    · split
      · exact .inr ⟨hx, ih hL⟩
      · exact ih hL

theorem Block.append_left (h : Block P L) (hM : ∀ x ∈ M, ¬P x) : Block P (M ++ L) := by
  induction M with
  | nil => exact h
  | cons x M ih =>
    exact .inr ⟨hM x (.head _), ih fun y hy => hM y (.tail _ hy)⟩

theorem Block.of_append (h : Block P (M ++ L)) (hM : ∀ x ∈ M, ¬P x) : Block P L := by
  induction M with
  | nil => exact h
  | cons x M ih =>
    rcases h with ⟨hx, -⟩ | ⟨-, h⟩
    · exact absurd hx (hM x (.head _))
    · exact ih h fun y hy => hM y (.tail _ hy)

theorem Begun.append_right (h : Begun P L) (hM : ∀ x ∈ M, ¬P x) : Begun P (L ++ M) := by
  induction L with
  | nil => exact Begun.of_none hM
  | cons x L ih =>
    rcases h with ⟨hx, hL⟩ | ⟨hx, hL⟩
    · exact .inl ⟨hx, ih hL⟩
    · refine .inr ⟨hx, fun y hy => ?_⟩
      rcases List.mem_append.1 hy with hy | hy
      · exact hL y hy
      · exact hM y hy

theorem Block.append_right (h : Block P L) (hM : ∀ x ∈ M, ¬P x) : Block P (L ++ M) := by
  induction L with
  | nil => exact Block.of_none hM
  | cons x L ih =>
    rcases h with ⟨hx, hL⟩ | ⟨hx, hL⟩
    · exact .inl ⟨hx, hL.append_right hM⟩
    · exact .inr ⟨hx, ih hL⟩

theorem Begun.insert_in (h : Begun P (R ++ f :: L)) (hf : P f) (hM : ∀ x ∈ M, P x) :
    Begun P (R ++ (M ++ f :: L)) := by
  induction R with
  | nil =>
    induction M with
    | nil => exact h
    | cons x M ih =>
      exact .inl ⟨hM x (.head _), ih fun y hy => hM y (.tail _ hy)⟩
  | cons x R ih =>
    rcases h with ⟨hx, hR⟩ | ⟨hx, hR⟩
    · exact .inl ⟨hx, ih hR⟩
    · exact absurd hf (hR f (by simp))

theorem Block.insert_in (h : Block P (R ++ f :: L)) (hf : P f) (hM : ∀ x ∈ M, P x) :
    Block P (R ++ (M ++ f :: L)) := by
  induction R with
  | nil =>
    have hbegun : Begun P (f :: L) := by
      rcases h with h | ⟨hx, -⟩
      · exact .inl h
      · exact absurd hf hx
    cases M with
    | nil => exact h
    | cons x M =>
      have hall := Begun.insert_in (R := []) (M := M) hbegun hf
        fun y hy => hM y (.tail _ hy)
      exact .inl ⟨hM x (.head _), hall⟩
  | cons x R ih =>
    rcases h with ⟨hx, hR⟩ | ⟨hx, hR⟩
    · exact .inl ⟨hx, hR.insert_in hf hM⟩
    · exact .inr ⟨hx, ih hR⟩

theorem Begun.insert_out (h : Begun P (R ++ f :: L)) (hf : ¬P f) (hM : ∀ x ∈ M, ¬P x) :
    Begun P (R ++ (M ++ f :: L)) := by
  induction R with
  | nil =>
    rcases h with ⟨hx, -⟩ | ⟨-, hL⟩
    · exact absurd hx hf
    · refine Begun.of_none fun y hy => ?_
      simp only [List.nil_append, List.mem_append, List.mem_cons] at hy
      rcases hy with hy | rfl | hy
      · exact hM y hy
      · exact hf
      · exact hL y hy
  | cons x R ih =>
    rcases h with ⟨hx, hR⟩ | ⟨hx, hR⟩
    · exact .inl ⟨hx, ih hR⟩
    · refine .inr ⟨hx, fun y hy => ?_⟩
      have hy : y ∈ R ++ (M ++ f :: L) := hy
      rw [List.mem_append, List.mem_append] at hy
      rcases hy with hy | hy | hy
      · exact hR y (List.mem_append_left _ hy)
      · exact hM y hy
      · exact hR y (List.mem_append_right _ hy)

theorem Block.insert_out (h : Block P (R ++ f :: L)) (hf : ¬P f) (hM : ∀ x ∈ M, ¬P x) :
    Block P (R ++ (M ++ f :: L)) := by
  induction R with
  | nil => exact h.append_left hM
  | cons x R ih =>
    rcases h with ⟨hx, hR⟩ | ⟨hx, hR⟩
    · exact .inl ⟨hx, hR.insert_out hf hM⟩
    · exact .inr ⟨hx, ih hR⟩

theorem Begun.split (h : Begun P L) : ∃ B C, L = B ++ C ∧ (∀ x ∈ B, P x) ∧ ∀ x ∈ C, ¬P x := by
  induction L with
  | nil => exact ⟨[], [], rfl, by simp, by simp⟩
  | cons x L ih =>
    rcases h with ⟨hx, hL⟩ | ⟨hx, hL⟩
    · obtain ⟨B, C, rfl, hB, hC⟩ := ih hL
      refine ⟨x :: B, C, rfl, ?_, hC⟩
      intro y hy
      rcases List.mem_cons.1 hy with rfl | hy
      · exact hx
      · exact hB y hy
    · refine ⟨[], x :: L, rfl, by simp, ?_⟩
      intro y hy
      rcases List.mem_cons.1 hy with rfl | hy
      · exact hx
      · exact hL y hy

theorem Block.split (h : Block P L) :
    ∃ A B C, L = A ++ B ++ C ∧ (∀ x ∈ A, ¬P x) ∧ (∀ x ∈ B, P x) ∧ ∀ x ∈ C, ¬P x := by
  induction L with
  | nil => exact ⟨[], [], [], rfl, by simp, by simp, by simp⟩
  | cons x L ih =>
    rcases h with ⟨hx, hL⟩ | ⟨hx, hL⟩
    · obtain ⟨B, C, hBC, hB, hC⟩ := Begun.split (L := x :: L) (.inl ⟨hx, hL⟩)
      exact ⟨[], B, C, by rw [hBC]; rfl, by simp, hB, hC⟩
    · obtain ⟨A, B, C, rfl, hA, hB, hC⟩ := ih hL
      refine ⟨x :: A, B, C, rfl, ?_, hB, hC⟩
      intro y hy
      rcases List.mem_cons.1 hy with rfl | hy
      · exact hx
      · exact hA y hy

end Blocks

/-! ## Nested lists -/

/-- `U x a` is "`x` is `a` or lies below it" in some forest. -/
structure IsForest (U : α → α → Prop) : Prop where
  refl : ∀ x, U x x
  trans : ∀ x a b, U x a → U a b → U x b
  chain : ∀ x a b, U x a → U x b → U a b ∨ U b a

/-- Every subtree is a block, and nothing behind an element lies below it. -/
structure Nested (U : α → α → Prop) (L : List α) : Prop where
  ahead : L.Pairwise fun a x => ¬U x a
  block : ∀ a ∈ L, Block (U · a) L

section NestedLists
variable {U : α → α → Prop} {L M R₁ R₂ : List α} {w q f : α}

theorem Nested.nodup (hU : IsForest U) (h : Nested U L) : L.Nodup :=
  h.ahead.imp fun {a x} (hax : ¬U x a) (heq : a = x) => hax (heq ▸ hU.refl a)

theorem Nested.filter (h : Nested U L) (p : α → Bool) : Nested U (L.filter p) where
  ahead := h.ahead.filter p
  block a ha := (h.block a (List.mem_of_mem_filter ha)).filter p

theorem nested_nil : Nested U [] := ⟨List.Pairwise.nil, fun a ha => by cases ha⟩

theorem nested_singleton (w : α) : Nested U [w] := by
  classical
  refine ⟨List.pairwise_singleton _ _, fun a _ => ?_⟩
  by_cases hw : U w a
  · exact .inl ⟨hw, trivial⟩
  · exact .inr ⟨hw, trivial⟩

theorem Begun.congr {P Q : α → Prop} {L : List α} (h : Begun P L) (hPQ : ∀ x ∈ L, (P x ↔ Q x)) :
    Begun Q L := by
  induction L with
  | nil => trivial
  | cons x L ih =>
    have hx := hPQ x (.head _)
    have htail : ∀ y ∈ L, (P y ↔ Q y) := fun y hy => hPQ y (.tail _ hy)
    rcases h with ⟨hPx, hL⟩ | ⟨hPx, hL⟩
    · exact .inl ⟨hx.1 hPx, ih hL htail⟩
    · exact .inr ⟨fun hQx => hPx (hx.2 hQx), fun y hy hQy => hL y hy ((htail y hy).2 hQy)⟩

theorem Block.congr {P Q : α → Prop} {L : List α} (h : Block P L) (hPQ : ∀ x ∈ L, (P x ↔ Q x)) :
    Block Q L := by
  induction L with
  | nil => trivial
  | cons x L ih =>
    have hx := hPQ x (.head _)
    have htail : ∀ y ∈ L, (P y ↔ Q y) := fun y hy => hPQ y (.tail _ hy)
    rcases h with ⟨hPx, hL⟩ | ⟨hPx, hL⟩
    · exact .inl ⟨hx.1 hPx, hL.congr htail⟩
    · exact .inr ⟨fun hQx => hPx (hx.2 hQx), ih hL htail⟩

theorem Nested.congr {U' : α → α → Prop} (h : Nested U L)
    (hU : ∀ x ∈ L, ∀ a ∈ L, (U x a ↔ U' x a)) : Nested U' L where
  ahead := h.ahead.imp_of_mem fun {a x} ha hx hax hxa => hax ((hU x hx a ha).2 hxa)
  block a ha := (h.block a ha).congr fun x hx => hU x hx a ha

theorem Nested.split (hU : IsForest U) (h : Nested U L) {a : α} (ha : a ∈ L) :
    ∃ A B C, L = A ++ B ++ a :: C ∧ (∀ x ∈ A, ¬U x a) ∧ (∀ x ∈ B, U x a) ∧ ∀ x ∈ C, ¬U x a := by
  obtain ⟨A, B, C, hL, hA, hB, hC⟩ := (h.block a ha).split
  have haB : a ∈ B := by
    rw [hL, List.mem_append, List.mem_append] at ha
    rcases ha with (ha | ha) | ha
    · exact absurd (hU.refl a) (hA a ha)
    · exact ha
    · exact absurd (hU.refl a) (hC a ha)
  obtain ⟨B₁, B₂, rfl⟩ := List.append_of_mem haB
  -- Nothing of the block is behind `a`.
  have hB₂ : B₂ = [] := by
    rcases B₂ with _ | ⟨x, B₂⟩
    · rfl
    · have hahead := h.ahead
      rw [hL, List.pairwise_append, List.pairwise_append] at hahead
      have htail := (List.pairwise_append.1 hahead.1.2.1).2.1
      exact absurd (hB x (by simp)) ((List.pairwise_cons.1 htail).1 x (.head _))
  subst hB₂
  refine ⟨A, B₁, C, ?_, hA, fun x hx => hB x (List.mem_append_left _ hx), hC⟩
  rw [hL]
  simp

theorem Nested.graft_front (hU : IsForest U) (hM : Nested U M) (hR : Nested U R₂)
    (hw : ∀ x ∈ M, U x w) (hout : ∀ x ∈ R₂, ¬U x w) (hroot : ∀ a, U w a → a = w) :
    Nested U (M ++ R₂) := by
  constructor
  · rw [List.pairwise_append]
    refine ⟨hM.ahead, hR.ahead, ?_⟩
    intro a ha x hx hxa
    exact hout x hx (hU.trans x a w hxa (hw a ha))
  · intro a ha
    rcases List.mem_append.1 ha with ha | ha
    · exact (hM.block a ha).append_right fun x hx hxa => hout x hx (hU.trans x a w hxa (hw a ha))
    · refine (hR.block a ha).append_left fun x hx hxa => ?_
      rcases hU.chain x w a (hw x hx) hxa with hwa | haw
      · exact hout a ha (hroot a hwa ▸ hU.refl w)
      · exact hout a ha haw

/-- A subtree goes in front of the first element of its parent's subtree. -/
theorem Nested.graft (hU : IsForest U) (hM : Nested U M) (hR : Nested U (R₁ ++ f :: R₂))
    (hw : ∀ x ∈ M, U x w) (hout : ∀ x ∈ R₁ ++ f :: R₂, ¬U x w) (hwq : U w q)
    (hparent : ∀ a, U w a → a = w ∨ U q a) (hf : U f q) (hfirst : ∀ x ∈ R₁, ¬U x q) :
    Nested U (R₁ ++ (M ++ f :: R₂)) := by
  have hR₁ : ∀ x ∈ R₁, x ∈ R₁ ++ f :: R₂ := fun x hx => List.mem_append_left _ hx
  have hR₂ : ∀ x ∈ f :: R₂, x ∈ R₁ ++ f :: R₂ := fun x hx => List.mem_append_right _ hx
  have hsides := List.pairwise_append.1 hR.ahead
  -- What lies outside the subtree and above it lies above the parent.
  have habove : ∀ a ∈ R₁ ++ f :: R₂, ∀ x ∈ M, U x a → U q a := by
    intro a ha x hx hxa
    rcases hU.chain x w a (hw x hx) hxa with hwa | haw
    · rcases hparent a hwa with rfl | hqa
      · exact absurd (hU.refl a) (hout a ha)
      · exact hqa
    · exact absurd haw (hout a ha)
  constructor
  · rw [List.pairwise_append, List.pairwise_append]
    refine ⟨hsides.1, ⟨hM.ahead, hsides.2.1, ?_⟩, ?_⟩
    · intro a ha x hx hxa
      exact hout x (hR₂ x hx) (hU.trans x a w hxa (hw a ha))
    · intro a ha x hx hxa
      rcases List.mem_append.1 hx with hx | hx
      · have hfa : U f a := hU.trans f q a hf (habove a (hR₁ a ha) x hx hxa)
        exact hsides.2.2 a ha f (.head _) hfa
      · exact hsides.2.2 a ha x hx hxa
  · intro a ha
    have hsplit : a ∈ M ∨ a ∈ R₁ ++ f :: R₂ := by
      simp only [List.mem_append] at ha ⊢
      rcases ha with ha | ha | ha
      · exact .inr (.inl ha)
      · exact .inl ha
      · exact .inr (.inr ha)
    rcases hsplit with ha | ha
    · -- A subtree of the part that moves.
      have hnone : ∀ x ∈ R₁ ++ f :: R₂, ¬U x a :=
        fun x hx hxa => hout x hx (hU.trans x a w hxa (hw a ha))
      exact ((hM.block a ha).append_right fun x hx => hnone x (hR₂ x hx)).append_left
        fun x hx => hnone x (hR₁ x hx)
    · by_cases hwa : U w a
      · -- A subtree that the moved part belongs to.
        have hqa : U q a := (hparent a hwa).resolve_left fun h => hout a ha (h ▸ hU.refl w)
        exact (hR.block a ha).insert_in (hU.trans f q a hf hqa)
          fun x hx => hU.trans x w a (hw x hx) hwa
      · have hM' : ∀ x ∈ M, ¬U x a := by
          intro x hx hxa
          rcases hU.chain x w a (hw x hx) hxa with h | h
          · exact hwa h
          · exact hout a ha h
        by_cases hfa : U f a
        · -- Within the parent's subtree nothing is in front of the place.
          have haq : U a q := (hU.chain f a q hfa hf).resolve_right
            fun hqa => hwa (hU.trans w q a hwq hqa)
          have hnone : ∀ x ∈ R₁, ¬U x a := fun x hx hxa => hfirst x hx (hU.trans x a q hxa haq)
          have hrest : Block (U · a) (f :: R₂) := (hR.block a ha).of_append hnone
          exact (hrest.append_left hM').append_left hnone
        · exact (hR.block a ha).insert_out hfa hM'

end NestedLists

/-! ## Ancestors -/

/-- Follow a parent function upwards, at most `fuel` steps. -/
def climb (p : α → Option α) : Nat → Option α → List α
  | 0, _ => []
  | _ + 1, none => []
  | fuel + 1, some x => x :: climb p fuel (p x)

/-- A table of all ancestors. -/
def Climbs (p : α → Option α) (anc : α → List α) : Prop :=
  ∀ x, anc x = match p x with
    | none => []
    | some y => y :: anc y

section Ancestors
variable {p : α → Option α} {anc : α → List α} {x y a b : α}

/-- At or below. -/
def Under (anc : α → List α) (x a : α) : Prop := x = a ∨ a ∈ anc x

instance [DecidableEq α] : DecidableRel (Under anc) :=
  fun x a => inferInstanceAs (Decidable (x = a ∨ a ∈ anc x))

theorem Climbs.parent (h : Climbs p anc) (hp : p x = some y) : anc x = y :: anc y := by
  rw [h x, hp]

theorem Climbs.root (h : Climbs p anc) (hp : p x = none) : anc x = [] := by
  rw [h x, hp]

theorem Climbs.suffix (h : Climbs p anc) (ha : a ∈ anc x) : ∃ A, anc x = A ++ a :: anc a := by
  generalize hn : (anc x).length = n
  induction n using Nat.strong_induction_on generalizing x with
  | _ n ih =>
    rcases hp : p x with _ | y
    · rw [h.root hp] at ha
      cases ha
    · have hx := h.parent hp
      rw [hx] at ha
      rcases List.mem_cons.1 ha with rfl | ha
      · exact ⟨[], hx⟩
      · obtain ⟨A, hA⟩ := ih (anc y).length (by rw [← hn, hx]; simp) ha rfl
        exact ⟨y :: A, by rw [hx, hA]; rfl⟩

theorem Climbs.trans (h : Climbs p anc) (ha : a ∈ anc x) (hb : b ∈ anc a) : b ∈ anc x := by
  obtain ⟨A, hA⟩ := h.suffix ha
  rw [hA]
  simp [hb]

theorem Climbs.child (h : Climbs p anc) (ha : a ∈ anc x) : ∃ y, Under anc x y ∧ p y = some a := by
  generalize hn : (anc x).length = n
  induction n generalizing x with
  | zero =>
    rw [List.length_eq_zero_iff.1 hn] at ha
    cases ha
  | succ n ih =>
    rcases hp : p x with _ | z
    · rw [h.root hp] at ha
      cases ha
    · have hx := h.parent hp
      rw [hx] at ha hn
      rcases List.mem_cons.1 ha with rfl | ha
      · exact ⟨x, .inl rfl, hp⟩
      · obtain ⟨y, hy, hpy⟩ := ih ha (Nat.succ.inj hn)
        refine ⟨y, .inr ?_, hpy⟩
        rw [hx]
        rcases hy with rfl | hy
        · exact .head _
        · exact .tail _ hy

theorem Climbs.irrefl (h : Climbs p anc) : x ∉ anc x := by
  intro hx
  obtain ⟨A, hA⟩ := h.suffix hx
  have hlength := congrArg List.length hA
  simp at hlength
  omega

theorem Climbs.nodup (h : Climbs p anc) (x : α) : (anc x).Nodup := by
  generalize hn : (anc x).length = n
  induction n generalizing x with
  | zero =>
    rw [List.length_eq_zero_iff.1 hn]
    exact List.nodup_nil
  | succ n ih =>
    rcases hp : p x with _ | y
    · rw [h.root hp] at hn
      cases hn
    · have hx := h.parent hp
      rw [hx] at hn ⊢
      exact List.nodup_cons.2 ⟨h.irrefl, ih y (Nat.succ.inj hn)⟩

theorem Climbs.top (h : Climbs p anc) (x : α) : p ((anc x).getLastD x) = none := by
  generalize hn : (anc x).length = n
  induction n generalizing x with
  | zero =>
    rcases hp : p x with _ | y
    · rw [h.root hp]
      exact hp
    · rw [h.parent hp] at hn
      cases hn
  | succ n ih =>
    rcases hp : p x with _ | y
    · rw [h.root hp]
      exact hp
    · have hx := h.parent hp
      rw [hx] at hn ⊢
      rw [List.getLastD_cons]
      exact ih y (Nat.succ.inj hn)

theorem Climbs.agree {p' : α → Option α} {anc' : α → List α} {S : α → Prop} (h : Climbs p anc)
    (h' : Climbs p' anc') (hS : ∀ x y, S x → p x = some y → S y) (hp : ∀ x, S x → p' x = p x)
    (hx : S x) : anc' x = anc x := by
  generalize hn : (anc x).length = n
  induction n generalizing x with
  | zero =>
    rcases hpx : p x with _ | y
    · rw [h.root hpx, h'.root ((hp x hx).trans hpx)]
    · rw [h.parent hpx] at hn
      cases hn
  | succ n ih =>
    rcases hpx : p x with _ | y
    · rw [h.root hpx, h'.root ((hp x hx).trans hpx)]
    · have hlength := h.parent hpx
      rw [hlength] at hn
      rw [hlength, h'.parent ((hp x hx).trans hpx), ih (hS x y hx hpx) (Nat.succ.inj hn)]

theorem Climbs.isForest (h : Climbs p anc) : IsForest (Under anc) where
  refl _ := .inl rfl
  trans x a b hxa hab := by
    rcases hxa with rfl | hxa
    · exact hab
    · rcases hab with rfl | hab
      · exact .inr hxa
      · exact .inr (h.trans hxa hab)
  chain x a b hxa hxb := by
    rcases hxa with rfl | hxa
    · exact .inl hxb
    · rcases hxb with rfl | hxb
      · exact .inr (.inr hxa)
      · -- Two ancestors of one element: the rest behind the nearer one has the other.
        obtain ⟨A, hA⟩ := h.suffix hxa
        obtain ⟨B, hB⟩ := h.suffix hxb
        rw [hA] at hB
        rcases List.append_eq_append_iff.1 hB with ⟨C, rfl, hC⟩ | ⟨C, rfl, hC⟩
        · rcases C with _ | ⟨c, C⟩
          · exact .inl (.inl (List.cons.inj hC).1)
          · obtain ⟨rfl, htail⟩ := List.cons.inj hC
            have hmem : b ∈ C ++ b :: anc b := by simp
            exact .inl (.inr (htail.symm ▸ hmem))
        · rcases C with _ | ⟨c, C⟩
          · exact .inl (.inl (List.cons.inj hC).1.symm)
          · obtain ⟨rfl, htail⟩ := List.cons.inj hC
            have hmem : a ∈ C ++ a :: anc a := by simp
            exact .inr (.inr (htail.symm ▸ hmem))

theorem Under.parent (h : Climbs p anc) (hp : p x = some y) (ha : Under anc x a) :
    a = x ∨ Under anc y a := by
  rcases ha with rfl | ha
  · exact .inl rfl
  · rw [h.parent hp] at ha
    rcases List.mem_cons.1 ha with rfl | ha
    · exact .inr (.inl rfl)
    · exact .inr (.inr ha)

theorem Under.root (h : Climbs p anc) (hp : p x = none) (ha : Under anc x a) : a = x := by
  rcases ha with rfl | ha
  · rfl
  · rw [h.root hp] at ha
    cases ha

end Ancestors

/-! ## How far one has to climb -/

section Climbing
variable {p : α → Option α}

theorem climb_take (n : Nat) (o : Option α) : climb p n o = (climb p (n + 1) o).take n := by
  induction n generalizing o with
  | zero => rfl
  | succ n ih =>
    cases o with
    | none => rfl
    | some x =>
      show x :: climb p n (p x) = List.take (n + 1) (x :: climb p (n + 1) (p x))
      rw [List.take_succ_cons, ← ih]

theorem climb_nodup {rank : α → Nat} {S : α → Prop}
    (hrank : ∀ x y, S x → p x = some y → S y ∧ rank y < rank x) (n : Nat) {x : α} (hx : S x) :
    (climb p n (some x)).Nodup ∧ ∀ y ∈ climb p n (some x), rank y ≤ rank x := by
  induction n generalizing x with
  | zero => exact ⟨List.nodup_nil, fun y hy => by cases hy⟩
  | succ n ih =>
    show (x :: climb p n (p x)).Nodup ∧ _
    rcases hp : p x with _ | y
    · have hnil : climb p n none = [] := by cases n <;> rfl
      rw [hnil]
      exact ⟨List.nodup_singleton x, fun y hy => by
        rw [show climb p (n + 1) (some x) = x :: climb p n (p x) from rfl, hp, hnil,
          List.mem_singleton] at hy
        rw [hy]⟩
    · obtain ⟨hy, hlt⟩ := hrank x y hx hp
      obtain ⟨hnodup, hle⟩ := ih hy
      refine ⟨List.nodup_cons.2 ⟨fun hin => ?_, hnodup⟩, ?_⟩
      · have := hle x hin
        omega
      · intro z hz
        rw [show climb p (n + 1) (some x) = x :: climb p n (p x) from rfl, hp, List.mem_cons] at hz
        rcases hz with rfl | hz
        · exact le_rfl
        · have := hle z hz
          omega

theorem climbs_of_rank [Fintype α] {rank : α → Nat} {S : α → Prop} (hS : ∀ x y, p x = some y → S y)
    (hrank : ∀ x y, S x → p x = some y → rank y < rank x) :
    Climbs p fun x => climb p (Fintype.card α) (p x) := by
  intro x
  rcases hp : p x with _ | y
  · show climb p (Fintype.card α) (p x) = _
    rw [hp]
    cases Fintype.card α <;> rfl
  · show climb p (Fintype.card α) (p x) = _
    obtain ⟨hnodup, -⟩ := climb_nodup (fun x y hx hy => ⟨hS x y hy, hrank x y hx hy⟩)
      (Fintype.card α + 1) (hS x y hp)
    have hshort : (climb p (Fintype.card α + 1) (some y)).length ≤ Fintype.card α :=
      hnodup.length_le_card
    rw [hp, climb_take, List.take_of_length_le hshort]
    rfl

end Climbing

end UnDOS.Lib.Forest
