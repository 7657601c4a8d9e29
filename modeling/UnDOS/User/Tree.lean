import UnDOS.User.Stacking

/-!
# The Window Tree

`Tree s` is what the window table, the parent handles and the z-order keep between operations:
handles name the slots they were made for, parents are live windows of the same process, no window
is above itself, and the z-order has every live window once, each subtree in one block.
-/

namespace UnDOS.User

open UnDOS.Lib
open UnDOS.Lib.Forest (climb Climbs Under Nested IsForest)
open Function (update update_of_ne update_self)

/-! ## Handles -/

theorem handleOf_mod (g : Nat) (i : Slot) : handleOf g i % 2 ^ 16 = i.val + 1 := by
  unfold handleOf
  omega

theorem handleOf_div (g : Nat) (i : Slot) : handleOf g i / 2 ^ 16 = g := by
  unfold handleOf
  omega

theorem handleOf_ne_zero (g : Nat) (i : Slot) : handleOf g i ≠ 0 := by
  unfold handleOf
  omega

theorem handleOf_inj {g g' : Nat} {i j : Slot} (h : handleOf g i = handleOf g' j) :
    g = g' ∧ i = j := by
  have hmod := congrArg (· % 2 ^ 16) h
  have hdiv := congrArg (· / 2 ^ 16) h
  rw [handleOf_mod, handleOf_mod] at hmod
  rw [handleOf_div, handleOf_div] at hdiv
  exact ⟨hdiv, Fin.ext (by omega)⟩

theorem lookup_iff {s : State} {hwnd : Nat} {i : Slot} :
    lookup s hwnd = some i ↔ s.used i = true ∧ hwnd = handleOf (s.generation i) i := by
  unfold lookup
  constructor
  · intro h
    split at h
    · rename_i hrange
      dsimp only at h
      split at h
      · rename_i hmatch
        cases h
        refine ⟨hmatch.2, ?_⟩
        have hgen := hmatch.1
        unfold handleOf
        dsimp only at hgen ⊢
        omega
      · cases h
    · cases h
  · rintro ⟨hused, rfl⟩
    have hmod := handleOf_mod (s.generation i) i
    have hdiv := handleOf_div (s.generation i) i
    have hrange : 1 ≤ handleOf (s.generation i) i % 2 ^ 16 ∧
        handleOf (s.generation i) i % 2 ^ 16 - 1 < 64 := by omega
    have hi : (⟨handleOf (s.generation i) i % 2 ^ 16 - 1, hrange.2⟩ : Slot) = i :=
      Fin.ext (by show handleOf (s.generation i) i % 2 ^ 16 - 1 = i.val; omega)
    rw [dif_pos hrange]
    rw [hi, hdiv, if_pos ⟨rfl, hused⟩]

theorem lookup_zero (s : State) : lookup s 0 = none := by
  rcases h : lookup s 0 with _ | i
  · rfl
  · exact absurd (lookup_iff.1 h).2.symm (handleOf_ne_zero _ _)

theorem lookup_congr {s s' : State} (hused : s'.used = s.used)
    (hgeneration : s'.generation = s.generation) (hwnd : Nat) : lookup s' hwnd = lookup s hwnd := by
  unfold lookup
  rw [hused, hgeneration]

/-! ## What changes leave alone -/

/-- The table has the same windows in the same places of the tree. -/
structure SameTree (s s' : State) : Prop where
  used : s'.used = s.used
  generation : s'.generation = s.generation
  hwnd : ∀ i, (s'.window i).hwnd = (s.window i).hwnd
  parent : ∀ i, (s'.window i).parent = (s.window i).parent
  process : ∀ i, (s'.window i).process = (s.window i).process

namespace SameTree
variable {s s' s'' : State}

theorem trans (h : SameTree s s') (h' : SameTree s' s'') : SameTree s s'' where
  used := h'.used.trans h.used
  generation := h'.generation.trans h.generation
  hwnd i := (h'.hwnd i).trans (h.hwnd i)
  parent i := (h'.parent i).trans (h.parent i)
  process i := (h'.process i).trans (h.process i)

theorem lookup (h : SameTree s s') (hwnd : Nat) : User.lookup s' hwnd = User.lookup s hwnd :=
  lookup_congr h.used h.generation hwnd

theorem parentOf (h : SameTree s s') : User.parentOf s' = User.parentOf s := by
  funext i
  unfold User.parentOf
  rw [h.parent, h.lookup]

theorem ancestors (h : SameTree s s') : User.ancestors s' = User.ancestors s := by
  unfold User.ancestors
  rw [h.parentOf]

theorem descendant (h : SameTree s s') (w a : Slot) : User.descendant s' w a =
    User.descendant s w a := by
  unfold User.descendant
  rw [h.ancestors]

end SameTree

theorem Restacked.sameTree {s s' : State} (h : Restacked s s') : SameTree s s' := by
  obtain ⟨links, top, rfl⟩ := h
  exact ⟨rfl, rfl, fun _ => rfl, fun _ => rfl, fun _ => rfl⟩

/-! ## The invariant -/

/-- The window table with its handles, parents and z-order. -/
structure Tree (s : State) : Prop where
  generation : ∀ i, s.generation i < 2 ^ 16
  filled : ∀ i, s.used i = true → 0 < s.generation i
  handle : ∀ i, s.used i = true → (s.window i).hwnd = handleOf (s.generation i) i
  parent : ∀ i, s.used i = true → (s.window i).parent = 0 ∨
    ∃ j, s.used j = true ∧ (s.window i).parent = (s.window j).hwnd ∧
      (s.window i).process = (s.window j).process
  ranked : ∃ rank : Slot → Nat, ∀ i j, s.used i = true → parentOf s i = some j → rank j < rank i
  stacked : ∃ L, Stacked s L ∧ (∀ i, i ∈ L ↔ s.used i = true) ∧ Nested (Under (ancestors s)) L

namespace Tree
variable {s s' : State} {w i : Slot} {L : List Slot}

theorem climbs_of_ranked (h : ∃ rank : Slot → Nat, ∀ i j, s.used i = true → parentOf s i = some j →
    rank j < rank i) : Climbs (parentOf s) (ancestors s) := by
  obtain ⟨rank, hrank⟩ := h
  have hall := Forest.climbs_of_rank (p := parentOf s) (S := fun i => s.used i = true)
    (fun x y hxy => (lookup_iff.1 hxy).1) hrank
  exact hall

theorem climbs (h : Tree s) : Climbs (parentOf s) (ancestors s) := climbs_of_ranked h.ranked

theorem lookup_hwnd (h : Tree s) (hi : s.used i = true) : lookup s (s.window i).hwnd = some i :=
  lookup_iff.2 ⟨hi, h.handle i hi⟩

theorem hwnd_ne_zero (h : Tree s) (hi : s.used i = true) : (s.window i).hwnd ≠ 0 := by
  rw [h.handle i hi]
  exact handleOf_ne_zero _ _

theorem hwnd_eq (h : Tree s) {hwnd : Nat} (hl : lookup s hwnd = some i) :
    hwnd = (s.window i).hwnd := by
  obtain ⟨hi, heq⟩ := lookup_iff.1 hl
  rw [heq, h.handle i hi]

theorem parent_eq_zero (h : Tree s) (hi : s.used i = true) :
    (s.window i).parent = 0 ↔ parentOf s i = none := by
  constructor
  · intro hzero
    unfold parentOf
    rw [hzero, lookup_zero]
  · intro hnone
    rcases h.parent i hi with hzero | ⟨j, hj, hparent, -⟩
    · exact hzero
    · unfold parentOf at hnone
      rw [hparent, h.lookup_hwnd hj] at hnone
      cases hnone

theorem parentOf_eq (h : Tree s) {j : Slot} (hi : s.used i = true) (hj : parentOf s i = some j) :
    s.used j = true ∧ (s.window i).parent = (s.window j).hwnd ∧
      (s.window i).process = (s.window j).process := by
  rcases h.parent i hi with hzero | ⟨k, hk, hparent, hprocess⟩
  · rw [(h.parent_eq_zero hi).1 hzero] at hj
    cases hj
  · unfold parentOf at hj
    rw [hparent, h.lookup_hwnd hk] at hj
    cases hj
    exact ⟨hk, hparent, hprocess⟩

theorem ancestor_used (h : Tree s) (hi : i ∈ ancestors s w) : s.used i = true := by
  obtain ⟨A, hA⟩ := h.climbs.suffix hi
  -- The window before it in the list has it as its parent.
  have hlast : ∀ (A : List Slot) (w : Slot), ancestors s w = A ++ i :: ancestors s i →
      ∃ x, parentOf s x = some i := by
    intro A
    induction A with
    | nil =>
      intro w hw
      rcases hp : parentOf s w with _ | y
      · rw [h.climbs.root hp] at hw
        cases hw
      · rw [h.climbs.parent hp] at hw
        exact ⟨w, by rw [hp, (List.cons.inj hw).1]⟩
    | cons a A ih =>
      intro w hw
      rcases hp : parentOf s w with _ | y
      · rw [h.climbs.root hp] at hw
        cases hw
      · rw [h.climbs.parent hp] at hw
        obtain ⟨rfl, hrest⟩ := List.cons.inj hw
        exact ih y hrest
  obtain ⟨x, hx⟩ := hlast A w hA
  exact (lookup_iff.1 hx).1

theorem congr (h : Tree s) (hsame : SameTree s s')
    (hstacked : ∃ L, Stacked s' L ∧ (∀ i, i ∈ L ↔ s.used i = true) ∧
      Nested (Under (ancestors s)) L) :
    Tree s' where
  generation i := by
    rw [hsame.generation]
    exact h.generation i
  filled i hi := by
    rw [hsame.used] at hi
    rw [hsame.generation]
    exact h.filled i hi
  handle i hi := by
    rw [hsame.used] at hi
    rw [hsame.hwnd, hsame.generation]
    exact h.handle i hi
  parent i hi := by
    rw [hsame.used] at hi
    rw [hsame.parent, hsame.process]
    rcases h.parent i hi with hzero | ⟨j, hj, hparent, hprocess⟩
    · exact .inl hzero
    · exact .inr ⟨j, by rw [hsame.used]; exact hj, by rw [hsame.hwnd]; exact hparent,
        by rw [hsame.process]; exact hprocess⟩
  ranked := by
    obtain ⟨rank, hrank⟩ := h.ranked
    refine ⟨rank, fun i j hi hj => hrank i j ?_ ?_⟩
    · rw [← hsame.used]
      exact hi
    · rw [← hsame.parentOf]
      exact hj
  stacked := by
    obtain ⟨L, hL, hmem, hnested⟩ := hstacked
    refine ⟨L, hL, ?_, ?_⟩
    · intro i
      rw [hsame.used]
      exact hmem i
    · rw [hsame.ancestors]
      exact hnested

theorem still (h : Tree s) (hsame : SameTree s s') (hlinks : s'.links = s.links)
    (htop : s'.top = s.top) : Tree s' := by
  obtain ⟨L, hL, hmem, hnested⟩ := h.stacked
  refine h.congr hsame ⟨L, ?_, hmem, hnested⟩
  unfold Stacked
  rw [hlinks, htop]
  exact hL

theorem mem_zOrder (h : Tree s) : i ∈ zOrder s ↔ s.used i = true := by
  obtain ⟨L, hL, hmem, -⟩ := h.stacked
  rw [hL.zOrder]
  exact hmem i

/-- `raise_branch` keeps the tree. -/
theorem raiseBranch (h : Tree s) (w : Slot) :
    Tree (raiseBranch s w) ∧ Restacked s (User.raiseBranch s w) := by
  obtain ⟨L, hL, hmem, hnested⟩ := h.stacked
  have hparents : ∀ a ∈ w :: ancestors s w, ∀ q, parentOf s a = some q → q ∈ L := by
    intro a _ q hq
    exact (hmem q).2 (lookup_iff.1 hq).1
  obtain ⟨hstack, hsame⟩ := hL.raiseAll h.climbs hparents
  refine ⟨h.congr hsame.sameTree ⟨_, hstack, ?_, nested_raiseListBranch h.climbs hnested hparents⟩,
    hsame⟩
  intro i
  rw [(raiseListBranch_perm _ L).mem_iff]
  exact hmem i

end Tree

/-! ## Windows come and go -/

/-- Nothing is below a window. -/
def Leaf (s : State) (w : Slot) : Prop := ∀ c, s.used c = true →
    (s.window c).parent ≠ (s.window w).hwnd

/-- The end of a window: off the z-order and out of the table. -/
def dropWindow (s : State) (w : Slot) : State :=
  { unlinkZ s w with used := update s.used w false }

theorem dropWindow_used (s : State) (w i : Slot) :
    (dropWindow s w).used i = true ↔ s.used i = true ∧ i ≠ w := by
  show update s.used w false i = true ↔ _
  by_cases hi : i = w
  · subst hi
    simp
  · rw [update_of_ne hi]
    exact ⟨fun h => ⟨h, hi⟩, fun h => h.1⟩

/-- A window is entered into a free slot and linked at the very top. -/
def enterWindow (s : State) (i : Slot) (window : Window) : State :=
  let g := nextGeneration (s.generation i)
  { s with
    generation := update s.generation i g
    used := update s.used i true
    window := update s.window i { window with hwnd := handleOf g i } }

theorem nextGeneration_pos (g : Nat) : 0 < nextGeneration g := by
  unfold nextGeneration
  split <;> omega

theorem nextGeneration_lt (g : Nat) : nextGeneration g < 2 ^ 16 := by
  unfold nextGeneration
  split <;> omega

/-- A parent handle that a new window may have. -/
def ParentOk (s : State) (window : Window) : Prop :=
  window.parent = 0 ∨ ∃ j, lookup s window.parent = some j ∧ window.process = (s.window j).process

section Enter
variable {s : State} {i : Slot} {window : Window}

theorem enterWindow_used_self (s : State) (i : Slot) (window : Window) :
    (enterWindow s i window).used i = true := by
  simp [enterWindow]

theorem enterWindow_used_ne {j : Slot} (hj : j ≠ i) :
    (enterWindow s i window).used j = s.used j := by
  simp [enterWindow, hj]

theorem enterWindow_window_ne {j : Slot} (hj : j ≠ i) :
    (enterWindow s i window).window j = s.window j := by
  simp [enterWindow, hj]

theorem enterWindow_window_self (s : State) (i : Slot) (window : Window) :
    (enterWindow s i window).window i =
      { window with hwnd := handleOf (nextGeneration (s.generation i)) i } := by
  simp [enterWindow]

theorem enterWindow_generation_ne {j : Slot} (hj : j ≠ i) :
    (enterWindow s i window).generation j = s.generation j := by
  simp [enterWindow, hj]

theorem enterWindow_generation_self (s : State) (i : Slot) (window : Window) :
    (enterWindow s i window).generation i = nextGeneration (s.generation i) := by
  simp [enterWindow]

theorem enterWindow_lookup {hwnd : Nat} {j : Slot} (hj : j ≠ i) :
    lookup (enterWindow s i window) hwnd = some j ↔ lookup s hwnd = some j := by
  rw [lookup_iff, lookup_iff, enterWindow_used_ne hj, enterWindow_generation_ne hj]

end Enter

namespace Tree
variable {s s' : State} {w i : Slot}

theorem ancestors_length (h : Tree s) (w : Slot) : (ancestors s w).length < 64 := by
  have hnodup : (w :: ancestors s w).Nodup := List.nodup_cons.2 ⟨h.climbs.irrefl, h.climbs.nodup w⟩
  have hlength := hnodup.length_le_card
  rw [List.length_cons, show Fintype.card Slot = 64 from rfl] at hlength
  omega

theorem ancestors_shrunk (h : Tree s) (hranked : ∃ rank : Slot → Nat, ∀ i j, s'.used i = true →
      parentOf s' i = some j → rank j < rank i) (hgeneration : s'.generation = s.generation)
    (hused : ∀ i, s'.used i = true → s.used i = true)
    (hparent : ∀ i, s'.used i = true → (s'.window i).parent = (s.window i).parent)
    (hclosed : ∀ i j, s'.used i = true → parentOf s i = some j → s'.used j = true)
    (hi : s'.used i = true) : ancestors s' i = ancestors s i := by
  refine h.climbs.agree (S := fun i => s'.used i = true) (climbs_of_ranked hranked) hclosed ?_ hi
  intro x hx
  unfold parentOf
  rw [hparent x hx]
  rcases hl : lookup s (s.window x).parent with _ | y
  · rcases hl' : lookup s' (s.window x).parent with _ | y
    · rfl
    · obtain ⟨hy, heq⟩ := lookup_iff.1 hl'
      rw [hgeneration] at heq
      rw [lookup_iff.2 ⟨hused y hy, heq⟩] at hl
      cases hl
  · obtain ⟨-, heq⟩ := lookup_iff.1 hl
    rw [← hgeneration] at heq
    exact lookup_iff.2 ⟨hclosed x y hx hl, heq⟩

theorem drop (h : Tree s) (hw : s.used w = true) (hleaf : Leaf s w) : Tree (dropWindow s w) := by
  have hused := fun i => (dropWindow_used s w i).1
  have hclosed : ∀ i j, (dropWindow s w).used i = true → parentOf s i = some j →
      (dropWindow s w).used j = true := by
    intro i j hi hj
    obtain ⟨hj', hparent, -⟩ := h.parentOf_eq (hused i hi).1 hj
    refine (dropWindow_used s w j).2 ⟨hj', fun heq => ?_⟩
    exact hleaf i (hused i hi).1 (heq ▸ hparent)
  have hranked : ∃ rank : Slot → Nat, ∀ i j, (dropWindow s w).used i = true →
      parentOf (dropWindow s w) i = some j → rank j < rank i := by
    obtain ⟨rank, hrank⟩ := h.ranked
    refine ⟨rank, fun i j hi hj => hrank i j (hused i hi).1 ?_⟩
    obtain ⟨hj', heq⟩ := lookup_iff.1 hj
    exact lookup_iff.2 ⟨(hused j hj').1, heq⟩
  refine ⟨h.generation, fun i hi => h.filled i (hused i hi).1,
    fun i hi => h.handle i (hused i hi).1,
    ?_, hranked, ?_⟩
  · intro i hi
    rcases h.parent i (hused i hi).1 with hzero | ⟨j, hj, hparent, hprocess⟩
    · exact .inl hzero
    · refine .inr ⟨j, (dropWindow_used s w j).2 ⟨hj, fun heq => ?_⟩, hparent, hprocess⟩
      exact hleaf i (hused i hi).1 (heq ▸ hparent)
  · obtain ⟨L, hL, hmem, hnested⟩ := h.stacked
    have hmem' : ∀ i, i ∈ L.filter (· ≠ w) ↔ (dropWindow s w).used i = true := by
      intro i
      rw [List.mem_filter, hmem, dropWindow_used, decide_eq_true_iff]
    refine ⟨L.filter (· ≠ w), hL.unlinkZ ((hmem w).2 hw), hmem', (hnested.filter _).congr ?_⟩
    intro x hx a _
    unfold Under
    rw [h.ancestors_shrunk hranked rfl (fun i hi => (hused i hi).1) (fun _ _ => rfl) hclosed
      ((hmem' x).1 hx)]

section Enter
variable {window : Window}

theorem parent_ne_free (h : Tree s) (hi : s.used i = false) {x : Slot} (hx : s.used x = true)
    {y : Slot} (hy : parentOf (enterWindow s i window) x = some y) : x ≠ i ∧ y ≠ i := by
  have hxi : x ≠ i := fun heq => by rw [heq, hi] at hx; cases hx
  refine ⟨hxi, fun heq => ?_⟩
  subst heq
  unfold parentOf at hy
  rw [enterWindow_window_ne hxi] at hy
  rcases h.parent x hx with hzero | ⟨j, hj, hparent, -⟩
  · rw [hzero] at hy
    cases hy
  · -- The handle names a live window, in another slot.
    have hji : j ≠ y := fun heq => by rw [heq, hi] at hj; cases hj
    rw [hparent, (enterWindow_lookup hji).2 (h.lookup_hwnd hj)] at hy
    exact hji (Option.some.inj hy)

theorem parentOf_enter (h : Tree s) (hi : s.used i = false) {x : Slot} (hx : s.used x = true) :
    parentOf (enterWindow s i window) x = parentOf s x := by
  have hxi : x ≠ i := fun heq => by rw [heq, hi] at hx; cases hx
  rcases hp : parentOf s x with _ | y
  · rcases hp' : parentOf (enterWindow s i window) x with _ | y
    · rfl
    · have hyi := (h.parent_ne_free hi hx hp').2
      unfold parentOf at hp hp'
      rw [enterWindow_window_ne hxi, enterWindow_lookup hyi, hp] at hp'
      cases hp'
  · have hyi : y ≠ i := fun heq => by
      have hy := (lookup_iff.1 hp).1
      rw [heq, hi] at hy
      cases hy
    unfold parentOf at hp ⊢
    rw [enterWindow_window_ne hxi]
    exact (enterWindow_lookup hyi).2 hp

theorem parentOf_entered (h : Tree s) (hi : s.used i = false) (hparent : ParentOk s window)
    {y : Slot}
    (hy : parentOf (enterWindow s i window) i = some y) :
    s.used y = true ∧ window.parent = (s.window y).hwnd ∧ window.process =
      (s.window y).process := by
  unfold parentOf at hy
  rw [enterWindow_window_self] at hy
  rcases hparent with hzero | ⟨j, hj, hprocess⟩
  · rw [hzero] at hy
    cases hy
  · have hused := (lookup_iff.1 hj).1
    have hji : j ≠ i := fun heq => by rw [heq, hi] at hused; cases hused
    rw [(enterWindow_lookup hji).2 hj] at hy
    cases hy
    exact ⟨hused, h.hwnd_eq hj, hprocess⟩

theorem ranked_enter (h : Tree s) (hi : s.used i = false) (hparent : ParentOk s window) :
    ∃ rank : Slot → Nat, ∀ x y, (enterWindow s i window).used x = true →
      parentOf (enterWindow s i window) x = some y → rank y < rank x := by
  obtain ⟨rank, hrank⟩ := h.ranked
  -- The new window ranks behind all others.
  refine ⟨update rank i (Finset.univ.sup rank + 1), fun x y hx hy => ?_⟩
  by_cases hxi : x = i
  · subst hxi
    have hyused := (h.parentOf_entered hi hparent hy).1
    have hyi : y ≠ x := fun heq => by rw [heq, hi] at hyused; cases hyused
    rw [update_self, update_of_ne hyi]
    exact Nat.lt_succ_of_le (Finset.le_sup (Finset.mem_univ y))
  · rw [enterWindow_used_ne hxi] at hx
    have hyi := (h.parent_ne_free hi hx hy).2
    rw [h.parentOf_enter hi hx] at hy
    rw [update_of_ne hxi, update_of_ne hyi]
    exact hrank x y hx hy

theorem ancestors_enter (h : Tree s) (hi : s.used i = false) (hparent : ParentOk s window)
    {x : Slot}
    (hx : s.used x = true) : ancestors (enterWindow s i window) x = ancestors s x := by
  refine h.climbs.agree (S := fun x => s.used x = true)
    (climbs_of_ranked (h.ranked_enter hi hparent)) ?_ (fun x hx => h.parentOf_enter hi hx) hx
  intro x y _ hy
  exact (lookup_iff.1 hy).1

theorem handles_enter (h : Tree s) (hi : s.used i = false) (hparent : ParentOk s window) :
    (∀ x, (enterWindow s i window).generation x < 2 ^ 16) ∧
      (∀ x, (enterWindow s i window).used x = true → 0 < (enterWindow s i window).generation x) ∧
      (∀ x, (enterWindow s i window).used x = true → ((enterWindow s i window).window x).hwnd =
        handleOf ((enterWindow s i window).generation x) x) ∧
      ∀ x, (enterWindow s i window).used x = true → ((enterWindow s i window).window x).parent = 0 ∨
        ∃ y, (enterWindow s i window).used y = true ∧
          ((enterWindow s i window).window x).parent = ((enterWindow s i window).window y).hwnd ∧
          ((enterWindow s i window).window x).process =
            ((enterWindow s i window).window y).process := by
  have hother : ∀ {y}, s.used y = true → y ≠ i := fun hy heq => by rw [heq, hi] at hy; cases hy
  refine ⟨?_, ?_, ?_, ?_⟩
  · intro x
    by_cases hx : x = i
    · rw [hx, enterWindow_generation_self]
      exact nextGeneration_lt _
    · rw [enterWindow_generation_ne hx]
      exact h.generation x
  · intro x hused
    by_cases hx : x = i
    · rw [hx, enterWindow_generation_self]
      exact nextGeneration_pos _
    · rw [enterWindow_used_ne hx] at hused
      rw [enterWindow_generation_ne hx]
      exact h.filled x hused
  · intro x hused
    by_cases hx : x = i
    · rw [hx, enterWindow_generation_self, enterWindow_window_self]
    · rw [enterWindow_used_ne hx] at hused
      rw [enterWindow_generation_ne hx, enterWindow_window_ne hx]
      exact h.handle x hused
  · intro x hused
    by_cases hx : x = i
    · subst hx
      rw [enterWindow_window_self]
      rcases hparent with hzero | ⟨j, hj, hprocess⟩
      · exact .inl hzero
      · have hjx := hother (lookup_iff.1 hj).1
        refine .inr ⟨j, ?_⟩
        rw [enterWindow_used_ne hjx, enterWindow_window_ne hjx]
        exact ⟨(lookup_iff.1 hj).1, h.hwnd_eq hj, hprocess⟩
    · rw [enterWindow_used_ne hx] at hused
      rw [enterWindow_window_ne hx]
      rcases h.parent x hused with hzero | ⟨j, hj, hrest⟩
      · exact .inl hzero
      · refine .inr ⟨j, ?_⟩
        rw [enterWindow_used_ne (hother hj), enterWindow_window_ne (hother hj)]
        exact ⟨hj, hrest⟩

/-- `insert_window_locked` puts a new window into the tree. -/
theorem insert (h : Tree s) (hi : s.used i = false) (hparent : ParentOk s window) :
    Tree (User.raiseBranch (linkTop (enterWindow s i window) i) i) ∧
      Restacked (enterWindow s i window)
        (User.raiseBranch (linkTop (enterWindow s i window) i) i) := by
  generalize hs₁ : enterWindow s i window = s₁
  have hclimbs : Climbs (parentOf s₁) (ancestors s₁) := by
    rw [← hs₁]
    exact climbs_of_ranked (h.ranked_enter hi hparent)
  have hanc : ∀ x, s.used x = true → ancestors s₁ x = ancestors s x := by
    rw [← hs₁]
    exact fun x hx => h.ancestors_enter hi hparent hx
  have hused : ∀ x, s₁.used x = true ↔ x = i ∨ s.used x = true := by
    intro x
    rw [← hs₁]
    by_cases hx : x = i
    · subst hx
      simp [enterWindow_used_self]
    · simp [enterWindow_used_ne hx, hx]
  obtain ⟨L, hL, hmem, hnested⟩ := h.stacked
  have hiL : i ∉ L := fun hin => by
    rw [hmem, hi] at hin
    cases hin
  have hL₁ : Stacked s₁ L := by
    rw [← hs₁]
    exact hL
  have hnested₁ : Nested (Under (ancestors s₁)) L := hnested.congr fun x hx a _ => by
    unfold Under
    rw [hanc x ((hmem x).1 hx)]
  have hleaf : ∀ x ∈ L, i ∉ ancestors s₁ x := by
    intro x hx hin
    rw [hanc x ((hmem x).1 hx)] at hin
    have hiused := h.ancestor_used hin
    rw [hi] at hiused
    cases hiused
  have hancL : ∀ a ∈ ancestors s₁ i, a ∈ L := by
    intro a ha
    rcases hp : parentOf s₁ i with _ | y
    · rw [hclimbs.root hp] at ha
      cases ha
    · have hy : s.used y = true := by
        rw [← hs₁] at hp
        exact (h.parentOf_entered hi hparent hp).1
      rw [hclimbs.parent hp] at ha
      rcases List.mem_cons.1 ha with rfl | ha
      · exact (hmem a).2 hy
      · rw [hanc y hy] at ha
        exact (hmem a).2 (h.ancestor_used ha)
  have hlinked : Stacked (linkTop s₁ i) (i :: L) := hL₁.linkTop hiL
  have hrestacked := restacked_linkTop s₁ i
  have hparents : ∀ a ∈ i :: ancestors s₁ i, ∀ q, parentOf s₁ a = some q → q ∈ i :: L := by
    intro a ha q hq
    refine .tail _ (hancL q ?_)
    rcases List.mem_cons.1 ha with rfl | ha
    · rw [hclimbs.parent hq]
      exact .head _
    · apply hclimbs.trans ha
      rw [hclimbs.parent hq]
      exact .head _
  obtain ⟨hstack, hsame⟩ := hlinked.raiseAll hclimbs hparents
  have hall : Restacked s₁ (User.raiseBranch (linkTop s₁ i) i) := by
    exact hrestacked.trans hsame
  refine ⟨?_, hall⟩
  have hstack' : Stacked (User.raiseBranch (linkTop s₁ i) i)
      (raiseListBranch (parentOf s₁) (ancestors s₁) (i :: ancestors s₁ i) (i :: L)) := by
    exact hstack
  have hmem' : ∀ x, x ∈ raiseListBranch (parentOf s₁) (ancestors s₁) (i :: ancestors s₁ i)
      (i :: L) ↔
      s₁.used x = true := by
    intro x
    rw [(raiseListBranch_perm _ _).mem_iff, List.mem_cons, hmem, hused]
  obtain ⟨links, top, heq⟩ := hall
  rw [heq] at hstack' ⊢
  have hentered := handles_enter h hi hparent
  rw [hs₁] at hentered
  exact ⟨hentered.1, hentered.2.1, hentered.2.2.1, hentered.2.2.2, hs₁ ▸ h.ranked_enter hi hparent,
    _, hstack', hmem', nested_insert hclimbs hnested₁ hiL hleaf hancL⟩

end Enter

end Tree

end UnDOS.User
