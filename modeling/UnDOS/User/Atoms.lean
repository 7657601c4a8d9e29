import UnDOS.User.Frames

/-!
# The Parts of an Operation

Every operation of the window manager but the creation of a window is a chain of parts (`Atom`).
They are as large as the invariants need: hiding a window and taking the input from it is one part,
and so is a show command up to the end of its move.

- `Path μ s s'`: from a state with a sound tree such parts lead to `s'`.
- No part enters a window into the table (`Shrunk`), and all of them keep the tree.
-/

namespace UnDOS.User

open UnDOS.Lib
open UnDOS.Lib.Forest (Climbs Under Nested)

/-! ## Parts -/

/-- `show_command_locked` up to the place where the move has been made or undone. -/
def changedState (s : State) (w : Slot) (next : ShowState) : State :=
  let entered := enterState s w next
  let target := stateTarget entered w (fillBounds s w) next
  match moveTo entered w target with
  | (some _, moved) => leaveState moved w (s.window w)
  | (none, moved) =>
    let moved := moved.loosen ((s.window w).rect.sameSize target && loosens s entered w)
    if next = .minimized then clearInputFor moved w else moved

/-- `move_window` up to the saved rectangle. -/
def movedWindow (s : State) (w : Slot) (rect : Rect) : State :=
  match moveTo s w rect with
  | (some _, moved) => moved
  | (none, moved) => moved.loosen (movesAway s w rect)

/-- One part of an operation.  `μ` are the menus that it may attach to a window. -/
inductive Atom (μ : Nat → Prop) : State → State → Prop where
  | aside {s s' : State} (h : Aside s s') : Atom μ s s'
  | focus {s : State} (hwnd : Nat) : Atom μ s (setFocusTo s hwnd).2
  | unfocus {s : State} : Atom μ s (setActive (setFocusTo s 0).2 0)
  | capture {s : State} {w : Slot} (hw : s.used w = true)
      (hshown : effectivelyVisible s w = true ∧ s.minimized w = false) :
      Atom μ s (setCaptureTo s (s.window w).hwnd)
  | release {s : State} : Atom μ s (setCaptureTo s 0)
  | reveal {s : State} {w : Slot} (hw : s.used w = true) : Atom μ s (setVisible s w true)
  | hide {s : State} {w : Slot} (hw : s.used w = true) :
      Atom μ s (clearInputFor (setVisible s w false) w)
  | doom {s : State} {w : Slot} (hw : s.used w = true) :
      Atom μ s (setVisible (clearInputFor s w) w false)
  | move {s : State} {w : Slot} (rect : Rect) (hw : s.used w = true)
      (hfree : (s.window w).state ≠ .maximized ∨ (s.window w).parent = 0) :
      Atom μ s (moveTo s w rect).2
  | place {s : State} {w : Slot} (rect : Rect) (hw : s.used w = true) :
      Atom μ s (movedWindow s w rect)
  | save {s : State} {w : Slot} (rect : Rect) (hw : s.used w = true)
      (hrestored : (s.window w).state = .restored) :
      Atom μ s (s.setWindow w fun o => { o with restoredRect := rect })
  | fit {s : State} {w : Slot} (hw : s.used w = true) (hscreen : s.screen.isEmpty = false) :
      Atom μ s (fitRestored s w)
  | change {s : State} {w : Slot} {next : ShowState} (hw : s.used w = true)
      (hnext : (s.window w).state ≠ next) (hbounds : (fillBounds s w).isEmpty = false) :
      Atom μ s (changedState s w next)
  | reframe {s : State} {w : Slot} {f : Window → Window} (hw : s.used w = true)
      (hf : ∀ o, ∃ style menu, f o = { o with style, menu } ∧ style.visible = o.style.visible)
      (hshift : canShift (reframe s w f).1 w (reframe s w f).2.1 (reframe s w f).2.2 = true)
      (hmenu : ∀ o, (f o).menu = o.menu ∨ μ (f o).menu) :
      Atom μ s (shiftDescendants (reframe s w f).1 w (reframe s w f).2.1 (reframe s w f).2.2)
  | detach {s : State} {w : Slot} {f : Window → Window} (hw : s.used w = true)
      (hf : ∀ o, ∃ style menu, f o = { o with style, menu } ∧ style.visible = o.style.visible)
      (hmenu : ∀ o, (f o).menu = o.menu ∨ μ (f o).menu) :
      Atom μ s (reframe s w f).1.refuse
  | refont {s : State} {new : Metrics} (hfits : fontFits s new = true) : Atom μ s (refont s new)
  | drop {s : State} {w : Slot} (hw : s.used w = true) (hleaf : Leaf s w)
      (hhidden : s.visible w = false) : Atom μ s (dropWindow s w)

/-! ## No new windows -/

/-- Windows may have left the table, and none came. -/
structure Shrunk (s s' : State) : Prop where
  generation : s'.generation = s.generation
  used : ∀ i, s'.used i = true → s.used i = true
  hwnd : ∀ i, (s'.window i).hwnd = (s.window i).hwnd
  parent : ∀ i, (s'.window i).parent = (s.window i).parent
  process : ∀ i, (s'.window i).process = (s.window i).process

theorem Shrunk.refl (s : State) : Shrunk s s :=
  ⟨rfl, fun _ => id, fun _ => rfl, fun _ => rfl, fun _ => rfl⟩

variable {s s' : State}

theorem Shrunk.trans {s'' : State} (h : Shrunk s s') (h' : Shrunk s' s'') : Shrunk s s'' where
  generation := h'.generation.trans h.generation
  used i hi := h.used i (h'.used i hi)
  hwnd i := (h'.hwnd i).trans (h.hwnd i)
  parent i := (h'.parent i).trans (h.parent i)
  process i := (h'.process i).trans (h.process i)

theorem SameTree.shrunk (h : SameTree s s') : Shrunk s s' :=
  ⟨h.generation, fun i hi => by rwa [h.used] at hi, h.hwnd, h.parent, h.process⟩

theorem Shrunk.ancestors (h : Shrunk s s') (hT : Tree s) (hT' : Tree s') {x : Slot}
    (hx : s'.used x = true) : ancestors s' x = ancestors s x := by
  refine hT.ancestors_shrunk hT'.ranked h.generation h.used (fun i _ => h.parent i) ?_ hx
  intro i j hi hj
  obtain ⟨-, hparent, -⟩ := hT.parentOf_eq (h.used i hi) hj
  rcases hT'.parent i hi with hzero | ⟨k, hk, hparent', -⟩
  · rw [h.parent, hparent] at hzero
    exact absurd hzero (hT.hwnd_ne_zero (lookup_iff.1 hj).1)
  · -- Both windows have the handle that the parent field holds.
    rw [h.parent, h.hwnd] at hparent'
    have hjk : some k = some j := by
      rw [← hT.lookup_hwnd (h.used k hk), ← hparent']
      exact hj
    rw [← Option.some.inj hjk]
    exact hk

/-- A change of the windows in place, with the tree and the z-order as they were. -/
structure Edited (s s' : State) : Prop extends SameTree s s' where
  links : s'.links = s.links
  top : s'.top = s.top

theorem Edited.tree (h : Edited s s') (hT : Tree s) : Tree s' :=
  hT.still h.toSameTree h.links h.top

theorem Edited.trans {s'' : State} (h : Edited s s') (h' : Edited s' s'') : Edited s s'' :=
  ⟨h.toSameTree.trans h'.toSameTree, h'.links.trans h.links, h'.top.trans h.top⟩

theorem Moved.edited (h : Moved s s') : Edited s s' :=
  ⟨h.sameShow.toSameTree, by rw [h.rest], by rw [h.rest]⟩

theorem Aside.edited (h : Aside s s') : Edited s s' :=
  ⟨h.sameShow.toSameTree, by rw [h.rest], by rw [h.rest]⟩

theorem Edited.setWindow (s : State) (w : Slot) {f : Window → Window}
    (hf : ∀ o, (f o).hwnd = o.hwnd ∧ (f o).parent = o.parent ∧ (f o).process = o.process) :
    Edited s (s.setWindow w f) := by
  have hwindow : ∀ i, ((s.setWindow w f).window i).hwnd = (s.window i).hwnd ∧
      ((s.setWindow w f).window i).parent = (s.window i).parent ∧
      ((s.setWindow w f).window i).process = (s.window i).process := by
    intro i
    by_cases hi : i = w
    · subst hi
      rw [setWindow_self]
      exact hf _
    · rw [setWindow_ne hi]
      exact ⟨rfl, rfl, rfl⟩
  exact ⟨⟨rfl, rfl, fun i => (hwindow i).1, fun i => (hwindow i).2.1, fun i => (hwindow i).2.2⟩,
    rfl,
    rfl⟩

theorem Edited.setVisible (s : State) (w : Slot) (visible : Bool) :
    Edited s (setVisible s w visible) :=
  Edited.setWindow s w fun _ => ⟨rfl, rfl, rfl⟩

theorem Edited.enterState (s : State) (w : Slot) (next : ShowState) :
    Edited s (enterState s w next) := by
  have hfirst := Edited.setWindow s w (f := fun o => { o with
    restoredRect := if o.state = .restored then o.rect else o.restoredRect, state := next })
    fun _ => ⟨rfl, rfl, rfl⟩
  unfold User.enterState
  split
  · generalize s.setWindow w _ = t at hfirst ⊢
    have hcount : Edited t { t with iconOrder := (t.iconOrder + 1) % 2 ^ 32 } :=
      ⟨⟨rfl, rfl, fun _ => rfl, fun _ => rfl, fun _ => rfl⟩, rfl, rfl⟩
    exact hfirst.trans (hcount.trans (Edited.setWindow _ w fun _ => ⟨rfl, rfl, rfl⟩))
  · exact hfirst

theorem enterState_rest (s : State) (w : Slot) (next : ShowState) : enterState s w next =
      { s with
        window := (enterState s w next).window, iconOrder := (enterState s w next).iconOrder } := by
  unfold enterState
  split
  · rfl
  · rfl

theorem enterState_ne {w x : Slot} (hx : x ≠ w) (next : ShowState) :
    (enterState s w next).window x = s.window x := by
  unfold enterState
  split
  · simp [State.setWindow, hx]
  · exact setWindow_ne hx _

theorem enterState_self (s : State) (w : Slot) (next : ShowState) :
    ∃ n, (enterState s w next).window w = { s.window w with
        restoredRect := if (s.window w).state = .restored then (s.window w).rect
          else (s.window w).restoredRect
        state := next
        iconOrder := n } := by
  unfold enterState
  split
  · simp [State.setWindow]
  · exact ⟨(s.window w).iconOrder, setWindow_self s w _⟩

theorem Edited.leaveState (s : State) (w : Slot) (old : Window) : Edited s (leaveState s w old) :=
  Edited.setWindow s w fun _ => ⟨rfl, rfl, rfl⟩

theorem Edited.reframe (s : State) (w : Slot) {f : Window → Window}
    (hf : ∀ o, ∃ style menu, f o = { o with style, menu } ∧ style.visible = o.style.visible) :
    Edited s (reframe s w f).1 := by
  refine (Edited.setWindow s w fun o => ?_).trans (Moved.loosen _ _).edited
  obtain ⟨style, menu, heq, -⟩ := hf o
  rw [heq]
  exact ⟨rfl, rfl, rfl⟩

theorem Edited.refont (s : State) (new : Metrics) : Edited s (refont s new) := by
  have hwindow : ∀ i, ((User.refont s new).window i).hwnd = (s.window i).hwnd ∧
      ((User.refont s new).window i).parent = (s.window i).parent ∧
      ((User.refont s new).window i).process = (s.window i).process := by
    intro i
    show (refontWindow s new i).hwnd = _ ∧ (refontWindow s new i).parent = _ ∧
      (refontWindow s new i).process = _
    unfold refontWindow
    split
    · exact ⟨rfl, rfl, rfl⟩
    · exact ⟨rfl, rfl, rfl⟩
  exact ⟨⟨rfl, rfl, fun i => (hwindow i).1, fun i => (hwindow i).2.1, fun i => (hwindow i).2.2⟩,
    rfl,
    rfl⟩

/-! ## The parts keep the tree -/

theorem Moved.movedWindow (s : State) (w : Slot) (rect : Rect) :
    Moved s (movedWindow s w rect) := by
  have hmove := Moved.moveTo s w rect
  unfold User.movedWindow
  generalize User.moveTo s w rect = r at hmove ⊢
  obtain ⟨_ | e, moved⟩ := r
  · exact hmove.trans (Moved.loosen moved _)
  · exact hmove

theorem Edited.changedState (s : State) (w : Slot) (next : ShowState) : ∃ t, Edited s t ∧
      (changedState s w next = t ∨ next = .minimized ∧
        changedState s w next = clearInputFor t w) := by
  have henter := Edited.enterState s w next
  have hmove := Moved.moveTo (User.enterState s w next) w
    (stateTarget (User.enterState s w next) w (fillBounds s w) next)
  unfold User.changedState
  dsimp only
  generalize User.moveTo (User.enterState s w next) w
    (stateTarget (User.enterState s w next) w (fillBounds s w) next) = r at hmove ⊢
  obtain ⟨_ | e, moved⟩ := r
  · have hloosen := fun b => (henter.trans hmove.edited).trans (Moved.loosen moved b).edited
    by_cases hnext : next = .minimized
    · exact ⟨_, hloosen _, .inr ⟨hnext, if_pos hnext⟩⟩
    · exact ⟨_, hloosen _, .inl (if_neg hnext)⟩
  · exact ⟨_, (henter.trans hmove.edited).trans (Edited.leaveState _ _ _), .inl rfl⟩

theorem changedState_sameTree (hT : Tree s) (w : Slot) (next : ShowState) :
    SameTree s (changedState s w next) := by
  obtain ⟨t, ht, heq | ⟨-, heq⟩⟩ := Edited.changedState s w next
  · rw [heq]
    exact ht.toSameTree
  · rw [heq]
    exact ht.toSameTree.trans (Handed.clearInputFor (ht.tree hT) w).sameShow.toSameTree

/-- The invariant of the tree, one small change at a time. -/
theorem Atom.keeps {μ : Nat → Prop} (h : Atom μ s s') (hT : Tree s) : Tree s' ∧ Shrunk s s' := by
  have hedited : ∀ {t : State}, Edited s t → Tree t ∧ Shrunk s t :=
    fun ht => ⟨ht.tree hT, ht.toSameTree.shrunk⟩
  have hhanded : ∀ {t : State}, Handed s t → Tree t ∧ Shrunk s t :=
    fun ht => ⟨ht.tree hT, ht.sameShow.toSameTree.shrunk⟩
  have hboth : ∀ {t u : State}, Edited s t → Handed t u → Tree u ∧ Shrunk s u :=
    fun ht hu => ⟨hu.tree (ht.tree hT), ht.toSameTree.shrunk.trans hu.sameShow.toSameTree.shrunk⟩
  cases h with
  | aside h => exact hedited h.edited
  | focus hwnd => exact hhanded (Handed.setFocusTo hT hwnd)
  | unfocus =>
    have hfocus := Handed.setFocusTo hT 0
    exact hhanded (hfocus.trans (Handed.setActive (hfocus.tree hT) 0))
  | capture _ _ => exact hhanded (Handed.handles s _ _ _)
  | release => exact hhanded (Handed.handles s _ _ _)
  | reveal _ => exact hedited (Edited.setVisible s _ true)
  | @hide w _ =>
    have hvisible := Edited.setVisible s w false
    exact hboth hvisible (Handed.clearInputFor (hvisible.tree hT) w)
  | @doom w _ =>
    have hclear := Handed.clearInputFor hT w
    have hvisible := Edited.setVisible (clearInputFor s w) w false
    exact ⟨hvisible.tree (hclear.tree hT),
      hclear.sameShow.toSameTree.shrunk.trans hvisible.toSameTree.shrunk⟩
  | move rect _ _ => exact hedited (Moved.moveTo s _ rect).edited
  | place rect _ => exact hedited (Moved.movedWindow s _ rect).edited
  | save rect _ _ => exact hedited (Moved.setWindow s _ fun _ => ⟨_, _, rfl⟩).edited
  | fit _ _ => exact hedited (Moved.setWindow s _ fun _ => ⟨_, _, rfl⟩).edited
  | @change w next _ _ _ =>
    obtain ⟨t, ht, heq | ⟨-, heq⟩⟩ := Edited.changedState s w next
    · rw [heq]
      exact hedited ht
    · rw [heq]
      exact hboth ht (Handed.clearInputFor (ht.tree hT) w)
  | reframe _ hf _ =>
    exact hedited ((Edited.reframe s _ hf).trans (Moved.shiftDescendants _ _ _ _).edited)
  | detach _ hf => exact hedited ((Edited.reframe s _ hf).trans (Moved.refuse _).edited)
  | refont _ => exact hedited (Edited.refont s _)
  | drop hw hleaf _ =>
    refine ⟨hT.drop hw hleaf, rfl, fun i hi => ((dropWindow_used s _ i).1 hi).1, ?_, ?_, ?_⟩
    · exact fun _ => rfl
    · exact fun _ => rfl
    · exact fun _ => rfl

/-! ## Chains of parts -/

/-- From a sound tree, parts lead from one state to the other. -/
def Path (μ : Nat → Prop) (s s' : State) : Prop := Tree s → Relation.ReflTransGen (Atom μ) s s'

namespace Path
variable {μ : Nat → Prop} {s t u : State}

theorem refl (s : State) : Path μ s s := fun _ => Relation.ReflTransGen.refl

theorem single (h : Atom μ s t) : Path μ s t := fun _ => Relation.ReflTransGen.single h

/-- What every part keeps, a chain keeps. -/
theorem invariant {I : State → Prop} (hI : ∀ s s', Tree s → I s → Atom μ s s' → I s')
    (h : Path μ s t)
    (hT : Tree s) (hs : I s) : Tree t ∧ I t := by
  have hchain := h hT
  clear h
  induction hchain with
  | refl => exact ⟨hT, hs⟩
  | tail _ hatom ih => exact ⟨(hatom.keeps ih.1).1, hI _ _ ih.1 ih.2 hatom⟩

theorem tree (h : Path μ s t) (hT : Tree s) : Tree t :=
  (h.invariant (I := fun _ => True) (fun _ _ _ _ _ => trivial) hT trivial).1

theorem shrunk (h : Path μ s t) (hT : Tree s) : Shrunk s t :=
  (h.invariant (I := Shrunk s) (fun _ _ hT hs ha => hs.trans (ha.keeps hT).2) hT (Shrunk.refl s)).2

theorem trans (h : Path μ s t) (h' : Path μ t u) : Path μ s u :=
  fun hT => (h hT).trans (h' (h.tree hT))

theorem trans_of (h : Path μ s t) (h' : Tree s → Tree t → Path μ t u) : Path μ s u :=
  fun hT => (h hT).trans (h' hT (h.tree hT) (h.tree hT))

theorem ite {b : Prop} [Decidable b] (ht : b → Path μ s t) (hu : ¬b → Path μ s u) :
    Path μ s (if b then t else u) := by
  split
  · exact ht ‹_›
  · exact hu ‹_›

end Path

end UnDOS.User
