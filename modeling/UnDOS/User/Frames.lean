import UnDOS.User.Tree

/-!
# Frames

What the functions of the window manager leave alone.

- `SameShow`: the same tree, styles and states, so the same windows are visible.
- `Moved`: only rectangles changed.  `Handed`: only z-order, focus, activation and capture.
  `Aside`: only what neither the tree nor the rectangles nor the input depend on.
-/

namespace UnDOS.User

open UnDOS.Kernel (KernelError)
open UnDOS.Lib
open UnDOS.Lib.Forest (Climbs Under Nested)

/-! ## The same windows are shown -/

/-- The same tree with the same styles and states. -/
structure SameShow (s s' : State) : Prop extends SameTree s s' where
  style : ∀ i, (s'.window i).style = (s.window i).style
  state : ∀ i, (s'.window i).state = (s.window i).state

namespace SameShow
variable {s s' s'' : State}

theorem trans (h : SameShow s s') (h' : SameShow s' s'') : SameShow s s'' where
  toSameTree := h.toSameTree.trans h'.toSameTree
  style i := (h'.style i).trans (h.style i)
  state i := (h'.state i).trans (h.state i)

theorem visible (h : SameShow s s') (w : Slot) : s'.visible w = s.visible w := by
  unfold State.visible
  rw [h.style]

theorem minimized (h : SameShow s s') (w : Slot) : s'.minimized w = s.minimized w := by
  unfold State.minimized
  rw [h.state]

theorem effectivelyVisible (h : SameShow s s') (w : Slot) :
    User.effectivelyVisible s' w = User.effectivelyVisible s w := by
  unfold User.effectivelyVisible
  rw [h.ancestors]
  simp only [h.visible, h.minimized]

theorem root (h : SameShow s s') (w : Slot) : User.root s' w = User.root s w := by
  unfold User.root
  rw [h.ancestors]

theorem canFocus (h : SameShow s s') (w : Slot) : User.canFocus s' w = User.canFocus s w := by
  unfold User.canFocus
  rw [h.effectivelyVisible, h.minimized, h.parent]

end SameShow

theorem Restacked.sameShow {s s' : State} (h : Restacked s s') : SameShow s s' := by
  obtain ⟨links, top, rfl⟩ := h
  exact ⟨⟨rfl, rfl, fun _ => rfl, fun _ => rfl, fun _ => rfl⟩, fun _ => rfl, fun _ => rfl⟩

/-! ## Three kinds of changes -/

/-- The marks of a run are never taken back. -/
structure Seen.Grows (a b : Seen) : Prop where
  refused : a.refused = true → b.refused = true
  strayed : a.strayed = true → b.strayed = true
  unfitted : a.unfitted = true → b.unfitted = true

theorem Seen.Grows.refl (a : Seen) : Seen.Grows a a := ⟨id, id, id⟩

theorem Seen.Grows.trans {a b c : Seen} (h : Seen.Grows a b) (h' : Seen.Grows b c) :
    Seen.Grows a c :=
  ⟨fun ha => h'.refused (h.refused ha), fun ha => h'.strayed (h.strayed ha),
    fun ha => h'.unfitted (h.unfitted ha)⟩

/-- Only rectangles changed. -/
structure Moved (s s' : State) : Prop where
  rest : s' = { s with window := s'.window, seen := s'.seen }
  window : ∀ i, ∃ r q, s'.window i = { s.window i with rect := r, restoredRect := q }
  seen : s.seen.Grows s'.seen

namespace Moved
variable {s s' s'' : State}

theorem refl (s : State) : Moved s s := ⟨rfl, fun _ => ⟨_, _, rfl⟩, Seen.Grows.refl _⟩

theorem trans (h : Moved s s') (h' : Moved s' s'') : Moved s s'' where
  rest := by
    rw [h'.rest, h.rest]
  window i := by
    obtain ⟨r, q, hi⟩ := h.window i
    obtain ⟨r', q', hi'⟩ := h'.window i
    exact ⟨r', q', by rw [hi', hi]⟩
  seen := h.seen.trans h'.seen

theorem sameShow (h : Moved s s') : SameShow s s' := by
  have hwindow : ∀ i, (s'.window i).hwnd = (s.window i).hwnd ∧
      (s'.window i).parent = (s.window i).parent ∧ (s'.window i).process = (s.window i).process ∧
      (s'.window i).style = (s.window i).style ∧ (s'.window i).state = (s.window i).state := by
    intro i
    obtain ⟨r, q, hi⟩ := h.window i
    rw [hi]
    exact ⟨rfl, rfl, rfl, rfl, rfl⟩
  refine ⟨⟨?_, ?_, fun i => (hwindow i).1, fun i => (hwindow i).2.1, fun i => (hwindow i).2.2.1⟩,
    fun i => (hwindow i).2.2.2.1, fun i => (hwindow i).2.2.2.2⟩
  · rw [h.rest]
  · rw [h.rest]

theorem tree (h : Moved s s') (hT : Tree s) : Tree s' :=
  hT.still h.sameShow.toSameTree (by rw [h.rest]) (by rw [h.rest])

theorem metrics (h : Moved s s') : s'.metrics = s.metrics := by rw [h.rest]

theorem foldl {α : Type} {f : State → α → State} (hf : ∀ s a, Moved s (f s a)) (s : State)
    (L : List α) : Moved s (L.foldl f s) :=
  foldl_rel refl (fun _ _ _ => trans) hf s L

end Moved

/-- Only the z-order and the three handles changed. -/
structure Handed (s s' : State) : Prop where
  rest : s' = { s with links := s'.links, top := s'.top, capture := s'.capture,
                       active := s'.active, focus := s'.focus }
  tree : Tree s → Tree s'

namespace Handed
variable {s s' s'' : State}

theorem refl (s : State) : Handed s s := ⟨rfl, id⟩

theorem trans (h : Handed s s') (h' : Handed s' s'') : Handed s s'' where
  rest := by rw [h'.rest, h.rest]
  tree hT := h'.tree (h.tree hT)

theorem sameShow (h : Handed s s') : SameShow s s' := by
  rw [h.rest]
  exact ⟨⟨rfl, rfl, fun _ => rfl, fun _ => rfl, fun _ => rfl⟩, fun _ => rfl, fun _ => rfl⟩

theorem window (h : Handed s s') : s'.window = s.window := by rw [h.rest]

theorem seen (h : Handed s s') : s'.seen = s.seen := by rw [h.rest]

theorem metrics (h : Handed s s') : s'.metrics = s.metrics := by rw [h.rest]

end Handed

/-- Only titles, classes, the screen, the pointer and the count of icons changed. -/
structure Aside (s s' : State) : Prop where
  rest : s' = { s with window := s'.window, classes := s'.classes, screen := s'.screen,
                       input := s'.input, iconOrder := s'.iconOrder }
  window : ∀ i, ∃ t, s'.window i = { s.window i with title := t }
  screen : s'.screen = s.screen ∨ s'.screen.left = 0 ∧ s'.screen.top = 0

namespace Aside
variable {s s' : State}

theorem sameShow (h : Aside s s') : SameShow s s' := by
  have hwindow : ∀ i, (s'.window i).hwnd = (s.window i).hwnd ∧
      (s'.window i).parent = (s.window i).parent ∧ (s'.window i).process = (s.window i).process ∧
      (s'.window i).style = (s.window i).style ∧ (s'.window i).state = (s.window i).state := by
    intro i
    obtain ⟨t, hi⟩ := h.window i
    rw [hi]
    exact ⟨rfl, rfl, rfl, rfl, rfl⟩
  refine ⟨⟨?_, ?_, fun i => (hwindow i).1, fun i => (hwindow i).2.1, fun i => (hwindow i).2.2.1⟩,
    fun i => (hwindow i).2.2.2.1, fun i => (hwindow i).2.2.2.2⟩
  · rw [h.rest]
  · rw [h.rest]

end Aside

/-! ## Moves -/

/-- What `move_window_locked` can do: nothing, refuse, place the subtree, or place it and go on to
the children. -/
theorem moveWindow_cases (fuel : Nat) (s : State) (w : Slot) (rect : Rect) :
    ((s.window w).rect = rect ∧ moveWindow fuel s w rect = (none, s)) ∨
    ((s.window w).rect ≠ rect ∧ rect.isEmpty = true ∧
      moveWindow fuel s w rect = (some .invalidSize, s)) ∨
    ((s.window w).rect ≠ rect ∧ rect.isEmpty = false ∧
      (rect.inRange = false ∨ canShift s w (rect.left - (s.window w).rect.left)
        (rect.top - (s.window w).rect.top) = false) ∧
      moveWindow fuel s w rect = (some .outOfRange, s.refuse)) ∨
    ((s.window w).rect ≠ rect ∧ rect.isEmpty = false ∧ rect.inRange = true ∧
      canShift s w (rect.left - (s.window w).rect.left) (rect.top - (s.window w).rect.top) = true ∧
      (((s.window w).rect.sameSize rect = true ∨ fuel = 0 ∨
          (clientArea s.metrics ((placeWindow s w rect).window w)).isEmpty = true) ∧
        moveWindow fuel s w rect = (none, placeWindow s w rect) ∨
      ∃ n, fuel = n + 1 ∧ (s.window w).rect.sameSize rect = false ∧
        (clientArea s.metrics ((placeWindow s w rect).window w)).isEmpty = false ∧
        ∃ t, t = (maximizedChildren (placeWindow s w rect) w).foldl (fun u c => (moveWindow n u c
            (clientArea s.metrics ((placeWindow s w rect).window w))).2) (placeWindow s w rect) ∧
          moveWindow fuel s w rect = (none, (layoutMinimized t (t.window w).hwnd).foldl
            (fun u p => (moveWindow n u p.1 p.2).2) t))) := by
  by_cases hsame : (s.window w).rect = rect
  · exact .inl ⟨hsame, by unfold moveWindow; rw [if_pos hsame]⟩
  refine .inr ?_
  rcases hempty : rect.isEmpty with _ | _
  swap
  · exact .inl ⟨hsame, rfl, by unfold moveWindow; rw [if_neg hsame, if_pos hempty]⟩
  refine .inr ?_
  have hne : ¬rect.isEmpty = true := by simp [hempty]
  rcases hrange : rect.inRange with _ | _
  · refine .inl ⟨hsame, rfl, .inl rfl, ?_⟩
    unfold moveWindow
    rw [if_neg hsame, if_neg hne, if_pos (by simp [hrange])]
  rcases hshift : canShift s w (rect.left - (s.window w).rect.left)
    (rect.top - (s.window w).rect.top) with _ | _
  · refine .inl ⟨hsame, rfl, .inr rfl, ?_⟩
    unfold moveWindow
    rw [if_neg hsame, if_neg hne, if_neg (by simp [hrange])]
    rw [if_pos (by simp [hshift])]
  refine .inr ⟨hsame, rfl, rfl, rfl, ?_⟩
  have hin : ¬(!rect.inRange) = true := by simp [hrange]
  have hcan : ¬(!canShift s w (rect.left - (s.window w).rect.left)
      (rect.top - (s.window w).rect.top)) = true := by simp [hshift]
  by_cases hsize : (s.window w).rect.width = rect.width ∧ (s.window w).rect.height = rect.height
  · refine .inl ⟨.inl (decide_eq_true hsize), ?_⟩
    unfold moveWindow
    simp only [if_neg hsame, if_neg hne, if_neg hin, if_neg hcan, if_pos hsize]
  cases fuel with
  | zero =>
    refine .inl ⟨.inr (.inl rfl), ?_⟩
    unfold moveWindow
    simp only [if_neg hsame, if_neg hne, if_neg hin, if_neg hcan, if_neg hsize]
  | succ n =>
    rcases hbounds : (clientArea s.metrics ((placeWindow s w rect).window w)).isEmpty with _ | _
    · refine .inr ⟨n, rfl, decide_eq_false hsize, rfl, _, rfl, ?_⟩
      have hopen : ¬(clientArea (placeWindow s w rect).metrics
          ((placeWindow s w rect).window w)).isEmpty = true := by
        rw [show (placeWindow s w rect).metrics = s.metrics from rfl, hbounds]
        exact Bool.false_ne_true
      conv_lhs => unfold moveWindow
      simp only [if_neg hsame, if_neg hne, if_neg hin, if_neg hcan, if_neg hsize, if_neg hopen]
      rfl
    · refine .inl ⟨.inr (.inr rfl), ?_⟩
      unfold moveWindow
      simp only [if_neg hsame, if_neg hne, if_neg hin, if_neg hcan, if_neg hsize]
      exact if_pos hbounds

theorem Moved.refuse (s : State) : Moved s s.refuse :=
  ⟨rfl, fun _ => ⟨_, _, rfl⟩, ⟨fun _ => rfl, id, id⟩⟩

theorem Moved.loosen (s : State) (b : Bool) : Moved s (s.loosen b) :=
  ⟨rfl, fun _ => ⟨_, _, rfl⟩, ⟨id, id, fun h => by
    show (s.seen.unfitted || b) = true
    rw [h]
    rfl⟩⟩

theorem Moved.shiftDescendants (s : State) (w : Slot) (dx dy : Int) :
    Moved s (shiftDescendants s w dx dy) := by
  refine ⟨rfl, fun i => ?_, ⟨id, fun h => ?_, id⟩⟩
  · show ∃ r q, (if i ∈ descendantsOf s w then (s.window i).shifted dx dy else s.window i) = _
    split
    · exact ⟨_, _, rfl⟩
    · exact ⟨_, _, rfl⟩
  · show (s.seen.strayed || _) = true
    rw [h]
    rfl

theorem setWindow_self (s : State) (w : Slot) (f : Window → Window) :
    (s.setWindow w f).window w = f (s.window w) := by
  simp [State.setWindow]

theorem setWindow_ne {s : State} {w i : Slot} (hi : i ≠ w) (f : Window → Window) :
    (s.setWindow w f).window i = s.window i := by
  simp [State.setWindow, hi]

theorem setWindow_congr {s : State} {w : Slot} {f g : Window → Window}
    (h : f (s.window w) = g (s.window w)) : s.setWindow w f = s.setWindow w g := by
  unfold State.setWindow
  rw [h]

theorem setWindow_same {s : State} {w : Slot} {f : Window → Window}
    (h : f (s.window w) = s.window w) : s.setWindow w f = s := by
  unfold State.setWindow
  rw [h, Function.update_eq_self]

theorem Moved.setWindow (s : State) (w : Slot) {f : Window → Window}
    (hf : ∀ o, ∃ r q, f o = { o with rect := r, restoredRect := q }) :
      Moved s (s.setWindow w f) := by
  refine ⟨rfl, fun i => ?_, Seen.Grows.refl _⟩
  by_cases hi : i = w
  · subst hi
    rw [setWindow_self]
    exact hf _
  · rw [setWindow_ne hi]
    exact ⟨_, _, rfl⟩

theorem Moved.placeWindow (s : State) (w : Slot) (rect : Rect) : Moved s (placeWindow s w rect) :=
  (Moved.setWindow s w fun _ => ⟨_, _, rfl⟩).trans (Moved.shiftDescendants _ _ _ _)

theorem Moved.moveWindow (fuel : Nat) (s : State) (w : Slot) (rect : Rect) :
    Moved s (moveWindow fuel s w rect).2 := by
  induction fuel using Nat.strong_induction_on generalizing s w rect with
  | _ fuel ih =>
    rcases moveWindow_cases fuel s w rect with ⟨-, h⟩ | ⟨-, -, h⟩ | ⟨-, -, -, h⟩ |
      ⟨-, -, -, -, ⟨-, h⟩ | ⟨n, rfl, -, -, t, ht, h⟩⟩
    · rw [h]
      exact Moved.refl s
    · rw [h]
      exact Moved.refl s
    · rw [h]
      exact Moved.refuse s
    · rw [h]
      exact Moved.placeWindow s w rect
    · have hfit : Moved s t := by
        rw [ht]
        exact (Moved.placeWindow s w rect).trans
          (Moved.foldl (fun s c => ih n (Nat.lt_succ_self n) s c _) _ _)
      rw [h]
      exact hfit.trans (Moved.foldl
        (fun s (p : Slot × Rect) => ih n (Nat.lt_succ_self n) s p.1 p.2) _ _)

theorem Moved.moveTo (s : State) (w : Slot) (rect : Rect) : Moved s (moveTo s w rect).2 :=
  Moved.moveWindow 64 s w rect

theorem Moved.arrangeMinimized (s : State) (parent : Nat) : Moved s (arrangeMinimized s parent) :=
  Moved.foldl (fun s (p : Slot × Rect) => Moved.moveTo s p.1 p.2) _ _

/-! ## Handing the input on -/

namespace Handed

theorem handles (s : State) (capture active focus : Nat) :
    Handed s { s with capture := capture, active := active, focus := focus } :=
  ⟨rfl, fun hT => hT.still ⟨rfl, rfl, fun _ => rfl, fun _ => rfl, fun _ => rfl⟩ rfl rfl⟩

theorem raiseBranch {s : State} (hT : Tree s) (w : Slot) : Handed s (raiseBranch s w) := by
  obtain ⟨htree, links, top, heq⟩ := hT.raiseBranch w
  refine ⟨?_, fun _ => htree⟩
  rw [heq]

theorem setActive {s : State} (hT : Tree s) (hwnd : Nat) : Handed s (setActive s hwnd) := by
  unfold User.setActive
  rcases lookup s hwnd with _ | w
  · dsimp only
    split
    · exact refl s
    · exact handles s s.capture 0 s.focus
  · dsimp only
    split
    · exact (raiseBranch hT w).trans (handles _ _ _ _)
    · exact refl s

theorem setFocusTo {s : State} (hT : Tree s) (hwnd : Nat) : Handed s (setFocusTo s hwnd).2 := by
  unfold User.setFocusTo
  rcases lookup s hwnd with _ | w
  · dsimp only
    split
    · exact refl s
    · exact handles s s.capture s.active 0
  · dsimp only
    split
    · exact refl s
    · split
      · exact refl s
      · have hfocus := handles s s.capture s.active hwnd
        exact hfocus.trans (setActive (hfocus.tree hT) hwnd)

theorem ite {s t u : State} {b : Prop} [Decidable b] (ht : b → Handed s t) (hu : ¬b → Handed s u) :
    Handed s (if b then t else u) := by
  split
  · exact ht ‹_›
  · exact hu ‹_›

theorem clearInputFor {s : State} (hT : Tree s) (w : Slot) : Handed s (clearInputFor s w) := by
  unfold User.clearInputFor
  dsimp only
  have hcapture : Handed s (if namesWithin s s.capture w = true then setCaptureTo s 0 else s) :=
    ite (fun _ => handles s 0 s.active s.focus) fun _ => refl s
  generalize (if namesWithin s s.capture w = true then setCaptureTo s 0 else s) = t at hcapture ⊢
  have htT := hcapture.tree hT
  have hfocus : Handed t (if namesWithin t t.focus w = true then (User.setFocusTo t 0).2 else t) :=
    ite (fun _ => setFocusTo htT 0) fun _ => refl t
  generalize (if namesWithin t t.focus w = true then (User.setFocusTo t 0).2 else t) = u at hfocus ⊢
  have huT := hfocus.tree htT
  exact (hcapture.trans hfocus).trans (ite (fun _ => setActive huT 0) fun _ => refl u)

theorem chooseActive {s : State} (hT : Tree s) : Handed s (chooseActive s) := by
  unfold User.chooseActive
  split
  · exact refl s
  · split
    · exact setFocusTo hT _
    · exact refl s

end Handed

end UnDOS.User
