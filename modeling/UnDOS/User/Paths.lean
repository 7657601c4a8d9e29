import UnDOS.User.Atoms

/-!
# Operations as Chains of Parts

Every call of the window manager is a chain of parts, or the creation of a window
(`call_path`).

Destruction is the hard case.  The children of a window go one after the other while the table is
changed under the loop, so the loop keeps: windows outside the subtree stay, and the children
passed so far are gone (`destroyWindow_spec`).
-/

namespace UnDOS.User

open UnDOS.Kernel (KernelError)
open UnDOS.Lib
open UnDOS.Lib.Forest (Climbs Under Nested)

variable {μ : Nat → Prop}

/-! ## Icons -/

variable {s s' : State} {w x c : Slot}

theorem mem_insertIcon {icons : List Slot} (h : x ∈ insertIcon s w icons) : x = w ∨ x ∈ icons := by
  induction icons with
  | nil => exact .inl (List.mem_singleton.1 h)
  | cons i icons ih =>
    unfold insertIcon at h
    split at h
    · exact List.mem_cons.1 h
    · rcases List.mem_cons.1 h with rfl | h
      · exact .inr (.head _)
      · rcases ih h with rfl | h
        · exact .inl rfl
        · exact .inr (.tail _ h)

/-- An icon is a live minimized window. -/
def Icon (s : State) (parent : Nat) (w : Slot) : Prop :=
  s.used w = true ∧ (s.window w).parent = parent ∧ (s.window w).state = .minimized

theorem mem_iconsOf {parent : Nat} (h : x ∈ iconsOf s parent) : Icon s parent x := by
  have hall : ∀ x ∈ iconsOf s parent, Icon s parent x := by
    refine foldl_keeps (I := fun icons => ∀ x ∈ icons, Icon s parent x) ?_ (fun x hx => by cases hx)
    intro icons w hw hicons x hx
    rcases mem_insertIcon hx with rfl | hx
    · have hfilter := (List.mem_filter.1 hw).2
      simp only [Bool.and_eq_true, beq_iff_eq, State.minimized] at hfilter
      exact ⟨hfilter.1, hfilter.2.1.1, hfilter.2.1.2⟩
    · exact hicons x hx
  exact hall x h

theorem mem_flowIcons {bounds : Rect} {x bottom : Int} {icons : List Slot}
    {p : Slot × Rect} (h : p ∈ flowIcons s bounds x bottom icons) : p.1 ∈ icons := by
  induction icons generalizing x bottom with
  | nil => cases h
  | cons w icons ih =>
    rcases List.mem_cons.1 h with rfl | h
    · exact .head _
    · exact .tail _ (ih h)

theorem mem_layoutMinimized {parent : Nat} {p : Slot × Rect}
    (h : p ∈ layoutMinimized s parent) : Icon s parent p.1 := by
  unfold layoutMinimized at h
  dsimp only at h
  split at h
  · cases h
  · exact mem_iconsOf (mem_flowIcons h)

theorem SameShow.icon (h : SameShow s s') {parent : Nat}
    (hw : Icon s parent w) : Icon s' parent w := by
  refine ⟨?_, ?_, ?_⟩
  · rw [h.used]
    exact hw.1
  · rw [h.parent]
    exact hw.2.1
  · rw [h.state]
    exact hw.2.2

/-! ## Moves, focus and visibility -/

namespace Path
variable {s : State} {w : Slot}

theorem moveIcons {s : State} {parent : Nat} {places : List (Slot × Rect)}
    (h : ∀ p ∈ places, Icon s parent p.1) :
    Path μ s (places.foldl (fun s p => (moveTo s p.1 p.2).2) s) := by
  induction places generalizing s with
  | nil => exact refl s
  | cons p places ih =>
    obtain ⟨hused, -, hstate⟩ := h p (.head _)
    have hfirst : Path μ s (moveTo s p.1 p.2).2 :=
      single (Atom.move p.2 hused (.inl (by rw [hstate]; exact ShowState.noConfusion)))
    refine hfirst.trans (ih fun q hq => ?_)
    exact (Moved.moveTo s p.1 p.2).sameShow.icon (h q (.tail _ hq))

theorem arrangeMinimized (s : State) (parent : Nat) : Path μ s (arrangeMinimized s parent) :=
  moveIcons fun _ hp => mem_layoutMinimized hp

theorem chooseActive (s : State) : Path μ s (chooseActive s) := by
  refine ite (fun _ => refl s) fun _ => ?_
  split
  · exact single (Atom.focus _)
  · exact refl s

theorem showWindowTo (hw : s.used w = true) (visible : Bool) :
    Path μ s (showWindowTo s w visible) := by
  refine ite (fun _ => refl s) fun _ => ite (fun _ => ?_) fun _ => ?_
  · exact (single (Atom.reveal hw)).trans (ite (fun _ => arrangeMinimized _ _) fun _ => refl _)
  · exact (single (Atom.hide hw)).trans
      ((ite (fun _ => arrangeMinimized _ _) fun _ => refl _).trans (chooseActive _))

theorem finishState {moved : State} {old next : ShowState} {t : State}
    (ht : t = if next = .minimized then clearInputFor moved w else moved) (hw : t.used w = true) :
    Path μ t (finishState moved w old next) := by
  unfold User.finishState
  rw [← ht]
  have harrange : Path μ t (if next = .minimized ∨ old = .minimized then
      User.arrangeMinimized t (t.window w).parent else t) :=
    ite (fun _ => arrangeMinimized _ _) fun _ => refl t
  have hused : (if next = .minimized ∨ old = .minimized then
      User.arrangeMinimized t (t.window w).parent else t).used w = true := by
    split
    · rw [(Moved.arrangeMinimized t _).sameShow.used]
      exact hw
    · exact hw
  refine harrange.trans ((showWindowTo hused true).trans (ite (fun _ => ?_)
    fun _ => chooseActive _))
  exact single (Atom.focus _)

theorem changeState (hw : s.used w = true) {next : ShowState} (hnext : (s.window w).state ≠ next) :
    Path μ s (changeState s w next).2 := by
  unfold User.changeState
  dsimp only
  rcases hbounds : (fillBounds s w).isEmpty with _ | _
  swap
  · exact refl s
  have hatom : Path μ s (changedState s w next) := single (Atom.change hw hnext hbounds)
  refine fun hT => (?_ : Path μ s _) hT
  have hused : (changedState s w next).used w = true := by
    rw [(changedState_sameTree hT w next).used]
    exact hw
  unfold changedState at hatom hused
  dsimp only at hatom hused
  generalize moveTo (enterState s w next) w
    (stateTarget (enterState s w next) w (fillBounds s w) next) = r at hatom hused ⊢
  obtain ⟨_ | e, moved⟩ := r
  · exact hatom.trans (finishState rfl hused)
  · exact hatom

theorem showCommand (hw : s.used w = true) (command : ShowCommand) :
    Path μ s (showCommand s w command).2 := by
  have henter : ∀ next, Path μ s (if (s.window w).state = next then
      ((none : Option KernelError), User.showWindowTo s w true)
        else User.changeState s w next).2 := by
    intro next
    split
    · exact showWindowTo hw true
    · exact changeState hw ‹_›
  cases command with
  | hide => exact showWindowTo hw false
  | display => exact showWindowTo hw true
  | minimize => exact henter .minimized
  | maximize => exact henter .maximized
  | restore => exact henter .restored

/-! ## Destruction -/

end Path

theorem removeWindow_path (s : State) (w : Slot) (wasVisible : Bool) :
    Path μ (dropWindow s w) (removeWindow s w wasVisible) :=
  Path.trans (Path.ite (fun _ => Path.arrangeMinimized _ _) fun _ => Path.refl _)
    (Path.chooseActive _)

theorem removeWindow_sameTree (hT : Tree (dropWindow s w)) (wasVisible : Bool) :
    SameShow (dropWindow s w) (removeWindow s w wasVisible) := by
  have harrange : Moved (dropWindow s w)
    (if (wasVisible && (dropWindow s w).minimized w) = true then
      arrangeMinimized (dropWindow s w) ((dropWindow s w).window w).parent
        else dropWindow s w) := by
    split
    · exact Moved.arrangeMinimized _ _
    · exact Moved.refl _
  exact harrange.sameShow.trans (Handed.chooseActive (harrange.tree hT)).sameShow

/-- What destruction of a window comes to: it is gone, and the windows that are not at or below it
are there as before. -/
structure Destroyed (μ : Nat → Prop) (s s' : State) (w : Slot) : Prop where
  path : Path μ s s'
  gone : s'.used w = false
  spares : ∀ x, s.used x = true → ¬Under (ancestors s) x w →
    s'.used x = true ∧ (s'.window x).style = (s.window x).style

/-- A child of a window. -/
def ChildOf (s : State) (w c : Slot) : Prop :=
  s.used c = true ∧ (s.window c).parent = (s.window w).hwnd

theorem Tree.parentOf_child (hT : Tree s) (hw : s.used w = true)
    (hc : ChildOf s w c) : parentOf s c = some w := by
  unfold parentOf
  rw [hc.2]
  exact hT.lookup_hwnd hw

theorem Shrunk.childOf (h : Shrunk s s') (hc : ChildOf s' w c) : ChildOf s w c := by
  refine ⟨h.used c hc.1, ?_⟩
  rw [← h.parent, ← h.hwnd]
  exact hc.2

theorem Tree.not_under_child (hT : Tree s) (hw : s.used w = true)
    (hc : ChildOf s w c) (hx : w ∉ ancestors s x) : ¬Under (ancestors s) x c := by
  have hmem : w ∈ ancestors s c := by
    rw [hT.climbs.parent (hT.parentOf_child hw hc)]
    exact .head _
  rintro (rfl | hxc)
  · exact hx hmem
  · exact hx (hT.climbs.trans hxc hmem)

/-- After the loop no child of `w` is left, and windows elsewhere are as they were. -/
theorem destroyChildren_spec {f : State → Slot → State} {A : List Slot}
    (hf : ∀ s c, Tree s → s.used w = true → ancestors s w = A → ChildOf s w c →
      Destroyed μ s (f s c) c) (L : List Slot) (hT : Tree s) (hw : s.used w = true)
    (hA : ancestors s w = A) :
    ∃ t, L.foldl (fun s c => if s.used c ∧ (s.window c).parent = (s.window w).hwnd then f s c
        else s)
        s = t ∧ Path μ s t ∧ (∀ c ∈ L, ¬ChildOf t w c) ∧ ∀ x, s.used x = true → w ∉ ancestors s x →
        t.used x = true ∧ (t.window x).style = (s.window x).style := by
  induction L generalizing s with
  | nil => exact ⟨s, rfl, Path.refl s, fun _ hc => (List.not_mem_nil hc).elim,
      fun _ hx _ => ⟨hx, rfl⟩⟩
  | cons c L ih =>
    rw [List.foldl_cons]
    by_cases hc : ChildOf s w c
    · have hgone := hf s c hT hw hA hc
      have hT₁ := hgone.path.tree hT
      have hshrunk := hgone.path.shrunk hT
      have hspared : ∀ x, s.used x = true → w ∉ ancestors s x →
          (f s c).used x = true ∧ ((f s c).window x).style = (s.window x).style :=
        fun x hx hxw => hgone.spares x hx (hT.not_under_child hw hc hxw)
      have hw₁ := (hspared w hw hT.climbs.irrefl).1
      have hA₁ : ancestors (f s c) w = A := (hshrunk.ancestors hT hT₁ hw₁).trans hA
      obtain ⟨t, ht, hpath, hdone, hkept⟩ := ih hT₁ hw₁ hA₁
      rw [if_pos (show s.used c = true ∧ _ from hc)]
      refine ⟨t, ht, hgone.path.trans hpath, ?_, ?_⟩
      · intro d hd hchild
        rcases List.mem_cons.1 hd with rfl | hd
        · have hback := ((hpath.shrunk hT₁).childOf hchild).1
          rw [hgone.gone] at hback
          cases hback
        · exact hdone d hd hchild
      · intro x hx hxw
        obtain ⟨hx₁, hstyle⟩ := hspared x hx hxw
        obtain ⟨hxt, hstyle'⟩ := hkept x hx₁ (by rwa [hshrunk.ancestors hT hT₁ hx₁])
        exact ⟨hxt, hstyle'.trans hstyle⟩
    · rw [if_neg (show ¬(s.used c = true ∧ _) from hc)]
      obtain ⟨t, ht, hpath, hdone, hkept⟩ := ih hT hw hA
      refine ⟨t, ht, hpath, ?_, hkept⟩
      intro d hd hchild
      rcases List.mem_cons.1 hd with rfl | hd
      · exact hc ((hpath.shrunk hT).childOf hchild)
      · exact hdone d hd hchild

/-- `destroy_window_locked` takes the subtree of a window. -/
theorem destroyWindow_spec (fuel : Nat) (hT : Tree s) (hw : s.used w = true)
    (hfuel : 64 ≤ fuel + (ancestors s w).length) : Destroyed μ s (destroyWindow fuel s w) w := by
  induction fuel generalizing s w with
  | zero =>
    have := hT.ancestors_length w
    omega
  | succ fuel ih =>
    have hdoom : Path μ s (setVisible (clearInputFor s w) w false) := Path.single (Atom.doom hw)
    have hclear := Handed.clearInputFor hT w
    have hedit := Edited.setVisible (clearInputFor s w) w false
    have hsame : SameTree s (setVisible (clearInputFor s w) w false) :=
      hclear.sameShow.toSameTree.trans hedit.toSameTree
    have hT₀ := hdoom.tree hT
    have hw₀ : (setVisible (clearInputFor s w) w false).used w = true := by
      rw [hsame.used]
      exact hw
    have hstyle₀ : ∀ x, x ≠ w → ((setVisible (clearInputFor s w) w false).window x).style =
        (s.window x).style := by
      intro x hx
      unfold setVisible
      rw [setWindow_ne hx, hclear.window]
    have hhidden : (setVisible (clearInputFor s w) w false).visible w = false := by
      unfold setVisible State.visible
      rw [setWindow_self]
    obtain ⟨t, ht, hpath, hdone, hkept⟩ := destroyChildren_spec (f := destroyWindow fuel)
      (A := ancestors s w) (fun t c hTt hwt hAt hc => ih hTt hc.1 (by
        rw [hTt.climbs.parent (hTt.parentOf_child hwt hc), hAt, List.length_cons]
        omega)) (List.finRange 64) hT₀ hw₀ (by rw [hsame.ancestors])
    obtain ⟨hwt, hstylet⟩ := hkept w hw₀ (by rw [hsame.ancestors]; exact hT.climbs.irrefl)
    have hTt := hpath.tree hT₀
    have hleaf : Leaf t w := fun c hc hparent => hdone c (List.mem_finRange c) ⟨hc, hparent⟩
    have hhiddent : t.visible w = false := by
      unfold State.visible at hhidden ⊢
      rw [hstylet]
      exact hhidden
    have hdrop : Path μ t (dropWindow t w) := Path.single (Atom.drop hwt hleaf hhiddent)
    have hTd := hdrop.tree hTt
    have hshow := removeWindow_sameTree hTd (effectivelyVisible s w)
    have hresult : destroyWindow (fuel + 1) s w = removeWindow t w (effectivelyVisible s w) := by
      rw [← ht]
      conv_lhs => unfold destroyWindow
      rw [if_neg (by simp [hw])]
    rw [hresult]
    refine ⟨hdoom.trans (hpath.trans (hdrop.trans (removeWindow_path t w _))), ?_, ?_⟩
    · rw [hshow.used]
      exact Function.update_self w false t.used
    · intro x hx hxw
      have hxne : x ≠ w := fun heq => hxw (.inl heq)
      obtain ⟨hxt, hstylex⟩ := hkept x (by rw [hsame.used]; exact hx)
        (by rw [hsame.ancestors]; exact fun hin => hxw (.inr hin))
      constructor
      · rw [hshow.used]
        exact (dropWindow_used t w x).2 ⟨hxt, hxne⟩
      · rw [hshow.style]
        exact hstylex.trans (hstyle₀ x hxne)

/-! ## Calls -/

namespace Path
variable {s : State} {w : Slot}

theorem foldl {α : Type} {f : State → α → State} (hf : ∀ s a, Path μ s (f s a)) (s : State)
    (L : List α) : Path μ s (L.foldl f s) :=
  foldl_rel refl (fun _ _ _ => trans) hf s L

theorem destroy (hw : s.used w = true) : Path μ s (destroy s w) :=
  fun hT => (destroyWindow_spec 64 hT hw (Nat.le_add_right _ _)).path hT

theorem aside {s' : State} (h : Aside s s') : Path μ s s' := single (Atom.aside h)

theorem input (s : State) (input : InputState) : Path μ s { s with input := input } :=
  aside ⟨rfl, fun _ => ⟨_, rfl⟩, .inl rfl⟩

theorem save (hw : s.used w = true) (r : Window → Rect) :
    Path μ s (s.setWindow w fun o => if o.state = .restored then { o with restoredRect := r o }
      else o) := by
  by_cases hstate : (s.window w).state = .restored
  · have hsave : s.setWindow w (fun o => if o.state = .restored then { o with restoredRect := r o }
        else o) =
        s.setWindow w fun o => { o with restoredRect := r (s.window w) } :=
      setWindow_congr (if_pos hstate)
    rw [hsave]
    exact single (Atom.save _ hw hstate)
  · have hsame : s.setWindow w (fun o => if o.state = .restored then { o with restoredRect := r o }
        else o) =
        s := setWindow_same (if_neg hstate)
    rw [hsame]
    exact refl s

theorem saveRestored (hw : s.used w = true) : Path μ s (saveRestored s w) := save hw (·.rect)

end Path

theorem ownedWindow_used {caller : Process} {hwnd : Nat} (h : ownedWindow s caller hwnd = .ok w) :
    lookup s hwnd = some w ∧ (s.window w).process = caller := by
  unfold ownedWindow at h
  rcases hl : lookup s hwnd with _ | v
  · rw [hl] at h
    cases h
  · rw [hl] at h
    dsimp only at h
    split at h
    · cases h
      exact ⟨rfl, ‹_›⟩
    · cases h

theorem canShift_congr (h : Edited s s')
    (hrect : ∀ i, (s'.window i).rect = (s.window i).rect) (w : Slot) (dx dy : Int) :
    canShift s' w dx dy = canShift s w dx dy := by
  unfold canShift descendantsOf zOrder
  simp only [h.links, h.top, h.descendant, hrect]

theorem restyled_frame (value : Style) (o : Window) :
    ∃ style menu, o.restyled value = { o with style, menu } ∧ style.visible = o.style.visible :=
  ⟨_, _, rfl, rfl⟩

theorem reframe_restyled (s : State) (w : Slot) (value : Style) :
    (reframe s w (·.restyled value)).2 = (borderOfStyle value - borderOfStyle (s.window w).style,
        borderOfStyle value - borderOfStyle (s.window w).style +
          (captionOfStyle s.metrics value - captionOfStyle s.metrics (s.window w).style)) := by
  have hwindow := setWindow_self s w (·.restyled value)
  have hborder : ∀ o : Window, borderOf o = borderOfStyle o.style := fun _ => rfl
  have hchrome : ∀ o : Window, chromeOf s.metrics o = captionOfStyle s.metrics o.style +
      if o.menu ≠ 0 then menuRowHeight s.metrics else 0 := fun _ => rfl
  unfold reframe
  dsimp only
  rw [hwindow]
  simp only [clientToScreen, Rect.offset, hborder, Prod.mk.injEq]
  constructor
  · show 0 + ((s.window w).rect.left + borderOfStyle value) - _ = _
    omega
  · show 0 + ((s.window w).rect.top + borderOfStyle value + chromeOf s.metrics _) - _ = _
    rw [hchrome, hchrome]
    show 0 + ((s.window w).rect.top + borderOfStyle value + (captionOfStyle s.metrics value +
      if (s.window w).menu ≠ 0 then menuRowHeight s.metrics else 0)) - _ = _
    omega

namespace Path
variable {s : State} {w : Slot}

theorem setStyle (hw : s.used w = true) (value : Style) : Path μ s (setStyle s w value).2 := by
  unfold User.setStyle
  dsimp only
  split
  · exact refl s
  · split
    · exact refl s
    · rename_i hcan
      have hedit := Edited.reframe s w (restyled_frame value)
      have hrect : ∀ i, ((reframe s w (·.restyled value)).1.window i).rect = (s.window i).rect := by
        intro i
        show ((s.setWindow w (·.restyled value)).window i).rect = _
        by_cases hi : i = w
        · subst hi
          rw [setWindow_self]
          rfl
        · rw [setWindow_ne hi]
      have hshift : canShift (reframe s w (·.restyled value)).1
          w (reframe s w (·.restyled value)).2.1
          (reframe s w (·.restyled value)).2.2 = true := by
        rw [canShift_congr hedit hrect, reframe_restyled]
        simpa using hcan
      refine (single (Atom.reframe hw (restyled_frame value) hshift fun _ => .inl rfl)).trans
        (showWindowTo ?_ _)
      exact hw

theorem replaceMenu (hw : s.used w = true) {menu : Nat} (hmenu : μ menu) :
    Path μ s (User.saveRestored (if canShift (replaceMenu s w menu).1 w (replaceMenu s w menu).2.1
        (replaceMenu s w menu).2.2 = true
      then shiftDescendants (replaceMenu s w menu).1 w (replaceMenu s w menu).2.1
        (replaceMenu s w menu).2.2 else (replaceMenu s w menu).1.refuse) w) := by
  have hf : ∀ o : Window, ∃ style menu', { o with menu } = { o with style, menu := menu' } ∧
      style.visible = o.style.visible := fun o => ⟨_, _, rfl, rfl⟩
  split
  · exact (single (Atom.reframe hw hf ‹_› fun _ => .inr hmenu)).trans (saveRestored hw)
  · exact (single (Atom.detach hw hf fun _ => .inr hmenu)).trans (saveRestored hw)

theorem setMenu (s : State) (caller : Process) (hwnd : Nat) {menu : Nat}
    (answer : Option KernelError) (hmenu : μ menu) :
    Path μ s (setMenu s caller hwnd menu answer).2 := by
  unfold User.setMenu
  split
  · exact refl s
  · rename_i w howned
    have hw := (lookup_iff.1 (ownedWindow_used howned).1).1
    split
    · exact refl s
    · split
      · exact refl s
      · have hreplace := replaceMenu hw hmenu
        dsimp only
        rcases hcan : canShift (User.replaceMenu s w menu).1 w (User.replaceMenu s w menu).2.1
          (User.replaceMenu s w menu).2.2 with _ | _
        · exact refl s
        · rw [if_pos hcan] at hreplace
          exact hreplace

theorem detachMenu (hμ : μ 0) (hw : s.used w = true) : Path μ s (detachMenu s w) :=
  ite (fun _ => refl s) fun _ => replaceMenu hw hμ

theorem detachMenuFromWindows (hμ : μ 0) (s : State) (menu : Nat) :
    Path μ s (detachMenuFromWindows s menu) :=
  foldl (fun s _ => ite (fun h => detachMenu hμ h.1) fun _ => refl s) s _

theorem onProcessExit (hμ : μ 0) (s : State) (proc : Process) (menus : List Nat) :
    Path μ s (onProcessExit s proc menus) := by
  have hdestroy : Path μ s ((List.finRange 64).foldl
      (fun s w => if s.used w ∧ (s.window w).process = proc then User.destroy s w else s) s) :=
    foldl (fun s w => ite (fun h => destroy h.1) fun _ => refl s) s _
  have hdetach := foldl (detachMenuFromWindows hμ) ((List.finRange 64).foldl
    (fun s w => if s.used w ∧ (s.window w).process = proc then User.destroy s w else s) s) menus
  exact hdestroy.trans (hdetach.trans (aside ⟨rfl, fun _ => ⟨_, rfl⟩, .inl rfl⟩))

theorem applyDefaultFont (s : State) (font : Metrics) : Path μ s (applyDefaultFont s font).2 := by
  unfold User.applyDefaultFont
  dsimp only
  split
  · exact refl s
  · rename_i hfits
    have hrefont : Path μ s (refont s { font with menuTextHeight := font.textHeight }) :=
      single (Atom.refont (by simpa using hfits))
    apply hrefont.trans
    generalize List.finRange 64 = slots
    exact foldl (fun s w => ite (fun _ => arrangeMinimized _ _) fun _ => refl s) _ slots

theorem moveWindowCall (s : State) (caller : Process) (hwnd : Nat) (x y width height : Int) :
    Path μ s (moveWindowCall s caller hwnd x y width height).2 := by
  unfold User.moveWindowCall
  split
  · exact refl s
  · split
    · exact refl s
    · rename_i w howned
      have hw := (lookup_iff.1 (ownedWindow_used howned).1).1
      split
      · exact refl s
      · rename_i rect _
        have hplace : Path μ s (movedWindow s w rect) := single (Atom.place rect hw)
        have hmoved := Moved.moveTo s w rect
        unfold movedWindow at hplace
        generalize moveTo s w rect = r at hplace hmoved ⊢
        obtain ⟨_ | e, moved⟩ := r
        · refine hplace.trans (save ?_ fun _ => rect)
          show moved.used w = true
          rw [hmoved.sameShow.used]
          exact hw
        · exact hplace

theorem dragWindow (s : State) : Path μ s (dragWindow s) := by
  unfold User.dragWindow
  split
  · exact input s _
  · rename_i w hlookup
    have hw : s.used w = true := (lookup_iff.1 hlookup).1
    split
    · exact input s _
    · rename_i hshown
      have hrestored : (s.window w).state = .restored := by
        simp only [Bool.or_eq_true, bne_iff_ne, not_or, not_not] at hshown
        exact hshown.2
      refine ite (fun _ => refl s) fun _ => ?_
      have hmove : Path μ s (moveTo s w (dragTarget s w)).2 :=
        single (Atom.move _ hw (.inl (by rw [hrestored]; exact ShowState.noConfusion)))
      have hmoved := Moved.moveTo s w (dragTarget s w)
      generalize moveTo s w (dragTarget s w) = r at hmove hmoved ⊢
      obtain ⟨_ | e, moved⟩ := r
      · refine hmove.trans (single (Atom.save _ ?_ ?_))
        · rw [hmoved.sameShow.used]
          exact hw
        · rw [hmoved.sameShow.state]
          exact hrestored
      · exact hmove

theorem drag (s : State) : Path μ s (drag s) :=
  (input s { s.input with dragPending := false }).trans (dragWindow _)

end Path

theorem Moved.saveRestored (s : State) (w : Slot) : Moved s (saveRestored s w) := by
  refine Moved.setWindow s w fun o => ?_
  split
  · exact ⟨_, _, rfl⟩
  · exact ⟨_, _, rfl⟩

theorem Moved.refitRoot (s : State) (w : Slot) : Moved s (refitRoot s w) := by
  unfold User.refitRoot
  split
  · exact Moved.refl s
  · have hfit : Moved s (fitRestored s w) := Moved.setWindow s w fun _ => ⟨_, _, rfl⟩
    exact hfit.trans ((Moved.moveTo _ _ _).trans (Moved.saveRestored _ _))

namespace Path
variable {s : State} {w : Slot}

theorem mem_zUpwards {links : Intrusive.Links Slot} {top : Option Slot} {L : List Slot}
    (h : Intrusive.Threaded links top L) {fuel : Nat} {o : Option Slot} (ho : ∀ x ∈ o, x ∈ L)
    {y : Slot} (hy : y ∈ zUpwards links fuel o) : y ∈ L := by
  induction fuel generalizing o with
  | zero => cases hy
  | succ fuel ih =>
    rcases o with _ | x
    · cases hy
    · have hx := ho x rfl
      rcases List.mem_cons.1 hy with rfl | hy
      · exact hx
      · refine ih ?_ hy
        obtain ⟨A, B, rfl⟩ := List.append_of_mem hx
        rw [(h.link A x B rfl).2]
        intro z hz
        exact List.mem_append_left _ (List.mem_of_getLast? hz)

theorem refitRoot (hw : s.used w = true) : Path μ s (refitRoot s w) := by
  unfold User.refitRoot
  split
  · exact refl s
  · rename_i hroot
    have hparent : (s.window w).parent = 0 := by simpa using fun h => hroot (.inl h)
    have hscreen : s.screen.isEmpty = false := by simpa using fun h => hroot (.inr h)
    have hfit : Moved s (fitRestored s w) := Moved.setWindow s w fun _ => ⟨_, _, rfl⟩
    have hmove := Moved.moveTo (fitRestored s w) w (rootTarget (fitRestored s w) w)
    refine (single (Atom.fit hw hscreen)).trans ((single (Atom.move _ ?_ (.inr ?_))).trans
      (saveRestored ?_))
    · exact hw
    · rw [hfit.sameShow.parent]
      exact hparent
    · rw [hmove.sameShow.used]
      exact hw

theorem foldl_used {f : State → Slot → State} (hf : ∀ s w, s.used w = true → Path μ s (f s w))
    (hmoved : ∀ s w, Moved s (f s w)) {L : List Slot} {s : State}
    (hL : ∀ w ∈ L, s.used w = true) : Path μ s (L.foldl f s) := by
  induction L generalizing s with
  | nil => exact refl s
  | cons w L ih =>
    refine (hf s w (hL w (.head _))).trans (ih fun x hx => ?_)
    rw [(hmoved s w).sameShow.used]
    exact hL x (.tail _ hx)

theorem displayChanged (s : State) : Path μ s (displayChanged s) := by
  intro hT
  obtain ⟨L, hL, hmem, -⟩ := hT.stacked
  have hused : ∀ w ∈ zUpwards s.links 64 (zOrder s).getLast?, s.used w = true := by
    intro w hw
    refine (hmem w).1 (mem_zUpwards hL ?_ hw)
    intro x hx
    rw [hL.zOrder] at hx
    exact List.mem_of_getLast? hx
  exact foldl_used (fun _ _ hw => refitRoot hw) Moved.refitRoot hused hT

theorem displayInputChanged (s : State) (firstActivation : Bool) :
    Path μ s (displayInputChanged s firstActivation) := by
  have hstop : Path μ s _ :=
    input s { s.input with dragHwnd := 0, dragPending := false, lastClickHwnd := 0 }
  refine hstop.trans ((single Atom.release).trans ?_)
  exact ite (fun _ => refl _) fun _ => input _ _

theorem windowFromPoint_used (hT : Tree s) {x y : Int} (h : windowFromPoint s x y = some w) :
    s.used w = true := hT.mem_zOrder.1 (List.mem_of_find?_eq_some h)

theorem mouseTarget_used (hT : Tree s) {x y : Int} (h : mouseTarget s x y = some w) :
    s.used w = true := by
  unfold mouseTarget at h
  split at h
  · rename_i v hl
    split at h
    · cases h
      exact (lookup_iff.1 hl).1
    · exact windowFromPoint_used hT h
  · exact windowFromPoint_used hT h

theorem pressFrame (hw : s.used w = true) (hit : HitTest) (doubleClick : Bool) :
    Path μ s (pressFrame s w hit doubleClick) :=
  ite (fun _ => refl s) fun _ =>
    ite (fun _ => showCommand hw .minimize) fun _ =>
      ite (fun _ => showCommand hw _) fun _ => ite (fun _ => input s _) fun _ => refl s

theorem clickWindow (hw : s.used w = true) (time : Nat) : Path μ s (clickWindow s w time) := by
  have hnote : Path μ s (noteClick s w time) := input s _
  apply hnote.trans
  have hw' : (noteClick s w time).used w = true := hw
  refine ite (fun _ => ite (fun _ => showCommand hw' .restore) fun _ => single (Atom.focus _))
    fun _ => ?_
  refine (single (Atom.focus _)).trans_of fun hT _ => pressFrame ?_ _ _
  rw [(Handed.setFocusTo hT _).sameShow.used]
  exact hw'

theorem leftDown (s : State) (time : Nat) : Path μ s (leftDown s time) := by
  unfold User.leftDown
  split
  · exact refl s
  · split
    · rename_i w htarget
      exact fun hT => clickWindow (mouseTarget_used hT htarget) time hT
    · exact single Atom.unfocus

theorem mouse (s : State) (event : MouseEvent) (menu : MenuAnswer) :
    Path μ s (mouse s event menu) := by
  refine ite (fun _ => refl s) fun _ => ?_
  have hpointer : Path μ s (movePointer s event) := input s _
  have hdrag : ∀ t, Path μ t (dragOn t event) := fun t =>
    ite (fun _ => refl t) fun _ => ite (fun _ => drag t) fun _ => input t _
  apply (hpointer.trans (hdrag _)).trans
  generalize dragOn (movePointer s event) event = t
  cases menu with
  | pass =>
    have hdown : Path μ t (if event.leftDown = true then User.leftDown t event.time else t) :=
      ite (fun _ => leftDown t _) fun _ => refl t
    exact hdown.trans (ite (fun _ => input _ _) fun _ => refl _)
  | take => exact refl t
  | takeFocus =>
    dsimp only
    split
    · exact single (Atom.focus _)
    · exact refl t

theorem keyboard (s : State) (event : KeyEvent) (menu : Bool) :
    Path μ s (keyboard s event menu) := by
  refine ite (fun _ => refl s) fun _ => ite (fun _ => ?_) fun _ => refl s
  unfold cycleWindow
  dsimp only
  split
  · exact single (Atom.focus _)
  · exact refl s

theorem setFocus (s : State) (caller : Process) (hwnd : Nat) :
    Path μ s (setFocus s caller hwnd).2 := by
  unfold User.setFocus
  split
  · split
    · exact refl s
    · exact single (Atom.focus _)
  · split
    · split
      · exact refl s
      · exact single (Atom.focus _)
    · exact single (Atom.focus _)

theorem setCapture (s : State) (caller : Process) (hwnd : Nat) :
    Path μ s (setCapture s caller hwnd).2 := by
  intro hT
  unfold User.setCapture
  split
  · exact refl s hT
  · rename_i w howned
    have hlookup := (ownedWindow_used howned).1
    split
    · rename_i hshown
      rw [Bool.and_eq_true, Bool.not_eq_true'] at hshown
      rw [hT.hwnd_eq hlookup]
      exact single (Atom.capture (lookup_iff.1 hlookup).1 hshown) hT
    · exact refl s hT

end Path

/-- A window was created: it is restored, in range and in a slot that was free. -/
def Inserted (s s' : State) : Prop :=
  ∃ i window, s.used i = false ∧ ParentOk s window ∧ window.state = .restored ∧
    window.rect.inRange = true ∧ window.rect.isEmpty = false ∧ window.menu = 0 ∧
    s' = raiseBranch (linkTop (enterWindow s i window) i) i

theorem placementRect_ok {w : Window} {x y width height : Int} {rect : Rect}
    (h : placementRect s w x y width height = .ok rect) :
    rect.inRange = true ∧ rect.isEmpty = false := by
  unfold placementRect at h
  by_cases hsize : width ≤ 0 ∨ height ≤ 0
  · rw [if_pos hsize] at h
    cases h
  · have hend : ∀ origin : Rect,
        (if Rect.inRange ⟨x + origin.left, y + origin.top, x + origin.left + width,
            y + origin.top + height⟩ = true then
          (pure ⟨x + origin.left, y + origin.top, x + origin.left + width,
            y + origin.top + height⟩ :
            Except KernelError Rect) else throw .outOfRange) = .ok rect →
        rect.inRange = true ∧ rect.isEmpty = false := by
      intro origin horigin
      split at horigin
      · rename_i hrange
        cases horigin
        refine ⟨hrange, decide_eq_false ?_⟩
        dsimp only
        omega
      · cases horigin
    split at h
    · split at h
      · cases h
      · exact hend _ h
    · exact hend _ h

theorem insertWindow_inserted {window : Window} {r : Slot × State}
    (h : insertWindow s window = .ok r) (hparent : ParentOk s window)
    (hstate : window.state = .restored) (hrange : window.rect.inRange = true)
    (hempty : window.rect.isEmpty = false) (hmenu : window.menu = 0) : Inserted s r.2 := by
  unfold insertWindow at h
  split at h
  · cases h
  · rename_i i hfind
    cases h
    refine ⟨i, window, ?_, hparent, hstate, hrange, hempty, hmenu, rfl⟩
    simpa using List.find?_some hfind

theorem finishCreate_inserted {caller : Process} {params : CreateParams}
    {supplies : Supplies} {r : Slot × State} (h : finishCreate s caller params supplies = .ok r)
    (hparent : ParentOk s (params.window caller)) : Inserted s r.2 := by
  unfold finishCreate at h
  dsimp only at h
  rcases hrect : placementRect s (params.window caller) params.x params.y params.width params.height
    with e | rect
  · rw [hrect] at h
    cases h
  · obtain ⟨hrange, hempty⟩ := placementRect_ok hrect
    rw [hrect] at h
    split at h
    · cases h
    · rcases hqueue : supplies.queue with _ | e
      · rw [hqueue] at h
        exact insertWindow_inserted h hparent rfl hrange hempty rfl
      · rw [hqueue] at h
        cases h

theorem createWindow_inserted {caller : Process} {params : CreateParams}
    {supplies : Supplies} {r : Slot × State} (h : createWindow s caller params supplies = .ok r) :
    Inserted s r.2 := by
  unfold createWindow at h
  dsimp only at h
  split at h
  · cases h
  split at h
  · cases h
  split at h
  · cases h
  split at h
  · cases h
  rename_i hchild
  rcases hobject : supplies.object with _ | e
  swap
  · rw [hobject] at h
    cases h
  rw [hobject] at h
  split at h
  · rcases howned : ownedWindow s caller params.parent with e | p
    · rw [howned] at h
      cases h
    · rw [howned] at h
      obtain ⟨hlookup, hprocess⟩ := ownedWindow_used howned
      exact finishCreate_inserted h (.inr ⟨p, hlookup, hprocess.symm⟩)
  · -- Without the child style there is no parent.
    rename_i hstyle
    refine finishCreate_inserted h (.inl ?_)
    rw [not_not, Bool.eq_false_iff.2 hstyle] at hchild
    show params.parent = 0
    simpa using hchild.symm

/-- The menus that a call may attach to a window.  0 is none. -/
def Call.attaches : Call → Nat → Prop
  | .setMenu _ _ menu _ => fun m => m = menu
  | .destroyMenus _ => fun m => m = 0
  | .processExit _ _ => fun m => m = 0
  | _ => fun _ => False

/-- Every call is a chain of parts or creates a window. -/
theorem call_path (s : State) (call : Call) :
    Path call.attaches s (call.next s) ∨ Inserted s (call.next s) := by
  cases call with
  | registerClass caller name =>
    refine .inl ?_
    show Path _ s (registerClass s caller name).2
    unfold User.registerClass
    split
    · exact Path.refl s
    · split
      · exact Path.refl s
      · dsimp only
        split
        · exact Path.refl s
        · exact Path.aside ⟨rfl, fun _ => ⟨_, rfl⟩, .inl rfl⟩
  | createWindow caller params supplies =>
    dsimp only [Call.next]
    rcases hcreate : createWindow s caller params supplies with e | ⟨i, s'⟩
    · exact .inl (Path.refl s)
    · exact .inr (createWindow_inserted hcreate)
  | destroyWindow caller hwnd =>
    refine .inl ?_
    dsimp only [Call.next]
    split
    · rename_i w howned
      exact Path.destroy (lookup_iff.1 (ownedWindow_used howned).1).1
    · exact Path.refl s
  | showWindow caller hwnd command =>
    refine .inl ?_
    show Path _ s (showWindowCall s caller hwnd command).2
    unfold showWindowCall
    split
    · exact Path.refl s
    · rename_i w howned
      split
      · exact Path.refl s
      · exact Path.showCommand (lookup_iff.1 (ownedWindow_used howned).1).1 _
  | moveWindow caller hwnd x y width height => exact .inl (Path.moveWindowCall s _ _ _ _ _ _)
  | setWindowLong caller hwnd index value =>
    refine .inl ?_
    show Path _ s (setWindowLong s caller hwnd index value).2
    unfold User.setWindowLong
    split
    · exact Path.refl s
    · rename_i w howned
      cases index with
      | wndProc => exact Path.refl s
      | userData => exact Path.refl s
      | style => exact Path.setStyle (lookup_iff.1 (ownedWindow_used howned).1).1 value
      | other => exact Path.refl s
  | setWindowText caller hwnd text =>
    apply Or.inl
    dsimp only [Call.next]
    split
    · rename_i w howned
      refine Path.ite (fun _ => Path.refl s) fun _ => Path.aside ⟨rfl, fun i => ?_, .inl rfl⟩
      by_cases hi : i = w
      · subst hi
        exact ⟨text, setWindow_self s i _⟩
      · exact ⟨(s.window i).title, setWindow_ne hi _⟩
    · exact Path.refl s
  | setCapture caller hwnd => exact .inl (Path.setCapture s caller hwnd)
  | releaseCapture caller =>
    apply Or.inl
    show Path _ s (releaseCapture s caller)
    unfold User.releaseCapture
    split
    · exact Path.ite (fun _ => Path.single Atom.release) fun _ => Path.refl s
    · exact Path.refl s
  | setFocus caller hwnd => exact .inl (Path.setFocus s caller hwnd)
  | setMenu caller hwnd menu answer => exact .inl (Path.setMenu s caller hwnd answer rfl)
  | destroyMenus menus =>
    have hzero : (Call.destroyMenus menus).attaches 0 := rfl
    exact .inl (Path.foldl (Path.detachMenuFromWindows hzero) s menus)
  | mouse event menu => exact .inl (Path.mouse s event menu)
  | dragPause =>
    have hdrag : Path Call.dragPause.attaches s (if (s.input.dragPending && s.input.dragHwnd != 0) =
      true then drag s else s) :=
      Path.ite (fun _ => Path.drag s) fun _ => Path.refl s
    exact .inl (hdrag.trans (Path.input _ _))
  | keyboard event menu => exact .inl (Path.keyboard s event menu)
  | processExit proc menus =>
    have hzero : (Call.processExit proc menus).attaches 0 := rfl
    exact .inl (Path.onProcessExit hzero s proc menus)
  | setDefaultFont font => exact .inl (Path.applyDefaultFont s font)
  | modeSet width height => exact .inl (Path.aside ⟨rfl, fun _ => ⟨_, rfl⟩, .inr ⟨rfl, rfl⟩⟩)
  | displayChanged firstActivation =>
    cases firstActivation with
    | none => exact .inl (Path.displayChanged s)
    | some first => exact .inl ((Path.displayInputChanged s first).trans (Path.displayChanged _))

end UnDOS.User
