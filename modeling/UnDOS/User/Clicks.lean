import UnDOS.User.Popups

/-!
# Presses that the Menus Take

`mouse_locked` gives each event to `menu_mouse_locked` first.  A press that the menus take sets the
capture, which takes one event more; from then on an event is taken while a popup is open, or over a
menu bar.
-/

namespace UnDOS.User

/-- An event that is no press of the left button, with the windows it finds. -/
structure Move where
  scene : Scene
  x : Int
  y : Int

/-- The popups after a run from the start. -/
def popupsAfter (events : List MenuEvent) : Popups := events.foldl (fun s e => (e.apply s).2.1) {}

/-- The menus take every one of the events. -/
def AllTaken : Popups → List Move → Prop
  | _, [] => True
  | s, m :: rest => (menuMouse m.scene m.x m.y false s).1 = true ∧
      AllTaken (menuMouse m.scene m.x m.y false s).2.1 rest

variable {menus : Menus} {s : Popups} {c : Scene} {x y : Int}

theorem popupsAfter_ok {events : List MenuEvent} (h : ∀ e ∈ events, e.scene.desk.menus = menus) :
    (popupsAfter events).Ok menus :=
  Lib.foldl_keeps (I := fun s : Popups => s.Ok menus)
    (fun _ e he hs => (menuEvent_sound (h e he) hs).1) ⟨by simp, by simp [shown]⟩

/-! ## What the parts keep -/

theorem closeMenu_capture : (closeMenu s).1.mouseCapture = s.mouseCapture := by
  unfold closeMenu
  split <;> rfl

theorem openPopup_keeps (ownerWindow menuHandle : Nat) (parentMenu parentIndex : Nat) :
    (openPopup c ownerWindow menuHandle x y parentMenu parentIndex s).1.mouseCapture =
        s.mouseCapture ∧ (s.openMenu.visible = true →
        (openPopup c ownerWindow menuHandle x y parentMenu parentIndex s).1.openMenu.visible =
          true) := by
  unfold openPopup
  split
  · dsimp only
    split
    · exact ⟨rfl, id⟩
    · exact ⟨rfl, fun _ => (newPopup_opened _ _ _ _ _ _ _ _).1⟩
  · exact ⟨rfl, id⟩

theorem selectMenuItem_capture (menuHandle index : Nat) :
    (selectMenuItem c menuHandle index s).1.mouseCapture = s.mouseCapture := by
  unfold selectMenuItem
  split
  · rfl
  · split
    · split
      · exact (openPopup_keeps _ _ _ _).1
      · rfl
    · split
      · rfl
      · exact closeMenu_capture

theorem selectRow_keeps (levelChanged : Bool) (selected : Int) :
    (selectRow c levelChanged selected s).1.mouseCapture = s.mouseCapture ∧
      (selectRow c levelChanged selected s).1.openMenu.visible = s.openMenu.visible := by
  unfold selectRow
  dsimp only
  split <;> exact ⟨rfl, rfl⟩

theorem backTo_keeps (hs : s.Ok menus) {popup : OpenMenu} {below : List OpenMenu}
    (hvisible : s.openMenu.visible = true) (hsuffix : popup :: below <:+ s.openMenu :: s.stack) :
    (backTo popup below s).1.mouseCapture = s.mouseCapture ∧
      (backTo popup below s).1.openMenu.visible = true := by
  unfold backTo
  split
  · exact ⟨rfl, hvisible⟩
  · refine ⟨rfl, ?_⟩
    rcases List.mem_cons.1 (hsuffix.subset (.head _)) with rfl | hpopup
    exacts [hvisible, hs.visible popup hpopup]

theorem popupAt_live (hs : s.Ok menus) (hc : c.desk.menus = menus) : popupAt c x y s ≠ .stale := by
  intro h
  unfold popupAt at h
  split at h
  · next hvisible =>
    obtain ⟨p, hp, hgone⟩ := popupHit_stale h
    have hknown := hs.known p (by rwa [shown, if_pos hvisible])
    rw [hc, hknown] at hgone
    cases hgone
  · cases h

/-! ## One event -/

theorem press_captures (hs : s.Ok menus) (hc : c.desk.menus = menus)
    (h : (menuMouse c x y true s).1 = true) : (menuMouse c x y true s).2.1.mouseCapture = true := by
  unfold menuMouse at h ⊢
  simp only [Bool.not_true, Bool.false_eq_true, and_false, if_false] at h ⊢
  cases hhit : popupAt c x y s with
  | stale => exact absurd hhit (popupAt_live hs hc)
  | inside popup below =>
    simp only [overPopup, pressRow, if_true]
    split
    · exact selectMenuItem_capture _ _
    · rfl
  | outside =>
    rw [hhit] at h
    cases hbar : menuBarHit c x y with
    | some hit =>
      simp only [overTitle, Effect.andThen, if_true]
      split
      · split
        · exact closeMenu_capture
        · exact (openPopup_keeps _ _ _ _).1
      · split
        · exact closeMenu_capture
        · rfl
    | none =>
      rw [hbar] at h
      dsimp only at h
      split at h <;> simp at h

/-- Without the capture, an event that is no press is taken while a popup is open, or over a menu
bar, and leaves a popup open if one was. -/
theorem hover_taken (hs : s.Ok menus) (hc : c.desk.menus = menus) (hfree : s.mouseCapture = false) :
    ((menuMouse c x y false s).1 = true ↔
        s.openMenu.visible = true ∨ (menuBarHit c x y).isSome = true) ∧
      (menuMouse c x y false s).2.1.mouseCapture = false ∧
      (menuMouse c x y false s).2.1.openMenu.visible = s.openMenu.visible := by
  unfold menuMouse
  simp only [hfree, Bool.false_eq_true, false_and]
  cases hhit : popupAt c x y s with
  | stale => exact absurd hhit (popupAt_live hs hc)
  | inside popup below =>
    obtain ⟨hvisible, hsuffix⟩ := popupAt_inside hhit
    obtain ⟨hcapture, hback⟩ := backTo_keeps hs hvisible hsuffix
    simp only [overPopup, Effect.andThen, pressRow, Bool.false_eq_true, if_false,
      (selectRow_keeps _ _).1, (selectRow_keeps _ _).2, hcapture, hback, hfree, hvisible]
    simp
  | outside =>
    cases hbar : menuBarHit c x y with
    | some hit =>
      simp only [overTitle, Bool.false_eq_true, if_false]
      split
      · next hopen =>
        have hvisible : s.openMenu.visible = true := by
          simp only [Bool.and_eq_true] at hopen
          exact hopen.1.1.1
        obtain ⟨hcapture, hopened⟩ := openPopup_keeps (c := c) (s := s) (x := hit.itemLeft)
          (y := hit.barBottom) (c.window hit.window).hwnd hit.entry.item
          (c.window hit.window).menu hit.index
        simp [hcapture, hopened hvisible, hvisible, hfree]
      · simp [hfree]
    | none => simp [hfree]

/-! ## Whole presses -/

theorem allTaken_iff (hs : s.Ok menus) (hfree : s.mouseCapture = false) {moves : List Move}
    (hmoves : ∀ m ∈ moves, m.scene.desk.menus = menus) :
    AllTaken s moves ↔ s.openMenu.visible = true ∨
      ∀ m ∈ moves, (menuBarHit m.scene m.x m.y).isSome = true := by
  induction moves generalizing s with
  | nil => simp [AllTaken]
  | cons m rest ih =>
    obtain ⟨hm, hrest⟩ := List.forall_mem_cons.1 hmoves
    obtain ⟨htaken, hcapture, hvisible⟩ := hover_taken (x := m.x) (y := m.y) hs hm hfree
    have hok : (menuMouse m.scene m.x m.y false s).2.1.Ok menus := (menuMouse_sound hm hs).1
    rw [AllTaken, htaken, ih hok hcapture hrest, hvisible, List.forall_mem_cons, or_and_left]

/-- After any run on a fixed set of menus, let the menus take a press.  They take all the events up
to the release exactly when the press leaves a popup open, or each of them but the first is over a
menu bar. -/
theorem press_kept_iff {events : List MenuEvent} {moves : List Move}
    (hevents : ∀ e ∈ events, e.scene.desk.menus = menus) (hc : c.desk.menus = menus)
    (hmoves : ∀ m ∈ moves, m.scene.desk.menus = menus)
    (hpress : (menuMouse c x y true (popupsAfter events)).1 = true) :
    AllTaken (menuMouse c x y true (popupsAfter events)).2.1 moves ↔
      (menuMouse c x y true (popupsAfter events)).2.1.openMenu.visible = true ∨
        ∀ m ∈ moves.tail, (menuBarHit m.scene m.x m.y).isSome = true := by
  have hs := popupsAfter_ok hevents
  have hok : (menuMouse c x y true (popupsAfter events)).2.1.Ok menus := (menuMouse_sound hc hs).1
  have hcapture := press_captures hs hc hpress
  generalize (menuMouse c x y true (popupsAfter events)).2.1 = s at hok hcapture
  cases moves with
  | nil => simp [AllTaken]
  | cons m rest =>
    have hfirst : menuMouse m.scene m.x m.y false s =
      (true, { s with mouseCapture := false }, []) :=
      if_pos ⟨hcapture, rfl⟩
    rw [AllTaken, hfirst]
    have hok' : ({ s with mouseCapture := false } : Popups).Ok menus := ⟨hok.visible, hok.known⟩
    simp only [true_and]
    exact allTaken_iff hok' rfl (List.forall_mem_cons.1 hmoves).2

/-- A title is pressed and released, which leaves its popup open. -/
def openTitle : List MenuEvent :=
  [.mouse nestedScene 10 3 true, .mouse nestedScene 10 3 false]

/-- The press that opens the popup keeps all events; the press that closes it keeps the release over
the bar, and not the one elsewhere. -/
theorem press_kept_iff_title :
    AllTaken (menuMouse nestedScene 10 3 true (popupsAfter [])).2.1
        [⟨nestedScene, 200, 200⟩, ⟨nestedScene, 200, 200⟩] ∧
      AllTaken (menuMouse nestedScene 10 3 true (popupsAfter openTitle)).2.1
        [⟨nestedScene, 200, 200⟩, ⟨nestedScene, 10, 3⟩] ∧
      ¬AllTaken (menuMouse nestedScene 10 3 true (popupsAfter openTitle)).2.1
        [⟨nestedScene, 10, 3⟩, ⟨nestedScene, 200, 200⟩] := by
  have hopens : (menuMouse nestedScene 10 3 true (popupsAfter [])).1 = true ∧
      (menuMouse nestedScene 10 3 true (popupsAfter [])).2.1.openMenu.visible = true := by
    decide +kernel
  have hcloses : (menuMouse nestedScene 10 3 true (popupsAfter openTitle)).1 = true ∧
      (menuMouse nestedScene 10 3 true (popupsAfter openTitle)).2.1.openMenu.visible = false := by
    decide +kernel
  have hbar : (menuBarHit nestedScene 10 3).isSome = true ∧
      (menuBarHit nestedScene 200 200).isSome = false := by
    decide +kernel
  have hagain := fun moves hmoves => @press_kept_iff nestedMenus nestedScene 10 3 openTitle moves
    (by simp [openTitle, MenuEvent.scene, nestedScene]) rfl hmoves hcloses.1
  refine ⟨(@press_kept_iff nestedMenus _ _ _ [] _ (by simp) rfl (by simp [nestedScene])
    hopens.1).2 (.inl hopens.2), ?_, fun hkept => ?_⟩
  · rw [hagain _ (by simp [nestedScene])]
    exact .inr fun m hm => by rw [List.mem_singleton.1 hm]; exact hbar.1
  · rcases (hagain _ (by simp [nestedScene])).1 hkept with hopen | hover
    · rw [hcloses.2] at hopen
      cases hopen
    · exact Bool.false_ne_true (hbar.2.symm.trans (hover _ (.head _)))

/-- The title is pressed again, which closes the popup; the pointer moves away, and the release goes
to the window below. -/
theorem release_leaks : (menuMouse nestedScene 10 3 true (popupsAfter openTitle)).1 = true ∧
    ¬ AllTaken (menuMouse nestedScene 10 3 true (popupsAfter openTitle)).2.1
      [⟨nestedScene, 200, 200⟩, ⟨nestedScene, 200, 200⟩] := by
  refine ⟨by decide +kernel, fun h => ?_⟩
  have hrelease := h.2.1
  revert hrelease
  decide +kernel

end UnDOS.User
