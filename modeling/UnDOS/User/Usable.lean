import UnDOS.User.Reachable

/-!
# Who Gets the Input

Focus, activation and capture name windows that can use them.

- `Named`: the three handles name live windows with given properties, the active window is a root,
  and it is the root of the focused window.
- Taking the input from a subtree (`clear_input_for`) needs nothing of the windows in it.
-/

namespace UnDOS.User

open UnDOS.Lib
open UnDOS.Lib.Forest (Climbs Under Nested)

/-! ## Visibility -/

/-- The same tree with the same visible and minimized windows. -/
structure SameSight (s s' : State) : Prop extends SameTree s s' where
  visible : ∀ i, s'.visible i = s.visible i
  minimized : ∀ i, s'.minimized i = s.minimized i

variable {s s' : State} {w v : Slot}

theorem SameShow.sameSight (h : SameShow s s') : SameSight s s' :=
  ⟨h.toSameTree, h.visible, h.minimized⟩

theorem effectivelyVisible_iff : effectivelyVisible s w = true ↔
      s.visible w = true ∧ ∀ a ∈ ancestors s w, s.visible a = true ∧ s.minimized a = false := by
  unfold effectivelyVisible
  simp only [Bool.and_eq_true, List.all_eq_true, Bool.not_eq_true']

theorem canFocus_iff : canFocus s w = true ↔
      effectivelyVisible s w = true ∧ (s.minimized w = true → (s.window w).parent ≠ 0) := by
  unfold canFocus
  rcases s.minimized w with _ | _
  · simp
  · simp

/-- What a window can be asked for. -/
def CanCapture (s : State) (w : Slot) : Prop := effectivelyVisible s w = true ∧
    s.minimized w = false

/-- At least as much can be seen of a window in another state. -/
structure SeenMore (s s' : State) (v : Slot) : Prop where
  ancestors : ancestors s' v = ancestors s v
  parent : (s'.window v).parent = (s.window v).parent
  visible : ∀ x, x = v ∨ x ∈ User.ancestors s v → s.visible x = true → s'.visible x = true
  minimized : ∀ x, x = v ∨ x ∈ User.ancestors s v → s.minimized x = false → s'.minimized x = false

namespace SeenMore
variable {s s' : State} {v : Slot}

theorem effectivelyVisible (h : SeenMore s s' v) (hv : effectivelyVisible s v = true) :
    User.effectivelyVisible s' v = true := by
  rw [effectivelyVisible_iff] at hv ⊢
  refine ⟨h.visible v (.inl rfl) hv.1, fun a ha => ?_⟩
  rw [h.ancestors] at ha
  exact ⟨h.visible a (.inr ha) (hv.2 a ha).1, h.minimized a (.inr ha) (hv.2 a ha).2⟩

theorem canFocus (h : SeenMore s s' v) (hv : canFocus s v = true) : User.canFocus s' v = true := by
  rw [canFocus_iff] at hv ⊢
  refine ⟨h.effectivelyVisible hv.1, fun hmin => ?_⟩
  rw [h.parent]
  apply hv.2
  rcases hs : s.minimized v with _ | _
  · rw [h.minimized v (.inl rfl) hs] at hmin
    cases hmin
  · rfl

theorem canCapture (h : SeenMore s s' v) (hv : CanCapture s v) : CanCapture s' v :=
  ⟨h.effectivelyVisible hv.1, h.minimized v (.inl rfl) hv.2⟩

end SeenMore

theorem SameSight.seenMore (h : SameSight s s') (v : Slot) : SeenMore s s' v :=
  ⟨by rw [h.ancestors], h.parent v, fun x _ hx => by rw [h.visible]; exact hx,
    fun x _ hx => by rw [h.minimized]; exact hx⟩

theorem SameTree.seenMore_of_not_under (h : SameTree s s')
    (hw : ¬Under (User.ancestors s) v w) (hvisible : ∀ x, x ≠ w → s'.visible x = s.visible x)
    (hminimized : ∀ x, x ≠ w → s'.minimized x = s.minimized x) : SeenMore s s' v := by
  have hne : ∀ x, x = v ∨ x ∈ User.ancestors s v → x ≠ w := by
    rintro x (rfl | hx) heq
    · exact hw (.inl heq)
    · exact hw (.inr (heq ▸ hx))
  exact ⟨by rw [h.ancestors], h.parent v, fun x hx hv => by rw [hvisible x (hne x hx)]; exact hv,
    fun x hx hv => by rw [hminimized x (hne x hx)]; exact hv⟩

/-! ## The three handles -/

/-- The handles name live windows with `F`, `A` and `C`. -/
structure Named (F A C : Slot → Prop) (s : State) : Prop where
  focus : s.focus ≠ 0 →
    ∃ v, lookup s s.focus = some v ∧ s.active = (s.window (root s v)).hwnd ∧ F v
  active : s.active ≠ 0 → ∃ v, lookup s s.active = some v ∧ (s.window v).parent = 0 ∧ A v
  capture : s.capture ≠ 0 → ∃ v, lookup s s.capture = some v ∧ C v

/-- The handles name windows that can use them. -/
def Usable (s : State) : Prop :=
  Named (fun v => canFocus s v = true) (fun v => effectivelyVisible s v = true) (CanCapture s) s

namespace Named
variable {F A C F' A' C' : Slot → Prop} {s s' : State}

theorem imp (h : Named F A C s) (hF : ∀ v, F v → F' v) (hA : ∀ v, A v → A' v)
    (hC : ∀ v, C v → C' v) : Named F' A' C' s where
  focus hne := by
    obtain ⟨v, hv, hactive, hFv⟩ := h.focus hne
    exact ⟨v, hv, hactive, hF v hFv⟩
  active hne := by
    obtain ⟨v, hv, hparent, hAv⟩ := h.active hne
    exact ⟨v, hv, hparent, hA v hAv⟩
  capture hne := by
    obtain ⟨v, hv, hCv⟩ := h.capture hne
    exact ⟨v, hv, hC v hCv⟩

theorem congr (h : Named F A C s) (hsame : SameTree s s') (hfocus : s'.focus = s.focus)
    (hactive : s'.active = s.active) (hcapture : s'.capture = s.capture) : Named F A C s' where
  focus hne := by
    rw [hfocus] at hne
    obtain ⟨v, hv, hroot, hF⟩ := h.focus hne
    refine ⟨v, by rw [hfocus, hsame.lookup]; exact hv, ?_, hF⟩
    unfold root at hroot ⊢
    rw [hactive, hsame.ancestors, hsame.hwnd]
    exact hroot
  active hne := by
    rw [hactive] at hne
    obtain ⟨v, hv, hparent, hA⟩ := h.active hne
    exact ⟨v, by rw [hactive, hsame.lookup]; exact hv, by rw [hsame.parent]; exact hparent, hA⟩
  capture hne := by
    rw [hcapture] at hne
    obtain ⟨v, hv, hC⟩ := h.capture hne
    exact ⟨v, by rw [hcapture, hsame.lookup]; exact hv, hC⟩

theorem usable {P : Slot → Prop} (h : Named (fun v => canFocus s v = true ∧ P v)
      (fun v => effectivelyVisible s v = true ∧ P v) (fun v => CanCapture s v ∧ P v) s')
    (hmore : ∀ v, P v → SeenMore s s' v) : Usable s' :=
  h.imp (fun v hv => (hmore v hv.2).canFocus hv.1) (fun v hv =>
    (hmore v hv.2).effectivelyVisible hv.1)
    fun v hv => (hmore v hv.2).canCapture hv.1

end Named

namespace Usable
variable {s s' : State} {w : Slot}

theorem congr (h : Usable s) (hsame : SameTree s s') (hfocus : s'.focus = s.focus)
    (hactive : s'.active = s.active) (hcapture : s'.capture = s.capture)
    (hmore : ∀ v, SeenMore s s' v) : Usable s' := by
  have hnamed := Named.congr h hsame hfocus hactive hcapture
  exact (hnamed.imp (fun _ hv => ⟨hv, trivial⟩) (fun _ hv => ⟨hv, trivial⟩)
    fun _ hv => ⟨hv, trivial⟩ : Named (fun v => canFocus s v = true ∧ True)
      (fun v => effectivelyVisible s v = true ∧ True) (fun v => CanCapture s v ∧ True) s').usable
    fun v _ => hmore v

theorem moved (h : Usable s) (hmoved : Moved s s') : Usable s' :=
  h.congr hmoved.sameShow.toSameTree (by rw [hmoved.rest]) (by rw [hmoved.rest])
    (by rw [hmoved.rest])
    hmoved.sameShow.sameSight.seenMore

theorem aside (h : Usable s) (haside : Aside s s') : Usable s' :=
  h.congr haside.sameShow.toSameTree (by rw [haside.rest]) (by rw [haside.rest])
    (by rw [haside.rest])
    haside.sameShow.sameSight.seenMore

end Usable

/-! ## Handing the input on -/

theorem setActive_zero (s : State) : setActive s 0 = { s with active := 0 } := by
  rfl

theorem setFocusTo_zero (s : State) : (setFocusTo s 0).2 = { s with focus := 0 } := by
  rfl

theorem clearInputFor_eq (s : State) (w : Slot) : clearInputFor s w = { s with
        capture := if namesWithin s s.capture w then 0 else s.capture
        focus := if namesWithin s s.focus w then 0 else s.focus
        active := if namesWithin s s.active w then 0 else s.active } := by
  -- Which windows a handle names does not depend on the three handles.
  have hnames : ∀ c a f hwnd, namesWithin { s with capture := c, active := a, focus := f } hwnd w =
      namesWithin s hwnd w := fun _ _ _ _ => rfl
  unfold clearInputFor
  simp only [setActive_zero, setFocusTo_zero, setCaptureTo]
  rcases hc : namesWithin s s.capture w with _ | _ <;> rcases hf :
    namesWithin s s.focus w with _ | _ <;>
    rcases ha : namesWithin s s.active w with _ | _ <;> simp [hnames, hf, ha]

theorem Tree.root_under (hT : Tree s) (hv : s.used v = true)
    (hparent : (s.window v).parent = 0) (h : Under (ancestors s) v w) : v = w := by
  rcases h with rfl | h
  · rfl
  · rw [hT.climbs.root ((hT.parent_eq_zero hv).1 hparent)] at h
    cases h

theorem under_root (s : State) (v : Slot) : Under (ancestors s) v (root s v) := by
  unfold root
  rcases h : ancestors s v with _ | ⟨a, A⟩
  · exact .inl rfl
  · right
    rw [h]
    exact List.getLast_mem (List.cons_ne_nil a A)

theorem namesWithin_iff {hwnd : Nat} :
    namesWithin s hwnd w = true ↔ ∃ v, lookup s hwnd = some v ∧ Under (ancestors s) v w := by
  unfold namesWithin
  rcases lookup s hwnd with _ | v
  · simp
  · simp [Under, descendant]

theorem Named.clearInputFor {F A C : Slot → Prop} (h : Named F A C s) (hT : Tree s) (w : Slot) :
    Named (fun v => F v ∧ ¬Under (ancestors s) v w) (fun v => A v ∧ ¬Under (ancestors s) v w)
      (fun v => C v ∧ ¬Under (ancestors s) v w) (clearInputFor s w) := by
  rw [clearInputFor_eq]
  refine ⟨fun hne => ?_, fun hne => ?_, fun hne => ?_⟩
  · dsimp only at hne ⊢
    split at hne
    · exact absurd rfl hne
    · rename_i hout
      obtain ⟨v, hv, hactive, hF⟩ := h.focus hne
      have hvw : ¬Under (ancestors s) v w := fun hu => hout (namesWithin_iff.2 ⟨v, hv, hu⟩)
      rw [if_neg hout]
      refine ⟨v, hv, ?_, hF, hvw⟩
      show (if namesWithin s s.active w then 0 else s.active) = (s.window (root s v)).hwnd
      rw [if_neg, hactive]
      -- The active window is the root of the focused one, which is outside.
      intro hin
      obtain ⟨r, hr, hrw⟩ := namesWithin_iff.1 hin
      obtain ⟨r', hr', hparent, -⟩ := h.active fun hzero => by
        rw [hzero] at hr
        cases hr
      obtain rfl : r' = r := Option.some.inj (hr'.symm.trans hr)
      obtain rfl := hT.root_under (lookup_iff.1 hr).1 hparent hrw
      have hroot : root s v = r' := by
        have hused : s.used (root s v) = true := by
          rcases under_root s v with heq | hmem
          · rw [← heq]
            exact (lookup_iff.1 hv).1
          · exact hT.ancestor_used hmem
        have hl := hT.lookup_hwnd hused
        rw [← hactive, hr] at hl
        exact (Option.some.inj hl).symm
      exact hvw (hroot ▸ under_root s v)
  · dsimp only at hne ⊢
    split at hne
    · exact absurd rfl hne
    · rename_i hout
      obtain ⟨v, hv, hparent, hA⟩ := h.active hne
      rw [if_neg hout]
      exact ⟨v, hv, hparent, hA, fun hu => hout (namesWithin_iff.2 ⟨v, hv, hu⟩)⟩
  · split at hne
    · exact absurd rfl hne
    · rename_i hout
      obtain ⟨v, hv, hC⟩ := h.capture hne
      rw [if_neg hout]
      exact ⟨v, hv, hC, fun hu => hout (namesWithin_iff.2 ⟨v, hv, hu⟩)⟩

theorem Tree.root_shown (hT : Tree s) (hv : s.used v = true)
    (hshown : effectivelyVisible s v = true) :
    s.used (root s v) = true ∧ effectivelyVisible s (root s v) = true ∧
      (s.window (root s v)).parent = 0 := by
  have hroot : parentOf s (root s v) = none := hT.climbs.top v
  have hboth : s.used (root s v) = true ∧ s.visible (root s v) = true := by
    rw [effectivelyVisible_iff] at hshown
    rcases under_root s v with heq | hmem
    · rw [← heq]
      exact ⟨hv, hshown.1⟩
    · exact ⟨hT.ancestor_used hmem, (hshown.2 _ hmem).1⟩
  refine ⟨hboth.1, ?_, (hT.parent_eq_zero hboth.1).2 hroot⟩
  rw [effectivelyVisible_iff, hT.climbs.root hroot]
  exact ⟨hboth.2, fun a ha => (List.not_mem_nil ha).elim⟩

/-- The focus goes where it is asked for, or to what can have it. -/
theorem Usable.setFocusTo (h : Usable s) (hT : Tree s) (hwnd : Nat) :
    Usable (setFocusTo s hwnd).2 := by
  unfold User.setFocusTo
  rcases hl : lookup s hwnd with _ | v
  · dsimp only
    split
    · exact h
    · exact ⟨absurd rfl, h.active, h.capture⟩
  · dsimp only
    split
    · exact h
    · rename_i hfocus
      have hcan : canFocus s v = true := by simpa using hfocus
      have hshown := (canFocus_iff.1 hcan).1
      have hused := (lookup_iff.1 hl).1
      split
      · exact h
      · unfold setActive
        have hl' : lookup { s with focus := hwnd } hwnd = some v := hl
        have hshown' : effectivelyVisible { s with focus := hwnd } v = true := hshown
        rw [hl']
        dsimp only
        rw [if_pos hshown']
        have hT' : Tree { s with focus := hwnd } :=
          (Handed.handles s s.capture s.active hwnd).tree hT
        -- The branch of the window is raised, which changes nothing of what is shown.
        have hraise := Handed.raiseBranch hT' v
        have hshow : SameShow s (raiseBranch { s with focus := hwnd } v) :=
          (Handed.handles s s.capture s.active hwnd).sameShow.trans hraise.sameShow
        have hfocus' : (raiseBranch { s with focus := hwnd } v).focus = hwnd := by
          obtain ⟨links, top, heq⟩ := (hT'.raiseBranch v).2
          rw [heq]
        have hcapture : (raiseBranch { s with focus := hwnd } v).capture = s.capture := by
          obtain ⟨links, top, heq⟩ := (hT'.raiseBranch v).2
          rw [heq]
        generalize raiseBranch { s with focus := hwnd } v = t at hshow hfocus' hcapture
        obtain ⟨hrused, hrshown, hrparent⟩ := hT.root_shown hused hshown
        refine ⟨fun _ => ⟨v, ?_, rfl, ?_⟩, fun _ => ⟨root t v, ?_, ?_, ?_⟩, fun hne => ?_⟩
        · show lookup t t.focus = some v
          rw [hfocus', hshow.lookup]
          exact hl
        · exact (hshow.canFocus v).trans hcan
        · show lookup t (t.window (root t v)).hwnd = some (root t v)
          rw [hshow.lookup, hshow.hwnd, hshow.root]
          exact hT.lookup_hwnd hrused
        · rw [hshow.parent, hshow.root]
          exact hrparent
        · show effectivelyVisible t (root t v) = true
          rw [hshow.effectivelyVisible, hshow.root]
          exact hrshown
        · have hne' : s.capture ≠ 0 := by rw [← hcapture]; exact hne
          obtain ⟨c, hc, hcan'⟩ := h.capture hne'
          refine ⟨c, ?_, (hshow.sameSight.seenMore c).canCapture hcan'⟩
          show lookup t t.capture = some c
          rw [hcapture, hshow.lookup]
          exact hc

/-! ## Every part keeps the handles usable -/

theorem Usable.clear {t : State} (h : Usable s) (hT : Tree t) (hsame : SameTree s t)
    (hfocus : t.focus = s.focus) (hactive : t.active = s.active) (hcapture : t.capture = s.capture)
    (hvisible : ∀ x, x ≠ w → t.visible x = s.visible x)
    (hminimized : ∀ x, x ≠ w → t.minimized x = s.minimized x) : Usable (clearInputFor t w) := by
  have hnamed := (Named.congr h hsame hfocus hactive hcapture).clearInputFor hT w
  have hshow := (Handed.clearInputFor hT w).sameShow
  refine hnamed.usable fun v hv => ?_
  rw [hsame.ancestors] at hv
  refine (hsame.trans hshow.toSameTree).seenMore_of_not_under hv (fun x hx => ?_) fun x hx => ?_
  · rw [hshow.visible]
    exact hvisible x hx
  · rw [hshow.minimized]
    exact hminimized x hx

theorem setVisible_visible_ne {x : Slot} (hx : x ≠ w) (b : Bool) :
    (setVisible s w b).visible x = s.visible x := by
  unfold State.visible setVisible
  rw [setWindow_ne hx]

theorem setVisible_minimized (s : State) (w x : Slot) (b : Bool) :
    (setVisible s w b).minimized x = s.minimized x := by
  unfold State.minimized setVisible
  by_cases hx : x = w
  · subst hx
    rw [setWindow_self]
  · rw [setWindow_ne hx]

theorem setVisible_visible_self (s : State) (w : Slot) (b : Bool) :
    (setVisible s w b).visible w = b := by
  unfold State.visible setVisible
  rw [setWindow_self]

/-- A new state of one window. -/
theorem Usable.changedState (h : Usable s) (hT : Tree s) (w : Slot) (next : ShowState) :
    Usable (changedState s w next) := by
  have henter := Edited.enterState s w next
  have hstyle : ∀ x, ((enterState s w next).window x).style = (s.window x).style := by
    intro x
    by_cases hx : x = w
    · subst hx
      obtain ⟨n, hself⟩ := enterState_self s x next
      rw [hself]
    · rw [enterState_ne hx]
  have hmoved := Moved.moveTo (enterState s w next) w
    (stateTarget (enterState s w next) w (fillBounds s w) next)
  have hfocus : (enterState s w next).focus = s.focus := by rw [enterState_rest]
  have hactive : (enterState s w next).active = s.active := by rw [enterState_rest]
  have hcapture : (enterState s w next).capture = s.capture := by rw [enterState_rest]
  have hstate : ((enterState s w next).window w).state = next := by
    obtain ⟨n, hself⟩ := enterState_self s w next
    rw [hself]
  have hother : ∀ x, x ≠ w → ((enterState s w next).window x).state = (s.window x).state :=
    fun x hx => by rw [enterState_ne hx]
  unfold User.changedState
  dsimp only
  generalize moveTo (enterState s w next) w
    (stateTarget (enterState s w next) w (fillBounds s w) next) = r at hmoved ⊢
  obtain ⟨_ | e, moved⟩ := r
  · -- The move is made.
    dsimp only at hmoved ⊢
    generalize ((s.window w).rect.sameSize _ && loosens s _ w) = loose
    have hloose : Moved (enterState s w next) (moved.loosen loose) :=
      hmoved.trans (Moved.loosen moved loose)
    generalize moved.loosen loose = t at hloose ⊢
    have hshow := hloose.sameShow
    have hsame : SameTree s t := henter.toSameTree.trans hshow.toSameTree
    have hvisible : ∀ x, t.visible x = s.visible x := fun x => by
      unfold State.visible
      rw [hshow.style, hstyle]
    have hminimized : ∀ x, x ≠ w → t.minimized x = s.minimized x := fun x hx => by
      unfold State.minimized
      rw [hshow.state, hother x hx]
    have htfocus : t.focus = s.focus := by rw [hloose.rest]; exact hfocus
    have htactive : t.active = s.active := by rw [hloose.rest]; exact hactive
    have htcapture : t.capture = s.capture := by rw [hloose.rest]; exact hcapture
    split
    · exact h.clear (hloose.tree (henter.tree hT)) hsame htfocus htactive htcapture
        (fun x _ => hvisible x) hminimized
    · rename_i hnext
      refine h.congr hsame htfocus htactive htcapture fun v => ?_
      refine ⟨by rw [hsame.ancestors], hsame.parent v, fun x _ hx => by rw [hvisible]; exact hx,
        fun x _ hx => ?_⟩
      by_cases hxw : x = w
      · subst hxw
        unfold State.minimized
        rw [hshow.state, hstate]
        simpa using hnext
      · rw [hminimized x hxw]
        exact hx
  · -- The move is undone, and with it the state.
    dsimp only at hmoved ⊢
    have hshow := hmoved.sameShow
    have hsame := (henter.toSameTree.trans hshow.toSameTree).trans
      (Edited.leaveState moved w (s.window w)).toSameTree
    have hmfocus : moved.focus = s.focus := by rw [hmoved.rest]; exact hfocus
    have hmactive : moved.active = s.active := by rw [hmoved.rest]; exact hactive
    have hmcapture : moved.capture = s.capture := by rw [hmoved.rest]; exact hcapture
    refine h.congr hsame hmfocus hmactive hmcapture fun v =>
      SameSight.seenMore ⟨hsame, fun x => ?_, fun x => ?_⟩ v
    · unfold State.visible leaveState
      by_cases hx : x = w
      · subst hx
        rw [setWindow_self]
        rw [hshow.style, hstyle]
      · rw [setWindow_ne hx, hshow.style, hstyle]
    · unfold State.minimized leaveState
      by_cases hx : x = w
      · subst hx
        rw [setWindow_self]
      · rw [setWindow_ne hx, hshow.state, hother x hx]

theorem Usable.reframe (h : Usable s) (w : Slot) {f : Window → Window}
    (hf : ∀ o, ∃ style menu, f o = { o with style, menu } ∧ style.visible = o.style.visible) :
    Usable (reframe s w f).1 := by
  have hsame := (Edited.reframe s w hf).toSameTree
  refine h.congr hsame rfl rfl rfl fun v => SameSight.seenMore ⟨hsame, fun x => ?_, fun x => ?_⟩ v
  · show ((s.setWindow w f).window x).style.visible = _
    by_cases hx : x = w
    · subst hx
      obtain ⟨style, menu, heq, hvisible⟩ := hf (s.window x)
      rw [setWindow_self, heq]
      exact hvisible
    · rw [setWindow_ne hx]
      rfl
  · show (((s.setWindow w f).window x).state == .minimized) = _
    by_cases hx : x = w
    · subst hx
      obtain ⟨style, menu, heq, -⟩ := hf (s.window x)
      rw [setWindow_self, heq]
      rfl
    · rw [setWindow_ne hx]
      rfl

theorem Usable.drop (h : Usable s) (hT : Tree s) (hw : s.used w = true)
    (hleaf : Leaf s w) (hhidden : s.visible w = false) : Usable (dropWindow s w) := by
  have hatom : Atom (fun _ => False) s (dropWindow s w) := Atom.drop hw hleaf hhidden
  obtain ⟨hT', hshrunk⟩ := hatom.keeps hT
  have hne : ∀ v, effectivelyVisible s v = true → v ≠ w := by
    intro v hv heq
    rw [heq, effectivelyVisible_iff, hhidden] at hv
    cases hv.1
  have hlookup : ∀ {hwnd v}, lookup s hwnd = some v → effectivelyVisible s v = true →
      lookup (dropWindow s w) hwnd = some v := by
    intro hwnd v hl hv
    obtain ⟨hused, heq⟩ := lookup_iff.1 hl
    exact lookup_iff.2 ⟨(dropWindow_used s w v).2 ⟨hused, hne v hv⟩, heq⟩
  have hmore : ∀ {hwnd v}, lookup s hwnd = some v → effectivelyVisible s v = true →
      ancestors (dropWindow s w) v = ancestors s v ∧ SeenMore s (dropWindow s w) v := by
    intro hwnd v hl hv
    have hanc := hshrunk.ancestors hT hT' (lookup_iff.1 (hlookup hl hv)).1
    exact ⟨hanc, hanc, rfl, fun _ _ => id, fun _ _ => id⟩
  refine ⟨fun hzero => ?_, fun hzero => ?_, fun hzero => ?_⟩
  · obtain ⟨v, hv, hactive, hfocus⟩ := h.focus hzero
    have hshown := (canFocus_iff.1 hfocus).1
    obtain ⟨hanc, hseen⟩ := hmore hv hshown
    refine ⟨v, hlookup hv hshown, ?_, hseen.canFocus hfocus⟩
    unfold root at hactive ⊢
    rw [hanc]
    exact hactive
  · obtain ⟨v, hv, hparent, hshown⟩ := h.active hzero
    exact ⟨v, hlookup hv hshown, hparent, (hmore hv hshown).2.effectivelyVisible hshown⟩
  · obtain ⟨v, hv, hcan⟩ := h.capture hzero
    exact ⟨v, hlookup hv hcan.1, (hmore hv hcan.1).2.canCapture hcan⟩

theorem Usable.inserted (h : Usable s) (hT : Tree s) (hinsert : Inserted s s') : Usable s' := by
  obtain ⟨i, window, hi, hparent, -, -, -, -, rfl⟩ := hinsert
  have hrestacked := (hT.insert hi hparent).2
  have hne : ∀ {hwnd v}, lookup s hwnd = some v → v ≠ i := by
    intro hwnd v hl heq
    have hused := (lookup_iff.1 hl).1
    rw [heq, hi] at hused
    cases hused
  have hmore : ∀ {hwnd v}, lookup s hwnd = some v → SeenMore s (enterWindow s i window) v := by
    intro hwnd v hl
    have hold : ∀ x, x = v ∨ x ∈ ancestors s v →
        (enterWindow s i window).window x = s.window x := by
      rintro x (rfl | hx)
      · exact enterWindow_window_ne (hne hl)
      · refine enterWindow_window_ne fun heq => ?_
        have hused := hT.ancestor_used hx
        rw [heq, hi] at hused
        cases hused
    refine ⟨hT.ancestors_enter hi hparent (lookup_iff.1 hl).1, by rw [hold v (.inl rfl)],
      fun x hx hv => ?_, fun x hx hv => ?_⟩
    · unfold State.visible
      rw [hold x hx]
      exact hv
    · unfold State.minimized
      rw [hold x hx]
      exact hv
  have hentered : Usable (enterWindow s i window) := by
    refine ⟨fun hzero => ?_, fun hzero => ?_, fun hzero => ?_⟩
    · obtain ⟨v, hv, hactive, hfocus⟩ := h.focus hzero
      refine ⟨v, (enterWindow_lookup (hne hv)).2 hv, ?_, (hmore hv).canFocus hfocus⟩
      have hroot : root s v ≠ i := by
        rcases under_root s v with heq | hmem
        · rw [← heq]
          exact hne hv
        · intro heq
          have hused := hT.ancestor_used hmem
          rw [heq, hi] at hused
          cases hused
      have hsameRoot : root (enterWindow s i window) v = root s v := by
        unfold root
        rw [(hmore hv).ancestors]
      rw [hsameRoot, enterWindow_window_ne hroot]
      exact hactive
    · obtain ⟨v, hv, hparent', hshown⟩ := h.active hzero
      exact ⟨v, (enterWindow_lookup (hne hv)).2 hv,
        by rw [enterWindow_window_ne (hne hv)]; exact hparent',
          (hmore hv).effectivelyVisible hshown⟩
    · obtain ⟨v, hv, hcan⟩ := h.capture hzero
      exact ⟨v, (enterWindow_lookup (hne hv)).2 hv, (hmore hv).canCapture hcan⟩
  have hshow := hrestacked.sameShow
  obtain ⟨links, top, heq⟩ := hrestacked
  refine hentered.congr hshow.toSameTree ?_ ?_ ?_ hshow.sameSight.seenMore
  · rw [heq]
  · rw [heq]
  · rw [heq]

theorem Usable.atom {μ : Nat → Prop} (hT : Tree s) (h : Usable s) (ha : Atom μ s s') :
    Usable s' := by
  cases ha with
  | aside haside => exact h.aside haside
  | focus hwnd => exact h.setFocusTo hT hwnd
  | unfocus =>
    exact ⟨absurd rfl, absurd rfl, h.capture⟩
  | @capture w hw hshown =>
    exact ⟨h.focus, h.active, fun _ => ⟨w, hT.lookup_hwnd hw, hshown⟩⟩
  | release => exact ⟨h.focus, h.active, absurd rfl⟩
  | @reveal w hw =>
    refine h.congr (Edited.setVisible s w true).toSameTree rfl rfl rfl fun v => ?_
    refine ⟨by rw [(Edited.setVisible s w true).ancestors], (Edited.setVisible s w true).parent v,
      fun x _ hx => ?_, fun x _ hx => by rw [setVisible_minimized]; exact hx⟩
    by_cases hxw : x = w
    · subst hxw
      exact setVisible_visible_self s x true
    · rw [setVisible_visible_ne hxw]
      exact hx
  | @hide w hw =>
    have hedit := Edited.setVisible s w false
    exact h.clear (hedit.tree hT) hedit.toSameTree rfl rfl rfl
      (fun x hx => setVisible_visible_ne hx false) fun x _ => setVisible_minimized s w x false
  | @doom w hw =>
    have hclear := (Handed.clearInputFor hT w).sameShow
    have hedit := Edited.setVisible (clearInputFor s w) w false
    have hnamed := (Named.clearInputFor h hT w).congr hedit.toSameTree rfl rfl rfl
    refine hnamed.usable fun v hv => ?_
    refine (hclear.toSameTree.trans hedit.toSameTree).seenMore_of_not_under hv (fun x hx => ?_)
      fun x hx => ?_
    · rw [setVisible_visible_ne hx, hclear.visible]
    · rw [setVisible_minimized, hclear.minimized]
  | @move w rect hw hfree => exact h.moved (Moved.moveTo s w rect)
  | @place w rect hw => exact h.moved (Moved.movedWindow s w rect)
  | @save w rect hw hrestored => exact h.moved (Moved.setWindow s w fun _ => ⟨_, _, rfl⟩)
  | @fit w hw hscreen => exact h.moved (Moved.setWindow s w fun _ => ⟨_, _, rfl⟩)
  | @change w next hw hnext hbounds => exact h.changedState hT w next
  | @reframe w f hw hf hshift =>
    exact (h.reframe w hf).moved (Moved.shiftDescendants _ _ _ _)
  | @detach w f hw hf => exact (h.reframe w hf).moved (Moved.refuse _)
  | @refont new hfits =>
    have hedit := Edited.refont s new
    have hsame : ∀ i, ((refont s new).window i).style = (s.window i).style ∧
        ((refont s new).window i).state = (s.window i).state := by
      intro i
      show (refontWindow s new i).style = _ ∧ (refontWindow s new i).state = _
      unfold refontWindow
      split
      · exact ⟨rfl, rfl⟩
      · exact ⟨rfl, rfl⟩
    have hshow : SameShow s (refont s new) :=
      ⟨hedit.toSameTree, fun i => (hsame i).1, fun i => (hsame i).2⟩
    exact h.congr hshow.toSameTree rfl rfl rfl fun v => hshow.sameSight.seenMore v
  | @drop w hw hleaf hhidden => exact h.drop hT hw hleaf hhidden

/-! ## Every run -/

theorem usable_booted (m : Metrics) : Usable (State.booted m) :=
  ⟨absurd rfl, absurd rfl, absurd rfl⟩

theorem usable_reachable {m : Metrics} {run : List (Call × State)}
    (h : Run Step (State.booted m) run) :
    Tree (lastState (State.booted m) run) ∧ Usable (lastState (State.booted m) run) := by
  apply h.invariant (I := fun s => Tree s ∧ Usable s) ⟨tree_booted m, usable_booted m⟩
  rintro s call s' ⟨hT, hU⟩ rfl
  rcases call_path s call with hpath | hinsert
  · exact hpath.invariant (fun _ _ => Usable.atom) hT hU
  · exact ⟨hinsert.tree hT, hU.inserted hT hinsert⟩

/-- In every state that calls lead to, focus, activation and capture name windows that can use
them. -/
theorem input_names_usable_windows (m : Metrics) {run : List (Call × State)}
    (h : Run Step (State.booted m) run) {s : State} (hs : lastState (State.booted m) run = s) :
    (s.focus ≠ 0 → ∃ w, lookup s s.focus = some w ∧ effectivelyVisible s w = true ∧
      ¬(s.minimized w = true ∧ (s.window w).parent = 0) ∧ s.active = (s.window (root s w)).hwnd) ∧
    (s.active ≠ 0 → ∃ w, lookup s s.active = some w ∧ effectivelyVisible s w = true ∧
      (s.window w).parent = 0) ∧
    (s.capture ≠ 0 → ∃ w, lookup s s.capture = some w ∧ effectivelyVisible s w = true ∧
      s.minimized w = false) := by
  obtain ⟨-, hU⟩ := usable_reachable h
  rw [hs] at hU
  refine ⟨fun hne => ?_, fun hne => ?_, fun hne => ?_⟩
  · obtain ⟨w, hw, hactive, hfocus⟩ := hU.focus hne
    obtain ⟨hshown, hmin⟩ := canFocus_iff.1 hfocus
    exact ⟨w, hw, hshown, fun hboth => hmin hboth.1 hboth.2, hactive⟩
  · obtain ⟨w, hw, hparent, hshown⟩ := hU.active hne
    exact ⟨w, hw, hshown, hparent⟩
  · exact hU.capture hne

/-- A window with the focus. -/
theorem input_names_usable_windows_focused :
    ∃ s, lastState (State.booted smallFont) (traced (State.booted smallFont)
        (.setFocus 1 65537 :: oneWindow)) = s ∧ s.focus = 65537 ∧
      ∃ w, lookup s s.focus = some w ∧ effectivelyVisible s w = true ∧
        ¬(s.minimized w = true ∧ (s.window w).parent = 0) ∧ s.active = (s.window (root s w)).hwnd :=
  ⟨_, rfl, by decide +kernel,
    (input_names_usable_windows smallFont (run_traced _ (.setFocus 1 65537 :: oneWindow)) rfl).1
      (by decide +kernel)⟩

end UnDOS.User
