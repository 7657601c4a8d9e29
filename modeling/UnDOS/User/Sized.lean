import UnDOS.User.Usable

/-!
# Windows Within the Coordinate Space

A window's rectangle, and the saved one of a minimized or maximized window, is not empty and lies
in the coordinate space.

The checks of a move look at the rectangles of the descendants but not at their saved ones, and a
change of font may leave an icon empty or too tall.  The runs considered here are those in which
that did not happen (`strayed`): then every saved rectangle can be restored.
-/

namespace UnDOS.User

open UnDOS.Kernel (KernelError)
open UnDOS.Lib
open UnDOS.Lib.Forest (Climbs Under Nested)

/-! ## Rectangles -/

/-- Not empty, in the coordinate space and not too large. -/
def Rect.Fine (r : Rect) : Prop := r.inRange = true ∧ r.isEmpty = false

theorem Rect.fine_iff {r : Rect} :
    r.Fine ↔ -32768 ≤ r.left ∧ -32768 ≤ r.top ∧ r.right ≤ 32767 ∧ r.bottom ≤ 32767 ∧
      r.right - r.left ≤ 32767 ∧ r.bottom - r.top ≤ 32767 ∧ r.left < r.right ∧
        r.top < r.bottom := by
  unfold Rect.Fine Rect.inRange Rect.cornersInRange Rect.isEmpty Rect.width Rect.height
    minCoordinate
    maxCoordinate
  rw [Bool.and_eq_true, decide_eq_true_iff, decide_eq_true_iff, decide_eq_false_iff_not]
  omega

theorem Rect.Fine.offset {r : Rect} (h : r.Fine) {dx dy : Int}
    (hcorners : (r.offset dx dy).cornersInRange = true) : (r.offset dx dy).Fine := by
  rw [Rect.fine_iff] at h ⊢
  unfold Rect.cornersInRange Rect.offset minCoordinate maxCoordinate at hcorners
  rw [decide_eq_true_iff] at hcorners
  unfold Rect.offset
  dsimp only at hcorners ⊢
  omega

theorem Rect.Fine.fit {r : Rect} (h : r.Fine) {screen : Rect}
    (hlow : screen.left = 0 ∧ screen.top = 0)
    (hscreen : screen.isEmpty = false) : (fitRect screen r).Fine := by
  rw [Rect.fine_iff] at h ⊢
  unfold Rect.isEmpty at hscreen
  rw [decide_eq_false_iff_not] at hscreen
  unfold fitRect Rect.width Rect.height
  dsimp only
  split_ifs <;> omega

/-! ## The invariant -/

/-- The rectangles of the live windows are fine. -/
structure Sized (s : State) : Prop where
  rect : ∀ i, s.used i = true → (s.window i).rect.Fine
  saved : ∀ i, s.used i = true → (s.window i).state ≠ .restored → (s.window i).restoredRect.Fine
  screen : s.screen.left = 0 ∧ s.screen.top = 0

/-- Fine rectangles, as long as nothing strayed. -/
def SizedUnlessStrayed (s : State) : Prop := s.seen.strayed = false → Sized s

theorem Seen.Grows.not_strayed {a b : Seen} (h : a.Grows b) (hb : b.strayed = false) :
    a.strayed = false :=
  Bool.eq_false_iff.2 fun ha => by
    rw [h.strayed ha] at hb
    cases hb

namespace Sized
variable {s s' : State} {w : Slot}

theorem congr (h : Sized s) (hused : ∀ i, s'.used i = true → s.used i = true)
    (hwindow : ∀ i, s'.used i = true → (s'.window i).rect = (s.window i).rect ∧
      (s'.window i).restoredRect = (s.window i).restoredRect ∧
      (s'.window i).state = (s.window i).state)
    (hscreen : s'.screen = s.screen ∨ s'.screen.left = 0 ∧ s'.screen.top = 0) : Sized s' where
  rect i hi := by
    rw [(hwindow i hi).1]
    exact h.rect i (hused i hi)
  saved i hi hstate := by
    rw [(hwindow i hi).2.2] at hstate
    rw [(hwindow i hi).2.1]
    exact h.saved i (hused i hi) hstate
  screen := by
    rcases hscreen with heq | hlow
    · rw [heq]
      exact h.screen
    · exact hlow

theorem handed (h : Sized s) (hhanded : Handed s s') : Sized s' :=
  h.congr (fun i hi => by rwa [hhanded.sameShow.used] at hi)
    (fun i _ => by rw [hhanded.window]; exact ⟨rfl, rfl, rfl⟩) (.inl (by rw [hhanded.rest]))

theorem setWindow (h : Sized s) {f : Window → Window}
    (hrect : s.used w = true → (f (s.window w)).rect.Fine)
    (hsaved : s.used w = true → (f (s.window w)).state ≠ .restored →
      (f (s.window w)).restoredRect.Fine) : Sized (s.setWindow w f) where
  rect i hi := by
    by_cases hiw : i = w
    · subst hiw
      rw [setWindow_self]
      exact hrect hi
    · rw [setWindow_ne hiw]
      exact h.rect i hi
  saved i hi hstate := by
    by_cases hiw : i = w
    · subst hiw
      rw [setWindow_self] at hstate ⊢
      exact hsaved hi hstate
    · rw [setWindow_ne hiw] at hstate ⊢
      exact h.saved i hi hstate
  screen := h.screen

theorem shiftDescendants (h : Sized s) {dx dy : Int} (hcan : canShift s w dx dy = true)
    (hmark : (shiftDescendants s w dx dy).seen.strayed = false) :
    Sized (shiftDescendants s w dx dy) := by
  have hmarks : ∀ d ∈ descendantsOf s w, (s.window d).strays dx dy = false := by
    intro d hd
    have hor : (s.seen.strayed || (descendantsOf s w).any
        fun d => (s.window d).strays dx dy) = false := hmark
    rw [Bool.or_eq_false_iff, List.any_eq_false] at hor
    exact Bool.eq_false_iff.2 (hor.2 d hd)
  refine ⟨fun i hi => ?_, fun i hi hstate => ?_, h.screen⟩
  · show (if i ∈ descendantsOf s w then (s.window i).shifted dx dy else s.window i).rect.Fine
    split
    · rename_i hin
      exact (h.rect i hi).offset (List.all_eq_true.1 hcan i hin)
    · exact h.rect i hi
  · have hstate' : (if i ∈ descendantsOf s w then (s.window i).shifted dx dy
        else s.window i).state ≠
        .restored := hstate
    show (if i ∈ descendantsOf s w then (s.window i).shifted dx dy
      else s.window i).restoredRect.Fine
    split at hstate'
    · rename_i hin
      rw [if_pos hin]
      -- The saved rectangle was fine before the shift, and the mark says that it still fits.
      have hkeep : (s.window i).state ≠ .restored := hstate'
      have hsaved := h.saved i hi hkeep
      have hcorners := hmarks i hin
      unfold Window.strays at hcorners
      rw [Bool.and_eq_false_iff, Bool.not_eq_false'] at hcorners
      show (if (s.window i).restoredRect.isEmpty = true then (s.window i).restoredRect
        else (s.window i).restoredRect.offset dx dy).Fine
      rw [if_neg (by rw [hsaved.2]; exact Bool.false_ne_true)]
      exact hsaved.offset (hcorners.resolve_left (by simpa using hkeep))
    · rename_i hin
      rw [if_neg hin]
      exact h.saved i hi hstate'

end Sized

/-! ## Moves -/

variable {s s' : State}

theorem Tree.not_mem_descendantsOf (hT : Tree s) (w : Slot) : w ∉ descendantsOf s w := by
  intro hw
  have hmem := (List.mem_filter.1 hw).2
  unfold descendant at hmem
  exact hT.climbs.irrefl (by simpa using hmem)

theorem descendantsOf_congr (h : Edited s s') (w : Slot) :
    descendantsOf s' w = descendantsOf s w := by
  unfold descendantsOf zOrder
  simp only [h.links, h.top, h.descendant]

theorem canShift_setWindow (hT : Tree s) (w : Slot) {f : Window → Window}
    (hf : Edited s (s.setWindow w f)) (dx dy : Int) :
    canShift (s.setWindow w f) w dx dy = canShift s w dx dy := by
  unfold canShift
  rw [descendantsOf_congr hf, Bool.eq_iff_iff, List.all_eq_true, List.all_eq_true]
  refine forall₂_congr fun d hd => ?_
  have hne : d ≠ w := fun heq => hT.not_mem_descendantsOf w (heq ▸ hd)
  rw [setWindow_ne hne]

theorem Sized.placeWindow (h : Sized s) (hT : Tree s) {w : Slot} {rect : Rect}
    (hfine : rect.Fine) (hcan : canShift s w (rect.left - (s.window w).rect.left)
      (rect.top - (s.window w).rect.top) = true)
    (hmark : (placeWindow s w rect).seen.strayed = false) : Sized (placeWindow s w rect) := by
  have hset : Sized (s.setWindow w fun o => { o with rect }) :=
    h.setWindow (fun _ => hfine) fun hw hstate => h.saved w hw hstate
  have hedit := (Moved.setWindow s w (f := fun o => { o with rect }) fun _ => ⟨_, _, rfl⟩).edited
  refine hset.shiftDescendants ?_ hmark
  rw [canShift_setWindow hT w hedit]
  exact hcan

theorem SizedUnlessStrayed.moveWindow (fuel : Nat) (h : SizedUnlessStrayed s)
    (hT : Tree s) (w : Slot) (rect : Rect) : SizedUnlessStrayed (moveWindow fuel s w rect).2 := by
  induction fuel using Nat.strong_induction_on generalizing s w rect with
  | _ fuel ih =>
    have hplace : rect.isEmpty = false → rect.inRange = true →
        canShift s w (rect.left - (s.window w).rect.left) (rect.top - (s.window w).rect.top) =
          true →
        SizedUnlessStrayed (placeWindow s w rect) := by
      intro hempty hrange hcan hmark
      have hs := h ((Moved.placeWindow s w rect).seen.not_strayed hmark)
      exact hs.placeWindow hT ⟨hrange, hempty⟩ hcan hmark
    rcases moveWindow_cases fuel s w rect with ⟨-, hr⟩ | ⟨-, -, hr⟩ | ⟨-, -, -, hr⟩ |
      ⟨-, hempty, hrange, hcan, ⟨-, hr⟩ | ⟨n, rfl, -, -, t, ht, hr⟩⟩
    · rw [hr]
      exact h
    · rw [hr]
      exact h
    · rw [hr]
      exact fun hmark => (h hmark).congr (fun _ => id) (fun _ _ => ⟨rfl, rfl, rfl⟩) (.inl rfl)
    · rw [hr]
      exact hplace hempty hrange hcan
    · -- The loops over the children: each round moves a window of a sound tree.
      have hround : ∀ (u : State) (p : Slot × Rect), Tree u ∧ SizedUnlessStrayed u →
          Tree (User.moveWindow n u p.1 p.2).2 ∧
            SizedUnlessStrayed (User.moveWindow n u p.1 p.2).2 :=
        fun u p hu => ⟨(Moved.moveWindow n u p.1 p.2).tree hu.1,
          ih n (Nat.lt_succ_self n) hu.2 hu.1 p.1 p.2⟩
      have htree : Tree (User.placeWindow s w rect) := (Moved.placeWindow s w rect).tree hT
      have hfit : Tree t ∧ SizedUnlessStrayed t := by
        rw [ht]
        exact foldl_keeps (I := fun u => Tree u ∧ SizedUnlessStrayed u)
          (fun u c _ hu => hround u (c, _) hu) ⟨htree, hplace hempty hrange hcan⟩
      rw [hr]
      exact (foldl_keeps (I := fun u => Tree u ∧ SizedUnlessStrayed u)
        (fun u p _ hu => hround u p hu) hfit).2

theorem SizedUnlessStrayed.moveTo (h : SizedUnlessStrayed s) (hT : Tree s) (w : Slot)
    (rect : Rect) : SizedUnlessStrayed (moveTo s w rect).2 :=
  h.moveWindow 64 hT w rect

/-! ## Every part keeps the rectangles fine -/

theorem SizedUnlessStrayed.congr (h : SizedUnlessStrayed s) (hseen : s'.seen = s.seen)
    (hused : ∀ i, s'.used i = true → s.used i = true)
    (hwindow : ∀ i, s'.used i = true → (s'.window i).rect = (s.window i).rect ∧
      (s'.window i).restoredRect = (s.window i).restoredRect ∧
      (s'.window i).state = (s.window i).state)
    (hscreen : s'.screen = s.screen ∨ s'.screen.left = 0 ∧ s'.screen.top = 0) :
    SizedUnlessStrayed s' :=
  fun hmark => (h (hseen ▸ hmark)).congr hused hwindow hscreen

theorem SizedUnlessStrayed.handed (h : SizedUnlessStrayed s) (hhanded : Handed s s') :
    SizedUnlessStrayed s' :=
  fun hmark => (h (hhanded.seen ▸ hmark)).handed hhanded

theorem SizedUnlessStrayed.setVisible (h : SizedUnlessStrayed s) (w : Slot) (b : Bool) :
    SizedUnlessStrayed (setVisible s w b) :=
  fun hmark => (h hmark).setWindow (fun hw => (h hmark).rect w hw)
    fun hw hstate => (h hmark).saved w hw hstate

theorem SizedUnlessStrayed.loosen (h : SizedUnlessStrayed s) (b : Bool) :
    SizedUnlessStrayed (s.loosen b) :=
  fun hmark => (h hmark).congr (fun _ => id) (fun _ _ => ⟨rfl, rfl, rfl⟩) (.inl rfl)

theorem SizedUnlessStrayed.reframe (h : SizedUnlessStrayed s) (w : Slot) {f : Window → Window}
    (hf : ∀ o, ∃ style menu, f o = { o with style, menu } ∧ style.visible = o.style.visible) :
    SizedUnlessStrayed (reframe s w f).1 := by
  intro hmark
  obtain ⟨style, menu, heq, -⟩ := hf (s.window w)
  have hset : Sized (s.setWindow w f) := by
    refine (h hmark).setWindow (fun hw => ?_) fun hw hstate => ?_
    · rw [heq]
      exact (h hmark).rect w hw
    · rw [heq] at hstate ⊢
      exact (h hmark).saved w hw hstate
  exact hset.congr (fun _ => id) (fun _ _ => ⟨rfl, rfl, rfl⟩) (.inl rfl)

theorem SizedUnlessStrayed.changedState (h : SizedUnlessStrayed s) (hT : Tree s)
    {w : Slot} (hw : s.used w = true) (next : ShowState) :
    SizedUnlessStrayed (changedState s w next) := by
  have hedit := Edited.enterState s w next
  have hseen : (enterState s w next).seen = s.seen := by rw [enterState_rest]
  have hentered : SizedUnlessStrayed (enterState s w next) := by
    intro hmark
    have hs := h (hseen ▸ hmark)
    obtain ⟨n, hself⟩ := enterState_self s w next
    refine ⟨fun i hi => ?_, fun i hi hstate => ?_, by rw [enterState_rest]; exact hs.screen⟩
    · rw [hedit.used] at hi
      by_cases hiw : i = w
      · subst hiw
        rw [hself]
        exact hs.rect i hi
      · rw [enterState_ne hiw]
        exact hs.rect i hi
    · rw [hedit.used] at hi
      by_cases hiw : i = w
      · subst hiw
        rw [hself]
        split
        · exact hs.rect i hi
        · exact hs.saved i hi ‹_›
      · rw [enterState_ne hiw] at hstate ⊢
        exact hs.saved i hi hstate
  have hmove := hentered.moveTo (hedit.tree hT) w
    (stateTarget (enterState s w next) w (fillBounds s w) next)
  have hmoved := Moved.moveTo (enterState s w next) w
    (stateTarget (enterState s w next) w (fillBounds s w) next)
  unfold User.changedState
  dsimp only
  generalize User.moveTo (enterState s w next) w
    (stateTarget (enterState s w next) w (fillBounds s w) next) = r at hmove hmoved ⊢
  obtain ⟨_ | e, moved⟩ := r
  · dsimp only at hmoved ⊢
    generalize ((s.window w).rect.sameSize _ && loosens s _ w) = loose
    split
    · refine (hmove.loosen loose).handed (Handed.clearInputFor ?_ w)
      exact (Moved.loosen moved loose).tree (hmoved.tree (hedit.tree hT))
    · exact hmove.loosen loose
  · intro hmark
    have hm : Sized moved := hmove hmark
    have hs := h (hseen ▸ hmoved.seen.not_strayed hmark)
    exact hm.setWindow (hm.rect w) fun _ hstate => hs.saved w hw hstate

/-- With `fontFits` only an icon can leave the range. -/
theorem SizedUnlessStrayed.refont (h : SizedUnlessStrayed s) {new : Metrics}
    (hfits : fontFits s new = true) : SizedUnlessStrayed (refont s new) := by
  intro hmark
  have hor : (s.seen.strayed || (List.finRange 64).any fun w =>
      s.used w && (s.window w).outgrows (fontChange s new w).2) = false := hmark
  rw [Bool.or_eq_false_iff, List.any_eq_false] at hor
  have hs := h hor.1
  have hwindow : ∀ i, s.used i = true → (User.refont s new).window i =
      (s.window i).refonted (fontChange s new i).1 (fontChange s new i).2 := fun i hi => if_pos hi
  -- `fontFits` was asked about every window before the first one moved.
  have hcheck : ∀ i, s.used i = true →
      shiftedRectInRange (s.window i).rect (fontChange s new i).1 (fontChange s new i).2 = true ∧
      shiftedRectInRange (s.window i).restoredRect (fontChange s new i).1 0 = true := by
    intro i hi
    have hall := List.all_eq_true.1 hfits i (List.mem_finRange i)
    rw [hi] at hall
    simp only [Bool.not_true, Bool.false_or, Bool.and_eq_true] at hall
    exact ⟨hall.1.2, hall.2⟩
  refine ⟨fun i hi => ?_, fun i hi hstate => ?_, hs.screen⟩
  · have hused : s.used i = true := hi
    have hrect := hs.rect i hused
    -- An icon keeps a height, and the other windows keep theirs.
    have hheight : 0 < (s.window i).rect.height + (fontChange s new i).2 ∧
        (s.window i).rect.height + (fontChange s new i).2 ≤ maxCoordinate := by
      by_cases hicon : (s.window i).state = .minimized
      · have hmarked := hor.2 i (List.mem_finRange i)
        rw [hused] at hmarked
        unfold Window.outgrows at hmarked
        simpa [hicon] using hmarked
      · have hgrowth : (fontChange s new i).2 = 0 := if_neg hicon
        rw [Rect.fine_iff] at hrect
        unfold Rect.height maxCoordinate
        omega
    have hrange := (hcheck i hused).1
    unfold shiftedRectInRange minCoordinate maxCoordinate at hrange
    rw [hrect.2, Bool.false_or, decide_eq_true_iff] at hrange
    unfold Rect.height maxCoordinate at hheight
    rw [hwindow i hused]
    rw [Rect.fine_iff] at hrect ⊢
    unfold Window.refonted Window.shifted Rect.offset
    dsimp only
    omega
  · have hused : s.used i = true := hi
    rw [hwindow i hused] at hstate ⊢
    have hsaved := hs.saved i hused hstate
    have hrange := (hcheck i hused).2
    show (if (s.window i).restoredRect.isEmpty = true then (s.window i).restoredRect
      else (s.window i).restoredRect.offset 0 (fontChange s new i).1).Fine
    rw [if_neg (by rw [hsaved.2]; exact Bool.false_ne_true)]
    apply hsaved.offset
    unfold shiftedRectInRange at hrange
    rw [hsaved.2, Bool.false_or, decide_eq_true_iff] at hrange
    unfold Rect.cornersInRange Rect.offset
    rw [decide_eq_true_iff]
    dsimp only
    omega

theorem SizedUnlessStrayed.atom {μ : Nat → Prop} (hT : Tree s)
    (h : SizedUnlessStrayed s) (ha : Atom μ s s') : SizedUnlessStrayed s' := by
  cases ha with
  | aside haside =>
    refine h.congr (by rw [haside.rest]) (fun i hi => by rwa [haside.sameShow.used] at hi) ?_
      haside.screen
    intro i _
    obtain ⟨t, ht⟩ := haside.window i
    rw [ht]
    exact ⟨rfl, rfl, rfl⟩
  | focus hwnd => exact h.handed (Handed.setFocusTo hT hwnd)
  | unfocus =>
    have hfocus := Handed.setFocusTo hT 0
    exact h.handed (hfocus.trans (Handed.setActive (hfocus.tree hT) 0))
  | capture _ _ => exact h.handed (Handed.handles s _ _ _)
  | release => exact h.handed (Handed.handles s _ _ _)
  | reveal _ => exact h.setVisible _ true
  | @hide w _ =>
    exact (h.setVisible w false).handed
      (Handed.clearInputFor ((Edited.setVisible s w false).tree hT) w)
  | @doom w _ => exact (h.handed (Handed.clearInputFor hT w)).setVisible w false
  | move rect _ _ => exact h.moveTo hT _ rect
  | @place w rect _ =>
    have hmove := h.moveTo hT w rect
    unfold movedWindow
    generalize User.moveTo s w rect = r at hmove ⊢
    obtain ⟨_ | e, moved⟩ := r
    · exact hmove.loosen _
    · exact hmove
  | @save w rect _ hrestored =>
    exact fun hmark => (h hmark).setWindow (fun hw => (h hmark).rect w hw)
      fun _ hstate => absurd hrestored hstate
  | @fit w _ hscreen =>
    intro hmark
    have hs := h hmark
    refine hs.setWindow (hs.rect w) fun hw hstate => ?_
    have hsaved := hs.saved w hw hstate
    rw [if_neg (by rw [hsaved.2]; exact Bool.false_ne_true)]
    exact hsaved.fit hs.screen hscreen
  | change hw _ _ => exact h.changedState hT hw _
  | @reframe w f _ hf hshift =>
    intro hmark
    have hs := (h.reframe w hf) ((Moved.shiftDescendants _ _ _ _).seen.not_strayed hmark)
    exact hs.shiftDescendants hshift hmark
  | @detach w f _ hf =>
    exact fun hmark => ((h.reframe w hf) hmark).congr (fun _ => id) (fun _ _ => ⟨rfl, rfl, rfl⟩)
      (.inl rfl)
  | refont hfits => exact h.refont hfits
  | @drop w _ _ _ =>
    exact h.congr rfl (fun i hi => ((dropWindow_used s w i).1 hi).1) (fun _ _ => ⟨rfl, rfl, rfl⟩)
      (.inl rfl)

/-! ## Every run -/

theorem SizedUnlessStrayed.inserted (h : SizedUnlessStrayed s) (hT : Tree s)
    (hinsert : Inserted s s') : SizedUnlessStrayed s' := by
  obtain ⟨i, window, hi, hparent, hstate, hrange, hempty, -, rfl⟩ := hinsert
  obtain ⟨links, top, heq⟩ := (hT.insert hi hparent).2
  rw [heq]
  intro hmark
  have hs := h hmark
  refine ⟨fun j hj => ?_, fun j hj hstate' => ?_, hs.screen⟩
  · by_cases hji : j = i
    · subst hji
      rw [enterWindow_window_self]
      exact ⟨hrange, hempty⟩
    · have hused : (enterWindow s i window).used j = true := hj
      rw [enterWindow_used_ne hji] at hused
      rw [enterWindow_window_ne hji]
      exact hs.rect j hused
  · by_cases hji : j = i
    · subst hji
      have hnew : ((enterWindow s j window).window j).state ≠ .restored := hstate'
      rw [enterWindow_window_self] at hnew
      exact absurd hstate hnew
    · have hused : (enterWindow s i window).used j = true := hj
      have hold : ((enterWindow s i window).window j).state ≠ .restored := hstate'
      rw [enterWindow_used_ne hji] at hused
      rw [enterWindow_window_ne hji] at hold
      rw [enterWindow_window_ne hji]
      exact hs.saved j hused hold

theorem sized_reachable {m : Metrics} {run : List (Call × State)}
    (h : Run Step (State.booted m) run) :
    Tree (lastState (State.booted m) run) ∧
      SizedUnlessStrayed (lastState (State.booted m) run) := by
  refine h.invariant (I := fun s => Tree s ∧ SizedUnlessStrayed s) ⟨tree_booted m, fun _ => ?_⟩ ?_
  · exact ⟨fun _ hi => Bool.noConfusion hi, fun _ hi => Bool.noConfusion hi, rfl, rfl⟩
  · rintro s call s' ⟨hT, hS⟩ rfl
    rcases call_path s call with hpath | hinsert
    · exact hpath.invariant (fun _ _ => SizedUnlessStrayed.atom) hT hS
    · exact ⟨hinsert.tree hT, hS.inserted hT hinsert⟩

theorem restore_outOfRange (hT : Tree s) (hS : Sized s) {w : Slot} (hw : s.used w = true)
    (hstate : (s.window w).state ≠ .restored)
    (h : (showCommand s w .restore).1 = some .outOfRange) :
    ∃ d, s.used d = true ∧ descendant s d w = true ∧
      ((s.window d).rect.offset ((s.window w).restoredRect.left - (s.window w).rect.left)
        ((s.window w).restoredRect.top - (s.window w).rect.top)).cornersInRange = false := by
  have hedit := Edited.enterState s w .restored
  obtain ⟨n, hself⟩ := enterState_self s w .restored
  rw [if_neg hstate] at hself
  have htarget : stateTarget (enterState s w .restored) w (fillBounds s w) .restored =
      (s.window w).restoredRect := by
    show ((enterState s w .restored).window w).restoredRect = _
    rw [hself]
  have hrect : ((enterState s w .restored).window w).rect = (s.window w).rect := by rw [hself]
  have hsaved := hS.saved w hw hstate
  -- The move fails, and neither for its size nor for its own range.
  have hcan : canShift (enterState s w .restored) w
      ((s.window w).restoredRect.left - (s.window w).rect.left)
      ((s.window w).restoredRect.top - (s.window w).rect.top) = false := by
    have hcommand : (showCommand s w .restore).1 = (changeState s w .restored).1 := by
      show (if (s.window w).state = .restored then _ else _ : Option KernelError × State).1 = _
      rw [if_neg hstate]
    rw [hcommand] at h
    unfold changeState at h
    dsimp only at h
    rw [htarget] at h
    split at h
    · cases h
    · rcases moveWindow_cases 64 (enterState s w .restored) w (s.window w).restoredRect with
        ⟨-, hr⟩ | ⟨-, hempty, -⟩ | ⟨-, -, hwhy, -⟩ | ⟨-, -, -, -, ⟨-, hr⟩ | ⟨n, -, -, -, t, -, hr⟩⟩
      · rw [moveTo, hr] at h
        cases h
      · rw [hsaved.2] at hempty
        cases hempty
      · rw [hrect, hsaved.1] at hwhy
        exact hwhy.resolve_left (by simp)
      · rw [moveTo, hr] at h
        cases h
      · rw [moveTo, hr] at h
        cases h
  unfold canShift at hcan
  rw [List.all_eq_false] at hcan
  obtain ⟨d, hd, hout⟩ := hcan
  rw [descendantsOf_congr hedit] at hd
  have hne : d ≠ w := fun heq => hT.not_mem_descendantsOf w (heq ▸ hd)
  rw [enterState_ne hne] at hout
  obtain ⟨hz, hdesc⟩ := List.mem_filter.1 hd
  exact ⟨d, hT.mem_zOrder.1 hz, hdesc, Bool.eq_false_iff.2 hout⟩

/-- In every state that a run leads to without letting a rectangle stray, every window is in the
coordinate space, can be restored to a place in it, and is, unless a window below it would leave
it. -/
theorem windows_stay_restorable (m : Metrics) {run : List (Call × State)}
    (h : Run Step (State.booted m) run) {s : State} (hs : lastState (State.booted m) run = s)
    (hstrayed : s.seen.strayed = false) : (∀ w, s.used w = true → (s.window w).rect.Fine ∧
      ((s.window w).state ≠ .restored → (s.window w).restoredRect.Fine)) ∧
    ∀ w, s.used w = true → (s.window w).state ≠ .restored →
      (showCommand s w .restore).1 = some .outOfRange →
      ∃ d, s.used d = true ∧ descendant s d w = true ∧
        ((s.window d).rect.offset ((s.window w).restoredRect.left - (s.window w).rect.left)
          ((s.window w).restoredRect.top - (s.window w).rect.top)).cornersInRange = false := by
  obtain ⟨hT, hS⟩ := sized_reachable h
  rw [hs] at hT hS
  have hsized := hS hstrayed
  exact ⟨fun w hw => ⟨hsized.rect w hw, hsized.saved w hw⟩,
    fun w hw hstate => restore_outOfRange hT hsized hw hstate⟩

/-- A maximized child is shifted along with its parent, and its saved rectangle with it. -/
def shiftMaximized : List Call :=
  [.moveWindow 1 65537 (-3000) 0 400 300, .showWindow 1 65538 3,
    .createWindow 1 { className := "A", style := { visible := true, child := true },
                      parent := 65537,
                      x := -30000, y := 10, width := 100, height := 100 } {}] ++ oneWindow

/-- The saved rectangle is out of range, and the window, with none below it, cannot be restored. -/
theorem maximized_child_not_restorable : ∃ run, Run Step (State.booted smallFont) run ∧
      ¬((∀ w, (lastState (State.booted smallFont) run).used w = true →
          ((lastState (State.booted smallFont) run).window w).state ≠ .restored →
          ((lastState (State.booted smallFont) run).window w).restoredRect.Fine) ∨
        ∀ w, (lastState (State.booted smallFont) run).used w = true →
          ((lastState (State.booted smallFont) run).window w).state ≠ .restored →
          (showCommand (lastState (State.booted smallFont) run) w .restore).1 = some .outOfRange →
          ∃ d, (lastState (State.booted smallFont) run).used d = true ∧
            descendant (lastState (State.booted smallFont) run) d w = true) := by
  refine ⟨traced (State.booted smallFont) shiftMaximized, run_traced _ _, ?_⟩
  have hstray : (lastState (State.booted smallFont) (traced (State.booted smallFont)
        shiftMaximized)).used 1 = true ∧
      ((lastState (State.booted smallFont) (traced (State.booted smallFont)
        shiftMaximized)).window 1).state = .maximized ∧
      ((lastState (State.booted smallFont) (traced (State.booted smallFont)
        shiftMaximized)).window 1).restoredRect.inRange = false ∧
      (showCommand (lastState (State.booted smallFont) (traced (State.booted smallFont)
        shiftMaximized)) 1 .restore).1 = some .outOfRange ∧
      ∀ d, descendant (lastState (State.booted smallFont) (traced (State.booted smallFont)
        shiftMaximized)) d 1 = false := by
    decide +kernel
  obtain ⟨hused, hstate, hrange, hrestore, hleaf⟩ := hstray
  have hne : ((lastState (State.booted smallFont) (traced (State.booted smallFont)
      shiftMaximized)).window 1).state ≠ .restored := by
    exact ShowState.noConfusion
  rintro (hfine | hrestores)
  · have hout := (hfine 1 hused hne).1
    cases hout
  · obtain ⟨d, -, hd⟩ := hrestores 1 hused hne hrestore
    rw [hleaf d] at hd
    cases hd

/-- A window that is minimized can be restored. -/
theorem windows_stay_restorable_minimized :
    ∃ s, lastState (State.booted smallFont) (traced (State.booted smallFont)
        (.showWindow 1 65537 2 :: oneWindow)) = s ∧ (s.window 0).state = .minimized ∧
      (s.window 0).restoredRect.Fine :=
  ⟨_, rfl, by decide +kernel,
    ((windows_stay_restorable smallFont (run_traced _ (.showWindow 1 65537 2 :: oneWindow)) rfl
      (by decide +kernel)).1 0 (by decide +kernel)).2 (by decide +kernel)⟩

end UnDOS.User
