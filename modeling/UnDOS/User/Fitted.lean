import UnDOS.User.Sized

/-!
# Maximized Children

A maximized child fills the client area of its parent, unless that area is empty.

- A change of frame, menu or font resizes client areas and does not go on to the children, nor does
  a minimized window that returns at the size of its icon.  `unfitted` marks the runs in which that
  happened to a window with a maximized child, or in which such a child was moved away.
-/

namespace UnDOS.User

open UnDOS.Kernel (KernelError)
open UnDOS.Lib
open UnDOS.Lib.Forest (Climbs Under Nested)

/-! ## Client areas -/

/-- What a client area depends on. -/
structure SameFrame (o o' : Window) : Prop where
  rect : o'.rect = o.rect
  state : o'.state = o.state
  border : o'.style.border = o.style.border
  caption : o'.style.caption = o.style.caption
  menu : o'.menu = o.menu

theorem SameFrame.refl (o : Window) : SameFrame o o := ⟨rfl, rfl, rfl, rfl, rfl⟩

theorem SameFrame.clientArea {o o' : Window} (h : SameFrame o o') (m : Metrics) :
    clientArea m o' = clientArea m o := by
  unfold User.clientArea clientToScreen clientRect borderOf chromeOf
  rw [h.rect, h.state, h.border, h.caption, h.menu]

theorem Rect.isEmpty_offset (r : Rect) (dx dy : Int) : (r.offset dx dy).isEmpty = r.isEmpty := by
  unfold Rect.isEmpty Rect.offset
  rw [decide_eq_decide]
  dsimp only
  omega

theorem Rect.width_offset (r : Rect) (dx dy : Int) : (r.offset dx dy).width = r.width := by
  unfold Rect.width Rect.offset
  dsimp only
  omega

theorem Rect.height_offset (r : Rect) (dx dy : Int) : (r.offset dx dy).height = r.height := by
  unfold Rect.height Rect.offset
  dsimp only
  omega

theorem clientArea_moved {m : Metrics} {o o' : Window} (hrect : clientRect m o' = clientRect m o)
    (hborder : borderOf o' = borderOf o) (hchrome : chromeOf m o' = chromeOf m o) :
    clientArea m o' = (clientArea m o).offset (o'.rect.left - o.rect.left)
      (o'.rect.top - o.rect.top) := by
  unfold clientArea clientToScreen Rect.offset
  rw [hrect]
  dsimp only
  congr 1 <;> omega

theorem clientRect_sameSize {m : Metrics} {o o' : Window} (hwidth : o'.rect.width = o.rect.width)
    (hheight : o'.rect.height = o.rect.height) (hstate : o'.state = o.state)
    (hborder : borderOf o' = borderOf o) (hchrome : chromeOf m o' = chromeOf m o) :
    clientRect m o' = clientRect m o := by
  unfold clientRect
  rw [hwidth, hheight, hstate, hborder, hchrome]

theorem clientArea_shifted (m : Metrics) (o : Window) (dx dy : Int) :
    clientArea m (o.shifted dx dy) = (clientArea m o).offset dx dy := by
  have hrect : clientRect m (o.shifted dx dy) = clientRect m o :=
    clientRect_sameSize (Rect.width_offset _ _ _) (Rect.height_offset _ _ _) rfl rfl rfl
  rw [clientArea_moved hrect rfl rfl]
  show (clientArea m o).offset (o.rect.left + dx - o.rect.left) (o.rect.top + dy - o.rect.top) = _
  congr 1 <;> omega

theorem clientArea_isEmpty (m : Metrics) (o : Window) :
    (clientArea m o).isEmpty = (clientRect m o).isEmpty := Rect.isEmpty_offset _ _ _

theorem clientArea_minimized {m : Metrics} {o : Window} (h : o.state = .minimized) :
    (clientArea m o).isEmpty = true := by
  rw [clientArea_isEmpty]
  unfold clientRect
  rw [if_pos h]
  rfl

/-! ## Fitting children -/

/-- A maximized child fills the client area of its parent, unless that is empty. -/
def Fit (s : State) (c : Slot) : Prop :=
  ∀ p, parentOf s c = some p → (s.window c).state = .maximized →
    (clientArea s.metrics (s.window p)).isEmpty = false →
    (s.window c).rect = clientArea s.metrics (s.window p)

variable {s s' : State} {c x w : Slot}

theorem Fit.of_state (h : (s.window c).state ≠ .maximized) : Fit s c :=
  fun _ _ hstate => absurd hstate h

theorem Fit.congr (h : Fit s c)
    (hparent : ∀ p, parentOf s' c = some p →
      parentOf s c = some p) (hmetrics : s'.metrics = s.metrics)
    (hrect : (s'.window c).rect = (s.window c).rect)
    (hstate : (s'.window c).state = (s.window c).state)
    (hup : ∀ p, parentOf s' c = some p → SameFrame (s.window p) (s'.window p)) : Fit s' c := by
  intro p hp hmax harea
  rw [hmetrics, (hup p hp).clientArea] at harea ⊢
  rw [hstate] at hmax
  rw [hrect]
  exact h p (hparent p hp) hmax harea

theorem Fit.shift (h : Fit s c) (hsame : SameTree s s')
    (hmetrics : s'.metrics = s.metrics) (dx dy : Int)
    (hchild : (s'.window c).rect = (s.window c).rect.offset dx dy)
    (hstate : (s'.window c).state = (s.window c).state) (hup : ∀ p, parentOf s c = some p →
      clientArea s.metrics (s'.window p) = (clientArea s.metrics (s.window p)).offset dx dy) :
    Fit s' c := by
  intro p hp hmax harea
  rw [hsame.parentOf] at hp
  rw [hmetrics, hup p hp] at harea ⊢
  rw [Rect.isEmpty_offset] at harea
  rw [hstate] at hmax
  rw [hchild, h p hp hmax harea]

/-! ## Placing a subtree -/

theorem mem_descendantsOf (hT : Tree s) :
    x ∈ descendantsOf s w ↔ s.used x = true ∧ w ∈ ancestors s x := by
  unfold descendantsOf
  rw [List.mem_filter, hT.mem_zOrder]
  unfold descendant
  simp

theorem placeWindow_self (hT : Tree s) (w : Slot) (rect : Rect) :
    (placeWindow s w rect).window w = { s.window w with rect } := by
  have hedit := (Moved.setWindow s w (f := fun o => { o with rect }) fun _ => ⟨_, _, rfl⟩).edited
  show (if w ∈ descendantsOf (s.setWindow w fun o => { o with rect }) w then _ else _) = _
  rw [descendantsOf_congr hedit, if_neg (hT.not_mem_descendantsOf w), setWindow_self]

theorem placeWindow_below (hT : Tree s) (rect : Rect) (hx : s.used x = true)
    (hxw : w ∈ ancestors s x) :
    (placeWindow s w rect).window x = (s.window x).shifted (rect.left - (s.window w).rect.left)
      (rect.top - (s.window w).rect.top) := by
  have hedit := (Moved.setWindow s w (f := fun o => { o with rect }) fun _ => ⟨_, _, rfl⟩).edited
  have hne : x ≠ w := fun heq => hT.climbs.irrefl (heq ▸ hxw)
  show (if x ∈ descendantsOf (s.setWindow w fun o => { o with rect }) w then _ else _) = _
  rw [descendantsOf_congr hedit, if_pos ((mem_descendantsOf hT).2 ⟨hx, hxw⟩), setWindow_ne hne]

theorem placeWindow_outside (hT : Tree s) (rect : Rect)
    (hx : ¬Under (ancestors s) x w) : (placeWindow s w rect).window x = s.window x := by
  have hedit := (Moved.setWindow s w (f := fun o => { o with rect }) fun _ => ⟨_, _, rfl⟩).edited
  have hne : x ≠ w := fun heq => hx (.inl heq)
  show (if x ∈ descendantsOf (s.setWindow w fun o => { o with rect }) w then _ else _) = _
  rw [descendantsOf_congr hedit, if_neg fun hin => hx (.inr ((mem_descendantsOf hT).1 hin).2),
    setWindow_ne hne]

theorem Fit.placeWindow (h : Fit s c) (hT : Tree s) (hc : s.used c = true)
    (hcw : c ≠ w) (hparent : parentOf s c ≠ some w) (rect : Rect) :
      Fit (placeWindow s w rect) c := by
  have hmoved := Moved.placeWindow s w rect
  have hmetrics : (User.placeWindow s w rect).metrics = s.metrics := rfl
  by_cases hin : w ∈ ancestors s c
  · -- Both are below: the parent is not the placed window itself.
    have hup : ∀ p, parentOf s c = some p → w ∈ ancestors s p := by
      intro p hp
      rw [hT.climbs.parent hp] at hin
      rcases List.mem_cons.1 hin with rfl | hin
      · exact absurd hp hparent
      · exact hin
    refine h.shift hmoved.sameShow.toSameTree hmetrics (rect.left - (s.window w).rect.left)
      (rect.top - (s.window w).rect.top) ?_ ?_ ?_
    · rw [placeWindow_below hT rect hc hin]
      rfl
    · exact hmoved.sameShow.state c
    · intro p hp
      rw [placeWindow_below hT rect (lookup_iff.1 hp).1 (hup p hp), clientArea_shifted]
  · have hout : ¬Under (ancestors s) c w := fun hu => hu.elim hcw hin
    apply h.congr (fun p hp => by rwa [hmoved.sameShow.parentOf] at hp) hmetrics
    · rw [placeWindow_outside hT rect hout]
    · rw [placeWindow_outside hT rect hout]
    · intro p hp
      rw [hmoved.sameShow.parentOf] at hp
      have hpout : ¬Under (ancestors s) p w := by
        rintro (rfl | hpw)
        · exact hparent hp
        · apply hin
          rw [hT.climbs.parent hp]
          exact .tail _ hpw
      rw [placeWindow_outside hT rect hpout]
      exact SameFrame.refl _

theorem Fit.placeWindow_child (h : Fit s c) (hT : Tree s)
    (hc : s.used c = true) (hparent : parentOf s c = some w) {rect : Rect}
    (hsize : (s.window w).rect.sameSize rect = true) : Fit (User.placeWindow s w rect) c := by
  have hmoved := Moved.placeWindow s w rect
  have hin : w ∈ ancestors s c := by
    rw [hT.climbs.parent hparent]
    exact .head _
  obtain ⟨hwidth, hheight⟩ : (s.window w).rect.width = rect.width ∧
    (s.window w).rect.height = rect.height :=
    of_decide_eq_true hsize
  refine h.shift hmoved.sameShow.toSameTree rfl (rect.left - (s.window w).rect.left)
    (rect.top - (s.window w).rect.top) ?_ ?_ ?_
  · rw [placeWindow_below hT rect hc hin]
    rfl
  · exact hmoved.sameShow.state c
  · intro p hp
    obtain rfl : w = p := Option.some.inj (hparent.symm.trans hp)
    rw [placeWindow_self hT]
    have hrect : clientRect s.metrics { s.window w with rect } =
      clientRect s.metrics (s.window w) :=
      clientRect_sameSize hwidth.symm hheight.symm rfl rfl rfl
    exact clientArea_moved hrect rfl rfl

/-! ## Moves -/

/-- What a move that nothing refused does: it fails for want of a size, or it places the window;
pairs of other windows still fit, and so do the children when the size changed or they fitted. -/
structure MoveFits (s : State) (w : Slot) (rect : Rect) (r : Option KernelError × State) :
    Prop where
  outside : ∀ x, ¬Under (ancestors s) x w → r.2.window x = s.window x
  placed : r.1 = none → (r.2.window w).rect = rect
  failed : r.1 ≠ none → r.2 = s ∧ rect.isEmpty = true
  others : ∀ c, s.used c = true → c ≠ w → parentOf s c ≠ some w → Fit s c → Fit r.2 c
  children : r.1 = none → ∀ c, s.used c = true → parentOf s c = some w →
    (s.window w).rect.sameSize rect = false ∨ Fit s c → Fit r.2 c

theorem Seen.Grows.not_refused {a b : Seen} (h : a.Grows b) (hb : b.refused = false) :
    a.refused = false :=
  Bool.eq_false_iff.2 fun ha => by
    rw [h.refused ha] at hb
    cases hb

theorem Seen.Grows.not_unfitted {a b : Seen} (h : a.Grows b) (hb : b.unfitted = false) :
    a.unfitted = false :=
  Bool.eq_false_iff.2 fun ha => by
    rw [h.unfitted ha] at hb
    cases hb

theorem Tree.not_under_of_parent (hT : Tree s)
    (hc : parentOf s c = some w) (hx : w ∉ ancestors s x) : ¬Under (ancestors s) x c := by
  have hmem : w ∈ ancestors s c := by
    rw [hT.climbs.parent hc]
    exact .head _
  rintro (rfl | hxc)
  · exact hx hmem
  · exact hx (hT.climbs.trans hxc hmem)

theorem MoveFits.child {u : State} {place : Rect} {r : Option KernelError × State}
    (h : MoveFits u c place r) (hT : Tree u) (hparent : parentOf u c = some w)
    (hmoved : Moved u r.2)
    (hplace : place = clientArea u.metrics (u.window w) ∨ (u.window c).state ≠ .maximized) :
    (∀ x, w ∉ ancestors u x → r.2.window x = u.window x) ∧
      (∀ x, u.used x = true → Fit u x → Fit r.2 x) ∧ Fit r.2 c := by
  have houtside : ∀ x, w ∉ ancestors u x → r.2.window x = u.window x :=
    fun x hx => h.outside x (hT.not_under_of_parent hparent hx)
  have hown : Fit r.2 c := by
    rcases hplace with rfl | hstate
    · by_cases hnone : r.1 = none
      · intro p hp _ _
        rw [hmoved.sameShow.parentOf, hparent] at hp
        cases hp
        rw [h.placed hnone, houtside w hT.climbs.irrefl, hmoved.metrics]
      · obtain ⟨heq, hempty⟩ := h.failed hnone
        rw [heq]
        intro p hp _ harea
        obtain rfl : w = p := Option.some.inj (hparent.symm.trans hp)
        rw [hempty] at harea
        cases harea
    · apply Fit.of_state
      rw [hmoved.sameShow.state]
      exact hstate
  refine ⟨houtside, fun x hx hfit => ?_, hown⟩
  by_cases hxc : x = c
  · rw [hxc]
    exact hown
  · by_cases hxp : parentOf u x = some c
    · by_cases hnone : r.1 = none
      · exact h.children hnone x hx hxp (.inr hfit)
      · rw [(h.failed hnone).1]
        exact hfit
    · exact h.others x hx hxc hxp hfit

theorem moveChildren_fits {n : Nat}
    (ih : ∀ (s : State) (w : Slot) (rect : Rect), Tree s → s.used w = true →
      64 ≤ n + (ancestors s w).length → (moveWindow n s w rect).2.seen.refused = false →
      MoveFits s w rect (moveWindow n s w rect)) (L : List (Slot × Rect)) {u : State} (hT : Tree u)
    (hfuel : 63 ≤ n + (ancestors u w).length)
    (hL : ∀ p ∈ L, u.used p.1 = true ∧ parentOf u p.1 = some w ∧
      (p.2 = clientArea u.metrics (u.window w) ∨ (u.window p.1).state ≠ .maximized))
    (href : (L.foldl (fun u p => (moveWindow n u p.1 p.2).2) u).seen.refused = false) :
    (∀ x, w ∉ ancestors u x →
      (L.foldl (fun u p => (moveWindow n u p.1 p.2).2) u).window x = u.window x) ∧
    (∀ x, u.used x = true → Fit u x → Fit (L.foldl (fun u p => (moveWindow n u p.1 p.2).2) u) x) ∧
    ∀ p ∈ L, Fit (L.foldl (fun u p => (moveWindow n u p.1 p.2).2) u) p.1 := by
  induction L generalizing u with
  | nil => exact ⟨fun _ _ => rfl, fun _ _ => id, fun p hp => (List.not_mem_nil hp).elim⟩
  | cons p L ihL =>
    rw [List.foldl_cons] at href ⊢
    obtain ⟨hused, hparent, hplace⟩ := hL p (.head _)
    have hmoved := Moved.moveWindow n u p.1 p.2
    have hrest : Moved (moveWindow n u p.1 p.2).2
        (L.foldl (fun u p => (moveWindow n u p.1 p.2).2) (moveWindow n u p.1 p.2).2) :=
      Moved.foldl (fun u (p : Slot × Rect) => Moved.moveWindow n u p.1 p.2) _ _
    have hstep := (ih u p.1 p.2 hT hused (by
      rw [hT.climbs.parent hparent, List.length_cons]
      omega) (hrest.seen.not_refused href)).child hT hparent hmoved hplace
    obtain ⟨houtside, hkeep, hown⟩ := hstep
    have hsame := hmoved.sameShow
    obtain ⟨houtside', hkeep', hown'⟩ :=
        ihL (hmoved.tree hT) (by rw [hsame.ancestors]; exact hfuel) (by
      intro q hq
      obtain ⟨hqused, hqparent, hqplace⟩ := hL q (.tail _ hq)
      rw [hsame.used, hsame.parentOf, hsame.state, houtside w hT.climbs.irrefl, hmoved.metrics]
      exact ⟨hqused, hqparent, hqplace⟩) href
    refine ⟨fun x hx => ?_, fun x hx hfit => ?_, fun q hq => ?_⟩
    · rw [houtside' x (by rw [hsame.ancestors]; exact hx), houtside x hx]
    · exact hkeep' x (by rw [hsame.used]; exact hx) (hkeep x hx hfit)
    · rcases List.mem_cons.1 hq with rfl | hq
      · exact hkeep' q.1 (by rw [hsame.used]; exact hused) hown
      · exact hown' q hq

theorem mem_maximizedChildren (hT : Tree s) (hw : s.used w = true) : c ∈ maximizedChildren s w ↔
      s.used c = true ∧ parentOf s c = some w ∧ (s.window c).state = .maximized := by
  unfold maximizedChildren
  rw [List.mem_filter, hT.mem_zOrder, Bool.and_eq_true, beq_iff_eq, beq_iff_eq]
  refine and_congr_right fun hc => and_congr_left fun _ => ⟨fun h => ?_, fun h => ?_⟩
  · exact hT.parentOf_child hw ⟨hc, h⟩
  · exact (hT.parentOf_eq hc h).2.1

/-- `move_window_locked` keeps the fitting children fitting, and refits those of a window that gets
another size. -/
theorem moveWindow_fits (fuel : Nat) {rect : Rect} (hT : Tree s)
    (hw : s.used w = true) (hfuel : 64 ≤ fuel + (ancestors s w).length)
    (href : (moveWindow fuel s w rect).2.seen.refused = false) :
    MoveFits s w rect (moveWindow fuel s w rect) := by
  induction fuel using Nat.strong_induction_on generalizing s w rect with
  | _ fuel ih =>
    rcases moveWindow_cases fuel s w rect with ⟨hsame, hr⟩ | ⟨-, hempty, hr⟩ | ⟨-, -, -, hr⟩ |
      ⟨-, hempty, hrange, hcan, ⟨hwhy, hr⟩ | ⟨n, rfl, hsize, hopen, t, ht, hr⟩⟩
    · rw [hr]
      refine ⟨fun _ _ => rfl, fun _ => hsame, absurd rfl, fun _ _ _ _ => id, ?_⟩
      intro _ c _ _ hfit
      apply hfit.resolve_left
      rw [hsame]
      simp [Rect.sameSize]
    · rw [hr]
      exact ⟨fun _ _ => rfl, fun hnone => (by cases hnone), fun _ => ⟨rfl, hempty⟩,
        fun _ _ _ _ => id, fun hnone => (by cases hnone)⟩
    · rw [hr] at href
      cases href
    · -- The subtree is placed, and the children are not looked at.
      rw [hr]
      refine ⟨fun x hx => placeWindow_outside hT rect hx, fun _ => by rw [placeWindow_self hT],
        absurd rfl, fun c hc hcw hparent hfit => hfit.placeWindow hT hc hcw hparent rect, ?_⟩
      intro _ c hc hparent hfit
      rcases hwhy with hsize | rfl | harea
      · refine Fit.placeWindow_child (hfit.resolve_left ?_) hT hc hparent hsize
        rw [hsize]
        exact Bool.noConfusion
      · have := hT.ancestors_length w
        omega
      · intro p hp _ hopen
        rw [(Moved.placeWindow s w rect).sameShow.parentOf, hparent] at hp
        cases hp
        rw [show (placeWindow s w rect).metrics = s.metrics from rfl, harea] at hopen
        cases hopen
    · -- The subtree is placed, then the maximized children and the icons are moved.
      have hplaced := Moved.placeWindow s w rect
      have hTp := hplaced.tree hT
      have hanc : ancestors (placeWindow s w rect) = ancestors s := hplaced.sameShow.ancestors
      have hih : ∀ (s : State) (w : Slot) (rect : Rect), Tree s → s.used w = true →
          64 ≤ n + (ancestors s w).length → (moveWindow n s w rect).2.seen.refused = false →
          MoveFits s w rect (moveWindow n s w rect) :=
        fun s w rect hTs hws hf hr => ih n (Nat.lt_succ_self n) hTs hws hf hr
      have ht' : t = ((maximizedChildren (placeWindow s w rect) w).map fun c =>
          (c, clientArea s.metrics ((placeWindow s w rect).window w))).foldl
            (fun u p => (moveWindow n u p.1 p.2).2) (placeWindow s w rect) := by
        rw [List.foldl_map]
        exact ht
      have hmovedt : Moved (placeWindow s w rect) t := by
        rw [ht']
        exact Moved.foldl (fun u (p : Slot × Rect) => Moved.moveWindow n u p.1 p.2) _ _
      rw [hr] at href ⊢
      have hmovedv : Moved t ((layoutMinimized t (t.window w).hwnd).foldl
          (fun u p => (moveWindow n u p.1 p.2).2) t) :=
        Moved.foldl (fun u (p : Slot × Rect) => Moved.moveWindow n u p.1 p.2) _ _
      have hreft := hmovedv.seen.not_refused href
      have hwp : (placeWindow s w rect).used w = true := by
        exact hw
      obtain ⟨hout₁, hkeep₁, hown₁⟩ := moveChildren_fits hih (w := w)
        ((maximizedChildren (placeWindow s w rect) w).map fun c =>
          (c, clientArea s.metrics ((placeWindow s w rect).window w))) hTp (by rw [hanc]; omega) (by
        intro p hp
        obtain ⟨c, hc, rfl⟩ := List.mem_map.1 hp
        obtain ⟨hcused, hcparent, -⟩ := (mem_maximizedChildren hTp hwp).1 hc
        exact ⟨hcused, hcparent, .inl rfl⟩) (by rw [← ht']; exact hreft)
      rw [← ht'] at hout₁ hkeep₁ hown₁
      have hTt := hmovedt.tree hTp
      have hwt : t.used w = true := by
        rw [hmovedt.sameShow.used]
        exact hwp
      obtain ⟨hout₂, hkeep₂, -⟩ :=
        moveChildren_fits hih (w := w) (layoutMinimized t (t.window w).hwnd) hTt
        (by rw [hmovedt.sameShow.ancestors, hanc]; omega) (by
        intro p hp
        obtain ⟨hicon, hparent, hstate⟩ := mem_layoutMinimized hp
        exact ⟨hicon, hTt.parentOf_child hwt ⟨hicon, hparent⟩, .inr (by
          rw [hstate]
          exact ShowState.noConfusion)⟩) href
      have hkeep : ∀ c, s.used c = true → Fit (placeWindow s w rect) c →
          Fit ((layoutMinimized t (t.window w).hwnd).foldl (fun u p => (moveWindow n u p.1 p.2).2)
            t) c := by
        intro c hc hfit
        have hcp : (placeWindow s w rect).used c = true := by
          exact hc
        exact hkeep₂ c (by rw [hmovedt.sameShow.used]; exact hcp) (hkeep₁ c hcp hfit)
      have hout : ∀ x, w ∉ ancestors s x → ((layoutMinimized t (t.window w).hwnd).foldl
          (fun u p => (moveWindow n u p.1 p.2).2) t).window x =
            (placeWindow s w rect).window x := by
        intro x hx
        rw [hout₂ x (by rw [hmovedt.sameShow.ancestors, hanc]; exact hx),
          hout₁ x (by rw [hanc]; exact hx)]
      refine ⟨fun x hx => ?_, fun _ => ?_, absurd rfl, fun c hc hcw hparent hfit => ?_, ?_⟩
      · rw [hout x fun hin => hx (.inr hin), placeWindow_outside hT rect hx]
      · rw [hout w hT.climbs.irrefl, placeWindow_self hT]
      · exact hkeep c hc (hfit.placeWindow hT hc hcw hparent rect)
      · intro _ c hc hparent _
        by_cases hstate : (s.window c).state = .maximized
        · have hcp : (placeWindow s w rect).used c = true := by
            exact hc
          have hin : c ∈ maximizedChildren (placeWindow s w rect) w := by
            refine (mem_maximizedChildren hTp hwp).2 ⟨hcp, ?_, ?_⟩
            · rw [hplaced.sameShow.parentOf]
              exact hparent
            · rw [hplaced.sameShow.state]
              exact hstate
          have hfit := hown₁ (c, clientArea s.metrics ((placeWindow s w rect).window w))
            (List.mem_map.2 ⟨c, hin, rfl⟩)
          exact hkeep₂ c (by rw [hmovedt.sameShow.used]; exact hcp) hfit
        · apply Fit.of_state
          rw [hmovedv.sameShow.state, hmovedt.sameShow.state, hplaced.sameShow.state]
          exact hstate

/-! ## Every part keeps the children fitting -/

/-- Every child fits, as long as no move was refused and no child left unasked. -/
def Fitted (s : State) : Prop :=
  s.seen.refused = false → s.seen.unfitted = false → ∀ c, s.used c = true → Fit s c

theorem Fitted.congr (h : Fitted s) (hsame : SameTree s s')
    (hmetrics : s'.metrics = s.metrics) (hseen : s'.seen = s.seen)
    (hframe : ∀ i, SameFrame (s.window i) (s'.window i)) : Fitted s' := by
  intro href hunf c hc
  rw [hseen] at href hunf
  rw [hsame.used] at hc
  exact (h href hunf c hc).congr (fun p hp => by rwa [hsame.parentOf] at hp)
    hmetrics (hframe c).rect
    (hframe c).state fun p _ => hframe p

theorem Fitted.handed (h : Fitted s) (hhanded : Handed s s') : Fitted s' :=
  h.congr hhanded.sameShow.toSameTree hhanded.metrics hhanded.seen fun i => by
    rw [hhanded.window]
    exact SameFrame.refl _

theorem Fitted.setWindow (h : Fitted s) {f : Window → Window}
    (hedit : Edited s (s.setWindow w f)) (hf : ∀ o, SameFrame o (f o)) :
      Fitted (s.setWindow w f) := by
  refine h.congr hedit.toSameTree rfl rfl fun i => ?_
  by_cases hi : i = w
  · subst hi
    rw [setWindow_self]
    exact hf _
  · rw [setWindow_ne hi]
    exact SameFrame.refl _

theorem Fitted.setVisible (h : Fitted s) (w : Slot) (b : Bool) : Fitted (setVisible s w b) :=
  h.setWindow (Edited.setVisible s w b) fun _ => ⟨rfl, rfl, rfl, rfl, rfl⟩

theorem MoveFits.fitted {rect : Rect} {r : Option KernelError × State}
    (h : MoveFits s w rect r) (hfit : ∀ c, s.used c = true → Fit s c)
    (hown : r.1 = none → Fit r.2 w) : ∀ c, s.used c = true → Fit r.2 c := by
  intro c hc
  by_cases hnone : r.1 = none
  · by_cases hcw : c = w
    · rw [hcw]
      exact hown hnone
    · by_cases hparent : parentOf s c = some w
      · exact h.children hnone c hc hparent (.inr (hfit c hc))
      · exact h.others c hc hcw hparent (hfit c hc)
  · rw [(h.failed hnone).1]
    exact hfit c hc

theorem moveTo_fits {rect : Rect} (hT : Tree s) (hw : s.used w = true)
    (href : (moveTo s w rect).2.seen.refused = false) : MoveFits s w rect (moveTo s w rect) :=
  moveWindow_fits 64 hT hw (Nat.le_add_right _ _) href

theorem Fitted.moveTo (h : Fitted s) (hT : Tree s) (rect : Rect)
    (hw : s.used w = true) (hfree : (s.window w).state ≠ .maximized ∨ (s.window w).parent = 0) :
    Fitted (moveTo s w rect).2 := by
  intro href hunf c hc
  have hmoved := Moved.moveTo s w rect
  have hs := h (hmoved.seen.not_refused href) (hmoved.seen.not_unfitted hunf)
  rw [hmoved.sameShow.used] at hc
  refine (moveTo_fits hT hw href).fitted hs (fun _ => ?_) c hc
  rcases hfree with hstate | hparent
  · apply Fit.of_state
    rw [hmoved.sameShow.state]
    exact hstate
  · intro p hp
    rw [hmoved.sameShow.parentOf, (hT.parent_eq_zero hw).1 hparent] at hp
    cases hp

theorem Fit.of_fill (hT : Tree s) (hsame : SameTree s s')
    (hmetrics : s'.metrics = s.metrics) (hrect : (s'.window w).rect = fillBounds s w)
    (houtside : ∀ x, ¬Under (ancestors s) x w → s'.window x = s.window x) : Fit s' w := by
  intro p hp _ _
  rw [hsame.parentOf] at hp
  have hout : ¬Under (ancestors s) p w := parent_not_under hT.climbs hp
  rw [hrect, hmetrics, houtside p hout]
  unfold fillBounds
  rw [hp]

theorem Fitted.movedWindow (h : Fitted s) (hT : Tree s) (rect : Rect)
    (hw : s.used w = true) : Fitted (movedWindow s w rect) := by
  intro href hunf c hc
  have hmoved := Moved.moveTo s w rect
  have hall := Moved.movedWindow s w rect
  have hs := h (hall.seen.not_refused href) (hall.seen.not_unfitted hunf)
  rw [hall.sameShow.used] at hc
  have hmove : (User.moveTo s w rect).2.seen.refused = false →
      MoveFits s w rect (User.moveTo s w rect) := moveTo_fits hT hw
  unfold User.movedWindow at href hunf ⊢
  generalize User.moveTo s w rect = r at hmove hmoved href hunf ⊢
  obtain ⟨_ | e, moved⟩ := r
  · have hfits := hmove href
    have haway : movesAway s w rect = false := by
      have hor : (moved.seen.unfitted || movesAway s w rect) = false := hunf
      exact (Bool.or_eq_false_iff.1 hor).2
    have hmovedFit : ∀ c, s.used c = true → Fit moved c := by
      refine hfits.fitted hs fun _ => ?_
      -- The window itself: it need not fit, or it goes where it fits.
      by_cases hstate : (s.window w).state = .maximized
      · by_cases hparent : (s.window w).parent = 0
        · intro p hp
          rw [hmoved.sameShow.parentOf, (hT.parent_eq_zero hw).1 hparent] at hp
          cases hp
        · rcases hempty : (fillBounds s w).isEmpty with _ | _
          · have hrect : rect = fillBounds s w := by
              by_contra hne
              have htrue : movesAway s w rect = true := by
                unfold movesAway
                simp [hstate, hparent, hempty, hne]
              rw [htrue] at haway
              cases haway
            refine Fit.of_fill hT hmoved.sameShow.toSameTree hmoved.metrics ?_ hfits.outside
            rw [hfits.placed rfl]
            exact hrect
          · intro p hp _ hopen
            rw [hmoved.sameShow.parentOf] at hp
            rw [hmoved.metrics,
              hfits.outside p (parent_not_under hT.climbs hp)] at hopen
            unfold fillBounds at hempty
            rw [hp] at hempty
            rw [hempty] at hopen
            cases hopen
      · apply Fit.of_state
        rw [hmoved.sameShow.state]
        exact hstate
    exact (hmovedFit c hc).congr (fun _ => id) rfl rfl rfl fun _ _ => SameFrame.refl _
  · have hfits := hmove href
    exact hfits.fitted hs (fun hnone => (by cases hnone)) c hc

theorem fit_of_not_loosens (hT : Tree s) (hw : s.used w = true)
    (hc : s.used c = true) (hparent : parentOf s c = some w) (h : loosens s s' w = false) :
    (s.window c).state ≠ .maximized ∨ (clientArea s'.metrics (s'.window w)).isEmpty = true ∨
      clientRect s'.metrics (s'.window w) = clientRect s.metrics (s.window w) := by
  by_cases hstate : (s.window c).state = .maximized
  · right
    have hin : c ∈ maximizedChildren s w := (mem_maximizedChildren hT hw).2 ⟨hc, hparent, hstate⟩
    have hne : (maximizedChildren s w).isEmpty = false := by
      rw [List.isEmpty_eq_false_iff]
      exact List.ne_nil_of_mem hin
    rw [clientArea_isEmpty]
    unfold loosens at h
    rw [hne] at h
    rcases hempty : (clientRect s'.metrics (s'.window w)).isEmpty with _ | _
    · right
      simpa [hempty] using h
    · exact .inl rfl
  · exact .inl hstate

/-- The children fit after a change of state, or a move was refused or a child not asked. -/
theorem Fitted.changedState (h : Fitted s) (hT : Tree s)
    (hw : s.used w = true) (next : ShowState) : Fitted (changedState s w next) := by
  have hedit := Edited.enterState s w next
  have hTe := hedit.tree hT
  have hwe : (enterState s w next).used w = true := by
    rw [hedit.used]
    exact hw
  have hseen : (enterState s w next).seen = s.seen := by rw [enterState_rest]
  have hmetrics : (enterState s w next).metrics = s.metrics := by rw [enterState_rest]
  obtain ⟨n, hself⟩ := enterState_self s w next
  have hmoved := Moved.moveTo (enterState s w next) w
    (stateTarget (enterState s w next) w (fillBounds s w) next)
  have hmove : (User.moveTo (enterState s w next) w
      (stateTarget (enterState s w next) w (fillBounds s w) next)).2.seen.refused = false →
      MoveFits (enterState s w next) w (stateTarget (enterState s w next) w (fillBounds s w) next)
        (User.moveTo (enterState s w next) w
          (stateTarget (enterState s w next) w (fillBounds s w) next)) := moveTo_fits hTe hwe
  -- Pairs without the window are as they were.
  have hothers : ∀ c, c ≠ w → parentOf s c ≠ some w → Fit s c → Fit (enterState s w next) c := by
    intro c hcw hparent hfit
    refine hfit.congr (fun p hp => by rwa [hedit.parentOf] at hp) hmetrics ?_ ?_ fun p hp => ?_
    · rw [enterState_ne hcw]
    · rw [enterState_ne hcw]
    · rw [hedit.parentOf] at hp
      have hpw : p ≠ w := fun heq => hparent (heq ▸ hp)
      rw [enterState_ne hpw]
      exact SameFrame.refl _
  unfold User.changedState
  dsimp only
  generalize hr : User.moveTo (enterState s w next) w
    (stateTarget (enterState s w next) w (fillBounds s w) next) = r at hmoved hmove ⊢
  -- The move is made, or refused: then the window gets its old state back.
  obtain ⟨_ | e, moved⟩ := r
  · dsimp only at hmoved hmove ⊢
    have hfitted : Fitted (moved.loosen ((s.window w).rect.sameSize
        (stateTarget (enterState s w next) w (fillBounds s w) next) &&
          loosens s (enterState s w next) w)) := by
      intro href hunf c hc
      have hfits := hmove href
      have hor : (moved.seen.unfitted || ((s.window w).rect.sameSize
        (stateTarget (enterState s w next) w (fillBounds s w) next) &&
          loosens s (enterState s w next) w)) = false := hunf
      obtain ⟨hunf', hloose⟩ := Bool.or_eq_false_iff.1 hor
      have hs := h (hseen ▸ hmoved.seen.not_refused href) (hseen ▸ hmoved.seen.not_unfitted hunf')
      have hcs : s.used c = true := by
        have hcm : moved.used c = true := hc
        rw [hmoved.sameShow.used, hedit.used] at hcm
        exact hcm
      have hce : (enterState s w next).used c = true := by
        rw [hedit.used]
        exact hcs
      suffices hfit : Fit moved c from
        hfit.congr (fun _ => id) rfl rfl rfl fun _ _ => SameFrame.refl _
      by_cases hcw : c = w
      · -- The window itself: maximized, it goes where it fits.
        subst hcw
        by_cases hnext : next = .maximized
        · subst hnext
          have hfill : fillBounds (enterState s c .maximized) c = fillBounds s c := by
            unfold fillBounds
            rw [hedit.parentOf]
            rcases hp : parentOf s c with _ | p
            · rw [enterState_rest]
            · have hpc : p ≠ c := fun heq => parent_not_under hT.climbs hp (.inl heq)
              dsimp only
              rw [hmetrics, enterState_ne hpc]
          refine Fit.of_fill hTe hmoved.sameShow.toSameTree hmoved.metrics ?_ hfits.outside
          rw [hfits.placed rfl, hfill]
          rfl
        · apply Fit.of_state
          rw [hmoved.sameShow.state, hself]
          exact hnext
      · by_cases hparent : parentOf s c = some w
        · -- A child of the window: refitted, or the area is as it was.
          have hparente : parentOf (enterState s w next) c = some w := by
            rw [hedit.parentOf]
            exact hparent
          apply hfits.children rfl c hce hparente
          have hrect : ((enterState s w next).window w).rect = (s.window w).rect := by rw [hself]
          rw [hrect]
          rcases hsize : (s.window w).rect.sameSize
            (stateTarget (enterState s w next) w (fillBounds s w) next) with _ | _
          · exact .inl rfl
          · right
            rw [hsize] at hloose
            have hwindow : (enterState s w next).window c = s.window c := enterState_ne hcw next
            rcases fit_of_not_loosens hT hw hcs hparent hloose with hstate | hempty | hsame
            · apply Fit.of_state
              rw [hwindow]
              exact hstate
            · intro p hp _ hopen
              obtain rfl : w = p := Option.some.inj (hparente.symm.trans hp)
              rw [hempty] at hopen
              cases hopen
            · have harea : clientArea (enterState s w next).metrics
                  ((enterState s w next).window w) =
                  clientArea s.metrics (s.window w) := by
                rw [hmetrics] at hsame ⊢
                have hborder : borderOf ((enterState s w next).window w) =
                    borderOf (s.window w) := by
                  rw [hself]
                  rfl
                have hchrome : chromeOf s.metrics ((enterState s w next).window w) =
                    chromeOf s.metrics (s.window w) := by
                  rw [hself]
                  rfl
                unfold clientArea clientToScreen
                rw [hsame, hborder, hchrome, hrect]
              intro p hp hmax hopen
              obtain rfl : w = p := Option.some.inj (hparente.symm.trans hp)
              rw [harea] at hopen ⊢
              rw [hwindow] at hmax ⊢
              exact hs c hcs w hparent hmax hopen
        · exact hfits.others c hce hcw (by rw [hedit.parentOf]; exact hparent)
            (hothers c hcw hparent (hs c hcs))
    split
    · refine hfitted.handed (Handed.clearInputFor ?_ w)
      exact (Moved.loosen moved _).tree (hmoved.tree hTe)
    · exact hfitted
  · intro href hunf c hc
    obtain ⟨hback, -⟩ := (hmove href).failed (by simp)
    have hback' : moved = enterState s w next := hback
    subst hback'
    have hs := h (hseen ▸ href) (hseen ▸ hunf)
    have hsame : SameTree s (leaveState (enterState s w next) w (s.window w)) :=
      hedit.toSameTree.trans (Edited.leaveState _ _ _).toSameTree
    have hframe : ∀ i, SameFrame (s.window i)
        ((leaveState (enterState s w next) w (s.window w)).window i) := by
      intro i
      unfold leaveState
      by_cases hi : i = w
      · subst hi
        rw [setWindow_self, hself]
        exact ⟨rfl, rfl, rfl, rfl, rfl⟩
      · rw [setWindow_ne hi, enterState_ne hi]
        exact SameFrame.refl _
    rw [hsame.used] at hc
    exact (hs c hc).congr (fun p hp => by rwa [hsame.parentOf] at hp) hmetrics
      (hframe c).rect (hframe c).state fun p _ => hframe p

/-- A frame changes, and the descendants follow the client area. -/
theorem fitted_reframe (h : Fitted s) (hT : Tree s) (hw : s.used w = true) {f : Window → Window}
    (hf : ∀ o, ∃ style menu, f o = { o with style, menu } ∧ style.visible = o.style.visible) :
    Fitted (shiftDescendants (reframe s w f).1 w (reframe s w f).2.1 (reframe s w f).2.2) := by
  intro href hunf c hc
  have hedit := Edited.reframe s w hf
  have hor : (s.seen.unfitted || loosens s (s.setWindow w f) w) = false := hunf
  obtain ⟨hunf', hloose⟩ := Bool.or_eq_false_iff.1 hor
  have hs := h href hunf'
  have hcs : s.used c = true := hc
  obtain ⟨style, menu, hfw, -⟩ := hf (s.window w)
  have hself := setWindow_self s w f
  have hdesc : ∀ x, x ∈ descendantsOf (reframe s w f).1 w ↔ s.used x = true ∧
      w ∈ ancestors s x := by
    intro x
    rw [descendantsOf_congr hedit, mem_descendantsOf hT]
  have hbelow : ∀ x, s.used x = true → w ∈ ancestors s x →
      (shiftDescendants (reframe s w f).1 w (reframe s w f).2.1 (reframe s w f).2.2).window x =
        (s.window x).shifted (reframe s w f).2.1 (reframe s w f).2.2 := by
    intro x hx hxw
    have hne : x ≠ w := fun heq => hT.climbs.irrefl (heq ▸ hxw)
    show (if x ∈ descendantsOf (reframe s w f).1 w then ((s.setWindow w f).window x).shifted _ _
      else (s.setWindow w f).window x) = _
    rw [if_pos ((hdesc x).2 ⟨hx, hxw⟩), setWindow_ne hne]
  have hout : ∀ x, w ∉ ancestors s x →
      (shiftDescendants (reframe s w f).1 w (reframe s w f).2.1 (reframe s w f).2.2).window x =
        (s.setWindow w f).window x := by
    intro x hx
    exact if_neg fun hin => hx ((hdesc x).1 hin).2
  have hsame : SameTree s (shiftDescendants (reframe s w f).1 w (reframe s w f).2.1
      (reframe s w f).2.2) :=
    hedit.toSameTree.trans (Moved.shiftDescendants _ _ _ _).sameShow.toSameTree
  have hwself : (shiftDescendants (reframe s w f).1 w (reframe s w f).2.1
      (reframe s w f).2.2).window w =
      f (s.window w) := by
    rw [hout w hT.climbs.irrefl, hself]
  by_cases hin : w ∈ ancestors s c
  · -- Below: the child is shifted, and so is the area of its parent.
    by_cases hparent : parentOf s c = some w
    · rcases fit_of_not_loosens hT hw hcs hparent hloose with hstate | hempty | hrect
      · apply Fit.of_state
        rw [hbelow c hcs hin]
        exact hstate
      · intro p hp _ hopen
        rw [hsame.parentOf, hparent] at hp
        cases hp
        rw [hself] at hempty
        rw [hwself] at hopen
        exact absurd (hempty.symm.trans hopen) (by simp)
      · apply (hs c hcs).shift hsame rfl (reframe s w f).2.1 (reframe s w f).2.2
        · rw [hbelow c hcs hin]
          rfl
        · rw [hbelow c hcs hin]
          rfl
        · intro p hp
          obtain rfl : w = p := Option.some.inj (hparent.symm.trans hp)
          rw [hwself]
          rw [hself] at hrect
          have hrect' : clientRect s.metrics (f (s.window w)) =
            clientRect s.metrics (s.window w) := hrect
          show clientToScreen s.metrics (f (s.window w)) (clientRect s.metrics (f (s.window w))) =
            (clientToScreen s.metrics (s.window w) (clientRect s.metrics (s.window w))).offset
              ((clientToScreen s.metrics ((s.setWindow w f).window w) {}).left -
                (clientToScreen s.metrics (s.window w) {}).left)
              ((clientToScreen s.metrics ((s.setWindow w f).window w) {}).top -
                (clientToScreen s.metrics (s.window w) {}).top)
          rw [hrect', hself]
          unfold clientToScreen Rect.offset
          dsimp only
          congr 1 <;> omega
    · have hup : ∀ p, parentOf s c = some p → w ∈ ancestors s p := by
        intro p hp
        rw [hT.climbs.parent hp] at hin
        rcases List.mem_cons.1 hin with rfl | hin
        · exact absurd hp hparent
        · exact hin
      apply (hs c hcs).shift hsame rfl (reframe s w f).2.1 (reframe s w f).2.2
      · rw [hbelow c hcs hin]
        rfl
      · rw [hbelow c hcs hin]
        rfl
      · intro p hp
        rw [hbelow p (lookup_iff.1 hp).1 (hup p hp), clientArea_shifted]
  · have hup : ∀ p, parentOf s c = some p → p ≠ w ∧ w ∉ ancestors s p := by
      intro p hp
      rw [hT.climbs.parent hp] at hin
      exact ⟨fun heq => hin (by rw [heq]; exact .head _),
        fun hpw => hin (.tail _ hpw)⟩
    have hboth : ((s.setWindow w f).window c).rect = (s.window c).rect ∧
        ((s.setWindow w f).window c).state = (s.window c).state := by
      by_cases hcw : c = w
      · subst hcw
        rw [hself, hfw]
        exact ⟨rfl, rfl⟩
      · rw [setWindow_ne hcw]
        exact ⟨rfl, rfl⟩
    refine (hs c hcs).congr (fun p hp => by rwa [hsame.parentOf] at hp) rfl ?_ ?_ fun p hp => ?_
    · rw [hout c hin]
      exact hboth.1
    · rw [hout c hin]
      exact hboth.2
    · rw [hsame.parentOf] at hp
      rw [hout p (hup p hp).2, setWindow_ne (hup p hp).1]
      exact SameFrame.refl _

theorem fontChange_child (hT : Tree s) {p : Slot} (hp : parentOf s c = some p) (new : Metrics) :
    (fontChange s new c).1 = (fontChange s new p).1 +
      (chromeOf new (s.window p) - chromeOf s.metrics (s.window p)) := by
  show fontShift s _ _ c = fontShift s _ _ p + _
  unfold fontShift chromeOf
  rw [hT.climbs.parent hp, List.map_cons, List.sum_cons]
  split_ifs <;> omega

theorem refontWindow_rect {new : Metrics} {i : Slot} (hi : s.used i = true)
    (hstate : (s.window i).state ≠ .minimized) :
    (refontWindow s new i).rect = (s.window i).rect.offset 0 (fontChange s new i).1 := by
  have hgrowth : (fontChange s new i).2 = 0 := if_neg hstate
  unfold refontWindow
  rw [if_pos hi, hgrowth]
  unfold Window.refonted Window.shifted Rect.offset
  simp

/-- The children fit after a change of the font, or one was not asked. -/
theorem fitted_refont (h : Fitted s) (hT : Tree s) (new : Metrics) : Fitted (refont s new) := by
  intro href hunf c hc
  have hcs : s.used c = true := hc
  generalize hs₀ : ({ s with
    metrics := new
    window := refontWindow s new
    seen := { s.seen with
      strayed := s.seen.strayed || (List.finRange 64).any fun w =>
        s.used w && (s.window w).outgrows (fontChange s new w).2 } } : State) = s₀
  have hor : (s.seen.unfitted || (List.finRange 64).any fun w => s.used w && loosens s s₀ w) =
      false := by
    rw [← hs₀]
    exact hunf
  rw [Bool.or_eq_false_iff, List.any_eq_false] at hor
  have hs := h href hor.1
  have hsame := (Edited.refont s new).toSameTree
  have hstate : ∀ i, ((refont s new).window i).state = (s.window i).state := by
    intro i
    show (refontWindow s new i).state = _
    unfold refontWindow
    split
    · rfl
    · rfl
  intro p hp hmax hopen
  rw [hsame.parentOf] at hp
  rw [hstate] at hmax
  have hpused := (lookup_iff.1 hp).1
  have hloose : loosens s s₀ p = false := by
    have hmark := hor.2 p (List.mem_finRange p)
    rw [hpused] at hmark
    simpa using hmark
  -- The parent is not minimized, or its area would be empty.
  have hpstate : (s.window p).state ≠ .minimized := by
    intro hmin
    rw [clientArea_minimized (by rw [hstate]; exact hmin)] at hopen
    cases hopen
  have hrectp : (refontWindow s new p).rect = (s.window p).rect.offset 0 (fontChange s new p).1 :=
    refontWindow_rect hpused hpstate
  have hrectc : (refontWindow s new c).rect = (s.window c).rect.offset 0 (fontChange s new c).1 :=
    refontWindow_rect hcs (by rw [hmax]; exact ShowState.noConfusion)
  have hchrome : chromeOf new (refontWindow s new p) = chromeOf new (s.window p) := by
    unfold refontWindow
    rw [if_pos hpused]
    rfl
  have hborder : borderOf (refontWindow s new p) = borderOf (s.window p) := by
    unfold refontWindow
    rw [if_pos hpused]
    rfl
  -- No mark was set for the parent: its client area is as large as before.
  have hsame' : clientRect new (refontWindow s new p) = clientRect s.metrics (s.window p) := by
    rcases fit_of_not_loosens hT hpused hcs hp hloose with hno | hempty | hrect
    · exact absurd hmax hno
    · rw [← hs₀] at hempty
      exact absurd (hempty.symm.trans hopen) (by simp)
    · rw [← hs₀] at hrect
      exact hrect
  have hold : (clientArea s.metrics (s.window p)).isEmpty = false := by
    have hopen' : (clientArea new (refontWindow s new p)).isEmpty = false := hopen
    rw [clientArea_isEmpty, hsame'] at hopen'
    rw [clientArea_isEmpty]
    exact hopen'
  show (refontWindow s new c).rect = clientToScreen new (refontWindow s new p)
    (clientRect new (refontWindow s new p))
  rw [hrectc, hs c hcs p hp hmax hold, fontChange_child hT hp, hsame']
  unfold clientArea clientToScreen
  rw [hrectp]
  unfold Rect.offset
  dsimp only
  congr 1 <;> omega

theorem Fitted.atom {μ : Nat → Prop} (hT : Tree s) (h : Fitted s) (ha : Atom μ s s') :
    Fitted s' := by
  cases ha with
  | aside haside =>
    refine h.congr haside.sameShow.toSameTree (by rw [haside.rest]) (by rw [haside.rest])
      fun i => ?_
    obtain ⟨t, ht⟩ := haside.window i
    rw [ht]
    exact ⟨rfl, rfl, rfl, rfl, rfl⟩
  | focus hwnd => exact h.handed (Handed.setFocusTo hT hwnd)
  | unfocus =>
    have hfocus := Handed.setFocusTo hT 0
    exact h.handed (hfocus.trans (Handed.setActive (hfocus.tree hT) 0))
  | capture _ _ => exact h.handed (Handed.handles s _ _ _)
  | release => exact h.handed (Handed.handles s _ _ _)
  | reveal _ => exact h.setVisible _ true
  | @hide w _ =>
    exact (h.setVisible w false).handed
      (Handed.clearInputFor ((Edited.setVisible s w false).tree hT) w)
  | @doom w _ => exact (h.handed (Handed.clearInputFor hT w)).setVisible w false
  | move rect hw hfree => exact h.moveTo hT rect hw hfree
  | place rect hw => exact h.movedWindow hT rect hw
  | save rect _ _ =>
    exact h.setWindow (Moved.setWindow s _ fun _ => ⟨_, _, rfl⟩).edited
      fun _ => ⟨rfl, rfl, rfl, rfl, rfl⟩
  | fit _ _ =>
    exact h.setWindow (Moved.setWindow s _ fun _ => ⟨_, _, rfl⟩).edited
      fun _ => ⟨rfl, rfl, rfl, rfl, rfl⟩
  | change hw _ _ => exact h.changedState hT hw _
  | reframe hw hf _ => exact fitted_reframe h hT hw hf
  | detach _ _ => exact fun href => by cases href
  | refont _ => exact fitted_refont h hT _
  | @drop w hw hleaf _ =>
    intro href hunf c hc
    refine (h href hunf c ((dropWindow_used s w c).1 hc).1).congr (fun p hp => ?_) rfl rfl rfl
      fun _ _ => SameFrame.refl _
    obtain ⟨hpused, heq⟩ := lookup_iff.1 hp
    exact lookup_iff.2 ⟨((dropWindow_used s w p).1 hpused).1, heq⟩

/-! ## Every run -/

theorem Fitted.inserted (h : Fitted s) (hT : Tree s) (hinsert : Inserted s s') : Fitted s' := by
  obtain ⟨i, window, hi, hparent, hstate, -, -, -, rfl⟩ := hinsert
  have hrestacked := (hT.insert hi hparent).2
  have hsame := hrestacked.sameTree
  obtain ⟨links, top, heq⟩ := hrestacked
  intro href hunf c hc
  rw [heq] at href hunf
  have hs := h href hunf
  have hwindow : ∀ x, (raiseBranch (linkTop (enterWindow s i window) i) i).window x =
      (enterWindow s i window).window x := fun x => by rw [heq]
  rw [hsame.used] at hc
  by_cases hci : c = i
  · subst hci
    apply Fit.of_state
    rw [hwindow, enterWindow_window_self, hstate]
    exact ShowState.noConfusion
  · rw [enterWindow_used_ne hci] at hc
    refine (hs c hc).congr (fun p hp => ?_) (by rw [heq]; rfl) ?_ ?_ fun p hp => ?_
    · rw [hsame.parentOf, hT.parentOf_enter hi hc] at hp
      exact hp
    · rw [hwindow, enterWindow_window_ne hci]
    · rw [hwindow, enterWindow_window_ne hci]
    · rw [hsame.parentOf] at hp
      rw [hwindow, enterWindow_window_ne (hT.parent_ne_free hi hc hp).2]
      exact SameFrame.refl _

theorem fitted_reachable {m : Metrics} {run : List (Call × State)}
    (h : Run Step (State.booted m) run) :
    Tree (lastState (State.booted m) run) ∧ Fitted (lastState (State.booted m) run) := by
  refine h.invariant (I := fun s => Tree s ∧ Fitted s)
    ⟨tree_booted m, fun _ _ _ hc => Bool.noConfusion hc⟩ ?_
  rintro s call s' ⟨hT, hF⟩ rfl
  rcases call_path s call with hpath | hinsert
  · exact hpath.invariant (fun _ _ => Fitted.atom) hT hF
  · exact ⟨hinsert.tree hT, hF.inserted hT hinsert⟩

/-- In every state that a run leads to, without a refused move and without a maximized child left
unasked, every maximized child fills the client area of its parent, unless that is empty. -/
theorem maximized_children_fill (m : Metrics) {run : List (Call × State)}
    (h : Run Step (State.booted m) run) {s : State} (hs : lastState (State.booted m) run = s)
    (hrefused : s.seen.refused = false) (hunfitted : s.seen.unfitted = false) :
    ∀ c p, s.used c = true → s.visible c = true → (s.window c).state = .maximized →
      parentOf s c = some p → (clientArea s.metrics (s.window p)).isEmpty = false →
      (s.window c).rect = clientArea s.metrics (s.window p) := by
  obtain ⟨-, hF⟩ := fitted_reachable h
  rw [hs] at hF
  exact fun c p hc _ hstate hp harea => hF hrefused hunfitted c hc p hp hstate harea

/-- A visible window with a maximized child. -/
def maximizedChild : List Call :=
  [.showWindow 1 65538 3,
    .createWindow 1 { className := "A", style := { visible := true, child := true },
                      parent := 65537,
                      x := 10, y := 10, width := 100, height := 100 } {}] ++ oneWindow

theorem maximized_children_fill_one :
    ∃ s, lastState (State.booted smallFont) (traced (State.booted smallFont) maximizedChild) = s ∧
      (s.window 1).state = .maximized ∧ (s.window 1).rect = clientArea s.metrics (s.window 0) :=
  ⟨_, rfl, by decide +kernel,
    maximized_children_fill smallFont (run_traced _ maximizedChild) rfl (by decide +kernel)
      (by decide +kernel) 1 0 (by decide +kernel) (by decide +kernel) (by decide +kernel)
      (by decide +kernel) (by decide +kernel)⟩

/-- The parent gets a border, and the maximized child keeps its size. -/
theorem maximized_child_outgrows : ∃ run, Run Step (State.booted smallFont) run ∧
      (lastState (State.booted smallFont) run).seen.refused = false ∧
      ¬∀ c p, (lastState (State.booted smallFont) run).used c = true →
        (lastState (State.booted smallFont) run).visible c = true →
        ((lastState (State.booted smallFont) run).window c).state = .maximized →
        parentOf (lastState (State.booted smallFont) run) c = some p →
        (clientArea (lastState (State.booted smallFont) run).metrics
          ((lastState (State.booted smallFont) run).window p)).isEmpty = false →
        ((lastState (State.booted smallFont) run).window c).rect =
          clientArea (lastState (State.booted smallFont) run).metrics
            ((lastState (State.booted smallFont) run).window p) := by
  refine ⟨traced (State.booted smallFont)
    (.setWindowLong 1 65537 .style { visible := true, border := true } :: maximizedChild),
    run_traced _ _, by decide +kernel, fun h => ?_⟩
  have hout := h 1 0 (by decide +kernel) (by decide +kernel) (by decide +kernel) (by decide +kernel)
    (by decide +kernel)
  revert hout
  decide +kernel

end UnDOS.User
