import UnDOS.User.MenuForest
import UnDOS.User.Reachable

/-!
# Menus of windows

Which operations attach a menu to a window and which take it away.  Of the window manager's parts
only a change of frame touches the menu of a window (`Atom.menu`), and `Call.attaches` says what it
may become.

`Uprooted`: `destroy_menu_locked` clears the menus below a handle, all of them and no others, and no
window keeps one of them.
-/

namespace UnDOS.User

open UnDOS.Lib

/-! ## The menus of windows -/

/-- The windows have the menus they had. -/
def SameMenus (s s' : State) : Prop := ∀ i, (s'.window i).menu = (s.window i).menu

theorem SameMenus.trans {a b c : State} (hab : SameMenus a b) (hbc : SameMenus b c) :
    SameMenus a c := fun i => (hbc i).trans (hab i)

variable {s s' : State}

theorem Moved.sameMenus (h : Moved s s') : SameMenus s s' := by
  intro i
  obtain ⟨r, q, heq⟩ := h.window i
  rw [heq]

theorem Handed.sameMenus (h : Handed s s') : SameMenus s s' := by
  intro i
  rw [h.window]

theorem SameMenus.setWindow (s : State) (w : Slot) {f : Window → Window}
    (hf : ∀ o, (f o).menu = o.menu) : SameMenus s (s.setWindow w f) := by
  intro i
  by_cases hi : i = w
  · subst hi
    rw [setWindow_self, hf]
  · rw [setWindow_ne hi]

theorem SameMenus.setVisible (s : State) (w : Slot) (visible : Bool) :
    SameMenus s (setVisible s w visible) := SameMenus.setWindow s w fun _ => rfl

theorem SameMenus.enterState (s : State) (w : Slot) (next : ShowState) :
    SameMenus s (enterState s w next) := by
  have hstate : SameMenus s (s.setWindow w fun o =>
      { o with
        restoredRect := if o.state = .restored then o.rect else o.restoredRect
        state := next }) := SameMenus.setWindow s w fun _ => rfl
  unfold User.enterState
  split
  · exact hstate.trans (SameMenus.setWindow _ w fun _ => rfl)
  · exact hstate

theorem SameMenus.changedState (hT : Tree s) (w : Slot) (next : ShowState) :
    SameMenus s (changedState s w next) := by
  have henter := SameMenus.enterState s w next
  have hT' := (Edited.enterState s w next).tree hT
  have hmove := Moved.moveTo (User.enterState s w next) w
    (stateTarget (User.enterState s w next) w (fillBounds s w) next)
  unfold User.changedState
  dsimp only
  generalize User.moveTo (User.enterState s w next) w
    (stateTarget (User.enterState s w next) w (fillBounds s w) next) = r at hmove ⊢
  obtain ⟨_ | e, moved⟩ := r
  · have hloosen := fun b => hmove.trans (Moved.loosen moved b)
    dsimp only
    split
    · exact henter.trans ((hloosen _).sameMenus.trans
        (Handed.clearInputFor ((hloosen _).edited.tree hT') w).sameMenus)
    · exact henter.trans (hloosen _).sameMenus
  · exact henter.trans (hmove.sameMenus.trans (SameMenus.setWindow _ w fun _ => rfl))

theorem reframe_menu {μ : Nat → Prop} (s : State) (w : Slot) {f : Window → Window}
    (hmenu : ∀ o, (f o).menu = o.menu ∨ μ (f o).menu) (i : Slot) :
    ((reframe s w f).1.window i).menu = (s.window i).menu ∨
      μ ((reframe s w f).1.window i).menu := by
  show ((s.setWindow w f).window i).menu = _ ∨ μ ((s.setWindow w f).window i).menu
  by_cases hi : i = w
  · subst hi
    rw [setWindow_self]
    exact hmenu _
  · rw [setWindow_ne hi]
    exact .inl rfl

theorem Atom.menu {μ : Nat → Prop} (h : Atom μ s s') (hT : Tree s) (i : Slot) :
    (s'.window i).menu = (s.window i).menu ∨ μ (s'.window i).menu := by
  cases h with
  | aside h =>
    obtain ⟨t, heq⟩ := h.window i
    exact .inl (by rw [heq])
  | focus hwnd => exact .inl ((Handed.setFocusTo hT hwnd).sameMenus i)
  | unfocus =>
    have hfocus := Handed.setFocusTo hT 0
    exact .inl ((hfocus.trans (Handed.setActive (hfocus.tree hT) 0)).sameMenus i)
  | capture _ _ => exact .inl rfl
  | release => exact .inl rfl
  | reveal _ => exact .inl (SameMenus.setVisible s _ true i)
  | @hide w _ =>
    have hclear := Handed.clearInputFor ((Edited.setVisible s w false).tree hT) w
    exact .inl ((SameMenus.setVisible s w false).trans hclear.sameMenus i)
  | @doom w _ =>
    exact .inl ((Handed.clearInputFor hT w).sameMenus.trans (SameMenus.setVisible _ w false) i)
  | move rect _ _ => exact .inl ((Moved.moveTo s _ rect).sameMenus i)
  | place rect _ => exact .inl ((Moved.movedWindow s _ rect).sameMenus i)
  | save rect _ _ => exact .inl ((Moved.setWindow s _ fun _ => ⟨_, _, rfl⟩).sameMenus i)
  | fit _ _ => exact .inl ((Moved.setWindow s _ fun _ => ⟨_, _, rfl⟩).sameMenus i)
  | change _ _ _ => exact .inl (SameMenus.changedState hT _ _ i)
  | @reframe w f _ _ _ hmenu =>
    rw [(Moved.shiftDescendants _ _ _ _).sameMenus i]
    exact reframe_menu s w hmenu i
  | @detach w f _ _ hmenu => exact reframe_menu s w hmenu i
  | @refont new _ =>
    refine .inl ?_
    show (refontWindow s new i).menu = _
    unfold refontWindow
    split <;> rfl
  | drop _ _ _ => exact .inl rfl

/-- A chain of parts attaches only what it may. -/
theorem Path.menu {μ : Nat → Prop} {t : State} (h : Path μ s t) (hT : Tree s) (i : Slot) :
    (t.window i).menu = (s.window i).menu ∨ μ (t.window i).menu := by
  refine (h.invariant (I := fun t => (t.window i).menu = (s.window i).menu ∨ μ (t.window i).menu)
    (fun t u hTt ht hatom => ?_) hT (.inl rfl)).2
  rcases hatom.menu hTt i with hsame | hnew
  · rwa [hsame]
  · exact .inr hnew

/-! ## Attaching and detaching -/

/-- Window `w` has a menu and all others have the menus they had. -/
structure Attached (s : State) (w : Slot) (menu : Nat) (s' : State) : Prop where
  used : s'.used = s.used
  menu : ∀ i, (s'.window i).menu = if i = w then menu else (s.window i).menu

theorem Moved.used (h : Moved s s') : s'.used = s.used := by rw [h.rest]

theorem Attached.moved {t u : State} {w : Slot} {menu : Nat} (h : Attached s w menu t)
    (hmoved : Moved t u) : Attached s w menu u :=
  ⟨hmoved.used.trans h.used, fun i => (hmoved.sameMenus i).trans (h.menu i)⟩

theorem attached_replaceMenu (s : State) (w : Slot) (menu : Nat) :
    Attached s w menu (replaceMenu s w menu).1 := by
  refine ⟨rfl, fun i => ?_⟩
  show ((s.setWindow w fun o => { o with menu }).window i).menu = _
  by_cases hi : i = w
  · subst hi
    rw [setWindow_self, if_pos rfl]
  · rw [setWindow_ne hi, if_neg hi]

theorem setMenu_cases (s : State) (caller : Process) (hwnd menu : Nat)
    (answer : Option Kernel.KernelError) :
    (setMenu s caller hwnd menu answer).2 = s ∨ (answer = none ∧ ∃ w, s.used w = true ∧
      (s.window w).process = caller ∧ Attached s w menu (setMenu s caller hwnd menu answer).2) := by
  unfold setMenu
  split
  · exact .inl rfl
  · next w howned =>
    obtain ⟨hlookup, hprocess⟩ := ownedWindow_used howned
    split
    · exact .inl rfl
    · split
      · exact .inl rfl
      · dsimp only
        split
        · exact .inl rfl
        · refine .inr ⟨rfl, w, (lookup_iff.1 hlookup).1, hprocess, ?_⟩
          exact ((attached_replaceMenu s w menu).moved (Moved.shiftDescendants _ _ _ _)).moved
            (Moved.saveRestored _ _)

theorem attached_detachMenu (s : State) (w : Slot) : Attached s w 0 (detachMenu s w) := by
  unfold detachMenu
  split
  · next hnone =>
    refine ⟨rfl, fun i => ?_⟩
    split
    · next hi =>
      rw [hi]
      exact hnone
    · rfl
  · dsimp only
    have hreplace := attached_replaceMenu s w 0
    split
    · exact (hreplace.moved (Moved.shiftDescendants _ _ _ _)).moved (Moved.saveRestored _ _)
    · exact (hreplace.moved (Moved.refuse _)).moved (Moved.saveRestored _ _)

theorem detachFrom_menu (menu : Nat) (L : List Slot) (s : State) :
    (L.foldl (fun s w => if s.used w ∧ (s.window w).menu = menu then detachMenu s w
        else s) s).used =
        s.used ∧
      ∀ i, ((L.foldl (fun s w => if s.used w ∧ (s.window w).menu = menu then detachMenu s w else s)
        s).window i).menu =
          if i ∈ L ∧ s.used i = true ∧ (s.window i).menu = menu then 0 else (s.window i).menu := by
  induction L generalizing s with
  | nil => simp
  | cons w L ih =>
    rw [List.foldl_cons]
    obtain ⟨hused, hmenus⟩ := ih (if s.used w ∧ (s.window w).menu = menu then detachMenu s w else s)
    by_cases hhere : s.used w = true ∧ (s.window w).menu = menu
    · rw [if_pos hhere] at hused hmenus ⊢
      have hdetach := attached_detachMenu s w
      refine ⟨hused.trans hdetach.used, fun i => ?_⟩
      rw [hmenus, hdetach.used, hdetach.menu]
      by_cases hi : i = w
      · subst hi
        simp [hhere]
      · simp [hi]
    · rw [if_neg hhere] at hused hmenus ⊢
      refine ⟨hused, fun i => ?_⟩
      rw [hmenus]
      by_cases hi : i = w
      · subst hi
        simp [hhere]
      · simp [hi]

theorem detachMenuFromWindows_menu (menu : Nat) (s : State) :
    (detachMenuFromWindows s menu).used = s.used ∧
      ∀ i, ((detachMenuFromWindows s menu).window i).menu =
        if s.used i = true ∧ (s.window i).menu = menu then 0 else (s.window i).menu := by
  obtain ⟨hused, hmenus⟩ := detachFrom_menu menu (List.finRange 64) s
  refine ⟨hused, fun i => ?_⟩
  rw [detachMenuFromWindows, hmenus]
  simp [List.mem_finRange]

/-! ## Destroying menus -/

/-- Menu `k` was there and is not any more. -/
def Gone (M M' : Menus) (k : MenuSlot) : Prop := (M k).used = true ∧ (M' k).used = false

/-- Menu `k` lies at or below what a handle names. -/
def Reached (M : Menus) (handle : Nat) (k : MenuSlot) : Prop :=
  ∃ i, lookupMenu M handle = some i ∧ Relation.ReflTransGen (Submenu M) i k

/-- Some menus were cleared, the others are as they were. -/
def Cleared (M M' : Menus) : Prop :=
  ∀ k, M' k = M k ∨ ((M k).used = true ∧ M' k = { generation := (M k).generation })

/-- The menus that some handles name were destroyed. -/
structure Uprooted (handles : List Nat) (d d' : Desk) : Prop where
  cleared : Cleared d.menus d'.menus
  roots : ∀ handle ∈ handles, ∀ i, lookupMenu d.menus handle = some i → (d'.menus i).used = false
  closed : ∀ k, Gone d.menus d'.menus k → ∀ j, Submenu d.menus k j → (d'.menus j).used = false
  reached : ∀ k, Gone d.menus d'.menus k → ∃ handle ∈ handles, Reached d.menus handle k
  windows : ∀ w, (d'.windows.window w).menu = 0 ∨
    ((d'.windows.window w).menu = (d.windows.window w).menu ∧ (d.windows.used w = true →
      ∀ k, Gone d.menus d'.menus k → (d.windows.window w).menu ≠ menuHandle d.menus k))
  used : d'.windows.used = d.windows.used
  path : Path (fun m => m = 0) d.windows d'.windows

theorem not_gone (M : Menus) (k : MenuSlot) : ¬ Gone M M k := by
  rintro ⟨hused, hgone⟩
  rw [hused] at hgone
  cases hgone

namespace Cleared

variable {M M' M'' : Menus}
variable {k : MenuSlot}

theorem used (h : Cleared M M') (hk : (M' k).used = true) : M' k = M k := by
  rcases h k with hsame | ⟨-, hgone⟩
  · exact hsame
  · rw [hgone] at hk
    cases hk

theorem generation (h : Cleared M M') (k : MenuSlot) : (M' k).generation = (M k).generation := by
  rcases h k with hsame | ⟨-, hgone⟩
  · rw [hsame]
  · rw [hgone]

theorem handle (h : Cleared M M') (k : MenuSlot) : menuHandle M' k = menuHandle M k :=
  menuHandle_congr (h.generation k)

theorem was (h : Cleared M M') (hk : (M' k).used = true) : (M k).used = true :=
  h.used hk ▸ hk

theorem still_unused (h : Cleared M M') (hk : (M k).used = false) : (M' k).used = false := by
  by_contra hused
  rw [h.was (Bool.eq_true_of_not_eq_false hused)] at hk
  cases hk

theorem lookup (h : Cleared M M') {item : Nat} (hk : lookupMenu M' item = some k) :
    lookupMenu M item = some k := by
  obtain ⟨hused, heq⟩ := lookupMenu_iff.1 hk
  exact lookupMenu_iff.2 ⟨h.was hused, heq.trans (h.handle k)⟩

theorem lookup_of_used (h : Cleared M M') {item : Nat}
    (hk : lookupMenu M item = some k) (hused : (M' k).used = true) : lookupMenu M' item = some k :=
  lookupMenu_iff.2 ⟨hused, (lookupMenu_iff.1 hk).2.trans (h.handle k).symm⟩

theorem submenu (h : Cleared M M') {i j : MenuSlot} (hsub : Submenu M' i j) : Submenu M i j := by
  obtain ⟨hi, item, hitem, hlookup⟩ := hsub
  exact ⟨h.was hi, item, h.used hi ▸ hitem, h.lookup hlookup⟩

theorem reached (h : Cleared M M') {handle : Nat} (hk : Reached M' handle k) :
    Reached M handle k := by
  obtain ⟨i, hi, hpath⟩ := hk
  exact ⟨i, h.lookup hi, Relation.ReflTransGen.mono (fun _ _ => h.submenu) _ _ hpath⟩

theorem trans (h : Cleared M M') (h' : Cleared M' M'') : Cleared M M'' := by
  intro k
  rcases h' k with hsame | ⟨hused, hgone⟩
  · rw [hsame]
    exact h k
  · rw [hgone, h.generation k]
    exact .inr ⟨h.was hused, rfl⟩

theorem gone_trans (h : Cleared M M') (hk : Gone M M'' k) :
    Gone M M' k ∨ (M' k = M k ∧ Gone M' M'' k) := by
  by_cases hmid : (M' k).used = true
  · exact .inr ⟨h.used hmid, hmid, hk.2⟩
  · exact .inl ⟨hk.1, Bool.eq_false_iff.2 hmid⟩

end Cleared

theorem setMenu_windows (d : Desk) (i : MenuSlot) (f : MenuRecord → MenuRecord) :
    (d.setMenu i f).windows = d.windows := rfl

theorem setMenu_self (d : Desk) (i : MenuSlot) (f : MenuRecord → MenuRecord) :
    (d.setMenu i f).menus i = f (d.menus i) := Function.update_self _ _ _

theorem setMenu_ne {d : Desk} {i k : MenuSlot} (hk : k ≠ i) (f : MenuRecord → MenuRecord) :
    (d.setMenu i f).menus k = d.menus k := Function.update_of_ne hk _ _

namespace Uprooted

variable {d d' d'' : Desk}

theorem nil (d : Desk) : Uprooted [] d d where
  cleared _ := .inl rfl
  roots _ h := nomatch h
  closed k hk := absurd hk (not_gone _ k)
  reached k hk := absurd hk (not_gone _ k)
  windows _ := .inr ⟨rfl, fun _ k hk => absurd hk (not_gone _ k)⟩
  used := rfl
  path := Path.refl _

theorem cons {handle : Nat} {handles : List Nat} (h : Uprooted [handle] d d')
    (h' : Uprooted handles d' d'') : Uprooted (handle :: handles) d d'' where
  cleared := h.cleared.trans h'.cleared
  roots other hother i hi := by
    rcases List.mem_cons.1 hother with rfl | hother
    · exact h'.cleared.still_unused (h.roots other (.head _) i hi)
    · by_cases hmid : (d'.menus i).used = true
      · exact h'.roots other hother i (h.cleared.lookup_of_used hi hmid)
      · exact h'.cleared.still_unused (Bool.eq_false_iff.2 hmid)
  closed k hk j hsub := by
    by_cases hmid : (d'.menus j).used = true
    · rcases h.cleared.gone_trans hk with hfirst | ⟨hsame, hsecond⟩
      · exact h'.cleared.still_unused (h.closed k hfirst j hsub)
      · obtain ⟨-, item, hitem, hlookup⟩ := hsub
        refine h'.closed k hsecond j ⟨hsecond.1, item, ?_, h.cleared.lookup_of_used hlookup hmid⟩
        rw [hsame]
        exact hitem
    · exact h'.cleared.still_unused (Bool.eq_false_iff.2 hmid)
  reached k hk := by
    rcases h.cleared.gone_trans hk with hfirst | ⟨-, hsecond⟩
    · obtain ⟨other, hother, hreach⟩ := h.reached k hfirst
      rw [List.mem_singleton.1 hother] at hreach
      exact ⟨handle, .head _, hreach⟩
    · obtain ⟨other, hother, hreach⟩ := h'.reached k hsecond
      exact ⟨other, .tail _ hother, h.cleared.reached hreach⟩
  windows w := by
    rcases h'.windows w with hzero | ⟨hsame', hnot'⟩
    · exact .inl hzero
    · rcases h.windows w with hzero | ⟨hsame, hnot⟩
      · exact .inl (hsame'.trans hzero)
      · refine .inr ⟨hsame'.trans hsame, fun hused k hk => ?_⟩
        rcases h.cleared.gone_trans hk with hfirst | ⟨-, hsecond⟩
        · exact hnot hused k hfirst
        · have hother := hnot' (h.used ▸ hused) k hsecond
          rwa [hsame, h.cleared.handle] at hother
  used := h'.used.trans h.used
  path := h.path.trans h'.path

/-- `destroy_menu_locked` for a menu that is there: its windows lose it, its record is cleared,
and then its submenus are destroyed. -/
theorem root {handle : Nat} {i : MenuSlot} (hi : lookupMenu d.menus handle = some i)
    (h : Uprooted (d.menus i).submenus
      ({ d with windows := detachMenuFromWindows d.windows handle }.setMenu i
        fun menu => { generation := menu.generation }) d') : Uprooted [handle] d d' := by
  obtain ⟨hused, hhandle⟩ := lookupMenu_iff.1 hi
  obtain ⟨hwindows, hmenus⟩ := detachMenuFromWindows_menu handle d.windows
  generalize hmid : ({ d with windows := detachMenuFromWindows d.windows handle }.setMenu i
    fun menu => { generation := menu.generation }) = mid at h
  have hmidWindows : mid.windows = detachMenuFromWindows d.windows handle := by
    rw [← hmid, setMenu_windows]
  have hself : mid.menus i = { generation := (d.menus i).generation } := by
    rw [← hmid, setMenu_self]
  have hother : ∀ k, k ≠ i → mid.menus k = d.menus k := fun k hk => by
    rw [← hmid, setMenu_ne hk]
  have hcleared : Cleared d.menus mid.menus := fun k => by
    by_cases hk : k = i
    · rw [hk]
      exact .inr ⟨hused, hself⟩
    · exact .inl (hother k hk)
  have hgone : (d'.menus i).used = false := h.cleared.still_unused (by rw [hself])
  -- What is gone is the menu itself or went with its submenus.
  have hcases : ∀ {k}, Gone d.menus d'.menus k → k = i ∨ Gone mid.menus d'.menus k := by
    intro k hk
    by_cases hki : k = i
    · exact .inl hki
    · exact .inr ⟨by rw [hother k hki]; exact hk.1, hk.2⟩
  have hlookup : ∀ {item j}, lookupMenu d.menus item = some j → j ≠ i →
      lookupMenu mid.menus item = some j := fun hj hji =>
    hcleared.lookup_of_used hj (by rw [hother _ hji]; exact (lookupMenu_iff.1 hj).1)
  constructor
  case cleared => exact hcleared.trans h.cleared
  case roots =>
    intro other hmem j hj
    rw [List.mem_singleton.1 hmem, hi] at hj
    rw [← Option.some.inj hj]
    exact hgone
  case closed =>
    rintro k hk j ⟨hkused, item, hitem, hj⟩
    by_cases hji : j = i
    · rw [hji]
      exact hgone
    · rcases hcases hk with rfl | hlater
      · exact h.roots item hitem j (hlookup hj hji)
      · by_cases hki : k = i
        · subst hki
          exact h.roots item hitem j (hlookup hj hji)
        · refine h.closed k hlater j ⟨hlater.1, item, ?_, hlookup hj hji⟩
          rw [hother k hki]
          exact hitem
  case reached =>
    intro k hk
    refine ⟨handle, .head _, i, hi, ?_⟩
    rcases hcases hk with rfl | hlater
    · exact .refl
    · obtain ⟨item, hitem, hreach⟩ := h.reached k hlater
      obtain ⟨j, hj, hpath⟩ := hcleared.reached hreach
      exact .head ⟨hused, item, hitem, hj⟩ hpath
  case windows =>
    intro w
    have hdetached : (mid.windows.window w).menu =
        if d.windows.used w = true ∧ (d.windows.window w).menu = handle then 0
        else (d.windows.window w).menu := by
      rw [hmidWindows]
      exact hmenus w
    have husedw : mid.windows.used = d.windows.used := by
      rw [hmidWindows]
      exact hwindows
    rcases h.windows w with hzero | ⟨hsame, hnot⟩
    · exact .inl hzero
    · rw [hdetached] at hsame
      split at hsame
      · exact .inl hsame
      · next hkeep =>
        refine .inr ⟨hsame, fun hw k hk => ?_⟩
        rcases hcases hk with rfl | hlater
        · rw [← hhandle]
          exact fun heq => hkeep ⟨hw, heq⟩
        · have hnext := hnot (husedw ▸ hw) k hlater
          rwa [hdetached, if_neg hkeep, hcleared.handle] at hnext
  case used =>
    rw [h.used, hmidWindows]
    exact hwindows
  case path =>
    have hdetach : Path (fun m => m = 0) d.windows mid.windows := by
      rw [hmidWindows]
      exact Path.detachMenuFromWindows (μ := fun m => m = 0) rfl _ _
    exact hdetach.trans h.path

theorem absent {handle : Nat} (h : lookupMenu d.menus handle = none) : Uprooted [handle] d d :=
  { nil d with
    roots := fun other hother i hi => by
      rw [List.mem_singleton.1 hother, h] at hi
      cases hi
    reached := fun k hk => absurd hk (not_gone _ k) }

end Uprooted

/-- How many menus there are. -/
def live (M : Menus) : Nat := (Finset.univ.filter fun k => (M k).used = true).card

theorem Cleared.live_le {M M' : Menus} (h : Cleared M M') : live M' ≤ live M := by
  refine Finset.card_le_card fun k hk => ?_
  rw [Finset.mem_filter] at hk ⊢
  exact ⟨hk.1, h.was hk.2⟩

theorem live_le (M : Menus) : live M ≤ 32 := by
  have := Finset.card_filter_le Finset.univ fun k : MenuSlot => (M k).used = true
  simpa [live] using this

theorem live_clear {M M' : Menus} {i : MenuSlot} (hused : (M i).used = true)
    (hself : (M' i).used = false) (hother : ∀ k, k ≠ i → M' k = M k) : live M' < live M := by
  refine Finset.card_lt_card ⟨fun k hk => ?_, fun hsub => ?_⟩
  · rw [Finset.mem_filter] at hk ⊢
    have hki : k ≠ i := by
      rintro rfl
      rw [hself] at hk
      cases hk.2
    rw [hother k hki] at hk
    exact hk
  · have hmem := hsub (Finset.mem_filter.2 ⟨Finset.mem_univ i, hused⟩)
    rw [Finset.mem_filter, hself] at hmem
    cases hmem.2

theorem foldlM_uprooted {n : Nat} {f : Desk → Nat → Option Desk}
    (hf : ∀ d handle, live d.menus < n → ∃ d', f d handle = some d' ∧ Uprooted [handle] d d')
    (handles : List Nat) {d : Desk} (hlive : live d.menus < n) :
    ∃ d', handles.foldlM f d = some d' ∧ Uprooted handles d d' := by
  induction handles generalizing d with
  | nil => exact ⟨d, rfl, .nil d⟩
  | cons handle handles ih =>
    obtain ⟨mid, hmid, hfirst⟩ := hf d handle hlive
    obtain ⟨d', hd', hrest⟩ := ih (hfirst.cleared.live_le.trans_lt hlive)
    refine ⟨d', ?_, hfirst.cons hrest⟩
    rw [List.foldlM_cons, hmid]
    exact hd'

/-- With fuel for every live menu, a menu is destroyed with all that hangs on it. -/
theorem destroyMenuLocked_uprooted (fuel : Nat) {d : Desk} (handle : Nat)
    (hfuel : live d.menus < fuel) :
    ∃ d', destroyMenuLocked fuel d handle = some d' ∧ Uprooted [handle] d d' := by
  induction fuel generalizing d handle with
  | zero => cases hfuel
  | succ fuel ih =>
    rw [destroyMenuLocked]
    cases hi : lookupMenu d.menus handle with
    | none => exact ⟨d, rfl, .absent hi⟩
    | some i =>
      have hlive : live ({ d with windows := detachMenuFromWindows d.windows handle }.setMenu i
          fun menu => { generation := menu.generation }).menus < fuel := by
        have hless : live ({ d with windows := detachMenuFromWindows d.windows handle }.setMenu i
            fun menu => { generation := menu.generation }).menus < live d.menus := by
          refine live_clear (lookupMenu_iff.1 hi).1 ?_ fun k hk => setMenu_ne hk _
          rw [setMenu_self]
        omega
      obtain ⟨d', hd', hup⟩ := foldlM_uprooted (fun d handle hd => ih handle hd)
        (d.menus i).submenus hlive
      exact ⟨d', hd', .root hi hup⟩

theorem menuFuel_enough (M : Menus) : live M < menuFuel := by
  have := live_le M
  rw [menuFuel, maxMenus]
  omega

end UnDOS.User
