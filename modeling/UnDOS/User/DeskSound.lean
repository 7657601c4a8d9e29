import UnDOS.User.Attachments

/-!
# Menus in Every Run

Every operation on windows and menus ends and keeps `DeskOk`: the window tree and the menu forest
are sound, and a window has a menu bar of its own process or none.

In the loop of a process exit a submenu may go before its parent, so that the forest is sound again
only at the end of the loop (`destroyProcessMenus_uprooted`).
-/

namespace UnDOS.User

open UnDOS.Lib

/-! ## The invariant -/

/-- The menus of windows are menu bars of the process that the window belongs to. -/
def BarsOk (M : Menus) (s : State) : Prop :=
  ∀ w, s.used w = true → (s.window w).menu ≠ 0 → ∃ i, (M i).used = true ∧
    (s.window w).menu = menuHandle M i ∧ (M i).popup = false ∧ (M i).owner = (s.window w).process

/-- What every operation keeps. -/
structure DeskOk (d : Desk) : Prop where
  tree : Tree d.windows
  menus : MenusOk d.menus
  bars : BarsOk d.menus d.windows

section Bars

variable {M M' : Menus} {s s' : State}

theorem BarsOk.windows (h : BarsOk M s)
    (hkeep : ∀ w, s'.used w = true → (s'.window w).menu ≠ 0 → s.used w = true ∧
      (s'.window w).menu = (s.window w).menu ∧ (s'.window w).process = (s.window w).process) :
    BarsOk M s' := by
  intro w hw hne
  obtain ⟨hwas, hmenu, hprocess⟩ := hkeep w hw hne
  rw [hmenu, hprocess]
  rw [hmenu] at hne
  exact h w hwas hne

theorem BarsOk.records (h : BarsOk M s)
    (hkeep : ∀ i, (M i).used = true → (M' i).used = true ∧ (M' i).popup = (M i).popup ∧
      (M' i).owner = (M i).owner ∧ (M' i).generation = (M i).generation) : BarsOk M' s := by
  intro w hw hne
  obtain ⟨i, hi, hmenu, hpopup, howner⟩ := h w hw hne
  obtain ⟨hi', hpopup', howner', hgeneration⟩ := hkeep i hi
  exact ⟨i, hi', hmenu.trans (menuHandle_congr hgeneration).symm, hpopup'.trans hpopup,
    howner'.trans howner⟩

theorem BarsOk.path (h : BarsOk M s) (hT : Tree s) (hpath : Path (fun _ => False) s s') :
    BarsOk M s' := by
  have hshrunk := hpath.shrunk hT
  refine h.windows fun w hw _ => ⟨hshrunk.used w hw, ?_, hshrunk.process w⟩
  rcases hpath.menu hT w with hsame | hnever
  · exact hsame
  · exact hnever.elim

theorem BarsOk.inserted (h : BarsOk M s) (hT : Tree s) (hinsert : Inserted s s') : BarsOk M s' := by
  obtain ⟨i, window, hi, hparent, -, -, -, hmenu, rfl⟩ := hinsert
  obtain ⟨links, top, heq⟩ := (hT.insert hi hparent).2
  rw [heq]
  refine h.windows fun w hw hne => ?_
  by_cases hwi : w = i
  · subst hwi
    refine absurd ?_ hne
    rw [enterWindow_window_self]
    exact hmenu
  · have hused : (enterWindow s i window).used w = true := hw
    rw [enterWindow_used_ne hwi] at hused
    have hwindow : (enterWindow s i window).window w = s.window w := enterWindow_window_ne hwi
    exact ⟨hused, congrArg Window.menu hwindow, congrArg Window.process hwindow⟩

theorem BarsOk.uprooted {d d' : Desk} {handles : List Nat} (h : BarsOk d.menus d.windows)
    (hT : Tree d.windows) (hup : Uprooted handles d d') : BarsOk d'.menus d'.windows := by
  intro w hw hne
  rw [hup.used] at hw
  rcases hup.windows w with hzero | ⟨hsame, hnot⟩
  · exact absurd hzero hne
  · rw [hsame] at hne ⊢
    obtain ⟨i, hi, hmenu, hpopup, howner⟩ := h w hw hne
    have hi' : (d'.menus i).used = true := by
      by_contra hgone
      exact hnot hw i ⟨hi, Bool.eq_false_iff.2 hgone⟩ hmenu
    have hrecord := hup.cleared.used hi'
    refine ⟨i, hi', hmenu.trans (hup.cleared.handle i).symm, by rw [hrecord]; exact hpopup, ?_⟩
    rw [hrecord, (hup.path.shrunk hT).process]
    exact howner

end Bars

/-! ## Windows -/

variable {d : Desk}

theorem DeskOk.path (h : DeskOk d) {s : State}
    (hpath : Path (fun _ => False) d.windows s) : DeskOk { d with windows := s } :=
  ⟨hpath.tree h.tree, h.menus, h.bars.path h.tree hpath⟩

theorem DeskOk.window (h : DeskOk d) {call : Call} (hplain : call.plain = true) :
    DeskOk { d with windows := call.next d.windows } := by
  have hattaches : call.attaches = fun _ => False := by
    cases call with
    | setMenu | destroyMenus | processExit => cases hplain
    | _ => rfl
  rcases call_path d.windows call with hpath | hinsert
  · rw [hattaches] at hpath
    exact h.path hpath
  · exact ⟨hinsert.tree h.tree, h.menus, h.bars.inserted h.tree hinsert⟩

theorem validateMenuAttachment_none {M : Menus} {caller : Process} {handle : Nat}
    (h : validateMenuAttachment M caller handle = none) (hne : handle ≠ 0) :
    ∃ i, (M i).used = true ∧ handle = menuHandle M i ∧ (M i).popup = false ∧
      (M i).owner = caller := by
  rw [validateMenuAttachment, if_neg hne] at h
  split at h
  · cases h
  · next i hi =>
    split at h
    · cases h
    · next howner =>
      split at h
      · cases h
      · next hpopup =>
        obtain ⟨hused, heq⟩ := lookupMenu_iff.1 hi
        exact ⟨i, hused, heq, by simpa using hpopup, by simpa using howner⟩

theorem DeskOk.setMenu (h : DeskOk d) (caller : Process) (hwnd menu : Nat) :
    DeskOk { d with windows := (User.setMenu d.windows caller hwnd menu
      (validateMenuAttachment d.menus caller menu)).2 } := by
  have hpath : Path (fun m => m = menu) d.windows (User.setMenu d.windows caller hwnd menu
      (validateMenuAttachment d.menus caller menu)).2 := Path.setMenu _ caller hwnd _ rfl
  have hshrunk := hpath.shrunk h.tree
  refine ⟨hpath.tree h.tree, h.menus, ?_⟩
  rcases setMenu_cases d.windows caller hwnd menu (validateMenuAttachment d.menus caller menu) with
    hsame | ⟨hanswer, w, hw, hprocess, hattached⟩
  · rw [hsame]
    exact h.bars
  · intro x hx hne
    rw [hshrunk.process]
    rw [hattached.menu] at hne ⊢
    by_cases hxw : x = w
    · rw [if_pos hxw] at hne ⊢
      rw [hxw, hprocess]
      exact validateMenuAttachment_none hanswer hne
    · rw [if_neg hxw] at hne ⊢
      exact h.bars x (hattached.used ▸ hx) hne

/-! ## Creating and appending -/

theorem DeskOk.createMenu (h : DeskOk d) (caller : Process) (popup : Bool) :
    DeskOk (User.createMenu d caller popup).2 := by
  unfold User.createMenu
  split
  · exact h
  · next i hfind =>
    have hfree : (d.menus i).used = false := by simpa using List.find?_some hfind
    dsimp only
    refine ⟨h.tree, h.menus.created hfree (fun k hk => setMenu_ne hk _) ?_ ?_, ?_⟩
    · rw [setMenu_self]
    · rw [setMenu_self]
      rfl
    · refine h.bars.records fun k hk => ?_
      have hki : k ≠ i := by
        rintro rfl
        rw [hfree] at hk
        cases hk
      rw [setMenu_ne hki]
      exact ⟨hk, rfl, rfl, rfl⟩

theorem pushEntry_submenus (d : Desk) (i : MenuSlot) (flags item : Nat) (text : String)
    (k : MenuSlot) : ((pushEntry d i flags item text).menus k).submenus =
      if k = i ∧ flags &&& menuItemPopup ≠ 0 then (d.menus k).submenus ++ [item]
      else (d.menus k).submenus := by
  unfold pushEntry
  by_cases hk : k = i
  · subst hk
    rw [setMenu_self]
    by_cases hpopup : flags &&& menuItemPopup = 0
    · simp [MenuEntry.isPopup, hpopup, MenuRecord.submenus]
    · simp [MenuEntry.isPopup, hpopup, MenuRecord.submenus]
  · rw [setMenu_ne hk, if_neg fun hboth => hk hboth.1]

theorem pushEntry_fields (d : Desk) (i : MenuSlot) (flags item : Nat) (text : String)
    (k : MenuSlot) :
    ∃ entries, (pushEntry d i flags item text).menus k = { d.menus k with entries } := by
  by_cases hk : k = i
  · subst hk
    exact ⟨_, setMenu_self _ _ _⟩
  · exact ⟨(d.menus k).entries, setMenu_ne hk _⟩

theorem DeskOk.pushPlain (h : DeskOk d) (i : MenuSlot) {flags : Nat}
    (hflags : flags &&& menuItemPopup = 0) (item : Nat) (text : String) :
    DeskOk (pushEntry d i flags item text) := by
  have hfields := pushEntry_fields d i flags item text
  have hsame : ∀ k, ((pushEntry d i flags item text).menus k).used = (d.menus k).used ∧
      ((pushEntry d i flags item text).menus k).popup = (d.menus k).popup ∧
      ((pushEntry d i flags item text).menus k).generation = (d.menus k).generation ∧
      ((pushEntry d i flags item text).menus k).owner = (d.menus k).owner ∧
      ((pushEntry d i flags item text).menus k).parent = (d.menus k).parent := by
    intro k
    obtain ⟨entries, heq⟩ := hfields k
    rw [heq]
    exact ⟨rfl, rfl, rfl, rfl, rfl⟩
  refine ⟨h.tree, ?_, ?_⟩
  · refine h.menus.congr (fun k => (hsame k).1) (fun k => (hsame k).2.1) (fun k => (hsame k).2.2.1)
      (fun k => (hsame k).2.2.2.1) (fun k => (hsame k).2.2.2.2) fun k => ?_
    rw [pushEntry_submenus, if_neg fun hboth => hboth.2 hflags]
  · refine h.bars.records fun k hk => ?_
    exact ⟨(hsame k).1.trans hk, (hsame k).2.1, (hsame k).2.2.2.1, (hsame k).2.2.1⟩

theorem checkSubmenu_ok {M : Menus} {caller : Process} {handle item : Nat} {j : MenuSlot}
    (h : checkSubmenu M caller handle item = .ok j) :
    (M j).used = true ∧ item = menuHandle M j ∧ (M j).owner = caller ∧ (M j).popup = true ∧
      (M j).parent = 0 ∧ menuContains M maxMenus item handle = false := by
  unfold checkSubmenu at h
  split at h
  · cases h
  · next k hk =>
    split at h
    · cases h
    · next howner =>
      split at h
      · cases h
      · next hcheck =>
        cases h
        obtain ⟨hused, heq⟩ := lookupMenu_iff.1 hk
        simp only [Bool.or_eq_true, not_or, Bool.not_eq_true, bne_eq_false_iff_eq] at hcheck
        exact ⟨hused, heq, by simpa using howner, by simpa using hcheck.1.1, hcheck.1.2, hcheck.2⟩

/-- A submenu gets its parent and its entry together. -/
theorem DeskOk.pushSubmenu (h : DeskOk d) {caller : Process} {handle item : Nat}
    {i j : MenuSlot} (hi : lookupMenu d.menus handle = some i) (howner : (d.menus i).owner = caller)
    (hj : checkSubmenu d.menus caller handle item = .ok j) {flags : Nat}
    (hflags : flags &&& menuItemPopup ≠ 0) (text : String) :
    DeskOk (pushEntry (d.setMenu j fun menu => { menu with parent := handle }) i flags item
      text) := by
  obtain ⟨hused, hhandle⟩ := lookupMenu_iff.1 hi
  obtain ⟨hjused, hitem, hjowner, hpopup, hroot, houtside⟩ := checkSubmenu_ok hj
  have hsame : ∀ k, (d.setMenu j fun menu => { menu with parent := handle }).menus k =
      { d.menus k with parent := if k = j then handle else (d.menus k).parent } := by
    intro k
    by_cases hk : k = j
    · subst hk
      rw [setMenu_self, if_pos rfl]
    · rw [setMenu_ne hk, if_neg hk]
  have hfields : ∀ k, ∃ entries,
      (pushEntry (d.setMenu j fun menu => { menu with parent := handle }) i flags item
        text).menus k =
        { d.menus k with parent := if k = j then handle else (d.menus k).parent, entries } := by
    intro k
    obtain ⟨entries, heq⟩ :=
      pushEntry_fields (d.setMenu j fun menu => { menu with parent := handle }) i flags item text k
    exact ⟨entries, heq.trans (by rw [hsame k])⟩
  have hsubmenus := pushEntry_submenus
    (d.setMenu j fun menu => { menu with parent := handle }) i flags item text
  have hwindows : (pushEntry (d.setMenu j fun menu => { menu with parent := handle }) i flags item
      text).windows = d.windows := rfl
  -- The entry makes no cycle: `checkSubmenu` has looked below the submenu.
  have hnot : ¬ Forest.Under (menusAbove d.menus) i j := by
    intro hunder
    have hcontains := h.menus.menuContains_of_under hunder hjused
    rw [← hitem, ← hhandle, houtside] at hcontains
    cases hcontains
  refine ⟨hwindows ▸ h.tree, ?_, ?_⟩
  · apply h.menus.appended hused hjused hpopup (hjowner.trans howner.symm) hroot hnot
    · intro k
      obtain ⟨entries, heq⟩ := hfields k
      rw [heq]
    · intro k
      obtain ⟨entries, heq⟩ := hfields k
      rw [heq]
    · intro k
      obtain ⟨entries, heq⟩ := hfields k
      rw [heq]
    · intro k
      obtain ⟨entries, heq⟩ := hfields k
      rw [heq]
    · intro k
      obtain ⟨entries, heq⟩ := hfields k
      rw [heq, ← hhandle]
    · intro k
      have hold : ((d.setMenu j fun menu => { menu with parent := handle }).menus k).submenus =
          (d.menus k).submenus := by
        rw [hsame k]
        rfl
      rw [hsubmenus, hold, ← hitem]
      by_cases hki : k = i
      · rw [if_pos ⟨hki, hflags⟩, if_pos hki]
      · rw [if_neg fun hboth => hki hboth.1, if_neg hki]
  · refine h.bars.records fun k hk => ?_
    obtain ⟨entries, heq⟩ := hfields k
    rw [heq]
    exact ⟨hk, rfl, rfl, rfl⟩

theorem DeskOk.appendMenu (h : DeskOk d) (caller : Process) (handle flags item : Nat)
    (text : String) : DeskOk (User.appendMenu d caller handle flags item text).2 := by
  unfold User.appendMenu
  split
  · exact h
  · split
    · exact h
    · next i hi =>
      split
      · exact h
      · next howner =>
        split
        · exact h
        · split
          · next hflags =>
            split
            · exact h
            · next j hj =>
              exact h.pushSubmenu hi (not_not.1 howner) hj (by simpa using hflags) text
          · next hflags => exact h.pushPlain i (by simpa using hflags) item text

/-! ## Destroying -/

theorem DeskOk.uprooted {d' : Desk} {handles : List Nat} (h : DeskOk d)
    (hup : Uprooted handles d d')
    (habove : ∀ i j, Submenu d.menus i j → Gone d.menus d'.menus j → (d'.menus i).used = false) :
    DeskOk d' := by
  refine ⟨hup.path.tree h.tree, ?_, h.bars.uprooted h.tree hup⟩
  apply h.menus.pruned (fun k => hup.cleared.used) hup.cleared.generation
  · intro i j hsub hi
    exact hup.closed i ⟨hsub.1, hi⟩ j hsub
  · intro i j hsub hj
    exact habove i j hsub ⟨(h.menus.submenu hsub).1, hj⟩

theorem submenu_of_reached {M : Menus} (h : MenusOk M) {root i j : MenuSlot}
    (hroot : (M root).parent = 0) (hreach : Relation.ReflTransGen (Submenu M) root j)
    (hsub : Submenu M i j) : Relation.ReflTransGen (Submenu M) root i := by
  have hparent := (h.submenu hsub).2.2
  cases hreach with
  | refl =>
    rw [hroot] at hparent
    exact absurd hparent.symm (menuHandle_ne_zero M i)
  | tail hpath hlast =>
    have hparent' := (h.submenu hlast).2.2
    obtain rfl := menuHandle_inj (hparent.symm.trans hparent')
    exact hpath

theorem Uprooted.below {d' : Desk} {handle : Nat} (hup : Uprooted [handle] d d') {root k : MenuSlot}
    (hroot : lookupMenu d.menus handle = some root)
    (hreach : Relation.ReflTransGen (Submenu d.menus) root k) : (d'.menus k).used = false := by
  induction hreach with
  | refl => exact hup.roots handle (.head _) root hroot
  | tail _ hsub ih => exact hup.closed _ ⟨hsub.1, ih⟩ _ hsub

theorem DeskOk.destroyMenu (h : DeskOk d) (caller : Process) (handle : Nat) :
    ∃ d', (User.destroyMenu d caller handle).2 = some d' ∧ DeskOk d' := by
  unfold User.destroyMenu
  split
  · exact ⟨d, rfl, h⟩
  · next i hi =>
    split
    · exact ⟨d, rfl, h⟩
    · split
      · exact ⟨d, rfl, h⟩
      · next hroot =>
        obtain ⟨d', hd', hup⟩ := destroyMenuLocked_uprooted menuFuel
          handle (menuFuel_enough d.menus)
        refine ⟨d', hd', h.uprooted hup fun k j hsub hgone => ?_⟩
        obtain ⟨other, hother, root, hlookup, hreach⟩ := hup.reached j hgone
        rw [List.mem_singleton.1 hother, hi] at hlookup
        cases hlookup
        exact hup.below hi (submenu_of_reached h.menus (not_not.1 hroot) hreach hsub)

/-! ## The exit of a process -/

/-- The loop of `destroy_process_menus` over some slots. -/
theorem destroyProcessMenus_uprooted (proc : Process) (L : List MenuSlot) (d : Desk) :
    ∃ d' handles, L.foldlM (fun d i =>
        if (d.menus i).used ∧ (d.menus i).owner = proc then
          destroyMenuLocked menuFuel d (menuHandle d.menus i)
        else some d) d = some d' ∧ Uprooted handles d d' ∧
      (∀ handle ∈ handles, ∃ i, (d.menus i).used = true ∧ (d.menus i).owner = proc ∧
        handle = menuHandle d.menus i) ∧
      ∀ i ∈ L, (d'.menus i).used = true → (d'.menus i).owner ≠ proc := by
  induction L generalizing d with
  | nil =>
    exact ⟨d, [], rfl, .nil d, fun _ h => absurd h List.not_mem_nil,
      fun _ h => nomatch h⟩
  | cons i L ih =>
    rw [List.foldlM_cons]
    by_cases howned : (d.menus i).used = true ∧ (d.menus i).owner = proc
    · rw [if_pos howned]
      obtain ⟨mid, hmid, hfirst⟩ :=
        destroyMenuLocked_uprooted menuFuel (menuHandle d.menus i) (menuFuel_enough d.menus)
      obtain ⟨d', handles, hd', hrest, hhandles, hnone⟩ := ih mid
      refine ⟨d', menuHandle d.menus i :: handles, ?_, hfirst.cons hrest, ?_, ?_⟩
      · rw [hmid]
        exact hd'
      · intro handle hhandle
        rcases List.mem_cons.1 hhandle with rfl | hlater
        · exact ⟨i, howned.1, howned.2, rfl⟩
        · obtain ⟨k, hk, howner, heq⟩ := hhandles handle hlater
          have hrecord := hfirst.cleared.used hk
          rw [hrecord] at hk howner
          exact ⟨k, hk, howner, heq.trans (hfirst.cleared.handle k)⟩
      · intro k hk hused
        rcases List.mem_cons.1 hk with rfl | hlater
        · have hroot := hfirst.roots _ (.head _) k
            (lookupMenu_iff.2 ⟨howned.1, rfl⟩)
          rw [hrest.cleared.still_unused hroot] at hused
          cases hused
        · exact hnone k hlater hused
    · rw [if_neg howned]
      obtain ⟨d', handles, hd', hrest, hhandles, hnone⟩ := ih d
      refine ⟨d', handles, hd', hrest, hhandles, ?_⟩
      intro k hk hused
      rcases List.mem_cons.1 hk with rfl | hlater
      · rw [hrest.cleared.used hused]
        exact fun howner => howned ⟨hrest.cleared.was hused, howner⟩
      · exact hnone k hlater hused

theorem MenusOk.owner_of_reached {M : Menus} (h : MenusOk M) {i k : MenuSlot}
    (hreach : Relation.ReflTransGen (Submenu M) i k) : (M k).owner = (M i).owner := by
  induction hreach with
  | refl => rfl
  | tail _ hsub ih => exact (h.submenu hsub).2.1.trans ih

theorem DeskOk.destroyProcessMenus (h : DeskOk d) (proc : Process) :
    ∃ d', User.destroyProcessMenus d proc = some d' ∧ DeskOk d' := by
  obtain ⟨d', handles, hd', hup, hhandles, hnone⟩ :=
    destroyProcessMenus_uprooted proc (List.finRange 32) d
  refine ⟨d', hd', h.uprooted hup fun i j hsub hgone => ?_⟩
  -- The menus that went are those of the process, and so is the parent of one of them.
  obtain ⟨handle, hhandle, root, hlookup, hreach⟩ := hup.reached j hgone
  obtain ⟨k, -, howner, heq⟩ := hhandles handle hhandle
  obtain rfl := menuHandle_inj (heq.symm.trans (lookupMenu_iff.1 hlookup).2)
  have hi : (d.menus i).owner = proc := by
    rw [← (h.menus.submenu hsub).2.1, h.menus.owner_of_reached hreach]
    exact howner
  by_contra hstays
  have hused := Bool.eq_true_of_not_eq_false hstays
  apply hnone i (List.mem_finRange i) hused
  rw [hup.cleared.used hused]
  exact hi

theorem DeskOk.exitProcess (h : DeskOk d) (proc : Process) :
    ∃ d', User.exitProcess d proc = some d' ∧ DeskOk d' := by
  have hdestroy : Path (fun _ => False) d.windows (destroyProcessWindows d.windows proc) :=
    Path.foldl (fun s w => Path.ite (fun hw => Path.destroy hw.1) fun _ => Path.refl s) _ _
  obtain ⟨mid, hmid, hok⟩ := (h.path hdestroy).destroyProcessMenus proc
  have hdrop : Path (fun _ => False) mid.windows (dropClasses mid.windows proc) :=
    Path.aside ⟨rfl, fun _ => ⟨_, rfl⟩, .inl rfl⟩
  refine ⟨{ mid with windows := dropClasses mid.windows proc }, ?_, ?_⟩
  · rw [User.exitProcess, hmid]
    rfl
  · exact hok.path hdrop

/-! ## Runs -/

theorem deskOk_booted (m : Metrics) : DeskOk (Desk.booted m) where
  tree := tree_booted m
  menus := ⟨fun _ h => Bool.noConfusion h, fun _ h => Bool.noConfusion h,
    fun _ => 0, fun _ _ h => Bool.noConfusion h⟩
  bars := fun _ h => Bool.noConfusion h

theorem DeskOk.next (h : DeskOk d) (call : DeskCall) : ∃ d', call.next d = some d' ∧ DeskOk d' := by
  cases call with
  | window call hplain => exact ⟨_, rfl, h.window hplain⟩
  | createMenu caller popup => exact ⟨_, rfl, h.createMenu caller popup⟩
  | appendMenu caller handle flags item text =>
    exact ⟨_, rfl, h.appendMenu caller handle flags item text⟩
  | destroyMenu caller handle => exact h.destroyMenu caller handle
  | setMenu caller hwnd menu => exact ⟨_, rfl, h.setMenu caller hwnd menu⟩
  | processExit proc => exact h.exitProcess proc

theorem deskOk_reachable {m : Metrics} {run : List (DeskCall × Desk)}
    (h : Run DeskStep (Desk.booted m) run) : DeskOk (lastState (Desk.booted m) run) := by
  refine h.invariant (deskOk_booted m) fun d call d' hd hstep => ?_
  obtain ⟨next, hnext, hok⟩ := hd.next call
  obtain rfl := Option.some.inj (hnext.symm.trans hstep)
  exact hok

/-- The menus between two operations. -/
structure MenusSound (d : Desk) : Prop where
  /-- A popup entry names a popup of the same owner, whose parent is the menu of the entry. -/
  entry : ∀ i, (d.menus i).used = true → ∀ e ∈ (d.menus i).entries, e.isPopup = true →
    ∃ j, lookupMenu d.menus e.item = some j ∧ (d.menus j).popup = true ∧
      (d.menus j).owner = (d.menus i).owner ∧ (d.menus j).parent = menuHandle d.menus i
  /-- A menu with a parent is in one entry of that parent, and in no other entry. -/
  parent : ∀ j, (d.menus j).used = true → (d.menus j).parent ≠ 0 →
    ∃ i, lookupMenu d.menus (d.menus j).parent = some i ∧
      (d.menus i).entries.countP (fun e => e.isPopup && e.item == menuHandle d.menus j) = 1 ∧
      ∀ k, k ≠ i → (d.menus k).used = true → ∀ e ∈ (d.menus k).entries, e.isPopup = true →
        e.item ≠ menuHandle d.menus j
  acyclic : ∀ i, ¬ Relation.TransGen (Submenu d.menus) i i
  /-- The menu of a window is a menu bar of the window's process. -/
  window : ∀ w, d.windows.used w = true → (d.windows.window w).menu ≠ 0 →
    ∃ i, lookupMenu d.menus (d.windows.window w).menu = some i ∧ (d.menus i).popup = false ∧
      (d.menus i).owner = (d.windows.window w).process

theorem mem_submenus {menu : MenuRecord} {e : MenuEntry} (he : e ∈ menu.entries)
    (hpopup : e.isPopup = true) : e.item ∈ menu.submenus :=
  List.mem_map_of_mem (List.mem_filter.2 ⟨he, hpopup⟩)

theorem count_submenus (menu : MenuRecord) (item : Nat) :
    menu.submenus.count item = menu.entries.countP fun e => e.isPopup && e.item == item := by
  rw [MenuRecord.submenus, List.count, List.countP_map, List.countP_filter]
  refine List.countP_congr fun e _ => ?_
  simp [and_comm]

theorem DeskOk.menusSound (h : DeskOk d) : MenusSound d where
  entry i hi e he hpopup := by
    obtain ⟨j, hj, heq, hrest⟩ := h.menus.entry i hi e.item (mem_submenus he hpopup)
    exact ⟨j, lookupMenu_iff.2 ⟨hj, heq⟩, hrest⟩
  parent j hj hne := by
    obtain ⟨i, hi, heq, hcount⟩ := h.menus.parent j hj hne
    refine ⟨i, lookupMenu_iff.2 ⟨hi, heq⟩, by rw [← count_submenus]; exact hcount, ?_⟩
    intro k hki hk e he hpopup hitem
    obtain ⟨l, -, heq', -, -, hparent⟩ := h.menus.entry k hk e.item (mem_submenus he hpopup)
    obtain rfl := menuHandle_inj (hitem.symm.trans heq')
    exact hki (menuHandle_inj (hparent.symm.trans heq))
  acyclic := h.menus.acyclic
  window w hw hne := by
    obtain ⟨i, hi, heq, hrest⟩ := h.bars w hw hne
    exact ⟨i, lookupMenu_iff.2 ⟨hi, heq⟩, hrest⟩

/-- In every state between operations the menus are sound, and every further operation ends. -/
theorem menus_sound (m : Metrics) {run : List (DeskCall × Desk)}
    (h : Run DeskStep (Desk.booted m) run) : MenusSound (lastState (Desk.booted m) run) ∧
      ∀ call, ∃ d', DeskStep (lastState (Desk.booted m) run) call d' := by
  have hok := deskOk_reachable h
  refine ⟨hok.menusSound, fun call => ?_⟩
  obtain ⟨d', hd', -⟩ := hok.next call
  exact ⟨d', hd'⟩

/-- A menu bar with a submenu, on a window of process 1. -/
def barWithSubmenu : List DeskCall :=
  [.window (.modeSet 640 480) rfl, .window (.registerClass 1 "A") rfl,
    .window (.createWindow 1 { className := "A", width := 400, height := 300 } {}) rfl,
    .createMenu 1 false, .createMenu 1 true, .appendMenu 1 65537 menuItemPopup 65538 "File",
    .setMenu 1 65537 65537]

theorem menus_sound_bar :
    ∃ d, (replay DeskCall.next (Desk.booted smallFont) barWithSubmenu = some d ∧
    (d.menus 1).parent = 65537 ∧ (d.windows.window 0).menu = 65537) ∧ MenusSound d := by
  obtain ⟨d, hd, hparent, hmenu⟩ : ∃ d,
      replay DeskCall.next (Desk.booted smallFont) barWithSubmenu = some d ∧
        (d.menus 1).parent = 65537 ∧ (d.windows.window 0).menu = 65537 :=
    ⟨_, rfl, by decide +kernel, by decide +kernel⟩
  obtain ⟨run, hrun, -, rfl⟩ := Run.exists_replay (fun _ _ _ => id) Run.nil hd
  exact ⟨_, ⟨hd, hparent, hmenu⟩, (menus_sound smallFont hrun).1⟩

/-! ## What goes with a menu -/

theorem Uprooted.untouched {d' : Desk} {handles : List Nat} {k : MenuSlot}
    (hup : Uprooted handles d d') (hout : ∀ handle ∈ handles, ¬Reached d.menus handle k) :
    d'.menus k = d.menus k := by
  refine (hup.cleared k).resolve_right fun ⟨hk, hgone⟩ => ?_
  obtain ⟨handle, hmem, hreach⟩ := hup.reached k ⟨hk, congrArg MenuRecord.used hgone⟩
  exact hout handle hmem hreach

/-- `destroy_menu` takes the menu and all submenus below it, and leaves the others as they are. -/
theorem destroyMenu_takes_submenus {handle : Nat} {i : MenuSlot}
    (hi : lookupMenu d.menus handle = some i) (hroot : (d.menus i).parent = 0) :
    ∃ d', DeskStep d (.destroyMenu (d.menus i).owner handle) d' ∧
      ∀ k, (Relation.ReflTransGen (Submenu d.menus) i k → (d'.menus k).used = false) ∧
        (¬Relation.ReflTransGen (Submenu d.menus) i k → d'.menus k = d.menus k) := by
  obtain ⟨d', hd', hup⟩ := destroyMenuLocked_uprooted menuFuel handle (menuFuel_enough d.menus)
  refine ⟨d', ?_, fun k => ⟨hup.below hi, fun hout => hup.untouched fun other hother => ?_⟩⟩
  · simp [DeskStep, DeskCall.next, destroyMenu, hi, hroot, hd']
  · rintro ⟨root, hlookup, hreach⟩
    rw [List.mem_singleton.1 hother, hi] at hlookup
    cases hlookup
    exact hout hreach

/-- A menu bar is destroyed. -/
theorem destroyMenu_takes_submenus_bar : ∃ d d', replay DeskCall.next (Desk.booted smallFont)
    barWithSubmenu = some d ∧ DeskStep d (.destroyMenu 1 65537) d' ∧ (d'.menus 0).used = false := by
  obtain ⟨d, hd, hi, hroot, howner⟩ : ∃ d, replay DeskCall.next (Desk.booted smallFont)
      barWithSubmenu = some d ∧ lookupMenu d.menus 65537 = some 0 ∧ (d.menus 0).parent = 0 ∧
      (d.menus 0).owner = 1 := ⟨_, rfl, by decide +kernel⟩
  obtain ⟨d', hstep, hall⟩ := destroyMenu_takes_submenus hi hroot
  exact ⟨d, d', hd, howner ▸ hstep, (hall 0).1 .refl⟩

/-! ## What goes with a process -/

section Exit
variable {s : State} {w x : Slot} {proc : Process}

/-- A window belongs to the process of every window above it. -/
theorem Tree.process_above (h : Tree s) (hx : s.used x = true) (hw : w ∈ ancestors s x) :
    (s.window x).process = (s.window w).process := by
  induction hA : ancestors s x generalizing x with
  | nil =>
    rw [hA] at hw
    cases hw
  | cons a A ih =>
    rcases hp : parentOf s x with _ | p
    · rw [h.climbs.root hp] at hA
      cases hA
    · obtain ⟨hused, -, hprocess⟩ := h.parentOf_eq hx hp
      rw [h.climbs.parent hp] at hA hw
      rcases List.mem_cons.1 hw with rfl | habove
      · exact hprocess
      · exact hprocess.trans (ih hused habove (List.cons.inj hA).2)

theorem destroyOwned_path (proc : Process) (s : State) (w : Slot) : Path (fun _ => False) s
    (if s.used w ∧ (s.window w).process = proc then destroy s w else s) :=
  Path.ite (fun hw => Path.destroy hw.1) fun _ => Path.refl s

theorem Tree.exit_spares (hT : Tree s) (hx : s.used x = true)
    (hother : (s.window x).process ≠ proc) :
    (destroyProcessWindows s proc).used x = true := by
  unfold destroyProcessWindows
  refine (foldl_keeps (I := fun t => Tree t ∧ t.used x = true ∧ (t.window x).process ≠ proc)
    (fun t w _ ⟨ht, hused, hproc⟩ => ?_) ⟨hT, hx, hother⟩).2.1
  refine ⟨(destroyOwned_path proc t w).tree ht, ?_, ?_⟩
  · split
    · next hw =>
      refine (ht.destroy_used hw.1 x).2 ⟨hused, ?_⟩
      rintro (rfl | habove)
      · exact hproc hw.2
      · exact hproc ((ht.process_above hused habove).trans hw.2)
    · exact hused
  · rw [((destroyOwned_path proc t w).shrunk ht).process]
    exact hproc

theorem Tree.exit_takes (hT : Tree s) (hown : (s.window x).process = proc) :
    (destroyProcessWindows s proc).used x = false := by
  obtain ⟨A, B, hsplit⟩ := List.append_of_mem (List.mem_finRange x)
  unfold destroyProcessWindows
  rw [hsplit, List.foldl_append, List.foldl_cons]
  have hfirst := Path.foldl (destroyOwned_path proc) s A
  have ht := hfirst.tree hT
  refine (foldl_keeps (I := fun t => Tree t ∧ t.used x = false) (fun t w _ ⟨ht, hused⟩ =>
    ⟨(destroyOwned_path proc t w).tree ht, Bool.eq_false_iff.2 fun hback => ?_⟩)
    ⟨(destroyOwned_path proc _ x).tree ht, Bool.eq_false_iff.2 fun hback => ?_⟩).2
  · exact Bool.false_ne_true
      (hused.symm.trans (((destroyOwned_path proc t w).shrunk ht).used x hback))
  · split at hback
    · next hx => exact ((ht.destroy_used hx.1 x).1 hback).2 (.inl rfl)
    · next hx => exact hx ⟨hback, ((hfirst.shrunk hT).process x).trans hown⟩

end Exit

/-- In every reachable state the exit of a process takes all its windows and menus, and no window
and no menu of another process. -/
theorem exit_takes_own (m : Metrics) {run : List (DeskCall × Desk)}
    (h : Run DeskStep (Desk.booted m) run) (hd : lastState (Desk.booted m) run = d)
    (proc : Process) :
    ∃ d', DeskStep d (.processExit proc) d' ∧ (∀ w, d'.windows.used w = true ↔
        d.windows.used w = true ∧ (d.windows.window w).process ≠ proc) ∧
      ∀ i, ((d.menus i).owner = proc → (d'.menus i).used = false) ∧
        ((d.menus i).owner ≠ proc → d'.menus i = d.menus i) := by
  have hok := hd ▸ deskOk_reachable h
  obtain ⟨mid, handles, hmid, hup, hhandles, hnone⟩ := destroyProcessMenus_uprooted proc
    (List.finRange 32) { d with windows := destroyProcessWindows d.windows proc }
  have hused : mid.windows.used = (destroyProcessWindows d.windows proc).used := hup.used
  have hpath : Path (fun _ => False) d.windows (destroyProcessWindows d.windows proc) :=
    Path.foldl (destroyOwned_path proc) _ _
  refine ⟨{ mid with windows := dropClasses mid.windows proc }, ?_, fun w => ?_, fun i =>
    ⟨fun hown => Bool.eq_false_iff.2 fun hi => ?_, fun hother => hup.untouched
      fun handle hhandle => ?_⟩⟩
  · show exitProcess d proc = _
    rw [exitProcess, destroyProcessMenus, hmid]
    rfl
  · show mid.windows.used w = true ↔ _
    rw [hused]
    refine ⟨fun hw => ⟨(hpath.shrunk hok.tree).used w hw, fun hown => ?_⟩,
      fun hw => hok.tree.exit_spares hw.1 hw.2⟩
    exact Bool.false_ne_true ((hok.tree.exit_takes hown).symm.trans hw)
  · exact hnone i (List.mem_finRange i) hi
      ((congrArg MenuRecord.owner (hup.cleared.used hi)).trans hown)
  · rintro ⟨root, hlookup, hreach⟩
    obtain ⟨k, -, howner, heq⟩ := hhandles handle hhandle
    obtain rfl := menuHandle_inj (heq.symm.trans (lookupMenu_iff.1 hlookup).2)
    exact hother ((hok.menus.owner_of_reached hreach).trans howner)

/-- Process 2 has a window and a menu, too. -/
def twoProcesses : List DeskCall :=
  barWithSubmenu ++ [.window (.registerClass 2 "B") rfl,
    .window (.createWindow 2 { className := "B", width := 100, height := 100 } {}) rfl,
    .createMenu 2 false]

/-- The process of the window with the menu bar exits. -/
theorem exit_takes_own_bar : ∃ d d', replay DeskCall.next (Desk.booted smallFont) twoProcesses =
    some d ∧ (d.windows.used 0 = true ∧ (d.menus 0).used = true ∧ (d.menus 1).used = true) ∧
      DeskStep d (.processExit 1) d' ∧ d'.windows.used 0 = false ∧ (d'.menus 0).used = false ∧
      (d'.menus 1).used = false ∧ d'.windows.used 1 = true ∧ (d'.menus 2).used = true := by
  obtain ⟨d, hd, hbefore, hown, hother⟩ : ∃ d,
      replay DeskCall.next (Desk.booted smallFont) twoProcesses = some d ∧
        (d.windows.used 0 = true ∧ (d.menus 0).used = true ∧ (d.menus 1).used = true) ∧
        ((d.windows.window 0).process = 1 ∧ (d.menus 0).owner = 1 ∧ (d.menus 1).owner = 1) ∧
        (d.windows.used 1 = true ∧ (d.windows.window 1).process ≠ 1) ∧
        (d.menus 2).used = true ∧ (d.menus 2).owner ≠ 1 := ⟨_, rfl, by decide +kernel⟩
  obtain ⟨run, hrun, -, hlast⟩ := Run.exists_replay (fun _ _ _ => id) Run.nil hd
  obtain ⟨d', hstep, hwindows, hmenus⟩ := exit_takes_own smallFont hrun hlast 1
  refine ⟨d, d', hd, hbefore, hstep, ?_, (hmenus 0).1 hown.2.1, (hmenus 1).1 hown.2.2,
    (hwindows 1).2 hother.1, ?_⟩
  · exact Bool.eq_false_iff.2 fun hw => ((hwindows 0).1 hw).2 hown.1
  · rw [(hmenus 2).2 hother.2.2]
    exact hother.2.1

end UnDOS.User
