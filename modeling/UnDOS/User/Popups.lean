import UnDOS.User.Menus
import UnDOS.User.Reachable

/-!
# Open Popups

The mouse and key events of `user/menu.cpp`: one popup is open, and its parents are stacked.

- `menuMouse` and `menuKey` give what they answer, the popups after them and the rectangles that
  they pass to `expose_locked`.  The focus and the posted commands are left out.
- The windows may change between events.
-/

namespace UnDOS.User

/-! ## Data -/

/-- `OpenMenu`. -/
structure OpenMenu where
  visible : Bool := false
  ownerWindow : Nat := 0
  menu : Nat := 0
  parentMenu : Nat := 0
  parentIndex : Nat := 0
  x : Int := 0
  y : Int := 0
  width : Int := 0
  selected : Int := -1
  viewBottom : Int := 0
  firstRow : Int := 0

/-- `g_openMenu`, `g_menuStack` with the last parent first, and `g_menuMouseCapture`. -/
structure Popups where
  openMenu : OpenMenu := {}
  stack : List OpenMenu := []
  mouseCapture : Bool := false

/-- What the menus read of the rest: the windows, the width of a text in the menu font, and which
windows have a message queue. -/
structure Scene where
  desk : Desk
  textWidth : String → Int
  hasQueue : Slot → Bool

namespace Scene

variable (c : Scene)

def entries (handle : Nat) : Option (List MenuEntry) :=
  (lookupMenu c.desk.menus handle).map fun i => (c.desk.menus i).entries

def rowHeight : Int := menuRowHeight c.desk.windows.metrics

def window (w : Slot) : Window := c.desk.windows.window w

end Scene

/-- A change of the popups, with the rectangles it exposes. -/
abbrev Effect := Popups → Popups × List Rect

/-- One effect after the other. -/
def Effect.andThen (f g : Effect) : Effect := fun s =>
  let t := f s
  let u := g t.1
  (u.1, t.2 ++ u.2)

def menuPopupBorder : Int := 2

/-- `popup_visible_bounds`. -/
def OpenMenu.bounds (p : OpenMenu) : Rect := ⟨p.x, p.y, p.x + p.width, p.viewBottom⟩

/-- `menu_item_enabled`. -/
def MenuEntry.enabled (e : MenuEntry) : Bool :=
  e.flags &&& (menuItemDisabled ||| menuItemGrayed ||| menuItemSeparator) == 0

def Rect.union (r o : Rect) : Rect :=
  if r.isEmpty then o
  else if o.isEmpty then r
  else ⟨min r.left o.left, min r.top o.top, max r.right o.right, max r.bottom o.bottom⟩

/-! ## Opening and closing -/

section Code

variable (c : Scene)

def popupRowTop (p : OpenMenu) (index : Int) : Int :=
  p.y + menuPopupBorder + (index - p.firstRow) * c.rowHeight

/-- The rectangle of a row. -/
def popupRow (p : OpenMenu) (index : Int) : Rect :=
  ⟨p.x, popupRowTop c p index, p.x + p.width, popupRowTop c p index + c.rowHeight⟩

def revealSelectedRow (p : OpenMenu) : OpenMenu :=
  if p.selected < 0 then p
  else
    let contentHeight := p.viewBottom - p.y - 2 * menuPopupBorder
    if contentHeight ≤ 0 ∨ contentHeight < c.rowHeight then { p with firstRow := p.selected }
    else
      let visibleRows := contentHeight / c.rowHeight
      if p.selected < p.firstRow then { p with firstRow := p.selected }
      else if p.firstRow + visibleRows ≤ p.selected then
        { p with firstRow := p.selected - visibleRows + 1 }
      else p

def closeMenu : Effect := fun s =>
  if !s.openMenu.visible then (s, [])
  else ({ s with openMenu := {}, stack := [] },
    ((s.openMenu :: s.stack.reverse).filter (·.visible)).map (·.bounds))

def closePopupLevel : Effect := fun s =>
  if !s.openMenu.visible then (s, [])
  else
    ({ s with openMenu := s.stack.headD {}, stack := s.stack.tail }, [s.openMenu.bounds])

/-- Where a popup of the height goes: its top and its bottom. -/
def viewport (bounds : Rect) (y height : Int) : Int × Int :=
  if height ≤ bounds.height then
    let top :=
      if bounds.bottom < y + height then
        if bounds.top ≤ y - height then y - height
        else if y - bounds.top ≤ bounds.bottom - y then bounds.top
        else bounds.bottom - height
      else y
    let top := if top < bounds.top then bounds.top else top
    let top := if bounds.bottom < top + height then bounds.bottom - height else top
    (top, top + height)
  else (bounds.top, bounds.bottom)

/-- The popup that `open_popup_locked` opens. -/
def newPopup (entries : List MenuEntry) (ownerWindow menuHandle : Nat) (x y : Int)
    (parentMenu parentIndex : Nat) : OpenMenu :=
  let bounds := c.desk.windows.screen
  let width := entries.foldl (fun width e => max width (c.textWidth e.text + 24)) 48
  let width := min width bounds.width
  let height := min (entries.length * c.rowHeight + 2 * menuPopupBorder) (2 ^ 31 - 1)
  let x := if bounds.right < x + width then bounds.right - width else x
  let x := if x < bounds.left then bounds.left else x
  let view := viewport bounds y height
  revealSelectedRow c
    { visible := true, ownerWindow, menu := menuHandle, parentMenu, parentIndex, x, y := view.1
      width, selected := ((entries.findIdx? (·.enabled)).map Int.ofNat).getD (-1)
      viewBottom := view.2, firstRow := 0 }

def openPopup (ownerWindow menuHandle : Nat) (x y : Int) (parentMenu parentIndex : Nat) : Effect :=
  fun s =>
  match lookupMenu c.desk.menus menuHandle, lookup c.desk.windows ownerWindow with
  | some i, some owner =>
    let menu := c.desk.menus i
    if !menu.popup ∨ menu.owner ≠ (c.window owner).process then (s, [])
    else
      let previous := s.openMenu
      let popup := newPopup c menu.entries ownerWindow menuHandle x y parentMenu parentIndex
      let stack :=
        if previous.visible ∧ previous.menu = parentMenu ∧ s.stack.length < maxMenus then
          previous :: s.stack
        else []
      ({ s with openMenu := popup, stack },
        (if previous.visible then [previous.bounds] else []) ++ [popup.bounds])
  | _, _ => (s, [])

/-! ## The menu bar -/

def menuEntryWidth (e : MenuEntry) : Int :=
  if e.flags &&& menuItemSeparator ≠ 0 then 8 else c.textWidth e.text + 16

def captionOf (w : Slot) : Int :=
  if (c.window w).style.caption then captionHeight c.desk.windows.metrics else 0

def openTopLevelPopup (w : Slot) (index : Nat) : Effect := fun s =>
  let window := c.window w
  match lookupMenu c.desk.menus window.menu with
  | none => (s, [])
  | some i =>
    let menu := c.desk.menus i
    match menu.entries[index]? with
    | none => (s, [])
    | some entry =>
      if menu.popup ∨ !entry.isPopup ∨ !entry.enabled then (s, [])
      else
        let x := window.rect.left + borderOf window +
          ((menu.entries.take index).map (menuEntryWidth c)).sum
        openPopup c window.hwnd entry.item x
          (window.rect.top + borderOf window + captionOf c w + c.rowHeight) window.menu index s

/-- The loops that go through the entries in a circle, to the first one that fits. -/
def nextEntry (fits : MenuEntry → Bool) (entries : List MenuEntry) (direction : Int) :
    (attempts : Nat) → (index : Int) → Option Nat
  | 0, _ => none
  | attempts + 1, index =>
    let next := (index + direction + entries.length).tmod entries.length
    if (entries[next.toNat]?).any fits then some next.toNat
    else nextEntry fits entries direction attempts next

def switchTopLevelPopup (direction : Int) : Effect := fun s =>
  if !s.openMenu.visible ∨ s.stack ≠ [] ∨ s.openMenu.parentMenu = 0 then (s, [])
  else
    match lookupMenu c.desk.menus s.openMenu.parentMenu,
      lookup c.desk.windows s.openMenu.ownerWindow with
    | some i, some w =>
      let root := c.desk.menus i
      if root.popup then (s, [])
      else
        match nextEntry (fun e => e.isPopup && e.enabled) root.entries direction
          root.entries.length s.openMenu.parentIndex with
        | some index => openTopLevelPopup c w index s
        | none => (s, [])
    | _, _ => (s, [])

/-- The loop over the titles of a bar: the one under the pointer, with its left edge. -/
def titleAt (x : Int) : List MenuEntry → (index : Nat) → (cursor : Int) →
    Option (MenuEntry × Nat × Int)
  | [], _, _ => none
  | e :: rest, index, cursor =>
    if cursor ≤ x ∧ x < cursor + menuEntryWidth c e then some (e, index, cursor)
    else titleAt x rest (index + 1) (cursor + menuEntryWidth c e)

structure BarHit where
  window : Slot
  entry : MenuEntry
  index : Nat
  itemLeft : Int
  barBottom : Int

/-- `menu_bar_hit_locked` on the window under the pointer. -/
def menuBarHit (x y : Int) : Option BarHit := do
  let w ← windowFromPoint c.desk.windows x y
  let window := c.window w
  let i ← lookupMenu c.desk.menus window.menu
  let menu := c.desk.menus i
  let left := window.rect.left + borderOf window
  let top := window.rect.top + borderOf window + captionOf c w
  if menu.popup ∨ x < left ∨ window.rect.right - borderOf window ≤ x ∨ y < top ∨
      top + c.rowHeight ≤ y then none
  else
    let (entry, index, itemLeft) ← titleAt c x menu.entries 0 left
    return ⟨w, entry, index, itemLeft, top + c.rowHeight⟩

/-! ## Events -/

def selectMenuItem (menuHandle index : Nat) : Effect := fun s =>
  match (c.entries menuHandle).bind (·[index]?) with
  | none => (s, [])
  | some entry =>
    if entry.isPopup then
      if s.openMenu.visible then
        let parent := s.openMenu
        let shown := revealSelectedRow c parent
        openPopup c parent.ownerWindow entry.item (parent.x + parent.width - 2)
          (popupRowTop c shown index) menuHandle index { s with openMenu := shown }
      else (s, [])
    else if !entry.enabled then (s, [])
    else closeMenu s

/-- `g_menuMouseCapture = true`. -/
def capture : Effect := fun s => ({ s with mouseCapture := true }, [])

/-- What the loop over the popups finds: one whose menu is gone, none under the pointer, or the
topmost one under the pointer with the popups below it. -/
inductive PopupHit where
  | stale
  | outside
  | inside (popup : OpenMenu) (below : List OpenMenu)

def popupHit (x y : Int) : List OpenMenu → PopupHit
  | [] => .outside
  | p :: below =>
    if (lookupMenu c.desk.menus p.menu).isNone then .stale
    else if p.bounds.contains x y then .inside p below
    else popupHit x y below

/-- What the pointer is over, while a popup is open. -/
def popupAt (x y : Int) (s : Popups) : PopupHit :=
  if s.openMenu.visible then popupHit c x y (s.openMenu :: s.stack) else .outside

/-- The enabled row of the open popup under the pointer, or -1. -/
def rowAt (p : OpenMenu) (y : Int) : Int :=
  let contentY := y - p.y - menuPopupBorder
  let row := if 0 ≤ contentY ∧ contentY < p.viewBottom - p.y - 2 * menuPopupBorder then
    p.firstRow + contentY / c.rowHeight else -1
  match c.entries p.menu with
  | none => -1
  | some entries => if 0 ≤ row ∧ (entries[row.toNat]?).any (·.enabled) then row else -1

/-- Going back to a popup of the stack. -/
def backTo (popup : OpenMenu) (below : List OpenMenu) : Effect := fun s =>
  if below.length = s.stack.length then (s, [])
  else ({ s with openMenu := popup, stack := below }, [s.openMenu.bounds])

/-- Selecting a row of the open popup under the pointer. -/
def selectRow (levelChanged : Bool) (selected : Int) : Effect := fun s =>
  let p := s.openMenu
  if p.selected = selected then (s, [])
  else
    let changedRows := if 0 ≤ p.selected then popupRow c p p.selected else {}
    let changedRows := if 0 ≤ selected then changedRows.union (popupRow c p selected)
      else changedRows
    ({ s with openMenu := { p with selected } },
      if levelChanged then [p.bounds] else if changedRows.isEmpty then [] else [changedRows])

/-- The press of a menu title, or the pointer over it. -/
def overTitle (down : Bool) (hit : BarHit) : Effect :=
  let window := c.window hit.window
  let opened := openPopup c window.hwnd hit.entry.item hit.itemLeft hit.barBottom
    window.menu hit.index
  if down then capture.andThen fun s =>
    if hit.entry.isPopup && hit.entry.enabled then
      if s.openMenu.visible ∧ s.openMenu.menu = hit.entry.item ∧
          s.openMenu.parentMenu = window.menu then closeMenu s
      else opened s
    else if hit.entry.enabled && c.hasQueue hit.window then closeMenu s
    else (s, [])
  else fun s =>
    if s.openMenu.visible && hit.entry.isPopup && hit.entry.enabled &&
        s.openMenu.menu != hit.entry.item then opened s
    else (s, [])

/-- The press of a row, or -1. -/
def pressRow (down : Bool) (selected : Int) : Effect :=
  if down then capture.andThen fun s =>
    if 0 ≤ selected then selectMenuItem c s.openMenu.menu selected.toNat s else (s, [])
  else fun s => (s, [])

/-- The pointer over a popup. -/
def overPopup (y : Int) (down : Bool) (popup : OpenMenu) (below : List OpenMenu) : Effect :=
  fun s =>
  let selected := rowAt c popup y
  ((backTo popup below).andThen <|
    (selectRow c (below.length != s.stack.length) selected).andThen (pressRow c down selected)) s

def menuMouse (x y : Int) (down : Bool) (s : Popups) : Bool × Popups × List Rect :=
  if s.mouseCapture ∧ !down then (true, { s with mouseCapture := false }, [])
  else
    match popupAt c x y s with
    | .stale => (true, closeMenu s)
    | .inside popup below => (true, overPopup c y down popup below s)
    | .outside =>
      match menuBarHit c x y with
      | some hit => (true, overTitle c down hit s)
      | none => if down ∧ s.openMenu.visible then (false, closeMenu s)
        else (s.openMenu.visible && !down, s, [])

/-- The window whose menu bar a key opens: the nearest one above `hwnd` with a menu. -/
def menuWindow (hwnd : Nat) : Option Slot :=
  (lookup c.desk.windows hwnd).bind fun w =>
    (w :: ancestors c.desk.windows w).find? fun a => (c.window a).menu ≠ 0

/-- F10, or Alt with the down key. -/
def openBar (s : Popups) : Bool × Popups × List Rect :=
  match (menuWindow c c.desk.windows.focus).orElse fun _ => menuWindow c c.desk.windows.active with
  | none => (false, s, [])
  | some w =>
    match lookupMenu c.desk.menus (c.window w).menu with
    | none => (false, s, [])
    | some i =>
      if !effectivelyVisible c.desk.windows w ∨ (c.desk.menus i).popup then (false, s, [])
      else
        match (c.desk.menus i).entries.findIdx? fun e => e.isPopup && e.enabled with
        | some index => (true, openTopLevelPopup c w index s)
        | none => (false, s, [])

/-- The up and down keys. -/
def moveSelection (entries : List MenuEntry) (direction : Int) : Effect := fun s =>
  let previous := s.openMenu
  match nextEntry (·.enabled) entries direction entries.length previous.selected with
  | none => (s, [])
  | some index =>
    let p := revealSelectedRow c { previous with selected := index }
    ({ s with openMenu := p },
      if previous.firstRow ≠ p.firstRow then [p.bounds]
      else if previous.selected ≠ p.selected then
        [(popupRow c previous previous.selected).union (popupRow c p p.selected)]
      else [])

def selectCurrent : Effect := fun s =>
  if 0 ≤ s.openMenu.selected then selectMenuItem c s.openMenu.menu s.openMenu.selected.toNat s
  else (s, [])

def menuKey (virtualKey : Nat) (alt pressed : Bool) (s : Popups) : Bool × Popups × List Rect :=
  if !pressed then (s.openMenu.visible, s, [])
  else if !s.openMenu.visible then
    if virtualKey ≠ 0x79 ∧ !(alt ∧ virtualKey = 40) then (false, s, []) else openBar c s
  else
    match c.entries s.openMenu.menu with
    | none => (false, { s with openMenu := {} }, [])
    | some entries =>
      if virtualKey = 27 then (true, if s.stack ≠ [] then closePopupLevel s else closeMenu s)
      else if virtualKey = 38 then (true, moveSelection c entries (-1) s)
      else if virtualKey = 40 then (true, moveSelection c entries 1 s)
      else if virtualKey = 13 ∨ virtualKey = 32 then (true, selectCurrent c s)
      else if virtualKey = 39 then
        if 0 ≤ s.openMenu.selected ∧ (entries[s.openMenu.selected.toNat]?).any (·.isPopup) then
          (true, selectCurrent c s)
        else (true, switchTopLevelPopup c 1 s)
      else if virtualKey = 37 then
        (true, if s.stack ≠ [] then closePopupLevel s else switchTopLevelPopup c (-1) s)
      else (false, s, [])

end Code

/-! ## What an event can do -/

/-- The popups on the screen. -/
def shown (s : Popups) : List OpenMenu := if s.openMenu.visible then s.openMenu :: s.stack else []

/-- A popup on the screen is still there or exposed. -/
def Erases (s : Popups) (r : Popups × List Rect) : Prop :=
  ∀ p ∈ shown s, p.bounds ∈ r.2 ∨ ∃ q ∈ shown r.1, q.bounds = p.bounds

/-- The stacked popups are visible, and the menus of the popups on the screen exist. -/
structure Popups.Ok (menus : Menus) (s : Popups) : Prop where
  visible : ∀ p ∈ s.stack, p.visible = true
  known : ∀ p ∈ shown s, (lookupMenu menus p.menu).isSome = true

/-- The change keeps the popups sound, and exposes those that it closes if `shallow` holds. -/
def Sound (menus : Menus) (shallow : Prop) (s : Popups) (r : Popups × List Rect) : Prop :=
  s.Ok menus → r.1.Ok menus ∧ (shallow → Erases s r)

section Effects

variable {menus : Menus} {P Q : Prop} {s t : Popups} {f g : Effect}

theorem Sound.mono (h : Sound menus P s (f s)) (hPQ : Q → P) : Sound menus Q s (f s) :=
  fun hs => ⟨(h hs).1, fun hQ => (h hs).2 (hPQ hQ)⟩

theorem Sound.andThen (hf : Sound menus P s (f s))
    (hg : s.Ok menus → Sound menus Q (f s).1 (g (f s).1)) :
      Sound menus (P ∧ Q) s (f.andThen g s) := by
  intro hs
  obtain ⟨hok, hfirst⟩ := hf hs
  obtain ⟨hok', hsecond⟩ := hg hs hok
  refine ⟨hok', fun h p hp => ?_⟩
  rcases hfirst h.1 p hp with hp | ⟨q, hq, hbounds⟩
  · exact .inl (List.mem_append_left _ hp)
  · rw [← hbounds]
    exact (hsecond h.2 q hq).imp_left (List.mem_append_right _)

theorem Sound.same {rects : List Rect} (hbounds : t.openMenu.bounds = s.openMenu.bounds)
    (hvisible : t.openMenu.visible = s.openMenu.visible) (hmenu : t.openMenu.menu = s.openMenu.menu)
    (hstack : t.stack = s.stack) : Sound menus P s (t, rects) := by
  intro hs
  refine ⟨⟨by rw [hstack]; exact hs.visible, fun p hp => ?_⟩, fun _ p hp => .inr ?_⟩
  all_goals
    simp only [shown, hvisible, hstack] at hp ⊢
    split at hp
  · next hv =>
    have hopen := hs.known s.openMenu (by simp [shown, hv])
    rcases List.mem_cons.1 hp with rfl | hp
    · rwa [hmenu]
    · exact hs.known p (by simp [shown, hv, hp])
  · cases hp
  · next hv =>
    rw [if_pos hv]
    rcases List.mem_cons.1 hp with rfl | hp
    · exact ⟨_, .head _, hbounds⟩
    · exact ⟨p, .tail _ hp, rfl⟩
  · cases hp

theorem Sound.skip : Sound menus P s (s, []) := Sound.same rfl rfl rfl rfl

theorem closeMenu_sound : Sound menus P s (closeMenu s) := by
  unfold closeMenu
  split
  · exact Sound.skip
  · next hvisible =>
    rw [Bool.not_eq_true, Bool.not_eq_false'] at hvisible
    refine fun hs => ⟨⟨by simp, by simp [shown]⟩, fun _ p hp => .inl ?_⟩
    rw [shown, if_pos hvisible] at hp
    refine List.mem_map_of_mem (List.mem_filter.2 ⟨?_, ?_⟩)
    · simpa using hp
    · rcases List.mem_cons.1 hp with rfl | hp
      exacts [hvisible, hs.visible p hp]

theorem Sound.pop (hvisible : s.openMenu.visible = true)
    (hstack : s.stack = t.openMenu :: t.stack ∨ s.stack = [] ∧ t.openMenu = {} ∧ t.stack = []) :
    Sound menus P s (t, [s.openMenu.bounds]) := by
  intro hs
  have hshown : shown t = s.stack := by
    rcases hstack with h | ⟨h, hopen, hrest⟩
    · rw [shown, if_pos (hs.visible _ (by simp [h])), h]
    · rw [shown, hopen, h]
      rfl
  have hall : shown s = s.openMenu :: s.stack := if_pos hvisible
  refine ⟨⟨fun p hp => hs.visible p ?_, fun p hp => hs.known p ?_⟩, fun _ p hp => ?_⟩
  · rcases hstack with h | ⟨-, -, hrest⟩
    · exact h ▸ .tail _ hp
    · simp [hrest] at hp
  · exact hall ▸ .tail _ (hshown ▸ hp)
  · rcases List.mem_cons.1 (hall ▸ hp) with rfl | hp
    · exact .inl (List.mem_singleton.2 rfl)
    · exact .inr ⟨p, hshown ▸ hp, rfl⟩

theorem closePopupLevel_sound : Sound menus P s (closePopupLevel s) := by
  unfold closePopupLevel
  split
  · exact Sound.skip
  · next hvisible =>
    rw [Bool.not_eq_true, Bool.not_eq_false'] at hvisible
    apply Sound.pop hvisible
    cases s.stack <;> simp

variable {c : Scene}

theorem revealSelectedRow_same (p : OpenMenu) : (revealSelectedRow c p).bounds = p.bounds ∧
    (revealSelectedRow c p).visible = p.visible ∧ (revealSelectedRow c p).menu = p.menu := by
  unfold revealSelectedRow
  dsimp only
  split_ifs <;> exact ⟨rfl, rfl, rfl⟩

theorem newPopup_opened (c : Scene) (entries : List MenuEntry) (ownerWindow menuHandle : Nat)
    (x y : Int) (parentMenu parentIndex : Nat) :
    (newPopup c entries ownerWindow menuHandle x y parentMenu parentIndex).visible = true ∧
      (newPopup c entries ownerWindow menuHandle x y parentMenu parentIndex).menu = menuHandle :=
  (revealSelectedRow_same _).2

/-- A popup that opens in the place of others exposes what they covered. -/
theorem openPopup_sound (hc : c.desk.menus = menus) {ownerWindow menuHandle : Nat} {x y : Int}
    {parentMenu parentIndex : Nat} : Sound menus (s.openMenu.visible = true → s.stack = [] ∨
        s.openMenu.menu = parentMenu ∧ s.stack.length < maxMenus) s
      (openPopup c ownerWindow menuHandle x y parentMenu parentIndex s) := by
  unfold openPopup
  split
  · next i owner hmenu howner =>
    dsimp only
    split
    · exact Sound.skip
    · obtain ⟨hvisible, hopened⟩ :=
        newPopup_opened c (c.desk.menus i).entries ownerWindow menuHandle
        x y parentMenu parentIndex
      generalize newPopup c (c.desk.menus i).entries ownerWindow menuHandle x y parentMenu
        parentIndex = popup at hvisible hopened
      intro hs
      by_cases hpush : s.openMenu.visible = true ∧ s.openMenu.menu = parentMenu ∧
          s.stack.length < maxMenus
      · rw [if_pos hpush]
        have hall : shown s = s.openMenu :: s.stack := if_pos hpush.1
        refine ⟨⟨List.forall_mem_cons.2 ⟨hpush.1, hs.visible⟩, ?_⟩, fun _ p hp => .inr ⟨p, ?_, rfl⟩⟩
        all_goals simp only [shown, hvisible]
        · exact List.forall_mem_cons.2 ⟨by rw [hopened, ← hc, hmenu]; rfl, hall ▸ hs.known⟩
        · exact .tail _ (hall ▸ hp)
      · rw [if_neg hpush]
        refine ⟨⟨by simp, ?_⟩, fun hshallow p hp => ?_⟩
        · simp only [shown, hvisible]
          exact List.forall_mem_singleton.2 (by rw [hopened, ← hc, hmenu]; rfl)
        · by_cases hopen : s.openMenu.visible = true
          · rcases hshallow hopen with hnone | hmore
            · rw [shown, if_pos hopen, hnone, List.mem_singleton] at hp
              exact .inl (by simp [hopen, hp])
            · exact absurd ⟨hopen, hmore⟩ hpush
          · rw [shown, if_neg hopen] at hp
            cases hp
  · exact Sound.skip

theorem openTopLevelPopup_sound (hc : c.desk.menus = menus) {w : Slot} {index : Nat}
    (hstack : s.openMenu.visible = true → s.stack = []) :
    Sound menus P s (openTopLevelPopup c w index s) := by
  unfold openTopLevelPopup
  dsimp only
  split <;> try exact Sound.skip
  split <;> try exact Sound.skip
  split <;> try exact Sound.skip
  exact (openPopup_sound hc).mono fun _ hvisible => .inl (hstack hvisible)

theorem switchTopLevelPopup_sound (hc : c.desk.menus = menus) {direction : Int} :
    Sound menus P s (switchTopLevelPopup c direction s) := by
  unfold switchTopLevelPopup
  split
  · exact Sound.skip
  · next hsome =>
    split <;> try exact Sound.skip
    dsimp only
    split <;> try exact Sound.skip
    split <;> try exact Sound.skip
    exact openTopLevelPopup_sound hc fun _ => by simp at hsome; exact hsome.2.1

theorem selectMenuItem_sound (hc : c.desk.menus = menus) {menuHandle index : Nat}
    (hmenu : menuHandle = s.openMenu.menu) :
    Sound menus (s.stack.length < maxMenus) s (selectMenuItem c menuHandle index s) := by
  unfold selectMenuItem
  split
  · exact Sound.skip
  · split
    · split
      · obtain ⟨hbounds, hvisible, hsame⟩ := revealSelectedRow_same (c := c) s.openMenu
        exact (Sound.andThen (f := fun s =>
          ({ s with openMenu := revealSelectedRow c s.openMenu }, []))
          (Sound.same hbounds hvisible hsame rfl) fun _ => openPopup_sound hc).mono
          fun hroom => ⟨trivial, fun _ => .inr ⟨hsame.trans hmenu.symm, hroom⟩⟩
      · exact Sound.skip
    · split
      · exact Sound.skip
      · exact closeMenu_sound

variable {popup : OpenMenu} {below : List OpenMenu}

theorem backTo_sound
    (hsuffix : popup :: below <:+ s.openMenu :: s.stack) (hvisible : s.openMenu.visible = true) :
    Sound menus (s.stack.length ≤ below.length + 1) s (backTo popup below s) := by
  unfold backTo
  split
  · exact Sound.skip
  · next hlevel =>
    have hbelow : popup :: below <:+ s.stack := by
      rcases List.suffix_cons_iff.1 hsuffix with heq | h
      · exact absurd (congrArg List.length (List.cons.inj heq).2) hlevel
      · exact h
    have hall : shown s = s.openMenu :: s.stack := if_pos hvisible
    refine fun hs => ⟨⟨fun p hp => ?_, fun p hp => ?_⟩, fun hnear => ?_⟩
    · exact hs.visible p (hbelow.subset (.tail _ hp))
    · refine hs.known p (hall ▸ .tail _ (hbelow.subset ?_))
      simp only [shown] at hp
      split at hp
      · exact hp
      · cases hp
    · have hparent : s.stack = popup :: below := (hbelow.eq_of_length_le hnear).symm
      exact (Sound.pop (P := True) hvisible (.inl hparent) hs).2 trivial

theorem selectRow_sound {levelChanged : Bool} {selected : Int} :
    Sound menus P s (selectRow c levelChanged selected s) := by
  unfold selectRow
  dsimp only
  split
  · exact Sound.skip
  · exact Sound.same rfl rfl rfl rfl

theorem moveSelection_sound {entries : List MenuEntry} {direction : Int} :
    Sound menus P s (moveSelection c entries direction s) := by
  unfold moveSelection
  dsimp only
  split
  · exact Sound.skip
  · next index _ =>
    obtain ⟨hbounds, hvisible, hmenu⟩ :=
      revealSelectedRow_same (c := c) { s.openMenu with selected := index }
    exact Sound.same hbounds hvisible hmenu rfl

theorem popupHit_inside {x y : Int} {popups : List OpenMenu}
    (h : popupHit c x y popups = .inside popup below) : popup :: below <:+ popups := by
  induction popups with
  | nil => cases h
  | cons p rest ih =>
    unfold popupHit at h
    split_ifs at h with hstale hin
    · obtain ⟨rfl, rfl⟩ := PopupHit.inside.inj h
      exact List.suffix_refl _
    · exact (ih h).trans (List.suffix_cons _ _)

theorem popupHit_stale {x y : Int} {popups : List OpenMenu} (h : popupHit c x y popups = .stale) :
    ∃ p ∈ popups, (lookupMenu c.desk.menus p.menu).isSome = false := by
  induction popups with
  | nil => cases h
  | cons p rest ih =>
    unfold popupHit at h
    split_ifs at h with hstale hin
    · exact ⟨p, .head _, by simpa using hstale⟩
    · obtain ⟨q, hq, hgone⟩ := ih h
      exact ⟨q, .tail _ hq, hgone⟩

theorem popupAt_inside {x y : Int} (h : popupAt c x y s = .inside popup below) :
    s.openMenu.visible = true ∧ popup :: below <:+ s.openMenu :: s.stack := by
  unfold popupAt at h
  split at h
  · next hvisible => exact ⟨hvisible, popupHit_inside h⟩
  · cases h

theorem capture_sound : Sound menus True s (capture s) := Sound.same rfl rfl rfl rfl

theorem overTitle_sound (hc : c.desk.menus = menus) {down : Bool} {hit : BarHit} :
    Sound menus (s.stack.length < maxMenus ∧ (hit.entry.isPopup && hit.entry.enabled →
      s.openMenu.visible → s.stack = [] ∨ s.openMenu.menu = hit.entry.item ∧
        (down = true → s.openMenu.parentMenu = (c.window hit.window).menu))) s
      (overTitle c down hit s) := by
  cases down with
  | true =>
    suffices h : Sound menus (True ∧ (hit.entry.isPopup && hit.entry.enabled → s.openMenu.visible →
        s.stack = [] ∨ s.openMenu.menu = hit.entry.item ∧
          s.openMenu.parentMenu = (c.window hit.window).menu)) s (overTitle c true hit s) from
      h.mono fun hshallow => ⟨trivial, fun htitle hvisible =>
        (hshallow.2 htitle hvisible).imp_right fun h => ⟨h.1, h.2 rfl⟩⟩
    simp only [overTitle, if_true]
    refine capture_sound.andThen fun _ => ?_
    split
    · next htitle =>
      split
      · exact closeMenu_sound
      · next hother =>
        refine (openPopup_sound hc).mono fun hshallow hvisible => .inl ?_
        exact ((hshallow htitle hvisible).resolve_right fun h =>
          hother ⟨hvisible, h⟩ : s.stack = [])
    · split
      · exact closeMenu_sound
      · exact Sound.skip
  | false =>
    simp only [overTitle, Bool.false_eq_true, if_false]
    split
    · next hopen =>
      simp only [Bool.and_eq_true, bne_iff_ne] at hopen
      obtain ⟨⟨⟨-, hpopup⟩, henabled⟩, hother⟩ := hopen
      refine (openPopup_sound hc).mono fun hshallow hvisible => .inl ?_
      exact (hshallow.2 (by rw [hpopup, henabled]; rfl) hvisible).resolve_right fun h => hother h.1
    · exact Sound.skip

theorem pressRow_sound (hc : c.desk.menus = menus) {down : Bool} {selected : Int} :
    Sound menus (s.stack.length < maxMenus) s (pressRow c down selected s) := by
  unfold pressRow
  split
  · refine (capture_sound.andThen (Q := s.stack.length < maxMenus) fun _ => ?_).mono
      fun hroom => ⟨trivial, hroom⟩
    split
    · exact selectMenuItem_sound hc rfl
    · exact Sound.skip
  · exact Sound.skip

theorem selectRow_stack (levelChanged : Bool) (selected : Int) :
    (selectRow c levelChanged selected s).1.stack = s.stack := by
  unfold selectRow
  dsimp only
  split <;> rfl

theorem backTo_stack (hsuffix : popup :: below <:+ s.openMenu :: s.stack) :
    (backTo popup below s).1.stack.length ≤ s.stack.length := by
  have hlength := hsuffix.length_le
  unfold backTo
  split
  · exact le_rfl
  · exact Nat.le_of_succ_le_succ hlength

theorem overPopup_sound (hc : c.desk.menus = menus) {y : Int} {down : Bool}
    (hvisible : s.openMenu.visible = true) (hsuffix : popup :: below <:+ s.openMenu :: s.stack) :
    Sound menus (s.stack.length < maxMenus ∧ s.stack.length ≤ below.length + 1) s
      (overPopup c y down popup below s) := by
  refine ((backTo_sound hsuffix hvisible).andThen fun _ =>
    (selectRow_sound (P := True)).andThen fun _ => pressRow_sound hc).mono fun h => ?_
  rw [selectRow_stack]
  exact ⟨h.2, trivial, (backTo_stack hsuffix).trans_lt h.1⟩

end Effects

/-! ## Whole runs -/

/-- What `menu_mouse_locked` and `menu_key_locked` are called with, and the windows they find. -/
inductive MenuEvent where
  | mouse (c : Scene) (x y : Int) (down : Bool)
  | key (c : Scene) (virtualKey : Nat) (alt pressed : Bool)

def MenuEvent.scene : MenuEvent → Scene
  | .mouse c _ _ _ => c
  | .key c _ _ _ => c

def MenuEvent.apply : MenuEvent → Popups → Bool × Popups × List Rect
  | .mouse c x y down => menuMouse c x y down
  | .key c virtualKey alt pressed => menuKey c virtualKey alt pressed

/-- What holds of each event of a run and the popups it finds. -/
def EveryStep (P : Popups → MenuEvent → Prop) : Popups → List MenuEvent → Prop
  | _, [] => True
  | s, e :: rest => P s e ∧ EveryStep P (e.apply s).2.1 rest

/-- There is room on the stack; the pointer does not go back to a popup more than one level up; and
a title does not open its popup over a stack. -/
def Shallow (s : Popups) : MenuEvent → Prop
  | .key _ _ _ _ => s.stack.length < maxMenus
  | .mouse c x y down => s.stack.length < maxMenus ∧ ((s.mouseCapture = true → down = true) →
    match popupAt c x y s with
    | .stale => True
    | .inside _ below => s.stack.length ≤ below.length + 1
    | .outside => ∀ hit, menuBarHit c x y = some hit → hit.entry.isPopup && hit.entry.enabled →
        s.openMenu.visible → s.stack = [] ∨ s.openMenu.menu = hit.entry.item ∧
          (down = true → s.openMenu.parentMenu = (c.window hit.window).menu))

/-- Each pixel of a popup that is no longer on the screen is exposed. -/
def ErasesPixels (s : Popups) (r : Popups × List Rect) : Prop :=
  ∀ x y, (shown s).any (·.bounds.contains x y) → ¬ (shown r.1).any (·.bounds.contains x y) →
    r.2.any (·.contains x y)

theorem Erases.pixels {s : Popups} {r : Popups × List Rect} (h : Erases s r) :
    ErasesPixels s r := by
  intro x y hbefore hafter
  obtain ⟨p, hp, hin⟩ := List.any_eq_true.1 hbefore
  rcases h p hp with hexposed | ⟨q, hq, hbounds⟩
  · exact List.any_eq_true.2 ⟨_, hexposed, hin⟩
  · exact absurd (List.any_eq_true.2 ⟨q, hq, hbounds ▸ hin⟩) hafter

theorem menuMouse_sound {menus : Menus} {s : Popups} {c : Scene} (hc : c.desk.menus = menus)
    {x y : Int} {down : Bool} :
    Sound menus (Shallow s (.mouse c x y down)) s (menuMouse c x y down s).2 := by
  by_cases hswallow : s.mouseCapture = true ∧ (!down) = true
  · rw [menuMouse, if_pos hswallow]
    exact Sound.same rfl rfl rfl rfl
  · have htaken : s.mouseCapture = true → down = true := by simpa using hswallow
    rw [menuMouse, if_neg hswallow]
    simp only [Shallow]
    cases hhit : popupAt c x y s with
    | stale => exact closeMenu_sound
    | inside popup below =>
      obtain ⟨hvisible, hsuffix⟩ := popupAt_inside hhit
      exact (overPopup_sound hc hvisible hsuffix).mono fun h => ⟨h.1, h.2 htaken⟩
    | outside =>
      cases hbar : menuBarHit c x y with
      | some hit => exact (overTitle_sound hc).mono fun h => ⟨h.1, h.2 htaken hit rfl⟩
      | none =>
        dsimp only
        split
        · exact closeMenu_sound
        · exact Sound.skip

theorem openBar_sound {menus : Menus} {P : Prop} {s : Popups} {c : Scene}
    (hc : c.desk.menus = menus) (hclosed : ¬ s.openMenu.visible = true) :
    Sound menus P s (openBar c s).2 := by
  unfold openBar
  split <;> try exact Sound.skip
  split <;> try exact Sound.skip
  split <;> try exact Sound.skip
  split <;> try exact Sound.skip
  exact openTopLevelPopup_sound hc fun h => absurd h hclosed

theorem menuKey_sound {menus : Menus} {s : Popups} {c : Scene} (hc : c.desk.menus = menus)
    {virtualKey : Nat} {alt pressed : Bool} (hs : s.Ok menus) :
    Sound menus (s.stack.length < maxMenus) s (menuKey c virtualKey alt pressed s).2 := by
  unfold menuKey
  split
  · exact Sound.skip
  · split
    · next hclosed =>
      split
      · exact Sound.skip
      · exact openBar_sound hc (by simpa using hclosed)
    · next hopen =>
      have hvisible : s.openMenu.visible = true := by simpa using hopen
      have hcurrent : Sound menus (s.stack.length < maxMenus) s (selectCurrent c s) := by
        unfold selectCurrent
        split
        · exact selectMenuItem_sound hc rfl
        · exact Sound.skip
      split
      · next hgone =>
        have hknown := hs.known s.openMenu (by simp [shown, hvisible])
        simp [Scene.entries, hc] at hgone
        simp [hgone] at hknown
      · split_ifs
        exacts [closePopupLevel_sound, closeMenu_sound, moveSelection_sound, moveSelection_sound,
          hcurrent, hcurrent, switchTopLevelPopup_sound hc, closePopupLevel_sound,
          switchTopLevelPopup_sound hc, Sound.skip]

theorem menuEvent_sound {menus : Menus} {s : Popups} {e : MenuEvent}
    (he : e.scene.desk.menus = menus)
    (hs : s.Ok menus) : (e.apply s).2.1.Ok menus ∧ (Shallow s e → Erases s (e.apply s).2) := by
  cases e with
  | mouse c x y down => exact menuMouse_sound he hs
  | key c virtualKey alt pressed => exact menuKey_sound he hs hs

/-- On any menus: when no event of a run closes more than the open popup but by closing them all,
each event exposes every pixel of the popups that it takes off the screen. -/
theorem popups_erased {menus : Menus} {events : List MenuEvent}
    (hmenus : ∀ e ∈ events, e.scene.desk.menus = menus) (h : EveryStep Shallow {} events) :
    EveryStep (fun s e => ErasesPixels s (e.apply s).2) {} events := by
  suffices hrun : ∀ s : Popups, s.Ok menus → EveryStep Shallow s events →
      EveryStep (fun s e => ErasesPixels s (e.apply s).2) s events from
    hrun {} ⟨by simp, by simp [shown]⟩ h
  clear h
  induction events with
  | nil => exact fun _ _ _ => trivial
  | cons e rest ih =>
    rintro s hs ⟨hshallow, hrest⟩
    obtain ⟨hok, herases⟩ := menuEvent_sound (hmenus e (.head _)) hs
    exact ⟨(herases hshallow).pixels,
      ih (fun e he => hmenus e (.tail _ he)) _ hok hrest⟩

/-- A window with a menu bar, whose title opens three popups in a row. -/
def nestedMenus : Menus := fun i =>
  if i.1 < 4 then
    { used := true, popup := i ≠ 0, generation := 1, owner := 1
      entries := [{ flags := if i.1 < 3 then menuItemPopup else 0, item := 2 ^ 16 + i + 2 }] }
  else {}

def nestedScene : Scene where
  desk :=
    { windows := { State.booted smallFont with
        window := fun _ => { hwnd := 65537, style := { visible := true }, menu := 65537,
                             process := 1
                             rect := ⟨0, 0, 400, 300⟩ }
        used := fun w => w = 0
        generation := fun _ => 1
        top := some 0
        focus := 65537
        screen := ⟨0, 0, 640, 480⟩ }
      menus := nestedMenus }
  textWidth _ := 0
  hasQueue _ := true

/-- F10 and the right key open two popups; the Escape key closes them one after the other. -/
def openAndClose : List MenuEvent :=
  [.key nestedScene 0x79 false true, .key nestedScene 39 false true,
    .key nestedScene 27 false true, .key nestedScene 27 false true]

theorem popups_erased_keys :
    (openAndClose.scanl (fun s e => (e.apply s).2.1) {}).map (fun s => (shown s).length) =
      [0, 1, 2, 1, 0] ∧
    EveryStep (fun s e => ErasesPixels s (e.apply s).2) {} openAndClose :=
  ⟨by decide +kernel,
    @popups_erased nestedMenus _ (by simp [openAndClose, MenuEvent.scene, nestedScene])
      ⟨by simp only [Shallow]; decide, by simp only [Shallow]; decide +kernel,
        by simp only [Shallow]; decide +kernel, by simp only [Shallow]; decide +kernel, trivial⟩⟩

/-- F10 and the right key twice; then the pointer moves over the border of the first popup. -/
def hoverRoot : List MenuEvent :=
  [.key nestedScene 0x79 false true, .key nestedScene 39 false true,
    .key nestedScene 39 false true, .mouse nestedScene 0 12 false]

theorem middle_popup_left : ¬ EveryStep (fun s e => ErasesPixels s (e.apply s).2) {} hoverRoot := by
  rintro ⟨-, -, -, herases, -⟩
  have hexposed := herases 60 20 (by decide +kernel) (by decide +kernel)
  revert hexposed
  decide +kernel

end UnDOS.User
