import UnDOS.User.Windows

/-!
# Moving Windows

`placement_rect_locked`, `move_window_locked` and the flow of minimized siblings (`window.cpp`).

A move shifts the whole subtree.  When the size changes it goes on to the children: maximized ones
fill the new client area, minimized ones flow along its bottom.  The recursion is as deep as the
tree.
-/

namespace UnDOS.User

open UnDOS.Kernel (KernelError)

/-! ## The coordinate space -/

/-- `kMinWindowCoordinate`. -/
def minCoordinate : Int := -32768

/-- `kMaxWindowCoordinate`. -/
def maxCoordinate : Int := 32767

/-- The corners of a rectangle are in the coordinate space. -/
def Rect.cornersInRange (r : Rect) : Bool :=
  decide (minCoordinate ≤ r.left ∧ minCoordinate ≤ r.top ∧ r.right ≤ maxCoordinate ∧
    r.bottom ≤ maxCoordinate)

/-- The range check of a move. -/
def Rect.inRange (r : Rect) : Bool :=
  r.cornersInRange && decide (r.width ≤ maxCoordinate ∧ r.height ≤ maxCoordinate)

/-- `placement_rect_locked`. -/
def placementRect (s : State) (w : Window) (x y width height : Int) : Except KernelError Rect := do
  if width ≤ 0 ∨ height ≤ 0 then throw .invalidSize
  let origin : Rect ←
    if w.parent ≠ 0 then
      match lookup s w.parent with
      | none => throw .invalidHandle
      | some p => pure (clientToScreen s.metrics (s.window p) {})
    else pure {}
  let rect : Rect := ⟨x + origin.left, y + origin.top, x + origin.left + width,
    y + origin.top + height⟩
  if rect.inRange then pure rect else throw .outOfRange

/-! ## Shifting a subtree -/

/-- A saved rectangle moves along, unless there is none. -/
def Window.shifted (w : Window) (dx dy : Int) : Window :=
  { w with
    rect := w.rect.offset dx dy
    restoredRect := if w.restoredRect.isEmpty then w.restoredRect else w.restoredRect.offset dx dy }

/-- The windows of the z-order that lie below one in the tree. -/
def descendantsOf (s : State) (w : Slot) : List Slot := (zOrder s).filter fun d => descendant s d w

/-- The check that the source makes before it shifts the descendants of a window. -/
def canShift (s : State) (w : Slot) (dx dy : Int) : Bool :=
  (descendantsOf s w).all fun d => ((s.window d).rect.offset dx dy).cornersInRange

/-- The shift takes the saved rectangle of a minimized or maximized window out of range; the source
does not look at it. -/
def Window.strays (w : Window) (dx dy : Int) : Bool :=
  w.state != .restored && !(w.restoredRect.offset dx dy).cornersInRange

/-- Shift the descendants of a window. -/
def shiftDescendants (s : State) (w : Slot) (dx dy : Int) : State :=
  let below := descendantsOf s w
  { s with
    window := fun d => if d ∈ below then (s.window d).shifted dx dy else s.window d
    seen := { s.seen with
      strayed := s.seen.strayed || below.any fun d => (s.window d).strays dx dy } }

/-! ## Minimized siblings -/

/-- `minimized_width_locked`. -/
def minimizedWidth (m : Metrics) (w : Window) : Int :=
  if w.parent = 0 then 144
  else
    let label := m.labelWidth w.title + 8
    if 88 < label then (if maxCoordinate < label then maxCoordinate else label) else 88

/-- `minimized_height_locked`. -/
def minimizedHeight (m : Metrics) (w : Window) : Int :=
  if w.parent ≠ 0 then minimizedChildHeight m else captionHeight m + 2 * borderWidth

/-- `minimized_bounds_locked`. -/
def minimizedBounds (s : State) (parent : Nat) : Rect :=
  match lookup s parent with
  | some p => clientArea s.metrics (s.window p)
  | none => s.screen

/-- The insertion of `layout_minimized_locked`: behind every icon that is not younger. -/
def insertIcon (s : State) (w : Slot) : List Slot → List Slot
  | [] => [w]
  | i :: icons =>
    if (s.window w).iconOrder < (s.window i).iconOrder then w :: i :: icons
    else i :: insertIcon s w icons

/-- The visible minimized windows with a parent, in the order in which they were minimized. -/
def iconsOf (s : State) (parent : Nat) : List Slot :=
  ((List.finRange 64).filter fun w =>
    s.used w && ((s.window w).parent == parent && s.minimized w && s.visible w)).foldl
      (fun icons w => insertIcon s w icons) []

/-- The places of the icons from one on: left to right, then upwards. -/
def flowIcons (s : State) (bounds : Rect) : Int → Int → List Slot → List (Slot × Rect)
  | _, _, [] => []
  | x, bottom, w :: icons =>
    let measured := minimizedWidth s.metrics (s.window w)
    let width := if measured < bounds.width then measured else bounds.width
    let height := minimizedHeight s.metrics (s.window w)
    let wraps := decide (x ≠ bounds.left ∧ bounds.right - x < width)
    let bottom := if wraps && decide (bounds.top < bottom - height) then bottom - height else bottom
    let x := if wraps then bounds.left else x
    let target : Rect := ⟨x, bottom - height, x + width, bottom⟩
    let target := if target.top < bounds.top then target.offset 0 (bounds.top - target.top)
      else target
    (w, target) :: flowIcons s bounds (x + width) bottom icons

/-- `layout_minimized_locked`. -/
def layoutMinimized (s : State) (parent : Nat) : List (Slot × Rect) :=
  let bounds := minimizedBounds s parent
  if bounds.isEmpty then [] else flowIcons s bounds bounds.left bounds.bottom (iconsOf s parent)

/-! ## Moves -/

/-- Note that a move was rejected. -/
def State.refuse (s : State) : State := { s with seen := { s.seen with refused := true } }

/-- Place a window and shift what is below it. -/
def placeWindow (s : State) (w : Slot) (rect : Rect) : State :=
  let old := (s.window w).rect
  shiftDescendants (s.setWindow w fun o => { o with rect }) w (rect.left - old.left)
    (rect.top - old.top)

/-- The children that are fitted to a changed client area. -/
def maximizedChildren (s : State) (w : Slot) : List Slot :=
  (zOrder s).filter fun c =>
    (s.window c).parent == (s.window w).hwnd && (s.window c).state == .maximized

/-- Note that maximized children were not asked. -/
def State.loosen (s : State) (loose : Bool) : State :=
  { s with seen := { s.seen with unfitted := s.seen.unfitted || loose } }

/-- Between two states the client area of a window with maximized children gets another size. -/
def loosens (s s' : State) (w : Slot) : Bool :=
  let area := clientRect s'.metrics (s'.window w)
  !(maximizedChildren s w).isEmpty && !area.isEmpty && area != clientRect s.metrics (s.window w)

/-- `move_window_locked`. -/
def moveWindow : Nat → State → Slot → Rect → Option KernelError × State
  | fuel, s, w, rect =>
    let old := (s.window w).rect
    if old = rect then (none, s)
    else if rect.isEmpty then (some .invalidSize, s)
    else if !rect.inRange then (some .outOfRange, s.refuse)
    else if !canShift s w (rect.left - old.left) (rect.top - old.top) then
      (some .outOfRange, s.refuse)
    else
      let s := placeWindow s w rect
      if old.width = rect.width ∧ old.height = rect.height then (none, s)
      else
        match fuel with
        | 0 => (none, s)
        | fuel + 1 =>
          let bounds := clientArea s.metrics (s.window w)
          if bounds.isEmpty then (none, s)
          else
            let s := (maximizedChildren s w).foldl (fun s c => (moveWindow fuel s c bounds).2) s
            (none, (layoutMinimized s (s.window w).hwnd).foldl
              (fun s p => (moveWindow fuel s p.1 p.2).2) s)

/-- A move as the other functions call it. -/
def moveTo (s : State) (w : Slot) (rect : Rect) : Option KernelError × State :=
  moveWindow 64 s w rect

/-- `arrange_minimized_locked`. -/
def arrangeMinimized (s : State) (parent : Nat) : State :=
  (layoutMinimized s parent).foldl (fun s p => (moveTo s p.1 p.2).2) s

end UnDOS.User
