import Mathlib
import UnDOS.Kernel.Error
import UnDOS.Lib.Forest
import UnDOS.Lib.Intrusive

/-!
# Windows

The window table of the window manager (`user/window.cpp`) with its tree and its z-order, and the
client areas of `user/nonclient.cpp`.

- A window is named by its slot of the table, a handle by its number: the generation of the slot
  in the upper half, the slot plus one in the lower.  `window i` is the object that the slot
  holds or held last; `used i` says that it is in the table.
- The z-order is intrusive, topmost first: `next` is `below` and `prev` is `above`.
- Parents are handles, so every step up the tree is a lookup.

Everything is done under one lock.  What is only drawn or posted to a message queue is left out.
-/

namespace UnDOS.User

open UnDOS.Lib
open UnDOS.Lib.Intrusive (Links Queue)

/-! ## Data -/

/-- `URect`. -/
structure Rect where
  left : Int := 0
  top : Int := 0
  right : Int := 0
  bottom : Int := 0
deriving DecidableEq, Inhabited

namespace Rect

def isEmpty (r : Rect) : Bool := decide (r.right ≤ r.left ∨ r.bottom ≤ r.top)

def offset (r : Rect) (dx dy : Int) : Rect := ⟨r.left + dx, r.top + dy, r.right + dx, r.bottom + dy⟩

def intersect (r o : Rect) : Rect :=
  let i : Rect := ⟨max r.left o.left, max r.top o.top, min r.right o.right, min r.bottom o.bottom⟩
  if i.isEmpty then {} else i

def width (r : Rect) : Int := r.right - r.left

def height (r : Rect) : Int := r.bottom - r.top

def contains (r : Rect) (x y : Int) : Bool :=
  decide (r.left ≤ x ∧ x < r.right ∧ r.top ≤ y ∧ y < r.bottom)

end Rect

/-- `KWindowObject::State`. -/
inductive ShowState where
  | restored | minimized | maximized
deriving DecidableEq, Inhabited

/-- The style bits that the window manager reads. -/
structure Style where
  visible : Bool := false
  caption : Bool := false
  border : Bool := false
  child : Bool := false
deriving DecidableEq, Inhabited

/-- A process. -/
abbrev Process := Nat

/-- `KWindowObject`. -/
structure Window where
  hwnd : Nat := 0
  title : String := ""
  style : Style := {}
  rect : Rect := {}
  restoredRect : Rect := {}
  state : ShowState := .restored
  iconOrder : Nat := 0
  parent : Nat := 0
  menu : Nat := 0
  process : Process := 0
deriving DecidableEq, Inhabited

/-- An index into `g_windows`. -/
abbrev Slot := Fin 64

instance : LawfulBEq Slot := inferInstance

instance slotsPos : NeZero 64 := inferInstance

/-- `WindowClass`. -/
structure WindowClass where
  name : String
  process : Process
deriving DecidableEq

/-- What is read of the default font and of the menu font.  `labelWidth` is the width of a text in
the default font. -/
structure Metrics where
  textHeight : Int
  menuTextHeight : Int
  labelWidth : String → Int

/-- `HitTest`, without the codes that no window answers. -/
inductive HitTest where
  | nowhere | client | caption | sysMenu | minButton | maxButton
  | left | right | top | topLeft | topRight | bottom | bottomLeft | bottomRight | menuBar
deriving DecidableEq, Inhabited

/-- The pointer, and the drag and the click that are under way. -/
structure InputState where
  mouseX : Int := 0
  mouseY : Int := 0
  dragHwnd : Nat := 0
  dragHit : HitTest := .nowhere
  dragX : Int := 0
  dragY : Int := 0
  dragRect : Rect := {}
  dragPending : Bool := false
  lastClickHwnd : Nat := 0
  lastClickTime : Nat := 0
  lastClickX : Int := 0
  lastClickY : Int := 0
  lastClickHit : HitTest := .nowhere
deriving DecidableEq, Inhabited

/-- What a run has seen of moves.  The source keeps none of this.

`refused`: a move was rejected because it would leave the coordinate space.  `strayed`: a shift met
a saved rectangle that does not fit at its new place, or a change of font an icon without the height
for its growth.  `unfitted`:
a client area was resized, or a child moved away, without a look at a maximized child. -/
structure Seen where
  refused : Bool := false
  strayed : Bool := false
  unfitted : Bool := false
deriving DecidableEq, Inhabited

/-- The state that the lock guards. -/
structure State where
  window : Slot → Window
  used : Slot → Bool
  generation : Slot → Nat
  links : Links Slot
  top : Option Slot
  classes : Fin 16 → Option WindowClass
  capture : Nat
  active : Nat
  focus : Nat
  iconOrder : Nat
  screen : Rect
  metrics : Metrics
  input : InputState
  seen : Seen

/-- No windows. -/
def State.booted (metrics : Metrics) : State where
  window _ := {}
  used _ := false
  generation _ := 0
  links := ⟨fun _ => none, fun _ => none⟩
  top := none
  classes _ := none
  capture := 0
  active := 0
  focus := 0
  iconOrder := 0
  screen := {}
  metrics := metrics
  input := {}
  seen := {}

namespace State

/-- Change a window in place. -/
def setWindow (s : State) (w : Slot) (f : Window → Window) : State :=
  { s with window := Function.update s.window w (f (s.window w)) }

def visible (s : State) (w : Slot) : Bool := (s.window w).style.visible

def minimized (s : State) (w : Slot) : Bool := (s.window w).state == .minimized

end State

/-! ## Handles and the tree -/

/-- `lookup_locked`. -/
def lookup (s : State) (hwnd : Nat) : Option Slot :=
  if h : 1 ≤ hwnd % 2 ^ 16 ∧ hwnd % 2 ^ 16 - 1 < 64 then
    let i : Slot := ⟨hwnd % 2 ^ 16 - 1, h.2⟩
    if s.generation i = hwnd / 2 ^ 16 ∧ s.used i then some i else none
  else none

/-- The parent of a window, by its handle. -/
def parentOf (s : State) (w : Slot) : Option Slot := lookup s (s.window w).parent

/-- The windows above a window in the tree, nearest first.  The loops of the source over them are
bounded by the size of the table, or not at all. -/
def ancestors (s : State) (w : Slot) : List Slot := Forest.climb (parentOf s) 64 (parentOf s w)

/-- `descendant_locked`. -/
def descendant (s : State) (w ancestor : Slot) : Bool := (ancestors s w).contains ancestor

/-- `effectively_visible_locked`. -/
def effectivelyVisible (s : State) (w : Slot) : Bool :=
  s.visible w && (ancestors s w).all fun a => s.visible a && !s.minimized a

def root (s : State) (w : Slot) : Slot := (ancestors s w).getLastD w

/-! ## Z-order -/

def unlinkZ (s : State) (w : Slot) : State :=
  let r := Intrusive.remove s.links { head := s.top } w
  { s with links := r.1, top := r.2.head }

def linkTop (s : State) (w : Slot) : State :=
  let r := Intrusive.pushFront s.links { head := s.top } w
  { s with links := r.1, top := r.2.head }

/-- The step of the last loop of `raise_subtree`: link a window right above another. -/
def linkAbove (before : Slot) (s : State) (w : Slot) : State :=
  let r := Intrusive.insertBefore s.links { head := s.top } before w
  { s with links := r.1, top := r.2.head }

/-- The windows from one on downwards in the z-order. -/
def downwards (links : Links Slot) : Nat → Option Slot → List Slot
  | 0, _ => []
  | _ + 1, none => []
  | fuel + 1, some w => w :: downwards links fuel (links.next w)

/-- What a loop over the z-order from `g_top` visits. -/
def zOrder (s : State) : List Slot := downwards s.links 64 s.top

/-- Where `raise_subtree` puts its windows: above the topmost one of the parent's subtree. -/
def raiseBefore (s : State) (w : Slot) : Option Slot :=
  match parentOf s w with
  | none => s.top
  | some p => some (((zOrder s).find? fun it => descendant s it p).getD p)

def raiseSubtree (s : State) (w : Slot) : State :=
  let members := (zOrder s).filter fun it => it == w || descendant s it w
  let s := members.foldl unlinkZ s
  match raiseBefore s w with
  | none => members.foldr (fun it s => linkTop s it) s
  | some before => members.foldl (linkAbove before) s

/-- `raise_branch`: the root first. -/
def raiseBranch (s : State) (w : Slot) : State :=
  (w :: ancestors s w).foldr (fun a s => raiseSubtree s a) s

/-! ## Client areas -/

/-- `kCaptionButtonSize`. -/
def captionButtonSize : Int := 18

/-- `kBorderWidth`. -/
def borderWidth : Int := 3

/-- `caption_height_locked`. -/
def captionHeight (m : Metrics) : Int :=
  if captionButtonSize < m.textHeight + 4 then m.textHeight + 4 else captionButtonSize

/-- `minimized_child_height_locked`. -/
def minimizedChildHeight (m : Metrics) : Int := 40 + m.textHeight

/-- `menu_row_height_locked`. -/
def menuRowHeight (m : Metrics) : Int := m.menuTextHeight + 2 * 2

/-- The width of a border. -/
def borderOf (w : Window) : Int := if w.style.border then borderWidth else 0

/-- The height of caption and menu row. -/
def chromeOf (m : Metrics) (w : Window) : Int :=
  (if w.style.caption then captionHeight m else 0) + if w.menu ≠ 0 then menuRowHeight m else 0

/-- `client_rect_locked`. -/
def clientRect (m : Metrics) (w : Window) : Rect :=
  if w.state = .minimized then {}
  else
    let width := w.rect.width - 2 * borderOf w
    let height := w.rect.height - 2 * borderOf w - chromeOf m w
    ⟨0, 0, if 0 < width then width else 0, if 0 < height then height else 0⟩

/-- `client_to_screen_locked`. -/
def clientToScreen (m : Metrics) (w : Window) (r : Rect) : Rect :=
  r.offset (w.rect.left + borderOf w) (w.rect.top + borderOf w + chromeOf m w)

/-- The client area of a window on the screen. -/
def clientArea (m : Metrics) (w : Window) : Rect := clientToScreen m w (clientRect m w)

/-- `clipped_rect_locked`. -/
def clippedRect (s : State) (w : Slot) : Rect :=
  if effectivelyVisible s w then
    (ancestors s w).foldl (fun r p => r.intersect (clientArea s.metrics (s.window p)))
      ((s.window w).rect.intersect s.screen)
  else {}

/-- `window_from_point_locked`. -/
def windowFromPoint (s : State) (x y : Int) : Option Slot :=
  (zOrder s).find? fun w => (clippedRect s w).contains x y

/-- `mouse_target_locked`. -/
def mouseTarget (s : State) (x y : Int) : Option Slot :=
  match lookup s s.capture with
  | some w => if effectivelyVisible s w then some w else windowFromPoint s x y
  | none => windowFromPoint s x y

end UnDOS.User
