import UnDOS.User.Commands
import UnDOS.Lib.Run

/-!
# Calls of the Window Manager

The operations of the window manager, each done as a whole under its lock: the system calls of
`window.cpp`, the input events of `rawinput.cpp`, and changes of menus, font and display.

What lies outside is an answer in the call: whether a window object and a message queue could be
had, whether a menu may be attached and which menus go away with one, and what the menus do with
an event.
-/

namespace UnDOS.User

open UnDOS.Kernel (KernelError)
open UnDOS.Lib

/-! ## Windows -/

/-- `owned_window_locked`. -/
def ownedWindow (s : State) (caller : Process) (hwnd : Nat) : Except KernelError Slot :=
  match lookup s hwnd with
  | none => throw .invalidHandle
  | some w => if (s.window w).process = caller then pure w else throw .accessDenied

/-- `register_class` with `register_class_locked`. -/
def registerClass (s : State) (caller : Process) (name : String) : Option KernelError × State :=
  if name.utf8ByteSize = 0 then (some .invalidArgument, s)
  else if 32 ≤ name.utf8ByteSize then (some .nameTooLong, s)
  else
    let same := (List.finRange 16).find? fun i => s.classes i == some ⟨name, caller⟩
    match same.or ((List.finRange 16).find? fun i => (s.classes i).isNone) with
    | none => (some .resourceLimitExceeded, s)
    | some i => (none, { s with classes := Function.update s.classes i (some ⟨name, caller⟩) })

/-- `CreateWindowParams`. -/
structure CreateParams where
  className : String
  title : String := ""
  style : Style := {}
  parent : Nat := 0
  x : Int := 0
  y : Int := 0
  width : Int
  height : Int

/-- What creating a window needs from elsewhere: the object, and a queue with room. -/
structure Supplies where
  object : Option KernelError := none
  queue : Option KernelError := none

/-- An error, if there is one. -/
def orThrow : Option KernelError → Except KernelError Unit
  | none => pure ()
  | some e => throw e

/-- The window that is asked for. -/
def CreateParams.window (params : CreateParams) (caller : Process) : Window :=
  { title := params.title, style := params.style, parent := params.parent, process := caller }

/-- The end of `create_window`: placement, class, queue and table. -/
def finishCreate (s : State) (caller : Process) (params : CreateParams) (supplies : Supplies) :
    Except KernelError (Slot × State) := do
  let window := params.window caller
  let rect ← placementRect s window params.x params.y params.width params.height
  match (List.finRange 16).find? fun i => s.classes i == some ⟨params.className, caller⟩ with
  | none => throw .notFound
  | some _ =>
    orThrow supplies.queue
    insertWindow s { window with rect }

def createWindow (s : State) (caller : Process) (params : CreateParams) (supplies : Supplies) :
    Except KernelError (Slot × State) := do
  if params.width ≤ 0 ∨ params.height ≤ 0 then throw .invalidSize
  if 32 ≤ params.className.utf8ByteSize then throw .nameTooLong
  if 64 ≤ params.title.utf8ByteSize then throw .invalidSize
  if params.style.child ≠ (params.parent != 0) then throw .parentMismatch
  orThrow supplies.object
  if params.style.child then
    let _ ← ownedWindow s caller params.parent
  finishCreate s caller params supplies

/-- A maximized child is to be moved out of the client area that it fills. -/
def movesAway (s : State) (w : Slot) (rect : Rect) : Bool :=
  (s.window w).state == .maximized && (s.window w).parent != 0 && !(fillBounds s w).isEmpty &&
    rect != fillBounds s w

/-- `move_window`. -/
def moveWindowCall (s : State) (caller : Process) (hwnd : Nat) (x y width height : Int) :
    Option KernelError × State :=
  if width ≤ 0 ∨ height ≤ 0 then (some .invalidSize, s)
  else
    match ownedWindow s caller hwnd with
    | .error e => (some e, s)
    | .ok w =>
      match placementRect s (s.window w) x y width height with
      | .error e => (some e, s)
      | .ok rect =>
        match moveTo s w rect with
        | (some e, moved) => (some e, moved)
        | (none, moved) =>
          (none, (moved.loosen (movesAway s w rect)).setWindow w fun o =>
            if o.state = .restored then { o with restoredRect := rect } else o)

/-- The commands by their numbers. -/
def showCommandOf : Nat → Option ShowCommand
  | 0 => some .hide
  | 1 => some .display
  | 2 => some .minimize
  | 3 => some .maximize
  | 4 => some .restore
  | _ => none

/-- `show_window`. -/
def showWindowCall (s : State) (caller : Process) (hwnd command : Nat) :
    Option KernelError × State :=
  match ownedWindow s caller hwnd with
  | .error e => (some e, s)
  | .ok w =>
    match showCommandOf command with
    | none => (some .invalidArgument, s)
    | some command => showCommand s w command

/-- The width of a border that a style has. -/
def borderOfStyle (style : Style) : Int := if style.border then borderWidth else 0

/-- The height of a caption that a style has. -/
def captionOfStyle (m : Metrics) (style : Style) : Int := if style.caption then captionHeight m
    else 0

/-- Change the frame of a window, and note how far its client area moves. -/
def reframe (s : State) (w : Slot) (f : Window → Window) : State × Int × Int :=
  let s' := s.setWindow w f
  let origin := clientToScreen s.metrics (s.window w) {}
  let origin' := clientToScreen s'.metrics (s'.window w) {}
  (s'.loosen (loosens s s' w), origin'.left - origin.left, origin'.top - origin.top)

/-- Another style, with the visibility that the window has. -/
def Window.restyled (w : Window) (value : Style) : Window :=
  { w with style := { value with visible := w.style.visible } }

/-- `set_style_locked`. -/
def setStyle (s : State) (w : Slot) (value : Style) : Option KernelError × State :=
  let old := (s.window w).style
  if value.child ≠ old.child then (some .invalidArgument, s)
  else
    let borderDelta := borderOfStyle value - borderOfStyle old
    let captionDelta := captionOfStyle s.metrics value - captionOfStyle s.metrics old
    if !canShift s w borderDelta (borderDelta + captionDelta) then (some .outOfRange, s)
    else
      let r := reframe s w (·.restyled value)
      (none, showWindowTo (shiftDescendants r.1 w r.2.1 r.2.2) w value.visible)

/-- The indices of `set_window_long`; only the style matters here. -/
inductive LongIndex where
  | wndProc | userData | style | other
deriving DecidableEq

def setWindowLong (s : State) (caller : Process) (hwnd : Nat) (index : LongIndex) (value : Style) :
    Option KernelError × State :=
  match ownedWindow s caller hwnd with
  | .error e => (some e, s)
  | .ok w =>
    match index with
    | .wndProc | .userData => (none, s)
    | .style => setStyle s w value
    | .other => (some .invalidArgument, s)

def setCapture (s : State) (caller : Process) (hwnd : Nat) : Option KernelError × State :=
  match ownedWindow s caller hwnd with
  | .error e => (some e, s)
  | .ok w =>
    if effectivelyVisible s w && !s.minimized w then (none, setCaptureTo s hwnd)
    else (some .invalidState, s)

def releaseCapture (s : State) (caller : Process) : State :=
  match lookup s s.capture with
  | some w => if (s.window w).process = caller then setCaptureTo s 0 else s
  | none => s

def setFocus (s : State) (caller : Process) (hwnd : Nat) : Option KernelError × State :=
  if hwnd ≠ 0 then
    match ownedWindow s caller hwnd with
    | .error e => (some e, s)
    | .ok _ => setFocusTo s hwnd
  else
    match lookup s s.focus with
    | some w => if (s.window w).process ≠ caller then (some .accessDenied, s) else setFocusTo s 0
    | none => setFocusTo s 0

/-! ## Menus -/

/-- Attach another menu, or none. -/
def replaceMenu (s : State) (w : Slot) (menu : Nat) : State × Int × Int :=
  reframe s w fun o => { o with menu }

/-- A restored window's saved rectangle follows it. -/
def saveRestored (s : State) (w : Slot) : State :=
  s.setWindow w fun o => if o.state = .restored then { o with restoredRect := o.rect } else o

/-- `set_menu`; `answer` is that of `validate_menu_attachment_locked`. -/
def setMenu (s : State) (caller : Process) (hwnd menu : Nat) (answer : Option KernelError) :
    Option KernelError × State :=
  match ownedWindow s caller hwnd with
  | .error e => (some e, s)
  | .ok w =>
    match answer with
    | some e => (some e, s)
    | none =>
      if (s.window w).menu = menu then (none, s)
      else
        let r := replaceMenu s w menu
        if !canShift r.1 w r.2.1 r.2.2 then (some .outOfRange, s)
        else (none, saveRestored (shiftDescendants r.1 w r.2.1 r.2.2) w)

/-- `detach_menu_locked`. -/
def detachMenu (s : State) (w : Slot) : State :=
  if (s.window w).menu = 0 then s
  else
    let r := replaceMenu s w 0
    saveRestored (if canShift r.1 w r.2.1 r.2.2 then shiftDescendants r.1 w r.2.1 r.2.2
      else r.1.refuse) w

/-- `detach_menu_from_windows_locked`. -/
def detachMenuFromWindows (s : State) (menu : Nat) : State :=
  (List.finRange 64).foldl
    (fun s w => if s.used w ∧ (s.window w).menu = menu then detachMenu s w else s) s

/-! ## Processes -/

/-- `on_process_exit`; `menus` are those that `destroy_process_menus` destroys. -/
def onProcessExit (s : State) (proc : Process) (menus : List Nat) : State :=
  let s := (List.finRange 64).foldl
    (fun s w => if s.used w ∧ (s.window w).process = proc then destroy s w else s) s
  let s := menus.foldl detachMenuFromWindows s
  { s with
    classes := fun i => if (s.classes i).any (·.process == proc) then none else s.classes i }

/-! ## Font and display -/

/-- The shift of a window under new metrics: that of the client areas above it. -/
def fontShift (s : State) (captionDelta rowDelta : Int) (w : Slot) : Int :=
  ((ancestors s w).map fun p =>
    (if (s.window p).style.caption then captionDelta else 0) +
      if (s.window p).menu ≠ 0 then rowDelta else 0).sum

/-- The growth of an icon under new metrics. -/
def iconGrowth (minimizedDelta captionDelta : Int) (w : Window) : Int :=
  if w.state = .minimized then
    if w.parent ≠ 0 then minimizedDelta else if w.style.caption then captionDelta else 0
  else 0

def shiftedRectInRange (r : Rect) (dy bottomDelta : Int) : Bool :=
  r.isEmpty ||
    decide (minCoordinate ≤ r.left ∧ r.left ≤ maxCoordinate ∧
      minCoordinate ≤ r.right ∧ r.right ≤ maxCoordinate ∧
      minCoordinate ≤ r.top + dy ∧ r.top + dy ≤ maxCoordinate ∧
      minCoordinate ≤ r.bottom + dy + bottomDelta ∧ r.bottom + dy + bottomDelta ≤ maxCoordinate)

/-- A window under new metrics. -/
def Window.refonted (w : Window) (dy growth : Int) : Window :=
  let w := w.shifted 0 dy
  { w with rect := { w.rect with bottom := w.rect.bottom + growth } }

/-- The growth of an icon leaves nothing of it or makes it too tall; the source does not look at its
height. -/
def Window.outgrows (w : Window) (growth : Int) : Bool :=
  w.state == .minimized &&
    !decide (0 < w.rect.height + growth ∧ w.rect.height + growth ≤ maxCoordinate)

/-- The shift of a window and the growth of its bottom when the metrics change. -/
def fontChange (s : State) (new : Metrics) (w : Slot) : Int × Int :=
  let captionDelta := captionHeight new - captionHeight s.metrics
  let rowDelta := menuRowHeight new - menuRowHeight s.metrics
  let minimizedDelta := minimizedChildHeight new - minimizedChildHeight s.metrics
  (fontShift s captionDelta rowDelta w, iconGrowth minimizedDelta captionDelta (s.window w))

/-- The first loop of `apply_default_font`: every window stays in range. -/
def fontFits (s : State) (new : Metrics) : Bool :=
  (List.finRange 64).all fun w => !s.used w ||
    (decide ((ancestors s w).length < 64) &&
      shiftedRectInRange (s.window w).rect (fontChange s new w).1 (fontChange s new w).2 &&
      shiftedRectInRange (s.window w).restoredRect (fontChange s new w).1 0)

/-- The windows under new metrics. -/
def refontWindow (s : State) (new : Metrics) (w : Slot) : Window :=
  if s.used w then (s.window w).refonted (fontChange s new w).1 (fontChange s new w).2
    else s.window w

/-- The second loop of `apply_default_font`: every window is shifted, icons grow. -/
def refont (s : State) (new : Metrics) : State :=
  let s' := { s with
    metrics := new
    window := refontWindow s new
    seen := { s.seen with
      strayed := s.seen.strayed || (List.finRange 64).any fun w =>
        s.used w && (s.window w).outgrows (fontChange s new w).2 } }
  s'.loosen ((List.finRange 64).any fun w => s.used w && loosens s s' w)

/-- `apply_default_font`; `font` has the height of a line and the widths of texts. -/
def applyDefaultFont (s : State) (font : Metrics) : Option KernelError × State :=
  let new : Metrics := { font with menuTextHeight := font.textHeight }
  if !fontFits s new then (some .outOfRange, s)
  else
    (none, (List.finRange 64).foldl
      (fun s w => if s.used w && s.minimized w && s.visible w then
          arrangeMinimized s (s.window w).parent
        else s) (refont s new))

/-- The `fit` of `display_changed_locked`. -/
def fitRect (bounds rect : Rect) : Rect :=
  let width := if rect.width < bounds.right then rect.width else bounds.right
  let height := if rect.height < bounds.bottom then rect.height else bounds.bottom
  let left := if rect.left < 0 then 0
    else if bounds.right - width < rect.left then bounds.right - width else rect.left
  let top := if rect.top < 0 then 0
    else if bounds.bottom - height < rect.top then bounds.bottom - height else rect.top
  ⟨left, top, left + width, top + height⟩

/-- A saved rectangle is fitted to the screen. -/
def fitRestored (s : State) (w : Slot) : State :=
  s.setWindow w fun o =>
    { o with restoredRect :=
        if o.restoredRect.isEmpty then o.restoredRect else fitRect s.screen o.restoredRect }

/-- Where the screen leaves a root: maximized ones fill it, icons stand at its bottom. -/
def rootTarget (s : State) (w : Slot) : Rect :=
  let o := s.window w
  let target := if o.state = .maximized then s.screen else fitRect s.screen o.rect
  if o.state = .minimized then target.offset 0 (s.screen.bottom - target.bottom) else target

/-- Fit one window to the screen, if it is a root. -/
def refitRoot (s : State) (w : Slot) : State :=
  if (s.window w).parent ≠ 0 ∨ s.screen.isEmpty then s
  else
    let s := fitRestored s w
    saveRestored (moveTo s w (rootTarget s w)).2 w

/-- The windows from one on upwards in the z-order. -/
def zUpwards (links : Intrusive.Links Slot) : Nat → Option Slot → List Slot
  | 0, _ => []
  | _ + 1, none => []
  | fuel + 1, some w => w :: zUpwards links fuel (links.prev w)

/-- `display_changed_locked`. -/
def displayChanged (s : State) : State :=
  (zUpwards s.links 64 (zOrder s).getLast?).foldl refitRoot s

/-- `display_input_changed_locked`. -/
def displayInputChanged (s : State) (firstActivation : Bool) : State :=
  let s := { s with
    input := { s.input with dragHwnd := 0, dragPending := false, lastClickHwnd := 0 } }
  let s := setCaptureTo s 0
  if s.screen.isEmpty then s
  else
    let clamp (at' limit : Int) : Int :=
      if firstActivation then limit / 2 else if at' < 0 then 0 else if limit ≤ at' then limit - 1
        else at'
    { s with input := { s.input with
        mouseX := clamp s.input.mouseX s.screen.right
        mouseY := clamp s.input.mouseY s.screen.bottom } }

/-! ## The mouse -/

/-- `hit_test_locked`. -/
def hitTest (m : Metrics) (w : Window) (x y : Int) : HitTest :=
  let r := w.rect
  let b := borderOf w
  let c := captionOfStyle m w.style
  if !r.contains x y then .nowhere
  else if w.state = .minimized ∧ w.parent ≠ 0 then .caption
  else if x < r.left + b then
    if y < r.top + b then .topLeft else if r.bottom - b ≤ y then .bottomLeft else .left
  else if r.right - b ≤ x then
    if y < r.top + b then .topRight else if r.bottom - b ≤ y then .bottomRight else .right
  else if y < r.top + b then .top
  else if r.bottom - b ≤ y then .bottom
  else if 0 < c ∧ y < r.top + b + c then
    let buttonTop := r.top + b + (c - captionButtonSize) / 2
    let onButton := decide (buttonTop ≤ y ∧ y < buttonTop + captionButtonSize)
    if decide (x < r.left + b + captionButtonSize) && onButton then .sysMenu
    else if decide (r.right - b - captionButtonSize ≤ x) && onButton then .maxButton
    else if decide (r.right - b - 2 * captionButtonSize ≤ x) && onButton then .minButton
    else .caption
  else if w.menu ≠ 0 ∧ y < r.top + b + c + menuRowHeight m then .menuBar
  else .client

/-- The hits that drag the left edge of a window, its right, its top and its bottom one. -/
def HitTest.edges : HitTest → Bool × Bool × Bool × Bool
  | .left => (true, false, false, false)
  | .right => (false, true, false, false)
  | .top => (false, false, true, false)
  | .topLeft => (true, false, true, false)
  | .topRight => (false, true, true, false)
  | .bottom => (false, false, false, true)
  | .bottomLeft => (true, false, false, true)
  | .bottomRight => (false, true, false, true)
  | _ => (false, false, false, false)

/-- `resize_hit`. -/
def HitTest.resizes (hit : HitTest) : Bool := hit.edges ≠ (false, false, false, false)

/-- A window that is being resized, not smaller than its frame. -/
def resizedRect (m : Metrics) (hit : HitTest) (r : Rect) (dx dy : Int) : Rect :=
  let (left, right, top, bottom) := hit.edges
  let r : Rect := ⟨if left then r.left + dx else r.left, if top then r.top + dy else r.top,
    if right then r.right + dx else r.right, if bottom then r.bottom + dy else r.bottom⟩
  let minWidth := 4 * captionButtonSize
  let minHeight := 2 * borderWidth + captionHeight m + m.textHeight
  let r : Rect := if r.width < minWidth then
      (if left then { r with left := r.right - minWidth }
        else { r with right := r.left + minWidth })
    else r
  if r.height < minHeight then
    (if top then { r with top := r.bottom - minHeight } else { r with bottom := r.top + minHeight })
  else r

/-- A child that is dragged stays in the client area of its parent. -/
def keepWithin (bounds : Rect) (hit : HitTest) (r : Rect) : Rect :=
  if hit = .caption then
    let r := if r.left < bounds.left then r.offset (bounds.left - r.left) 0 else r
    let r := if r.top < bounds.top then r.offset 0 (bounds.top - r.top) else r
    let r := if bounds.right < r.right then r.offset (bounds.right - r.right) 0 else r
    if bounds.bottom < r.bottom then r.offset 0 (bounds.bottom - r.bottom) else r
  else r.intersect bounds

/-- Where a drag takes a window. -/
def dragTarget (s : State) (w : Slot) : Rect :=
  let i := s.input
  let dx := i.mouseX - i.dragX
  let dy := i.mouseY - i.dragY
  let r := if i.dragHit = .caption then i.dragRect.offset dx dy
    else resizedRect s.metrics i.dragHit i.dragRect dx dy
  match parentOf s w with
  | some p => keepWithin (clientArea s.metrics (s.window p)) i.dragHit r
  | none => r

/-- The window that is dragged follows the pointer. -/
def dragWindow (s : State) : State :=
  let stop := { s with input := { s.input with dragHwnd := 0 } }
  match lookup s s.input.dragHwnd with
  | none => stop
  | some w =>
    if !effectivelyVisible s w || (s.window w).state != .restored then stop
    else if (dragTarget s w).isEmpty || !(dragTarget s w).cornersInRange then s
    else
      match moveTo s w (dragTarget s w) with
      | (some _, moved) => moved
      | (none, moved) => moved.setWindow w fun o => { o with restoredRect := dragTarget s w }

/-- `drag_locked`. -/
def drag (s : State) : State := dragWindow { s with input := { s.input with dragPending := false } }

/-- `MouseInputEvent`; `buttons` says that some button changed. -/
structure MouseEvent where
  absolute : Bool := false
  lastX : Int := 0
  lastY : Int := 0
  buttons : Bool := false
  leftDown : Bool := false
  leftUp : Bool := false
  time : Nat := 0
deriving DecidableEq

/-- What `menu_mouse_locked` does: pass the event on, take it, or take it and focus the window
under the pointer. -/
inductive MenuAnswer where
  | pass | take | takeFocus
deriving DecidableEq

/-- What part of a window the pointer is on. -/
def pointerHit (s : State) (w : Slot) : HitTest :=
  hitTest s.metrics (s.window w) s.input.mouseX s.input.mouseY

/-- The second click of two. -/
def isDoubleClick (s : State) (w : Slot) (time : Nat) : Bool :=
  let i := s.input
  let dx := i.mouseX - i.lastClickX
  let dy := i.mouseY - i.lastClickY
  decide (i.lastClickHwnd = (s.window w).hwnd ∧ i.lastClickHit = pointerHit s w ∧
    (time + 2 ^ 32 - i.lastClickTime) % 2 ^ 32 ≤ 500 ∧ -4 ≤ dx ∧ dx ≤ 4 ∧ -4 ≤ dy ∧ dy ≤ 4)

/-- Remember a click. -/
def noteClick (s : State) (w : Slot) (time : Nat) : State :=
  { s with input := { s.input with
      lastClickHwnd := if isDoubleClick s w time then 0 else (s.window w).hwnd
      lastClickTime := time
      lastClickX := s.input.mouseX
      lastClickY := s.input.mouseY
      lastClickHit := pointerHit s w } }

/-- What a click on the frame of a focused window does. -/
def pressFrame (s : State) (w : Slot) (hit : HitTest) (doubleClick : Bool) : State :=
  if hit = .client ∨ hit = .sysMenu then s
  else if hit = .minButton then (showCommand s w .minimize).2
  else if hit = .maxButton ∨ (hit = .caption ∧ doubleClick) then
    (showCommand s w (if (s.window w).state = .maximized then .restore else .maximize)).2
  else if (s.window w).state = .restored ∧ (hit = .caption ∨ hit.resizes) then
    { s with input := { s.input with
        dragHwnd := (s.window w).hwnd, dragHit := hit, dragX := s.input.mouseX,
        dragY := s.input.mouseY, dragRect := (s.window w).rect } }
  else s

/-- What a click on a window does. -/
def pressWindow (s : State) (w : Slot) (hit : HitTest) (doubleClick : Bool) : State :=
  if s.minimized w then
    if doubleClick || (s.window w).parent == 0 then (showCommand s w .restore).2
    else (setFocusTo s (s.window w).hwnd).2
  else pressFrame (setFocusTo s (s.window w).hwnd).2 w hit doubleClick

/-- The left button goes down on a window that has not captured the mouse. -/
def clickWindow (s : State) (w : Slot) (time : Nat) : State :=
  pressWindow (noteClick s w time) w (pointerHit s w) (isDoubleClick s w time)

/-- The pointer follows the mouse, within the screen. -/
def movePointer (s : State) (event : MouseEvent) : State :=
  let clamp (v low high : Int) : Int := if v < low then low else if high ≤ v then high - 1 else v
  let x := if event.absolute then event.lastX else s.input.mouseX + event.lastX
  let y := if event.absolute then event.lastY else s.input.mouseY + event.lastY
  { s with input := { s.input with
      mouseX := clamp x s.screen.left s.screen.right
      mouseY := clamp y s.screen.top s.screen.bottom } }

/-- A drag goes on: at once when a button changes, else at the end of the burst. -/
def dragOn (s : State) (event : MouseEvent) : State :=
  if s.input.dragHwnd = 0 then s
  else if event.buttons then drag s
  else { s with input := { s.input with dragPending := true } }

/-- The left button goes down. -/
def leftDown (s : State) (time : Nat) : State :=
  match lookup s s.capture with
  | some _ => s
  | none =>
    match mouseTarget s s.input.mouseX s.input.mouseY with
    | some w => clickWindow s w time
    | none => setActive (setFocusTo s 0).2 0

/-- The left button of `mouse_locked`. -/
def leftButton (s : State) (event : MouseEvent) : State :=
  let s := if event.leftDown then leftDown s event.time else s
  if event.leftUp then { s with input := { s.input with dragHwnd := 0 } } else s

/-- `mouse_locked`. -/
def mouse (s : State) (event : MouseEvent) (menu : MenuAnswer) : State :=
  if s.screen.isEmpty then s
  else
    let s := dragOn (movePointer s event) event
    match menu with
    | .pass => leftButton s event
    | .take => s
    | .takeFocus =>
      match windowFromPoint s s.input.mouseX s.input.mouseY with
      | some w => (setFocusTo s (s.window w).hwnd).2
      | none => s

/-! ## Calls -/

/-- A key that goes down for the first time, or another one. -/
structure KeyEvent where
  fresh : Bool := true
  virtualKey : Nat
  alt : Bool := false
  control : Bool := false
  shift : Bool := false
deriving DecidableEq

/-- `keyboard_locked`; `menu` says that a menu took the key.  Other keys are only posted. -/
def keyboard (s : State) (event : KeyEvent) (menu : Bool) : State :=
  if menu || !event.fresh then s
  else if (event.virtualKey = 0x09 ∧ (event.alt || event.control)) ∨
      (event.virtualKey = 0x75 ∧ event.control) then
    cycleWindow s (event.control && !event.alt) event.shift
  else s

/-- One operation. -/
inductive Call where
  | registerClass (caller : Process) (name : String)
  | createWindow (caller : Process) (params : CreateParams) (supplies : Supplies)
  | destroyWindow (caller : Process) (hwnd : Nat)
  | showWindow (caller : Process) (hwnd command : Nat)
  | moveWindow (caller : Process) (hwnd : Nat) (x y width height : Int)
  | setWindowLong (caller : Process) (hwnd : Nat) (index : LongIndex) (value : Style)
  | setWindowText (caller : Process) (hwnd : Nat) (text : String)
  | setCapture (caller : Process) (hwnd : Nat)
  | releaseCapture (caller : Process)
  | setFocus (caller : Process) (hwnd : Nat)
  | setMenu (caller : Process) (hwnd menu : Nat) (answer : Option KernelError)
  | destroyMenus (menus : List Nat)
  | mouse (event : MouseEvent) (menu : MenuAnswer)
  | dragPause
  | keyboard (event : KeyEvent) (menu : Bool)
  | processExit (proc : Process) (menus : List Nat)
  | setDefaultFont (font : Metrics)
  | modeSet (width height : Nat)
  | displayChanged (firstActivation : Option Bool)

/-- What a call leads to. -/
def Call.next (s : State) : Call → State
  | .registerClass caller name => (User.registerClass s caller name).2
  | .createWindow caller params supplies =>
    match User.createWindow s caller params supplies with
    | .ok (_, s) => s
    | .error _ => s
  | .destroyWindow caller hwnd =>
    match ownedWindow s caller hwnd with
    | .ok w => destroy s w
    | .error _ => s
  | .showWindow caller hwnd command => (showWindowCall s caller hwnd command).2
  | .moveWindow caller hwnd x y width height => (moveWindowCall s caller hwnd x y width height).2
  | .setWindowLong caller hwnd index value => (User.setWindowLong s caller hwnd index value).2
  | .setWindowText caller hwnd text =>
    match ownedWindow s caller hwnd with
    | .ok w => if 64 ≤ text.utf8ByteSize then s else s.setWindow w fun o => { o with title := text }
    | .error _ => s
  | .setCapture caller hwnd => (User.setCapture s caller hwnd).2
  | .releaseCapture caller => User.releaseCapture s caller
  | .setFocus caller hwnd => (User.setFocus s caller hwnd).2
  | .setMenu caller hwnd menu answer => (User.setMenu s caller hwnd menu answer).2
  | .destroyMenus menus => menus.foldl detachMenuFromWindows s
  | .mouse event menu => User.mouse s event menu
  | .dragPause =>
    let s := if s.input.dragPending && s.input.dragHwnd != 0 then drag s else s
    { s with input := { s.input with dragPending := false } }
  | .keyboard event menu => User.keyboard s event menu
  | .processExit proc menus => onProcessExit s proc menus
  | .setDefaultFont font => (applyDefaultFont s font).2
  | .modeSet width height => { s with screen := ⟨0, 0, width, height⟩ }
  | .displayChanged none => User.displayChanged s
  | .displayChanged (some firstActivation) =>
      User.displayChanged (displayInputChanged s firstActivation)

/-- One call. -/
def Step (s : State) (call : Call) (s' : State) : Prop := call.next s = s'

end UnDOS.User
