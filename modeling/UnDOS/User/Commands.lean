import UnDOS.User.Moves

/-!
# Focus, Show Commands and Destruction

The functions of `window.cpp` that change what is visible and who gets the input.  Hiding,
minimizing and destroying a window take the input away from its subtree and then look for another
window to activate, which is raised.
-/

namespace UnDOS.User

open UnDOS.Kernel (KernelError)

/-! ## Input -/

/-- `set_capture_locked`. -/
def setCaptureTo (s : State) (hwnd : Nat) : State := { s with capture := hwnd }

/-- `set_active_window_locked`. -/
def setActive (s : State) (hwnd : Nat) : State :=
  match lookup s hwnd with
  | none => if hwnd ≠ 0 then s else { s with active := 0 }
  | some w =>
    if effectivelyVisible s w then
      let s := raiseBranch s w
      { s with active := (s.window (root s w)).hwnd }
    else s

/-- What `set_focus_locked` asks of a window. -/
def canFocus (s : State) (w : Slot) : Bool :=
  effectivelyVisible s w && !(s.minimized w && (s.window w).parent == 0)

/-- `set_focus_locked`. -/
def setFocusTo (s : State) (hwnd : Nat) : Option KernelError × State :=
  match lookup s hwnd with
  | none =>
    if hwnd ≠ 0 then (some .invalidHandle, s) else (none, { s with focus := 0 })
  | some w =>
    if !canFocus s w then (some .invalidState, s)
    else if s.focus = hwnd then (none, s)
    else (none, setActive { s with focus := hwnd } hwnd)

/-- A handle names a window or one of its descendants. -/
def namesWithin (s : State) (hwnd : Nat) (w : Slot) : Bool :=
  match lookup s hwnd with
  | none => false
  | some v => v == w || descendant s v w

def clearInputFor (s : State) (w : Slot) : State :=
  let s := if namesWithin s s.capture w then setCaptureTo s 0 else s
  let s := if namesWithin s s.focus w then (setFocusTo s 0).2 else s
  if namesWithin s s.active w then setActive s 0 else s

def chooseActive (s : State) : State :=
  if s.active ≠ 0 then s
  else
    match (zOrder s).find? fun w => effectivelyVisible s w && !s.minimized w with
    | some w => (setFocusTo s (s.window w).hwnd).2
    | none => s

/-! ## Showing -/

/-- Set or clear the visible bit. -/
def setVisible (s : State) (w : Slot) (visible : Bool) : State :=
  s.setWindow w fun o => { o with style := { o.style with visible } }

/-- `show_window_locked`. -/
def showWindowTo (s : State) (w : Slot) (visible : Bool) : State :=
  if visible = s.visible w then s
  else if visible then
    let s := setVisible s w true
    if s.minimized w then arrangeMinimized s (s.window w).parent else s
  else
    let s := clearInputFor (setVisible s w false) w
    chooseActive (if s.minimized w then arrangeMinimized s (s.window w).parent else s)

/-- The commands of `show_command_locked`. -/
inductive ShowCommand where
  | hide | display | minimize | maximize | restore
deriving DecidableEq

/-- The rectangle that a window would fill. -/
def fillBounds (s : State) (w : Slot) : Rect :=
  match parentOf s w with
  | some p => clientArea s.metrics (s.window p)
  | none => s.screen

/-- Where a window that is about to be minimized goes: its place in the flow, as if it were
visible, or where it was restored. -/
def iconPlace (s : State) (w : Slot) : Rect :=
  match (layoutMinimized (setVisible s w true) (s.window w).parent).reverse.find?
    fun p => p.1 == w with
  | some p => p.2
  | none => (s.window w).restoredRect

/-- The part of `show_command_locked` that enters another state, up to the move. -/
def enterState (s : State) (w : Slot) (next : ShowState) : State :=
  let s := s.setWindow w fun o =>
    { o with
      restoredRect := if o.state = .restored then o.rect else o.restoredRect
      state := next }
  if next = .minimized then
    let order := (s.iconOrder + 1) % 2 ^ 32
    { s with iconOrder := order }.setWindow w fun o => { o with iconOrder := order }
  else s

/-- The rectangle that goes with a state. -/
def stateTarget (s : State) (w : Slot) (bounds : Rect) : ShowState → Rect
  | .restored => (s.window w).restoredRect
  | .maximized => bounds
  | .minimized => iconPlace s w

/-- Undo `enterState` after a failed move; `g_iconOrder` keeps its count. -/
def leaveState (s : State) (w : Slot) (old : Window) : State :=
  s.setWindow w fun o =>
    { o with state := old.state, restoredRect := old.restoredRect, iconOrder := old.iconOrder }

/-- `show_command_locked` after the move. -/
def finishState (s : State) (w : Slot) (old next : ShowState) : State :=
  let s := if next = .minimized then clearInputFor s w else s
  let s := if next = .minimized ∨ old = .minimized then
      arrangeMinimized s (s.window w).parent
    else s
  let s := showWindowTo s w true
  if next ≠ .minimized then (setFocusTo s (s.window w).hwnd).2 else chooseActive s

/-- Two rectangles of the same size. -/
def Rect.sameSize (r o : Rect) : Bool := decide (r.width = o.width ∧ r.height = o.height)

/-- `show_command_locked` for another state than the present one.  A move that does not change the
size leaves the children alone, also when the window was minimized. -/
def changeState (s : State) (w : Slot) (next : ShowState) : Option KernelError × State :=
  let bounds := fillBounds s w
  if bounds.isEmpty then (some .invalidState, s)
  else
    let entered := enterState s w next
    let target := stateTarget entered w bounds next
    match moveTo entered w target with
    | (some e, moved) => (some e, leaveState moved w (s.window w))
    | (none, moved) =>
      let loose := (s.window w).rect.sameSize target && loosens s entered w
      (none, finishState (moved.loosen loose) w (s.window w).state next)

/-- `show_command_locked`. -/
def showCommand (s : State) (w : Slot) (command : ShowCommand) : Option KernelError × State :=
  let enter (next : ShowState) : Option KernelError × State :=
    if (s.window w).state = next then (none, showWindowTo s w true) else changeState s w next
  match command with
  | .hide => (none, showWindowTo s w false)
  | .display => (none, showWindowTo s w true)
  | .minimize => enter .minimized
  | .maximize => enter .maximized
  | .restore => enter .restored

/-! ## Cycling -/

/-- The windows among which `cycle_window_locked` goes round, in the order of their slots. -/
def cycleList (s : State) (children : Bool) : List Slot :=
  (List.finRange 64).filter fun w =>
    s.used w && effectivelyVisible s w && !(s.minimized w && !children) &&
      if children then
        match lookup s s.active with
        | none => false
        | some a => (s.window w).parent == (s.window a).hwnd
      else (s.window w).parent == 0

/-- `cycle_window_locked`. -/
def cycleWindow (s : State) (children reverse : Bool) : State :=
  let list := cycleList s children
  let current := lookup s (if children then s.focus else s.active)
  let index : Nat :=
    match current.bind fun w => list.findIdx? (· == w) with
    | some i => (i + if reverse then list.length - 1 else 1) % list.length
    | none => if reverse then list.length - 1 else 0
  match list[index]? with
  | some w => (setFocusTo s (s.window w).hwnd).2
  | none => s

/-! ## Creation and destruction -/

/-- The handle of a window in a slot. -/
def handleOf (generation : Nat) (i : Slot) : Nat := generation * 2 ^ 16 + (i.val + 1)

/-- The next generation of a slot: 0 is skipped. -/
def nextGeneration (g : Nat) : Nat := if (g + 1) % 2 ^ 16 = 0 then 1 else (g + 1) % 2 ^ 16

/-- `insert_window_locked`. -/
def insertWindow (s : State) (w : Window) : Except KernelError (Slot × State) :=
  match (List.finRange 64).find? fun i => !s.used i with
  | none => throw .resourceLimitExceeded
  | some i =>
    let g := nextGeneration (s.generation i)
    let s := { s with
      generation := Function.update s.generation i g
      used := Function.update s.used i true
      window := Function.update s.window i { w with hwnd := handleOf g i } }
    pure (i, raiseBranch (linkTop s i) i)

/-- The end of `destroy_window_locked`, once the children are gone. -/
def removeWindow (s : State) (w : Slot) (wasVisible : Bool) : State :=
  let s := unlinkZ s w
  let s := { s with used := Function.update s.used w false }
  let s := if wasVisible && s.minimized w then arrangeMinimized s (s.window w).parent else s
  chooseActive s

/-- `destroy_window_locked`.  Children go first; the recursion is as deep as the tree. -/
def destroyWindow : Nat → State → Slot → State
  | 0, s, _ => s
  | fuel + 1, s, w =>
    if !s.used w then s
    else
      let wasVisible := effectivelyVisible s w
      let s := setVisible (clearInputFor s w) w false
      let s := (List.finRange 64).foldl
        (fun s c => if s.used c ∧
          (s.window c).parent = (s.window w).hwnd then destroyWindow fuel s c
          else s) s
      removeWindow s w wasVisible

/-- A destruction as the other functions call it. -/
def destroy (s : State) (w : Slot) : State := destroyWindow 64 s w

end UnDOS.User
