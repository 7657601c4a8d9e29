import UnDOS.User.Paths

/-!
# Menus

The menu table of `user/menu.cpp` and the operations that change it, together with the windows that
menus are attached to.

- A menu is named by its slot of the table, a handle by its number, as for windows.
- `destroy_menu_locked` calls itself.  A run that goes deeper than its fuel is `none`.
- The open popups are left out: they are closed and drawn, and nothing is decided by them here.
-/

namespace UnDOS.User

open UnDOS.Kernel (KernelError)

/-! ## Data -/

/-- `kMaxMenus`. -/
def maxMenus : Nat := 32

/-- `kMaxMenuItems`. -/
def maxMenuItems : Nat := 16

/-- `kMenuTextLen`. -/
def menuTextLen : Nat := 64

def menuItemGrayed : Nat := 0x0001
def menuItemDisabled : Nat := 0x0002
def menuItemPopup : Nat := 0x0010
def menuItemSeparator : Nat := 0x0800

/-- An index into `g_menus`. -/
abbrev MenuSlot := Fin 32

/-- `MenuEntry`. -/
structure MenuEntry where
  text : String := ""
  flags : Nat := 0
  item : Nat := 0
deriving DecidableEq, Inhabited

/-- The entry opens a submenu. -/
def MenuEntry.isPopup (e : MenuEntry) : Bool := e.flags &&& menuItemPopup != 0

/-- `MenuRecord`.  `count` is the length of `entries`. -/
structure MenuRecord where
  used : Bool := false
  popup : Bool := false
  generation : Nat := 0
  owner : Process := 0
  parent : Nat := 0
  entries : List MenuEntry := []
deriving DecidableEq, Inhabited

/-- `g_menus`. -/
abbrev Menus := MenuSlot → MenuRecord

/-- The state that the lock guards, with the menus. -/
structure Desk where
  windows : State
  menus : Menus

/-- No windows and no menus. -/
def Desk.booted (metrics : Metrics) : Desk := ⟨State.booted metrics, fun _ => {}⟩

/-! ## Handles and submenus -/

/-- `lookup_menu_locked`. -/
def lookupMenu (menus : Menus) (handle : Nat) : Option MenuSlot :=
  if h : 1 ≤ handle % 2 ^ 16 ∧ handle % 2 ^ 16 - 1 < 32 then
    let i : MenuSlot := ⟨handle % 2 ^ 16 - 1, h.2⟩
    if (menus i).used ∧ (menus i).generation = handle / 2 ^ 16 then some i else none
  else none

/-- `menu_handle_locked`. -/
def menuHandle (menus : Menus) (i : MenuSlot) : Nat := (menus i).generation * 2 ^ 16 + (i + 1)

/-- The submenus that the entries of a menu open. -/
def MenuRecord.submenus (menu : MenuRecord) : List Nat :=
  (menu.entries.filter (·.isPopup)).map (·.item)

/-- `menu_contains_locked`, with the depth that is left. -/
def menuContains (menus : Menus) : Nat → Nat → Nat → Bool
  | 0, root, target => root == target
  | fuel + 1, root, target =>
    root == target ||
      match lookupMenu menus root with
      | none => false
      | some i => (menus i).submenus.any fun item => menuContains menus fuel item target

/-- Change a menu in place. -/
def Desk.setMenu (d : Desk) (i : MenuSlot) (f : MenuRecord → MenuRecord) : Desk :=
  { d with menus := Function.update d.menus i (f (d.menus i)) }

/-! ## Operations -/

/-- `++generation`, with 0 skipped. -/
def nextMenuGeneration (g : Nat) : Nat := if (g + 1) % 2 ^ 16 = 0 then 1 else (g + 1) % 2 ^ 16

def createMenu (d : Desk) (caller : Process) (popup : Bool) : Except KernelError Nat × Desk :=
  match (List.finRange 32).find? fun i => !(d.menus i).used with
  | none => (.error .resourceLimitExceeded, d)
  | some i =>
    let d := d.setMenu i fun menu =>
      { used := true, popup, generation := nextMenuGeneration menu.generation, owner := caller }
    (.ok (menuHandle d.menus i), d)

def destroyMenuLocked : Nat → Desk → Nat → Option Desk
  | 0, _, _ => none
  | fuel + 1, d, handle =>
    match lookupMenu d.menus handle with
    | none => some d
    | some i =>
      let children := (d.menus i).submenus
      let d := { d with windows := detachMenuFromWindows d.windows handle }
      -- The record is cleared before the submenus are destroyed.
      let d := d.setMenu i fun menu => { generation := menu.generation }
      children.foldlM (destroyMenuLocked fuel) d

/-- More than the depth that `destroy_menu_locked` can reach. -/
def menuFuel : Nat := maxMenus + 1

def destroyMenu (d : Desk) (caller : Process) (handle : Nat) : Option KernelError × Option Desk :=
  match lookupMenu d.menus handle with
  | none => (some .invalidHandle, some d)
  | some i =>
    if (d.menus i).owner ≠ caller then (some .accessDenied, some d)
    else if (d.menus i).parent ≠ 0 then (some .invalidState, some d)
    else (none, destroyMenuLocked menuFuel d handle)

/-- The flags and the text of an entry, before the lock is taken. -/
def checkMenuEntry (flags : Nat) (text : String) : Option KernelError :=
  let supported := menuItemGrayed ||| menuItemDisabled ||| menuItemPopup ||| menuItemSeparator
  let separator := flags &&& menuItemSeparator != 0
  let popup := flags &&& menuItemPopup != 0
  if flags &&& supported ≠ flags then some .invalidArgument
  else if separator && (popup || flags &&& (menuItemGrayed ||| menuItemDisabled) != 0) then
    some .invalidArgument
  else if menuTextLen ≤ text.utf8ByteSize then some .invalidSize
  else if !separator && text.isEmpty then some .invalidArgument
  else none

/-- May `item` become a submenu of `handle`? -/
def checkSubmenu (menus : Menus) (caller : Process) (handle item : Nat) :
    Except KernelError MenuSlot :=
  match lookupMenu menus item with
  | none => .error .invalidHandle
  | some j =>
    if (menus j).owner ≠ caller then .error .accessDenied
    else if !(menus j).popup || (menus j).parent != 0 || menuContains menus maxMenus item
        handle then
      .error .invalidArgument
    else .ok j

/-- The new entry at the end of a menu. -/
def pushEntry (d : Desk) (i : MenuSlot) (flags item : Nat) (text : String) : Desk :=
  d.setMenu i fun menu => { menu with
    entries := menu.entries ++
      [⟨if flags &&& menuItemSeparator != 0 then "" else text, flags, item⟩] }

def appendMenu (d : Desk) (caller : Process) (handle flags item : Nat) (text : String) :
    Option KernelError × Desk :=
  match checkMenuEntry flags text with
  | some e => (some e, d)
  | none =>
    match lookupMenu d.menus handle with
    | none => (some .invalidHandle, d)
    | some i =>
      if (d.menus i).owner ≠ caller then (some .accessDenied, d)
      else if (d.menus i).entries.length = maxMenuItems then (some .resourceLimitExceeded, d)
      else if flags &&& menuItemPopup != 0 then
        match checkSubmenu d.menus caller handle item with
        | .error e => (some e, d)
        | .ok j => (none, pushEntry (d.setMenu j fun menu => { menu with parent := handle }) i flags
            item text)
      else (none, pushEntry d i flags item text)

/-- `validate_menu_attachment_locked`. -/
def validateMenuAttachment (menus : Menus) (caller : Process) (handle : Nat) : Option KernelError :=
  if handle = 0 then none
  else
    match lookupMenu menus handle with
    | none => some .invalidHandle
    | some i =>
      if (menus i).owner ≠ caller then some .accessDenied
      else if (menus i).popup then some .invalidArgument
      else none

def destroyProcessMenus (d : Desk) (proc : Process) : Option Desk :=
  (List.finRange 32).foldlM
    (fun d i =>
      if (d.menus i).used ∧ (d.menus i).owner = proc then
        destroyMenuLocked menuFuel d (menuHandle d.menus i)
      else some d) d

/-- The first loop of `on_process_exit`. -/
def destroyProcessWindows (s : State) (proc : Process) : State :=
  (List.finRange 64).foldl
    (fun s w => if s.used w ∧ (s.window w).process = proc then destroy s w else s) s

/-- The second loop of `on_process_exit`. -/
def dropClasses (s : State) (proc : Process) : State :=
  { s with
    classes := fun i => if (s.classes i).any (·.process == proc) then none else s.classes i }

/-- `on_process_exit`. -/
def exitProcess (d : Desk) (proc : Process) : Option Desk := do
  let d ← destroyProcessMenus { d with windows := destroyProcessWindows d.windows proc } proc
  return { d with windows := dropClasses d.windows proc }

/-! ## Runs -/

/-- The calls of the window manager that have nothing to do with menus. -/
def Call.plain : Call → Bool
  | .setMenu .. | .destroyMenus _ | .processExit .. => false
  | _ => true

/-- One operation. -/
inductive DeskCall where
  | window (call : Call) (plain : call.plain = true)
  | createMenu (caller : Process) (popup : Bool)
  | appendMenu (caller : Process) (handle flags item : Nat) (text : String)
  | destroyMenu (caller : Process) (handle : Nat)
  | setMenu (caller : Process) (hwnd menu : Nat)
  | processExit (proc : Process)

/-- What an operation leads to, if it ends. -/
def DeskCall.next (d : Desk) : DeskCall → Option Desk
  | .window call _ => some { d with windows := call.next d.windows }
  | .createMenu caller popup => some (User.createMenu d caller popup).2
  | .appendMenu caller handle flags item text =>
      some (User.appendMenu d caller handle flags item text).2
  | .destroyMenu caller handle => (User.destroyMenu d caller handle).2
  | .setMenu caller hwnd menu =>
    some { d with windows :=
      (User.setMenu d.windows caller hwnd menu (validateMenuAttachment d.menus caller menu)).2 }
  | .processExit proc => exitProcess d proc

/-- One operation that ends. -/
def DeskStep (d : Desk) (call : DeskCall) (d' : Desk) : Prop := call.next d = some d'

end UnDOS.User
