import UnDOS.Lib.Stateful
import UnDOS.Process.Handles

/-!
# Displays, Desktop Source and Driver Callbacks

The globals of `gfx_management.cpp` and the objects they refer to.  A display is a place in the
list of displays, an adapter and a surface likewise, so a reference never dangles.

The callbacks of a driver, the allocations and the object manager are the outside of this file.
What they answer may depend on everything they were asked before, so they can fail or succeed in
any pattern, and a driver may change its modes and its actual state whenever it likes.
-/

namespace UnDOS.Gfx

open UnDOS.Kernel (KernelError)

/-- `kstd::error_code`: `none` is success. -/
abbrev ErrorCode := Option KernelError

def videoPresentRecordLimit : Nat := 64

def desktopSourceId : Nat := 1

/-- `UINT32_MAX`. -/
def uint32Max : Nat := 0xFFFFFFFF

/-- `INT32_MAX`. -/
def int32Max : Nat := 0x7FFFFFFF

/-! ## Modes -/

/-- `PixelFormat`. -/
inductive PixelFormat where
  | rgb24 | argb32 | index8 | rgb15 | rgb16
deriving DecidableEq

/-- `KDisplayModeInfo`.  The fields that are only ever compared are one list. -/
structure KDisplayModeInfo where
  modeIndex : Nat := 0
  width : Nat := 0
  height : Nat := 0
  pitch : Nat := 0
  bpp : Nat := 0
  refreshRate : Nat := 0
  pixelFormat : PixelFormat := .rgb24
  attributes : List Nat := []
deriving DecidableEq

/-- `KMonitorTiming`. -/
structure KMonitorTiming where
  width : Nat := 0
  height : Nat := 0
  refreshRate : Nat := 0
deriving DecidableEq

/-- `KMonitorCapabilities`, with the timings that count. -/
structure KMonitorCapabilities where
  timings : List KMonitorTiming := []
  maxWidth : Nat := 0
  maxHeight : Nat := 0
  maxRefreshRate : Nat := 0
  isDefault : Bool := false
deriving DecidableEq

def KMonitorCapabilities.supports (c : KMonitorCapabilities) (mode : KDisplayModeInfo) : Bool :=
  if c.maxWidth ≠ 0 ∧ mode.width > c.maxWidth then false
  else if c.maxHeight ≠ 0 ∧ mode.height > c.maxHeight then false
  else if c.maxRefreshRate ≠ 0 ∧ mode.refreshRate > c.maxRefreshRate then false
  else if c.timings.isEmpty then true
  else c.timings.any fun t => t.width == mode.width && t.height == mode.height &&
    (t.refreshRate == 0 || mode.refreshRate == 0 || t.refreshRate == mode.refreshRate)

def usableMode (capabilities : KMonitorCapabilities) (mode : KDisplayModeInfo) : Bool :=
  mode.width ≠ 0 && mode.height ≠ 0 && mode.width ≤ 32767 && mode.height ≤ 32767 &&
    mode.pitch ≠ 0 && mode.pitch ≤ int32Max && mode.pitch * mode.height ≤ uint32Max &&
    capabilities.supports mode

/-- `KDisplayActualState`. -/
structure KDisplayActualState where
  known : Bool := false
  enabled : Bool := false
  modeIndex : Nat := 0
deriving DecidableEq

/-! ## Objects -/

/-- The callbacks that a display has. -/
structure Hooks where
  getModeInfo : Bool := false
  prepareMode : Bool := false
  programMode : Bool := false
  finishMode : Bool := false
  restoreMode : Bool := false
  queryActualState : Bool := false
  enable : Bool := false
  disable : Bool := false
  validate : Bool := false
deriving DecidableEq

/-- The callbacks of the target transaction interface. -/
def Hooks.complete (h : Hooks) : Bool :=
  h.getModeInfo && h.prepareMode && h.programMode && h.finishMode && h.queryActualState &&
    h.enable && h.disable && h.validate

/-- `KDisplay`. -/
structure KDisplay where
  adapter : Nat
  headIndex : Nat
  videoPresentTargetId : Nat
  isPresent : Bool
  isMonitor : Bool
  isAttachedToDesktop : Bool := false
  topologyDegraded : Bool := false
  removed : Bool := false
  monitorCaps : KMonitorCapabilities
  surface : Option Nat := none
  currentMode : KDisplayModeInfo := {}
  modeGeneration : Nat := 0
  hooks : Hooks
deriving DecidableEq

/-- `KGraphicsAdapter::State`. -/
inductive AdapterState where
  | uninitialized | terminated | probing | needsDisplayEnumerated | running
deriving DecidableEq

/-- `KGraphicsAdapter`. -/
structure KGraphicsAdapter where
  state : AdapterState := .uninitialized
  device : Option Nat
  probe : Bool
  probeDisplay : Bool
  configureDisplay : Bool
  caps : Nat := 0
  resourceGeneration : Nat := 0
deriving DecidableEq

/-- `KSurface`, as far as a commit fills it in. -/
structure KSurface where
  display : Nat
  backing : Nat
  width : Nat
  height : Nat
  pitch : Nat
  bpp : Nat
  pixelFormat : PixelFormat
  sizeInBytes : Nat
deriving DecidableEq

/-- `KVideoPresentSource`. -/
structure KVideoPresentSource where
  sourceId : Nat := desktopSourceId
  surface : Option Nat := none
  target : Option Nat := none
  currentMode : KDisplayModeInfo := {}
  active : Bool := false
deriving DecidableEq

/-- `VideoPresentPathInfo`. -/
structure VideoPresentPathInfo where
  sourceId : Nat := 0
  sourceModeId : Nat := 0
  targetId : Nat := 0
  targetModeId : Nat := 0
  sourceX : Int := 0
  sourceY : Int := 0
  width : Nat := 0
  height : Nat := 0
  flags : Nat := 0
deriving DecidableEq

/-- `KDisplayModeReservation`.  `serial` is not in the source: it numbers the calls of
    `PrepareMode`, and is that of the call that filled the reservation. -/
structure KDisplayModeReservation where
  modeIndex : Nat := 0
  mode : KDisplayModeInfo := {}
  /-- The size of `binding.backing`. -/
  backing : Option Nat := none
  driverData : Bool := false
  serial : Option Nat := none
deriving DecidableEq

/-! ## Snapshots -/

/-- `VideoPresentSourceModeInfo`. -/
structure VideoPresentSourceModeInfo where
  modeId : Nat
  width : Nat
  height : Nat
  colorDepth : Nat
  pixelFormat : PixelFormat
deriving DecidableEq

/-- `VideoPresentTargetInfo`. -/
structure VideoPresentTargetInfo where
  targetId : Nat
  connected : Bool
  modeCount : Nat
  maxWidth : Nat
  maxHeight : Nat
  maxRefreshHz : Nat
deriving DecidableEq

/-- `VideoPresentTargetModeInfo`. -/
structure VideoPresentTargetModeInfo where
  targetId : Nat
  modeId : Nat
  mode : KDisplayModeInfo
deriving DecidableEq

/-- `VideoPresentSnapshot::Observation`. -/
structure Observation where
  capabilities : KMonitorCapabilities := {}
  resourceGeneration : Nat := 0
  adapterCaps : Nat := 0
  present : Bool := false
  degraded : Bool := false
  actualKnown : Bool := false
  actualEnabled : Bool := false
  actualMode : Nat := 0
deriving DecidableEq

/-- `VideoPresentSnapshot`.  Its counts are the lengths of its lists, and `hasSource` is
    `sourceCount`. -/
structure VideoPresentSnapshot where
  generation : Nat
  hasSource : Bool := false
  sourceModes : List VideoPresentSourceModeInfo := []
  targets : List VideoPresentTargetInfo := []
  targetModes : List VideoPresentTargetModeInfo := []
  /-- `topology.pathCount`. -/
  pathCount : Nat := 0
  paths : List VideoPresentPathInfo := []
  degraded : Bool := false
  targetReferences : List Nat := []
  observations : List Observation := []
  pathCapacity : Nat := 0
  pathsValid : Bool := false
deriving DecidableEq

/-! ## Events and answers -/

/-- What the outside is asked. -/
inductive Request where
  | probe (adapter : Nat)
  | probeDisplay (adapter head : Nat)
  | configureDisplay (adapter head : Nat)
  | getModeInfo (target index : Nat)
  | prepareMode (target index serial : Nat)
  | programMode (target : Nat) (serial : Option Nat)
  | restoreMode (target index : Nat)
  | queryActualState (target : Nat)
  | enable (target : Nat)
  | disable (target : Nat)
  | validate (target : Nat)
  /-- An allocation of `bytes` or, for records, of that many. -/
  | allocate (bytes : Nat)
  /-- `CreateKObject`. -/
  | create
  /-- `KE_OB_MakeUniqueName`. -/
  | name
  /-- `KE_OB_InsertObject`. -/
  | insert
deriving DecidableEq

/-- What happened. -/
inductive Event where
  | asked (request : Request) (answer : ErrorCode)
  /-- `FinishMode`. -/
  | finished (serial : Option Nat) (committed : Bool)
  /-- Not an access: a commit becomes responsible for the reservation of its token, which may be
      held by then or not. -/
  | guarded (token : Nat) (held : Bool)
deriving DecidableEq

/-- What `ProbeDisplay` tells of a head: `capabilities` are those of its EDID, or the default. -/
structure HeadInfo where
  isPresent : Bool := false
  isMonitor : Bool := false
  capabilities : KMonitorCapabilities := {}

/-- The outside.  Each answer may depend on what happened before, newest first. -/
structure Outside where
  status : Request → List Event → ErrorCode
  head : Nat → Nat → List Event → HeadInfo
  hooks : Nat → Nat → List Event → Hooks
  modeInfo : Nat → Nat → List Event → KDisplayModeInfo
  prepared : Nat → Nat → List Event → KDisplayModeReservation
  actual : Nat → List Event → KDisplayActualState

/-! ## State -/

/-- `KVideoPresentValidationToken`.  `references` counts what points to it. -/
structure KVideoPresentValidationToken where
  generation : Nat
  path : VideoPresentPathInfo
  target : Option Nat := none
  reservation : KDisplayModeReservation := {}
  references : Nat := 1
  destroyed : Bool := false
deriving DecidableEq

/-- The globals, the objects, and what happened. -/
structure World where
  generation : Nat := 1
  nextTargetId : Nat := 1
  desktopSource : Option KVideoPresentSource := none
  activePath : VideoPresentPathInfo := {}
  activePathValid : Bool := false
  snapshot : Option VideoPresentSnapshot := none
  displays : List KDisplay := []
  adapters : List KGraphicsAdapter := []
  surfaces : List KSurface := []
  /-- The devices whose `pnpState` is `Removed`. -/
  removedDevices : List Nat := []
  tokens : List KVideoPresentValidationToken := []
  /-- The handle tables of the processes, with the tokens as objects. -/
  tables : Nat → Process.Table Nat := fun _ => {}
  trace : List Event := []
  /-- Not in the source: the number of the next call of `PrepareMode`. -/
  nextSerial : Nat := 0
  /-- Not in the source: how often the generation moved. -/
  bumps : Nat := 0
  /-- Not in the source: the snapshots that `g_snapshot` has been, newest first. -/
  published : List VideoPresentSnapshot := []
  /-- Not in the source: the generation of `g_snapshot`, if there was one, and the current
      generation, each time before `BuildSnapshot` put its own there. -/
  builds : List (Option Nat × Nat) := []
  /-- Not in the source: the snapshots that a path was resolved against. -/
  used : List VideoPresentSnapshot := []

abbrev GfxM := StateM World

/-- `++g_topology_generation`, past zero. -/
def World.bump (w : World) : World :=
  { w with
    generation := if w.generation = uint32Max then 1 else w.generation + 1
    bumps := w.bumps + 1 }

/-- Record an event. -/
def World.log (w : World) (e : Event) : World := { w with trace := e :: w.trace }

/-- Change a display. -/
def World.setDisplay (w : World) (target : Nat) (f : KDisplay → KDisplay) : World :=
  { w with displays := w.displays.modify target f }

/-- Change an adapter. -/
def World.setAdapter (w : World) (adapter : Nat) (f : KGraphicsAdapter → KGraphicsAdapter) :
    World :=
  { w with adapters := w.adapters.modify adapter f }

def refreshObservedTopology : GfxM Unit := modifyGet fun w => ((), w.bump)

def setDisplay (target : Nat) (f : KDisplay → KDisplay) : GfxM Unit :=
  modifyGet fun w => ((), w.setDisplay target f)

def setAdapter (adapter : Nat) (f : KGraphicsAdapter → KGraphicsAdapter) : GfxM Unit :=
  modifyGet fun w => ((), w.setAdapter adapter f)

section Asking

variable (o : Outside)

/-- Ask the outside for an error code. -/
def ask (request : Request) : GfxM ErrorCode := do
  let w ← get
  let answer := o.status request w.trace
  modifyGet fun w => ((), w.log (.asked request answer))
  return answer

def getModeInfo (target index : Nat) : GfxM (Except KernelError KDisplayModeInfo) := do
  let w ← get
  match ← ask o (.getModeInfo target index) with
  | some error => return .error error
  | none => return .ok (o.modeInfo target index w.trace)

def queryActualState (target : Nat) : GfxM (Except KernelError KDisplayActualState) := do
  let w ← get
  match ← ask o (.queryActualState target) with
  | some error => return .error error
  | none => return .ok (o.actual target w.trace)

end Asking

/-- The displays that `KE_OB_GetGfxDirectory()->Each<KDisplay>` visits and that are targets. -/
def World.isTarget (w : World) (t : Nat) : Bool :=
  match w.displays[t]? with
  | some d => d.videoPresentTargetId ≠ 0 && !d.removed
  | none => false

/-- The targets, in the order of the directory. -/
def World.targets (w : World) : List Nat := (List.range w.displays.length).filter w.isTarget

/-- `FindTarget`: the last display with the identifier that was not removed. -/
def World.findTarget (w : World) (targetId : Nat) : Option Nat :=
  (List.range w.displays.length).reverse.find? fun t =>
    match w.displays[t]? with
    | some d => !d.removed && d.videoPresentTargetId == targetId
    | none => false

def modeIdFromIndex (index : Nat) : Nat := index + 1

end UnDOS.Gfx
