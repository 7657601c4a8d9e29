import UnDOS.Gfx.Commit

/-!
# Adapters

What starts, refreshes and retires the targets of an adapter (`gfx_management.cpp`).
-/

namespace UnDOS.Gfx

open UnDOS.Kernel (KernelError)
open UnDOS.Lib (Thread)
open UnDOS.Lib.Thread (atomic)

/-! ## Desktop -/

def World.invalidateActiveTarget (w : World) (t : Nat) : World :=
  if w.desktopSource.any (·.target == some t) then w.clearDesktop else w

/-- The backing device of an adapter was removed. -/
def World.deviceRemoved (w : World) (adapter : Nat) : Bool :=
  ((w.adapters[adapter]?).bind (·.device)).any (· ∈ w.removedDevices)

/-- The displays of an adapter that were not removed, in the order of the directory. -/
def World.displaysOf (w : World) (adapter : Nat) : List Nat :=
  (List.range w.displays.length).filter fun t =>
    (w.displays[t]?).any fun d => d.adapter == adapter && !d.removed

section Sections

variable (o : Outside)

def ensureDesktopSource : GfxM Bool := do
  let w ← get
  if w.desktopSource.isSome then return true
  else
    match ← ask o .create with
    | some _ => return false
    | none =>
      match ← ask o .insert with
      | some _ => return false
      | none =>
        modifyGet fun w => ((), { w with desktopSource := some {} })
        refreshObservedTopology
        return true

/-! ## Starting -/

/-- A head that has a display already. -/
def World.headKnown (w : World) (adapter head : Nat) : Bool :=
  w.displays.any fun d => d.adapter == adapter && d.headIndex == head && !d.removed

/-- The display of a head, with an identifier and in the directory. -/
def insertDisplay (d : KDisplay) : GfxM Unit := do
  let w ← get
  if w.nextTargetId = 0 ∨ w.nextTargetId = uint32Max then return ()
  else
    match ← ask o .insert with
    | some _ => return ()
    | none =>
      modifyGet fun w => ((),
        { w with
          displays := w.displays ++ [{ d with videoPresentTargetId := w.nextTargetId }]
          nextTargetId := w.nextTargetId + 1 })
      refreshObservedTopology

/-- The callbacks that the driver binds on a display, unless it discards the head. -/
def configureDisplay (adapter head : Nat) : GfxM (Option Hooks) := do
  let w ← get
  if (w.adapters[adapter]?).any (·.configureDisplay) then
    match ← ask o (.configureDisplay adapter head) with
    | some _ => return none
    | none => return some (o.hooks adapter head w.trace)
  else return some {}

/-- One round of the loop over the heads: go on, stop, or give the adapter up. -/
def startHead (adapter head : Nat) : GfxM (Option Bool) := do
  let w ← get
  let info := o.head adapter head w.trace
  match ← ask o (.probeDisplay adapter head) with
  | some _ => return some true
  | none =>
    if w.headKnown adapter head then return none
    else
      match ← ask o .name with
      | some _ => return some false
      | none =>
        match ← ask o .create with
        | some _ => return none
        | none =>
          match ← configureDisplay o adapter head with
          | none => return none
          | some hooks =>
            insertDisplay o
              { adapter := adapter
                headIndex := head
                videoPresentTargetId := 0
                isPresent := info.isPresent
                isMonitor := info.isMonitor
                monitorCaps := info.capabilities
                hooks := hooks }
            return none

/-- The loop over the heads, with that many left: does the adapter run afterwards? -/
def startHeads (adapter : Nat) : Nat → GfxM Bool
  | 0 => return true
  | remaining + 1 => do
    match ← startHead o adapter (videoPresentRecordLimit - remaining) with
    | some running => return running
    | none => startHeads adapter remaining

def setState (adapter : Nat) (state : AdapterState) : GfxM Unit :=
  setAdapter adapter fun a => { a with state := state }

/-- The enumeration of `StartAdapter`. -/
def enumerateHeads (adapter : Nat) (discoverOnly : Bool) : GfxM Unit := do
  let w ← get
  if !(w.adapters[adapter]?).any (·.probeDisplay) then setState adapter .terminated
  else
    match ← ask o .create with
    | some _ => if !discoverOnly then setState adapter .terminated
    | none =>
      if ← startHeads o adapter (videoPresentRecordLimit + 1) then setState adapter .running
      else setState adapter .terminated

/-- `StartAdapter`. -/
def startAdapterLocked (adapter : Nat) (discoverOnly : Bool) : GfxM Unit := do
  if discoverOnly then enumerateHeads o adapter true
  else
    setState adapter .probing
    if !(← ensureDesktopSource o) then setState adapter .terminated
    else
      let w ← get
      let probed ← if (w.adapters[adapter]?).any (·.probe) then ask o (.probe adapter)
        else pure none
      match probed with
      | some _ => setState adapter .terminated
      | none =>
        setState adapter .needsDisplayEnumerated
        enumerateHeads o adapter false

/-- `StartAdapter`, unless the device of the adapter was removed. -/
def startSection (adapter : Nat) (discoverOnly : Bool) : GfxM Unit := do
  let w ← get
  if w.deviceRemoved adapter then return () else startAdapterLocked o adapter discoverOnly

def startAdapter (adapter : Nat) : Thread World Unit := atomic (startSection o adapter false)

/-! ## Refreshing -/

/-- `RefreshRecord`. -/
structure RefreshRecord where
  target : Nat
  valid : Bool := false
  present : Bool := false
  monitor : Bool := false
  capabilities : KMonitorCapabilities := {}
  currentModeSupported : Bool := false

/-- The driver still has the mode that a display shows. -/
def driverModeSupported (t : Nat) (d : KDisplay) : GfxM Bool := do
  if !d.hooks.getModeInfo then return false
  else
    match ← getModeInfo o t d.currentMode.modeIndex with
    | .error _ => return false
    | .ok mode =>
      let mode := { mode with modeIndex := d.currentMode.modeIndex }
      return mode == d.currentMode && usableMode d.monitorCaps mode

/-- What a refresh finds out about a target, and the error of the probe. -/
def probeTarget (adapter t : Nat) : GfxM (RefreshRecord × ErrorCode) := do
  let w ← get
  match w.displays[t]? with
  | none => return ({ target := t }, none)
  | some d =>
    let info := o.head adapter d.headIndex w.trace
    let probed ← ask o (.probeDisplay adapter d.headIndex)
    if probed.any (· ≠ .outOfRange) then return ({ target := t }, probed)
    else
      let supported ← if d.isAttachedToDesktop then driverModeSupported o t d else pure false
      return ({ target := t
                valid := true
                present := probed.isNone && info.isPresent
                monitor := probed.isNone && info.isMonitor
                capabilities := info.capabilities
                currentModeSupported := supported && usableMode info.capabilities d.currentMode },
        none)

/-- The records of the targets, and the last error of a probe. -/
def probeTargets (adapter : Nat) : List Nat → GfxM (List RefreshRecord × ErrorCode)
  | [] => return ([], none)
  | t :: ts => do
    let (record, error) ← probeTarget o adapter t
    let (records, later) ← probeTargets adapter ts
    return (record :: records, later.or error)

/-- The second section of a refresh. -/
def probeSection (adapter generation count : Nat) :
    GfxM (Except KernelError (List RefreshRecord × ErrorCode)) := do
  let w ← get
  if w.deviceRemoved adapter then return .error .deviceNotReady
  else if generation ≠ w.generation then return .error .retry
  else if (w.displaysOf adapter).length ≠ count then return .error .retry
  else return .ok (← probeTargets o adapter (w.displaysOf adapter))

/-- What a refresh does with one record. -/
def applyRecord (record : RefreshRecord) : GfxM Unit := do
  if !record.valid then return ()
  else
    let t := record.target
    setDisplay t fun d =>
      { d with
        isPresent := record.present
        isMonitor := record.monitor
        monitorCaps := record.capabilities }
    let w ← get
    if !record.present ||
        ((w.displays[t]?).any (·.isAttachedToDesktop) && !record.currentModeSupported) then
      let disabled ←
        if (hooksOf w t).disable then ask o (.disable t) else pure (some .unsupported)
      let actual ← queryIf o (hooksOf w t).queryActualState t .unsupported
      setDisplay t fun d =>
        { d with
          isAttachedToDesktop := isEnabled actual
          topologyDegraded := disabled.isSome || match actual with
            | .ok state => !state.known || state.enabled
            | .error _ => true }
      modifyGet fun w => ((), w.invalidateActiveTarget t)

def applyRecords : List RefreshRecord → GfxM Unit
  | [] => return ()
  | record :: records => do
    applyRecord o record
    applyRecords records

/-- The third section of a refresh. -/
def applySection (adapter generation : Nat) (records : List RefreshRecord) : GfxM ErrorCode := do
  let w ← get
  if generation ≠ w.generation then return some .retry
  else if w.deviceRemoved adapter then return some .deviceNotReady
  else
    setAdapter adapter fun a => { a with resourceGeneration := a.resourceGeneration + 1 }
    applyRecords o records
    refreshObservedTopology
    return none

def activeVideoPresentTarget : Thread World (Option Nat) := atomic (activeTargetUnderGate o)

/-- `KE_GFX_RefreshAdapter`. -/
def refreshAdapter (adapter : Nat) : Thread World ErrorCode := do
  let w ← atomic get
  if !(w.adapters[adapter]?).any (·.probeDisplay) then return some .invalidArgument
  else if w.deviceRemoved adapter then return some .deviceNotReady
  else
    match ← atomic (ask o .create) with
    | some error => return some error
    | none =>
      let (generation, count) ← atomic do
        let w ← get
        return (w.generation, (w.displaysOf adapter).length)
      if count > videoPresentRecordLimit then return some .resourceLimitExceeded
      else
        match ← atomic (if count = 0 then pure none else ask o (.allocate count)) with
        | some _ => return some .outOfMemory
        | none =>
          match ← atomic (probeSection o adapter generation count) with
          | .error error => return some error
          | .ok (records, result) =>
            match ← atomic (applySection o adapter generation records) with
            | some error => return some error
            | none =>
              let _ ← activeVideoPresentTarget o
              atomic (startSection o adapter true)
              return result

/-! ## Retiring -/

/-- What `RetireAdapterLocked` does with one display. -/
def World.retireDisplay (w : World) (t : Nat) : World :=
  ((w.setDisplay t fun d =>
    { d with
      isPresent := false
      removed := true
      isAttachedToDesktop := false
      topologyDegraded := false }).invalidateActiveTarget t).bump

/-- `RetireAdapterLocked`. -/
def World.retireAdapter (w : World) (adapter : Nat) : World :=
  (w.displaysOf adapter).foldl World.retireDisplay
    (w.setAdapter adapter fun a => { a with state := .terminated })

def retireSection (adapter : Nat) : GfxM Unit := modifyGet fun w => ((), w.retireAdapter adapter)

/-- `KE_GFX_RemoveAdapter`. -/
def removeAdapter (adapter : Nat) : Thread World Unit := do
  atomic (retireSection adapter)
  let _ ← activeVideoPresentTarget o
  return ()

/-- The adapters of the devices. -/
def World.adaptersOf (w : World) (devices : List Nat) : List Nat :=
  (List.range w.adapters.length).filter fun a =>
    ((w.adapters[a]?).bind (·.device)).any (· ∈ devices)

/-- The adapters of the devices are retired, and the devices are gone. -/
def removeSection (devices : List Nat) : GfxM Unit :=
  modifyGet fun w => ((),
    let w := (w.adaptersOf devices).foldl World.retireAdapter w
    { w with removedDevices := devices ++ w.removedDevices })

/-- `remove_device`, for the devices from the base on. -/
def removeDevice (devices : List Nat) : Thread World Unit := do
  atomic (removeSection devices)
  let _ ← activeVideoPresentTarget o
  return ()

end Sections

end UnDOS.Gfx
