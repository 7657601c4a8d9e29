import UnDOS.Gfx.Snapshot

/-!
# Preparing and Committing a Path

`video_present_prepare_path`, `commit_video_present_path` and what they use
(`gfx_management.cpp`).  The reservation that both work on is that of a validation token, which
they are given a reference to.
-/

namespace UnDOS.Gfx

open UnDOS.Kernel (KernelError)
open UnDOS.Lib (Thread)
open UnDOS.Lib.Thread (atomic)

/-! ## Reservations -/

def setToken (token : Nat) (f : KVideoPresentValidationToken → KVideoPresentValidationToken) :
    GfxM Unit :=
  modifyGet fun w => ((), { w with tokens := w.tokens.modify token f })

/-- The reservation of a token. -/
def World.reservation (w : World) (token : Nat) : KDisplayModeReservation :=
  match w.tokens[token]? with
  | some t => t.reservation
  | none => {}

/-- `driverData || binding.backing`. -/
def KDisplayModeReservation.held (r : KDisplayModeReservation) : Bool :=
  r.driverData || r.backing.isSome

def setReservation (token : Nat) (f : KDisplayModeReservation → KDisplayModeReservation) :
    GfxM Unit :=
  setToken token fun t => { t with reservation := f t.reservation }

/-- `FinishMode`, where the target has it. -/
def finishMode (target serial : Option Nat) (committed : Bool) : GfxM Unit := do
  let w ← get
  if target.any fun t => (hooksOf w t).finishMode then
    modifyGet fun w => ((), w.log (.finished serial committed))

/-- `ModeReservationGuard::Finish`, the first time: `FinishMode`, and the reservation is empty. -/
def finish (target : Option Nat) (token : Nat) (committed : Bool) : GfxM Unit := do
  let w ← get
  finishMode target (w.reservation token).serial committed
  setReservation token fun r => { r with driverData := false, backing := none }

/-- A commit becomes responsible for the reservation. -/
def guardReservation (token : Nat) : GfxM Unit :=
  modifyGet fun w => ((), w.log (.guarded token (w.reservation token).held))

/-- A path is resolved against a snapshot. -/
def useSnapshot (s : VideoPresentSnapshot) : GfxM Unit :=
  modifyGet fun w => ((), { w with used := s :: w.used })

section Sections

variable (o : Outside)

/-! ## Preparing -/

/-- The checks that a path has to pass before anything is looked up. -/
def pathFits (w : World) (path : VideoPresentPathInfo) : Bool :=
  w.desktopSource.any (·.sourceId == path.sourceId) && path.sourceX == 0 && path.sourceY == 0 &&
    path.flags == 0 && path.width ≠ 0 && path.height ≠ 0

/-- The source mode that a path names. -/
def VideoPresentSnapshot.sourceMode (s : VideoPresentSnapshot) (path : VideoPresentPathInfo) :
    Option VideoPresentSourceModeInfo :=
  s.sourceModes.reverse.find? (·.modeId == path.sourceModeId)

/-- The names of a mode in the list of a snapshot. -/
def VideoPresentTargetModeInfo.isOf (m : VideoPresentTargetModeInfo) (path : VideoPresentPathInfo) :
    Bool :=
  m.targetId == path.targetId && m.modeId == path.targetModeId

/-- A mode has the geometry of the path and the format of the source mode. -/
def modeFits (path : VideoPresentPathInfo) (source : VideoPresentSourceModeInfo)
    (mode : KDisplayModeInfo) : Bool :=
  mode.width == path.width && mode.height == path.height && mode.bpp == source.colorDepth &&
    mode.pixelFormat == source.pixelFormat

/-- `ResolvePathLocked`: the target and the driver's index of its mode. -/
def resolvePathLocked (s : VideoPresentSnapshot) (generation : Nat) (path : VideoPresentPathInfo) :
    GfxM (Except KernelError (Nat × Nat)) := do
  let w ← get
  if generation ≠ w.generation then return .error .retry
  else if !pathFits w path || path.width > int32Max || path.height > int32Max then
    return .error .invalidArgument
  else
    match w.findTarget path.targetId with
    | none => return .error .unsupported
    | some t =>
      if !(w.displays[t]?).any (·.isPresent) || !(hooksOf w t).complete then
        return .error .unsupported
      else
        match ← ask o (.validate t) with
        | some error => return .error error
        | none =>
          match (s.sourceMode path).filter fun m => m.width == path.width && m.height == path.height
            with
          | none => return .error .invalidArgument
          | some source =>
            match s.targetModes.find? (·.isOf path) with
            | none => return .error .notFound
            | some candidate =>
              if !modeFits path source candidate.mode then return .error .unsupported
              else return .ok (t, candidate.mode.modeIndex)

/-- The fields of a mode that a reservation has to repeat. -/
def sameMode (left right : KDisplayModeInfo) : Bool :=
  left.width == right.width && left.height == right.height && left.pitch == right.pitch &&
    left.bpp == right.bpp && left.refreshRate == right.refreshRate &&
    left.pixelFormat == right.pixelFormat

/-- The backing is there and holds a frame of the mode. -/
def KDisplayModeReservation.backed (r : KDisplayModeReservation) : Bool :=
  r.backing.any (r.mode.pitch * r.mode.height ≤ ·)

/-- `PrepareMode`: its error, and what the driver leaves in the reservation, also when it fails. -/
def prepareMode (t modeIndex : Nat) : GfxM (ErrorCode × KDisplayModeReservation) := do
  let w ← get
  let error ← ask o (.prepareMode t modeIndex w.nextSerial)
  modifyGet fun w => ((), { w with nextSerial := w.nextSerial + 1 })
  return (error, { o.prepared t modeIndex w.trace with serial := some w.nextSerial })

/-- `CreateKObject<KVideoPresentValidationToken>`, with the fields that its thread sets. -/
def newToken (generation : Nat) (path : VideoPresentPathInfo) (t : Nat)
    (r : KDisplayModeReservation) : GfxM Nat := do
  let w ← get
  modifyGet fun w => ((),
    { w with
      tokens := w.tokens ++
        [{ generation := generation, path := path, target := some t, reservation := r }] })
  return w.tokens.length

/-- What `video_present_prepare_path` does with a snapshot.  Only its caller can reach the token so
    far, so the token joins the others here, prepared.  Where this fails the token goes, and its
    reservation is empty then. -/
def prepareToken (s : VideoPresentSnapshot) (generation : Nat) (path : VideoPresentPathInfo) :
    GfxM (Except KernelError Nat) := do
  match ← resolvePathLocked o s generation path with
  | .error error => return .error error
  | .ok (t, modeIndex) =>
    let (error, r) ← prepareMode o t modeIndex
    match error with
    | some error =>
      finishMode (some t) r.serial false
      return .error error
    | none =>
      match ← getModeInfo o t modeIndex with
      | .error error =>
        finishMode (some t) r.serial false
        return .error error
      | .ok mode =>
        let w ← get
        if r.modeIndex ≠ modeIndex || !sameMode r.mode mode || !usableMode (capsOf w t) r.mode ||
            !r.backed then
          finishMode (some t) r.serial false
          return .error .invalidState
        else
          return .ok (← newToken generation path t
            { r with mode := { r.mode with modeIndex := modeIndex } })

/-- The part of `video_present_prepare_path` under the driver gate. -/
def prepareSection (s : VideoPresentSnapshot) (generation : Nat) (path : VideoPresentPathInfo) :
    GfxM (Except KernelError Nat) := do
  useSnapshot s
  prepareToken o s generation path

/-- `video_present_prepare_path`. -/
def preparePath (generation : Nat) (path : VideoPresentPathInfo) :
    Thread World (Except KernelError Nat) := do
  match ← acquireSnapshot o generation with
  | .error error => return .error error
  | .ok s => atomic (prepareSection o s generation path)

/-! ## Programming a mode -/

def restorePrevious (t modeIndex : Nat) (before : KDisplayActualState) : GfxM Bool := do
  let w ← get
  let hooks := hooksOf w t
  if !before.known then return false
  else
    let restored ←
      if before.modeIndex = modeIndex then pure true
      else if !hooks.restoreMode then pure false
      else pure (← ask o (.restoreMode t before.modeIndex)).isNone
    if !restored then return false
    else if before.enabled then
      if hooks.enable then return (← ask o (.enable t)).isNone else return true
    else
      if hooks.disable then return (← ask o (.disable t)).isNone else return true

/-- What `ProgramDisplayMode` leaves: nothing was tried, the transaction failed with an outcome,
    or it succeeded with a mode and its surface. -/
inductive Programmed where
  | notAttempted (error : KernelError)
  | failed (outcome : Nat)
  | done (mode : KDisplayModeInfo) (surface : Nat)
deriving DecidableEq

/-- An actual state that is known and enabled. -/
def isEnabled (actual : Except KernelError KDisplayActualState) : Bool :=
  match actual with
  | .ok state => state.known && state.enabled
  | .error _ => false

/-- A driver that is not back where it was. -/
def isDegraded (restored : Bool) (before : KDisplayActualState)
    (actual : Except KernelError KDisplayActualState) : Bool :=
  match actual with
  | .ok state => !restored || !state.known || state.enabled != before.enabled ||
      (state.known && before.known && state.modeIndex != before.modeIndex)
  | .error _ => true

/-- The end of a transaction that failed after the mode was asked for. -/
def rollBack (t token modeIndex outcome : Nat) (before : KDisplayActualState) :
    GfxM Programmed := do
  let restored ← restorePrevious o t modeIndex before
  finish (some t) token false
  let actual ← queryActualState o t
  let degraded := isDegraded restored before actual
  setDisplay t fun d =>
    { d with topologyDegraded := degraded, isAttachedToDesktop := isEnabled actual }
  if !isEnabled actual then setDisplay t fun d => { d with modeGeneration := d.modeGeneration + 1 }
  return .failed (if degraded then 3 else outcome)

/-- The surface of the display, or the prepared one, registered. -/
def targetSurface (t : Nat) : GfxM (Except KernelError Nat) := do
  let w ← get
  match (w.displays[t]?).bind (·.surface) with
  | some surface => return .ok surface
  | none =>
    match ← ask o .insert with
    | some error => return .error error
    | none => return .ok w.surfaces.length

/-- The surface that shows a mode on a display. -/
def surfaceFor (t backing : Nat) (mode : KDisplayModeInfo) : KSurface where
  display := t
  backing := backing
  width := mode.width
  height := mode.height
  pitch := mode.pitch
  bpp := mode.bpp
  pixelFormat := mode.pixelFormat
  sizeInBytes := mode.pitch * mode.height

/-- `surface->… = …`, on an existing surface or the prepared one. -/
def World.putSurface (w : World) (surface : Nat) (s : KSurface) : World :=
  { w with
    surfaces :=
      if surface < w.surfaces.length then w.surfaces.set surface s else w.surfaces ++ [s] }

/-- The end of a transaction that succeeded. -/
def completeMode (t token surface : Nat) : GfxM Programmed := do
  let w ← get
  let r := w.reservation token
  modifyGet fun w => ((), w.putSurface surface (surfaceFor t (r.backing.getD 0) r.mode))
  setDisplay t fun d =>
    { d with
      surface := some surface
      currentMode := r.mode
      isAttachedToDesktop := true
      topologyDegraded := false
      modeGeneration := d.modeGeneration + 1 }
  finish (some t) token true
  return .done r.mode surface

def programDisplayMode (t token modeIndex : Nat) : GfxM Programmed := do
  let w ← get
  let hooks := hooksOf w t
  let r := w.reservation token
  if !hooks.programMode || !hooks.finishMode || !hooks.queryActualState then
    return .notAttempted .unsupported
  else if r.modeIndex ≠ modeIndex || !usableMode (capsOf w t) r.mode || !r.backed then
    return .notAttempted .invalidState
  else
    setReservation token fun r => { r with mode := { r.mode with modeIndex := modeIndex } }
    match ← queryActualState o t with
    | .error error => return .notAttempted error
    | .ok before =>
      match ← targetSurface o t with
      | .error error => return .notAttempted error
      | .ok surface =>
        match ← ask o (.disable t) with
        | some _ =>
          finish (some t) token false
          let actual ← queryActualState o t
          let degraded := match actual with | .ok state => !state.known | .error _ => true
          setDisplay t fun d =>
            { d with topologyDegraded := degraded, isAttachedToDesktop := isEnabled actual }
          return .failed (if degraded then 3 else 1)
        | none =>
          match ← ask o (.programMode t r.serial) with
          | some _ => rollBack o t token modeIndex 1 before
          | none =>
            match ← (if hooks.enable then ask o (.enable t) else pure none) with
            | some _ => rollBack o t token modeIndex 2 before
            | none => completeMode t token surface

/-! ## Committing -/

def activeTargetUnderGate : GfxM (Option Nat) := do
  let w ← get
  match w.desktopSource.bind fun source => if source.active then source.target else none with
  | none => return none
  | some t =>
    if !(w.displays[t]?).any fun d => d.isPresent && !d.removed && d.hooks.queryActualState then
      return none
    else
      let modeIndex := w.desktopSource.elim 0 (·.currentMode.modeIndex)
      match ← queryActualState o t with
      | .ok state =>
        return if state.known && state.enabled && state.modeIndex == modeIndex then some t
          else none
      | .error _ => return none

/-- `VideoPresentTargetResult`. -/
structure VideoPresentTargetResult where
  targetId : Nat
  requestedModeId : Nat
  actualModeId : Nat
  active : Nat
  outcome : Nat
  degraded : Nat
deriving DecidableEq

/-- What a commit has to find before it programs anything: the target, and the mode of the
    snapshot that the path names. -/
def checkCommit (s : VideoPresentSnapshot) (path : VideoPresentPathInfo) (expected : Option Nat)
    (token : Nat) : GfxM (Except KernelError (Nat × VideoPresentTargetModeInfo)) := do
  let w ← get
  if !pathFits w path then return .error .invalidArgument
  else
    match w.findTarget path.targetId with
    | none => return .error .notFound
    | some t =>
      if !(w.displays[t]?).any (·.isPresent) || some t ≠ expected || !(hooksOf w t).validate then
        return .error .notFound
      else
        match ← ask o (.validate t) with
        | some error => return .error error
        | none =>
          match (s.sourceMode path).filter fun m => m.width == path.width && m.height == path.height
            with
          | none => return .error .invalidArgument
          | some source =>
            match s.targetModes.reverse.find? (·.isOf path) with
            | none => return .error .unsupported
            | some selected =>
              let r := w.reservation token
              if !modeFits path source selected.mode then return .error .unsupported
              else if r.modeIndex ≠ selected.mode.modeIndex || !sameMode r.mode selected.mode ||
                  r.backing.isNone then
                return .error .invalidState
              else return .ok (t, selected)

/-- The desktop shows the mode already. -/
def World.alreadyActive (w : World) (t modeIndex : Nat) : Bool :=
  (w.desktopSource.any fun source => source.active && source.target == some t) &&
    (w.displays[t]?).any fun d => d.isAttachedToDesktop && d.currentMode.modeIndex == modeIndex

/-- `publish`: the observations are taken again, and the copy gets the next generation. -/
def publishCommitted (replacement : VideoPresentSnapshot) : GfxM Unit := do
  let observations ← observeAll o replacement.targetReferences
  refreshObservedTopology
  let w ← get
  let s ← capturePaths o
    { replacement with observations := observations, generation := w.generation }
  publish s

/-- The desktop source and the active path, set together. -/
def World.setDesktop (w : World) (f : KVideoPresentSource → KVideoPresentSource)
    (path : VideoPresentPathInfo) (valid : Bool) : World :=
  { w with desktopSource := w.desktopSource.map f, activePath := path, activePathValid := valid }

/-- The desktop shows nothing. -/
def World.clearDesktop (w : World) : World :=
  w.setDesktop (fun source =>
    { source with target := none, surface := none, currentMode := {}, active := false })
    w.activePath false

/-- The desktop shows a target. -/
def World.showTarget (w : World) (t : Nat) (surface : Option Nat) (mode : KDisplayModeInfo)
    (path : VideoPresentPathInfo) : World :=
  w.setDesktop (fun source =>
    { source with target := some t, surface := surface, currentMode := mode, active := true })
    path true

/-- The state of a target, as a result says it. -/
def resultOf (t : Nat) (path : VideoPresentPathInfo) (outcome : Nat) (degraded : Bool) (w : World)
    (actual : Except KernelError KDisplayActualState) : VideoPresentTargetResult where
  targetId := targetIdOf w t
  requestedModeId := path.targetModeId
  actualModeId := match actual with
    | .ok state =>
      if state.known && state.modeIndex < uint32Max then modeIdFromIndex state.modeIndex else 0
    | .error _ => 0
  active := match actual with
    | .ok state => if !state.known then 2 else if state.enabled then 1 else 0
    | .error _ => 2
  outcome := outcome
  degraded := if degraded then 1 else 0

/-- The previous target could not be taken off the desktop: both are asked what they show, and the
    desktop goes to the one that shows something. -/
def splitDesktop (t previous : Nat) (path : VideoPresentPathInfo) :
    GfxM (Except KernelError KDisplayActualState) := do
  let w ← get
  if (hooksOf w t).disable then let _ ← ask o (.disable t)
  let previousActual ← queryIf o (hooksOf w previous).queryActualState previous .unsupported
  let targetActual ← queryActualState o t
  setDisplay previous fun d =>
    { d with isAttachedToDesktop := isEnabled previousActual, topologyDegraded := true }
  setDisplay t fun d =>
    { d with isAttachedToDesktop := isEnabled targetActual, topologyDegraded := true }
  if isEnabled previousActual && !isEnabled targetActual then
    modifyGet fun w =>
      ((), w.setDesktop (fun source => { source with target := some previous, active := true })
        w.activePath w.activePathValid)
  else if isEnabled targetActual && !isEnabled previousActual then
    modifyGet fun w =>
      ((), w.showTarget t ((w.displays[t]?).bind (·.surface))
        ((w.displays[t]?).elim {} (·.currentMode)) path)
  else modifyGet fun w => ((), w.clearDesktop)
  return targetActual

/-- The target that has the desktop and is not `t`. -/
def World.previousTarget (w : World) (t : Nat) : Option Nat :=
  (w.desktopSource.bind fun source => if source.active then source.target else none).filter (· ≠ t)

/-- The previous target, when it cannot be disabled for sure. -/
def stuckPrevious (t : Nat) : GfxM (Option Nat) := do
  let w ← get
  match w.previousTarget t with
  | none => return none
  | some previous =>
    let disabled ←
      if (hooksOf w previous).disable then ask o (.disable previous) else pure (some .unsupported)
    match ← queryActualState o previous with
    | .ok state =>
      if disabled.isNone && state.known && !state.enabled then
        setDisplay previous fun d => { d with isAttachedToDesktop := false }
        return none
      else return some previous
    | .error _ => return some previous

/-- The end of a commit whose target went through. -/
def moveDesktop (t surface : Nat) (mode : KDisplayModeInfo) (path : VideoPresentPathInfo)
    (replacement : VideoPresentSnapshot) : GfxM VideoPresentTargetResult := do
  match ← stuckPrevious o t with
  | some previous =>
    let targetActual ← splitDesktop o t previous path
    publishCommitted o replacement
    let w ← get
    return resultOf t path 3 true w targetActual
  | none =>
    modifyGet fun w => ((), w.showTarget t (some surface) mode path)
    publishCommitted o replacement
    let w ← get
    let actual ← queryIf o (hooksOf w t).queryActualState t .unsupported
    return resultOf t path 0 ((w.displays[t]?).any (·.topologyDegraded)) w actual

/-- The end of a commit whose target did not go through. -/
def keepDesktop (t outcome : Nat) (path : VideoPresentPathInfo)
    (replacement : VideoPresentSnapshot) :
    GfxM VideoPresentTargetResult := do
  modifyGet fun w => ((),
    if (w.desktopSource.any fun source => source.active && source.target == some t) &&
        !(w.displays[t]?).any (·.isAttachedToDesktop) then w.clearDesktop
    else w)
  publishCommitted o replacement
  let w ← get
  let actual ← queryIf o (hooksOf w t).queryActualState t .unsupported
  return resultOf t path outcome ((w.displays[t]?).any (·.topologyDegraded)) w actual

/-- The part of `commit_video_present_path` under the driver gate.  Where it returns before the
    guard has finished the reservation, the guard does so. -/
def commitSection (s replacement : VideoPresentSnapshot) (generation : Nat)
    (path : VideoPresentPathInfo) (expected : Option Nat) (token : Nat) :
    GfxM (Except KernelError VideoPresentTargetResult × Bool) := do
  guardReservation token
  let w ← get
  if generation ≠ w.generation then
    finish expected token false
    return (.error .retry, false)
  else
    useSnapshot s
    let firstActivation := (← activeTargetUnderGate o).isNone
    match ← checkCommit o s path expected token with
    | .error error =>
      finish expected token false
      return (.error error, firstActivation)
    | .ok (t, selected) =>
      let w ← get
      if w.alreadyActive t selected.mode.modeIndex then
        finish expected token false
        return (.ok { targetId := targetIdOf w t
                      requestedModeId := path.targetModeId
                      actualModeId := path.targetModeId
                      active := 1
                      outcome := 0
                      degraded := if (w.displays[t]?).any (·.topologyDegraded) then 1 else 0 },
          firstActivation)
      else
        match ← programDisplayMode o t token selected.mode.modeIndex with
        | .notAttempted error =>
          if error ≠ .outOfMemory then finish expected token false
          return (.error error, firstActivation)
        | .failed outcome => return (.ok (← keepDesktop o t outcome path replacement),
            firstActivation)
        | .done mode surface =>
          return (.ok (← moveDesktop o t surface mode path replacement), firstActivation)

/-- The section of `commit_video_present_path` for a caller without room for a result. -/
def capacitySection (generation : Nat) (expected : Option Nat) (token : Nat) :
    GfxM KernelError := do
  let w ← get
  if generation ≠ w.generation then
    guardReservation token
    finish expected token false
    return .retry
  else return .bufferTooSmall

/-- `video_present_release_reservation`, called from a commit. -/
def releaseSection (expected : Option Nat) (token : Nat) : GfxM Unit := do
  guardReservation token
  finish expected token false

/-- What the copy of a snapshot starts from. -/
def VideoPresentSnapshot.cloned (s : VideoPresentSnapshot) : VideoPresentSnapshot :=
  { s with observations := s.observations, pathCapacity := 1, paths := [{}], pathsValid := false }

/-- The allocations of a commit: `CloneSnapshot`, the name of a surface, and the surface. -/
def allocateCommit (s : VideoPresentSnapshot) : Thread World ErrorCode := do
  match ← atomic (newSnapshot o) with
  | some error => return some error
  | none =>
    match ← allocateAll o [if s.hasSource then 1 else 0, s.sourceModes.length, s.targets.length,
        s.targetModes.length, s.targetReferences.length, s.observations.length, 1] with
    | some error => return some error
    | none =>
      match ← atomic (ask o .name) with
      | some error => return some error
      | none => atomic (ask o .create)

/-- `commit_video_present_path`, with `firstActivation`. -/
def commitPath (generation : Nat) (path : VideoPresentPathInfo) (expected : Option Nat)
    (token : Nat)
    (resultCapacity : Nat) : Thread World (Except KernelError VideoPresentTargetResult × Bool) := do
  match ← acquireSnapshot o generation with
  | .error error =>
    if error = .retry then atomic (releaseSection expected token)
    return (.error error, false)
  | .ok s =>
    if resultCapacity = 0 then
      return (.error (← atomic (capacitySection generation expected token)), false)
    else
      match ← allocateCommit o s with
      | some error => return (.error error, false)
      | none => atomic (commitSection o s s.cloned generation path expected token)

end Sections

end UnDOS.Gfx
