import UnDOS.Gfx.World
import UnDOS.Lib.Thread

/-!
# Topology Snapshots

`BuildSnapshot` and the two ways to acquire a snapshot (`gfx_management.cpp`), with what they use.

What runs under the driver gate or the topology lock is one section.  Everything that changes the
state holds the gate, so a section that holds it through both locks is one step as well.
Allocations happen outside the locks, each as a section of its own.
-/

namespace UnDOS.Gfx

open UnDOS.Kernel (KernelError)
open UnDOS.Lib (Thread)
open UnDOS.Lib.Thread (atomic)

section Sections

variable (o : Outside)

/-! ## Modes of a target -/

/-- The capabilities of a display. -/
def capsOf (w : World) (t : Nat) : KMonitorCapabilities :=
  match w.displays[t]? with
  | some d => d.monitorCaps
  | none => {}

/-- `enumerate_mode`, with that many indices left to ask for. -/
def enumerateModeFrom (t : Nat) : Nat → Nat → GfxM (Except KernelError KDisplayModeInfo)
  | 0, _ => return .error .resourceLimitExceeded
  | remaining + 1, ordinal => do
    let index := videoPresentRecordLimit - remaining
    match ← getModeInfo o t index with
    | .error error => return .error (if error = .outOfRange then .notFound else error)
    | .ok mode =>
      let w ← get
      if !usableMode (capsOf w t) mode then enumerateModeFrom t remaining ordinal
      else
        match ordinal with
        | 0 => return .ok { mode with modeIndex := index }
        | ordinal + 1 => enumerateModeFrom t remaining ordinal

def enumerateMode (t ordinal : Nat) : GfxM (Except KernelError KDisplayModeInfo) :=
  enumerateModeFrom o t (videoPresentRecordLimit + 1) ordinal

/-- The callbacks of a display. -/
def hooksOf (w : World) (t : Nat) : Hooks :=
  match w.displays[t]? with
  | some d => d.hooks
  | none => {}

/-- The identifier of a display. -/
def targetIdOf (w : World) (t : Nat) : Nat :=
  match w.displays[t]? with
  | some d => d.videoPresentTargetId
  | none => 0

/-- The loop of `CollectTargetModes`, with that many ordinals left. -/
def collectModesFrom (t : Nat) (capacity : Option Nat) :
    Nat → List VideoPresentTargetModeInfo →
      GfxM (Except KernelError (List VideoPresentTargetModeInfo))
  | 0, _ => return .error .resourceLimitExceeded
  | remaining + 1, modes => do
    match ← enumerateMode o t modes.length with
    | .error error => return if error = .notFound then .ok modes else .error error
    | .ok mode =>
      if modes.length = videoPresentRecordLimit then return .error .resourceLimitExceeded
      else if mode.modeIndex ≥ uint32Max then return .error .outOfRange
      else if capacity.any (· ≤ modes.length) then return .error .retry
      else
        let w ← get
        collectModesFrom t capacity remaining
          (modes ++ [{ targetId := targetIdOf w t
                       modeId := modeIdFromIndex mode.modeIndex
                       mode := mode }])

/-- `CollectTargetModes`.  `capacity` is there when there is an array for the modes. -/
def collectTargetModes (t : Nat) (capacity : Option Nat) :
    GfxM (Except KernelError (List VideoPresentTargetModeInfo)) := do
  let w ← get
  if !(hooksOf w t).complete then return .ok []
  else collectModesFrom o t capacity (videoPresentRecordLimit + 1) []

/-! ## Observations -/

/-- The adapter of a display. -/
def adapterOf (w : World) (d : KDisplay) : Option KGraphicsAdapter := w.adapters[d.adapter]?

/-- What an observation records beside the actual state. -/
def observedFields (w : World) (d : KDisplay) : Observation where
  capabilities := d.monitorCaps
  resourceGeneration := (adapterOf w d).elim 0 (·.resourceGeneration)
  adapterCaps := (adapterOf w d).elim 0 (·.caps)
  present := d.isPresent
  degraded := d.topologyDegraded

/-- What an observation records of the actual state. -/
def Observation.withActual (b : Observation) (actual : Except KernelError KDisplayActualState) :
    Observation :=
  match actual with
  | .ok s =>
    { b with actualKnown := s.known, actualEnabled := s.enabled, actualMode := s.modeIndex }
  | .error _ => { b with actualKnown := false, actualEnabled := false, actualMode := 0 }

/-- The actual state, where there is a callback for it. -/
def queryIf (c : Bool) (t : Nat) (error : KernelError) :
    GfxM (Except KernelError KDisplayActualState) :=
  if c then queryActualState o t else return .error error

def observe (t : Nat) : GfxM Observation := do
  let w ← get
  match w.displays[t]? with
  | none => return {}
  | some d =>
    let actual ← queryIf o (!d.removed && d.hooks.queryActualState) t .invalidState
    let w ← get
    return (observedFields w d).withActual actual

/-- `SameObservation`: the recorded fields are those of the display now. -/
def sameObservation (w : World) (before : Observation) (t : Nat) : Bool :=
  match w.displays[t]? with
  | none => false
  | some d =>
    !d.removed &&
      { before with actualKnown := false, actualEnabled := false, actualMode := 0 } ==
        observedFields w d

/-! ## Matching -/

/-- The modes that the target has from `ordinal` on are the first `n` of the recorded ones; what
    is left of those. -/
def matchModes (t : Nat) : Nat → Nat → List VideoPresentTargetModeInfo →
    GfxM (Option (List VideoPresentTargetModeInfo))
  | 0, ordinal, recorded => do
    match ← enumerateMode o t ordinal with
    | .error .notFound => return some recorded
    | _ => return none
  | n + 1, ordinal, recorded => do
    match ← enumerateMode o t ordinal with
    | .error _ => return none
    | .ok mode =>
      match recorded with
      | [] => return none
      | r :: recorded =>
        if r.mode = mode then matchModes t n (ordinal + 1) recorded else return none

/-- The loop of `SnapshotMatches` over the targets. -/
def matchTargets : List (Nat × Observation × VideoPresentTargetInfo) →
    List VideoPresentTargetModeInfo → GfxM Bool
  | [], recorded => return recorded.isEmpty
  | (t, prior, info) :: more, recorded => do
    let w ← get
    if !sameObservation w prior t then return false
    else
      let actual ← queryIf o (hooksOf w t).queryActualState t .invalidState
      if prior.withActual actual ≠ prior then return false
      else if !(hooksOf w t).complete then matchTargets more recorded
      else
        match ← matchModes o t info.modeCount 0 recorded with
        | none => return false
        | some recorded => matchTargets more recorded

def snapshotMatches (s : VideoPresentSnapshot) : GfxM Bool := do
  let w ← get
  if w.targets ≠ s.targetReferences then return false
  else matchTargets o (s.targetReferences.zip (s.observations.zip s.targets)) s.targetModes

/-! ## Paths -/

/-- The desktop source is there and active. -/
def World.desktopActive (w : World) : Bool := w.desktopSource.any (·.active)

/-- A target that the recorded paths do not explain. -/
def World.isDegraded (w : World) (t : Nat) : Bool :=
  match w.displays[t]? with
  | none => false
  | some d =>
    d.topologyDegraded ||
      (d.isAttachedToDesktop &&
        !(w.desktopSource.any fun source => source.active && source.target == some t))

/-- The active target is what the source and the active path say it is. -/
def World.pathsAgree (w : World) (source : KVideoPresentSource) (d : KDisplay)
    (actual : Except KernelError KDisplayActualState) : Bool :=
  source.surface.isSome && d.surface == source.surface &&
    d.currentMode.modeIndex == source.currentMode.modeIndex && w.activePathValid &&
    w.activePath.targetId == d.videoPresentTargetId &&
    match actual with
    | .ok state => state.known && state.enabled && state.modeIndex == d.currentMode.modeIndex
    | .error _ => false

def capturePaths (s : VideoPresentSnapshot) : GfxM VideoPresentSnapshot := do
  let w ← get
  let pathCount := if w.desktopActive then 1 else 0
  let s :=
    { s with
      pathCount := pathCount
      pathsValid := true
      paths := if pathCount ≠ 0 ∧ s.pathCapacity ≠ 0 then s.paths.set 0 w.activePath else s.paths
      degraded := s.targetReferences.any w.isDegraded || w.desktopActive != w.activePathValid }
  match w.desktopSource with
  | none => return s
  | some source =>
    if !source.active then return s
    else
      match source.target.bind fun t => (w.displays[t]?).map fun d => (t, d) with
      | none => return { s with degraded := true, pathsValid := false }
      | some (t, d) =>
        let actual ← queryIf o (!d.removed && d.hooks.queryActualState) t .invalidState
        if w.pathsAgree source d actual then return s
        else return { s with degraded := true, pathsValid := false }

/-- `g_snapshot = s`. -/
def publish (s : VideoPresentSnapshot) : GfxM Unit :=
  modifyGet fun w => ((), { w with snapshot := some s, published := s :: w.published })

/-! ## Building a snapshot -/

/-- `AllocateRecords`: beyond the limit, beyond the budget, or out of memory. -/
def allocateRecords (count : Nat) : GfxM ErrorCode := do
  if count > videoPresentRecordLimit then return some .resourceLimitExceeded
  else if count = 0 then return none
  else
    match ← ask o (.allocate count) with
    | none => return none
    | some .resourceLimitExceeded => return some .resourceLimitExceeded
    | some _ => return some .outOfMemory

def newSnapshot : GfxM ErrorCode := do
  match ← ask o (.allocate 1) with
  | none => return none
  | some _ => return some .outOfMemory

/-- `AllocateRecords` for each of the counts, up to the first that fails. -/
def allocateAll : List Nat → Thread World ErrorCode
  | [] => return none
  | count :: counts => do
    match ← atomic (allocateRecords o count) with
    | some error => return some error
    | none => allocateAll counts

/-- The first section: the generation and what there is to record. -/
def beginSnapshot : GfxM (VideoPresentSnapshot × Nat) := do
  let w ← get
  return ({ generation := w.generation
            hasSource := w.desktopSource.isSome
            pathCount := if w.desktopActive then 1 else 0 }, w.targets.length)

def observeAll : List Nat → GfxM (List Observation)
  | [] => return []
  | t :: ts => do
    let b ← observe o t
    return b :: (← observeAll ts)

/-- The second section: the targets and what is observed of them. -/
def observeTargets (s : VideoPresentSnapshot) (targetCount : Nat) :
    GfxM (Except KernelError VideoPresentSnapshot) := do
  let w ← get
  if s.generation ≠ w.generation then return .error .retry
  else if w.targets.length ≠ targetCount then return .error .retry
  else
    let observations ← observeAll o w.targets
    return .ok { s with targetReferences := w.targets, observations := observations }

/-- What a snapshot records of a target. -/
def targetInfo (d : KDisplay) (modeCount : Nat) : VideoPresentTargetInfo where
  targetId := d.videoPresentTargetId
  connected := d.isPresent
  modeCount := modeCount
  maxWidth := d.monitorCaps.maxWidth
  maxHeight := d.monitorCaps.maxHeight
  maxRefreshHz := d.monitorCaps.maxRefreshRate

/-- The third section: how many modes each target has. -/
def countModes : List (Nat × Observation) → Nat →
    GfxM (Except KernelError (List VideoPresentTargetInfo))
  | [], _ => return .ok []
  | (t, observation) :: more, targetModeCount => do
    let w ← get
    match w.displays[t]? with
    | none => return .error .retry
    | some d =>
      if !sameObservation w observation t then return .error .retry
      else
        match ← collectTargetModes o t none with
        | .error error => return .error error
        | .ok modes =>
          if modes.length > videoPresentRecordLimit - targetModeCount then
            return .error .resourceLimitExceeded
          else
            match ← countModes more (targetModeCount + modes.length) with
            | .error error => return .error error
            | .ok infos => return .ok (targetInfo d modes.length :: infos)

/-- The modes that `targets` says there are. -/
def targetModeCount (targets : List VideoPresentTargetInfo) : Nat := (targets.map (·.modeCount)).sum

/-- The fourth section: the modes. -/
def collectModes (hasRecords : Bool) : List (Nat × Observation × VideoPresentTargetInfo) →
    GfxM (Except KernelError (List VideoPresentTargetModeInfo))
  | [] => return .ok []
  | (t, observation, info) :: more => do
    let w ← get
    if !sameObservation w observation t then return .error .retry
    else
      match ← collectTargetModes o t (if hasRecords then some info.modeCount else none) with
      | .error error => return .error error
      | .ok modes =>
        if modes.length ≠ info.modeCount then return .error .retry
        else
          match ← collectModes hasRecords more with
          | .error error => return .error error
          | .ok rest => return .ok (modes ++ rest)

def sameSourceMode (left : VideoPresentSourceModeInfo) (right : KDisplayModeInfo) : Bool :=
  left.width == right.width && left.height == right.height && left.colorDepth == right.bpp &&
    left.pixelFormat == right.pixelFormat

/-- The source modes: one for each geometry and format among the target modes. -/
def sourceModesOf (targetModes : List VideoPresentTargetModeInfo) :
    List VideoPresentSourceModeInfo :=
  targetModes.foldl (fun modes m =>
    if modes.any (sameSourceMode · m.mode) then modes
    else modes ++ [{ modeId := modeIdFromIndex modes.length
                     width := m.mode.width
                     height := m.mode.height
                     colorDepth := m.mode.bpp
                     pixelFormat := m.mode.pixelFormat }]) []

/-- The last section: nothing has changed since, and the snapshot is published. -/
def publishSnapshot (s : VideoPresentSnapshot) :
    GfxM (Except KernelError VideoPresentSnapshot) := do
  if !(← snapshotMatches o s) then return .error .retry
  else
    let w ← get
    if s.generation ≠ w.generation then return .error .retry
    else
      let s ← capturePaths o s
      if s.pathCount > s.pathCapacity then return .error .retry
      else
        modifyGet fun w =>
          ((), { w with builds := (w.snapshot.map (·.generation), w.generation) :: w.builds })
        publish s
        return .ok s

def buildSnapshot : Thread World (Except KernelError VideoPresentSnapshot) := do
  match ← atomic (newSnapshot o) with
  | some error => return .error error
  | none =>
    let (s, targetCount) ← atomic beginSnapshot
    if targetCount > videoPresentRecordLimit then return .error .resourceLimitExceeded
    else
      match ← allocateAll o [targetCount, targetCount, targetCount, if s.hasSource then 1 else 0,
          s.pathCount] with
      | some error => return .error error
      | none =>
        let s := { s with pathCapacity := s.pathCount, paths := List.replicate s.pathCount {} }
        match ← atomic (observeTargets o s targetCount) with
        | .error error => return .error error
        | .ok s =>
          match ← atomic (countModes o (s.targetReferences.zip s.observations) 0) with
          | .error error => return .error error
          | .ok targets =>
            let s := { s with targets := targets }
            match ← atomic (allocateRecords o (targetModeCount s.targets)) with
            | some error => return .error error
            | none =>
              match ← atomic (collectModes o (targetModeCount s.targets ≠ 0)
                  (s.targetReferences.zip (s.observations.zip s.targets))) with
              | .error error => return .error error
              | .ok targetModes =>
                let sourceModes := sourceModesOf targetModes
                let s := { s with targetModes := targetModes, sourceModes := sourceModes }
                if sourceModes.length > videoPresentRecordLimit then
                  return .error .resourceLimitExceeded
                else
                  match ← atomic (allocateRecords o sourceModes.length) with
                  | some error => return .error error
                  | none => atomic (publishSnapshot o s)

/-! ## Acquiring a snapshot -/

/-- `acquire_published_video_present_snapshot`. -/
def acquirePublishedSnapshot (generation : Nat) :
    GfxM (Except KernelError VideoPresentSnapshot) := do
  let w ← get
  match w.snapshot with
  | none => return .error .retry
  | some s =>
    if generation = 0 ∨ generation ≠ w.generation ∨ generation ≠ s.generation then
      return .error .retry
    else return .ok s

/-- The first section of `acquire_video_present_snapshot`: the published snapshot, if it is of the
    current generation. -/
def lookupSnapshot (generation : Nat) :
    GfxM (Except KernelError (Option VideoPresentSnapshot)) := do
  let w ← get
  if generation ≠ 0 ∧ generation ≠ w.generation then return .error .retry
  else return .ok (w.snapshot.filter (·.generation == w.generation))

/-- The second section: the snapshot still describes the drivers, or its generation is over. -/
def verifySnapshot (generation : Nat) (current : VideoPresentSnapshot) :
    GfxM (Except KernelError (Option VideoPresentSnapshot)) := do
  let found ← snapshotMatches o current
  let w ← get
  if !found && current.generation == w.generation then refreshObservedTopology
  let w ← get
  if generation ≠ 0 ∧ generation ≠ w.generation then return .error .retry
  else if found && current.generation == w.generation then
    if generation ≠ 0 ∧ generation ≠ current.generation then return .error .retry
    else return .ok (some current)
  else return .ok none

/-- The end of `acquire_video_present_snapshot`. -/
def acquireBuilt (generation : Nat) : Thread World (Except KernelError VideoPresentSnapshot) := do
  match ← buildSnapshot o with
  | .error error => return .error error
  | .ok s =>
    if generation ≠ 0 ∧ generation ≠ s.generation then return .error .retry
    else return .ok s

/-- `acquire_video_present_snapshot`. -/
def acquireSnapshot (generation : Nat) :
    Thread World (Except KernelError VideoPresentSnapshot) := do
  match ← atomic (lookupSnapshot generation) with
  | .error error => return .error error
  | .ok none => acquireBuilt o generation
  | .ok (some current) =>
    match ← atomic (verifySnapshot o generation current) with
    | .error error => return .error error
    | .ok (some s) => return .ok s
    | .ok none => acquireBuilt o generation

end Sections

end UnDOS.Gfx
