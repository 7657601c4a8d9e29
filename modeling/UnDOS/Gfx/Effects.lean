import UnDOS.Gfx.Tokens

/-!
# What the Routines Change

Most routines of the graphics manager look at the state and ask the drivers, and change nothing
(`Asked`).  Others change the tokens and the handles as well (`TokensOnly`).
-/

namespace UnDOS.Gfx

open UnDOS.Lib

/-- The questions of a mode change. -/
def Request.changesMode : Request → Bool
  | .prepareMode .. | .programMode .. | .enable .. => true
  | _ => false

/-- A question of another kind, with its answer. -/
def Event.plain : Event → Prop
  | .asked request _ => request.changesMode = false
  | _ => False

/-- Further questions. -/
def Asked (w w' : World) : Prop :=
  ∃ newer, (∀ e ∈ newer, e.plain) ∧ w' = { w with trace := newer ++ w.trace }

instance : IsLater Asked where
  refl _ := ⟨[], fun _ h => (List.not_mem_nil h).elim, rfl⟩
  trans := by
    rintro w _ _ ⟨newer, hplain, rfl⟩ ⟨newest, hplain', rfl⟩
    refine ⟨newest ++ newer, fun e he => ?_, by rw [List.append_assoc]⟩
    exact (List.mem_append.mp he).elim (hplain' e) (hplain e)

namespace Asks

variable (o : Outside)

theorem ask {request : Request} (h : request.changesMode = false) :
    Does Asked (Gfx.ask o request) :=
  fun w => ⟨[.asked request (o.status request w.trace)],
    fun e he => by
      rw [List.mem_singleton.mp he]
      exact h, rfl⟩

theorem getModeInfo (t index : Nat) : Does Asked (Gfx.getModeInfo o t index) := by
  refine .bind .get fun w => .bind (ask o rfl) fun error => ?_
  cases error with
  | none => exact .pure _
  | some error => exact .pure _

theorem queryActualState (t : Nat) : Does Asked (Gfx.queryActualState o t) := by
  refine .bind .get fun w => .bind (ask o rfl) fun error => ?_
  cases error with
  | none => exact .pure _
  | some error => exact .pure _

theorem queryIf (c : Bool) (t : Nat) (error : Kernel.KernelError) :
    Does Asked (Gfx.queryIf o c t error) :=
  .ite (queryActualState o t) (.pure _)

/-! ## Modes and observations -/

theorem enumerateMode (t ordinal : Nat) : Does Asked (Gfx.enumerateMode o t ordinal) := by
  have hloop : ∀ remaining ordinal, Does Asked (enumerateModeFrom o t remaining ordinal) := by
    intro remaining
    induction remaining with
    | zero => exact fun _ => .pure _
    | succ remaining ih =>
      refine fun ordinal => .bind (getModeInfo o _ _) fun mode => ?_
      rcases mode with error | mode
      · exact .pure _
      · refine .bind .get fun w => .ite (ih _) ?_
        cases ordinal with
        | zero => exact .pure _
        | succ ordinal => exact ih _
  exact hloop _ _

theorem collectTargetModes (t : Nat) (capacity : Option Nat) :
    Does Asked (Gfx.collectTargetModes o t capacity) := by
  have hloop : ∀ remaining modes, Does Asked (collectModesFrom o t capacity remaining modes) := by
    intro remaining
    induction remaining with
    | zero => exact fun _ => .pure _
    | succ remaining ih =>
      refine fun modes => .bind (enumerateMode o _ _) fun mode => ?_
      rcases mode with error | mode
      · exact .pure _
      · exact .ite (.pure _) (.ite (.pure _) (.ite (.pure _) (.bind .get fun w => ih _)))
  exact .bind .get fun w => .ite (.pure _) (hloop _ _)

theorem observe (t : Nat) : Does Asked (Gfx.observe o t) := by
  refine .bind .get fun w => ?_
  cases w.displays[t]? with
  | none => exact .pure _
  | some d => exact .bind (queryIf o _ _ _) fun _ => .bind .get fun _ => .pure _

theorem observeAll (ts : List Nat) : Does Asked (Gfx.observeAll o ts) := by
  induction ts with
  | nil => exact .pure _
  | cons t ts ih => exact .bind (observe o t) fun _ => .bind ih fun _ => .pure _

theorem matchModes (t n ordinal : Nat) (recorded : List VideoPresentTargetModeInfo) :
    Does Asked (Gfx.matchModes o t n ordinal recorded) := by
  induction n generalizing ordinal recorded with
  | zero =>
    refine .bind (enumerateMode o _ _) fun mode => ?_
    split
    · exact .pure _
    · exact .pure _
  | succ n ih =>
    refine .bind (enumerateMode o _ _) fun mode => ?_
    rcases mode with error | mode
    · exact .pure _
    · cases recorded with
      | nil => exact .pure _
      | cons r recorded => exact .ite (ih _ _) (.pure _)

theorem snapshotMatches (s : VideoPresentSnapshot) : Does Asked (Gfx.snapshotMatches o s) := by
  have hloop : ∀ targets recorded, Does Asked (matchTargets o targets recorded) := by
    intro targets
    induction targets with
    | nil => exact fun _ => .pure _
    | cons target targets ih =>
      refine fun recorded => .bind .get fun w => .ite (.pure _) ?_
      refine .bind (queryIf o _ _ _) fun actual => .ite (.pure _) (.ite (ih _) ?_)
      refine .bind (matchModes o _ _ _ _) fun rest => ?_
      cases rest with
      | none => exact .pure _
      | some rest => exact ih _
  exact .bind .get fun w => .ite (.pure _) (hloop _ _)

theorem capturePaths (s : VideoPresentSnapshot) : Does Asked (Gfx.capturePaths o s) := by
  refine .bind .get fun w => ?_
  cases w.desktopSource with
  | none => exact .pure _
  | some source =>
    refine .ite (.pure _) ?_
    split
    · exact .pure _
    · exact .bind (queryIf o _ _ _) fun _ => .ite (.pure _) (.pure _)

/-! ## Building -/

theorem allocateRecords (count : Nat) : Does Asked (Gfx.allocateRecords o count) := by
  refine .ite (.pure _) (.ite (.pure _) (.bind (ask o rfl) fun error => ?_))
  split
  · exact .pure _
  · exact .pure _
  · exact .pure _

theorem newSnapshot : Does Asked (Gfx.newSnapshot o) := by
  refine .bind (ask o rfl) fun error => ?_
  cases error with
  | none => exact .pure _
  | some error => exact .pure _

theorem beginSnapshot : Does Asked Gfx.beginSnapshot := .bind .get fun _ => .pure _

theorem observeTargets (s : VideoPresentSnapshot) (targetCount : Nat) :
    Does Asked (Gfx.observeTargets o s targetCount) :=
  .bind .get fun _ => .ite (.pure _) (.ite (.pure _) (.bind (observeAll o _) fun _ => .pure _))

theorem countModes (targets : List (Nat × Observation)) (targetModeCount : Nat) :
    Does Asked (Gfx.countModes o targets targetModeCount) := by
  induction targets generalizing targetModeCount with
  | nil => exact .pure _
  | cons target targets ih =>
    refine .bind .get fun w => ?_
    cases w.displays[target.1]? with
    | none => exact .pure _
    | some d =>
      refine .ite (.pure _) (.bind (collectTargetModes o _ _) fun modes => ?_)
      rcases modes with error | modes
      · exact .pure _
      · refine .ite (.pure _) (.bind (ih _) fun infos => ?_)
        rcases infos with error | infos
        · exact .pure _
        · exact .pure _

theorem collectModes (hasRecords : Bool)
    (targets : List (Nat × Observation × VideoPresentTargetInfo)) :
    Does Asked (Gfx.collectModes o hasRecords targets) := by
  induction targets with
  | nil => exact .pure _
  | cons target targets ih =>
    refine .bind .get fun w => .ite (.pure _) (.bind (collectTargetModes o _ _) fun modes => ?_)
    rcases modes with error | modes
    · exact .pure _
    · refine .ite (.pure _) (.bind ih fun rest => ?_)
      rcases rest with error | rest
      · exact .pure _
      · exact .pure _

theorem acquirePublishedSnapshot (generation : Nat) :
    Does Asked (Gfx.acquirePublishedSnapshot generation) := by
  refine .bind .get fun w => ?_
  cases w.snapshot with
  | none => exact .pure _
  | some s => exact .ite (.pure _) (.pure _)

theorem lookupSnapshot (generation : Nat) : Does Asked (Gfx.lookupSnapshot generation) :=
  .bind .get fun _ => .ite (.pure _) (.pure _)

/-! ## Transactions -/

theorem activeTargetUnderGate : Does Asked (Gfx.activeTargetUnderGate o) := by
  refine .bind .get fun w => ?_
  split
  · exact .pure _
  · refine .ite (.pure _) (.bind (queryActualState o _) fun actual => ?_)
    rcases actual with error | state
    · exact .pure _
    · exact .pure _

theorem resolvePathLocked (s : VideoPresentSnapshot) (generation : Nat)
    (path : VideoPresentPathInfo) : Does Asked (Gfx.resolvePathLocked o s generation path) := by
  refine .bind .get fun w => .ite (.pure _) (.ite (.pure _) ?_)
  cases w.findTarget path.targetId with
  | none => exact .pure _
  | some t =>
    refine .ite (.pure _) (.bind (ask o rfl) fun error => ?_)
    cases error with
    | some error => exact .pure _
    | none =>
      dsimp only
      split
      · exact .pure _
      · split
        · exact .pure _
        · exact .ite (.pure _) (.pure _)

theorem checkCommit (s : VideoPresentSnapshot) (path : VideoPresentPathInfo)
    (expected : Option Nat) (token : Nat) :
      Does Asked (Gfx.checkCommit o s path expected token) := by
  refine .bind .get fun w => .ite (.pure _) ?_
  cases w.findTarget path.targetId with
  | none => exact .pure _
  | some t =>
    refine .ite (.pure _) (.bind (ask o rfl) fun error => ?_)
    cases error with
    | some error => exact .pure _
    | none =>
      dsimp only
      split
      · exact .pure _
      · split
        · exact .pure _
        · exact .ite (.pure _) (.ite (.pure _) (.pure _))

theorem targetSurface (t : Nat) : Does Asked (Gfx.targetSurface o t) := by
  refine .bind .get fun w => ?_
  split
  · exact .pure _
  · refine .bind (ask o rfl) fun error => ?_
    cases error with
    | some error => exact .pure _
    | none => exact .pure _

/-! ## Refreshing -/

theorem driverModeSupported (t : Nat) (d : KDisplay) :
    Does Asked (Gfx.driverModeSupported o t d) := by
  refine .ite (.pure _) (.bind (getModeInfo o _ _) fun mode => ?_)
  rcases mode with error | mode
  · exact .pure _
  · exact .pure _

theorem probeTarget (adapter t : Nat) : Does Asked (Gfx.probeTarget o adapter t) := by
  refine .bind .get fun w => ?_
  cases w.displays[t]? with
  | none => exact .pure _
  | some d =>
    refine .bind (ask o rfl) fun probed => .ite (.pure _) ?_
    exact .ite (.bind (driverModeSupported o t d) fun _ => .pure _) (.pure _)

theorem probeTargets (adapter : Nat) (ts : List Nat) :
    Does Asked (Gfx.probeTargets o adapter ts) := by
  induction ts with
  | nil => exact .pure _
  | cons t ts ih => exact .bind (probeTarget o adapter t) fun _ => .bind ih fun _ => .pure _

theorem probeSection (adapter generation count : Nat) :
    Does Asked (Gfx.probeSection o adapter generation count) :=
  .bind .get fun _ => .ite (.pure _) (.ite (.pure _) (.ite (.pure _)
    (.bind (probeTargets o adapter _) fun _ => .pure _)))

theorem configureDisplay (adapter head : Nat) :
    Does Asked (Gfx.configureDisplay o adapter head) := by
  refine .bind .get fun w => .ite (.bind (ask o rfl) fun error => ?_) (.pure _)
  cases error with
  | some error => exact .pure _
  | none => exact .pure _

end Asks

/-! ## Any effect

What a relation has to allow for a routine to have it as its effect. -/

section Any

variable (o : Outside) {R : World → World → Prop} [IsLater R] (hasked : ∀ w w', Asked w w' → R w w')

include hasked

/-- Whatever inserting a display does, the loop over the heads of an adapter does. -/
theorem does_startHeads (hinsert : ∀ d, Does R (Gfx.insertDisplay o d)) (adapter remaining : Nat) :
    Does R (Gfx.startHeads o adapter remaining) := by
  have hasks : ∀ {α : Type} {x : GfxM α}, Does Asked x → Does R x := fun hx => hx.weaken hasked
  have hhead : ∀ head, Does R (startHead o adapter head) := by
    refine fun head => .bind .get fun w => .bind (hasks (Asks.ask o rfl)) fun probed => ?_
    cases probed with
    | some _ => exact .pure _
    | none =>
      refine .ite (.pure _) (.bind (hasks (Asks.ask o rfl)) fun named => ?_)
      cases named with
      | some _ => exact .pure _
      | none =>
        refine .bind (hasks (Asks.ask o rfl)) fun created => ?_
        cases created with
        | some _ => exact .pure _
        | none =>
          refine .bind (hasks (Asks.configureDisplay o adapter head)) fun hooks => ?_
          cases hooks with
          | none => exact .pure _
          | some hooks => exact .bind (hinsert _) fun _ => .pure _
  induction remaining with
  | zero => exact .pure _
  | succ remaining ih =>
    refine .bind (hhead _) fun running => ?_
    cases running with
    | some _ => exact .pure _
    | none => exact ih

theorem does_enumerateHeads (hinsert : ∀ d, Does R (Gfx.insertDisplay o d))
    (hadapter : ∀ adapter f, Does R (setAdapter adapter f)) (adapter : Nat) (discoverOnly : Bool) :
    Does R (Gfx.enumerateHeads o adapter discoverOnly) := by
  have hask : ∀ request, request.changesMode = false → Does R (Gfx.ask o request) :=
    fun _ h => (Asks.ask o h).weaken hasked
  refine .bind .get fun w => .ite (hadapter _ _) (.bind (hask .create rfl) fun created => ?_)
  cases created with
  | some _ => exact .ite (hadapter _ _) (.pure _)
  | none =>
    exact .bind (does_startHeads o hasked hinsert adapter _)
      fun _ => .ite (hadapter _ _) (hadapter _ _)

theorem does_stuckPrevious
    (hdetach : ∀ t, Does R (setDisplay t fun d => { d with isAttachedToDesktop := false }))
    (t : Nat) : Does R (Gfx.stuckPrevious o t) := by
  refine .bind .get fun w => ?_
  cases w.previousTarget t with
  | none => exact .pure _
  | some previous =>
    refine .either ((Asks.ask o rfl).weaken hasked) fun disabled =>
      .bind ((Asks.queryActualState o _).weaken hasked) fun actual => ?_
    rcases actual with error | state
    · exact .pure _
    · exact .ite (.bind (hdetach _) fun _ => .pure _) (.pure _)

theorem does_verifySnapshot (hbump : Does R refreshObservedTopology) (generation : Nat)
    (current : VideoPresentSnapshot) : Does R (Gfx.verifySnapshot o generation current) := by
  refine .bind ((Asks.snapshotMatches o _).weaken hasked) fun found => .bind .get fun w => ?_
  exact .before hbump (.bind .get fun _ =>
    .ite (.pure _) (.ite (.ite (.pure _) (.pure _)) (.pure _)))
    fun _ => rfl

end Any

/-! ## Tokens -/

/-- Nothing but the tokens, the handles and what happened is different. -/
def TokensOnly (w w' : World) : Prop :=
  w' =
    { w with
      trace := w'.trace
      tokens := w'.tokens
      tables := w'.tables
      nextSerial := w'.nextSerial }

instance : IsLater TokensOnly where
  refl _ := rfl
  trans := by
    intro a b c hab hbc
    unfold TokensOnly at *
    rw [hbc, hab]

theorem Asked.tokensOnly {w w' : World} (h : Asked w w') : TokensOnly w w' := by
  obtain ⟨newer, -, rfl⟩ := h
  rfl

/-- Nothing but what happened is different. -/
def TraceOnly (w w' : World) : Prop := w' = { w with trace := w'.trace }

instance : IsLater TraceOnly where
  refl _ := rfl
  trans := by
    intro a b c hab hbc
    unfold TraceOnly at *
    rw [hbc, hab]

theorem TraceOnly.ask (o : Outside) (request : Request) : Does TraceOnly (Gfx.ask o request) :=
  fun _ => rfl

theorem Asked.traceOnly {w w' : World} (h : Asked w w') : TraceOnly w w' := by
  obtain ⟨newer, -, rfl⟩ := h
  rfl

theorem TraceOnly.of_asks {α : Type} {x : GfxM α} (h : Does Asked x) : Does TraceOnly x :=
  h.weaken fun _ _ => Asked.traceOnly

namespace TokensOnly

variable (o : Outside)

theorem of_asks {α : Type} {x : GfxM α} (h : Does Asked x) : Does TokensOnly x :=
  h.weaken fun _ _ h => h.tokensOnly

theorem ask (request : Request) : Does TokensOnly (Gfx.ask o request) := fun _ => rfl

theorem setToken (token : Nat) (f : KVideoPresentValidationToken → KVideoPresentValidationToken) :
    Does TokensOnly (Gfx.setToken token f) := fun _ => rfl

theorem setTable (process : Nat) (table : Process.Table Nat) :
    Does TokensOnly (Gfx.setTable process table) := fun _ => rfl

theorem guardReservation (token : Nat) : Does TokensOnly (Gfx.guardReservation token) :=
  fun _ => rfl

theorem finishMode (target serial : Option Nat) (committed : Bool) :
    Does TokensOnly (Gfx.finishMode target serial committed) :=
  .bind .get fun _ => .ite (.modify fun _ => rfl) (.pure _)

theorem finish (target : Option Nat) (token : Nat) (committed : Bool) :
    Does TokensOnly (Gfx.finish target token committed) :=
  .bind .get fun _ => .bind (finishMode _ _ _) fun _ => setToken _ _

/-! ### Preparing -/

theorem prepareMode (t modeIndex : Nat) : Does TokensOnly (Gfx.prepareMode o t modeIndex) :=
  .bind .get fun _ => .bind (ask o _) fun _ => .bind (.modify fun _ => rfl) fun _ => .pure _

theorem newToken (generation : Nat) (path : VideoPresentPathInfo) (t : Nat)
    (r : KDisplayModeReservation) : Does TokensOnly (Gfx.newToken generation path t r) :=
  .bind .get fun _ => .bind (.modify fun _ => rfl) fun _ => .pure _

theorem prepareToken (s : VideoPresentSnapshot) (generation : Nat) (path : VideoPresentPathInfo) :
    Does TokensOnly (Gfx.prepareToken o s generation path) := by
  refine .bind (of_asks (Asks.resolvePathLocked o s generation path)) fun resolved => ?_
  rcases resolved with error | ⟨t, modeIndex⟩
  · exact .pure _
  · refine .bind (prepareMode o t modeIndex) fun prepared => ?_
    obtain ⟨error | error, r⟩ := prepared
    · refine .bind (of_asks (Asks.getModeInfo o t modeIndex)) fun mode => ?_
      rcases mode with error | mode
      · exact .bind (finishMode _ _ _) fun _ => .pure _
      · exact .bind .get fun _ => .ite (.bind (finishMode _ _ _) fun _ => .pure _)
          (.bind (newToken _ _ _ _) fun _ => .pure _)
    · exact .bind (finishMode _ _ _) fun _ => .pure _

theorem capacitySection (generation : Nat) (expected : Option Nat) (token : Nat) :
    Does TokensOnly (Gfx.capacitySection generation expected token) :=
  .bind .get fun _ => .ite (.bind (guardReservation _) fun _ => .bind (finish _ _ _)
    fun _ => .pure _)
    (.pure _)

theorem releaseSection (expected : Option Nat) (token : Nat) :
    Does TokensOnly (Gfx.releaseSection expected token) :=
  .bind (guardReservation _) fun _ => finish _ _ _

theorem restorePrevious (t modeIndex : Nat) (before : KDisplayActualState) :
    Does TokensOnly (Gfx.restorePrevious o t modeIndex before) := by
  refine .bind .get fun w => .ite (.pure _) ?_
  have hend : ∀ restored : Bool, Does TokensOnly (do
      if !restored then return false
      else if before.enabled then
        if (hooksOf w t).enable then return (← Gfx.ask o (.enable t)).isNone else return true
      else
        if (hooksOf w t).disable then return (← Gfx.ask o (.disable t)).isNone else return true) :=
    fun restored => .ite (.pure _) (.ite (.ite (.bind (ask o _) fun _ => .pure _) (.pure _))
      (.ite (.bind (ask o _) fun _ => .pure _) (.pure _)))
  exact .ite (.bind (.pure _) hend)
    (.ite (.bind (.pure _) hend) (.bind (ask o _) fun _ => .bind (.pure _) hend))

/-! ### References -/

theorem destroyToken (token : Nat) : Does TokensOnly (Gfx.destroyToken token) := by
  refine .bind .get fun w => ?_
  cases w.tokens[token]? with
  | none => exact .pure _
  | some t => exact .ite (.bind (finish _ _ _) fun _ => setToken _ _) (setToken _ _)

theorem dropReference (token : Nat) : Does TokensOnly (Gfx.dropReference token) :=
  .bind (setToken _ _) fun _ => .bind .get fun _ => .ite (destroyToken token) (.pure _)

theorem closeSection (process handle : Nat) : Does TokensOnly (Gfx.closeSection process handle) :=
  .bind .get fun _ => .bind (setTable _ _) fun _ => .ite (.pure _) (.pure _)

theorem exitSection (process : Nat) : Does TokensOnly (Gfx.exitSection process) :=
  .bind .get fun _ => .bind (setTable _ _) fun _ => .pure _

theorem allocateHandle (process token : Nat) :
    Does TokensOnly (Gfx.allocateHandle process token) := by
  refine .bind .get fun w => .bind (setTable _ _) fun _ => ?_
  split
  · exact .pure _
  · exact .bind (setToken _ _) fun _ => .pure _

theorem lookupToken (process handle : Nat) : Does TokensOnly (Gfx.lookupToken process handle) := by
  refine .bind .get fun w => ?_
  split
  · exact .pure _
  · split
    · exact .pure _
    · refine .ite (.pure _) ?_
      split
      · exact .pure _
      · exact .bind (setToken _ _) fun _ => .pure _

end TokensOnly

end UnDOS.Gfx
