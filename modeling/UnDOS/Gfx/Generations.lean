import UnDOS.Gfx.Screens
import UnDOS.Gfx.Threads

/-!
# What a Generation Names

Committed snapshots get a generation of their own, so two of one generation are the same unless
`BuildSnapshot` has put a snapshot over another one of its generation (`BuildsAlone`): it looks at
the generation, but not at the generation of `g_snapshot`.  `Numbered` is the invariant: the
published snapshots go up in generation, and the current one has the records of each that has its
generation.
-/

namespace UnDOS.Gfx

open UnDOS.Kernel (KernelError)
open UnDOS.Lib
open UnDOS.Lib.Thread (Advances)

/-- Before `BuildSnapshot` published, `g_snapshot` was never of the current generation. -/
def BuildsAlone (w : World) : Prop := ∀ b ∈ w.builds, b.1 ≠ some b.2

/-! ## The invariant -/

/-- The generations of the snapshots. -/
structure Numbered (w : World) : Prop where
  number : w.generation = w.bumps + 1
  current : ∀ s, w.snapshot = some s → s.generation ≤ w.generation
  top : ∀ s ∈ w.published, ∃ cur, w.snapshot = some cur ∧ s.generation ≤ cur.generation
  same : ∀ s ∈ w.published, ∀ s' ∈ w.published, s.generation = s'.generation →
    s.records = s'.records

/-- The current snapshot and those that paths were resolved against have been published, and the
    generations are in order while builds are alone and the counter is not exhausted. -/
structure NamingOk (w : World) : Prop where
  current : ∀ s, w.snapshot = some s → s ∈ w.published
  used : ∀ s ∈ w.used, s ∈ w.published
  numbered : BuildsAlone w → w.bumps < uint32Max → Numbered w

/-- The history only grows. -/
structure Grown (w w' : World) : Prop where
  published : ∀ s ∈ w.published, s ∈ w'.published
  builds : ∀ b ∈ w.builds, b ∈ w'.builds
  bumps : w.bumps ≤ w'.bumps

/-- The history grows, and what is known of it is kept. -/
def Names (w w' : World) : Prop := Grown w w' ∧ (NamingOk w → NamingOk w')

instance : IsLater Names where
  refl _ := ⟨⟨fun _ => id, fun _ => id, Nat.le_refl _⟩, id⟩
  trans _ _ _ hab hbc :=
    ⟨⟨fun s hs => hbc.1.published s (hab.1.published s hs), fun b hb =>
      hbc.1.builds b (hab.1.builds b hb),
      Nat.le_trans hab.1.bumps hbc.1.bumps⟩, hbc.2 ∘ hab.2⟩

/-- A snapshot that was published. -/
abbrev Published (s : VideoPresentSnapshot) (w : World) : Prop := s ∈ w.published

theorem BuildsAlone.mono {w w' : World} (hbuilds : ∀ b ∈ w.builds, b ∈ w'.builds)
    (h : BuildsAlone w') :
    BuildsAlone w :=
  fun b hb => h b (hbuilds b hb)

theorem Numbered.same_topology {w w' : World} (h : SameTopology w w') (hlt : w'.bumps < uint32Max)
    (hw : Numbered w) : Numbered w' := by
  have hnumber := h.generation hw.number hlt
  refine ⟨hnumber, fun s hs => ?_, fun s hs => ?_, fun s hs s' hs' => ?_⟩
  · have hle := hw.current s (h.snapshot ▸ hs)
    have hbumps := h.bumps
    rw [hw.number] at hle
    omega
  · rw [h.snapshot]
    exact hw.top s (h.published ▸ hs)
  · rw [h.published] at hs hs'
    exact hw.same s hs s' hs'

theorem SameTopology.names {w w' : World} (h : SameTopology w w') : Names w w' := by
  have hbuilds : ∀ b ∈ w.builds, b ∈ w'.builds := fun _ hb => h.builds ▸ hb
  refine ⟨⟨fun _ hs => h.published ▸ hs, hbuilds, h.bumps⟩, fun hw =>
    ⟨?_, ?_, fun halone hlt => ?_⟩⟩
  · rw [h.snapshot, h.published]
    exact hw.current
  · rw [h.used, h.published]
    exact hw.used
  · exact (hw.numbered (halone.mono hbuilds) (Nat.lt_of_le_of_lt h.bumps hlt)).same_topology h hlt

/-! ## Publishing -/

/-- What `publish` leaves. -/
def World.withSnapshot (w : World) (s : VideoPresentSnapshot) : World :=
  { w with snapshot := some s, published := s :: w.published }

theorem Numbered.publish {w : World} (hw : Numbered w) {s : VideoPresentSnapshot}
    (hgeneration : s.generation = w.generation)
    (hunused : ∀ s' ∈ w.published, s'.generation ≠ s.generation) :
    Numbered (w.withSnapshot s) := by
  refine ⟨hw.number, fun s' hs' => ?_, fun s' hs' => ⟨s, rfl, ?_⟩, fun s₁ h₁ s₂ h₂ heq => ?_⟩
  · cases hs'
    exact Nat.le_of_eq hgeneration
  · rcases List.mem_cons.mp hs' with rfl | hold
    · exact .refl
    · obtain ⟨cur, hcur, hle⟩ := hw.top s' hold
      exact hgeneration ▸ Nat.le_trans hle (hw.current cur hcur)
  · rcases List.mem_cons.mp h₁ with rfl | hold₁ <;> rcases List.mem_cons.mp h₂ with rfl | hold₂
    · rfl
    · exact absurd heq.symm (hunused s₂ hold₂)
    · exact absurd heq (hunused s₁ hold₁)
    · exact hw.same s₁ hold₁ s₂ hold₂ heq

/-- A generation that `g_snapshot` does not have is new. -/
theorem Numbered.unused {w : World} (hw : Numbered w)
    (halone : w.snapshot.map (·.generation) ≠ some w.generation) :
    ∀ s ∈ w.published, s.generation ≠ w.generation := by
  intro s hs heq
  obtain ⟨cur, hcur, hle⟩ := hw.top s hs
  have hcurrent := hw.current cur hcur
  apply halone
  rw [hcur, Option.map_some]
  exact congrArg some (by omega)

variable (o : Outside)

theorem Names.of_asks {α : Type} {x : GfxM α} (h : Does Asked x) : Does Names x :=
  h.weaken fun _ _ h => h.tokensOnly.sameTopology.names

theorem Names.of_tokens {α : Type} {x : GfxM α} (h : Does TokensOnly x) : Does Names x :=
  h.weaken fun _ _ h => h.sameTopology.names

theorem Names.of_screens {α : Type} {x : GfxM α} (h : Does ScreensOnly x) : Does Names x :=
  h.weaken fun _ _ h => h.topology.names

theorem names_build (w : World) {s : VideoPresentSnapshot}
    (hgeneration : s.generation = w.generation) :
    Names w (World.withSnapshot { w with
      builds := (w.snapshot.map (·.generation), w.generation) :: w.builds } s) := by
  have hbuilds : ∀ b ∈ w.builds, b ∈ (w.snapshot.map (·.generation), w.generation) :: w.builds :=
    fun _ => .tail _
  refine ⟨⟨fun _ => .tail _, hbuilds, .refl⟩, fun hw => ⟨fun s' hs' => ?_,
    fun s' hs' => .tail _ (hw.used s' hs'), fun halone hlt => ?_⟩⟩
  · exact Option.some.inj hs' ▸ .head _
  · have hnumbered := hw.numbered (BuildsAlone.mono hbuilds halone) hlt
    have hunused := hnumbered.unused (halone _ (.head _))
    have hpublish := hnumbered.publish hgeneration (hgeneration ▸ hunused)
    exact ⟨hpublish.number, hpublish.current, hpublish.top, hpublish.same⟩

/-- What is published goes into the history. -/
theorem publishSnapshot_names (s : VideoPresentSnapshot) (w : World) :
    Meets (Names w) (publishSnapshot o s) fun r v => Names w v ∧ ∀ s', r = .ok s' →
      Published s' v := by
  have herror : ∀ (P : World → Prop) error, (∀ v, P v → Names w v) →
      Meets P (pure (.error error) : GfxM (Except KernelError VideoPresentSnapshot))
        fun r v => Names w v ∧ ∀ s', r = .ok s' → Published s' v :=
    fun P _ hP => .pure fun v hv => ⟨hP v hv, nofun⟩
  have hasked : ∀ v v', Asked v v' → Names v v' := fun _ _ h => h.tokensOnly.sameTopology.names
  refine .bind ((Names.of_asks (Asks.snapshotMatches o s)).meets w) fun found => ?_
  refine .ite (fun _ => herror _ _ fun _ => id) fun _ => ?_
  refine .bind (R := fun v v' => v = v' ∧ Names w v') (.get fun v hv => ⟨rfl, hv⟩) fun v => ?_
  refine .ite (fun _ => herror _ _ fun _ hv => hv.2) fun hgeneration => ?_
  refine .bind (R := fun s' v' => Names w v' ∧ s'.generation = v'.generation) ?_ fun s' => ?_
  · rintro v' ⟨rfl, hv⟩
    have hcapture := Asks.capturePaths o s v
    have hsame : ((capturePaths o s).run v).2.generation = v.generation := by
      obtain ⟨newer, -, h⟩ := hcapture
      rw [h]
    rw [hsame, (capturePaths_records o s v).1]
    exact ⟨IsLater.trans _ _ _ hv (hasked _ _ hcapture), not_ne_iff.mp hgeneration⟩
  · refine .ite (fun _ => herror _ _ fun _ hv => hv.1) fun _ v hv => ⟨?_, fun s'' hs => ?_⟩
    · exact IsLater.trans _ _ _ hv.1 (names_build v hv.2)
    · exact Except.ok.inj hs ▸ .head _

theorem names_commit {w w' : World} (h : SameTopology w w') (hbumps : w.bumps < w'.bumps)
    {s : VideoPresentSnapshot} (hgeneration : s.generation = w'.generation) :
    Names w (w'.withSnapshot s) := by
  have hpublished : ∀ s' ∈ w.published, s' ∈ s :: w'.published :=
    fun s' hs' => .tail _ (h.published ▸ hs')
  have hbuilds : ∀ b ∈ w.builds, b ∈ w'.builds := fun b hb => h.builds ▸ hb
  refine ⟨⟨hpublished, hbuilds, h.bumps⟩, fun hw => ⟨fun s' hs' => ?_, fun s' hs' => ?_,
    fun halone hlt => ?_⟩⟩
  · exact Option.some.inj hs' ▸ .head _
  · exact hpublished s' (hw.used s' (h.used ▸ hs'))
  · have hlt' : w'.bumps < uint32Max := hlt
    have hbefore := hw.numbered (halone.mono hbuilds) (Nat.lt_trans hbumps hlt')
    have hafter := hbefore.same_topology h hlt'
    refine hafter.publish hgeneration fun s' hs' heq => ?_
    obtain ⟨cur, hcur, hle⟩ := hbefore.top s' (h.published ▸ hs')
    have hcurrent := hbefore.current cur hcur
    rw [hbefore.number] at hcurrent
    rw [hgeneration, hafter.number] at heq
    omega

theorem publishCommitted_names (replacement : VideoPresentSnapshot) :
    Does Names (publishCommitted o replacement) := by
  refine .bind (.of_asks (Asks.observeAll o _)) fun observations w => ?_
  let cloned := { replacement with observations := observations, generation := w.bump.generation }
  have hasked : Asked w.bump ((capturePaths o cloned).run w.bump).2 :=
    Asks.capturePaths o cloned w.bump
  have hsame : SameTopology w ((capturePaths o cloned).run w.bump).2 :=
    IsLater.trans _ _ _ (ScreensOnly.bump w).topology hasked.tokensOnly.sameTopology
  obtain ⟨newer, -, hstate⟩ := hasked
  apply names_commit hsame
  · rw [hstate]
    exact Nat.lt_succ_self _
  · rw [hstate]
    exact (capturePaths_records o cloned w.bump).1

/-! ## Sections -/

theorem Names.ask (request : Request) : Does Names (ask o request) :=
  .of_tokens (TokensOnly.ask o request)

theorem Names.setDisplay {t : Nat} {f : KDisplay → KDisplay} : Does Names (setDisplay t f) :=
  fun _ => SameTopology.names ⟨rfl, rfl, rfl, rfl, Nat.le_refl _, fun h _ => h⟩

theorem Names.finish (target : Option Nat) (token : Nat) (committed : Bool) :
    Does Names (finish target token committed) :=
  .of_tokens (TokensOnly.finish target token committed)

theorem rollBack_names (t token modeIndex outcome : Nat) (before : KDisplayActualState) :
    Does Names (rollBack o t token modeIndex outcome before) := by
  refine .bind (.of_tokens (TokensOnly.restorePrevious o _ _ _)) fun restored => ?_
  refine .bind (.finish _ _ _) fun _ => .bind (.of_asks (Asks.queryActualState o t))
    fun actual => ?_
  exact .bind .setDisplay fun _ => .ite (.bind .setDisplay fun _ => .pure _) (.pure _)

theorem completeMode_names (t token surface : Nat) : Does Names (completeMode t token surface) := by
  refine .bind .get fun w => .bind (.modify fun _ => SameTopology.names ?_) fun _ => ?_
  · exact ⟨rfl, rfl, rfl, rfl, .refl, fun h _ => h⟩
  · exact .bind .setDisplay fun _ => .bind (.finish _ _ _) fun _ => .pure _

theorem programDisplayMode_names (t token modeIndex : Nat) :
    Does Names (programDisplayMode o t token modeIndex) := by
  refine .bind .get fun w => .ite (.pure _) (.ite (.pure _) ?_)
  refine .bind (.of_tokens (TokensOnly.setToken _ _)) fun _ => ?_
  refine .bind (.of_asks (Asks.queryActualState o t)) fun before => ?_
  rcases before with error | before
  · exact .pure _
  refine .bind (.of_asks (Asks.targetSurface o t)) fun surface => ?_
  rcases surface with error | surface
  · exact .pure _
  refine .bind (.ask o _) fun disabled => ?_
  cases disabled with
  | some _ =>
    exact .bind (.finish _ _ _) fun _ => .bind (.of_asks (Asks.queryActualState o t)) fun _ =>
      .bind .setDisplay fun _ => .pure _
  | none =>
    refine .bind (.ask o _) fun programmed => ?_
    cases programmed with
    | some _ => exact rollBack_names o _ _ _ _ _
    | none =>
      refine .bind (.ite (.ask o _) (.pure _)) fun enabled => ?_
      cases enabled with
      | some _ => exact rollBack_names o _ _ _ _ _
      | none => exact completeMode_names _ _ _

theorem moveDesktop_names (t surface : Nat) (mode : KDisplayModeInfo) (path : VideoPresentPathInfo)
    (replacement : VideoPresentSnapshot) :
      Does Names (moveDesktop o t surface mode path replacement) := by
  refine .bind (.of_screens (ScreensOnly.stuckPrevious o t)) fun stuck => ?_
  cases stuck with
  | some previous =>
    exact .bind (.of_screens (ScreensOnly.splitDesktop o _ _ _)) fun _ =>
      .bind (publishCommitted_names o _) fun _ => .bind .get fun _ => .pure _
  | none =>
    exact .bind (.of_screens fun w => ScreensOnly.apart w) fun _ =>
      .bind (publishCommitted_names o _) fun _ => .bind .get fun _ =>
      .bind (.of_asks (Asks.queryIf o _ _ _)) fun _ => .pure _

theorem keepDesktop_names (t outcome : Nat) (path : VideoPresentPathInfo)
    (replacement : VideoPresentSnapshot) :
      Does Names (keepDesktop o t outcome path replacement) := by
  refine .bind (.modify fun w => ?_) fun _ => .bind (publishCommitted_names o _) fun _ =>
    .bind .get fun _ => .bind (.of_asks (Asks.queryIf o _ _ _)) fun _ => .pure _
  split
  · exact (ScreensOnly.apart w).topology.names
  · exact IsLater.refl w

theorem useSnapshot_names {s : VideoPresentSnapshot} {w : World} (h : Published s w) :
    Names w ((useSnapshot s).run w).2 := by
  refine ⟨⟨fun _ => id, fun _ => id, .refl⟩, fun hw => ⟨hw.current, fun s' hs' => ?_,
    fun halone hlt => ?_⟩⟩
  · rcases List.mem_cons.mp hs' with rfl | hold
    · exact h
    · exact hw.used s' hold
  · have hnumbered := hw.numbered halone hlt
    exact ⟨hnumbered.number, hnumbered.current, hnumbered.top, hnumbered.same⟩

theorem commitSection_names {s : VideoPresentSnapshot} {w : World} (h : Published s w)
    (generation : Nat) (path : VideoPresentPathInfo) (expected : Option Nat) (token : Nat) :
    Names w ((commitSection o s s.cloned generation path expected token).run w).2 := by
  have hmeets : ∀ {α : Type} {x : GfxM α}, Does Names x → Meets (Names w) x fun _ => Names w :=
    fun hx => hx.meets w
  have hfinish : Does Names (finish expected token false) := .finish _ _ _
  have huse : Meets (Names w) (useSnapshot s) fun _ => Names w :=
    fun v hv => IsLater.trans _ _ _ hv (useSnapshot_names (hv.1.published s h))
  have hsection : Meets (Names w) (commitSection o s s.cloned generation path expected token)
      fun _ => Names w := by
    refine .bind (hmeets (.of_tokens (TokensOnly.guardReservation _))) fun _ => .bind (hmeets .get)
      fun v => ?_
    refine .ite (fun _ => hmeets (.bind hfinish fun _ => .pure _)) fun _ => .bind huse
      fun _ => hmeets ?_
    refine .bind (.of_asks (Asks.activeTargetUnderGate o)) fun active => ?_
    refine .bind (.of_asks (Asks.checkCommit o _ _ _ _)) fun checked => ?_
    rcases checked with error | ⟨t, selected⟩
    · exact .bind hfinish fun _ => .pure _
    refine .bind .get fun v => .ite (.bind hfinish fun _ => .pure _) ?_
    refine .bind (programDisplayMode_names o _ _ _) fun programmed => ?_
    cases programmed with
    | notAttempted error => exact .ite (.bind hfinish fun _ => .pure _) (.pure _)
    | failed outcome => exact .bind (keepDesktop_names o _ _ _ _) fun _ => .pure _
    | done mode surface => exact .bind (moveDesktop_names o _ _ _ _ _) fun _ => .pure _
  exact hsection w (IsLater.refl w)

theorem naming {α : Type} {x : GfxM α} {P : World → Prop} (h : ∀ w, P w → Names w (x.run w).2) :
    Advances NamingOk Names P x fun _ _ => True :=
  fun w hw hp => ⟨(h w hp).2 hw, h w hp, trivial⟩

/-- No section gives the generation of a published snapshot to another one. -/
theorem naming_duties : Duties o NamingOk Names Published (fun _ _ _ => True) where
  snapStays s w w' hs hle := hle.1.published s hs
  tokStays _ _ _ _ _ _ := trivial
  asks h := naming fun w _ => Names.of_asks h w
  ask _ _ := naming fun w _ => Names.ask o _ w
  acquire generation w hw _ := by
    have hasks := Names.of_asks (Asks.acquirePublishedSnapshot generation) w
    exact ⟨hasks.2 hw, hasks, fun s hs =>
      hasks.1.published s (hw.current s (acquirePublishedSnapshot_current hs))⟩
  lookup generation w hw _ := by
    have hasks := Names.of_asks (Asks.lookupSnapshot generation) w
    exact ⟨hasks.2 hw, hasks,
      fun s hs => hasks.1.published s (hw.current s (lookupSnapshot_current hs))⟩
  verify generation current := naming fun w _ => does_verifySnapshot o
    (fun _ _ h => h.tokensOnly.sameTopology.names) (.of_screens ScreensOnly.refresh)
      generation current w
  publish s _ w hw _ := by
    obtain ⟨hnames, hpublished⟩ := publishSnapshot_names o s w w (IsLater.refl w)
    exact ⟨hnames.2 hw, hnames, hpublished⟩
  prepare s generation path w hw hs := by
    have hnames : Names w ((prepareSection o s generation path).run w).2 :=
      IsLater.trans _ _ _ (useSnapshot_names hs)
        (Names.of_tokens (TokensOnly.prepareToken o s generation path) _)
    exact ⟨hnames.2 hw, hnames, fun _ _ => ⟨none, trivial⟩⟩
  allocateHandle process token :=
    naming fun w _ => Names.of_tokens (TokensOnly.allocateHandle process token) w
  drop token := naming fun w _ => Names.of_tokens (TokensOnly.dropReference token) w
  close process handle := naming
    fun w _ => Names.of_tokens (TokensOnly.closeSection process handle) w
  exit process := naming fun w _ => Names.of_tokens (TokensOnly.exitSection process) w
  lookupToken process handle w hw _ := by
    have htokens := Names.of_tokens (TokensOnly.lookupToken process handle) w
    exact ⟨htokens.2 hw, htokens, fun _ _ _ => trivial⟩
  release token t := naming fun w _ => Names.of_tokens (TokensOnly.releaseSection t token) w
  capacity generation token t :=
    naming fun w _ => Names.of_tokens (TokensOnly.capacitySection generation t token) w
  commit s generation path token t :=
    naming fun w hs => commitSection_names o hs.1 generation path t token
  register adapter := naming fun w _ => Names.of_screens (ScreensOnly.registerSection adapter) w
  start adapter discoverOnly :=
    naming fun w _ => Names.of_screens (ScreensOnly.startSection o adapter discoverOnly) w
  apply adapter generation records :=
    naming fun w _ => Names.of_screens (ScreensOnly.applySection o adapter generation records) w
  retire adapter := naming fun w _ => Names.of_screens (ScreensOnly.retireSection adapter) w
  remove devices := naming fun w _ => Names.of_screens (ScreensOnly.removeSection devices) w

/-! ## Every run -/

/-- A snapshot that a call returned, or that a path was resolved against. -/
def InUse (system : System World Answer) (s : VideoPresentSnapshot) : Prop :=
  Thread.ret (.snapshot s) ∈ system.threads ∨ s ∈ system.state.used

theorem namingOk_start : NamingOk {} :=
  ⟨fun _ h => (nomatch h), fun _ h => (List.not_mem_nil h).elim, fun _ _ =>
    ⟨rfl, fun _ h => (nomatch h), fun _ h => (List.not_mem_nil h).elim,
      fun _ h => (List.not_mem_nil h).elim⟩⟩

/-- Whatever the drivers answer, and in whatever order the sections of the calls run: while no
    build has put a snapshot over one of its generation, and the generation has not gone round,
    snapshots of one generation have the same records. -/
theorem generation_names_one_topology (turns : List (Turn Call))
    (halone : BuildsAlone (systemAfter o turns).state)
    (hbumps : (systemAfter o turns).state.bumps < 2 ^ 32 - 1) (s s' : VideoPresentSnapshot)
    (hs : InUse (systemAfter o turns) s) (hs' : InUse (systemAfter o turns) s')
    (hgeneration : s.generation = s'.generation) : s.records = s'.records := by
  obtain ⟨hok, hreturned⟩ := (naming_duties o).system namingOk_start turns
  have hpublished : ∀ s, InUse (systemAfter o turns) s → s ∈
    (systemAfter o turns).state.published :=
    fun s h => h.elim (hreturned s) (hok.used s)
  exact (hok.numbered halone hbumps).same s (hpublished s hs) s' (hpublished s' hs') hgeneration

/-! ## Two builds at once -/

instance (w : World) : Decidable (BuildsAlone w) :=
  inferInstanceAs (Decidable (∀ b ∈ w.builds, _))

/-- A display with every callback. -/
def allHooks : Hooks := ⟨true, true, true, true, true, true, true, true, true⟩

/-- A mode of a driver, of some height. -/
def someMode (height : Nat) : KDisplayModeInfo :=
  { width := 640, height := height, pitch := 2560, bpp := 32, pixelFormat := .argb32 }

/-- A driver with one head and one mode, whose height is another after `n` events. -/
def changingDriver (n : Nat) : Outside where
  status request _ :=
    match request with
    | .probeDisplay _ head => if head = 0 then none else some .outOfRange
    | .getModeInfo _ index => if index = 0 then none else some .outOfRange
    | _ => none
  head _ _ _ := { isPresent := true, isMonitor := true }
  hooks _ _ _ := allHooks
  modeInfo _ _ trace := someMode (if trace.length < n then 480 else 400)
  prepared _ _ _ := { mode := someMode 480, backing := some 1228800 }
  actual _ _ := { known := true }

/-- An adapter whose driver configures its displays. -/
def someAdapter : KGraphicsAdapter where
  device := none
  probe := false
  probeDisplay := true
  configureDisplay := true

/-- Two requests for a snapshot: both find none, and one is built after the other. -/
def racingBuilds : List (Turn Call) :=
  [.call (.registerAdapter someAdapter), .run 0, .call (.startAdapter 0), .run 1,
    .call (.acquireSnapshot 0), .call (.acquireSnapshot 0), .run 2, .run 3] ++
    List.replicate 13 (.run 2) ++ List.replicate 13 (.run 3)

/-- The snapshots that calls returned. -/
def returned (system : System World Answer) : List VideoPresentSnapshot :=
  system.threads.filterMap fun x =>
    match x with
    | .ret (.snapshot s) => some s
    | _ => none

theorem inUse_of_returned {system : System World Answer} {s : VideoPresentSnapshot}
    (h : s ∈ returned system) : InUse system s := by
  obtain ⟨x, hx, hs⟩ := List.mem_filterMap.mp h
  rcases x with (_ | _) | _
  · cases hs
    exact .inl hx
  · exact nomatch hs
  · exact nomatch hs

/-- Three requests, one after the other. -/
def threeRequests : List (Turn Call) :=
  [.call (.registerAdapter someAdapter), .run 0, .call (.startAdapter 0), .run 1,
    .call (.acquireSnapshot 0)] ++ List.replicate 14 (.run 2) ++
    [.call (.acquireSnapshot 0), .run 3, .run 3, .call (.acquireSnapshot 0)] ++
    List.replicate 22 (.run 4)

/-- The first two requests return the same records; then the driver changes its mode, and the
    third gets a generation of its own. -/
theorem generation_names_one_topology_changing :
    (returned (systemAfter (changingDriver 30) threeRequests)).map (·.generation) = [3, 3, 4] ∧
      ∀ s ∈ returned (systemAfter (changingDriver 30) threeRequests),
        ∀ s' ∈ returned (systemAfter (changingDriver 30) threeRequests),
          s.generation = s'.generation → s.records = s'.records := by
  refine ⟨by decide +kernel, fun s hs s' hs' hgeneration => ?_⟩
  exact generation_names_one_topology (changingDriver 30) threeRequests (by decide +kernel)
    (by decide +kernel) s s' (inUse_of_returned hs) (inUse_of_returned hs') hgeneration

/-- The driver changes its mode after the first snapshot is built, and the second is of the same
    generation. -/
theorem racingBuilds_differ :
    (systemAfter (changingDriver 27) racingBuilds).state.bumps < 2 ^ 32 - 1 ∧
      ∃ s s', InUse (systemAfter (changingDriver 27) racingBuilds) s ∧
        InUse (systemAfter (changingDriver 27) racingBuilds) s' ∧
        s.generation = s'.generation ∧ s.records ≠ s'.records := by
  have hdiffer : ∃ s ∈ returned (systemAfter (changingDriver 27) racingBuilds),
      ∃ s' ∈ returned (systemAfter (changingDriver 27) racingBuilds),
        s.generation = s'.generation ∧ s.records ≠ s'.records := by
    decide +kernel
  obtain ⟨s, hs, s', hs', hgeneration, hrecords⟩ := hdiffer
  exact ⟨by decide +kernel, s, s', inUse_of_returned hs, inUse_of_returned hs',
    hgeneration, hrecords⟩

end UnDOS.Gfx
