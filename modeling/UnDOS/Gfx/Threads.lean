import UnDOS.Gfx.Records

/-!
# From the Sections to the Calls

A call is a thread of sections, and what follows is about no invariant in particular.  `Duties`
says what each section has to do for an invariant `I` and a preorder `le`: `Snap` is what is known
of a snapshot that was acquired, and `Tok` what is known of a token and of the target it is for.
Then every call is sound, and so is the system.
-/

namespace UnDOS.Gfx

open UnDOS.Kernel (KernelError)
open UnDOS.Lib
open UnDOS.Lib.Thread (atomic Advances Sound)

/-- What the sections have to do. -/
structure Duties (o : Outside) (I : World → Prop) (le : World → World → Prop)
    (Snap : VideoPresentSnapshot → World → Prop) (Tok : Nat → Option Nat → World → Prop) :
      Prop where
  snapStays : ∀ s w w', Snap s w → le w w' → Snap s w'
  tokStays : ∀ token t w w', Tok token t w → le w w' → Tok token t w'
  /-- A section that only asks. -/
  asks : ∀ {α : Type} {x : GfxM α}, Does Asked x → Advances I le (fun _ => True) x fun _ _ => True
  /-- An allocation, or another question. -/
  ask : ∀ request, request.changesMode = false →
    Advances I le (fun _ => True) (ask o request) fun _ _ => True
  acquire : ∀ generation, Advances I le (fun _ => True) (acquirePublishedSnapshot generation)
    fun r w => ∀ s, r = .ok s → Snap s w
  lookup : ∀ generation, Advances I le (fun _ => True) (lookupSnapshot generation)
    fun r w => ∀ s, r = .ok (some s) → Snap s w
  verify : ∀ generation current, Advances I le (fun _ => True) (verifySnapshot o generation current)
    fun _ _ => True
  publish : ∀ s, ModesNamed s.targetModes → Advances I le (fun _ => True) (publishSnapshot o s)
    fun r w => ∀ s', r = .ok s' → Snap s' w
  prepare : ∀ s generation path, Advances I le (Snap s) (prepareSection o s generation path)
    fun r w => ∀ token, r = .ok token → ∃ t, Tok token t w
  allocateHandle : ∀ process token, Advances I le (fun w => ∃ t, Tok token t w)
    (allocateHandle process token) fun _ _ => True
  drop : ∀ token, Advances I le (fun _ => True) (dropReference token) fun _ _ => True
  close : ∀ process handle, Advances I le (fun _ => True) (closeSection process handle)
    fun _ _ => True
  exit : ∀ process, Advances I le (fun _ => True) (exitSection process) fun _ _ => True
  lookupToken : ∀ process handle, Advances I le (fun _ => True) (lookupToken process handle)
    fun r w => ∀ token t, r = .ok (token, t) → Tok token t.target w
  release : ∀ token t, Advances I le (Tok token t) (releaseSection t token) fun _ _ => True
  capacity : ∀ generation token t, Advances I le (Tok token t) (capacitySection generation t token)
    fun _ _ => True
  commit : ∀ s generation path token t, Advances I le (fun w => Snap s w ∧ Tok token t w)
    (commitSection o s s.cloned generation path t token) fun _ _ => True
  register : ∀ adapter, Advances I le (fun _ => True) (registerSection adapter) fun _ _ => True
  start : ∀ adapter discoverOnly,
    Advances I le (fun _ => True) (startSection o adapter discoverOnly)
    fun _ _ => True
  apply : ∀ adapter generation records, Advances I le (fun _ => True)
    (applySection o adapter generation records) fun _ _ => True
  retire : ∀ adapter, Advances I le (fun _ => True) (retireSection adapter) fun _ _ => True
  remove : ∀ devices, Advances I le (fun _ => True) (removeSection devices) fun _ _ => True

namespace Duties

variable {o : Outside} {I : World → Prop} {le : World → World → Prop}
  {Snap : VideoPresentSnapshot → World → Prop} {Tok : Nat → Option Nat → World → Prop}
  (h : Duties o I le Snap Tok)

/-- Nothing is known of the value. -/
abbrev Any {α : Type} : α → World → Prop := fun _ _ => True

theorem free {α : Type} {x : GfxM α} {Q : α → World → Prop}
    (hx : Advances I le (fun _ => True) x Q) (w : World) : (atomic x).Sound I le Q w :=
  hx.sound (fun _ _ _ _ => trivial) trivial

include h

theorem asking {α : Type} {x : GfxM α} (hx : Does Asked x) (w : World) :
    (atomic x).Sound I le Any w :=
  free (h.asks hx) w

/-! ## Snapshots -/

/-- What is known of the answer to a request for a snapshot. -/
abbrev Acquired (Snap : VideoPresentSnapshot → World → Prop)
    (r : Except KernelError VideoPresentSnapshot) (w : World) : Prop := ∀ s, r = .ok s → Snap s w

omit h in
theorem failed (error : KernelError) (w : World) :
    (pure (.error error) : Thread World (Except KernelError VideoPresentSnapshot)).Sound I le
      (Acquired Snap) w :=
  .pure nofun

theorem allocateAll (counts : List Nat) (w : World) :
    (Gfx.allocateAll o counts).Sound I le Any w := by
  induction counts generalizing w with
  | nil => exact .pure trivial
  | cons count counts ih =>
    refine .bind (h.asking (Asks.allocateRecords o count) w) fun error w _ => ?_
    cases error with
    | some _ => exact .pure trivial
    | none => exact ih w

/-- Other threads run between its sections: what one has found, `le` has to keep for the next. -/
theorem buildSnapshot (w : World) : (Gfx.buildSnapshot o).Sound I le (Acquired Snap) w := by
  refine .bind (h.asking (Asks.newSnapshot o) w) fun error w _ => ?_
  cases error with
  | some _ => exact failed _ w
  | none =>
    refine .bind (h.asking Asks.beginSnapshot w) fun begun w _ => .ite (fun _ => failed _ w)
      fun _ => ?_
    -- An allocation may fail; nothing is published then.
    refine .bind (h.allocateAll _ w) fun error w _ => ?_
    cases error with
    | some _ => exact failed _ w
    | none =>
      refine .bind (h.asking (Asks.observeTargets o _ _) w) fun observed w _ => ?_
      rcases observed with error | s
      · exact failed _ w
      refine .bind (h.asking (Asks.countModes o _ _) w) fun counted w _ => ?_
      rcases counted with error | targets
      · exact failed _ w
      refine .bind (h.asking (Asks.allocateRecords o _) w) fun error w _ => ?_
      cases error with
      | some _ => exact failed _ w
      | none =>
        refine .bind
          (free ((h.asks (Asks.collectModes o _ _)).returning (collectModes_named o _ _)) w)
          fun collected w hcollected => ?_
        rcases collected with error | targetModes
        · exact failed _ w
        refine .ite (fun _ => failed _ w) fun _ =>
          .bind (h.asking (Asks.allocateRecords o _) w) fun error w _ => ?_
        cases error with
        | some _ => exact failed _ w
        | none => exact free (h.publish _ (hcollected.2 _ rfl)) w

theorem acquireBuilt (generation : Nat) (w : World) :
    (Gfx.acquireBuilt o generation).Sound I le (Acquired Snap) w := by
  refine .bind (h.buildSnapshot w) fun built w hbuilt => ?_
  rcases built with error | s
  · exact failed _ w
  · exact .ite (fun _ => failed _ w) fun _ => .pure hbuilt

/-- The published snapshot, verified, or a new one: known to be acquired in both cases. -/
theorem acquireSnapshot (generation : Nat) (w : World) :
    (Gfx.acquireSnapshot o generation).Sound I le (Acquired Snap) w := by
  refine .bind (free (h.lookup generation) w) fun found w hfound => ?_
  rcases found with error | _ | current
  · exact failed _ w
  · exact h.acquireBuilt generation w
  -- what comes back is the snapshot that was looked up
  have hverify := (h.verify generation current).returning (verifySnapshot_current o
    generation current)
  refine .bind (.frame (h.snapStays current) (free hverify w) (hfound current rfl))
    fun verified w hverified => ?_
  rcases verified with error | _ | s
  · exact failed _ w
  · exact h.acquireBuilt generation w
  · obtain ⟨⟨-, hcurrent⟩, hsnap⟩ := hverified
    exact .pure fun s' hs => Except.ok.inj hs ▸ hcurrent s rfl ▸ hsnap

/-! ## Tokens -/

theorem closeHandle (process handle : Nat) (w : World) :
    (Gfx.closeHandle process handle).Sound I le Any w := by
  refine .bind (free (h.close process handle) w) fun token w _ => ?_
  cases token with
  | some token => exact free (h.drop token) w
  | none => exact .pure trivial

theorem exitProcess (process : Nat) (w : World) : (Gfx.exitProcess process).Sound I le Any w := by
  have hdrop : ∀ (tokens : List Nat) (w : World), (dropAll tokens).Sound I le Any w := by
    intro tokens
    induction tokens with
    | nil => exact fun _ => .pure trivial
    | cons token tokens ih => exact fun w => .bind (free (h.drop token) w) fun _ w _ => ih w
  exact .bind (free (h.exit process) w) fun tokens w _ => hdrop tokens w

theorem validateTopology (process generation : Nat) (path : VideoPresentPathInfo) (w : World) :
    (Gfx.validateTopology o process generation path).Sound I le Any w := by
  refine .bind (free (h.ask .create rfl) w) fun created w _ => ?_
  cases created with
  | some _ => exact .pure trivial
  | none =>
    have hprepare : (preparePath o generation path).Sound I le
        (fun r w => ∀ token, r = .ok token → ∃ t, Tok token t w) w := by
      refine .bind (h.acquireSnapshot generation w) fun acquired w hs => ?_
      rcases acquired with error | s
      · exact .pure nofun
      · exact (h.prepare s generation path).sound (h.snapStays s) (hs s rfl)
    refine .bind hprepare fun prepared w htoken => ?_
    rcases prepared with error | token
    · exact .pure trivial
    have hstays : ∀ w w', (∃ t, Tok token t w) → le w w' → ∃ t, Tok token t w' := by
      rintro w w' ⟨t, ht⟩ hle
      exact ⟨t, h.tokStays token t w w' ht hle⟩
    exact .bind ((h.allocateHandle process token).sound hstays (htoken token rfl)) fun _ w _ =>
      .bind (free (h.drop token) w) fun _ w _ => .pure trivial

theorem allocateCommit (s : VideoPresentSnapshot) (w : World) :
    (Gfx.allocateCommit o s).Sound I le Any w := by
  refine .bind (h.asking (Asks.newSnapshot o) w) fun error w _ => ?_
  cases error with
  | some _ => exact .pure trivial
  | none =>
    refine .bind (h.allocateAll _ w) fun error w _ => ?_
    cases error with
    | some _ => exact .pure trivial
    | none =>
      refine .bind (free (h.ask .name rfl) w) fun error w _ => ?_
      cases error with
      | some _ => exact .pure trivial
      | none => exact free (h.ask .create rfl) w

theorem commitPath (generation : Nat) (path : VideoPresentPathInfo) {token : Nat} {t : Option Nat}
    (resultCapacity : Nat) {w : World} (ht : Tok token t w) :
    (Gfx.commitPath o generation path t token resultCapacity).Sound I le Any w := by
  have hstays : ∀ w w', Tok token t w → le w w' → Tok token t w' := h.tokStays token t
  refine .bind (.frame hstays (h.acquireSnapshot generation w) ht) fun acquired w hacquired => ?_
  obtain ⟨hs, ht⟩ := hacquired
  rcases acquired with error | s
  · exact .ite (fun _ => .bind ((h.release token t).sound hstays ht) fun _ _ _ => .pure trivial)
      fun _ => .pure trivial
  refine .ite (fun _ => .bind ((h.capacity generation token t).sound hstays ht)
    fun _ _ _ => .pure trivial)
    fun _ => ?_
  have hboth : ∀ w w', Snap s w ∧ Tok token t w → le w w' → Snap s w' ∧ Tok token t w' :=
    fun w w' hw hle => ⟨h.snapStays s w w' hw.1 hle, hstays w w' hw.2 hle⟩
  refine .bind (.frame hboth (h.allocateCommit s w) ⟨hs s rfl, ht⟩) fun error w hw => ?_
  cases error with
  | some _ => exact .pure trivial
  | none => exact (h.commit s generation path token t).sound hboth hw.2

/-- The token keeps its target while other threads run (`tokStays`). -/
theorem commitTopology (process handle resultCapacity : Nat) (w : World) :
    (Gfx.commitTopology o process handle resultCapacity).Sound I le Any w := by
  refine .bind (free (h.lookupToken process handle) w) fun found w hfound => ?_
  rcases found with error | ⟨token, t⟩
  · exact .pure trivial
  have hdrop : ∀ (r : Except KernelError VideoPresentTargetResult) (w : World), (do
      atomic (dropReference token)
      return r : Thread World (Except KernelError VideoPresentTargetResult)).Sound I le Any w :=
    fun _ w => .bind (free (h.drop token) w) fun _ _ _ => .pure trivial
  refine .bind (h.commitPath t.generation t.path resultCapacity (hfound token t rfl))
    fun committed w _ => ?_
  obtain ⟨error | result, _⟩ := committed
  · exact .ite (fun _ => .bind (h.closeHandle process handle w) fun _ w _ => hdrop _ w)
      fun _ => hdrop _ w
  · exact .bind (h.closeHandle process handle w) fun _ w _ =>
      .bind (h.asking (Asks.activeTargetUnderGate o) w) fun _ w _ => hdrop _ w

/-! ## Adapters -/

theorem refreshAdapter (adapter : Nat) (w : World) :
    (Gfx.refreshAdapter o adapter).Sound I le Any w := by
  refine .bind (h.asking .get w) fun w₀ w _ => .ite (fun _ => .pure trivial) fun _ =>
    .ite (fun _ => .pure trivial) fun _ => .bind (free (h.ask .create rfl) w) fun error w _ => ?_
  cases error with
  | some _ => exact .pure trivial
  | none =>
    refine .bind (h.asking (.bind .get fun _ => .pure _) w) fun counted w _ =>
      .ite (fun _ => .pure trivial) fun _ => ?_
    refine .bind (h.asking (.ite (.pure _) (Asks.ask o rfl)) w) fun error w _ => ?_
    cases error with
    | some _ => exact .pure trivial
    | none =>
      refine .bind (h.asking (Asks.probeSection o _ _ _) w) fun probed w _ => ?_
      rcases probed with error | ⟨records, result⟩
      · exact .pure trivial
      refine .bind (free (h.apply adapter _ records) w) fun error w _ => ?_
      cases error with
      | some _ => exact .pure trivial
      | none =>
        exact .bind (h.asking (Asks.activeTargetUnderGate o) w) fun _ w _ =>
          .bind (free (h.start adapter true) w) fun _ w _ => .pure trivial

theorem lookingUp {x : GfxM Unit} (hx : Advances I le (fun _ => True) x Any) (w : World) : (do
      atomic x let _ ← activeVideoPresentTarget o return () : Thread World Unit).Sound I le Any w :=
  .bind (free hx w) fun _ w _ => .bind (h.asking (Asks.activeTargetUnderGate o) w)
    fun _ _ _ => .pure trivial

/-! ## The system -/

/-- What is known of what a call returned. -/
def Answered (Snap : VideoPresentSnapshot → World → Prop) (a : Answer) (w : World) : Prop :=
  ∀ s, a = .snapshot s → Snap s w

omit h in
theorem other {α : Type} {x : Thread World α} {Q : α → World → Prop} {w : World}
    (hx : x.Sound I le Q w) :
    (x >>= fun _ => pure Answer.other).Sound I le (Answered Snap) w :=
  .bind hx fun _ _ _ => .pure nofun

omit h in
theorem answered {r : Except KernelError VideoPresentSnapshot} {w : World}
    (hr : Acquired Snap r w) :
    Answered Snap (snapshotAnswer r) w := by
  intro s hs
  cases r with
  | error error => exact nomatch hs
  | ok s' => exact Answer.snapshot.inj hs ▸ hr s' rfl

theorem perform (k : Call) (w : World) : (Gfx.perform o k).Sound I le (Answered Snap) w := by
  cases k with
  | registerAdapter adapter => exact other (free (h.register adapter) w)
  | startAdapter adapter => exact other (free (h.start adapter false) w)
  | refreshAdapter adapter => exact other (h.refreshAdapter adapter w)
  | removeAdapter adapter => exact other (h.lookingUp (h.retire adapter) w)
  | removeDevice devices => exact other (h.lookingUp (h.remove devices) w)
  | acquireSnapshot generation =>
    exact .bind (h.acquireSnapshot generation w) fun r w hr => .pure (answered hr)
  | acquirePublishedSnapshot generation =>
    exact .bind (free (h.acquire generation) w) fun r w hr => .pure (answered hr)
  | validateTopology process generation path =>
      exact other (h.validateTopology process generation path w)
  | commitTopology process handle resultCapacity =>
    exact other (h.commitTopology process handle resultCapacity w)
  | closeHandle process handle => exact other (h.closeHandle process handle w)
  | exitProcess process => exact other (h.exitProcess process w)

theorem system [IsLater le] (hstart : I {}) (turns : List (Turn Call)) :
    I (systemAfter o turns).state ∧ ∀ s, Thread.ret (.snapshot s) ∈ (systemAfter o turns).threads →
      Snap s (systemAfter o turns).state := by
  have hstays : Stays le (Answered Snap) := fun _ w w' ha hle s hs =>
    h.snapStays s w w' (ha s hs) hle
  obtain ⟨hgood, -⟩ := System.run_sound hstays h.perform
    (s := { state := {} }) ⟨hstart, fun _ hx => (List.not_mem_nil hx).elim⟩ turns
  exact ⟨hgood.holds, fun s hs => hgood.returned hs s rfl⟩

end Duties

end UnDOS.Gfx
