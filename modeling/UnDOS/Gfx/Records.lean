import UnDOS.Gfx.Effects

/-!
# What a Snapshot Records

The records of a snapshot are its targets, target modes and source modes.  The paths are captured
without touching them, and every mode is named after its index.
-/

namespace UnDOS.Gfx

open UnDOS.Lib

/-- The targets, the target modes and the source modes. -/
def VideoPresentSnapshot.records (s : VideoPresentSnapshot) :
    List VideoPresentTargetInfo × List VideoPresentTargetModeInfo × List
      VideoPresentSourceModeInfo :=
  (s.targets, s.targetModes, s.sourceModes)

/-- Every mode has the identifier that its index gives it. -/
def ModesNamed (modes : List VideoPresentTargetModeInfo) : Prop :=
  ∀ m ∈ modes, m.modeId = modeIdFromIndex m.mode.modeIndex

theorem ModesNamed.nil : ModesNamed [] := fun _ hm => (List.not_mem_nil hm).elim

theorem ModesNamed.append {modes more : List VideoPresentTargetModeInfo} (h : ModesNamed modes)
    (h' : ModesNamed more) : ModesNamed (modes ++ more) :=
  fun m hm => (List.mem_append.mp hm).elim (h m) (h' m)

variable (o : Outside)

theorem capturePaths_records (s : VideoPresentSnapshot) :
    Returns (fun s' => s'.generation = s.generation ∧ s'.records = s.records)
      (capturePaths o s) := by
  refine .after fun w => ?_
  cases w.desktopSource with
  | none => exact .pure ⟨rfl, rfl⟩
  | some source =>
    refine .ite (.pure ⟨rfl, rfl⟩) ?_
    split
    · exact .pure ⟨rfl, rfl⟩
    · exact .after fun _ => .ite (.pure ⟨rfl, rfl⟩) (.pure ⟨rfl, rfl⟩)

/-- The modes that come with success are named. -/
def ModesReturned (r : Except Kernel.KernelError (List VideoPresentTargetModeInfo)) : Prop :=
  ∀ modes, r = .ok modes → ModesNamed modes

theorem ModesReturned.ok {modes : List VideoPresentTargetModeInfo} (h : ModesNamed modes) :
    ModesReturned (.ok modes) :=
  fun _ hmodes => Except.ok.inj hmodes ▸ h

theorem ModesReturned.error (error : Kernel.KernelError) : ModesReturned (.error error) :=
  nofun

/-- The modes of a target are numbered by their indices. -/
theorem collectTargetModes_named (t : Nat) (capacity : Option Nat) :
    Returns ModesReturned (collectTargetModes o t capacity) := by
  have hloop : ∀ remaining modes, ModesNamed modes →
      Returns ModesReturned (collectModesFrom o t capacity remaining modes) := by
    intro remaining
    induction remaining with
    | zero => exact fun _ _ => .pure (.error _)
    | succ remaining ih =>
      refine fun modes hmodes => .after fun mode => ?_
      rcases mode with error | mode
      · refine .pure ?_
        split
        · exact .ok hmodes
        · exact .error _
      · refine .ite (.pure (.error _)) (.ite (.pure (.error _)) (.ite (.pure (.error _))
          (.after fun w => ih _ (hmodes.append fun m hm => ?_))))
        rw [List.mem_singleton.mp hm]
  exact .after fun w => .ite (.pure (.ok .nil)) (hloop _ _ .nil)

theorem collectModes_named (hasRecords : Bool)
    (targets : List (Nat × Observation × VideoPresentTargetInfo)) :
    Returns ModesReturned (collectModes o hasRecords targets) := by
  induction targets with
  | nil => exact .pure (.ok .nil)
  | cons target targets ih =>
    refine .after fun w => .ite (.pure (.error _))
      (.bind (collectTargetModes_named o target.1 _) fun modes hmodes => ?_)
    rcases modes with error | modes
    · exact .pure (.error _)
    · refine .ite (.pure (.error _)) (.bind ih fun rest hrest => ?_)
      rcases rest with error | rest
      · exact .pure (.error _)
      · exact .pure (.ok ((hmodes _ rfl).append (hrest _ rfl)))

theorem acquirePublishedSnapshot_current {generation : Nat} {w : World} {s : VideoPresentSnapshot}
    (h : ((acquirePublishedSnapshot generation).run w).1 = .ok s) : w.snapshot = some s := by
  revert h
  refine Returns.of_get
    (Q := fun w (r : Except Kernel.KernelError VideoPresentSnapshot) => r = .ok s →
      w.snapshot = some s)
    (fun w => ?_) w
  cases w.snapshot with
  | none => exact .pure nofun
  | some current => exact .ite (.pure nofun) (.pure fun h => congrArg some (Except.ok.inj h))

theorem lookupSnapshot_current {generation : Nat} {w : World} {s : VideoPresentSnapshot}
    (h : ((lookupSnapshot generation).run w).1 = .ok (some s)) : w.snapshot = some s := by
  revert h
  refine Returns.of_get
    (Q := fun w (r : Except Kernel.KernelError (Option VideoPresentSnapshot)) =>
      r = .ok (some s) → w.snapshot = some s) (fun w => ?_) w
  exact .ite (.pure nofun)
    (.pure fun h => (Option.filter_eq_some_iff.mp (Except.ok.inj h)).1)

/-- A snapshot that is verified is returned as it was. -/
theorem verifySnapshot_current (generation : Nat) (current : VideoPresentSnapshot) :
    Returns (fun r => ∀ s, r = .ok (some s) → s = current)
      (verifySnapshot o generation current) := by
  have hrest : ∀ found : Bool, Returns (fun r => ∀ s, r = .ok (some s) → s = current) (do
      let w ← get
      if generation ≠ 0 ∧ generation ≠ w.generation then return .error .retry
      else if found && current.generation == w.generation then
        if generation ≠ 0 ∧ generation ≠ current.generation then return .error .retry
        else return .ok (some current)
      else return .ok none : GfxM (Except Kernel.KernelError (Option VideoPresentSnapshot))) :=
    fun _ => .after fun _ => .ite (.pure nofun) (.ite (.ite (.pure nofun)
      (.pure fun _ h => (Option.some.inj (Except.ok.inj h)).symm)) (.pure fun _ h => nomatch h))
  refine .after fun found => .after fun w => ?_
  exact .ite (.after fun _ => hrest found) (hrest found)

end UnDOS.Gfx
