import UnDOS.Gfx.Effects

/-!
# What Adapters and the Desktop Change

Starting, refreshing and retiring adapters changes displays, adapters and the desktop, moves the
generation, and asks the drivers no question of a mode change (`ScreensOnly`).  Neither the tokens
(`SameTokens`) nor the snapshots (`SameTopology`) are different afterwards.
-/

namespace UnDOS.Gfx

open UnDOS.Lib

/-- The snapshots are the same, and the generation has only moved. -/
structure SameTopology (w w' : World) : Prop where
  snapshot : w'.snapshot = w.snapshot
  published : w'.published = w.published
  builds : w'.builds = w.builds
  used : w'.used = w.used
  bumps : w.bumps ≤ w'.bumps
  generation : w.generation = w.bumps + 1 → w'.bumps < uint32Max → w'.generation = w'.bumps + 1

/-- The tokens are the same, and so are the callbacks of the displays. -/
structure SameTokens (w w' : World) : Prop where
  tokens : w'.tokens = w.tokens
  tables : w'.tables = w.tables
  nextSerial : w'.nextSerial = w.nextSerial
  asked : ∃ newer, (∀ e ∈ newer, e.plain) ∧ w'.trace = newer ++ w.trace
  hooks : ∀ (t : Nat) (d : KDisplay), w.displays[t]? = some d →
    ∃ d' : KDisplay, w'.displays[t]? = some d' ∧ d'.hooks = d.hooks

/-- Only displays, adapters, the desktop and the generation are different. -/
structure ScreensOnly (w w' : World) : Prop where
  topology : SameTopology w w'
  tokens : SameTokens w w'

instance : IsLater SameTopology where
  refl _ := ⟨rfl, rfl, rfl, rfl, Nat.le_refl _, fun h _ => h⟩
  trans _ _ _ hab hbc :=
    ⟨hbc.snapshot.trans hab.snapshot, hbc.published.trans hab.published,
      hbc.builds.trans hab.builds,
      hbc.used.trans hab.used, Nat.le_trans hab.bumps hbc.bumps, fun h hlt =>
        hbc.generation (hab.generation h (Nat.lt_of_le_of_lt hbc.bumps hlt)) hlt⟩

instance : IsLater SameTokens where
  refl _ := ⟨rfl, rfl, rfl, ⟨[], fun _ h => (List.not_mem_nil h).elim, rfl⟩,
    fun _ d h => ⟨d, h, rfl⟩⟩
  trans := by
    intro a b c hab hbc
    refine ⟨hbc.tokens.trans hab.tokens, hbc.tables.trans hab.tables,
      hbc.nextSerial.trans hab.nextSerial,
      ?_, fun t d hd => ?_⟩
    · obtain ⟨newer, hplain, htrace⟩ := hab.asked
      obtain ⟨newest, hplain', htrace'⟩ := hbc.asked
      refine ⟨newest ++ newer, fun e he => (List.mem_append.mp he).elim (hplain' e) (hplain e), ?_⟩
      rw [htrace', htrace, List.append_assoc]
    · obtain ⟨d', hd', hhooks⟩ := hab.hooks t d hd
      obtain ⟨d'', hd'', hhooks'⟩ := hbc.hooks t d' hd'
      exact ⟨d'', hd'', hhooks'.trans hhooks⟩

instance : IsLater ScreensOnly where
  refl _ := ⟨IsLater.refl _, IsLater.refl _⟩
  trans _ _ _ hab hbc :=
    ⟨IsLater.trans _ _ _ hab.topology hbc.topology, IsLater.trans _ _ _ hab.tokens hbc.tokens⟩

theorem TokensOnly.sameTopology {w w' : World} (h : TokensOnly w w') : SameTopology w w' := by
  rw [h]
  exact ⟨rfl, rfl, rfl, rfl, .refl, fun h _ => h⟩

theorem Asked.screensOnly {w w' : World} (h : Asked w w') : ScreensOnly w w' := by
  refine ⟨h.tokensOnly.sameTopology, ?_⟩
  obtain ⟨newer, hplain, rfl⟩ := h
  exact ⟨rfl, rfl, rfl, ⟨newer, hplain, rfl⟩, fun _ d hd => ⟨d, hd, rfl⟩⟩

namespace ScreensOnly

/-- What leaves the hooks of every display alone is about screens only. -/
theorem update (w : World) {displays : List KDisplay} {adapters : List KGraphicsAdapter}
    {source : Option KVideoPresentSource} {path : VideoPresentPathInfo} {valid : Bool}
    {removed : List Nat} {next : Nat} (h : ∀ (t : Nat) (d : KDisplay), w.displays[t]? = some d →
      ∃ d' : KDisplay, displays[t]? = some d' ∧ d'.hooks = d.hooks) : ScreensOnly w { w with
        displays := displays
        adapters := adapters
        desktopSource := source
        activePath := path
        activePathValid := valid
        removedDevices := removed
        nextTargetId := next } :=
  ⟨⟨rfl, rfl, rfl, rfl, Nat.le_refl _, fun h _ => h⟩,
    ⟨rfl, rfl, rfl, ⟨[], fun _ h => (List.not_mem_nil h).elim, rfl⟩, h⟩⟩

theorem apart (w : World) {adapters : List KGraphicsAdapter} {source : Option KVideoPresentSource}
    {path : VideoPresentPathInfo} {valid : Bool} {removed : List Nat} {next : Nat} : ScreensOnly w
      { w with
        adapters := adapters
        desktopSource := source
        activePath := path
        activePathValid := valid
        removedDevices := removed
        nextTargetId := next } :=
  update w fun _ d hd => ⟨d, hd, rfl⟩

theorem bump (w : World) : ScreensOnly w w.bump := by
  refine ⟨⟨rfl, rfl, rfl, rfl, Nat.le_succ _, fun h hlt => ?_⟩,
    ⟨rfl, rfl, rfl, ⟨[], fun _ h => (List.not_mem_nil h).elim, rfl⟩, fun _ d hd => ⟨d, hd, rfl⟩⟩⟩
  have hne : w.generation ≠ uint32Max := by
    have hlt' : w.bumps + 1 < uint32Max := hlt
    omega
  show (if w.generation = uint32Max then 1 else w.generation + 1) = w.bumps + 1 + 1
  rw [if_neg hne, h]

theorem display (w : World) (t : Nat) {f : KDisplay → KDisplay} (hf : ∀ d, (f d).hooks = d.hooks) :
    ScreensOnly w (w.setDisplay t f) := by
  refine update w fun t' d hd => ?_
  have hget : (w.displays.modify t f)[t']? = some (if t = t' then f d else d) := by
    rw [List.getElem?_modify, hd]
    rfl
  refine ⟨_, hget, ?_⟩
  split
  · exact hf d
  · rfl

variable (o : Outside)

theorem of_asks {α : Type} {x : GfxM α} (h : Does Asked x) : Does ScreensOnly x :=
  h.weaken fun _ _ => Asked.screensOnly

theorem refresh : Does ScreensOnly refreshObservedTopology := bump

theorem setDisplay {t : Nat} {f : KDisplay → KDisplay} (hf : ∀ d, (f d).hooks = d.hooks) :
    Does ScreensOnly (Gfx.setDisplay t f) := fun w => display w t hf

theorem setAdapter (adapter : Nat) (f : KGraphicsAdapter → KGraphicsAdapter) :
    Does ScreensOnly (Gfx.setAdapter adapter f) := fun w => apart w

/-! ## Starting -/

theorem insertDisplay (d : KDisplay) : Does ScreensOnly (Gfx.insertDisplay o d) := by
  refine .bind .get fun w => .ite (.pure _) (.bind (of_asks (Asks.ask o rfl)) fun error => ?_)
  cases error with
  | some error => exact .pure _
  | none =>
    refine .bind (.modify fun w' => update w' fun t d' hd => ⟨d', ?_, rfl⟩) fun _ => refresh
    exact List.getElem?_append_left (List.getElem?_eq_some_iff.mp hd).1 ▸ hd

theorem enumerateHeads (adapter : Nat) (discoverOnly : Bool) :
    Does ScreensOnly (Gfx.enumerateHeads o adapter discoverOnly) :=
  does_enumerateHeads o (fun _ _ => Asked.screensOnly) (insertDisplay o) setAdapter adapter
    discoverOnly

theorem ensureDesktopSource : Does ScreensOnly (Gfx.ensureDesktopSource o) := by
  refine .bind .get fun w => .ite (.pure _) (.bind (of_asks (Asks.ask o rfl)) fun created => ?_)
  cases created with
  | some _ => exact .pure _
  | none =>
    refine .bind (of_asks (Asks.ask o rfl)) fun inserted => ?_
    cases inserted with
    | some _ => exact .pure _
    | none => exact .bind (.modify fun w => apart w) fun _ => .bind refresh fun _ => .pure _

theorem startSection (adapter : Nat) (discoverOnly : Bool) :
    Does ScreensOnly (Gfx.startSection o adapter discoverOnly) := by
  have hstate : ∀ state, Does ScreensOnly (setState adapter state) := fun _ => setAdapter _ _
  refine .bind .get fun w =>
    .ite (.pure _) (.ite (enumerateHeads o _ _) (.bind (hstate _) fun _ => ?_))
  refine .bind (ensureDesktopSource o) fun ensured => .ite (hstate _) (.bind .get fun w => ?_)
  refine .either (of_asks (Asks.ask o rfl)) fun probed => ?_
  cases probed with
  | some _ => exact hstate _
  | none => exact .bind (hstate _) fun _ => enumerateHeads o _ _

theorem registerSection (adapter : KGraphicsAdapter) :
    Does ScreensOnly (Gfx.registerSection adapter) :=
  fun w => apart w

/-! ## Refreshing and retiring -/

theorem invalidate (w : World) (t : Nat) : ScreensOnly w (w.invalidateActiveTarget t) := by
  unfold World.invalidateActiveTarget
  split
  · exact apart w
  · exact IsLater.refl w

theorem applyRecord (record : RefreshRecord) : Does ScreensOnly (Gfx.applyRecord o record) := by
  refine .ite (.pure _) (.bind (setDisplay fun _ => rfl) fun _ => .bind .get fun w =>
    .ite ?_ (.pure _))
  exact .either (of_asks (Asks.ask o rfl)) fun _ => .bind (of_asks (Asks.queryIf o _ _ _)) fun _ =>
    .bind (setDisplay fun _ => rfl) fun _ => .modify fun w => invalidate w _

theorem applySection (adapter generation : Nat) (records : List RefreshRecord) :
    Does ScreensOnly (Gfx.applySection o adapter generation records) := by
  have hloop : ∀ records, Does ScreensOnly (applyRecords o records) := by
    intro records
    induction records with
    | nil => exact .pure _
    | cons record records ih => exact .bind (applyRecord o record) fun _ => ih
  exact .bind .get fun _ => .ite (.pure _) (.ite (.pure _) (.bind (setAdapter _ _) fun _ =>
    .bind (hloop records) fun _ => .bind refresh fun _ => .pure _))

theorem retire (w : World) (adapter : Nat) : ScreensOnly w (w.retireAdapter adapter) := by
  let removed (d : KDisplay) : KDisplay :=
    { d with
      isPresent := false, removed := true, isAttachedToDesktop := false, topologyDegraded := false }
  have hstep : ∀ (w : World) (t : Nat), ScreensOnly w (w.retireDisplay t) := fun w t =>
    IsLater.trans _ _ _ (IsLater.trans _ _ _ (display w t (f := removed)
      fun _ => rfl) (invalidate _ t))
      (bump _)
  have hloop : ∀ (ts : List Nat) (w : World), ScreensOnly w (ts.foldl World.retireDisplay w) := by
    intro ts
    induction ts with
    | nil => exact IsLater.refl
    | cons t ts ih => exact fun w => IsLater.trans _ _ _ (hstep w t) (ih _)
  exact IsLater.trans _ _ _ (apart w) (hloop _ _)

theorem retireSection (adapter : Nat) : Does ScreensOnly (Gfx.retireSection adapter) :=
  fun w => retire w adapter

theorem removeSection (devices : List Nat) : Does ScreensOnly (Gfx.removeSection devices) := by
  have hloop : ∀ (adapters : List Nat) (w : World),
      ScreensOnly w (adapters.foldl World.retireAdapter w) := by
    intro adapters
    induction adapters with
    | nil => exact IsLater.refl
    | cons adapter adapters ih => exact fun w => IsLater.trans _ _ _ (retire w adapter) (ih _)
  exact .modify fun w => IsLater.trans _ _ _ (hloop _ w) (apart _)

/-! ## The desktop -/

theorem stuckPrevious (t : Nat) : Does ScreensOnly (Gfx.stuckPrevious o t) :=
  does_stuckPrevious o (fun _ _ => Asked.screensOnly) (fun _ => setDisplay fun _ => rfl) t

theorem splitDesktop (t previous : Nat) (path : VideoPresentPathInfo) :
    Does ScreensOnly (Gfx.splitDesktop o t previous path) := by
  refine .bind .get fun w => .before (of_asks (Asks.ask o rfl)) ?_ fun _ => rfl
  refine .bind (of_asks (Asks.queryIf o _ _ _)) fun _ => .bind (of_asks (Asks.queryActualState o _))
    fun _ => .bind (setDisplay fun _ => rfl) fun _ => .bind (setDisplay fun _ => rfl) fun _ => ?_
  exact .ite (.bind (.modify fun w => apart w) fun _ => .pure _)
    (.ite (.bind (.modify fun w => apart w) fun _ => .pure _)
      (.bind (.modify fun w => apart w) fun _ => .pure _))

end ScreensOnly

end UnDOS.Gfx
