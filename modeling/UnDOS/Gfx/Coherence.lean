import UnDOS.Gfx.Desktop
import UnDOS.Gfx.Threads

/-!
# The Desktop Stays Coherent

Every section of every call keeps the records of the desktop in agreement, so they agree after
any order of the sections, whatever the drivers answer.
-/

namespace UnDOS.Gfx

open UnDOS.Kernel (KernelError)
open UnDOS.Lib
open UnDOS.Lib.Thread (Advances)

variable (o : Outside)

theorem SameDesk.keeps {α : Type} {x : GfxM α} (h : Does SameDesk x) : Does (Keeps DeskOk) x :=
  h.weaken fun _ _ => DeskWhere.same

/-! ## Committing -/

/-- From one section to the next the desktop is coherent, whatever fails in between. -/
theorem commitSection_keeps {s replacement : VideoPresentSnapshot} (hs : ModesNamed s.targetModes)
    (hreplacement : ModesNamed replacement.targetModes) (generation : Nat)
    (path : VideoPresentPathInfo) (expected : Option Nat) (token : Nat) :
    Does (Keeps DeskOk) (commitSection o s replacement generation path expected token) := by
  have hfinish : Does (Keeps DeskOk) (finish expected token false) :=
    SameDesk.keeps (.of_tokens (TokensOnly.finish _ _ _))
  refine .bind (SameDesk.keeps (.of_tokens (TokensOnly.guardReservation _)))
    fun _ => .bind .get fun w => ?_
  refine .ite (.bind hfinish fun _ => .pure _) ?_
  refine .bind (SameDesk.keeps (.modify fun _ => .of_eq rfl rfl rfl rfl rfl)) fun _ => ?_
  refine .bind (SameDesk.keeps (.of_asks (Asks.activeTargetUnderGate o))) fun active => ?_
  change Meets DeskOk _ fun _ => DeskOk
  refine Meets.bind (checkCommit_selected o hs path expected token) fun checked => ?_
  rcases checked with error | ⟨t, selected⟩
  · exact fun w hw => Does.bind hfinish (fun _ => .pure _) w hw.1
  have hselected : Meets (fun w => DeskOk w ∧
      ∀ t' m, Except.ok (ε := KernelError) (t, selected) = .ok (t', m) →
      Selected path t' m.mode.modeIndex w) (get : GfxM World)
      fun _ w => DeskOk w ∧ Selected path t selected.mode.modeIndex w :=
    .get fun w hw => ⟨hw.1, hw.2 t selected rfl⟩
  refine .bind hselected fun w => .ite (fun _ w hw => ?_) fun _ => ?_
  · exact Does.bind hfinish (fun _ => .pure _) w hw.1
  · -- from here the desktop is wrong about `t`, until it has moved or is given up
    refine .bind (programDisplayMode_after o path t token _) fun programmed => ?_
    cases programmed with
    | notAttempted error =>
      exact Does.ite (.bind hfinish fun _ => .pure _) (.pure _)
    | failed outcome =>
      exact Does.bind (keepDesktop_keeps o t outcome path hreplacement) fun _ => .pure _
    | done mode surface => exact .bind (moveDesktop_keeps o hreplacement) fun _ => .pure fun _ => id

/-! ## Adapters -/

theorem DeskWhere.invalidate {w : World} {t : Nat} (h : DeskWhere (· ≠ t) w) :
    DeskOk (w.invalidateActiveTarget t) := by
  unfold World.invalidateActiveTarget
  split
  · exact h.clearDesktop
  next hother =>
    refine ⟨⟨h.coherent.valid, fun source hsource hon => ?_, h.coherent.inactive⟩, h.named⟩
    obtain ⟨t', ht', hshows⟩ := h.coherent.active source hsource hon
    refine ⟨t', ht', fun _ => hshows fun heq => hother ?_⟩
    rw [hsource, ← heq]
    simp [ht']

theorem DeskOk.setPresent {w : World} (h : DeskOk w) (t : Nat) {f : KDisplay → KDisplay}
    (hf : ∀ d, (f d).core = { d with isPresent := true }.core) : DeskOk (w.setDisplay t f) := by
  refine ⟨⟨h.coherent.valid, fun source hsource hon => ?_, h.coherent.inactive⟩, h.named⟩
  obtain ⟨t', ht', hshows⟩ := h.coherent.active source hsource hon
  refine ⟨t', ht', fun _ => ?_⟩
  obtain ⟨d, hd⟩ := hshows trivial
  have hget : (w.displays.modify t f)[t']? = some (if t = t' then f d else d) := by
    rw [List.getElem?_modify, hd.found]
    rfl
  have hcore : (if t = t' then f d else d).core = d.core := by
    split
    · rw [hf, KDisplay.core, KDisplay.core, hd.present]
    · rfl
  simp only [KDisplay.core, Prod.mk.injEq] at hcore
  obtain ⟨hp, hr, hs, hm, hi⟩ := hcore
  exact ⟨_, hd.target, hget, hp.trans hd.present, hr.trans hd.kept, hd.surface.trans hs.symm,
    hd.mode.trans hm.symm, hd.targetId.trans hi.symm, hm ▸ hd.modeId⟩

/-- In between the desktop may be wrong about the target of the record. -/
theorem applyRecord_keeps (record : RefreshRecord) :
    Does (Keeps DeskOk) (applyRecord o record) := by
  refine .ite (.pure _) ?_
  change Meets DeskOk _ fun _ => DeskOk
  have hsame : ∀ {α : Type} {x : GfxM α}, Does SameDesk x →
      Meets (DeskWhere (· ≠ record.target)) x fun _ => DeskWhere (· ≠ record.target) :=
    fun hx w hw => hw.same (hx w)
  -- a target that is not present may still have the desktop
  refine .bind (R := fun _ w => DeskWhere (· ≠ record.target) w ∧
    (record.present = true → DeskOk w))
    (.modify fun w hw => ⟨hw.setDisplay _ _, fun hpresent => ?_⟩) fun _ => ?_
  · refine hw.setPresent _ fun d => ?_
    rw [hpresent]
    rfl
  refine .bind (R := fun _ w => DeskWhere (· ≠ record.target) w ∧
    (record.present = true → DeskOk w))
    (.get fun w hw => hw) fun w => .ite (fun _ => ?_) fun hkeep => ?_
  · refine .weaken (P := DeskWhere (· ≠ record.target)) (Q := fun _ => DeskOk) ?_ (fun _ h => h.1)
      fun _ _ => id
    exact .either (hsame (.ask o _)) fun _ => .bind (hsame (.of_asks (Asks.queryIf o _ _ _)))
        fun _ =>
      .bind (hsame (.setDisplay fun _ => rfl)) fun _ => .modify fun _ hw => hw.invalidate
  · refine .pure fun w hw => hw.2 ?_
    simp only [Bool.or_eq_true, Bool.not_eq_true', not_or, Bool.not_eq_false] at hkeep
    exact hkeep.1

theorem applySection_keeps (adapter generation : Nat) (records : List RefreshRecord) :
    Does (Keeps DeskOk) (applySection o adapter generation records) := by
  have hloop : ∀ records, Does (Keeps DeskOk) (applyRecords o records) := by
    intro records
    induction records with
    | nil => exact .pure _
    | cons record records ih => exact .bind (applyRecord_keeps o record) fun _ => ih
  exact .bind .get fun _ => .ite (.pure _) (.ite (.pure _)
    (.bind (SameDesk.keeps (.setAdapter _ _)) fun _ => .bind (hloop records) fun _ =>
      .bind (SameDesk.keeps .bump) fun _ => .pure _))

theorem ensureDesktopSource_keeps : Does (Keeps DeskOk) (ensureDesktopSource o) := by
  have hsame : ∀ {α : Type} {x : GfxM α}, Does SameDesk x →
      Meets (fun w => w.desktopSource = none ∧ DeskOk w) x
        fun _ w => w.desktopSource = none ∧ DeskOk w :=
    fun hx w hw => ⟨(hx w).source.trans hw.1, hw.2.same (hx w)⟩
  change Meets DeskOk _ fun _ => DeskOk
  refine .bind (R := fun v w => v = w ∧ DeskOk w) (.get fun w hw => ⟨rfl, hw⟩) fun v => ?_
  refine .ite (fun _ => .pure fun _ h => h.2) fun hnone => ?_
  refine .weaken (P := fun w => w.desktopSource = none ∧ DeskOk w) (Q := fun _ => DeskOk) ?_
    (fun w hw => ⟨?_, hw.2⟩) fun _ _ => id
  · refine .bind (hsame (.ask o .create)) fun created => ?_
    cases created with
    | some _ => exact .pure fun _ h => h.2
    | none =>
      refine .bind (hsame (.ask o .insert)) fun inserted => ?_
      cases inserted with
      | some _ => exact .pure fun _ h => h.2
      | none =>
        refine .bind (R := fun _ => DeskOk) (.modify fun w ⟨hsource, hw⟩ => ?_) fun _ =>
          Does.bind (SameDesk.keeps .bump) fun _ => .pure _
        have hvalid : false = w.activePathValid := by
          rw [← hw.coherent.valid, World.desktopActive, hsource]
          rfl
        refine ⟨⟨hvalid, fun source hnew hon => ?_, fun source hnew _ => ?_⟩, hw.named⟩
        · cases hnew
          cases hon
        · exact Option.some.inj hnew ▸ ⟨rfl, rfl⟩
  · obtain ⟨rfl, -⟩ := hw
    simpa using hnone

theorem startSection_keeps (adapter : Nat) (discoverOnly : Bool) :
    Does (Keeps DeskOk) (startSection o adapter discoverOnly) := by
  have hstate : ∀ state, Does (Keeps DeskOk) (setState adapter state) :=
    fun _ => SameDesk.keeps (.setAdapter _ _)
  refine .bind .get fun w => .ite (.pure _) ?_
  refine .ite (SameDesk.keeps (.enumerateHeads o _ _)) (.bind (hstate _) fun _ => ?_)
  refine .bind (ensureDesktopSource_keeps o) fun ensured => .ite (hstate _) (.bind .get fun w => ?_)
  refine .either (SameDesk.keeps (.ask o _)) fun probed => ?_
  cases probed with
  | some _ => exact hstate _
  | none => exact .bind (hstate _) fun _ => SameDesk.keeps (.enumerateHeads o _ _)

theorem DeskOk.bump {w : World} (h : DeskOk w) : DeskOk w.bump := h.same (SameDesk.bump w)

theorem DeskOk.retireAdapter {w : World} (h : DeskOk w) (adapter : Nat) :
    DeskOk (w.retireAdapter adapter) := by
  have hstep : ∀ (w : World) (t : Nat), DeskOk w → DeskOk (w.retireDisplay t) :=
    fun w t hw => DeskOk.bump (DeskOk.setDisplay hw t _).invalidate
  have hloop : ∀ (ts : List Nat) (w : World), DeskOk w →
      DeskOk (ts.foldl World.retireDisplay w) := by
    intro ts
    induction ts with
    | nil => exact fun _ => id
    | cons t ts ih => exact fun w hw => ih _ (hstep w t hw)
  exact hloop _ _ (SameDesk.keeps (.setAdapter adapter _) w h)

theorem removeSection_keeps (devices : List Nat) : Does (Keeps DeskOk) (removeSection devices) := by
  have hloop : ∀ (adapters : List Nat) (w : World), DeskOk w →
      DeskOk (adapters.foldl World.retireAdapter w) := by
    intro adapters
    induction adapters with
    | nil => exact fun _ => id
    | cons adapter adapters ih => exact fun w hw => ih _ (hw.retireAdapter adapter)
  refine .modify fun w hw => ?_
  have hsame : ∀ w : World, SameDesk w { w with removedDevices := devices ++ w.removedDevices } :=
    fun _ => .of_eq rfl rfl rfl rfl rfl
  exact (hloop _ w hw).same (hsame _)

/-! ## Snapshots -/

/-- What is known of a snapshot: its modes are named. -/
abbrev Named (s : VideoPresentSnapshot) (_ : World) : Prop := ModesNamed s.targetModes

theorem publishSnapshot_same {s : VideoPresentSnapshot} (h : ModesNamed s.targetModes) :
    Does SameDesk (publishSnapshot o s) := by
  refine .bind (.of_asks (Asks.snapshotMatches o s)) fun found =>
    .ite (.pure _) (.bind .get fun w => ?_)
  refine .ite (.pure _) (.bind_with (.of_asks (Asks.capturePaths o s)) (capturePaths_records o s)
    fun s' hs' => ?_)
  have hmodes : s'.targetModes = s.targetModes := congrArg (·.2.1) hs'.2
  refine .ite (.pure _) (.bind (.modify fun w => .of_eq rfl rfl rfl rfl rfl) fun _ =>
    .bind (.modify fun w => ⟨rfl, rfl, rfl, fun _ d hd => ⟨d, hd, rfl⟩, fun s hs => .inr ?_⟩)
      fun _ => .pure _)
  exact Option.some.inj hs ▸ hmodes ▸ h

theorem publishSnapshot_named {s : VideoPresentSnapshot} (h : ModesNamed s.targetModes) :
    Returns (fun r => ∀ s', r = .ok s' → ModesNamed s'.targetModes) (publishSnapshot o s) := by
  have herror : ∀ error, Returns (fun r : Except KernelError VideoPresentSnapshot =>
      ∀ s', r = .ok s' → ModesNamed s'.targetModes) (pure (.error error) : GfxM _) :=
    fun _ => .pure nofun
  refine .after fun found => .ite (herror _) (.after fun w => .ite (herror _) ?_)
  refine .bind (capturePaths_records o s) fun s' hs' => .ite (herror _) ?_
  have hmodes : s'.targetModes = s.targetModes := congrArg (·.2.1) hs'.2
  exact .after fun _ => .after fun _ => .pure fun _ hs => Except.ok.inj hs ▸ hmodes ▸ h

theorem useSnapshot_same {s : VideoPresentSnapshot} : Does SameDesk (useSnapshot s) :=
  .modify fun _ => .of_eq rfl rfl rfl rfl rfl

/-! ## Every section -/

theorem keeping {α : Type} {x : GfxM α} (h : Does (Keeps DeskOk) x) :
    Advances DeskOk (Keeps DeskOk) (fun _ => True) x fun _ _ => True :=
  fun w hw _ => ⟨h w hw, h w, trivial⟩

theorem keeping_from {α : Type} {x : GfxM α} {P : World → Prop} {Q : α → Prop}
    (h : Does (Keeps DeskOk) x) (hQ : Returns Q x) :
    Advances DeskOk (Keeps DeskOk) P x fun a _ => Q a :=
  fun w hw _ => ⟨h w hw, h w, hQ w⟩

/-- Every section keeps the desktop coherent. -/
theorem desk_duties : Duties o DeskOk (Keeps DeskOk) Named (fun _ _ _ => True) where
  snapStays _ _ _ hs _ := hs
  tokStays _ _ _ _ _ _ := trivial
  asks h := keeping (SameDesk.keeps (.of_asks h))
  ask _ _ := keeping (SameDesk.keeps (.ask o _))
  acquire generation w hw _ := by
    have hkeeps := SameDesk.keeps (.of_asks (Asks.acquirePublishedSnapshot generation)) w
    exact ⟨hkeeps hw, hkeeps, fun s hs => hw.named s (acquirePublishedSnapshot_current hs)⟩
  lookup generation w hw _ := by
    have hkeeps := SameDesk.keeps (.of_asks (Asks.lookupSnapshot generation)) w
    exact ⟨hkeeps hw, hkeeps, fun s hs => hw.named s (lookupSnapshot_current hs)⟩
  verify generation current := keeping (SameDesk.keeps
    (does_verifySnapshot o (fun _ _ => Asked.sameDesk) .bump generation current))
  publish s hs := keeping_from (SameDesk.keeps (publishSnapshot_same o hs))
    (publishSnapshot_named o hs)
  prepare s generation path := keeping_from
    (.bind (SameDesk.keeps useSnapshot_same) fun _ =>
      SameDesk.keeps (.of_tokens (TokensOnly.prepareToken o s generation path)))
    fun _ _ _ => ⟨none, trivial⟩
  allocateHandle process token :=
    keeping_from (SameDesk.keeps (.of_tokens (TokensOnly.allocateHandle process token)))
      fun _ => trivial
  drop token := keeping (SameDesk.keeps (.of_tokens (TokensOnly.dropReference token)))
  close process handle := keeping
    (SameDesk.keeps (.of_tokens (TokensOnly.closeSection process handle)))
  exit process := keeping (SameDesk.keeps (.of_tokens (TokensOnly.exitSection process)))
  lookupToken process handle := keeping_from
    (SameDesk.keeps (.of_tokens (TokensOnly.lookupToken process handle))) fun _ _ _ _ => trivial
  release token t := keeping (SameDesk.keeps (.of_tokens (TokensOnly.releaseSection t token)))
  capacity generation token t :=
    keeping (SameDesk.keeps (.of_tokens (TokensOnly.capacitySection generation t token)))
  commit s generation path token t w hw hs := by
    have hcloned : ModesNamed s.cloned.targetModes := hs.1
    have hcommit := commitSection_keeps o hs.1 hcloned generation path t token w
    exact ⟨hcommit hw, hcommit, trivial⟩
  register adapter := keeping (SameDesk.keeps (.modify fun _ => .of_eq rfl rfl rfl rfl rfl))
  start adapter discoverOnly := keeping (startSection_keeps o adapter discoverOnly)
  apply adapter generation records := keeping (applySection_keeps o adapter generation records)
  retire adapter := keeping (.modify fun _ hw => DeskOk.retireAdapter hw adapter)
  remove devices := keeping (removeSection_keeps devices)

/-! ## Every state -/

theorem deskOk_start : DeskOk {} :=
  ⟨⟨rfl, fun _ h => (nomatch h), fun _ h => (nomatch h)⟩, nofun⟩

/-- Whatever the drivers answer, and in whatever order the sections of the calls run: the desktop
    source is active exactly when the active path is valid, it shows a target that is present, with
    the surface and the mode of that target, and the active path names both; and it shows nothing
    where it is not active. -/
theorem desktop_coherent (turns : List (Turn Call)) : Coherent (systemAfter o turns).state :=
  ((desk_duties o).system deskOk_start turns).1.coherent.all

end UnDOS.Gfx
