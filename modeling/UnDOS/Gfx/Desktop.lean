import UnDOS.Gfx.Records

/-!
# The Desktop Shows What the Target Shows

What the desktop shows is written down in the desktop source, in its target, in the surface of
both, in the active path and in a flag.  `Coherent` says that they agree.

Most routines leave all of it alone (`SameDesk`).  A commit does not while it is under way: from
the end of its mode change until the desktop has moved, the record of the new target may differ
from what the desktop still says of it (`CoherentWhere`).
-/

namespace UnDOS.Gfx

open UnDOS.Kernel (KernelError)
open UnDOS.Lib

/-! ## Coherence -/

/-- The desktop source shows the display `d`, which is the target `t`. -/
structure Shows (w : World) (source : KVideoPresentSource) (t : Nat) (d : KDisplay) : Prop where
  target : source.target = some t
  found : w.displays[t]? = some d
  present : d.isPresent = true
  kept : d.removed = false
  surface : source.surface = d.surface
  mode : source.currentMode = d.currentMode
  targetId : w.activePath.targetId = d.videoPresentTargetId
  modeId : w.activePath.targetModeId = modeIdFromIndex d.currentMode.modeIndex

/-- The records of the desktop agree. -/
structure Coherent (w : World) : Prop where
  valid : w.desktopActive = w.activePathValid
  active : ∀ source, w.desktopSource = some source → source.active = true →
    ∃ t d, Shows w source t d
  inactive : ∀ source, w.desktopSource = some source → source.active = false →
    source.target = none ∧ source.surface = none

/-- They agree, except perhaps about a target that `P` leaves out. -/
structure CoherentWhere (P : Nat → Prop) (w : World) : Prop where
  valid : w.desktopActive = w.activePathValid
  active : ∀ source, w.desktopSource = some source → source.active = true →
    ∃ t, source.target = some t ∧ (P t → ∃ d, Shows w source t d)
  inactive : ∀ source, w.desktopSource = some source → source.active = false →
    source.target = none ∧ source.surface = none

variable {w w' : World}

theorem CoherentWhere.all (h : CoherentWhere (fun _ => True) w) : Coherent w := by
  refine ⟨h.valid, fun source hsource hon => ?_, h.inactive⟩
  obtain ⟨t, -, hshows⟩ := h.active source hsource hon
  exact ⟨t, hshows trivial⟩

/-- The desktop is coherent, but for some target, and the published snapshot names its modes. -/
structure DeskWhere (P : Nat → Prop) (w : World) : Prop where
  coherent : CoherentWhere P w
  named : ∀ s, w.snapshot = some s → ModesNamed s.targetModes

def DeskOk (w : World) : Prop := DeskWhere (fun _ => True) w

/-! ## What leaves the desktop alone -/

/-- The fields of a display that the desktop repeats. -/
def KDisplay.core (d : KDisplay) : Bool × Bool × Option Nat × KDisplayModeInfo × Nat :=
  (d.isPresent, d.removed, d.surface, d.currentMode, d.videoPresentTargetId)

/-- Nothing that the desktop is about has changed, and a new snapshot names its modes. -/
structure SameDesk (w w' : World) : Prop where
  source : w'.desktopSource = w.desktopSource
  path : w'.activePath = w.activePath
  valid : w'.activePathValid = w.activePathValid
  displays : ∀ (t : Nat) (d : KDisplay), w.displays[t]? = some d →
    ∃ d' : KDisplay, w'.displays[t]? = some d' ∧ d'.core = d.core
  snapshot : ∀ s, w'.snapshot = some s → w.snapshot = some s ∨ ModesNamed s.targetModes

instance : IsLater SameDesk where
  refl _ := ⟨rfl, rfl, rfl, fun _ d h => ⟨d, h, rfl⟩, fun _ => .inl⟩
  trans := by
    intro a b c hab hbc
    refine ⟨hbc.source.trans hab.source, hbc.path.trans hab.path, hbc.valid.trans hab.valid,
      fun t d hd => ?_, fun s hs => ?_⟩
    · obtain ⟨d', hd', hcore⟩ := hab.displays t d hd
      obtain ⟨d'', hd'', hcore'⟩ := hbc.displays t d' hd'
      exact ⟨d'', hd'', hcore'.trans hcore⟩
    · rcases hbc.snapshot s hs with hold | hnamed
      · exact hab.snapshot s hold
      · exact .inr hnamed

theorem SameDesk.of_eq (hsource : w'.desktopSource = w.desktopSource)
    (hpath : w'.activePath = w.activePath) (hvalid : w'.activePathValid = w.activePathValid)
    (hdisplays : w'.displays = w.displays) (hsnapshot : w'.snapshot = w.snapshot) : SameDesk w w' :=
  ⟨hsource, hpath, hvalid, fun _ d h => ⟨d, hdisplays ▸ h, rfl⟩, fun _ h => .inl (hsnapshot ▸ h)⟩

theorem TokensOnly.sameDesk (h : TokensOnly w w') : SameDesk w w' := by
  rw [h]
  exact .of_eq rfl rfl rfl rfl rfl

theorem Asked.sameDesk (h : Asked w w') : SameDesk w w' := h.tokensOnly.sameDesk

theorem Shows.same (h : SameDesk w w') {source : KVideoPresentSource} {t : Nat}
    {d : KDisplay} (hd : Shows w source t d) : ∃ d', Shows w' source t d' := by
  obtain ⟨d', hd', hcore⟩ := h.displays t d hd.found
  simp only [KDisplay.core, Prod.mk.injEq] at hcore
  obtain ⟨hpresent, hremoved, hsurface, hmode, hid⟩ := hcore
  exact ⟨d', hd.target, hd', hpresent.trans hd.present, hremoved.trans hd.kept,
    hd.surface.trans hsurface.symm, hd.mode.trans hmode.symm,
    h.path ▸ hd.targetId.trans hid.symm, h.path ▸ hmode ▸ hd.modeId⟩

theorem DeskWhere.same {P : Nat → Prop} (h : SameDesk w w') (hw : DeskWhere P w) :
    DeskWhere P w' := by
  obtain ⟨⟨hvalid, hactive, hinactive⟩, hnamed⟩ := hw
  refine ⟨⟨?_, fun source hsource hon => ?_, fun source hsource => ?_⟩, fun s hs => ?_⟩
  · rw [World.desktopActive, h.source, h.valid]
    exact hvalid
  · obtain ⟨t, ht, hshows⟩ := hactive source (h.source ▸ hsource) hon
    refine ⟨t, ht, fun hP => ?_⟩
    obtain ⟨d, hd⟩ := hshows hP
    exact hd.same h
  · exact hinactive source (h.source ▸ hsource)
  · exact (h.snapshot s hs).elim (hnamed s) id

namespace SameDesk

variable (o : Outside)

theorem of_tokens {α : Type} {x : GfxM α} (h : Does TokensOnly x) : Does SameDesk x :=
  h.weaken fun _ _ => TokensOnly.sameDesk

theorem of_asks {α : Type} {x : GfxM α} (h : Does Asked x) : Does SameDesk x :=
  h.weaken fun _ _ => Asked.sameDesk

theorem ask (request : Request) : Does SameDesk (Gfx.ask o request) :=
  of_tokens (TokensOnly.ask o request)

theorem bump : Does SameDesk refreshObservedTopology := fun _ => .of_eq rfl rfl rfl rfl rfl

theorem setDisplay {t : Nat} {f : KDisplay → KDisplay} (h : ∀ d, (f d).core = d.core) :
    Does SameDesk (Gfx.setDisplay t f) := by
  refine .modify fun w => ⟨rfl, rfl, rfl, fun t' d hd => ?_, fun _ => .inl⟩
  have hget : (w.displays.modify t f)[t']? = some (if t = t' then f d else d) := by
    rw [List.getElem?_modify, hd]
    rfl
  refine ⟨_, hget, ?_⟩
  split
  · exact h d
  · rfl

theorem setAdapter (adapter : Nat) (f : KGraphicsAdapter → KGraphicsAdapter) :
    Does SameDesk (Gfx.setAdapter adapter f) := fun _ => .of_eq rfl rfl rfl rfl rfl

/-! ### Committing -/

theorem publishCommitted {replacement : VideoPresentSnapshot}
    (h : ModesNamed replacement.targetModes) :
      Does SameDesk (Gfx.publishCommitted o replacement) := by
  refine .bind (of_asks (Asks.observeAll o _)) fun _ => .bind bump fun _ => .bind .get fun w => ?_
  refine .bind_with (of_asks (Asks.capturePaths o _)) (capturePaths_records o _) fun s hs => ?_
  refine .modify fun w => ⟨rfl, rfl, rfl, fun _ d hd => ⟨d, hd, rfl⟩, fun s' hs' => .inr ?_⟩
  have hmodes : s.targetModes = replacement.targetModes := congrArg (·.2.1) hs.2
  exact Option.some.inj hs' ▸ hmodes ▸ h

theorem rollBack (t token modeIndex outcome : Nat) (before : KDisplayActualState) :
    Does SameDesk (Gfx.rollBack o t token modeIndex outcome before) := by
  refine .bind (of_tokens (TokensOnly.restorePrevious o _ _ _)) fun restored => ?_
  refine .bind (of_tokens (TokensOnly.finish _ _ _)) fun _ => ?_
  refine .bind (of_asks (Asks.queryActualState o t)) fun actual => ?_
  refine .bind (setDisplay fun _ => rfl) fun _ => ?_
  exact .ite (.bind (setDisplay fun _ => rfl) fun _ => .pure _) (.pure _)

theorem stuckPrevious (t : Nat) : Does SameDesk (Gfx.stuckPrevious o t) :=
  does_stuckPrevious o (fun _ _ => Asked.sameDesk) (fun _ => setDisplay fun _ => rfl) t

/-! ### Adapters -/

theorem insertDisplay (d : KDisplay) : Does SameDesk (Gfx.insertDisplay o d) := by
  refine .bind .get fun w => .ite (.pure _) (.bind (ask o _) fun error => ?_)
  cases error with
  | some error => exact .pure _
  | none =>
    refine .bind (.modify fun w' => ⟨rfl, rfl, rfl, fun t d' hd => ⟨d', ?_, rfl⟩, fun _ => .inl⟩)
      fun _ => bump
    exact List.getElem?_append_left (List.getElem?_eq_some_iff.mp hd).1 ▸ hd

theorem enumerateHeads (adapter : Nat) (discoverOnly : Bool) :
    Does SameDesk (Gfx.enumerateHeads o adapter discoverOnly) :=
  does_enumerateHeads o (fun _ _ => Asked.sameDesk) (insertDisplay o) setAdapter adapter
    discoverOnly

end SameDesk

/-! ## Committing -/

section Commit

variable (o : Outside)

/-- A display that is there, with the identifier and the mode that a path names. -/
def Selected (path : VideoPresentPathInfo) (t modeIndex : Nat) (w : World) : Prop :=
  w.desktopSource.isSome = true ∧ path.targetModeId = modeIdFromIndex modeIndex ∧
    ∃ d, w.displays[t]? = some d ∧ d.isPresent = true ∧ d.removed = false ∧
      path.targetId = d.videoPresentTargetId

/-- The display of a target that went through a mode change. -/
def Arrived (path : VideoPresentPathInfo) (t surface : Nat) (mode : KDisplayModeInfo) (w : World) :
    Prop :=
  w.desktopSource.isSome = true ∧ path.targetModeId = modeIdFromIndex mode.modeIndex ∧
    ∃ d, w.displays[t]? = some d ∧ d.isPresent = true ∧ d.removed = false ∧
      path.targetId = d.videoPresentTargetId ∧ d.surface = some surface ∧ d.currentMode = mode

variable {path : VideoPresentPathInfo} {t modeIndex surface token previous : Nat} {w w' : World}
  {mode : KDisplayModeInfo}

theorem Selected.same
    (h : SameDesk w w') (hw : Selected path t modeIndex w) : Selected path t modeIndex w' := by
  obtain ⟨hsource, hmode, d, hd, hpresent, hkept, hid⟩ := hw
  obtain ⟨d', hd', hcore⟩ := h.displays t d hd
  simp only [KDisplay.core, Prod.mk.injEq] at hcore
  obtain ⟨hp, hr, -, -, hi⟩ := hcore
  exact ⟨h.source ▸ hsource, hmode, d', hd', hp.trans hpresent, hr.trans hkept, hid.trans hi.symm⟩

theorem Arrived.same (h : SameDesk w w') (hw : Arrived path t surface mode w) :
    Arrived path t surface mode w' := by
  obtain ⟨hsource, hmode, d, hd, hpresent, hkept, hid, hsurface, hcurrent⟩ := hw
  obtain ⟨d', hd', hcore⟩ := h.displays t d hd
  simp only [KDisplay.core, Prod.mk.injEq] at hcore
  obtain ⟨hp, hr, hs, hm, hi⟩ := hcore
  exact ⟨h.source ▸ hsource, hmode, d', hd', hp.trans hpresent, hr.trans hkept, hid.trans hi.symm,
    hs.trans hsurface, hm.trans hcurrent⟩

theorem World.findTarget_some {targetId : Nat} (h : w.findTarget targetId = some t) :
    ∃ d, w.displays[t]? = some d ∧ d.removed = false ∧ d.videoPresentTargetId = targetId := by
  have hfound := List.find?_some h
  split at hfound
  next d hd => exact ⟨d, hd, by simpa using hfound⟩
  · exact nomatch hfound

/-- A commit that passes its checks has selected a mode of its own target. -/
theorem checkCommit_selected {s : VideoPresentSnapshot} (hs : ModesNamed s.targetModes)
    (path : VideoPresentPathInfo) (expected : Option Nat) (token : Nat) :
    Meets DeskOk (checkCommit o s path expected token) fun r w => DeskOk w ∧
      ∀ t m, r = .ok (t, m) → Selected path t m.mode.modeIndex w := by
  intro w hw
  have hsame : SameDesk w _ := SameDesk.of_asks (Asks.checkCommit o s path expected token) w
  refine ⟨hw.same hsame, fun t m hr => Selected.same hsame ?_⟩
  revert hr
  refine Returns.of_get (Q := fun w r => r = Except.ok (t, m) → Selected path t m.mode.modeIndex w)
    (fun w => ?_) w
  by_cases hfits : pathFits w path
  case neg =>
    rw [if_pos (by simp [hfits])]
    exact .pure nofun
  rw [if_neg (by simp [hfits])]
  have hsource : w.desktopSource.isSome = true := by
    simp only [pathFits, Bool.and_eq_true] at hfits
    exact Option.isSome_of_any hfits.1.1.1.1.1
  split
  · exact .pure nofun
  next t' ht =>
    obtain ⟨d, hd, hkept, hid⟩ := World.findTarget_some ht
    by_cases hpresent : d.isPresent
    · refine .ite (.pure nofun) (.after fun error => ?_)
      split
      · exact .pure nofun
      · split
        · exact .pure nofun
        · split
          · exact .pure nofun
          next selected hselected =>
            refine .ite (.pure nofun) (.ite (.pure nofun) (.pure fun h => ?_))
            obtain ⟨rfl, rfl⟩ := Prod.mk.inj (Except.ok.inj h)
            have hof := List.find?_some hselected
            simp only [VideoPresentTargetModeInfo.isOf, Bool.and_eq_true, beq_iff_eq] at hof
            have hmem := List.mem_reverse.mp (List.mem_of_find?_eq_some hselected)
            exact ⟨hsource, hof.2.symm.trans (hs _ hmem), d, hd, hpresent, hkept, hid.symm⟩
    · rw [hd, if_pos (by simp [hpresent])]
      exact .pure fun h => nomatch h

/-! ### The mode change -/

/-- What holds while a mode is being programmed: the reservation has it. -/
structure Programming (path : VideoPresentPathInfo) (t token modeIndex : Nat) (w : World) :
    Prop where
  desk : DeskOk w
  selected : Selected path t modeIndex w
  reserved : (w.reservation token).mode.modeIndex = modeIndex

theorem Programming.traced (h : TraceOnly w w') (hw : Programming path t token modeIndex w) :
    Programming path t token modeIndex w' := by
  rw [h]
  have hsame : SameDesk w { w with trace := w'.trace } := .of_eq rfl rfl rfl rfl rfl
  exact ⟨hw.desk.same hsame, hw.selected.same hsame, hw.reserved⟩

/-- What a mode change leaves. -/
def AfterMode (path : VideoPresentPathInfo) (t : Nat) (r : Programmed) (w : World) : Prop :=
  match r with
  | .done mode surface => DeskWhere (· ≠ t) w ∧ Arrived path t surface mode w
  | _ => DeskOk w

theorem afterMode_of_failed
    {x : GfxM Programmed} (hx : Does SameDesk x)
    (hfailed : Returns (∃ outcome, · = .failed outcome) x) :
    Meets (Programming path t token modeIndex) x (AfterMode path t) := by
  intro w hw
  obtain ⟨outcome, h⟩ := hfailed w
  rw [h]
  exact hw.desk.same (hx w)

theorem World.reservation_modify
    (h : (w.reservation token).backing.isSome) (f : KDisplayModeReservation →
      KDisplayModeReservation) :
    ({ w with tokens := w.tokens.modify token fun t => { t with reservation := f t.reservation } } :
      World).reservation token = f (w.reservation token) := by
  unfold World.reservation at h ⊢
  rw [List.getElem?_modify_eq]
  cases hk : w.tokens[token]? with
  | none =>
    rw [hk] at h
    exact nomatch h
  | some k => rfl

theorem DeskOk.setDisplay (h : DeskOk w) (t : Nat) (f : KDisplay → KDisplay) :
    DeskWhere (· ≠ t) (w.setDisplay t f) := by
  obtain ⟨⟨hvalid, hactive, hinactive⟩, hnamed⟩ := h
  refine ⟨⟨hvalid, fun source hsource hon => ?_, hinactive⟩, hnamed⟩
  obtain ⟨t', ht, hshows⟩ := hactive source hsource hon
  refine ⟨t', ht, fun hne => ?_⟩
  obtain ⟨d, hd⟩ := hshows trivial
  refine ⟨d, hd.target, ?_, hd.present, hd.kept, hd.surface, hd.mode, hd.targetId, hd.modeId⟩
  show (w.displays.modify t f)[t']? = some d
  rw [List.getElem?_modify, hd.found]
  exact congrArg some (if_neg hne.symm)

theorem completeMode_after (path : VideoPresentPathInfo) (t token surface modeIndex : Nat) :
    Meets (Programming path t token modeIndex) (completeMode t token surface)
      (AfterMode path t) := by
  intro w ⟨hdesk, ⟨hsource, hmode, d, hd, hpresent, hkept, hid⟩, hreserved⟩
  let r := w.reservation token
  let w₁ := w.putSurface surface (surfaceFor t (r.backing.getD 0) r.mode)
  let change (d : KDisplay) : KDisplay :=
    { d with
      surface := some surface
      currentMode := r.mode
      isAttachedToDesktop := true
      topologyDegraded := false
      modeGeneration := d.modeGeneration + 1 }
  let w₂ := w₁.setDisplay t change
  have hput : SameDesk w w₁ := .of_eq rfl rfl rfl rfl rfl
  have harrived : Arrived path t surface r.mode w₂ := by
    refine ⟨hsource, hreserved ▸ hmode, change d, ?_, hpresent, hkept, hid, rfl, rfl⟩
    show (w.displays.modify t change)[t]? = _
    rw [List.getElem?_modify_eq, hd]
    rfl
  -- only the end of the reservation follows
  have hfinish : SameDesk w₂ _ := SameDesk.of_tokens (TokensOnly.finish (some t) token true) w₂
  exact ⟨(DeskOk.setDisplay (hdesk.same hput) t change).same hfinish, harrived.same hfinish⟩

/-- A mode change that failed leaves the desktop coherent, one that is done leaves out its target.
-/
theorem programDisplayMode_after (path : VideoPresentPathInfo) (t token modeIndex : Nat) :
    Meets (fun w => DeskOk w ∧ Selected path t modeIndex w)
      (programDisplayMode o t token modeIndex) (AfterMode path t) := by
  refine .bind (R := fun v w => v = w ∧ DeskOk w ∧ Selected path t modeIndex w)
    (.get fun w hw => ⟨rfl, hw⟩) fun w => ?_
  have hgiveUp : ∀ error P, (∀ w, P w → DeskOk w) →
      Meets P (pure (Programmed.notAttempted error) : GfxM Programmed) (AfterMode path t) :=
    fun _ _ hP => .pure hP
  refine .ite (fun _ => hgiveUp _ _ fun _ h => h.2.1) fun _ => ?_
  refine .ite (fun _ => hgiveUp _ _ fun _ h => h.2.1) fun hbacked => ?_
  refine .bind (R := fun _ => Programming path t token modeIndex) (fun w' hw' => ?_) fun _ => ?_
  · obtain ⟨rfl, hdesk, hselected⟩ := hw'
    have hsame : SameDesk w _ := SameDesk.of_tokens (TokensOnly.setToken token fun t =>
      { t with reservation :=
        { t.reservation with mode := { t.reservation.mode with modeIndex := modeIndex } } }) w
    refine ⟨hdesk.same hsame, hselected.same hsame, ?_⟩
    have hbacking : (w.reservation token).backing.isSome := by
      simp only [Bool.or_eq_true, Bool.not_eq_true', not_or, Bool.not_eq_false] at hbacked
      exact Option.isSome_of_any hbacked.2
    exact congrArg (·.mode.modeIndex) (World.reservation_modify hbacking fun r =>
      { r with mode := { r.mode with modeIndex := modeIndex } })
  -- until the mode is programmed, only questions are asked
  have htraced : ∀ {α : Type} {x : GfxM α}, Does TraceOnly x →
      Meets (Programming path t token modeIndex) x fun _ => Programming path t token modeIndex :=
    fun hx w hw => hw.traced (hx w)
  -- a failure after that restores the mode and leaves the desktop alone
  have hrollBack : ∀ outcome before, Meets (Programming path t token modeIndex)
      (rollBack o t token modeIndex outcome before) (AfterMode path t) :=
    fun _ _ => afterMode_of_failed (SameDesk.rollBack o _ _ _ _ _) (.after fun _ => .after fun _ =>
      .after fun _ => .after fun _ => .ite (.after fun _ => .pure ⟨_, rfl⟩) (.pure ⟨_, rfl⟩))
  refine .bind (htraced (.of_asks (Asks.queryActualState o t))) fun before => ?_
  rcases before with error | before
  · exact hgiveUp _ _ fun _ h => h.desk
  refine .bind (htraced (.of_asks (Asks.targetSurface o t))) fun surface => ?_
  rcases surface with error | surface
  · exact hgiveUp _ _ fun _ h => h.desk
  refine .bind (htraced (.ask o _)) fun disabled => ?_
  cases disabled with
  | some _ =>
    refine afterMode_of_failed ?_ (.after fun _ => .after fun _ => .after fun _ => .pure ⟨_, rfl⟩)
    exact .bind (SameDesk.of_tokens (TokensOnly.finish _ _ _)) fun _ =>
      .bind (SameDesk.of_asks (Asks.queryActualState o t)) fun _ =>
      .bind (SameDesk.setDisplay fun _ => rfl) fun _ => .pure _
  | none =>
    refine .bind (htraced (.ask o _)) fun programmed => ?_
    cases programmed with
    | some _ => exact hrollBack 1 before
    | none =>
      refine .bind (htraced (.ite (.ask o _) (.pure _))) fun enabled => ?_
      cases enabled with
      | some _ => exact hrollBack 2 before
      | none => exact completeMode_after path t token surface modeIndex

/-! ### Moving the desktop -/

theorem DeskWhere.clearDesktop {P : Nat → Prop} (h : DeskWhere P w) : DeskOk w.clearDesktop := by
  refine ⟨⟨?_, fun source hsource hon => ?_, fun source hsource _ => ?_⟩, h.named⟩
  · show (w.desktopSource.map _).any KVideoPresentSource.active = false
    cases w.desktopSource with
    | none => rfl
    | some source => rfl
  · obtain ⟨_, -, rfl⟩ := Option.map_eq_some_iff.mp hsource
    exact nomatch hon
  · obtain ⟨_, -, rfl⟩ := Option.map_eq_some_iff.mp hsource
    exact ⟨rfl, rfl⟩

theorem DeskWhere.showTarget {P : Nat → Prop} (h : DeskWhere P w)
    (ht : Arrived path t surface mode w) : DeskOk (w.showTarget t (some surface) mode path) := by
  obtain ⟨hsome, hmode, d, hd, hpresent, hkept, hid, hsurface, hcurrent⟩ := ht
  refine ⟨⟨?_, fun source hsource _ => ?_, fun source hsource hoff => ?_⟩, h.named⟩
  · obtain ⟨source, hs⟩ := Option.isSome_iff_exists.mp hsome
    show (w.desktopSource.map _).any KVideoPresentSource.active = true
    rw [hs]
    rfl
  · obtain ⟨_, -, rfl⟩ := Option.map_eq_some_iff.mp hsource
    exact ⟨t, rfl, fun _ => ⟨d, rfl, hd, hpresent, hkept, hsurface.symm, hcurrent.symm, hid,
      hcurrent ▸ hmode⟩⟩
  · obtain ⟨_, -, rfl⟩ := Option.map_eq_some_iff.mp hsource
    exact nomatch hoff

/-- A target that went through, and the previous one, which could not be disabled. -/
structure Stuck (path : VideoPresentPathInfo) (t previous surface : Nat) (mode : KDisplayModeInfo)
    (w : World) : Prop where
  desk : DeskWhere (· ≠ t) w
  arrived : Arrived path t surface mode w
  previous : w.previousTarget t = some previous

theorem Stuck.same (h : SameDesk w w') (hw : Stuck path t previous surface mode w) :
    Stuck path t previous surface mode w' :=
  ⟨hw.desk.same h, hw.arrived.same h, by
    unfold World.previousTarget
    rw [h.source]
    exact hw.previous⟩

theorem Stuck.keep (hw : Stuck path t previous surface mode w) :
    DeskOk (w.setDesktop (fun source => { source with target := some previous, active := true })
      w.activePath w.activePathValid) := by
  obtain ⟨hprevious, hne⟩ := Option.filter_eq_some_iff.mp hw.previous
  obtain ⟨source, hsource, htarget⟩ := Option.bind_eq_some_iff.mp hprevious
  split at htarget
  next hon =>
    have hsame : w.setDesktop (fun source =>
        { source with target := some previous, active := true })
        w.activePath w.activePathValid = w := by
      unfold World.setDesktop
      rw [hsource, Option.map_some, ← htarget, ← hon, ← hsource]
    rw [hsame]
    refine ⟨⟨hw.desk.coherent.valid, fun source' hsource' hon' => ?_, hw.desk.coherent.inactive⟩,
      hw.desk.named⟩
    obtain ⟨t', ht', hshows⟩ := hw.desk.coherent.active source' hsource' hon'
    obtain rfl := Option.some.inj (hsource.symm.trans hsource')
    obtain rfl := Option.some.inj (htarget.symm.trans ht')
    exact ⟨previous, ht', fun _ => hshows (by simpa using hne)⟩
  · exact nomatch htarget

theorem splitDesktop_keeps :
    Meets (Stuck path t previous surface mode) (splitDesktop o t previous path)
      fun _ => DeskOk := by
  have hsame : ∀ {α : Type} {x : GfxM α}, Does SameDesk x →
      Meets (Stuck path t previous surface mode) x fun _ => Stuck path t previous surface mode :=
    fun hx w hw => hw.same (hx w)
  refine .bind (hsame .get) fun w => .before (hsame (.ask o _)) ?_ fun _ => rfl
  refine .bind (hsame (.of_asks (Asks.queryIf o _ _ _))) fun previousActual => ?_
  refine .bind (hsame (.of_asks (Asks.queryActualState o _))) fun targetActual => ?_
  refine .bind (hsame (.setDisplay fun _ => rfl)) fun _ => ?_
  refine .bind (hsame (.setDisplay fun _ => rfl)) fun _ => ?_
  have hend : Meets DeskOk (pure targetActual : GfxM (Except KernelError KDisplayActualState))
      fun _ => DeskOk := .pure fun _ h => h
  refine .ite (fun _ => .bind (.modify fun w hw => hw.keep) fun _ => hend) fun _ =>
    .ite (fun _ => .bind (.modify fun w hw => ?_) fun _ => hend) fun _ =>
    .bind (.modify fun w hw => hw.desk.clearDesktop) fun _ => hend
  obtain ⟨-, -, d, hd, -, -, -, hsurface, hmode⟩ := hw.arrived
  rw [hd]
  show DeskOk (w.showTarget t d.surface d.currentMode path)
  rw [hsurface, hmode]
  exact hw.desk.showTarget hw.arrived

theorem stuckEnd_some (previous : Nat) (disabled : ErrorCode) :
    Returns (fun r : Option Nat => ∀ p, r = some p → some previous = some p) (do
      match ← queryActualState o previous with
      | .ok state =>
        if disabled.isNone && state.known && !state.enabled then
          setDisplay previous fun d => { d with isAttachedToDesktop := false }
          return none
        else return some previous
      | .error _ => return some previous : GfxM (Option Nat)) := by
  refine .after fun actual => ?_
  rcases actual with error | state
  · exact .pure fun _ => id
  · exact .ite (.after fun _ => .pure nofun) (.pure fun _ => id)

theorem stuckPrevious_some (t : Nat) (w : World) :
    ∀ previous, ((stuckPrevious o t).run w).1 = some previous →
      w.previousTarget t = some previous := by
  refine Returns.of_get
    (Q := fun w r => ∀ previous, r = some previous →
      w.previousTarget t = some previous) (fun w => ?_) w
  cases w.previousTarget t with
  | none => exact .pure nofun
  | some previous =>
    exact .ite (.after (stuckEnd_some o previous)) (.after (stuckEnd_some o previous))

/-- Before the move the desktop may be wrong about the target `t` alone. -/
theorem moveDesktop_keeps
    {replacement : VideoPresentSnapshot} (h : ModesNamed replacement.targetModes) :
    Meets (fun w => DeskWhere (· ≠ t) w ∧ Arrived path t surface mode w)
      (moveDesktop o t surface mode path replacement) fun _ => DeskOk := by
  have hpublish : Does SameDesk (publishCommitted o replacement) := .publishCommitted o h
  refine .bind (R := fun r w => DeskWhere (· ≠ t) w ∧ Arrived path t surface mode w ∧
    ∀ previous, r = some previous → w.previousTarget t = some previous) (fun w hw => ?_) fun r => ?_
  · have hsame := SameDesk.stuckPrevious o t w
    refine ⟨hw.1.same hsame, hw.2.same hsame, fun previous hr => ?_⟩
    unfold World.previousTarget
    rw [hsame.source]
    exact stuckPrevious_some o t w previous hr
  cases r with
  | some previous =>
    have hstuck : Meets (Stuck path t previous surface mode) _ _ := splitDesktop_keeps o
    refine .bind (hstuck.weaken (fun w hw => ⟨hw.1, hw.2.1, hw.2.2 _ rfl⟩) fun _ _ => id)
      fun _ w hw => ?_
    exact hw.same (Does.bind hpublish (fun _ => .bind .get fun _ => .pure _) w)
  | none =>
    refine .bind (R := fun _ => DeskOk) (.modify fun w hw => hw.1.showTarget hw.2.1)
      fun _ w hw => ?_
    exact hw.same (Does.bind hpublish (fun _ => .bind .get fun _ =>
      .bind (SameDesk.of_asks (Asks.queryIf o _ _ _)) fun _ => .pure _) w)

theorem keepDesktop_keeps (t outcome : Nat) (path : VideoPresentPathInfo)
    {replacement : VideoPresentSnapshot} (h : ModesNamed replacement.targetModes) :
    Does (Keeps DeskOk) (keepDesktop o t outcome path replacement) := by
  have hrest : Does SameDesk (do
      publishCommitted o replacement
      let w ← get
      let actual ← queryIf o (hooksOf w t).queryActualState t .unsupported
      return resultOf t path outcome ((w.displays[t]?).any (·.topologyDegraded)) w actual) :=
    .bind (.publishCommitted o h) fun _ => .bind .get fun w =>
      .bind (.of_asks (Asks.queryIf o _ _ _)) fun _ => .pure _
  refine .bind (.modify fun w hw => ?_) fun _ => hrest.weaken fun _ _ => DeskWhere.same
  split
  · exact hw.clearDesktop
  · exact hw

end Commit

end UnDOS.Gfx
