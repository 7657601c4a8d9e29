import UnDOS.Disk.Watch

/-!
# Reads in Step

The reading path of the driver ends every command or gives the channel up
(`ataReadBatch_meets`).
-/

namespace UnDOS.Disk

open UnDOS.Lib

section Transfers

variable {d : Drives} {disk : AtaContext}

/-! ## Nothing is taken back -/

/-- The events start, at their old end, with those of `trace`. -/
def Grown (trace : List Event) (c : BusContext) : Prop := trace <:+ c.trace

variable {trace : List Event}

theorem emit_grown (e : Event) : Meets (Grown trace) (emit e) fun _ => Grown trace :=
  .modify fun _ hs => hs.trans (List.suffix_cons _ _)

theorem markUnusable_grown : Meets (Grown trace) markUnusable fun _ => Grown trace :=
  .modify fun _ hs => hs

theorem readStatus_grown (wait : Wait) :
    Meets (Grown trace) (readStatus d wait) fun _ => Grown trace :=
  fun _ hs => hs.trans (List.suffix_cons _ _)

theorem skipStatus_grown (n : Nat) : Meets (Grown trace) (skipStatus d n) fun _ => Grown trace := by
  induction n with
  | zero => exact .pure fun _ hs => hs
  | succ n ih => exact .bind (.get fun _ hs => hs) fun _ => .bind (emit_grown _) fun _ => ih

theorem ataWait_grown (wait : Wait) (data checkError : Bool) :
    Meets (Grown trace) (ataWait d wait data checkError) fun _ => Grown trace := by
  have hpolls : ∀ polls, Meets (Grown trace) (ataWaitPolls d wait data checkError polls)
      fun _ => Grown trace := by
    intro polls
    induction polls with
    | zero => exact .bind (emit_grown _) fun _ => .pure fun _ hs => hs
    | succ polls ih =>
      refine .bind (readStatus_grown wait) fun status => ?_
      exact .ite (fun _ => .pure fun _ hs => hs) fun _ => .ite (fun _ => ih) fun _ =>
        .ite (fun _ => .pure fun _ hs => hs) fun _ => .ite (fun _ => .pure fun _ hs => hs)
          fun _ => ih
  exact .bind (skipStatus_grown 4) fun _ => hpolls _

theorem ataWaitReadStatus_grown (wait : Wait) (expectData : Bool) :
    Meets (Grown trace) (ataWaitReadStatus d wait expectData) fun _ => Grown trace := by
  have hpolls : ∀ polls, Meets (Grown trace) (ataWaitReadPolls d wait expectData polls)
      fun _ => Grown trace := by
    intro polls
    induction polls with
    | zero => exact .bind (emit_grown _) fun _ => .pure fun _ hs => hs
    | succ polls ih =>
      refine .bind (readStatus_grown wait) fun status => ?_
      exact .ite (fun _ => .pure fun _ hs => hs) fun _ => .ite (fun _ => ih) fun _ =>
        .ite (fun _ => .pure fun _ hs => hs) fun _ => .ite (fun _ => .pure fun _ hs => hs)
          fun _ => ih
  exact hpolls _

theorem readClock_grown : Meets (Grown trace) (readClock d) fun _ => Grown trace :=
  fun _ hs => hs.trans (List.suffix_cons _ _)

theorem awaitTicks_grown (polls : Nat) (lastTime : UInt32) (elapsedTicks : Nat) :
    Meets (Grown trace) (awaitTicks d lastTime elapsedTicks polls) fun _ => Grown trace := by
  induction polls generalizing lastTime elapsedTicks with
  | zero => exact .pure fun _ hs => hs
  | succ polls ih =>
    refine .ite (fun _ => ?_) fun _ => .pure fun _ hs => hs
    exact .bind readClock_grown fun _ => .ite (fun _ => ih _ _) fun _ => ih _ _

theorem awaitIdle_grown (polls : Nat) : Meets (Grown trace) (awaitIdle d polls)
    fun _ => Grown trace := by
  induction polls with
  | zero => exact markUnusable_grown
  | succ polls ih =>
    exact .bind (readStatus_grown _) fun _ => .ite (fun _ => .pure fun _ hs => hs) fun _ => ih

theorem ataRecoverChannel_grown :
    Meets (Grown trace) (ataRecoverChannel d) fun _ => Grown trace := by
  refine .bind (.get fun _ hs => hs) fun c => .ite (fun _ => markUnusable_grown) fun _ => ?_
  refine .bind (emit_grown _) fun _ => .bind readClock_grown fun _ => ?_
  refine .bind (awaitTicks_grown _ _ _) fun _ => .bind (emit_grown _) fun _ => ?_
  exact .ite (fun _ => markUnusable_grown) fun _ =>
    .bind (skipStatus_grown 4) fun _ => awaitIdle_grown _

theorem inWords_grown (n : Nat) : Meets (Grown trace) (inWords d n) fun _ => Grown trace := by
  induction n with
  | zero => exact .pure fun _ hs => hs
  | succ n ih =>
    exact .bind (.get fun _ hs => hs) fun _ => .bind (emit_grown _) fun _ =>
      .bind ih fun _ => .pure fun _ hs => hs

theorem outWords_grown (sector : List UInt8) (i n : Nat) :
    Meets (Grown trace) (outWords sector i n) fun _ => Grown trace := by
  induction n generalizing i with
  | zero => exact .pure fun _ hs => hs
  | succ n ih => exact .bind (emit_grown _) fun _ => ih _

theorem readSectors_grown (sectors : Nat) :
    Meets (Grown trace) (readSectors d sectors) fun _ => Grown trace := by
  induction sectors with
  | zero =>
    refine .bind (ataWaitReadStatus_grown _ _) fun completed => .ite (fun _ => ?_) fun _ => ?_
    · exact .ite (fun _ => .bind ataRecoverChannel_grown fun _ => .pure fun _ hs => hs)
        fun _ => .pure fun _ hs => hs
    · exact .pure fun _ hs => hs
  | succ sectors ih =>
    refine .bind (ataWaitReadStatus_grown _ _) fun ready => .ite (fun _ => ?_) fun _ => ?_
    · exact .ite (fun _ => .bind ataRecoverChannel_grown fun _ => .pure fun _ hs => hs)
        fun _ => .pure fun _ hs => hs
    · exact .bind (inWords_grown _) fun _ => .bind ih fun _ => .pure fun _ hs => hs

theorem Broken.meets {α : Type} {x : AtaM α}
    (hx : ∀ trace, Meets (Grown trace) x fun _ => Grown trace) :
      Meets Broken x fun _ => Broken := by
  intro c hc
  obtain ⟨newer, hnewer⟩ := hx c.trace c (List.suffix_refl _)
  rw [Broken, ← hnewer]
  refine ⟨fun h => hc.1 fun e he => h e (List.mem_append_right _ he), fun h => hc.2 ?_⟩
  clear hnewer
  induction newer with
  | nil => exact h
  | cons e newer ih => exact ih h.1

/-! ## The reading path -/

variable {w : Watch} {status : UInt8}

theorem skipStatus_meets (n : Nat) : Meets (At w) (skipStatus d n) fun _ => At w := by
  induction n with
  | zero => exact .pure fun _ hs => hs
  | succ n ih =>
    exact .bind (.get fun _ hs => hs) fun _ =>
      .bind (emit_meets (e := .skipped _) trivial nofun) fun _ => ih

theorem readStatus_meets {wait : Wait} (hwait : wait.ofWrite = false) :
    Meets (At w) (readStatus d wait) fun status => At (w.step (.status wait status)) :=
  fun _ hs => hs.emit (fun h => by rw [hwait] at h; cases h) nofun

theorem emit_ready {e : Event} (he : e.Answered) (hc : e.isCommand = false)
    (hsettled : ∀ w : Watch, w.phase = .settled → (w.step e).phase = .settled) :
    Meets Ready (emit e) fun _ => Ready :=
  .modify fun _ ⟨_, hw, hphase⟩ =>
    ⟨_, hw.emit he fun hcommand => absurd (hc.symm.trans hcommand) nofun, hsettled _ hphase⟩

theorem skipStatus_ready (n : Nat) : Meets Ready (skipStatus d n) fun _ => Ready := by
  rintro c ⟨w, hw, hphase⟩
  exact ⟨w, skipStatus_meets n c hw, hphase⟩

theorem selection_settled (wait : Wait) (status : UInt8) (w : Watch) (h : w.phase = .settled) :
    (w.step (.status wait status)).phase = .settled := by
  dsimp only [Watch.step]
  split
  · exact h
  · rw [h]
    rfl

theorem selectDrive_ready (lba : Nat) : Meets Ready (selectDrive d disk lba) fun _ => Ready := by
  have hpolls : ∀ polls, Meets Ready (ataWaitPolls d .selection false false polls)
      fun _ => Ready := by
    intro polls
    induction polls with
    | zero =>
      exact .bind (emit_ready (e := .exhausted _) rfl rfl fun _ h => h) fun _ =>
        .pure fun _ hs => hs
    | succ polls ih =>
      refine .bind (R := fun _ => Ready) ?_ fun status => ?_
      · rintro c ⟨w, hw, hphase⟩
        exact ⟨_, readStatus_meets rfl c hw, selection_settled _ _ _ hphase⟩
      · exact .ite (fun _ => .pure fun _ hs => hs) fun _ => .ite (fun _ => ih) fun _ =>
          .ite (fun _ => .pure fun _ hs => hs) fun _ =>
            .ite (fun _ => .pure fun _ hs => hs) fun _ => ih
  refine .bind (emit_ready (e := .out .drive _) trivial rfl fun _ h => h) fun _ => ?_
  exact .bind (skipStatus_ready 4) fun _ => .bind (skipStatus_ready 4) fun _ => hpolls _

/-- The sectors that a value of the sector count register asks for. -/
def sectorsOf (value : UInt8) : Nat := if value = 0 then 256 else value.toNat

theorem issue_meets (sectorCount : UInt8) (lba : Nat) (command : UInt8) :
    Meets Ready (issue sectorCount lba command) fun _ =>
      At ⟨.data (dataWords command (sectorsOf sectorCount)), false, sectorsOf sectorCount⟩ := by
  rintro c ⟨w, hw, hphase⟩
  have h₁ := hw.emit (e := .out .features 0) trivial nofun
  have h₂ := h₁.emit (e := .out .sectorCount sectorCount) trivial nofun
  have h₃ := h₂.emit (e := .out .lbaLow (UInt8.ofNat lba)) trivial nofun
  have h₄ := h₃.emit (e := .out .lbaMid (UInt8.ofNat (lba >>> 8))) trivial nofun
  have h₅ := h₄.emit (e := .out .lbaHigh (UInt8.ofNat (lba >>> 16))) trivial nofun
  exact h₅.emit (e := .out .command command) trivial fun _ => hphase

theorem inWords_meets (n left sectors : Nat) :
    Meets (At ⟨.data (n + left), false, sectors⟩) (inWords d n)
      fun _ => At ⟨.data left, false, sectors⟩ := by
  induction n with
  | zero =>
    rw [Nat.zero_add]
    exact .pure fun _ hs => hs
  | succ n ih =>
    rw [Nat.add_right_comm]
    exact .bind (.get fun _ hs => hs) fun _ =>
      .bind (emit_meets (e := .inData _) trivial nofun) fun _ =>
        .bind ih fun _ => .pure fun _ hs => hs

theorem outWords_meets (sector : List UInt8) (i n left sectors : Nat) :
    Meets (At ⟨.data (n + left), false, sectors⟩) (outWords sector i n)
      fun _ => At ⟨.data left, false, sectors⟩ := by
  induction n generalizing i with
  | zero =>
    rw [Nat.zero_add]
    exact .pure fun _ hs => hs
  | succ n ih =>
    rw [Nat.add_right_comm]
    exact .bind (emit_meets (e := .outData _) trivial nofun) fun _ => ih _

/-- The reset brings the channel back to a known state from any other. -/
theorem ataRecoverChannel_meets :
    Meets (At w) (ataRecoverChannel d) fun _ => Kept := by
  have hunusable : ∀ {w : Watch}, Meets (At w) markUnusable fun _ => Kept := fun {w} =>
    .modify fun _ hs => ⟨hs.answered, hs.inStep, .inr rfl⟩
  have hclock : ∀ {w : Watch}, Meets (At w) (readClock d) fun _ => At w := fun {w} _ hs =>
    hs.emit (e := .clock _) trivial nofun
  have hticks : ∀ {w : Watch} polls lastTime elapsedTicks,
      Meets (At w) (awaitTicks d lastTime elapsedTicks polls) fun _ => At w := by
    intro w polls
    induction polls with
    | zero => exact fun _ _ => .pure fun _ hs => hs
    | succ polls ih =>
      refine fun _ _ => .ite (fun _ => ?_) fun _ => .pure fun _ hs => hs
      exact .bind hclock fun _ => .ite (fun _ => ih _ _) fun _ => ih _ _
  have hidle : ∀ {sectors : Nat} polls,
      Meets (At ⟨.released, false, sectors⟩) (awaitIdle d polls) fun _ => Kept := by
    intro sectors polls
    induction polls with
    | zero => exact hunusable
    | succ polls ih =>
      refine .bind (readStatus_meets rfl) fun status => .ite (fun hidle => ?_) fun hidle => ?_
      · refine .pure fun c hs => Ready.kept ⟨_, hs, ?_⟩
        exact if_pos hidle
      · have hstay : Phase.seen status .released = .released := if_neg hidle
        simp only [Watch.step, hstay]
        exact ih
  refine .bind (.get fun _ hs => hs) fun c => .ite (fun _ => hunusable) fun _ => ?_
  refine .bind (emit_meets (e := .control 0x04) trivial nofun) fun _ => .bind hclock fun _ => ?_
  refine .bind (hticks _ _ _) fun _ => .bind (emit_meets (e := .control 0) trivial nofun)
    fun _ => ?_
  exact .ite (fun _ => hunusable) fun _ => .bind (skipStatus_meets 4) fun _ => hidle _

theorem step_data_stays {wait : Wait} {left sectors : Nat}
    (h : quiet status = false ∨ left ≠ 0 ∧ failed status = false) :
    Watch.step ⟨.data left, false, sectors⟩ (.status wait status) =
      ⟨.data left, false, sectors⟩ := by
  have hstay : (quiet status && (left == 0 || failed status)) = false := by
    rcases h with hquiet | ⟨hleft, hfailed⟩
    · rw [hquiet, Bool.false_and]
    · rw [hfailed, beq_false_of_ne hleft, Bool.or_self, Bool.and_false]
  have hseen : Phase.seen status (.data left) = .data left := by
    apply if_neg
    rw [hstay]
    exact Bool.false_ne_true
  show Watch.mk (Phase.seen status (.data left)) false sectors = _
  rw [hseen]

theorem step_data_settles {wait : Wait} {left sectors : Nat}
    (hquiet : quiet status = true) (h : left = 0 ∨ failed status = true) :
    (Watch.step ⟨.data left, false, sectors⟩ (.status wait status)).phase = .settled := by
  have hend : (left == 0 || failed status) = true := by
    rcases h with hleft | hfailed
    · rw [hleft, beq_self_eq_true, Bool.true_or]
    · rw [hfailed, Bool.or_true]
  apply if_pos
  rw [hquiet, hend]
  rfl

theorem quiet_of_floating (h : floating status = true) : quiet status = false := by
  unfold quiet
  rw [h]
  rfl

theorem quiet_of_busy (h : busy status = true) : quiet status = false := by
  unfold quiet
  rw [h, Bool.not_true, Bool.and_false, Bool.false_and]

theorem quiet_of_dataRequest (h : dataRequest status = true) :
    quiet status = false := by
  unfold quiet
  rw [h, Bool.not_true, Bool.and_false]

theorem quiet_of_not (hfloating : ¬floating status = true)
    (hbusy : ¬busy status = true) (hdata : dataRequest status = false) : quiet status = true := by
  unfold quiet
  rw [Bool.not_eq_true] at hfloating hbusy
  rw [hfloating, hbusy, hdata]
  rfl

/-- The ends of a wait of the reading path. -/
def ReadEnd (w : Watch) (expectData : Bool) (r : AtaReadWaitResult) (c : BusContext) : Prop :=
  match r.status with
  | none => if expectData then At w c else Ready c
  | some _ => if r.uncertain then At w c else Ready c

theorem ataWaitReadStatus_meets {wait : Wait} {expectData : Bool} {left sectors : Nat}
    (hwait : wait.ofWrite = false) (hleft : expectData = (left != 0)) :
    Meets (At ⟨.data left, false, sectors⟩) (ataWaitReadStatus d wait expectData)
      (ReadEnd ⟨.data left, false, sectors⟩ expectData) := by
  have hpolls : ∀ polls, Meets (At ⟨.data left, false, sectors⟩)
      (ataWaitReadPolls d wait expectData polls)
      (ReadEnd ⟨.data left, false, sectors⟩ expectData) := by
    intro polls
    induction polls with
    | zero =>
      exact .bind (emit_meets (e := .exhausted wait) hwait nofun) fun _ => .pure fun _ hs => hs
    | succ polls ih =>
      refine .bind (readStatus_meets hwait) fun status => ?_
      -- The branches of the routine, and in each what the status was for the watcher.
      refine .ite (fun hfloating => ?_) fun hfloating => ?_
      · rw [step_data_stays (.inl (quiet_of_floating hfloating))]
        exact .pure fun _ hs => hs
      refine .ite (fun hbusy => ?_) fun hbusy => ?_
      · rw [step_data_stays (.inl (quiet_of_busy hbusy))]
        exact ih
      refine .ite (fun hfailed => .pure fun c hs => ?_) fun hfailed => ?_
      · cases hdata : dataRequest status with
        | true =>
          rw [step_data_stays (.inl (quiet_of_dataRequest hdata))] at hs
          exact hs
        | false =>
          exact ⟨_, hs, step_data_settles (quiet_of_not hfloating hbusy hdata) (.inr hfailed)⟩
      rw [Bool.not_eq_true] at hfailed
      cases expectData with
      | true =>
        have hdue : left ≠ 0 := bne_iff_ne.mp hleft.symm
        rw [step_data_stays (.inr ⟨hdue, hfailed⟩)]
        exact .ite (fun _ => .pure fun _ hs => hs) fun _ => ih
      | false =>
        have hdone : left = 0 := by simpa using hleft
        refine .ite (fun hdata => .pure fun c hs => ?_) fun hdata => ?_
        · exact ⟨_, hs, step_data_settles (quiet_of_not hfloating hbusy (beq_iff_eq.mp hdata))
            (.inl hdone)⟩
        · have hpending : dataRequest status = true := by simpa using hdata
          rw [step_data_stays (.inl (quiet_of_dataRequest hpending))]
          exact ih
  exact hpolls _

/-- The ends of a routine of the reading path. -/
def Ended (status : ErrorCode) (c : BusContext) : Prop :=
  match status with
  | none => Ready c
  | some _ => Kept c

theorem Ended.kept {status : ErrorCode} {c : BusContext} (h : Ended status c) : Kept c := by
  cases status with
  | none => exact Ready.kept h
  | some _ => exact h

theorem recover_meets {status : ErrorCode} {uncertain : Bool}
    (hstatus : status.isSome = true) (bytes : List UInt8) :
    Meets (fun c => if uncertain then At w c else Ready c)
      (do
        if uncertain then ataRecoverChannel d
        return (bytes, status))
      fun r => Ended r.2 := by
  obtain ⟨code, rfl⟩ := Option.isSome_iff_exists.mp hstatus
  cases uncertain with
  | true => exact .bind ataRecoverChannel_meets fun _ => .pure fun _ hs => hs
  | false => exact .pure fun _ hs => Ready.kept hs

theorem readEnd_some {expectData : Bool} {r : AtaReadWaitResult}
    (h : r.status.isSome = true) (c : BusContext) (hr : ReadEnd w expectData r c) :
    if r.uncertain then At w c else Ready c := by
  obtain ⟨code, hcode⟩ := Option.isSome_iff_exists.mp h
  unfold ReadEnd at hr
  rw [hcode] at hr
  exact hr

theorem readEnd_none {expectData : Bool} {r : AtaReadWaitResult}
    (h : ¬r.status.isSome = true) (c : BusContext) (hr : ReadEnd w expectData r c) :
    if expectData then At w c else Ready c := by
  have hnone : r.status = none := by simpa using h
  unfold ReadEnd at hr
  rw [hnone] at hr
  exact hr

theorem readSectors_meets (n sectors : Nat) :
    Meets (At ⟨.data (kAtaSectorSize / 2 * n), false, sectors⟩) (readSectors d n)
      fun r => Ended r.2 := by
  induction n with
  | zero =>
    refine .bind (ataWaitReadStatus_meets rfl rfl) fun completed => .ite (fun h => ?_) fun h => ?_
    · exact (recover_meets h []).weaken (readEnd_some h) fun _ _ hq => hq
    · exact .pure (readEnd_none h)
  | succ n ih =>
    have hdue : kAtaSectorSize / 2 * (n + 1) ≠ 0 :=
      Nat.mul_ne_zero (by decide) (Nat.succ_ne_zero n)
    have hwords : kAtaSectorSize / 2 * (n + 1) = kAtaSectorSize / 2 + kAtaSectorSize / 2 * n := by
      rw [Nat.mul_succ, Nat.add_comm]
    rw [readSectors]
    -- Nothing depends on how many words a sector has, and the literal is slow to compare.
    generalize kAtaSectorSize / 2 = words at *
    refine .bind (ataWaitReadStatus_meets rfl (bne_iff_ne.mpr hdue).symm) fun ready =>
      .ite (fun h => ?_) fun h => ?_
    · exact (recover_meets h []).weaken (readEnd_some h) fun _ _ hq => hq
    · rw [hwords]
      refine .bind ((inWords_meets words (words * n) sectors).weaken (readEnd_none h)
        fun _ _ hq => hq) fun sector => ?_
      exact .bind ih fun _ => .pure fun _ hs => hs

/-- A batch of a read or of part of a write leaves the channel settled or given up. -/
theorem ataReadBatch_meets (lba : Nat) {n : Nat} (hpos : 0 < n) (hn : n ≤ 256) :
    Meets Ready (ataReadBatch d disk lba n) fun r => Ended r.2 := by
  refine .bind (selectDrive_ready lba) fun status => ?_
  cases status with
  | some status => exact .pure fun _ hs => Ready.kept hs
  | none =>
    refine .bind (issue_meets _ _ _) fun _ => ?_
    have hsectors : sectorsOf (if n = 256 then 0 else UInt8.ofNat n) = n := by
      unfold sectorsOf
      by_cases h256 : n = 256
      · rw [if_pos h256, if_pos rfl, h256]
      · have hval : (UInt8.ofNat n).toNat = n := by
          rw [UInt8.toNat_ofNat']
          omega
        have hne : UInt8.ofNat n ≠ 0 := fun h => by
          rw [h] at hval
          exact absurd hval (Nat.ne_of_lt hpos)
        rw [if_neg h256, if_neg hne, hval]
    rw [hsectors]
    exact readSectors_meets n n

end Transfers

end UnDOS.Disk
