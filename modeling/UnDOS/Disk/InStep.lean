import UnDOS.Disk.Reading

/-!
# Commands in Step

The writing path neither ends a command nor gives the channel up when a wait of its own goes
wrong.  So the transfers are in step exactly while the drives answer the waits of the writes in
order (`serve_inStep_iff`).
-/

namespace UnDOS.Disk

open UnDOS.Lib

section Transfers

variable {d : Drives} {disk : AtaContext}

/-! ## The writing path -/

variable {c : BusContext}

theorem At.astray {w : Watch} (h : At w c) {e : Event} (he : ¬e.Answered)
    (hphase : (w.step e).phase ≠ .settled) : Astray { c with trace := e :: c.trace } := by
  refine ⟨fun hall => he (writesAnswered_cons.mp hall).1, h.usable, ?_⟩
  show ((watch c.trace).step e).phase ≠ .settled
  rw [h.watched]
  exact hphase

theorem readStatus_write_meets {wait : Wait} {left sectors : Nat} :
    Meets (At ⟨.data left, false, sectors⟩) (readStatus d wait) fun status c =>
      (Event.status wait status).Answered ∧
          At (Watch.step ⟨.data left, false, sectors⟩ (.status wait status)) c ∨
        ¬(Event.status wait status).Answered ∧ Astray c := by
  intro c hc
  by_cases h : (Event.status wait (d.status c.trace)).Answered
  · exact .inl ⟨h, hc.emit h nofun⟩
  · refine .inr ⟨h, hc.astray h ?_⟩
    have hquiet : quiet (d.status c.trace) = false := by
      by_contra hquiet
      rw [Bool.not_eq_false] at hquiet
      refine h fun _ => ⟨?_, fun _ hdata => ?_⟩
      · by_contra hfloating
        rw [Bool.not_eq_false] at hfloating
        rw [quiet_of_floating hfloating] at hquiet
        cases hquiet
      · rw [quiet_of_dataRequest hdata] at hquiet
        cases hquiet
    rw [step_data_stays (.inl hquiet)]
    exact nofun

/-- The ends of a wait of the writing path. -/
def WriteEnd (w : Watch) (data : Bool) (status : ErrorCode) (c : BusContext) : Prop :=
  match status with
  | none => if data then At w c else Ready c ∨ Astray c
  | some _ => Ready c ∨ Astray c

theorem ataWait_meets {wait : Wait} {data : Bool} {left sectors : Nat}
    (hwait : wait.ofWrite = true) (hdata : data = (wait == .sectorData))
    (hleft : data = (left != 0)) :
    Meets (At ⟨.data left, false, sectors⟩) (ataWait d wait data true)
      (WriteEnd ⟨.data left, false, sectors⟩ data) := by
  have hpolls : ∀ polls, Meets (At ⟨.data left, false, sectors⟩)
      (ataWaitPolls d wait data true polls) (WriteEnd ⟨.data left, false, sectors⟩ data) := by
    intro polls
    induction polls with
    | zero =>
      refine .bind (R := fun _ => Astray) (.modify fun c hs => ?_) fun _ => .pure
        fun _ hs => .inr hs
      -- The polls are used up while the drive still owes its answer.
      refine hs.astray (fun h => ?_) nofun
      rw [Event.Answered, hwait] at h
      cases h
    | succ polls ih =>
      refine .bind readStatus_write_meets fun status => ?_
      refine .ite (fun hfloating => .pure fun c hs => ?_) fun hfloating => ?_
      · rcases hs with ⟨hanswered, -⟩ | ⟨-, hs⟩
        · rw [(hanswered hwait).1] at hfloating
          cases hfloating
        · exact .inr hs
      rw [Bool.not_eq_true] at hfloating
      refine .ite (fun hbusy => ih.weaken (fun c hs => ?_) fun _ _ hq => hq) fun hbusy => ?_
      · rcases hs with ⟨-, hs⟩ | ⟨hnot, -⟩
        · rw [step_data_stays (.inl (quiet_of_busy hbusy))] at hs
          exact hs
        · refine absurd (fun _ => ⟨hfloating, fun hidle => ?_⟩) hnot
          rw [hbusy] at hidle
          cases hidle
      have hidle : busy status = false := Bool.not_eq_true _ ▸ hbusy
      have hthere : ¬floating status = true := Bool.not_eq_true _ ▸ hfloating
      rw [Bool.true_and]
      refine .ite (fun hfailed => .pure fun c hs => ?_) fun hfailed => ?_
      · rcases hs with ⟨hanswered, hs⟩ | ⟨-, hs⟩
        · refine .inl ⟨_, hs, step_data_settles (quiet_of_not hthere hbusy ?_) (.inr hfailed)⟩
          by_contra hpending
          have := ((hanswered hwait).2 hidle (Bool.not_eq_false _ ▸ hpending)).2
          rw [hfailed] at this
          cases this
        · exact .inr hs
      rw [Bool.not_eq_true] at hfailed
      -- What is left of the answers depends on whether the sector is due.
      cases data with
      | true =>
        have hsector : wait = .sectorData := beq_iff_eq.mp hdata.symm
        have hanswered : (Event.status wait status).Answered :=
          fun _ => ⟨hfloating, fun _ _ => ⟨hsector, hfailed⟩⟩
        have hdue : left ≠ 0 := bne_iff_ne.mp hleft.symm
        rw [step_data_stays (.inr ⟨hdue, hfailed⟩)]
        refine .weaken (P := At ⟨.data left, false, sectors⟩) ?_ (fun c hs => ?_) fun _ _ hq => hq
        · exact .ite (fun _ => .pure fun _ hs => hs) fun _ => ih
        · exact hs.elim (fun hs => hs.2) fun hs => absurd hanswered hs.1
      | false =>
        have hdone : left = 0 := by simpa using hleft
        refine .ite (fun _ => .pure fun c hs => ?_) fun h => absurd rfl h
        rcases hs with ⟨hanswered, hs⟩ | ⟨-, hs⟩
        · refine .inl ⟨_, hs, step_data_settles (quiet_of_not hthere hbusy ?_) (.inl hdone)⟩
          by_contra hpending
          have hsector := ((hanswered hwait).2 hidle (Bool.not_eq_false _ ▸ hpending)).1
          rw [hsector] at hdata
          cases hdata
        · exact .inr hs
  exact .bind (skipStatus_meets 4) fun _ => hpolls _

/-! ## Channels that are lost -/

/-- Astray, with a drive selected since. -/
def Adrift (c : BusContext) : Prop := Astray c ∧ (watch c.trace).selecting = true

theorem Astray.emit (h : Astray c) {e : Event}
    (hphase : ((watch c.trace).step e).phase = (watch c.trace).phase) :
    Astray { c with trace := e :: c.trace } := by
  refine ⟨fun hall => h.1 (writesAnswered_cons.mp hall).2, h.2.1, ?_⟩
  show ((watch c.trace).step e).phase ≠ .settled
  rw [hphase]
  exact h.2.2

theorem emit_adrift {e : Event} (hphase : ∀ w : Watch, w.selecting = true →
    (w.step e).phase = w.phase ∧ (w.step e).selecting = true) :
    Meets Adrift (emit e) fun _ => Adrift :=
  .modify fun _ hs => ⟨hs.1.emit (hphase _ hs.2).1, (hphase _ hs.2).2⟩

theorem readStatus_adrift (wait : Wait) : Meets Adrift (readStatus d wait) fun _ => Adrift := by
  intro c hc
  have hstep : (watch c.trace).step (.status wait (d.status c.trace)) = watch c.trace :=
    if_pos hc.2
  exact ⟨hc.1.emit (congrArg Watch.phase hstep), (congrArg Watch.selecting hstep).trans hc.2⟩

theorem skipStatus_adrift (n : Nat) : Meets Adrift (skipStatus d n) fun _ => Adrift := by
  induction n with
  | zero => exact .pure fun _ hs => hs
  | succ n ih =>
    exact .bind (.get fun _ hs => hs) fun _ => .bind (emit_adrift fun _ h => ⟨rfl, h⟩) fun _ => ih

theorem selectDrive_adrift (lba : Nat) : Meets Astray (selectDrive d disk lba) fun _ => Adrift := by
  have hpolls : ∀ polls, Meets Adrift (ataWaitPolls d .selection false false polls)
      fun _ => Adrift := by
    intro polls
    induction polls with
    | zero =>
      exact .bind (emit_adrift (e := .exhausted _) fun _ h => ⟨rfl, h⟩) fun _ => .pure
        fun _ hs => hs
    | succ polls ih =>
      refine .bind (readStatus_adrift _) fun status => ?_
      exact .ite (fun _ => .pure fun _ hs => hs) fun _ => .ite (fun _ => ih) fun _ =>
        .ite (fun _ => .pure fun _ hs => hs) fun _ => .ite (fun _ => .pure fun _ hs => hs)
          fun _ => ih
  refine .bind (R := fun _ => Adrift) (.modify fun _ hs => ⟨hs.emit rfl, rfl⟩) fun _ => ?_
  exact .bind (skipStatus_adrift 4) fun _ => .bind (skipStatus_adrift 4) fun _ => hpolls _

theorem command_astray (value : UInt8) : Meets Astray (out8 .command value) fun _ => Broken :=
  .modify fun _ hs =>
    ⟨fun hall => hs.1 (writesAnswered_cons.mp hall).2, fun hin => hs.2.2 (hin.2 rfl)⟩

theorem selectDrive_lost (lba : Nat) :
    Meets Lost (selectDrive d disk lba) fun _ c => Adrift c ∨ Broken c := by
  refine .or ((selectDrive_adrift lba).weaken (fun _ hs => hs) fun _ _ hq => .inl hq) ?_
  refine (Broken.meets fun trace => ?_).weaken (fun _ hs => hs) fun _ _ hq => .inr hq
  exact .bind (emit_grown _) fun _ => .bind (skipStatus_grown 4) fun _ => ataWait_grown _ _ _

theorem issue_grown {trace : List Event} (sectorCount : UInt8) (lba : Nat) (command : UInt8) :
    Meets (Grown trace) (issue sectorCount lba command) fun _ => Grown trace :=
  .bind (emit_grown _) fun _ => .bind (emit_grown _) fun _ => .bind (emit_grown _) fun _ =>
    .bind (emit_grown _) fun _ => .bind (emit_grown _) fun _ => emit_grown _

theorem issue_lost (sectorCount : UInt8) (lba : Nat) (command : UInt8) :
    Meets (fun c => Adrift c ∨ Broken c) (issue sectorCount lba command) fun _ => Broken := by
  refine .or ?_ (Broken.meets fun _ => issue_grown _ _ _)
  have hout : ∀ register value, register ≠ .command →
      Meets Adrift (out8 register value) fun _ => Adrift := by
    intro register value hregister
    refine emit_adrift fun w h => ?_
    cases register with
    | command => exact absurd rfl hregister
    | drive => exact ⟨rfl, rfl⟩
    | features | sectorCount | lbaLow | lbaMid | lbaHigh => exact ⟨rfl, h⟩
  refine .bind (hout _ _ nofun) fun _ => .bind (hout _ _ nofun) fun _ => ?_
  refine .bind (hout _ _ nofun) fun _ => .bind (hout _ _ nofun) fun _ => ?_
  refine .bind (hout _ _ nofun) fun _ => ?_
  exact (command_astray command).weaken (fun _ hs => hs.1) fun _ _ hq => hq

theorem adrift_or_broken_lost (h : Adrift c ∨ Broken c) : Lost c :=
  h.imp_left fun h => h.1

theorem ataReadBatch_lost (lba n : Nat) : Meets Lost (ataReadBatch d disk lba n) fun _ => Lost := by
  refine .bind (selectDrive_lost lba) fun status => ?_
  cases status with
  | some status => exact .pure fun _ hs => adrift_or_broken_lost hs
  | none =>
    refine .bind (issue_lost _ _ _) fun _ => ?_
    exact (Broken.meets fun _ => readSectors_grown n).weaken (fun _ hs => hs) fun _ _ hq => .inr hq

theorem ataSector_lost (lba : Nat) (sector : List UInt8) :
    Meets Lost (ataSector d disk lba sector true) fun _ => Lost := by
  refine .bind (selectDrive_lost lba) fun status => ?_
  cases status with
  | some status => exact .pure fun _ hs => adrift_or_broken_lost hs
  | none =>
    refine .bind (issue_lost _ _ _) fun _ => ?_
    refine .bind (Broken.meets fun _ => ataWait_grown _ _ _) fun status => ?_
    cases status with
    | some status => exact .pure fun _ hs => .inr hs
    | none =>
      refine .bind (Broken.meets fun _ => outWords_grown _ _ _) fun _ => ?_
      exact .bind (Broken.meets fun _ => ataWait_grown _ _ _) fun _ => .pure fun _ hs => .inr hs

/-! ## Transfers -/

theorem WriteEnd.ended {w : Watch} {status : ErrorCode}
    (h : WriteEnd w false status c) : Ended status c ∨ Lost c := by
  cases status with
  | none => exact h.imp_right .inl
  | some status => exact h.imp Ready.kept .inl

theorem ataSector_meets (lba : Nat) (sector : List UInt8) :
    Meets Ready (ataSector d disk lba sector true) fun r c => Ended r.2 c ∨ Lost c := by
  refine .bind (selectDrive_ready lba) fun status => ?_
  cases status with
  | some status => exact .pure fun _ hs => .inl (Ready.kept hs)
  | none =>
    refine .bind (issue_meets 1 lba 0x30) fun _ => ?_
    have hwords : dataWords 0x30 (sectorsOf 1) = kAtaSectorSize / 2 + 0 := by decide
    rw [hwords]
    refine .bind (ataWait_meets rfl rfl rfl) fun status => ?_
    cases status with
    | some status => exact .pure fun _ hs => hs.imp Ready.kept .inl
    | none =>
      refine .bind (outWords_meets sector 0 (kAtaSectorSize / 2) 0 _) fun _ => ?_
      exact .bind (ataWait_meets rfl rfl rfl) fun status => .pure fun _ hs => WriteEnd.ended hs

theorem batch_le (e : Extent disk) : e.batch ≤ 256 :=
  Nat.le_trans (Nat.min_le_left _ _) (Nat.min_le_left _ _)

variable {sound : Prop}

theorem meets_or_lost {α : Type} {x : AtaM (α × ErrorCode)}
    (hx : Meets Ready x fun r c => Ended r.2 c ∨ Lost c) (hlost : Meets Lost x fun _ => Lost) :
    Meets (fun c => sound ∧ Ready c ∨ Lost c) x fun r c => sound ∧ Ended r.2 c ∨ Lost c := by
  rintro c (⟨hsound, hc⟩ | hc)
  · exact (hx c hc).imp_left fun hend => ⟨hsound, hend⟩
  · exact .inr (hlost c hc)

theorem ataReadBatch_ended (lba : Nat) {n : Nat} (hpos : 0 < n) (hn : n ≤ 256) :
    Meets (fun c => sound ∧ Ready c ∨ Lost c) (ataReadBatch d disk lba n)
      fun r c => sound ∧ Ended r.2 c ∨ Lost c :=
  meets_or_lost ((ataReadBatch_meets lba hpos hn).weaken (fun _ hs => hs) fun _ _ hq => .inl hq)
    (ataReadBatch_lost lba n)

theorem ended_none {status : ErrorCode} (h : ¬status.isSome = true) (c : BusContext)
    (hc : sound ∧ Ended status c ∨ Lost c) : sound ∧ Ready c ∨ Lost c := by
  have hnone : status = none := by simpa using h
  rw [hnone] at hc
  exact hc

theorem ended_kept {status : ErrorCode} (c : BusContext)
    (hc : sound ∧ Ended status c ∨ Lost c) : sound ∧ Kept c ∨ Lost c :=
  hc.imp_left (And.imp_right Ended.kept)

theorem readTail_meets (e : Extent disk) :
    Meets (fun c => sound ∧ Ready c ∨ Lost c) (readTail d e) fun _ c => sound ∧ Kept c ∨
      Lost c := by
  refine .ite (fun _ => .pure fun _ hs => hs.imp_left (And.imp_right Ready.kept)) fun _ => ?_
  refine .bind (ataReadBatch_ended _ Nat.one_pos (by decide)) fun r => ?_
  exact .ite (fun _ => .pure ended_kept) fun _ => .pure ended_kept

theorem readBatches_meets (e : Extent disk) :
    Meets (fun c => sound ∧ Ready c ∨ Lost c) (readBatches d e) fun _ c => sound ∧ Kept c ∨
      Lost c := by
  induction e using readBatches.induct with
  | case1 e h ih =>
    rw [readBatches, dif_pos h]
    refine .bind (ataReadBatch_ended _ (e.batch_pos h) (batch_le e)) fun r => ?_
    refine .ite (fun _ => .pure ended_kept) fun hstatus => ?_
    exact .bind (ih.weaken (ended_none hstatus) fun _ _ hq => hq) fun _ => .pure fun _ hs => hs
  | case2 e h =>
    rw [readBatches, dif_neg h]
    exact readTail_meets e

theorem readExtent_meets (e : Extent disk) :
    Meets (fun c => sound ∧ Ready c ∨ Lost c) (readExtent d e) fun _ c => sound ∧ Kept c ∨
      Lost c := by
  refine .ite (fun _ => readBatches_meets e) fun _ => ?_
  refine .bind (ataReadBatch_ended _ Nat.one_pos (by decide)) fun r => ?_
  refine .ite (fun _ => .pure ended_kept) fun hstatus => ?_
  exact .bind ((readBatches_meets _).weaken (ended_none hstatus) fun _ _ hq => hq) fun _ =>
    .pure fun _ hs => hs

theorem partialSector_meets (e : Extent disk) :
    Meets (fun c => sound ∧ Ready c ∨ Lost c) (partialSector d e) fun r c => sound ∧ Ended r.2 c ∨
      Lost c :=
  .ite (fun _ => ataReadBatch_ended _ Nat.one_pos (by decide)) fun _ => .pure fun _ hs => hs

theorem writeSector_meets (e : Extent disk) (writeBuffer : List UInt8) :
    Meets (fun c => sound ∧ Ready c ∨ Lost c) (writeSector d e writeBuffer)
      fun status c => sound ∧ Ended status c ∨ Lost c := by
  refine .bind (partialSector_meets e) fun r => .ite (fun _ => .pure fun _ hs => hs) fun hpart => ?_
  refine .bind ((meets_or_lost (ataSector_meets _ _) (ataSector_lost _ _)).weaken
    (ended_none hpart) fun _ _ hq => hq) fun r => ?_
  refine .ite (fun _ => .pure fun _ hs => hs) fun hsector => ?_
  -- The flush: a command on a settled channel, and out of step on one that is astray.
  have hflush : Meets (fun c => sound ∧ Ready c ∨ Lost c)
      (do
        out8 .command 0xe7
        ataWait d .flush false true) fun status c => sound ∧ Ended status c ∨ Lost c := by
    refine .or (.bind ((command_meets 0xe7).and_const) fun _ => ?_) ?_
    · rintro c ⟨hsound, sectors, hc⟩
      exact (WriteEnd.ended (ataWait_meets rfl rfl rfl c hc)).imp_left fun hend => ⟨hsound, hend⟩
    · have hbroken : Meets Lost (out8 .command 0xe7) fun _ => Broken :=
        .or (command_astray _) (Broken.meets fun _ => emit_grown _)
      exact .bind hbroken fun _ => (Broken.meets fun _ => ataWait_grown _ _ _).weaken
        (fun _ hs => hs) fun _ _ hq => .inr (.inr hq)
  exact hflush.weaken (ended_none hsector) fun _ _ hq => hq

theorem writeExtent_meets (e : Extent disk) (writeBuffer : List UInt8) :
    Meets (fun c => sound ∧ Ready c ∨ Lost c) (writeExtent d e writeBuffer) fun _ c => sound ∧
      Kept c ∨ Lost c := by
  induction e, writeBuffer using writeExtent.induct with
  | case1 e writeBuffer h ih =>
    rw [writeExtent, dif_pos h]
    refine .bind (writeSector_meets e writeBuffer) fun status => ?_
    refine .ite (fun _ => .pure ended_kept) fun hstatus => ?_
    exact .bind (ih.weaken (ended_none hstatus) fun _ _ hq => hq) fun _ => .pure fun _ hs => hs
  | case2 e writeBuffer h =>
    rw [writeExtent, dif_neg h]
    exact .pure fun _ hs => hs.imp_left (And.imp_right Ready.kept)

theorem Kept.ready (h : Kept c) (husable : c.unusable = false) : Ready c := by
  obtain ⟨hanswered, hinStep, hend⟩ := h
  refine ⟨watch c.trace, ⟨rfl, hinStep, hanswered, husable⟩, ?_⟩
  rcases hend with hend | hend
  · exact hend
  · rw [husable] at hend
    cases hend

/-- A transfer keeps the driver in step, or the device has already broken its protocol. -/
theorem ataTransfer_meets (sound : Prop) (device : Option Device) (offset : Nat) (buffer : Buffer) :
    Meets (fun c => sound ∧ Kept c ∨ Lost c) (ataTransfer d device offset buffer)
      fun _ c => sound ∧ Kept c ∨ Lost c := by
  have hreturn : ∀ t : Transferred, Meets (fun c => sound ∧ Kept c ∨ Lost c) (pure t)
      fun _ c => sound ∧ Kept c ∨ Lost c := fun _ => .pure fun _ hs => hs
  rcases device with _ | ⟨isDisk, _ | disk⟩
  · exact hreturn _
  · exact .ite (fun _ => hreturn _) fun _ => hreturn _
  refine .ite (fun _ => hreturn _) fun _ => .ite (fun _ => hreturn _) fun _ => ?_
  cases disk.pdo with
  | none => exact hreturn _
  | some pdo =>
    dsimp only
    split
    · exact hreturn _
    refine .ite (fun _ => hreturn _) fun _ => .ite (fun _ => hreturn _) fun _ => ?_
    refine .bind (R := fun c s => (sound ∧ Kept s ∨ Lost s) ∧ s = c) (.get fun s hs => ⟨hs, rfl⟩)
      fun c => ?_
    refine .ite (fun _ => .pure fun _ hs => hs.1) fun _ => ?_
    refine .ite (fun _ => .pure fun _ hs => hs.1) fun husable => ?_
    rw [Bool.not_eq_true] at husable
    have hready : ∀ s, (sound ∧ Kept s ∨ Lost s) ∧ s = c → sound ∧ Ready s ∨ Lost s := by
      rintro s ⟨hs, rfl⟩
      exact hs.imp_left fun hs => ⟨hs.1, hs.2.ready husable⟩
    cases buffer with
    | read size =>
      exact .bind ((readExtent_meets _).weaken hready fun _ _ hq => hq) fun _ => .pure
        fun _ hs => hs
    | write bytes =>
      exact .bind ((writeExtent_meets _ _).weaken hready fun _ _ hq => hq) fun _ =>
        .pure fun _ hs => hs

/-! ## Runs -/

theorem serve_lost (c : BusContext) (requests : List Request) (h : Lost c) :
    Lost (serve d c requests) := by
  induction requests generalizing c with
  | nil => exact h
  | cons r rest ih =>
    have hstep := ataTransfer_meets (d := d) False r.device r.offset r.buffer c (.inr h)
    exact ih _ (hstep.resolve_left fun hs => hs.1)

theorem serve_kept (c : BusContext) (requests : List Request) (h : Kept c) :
    Kept (serve d c requests) ∨ Lost (serve d c requests) := by
  induction requests generalizing c with
  | nil => exact .inl h
  | cons r rest ih =>
    rcases ataTransfer_meets (d := d) True r.device r.offset r.buffer c (.inl ⟨trivial, h⟩)
      with ⟨-, hstep⟩ | hstep
    · exact ih _ hstep
    · exact .inr (serve_lost _ rest hstep)

theorem serve_append (c : BusContext) (served rest : List Request) :
    serve d c (served ++ rest) = serve d (serve d c served) rest :=
  List.foldl_append

end Transfers

/-- The channel is coherent after each of the transfers, and all commands were in step, exactly
    when the drives answered the waits of the writes. -/
theorem serve_inStep_iff (d : Drives) (ioBase ctrlBase : UInt16) (requests : List Request) :
    (∀ served, served <+: requests →
        Coherent (serve d { ioBase := ioBase, ctrlBase := ctrlBase } served)) ↔
      WritesAnswered (serve d { ioBase := ioBase, ctrlBase := ctrlBase } requests).trace := by
  have hfresh : Kept { ioBase := ioBase, ctrlBase := ctrlBase } :=
    ⟨fun _ he => (List.not_mem_nil he).elim, trivial, .inl rfl⟩
  constructor
  · intro hcoherent
    rcases serve_kept (d := d) _ requests hfresh with hend | hend
    · exact hend.1
    · exact absurd (hcoherent requests (List.prefix_refl _)) hend.not_coherent
  · rintro hanswered served ⟨rest, rfl⟩
    rcases serve_kept (d := d) _ served hfresh with hserved | hserved
    · exact hserved.2
    · rw [serve_append] at hanswered
      exact absurd hanswered (serve_lost _ rest hserved).not_answered

/-! ## A write error with data pending -/

/-- A drive that answers every command with an error while it has data pending, until it is
    reset. -/
def pendingStatus : List Event → UInt8
  | [] => 0x50
  | .out .command _ :: _ => 0x59
  | .control _ :: _ => 0x50
  | _ :: older => pendingStatus older

/-- That drive on a channel with a clock that runs. -/
def pendingDrives : Drives where
  status := pendingStatus
  data _ := 0
  clock trace := UInt32.ofNat trace.length

/-- A write of the first sector. -/
def failingWrite : Request where
  device := some { deviceExtension := some { isMaster := true, sectorCount := 100 } }
  offset := 0
  buffer := .write (List.replicate 512 0)

/-- A read of the same sector. -/
def nextRead : Request := { failingWrite with buffer := .read 512 }

/-- The write fails and leaves the channel in use with its data phase open; the command of the
    read that follows is out of step. -/
theorem failingWrite_unsettles :
    ¬Settled (serve pendingDrives { ioBase := 0x1f0, ctrlBase := 0x3f6 } [failingWrite]).trace ∧
      (serve pendingDrives { ioBase := 0x1f0, ctrlBase := 0x3f6 } [failingWrite]).unusable = false ∧
      ¬InStep (serve pendingDrives { ioBase := 0x1f0, ctrlBase := 0x3f6 }
        [failingWrite, nextRead]).trace := by
  decide +kernel

end UnDOS.Disk
