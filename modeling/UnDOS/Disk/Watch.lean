import UnDOS.Disk.Ata

/-!
# Watching an ATA Channel

A watcher of the bus follows a command through its data phase to the status that ends it.  A
command is in step when the one before it has ended, or the channel came back idle from a reset.
-/

namespace UnDOS.Disk

open UnDOS.Lib

/-! ## Watching the bus -/

/-- How far the last command is. -/
inductive Phase where
  /-- It ended, or the channel was reset since. -/
  | settled
  /-- `left` words of its data phase are still to be moved, or its last status to be seen. -/
  | data (left : Nat)
  /-- Reset is asserted. -/
  | resetting
  /-- Reset was taken back, and the drive was not seen idle yet. -/
  | released
deriving DecidableEq

/-- What the watcher knows. -/
structure Watch where
  phase : Phase := .settled
  /-- A drive was selected since the last command, so a status may be the other drive's. -/
  selecting : Bool := false
  /-- The sectors that the sector count register asks for. -/
  sectors : Nat := 0
deriving DecidableEq

/-- The words that a command moves. -/
def dataWords (command : UInt8) (sectors : Nat) : Nat :=
  if command = 0x20 ∨ command = 0x30 then kAtaSectorSize / 2 * sectors else 0

/-- A drive that is there, not busy and without data pending. -/
def quiet (status : UInt8) : Bool := !floating status && !busy status && !dataRequest status

/-- What a status says about the last command.  An error ends it before its data is through. -/
def Phase.seen (status : UInt8) : Phase → Phase
  | .settled => .settled
  | .data left =>
    if quiet status && (left == 0 || failed status) then .settled else .data left
  | .resetting => .resetting
  | .released => if quiet status && !failed status then .settled else .released

def Phase.moved : Phase → Phase
  | .data (left + 1) => .data left
  | phase => phase

def Phase.control (value : UInt8) (phase : Phase) : Phase :=
  if value &&& 0x04 != 0 then .resetting
  else if phase = .resetting then .released
  else phase

def Watch.step (w : Watch) : Event → Watch
  | .out .command value =>
    { w with phase := .data (dataWords value w.sectors), selecting := false }
  | .out .sectorCount value => { w with sectors := if value = 0 then 256 else value.toNat }
  | .out .drive _ => { w with selecting := true }
  | .out _ _ => w
  | .control value => { w with phase := w.phase.control value, selecting := false }
  | .outData _ | .inData _ => { w with phase := w.phase.moved }
  | .status _ value => if w.selecting then w else { w with phase := w.phase.seen value }
  | .skipped _ | .exhausted _ | .clock _ => w

/-- The watcher after the events, the newest of which is the first. -/
def watch : List Event → Watch
  | [] => {}
  | e :: older => (watch older).step e

def Settled (trace : List Event) : Prop := (watch trace).phase = .settled

instance (trace : List Event) : Decidable (Settled trace) :=
  inferInstanceAs (Decidable ((watch trace).phase = .settled))

def Event.isCommand : Event → Bool
  | .out .command _ => true
  | _ => false

/-- Every command was issued when the one before it had settled. -/
def InStep : List Event → Prop
  | [] => True
  | e :: older => InStep older ∧ (e.isCommand = true → Settled older)

instance InStep.decidable : (trace : List Event) → Decidable (InStep trace)
  | [] => isTrue trivial
  | _ :: older => @instDecidableAnd _ _ (InStep.decidable older) inferInstance

/-- All commands so far are in step, and the next one will be, if there is a next one. -/
def Coherent (c : BusContext) : Prop :=
  InStep c.trace ∧ (Settled c.trace ∨ c.unusable = true)

/-! ## What the drives owe the writing path -/

/-- The waits of the writing path that follow a command. -/
def Wait.ofWrite : Wait → Bool
  | .sectorData | .sectorDone | .flush => true
  | _ => false

/-- A wait for a write sees a drive that is there and comes to an end within its polls.  Data
    may be pending then only where the sector is due, and only without an error. -/
def Event.Answered : Event → Prop
  | .status wait value =>
    wait.ofWrite = true → floating value = false ∧
      (busy value = false → dataRequest value = true → wait = .sectorData ∧ failed value = false)
  | .exhausted wait => wait.ofWrite = false
  | _ => True

/-- The waits of all writes so far were answered. -/
def WritesAnswered (trace : List Event) : Prop := ∀ e ∈ trace, e.Answered

/-! ## States of the channel -/

/-- All is well so far, and the watcher knows `w`. -/
structure At (w : Watch) (c : BusContext) : Prop where
  watched : watch c.trace = w
  inStep : InStep c.trace
  answered : WritesAnswered c.trace
  usable : c.unusable = false

/-- A command may be issued. -/
def Ready (c : BusContext) : Prop := ∃ w, At w c ∧ w.phase = .settled

/-- A transfer may end here. -/
def Kept (c : BusContext) : Prop := WritesAnswered c.trace ∧ Coherent c

/-- A wait of the writing path went wrong, and the channel is neither settled nor given up. -/
def Astray (c : BusContext) : Prop :=
  ¬WritesAnswered c.trace ∧ c.unusable = false ∧ ¬Settled c.trace

/-- A command was issued out of step. -/
def Broken (c : BusContext) : Prop := ¬WritesAnswered c.trace ∧ ¬InStep c.trace

def Lost (c : BusContext) : Prop := Astray c ∨ Broken c

theorem Ready.kept {c : BusContext} (h : Ready c) : Kept c := by
  obtain ⟨w, hw, hsettled⟩ := h
  refine ⟨hw.answered, hw.inStep, .inl ?_⟩
  rw [Settled, hw.watched]
  exact hsettled

theorem Lost.not_answered {c : BusContext} (h : Lost c) : ¬WritesAnswered c.trace :=
  h.elim (fun h => h.1) fun h => h.1

theorem Lost.not_coherent {c : BusContext} (h : Lost c) : ¬Coherent c := by
  rintro ⟨hinStep, hend⟩
  rcases h with ⟨-, husable, hsettled⟩ | ⟨-, hbroken⟩
  · rcases hend with hend | hend
    · exact hsettled hend
    · rw [husable] at hend
      cases hend
  · exact hbroken hinStep

/-! ## One access -/

theorem writesAnswered_cons {e : Event} {trace : List Event} :
    WritesAnswered (e :: trace) ↔ e.Answered ∧ WritesAnswered trace :=
  List.forall_mem_cons

theorem At.emit {w : Watch} {c : BusContext} (h : At w c) {e : Event} (he : e.Answered)
    (hc : e.isCommand = true → w.phase = .settled) :
    At (w.step e) { c with trace := e :: c.trace } where
  watched := congrArg (Watch.step · e) h.watched
  inStep := by
    refine ⟨h.inStep, fun hcommand => ?_⟩
    rw [Settled, h.watched]
    exact hc hcommand
  answered := writesAnswered_cons.mpr ⟨he, h.answered⟩
  usable := h.usable

theorem emit_meets {w : Watch} {e : Event} (he : e.Answered)
    (hc : e.isCommand = true → w.phase = .settled) : Meets (At w) (emit e) fun _ => At (w.step e) :=
  .modify fun _ hs => hs.emit he hc

theorem command_meets (value : UInt8) : Meets Ready (out8 .command value)
      fun _ c => ∃ sectors, At ⟨.data (dataWords value sectors), false, sectors⟩ c :=
  .modify fun _ ⟨w, hw, hsettled⟩ =>
    ⟨w.sectors, hw.emit (e := .out .command value) trivial fun _ => hsettled⟩

end UnDOS.Disk
