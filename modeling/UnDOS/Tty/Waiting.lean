import UnDOS.Tty.Vtty
import UnDOS.Lib.Run

/-!
# Waiting for Input

`KVtty::sink_read_wait` with its sleep: under the lock of the terminal a reader finds nothing and
resets `m_inputReady`; it waits for that header after it has left the lock.  Any number of readers
and writers interleave; each section under the lock is one step, and so is each section of
`KE_SCHED_WaitForHeader` and `KE_EVENT_Signal` under the lock of the dispatcher headers.

`Quiet` is what the header stands for: when it is not signalled there is nothing to read.
-/

namespace UnDOS.Tty

open UnDOS.Lib
open UnDOS.Kernel (KernelError)
open Function (update update_of_ne update_self)

/-! ## The calls that change the condition -/

namespace Vtty

/-- `KVtty::close_source` before its signal. -/
def closeSource (t : Vtty) : Vtty := { t with sourceClosed := true }

/-- `KVtty::close_sink` before its signal. -/
def closeSink (t : Vtty) : Vtty := { t with sinkClosed := true }

def flush (t : Vtty) : Vtty :=
  { t with
    sinkInRing := Ring.empty t.sinkInRing.data, sourceOutRing := Ring.empty t.sourceOutRing.data
    editBuffer := [], eofSignaled := false }

def setFlags (t : Vtty) (flags : TtyFlags) : Vtty := { t with flags := flags }

/-- Neither data nor an end of file for a reader. -/
structure Quiet (t : Vtty) : Prop where
  empty : t.sinkInRing.contents = []
  eof : t.eofSignaled = false
  source : t.sourceClosed = false
  sink : t.sinkClosed = false

end Vtty

/-! ## Readers -/

/-- Where a thread is in `sink_read_wait`. -/
inductive Reader where
  /-- Not in a call. -/
  | outside
  /-- It has left its locked section to wait. -/
  | leaving (count : Nat)
  /-- On the list of the header. -/
  | blocked (count : Nat)
  /-- The wait is over; the loop goes round. -/
  | woken (count : Nat)
deriving DecidableEq

/-- The wait of a reader is satisfied. -/
def Reader.wake : Reader → Reader
  | blocked count => woken count
  | reader => reader

/-- A terminal, the waiter list of `m_inputReady`, and all threads. -/
structure Terminal where
  tty : Vtty := {}
  waiters : List Nat := []
  readers : Nat → Reader := fun _ => .outside

inductive Action where
  | sourceWrite (src : List UInt8)
  | closeSource
  | closeSink
  | flush
  | setFlags (flags : TtyFlags)
  | sinkRead (count : Nat)
  /-- A call of `sink_read_wait` comes to its locked section for the first time. -/
  | enter (id count : Nat)
  /-- `KE_SCHED_WaitForHeader`: the signal is there, or the thread joins the waiters. -/
  | wait (id : Nat)
  /-- `KE_SCHED_WaitForHeader` fails, and so does the call. -/
  | fail (id : Nat)
  /-- The locked section once more. -/
  | again (id : Nat)

namespace Terminal

/-- `KE_EVENT_Signal(m_inputReady, true)`: the header is manual-reset. -/
def signal (s : Terminal) : Terminal where
  tty := { s.tty with inputReady := true }
  waiters := []
  readers := fun id => if id ∈ s.waiters then (s.readers id).wake else s.readers id

/-- The locked section of `sink_read_wait` by thread `id`. -/
def locked (s : Terminal) (id count : Nat) : Terminal :=
  match s.tty.sinkReadWait count with
  | (some _, tty) => { s with tty := tty, readers := update s.readers id .outside }
  | (none, tty) => { s with tty := tty, readers := update s.readers id (.leaving count) }

/-- The thread joins the waiters of the header. -/
def sleeping (s : Terminal) (id count : Nat) : Terminal :=
  { s with
    waiters := s.waiters ++ [id]
    readers := update s.readers id (.blocked count) }

/-- One step; nothing if the thread is elsewhere. -/
def step (s : Terminal) : Action → Option Terminal
  | .sourceWrite src =>
    let s' := { s with tty := (s.tty.sourceWrite src).2 }
    some <|
      if s.tty.sourceClosed ∨ s.tty.sinkClosed then s'
      else if 0 < s'.tty.sinkInRing.count ∨ s'.tty.eofSignaled then s'.signal else s'
  | .closeSource => some { s with tty := s.tty.closeSource }.signal
  | .closeSink => some { s with tty := s.tty.closeSink }.signal
  | .flush => some { s with tty := s.tty.flush }
  | .setFlags flags => some { s with tty := s.tty.setFlags flags }
  | .sinkRead count => some { s with tty := (s.tty.sinkRead count).2 }
  | .enter id count => if s.readers id = .outside then some (s.locked id count) else none
  | .wait id =>
    match s.readers id with
    | .leaving count =>
      if s.tty.inputReady then
        some { s with readers := update s.readers id (.woken count) }
      else
        some (s.sleeping id count)
    | _ => none
  | .fail id =>
    match s.readers id with
    | .leaving _ => some { s with readers := update s.readers id .outside }
    | _ => none
  | .again id =>
    match s.readers id with
    | .woken count => some (s.locked id count)
    | _ => none

def Step (s : Terminal) (a : Action) (s' : Terminal) : Prop := s.step a = some s'

end Terminal

/-! ## What the calls do to the condition -/

namespace Vtty

/-- Of what the header stands for, only the ring and the end of file may differ. -/
def SameEnds (t t' : Vtty) : Prop :=
  t'.sourceClosed = t.sourceClosed ∧ t'.sinkClosed = t.sinkClosed ∧ t'.inputReady = t.inputReady

theorem SameEnds.refl (t : Vtty) : t.SameEnds t := ⟨rfl, rfl, rfl⟩

variable {t t' : Vtty}

theorem SameEnds.trans {t'' : Vtty} (h : t.SameEnds t') (h' : t'.SameEnds t'') : t.SameEnds t'' :=
  ⟨h'.1.trans h.1, h'.2.1.trans h.2.1, h'.2.2.trans h.2.2⟩

theorem rawByte_sameEnds {ch : UInt8} (h : t.rawByte ch = some t') : t.SameEnds t' := by
  unfold rawByte at h
  split at h
  · cases h
    split
    · exact ⟨rfl, rfl, rfl⟩
    · exact ⟨rfl, rfl, rfl⟩
  · cases h

theorem cookedByte_sameEnds (t : Vtty) (ch : UInt8) : t.SameEnds (t.cookedByte ch) := by
  unfold cookedByte
  dsimp only
  split_ifs <;> exact ⟨rfl, rfl, rfl⟩

theorem sourceLoop_sameEnds (t : Vtty) (src : List UInt8) : t.SameEnds (t.sourceLoop src).1 := by
  induction src generalizing t with
  | nil => exact SameEnds.refl t
  | cons ch rest ih =>
    unfold sourceLoop
    dsimp only
    split
    · exact (cookedByte_sameEnds t _).trans (ih _)
    · cases hraw : t.rawByte (translate t.flags ch) with
      | none => exact SameEnds.refl t
      | some t' => exact (rawByte_sameEnds hraw).trans (ih t')

theorem Quiet.notClosed (h : t.Quiet) : ¬(t.sourceClosed = true ∨ t.sinkClosed = true) := by
  rw [h.source, h.sink]
  simp

theorem Quiet.count (h : t.Quiet) : t.sinkInRing.count = 0 := by
  rw [← Ring.contents_length, h.empty]
  rfl

theorem Quiet.flush (h : t.Quiet) : t.flush.Quiet where
  empty := rfl
  eof := rfl
  source := h.source
  sink := h.sink

theorem Quiet.sinkRead (h : t.Quiet) (count : Nat) : (t.sinkRead count).2.Quiet := by
  unfold Vtty.sinkRead
  split
  · exact h
  · rw [if_pos h.count]
    exact ⟨h.empty, rfl, h.source, h.sink⟩

theorem sinkRead_inputReady (t : Vtty) (count : Nat) :
    (t.sinkRead count).2.inputReady = t.inputReady := by
  unfold sinkRead
  split_ifs <;> rfl

/-- A write after which nothing can be read leaves the terminal quiet. -/
theorem sourceWrite_quiet {src : List UInt8} (h : t.Quiet)
    (hempty : ¬(0 < (t.sourceWrite src).2.sinkInRing.count ∨ (t.sourceWrite src).2.eofSignaled)) :
    (t.sourceWrite src).2.Quiet := by
  obtain ⟨hsource, hsink, -⟩ := sourceLoop_sameEnds t src
  unfold sourceWrite at hempty ⊢
  rw [if_neg h.notClosed] at hempty ⊢
  dsimp only at hempty ⊢
  split at hempty
  · -- the signal was given, so there is something to read
    rename_i hready
    exact absurd hready hempty
  · rename_i hready
    rw [if_neg hready]
    exact
      { empty := by
          rw [← List.length_eq_zero_iff, Ring.contents_length]
          exact Nat.eq_zero_of_not_pos fun hpos => hready (.inl hpos)
        eof := Bool.eq_false_iff.2 fun heof => hready (.inr heof)
        source := hsource.trans h.source
        sink := hsink.trans h.sink }

theorem sourceWrite_inputReady {src : List UInt8}
    (hempty : ¬(0 < (t.sourceWrite src).2.sinkInRing.count ∨ (t.sourceWrite src).2.eofSignaled)) :
    (t.sourceWrite src).2.inputReady = t.inputReady := by
  obtain ⟨-, -, hready⟩ := sourceLoop_sameEnds t src
  unfold sourceWrite at hempty ⊢
  split
  · rfl
  · rename_i hopen
    rw [if_neg hopen] at hempty
    dsimp only at hempty ⊢
    split at hempty
    · rename_i hsome
      exact absurd hsome hempty
    · rename_i hnone
      rw [if_neg hnone]
      exact hready

theorem sinkReadWait_none {count : Nat} (h : t.sinkReadWait count = (none, t')) :
    t'.Quiet ∧ t'.inputReady = false := by
  unfold sinkReadWait at h
  split_ifs at h with hcount hring hend
  · cases h
  · cases h
  · cases h
  · cases h
    simp only [not_or, Bool.not_eq_true] at hend
    refine ⟨⟨?_, hend.1, hend.2.1, hend.2.2⟩, rfl⟩
    rw [← List.length_eq_zero_iff, Ring.contents_length]
    exact Nat.eq_zero_of_not_pos hring

theorem sinkReadWait_some {count : Nat} {bytes : List UInt8}
    (h : t.sinkReadWait count = (some bytes, t')) :
    t'.inputReady = t.inputReady ∧ (t.Quiet → t'.Quiet) := by
  unfold sinkReadWait at h
  split_ifs at h with hcount hring hend
  · cases h
    exact ⟨rfl, id⟩
  · cases h
    refine ⟨rfl, fun hquiet => ?_⟩
    rw [hquiet.count] at hring
    exact absurd hring (Nat.lt_irrefl 0)
  · cases h
    exact ⟨rfl, fun hquiet => ⟨hquiet.empty, rfl, hquiet.source, hquiet.sink⟩⟩
  · cases h

end Vtty

/-! ## The invariant -/

namespace Terminal

/-- Without the signal there is nothing to read; who sleeps is on the list, and sleeps because
there was no signal. -/
structure Sound (s : Terminal) : Prop where
  quiet : s.tty.inputReady = false → s.tty.Quiet
  blocked : ∀ id count, s.readers id = .blocked count → id ∈ s.waiters ∧ s.tty.inputReady = false

/-- The thread has left its locked section to wait, and the wait is not over. -/
def Waits (s : Terminal) (id : Nat) : Prop :=
  ∃ count, s.readers id = .leaving count ∨ s.readers id = .blocked count

theorem start_sound : ({} : Terminal).Sound where
  quiet _ := ⟨rfl, rfl, rfl, rfl⟩
  blocked _ _ h := Reader.noConfusion h

variable {s : Terminal}

theorem Sound.signal (h : ∀ id count, s.readers id = .blocked count → id ∈ s.waiters) :
    s.signal.Sound where
  quiet hready := Bool.noConfusion hready
  blocked id count hblocked := by
    unfold Terminal.signal at hblocked
    dsimp only at hblocked
    split at hblocked
    · -- a waiter has been woken
      cases hreader : s.readers id with
      | blocked c => rw [hreader] at hblocked; cases hblocked
      | outside => rw [hreader] at hblocked; cases hblocked
      | leaving c => rw [hreader] at hblocked; cases hblocked
      | woken c => rw [hreader] at hblocked; cases hblocked
    · rename_i hnot
      exact absurd (h id count hblocked) hnot

theorem Sound.changed (h : s.Sound) {tty : Vtty}
    (hready : tty.inputReady = s.tty.inputReady) (hquiet : s.tty.Quiet → tty.Quiet) :
    ({ s with tty := tty } : Terminal).Sound where
  quiet hfalse := hquiet (h.quiet (hready.symm.trans hfalse))
  blocked id count hblocked := ⟨(h.blocked id count hblocked).1,
    hready.trans (h.blocked id count hblocked).2⟩

theorem Sound.moved (h : s.Sound) {id : Nat} {reader : Reader}
    (hreader : ∀ count, reader ≠ .blocked count) :
    ({ s with readers := update s.readers id reader } : Terminal).Sound where
  quiet := h.quiet
  blocked id' count hblocked := by
    dsimp only at hblocked
    by_cases hid : id' = id
    · rw [hid, update_self] at hblocked
      exact absurd hblocked (hreader count)
    · rw [update_of_ne hid] at hblocked
      exact h.blocked id' count hblocked

theorem Sound.locked (h : s.Sound) (id count : Nat) : (s.locked id count).Sound := by
  unfold Terminal.locked
  rcases hwait : s.tty.sinkReadWait count with ⟨_ | bytes, tty⟩
  · -- nothing to read: the header is reset, which no sleeper can notice
    obtain ⟨hquiet, hready⟩ := Vtty.sinkReadWait_none hwait
    have hreset : ({ s with tty := tty } : Terminal).Sound :=
      { quiet := fun _ => hquiet
        blocked := fun id' c hblocked => ⟨(h.blocked id' c hblocked).1, hready⟩ }
    exact hreset.moved fun _ => Reader.noConfusion
  · obtain ⟨hready, hquiet⟩ := Vtty.sinkReadWait_some hwait
    exact (h.changed hready hquiet).moved fun _ => Reader.noConfusion

theorem Sound.sleep (h : s.Sound) (hready : s.tty.inputReady = false)
    (id count : Nat) : (s.sleeping id count).Sound where
  quiet := h.quiet
  blocked id' c hblocked := by
    refine ⟨?_, hready⟩
    unfold sleeping at hblocked ⊢
    dsimp only at hblocked ⊢
    by_cases hid : id' = id
    · exact List.mem_append_right _ (List.mem_singleton.2 hid)
    · rw [update_of_ne hid] at hblocked
      exact List.mem_append_left _ (h.blocked id' c hblocked).1

theorem Sound.step {s' : Terminal} {a : Action} (h : s.Sound) (hstep : Step s a s') : s'.Sound := by
  unfold Step at hstep
  cases a with
  | sourceWrite src =>
    cases hstep
    split_ifs with hclosed hsome
    · apply h.changed
      · unfold Vtty.sourceWrite
        rw [if_pos hclosed]
      · exact fun hquiet => absurd hclosed hquiet.notClosed
    · exact Sound.signal fun id count hblocked => (h.blocked id count hblocked).1
    · exact h.changed (Vtty.sourceWrite_inputReady hsome) fun hquiet =>
        Vtty.sourceWrite_quiet hquiet hsome
  | closeSource =>
    cases hstep
    exact Sound.signal fun id count hblocked => (h.blocked id count hblocked).1
  | closeSink =>
    cases hstep
    exact Sound.signal fun id count hblocked => (h.blocked id count hblocked).1
  | flush =>
    cases hstep
    exact h.changed rfl Vtty.Quiet.flush
  | setFlags flags =>
    cases hstep
    exact h.changed rfl fun hquiet => ⟨hquiet.empty, hquiet.eof, hquiet.source, hquiet.sink⟩
  | sinkRead count =>
    cases hstep
    exact h.changed (Vtty.sinkRead_inputReady _ count) fun hquiet => hquiet.sinkRead count
  | enter id count =>
    dsimp only [Terminal.step] at hstep
    split at hstep
    · cases hstep
      exact h.locked id count
    · cases hstep
  | wait id =>
    dsimp only [Terminal.step] at hstep
    split at hstep
    · split at hstep
      · cases hstep
        exact h.moved fun _ => Reader.noConfusion
      · rename_i hready
        cases hstep
        exact h.sleep (Bool.eq_false_iff.2 hready) id _
    · cases hstep
  | fail id =>
    dsimp only [Terminal.step] at hstep
    split at hstep
    · cases hstep
      exact h.moved fun _ => Reader.noConfusion
    · cases hstep
  | again id =>
    dsimp only [Terminal.step] at hstep
    split at hstep
    · cases hstep
      exact h.locked id _
    · cases hstep

end Terminal

/-- Whoever waits on a header that is not signalled has nothing to read, and who sleeps does so
on such a header. -/
theorem sleepers_have_nothing {run : List (Action × Terminal)} (h : Run Terminal.Step {} run) :
    ((lastState {} run).tty.inputReady = false → (∃ id, (lastState {} run).Waits id) →
        (lastState {} run).tty.Quiet) ∧ ∀ id count, (lastState {} run).readers id = .blocked count →
        (lastState {} run).tty.Quiet := by
  have hsound : (lastState {} run).Sound :=
    h.invariant Terminal.start_sound fun _ _ _ hsound hstep => hsound.step hstep
  refine ⟨fun hready _ => hsound.quiet hready, ?_⟩
  intro id count hblocked
  exact hsound.quiet (hsound.blocked id count hblocked).2

/-- Thread 7 comes to read, finds nothing and falls asleep. -/
theorem sleepers_have_nothing_first : ∃ run, Run Terminal.Step {} run ∧ (lastState {} run).Waits 7 ∧
      (lastState {} run).tty.Quiet := by
  have hreplay : replay Terminal.step {} [.enter 7 1, .wait 7] = some
      ((({} : Terminal).locked 7 1).sleeping 7 1) := rfl
  have hstart : Run Terminal.Step {} [] := Run.nil
  obtain ⟨run, hrun, -, hlast⟩ := hstart.exists_replay (fun _ _ _ h => h) hreplay
  have hblocked : (lastState {} run).readers 7 = .blocked 1 := by
    rw [hlast]
    decide
  exact ⟨run, hrun, ⟨1, .inr hblocked⟩, (sleepers_have_nothing hrun).2 7 1 hblocked⟩

end UnDOS.Tty
