import Mathlib.Data.Nat.Count
import UnDOS.Tty.Vtty

/-!
# Terminals with a Device

`KVtty::source_read` and `KVtty::sink_write`, and `DrainSourceToDevice` and `KE_TTY_PumpDevice` of
`tty_device.cpp`: a terminal that is attached to a device, between a program at its sink and the
device at its source.

- What the device does in a pump is in its answers: how much of a write it takes and whether it
  reports a failure, and the bytes that it gives to a read.
- An `Attachment` keeps account of the bytes that have come in and gone out at both ends.  The code
  does not look at that.
-/

namespace UnDOS.Tty

open UnDOS.Lib
open UnDOS.Kernel (KernelError)

namespace Vtty

/-- `KVtty::source_read`. -/
def sourceRead (t : Vtty) (count : Nat) : List UInt8 × Vtty :=
  if count = 0 then ([], t)
  else
    let (bytes, ring) := t.sourceOutRing.read count
    (bytes, { t with sourceOutRing := ring })

/-- The loop of `sink_write`: the state and how many bytes were written. -/
def sinkLoop (t : Vtty) : List UInt8 → Vtty × Nat
  | [] => (t, 0)
  | ch :: rest =>
    if t.flags.nlToCrNl ∧ ch = 0x0A then
      if defaultBufferSize - t.sourceOutRing.count < 2 then (t, 0)
      else
        let (t, n) := { t with
          sourceOutRing := (t.sourceOutRing.push 0x0D).push 0x0A }.sinkLoop rest
        (t, n + 1)
    else if t.sourceOutRing.count < defaultBufferSize then
      let (t, n) := { t with sourceOutRing := t.sourceOutRing.push ch }.sinkLoop rest
      (t, n + 1)
    else (t, 0)

def sinkWrite (t : Vtty) (src : List UInt8) : Except KernelError Nat × Vtty :=
  if t.sinkClosed ∨ t.sourceClosed then (.error .invalidState, t)
  else (.ok (t.sinkLoop src).2, (t.sinkLoop src).1)

end Vtty

/-! ## The pump -/

/-- What a device answers to a write: how much it takes, and whether it reports a failure. -/
structure WriteAnswer where
  taken : Nat
  failed : Bool

/-- What a device does during one pump.  The writes are numbered. -/
structure Device where
  writes : Nat → WriteAnswer
  readFails : Bool
  input : List UInt8

/-- The size of `txBuf` and of `rxBuf`. -/
def transferSize : Nat := 128

/-- How many of the first `n` writes fail.  Each failure ends one drain. -/
def Device.failures (device : Device) (n : Nat) : Nat :=
  Nat.count (fun i => (device.writes i).failed = true) n

/-- A pump drains the source a second time after a read that brings bytes. -/
def Device.drains (device : Device) : Nat :=
  if device.readFails ∨ (device.input.take transferSize).length = 0 then 1 else 2

/-- With `count` bytes at the source, write number `n` is made when bytes are left for it and
fewer failures than drains come before it; it is given the `n`-th batch of these bytes. -/
def Device.TakesBatches (device : Device) (count drains : Nat) : Prop :=
  ∀ n, transferSize * n < count → device.failures n < drains →
    min transferSize (count - transferSize * n) ≤ (device.writes n).taken

/-- An attached terminal, and the bytes at its ends so far. -/
structure Attachment where
  tty : Vtty
  /-- What the device has taken. -/
  delivered : List UInt8 := []
  /-- What `sink_write` has accepted, after translation. -/
  produced : List UInt8 := []
  /-- What the device has given. -/
  received : List UInt8 := []
  /-- What `sink_read` has returned. -/
  consumed : List UInt8 := []

namespace Attachment

/-- The loop of `DrainSourceToDevice`, from write number `n` on.  A round that reads nothing ends
it, so that the bytes in the ring bound the rounds. -/
def drainLoop (device : Device) : (rounds n : Nat) → Attachment → Attachment × Nat
  | 0, n, s => (s, n)
  | rounds + 1, n, s =>
    if s.tty.sourceOutRing.count = 0 then (s, n)
    else
      let (txBuf, tty) := s.tty.sourceRead transferSize
      let answer := device.writes n
      let s := { s with tty := tty, delivered := s.delivered ++ txBuf.take answer.taken }
      if answer.failed ∨ (txBuf.take answer.taken).length = 0 then (s, n + 1)
      else drainLoop device rounds (n + 1) s

def drainSourceToDevice (device : Device) (n : Nat) (s : Attachment) : Attachment × Nat :=
  drainLoop device s.tty.sourceOutRing.count n s

/-- `KE_TTY_PumpDevice`. -/
def pumpDevice (device : Device) (s : Attachment) : Attachment :=
  let (s, n) := drainSourceToDevice device 0 s
  let rxBuf := device.input.take transferSize
  if device.readFails ∨ rxBuf.length = 0 then s
  else
    let s := { s with tty := (s.tty.sourceWrite rxBuf).2, received := s.received ++ rxBuf }
    (drainSourceToDevice device n s).1

end Attachment

inductive PumpCall where
  | sinkWrite (src : List UInt8)
  | sinkRead (count : Nat)
  | pump (device : Device)

/-- What `sink_write` makes of the bytes that it accepts. -/
def crnl (flags : TtyFlags) (bytes : List UInt8) : List UInt8 :=
  bytes.flatMap fun ch => if flags.nlToCrNl ∧ ch = 0x0A then [0x0D, 0x0A] else [ch]

namespace Attachment

def call (s : Attachment) : PumpCall → Attachment
  | .sinkWrite src =>
    match s.tty.sinkWrite src with
    | (.ok n, tty) => { s with tty := tty, produced := s.produced ++ crnl s.tty.flags (src.take n) }
    | (.error _, tty) => { s with tty := tty }
  | .sinkRead count =>
    { s with tty := (s.tty.sinkRead count).2, consumed := s.consumed ++ (s.tty.sinkRead count).1 }
  | .pump device => s.pumpDevice device

def run (s : Attachment) (calls : List PumpCall) : Attachment := calls.foldl call s

/-- No byte is lost between the two ends. -/
structure NothingLost (s : Attachment) : Prop where
  out : s.delivered ++ s.tty.sourceOutRing.contents = s.produced
  back : s.received.map (Vtty.translate s.tty.flags) = s.consumed ++ s.tty.sinkInRing.contents

/-- Every write that a pump makes takes its whole batch, and a read finds room in the ring. -/
def Roomy (s : Attachment) : PumpCall → Prop
  | .pump device => device.TakesBatches s.tty.sourceOutRing.count device.drains ∧
      (device.readFails = false → s.tty.sinkInRing.count + (device.input.take transferSize).length ≤
        defaultBufferSize)
  | _ => True

/-- Every call of a run is roomy. -/
def AllRoomy : Attachment → List PumpCall → Prop
  | _, [] => True
  | s, c :: calls => s.Roomy c ∧ (s.call c).AllRoomy calls

/-- An open terminal in raw mode without echo. -/
structure Raw (t : Vtty) : Prop where
  canonical : t.flags.canonical = false
  echo : t.flags.echo = false
  sourceClosed : t.sourceClosed = false
  sinkClosed : t.sinkClosed = false

/-- What is kept by every call that does not lose a byte. -/
structure Sound (s : Attachment) : Prop where
  raw : Raw s.tty
  lost : s.NothingLost

end Attachment

/-! ## The calls of the terminal -/

theorem sinkLoop_spec (t : Vtty) (src : List UInt8) : ∃ ring,
    (t.sinkLoop src).1 = { t with sourceOutRing := ring } ∧
      ring.contents = t.sourceOutRing.contents ++ crnl t.flags (src.take (t.sinkLoop src).2) := by
  induction src generalizing t with
  | nil => exact ⟨t.sourceOutRing, rfl, by simp [Vtty.sinkLoop, crnl]⟩
  | cons ch rest ih =>
    rw [Vtty.sinkLoop]
    by_cases hnewline : t.flags.nlToCrNl = true ∧ ch = 0x0A
    · rw [if_pos hnewline]
      by_cases hfull : defaultBufferSize - t.sourceOutRing.count < 2
      · rw [if_pos hfull]
        exact ⟨t.sourceOutRing, rfl, by simp [crnl]⟩
      · have hroom : t.sourceOutRing.count + 1 < defaultBufferSize := by omega
        have hfirst := Ring.contents_push (r := t.sourceOutRing) (by omega) 0x0D
        have hcount : (t.sourceOutRing.push 0x0D).count < defaultBufferSize := by
          rw [← Ring.contents_length, hfirst]
          simpa using hroom
        obtain ⟨ring, hring, hcontents⟩ :=
          ih { t with sourceOutRing := (t.sourceOutRing.push 0x0D).push 0x0A }
        rw [if_neg hfull]
        refine ⟨ring, hring, hcontents.trans ?_⟩
        simp [Ring.contents_push hcount, hfirst, crnl, hnewline]
    · rw [if_neg hnewline]
      by_cases hroom : t.sourceOutRing.count < defaultBufferSize
      · obtain ⟨ring, hring, hcontents⟩ := ih { t with sourceOutRing := t.sourceOutRing.push ch }
        rw [if_pos hroom]
        refine ⟨ring, hring, hcontents.trans ?_⟩
        simp [Ring.contents_push hroom, crnl, hnewline]
      · rw [if_neg hroom]
        exact ⟨t.sourceOutRing, rfl, by simp [crnl]⟩

/-- Bytes from the source that find room go straight to the sink. -/
theorem sourceLoop_raw {t : Vtty} (h : Attachment.Raw t) {src : List UInt8}
    (hroom : t.sinkInRing.count + src.length ≤ defaultBufferSize) : ∃ ring,
    (t.sourceLoop src).1 = { t with sinkInRing := ring } ∧
      ring.contents = t.sinkInRing.contents ++ src.map (Vtty.translate t.flags) := by
  induction src generalizing t with
  | nil => exact ⟨t.sinkInRing, rfl, by simp⟩
  | cons ch rest ih =>
    rw [List.length_cons] at hroom
    have hfits : t.sinkInRing.count < defaultBufferSize := by omega
    generalize hbyte : Vtty.translate t.flags ch = byte
    have hpush := Ring.contents_push (r := t.sinkInRing) hfits byte
    have hcount : (t.sinkInRing.push byte).count = t.sinkInRing.count + 1 := by
      rw [← Ring.contents_length, hpush]
      simp
    obtain ⟨ring, hring, hcontents⟩ := @ih { t with sinkInRing := t.sinkInRing.push byte }
      ⟨h.canonical, h.echo, h.sourceClosed, h.sinkClosed⟩ (by simp only [hcount]; omega)
    refine ⟨ring, ?_, hcontents.trans ?_⟩
    · simp [Vtty.sourceLoop, Vtty.rawByte, hbyte, h.canonical, h.echo, hfits, hring]
    · simp [hpush, hbyte]

theorem sourceWrite_raw {t : Vtty} (h : Attachment.Raw t) {src : List UInt8}
    (hroom : t.sinkInRing.count + src.length ≤ defaultBufferSize) : ∃ ring ready,
    (t.sourceWrite src).2 = { t with sinkInRing := ring, inputReady := ready } ∧
      ring.contents = t.sinkInRing.contents ++ src.map (Vtty.translate t.flags) := by
  obtain ⟨ring, hloop, hcontents⟩ := sourceLoop_raw h hroom
  rw [Vtty.sourceWrite, if_neg (by simp [h.sourceClosed, h.sinkClosed])]
  simp only [hloop]
  split_ifs
  · exact ⟨ring, true, rfl, hcontents⟩
  · exact ⟨ring, t.inputReady, rfl, hcontents⟩

namespace Attachment

/-- A drain goes on from write number `n` with what the writes before it have left; a failure
ends it, so that one more of them has come before the write it stops at. -/
theorem drainLoop_spec {device : Device} {count drains : Nat}
    (htakes : device.TakesBatches count (drains + 1)) (rounds n : Nat) (s : Attachment)
    (hcount : s.tty.sourceOutRing.count = count - transferSize * n)
    (hfailures : device.failures n ≤ drains) : ∃ ring delivered n',
    drainLoop device rounds n s =
        ({ s with tty := { s.tty with sourceOutRing := ring }, delivered := delivered }, n') ∧
      delivered ++ ring.contents = s.delivered ++ s.tty.sourceOutRing.contents ∧
      ring.count = count - transferSize * n' ∧ device.failures n' ≤ drains + 1 := by
  induction rounds generalizing n s with
  | zero => exact ⟨_, _, _, rfl, rfl, hcount, Nat.le_succ_of_le hfailures⟩
  | succ rounds ih =>
    rw [drainLoop]
    by_cases hempty : s.tty.sourceOutRing.count = 0
    · rw [if_pos hempty]
      exact ⟨_, _, _, rfl, rfl, hcount, Nat.le_succ_of_le hfailures⟩
    · obtain ⟨htake, hdrop⟩ := s.tty.sourceOutRing.read_spec transferSize
      have hread : s.tty.sourceRead transferSize = (s.tty.sourceOutRing.contents.take transferSize,
          { s.tty with sourceOutRing := (s.tty.sourceOutRing.read transferSize).2 }) := by
        rw [← htake]
        exact if_neg (by decide)
      have hlength : (s.tty.sourceOutRing.contents.take transferSize).length ≤
          (device.writes n).taken := by
        rw [List.length_take, Ring.contents_length, hcount]
        exact htakes n (by omega) (Nat.lt_succ_of_le hfailures)
      have hkept : s.delivered ++ s.tty.sourceOutRing.contents.take transferSize ++
          (s.tty.sourceOutRing.read transferSize).2.contents =
            s.delivered ++ s.tty.sourceOutRing.contents := by
        rw [hdrop, List.append_assoc, List.take_append_drop]
      have hleft : (s.tty.sourceOutRing.read transferSize).2.count =
          count - transferSize * (n + 1) := by
        rw [← Ring.contents_length, hdrop, List.length_drop, Ring.contents_length, hcount,
          Nat.sub_sub, Nat.mul_succ]
      have hnext : device.failures (n + 1) =
          device.failures n + if (device.writes n).failed = true then 1 else 0 :=
        Nat.count_succ _ n
      rw [if_neg hempty, hread]
      dsimp only
      rw [List.take_of_length_le hlength]
      by_cases hends : (device.writes n).failed = true ∨
          (s.tty.sourceOutRing.contents.take transferSize).length = 0
      · rw [if_pos hends]
        refine ⟨_, _, _, rfl, hkept, hleft, ?_⟩
        split_ifs at hnext <;> omega
      · rw [if_neg hends]
        rw [if_neg (not_or.1 hends).1] at hnext
        obtain ⟨ring, delivered, n', hloop, hcontents, hrest⟩ := ih (n + 1) { s with
          tty := { s.tty with sourceOutRing := (s.tty.sourceOutRing.read transferSize).2 }
          delivered := s.delivered ++ s.tty.sourceOutRing.contents.take transferSize }
          hleft (by omega)
        exact ⟨ring, delivered, n', hloop, hcontents.trans hkept, hrest⟩

/-- Draining moves bytes to the device and keeps all of them. -/
theorem Sound.drain {s : Attachment} (h : s.Sound) {device : Device} {count drains n : Nat}
    (htakes : device.TakesBatches count (drains + 1))
    (hcount : s.tty.sourceOutRing.count = count - transferSize * n)
    (hfailures : device.failures n ≤ drains) : ∃ s' n',
    drainSourceToDevice device n s = (s', n') ∧ s'.Sound ∧
      s'.tty.sinkInRing = s.tty.sinkInRing ∧
      s'.tty.sourceOutRing.count = count - transferSize * n' ∧
      device.failures n' ≤ drains + 1 := by
  obtain ⟨ring, delivered, n', hdrain, hcontents, hleft, hmore⟩ :=
    drainLoop_spec htakes s.tty.sourceOutRing.count n s hcount hfailures
  exact ⟨_, n', hdrain, ⟨⟨h.raw.canonical, h.raw.echo, h.raw.sourceClosed, h.raw.sinkClosed⟩,
    hcontents.trans h.lost.out, h.lost.back⟩, rfl, hleft, hmore⟩

theorem Sound.call {s : Attachment} (h : s.Sound) {c : PumpCall} (hroomy : s.Roomy c) :
    (s.call c).Sound := by
  cases c with
  | sinkWrite src =>
    obtain ⟨ring, hloop, hcontents⟩ := sinkLoop_spec s.tty src
    have hwrite : s.tty.sinkWrite src =
        (.ok (s.tty.sinkLoop src).2, { s.tty with sourceOutRing := ring }) := by
      rw [← hloop]
      exact if_neg (by simp [h.raw.sinkClosed, h.raw.sourceClosed])
    rw [Attachment.call, hwrite]
    refine ⟨⟨h.raw.canonical, h.raw.echo, h.raw.sourceClosed, h.raw.sinkClosed⟩, ?_, h.lost.back⟩
    dsimp only
    rw [hcontents, ← List.append_assoc, h.lost.out]
  | sinkRead count =>
    have hread : ∃ t : Vtty, (s.tty.sinkRead count).2 = t ∧ Raw t ∧ t.flags = s.tty.flags ∧
        t.sourceOutRing = s.tty.sourceOutRing ∧
        (s.tty.sinkRead count).1 ++ t.sinkInRing.contents = s.tty.sinkInRing.contents := by
      have hraw := h.raw
      rw [Vtty.sinkRead]
      split_ifs with hzero hempty
      · exact ⟨_, rfl, hraw, rfl, rfl, rfl⟩
      · exact ⟨_, rfl, ⟨hraw.canonical, hraw.echo, hraw.sourceClosed, hraw.sinkClosed⟩, rfl, rfl,
          rfl⟩
      · exact ⟨_, rfl, ⟨hraw.canonical, hraw.echo, hraw.sourceClosed, hraw.sinkClosed⟩, rfl, rfl,
          s.tty.sinkInRing.read_append count⟩
    obtain ⟨t, htty, hraw, hflags, hring, hcontents⟩ := hread
    rw [Attachment.call, htty]
    refine ⟨hraw, ?_, ?_⟩
    · exact hring ▸ h.lost.out
    · dsimp only
      rw [hflags, h.lost.back, List.append_assoc, hcontents]
  | pump device =>
    obtain ⟨htakes, hroom⟩ := hroomy
    have hfirst : device.TakesBatches s.tty.sourceOutRing.count 1 := by
      intro n hleft hfailures
      refine htakes n hleft (hfailures.trans_le ?_)
      rw [Device.drains]
      split_ifs <;> decide
    obtain ⟨s', n, hdrain, hdrained, hsink, hleft, hfailures⟩ :=
      h.drain (n := 0) hfirst rfl (Nat.zero_le _)
    rw [Attachment.call, pumpDevice, hdrain]
    dsimp only
    split_ifs with hnone
    · exact hdrained
    · rw [Device.drains, if_neg hnone] at htakes
      rw [not_or, Bool.not_eq_true] at hnone
      rw [← hsink] at hroom
      obtain ⟨ring, ready, hwrite, hcontents⟩ := sourceWrite_raw hdrained.raw (hroom hnone.1)
      rw [hwrite]
      have hstored : Sound { s' with
          tty := { s'.tty with sinkInRing := ring, inputReady := ready }
          received := s'.received ++ device.input.take transferSize } := by
        refine ⟨⟨hdrained.raw.canonical, hdrained.raw.echo, hdrained.raw.sourceClosed,
          hdrained.raw.sinkClosed⟩, hdrained.lost.out, ?_⟩
        dsimp only
        rw [hcontents, ← List.append_assoc, ← hdrained.lost.back, List.map_append]
      -- The read has left the source as it was: the second drain goes on where the first stopped.
      obtain ⟨s'', n', hagain, hsound, -⟩ := hstored.drain htakes hleft hfailures
      rw [hagain]
      exact hsound

theorem Sound.run {s : Attachment} (h : s.Sound) {calls : List PumpCall}
    (hroomy : s.AllRoomy calls) : (s.run calls).Sound := by
  induction calls generalizing s with
  | nil => exact h
  | cons c calls ih => exact ih (h.call hroomy.1) hroomy.2

end Attachment

/-- No byte is lost in a run whose device takes every write as a whole, and whose reads find
room. -/
theorem pump_loses_nothing {t : Vtty} {calls : List PumpCall} (hraw : Attachment.Raw t)
    (hempty : t.sourceOutRing.contents = [] ∧ t.sinkInRing.contents = [])
    (hroomy : Attachment.AllRoomy { tty := t } calls) :
    (Attachment.run { tty := t } calls).NothingLost := by
  have hstart : Attachment.Sound { tty := t } := ⟨hraw, hempty.1, hempty.2.symm⟩
  exact (hstart.run hroomy).lost

/-- A terminal just created and set to raw mode. -/
def rawTerminal : Vtty := { flags := { echo := false, canonical := false } }

/-- One device write takes the three bytes that are there; a second one would take nothing. -/
theorem pump_loses_nothing_sample : ∃ s : Attachment,
    Attachment.run { tty := rawTerminal } [.sinkWrite [0x68, 0x0A],
      .pump ⟨fun n => ⟨if n = 0 then 3 else 0, false⟩, false, [0x0D]⟩] = s ∧
    s.delivered = [0x68, 0x0D, 0x0A] ∧ s.received = [0x0D] ∧ s.NothingLost := by
  refine ⟨_, rfl, by decide, by decide,
    pump_loses_nothing ⟨rfl, rfl, rfl, rfl⟩ ⟨rfl, rfl⟩ ⟨trivial, ⟨?_, fun _ => by decide⟩, trivial⟩⟩
  intro n hleft _
  change 128 * n < 3 at hleft
  obtain rfl : n = 0 := by omega
  decide

/-- The device takes one byte of two: the other one is neither in the device nor in the ring. -/
theorem untaken_byte_dropped : ¬∀ (t : Vtty) (calls : List PumpCall), Attachment.Raw t →
    t.sourceOutRing.contents = [] ∧ t.sinkInRing.contents = [] →
      (Attachment.run { tty := t } calls).NothingLost := by
  intro h
  have hlost := (h rawTerminal [.sinkWrite [0x68, 0x69], .pump ⟨fun _ => ⟨1, false⟩, true, []⟩]
    ⟨rfl, rfl, rfl, rfl⟩ ⟨rfl, rfl⟩).out
  cases hlost

end UnDOS.Tty
