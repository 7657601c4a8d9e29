import Mathlib.Tactic.Common

/-!
# Interrupt Hand-Off

A producer in interrupt context pushes records into rings without a lock, and a thread pops
them and parks on an auto-reset dispatcher header when it finds the rings empty.  Two parts of
the source have this shape:

- `dispatch.hpp` and `dispatch.cpp`: one `InterruptRecordRing`, `KE_DISPATCH_EnqueueInterrupt`
  and `InterruptDispatchThread`;
- `ps2_byte_ring.hpp`, `i8042.cpp` and `ps2_pump.cpp`: a `ByteRing` for the keyboard and one for
  the pointer, `I8042_DrainToRings` and `I8042_PumpThread`.

They are one machine with parameters.  Every load and store of a shared word is a step of its
own, and so is every signal and every wait (the header's lock makes those atomic); producer and
consumer take their steps in any order.
-/

namespace UnDOS.Dispatch

/-- `kCapacity`, of both rings. -/
def kCapacity : Nat := 256

/-! ## State -/

/-- A ring.  `pushed` and `popped` are not in the source: they are the records whose `Push` and
    whose `Pop` succeeded, in order. -/
structure RecordRing (α : Type) where
  head : Nat := 0
  tail : Nat := 0
  slots : Nat → α
  pushed : List α := []
  popped : List α := []

/-- One call of `Push`, the calls that follow it in the same interrupt, and whether an earlier
    one succeeded. -/
structure PushCall (ι α : Type) where
  ring : ι
  record : α
  rest : List (ι × α) := []
  buffered : Bool := false

/-- Where the producer is. -/
inductive Producer (ι α : Type) where
  /-- Outside an interrupt. -/
  | idle
  /-- About to load `m_head`. -/
  | push (call : PushCall ι α)
  /-- About to load `m_tail` and compare. -/
  | check (call : PushCall ι α) (head : Nat)
  /-- About to store the record. -/
  | store (call : PushCall ι α) (head : Nat)
  /-- About to store `m_head`. -/
  | publish (call : PushCall ι α) (head : Nat)
  /-- About to signal the header. -/
  | signal

/-- Where the consumer is.  `worked`: it popped a record since its last fresh start. -/
inductive Consumer (ι α : Type) where
  /-- About to load `m_tail` of a ring. -/
  | pop (ring : ι) (worked : Bool)
  /-- About to load `m_head` and compare. -/
  | check (ring : ι) (worked : Bool) (tail : Nat)
  /-- About to load the record. -/
  | load (ring : ι) (worked : Bool) (tail : Nat)
  /-- About to store `m_tail`. -/
  | release (ring : ι) (worked : Bool) (tail : Nat) (record : α)
  /-- About to call `KE_SCHED_WaitForHeader`. -/
  | wait
  /-- Among the waiters of the header. -/
  | parked

/-- What the two parts of the source differ in. -/
structure Machine where
  /-- The rings are numbered from 0 to `last`, in the order in which they are drained. -/
  last : Nat
  /-- After a pass that popped something there is another one before the wait. -/
  recheck : Bool
  /-- The flag the producer gives to `KE_EVENT_Signal`. -/
  wakeAll : Bool

abbrev Machine.Ring (m : Machine) : Type := Fin (m.last + 1)

/-- `dispatch.cpp`. -/
def interruptDispatch : Machine := { last := 0, recheck := false, wakeAll := false }

/-- `i8042.cpp` with `ps2_pump.cpp`. -/
def i8042Pump : Machine := { last := 1, recheck := true, wakeAll := true }

/-- The rings, the header's signal, and the two parties. -/
structure HandOff (m : Machine) (α : Type) where
  rings : m.Ring → RecordRing α
  signalled : Bool := false
  producer : Producer m.Ring α := .idle
  consumer : Consumer m.Ring α := .pop 0 false

variable {m : Machine} {α : Type}

/-- Empty rings with anything in their slots, and the consumer at the start of its loop. -/
def HandOff.init (slots : m.Ring → Nat → α) : HandOff m α where
  rings k := { slots := slots k }

/-! ## The producer -/

/-- What follows a call of `Push`: the next one, and after the last one a signal if a record was
    buffered. -/
def nextCall {ι : Type} (buffered : Bool) : List (ι × α) → Producer ι α
  | [] => if buffered then .signal else .idle
  | (ring, record) :: rest =>
    .push { ring := ring, record := record, rest := rest, buffered := buffered }

/-- `KDispatcherHeader::Signal` on an auto-reset header.  A waiter is released; without one the
    signal stays only if it was not meant for all waiters. -/
def HandOff.signal (s : HandOff m α) : HandOff m α :=
  match s.consumer with
  | .parked =>
    { s with
      consumer := .pop 0 false
      signalled := if m.wakeAll then false else s.signalled }
  | _ => { s with signalled := !m.wakeAll }

/-- A step of the producer.  `batch` is what an interrupt brings, when one begins. -/
def produce (batch : List (m.Ring × α)) (s : HandOff m α) : HandOff m α :=
  match s.producer with
  | .idle => { s with producer := nextCall false batch }
  | .push call => { s with producer := .check call (s.rings call.ring).head }
  | .check call head =>
    if (head + 1) % kCapacity = (s.rings call.ring).tail then
      { s with producer := nextCall call.buffered call.rest }
    else { s with producer := .store call head }
  | .store call head =>
    let ring := s.rings call.ring
    { s with
      rings := Function.update s.rings call.ring
        { ring with slots := Function.update ring.slots head call.record }
      producer := .publish call head }
  | .publish call head =>
    let ring := s.rings call.ring
    { s with
      rings := Function.update s.rings call.ring
        { ring with head := (head + 1) % kCapacity, pushed := ring.pushed ++ [call.record] }
      producer := nextCall true call.rest }
  | .signal => { s.signal with producer := .idle }

/-! ## The consumer -/

/-- What follows a `Pop` that found ring `k` empty. -/
def Machine.afterRing (m : Machine) (k : m.Ring) (worked : Bool) : Consumer m.Ring α :=
  if h : k.val + 1 < m.last + 1 then .pop ⟨k.val + 1, h⟩ worked
  else if m.recheck && worked then .pop 0 false
  else .wait

/-- A step of the consumer. -/
def consume (s : HandOff m α) : HandOff m α :=
  match s.consumer with
  | .pop k worked => { s with consumer := .check k worked (s.rings k).tail }
  | .check k worked tail =>
    if tail = (s.rings k).head then { s with consumer := m.afterRing k worked }
    else { s with consumer := .load k worked tail }
  | .load k worked tail => { s with consumer := .release k worked tail ((s.rings k).slots tail) }
  | .release k _ tail record =>
    let ring := s.rings k
    { s with
      rings := Function.update s.rings k
        { ring with tail := (tail + 1) % kCapacity, popped := ring.popped ++ [record] }
      consumer := .pop k true }
  | .wait =>
    if s.signalled then { s with signalled := false, consumer := .pop 0 false }
    else { s with consumer := .parked }
  | .parked => s

/-! ## Runs -/

/-- Whose step is next. -/
inductive Action (ι α : Type) where
  | produce (batch : List (ι × α))
  | consume
  /-- The wait returns an error; both threads then start over. -/
  | waitFails

def step (s : HandOff m α) : Action m.Ring α → HandOff m α
  | .produce batch => produce batch s
  | .consume => consume s
  | .waitFails =>
    match s.consumer with
    | .wait => { s with consumer := .pop 0 false }
    | _ => s

/-- The state after a run of steps. -/
def run (s : HandOff m α) (actions : List (Action m.Ring α)) : HandOff m α :=
  actions.foldl step s

/-! ## What is claimed -/

/-- The producer is between its store to `m_head` and its signal. -/
def Producer.owesSignal {ι : Type} : Producer ι α → Bool
  | .idle => false
  | .push call => call.buffered
  | .check call _ => call.buffered
  | .store call _ => call.buffered
  | .publish call _ => call.buffered
  | .signal => true

/-- Before it waits, the consumer compares `m_head` of ring `k` once more. -/
def Consumer.willVisit (k : m.Ring) : Consumer m.Ring α → Bool
  | .pop j worked => decide (j ≤ k) || (m.recheck && worked)
  | .check j worked _ => decide (j ≤ k) || (m.recheck && worked)
  | .load j _ _ => decide (j ≤ k) || m.recheck
  | .release j _ _ _ => decide (j ≤ k) || m.recheck
  | .wait => false
  | .parked => false

/-- Both parties are at the same slot, one to store and one to load it. -/
def SlotClash (s : HandOff m α) : Prop :=
  ∃ call head worked tail, s.producer = .store call head ∧
    s.consumer = .load call.ring worked tail ∧ head = tail

/-- The next step of the producer refuses a record for ring `k`. -/
def Refuses (s : HandOff m α) (k : m.Ring) : Prop :=
  ∃ call head, s.producer = .check call head ∧ call.ring = k ∧
    (head + 1) % kCapacity = (s.rings k).tail

/-- The signal that the producer is about to give is not lost: it stays, or the consumer is
    parked, or the consumer still visits every ring that holds records. -/
def Heard (s : HandOff m α) : Prop :=
  s.producer = .signal → m.wakeAll = false ∨ s.consumer = .parked ∨
    ∀ k, (s.rings k).pushed ≠ (s.rings k).popped → s.consumer.willVisit k = true

/-- Every signal of the run is heard. -/
def AllHeard (s : HandOff m α) : List (Action m.Ring α) → Prop
  | [] => True
  | .produce batch :: actions => Heard s ∧ AllHeard (step s (.produce batch)) actions
  | action :: actions => AllHeard (step s action) actions

end UnDOS.Dispatch
