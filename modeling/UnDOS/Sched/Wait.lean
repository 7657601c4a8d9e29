import Mathlib.Data.Finset.Card
import UnDOS.Lib.Run

/-!
# Waiting for Events

`wait.cpp`, `wait.hpp` and `KDispatcherHeader.hpp`: the sections that run under the wait
lock.  Each is one step.

- A wait block lives on the stack of its thread, and a thread is in one wait at a time, so
  a block is named by its thread.  `live` are the threads inside `KE_SCHED_WaitForHeader`
  that have a block.
- The lists that `next` and `timed_next` form are lists of threads.
- `KE_SCHED_WaitForHeader` is two sections: `enterWait` up to the first release of the lock,
  and `recheck` from each time the lock is taken again to the next release.
- Times are nanoseconds, deadlines milliseconds; `duration_cast` rounds toward zero.
-/

namespace UnDOS.Sched

/-! ## Data -/

/-- `KWaitBlock`, with the two locals of the wait that its end reads. -/
structure KWaitBlock where
  header : Nat := 0
  timed : Bool := false
  deadline : Int := 0
  satisfied : Bool := false
  timedOut : Bool := false
deriving DecidableEq

/-- `KDispatcherHeader`. -/
structure KDispatcherHeader where
  signalled : Bool := false
  manualReset : Bool := true
  waiters : List Nat := []
deriving DecidableEq

/-- Every header and wait block, and the timed list `g_timed`. -/
structure Waits where
  headers : Nat → KDispatcherHeader
  timed : List Nat
  live : Finset Nat
  block : Nat → KWaitBlock

/-- What a wait returns. -/
inductive WaitResult where
  | success
  | timeout
deriving DecidableEq

namespace Waits

def setHeader (w : Waits) (h : Nat) (header : KDispatcherHeader) : Waits :=
  { w with headers := Function.update w.headers h header }

def setBlock (w : Waits) (t : Nat) (block : KWaitBlock) : Waits :=
  { w with block := Function.update w.block t block }

/-- `wb->satisfied = true` for each of these. -/
def satisfy (w : Waits) (ts : List Nat) : Waits :=
  { w with block := fun t =>
      if t ∈ ts then { w.block t with satisfied := true } else w.block t }

/-- `wb->timed_out = true` for each of these. -/
def expireBlocks (w : Waits) (ts : List Nat) : Waits :=
  { w with block := fun t =>
      if t ∈ ts then { w.block t with timedOut := true } else w.block t }

end Waits

/-! ## Sections under the wait lock -/

def KDispatcherHeader.tryAcquire (h : KDispatcherHeader) : Bool × KDispatcherHeader :=
  if !h.signalled then (false, h)
  else if !h.manualReset then (true, { h with signalled := false })
  else (true, h)

/-- Milliseconds from nanoseconds. -/
def toMilliseconds (ns : Int) : Int := ns.tdiv 1000000

/-- The block of a new wait. -/
def newBlock (h : Nat) (timeout now : Int) : KWaitBlock where
  header := h
  timed := decide (0 < timeout)
  deadline := if 0 < timeout then toMilliseconds (now + timeout * 1000000) else 0

/-- `KE_SCHED_WaitForHeader` by thread `t` up to the loop: the result, or `none` when the
thread has to wait.  `now` is `KE_TIME_GetSystemTime()`. -/
def enterWait (w : Waits) (t h : Nat) (timeout now : Int) : Waits × Option WaitResult :=
  let (acquired, header) := (w.headers h).tryAcquire
  if acquired then (w.setHeader h header, some .success)
  else if timeout = 0 then (w, some .timeout)
  else
    let w := { w with live := insert t w.live }
    let w := w.setBlock t (newBlock h timeout now)
    let w := w.setHeader h { w.headers h with waiters := (w.headers h).waiters ++ [t] }
    if 0 < timeout then ({ w with timed := t :: w.timed }, none) else (w, none)

/-- The end of `KE_SCHED_WaitForHeader`, after the loop. -/
def leaveWait (w : Waits) (t : Nat) : Waits × Option WaitResult :=
  let wb := w.block t
  let w := if wb.timed then { w with timed := w.timed.erase t } else w
  let w := if !wb.satisfied then
      w.setHeader wb.header
        { w.headers wb.header with waiters := (w.headers wb.header).waiters.erase t }
    else w
  ({ w with live := w.live.erase t }, some (if wb.satisfied then .success else .timeout))

/-- One round of the loop: the thread has the lock again and looks at its block. -/
def recheck (w : Waits) (t : Nat) : Waits × Option WaitResult :=
  if !(w.block t).satisfied ∧ !(w.block t).timedOut then (w, none) else leaveWait w t

/-- `KE_EVENT_Signal`, with the threads it wakes in order. -/
def signalHeader (w : Waits) (h : Nat) (wakeAll : Bool) : Waits × List Nat :=
  let header := w.headers h
  if header.manualReset || wakeAll then
    ((w.satisfy header.waiters).setHeader h
      { header with waiters := [], signalled := header.manualReset }, header.waiters)
  else match header.waiters with
    | t :: rest => ((w.satisfy [t]).setHeader h { header with waiters := rest }, [t])
    | [] => (w.setHeader h { header with signalled := true }, [])

/-- Whether the deadline of a thread's block has passed. -/
def Waits.isDue (w : Waits) (now : Int) (t : Nat) : Bool :=
  decide ((w.block t).deadline * 1000000 ≤ now)

/-- The blocks that `TimedWaitList::Expire` times out. -/
def Waits.due (w : Waits) (now : Int) : List Nat :=
  w.timed.filter fun t => w.isDue now t && !(w.block t).satisfied

/-- `TimedWaitList::Expire`, with the threads it wakes in order. -/
def expireTimed (w : Waits) (now : Int) : Waits × List Nat :=
  ({ w.expireBlocks (w.due now) with timed := w.timed.filter fun t => !w.isDue now t }, w.due now)

/-! ## Interleavings -/

/-- What happens under the wait lock, with what comes of it.  `already` tells whether a
signal found its header signalled and without a waiter. -/
inductive WaitEvent where
  | enter (t h : Nat) (timeout now : Int) (result : Option WaitResult)
  | resume (t h : Nat) (result : Option WaitResult)
  | signal (h : Nat) (wakeAll already : Bool) (woken : List Nat)
  | tick (now : Int) (woken : List Nat)
deriving DecidableEq

/-- One section.  A thread that waits may look at its block at any time: nothing is assumed
about when it is scheduled. -/
def WaitStep (w : Waits) (e : WaitEvent) (w' : Waits) : Prop :=
  match e with
  | .enter t h timeout now result => t ∉ w.live ∧ enterWait w t h timeout now = (w', result)
  | .resume t h result => t ∈ w.live ∧ (w.block t).header = h ∧ recheck w t = (w', result)
  | .signal h wakeAll already woken =>
    already = ((w.headers h).signalled && (w.headers h).waiters.isEmpty) ∧
      signalHeader w h wakeAll = (w', woken)
  | .tick now woken => expireTimed w now = (w', woken)

/-- Nobody waits yet. -/
def Waits.Quiet (w : Waits) : Prop :=
  w.live = ∅ ∧ w.timed = [] ∧ ∀ h, (w.headers h).waiters = []

end UnDOS.Sched
