import UnDOS.Lib.Intrusive
import UnDOS.Lib.Run

/-!
# The Scheduler

`scheduler/Scheduler.cpp`, `scheduler/ReadyQueue.hpp` and `scheduler/CpuContext.hpp`.

- A thread is a number; threads below `created` exist.  `rq_next` and `rq_prev` of every
  thread are the table `links`, which all ready queues share.
- A routine runs with interrupts off, or under the lock of a queue, and is one step here.
- What a context switch does to stacks and address spaces is left out, and so are the
  names and stacks of threads: a thread whose creation fails reaches no queue.
- `none` is a run that does not go on: a scan along links that never end.
-/

namespace UnDOS.Sched

open Function (update)

open UnDOS.Lib.Intrusive

/-! ## Data -/

/-- `KThreadObject::State`. -/
inductive ThreadState where
  | ready
  | running
  | blocked
  | terminated
deriving DecidableEq

/-- `KThreadObject`, what the scheduler reads of it. -/
structure KThreadObject where
  state : ThreadState := .ready
  priority : UInt8 := 0
  quantumTicks : Nat := 0
deriving DecidableEq

/-- `CpuContext`. -/
structure CpuContext where
  online : Bool := false
  current : Option Nat := none
  idle : Option Nat := none
  ready : Queue Nat := {}
deriving DecidableEq

/-- `MAX_CPUS`: `contexts().size()`. -/
def maxCpus : Nat := 32

def defaultQuantum : Nat := 5

structure Scheduler where
  threads : Nat → KThreadObject
  links : Links Nat
  created : Nat
  cpus : Nat → CpuContext

namespace Scheduler

/-- Before `init_bsp`. -/
def initial : Scheduler where
  threads := fun _ => {}
  links := ⟨fun _ => none, fun _ => none⟩
  created := 0
  cpus := fun _ => {}

def state (s : Scheduler) (t : Nat) : ThreadState := (s.threads t).state

def priority (s : Scheduler) (t : Nat) : Nat := (s.threads t).priority.toNat

def current (s : Scheduler) (cpu : Nat) : Option Nat := (s.cpus cpu).current

def ready (s : Scheduler) (cpu : Nat) : Queue Nat := (s.cpus cpu).ready

def setState (s : Scheduler) (t : Nat) (st : ThreadState) : Scheduler :=
  { s with threads := update s.threads t { s.threads t with state := st } }

def setQuantum (s : Scheduler) (t n : Nat) : Scheduler :=
  { s with threads := update s.threads t { s.threads t with quantumTicks := n } }

def setCurrent (s : Scheduler) (cpu t : Nat) : Scheduler :=
  { s with cpus := update s.cpus cpu { s.cpus cpu with current := some t } }

def setIdle (s : Scheduler) (cpu t : Nat) : Scheduler :=
  { s with cpus := update s.cpus cpu { s.cpus cpu with idle := some t } }

/-- The links and the queue of one CPU, after an operation on that queue. -/
def setReady (s : Scheduler) (cpu : Nat) (lq : Links Nat × Queue Nat) : Scheduler :=
  { s with
    links := lq.1
    cpus := update s.cpus cpu { s.cpus cpu with ready := lq.2 } }

end Scheduler

/-! ## Placing threads -/

/-- One round of the loop of `pick_target_cpu`: the best CPU so far and its load. -/
def pickRound (s : Scheduler) (best : Option (Nat × Nat)) (i : Nat) : Option (Nat × Nat) :=
  if !(s.cpus i).online then best
  else match best with
    | none => some (i, (s.ready i).count)
    | some (b, load) => if (s.ready i).count < load then some (i, (s.ready i).count)
        else some (b, load)

def pickTargetCpu (s : Scheduler) : Nat :=
  match (List.range maxCpus).foldl (pickRound s) none with
  | some (best, _) => best
  | none => 0

def enqueueOn (s : Scheduler) (cpu t : Nat) : Scheduler :=
  let target := if cpu < maxCpus then cpu else 0
  s.setReady target (enqueue s.links (s.ready target) t)

/-- A new thread object. -/
def newThread (s : Scheduler) (object : KThreadObject) : Scheduler :=
  { s with
    threads := update s.threads s.created object
    links := (s.links.setNext s.created none).setPrev s.created none
    created := s.created + 1 }

/-- `KE_SCHED_CreateThread` and `KE_SCHED_CreateUserThread` (with priority 1), when they
succeed.  The thread is number `s.created`. -/
def createThread (s : Scheduler) (priority : UInt8) : Scheduler :=
  let s' := newThread s { priority }
  enqueueOn s' (pickTargetCpu s') s.created

/-! ## Scheduling -/

/-- The outgoing thread goes back to the queue if it is still runnable. -/
def requeue (s : Scheduler) (cpu : Nat) : Option Nat → Scheduler
  | none => s
  | some prev =>
    if s.state prev = .running then
      let s := s.setState prev .ready
      s.setReady cpu (enqueue s.links (s.ready cpu) prev)
    else s

/-- The incoming thread takes the CPU. -/
def switchTo (s : Scheduler) (cpu next : Nat) : Scheduler :=
  ((s.setState next .running).setQuantum next defaultQuantum).setCurrent cpu next

def scheduleNext (s : Scheduler) (cpu : Nat) : Option Scheduler :=
  let prev := s.current cpu
  match popNext s.links (s.ready cpu) s.priority s.created with
  | none => none
  | some (none, _) =>
    -- Nothing else ready on this CPU: keep running the current thread.
    match prev with
    | none => some s
    | some prev => some (s.setQuantum prev defaultQuantum)
  | some (some next, lq) => some (switchTo (requeue (s.setReady cpu lq) cpu prev) cpu next)

/-- `KE_SCHED_Yield`. -/
def schedYield (s : Scheduler) (cpu : Nat) : Option Scheduler := scheduleNext s cpu

/-- `sched::tick`. -/
def schedTick (s : Scheduler) (cpu : Nat) : Option Scheduler :=
  match s.current cpu with
  | none => some s
  | some cur =>
    let s := s.setQuantum cur ((s.threads cur).quantumTicks - 1)
    if (s.threads cur).quantumTicks = 0 then scheduleNext s cpu else some s

/-- The current thread leaves its running state and the CPU goes on with another one. -/
def leaveCpu (s : Scheduler) (cpu : Nat) (st : ThreadState) : Option Scheduler :=
  match s.current cpu with
  | none => scheduleNext s cpu
  | some cur => scheduleNext (s.setState cur st) cpu

/-- `block_current_locked`, `KE_SCHED_Block`. -/
def blockCurrentLocked (s : Scheduler) (cpu : Nat) : Option Scheduler := leaveCpu s cpu .blocked

/-- `KE_SCHED_Terminate`. -/
def schedTerminate (s : Scheduler) (cpu : Nat) : Option Scheduler := leaveCpu s cpu .terminated

/-- `ready_locked`, `KE_SCHED_Unblock`. -/
def readyLocked (s : Scheduler) (t : Nat) : Scheduler :=
  if s.state t = .blocked then
    let s := s.setState t .ready
    enqueueOn s (pickTargetCpu s) t
  else s

/-! ## Bringing CPUs up -/

/-- The loop of `create_idle_thread`: unlink the thread from every CPU's queue. -/
def unlinkEverywhere (s : Scheduler) (t : Nat) : List Nat → Scheduler
  | [] => s
  | i :: rest => unlinkEverywhere (s.setReady i (remove s.links (s.ready i) t)) t rest

def createIdleThread (s : Scheduler) (cpu : Nat) : Scheduler :=
  let idle := s.created
  let s := createThread s 0
  -- `KE_SCHED_CreateThread` placed it via `pick_target_cpu()`; move it onto its CPU.
  enqueueOn (unlinkEverywhere s idle (List.range maxCpus)) cpu idle

/-- The stream that runs on a CPU becomes its first thread. -/
def adoptStream (s : Scheduler) (cpu : Nat) : Scheduler :=
  let s := { s with cpus := update s.cpus cpu { s.cpus cpu with online := true } }
  (newThread s { state := .running, priority := 1, quantumTicks := defaultQuantum }).setCurrent cpu
    s.created

/-- What `init_bsp` and `init_ap` share: the CPU gets its first thread and its idle thread. -/
def bringUp (s : Scheduler) (cpu : Nat) : Scheduler :=
  let s := adoptStream s cpu
  (createIdleThread s cpu).setIdle cpu s.created

def initBsp (s : Scheduler) (cpu : Nat) : Scheduler := bringUp s cpu

def initAp (s : Scheduler) (cpu : Nat) : Scheduler := bringUp s cpu

/-! ## Steps -/

/-- What a CPU can do. -/
inductive Action where
  | initBsp (cpu : Nat)
  | initAp (cpu : Nat)
  | createThread (cpu : Nat) (priority : UInt8)
  | yield (cpu : Nat)
  | block (cpu : Nat)
  | unblock (cpu t : Nat)
  | tick (cpu : Nat)
  | terminate (cpu : Nat)
deriving DecidableEq

/-- A CPU that has been brought up. -/
def IsUp (s : Scheduler) (cpu : Nat) : Prop := cpu < maxCpus ∧ (s.cpus cpu).online = true

instance (s : Scheduler) (cpu : Nat) : Decidable (IsUp s cpu) :=
  inferInstanceAs (Decidable (_ ∧ _))

/-- When an action can happen.  The bootstrap processor comes first; an idle thread only
halts and yields (`idle_entry`). -/
def Enabled (s : Scheduler) : Action → Prop
  | .initBsp cpu => cpu < maxCpus ∧ ∀ i < maxCpus, ¬IsUp s i
  | .initAp cpu => cpu < maxCpus ∧ ¬IsUp s cpu ∧ ∃ i < maxCpus, IsUp s i
  | .createThread cpu _ | .yield cpu | .tick cpu => IsUp s cpu
  | .unblock cpu t => IsUp s cpu ∧ t < s.created
  | .block cpu | .terminate cpu => IsUp s cpu ∧ s.current cpu ≠ (s.cpus cpu).idle

instance (s : Scheduler) (a : Action) : Decidable (Enabled s a) := by
  cases a <;> unfold Enabled <;> infer_instance

/-- One action. -/
def step (s : Scheduler) : Action → Option Scheduler
  | .initBsp cpu => some (initBsp s cpu)
  | .initAp cpu => some (initAp s cpu)
  | .createThread _ priority => some (createThread s priority)
  | .yield cpu => schedYield s cpu
  | .block cpu => blockCurrentLocked s cpu
  | .unblock _ t => some (readyLocked s t)
  | .tick cpu => schedTick s cpu
  | .terminate cpu => schedTerminate s cpu

/-- A possible action. -/
def Step (s : Scheduler) (a : Action) (s' : Scheduler) : Prop := Enabled s a ∧ step s a = some s'

end UnDOS.Sched
