import Mathlib
import UnDOS.Kernel.Error
import UnDOS.Lib.Ring

/-!
# The Event Broadcaster

`event_broadcaster.cpp`: listeners register interest in a source, broadcasts are queued, and
one pump thread calls the listeners.

Each section under a lock is one step, so a run is an interleaving of the sections of all
threads:

- `register` and `broadcast` are one section each, `unregister` is one section and then, while
  a callback of the token runs on another thread, one more for each round of its waiting loop
  (`poll`);
- the pump thread takes a record (`pop`), collects the listeners of its source (`snapshot`),
  pins one of them and calls it (`next`), and lets it go when the callback returns (`finish`).

A callback runs on the pump thread between `next` and `finish`; meanwhile that thread can
itself register, unregister and broadcast.  The state also keeps what has happened: the tokens
handed out, the records queued and taken, and the tokens whose unregistration has returned.
-/

namespace UnDOS.Event

open UnDOS.Lib
open UnDOS.Kernel (KernelError)

/-! ## Sources, listeners and records -/

/-- `kernel::event::Source`: its type, with the pointer of that type. -/
inductive Source where
  | kobject (ptr : Option Nat)
  | kdevice (ptr : Option Nat)
deriving DecidableEq

/-- The pointer of the source's type is null. -/
def Source.isNull : Source → Bool
  | .kobject ptr | .kdevice ptr => ptr.isNone

/-- `kernel::event::Code`. -/
structure Code where
  value : Int := 0
  category : Nat := 0
deriving DecidableEq

/-- `EventSubscriber`; the callback and the buffer are named by their addresses. -/
structure EventSubscriber where
  id : Nat
  callback : Nat
  source : Source
  userBuffer : Nat
  dead : Bool := false
  activeCalls : Nat := 0
deriving DecidableEq

/-- `BroadcastRecord`. -/
structure BroadcastRecord where
  source : Source := .kobject none
  event : Code := {}
deriving DecidableEq

/-- `kEventQueueCapacity` and `kMaxFanOut`. -/
def eventQueueCapacity : Nat := 64
def maxFanOut : Nat := 32

/-! ## The state -/

/-- Where the pump thread is. -/
inductive Pump where
  | idle
  | popped (record : BroadcastRecord)
  | dispatching (record : BroadcastRecord) (ids : List Nat)
  | calling (record : BroadcastRecord) (id callback userBuffer : Nat) (ids : List Nat)
deriving DecidableEq

/-- The broadcaster, with its history. -/
structure State where
  queue : Ring BroadcastRecord eventQueueCapacity := Ring.empty fun _ => {}
  droppedEvents : Nat := 0
  subscribers : List EventSubscriber := []
  nextTokenId : Nat := 1
  dispatchingId : Nat := 0
  dispatchingThread : Option Nat := none
  pump : Pump := .idle
  /-- The token that a thread waits for in `KE_EVENT_UnregisterInterest`. -/
  waiting : Nat → Option Nat := fun _ => none
  /-- The tokens handed out, newest first. -/
  tokens : List Nat := []
  /-- The records queued so far, and those taken by the pump, in order. -/
  sent : List BroadcastRecord := []
  dispatched : List BroadcastRecord := []
  /-- The tokens whose unregistration has returned to a thread outside their callback. -/
  quiet : List Nat := []

/-- The first listener with the token. -/
def findSubscriber (subs : List EventSubscriber) (id : Nat) : Option EventSubscriber :=
  subs.find? fun sub => sub.id == id

/-- Change the first listener with the token. -/
def modifySubscriber (id : Nat) (f : EventSubscriber → EventSubscriber) :
    List EventSubscriber → List EventSubscriber
  | [] => []
  | sub :: rest => if sub.id = id then f sub :: rest else sub :: modifySubscriber id f rest

/-- Erase the first listener with the token. -/
def eraseSubscriber (subs : List EventSubscriber) (id : Nat) : List EventSubscriber :=
  subs.eraseP fun sub => sub.id == id

/-- `ReleaseSubscriberLocked`. -/
def releaseSubscriber (id : Nat) : List EventSubscriber → List EventSubscriber
  | [] => []
  | sub :: rest =>
    if sub.id ≠ id then sub :: releaseSubscriber id rest
    else
      let sub := { sub with activeCalls := sub.activeCalls - 1 }
      if sub.dead ∧ sub.activeCalls = 0 then rest else sub :: rest

namespace State

/-- The pump thread runs the callback of a token. -/
def Calling (s : State) (id : Nat) : Prop :=
  ∃ record callback userBuffer ids, s.pump = .calling record id callback userBuffer ids

def callerIsDispatching (s : State) (thread id : Nat) : Bool :=
  s.dispatchingId != 0 && s.dispatchingId == id && decide (s.dispatchingThread = some thread)

/-- The thread runs the callback of the token. -/
def runsCallback (pumpThread : Nat) (s : State) (thread id : Nat) : Bool :=
  thread == pumpThread && match s.pump with
    | .calling _ running _ _ _ => running == id
    | _ => false

/-- A thread can call in: it does not wait, and the pump thread is in a callback. -/
def canCall (pumpThread : Nat) (s : State) (thread : Nat) : Bool :=
  (s.waiting thread).isNone && (thread != pumpThread || match s.pump with
    | .calling _ _ _ _ _ => true
    | _ => false)

/-- `KE_EVENT_UnregisterInterest` returns to the thread. -/
def returned (pumpThread : Nat) (s : State) (thread id : Nat) : State :=
  { s with
    waiting := Function.update s.waiting thread none
    quiet := if s.runsCallback pumpThread thread id then s.quiet else id :: s.quiet }

/-- `KE_EVENT_RegisterInterest`; a null callback is `none`. -/
def register (s : State) (target : Source) (fn : Option Nat) (userBuffer : Nat) :
    Except KernelError Nat × State :=
  match fn with
  | none => (.error .invalidArgument, s)
  | some callback =>
    if target.isNull then (.error .invalidArgument, s)
    else if s.nextTokenId = 0 then (.error .resourceLimitExceeded, s)
    else
      (.ok s.nextTokenId,
        { s with
          nextTokenId := (s.nextTokenId + 1) % 2 ^ 64
          subscribers := s.subscribers ++ [⟨s.nextTokenId, callback, target, userBuffer, false, 0⟩]
          tokens := s.nextTokenId :: s.tokens })

/-- The first section of `KE_EVENT_UnregisterInterest`. -/
def unregister (pumpThread : Nat) (s : State) (thread id : Nat) : State :=
  match findSubscriber s.subscribers id with
  | none => s.returned pumpThread thread id
  | some sub =>
    let marked := { s with
      subscribers := modifySubscriber id (fun sub => { sub with dead := true }) s.subscribers }
    if 0 < sub.activeCalls then
      -- A callback that unregisters itself would wait for itself.
      if s.callerIsDispatching thread id then marked.returned pumpThread thread id
      else { marked with waiting := Function.update s.waiting thread (some id) }
    else
      ({ marked with subscribers := eraseSubscriber marked.subscribers id } : State).returned
        pumpThread thread id

/-- One more round of the waiting loop. -/
def poll (pumpThread : Nat) (s : State) (thread id : Nat) : State :=
  match findSubscriber s.subscribers id with
  | none => s.returned pumpThread thread id
  | some sub =>
    if sub.activeCalls = 0 then
      ({ s with subscribers := eraseSubscriber s.subscribers id } : State).returned
        pumpThread thread id
    else s

def broadcast (s : State) (target : Source) (event : Code) : Except KernelError Unit × State :=
  if target.isNull then (.error .invalidArgument, s)
  else if s.queue.count = eventQueueCapacity then
    (.error .queueFull, { s with droppedEvents := (s.droppedEvents + 1) % 2 ^ 32 })
  else
    (.ok (), { s with
      queue := s.queue.push ⟨target, event⟩, sent := s.sent ++ [⟨target, event⟩] })

/-- The listeners that `Dispatch` collects, in the order of the list. -/
def interested (s : State) (source : Source) : List Nat :=
  ((s.subscribers.filter fun sub => !sub.dead && sub.source == source).map
    EventSubscriber.id).take maxFanOut

/-- The section before a callback: the listener is pinned, or passed over. -/
def pin (pumpThread : Nat) (s : State) (record : BroadcastRecord) (id : Nat) (ids : List Nat) :
    State :=
  match findSubscriber s.subscribers id with
  | none => { s with pump := .dispatching record ids }
  | some sub =>
    if sub.dead then { s with pump := .dispatching record ids }
    else
      { s with
        subscribers := modifySubscriber id
          (fun sub => { sub with activeCalls := sub.activeCalls + 1 }) s.subscribers
        dispatchingId := id
        dispatchingThread := some pumpThread
        pump := .calling record id sub.callback sub.userBuffer ids }

end State

/-! ## Steps -/

/-- The sections of all threads. -/
inductive Action where
  | register (thread : Nat) (target : Source) (fn : Option Nat) (userBuffer : Nat)
  | unregister (thread id : Nat)
  | poll (thread : Nat)
  | broadcast (target : Source) (event : Code)
  | pop
  | snapshot
  | next
  | finish
deriving DecidableEq

/-- What a section does, if it can run now.  Only a token that was handed out can be
unregistered, and the pump thread goes on only when its callback waits for nothing. -/
def step (pumpThread : Nat) (s : State) : Action → Option State
  | .register thread target fn userBuffer =>
    if s.canCall pumpThread thread then some (s.register target fn userBuffer).2 else none
  | .unregister thread id =>
    if s.canCall pumpThread thread ∧ id ∈ s.tokens then some (s.unregister pumpThread thread id)
    else none
  | .poll thread => (s.waiting thread).map (s.poll pumpThread thread)
  | .broadcast target event => some (s.broadcast target event).2
  | .pop =>
    match s.pump, s.queue.pop with
    | .idle, some (record, queue) =>
      some { s with queue := queue, pump := .popped record, dispatched := s.dispatched ++ [record] }
    | _, _ => none
  | .snapshot =>
    match s.pump with
    | .popped record => some { s with pump := .dispatching record (s.interested record.source) }
    | _ => none
  | .next =>
    match s.pump with
    | .dispatching _ [] => some { s with pump := .idle }
    | .dispatching record (id :: ids) => some (s.pin pumpThread record id ids)
    | _ => none
  | .finish =>
    match s.pump with
    | .calling record id _ _ ids =>
      if (s.waiting pumpThread).isNone then
        some { s with
          subscribers := releaseSubscriber id s.subscribers
          dispatchingId := 0
          dispatchingThread := none
          pump := .dispatching record ids }
      else none
    | _ => none

end UnDOS.Event
