import Mathlib
import UnDOS.Lib.Ring
import UnDOS.Lib.Run

/-!
# The Ring of Input Events

`input/event_ring.hpp`: 128 events, oldest first.  A push onto a full ring adds pure mouse motion
to the newest entry if that is pure mouse motion too; any other push displaces the oldest entry.

The source calls the slot that is written next `m_head` and the slot that is read next `m_tail`;
`Ring` has them the other way round.
-/

namespace UnDOS.Input

open UnDOS.Lib

/-! ## Events -/

/-- `InputEvent`, without the type: that is the constructor of `AnyInputEvent`. -/
structure InputEvent where
  unitId : UInt16 := 0
  flags : UInt16 := 0
  timestamp : Int := 0
deriving DecidableEq

/-- `KeyboardInputEvent`. -/
structure KeyboardInputEvent extends InputEvent where
  virtualKey : UInt16 := 0
  scanCode : UInt8 := 0
  keyFlags : UInt16 := 0
  character : UInt8 := 0
  modifiers : UInt32 := 0
deriving DecidableEq

/-- `MouseInputEvent`. -/
structure MouseInputEvent extends InputEvent where
  isMovementAbsolute : Bool := false
  lastX : Int32 := 0
  lastY : Int32 := 0
  buttonFlags : UInt16 := 0
  buttonData : Int16 := 0
deriving DecidableEq

/-- `AnyInputEvent`. -/
inductive AnyInputEvent where
  | base (e : InputEvent)
  | keyboard (e : KeyboardInputEvent)
  | mouse (e : MouseInputEvent)
deriving DecidableEq

namespace AnyInputEvent

/-- `IsPureMotionMouseEvent`. -/
def isPureMotion : AnyInputEvent → Bool
  | mouse e => e.buttonFlags == 0
  | _ => false

/-- Motion in the device's own coordinates. -/
def isAbsolute : AnyInputEvent → Bool
  | mouse e => e.isMovementAbsolute
  | _ => false

/-- The relative motion of an event. -/
def displacement : AnyInputEvent → Int × Int
  | mouse e => if e.isMovementAbsolute then 0 else (e.lastX.toInt, e.lastY.toInt)
  | _ => 0

end AnyInputEvent

/-- `Push` of the motion `source` into the newest entry `target`. -/
def MouseInputEvent.coalesce (target source : MouseInputEvent) : MouseInputEvent :=
  let target :=
    if source.isMovementAbsolute then
      { target with isMovementAbsolute := true, lastX := source.lastX, lastY := source.lastY }
    else if !target.isMovementAbsolute then
      { target with lastX := target.lastX + source.lastX, lastY := target.lastY + source.lastY }
    else source
  { target with timestamp := source.timestamp }

/-- `coalesce` on the entries of the ring. -/
def AnyInputEvent.coalesce : AnyInputEvent → AnyInputEvent → AnyInputEvent
  | mouse target, mouse source => mouse (target.coalesce source)
  | target, _ => target

/-! ## The ring -/

/-- `EventRing`, of capacity `kCapacity`. -/
abbrev EventRing := Ring AnyInputEvent 128

namespace EventRing

/-- `m_items[m_tail]` and `m_items[Prev(m_head)]`. -/
def oldest (r : EventRing) : AnyInputEvent := r.data r.head
def newest (r : EventRing) : AnyInputEvent := r.data r.newestSlot

/-- How a push goes. -/
inductive Way where
  | append | coalesce | displace
deriving DecidableEq

/-- The branches of `Push`. -/
def way (r : EventRing) (event : AnyInputEvent) : Way :=
  if r.count < 128 then .append
  else if event.isPureMotion && r.newest.isPureMotion then .coalesce
  else .displace

/-- `m_tail = Next(m_tail); --m_count;`. -/
def dropOldest (r : EventRing) : EventRing :=
  match r.pop with
  | some (_, r) => r
  | none => r

/-- `EventRing::Push`. -/
def pushEvent (r : EventRing) (event : AnyInputEvent) : EventRing :=
  match r.way event with
  | .append => r.push event
  | .coalesce => r.modifyNewest fun target => target.coalesce event
  | .displace => r.dropOldest.push event

/-! ## What a push does to the contents -/

variable {event : AnyInputEvent}

theorem contents_append {r : EventRing} (h : r.way event = .append) :
    (r.pushEvent event).contents = r.contents ++ [event] := by
  unfold pushEvent
  rw [h]
  apply Ring.contents_push
  unfold way at h
  split_ifs at h with hroom
  exact hroom

theorem full_of_way {r : EventRing} (h : r.way event ≠ .append) : r.count = 128 := by
  have hle := r.count_le
  unfold way at h
  split_ifs at h <;> first | exact absurd rfl h | omega

theorem contents_coalesce {r : EventRing} (h : r.way event = .coalesce) :
    ∃ older, r.contents = older ++ [r.newest] ∧
      (r.pushEvent event).contents = older ++ [r.newest.coalesce event] := by
  have hfull := full_of_way (by rw [h]; exact Way.noConfusion)
  obtain ⟨older, holder⟩ := Ring.contents_newest (r := r) (by omega)
  refine ⟨older, holder, ?_⟩
  unfold pushEvent
  rw [h]
  exact Ring.contents_modifyNewest holder

theorem contents_displace {r : EventRing} (h : r.way event = .displace) :
    ∃ younger, r.contents = r.oldest :: younger ∧
      (r.pushEvent event).contents = younger ++ [event] := by
  have hfull := full_of_way (by rw [h]; exact Way.noConfusion)
  obtain ⟨younger, hyounger⟩ := Ring.contents_head (r := r) (by omega)
  refine ⟨younger, hyounger, ?_⟩
  unfold pushEvent dropOldest
  rw [h]
  rcases hpop : r.pop with _ | ⟨x, r'⟩
  · have hempty := Ring.pop_none hpop
    rw [hyounger] at hempty
    cases hempty
  · have hcontents := Ring.pop_contents hpop
    rw [hyounger] at hcontents
    obtain ⟨-, rfl⟩ := List.cons.inj hcontents
    have hcount : r'.count < 128 := by
      have hlength := congrArg List.length hyounger
      rw [Ring.contents_length, List.length_cons, Ring.contents_length] at hlength
      omega
    exact Ring.contents_push hcount event

end EventRing

end UnDOS.Input
