import UnDOS.Kernel.Error
import UnDOS.Lib.Ring

/-!
# Message Rings

`gfx/msgring.hpp`: the messages of one thread, in the order in which they were posted.  A mouse
move replaces the newest message if that is a mouse move to the same window.

A slot takes 20 bytes of memory, so the sum of two indices of a ring stays below 2^32.
-/

namespace UnDOS.User

open UnDOS.Kernel (KernelError)
open UnDOS.Lib

structure QueuedMessage where
  hwnd : UInt32 := 0
  message : UInt32 := 0
  wParam : UInt32 := 0
  lParam : UInt32 := 0
  time : UInt32 := 0
deriving DecidableEq

/-- `MessageRing`.  The source keeps `head` and `count`, and computes the slot behind the newest
message. -/
abbrev MessageRing (N : Nat) := Ring QueuedMessage N

/-- A mouse move after a mouse move to the same window. -/
def coalesces (mouseMove : UInt32) (last m : QueuedMessage) : Bool :=
  last.message == mouseMove && last.hwnd == m.hwnd

namespace MessageRing

variable {N : Nat}

/-- `(head + count - 1) % N`. -/
def lastSlot (r : MessageRing N) : Nat := (r.head + r.count - 1) % N

/-- `Push`. -/
def pushMessage (mouseMove : UInt32) (r : MessageRing N) (m : QueuedMessage) :
    Except KernelError Unit × MessageRing N :=
  if 0 < r.count ∧ m.message = mouseMove ∧ coalesces mouseMove (r.data r.lastSlot) m then
    (.ok (), { r with data := Function.update r.data r.lastSlot m })
  else if r.count = N then (.error .queueFull, r)
  else (.ok (), r.push m)

def peek (r : MessageRing N) : Option QueuedMessage :=
  if r.count = 0 then none else some (r.data r.head)

/-- `Pop`. -/
def popMessage (r : MessageRing N) : Option QueuedMessage × MessageRing N :=
  match r.pop with
  | none => (none, r)
  | some (m, r') => (some m, r')

/-- One round of the loop of `RemoveFor`, over the slots and `kept`. -/
def removeRound (r : MessageRing N) (hwnd : UInt32) (state : (Nat → QueuedMessage) × Nat)
    (i : Nat) : (Nat → QueuedMessage) × Nat :=
  let m := state.1 ((r.head + i) % N)
  if m.hwnd ≠ hwnd then (Function.update state.1 ((r.head + state.2) % N) m, state.2 + 1)
  else state

theorem removeRound_kept (r : MessageRing N) (hwnd : UInt32) (slots : Nat → QueuedMessage)
    (n : Nat) : ((List.range n).foldl (removeRound r hwnd) (slots, 0)).2 ≤ n := by
  induction n with
  | zero => simp
  | succ n ih =>
    rw [List.range_succ, List.foldl_append, List.foldl_cons, List.foldl_nil, removeRound]
    split <;> omega

def removeFor (r : MessageRing N) (hwnd : UInt32) : MessageRing N :=
  let loop := (List.range r.count).foldl (removeRound r hwnd) (r.data, 0)
  { data := loop.1
    head := r.head
    tail := (r.head + loop.2) % N
    count := loop.2
    head_eq := r.head_eq
    tail_eq := rfl
    count_le := Nat.le_trans (removeRound_kept r hwnd r.data r.count) r.count_le }

/-! ## The contents -/

theorem lastSlot_eq {r : MessageRing N} (h : 0 < r.count) : r.lastSlot = r.newestSlot := by
  obtain ⟨n, hn⟩ : ∃ n, r.count = n + 1 := ⟨r.count - 1, by omega⟩
  rw [Ring.newestSlot_eq hn, lastSlot, hn, ← Nat.add_assoc, Nat.add_sub_cancel]

theorem getLast?_contents (r : MessageRing N) :
    r.contents.getLast? = if 0 < r.count then some (r.data r.lastSlot) else none := by
  split
  · next h =>
    obtain ⟨older, holder⟩ := Ring.contents_newest h
    rw [holder, lastSlot_eq h, List.getLast?_concat]
  · next h =>
    have hnil : r.contents = [] := List.length_eq_zero_iff.1 (by rw [Ring.contents_length]; omega)
    rw [hnil, List.getLast?_nil]

theorem contents_replace {r : MessageRing N} (h : 0 < r.count) (m : QueuedMessage) :
    Ring.contents { r with data := Function.update r.data r.lastSlot m } =
      r.contents.dropLast ++ [m] := by
  obtain ⟨older, holder⟩ := Ring.contents_newest h
  have hmodified := Ring.contents_modifyNewest (f := fun _ => m) holder
  rw [holder, List.dropLast_concat, lastSlot_eq h]
  exact hmodified

/-- After `n` rounds the first `kept` slots hold the messages to keep among the first `n`, and the
slots from number `n` on are as they were. -/
theorem removeRounds {r : MessageRing N} (hwnd : UInt32) {n : Nat} (hn : n ≤ r.count) :
    let loop := (List.range n).foldl (removeRound r hwnd) (r.data, 0)
    (List.range loop.2).map (fun i => loop.1 ((r.head + i) % N)) =
        ((List.range n).map fun i => r.data ((r.head + i) % N)).filter (·.hwnd != hwnd) ∧
      ∀ i, n ≤ i → i < N → loop.1 ((r.head + i) % N) = r.data ((r.head + i) % N) := by
  induction n with
  | zero => simp
  | succ n ih =>
    have hle := removeRound_kept r hwnd r.data n
    have hcount := r.count_le
    obtain ⟨hkept, hrest⟩ := ih (by omega)
    rw [List.range_succ, List.foldl_append, List.foldl_cons, List.foldl_nil]
    generalize (List.range n).foldl (removeRound r hwnd) (r.data, 0) = loop at hle hkept hrest ⊢
    have hnext := hrest n (Nat.le_refl n) (by omega)
    rw [List.map_append, List.filter_append, ← hkept]
    dsimp only [removeRound]
    rw [hnext]
    by_cases hm : (r.data ((r.head + n) % N)).hwnd = hwnd
    · refine ⟨by simp [hm], fun i hi hlt => ?_⟩
      rw [if_neg (not_not.2 hm)]
      exact hrest i (by omega) hlt
    · rw [if_pos hm]
      dsimp only
      refine ⟨?_, fun i hi hlt => ?_⟩
      · rw [List.range_succ, List.map_append]
        congr 1
        · -- the message goes to a slot behind those that are kept already
          refine List.map_congr_left fun i hi => ?_
          rw [List.mem_range] at hi
          exact Function.update_of_ne (Ring.slot_ne hi (by omega)) _ _
        · simp [hm]
      · rw [Function.update_of_ne (Ring.slot_ne (by omega) hlt).symm]
        exact hrest i (by omega) hlt

theorem contents_removeFor (r : MessageRing N) (hwnd : UInt32) :
    (removeFor r hwnd).contents = r.contents.filter (·.hwnd != hwnd) :=
  (removeRounds hwnd (Nat.le_refl r.count)).1

end MessageRing

/-! ## Refinement -/

/-- The calls on a ring. -/
inductive RingCall where
  | push (m : QueuedMessage)
  | peek
  | pop
  | removeFor (hwnd : UInt32)
deriving DecidableEq

/-- What a call returns. -/
inductive RingReply where
  | pushed (error : Except KernelError Unit)
  | message (m : Option QueuedMessage)
  | removed

namespace RingCall

def onRing {N : Nat} (mouseMove : UInt32) (r : MessageRing N) :
    RingCall → RingReply × MessageRing N
  | push m => ((r.pushMessage mouseMove m).map .pushed id)
  | peek => (.message r.peek, r)
  | pop => (r.popMessage.map .message id)
  | removeFor hwnd => (.removed, r.removeFor hwnd)

/-- A queue of at most `N` messages, oldest first. -/
def onList (N : Nat) (mouseMove : UInt32) (L : List QueuedMessage) :
    RingCall → RingReply × List QueuedMessage
  | push m =>
    if m.message = mouseMove ∧ L.getLast?.any (coalesces mouseMove · m) then
      (.pushed (.ok ()), L.dropLast ++ [m])
    else if L.length = N then (.pushed (.error .queueFull), L)
    else (.pushed (.ok ()), L ++ [m])
  | peek => (.message L.head?, L)
  | pop => (.message L.head?, L.tail)
  | removeFor hwnd => (.removed, L.filter (·.hwnd != hwnd))

/-- The replies of some calls, and what they lead to. -/
def all {σ : Type} (step : σ → RingCall → RingReply × σ) (s : σ) :
    List RingCall → List RingReply × σ
  | [] => ([], s)
  | call :: calls =>
    let (reply, s') := step s call
    let (replies, last) := all step s' calls
    (reply :: replies, last)

variable {N : Nat} {mouseMove : UInt32}

/-- A push on the ring is a push on the list that it stands for. -/
theorem push_refines (r : MessageRing N) (m : QueuedMessage) :
    (push m).onList N mouseMove r.contents =
      ((push m).onRing mouseMove r).map id Ring.contents := by
  have hle := r.count_le
  simp only [onList, onRing, MessageRing.pushMessage, MessageRing.getLast?_contents,
    Ring.contents_length]
  by_cases hpos : 0 < r.count
  · simp only [hpos, true_and, if_true, Option.any_some]
    split
    · simp [MessageRing.contents_replace hpos]
    · split
      · simp
      · simp [Ring.contents_push (x := m) (show r.count < N by omega)]
  · simp only [hpos, if_false, Option.any_none, Bool.false_eq_true, and_false]
    split
    · simp
    · simp [Ring.contents_push (x := m) (show r.count < N by omega)]

theorem step_refines (r : MessageRing N) (call : RingCall) :
    call.onList N mouseMove r.contents = (call.onRing mouseMove r).map id Ring.contents := by
  cases call with
  | push m => exact push_refines r m
  | peek =>
    simp only [onList, onRing, MessageRing.peek]
    split
    · next h => simp [List.length_eq_zero_iff.1 (r.contents_length.trans h)]
    · next h =>
      obtain ⟨rest, hrest⟩ := Ring.contents_head (r := r) (by omega)
      simp [hrest]
  | pop =>
    simp only [onList, onRing, MessageRing.popMessage]
    cases hpop : r.pop with
    | none => simp [Ring.pop_none hpop]
    | some popped => simp [Ring.pop_contents hpop]
  | removeFor hwnd => simp [onList, onRing, MessageRing.contents_removeFor]

/-- A ring in any state, with its head anywhere, is a queue. -/
theorem message_ring_refines (r : MessageRing N) (calls : List RingCall) :
    all (onList N mouseMove) r.contents calls =
      (all (onRing mouseMove) r calls).map id Ring.contents := by
  induction calls generalizing r with
  | nil => rfl
  | cons call calls ih =>
    simp only [all, step_refines, Prod.map, id_eq, ih]

end RingCall

end UnDOS.User
