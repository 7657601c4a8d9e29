import Mathlib
import UnDOS.Kernel.Error
import UnDOS.Lib.Run

/-!
# The handle table of a process

`ProcessHandleTable` (`kobject/KProcessObject.hpp`): the entries, the handle numbers that were given
back, first in first out, and the standard streams, which name entries by their numbers.

- An entry is a reservation while its `reservation` is not zero, and has no object then.
- A `Reservation` is the token of one `Reserve`: the number of the entry and the identity that was
  drawn for it.
- `α` is the type of the objects that handles refer to; `none` is a null pointer.
-/

namespace UnDOS.Process

open UnDOS.Kernel (KernelError)
open UnDOS.Lib (foldl_keeps)

/-! ## Data -/

/-- `ProcessHandleTable::Entry`. -/
structure Entry (α : Type) where
  handle : Nat
  object : Option α
  access : BitVec 32
  flags : BitVec 32
  refcount : Nat
  reservation : Nat := 0
deriving DecidableEq

/-- `ProcessHandleTable::Reservation`. -/
structure Reservation where
  handle : Nat := 0
  identity : Nat := 0
deriving DecidableEq

/-- `StandardStreamHandle`. -/
structure StandardStreamHandle where
  value : Nat := 0
  available : Bool := false
deriving DecidableEq

/-- `ProcessHandleTable`. -/
structure Table (α : Type) where
  entries : List (Entry α) := []
  freeList : List Nat := []
  nextRawHandle : Nat := 0
  nextReservation : Nat := 0
  standardStreams : Fin 3 → StandardStreamHandle := fun _ => {}

def inheritable : BitVec 32 := 1

def protectFromClose : BitVec 32 := 2

variable {α : Type}

/-- The entries of a table, with the one that a search stops at and those on both sides of it. -/
def locate {β : Type} (p : β → Bool) : List β → Option (List β × β × List β)
  | [] => none
  | a :: rest =>
    if p a then some ([], a, rest)
    else (locate p rest).map fun (before, found, after) => (a :: before, found, after)

/-- What `Lookup` and `Close` look for. -/
def Entry.openAs (h : Nat) (e : Entry α) : Bool := e.handle == h && e.reservation == 0

/-- What `FindReservation` and `Cancel` look for. -/
def Reservation.names (token : Reservation) (e : Entry α) : Bool :=
  token.identity != 0 && e.reservation == token.identity && e.handle == token.handle

/-! ## Operations -/

namespace Table

def lookup (t : Table α) (h : Nat) : Option (Entry α) := t.entries.find? (Entry.openAs h)

def hasAccess (t : Table α) (h : Nat) (required : BitVec 32) : Bool :=
  match t.lookup h with
  | none => false
  | some e => e.access &&& required == required

/-- The end of `AllocateEntry`. -/
def pushEntry (t : Table α) (h : Nat) (object : Option α) (access flags : BitVec 32) : Table α :=
  { t with entries := t.entries ++ [⟨h, object, access, flags, 1, 0⟩] }

def allocateEntry (t : Table α) (object : Option α) (access flags : BitVec 32) :
    Except KernelError Nat × Table α :=
  match t.freeList with
  | raw :: rest => (.ok raw, { t with freeList := rest }.pushEntry raw object access flags)
  | [] =>
    if t.nextRawHandle = 2 ^ 32 - 1 then (.error .resourceLimitExceeded, t)
    else
      (.ok t.nextRawHandle,
        { t with nextRawHandle := t.nextRawHandle + 1 }.pushEntry t.nextRawHandle object
          access flags)

def allocate (t : Table α) (object : Option α) (access flags : BitVec 32) :
    Except KernelError Nat × Table α :=
  if object.isNone then (.error .invalidArgument, t) else t.allocateEntry object access flags

/-- The next identity: a 32-bit counter that leaves out zero. -/
def drawIdentity (t : Table α) : Nat :=
  if (t.nextReservation + 1) % 2 ^ 32 = 0 then 1 else (t.nextReservation + 1) % 2 ^ 32

/-- `entries.back().reservation = identity`. -/
def markBack (t : Table α) (identity : Nat) : Table α :=
  { t with entries := t.entries.dropLast ++
      t.entries.getLast?.toList.map fun e => { e with reservation := identity } }

def reserve (t : Table α) (access flags : BitVec 32) : Except KernelError Reservation × Table α :=
  match t.allocateEntry none access flags with
  | (.error e, t) => (.error e, t)
  | (.ok h, t) =>
    (.ok ⟨h, t.drawIdentity⟩, { t with nextReservation := t.drawIdentity }.markBack t.drawIdentity)

def bind (t : Table α) (token : Reservation) (object : Option α) :
    Except KernelError Nat × Table α :=
  if object.isNone then (.error .invalidArgument, t)
  else
    match locate token.names t.entries with
    | none => (.error .invalidHandle, t)
    | some (before, e, after) =>
      (.ok e.handle,
        { t with entries := before ++ { e with object := object, reservation := 0 } :: after })

def cancel (t : Table α) (token : Reservation) : Except KernelError Unit × Table α :=
  match locate token.names t.entries with
  | none => (.error .invalidHandle, t)
  | some (before, e, after) =>
    (.ok (), { t with entries := before ++ after, freeList := t.freeList ++ [e.handle] })

/-- `Close`.  The reference count is a 32-bit counter. -/
def close (t : Table α) (h : Nat) : Except KernelError Unit × Table α :=
  match locate (Entry.openAs h) t.entries with
  | none => (.error .invalidHandle, t)
  | some (before, e, after) =>
    if e.flags &&& protectFromClose ≠ 0 then (.error .accessDenied, t)
    else
      let refcount := (e.refcount + (2 ^ 32 - 1)) % 2 ^ 32
      if refcount = 0 then
        (.ok (),
          { t with
            entries := before ++ after
            freeList := t.freeList ++ [h]
            standardStreams := fun i =>
              let stream := t.standardStreams i
              if stream.available ∧ stream.value = h then { stream with available := false }
              else stream })
      else (.ok (), { t with entries := before ++ { e with refcount := refcount } :: after })

def setStandardHandle (t : Table α) (stream h : Nat) : Except KernelError Unit × Table α :=
  if hindex : stream < 3 then
    match t.lookup h with
    | none => (.error .invalidHandle, t)
    | some e =>
      if e.object.isNone then (.error .invalidHandle, t)
      else
        (.ok (), { t with
          standardStreams := Function.update t.standardStreams ⟨stream, hindex⟩ ⟨h, true⟩ })
  else (.error .invalidArgument, t)

def allocateStandardHandle (t : Table α) (stream : Nat) (object : Option α) (access : BitVec 32) :
    Except KernelError Unit × Table α :=
  if object.isNone then (.error .invalidArgument, t)
  else if 3 ≤ stream then (.error .invalidArgument, t)
  else
    match t.allocate object access inheritable with
    | (.error e, t) => (.error e, t)
    | (.ok h, t) =>
      match t.setStandardHandle stream h with
      | (.error e, t) => (.error e, (t.close h).2)
      | (.ok (), t) => (.ok (), t)

def getStandardHandle (t : Table α) (stream : Nat) : Except KernelError Nat :=
  if hindex : stream < 3 then
    let named := t.standardStreams ⟨stream, hindex⟩
    if named.available then
      match t.entries.find? fun e => e.handle == named.value && e.object.isSome with
      | some e => .ok e.handle
      | none => .error .invalidHandle
    else .error .standardStreamUnavailable
  else .error .invalidArgument

end Table

/-! ## Runs -/

/-- The calls that change a table. -/
inductive Call (α : Type) where
  | allocate (object : Option α) (access flags : BitVec 32)
  | reserve (access flags : BitVec 32)
  | bind (token : Reservation) (object : Option α)
  | cancel (token : Reservation)
  | close (h : Nat)
  | setStandardHandle (stream h : Nat)
  | allocateStandardHandle (stream : Nat) (object : Option α) (access : BitVec 32)

/-- The table after a call. -/
def Call.next (t : Table α) : Call α → Table α
  | .allocate object access flags => (t.allocate object access flags).2
  | .reserve access flags => (t.reserve access flags).2
  | .bind token object => (t.bind token object).2
  | .cancel token => (t.cancel token).2
  | .close h => (t.close h).2
  | .setStandardHandle stream h => (t.setStandardHandle stream h).2
  | .allocateStandardHandle stream object access =>
      (t.allocateStandardHandle stream object access).2

/-- The token that a call returns, if any. -/
def Call.issues (t : Table α) : Call α → List Reservation
  | .reserve access flags => (t.reserve access flags).1.toOption.toList
  | _ => []

/-- The table after a sequence of calls, oldest first, on an empty one. -/
def tableAfter (calls : List (Call α)) : Table α := calls.foldl Call.next {}

/-- The tokens that a sequence of calls returns. -/
def issuedFrom (t : Table α) : List (Call α) → List Reservation
  | [] => []
  | call :: calls => call.issues t ++ issuedFrom (call.next t) calls

/-- The reservations of a run. -/
def issued (calls : List (Call α)) : List Reservation := issuedFrom {} calls

/-! ## Searches -/

theorem locate_eq_some {β : Type} {p : β → Bool} {l before after : List β} {a : β}
    (h : locate p l = some (before, a, after)) : l = before ++ a :: after ∧ p a := by
  induction l generalizing before with
  | nil => simp [locate] at h
  | cons b rest ih =>
    rw [locate] at h
    split at h
    · next hb =>
      obtain ⟨rfl, rfl, rfl⟩ : [] = before ∧ b = a ∧ rest = after := by simpa using h
      exact ⟨rfl, hb⟩
    · obtain ⟨⟨before', a', after'⟩, hrest, heq⟩ := Option.map_eq_some_iff.1 h
      obtain ⟨rfl, rfl, rfl⟩ : b :: before' = before ∧ a' = a ∧ after' = after := by simpa using heq
      obtain ⟨rfl, ha⟩ := ih hrest
      exact ⟨rfl, ha⟩

theorem locate_eq_none {β : Type} {p : β → Bool} {l : List β} :
    locate p l = none ↔ ∀ a ∈ l, ¬ p a := by
  induction l with
  | nil => simp [locate]
  | cons b rest ih =>
    rw [locate]
    split
    · next hb => simp [hb]
    · next hb => simp [hb, ih]

end UnDOS.Process
