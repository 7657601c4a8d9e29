import UnDOS.Gfx.Adapters

/-!
# Validation Tokens and Calls

`handle_ValidateVideoPresentTopology_V1`, `handle_CommitVideoPresentTopology_V1`
(`syscalls/GFX.cpp`), the end of a token (`KVideoPresentValidationToken.hpp`), and the system:
any number of calls, as threads of atomic sections.
-/

namespace UnDOS.Gfx

open UnDOS.Kernel (KernelError)
open UnDOS.Lib (Thread System Turn)
open UnDOS.Lib.Thread (atomic)

/-! ## References -/

/-- `~KVideoPresentValidationToken`. -/
def destroyToken (token : Nat) : GfxM Unit := do
  let w ← get
  match w.tokens[token]? with
  | none => return ()
  | some t =>
    if t.reservation.held then finish t.target token false
    setToken token fun t => { t with destroyed := true }

/-- A `KObjectPtr` to the token goes. -/
def dropReference (token : Nat) : GfxM Unit := do
  setToken token fun t => { t with references := t.references - 1 }
  let w ← get
  if (w.tokens[token]?).any fun t => t.references == 0 && !t.destroyed then destroyToken token

def addReference (token : Nat) : GfxM Unit :=
  setToken token fun t => { t with references := t.references + 1 }

def setTable (process : Nat) (table : Process.Table Nat) : GfxM Unit :=
  modifyGet fun w => ((), { w with tables := Function.update w.tables process table })

/-- `ProcessHandleTable::Close`: the object that the entry referred to, if the entry is gone. -/
def closeSection (process handle : Nat) : GfxM (Option Nat) := do
  let w ← get
  let table := w.tables process
  let closed := (table.close handle).2
  setTable process closed
  if closed.entries.length < table.entries.length then
    return (table.lookup handle).bind (·.object)
  else return none

/-- A handle is closed. -/
def closeHandle (process handle : Nat) : Thread World Unit := do
  match ← atomic (closeSection process handle) with
  | some token => atomic (dropReference token)
  | none => return ()

/-- The objects that the entries of a table refer to. -/
def dropAll : List Nat → Thread World Unit
  | [] => return ()
  | token :: tokens => do
    atomic (dropReference token)
    dropAll tokens

/-- The handle table of a process goes; the objects that its entries referred to. -/
def exitSection (process : Nat) : GfxM (List Nat) := do
  let w ← get
  setTable process {}
  return (w.tables process).entries.filterMap (·.object)

/-- A process exits. -/
def exitProcess (process : Nat) : Thread World Unit := do
  let tokens ← atomic (exitSection process)
  dropAll tokens

/-! ## System calls -/

/-- `Read | Write | Close`. -/
def tokenAccess : BitVec 32 := 19

section Sections

variable (o : Outside)

/-- `handles.Allocate`, for a token. -/
def allocateHandle (process token : Nat) : GfxM (Except KernelError Nat) := do
  let w ← get
  let (result, table) := (w.tables process).allocate (some token) tokenAccess 0
  setTable process table
  match result with
  | .error error => return .error error
  | .ok handle =>
    addReference token
    return .ok handle

/-- `handle_ValidateVideoPresentTopology_V1`, for one path. -/
def validateTopology (process generation : Nat) (path : VideoPresentPathInfo) :
    Thread World (Except KernelError Nat) := do
  match ← atomic (ask o .create) with
  | some error => return .error error
  | none =>
    match ← preparePath o generation path with
    | .error error => return .error error
    | .ok token =>
      let handle ← atomic (allocateHandle process token)
      atomic (dropReference token)
      return handle

/-- The look-up of `handle_CommitVideoPresentTopology_V1`: the token, with a reference. -/
def lookupToken (process handle : Nat) :
    GfxM (Except KernelError (Nat × KVideoPresentValidationToken)) := do
  let w ← get
  match (w.tables process).lookup handle with
  | none => return .error .invalidHandle
  | some entry =>
    match entry.object with
    | none => return .error .invalidHandle
    | some token =>
      if !(w.tables process).hasAccess handle 1 then return .error .accessDenied
      else
        match w.tokens[token]? with
        | none => return .error .wrongObjectType
        | some t =>
          addReference token
          return .ok (token, t)

/-- `handle_CommitVideoPresentTopology_V1`. -/
def commitTopology (process handle resultCapacity : Nat) :
    Thread World (Except KernelError VideoPresentTargetResult) := do
  match ← atomic (lookupToken process handle) with
  | .error error => return .error error
  | .ok (token, t) =>
    let (committed, _) ← commitPath o t.generation t.path t.target token resultCapacity
    match committed with
    | .error error =>
      if error ≠ .outOfMemory ∧ error ≠ .bufferTooSmall then closeHandle process handle
      atomic (dropReference token)
      return .error error
    | .ok result =>
      closeHandle process handle
      let _ ← activeVideoPresentTarget o
      atomic (dropReference token)
      return .ok result

/-! ## The system -/

/-- The calls. -/
inductive Call where
  /-- `KE_GFX_RegisterGraphicsAdapter`, and the callbacks that the driver sets. -/
  | registerAdapter (adapter : KGraphicsAdapter)
  | startAdapter (adapter : Nat)
  | refreshAdapter (adapter : Nat)
  | removeAdapter (adapter : Nat)
  | removeDevice (devices : List Nat)
  | acquireSnapshot (generation : Nat)
  | acquirePublishedSnapshot (generation : Nat)
  | validateTopology (process generation : Nat) (path : VideoPresentPathInfo)
  | commitTopology (process handle resultCapacity : Nat)
  | closeHandle (process handle : Nat)
  | exitProcess (process : Nat)

/-- What a call returns, as far as it is a snapshot. -/
inductive Answer where
  | snapshot (s : VideoPresentSnapshot)
  | other

/-- The answer of a call for a snapshot. -/
def snapshotAnswer (r : Except KernelError VideoPresentSnapshot) : Answer :=
  match r with
  | .ok s => .snapshot s
  | .error _ => .other

/-- `KE_GFX_RegisterGraphicsAdapter`. -/
def registerSection (adapter : KGraphicsAdapter) : GfxM Unit :=
  modifyGet fun w => ((), { w with adapters := w.adapters ++ [adapter] })

/-- The thread of a call. -/
def perform : Call → Thread World Answer
  | .registerAdapter adapter => do
    atomic (registerSection adapter)
    return .other
  | .startAdapter adapter => do
    startAdapter o adapter
    return .other
  | .refreshAdapter adapter => do
    let _ ← refreshAdapter o adapter
    return .other
  | .removeAdapter adapter => do
    removeAdapter o adapter
    return .other
  | .removeDevice devices => do
    removeDevice o devices
    return .other
  | .acquireSnapshot generation => do
    let r ← acquireSnapshot o generation
    return snapshotAnswer r
  | .acquirePublishedSnapshot generation => do
    let r ← atomic (acquirePublishedSnapshot generation)
    return snapshotAnswer r
  | .validateTopology process generation path => do
    let _ ← validateTopology o process generation path
    return .other
  | .commitTopology process handle resultCapacity => do
    let _ ← commitTopology o process handle resultCapacity
    return .other
  | .closeHandle process handle => do
    closeHandle process handle
    return .other
  | .exitProcess process => do
    exitProcess process
    return .other

/-- The system after the turns, from a kernel that has not seen an adapter yet. -/
def systemAfter (turns : List (Turn Call)) : System World Answer :=
  System.run (perform o) { state := {} } turns

end Sections

end UnDOS.Gfx
