import UnDOS.Lib.Generation
import UnDOS.Lib.References
import UnDOS.Kernel.Error
import UnDOS.Font.Resource

/-!
# Font Uploads and Faces

`ResourceBudget` and `ResourceTable` of `gfx/font/font_resources.cpp`, and `Face::create`, `~Face`
and `FaceRegistry` of `gfx/font/face.cpp`: `n` processes with a table each, one budget for all
uploads, one registry.

- The bytes of a face are a `FontResourceStorage` that it owns; what else a face computes from them
  at its construction is left out.
- A reference to a face is its identity.  `held` are the references that others hold.
- Whether memory can be allocated is an argument: `none` and `false` mean that it cannot.
-/

namespace UnDOS.Font

open UnDOS.Lib UnDOS.Kernel

/-! ## Constants -/

def maxRegisteredBytes : Nat := 8 * 1024 * 1024
def maxProcessBytes : Nat := 8 * 1024 * 1024
def resourceSlots : Nat := 4
def maxAppendBytes : Nat := 4096
def faceSlots : Nat := 16

/-- `1 << HandleSlotBits`. -/
def slotCodes : Nat := 256
def maxGeneration : Nat := 2 ^ 24 - 1
def resourceSizeAlignment : Nat := 4

/-! ## The state -/

/-- A `FontResourceStorage` that owns nothing. -/
def Bytes.none : Bytes := ⟨fun _ => 0, 0⟩

/-- `ResourceTable::Slot`.  `budget` and `registry` say whether the pointers are set. -/
structure Slot where
  generation : Nat := 1
  written : Nat := 0
  reserved : Nat := 0
  used : Bool := false
  committed : Bool := false
  data : Bytes := Bytes.none
  budget : Bool := false
  registry : Bool := false
  faceHandle : Nat := 0

/-- `ResourceTable`. -/
structure Table where
  slots : Fin resourceSlots → Slot := fun _ => {}
  bytes : Nat := 0

/-- `Face`. -/
structure Face where
  bytes : Bytes
  reserved : Nat

/-- `FaceRegistry::Slot`. -/
structure FaceSlot where
  generation : Nat := 1
  face : Option Nat := none

/-- `FaceRegistry`. -/
structure FaceRegistry where
  budget : Nat := 0
  slots : Fin faceSlots → FaceSlot := fun _ => {}

/-- All of it. -/
structure World (n : Nat) where
  tables : Fin n → Table := fun _ => {}
  budget : Nat := 0
  registry : FaceRegistry := {}
  faces : List (Counted Face) := []
  nextFace : Nat := 0
  held : List Nat := []

abbrev Op (n : Nat) := Prog (World n) Unit

variable {n : Nat}

def modifyTable (p : Fin n) (f : Table → Table) : Op n Unit :=
  Prog.modify fun w => { w with tables := Function.update w.tables p (f (w.tables p)) }

def modifySlot (p : Fin n) (i : Fin resourceSlots) (f : Slot → Slot) : Op n Unit :=
  modifyTable p fun t => { t with slots := Function.update t.slots i (f (t.slots i)) }

def modifyFaceSlot (j : Fin faceSlots) (f : FaceSlot → FaceSlot) : Op n Unit :=
  Prog.modify fun w => { w with
    registry := { w.registry with
      slots := Function.update w.registry.slots j (f (w.registry.slots j)) } }

/-! ## Budgets -/

/-- A difference of 32-bit words. -/
def subWord (a b : Nat) : Nat := if b ≤ a then a - b else a + 2 ^ 32 - b

/-- `ResourceBudget::reserve`, of a budget that has `bytes` in use. -/
def reserve (bytes size : Nat) : Except KernelError Nat :=
  if maxRegisteredBytes - bytes < size then .error .resourceLimitExceeded else .ok (bytes + size)

/-- `ResourceBudget::release`. -/
def releaseBytes (bytes size : Nat) : Nat := subWord bytes size

/-! ## Faces -/

/-- `Ref::reset`, with `~Face` behind the last reference. -/
def dropFace (id : Nat) : Op n Unit := do
  let w ← Prog.get
  Prog.modify fun w => { w with faces := (unref id w.faces).1 }
  match (unref id w.faces).2 with
  | none => pure ()
  | some face => Prog.modify fun w => { w with
      registry := { w.registry with budget := releaseBytes w.registry.budget face.reserved } }

/-- A copy of a `Ref`. -/
def retainFace (id : Nat) : Op n Unit := Prog.modify fun w => { w with faces := retain id w.faces }

/-- `Face::create`, with the error of the validation. -/
def createFace (bytes : Bytes) (room : Bool) : Op n (Except KernelError Nat × Option Error) := do
  match validate bytes with
  | .stuck => Prog.diverge
  | .err e => pure (.error .invalidResource, some e)
  | .ok () =>
    let w ← Prog.get
    match reserve w.registry.budget bytes.size with
    | .error e => pure (.error e, none)
    | .ok budget =>
      Prog.modify fun w => { w with registry := { w.registry with budget } }
      if room = true then
        Prog.modify fun w => { w with
          faces := ⟨w.nextFace, 1, ⟨bytes, bytes.size⟩⟩ :: w.faces
          nextFace := w.nextFace + 1 }
        pure (.ok w.nextFace, none)
      else
        Prog.modify fun w => { w with
          registry := { w.registry with budget := releaseBytes w.registry.budget bytes.size } }
        pure (.error .outOfMemory, none)

/-- What a handle of the registry is compared with. -/
def FaceSlot.stamp (s : FaceSlot) : Stamp := ⟨s.generation, s.face.isSome⟩

def FaceRegistry.lookup (r : FaceRegistry) (handle : Nat) : Option (Fin faceSlots) :=
  resolve slotCodes (fun j => (r.slots j).stamp) handle

/-- A slot for a face. -/
def FaceRegistry.freeSlot (r : FaceRegistry) : Option (Fin faceSlots) :=
  (List.finRange faceSlots).find? fun j => (r.slots j).face.isNone && (r.slots j).generation != 0

/-- `FaceRegistry::publish`, with the error of the validation. -/
def publish (bytes : Bytes) (room : Bool) : Op n (Except KernelError Nat × Option Error) := do
  let (face, validationError) ← createFace bytes room
  match face with
  | .error e => pure (.error e, validationError)
  | .ok id =>
    let w ← Prog.get
    match w.registry.freeSlot with
    | some j =>
      retainFace id
      modifyFaceSlot j fun s => { s with face := some id }
      -- The reference that the routine itself has is dropped when it returns.
      dropFace id
      pure (.ok (handleOf slotCodes (w.registry.slots j).generation j), validationError)
    | none =>
      dropFace id
      pure (.error .resourceLimitExceeded, validationError)

/-- Somebody gets a copy of a `Ref`. -/
def hold (id : Nat) : Op n Unit := do
  retainFace id
  Prog.modify fun w => { w with held := id :: w.held }

/-- Somebody drops a `Ref`. -/
def unhold (id : Nat) : Op n Unit := do
  Prog.modify fun w => { w with held := w.held.erase id }
  dropFace id

/-- `FaceRegistry::acquire`: the caller holds the reference. -/
def acquire (handle : Nat) : Op n (Option Nat) := do
  let w ← Prog.get
  match (w.registry.lookup handle).bind fun j => (w.registry.slots j).face with
  | none => pure none
  | some id =>
    hold id
    pure (some id)

/-- `FaceRegistry::close`. -/
def closeFace (handle : Nat) : Op n (Except KernelError Unit) := do
  let w ← Prog.get
  match w.registry.lookup handle with
  | none => pure (.error .invalidHandle)
  | some j =>
    modifyFaceSlot j fun s => ⟨nextGeneration maxGeneration s.generation, none⟩
    match (w.registry.slots j).face with
    | none => pure ()
    | some id => dropFace id
    pure (.ok ())

/-! ## Uploads -/

/-- What a handle of a table is compared with. -/
def Slot.stamp (s : Slot) : Stamp := ⟨s.generation, s.used⟩

def Table.lookup (t : Table) (handle : Nat) : Option (Fin resourceSlots) :=
  resolve slotCodes (fun i => (t.slots i).stamp) handle

/-- A slot for an upload. -/
def Table.freeSlot (t : Table) : Option (Fin resourceSlots) :=
  (List.finRange resourceSlots).find? fun i => !(t.slots i).used && (t.slots i).generation != 0

/-- The bytes of an upload go back to its budget. -/
def releaseCharge (slot : Slot) : Op n Unit :=
  if slot.budget = true then
    Prog.modify fun w => { w with budget := releaseBytes w.budget slot.reserved }
  else pure ()

/-- The face of a slot is closed, whatever `close` returns. -/
def closeSlotFace (slot : Slot) : Op n Unit :=
  if slot.registry = true then do
    let _ ← closeFace slot.faceHandle
    pure ()
  else pure ()

def release (p : Fin n) (i : Fin resourceSlots) : Op n Unit := do
  let w ← Prog.get
  let slot := (w.tables p).slots i
  releaseCharge slot
  closeSlotFace slot
  modifyTable p fun t => { t with bytes := subWord t.bytes slot.reserved }
  modifySlot p i fun s => { generation := nextGeneration maxGeneration s.generation }

/-- `ResourceTable::begin`.  The new memory has some contents. -/
def beginUpload (p : Fin n) (size : Nat) (memory : Option ByteStore) :
    Op n (Except KernelError Nat) := do
  if size < payloadStart ∨ maxResourceBytes < size ∨ size % resourceSizeAlignment ≠ 0 then
    pure (.error .invalidSize)
  else
    let w ← Prog.get
    if maxProcessBytes - (w.tables p).bytes < size then pure (.error .resourceLimitExceeded)
    else
      match (w.tables p).freeSlot with
      | none => pure (.error .resourceLimitExceeded)
      | some i =>
        match reserve w.budget size with
        | .error e => pure (.error e)
        | .ok budget =>
          Prog.modify fun w => { w with budget }
          match memory with
          | none =>
            Prog.modify fun w => { w with budget := releaseBytes w.budget size }
            pure (.error .outOfMemory)
          | some m =>
            modifySlot p i fun s => { s with
              data := ⟨m, size⟩
              used := true
              committed := false
              written := 0
              reserved := size
              budget := true }
            modifyTable p fun t => { t with bytes := t.bytes + size }
            pure (.ok (handleOf slotCodes ((w.tables p).slots i).generation i))

/-- `ResourceTable::append`.  The argument `none` is a null pointer. -/
def append (p : Fin n) (handle offset : Nat) (data : Option (List UInt8)) :
    Op n (Except KernelError Unit) := do
  match data with
  | none => pure (.error .invalidSize)
  | some data =>
    if data.length = 0 ∨ maxAppendBytes < data.length then pure (.error .invalidSize)
    else
      let w ← Prog.get
      match (w.tables p).lookup handle with
      | none => pure (.error .invalidHandle)
      | some i =>
        let slot := (w.tables p).slots i
        if slot.committed = true then pure (.error .invalidState)
        else if offset ≠ slot.written ∨ slot.data.size - slot.written < data.length then
          pure (.error .invalidOffset)
        else
          modifySlot p i fun s => { s with
            data := ⟨writeAt s.data.data offset data, s.data.size⟩
            written := s.written + data.length }
          pure (.ok ())

/-- `ResourceTable::commit`, with the error of the validation. -/
def commit (p : Fin n) (handle : Nat) (room : Bool) :
    Op n (Except KernelError Nat × Option Error) := do
  let w ← Prog.get
  match (w.tables p).lookup handle with
  | none => pure (.error .invalidHandle, none)
  | some i =>
    let slot := (w.tables p).slots i
    if slot.committed = true ∨ slot.written ≠ slot.data.size then pure (.error .invalidState, none)
    else if slot.generation = maxGeneration then
      release p i
      pure (.error .resourceLimitExceeded, none)
    else
      let (published, validationError) ← publish slot.data room
      match published with
      | .error e =>
        release p i
        pure (.error e, validationError)
      | .ok faceHandle =>
        Prog.modify fun w => { w with budget := releaseBytes w.budget slot.reserved }
        -- The storage belongs to the face now.
        modifySlot p i fun s => { s with
          data := Bytes.none
          budget := false
          registry := true
          faceHandle
          generation := s.generation + 1
          committed := true }
        pure (.ok (handleOf slotCodes (slot.generation + 1) i), validationError)

def Table.registryHandle (t : Table) (handle : Nat) : Nat :=
  match t.lookup handle with
  | none => 0
  | some i => if (t.slots i).committed = true then (t.slots i).faceHandle else 0

def close (p : Fin n) (handle : Nat) : Op n (Except KernelError Unit) := do
  let w ← Prog.get
  match (w.tables p).lookup handle with
  | none => pure (.error .invalidHandle)
  | some i =>
    release p i
    pure (.ok ())

/-- The loop of `ResourceTable::clear`. -/
def clearSlots (p : Fin n) : List (Fin resourceSlots) → Op n Unit
  | [] => pure ()
  | i :: rest => do
    let w ← Prog.get
    if ((w.tables p).slots i).used = true then release p i
    clearSlots p rest

def clear (p : Fin n) : Op n Unit := clearSlots p (List.finRange resourceSlots)

end UnDOS.Font
