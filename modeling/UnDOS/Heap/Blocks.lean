import UnDOS.Heap.Slabs
import UnDOS.Lib.Run

/-!
# Blocks of the Kernel Heap

`KE_Malloc` and `KE_Free` (`vmm.cpp`) with the large blocks of `Allocator.cpp`.

A large block is a region of the kernel's address space of its own, with a header in front.  Its
region has a descriptor, which is itself a small block, so `KE_Malloc` and `KE_Free` call
themselves once.  The address space is handed out upwards and never again.

`View` is what the callers know: the blocks that they hold, with the sizes they asked for.
-/

namespace UnDOS.Heap

open UnDOS.Lib
open UnDOS.Memory (Vad VadTree)

/-- `sizeof(VirtualAddressDescriptor)`: four words, a counter, and an AVL node of four words. -/
def sizeofDescriptor : Nat := 36

/-- `sizeof(LargeAllocHeader)`. -/
def sizeofHeader : Nat := 8

/-- The first cache whose objects are large enough. -/
def cacheFor (size : Nat) : Option CacheIndex :=
  (List.finRange 8).find? fun c => size ≤ (layoutOf c).objectSize

/-- What the page allocators answer during one call: for a slab, and for a large block. -/
structure Weather where
  slab : Pages := .mapped
  large : Pages := .mapped
deriving DecidableEq

/-! ## Freeing -/

/-- `KE_Free` of a block that lies in a slab. -/
def freeSmall (h : State) (ptr : Nat) : Option State :=
  match h.registry.find ptr with
  | none => none
  | some range => (h.slabs range.start).map fun s => cacheFree h ptr range.start s

/-- `KE_VMM_FreeRegion` of the kernel's address space. -/
def freeRegion (h : State) (virt : Nat) : Option State :=
  match h.vads.find virt with
  | none => some h
  | some v =>
    match h.descriptors v.start with
    | none => none
    | some descriptor => freeSmall { h with vads := h.vads.remove virt } descriptor

/-- `free_large`; the pages of the block are unmapped, its header with them. -/
def freeLarge (h : State) (ptr : Nat) : Option State :=
  let virt := ptr - sizeofHeader
  match h.headers virt with
  | none => some h
  | some _ => freeRegion { h with headers := Function.update h.headers virt none } virt

def keFree (h : State) (ptr : Nat) : Option State :=
  if ptr = 0 then some h
  else
    match h.registry.find ptr with
    | some _ => freeSmall h ptr
    | none => freeLarge h ptr

/-! ## Allocating -/

/-- The limit check of `reserve_vad`. -/
def hasRoom (h : State) (size : Nat) : Bool :=
  decide (h.currentBase ≤ h.limit ∧ size ≤ h.limit - h.currentBase)

/-- `reserve_vad` in the kernel's address space, for a whole number of pages. -/
def reserveVad (h : State) (size : Nat) (pages : Pages) : Option (Option Nat × State) :=
  if h.currentBase = 0 then some (none, h)
  else if !hasRoom h size then some (none, h)
  else
    match (cacheFor sizeofDescriptor).bind (cacheAllocate h · pages) with
    | none => none
    | some (descriptor, h) =>
      if descriptor = 0 then some (none, h)
      -- The descriptor may have taken a new slab.
      else if !hasRoom h size then (freeSmall h descriptor).map fun h => (none, h)
      else
        let start := h.currentBase
        some (some start,
          { h with
            vads := h.vads.insert { start, stop := start + size, flags := {} }
            descriptors := Function.update h.descriptors start (some descriptor)
            currentBase := start + size })

/-- The pages of a large block. -/
def largePages (size : Nat) : Nat := (size + sizeofHeader + pageSize - 1) / pageSize

/-- `allocate_large` with `vmm::allocate_memory`. -/
def allocateLarge (h : State) (size : Nat) (weather : Weather) : Option (Nat × State) :=
  if 2 ^ 32 - 1 - sizeofHeader < size then some (0, h)
  else if 2 ^ 32 - 1 - (pageSize - 1) < size + sizeofHeader then some (0, h)
  else if weather.large = .noFrames then some (0, h)
  else
    match reserveVad h (largePages size * pageSize) weather.slab with
    | none => none
    | some (none, h) => some (0, h)
    | some (some virt, h) =>
      if weather.large = .mapFails then (freeRegion h virt).map fun h => (0, h)
      else
        some (virt + sizeofHeader,
          { h with headers := Function.update h.headers virt (some (largePages size)) })

/-- `KE_Malloc`; 0 is null, and `none` is a fault. -/
def keMalloc (h : State) (size : Nat) (weather : Weather) : Option (Nat × State) :=
  if size = 0 then some (0, h)
  else
    match cacheFor size with
    | some c => cacheAllocate h c weather.slab
    | none => allocateLarge h size weather

/-! ## Runs -/

/-- One call. -/
inductive Call where
  | malloc (size : Nat) (weather : Weather)
  | free (ptr : Nat)
deriving DecidableEq

/-- The blocks that the callers hold: where they start, and the size that was asked for. -/
abbrev View := List (Nat × Nat)

/-- What a call leads to, and what its caller then knows. -/
def Call.next (p : State × View) : Call → Option (State × View)
  | .malloc size weather =>
    (keMalloc p.1 size weather).map fun r =>
      (r.2, if r.1 = 0 then p.2 else (r.1, size) :: p.2)
  | .free ptr => (keFree p.1 ptr).map fun h => (h, p.2.filter fun b => b.1 ≠ ptr)

/-- Only blocks that are held are freed; a size is a `size_t`. -/
def Call.Permitted (v : View) : Call → Prop
  | .malloc size _ => size < 2 ^ 32
  | .free ptr => ptr = 0 ∨ ∃ size, (ptr, size) ∈ v

/-- One call that returned. -/
def Step (p : State × View) (call : Call) (q : State × View) : Prop :=
  call.Permitted p.2 ∧ call.next p = some q

end UnDOS.Heap
