import Mathlib
import UnDOS.Lib.Intrusive
import UnDOS.Memory.VadTree

/-!
# Slabs and Caches

The small-block half of the kernel heap: `Layout.cpp`, `Slab.cpp`, `Cache.cpp` and the slab part
of `Allocator.cpp`.

- A slab is one page: the objects first, then at `controlOffset` the slab itself and one
  `Storage` node for each object.  A slab is named here by the address of its page.
- The nodes of a slab's free list are named by the index of their object; the list is only
  popped at the front and pushed at the back.
- The three lists of a cache are intrusive: the links are in the slabs (`DoubleList.hpp`).
- Slabs are found again through one AVL tree, the template that also holds the regions of an
  address space; a slab stands in it as the range of its page.

Addresses and sizes have 32 bits, and 0 is the null pointer.
-/

namespace UnDOS.Heap

open Function (update)

open UnDOS.Lib.Intrusive (Links Queue)
open UnDOS.Memory (Vad VadTree)

/-- `g_page_size`. -/
def pageSize : Nat := 4096

/-- `sizeof(Slab)`: two links, a list of three words, two counters, a pointer, a span of two
words, a pointer, and an AVL node of four words. -/
def sizeofSlab : Nat := 60

/-- `sizeof(Storage)`: two links and a pointer. -/
def sizeofStorage : Nat := 12

/-! ## Layout -/

/-- `Layout`; the objects start at offset 0. -/
structure Layout where
  objectSize : Nat
  objects : Nat
  controlOffset : Nat
  slabSize : Nat
deriving DecidableEq

/-- `(n + alignment - 1) & ~(alignment - 1)` for a power of two. -/
def roundUp (alignment n : Nat) : Nat := (n + alignment - 1) / alignment * alignment

/-- Where the control data starts behind `objects` objects. -/
def controlOffset (objectSize objects : Nat) : Nat := roundUp 8 (objects * objectSize)

/-- The loop of `calculate_layout`: drop objects until the control data fits. -/
def fitObjects (objectSize slabSize : Nat) : Nat → Nat
  | 0 => 0
  | objects + 1 =>
    if slabSize < controlOffset objectSize (objects + 1) + sizeofSlab + (objects + 1) *
      sizeofStorage
    then fitObjects objectSize slabSize objects
    else objects + 1

def calculateLayout (objectSize alignment pageSize : Nat) : Layout :=
  let objectSize := roundUp alignment objectSize
  if pageSize ≤ sizeofSlab then ⟨objectSize, 0, 0, pageSize⟩
  else
    let available := pageSize - sizeofSlab
    let objects := fitObjects objectSize pageSize (available / (objectSize + sizeofStorage))
    ⟨objectSize, objects, controlOffset objectSize objects, pageSize⟩

/-- `g_cache_sizes`. -/
def cacheSizes : List Nat := [16, 32, 64, 128, 256, 512, 1024, 2048]

/-- An index into `g_malloc_caches`. -/
abbrev CacheIndex := Fin 8

/-- The layout of a cache, as `vmm::init` builds it. -/
def layoutOf (c : CacheIndex) : Layout :=
  calculateLayout (cacheSizes.getD c 0) (cacheSizes.getD c 0) pageSize

/-! ## State -/

/-- `Slab`. -/
structure Slab where
  cache : CacheIndex
  allocated : Nat := 0
  freelist : List Nat
deriving DecidableEq

def Slab.empty (s : Slab) : Bool := s.allocated == 0

def Slab.full (s : Slab) : Bool := s.allocated == (layoutOf s.cache).objects

/-- The three lists of a cache. -/
inductive SlabList where
  | freeSlabs | partialSlabs | fullSlabs
deriving DecidableEq

/-- The kernel heap with what it uses of the kernel's address space.

`descriptors` gives the storage of the region that starts at an address, `headers` the page
count in the header of the large block there. -/
structure State where
  slabs : Nat → Option Slab
  links : Links Nat
  lists : CacheIndex × SlabList → Queue Nat
  allocatedBytes : CacheIndex → UInt32
  registry : VadTree
  currentBase : Nat
  limit : Nat
  vads : VadTree
  descriptors : Nat → Option Nat
  headers : Nat → Option Nat

/-- The heap after `vmm::init`, above the last page that was mapped at boot. -/
def State.booted (currentBase : Nat) : State where
  slabs _ := none
  links := ⟨fun _ => none, fun _ => none⟩
  lists _ := {}
  allocatedBytes _ := 0
  registry := .nil
  currentBase := currentBase
  limit := 2 ^ 32 - 1
  vads := .nil
  descriptors _ := none
  headers _ := none

namespace State

def pushBack (h : State) (l : CacheIndex × SlabList) (b : Nat) : State :=
  let r := Lib.Intrusive.enqueue h.links (h.lists l) b
  { h with links := r.1, lists := update h.lists l r.2 }

def remove (h : State) (l : CacheIndex × SlabList) (b : Nat) : State :=
  let r := Lib.Intrusive.detach h.links (h.lists l) b
  { h with links := r.1, lists := update h.lists l r.2 }

def setSlab (h : State) (b : Nat) (s : Slab) : State :=
  { h with slabs := update h.slabs b (some s) }

end State

/-- The entry of a slab in the registry. -/
def slabRange (b : Nat) : Vad := { start := b, stop := b + pageSize, flags := {} }

/-! ## Slabs -/

/-- What the page allocators answer: no frame, a frame that cannot be mapped, or mapped
frames. -/
inductive Pages where
  | noFrames | mapFails | mapped
deriving DecidableEq

/-- `Allocator::allocate_slab` with the constructor of the slab.  Whether the page could be
mapped is not checked: the constructor then faults, and the run ends. -/
def allocateSlab (h : State) (c : CacheIndex) (pages : Pages) : Option (Option Nat × State) :=
  match pages with
  | .noFrames => some (none, h)
  | .mapFails => none
  | .mapped =>
    let virt := (h.currentBase + pageSize) % 2 ^ 32
    let slab : Slab := { cache := c, freelist := List.range (layoutOf c).objects }
    some (some virt,
      { h with
        currentBase := (virt + pageSize) % 2 ^ 32
        slabs := update h.slabs virt (some slab)
        registry := h.registry.insert (slabRange virt) })

def getAvailableSlab (h : State) (c : CacheIndex) (pages : Pages) : Option (Option Nat × State) :=
  match (h.lists (c, .partialSlabs)).head with
  | some b => some (some b, h)
  | none =>
    match (h.lists (c, .freeSlabs)).head with
    | some b => some (some b, h)
    | none =>
      match allocateSlab h c pages with
      | some (some b, h) => some (some b, h.pushBack (c, .freeSlabs) b)
      | r => r

/-- The address of an object. -/
def objectAt (c : CacheIndex) (b : Nat) (index : Nat) : Nat :=
  (b + index * (layoutOf c).objectSize) % 2 ^ 32

/-- `Slab::allocate`: the object of the first node, or null. -/
def Slab.allocate (s : Slab) (b : Nat) : Nat × Slab :=
  match s.freelist with
  | [] => (0, s)
  | index :: rest =>
    (objectAt s.cache b index, { s with allocated := s.allocated + 1, freelist := rest })

def Slab.free (s : Slab) (b ptr : Nat) : Slab :=
  { s with
    allocated := s.allocated - 1
    freelist := s.freelist ++ [(ptr - b) / (layoutOf s.cache).objectSize] }

/-- Move a slab between the lists of its cache after an allocation. -/
def relistAllocated (h : State) (c : CacheIndex) (b : Nat) (wasEmpty : Bool) (s : Slab) : State :=
  if wasEmpty then
    (h.remove (c, .freeSlabs) b).pushBack (c, if s.full then .fullSlabs else .partialSlabs) b
  else if s.full then (h.remove (c, .partialSlabs) b).pushBack (c, .fullSlabs) b
  else h

/-- `Cache::allocate_locked`.  `none` is a fault. -/
def cacheAllocate (h : State) (c : CacheIndex) (pages : Pages) : Option (Nat × State) :=
  match getAvailableSlab h c pages with
  | none => none
  | some (none, h) => some (0, h)
  | some (some b, h) =>
    match h.slabs b with
    | none => none
    | some s =>
      let (ptr, s') := s.allocate b
      let h := { h.setSlab b s' with
        allocatedBytes := update h.allocatedBytes c
          (h.allocatedBytes c + UInt32.ofNat (layoutOf c).objectSize) }
      some (ptr, relistAllocated h c b s.empty s')

/-- Move a slab between the lists of its cache after a free. -/
def relistFreed (h : State) (b : Nat) (wasFull : Bool) (s : Slab) : State :=
  if s.empty then
    (h.remove (s.cache, if wasFull then .fullSlabs else .partialSlabs) b).pushBack
      (s.cache, .freeSlabs) b
  else if wasFull then (h.remove (s.cache, .fullSlabs) b).pushBack (s.cache, .partialSlabs) b
  else h

/-- `Cache::free_locked`. -/
def cacheFree (h : State) (ptr b : Nat) (s : Slab) : State :=
  let s' := s.free b ptr
  let h := { h.setSlab b s' with
    allocatedBytes := update h.allocatedBytes s.cache
      (h.allocatedBytes s.cache - UInt32.ofNat (layoutOf s.cache).objectSize) }
  relistFreed h b s.full s'

end UnDOS.Heap
