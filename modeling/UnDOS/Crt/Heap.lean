import UnDOS.Lib.ByteStore
import UnDOS.Lib.Within

/-!
# The Heap of the C Runtime

`crt_malloc`, `crt_free`, `crt_calloc` and `crt_realloc` of `CRT/heap.c`, over the memory itself:
the headers of the blocks and the links of the free list are words in it.

- A pointer is an address below 2^32, and 0 is `NULL`.
- An addition or a multiplication of sizes that would wrap gets stuck, and so does a walk over a
  free list that does not end.  Only `align_up` adds modulo 2^32; what wrapped there is recorded in
  `wraps`.
- `undos_libc_allocate_pages` is the argument `grow`: the address that it returns for a size.  What
  it has given is recorded in `pages`.
-/

namespace UnDOS.Crt

open UnDOS.Lib

/-! ## The state -/

def pageSize : Nat := 4096
def arenaChunkSize : Nat := 64 * 1024

/-- `sizeof(BlockHeader)`, which is also its alignment. -/
def headerSize : Nat := 16

/-- `SIZE_MAX` and `UINTPTR_MAX`. -/
def sizeMax : Nat := 2 ^ 32 - 1

/-- The memory and the variables of the heap.  `pages` lists what the backend has given, each with
its size, and `wraps` the sums of `align_up` that wrapped; the code reads neither. -/
structure Heap where
  mem : ByteStore
  cursor : Nat := 0
  arenaEnd : Nat := 0
  freeList : Nat := 0
  pages : List (Nat × Nat) := []
  wraps : List (Nat × Nat) := []

abbrev Op := Prog Heap Unit

/-- `a + b` of sizes. -/
@[irreducible] def addSize (a b : Nat) : Op Nat := if a + b ≤ sizeMax then pure (a + b)
    else Prog.diverge

/-- `a * b` of sizes. -/
@[irreducible] def mulSize (a b : Nat) : Op Nat := if a * b ≤ sizeMax then pure (a * b)
    else Prog.diverge

/-- The sum `v + a` is recorded if it wraps. -/
def Heap.summed (h : Heap) (v a : Nat) : Heap :=
  if v + a ≤ sizeMax then h else { h with wraps := (v, a) :: h.wraps }

/-- `align_up`, for a power of two: first `v + a`, then `- 1`, both modulo 2^32. -/
def alignUp (v a : Nat) : Op Nat := do
  Prog.modify fun h => h.summed v a
  let sum := (v + a) % 2 ^ 32
  pure ((sum + sizeMax) % 2 ^ 32 / a * a)

/-- The word at an address. -/
def load (address : Nat) : Op Nat := do
  let h ← Prog.get
  pure (wordAt h.mem address 4)

/-- Write bytes. -/
def storeBytes (address : Nat) (data : List UInt8) : Op Unit :=
  Prog.modify fun h => { h with mem := writeAt h.mem address data }

/-- Write a word. -/
def storeWord (address value : Nat) : Op Unit := storeBytes address (leBytes 4 value)

/-- `header->size`. -/
def sizeOf (header : Nat) : Op Nat := load header

/-- `header->next`. -/
def nextOf (header : Nat) : Op Nat := load (header + 4)

/-- A `BlockHeader **`: the variable `g_free_list` or the field `next` of a header. -/
inductive Link where
  | root
  | next (header : Nat)
deriving DecidableEq

/-- `*link`. -/
def Link.get : Link → Op Nat
  | .root => do return (← Prog.get).freeList
  | .next header => nextOf header

/-- `*link = value`. -/
def Link.set (value : Nat) : Link → Op Unit
  | .root => Prog.modify fun h => { h with freeList := value }
  | .next header => storeWord (header + 4) value

/-! ## The operations -/

def growArena (grow : Nat → Nat) (minSize : Nat) : Op Bool := do
  if sizeMax - (pageSize - 1) < minSize then pure false
  else
    let chunkSize ← alignUp (max minSize arenaChunkSize) pageSize
    let address := grow chunkSize
    if address = 0 then pure false
    else
      Prog.modify fun h => { h with pages := (address, chunkSize) :: h.pages }
      if sizeMax - chunkSize < address then pure false
      else
        let arenaEnd ← addSize address chunkSize
        Prog.modify fun h => { h with cursor := address, arenaEnd }
        pure true

/-- The search of the free list, with `n` rounds to go: the first block that is large enough is
unlinked. -/
def takeFit (alignedSize : Nat) : Nat → Link → Op (Option Nat)
  | 0, _ => Prog.diverge
  | n + 1, link => do
    let block ← link.get
    if block = 0 then pure none
    else
      let size ← sizeOf block
      if alignedSize ≤ size then
        let next ← nextOf block
        link.set next
        pure (some block)
      else takeFit alignedSize n (.next block)

/-- Room for `needed` more bytes in the arena. -/
def ensureRoom (grow : Nat → Nat) (needed : Nat) : Op Bool := do
  let h ← Prog.get
  if h.arenaEnd - h.cursor < needed then growArena grow needed else pure true

/-- A fresh block from the arena. -/
def carve (alignedSize needed : Nat) : Op Nat := do
  let header := (← Prog.get).cursor
  storeWord header alignedSize
  storeWord (header + 4) 0
  let cursor ← addSize header needed
  Prog.modify fun h => { h with cursor }
  pure (header + headerSize)

/-- The list is at most as long as there are addresses. -/
def walkLimit : Nat := 2 ^ 32

/-- `crt_malloc`. -/
def malloc (grow : Nat → Nat) (size : Nat) : Op Nat := do
  if size = 0 ∨ sizeMax - headerSize - (headerSize - 1) < size then pure 0
  else
    let alignedSize ← alignUp size headerSize
    match ← takeFit alignedSize walkLimit .root with
    | some block => pure (block + headerSize)
    | none =>
      let needed ← addSize headerSize alignedSize
      if ← ensureRoom grow needed then carve alignedSize needed else pure 0

/-- `crt_free`. -/
def free (ptr : Nat) : Op Unit := do
  if ptr = 0 then pure ()
  else
    let header := ptr - headerSize
    let h ← Prog.get
    storeWord (header + 4) h.freeList
    Prog.modify fun h => { h with freeList := header }

/-- `crt_calloc`. -/
def calloc (grow : Nat → Nat) (count size : Nat) : Op Nat := do
  if size ≠ 0 ∧ sizeMax / size < count then pure 0
  else
    let total ← mulSize count size
    let ptr ← malloc grow total
    if ptr ≠ 0 then
      storeBytes ptr (List.replicate total 0)
      pure ptr
    else pure 0

/-- `crt_realloc`. -/
def realloc (grow : Nat → Nat) (ptr size : Nat) : Op Nat := do
  if ptr = 0 then malloc grow size
  else if size = 0 then
    free ptr
    pure 0
  else
    let old ← sizeOf (ptr - headerSize)
    if size ≤ old then pure ptr
    else
      let replacement ← malloc grow size
      if replacement = 0 then pure 0
      else
        let old ← sizeOf (ptr - headerSize)
        let h ← Prog.get
        storeBytes replacement (readAt h.mem ptr old)
        free ptr
        pure replacement

end UnDOS.Crt
