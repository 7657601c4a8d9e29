import UnDOS.Kernel.Error
import UnDOS.Lib.ByteStore
import UnDOS.Lib.Within
import UnDOS.Memory.VadTree

/-!
# Physical Frames, Page Tables and Address Spaces

The state that the memory manager works on, and the hardware layer below it:
`HAL/x86_old/pmm.cpp` and `HAL/x86_old/vmm.cpp`.

- `used` is the frame bitmap.  Physical addresses are byte addresses; frame `f` starts
  at `f * 4096`.  Address 0 means failure, as in the source.
- A page directory is seen through its halves.  The tables of the kernel half are shared
  by every directory (`propagate_kernel_pde`), so there is one kernel half; each root
  has a user half of its own.  Entries are indexed by page number, tables by directory
  slot.
- Slots 1022 and 1023 are the windows onto page directories.  Looking up an address
  there finds page tables, as on the machine; mapping or unmapping there rewrites a page
  directory and ends the run of the model.
- `stores` is the log of the bytes that the routines write through mapped addresses,
  newest first.  No routine reads them back, so the contents of memory are not part of
  the state: they are the log applied to what was there before.
- `heap` holds one answer for each request to the slab heap that is still to come:
  whether a cache had an object left or had to take a new slab.
-/

namespace UnDOS.Memory

open UnDOS.Lib
open UnDOS.Kernel (KernelError)

/-! ## Constants and address arithmetic -/

/-- `g_page_size`, `PAGE_SIZE`. -/
def pageSize : Nat := 4096

/-- `UINTPTR_MAX`, `SIZE_MAX` and `VirtualAddress::Invalid` on a 32-bit machine. -/
def uintptrMax : Nat := 2 ^ 32 - 1

/-- `ISA_DMA_LIMIT / PAGE_SIZE`. -/
def dmaFrames : Nat := 0x1000000 / pageSize

def bitmapWordSize : Nat := 32

/-- `KERNEL_SPLIT`, `TEMP_PD_SLOT`, the recursive slot and `MAX_ADDRESS_SPACES`. -/
def kernelSplit : Nat := 768
def tempPdSlot : Nat := 1022
def recursiveSlot : Nat := 1023
def maxAddressSpaces : Nat := 64

def alignDown (a : Nat) : Nat := a / pageSize * pageSize

def alignUp (a : Nat) : Nat := (a + pageSize - 1) / pageSize * pageSize

/-- The page number of an address. -/
def pageOf (a : Nat) : Nat := a / pageSize

/-- The directory slot of a page number. -/
def pdIndex (page : Nat) : Nat := page / 1024

/-! ## Page tables -/

/-- A present page table entry. -/
structure Pte where
  frame : Nat
  writable : Bool
  user : Bool
  cacheDisable : Bool
deriving DecidableEq

/-- `set_frame` with `translate_flags`. -/
def Pte.setFrame (phys : Nat) (flags : ProtectFlags) : Pte where
  frame := alignDown phys
  writable := flags.write
  user := flags.user
  cacheDisable := flags.nocache

/-- One half of a page directory: the frames of its tables, and their entries. -/
structure PageTables where
  tables : Nat → Option Nat
  entries : Nat → Option Pte

namespace PageTables

def empty : PageTables := ⟨fun _ => none, fun _ => none⟩

/-- A new, cleared table in slot `pd`. -/
def newTable (t : PageTables) (pd phys : Nat) : PageTables where
  tables := fun i => if i = pd then some phys else t.tables i
  entries := fun p => if pdIndex p = pd then none else t.entries p

def setEntry (t : PageTables) (page : Nat) (e : Option Pte) : PageTables :=
  { t with entries := fun p => if p = page then e else t.entries p }

def dropTable (t : PageTables) (pd : Nat) : PageTables :=
  { t with tables := fun i => if i = pd then none else t.tables i }

/-- The directory entry is present and so is the table entry. -/
def lookup (t : PageTables) (page : Nat) : Option Pte :=
  match t.tables (pdIndex page) with
  | none => none
  | some _ => t.entries page

/-- Whether no entry of the table in slot `pd` is present. -/
def tableIsEmpty (t : PageTables) (pd : Nat) : Bool :=
  (List.range 1024).all fun i => (t.entries (pd * 1024 + i)).isNone

end PageTables

/-! ## The state -/

/-- `kernel::vmm::AddressSpace`. -/
structure AddressSpace where
  vads : VadTree := .nil
  translationRoot : Nat := uintptrMax
  currentBase : Nat := uintptrMax
  limit : Nat := uintptrMax
deriving DecidableEq

/-- Which address space a routine was handed: the kernel's, or that of a process. -/
inductive SpaceRef where
  | kernel
  | user (pid : Nat)
deriving DecidableEq

/-- How a slab cache serves one request. -/
inductive HeapAnswer where
  | reuse
  | grow
deriving DecidableEq

/-- A store to physical memory: a run of zero bytes or one byte. -/
inductive Store where
  | zeros (addr length : Nat)
  | byte (addr : Nat) (value : UInt8)
deriving DecidableEq

structure Machine where
  /-- The frame bitmap and its size. -/
  used : Nat → Bool
  maxFrames : Nat
  /-- `CR3`. -/
  current : Nat
  /-- `g_roots`. -/
  roots : List Nat
  kernelHalf : PageTables
  userHalf : Nat → PageTables
  /-- `g_kernel_address_space`, and the address spaces of the processes. -/
  kernel : AddressSpace
  spaces : Nat → AddressSpace
  heap : List HeapAnswer
  stores : List Store

/-- A routine of the memory manager. -/
abbrev Vmm (α : Type) := Prog Machine KernelError α

namespace Machine

/-- The address space behind a reference. -/
def space (m : Machine) : SpaceRef → AddressSpace
  | .kernel => m.kernel
  | .user pid => m.spaces pid

def setSpace (m : Machine) (ref : SpaceRef) (as : AddressSpace) : Machine :=
  match ref with
  | .kernel => { m with kernel := as }
  | .user pid => { m with spaces := fun p => if p = pid then as else m.spaces p }

/-- The half of the directory `root` that holds directory slot `pd`. -/
def half (m : Machine) (root pd : Nat) : PageTables :=
  if pd < kernelSplit then m.userHalf root else m.kernelHalf

def setHalf (m : Machine) (root pd : Nat) (t : PageTables) : Machine :=
  if pd < kernelSplit then
    { m with userHalf := fun r => if r = root then t else m.userHalf r }
  else { m with kernelHalf := t }

/-- What the recursive window shows at slot `i`: the table in that slot, or the directory. -/
def window (m : Machine) (root i : Nat) : Option Pte :=
  if i = recursiveSlot then some ⟨root, true, false, false⟩
  else if i = tempPdSlot then none
  else match (m.half root i).tables i with
    | none => none
    | some phys => some ⟨phys, true, false, false⟩

/-- The page table walk: the entry that maps page number `page` under `root`. -/
def walk (m : Machine) (root page : Nat) : Option Pte :=
  if pdIndex page = recursiveSlot then m.window root (page % 1024)
  else if pdIndex page = tempPdSlot then none
  else (m.half root (pdIndex page)).lookup page

end Machine

/-! ## `pmm.cpp` -/

/-- Whether a whole bitmap word is `BITMAP_INIT`. -/
def wordFull (used : Nat → Bool) (frame : Nat) : Bool :=
  (List.range bitmapWordSize).all fun k => used (frame / bitmapWordSize * bitmapWordSize + k)

/-- A scan for `count` free frames in a row, in `[frame, stop)`; `run` frames that start at
`start` have been found so far.  `skip` tells whether the loop skips full words. -/
def scanFrames (used : Nat → Bool) (count stop : Nat) (skip : Bool) :
    Nat → Nat → Nat → Nat → Option Nat
  | 0, _, _, _ => none
  | fuel + 1, frame, run, start =>
    if stop ≤ frame then none
    else if skip && run == 0 && frame % bitmapWordSize == 0 && wordFull used frame then
      scanFrames used count stop skip fuel (frame + bitmapWordSize) 0 start
    else if used frame then scanFrames used count stop skip fuel (frame + 1) 0 start
    else
      let start := if run = 0 then frame else start
      if run + 1 = count then some start
      else scanFrames used count stop skip fuel (frame + 1) (run + 1) start

/-- The frame that `HAL_PMM_AllocateFrames` picks: above the ISA DMA region if it can. -/
def pickFrames (used : Nat → Bool) (maxFrames count : Nat) : Option Nat :=
  if count = 0 then none
  else match scanFrames used count maxFrames true maxFrames dmaFrames 0 0 with
    | some f => some f
    | none => scanFrames used count (min dmaFrames maxFrames) false maxFrames 0 0 0

/-- `HAL_PMM_AllocateFrames`. -/
def pmmAllocateFrames (count : Nat) : Vmm Nat := fun m =>
  match pickFrames m.used m.maxFrames count with
  | none => (.ok 0, m)
  | some f =>
    (.ok (f * pageSize), { m with used := fun k => m.used k || decide (f ≤ k ∧ k < f + count) })

/-- `HAL_PMM_FreeFrames`. -/
def pmmFreeFrames (base count : Nat) : Vmm Unit :=
  Prog.modify fun m =>
    { m with used := fun k =>
        m.used k && !decide (base / pageSize ≤ k ∧ k < base / pageSize + count) }

/-! ## `HAL/x86_old/vmm.cpp` -/

/-- `HAL_VMM_GetPhysicalAddress`, with 0 for an address that is not mapped. -/
def vmmGetPhysicalAddress (virt : Nat) : Vmm Nat := do
  let m ← Prog.get
  match m.walk m.current (pageOf virt) with
  | none => pure 0
  | some e => pure (e.frame + virt % pageSize)

/-- `HAL_VMM_SwitchAddressSpace`. -/
def vmmSwitchAddressSpace (root : Nat) : Vmm Unit :=
  Prog.modify fun m => { m with current := root }

/-- The table for `page`, allocated and cleared when its slot is empty. -/
def ensureTable (page : Nat) : Vmm Bool := do
  let m ← Prog.get
  match (m.half m.current (pdIndex page)).tables (pdIndex page) with
  | some _ => pure true
  | none => do
    let phys ← pmmAllocateFrames 1
    if phys = 0 then pure false
    else do
      Prog.modify fun m =>
        m.setHalf m.current (pdIndex page)
          ((m.half m.current (pdIndex page)).newTable (pdIndex page) phys)
      pure true

/-- `HAL_VMM_MapPage`. -/
def vmmMapPage (virt phys : Nat) (flags : ProtectFlags) : Vmm Bool := do
  let page := pageOf virt
  -- Slots 1022 and 1023 are the page directory itself.
  if tempPdSlot ≤ pdIndex page then Prog.diverge
  else do
    let ok ← ensureTable page
    if !ok then pure false
    else do
      let m ← Prog.get
      match (m.half m.current (pdIndex page)).entries page with
      | some _ => pure false
      | none => do
        Prog.modify fun m =>
          m.setHalf m.current (pdIndex page)
            ((m.half m.current (pdIndex page)).setEntry page (some (Pte.setFrame phys flags)))
        pure true

/-- The table of slot `pd`, given back when `UnmapPage` left it empty.  Tables of the
kernel half stay. -/
def reclaimTable (pd : Nat) : Vmm Unit := do
  let m ← Prog.get
  let t := m.half m.current pd
  match t.tables pd with
  | none => pure ()
  | some phys =>
    if t.tableIsEmpty pd ∧ pd < kernelSplit then do
      Prog.modify fun m => m.setHalf m.current pd (t.dropTable pd)
      pmmFreeFrames phys 1
    else pure ()

/-- `HAL_VMM_UnmapPage`. -/
def vmmUnmapPage (virt : Nat) : Vmm Unit := do
  let page := pageOf virt
  if tempPdSlot ≤ pdIndex page then Prog.diverge
  else do
    let m ← Prog.get
    let t := m.half m.current (pdIndex page)
    match t.tables (pdIndex page) with
    | none => pure ()
    | some _ => do
      Prog.modify fun m => m.setHalf m.current (pdIndex page) (t.setEntry page none)
      reclaimTable (pdIndex page)

/-- `HAL_VMM_CreateAddressSpace`.  The registry of directories holds 64 roots; a directory
that no longer fits in it would stop sharing the kernel half, and ends the run. -/
def vmmCreateAddressSpace : Vmm Nat := do
  let root ← pmmAllocateFrames 1
  if root = 0 then pure 0
  else do
    let m ← Prog.get
    if maxAddressSpaces ≤ m.roots.length then Prog.diverge
    else do
      Prog.modify fun m =>
        { m with
          userHalf := fun r => if r = root then PageTables.empty else m.userHalf r
          roots := m.roots ++ [root] }
      pure root

/-- One round of the loop that reclaims the user half's tables. -/
def reclaimSlot (root pd : Nat) : Vmm Unit := do
  let m ← Prog.get
  match (m.userHalf root).tables pd with
  | none => pure ()
  | some phys => do
    pmmFreeFrames phys 1
    Prog.modify fun m =>
      { m with userHalf := fun r =>
          if r = root then (m.userHalf root).dropTable pd else m.userHalf r }

/-- `HAL_VMM_DestroyAddressSpace`. -/
def vmmDestroyAddressSpace (root : Nat) : Vmm Unit := do
  if root = 0 then pure ()
  else do
    Prog.forRange kernelSplit (reclaimSlot root)
    Prog.modify fun m => { m with roots := m.roots.erase root }
    pmmFreeFrames root 1

/-! ## Writing through mapped addresses

The kernel runs with write protection off (`CR0.WP` is never set), so a write needs a
mapping and nothing else.  An address without one is a page fault inside the kernel. -/

def logStore (st : Store) : Vmm Unit :=
  Prog.modify fun m => { m with stores := st :: m.stores }

/-- `memset(page, 0, g_page_size)` at a page address. -/
def memsetPage (virt : Nat) : Vmm Unit := do
  let m ← Prog.get
  match m.walk m.current (pageOf virt) with
  | none => Prog.diverge
  | some e => logStore (.zeros e.frame pageSize)

/-- `memcpy(virt, data, length)`, byte by byte. -/
def memcpyTo (virt : Nat) : List UInt8 → Vmm Unit
  | [] => pure ()
  | b :: rest => do
    let m ← Prog.get
    match m.walk m.current (pageOf virt) with
    | none => Prog.diverge
    | some e => do
      logStore (.byte (e.frame + virt % pageSize) b)
      memcpyTo (virt + 1) rest

/-! ## What the log says about memory -/

namespace Store

/-- The store touches the byte at `a`. -/
def Covers (st : Store) (a : Nat) : Prop :=
  match st with
  | zeros addr length => addr ≤ a ∧ a < addr + length
  | byte addr _ => a = addr

instance (st : Store) (a : Nat) : Decidable (st.Covers a) :=
  match st with
  | zeros addr length => inferInstanceAs (Decidable (addr ≤ a ∧ a < addr + length))
  | byte addr _ => inferInstanceAs (Decidable (a = addr))

/-- The byte it leaves where it touches. -/
def value : Store → UInt8
  | zeros _ _ => 0
  | byte _ v => v

def apply (st : Store) (mem : ByteStore) : ByteStore := fun a =>
  if st.Covers a then st.value else mem a

end Store

/-- Memory after the logged stores (newest first). -/
def afterStores (stores : List Store) (mem : ByteStore) : ByteStore :=
  stores.foldr Store.apply mem

end UnDOS.Memory
