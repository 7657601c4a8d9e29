import UnDOS.Memory.Machine

/-!
# The Memory Manager

`Kernel/Source/src/vmm.cpp`, with the parts of `memory/Allocator.cpp` and
`memory/Cache.cpp` through which its own allocations change the kernel's address space.

- An address space is handed over by reference (`SpaceRef`).
- `expected` and `error_code` results are the outcome of the routine; a result that the
  source only prints is caught with `attempt` and dropped.
- A panic (`fatal` in the page fault handler) never returns.
- `g_page_size` is 4096, so the checks for an uninitialized page size are left out.
- Sizes and addresses are numbers; every sum that the source lets wrap is written with
  its check.
-/

namespace UnDOS.Memory

open UnDOS.Lib
open UnDOS.Kernel (KernelError)

/-! ## The kernel heap, small blocks -/

/-- The address of a new slab, one guard page after the kernel's current base, which moves
past it.  Past the end of the address space the sum wraps to low memory; the run ends. -/
def placeSlab : Vmm Nat := fun m =>
  let virt := m.kernel.currentBase + pageSize
  if uintptrMax < virt + pageSize then (.stuck, m)
  else (.ok virt, { m with kernel := { m.kernel with currentBase := virt + pageSize } })

/-- `Allocator::allocate_slab` followed by the slab's constructor.  A slab is one page
(`calculate_layout`). -/
def allocateSlab : Vmm Bool := do
  let phys ← pmmAllocateFrames 1
  if phys = 0 then pure false
  else do
    let virt ← placeSlab
    -- The result is ignored; the constructor then writes to the page.
    let _ ← vmmMapPage virt phys ProtectFlags.readWrite
    let m ← Prog.get
    match m.walk m.current (pageOf virt) with
    | none => Prog.diverge
    | some _ => pure true

/-- `Cache::allocate`: whether an object was found. -/
def cacheAllocate : Vmm Bool := do
  let m ← Prog.get
  match m.heap with
  | [] => pure true
  | answer :: rest => do
    Prog.modify fun m => { m with heap := rest }
    match answer with
    | .reuse => pure true
    | .grow => allocateSlab

/-! ## Regions -/

/-- The limit check of `reserve_vad`, which the source makes twice. -/
def AddressSpace.hasRoom (as : AddressSpace) (alignedSize : Nat) : Bool :=
  decide (as.currentBase ≤ as.limit ∧ alignedSize ≤ as.limit - as.currentBase)

/-- `reserve_vad` once the descriptor has been allocated. -/
def insertVad (ref : SpaceRef) (size : Nat) (flags : ProtectFlags)
    (backing : Option BackingKind) : Vmm Vad := fun m =>
  let as := m.space ref
  -- Metadata allocation can grow the slab heap and advance this address space.
  if as.hasRoom (alignUp size) then
    let vad : Vad := ⟨as.currentBase, as.currentBase + size, flags, backing⟩
    (.ok vad, m.setSpace ref
      { as with vads := as.vads.insert vad, currentBase := as.currentBase + alignUp size })
  else (.err .addressSpaceExhausted, m)

def reserveVad (ref : SpaceRef) (size : Nat) (flags : ProtectFlags)
    (backing : Option BackingKind) : Vmm Vad := do
  let m ← Prog.get
  if (m.space ref).currentBase = 0 then Prog.throw .notInitialized
  else if size = 0 then Prog.throw .invalidSize
  else if size > uintptrMax - (pageSize - 1) then Prog.throw .arithmeticOverflow
  else if !(m.space ref).hasRoom (alignUp size) then Prog.throw .addressSpaceExhausted
  else do
    let ok ← cacheAllocate
    if !ok then Prog.throw .outOfMemory
    else insertVad ref size flags backing

/-- `KE_VMM_AllocateRegion`. -/
def allocateRegion (ref : SpaceRef) (size : Nat) (flags : ProtectFlags) : Vmm Nat := do
  let vad ← reserveVad ref size flags none
  pure vad.start

/-- `KE_VMM_MapBackingObject`. -/
def mapBackingObject (ref : SpaceRef) (backing : Option BackingKind) (size : Nat)
    (flags : ProtectFlags) : Vmm Vad :=
  match backing with
  | none => Prog.throw .invalidArgument
  | some kind => reserveVad ref size flags (some kind)

/-- `KE_VMM_FreeRegion`. -/
def freeRegion (ref : SpaceRef) (addr : Nat) : Vmm Unit := fun m =>
  let as := m.space ref
  match as.vads.find addr with
  | none => (.err .notFound, m)
  | some _ => (.ok (), m.setSpace ref { as with vads := as.vads.remove addr })

/-- `allocate_user_backed_region`; `insert` is the object manager's answer when the backing
object is added to `\Memory`. -/
def allocateUserBackedRegion (ref : SpaceRef) (size : Nat) (flags : ProtectFlags)
    (insert : Except KernelError Unit) : Vmm Nat := do
  let ok ← cacheAllocate
  if !ok then Prog.throw .outOfMemory
  else do
    Prog.ofExcept insert
    let vad ← mapBackingObject ref (some .anonymous) size flags
    pure vad.start

/-- `KE_VMM_AllocateUserData`. -/
def allocateUserData (ref : SpaceRef) (size : Nat) (insert : Except KernelError Unit) : Vmm Nat :=
  allocateUserBackedRegion ref size (ProtectFlags.readWrite.or ProtectFlags.onlyUser) insert

/-- `KE_VMM_AllocateUserProcess`. -/
def allocateUserProcess (ref : SpaceRef) (size : Nat) (insert : Except KernelError Unit) :
    Vmm Nat :=
  allocateUserBackedRegion ref size
    ((ProtectFlags.onlyRead.or ProtectFlags.onlyExecute).or ProtectFlags.onlyUser) insert

/-! ## Mapped memory -/

/-- Map a page writable, clear it, and map it again read-only where it is to be read-only. -/
def mapInitialized (page phys : Nat) (flags : ProtectFlags) : Vmm Bool := do
  let ok ← vmmMapPage page phys (flags.or ProtectFlags.onlyWrite)
  if !ok then pure false
  else do
    memsetPage page
    if flags.write then pure true
    else do
      vmmUnmapPage page
      vmmMapPage page phys flags

/-- Run `body` with the address space `root` active when `switch` says so. -/
def withSpace {α : Type} (switch : Bool) (root : Nat) (body : Vmm α) : Vmm α := do
  let m ← Prog.get
  if switch then do
    vmmSwitchAddressSpace root
    let r ← body
    vmmSwitchAddressSpace m.current
    pure r
  else body

/-- One round of the mapping loop of `allocate_memory`. -/
def allocatePage (virt phys : Nat) (flags : ProtectFlags) (i : Nat) : Vmm Unit := do
  let ok ← mapInitialized (virt + i * pageSize) (phys + i * pageSize) flags
  if ok then pure () else Prog.throw .deviceError

/-- The mapping loop of `allocate_memory` with its rollback; whether every page was mapped. -/
def allocatePages (ref : SpaceRef) (virt phys count : Nat) (flags : ProtectFlags) : Vmm Bool := do
  let (mapped, failure) ← Prog.countTry count (allocatePage virt phys flags)
  match failure with
  | none => pure true
  | some _ => do
    Prog.forRange mapped fun i => vmmUnmapPage (virt + i * pageSize)
    let _ ← Prog.attempt (freeRegion ref virt)
    pure false

/-- `allocate_memory`, from the reserved region on. -/
def allocateMapped (ref : SpaceRef) (phys count : Nat) (flags : ProtectFlags) : Vmm Nat := do
  let region ← Prog.attempt (allocateRegion ref (count * pageSize) flags)
  match region with
  | .error e => do
    pmmFreeFrames phys count
    Prog.throw e
  | .ok virt => do
    let m ← Prog.get
    let root := (m.space ref).translationRoot
    let ok ← withSpace (root ≠ 0 ∧ root ≠ m.current) root
      (allocatePages ref virt phys count flags)
    if ok then pure virt
    else do
      pmmFreeFrames phys count
      Prog.throw .deviceError

def allocateMemory (ref : SpaceRef) (size : Nat) (flags : ProtectFlags) : Vmm Nat :=
  if size = 0 then Prog.throw .invalidSize
  else if size > uintptrMax - (pageSize - 1) then Prog.throw .arithmeticOverflow
  else do
    let count := (size + pageSize - 1) / pageSize
    let phys ← pmmAllocateFrames count
    if phys = 0 then Prog.throw .outOfMemory
    else
      allocateMapped ref phys count
        (if ref = .kernel then flags else flags.or ProtectFlags.onlyUser)

/-- One round of the mapping loop of `map_fixed_memory`. -/
def mapFixedPage (address : Nat) (flags : ProtectFlags) (i : Nat) : Vmm Unit := do
  let page := address + i * pageSize
  let present ← vmmGetPhysicalAddress page
  if present ≠ 0 then Prog.throw .resourceConflict
  else do
    let phys ← pmmAllocateFrames 1
    if phys = 0 then Prog.throw .outOfMemory
    else do
      let ok ← mapInitialized page phys flags
      if ok then pure ()
      else do
        pmmFreeFrames phys 1
        Prog.throw .deviceError

/-- Give back one page that a failed call had mapped. -/
def unmapAndFree (page : Nat) : Vmm Unit := do
  let phys ← vmmGetPhysicalAddress page
  vmmUnmapPage page
  pmmFreeFrames phys 1

/-- The mapping loop of `map_fixed_memory` with its rollback. -/
def mapFixedPages (address count : Nat) (flags : ProtectFlags) : Vmm (Option KernelError) := do
  let (mapped, failure) ← Prog.countTry count (mapFixedPage address flags)
  match failure with
  | none => pure none
  | some e => do
    Prog.forRange mapped fun i => unmapAndFree (address + i * pageSize)
    pure (some e)

def mapFixedMemory (ref : SpaceRef) (address size : Nat) (flags : ProtectFlags) : Vmm Unit := do
  let m ← Prog.get
  let as := m.space ref
  let aligned := alignUp size
  if size = 0 then Prog.throw .invalidSize
  else if address % pageSize ≠ 0 ∨ address < 0x10000 ∨ address ≥ as.limit ∨
      size > as.limit - address then Prog.throw .invalidAddress
  else if size > uintptrMax - (pageSize - 1) then Prog.throw .arithmeticOverflow
  else if aligned > as.limit - address then Prog.throw .outOfRange
  else if as.vads.postorder.any (fun v => address < v.stop && address + aligned > v.start) then
    Prog.throw .resourceConflict
  else do
    let ok ← cacheAllocate
    if !ok then Prog.throw .outOfMemory
    else do
      let mapFlags := flags.or ProtectFlags.onlyUser
      let m ← Prog.get
      let failure ← withSpace (as.translationRoot ≠ m.current) as.translationRoot
        (mapFixedPages address (aligned / pageSize) mapFlags)
      match failure with
      | some e => Prog.throw e
      | none =>
        Prog.modify fun m =>
          let as := m.space ref
          m.setSpace ref
            { as with vads := as.vads.insert ⟨address, address + aligned, mapFlags, none⟩ }

/-! ## Address spaces -/

def createUserAddressSpace (pid : Nat) : Vmm Unit := do
  let m ← Prog.get
  let root := (m.spaces pid).translationRoot
  if root ≠ 0 ∧ root ≠ uintptrMax then Prog.throw .invalidState
  else do
    let root ← vmmCreateAddressSpace
    if root = 0 then Prog.throw .outOfMemory
    else
      Prog.modify fun m => m.setSpace (.user pid)
        { vads := .nil, translationRoot := root, currentBase := 0x10000000, limit := 0xC0000000 }

/-- The frame behind one page of a region, given back. -/
def freePage (page : Nat) : Vmm Unit := do
  let phys ← vmmGetPhysicalAddress page
  if phys ≠ 0 then pmmFreeFrames phys 1 else pure ()

/-- The frames behind every page of every region. -/
def freeVads : List Vad → Vmm Unit
  | [] => pure ()
  | v :: rest => do
    Prog.forRange ((v.stop - v.start + pageSize - 1) / pageSize) fun i =>
      freePage (v.start + i * pageSize)
    freeVads rest

def destroyUserAddressSpace (pid : Nat) : Vmm Unit := do
  let m ← Prog.get
  let as := m.spaces pid
  if as.translationRoot = 0 ∨ as.translationRoot = uintptrMax then pure ()
  else do
    vmmSwitchAddressSpace as.translationRoot
    freeVads as.vads.postorder
    vmmSwitchAddressSpace m.current
    vmmDestroyAddressSpace as.translationRoot
    Prog.modify fun m => m.setSpace (.user pid) { as with vads := .nil, translationRoot := 0 }

/-! ## The kernel heap, large blocks -/

/-- A block of the kernel heap: an object of a cache, or pages of its own. -/
inductive Block where
  | slab
  | large (virt pages : Nat)
deriving DecidableEq

/-- `sizeof(LargeAllocHeader)`. -/
def largeAllocHeaderSize : Nat := 8

/-- The biggest of `g_cache_sizes`. -/
def maxCacheSize : Nat := 2048

def allocateLarge (size : Nat) : Vmm (Option Block) :=
  if size > uintptrMax - largeAllocHeaderSize then pure none
  else do
    let total := size + largeAllocHeaderSize
    let allocation ← Prog.attempt (allocateMemory .kernel total ProtectFlags.readWrite)
    match allocation with
    | .error _ => pure none
    | .ok virt =>
      pure (some (.large virt (total / pageSize + if total % pageSize ≠ 0 then 1 else 0)))

/-- `KE_Malloc`. -/
def malloc (size : Nat) : Vmm (Option Block) :=
  if size = 0 then pure none
  else if size ≤ maxCacheSize then do
    let ok ← cacheAllocate
    if ok then pure (some .slab) else pure none
  else allocateLarge size

/-- `KE_Free`: an object goes back to its slab, a large block gives its pages back. -/
def free : Block → Vmm Unit
  | .slab => pure ()
  | .large virt pages => do
    let phys ← vmmGetPhysicalAddress virt
    Prog.forRange pages fun i => vmmUnmapPage (virt + i * pageSize)
    pmmFreeFrames phys pages
    let _ ← Prog.attempt (freeRegion .kernel virt)

/-! ## Borrowed mappings -/

/-- The frames behind `count` pages from `pageStart` on, if every page is mapped. -/
def collectFrames (pageStart : Nat) : Nat → Vmm (Option (List Nat))
  | 0 => pure (some [])
  | count + 1 => do
    let phys ← vmmGetPhysicalAddress pageStart
    if phys = 0 then pure none
    else do
      let rest ← collectFrames (pageStart + pageSize) count
      pure (rest.map (phys :: ·))

/-- One round of the loop that maps a borrow into the kernel. -/
def borrowPage (kernelStart : Nat) (frames : List Nat) (i : Nat) : Vmm Unit := do
  let ok ← vmmMapPage (kernelStart + i * pageSize) (frames.getD i 0) ProtectFlags.readWrite
  if ok then pure () else Prog.throw .deviceError

/-- `KE_VMM_MapBorrowed`, from the reserved region on. -/
def mapFramesAt (frames : List Nat) (offset : Nat) (block : Block) (start : Nat) : Vmm Nat := do
  let (mapped, failure) ← Prog.countTry frames.length (borrowPage start frames)
  free block
  match failure with
  | none => pure (start + offset)
  | some e => do
    Prog.forRange mapped fun i => vmmUnmapPage (start + i * pageSize)
    let _ ← Prog.attempt (freeRegion .kernel start)
    Prog.throw e

/-- `KE_VMM_MapBorrowed`, from the captured frames on. -/
def mapFrames (frames : List Nat) (offset : Nat) (physPages : Block) : Vmm Nat := do
  let region ← Prog.attempt
    (allocateRegion .kernel (frames.length * pageSize) ProtectFlags.readWrite)
  match region with
  | .error e => do
    free physPages
    Prog.throw e
  | .ok kernelStart => mapFramesAt frames offset physPages kernelStart

/-- The range check that `KE_VMM_MapBorrowed` and `KE_VMM_UnmapBorrowed` share. -/
def checkBorrowRange (addr size : Nat) : Vmm Unit :=
  if addr = 0 ∨ size = 0 then Prog.throw .invalidArgument
  else if size > uintptrMax - addr ∨ addr + size > uintptrMax - (pageSize - 1) ∨
      size > uintptrMax - (pageSize - 1) then Prog.throw .arithmeticOverflow
  else pure ()

/-- How many pages the range touches. -/
def borrowPages (addr size : Nat) : Nat := (alignUp (addr + size) - alignDown addr) / pageSize

/-- `KE_VMM_MapBorrowed`. -/
def mapBorrowed (addr size : Nat) (ref : SpaceRef) : Vmm Nat := do
  checkBorrowRange addr size
  let pageCount := borrowPages addr size
  if pageCount > uintptrMax / 4 then Prog.throw .arithmeticOverflow
  else do
    let block ← malloc (pageCount * 4)
    match block with
    | none => Prog.throw .outOfMemory
    | some physPages => do
      let m ← Prog.get
      let root := (m.space ref).translationRoot
      let frames ← withSpace (root ≠ 0 ∧ root ≠ m.current) root
        (collectFrames (alignDown addr) pageCount)
      match frames with
      | none => do
        free physPages
        Prog.throw .invalidAddress
      | some frames => mapFrames frames (addr - alignDown addr) physPages

/-- `KE_VMM_UnmapBorrowed`. -/
def unmapBorrowed (addr size : Nat) : Vmm Unit := do
  checkBorrowRange addr size
  Prog.forRange (borrowPages addr size) fun i => vmmUnmapPage (alignDown addr + i * pageSize)
  freeRegion .kernel (alignDown addr)

/-! ## Page faults -/

/-- `kernel::PageFaultInfo`, what the handler reads of it. -/
structure PageFaultInfo where
  faultAddr : Nat
  write : Bool
  user : Bool
  exec : Bool
deriving DecidableEq

/-- The checks between the region of a fault and the switch over what backs it. -/
def faultAllowed (info : PageFaultInfo) (flags : ProtectFlags) : Bool :=
  (!info.write || flags.write) && (!info.exec || flags.execute) && (!info.user || flags.user)

/-- `KE_VMM_HandlePagefault`; `owner` is the process of the current thread. -/
def handlePagefault (owner : Option Nat) (info : PageFaultInfo) : Vmm Unit := do
  let m ← Prog.get
  let ref : Option SpaceRef := if info.user then owner.map .user else some .kernel
  match ref with
  | none => Prog.diverge
  | some ref =>
    match (m.space ref).vads.find info.faultAddr with
    | none => Prog.diverge
    | some vad =>
      if !faultAllowed info vad.flags then Prog.diverge
      else match vad.backing.getD .anonymous with
        | .anonymous => do
          let phys ← pmmAllocateFrames 1
          if phys = 0 then Prog.diverge
          else do
            let ok ← vmmMapPage (alignDown info.faultAddr) phys vad.flags
            if ok then pure () else Prog.diverge
        | .file | .shared | .kernelModule => Prog.diverge

end UnDOS.Memory
