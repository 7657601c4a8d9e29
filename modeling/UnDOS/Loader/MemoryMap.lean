import Mathlib.Data.List.Sort
import UnDOS.Loader.Format

/-!
# Direct Loader: The Memory Map

`udl_normalize_memory_map` and `udl_choose_physical_base` of `loader_core.c`.  The first turns
the regions that the firmware reports into at most 32 regions of whole pages below 512 MiB, the
second picks the place of the payload in them.
-/

namespace UnDOS.Loader

open UnDOS.Lib UnDOS.Lib.Outcome

/-! ## Records -/

def udlMaxMemoryRegions : Nat := 32
def udlMaxRawMemoryRegions : Nat := 256
def udlManagedLimit : Nat := 0x20000000
def udlLowReservedLimit : Nat := 0x00100000

/-- `UDL_GRUB_MEMORY_AVAILABLE`. -/
def grubMemoryAvailable : UInt32 := 1
/-- `UDL_GRUB_MEMORY_ACPI`. -/
def grubMemoryAcpi : UInt32 := 3

/-- The `UDL_MEMORY_*` types.  `UDL_MEMORY_NONE` is `none` of an option. -/
inductive MemoryType where
  | available
  | reserved
  | acpiReclaim
deriving DecidableEq

/-- `udl_raw_memory_region`. -/
structure RawMemoryRegion where
  base : UInt64
  length : UInt64
  type : UInt32
deriving DecidableEq

/-- `udl_interval`. -/
structure Interval where
  start : Nat
  fin : Nat
  type : MemoryType
deriving DecidableEq

/-- `udl_memory_region`, without its padding. -/
structure MemoryRegion where
  base : Nat
  length : Nat
  type : MemoryType
deriving DecidableEq

/-! ## Rounding -/

def roundDown (value : Nat) : Nat := value / udlPageSize * udlPageSize

/-- `round_up`, whose sum wraps at 64 bits. -/
def roundUp (value : Nat) : Nat :=
  (value + (udlPageSize - 1)) % 2 ^ 64 / udlPageSize * udlPageSize

def intervalPriority : Option MemoryType → Nat
  | some .reserved => 3
  | some .acpiReclaim => 2
  | some .available => 1
  | none => 0

/-! ## Collecting the intervals -/

/-- The type of a raw region. -/
def RawMemoryRegion.memoryType (raw : RawMemoryRegion) : MemoryType :=
  if raw.type = grubMemoryAvailable then .available
  else if raw.type = grubMemoryAcpi then .acpiReclaim
  else .reserved

/-- One round of the first loop: the pages of a raw region, unless it has none. -/
def rawInterval (raw : RawMemoryRegion) : Load (Option Interval) :=
  if raw.length = 0 then .ok none
  else
    let fin := (raw.base.toNat + raw.length.toNat) % 2 ^ 64
    if fin < raw.base.toNat then .err .badMemoryMap
    else if udlManagedLimit ≤ raw.base.toNat then .ok none
    else
      let clipped := if udlManagedLimit < fin then udlManagedLimit else fin
      -- Available memory is rounded inward, everything else outward.
      let interval : Interval :=
        if raw.type = grubMemoryAvailable then
          { start := roundUp raw.base.toNat, fin := roundDown clipped, type := raw.memoryType }
        else
          { start := roundDown raw.base.toNat
            fin := if udlManagedLimit < roundUp clipped then udlManagedLimit else roundUp clipped
            type := raw.memoryType }
      if interval.fin ≤ interval.start then .ok none else .ok (some interval)

/-- The first loop: the intervals, and the points where one of them starts or ends. -/
def collect : List RawMemoryRegion → List Interval → List Nat → Load (List Interval × List Nat)
  | [], intervals, points => .ok (intervals, points)
  | raw :: rest, intervals, points => do
    match (← rawInterval raw) with
    | none => collect rest intervals points
    | some interval =>
      if udlMaxRawMemoryRegions ≤ intervals.length then .err .capacity
      else collect rest (intervals ++ [interval]) (points ++ [interval.start, interval.fin])

/-! ## The sweep -/

/-- The insertion sort of the points.  The sorted part is kept with its greatest element first:
    a point moves past the elements that are greater. -/
def sortPoints (points : List Nat) : List Nat :=
  (points.foldl (fun done value => done.orderedInsert (fun a b => b ≤ a) value) []).reverse

/-- The type of the memory between two neighbouring points. -/
def selectType (intervals : List Interval) (start fin : Nat) : Option MemoryType :=
  if start < udlLowReservedLimit then some .reserved
  else
    intervals.foldl (fun selected r =>
      if r.start ≤ start ∧ fin ≤ r.fin ∧ intervalPriority selected < intervalPriority (some r.type)
      then some r.type else selected) none

/-- Adds a piece to the output, whose last region comes first.  A piece that continues the last
    region lengthens it. -/
def emit (regions : List MemoryRegion) (start fin : Nat) (type : MemoryType) :
    Load (List MemoryRegion) :=
  let region : MemoryRegion :=
    { base := wrap32 start, length := wrap32 (fin - start), type := type }
  match regions with
  | [] => .ok [region]
  | last :: rest =>
    if last.base + last.length = start ∧ last.type = type then
      .ok ({ last with length := wrap32 (last.length + wrap32 (fin - start)) } :: rest)
    else if regions.length = udlMaxMemoryRegions then .err .capacity
    else .ok (region :: regions)

/-- The second loop, over the sorted points from the present one on. -/
def sweep (intervals : List Interval) : Nat → List Nat → List MemoryRegion →
    Load (List MemoryRegion)
  | previous, start :: fin :: points, regions =>
    if start = fin ∨ start = previous then sweep intervals previous (fin :: points) regions
    else
      match selectType intervals start fin with
      | none => sweep intervals start (fin :: points) regions
      | some type => do
        let regions ← emit regions start fin type
        sweep intervals start (fin :: points) regions
  | _, _, regions => .ok regions

/-- `udl_normalize_memory_map`. -/
def normalizeMemoryMap (raw : List RawMemoryRegion) : Load (List MemoryRegion) :=
  if udlMaxRawMemoryRegions < raw.length then .err .badArgument
  else do
    let (intervals, points) ← collect raw [] [0, udlLowReservedLimit]
    let regions ← sweep intervals (2 ^ 64 - 1) (sortPoints points) []
    return regions.reverse

/-! ## Placement -/

/-- The address the loader tries first. -/
def preferredBase : Nat := 0x01000000

/-- A region that can take the payload at the preferred address. -/
def takesPreferred (span : Nat) (region : MemoryRegion) : Bool :=
  region.type = .available ∧ region.base ≤ preferredBase ∧
    preferredBase + span ≤ region.base + region.length

/-- The highest place in a region, if the region can take the payload. -/
def candidateIn (span : Nat) (region : MemoryRegion) : Option Nat :=
  let start := if region.base < udlLowReservedLimit then udlLowReservedLimit else region.base
  let fin := region.base + region.length
  if region.type ≠ .available ∨ fin < start ∨ fin - start < span then none
  else
    let candidate := roundDown (fin - span)
    if candidate < start ∨ fin < candidate + span ∨ udlManagedLimit < candidate + span then none
    else some (wrap32 candidate)

/-- `udl_choose_physical_base`: the preferred address, or the highest place. -/
def choosePhysicalBase (map : List MemoryRegion) (span : Nat) : Load Nat :=
  if span = 0 ∨ udlManagedLimit < span then .err .badArgument
  else if map.any (takesPreferred span) then .ok preferredBase
  else orElse .noMemory (map.reverse.findSome? (candidateIn span))

end UnDOS.Loader
