import UnDOS.Lib.Run
import UnDOS.Memory.Segments

/-!
# The Frame Allocator

`HAL/x86_old/pmm.cpp` from the memory map of the boot loader on.  The bitmap is the
function that tells which bits are set; `bitmap_internal` has `bitmapFrames` of them, and
a write past its end has no meaning (`none`).

`Frames` puts the allocator together with what its callers hold: the live allocations
and the regions they reserved.  The invariant `Frames.Inv` says that a bit is clear
exactly when its frame came from an Available region and nobody holds it.
-/

namespace UnDOS.Memory

open UnDOS.Lib

/-! ## The memory map -/

/-- `kernel::MemoryRegionType`. -/
inductive MemoryRegionType where
  | none | available | reserved | acpiReclaim
deriving DecidableEq

/-- `kernel::MemoryRegionT`. -/
structure MemoryRegion where
  base : Nat
  length : Nat
  type : MemoryRegionType
deriving DecidableEq

/-- `kernel::MappedMemoryRegionType`. -/
inductive MappedMemoryRegionType where
  | none | identity | kernelCore | halModule | bootStack | bootInfo | pagingStructures
deriving DecidableEq

/-- `kernel::MappedMemoryT`. -/
structure MappedMemory where
  type : MappedMemoryRegionType
  physicalBase : Nat
  length : Nat
deriving DecidableEq

/-- What `init_pmm` reads of `kernel::BootInfoT`. -/
structure BootInfo where
  memoryRegions : List MemoryRegion
  mappedMemory : List MappedMemory
deriving DecidableEq

/-! ## The bitmap -/

abbrev Bitmap := Nat → Bool

/-- `BITMAP_MAX_SIZE`, in words. -/
def bitmapMaxSize : Nat := 4096

/-- The bits of `bitmap_internal`. -/
def bitmapFrames : Nat := bitmapMaxSize * bitmapWordSize

/-- `set_bit` and `clear_bit`. -/
def writeBit (value : Bool) (bitmap : Bitmap) (frame : Nat) : Option Bitmap :=
  if frame / bitmapWordSize < bitmapMaxSize then
    some fun k => if k = frame then value else bitmap k
  else none

/-- The loops over `set_bit` and `clear_bit`. -/
def writeBits (value : Bool) (start count : Nat) (bitmap : Bitmap) : Option Bitmap :=
  (List.range count).foldlM (fun b i => writeBit value b (start + i)) bitmap

/-- A length in whole pages, rounded up as `ReserveRegion` and `init_pmm` do. -/
def pagesFor (length : Nat) : Nat :=
  length / pageSize + if length % pageSize ≠ 0 then 1 else 0

/-- `bitmap` and `bitmap_size_words`. -/
structure Pmm where
  bitmap : Bitmap
  bitmapSizeWords : Nat

def Pmm.maxFrames (p : Pmm) : Nat := p.bitmapSizeWords * bitmapWordSize

/-! ## `pmm.cpp` -/

/-- One round of `find_highest_physical_address`. -/
def raiseMax (maxMemory : Nat) (r : MemoryRegion) : Nat :=
  if r.type = .available ∧ maxMemory < r.base + r.length then r.base + r.length else maxMemory

def findHighestPhysicalAddress (boot : BootInfo) : Nat :=
  boot.memoryRegions.foldl raiseMax 0

/-- The words that hold `totalFrames` bits, at most `BITMAP_MAX_SIZE`. -/
def sizeWords (totalFrames : Nat) : Nat :=
  let words := totalFrames / bitmapWordSize + if totalFrames % bitmapWordSize ≠ 0 then 1 else 0
  if bitmapMaxSize < words then bitmapMaxSize else words

/-- The third step of `init_pmm`: Available memory is free, unless it starts below 1 MiB. -/
def clearRegion (bitmap : Bitmap) (r : MemoryRegion) : Option Bitmap :=
  if r.type = .available ∧ ¬r.base < 0x100000 then
    writeBits false (r.base / pageSize) (r.length / pageSize) bitmap
  else some bitmap

/-- The fourth step of `init_pmm`: what the boot loader mapped is in use. -/
def protectRegion (bitmap : Bitmap) (r : MappedMemory) : Option Bitmap :=
  if r.type ≠ .none then
    writeBits true (r.physicalBase / pageSize) (pagesFor r.length) bitmap
  else some bitmap

def initPmm (boot : BootInfo) : Option Pmm := do
  let words := sizeWords (findHighestPhysicalAddress boot / pageSize)
  -- The first words are `BITMAP_INIT`; the rest of the static array is zero.
  let bitmap : Bitmap := fun k => decide (k < words * bitmapWordSize)
  let bitmap ← boot.memoryRegions.foldlM clearRegion bitmap
  let bitmap ← boot.mappedMemory.foldlM protectRegion bitmap
  some ⟨bitmap, words⟩

/-- `HAL_PMM_ReserveRegion`. -/
def Pmm.reserveRegion (p : Pmm) (base length : Nat) : Option Pmm := do
  let bitmap ← writeBits true (base / pageSize) (pagesFor length) p.bitmap
  some { p with bitmap }

/-- The end of an allocation: the frames that the scan found are marked. -/
def Pmm.take (p : Pmm) (count : Nat) : Option Nat → Option (Nat × Pmm)
  | none => some (0, p)
  | some f => do
    let bitmap ← writeBits true f count p.bitmap
    some (f * pageSize, { p with bitmap })

/-- `HAL_PMM_AllocateFrames`. -/
def Pmm.allocateFrames (p : Pmm) (count : Nat) : Option (Nat × Pmm) :=
  p.take count (pickFrames p.bitmap p.maxFrames count)

/-- The frame that `HAL_PMM_AllocateFramesDMA` picks. -/
def pickFramesDMA (used : Bitmap) (maxFrames count : Nat) : Option Nat :=
  if count = 0 then none
  else scanFrames used count (min dmaFrames maxFrames) false maxFrames 0 0 0

/-- `HAL_PMM_AllocateFramesDMA`. -/
def Pmm.allocateFramesDMA (p : Pmm) (count : Nat) : Option (Nat × Pmm) :=
  p.take count (pickFramesDMA p.bitmap p.maxFrames count)

/-- `HAL_PMM_FreeFrames`. -/
def Pmm.freeFrames (p : Pmm) (base count : Nat) : Option Pmm := do
  let bitmap ← writeBits false (base / pageSize) count p.bitmap
  some { p with bitmap }

/-! ## The allocator and its callers -/

inductive PmmCall where
  | allocateFrames (count : Nat)
  | allocateFramesDMA (count : Nat)
  | reserveRegion (base length : Nat)
  | freeFrames (base count : Nat)
deriving DecidableEq

/-- The allocator, the live allocations (address and frame count), and the regions that
were reserved (address and length). -/
structure Frames where
  pmm : Pmm
  live : List (Nat × Nat)
  reserved : List (Nat × Nat)

namespace Frames

/-- An allocation that succeeded is live. -/
def allocated (s : Frames) (count : Nat) (result : Nat × Pmm) : Nat × Frames :=
  (result.1, { s with
    pmm := result.2
    live := if result.1 = 0 then s.live else (result.1, count) :: s.live })

/-- One call with its result. -/
def call (s : Frames) : PmmCall → Option (Nat × Frames)
  | .allocateFrames count => (s.pmm.allocateFrames count).map (s.allocated count)
  | .allocateFramesDMA count => (s.pmm.allocateFramesDMA count).map (s.allocated count)
  | .reserveRegion base length => do
    let pmm ← s.pmm.reserveRegion base length
    some (0, { s with pmm, reserved := (base, length) :: s.reserved })
  | .freeFrames base count => do
    let pmm ← s.pmm.freeFrames base count
    some (0, { s with pmm, live := s.live.erase (base, count) })

/-- Exactly what was allocated is freed. -/
def Legal (s : Frames) : PmmCall → Prop
  | .freeFrames base count => (base, count) ∈ s.live
  | _ => True

end Frames

/-! ## What belongs to whom -/

/-- Some byte of `[base, base + length)` lies in frame `k`. -/
def Touches (base length k : Nat) : Prop := ∃ a, base ≤ a ∧ a < base + length ∧ pageOf a = k

/-- Frame `k` is one of the `count` frames at address `base`. -/
def InRun (base count k : Nat) : Prop := base / pageSize ≤ k ∧ k < base / pageSize + count

namespace BootInfo

/-- Every byte of frame `k` is Available memory. -/
def Available (boot : BootInfo) (k : Nat) : Prop :=
  ∀ a, pageOf a = k → ∃ r ∈ boot.memoryRegions,
    r.type = .available ∧ r.base ≤ a ∧ a < r.base + r.length

/-- Some byte of frame `k` was mapped by the boot loader. -/
def Mapped (boot : BootInfo) (k : Nat) : Prop :=
  ∃ r ∈ boot.mappedMemory, r.type ≠ .none ∧ Touches r.physicalBase r.length k

/-- Frame `k` is one of the whole pages of an Available region at or above 1 MiB. -/
def Pool (boot : BootInfo) (k : Nat) : Prop :=
  ∃ r ∈ boot.memoryRegions, (r.type = .available ∧ ¬r.base < 0x100000) ∧
    r.base / pageSize ≤ k ∧ k < r.base / pageSize + r.length / pageSize

/-- The Available regions end at or below 512 MiB. -/
def Fits (boot : BootInfo) : Prop :=
  ∀ r ∈ boot.memoryRegions, r.type = .available → r.base + r.length ≤ 0x20000000

instance (boot : BootInfo) : Decidable boot.Fits :=
  inferInstanceAs (Decidable (∀ r ∈ boot.memoryRegions, r.type = .available →
    r.base + r.length ≤ 0x20000000))

end BootInfo

namespace Frames

/-- Some byte of frame `k` was reserved. -/
def Reserved (s : Frames) (k : Nat) : Prop := ∃ q ∈ s.reserved, Touches q.1 q.2 k

/-- Frame `k` belongs to a live allocation. -/
def Live (s : Frames) (k : Nat) : Prop := ∃ q ∈ s.live, InRun q.1 q.2 k

/-- There are `count` free frames in a row in `[lo, hi)`. -/
def FreeRun (s : Frames) (lo hi count : Nat) : Prop :=
  ∃ g, lo ≤ g ∧ g + count ≤ hi ∧ ∀ k, g ≤ k → k < g + count → s.pmm.bitmap k = false

/-- What an allocation of `count` frames that is to look in `[0, hi)` owes its caller. -/
structure AllocationGood (boot : BootInfo) (s : Frames) (hi count result : Nat) (s' : Frames) :
    Prop where
  inside : result ≠ 0 → ∀ k, InRun result count k → 0x100000 ≤ k * pageSize ∧ boot.Available k
  unreserved : result ≠ 0 → ∀ k, InRun result count k → ¬s.Reserved k ∧ ¬boot.Mapped k
  unshared : result ≠ 0 → ∀ k, InRun result count k → ¬s.Live k
  below : result ≠ 0 → result + count * pageSize ≤ hi * pageSize
  ownBits : ∀ k, (s'.pmm.bitmap k ≠ s.pmm.bitmap k ↔ result ≠ 0 ∧ InRun result count k)
  complete : result = 0 → ¬s.FreeRun 0 hi count

/-- What a call owes its caller. -/
def CallGood (boot : BootInfo) (s : Frames) (c : PmmCall) (result : Nat) (s' : Frames) : Prop :=
  match c with
  | .allocateFrames count => 0 < count → s.AllocationGood boot s.pmm.maxFrames count result s'
  | .allocateFramesDMA count =>
    0 < count → s.AllocationGood boot (min dmaFrames s.pmm.maxFrames) count result s'
  | _ => True

/-- No frame is lost: a frame of the pool that nobody holds is free. -/
def Accounted (boot : BootInfo) (s : Frames) : Prop :=
  ∀ k, (k < s.pmm.maxFrames ∧ s.pmm.bitmap k = false) ↔
    boot.Pool k ∧ ¬boot.Mapped k ∧ ¬s.Reserved k ∧ ¬s.Live k

end Frames

/-! ## When the pages that are counted are the pages that are meant -/

/-- The pages counted from the page of `base` on reach the end of the region, and the
bitmap has bits for them. -/
def Counted (base length : Nat) : Prop :=
  length = 0 ∨ (base + length ≤ (base / pageSize + pagesFor length) * pageSize ∧
    base / pageSize + pagesFor length ≤ bitmapFrames)

namespace BootInfo

/-- A memory map whose regions meet the pages that `init_pmm` makes of them. -/
structure PageExact (boot : BootInfo) : Prop where
  /-- The bytes between a region and the page boundary below it are Available too. -/
  down : ∀ r ∈ boot.memoryRegions, r.type = .available → 0x100000 ≤ r.base →
    pageSize ≤ r.length → ∀ a, alignDown r.base ≤ a → a < r.base →
    ∃ q ∈ boot.memoryRegions, q.type = .available ∧ q.base ≤ a ∧ a < q.base + q.length
  mapped : ∀ r ∈ boot.mappedMemory, r.type ≠ .none → Counted r.physicalBase r.length

end BootInfo

namespace Frames

/-- A reservation covers what it is asked to, and no live allocation. -/
def Careful (s : Frames) : PmmCall → Prop
  | .reserveRegion base length =>
    Counted base length ∧ ∀ k, Touches base length k → ¬s.Live k
  | _ => True

/-- When there is a free run, there is one on one side of the ISA DMA limit. -/
def OneSided (s : Frames) : PmmCall → Prop
  | .allocateFrames count => 0 < count → s.FreeRun 0 s.pmm.maxFrames count →
    s.FreeRun dmaFrames s.pmm.maxFrames count ∨
      s.FreeRun 0 (min dmaFrames s.pmm.maxFrames) count
  | _ => True

end Frames

theorem pagesFor_bounds (length : Nat) :
    length ≤ pagesFor length * pageSize ∧ (pagesFor length = 0 ∨
      (pagesFor length - 1) * pageSize < length) := by
  unfold pagesFor pageSize
  split <;> omega

variable {base length start count stop fuel frame f maxFrames : Nat} {used : Bitmap}

theorem Counted.touches_iff (h : Counted base length) (k : Nat) : Touches base length k ↔
      base / pageSize ≤ k ∧ k < base / pageSize + pagesFor length := by
  have hpages := pagesFor_bounds length
  rcases h with rfl | ⟨hend, -⟩
  · constructor
    · rintro ⟨a, ha₁, ha₂, -⟩
      omega
    · omega
  constructor
  · rintro ⟨a, ha₁, ha₂, rfl⟩
    exact ⟨Nat.div_le_div_right ha₁, Nat.div_lt_of_lt_mul (by rw [mul_comm]; omega)⟩
  · intro ⟨hk₁, hk₂⟩
    -- The first byte of the region in page `k`.
    refine ⟨max base (k * pageSize), le_max_left _ _, ?_, ?_⟩
    · unfold pageSize at *
      omega
    · unfold pageOf pageSize at *
      omega

/-! ## Writing bits -/

theorem writeBits_succ (value : Bool) (start count : Nat) (b : Bitmap) :
    writeBits value start (count + 1) b =
      (writeBits value start count b).bind fun b => writeBit value b (start + count) := by
  unfold writeBits
  rw [List.range_succ, List.foldlM_append]
  rcases List.foldlM (fun b i => writeBit value b (start + i)) b (List.range count) with _ | b'
  · rfl
  · simp [List.foldlM]

theorem writeBits_eq {value : Bool} (b : Bitmap) (h : count = 0 ∨ start + count ≤ bitmapFrames) :
    writeBits value start count b =
      some fun k => if start ≤ k ∧ k < start + count then value else b k := by
  induction count with
  | zero =>
    have hnone : ∀ k, ¬(start ≤ k ∧ k < start + 0) := by omega
    simp only [hnone]
    rfl
  | succ count ih =>
    have hbits : start + count + 1 ≤ bitmapFrames := by omega
    rw [writeBits_succ, ih (.inr (by omega)), Option.bind_some, writeBit,
      if_pos (Nat.div_lt_of_lt_mul (by unfold bitmapFrames at hbits; rw [mul_comm]; omega))]
    congr 1
    funext k
    by_cases hk : k = start + count
    · rw [if_pos hk, if_pos (by omega)]
    · rw [if_neg hk]
      by_cases hk' : start ≤ k ∧ k < start + count
      · rw [if_pos hk', if_pos (by omega)]
      · rw [if_neg hk', if_neg (by omega)]

theorem foldlM_writes {α : Type} {f : Bitmap → α → Option Bitmap} {P : α → Nat → Prop}
    {value : Bool} {l : List α} (h : ∀ x ∈ l, ∀ b, ∃ b', f b x = some b' ∧
      ∀ k, (P x k → b' k = value) ∧ (¬P x k → b' k = b k)) (b : Bitmap) :
    ∃ b', l.foldlM f b = some b' ∧
      ∀ k, ((∃ x ∈ l, P x k) → b' k = value) ∧ (¬(∃ x ∈ l, P x k) → b' k = b k) := by
  induction l generalizing b with
  | nil => exact ⟨b, rfl, fun k => ⟨by simp, fun _ => rfl⟩⟩
  | cons x l ih =>
    obtain ⟨b₁, hb₁, hx⟩ := h x (.head _) b
    obtain ⟨b₂, hb₂, hl⟩ := ih (fun y hy => h y (.tail x hy)) b₁
    refine ⟨b₂, by rw [List.foldlM_cons, hb₁]; exact hb₂, ?_⟩
    intro k
    by_cases hk : ∃ y ∈ l, P y k
    · refine ⟨fun _ => (hl k).1 hk, fun hno => absurd ?_ hno⟩
      obtain ⟨y, hy, hPy⟩ := hk
      exact ⟨y, .tail x hy, hPy⟩
    · rw [(hl k).2 hk]
      constructor
      · rintro ⟨y, hy, hPy⟩
        rcases List.mem_cons.1 hy with rfl | hy
        · exact (hx k).1 hPy
        · exact absurd ⟨y, hy, hPy⟩ hk
      · intro hno
        exact (hx k).2 fun hPx => hno ⟨x, .head _, hPx⟩

/-! ## The scan -/

theorem scanFrames_bounds {skip : Bool} {run low : Nat} (hlow : low ≤ frame)
    (hrun : run = 0 ∨ (low ≤ start ∧ start + run = frame))
    (h : scanFrames used count stop skip fuel frame run start = some f) :
    low ≤ f ∧ f + count ≤ stop := by
  induction fuel generalizing frame run start with
  | zero => simp [scanFrames] at h
  | succ fuel ih =>
    unfold scanFrames at h
    split at h
    · simp at h
    split at h
    · exact ih (by omega) (.inl rfl) h
    split at h
    · exact ih (by omega) (.inl rfl) h
    have hstart : low ≤ (if run = 0 then frame else start) ∧
        (if run = 0 then frame else start) + (run + 1) = frame + 1 := by
      split <;> omega
    dsimp only at h
    split at h
    · cases h
      omega
    · exact ih (by omega) (.inr hstart) h

/-- A scan that finds nothing has missed no run of free frames: neither one that starts in
what is left of the interval nor one that has begun. -/
theorem scanFrames_complete {skip : Bool}
    {run : Nat} (hcount : run < count) (hfuel : stop - frame ≤ fuel)
    (h : scanFrames used count stop skip fuel frame run start = none) :
    ∀ g, frame ≤ g + run → g + count ≤ stop → ∃ k, g ≤ k ∧ k < g + count ∧ used k = true := by
  induction fuel generalizing frame run start with
  | zero => omega
  | succ fuel ih =>
    intro g hg hend
    unfold scanFrames at h
    rw [if_neg (by omega)] at h
    split at h
    · rename_i hskip
      simp only [Bool.and_eq_true, beq_iff_eq] at hskip
      obtain ⟨⟨⟨-, hrun⟩, halign⟩, hfull⟩ := hskip
      -- Every bit of the word is set, so no run starts in it.
      by_cases hword : g < frame + bitmapWordSize
      · have hset : used (frame / bitmapWordSize * bitmapWordSize + (g - frame)) = true := by
          exact List.all_eq_true.1 hfull (g - frame) (List.mem_range.2 (by omega))
        rw [Nat.div_mul_cancel (Nat.dvd_of_mod_eq_zero halign)] at hset
        exact ⟨g, le_refl g, by omega, by rwa [show frame + (g - frame) = g by omega] at hset⟩
      · have hsize : bitmapWordSize = 32 := rfl
        exact ih (by omega) (by omega) h g (by omega) hend
    split at h
    · rename_i hused
      by_cases hmeets : g ≤ frame
      · exact ⟨frame, hmeets, by omega, hused⟩
      · exact ih (by omega) (by omega) h g (by omega) hend
    · dsimp only at h
      split at h
      · simp at h
      · exact ih (by omega) (by omega) h g (by omega) hend

theorem scanFrames_first {c : Nat} {skip : Bool} (hframe : frame ≤ c)
    (hstop : c < stop) (hfuel : c - frame < fuel) :
    scanFrames (fun k => decide (k < c)) 1 stop skip fuel frame 0 start = some c := by
  induction fuel generalizing frame with
  | zero => omega
  | succ fuel ih =>
    unfold scanFrames
    rw [if_neg (by omega)]
    split
    · rename_i hskip
      simp only [Bool.and_eq_true, beq_iff_eq] at hskip
      obtain ⟨⟨-, halign⟩, hfull⟩ := hskip
      -- The last frame of a full word is in use too.
      have hlast : decide (frame / bitmapWordSize * bitmapWordSize + 31 < c) = true :=
        List.all_eq_true.1 hfull 31 (by decide)
      rw [Nat.div_mul_cancel (Nat.dvd_of_mod_eq_zero halign), decide_eq_true_eq] at hlast
      exact ih (by unfold bitmapWordSize; omega) (by unfold bitmapWordSize; omega)
    split
    · rename_i hused
      have hlt : frame < c := by simpa using hused
      exact ih (by omega) (by omega)
    · rename_i hfree
      have hge : ¬frame < c := by simpa using hfree
      simp [show frame = c by omega]

theorem pickFrames_first {c : Nat} (hdma : dmaFrames ≤ c) (hmax : c < maxFrames) :
    pickFrames (fun k => decide (k < c)) maxFrames 1 = some c := by
  unfold pickFrames
  rw [if_neg (by decide), scanFrames_first hdma hmax (by omega)]

theorem pickFrames_sides (h : pickFrames used maxFrames count = some f) :
    (dmaFrames ≤ f ∧ f + count ≤ maxFrames) ∨ f + count ≤ min dmaFrames maxFrames := by
  unfold pickFrames at h
  split at h
  · simp at h
  split at h
  · rename_i f' hscan
    cases h
    exact .inl (scanFrames_bounds le_rfl (.inl rfl) hscan)
  · exact .inr (scanFrames_bounds le_rfl (.inl rfl) h).2

theorem pickFrames_complete (hcount : 0 < count)
    (h : pickFrames used maxFrames count = none) {g : Nat}
    (hg : (dmaFrames ≤ g ∧ g + count ≤ maxFrames) ∨ g + count ≤ min dmaFrames maxFrames) :
    ∃ k, g ≤ k ∧ k < g + count ∧ used k = true := by
  unfold pickFrames at h
  rw [if_neg (by omega)] at h
  split at h
  · simp at h
  · rename_i hhigh
    rcases hg with ⟨hg, hend⟩ | hend
    · exact scanFrames_complete hcount (by omega) hhigh g (by omega) hend
    · exact scanFrames_complete hcount (by omega) h g (by omega) hend

theorem pickFramesDMA_free (h : pickFramesDMA used maxFrames count = some f) :
    f + count ≤ min dmaFrames maxFrames ∧ ∀ k, f ≤ k → k < f + count → used k = false := by
  unfold pickFramesDMA at h
  split at h
  · simp at h
  exact ⟨(scanFrames_bounds le_rfl (.inl rfl) h).2, scanFrames_free (.inl rfl) h⟩

theorem pickFramesDMA_complete (hcount : 0 < count)
    (h : pickFramesDMA used maxFrames count = none) {g : Nat}
    (hg : g + count ≤ min dmaFrames maxFrames) : ∃ k, g ≤ k ∧ k < g + count ∧ used k = true := by
  unfold pickFramesDMA at h
  rw [if_neg (by omega)] at h
  exact scanFrames_complete hcount (by omega) h g (by omega) hg

/-! ## After `init_pmm` -/

theorem le_raiseMax (m : Nat) (r : MemoryRegion) :
    m ≤ raiseMax m r ∧ (r.type = .available → r.base + r.length ≤ raiseMax m r) := by
  unfold raiseMax
  split
  · exact ⟨by omega, fun _ => le_rfl⟩
  · rename_i hless
    exact ⟨le_rfl, fun htype => not_lt.1 fun hlt => hless ⟨htype, hlt⟩⟩

theorem le_foldl_raiseMax (l : List MemoryRegion) (m : Nat) : m ≤ l.foldl raiseMax m := by
  induction l generalizing m with
  | nil => exact le_refl m
  | cons q l ih => exact (le_raiseMax m q).1.trans (ih _)

theorem findHighestPhysicalAddress_le {boot : BootInfo} {r : MemoryRegion}
    (hr : r ∈ boot.memoryRegions) (htype : r.type = .available) :
    r.base + r.length ≤ findHighestPhysicalAddress boot := by
  obtain ⟨l₁, l₂, hl⟩ := List.append_of_mem hr
  unfold findHighestPhysicalAddress
  rw [hl, List.foldl_append]
  exact ((le_raiseMax _ r).2 htype).trans (le_foldl_raiseMax l₂ _)

theorem foldl_raiseMax_le {bound : Nat} {l : List MemoryRegion}
    (h : ∀ r ∈ l, r.type = .available → r.base + r.length ≤ bound) {m : Nat} (hm : m ≤ bound) :
    l.foldl raiseMax m ≤ bound := by
  induction l generalizing m with
  | nil => exact hm
  | cons q l ih =>
    apply ih (fun r hr => h r (.tail q hr))
    unfold raiseMax
    split
    · rename_i hq
      exact h q (.head _) hq.1
    · exact hm

theorem findHighestPhysicalAddress_fits {boot : BootInfo} (h : boot.Fits) :
    findHighestPhysicalAddress boot ≤ 0x20000000 :=
  foldl_raiseMax_le h (Nat.zero_le _)

theorem sizeWords_bounds {totalFrames : Nat} (h : totalFrames ≤ bitmapFrames) :
    totalFrames ≤ sizeWords totalFrames * bitmapWordSize ∧
      sizeWords totalFrames * bitmapWordSize ≤ bitmapFrames := by
  unfold sizeWords bitmapFrames bitmapWordSize at *
  dsimp only
  split <;> split at * <;> omega

namespace BootInfo

variable {boot : BootInfo}

theorem Pool.lt_highest {k : Nat} (h : boot.Pool k) :
    k < findHighestPhysicalAddress boot / pageSize := by
  obtain ⟨r, hr, ⟨htype, -⟩, -, hk⟩ := h
  refine hk.trans_le (le_trans ?_
    (Nat.div_le_div_right (findHighestPhysicalAddress_le hr htype)))
  unfold pageSize
  omega

theorem PageExact.pool_available (h : boot.PageExact) {k : Nat} (hk : boot.Pool k) :
    0x100000 ≤ k * pageSize ∧ boot.Available k := by
  obtain ⟨r, hr, ⟨htype, hlow⟩, hk₁, hk₂⟩ := hk
  refine ⟨by unfold pageSize at *; omega, ?_⟩
  intro a ha
  by_cases hbase : r.base ≤ a
  · refine ⟨r, hr, htype, hbase, ?_⟩
    unfold pageOf pageSize at *
    omega
  · refine h.down r hr htype (by omega) ?_ a ?_ (by omega)
    · unfold pageSize at *
      omega
    · unfold alignDown pageOf pageSize at *
      omega

end BootInfo

theorem clearRegion_writes {boot : BootInfo} (hfits : boot.Fits) {r : MemoryRegion}
    (hr : r ∈ boot.memoryRegions) (b : Bitmap) : ∃ b', clearRegion b r = some b' ∧
      ∀ k, (((r.type = .available ∧ ¬r.base < 0x100000) ∧
          r.base / pageSize ≤ k ∧ k < r.base / pageSize + r.length / pageSize) → b' k = false) ∧
        (¬((r.type = .available ∧ ¬r.base < 0x100000) ∧
          r.base / pageSize ≤ k ∧ k < r.base / pageSize + r.length / pageSize) → b' k = b k) := by
  unfold clearRegion
  split
  · rename_i htype
    have hend := hfits r hr htype.1
    rw [writeBits_eq b (.inr (by
      unfold bitmapFrames bitmapMaxSize bitmapWordSize pageSize; omega))]
    exact ⟨_, rfl, fun k => ⟨fun hk => if_pos hk.2, fun hk => if_neg fun hk' => hk ⟨htype, hk'⟩⟩⟩
  · rename_i htype
    exact ⟨b, rfl, fun k => ⟨fun hk => absurd hk.1 htype, fun _ => rfl⟩⟩

theorem Counted.bits (h : Counted base length) :
    pagesFor length = 0 ∨ base / pageSize + pagesFor length ≤ bitmapFrames := by
  rcases h with rfl | ⟨-, hbits⟩
  · exact .inl rfl
  · exact .inr hbits

theorem Counted.writeBits (h : Counted base length) (b : Bitmap) :
    ∃ b', writeBits true (base / pageSize) (pagesFor length) b = some b' ∧
      ∀ k, (Touches base length k → b' k = true) ∧ (¬Touches base length k → b' k = b k) := by
  rw [writeBits_eq b h.bits]
  refine ⟨_, rfl, fun k => ?_⟩
  rw [h.touches_iff k]
  exact ⟨fun hk => if_pos hk, fun hk => if_neg hk⟩

theorem protectRegion_writes {boot : BootInfo} (hexact : boot.PageExact) {r : MappedMemory}
    (hr : r ∈ boot.mappedMemory) (b : Bitmap) : ∃ b', protectRegion b r = some b' ∧
      ∀ k, ((r.type ≠ .none ∧ Touches r.physicalBase r.length k) → b' k = true) ∧
        (¬(r.type ≠ .none ∧ Touches r.physicalBase r.length k) → b' k = b k) := by
  unfold protectRegion
  split
  · rename_i htype
    obtain ⟨b', hb', hk⟩ := (hexact.mapped r hr htype).writeBits b
    exact ⟨b', hb', fun k => ⟨fun h => (hk k).1 h.2, fun h => (hk k).2 fun h' => h ⟨htype, h'⟩⟩⟩
  · rename_i htype
    exact ⟨b, rfl, fun k => ⟨fun h => absurd h.1 htype, fun _ => rfl⟩⟩

namespace Frames

/-! ## The invariant -/

/-- A bit is clear exactly when its frame came from the memory map and nobody holds it. -/
structure Inv (boot : BootInfo) (s : Frames) : Prop where
  size : s.pmm.bitmapSizeWords = sizeWords (findHighestPhysicalAddress boot / pageSize)
  bits : ∀ k, k < s.pmm.maxFrames → (s.pmm.bitmap k = false ↔
    boot.Pool k ∧ ¬boot.Mapped k ∧ ¬s.Reserved k ∧ ¬s.Live k)
  held : ∀ q ∈ s.live, ∀ k, InRun q.1 q.2 k → boot.Pool k ∧ ¬boot.Mapped k ∧ ¬s.Reserved k
  apart : s.live.Pairwise fun q q' => ∀ k, InRun q.1 q.2 k → ¬InRun q'.1 q'.2 k

variable {boot : BootInfo} {s : Frames}

theorem Inv.maxFrames_le (h : s.Inv boot) (hfits : boot.Fits) : s.pmm.maxFrames ≤ bitmapFrames ∧
      findHighestPhysicalAddress boot / pageSize ≤ s.pmm.maxFrames := by
  have htotal : findHighestPhysicalAddress boot / pageSize ≤ bitmapFrames :=
    Nat.div_le_of_le_mul (findHighestPhysicalAddress_fits hfits)
  have hbounds := sizeWords_bounds htotal
  unfold Pmm.maxFrames
  rw [h.size]
  exact ⟨hbounds.2, hbounds.1⟩

theorem Inv.accounted (h : s.Inv boot) (hfits : boot.Fits) : s.Accounted boot := by
  intro k
  constructor
  · intro ⟨hk, hfree⟩
    exact (h.bits k hk).1 hfree
  · intro hk
    have hlt : k < s.pmm.maxFrames := hk.1.lt_highest.trans_le (h.maxFrames_le hfits).2
    exact ⟨hlt, (h.bits k hlt).2 hk⟩

theorem inv_initPmm (hfits : boot.Fits) (hexact : boot.PageExact) :
    ∃ p, initPmm boot = some p ∧ Inv boot ⟨p, [], []⟩ := by
  generalize hwords : sizeWords (findHighestPhysicalAddress boot / pageSize) = words
  obtain ⟨b₁, hb₁, hclear⟩ := foldlM_writes
    (fun r hr b => clearRegion_writes hfits hr b) (fun k => decide (k < words * bitmapWordSize))
  obtain ⟨b₂, hb₂, hset⟩ := foldlM_writes (fun r hr b => protectRegion_writes hexact hr b) b₁
  refine ⟨⟨b₂, words⟩, ?_, ?_⟩
  · unfold initPmm
    rw [hwords]
    simp only [hb₁, hb₂, Option.bind_eq_bind, Option.bind_some]
  refine ⟨hwords.symm, ?_, by simp, List.Pairwise.nil⟩
  intro k hk
  have hnone : ¬Reserved ⟨⟨b₂, words⟩, [], []⟩ k ∧ ¬Live ⟨⟨b₂, words⟩, [], []⟩ k := by
    constructor <;> rintro ⟨q, hq, -⟩ <;> simp at hq
  have hin : decide (k < words * bitmapWordSize) = true := decide_eq_true hk
  -- Set at first, cleared for the pool, set again for what was mapped.
  by_cases hmapped : boot.Mapped k
  · have : b₂ k = true := (hset k).1 hmapped
    simp [this, hmapped]
  · have hkeep : b₂ k = b₁ k := (hset k).2 hmapped
    by_cases hpool : boot.Pool k
    · have : b₁ k = false := (hclear k).1 hpool
      simp [hkeep, this, hmapped, hpool, hnone]
    · have : b₁ k = true := by rw [(hclear k).2 hpool, hin]
      simp [hkeep, this, hpool]

/-! ## What the calls do -/

theorem inRun_mul (f count k : Nat) : InRun (f * pageSize) count k ↔ f ≤ k ∧ k < f + count := by
  unfold InRun
  rw [Nat.mul_div_cancel _ (by decide : 0 < pageSize)]

/-- An allocation that takes what a scan found.  All that is left to show of it is that a
scan that found nothing missed nothing. -/
theorem Inv.allocate (h : s.Inv boot) (hfits : boot.Fits) (hexact : boot.PageExact)
    (pick : Option Nat) (count : Nat) {hi : Nat} (hhi : hi ≤ s.pmm.maxFrames)
    (hpick : ∀ f, pick = some f → 0 < count ∧ f + count ≤ hi ∧
      ∀ k, f ≤ k → k < f + count → s.pmm.bitmap k = false) :
    ∃ result s', (s.pmm.take count pick).map (s.allocated count) = some (result, s') ∧
      s'.Inv boot ∧ (s.AllocationGood boot hi count result s' ↔
        (pick = none → ¬s.FreeRun 0 hi count)) := by
  rcases pick with _ | f
  · refine ⟨0, s, rfl, h, ?_⟩
    constructor
    · exact fun hgood _ => hgood.complete rfl
    · exact fun hnone => ⟨by simp, by simp, by simp, by simp, by simp, fun _ => hnone rfl⟩
  obtain ⟨hcount, hend, hfree⟩ := hpick f rfl
  have hbits := (h.maxFrames_le hfits).1
  have hown : ∀ k, InRun (f * pageSize) count k →
      boot.Pool k ∧ ¬boot.Mapped k ∧ ¬s.Reserved k ∧ ¬s.Live k := by
    intro k hk
    rw [inRun_mul] at hk
    exact (h.bits k (by omega)).1 (hfree k hk.1 hk.2)
  have hfirst := hown f ((inRun_mul f count f).2 ⟨le_refl f, by omega⟩)
  -- No allocation starts at address 0, which would read as a failure.
  have hne : f * pageSize ≠ 0 := by
    have := (hexact.pool_available hfirst.1).1
    omega
  refine ⟨f * pageSize, { s with
    pmm := { s.pmm with bitmap := fun k => if f ≤ k ∧ k < f + count then true else s.pmm.bitmap k }
    live := (f * pageSize, count) :: s.live }, ?_, ?_, ?_⟩
  · simp only [Pmm.take, writeBits_eq s.pmm.bitmap (.inr (hend.trans (hhi.trans hbits))),
      Option.bind_eq_bind, Option.bind_some, Option.map_some, allocated, if_neg hne]
  · refine ⟨h.size, ?_, ?_, ?_⟩
    · intro k hk
      show (_ = false ↔ _ ∧ _ ∧ ¬s.Reserved k ∧
        ¬∃ q ∈ (f * pageSize, count) :: s.live, InRun q.1 q.2 k)
      rw [List.exists_mem_cons_iff, inRun_mul]
      dsimp only
      by_cases hin : f ≤ k ∧ k < f + count
      · simp [hin]
      · rw [if_neg hin, h.bits k hk]
        simp only [hin, false_or]
        exact Iff.rfl
    · intro q hq
      rcases List.mem_cons.1 hq with rfl | hq
      · exact fun k hk => ⟨(hown k hk).1, (hown k hk).2.1, (hown k hk).2.2.1⟩
      · exact h.held q hq
    · refine List.pairwise_cons.2 ⟨?_, h.apart⟩
      exact fun q hq k hk hk' => (hown k hk).2.2.2 ⟨q, hq, hk'⟩
  · refine ⟨fun _ hnone => by simp at hnone, fun _ => ⟨?_, ?_, ?_, ?_, ?_, ?_⟩⟩
    · exact fun _ k hk => hexact.pool_available (hown k hk).1
    · exact fun _ k hk => ⟨(hown k hk).2.2.1, (hown k hk).2.1⟩
    · exact fun _ k hk => (hown k hk).2.2.2
    · intro _
      rw [← add_mul]
      exact Nat.mul_le_mul_right _ hend
    · intro k
      rw [inRun_mul]
      by_cases hin : f ≤ k ∧ k < f + count
      · simp [hne, hfree k hin.1 hin.2]
      · simp [hin]
    · exact fun h0 => absurd h0 hne

theorem Inv.reserve (h : s.Inv boot) {base length : Nat} (hcount : Counted base length)
    (hlive : ∀ k, Touches base length k → ¬s.Live k) :
    ∃ s', s.call (.reserveRegion base length) = some (0, s') ∧ s'.Inv boot := by
  obtain ⟨b', hb', hbits⟩ := hcount.writeBits s.pmm.bitmap
  refine ⟨{ s with
    pmm := { s.pmm with bitmap := b' }
    reserved := (base, length) :: s.reserved }, ?_, ?_⟩
  · simp only [call, Pmm.reserveRegion, hb', Option.bind_eq_bind, Option.bind_some]
  have hres : ∀ k, (∃ q ∈ (base, length) :: s.reserved, Touches q.1 q.2 k) ↔
      Touches base length k ∨ s.Reserved k := fun k => List.exists_mem_cons_iff _ _ _
  refine ⟨h.size, ?_, ?_, h.apart⟩
  · intro k hk
    unfold Reserved
    dsimp only
    rw [hres]
    by_cases hin : Touches base length k
    · simp [(hbits k).1 hin, hin]
    · rw [(hbits k).2 hin, h.bits k hk]
      simp only [hin, false_or]
      exact Iff.rfl
  · intro q hq k hk
    obtain ⟨hpool, hmapped, hold⟩ := h.held q hq k hk
    refine ⟨hpool, hmapped, fun hnew => ?_⟩
    rcases (hres k).1 hnew with hnew | hres
    · exact hlive k hnew ⟨q, hq, hk⟩
    · exact hold hres

theorem Inv.free (h : s.Inv boot) (hfits : boot.Fits) {base count : Nat}
    (hlegal : (base, count) ∈ s.live) :
    ∃ s', s.call (.freeFrames base count) = some (0, s') ∧ s'.Inv boot := by
  have hown : ∀ k, InRun base count k → boot.Pool k ∧ ¬boot.Mapped k ∧ ¬s.Reserved k :=
    h.held _ hlegal
  have hbits : count = 0 ∨ base / pageSize + count ≤ bitmapFrames := by
    rcases eq_zero_or_pos count with h0 | hpos
    · exact .inl h0
    · have hlast := (hown (base / pageSize + (count - 1)) ⟨Nat.le_add_right _ _,
        Nat.add_lt_add_left (by omega) _⟩).1.lt_highest
      have := h.maxFrames_le hfits
      omega
  refine ⟨{ s with
    pmm := { s.pmm with bitmap := fun k =>
      if base / pageSize ≤ k ∧ k < base / pageSize + count then false else s.pmm.bitmap k }
    live := s.live.erase (base, count) }, ?_, ?_⟩
  · simp only [call, Pmm.freeFrames, writeBits_eq s.pmm.bitmap hbits, Option.bind_eq_bind,
      Option.bind_some]
  -- The other live allocations are the ones that do not meet this one.
  have hperm := List.perm_cons_erase hlegal
  have hothers : (s.live.erase (base, count)).Pairwise
        (fun q q' => ∀ k, InRun q.1 q.2 k → ¬InRun q'.1 q'.2 k) ∧
      ∀ q ∈ s.live.erase (base, count), ∀ k, InRun base count k → ¬InRun q.1 q.2 k := by
    have hsymm : ∀ {q q' : Nat × Nat}, (∀ k, InRun q.1 q.2 k → ¬InRun q'.1 q'.2 k) →
        ∀ k, InRun q'.1 q'.2 k → ¬InRun q.1 q.2 k := fun hq k hk hk' => hq k hk' hk
    have := (hperm.pairwise_iff hsymm).1 h.apart
    exact ⟨(List.pairwise_cons.1 this).2, (List.pairwise_cons.1 this).1⟩
  have hlive : ∀ k, (∃ q ∈ s.live.erase (base, count), InRun q.1 q.2 k) ↔
      s.Live k ∧ ¬InRun base count k := by
    intro k
    constructor
    · rintro ⟨q, hq, hk⟩
      exact ⟨⟨q, List.mem_of_mem_erase hq, hk⟩, fun hk' => hothers.2 q hq k hk' hk⟩
    · rintro ⟨⟨q, hq, hk⟩, hno⟩
      rcases List.mem_cons.1 (hperm.mem_iff.1 hq) with rfl | hq
      · exact absurd hk hno
      · exact ⟨q, hq, hk⟩
  refine ⟨h.size, ?_, fun q hq => h.held q (List.mem_of_mem_erase hq), hothers.1⟩
  intro k hk
  unfold Live
  dsimp only
  rw [hlive]
  by_cases hin : base / pageSize ≤ k ∧ k < base / pageSize + count
  · obtain ⟨hpool, hmapped, hres⟩ := hown k hin
    rw [if_pos hin]
    exact iff_of_true rfl ⟨hpool, hmapped, hres, fun hno => hno.2 hin⟩
  · rw [if_neg hin, h.bits k hk]
    have hno : ¬InRun base count k := hin
    simp only [hno, not_false_eq_true, and_true]
    exact Iff.rfl

/-! ## Every run -/

theorem pickFrames_misses_nothing_iff {count : Nat} (hcount : 0 < count) :
    (pickFrames s.pmm.bitmap s.pmm.maxFrames count = none → ¬s.FreeRun 0 s.pmm.maxFrames count) ↔
      s.OneSided (.allocateFrames count) := by
  constructor
  · intro h _ hrun
    rcases hp : pickFrames s.pmm.bitmap s.pmm.maxFrames count with _ | f
    · exact absurd hrun (h hp)
    · have hfree := pickFrames_free hp
      rcases pickFrames_sides hp with ⟨hlo, hend⟩ | hend
      · exact .inl ⟨f, hlo, hend, hfree⟩
      · exact .inr ⟨f, Nat.zero_le f, hend, hfree⟩
  · intro h hp hrun
    have hnone : ∀ g, (∀ k, g ≤ k → k < g + count → s.pmm.bitmap k = false) →
        ¬((dmaFrames ≤ g ∧ g + count ≤ s.pmm.maxFrames) ∨
          g + count ≤ min dmaFrames s.pmm.maxFrames) := by
      intro g hfree hside
      obtain ⟨k, hk₁, hk₂, hused⟩ := pickFrames_complete hcount hp hside
      rw [hfree k hk₁ hk₂] at hused
      exact Bool.false_ne_true hused
    rcases h hcount hrun with ⟨g, hlo, hend, hfree⟩ | ⟨g, -, hend, hfree⟩
    · exact hnone g hfree (.inl ⟨hlo, hend⟩)
    · exact hnone g hfree (.inr hend)

/-- Every careful call returns, and is good just when the free runs are one-sided. -/
theorem Inv.call (h : s.Inv boot) (hfits : boot.Fits) (hexact : boot.PageExact) {c : PmmCall}
    (hlegal : s.Legal c) (hcareful : s.Careful c) :
    ∃ result s', s.call c = some (result, s') ∧ s'.Inv boot ∧
      (s.CallGood boot c result s' ↔ s.OneSided c) := by
  cases c with
  | allocateFrames count =>
    obtain ⟨result, s', hcall, hinv, hgood⟩ := h.allocate hfits hexact
      (pickFrames s.pmm.bitmap s.pmm.maxFrames count) count le_rfl (by
        intro f hf
        refine ⟨?_, ?_, pickFrames_free hf⟩
        · by_contra h0
          simp [pickFrames, show count = 0 by omega] at hf
        · have := pickFrames_sides hf
          omega)
    refine ⟨result, s', hcall, hinv, ?_⟩
    constructor
    · intro hg hcount
      exact (pickFrames_misses_nothing_iff hcount).1 (hgood.1 (hg hcount)) hcount
    · exact fun hside hcount => hgood.2 ((pickFrames_misses_nothing_iff hcount).2 hside)
  | allocateFramesDMA count =>
    obtain ⟨result, s', hcall, hinv, hgood⟩ := h.allocate hfits hexact
      (pickFramesDMA s.pmm.bitmap s.pmm.maxFrames count) count (min_le_right dmaFrames _) (by
        intro f hf
        refine ⟨?_, pickFramesDMA_free hf⟩
        by_contra h0
        simp [pickFramesDMA, show count = 0 by omega] at hf)
    refine ⟨result, s', hcall, hinv, iff_of_true ?_ trivial⟩
    intro hcount
    refine hgood.2 fun hp => ?_
    rintro ⟨g, -, hend, hfree⟩
    obtain ⟨k, hk₁, hk₂, hused⟩ := pickFramesDMA_complete hcount hp hend
    rw [hfree k hk₁ hk₂] at hused
    exact Bool.false_ne_true hused
  | reserveRegion base length =>
    obtain ⟨s', hcall, hinv⟩ := h.reserve hcareful.1 hcareful.2
    exact ⟨0, s', hcall, hinv, iff_of_true trivial trivial⟩
  | freeFrames base count =>
    obtain ⟨s', hcall, hinv⟩ := h.free hfits hlegal
    exact ⟨0, s', hcall, hinv, iff_of_true trivial trivial⟩

/-- The calls that free what was allocated. -/
def LegalStep (s : Frames) (c : PmmCall) (s' : Frames) : Prop :=
  s.Legal c ∧ ∃ result, s.call c = some (result, s')

/-- The calls that also reserve with care. -/
def CarefulStep (s : Frames) (c : PmmCall) (s' : Frames) : Prop :=
  s.Careful c ∧ s.LegalStep c s'

theorem inv_run (hfits : boot.Fits) (hexact : boot.PageExact) {p : Pmm}
    (hstart : Inv boot ⟨p, [], []⟩) {run : List (PmmCall × Frames)}
    (hrun : Run CarefulStep ⟨p, [], []⟩ run) : (lastState ⟨p, [], []⟩ run).Inv boot := by
  apply hrun.invariant (I := Inv boot) hstart
  rintro s c s' hinv ⟨hcareful, hlegal, result, hcall⟩
  obtain ⟨result', s'', hcall', hinv', -⟩ := hinv.call hfits hexact hlegal hcareful
  rw [hcall] at hcall'
  obtain ⟨rfl, rfl⟩ := Prod.mk.inj (Option.some.inj hcall')
  exact hinv'

end Frames

/-- In every run of careful calls no frame is lost or shared, and a call does all that it
owes its caller exactly when no free run that it needs has to straddle 16 MiB. -/
theorem frames_never_shared_nor_lost {boot : BootInfo} (hfits : boot.Fits)
    (hexact : boot.PageExact) :
    ∃ p, initPmm boot = some p ∧ ∀ run, Run Frames.CarefulStep ⟨p, [], []⟩ run →
      ∀ s, s = lastState ⟨p, [], []⟩ run → s.Accounted boot ∧
        ∀ c, s.Legal c → s.Careful c → ∃ result s', s.call c = some (result, s') ∧
          (s.CallGood boot c result s' ↔ s.OneSided c) := by
  obtain ⟨p, hp, hstart⟩ := Frames.inv_initPmm hfits hexact
  refine ⟨p, hp, ?_⟩
  rintro run hrun s rfl
  have hinv := Frames.inv_run hfits hexact hstart hrun
  refine ⟨hinv.accounted hfits, ?_⟩
  intro c hlegal hcareful
  obtain ⟨result, s', hcall, -, hgood⟩ := hinv.call hfits hexact hlegal hcareful
  exact ⟨result, s', hcall, hgood⟩

/-- Eight pages from 1 MiB on, with a kernel of two. -/
def smallMap : BootInfo where
  memoryRegions := [⟨0, 0x9FC00, .available⟩, ⟨0x100000, 0x8000, .available⟩]
  mappedMemory := [⟨.kernelCore, 0x100000, 0x2000⟩]

/-- The two pages around 16 MiB. -/
def straddlingMap : BootInfo where
  memoryRegions := [⟨0xFFF000, 0x2000, .available⟩]
  mappedMemory := []

theorem smallMap_pageExact : smallMap.PageExact := by
  constructor
  · intro r hr _ hlow _ a ha₁ ha₂
    simp only [smallMap, List.mem_cons, List.not_mem_nil, or_false] at hr
    unfold alignDown pageSize at ha₁
    rcases hr with rfl | rfl <;> dsimp only at * <;> omega
  · intro r hr _
    simp only [smallMap, List.mem_singleton] at hr
    subst hr
    exact .inr (by decide)

theorem straddlingMap_pageExact : straddlingMap.PageExact := by
  constructor
  · intro r hr _ _ _ a ha₁ ha₂
    simp only [straddlingMap, List.mem_singleton] at hr
    unfold alignDown pageSize at ha₁
    subst hr
    dsimp only at *
    omega
  · intro r hr
    simp [straddlingMap] at hr

/-- What four calls in a row answer, and what is live before the last two. -/
def smallTrace (c₁ c₂ c₃ c₄ : PmmCall) :
    Option (List Nat × List (Nat × Nat) × List (Nat × Nat) × Nat) :=
  (initPmm smallMap).bind fun p => (Frames.call ⟨p, [], []⟩ c₁).bind fun x₁ =>
    (x₁.2.call c₂).bind fun x₂ => (x₂.2.call c₃).bind fun x₃ => (x₃.2.call c₄).map fun x₄ =>
      ([x₁.1, x₂.1, x₃.1, x₄.1], x₂.2.live, x₃.2.live, x₃.2.pmm.maxFrames)

set_option maxRecDepth 10000 in
/-- Two allocations, the first of them freed again: its frames are handed out once more. -/
theorem frames_never_shared_nor_lost_small : smallMap.Fits ∧ smallMap.PageExact ∧
    ∃ p run, initPmm smallMap = some p ∧ Run Frames.CarefulStep ⟨p, [], []⟩ run ∧
      run.reverse.map Prod.fst =
        [.allocateFrames 2, .allocateFrames 1, .freeFrames 0x102000 2] ∧
      (lastState ⟨p, [], []⟩ run).live = [(0x104000, 1)] ∧
      (lastState ⟨p, [], []⟩ run).Accounted smallMap ∧
      ∃ s', (lastState ⟨p, [], []⟩ run).call (.allocateFrames 2) = some (0x102000, s') ∧
        Frames.CallGood smallMap (lastState ⟨p, [], []⟩ run) (.allocateFrames 2) 0x102000 s' := by
  have htrace : smallTrace (.allocateFrames 2) (.allocateFrames 1) (.freeFrames 0x102000 2)
      (.allocateFrames 2) = some ([0x102000, 0x104000, 0, 0x102000],
        [(0x104000, 1), (0x102000, 2)], [(0x104000, 1)], 288) := by
    decide +kernel
  obtain ⟨q, hq, hrest⟩ := Option.bind_eq_some_iff.1 htrace
  obtain ⟨⟨a₁, s₁⟩, hcall₁, hrest⟩ := Option.bind_eq_some_iff.1 hrest
  obtain ⟨⟨a₂, s₂⟩, hcall₂, hrest⟩ := Option.bind_eq_some_iff.1 hrest
  obtain ⟨⟨a₃, s₃⟩, hcall₃, hrest⟩ := Option.bind_eq_some_iff.1 hrest
  obtain ⟨⟨a₄, s₄⟩, hcall₄, hrest⟩ := Option.map_eq_some_iff.1 hrest
  simp only [Prod.mk.injEq, List.cons.injEq, and_true] at hrest
  obtain ⟨⟨-, -, -, rfl⟩, hlive₂, hlive₃, hmax⟩ := hrest
  have hfits : smallMap.Fits := by decide
  obtain ⟨p, hp, h⟩ := frames_never_shared_nor_lost hfits smallMap_pageExact
  obtain rfl : p = q := Option.some.inj (hp.symm.trans hq)
  have hstep₁ : Frames.CarefulStep ⟨p, [], []⟩ (.allocateFrames 2) s₁ :=
    ⟨trivial, trivial, _, hcall₁⟩
  have hstep₂ : Frames.CarefulStep s₁ (.allocateFrames 1) s₂ := ⟨trivial, trivial, _, hcall₂⟩
  have hstep₃ : Frames.CarefulStep s₂ (.freeFrames 0x102000 2) s₃ := by
    refine ⟨trivial, ?_, _, hcall₃⟩
    show _ ∈ s₂.live
    rw [hlive₂]
    decide
  have hrun := ((Run.nil.cons hstep₁).cons hstep₂).cons hstep₃
  obtain ⟨haccounted, hcalls⟩ := h _ hrun _ rfl
  obtain ⟨a, s', hcall, hgood⟩ := hcalls (.allocateFrames 2) trivial trivial
  obtain ⟨rfl, rfl⟩ := Prod.mk.inj (Option.some.inj (hcall.symm.trans hcall₄))
  refine ⟨hfits, smallMap_pageExact, p, _, hp, hrun, rfl, hlive₃, haccounted, _, hcall, hgood.2 ?_⟩
  -- All frames lie below 16 MiB, so there is one side only.
  intro _ hfree
  have hside : min dmaFrames s₃.pmm.maxFrames = s₃.pmm.maxFrames := by
    rw [hmax]
    decide
  right
  show s₃.FreeRun 0 (min dmaFrames s₃.pmm.maxFrames) 2
  rw [hside]
  exact hfree

theorem straddlingMap_pool (k : Nat) : straddlingMap.Pool k ↔ k = 4095 ∨ k = 4096 := by
  simp only [BootInfo.Pool, straddlingMap, List.mem_singleton, exists_eq_left, pageSize,
    true_and]
  omega

/-- Two frames are free, one on each side of 16 MiB, and an allocation of two fails. -/
theorem straddling_run_missed : ¬∀ boot : BootInfo, boot.Fits →
    ∃ p, initPmm boot = some p ∧ ∀ run, Run Frames.LegalStep ⟨p, [], []⟩ run →
      ∀ s, s = lastState ⟨p, [], []⟩ run → ∀ c, s.Legal c →
        ∃ result s', s.call c = some (result, s') ∧ s.CallGood boot c result s' := by
  intro hclaim
  have hfits : straddlingMap.Fits := by decide
  obtain ⟨p, hp, h⟩ := hclaim straddlingMap hfits
  obtain ⟨result, s', hcall, hgood⟩ := h [] .nil _ rfl (.allocateFrames 2) trivial
  obtain ⟨q, hq, hinv⟩ := Frames.inv_initPmm hfits straddlingMap_pageExact
  obtain rfl := Option.some.inj (hp.symm.trans hq)
  -- The call is good, so one side would have a free run of its own.
  obtain ⟨result', s'', hcall', -, hiff⟩ := hinv.call hfits straddlingMap_pageExact
    (c := .allocateFrames 2) trivial trivial
  obtain ⟨rfl, rfl⟩ := Prod.mk.inj (Option.some.inj (hcall.symm.trans hcall'))
  have hside := hiff.1 hgood (by decide)
  have hacc := hinv.accounted hfits
  have hnothing : ∀ k, ¬straddlingMap.Mapped k ∧ ¬Frames.Reserved ⟨p, [], []⟩ k ∧
      ¬Frames.Live ⟨p, [], []⟩ k := by
    intro k
    refine ⟨?_, ?_, ?_⟩ <;> rintro ⟨q, hq, -⟩ <;> simp [straddlingMap] at hq
  have hfree : ∀ k, (k < p.maxFrames ∧ p.bitmap k = false) ↔ k = 4095 ∨ k = 4096 := by
    intro k
    rw [← straddlingMap_pool k]
    exact (hacc k).trans ⟨fun hk => hk.1, fun hk => ⟨hk, hnothing k⟩⟩
  have hhigh := (hfree 4096).2 (.inr rfl)
  have hdma : dmaFrames = 4096 := rfl
  have hrun : Frames.FreeRun ⟨p, [], []⟩ 0 p.maxFrames 2 := by
    refine ⟨4095, by omega, by omega, ?_⟩
    intro k hk₁ hk₂
    exact ((hfree k).2 (by omega)).2
  rcases hside hrun with ⟨g, hg, hend, hall⟩ | ⟨g, -, hend, hall⟩
  · dsimp only at hend
    have := (hfree (g + 1)).1 ⟨by omega, hall (g + 1) (by omega) (by omega)⟩
    omega
  · have := (hfree g).1 ⟨by omega, hall g (by omega) (by omega)⟩
    omega

end UnDOS.Memory
