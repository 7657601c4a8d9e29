import UnDOS.Memory.Pmm

/-!
# The Bounds of the Frame Bitmap

`init_pmm` once more, with the widths that its numbers have on the machine: addresses and frames
have 32 bits, the length of a region has 64.  The bitmap is cut off at 512 MiB, and the number of
frames at 32 bits; the loops that mark the regions are not.

A word past `bitmap_size_words` is not accessible here, so `initPmmT` returns exactly if every
access is inside.
-/

namespace UnDOS.Memory

/-! ## The memory map on the machine -/

/-- `kernel::MemoryRegionT`, with its own widths. -/
structure MemoryRegionT where
  base : UInt32
  length : UInt64
  type : MemoryRegionType
deriving DecidableEq

/-- `kernel::MappedMemoryT`, with its own widths. -/
structure MappedMemoryT where
  type : MappedMemoryRegionType
  physicalBase : UInt32
  length : UInt32
deriving DecidableEq

/-- What `init_pmm` reads of `kernel::BootInfoT`. -/
structure BootInfoT where
  memoryRegions : List MemoryRegionT
  mappedMemory : List MappedMemoryT
deriving DecidableEq

/-- `bitmap`, `bitmap_size_words` and `total_frames`. -/
structure PmmT where
  bitmap : Bitmap
  bitmapSizeWords : UInt32
  totalFrames : UInt32

/-! ## `init_pmm` -/

/-- `find_highest_physical_address`. -/
def highestPhysicalAddress (boot : BootInfoT) : UInt64 :=
  boot.memoryRegions.foldl (fun maxMemory r =>
    let regionEnd := r.base.toUInt64 + r.length
    if r.type = .available ∧ maxMemory < regionEnd then regionEnd else maxMemory) 0

/-- `bitmap_size_words` and `total_frames` for the highest address. -/
def sizeBitmap (maxMemory : UInt64) : UInt32 × UInt32 :=
  let totalFrames := (maxMemory / 4096).toUInt32
  let words := totalFrames / 32 + if totalFrames % 32 ≠ 0 then 1 else 0
  if 4096 < words then (4096, 4096 * 32) else (words, totalFrames)

/-- `set_bit` and `clear_bit` in a bitmap of `words` words. -/
def writeFrame (value : Bool) (words : UInt32) (bitmap : Bitmap) (frame : UInt32) : Option Bitmap :=
  if frame / 32 < words then some fun k => if k = frame.toNat then value else bitmap k else none

/-- The loops over `set_bit` and `clear_bit`. -/
def writeFrames (value : Bool) (words start count : UInt32) (bitmap : Bitmap) : Option Bitmap :=
  (List.range count.toNat).foldlM (fun b f => writeFrame value words b (start + UInt32.ofNat f))
    bitmap

/-- The pages of a region that is made available. -/
def MemoryRegionT.frameCount (r : MemoryRegionT) : UInt32 := (r.length / 4096).toUInt32

/-- The pages that a mapped region touches. -/
def MappedMemoryT.frameCount (r : MappedMemoryT) : UInt32 :=
  r.length / 4096 + if r.length % 4096 ≠ 0 then 1 else 0

/-- The third step: Available memory is free, unless it starts below 1 MiB. -/
def clearRegionT (words : UInt32) (bitmap : Bitmap) (r : MemoryRegionT) : Option Bitmap :=
  if r.type = .available ∧ ¬r.base < 0x100000 then
    writeFrames false words (r.base / 4096) r.frameCount bitmap
  else some bitmap

/-- The fourth step: what the boot loader mapped is in use. -/
def protectRegionT (words : UInt32) (bitmap : Bitmap) (r : MappedMemoryT) : Option Bitmap :=
  if r.type ≠ .none then writeFrames true words (r.physicalBase / 4096) r.frameCount bitmap
  else some bitmap

/-- `init_pmm`. -/
def initPmmT (boot : BootInfoT) : Option PmmT := do
  let (words, totalFrames) := sizeBitmap (highestPhysicalAddress boot)
  -- The loop over `i < bitmap_size_words`.
  let bitmap : Bitmap := fun k => decide (k < words.toNat * 32)
  let bitmap ← boot.memoryRegions.foldlM (clearRegionT words) bitmap
  let bitmap ← boot.mappedMemory.foldlM (protectRegionT words) bitmap
  some ⟨bitmap, words, totalFrames⟩

/-! ## What fits -/

/-- The frames that the bitmap has room for: those up to the end of the highest Available region,
counted in 32 bits and in whole words, and at most 512 MiB of them. -/
def BootInfoT.frameLimit (boot : BootInfoT) : Nat :=
  let frames := (highestPhysicalAddress boot).toNat / 4096 % 2 ^ 32
  min (4096 * 32) ((frames + 31) / 32 * 32)

/-- Every region that `init_pmm` marks ends below the limit, or has no page. -/
structure BootInfoT.Covered (boot : BootInfoT) : Prop where
  available : ∀ r ∈ boot.memoryRegions, r.type = .available → 0x100000 ≤ r.base.toNat →
    r.length.toNat / 4096 % 2 ^ 32 = 0 ∨
      r.base.toNat / 4096 + r.length.toNat / 4096 % 2 ^ 32 ≤ boot.frameLimit
  mapped : ∀ r ∈ boot.mappedMemory, r.type ≠ .none →
    r.length.toNat = 0 ∨
      r.physicalBase.toNat / 4096 + (r.length.toNat + 4095) / 4096 ≤ boot.frameLimit

/-! ## The loops -/

theorem foldlM_isSome_iff {α β : Type} {f : β → α → Option β} {ok : α → Prop}
    (h : ∀ b x, (f b x).isSome ↔ ok x) (l : List α) (b : β) :
    (l.foldlM f b).isSome ↔ ∀ x ∈ l, ok x := by
  induction l generalizing b with
  | nil => simp
  | cons x l ih =>
    rw [List.foldlM_cons, List.forall_mem_cons, ← h b x]
    rcases hx : f b x with _ | next
    · simp
    · simp [ih next]

theorem writeFrame_isSome (value : Bool) (words : UInt32) (bitmap : Bitmap) (frame : UInt32) :
    (writeFrame value words bitmap frame).isSome ↔ frame.toNat / 32 < words.toNat := by
  unfold writeFrame
  have hword : frame / 32 < words ↔ frame.toNat / 32 < words.toNat := by
    rfl
  rw [← hword]
  split_ifs with hlt
  · simp [hlt]
  · simp [hlt]

theorem writeFrames_isSome {value : Bool} {words start count : UInt32} {bitmap : Bitmap}
    (hwords : words.toNat ≤ 4096) : (writeFrames value words start count bitmap).isSome ↔
      count.toNat = 0 ∨ start.toNat + count.toNat ≤ words.toNat * 32 := by
  have hstart := start.toNat_lt
  have hframe : ∀ f < 2 ^ 32, (start + UInt32.ofNat f).toNat = (start.toNat + f) % 2 ^ 32 := by
    intro f hf
    rw [UInt32.toNat_add, UInt32.toNat_ofNat_of_lt' hf]
  unfold writeFrames
  rw [foldlM_isSome_iff fun b f => writeFrame_isSome value words b (start + UInt32.ofNat f)]
  constructor
  · intro h
    by_contra hout
    rcases lt_or_ge start.toNat (words.toNat * 32) with hin | hpast
    · have hfirst := h (words.toNat * 32 - start.toNat) (List.mem_range.mpr (by omega))
      rw [hframe _ (by omega)] at hfirst
      omega
    · have hfirst := h 0 (List.mem_range.mpr (by omega))
      rw [hframe _ (by omega)] at hfirst
      omega
  · intro h f hf
    have hlt := List.mem_range.mp hf
    rw [hframe f (by omega)]
    omega

/-! ## The size of the bitmap -/

theorem totalFrames_toNat (maxMemory : UInt64) :
    (maxMemory / 4096).toUInt32.toNat = maxMemory.toNat / 4096 % 2 ^ 32 := by
  rfl

theorem sizeBitmap_spec (maxMemory : UInt64) : (sizeBitmap maxMemory).1.toNat ≤ 4096 ∧
      (sizeBitmap maxMemory).1.toNat * 32 =
        min (4096 * 32) ((maxMemory.toNat / 4096 % 2 ^ 32 + 31) / 32 * 32) ∧
      (sizeBitmap maxMemory).2.toNat ≤ (sizeBitmap maxMemory).1.toNat * 32 := by
  have hframes := totalFrames_toNat maxMemory
  unfold sizeBitmap
  dsimp only
  generalize (maxMemory / 4096).toUInt32 = totalFrames at hframes ⊢
  have hmod : totalFrames % 32 ≠ 0 ↔ totalFrames.toNat % 32 ≠ 0 := by
    rw [ne_eq, ← UInt32.toNat_inj]
    rfl
  have hwords : (totalFrames / 32 + if totalFrames % 32 ≠ 0 then 1 else 0).toNat =
      (totalFrames.toNat + 31) / 32 := by
    by_cases hrest : totalFrames.toNat % 32 ≠ 0
    · rw [if_pos (hmod.mpr hrest)]
      show (totalFrames.toNat / 32 + 1) % 2 ^ 32 = _
      omega
    · rw [if_neg (mt hmod.mp hrest)]
      show (totalFrames.toNat / 32 + 0) % 2 ^ 32 = _
      omega
  generalize (totalFrames / 32 + if totalFrames % 32 ≠ 0 then 1 else 0) = words at hwords ⊢
  have hcut : (4096 : UInt32) < words ↔ 4096 < words.toNat := by
    rfl
  by_cases hlong : (4096 : UInt32) < words
  · rw [if_pos hlong]
    rw [hcut] at hlong
    refine ⟨le_rfl, ?_, le_rfl⟩
    show 4096 * 32 = _
    omega
  · rw [if_neg hlong]
    rw [hcut] at hlong
    dsimp only
    omega

theorem MappedMemoryT.frameCount_toNat (r : MappedMemoryT) :
    r.frameCount.toNat = (r.length.toNat + 4095) / 4096 := by
  have hlt := r.length.toNat_lt
  have hmod : r.length % 4096 ≠ 0 ↔ r.length.toNat % 4096 ≠ 0 := by
    rw [ne_eq, ← UInt32.toNat_inj]
    rfl
  unfold MappedMemoryT.frameCount
  by_cases hrest : r.length.toNat % 4096 ≠ 0
  · rw [if_pos (hmod.mpr hrest)]
    show (r.length.toNat / 4096 + 1) % 2 ^ 32 = _
    omega
  · rw [if_neg (mt hmod.mp hrest)]
    show (r.length.toNat / 4096 + 0) % 2 ^ 32 = _
    omega

/-! ## `init_pmm` stays inside -/

theorem clearRegionT_isSome {words : UInt32} (hwords : words.toNat ≤ 4096) (bitmap : Bitmap)
    (r : MemoryRegionT) : (clearRegionT words bitmap r).isSome ↔
      (r.type = .available → 0x100000 ≤ r.base.toNat → r.length.toNat / 4096 % 2 ^ 32 = 0 ∨
          r.base.toNat / 4096 + r.length.toNat / 4096 % 2 ^ 32 ≤ words.toNat * 32) := by
  have hbase : r.base < 0x100000 ↔ r.base.toNat < 0x100000 := by
    rfl
  have hstart : (r.base / 4096).toNat = r.base.toNat / 4096 := UInt32.toNat_div ..
  unfold clearRegionT
  by_cases hmarked : r.type = .available ∧ ¬r.base < 0x100000
  · rw [if_pos hmarked, writeFrames_isSome hwords]
    exact ⟨fun h _ _ => h, fun h => h hmarked.1 (not_lt.mp (mt hbase.mpr hmarked.2))⟩
  · rw [if_neg hmarked]
    refine ⟨fun _ htype hhigh => ?_, fun _ => rfl⟩
    exact absurd ⟨htype, mt hbase.mp (not_lt.mpr hhigh)⟩ hmarked

theorem protectRegionT_isSome {words : UInt32} (hwords : words.toNat ≤ 4096) (bitmap : Bitmap)
    (r : MappedMemoryT) : (protectRegionT words bitmap r).isSome ↔
      (r.type ≠ .none → r.length.toNat = 0 ∨
        r.physicalBase.toNat / 4096 + (r.length.toNat + 4095) / 4096 ≤ words.toNat * 32) := by
  have hstart : (r.physicalBase / 4096).toNat = r.physicalBase.toNat / 4096 := UInt32.toNat_div ..
  have hempty : (r.length.toNat + 4095) / 4096 = 0 ↔ r.length.toNat = 0 := by omega
  unfold protectRegionT
  by_cases hmarked : r.type ≠ .none
  · rw [if_pos hmarked, writeFrames_isSome hwords, r.frameCount_toNat, hempty]
    exact ⟨fun h _ => h, fun h => h hmarked⟩
  · rw [if_neg hmarked]
    exact ⟨fun _ htype => absurd htype hmarked, fun _ => rfl⟩

theorem initPmmT_totalFrames {boot : BootInfoT} {pmm : PmmT} (h : initPmmT boot = some pmm) :
    pmm.totalFrames.toNat ≤ pmm.bitmapSizeWords.toNat * 32 := by
  obtain ⟨-, -, hframes⟩ := sizeBitmap_spec (highestPhysicalAddress boot)
  obtain ⟨cleared, -, h⟩ := Option.bind_eq_some_iff.mp h
  obtain ⟨marked, -, h⟩ := Option.bind_eq_some_iff.mp h
  cases h
  exact hframes

theorem initPmmT_isSome_iff (boot : BootInfoT) : (initPmmT boot).isSome ↔ boot.Covered := by
  obtain ⟨hwords, hlimit, -⟩ := sizeBitmap_spec (highestPhysicalAddress boot)
  have hframes : (sizeBitmap (highestPhysicalAddress boot)).1.toNat * 32 = boot.frameLimit := hlimit
  have hclear := foldlM_isSome_iff (clearRegionT_isSome hwords) boot.memoryRegions
  have hprotect := foldlM_isSome_iff (protectRegionT_isSome hwords) boot.mappedMemory
  rw [hframes] at hclear hprotect
  rw [Option.isSome_iff_exists]
  constructor
  · rintro ⟨pmm, h⟩
    obtain ⟨cleared, hcleared, h⟩ := Option.bind_eq_some_iff.mp h
    obtain ⟨marked, hmarked, -⟩ := Option.bind_eq_some_iff.mp h
    exact ⟨(hclear _).mp (Option.isSome_iff_exists.mpr ⟨cleared, hcleared⟩),
      (hprotect cleared).mp (Option.isSome_iff_exists.mpr ⟨marked, hmarked⟩)⟩
  · intro h
    obtain ⟨cleared, hcleared⟩ := Option.isSome_iff_exists.mp ((hclear _).mpr h.available)
    obtain ⟨marked, hmarked⟩ := Option.isSome_iff_exists.mp ((hprotect cleared).mpr h.mapped)
    exact ⟨_, Option.bind_eq_some_iff.mpr ⟨cleared, hcleared,
      Option.bind_eq_some_iff.mpr ⟨marked, hmarked, rfl⟩⟩⟩

/-- Exactly the memory maps whose marked regions fit the bitmap are read into it without an access
outside. -/
theorem initPmmT_inside_iff (boot : BootInfoT) : (∃ pmm, initPmmT boot = some pmm ∧
      pmm.totalFrames.toNat ≤ pmm.bitmapSizeWords.toNat * 32) ↔ boot.Covered := by
  rw [← initPmmT_isSome_iff]
  constructor
  · rintro ⟨pmm, h, -⟩
    exact Option.isSome_iff_exists.mpr ⟨pmm, h⟩
  · intro h
    obtain ⟨pmm, hpmm⟩ := Option.isSome_iff_exists.mp h
    exact ⟨pmm, hpmm, initPmmT_totalFrames hpmm⟩

/-- A machine with 1 GiB of memory. -/
def gigabyteMap : BootInfoT where
  memoryRegions := [⟨0x100000, 0x3FF00000, .available⟩]
  mappedMemory := []

/-- Its bitmap ends at 512 MiB, and the loop does not. -/
theorem gigabyteMap_outside : ¬∃ pmm, initPmmT gigabyteMap = some pmm ∧
      pmm.totalFrames.toNat ≤ pmm.bitmapSizeWords.toNat * 32 := by
  rintro ⟨pmm, h, -⟩
  have hcovered := (initPmmT_isSome_iff gigabyteMap).mp (by rw [h]; rfl)
  have hregion := hcovered.available ⟨0x100000, 0x3FF00000, .available⟩ (.head _) rfl
    (by decide)
  exact nomatch hregion

end UnDOS.Memory
