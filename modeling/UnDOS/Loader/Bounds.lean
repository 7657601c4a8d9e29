import UnDOS.Loader.Linking

/-!
# Direct Loader: Bounds Safety

An access outside its object is `stuck`, so the statement is that no pass gets stuck, for
every byte string that the loader may be handed.
-/

namespace UnDOS.Loader

open UnDOS.Lib UnDOS.Lib.Outcome

/-! ## Passes without a destination -/

/-- An image at its run-time base: the bias is the distance from the linked base. -/
structure Planned (image : Image) : Prop where
  linked_le : image.linkedBase ≤ image.runtimeBase
  bias_eq : image.linkedBase + image.bias = image.runtimeBase
  end_lt : image.runtimeBase + image.span < 2 ^ 32

theorem Planned.bias_lt {image : Image} (h : Planned image) : image.bias < 2 ^ 32 := by
  have h1 := h.bias_eq
  have h2 := h.end_lt
  omega

theorem planned_placedAt {image : Image} {base : Nat} (hle : image.linkedBase ≤ base)
    (hend : base + image.span < 2 ^ 32) : Planned (image.placedAt base) := by
  refine ⟨hle, ?_, hend⟩
  show image.linkedBase + sub32 base image.linkedBase = base
  rw [sub32_of_le hle (by omega)]
  omega

/-- What `udl_plan_layout` makes of its two images. -/
structure LaidOut (kernel hal kernel' hal' : Image) : Prop where
  kernel_eq : kernel' = kernel.placedAt udlKernelBase
  hal_eq : ∃ base, hal' = hal.placedAt base ∧ udlKernelBase ≤ base
    ∧ base + hal.span ≤ udlVirtualLimit
  kernel_span : kernel.span ≤ udlVirtualLimit - udlKernelBase
  roles : kernel.role = roleKernel ∧ hal.role = roleHal

theorem planLayout_safe (kernel hal : Image) (bootinfoSize : Nat) :
    Safe (planLayout kernel hal bootinfoSize) fun r => LaidOut kernel hal r.1 r.2.1 := by
  refine Safe.ensure fun hroles => Safe.ensure fun hspan => Safe.orElse fun kernelEnd _ => ?_
  refine Safe.ensure fun hbase => Safe.ensure fun hhal => Safe.orElse fun halEnd _ => ?_
  refine Safe.ensure fun _ => ?_
  -- The sum is kept closed: comparing it with a literal would unfold bit.
  generalize add32 (pageUp halEnd) bootStackSize = stackTop
  refine Safe.orElse fun _ _ => Safe.orElse fun _ _ => Safe.ensure fun _ => Safe.ok ?_
  have hhal' : hal.span ≤ udlVirtualLimit - pageUp kernelEnd := hhal
  exact ⟨rfl, ⟨pageUp kernelEnd, rfl, hbase.1, by omega⟩, hspan, hroles.1, hroles.2.1⟩

theorem Readable.safe_imageRelocationCount {image : Image} (h : Readable image) :
    Safe (imageRelocationCount image) fun _ => True := by
  apply Safe.forRange (I := fun _ _ => True) trivial
  intro i hi count _
  refine h.safe_sectionAt hi fun s _ => ?_
  exact Safe.ite (fun _ => Safe.ensure fun _ => trivial) fun _ => trivial

/-! ## Linking -/

theorem applyAll_outside {m : ByteStore} {ws : List WordWrite} {limit i : Nat}
    (h : ∀ w ∈ ws, w.offset + 4 ≤ limit) (hi : limit ≤ i) : WordWrite.applyAll m ws i = m i := by
  induction ws generalizing m with
  | nil => rfl
  | cons w ws ih =>
    have hw := h w (by simp)
    have htail := ih (m := WordWrite.apply m w) fun v hv => h v (by simp [hv])
    refine htail.trans (writeAt_of_ge ?_)
    rw [leBytes_length]
    omega

section

variable {image : Image} {exports : ExportTable}

theorem trace_writes_fit (hsym : HasSymbols image) (hok : ExportsOk exports.exports)
    (hbias : image.bias < 2 ^ 32) {base : ByteStore} {rels : List Relocation} {w : WordWrite}
    (hw : w ∈ writesOf (trace image exports base rels)) : w.offset + 4 ≤ image.span := by
  obtain ⟨s, hs, hwrite⟩ := List.mem_filterMap.mp hw
  obtain ⟨p, hp, rfl⟩ := Option.map_eq_some_iff.mp hwrite
  obtain ⟨pre, post, hsplit⟩ := List.append_of_mem hs
  have hpatch := trace_split hsplit
  have hspec := (hsym.relocationPatch_safe hok hbias _ s.1).of_ok hpatch
  exact (hspec.fits p hp).2.1

theorem LinkedUpTo.outside (hsym : HasSymbols image) (hok : ExportsOk exports.exports)
    (hbias : image.bias < 2 ^ 32) {destination : ByteStore} {done : List Relocation}
    {state : LinkState}
    (h : LinkedUpTo image exports (loadedStore image destination) done state) {i : Nat}
    (hi : image.span ≤ i) : state.destination i = destination i := by
  rw [h.destination, applyAll_outside (fun w hw => trace_writes_fit hsym hok hbias hw) hi]
  exact if_neg (by omega)

end

/-- The two images after linking. -/
structure Linked (kernel hal : Image) (exports : ExportTable) (kernelDestination halDestination
    : ByteStore) (result : ByteStore × ByteStore) : Prop where
  kernel : ∃ state, LinkedUpTo kernel exports (loadedStore kernel kernelDestination)
    (relocations kernel) state ∧ state.destination = result.1
  hal : ∃ state, LinkedUpTo hal exports (loadedStore hal halDestination) (relocations hal) state
    ∧ state.destination = result.2

theorem linkImages_safe {kernel hal : Image} {exports : ExportTable} (hk : Accepted kernel)
    (hh : Accepted hal) (hok : ExportsOk exports.exports) (hkbias : kernel.bias < 2 ^ 32)
    (hhbias : hal.bias < 2 ^ 32) (kernelDestination : ByteStore) (kernelSize : Nat)
    (halDestination : ByteStore) (halSize : Nat) (writes : List WriteSlot) :
    Safe (linkImages kernel hal exports kernelDestination kernelSize halDestination halSize writes)
      (Linked kernel hal exports kernelDestination halDestination) := by
  refine Safe.ensure fun _ => (hk.loadImage_safe kernelSize kernelDestination).bind ?_
  rintro _ rfl
  apply (hh.loadImage_safe halSize halDestination).bind
  rintro _ rfl
  refine (linkOne_safe hk.toHasSymbols hok hkbias _ _).bind fun linkedKernel hkernel => ?_
  refine (linkOne_safe hh.toHasSymbols hok hhbias _ _).bind fun linkedHal hhal => Safe.ok ?_
  exact ⟨⟨linkedKernel, hkernel, rfl⟩, ⟨linkedHal, hhal, rfl⟩⟩

/-! ## All passes -/

/-- `image` as the layout pass may leave it: with any run-time base and any bias. -/
def Image.movedTo (image : Image) (runtimeBase bias : UInt32) : Image :=
  { image with runtimeBase := runtimeBase.toNat, bias := bias.toNat }

theorem Accepted.movedTo {image : Image} (h : Accepted image) (runtimeBase bias : UInt32) :
    Accepted (image.movedTo runtimeBase bias) := h.relocated _ _

/-- No pass over the two images leaves its objects, and linking changes no byte of
    a destination outside the span. -/
structure PassesInBounds (kernel hal : Image) : Prop where
  plan : ∀ bootinfoSize, planLayout kernel hal bootinfoSize ≠ .stuck
  collect : ∀ table, collectExports kernel hal table ≠ .stuck
  count_kernel : imageRelocationCount kernel ≠ .stuck
  count_hal : imageRelocationCount hal ≠ .stuck
  link : ∀ table exports, collectExports kernel hal table = .ok exports →
    ∀ kernelDestination kernelSize halDestination halSize writes,
      linkImages kernel hal exports kernelDestination kernelSize halDestination halSize writes
        ≠ .stuck
      ∧ ∀ linked, linkImages kernel hal exports kernelDestination kernelSize halDestination halSize
          writes = .ok linked →
        (∀ i, kernel.span ≤ i → linked.1 i = kernelDestination i)
          ∧ ∀ i, hal.span ≤ i → linked.2 i = halDestination i

theorem Accepted.passesInBounds {kernel hal : Image} (hk : Accepted kernel) (hh : Accepted hal)
    (hkbias : kernel.bias < 2 ^ 32) (hhbias : hal.bias < 2 ^ 32) : PassesInBounds kernel hal where
  plan := fun n => (planLayout_safe kernel hal n).ne_stuck
  collect := fun table => (collectExports_safe hk.toHasSymbols hh.toHasSymbols table).ne_stuck
  count_kernel := hk.safe_imageRelocationCount.ne_stuck
  count_hal := hh.safe_imageRelocationCount.ne_stuck
  link := by
    intro table exports hexports kd ksize hd hsize writes
    have hok := ((collectExports_safe hk.toHasSymbols hh.toHasSymbols table).of_ok hexports).1
    have hsafe := linkImages_safe hk hh hok hkbias hhbias kd ksize hd hsize writes
    refine ⟨hsafe.ne_stuck, fun linked hlinked => ?_⟩
    obtain ⟨⟨kstate, hkernel, hk1⟩, ⟨hstate, hhal, hh1⟩⟩ := hsafe.of_ok hlinked
    constructor
    · intro i hi
      rw [← hk1]
      exact hkernel.outside hk.toHasSymbols hok hkbias hi
    · intro i hi
      rw [← hh1]
      exact hhal.outside hh.toHasSymbols hok hhbias hi

/-- **Bounds safety on hostile files.**  Opening any byte string in any role stays
    in it; and for any two images that were accepted, wherever they are placed, so
    does every later pass. -/
theorem loader_stays_in_bounds : (∀ blob capacity role, imageOpen blob capacity role ≠ .stuck)
      ∧ ∀ kernelBlob kernelCapacity kernel halBlob halCapacity hal,
        imageOpen kernelBlob kernelCapacity roleKernel = .ok kernel →
        imageOpen halBlob halCapacity roleHal = .ok hal → ∀ kernelBase kernelBias halBase halBias,
          PassesInBounds (kernel.movedTo kernelBase kernelBias) (hal.movedTo halBase halBias) := by
  refine ⟨fun blob capacity role => (imageOpen_safe blob capacity role).ne_stuck, ?_⟩
  intro kernelBlob kernelCapacity kernel halBlob halCapacity hal hkernel hhal kb kbias hb hbias
  have hk := ((imageOpen_safe kernelBlob kernelCapacity roleKernel).of_ok hkernel).1
  have hh := ((imageOpen_safe halBlob halCapacity roleHal).of_ok hhal).1
  apply (hk.movedTo kb kbias).passesInBounds (hh.movedTo hb hbias)
  · exact kbias.toNat_lt
  · exact hbias.toNat_lt

/-! ## A pair of images

A kernel that defines `k` and a HAL that refers to it with one `R_386_PC32`.  Both
have one segment of four bytes. -/

/-- An ELF header with one program header and `shnum` section headers. -/
def sampleHeader (entry shnum : Nat) : List UInt8 :=
  [0x7f, 69, 76, 70, 1, 1, 1] ++ leBytes 9 0 ++ leBytes 2 2 ++ leBytes 2 3 ++ leBytes 4 1
    ++ leBytes 4 entry ++ leBytes 4 52 ++ leBytes 4 84 ++ leBytes 4 0 ++ leBytes 2 52
    ++ leBytes 2 32 ++ leBytes 2 1 ++ leBytes 2 40 ++ leBytes 2 shnum ++ leBytes 2 3

/-- An executable segment of four bytes. -/
def sampleProgram (offset address : Nat) : List UInt8 :=
  [1, offset, address, address, 4, 4, 5, 1].flatMap (leBytes 4)

/-- A section header, field by field. -/
def sampleSection (fields : List Nat) : List UInt8 := fields.flatMap (leBytes 4)

def sampleKernel : List UInt8 :=
  sampleHeader 0xc0000000 4 ++ sampleProgram 244 0xc0000000
    ++ sampleSection [0, 0, 0, 0, 0, 0, 0, 0, 0, 0]
    ++ sampleSection [0, 1, 6, 0xc0000000, 244, 4, 0, 0, 1, 0]
    ++ sampleSection [0, 2, 0, 0, 248, 32, 3, 1, 4, 16]
    ++ sampleSection [0, 3, 0, 0, 280, 3, 0, 0, 1, 0]
    ++ leBytes 4 0xc3c3c3c3
    -- Symbol 0, then the global `k` at the start of section 1.
    ++ leBytes 16 0 ++ leBytes 4 1 ++ leBytes 4 0xc0000000 ++ leBytes 4 0 ++ [0x10, 0, 1, 0]
    ++ [0, 107, 0]

def sampleHal : List UInt8 :=
  sampleHeader 0 5 ++ sampleProgram 284 0x80000000
    ++ sampleSection [0, 0, 0, 0, 0, 0, 0, 0, 0, 0]
    ++ sampleSection [0, 1, 6, 0x80000000, 284, 4, 0, 0, 1, 0]
    ++ sampleSection [0, 2, 0, 0, 288, 32, 3, 1, 4, 16]
    ++ sampleSection [0, 3, 0, 0, 320, 3, 0, 0, 1, 0]
    ++ sampleSection [0, 9, 0, 0, 323, 8, 2, 1, 4, 8]
    -- The operand of a call, linked with the undefined `k` at 0.
    ++ leBytes 4 0x7ffffffc
    ++ leBytes 16 0 ++ leBytes 4 1 ++ leBytes 4 0 ++ leBytes 4 0 ++ [0x10, 0, 0, 0]
    ++ [0, 107, 0]
    ++ leBytes 4 0x80000000 ++ leBytes 4 (1 * 256 + 2)

theorem loader_stays_in_bounds_sample : ∃ kernel hal,
    imageOpen sampleKernel 8 roleKernel = .ok kernel ∧ imageOpen sampleHal 8 roleHal = .ok hal
      ∧ PassesInBounds (kernel.movedTo 0xc0000000 0) (hal.movedTo 0xc0001000 0x40001000) := by
  obtain ⟨kernel, hkernel⟩ := exists_of_isOk
    (show (imageOpen sampleKernel 8 roleKernel).isOk = true by decide +kernel)
  obtain ⟨hal, hhal⟩ := exists_of_isOk
    (show (imageOpen sampleHal 8 roleHal).isOk = true by decide +kernel)
  exact ⟨kernel, hal, hkernel, hhal,
    loader_stays_in_bounds.2 _ _ _ _ _ _ hkernel hhal _ _ _ _⟩

end UnDOS.Loader
