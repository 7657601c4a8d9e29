import UnDOS.Memory.Blocks
import UnDOS.Memory.Segments

/-!
# The Loaded Image Is the File's Image

What `LoadElfFromVfs` has done when its mapping phase ends without an error, for any file
and any policy:

- every `PT_LOAD` segment is in memory, file bytes first and zeros after them;
- none of its pages was mapped before the call.

Nothing in the phase compares a segment with the limit of the target address space.  A
segment of a user image is mapped wherever its header says, in the kernel half too.
-/

namespace UnDOS.Memory

open UnDOS.Lib
open UnDOS.Lib.Prog (Within IsEffect)
open UnDOS.Kernel (KernelError)

/-! ## Reads -/

variable {file : VfsFile}

theorem readLoop_ok {fuel pos todo : Nat} {data : List UInt8}
    (h : readLoop file fuel pos todo = .ok data) :
    data = (file.bytes.drop pos).take todo ∧ data.length = todo := by
  induction fuel generalizing pos todo data with
  | zero =>
    unfold readLoop at h
    split at h
    · rename_i h0
      cases h
      simp [h0]
    · simp at h
  | succ fuel ih =>
    unfold readLoop at h
    split at h
    · rename_i h0
      cases h
      simp [h0]
    split at h
    · simp at h
    rename_i chunk hread
    split at h
    · simp at h
    split at h
    · simp at h
    split at h
    · simp at h
    rename_i rest hrest
    cases h
    obtain ⟨hrest, hrestlen⟩ := ih hrest
    have hchunk := file.read_bytes pos todo chunk hread
    -- The chunk is the first part of the bytes asked for, the rest is the second.
    constructor
    · calc chunk ++ rest
          = (file.bytes.drop pos).take chunk.length ++
              ((file.bytes.drop pos).drop chunk.length).take (todo - chunk.length) := by
            rw [← hchunk, List.drop_drop, ← hrest]
        _ = (file.bytes.drop pos).take (chunk.length + (todo - chunk.length)) := by
            rw [List.take_add]
        _ = (file.bytes.drop pos).take todo := by
            rw [show chunk.length + (todo - chunk.length) = todo by omega]
    · rw [List.length_append]
      omega

theorem readExact_ok {offset size : Nat} {data : List UInt8}
    (h : readExact file offset size = .ok data) :
    data = (file.bytes.drop offset).take size ∧ data.length = size := by
  unfold readExact at h
  split at h
  · simp at h
  split at h
  · simp at h
  exact readLoop_ok h

/-! ## Routines that keep every mapped page -/

/-- When the routine succeeds, every page that was mapped still is. -/
def Keeps {α : Type} (x : Vmm α) : Prop :=
  ∀ m a m', KernelHigh m → x m = (.ok a, m') → Extends m m' ∧ OnlyKernelGrows m m'

namespace Keeps

variable {α β : Type}

theorem of_within {x : Vmm α} (h₁ : Within Extends x) (h₂ : Within OnlyKernelGrows x) :
    Keeps x := by
  intro m a m' _ h
  exact ⟨h₁.of_eq h (by simp), h₂.of_eq h (by simp)⟩

theorem pure (a : α) : Keeps (Pure.pure a) :=
  of_within (Within.pure extends_isEffect a) (Within.pure onlyKernelGrows_isEffect a)

theorem throw (e : KernelError) : Keeps (Prog.throw e : Vmm α) :=
  of_within (Within.throw extends_isEffect e) (Within.throw onlyKernelGrows_isEffect e)

theorem ofExcept (r : Except KernelError α) : Keeps (Prog.ofExcept r) :=
  of_within (Within.ofExcept extends_isEffect r) (Within.ofExcept onlyKernelGrows_isEffect r)

theorem bind {x : Vmm α} {f : α → Vmm β} (hx : Keeps x) (hf : ∀ a, Keeps (f a)) :
    Keeps (x >>= f) := by
  intro m b m' hk h
  obtain ⟨a, t, hxa, hfa⟩ := Prog.bind_eq_ok.1 h
  obtain ⟨hext, hgrow⟩ := hx m a t hk hxa
  obtain ⟨hext', hgrow'⟩ := hf a t b m' (hgrow.kernelHigh hk) hfa
  exact ⟨extends_isEffect.trans hext hext', onlyKernelGrows_isEffect.trans hgrow hgrow'⟩

theorem ite {c : Prop} [Decidable c] {x y : Vmm α} (hx : Keeps x) (hy : Keeps y) :
    Keeps (if c then x else y) := by
  split
  · exact hx
  · exact hy

end Keeps

theorem keeps_cacheAllocate : Keeps cacheAllocate :=
  Keeps.of_within extends_cacheAllocate onlyKernelGrows.cacheAllocate

theorem readBlob_ok {offset size : Nat} {data : List UInt8}
    {block : Option Block} {m m' : Machine} (hk : KernelHigh m)
    (h : readBlob file offset size m = (.ok (data, block), m')) :
    data = (file.bytes.drop offset).take size ∧ data.length = size ∧
      Extends m m' ∧ OnlyKernelGrows m m' ∧
      ∀ b, block = some b → ∀ p root, b.hasPage p → pdIndex p < tempPdSlot →
        m.walk root p = none := by
  unfold readBlob at h
  split at h
  · rename_i h0
    obtain ⟨hok, rfl⟩ := Prod.mk.inj h
    obtain ⟨rfl, rfl⟩ := Prod.mk.inj (Outcome.ok.inj hok)
    exact ⟨by simp [h0], by simp [h0], extends_isEffect.refl m, onlyKernelGrows_isEffect.refl m,
      by simp⟩
  obtain ⟨b, m₁, hmalloc, h⟩ := Prog.bind_eq_ok.1 h
  cases b with
  | none => simp at h
  | some b =>
    obtain ⟨hext, hnone⟩ := malloc_ok hk hmalloc (by simp)
    have hgrow := (onlyKernelGrows.malloc size).of_eq hmalloc (by simp)
    rcases hread : readExact file offset size with e | bytes
    · rw [hread] at h
      obtain ⟨_, _, _, h⟩ := Prog.bind_eq_ok.1 h
      simp at h
    · rw [hread] at h
      obtain ⟨hok, rfl⟩ := Prod.mk.inj h
      obtain ⟨rfl, rfl⟩ := Prod.mk.inj (Outcome.ok.inj hok)
      obtain ⟨hdata, hlen⟩ := readExact_ok hread
      refine ⟨hdata, hlen, hext, hgrow, ?_⟩
      intro b' hb'
      cases hb'
      exact hnone b rfl

theorem keeps_withBlob {α : Type} {offset size : Nat} {body : List UInt8 → Vmm α}
    (hbody : ∀ data, Keeps (body data)) : Keeps (withBlob file offset size body) := by
  intro m a m' hk h
  obtain ⟨⟨data, block⟩, m₁, hblob, h⟩ := Prog.bind_eq_ok.1 h
  obtain ⟨_, _, hext₁, hgrow₁, hnone⟩ := readBlob_ok hk hblob
  obtain ⟨r, m₂, hr, h⟩ := Prog.bind_eq_ok.1 h
  obtain ⟨_, m₃, hfree, h⟩ := Prog.bind_eq_ok.1 h
  rcases Prog.attempt_eq_ok hr with ⟨a', rfl, hrun⟩ | ⟨e, rfl, _⟩
  · obtain ⟨_, rfl⟩ := Prod.mk.inj h
    obtain ⟨hext₂, hgrow₂⟩ := hbody data m₁ a' m₂ (hgrow₁.kernelHigh hk) hrun
    have hgrow := onlyKernelGrows_isEffect.trans hgrow₁ hgrow₂
    have hext := extends_isEffect.trans hext₁ hext₂
    cases block with
    | none =>
      cases hfree
      exact ⟨hext, hgrow⟩
    | some b =>
      refine ⟨?_, onlyKernelGrows_isEffect.trans hgrow
        ((onlyKernelGrows.free b).of_eq hfree (by simp))⟩
      -- A page that was mapped at the start is not one of the block's.
      intro root p e hpd hw
      rw [free_ok hfree root p hpd, hext root p e hpd hw]
      intro hp
      rw [hnone b rfl p root hp hpd] at hw
      simp at hw
  · simp at h

theorem keeps_captureImage (file : VfsFile) (policy : LoadPolicy) (header : ElfHeader) :
    Keeps (captureImage file policy header) := by
  have hsection : ∀ wanted shstr sh, Keeps (captureSection file wanted shstr sh) := by
    intro wanted shstr sh
    apply Keeps.ite (Keeps.pure ())
    apply Keeps.ite (Keeps.pure ())
    apply Keeps.ite (Keeps.pure ())
    exact keeps_withBlob fun _ => Keeps.pure ()
  have hloop : ∀ wanted shstr shdrs, Keeps (captureLoop file wanted shstr shdrs) := by
    intro wanted shstr shdrs
    induction shdrs with
    | nil => exact Keeps.pure ()
    | cons sh rest ih => exact Keeps.bind (hsection wanted shstr sh) fun _ => ih
  apply Keeps.ite (Keeps.pure ())
  split
  · exact Keeps.throw _
  · unfold captureSections
    split
    · exact Keeps.pure ()
    · split
      · exact Keeps.throw _
      · exact keeps_withBlob fun shstr => hloop _ shstr _

theorem keeps_placeImage (policy : LoadPolicy) (phdrs : List ProgramHeader)
    (insert : Except KernelError Unit) : Keeps (placeImage policy phdrs insert) := by
  unfold placeImage
  split
  · exact Keeps.pure _
  · apply Keeps.ite (Keeps.throw _)
    apply Keeps.bind keeps_cacheAllocate
    intro ok
    apply Keeps.ite (Keeps.throw _)
    apply Keeps.bind (Keeps.ofExcept insert)
    intro _
    apply Keeps.bind (Keeps.of_within (extends_reserveVad .kernel _ _ _)
      (onlyKernelGrows.reserveVad_kernel _ _ _))
    intro vad
    exact Keeps.pure _

theorem readSegments_ok {phdrs : List ProgramHeader} {segs : List LoadedSegment}
    {m m' : Machine} (hk : KernelHigh m) (h : readSegments file phdrs m = (.ok (segs, none), m')) :
    segs.map LoadedSegment.header = phdrs ∧ (∀ seg ∈ segs, seg.header.isLoad = true →
        seg.bytes = (file.bytes.drop seg.header.offset).take seg.header.filesz ∧
          seg.bytes.length = seg.header.filesz) ∧ Extends m m' ∧ OnlyKernelGrows m m' := by
  induction phdrs generalizing m segs with
  | nil =>
    obtain ⟨hok, rfl⟩ := Prod.mk.inj h
    obtain ⟨rfl, _⟩ := Prod.mk.inj (Outcome.ok.inj hok)
    exact ⟨rfl, by simp, extends_isEffect.refl m, onlyKernelGrows_isEffect.refl m⟩
  | cons ph rest ih =>
    unfold readSegments at h
    split at h
    · rename_i hskip
      obtain ⟨⟨segs', status⟩, m₁, hrest, h⟩ := Prog.bind_eq_ok.1 h
      obtain ⟨hok, rfl⟩ := Prod.mk.inj h
      obtain ⟨rfl, rfl⟩ := Prod.mk.inj (Outcome.ok.inj hok)
      obtain ⟨hmap, hbytes, hext, hgrow⟩ := ih hk hrest
      refine ⟨by simp [hmap], ?_, hext, hgrow⟩
      intro seg hseg hload
      rcases List.mem_cons.1 hseg with rfl | hseg
      · -- A segment without file bytes.
        have h0 : ph.filesz = 0 := by
          rcases hskip with hnot | h0
          · simp [hload] at hnot
          · exact h0
        simp [LoadedSegment.bytes, h0]
      · exact hbytes seg hseg hload
    · obtain ⟨blob, m₁, hblob, h⟩ := Prog.bind_eq_ok.1 h
      rcases Prog.attempt_eq_ok hblob with ⟨⟨data, block⟩, rfl, hread⟩ | ⟨e, rfl, _⟩
      · obtain ⟨hdata, hlen, hext₁, hgrow₁, _⟩ := readBlob_ok hk hread
        obtain ⟨⟨segs', status⟩, m₂, hrest, h⟩ := Prog.bind_eq_ok.1 h
        obtain ⟨hok, rfl⟩ := Prod.mk.inj h
        obtain ⟨rfl, rfl⟩ := Prod.mk.inj (Outcome.ok.inj hok)
        obtain ⟨hmap, hbytes, hext₂, hgrow₂⟩ := ih (hgrow₁.kernelHigh hk) hrest
        refine ⟨by simp [hmap], ?_, extends_isEffect.trans hext₁ hext₂,
          onlyKernelGrows_isEffect.trans hgrow₁ hgrow₂⟩
        intro seg hseg hload
        rcases List.mem_cons.1 hseg with rfl | hseg
        · have hb : LoadedSegment.bytes ⟨ph, some data, block⟩ = data := by
            simp [LoadedSegment.bytes, ← hlen]
          exact ⟨by rw [hb, hdata], by rw [hb, hlen]⟩
        · exact hbytes seg hseg hload
      · obtain ⟨hok, _⟩ := Prod.mk.inj h
        exact absurd (Prod.mk.inj (Outcome.ok.inj hok)).2 (by simp)

/-! ## The mapping phase -/

/-- The program headers of the file, if it has acceptable ones. -/
def programHeaders (file : VfsFile) : List ProgramHeader :=
  match readHeaders file with
  | .ok (_, phdrs) => phdrs
  | .error _ => []

/-- The directory that the image is mapped into: the target's, or the active one. -/
def imageRoot (policy : LoadPolicy) (m m' : Machine) : Nat :=
  match policy.targetAs with
  | none => m'.current
  | some ref => (m.space ref).translationRoot

/-- The byte that a virtual address shows under `root`, if the address is mapped. -/
def byteAt (mem : ByteStore) (m : Machine) (root a : Nat) : Option UInt8 :=
  (m.walk root (pageOf a)).map fun e => afterStores m.stores mem (e.frame + a % pageSize)

/-- The image is the file's image, and a user image is in its own half: `m` is the state
before the call and `m'` the state at the end of the mapping phase. -/
structure ImageLoaded (mem : ByteStore) (file : VfsFile) (policy : LoadPolicy) (m m' : Machine)
    (image : MappedImage) : Prop where
  bytes : ∀ ph ∈ programHeaders file, ph.isLoad = true → ∀ k, k < ph.memsz →
    byteAt mem m' (imageRoot policy m m') (segmentVirt image.placement.delta ph + k) =
      if k < ph.filesz then file.bytes[ph.offset + k]? else some 0
  pages : ∀ pid, policy.targetAs = some (.user pid) →
    ∀ ph ∈ programHeaders file, ph.isLoad = true →
      ∀ p, InSegment (segmentVirt image.placement.delta ph) ph.memsz p →
        (p + 1) * pageSize ≤ (m.space (.user pid)).limit ∧
          m.walk (imageRoot policy m m') p = none

/-- Every segment of a user image that has pages ends, rounded up to a page, at or below the
limit of the target address space. -/
def FitsBelowLimit (file : VfsFile) (policy : LoadPolicy) (m : Machine) : Prop :=
  ∀ pid, policy.targetAs = some (.user pid) →
    ∀ ph ∈ programHeaders file, ph.isLoad = true →
      segmentStart (segmentVirt 0 ph) < segmentEnd (segmentVirt 0 ph) ph.memsz →
        segmentEnd (segmentVirt 0 ph) ph.memsz ≤ (m.space (.user pid)).limit

/-- The parts of a mapping phase that ended without an error. -/
theorem mapImage_inv {policy : LoadPolicy} {insert : Except KernelError Unit}
    {m m' : Machine} {image : MappedImage} (hk : KernelHigh m)
    (h : mapImage file policy insert m = (.ok image, m')) (hok : image.status = none) :
    ∃ m₁ m₂ active after t, (policy.targetAs ≠ none → image.placement.delta = 0) ∧
      readSegments file (programHeaders file) m₁ = (.ok (image.segments, none), m₂) ∧
      KernelHigh m₁ ∧ Extends m m₁ ∧ OnlyKernelGrows m m₁ ∧
      mapSegments policy image.placement.delta image.segments { m₂ with current := active } =
        (.ok none, t) ∧
      m' = { t with current := after } ∧
      (active = match policy.targetAs with
        | none => m₂.current
        | some ref => (m₂.space ref).translationRoot) ∧
      (policy.targetAs = none → m' = t) := by
  obtain ⟨⟨header, phdrs⟩, m₀, hheaders, h⟩ := Prog.bind_eq_ok.1 h
  have hphdrs : programHeaders file = phdrs ∧ m₀ = m := by
    unfold programHeaders
    rcases hr : readHeaders file with e | hp
    · rw [hr] at hheaders
      simp at hheaders
    · rw [hr] at hheaders
      obtain ⟨hok, rfl⟩ := Prod.mk.inj hheaders
      obtain rfl := Outcome.ok.inj hok
      exact ⟨rfl, rfl⟩
  obtain ⟨hphdrs, hm₀⟩ := hphdrs
  rw [hm₀] at h
  obtain ⟨_, m₁, hcapture, h⟩ := Prog.bind_eq_ok.1 h
  obtain ⟨hext₁, hgrow₁⟩ := keeps_captureImage file policy header _ _ _ hk hcapture
  have hk₁ := hgrow₁.kernelHigh hk
  obtain ⟨placement, m₂, hplace, h⟩ := Prog.bind_eq_ok.1 h
  obtain ⟨hext₂, hgrow₂⟩ := keeps_placeImage policy phdrs insert _ _ _ hk₁ hplace
  have hk₂ := hgrow₂.kernelHigh hk₁
  have hdelta : policy.targetAs ≠ none → placement.delta = 0 := by
    intro htarget
    obtain ⟨ref, href⟩ := Option.ne_none_iff_exists'.1 htarget
    unfold placeImage at hplace
    rw [href] at hplace
    obtain ⟨hp, _⟩ := Prod.mk.inj hplace
    rw [← Outcome.ok.inj hp]
  obtain ⟨⟨segs, readStatus⟩, m₃, hread, h⟩ := Prog.bind_eq_ok.1 h
  cases readStatus with
  | some e =>
    obtain ⟨himage, _⟩ := Prod.mk.inj h
    rw [← Outcome.ok.inj himage] at hok
    simp at hok
  | none =>
    dsimp only at h
    rw [Prog.get_bind_apply] at h
    obtain ⟨status, m₄, hmap, h⟩ := Prog.bind_eq_ok.1 h
    obtain ⟨himage, rfl⟩ := Prod.mk.inj h
    obtain rfl := Outcome.ok.inj himage
    obtain rfl : status = none := hok
    obtain ⟨active, after, t, hbody, hm', hactive⟩ := withSpace_inv hmap
    refine ⟨m₂, m₃, active, after, t, hdelta, by rw [hphdrs]; exact hread, hk₂,
      extends_isEffect.trans hext₁ hext₂, onlyKernelGrows_isEffect.trans hgrow₁ hgrow₂, hbody, hm',
      ?_, ?_⟩
    · rw [hactive]
      cases policy.targetAs <;> rfl
    · intro htarget
      rw [htarget] at hmap hactive
      -- Without a target nothing is switched, so the loop ran on the state itself.
      obtain rfl : active = m₃.current := by simpa using hactive
      replace hmap : mapSegments policy placement.delta segs m₃ = (.ok none, m₄) := hmap
      rw [hmap] at hbody
      exact (Prod.mk.inj hbody).2

theorem Holds.byteAt {mem : ByteStore} {root : Nat} {E : Contents} {m : Machine}
    (h : Holds mem root E m) {a : Nat} {c : Nat → UInt8} (hE : E (pageOf a) = some c) :
    byteAt mem m root a = some (c (a % pageSize)) := by
  obtain ⟨_, f, ⟨e, hw, he⟩, _, hbytes⟩ := h.page _ c hE
  unfold Memory.byteAt
  rw [hw, Option.map_some, he, hbytes _ (Nat.mod_lt _ (by decide))]

theorem segmentPage_byte {ph : ProgramHeader} {virt k : Nat} {bytes : List UInt8}
    (hbytes : bytes = (file.bytes.drop ph.offset).take ph.filesz)
    (hlen : bytes.length = ph.filesz) :
    some (segmentPage virt bytes (pageOf (virt + k)) ((virt + k) % pageSize)) =
      if k < ph.filesz then file.bytes[ph.offset + k]? else some 0 := by
  have haddr := virt_eq (virt + k)
  have hoff : (virt + k) % pageSize < pageSize := Nat.mod_lt _ (by decide)
  unfold segmentPage patchPage
  by_cases hk : k < ph.filesz
  · have hin : InRange virt bytes.length (pageOf (virt + k)) ((virt + k) % pageSize) :=
      ⟨hoff, by omega, by omega⟩
    rw [if_pos hin, if_pos hk, haddr, Nat.add_sub_cancel_left]
    have hget : bytes[k]? = file.bytes[ph.offset + k]? := by
      rw [hbytes, List.getElem?_take_of_lt hk, List.getElem?_drop]
    rw [← hget, List.getD_eq_getElem?_getD, List.getElem?_eq_getElem (by omega)]
    rfl
  · rw [if_neg (by omega), if_neg hk]

theorem lastPage_inSegment {virt memSize : Nat} (h : segmentStart virt < segmentEnd virt memSize) :
    InSegment virt memSize (segmentEnd virt memSize / pageSize - 1) ∧
      (segmentEnd virt memSize / pageSize - 1 + 1) * pageSize = segmentEnd virt memSize := by
  unfold InSegment
  unfold segmentStart segmentEnd alignDown alignUp pageSize at *
  omega

theorem page_le_segmentEnd {virt memSize p : Nat} (h : InSegment virt memSize p) :
    (p + 1) * pageSize ≤ segmentEnd virt memSize := by
  unfold InSegment at h
  unfold segmentStart segmentEnd alignUp pageSize at *
  omega

/-- The image is loaded as it should be exactly when every segment of a user image fits
below the limit.  The bytes are right in any case. -/
theorem image_loaded_iff {file : VfsFile} {policy : LoadPolicy}
    {insert : Except KernelError Unit} {m m' : Machine} {image : MappedImage}
    (mem : ByteStore) (hk : KernelHigh m)
    (h : mapImage file policy insert m = (.ok image, m')) (hok : image.status = none) :
    ImageLoaded mem file policy m m' image ↔ FitsBelowLimit file policy m := by
  obtain ⟨m₁, m₂, active, after, t, hdelta, hread, hk₁, hext₁, hgrow₁, hmap, hm', hactive, hsame⟩ :=
    mapImage_inv hk h hok
  obtain ⟨hheaders, hbytes, hext₂, hgrow₂⟩ := readSegments_ok hk₁ hread
  have hgrow := onlyKernelGrows_isEffect.trans hgrow₁ hgrow₂
  have hext := extends_isEffect.trans hext₁ hext₂
  have hstart : Holds mem active (fun _ => none) { m₂ with current := active } :=
    ⟨by simp, by simp⟩
  obtain ⟨E, _, hholds, _, hcur, hsegs⟩ := mapSegments_ok hstart rfl hmap
  -- The directory of the statement is the one that was active during the loop.
  have hroot : imageRoot policy m m' = active := by
    unfold imageRoot
    rcases htarget : policy.targetAs with _ | ref
    · rw [hsame htarget, hcur]
    · rw [htarget] at hactive
      rw [hactive]
      cases ref with
      | kernel => exact hgrow.root.symm
      | user pid => simp [Machine.space, hgrow.spaces]
  have hholds' : Holds mem active E m' := by
    rw [hm']
    exact ⟨hholds.page, hholds.apart⟩
  have hseg : ∀ ph ∈ programHeaders file, ∃ seg ∈ image.segments, seg.header = ph := by
    intro ph hph
    rw [← hheaders] at hph
    simpa using hph
  constructor
  · intro hloaded pid htarget ph hph hload hpages
    -- The last page of the segment shows that the segment ends below the limit.
    have hzero : image.placement.delta = 0 := hdelta (by rw [htarget]; simp)
    obtain ⟨hin, hend⟩ := lastPage_inSegment hpages
    have hlast := (hloaded.pages pid htarget ph hph hload _ (by rw [hzero]; exact hin)).1
    rwa [hend] at hlast
  · intro hfits
    constructor
    · intro ph hph hload k hkm
      obtain ⟨seg, hmem, rfl⟩ := hseg ph hph
      obtain ⟨_, _, hpages⟩ := hsegs seg hmem hload
      obtain ⟨hdata, hlen⟩ := hbytes seg hmem hload
      have hE := (hpages _ (inSegment_of_byte hkm)).1
      rw [hroot, hholds'.byteAt hE, segmentPage_byte hdata hlen]
    · intro pid htarget ph hph hload p hp
      obtain ⟨seg, hmem, rfl⟩ := hseg ph hph
      obtain ⟨_, _, hpages⟩ := hsegs seg hmem hload
      have hzero : image.placement.delta = 0 := hdelta (by rw [htarget]; simp)
      obtain ⟨hE, hwalk⟩ := hpages p hp
      constructor
      · rw [hzero] at hp
        have hlimit := hfits pid htarget seg.header hph hload (lt_of_le_of_lt hp.1 hp.2)
        exact le_trans (page_le_segmentEnd hp) hlimit
      · rw [hroot]
        have hpd := (hholds.page p _ hE).1
        rcases hw : m.walk active p with _ | e
        · rfl
        · exact absurd (hwalk.symm.trans (hext active p e hpd hw)) (by simp)

/-! ## An executable in the kernel half -/

/-- The little-endian bytes of a 32-bit field. -/
def wordBytes (n : Nat) : List UInt8 :=
  [UInt8.ofNat n, UInt8.ofNat (n / 256), UInt8.ofNat (n / 65536), UInt8.ofNat (n / 16777216)]

/-- A file of which every read returns all it was asked for. -/
def plainFile (bytes : List UInt8) : VfsFile where
  bytes := bytes
  seek := fun pos => .ok pos
  read := fun pos n => .ok ((bytes.drop pos).take n)
  read_bytes := by
    intro pos n data h
    obtain rfl := Except.ok.inj h
    simp

/-- An executable with one writable segment at `vaddr`: two bytes of the file, then two
zeros. -/
def smallExecutable (vaddr : Nat) : VfsFile :=
  plainFile (elfMagic ++ List.replicate 24 0 ++ wordBytes ehdrSize ++ wordBytes 0 ++ wordBytes 0 ++
    [52, 0, 32, 0, 1, 0, 40, 0, 0, 0, 0, 0] ++
    wordBytes 1 ++ wordBytes 84 ++ wordBytes vaddr ++ wordBytes vaddr ++
    wordBytes 2 ++ wordBytes 4 ++ wordBytes 6 ++ wordBytes pageSize ++ [0xAB, 0xCD])

/-- A user image for process 1. -/
def userPolicy : LoadPolicy := { userMode := true, targetAs := some (.user 1) }

/-- The machine of `freshMachine` with free frames above its page directory. -/
def roomyMachine : Machine :=
  { freshMachine with used := fun f => decide (f ≤ 4096), maxFrames := 4200 }

/-- A segment linked at an unused address of the kernel half is mapped there. -/
theorem image_mapped_above_limit : ∃ image m',
    mapImage (smallExecutable 0xC0C00000) userPolicy (.ok ()) roomyMachine = (.ok image, m') ∧
    image.status = none ∧
    ¬ImageLoaded (fun _ => 0) (smallExecutable 0xC0C00000) userPolicy roomyMachine m' image := by
  refine ⟨_, _, rfl, rfl, ?_⟩
  intro hloaded
  have hpage := hloaded.pages 1 rfl ⟨1, 84, 0xC0C00000, 2, 4, 6⟩ (by decide +kernel) rfl 0xC0C00
    ⟨by decide, by decide⟩
  exact nomatch hpage.1

/-- The same file linked at 4 MiB. -/
theorem image_loaded_iff_sample : ∃ image m',
    mapImage (smallExecutable 0x400000) userPolicy (.ok ()) roomyMachine = (.ok image, m') ∧
    ImageLoaded (fun _ => 0xFF) (smallExecutable 0x400000) userPolicy roomyMachine m' image := by
  have hrun : mapImage (smallExecutable 0x400000) userPolicy (.ok ()) roomyMachine = (.ok _, _) :=
    rfl
  refine ⟨_, _, hrun, (image_loaded_iff _ (by unfold KernelHigh; decide) hrun rfl).2 ?_⟩
  intro pid hpid ph hph _ _
  obtain rfl : pid = 1 := by
    have h := Option.some.inj hpid
    exact (SpaceRef.user.inj h).symm
  have hheaders : programHeaders (smallExecutable 0x400000) =
      [⟨1, 84, 0x400000, 2, 4, 6⟩] := by decide +kernel
  rw [hheaders, List.mem_singleton] at hph
  rw [hph]
  decide

end UnDOS.Memory
