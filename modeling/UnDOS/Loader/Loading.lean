import UnDOS.Loader.Accepted

/-!
# Direct Loader: The Image Before Relocation

`udl_link_images` first clears a destination and copies the segments into it.
`imageByte` is the byte that the file puts at an address; `loadImage_safe` says
that the destination then holds exactly these bytes, and that nothing outside the
span was written.
-/

namespace UnDOS.Loader

open UnDOS.Lib UnDOS.Lib.Outcome

/-! ## The bytes of the file -/

/-- Program header `i` loads something at the address `a`. -/
def holdsAt (image : Image) (a i : Nat) : Bool :=
  programType image i == ptLoad && (segmentAt image i).memorySize != 0
    && (segmentAt image i).address ≤ a
    && a < (segmentAt image i).address + (segmentAt image i).memorySize

/-- The byte that the file puts at the linked address `a`. -/
def imageByte (image : Image) (a : Nat) : UInt8 :=
  match (List.range image.programCount).find? (holdsAt image a) with
  | some i => segByte image (segmentAt image i) a
  | none => 0

/-- The destination with the image in its window. -/
def loadedStore (image : Image) (destination : ByteStore) : ByteStore := fun offset =>
  if offset < image.span then imageByte image (image.linkedBase + offset) else destination offset

section

variable {image : Image}

theorem holdsAt_iff {a i : Nat} (hi : i < image.programCount) :
    holdsAt image a i = true ↔ Loadable image i ∧ (segmentAt image i).Holds a := by
  simp only [holdsAt, Bool.and_eq_true, beq_iff_eq, bne_iff_ne, decide_eq_true_eq]
  constructor
  · rintro ⟨⟨⟨htype, hmem⟩, hlo⟩, hhi⟩
    exact ⟨⟨hi, htype, hmem⟩, hlo, hhi⟩
  · rintro ⟨hload, hlo, hhi⟩
    exact ⟨⟨⟨hload.type, hload.nonempty⟩, hlo⟩, hhi⟩

theorem imageByte_eq (hagree : SegmentsAgree image) {a i : Nat} (hi : Loadable image i)
    (ha : (segmentAt image i).Holds a) : imageByte image a =
      segByte image (segmentAt image i) a := by
  unfold imageByte
  cases hfind : (List.range image.programCount).find? (holdsAt image a) with
  | none =>
    have hnone := List.find?_eq_none.mp hfind i (List.mem_range.mpr hi.lt)
    exact absurd ((holdsAt_iff hi.lt).mpr ⟨hi, ha⟩) hnone
  | some j =>
    have hj := List.mem_range.mp (List.mem_of_find?_eq_some hfind)
    obtain ⟨hload, hholds⟩ := (holdsAt_iff hj).mp (List.find?_some hfind)
    exact hagree j i a hload hi hholds ha

/-- The address `a` is among the file bytes of the segment. -/
def Segment.InFilePart (segment : Segment) (a : Nat) : Prop :=
  segment.address ≤ a ∧ a < segment.address + segment.fileSize

instance (segment : Segment) (a : Nat) : Decidable (segment.InFilePart a) :=
  inferInstanceAs (Decidable (_ ∧ _))

theorem segByte_of_inFilePart {segment : Segment} {a : Nat} (h : segment.InFilePart a) :
    segByte image segment a = image.blob.getD (segment.offset + (a - segment.address)) 0 := by
  have h2 := h.2
  exact if_pos (by have := h.1; omega)

theorem imageByte_eq_zero {a : Nat}
    (h : ∀ i, Loadable image i → ¬(segmentAt image i).InFilePart a) : imageByte image a = 0 := by
  unfold imageByte
  cases hfind : (List.range image.programCount).find? (holdsAt image a) with
  | none => rfl
  | some i =>
    have hi := List.mem_range.mp (List.mem_of_find?_eq_some hfind)
    obtain ⟨hload, hlo, -⟩ := (holdsAt_iff hi).mp (List.find?_some hfind)
    have hout := h i hload
    refine if_neg fun hlt => hout ⟨hlo, ?_⟩
    omega

/-! ## Clearing and copying -/

theorem safe_clearDestination (destination : ByteStore) :
    Safe (clearDestination image destination) fun d =>
      d = fun offset => if offset < image.span then 0 else destination offset := by
  refine Safe.mono (Safe.forRange
    (I := fun k d => ∀ offset, d offset = if offset < k then 0 else destination offset) ?_ ?_) ?_
  · simp
  · intro k hk d hd
    rw [show store8 image.span d k 0 = .ok (writeAt d k [0]) from if_pos hk]
    refine Safe.ok fun offset => ?_
    simp only [writeAt, List.length_singleton]
    by_cases hoff : offset = k
    · simp [hoff]
    · rw [if_neg (by omega), hd offset]
      exact if_congr (by omega) rfl rfl
  · intro d hd
    funext offset
    exact hd offset

theorem safe_copySegment {segment : Segment} (destination : ByteStore)
    (hfits : SegmentFits image.blob segment) (hblob : image.blob.length < 2 ^ 32)
    (hlo : image.linkedBase ≤ segment.address)
    (hspan : segment.address - image.linkedBase + segment.memorySize ≤ image.span) :
    Safe (copySegment image segment destination) fun d => ∀ offset, d offset =
      if segment.InFilePart (image.linkedBase + offset)
      then segByte image segment (image.linkedBase + offset) else destination offset := by
  have hfile := hfits.file_le
  have hin := hfits.in_file
  have hwrap := hfits.no_wrap
  refine Safe.mono (Safe.forRange (I := fun k d => ∀ offset, d offset =
    if segment.address ≤ image.linkedBase + offset ∧ image.linkedBase + offset < segment.address + k
    then segByte image segment (image.linkedBase + offset) else destination offset) ?_ ?_) ?_
  · intro offset
    rw [if_neg (by omega)]
  · intro k hk d hd
    have hsource : wrap32 (segment.offset + k) = segment.offset + k := wrap32_of_lt (by omega)
    have htarget : wrap32 (sub32 segment.address image.linkedBase + k)
        = segment.address - image.linkedBase + k := by
      rw [sub32_of_le hlo (by omega), wrap32_of_lt (by omega)]
    rw [hsource, htarget]
    apply safe_byteAt (by omega)
    rw [show store8 image.span d (segment.address - image.linkedBase + k) _ = .ok _ from
      if_pos (by omega)]
    refine Safe.ok fun offset => ?_
    simp only [writeAt, List.length_singleton]
    by_cases hoff : offset = segment.address - image.linkedBase + k
    · -- The byte that this round writes.
      have hbyte : segByte image segment (image.linkedBase + offset)
          = image.blob.getD (segment.offset + k) 0 := by
        rw [segByte_of_inFilePart ⟨by omega, by omega⟩]
        congr 1
        omega
      rw [if_pos (by omega), if_pos (by omega), hbyte, hoff]
      simp
    · rw [if_neg (by omega), hd offset]
      exact if_congr (by omega) rfl rfl
  · intro d hd offset
    exact hd offset

/-- The destination once the first `p` program headers have been handled. -/
structure CopiedUpTo (image : Image) (destination : ByteStore) (p : Nat) (d : ByteStore) :
    Prop where
  outside : ∀ offset, image.span ≤ offset → d offset = destination offset
  copied : ∀ offset, offset < image.span → ∀ q, q < p → Loadable image q →
    (segmentAt image q).InFilePart (image.linkedBase + offset) →
    d offset = imageByte image (image.linkedBase + offset)
  cleared : ∀ offset, offset < image.span →
    (∀ q, q < p → Loadable image q →
      ¬(segmentAt image q).InFilePart (image.linkedBase + offset)) → d offset = 0

theorem CopiedUpTo.skip {destination d : ByteStore} {p : Nat}
    (h : CopiedUpTo image destination p d) (hp : ¬Loadable image p) :
    CopiedUpTo image destination (p + 1) d := by
  refine ⟨h.outside, fun offset hoff q hq hload hpart => ?_, fun offset hoff hnone => ?_⟩
  · rcases Nat.lt_succ_iff_lt_or_eq.mp hq with hlt | rfl
    · exact h.copied offset hoff q hlt hload hpart
    · exact absurd hload hp
  · exact h.cleared offset hoff fun q hq => hnone q (by omega)

theorem CopiedUpTo.copy {destination d d' : ByteStore} {p : Nat}
    (h : CopiedUpTo image destination p d) (hagree : SegmentsAgree image)
    (hp : Loadable image p) (hfits : SegmentFits image.blob (segmentAt image p))
    (hlo : image.linkedBase ≤ (segmentAt image p).address)
    (hspan : (segmentAt image p).address - image.linkedBase + (segmentAt image p).memorySize
      ≤ image.span) (hd : ∀ offset, d' offset =
      if (segmentAt image p).InFilePart (image.linkedBase + offset)
      then segByte image (segmentAt image p) (image.linkedBase + offset) else d offset) :
    CopiedUpTo image destination (p + 1) d' := by
  have hfile := hfits.file_le
  have hbyte : ∀ offset, (segmentAt image p).InFilePart (image.linkedBase + offset) →
      d' offset = imageByte image (image.linkedBase + offset) := by
    intro offset hpart
    have hholds : (segmentAt image p).Holds (image.linkedBase + offset) :=
      ⟨hpart.1, by have := hpart.2; omega⟩
    rw [hd offset, if_pos hpart, imageByte_eq hagree hp hholds]
  refine ⟨fun offset hoff => ?_, fun offset hoff q hq hload hpart => ?_,
    fun offset hoff hnone => ?_⟩
  · rw [hd offset, if_neg, h.outside offset hoff]
    intro hpart
    have := hpart.2
    omega
  · by_cases hthis : (segmentAt image p).InFilePart (image.linkedBase + offset)
    · exact hbyte offset hthis
    · rcases Nat.lt_succ_iff_lt_or_eq.mp hq with hlt | rfl
      · rw [hd offset, if_neg hthis]
        exact h.copied offset hoff q hlt hload hpart
      · exact absurd hpart hthis
  · rw [hd offset, if_neg (hnone p (by omega) hp)]
    exact h.cleared offset hoff fun q hq => hnone q (by omega)

theorem CopiedUpTo.eq_loadedStore {destination d : ByteStore}
    (h : CopiedUpTo image destination image.programCount d) :
      d = loadedStore image destination := by
  funext offset
  unfold loadedStore
  split
  case isFalse hout => exact h.outside offset (by omega)
  case isTrue hin =>
    by_cases hpart : ∃ q, Loadable image q ∧
        (segmentAt image q).InFilePart (image.linkedBase + offset)
    · obtain ⟨q, hload, hq⟩ := hpart
      exact h.copied offset hin q hload.lt hload hq
    · have hnone : ∀ q, Loadable image q →
          ¬(segmentAt image q).InFilePart (image.linkedBase + offset) :=
        fun q hload hq => hpart ⟨q, hload, hq⟩
      rw [imageByte_eq_zero hnone]
      exact h.cleared offset hin fun q _ => hnone q

/-- **Loading.**  The destination of an accepted image holds the bytes of the file. -/
theorem Accepted.loadImage_safe (h : Accepted image) (size : Nat) (destination : ByteStore) :
    Safe (loadImage image size destination) fun d => d = loadedStore image destination := by
  refine Safe.ensure fun _ => (safe_clearDestination destination).bind ?_
  rintro _ rfl
  refine Safe.mono (Safe.forRange (I := CopiedUpTo image destination) ?_ ?_)
    fun d hd => hd.eq_loadedStore
  · refine ⟨fun offset hoff => if_neg (by omega), fun _ _ q hq => absurd hq (by omega), ?_⟩
    intro offset hoff _
    exact if_pos hoff
  · intro p hp d hd
    refine h.safe_programType hp (h.safe_segmentFields hp ?_)
    refine Safe.ite (fun hskip => ?_) fun hload => ?_
    · refine Safe.ok (hd.skip fun hload => ?_)
      rcases hskip with htype | hempty
      · exact htype hload.type
      · exact hload.nonempty hempty
    · have hloadable : Loadable image p :=
        ⟨hp, by by_contra hne; exact hload (.inl hne), fun h0 => hload (.inr h0)⟩
      have hfits := h.fits p hp hloadable.type
      refine Safe.ensure fun hplace => ?_
      have hspan : (segmentAt image p).address - image.linkedBase
          + (segmentAt image p).memorySize ≤ image.span := by omega
      refine (safe_copySegment d hfits h.blob_size hplace.1 hspan).mono fun d' hd' => ?_
      exact hd.copy h.agree hloadable hfits hplace.1 hspan hd'

end

end UnDOS.Loader
