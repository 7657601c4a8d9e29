import UnDOS.Loader.Reads

/-!
# Direct Loader: What an Accepted Image Satisfies

`udl_image_open` reads only inside the blob, and the image it accepts satisfies
`Accepted`: the invariant that the later passes rely on when they skip checks.
Each block of `imageOpen` has one lemma here; `imageOpen_safe` runs through them
in order.
-/

namespace UnDOS.Loader

open UnDOS.Lib UnDOS.Lib.Outcome

/-! ## The invariant -/

/-- A segment whose bytes are in the file and whose memory does not wrap. -/
structure SegmentFits (blob : List UInt8) (segment : Segment) : Prop where
  file_le : segment.fileSize ≤ segment.memorySize
  in_file : segment.offset + segment.fileSize ≤ blob.length
  no_wrap : segment.address + segment.memorySize < 2 ^ 32

/-- The address `a` is in the memory of the segment. -/
def Segment.Holds (segment : Segment) (a : Nat) : Prop :=
  segment.address ≤ a ∧ a < segment.address + segment.memorySize

/-- Every `PT_LOAD` header of the image describes bytes of its blob. -/
def SegmentsFit (image : Image) : Prop :=
  ∀ i, i < image.programCount → programType image i = ptLoad →
    SegmentFits image.blob (segmentAt image i)

/-- The loadable segments lie between `lo` and `hi`. -/
def SegmentsWithin (image : Image) (lo hi : Nat) : Prop :=
  ∀ i, Loadable image i → lo ≤ (segmentAt image i).address
    ∧ (segmentAt image i).address + (segmentAt image i).memorySize ≤ hi

/-- Where two segments overlap they hold the same bytes. -/
def SegmentsAgree (image : Image) : Prop :=
  ∀ i j a, Loadable image i → Loadable image j → (segmentAt image i).Holds a →
    (segmentAt image j).Holds a →
    segByte image (segmentAt image i) a = segByte image (segmentAt image j) a

/-- The link-time base of an image of the given role. -/
def linkedBaseOf (role : Nat) : Nat :=
  if role = roleKernel then udlKernelBase else udlHalLinkBase

/-- What `udl_image_open` establishes. -/
structure Accepted (image : Image) : Prop extends HasSymbols image where
  fits : SegmentsFit image
  within : SegmentsWithin image image.linkedBase (image.linkedBase + image.span)
  span_le : image.span ≤ udlVirtualLimit - udlKernelBase
  agree : SegmentsAgree image
  linked : image.linkedBase = linkedBaseOf image.role
  role_le : image.role ≤ roleHal

variable {image : Image} {blob : List UInt8}

theorem Accepted.relocated (h : Accepted image) (runtimeBase bias : Nat) :
    Accepted { image with runtimeBase := runtimeBase, bias := bias } :=
  { h with
    within := fun i hi => h.within i { hi with }
    agree := fun i j a hi hj => h.agree i j a { hi with } { hj with } }

/-! ## Header -/

theorem safe_checkIdentity (h : elfHeaderSize ≤ blob.length) :
    Safe (checkIdentity blob) fun _ => True := by
  have hlen : 52 ≤ blob.length := h
  refine safe_byteAt (by omega) (safe_byteAt (by omega) (safe_byteAt (by omega) ?_))
  refine safe_byteAt (by omega) (safe_byteAt (by omega) (safe_byteAt (by omega) ?_))
  refine safe_byteAt (by omega) (safe_read16 (by omega) (safe_read16 (by omega) ?_))
  exact safe_read32 (by omega) (Safe.ensure_last fun _ => trivial)

/-- What `readHeader` has checked. -/
structure HeaderFits (blob : List UInt8) (header : Header) : Prop where
  program_count : header.phnum ≤ elfMaxSegments
  section_count : header.shnum ≤ udlMaxSections
  names : header.shstrndx < header.shnum
  names_eq : header.shstrndx = blobWord blob 50 2
  programs : header.phoff + header.phnum * elfProgramSize ≤ blob.length
  sections : header.shoff + header.shnum * elfSectionSize ≤ blob.length

theorem safe_readHeader (capacity : Nat) (h : elfHeaderSize ≤ blob.length) :
    Safe (readHeader blob capacity) (HeaderFits blob) := by
  have hlen : 52 ≤ blob.length := h
  refine safe_read32 (by omega) (safe_read32 (by omega) (safe_read32 (by omega) ?_))
  refine safe_read16 (by omega) (safe_read16 (by omega) (safe_read16 (by omega) ?_))
  refine safe_read16 (by omega) (safe_read16 (by omega) (safe_read16 (by omega) ?_))
  refine Safe.ensure fun hcounts => Safe.ensure fun hranges => Safe.ok ?_
  obtain ⟨-, -, -, -, hphnum, -, -, -, -, hnames⟩ := hcounts
  obtain ⟨hshnum, -, hprograms, hsections⟩ := hranges
  exact ⟨hphnum, hshnum, hnames, rfl, rangeFits_iff.mp hprograms, rangeFits_iff.mp hsections⟩

/-! ## Section headers -/

theorem safe_readSection {source : Nat} (h : source + elfSectionSize ≤ blob.length) :
    Safe (readSection blob source) fun _ => True := by
  have hlen : source + 40 ≤ blob.length := h
  refine safe_read32 (by omega) (safe_read32 (by omega) (safe_read32 (by omega) ?_))
  refine safe_read32 (by omega) (safe_read32 (by omega) (safe_read32 (by omega) ?_))
  refine safe_read32 (by omega) (safe_read32 (by omega) (safe_read32 (by omega) ?_))
  exact safe_read32 (by omega) trivial

theorem safe_checkSection (shnum : Nat) (s : Section) :
    Safe (checkSection shnum s) fun _ => s.type = shtRel → s.info < shnum := by
  refine Safe.ensure fun _ => Safe.ensure fun _ => Safe.ensure fun _ => Safe.ensure fun hrel => ?_
  refine Safe.ensure_last fun _ htype => ?_
  by_contra hge
  exact hrel ⟨htype, by omega⟩

theorem safe_noteSymtab (i : Nat) (s : Section) (image : Image) :
    Safe (noteSymtab i s image) fun image' => ∃ symbolSection,
      image' = { image with symbolSection := symbolSection }
        ∧ (symbolSection = image.symbolSection ∨ symbolSection = i ∧ s.type = shtSymtab) := by
  apply Safe.ite
  · intro htype
    exact Safe.ensure fun _ => Safe.ok ⟨i, rfl, .inr ⟨rfl, htype⟩⟩
  · intro _
    exact Safe.ok ⟨image.symbolSection, rfl, .inl rfl⟩

/-- The section array after `k` headers: what each of them satisfies, and where
    the symbol table is. -/
structure SectionsRead (blob : List UInt8) (shnum k : Nat) (sections : List Section)
    (symbolSection : Nat) : Prop where
  length : sections.length = k
  in_file : ∀ s ∈ sections, s.type ≠ shtNull → s.type ≠ shtNobits → s.InFile blob
  rel_info : ∀ s ∈ sections, s.type = shtRel → s.info < shnum
  symtab : symbolSection = noIndex
    ∨ ∃ s, sections[symbolSection]? = some s ∧ s.type = shtSymtab

theorem SectionsRead.snoc {shnum k : Nat} {sections : List Section}
    {symbolSection symbolSection' : Nat} {s : Section}
    (h : SectionsRead blob shnum k sections symbolSection)
    (hin : s.type ≠ shtNull → s.type ≠ shtNobits → s.InFile blob)
    (hrel : s.type = shtRel → s.info < shnum)
    (hsym : symbolSection' = symbolSection ∨ symbolSection' = k ∧ s.type = shtSymtab) :
    SectionsRead blob shnum (k + 1) (sections ++ [s]) symbolSection' := by
  refine ⟨by simp [h.length], ?_, ?_, ?_⟩
  · intro t ht
    rcases List.mem_append.mp ht with hold | hnew
    · exact h.in_file t hold
    · rw [List.mem_singleton.mp hnew]
      exact hin
  · intro t ht
    rcases List.mem_append.mp ht with hold | hnew
    · exact h.rel_info t hold
    · rw [List.mem_singleton.mp hnew]
      exact hrel
  · rcases hsym with rfl | ⟨rfl, htype⟩
    · rcases h.symtab with hnone | ⟨t, ht, htype⟩
      · exact .inl hnone
      · refine .inr ⟨t, ?_, htype⟩
        rw [List.getElem?_append_left (List.getElem?_eq_some_iff.mp ht).1]
        exact ht
    · refine .inr ⟨s, ?_, htype⟩
      rw [← h.length]
      simp

/-- `image` once `k` section headers have been read into it. -/
def ReadUpTo (image : Image) (k : Nat) (image' : Image) : Prop :=
  ∃ sections symbolSection,
    image' = { image with sections := sections, symbolSection := symbolSection }
      ∧ SectionsRead image.blob image.sectionCount k sections symbolSection

theorem safe_readSections {shoff : Nat} (hstart : image.sections = [])
    (hsym : image.symbolSection = noIndex) (hcount : image.sectionCount ≤ udlMaxSections)
    (hin : shoff + image.sectionCount * elfSectionSize ≤ image.blob.length) :
    Safe (readSections shoff image) (ReadUpTo image image.sectionCount) := by
  apply Safe.forRange (I := ReadUpTo image)
  · refine ⟨[], noIndex, ?_, rfl, by simp, by simp, .inl rfl⟩
    rw [← hstart, ← hsym]
  · rintro k hk image' ⟨sections, symbolSection, rfl, hread⟩
    simp only [elfSectionSize, udlMaxSections] at hin hcount
    have hsource : wrap32 (k * elfSectionSize) = k * 40 := by
      apply wrap32_of_lt
      simp only [elfSectionSize]
      omega
    rw [hsource]
    refine (safe_readSection (by simp only [elfSectionSize]; omega)).bind fun s _ => ?_
    refine Safe.ensure fun _ => Safe.ensure fun hfile => ?_
    have hfile' : s.type ≠ shtNull → s.type ≠ shtNobits → s.InFile image.blob :=
      fun hnull hbits => rangeFits_iff.mp (hfile ⟨hnull, hbits⟩)
    apply (safe_noteSymtab k s _).bind
    rintro image'' ⟨symbolSection', rfl, hsym'⟩
    refine (safe_checkSection _ s).bind fun _ hrel => Safe.ok ?_
    exact ⟨sections ++ [s], symbolSection', rfl, hread.snoc hfile' hrel hsym'⟩

theorem Readable.safe_validateStrings (h : Readable image)
    (hlen : elfHeaderSize ≤ image.blob.length)
    (hnames : blobWord image.blob 50 2 < image.sectionCount) : Safe (validateStrings image) fun _ =>
      HasSection image (blobWord image.blob 50 2) shtStrtab
        ∧ ∀ i, i < image.sectionCount → ∀ s, image.sections[i]? = some s →
          ∃ p, boundedString image (blobWord image.blob 50 2) s.name = .ok (some p) := by
  have hlen' : 52 ≤ image.blob.length := hlen
  refine safe_read16 (by omega) (h.safe_sectionAt hnames fun names hget => ?_)
  refine Safe.ensure fun hstr => ?_
  have hin : names.InFile image.blob :=
    h.inFile hget (by rw [hstr.1]; decide) (by rw [hstr.1]; decide)
  refine Safe.mono (P := fun _ => ∀ i, i < image.sectionCount →
    ∀ s, image.sections[i]? = some s →
      ∃ p, boundedString image (blobWord image.blob 50 2) s.name = .ok (some p)) ?_
    fun _ hall => ⟨⟨names, hget, hstr.1⟩, hall⟩
  apply Safe.forRange_all
  intro i hi
  refine h.safe_sectionAt hi fun s hs => ?_
  have hname : Safe (boundedString image (blobWord image.blob 50 2) s.name) _ :=
    h.safe_boundedString hget hin
  cases hresult : boundedString image (blobWord image.blob 50 2) s.name with
  | stuck => exact absurd hresult hname.ne_stuck
  | err e => trivial
  | ok r =>
    refine Safe.ensure_last fun hsome t ht => ?_
    obtain ⟨p, rfl⟩ := Option.isSome_iff_exists.mp hsome
    have hst : s = t := by simpa [hs] using ht
    exact ⟨p, hst ▸ hresult⟩

theorem Readable.safe_bindSymbolTable (h : Readable image)
    (hsym : image.symbolSection = noIndex ∨ HasSection image image.symbolSection shtSymtab) :
    Safe (bindSymbolTable image) fun image' => ∃ link,
      image' = { image with stringSection := link } ∧ HasSymbols image' := by
  refine Safe.ensure fun hfound => ?_
  have hsymtab : HasSection image image.symbolSection shtSymtab := hsym.resolve_left hfound
  refine h.safe_sectionAt (hsymtab.lt_sectionCount h) fun symtab _ => ?_
  refine Safe.ensure fun hentries => ?_
  refine h.safe_sectionAt hentries.2.2.2 fun strings hstrings => ?_
  refine Safe.ensure fun hstr => ?_
  refine (h.safe_sectionIsLoaded symtab).bind fun _ _ => Safe.ensure fun _ => ?_
  refine (h.safe_sectionIsLoaded strings).bind fun _ _ => Safe.ensure fun _ => Safe.ok ?_
  exact ⟨symtab.link, rfl, { h with symtab := hsymtab, strtab := ⟨strings, hstrings, hstr⟩ }⟩

/-! ## Program headers -/

theorem safe_checkSegment (blob : List UInt8) (segment : Segment) :
    Safe (checkSegment blob.length segment) fun end_ =>
      SegmentFits blob segment ∧ end_ = segment.address + segment.memorySize := by
  refine Safe.ensure fun hfits => ?_
  cases hend : add32 segment.address segment.memorySize with
  | none => trivial
  | some end_ =>
    obtain ⟨rfl, hwrap⟩ := add32_eq_some hend
    exact ⟨⟨hfits.1, rangeFits_iff.mp hfits.2.1, hwrap⟩, rfl⟩

/-- The first `k` program headers fit, and the extent covers the loadable ones. -/
structure ScannedUpTo (image : Image) (k : Nat) (extent : Extent) : Prop where
  fits : ∀ i, i < k → programType image i = ptLoad → SegmentFits image.blob (segmentAt image i)
  covers : ∀ i, i < k → Loadable image i → extent.minAddress ≤ (segmentAt image i).address
    ∧ (segmentAt image i).address + (segmentAt image i).memorySize ≤ extent.maxAddress

theorem ScannedUpTo.skip {k : Nat} {extent : Extent} (h : ScannedUpTo image k extent)
    (hfits : programType image k = ptLoad → SegmentFits image.blob (segmentAt image k))
    (hempty : ¬Loadable image k) : ScannedUpTo image (k + 1) extent := by
  constructor
  · intro i hi
    rcases Nat.lt_succ_iff_lt_or_eq.mp hi with hlt | rfl
    · exact h.fits i hlt
    · exact hfits
  · intro i hi hload
    rcases Nat.lt_succ_iff_lt_or_eq.mp hi with hlt | rfl
    · exact h.covers i hlt hload
    · exact absurd hload hempty

theorem ScannedUpTo.widen {k : Nat} {extent extent' : Extent}
    (h : ScannedUpTo image k extent) (hfits : SegmentFits image.blob (segmentAt image k))
    (hmin : extent'.minAddress ≤ extent.minAddress) (hmax : extent.maxAddress ≤ extent'.maxAddress)
    (hlo : extent'.minAddress ≤ (segmentAt image k).address)
    (hhi : (segmentAt image k).address + (segmentAt image k).memorySize ≤ extent'.maxAddress) :
    ScannedUpTo image (k + 1) extent' := by
  constructor
  · intro i hi htype
    rcases Nat.lt_succ_iff_lt_or_eq.mp hi with hlt | rfl
    · exact h.fits i hlt htype
    · exact hfits
  · intro i hi hload
    rcases Nat.lt_succ_iff_lt_or_eq.mp hi with hlt | rfl
    · obtain ⟨hl, hu⟩ := h.covers i hlt hload
      exact ⟨by omega, by omega⟩
    · exact ⟨hlo, hhi⟩

theorem Readable.safe_scanSegments (h : Readable image) :
    Safe (scanSegments image) (ScannedUpTo image image.programCount) := by
  apply Safe.forRange (I := ScannedUpTo image)
  · exact ⟨fun i hi => by omega, fun i hi => by omega⟩
  · intro k hk extent hscan
    refine h.safe_programType hk (Safe.ensure fun _ => ?_)
    apply Safe.ite
    · intro htype
      exact Safe.ok (hscan.skip (fun hload => absurd hload htype) fun hload => htype hload.type)
    · intro _
      refine Safe.ensure fun _ => h.safe_segmentFields hk ?_
      apply (safe_checkSegment image.blob _).bind
      rintro end_ ⟨hfits, rfl⟩
      split
      case isTrue hempty =>
        exact hscan.skip (fun _ => hfits) fun hload => hload.nonempty hempty
      case isFalse =>
        apply hscan.widen hfits <;> simp only <;> split <;> omega

theorem safe_checkOverlap {left right : Segment} {start end_ : Nat}
    (hblob : image.blob.length < 2 ^ 32) (hleft : SegmentFits image.blob left)
    (hright : SegmentFits image.blob right) (hstartl : left.address ≤ start)
    (hstartr : right.address ≤ start) (hend : end_ < 2 ^ 32) :
    Safe (checkOverlap image left right start end_) fun _ =>
      ∀ a, start ≤ a → a < end_ → segByte image left a = segByte image right a := by
  refine Safe.mono (P := fun _ => ∀ k, k < end_ - start →
    segByte image left (start + k) = segByte image right (start + k)) ?_ ?_
  · apply Safe.forRange_all
    intro k hk
    rw [safe_segmentByte hleft.in_file hblob (by omega) (by omega),
      safe_segmentByte hright.in_file hblob (by omega) (by omega)]
    exact Safe.ensure_last id
  · intro _ hall a hstart hlt
    have hat := hall (a - start) (by omega)
    rwa [Nat.add_sub_cancel' hstart] at hat

theorem Readable.safe_checkSegmentOverlaps (h : Readable image) (hfits : SegmentsFit image) :
    Safe (checkSegmentOverlaps image) fun _ => SegmentsAgree image := by
  refine Safe.mono (P := fun _ => ∀ i, i < image.programCount → ∀ k,
    k < image.programCount - (i + 1) → Loadable image i → Loadable image (i + 1 + k) →
    ∀ a, (segmentAt image i).Holds a → (segmentAt image (i + 1 + k)).Holds a →
      segByte image (segmentAt image i) a = segByte image (segmentAt image (i + 1 + k)) a) ?_ ?_
  · apply Safe.forRange_all
    intro i hi
    refine (h.safe_readSegment i).bind fun left hleft => ?_
    cases left with
    | none =>
      refine Safe.ok fun k _ hload => ?_
      cases (hleft _).mpr ⟨rfl, hload⟩
    | some left =>
      obtain ⟨rfl, hloadl⟩ := (hleft left).mp rfl
      apply Safe.forRange_all
      intro k hk
      refine (h.safe_readSegment (i + 1 + k)).bind fun right hright => ?_
      cases right with
      | none =>
        refine Safe.ok fun _ hload => ?_
        cases (hright _).mpr ⟨rfl, hload⟩
      | some right =>
        obtain ⟨rfl, hloadr⟩ := (hright right).mp rfl
        have hfitl := hfits i hi hloadl.type
        have hfitr := hfits (i + 1 + k) hloadr.lt hloadr.type
        have hwrapl := hfitl.no_wrap
        have hwrapr := hfitr.no_wrap
        simp only [wrap32_of_lt hwrapl, wrap32_of_lt hwrapr]
        refine (safe_checkOverlap h.blob_size hfitl hfitr ?_ ?_ ?_).mono
          fun _ hsame _ _ a hal har => ?_
        · split <;> omega
        · split <;> omega
        · split <;> omega
        · obtain ⟨hal1, hal2⟩ := hal
          obtain ⟨har1, har2⟩ := har
          apply hsame a
          · split <;> omega
          · split <;> omega
  · intro _ hpairs i j a hi hj hai haj
    -- The loops compare `i < j` only; the other two orders follow.
    rcases lt_trichotomy i j with hlt | rfl | hgt
    · have hji : i + 1 + (j - (i + 1)) = j := by omega
      have hpair := hpairs i hi.lt (j - (i + 1)) (by have := hj.lt; omega)
      rw [hji] at hpair
      exact hpair hi hj a hai haj
    · rfl
    · have hij : j + 1 + (i - (j + 1)) = i := by omega
      have hpair := hpairs j hj.lt (i - (j + 1)) (by have := hi.lt; omega)
      rw [hij] at hpair
      exact (hpair hj hi a haj hai).symm

theorem Readable.safe_checkEntry (h : Readable image) (extent : Extent) :
    Safe (checkEntry image extent) fun _ => True := by
  apply Safe.ite
  · intro _
    refine Safe.ensure fun _ => Safe.bind (P := fun _ => True) ?_ fun _ _ =>
      Safe.ensure_last fun _ => trivial
    apply Safe.anyRange_safe
    intro i hi
    have hin := h.program_bounds hi
    have hsize : elfProgramSize = 32 := rfl
    refine safe_read32 (by omega) (safe_read32 (by omega) ?_)
    exact safe_read32 (by omega) (safe_read32 (by omega) trivial)
  · intro _
    trivial

theorem Readable.safe_checkSectionsLoaded (h : Readable image) :
    Safe (checkSectionsLoaded image) fun _ => True := by
  refine (Safe.forRange_all (fun _ => True) fun i hi => ?_).mono fun _ _ => trivial
  refine h.safe_sectionAt hi fun s _ => ?_
  exact (h.safe_sectionIsLoaded s).bind fun _ _ => Safe.ensure_last fun _ => trivial

/-! ## Symbols and relocations -/

theorem HasSymbols.safe_checkSymbols (h : HasSymbols image) :
    Safe (checkSymbols image) fun _ => True := by
  refine h.safe_symtab (h.safe_strtab ?_)
  refine (Safe.forRange_all (fun _ => True) fun i hi => ?_).mono fun _ _ => trivial
  obtain ⟨hwrap, hin⟩ := h.symbol_bounds hi
  have hsize : elfSymbolSize = 16 := rfl
  refine safe_read32 (by omega) (safe_byteAt (by omega) (safe_read16 (by omega) ?_))
  refine safe_read32 (by omega) (safe_read32 (by omega) (Safe.ensure fun _ => ?_))
  refine (h.safe_boundedString h.strtab_eq.1 h.strtab_inFile).bind fun _ _ => ?_
  refine Safe.ensure fun _ => Safe.ensure fun _ => ?_
  refine Safe.ite (fun hdefined => ?_) fun _ => trivial
  refine h.safe_sectionAt hdefined.1 fun s _ => ?_
  refine Safe.ite (fun _ => ?_) fun _ => trivial
  exact (h.safe_rangeInSegment _ _).bind fun _ _ => Safe.ensure_last fun _ => trivial

theorem HasSymbols.safe_checkRelocation (h : HasSymbols image) (target : Section)
    {rel : Nat} (hrel : rel + elfRelSize ≤ image.blob.length) :
    Safe (checkRelocation image target rel) fun _ => True := by
  have hin : rel + 8 ≤ image.blob.length := hrel
  refine safe_read32 (by omega) (safe_read32 (by omega) (h.safe_symtab ?_))
  refine Safe.ensure fun _ => Safe.ite (fun _ => ?_) fun _ => trivial
  refine Safe.ensure fun _ => ?_
  exact (h.safe_rangeInSegment _ _).bind fun _ _ => Safe.ensure_last fun _ => trivial

theorem HasSymbols.safe_checkRelocations (h : HasSymbols image) :
    Safe (checkRelocations image) fun _ => True := by
  apply Safe.forRange (I := fun _ _ => True) trivial
  intro i hi relocationCount _
  refine h.safe_sectionAt hi fun relocations hget => ?_
  refine Safe.ite (fun _ => trivial) fun htype => ?_
  have hin : relocations.InFile image.blob := by
    apply h.inFile hget <;> intro h0 <;> apply htype <;> rw [h0] <;> decide
  refine Safe.ensure fun hentries => Safe.ensure fun _ => ?_
  refine h.safe_sectionAt hentries.2.2.2 fun target _ => ?_
  refine Safe.bind (P := fun _ => True) ?_ fun _ _ => Safe.ensure fun _ => trivial
  refine (Safe.forRange_all (fun _ => True) fun r hr => ?_).mono fun _ _ => trivial
  obtain ⟨hwrap, hbound⟩ := entry_bounds hin h.blob_size hr
  apply h.safe_checkRelocation target
  -- A `SHT_RELA` entry is longer than the part of it that is read.
  have hentry : elfRelSize ≤ if relocations.type = shtRel then elfRelSize else elfRelaSize := by
    split <;> decide
  omega

/-! ## Global offset table -/

/-- `image` with another record of where its GOT is. -/
def Image.withGot (image : Image) (got : Nat × Nat × Nat) : Image :=
  { image with gotSection := got.1, gotLinkedBase := got.2.1, gotSize := got.2.2 }

theorem HasSymbols.withGot (h : HasSymbols image) (got : Nat × Nat × Nat) :
    HasSymbols (image.withGot got) := { h with }

theorem safe_isGotName {name : CString × Nat} (hname : IsString name) :
    Safe (isGotName name) fun _ => True := by
  refine Safe.ite (fun _ => ?_) fun _ => trivial
  exact (safe_stringEqual hname.terminated (by simp)).mono fun _ _ => trivial

theorem HasSymbols.safe_findGot (h : HasSymbols image) {shstrndx : Nat}
    (hnames : HasSection image shstrndx shtStrtab)
    (hall : ∀ i, i < image.sectionCount → ∀ s, image.sections[i]? = some s →
      ∃ p, boundedString image shstrndx s.name = .ok (some p)) :
    Safe (findGot shstrndx image) fun image' => ∃ got, image' = image.withGot got := by
  apply h.safe_symtab
  apply Safe.forRange (I := fun _ image' => ∃ got, image' = image.withGot got)
  · exact ⟨(image.gotSection, image.gotLinkedBase, image.gotSize), rfl⟩
  · rintro i - image' ⟨got, rfl⟩
    have hgot := h.withGot got
    refine (hgot.safe_getSymbol i).bind fun symbol hsymbol => Safe.orElse fun symbol hsome => ?_
    obtain ⟨rfl, -⟩ := hsymbol symbol hsome
    refine (hgot.safe_symbolName i).bind fun name hname => Safe.orElse fun name hsome => ?_
    refine (safe_isGotName (hname name hsome).1).bind fun isGot _ => ?_
    refine Safe.ite (fun _ => ?_) fun _ => Safe.ok ⟨got, rfl⟩
    refine Safe.ensure fun hsection => ?_
    refine hgot.safe_sectionAt hsection fun s hs => Safe.ensure fun _ => ?_
    obtain ⟨names, hget, htype⟩ := hnames
    have hin : names.InFile image.blob :=
      h.inFile hget (by rw [htype]; decide) (by rw [htype]; decide)
    -- `validate_strings` found a name for every section, so this is not null.
    obtain ⟨p, hp⟩ := hall _ hsection s hs
    have hp' : boundedString (image.withGot got) shstrndx s.name = .ok (some p) := hp
    have hstring := (h.safe_boundedString hget hin).of_ok hp p rfl
    rw [hp']
    refine (safe_stringPrefix hstring.1.terminated (by decide)).bind fun _ _ => ?_
    refine Safe.ensure fun _ => Safe.ensure fun _ => Safe.ok ?_
    exact ⟨((symbolAt (image.withGot got) i).section_, (symbolAt (image.withGot got) i).value,
      sub32 (s.address + s.size) (symbolAt (image.withGot got) i).value), rfl⟩

/-! ## The whole routine -/

/-- Section `shstrndx` names every section of the image. -/
structure NamesSections (image : Image) (shstrndx : Nat) : Prop where
  table : HasSection image shstrndx shtStrtab
  all : ∀ i, i < image.sectionCount → ∀ s, image.sections[i]? = some s →
    ∃ p, boundedString image shstrndx s.name = .ok (some p)

/-- The fields that `openTables` leaves as `initialImage` has them. -/
structure OpensAs (blob : List UInt8) (role : Nat) (image : Image) : Prop where
  blob_eq : image.blob = blob
  role_eq : image.role = role
  linked : image.linkedBase = linkedBaseOf role

theorem safe_openTables {header : Header} (role : Nat)
    (hlen : elfHeaderSize ≤ blob.length) (hsize : blob.length ≤ 0xffffffff)
    (hheader : HeaderFits blob header) : Safe (openTables blob header role) fun image =>
      HasSymbols image ∧ NamesSections image header.shstrndx ∧ OpensAs blob role image := by
  have hsections : Safe (readSections header.shoff (initialImage blob header role))
      (ReadUpTo (initialImage blob header role) header.shnum) := by
    apply safe_readSections rfl rfl
    · exact hheader.section_count
    · exact hheader.sections
  apply hsections.bind
  rintro _ ⟨sections, symbolSection, rfl, hread⟩
  generalize himage : ({ initialImage blob header role with
    sections := sections, symbolSection := symbolSection } : Image) = image
  have hblob : image.blob = blob := by rw [← himage]; rfl
  have hreadable : Readable image := by
    subst himage
    exact
      { blob_size := Nat.lt_succ_of_le hsize
        program_count := hheader.program_count
        programs := hheader.programs
        sections_length := hread.length
        in_file := hread.in_file
        rel_info := hread.rel_info }
  have hnames : blobWord image.blob 50 2 = header.shstrndx := by
    rw [hblob, hheader.names_eq]
  have hcount : image.sectionCount = header.shnum := by rw [← himage]; rfl
  have hsym : image.symbolSection = noIndex ∨ HasSection image image.symbolSection shtSymtab := by
    subst himage
    exact hread.symtab
  refine (hreadable.safe_validateStrings (by rw [hblob]; exact hlen)
    (by rw [hnames, hcount]; exact hheader.names)).bind fun _ hstrings => ?_
  rw [hnames] at hstrings
  apply (hreadable.safe_bindSymbolTable hsym).mono
  rintro _ ⟨link, rfl, hsymbols⟩
  refine ⟨hsymbols, ⟨hstrings.1, hstrings.2⟩, hblob, ?_, ?_⟩
  · rw [← himage]; rfl
  · rw [← himage]; rfl

/-- The image with its place in memory. -/
def Image.withExtent (image : Image) (extent : Nat × Nat) : Image :=
  { image with end_ := extent.1, span := extent.2 }

theorem HasSymbols.withExtent (h : HasSymbols image) (extent : Nat × Nat) :
    HasSymbols (image.withExtent extent) := { h with }

/-- What `openSegments` establishes of the segments. -/
structure Placed (image : Image) : Prop where
  fits : SegmentsFit image
  within : SegmentsWithin image image.linkedBase (image.linkedBase + image.span)
  span_le : image.span ≤ udlVirtualLimit - udlKernelBase
  agree : SegmentsAgree image

theorem HasSymbols.safe_openSegments (h : HasSymbols image) :
    Safe (openSegments image) fun image' => ∃ extent,
      image' = image.withExtent extent ∧ Placed image' := by
  refine h.safe_scanSegments.bind fun extent hscan => Safe.ensure fun hextent => ?_
  have hfits : SegmentsFit image := hscan.fits
  refine (h.safe_checkSegmentOverlaps hfits).bind fun _ hagree => Safe.ensure fun _ => ?_
  have hplaced := h.withExtent (extent.maxAddress, extent.maxAddress - extent.minAddress)
  refine (hplaced.safe_checkEntry extent).bind fun _ _ => Safe.ok ?_
  obtain ⟨-, hmin, hle, -, hspan⟩ := hextent
  refine ⟨(extent.maxAddress, extent.maxAddress - extent.minAddress), rfl, hfits, ?_, hspan, ?_⟩
  · intro i hi
    obtain ⟨hlo, hhi⟩ := hscan.covers i hi.lt { hi with }
    refine ⟨hmin ▸ hlo, hhi.trans ?_⟩
    show extent.maxAddress ≤ image.linkedBase + (extent.maxAddress - extent.minAddress)
    omega
  · exact fun i j a hi hj => hagree i j a { hi with } { hj with }

/-- **Opening an image.**  Whatever the blob holds, no read leaves it, and an
    image that is accepted satisfies the invariant. -/
theorem imageOpen_safe (blob : List UInt8) (capacity role : Nat) :
    Safe (imageOpen blob capacity role) fun image => Accepted image ∧ image.role = role := by
  refine Safe.ensure fun hrole => Safe.ensure fun hlen => Safe.ensure fun hsize => ?_
  refine (safe_checkIdentity hlen).bind fun _ _ => ?_
  refine (safe_readHeader capacity hlen).bind fun header hheader => ?_
  apply (safe_openTables role hlen hsize hheader).bind
  rintro image ⟨hsymbols, hnames, hopens⟩
  apply hsymbols.safe_openSegments.bind
  rintro _ ⟨extent, rfl, hplaced⟩
  have hextent := hsymbols.withExtent extent
  refine hextent.safe_checkSectionsLoaded.bind fun _ _ => ?_
  refine hextent.safe_checkSymbols.bind fun _ _ => ?_
  refine hextent.safe_checkRelocations.bind fun _ _ => ?_
  apply (hextent.safe_findGot hnames.table hnames.all).mono
  rintro _ ⟨got, rfl⟩
  refine ⟨{ hextent.withGot got with
    fits := hplaced.fits
    within := fun i hi => hplaced.within i { hi with }
    span_le := hplaced.span_le
    agree := fun i j a hi hj => hplaced.agree i j a { hi with } { hj with }
    linked := ?_
    role_le := ?_ }, hopens.role_eq⟩
  · exact hopens.linked.trans (by rw [← hopens.role_eq]; rfl)
  · exact hopens.role_eq.symm ▸ hrole

end UnDOS.Loader
