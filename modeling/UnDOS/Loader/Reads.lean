import UnDOS.Loader.Link

/-!
# Direct Loader: Accessors on a Readable Image

Once the two header tables are known to lie in the blob, the accessors of the
loader cannot leave it.  `Readable` is that knowledge; each accessor gets one
lemma that says that it is safe on a readable image and what it returns.
-/

namespace UnDOS.Loader

open UnDOS.Lib UnDOS.Lib.Outcome

/-! ## Readable images -/

/-- A section whose bytes are in the file. -/
def Section.InFile (s : Section) (blob : List UInt8) : Prop := s.offset + s.size ≤ blob.length

/-- The tables of the image lie in its blob. -/
structure Readable (image : Image) : Prop where
  blob_size : image.blob.length < 2 ^ 32
  program_count : image.programCount ≤ elfMaxSegments
  programs : image.programOffset + image.programCount * elfProgramSize ≤ image.blob.length
  sections_length : image.sections.length = image.sectionCount
  in_file : ∀ s ∈ image.sections, s.type ≠ shtNull → s.type ≠ shtNobits → s.InFile image.blob
  rel_info : ∀ s ∈ image.sections, s.type = shtRel → s.info < image.sectionCount

/-- Entry `index` of the section array is a section of type `type`. -/
def HasSection (image : Image) (index type : Nat) : Prop :=
  ∃ s, image.sections[index]? = some s ∧ s.type = type

/-- A readable image with its symbol table and string table. -/
structure HasSymbols (image : Image) : Prop extends Readable image where
  symtab : HasSection image image.symbolSection shtSymtab
  strtab : HasSection image image.stringSection shtStrtab

section

variable {image : Image} {β : Type} {R : β → Prop}
variable {i : Nat}

theorem Readable.lt_sectionCount (h : Readable image) {s : Section}
    (hs : image.sections[i]? = some s) : i < image.sectionCount := by
  rw [← h.sections_length]
  exact (List.getElem?_eq_some_iff.mp hs).1

theorem Readable.sectionAt_eq (h : Readable image) {s : Section}
    (hs : image.sections[i]? = some s) : sectionAt image i = .ok s := by
  unfold sectionAt
  rw [if_pos (h.lt_sectionCount hs), hs]

theorem Readable.safe_sectionAt (h : Readable image) (hi : i < image.sectionCount)
    {f : Section → Load β} (hf : ∀ s, image.sections[i]? = some s → Safe (f s) R) :
    Safe (sectionAt image i >>= f) R := by
  have hlt : i < image.sections.length := by
    rw [h.sections_length]
    exact hi
  have hs : image.sections[i]? = some image.sections[i] := List.getElem?_eq_getElem hlt
  rw [h.sectionAt_eq hs]
  exact hf _ hs

theorem Readable.inFile (h : Readable image) {s : Section}
    (hs : image.sections[i]? = some s) (hnull : s.type ≠ shtNull) (hbits : s.type ≠ shtNobits) :
    s.InFile image.blob :=
  h.in_file s (List.mem_of_getElem? hs) hnull hbits

theorem HasSection.lt_sectionCount {type : Nat} (hs : HasSection image i type)
    (h : Readable image) : i < image.sectionCount := by
  obtain ⟨s, hget, -⟩ := hs
  exact h.lt_sectionCount hget

/-! ## Strings -/

theorem safe_findNul {blob : List UInt8} {p n : Nat} (h : p + i + n ≤ blob.length) :
    Safe (findNul blob p n i) fun found => ∀ k, found = some k →
      i ≤ k ∧ k < i + n ∧ blob.getD (p + k) 0 = 0
        ∧ ∀ j, i ≤ j → j < k → blob.getD (p + j) 0 ≠ 0 := by
  induction n generalizing i with
  | zero =>
    intro k hk
    cases hk
  | succ n ih =>
    apply safe_byteAt (by omega)
    apply Safe.ite
    · intro hzero k hk
      cases hk
      exact ⟨le_refl i, by omega, hzero, fun j _ _ => by omega⟩
    · intro hne
      refine (ih (by omega)).mono fun found hfound k hk => ?_
      obtain ⟨hle, hlt, hzero, hbefore⟩ := hfound k hk
      refine ⟨by omega, by omega, hzero, fun j hij hjk => ?_⟩
      rcases eq_or_lt_of_le hij with rfl | hlater
      · exact hne
      · exact hbefore j hlater hjk

theorem chars_eq_take {l : List UInt8} {k : Nat} (hk : k < l.length) (hzero : l.getD k 0 = 0)
    (hbefore : ∀ j, j < k → l.getD j 0 ≠ 0) : chars l = l.take k := by
  induction l generalizing k with
  | nil => simp at hk
  | cons c l ih =>
    cases k with
    | zero =>
      have hc : c = 0 := by simpa using hzero
      simp [chars, hc]
    | succ k =>
      have hc : c ≠ 0 := by simpa using hbefore 0 (by omega)
      have htail : chars l = l.take k := by
        apply ih (by simpa using hk) (by simpa using hzero)
        intro j hj
        simpa using hbefore (j + 1) (by omega)
      have hstep : chars (c :: l) = c :: chars l := by simp [chars, hc]
      rw [hstep, htail, List.take_succ_cons]

/-- What a pointer to a C string and its length stand for. -/
structure IsString (p : CString × Nat) : Prop where
  terminated : (0 : UInt8) ∈ p.1
  length : p.2 = (chars p.1).length
  chars_eq : chars p.1 = p.1.take p.2

theorem isString_drop {blob : List UInt8} {p k : Nat} (hk : p + k < blob.length)
    (hzero : blob.getD (p + k) 0 = 0) (hbefore : ∀ j, 0 ≤ j → j < k → blob.getD (p + j) 0 ≠ 0) :
    IsString (blob.drop p, k) := by
  have hlen : k < (blob.drop p).length := by
    rw [List.length_drop]
    omega
  have hget : ∀ j, (blob.drop p).getD j 0 = blob.getD (p + j) 0 := by
    simp [List.getD_eq_getElem?_getD]
  have hchars : chars (blob.drop p) = (blob.drop p).take k := by
    apply chars_eq_take hlen
    · rw [hget k, hzero]
    · intro j hj
      rw [hget j]
      exact hbefore j (by omega) hj
  refine ⟨?_, ?_, hchars⟩
  · have hmem := List.getElem_mem hlen
    have hat : (blob.drop p)[k] = 0 := by
      have hk0 := hget k
      rw [hzero, List.getD_eq_getElem?_getD, List.getElem?_eq_getElem hlen] at hk0
      exact hk0
    rw [hat] at hmem
    exact hmem
  · rw [hchars, List.length_take]
    omega

theorem Readable.safe_boundedString (h : Readable image) {offset : Nat} {s : Section}
    (hs : image.sections[i]? = some s) (hin : s.InFile image.blob) :
    Safe (boundedString image i offset) fun r => ∀ p, r = some p →
      IsString p ∧ p.1 = image.blob.drop (s.offset + offset) ∧ offset < s.size := by
  unfold boundedString
  rw [if_neg (by have := h.lt_sectionCount hs; omega), h.sectionAt_eq hs]
  apply Safe.ite
  · intro _ p hp
    cases hp
  · intro hoffset
    have hin' : s.offset + s.size ≤ image.blob.length := hin
    refine (safe_findNul (by omega)).bind fun found hfound p hp => ?_
    obtain ⟨k, rfl⟩ : ∃ k, found = some k := by
      cases found with
      | none => cases hp
      | some k => exact ⟨k, rfl⟩
    obtain ⟨-, hlt, hzero, hbefore⟩ := hfound k rfl
    cases hp
    exact ⟨isString_drop (by omega) hzero hbefore, rfl, by omega⟩

theorem safe_stringEqual {l r : CString} (hl : (0 : UInt8) ∈ l) (hr : (0 : UInt8) ∈ r) :
    Safe (stringEqual l r) fun same => same = true ↔ chars l = chars r := by
  induction l generalizing r with
  | nil => simp at hl
  | cons a l ih =>
    cases r with
    | nil => simp at hr
    | cons b r =>
      apply Safe.ite
      · rintro ⟨ha, rfl⟩
        -- Equal and not the terminator: both pointers move on.
        have hl' : (0 : UInt8) ∈ l := by simpa [ha.symm] using hl
        have hr' : (0 : UInt8) ∈ r := by simpa [ha.symm] using hr
        refine (ih hl' hr').mono fun same hsame => ?_
        rw [hsame]
        simp [chars, ha]
      · intro hstop
        apply Safe.ok
        by_cases hab : a = b
        · subst hab
          have ha : a = 0 := by
            by_contra hne
            exact hstop ⟨hne, rfl⟩
          simp [chars, ha]
        · constructor
          · intro heq
            exact absurd (by simpa using heq) hab
          · intro hchars
            exfalso
            by_cases ha : a = 0 <;> by_cases hb : b = 0 <;> simp [chars, ha, hb] at hchars
            · exact hab (ha.trans hb.symm)
            · exact hab hchars.1

theorem safe_stringPrefix {value : CString} {p : List UInt8} (hv : (0 : UInt8) ∈ value)
    (hp : (0 : UInt8) ∉ p) : Safe (stringPrefix value p) fun _ => True := by
  induction p generalizing value with
  | nil => cases value <;> trivial
  | cons c p ih =>
    cases value with
    | nil => simp at hv
    | cons v value =>
      apply Safe.ite
      · intro _
        trivial
      · intro heq
        have hvc : v = c := by simpa using heq
        have hc : (0 : UInt8) ≠ c := fun h0 => hp (by simp [← h0])
        apply ih
        · rcases List.mem_cons.mp hv with h0 | hmem
          · exact absurd (h0.trans hvc) hc
          · exact hmem
        · exact fun hmem => hp (.tail c hmem)

/-! ## Symbols -/

/-- The symbol table of the image. -/
def symtabOf (image : Image) : Section :=
  image.sections.getD image.symbolSection ⟨0, 0, 0, 0, 0, 0, 0, 0, 0, 0⟩

/-- The string table of the image. -/
def strtabOf (image : Image) : Section :=
  image.sections.getD image.stringSection ⟨0, 0, 0, 0, 0, 0, 0, 0, 0, 0⟩

/-- The number of symbols of the image. -/
def symbolCount (image : Image) : Nat := (symtabOf image).size / elfSymbolSize

/-- Entry `index` of the symbol table. -/
def symbolAt (image : Image) (index : Nat) : Symbol :=
  let symbol := (symtabOf image).offset + index * elfSymbolSize
  { name := blobWord image.blob symbol 4
    value := blobWord image.blob (symbol + 4) 4
    size := blobWord image.blob (symbol + 8) 4
    info := (image.blob.getD (symbol + 12) 0).toNat
    other := (image.blob.getD (symbol + 13) 0).toNat
    section_ := blobWord image.blob (symbol + 14) 2 }

/-- The C string that the name of symbol `index` points at. -/
def symbolString (image : Image) (index : Nat) : CString :=
  image.blob.drop ((strtabOf image).offset + (symbolAt image index).name)

theorem HasSymbols.symtab_eq (h : HasSymbols image) :
    image.sections[image.symbolSection]? = some (symtabOf image)
      ∧ (symtabOf image).type = shtSymtab := by
  obtain ⟨s, hs, htype⟩ := h.symtab
  have : symtabOf image = s := by simp [symtabOf, hs]
  rw [this]
  exact ⟨hs, htype⟩

theorem HasSymbols.strtab_eq (h : HasSymbols image) :
    image.sections[image.stringSection]? = some (strtabOf image)
      ∧ (strtabOf image).type = shtStrtab := by
  obtain ⟨s, hs, htype⟩ := h.strtab
  have : strtabOf image = s := by simp [strtabOf, hs]
  rw [this]
  exact ⟨hs, htype⟩

theorem HasSymbols.symtab_inFile (h : HasSymbols image) : (symtabOf image).InFile image.blob := by
  obtain ⟨hs, htype⟩ := h.symtab_eq
  exact h.inFile hs (by rw [htype]; decide) (by rw [htype]; decide)

theorem HasSymbols.strtab_inFile (h : HasSymbols image) : (strtabOf image).InFile image.blob := by
  obtain ⟨hs, htype⟩ := h.strtab_eq
  exact h.inFile hs (by rw [htype]; decide) (by rw [htype]; decide)

theorem entry_bounds {offset size index entry length : Nat} (hin : offset + size ≤ length)
    (hlength : length < 2 ^ 32) (hindex : index < size / entry) :
    wrap32 (index * entry) = index * entry ∧ offset + index * entry + entry ≤ length := by
  have hmul : (index + 1) * entry ≤ size := by
    apply (Nat.mul_le_mul_right entry hindex).trans
    exact Nat.div_mul_le_self size entry
  have hsucc : (index + 1) * entry = index * entry + entry := Nat.succ_mul index entry
  exact ⟨wrap32_of_lt (by omega), by omega⟩

theorem HasSymbols.symbol_bounds (h : HasSymbols image) {index : Nat}
    (hindex : index < symbolCount image) : wrap32 (index * elfSymbolSize) = index * elfSymbolSize
      ∧ (symtabOf image).offset + index * elfSymbolSize + elfSymbolSize ≤ image.blob.length :=
  entry_bounds h.symtab_inFile h.blob_size hindex

theorem HasSymbols.safe_symtab (h : HasSymbols image) {f : Section → Load β}
    (hf : Safe (f (symtabOf image)) R) : Safe (sectionAt image image.symbolSection >>= f) R := by
  rw [h.sectionAt_eq h.symtab_eq.1]
  exact hf

theorem HasSymbols.safe_strtab (h : HasSymbols image) {f : Section → Load β}
    (hf : Safe (f (strtabOf image)) R) : Safe (sectionAt image image.stringSection >>= f) R := by
  rw [h.sectionAt_eq h.strtab_eq.1]
  exact hf

theorem HasSymbols.safe_getSymbol (h : HasSymbols image) (index : Nat) :
    Safe (getSymbol image index) fun r => ∀ s, r = some s →
      s = symbolAt image index ∧ index < symbolCount image := by
  apply h.safe_symtab
  apply Safe.ite
  · intro _ s hs
    cases hs
  · intro hlt
    have hindex : index < symbolCount image := by
      unfold symbolCount
      omega
    obtain ⟨hwrap, hin⟩ := h.symbol_bounds hindex
    have hsize : elfSymbolSize = 16 := rfl
    apply h.safe_strtab
    rw [hwrap]
    refine safe_read32 (by omega) (safe_read32 (by omega) (safe_read32 (by omega) ?_))
    refine safe_byteAt (by omega) (safe_byteAt (by omega) (safe_read16 (by omega) ?_))
    apply Safe.ite
    · intro _ s hs
      cases hs
      exact ⟨rfl, hindex⟩
    · intro _ s hs
      cases hs

theorem HasSymbols.safe_symbolName (h : HasSymbols image) (index : Nat) :
    Safe (boundedString image image.stringSection (symbolAt image index).name) fun r =>
      ∀ p, r = some p → IsString p ∧ p.1 = symbolString image index :=
  (h.safe_boundedString h.strtab_eq.1 h.strtab_inFile).mono fun _ hr p hp =>
    ⟨(hr p hp).1, (hr p hp).2.1⟩

/-! ## Program headers -/

/-- The type of program header `i`. -/
def programType (image : Image) (i : Nat) : Nat := blobWord image.blob (programAt image i) 4

/-- Program header `i`. -/
def segmentAt (image : Image) (i : Nat) : Segment where
  offset := blobWord image.blob (programAt image i + 4) 4
  address := blobWord image.blob (programAt image i + 8) 4
  fileSize := blobWord image.blob (programAt image i + 16) 4
  memorySize := blobWord image.blob (programAt image i + 20) 4
  alignment := blobWord image.blob (programAt image i + 28) 4

/-- Program header `i` describes bytes to load. -/
structure Loadable (image : Image) (i : Nat) : Prop where
  lt : i < image.programCount
  type : programType image i = ptLoad
  nonempty : (segmentAt image i).memorySize ≠ 0

theorem Readable.program_bounds (h : Readable image) (hi : i < image.programCount) :
    programAt image i + elfProgramSize ≤ image.blob.length := by
  have hcount := h.program_count
  have hin := h.programs
  simp only [elfProgramSize, elfMaxSegments] at hcount hin
  simp only [programAt, elfProgramSize]
  rw [wrap32_of_lt (by omega)]
  omega

theorem Readable.safe_segmentFields (h : Readable image) (hi : i < image.programCount)
    {f : Segment → Load β} (hf : Safe (f (segmentAt image i)) R) :
    Safe (segmentFields image i >>= f) R := by
  have hin := h.program_bounds hi
  have hsize : elfProgramSize = 32 := rfl
  have hfields : segmentFields image i = .ok (segmentAt image i) := by
    simp only [segmentFields]
    rw [read32_of_le (by omega), read32_of_le (by omega), read32_of_le (by omega),
      read32_of_le (by omega), read32_of_le (by omega)]
    rfl
  rw [hfields]
  exact hf

theorem Readable.safe_programType (h : Readable image) (hi : i < image.programCount)
    {f : Nat → Load β} (hf : Safe (f (programType image i)) R) :
    Safe (read32 image.blob (programAt image i) >>= f) R := by
  have hin := h.program_bounds hi
  have hsize : elfProgramSize = 32 := rfl
  exact safe_read32 (by omega) hf

/-- `[address, address + length)` lies in the memory of program header `i`. -/
def InSegment (image : Image) (address length i : Nat) : Prop :=
  programType image i = ptLoad ∧ (segmentAt image i).memorySize ≠ 0
    ∧ (segmentAt image i).address ≤ address
    ∧ address + length ≤ (segmentAt image i).address + (segmentAt image i).memorySize
    ∧ (segmentAt image i).address + (segmentAt image i).memorySize < 2 ^ 32

theorem Readable.safe_rangeInSegment (h : Readable image) (address length : Nat) :
    Safe (rangeInSegment image address length) fun found =>
      found = true ↔ ∃ i, i < image.programCount ∧ InSegment image address length i := by
  apply Safe.anyRange (InSegment image address length)
  intro i hi
  have hin := h.program_bounds hi
  have hsize : elfProgramSize = 32 := rfl
  refine safe_read32 (by omega) (safe_read32 (by omega) (h.safe_programType hi ?_))
  apply Safe.ite
  · intro hskip
    refine Safe.ok (iff_of_false (by simp) fun hseg => ?_)
    rcases hskip with htype | hempty
    · exact htype hseg.1
    · exact hseg.2.1 hempty
  · intro hload
    have htype : programType image i = ptLoad := by
      by_contra hne
      exact hload (.inl hne)
    have hmem : (segmentAt image i).memorySize ≠ 0 := fun h0 => hload (.inr h0)
    split
    · rename_i hnone
      refine Safe.ok (iff_of_false (by simp) fun hseg => ?_)
      have hsum := hseg.2.2.2.2
      simp only [add32, ite_eq_left_iff, reduceCtorEq, imp_false] at hnone
      simp only [segmentAt] at hsum
      omega
    · rename_i end_ hend
      obtain ⟨hend', hfit⟩ := add32_eq_some hend
      apply Safe.ok
      simp only [Bool.and_eq_true, decide_eq_true_eq]
      constructor
      · rintro ⟨⟨hstart, hle⟩, hlen⟩
        refine ⟨htype, hmem, hstart, ?_, hfit⟩
        simp only [segmentAt]
        omega
      · rintro ⟨-, -, hstart, hle, -⟩
        simp only [segmentAt] at hstart hle
        omega

theorem Readable.safe_sectionIsLoaded (h : Readable image) (s : Section) :
    Safe (sectionIsLoaded image s) fun _ => True := by
  apply Safe.ite
  · intro _
    trivial
  · intro _
    exact (h.safe_rangeInSegment s.address s.size).mono fun _ _ => trivial

/-- The byte that a segment puts at an address. -/
def segByte (image : Image) (segment : Segment) (address : Nat) : UInt8 :=
  if address - segment.address < segment.fileSize then
    image.blob.getD (segment.offset + (address - segment.address)) 0
  else 0

theorem safe_segmentByte {segment : Segment} {a : Nat}
    (hin : segment.offset + segment.fileSize ≤ image.blob.length)
    (hblob : image.blob.length < 2 ^ 32) (ha : segment.address ≤ a) (hlt : a < 2 ^ 32) :
    segmentByte image segment a = .ok (segByte image segment a) := by
  unfold segmentByte segByte
  simp only [sub32_of_le ha hlt]
  split
  · rename_i hfile
    rw [wrap32_of_lt (by omega), byteAt_of_lt (by omega)]
  · rfl

theorem Readable.safe_readSegment (h : Readable image) (i : Nat) :
    Safe (readSegment image i) fun r =>
      ∀ s, r = some s ↔ s = segmentAt image i ∧ Loadable image i := by
  apply Safe.ite
  · intro hge s
    refine iff_of_false (by simp) fun hs => ?_
    have := hs.2.lt
    omega
  · intro hlt
    have hi : i < image.programCount := by omega
    apply h.safe_programType hi
    apply Safe.ite
    · intro htype s
      exact iff_of_false (by simp) fun hs => htype hs.2.type
    · intro htype
      have htype' : programType image i = ptLoad := by
        by_contra hne
        exact htype hne
      refine h.safe_segmentFields hi (Safe.ok fun s => ?_)
      by_cases hmem : (segmentAt image i).memorySize ≠ 0
      · rw [if_pos hmem]
        constructor
        · intro hs
          cases hs
          exact ⟨rfl, hi, htype', hmem⟩
        · rintro ⟨rfl, -⟩
          rfl
      · rw [if_neg hmem]
        exact iff_of_false (by simp) fun hs => hmem hs.2.nonempty

end

end UnDOS.Loader
