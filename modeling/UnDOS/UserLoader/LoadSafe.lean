import UnDOS.UserLoader.Placed

/-!
# The user-mode loader: loading is safe

`load_object` touches only pages that it has mapped for the object, and leaves the object in place.

The bounds of the segments keep every sum below `2 ^ 32` (`Fits`).
-/

namespace UnDOS.UserLoader

open UnDOS.Lib UnDOS.Lib.Outcome UnDOS.Lib.Prog

variable {s : State} {sys : System} {index : Nat} {obj : LoadedObject} {p : ProgramHeader}
  {earlier : List ProgramHeader}

theorem orFail_checked {α : Type} {reason : String} {f : State → Outcome Unit α}
    {Q : α → Prop} (h : Safe (f s) Q) : Checked (orFail reason f) s fun a s' => Q a ∧ s' = s := by
  rw [Checked, orFail]
  cases hf : f s with
  | ok a => exact ⟨h.of_ok hf, rfl⟩
  | err e => trivial
  | stuck => exact absurd hf h.ne_stuck

theorem writeBytes_checked {addr : Nat}
    {data : List UInt8} (h : mayWrite sys s index obj addr data.length) :
    Checked (writeBytes sys index obj addr data) s fun _ s' =>
      s' = { s with memory := writeAt s.memory addr data } := by
  rw [Checked, writeBytes, if_pos h]

/-! ## Headers and bounds -/

theorem pushBounded_safe {α : Type} {capacity : Nat} {items : List α} {a : α}
    (h : items.length < capacity) :
    Safe (pushBounded capacity items a) fun items' => items' = items ++ [a] := by
  rw [pushBounded, if_pos h]
  rfl

theorem readAndValidateHeaders_safe (file : List UInt8) (obj : LoadedObject) :
    Safe (readAndValidateHeaders file obj) fun obj' =>
      obj'.programHeaders.length ≤ maxProgramHeaders ∧ obj'.bias = obj.bias ∧ obj'.path = obj.path ∧
        obj'.neededOffsets = obj.neededOffsets ∧ obj'.dependencies = obj.dependencies := by
  have hread : ∀ pos size, Safe (readExact file pos size) fun _ => True := fun pos size => by
    rw [readExact]
    split <;> trivial
  refine (hread _ _).bind fun header _ => Safe.ensure fun _ => Safe.ensure fun _ =>
    Safe.ensure fun hphnum => (hread _ _).bind fun table _ => ?_
  refine Safe.bind (P := fun headers : List ProgramHeader => headers.length = field header 44 2) ?_
    fun headers hlength => ?_
  · refine Safe.forRange (I := fun i (headers : List ProgramHeader) => headers.length = i) rfl
      fun i hi headers hlength => ?_
    refine (pushBounded_safe (by omega)).mono fun headers' heq => ?_
    rw [heq, List.length_append, hlength]
    rfl
  · exact Safe.ok ⟨hlength ▸ hphnum.2.1, rfl, rfl, rfl, rfl⟩

/-- The segments that are loaded, at a bias, stay below `2 ^ 32`. -/
def Fits (bias : Nat) (headers : List ProgramHeader) : Prop :=
  ∀ p ∈ headers, p.loads → p.filesz ≤ p.memsz ∧ p.vaddr + p.memsz + bias + pageSize ≤ 2 ^ 32

/-- What the loop over the headers knows of them. -/
def Bounded (headers : List ProgramHeader) (bounds : Nat × Nat) : Prop :=
  ∀ p ∈ headers, p.loads → p.filesz ≤ p.memsz ∧ p.vaddr + p.memsz + pageSize ≤ 2 ^ 32 ∧
    bounds.1 ≤ p.vaddr ∧ p.vaddr + p.memsz ≤ bounds.2

theorem pageFloor_le (n : Nat) : pageFloor n ≤ n := by
  rw [pageFloor, pageSize]
  omega

theorem extendBounds_safe {bounds : Nat × Nat} : Safe (extendBounds p bounds) fun bounds' =>
      bounds'.1 ≤ bounds.1 ∧ bounds.2 ≤ bounds'.2 ∧ Bounded [p] bounds' := by
  refine Safe.ite (fun _ => Safe.ensure fun hp => Safe.ok ?_) fun hskip => Safe.ok ?_
  · obtain ⟨hfile, hmem, -, -, hpage⟩ := hp
    have hfloor := pageFloor_le p.vaddr
    rw [pageSize] at hpage
    refine ⟨?_, ?_, fun q hq _ => ?_⟩
    · dsimp only
      split <;> omega
    · dsimp only
      split <;> omega
    rw [List.mem_singleton.1 hq]
    refine ⟨hfile, by rw [pageSize]; omega, ?_, ?_⟩
    · split <;> omega
    · dsimp only
      split <;> omega
  · refine ⟨le_rfl, le_rfl, fun q hq hload => ?_⟩
    rw [List.mem_singleton.1 hq] at hload
    exact absurd hload hskip

theorem boundsOf_safe (headers : List ProgramHeader) (bounds : Nat × Nat) :
    Safe (boundsOf headers bounds) fun bounds' =>
      bounds'.1 ≤ bounds.1 ∧ bounds.2 ≤ bounds'.2 ∧ Bounded headers bounds' := by
  induction headers generalizing bounds with
  | nil => exact Safe.ok ⟨le_rfl, le_rfl, by simp [Bounded]⟩
  | cons p rest ih =>
    refine extendBounds_safe.bind fun mid hmid => (ih mid).mono fun last hlast => ?_
    refine ⟨hlast.1.trans hmid.1, hmid.2.1.trans hlast.2.1, fun q hq hload => ?_⟩
    rcases List.mem_cons.1 hq with rfl | hq
    · obtain ⟨hfile, hmem, hlow, hhigh⟩ := hmid.2.2 q (List.mem_singleton_self q) hload
      exact ⟨hfile, hmem, hlast.1.trans hlow, hhigh.trans hlast.2.1⟩
    · exact hlast.2.2 q hq hload

theorem biasOf_safe (hindex : index < maxObjects) (obj : LoadedObject)
    (hbias : obj.bias = 0) {low high : Nat} (hbounded : Bounded obj.programHeaders (low, high)) :
    Safe (biasOf index obj low high) fun bias => Fits bias obj.programHeaders := by
  rw [maxObjects] at hindex
  refine Safe.ite (fun _ => Safe.ensure fun hslot => Safe.ok fun p hp hload => ?_)
    fun _ => Safe.ok fun p hp hload => ?_
  · obtain ⟨hfile, -, hlow, hhigh⟩ := hbounded p hp hload
    simp only [sharedLibBaseWindow, sharedLibSlotSize] at hslot ⊢
    rw [pageSize]
    omega
  · obtain ⟨hfile, hmem, -, -⟩ := hbounded p hp hload
    rw [hbias]
    exact ⟨hfile, hmem⟩

theorem calculateBoundsAndBias_safe (hindex : index < maxObjects) (obj : LoadedObject)
    (hbias : obj.bias = 0) :
    Safe (calculateBoundsAndBias index obj) fun obj' => Fits obj'.bias obj.programHeaders ∧
      obj' = { obj with bias := obj'.bias } := by
  refine (boundsOf_safe _ _).bind fun bounds hbounds => ?_
  refine Safe.ensure fun _ => (biasOf_safe hindex obj hbias hbounds.2.2).bind
    fun bias hfits => ?_
  have hdone : Safe (.ok { obj with bias := bias } : Outcome Unit LoadedObject) fun obj' =>
      Fits obj'.bias obj.programHeaders ∧ obj' = { obj with bias := obj'.bias } :=
    Safe.ok ⟨hfits, rfl⟩
  refine Safe.ite (fun _ => ?_) fun _ => hdone
  exact (resolve_safe _ _).bind fun _ _ => Safe.ensure fun _ => hdone

/-! ## Segments -/

/-- The pages of the segments, of those that are loaded, were mapped for object `index`. -/
def Covered (owner : Nat → Option Nat) (index : Nat) (obj : LoadedObject)
    (headers : List ProgramHeader) : Prop :=
  ∀ p ∈ headers, p.loads → ∀ a, segmentBegin obj p ≤ a → a < segmentEnd obj p →
    owner (a / pageSize) = some index

/-- What mapping leaves as it is. -/
structure Grown (s s' : State) : Prop where
  extends_ : Extends s.owner s'.owner
  objects : s'.objects = s.objects

theorem Grown.refl (s : State) : Grown s s := ⟨.refl _, rfl⟩

theorem Grown.trans {a b c : State} (hab : Grown a b) (hbc : Grown b c) : Grown a c :=
  ⟨hab.extends_.trans hbc.extends_, hbc.objects.trans hab.objects⟩

theorem mapFixedPage_checked (sys : System) (index page : Nat) (s : State) :
    Checked (mapFixedPage sys index page) s fun _ s' =>
      Grown s s' ∧ s'.owner (page / pageSize) = some index := by
  rw [Checked, mapFixedPage]
  by_cases hrefused : (s.owner (page / pageSize)).isSome || sys.refuses (page / pageSize)
  · rw [if_pos hrefused]
    trivial
  · rw [if_neg hrefused]
    have hfree := hrefused
    simp only [Bool.or_eq_true, not_or, Option.not_isSome_iff_eq_none] at hfree
    refine ⟨⟨fun q i hq => ?_, rfl⟩, by simp⟩
    -- The page had no owner, so that no other page loses its own.
    have hne : q ≠ page / pageSize := fun heq => by
      rw [heq, hfree.1] at hq
      cases hq
    exact (Function.update_of_ne hne _ _).trans hq

theorem mapPage_checked {page : Nat} (hcovered : Covered s.owner index obj earlier) :
    Checked (mapPage sys index obj earlier page) s fun _ s' =>
      Grown s s' ∧ s'.owner (page / pageSize) = some index := by
  refine Checked.ite (fun halready => Checked.pure ⟨.refl s, ?_⟩) fun _ => Checked.get_bind ?_
  · rw [alreadyMapped, List.any_eq_true] at halready
    obtain ⟨prev, hprev, hin⟩ := halready
    simp only [Bool.and_eq_true, decide_eq_true_eq] at hin
    exact hcovered prev hprev hin.1 page hin.2.1 hin.2.2
  · refine Checked.ite (fun _ => Checked.throw) fun _ => ?_
    exact (mapFixedPage_checked sys index page s).bind fun _ s' h =>
      Checked.modify ⟨⟨h.1.extends_, h.1.objects⟩, h.2⟩

theorem Covered.extends {owner owner' : Nat → Option Nat}
    {headers : List ProgramHeader} (h : Covered owner index obj headers)
    (hext : Extends owner owner') : Covered owner' index obj headers :=
  fun p hp hload a hlow hhigh => hext _ _ (h p hp hload a hlow hhigh)

theorem mapPages_checked {first count : Nat}
    (hcovered : Covered s.owner index obj earlier) (hfirst : first % pageSize = 0) :
    Checked (forRange count fun n => mapPage sys index obj earlier (first + n * pageSize)) s
      fun _ s' => Grown s s' ∧
        ∀ a, first ≤ a → a < first + count * pageSize → s'.owner (a / pageSize) = some index := by
  refine Checked.forRange (I := fun n t => Grown s t ∧
    ∀ a, first ≤ a → a < first + n * pageSize → t.owner (a / pageSize) = some index) ?_ ?_
  · exact ⟨.refl s, fun a hlow hhigh => by omega⟩
  · intro n _ t ht
    refine (mapPage_checked (hcovered.extends ht.1.extends_)).mono fun _ t' ht' => ?_
    refine ⟨ht.1.trans ht'.1, fun a hlow hhigh => ?_⟩
    rw [pageSize] at *
    by_cases hold : a < first + n * 4096
    · exact ht'.1.extends_ _ _ (ht.2 a hlow hold)
    · have hpage : a / 4096 = (first + n * 4096) / 4096 := by omega
      rw [hpage]
      exact ht'.2

theorem loadSegmentData_checked (hp : p ∈ obj.programHeaders) (hload : p.type = ptLoad)
    (hok : SegmentOk sys s.owner index obj.bias p) (hfile : p.filesz ≤ p.memsz)
    (hwrap : wrap32 (p.vaddr + obj.bias) = p.vaddr + obj.bias) :
    Checked (loadSegmentData sys index obj p) s fun _ s' =>
      s'.owner = s.owner ∧ s'.objects = s.objects := by
  refine Checked.ite (fun _ => ?_) fun _ => Checked.pure ⟨rfl, rfl⟩
  split
  · exact Checked.throw
  · next file _ =>
    have hdata : ((file.drop p.offset).take p.filesz).length ≤ p.filesz := List.length_take_le _ _
    refine (writeBytes_checked ?_).bind fun _ s' hs' => ?_
    · rw [hwrap]
      exact hok.mayWrite hp hload le_rfl (by omega)
    · refine Checked.ite (fun _ => Checked.throw) fun _ => Checked.pure ?_
      rw [hs']
      exact ⟨rfl, rfl⟩

theorem segment_bounds (hfits : p.vaddr + p.memsz + obj.bias + pageSize ≤ 2 ^ 32) :
    wrap32 (p.vaddr + obj.bias) = p.vaddr + obj.bias ∧ segmentBegin obj p ≤ p.vaddr + obj.bias ∧
      p.vaddr + p.memsz + obj.bias ≤ segmentEnd obj p ∧
      segmentBegin obj p % pageSize = 0 ∧ segmentEnd obj p % pageSize = 0 := by
  simp only [segmentBegin, segmentEnd, pageFloor, wrap32, pageSize] at *
  omega

theorem segmentOk_of_mapped {owner : Nat → Option Nat}
    (hfits : p.vaddr + p.memsz + obj.bias + pageSize ≤ 2 ^ 32)
    (hplace : ¬ (segmentBegin obj p < userSpaceMinAddr ∨
      (segmentBegin obj p < sys.loaderEnd ∧ sys.loaderBegin < segmentEnd obj p) ∨
      userSpaceMaxAddr < segmentEnd obj p))
    (hmapped : ∀ a, segmentBegin obj p ≤ a → a < segmentEnd obj p →
      owner (a / pageSize) = some index) : SegmentOk sys owner index obj.bias p := by
  obtain ⟨-, hbegin, hend, -, -⟩ := segment_bounds hfits
  simp only [not_or, not_and] at hplace
  obtain ⟨hmin, hloader, hmax⟩ := hplace
  refine ⟨by omega, by omega, ?_, fun a hlow hhigh => hmapped a (by omega) (by omega)⟩
  by_cases hbefore : segmentBegin obj p < sys.loaderEnd
  · omega
  · omega

theorem mapAndLoadSegment_checked
    (hfits : Fits obj.bias obj.programHeaders) (hp : p ∈ obj.programHeaders)
    (hcovered : Covered s.owner index obj earlier) :
    Checked (mapAndLoadSegment sys index obj earlier p) s fun _ s' => Grown s s' ∧
      Covered s'.owner index obj (earlier ++ [p]) ∧
      (p.loads → SegmentOk sys s'.owner index obj.bias p) := by
  refine Checked.ite (fun hloads => ?_) fun hskip => Checked.pure ?_
  · obtain ⟨hfile, hspace⟩ := hfits p hp hloads
    obtain ⟨hwrap, hbegin, hend, hfirst, hlast⟩ := segment_bounds hspace
    have hload : p.type = ptLoad := by
      simp only [ProgramHeader.loads, Bool.and_eq_true, beq_iff_eq] at hloads
      exact hloads.1
    refine Checked.ite (fun _ => Checked.throw) fun hplace => ?_
    refine (mapPages_checked hcovered hfirst).bind fun _ s₁ h₁ => ?_
    -- The loop has reached the end of the segment.
    have hmapped : ∀ a, segmentBegin obj p ≤ a → a < segmentEnd obj p →
        s₁.owner (a / pageSize) = some index := fun a hlow hhigh => by
      apply h₁.2 a hlow
      rw [pageSize] at *
      omega
    have hok := segmentOk_of_mapped hspace hplace hmapped
    refine (loadSegmentData_checked hp hload hok hfile hwrap).bind fun _ s₂ h₂ => ?_
    have hok₂ : SegmentOk sys s₂.owner index obj.bias p := h₂.1.symm ▸ hok
    refine (writeBytes_checked ?_).mono fun _ s₃ h₃ => ?_
    · have hwrap' : wrap32 (p.vaddr + obj.bias + p.filesz) = p.vaddr + obj.bias + p.filesz := by
        rw [wrap32]
        rw [pageSize] at hspace
        omega
      rw [List.length_replicate]
      exact hok₂.mayWrite hp hload (by omega) (by omega)
    · have howner : s₃.owner = s₁.owner := by
        rw [h₃]
        exact h₂.1
      have hobjects : s₃.objects = s₁.objects := by
        rw [h₃]
        exact h₂.2
      rw [howner]
      refine ⟨⟨howner ▸ h₁.1.extends_, hobjects.trans h₁.1.objects⟩, fun q hq => ?_, fun _ => hok⟩
      rcases List.mem_append.1 hq with hold | hnew
      · exact (hcovered.extends h₁.1.extends_) q hold
      · rw [List.mem_singleton.1 hnew]
        exact fun _ => hmapped
  · refine ⟨.refl s, fun q hq => ?_, fun hloads => absurd hloads hskip⟩
    rcases List.mem_append.1 hq with hold | hnew
    · exact hcovered q hold
    · rw [List.mem_singleton.1 hnew]
      exact fun hloads => absurd hloads hskip

theorem mapAndLoadSegments_checked
    {rest : List ProgramHeader} (hfits : Fits obj.bias obj.programHeaders)
    (hrest : ∀ p ∈ rest, p ∈ obj.programHeaders) (hcovered : Covered s.owner index obj earlier) :
    Checked (mapAndLoadSegments sys index obj earlier rest) s fun _ s' => Grown s s' ∧
      ∀ p ∈ rest, p.loads → SegmentOk sys s'.owner index obj.bias p := by
  induction rest generalizing earlier s with
  | nil => exact Checked.pure ⟨.refl s, by simp⟩
  | cons p rest ih =>
    obtain ⟨hp, hrest⟩ := List.forall_mem_cons.1 hrest
    refine (mapAndLoadSegment_checked hfits hp hcovered).bind fun _ s₁ h₁ => ?_
    refine (ih hrest h₁.2.1).mono fun _ s₂ h₂ => ⟨h₁.1.trans h₂.1, ?_⟩
    rw [List.forall_mem_cons]
    exact ⟨fun hloads => (h₁.2.2 hloads).extends h₂.1.extends_, h₂.2⟩

/-! ## The ABI note -/

section Notes

variable {s : State} {index : Nat} {obj : LoadedObject}

/-- Bytes that may be read, piece by piece. -/
def Readable (s : State) (index : Nat) (obj : LoadedObject) (addr size : Nat) : Prop :=
  ∀ off len, off + len ≤ size → mayRead s index obj (addr + off) len

theorem Readable.drop {addr size : Nat} (h : Readable s index obj addr size) {skip rest : Nat}
    (hrest : skip + rest ≤ size) : Readable s index obj (addr + skip) rest := by
  intro off len hlen
  rw [add_assoc]
  exact h (skip + off) len (by omega)

theorem Readable.word {addr size : Nat} (h : Readable s index obj addr size) {off : Nat}
    (hoff : off + 4 ≤ size) : Safe (readWord s index obj (addr + off)) fun _ => True :=
  readWord_safe (h off 4 hoff)

theorem checkAbiNote_safe {addr size type descriptorSize nameSpan found : Nat}
    (h : Readable s index obj addr size) (hname : 6 ≤ size)
    (hspan : descriptorSize = 8 → nameSpan + 8 ≤ size) :
    Safe (checkAbiNote s index obj addr type descriptorSize nameSpan found) fun _ => True := by
  refine (readBytes_safe (h 0 6 (by omega))).bind fun name _ => ?_
  refine Safe.ite (fun _ => Safe.ensure fun hshape => ?_) fun _ => Safe.ok trivial
  have hroom := hspan hshape.2
  refine (h.word (by omega)).bind fun version _ => Safe.ensure fun _ => ?_
  have hreserved : Safe (readWord s index obj (addr + nameSpan + 4)) fun _ => True := by
    exact h.word (by omega)
  exact hreserved.bind fun _ _ => Safe.ensure fun _ => Safe.ok trivial

theorem scanNotes_safe {fuel addr size found : Nat} (h : Readable s index obj addr size)
    (hfuel : size ≤ fuel) : Safe (scanNotes s index obj fuel addr size found) fun _ => True := by
  induction fuel generalizing addr size found with
  | zero =>
    obtain rfl : size = 0 := by omega
    trivial
  | succ fuel ih =>
    refine Safe.ite (fun _ => Safe.ok trivial) fun _ => Safe.ensure fun htwelve => ?_
    refine (readWord_safe (h 0 4 (by omega))).bind fun nameSize _ => ?_
    refine (h.word (by omega)).bind fun descriptorSize _ => (h.word (by omega)).bind
      fun type _ => ?_
    refine Safe.ensure fun hnameSize => Safe.ensure fun hspan => Safe.ensure fun hdescriptor => ?_
    have hbody : Readable s index obj (addr + 12) (size - 12) := h.drop (by omega)
    have hrest : Readable s index obj (addr + 12 + (wordSpan nameSize + wordSpan descriptorSize))
        (size - 12 - (wordSpan nameSize + wordSpan descriptorSize)) := hbody.drop (by omega)
    refine Safe.ite (fun hsix => ?_) fun _ => ih hrest (by omega)
    refine (checkAbiNote_safe hbody (by omega) (fun height => ?_)).bind fun found' _ =>
      ih hrest (by omega)
    omega

end Notes

theorem Placed.readable (h : Placed sys s.owner index obj) {vaddr size : Nat}
    (hvalid : isValidVirtualRange obj vaddr size) : Readable s index obj (vaddr + obj.bias) size :=
  fun _ _ hlen => h.mayRead hvalid hlen

theorem checkNotes_checked
    (h : Placed sys s.owner index obj) (headers : List ProgramHeader) (notes : Nat) :
    Checked (checkNotes index obj headers notes) s fun _ s' => s' = s := by
  induction headers generalizing notes with
  | nil => exact Checked.pure rfl
  | cons p rest ih =>
    refine Checked.ite (fun _ => Checked.throw) fun _ => Checked.ite (fun _ => Checked.throw)
      fun _ => Checked.ite (fun _ => ?_) fun _ => ih notes
    refine (orFail_checked (Q := fun _ => True) ?_).bind fun notes' s' hs' => hs'.2 ▸ ih notes'
    refine (resolve_safe _ _).bind fun host hhost => ?_
    obtain ⟨rfl, hvalid⟩ := hhost
    exact scanNotes_safe (h.readable hvalid) le_rfl

/-! ## The dynamic segment -/

/-- What parsing leaves as it is. -/
structure SameImage (obj obj' : LoadedObject) : Prop where
  headers : obj'.programHeaders = obj.programHeaders
  bias : obj'.bias = obj.bias
  path : obj'.path = obj.path
  type : obj'.type = obj.type
  dependencies : obj'.dependencies = obj.dependencies

theorem SameImage.refl (obj : LoadedObject) : SameImage obj obj := ⟨rfl, rfl, rfl, rfl, rfl⟩

theorem SameImage.trans {a b c : LoadedObject} (hab : SameImage a b) (hbc : SameImage b c) :
    SameImage a c :=
  ⟨hbc.headers.trans hab.headers, hbc.bias.trans hab.bias, hbc.path.trans hab.path,
    hbc.type.trans hab.type, hbc.dependencies.trans hab.dependencies⟩

/-- The object after an entry of the dynamic segment: the same image, with room for what is
needed. -/
def Parsed (obj obj' : LoadedObject) : Prop :=
  SameImage obj obj' ∧ obj'.neededOffsets.length ≤ maxDependencies

section Dynamic

variable {sys : System} {s : State} {index : Nat}
variable {obj : LoadedObject}

theorem recordDynamic_safe (h : Placed sys s.owner index obj)
    (hneeded : obj.neededOffsets.length ≤ maxDependencies) (tag value : Nat) :
    Safe (recordDynamic s index obj tag value) (Parsed obj) := by
  unfold recordDynamic
  split
  case h_1 =>
    refine Safe.ensure fun hroom => (pushBounded_safe hroom).bind fun offsets hoffsets => Safe.ok ?_
    refine ⟨⟨rfl, rfl, rfl, rfl, rfl⟩, ?_⟩
    rw [hoffsets, List.length_append]
    exact hroom
  case h_3 =>
    refine (resolve_safe _ _).bind fun host hhost => ?_
    obtain ⟨rfl, hvalid⟩ := hhost
    refine ((h.readable hvalid).word (by omega)).bind fun count _ => Safe.ok ?_
    exact ⟨⟨rfl, rfl, rfl, rfl, rfl⟩, hneeded⟩
  -- The tags that must be zero change nothing; all others set a field.
  all_goals first
    | exact Safe.ensure fun _ => Safe.ok ⟨.refl obj, hneeded⟩
    | exact Safe.ok ⟨⟨rfl, rfl, rfl, rfl, rfl⟩, hneeded⟩

theorem Readable.congr {obj' : LoadedObject} {addr size : Nat}
    (h : Readable s index obj addr size) (hsame : SameImage obj obj') :
    Readable s index obj' addr size := by
  intro off len hlen
  have hread := h off len hlen
  rw [mayRead, LoadedObject.holds] at hread ⊢
  rw [hsame.headers, hsame.bias]
  exact hread

theorem parseEntries_safe {count addr : Nat}
    (h : Placed sys s.owner index obj) (hneeded : obj.neededOffsets.length ≤ maxDependencies)
    (hread : Readable s index obj addr (count * dynamicSize)) :
    Safe (parseEntries s index count addr obj) (Parsed obj) := by
  induction count generalizing addr obj with
  | zero => exact Safe.err
  | succ count ih =>
    rw [dynamicSize] at *
    refine (readWord_safe (hread 0 4 (by omega))).bind fun tag _ => ?_
    refine Safe.ite (fun _ => Safe.ok ⟨.refl obj, hneeded⟩) fun _ => ?_
    refine (hread.word (by omega)).bind fun value _ => ?_
    refine (recordDynamic_safe h hneeded tag value).bind fun obj' hobj' => ?_
    have hrest : Readable s index obj (addr + 8) (count * 8) := hread.drop (by omega)
    apply (ih (h.congr hobj'.1.headers hobj'.1.bias) hobj'.2 (hrest.congr hobj'.1)).mono
    exact fun obj'' hobj'' => ⟨hobj'.1.trans hobj''.1, hobj''.2⟩

theorem parseDynamicSegment_safe {headers : List ProgramHeader}
    (h : Placed sys s.owner index obj) (hneeded : obj.neededOffsets.length ≤ maxDependencies) :
    Safe (parseDynamicSegment s index headers obj) (Parsed obj) := by
  induction headers generalizing obj with
  | nil => exact Safe.ok ⟨.refl obj, hneeded⟩
  | cons p rest ih =>
    refine Safe.ite (fun _ => Safe.ensure fun hsize => ?_) fun _ => ih h hneeded
    refine (resolve_safe _ _).bind fun host hhost => ?_
    obtain ⟨rfl, hvalid⟩ := hhost
    have hread : Readable s index obj (p.vaddr + obj.bias) (p.memsz / dynamicSize *
        dynamicSize) := by
      intro off len hlen
      have hdiv := Nat.div_mul_le_self p.memsz dynamicSize
      exact h.readable hvalid off len (by omega)
    refine (parseEntries_safe h hneeded hread).bind fun obj' hobj' => ?_
    apply (ih (h.congr hobj'.1.headers hobj'.1.bias) hobj'.2).mono
    exact fun obj'' hobj'' => ⟨hobj'.1.trans hobj''.1, hobj''.2⟩

theorem checkTableBounds_safe (obj : LoadedObject) :
    Safe (checkTableBounds obj) fun _ => obj.symbolCount ≤ maxImageSize / symbolSize := by
  refine Safe.ite (fun _ => Safe.ensure fun hcount => ?_) fun hnone => Safe.ok ?_
  · refine (resolveTable_safe _ _ _).bind fun _ _ => Safe.ensure fun _ => ?_
    exact (resolve_safe _ _).bind fun _ _ => Safe.ok hcount.2.2
  · have hzero : obj.symbolCount = 0 := by
      by_contra hsome
      exact hnone (.inl (pos_of_ne_zero hsome))
    rw [hzero]
    exact Nat.zero_le _

theorem validateSymbolTables_checked (h : Placed sys s.owner index obj) :
    Checked (validateSymbolTables index obj) s fun _ s' =>
      s' = s ∧ obj.symbolCount ≤ maxImageSize / symbolSize := by
  refine (orFail_checked (checkTableBounds_safe obj)).bind fun _ s₁ h₁ => ?_
  obtain ⟨hcount, rfl⟩ := h₁
  refine (Checked.forRange (I := fun _ t => t = s₁) rfl fun i _ t ht => ?_).mono
    fun _ t ht => ⟨ht, hcount⟩
  subst ht
  refine (orFail_checked (getSymbolAt_safe h i)).bind fun symbol t' ht' => ?_
  exact Checked.ite (fun _ => Checked.throw) fun _ => Checked.pure ht'.2

end Dynamic

/-! ## A whole object -/

/-- An object that was loaded as object `index`. -/
structure LoadedOk (sys : System) (owner : Nat → Option Nat) (index : Nat) (obj : LoadedObject) :
    Prop where
  placed : Placed sys owner index obj
  headers : obj.programHeaders.length ≤ maxProgramHeaders
  needed : obj.neededOffsets.length ≤ maxDependencies
  symbols : obj.symbolCount ≤ maxImageSize / symbolSize

theorem LoadedOk.extends {owner owner' : Nat → Option Nat}
    (h : LoadedOk sys owner index obj) (hext : Extends owner owner') :
    LoadedOk sys owner' index obj :=
  ⟨h.placed.extends hext, h.headers, h.needed, h.symbols⟩

/-- Every access of a load is inside the file, the tables or the new segments. -/
theorem loadObject_checked (sys : System) (hindex : index < maxObjects)
    (path : List UInt8) (s : State) : Checked (loadObject sys index path) s fun obj s' =>
      Grown s s' ∧ LoadedOk sys s'.owner index obj ∧ obj.path = path ∧ obj.dependencies = [] := by
  rw [loadObject]
  split
  · exact Checked.throw
  · next file _ =>
    refine (orFail_checked (readAndValidateHeaders_safe file _)).bind fun obj s₁ h₁ => ?_
    obtain ⟨⟨hheaders, hbias, hpath, hneeded, hdeps⟩, rfl⟩ := h₁
    refine (orFail_checked (calculateBoundsAndBias_safe hindex obj hbias)).bind fun obj' s₂ h₂ => ?_
    obtain ⟨⟨hfits, hobj'⟩, rfl⟩ := h₂
    have hsame : obj'.programHeaders = obj.programHeaders := by rw [hobj']
    refine (mapAndLoadSegments_checked (hsame ▸ hfits) (fun p hp => hp)
      (by simp [Covered])).bind fun _ s₃ h₃ => ?_
    have hplaced : Placed sys s₃.owner index obj' := fun p hp hload hsize =>
      h₃.2 p hp (by simp [ProgramHeader.loads, hload, hsize])
    refine (checkNotes_checked hplaced _ _).bind fun notes s₄ h₄ => ?_
    subst h₄
    refine Checked.ite (fun _ => ?_) fun _ => Checked.throw
    have hneeded' : obj'.neededOffsets.length ≤ maxDependencies := by
      rw [hobj']
      simp [hneeded]
    refine (orFail_checked (parseDynamicSegment_safe hplaced hneeded')).bind fun obj'' s₅ h₅ => ?_
    obtain ⟨⟨himage, hroom⟩, rfl⟩ := h₅
    have hplaced'' := hplaced.congr himage.headers himage.bias
    refine (validateSymbolTables_checked hplaced'').bind fun _ s₆ h₆ => ?_
    obtain ⟨rfl, hsymbols⟩ := h₆
    refine Checked.pure ⟨h₃.1, ⟨hplaced'', ?_, hroom, hsymbols⟩, ?_, ?_⟩
    · rw [himage.headers, hsame]
      exact hheaders
    · rw [himage.path, hobj']
      exact hpath
    · rw [himage.dependencies, hobj']
      exact hdeps

end UnDOS.UserLoader
