import Mathlib.Data.Int.ModEq
import UnDOS.Loader.Accepted

/-!
# Direct Loader: What One Relocation Computes

The i386 psABI gives each relocation type a formula over the address of the
symbol, the addend, the place, the GOT and the base.  `psabi` is that table.  An
accepted image was linked once already: the word in the file is the formula at
link-time addresses.  `relocationPatch` never sees the addend; it adds deltas to
the linked word.
-/

namespace UnDOS.Loader

open UnDOS.Lib UnDOS.Lib.Outcome

/-! ## Addresses -/

/-- The addresses a relocation formula is evaluated at. -/
structure Place where
  symbol : Int
  place : Int
  got : Int
  base : Int

/-- The psABI formulas of the types that patch their own site, before reduction
    modulo `2 ^ 32`. -/
def psabi (type : Nat) (addend : Int) (at_ : Place) : Int :=
  if type = r386Abs32 then at_.symbol + addend
  else if type = r386Pc32 ∨ type = r386Plt32 then at_.symbol + addend - at_.place
  else if type = r386Gotoff then at_.symbol + addend - at_.got
  else at_.base + addend

/-- The relocation types that patch their own site. -/
def patchesSite (type : Nat) : Prop :=
  type = r386Abs32 ∨ type = r386Pc32 ∨ type = r386Plt32 ∨ type = r386Gotoff ∨ type = r386Relative

/-- The relocation types that fill a GOT slot. -/
def fillsGot (type : Nat) : Prop := type = r386Got32 ∨ type = r386Got32x

/-- The export with the given name. -/
def lookupExport (exports : List Export) (name : CString) : Option Nat :=
  (exports.find? fun e => chars e.name == chars name).map (·.address)

/-- The address of symbol `index` in the linked file; an undefined symbol is at 0. -/
def linkAddress (image : Image) (index : Nat) : Nat :=
  if (symbolAt image index).section_ = shnUndef then 0 else (symbolAt image index).value

/-- The run-time address of symbol `index`: absolute symbols stay, symbols of the
    image move with it, undefined symbols are where `resolve` finds their name.
    Entry 0 of the table is no symbol and stands for 0. -/
def runtimeAddress (image : Image) (resolve : CString → Option Nat) (index : Nat) : Option Nat :=
  let symbol := symbolAt image index
  if symbol.section_ = shnAbs then some symbol.value
  else if symbol.section_ ≠ shnUndef then some (symbol.value + image.bias)
  else if index = 0 then some 0
  else resolve (symbolString image index)

/-- The link-time view of a relocation. -/
def linkPlace (image : Image) (rel : Relocation) (got : Int) : Place where
  symbol := linkAddress image rel.symbolIndex
  place := rel.offset
  got := got
  base := image.linkedBase

/-- The run-time view: the symbol at `symbol`, everything else moved by the bias. -/
def runtimePlace (image : Image) (rel : Relocation) (got : Int) (symbol : Nat) : Place where
  symbol := symbol
  place := rel.offset + image.bias
  got := got + image.bias
  base := image.linkedBase + image.bias

/-! ## Exports -/

/-- An export with a proper name and a 32-bit address. -/
structure Export.Ok (e : Export) : Prop where
  terminated : (0 : UInt8) ∈ e.name
  address_lt : e.address < 2 ^ 32

def ExportsOk (exports : List Export) : Prop := ∀ e ∈ exports, e.Ok

theorem ExportsOk.lookup_lt {exports : List Export} {name : CString} {address : Nat}
    (h : ExportsOk exports) (hfound : lookupExport exports name = some address) :
    address < 2 ^ 32 := by
  obtain ⟨e, he, rfl⟩ := Option.map_eq_some_iff.mp hfound
  exact (h e (List.mem_of_find?_eq_some he)).address_lt

theorem safe_exportByName {exports : List Export} {name : CString} (h : ExportsOk exports)
    (hname : (0 : UInt8) ∈ name) :
    Safe (exportByName exports name) fun r => r = lookupExport exports name := by
  induction exports with
  | nil => rfl
  | cons e rest ih =>
    refine (safe_stringEqual (h e (by simp)).terminated hname).bind fun same hsame => ?_
    have hrest := ih fun e' he' => h e' (by simp [he'])
    apply Safe.ite
    · intro heq
      apply Safe.ok
      simp [lookupExport, hsame.mp heq]
    · intro hne
      refine hrest.mono fun r hr => ?_
      have hdiff : ¬chars e.name = chars name := fun hc => hne (hsame.mpr hc)
      simpa [lookupExport, hdiff] using hr

/-! ## Offsets -/

theorem loadedWordOffset_spec {image : Image} {address offset : Nat}
    (h : loadedWordOffset image address = some offset) :
    address + image.bias = image.runtimeBase + offset ∧ offset + 4 ≤ image.span
      ∧ address < 2 ^ 32 := by
  unfold loadedWordOffset at h
  cases hadd : add32 address image.bias with
  | none => simp [hadd] at h
  | some runtime =>
    obtain ⟨rfl, hlt⟩ := add32_eq_some hadd
    simp only [hadd] at h
    split at h
    · cases h
    · cases h
      omega

theorem gotSite_spec {image : Image} {operand site : Nat} (h : gotSite image operand = some site)
    (hoperand : operand < 2 ^ 32) (hsite : site < 2 ^ 32) :
    site = wrap32 (image.gotLinkedBase + operand) := by
  unfold gotSite at h
  split at h
  · simp only at h
    split at h
    · cases h
    · cases h
      unfold wrap32
      omega
  · obtain ⟨rfl, hlt⟩ := add32_eq_some h
    exact (wrap32_of_lt hlt).symm

theorem Readable.safe_sectionContains {image : Image} (h : Readable image) (i address n : Nat) :
    Safe (sectionContains image i address n) fun _ => True := by
  apply Safe.ite
  · intro _
    trivial
  · intro hlt
    exact h.safe_sectionAt (by omega) fun s _ => trivial

/-! ## The symbol of a relocation -/

/-- The delta takes the link-time address of the symbol to its run-time address. -/
structure DeltaSpec (image : Image) (exports : List Export) (rel : Relocation)
    (d : SymbolDelta) : Prop where
  moves : rel.type ≠ r386Relative →
    ∃ symbol, runtimeAddress image (lookupExport exports) rel.symbolIndex = some symbol
    ∧ symbol = linkAddress image rel.symbolIndex + d.delta
  relative : rel.type = r386Relative → rel.symbolIndex = 0
  defined : d.sameImageDefined = true → (symbolAt image rel.symbolIndex).section_ ≠ shnAbs
    ∧ (symbolAt image rel.symbolIndex).section_ ≠ shnUndef

section

variable {image : Image} {exports : ExportTable} {rel : Relocation} {name : CString}

theorem HasSymbols.safe_symbolDelta (h : HasSymbols image) (hok : ExportsOk exports.exports)
    (hzero : (0 : UInt8) ∈ name) (hname : name = symbolString image rel.symbolIndex) :
    Safe (symbolDelta image exports rel (symbolAt image rel.symbolIndex) name)
      (DeltaSpec image exports.exports rel) := by
  refine Safe.ite (fun hrelative => ?_) fun hrelative => ?_
  · refine Safe.ensure fun hindex => Safe.ok ⟨absurd hrelative, fun _ => hindex, ?_⟩
    intro hfalse
    cases hfalse
  refine Safe.ite (fun habs => ?_) fun habs => ?_
  · -- An absolute symbol does not move.
    refine Safe.ok ⟨fun _ => ⟨_, if_pos habs, ?_⟩, fun hr => absurd hr hrelative, by simp⟩
    have hdef : (symbolAt image rel.symbolIndex).section_ ≠ shnUndef := by
      rw [habs]
      decide
    simp [linkAddress, hdef]
  refine Safe.ite (fun hdef => ?_) fun hundef => ?_
  · -- A symbol of this image moves by the bias.
    refine Safe.ensure fun hindex => h.safe_sectionAt hindex fun s _ => ?_
    refine Safe.ensure fun _ => Safe.ensure fun _ => Safe.ok ?_
    refine ⟨fun _ => ⟨_, ?_, rfl⟩, fun hr => absurd hr hrelative, fun _ => ⟨habs, hdef⟩⟩
    simp [runtimeAddress, linkAddress, habs, hdef]
  have hundef' : (symbolAt image rel.symbolIndex).section_ = shnUndef := by
    by_contra hne
    exact hundef hne
  refine Safe.ite (fun hindex => ?_) fun hindex => ?_
  · -- An undefined symbol moves from 0 to its export.
    refine (safe_exportByName hok hzero).bind fun resolved hresolved => ?_
    refine Safe.orElse fun address hsome => Safe.ok ?_
    refine ⟨fun _ => ⟨address, ?_, by simp [linkAddress, hundef']⟩,
      fun hr => absurd hr hrelative, by simp⟩
    simp only [runtimeAddress, hundef', if_neg hindex, ← hname, ← hresolved, hsome]
    rfl
  · have hzeroIndex : rel.symbolIndex = 0 := by
      by_contra hne
      exact hindex hne
    refine Safe.ok ⟨fun _ => ⟨0, ?_, ?_⟩, fun hr => absurd hr hrelative, by simp⟩
    · rw [hzeroIndex] at hundef' ⊢
      simp only [runtimeAddress, hundef']
      rfl
    · simp [linkAddress, hundef']

theorem safe_gotValue (hok : ExportsOk exports.exports)
    (hzero : (0 : UInt8) ∈ name) (hname : name = symbolString image rel.symbolIndex)
    {sameImageDefined : Bool}
    (hdefined : sameImageDefined = true → (symbolAt image rel.symbolIndex).section_ ≠ shnAbs
      ∧ (symbolAt image rel.symbolIndex).section_ ≠ shnUndef) (hindex : rel.symbolIndex ≠ 0) :
    Safe (gotValue image exports (symbolAt image rel.symbolIndex) name sameImageDefined) fun v =>
      runtimeAddress image (lookupExport exports.exports) rel.symbolIndex = some v ∧
        v < 2 ^ 32 := by
  refine Safe.ite (fun habs => ?_) fun habs => ?_
  · exact Safe.ok ⟨if_pos habs, blobWord_lt_word _ _⟩
  refine Safe.ite (fun hsame => ?_) fun _ => ?_
  · obtain ⟨-, hdef⟩ := hdefined hsame
    cases hadd : add32 (symbolAt image rel.symbolIndex).value image.bias with
    | none => trivial
    | some v =>
      obtain ⟨rfl, hlt⟩ := add32_eq_some hadd
      refine Safe.ok ⟨?_, hlt⟩
      simp [runtimeAddress, habs, hdef]
  refine Safe.ite (fun hundef => ?_) fun _ => trivial
  refine (safe_exportByName hok hzero).bind fun resolved hresolved => ?_
  cases resolved with
  | none => trivial
  | some v =>
    refine Safe.ok ⟨?_, hok.lookup_lt hresolved.symm⟩
    simp only [runtimeAddress, hundef, if_neg hindex, ← hname, ← hresolved]
    rfl

/-! ## The word that is written -/

/-- The patch of a relocation that rewrites its own site. -/
structure SitePatch (image : Image) (exports : List Export) (destination : ByteStore)
    (rel : Relocation) (patch : Patch) : Prop where
  offset : rel.offset + image.bias = image.runtimeBase + patch.offset
  value : ∃ symbol, runtimeAddress image (lookupExport exports) rel.symbolIndex = some symbol
    ∧ ∀ addend got, (wordAt destination patch.offset 4 : Int)
        ≡ psabi rel.type addend (linkPlace image rel got) [ZMOD 2 ^ 32] →
      (patch.value : Int) ≡ psabi rel.type addend (runtimePlace image rel got symbol) [ZMOD 2 ^ 32]

/-- The patch of a relocation that fills the GOT slot its operand selects. -/
structure GotPatch (image : Image) (exports : List Export) (destination : ByteStore)
    (rel : Relocation) (patch : Patch) : Prop where
  slot : ∃ operand, rel.offset + image.bias = image.runtimeBase + operand
    ∧ operand + 4 ≤ image.span
    ∧ wrap32 (image.gotLinkedBase + wordAt destination operand 4) + image.bias
      = image.runtimeBase + patch.offset
  value : runtimeAddress image (lookupExport exports) rel.symbolIndex = some patch.value

/-- What `relocationPatch` may return. -/
structure PatchSpec (image : Image) (exports : List Export) (destination : ByteStore)
    (rel : Relocation) (patch : Option Patch) : Prop where
  fits : ∀ p, patch = some p → p.address = image.runtimeBase + p.offset
    ∧ p.offset + 4 ≤ image.span ∧ p.value < 2 ^ 32
  site : patchesSite rel.type → ∃ p, patch = some p ∧ SitePatch image exports destination rel p
  got : fillsGot rel.type → ∃ p, patch = some p ∧ GotPatch image exports destination rel p

theorem not_fillsGot_of_patchesSite {type : Nat} (h : patchesSite type) : ¬fillsGot type := by
  rcases h with h | h | h | h | h <;> subst h <;> rintro (h' | h') <;> revert h' <;> decide

theorem PatchSpec.ofSite {destination : ByteStore} {p : Patch} (hsite : patchesSite rel.type)
    (haddress : p.address = rel.offset + image.bias)
    (hfits : p.offset + 4 ≤ image.span) (hlt : p.value < 2 ^ 32)
    (hpatch : SitePatch image exports.exports destination rel p) :
    PatchSpec image exports.exports destination rel (some p) := by
  refine ⟨?_, fun _ => ⟨p, rfl, hpatch⟩,
    fun hgot => absurd hgot (not_fillsGot_of_patchesSite hsite)⟩
  rintro _ ⟨⟩
  exact ⟨haddress.trans hpatch.offset, hfits, hlt⟩

theorem PatchSpec.ofNone {destination : ByteStore} (hsite : ¬patchesSite rel.type)
    (hgot : ¬fillsGot rel.type) : PatchSpec image exports.exports destination rel none :=
  ⟨by simp, fun h => absurd h hsite, fun h => absurd h hgot⟩

theorem psabi_moves {word delta : Nat} {got addend : Int} {symbol : Nat}
    (hbias : image.bias < 2 ^ 32) (hsite : patchesSite rel.type)
    (hsymbol : rel.type ≠ r386Relative → symbol = linkAddress image rel.symbolIndex + delta)
    (hword : (word : Int) ≡ psabi rel.type addend (linkPlace image rel got) [ZMOD 2 ^ 32]) :
    ((if rel.type = r386Abs32 then wrap32 (word + delta)
      else if rel.type = r386Relative then wrap32 (word + image.bias)
      else sub32 (word + delta) image.bias : Nat) : Int)
      ≡ psabi rel.type addend (runtimePlace image rel got symbol) [ZMOD 2 ^ 32] := by
  rcases hsite with htype | htype | htype | htype | htype <;>
    simp only [htype, psabi, linkPlace, runtimePlace, r386Abs32, r386Pc32, r386Plt32, r386Gotoff,
      r386Relative, Int.ModEq] at hword hsymbol ⊢ <;>
    norm_num at hword hsymbol ⊢ <;>
    simp only [wrap32, sub32] <;> omega

theorem DeltaSpec.symbol {d : SymbolDelta} (hd : DeltaSpec image exports.exports rel d) :
    ∃ symbol, runtimeAddress image (lookupExport exports.exports) rel.symbolIndex = some symbol
      ∧ (rel.type ≠ r386Relative → symbol = linkAddress image rel.symbolIndex + d.delta) := by
  by_cases hrelative : rel.type = r386Relative
  · have hindex := hd.relative hrelative
    have hsome : (runtimeAddress image (lookupExport exports.exports) rel.symbolIndex).isSome := by
      unfold runtimeAddress
      simp only
      split
      · rfl
      · split <;> rfl
    obtain ⟨symbol, hsymbol⟩ := Option.isSome_iff_exists.mp hsome
    exact ⟨symbol, hsymbol, absurd hrelative⟩
  · obtain ⟨symbol, hsymbol, heq⟩ := hd.moves hrelative
    exact ⟨symbol, hsymbol, fun _ => heq⟩

theorem HasSymbols.safe_gotPatch (h : HasSymbols image) (hok : ExportsOk exports.exports)
    (hzero : (0 : UInt8) ∈ name) (hname : name = symbolString image rel.symbolIndex)
    (hgot : fillsGot rel.type) {sameImageDefined : Bool}
    (hdefined : sameImageDefined = true → (symbolAt image rel.symbolIndex).section_ ≠ shnAbs
      ∧ (symbolAt image rel.symbolIndex).section_ ≠ shnUndef)
    {destination : ByteStore} {operand : Nat}
    (hoperand : rel.offset + image.bias = image.runtimeBase + operand)
    (hfits : operand + 4 ≤ image.span) :
    Safe (gotPatch image exports rel (symbolAt image rel.symbolIndex) name sameImageDefined
      (wordAt destination operand 4)) (PatchSpec image exports.exports destination rel) := by
  refine Safe.ensure fun _ => Safe.orElse fun site hsite => ?_
  refine (h.safe_sectionContains _ _ _).bind fun _ _ => Safe.ensure fun _ => ?_
  refine (h.safe_rangeInSegment _ _).bind fun _ _ => Safe.ensure fun _ => ?_
  refine Safe.orElse fun gotRuntime hruntime => Safe.ensure fun hindex => ?_
  obtain ⟨hoffset, hslot, hlt⟩ := loadedWordOffset_spec hruntime
  have hsite' := gotSite_spec hsite (wordAt_lt destination operand 4) hlt
  refine (safe_gotValue hok hzero hname hdefined hindex).bind fun v hv => ?_
  refine Safe.orElse fun address haddress => Safe.ok ?_
  obtain ⟨rfl, -⟩ := add32_eq_some haddress
  refine ⟨?_, fun hsite => absurd hgot (not_fillsGot_of_patchesSite hsite), fun _ => ?_⟩
  · rintro _ ⟨⟩
    exact ⟨rfl, hslot, hv.2⟩
  · exact ⟨_, rfl, ⟨operand, hoperand, hfits, hsite' ▸ hoffset⟩, hv.1⟩

/-- **One relocation.**  On an accepted image `relocate_one` reads only inside the
    blob, the section array and the destination, and what it is about to write is
    the word that the psABI asks for. -/
theorem HasSymbols.relocationPatch_safe (h : HasSymbols image) (hok : ExportsOk exports.exports)
    (hbias : image.bias < 2 ^ 32) (destination : ByteStore) (rel : Relocation) :
    Safe (relocationPatch image exports destination rel)
      (PatchSpec image exports.exports destination rel) := by
  refine Safe.ite (fun hnone => ?_) fun _ => ?_
  · refine Safe.ok (PatchSpec.ofNone ?_ ?_) <;> rw [hnone] <;> simp [patchesSite, fillsGot] <;>
      decide
  refine h.safe_symtab (Safe.ensure fun _ => Safe.orElse fun patchOffset hpatch => ?_)
  obtain ⟨hoffset, hfits, -⟩ := loadedWordOffset_spec hpatch
  refine (h.safe_sectionContains _ _ _).bind fun _ _ => Safe.ensure fun _ => ?_
  refine Safe.orElse fun patchAddress haddress => ?_
  obtain ⟨rfl, -⟩ := add32_eq_some haddress
  refine (h.safe_getSymbol _).bind fun symbol hsymbol => Safe.orElse fun symbol hsome => ?_
  obtain ⟨rfl, -⟩ := hsymbol symbol hsome
  refine (h.safe_symbolName _).bind fun name hname => Safe.orElse fun name hsome => ?_
  obtain ⟨hstring, hnameEq⟩ := hname name hsome
  rw [show load32 image.span destination patchOffset = .ok (wordAt destination patchOffset 4)
    from if_pos hfits]
  refine (h.safe_symbolDelta hok hstring.terminated hnameEq).bind fun d hd => ?_
  obtain ⟨s, hs, hdelta⟩ := hd.symbol
  have hsitePatch : ∀ value, patchesSite rel.type →
      value = (if rel.type = r386Abs32 then wrap32 (wordAt destination patchOffset 4 + d.delta)
        else if rel.type = r386Relative then wrap32 (wordAt destination patchOffset 4 + image.bias)
        else sub32 (wordAt destination patchOffset 4 + d.delta) image.bias) →
      PatchSpec image exports.exports destination rel
        (some ⟨rel.offset + image.bias, patchOffset, value⟩) := by
    rintro _ hsite rfl
    refine PatchSpec.ofSite hsite rfl hfits ?_ ⟨hoffset, s, hs, fun addend got hword => ?_⟩
    · split
      · exact wrap32_lt _
      · split <;> exact wrap32_lt _
    · exact psabi_moves hbias hsite hdelta hword
  refine Safe.ite (fun habs => ?_) fun hnabs => ?_
  · exact Safe.ok (hsitePatch _ (.inl habs) (if_pos habs).symm)
  refine Safe.ite (fun hpc => ?_) fun hnpc => ?_
  · have hsite : patchesSite rel.type := by
      rcases hpc with hpc | hplt | hoff
      · exact .inr (.inl hpc)
      · exact .inr (.inr (.inl hplt))
      · exact .inr (.inr (.inr (.inl hoff)))
    have hnrel : rel.type ≠ r386Relative := by
      rcases hpc with hpc | hplt | hoff <;> simp only [*] <;> decide
    exact Safe.ok (hsitePatch _ hsite (by rw [if_neg hnabs, if_neg hnrel]))
  refine Safe.ite (fun hrelative => ?_) fun hnrel => ?_
  · refine Safe.ok (hsitePatch _ (.inr (.inr (.inr (.inr hrelative)))) ?_)
    rw [if_neg hnabs, if_pos hrelative]
  have hnsite : ¬patchesSite rel.type := by
    rintro (h1 | h2 | h3 | h4 | h5)
    · exact hnabs h1
    · exact hnpc (.inl h2)
    · exact hnpc (.inr (.inl h3))
    · exact hnpc (.inr (.inr h4))
    · exact hnrel h5
  refine Safe.ite (fun hgotpc => ?_) fun _ => ?_
  · refine Safe.ensure fun _ => (h.safe_sectionContains _ _ _).bind fun _ _ => ?_
    refine Safe.ensure fun _ => (h.safe_sectionContains _ _ _).bind fun _ _ => ?_
    refine Safe.ensure fun _ => (safe_stringEqual hstring.terminated (by simp)).bind fun _ _ => ?_
    refine Safe.ensure fun _ => Safe.ok (PatchSpec.ofNone hnsite ?_)
    rw [hgotpc]
    simp only [fillsGot]
    decide
  refine Safe.ite (fun hgot => ?_) fun _ => trivial
  exact h.safe_gotPatch hok hstring.terminated hnameEq hgot hd.defined hoffset hfits

end

end UnDOS.Loader
