import UnDOS.Loader.Bounds

/-!
# Direct Loader: Linking Preserves the Meaning of the File

The word in the file is a psABI formula at link-time addresses.  After linking, the
word in the destination is the same formula at run-time addresses; and a GOT slot
holds the run-time address of its symbol.

Relocations share one buffer, so both statements are about sites that no other
write of the run disturbs.  `NoOtherWrite` says that of the site of one
relocation.  A GOT slot is usually shared by several relocations of one symbol:
for it, writes of exactly that slot are allowed.
-/

namespace UnDOS.Loader

open UnDOS.Lib UnDOS.Lib.Outcome

/-! ## The statement -/

/-- The word that the file puts at the linked address `a`. -/
def fileWord (image : Image) (a : Nat) : Nat := wordAt (imageByte image) a 4

/-- The patch of step `j` of a run. -/
def patchAt (steps : List Step) (j : Nat) : Option Patch := (steps[j]?).bind Prod.snd

/-- No step but step `k` writes into the word at `offset`. -/
def NoOtherWrite (steps : List Step) (k offset : Nat) : Prop :=
  ∀ j p, j ≠ k → patchAt steps j = some p → p.toWrite.Avoids offset

/-- No step writes into the word at `offset`. -/
def NoWrite (steps : List Step) (offset : Nat) : Prop :=
  ∀ j p, patchAt steps j = some p → p.toWrite.Avoids offset

/-- No step writes into a part of the word at `offset`. -/
def NoPartialWrite (steps : List Step) (offset : Nat) : Prop :=
  ∀ j p, patchAt steps j = some p → p.toWrite.Avoids offset ∨ p.offset = offset

/-- The offset of the GOT slot that the operand of a relocation selects. -/
def slotOffset (image : Image) (rel : Relocation) : Nat :=
  wrap32 (image.gotLinkedBase + fileWord image rel.offset) - image.linkedBase

/-- Relocation `k`, which patches its own site, means in the destination what it
    means in the file. -/
def SitePreserved (image : Image) (resolve : CString → Option Nat) (steps : List Step)
    (destination : ByteStore) (k : Nat) (rel : Relocation) : Prop :=
  let site := rel.offset - image.linkedBase
  patchesSite rel.type → NoOtherWrite steps k site →
    image.linkedBase ≤ rel.offset ∧ site + 4 ≤ image.span
      ∧ ∃ symbol, runtimeAddress image resolve rel.symbolIndex = some symbol
        ∧ ∀ addend got, (fileWord image rel.offset : Int)
            ≡ psabi rel.type addend (linkPlace image rel got) [ZMOD 2 ^ 32] →
          (wordAt destination site 4 : Int)
            ≡ psabi rel.type addend (runtimePlace image rel got symbol) [ZMOD 2 ^ 32]

/-- The GOT slot of a relocation holds the run-time address of its symbol. -/
def SlotFilled (image : Image) (resolve : CString → Option Nat) (steps : List Step)
    (destination : ByteStore) (rel : Relocation) : Prop :=
  fillsGot rel.type → NoWrite steps (rel.offset - image.linkedBase) →
    NoPartialWrite steps (slotOffset image rel) →
    ∃ symbol, runtimeAddress image resolve rel.symbolIndex = some symbol
      ∧ wordAt destination (slotOffset image rel) 4 = symbol

/-- The destination means what the file means.  `base` is the destination as it was
    before the call. -/
structure Preserved (image : Image) (exports : ExportTable) (resolve : CString → Option Nat)
    (base destination : ByteStore) : Prop where
  complete : (trace image exports (loadedStore image base) (relocations image)).map Prod.fst
    = relocations image
  sites : ∀ k rel, (relocations image)[k]? = some rel →
    SitePreserved image resolve (trace image exports (loadedStore image base) (relocations image))
      destination k rel
  slots : ∀ rel ∈ relocations image,
    SlotFilled image resolve (trace image exports (loadedStore image base) (relocations image))
      destination rel

/-! ## Words of the loaded image -/

section

variable {image : Image} {exports : ExportTable} {base : ByteStore} {state : LinkState}

theorem wordAt_loadedStore {offset : Nat} (h : offset + 4 ≤ image.span) :
    wordAt (loadedStore image base) offset 4 = fileWord image (image.linkedBase + offset) := by
  unfold wordAt
  congr 1
  apply readAt_congr
  intro i hi
  rw [loadedStore, if_pos (by omega), add_assoc]

theorem mem_writesOf {steps : List Step} {w : WordWrite} :
    w ∈ writesOf steps ↔ ∃ j p, patchAt steps j = some p ∧ p.toWrite = w := by
  constructor
  · intro hw
    obtain ⟨s, hs, hwrite⟩ := List.mem_filterMap.mp hw
    obtain ⟨p, hp, rfl⟩ := Option.map_eq_some_iff.mp hwrite
    obtain ⟨j, hj⟩ := List.mem_iff_getElem?.mp hs
    exact ⟨j, p, by simp [patchAt, hj, hp], rfl⟩
  · rintro ⟨j, p, hp, rfl⟩
    obtain ⟨s, hs, hsp⟩ := Option.bind_eq_some_iff.mp hp
    exact List.mem_filterMap.mpr ⟨s, List.mem_of_getElem? hs, by simp [hsp]⟩

theorem NoOtherWrite.before {pre post : List Step} {s : Step} {offset : Nat}
    (h : NoOtherWrite (pre ++ s :: post) pre.length offset) :
    ∀ w ∈ writesOf pre, w.Avoids offset := by
  intro w hw
  obtain ⟨j, p, hp, rfl⟩ := mem_writesOf.mp hw
  obtain ⟨t, ht, hsp⟩ := Option.bind_eq_some_iff.mp hp
  have hlt : j < pre.length := (List.getElem?_eq_some_iff.mp ht).1
  apply h j p (by omega)
  rw [patchAt, List.getElem?_append_left hlt]
  exact hp

variable {done : List Relocation}

theorem LinkedUpTo.patch_spec (hsym : HasSymbols image) (hok : ExportsOk exports.exports)
    (hbias : image.bias < 2 ^ 32)
    (h : LinkedUpTo image exports base done state) {k : Nat} {rel : Relocation}
    (hk : done[k]? = some rel) :
    ∃ pre patch post, trace image exports base done = pre ++ (rel, patch) :: post ∧ pre.length = k
      ∧ PatchSpec image exports.exports (WordWrite.applyAll base (writesOf pre)) rel patch := by
  have hmap := h.complete
  rw [← hmap, List.getElem?_map] at hk
  obtain ⟨s, hs, rfl⟩ := Option.map_eq_some_iff.mp hk
  obtain ⟨hlt, hget⟩ := List.getElem?_eq_some_iff.mp hs
  set steps := trace image exports base done with hsteps
  have hsplit : steps = steps.take k ++ s :: steps.drop (k + 1) := by
    rw [← hget, ← List.drop_eq_getElem_cons hlt, List.take_append_drop]
  refine ⟨steps.take k, s.2, steps.drop (k + 1), hsplit, ?_, ?_⟩
  · rw [List.length_take]
    omega
  · exact (hsym.relocationPatch_safe hok hbias _ s.1).of_ok (trace_split (hsteps ▸ hsplit))

theorem LinkedUpTo.same_value (hsym : HasSymbols image) (hok : ExportsOk exports.exports)
    (hplan : Planned image) (h : LinkedUpTo image exports base done state) {i j : Nat} {p q : Patch}
    (hp : patchAt (trace image exports base done) i = some p)
    (hq : patchAt (trace image exports base done) j = some q) (hoffset : p.offset = q.offset) :
    p.value = q.value := by
  have hregistered : ∀ i p, patchAt (trace image exports base done) i = some p →
      Registered state.writes (image.runtimeBase + p.offset) p.value := by
    intro i p hp
    obtain ⟨s, hs, hsp⟩ := Option.bind_eq_some_iff.mp hp
    have hmem := List.mem_of_getElem? hs
    obtain ⟨pre, post, hsplit⟩ := List.append_of_mem hmem
    have hspec := (hsym.relocationPatch_safe hok hplan.bias_lt _ s.1).of_ok (trace_split hsplit)
    obtain ⟨haddress, hfits, -⟩ := hspec.fits p hsp
    rw [← haddress]
    apply h.registered s hmem p hsp
    -- The marker of an unused slot is no address of the image.
    have hend := hplan.end_lt
    unfold noIndex
    omega
  have hp' := hregistered i p hp
  rw [hoffset] at hp'
  exact hp'.unique (hregistered j q hq)

/-! ## Preservation for one image -/

/-- Later writes miss the site, so that its word stays what its type asks for. -/
theorem LinkedUpTo.sitePreserved (hsym : HasSymbols image) (hok : ExportsOk exports.exports)
    (hplan : Planned image)
    (h : LinkedUpTo image exports (loadedStore image base) done state) {k : Nat} {rel : Relocation}
    (hk : done[k]? = some rel) : SitePreserved image (lookupExport exports.exports)
      (trace image exports (loadedStore image base) done) state.destination k rel := by
  intro hsite halone
  obtain ⟨pre, patch, post, hsplit, rfl, hspec⟩ := h.patch_spec hsym hok hplan.bias_lt hk
  obtain ⟨p, rfl, hpatch⟩ := hspec.site hsite
  obtain ⟨-, hfits, hlt⟩ := hspec.fits p rfl
  have hoffset := hpatch.offset
  have hbias := hplan.bias_eq
  have hrel : rel.offset = image.linkedBase + p.offset := by omega
  have hsiteEq : rel.offset - image.linkedBase = p.offset := by omega
  rw [hsiteEq] at halone ⊢
  rw [hsplit] at halone
  -- What the relocation read is the word of the file.
  have hword : wordAt (WordWrite.applyAll (loadedStore image base) (writesOf pre)) p.offset 4
      = fileWord image rel.offset := by
    rw [WordWrite.wordAt_applyAll_of_avoids halone.before, wordAt_loadedStore hfits, ← hrel]
  -- What it wrote is what the destination holds in the end.
  have hfinal : wordAt state.destination p.offset 4 = p.value := by
    have hmem : p.toWrite ∈ writesOf (trace image exports (loadedStore image base) done) :=
      mem_writesOf.mpr ⟨pre.length, p, by simp [patchAt, hsplit], rfl⟩
    rw [h.destination, show p.offset = p.toWrite.offset from rfl,
      WordWrite.wordAt_applyAll_of_mem hmem]
    · exact Nat.mod_eq_of_lt hlt
    · intro w hw
      obtain ⟨j, q, hq, rfl⟩ := mem_writesOf.mp hw
      by_cases hj : j = pre.length
      · right
        rw [hj, patchAt, hsplit] at hq
        have : p = q := by simpa using hq
        rw [this]
      · left
        exact halone j q hj (hsplit ▸ hq)
  obtain ⟨symbol, hsymbol, hvalue⟩ := hpatch.value
  refine ⟨by omega, hfits, symbol, hsymbol, fun addend got hfile => ?_⟩
  rw [hfinal]
  apply hvalue addend got
  rw [hword]
  exact hfile

theorem LinkedUpTo.slotFilled (hsym : HasSymbols image) (hok : ExportsOk exports.exports)
    (hplan : Planned image)
    (h : LinkedUpTo image exports (loadedStore image base) done state) {rel : Relocation}
    (hrel : rel ∈ done) : SlotFilled image (lookupExport exports.exports)
      (trace image exports (loadedStore image base) done) state.destination rel := by
  intro hgot hoperandAlone hslotAlone
  obtain ⟨k, hk⟩ := List.mem_iff_getElem?.mp hrel
  obtain ⟨pre, patch, post, hsplit, rfl, hspec⟩ := h.patch_spec hsym hok hplan.bias_lt hk
  obtain ⟨p, rfl, hpatch⟩ := hspec.got hgot
  obtain ⟨-, hfits, hlt⟩ := hspec.fits p rfl
  obtain ⟨operand, hoperand, hoperandFits, hslot⟩ := hpatch.slot
  have hbias := hplan.bias_eq
  have hplace : rel.offset = image.linkedBase + operand := by omega
  have hpAt : patchAt (trace image exports (loadedStore image base) done) pre.length = some p := by
    simp [patchAt, hsplit]
  -- The operand that the relocation read is the word of the file.
  have hword : wordAt (WordWrite.applyAll (loadedStore image base) (writesOf pre)) operand 4
      = fileWord image rel.offset := by
    have havoid : NoOtherWrite (pre ++ (rel, some p) :: post) pre.length operand := by
      intro j q _ hq
      have := hoperandAlone j q (hsplit ▸ hq)
      rwa [hplace, Nat.add_sub_cancel_left] at this
    rw [WordWrite.wordAt_applyAll_of_avoids havoid.before, wordAt_loadedStore hoperandFits,
      ← hplace]
  have hslotEq : slotOffset image rel = p.offset := by
    unfold slotOffset
    rw [hword] at hslot
    omega
  refine ⟨p.value, hpatch.value, ?_⟩
  rw [hslotEq] at hslotAlone ⊢
  have hmem : p.toWrite ∈ writesOf (trace image exports (loadedStore image base) done) :=
    mem_writesOf.mpr ⟨pre.length, p, hpAt, rfl⟩
  rw [h.destination, show p.offset = p.toWrite.offset from rfl,
    WordWrite.wordAt_applyAll_of_mem hmem]
  · exact Nat.mod_eq_of_lt hlt
  · intro w hw
    obtain ⟨j, q, hq, rfl⟩ := mem_writesOf.mp hw
    refine (hslotAlone j q hq).imp id fun hsame => ?_
    -- The write table has refused any other value for this slot.
    have hvalue := h.same_value hsym hok hplan hq hpAt hsame
    simp [Patch.toWrite, hsame, hvalue]

theorem LinkedUpTo.preserved (hsym : HasSymbols image) (hok : ExportsOk exports.exports)
    (hplan : Planned image)
    (h : LinkedUpTo image exports (loadedStore image base) (relocations image) state) :
    Preserved image exports (lookupExport exports.exports) base state.destination :=
  ⟨h.complete, fun _ _ hk => h.sitePreserved hsym hok hplan hk,
    fun _ hrel => h.slotFilled hsym hok hplan hrel⟩

end

/-! ## Both images -/

theorem LaidOut.planned {kernel hal kernel' hal' : Image} (h : LaidOut kernel hal kernel' hal')
    (hk : Accepted kernel) (hh : Accepted hal) :
    (Accepted kernel' ∧ Planned kernel') ∧ Accepted hal' ∧ Planned hal' := by
  obtain ⟨base, rfl, hbase, hend⟩ := h.hal_eq
  rw [h.kernel_eq]
  have hklink : kernel.linkedBase = 0xc0000000 := by
    rw [hk.linked, h.roles.1]
    rfl
  have hhlink : hal.linkedBase = 0x80000000 := by
    rw [hh.linked, h.roles.2]
    rfl
  have hspan := h.kernel_span
  simp only [udlVirtualLimit, udlKernelBase] at hbase hend hspan
  refine ⟨⟨hk.relocated _ _, planned_placedAt ?_ ?_⟩, hh.relocated _ _, planned_placedAt ?_ ?_⟩
  · rw [hklink]
    exact le_rfl
  · simp only [udlKernelBase]
    omega
  · omega
  · omega

/-- **Linking preserves ELF meaning.**  If two accepted images are laid out, their
    exports collected and the images linked, then in either destination every
    relocation whose site no other write disturbs means what it means in the file,
    with the run-time addresses of places and symbols, and every GOT slot holds the
    run-time address of its symbol. -/
theorem linking_preserves_meaning {kernelBlob halBlob : List UInt8} {kernelCapacity halCapacity
    bootinfoSize kernelSize halSize : Nat} {kernel₀ hal₀ kernel hal : Image} {layout : Layout}
    {table exports : ExportTable} {kernelDestination halDestination : ByteStore}
    {writes : List WriteSlot} {linked : ByteStore × ByteStore}
    (hkernel : imageOpen kernelBlob kernelCapacity roleKernel = .ok kernel₀)
    (hhal : imageOpen halBlob halCapacity roleHal = .ok hal₀)
    (hplan : planLayout kernel₀ hal₀ bootinfoSize = .ok (kernel, hal, layout))
    (hexports : collectExports kernel hal table = .ok exports)
    (hlink : linkImages kernel hal exports kernelDestination kernelSize halDestination halSize
      writes = .ok linked) :
    Preserved kernel exports (fun name => exportAddress kernel hal (chars name))
        kernelDestination linked.1
      ∧ Preserved hal exports (fun name => exportAddress kernel hal (chars name))
        halDestination linked.2 := by
  have hk₀ := ((imageOpen_safe _ _ _).of_ok hkernel).1
  have hh₀ := ((imageOpen_safe _ _ _).of_ok hhal).1
  have hlaid : LaidOut kernel₀ hal₀ kernel hal := (planLayout_safe _ _ _).of_ok hplan
  obtain ⟨⟨hk, hkplan⟩, hh, hhplan⟩ := hlaid.planned hk₀ hh₀
  obtain ⟨hok, hlookup⟩ :=
    (collectExports_safe hk.toHasSymbols hh.toHasSymbols table).of_ok hexports
  have hresolve : (fun name => exportAddress kernel hal (chars name))
      = lookupExport exports.exports := by
    funext name
    exact (hlookup name).symm
  have hlinked := (linkImages_safe hk hh hok hkplan.bias_lt hhplan.bias_lt kernelDestination
    kernelSize halDestination halSize writes).of_ok hlink
  obtain ⟨⟨kstate, hkrun, hkdest⟩, ⟨hstate, hhrun, hhdest⟩⟩ := hlinked
  rw [hresolve, ← hkdest, ← hhdest]
  exact ⟨hkrun.preserved hk.toHasSymbols hok hkplan, hhrun.preserved hh.toHasSymbols hok hhplan⟩

/-- What a run of all passes leaves. -/
structure Session where
  kernel : Image
  hal : Image
  layout : Layout
  exports : ExportTable
  linked : ByteStore × ByteStore

/-- All passes over two blobs, into zeroed destinations of `size` bytes. -/
def runPasses (kernelBlob halBlob : List UInt8) (bootinfoSize size : Nat) (table : ExportTable)
    (writes : List WriteSlot) : Load Session := do
  let kernel₀ ← imageOpen kernelBlob udlMaxSections roleKernel
  let hal₀ ← imageOpen halBlob udlMaxSections roleHal
  let placed ← planLayout kernel₀ hal₀ bootinfoSize
  let exports ← collectExports placed.1 placed.2.1 table
  let linked ← linkImages placed.1 placed.2.1 exports (fun _ => 0) size (fun _ => 0) size writes
  pure ⟨placed.1, placed.2.1, placed.2.2, exports, linked⟩

theorem runPasses_eq_ok {kernelBlob halBlob : List UInt8} {bootinfoSize size : Nat}
    {table : ExportTable} {writes : List WriteSlot} {s : Session}
    (h : runPasses kernelBlob halBlob bootinfoSize size table writes = .ok s) :
    ∃ kernel₀ hal₀, imageOpen kernelBlob udlMaxSections roleKernel = .ok kernel₀
      ∧ imageOpen halBlob udlMaxSections roleHal = .ok hal₀
      ∧ planLayout kernel₀ hal₀ bootinfoSize = .ok (s.kernel, s.hal, s.layout)
      ∧ collectExports s.kernel s.hal table = .ok s.exports
      ∧ linkImages s.kernel s.hal s.exports (fun _ => 0) size (fun _ => 0) size writes
        = .ok s.linked := by
  obtain ⟨kernel₀, hkernel, h⟩ := bind_eq_ok h
  obtain ⟨hal₀, hhal, h⟩ := bind_eq_ok h
  obtain ⟨placed, hplan, h⟩ := bind_eq_ok h
  obtain ⟨exports, hexports, h⟩ := bind_eq_ok h
  obtain ⟨linked, hlink, h⟩ := bind_eq_ok h
  cases h
  exact ⟨kernel₀, hal₀, hkernel, hhal, hplan, hexports, hlink⟩

/-- All passes over the sample images. -/
def sampleSession : Load Session :=
  runPasses sampleKernel sampleHal 64 4 ⟨[], udlMaxExports, udlNamePoolSize, 0, 0, 0⟩
    [⟨0, 0⟩, ⟨0, 0⟩]

theorem linking_preserves_meaning_sample :
    -- The operand of the call from the HAL is `k - 4 - place` at run time.
    (do let s ← sampleSession; pure (wordAt s.linked.2 0 4)) = .ok 0xffffeffc
      ∧ ∃ s, sampleSession = .ok s
        ∧ Preserved s.kernel s.exports (fun name => exportAddress s.kernel s.hal (chars name))
          (fun _ => 0) s.linked.1
        ∧ Preserved s.hal s.exports (fun name => exportAddress s.kernel s.hal (chars name))
          (fun _ => 0) s.linked.2 := by
  refine ⟨by decide +kernel, ?_⟩
  obtain ⟨s, hs⟩ := exists_of_isOk (show sampleSession.isOk = true by decide +kernel)
  obtain ⟨kernel₀, hal₀, hkernel, hhal, hplan, hexports, hlink⟩ := runPasses_eq_ok hs
  exact ⟨s, hs, linking_preserves_meaning hkernel hhal hplan hexports hlink⟩

end UnDOS.Loader
