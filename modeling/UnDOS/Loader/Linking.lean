import UnDOS.Lib.WordWrites
import UnDOS.Loader.Exports
import UnDOS.Loader.Loading
import UnDOS.Loader.WriteTable

/-!
# Direct Loader: Runs of the Linker

The relocations of an image are applied one after the other to one buffer, so what
a relocation reads may be what an earlier one wrote.  `trace` replays such a run:
it lists the relocations of the file with the word that each of them writes.
-/

namespace UnDOS.Loader

open UnDOS.Lib UnDOS.Lib.Outcome

/-! ## The relocations of a file -/

/-- Does section `index` occupy memory? -/
def allocSection (image : Image) (index : Nat) : Bool :=
  match image.sections[index]? with
  | some s => s.alloc
  | none => false

/-- Entry `r` of the relocation section `s`. -/
def relocationAt (image : Image) (s : Section) (r : Nat) : Relocation where
  target := s.info
  offset := blobWord image.blob (s.offset + r * elfRelSize) 4
  info := blobWord image.blob (s.offset + r * elfRelSize + 4) 4

/-- The first `n` entries of section `s`, if it is a relocation section for a
    section that occupies memory. -/
def relocationsOf (image : Image) (s : Section) (n : Nat) : List Relocation :=
  if s.type = shtRel ∧ allocSection image s.info then
    (List.range n).map (relocationAt image s)
  else []

/-- The relocations in the first `n` sections. -/
def relocationsUpTo (image : Image) (n : Nat) : List Relocation :=
  (image.sections.take n).flatMap fun s => relocationsOf image s (s.size / elfRelSize)

/-- The relocations that `link_one` applies, in its order. -/
def relocations (image : Image) : List Relocation := relocationsUpTo image image.sectionCount

/-! ## Replaying a run -/

/-- A relocation together with the word it writes. -/
abbrev Step := Relocation × Option Patch

def Patch.toWrite (p : Patch) : WordWrite := ⟨p.offset, p.value⟩

/-- The words that a run writes. -/
def writesOf (steps : List Step) : List WordWrite :=
  steps.filterMap fun s => s.2.map Patch.toWrite

/-- What each of the relocations writes when they are applied in order.  The list
    ends early if one of them fails. -/
def trace (image : Image) (exports : ExportTable) : ByteStore → List Relocation → List Step
  | _, [] => []
  | d, rel :: rels =>
    match relocationPatch image exports d rel with
    | .ok p => (rel, p) :: trace image exports (WordWrite.applyAll d (writesOf [(rel, p)])) rels
    | _ => []

section

variable {image : Image} {exports : ExportTable}

theorem writesOf_append (s t : List Step) : writesOf (s ++ t) = writesOf s ++ writesOf t :=
  List.filterMap_append

theorem trace_snoc {d : ByteStore} {rels : List Relocation} {rel : Relocation} {p : Option Patch}
    (hdone : (trace image exports d rels).map Prod.fst = rels) (hp : relocationPatch image exports
      (WordWrite.applyAll d (writesOf (trace image exports d rels))) rel = .ok p) :
    trace image exports d (rels ++ [rel]) = trace image exports d rels ++ [(rel, p)] := by
  induction rels generalizing d with
  | nil =>
    have hp' : relocationPatch image exports d rel = .ok p := hp
    simp [trace, hp']
  | cons first rest ih =>
    cases hfirst : relocationPatch image exports d first with
    | err e => simp [trace, hfirst] at hdone
    | stuck => simp [trace, hfirst] at hdone
    | ok q =>
      simp only [trace, hfirst, List.map_cons, List.cons.injEq, true_and] at hdone
      simp only [trace, hfirst, List.cons_append] at hp ⊢
      rw [show ((first, q) :: trace image exports (WordWrite.applyAll d (writesOf [(first, q)]))
        rest)
        = [(first, q)] ++ trace image exports (WordWrite.applyAll d (writesOf [(first, q)])) rest
        from rfl, writesOf_append, WordWrite.applyAll_append] at hp
      rw [ih hdone hp]

theorem trace_split {d : ByteStore} {rels : List Relocation} {pre post : List Step} {s : Step}
    (h : trace image exports d rels = pre ++ s :: post) :
    relocationPatch image exports (WordWrite.applyAll d (writesOf pre)) s.1 = .ok s.2 := by
  induction rels generalizing d pre with
  | nil => simp [trace] at h
  | cons first rest ih =>
    cases hfirst : relocationPatch image exports d first with
    | err e => simp [trace, hfirst] at h
    | stuck => simp [trace, hfirst] at h
    | ok q =>
      simp only [trace, hfirst] at h
      cases pre with
      | nil =>
        simp only [List.nil_append, List.cons.injEq] at h
        rw [← h.1]
        exact hfirst
      | cons t pre =>
        simp only [List.cons_append, List.cons.injEq] at h
        rw [← h.1]
        have hstep := ih h.2
        rwa [← WordWrite.applyAll_append, ← writesOf_append] at hstep

/-! ## One image -/

/-- The state of `link_one` after the relocations `done`. -/
structure LinkedUpTo (image : Image) (exports : ExportTable) (base : ByteStore)
    (done : List Relocation) (state : LinkState) : Prop where
  complete : (trace image exports base done).map Prod.fst = done
  destination : state.destination
    = WordWrite.applyAll base (writesOf (trace image exports base done))
  registered : ∀ s ∈ trace image exports base done, ∀ p, s.2 = some p → p.address ≠ noIndex →
    Registered state.writes p.address p.value

/-- One relocation keeps what is linked so far. -/
theorem LinkedUpTo.step (hsym : HasSymbols image) (hok : ExportsOk exports.exports)
    (hbias : image.bias < 2 ^ 32) {base : ByteStore} {done : List Relocation} {state : LinkState}
    (h : LinkedUpTo image exports base done state) (rel : Relocation) :
    Safe (relocateOne image exports rel state) (LinkedUpTo image exports base (done ++ [rel])) := by
  have hsafe := hsym.relocationPatch_safe hok hbias state.destination rel
  unfold relocateOne
  cases hpatch : relocationPatch image exports state.destination rel with
  | stuck => exact absurd hpatch hsafe.ne_stuck
  | err e => trivial
  | ok patch =>
    have hspec := hsafe.of_ok hpatch
    have htrace := trace_snoc h.complete (h.destination ▸ hpatch)
    have hcomplete : (trace image exports base (done ++ [rel])).map Prod.fst = done ++ [rel] := by
      rw [htrace, List.map_append, h.complete]
      rfl
    cases patch with
    | none =>
      refine Safe.ok ⟨hcomplete, ?_, ?_⟩
      · rw [htrace]
        simpa [writesOf] using h.destination
      · intro s hs p hp
        rw [htrace] at hs
        rcases List.mem_append.mp hs with hold | hnew
        · exact h.registered s hold p hp
        · rw [List.mem_singleton.mp hnew] at hp
          cases hp
    | some p =>
      obtain ⟨-, hfits, -⟩ := hspec.fits p rfl
      refine (safe_registerWrite state.writes p.address p.value).bind fun writes hwrites => ?_
      rw [show store32 image.span state.destination p.offset p.value
        = .ok (WordWrite.apply state.destination p.toWrite) from if_pos hfits]
      refine Safe.ok ⟨hcomplete, ?_, ?_⟩
      · rw [htrace, writesOf_append, WordWrite.applyAll_append, ← h.destination]
        rfl
      · intro s hs q hq hmarker
        rw [htrace] at hs
        rcases List.mem_append.mp hs with hold | hnew
        · exact hwrites.kept _ _ (h.registered s hold q hq hmarker)
        · rw [List.mem_singleton.mp hnew] at hq
          cases hq
          exact hwrites.here hmarker

theorem LinkedUpTo.start (base : ByteStore) (writes : List WriteSlot) :
    LinkedUpTo image exports base [] ⟨base, writes⟩ :=
  ⟨rfl, rfl, fun s hs => by simp [trace] at hs⟩

theorem relocationsOf_succ {s : Section} (n : Nat) (hrel : s.type = shtRel)
    (halloc : allocSection image s.info = true) :
    relocationsOf image s (n + 1) = relocationsOf image s n ++ [relocationAt image s n] := by
  simp [relocationsOf, hrel, halloc, List.range_succ]

theorem relocationsUpTo_succ {i : Nat} {s : Section} (hs : image.sections[i]? = some s) :
    relocationsUpTo image (i + 1)
      = relocationsUpTo image i ++ relocationsOf image s (s.size / elfRelSize) := by
  simp [relocationsUpTo, List.take_add_one, hs]

/-- **Run lemma.**  `link_one` is safe, and what it leaves is what the trace says. -/
theorem linkOne_safe (hsym : HasSymbols image) (hok : ExportsOk exports.exports)
    (hbias : image.bias < 2 ^ 32) (base : ByteStore) (writes : List WriteSlot) :
    Safe (linkOne image exports ⟨base, writes⟩)
      (LinkedUpTo image exports base (relocations image)) := by
  apply Safe.forRange (I := fun n => LinkedUpTo image exports base (relocationsUpTo image n))
  · simpa [relocationsUpTo] using LinkedUpTo.start base writes
  · intro i hi state hstate
    refine hsym.safe_sectionAt hi fun s hs => ?_
    rw [relocationsUpTo_succ hs]
    refine Safe.ite (fun hother => ?_) fun hrel => ?_
    · apply Safe.ok
      simpa [relocationsOf, hother] using hstate
    have htype : s.type = shtRel := by
      by_contra hne
      exact hrel hne
    have hinfo := hsym.rel_info s (List.mem_of_getElem? hs) htype
    refine hsym.safe_sectionAt hinfo fun target htarget => ?_
    have htargetAlloc : allocSection image s.info = target.alloc := by
      simp [allocSection, htarget]
    refine Safe.ite (fun hnot => ?_) fun halloc => ?_
    · apply Safe.ok
      have : target.alloc = false := by simpa using hnot
      simpa [relocationsOf, htargetAlloc, this] using hstate
    have halloc' : allocSection image s.info = true := by
      rw [htargetAlloc]
      simpa using halloc
    have hin : s.InFile image.blob :=
      hsym.inFile hs (by rw [htype]; decide) (by rw [htype]; decide)
    apply Safe.forRange (I := fun n => LinkedUpTo image exports base
      (relocationsUpTo image i ++ relocationsOf image s n))
    · simpa [relocationsOf] using hstate
    · intro r hr state' hstate'
      obtain ⟨hwrap, hbound⟩ := entry_bounds hin hsym.blob_size hr
      have hsize : elfRelSize = 8 := rfl
      rw [hwrap, relocationsOf_succ r htype halloc', ← List.append_assoc]
      refine safe_read32 (by omega) (safe_read32 (by omega) ?_)
      exact hstate'.step hsym hok hbias (relocationAt image s r)

end

end UnDOS.Loader
