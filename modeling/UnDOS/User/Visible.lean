import UnDOS.User.Windows

/-!
# What is visible

The regions of `gfx/region.hpp` and the region of a window that nothing in front of it covers
(`visible_region_locked`), against the search for the window at a point
(`window_from_point_locked`).

A region is a list of at most 32 rectangles.  Where a subtraction would need more, the fragments of
a rectangle that no longer fit are dropped, so that a region never has a pixel too many.
-/

namespace UnDOS.User

/-! ## Regions -/

namespace Rect

/-- The pixels of a rectangle. -/
def pixels (r : Rect) : Set (Int × Int) := {p | r.contains p.1 p.2}

/-- `parts` of `URegion::Subtract`: what is left of a rectangle, above, below, to the left and to
the right of the cut. -/
def parts (r cut : Rect) : List Rect :=
  let x := r.intersect cut
  if x.isEmpty then [r]
  else
    (if r.top < x.top then [⟨r.left, r.top, r.right, x.top⟩] else []) ++
    (if x.bottom < r.bottom then [⟨r.left, x.bottom, r.right, r.bottom⟩] else []) ++
    (if r.left < x.left then [⟨r.left, x.top, x.left, x.bottom⟩] else []) ++
    (if x.right < r.right then [⟨x.right, x.top, r.right, x.bottom⟩] else [])

end Rect

/-- `URegion`, with `kMaxRects` as its bound. -/
structure Region where
  rects : List Rect
  bounded : rects.length ≤ 32

namespace Region

def set (r : Rect) : Region := if r.isEmpty then ⟨[], by simp⟩ else ⟨[r], by simp⟩

/-- The body of the loop of `URegion::Subtract`: `result` takes the parts of a rectangle, all of
them or none. -/
def subtractOne (cut : Rect) (result : Region) (r : Rect) : Region :=
  if h : result.rects.length + (r.parts cut).length ≤ 32 then
    ⟨result.rects ++ r.parts cut, by simpa using h⟩
  else result

def subtract (region : Region) (cut : Rect) : Region :=
  if cut.isEmpty then region
  else region.rects.foldl (subtractOne cut) ⟨[], by simp⟩

/-- The pixels of a region. -/
def pixels (region : Region) : Set (Int × Int) := {p | ∃ r ∈ region.rects, p ∈ r.pixels}

/-- A subtraction needs at most 32 rectangles. -/
def Fits (region : Region) (cut : Rect) : Prop :=
  cut.isEmpty ∨ (region.rects.flatMap (·.parts cut)).length ≤ 32

/-- None of the subtractions of some rectangles, one after the other, needs more than 32. -/
def AllFit : Region → List Rect → Prop
  | _, [] => True
  | region, cut :: cuts => region.Fits cut ∧ AllFit (region.subtract cut) cuts

end Region

/-! ## The visible part of a window -/

/-- The windows in front of a window. -/
def inFront (s : State) (w : Slot) : List Slot := (zOrder s).takeWhile (· != w)

/-- What `visible_region_locked` subtracts for the windows in front. -/
def occluders (s : State) (w : Slot) : List Rect :=
  ((inFront s w).filter (effectivelyVisible s)).map (clippedRect s)

/-- `visible_region_locked`.  `popups` are the bounds of the popups that are open, none while no
menu is. -/
def visibleRegion (s : State) (popups : List Rect) (w : Slot) : Region :=
  (occluders s w ++ popups).foldl Region.subtract (Region.set (clippedRect s w))

/-! ## Pixels of regions -/

namespace Rect

theorem mem_pixels {r : Rect} {p : Int × Int} :
    p ∈ r.pixels ↔ r.left ≤ p.1 ∧ p.1 < r.right ∧ r.top ≤ p.2 ∧ p.2 < r.bottom := by
  simp [pixels, contains]

theorem pixels_of_isEmpty {r : Rect} (h : r.isEmpty) : r.pixels = ∅ := by
  ext p
  simp only [isEmpty, decide_eq_true_eq] at h
  simp only [mem_pixels, Set.mem_empty_iff_false, iff_false]
  omega

theorem pixels_intersect (r o : Rect) : (r.intersect o).pixels = r.pixels ∩ o.pixels := by
  ext p
  simp only [intersect]
  split
  · next hempty =>
    simp only [isEmpty, decide_eq_true_eq] at hempty
    simp only [Set.mem_inter_iff, mem_pixels]
    omega
  · simp only [Set.mem_inter_iff, mem_pixels]
    omega

theorem intersect_sides {r cut : Rect} (h : ¬(r.intersect cut).isEmpty) :
    r.left ≤ (r.intersect cut).left ∧ (r.intersect cut).right ≤ r.right ∧
      r.top ≤ (r.intersect cut).top ∧ (r.intersect cut).bottom ≤ r.bottom := by
  revert h
  simp only [intersect]
  split
  · simp [isEmpty]
  · intro _
    exact ⟨le_max_left _ _, min_le_left _ _, le_max_left _ _, min_le_left _ _⟩

/-- A rectangle without a cut is the union of its four parts. -/
theorem mem_parts (r cut : Rect) (p : Int × Int) :
    (∃ q ∈ r.parts cut, p ∈ q.pixels) ↔ p ∈ r.pixels ∧ p ∉ cut.pixels := by
  have hinter := Set.ext_iff.1 (pixels_intersect r cut) p
  rw [parts]
  split
  · next hempty =>
    rw [pixels_of_isEmpty hempty] at hinter
    simpa using fun h hcut => hinter.2 ⟨h, hcut⟩
  · next hsome =>
    have hsides := intersect_sides hsome
    generalize r.intersect cut = x at *
    simp only [isEmpty, decide_eq_true_eq] at hsome
    have hcut : p ∈ r.pixels → (p ∈ cut.pixels ↔ p ∈ x.pixels) := fun h => by
      simp [hinter, h]
    constructor
    · rintro ⟨q, hq, hp⟩
      have hmem : p ∈ r.pixels ∧ p ∉ x.pixels := by
        simp only [List.mem_append, List.mem_ite_nil_right, List.mem_singleton] at hq
        simp only [mem_pixels] at hp ⊢
        obtain ((⟨_, rfl⟩ | ⟨_, rfl⟩) | ⟨_, rfl⟩) | ⟨_, rfl⟩ := hq <;> dsimp only at hp <;> omega
      exact ⟨hmem.1, fun h => hmem.2 ((hcut hmem.1).1 h)⟩
    · rintro ⟨hr, hnot⟩
      rw [hcut hr] at hnot
      simp only [List.mem_append, List.mem_ite_nil_right, List.mem_singleton]
      simp only [mem_pixels] at hr hnot
      -- Rows above and below the cut first, then the columns beside it.
      by_cases habove : p.2 < x.top
      · exact ⟨_, .inl (.inl (.inl ⟨by omega, rfl⟩)), by simp only [mem_pixels]; omega⟩
      by_cases hbelow : x.bottom ≤ p.2
      · exact ⟨_, .inl (.inl (.inr ⟨by omega, rfl⟩)), by simp only [mem_pixels]; omega⟩
      by_cases hleft : p.1 < x.left
      · exact ⟨_, .inl (.inr ⟨by omega, rfl⟩), by simp only [mem_pixels]; omega⟩
      · exact ⟨_, .inr ⟨by omega, rfl⟩, by simp only [mem_pixels]; omega⟩

end Rect

namespace Region

theorem pixels_set (r : Rect) : (set r).pixels = r.pixels := by
  rw [set]
  split
  · next hempty => simp [pixels, Rect.pixels_of_isEmpty hempty]
  · simp [pixels]

theorem mem_flatMap_parts (rects : List Rect) (cut : Rect) (p : Int × Int) :
    (∃ q ∈ rects.flatMap (·.parts cut), p ∈ q.pixels) ↔
      (∃ r ∈ rects, p ∈ r.pixels) ∧ p ∉ cut.pixels := by
  simp only [List.mem_flatMap]
  constructor
  · rintro ⟨q, ⟨r, hr, hq⟩, hp⟩
    have hmem := (Rect.mem_parts r cut p).1 ⟨q, hq, hp⟩
    exact ⟨⟨r, hr, hmem.1⟩, hmem.2⟩
  · rintro ⟨⟨r, hr, hp⟩, hcut⟩
    obtain ⟨q, hq, hpq⟩ := (Rect.mem_parts r cut p).2 ⟨hp, hcut⟩
    exact ⟨q, ⟨r, hr, hq⟩, hpq⟩

theorem subtractOne_foldl_sublist (cut : Rect) (rects : List Rect) (result : Region) :
    (rects.foldl (subtractOne cut) result).rects.Sublist
      (result.rects ++ rects.flatMap (·.parts cut)) := by
  induction rects generalizing result with
  | nil => simp
  | cons r rects ih =>
    apply (ih _).trans
    rw [List.flatMap_cons, ← List.append_assoc]
    refine List.Sublist.append_right ?_ _
    rw [subtractOne]
    split
    · exact List.Sublist.refl _
    · exact List.sublist_append_left _ _

theorem subtractOne_foldl_eq (cut : Rect) (rects : List Rect) (result : Region)
    (hroom : (result.rects ++ rects.flatMap (·.parts cut)).length ≤ 32) :
    (rects.foldl (subtractOne cut) result).rects = result.rects ++ rects.flatMap (·.parts cut) := by
  induction rects generalizing result with
  | nil => simp
  | cons r rects ih =>
    have hfits : result.rects.length + (r.parts cut).length ≤ 32 := by
      simp only [List.flatMap_cons, List.length_append] at hroom
      omega
    rw [List.foldl_cons, subtractOne, dif_pos hfits, ih]
    · simp
    · simpa [List.append_assoc] using hroom

theorem pixels_subtract_subset (region : Region) (cut : Rect) :
    (region.subtract cut).pixels ⊆ region.pixels \ cut.pixels := by
  intro p hp
  rw [subtract] at hp
  split at hp
  · next hempty => simpa [Rect.pixels_of_isEmpty hempty] using hp
  · obtain ⟨q, hq, hpq⟩ := hp
    have hpart := (subtractOne_foldl_sublist cut region.rects ⟨[], by simp⟩).subset hq
    exact (mem_flatMap_parts region.rects cut p).1 ⟨q, hpart, hpq⟩

theorem pixels_subtract_of_fits {region : Region} {cut : Rect} (hfits : region.Fits cut) :
    region.pixels \ cut.pixels ⊆ (region.subtract cut).pixels := by
  rintro p ⟨hp, hcut⟩
  rw [subtract]
  split
  · exact hp
  · next hsome =>
    obtain ⟨q, hq, hpq⟩ := (mem_flatMap_parts region.rects cut p).2 ⟨hp, hcut⟩
    refine ⟨q, ?_, hpq⟩
    rw [subtractOne_foldl_eq cut region.rects _ (by simpa [hsome, Fits] using hfits)]
    simpa using hq

theorem pixels_foldl_subset (cuts : List Rect) (region : Region) :
    (cuts.foldl subtract region).pixels ⊆ {p ∈ region.pixels | ∀ cut ∈ cuts, p ∉ cut.pixels} := by
  induction cuts generalizing region with
  | nil => simp
  | cons cut cuts ih =>
    intro p hp
    obtain ⟨hleft, hcuts⟩ := ih _ hp
    obtain ⟨hregion, hcut⟩ := pixels_subtract_subset region cut hleft
    exact ⟨hregion, List.forall_mem_cons.2 ⟨hcut, hcuts⟩⟩

theorem pixels_foldl_of_allFit (cuts : List Rect) (region : Region) (hfit : region.AllFit cuts) :
    {p ∈ region.pixels | ∀ cut ∈ cuts, p ∉ cut.pixels} ⊆ (cuts.foldl subtract region).pixels := by
  induction cuts generalizing region with
  | nil => simp
  | cons cut cuts ih =>
    rintro p ⟨hp, hcuts⟩
    obtain ⟨hcut, hcuts⟩ := List.forall_mem_cons.1 hcuts
    exact ih _ hfit.2 ⟨pixels_subtract_of_fits hfit.1 ⟨hp, hcut⟩, hcuts⟩

end Region

/-! ## Regions are lists of disjoint rectangles -/

/-- The calls that change a region. -/
inductive RegionCall where
  | intersect (clip : Rect)
  | subtract (cut : Rect)
deriving DecidableEq

namespace Region

def intersect (region : Region) (clip : Rect) : Region where
  rects := (region.rects.map (·.intersect clip)).filter fun r => !r.isEmpty
  bounded := by
    refine (List.length_filter_le _ _).trans ?_
    simpa using region.bounded

def apply (region : Region) : RegionCall → Region
  | .intersect clip => region.intersect clip
  | .subtract cut => region.subtract cut

/-- No rectangle is empty, and no pixel is in two of them. -/
def Tidy (rects : List Rect) : Prop :=
  (∀ r ∈ rects, ¬r.isEmpty) ∧ rects.Pairwise fun a b => Disjoint a.pixels b.pixels

theorem tidy_parts {r : Rect} (h : ¬r.isEmpty) (cut : Rect) : Tidy (r.parts cut) := by
  rw [Rect.parts]
  split
  · exact ⟨by simpa using h, List.pairwise_singleton _ _⟩
  · next hsome =>
    simp only [Rect.isEmpty, decide_eq_true_eq] at h hsome
    refine ⟨fun q hq => ?_, ?_⟩
    · simp only [List.mem_append, List.mem_ite_nil_right, List.mem_singleton] at hq
      simp only [Rect.isEmpty, decide_eq_true_eq]
      obtain ((⟨_, rfl⟩ | ⟨_, rfl⟩) | ⟨_, rfl⟩) | ⟨_, rfl⟩ := hq <;> dsimp only <;> omega
    · -- any two parts lie on different sides of the cut
      have hone (c : Prop) [Decidable c] (q : Rect) :
          (if c then [q] else []).Pairwise fun a b => Disjoint a.pixels b.pixels := by
        split <;> simp
      simp only [List.pairwise_append, hone, List.mem_append, List.mem_ite_nil_right,
        List.mem_singleton, true_and]
      refine ⟨⟨?_, ?_⟩, ?_⟩
      · rintro a ⟨_, rfl⟩ b ⟨_, rfl⟩
        exact Set.disjoint_left.2 fun p hp hq => by simp only [Rect.mem_pixels] at hp hq; omega
      · rintro a (⟨_, rfl⟩ | ⟨_, rfl⟩) b ⟨_, rfl⟩ <;>
          exact Set.disjoint_left.2 fun p hp hq => by simp only [Rect.mem_pixels] at hp hq; omega
      · rintro a ((⟨_, rfl⟩ | ⟨_, rfl⟩) | ⟨_, rfl⟩) b ⟨_, rfl⟩ <;>
          exact Set.disjoint_left.2 fun p hp hq => by simp only [Rect.mem_pixels] at hp hq; omega

theorem pixels_parts_subset {r q cut : Rect} (h : q ∈ r.parts cut) : q.pixels ⊆ r.pixels :=
  fun p hp => ((Rect.mem_parts r cut p).1 ⟨q, h, hp⟩).1

theorem Tidy.flatMap_parts {rects : List Rect} (h : Tidy rects) (cut : Rect) :
    Tidy (rects.flatMap (·.parts cut)) := by
  induction rects with
  | nil => exact ⟨by simp, List.Pairwise.nil⟩
  | cons r rects ih =>
    obtain ⟨hsome, hapart⟩ := h
    obtain ⟨hr, hsome⟩ := List.forall_mem_cons.1 hsome
    obtain ⟨hfirst, hapart⟩ := List.pairwise_cons.1 hapart
    obtain ⟨hhead, hheadApart⟩ := tidy_parts hr cut
    obtain ⟨htail, htailApart⟩ := ih ⟨hsome, hapart⟩
    refine ⟨List.forall_mem_append.2 ⟨hhead, htail⟩,
      List.pairwise_append.2 ⟨hheadApart, htailApart, fun a ha b hb => ?_⟩⟩
    obtain ⟨r', hr', hb⟩ := List.mem_flatMap.1 hb
    exact (hfirst r' hr').mono (pixels_parts_subset ha) (pixels_parts_subset hb)

theorem Tidy.sublist {rects rects' : List Rect} (h : Tidy rects) (hsub : rects'.Sublist rects) :
    Tidy rects' :=
  ⟨fun r hr => h.1 r (hsub.subset hr), h.2.sublist hsub⟩

theorem tidy_subtract {region : Region} (h : Tidy region.rects) (cut : Rect) :
    Tidy (region.subtract cut).rects := by
  rw [subtract]
  split
  · exact h
  · have hsub := subtractOne_foldl_sublist cut region.rects ⟨[], by simp⟩
    exact (h.flatMap_parts cut).sublist hsub

theorem tidy_intersect {region : Region} (h : Tidy region.rects) (clip : Rect) :
    Tidy (region.intersect clip).rects := by
  refine ⟨fun r hr => by simpa using (List.mem_filter.1 hr).2, List.Pairwise.filter _ ?_⟩
  refine List.pairwise_map.2 (h.2.imp fun hab => hab.mono ?_ ?_) <;>
  · rw [Rect.pixels_intersect]
    exact Set.inter_subset_left

theorem tidy_foldl (calls : List RegionCall) {region : Region} (h : Tidy region.rects) :
    Tidy (calls.foldl apply region).rects := by
  induction calls generalizing region with
  | nil => exact h
  | cons call calls ih =>
    cases call with
    | intersect clip => exact ih (tidy_intersect h clip)
    | subtract cut => exact ih (tidy_subtract h cut)

theorem pixels_intersect (region : Region) (clip : Rect) :
    (region.intersect clip).pixels = region.pixels ∩ clip.pixels := by
  ext p
  simp only [pixels, intersect, List.mem_filter, List.mem_map]
  constructor
  · rintro ⟨_, ⟨⟨r, hr, rfl⟩, -⟩, hp⟩
    rw [Rect.pixels_intersect] at hp
    exact ⟨⟨r, hr, hp.1⟩, hp.2⟩
  · rintro ⟨⟨r, hr, hp⟩, hclip⟩
    have hboth : p ∈ (r.intersect clip).pixels := by
      rw [Rect.pixels_intersect]
      exact ⟨hp, hclip⟩
    refine ⟨_, ⟨⟨r, hr, rfl⟩, ?_⟩, hboth⟩
    by_contra hempty
    rw [Rect.pixels_of_isEmpty (by simpa using hempty)] at hboth
    exact hboth

/-- What any calls make of a rectangle: disjoint rectangles, of which a subtraction leaves nothing
in the cut and adds nothing.  It loses no pixel outside the cut if what is left of the first `n`
rectangles is never more than 32 rectangles. -/
theorem region_exact (r : Rect) (calls : List RegionCall) : let region := calls.foldl apply (set r)
    (set r).pixels = r.pixels ∧
      (region.rects.length ≤ 32 ∧ (∀ q ∈ region.rects, q.pixels.Nonempty) ∧
      region.rects.Pairwise fun a b => Disjoint a.pixels b.pixels) ∧
    (∀ cut, (region.subtract cut).pixels ⊆ region.pixels \ cut.pixels) ∧
    (∀ cut, (∀ n, ((region.rects.take n).flatMap (·.parts cut)).length ≤ 32) →
      (region.subtract cut).pixels = region.pixels \ cut.pixels) ∧
    ∀ clip, (region.intersect clip).pixels = region.pixels ∩ clip.pixels := by
  intro region
  have htidy : Tidy region.rects := by
    apply tidy_foldl calls
    rw [set]
    split
    · exact ⟨by simp, List.Pairwise.nil⟩
    · next hsome => exact ⟨by simpa using hsome, List.pairwise_singleton _ _⟩
  refine ⟨pixels_set r, ⟨region.bounded, fun q hq => ?_, htidy.2⟩, pixels_subtract_subset region,
    fun cut hfits => ?_, pixels_intersect region⟩
  · have hsome := htidy.1 q hq
    simp only [Rect.isEmpty, decide_eq_true_eq] at hsome
    exact ⟨(q.left, q.top), Rect.mem_pixels.2 ⟨by omega, by omega, by omega, by omega⟩⟩
  · have hall := hfits region.rects.length
    rw [List.take_length] at hall
    exact (pixels_subtract_subset region cut).antisymm (pixels_subtract_of_fits (.inr hall))

/-- A rectangle with a hole, clipped. -/
def framed : Region :=
  [RegionCall.subtract ⟨2, 2, 4, 4⟩, .intersect ⟨0, 0, 5, 8⟩].foldl apply (set ⟨0, 0, 8, 8⟩)

/-- Four rectangles are left, and a second hole takes exactly its pixels. -/
theorem region_exact_framed :
    framed.rects = [⟨0, 0, 5, 2⟩, ⟨0, 4, 5, 8⟩, ⟨0, 2, 2, 4⟩, ⟨4, 2, 5, 4⟩] ∧
      (framed.subtract ⟨1, 1, 3, 5⟩).pixels = framed.pixels \ (⟨1, 1, 3, 5⟩ : Rect).pixels ∧
      (0, 0) ∈ (framed.subtract ⟨1, 1, 3, 5⟩).pixels := by
  obtain ⟨-, -, -, hexact, -⟩ := region_exact ⟨0, 0, 8, 8⟩
    [.subtract ⟨2, 2, 4, 4⟩, .intersect ⟨0, 0, 5, 8⟩]
  have hrects : framed.rects = [⟨0, 0, 5, 2⟩, ⟨0, 4, 5, 8⟩, ⟨0, 2, 2, 4⟩, ⟨4, 2, 5, 4⟩] := by
    decide +kernel
  have hsame := hexact ⟨1, 1, 3, 5⟩ fun n =>
    ((List.take_sublist n _).flatMap _).length_le.trans (by decide +kernel)
  refine ⟨hrects, hsame, ?_⟩
  rw [show (framed.subtract ⟨1, 1, 3, 5⟩).pixels = _ from hsame]
  refine ⟨⟨⟨0, 0, 5, 2⟩, ?_, Rect.mem_pixels.2 (by decide)⟩, mt Rect.mem_pixels.1 (by decide)⟩
  show _ ∈ framed.rects
  rw [hrects]
  exact .head _

end Region

/-! ## Painting and hit-testing -/

theorem windowFromPoint_eq_some {s : State} {w : Slot} (hw : w ∈ zOrder s) (x y : Int) :
    windowFromPoint s x y = some w ↔
      (clippedRect s w).contains x y ∧ ∀ v ∈ inFront s w, ¬ (clippedRect s v).contains x y := by
  rw [windowFromPoint, inFront]
  generalize zOrder s = windows at hw ⊢
  induction windows with
  | nil => simp at hw
  | cons v rest ih =>
    by_cases hv : v = w
    · subst hv
      cases hhit : (clippedRect s v).contains x y with
      | true => simp [hhit]
      | false =>
        -- `v` stands in front of all that is left, and has no pixel here: nothing finds it.
        have hnot : rest.find? (fun w => (clippedRect s w).contains x y) ≠ some v := fun hfind => by
          simpa [hhit] using List.find?_some hfind
        simpa [hhit] using hnot
    · have hrest := ih (by simpa [Ne.symm hv] using hw)
      cases hhit : (clippedRect s v).contains x y <;> simp [hhit, hv, hrest]

theorem mem_occluders_iff (s : State) (w : Slot) (p : Int × Int) :
    (∀ cut ∈ occluders s w, p ∉ cut.pixels) ↔
      ∀ v ∈ inFront s w, ¬ (clippedRect s v).contains p.1 p.2 := by
  simp only [occluders, List.forall_mem_map, List.mem_filter, and_imp]
  refine forall₂_congr fun v _ => ⟨fun h hhit => ?_, fun h _ => h⟩
  by_cases hvisible : effectivelyVisible s v
  · exact h hvisible hhit
  · rw [clippedRect, if_neg hvisible] at hhit
    simp [Rect.contains] at hhit
    omega

theorem visibleRegion_hit {s : State} {w : Slot} (hw : w ∈ zOrder s) {p : Int × Int}
    (hp : p ∈ (visibleRegion s [] w).pixels) : windowFromPoint s p.1 p.2 = some w := by
  rw [visibleRegion, List.append_nil] at hp
  obtain ⟨hclip, hcuts⟩ := Region.pixels_foldl_subset _ _ hp
  rw [Region.pixels_set] at hclip
  exact (windowFromPoint_eq_some hw p.1 p.2).2 ⟨hclip, (mem_occluders_iff s w p).1 hcuts⟩

theorem hit_visibleRegion {s : State} {w : Slot} (hw : w ∈ zOrder s) {p : Int × Int}
    (hfit : (Region.set (clippedRect s w)).AllFit (occluders s w))
    (hhit : windowFromPoint s p.1 p.2 = some w) : p ∈ (visibleRegion s [] w).pixels := by
  obtain ⟨hclip, hfront⟩ := (windowFromPoint_eq_some hw p.1 p.2).1 hhit
  rw [visibleRegion, List.append_nil]
  refine Region.pixels_foldl_of_allFit _ _ hfit ⟨?_, (mem_occluders_iff s w p).2 hfront⟩
  rw [Region.pixels_set]
  exact hclip

/-- Painting and hit-testing agree: visible regions are disjoint, a window is found at each pixel
of its visible region, and at no other pixel unless a subtraction dropped fragments. -/
theorem painting_agrees_with_hit_testing (s : State) (w : Slot) (hw : w ∈ zOrder s) :
    (∀ v ∈ zOrder s, v ≠ w → Disjoint (visibleRegion s [] v).pixels (visibleRegion s [] w).pixels) ∧
    (∀ x y, (x, y) ∈ (visibleRegion s [] w).pixels → windowFromPoint s x y = some w) ∧
    ((Region.set (clippedRect s w)).AllFit (occluders s w) →
      ∀ x y, windowFromPoint s x y = some w → (x, y) ∈ (visibleRegion s [] w).pixels) := by
  refine ⟨fun v hv hne => ?_, fun x y hp => visibleRegion_hit hw hp,
    fun hfit x y hhit => hit_visibleRegion hw hfit hhit⟩
  rw [Set.disjoint_left]
  intro p hpv hpw
  have hfound := (visibleRegion_hit hv hpv).symm.trans (visibleRegion_hit hw hpw)
  exact hne (Option.some.inj hfound)

/-- A window over the corner of another. -/
def overCorner : State :=
  let base := State.booted ⟨16, 16, fun _ => 0⟩
  { base with
    window := fun i => { style := { visible := true },
                         rect := if i = 0 then ⟨0, 0, 20, 20⟩ else ⟨10, 10, 30, 30⟩ }
    links := ⟨fun i => if i = 0 then some 1 else none, fun i => if i = 1 then some 0 else none⟩
    top := some 0
    screen := ⟨0, 0, 640, 480⟩ }

theorem painting_agrees_with_hit_testing_corner :
    Disjoint (visibleRegion overCorner [] 0).pixels (visibleRegion overCorner [] 1).pixels ∧
      (25, 15) ∈ (visibleRegion overCorner [] 1).pixels ∧
      (visibleRegion overCorner [] 1).rects = [⟨10, 20, 30, 30⟩, ⟨20, 10, 30, 20⟩] := by
  obtain ⟨hapart, -, hhit⟩ := painting_agrees_with_hit_testing overCorner 1 (by decide +kernel)
  refine ⟨hapart 0 (by decide +kernel) (by decide), hhit ⟨.inr ?_, trivial⟩ 25 15 ?_, ?_⟩ <;>
    decide +kernel

end UnDOS.User
