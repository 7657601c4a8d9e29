import Mathlib.Data.List.Chain
import UnDOS.Loader.MemoryMap

/-!
# Direct Loader: What the Memory Map Says

The points of the sweep are the ends of all intervals, so no interval starts or ends between
two neighbours: one test of containment classifies every address between them
(`selectType_eq`).  The run of the sweep then keeps `Swept`: the output describes all addresses
below the present point.
-/

namespace UnDOS.Loader

open UnDOS.Lib UnDOS.Lib.Outcome

/-! ## Pages of a raw region -/

/-- The raw region decides about a page below the managed limit: available memory has to hold
    the whole page, everything else only has to meet it. -/
def RawMemoryRegion.Claims (raw : RawMemoryRegion) (page : Nat) : Prop :=
  if raw.type = grubMemoryAvailable then
    raw.base.toNat ≤ udlPageSize * page ∧
      udlPageSize * (page + 1) ≤ raw.base.toNat + raw.length.toNat
  else
    raw.base.toNat < udlPageSize * (page + 1) ∧
      udlPageSize * page < raw.base.toNat + raw.length.toNat ∧ raw.length ≠ 0

instance (raw : RawMemoryRegion) (page : Nat) : Decidable (raw.Claims page) := by
  unfold RawMemoryRegion.Claims
  infer_instance

/-- A raw region of type `type` decides about the page. -/
def Claimed (raw : List RawMemoryRegion) (type : MemoryType) (page : Nat) : Prop :=
  ∃ r ∈ raw, r.memoryType = type ∧ r.Claims page

instance (raw : List RawMemoryRegion) (type : MemoryType) (page : Nat) :
    Decidable (Claimed raw type page) := by
  unfold Claimed
  infer_instance

/-- What the map should say about a page: the first mebibyte is reserved, and elsewhere the
    type of highest priority decides. -/
def pageType (raw : List RawMemoryRegion) (page : Nat) : Option MemoryType :=
  if udlPageSize * page < udlLowReservedLimit then some .reserved
  else if Claimed raw .reserved page then some .reserved
  else if Claimed raw .acpiReclaim page then some .acpiReclaim
  else if Claimed raw .available page then some .available
  else none

/-- The number of pages below the managed limit. -/
def managedPages : Nat := udlManagedLimit / udlPageSize

/-! ## Intervals -/

/-- Whole pages below the managed limit. -/
structure Interval.Ok (i : Interval) : Prop where
  nonempty : i.start < i.fin
  start : udlPageSize ∣ i.start
  fin : udlPageSize ∣ i.fin
  limit : i.fin ≤ udlManagedLimit

/-- The page lies inside the interval. -/
def Interval.Holds (i : Interval) (page : Nat) : Prop :=
  i.start ≤ udlPageSize * page ∧ udlPageSize * (page + 1) ≤ i.fin

theorem roundDown_dvd (value : Nat) : udlPageSize ∣ roundDown value := dvd_mul_left _ _

theorem roundUp_dvd (value : Nat) : udlPageSize ∣ roundUp value := dvd_mul_left _ _

variable {value page span : Nat} {raw : List RawMemoryRegion} {intervals : List Interval}
  {regions map : List MemoryRegion}

theorem roundUp_le_iff (h : value < udlManagedLimit + 1) :
    roundUp value ≤ udlPageSize * page ↔ value ≤ udlPageSize * page := by
  unfold roundUp udlManagedLimit udlPageSize at *
  omega

theorem le_roundDown_iff : udlPageSize * page ≤ roundDown value ↔ udlPageSize * page ≤ value := by
  unfold roundDown udlPageSize
  omega

theorem roundDown_le_iff :
    roundDown value ≤ udlPageSize * page ↔ value < udlPageSize * (page + 1) := by
  unfold roundDown udlPageSize
  omega

theorem le_roundUp_iff (h : value < udlManagedLimit + 1) :
    udlPageSize * (page + 1) ≤ roundUp value ↔ udlPageSize * page < value := by
  unfold roundUp udlManagedLimit udlPageSize at *
  omega

theorem roundDown_le (value : Nat) : roundDown value ≤ value := by
  unfold roundDown udlPageSize
  omega

theorem page_lt_iff : page < managedPages ↔ udlPageSize * (page + 1) ≤ udlManagedLimit := by
  unfold managedPages udlPageSize
  omega

theorem managedLimit_dvd : udlPageSize ∣ udlManagedLimit := by decide

theorem not_claims_of_empty {raw : RawMemoryRegion} (h : raw.length = 0) (page : Nat) :
    ¬raw.Claims page := by
  unfold RawMemoryRegion.Claims
  rw [h]
  split
  · rw [UInt64.toNat_zero]
    unfold udlPageSize
    omega
  · exact fun hclaims => hclaims.2.2 rfl

theorem not_claims_of_high {raw : RawMemoryRegion} (h : udlManagedLimit ≤ raw.base.toNat)
    (hpage : page < managedPages) : ¬raw.Claims page := by
  rw [page_lt_iff] at hpage
  unfold RawMemoryRegion.Claims
  split
  · unfold udlPageSize at *
    omega
  · omega

theorem clip_eq (value : Nat) :
    (if udlManagedLimit < value then udlManagedLimit else value) = min udlManagedLimit value := by
  split <;> omega

/-- The interval of a raw region, before it is dropped for having no page. -/
def RawMemoryRegion.pages (raw : RawMemoryRegion) : Interval :=
  let clipped := min udlManagedLimit (raw.base.toNat + raw.length.toNat)
  if raw.type = grubMemoryAvailable then
    { start := roundUp raw.base.toNat, fin := roundDown clipped, type := raw.memoryType }
  else
    { start := roundDown raw.base.toNat
      fin := min udlManagedLimit (roundUp clipped)
      type := raw.memoryType }

theorem pages_holds {raw : RawMemoryRegion} (hne : raw.length ≠ 0)
    (hbase : raw.base.toNat < udlManagedLimit) (hpage : page < managedPages) :
    raw.pages.Holds page ↔ raw.Claims page := by
  rw [page_lt_iff] at hpage
  unfold RawMemoryRegion.pages RawMemoryRegion.Claims Interval.Holds
  by_cases havailable : raw.type = grubMemoryAvailable
  · rw [if_pos havailable, if_pos havailable]
    rw [roundUp_le_iff (Nat.lt_succ_of_lt hbase), le_roundDown_iff, le_min_iff]
    exact and_congr_right fun _ => and_iff_right hpage
  · rw [if_neg havailable, if_neg havailable]
    rw [roundDown_le_iff, le_min_iff, le_roundUp_iff (by omega), lt_min_iff]
    refine and_congr_right fun _ => ?_
    have hlow : udlPageSize * page < udlManagedLimit := by
      unfold udlPageSize at *
      omega
    exact ⟨fun h => ⟨h.2.2, hne⟩, fun h => ⟨hpage, hlow, h.1⟩⟩

theorem pages_dvd (raw : RawMemoryRegion) :
    udlPageSize ∣ raw.pages.start ∧ udlPageSize ∣ raw.pages.fin ∧
      raw.pages.fin ≤ udlManagedLimit := by
  unfold RawMemoryRegion.pages
  dsimp only
  split
  · exact ⟨roundUp_dvd _, roundDown_dvd _, (roundDown_le _).trans (min_le_left _ _)⟩
  · refine ⟨roundDown_dvd _, ?_, min_le_left _ _⟩
    rcases min_choice udlManagedLimit
      (roundUp (min udlManagedLimit (raw.base.toNat + raw.length.toNat))) with h | h
    · rw [h]
      exact managedLimit_dvd
    · rw [h]
      exact roundUp_dvd _

theorem pages_type (raw : RawMemoryRegion) : raw.pages.type = raw.memoryType := by
  unfold RawMemoryRegion.pages
  split <;> rfl

theorem rawInterval_spec {raw : RawMemoryRegion} {o : Option Interval}
    (h : rawInterval raw = .ok o) : (o = none ∧ ∀ page < managedPages, ¬raw.Claims page) ∨
      ∃ i, o = some i ∧ i.Ok ∧ i.type = raw.memoryType ∧
        ∀ page < managedPages, i.Holds page ↔ raw.Claims page := by
  unfold rawInterval at h
  by_cases hempty : raw.length = 0
  · rw [if_pos hempty] at h
    cases h
    exact .inl ⟨rfl, fun page _ => not_claims_of_empty hempty page⟩
  rw [if_neg hempty] at h
  by_cases hwrap : (raw.base.toNat + raw.length.toNat) % 2 ^ 64 < raw.base.toNat
  · rw [if_pos hwrap] at h
    cases h
  rw [if_neg hwrap] at h
  by_cases hhigh : udlManagedLimit ≤ raw.base.toNat
  · rw [if_pos hhigh] at h
    cases h
    exact .inl ⟨rfl, fun page hpage => not_claims_of_high hhigh hpage⟩
  rw [if_neg hhigh] at h
  -- The sum did not wrap, so the code works with the true end of the region.
  have hsum : (raw.base.toNat + raw.length.toNat) % 2 ^ 64 =
      raw.base.toNat + raw.length.toNat := by
    have hl := raw.length.toNat_lt
    omega
  rw [hsum] at h
  simp only [clip_eq] at h
  change (if raw.pages.fin ≤ raw.pages.start then Outcome.ok none
    else Outcome.ok (some raw.pages)) = Outcome.ok o at h
  obtain ⟨hstart, hfin, hlimit⟩ := pages_dvd raw
  have hholds : ∀ page, page < managedPages → (raw.pages.Holds page ↔ raw.Claims page) :=
    fun _ hpage => pages_holds hempty (Nat.lt_of_not_le hhigh) hpage
  by_cases hnone : raw.pages.fin ≤ raw.pages.start
  · rw [if_pos hnone] at h
    cases h
    refine .inl ⟨rfl, fun page hpage hclaims => ?_⟩
    obtain ⟨hlow, hup⟩ := (hholds page hpage).2 hclaims
    unfold udlPageSize at hlow hup
    omega
  · rw [if_neg hnone] at h
    cases h
    exact .inr ⟨_, rfl, ⟨Nat.lt_of_not_le hnone, hstart, hfin, hlimit⟩, pages_type raw, hholds⟩

/-! ## The first loop -/

/-- What the intervals and the points say about the raw regions seen so far. -/
structure Collected (raw : List RawMemoryRegion) (intervals : List Interval)
    (points : List Nat) : Prop where
  ok : ∀ i ∈ intervals, i.Ok
  claimed : ∀ type, ∀ page < managedPages,
    (∃ i ∈ intervals, i.type = type ∧ i.Holds page) ↔ Claimed raw type page
  ends : ∀ i ∈ intervals, i.start ∈ points ∧ i.fin ∈ points
  zero : 0 ∈ points
  low : udlLowReservedLimit ∈ points
  points : ∀ p ∈ points, udlPageSize ∣ p ∧ p ≤ udlManagedLimit

theorem Collected.start : Collected [] [] [0, udlLowReservedLimit] where
  ok _ hi := nomatch hi
  claimed type page _ := by simp [Claimed]
  ends _ hi := nomatch hi
  zero := by simp
  low := by simp
  points := by decide

theorem Collected.skip
    {points : List Nat} (C : Collected raw intervals points) {r : RawMemoryRegion}
    (hr : ∀ page < managedPages, ¬r.Claims page) : Collected (raw ++ [r]) intervals points where
  ok := C.ok
  claimed type page hpage := by
    rw [C.claimed type page hpage]
    constructor
    · rintro ⟨r', hr', hclaims⟩
      exact ⟨r', List.mem_append_left _ hr', hclaims⟩
    · rintro ⟨r', hr', htype, hclaims⟩
      rcases List.mem_append.1 hr' with hold | hnew
      · exact ⟨r', hold, htype, hclaims⟩
      · rw [List.mem_singleton.1 hnew] at hclaims
        exact absurd hclaims (hr page hpage)
  ends := C.ends
  zero := C.zero
  low := C.low
  points := C.points

theorem Collected.push
    {points : List Nat} (C : Collected raw intervals points) {r : RawMemoryRegion} {i : Interval}
    (hi : i.Ok) (htype : i.type = r.memoryType)
    (hclaims : ∀ page < managedPages, i.Holds page ↔ r.Claims page) :
    Collected (raw ++ [r]) (intervals ++ [i]) (points ++ [i.start, i.fin]) where
  ok j hj := by
    rcases List.mem_append.1 hj with hold | hnew
    · exact C.ok j hold
    · rw [List.mem_singleton.1 hnew]
      exact hi
  claimed type page hpage := by
    have hold := C.claimed type page hpage
    have hnew := hclaims page hpage
    unfold Claimed at *
    simp only [List.mem_append, List.mem_singleton, or_and_right, exists_or, exists_eq_left]
    rw [hold, htype, hnew]
  ends j hj := by
    rcases List.mem_append.1 hj with hold | hnew
    · exact ⟨List.mem_append_left _ (C.ends j hold).1, List.mem_append_left _ (C.ends j hold).2⟩
    · rw [List.mem_singleton.1 hnew]
      exact ⟨by simp, by simp⟩
  zero := List.mem_append_left _ C.zero
  low := List.mem_append_left _ C.low
  points p hp := by
    rcases List.mem_append.1 hp with hold | hnew
    · exact C.points p hold
    · have hle := hi.limit
      have hlt := hi.nonempty
      rcases List.mem_pair.1 hnew with rfl | rfl
      · exact ⟨hi.start, by omega⟩
      · exact ⟨hi.fin, hle⟩

theorem collect_spec {rest : List RawMemoryRegion} {intervals' : List Interval}
    {points points' : List Nat} (C : Collected raw intervals points)
    (h : collect rest intervals points = .ok (intervals', points')) :
    Collected (raw ++ rest) intervals' points' := by
  induction rest generalizing raw intervals points with
  | nil =>
    cases h
    rw [List.append_nil]
    exact C
  | cons r rest ih =>
    obtain ⟨o, ho, hnext⟩ := bind_eq_ok h
    rw [List.append_cons]
    rcases rawInterval_spec ho with ⟨rfl, hnone⟩ | ⟨i, rfl, hok, htype, hclaims⟩
    · exact ih (C.skip hnone) hnext
    · dsimp only at hnext
      split at hnext
      · cases hnext
      · exact ih (C.push hok htype hclaims) hnext

/-! ## The sorted points -/

theorem sortPoints_sorted (points : List Nat) : (sortPoints points).Pairwise (· ≤ ·) := by
  unfold sortPoints
  rw [List.pairwise_reverse]
  suffices h : ∀ done : List Nat, done.Pairwise (fun a b => b ≤ a) →
      (points.foldl (fun done value => done.orderedInsert (fun a b => b ≤ a) value) done).Pairwise
        fun a b => b ≤ a from h [] .nil
  induction points with
  | nil => exact fun done hdone => hdone
  | cons value points ih =>
    intro done hdone
    exact ih _ (hdone.orderedInsert value)

theorem sortPoints_perm (points : List Nat) : (sortPoints points).Perm points := by
  apply (List.reverse_perm _).trans
  suffices h : ∀ done : List Nat,
      (points.foldl (fun done value => done.orderedInsert (fun a b => b ≤ a) value) done).Perm
        (points ++ done) by
    have hnil := h []
    rwa [List.append_nil] at hnil
  induction points with
  | nil => exact fun done => .refl _
  | cons value points ih =>
    intro done
    exact (ih _).trans (((List.perm_orderedInsert _ value done).append_left points).trans
      List.perm_middle)

/-! ## The sweep -/

/-- The type that the intervals give an address. -/
def typeOf (intervals : List Interval) (address : Nat) : Option MemoryType :=
  if address < udlLowReservedLimit then some .reserved
  else
    intervals.foldl (fun selected r =>
      if r.start ≤ address ∧ address < r.fin ∧
        intervalPriority selected < intervalPriority (some r.type)
      then some r.type else selected) none

/-- No point lies strictly between the two. -/
def Neighbours (intervals : List Interval) (start fin : Nat) : Prop :=
  (udlLowReservedLimit ≤ start ∨ fin ≤ udlLowReservedLimit) ∧
    ∀ i ∈ intervals, (i.start ≤ start ∨ fin ≤ i.start) ∧ (i.fin ≤ start ∨ fin ≤ i.fin)

/-- One test of containment decides for all addresses between two neighbours. -/
theorem selectType_eq {start fin address : Nat}
    (N : Neighbours intervals start fin) (hstart : start ≤ address) (hfin : address < fin) :
    selectType intervals start fin = typeOf intervals address := by
  obtain ⟨hlow, hends⟩ := N
  have hiff : start < udlLowReservedLimit ↔ address < udlLowReservedLimit := by omega
  unfold selectType typeOf
  simp only [hiff]
  congr 1
  refine List.foldl_ext _ _ _ fun selected i hi => ?_
  have hinside : i.start ≤ start ∧ fin ≤ i.fin ↔ i.start ≤ address ∧ address < i.fin := by
    have hi := hends i hi
    omega
  simp only [← and_assoc, hinside]

/-- The address lies in a region of type `type`. -/
def RegionAt (regions : List MemoryRegion) (address : Nat) (type : MemoryType) : Prop :=
  ∃ r ∈ regions, r.base ≤ address ∧ address < r.base + r.length ∧ r.type = type

/-- Whole pages. -/
structure MemoryRegion.Ok (r : MemoryRegion) : Prop where
  nonempty : 0 < r.length
  base : udlPageSize ∣ r.base
  length : udlPageSize ∣ r.length

/-- The output, its last region first, describes the addresses below `upto`. -/
structure Swept (intervals : List Interval) (upto : Nat) (regions : List MemoryRegion) :
    Prop where
  limit : upto ≤ udlManagedLimit
  ok : ∀ r ∈ regions, r.Ok ∧ r.base + r.length ≤ upto
  sorted : regions.Pairwise fun later earlier => earlier.base + earlier.length ≤ later.base
  merged : regions.IsChain fun later earlier =>
    earlier.base + earlier.length = later.base → earlier.type ≠ later.type
  types : ∀ address < upto, ∀ type,
    RegionAt regions address type ↔ typeOf intervals address = some type

namespace Swept

variable {intervals : List Interval} {upto fin : Nat} {regions regions' : List MemoryRegion}

theorem skip (S : Swept intervals upto regions) (hle : upto ≤ fin) (hlimit : fin ≤ udlManagedLimit)
    (hnone : ∀ address, upto ≤ address → address < fin → typeOf intervals address = none) :
    Swept intervals fin regions where
  limit := hlimit
  ok r hr := ⟨(S.ok r hr).1, (S.ok r hr).2.trans hle⟩
  sorted := S.sorted
  merged := S.merged
  types address haddress type := by
    by_cases hold : address < upto
    · exact S.types address hold type
    · rw [hnone address (Nat.le_of_not_lt hold) haddress]
      constructor
      · rintro ⟨r, hr, -, hend, -⟩
        have hle := (S.ok r hr).2
        omega
      · exact fun h => by cases h

theorem types_of_piece (S : Swept intervals upto regions) {type : MemoryType}
    (hpiece : ∀ address, upto ≤ address → address < fin → typeOf intervals address = some type)
    (hregions : ∀ address t, RegionAt regions' address t ↔
      RegionAt regions address t ∨ (upto ≤ address ∧ address < fin ∧ type = t)) :
    ∀ address < fin, ∀ t, RegionAt regions' address t ↔ typeOf intervals address = some t := by
  intro address haddress t
  rw [hregions]
  by_cases hold : address < upto
  · rw [S.types address hold t]
    exact or_iff_left fun h => absurd h.1 (Nat.not_le_of_lt hold)
  · have hge := Nat.le_of_not_lt hold
    rw [hpiece address hge haddress, Option.some.injEq]
    constructor
    · rintro (⟨r, hr, -, hend, -⟩ | h)
      · have hle := (S.ok r hr).2
        omega
      · exact h.2.2
    · exact fun h => .inr ⟨hge, haddress, h⟩

theorem push (S : Swept intervals upto regions) {type : MemoryType} (hlt : upto < fin)
    (hlimit : fin ≤ udlManagedLimit) (hupto : udlPageSize ∣ upto) (hfin : udlPageSize ∣ fin)
    (hpiece : ∀ address, upto ≤ address → address < fin → typeOf intervals address = some type)
    (hhead : ∀ last ∈ regions.head?, last.base + last.length = upto → last.type ≠ type) :
    Swept intervals fin ({ base := upto, length := fin - upto, type := type } :: regions) where
  limit := hlimit
  ok r hr := by
    rcases List.mem_cons.1 hr with rfl | hold
    · exact ⟨⟨Nat.sub_pos_of_lt hlt, hupto, Nat.dvd_sub hfin hupto⟩, by dsimp only; omega⟩
    · exact ⟨(S.ok r hold).1, (S.ok r hold).2.trans hlt.le⟩
  sorted := List.pairwise_cons.2 ⟨fun r hr => (S.ok r hr).2, S.sorted⟩
  merged := S.merged.cons hhead
  types := by
    refine S.types_of_piece hpiece fun address t => ?_
    unfold RegionAt
    rw [List.exists_mem_cons_iff, or_comm]
    rw [Nat.add_sub_cancel' hlt.le]

theorem lengthen {last : MemoryRegion} {rest : List MemoryRegion} {type : MemoryType}
    (S : Swept intervals upto (last :: rest)) (hlt : upto < fin) (hlimit : fin ≤ udlManagedLimit)
    (hupto : udlPageSize ∣ upto) (hfin : udlPageSize ∣ fin)
    (hpiece : ∀ address, upto ≤ address → address < fin → typeOf intervals address = some type)
    (hend : last.base + last.length = upto) (htype : last.type = type) :
    Swept intervals fin ({ last with length := last.length + (fin - upto) } :: rest) where
  limit := hlimit
  ok r hr := by
    have hlast := (S.ok last (.head _)).1
    rcases List.mem_cons.1 hr with rfl | hold
    · refine ⟨⟨Nat.add_pos_left hlast.nonempty _, hlast.base,
        (Nat.dvd_add_right hlast.length).2 (Nat.dvd_sub hfin hupto)⟩, ?_⟩
      dsimp only
      omega
    · have h := S.ok r (.tail _ hold)
      exact ⟨h.1, h.2.trans hlt.le⟩
  sorted := by
    obtain ⟨hhead, htail⟩ := List.pairwise_cons.1 S.sorted
    exact List.pairwise_cons.2 ⟨hhead, htail⟩
  merged := by
    obtain ⟨hhead, htail⟩ := List.isChain_cons.1 S.merged
    exact List.isChain_cons.2 ⟨hhead, htail⟩
  types := by
    refine S.types_of_piece hpiece fun address t => ?_
    unfold RegionAt
    rw [List.exists_mem_cons_iff, List.exists_mem_cons_iff, or_right_comm]
    apply or_congr_left
    dsimp only
    rw [htype, ← and_assoc, ← and_assoc, ← and_assoc, ← or_and_right]
    exact and_congr_left fun _ => by omega

end Swept

theorem wrap32_of_managed (h : value ≤ udlManagedLimit) : wrap32 value = value := by
  apply wrap32_of_lt
  unfold udlManagedLimit at h
  omega

theorem emit_swept {start fin : Nat} {regions' : List MemoryRegion} {type : MemoryType}
    (S : Swept intervals start regions) (hlt : start < fin) (hlimit : fin ≤ udlManagedLimit)
    (hstart : udlPageSize ∣ start) (hfin : udlPageSize ∣ fin)
    (hpiece : ∀ address, start ≤ address → address < fin → typeOf intervals address = some type)
    (h : emit regions start fin type = .ok regions') : Swept intervals fin regions' := by
  have hwrap : wrap32 start = start := wrap32_of_managed S.limit
  have hwrap' : wrap32 (fin - start) = fin - start := wrap32_of_managed (by omega)
  unfold emit at h
  rw [hwrap, hwrap'] at h
  cases regions with
  | nil =>
    cases h
    exact S.push hlt hlimit hstart hfin hpiece fun _ hlast => by cases hlast
  | cons last rest =>
    dsimp only at h
    by_cases hmerge : last.base + last.length = start ∧ last.type = type
    · rw [if_pos hmerge, wrap32_of_managed (by omega)] at h
      cases h
      exact S.lengthen hlt hlimit hstart hfin hpiece hmerge.1 hmerge.2
    · rw [if_neg hmerge] at h
      split at h
      · cases h
      · cases h
        refine S.push hlt hlimit hstart hfin hpiece fun r hr hend => ?_
        cases hr
        exact fun htype => hmerge ⟨hend, htype⟩

/-- The output describes the memory below every point that the sweep has passed. -/
theorem sweep_swept {all : List Nat}
    (hends : ∀ i ∈ intervals, i.start ∈ all ∧ i.fin ∈ all) (hlow : udlLowReservedLimit ∈ all)
    (hall : ∀ p ∈ all, udlPageSize ∣ p ∧ p ≤ udlManagedLimit) {rest : List Nat}
    {start previous : Nat} {regions' : List MemoryRegion}
    (hrest : ∀ p ∈ start :: rest, p ∈ all) (hcover : ∀ q ∈ all, q ≤ start ∨ q ∈ rest)
    (hsorted : (start :: rest).Pairwise (· ≤ ·)) (hprevious : ∀ p ∈ start :: rest, p ≠ previous)
    (S : Swept intervals start regions)
    (h : sweep intervals previous (start :: rest) regions = .ok regions') :
    ∃ last, (∀ q ∈ all, q ≤ last) ∧ Swept intervals last regions' := by
  induction rest generalizing start previous regions with
  | nil =>
    cases h
    exact ⟨start, fun q hq => (hcover q hq).resolve_right List.not_mem_nil, S⟩
  | cons fin rest ih =>
    obtain ⟨hle, htail⟩ := List.pairwise_cons.1 hsorted
    have hmem : ∀ p ∈ fin :: rest, p ∈ all := fun p hp => hrest p (.tail _ hp)
    have hnext : ∀ q ∈ all, q ≤ start ∨ fin ≤ q := fun q hq => by
      rcases hcover q hq with hold | hnew
      · exact .inl hold
      · rcases List.mem_cons.1 hnew with rfl | hlater
        · exact .inr le_rfl
        · exact .inr ((List.pairwise_cons.1 htail).1 q hlater)
    have hcover' : ∀ q ∈ all, q ≤ fin ∨ q ∈ rest := fun q hq => by
      rcases hcover q hq with hold | hnew
      · exact .inl (hold.trans (hle fin (.head _)))
      · rcases List.mem_cons.1 hnew with rfl | hlater
        · exact .inl le_rfl
        · exact .inr hlater
    unfold sweep at h
    by_cases heq : start = fin
    · -- A point that occurs twice: nothing lies between.
      subst heq
      rw [if_pos (.inl rfl)] at h
      exact ih hmem hcover' htail (fun p hp => hprevious p (.tail _ hp)) S h
    · have hlt : start < fin := lt_of_le_of_ne (hle fin (.head _)) heq
      rw [if_neg (not_or.2 ⟨heq, hprevious start (.head _)⟩)] at h
      have hlimit := (hall fin (hmem fin (.head _))).2
      have N : Neighbours intervals start fin := by
        refine ⟨?_, fun i hi => ⟨hnext _ (hends i hi).1, hnext _ (hends i hi).2⟩⟩
        have h := hnext _ hlow
        omega
      have hprevious' : ∀ p ∈ fin :: rest, p ≠ start := fun p hp => by
        rcases List.mem_cons.1 hp with rfl | hlater
        · exact Ne.symm heq
        · have hge := (List.pairwise_cons.1 htail).1 p hlater
          omega
      cases htype : selectType intervals start fin with
      | none =>
        rw [htype] at h
        refine ih hmem hcover' htail hprevious' (S.skip hlt.le hlimit fun address hs hf => ?_) h
        rw [← selectType_eq N hs hf, htype]
      | some type =>
        rw [htype] at h
        obtain ⟨regions₁, hemit, hgo⟩ := bind_eq_ok h
        refine ih hmem hcover' htail hprevious' ?_ hgo
        refine emit_swept S hlt hlimit (hall start (hrest start (.head _))).1
          (hall fin (hmem fin (.head _))).1 (fun address hs hf => ?_) hemit
        rw [← selectType_eq N hs hf, htype]

/-! ## The type of highest priority -/

theorem intervalPriority_injective : Function.Injective intervalPriority := by
  rintro (_ | _ | _ | _) (_ | _ | _ | _) h <;> first | rfl | cases h

theorem foldl_priority (p : Interval → Prop) [DecidablePred p] (l : List Interval)
    (selected : Option MemoryType) (t : MemoryType) : l.foldl (fun selected r =>
        if p r ∧ intervalPriority selected < intervalPriority (some r.type)
        then some r.type else selected) selected = some t ↔
      (selected = some t ∨ ∃ r ∈ l, p r ∧ r.type = t) ∧
        intervalPriority selected ≤ intervalPriority (some t) ∧
        ∀ r ∈ l, p r → intervalPriority (some r.type) ≤ intervalPriority (some t) := by
  induction l generalizing selected with
  | nil =>
    constructor
    · rintro rfl
      exact ⟨.inl rfl, le_rfl, fun r hr => nomatch hr⟩
    · rintro ⟨h | ⟨r, hr, -⟩, -⟩
      · exact h
      · exact nomatch hr
  | cons r l ih =>
    rw [List.foldl_cons, ih]
    simp only [List.exists_mem_cons_iff, List.forall_mem_cons]
    by_cases hr : p r ∧ intervalPriority selected < intervalPriority (some r.type)
    · rw [if_pos hr, Option.some.injEq]
      constructor
      · rintro ⟨hfound, hle, hrest⟩
        refine ⟨?_, (hr.2.trans_le hle).le, fun _ => hle, hrest⟩
        rcases hfound with heq | hfound
        · exact .inr (.inl ⟨hr.1, heq⟩)
        · exact .inr (.inr hfound)
      · rintro ⟨hfound, -, hle, hrest⟩
        refine ⟨?_, hle hr.1, hrest⟩
        rcases hfound with heq | heq | hfound
        · -- The old selection has lower priority than `r`, so it is not the result.
          rw [heq] at hr
          exact absurd (hle hr.1) (Nat.not_le_of_lt hr.2)
        · exact .inl heq.2
        · exact .inr hfound
    · rw [if_neg hr]
      have hlow : p r → intervalPriority (some r.type) ≤ intervalPriority selected :=
        fun hp => Nat.le_of_not_lt fun hlt => hr ⟨hp, hlt⟩
      constructor
      · rintro ⟨hfound, hle, hrest⟩
        refine ⟨?_, hle, fun hp => (hlow hp).trans hle, hrest⟩
        rcases hfound with heq | hfound
        · exact .inl heq
        · exact .inr (.inr hfound)
      · rintro ⟨hfound, hle, -, hrest⟩
        refine ⟨?_, hle, hrest⟩
        rcases hfound with heq | ⟨hp, rfl⟩ | hfound
        · exact .inl heq
        · exact .inl (intervalPriority_injective (le_antisymm hle (hlow hp)))
        · exact .inr hfound

theorem Interval.Ok.holds_iff {i : Interval} (h : i.Ok) (page : Nat) :
    i.Holds page ↔ i.start ≤ udlPageSize * page ∧ udlPageSize * page < i.fin := by
  obtain ⟨start, hstart⟩ := h.start
  obtain ⟨fin, hfin⟩ := h.fin
  unfold Interval.Holds
  rw [hfin]
  unfold udlPageSize
  omega

theorem pageType_eq_some (hpage : ¬udlPageSize * page < udlLowReservedLimit) (t : MemoryType) :
    pageType raw page = some t ↔ Claimed raw t page ∧
      ∀ t', Claimed raw t' page → intervalPriority (some t') ≤ intervalPriority (some t) := by
  unfold pageType
  rw [if_neg hpage]
  have hall : ∀ P : MemoryType → Prop,
      (∀ t, P t) ↔ P .available ∧ P .reserved ∧ P .acpiReclaim := fun P =>
    ⟨fun h => ⟨h _, h _, h _⟩, fun ⟨ha, hr, hc⟩ t => by cases t <;> assumption⟩
  rw [hall]
  by_cases hr : Claimed raw .reserved page
  · cases t <;> simp [hr, intervalPriority]
  · by_cases hc : Claimed raw .acpiReclaim page
    · cases t <;> simp [hr, hc, intervalPriority]
    · cases t <;> simp [hr, hc]

theorem Collected.typeOf_eq {points : List Nat} (C : Collected raw intervals points)
    (hpage : page < managedPages) : typeOf intervals (udlPageSize * page) = pageType raw page := by
  by_cases hlow : udlPageSize * page < udlLowReservedLimit
  · unfold typeOf pageType
    rw [if_pos hlow, if_pos hlow]
  · refine Option.ext fun t => ?_
    rw [pageType_eq_some hlow, typeOf, if_neg hlow]
    simp only [← and_assoc]
    rw [foldl_priority]
    have hholds : ∀ i ∈ intervals, (i.start ≤ udlPageSize * page ∧ udlPageSize * page < i.fin) ↔
        i.Holds page := fun i hi => ((C.ok i hi).holds_iff page).symm
    constructor
    · rintro ⟨hfound, -, hmax⟩
      obtain ⟨i, hi, hin, htype⟩ := hfound.resolve_left (by simp)
      refine ⟨(C.claimed t page hpage).1 ⟨i, hi, htype, (hholds i hi).1 hin⟩, fun t' ht' => ?_⟩
      obtain ⟨j, hj, rfl, hjholds⟩ := (C.claimed t' page hpage).2 ht'
      exact hmax j hj ((hholds j hj).2 hjholds)
    · rintro ⟨hclaimed, hmax⟩
      obtain ⟨i, hi, htype, hin⟩ := (C.claimed t page hpage).2 hclaimed
      refine ⟨.inr ⟨i, hi, (hholds i hi).2 hin, htype⟩, Nat.zero_le _, fun j hj hjin => ?_⟩
      exact hmax _ ((C.claimed j.type page hpage).1 ⟨j, hj, rfl, (hholds j hj).1 hjin⟩)

/-! ## The normalized map -/

/-- Whole pages below the managed limit, in order, and no two regions that could be one. -/
structure Normalized (regions : List MemoryRegion) : Prop where
  ok : ∀ r ∈ regions, r.Ok ∧ r.base + r.length ≤ udlManagedLimit
  sorted : regions.Pairwise fun a b => a.base < b.base ∧ a.base + a.length ≤ b.base
  merged : regions.IsChain fun a b => a.base + a.length = b.base → a.type ≠ b.type

/-- The page lies inside the region. -/
def MemoryRegion.Holds (r : MemoryRegion) (page : Nat) : Prop :=
  r.base ≤ udlPageSize * page ∧ udlPageSize * (page + 1) ≤ r.base + r.length

theorem MemoryRegion.Ok.holds_iff {r : MemoryRegion} (h : r.Ok) (page : Nat) :
    r.Holds page ↔ r.base ≤ udlPageSize * page ∧ udlPageSize * page < r.base + r.length := by
  obtain ⟨base, hbase⟩ := h.base
  obtain ⟨length, hlength⟩ := h.length
  unfold MemoryRegion.Holds
  rw [hbase, hlength]
  unfold udlPageSize
  omega

theorem Swept.normalized {upto : Nat}
    (S : Swept intervals upto regions) : Normalized regions.reverse where
  ok r hr := by
    obtain ⟨hok, hle⟩ := S.ok r (List.mem_reverse.1 hr)
    exact ⟨hok, hle.trans S.limit⟩
  sorted := by
    rw [List.pairwise_reverse]
    refine S.sorted.imp_of_mem fun {later earlier} _ hearlier hle => ⟨?_, hle⟩
    have hpos := (S.ok earlier hearlier).1.nonempty
    omega
  merged := List.isChain_reverse.2 S.merged

theorem typeOf_high {address : Nat}
    (hlow : udlLowReservedLimit ≤ address) (hends : ∀ i ∈ intervals, i.fin ≤ address) :
    typeOf intervals address = none := by
  unfold typeOf
  rw [if_neg (Nat.not_lt_of_le hlow)]
  simp only [← and_assoc]
  refine Option.eq_none_iff_forall_ne_some.2 fun t ht => ?_
  obtain ⟨h | ⟨i, hi, hin, -⟩, -⟩ := (foldl_priority _ intervals none t).1 ht
  · cases h
  · have hle := hends i hi
    omega

theorem normalizeMemoryMap_swept (h : normalizeMemoryMap raw = .ok map) :
    ∃ intervals points regions last, Collected raw intervals points ∧
      map = regions.reverse ∧ Swept intervals last regions ∧
      ∀ address, last ≤ address → typeOf intervals address = none := by
  unfold normalizeMemoryMap at h
  split at h
  · cases h
  obtain ⟨⟨intervals, points⟩, hcollect, h⟩ := bind_eq_ok h
  obtain ⟨regions, hsweep, h⟩ := bind_eq_ok h
  cases h
  have C := collect_spec Collected.start hcollect
  have hmem : ∀ p, p ∈ sortPoints points ↔ p ∈ points := fun p => (sortPoints_perm points).mem_iff
  have hsorted := sortPoints_sorted points
  have hzero := (hmem 0).2 C.zero
  cases hpoints : sortPoints points with
  | nil =>
    rw [hpoints] at hzero
    exact nomatch hzero
  | cons start rest =>
    rw [hpoints] at hsweep hmem hsorted hzero
    have hstart : start = 0 := by
      rcases List.mem_cons.1 hzero with heq | hrest
      · exact heq.symm
      · exact Nat.le_zero.1 ((List.pairwise_cons.1 hsorted).1 0 hrest)
    have S : Swept intervals start [] :=
      { limit := by rw [hstart]; exact Nat.zero_le _
        ok := fun r hr => nomatch hr
        sorted := .nil
        merged := .nil
        types := fun address haddress => by omega }
    have hcover : ∀ q ∈ points, q ≤ start ∨ q ∈ rest := fun q hq => by
      rcases List.mem_cons.1 ((hmem q).2 hq) with heq | hrest
      · exact .inl heq.le
      · exact .inr hrest
    have hprevious : ∀ p ∈ start :: rest, p ≠ 2 ^ 64 - 1 := fun p hp => by
      have hle := (C.points p ((hmem p).1 hp)).2
      unfold udlManagedLimit at hle
      omega
    obtain ⟨last, hlast, S'⟩ := sweep_swept C.ends C.low C.points
      (fun p hp => (hmem p).1 hp) hcover hsorted hprevious S hsweep
    refine ⟨intervals, points, regions, last, C, rfl, S', fun address haddress => ?_⟩
    exact typeOf_high ((hlast _ C.low).trans haddress) fun i hi =>
      (hlast _ (C.ends i hi).2).trans haddress

/-- The map that the firmware's regions are turned into says exactly what they say: the output
    is in order and merged, each page below the managed limit has the type of highest priority
    among the raw regions that decide about it (the first mebibyte is reserved), or lies in no
    region if there is none, and a page that meets memory which is not available is never
    available. -/
theorem normalizeMemoryMap_exact {raw : List RawMemoryRegion} {map : List MemoryRegion}
    (h : normalizeMemoryMap raw = .ok map) : Normalized map ∧ (∀ page < managedPages, ∀ type,
        (∃ r ∈ map, r.type = type ∧ r.Holds page) ↔ pageType raw page = some type) ∧
      ∀ page < managedPages, (∃ r ∈ map, r.type = .available ∧ r.Holds page) →
        ∀ r ∈ raw, r.type ≠ grubMemoryAvailable → r.length ≠ 0 →
          r.base.toNat + r.length.toNat ≤ udlPageSize * page ∨
            udlPageSize * (page + 1) ≤ r.base.toNat := by
  obtain ⟨intervals, points, regions, last, C, rfl, S, hhigh⟩ := normalizeMemoryMap_swept h
  have hat : ∀ page type, (∃ r ∈ regions.reverse, r.type = type ∧ r.Holds page) ↔
      RegionAt regions (udlPageSize * page) type := by
    intro page type
    simp only [List.mem_reverse]
    refine exists_congr fun r => and_congr_right fun hr => ?_
    rw [(S.ok r hr).1.holds_iff page, and_comm, and_assoc]
  have htypes : ∀ page < managedPages, ∀ type,
      (∃ r ∈ regions.reverse, r.type = type ∧ r.Holds page) ↔ pageType raw page = some type := by
    intro page hpage type
    rw [hat, ← C.typeOf_eq hpage]
    rcases lt_or_ge (udlPageSize * page) last with hlt | hge
    · exact S.types _ hlt type
    · rw [hhigh _ hge]
      constructor
      · rintro ⟨r, hr, -, hend, -⟩
        have hle := (S.ok r hr).2
        omega
      · exact fun h => by cases h
  refine ⟨S.normalized, htypes, fun page hpage havailable r hr htype hlength => ?_⟩
  have hpageType := (htypes page hpage .available).1 havailable
  by_contra hmeets
  have hclaims : r.Claims page := by
    unfold RawMemoryRegion.Claims
    rw [if_neg htype]
    exact ⟨by omega, by omega, hlength⟩
  have hlow : ¬udlPageSize * page < udlLowReservedLimit := by
    intro hlow
    unfold pageType at hpageType
    rw [if_pos hlow] at hpageType
    cases hpageType
  have hmax := ((pageType_eq_some hlow _).1 hpageType).2 r.memoryType ⟨r, hr, rfl, hclaims⟩
  unfold RawMemoryRegion.memoryType at hmax
  rw [if_neg htype] at hmax
  split at hmax <;> exact nomatch hmax

/-- Available memory up to 64 MiB with tables of the firmware in it. -/
def sampleRaw : List RawMemoryRegion :=
  [{ base := 0, length := 0x4000000, type := 1 },
    { base := 0x300000, length := 0x100001, type := 3 },
    { base := 0x200800, length := 0x1000, type := 2 }]

def sampleMap : List MemoryRegion :=
  [{ base := 0, length := 0x100000, type := .reserved },
    { base := 0x100000, length := 0x100000, type := .available },
    { base := 0x200000, length := 0x2000, type := .reserved },
    { base := 0x202000, length := 0xfe000, type := .available },
    { base := 0x300000, length := 0x101000, type := .acpiReclaim },
    { base := 0x401000, length := 0x3bff000, type := .available }]

/-- The page at 0x201000 meets reserved memory and is not available. -/
theorem normalizeMemoryMap_exact_sample :
    normalizeMemoryMap sampleRaw = .ok sampleMap ∧ Normalized sampleMap ∧
      ¬∃ r ∈ sampleMap, r.type = .available ∧ r.Holds 0x201 := by
  have h : normalizeMemoryMap sampleRaw = .ok sampleMap := by decide +kernel
  have hexact := normalizeMemoryMap_exact h
  refine ⟨h, hexact.1, fun havailable => ?_⟩
  have hmeets := hexact.2.2 0x201 (by decide) havailable
    { base := 0x200800, length := 0x1000, type := 2 } (by simp [sampleRaw]) (by decide) (by decide)
  revert hmeets
  decide

/-! ## Placement -/

/-- The payload fits at `base`. -/
def Fits (map : List MemoryRegion) (span base : Nat) : Prop :=
  udlPageSize ∣ base ∧ udlLowReservedLimit ≤ base ∧
    ∃ r ∈ map, r.type = .available ∧ r.base ≤ base ∧ base + span ≤ r.base + r.length

theorem lowest_eq (base : Nat) :
    (if base < udlLowReservedLimit then udlLowReservedLimit else base) =
      max udlLowReservedLimit base := by
  split <;> omega

theorem fits_of_candidateIn {r : MemoryRegion} {base : Nat}
    (hr : r ∈ map) (h : candidateIn span r = some base) : Fits map span base := by
  unfold candidateIn at h
  dsimp only at h
  rw [lowest_eq] at h
  split at h
  · cases h
  rename_i hguard
  split at h
  · cases h
  have hle : roundDown (r.base + r.length - span) ≤ udlManagedLimit := by omega
  rw [wrap32_of_managed hle, Option.some.injEq] at h
  subst h
  refine ⟨roundDown_dvd _, by omega, r, hr, ?_, by omega, by omega⟩
  by_contra htype
  exact hguard (.inl htype)

theorem not_fits_of_candidateIn (N : Normalized map) {r : MemoryRegion}
    (hr : r ∈ map) {base : Nat} (h : candidateIn span r = none) (htype : r.type = .available)
    (hpage : udlPageSize ∣ base) (hlow : udlLowReservedLimit ≤ base) (hbase : r.base ≤ base) :
    r.base + r.length < base + span := by
  by_contra hfits
  have hlimit := (N.ok r hr).2
  -- Rounding the highest start down cannot pass below a page that fits.
  have hround : base ≤ roundDown (r.base + r.length - span) := by
    obtain ⟨k, rfl⟩ := hpage
    exact le_roundDown_iff.2 (by omega)
  have hdown := roundDown_le (r.base + r.length - span)
  unfold candidateIn at h
  rw [lowest_eq, if_neg, if_neg] at h
  · cases h
  · omega
  · rw [htype]
    simp only [ne_eq, not_true_eq_false, false_or]
    omega

theorem takesPreferred_iff {r : MemoryRegion} :
    takesPreferred span r = true ↔ r.type = .available ∧ r.base ≤ preferredBase ∧
      preferredBase + span ≤ r.base + r.length := by
  simp [takesPreferred]

/-- In every normalized map the place that is chosen takes the payload, and if none is chosen
    there is none. -/
theorem choosePhysicalBase_spec {raw : List RawMemoryRegion} {map : List MemoryRegion}
    (hmap : normalizeMemoryMap raw = .ok map) {span : Nat} (hpos : 0 < span)
    (hspan : span ≤ udlManagedLimit) :
    (∃ base, choosePhysicalBase map span = .ok base ∧ Fits map span base) ∨
      (choosePhysicalBase map span = .err .noMemory ∧ ∀ base, ¬Fits map span base) := by
  obtain ⟨intervals, points, regions, last, -, rfl, S, -⟩ := normalizeMemoryMap_swept hmap
  have N := S.normalized
  unfold choosePhysicalBase
  rw [if_neg (by omega)]
  by_cases hpreferred : regions.reverse.any (takesPreferred span) = true
  · rw [if_pos hpreferred]
    obtain ⟨r, hr, htakes⟩ := List.any_eq_true.1 hpreferred
    obtain ⟨htype, hbase, hend⟩ := takesPreferred_iff.1 htakes
    exact .inl ⟨preferredBase, rfl, by decide, by decide, r, hr, htype, hbase, hend⟩
  · rw [if_neg hpreferred]
    cases hfind : regions.reverse.reverse.findSome? (candidateIn span) with
    | some base =>
      obtain ⟨r, hr, hcandidate⟩ := List.exists_of_findSome?_eq_some hfind
      exact .inl ⟨base, rfl, fits_of_candidateIn (List.mem_reverse.1 hr) hcandidate⟩
    | none =>
      refine .inr ⟨rfl, ?_⟩
      rintro base ⟨hpage, hlow, r, hr, htype, hbase, hend⟩
      have hnone := List.findSome?_eq_none_iff.1 hfind r (List.mem_reverse.2 hr)
      have hlt := not_fits_of_candidateIn N hr hnone htype hpage hlow hbase
      omega

/-- 2 MiB fit above the tables; 60 MiB fit nowhere. -/
theorem choosePhysicalBase_spec_sample :
    (∃ base, choosePhysicalBase sampleMap 0x200000 = .ok base ∧ Fits sampleMap 0x200000 base) ∧
      ∀ base, ¬Fits sampleMap 0x3c00000 base := by
  have hmap : normalizeMemoryMap sampleRaw = .ok sampleMap := by decide +kernel
  constructor
  · rcases choosePhysicalBase_spec hmap (show 0 < 0x200000 by decide) (by decide) with h | h
    · exact h
    · cases h.1
  · rcases choosePhysicalBase_spec hmap (show 0 < 0x3c00000 by decide)
      (by decide) with ⟨b, h, -⟩ | h
    · exact absurd h (by
        rw [show choosePhysicalBase sampleMap 0x3c00000 = .err .noMemory by decide +kernel]
        simp)
    · exact h.2

end UnDOS.Loader
