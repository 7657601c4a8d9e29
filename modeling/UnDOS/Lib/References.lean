import Mathlib.Algebra.Ring.Nat
import Mathlib.Algebra.BigOperators.Group.Finset.Piecewise

/-!
# Objects with Reference Counts

A list of live objects, each with a count.  `refs` says who refers to what: `CountsOk` ties the
counts to it.  An object lives exactly as long as something refers to it, and the rules say what one
reference more or less does to the list, and to any sum over it.
-/

namespace UnDOS.Lib

/-- A live object. -/
structure Counted (α : Type) where
  id : Nat
  count : Nat
  value : α

variable {α : Type}

/-- One reference more. -/
def retain (id : Nat) (l : List (Counted α)) : List (Counted α) :=
  l.map fun c => if c.id = id then { c with count := c.count + 1 } else c

/-- One reference less: behind the last one the object is destroyed, and returned. -/
def unref (id : Nat) (l : List (Counted α)) : List (Counted α) × Option α :=
  match l.find? fun c => c.id = id with
  | none => (l, none)
  | some c =>
    if c.count = 1 then (l.filter fun c => c.id ≠ id, some c.value)
    else (l.map fun c => if c.id = id then { c with count := c.count - 1 } else c, none)

/-- The counts are right: `refs` counts the references to each object. -/
structure CountsOk (l : List (Counted α)) (refs : Nat → Nat) : Prop where
  distinct : (l.map Counted.id).Nodup
  exact : ∀ c ∈ l, c.count = refs c.id
  pos : ∀ c ∈ l, 0 < c.count
  all : ∀ id, refs id ≠ 0 → ∃ c ∈ l, c.id = id

/-- The sum of a weight over the live objects. -/
def weight (f : α → Nat) (l : List (Counted α)) : Nat := (l.map fun c => f c.value).sum

namespace CountsOk

variable {l : List (Counted α)} {refs refs' : Nat → Nat} {id : Nat}

theorem unique (h : CountsOk l refs) {c d : Counted α} (hc : c ∈ l) (hd : d ∈ l)
    (heq : c.id = d.id) :
    c = d := List.inj_on_of_nodup_map h.distinct hc hd heq

theorem create (h : CountsOk l refs) (v : α) (hfresh : ∀ c ∈ l, c.id ≠ id)
    (hrefs : ∀ x, refs' x = refs x + if x = id then 1 else 0) :
      CountsOk (⟨id, 1, v⟩ :: l) refs' where
  distinct := by
    refine List.nodup_cons.2 ⟨fun hm => ?_, h.distinct⟩
    obtain ⟨c, hc, heq⟩ := List.mem_map.1 hm
    exact hfresh c hc heq
  exact c hc := by
    rcases List.mem_cons.1 hc with rfl | hc
    · have hzero : refs id = 0 := by
        by_contra hne
        obtain ⟨c, hc, heq⟩ := h.all id hne
        exact hfresh c hc heq
      rw [hrefs, hzero, if_pos rfl]
    · rw [hrefs, if_neg (hfresh c hc)]
      exact h.exact c hc
  pos c hc := by
    rcases List.mem_cons.1 hc with rfl | hc
    · exact one_pos
    · exact h.pos c hc
  all x hx := by
    rw [hrefs] at hx
    by_cases hid : x = id
    · exact ⟨_, .head _, hid.symm⟩
    · rw [if_neg hid, add_zero] at hx
      obtain ⟨c, hc, heq⟩ := h.all x hx
      exact ⟨c, .tail _ hc, heq⟩

theorem map_count (h : CountsOk l refs) (f : Nat → Nat) (hpos : ∀ c ∈ l, c.id = id → 0 < f c.count)
    (hrefs : ∀ x, refs' x = if x = id then f (refs x) else refs x) (hzero : refs id = 0 →
      f (refs id) = 0) :
    CountsOk (l.map fun c => if c.id = id then { c with count := f c.count } else c) refs' where
  distinct := by
    rw [List.map_map]
    have hsame : Counted.id ∘ (fun c : Counted α => if c.id = id then { c with count := f c.count }
        else c) =
        Counted.id := by
      funext c
      show (if c.id = id then { c with count := f c.count } else c).id = c.id
      split <;> rfl
    rw [hsame]
    exact h.distinct
  exact c hc := by
    obtain ⟨d, hd, rfl⟩ := List.mem_map.1 hc
    by_cases hid : d.id = id
    · rw [if_pos hid]
      rw [hrefs, if_pos hid, h.exact d hd]
    · rw [if_neg hid, hrefs, if_neg hid]
      exact h.exact d hd
  pos c hc := by
    obtain ⟨d, hd, rfl⟩ := List.mem_map.1 hc
    by_cases hid : d.id = id
    · rw [if_pos hid]
      exact hpos d hd hid
    · rw [if_neg hid]
      exact h.pos d hd
  all x hx := by
    have hx' : refs x ≠ 0 := by
      intro hnone
      rw [hrefs] at hx
      by_cases hid : x = id
      · subst hid
        rw [if_pos rfl] at hx
        exact hx (hzero hnone)
      · rw [if_neg hid] at hx
        exact hx hnone
    obtain ⟨c, hc, heq⟩ := h.all x hx'
    refine ⟨_, List.mem_map.2 ⟨c, hc, rfl⟩, ?_⟩
    split <;> exact heq

theorem retain (h : CountsOk l refs) (hlive : ∃ c ∈ l, c.id = id)
    (hrefs : ∀ x, refs' x = refs x + if x = id then 1 else 0) : CountsOk (retain id l) refs' := by
  refine h.map_count (· + 1) (fun c _ _ => Nat.succ_pos _) (fun x => ?_) fun hzero => ?_
  · rw [hrefs]
    split <;> rfl
  · obtain ⟨c, hc, rfl⟩ := hlive
    have hpos := h.pos c hc
    rw [h.exact c hc, hzero] at hpos
    exact absurd hpos (lt_irrefl 0)

end CountsOk

theorem weight_map_count (f : α → Nat) (l : List (Counted α)) (id : Nat) (g : Nat → Nat) :
    weight f (l.map fun c => if c.id = id then { c with count := g c.count } else c) =
      weight f l := by
  unfold weight
  rw [List.map_map]
  congr 1
  refine List.map_congr_left fun c _ => ?_
  show f (if c.id = id then { c with count := g c.count } else c).value = f c.value
  split <;> rfl

theorem weight_retain (f : α → Nat) (id : Nat) (l : List (Counted α)) :
    weight f (retain id l) = weight f l := weight_map_count f l id (· + 1)

theorem mem_retain {id : Nat} {l : List (Counted α)} {c : Counted α} (hc : c ∈ retain id l) :
    ∃ d ∈ l, d.id = c.id ∧ d.value = c.value := by
  obtain ⟨d, hd, rfl⟩ := List.mem_map.1 hc
  refine ⟨d, hd, ?_⟩
  split <;> exact ⟨rfl, rfl⟩

theorem weight_filter {f : α → Nat} {l : List (Counted α)} {c : Counted α}
    (hdistinct : (l.map Counted.id).Nodup) (hc : c ∈ l) :
    weight f l = weight f (l.filter fun d => d.id ≠ c.id) + f c.value := by
  induction l with
  | nil => cases hc
  | cons d l ih =>
    obtain ⟨hnot, hdistinct⟩ := List.nodup_cons.1 hdistinct
    rcases List.mem_cons.1 hc with rfl | hc
    · have hall : ∀ d ∈ l, decide (d.id ≠ c.id) = true := fun d hd =>
        decide_eq_true fun heq => hnot (List.mem_map.2 ⟨d, hd, heq⟩)
      rw [List.filter_cons, if_neg (by simp), List.filter_eq_self.2 hall]
      exact add_comm _ _
    · have hne : d.id ≠ c.id := fun heq => hnot (List.mem_map.2 ⟨c, hc, heq.symm⟩)
      rw [List.filter_cons, if_pos (decide_eq_true hne)]
      have hrest := ih hdistinct hc
      unfold weight at hrest ⊢
      rw [List.map_cons, List.sum_cons, List.map_cons, List.sum_cons]
      omega

/-- One reference less, and the object is gone with the last one. -/
theorem CountsOk.unref {l : List (Counted α)} {refs refs' : Nat → Nat} {id : Nat}
    (h : CountsOk l refs)
    (hrefs : ∀ x, refs x = refs' x + if x = id then 1 else 0) : CountsOk (unref id l).1 refs' ∧
      (∀ c ∈ (unref id l).1, ∃ d ∈ l, d.id = c.id ∧ d.value = c.value) ∧
      ∀ f : α → Nat, weight f l = weight f (unref id l).1 + ((unref id l).2.map f).getD 0 := by
  have hne : refs id ≠ 0 := by
    rw [hrefs, if_pos rfl]
    exact Nat.succ_ne_zero _
  obtain ⟨c, hc, hid⟩ := h.all id hne
  have hfind : l.find? (fun d => decide (d.id = id)) = some c := by
    obtain ⟨d, hd⟩ := Option.isSome_iff_exists.1
      (List.find?_isSome.2 ⟨c, hc, decide_eq_true hid⟩ : (l.find?
        fun d => decide (d.id = id)).isSome)
    have htrue := List.find?_some hd
    have heq : d.id = id := of_decide_eq_true htrue
    rw [hd, h.unique (List.mem_of_find?_eq_some hd) hc (heq.trans hid.symm)]
  unfold Lib.unref
  rw [hfind]
  dsimp only
  have hcount := h.exact c hc
  rw [hid, hrefs, if_pos rfl] at hcount
  by_cases hlast : c.count = 1
  · -- The last reference: the object goes.
    rw [if_pos hlast]
    subst hid
    have hzero : refs' c.id = 0 := by omega
    refine ⟨⟨h.distinct.sublist (List.filter_sublist.map _), fun d hd => ?_, fun d hd => ?_,
      fun x hx => ?_⟩,
      fun d hd => ⟨d, (List.mem_filter.1 hd).1, rfl, rfl⟩, fun f => weight_filter h.distinct hc⟩
    · obtain ⟨hd, hother⟩ := List.mem_filter.1 hd
      rw [h.exact d hd, hrefs, if_neg (of_decide_eq_true hother), add_zero]
    · exact h.pos d (List.mem_filter.1 hd).1
    · have hx' : refs x ≠ 0 := by
        rw [hrefs]
        omega
      obtain ⟨d, hd, rfl⟩ := h.all x hx'
      refine ⟨d, List.mem_filter.2 ⟨hd, decide_eq_true fun heq => hx ?_⟩, rfl⟩
      rw [heq, hzero]
  · rw [if_neg hlast]
    refine ⟨h.map_count (· - 1) (fun d hd heq => ?_) (fun x => ?_) fun hzero => ?_, fun d hd => ?_,
      fun f => (weight_map_count f l id (· - 1)).symm⟩
    · rw [h.unique hd hc (heq.trans hid.symm)]
      omega
    · rw [hrefs]
      split
      · rfl
      · rw [add_zero]
    · rw [hzero]
    · obtain ⟨e, he, rfl⟩ := List.mem_map.1 hd
      refine ⟨e, he, ?_⟩
      split <;> exact ⟨rfl, rfl⟩

/-! ## Sums over a family -/

theorem sum_update {ι β : Type} [Fintype ι] [DecidableEq ι] (f : ι → β) (g : β → Nat)
    (i : ι) (v : β) :
    ∑ k, g (Function.update f i v k) + g (f i) = ∑ k, g (f k) + g v := by
  have hcomp : ∀ k, g (Function.update f i v k) = Function.update (fun k => g (f k)) i (g v) k :=
    fun k => congrFun (Function.comp_update g f i v) k
  have hsplit := Finset.sum_erase_add Finset.univ (fun k => g (f k)) (Finset.mem_univ i)
  rw [Finset.sum_congr rfl fun k _ => hcomp k, Finset.sum_update_of_mem (Finset.mem_univ i),
    ← Finset.erase_eq]
  omega

end UnDOS.Lib
