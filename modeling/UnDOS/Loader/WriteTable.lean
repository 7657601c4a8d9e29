import UnDOS.Loader.Link

/-!
# Direct Loader: The Write Table

`register_write` keeps the sites that were written in an open-addressed hash
table, so that a site that is written twice is written with one value.
-/

namespace UnDOS.Loader

open UnDOS.Lib UnDOS.Lib.Outcome

/-! ## Probe sequences -/

/-- Where the probe sequence of a site starts in a table of `n` slots. -/
def probeStart (n site : Nat) : Nat := wrap32 (site * 2654435761) &&& (n - 1)

/-- The position that is probed in round `i`. -/
def probePosition (n site : Nat) : Nat → Nat
  | 0 => probeStart n site
  | i + 1 => (probePosition n site i + 1) &&& (n - 1)

theorem probePosition_lt {n : Nat} (hn : n ≠ 0) (site i : Nat) : probePosition n site i < n := by
  have hmask : ∀ a, a &&& (n - 1) < n := fun a =>
    Nat.and_le_right.trans_lt (by omega)
  cases i with
  | zero => exact hmask _
  | succ i => exact hmask _

/-- Round `i` of the search for `site` finds another site. -/
def PassedAt (slots : List WriteSlot) (site i : Nat) : Prop :=
  ∃ slot, slots[probePosition slots.length site i]? = some slot
    ∧ slot.site ≠ noIndex ∧ slot.site ≠ site

/-- The search for `site` ends at a slot that holds `value`. -/
def Registered (slots : List WriteSlot) (site value : Nat) : Prop :=
  site ≠ noIndex ∧ ∃ i, slots[probePosition slots.length site i]? = some ⟨site, value⟩
    ∧ ∀ j, j < i → PassedAt slots site j

theorem Registered.unique {slots : List WriteSlot} {site v w : Nat}
    (hv : Registered slots site v) (hw : Registered slots site w) : v = w := by
  obtain ⟨-, i, hi, hpassi⟩ := hv
  obtain ⟨-, j, hj, hpassj⟩ := hw
  rcases lt_trichotomy i j with hlt | rfl | hgt
  · obtain ⟨slot, hslot, -, hne⟩ := hpassj i hlt
    rw [hi] at hslot
    cases hslot
    exact absurd rfl hne
  · rw [hi] at hj
    cases hj
    rfl
  · obtain ⟨slot, hslot, -, hne⟩ := hpassi j hgt
    rw [hj] at hslot
    cases hslot
    exact absurd rfl hne

/-! ## Registering -/

/-- What a successful `register_write` guarantees. -/
structure Registers (slots : List WriteSlot) (site value : Nat) (slots' : List WriteSlot) :
    Prop where
  length : slots'.length = slots.length
  here : site ≠ noIndex → Registered slots' site value
  kept : ∀ other v, Registered slots other v → Registered slots' other v

theorem Registered.set_empty {slots : List WriteSlot} {other v position : Nat} {slot : WriteSlot}
    {new : WriteSlot} (h : Registered slots other v)
    (hempty : slots[position]? = some slot) (hslot : slot.site = noIndex) :
    Registered (slots.set position new) other v := by
  obtain ⟨hne, i, hi, hpass⟩ := h
  have hkeep : ∀ (p : Nat) (s : WriteSlot), slots[p]? = some s → s.site ≠ noIndex →
      (slots.set position new)[p]? = some s := by
    intro p s hs hsite
    rw [List.getElem?_set_ne, hs]
    rintro rfl
    rw [hempty] at hs
    cases hs
    exact hsite hslot
  refine ⟨hne, i, ?_, fun j hj => ?_⟩
  · rw [List.length_set]
    exact hkeep _ _ hi hne
  · obtain ⟨s, hs, hused, hother⟩ := hpass j hj
    refine ⟨s, ?_, hused, hother⟩
    rw [List.length_set]
    exact hkeep _ _ hs hused

theorem safe_probeWrite {slots : List WriteSlot} {site value : Nat} (hn : slots.length ≠ 0)
    (rounds k : Nat) (hpassed : ∀ j, j < k → PassedAt slots site j) :
    Safe (probeWrite site value rounds (probePosition slots.length site k) slots)
      (Registers slots site value) := by
  induction rounds generalizing k with
  | zero => trivial
  | succ rounds ih =>
    have hlt := probePosition_lt hn site k
    have hget : slots[probePosition slots.length site k]?
        = some slots[probePosition slots.length site k] := List.getElem?_eq_getElem hlt
    unfold probeWrite
    rw [hget]
    generalize slots[probePosition slots.length site k] = slot at hget
    refine Safe.ite (fun hempty => ?_) fun hused => ?_
    · -- An empty slot: the site goes here.
      refine Safe.ok ⟨by simp, fun hsite => ?_, fun other v h => h.set_empty hget hempty⟩
      refine ⟨hsite, k, ?_, fun j hj => ?_⟩
      · rw [List.length_set, List.getElem?_set_self hlt]
      · obtain ⟨s, hs, hsused, hother⟩ := hpassed j hj
        refine ⟨s, ?_, hsused, hother⟩
        rw [List.length_set, List.getElem?_set_ne, hs]
        intro heq
        rw [← heq, hget] at hs
        cases hs
        exact hsused hempty
    refine Safe.ite (fun hfound => ?_) fun hother => ?_
    · -- The site is there: only the same value is accepted.
      refine Safe.ite (fun hvalue => ?_) fun _ => trivial
      refine Safe.ok ⟨rfl, fun hsite => ⟨hsite, k, ?_, hpassed⟩, fun _ _ h => h⟩
      rw [hget, ← hfound, ← hvalue]
    · have hnext : ∀ j, j < k + 1 → PassedAt slots site j := by
        intro j hj
        rcases Nat.lt_succ_iff_lt_or_eq.mp hj with hlt' | rfl
        · exact hpassed j hlt'
        · exact ⟨slot, hget, hused, hother⟩
      exact ih (k + 1) hnext

theorem safe_registerWrite (slots : List WriteSlot) (site value : Nat) :
    Safe (registerWrite slots site value) (Registers slots site value) := by
  refine Safe.ensure fun hn => ?_
  exact safe_probeWrite hn.1 slots.length 0 fun j hj => absurd hj (by omega)

end UnDOS.Loader
