import Mathlib.Data.Set.Basic

/-!
# Ledgers

Cells are taken from a pool and put into slots.  A ledger says where every cell is that
was taken since the books were opened: in a slot, or in hand.

- `old` are the cells that were in use before, and stay in use.
- `mine` are the slots that are to be emptied in the end.  Each of them has a cell of its
  own.  A cell in any other slot is somebody else's and only accounted for.
- `hand` are the cells that a routine has taken and not yet put anywhere.  A cell in hand
  may be shown in a slot that is not `mine` (`lend`) and taken out again (`unlend`).
-/

namespace UnDOS.Lib

variable {Slot Cell : Type}

structure Ledger (old : Set Cell) (mine : Set Slot) (used : Set Cell)
    (holder : Slot → Option Cell) (hand : Set Cell) : Prop where
  kept : ∀ a ∈ old, a ∈ used
  inHand : ∀ a ∈ hand, a ∈ used ∧ a ∉ old ∧ ∀ s ∈ mine, holder s ≠ some a
  held : ∀ s ∈ mine, ∀ a, holder s = some a → a ∈ used ∧ a ∉ old
  apart : ∀ s ∈ mine, ∀ t ∈ mine, ∀ a, holder s = some a → holder t = some a → s = t
  complete : ∀ a ∈ used, a ∈ old ∨ (∃ s, holder s = some a) ∨ a ∈ hand

namespace Ledger

variable {old : Set Cell} {mine : Set Slot} {used hand : Set Cell}
  {holder holder' : Slot → Option Cell}

theorem take (h : Ledger old mine used holder hand) {F : Set Cell} (hfree : ∀ a ∈ F, a ∉ used) :
    Ledger old mine (used ∪ F) holder (hand ∪ F) where
  kept := fun a ha => .inl (h.kept a ha)
  inHand := by
    rintro a (ha | ha)
    · obtain ⟨hused, hold, hslot⟩ := h.inHand a ha
      exact ⟨.inl hused, hold, hslot⟩
    · refine ⟨.inr ha, fun hold => hfree a ha (h.kept a hold), ?_⟩
      intro s hs hheld
      exact hfree a ha (h.held s hs a hheld).1
  held := fun s hs a ha => ⟨.inl (h.held s hs a ha).1, (h.held s hs a ha).2⟩
  apart := h.apart
  complete := by
    rintro a (ha | ha)
    · rcases h.complete a ha with hold | hslot | hhand
      · exact .inl hold
      · exact .inr (.inl hslot)
      · exact .inr (.inr (.inl hhand))
    · exact .inr (.inr (.inr ha))

theorem giveBack (h : Ledger old mine used holder hand) {F : Set Cell} (hF : ∀ a ∈ F, a ∈ hand) :
    Ledger old mine (used \ F) holder (hand \ F) where
  kept := fun a ha => ⟨h.kept a ha, fun hin => (h.inHand a (hF a hin)).2.1 ha⟩
  inHand := by
    rintro a ⟨ha, hout⟩
    obtain ⟨hused, hold, hslot⟩ := h.inHand a ha
    exact ⟨⟨hused, hout⟩, hold, hslot⟩
  held := by
    intro s hs a ha
    obtain ⟨hused, hold⟩ := h.held s hs a ha
    exact ⟨⟨hused, fun hin => (h.inHand a (hF a hin)).2.2 s hs ha⟩, hold⟩
  apart := h.apart
  complete := by
    rintro a ⟨ha, hout⟩
    rcases h.complete a ha with hold | hslot | hhand
    · exact .inl hold
    · exact .inr (.inl hslot)
    · exact .inr (.inr ⟨hhand, hout⟩)

theorem holder_put {s : Slot} (hempty : holder s = none)
    (hother : ∀ t, t ≠ s → holder' t = holder t) {t : Slot} {b : Cell} (ht : holder t = some b) :
    holder' t = some b := by
  rw [hother t, ht]
  rintro rfl
  rw [hempty] at ht
  cases ht

/-- A cell goes from the hand into an empty slot. -/
theorem put (h : Ledger old mine used holder hand) {s : Slot} {a : Cell} (ha : a ∈ hand)
    (hempty : holder s = none) (hself : holder' s = some a)
    (hother : ∀ t, t ≠ s → holder' t = holder t) : Ledger old mine used holder' (hand \ {a}) := by
  obtain ⟨hused, hold, hslot⟩ := h.inHand a ha
  -- A slot that shows something shows it as before, or is the slot that was filled.
  have hback : ∀ {t b}, holder' t = some b → (t = s ∧ b = a) ∨ (t ≠ s ∧ holder t = some b) := by
    intro t b ht
    by_cases hts : t = s
    · subst hts
      rw [hself] at ht
      exact .inl ⟨rfl, (Option.some.inj ht).symm⟩
    · rw [hother t hts] at ht
      exact .inr ⟨hts, ht⟩
  refine ⟨h.kept, ?_, ?_, ?_, ?_⟩
  · rintro b ⟨hb, hne⟩
    obtain ⟨hbused, hbold, hbslot⟩ := h.inHand b hb
    refine ⟨hbused, hbold, ?_⟩
    intro t ht hheld
    rcases hback hheld with ⟨-, rfl⟩ | ⟨-, hheld⟩
    · exact hne rfl
    · exact hbslot t ht hheld
  · intro t ht b hheld
    rcases hback hheld with ⟨-, rfl⟩ | ⟨-, hheld⟩
    · exact ⟨hused, hold⟩
    · exact h.held t ht b hheld
  · intro t ht u hu b hbt hbu
    rcases hback hbt with ⟨rfl, rfl⟩ | ⟨-, hbt⟩
    · rcases hback hbu with ⟨rfl, -⟩ | ⟨-, hbu⟩
      · rfl
      · exact absurd hbu (hslot u hu)
    · rcases hback hbu with ⟨-, rfl⟩ | ⟨-, hbu⟩
      · exact absurd hbt (hslot t ht)
      · exact h.apart t ht u hu b hbt hbu
  · intro b hb
    rcases h.complete b hb with hbold | ⟨t, ht⟩ | hbhand
    · exact .inl hbold
    · exact .inr (.inl ⟨t, holder_put hempty hother ht⟩)
    · by_cases hba : b = a
      · subst hba
        exact .inr (.inl ⟨s, hself⟩)
      · exact .inr (.inr ⟨hbhand, hba⟩)

/-- Only slots of others change; the hand stays as it is. -/
theorem elsewhere (h : Ledger old mine used holder hand) (hmine : ∀ t ∈ mine, holder' t = holder t)
    (hothers : ∀ t b, holder t = some b → (∃ t', holder' t' = some b) ∨ b ∈ hand) :
    Ledger old mine used holder' hand := by
  refine ⟨h.kept, ?_, ?_, ?_, ?_⟩
  · intro b hb
    obtain ⟨hbused, hbold, hbslot⟩ := h.inHand b hb
    exact ⟨hbused, hbold, fun t ht => by rw [hmine t ht]; exact hbslot t ht⟩
  · intro t ht b hheld
    rw [hmine t ht] at hheld
    exact h.held t ht b hheld
  · intro t ht u hu b hbt hbu
    rw [hmine t ht] at hbt
    rw [hmine u hu] at hbu
    exact h.apart t ht u hu b hbt hbu
  · intro b hb
    rcases h.complete b hb with hbold | ⟨t, ht⟩ | hbhand
    · exact .inl hbold
    · exact .inr (hothers t b ht)
    · exact .inr (.inr hbhand)

theorem lend (h : Ledger old mine used holder hand) {s : Slot} (hs : s ∉ mine)
    (hempty : holder s = none) (hother : ∀ t, t ≠ s → holder' t = holder t) :
    Ledger old mine used holder' hand :=
  h.elsewhere (fun t ht => hother t fun hts => hs (hts ▸ ht))
    fun t _ ht => .inl ⟨t, holder_put hempty hother ht⟩

/-- A cell comes from a slot into the hand. -/
theorem lift (h : Ledger old mine used holder hand) {s : Slot} {a : Cell} (hs : s ∈ mine)
    (ha : holder s = some a) (hself : holder' s = none)
    (hother : ∀ t, t ≠ s → holder' t = holder t) :
    Ledger old mine used holder' (insert a hand) := by
  have hback : ∀ {t b}, holder' t = some b → t ≠ s ∧ holder t = some b := by
    intro t b ht
    have hts : t ≠ s := by
      rintro rfl
      rw [hself] at ht
      cases ht
    rw [hother t hts] at ht
    exact ⟨hts, ht⟩
  refine ⟨h.kept, ?_, ?_, ?_, ?_⟩
  · intro b hb
    rcases hb with rfl | hb
    · obtain ⟨hused, hold⟩ := h.held s hs b ha
      refine ⟨hused, hold, ?_⟩
      intro t ht hheld
      exact (hback hheld).1 (h.apart t ht s hs b (hback hheld).2 ha)
    · obtain ⟨hbused, hbold, hbslot⟩ := h.inHand b hb
      exact ⟨hbused, hbold, fun t ht hheld => hbslot t ht (hback hheld).2⟩
  · intro t ht b hheld
    exact h.held t ht b (hback hheld).2
  · intro t ht u hu b hbt hbu
    exact h.apart t ht u hu b (hback hbt).2 (hback hbu).2
  · intro b hb
    rcases h.complete b hb with hbold | ⟨t, ht⟩ | hbhand
    · exact .inl hbold
    · by_cases hts : t = s
      · subst hts
        rw [ha] at ht
        exact .inr (.inr (.inl (Option.some.inj ht).symm))
      · exact .inr (.inl ⟨t, by rw [hother t hts, ht]⟩)
    · exact .inr (.inr (.inr hbhand))

/-- A cell in hand is no longer shown in somebody else's slot. -/
theorem unlend (h : Ledger old mine used holder hand) {s : Slot} (hs : s ∉ mine)
    (hhand : ∀ a, holder s = some a → a ∈ hand) (hother : ∀ t, t ≠ s → holder' t = holder t) :
    Ledger old mine used holder' hand := by
  refine h.elsewhere (fun t ht => hother t fun hts => hs (hts ▸ ht)) fun t b ht => ?_
  by_cases hts : t = s
  · exact .inr (hhand b (hts ▸ ht))
  · exact .inl ⟨t, by rw [hother t hts, ht]⟩

end Ledger

end UnDOS.Lib
