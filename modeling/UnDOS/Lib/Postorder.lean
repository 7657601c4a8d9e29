import Mathlib.Data.Finset.Card

/-!
# Depth-first Search with Three Marks

`visit next emit` walks a graph from a vertex: a vertex that is `done` is left alone, one that is
`active` closes a cycle and ends the search, and a `fresh` one becomes `done` after its successors.
Vertices are listed, where `emit` asks for it, as they become `done`.
-/

namespace UnDOS.Lib.Postorder

open Relation (ReflTransGen TransGen)

/-- How far the search has come with a vertex. -/
inductive Mark where
  | fresh | active | done
deriving DecidableEq, Inhabited

variable {V : Type}

/-- The marks and the list of the vertices that became `done`. -/
structure Search (V : Type) where
  mark : V → Mark
  order : List V

/-- Nothing has been visited. -/
def Search.start : Search V := ⟨fun _ => .fresh, []⟩

/-- Visit the vertices of a list until one fails. -/
def each (visit : V → Search V → Option (Bool × Search V)) :
    List V → Search V → Option (Bool × Search V)
  | [], s => some (true, s)
  | v :: rest, s =>
    match visit v s with
    | some (true, s) => each visit rest s
    | r => r

variable [DecidableEq V]

/-- The vertex is being visited. -/
def Search.activate (v : V) (s : Search V) : Search V :=
  { s with mark := Function.update s.mark v .active }

/-- The vertex is done. -/
def Search.finish (emit : V → Bool) (v : V) (s : Search V) : Search V where
  mark := Function.update s.mark v .done
  order := if emit v then s.order ++ [v] else s.order

/-- The search from a vertex.  `none` when the fuel does not suffice. -/
def visit (next : V → List V) (emit : V → Bool) : Nat → V → Search V → Option (Bool × Search V)
  | fuel, v, s =>
    match s.mark v with
    | .done => some (true, s)
    | .active => some (false, s)
    | .fresh =>
      match fuel with
      | 0 => none
      | fuel + 1 =>
        match each (visit next emit fuel) (next v) (s.activate v) with
        | some (true, s) => some (true, s.finish emit v)
        | r => r

section

variable (next : V → List V) (emit : V → Bool)

/-- The successors of a vertex. -/
def Step (v w : V) : Prop := w ∈ next v

/-- What holds of the vertices that are done. -/
structure Sound (s : Search V) : Prop where
  nodup : s.order.Nodup
  listed : ∀ v, v ∈ s.order ↔ s.mark v = .done ∧ emit v
  closed : ∀ v, s.mark v = .done → ∀ w ∈ next v, s.mark w = .done
  acyclic : ∀ v, s.mark v = .done → ¬ TransGen (Step next) v v
  sorted : ∀ before v after, s.order = before ++ v :: after → ∀ w ∈ next v, emit w → w ∈ before

/-- What a successful visit changes: fresh vertices that can be reached become done. -/
structure Grows (s s' : Search V) (from_ : List V) : Prop where
  sound : Sound next emit s'
  active : ∀ v, s'.mark v = .active ↔ s.mark v = .active
  done : ∀ v, s.mark v = .done → s'.mark v = .done
  reached : ∀ v, s'.mark v = .done → s.mark v = .done ∨ ∃ u ∈ from_, ReflTransGen (Step next) u v

/-- Why a visit fails. -/
def Cyclic (s : Search V) (v : V) : Prop :=
  ∃ u, ReflTransGen (Step next) v u ∧ (s.mark u = .active ∨ TransGen (Step next) u u)

end

variable {next : V → List V} {emit : V → Bool}

@[simp] theorem Search.activate_self (v : V) (s : Search V) : (s.activate v).mark v = .active := by
  simp [activate]

theorem Search.activate_of_ne {v w : V} {s : Search V} (h : w ≠ v) :
    (s.activate v).mark w = s.mark w := by
  simp [activate, h]

@[simp] theorem Search.finish_self (v : V) (s : Search V) : (s.finish emit v).mark v = .done := by
  simp [finish]

theorem Search.finish_of_ne {v w : V} {s : Search V} (h : w ≠ v) :
    (s.finish emit v).mark w = s.mark w := by
  simp [finish, h]

omit [DecidableEq V] in
theorem Sound.start : Sound next emit (Search.start : Search V) where
  nodup := List.nodup_nil
  listed := by simp [Search.start]
  closed := by simp [Search.start]
  acyclic := by simp [Search.start]
  sorted := by simp [Search.start]

omit [DecidableEq V] in
theorem Sound.reach {s : Search V} (hs : Sound next emit s) {v w : V} (hv : s.mark v = .done)
    (h : ReflTransGen (Step next) v w) : s.mark w = .done := by
  induction h with
  | refl => exact hv
  | tail _ last ih => exact hs.closed _ ih _ last

theorem Sound.activate {s : Search V} (hs : Sound next emit s) {v : V} (hv : s.mark v = .fresh) :
    Sound next emit (s.activate v) := by
  have hdone : ∀ w, (s.activate v).mark w = .done ↔ s.mark w = .done := fun w => by
    by_cases hw : w = v
    · subst hw
      simp [hv]
    · rw [Search.activate_of_ne hw]
  exact {
    nodup := hs.nodup
    listed := fun w => by rw [hdone]; exact hs.listed w
    closed := fun w hw u hu => by rw [hdone] at hw ⊢; exact hs.closed w hw u hu
    acyclic := fun w hw => by rw [hdone] at hw; exact hs.acyclic w hw
    sorted := hs.sorted }

theorem Sound.finish {s : Search V} (hs : Sound next emit s) {v : V} (hv : s.mark v = .active)
    (hnext : ∀ w ∈ next v, s.mark w = .done) : Sound next emit (s.finish emit v) := by
  have hne : ∀ w, s.mark w = .done → w ≠ v := fun w hw heq => by
    subst heq
    simp [hv] at hw
  have hdone : ∀ w, (s.finish emit v).mark w = .done ↔ w = v ∨ s.mark w = .done := fun w => by
    by_cases hw : w = v
    · subst hw
      simp [Search.finish]
    · simp [Search.finish, hw]
  have hnew : v ∉ s.order := fun hmem => hne v ((hs.listed v).1 hmem).1 rfl
  constructor
  case nodup =>
    simp only [Search.finish]
    split
    · simpa [List.nodup_append] using ⟨hs.nodup, fun a ha => hne a ((hs.listed a).1 ha).1⟩
    · exact hs.nodup
  case listed =>
    intro w
    simp only [Search.finish]
    by_cases hw : w = v
    · subst hw
      cases hemit : emit w <;> simp [hnew]
    · have hlisted := hs.listed w
      cases hemit : emit v <;> simp [hw, hlisted]
  case closed =>
    intro w hw u hu
    rw [hdone] at hw ⊢
    rcases hw with rfl | hw
    · exact .inr (hnext u hu)
    · exact .inr (hs.closed w hw u hu)
  case acyclic =>
    intro w hw hcycle
    rcases (hdone w).1 hw with rfl | hw
    · -- A cycle leaves `w` for a vertex that is done, and never comes back.
      obtain ⟨u, hu, hback⟩ := TransGen.head'_iff.1 hcycle
      exact hne w (hs.reach (hnext u hu) hback) rfl
    · exact hs.acyclic w hw hcycle
  case sorted =>
    intro before w after hsplit u hu hemit
    simp only [Search.finish] at hsplit
    split at hsplit
    · rcases List.eq_nil_or_concat after with rfl | ⟨after, last, rfl⟩
      · obtain ⟨rfl, rfl⟩ : s.order = before ∧ v = w := by simpa using List.append_inj' hsplit rfl
        exact (hs.listed u).2 ⟨hnext u hu, hemit⟩
      · have hconcat : s.order ++ [v] = (before ++ w :: after) ++ [last] := by simpa using hsplit
        exact hs.sorted before w after (List.append_inj' hconcat rfl).1 u hu hemit
    · exact hs.sorted before w after hsplit u hu hemit

/-! ## The search -/

/-- The fresh vertices among `nodes`. -/
def freshIn (nodes : Finset V) (s : Search V) : Finset V := nodes.filter fun v => s.mark v = .fresh

omit [DecidableEq V] in
theorem Grows.refl {s : Search V} (hs : Sound next emit s) (from_ : List V) :
    Grows next emit s s from_ :=
  ⟨hs, fun _ => Iff.rfl, fun _ h => h, fun _ h => .inl h⟩

omit [DecidableEq V] in
theorem each_spec {f : V → Search V → Option (Bool × Search V)}
    (hf : ∀ v s, Sound next emit s → ∀ ok s', f v s = some (ok, s') →
      (ok = true → Grows next emit s s' [v] ∧ s'.mark v = .done) ∧ (ok = false → Cyclic next s v))
    (vs : List V) {s : Search V} (hs : Sound next emit s) {ok : Bool} {s' : Search V}
    (h : each f vs s = some (ok, s')) :
    (ok = true → Grows next emit s s' vs ∧ ∀ v ∈ vs, s'.mark v = .done) ∧
      (ok = false → ∃ v ∈ vs, Cyclic next s v) := by
  induction vs generalizing s with
  | nil =>
    obtain ⟨rfl, rfl⟩ : true = ok ∧ s = s' := by simpa [each] using h
    exact ⟨fun _ => ⟨.refl hs [], by simp⟩, by simp⟩
  | cons v rest ih =>
    rw [each] at h
    split at h
    · next s₁ hvisit =>
      obtain ⟨hgrows, hv⟩ := (hf v s hs true s₁ hvisit).1 rfl
      obtain ⟨htrue, hfalse⟩ := ih hgrows.sound h
      constructor
      · intro hok
        obtain ⟨hrest, hdone⟩ := htrue hok
        refine ⟨⟨hrest.sound, fun w => (hrest.active w).trans (hgrows.active w),
          fun w hw => hrest.done w (hgrows.done w hw), fun w hw => ?_⟩, ?_⟩
        · rcases hrest.reached w hw with hw | ⟨u, hu, hreach⟩
          · rcases hgrows.reached w hw with hw | ⟨u, hu, hreach⟩
            · exact .inl hw
            · rw [List.mem_singleton.1 hu] at hreach
              exact .inr ⟨v, .head _, hreach⟩
          · exact .inr ⟨u, .tail _ hu, hreach⟩
        · rw [List.forall_mem_cons]
          exact ⟨hrest.done v hv, hdone⟩
      · intro hok
        obtain ⟨w, hw, u, hreach, hwhy⟩ := hfalse hok
        refine ⟨w, .tail _ hw, u, hreach, ?_⟩
        rwa [hgrows.active u] at hwhy
    · next r hnot =>
      cases ok with
      | true => exact absurd h (hnot s')
      | false => exact ⟨by simp, fun _ => ⟨v, .head _, (hf v s hs false s' h).2 rfl⟩⟩

theorem each_next_spec {f : V → Search V → Option (Bool × Search V)}
    (hf : ∀ v s, Sound next emit s → ∀ ok s', f v s = some (ok, s') →
      (ok = true → Grows next emit s s' [v] ∧ s'.mark v = .done) ∧ (ok = false → Cyclic next s v))
    {v : V} {s : Search V} (hs : Sound next emit s) (hfresh : s.mark v = .fresh) {ok : Bool}
    {s' : Search V} (h : each f (next v) (s.activate v) = some (ok, s')) :
    (ok = true → Grows next emit s (s'.finish emit v) [v]) ∧ (ok = false → Cyclic next s v) := by
  obtain ⟨htrue, hfalse⟩ := each_spec hf (next v) (hs.activate hfresh) h
  constructor
  · intro hok
    obtain ⟨hgrows, hdone⟩ := htrue hok
    have hactive : s'.mark v = .active := (hgrows.active v).2 (by simp)
    refine ⟨hgrows.sound.finish hactive hdone, fun w => ?_, fun w hw => ?_, fun w hw => ?_⟩
    · by_cases hw : w = v
      · subst hw
        simp [hfresh]
      · rw [Search.finish_of_ne hw, hgrows.active w, Search.activate_of_ne hw]
    · have hne : w ≠ v := fun heq => by
        subst heq
        simp [hfresh] at hw
      rw [Search.finish_of_ne hne]
      exact hgrows.done w (by rwa [Search.activate_of_ne hne])
    · by_cases hne : w = v
      · subst hne
        exact .inr ⟨w, List.mem_singleton_self w, .refl⟩
      · rw [Search.finish_of_ne hne] at hw
        rcases hgrows.reached w hw with hold | ⟨u, hu, hreach⟩
        · rw [Search.activate_of_ne hne] at hold
          exact .inl hold
        · exact .inr ⟨v, List.mem_singleton_self v, .head hu hreach⟩
  · intro hok
    obtain ⟨w, hw, u, hreach, hwhy⟩ := hfalse hok
    by_cases hu : u = v
    · -- The walk came back to `v` itself.
      subst hu
      exact ⟨u, .refl, .inr (TransGen.head' hw hreach)⟩
    · rw [Search.activate_of_ne hu] at hwhy
      exact ⟨u, .head hw hreach, hwhy⟩

/-- A visit appends a postorder of what it reaches, or finds a cycle. -/
theorem visit_spec (fuel : Nat) (v : V) {s : Search V} (hs : Sound next emit s) (ok : Bool)
    (s' : Search V) (h : visit next emit fuel v s = some (ok, s')) :
    (ok = true → Grows next emit s s' [v] ∧ s'.mark v = .done) ∧
      (ok = false → Cyclic next s v) := by
  induction fuel generalizing v s ok s' with
  | zero =>
    rw [visit] at h
    split at h
    · next hdone =>
      obtain ⟨rfl, rfl⟩ : true = ok ∧ s = s' := by simpa using h
      exact ⟨fun _ => ⟨.refl hs _, hdone⟩, by simp⟩
    · next hactive =>
      obtain ⟨rfl, rfl⟩ : false = ok ∧ s = s' := by simpa using h
      exact ⟨by simp, fun _ => ⟨v, .refl, .inl hactive⟩⟩
    · simp at h
  | succ fuel ih =>
    rw [visit] at h
    split at h
    · next hdone =>
      obtain ⟨rfl, rfl⟩ : true = ok ∧ s = s' := by simpa using h
      exact ⟨fun _ => ⟨.refl hs _, hdone⟩, by simp⟩
    · next hactive =>
      obtain ⟨rfl, rfl⟩ : false = ok ∧ s = s' := by simpa using h
      exact ⟨by simp, fun _ => ⟨v, .refl, .inl hactive⟩⟩
    · next hfresh =>
      have hf := fun w t ht ok' t' => @ih w t ht ok' t'
      split at h
      · next s₁ heach =>
        obtain ⟨rfl, rfl⟩ : true = ok ∧ s₁.finish emit v = s' := by simpa using h
        exact ⟨fun _ => ⟨(each_next_spec hf hs hfresh heach).1 rfl, by simp⟩, by simp⟩
      · next r hnot =>
        cases ok with
        | true => exact absurd h (hnot s')
        | false => exact ⟨by simp, (each_next_spec hf hs hfresh h).2⟩

/-! ## Fuel -/

omit [DecidableEq V] in
theorem each_freshIn {f : V → Search V → Option (Bool × Search V)} (nodes : Finset V)
    (hf : ∀ v s ok s', f v s = some (ok, s') → freshIn nodes s' ⊆ freshIn nodes s)
    (vs : List V) {s : Search V} {ok : Bool} {s' : Search V} (h : each f vs s = some (ok, s')) :
    freshIn nodes s' ⊆ freshIn nodes s := by
  induction vs generalizing s with
  | nil =>
    obtain ⟨-, rfl⟩ : true = ok ∧ s = s' := by simpa [each] using h
    exact Finset.Subset.refl _
  | cons v rest ih =>
    rw [each] at h
    split at h
    · next s₁ hvisit => exact (ih h).trans (hf v s true s₁ hvisit)
    · exact hf v s ok s' h

theorem freshIn_update {nodes : Finset V} {s : Search V} {v : V} {m : Mark} (hm : m ≠ .fresh)
    (order : List V) :
    freshIn nodes ⟨Function.update s.mark v m, order⟩ = (freshIn nodes s).erase v := by
  ext w
  by_cases hw : w = v
  · subst hw
    simp [freshIn, hm]
  · simp [freshIn, hw]

theorem visit_freshIn (nodes : Finset V) (fuel : Nat) (v : V) (s : Search V) (ok : Bool)
    (s' : Search V) (h : visit next emit fuel v s = some (ok, s')) :
    freshIn nodes s' ⊆ freshIn nodes s := by
  induction fuel generalizing v s ok s' with
  | zero =>
    rw [visit] at h
    split at h <;> simp at h <;> simp [h]
  | succ fuel ih =>
    rw [visit] at h
    split at h
    · simp at h
      simp [h]
    · simp at h
      simp [h]
    · have hactive : freshIn nodes (s.activate v) ⊆ freshIn nodes s := by
        rw [Search.activate, freshIn_update (by decide)]
        exact Finset.erase_subset _ _
      split at h
      · next s₁ heach =>
        obtain ⟨rfl, rfl⟩ : true = ok ∧ s₁.finish emit v = s' := by simpa using h
        rw [Search.finish, freshIn_update (by decide)]
        exact (Finset.erase_subset _ _).trans ((each_freshIn nodes ih (next v) heach).trans hactive)
      · exact (each_freshIn nodes ih (next v) h).trans hactive

omit [DecidableEq V] in
theorem each_some {f : V → Search V → Option (Bool × Search V)} {nodes : Finset V} {fuel : Nat}
    (hfresh : ∀ v s ok s', f v s = some (ok, s') → freshIn nodes s' ⊆ freshIn nodes s)
    (hf : ∀ v ∈ nodes, ∀ s, (freshIn nodes s).card ≤ fuel → (f v s).isSome) (vs : List V)
    (hvs : ∀ v ∈ vs, v ∈ nodes) {s : Search V} (hs : (freshIn nodes s).card ≤ fuel) :
    (each f vs s).isSome := by
  induction vs generalizing s with
  | nil => rfl
  | cons v rest ih =>
    obtain ⟨hv, hrest⟩ := List.forall_mem_cons.1 hvs
    rw [each]
    split
    · next s₁ hvisit =>
      have hle := Finset.card_le_card (hfresh v s true s₁ hvisit)
      exact ih hrest (by omega)
    · exact hf v hv s hs

/-- The search returns when the fuel covers the fresh vertices. -/
theorem visit_some {nodes : Finset V} (hnodes : ∀ v ∈ nodes, ∀ w ∈ next v, w ∈ nodes) (fuel : Nat)
    {v : V} (hv : v ∈ nodes) (s : Search V) (hs : (freshIn nodes s).card ≤ fuel) :
    (visit next emit fuel v s).isSome := by
  induction fuel generalizing v s with
  | zero =>
    rw [visit]
    split
    · rfl
    · rfl
    · next hfresh =>
      have hmem : v ∈ freshIn nodes s := Finset.mem_filter.2 ⟨hv, hfresh⟩
      have hpos := Finset.card_pos.2 ⟨v, hmem⟩
      omega
  | succ fuel ih =>
    rw [visit]
    split
    · rfl
    · rfl
    · next hfresh =>
      -- One vertex less is fresh from here on.
      have hmem : v ∈ freshIn nodes s := Finset.mem_filter.2 ⟨hv, hfresh⟩
      have hless : (freshIn nodes (s.activate v)).card ≤ fuel := by
        rw [Search.activate, freshIn_update (by decide), Finset.card_erase_of_mem hmem]
        omega
      have heach := each_some (visit_freshIn nodes fuel) (fun w hw t => ih hw t) (next v)
        (hnodes v hv) hless
      split
      · rfl
      · exact heach

/-! ## The whole search -/

/-- A cycle can be reached from a vertex. -/
def ReachesCycle (next : V → List V) (v : V) : Prop :=
  ∃ u, ReflTransGen (Step next) v u ∧ TransGen (Step next) u u

theorem visit_start_iff {fuel : Nat} {v : V} {ok : Bool} {s : Search V}
    (h : visit next emit fuel v Search.start = some (ok, s)) :
    ok = true ↔ ¬ ReachesCycle next v := by
  obtain ⟨htrue, hfalse⟩ := visit_spec fuel v .start ok s h
  constructor
  · rintro hok ⟨u, hreach, hcycle⟩
    obtain ⟨hgrows, hdone⟩ := htrue hok
    exact hgrows.sound.acyclic u (hgrows.sound.reach hdone hreach) hcycle
  · intro hnone
    by_contra hok
    obtain ⟨u, hreach, hactive | hcycle⟩ := hfalse (by simpa using hok)
    · simp [Search.start] at hactive
    · exact hnone ⟨u, hreach, hcycle⟩

theorem visit_start_done {fuel : Nat} {v : V} {s : Search V}
    (h : visit next emit fuel v Search.start = some (true, s)) :
    Sound next emit s ∧ ∀ u, s.mark u = .done ↔ ReflTransGen (Step next) v u := by
  obtain ⟨hgrows, hdone⟩ := (visit_spec fuel v .start true s h).1 rfl
  refine ⟨hgrows.sound, fun u => ⟨fun hu => ?_, hgrows.sound.reach hdone⟩⟩
  rcases hgrows.reached u hu with hstart | ⟨w, hw, hreach⟩
  · simp [Search.start] at hstart
  · rwa [List.mem_singleton.1 hw] at hreach

end UnDOS.Lib.Postorder
