import UnDOS.User.Calls

/-!
# Raising in the Z-Order

`raise_subtree` unlinks a subtree window by window and links it again in front of its siblings.
Here this is an operation on the list of the z-order (`raiseList`), which keeps a nested list
nested.

A new window starts at the very front, outside its parent's subtree; raising its branch brings it
home.
-/

namespace UnDOS.User

open UnDOS.Lib
open UnDOS.Lib.Intrusive (Threaded)
open UnDOS.Lib.Forest (climb Climbs Under Nested IsForest)

/-! ## Lists -/

section Lists
variable {anc : Slot → List Slot} {p : Slot → Option Slot} {L : List Slot} {w i : Slot}

/-- Where a subtree goes among the others. -/
def raisePlace (anc : Slot → List Slot) (q : Slot) (rest : List Slot) : Slot :=
  (rest.find? fun x => decide (q ∈ anc x)).getD q

/-- Put windows in front of one. -/
def putBefore (b : Slot) (members : List Slot) : List Slot → List Slot
  | [] => members
  | x :: rest => if x = b then members ++ x :: rest else x :: putBefore b members rest

/-- Put a subtree back among the others. -/
def graft (p : Slot → Option Slot) (anc : Slot → List Slot) (w : Slot) (members rest : List Slot) :
    List Slot :=
  match p w with
  | none => members ++ rest
  | some q => putBefore (raisePlace anc q rest) members rest

/-- `raise_subtree` on the z-order. -/
def raiseList (p : Slot → Option Slot) (anc : Slot → List Slot) (w : Slot) (L : List Slot) :
    List Slot :=
  graft p anc w (L.filter fun x => decide (Under anc x w))
    (L.filter fun x => !decide (Under anc x w))

theorem putBefore_split {b : Slot} {R : List Slot} (hb : b ∈ R) (M : List Slot) :
    ∃ R₁ R₂, R = R₁ ++ b :: R₂ ∧ b ∉ R₁ ∧ putBefore b M R = R₁ ++ (M ++ b :: R₂) := by
  induction R with
  | nil => cases hb
  | cons x R ih =>
    unfold putBefore
    by_cases hx : x = b
    · exact ⟨[], R, by rw [hx]; rfl, by simp, by rw [if_pos hx, hx]; rfl⟩
    · obtain ⟨R₁, R₂, hR, hout, hput⟩ := ih ((List.mem_cons.1 hb).resolve_left (Ne.symm hx))
      refine ⟨x :: R₁, R₂, by rw [hR]; rfl, ?_, by rw [if_neg hx, hput]; rfl⟩
      simp [Ne.symm hx, hout]

theorem find_first {f : Slot → Bool} {R₁ R₂ : List Slot} {b : Slot}
    (h : (R₁ ++ b :: R₂).find? f = some b) (hb : b ∉ R₁) : ∀ x ∈ R₁, f x = false := by
  induction R₁ with
  | nil => simp
  | cons y R₁ ih =>
    have hyb : y ≠ b := fun heq => hb (by simp [heq])
    rw [List.cons_append, List.find?_cons] at h
    rcases hy : f y with _ | _
    · rw [hy] at h
      intro x hx
      rcases List.mem_cons.1 hx with rfl | hx
      · exact hy
      · exact ih h (fun hin => hb (.tail _ hin)) x hx
    · rw [hy] at h
      exact absurd (Option.some.inj h) hyb

theorem raisePlace_mem (anc : Slot → List Slot) {q : Slot} {rest : List Slot} (hq : q ∈ rest) :
    raisePlace anc q rest ∈ rest := by
  unfold raisePlace
  rcases hfind : rest.find? (fun x => decide (q ∈ anc x)) with _ | b
  · exact hq
  · exact List.mem_of_find?_eq_some hfind

theorem raisePlace_under {q : Slot} {rest : List Slot} : Under anc (raisePlace anc q rest) q := by
  unfold raisePlace
  rcases hfind : rest.find? (fun x => decide (q ∈ anc x)) with _ | b
  · exact .inl rfl
  · exact .inr (by simpa using List.find?_some hfind)


theorem parent_not_under (hclimbs : Climbs p anc) {q : Slot} (hp : p w = some q) :
    ¬Under anc q w := by
  have hmem : q ∈ anc w := by
    rw [hclimbs.parent hp]
    exact .head _
  rintro (rfl | hqw)
  · exact hclimbs.irrefl hmem
  · exact hclimbs.irrefl (hclimbs.trans hqw hmem)

/-- A subtree that goes back as one block leaves the subtrees around it whole. -/
theorem nested_graft (hclimbs : Climbs p anc) {members rest : List Slot}
    (hM : Nested (Under anc) members) (hR : Nested (Under anc) rest)
    (hin : ∀ x ∈ members, Under anc x w) (hout : ∀ x ∈ rest, ¬Under anc x w)
    (hparent : ∀ q, p w = some q → q ∈ rest) : Nested (Under anc) (graft p anc w members rest) := by
  have hU := hclimbs.isForest
  unfold graft
  rcases hp : p w with _ | q
  · exact Nested.graft_front hU hM hR hin hout fun a ha => Under.root hclimbs hp ha
  · dsimp only
    have hq : q ∈ rest := hparent q hp
    have hwq : Under anc w q := .inr (by rw [hclimbs.parent hp]; exact .head _)
    obtain ⟨R₁, R₂, hsplit, hfront, hput⟩ := putBefore_split (raisePlace_mem anc hq) members
    rw [hput]
    rw [hsplit] at hR hout
    refine Nested.graft hU hM hR hin hout hwq (fun a ha => Under.parent hclimbs hp ha)
      raisePlace_under ?_
    -- In front of the place: neither the parent nor a window below it.
    intro x hx hxq
    have hahead := (List.pairwise_append.1 hR.ahead).2.2 x hx _ (.head _)
    rcases hxq with rfl | hxq
    · exact hahead raisePlace_under
    · rcases hfind : rest.find? (fun x => decide (q ∈ anc x)) with _ | b
      · have hxrest : x ∈ rest := by rw [hsplit]; exact List.mem_append_left _ hx
        have hnone := List.find?_eq_none.1 hfind x hxrest
        exact hnone (decide_eq_true hxq)
      · have hplace : raisePlace anc q rest = b := by
          unfold raisePlace
          rw [hfind]
          rfl
        rw [hplace] at hsplit hfront
        rw [hsplit] at hfind
        have hno := find_first hfind hfront x hx
        exact absurd hxq (of_decide_eq_false hno)

theorem nested_raiseList (hclimbs : Climbs p anc) (h : Nested (Under anc) L)
    (hparent : ∀ q, p w = some q → q ∈ L) : Nested (Under anc) (raiseList p anc w L) := by
  apply nested_graft hclimbs (h.filter _) (h.filter _)
  · intro x hx
    exact of_decide_eq_true (List.mem_filter.1 hx).2
  · intro x hx
    simpa using (List.mem_filter.1 hx).2
  · intro q hp
    rw [List.mem_filter]
    exact ⟨hparent q hp, by simpa using parent_not_under hclimbs hp⟩

theorem putBefore_perm (b : Slot) (M R : List Slot) : (putBefore b M R).Perm (M ++ R) := by
  induction R with
  | nil => rw [List.append_nil]; exact List.Perm.refl _
  | cons x R ih =>
    unfold putBefore
    split
    · exact List.Perm.refl _
    · exact (ih.cons x).trans List.perm_middle.symm

theorem graft_perm (M R : List Slot) : (graft p anc w M R).Perm (M ++ R) := by
  unfold graft
  rcases p w with _ | q
  · exact List.Perm.refl _
  · exact putBefore_perm _ M R

theorem raiseList_perm (L : List Slot) : (raiseList p anc w L).Perm L :=
  (graft_perm _ _).trans (List.filter_append_perm (fun x => decide (Under anc x w)) L)

/-! ## A new window -/

theorem putBefore_filter (f : Slot → Bool) (b : Slot) (M : List Slot) {R : List Slot}
    (hR : ∀ x ∈ R, f x = true) : (putBefore b M R).filter f = putBefore b (M.filter f) R := by
  have hself : ∀ {K : List Slot}, (∀ x ∈ K, f x = true) → K.filter f = K :=
    List.filter_eq_self.2
  induction R with
  | nil => rfl
  | cons x R ih =>
    unfold putBefore
    split
    · rw [List.filter_append, hself hR]
    · rw [List.filter_cons_of_pos (hR x (.head _)),
        ih fun y hy => hR y (.tail _ hy)]

/-- Without a window of the raised subtree, raising is raising. -/
theorem raiseList_erase (hi : Under anc i w) (L : List Slot) :
    (raiseList p anc w L).filter (· ≠ i) = raiseList p anc w (L.filter (· ≠ i)) := by
  have hrest : ∀ x ∈ L.filter (fun x => !decide (Under anc x w)), decide (x ≠ i) = true := by
    intro x hx
    have hout : ¬Under anc x w := by simpa using (List.mem_filter.1 hx).2
    exact decide_eq_true fun heq => hout (heq ▸ hi)
  have hrest' : (L.filter fun x => !decide (Under anc x w)).filter (· ≠ i) =
      L.filter fun x => !decide (Under anc x w) := List.filter_eq_self.2 hrest
  unfold raiseList graft
  rw [List.filter_comm (fun x => decide (Under anc x w)),
    List.filter_comm (fun x => !decide (Under anc x w)),
    hrest']
  rcases p w with _ | q
  · rw [List.filter_append, hrest']
  · exact putBefore_filter _ _ _ hrest

/-- Raise the windows of a branch, the last one first. -/
def raiseListBranch (p : Slot → Option Slot) (anc : Slot → List Slot) (branch L : List Slot) :
    List Slot := branch.foldr (raiseList p anc) L

theorem raiseListBranch_perm (branch L : List Slot) : (raiseListBranch p anc branch L).Perm L := by
  induction branch with
  | nil => exact List.Perm.refl _
  | cons a branch ih => exact (raiseList_perm _).trans ih

theorem nested_raiseListBranch (hclimbs : Climbs p anc) (h : Nested (Under anc) L)
    {branch : List Slot} (hparent : ∀ a ∈ branch, ∀ q, p a = some q → q ∈ L) :
    Nested (Under anc) (raiseListBranch p anc branch L) := by
  induction branch with
  | nil => exact h
  | cons a branch ih =>
    apply nested_raiseList hclimbs (ih fun b hb => hparent b (.tail _ hb))
    intro q hq
    exact (raiseListBranch_perm branch L).mem_iff.2 (hparent a (.head _) q hq)

theorem raiseListBranch_erase {branch : List Slot} (hi : ∀ a ∈ branch, Under anc i a)
    (L : List Slot) :
    (raiseListBranch p anc branch L).filter (· ≠ i) =
      raiseListBranch p anc branch (L.filter (· ≠ i)) := by
  induction branch with
  | nil => rfl
  | cons a branch ih =>
    show (raiseList p anc a (raiseListBranch p anc branch L)).filter (· ≠ i) =
      raiseList p anc a (raiseListBranch p anc branch (L.filter (· ≠ i)))
    rw [raiseList_erase (hi a (.head _)), ih fun b hb => hi b (.tail _ hb)]

theorem nested_insert (hclimbs : Climbs p anc) (h : Nested (Under anc) L) (hi : i ∉ L)
    (hleaf : ∀ x ∈ L, i ∉ anc x) (hanc : ∀ a ∈ anc i, a ∈ L) :
    Nested (Under anc) (raiseListBranch p anc (i :: anc i) (i :: L)) := by
  have hU := hclimbs.isForest
  -- Above the new window only old ones are raised.
  have hold : (raiseListBranch p anc (anc i) (i :: L)).filter (· ≠ i) =
      raiseListBranch p anc (anc i) L := by
    rw [raiseListBranch_erase fun a ha => .inr ha, List.filter_cons_of_neg (by simp),
      List.filter_eq_self.2 fun x hx => decide_eq_true (show x ≠ i from fun heq => hi (heq ▸ hx))]
  have hparents : ∀ a ∈ anc i, ∀ q, p a = some q → q ∈ L := by
    intro a ha q hq
    refine hanc q (hclimbs.trans ha ?_)
    rw [hclimbs.parent hq]
    exact .head _
  have hN : Nested (Under anc) (raiseListBranch p anc (anc i) L) :=
    nested_raiseListBranch hclimbs h hparents
  have hmem : ∀ x, x ∈ raiseListBranch p anc (anc i) (i :: L) ↔ x = i ∨ x ∈ L := by
    intro x
    rw [(raiseListBranch_perm (anc i) (i :: L)).mem_iff, List.mem_cons]
  have hnodup : (raiseListBranch p anc (anc i) (i :: L)).Nodup :=
    (raiseListBranch_perm (anc i) (i :: L)).nodup_iff.2 (List.nodup_cons.2 ⟨hi, h.nodup hU⟩)
  have hunder : ∀ x ∈ raiseListBranch p anc (anc i) (i :: L), (Under anc x i ↔ x = i) := by
    intro x hx
    refine ⟨?_, .inl⟩
    rintro (rfl | hxi)
    · rfl
    · rcases (hmem x).1 hx with rfl | hxL
      · rfl
      · exact absurd hxi (hleaf x hxL)
  have hmembers : (raiseListBranch p anc (anc i) (i :: L)).filter
      (fun x => decide (Under anc x i)) = [i] := by
    rw [List.filter_congr fun x hx => by rw [decide_eq_decide.2 (hunder x hx)], List.filter_eq,
      List.count_eq_one_of_mem hnodup ((hmem i).2 (.inl rfl))]
    rfl
  have hrest : (raiseListBranch p anc (anc i) (i :: L)).filter (fun x => !decide (Under anc x i)) =
      raiseListBranch p anc (anc i) L := by
    rw [← hold]
    refine List.filter_congr fun x hx => ?_
    simp [hunder x hx]
  show Nested (Under anc) (raiseList p anc i (raiseListBranch p anc (anc i) (i :: L)))
  unfold raiseList
  rw [hmembers, hrest]
  have hNmem : ∀ x, x ∈ raiseListBranch p anc (anc i) L ↔ x ∈ L :=
    fun x => (raiseListBranch_perm (anc i) L).mem_iff
  -- The new window is a leaf, so that it goes back alone.
  refine nested_graft hclimbs (Forest.nested_singleton i) hN ?_ ?_ ?_
  · intro x hx
    exact .inl (List.mem_singleton.1 hx)
  · rintro x hx (rfl | hxi)
    · exact hi ((hNmem x).1 hx)
    · exact hleaf x ((hNmem x).1 hx) hxi
  · intro q hq
    refine (hNmem q).2 (hanc q ?_)
    rw [hclimbs.parent hq]
    exact .head _

end Lists

/-! ## Links -/

/-- The z-order runs through the windows of `L`. -/
def Stacked (s : State) (L : List Slot) : Prop := Threaded s.links s.top L

/-- Only the z-order may differ. -/
def Restacked (s s' : State) : Prop := ∃ links top, s' = { s with links := links, top := top }

theorem Restacked.refl (s : State) : Restacked s s := ⟨s.links, s.top, rfl⟩

theorem Restacked.trans {s s' s'' : State} (h : Restacked s s') (h' : Restacked s' s'') :
    Restacked s s'' := by
  obtain ⟨links, top, rfl⟩ := h
  obtain ⟨links', top', rfl⟩ := h'
  exact ⟨links', top', rfl⟩

theorem Restacked.parentOf {s s' : State} (h : Restacked s s') : parentOf s' = parentOf s := by
  obtain ⟨links, top, rfl⟩ := h
  rfl

theorem Restacked.ancestors {s s' : State} (h : Restacked s s') : ancestors s' = ancestors s := by
  obtain ⟨links, top, rfl⟩ := h
  rfl

section Links
variable {s : State} {L M : List Slot} {w : Slot}

theorem downwards_eq {links : Intrusive.Links Slot} {top : Option Slot} {A L : List Slot}
    (h : Threaded links top (A ++ L)) {fuel : Nat} (hfuel : L.length ≤ fuel) :
    downwards links fuel L.head? = L := by
  induction fuel generalizing A L with
  | zero =>
    rw [List.length_eq_zero_iff.1 (Nat.le_zero.1 hfuel)]
    rfl
  | succ fuel ih =>
    cases L with
    | nil => rfl
    | cons x L =>
      obtain ⟨hnext, -⟩ := h.link A x L rfl
      show x :: downwards links fuel (links.next x) = x :: L
      rw [hnext, ih (A := A ++ [x]) (by simpa using h) (Nat.le_of_succ_le_succ hfuel)]

theorem Stacked.zOrder (h : Stacked s L) : zOrder s = L := by
  have hlength : L.length ≤ 64 := by simpa using h.nodup.length_le_card
  unfold User.zOrder
  rw [h.head]
  exact downwards_eq (A := []) h hlength

theorem Stacked.unlinkZ (h : Stacked s L) (hw : w ∈ L) :
    Stacked (User.unlinkZ s w) (L.filter (· ≠ w)) := by
  obtain ⟨A, B, rfl⟩ := List.append_of_mem hw
  have hout : ∀ x ∈ A ++ B, x ≠ w := by
    have hnodup := h.nodup
    rw [List.nodup_middle, List.nodup_cons] at hnodup
    intro x hx heq
    exact hnodup.1 (heq ▸ hx)
  have hfilter : (A ++ w :: B).filter (· ≠ w) = A ++ B := by
    rw [List.filter_append, List.filter_cons_of_neg (by simp), ← List.filter_append,
      List.filter_eq_self.2 fun x hx => decide_eq_true (hout x hx)]
  rw [hfilter]
  exact Threaded.remove h

theorem restacked_unlinkZ (s : State) (w : Slot) : Restacked s (unlinkZ s w) := ⟨_, _, rfl⟩

theorem restacked_linkTop (s : State) (w : Slot) : Restacked s (linkTop s w) := ⟨_, _, rfl⟩

theorem restacked_linkAbove (b : Slot) (s : State) (w : Slot) : Restacked s (linkAbove b s w) :=
  ⟨_, _, rfl⟩

theorem restacked_foldl {f : State → Slot → State} (hf : ∀ s w, Restacked s (f s w)) (s : State)
    (M : List Slot) : Restacked s (M.foldl f s) := by
  induction M generalizing s with
  | nil => exact Restacked.refl s
  | cons x M ih => exact (hf s x).trans (ih (f s x))

theorem restacked_foldr {f : Slot → State → State} (hf : ∀ s w, Restacked s (f w s)) (s : State)
    (M : List Slot) : Restacked s (M.foldr f s) := by
  induction M with
  | nil => exact Restacked.refl s
  | cons x M ih => exact ih.trans (hf (M.foldr f s) x)

theorem Stacked.unlinkAll (h : Stacked s L) (hM : M.Nodup) (hsub : ∀ x ∈ M, x ∈ L) :
    Stacked (M.foldl User.unlinkZ s) (L.filter fun x => decide (x ∉ M)) := by
  induction M generalizing s L with
  | nil =>
    rw [List.filter_eq_self.2 fun x _ => by simp]
    exact h
  | cons x M ih =>
    obtain ⟨hx, hM⟩ := List.nodup_cons.1 hM
    have hstep := h.unlinkZ (hsub x (.head _))
    have hrest : ∀ y ∈ M, y ∈ L.filter (· ≠ x) := by
      intro y hy
      rw [List.mem_filter]
      exact ⟨hsub y (.tail _ hy), decide_eq_true fun heq => hx (heq ▸ hy)⟩
    have hall := ih hstep hM hrest
    have hfilter : (L.filter (· ≠ x)).filter (fun y => decide (y ∉ M)) =
        L.filter fun y => decide (y ∉ x :: M) := by
      rw [List.filter_filter]
      refine List.filter_congr fun y _ => ?_
      by_cases hyx : y = x <;> by_cases hyM : y ∈ M <;> simp [hyM]
    rw [hfilter] at hall
    exact hall

theorem Stacked.linkAboveAll {b : Slot} {R T : List Slot} (h : Stacked s (R ++ b :: T))
    (hM : M.Nodup) (hout : ∀ x ∈ M, x ∉ R ++ b :: T) :
    Stacked (M.foldl (linkAbove b) s) (R ++ (M ++ b :: T)) := by
  induction M generalizing s R with
  | nil => exact h
  | cons x M ih =>
    obtain ⟨hx, hM⟩ := List.nodup_cons.1 hM
    have hstep : Stacked (linkAbove b s x) ((R ++ [x]) ++ b :: T) := by
      have hinsert := Threaded.insertBefore h (hout x (.head _))
      rw [List.append_assoc]
      exact hinsert
    have hall := ih hstep hM ?_
    · rw [List.append_assoc] at hall
      exact hall
    · intro y hy hin
      rw [List.append_assoc, List.mem_append] at hin
      rcases hin with hin | hin
      · exact hout y (.tail _ hy) (List.mem_append_left _ hin)
      · rcases List.mem_cons.1 hin with rfl | hin
        · exact hx hy
        · exact hout y (.tail _ hy) (List.mem_append_right _ hin)

theorem Stacked.linkTop (h : Stacked s L) (hw : w ∉ L) : Stacked (User.linkTop s w) (w :: L) :=
  Threaded.pushFront h hw

theorem Stacked.linkTopAll (h : Stacked s []) (hM : M.Nodup) :
    Stacked (M.foldr (fun it s => User.linkTop s it) s) M := by
  induction M with
  | nil => exact h
  | cons x M ih =>
    obtain ⟨hx, hM⟩ := List.nodup_cons.1 hM
    exact (ih hM).linkTop hx

/-- `raise_subtree` does to the links what `raiseList` does to the list. -/
theorem Stacked.raiseSubtree (h : Stacked s L) (hclimbs : Climbs (parentOf s) (ancestors s))
    (hparent : ∀ q, parentOf s w = some q → q ∈ L) :
    Stacked (User.raiseSubtree s w) (raiseList (parentOf s) (ancestors s) w L) ∧
      Restacked s (User.raiseSubtree s w) := by
  have hmembers : ((User.zOrder s).filter fun it => it == w || descendant s it w) =
      L.filter fun x => decide (Under (ancestors s) x w) := by
    rw [h.zOrder]
    refine List.filter_congr fun x _ => ?_
    by_cases hx : x = w <;> simp [descendant, Under, hx]
  unfold User.raiseSubtree
  rw [hmembers]
  dsimp only
  have hMsub : ∀ x ∈ L.filter (fun x => decide (Under (ancestors s) x w)), x ∈ L :=
    fun x hx => List.mem_of_mem_filter hx
  have hMnodup : (L.filter fun x => decide (Under (ancestors s) x w)).Nodup := h.nodup.filter _
  have hrest : (L.filter fun x => decide (x ∉ L.filter fun x => decide (Under (ancestors s) x w))) =
      L.filter fun x => !decide (Under (ancestors s) x w) := by
    refine List.filter_congr fun x hx => ?_
    by_cases hu : Under (ancestors s) x w <;> simp [hx]
  have hR := h.unlinkAll hMnodup hMsub
  rw [hrest] at hR
  have hsame := restacked_foldl restacked_unlinkZ s (L.filter
    fun x => decide (Under (ancestors s) x w))
  have hapart : ∀ x ∈ L.filter (fun x => decide (Under (ancestors s) x w)),
      x ∉ L.filter fun x => !decide (Under (ancestors s) x w) := by
    intro x hx hx'
    have h₁ := (List.mem_filter.1 hx).2
    have h₂ := (List.mem_filter.1 hx').2
    rw [h₁] at h₂
    exact Bool.noConfusion h₂
  have hdescendant : ∀ x a, descendant (List.foldl User.unlinkZ s
      (L.filter fun x => decide (Under (ancestors s) x w))) x a = decide (a ∈ ancestors s x) := by
    unfold descendant
    rw [hsame.ancestors]
    simp
  generalize hs₁ : List.foldl User.unlinkZ s (L.filter fun x => decide (Under (ancestors s) x w)) =
    s₁
    at hR hsame hdescendant ⊢
  unfold raiseBefore raiseList graft
  rw [hsame.parentOf]
  rcases hp : parentOf s w with _ | q
  · rw [hR.head]
    rcases hnil : L.filter (fun x => !decide (Under (ancestors s) x w)) with _ | ⟨b, R₂⟩
    · rw [hnil] at hR
      rw [List.append_nil]
      exact ⟨hR.linkTopAll hMnodup, hsame.trans (restacked_foldr restacked_linkTop _ _)⟩
    · rw [hnil] at hR hapart
      exact ⟨hR.linkAboveAll (R := []) hMnodup hapart,
        hsame.trans (restacked_foldl (restacked_linkAbove b) _ _)⟩
  · dsimp only
    have hplace : ((User.zOrder s₁).find? fun it => descendant s₁ it q).getD q =
        raisePlace (ancestors s) q (L.filter fun x => !decide (Under (ancestors s) x w)) := by
      rw [hR.zOrder]
      congr 2
      funext x
      exact hdescendant x q
    rw [hplace]
    have hq : q ∈ L.filter fun x => !decide (Under (ancestors s) x w) := by
      rw [List.mem_filter]
      exact ⟨hparent q hp, by simpa using parent_not_under hclimbs hp⟩
    obtain ⟨R₁, R₂, hsplit, -, hput⟩ := putBefore_split (raisePlace_mem (ancestors s) hq)
      (L.filter fun x => decide (Under (ancestors s) x w))
    rw [hput]
    refine ⟨?_, hsame.trans (restacked_foldl (restacked_linkAbove _) _ _)⟩
    refine Stacked.linkAboveAll (hsplit ▸ hR) hMnodup fun x hx => ?_
    rw [← hsplit]
    exact hapart x hx

theorem Stacked.raiseAll (h : Stacked s L) (hclimbs : Climbs (parentOf s) (ancestors s))
    {branch : List Slot} (hparent : ∀ a ∈ branch, ∀ q, parentOf s a = some q → q ∈ L) :
    Stacked (branch.foldr (fun a s => User.raiseSubtree s a) s)
        (raiseListBranch (parentOf s) (ancestors s) branch L) ∧
      Restacked s (branch.foldr (fun a s => User.raiseSubtree s a) s) := by
  induction branch with
  | nil => exact ⟨h, Restacked.refl s⟩
  | cons a branch ih =>
    obtain ⟨hstack, hsame⟩ := ih fun b hb => hparent b (.tail _ hb)
    have hstep := hstack.raiseSubtree (w := a) (by
        rw [hsame.parentOf, hsame.ancestors]
        exact hclimbs)
      (by
        intro q hq
        rw [hsame.parentOf] at hq
        exact (raiseListBranch_perm branch L).mem_iff.2 (hparent a (.head _) q hq))
    rw [hsame.parentOf, hsame.ancestors] at hstep
    exact ⟨hstep.1, hsame.trans hstep.2⟩

end Links

end UnDOS.User
