import UnDOS.User.Menus

/-!
# The menu forest

`MenusOk`: every submenu has its parent, every parent has its submenu once, and the parents lead up
to a menu without one.
-/

namespace UnDOS.User

open UnDOS.Lib
open UnDOS.Lib.Forest (Climbs Under)

/-! ## Handles -/

section Handles

variable {M : Menus} {i j : MenuSlot} {handle : Nat}

theorem lookupMenu_iff :
    lookupMenu M handle = some i ↔ (M i).used = true ∧ handle = menuHandle M i := by
  rw [lookupMenu]
  constructor
  · intro h
    split at h
    · next hrange =>
      dsimp only at h
      split at h
      · next hlive =>
        cases h
        refine ⟨hlive.1, ?_⟩
        rw [menuHandle]
        dsimp only
        omega
      · cases h
    · cases h
  · rintro ⟨hused, rfl⟩
    have hslot : menuHandle M i % 2 ^ 16 = i + 1 := by
      rw [menuHandle]
      omega
    have hgeneration : menuHandle M i / 2 ^ 16 = (M i).generation := by
      rw [menuHandle]
      omega
    have hsame : (⟨menuHandle M i % 2 ^ 16 - 1, by omega⟩ : MenuSlot) = i := by
      apply Fin.ext
      dsimp only
      omega
    rw [dif_pos (by omega)]
    rw [hsame, if_pos ⟨hused, hgeneration.symm⟩]

theorem menuHandle_ne_zero (M : Menus) (i : MenuSlot) : menuHandle M i ≠ 0 := by
  rw [menuHandle]
  omega

theorem menuHandle_inj {M' : Menus} (h : menuHandle M i = menuHandle M' j) : i = j := by
  rw [menuHandle, menuHandle] at h
  apply Fin.ext
  omega

theorem menuHandle_congr {M' : Menus} (h : (M' i).generation = (M i).generation) :
    menuHandle M' i = menuHandle M i := by
  rw [menuHandle, menuHandle, h]

end Handles

/-! ## The forest -/

/-- `j` is the submenu of an entry of `i`. -/
def Submenu (M : Menus) (i j : MenuSlot) : Prop :=
  (M i).used = true ∧ ∃ item ∈ (M i).submenus, lookupMenu M item = some j

/-- Parents and entries agree, and the parents lead upwards. -/
structure MenusOk (M : Menus) : Prop where
  entry : ∀ i, (M i).used = true → ∀ item ∈ (M i).submenus, ∃ j, (M j).used = true ∧
    item = menuHandle M j ∧ (M j).popup = true ∧ (M j).owner = (M i).owner ∧
    (M j).parent = menuHandle M i
  parent : ∀ j, (M j).used = true → (M j).parent ≠ 0 → ∃ i, (M i).used = true ∧
    (M j).parent = menuHandle M i ∧ (M i).submenus.count (menuHandle M j) = 1
  ranked : ∃ rank : MenuSlot → Nat, ∀ j i, (M j).used = true → (M i).used = true →
    (M j).parent = menuHandle M i → rank i < rank j

namespace MenusOk

variable {M M' : Menus}

theorem submenu (h : MenusOk M) {i j : MenuSlot} (hsub : Submenu M i j) :
    (M j).used = true ∧ (M j).owner = (M i).owner ∧ (M j).parent = menuHandle M i := by
  obtain ⟨hi, item, hitem, hlookup⟩ := hsub
  obtain ⟨k, hk, rfl, -, howner, hparent⟩ := h.entry i hi item hitem
  obtain ⟨hj, heq⟩ := lookupMenu_iff.1 hlookup
  obtain rfl := menuHandle_inj heq
  exact ⟨hj, howner, hparent⟩

theorem acyclic (h : MenusOk M) (i : MenuSlot) : ¬ Relation.TransGen (Submenu M) i i := by
  obtain ⟨rank, hrank⟩ := h.ranked
  have hrise : ∀ x y, Relation.TransGen (Submenu M) x y → rank x < rank y := by
    intro x y hxy
    induction hxy with
    | single hstep =>
      obtain ⟨hy, -, hparent⟩ := h.submenu hstep
      exact hrank _ _ hy hstep.1 hparent
    | tail _ hstep ih =>
      obtain ⟨hy, -, hparent⟩ := h.submenu hstep
      exact ih.trans (hrank _ _ hy hstep.1 hparent)
  intro hcycle
  exact absurd (hrise i i hcycle) (lt_irrefl _)

theorem congr (h : MenusOk M) (hused : ∀ k, (M' k).used = (M k).used)
    (hpopup : ∀ k, (M' k).popup = (M k).popup)
    (hgeneration : ∀ k, (M' k).generation = (M k).generation)
    (howner : ∀ k, (M' k).owner = (M k).owner) (hparent : ∀ k, (M' k).parent = (M k).parent)
    (hsubmenus : ∀ k, (M' k).submenus = (M k).submenus) : MenusOk M' := by
  have hhandle : ∀ k, menuHandle M' k = menuHandle M k := fun k => menuHandle_congr (hgeneration k)
  constructor
  · simp only [hused, hpopup, howner, hparent, hsubmenus, hhandle]
    exact h.entry
  · simp only [hused, hparent, hsubmenus, hhandle]
    exact h.parent
  · simp only [hused, hparent, hhandle]
    exact h.ranked

end MenusOk

/-! ## The walk down -/

/-- The parent of a menu. -/
def parentMenu (M : Menus) (j : MenuSlot) : Option MenuSlot :=
  if (M j).used then lookupMenu M (M j).parent else none

theorem parentMenu_iff {M : Menus} {i j : MenuSlot} : parentMenu M j = some i ↔
      (M j).used = true ∧ (M i).used = true ∧ (M j).parent = menuHandle M i := by
  rw [parentMenu]
  split
  · next hj => rw [lookupMenu_iff]; simp [hj]
  · next hj => simp [hj]

/-- The menus above a menu, nearest first. -/
def menusAbove (M : Menus) (j : MenuSlot) : List MenuSlot :=
    Forest.climb (parentMenu M) 32 (parentMenu M j)

namespace MenusOk

variable {M : Menus}

theorem climbs (h : MenusOk M) : Climbs (parentMenu M) (menusAbove M) := by
  obtain ⟨rank, hrank⟩ := h.ranked
  have hall := Forest.climbs_of_rank (p := parentMenu M) (S := fun _ => True) (fun _ _ _ => trivial)
    fun j i _ hparent => hrank j i (parentMenu_iff.1 hparent).1 (parentMenu_iff.1 hparent).2.1
      (parentMenu_iff.1 hparent).2.2
  exact hall

theorem parentMenu_submenu (h : MenusOk M) {i j : MenuSlot} (hparent : parentMenu M j = some i) :
    menuHandle M j ∈ (M i).submenus := by
  obtain ⟨hj, -, heq⟩ := parentMenu_iff.1 hparent
  obtain ⟨k, -, heq', hcount⟩ := h.parent j hj (heq ▸ menuHandle_ne_zero M i)
  obtain rfl := menuHandle_inj (heq.symm.trans heq')
  exact List.count_pos_iff.1 (by omega)

theorem menuContains_of_depth (h : MenusOk M) {i : MenuSlot} (fuel : Nat) {x : MenuSlot}
    (hunder : Under (menusAbove M) i x) (hused : (M x).used = true)
    (hfuel : (menusAbove M i).length ≤ fuel + (menusAbove M x).length) :
    menuContains M fuel (menuHandle M x) (menuHandle M i) = true := by
  induction fuel generalizing x with
  | zero =>
    rcases hunder with rfl | habove
    · simp [menuContains]
    · obtain ⟨A, hA⟩ := h.climbs.suffix habove
      rw [hA, List.length_append, List.length_cons] at hfuel
      omega
  | succ fuel ih =>
    rcases hunder with rfl | habove
    · simp [menuContains]
    · obtain ⟨y, hy, hparent⟩ := h.climbs.child habove
      have hlength : (menusAbove M y).length = (menusAbove M x).length + 1 := by
        rw [h.climbs.parent hparent, List.length_cons]
      have hchild := ih hy (parentMenu_iff.1 hparent).1 (by omega)
      have hlookup : lookupMenu M (menuHandle M x) = some x := lookupMenu_iff.2 ⟨hused, rfl⟩
      rw [menuContains, hlookup, Bool.or_eq_true]
      exact .inr (List.any_eq_true.2 ⟨_, h.parentMenu_submenu hparent, hchild⟩)

theorem menuContains_of_under (h : MenusOk M) {i x : MenuSlot}
    (hunder : Under (menusAbove M) i x) (hused : (M x).used = true) :
    menuContains M maxMenus (menuHandle M x) (menuHandle M i) = true := by
  apply h.menuContains_of_depth maxMenus hunder hused
  have hshort : (menusAbove M i).length ≤ 32 := by
    simpa using (h.climbs.nodup i).length_le_card
  rw [maxMenus]
  omega

end MenusOk

/-! ## Creating and appending -/

namespace MenusOk

variable {M M' : Menus}

theorem created (h : MenusOk M) {i : MenuSlot} (hfree : (M i).used = false)
    (hsame : ∀ k, k ≠ i → M' k = M k) (hparent : (M' i).parent = 0)
    (hentries : (M' i).submenus = []) : MenusOk M' := by
  have hother : ∀ {k}, (M k).used = true → k ≠ i := by
    rintro k hk rfl
    rw [hfree] at hk
    cases hk
  have hhandle : ∀ {k}, k ≠ i → menuHandle M' k = menuHandle M k := fun hk =>
    menuHandle_congr (by rw [hsame _ hk])
  constructor
  · intro k hk item hitem
    by_cases hki : k = i
    · rw [hki, hentries] at hitem
      cases hitem
    · rw [hsame k hki] at hk hitem ⊢
      obtain ⟨j, hj, rfl, hpopup, howner, heq⟩ := h.entry k hk item hitem
      have hji := hother hj
      exact ⟨j, by rw [hsame j hji]; exact hj, (hhandle hji).symm,
        by rw [hsame j hji]; exact hpopup, by rw [hsame j hji]; exact howner,
        by rw [hsame j hji, hhandle hki]; exact heq⟩
  · intro j hj hne
    have hji : j ≠ i := by
      rintro rfl
      exact hne hparent
    rw [hsame j hji] at hj hne ⊢
    obtain ⟨k, hk, heq, hcount⟩ := h.parent j hj hne
    have hki := hother hk
    exact ⟨k, by rw [hsame k hki]; exact hk, by rw [hhandle hki]; exact heq,
      by rw [hsame k hki, hhandle hji]; exact hcount⟩
  · obtain ⟨rank, hrank⟩ := h.ranked
    refine ⟨rank, fun j k hj hk heq => ?_⟩
    have hji : j ≠ i := by
      rintro rfl
      rw [hparent] at heq
      exact menuHandle_ne_zero _ _ heq.symm
    rw [hsame j hji] at hj heq
    -- The parent was there before, so that it is not the new menu.
    obtain ⟨l, hl, heq', -⟩ := h.parent j hj (heq ▸ menuHandle_ne_zero _ _)
    obtain rfl := menuHandle_inj (heq.symm.trans heq')
    exact hrank j k hj hl heq'

theorem ranked_under (h : MenusOk M) {i j : MenuSlot} (hj : (M j).used = true)
    (hout : ¬ Under (menusAbove M) i j) :
    ∃ rank : MenuSlot → Nat, rank i < rank j ∧ ∀ x y, parentMenu M x = some y → x ≠ j →
      rank y < rank x := by
  obtain ⟨rank, hrank⟩ := h.ranked
  have hclimbs := h.climbs
  refine ⟨fun x => if Under (menusAbove M) x j then rank x + (rank i + 1) else rank x, ?_, ?_⟩
  · dsimp only
    rw [if_neg hout, if_pos (show Under (menusAbove M) j j from .inl rfl)]
    omega
  · intro x y hparent hxj
    obtain ⟨hx, hy, heq⟩ := parentMenu_iff.1 hparent
    have hlt := hrank x y hx hy heq
    dsimp only
    by_cases hunder : Under (menusAbove M) x j
    · -- The parent of what lies below `j` lies there too.
      have hparent' := (hunder.parent hclimbs hparent).resolve_left hxj.symm
      rw [if_pos hunder, if_pos hparent']
      omega
    · have hnot : ¬ Under (menusAbove M) y j := by
        intro hyj
        refine hunder (.inr ?_)
        rw [hclimbs.parent hparent]
        rcases hyj with rfl | hyj
        · exact .head _
        · exact .tail _ hyj
      rw [if_neg hunder, if_neg hnot]
      exact hlt

/-- A popup without a parent becomes a submenu of a menu that does not lie below it. -/
theorem appended (h : MenusOk M) {i j : MenuSlot} (hi : (M i).used = true) (hj : (M j).used = true)
    (hpopup : (M j).popup = true) (howner : (M j).owner = (M i).owner) (hroot : (M j).parent = 0)
    (hout : ¬ Under (menusAbove M) i j) (hused : ∀ k, (M' k).used = (M k).used)
    (hpopups : ∀ k, (M' k).popup = (M k).popup)
    (hgeneration : ∀ k, (M' k).generation = (M k).generation)
    (howners : ∀ k, (M' k).owner = (M k).owner)
    (hparents : ∀ k, (M' k).parent = if k = j then menuHandle M i else (M k).parent)
    (hsubmenus : ∀ k, (M' k).submenus =
      if k = i then (M k).submenus ++ [menuHandle M j] else (M k).submenus) : MenusOk M' := by
  have hhandle : ∀ k, menuHandle M' k = menuHandle M k := fun k => menuHandle_congr (hgeneration k)
  -- So far no entry names the popup.
  have hfresh : ∀ k, (M k).used = true → menuHandle M j ∉ (M k).submenus := by
    intro k hk hmem
    obtain ⟨l, -, heq, -, -, hparent⟩ := h.entry k hk _ hmem
    obtain rfl := menuHandle_inj heq
    rw [hroot] at hparent
    exact menuHandle_ne_zero M k hparent.symm
  constructor
  · intro k hk item hitem
    rw [hused] at hk
    rw [hsubmenus] at hitem
    have hcases : item ∈ (M k).submenus ∨ (k = i ∧ item = menuHandle M j) := by
      split at hitem
      · next hki =>
        rcases List.mem_append.1 hitem with hold | hnew
        · exact .inl hold
        · exact .inr ⟨hki, List.mem_singleton.1 hnew⟩
      · exact .inl hitem
    rcases hcases with hold | ⟨rfl, rfl⟩
    · obtain ⟨l, hl, rfl, hlpopup, hlowner, hparent⟩ := h.entry k hk item hold
      have hlj : l ≠ j := by
        rintro rfl
        exact hfresh k hk hold
      refine ⟨l, by rw [hused]; exact hl, (hhandle l).symm, by rw [hpopups]; exact hlpopup, ?_, ?_⟩
      · rw [howners, howners]
        exact hlowner
      · rw [hparents, if_neg hlj, hhandle]
        exact hparent
    · refine ⟨j, by rw [hused]; exact hj, (hhandle j).symm, by rw [hpopups]; exact hpopup, ?_, ?_⟩
      · rw [howners, howners]
        exact howner
      · rw [hparents, if_pos rfl, hhandle]
  · intro l hl hne
    rw [hused] at hl
    by_cases hlj : l = j
    · subst hlj
      refine ⟨i, by rw [hused]; exact hi, by rw [hparents, if_pos rfl, hhandle], ?_⟩
      rw [hsubmenus, if_pos rfl, hhandle, List.count_append, List.count_singleton_self,
        List.count_eq_zero.2 (hfresh i hi)]
    · rw [hparents, if_neg hlj] at hne ⊢
      obtain ⟨k, hk, heq, hcount⟩ := h.parent l hl hne
      refine ⟨k, by rw [hused]; exact hk, by rw [hhandle]; exact heq, ?_⟩
      rw [hsubmenus, hhandle]
      split
      · have hother : menuHandle M l ∉ [menuHandle M j] := fun hmem =>
          hlj (menuHandle_inj (List.mem_singleton.1 hmem))
        rw [List.count_append, List.count_eq_zero.2 hother]
        exact hcount
      · exact hcount
  · obtain ⟨rank, hnew, hold⟩ := h.ranked_under hj hout
    refine ⟨rank, fun l k hl hk heq => ?_⟩
    rw [hused] at hl hk
    rw [hparents, hhandle] at heq
    split at heq
    · next hlj =>
      subst hlj
      obtain rfl := menuHandle_inj heq
      exact hnew
    · next hlj => exact hold l k (parentMenu_iff.2 ⟨hl, hk, heq⟩) hlj

/-- What is cleared is cleared with all that hangs on it. -/
theorem pruned (h : MenusOk M) (hkeep : ∀ k, (M' k).used = true → M' k = M k)
    (hgeneration : ∀ k, (M' k).generation = (M k).generation)
    (hdown : ∀ i j, Submenu M i j → (M' i).used = false → (M' j).used = false)
    (hup : ∀ i j, Submenu M i j → (M' j).used = false → (M' i).used = false) : MenusOk M' := by
  have hhandle : ∀ k, menuHandle M' k = menuHandle M k := fun k => menuHandle_congr (hgeneration k)
  have hwas : ∀ {k}, (M' k).used = true → (M k).used = true := fun hk => hkeep _ hk ▸ hk
  constructor
  · intro i hi item hitem
    rw [hkeep i hi] at hitem
    obtain ⟨j, hj, rfl, hpopup, howner, hparent⟩ := h.entry i (hwas hi) item hitem
    have hsub : Submenu M i j := ⟨hwas hi, _, hitem, lookupMenu_iff.2 ⟨hj, rfl⟩⟩
    have hj' : (M' j).used = true := by
      by_contra hgone
      rw [hup i j hsub (Bool.eq_false_iff.2 hgone)] at hi
      cases hi
    refine ⟨j, hj', (hhandle j).symm, ?_, ?_, ?_⟩
    · rw [hkeep j hj']
      exact hpopup
    · rw [hkeep j hj', hkeep i hi]
      exact howner
    · rw [hkeep j hj', hhandle]
      exact hparent
  · intro j hj hne
    rw [hkeep j hj] at hne
    obtain ⟨i, hi, heq, hcount⟩ := h.parent j (hwas hj) hne
    have hsub : Submenu M i j :=
      ⟨hi, _, List.count_pos_iff.1 (by omega), lookupMenu_iff.2 ⟨hwas hj, rfl⟩⟩
    have hi' : (M' i).used = true := by
      by_contra hgone
      rw [hdown i j hsub (Bool.eq_false_iff.2 hgone)] at hj
      cases hj
    refine ⟨i, hi', ?_, ?_⟩
    · rw [hkeep j hj, hhandle]
      exact heq
    · rw [hkeep i hi', hhandle]
      exact hcount
  · obtain ⟨rank, hrank⟩ := h.ranked
    refine ⟨rank, fun j i hj hi heq => hrank j i (hwas hj) (hwas hi) ?_⟩
    rw [← hhandle i, ← heq, hkeep j hj]

end MenusOk

end UnDOS.User
