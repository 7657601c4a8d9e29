import UnDOS.Adt.Linked

/-!
# Rotations and Rebalancing

What `rotate_right`, `rotate_left` and `rebalance` do to the tree that the links hold: a rotation
of the links is a rotation of the tree, and the loop of `rebalance` rebuilds the tree on the way up.
-/

namespace UnDOS.Adt

open UnDOS.Lib

theorem perm_mk {T : Type} (d : Side) (near far : BinTree T) (x : T) :
    (BinTree.mk d near x far).toList.Perm (x :: (near.toList ++ far.toList)) := by
  cases d
  · exact List.perm_middle
  · exact List.perm_middle.trans (List.perm_append_comm.cons x)

namespace AvlTree

variable {T : Type} [DecidableEq T]

omit [DecidableEq T] in
/-- The links hold the tree. -/
structure Represents (t : AvlTree T) (tree : BinTree T) : Prop where
  holds : Holds t t.root none tree
  nodup : tree.toList.Nodup

omit [DecidableEq T] in
/-- A subtree and the way up from it to the root. -/
structure Focused (t : AvlTree T) (p parent : Option T) (tree : BinTree T)
    (ctx : List (Frame T)) : Prop where
  holds : Holds t p parent tree
  path : Path t p parent ctx t.root none
  nodup : (tree.toList ++ BinTree.around ctx).Nodup

omit [DecidableEq T] in
/-- A node whose height may be stale, its children and the way up from it. -/
structure Open (t : AvlTree T) (y : T) (d : Side) (near far : BinTree T)
    (ctx : List (Frame T)) : Prop where
  nearHolds : Holds t ((t.node y).child d) (some y) near
  farHolds : Holds t ((t.node y).child d.other) (some y) far
  path : Path t (some y) (t.node y).parent ctx t.root none
  nodup : ((BinTree.mk d near y far).toList ++ BinTree.around ctx).Nodup

section Rebalance
variable {t t' : AvlTree T} {p parent : Option T} {tree near far : BinTree T} {x y : T} {d : Side}
  {ctx : List (Frame T)} {f : Frame T}

omit [DecidableEq T] in
theorem Open.flip (h : Open t y d near far ctx) : Open t y d.other far near ctx where
  nearHolds := h.farHolds
  farHolds := by
    rw [Side.other_other]
    exact h.nearHolds
  path := h.path
  nodup := by
    rw [BinTree.mk_other]
    exact h.nodup

omit [DecidableEq T] in
theorem Focused.up (h : Focused t p parent tree (f :: ctx)) :
    Open t f.value f.side tree f.sibling ctx := by
  obtain ⟨hparent, hchild, hsibling, hrest⟩ := h.path
  refine ⟨?_, hsibling, hrest, ?_⟩
  · rw [hchild, ← hparent]
    exact h.holds
  · apply ((perm_mk f.side tree f.sibling f.value).append_right _).nodup_iff.2
    have hnodup := h.nodup
    rw [BinTree.around_cons, ← List.append_assoc] at hnodup
    exact (List.perm_middle.append_right _).nodup_iff.1 hnodup

omit [DecidableEq T] in
theorem Open.down (h : Open t y d near far ctx) :
    Focused t ((t.node y).child d) (some y) near (⟨d, y, far⟩ :: ctx) where
  holds := h.nearHolds
  path := ⟨rfl, rfl, h.farHolds, h.path⟩
  nodup := by
    refine List.Perm.nodup_iff ?_ |>.1 h.nodup
    rw [BinTree.around_cons, ← List.append_assoc]
    exact ((perm_mk d near far y).trans List.perm_middle.symm).append_right _

omit [DecidableEq T] in
theorem Open.child {a b : BinTree T} (h : Open t y d (.mk d a x b) far ctx) :
    Open t x d.other b a (⟨d, y, far⟩ :: ctx) := by
  obtain ⟨hchild, hparent, -, ha, hb⟩ := holds_mk.1 h.nearHolds
  refine ⟨hb, ?_, ?_, ?_⟩
  · rw [Side.other_other]
    exact ha
  · exact ⟨hparent, hchild, h.farHolds, h.path⟩
  · rw [BinTree.mk_other]
    refine List.Perm.nodup_iff ?_ |>.1 h.nodup
    rw [BinTree.around_cons, ← List.append_assoc]
    exact ((perm_mk d _ far y).trans List.perm_middle.symm).append_right _

theorem Open.updateHeight (h : Open t y d near far ctx) : Open (t.updateHeight y) y d near far ctx ∧
      ((t.updateHeight y).node y).height = max near.height far.height + 1 := by
  have hnode := updateHeight_node_self t y d
  have hnodup := (((perm_mk d near far y).append_right _).nodup_iff.1 h.nodup)
  have hy : y ∉ near.toList ++ far.toList ++ BinTree.around ctx := (List.nodup_cons.1 hnodup).1
  simp only [List.mem_append, not_or] at hy
  have hsame (z : T) (hz : z ≠ y) : (t.updateHeight y).node z = t.node z := updateHeight_node_ne hz
  refine ⟨⟨?_, ?_, ?_, h.nodup⟩, ?_⟩
  · rw [hnode]
    exact h.nearHolds.congr fun z hz => hsame z fun heq => hy.1.1 (heq ▸ hz)
  · rw [hnode]
    exact h.farHolds.congr fun z hz => hsame z fun heq => hy.1.2 (heq ▸ hz)
  · rw [hnode, updateHeight_root]
    exact h.path.congr fun z hz => hsame z fun heq => hy.2 (heq ▸ hz)
  · rw [hnode, h.nearHolds.getHeight, h.farHolds.getHeight]

omit [DecidableEq T] in
theorem Open.focused (h : Open t y d near far ctx)
    (hheight : (t.node y).height = max near.height far.height + 1) :
    Focused t (some y) (t.node y).parent (.mk d near y far) ctx where
  holds := holds_mk.2 ⟨rfl, rfl, hheight, h.nearHolds, h.farHolds⟩
  path := h.path
  nodup := h.nodup

/-! ## One rotation -/

/-- `rotate_right` and `rotate_left`. -/
theorem rotate_spec {a b : BinTree T} (h : Open t y d (.mk d a x b) far ctx) :
    ∃ t', t.rotate d y = some (x, t') ∧
      Focused t' (some x) (t.node y).parent (.mk d a x (.mk d b y far)) ctx := by
  obtain ⟨hchild, hxparent, -, ha, hb⟩ := holds_mk.1 h.nearHolds
  -- all nodes are different
  have hnodup : (y :: (x :: (a.toList ++ b.toList) ++ far.toList ++ BinTree.around ctx)).Nodup := by
    refine List.Perm.nodup_iff ?_ |>.1 h.nodup
    apply (perm_mk d _ far y).append_right _ |>.trans
    exact (((perm_mk d a b x).append_right _).append_right _).cons y
  simp only [List.cons_append, List.nodup_cons, List.mem_cons, List.mem_append, not_or,
    List.nodup_append] at hnodup
  obtain ⟨⟨hyx, ⟨⟨hya, hyb⟩, hyc⟩, hyctx⟩, ⟨⟨⟨hxa, hxb⟩, hxc⟩, hxctx⟩, ⟨⟨-, hbnodup, hab⟩, -, habc⟩,
    hctxnodup, habctx⟩ := hnodup
  -- the root of the inner subtree is none of the others
  have hinner (z : T) (hz : z ∉ b.toList) : (t.node x).child d.other ≠ some z :=
    fun heq => hz (hb.mem heq)
  unfold rotate
  rw [hchild]
  refine ⟨_, rfl, ?_⟩
  obtain ⟨hpath₁, hsame₁, hx₁⟩ := replaceNode_spec h.path rfl hctxnodup hyctx
    fun z (hz : some x = some z) => by cases hz; exact hxctx
  generalize t.replaceNode y (some x) = t₁ at *
  have hx₁ := hx₁ x rfl
  have hy₁ : t₁.node y = t.node y := hsame₁ y hyctx fun heq => hyx (Option.some.inj heq).symm
  generalize ht₅ : ((((t₁.modify x fun n => n.setChild d.other (some y)).modify y
    fun n => { n with parent := some x }).modify y
      fun n => n.setChild d ((t.node x).child d.other)).setParent ((t.node x).child d.other)
        (some y)) = t₅
  have hother (z : T) (hzx : z ≠ x) (hzy : z ≠ y) (hzb : z ∉ b.toList) :
      t₅.node z = t₁.node z := by
    rw [← ht₅, setParent_node_ne (hinner z hzb), modify_node_ne hzy, modify_node_ne hzy,
      modify_node_ne hzx]
  have hx₅ : t₅.node x = ({ t.node x with parent := (t.node y).parent } : AvlNode T).setChild
      d.other (some y) := by
    rw [← ht₅, setParent_node_ne (hinner x hxb), modify_node_ne (Ne.symm hyx),
      modify_node_ne (Ne.symm hyx), modify_node_self, hx₁]
  have hy₅ : t₅.node y = ({ t.node y with parent := some x } : AvlNode T).setChild d
      ((t.node x).child d.other) := by
    rw [← ht₅, setParent_node_ne (hinner y hyb), modify_node_self, modify_node_self,
      modify_node_ne hyx, hy₁]
  have hb₅ : Holds t₅ ((t.node x).child d.other) (some y) b := by
    rw [← ht₅]
    refine Holds.reparent (hb.congr ?_) hbnodup (some y)
    intro z hz
    have hzx : z ≠ x := fun heq => hxb (heq ▸ hz)
    have hzy : z ≠ y := fun heq => hyb (heq ▸ hz)
    rw [modify_node_ne hzy, modify_node_ne hzy, modify_node_ne hzx]
    exact hsame₁ z (fun hctx => habctx z (.inl (.inr hz)) z hctx rfl)
      fun heq => hzx (Option.some.inj heq).symm
  have ha₅ : Holds t₅ ((t.node x).child d) (some x) a := by
    refine ha.congr fun z hz => ?_
    have hzx : z ≠ x := fun heq => hxa (heq ▸ hz)
    rw [hother z hzx (fun heq => hya (heq ▸ hz)) fun hin => hab z hz z hin rfl]
    exact hsame₁ z (fun hctx => habctx z (.inl (.inl hz)) z hctx rfl)
      fun heq => hzx (Option.some.inj heq).symm
  have hc₅ : Holds t₅ ((t.node y).child d.other) (some y) far := by
    refine h.farHolds.congr fun z hz => ?_
    have hzx : z ≠ x := fun heq => hxc (heq ▸ hz)
    rw [hother z hzx (fun heq => hyc (heq ▸ hz)) fun hin => habc z (.inr hin) z hz rfl]
    exact hsame₁ z (fun hctx => habctx z (.inr hz) z hctx rfl)
      fun heq => hzx (Option.some.inj heq).symm
  have hpath₅ : Path t₅ (some x) (t.node y).parent ctx t₅.root none := by
    have hroot : t₅.root = t₁.root := by
      rw [← ht₅, setParent_root, modify_root, modify_root, modify_root]
    rw [hroot]
    refine hpath₁.congr fun z hz => hother z ?_ ?_ ?_
    · exact fun heq => hxctx (heq ▸ hz)
    · exact fun heq => hyctx (heq ▸ hz)
    · exact fun hin => habctx z (.inl (.inr hin)) z hz rfl
  -- the old top first, then the new one
  have hnodup' : ((BinTree.mk d a x (.mk d b y far)).toList ++ BinTree.around ctx).Nodup := by
    rw [← BinTree.rotate_mk, BinTree.toList_rotate]
    exact h.nodup
  have hopen : Open t₅ y d b far (⟨d.other, x, a⟩ :: ctx) := by
    refine ⟨?_, ?_, ?_, ?_⟩
    · rw [hy₅, AvlNode.child_setChild]
      exact hb₅
    · rw [hy₅, AvlNode.child_setChild_other]
      exact hc₅
    · rw [hy₅, AvlNode.parent_setChild]
      refine ⟨rfl, ?_, ?_, ?_⟩
      · rw [hx₅, AvlNode.child_setChild]
      · rw [Side.other_other, hx₅, AvlNode.child_other_setChild]
        exact ha₅
      · rw [hx₅, AvlNode.parent_setChild]
        exact hpath₅
    · refine List.Perm.nodup_iff ?_ |>.1 hnodup'
      rw [BinTree.around_cons, ← List.append_assoc]
      refine ((perm_mk d a _ x).trans ?_).append_right _
      exact (List.perm_append_comm.cons x).trans List.perm_middle.symm
  obtain ⟨hopen₆, hheight₆⟩ := hopen.updateHeight
  have hopen₇ : Open (t₅.updateHeight y) x d.other (.mk d b y far) a ctx :=
    (hopen₆.focused hheight₆).up
  have hparent : ((t₅.updateHeight y).node x).parent = (t.node y).parent := by
    rw [updateHeight_node_ne (Ne.symm hyx), hx₅, AvlNode.parent_setChild]
  obtain ⟨hopen₈, hheight₈⟩ := hopen₇.updateHeight
  have hfocused := hopen₈.focused hheight₈
  rw [updateHeight_node_self _ _ d, BinTree.mk_other] at hfocused
  rw [hparent] at hfocused
  exact hfocused

/-! ## The loop -/

/-- The child on the side `d` goes up, straightened before if it is higher on the inside. -/
def raise (d : Side) (t : AvlTree T) (y : T) : Option (T × AvlTree T) := do
  let x ← (t.node y).child d
  if t.getHeight ((t.node x).child d) < t.getHeight ((t.node x).child d.other) then
    let (_, t) ← t.rotate d.other x
    t.rotate d y
  else t.rotate d y

/-- A single or a double rotation, as the model's `rotate` and `straighten` say. -/
theorem raise_spec (h : Open t y d near far ctx) (hhigh : far.height < near.height) :
    ∃ x t' parent, t.raise d y = some (x, t') ∧
      Focused t' (some x) parent (.rotate d (.mk d (.straighten d near) y far)) ctx := by
  have hpos := far.height_nonneg
  obtain ⟨a, x, b, rfl⟩ := BinTree.exists_mk d (show 0 < near.height by omega)
  obtain ⟨hchild, -, -, ha, hb⟩ := holds_mk.1 h.nearHolds
  unfold raise BinTree.straighten
  rw [hchild, Option.bind_eq_bind, Option.bind_some, ha.getHeight, hb.getHeight, BinTree.tilt_mk]
  split
  · -- the inner subtree goes up first, below `y`
    have hapos := a.height_nonneg
    obtain ⟨b₂, z, b₁, rfl⟩ := BinTree.exists_mk d.other (show 0 < b.height by omega)
    obtain ⟨t₁, hrotate, hfocused⟩ := rotate_spec h.child
    have hopen : Open t₁ y d (.mk d.other b₂ z (.mk d.other b₁ x a)) far ctx := hfocused.up
    rw [BinTree.mk_other d _ b₂ z] at hopen
    obtain ⟨t₂, hrotate₂, hfocused₂⟩ := rotate_spec hopen
    rw [if_pos (by omega), hrotate]
    refine ⟨z, t₂, (t₁.node y).parent, hrotate₂, ?_⟩
    rw [← BinTree.mk_other d a, BinTree.rotate_mk, BinTree.mk_other d _ b₂ z, BinTree.rotate_mk]
    exact hfocused₂
  · obtain ⟨t₁, hrotate, hfocused⟩ := rotate_spec h
    rw [if_neg (by omega), BinTree.rotate_mk]
    exact ⟨x, t₁, _, hrotate, hfocused⟩

theorem rebalanceRound_eq (t : AvlTree T) (y : T) : t.rebalanceRound y =
      if 1 < (t.updateHeight y).getBalance (some y) then (t.updateHeight y).raise .left y
      else if (t.updateHeight y).getBalance (some y) < -1 then (t.updateHeight y).raise .right y
      else some (y, t.updateHeight y) := by
  unfold rebalanceRound
  generalize t.updateHeight y = t
  dsimp only
  split
  · show (t.node y).left.bind _ = (t.node y).left.bind _
    cases (t.node y).left with
    | none => rfl
    | some x =>
      have hcond : t.getBalance (some x) < 0 ↔
          t.getHeight (t.node x).left < t.getHeight (t.node x).right := by
        unfold getBalance
        dsimp only
        omega
      exact if_congr hcond rfl rfl
  · split
    · show (t.node y).right.bind _ = (t.node y).right.bind _
      cases (t.node y).right with
      | none => rfl
      | some x =>
        have hcond : 0 < t.getBalance (some x) ↔
            t.getHeight (t.node x).right < t.getHeight (t.node x).left := by
          unfold getBalance
          dsimp only
          omega
        exact if_congr hcond rfl rfl
    · rfl

theorem rebalanceRound_spec (h : Open t y d near far ctx) :
    ∃ x t' parent, t.rebalanceRound y = some (x, t') ∧
      Focused t' (some x) parent (.join d near y far) ctx := by
  wlog hd : d = .left generalizing d near far
  · have hright : d.other = .left := by
      cases d
      · exact absurd rfl hd
      · rfl
    rw [← BinTree.join_other]
    exact this h.flip hright
  subst hd
  obtain ⟨hopen, hheight⟩ := h.updateHeight
  have hbalance : (t.updateHeight y).getBalance (some y) = near.height - far.height := by
    rw [← hopen.nearHolds.getHeight, ← hopen.farHolds.getHeight]
    rfl
  rw [rebalanceRound_eq, hbalance]
  unfold BinTree.join
  split
  · exact raise_spec hopen (by omega)
  · split
    · have hraise := raise_spec hopen.flip (by omega)
      exact hraise
    · exact ⟨y, _, _, rfl, hopen.focused hheight⟩

/-- Rebalancing from a node up to the root rebuilds the whole tree around it. -/
theorem Focused.climb {fuel : Nat} (h : Focused t p parent tree ctx) (hfuel : ctx.length ≤ fuel) :
    ∃ t', rebalance fuel t parent = some t' ∧ Represents t' (.rebuild ctx tree) := by
  induction ctx generalizing t p parent tree fuel with
  | nil =>
    obtain ⟨rfl, rfl⟩ := h.path
    refine ⟨t, ?_, h.holds, ?_⟩
    · unfold rebalance
      rfl
    · have hnodup := h.nodup
      rwa [BinTree.around_nil, List.append_nil] at hnodup
  | cons f ctx ih =>
    obtain ⟨fuel, rfl⟩ : ∃ n, fuel = n + 1 := Nat.exists_eq_succ_of_ne_zero (by
      rw [List.length_cons] at hfuel
      omega)
    obtain ⟨x, t₁, parent₁, hround, hfocused⟩ := rebalanceRound_spec h.up
    obtain ⟨t₂, hrest, hrep⟩ := ih hfocused (Nat.le_of_succ_le_succ hfuel)
    have hparent : (t₁.node x).parent = parent₁ := by
      have hholds := hfocused.holds
      obtain ⟨l, v, r, htree⟩ : ∃ l v r, BinTree.join f.side tree f.value f.sibling =
          BinTree.node l v r := by
        cases hjoin : BinTree.join f.side tree f.value f.sibling with
        | nil =>
          rw [hjoin] at hholds
          cases hholds
        | node l v r => exact ⟨l, v, r, rfl⟩
      rw [htree] at hholds
      obtain ⟨hx, hparent, -⟩ := hholds
      cases hx
      exact hparent
    refine ⟨t₂, ?_, hrep⟩
    rw [h.path.parent_eq]
    unfold rebalance
    rw [hround, Option.bind_eq_bind, Option.bind_some]
    dsimp only
    rw [hparent]
    exact hrest

theorem Open.climb {fuel : Nat} (h : Open t y d near far ctx) (hfuel : ctx.length < fuel) :
    ∃ t', rebalance fuel t (some y) = some t' ∧
      Represents t' (.rebuild (⟨d, y, far⟩ :: ctx) near) :=
  h.down.climb hfuel

end Rebalance

end AvlTree

end UnDOS.Adt
