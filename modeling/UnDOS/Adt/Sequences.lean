import Mathlib.Data.Nat.Log
import UnDOS.Adt.Rebalance

/-!
# Insertions and Removals

`insert` and `remove` on a balanced and sorted tree, and sequences of them.

A removal takes the successor out of its place first.  Then the way up from there leads through
the successor in its new place, so one climb repairs all heights.
-/

namespace UnDOS.Adt

open UnDOS.Lib

namespace AvlTree

variable {T : Type} [DecidableEq T]

/-! ## Insertion -/

section Insert
variable {less : T → T → Prop} [DecidableRel less] {t : AvlTree T} {tree : BinTree T} {x : T}

variable (less x) in
omit [DecidableEq T] in
theorem findParent_eq {p q : Option T} {fuel : Nat} (h : Holds t p q tree)
    (hfuel : tree.toList.length ≤ fuel) (ctx : List (Frame T)) :
    t.findParent less x fuel p (ctx.head?.map Frame.value) =
      some ((BinTree.descend less x tree ctx).head?.map Frame.value) := by
  induction tree generalizing p q ctx fuel with
  | nil =>
    rw [h]
    unfold findParent
    rfl
  | node l v r hl hr =>
    obtain ⟨rfl, -, -, hleft, hright⟩ := h
    unfold BinTree.toList at hfuel
    rw [List.length_append, List.length_cons] at hfuel
    obtain ⟨fuel, rfl⟩ : ∃ n, fuel = n + 1 := Nat.exists_eq_succ_of_ne_zero (by omega)
    unfold findParent BinTree.descend
    split
    · exact hl hleft (by omega) (⟨.left, v, r⟩ :: ctx)
    · exact hr hright (by omega) (⟨.right, v, l⟩ :: ctx)

theorem linked {f : Frame T} {ctx : List (Frame T)}
    (h : Path t none (some f.value) (f :: ctx) t.root none)
    (hnodup : (BinTree.around (f :: ctx)).Nodup) (hx : x ∉ BinTree.around (f :: ctx)) :
    Focused ((t.modify x fun _ => { parent := some f.value }).modify f.value
        fun n => n.setChild f.side (some x)) (some x) (some f.value) (.node .nil x .nil)
      (f :: ctx) where
  holds := by
    have hne : x ≠ f.value := fun heq => hx (heq ▸ .head _)
    unfold Holds
    rw [modify_node_ne hne, modify_node_self]
    exact ⟨rfl, rfl, rfl, rfl, rfl⟩
  path := (h.modify hx _).setChild hnodup (some x)
  nodup := List.nodup_cons.2 ⟨hx, hnodup⟩

omit [DecidableEq T] in
/-- The links hold a balanced tree in the order of the nodes. -/
structure InOrder (less : T → T → Prop) (t : AvlTree T) (tree : BinTree T) : Prop where
  represents : Represents t tree
  balanced : tree.Balanced
  sorted : BinTree.Sorted less tree.toList

omit [DecidableEq T] [DecidableRel less] in
theorem InOrder.of_climb {hole : BinTree T} {ctx : List (Frame T)} {h : Int}
    (hrep : Represents t (.rebuild ctx hole)) (hhole : hole.Balanced)
    (hctx : BinTree.BalancedAround ctx h) (hle : hole.height ≤ h + 1) (hge : h ≤ hole.height + 1)
    (hsorted : BinTree.Sorted less (BinTree.before ctx ++ hole.toList ++ BinTree.after ctx)) :
    InOrder less t (.rebuild ctx hole) where
  represents := hrep
  balanced := BinTree.rebuild_balanced hhole hctx hle hge
  sorted := by
    rw [BinTree.toList_rebuild]
    exact hsorted

omit [DecidableEq T] in
theorem InOrder.exists_place [IsStrictWeakOrder T less] (h : InOrder less t tree)
    (hne : tree ≠ .nil) (x : T) : ∃ f ctx, BinTree.descend less x tree [] = f :: ctx ∧
      Path t none (some f.value) (f :: ctx) t.root none ∧
      (f.side = .left ↔ less x f.value) ∧ BinTree.BalancedAround (f :: ctx) 0 ∧
      tree.toList = BinTree.before (f :: ctx) ++ BinTree.after (f :: ctx) ∧
      tree.toList.Perm (BinTree.around (f :: ctx)) ∧
      BinTree.Between less x (BinTree.before (f :: ctx)) (BinTree.after (f :: ctx)) := by
  have hplug : BinTree.plug (BinTree.descend less x tree []) .nil = tree :=
    BinTree.plug_descend less x tree []
  have hbetween := BinTree.between_descend (x := x) h.sorted
  have hsides := BinTree.descend_sides less x tree fun f (hf : f ∈ []) =>
    nomatch hf
  generalize BinTree.descend less x tree [] = place at *
  cases place with
  | nil => exact absurd hplug.symm hne
  | cons f ctx =>
    have hholds := h.represents.holds
    rw [← hplug] at hholds
    obtain ⟨hole, parent, hpath, hnil⟩ := hholds.path
    obtain rfl : hole = none := hnil
    obtain rfl := hpath.parent_eq
    refine ⟨f, ctx, rfl, hpath, hsides f (.head _), ?_, ?_, ?_, hbetween⟩
    · exact (BinTree.plug_balanced.1 (hplug.symm ▸ h.balanced)).2
    · rw [← hplug, BinTree.toList_plug, BinTree.toList, List.append_nil]
    · rw [← hplug]
      exact BinTree.perm_plug (f :: ctx) .nil

/-- `insert` of a node that is not in the tree. -/
theorem insert_spec [IsStrictWeakOrder T less] {fuel : Nat} (h : InOrder less t tree)
    (hx : x ∉ tree.toList) (hfuel : tree.toList.length ≤ fuel) :
    ∃ t' tree', insert less fuel t x = some t' ∧ InOrder less t' tree' ∧
      tree'.toList.Perm (x :: tree.toList) := by
  by_cases hnil : tree = .nil
  · subst hnil
    have hroot : t.root = none := h.represents.holds
    refine ⟨{ t.modify x fun _ => {} with root := some x }, .node .nil x .nil, ?_,
      ⟨⟨?_, ?_⟩, ?_, ?_⟩,
      List.Perm.refl _⟩
    · unfold insert
      rw [hroot]
    · unfold Holds
      rw [modify_node_self]
      exact ⟨rfl, rfl, rfl, rfl, rfl⟩
    · exact List.nodup_singleton x
    · exact BinTree.balanced_mk (d := .left).2 ⟨trivial, trivial, Int.le_of_lt (Int.lt_succ 0),
        Int.le_of_lt (Int.lt_succ 0)⟩
    · exact List.pairwise_singleton _ x
  obtain ⟨f, ctx, hdescend, hpath, hside, hbalanced, hlist, hperm, hbetween⟩ :=
    h.exists_place hnil x
  have hnodup : (BinTree.around (f :: ctx)).Nodup := hperm.nodup_iff.1 h.represents.nodup
  have hfree : x ∉ BinTree.around (f :: ctx) := fun hmem => hx (hperm.mem_iff.2 hmem)
  have hfocused := linked hpath hnodup hfree
  have hlength : (f :: ctx).length ≤ fuel :=
    Nat.le_trans (BinTree.length_le_around _) (hperm.length_eq ▸ hfuel)
  obtain ⟨t', hclimb, hrep⟩ := hfocused.climb hlength
  have hone : (BinTree.node .nil x .nil).height = 1 := rfl
  have hsorted : BinTree.Sorted less (BinTree.before (f :: ctx) ++ [x] ++
      BinTree.after (f :: ctx)) := by
    have hold := h.sorted
    rw [hlist] at hold
    rw [List.append_assoc]
    exact hold.insert hbetween
  refine ⟨t', .rebuild (f :: ctx) (.node .nil x .nil), ?_, InOrder.of_climb hrep ?_ hbalanced ?_ ?_
    hsorted, ?_⟩
  · -- the code finds the same place
    have hparent := findParent_eq less x h.represents.holds hfuel []
    rw [hdescend] at hparent
    obtain ⟨root, hroot⟩ : ∃ root, t.root = some root := by
      cases tree with
      | nil => exact absurd rfl hnil
      | node l v r => exact ⟨v, h.represents.holds.1⟩
    rw [hroot] at hparent
    unfold insert
    rw [hroot]
    dsimp only
    rw [List.head?_nil, Option.map_none] at hparent
    rw [hparent]
    show rebalance fuel _ (some f.value) = _
    rw [← hclimb]
    rcases hd : f.side with _ | _
    · rw [if_pos (hside.1 hd)]
      rfl
    · rw [if_neg fun hless => Side.noConfusion (hd.symm.trans (hside.2 hless))]
      rfl
  · exact BinTree.balanced_mk (d := .left).2 ⟨trivial, trivial, Int.le_of_lt (Int.lt_succ 0),
      Int.le_of_lt (Int.lt_succ 0)⟩
  · rw [hone]
    decide
  · rw [hone]
    decide
  · rw [BinTree.toList_rebuild, hlist, List.append_assoc]
    exact List.perm_middle

end Insert

/-! ## Removal -/

section Remove
variable {t : AvlTree T} {tree : BinTree T} {x : T}
variable {fuel : Nat} {l right : BinTree T}

omit [DecidableEq T] in
theorem findMin_spec {p : T} {q : Option T} (h : Holds t (some p) q tree)
    (hfuel : tree.toList.length ≤ fuel) :
    ∃ inner s right, tree = BinTree.plug inner (.node .nil s right) ∧
      BinTree.before inner = [] ∧ t.findMin fuel p = some s := by
  induction tree generalizing p q fuel with
  | nil => cases h
  | node l v r hl _ =>
    obtain ⟨hp, -, -, hleft, -⟩ := h
    cases hp
    unfold BinTree.toList at hfuel
    rw [List.length_append, List.length_cons] at hfuel
    obtain ⟨fuel, rfl⟩ : ∃ n, fuel = n + 1 := Nat.exists_eq_succ_of_ne_zero (by omega)
    unfold findMin
    cases hchild : (t.node v).left with
    | none =>
      rw [hchild] at hleft
      cases l with
      | nil => exact ⟨[], v, r, rfl, rfl, rfl⟩
      | node _ _ _ => cases hleft.1
    | some c =>
      rw [hchild] at hleft
      obtain ⟨inner, s, right, rfl, hbefore, hmin⟩ := hl hleft (show _ ≤ fuel by omega)
      refine ⟨inner ++ [⟨.left, v, r⟩], s, right, ?_, ?_, hmin⟩
      · rw [BinTree.plug_append]
        rfl
      · rw [BinTree.before_append, hbefore]
        rfl

/-- The successor in the place of the node. -/
def takePlace (t : AvlTree T) (node successor : T) : AvlTree T :=
  let t := t.replaceNode node (some successor)
  let t := t.modify successor fun n => { n with left := (t.node node).left }
  t.setParent (t.node successor).left (some successor)

/-- The successor takes over the links of the removed node, on both sides. -/
theorem takePlace_spec {s : T} {ctx : List (Frame T)}
    (hpath : Path t (some x) (t.node x).parent ctx t.root none)
    (hleft : Holds t (t.node x).left (some x) l)
    (hnodup : (x :: s :: (l.toList ++ BinTree.around ctx)).Nodup) :
    Path (t.takePlace x s) (some s) ((t.takePlace x s).node s).parent
      ctx (t.takePlace x s).root none ∧
      Holds (t.takePlace x s) ((t.takePlace x s).node s).left (some s) l ∧
      ((t.takePlace x s).node s).right = (t.node s).right ∧
      ∀ z, z ≠ s → z ∉ l.toList → z ∉ BinTree.around ctx → (t.takePlace x s).node z = t.node z := by
  simp only [List.nodup_cons, List.mem_cons, List.mem_append, not_or, List.nodup_append] at hnodup
  obtain ⟨⟨hxs, hxl, hxctx⟩, ⟨hsl, hsctx⟩, hlnodup, hctxnodup, hdisjoint⟩ := hnodup
  obtain ⟨hpath₁, hsame₁, hs₁⟩ := replaceNode_spec hpath rfl hctxnodup hxctx
    fun z (hz : some s = some z) => by cases hz; exact hsctx
  have hs₁ := hs₁ s rfl
  have hx₁ : (t.replaceNode x (some s)).node x = t.node x :=
    hsame₁ x hxctx fun heq => hxs (Option.some.inj heq).symm
  unfold takePlace
  dsimp only
  rw [hx₁]
  generalize t.replaceNode x (some s) = t₁ at *
  rw [modify_node_self]
  have hroot (z : T) (hz : z ∉ l.toList) : (t.node x).left ≠ some z :=
    fun heq => hz (hleft.mem heq)
  have hother (z : T) (hzs : z ≠ s) (hzl : z ∉ l.toList) :
      ((t₁.modify s fun n => { n with left := (t.node x).left }).setParent (t.node x).left
        (some s)).node z = t₁.node z := by
    rw [setParent_node_ne (hroot z hzl), modify_node_ne hzs]
  have hs : ((t₁.modify s fun n => { n with left := (t.node x).left }).setParent (t.node x).left
      (some s)).node s =
        { t.node s with parent := (t.node x).parent, left := (t.node x).left } := by
    rw [setParent_node_ne (hroot s hsl), modify_node_self, hs₁]
  rw [hs]
  refine ⟨?_, ?_, rfl, ?_⟩
  · rw [setParent_root]
    refine hpath₁.congr fun z hz => hother z ?_ ?_
    · exact fun heq => hsctx (heq ▸ hz)
    · exact fun hin => hdisjoint z hin z hz rfl
  · refine Holds.reparent (hleft.congr fun z hz => ?_) hlnodup (some s)
    have hzs : z ≠ s := fun heq => hsl (heq ▸ hz)
    rw [modify_node_ne hzs]
    exact hsame₁ z (fun hin => hdisjoint z hz z hin rfl)
      fun heq => hzs (Option.some.inj heq).symm
  · intro z hzs hzl hzctx
    rw [hother z hzs hzl]
    exact hsame₁ z hzctx fun heq => hzs (Option.some.inj heq).symm

/-- A successor that is deeper leaves its place: the way up from there leads through it. -/
theorem detachSuccessor_spec {s : T} {f : Frame T} {inner ctx : List (Frame T)}
    (hpath : Path t (some s) (some f.value) (f :: inner ++ ⟨.right, x, l⟩ :: ctx) t.root none)
    (hparent : (t.node s).parent = some f.value) (hright : Holds t (t.node s).right (some s) right)
    (hnodup : (x :: s :: (l.toList ++ right.toList ++ BinTree.around (f :: inner) ++
      BinTree.around ctx)).Nodup) :
    ∃ hole, Path (t.detachSuccessor x s) hole (some f.value) (f :: inner)
        ((t.detachSuccessor x s).node s).right (some s) ∧
      Holds (t.detachSuccessor x s) hole (some f.value) right ∧
      Path (t.detachSuccessor x s) (some x) ((t.detachSuccessor x s).node x).parent ctx
        (t.detachSuccessor x s).root none ∧
      Holds (t.detachSuccessor x s) ((t.detachSuccessor x s).node x).left (some x) l := by
  -- what is around the successor
  have haround : (s :: (right.toList ++
      BinTree.around (f :: inner ++ ⟨.right, x, l⟩ :: ctx))).Nodup := by
    refine List.Perm.nodup_iff (List.perm_iff_count.2 fun z => ?_) |>.1 hnodup
    rw [BinTree.around_append, BinTree.around_cons ⟨.right, x, l⟩]
    simp only [List.count_append, List.count_cons]
    omega
  obtain ⟨hsright, haround⟩ := List.nodup_cons.1 haround
  have hsfree : s ∉ BinTree.around (f :: inner ++ ⟨.right, x, l⟩ :: ctx) :=
    fun hmem => hsright (List.mem_append_right _ hmem)
  have hsr : s ∉ right.toList := fun hmem => hsright (List.mem_append_left _ hmem)
  simp only [List.nodup_cons, List.mem_cons, List.mem_append, not_or, List.nodup_append] at hnodup
  obtain ⟨⟨hxs, ⟨⟨hxl, hxr⟩, hxinner⟩, hxctx⟩, ⟨⟨⟨hsl, -⟩, hsinner⟩, hsctx⟩,
    ⟨⟨hlnodup, hrnodup, hlr⟩, hinnerNodup, hlrInner⟩, hctxNodup, hlriCtx⟩ := hnodup
  have hfx : f.value ≠ x := fun heq => hxinner (heq ▸ .head _)
  have hne : (t.node s).parent ≠ some x := by
    rw [hparent]
    exact fun heq => hfx (Option.some.inj heq)
  have hnew (z : T) (hz : (t.node s).right = some z) :
      z ∉ BinTree.around (f :: inner ++ ⟨.right, x, l⟩ :: ctx) := fun hmem =>
    (List.nodup_append.1 haround).2.2 z (hright.mem hz) z hmem rfl
  obtain ⟨hpath₁, hsame₁, -⟩ := replaceNode_spec hpath hparent (List.nodup_append.1 haround).2.1
    hsfree hnew
  have hright₁ := replaceNode_holds hpath hparent haround hsfree hright
  unfold detachSuccessor
  rw [if_pos hne]
  generalize t.replaceNode s (t.node s).right = t₁ at *
  generalize (t.node s).right = hole at *
  obtain ⟨top, topParent, hinner₁, houter₁⟩ := path_append.1 hpath₁
  obtain ⟨rfl, htop, hleft₁, hrest₁⟩ := houter₁
  have htop : (t₁.node x).right = top := htop
  dsimp only at hleft₁ hrest₁ ⊢
  rw [modify_node_self]
  rw [htop]
  -- the right subtree of the node hangs below the successor
  obtain ⟨hinner₃, htopMem⟩ := (hinner₁.modify hsinner fun n => { n with right := top }).reparent
    hinnerNodup (List.cons_ne_nil _ _) (some s)
  generalize ht₃ : (t₁.modify s fun n => { n with right := top }).setParent top (some s) = t₃ at *
  have hother (z : T) (hzs : z ≠ s) (hz : z ∉ BinTree.around (f :: inner)) :
      t₃.node z = t₁.node z := by
    rw [← ht₃, setParent_node_ne fun heq => hz (htopMem z heq), modify_node_ne hzs]
  have hs₃ : (t₃.node s).right = top := by
    rw [← ht₃, setParent_node_ne fun heq => hsinner (htopMem s heq), modify_node_self]
  have hroot₃ : t₃.root = t₁.root := by
    rw [← ht₃, setParent_root, modify_root]
  have hx₃ : t₃.node x = t₁.node x := hother x hxs hxinner
  refine ⟨hole, ?_, ?_, ?_, ?_⟩
  · rw [hs₃]
    exact hinner₃
  · refine hright₁.congr fun z hz => hother z ?_ ?_
    · exact fun heq => hsr (heq ▸ hz)
    · exact fun hin => hlrInner z (.inr hz) z hin rfl
  · rw [hx₃, hroot₃]
    refine hrest₁.congr fun z hz => hother z ?_ ?_
    · exact fun heq => hsctx (heq ▸ hz)
    · exact fun hin => hlriCtx z (.inr hin) z hz rfl
  · rw [hx₃]
    refine Holds.congr hleft₁ fun z hz => hother z ?_ ?_
    · exact fun heq => hsl (heq ▸ hz)
    · exact fun hin => hlrInner z (.inl hz) z hin rfl

theorem remove_two {a b s : T} (hleft : (t.node x).left = some a)
    (hright : (t.node x).right = some b) (hmin : t.findMin fuel b = some s) :
    t.remove fuel x = rebalance fuel (((t.detachSuccessor x s).takePlace x s).updateHeight s)
      (if (t.node s).parent = some x then some s else (t.node s).parent) := by
  unfold remove
  rw [hleft, hright]
  dsimp only
  rw [hmin]
  rfl

theorem replace_climb {p : Option T} {c : BinTree T} {ctx : List (Frame T)}
    (hpath : Path t (some x) (t.node x).parent ctx t.root none) (hchild : Holds t p (some x) c)
    (hnodup : (c.toList ++ BinTree.around ctx).Nodup) (hx : x ∉ BinTree.around ctx)
    (hfuel : ctx.length ≤ fuel) :
    ∃ t', rebalance fuel (t.replaceNode x p) (t.node x).parent = some t' ∧
      Represents t' (.rebuild ctx c) := by
  obtain ⟨-, hctxNodup, hdisjoint⟩ := List.nodup_append.1 hnodup
  obtain ⟨hpath', -, -⟩ := replaceNode_spec hpath rfl hctxNodup hx
    fun z hz hmem => hdisjoint z (hchild.mem hz) z hmem rfl
  have hfocused : Focused (t.replaceNode x p) p (t.node x).parent c ctx :=
    ⟨replaceNode_holds hpath rfl hnodup hx hchild, hpath', hnodup⟩
  exact hfocused.climb hfuel

theorem near_climb {s : T} {ctx : List (Frame T)}
    (hpath : Path t (some x) (t.node x).parent ctx t.root none)
    (hleft : Holds t (t.node x).left (some x) l)
    (hright : Holds t (t.node s).right (some s) right) (hparent : (t.node s).parent = some x)
    (hnodup : (x :: s :: (l.toList ++ right.toList ++ BinTree.around ctx)).Nodup)
    (hfuel : ctx.length < fuel) :
    ∃ t', rebalance fuel (((t.detachSuccessor x s).takePlace x s).updateHeight s) (some s) =
        some t' ∧ Represents t' (.rebuild (⟨.right, s, l⟩ :: ctx) right) := by
  have hdetach : t.detachSuccessor x s = t := by
    unfold detachSuccessor
    rw [if_neg (not_not.2 hparent)]
  rw [hdetach]
  have hsub : (x :: s :: (l.toList ++ BinTree.around ctx)).Nodup :=
    List.Nodup.sublist (((List.sublist_append_left _ _).append_right _).cons_cons s |>.cons_cons x)
      hnodup
  obtain ⟨hpath', hleft', hsame, hother⟩ := takePlace_spec hpath hleft hsub
  simp only [List.nodup_cons, List.mem_append, not_or, List.nodup_append] at hnodup
  obtain ⟨-, ⟨⟨hsl, hsr⟩, hsctx⟩, ⟨hlnodup, hrnodup, hlr⟩, hctxNodup, hlrCtx⟩ := hnodup
  -- With `s` in it, the place of `x` is open: only its height is not yet right.
  have hopen : Open (t.takePlace x s) s .right right l ctx := by
    refine ⟨?_, hleft', hpath', ?_⟩
    · show Holds _ ((t.takePlace x s).node s).right (some s) right
      rw [hsame]
      refine hright.congr fun z hz => hother z ?_ ?_ ?_
      · exact fun heq => hsr (heq ▸ hz)
      · exact fun hin => hlr z hin z hz rfl
      · exact fun hin => hlrCtx z (.inr hz) z hin rfl
    · apply (List.perm_middle.append_right _).nodup_iff.2
      rw [List.cons_append]
      refine List.nodup_cons.2 ⟨?_, ?_⟩
      · simp only [List.mem_append, not_or]
        exact ⟨⟨hsl, hsr⟩, hsctx⟩
      · refine List.nodup_append.2 ⟨List.nodup_append.2 ⟨hlnodup, hrnodup, hlr⟩, hctxNodup, ?_⟩
        intro a ha
        exact hlrCtx a (List.mem_append.1 ha)
  exact hopen.updateHeight.1.climb hfuel

/-- The successor is deeper. -/
theorem deep_climb {s : T} {f : Frame T} {inner ctx : List (Frame T)}
    (hpath : Path t (some s) (some f.value) (f :: inner ++ ⟨.right, x, l⟩ :: ctx) t.root none)
    (hparent : (t.node s).parent = some f.value) (hright : Holds t (t.node s).right (some s) right)
    (hnodup : (x :: s :: (l.toList ++ right.toList ++ BinTree.around (f :: inner) ++
      BinTree.around ctx)).Nodup) (hfuel : (f :: inner ++ ⟨.right, s, l⟩ :: ctx).length ≤ fuel) :
    ∃ t', rebalance fuel (((t.detachSuccessor x s).takePlace x s).updateHeight s)
        (some f.value) = some t' ∧
      Represents t' (.rebuild (f :: inner ++ ⟨.right, s, l⟩ :: ctx) right) := by
  obtain ⟨hole, hinner, hright₁, hpath₁, hleft₁⟩ := detachSuccessor_spec hpath hparent hright hnodup
  generalize t.detachSuccessor x s = t₁ at *
  have hsub : (x :: s :: (l.toList ++ BinTree.around ctx)).Nodup := by
    refine List.Nodup.sublist (List.Sublist.cons_cons x (List.Sublist.cons_cons s ?_)) hnodup
    refine List.Sublist.append_right ?_ _
    exact (List.sublist_append_left _ _).trans (List.sublist_append_left _ _)
  obtain ⟨hpath₂, hleft₂, hsame, hother⟩ := takePlace_spec hpath₁ hleft₁ hsub
  generalize t₁.takePlace x s = t₂ at *
  have hall : (right.toList ++ BinTree.around (f :: inner ++ ⟨.right, s, l⟩ :: ctx)).Nodup := by
    have hperm : (s :: (l.toList ++ right.toList ++ BinTree.around (f :: inner) ++
        BinTree.around ctx)).Perm
          (right.toList ++ BinTree.around (f :: inner ++ ⟨.right, s, l⟩ :: ctx)) := by
      refine List.perm_iff_count.2 fun z => ?_
      rw [BinTree.around_append, BinTree.around_cons ⟨.right, s, l⟩]
      simp only [List.count_append, List.count_cons]
      omega
    exact hperm.nodup_iff.1 (List.nodup_cons.1 hnodup).2
  simp only [List.nodup_cons, List.mem_append, not_or, List.nodup_append] at hnodup
  obtain ⟨-, ⟨⟨⟨hsl, hsr⟩, hsinner⟩, hsctx⟩, ⟨⟨-, -, hlr⟩, -, hlrInner⟩, -, hlriCtx⟩ := hnodup
  -- the height of the successor is stale until the climb comes by
  have hheight (z : T) (hz : z ≠ s) : (t₂.updateHeight s).node z = t₂.node z :=
    updateHeight_node_ne hz
  have hs := updateHeight_node_self t₂ s .right
  have hfocused : Focused (t₂.updateHeight s) hole (some f.value) right
      (f :: inner ++ ⟨.right, s, l⟩ :: ctx) := by
    refine ⟨?_, ?_, hall⟩
    · refine hright₁.congr fun z hz => ?_
      have hzs : z ≠ s := fun heq => hsr (heq ▸ hz)
      rw [hheight z hzs]
      apply hother z hzs
      · exact fun hin => hlr z hin z hz rfl
      · exact fun hin => hlriCtx z (.inl (.inr hz)) z hin rfl
    · refine path_append.2 ⟨(t₂.node s).right, some s, ?_, ?_⟩
      · rw [hsame]
        refine hinner.congr fun z hz => ?_
        have hzs : z ≠ s := fun heq => hsinner (heq ▸ hz)
        rw [hheight z hzs]
        apply hother z hzs
        · exact fun hin => hlrInner z (.inl hin) z hz rfl
        · exact fun hin => hlriCtx z (.inr hz) z hin rfl
      · refine ⟨rfl, ?_, ?_, ?_⟩
        · rw [hs]
          rfl
        · dsimp only
          rw [hs]
          refine Holds.congr hleft₂ fun z hz => hheight z ?_
          exact fun heq => hsl (heq ▸ hz)
        · dsimp only
          rw [hs]
          refine hpath₂.congr fun z hz => hheight z ?_
          exact fun heq => hsctx (heq ▸ hz)
  exact hfocused.climb hfuel

/-- `remove` of a node of the tree. -/
theorem remove_spec {less : T → T → Prop} (h : InOrder less t tree)
    (hx : x ∈ tree.toList) (hfuel : tree.toList.length ≤ fuel) :
    ∃ t' tree', t.remove fuel x = some t' ∧ InOrder less t' tree' ∧
      (x :: tree'.toList).Perm tree.toList := by
  obtain ⟨ctx, l, r, rfl⟩ := BinTree.exists_focus hx
  obtain ⟨hole, parent, hpath, rfl, rfl, -, hl, hr⟩ := h.represents.holds.path
  obtain ⟨⟨hlBalanced, hrBalanced, hle, hge⟩, hctx⟩ := BinTree.plug_balanced.1 h.balanced
  have hperm := BinTree.perm_plug ctx (.node l x r)
  have hnodup : (x :: (l.toList ++ r.toList ++ BinTree.around ctx)).Nodup :=
    (List.perm_middle.append_right _).nodup_iff.1 (hperm.nodup_iff.1 h.represents.nodup)
  obtain ⟨hxnot, hrest⟩ := List.nodup_cons.1 hnodup
  have hxctx : x ∉ BinTree.around ctx := fun hmem => hxnot (List.mem_append_right _ hmem)
  have hlength : (l.toList ++ r.toList ++ BinTree.around ctx).length < fuel := by
    have hsize := hperm.length_eq
    simp only [BinTree.toList, List.length_append, List.length_cons] at hsize ⊢
    omega
  have hctxLength := BinTree.length_le_around ctx
  have hlist := h.sorted
  rw [BinTree.toList_plug, BinTree.toList] at hlist
  -- what is left is in order
  have hdone {t' : AvlTree T} {place : List (Frame T)} {c : BinTree T} {height : Int}
      (hrep : Represents t' (.rebuild place c)) (hc : c.Balanced)
      (hplace : BinTree.BalancedAround place height) (hlow : c.height ≤ height + 1)
      (hhigh : height ≤ c.height + 1)
      (heq : BinTree.before place ++ c.toList ++ BinTree.after place =
        BinTree.before ctx ++ (l.toList ++ r.toList) ++ BinTree.after ctx) :
      InOrder less t' (.rebuild place c) ∧
        (x :: (BinTree.rebuild place c).toList).Perm (BinTree.plug ctx (.node l x r)).toList := by
    refine ⟨InOrder.of_climb hrep hc hplace hlow hhigh ?_, ?_⟩
    · rw [heq]
      have hold : BinTree.Sorted less
          ((BinTree.before ctx ++ l.toList) ++ x :: (r.toList ++ BinTree.after ctx)) := by
        simpa using hlist
      simpa using hold.remove
    · rw [BinTree.toList_rebuild, heq, BinTree.toList_plug, BinTree.toList]
      refine List.perm_iff_count.2 fun z => ?_
      simp only [List.count_append, List.count_cons]
      omega
  have hctxFuel : ctx.length < fuel := by
    simp only [List.length_append] at hlength
    omega
  -- a node with at most one child
  have hone {p : Option T} {c : BinTree T} (hc : Holds t p (some x) c) (hcBalanced : c.Balanced)
      (hclist : c.toList = l.toList ++ r.toList) (hcheight : (BinTree.node l x r).height =
        c.height + 1)
      (hremove : t.remove fuel x = rebalance fuel (t.replaceNode x p) (t.node x).parent) :
      ∃ t' tree', t.remove fuel x = some t' ∧ InOrder less t' tree' ∧
        (x :: tree'.toList).Perm (BinTree.plug ctx (.node l x r)).toList := by
    obtain ⟨t', hclimb, hrep⟩ :=
      replace_climb hpath hc (hclist ▸ hrest) hxctx (Nat.le_of_lt hctxFuel)
    exact ⟨t', _, hremove.trans hclimb,
      hdone hrep hcBalanced hctx (by omega) (by omega) (by rw [hclist])⟩
  have hlpos := l.height_nonneg
  have hrpos := r.height_nonneg
  cases l with
  | nil =>
    have hnone : (t.node x).left = none := hl
    apply hone hr hrBalanced rfl
    · show max 0 r.height + 1 = _
      omega
    · unfold remove
      rw [hnone]
      rfl
  | node ll lx lr =>
    cases r with
    | nil =>
      have hnone : (t.node x).right = none := hr
      apply hone hl hlBalanced (List.append_nil _).symm
      · show max _ 0 + 1 = _
        omega
      · unfold remove
        rw [hl.1, hnone]
        rfl
    | node rl rx rr =>
      have hleftSome : (t.node x).left = some lx := hl.1
      have hrightSome : (t.node x).right = some rx := hr.1
      generalize BinTree.node ll lx lr = l at *
      generalize BinTree.node rl rx rr = r at *
      rw [hrightSome] at hr
      obtain ⟨inner, s, right, rfl, hbefore, hmin⟩ := findMin_spec hr (show _ ≤ fuel by
        simp only [List.length_append] at hlength
        omega)
      rw [← hrightSome] at hr
      obtain ⟨hole, q, hinner, rfl, hsparent, -, -, hright⟩ := hr.path
      -- the successor, its subtree and what is around them
      have hnodup' : (x :: s :: (l.toList ++ right.toList ++ BinTree.around inner ++
          BinTree.around ctx)).Nodup := by
        have hpermRight := BinTree.perm_plug inner (.node .nil s right)
        refine List.Perm.nodup_iff (List.perm_iff_count.2 fun z => ?_) |>.1 hnodup
        have hcount := hpermRight.count_eq z
        simp only [List.count_append, List.count_cons, BinTree.toList, List.count_nil] at hcount ⊢
        omega
      have hplace : BinTree.BalancedAround (inner ++ ⟨.right, s, l⟩ :: ctx)
          (BinTree.node .nil s right).height := by
        have hall := h.balanced
        have hsplit : BinTree.plug ctx (.node l x (.plug inner (.node .nil s right))) =
            BinTree.plug (inner ++ ⟨.right, x, l⟩ :: ctx) (.node .nil s right) := by
          rw [BinTree.plug_append]
          rfl
        rw [hsplit] at hall
        exact (BinTree.plug_balanced.1 hall).2.replace
      have hrightBalanced : right.Balanced := (BinTree.plug_balanced.1 hrBalanced).1.2.1
      have hrightPos := right.height_nonneg
      have hrightHeight : (BinTree.node .nil s right).height = right.height + 1 := by
        show max 0 right.height + 1 = _
        omega
      have heq : BinTree.before (inner ++ ⟨.right, s, l⟩ :: ctx) ++ right.toList ++
          BinTree.after (inner ++ ⟨.right, s, l⟩ :: ctx) = BinTree.before ctx ++
            (l.toList ++ (BinTree.plug inner (.node .nil s right)).toList) ++
              BinTree.after ctx := by
        rw [BinTree.before_append, BinTree.after_append, BinTree.toList_plug, hbefore]
        simp [BinTree.before, BinTree.after, Frame.before, Frame.after, BinTree.toList]
      have hplaceLength : (inner ++ ⟨.right, s, l⟩ :: ctx).length ≤ fuel := by
        have hsize := (BinTree.perm_plug inner (.node .nil s right)).length_eq
        have hinnerLength := BinTree.length_le_around inner
        simp only [List.length_append, List.length_cons] at hsize hlength ⊢
        omega
      rw [remove_two hleftSome hrightSome hmin]
      cases inner with
      | nil =>
        obtain ⟨hroot, rfl⟩ := hinner
        rw [if_pos hsparent]
        obtain ⟨t', hclimb, hrep⟩ := near_climb hpath hl hright hsparent (by
          rwa [BinTree.around_nil, List.append_nil] at hnodup') hctxFuel
        exact ⟨t', _, hclimb,
          hdone hrep hrightBalanced hplace (by omega) (by omega) heq⟩
      | cons f inner =>
        obtain rfl := hinner.parent_eq
        have hfx : f.value ≠ x := by
          rintro rfl
          apply (List.nodup_cons.1 hnodup').1
          exact .tail _ (List.mem_append_left _ (List.mem_append_right _ (.head _)))
        rw [hsparent, if_neg fun heq => hfx (Option.some.inj heq)]
        obtain ⟨t', hclimb, hrep⟩ := deep_climb
          (path_append.2 ⟨_, _, hinner, ⟨rfl, rfl, hl, hpath⟩⟩) hsparent hright hnodup' hplaceLength
        exact ⟨t', _, hclimb,
          hdone hrep hrightBalanced hplace (by omega) (by omega) heq⟩

end Remove

omit [DecidableEq T] in
theorem Holds.each {t : AvlTree T} {tree : BinTree T} {p q : Option T} {fuel : Nat}
    (h : Holds t p q tree) (hfuel : tree.toList.length ≤ fuel) :
    t.each fuel p = some tree.toList := by
  induction tree generalizing p q fuel with
  | nil =>
    rw [h]
    unfold AvlTree.each
    rfl
  | node l v r hl hr =>
    obtain ⟨rfl, -, -, hleft, hright⟩ := h
    unfold BinTree.toList at hfuel
    rw [List.length_append, List.length_cons] at hfuel
    obtain ⟨fuel, rfl⟩ : ∃ n, fuel = n + 1 := Nat.exists_eq_succ_of_ne_zero (by omega)
    unfold AvlTree.each
    rw [hl hleft (show _ ≤ fuel by omega), hr hright (show _ ≤ fuel by omega)]
    rfl

/-! ## Search -/

omit [DecidableEq T] in
/-- What `find` relies on for a node and one behind it: the key is at one node at most, and before
all behind that. -/
def KeyOk (isAt before : T → Bool) (a b : T) : Prop :=
  (isAt a = true → before b = true) ∧ (isAt a = true ∨ before a = true → isAt b = false)

omit [DecidableEq T] in
theorem Holds.find {isAt before : T → Bool} {t : AvlTree T} {tree : BinTree T} {p q : Option T}
    {fuel : Nat} (h : Holds t p q tree) (hkey : tree.toList.Pairwise (KeyOk isAt before))
    (hfuel : tree.height ≤ fuel) : t.find isAt before fuel p = some (tree.toList.find? isAt) := by
  induction tree generalizing p q fuel with
  | nil =>
    rw [h]
    unfold AvlTree.find
    rfl
  | node l v r hl hr =>
    obtain ⟨rfl, -, -, hleft, hright⟩ := h
    unfold BinTree.toList at hkey ⊢
    obtain ⟨hkeyl, hkeyr, hcross⟩ := List.pairwise_append.1 hkey
    obtain ⟨hv, hkeyr⟩ := List.pairwise_cons.1 hkeyr
    have hheight : (BinTree.node l v r).height = max l.height r.height + 1 := rfl
    have hnonneg := l.height_nonneg
    obtain ⟨fuel, rfl⟩ : ∃ n, fuel = n + 1 := Nat.exists_eq_succ_of_ne_zero (by omega)
    rw [AvlTree.find, List.find?_append, List.find?_cons]
    by_cases hbefore : before v = true ∧ isAt v = false
    · have hnone : r.toList.find? isAt = none := List.find?_eq_none.2 fun x hx => by
        simp [(hv x hx).2 (.inr hbefore.1)]
      simp [hbefore, hnone, hl hleft hkeyl (show l.height ≤ fuel by omega)]
    · have hnone : l.toList.find? isAt = none := List.find?_eq_none.2 fun x hx hat => by
        obtain ⟨hat', hlater⟩ := hcross x hx v (.head _)
        exact hbefore ⟨hat' hat, hlater (.inl hat)⟩
      cases hat : isAt v with
      | true => simp [hnone]
      | false =>
        have hafter : before v = false := by simpa [hat] using hbefore
        simp [hafter, hnone, hr hright hkeyr (show r.height ≤ fuel by omega)]

/-! ## Sequences -/

section Sequences

/-- A call. -/
inductive Call (T : Type) where
  | insert (node : T)
  | remove (node : T)
deriving DecidableEq

/-- The nodes that have been inserted and not removed. -/
def members (present : List T) : List (Call T) → List T
  | [] => present
  | .insert x :: calls => members (x :: present) calls
  | .remove x :: calls => members (present.erase x) calls

/-- Fresh nodes are inserted and present nodes removed. -/
def Legal (present : List T) : List (Call T) → Prop
  | [] => True
  | .insert x :: calls => x ∉ present ∧ Legal (x :: present) calls
  | .remove x :: calls => x ∈ present ∧ Legal (present.erase x) calls

variable (less : T → T → Prop) [DecidableRel less]

/-- The calls one after the other. -/
def run (fuel : Nat) (t : AvlTree T) : List (Call T) → Option (AvlTree T)
  | [] => some t
  | .insert x :: calls => (t.insert less fuel x).bind fun t => t.run fuel calls
  | .remove x :: calls => (t.remove fuel x).bind fun t => t.run fuel calls

variable {less}

/-- A legal run keeps the tree in order, with the members that are present. -/
theorem InOrder.run [IsStrictWeakOrder T less] {t : AvlTree T} {tree : BinTree T}
    {present : List T} {calls : List (Call T)} {fuel : Nat} (h : InOrder less t tree)
    (hpresent : tree.toList.Perm present) (hlegal : Legal present calls)
    (hfuel : present.length + calls.length ≤ fuel) :
    ∃ t' tree', t.run less fuel calls = some t' ∧ InOrder less t' tree' ∧
      tree'.toList.Perm (members present calls) ∧ tree'.toList.length ≤ fuel := by
  induction calls generalizing t tree present with
  | nil =>
    refine ⟨t, tree, rfl, h, hpresent, ?_⟩
    rw [hpresent.length_eq]
    exact hfuel
  | cons call calls ih =>
    have hsize : tree.toList.length ≤ fuel := by
      rw [hpresent.length_eq]
      exact Nat.le_trans (Nat.le_add_right _ _) hfuel
    rw [List.length_cons] at hfuel
    cases call with
    | insert x =>
      obtain ⟨hfresh, hrest⟩ := hlegal
      obtain ⟨t₁, tree₁, hinsert, hin, hperm⟩ :=
        insert_spec h (fun hmem => hfresh (hpresent.mem_iff.1 hmem)) hsize
      obtain ⟨t₂, tree₂, hrun, hresult⟩ := ih hin (hperm.trans (hpresent.cons x)) hrest (by
        rw [List.length_cons]
        omega)
      refine ⟨t₂, tree₂, ?_, hresult⟩
      unfold AvlTree.run
      rw [hinsert]
      exact hrun
    | remove x =>
      obtain ⟨hmem, hrest⟩ := hlegal
      obtain ⟨t₁, tree₁, hremove, hin, hperm⟩ :=
        remove_spec h (hpresent.mem_iff.2 hmem) hsize
      have hleft : tree₁.toList.Perm (present.erase x) :=
        List.Perm.cons_inv (hperm.trans (hpresent.trans (List.perm_cons_erase hmem)))
      have hlength := List.length_erase_of_mem hmem
      obtain ⟨t₂, tree₂, hrun, hresult⟩ := ih hin hleft hrest (by omega)
      refine ⟨t₂, tree₂, ?_, hresult⟩
      unfold AvlTree.run
      rw [hremove]
      exact hrun

omit [DecidableEq T] [DecidableRel less] in
theorem empty_inOrder (node : T → AvlNode T) : InOrder less ⟨none, node⟩ .nil :=
  ⟨⟨rfl, List.nodup_nil⟩, trivial, List.Pairwise.nil⟩

/-- After every legal sequence of calls on an empty tree the links hold a balanced tree with right
heights and parents, and a traversal in order is sorted and visits exactly the nodes that were
inserted and not removed. -/
theorem calls_keep_order [IsStrictWeakOrder T less] {calls : List (Call T)}
    (hlegal : Legal [] calls) (node : T → AvlNode T) {fuel : Nat} (hfuel : calls.length ≤ fuel) :
    ∃ t tree, run less fuel ⟨none, node⟩ calls = some t ∧ InOrder less t tree ∧
      t.each fuel t.root = some tree.toList ∧ tree.toList.Perm (members [] calls) := by
  have hstart : InOrder less ⟨none, node⟩ .nil := empty_inOrder node
  obtain ⟨t, tree, hrun, hin, hperm, hsize⟩ := hstart.run .rfl hlegal
    (show 0 + calls.length ≤ fuel by omega)
  exact ⟨t, tree, hrun, hin, hin.represents.holds.each hsize, hperm⟩

/-- Three nodes are inserted, which takes a rotation, and the root is removed. -/
theorem calls_keep_order_three : ∃ t tree, run (fun a b : Nat => a < b) 4 ⟨none, fun _ => {}⟩
        [.insert 1, .insert 2, .insert 3, .remove 2] = some t ∧
      InOrder (fun a b : Nat => a < b) t tree ∧ t.each 4 t.root = some tree.toList ∧
      tree.toList.Perm [3, 1] := by
  have : IsStrictWeakOrder Nat fun a b => a < b :=
    { irrefl := Nat.lt_irrefl
      trans := fun _ _ _ => Nat.lt_trans
      incomp_trans := fun a b c hab hbc => by omega }
  exact calls_keep_order (by simp [Legal]) _ (Nat.le_refl 4)

/-- After every legal sequence of calls `find` gives the node that the key is at, or null, in a
number of rounds that is logarithmic in the number of nodes. -/
theorem find_after_calls [IsStrictWeakOrder T less] {calls : List (Call T)}
    (hlegal : Legal [] calls)
    (node : T → AvlNode T) {isAt before : T → Bool} (hkey : ∀ a ∈ members [] calls,
      ∀ b ∈ members [] calls, a ≠ b → ¬less b a → KeyOk isAt before a b) :
    ∃ (t : AvlTree T) (nodes : List T), run less calls.length ⟨none, node⟩ calls = some t ∧
      nodes.Perm (members [] calls) ∧ t.find isAt before
        (2 * Nat.log 2 (nodes.length + 1) + 1) t.root = some (nodes.find? isAt) := by
  have hstart : InOrder less ⟨none, node⟩ .nil := empty_inOrder node
  obtain ⟨t, tree, hrun, hin, hperm, -⟩ := hstart.run .rfl hlegal
    (show 0 + calls.length ≤ calls.length by omega)
  have hlog := Nat.le_log_of_pow_le Nat.one_lt_two hin.balanced.two_pow_le
  refine ⟨t, tree.toList, hrun, hperm, hin.represents.holds.find ?_ (by omega)⟩
  exact (hin.sorted.and hin.represents.nodup).imp_of_mem fun ha hb hab =>
    hkey _ (hperm.mem_iff.1 ha) _ (hperm.mem_iff.1 hb) hab.2 hab.1

/-- The key 25 is in the range of the node 20. -/
theorem find_after_calls_three : ∃ (t : AvlTree Nat) (nodes : List Nat),
    run (· < ·) 3 ⟨none, fun _ => {}⟩ [.insert 10, .insert 20, .insert 30] = some t ∧
      nodes.Perm [30, 20, 10] ∧ t.find (fun x => x ≤ 25 && 25 < x + 10) (25 < ·)
        (2 * Nat.log 2 (nodes.length + 1) + 1) t.root =
          some (nodes.find? fun x => x ≤ 25 && 25 < x + 10) := by
  have : IsStrictWeakOrder Nat fun a b => a < b :=
    { irrefl := Nat.lt_irrefl
      trans := fun _ _ _ => Nat.lt_trans
      incomp_trans := fun a b c hab hbc => by omega }
  exact find_after_calls (show Legal [] [.insert 10, .insert 20, .insert 30] by simp [Legal]) _
    (by simp [members, KeyOk])

end Sequences

end AvlTree

end UnDOS.Adt
