import Mathlib.Algebra.Group.Nat.Defs
import Mathlib.Data.List.Pairwise
import Mathlib.Data.List.Perm.Basic

/-!
# Balanced Search Trees

Binary trees, the way from a subtree up to the root, and the balance of AVL trees.

- A `Frame` is one step of the way up: the node, the side on which the hole is, and the other
  subtree.  `plug` puts a subtree into the hole; `rebuild` does so and rotates on the way up.
- `join` is one round of the rotations.  `rebuild_balanced` says that a subtree may change its
  height by one, in either direction.
- The two sides are treated as one: `mk side near x far` is a node whose `side` subtree is `near`.
-/

namespace UnDOS.Lib

/-! ## Trees -/

inductive Side where
  | left
  | right
deriving DecidableEq

def Side.other : Side → Side
  | left => right
  | right => left

@[simp] theorem Side.other_other (d : Side) : d.other.other = d := by
  cases d <;> rfl

inductive BinTree (T : Type) where
  | nil
  | node (left : BinTree T) (value : T) (right : BinTree T)

namespace BinTree

variable {T : Type}

def height : BinTree T → Int
  | nil => 0
  | node l _ r => max l.height r.height + 1

/-- The nodes in order. -/
def toList : BinTree T → List T
  | nil => []
  | node l x r => l.toList ++ x :: r.toList

/-- At every node the heights of the children differ by at most one. -/
def Balanced : BinTree T → Prop
  | nil => True
  | node l _ r => l.Balanced ∧ r.Balanced ∧ l.height ≤ r.height + 1 ∧ r.height ≤ l.height + 1

/-- The node with `near` on the side `d`. -/
def mk (d : Side) (near : BinTree T) (x : T) (far : BinTree T) : BinTree T :=
  match d with
  | .left => node near x far
  | .right => node far x near

/-- How much higher the subtree on the side `d` is. -/
def tilt (d : Side) : BinTree T → Int
  | nil => 0
  | node l _ r =>
    match d with
    | .left => l.height - r.height
    | .right => r.height - l.height

/-- The subtree on the side `d` goes up. -/
def rotate : Side → BinTree T → BinTree T
  | .left, node (node a x b) y c => node a x (node b y c)
  | .right, node c y (node b x a) => node (node c y b) x a
  | _, t => t

/-- The subtree that is going up on the side `d` must not be higher on the inside. -/
def straighten (d : Side) (t : BinTree T) : BinTree T :=
  if t.tilt d < 0 then rotate d.other t else t

/-- A node with the rotations that its children need. -/
def join (d : Side) (near : BinTree T) (x : T) (far : BinTree T) : BinTree T :=
  if 1 < near.height - far.height then rotate d (mk d (straighten d near) x far)
  else if near.height - far.height < -1 then
    rotate d.other (mk d near x (straighten d.other far))
  else mk d near x far

/-! ### Heights and orders -/

theorem height_nonneg (t : BinTree T) : 0 ≤ t.height := by
  induction t with
  | nil => exact Int.le_refl 0
  | node l x r hl hr =>
    unfold height
    omega

@[simp] theorem height_mk (d : Side) (near far : BinTree T) (x : T) :
    (mk d near x far).height = max near.height far.height + 1 := by
  cases d
  · rfl
  · exact congrArg (· + 1) (Int.max_comm _ _)

theorem mk_other (d : Side) (near far : BinTree T) (x : T) :
    mk d.other far x near = mk d near x far := by
  cases d <;> rfl

@[simp] theorem rotate_mk (d : Side) (a b c : BinTree T) (x y : T) :
    rotate d (mk d (mk d a x b) y c) = mk d a x (mk d b y c) := by
  cases d <;> rfl

@[simp] theorem tilt_mk (d : Side) (near far : BinTree T) (x : T) :
    (mk d near x far).tilt d = near.height - far.height := by
  cases d <;> rfl

theorem balanced_mk {d : Side} {near far : BinTree T} {x : T} : (mk d near x far).Balanced ↔
      near.Balanced ∧ far.Balanced ∧ near.height ≤ far.height + 1 ∧
        far.height ≤ near.height + 1 := by
  cases d
  · exact Iff.rfl
  · constructor
    · rintro ⟨hfar, hnear, hle, hge⟩
      exact ⟨hnear, hfar, hge, hle⟩
    · rintro ⟨hnear, hfar, hle, hge⟩
      exact ⟨hfar, hnear, hge, hle⟩

theorem exists_mk (d : Side) {t : BinTree T} (h : 0 < t.height) :
    ∃ near x far, t = mk d near x far := by
  cases t with
  | nil => exact absurd h (Int.lt_irrefl 0)
  | node l x r =>
    cases d
    · exact ⟨l, x, r, rfl⟩
    · exact ⟨r, x, l, rfl⟩

theorem toList_rotate (d : Side) (t : BinTree T) : (rotate d t).toList = t.toList := by
  unfold rotate
  split
  · simp [toList]
  · simp [toList]
  · rfl

theorem toList_mk_congr (d : Side) {near near' far far' : BinTree T} (x : T)
    (hnear : near.toList = near'.toList) (hfar : far.toList = far'.toList) :
    (mk d near x far).toList = (mk d near' x far').toList := by
  cases d
  · unfold mk toList
    rw [hnear, hfar]
  · unfold mk toList
    rw [hnear, hfar]

theorem toList_straighten (d : Side) (t : BinTree T) : (straighten d t).toList = t.toList := by
  unfold straighten
  split
  · exact toList_rotate _ t
  · rfl

theorem toList_join (d : Side) (near far : BinTree T) (x : T) :
    (join d near x far).toList = (mk d near x far).toList := by
  unfold join
  split
  · exact (toList_rotate d _).trans (toList_mk_congr d x (toList_straighten d near) rfl)
  · split
    · exact (toList_rotate _ _).trans (toList_mk_congr d x rfl (toList_straighten _ far))
    · rfl

/-- The height of a balanced tree is logarithmic. -/
theorem Balanced.two_pow_le {t : BinTree T} (h : t.Balanced) :
    2 ^ (t.height.toNat / 2) ≤ t.toList.length + 1 := by
  induction t with
  | nil =>
    show 2 ^ ((0 : Int).toNat / 2) ≤ 0 + 1
    decide
  | node l x r hl hr =>
    obtain ⟨hlBalanced, hrBalanced, hle, hge⟩ := h
    have hlsize := hl hlBalanced
    have hrsize := hr hrBalanced
    have hsize : (node l x r).toList.length + 1 =
        (l.toList.length + 1) + (r.toList.length + 1) := by
      rw [toList, List.length_append, List.length_cons]
      omega
    -- neither child is more than two lower than the tree
    have hhalf (n : Nat) (hn : (node l x r).height.toNat ≤ n + 2) :
        2 ^ ((node l x r).height.toNat / 2) ≤ 2 * 2 ^ (n / 2) := by
      rw [← Nat.pow_succ']
      exact Nat.pow_le_pow_right (by omega) (by omega)
    have hheight : (node l x r).height = max l.height r.height + 1 := rfl
    rcases Int.lt_or_le l.height r.height with hlow | hlow
    · have hmin := hhalf l.height.toNat (by omega)
      have hmono : 2 ^ (l.height.toNat / 2) ≤ 2 ^ (r.height.toNat / 2) :=
        Nat.pow_le_pow_right (by omega) (by omega)
      omega
    · have hmin := hhalf r.height.toNat (by omega)
      have hmono : 2 ^ (r.height.toNat / 2) ≤ 2 ^ (l.height.toNat / 2) :=
        Nat.pow_le_pow_right (by omega) (by omega)
      omega

/-! ### One round of rotations -/

theorem join_other (d : Side) (near far : BinTree T) (x : T) :
    join d.other far x near = join d near x far := by
  unfold join
  rw [Side.other_other, mk_other, mk_other, mk_other]
  rcases Int.lt_or_le 1 (near.height - far.height) with hhigh | hlow
  · rw [if_neg (by omega), if_pos (by omega), if_pos hhigh]
  · rcases Int.lt_or_le 1 (far.height - near.height) with hhigh' | hlow'
    · rw [if_pos hhigh', if_neg (by omega), if_pos (by omega)]
    · rw [if_neg (by omega), if_neg (by omega), if_neg (by omega), if_neg (by omega)]

theorem rotate_balanced {d : Side} {a b c : BinTree T} {x y : T} (ha : a.Balanced)
    (hb : b.Balanced) (hc : c.Balanced) (hout : b.height ≤ a.height)
    (hin : a.height ≤ b.height + 1) (hhigh : a.height = c.height + 1) :
    (mk d a x (mk d b y c)).Balanced := by
  refine balanced_mk.2 ⟨ha, balanced_mk.2 ⟨hb, hc, by omega, by omega⟩, ?_⟩
  rw [height_mk]
  exact ⟨by omega, by omega⟩

theorem double_balanced {d : Side} {a b b' c : BinTree T} {x y z : T} (ha : a.Balanced)
    (hb : b.Balanced) (hb' : b'.Balanced) (hc : c.Balanced) (hac : a.height = c.height)
    (hleft : b.height ≤ b'.height + 1) (hright : b'.height ≤ b.height + 1)
    (hhigh : max b.height b'.height = a.height) : (mk d (mk d a x b) z (mk d b' y c)).Balanced := by
  refine balanced_mk.2 ⟨balanced_mk.2 ⟨ha, hb, ?_⟩, balanced_mk.2 ⟨hb', hc, ?_⟩, ?_⟩
  · exact ⟨by omega, by omega⟩
  · exact ⟨by omega, by omega⟩
  · rw [height_mk, height_mk]
    exact ⟨by omega, by omega⟩

theorem rotate_straighten {d : Side} {near far : BinTree T} {x : T} (hnear : near.Balanced)
    (hfar : far.Balanced) (hhigh : near.height = far.height + 2) :
    (rotate d (mk d (straighten d near) x far)).Balanced ∧
      near.height ≤ (rotate d (mk d (straighten d near) x far)).height ∧
      (rotate d (mk d (straighten d near) x far)).height ≤ near.height + 1 := by
  have hpos := far.height_nonneg
  obtain ⟨a, y, b, rfl⟩ := exists_mk d (show 0 < near.height by omega)
  obtain ⟨ha, hb, hdiff⟩ := balanced_mk.1 hnear
  rw [height_mk] at hhigh
  unfold straighten
  rw [tilt_mk]
  split
  · -- the inside is higher: it goes up twice
    rename_i hinside
    obtain ⟨b₂, z, b₁, rfl⟩ := exists_mk d.other (show 0 < b.height by omega)
    obtain ⟨hb₂, hb₁, hinner⟩ := balanced_mk.1 hb
    rw [height_mk] at hhigh hinside hdiff
    have hrotated : rotate d.other (mk d a y (mk d.other b₂ z b₁)) =
        mk d (mk d a y b₁) z b₂ := by
      have h := rotate_mk d.other b₂ b₁ a z y
      rwa [mk_other d a (mk d.other b₂ z b₁) y, mk_other d a b₁ y,
        mk_other d (mk d a y b₁) b₂ z] at h
    rw [hrotated, rotate_mk]
    refine ⟨double_balanced ha hb₁ hb₂ hfar (by omega) hinner.2 hinner.1 (by omega), ?_, ?_⟩
    · simp only [height_mk]
      omega
    · simp only [height_mk]
      omega
  · rename_i hinside
    rw [rotate_mk]
    refine ⟨rotate_balanced ha hb hfar (by omega) (by omega) (by omega), ?_, ?_⟩
    · simp only [height_mk]
      omega
    · simp only [height_mk]
      omega

theorem join_spec {d : Side} {near far : BinTree T} {x : T} (hnear : near.Balanced)
    (hfar : far.Balanced) (hle : near.height ≤ far.height + 2)
    (hge : far.height ≤ near.height + 2) : (join d near x far).Balanced ∧
      max near.height far.height ≤ (join d near x far).height ∧
      (join d near x far).height ≤ max near.height far.height + 1 ∧
      (near.height ≤ far.height + 1 → far.height ≤ near.height + 1 →
        (join d near x far).height = max near.height far.height + 1) := by
  rcases Int.lt_or_le 1 (near.height - far.height) with hhigh | hlow
  · have hup := rotate_straighten (d := d) (x := x) hnear hfar (by omega)
    unfold join
    rw [if_pos hhigh]
    exact ⟨hup.1, by omega, by omega, fun hsmall _ => by omega⟩
  rcases Int.lt_or_le (near.height - far.height) (-1) with hhigh' | hlow'
  · have hup := rotate_straighten (d := d.other) (x := x) hfar hnear (by omega)
    rw [mk_other] at hup
    unfold join
    rw [if_neg (by omega), if_pos hhigh']
    exact ⟨hup.1, by omega, by omega, fun _ hsmall => by omega⟩
  · unfold join
    rw [if_neg (by omega), if_neg (by omega), height_mk]
    exact ⟨balanced_mk.2 ⟨hnear, hfar, by omega, by omega⟩, by omega, by omega, fun _ _ => rfl⟩

end BinTree

/-! ## The way up -/

/-- A step from a subtree to its parent `value`, whose other subtree is `sibling`. -/
structure Frame (T : Type) where
  side : Side
  value : T
  sibling : BinTree T

namespace Frame

variable {T : Type}

/-- The subtree of the parent. -/
def wrap (f : Frame T) (t : BinTree T) : BinTree T := .mk f.side t f.value f.sibling

/-- The subtree of the parent after its rotations. -/
def rewrap (f : Frame T) (t : BinTree T) : BinTree T := .join f.side t f.value f.sibling

/-- What comes before the hole in order, and what comes after it. -/
def before (f : Frame T) : List T :=
  match f.side with
  | .left => []
  | .right => f.sibling.toList ++ [f.value]

def after (f : Frame T) : List T :=
  match f.side with
  | .left => f.value :: f.sibling.toList
  | .right => []

theorem toList_wrap (f : Frame T) (t : BinTree T) :
    (f.wrap t).toList = f.before ++ t.toList ++ f.after := by
  obtain ⟨d, x, sibling⟩ := f
  cases d
  · rfl
  · simp [wrap, before, after, BinTree.mk, BinTree.toList]

theorem toList_rewrap (f : Frame T) (t : BinTree T) :
    (f.rewrap t).toList = f.before ++ t.toList ++ f.after :=
  (BinTree.toList_join ..).trans (f.toList_wrap t)

end Frame

namespace BinTree

variable {T : Type}

/-- The tree with a subtree in the hole. -/
def plug : List (Frame T) → BinTree T → BinTree T
  | [], t => t
  | f :: ctx, t => plug ctx (f.wrap t)

/-- The tree with a subtree in the hole, rotated on the way up. -/
def rebuild : List (Frame T) → BinTree T → BinTree T
  | [], t => t
  | f :: ctx, t => rebuild ctx (f.rewrap t)

/-- What comes before the hole in order, and what comes after it. -/
def before : List (Frame T) → List T
  | [] => []
  | f :: ctx => before ctx ++ f.before

def after : List (Frame T) → List T
  | [] => []
  | f :: ctx => f.after ++ after ctx

theorem toList_plug (ctx : List (Frame T)) (t : BinTree T) :
    (plug ctx t).toList = before ctx ++ t.toList ++ after ctx := by
  induction ctx generalizing t with
  | nil => exact (List.append_nil _).symm
  | cons f ctx ih =>
    unfold plug before after
    rw [ih, Frame.toList_wrap]
    simp only [List.append_assoc]

theorem toList_rebuild (ctx : List (Frame T)) (t : BinTree T) :
    (rebuild ctx t).toList = before ctx ++ t.toList ++ after ctx := by
  induction ctx generalizing t with
  | nil => exact (List.append_nil _).symm
  | cons f ctx ih =>
    unfold rebuild before after
    rw [ih, Frame.toList_rewrap]
    simp only [List.append_assoc]

theorem plug_append (inner outer : List (Frame T)) (t : BinTree T) :
    plug (inner ++ outer) t = plug outer (plug inner t) := by
  induction inner generalizing t with
  | nil => rfl
  | cons f inner ih => exact ih (f.wrap t)

theorem before_append (inner outer : List (Frame T)) :
    before (inner ++ outer) = before outer ++ before inner := by
  induction inner with
  | nil => exact (List.append_nil _).symm
  | cons f inner ih =>
    rw [List.cons_append, before, before, ih, List.append_assoc]

theorem after_append (inner outer : List (Frame T)) :
    after (inner ++ outer) = after inner ++ after outer := by
  induction inner with
  | nil => rfl
  | cons f inner ih =>
    rw [List.cons_append, after, after, ih, List.append_assoc]

/-- The nodes of the way up, with those of the other subtrees. -/
def around (ctx : List (Frame T)) : List T :=
  (ctx.map fun f => f.value :: f.sibling.toList).flatten

@[simp] theorem around_nil : around ([] : List (Frame T)) = [] := rfl

@[simp] theorem around_cons (f : Frame T) (ctx : List (Frame T)) :
    around (f :: ctx) = f.value :: f.sibling.toList ++ around ctx := rfl

@[simp] theorem around_append (inner outer : List (Frame T)) :
    around (inner ++ outer) = around inner ++ around outer := by
  unfold around
  rw [List.map_append, List.flatten_append]

theorem length_le_around (ctx : List (Frame T)) : ctx.length ≤ (around ctx).length := by
  induction ctx with
  | nil => exact Nat.le_refl 0
  | cons f ctx ih =>
    rw [around_cons, List.length_cons, List.length_append, List.length_cons]
    omega

theorem perm_plug (ctx : List (Frame T)) (t : BinTree T) :
    (plug ctx t).toList.Perm (t.toList ++ around ctx) := by
  induction ctx generalizing t with
  | nil => rw [around_nil, List.append_nil, plug]
  | cons f ctx ih =>
    have hwrap : (f.wrap t).toList.Perm (t.toList ++ (f.value :: f.sibling.toList)) := by
      obtain ⟨d, x, sibling⟩ := f
      cases d
      · exact List.Perm.refl _
      · exact (List.perm_middle.trans (List.perm_append_comm.cons x)).trans List.perm_middle.symm
    rw [around_cons, ← List.append_assoc]
    exact (ih (f.wrap t)).trans (hwrap.append_right _)

/-! ### Balance around a hole -/

/-- With a balanced tree of the given height in the hole all is balanced. -/
def BalancedAround : List (Frame T) → Int → Prop
  | [], _ => True
  | f :: ctx, h => f.sibling.Balanced ∧ h ≤ f.sibling.height + 1 ∧ f.sibling.height ≤ h + 1 ∧
    BalancedAround ctx (max h f.sibling.height + 1)

theorem BalancedAround.replace {inner ctx : List (Frame T)} {d d' : Side} {x x' : T}
    {sibling : BinTree T} {h : Int} (hb : BalancedAround (inner ++ ⟨d, x, sibling⟩ :: ctx) h) :
    BalancedAround (inner ++ ⟨d', x', sibling⟩ :: ctx) h := by
  induction inner generalizing h with
  | nil => exact hb
  | cons f inner ih => exact ⟨hb.1, hb.2.1, hb.2.2.1, ih hb.2.2.2⟩

theorem plug_balanced {ctx : List (Frame T)} {t : BinTree T} :
    (plug ctx t).Balanced ↔ t.Balanced ∧ BalancedAround ctx t.height := by
  induction ctx generalizing t with
  | nil => exact (and_iff_left trivial).symm
  | cons f ctx ih =>
    unfold plug BalancedAround
    rw [ih, Frame.wrap, balanced_mk, height_mk]
    constructor
    · rintro ⟨⟨ht, hsibling, hle, hge⟩, hctx⟩
      exact ⟨ht, hsibling, hle, hge, hctx⟩
    · rintro ⟨ht, hsibling, hle, hge, hctx⟩
      exact ⟨⟨ht, hsibling, hle, hge⟩, hctx⟩

/-- The subtree in the hole may have become higher or lower by one. -/
theorem rebuild_balanced {ctx : List (Frame T)} {t : BinTree T} {h : Int} (ht : t.Balanced)
    (hctx : BalancedAround ctx h) (hle : t.height ≤ h + 1) (hge : h ≤ t.height + 1) :
    (rebuild ctx t).Balanced := by
  induction ctx generalizing t h with
  | nil => exact ht
  | cons f ctx ih =>
    obtain ⟨hsibling, hup, hdown, houter⟩ := hctx
    obtain ⟨hjoin, hlow, hhigh, hsame⟩ :=
      join_spec (d := f.side) (x := f.value) ht hsibling (by omega) (by omega)
    apply ih hjoin houter
    · show (join ..).height ≤ _
      omega
    · show _ ≤ (join ..).height + 1
      rcases Int.lt_or_le (f.sibling.height + 1) t.height with hfar | hnear
      · omega
      rcases Int.lt_or_le (t.height + 1) f.sibling.height with hfar' | hnear'
      · omega
      · omega

/-! ### Order -/

section Order
variable (less : T → T → Prop)

/-- No node is less than one before it. -/
def Sorted (L : List T) : Prop := L.Pairwise fun a b => ¬less b a

/-- The place of a value between two lists. -/
structure Between (x : T) (L R : List T) : Prop where
  left : ∀ a ∈ L, ¬less x a
  right : ∀ b ∈ R, ¬less b x

variable {less}

theorem Sorted.insert {x : T} {L R : List T} (h : Sorted less (L ++ R))
    (hx : Between less x L R) : Sorted less (L ++ x :: R) := by
  obtain ⟨hL, hR, hLR⟩ := List.pairwise_append.1 h
  refine List.pairwise_append.2 ⟨hL, List.pairwise_cons.2 ⟨hx.right, hR⟩, ?_⟩
  intro a ha b hb
  rcases List.mem_cons.1 hb with rfl | hmem
  · exact hx.left a ha
  · exact hLR a ha b hmem

theorem Sorted.remove {x : T} {L R : List T} (h : Sorted less (L ++ x :: R)) :
    Sorted less (L ++ R) :=
  List.Pairwise.sublist (List.Sublist.append_left (List.sublist_cons_self x R) L) h

theorem not_less_trans [IsStrictWeakOrder T less] {a b c : T} (hab : ¬less a b) (hbc : ¬less b c) :
    ¬less a c := by
  intro hac
  have hcb : ¬less c b := fun h => hab (IsTrans.trans _ _ _ hac h)
  have hba : ¬less b a := fun h => hbc (IsTrans.trans _ _ _ h hac)
  exact (IsStrictWeakOrder.incomp_trans a b c ⟨hab, hba⟩ ⟨hbc, hcb⟩).1 hac

variable (less) [DecidableRel less]

/-- The way from the root to the place of a new value. -/
def descend (x : T) : BinTree T → List (Frame T) → List (Frame T)
  | nil, ctx => ctx
  | node l v r, ctx =>
    if less x v then descend x l (⟨.left, v, r⟩ :: ctx) else descend x r (⟨.right, v, l⟩ :: ctx)

theorem plug_descend (x : T) (t : BinTree T) (ctx : List (Frame T)) :
    plug (descend less x t ctx) nil = plug ctx t := by
  induction t generalizing ctx with
  | nil => rfl
  | node l v r hl hr =>
    unfold descend
    split
    · exact hl _
    · exact hr _

theorem descend_sides (x : T) (t : BinTree T) {ctx : List (Frame T)}
    (h : ∀ f ∈ ctx, f.side = .left ↔ less x f.value) :
    ∀ f ∈ descend less x t ctx, f.side = .left ↔ less x f.value := by
  induction t generalizing ctx with
  | nil => exact h
  | node l v r hl hr =>
    unfold descend
    split
    · rename_i hless
      refine hl fun f hf => ?_
      rcases List.mem_cons.1 hf with rfl | hold
      · exact ⟨fun _ => hless, fun _ => rfl⟩
      · exact h f hold
    · rename_i hless
      refine hr fun f hf => ?_
      rcases List.mem_cons.1 hf with rfl | hold
      · exact ⟨Side.noConfusion, fun habsurd => absurd habsurd hless⟩
      · exact h f hold

variable {less}

theorem between_descend_of [IsStrictWeakOrder T less] {x : T} {t : BinTree T} {ctx : List (Frame T)}
    (hsorted : Sorted less (plug ctx t).toList) (hx : Between less x (before ctx) (after ctx)) :
    Between less x (before (descend less x t ctx)) (after (descend less x t ctx)) := by
  induction t generalizing ctx with
  | nil => exact hx
  | node l v r hl hr =>
    have hlist := hsorted
    rw [toList_plug, toList, List.append_assoc] at hlist
    obtain ⟨-, hmiddle, -⟩ := List.pairwise_append.1 hlist
    rw [List.append_assoc] at hmiddle
    obtain ⟨-, hright, hlr⟩ := List.pairwise_append.1 hmiddle
    unfold descend
    split
    · rename_i hless
      refine hl hsorted ⟨?_, ?_⟩
      · intro a ha
        exact hx.left a (by simpa [before, Frame.before] using ha)
      · -- the new value is less than `v`, and nothing after `v` is less than that
        intro b hb hbx
        have hbv : less b v := IsTrans.trans _ _ _ hbx hless
        rcases List.mem_append.1 hb with hframe | hctx
        · rcases List.mem_cons.1 hframe with rfl | hmem
          · exact irrefl b hbv
          · exact (List.pairwise_cons.1 hright).1 b (List.mem_append_left _ hmem) hbv
        · exact hx.right b hctx hbx
    · rename_i hless
      refine hr hsorted ⟨?_, ?_⟩
      · intro a ha
        rcases List.mem_append.1 ha with hctx | hframe
        · exact hx.left a hctx
        · rcases List.mem_append.1 hframe with hmem | hv
          · exact not_less_trans hless (hlr a hmem v (.head _))
          · rw [List.mem_singleton.1 hv]
            exact hless
      · intro b hb
        exact hx.right b (by simpa [after, Frame.after] using hb)

theorem between_descend [IsStrictWeakOrder T less] {x : T} {t : BinTree T}
    (hsorted : Sorted less t.toList) :
    Between less x (before (descend less x t [])) (after (descend less x t [])) :=
  between_descend_of hsorted ⟨fun _ ha => absurd ha List.not_mem_nil,
    fun _ hb => nomatch hb⟩

end Order

/-! ### Finding a node -/

theorem exists_focus {x : T} {t : BinTree T} (h : x ∈ t.toList) :
    ∃ ctx l r, plug ctx (node l x r) = t := by
  induction t with
  | nil => cases h
  | node l v r hl hr =>
    rcases List.mem_append.1 h with hmem | hmem
    · obtain ⟨ctx, l', r', rfl⟩ := hl hmem
      refine ⟨ctx ++ [⟨.left, v, r⟩], l', r', ?_⟩
      rw [plug_append]
      rfl
    · rcases List.mem_cons.1 hmem with rfl | hright
      · exact ⟨[], l, r, rfl⟩
      · obtain ⟨ctx, l', r', rfl⟩ := hr hright
        refine ⟨ctx ++ [⟨.right, v, l⟩], l', r', ?_⟩
        rw [plug_append]
        rfl

end BinTree

end UnDOS.Lib
