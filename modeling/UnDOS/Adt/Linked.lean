import Mathlib.Data.List.Nodup
import UnDOS.Adt.AvlTree

/-!
# Trees in Memory

`Holds` says that the links below a pointer are a tree with its heights and parents, `Path` that
the links above it are a way up.  On the way up the stored heights may be stale.
-/

namespace UnDOS.Adt

open UnDOS.Lib

namespace AvlNode

variable {T : Type}

@[simp] theorem child_setChild (n : AvlNode T) (d : Side) (p : Option T) :
    (n.setChild d p).child d = p := by
  cases d <;> rfl

@[simp] theorem child_setChild_other (n : AvlNode T) (d : Side) (p : Option T) :
    (n.setChild d p).child d.other = n.child d.other := by
  cases d <;> rfl

@[simp] theorem child_other_setChild (n : AvlNode T) (d : Side) (p : Option T) :
    (n.setChild d.other p).child d = n.child d := by
  cases d <;> rfl

@[simp] theorem parent_setChild (n : AvlNode T) (d : Side) (p : Option T) :
    (n.setChild d p).parent = n.parent := by
  cases d <;> rfl

end AvlNode

namespace AvlTree

variable {T : Type} [DecidableEq T]

/-! ## Writes -/

section Writes
variable {t : AvlTree T} {x y : T}

@[simp] theorem modify_root (t : AvlTree T) (x : T) (f : AvlNode T → AvlNode T) :
    (t.modify x f).root = t.root := rfl

@[simp] theorem modify_node_self (t : AvlTree T) (x : T) (f : AvlNode T → AvlNode T) :
    (t.modify x f).node x = f (t.node x) := Function.update_self ..

theorem modify_node_ne (h : y ≠ x) (f : AvlNode T → AvlNode T) :
    (t.modify x f).node y = t.node y := Function.update_of_ne h ..

theorem setParent_some (t : AvlTree T) (x : T) (parent : Option T) :
    t.setParent (some x) parent = t.modify x fun n => { n with parent := parent } := rfl

@[simp] theorem setParent_node_self (t : AvlTree T) (x : T) (parent : Option T) :
    (t.setParent (some x) parent).node x = { t.node x with parent := parent } := by
  rw [setParent_some, modify_node_self]

@[simp] theorem setParent_root (t : AvlTree T) (p parent : Option T) :
    (t.setParent p parent).root = t.root := by
  cases p <;> rfl

theorem setParent_node_ne {p parent : Option T} (h : p ≠ some y) :
    (t.setParent p parent).node y = t.node y := by
  cases p with
  | none => rfl
  | some x =>
    rw [setParent_some]
    exact modify_node_ne (fun heq => h (congrArg some heq.symm)) _

@[simp] theorem updateHeight_root (t : AvlTree T) (x : T) : (t.updateHeight x).root = t.root := rfl

theorem updateHeight_node_ne (h : y ≠ x) : (t.updateHeight x).node y = t.node y := by
  unfold updateHeight
  exact modify_node_ne h _

theorem updateHeight_node_self (t : AvlTree T) (x : T) (d : Side) :
    (t.updateHeight x).node x = { t.node x with
      height := max (t.getHeight ((t.node x).child d))
        (t.getHeight ((t.node x).child d.other)) + 1 } := by
  unfold updateHeight
  rw [modify_node_self]
  congr 1
  cases d
  · show _ = max (t.getHeight (t.node x).left) (t.getHeight (t.node x).right) + 1
    split <;> omega
  · show _ = max (t.getHeight (t.node x).right) (t.getHeight (t.node x).left) + 1
    split <;> omega

end Writes

/-! ## What the links hold -/

omit [DecidableEq T] in
/-- Below the pointer is the tree. -/
def Holds (t : AvlTree T) : Option T → Option T → BinTree T → Prop
  | p, _, .nil => p = none
  | p, parent, .node l x r =>
    p = some x ∧ (t.node x).parent = parent ∧ (t.node x).height = (BinTree.node l x r).height ∧
      Holds t (t.node x).left (some x) l ∧ Holds t (t.node x).right (some x) r

omit [DecidableEq T] in
/-- The way up from the pointer `hole` with the parent `parent` to the pointer `top`. -/
def Path (t : AvlTree T) : Option T → Option T → List (Frame T) → Option T → Option T → Prop
  | hole, parent, [], top, topParent => hole = top ∧ parent = topParent
  | hole, parent, f :: ctx, top, topParent =>
    parent = some f.value ∧ (t.node f.value).child f.side = hole ∧
      Holds t ((t.node f.value).child f.side.other) (some f.value) f.sibling ∧
      Path t (some f.value) (t.node f.value).parent ctx top topParent

section Holding
variable {t t' : AvlTree T} {p parent hole top topParent : Option T} {tree : BinTree T}
  {ctx : List (Frame T)}

omit [DecidableEq T] in
theorem holds_mk {d : Side} {near far : BinTree T} {x : T} : Holds t p parent (.mk d near x far) ↔
      p = some x ∧ (t.node x).parent = parent ∧ (t.node x).height = max near.height far.height + 1 ∧
        Holds t ((t.node x).child d) (some x) near ∧
        Holds t ((t.node x).child d.other) (some x) far := by
  cases d
  · exact Iff.rfl
  · constructor
    · rintro ⟨hp, hparent, hheight, hfar, hnear⟩
      exact ⟨hp, hparent, hheight.trans (congrArg (· + 1) (Int.max_comm _ _)), hnear, hfar⟩
    · rintro ⟨hp, hparent, hheight, hnear, hfar⟩
      exact ⟨hp, hparent, hheight.trans (congrArg (· + 1) (Int.max_comm _ _)), hfar, hnear⟩

omit [DecidableEq T] in
theorem Holds.congr (h : Holds t p parent tree)
    (hsame : ∀ x ∈ tree.toList, t'.node x = t.node x) : Holds t' p parent tree := by
  induction tree generalizing p parent with
  | nil => exact h
  | node l x r hl hr =>
    obtain ⟨hp, hparent, hheight, hleft, hright⟩ := h
    have hx : t'.node x = t.node x := hsame x (List.mem_append_right _ (.head _))
    unfold Holds
    rw [hx]
    exact ⟨hp, hparent, hheight,
      hl hleft fun y hy => hsame y (List.mem_append_left _ hy),
      hr hright fun y hy => hsame y (List.mem_append_right _ (.tail _ hy))⟩

omit [DecidableEq T] in
theorem Path.congr (h : Path t hole parent ctx top topParent)
    (hsame : ∀ x ∈ BinTree.around ctx, t'.node x = t.node x) :
    Path t' hole parent ctx top topParent := by
  induction ctx generalizing hole parent with
  | nil => exact h
  | cons f ctx ih =>
    obtain ⟨hparent, hchild, hsibling, hrest⟩ := h
    have hf : t'.node f.value = t.node f.value := hsame _ (.head _)
    unfold Path
    rw [hf]
    refine ⟨hparent, hchild, hsibling.congr ?_, ih hrest ?_⟩
    · exact fun x hx => hsame x (.tail _ (List.mem_append_left _ hx))
    · exact fun x hx => hsame x (.tail _ (List.mem_append_right _ hx))

omit [DecidableEq T] in
theorem Holds.getHeight (h : Holds t p parent tree) : t.getHeight p = tree.height := by
  cases tree with
  | nil =>
    rw [h]
    rfl
  | node l x r =>
    rw [h.1]
    exact h.2.2.1

omit [DecidableEq T] in
theorem Holds.mem (h : Holds t p parent tree) {x : T} (hp : p = some x) : x ∈ tree.toList := by
  cases tree with
  | nil =>
    rw [h] at hp
    cases hp
  | node l y r =>
    rw [h.1] at hp
    cases hp
    exact List.mem_append_right _ (.head _)

theorem Holds.modify (h : Holds t p parent tree) {x : T} (hx : x ∉ tree.toList)
    (f : AvlNode T → AvlNode T) : Holds (t.modify x f) p parent tree := by
  refine h.congr fun y hy => modify_node_ne ?_ f
  intro heq
  exact hx (heq ▸ hy)

theorem Path.modify (h : Path t hole parent ctx top topParent) {x : T}
    (hx : x ∉ BinTree.around ctx) (f : AvlNode T → AvlNode T) :
    Path (t.modify x f) hole parent ctx top topParent := by
  refine h.congr fun y hy => modify_node_ne ?_ f
  intro heq
  exact hx (heq ▸ hy)

theorem Holds.reparent (h : Holds t p parent tree) (hnodup : tree.toList.Nodup)
    (parent' : Option T) : Holds (t.setParent p parent') p parent' tree := by
  cases tree with
  | nil =>
    rw [h]
    rfl
  | node l x r =>
    obtain ⟨rfl, -, hheight, hleft, hright⟩ := h
    have hx : x ∉ l.toList ++ r.toList := (List.nodup_cons.1 (List.nodup_middle.1 hnodup)).1
    unfold Holds
    rw [setParent_node_self]
    rw [setParent_some]
    refine ⟨rfl, rfl, hheight, ?_, ?_⟩
    · exact hleft.modify (fun hmem => hx (List.mem_append_left _ hmem)) _
    · exact hright.modify (fun hmem => hx (List.mem_append_right _ hmem)) _

/-! ## Ways up -/

omit [DecidableEq T] in
theorem path_cons {f : Frame T} : Path t hole parent (f :: ctx) top topParent ↔
      parent = some f.value ∧ (t.node f.value).child f.side = hole ∧
        Holds t ((t.node f.value).child f.side.other) (some f.value) f.sibling ∧
        Path t (some f.value) (t.node f.value).parent ctx top topParent := Iff.rfl

omit [DecidableEq T] in
theorem path_append {inner outer : List (Frame T)} :
    Path t hole parent (inner ++ outer) top topParent ↔
      ∃ p q, Path t hole parent inner p q ∧ Path t p q outer top topParent := by
  induction inner generalizing hole parent with
  | nil =>
    constructor
    · exact fun h => ⟨hole, parent, ⟨rfl, rfl⟩, h⟩
    · rintro ⟨p, q, ⟨rfl, rfl⟩, h⟩
      exact h
  | cons f inner ih =>
    rw [List.cons_append, path_cons, ih]
    constructor
    · rintro ⟨hparent, hchild, hsibling, p, q, hinner, houter⟩
      exact ⟨p, q, ⟨hparent, hchild, hsibling, hinner⟩, houter⟩
    · rintro ⟨p, q, ⟨hparent, hchild, hsibling, hinner⟩, houter⟩
      exact ⟨hparent, hchild, hsibling, p, q, hinner, houter⟩

omit [DecidableEq T] in
theorem Holds.path (h : Holds t top topParent (.plug ctx tree)) :
    ∃ hole parent, Path t hole parent ctx top topParent ∧ Holds t hole parent tree := by
  induction ctx generalizing tree with
  | nil => exact ⟨top, topParent, ⟨rfl, rfl⟩, h⟩
  | cons f ctx ih =>
    obtain ⟨hole, parent, hpath, hwrap⟩ := ih h
    obtain ⟨rfl, rfl, -, hnear, hfar⟩ := holds_mk.1 hwrap
    exact ⟨_, some f.value, ⟨rfl, rfl, hfar, hpath⟩, hnear⟩

omit [DecidableEq T] in
theorem Path.parent_eq {f : Frame T} (h : Path t hole parent (f :: ctx) top topParent) :
    parent = some f.value := h.1

omit [DecidableEq T] in
theorem Path.sibling_ne {f : Frame T} {y : T}
    (h : Path t (some y) parent (f :: ctx) top topParent) (hy : y ∉ BinTree.around (f :: ctx)) :
    (t.node f.value).child f.side.other ≠ some y := by
  intro heq
  exact hy (.tail _ (List.mem_append_left _ (h.2.2.1.mem heq)))

theorem Path.setChild {f : Frame T} (h : Path t hole parent (f :: ctx) top topParent)
    (hnodup : (BinTree.around (f :: ctx)).Nodup) (hole' : Option T) :
    Path (t.modify f.value fun n => n.setChild f.side hole') hole' parent (f :: ctx) top
      topParent := by
  obtain ⟨hparent, -, hsibling, hrest⟩ := h
  obtain ⟨hf, -⟩ := List.nodup_cons.1 hnodup
  unfold Path
  rw [modify_node_self, AvlNode.child_setChild, AvlNode.child_setChild_other,
    AvlNode.parent_setChild]
  refine ⟨hparent, rfl, hsibling.modify ?_ _, hrest.modify ?_ _⟩
  · exact fun hmem => hf (List.mem_append_left _ hmem)
  · exact fun hmem => hf (List.mem_append_right _ hmem)

theorem Path.reparent (h : Path t hole parent ctx top topParent)
    (hnodup : (BinTree.around ctx).Nodup) (hne : ctx ≠ []) (parent' : Option T) :
    Path (t.setParent top parent') hole parent ctx top parent' ∧
      ∀ x, top = some x → x ∈ BinTree.around ctx := by
  induction ctx generalizing hole parent with
  | nil => exact absurd rfl hne
  | cons f ctx ih =>
    obtain ⟨hparent, hchild, hsibling, hrest⟩ := h
    obtain ⟨hf, htail⟩ := List.nodup_cons.1 hnodup
    cases ctx with
    | nil =>
      -- the last node of the way
      obtain ⟨rfl, rfl⟩ := hrest
      constructor
      · unfold Path
        rw [setParent_node_self]
        rw [setParent_some]
        refine ⟨hparent, hchild, ?_, rfl, rfl⟩
        exact hsibling.modify (fun hmem => hf (List.mem_append_left _ hmem)) _
      · rintro x hx
        cases hx
        exact .head _
    | cons g ctx =>
      obtain ⟨hpath, hmem⟩ := ih hrest (List.nodup_append.1 htail).2.1 (List.cons_ne_nil _ _)
      have hother : ∀ x ∈ f.value :: f.sibling.toList, top ≠ some x := by
        intro x hx heq
        have hin := hmem x heq
        rcases List.mem_cons.1 hx with rfl | hsib
        · exact hf (List.mem_append_right _ hin)
        · exact (List.nodup_append.1 htail).2.2 x hsib x hin rfl
      have hnode : (t.setParent top parent').node f.value = t.node f.value :=
        setParent_node_ne (hother _ (.head _))
      refine ⟨?_, fun x hx => .tail _ (List.mem_append_right _ (hmem x hx))⟩
      show _ ∧ _ ∧ _ ∧ _
      rw [hnode]
      refine ⟨hparent, hchild, hsibling.congr ?_, hpath⟩
      intro x hx
      exact setParent_node_ne (hother x (.tail _ hx))

/-- Splicing another subtree in touches the parent's link and the new root's, nothing else. -/
theorem replaceNode_spec {y : T} {newNode : Option T}
    (h : Path t (some y) parent ctx t.root none) (hparent : (t.node y).parent = parent)
    (hnodup : (BinTree.around ctx).Nodup) (hy : y ∉ BinTree.around ctx)
    (hnew : ∀ x, newNode = some x → x ∉ BinTree.around ctx) :
    Path (t.replaceNode y newNode) newNode parent ctx (t.replaceNode y newNode).root none ∧
      (∀ x, x ∉ BinTree.around ctx → newNode ≠ some x →
        (t.replaceNode y newNode).node x = t.node x) ∧ ∀ x, newNode = some x →
        (t.replaceNode y newNode).node x = { t.node x with parent := parent } := by
  -- the change of the link, before the parent is set
  obtain ⟨t', hreplace, hpath, hsame⟩ : ∃ t' : AvlTree T,
      t.replaceNode y newNode = t'.setParent newNode parent ∧
        Path t' newNode parent ctx t'.root none ∧
        ∀ x, x ∉ BinTree.around ctx → t'.node x = t.node x := by
    cases ctx with
    | nil =>
      obtain ⟨-, rfl⟩ := h
      refine ⟨{ t with root := newNode }, ?_, ⟨rfl, rfl⟩, fun _ _ => rfl⟩
      unfold replaceNode
      rw [hparent]
    | cons f ctx =>
      obtain rfl := h.parent_eq
      refine ⟨t.modify f.value fun n => n.setChild f.side newNode, ?_,
        h.setChild hnodup newNode, ?_⟩
      · have hne := h.sibling_ne hy
        have hchild := h.2.1
        unfold replaceNode
        rw [hparent]
        dsimp only
        rcases hside : f.side with _ | _
        · rw [hside] at hchild
          have hleft : (t.node f.value).left = some y := hchild
          rw [if_pos hleft]
          rfl
        · rw [hside] at hne
          have hleft : (t.node f.value).left ≠ some y := hne
          rw [if_neg hleft]
          rfl
      · intro x hx
        refine modify_node_ne ?_ _
        rintro rfl
        exact hx (.head _)
  rw [hreplace]
  refine ⟨?_, ?_, ?_⟩
  · rw [setParent_root]
    refine hpath.congr fun x hx => setParent_node_ne ?_
    intro heq
    exact hnew x heq hx
  · intro x hx hne
    rw [setParent_node_ne hne, hsame x hx]
  · rintro x rfl
    rw [setParent_node_self, hsame x (hnew x rfl)]

theorem replaceNode_holds {y : T} {newNode old : Option T}
    (h : Path t (some y) parent ctx t.root none) (hparent : (t.node y).parent = parent)
    (hnodup : (tree.toList ++ BinTree.around ctx).Nodup) (hy : y ∉ BinTree.around ctx)
    (htree : Holds t newNode old tree) : Holds (t.replaceNode y newNode) newNode parent tree := by
  obtain ⟨htreeNodup, hctxNodup, hdisjoint⟩ := List.nodup_append.1 hnodup
  obtain ⟨-, hsame, hnew⟩ := replaceNode_spec h hparent hctxNodup hy
    fun x hx hmem => hdisjoint x (htree.mem hx) x hmem rfl
  refine (htree.reparent htreeNodup parent).congr fun z hz => ?_
  by_cases hroot : newNode = some z
  · rw [hnew z hroot, hroot, setParent_node_self]
  · rw [setParent_node_ne hroot]
    exact hsame z (fun hmem => hdisjoint z hz z hmem rfl) hroot

end Holding

end AvlTree

end UnDOS.Adt
