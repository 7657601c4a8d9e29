import UnDOS.Lib.SearchTree

/-!
# The Intrusive AVL Tree

`kernel/adt/avl_tree.hpp`: an `AvlNode` is a member of the value it links, so a tree is a root
and a memory of nodes, and every operation is a number of writes to links.

- A null pointer is `none`.  An operation gives `none` where it would follow a null pointer.
- A loop takes fuel, and `none` also stands for a loop that has not ended with it.
- `rotate_right` and `rotate_left` are one operation on the two sides.
-/

namespace UnDOS.Adt

open UnDOS.Lib

/-- `AvlNode`. -/
structure AvlNode (T : Type) where
  left : Option T := none
  right : Option T := none
  parent : Option T := none
  height : Int := 1

/-- The link on a side. -/
def AvlNode.child {T : Type} (n : AvlNode T) : Side → Option T
  | .left => n.left
  | .right => n.right

def AvlNode.setChild {T : Type} (n : AvlNode T) (d : Side) (p : Option T) : AvlNode T :=
  match d with
  | .left => { n with left := p }
  | .right => { n with right := p }

/-- `AvlTree` with the memory of the nodes. -/
structure AvlTree (T : Type) where
  root : Option T := none
  node : T → AvlNode T

namespace AvlTree

variable {T : Type} [DecidableEq T]

/-- A write to the members of a node. -/
def modify (t : AvlTree T) (x : T) (f : AvlNode T → AvlNode T) : AvlTree T :=
  { t with node := Function.update t.node x (f (t.node x)) }

/-- `if (p) p->parent = parent`. -/
def setParent (t : AvlTree T) (p parent : Option T) : AvlTree T :=
  match p with
  | none => t
  | some x => t.modify x fun n => { n with parent := parent }

omit [DecidableEq T] in
def getHeight (t : AvlTree T) : Option T → Int
  | none => 0
  | some x => (t.node x).height

/-- `update_height` of a node. -/
def updateHeight (t : AvlTree T) (x : T) : AvlTree T :=
  let hl := t.getHeight (t.node x).left
  let hr := t.getHeight (t.node x).right
  t.modify x fun n => { n with height := (if hr < hl then hl else hr) + 1 }

def getBalance (t : AvlTree T) : Option T → Int
  | none => 0
  | some x => t.getHeight (t.node x).left - t.getHeight (t.node x).right

def replaceNode (t : AvlTree T) (oldNode : T) (newNode : Option T) : AvlTree T :=
  let parent := (t.node oldNode).parent
  let t := match parent with
    | none => { t with root := newNode }
    | some p =>
      if (t.node p).left = some oldNode then t.modify p fun n => { n with left := newNode }
      else t.modify p fun n => { n with right := newNode }
  t.setParent newNode parent

/-- The child on the side `d` goes up: `rotate_right` and `rotate_left`. -/
def rotate (d : Side) (t : AvlTree T) (y : T) : Option (T × AvlTree T) := do
  let x ← (t.node y).child d
  let t2 := (t.node x).child d.other
  let t := t.replaceNode y (some x)
  let t := t.modify x fun n => n.setChild d.other (some y)
  let t := t.modify y fun n => { n with parent := some x }
  let t := t.modify y fun n => n.setChild d t2
  let t := t.setParent t2 (some y)
  some (x, (t.updateHeight y).updateHeight x)

def rotateRight (t : AvlTree T) (y : T) : Option (T × AvlTree T) := t.rotate .left y

def rotateLeft (t : AvlTree T) (x : T) : Option (T × AvlTree T) := t.rotate .right x

/-- One round of the loop of `rebalance`: the node that is now the root of the subtree. -/
def rebalanceRound (t : AvlTree T) (node : T) : Option (T × AvlTree T) := do
  let t := t.updateHeight node
  let balance := t.getBalance (some node)
  if 1 < balance then
    let left ← (t.node node).left
    if t.getBalance (some left) < 0 then
      let (_, t) ← t.rotateLeft left
      t.rotateRight node
    else t.rotateRight node
  else if balance < -1 then
    let right ← (t.node node).right
    if 0 < t.getBalance (some right) then
      let (_, t) ← t.rotateRight right
      t.rotateLeft node
    else t.rotateLeft node
  else some (node, t)

def rebalance : Nat → AvlTree T → Option T → Option (AvlTree T)
  | _, t, none => some t
  | 0, _, some _ => none
  | fuel + 1, t, some node => do
    let (node, t) ← t.rebalanceRound node
    rebalance fuel t (t.node node).parent

def findMin (t : AvlTree T) : Nat → T → Option T
  | 0, _ => none
  | fuel + 1, node =>
    match (t.node node).left with
    | none => some node
    | some left => t.findMin fuel left

section Insert
variable (less : T → T → Prop) [DecidableRel less]

/-- The loop of `insert`: the last node that `current` was. -/
def findParent (t : AvlTree T) (node : T) : Nat → Option T → Option T → Option (Option T)
  | _, none, parent => some parent
  | 0, some _, _ => none
  | fuel + 1, some current, _ =>
    if less node current then t.findParent node fuel (t.node current).left (some current)
    else t.findParent node fuel (t.node current).right (some current)

def insert (fuel : Nat) (t : AvlTree T) (node : T) : Option (AvlTree T) :=
  match t.root with
  | none => some { t.modify node fun _ => {} with root := some node }
  | some root => do
    let parent ← ← t.findParent less node fuel (some root) none
    let t := t.modify node fun _ => { parent := some parent }
    let t :=
      if less node parent then t.modify parent fun n => { n with left := some node }
      else t.modify parent fun n => { n with right := some node }
    t.rebalance fuel (some parent)

end Insert

/-- The successor takes the place of its parent's left child, and all right of the node. -/
def detachSuccessor (t : AvlTree T) (node successor : T) : AvlTree T :=
  if (t.node successor).parent ≠ some node then
    let t := t.replaceNode successor (t.node successor).right
    let t := t.modify successor fun n => { n with right := (t.node node).right }
    t.setParent (t.node successor).right (some successor)
  else t

def remove (fuel : Nat) (t : AvlTree T) (node : T) : Option (AvlTree T) :=
  match (t.node node).left, (t.node node).right with
  | some _, some right => do
    let successor ← t.findMin fuel right
    let parent := (t.node successor).parent
    let rebalanceStart := if parent = some node then some successor else parent
    let t := t.detachSuccessor node successor
    let t := t.replaceNode node (some successor)
    let t := t.modify successor fun n => { n with left := (t.node node).left }
    let t := t.setParent (t.node successor).left (some successor)
    (t.updateHeight successor).rebalance fuel rebalanceStart
  | left, right =>
    let child := if left.isSome then left else right
    (t.replaceNode node child).rebalance fuel (t.node node).parent

omit [DecidableEq T] in
/-- The order in which `each` visits the nodes. -/
def each (t : AvlTree T) : Nat → Option T → Option (List T)
  | _, none => some []
  | 0, some _ => none
  | fuel + 1, some x => do
    let before ← t.each fuel (t.node x).left
    let after ← t.each fuel (t.node x).right
    some (before ++ x :: after)

section Find
variable (isAt before : T → Bool)

omit [DecidableEq T] in
/-- The loop of `find`: `isAt x` is `key == x`, `before x` is `key < x`. -/
def find (t : AvlTree T) : Nat → Option T → Option (Option T)
  | _, none => some none
  | 0, some _ => none
  | fuel + 1, some x =>
    if isAt x then some (some x)
    else t.find fuel (if before x then (t.node x).left else (t.node x).right)

end Find

end AvlTree

end UnDOS.Adt
