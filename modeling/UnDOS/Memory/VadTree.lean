import Mathlib.Tactic.Common

/-!
# Protection Flags and Virtual Address Descriptors

`memory/protect.hpp`, `memory/vad.hpp` and the operations of `adt/avl_tree.hpp` that
the memory manager uses on a `VadTree`.

The tree is ordered by `start`.  `find` follows one path, comparing an address with the
whole range of each node, so what it finds when ranges overlap depends on the shape of
the tree; the rotations are therefore kept.  A removed node is named by the address that
found it, since both callers of `remove` hand over what `find` has just returned.
-/

namespace UnDOS.Memory

/-! ## Protection flags -/

/-- `kernel::vmm::ProtectFlags`, one field for each bit. -/
structure ProtectFlags where
  read : Bool := false
  write : Bool := false
  execute : Bool := false
  user : Bool := false
  nocache : Bool := false
deriving DecidableEq

namespace ProtectFlags

/-- `operator|`. -/
def or (a b : ProtectFlags) : ProtectFlags where
  read := a.read || b.read
  write := a.write || b.write
  execute := a.execute || b.execute
  user := a.user || b.user
  nocache := a.nocache || b.nocache

def onlyRead : ProtectFlags := { read := true }
def onlyWrite : ProtectFlags := { write := true }
def onlyExecute : ProtectFlags := { execute := true }
def onlyUser : ProtectFlags := { user := true }
def readWrite : ProtectFlags := { read := true, write := true }

@[simp] theorem or_user (a b : ProtectFlags) : (a.or b).user = (a.user || b.user) := rfl

@[simp] theorem or_write (a b : ProtectFlags) : (a.or b).write = (a.write || b.write) := rfl

end ProtectFlags

/-! ## Descriptors -/

/-- `KMemoryBackingObject::Kind`. -/
inductive BackingKind where
  | anonymous | file | shared | kernelModule
deriving DecidableEq

/-- `kernel::vmm::VirtualAddressDescriptor`.  The source's `end` is `stop`. -/
structure Vad where
  start : Nat
  stop : Nat
  flags : ProtectFlags
  backing : Option BackingKind := none
deriving DecidableEq

/-- `operator==(VirtualAddress, VirtualAddressDescriptor)`. -/
def Vad.contains (v : Vad) (addr : Nat) : Bool := decide (v.start ≤ addr ∧ addr < v.stop)

/-! ## The tree -/

/-- `adt::AvlTree<VirtualAddressDescriptor>`; a node carries its cached height. -/
inductive VadTree where
  | nil
  | node (height : Nat) (left : VadTree) (vad : Vad) (right : VadTree)
deriving DecidableEq

namespace VadTree

def getHeight : VadTree → Nat
  | nil => 0
  | node h _ _ _ => h

/-- A node whose height has just been updated (`update_height`). -/
def updateHeight (l : VadTree) (v : Vad) (r : VadTree) : VadTree :=
  node (max l.getHeight r.getHeight + 1) l v r

def getBalance : VadTree → Int
  | nil => 0
  | node _ l _ r => (l.getHeight : Int) - r.getHeight

def rotateRight : VadTree → VadTree
  | node _ (node _ a x t2) y b => updateHeight a x (updateHeight t2 y b)
  | t => t

def rotateLeft : VadTree → VadTree
  | node _ a x (node _ t2 y b) => updateHeight (updateHeight a x t2) y b
  | t => t

/-- One round of the loop in `rebalance`, at the node with these children. -/
def rebalance (l : VadTree) (v : Vad) (r : VadTree) : VadTree :=
  let balance := getBalance (updateHeight l v r)
  if balance > 1 then
    rotateRight (node 0 (if l.getBalance < 0 then rotateLeft l else l) v r)
  else if balance < -1 then
    rotateLeft (node 0 l v (if r.getBalance > 0 then rotateRight r else r))
  else updateHeight l v r

def insert (v : Vad) : VadTree → VadTree
  | nil => node 1 nil v nil
  | node _ l w r => if v.start < w.start then rebalance (insert v l) w r
    else rebalance l w (insert v r)

def find (addr : Nat) : VadTree → Option Vad
  | nil => none
  | node _ l v r =>
    if v.contains addr then some v
    else if addr < v.start then find addr l else find addr r

/-- Take the leftmost node out of a nonempty tree (`find_min` and its replacement). -/
def removeMin (l : VadTree) (v : Vad) (r : VadTree) : Vad × VadTree :=
  match l with
  | nil => (v, r)
  | node _ ll lv lr =>
    let (m, l') := removeMin ll lv lr
    (m, rebalance l' v r)

/-- Replace a removed node by its only child or by its successor. -/
def join (l r : VadTree) : VadTree :=
  match l, r with
  | nil, r => r
  | l, nil => l
  | l, node _ rl rv rr =>
    let (m, r') := removeMin rl rv rr
    rebalance l m r'

/-- `AvlTree::remove` of the node that `find addr` returns. -/
def remove (addr : Nat) : VadTree → VadTree
  | nil => nil
  | node _ l v r =>
    if v.contains addr then join l r
    else if addr < v.start then rebalance (remove addr l) v r
    else rebalance l v (remove addr r)

/-- The nodes in the order in which `clear` hands them to its callback. -/
def postorder : VadTree → List Vad
  | nil => []
  | node _ l v r => l.postorder ++ r.postorder ++ [v]

/-! ## The regions of a tree, from left to right -/

def inorder : VadTree → List Vad
  | nil => []
  | node _ l v r => l.inorder ++ v :: r.inorder

@[simp] theorem inorder_updateHeight (l : VadTree) (v : Vad) (r : VadTree) :
    (updateHeight l v r).inorder = l.inorder ++ v :: r.inorder := rfl

@[simp] theorem inorder_rotateRight (t : VadTree) : t.rotateRight.inorder = t.inorder := by
  unfold rotateRight
  split
  · simp [inorder]
  · rfl

@[simp] theorem inorder_rotateLeft (t : VadTree) : t.rotateLeft.inorder = t.inorder := by
  unfold rotateLeft
  split
  · simp [inorder]
  · rfl

@[simp] theorem inorder_rebalance (l : VadTree) (v : Vad) (r : VadTree) :
    (rebalance l v r).inorder = l.inorder ++ v :: r.inorder := by
  unfold rebalance
  dsimp only
  split
  · split <;> simp [inorder]
  · split
    · split <;> simp [inorder]
    · rfl

theorem postorder_perm (t : VadTree) : t.postorder.Perm t.inorder := by
  induction t with
  | nil => exact .nil
  | node h l v r ihl ihr =>
    apply ((ihl.append ihr).append_right [v]).trans
    rw [List.append_assoc]
    exact List.Perm.append_left _ (List.perm_append_singleton v _)

/-- The regions are in the order of their starts. -/
def Ordered (t : VadTree) : Prop := t.inorder.Pairwise fun a b => a.start ≤ b.start

theorem inorder_insert_perm (v : Vad) (t : VadTree) :
    (t.insert v).inorder.Perm (v :: t.inorder) := by
  induction t with
  | nil => exact List.Perm.refl _
  | node h l w r ihl ihr =>
    unfold insert
    split
    · rw [inorder_rebalance]
      exact ihl.append_right _
    · rw [inorder_rebalance]
      exact (List.Perm.append_left _ ((ihr.cons w).trans (List.Perm.swap v w _))).trans
        List.perm_middle

theorem Ordered.insert {t : VadTree} (h : t.Ordered) (v : Vad) : (t.insert v).Ordered := by
  induction t with
  | nil => exact List.pairwise_singleton _ v
  | node ht l w r ihl ihr =>
    unfold Ordered inorder at h
    rw [List.pairwise_append, List.pairwise_cons] at h
    obtain ⟨hl, ⟨hwr, hr⟩, hcross⟩ := h
    have hlw : ∀ a ∈ l.inorder, a.start ≤ w.start := fun a ha => hcross a ha w (.head _)
    unfold VadTree.insert Ordered
    split
    · rename_i hlt
      rw [inorder_rebalance, List.pairwise_append, List.pairwise_cons]
      refine ⟨ihl hl, ⟨hwr, hr⟩, ?_⟩
      intro a ha b hb
      rcases List.mem_cons.1 ((inorder_insert_perm v l).mem_iff.1 ha) with rfl | ha
      · rcases List.mem_cons.1 hb with rfl | hb
        · exact Nat.le_of_lt hlt
        · exact Nat.le_trans (Nat.le_of_lt hlt) (hwr b hb)
      · exact hcross a ha b hb
    · rename_i hge
      rw [inorder_rebalance, List.pairwise_append, List.pairwise_cons]
      have hwr' : ∀ b ∈ (r.insert v).inorder, w.start ≤ b.start := by
        intro b hb
        rcases List.mem_cons.1 ((inorder_insert_perm v r).mem_iff.1 hb) with rfl | hb
        · exact Nat.not_lt.1 hge
        · exact hwr b hb
      refine ⟨hl, ⟨hwr', ihr hr⟩, ?_⟩
      intro a ha b hb
      rcases List.mem_cons.1 hb with rfl | hb
      · exact hlw a ha
      · exact Nat.le_trans (hlw a ha) (hwr' b hb)

theorem inorder_removeMin (l : VadTree) (v : Vad) (r : VadTree) :
    (removeMin l v r).1 :: (removeMin l v r).2.inorder = l.inorder ++ v :: r.inorder := by
  induction l generalizing v r with
  | nil => rfl
  | node h ll lv lr ihl _ =>
    unfold removeMin
    rw [inorder_rebalance, ← List.cons_append, ihl lv lr]
    rfl

theorem inorder_join (l r : VadTree) : (join l r).inorder = l.inorder ++ r.inorder := by
  unfold join
  split
  · rfl
  · simp [inorder]
  · rename_i h rl rv rr _
    rw [inorder_rebalance, inorder_removeMin]
    rfl

theorem inorder_remove {addr : Nat} {t : VadTree} {v : Vad} (h : t.find addr = some v) :
    ∃ a b, t.inorder = a ++ v :: b ∧ (t.remove addr).inorder = a ++ b := by
  induction t with
  | nil => cases h
  | node ht l w r ihl ihr =>
    unfold find at h
    unfold remove
    split at h
    · rename_i hin
      cases h
      rw [if_pos hin]
      exact ⟨l.inorder, r.inorder, rfl, inorder_join l r⟩
    · rename_i hout
      rw [if_neg hout]
      split at h
      · rename_i hlt
        obtain ⟨a, b, hl, hremove⟩ := ihl h
        rw [if_pos hlt]
        refine ⟨a, b ++ w :: r.inorder, ?_, ?_⟩
        · show l.inorder ++ w :: r.inorder = _
          rw [hl, List.append_assoc, List.cons_append]
        · rw [inorder_rebalance, hremove, List.append_assoc]
      · rename_i hge
        obtain ⟨a, b, hr, hremove⟩ := ihr h
        rw [if_neg hge]
        refine ⟨l.inorder ++ w :: a, b, ?_, ?_⟩
        · show l.inorder ++ w :: r.inorder = _
          rw [hr, List.append_assoc, List.cons_append]
        · rw [inorder_rebalance, hremove, List.append_assoc, List.cons_append]

/-! ## Disjoint regions -/

/-- Two ranges have no address in common. -/
def Apart (a b : Vad) : Prop := a.stop ≤ b.start ∨ b.stop ≤ a.start

theorem find_mem {addr : Nat} {t : VadTree} {v : Vad} (h : t.find addr = some v) :
    v ∈ t.inorder ∧ v.start ≤ addr ∧ addr < v.stop := by
  induction t with
  | nil => cases h
  | node ht l w r ihl ihr =>
    unfold find at h
    split at h
    · rename_i hin
      cases h
      exact ⟨by simp [inorder], by simpa [Vad.contains] using hin⟩
    · split at h
      · obtain ⟨hmem, hin⟩ := ihl h
        exact ⟨by simp [inorder, hmem], hin⟩
      · obtain ⟨hmem, hin⟩ := ihr h
        exact ⟨by simp [inorder, hmem], hin⟩

/-- The search goes to the side where the address is, as the regions are apart. -/
theorem find_complete {addr : Nat} {t : VadTree} (hord : t.Ordered)
    (hne : ∀ v ∈ t.inorder, v.start < v.stop) (hapart : t.inorder.Pairwise Apart) {v : Vad}
    (hv : v ∈ t.inorder) (hlo : v.start ≤ addr) (hhi : addr < v.stop) : t.find addr = some v := by
  induction t with
  | nil => cases hv
  | node ht l w r ihl ihr =>
    unfold Ordered inorder at hord
    unfold inorder at hne hapart hv
    rw [List.pairwise_append, List.pairwise_cons] at hord hapart
    obtain ⟨hl, ⟨hwr, hr⟩, hcross⟩ := hord
    obtain ⟨hal, ⟨hawr, har⟩, hacross⟩ := hapart
    unfold find
    have hw := hne w (List.mem_append_right _ (.head _))
    rcases List.mem_append.1 hv with hvl | hvr
    · -- A region on the left ends before `w` starts.
      have hbefore : v.start ≤ w.start := hcross v hvl w (.head _)
      have hends : addr < w.start := by
        rcases hacross v hvl w (.head _) with hd | hd <;> omega
      rw [if_neg (by simp [Vad.contains]; omega), if_pos hends]
      exact ihl hl (fun u hu => hne u (List.mem_append_left _ hu)) hal hvl
    · rcases List.mem_cons.1 hvr with rfl | hvr
      · rw [if_pos (by simp [Vad.contains, hlo, hhi])]
      · have hafter : w.start ≤ v.start := hwr v hvr
        have hstarts : w.stop ≤ addr := by
          rcases hawr v hvr with hd | hd
          · omega
          · omega
        rw [if_neg (by simp [Vad.contains]; omega), if_neg (by omega)]
        exact ihr hr (fun u hu => hne u (List.mem_append_right _ (.tail _ hu)))
          har hvr

end VadTree

end UnDOS.Memory
