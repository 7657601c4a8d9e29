import Mathlib.Data.List.Nodup

/-!
# Intrusive Doubly Linked Queues

Queues that keep their links inside the queued nodes: one table of `next` and `prev`
links is shared by every queue, and a queue is its two ends and a counter.

- `enqueue`, `remove` and `popNext` follow the links; they do not know which queue a node
  is on.
- `IsList l q L` says that the queue `q` holds the nodes of `L` in this order.  Appending,
  unlinking and picking are then operations on `L`.
- `IsFamily l r Q` is the same for a family of queues over one table of links.
-/

namespace UnDOS.Lib.Intrusive

open Function (update update_of_ne update_self)

variable {α : Type} [DecidableEq α]

/-- The links of all nodes. -/
@[ext] structure Links (α : Type) where
  next : α → Option α
  prev : α → Option α

/-- The ends of a queue and its counter. -/
@[ext] structure Queue (α : Type) where
  head : Option α := none
  tail : Option α := none
  count : Nat := 0
deriving DecidableEq

namespace Links

def setNext (l : Links α) (x : α) (v : Option α) : Links α :=
  { l with next := fun y => if y = x then v else l.next y }

def setPrev (l : Links α) (x : α) (v : Option α) : Links α :=
  { l with prev := fun y => if y = x then v else l.prev y }

@[simp] theorem setNext_prev (l : Links α) (x : α) (v : Option α) : (l.setNext x v).prev = l.prev :=
  rfl

@[simp] theorem setPrev_next (l : Links α) (x : α) (v : Option α) : (l.setPrev x v).next = l.next :=
  rfl

@[simp] theorem setNext_next (l : Links α) (x y : α) (v : Option α) :
    (l.setNext x v).next y = if y = x then v else l.next y := rfl

@[simp] theorem setPrev_prev (l : Links α) (x y : α) (v : Option α) :
    (l.setPrev x v).prev y = if y = x then v else l.prev y := rfl

end Links

/-! ## The operations -/

/-- Append a node at the tail. -/
def enqueue (l : Links α) (q : Queue α) (t : α) : Links α × Queue α :=
  let l := (l.setNext t none).setPrev t q.tail
  match q.tail with
  | some last => (l.setNext last (some t), { q with tail := some t, count := q.count + 1 })
  | none => (l, { head := some t, tail := some t, count := q.count + 1 })

/-- Put a node in front of the head. -/
def pushFront (l : Links α) (q : Queue α) (t : α) : Links α × Queue α :=
  let l := (l.setNext t q.head).setPrev t none
  match q.head with
  | some first => (l.setPrev first (some t), { q with head := some t, count := q.count + 1 })
  | none => (l, { head := some t, tail := some t, count := q.count + 1 })

/-- Put a node in front of one that is on the queue. -/
def insertBefore (l : Links α) (q : Queue α) (before t : α) : Links α × Queue α :=
  let above := l.prev before
  let l := (l.setPrev t above).setNext t (some before)
  let (l, q) := match above with
    | some a => (l.setNext a (some t), q)
    | none => (l, { q with head := some t })
  (l.setPrev before (some t), { q with count := q.count + 1 })

/-- The half of `remove` that repairs the side of the head. -/
def unlinkPrev (l : Links α) (q : Queue α) (t : α) : Links α × Queue α :=
  match l.prev t with
  | some p => (l.setNext p (l.next t), q)
  | none => if q.head = some t then (l, { q with head := l.next t }) else (l, q)

/-- The half that repairs the side of the tail. -/
def unlinkNext (l : Links α) (q : Queue α) (t : α) : Links α × Queue α :=
  match l.next t with
  | some n => (l.setPrev n (l.prev t), q)
  | none => if q.tail = some t then (l, { q with tail := l.prev t }) else (l, q)

/-- Unlink a node. -/
def remove (l : Links α) (q : Queue α) (t : α) : Links α × Queue α :=
  let (l, q) := unlinkPrev l q t
  let (l, q) := unlinkNext l q t
  ((l.setNext t none).setPrev t none, { q with count := q.count - 1 })

/-- Unlink a node that the caller knows to be on the queue: its missing neighbours are the
ends. -/
def detach (l : Links α) (q : Queue α) (t : α) : Links α × Queue α :=
  let next := l.next t
  let prev := l.prev t
  let (l, q) := match prev with
    | some p => (l.setNext p next, q)
    | none => (l, { q with head := next })
  let (l, q) := match next with
    | some n => (l.setPrev n prev, q)
    | none => (l, { q with tail := prev })
  ((l.setNext t none).setPrev t none, { q with count := q.count - 1 })

/-- Follow the links from `n` on and keep the first node with the greatest key. -/
def scanBest (l : Links α) (key : α → Nat) : Nat → Option α → α → Option α
  | 0, _, _ => none
  | _ + 1, none, best => some best
  | fuel + 1, some n, best => scanBest l key fuel (l.next n) (if key best < key n then n else best)

/-- Unlink and return the first node with the greatest key; `none` when the links do not end
within `fuel` steps. -/
def popNext (l : Links α) (q : Queue α) (key : α → Nat) (fuel : Nat) :
    Option (Option α × Links α × Queue α) :=
  match q.head with
  | none => some (none, l, q)
  | some h => (scanBest l key fuel (l.next h) h).map fun best => (some best, remove l q best)

/-! ## The list a queue holds -/

/-- The queue holds the nodes of `L`, linked in this order. -/
structure IsList (l : Links α) (q : Queue α) (L : List α) : Prop where
  nodup : L.Nodup
  head : q.head = L.head?
  tail : q.tail = L.getLast?
  link : ∀ A x B, L = A ++ x :: B → l.next x = B.head? ∧ l.prev x = A.getLast?

omit [DecidableEq α] in
theorem isList_empty (l : Links α) : IsList l {} ([] : List α) := by
  constructor <;> simp

omit [DecidableEq α] in
theorem IsList.congr {l l' : Links α} {q q' : Queue α} {L : List α} (h : IsList l q L)
    (hhead : q'.head = q.head) (htail : q'.tail = q.tail)
    (hlinks : ∀ x ∈ L, l'.next x = l.next x ∧ l'.prev x = l.prev x) : IsList l' q' L := by
  refine ⟨h.nodup, hhead.trans h.head, htail.trans h.tail, ?_⟩
  intro A x B hL
  obtain ⟨hnext, hprev⟩ := hlinks x (by simp [hL])
  rw [hnext, hprev]
  exact h.link A x B hL

/-- A node that is found by following the links from `n` on. -/
inductive Reaches (l : Links α) : Option α → α → Prop where
  | here (x : α) : Reaches l (some x) x
  | next {x y : α} (h : Reaches l (l.next x) y) : Reaches l (some x) y

/-! ## Appending -/

variable {l : Links α} {q : Queue α} {L A B : List α}

theorem enqueue_links {t x : α} (hx : x ≠ t) (htail : q.tail ≠ some x) :
    (enqueue l q t).1.next x = l.next x ∧ (enqueue l q t).1.prev x = l.prev x := by
  unfold enqueue
  rcases hq : q.tail with _ | last
  · simp [hx]
  · have hlast : x ≠ last := by
      rintro rfl
      exact htail hq
    simp [hx, hlast]

theorem enqueue_count (l : Links α) (q : Queue α) (t : α) :
    (enqueue l q t).2.count = q.count + 1 := by
  unfold enqueue
  rcases q.tail with _ | last <;> rfl

omit [DecidableEq α] in
theorem concat_eq_split {L B C : List α} {t x : α} (h : L ++ [t] = B ++ x :: C) :
    (B = L ∧ x = t ∧ C = []) ∨ ∃ D, C = D ++ [t] ∧ L = B ++ x :: D := by
  rcases List.eq_nil_or_concat C with rfl | ⟨D, y, rfl⟩
  · obtain ⟨hL, ht⟩ := List.append_inj' h rfl
    exact .inl ⟨hL.symm, by simpa using ht.symm, rfl⟩
  · have h' : L ++ [t] = (B ++ x :: D) ++ [y] := by simpa using h
    obtain ⟨hL, ht⟩ := List.append_inj' h' rfl
    obtain rfl : t = y := by simpa using ht
    exact .inr ⟨D, by simp, hL⟩

omit [DecidableEq α] in
theorem getLast_split {B D : List α} {x : α} (h : (B ++ x :: D).Nodup) :
    (B ++ x :: D).getLast? = some x ↔ D = [] := by
  rcases List.eq_nil_or_concat D with rfl | ⟨D, y, rfl⟩
  · simp
  · constructor
    · intro hx
      obtain rfl : y = x := by
        rw [List.concat_eq_append, ← List.cons_append, ← List.append_assoc,
          List.getLast?_concat] at hx
        exact Option.some.inj hx
      simp [List.nodup_append] at h
    · intro hD
      simp at hD

theorem IsList.enqueue {t : α} (h : IsList l q L)
    (ht : t ∉ L) : IsList (Intrusive.enqueue l q t).1 (Intrusive.enqueue l q t).2 (L ++ [t]) := by
  have hnodup : (L ++ [t]).Nodup := List.Nodup.append h.nodup (by simp) (by simpa using ht)
  have htail := h.tail
  rcases hq : q.tail with _ | last
  · -- The first node of an empty queue.
    obtain rfl : L = [] := List.getLast?_eq_none_iff.1 (htail.symm.trans hq)
    unfold Intrusive.enqueue
    rw [hq]
    refine ⟨hnodup, rfl, rfl, ?_⟩
    intro A x B hL
    rcases concat_eq_split hL with ⟨rfl, rfl, rfl⟩ | ⟨D, -, hnil⟩
    · simp
    · simp at hnil
  · have hlast : last ∈ L := List.mem_of_getLast? (htail.symm.trans hq)
    have htl : t ≠ last := fun heq => ht (heq ▸ hlast)
    have hhead : q.head = (L ++ [t]).head? := by
      rw [h.head, List.head?_append_of_ne_nil _ (List.ne_nil_of_mem hlast)]
    unfold Intrusive.enqueue
    rw [hq]
    refine ⟨hnodup, hhead, by simp, ?_⟩
    intro B x C hL
    rcases concat_eq_split hL with ⟨rfl, rfl, rfl⟩ | ⟨D, rfl, rfl⟩
    · -- The new node: nothing behind it, the old tail before it.
      simp [htl, ← htail, hq]
    · -- A node that was there before: only the old tail has a new neighbour.
      obtain ⟨hnext, hprev⟩ := h.link B x D rfl
      have hxt : x ≠ t := by
        rintro rfl
        simp at ht
      have hend := getLast_split h.nodup
      rw [← htail, hq, Option.some.injEq] at hend
      rcases D with _ | ⟨d, D⟩
      · obtain rfl := hend.2 rfl
        simp [hxt, hprev]
      · have hne : x ≠ last := fun heq => by simpa using hend.1 heq.symm
        simp [hxt, hne, hprev, hnext]

/-! ## Putting in front -/

section
variable {l : Links α} {q : Queue α} {t : α}

theorem pushFront_next (x : α) :
    (pushFront l q t).1.next x = if x = t then q.head else l.next x := by
  unfold pushFront
  rcases q.head with _ | first <;> rfl

theorem pushFront_prev (h : q.head ≠ some t) (x : α) : (pushFront l q t).1.prev x =
      if x = t then none else if q.head = some x then some t else l.prev x := by
  unfold pushFront
  rcases hq : q.head with _ | first
  · rfl
  · have hne : t ≠ first := fun heq => h (heq ▸ hq)
    by_cases hx : x = first
    · simp [hx, hne.symm]
    · have hx' : some first ≠ some x := fun heq => hx (Option.some.inj heq).symm
      simp [hx, hx']

theorem pushFront_head : (pushFront l q t).2.head = some t := by
  unfold pushFront
  rcases q.head with _ | first <;> rfl

theorem pushFront_count : (pushFront l q t).2.count = q.count + 1 := by
  unfold pushFront
  rcases q.head with _ | first <;> rfl

end

theorem IsList.pushFront {t : α} (h : IsList l q L) (ht : t ∉ L) :
    IsList (Intrusive.pushFront l q t).1 (Intrusive.pushFront l q t).2 (t :: L) := by
  have hhead : q.head ≠ some t := fun heq => ht (List.mem_of_head? (h.head.symm.trans heq))
  constructor
  · exact List.nodup_cons.2 ⟨ht, h.nodup⟩
  · exact pushFront_head
  · -- The tail is the old one, unless the queue was empty.
    have htail := h.tail
    have hfirst := h.head
    unfold Intrusive.pushFront
    rcases L with _ | ⟨first, L⟩
    · rw [hfirst]
      rfl
    · rw [hfirst, htail]
      rfl
  · intro A x B hL
    rw [pushFront_next, pushFront_prev hhead, h.head]
    rcases A with _ | ⟨a, A⟩
    · -- The new node.
      obtain ⟨rfl, rfl⟩ := List.cons.inj hL
      simp
    · obtain ⟨rfl, rfl⟩ := List.cons.inj hL
      obtain ⟨hnext, hprev⟩ := h.link A x B rfl
      have hxt : x ≠ t := by
        rintro rfl
        simp at ht
      rw [if_neg hxt, if_neg hxt, hnext, hprev]
      rcases A with _ | ⟨b, A⟩
      · simp
      · have hbx : b ≠ x := by
          rintro rfl
          simpa using (List.nodup_cons.1 h.nodup).1
        simp [hbx]

/-! ## Unlinking -/

section
variable {l : Links α} {q : Queue α} {t : α}

/-- What unlinking `t` leaves of the links and of the ends of the queue. -/
theorem remove_spec (h : l.prev t ≠ some t) :
    (∀ x, (remove l q t).1.next x =
      if x = t then none else if l.prev t = some x then l.next t else l.next x) ∧
    (∀ x, (remove l q t).1.prev x =
      if x = t then none else if l.next t = some x then l.prev t else l.prev x) ∧
    (remove l q t).2.head = (if l.prev t = none ∧ q.head = some t then l.next t else q.head) ∧
    (remove l q t).2.tail = if l.next t = none ∧ q.tail = some t then l.prev t else q.tail := by
  unfold remove unlinkPrev unlinkNext
  rcases hp : l.prev t with _ | p
  · by_cases hhead : q.head = some t <;> rcases hn : l.next t with _ | n <;>
      by_cases htail : q.tail = some t <;> simp [hhead, hn, htail, hp, eq_comm]
  · have htp : t ≠ p := fun heq => h (heq ▸ hp)
    rcases hn : l.next t with _ | n <;> by_cases htail : q.tail = some t <;>
      simp [hn, htail, hp, eq_comm]

theorem remove_count : (remove l q t).2.count = q.count - 1 := by
  have hprev : (unlinkPrev l q t).2.count = q.count := by
    unfold unlinkPrev
    rcases l.prev t with _ | p
    · dsimp only
      split <;> rfl
    · rfl
  have hnext : ∀ (l : Links α) (q : Queue α), (unlinkNext l q t).2.count = q.count := by
    intro l q
    unfold unlinkNext
    rcases l.next t with _ | n
    · dsimp only
      split <;> rfl
    · rfl
  show (unlinkNext (unlinkPrev l q t).1 (unlinkPrev l q t).2 t).2.count - 1 = q.count - 1
  rw [hnext, hprev]

end

omit [DecidableEq α] in
theorem IsList.neighbours {l : Links α} {q : Queue α} {A B : List α} {t : α}
    (h : IsList l q (A ++ t :: B)) :
    l.next t = B.head? ∧ l.prev t = A.getLast? ∧ l.prev t ≠ some t := by
  obtain ⟨hnext, hprev⟩ := h.link A t B rfl
  refine ⟨hnext, hprev, ?_⟩
  rw [hprev]
  intro hlast
  have hnd := List.nodup_append.1 h.nodup
  exact hnd.2.2 t (List.mem_of_getLast? hlast) t (by simp) rfl

omit [DecidableEq α] in
theorem append_eq_split {A B C D : List α} {x : α} (h : A ++ B = C ++ x :: D) :
    (∃ A', A = C ++ x :: A' ∧ D = A' ++ B) ∨ ∃ B', B = B' ++ x :: D ∧ C = A ++ B' := by
  rcases List.append_eq_append_iff.1 h with ⟨C', rfl, rfl⟩ | ⟨A', rfl, hB⟩
  · exact .inr ⟨C', rfl, rfl⟩
  · rcases A' with _ | ⟨a, A'⟩
    · exact .inr ⟨[], by simpa using hB.symm, by simp⟩
    · obtain ⟨rfl, rfl⟩ := List.cons.inj hB
      exact .inl ⟨A', rfl, rfl⟩

/-- Both neighbours of `t` change, or the ends of the list where it has none. -/
theorem IsList.remove {t : α} (h : IsList l q (A ++ t :: B)) :
    IsList (Intrusive.remove l q t).1 (Intrusive.remove l q t).2 (A ++ B) := by
  obtain ⟨hnext, hprev, hself⟩ := h.neighbours
  have hnd := List.nodup_append.1 h.nodup
  have hapart : ∀ x, x ∈ A → x ∈ B → False := fun x hA hB => hnd.2.2 x hA x (by simp [hB]) rfl
  constructor
  · exact h.nodup.sublist (by simp)
  · rw [(remove_spec hself).2.2.1, hnext, hprev, h.head]
    rcases A with _ | ⟨a, A⟩ <;> simp
  · rw [(remove_spec hself).2.2.2, hnext, hprev, h.tail]
    rcases List.eq_nil_or_concat B with rfl | ⟨B, b, rfl⟩
    · simp
    · rcases B with _ | ⟨c, B⟩ <;> simp
  · intro C x D hL
    rw [(remove_spec hself).1, (remove_spec hself).2.1, hnext, hprev]
    rcases append_eq_split hL with ⟨A', hA, rfl⟩ | ⟨B', hB, rfl⟩
    · -- A node before `t`; its next link changes when it was the last one before.
      have hxA : x ∈ A := by simp [hA]
      have hxt : x ≠ t := fun heq => hnd.2.2 x hxA t (by simp) heq
      have hxB : B.head? ≠ some x := fun hb => hapart x hxA (List.mem_of_head? hb)
      obtain ⟨hn, hp⟩ := h.link C x (A' ++ t :: B) (by simp [hA])
      have hlast := getLast_split (hA ▸ hnd.1)
      rw [← hA] at hlast
      rw [if_neg hxt, if_neg hxt, if_neg hxB]
      refine ⟨?_, hp⟩
      rcases A' with _ | ⟨a, A'⟩
      · rw [if_pos (hlast.2 rfl)]
        rfl
      · rw [if_neg fun hx => by simpa using hlast.1 hx, hn]
        rfl
    · -- A node behind `t`; its previous link changes when it was the first one behind.
      have hxB : x ∈ B := by simp [hB]
      have hxt : x ≠ t := by
        rintro rfl
        exact (List.nodup_cons.1 hnd.2.1).1 hxB
      have hxA : A.getLast? ≠ some x := fun ha => hapart x (List.mem_of_getLast? ha) hxB
      obtain ⟨hn, hp⟩ := h.link (A ++ t :: B') x D (by simp [hB])
      rw [if_neg hxt, if_neg hxt, if_neg hxA]
      refine ⟨hn, ?_⟩
      rcases List.eq_nil_or_concat B' with rfl | ⟨B', b, rfl⟩
      · rw [if_pos (by simp [hB])]
        simp
      · have hfirst : B.head? ≠ some x := by
          intro hb
          rw [hB, List.head?_append_of_ne_nil _ (by simp)] at hb
          have hd := (List.nodup_cons.1 hnd.2.1).2
          rw [hB, List.nodup_append] at hd
          exact hd.2.2 x (List.mem_of_head? hb) x (by simp) rfl
        have hsnoc : A ++ t :: B'.concat b = (A ++ t :: B') ++ [b] := by simp
        rw [if_neg hfirst, hp, hsnoc, List.getLast?_concat]
        simp

theorem IsList.detach_eq {t : α} (h : IsList l q L)
    (ht : t ∈ L) : detach l q t = Intrusive.remove l q t := by
  obtain ⟨A, B, rfl⟩ := List.append_of_mem ht
  obtain ⟨hnext, hprev, hself⟩ := h.neighbours
  have hhead : l.prev t = none → q.head = some t := by
    intro hp
    have hA : A = [] := List.getLast?_eq_none_iff.1 (hprev.symm.trans hp)
    rw [h.head, hA]
    rfl
  have htail : l.next t = none → q.tail = some t := by
    intro hn
    have hB : B = [] := List.head?_eq_none_iff.1 (hnext.symm.trans hn)
    rw [h.tail, hB]
    simp
  unfold detach Intrusive.remove unlinkPrev unlinkNext
  rcases hp : l.prev t with _ | p
  · rcases hn : l.next t with _ | n
    · simp [hhead hp, htail hn, hn, hp]
    · simp [hhead hp, hn, hp]
  · have htp : t ≠ p := fun heq => hself (heq ▸ hp)
    rcases hn : l.next t with _ | n
    · simp [htail hn, hn, hp]
    · simp [hn, hp]

/-! ## Putting in front of a node -/

section
variable {l : Links α} {q : Queue α} {b t : α}

theorem insertBefore_next (x : α) (h : l.prev b ≠ some t) : (insertBefore l q b t).1.next x =
      if x = t then some b else if l.prev b = some x then some t else l.next x := by
  unfold insertBefore
  rcases hp : l.prev b with _ | a
  · simp
  · have hta : t ≠ a := fun heq => h (heq ▸ hp)
    by_cases hx : x = a
    · simp [hx, hta.symm]
    · have hx' : a ≠ x := fun heq => hx heq.symm
      simp [hx, hx']

theorem insertBefore_prev (x : α) : (insertBefore l q b t).1.prev x =
      if x = b then some t else if x = t then l.prev b else l.prev x := by
  unfold insertBefore
  rcases l.prev b with _ | a <;> rfl

theorem insertBefore_head :
    (insertBefore l q b t).2.head = if l.prev b = none then some t else q.head := by
  unfold insertBefore
  rcases l.prev b with _ | a <;> rfl

theorem insertBefore_tail : (insertBefore l q b t).2.tail = q.tail := by
  unfold insertBefore
  rcases l.prev b with _ | a <;> rfl

end

theorem IsList.insertBefore {b t : α} (h : IsList l q (A ++ b :: B)) (ht : t ∉ A ++ b :: B) :
    IsList (Intrusive.insertBefore l q b t).1 (Intrusive.insertBefore l q b t).2
      (A ++ t :: b :: B) := by
  obtain ⟨-, hprev, hself⟩ := h.neighbours
  have hnd := List.nodup_append.1 h.nodup
  have hbt : b ≠ t := fun heq => ht (by simp [heq])
  have hAt : ∀ x ∈ A, x ≠ t := fun x hx heq => ht (by simp [← heq, hx])
  have hBt : ∀ x ∈ B, x ≠ t := fun x hx heq => ht (by simp [← heq, hx])
  have hat : l.prev b ≠ some t := by
    rw [hprev]
    exact fun hlast => hAt t (List.mem_of_getLast? hlast) rfl
  constructor
  · rw [List.nodup_middle]
    exact List.nodup_cons.2 ⟨ht, h.nodup⟩
  · rw [insertBefore_head, hprev, h.head]
    rcases A with _ | ⟨a, A⟩
    · rfl
    · rfl
  · rw [insertBefore_tail, h.tail]
    simp
  · intro C x D hL
    rw [insertBefore_next x hat, insertBefore_prev, hprev]
    rcases append_eq_split hL with ⟨A', hA, rfl⟩ | ⟨B', hB, rfl⟩
    · -- A node in front; its next link changes when it was the last one in front.
      have hxA : x ∈ A := by simp [hA]
      have hxb : x ≠ b := fun heq => hnd.2.2 x hxA b (by simp) heq
      obtain ⟨hn, hp⟩ := h.link C x (A' ++ b :: B) (by simp [hA])
      have hlast := getLast_split (hA ▸ hnd.1)
      rw [← hA] at hlast
      rw [if_neg (hAt x hxA), if_neg hxb, if_neg (hAt x hxA)]
      refine ⟨?_, hp⟩
      rcases A' with _ | ⟨a, A'⟩
      · rw [if_pos (hlast.2 rfl)]
        rfl
      · rw [if_neg fun hx => by simpa using hlast.1 hx, hn]
        rfl
    · rcases B' with _ | ⟨t', B'⟩
      · -- The new node.
        obtain ⟨rfl, rfl⟩ := List.cons.inj hB
        rw [if_neg hbt.symm]
        simp
      · obtain ⟨rfl, hB₁⟩ := List.cons.inj hB
        rcases B' with _ | ⟨b', B'⟩
        · -- The node behind it.
          obtain ⟨rfl, rfl⟩ := List.cons.inj hB₁
          obtain ⟨hn, -⟩ := h.link A b B rfl
          have hlast : A.getLast? ≠ some b := fun hl => hself (hprev.trans hl)
          rw [if_neg hbt, if_neg hlast, hn]
          simp
        · obtain ⟨rfl, rfl⟩ := List.cons.inj hB₁
          obtain ⟨hn, hp⟩ := h.link (A ++ b :: B') x D (by simp)
          have hxt : x ≠ t := hBt x (by simp)
          have hxb : x ≠ b := by
            rintro rfl
            exact (List.nodup_cons.1 hnd.2.1).1 (by simp)
          have hlast : A.getLast? ≠ some x :=
            fun hl => hnd.2.2 x (List.mem_of_getLast? hl) x (by simp) rfl
          rw [if_neg hxt, if_neg hlast, if_neg hxb, if_neg hxt, hn, hp]
          rcases List.eq_nil_or_concat B' with rfl | ⟨B', c, rfl⟩
          · simp
          · simp [List.getLast?_append]

/-! ## Lists without a tail -/

/-- The links from `top` on run through the nodes of `L`. -/
structure Threaded (l : Links α) (top : Option α) (L : List α) : Prop where
  nodup : L.Nodup
  head : top = L.head?
  link : ∀ A x B, L = A ++ x :: B → l.next x = B.head? ∧ l.prev x = A.getLast?

omit [DecidableEq α] in
theorem IsList.threaded {l : Links α} {q : Queue α} {L : List α} (h : IsList l q L) :
    Threaded l q.head L := ⟨h.nodup, h.head, h.link⟩

section
variable {l : Links α} {top : Option α} {L A B : List α} {t b : α}

omit [DecidableEq α] in
theorem Threaded.isList (h : Threaded l top L) : IsList l { head := top, tail := L.getLast? } L :=
  ⟨h.nodup, h.head, rfl, h.link⟩

theorem Threaded.remove (h : Threaded l top (A ++ t :: B)) :
    Threaded (Intrusive.remove l { head := top } t).1 (Intrusive.remove l { head := top } t).2.head
      (A ++ B) := by
  have hlist := h.isList.remove
  obtain ⟨-, -, hself⟩ := h.isList.neighbours
  have hlinks : (Intrusive.remove l { head := top } t).1 = (Intrusive.remove l
      { head := top, tail := (A ++ t :: B).getLast? } t).1 := by
    ext x
    · rw [(remove_spec hself).1, (remove_spec hself).1]
    · rw [(remove_spec hself).2.1, (remove_spec hself).2.1]
  have hhead : (Intrusive.remove l { head := top } t).2.head = (Intrusive.remove l
      { head := top, tail := (A ++ t :: B).getLast? } t).2.head := by
    rw [(remove_spec hself).2.2.1, (remove_spec hself).2.2.1]
  rw [hlinks, hhead]
  exact hlist.threaded

theorem Threaded.pushFront (h : Threaded l top L) (ht : t ∉ L) :
    Threaded (Intrusive.pushFront l { head := top } t).1
      (Intrusive.pushFront l { head := top } t).2.head (t :: L) := by
  have hlist := h.isList.pushFront ht
  have hne : top ≠ some t := fun heq => ht (List.mem_of_head? (h.head.symm.trans heq))
  have hlinks : (Intrusive.pushFront l { head := top } t).1 =
      (Intrusive.pushFront l { head := top, tail := L.getLast? } t).1 := by
    ext x
    · rw [pushFront_next, pushFront_next]
    · rw [pushFront_prev hne, pushFront_prev hne]
  rw [hlinks, pushFront_head, ← pushFront_head (l := l) (q := { head := top, tail := L.getLast? })]
  exact hlist.threaded

theorem Threaded.insertBefore (h : Threaded l top (A ++ b :: B)) (ht : t ∉ A ++ b :: B) :
    Threaded (Intrusive.insertBefore l { head := top } b t).1
      (Intrusive.insertBefore l { head := top } b t).2.head (A ++ t :: b :: B) := by
  have hlist := h.isList.insertBefore ht
  obtain ⟨-, hprev, -⟩ := h.isList.neighbours
  have hne : l.prev b ≠ some t := by
    rw [hprev]
    exact fun hlast => ht (by simp [List.mem_of_getLast? hlast])
  have hlinks : (Intrusive.insertBefore l { head := top } b t).1 = (Intrusive.insertBefore l
      { head := top, tail := (A ++ b :: B).getLast? } b t).1 := by
    ext x
    · rw [insertBefore_next x hne, insertBefore_next x hne]
    · rw [insertBefore_prev, insertBefore_prev]
  have hhead : (Intrusive.insertBefore l { head := top } b t).2.head = (Intrusive.insertBefore l
      { head := top, tail := (A ++ b :: B).getLast? } b t).2.head := by
    rw [insertBefore_head, insertBefore_head]
  rw [hlinks, hhead]
  exact hlist.threaded

end

theorem setLinks_none {t : α} (hnext : l.next t = none) (hprev : l.prev t = none) :
    (l.setNext t none).setPrev t none = l := by
  have hn : (fun y => if y = t then none else l.next y) = l.next := by
    funext y
    by_cases hy : y = t <;> simp [hy, hnext]
  have hp : (fun y => if y = t then none else l.prev y) = l.prev := by
    funext y
    by_cases hy : y = t <;> simp [hy, hprev]
  unfold Links.setNext Links.setPrev
  simp only [hn, hp]

/-- Unlinking a node that is on no queue only moves the counter. -/
theorem remove_unlinked {t : α} (hnext : l.next t = none)
    (hprev : l.prev t = none) (hhead : q.head ≠ some t) (htail : q.tail ≠ some t) :
    remove l q t = (l, { q with count := q.count - 1 }) := by
  unfold remove unlinkPrev unlinkNext
  rw [hprev]
  simp only [hhead, if_false, hnext, htail]
  rw [setLinks_none hnext hprev]

theorem remove_alone {t : α} (hnext : l.next t = none) (hprev : l.prev t = none) :
    remove l { head := some t, tail := some t, count := 1 } t = (l, {}) := by
  unfold remove unlinkPrev unlinkNext
  simp only [hprev, hnext, if_true]
  rw [setLinks_none hnext hprev]

/-! ## Picking -/

omit [DecidableEq α] in
/-- The scan ends with the first node of greatest key, given enough fuel.  `A` are the nodes
that `best` has beaten so far, in front of it and behind it. -/
theorem scanBest_spec {key : α → Nat} {fuel : Nat} {n : Option α} {best : α}
    {M : List α} (hfuel : B.length < fuel) (hn : n = B.head?)
    (hlink : ∀ C x D, B = C ++ x :: D → l.next x = D.head?)
    (hA : ∀ x ∈ A, key x < key best) (hM : ∀ x ∈ M, key x ≤ key best) :
    ∃ A' best' B', scanBest l key fuel n best = some best' ∧
      A ++ best :: (M ++ B) = A' ++ best' :: B' ∧
      (∀ x ∈ A', key x < key best') ∧ ∀ x ∈ B', key x ≤ key best' := by
  induction B generalizing fuel n best A M with
  | nil =>
    obtain ⟨fuel, rfl⟩ : ∃ k, fuel = k + 1 := ⟨fuel - 1, by simp at hfuel; omega⟩
    rw [hn]
    exact ⟨A, best, M, rfl, by simp, hA, hM⟩
  | cons b B ih =>
    obtain ⟨fuel, rfl⟩ : ∃ k, fuel = k + 1 := ⟨fuel - 1, by simp at hfuel; omega⟩
    rw [hn]
    have hnext : l.next b = B.head? := hlink [] b B rfl
    have hrest : ∀ C x D, B = C ++ x :: D → l.next x = D.head? :=
      fun C x D hB => hlink (b :: C) x D (by simp [hB])
    have hlen : B.length < fuel := by simpa using hfuel
    show ∃ A' best' B', scanBest l key fuel (l.next b) (if key best < key b then b else best) =
      some best' ∧ _
    by_cases hlt : key best < key b
    · -- A better node: everything before it is now in front.
      rw [if_pos hlt]
      obtain ⟨A', best', B', hscan, hsplit, hbest⟩ := ih (A := A ++ best :: M) (M := []) hlen hnext
        hrest (by
          intro x hx
          rcases List.mem_append.1 hx with hx | hx
          · exact Nat.lt_trans (hA x hx) hlt
          · rcases List.mem_cons.1 hx with rfl | hx
            · exact hlt
            · exact Nat.lt_of_le_of_lt (hM x hx) hlt) (by simp)
      exact ⟨A', best', B', hscan, by rw [← hsplit]; simp, hbest⟩
    · rw [if_neg hlt]
      obtain ⟨A', best', B', hscan, hsplit, hbest⟩ := ih (A := A) (M := M ++ [b]) hlen hnext hrest
        hA (by
          intro x hx
          rcases List.mem_append.1 hx with hx | hx
          · exact hM x hx
          · rw [List.mem_singleton.1 hx]
            exact Nat.le_of_not_lt hlt)
      exact ⟨A', best', B', hscan, by rw [← hsplit]; simp, hbest⟩

theorem popNext_nil (h : IsList l q []) (key : α → Nat) (fuel : Nat) :
    popNext l q key fuel = some (none, l, q) := by
  unfold popNext
  rw [h.head]
  rfl

theorem popNext_spec (h : IsList l q L) (hL : L ≠ [])
    (key : α → Nat) {fuel : Nat} (hfuel : L.length ≤ fuel) : ∃ A best B, L = A ++ best :: B ∧
      popNext l q key fuel = some (some best, remove l q best) ∧
      (∀ x ∈ A, key x < key best) ∧ ∀ x ∈ B, key x ≤ key best := by
  obtain ⟨first, rest, rfl⟩ := List.exists_cons_of_ne_nil hL
  obtain ⟨A, best, B, hscan, hsplit, hbest⟩ : ∃ A best B,
      scanBest l key fuel (l.next first) first = some best ∧
      [] ++ first :: ([] ++ rest) = A ++ best :: B ∧
      (∀ x ∈ A, key x < key best) ∧ ∀ x ∈ B, key x ≤ key best :=
    scanBest_spec (Nat.lt_of_succ_le hfuel) (h.link [] first rest rfl).1
      (fun C x D hrest => (h.link (first :: C) x D (by simp [hrest])).1) (by simp) (by simp)
  refine ⟨A, best, B, by simpa using hsplit, ?_, hbest⟩
  unfold popNext
  rw [h.head]
  simp [hscan]

/-! ## A family of queues over one table of links -/

section Family
variable {ι : Type} [DecidableEq ι] {l : Links α} {r : ι → Queue α} {Q : ι → List α}

/-- The queue `r i` holds the nodes of `Q i`, no node is on two queues, and the counters are
right. -/
structure IsFamily (l : Links α) (r : ι → Queue α) (Q : ι → List α) : Prop where
  isList : ∀ i, IsList l (r i) (Q i)
  count : ∀ i, (r i).count = (Q i).length
  disjoint : ∀ i j t, t ∈ Q i → t ∈ Q j → i = j

omit [DecidableEq α] [DecidableEq ι] in
theorem isFamily_empty (h : ∀ i, r i = {}) : IsFamily l r (fun _ => []) := by
  refine ⟨fun i => ?_, fun i => ?_, by simp⟩
  · rw [h i]
    exact isList_empty l
  · rw [h i]
    rfl

omit [DecidableEq α] in
/-- One queue gains the node `t`; the links of the nodes on the others stay as they are. -/
theorem IsFamily.gain (h : IsFamily l r Q) (i : ι) {t : α} (ht : ∀ j, t ∉ Q j) {l' : Links α}
    {q' : Queue α} {L : List α} (hlist : IsList l' q' L) (hcount : q'.count = L.length)
    (hL : ∀ x ∈ L, x ∈ Q i ∨ x = t)
    (hlinks : ∀ x j, j ≠ i → x ∈ Q j → l'.next x = l.next x ∧ l'.prev x = l.prev x) :
    IsFamily l' (update r i q') (update Q i L) := by
  constructor
  · intro j
    by_cases hj : j = i
    · subst hj
      simpa using hlist
    · rw [update_of_ne hj, update_of_ne hj]
      exact (h.isList j).congr rfl rfl fun x hx => hlinks x j hj hx
  · intro j
    by_cases hj : j = i
    · subst hj
      simpa using hcount
    · rw [update_of_ne hj, update_of_ne hj, h.count]
  · have hmem : ∀ j x, x ∈ update Q i L j → x ∈ Q j ∨ (x = t ∧ j = i) := by
      intro j x hx
      by_cases hj : j = i
      · subst hj
        exact (hL x (by simpa using hx)).imp_right fun h => ⟨h, rfl⟩
      · rw [update_of_ne hj] at hx
        exact .inl hx
    intro j k x hxj hxk
    rcases hmem j x hxj with h₁ | ⟨rfl, rfl⟩ <;> rcases hmem k x hxk with h₂ | ⟨h₂, h₃⟩
    · exact h.disjoint j k x h₁ h₂
    · exact absurd h₁ (h₂ ▸ ht j)
    · exact absurd h₂ (ht k)
    · exact h₃.symm

theorem IsFamily.enqueue (h : IsFamily l r Q) (i : ι) {t : α} (ht : ∀ j, t ∉ Q j) :
    IsFamily (Intrusive.enqueue l (r i) t).1 (update r i (Intrusive.enqueue l (r i) t).2)
      (update Q i (Q i ++ [t])) := by
  refine h.gain i ht ((h.isList i).enqueue (ht i)) (by simp [enqueue_count, h.count]) (by simp)
    fun x j hj hx => enqueue_links ?_ ?_
  · rintro rfl
    exact ht j hx
  · -- The tail of this queue is not on another one.
    intro htail
    rw [(h.isList i).tail] at htail
    exact hj (h.disjoint j i x hx (List.mem_of_getLast? htail))

theorem IsFamily.pushFront (h : IsFamily l r Q) (i : ι) {t : α} (ht : ∀ j, t ∉ Q j) :
    IsFamily (Intrusive.pushFront l (r i) t).1
      (update r i (Intrusive.pushFront l (r i) t).2) (update Q i (t :: Q i)) := by
  have hhead : ∀ x, (r i).head = some x → x ∈ Q i := fun x heq =>
    List.mem_of_head? ((h.isList i).head.symm.trans heq)
  refine h.gain i ht ((h.isList i).pushFront (ht i)) (by simp [pushFront_count, h.count])
    (by simp [or_comm]) fun x j hj hx => ?_
  have hxt : x ≠ t := fun heq => ht j (heq ▸ hx)
  have hxi : (r i).head ≠ some x := fun heq => hj (h.disjoint j i x hx (hhead x heq))
  rw [pushFront_next, pushFront_prev fun heq => ht i (hhead t heq), if_neg hxt, if_neg hxt,
    if_neg hxi]
  exact ⟨rfl, rfl⟩

theorem IsFamily.remove (h : IsFamily l r Q) {i : ι} {A B : List α} {t : α}
    (hQ : Q i = A ++ t :: B) : IsFamily (Intrusive.remove l (r i) t).1
      (update r i (Intrusive.remove l (r i) t).2) (update Q i (A ++ B)) := by
  have hi := h.isList i
  rw [hQ] at hi
  obtain ⟨hnext, hprev, hself⟩ := hi.neighbours
  constructor
  · intro j
    by_cases hj : j = i
    · subst hj
      simpa using hi.remove
    · -- Another queue: neither `t` nor its neighbours are on it.
      rw [update_of_ne hj, update_of_ne hj]
      refine (h.isList j).congr rfl rfl fun x hx => ?_
      have hout : x ∉ Q i := fun hxi => hj (h.disjoint j i x hx hxi)
      rw [hQ] at hout
      have hxt : x ≠ t := fun heq => hout (by simp [heq])
      have hxA : A.getLast? ≠ some x := fun hA =>
        hout (List.mem_append_left _ (List.mem_of_getLast? hA))
      have hxB : B.head? ≠ some x := fun hB =>
        hout (List.mem_append_right _ (.tail _ (List.mem_of_head? hB)))
      rw [(remove_spec hself).1, (remove_spec hself).2.1, hnext, hprev]
      simp [hxt, hxA, hxB]
  · intro j
    by_cases hj : j = i
    · subst hj
      simp [remove_count, h.count, hQ]
    · rw [update_of_ne hj, update_of_ne hj, h.count]
  · have hmem : ∀ j x, x ∈ update Q i (A ++ B) j → x ∈ Q j := by
      intro j x hx
      by_cases hj : j = i
      · subst hj
        rw [update_self] at hx
        rw [hQ]
        rcases List.mem_append.1 hx with hx | hx <;> simp [hx]
      · rwa [update_of_ne hj] at hx
    intro j k x hxj hxk
    exact h.disjoint j k x (hmem j x hxj) (hmem k x hxk)

end Family

end UnDOS.Lib.Intrusive
