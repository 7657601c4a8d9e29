import Mathlib.Data.List.Basic

/-!
# Ring Buffers

A ring of `cap` slots with a head, a tail and a count, and what it stands for: the list of
its contents, oldest first.

- `push` puts a value at the tail unless the ring is full, `pop` takes one from the head.
- `write` and `read` are the loops over many values.  A
  write keeps what fits, a read takes what is there.
-/

namespace UnDOS.Lib

/-- A ring of `cap` slots.  The head is a slot, and the tail is `count` steps on. -/
structure Ring (T : Type) (cap : Nat) where
  data : Nat → T
  head : Nat
  tail : Nat
  count : Nat
  head_eq : head % cap = head
  tail_eq : tail = (head + count) % cap
  count_le : count ≤ cap

namespace Ring

variable {T : Type} {cap : Nat}

/-- The values in the ring, oldest first. -/
def contents (r : Ring T cap) : List T :=
  (List.range r.count).map fun i => r.data ((r.head + i) % cap)

/-- An empty ring. -/
def empty (data : Nat → T) : Ring T cap where
  data := data
  head := 0
  tail := 0
  count := 0
  head_eq := Nat.zero_mod cap
  tail_eq := (Nat.zero_mod cap).symm
  count_le := Nat.zero_le cap

/-- Put a value at the tail. -/
def push (r : Ring T cap) (x : T) : Ring T cap :=
  if h : r.count < cap then
    { data := Function.update r.data r.tail x
      head := r.head
      tail := (r.tail + 1) % cap
      count := r.count + 1
      head_eq := r.head_eq
      tail_eq := by
        rw [r.tail_eq, Nat.mod_add_mod, Nat.add_assoc]
      count_le := h }
  else r

/-- Take the value at the head. -/
def pop (r : Ring T cap) : Option (T × Ring T cap) :=
  if h : 0 < r.count then
    some (r.data r.head,
      { data := r.data
        head := (r.head + 1) % cap
        tail := r.tail
        count := r.count - 1
        head_eq := Nat.mod_mod _ _
        tail_eq := by
          rw [r.tail_eq, Nat.mod_add_mod]
          congr 1
          omega
        count_le := Nat.le_trans (Nat.sub_le _ _) r.count_le })
  else none

/-- The slot of the youngest value. -/
def newestSlot (r : Ring T cap) : Nat := (r.tail + (cap - 1)) % cap

/-- Change the youngest value. -/
def modifyNewest (r : Ring T cap) (f : T → T) : Ring T cap :=
  { r with data := Function.update r.data r.newestSlot (f (r.data r.newestSlot)) }

/-- Put many values, as far as there is room: the ring and how many were put. -/
def write (r : Ring T cap) : List T → Ring T cap × Nat
  | [] => (r, 0)
  | x :: xs =>
    if r.count < cap then
      let (r', n) := (r.push x).write xs
      (r', n + 1)
    else (r, 0)

/-- Take at most `n` values. -/
def read (r : Ring T cap) : Nat → List T × Ring T cap
  | 0 => ([], r)
  | n + 1 =>
    match r.pop with
    | none => ([], r)
    | some (x, r') =>
      let (xs, r'') := r'.read n
      (x :: xs, r'')

/-! ## Contents -/

@[simp] theorem contents_length (r : Ring T cap) : r.contents.length = r.count := by
  simp [contents]

theorem slot_ne {head i j : Nat} (hij : i < j) (hj : j < cap) :
    (head + i) % cap ≠ (head + j) % cap := by
  intro h
  have hsub : (j - i) % cap = 0 := by
    rw [show j - i = (head + j) - (head + i) by omega]
    exact Nat.sub_mod_eq_zero_of_mod_eq h.symm
  rw [Nat.mod_eq_of_lt (by omega)] at hsub
  omega

variable {r : Ring T cap}

theorem contents_push (h : r.count < cap) (x : T) : (r.push x).contents = r.contents ++ [x] := by
  unfold push
  rw [dif_pos h]
  unfold contents
  rw [List.range_succ, List.map_append, List.map_singleton]
  congr 1
  · apply List.map_congr_left
    intro i hi
    rw [List.mem_range] at hi
    dsimp only
    rw [Function.update_of_ne]
    rw [r.tail_eq]
    exact slot_ne hi h
  · dsimp only
    rw [← r.tail_eq, Function.update_self]

theorem pop_contents {r' : Ring T cap} {x : T} (h : r.pop = some (x, r')) :
    r.contents = x :: r'.contents := by
  unfold pop at h
  split at h
  · rename_i hpos
    cases h
    unfold contents
    obtain ⟨n, hn⟩ : ∃ n, r.count = n + 1 := ⟨r.count - 1, by omega⟩
    simp only [hn, List.range_succ_eq_map, List.map_cons, List.map_map, Nat.add_zero,
      Nat.add_sub_cancel, r.head_eq]
    congr 1
    apply List.map_congr_left
    intro i _
    simp only [Function.comp_apply, Nat.mod_add_mod]
    congr 2
    omega
  · cases h

theorem pop_none (h : r.pop = none) : r.contents = [] := by
  unfold pop at h
  split at h
  · cases h
  · rename_i hpos
    rw [← List.length_eq_zero_iff, contents_length]
    omega

theorem contents_head (h : 0 < r.count) : ∃ rest, r.contents = r.data r.head :: rest := by
  obtain ⟨n, hn⟩ : ∃ n, r.count = n + 1 := ⟨r.count - 1, by omega⟩
  unfold contents
  rw [hn, List.range_succ_eq_map, List.map_cons, Nat.add_zero, r.head_eq]
  exact ⟨_, rfl⟩

theorem newestSlot_eq {n : Nat} (h : r.count = n + 1) : r.newestSlot = (r.head + n) % cap := by
  have hle := r.count_le
  unfold newestSlot
  rw [r.tail_eq, Nat.mod_add_mod, h, show r.head + (n + 1) + (cap - 1) = r.head + n + cap by omega,
    Nat.add_mod_right]

theorem contents_newest (h : 0 < r.count) :
    ∃ older, r.contents = older ++ [r.data r.newestSlot] := by
  obtain ⟨n, hn⟩ : ∃ n, r.count = n + 1 := ⟨r.count - 1, by omega⟩
  unfold contents
  rw [newestSlot_eq hn, hn, List.range_succ, List.map_append]
  exact ⟨_, rfl⟩

theorem contents_modifyNewest {f : T → T} {older : List T} {x : T}
    (h : r.contents = older ++ [x]) : (r.modifyNewest f).contents = older ++ [f x] := by
  have hlength : r.count = older.length + 1 := by
    rw [← contents_length, h, List.length_append]
    rfl
  have hslot := newestSlot_eq hlength
  have hle := r.count_le
  unfold contents at h ⊢
  rw [hlength, List.range_succ, List.map_append, List.map_singleton] at h
  obtain ⟨holder, hnewest⟩ := List.append_inj' h rfl
  rw [show (r.modifyNewest f).count = older.length + 1 from hlength, List.range_succ,
    List.map_append, List.map_singleton]
  unfold modifyNewest
  dsimp only
  congr 1
  · -- The other slots keep their values.
    refine (List.map_congr_left fun i hi => ?_).trans holder
    rw [List.mem_range] at hi
    rw [Function.update_of_ne]
    rw [hslot]
    exact slot_ne hi (by omega)
  · rw [hslot, Function.update_self, List.singleton_inj.mp hnewest]

/-- A write keeps what fits. -/
theorem contents_write (r : Ring T cap) (xs : List T) :
    (r.write xs).1.contents = (r.contents ++ xs).take cap := by
  induction xs generalizing r with
  | nil =>
    have hle : r.contents.length ≤ cap := by
      rw [contents_length]
      exact r.count_le
    simp [write, List.take_of_length_le hle]
  | cons x xs ih =>
    unfold write
    by_cases hroom : r.count < cap
    · rw [if_pos hroom]
      rw [ih, contents_push hroom, List.append_assoc]
      rfl
    · -- The ring is full: its contents are the first `cap` values already.
      have hfull : r.contents.length = cap := by
        rw [contents_length]
        have := r.count_le
        omega
      rw [if_neg hroom, List.take_left' hfull]

/-- A read takes the oldest values. -/
theorem read_spec (r : Ring T cap) (n : Nat) :
    (r.read n).1 = r.contents.take n ∧ (r.read n).2.contents = r.contents.drop n := by
  induction n generalizing r with
  | zero => exact ⟨rfl, rfl⟩
  | succ n ih =>
    unfold read
    rcases hpop : r.pop with _ | ⟨x, r'⟩
    · rw [pop_none hpop]
      exact ⟨rfl, rfl⟩
    · obtain ⟨htake, hdrop⟩ := ih r'
      rw [pop_contents hpop]
      exact ⟨congrArg (x :: ·) htake, hdrop⟩

theorem read_append (r : Ring T cap) (n : Nat) :
    (r.read n).1 ++ (r.read n).2.contents = r.contents := by
  obtain ⟨htake, hdrop⟩ := r.read_spec n
  rw [htake, hdrop, List.take_append_drop]

end Ring

end UnDOS.Lib
