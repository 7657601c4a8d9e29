import UnDOS.Process.Reservations

/-!
# Inherited Handles

`KProcessObject::InheritHandlesFrom`: a new process takes copies of the entries of its parent that
are inheritable, and of the standard streams that are bound to one
(`inheritHandlesFrom_allOrNothing`).

- `push_back` does not look at the pointer that `operator new` returns: without memory for its node
  the call writes through a null pointer and does not come back.  Whether there is memory for the
  node of copy number `k` is an argument, and a call that does not come back is `none`.
- The numbers of a new table last for every entry that a parent can have, so `rollback` never runs.
-/

namespace UnDOS.Process

open UnDOS.Kernel (KernelError)

variable {α : Type}

/-! ## The copy -/

namespace Table

/-- `Allocate`, when there is memory for the node of the new entry or not. -/
def allocateStored (stored : Bool) (t : Table α) (object : Option α) (access flags : BitVec 32) :
    Option (Except KernelError Nat × Table α) :=
  match t.allocate object access flags with
  | (.error e, t') => some (.error e, t')
  | (.ok h, t') => if stored then some (.ok h, t') else none

/-- One of the standard streams, when a copy of `entry` has the handle `h`. -/
def bindStream (parent : Table α) (entry : Entry α) (h : Nat) :
    Except KernelError Unit × Table α → Nat → Except KernelError Unit × Table α
  | (.error e, child), _ => (.error e, child)
  | (.ok (), child), i =>
    match parent.getStandardHandle i with
    | .ok named => if named = entry.handle then child.setStandardHandle i h else (.ok (), child)
    | .error _ => (.ok (), child)

/-- The body of the loop, for an entry that is inherited. -/
def inheritEntry (stored : Bool) (parent child : Table α) (entry : Entry α) :
    Option (Except KernelError Unit × Table α) :=
  match child.allocateStored stored entry.object entry.access entry.flags with
  | none => none
  | some (.error e, child') => some (.error e, child')
  | some (.ok h, child') =>
    if child'.entries.length ≠ child.entries.length + 1 ∨ (child'.lookup h).isNone then
      some (.error .outOfMemory, (child'.close h).2)
    else some ([0, 1, 2].foldl (bindStream parent entry h) (.ok (), child'))

/-- `rollback`, in at most so many rounds.  In the table of a new process every round removes an
entry. -/
def rollback : Nat → Table α → Table α
  | 0, t => t
  | rounds + 1, t =>
    match t.entries with
    | [] => t
    | e :: _ =>
      match t.close e.handle with
      | (.error _, _) => t
      | (.ok (), t') => rollback rounds t'

/-- What the loop passes over. -/
def passedOver (e : Entry α) : Bool := e.reservation != 0 || e.flags &&& inheritable == 0

def inheritLoop (memory : Nat → Bool) (parent : Table α) :
    List (Entry α) → Table α → Option (Except KernelError Unit × Table α)
  | [], child => some (.ok (), child)
  | entry :: rest, child =>
    if passedOver entry then inheritLoop memory parent rest child
    else
      match inheritEntry (memory child.entries.length) parent child entry with
      | none => none
      | some (.error e, child') => some (.error e, rollback child'.entries.length child')
      | some (.ok (), child') => inheritLoop memory parent rest child'

/-- `InheritHandlesFrom`, into the table of a new process. -/
def inheritHandlesFrom (memory : Nat → Bool) (parent : Table α) :
    Option (Except KernelError Unit × Table α) :=
  inheritLoop memory parent parent.entries {}

end Table

/-- The entries of a parent that a child inherits. -/
def inherited (parent : Table α) : List (Entry α) :=
  parent.entries.filter fun e => !Table.passedOver e

/-- The copy number `i`. -/
def copyOf (i : Nat) (e : Entry α) : Entry α := ⟨i, e.object, e.access, e.flags, 1, 0⟩

/-- A success gives the child a copy of every inherited entry, in order, and of every standard
stream that is bound to one; a failure leaves nothing behind. -/
def AllOrNothing (parent : Table α) : Except KernelError Unit × Table α → Prop
  | (.ok (), child) =>
    child.entries = (inherited parent).mapIdx copyOf ∧
      ∀ (i : Fin 3) k e, (inherited parent)[k]? = some e →
        parent.getStandardHandle i = .ok e.handle → child.getStandardHandle i = .ok k
  | (.error _, child) => child.entries = [] ∧ ∀ i, (child.standardStreams i).available = false

namespace Table

variable {t parent child : Table α} {e entry : Entry α} {rest L : List (Entry α)}

/-! ## Copying -/

/-- `L` has been copied from the parent. -/
structure Copied (parent : Table α) (L : List (Entry α)) (t : Table α) : Prop where
  entries : t.entries = L.mapIdx copyOf
  free : t.freeList = []
  next : t.nextRawHandle = L.length
  named : ∀ i, (t.standardStreams i).available → (t.standardStreams i).value < L.length
  bound : ∀ (i : Fin 3) k e, L[k]? = some e → parent.getStandardHandle i = .ok e.handle →
    t.standardStreams i = ⟨k, true⟩

theorem Copied.handles (h : Copied parent L t) :
    t.entries.map Entry.handle = List.range L.length := by
  rw [h.entries]
  apply List.ext_getElem <;> simp [copyOf]

/-- What the streams become when the copy of `entry` has the handle `h`. -/
def streamsBound (parent : Table α) (entry : Entry α) (h : Nat) (child : Table α) : Table α :=
  { child with
    standardStreams := fun i =>
      if parent.getStandardHandle i = .ok entry.handle then ⟨h, true⟩
      else child.standardStreams i }

theorem bindStreams {h : Nat} (hlookup : child.lookup h = some e) (hobject : e.object.isSome) :
    [0, 1, 2].foldl (bindStream parent entry h) (.ok (), child) =
      (.ok (), streamsBound parent entry h child) := by
  have hsome : e.object.isNone = false := by simpa using hobject
  have hround (streams : Fin 3 → StandardStreamHandle) (i : Fin 3) :
      bindStream parent entry h (.ok (), { child with standardStreams := streams }) i =
        (.ok (), { child with
          standardStreams := fun j =>
            if j = i ∧ parent.getStandardHandle i = .ok entry.handle then ⟨h, true⟩
            else streams j }) := by
    have hlookup' : lookup { child with standardStreams := streams } h = some e := hlookup
    rw [bindStream]
    rcases hnamed : parent.getStandardHandle i with error | named
    · simp
    · by_cases heq : named = entry.handle
      · simp only [heq, if_true, setStandardHandle, i.isLt, dif_pos, hlookup', hsome,
          Bool.false_eq_true, if_false, and_true]
        congr 2
        funext j
        simp [Function.update_apply]
      · simp [heq]
  refine (congrArg (bindStream parent entry h · 2) ((congrArg (bindStream parent entry h · 1)
    (hround child.standardStreams 0)).trans (hround _ 1))).trans ((hround _ 2).trans ?_)
  congr 2
  funext i
  obtain rfl | rfl | rfl : i = 0 ∨ i = 1 ∨ i = 2 := by omega
  all_goals simp

theorem allocateStored_eq (stored : Bool)
    (hfree : child.freeList = []) (hobject : entry.object.isSome)
    (hroom : child.nextRawHandle ≠ 2 ^ 32 - 1) :
    child.allocateStored stored entry.object entry.access entry.flags =
      if stored then
        some (.ok child.nextRawHandle, { child with
          nextRawHandle := child.nextRawHandle + 1
          entries := child.entries ++ [copyOf child.nextRawHandle entry] })
      else none := by
  have hsome : entry.object.isNone = false := by simpa using hobject
  have hallocate : child.allocate entry.object entry.access entry.flags = (.ok child.nextRawHandle,
      { child with nextRawHandle := child.nextRawHandle + 1 }.pushEntry child.nextRawHandle
        entry.object entry.access entry.flags) := by
    rw [allocate, hsome, allocateEntry, hfree]
    exact if_neg hroom
  rw [allocateStored, hallocate]
  rfl

/-- With memory for its node an entry is copied, with its streams. -/
theorem inheritEntry_spec (stored : Bool) (h : Copied parent L child)
    (hobject : entry.object.isSome)
    (hnew : ∀ e ∈ L, e.handle ≠ entry.handle) (hroom : L.length ≠ 2 ^ 32 - 1) :
    if stored then
      ∃ child', inheritEntry stored parent child entry = some (.ok (), child') ∧
        Copied parent (L ++ [entry]) child'
    else inheritEntry stored parent child entry = none := by
  have hlength : child.entries.length = L.length := by simp [h.entries]
  rw [inheritEntry, allocateStored_eq stored h.free hobject (by rwa [h.next]), h.next]
  cases stored with
  | false => rfl
  | true =>
    have hfresh : ∀ e ∈ child.entries, (e.openAs L.length) = false := by
      intro e he
      have hlt : e.handle < L.length := by
        rw [← List.mem_range, ← h.handles]
        exact List.mem_map_of_mem he
      simp [Entry.openAs, hlt.ne]
    generalize hpushed : ({ child with
      nextRawHandle := L.length + 1
      entries := child.entries ++ [copyOf L.length entry] } : Table α) = t
    have hentries : t.entries = child.entries ++ [copyOf L.length entry] := by rw [← hpushed]
    have hstreams : t.standardStreams = child.standardStreams := by rw [← hpushed]
    have hfind : t.lookup L.length = some (copyOf L.length entry) := by
      rw [lookup, hentries, List.find?_append,
        List.find?_eq_none.2 fun e he => by simp [hfresh e he]]
      simp [Entry.openAs, copyOf]
    refine ⟨streamsBound parent entry L.length t, ?_, ?_, ?_, ?_, ?_, ?_⟩
    · simp [hfind, hentries, bindStreams hfind hobject]
    · simp [streamsBound, hentries, h.entries]
    · rw [← hpushed]
      exact h.free
    · simp [streamsBound, ← hpushed]
    · intro i
      have hnamed := h.named i
      rw [streamsBound, hstreams]
      dsimp only
      split
      · simp
      · intro havailable
        simpa using Nat.lt_succ_of_lt (hnamed havailable)
    · -- The streams of the copies before it stay, since the handles of the parent differ.
      intro i k e hk hhandle
      rw [streamsBound, hstreams]
      dsimp only
      rw [hhandle]
      rcases lt_trichotomy k L.length with hlt | rfl | hlt
      · rw [List.getElem?_append_left hlt] at hk
        rw [if_neg (by simpa using hnew e (List.mem_of_getElem? hk))]
        exact h.bound i k e hk hhandle
      · rw [List.getElem?_concat_length] at hk
        cases hk
        rw [if_pos rfl]
      · rw [List.getElem?_eq_none (by simpa using Nat.succ_le_of_lt hlt)] at hk
        cases hk

theorem Copied.getStandardHandle
    (h : Copied parent L t) (hobjects : ∀ e ∈ L, e.object.isSome) {i : Fin 3} {k : Nat}
    (hk : L[k]? = some e) (hhandle : parent.getStandardHandle i = .ok e.handle) :
    t.getStandardHandle i = .ok k := by
  have hstream := h.bound i k e hk hhandle
  have hfind : t.entries.find? (fun e => e.handle == k && e.object.isSome) = some (copyOf k e) := by
    obtain ⟨hlt, hget⟩ := List.getElem?_eq_some_iff.1 hk
    rw [List.find?_eq_some_iff_getElem, h.entries]
    refine ⟨by simpa [copyOf] using hobjects e (List.mem_of_getElem? hk), k, by simpa, ?_, ?_⟩
    · simp [hget]
    · intro j hj
      simp [copyOf, hj.ne]
  simp [Table.getStandardHandle, hstream, hfind, copyOf]

/-! ## The whole loop -/

/-- The loop over the rest of the parent's entries, when `L` has been copied: it copies them all, or
one of them finds no memory. -/
theorem inheritLoop_spec (memory : Nat → Bool) (rest : List (Entry α)) (h : Copied parent L child)
    (hobjects : ∀ e ∈ rest, ¬passedOver e → e.object.isSome)
    (hnodup : (L ++ rest.filter fun e => !passedOver e).Pairwise fun e f => e.handle ≠ f.handle)
    (hfew : (L ++ rest.filter fun e => !passedOver e).length < 2 ^ 32) :
    let all := L ++ rest.filter fun e => !passedOver e
    (inheritLoop memory parent rest child = none ∧
        ∃ k, L.length ≤ k ∧ k < all.length ∧ memory k = false) ∨
      ((∀ k, L.length ≤ k → k < all.length → memory k = true) ∧
        ∃ t, inheritLoop memory parent rest child = some (.ok (), t) ∧ Copied parent all t) := by
  induction rest generalizing child L with
  | nil =>
    refine .inr ⟨fun k hlo hhi => ?_, child, rfl, by simpa using h⟩
    simp at hhi
    omega
  | cons entry rest ih =>
    rw [inheritLoop]
    cases hpass : passedOver entry with
    | true =>
      have hfilter : (entry :: rest).filter (fun e => !passedOver e) =
          rest.filter fun e => !passedOver e := by simp [hpass]
      rw [hfilter] at hnodup hfew ⊢
      exact ih h (fun e he => hobjects e (.tail _ he)) hnodup hfew
    | false =>
      have hfilter : L ++ (entry :: rest).filter (fun e => !passedOver e) =
          (L ++ [entry]) ++ rest.filter fun e => !passedOver e := by simp [hpass]
      rw [hfilter] at hnodup hfew ⊢
      have hnew : ∀ e ∈ L, e.handle ≠ entry.handle := fun e he =>
        (List.pairwise_append.1 (List.pairwise_append.1 hnodup).1).2.2 e he entry (by simp)
      have hlength : child.entries.length = L.length := by simp [h.entries]
      have hroom : L.length ≠ 2 ^ 32 - 1 := by
        simp only [List.length_append, List.length_singleton] at hfew
        omega
      have hentry := inheritEntry_spec (memory L.length) h
        (hobjects entry (by simp) (by simp [hpass])) hnew hroom
      rw [hlength]
      cases hmemory : memory L.length with
      | false =>
        rw [hmemory] at hentry
        exact .inl ⟨by simp [show inheritEntry false parent child entry = none from hentry],
          L.length, le_rfl, by simp, hmemory⟩
      | true =>
        rw [hmemory] at hentry
        obtain ⟨child', hcopy, hcopied⟩ := hentry
        simp only [hcopy]
        -- Entry number `L.length` is copied; the rest follows by induction.
        rcases ih hcopied (fun e he => hobjects e (.tail _ he)) hnodup hfew with
          ⟨hloop, k, hlo, hhi, hnone⟩ | ⟨hall, t, hloop, hend⟩
        · exact .inl ⟨hloop, k, by simp at hlo; omega, hhi, hnone⟩
        · refine .inr ⟨fun k hlo hhi => ?_, t, hloop, hend⟩
          rcases eq_or_lt_of_le hlo with rfl | hlt
          · exact hmemory
          · exact hall k (by simpa using Nat.succ_le_of_lt hlt) hhi

end Table

/-- A parent has fewer entries than there are handle numbers. -/
theorem Table.Sound.few {parent : Table α} (hs : parent.Sound) :
    (inherited parent).length < 2 ^ 32 := by
  have hdistinct := List.Nodup.of_append_left hs.nodup
  have hsub : parent.entries.map Entry.handle ⊆ List.range parent.nextRawHandle := fun h hh =>
    List.mem_range.2 (hs.below h (List.mem_append_left _ hh))
  have hentries := (List.subperm_of_subset hdistinct hsub).length_le
  rw [List.length_map, List.length_range] at hentries
  exact ((List.length_filter_le _ _).trans hentries).trans_lt hs.limit

/-- **Inheritance is all or nothing.**  Whatever a parent has done with its table, the call does not
come back just when a copy finds no memory, and otherwise it succeeds: every inheritable entry and
every standard stream that is bound to one has its image in the child, and there is nothing to roll
back. -/
theorem inheritHandlesFrom_allOrNothing (calls : List (Call α)) (memory : Nat → Bool) :
    let parent := tableAfter calls
    (parent.inheritHandlesFrom memory = none ↔
      ∃ k < (inherited parent).length, memory k = false) ∧
    ∀ r, parent.inheritHandlesFrom memory = some r → r.1 = .ok () ∧ AllOrNothing parent r := by
  intro parent
  have hsound : parent.Sound := sound_tableAfter calls
  have hobjects : ∀ e ∈ parent.entries, ¬Table.passedOver e → e.object.isSome := by
    intro e he hpass
    rw [← hsound.bound e he]
    simp [Table.passedOver] at hpass
    exact hpass.1
  have hnodup : (inherited parent).Pairwise fun e f => e.handle ≠ f.handle :=
    (List.pairwise_map.1 (List.Nodup.of_append_left hsound.nodup)).filter _
  have hstart : Table.Copied parent [] ({} : Table α) :=
    ⟨rfl, rfl, rfl, by simp, by simp⟩
  rcases Table.inheritLoop_spec memory parent.entries hstart hobjects
    (by simpa [inherited] using hnodup) hsound.few with
    ⟨hloop, k, -, hk, hnone⟩ | ⟨hall, t, hloop, hcopied⟩
  · rw [Table.inheritHandlesFrom, hloop]
    exact ⟨iff_of_true rfl ⟨k, hk, hnone⟩, fun r hr => nomatch hr⟩
  · rw [Table.inheritHandlesFrom, hloop]
    refine ⟨iff_of_false (by simp) ?_, ?_⟩
    · rintro ⟨k, hk, hnone⟩
      rw [hall k (Nat.zero_le k) hk] at hnone
      cases hnone
    · rintro r ⟨⟩
      refine ⟨rfl, hcopied.entries, fun i k e hk hhandle => ?_⟩
      refine hcopied.getStandardHandle (fun e he => ?_) hk hhandle
      obtain ⟨hin, hpass⟩ := List.mem_filter.1 he
      exact hobjects e hin (by simpa using hpass)

/-- An inheritable entry that is the standard output, one that is not inheritable, and one that is
inheritable and protected. -/
example : let parent := tableAfter [.allocateStandardHandle 1 (some 7) 2,
      .allocate (some 8) 1 0, .allocate (some 9) 1 3]
    ((parent.inheritHandlesFrom fun _ => true).map fun r => (r.2.entries.map (·.object),
      r.2.standardStreams 1)) = some ([some 7, some 9], ⟨0, true⟩) := by decide

end UnDOS.Process
