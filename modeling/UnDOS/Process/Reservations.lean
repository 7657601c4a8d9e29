import UnDOS.Process.Handles

/-!
# Handles and reservations over whole runs

A token stands for one reservation as long as identities do not repeat, that is for fewer than
`2 ^ 32` reservations.
-/

namespace UnDOS.Process

open UnDOS.Kernel (KernelError)
open Relation (ReflTransGen)

variable {α : Type}

/-! ## What a call can do -/

/-- A handle number is drawn: from the free list, or a new one. -/
def Drawn (t : Table α) (raw : Nat) (free : List Nat) (next : Nat) : Prop :=
  (t.freeList = raw :: free ∧ next = t.nextRawHandle) ∨
    (t.freeList = [] ∧ free = [] ∧ raw = t.nextRawHandle ∧ next = t.nextRawHandle + 1 ∧
      t.nextRawHandle ≠ 2 ^ 32 - 1)

/-- The parts of the calls other than `Reserve`. -/
inductive Change (t : Table α) : Table α → Prop
  | opened (raw : Nat) (free : List Nat) (next : Nat) (object : α) (access flags : BitVec 32)
      (drawn : Drawn t raw free next) :
      Change t { t with
        entries := t.entries ++ [⟨raw, some object, access, flags, 1, 0⟩]
        freeList := free
        nextRawHandle := next }
  | bound (before after : List (Entry α)) (e : Entry α) (object : α)
      (split : t.entries = before ++ e :: after) (reserved : e.reservation ≠ 0) :
      Change t { t with
        entries := before ++ { e with object := some object, reservation := 0 } :: after }
  | cancelled (before after : List (Entry α)) (e : Entry α)
      (split : t.entries = before ++ e :: after) (reserved : e.reservation ≠ 0) :
      Change t { t with entries := before ++ after, freeList := t.freeList ++ [e.handle] }
  | closed (before after : List (Entry α)) (e : Entry α) (split : t.entries = before ++
      e :: after) :
      Change t { t with
        entries := before ++ after
        freeList := t.freeList ++ [e.handle]
        standardStreams := fun i =>
          let stream := t.standardStreams i
          if stream.available ∧ stream.value = e.handle then { stream with available := false }
          else stream }
  | streamSet (i : Fin 3) (e : Entry α) (mem : e ∈ t.entries) (isOpen : e.reservation = 0) :
      Change t { t with
        standardStreams := Function.update t.standardStreams i ⟨e.handle, true⟩ }

/-- What a `Reserve` that returns `token` does. -/
def Reserves (t : Table α) (token : Reservation) (t' : Table α) : Prop :=
  ∃ raw free next access flags, Drawn t raw free next ∧ token = ⟨raw, t.drawIdentity⟩ ∧
    t' = { t with
      entries := t.entries ++ [⟨raw, none, access, flags, 1, t.drawIdentity⟩]
      freeList := free
      nextRawHandle := next
      nextReservation := t.drawIdentity }

/-! ## The invariant -/

/-- What holds of a table between calls.  The numbers in use and those given back are listed
together: one list without repetitions, below the next new number. -/
structure Table.Sound (t : Table α) : Prop where
  nodup : (t.entries.map Entry.handle ++ t.freeList).Nodup
  below : ∀ h ∈ t.entries.map Entry.handle ++ t.freeList, h < t.nextRawHandle
  limit : t.nextRawHandle < 2 ^ 32
  single : ∀ e ∈ t.entries, e.refcount = 1
  bound : ∀ e ∈ t.entries, e.reservation = 0 ↔ e.object.isSome
  streams : ∀ i, (t.standardStreams i).available →
    ∃ e ∈ t.entries, e.handle = (t.standardStreams i).value ∧ e.reservation = 0

theorem drawIdentity_ne_zero (t : Table α) : t.drawIdentity ≠ 0 := by
  rw [Table.drawIdentity]
  split
  · decide
  · assumption

namespace Table.Sound

variable {t : Table α}

theorem empty : Sound ({} : Table α) where
  nodup := List.nodup_nil
  below := by simp
  limit := by norm_num
  single := by simp
  bound := by simp
  streams := by simp

theorem eq_of_handle (hs : t.Sound) {e f : Entry α} (he : e ∈ t.entries) (hf : f ∈ t.entries)
    (h : e.handle = f.handle) : e = f :=
  List.inj_on_of_nodup_map (List.Nodup.of_append_left hs.nodup) he hf h

theorem drawn (hs : t.Sound) {raw next : Nat} {free : List Nat} (hdrawn : Drawn t raw free next) :
    (t.entries.map Entry.handle ++ raw :: free).Nodup ∧
      (∀ h ∈ t.entries.map Entry.handle ++ raw :: free, h < next) ∧ next < 2 ^ 32 := by
  have hlimit := hs.limit
  rcases hdrawn with ⟨hfree, rfl⟩ | ⟨hfree, rfl, rfl, rfl, hlast⟩
  · rw [← hfree]
    exact ⟨hs.nodup, hs.below, hlimit⟩
  · have hnodup := hs.nodup
    have hbelow := hs.below
    rw [hfree, List.append_nil] at hnodup hbelow
    refine ⟨?_, ?_, by omega⟩
    · -- The new number lies above all of them.
      refine List.nodup_append'.2 ⟨hnodup, List.nodup_singleton _, ?_⟩
      rw [List.disjoint_singleton]
      exact fun hmem => lt_irrefl _ (hbelow _ hmem)
    · intro h hmem
      rcases List.mem_append.1 hmem with hold | hnew
      · exact Nat.lt_succ_of_lt (hbelow h hold)
      · rw [List.mem_singleton.1 hnew]
        exact Nat.lt_succ_self _

theorem push (hs : t.Sound) {raw next n : Nat} {free : List Nat} {object : Option α}
    {access flags : BitVec 32} {identity : Nat} (hdrawn : Drawn t raw free next)
    (hbound : identity = 0 ↔ object.isSome) : Sound { t with
      entries := t.entries ++ [⟨raw, object, access, flags, 1, identity⟩]
      freeList := free
      nextRawHandle := next
      nextReservation := n } where
  nodup := by simpa using (hs.drawn hdrawn).1
  below := by simpa using (hs.drawn hdrawn).2.1
  limit := (hs.drawn hdrawn).2.2
  single := by simpa [or_imp, forall_and] using hs.single
  bound := by simpa [or_imp, forall_and, hbound] using hs.bound
  streams i havailable := by
    obtain ⟨e, he, hnamed⟩ := hs.streams i havailable
    exact ⟨e, List.mem_append_left _ he, hnamed⟩

/-- A table with an entry less, whose number is given back.  No stream that is still available
names it. -/
theorem release (hs : t.Sound) {before after : List (Entry α)} {e : Entry α}
    {streams : Fin 3 → StandardStreamHandle} (hsplit : t.entries = before ++ e :: after)
    (hstreams : ∀ i, (streams i).available →
      ∃ f ∈ t.entries, f ≠ e ∧ f.handle = (streams i).value ∧ f.reservation = 0) : Sound { t with
      entries := before ++ after
      freeList := t.freeList ++ [e.handle]
      standardStreams := streams } := by
  have hmem : ∀ f, f ∈ before ++ after → f ∈ t.entries := fun f hf => by
    rw [hsplit]
    exact ((List.sublist_cons_self e after).append_left before).subset hf
  have hperm : ((before ++ after).map Entry.handle ++ (t.freeList ++ [e.handle])).Perm
      (t.entries.map Entry.handle ++ t.freeList) := by
    rw [hsplit, List.map_append, List.map_append, List.append_assoc,
      List.append_assoc]
    apply List.Perm.append_left
    rw [← List.append_assoc]
    exact List.perm_append_singleton _ _
  exact {
    nodup := hperm.nodup_iff.2 hs.nodup
    below := fun h hh => hs.below h (hperm.mem_iff.1 hh)
    limit := hs.limit
    single := fun f hf => hs.single f (hmem f hf)
    bound := fun f hf => hs.bound f (hmem f hf)
    streams := fun i havailable => by
      obtain ⟨f, hf, hne, hnamed⟩ := hstreams i havailable
      rw [hsplit] at hf
      exact ⟨f, by simpa [hne] using hf, hnamed⟩ }

theorem change (hs : t.Sound) {t' : Table α} (h : Change t t') : t'.Sound := by
  cases h with
  | opened raw free next object access flags drawn =>
    exact hs.push (n := t.nextReservation) drawn (by simp)
  | bound before after e object split reserved =>
    have hmem : ∀ f ∈ before ++ { e with object := some object, reservation := 0 } :: after,
        f ∈ t.entries ∨ f = { e with object := some object, reservation := 0 } := fun f hf => by
      rw [split]
      simp only [List.mem_append, List.mem_cons] at hf ⊢
      tauto
    have he : e ∈ t.entries := by simp [split]
    exact {
      nodup := by simpa [split] using hs.nodup
      below := by simpa [split] using hs.below
      limit := hs.limit
      single := fun f hf => by
        rcases hmem f hf with hold | rfl
        · exact hs.single f hold
        · exact hs.single e he
      bound := fun f hf => by
        rcases hmem f hf with hold | rfl
        · exact hs.bound f hold
        · simp
      streams := fun i havailable => by
        -- A stream names an entry that is open, hence another one.
        obtain ⟨f, hf, hnamed, hopen⟩ := hs.streams i havailable
        have hne : f ≠ e := fun heq => reserved (heq ▸ hopen)
        rw [split] at hf
        simp only [List.mem_append, List.mem_cons] at hf
        exact ⟨f, by simp only [List.mem_append]; tauto, hnamed, hopen⟩ }
  | cancelled before after e split reserved =>
    refine hs.release split fun i havailable => ?_
    obtain ⟨f, hf, hnamed, hopen⟩ := hs.streams i havailable
    exact ⟨f, hf, fun heq => reserved (heq ▸ hopen), hnamed, hopen⟩
  | closed before after e split =>
    refine hs.release split fun i havailable => ?_
    dsimp only at havailable ⊢
    split at havailable
    · simp at havailable
    · next hother =>
      obtain ⟨f, hf, hnamed, hopen⟩ := hs.streams i havailable
      rw [if_neg hother]
      exact ⟨f, hf, fun heq => hother ⟨havailable, heq ▸ hnamed.symm⟩, hnamed, hopen⟩
  | streamSet i e mem isOpen =>
    refine ⟨hs.nodup, hs.below, hs.limit, hs.single, hs.bound, fun j havailable => ?_⟩
    by_cases hj : j = i
    · subst hj
      exact ⟨e, mem, by simp, isOpen⟩
    · simp only [Function.update_of_ne hj] at havailable ⊢
      exact hs.streams j havailable

theorem reserves (hs : t.Sound) {token : Reservation} {t' : Table α} (h : Reserves t token t') :
    t'.Sound := by
  obtain ⟨raw, free, next, access, flags, hdrawn, -, rfl⟩ := h
  exact hs.push hdrawn (by simp [drawIdentity_ne_zero])

end Table.Sound

/-! ## The calls -/

/-- A chain of changes. -/
def Changes (t t' : Table α) : Prop := ReflTransGen Change t t'

theorem allocateEntry_cases (t : Table α) (object : Option α) (access flags : BitVec 32) :
    (t.freeList = [] ∧ t.nextRawHandle = 2 ^ 32 - 1 ∧
      t.allocateEntry object access flags = (.error .resourceLimitExceeded, t)) ∨
    ∃ raw free next, Drawn t raw free next ∧
      t.allocateEntry object access flags = (.ok raw, { t with
        entries := t.entries ++ [⟨raw, object, access, flags, 1, 0⟩]
        freeList := free
        nextRawHandle := next }) := by
  rw [Table.allocateEntry]
  split
  · next raw free hfree => exact .inr ⟨raw, free, t.nextRawHandle, .inl ⟨hfree, rfl⟩, rfl⟩
  · next hfree =>
    split
    · next hlast => exact .inl ⟨hfree, hlast, rfl⟩
    · next hlast =>
      exact .inr ⟨_, [], _, .inr ⟨hfree, rfl, rfl, rfl, hlast⟩, by simp [Table.pushEntry, hfree]⟩

theorem allocate_changes (t : Table α) (object : Option α) (access flags : BitVec 32) :
    Changes t (t.allocate object access flags).2 := by
  rw [Table.allocate]
  cases object with
  | none => exact .refl
  | some object =>
    rcases allocateEntry_cases t (some object) access flags with ⟨-, -, h⟩ | ⟨raw, free, next,
      hdrawn, h⟩
    · rw [h]
      exact .refl
    · rw [h]
      exact .single (.opened raw free next object access flags hdrawn)

theorem reserve_cases (t : Table α) (access flags : BitVec 32) :
    (∃ e, t.reserve access flags = (.error e, t)) ∨
    ∃ token t', t.reserve access flags = (.ok token, t') ∧ Reserves t token t' := by
  rw [Table.reserve]
  rcases allocateEntry_cases t none access flags with ⟨-, -, h⟩ | ⟨raw, free, next, hdrawn, h⟩
  · rw [h]
    exact .inl ⟨_, rfl⟩
  · rw [h]
    refine .inr ⟨_, _, rfl, raw, free, next, access, flags, hdrawn, rfl, ?_⟩
    simp [Table.markBack, Table.drawIdentity]

variable {token : Reservation} {e : Entry α} {t t' : Table α}

theorem Reservation.names_iff :
    token.names e ↔ e.reservation ≠ 0 ∧ token = ⟨e.handle, e.reservation⟩ := by
  obtain ⟨h, identity⟩ := token
  simp only [names, Bool.and_eq_true, bne_iff_ne, beq_iff_eq, Reservation.mk.injEq]
  constructor
  · rintro ⟨⟨hne, rfl⟩, rfl⟩
    exact ⟨hne, rfl, rfl⟩
  · rintro ⟨hne, rfl, rfl⟩
    exact ⟨⟨hne, rfl⟩, rfl⟩

theorem bind_cases (t : Table α) (token : Reservation) (object : Option α) :
    (∃ e, t.bind token object = (.error e, t)) ∨
    ∃ before e after value, t.entries = before ++ e :: after ∧ token.names e ∧
      object = some value ∧ t.bind token object = (.ok e.handle, { t with
        entries := before ++ { e with object := some value, reservation := 0 } :: after }) := by
  rw [Table.bind]
  cases object with
  | none => exact .inl ⟨_, rfl⟩
  | some value =>
    rw [if_neg (by simp)]
    split
    · exact .inl ⟨_, rfl⟩
    · next before e after hfound =>
      obtain ⟨hsplit, hnames⟩ := locate_eq_some hfound
      exact .inr ⟨before, e, after, value, hsplit, hnames, rfl, rfl⟩

theorem cancel_cases (t : Table α) (token : Reservation) : (∃ e, t.cancel token = (.error e, t)) ∨
    ∃ before e after, t.entries = before ++ e :: after ∧ token.names e ∧
      t.cancel token = (.ok (), { t with
        entries := before ++ after, freeList := t.freeList ++ [e.handle] }) := by
  rw [Table.cancel]
  split
  · exact .inl ⟨_, rfl⟩
  · next before e after hfound =>
    obtain ⟨hsplit, hnames⟩ := locate_eq_some hfound
    exact .inr ⟨before, e, after, hsplit, hnames, rfl⟩

theorem close_changes (hs : t.Sound) (h : Nat) : Changes t (t.close h).2 := by
  rw [Table.close]
  split
  · exact .refl
  · next before e after hfound =>
    obtain ⟨hsplit, hopen⟩ := locate_eq_some hfound
    split
    · exact .refl
    · -- There is one reference to every entry.
      have hsingle : e.refcount = 1 := hs.single e (by simp [hsplit])
      obtain ⟨rfl, -⟩ : e.handle = h ∧ e.reservation = 0 := by simpa [Entry.openAs] using hopen
      rw [hsingle]
      exact .single (.closed before after e hsplit)

theorem setStandardHandle_changes (t : Table α) (stream h : Nat) :
    Changes t (t.setStandardHandle stream h).2 := by
  rw [Table.setStandardHandle]
  split
  · next hindex =>
    split
    · exact .refl
    · next e hlookup =>
      split
      · exact .refl
      · have hfound := List.find?_some hlookup
        obtain ⟨rfl, hopen⟩ : e.handle = h ∧ e.reservation =
          0 := by simpa [Entry.openAs] using hfound
        exact .single (.streamSet ⟨stream, hindex⟩ e (List.mem_of_find?_eq_some hlookup) hopen)
  · exact .refl

theorem Table.Sound.changes (hs : t.Sound) (h : Changes t t') : t'.Sound := by
  induction h with
  | refl => exact hs
  | tail _ last ih => exact ih.change last

theorem allocateStandardHandle_changes (hs : t.Sound) (stream : Nat)
    (object : Option α) (access : BitVec 32) :
    Changes t (t.allocateStandardHandle stream object access).2 := by
  rw [Table.allocateStandardHandle]
  split
  · exact .refl
  split
  · exact .refl
  have hallocate := allocate_changes t object access inheritable
  generalize t.allocate object access inheritable = allocated at hallocate
  obtain ⟨_ | h, t₁⟩ := allocated
  · exact hallocate
  · have hset := setStandardHandle_changes t₁ stream h
    dsimp only
    generalize t₁.setStandardHandle stream h = set at hset
    obtain ⟨_ | _, t₂⟩ := set
    · have hsound := (hs.changes hallocate).changes hset
      exact (hallocate.trans hset).trans (close_changes hsound h)
    · exact hallocate.trans hset

/-- What a call can do: it reserves an entry and returns its token, or it makes some changes and
returns none. -/
theorem next_cases (hs : t.Sound) (call : Call α) : (call.issues t = [] ∧ Changes t (call.next t)) ∨
      ∃ token access flags, call = .reserve access flags ∧ call.issues t = [token] ∧
        Reserves t token (call.next t) := by
  cases call with
  | allocate object access flags => exact .inl ⟨rfl, allocate_changes t object access flags⟩
  | reserve access flags =>
    rcases reserve_cases t access flags with ⟨e, h⟩ | ⟨token, t', h, hreserves⟩
    · refine .inl ⟨by simp [Call.issues, h, Except.toOption], ?_⟩
      rw [Call.next, h]
      exact .refl
    · refine .inr ⟨token, access, flags, rfl, by simp [Call.issues, h, Except.toOption], ?_⟩
      rw [Call.next, h]
      exact hreserves
  | bind token object =>
    refine .inl ⟨rfl, ?_⟩
    rw [Call.next]
    rcases bind_cases t token object with ⟨e, h⟩ | ⟨before, e, after, value, hsplit, hnames, rfl, h⟩
    · rw [h]
      exact .refl
    · rw [h]
      exact .single (.bound before after e value hsplit (Reservation.names_iff.1 hnames).1)
  | cancel token =>
    refine .inl ⟨rfl, ?_⟩
    rw [Call.next]
    rcases cancel_cases t token with ⟨e, h⟩ | ⟨before, e, after, hsplit, hnames, h⟩
    · rw [h]
      exact .refl
    · rw [h]
      exact .single (.cancelled before after e hsplit (Reservation.names_iff.1 hnames).1)
  | close h => exact .inl ⟨rfl, close_changes hs h⟩
  | setStandardHandle stream h => exact .inl ⟨rfl, setStandardHandle_changes t stream h⟩
  | allocateStandardHandle stream object access =>
    exact .inl ⟨rfl, allocateStandardHandle_changes hs stream object access⟩

theorem Table.Sound.next (hs : t.Sound) (call : Call α) : (call.next t).Sound := by
  rcases next_cases hs call with ⟨-, h⟩ | ⟨token, access, flags, -, -, h⟩
  · exact hs.changes h
  · exact hs.reserves h

theorem sound_tableAfter (calls : List (Call α)) : (tableAfter calls).Sound :=
  UnDOS.Lib.foldl_keeps (fun _ call _ hs => hs.next call) .empty

/-! ## The history of a reservation -/

theorem tableAfter_concat (calls : List (Call α)) (call : Call α) :
    tableAfter (calls ++ [call]) = call.next (tableAfter calls) := by
  simp [tableAfter]

theorem issued_concat (calls : List (Call α)) (call : Call α) :
    issued (calls ++ [call]) = issued calls ++ call.issues (tableAfter calls) := by
  have h : ∀ (t : Table α), issuedFrom t (calls ++ [call]) =
      issuedFrom t calls ++ call.issues (calls.foldl Call.next t) := by
    induction calls with
    | nil => simp [issuedFrom]
    | cons first rest ih => simp [issuedFrom, ih]
  exact h {}

theorem Change.kept (h : Change t t') : t'.nextReservation = t.nextReservation ∧
      ∀ e ∈ t'.entries, e.reservation ≠ 0 → e ∈ t.entries := by
  cases h with
  | opened raw free next object access flags drawn =>
    refine ⟨rfl, fun e he hreserved => ?_⟩
    rcases List.mem_append.1 he with hold | hnew
    · exact hold
    · exact absurd (by rw [List.mem_singleton.1 hnew]) hreserved
  | bound before after f object split reserved =>
    refine ⟨rfl, fun e he hreserved => ?_⟩
    rw [split]
    simp only [List.mem_append, List.mem_cons] at he ⊢
    rcases he with hbefore | rfl | hafter
    · exact .inl hbefore
    · exact absurd rfl hreserved
    · exact .inr (.inr hafter)
  | cancelled before after f split =>
    refine ⟨rfl, fun e he _ => ?_⟩
    rw [split]
    exact ((List.sublist_cons_self f after).append_left before).subset he
  | closed before after f split =>
    refine ⟨rfl, fun e he _ => ?_⟩
    rw [split]
    exact ((List.sublist_cons_self f after).append_left before).subset he
  | streamSet i f mem isOpen => exact ⟨rfl, fun _ he _ => he⟩

theorem Changes.kept (h : Changes t t') : t'.nextReservation = t.nextReservation ∧
      ∀ e ∈ t'.entries, e.reservation ≠ 0 → e ∈ t.entries := by
  induction h with
  | refl => exact ⟨rfl, fun _ he _ => he⟩
  | tail _ last ih =>
    exact ⟨last.kept.1.trans ih.1, fun e he hr => ih.2 e (last.kept.2 e he hr) hr⟩

theorem reserved_of_next (hs : t.Sound) (call : Call α)
    (he : e ∈ (call.next t).entries) (hreserved : e.reservation ≠ 0) :
    e ∈ t.entries ∨ call.issues t = [⟨e.handle, e.reservation⟩] := by
  rcases next_cases hs call with ⟨-, h⟩ | ⟨token, access, flags, -, hissues, h⟩
  · exact .inl (h.kept.2 e he hreserved)
  · obtain ⟨raw, free, next, access, flags, -, rfl, ht⟩ := h
    rw [ht] at he
    rcases List.mem_append.1 he with hold | hnew
    · exact .inl hold
    · rw [List.mem_singleton.1 hnew]
      exact .inr hissues

theorem identities_issued (calls : List (Call α)) (hfew : (issued calls).length < 2 ^ 32) :
    (issued calls).map Reservation.identity = List.range' 1 (issued calls).length ∧
      (tableAfter calls).nextReservation = (issued calls).length := by
  induction calls using List.reverseRecOn with
  | nil => exact ⟨rfl, rfl⟩
  | append_singleton calls call ih =>
    rw [issued_concat] at hfew ⊢
    rw [tableAfter_concat]
    obtain ⟨hids, hnext⟩ := ih (by rw [List.length_append] at hfew; omega)
    rcases next_cases (sound_tableAfter calls) call with
      ⟨hnone, h⟩ | ⟨token, access, flags, -, hissues, h⟩
    · rw [hnone, List.append_nil]
      exact ⟨hids, h.kept.1.trans hnext⟩
    · obtain ⟨raw, free, next, access, flags, -, rfl, ht⟩ := h
      rw [hissues] at hfew ⊢
      rw [List.length_append, List.length_singleton] at hfew ⊢
      have hdraw : (tableAfter calls).drawIdentity = (issued calls).length + 1 := by
        rw [Table.drawIdentity, hnext, Nat.mod_eq_of_lt hfew, if_neg (by omega)]
      rw [ht]
      rw [List.map_append, hids, List.range'_concat]
      simp [hdraw, Nat.add_comm]

theorem issued_nodup (calls : List (Call α)) (hfew : (issued calls).length < 2 ^ 32) :
    (issued calls).Nodup := by
  apply List.Nodup.of_map Reservation.identity
  rw [(identities_issued calls hfew).1]
  exact List.nodup_range'

/-- A `Reserve` of the run returned `token`, and the entry that it made has been in the table ever
since, as it was. -/
def StandsFor (calls : List (Call α)) (token : Reservation) (e : Entry α) : Prop :=
  ∃ earlier access flags later, calls = earlier ++ .reserve access flags :: later ∧
    ((tableAfter earlier).reserve access flags).1 = .ok token ∧
    token = ⟨e.handle, e.reservation⟩ ∧
    ∀ passed, passed <+: later →
      e ∈ (tableAfter (earlier ++ .reserve access flags :: passed)).entries

theorem standsFor_of_reserved (calls : List (Call α))
    (he : e ∈ (tableAfter calls).entries) (hreserved : e.reservation ≠ 0) :
    StandsFor calls ⟨e.handle, e.reservation⟩ e := by
  induction calls using List.reverseRecOn with
  | nil => exact nomatch he
  | append_singleton calls call ih =>
    have hafter := he
    rw [tableAfter_concat] at he
    rcases reserved_of_next (sound_tableAfter calls) call he hreserved with hold | hissued
    · obtain ⟨earlier, access, flags, later, rfl, hreturned, htoken, hsince⟩ := ih hold
      refine ⟨earlier, access, flags, later ++ [call], by simp, hreturned, htoken,
        fun passed hp => ?_⟩
      rcases List.prefix_concat_iff.1 hp with rfl | hp
      · simpa using hafter
      · exact hsince passed hp
    · -- The call is the `Reserve`, and nothing has passed since.
      rcases next_cases (sound_tableAfter calls) call with
        ⟨hnone, -⟩ | ⟨token, access, flags, rfl, -, -⟩
      · simp [hnone] at hissued
      · refine ⟨calls, access, flags, [], rfl, ?_, rfl, fun passed hp => ?_⟩
        · rw [Call.issues] at hissued
          generalize ((tableAfter calls).reserve access flags).1 = result at hissued ⊢
          cases result with
          | error e => simp [Except.toOption] at hissued
          | ok token => simpa [Except.toOption] using hissued
        · rw [List.prefix_nil.1 hp]
          exact hafter

theorem reservation_le_issued (calls : List (Call α)) (hfew : (issued calls).length < 2 ^ 32)
    (he : e ∈ (tableAfter calls).entries) : e.reservation ≤ (issued calls).length := by
  induction calls using List.reverseRecOn with
  | nil => exact nomatch he
  | append_singleton calls call ih =>
    by_cases hopen : e.reservation = 0
    · omega
    rw [tableAfter_concat] at he
    have hids := (identities_issued _ hfew).1
    rcases reserved_of_next (sound_tableAfter calls) call he hopen with hold | hissued
    · rw [issued_concat, List.length_append] at hfew ⊢
      have := ih (by omega) hold
      omega
    · have hmem : e.reservation ∈ (issued (calls ++ [call])).map Reservation.identity := by
        rw [issued_concat, hissued]
        simp
      rw [hids, List.mem_range'_1] at hmem
      omega

/-! ## Spent tokens -/

/-- A call binds or cancels the reservation of a token. -/
def Call.spends (t : Table α) (token : Reservation) : Call α → Prop
  | .bind token' object => token' = token ∧ ∃ h, (t.bind token object).1 = .ok h
  | .cancel token' => token' = token ∧ (t.cancel token).1 = .ok ()
  | _ => False

/-- The reservation of a token was bound or cancelled. -/
def Spent (calls : List (Call α)) (token : Reservation) : Prop :=
  ∃ earlier call later, calls = earlier ++ call :: later ∧ call.spends (tableAfter earlier) token

theorem Call.spends.names (hs : t.Sound) {call : Call α} (h : call.spends t token) :
    (∃ e ∈ t.entries, token.names e) ∧ ∀ e ∈ (call.next t).entries, ¬ token.names e := by
  -- Another entry that the token names would have the number of the one found.
  have hother : ∀ {before after e f}, t.entries = before ++ e :: after → token.names e →
      f ∈ before ++ after → ¬ token.names f := fun {before after e f} hsplit hnames hf hf' => by
    have hsame : f.handle = e.handle := by
      rw [Reservation.names_iff] at hnames hf'
      rw [hnames.2] at hf'
      exact (congrArg Reservation.handle hf'.2).symm
    have hnodup := List.Nodup.of_append_left hs.nodup
    rw [hsplit, List.map_append, List.map_cons, List.nodup_middle, List.nodup_cons,
      ← List.map_append] at hnodup
    exact hnodup.1 (List.mem_map.2 ⟨f, hf, hsame⟩)
  cases call with
  | bind token' object =>
    obtain ⟨rfl, h, hok⟩ := h
    rw [Call.next]
    rcases bind_cases t token' object with ⟨e, herr⟩ |
      ⟨before, e, after, value, hsplit, hnames, -, h⟩
    · simp [herr] at hok
    · refine ⟨⟨e, by simp [hsplit], hnames⟩, fun f hf hf' => ?_⟩
      rw [h] at hf
      rcases List.mem_cons.1 (List.perm_middle.mem_iff.1 hf) with rfl | hf
      · exact (Reservation.names_iff.1 hf').1 rfl
      · exact hother hsplit hnames hf hf'
  | cancel token' =>
    obtain ⟨rfl, hok⟩ := h
    rw [Call.next]
    rcases cancel_cases t token' with ⟨e, herr⟩ | ⟨before, e, after, hsplit, hnames, h⟩
    · simp [herr] at hok
    · refine ⟨⟨e, by simp [hsplit], hnames⟩, fun f hf => ?_⟩
      rw [h] at hf
      exact hother hsplit hnames hf
  | allocate _ _ _ => cases h
  | reserve _ _ => cases h
  | close _ => cases h
  | setStandardHandle _ _ => cases h
  | allocateStandardHandle _ _ _ => cases h

theorem issued_prefix {earlier calls : List (Call α)} (h : earlier <+: calls) :
    (issued earlier).length ≤ (issued calls).length := by
  obtain ⟨later, rfl⟩ := h
  induction later using List.reverseRecOn with
  | nil => simp
  | append_singleton later call ih =>
    rw [← List.append_assoc, issued_concat, List.length_append]
    omega

/-- A token that is spent names no entry, then or later. -/
theorem not_names_of_spent (calls : List (Call α)) (hfew : (issued calls).length < 2 ^ 32)
    (hspent : Spent calls token) : ∀ e ∈ (tableAfter calls).entries, ¬ token.names e := by
  induction calls using List.reverseRecOn with
  | nil =>
    intro e he
    exact nomatch he
  | append_singleton calls call ih =>
    have hfewer := hfew
    rw [issued_concat, List.length_append] at hfewer
    obtain ⟨earlier, spender, later, hcalls, hspends⟩ := hspent
    rw [tableAfter_concat]
    rcases List.eq_nil_or_concat later with rfl | ⟨later, last, rfl⟩
    · -- Spent by this very call.
      obtain ⟨rfl, rfl⟩ : calls = earlier ∧
        call = spender := by simpa using List.append_inj' hcalls rfl
      exact (hspends.names (sound_tableAfter calls)).2
    · have hconcat : calls ++ [call] = (earlier ++ spender :: later) ++ [last] := by
        simpa using hcalls
      obtain ⟨rfl, rfl⟩ : calls = earlier ++ spender :: later ∧ call = last := by
        simpa using List.append_inj' hconcat rfl
      intro e he hnames
      obtain ⟨hreserved, htoken⟩ := Reservation.names_iff.1 hnames
      rcases reserved_of_next (sound_tableAfter _) call he hreserved with hold | hissued
      · exact ih (by omega) ⟨earlier, spender, later, rfl, hspends⟩ e hold hnames
      · -- A new identity, above the one that was found when the token was spent.
        obtain ⟨f, hf, hfnames⟩ := (hspends.names (sound_tableAfter earlier)).1
        obtain ⟨-, hftoken⟩ := Reservation.names_iff.1 hfnames
        have hprefix : earlier <+: earlier ++ spender :: later := List.prefix_append _ _
        have hle := issued_prefix hprefix
        have hold := reservation_le_issued earlier (by omega) hf
        have hids := (identities_issued _ hfew).1
        rw [issued_concat, hissued, List.map_append, List.length_append, List.map_singleton,
          List.length_singleton, List.range'_concat] at hids
        have hnew := (List.append_inj' hids rfl).2
        have hsame : f.reservation = e.reservation := by
          have := hftoken.symm.trans htoken
          exact congrArg Reservation.identity this
        simp only [List.cons.injEq] at hnew
        omega

/-! ## The table as a whole -/

theorem bind_of_not_names (object : α) (h : ∀ e ∈ t.entries, ¬ token.names e) :
    t.bind token (some object) = (.error .invalidHandle, t) := by
  rw [Table.bind, if_neg (by simp), locate_eq_none.2 h]

theorem cancel_of_not_names
    (h : ∀ e ∈ t.entries, ¬ token.names e) : t.cancel token = (.error .invalidHandle, t) := by
  rw [Table.cancel, locate_eq_none.2 h]

theorem Table.Sound.not_openAs (hs : t.Sound) (he : e ∈ t.entries)
    (hreserved : e.reservation ≠ 0) : ∀ f ∈ t.entries, ¬ f.openAs e.handle := by
  intro f hf hopen
  obtain ⟨hhandle, hfree⟩ : f.handle = e.handle ∧ f.reservation = 0 := by
    simpa [Entry.openAs] using hopen
  exact hreserved (hs.eq_of_handle hf he hhandle ▸ hfree)

/-- The handle table over every run with fewer than `2 ^ 32` reservations: numbers in use are
distinct and not free, free ones are listed once, available streams name open entries; a token is
returned once, binds or cancels only the entry that it was returned for, and nothing once that is
done; and reserved entries cannot be looked up, accessed or closed. -/
theorem handle_table_sound (calls : List (Call α)) (hfew : (issued calls).length < 2 ^ 32) :
    ((tableAfter calls).entries.map Entry.handle).Nodup ∧
    (∀ e ∈ (tableAfter calls).entries, e.handle ∉ (tableAfter calls).freeList) ∧
    (tableAfter calls).freeList.Nodup ∧ (∀ i, ((tableAfter calls).standardStreams i).available →
      ∃ e ∈ (tableAfter calls).entries, e.handle = ((tableAfter calls).standardStreams i).value ∧
        e.reservation = 0 ∧ e.object.isSome) ∧ (issued calls).Nodup ∧
    (∀ token object h t', (tableAfter calls).bind token object = (.ok h, t') →
      ∃ before e after, StandsFor calls token e ∧
        (tableAfter calls).entries = before ++ e :: after ∧ t' = { tableAfter calls with
          entries := before ++ { e with object := object, reservation := 0 } :: after }) ∧
    (∀ token t', (tableAfter calls).cancel token = (.ok (), t') →
      ∃ before e after, StandsFor calls token e ∧
        (tableAfter calls).entries = before ++ e :: after ∧ t' = { tableAfter calls with
          entries := before ++ after
          freeList := (tableAfter calls).freeList ++ [e.handle] }) ∧
    (∀ token, Spent calls token →
      (∀ object, (tableAfter calls).bind token (some object) =
        (.error .invalidHandle, tableAfter calls)) ∧
      (tableAfter calls).cancel token = (.error .invalidHandle, tableAfter calls)) ∧
    (∀ e ∈ (tableAfter calls).entries, e.reservation ≠ 0 →
      (tableAfter calls).lookup e.handle = none ∧
      (∀ required, (tableAfter calls).hasAccess e.handle required = false) ∧
      (tableAfter calls).close e.handle = (.error .invalidHandle, tableAfter calls)) := by
  have hs := sound_tableAfter calls
  obtain ⟨hdistinct, hfree, hapart⟩ := List.nodup_append'.1 hs.nodup
  refine ⟨hdistinct, fun e he => hapart (List.mem_map_of_mem he), hfree, fun i havailable => ?_,
    issued_nodup calls hfew, fun token object h t' hok => ?_, fun token t' hok => ?_,
    fun token hspent => ?_, fun e he hreserved => ?_⟩
  · obtain ⟨e, he, hnamed, hopen⟩ := hs.streams i havailable
    exact ⟨e, he, hnamed, hopen, (hs.bound e he).1 hopen⟩
  · rcases bind_cases (tableAfter calls) token object with
      ⟨e, herr⟩ | ⟨before, e, after, value, hsplit, hnames, rfl, h⟩
    · simp [herr] at hok
    · rw [h] at hok
      obtain ⟨hreserved, rfl⟩ := Reservation.names_iff.1 hnames
      exact ⟨before, e, after, standsFor_of_reserved calls (by simp [hsplit]) hreserved, hsplit,
        (Prod.mk.inj hok).2.symm⟩
  · rcases cancel_cases (tableAfter calls) token with
      ⟨e, herr⟩ | ⟨before, e, after, hsplit, hnames, h⟩
    · simp [herr] at hok
    · rw [h] at hok
      obtain ⟨hreserved, rfl⟩ := Reservation.names_iff.1 hnames
      exact ⟨before, e, after, standsFor_of_reserved calls (by simp [hsplit]) hreserved, hsplit,
        (Prod.mk.inj hok).2.symm⟩
  · have hnone := not_names_of_spent calls hfew hspent
    exact ⟨fun object => bind_of_not_names object hnone, cancel_of_not_names hnone⟩
  · have hnone := hs.not_openAs he hreserved
    have hlookup : (tableAfter calls).lookup e.handle = none := List.find?_eq_none.2 hnone
    refine ⟨hlookup, fun required => by rw [Table.hasAccess, hlookup], ?_⟩
    rw [Table.close, locate_eq_none.2 hnone]

/-- A reservation is cancelled, and its number reserved again. -/
def reserveTwice : List (Call Nat) := [.reserve 0 0, .cancel ⟨0, 1⟩, .reserve 0 0]

theorem handle_table_sound_reserveTwice : (tableAfter reserveTwice).entries.map Entry.handle = [0] ∧
      (tableAfter reserveTwice).bind ⟨0, 1⟩ (some 7) =
        (.error .invalidHandle, tableAfter reserveTwice) ∧
      (tableAfter reserveTwice).lookup 0 = none := by
  obtain ⟨-, -, -, -, -, -, -, hspent, hreserved⟩ :=
    handle_table_sound reserveTwice (by decide)
  refine ⟨by decide, (hspent ⟨0, 1⟩ ⟨[.reserve 0 0], .cancel ⟨0, 1⟩, [.reserve 0 0], rfl,
    rfl, ?_⟩).1 7,
    (hreserved ⟨0, none, 0, 0, 1, 2⟩ ?_ (by decide)).1⟩
  · rfl
  · decide

end UnDOS.Process
