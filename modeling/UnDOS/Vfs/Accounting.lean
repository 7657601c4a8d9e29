import Mathlib.Order.Interval.Finset.Nat
import UnDOS.Lib.Intrusive
import UnDOS.Vfs.Lifecycle

/-!
# Open-File Accounting

`openFileCount`, `openFiles` and the links of the file objects describe one list for each
mount, and the list holds the files that the callers have open.

- `Linked s Q`: the list of mount `m` is `Q m`.  It is stated over `entry`, what a counted file
  object contributes, so that everything else about file objects is out of the way.
- `Accounted s v` adds the callers: the objects that they hold are the live ones, with the
  right number of references, and the open ones are the counted ones.
-/

namespace UnDOS.Vfs

open UnDOS.Lib
open UnDOS.Lib.Prog
open UnDOS.Lib.Intrusive (Links Queue IsList IsFamily)
open UnDOS.Kernel (KernelError)
open Function (update update_of_ne update_self)

variable {V N : Type}

/-! ## The lists of the mounts -/

/-- What a counted file object contributes to the lists. -/
structure Entry where
  mountPoint : Option Nat
  hasNode : Bool
  next : Option Addr
  previous : Option Addr

def File.entry (f : File N) : Option Entry :=
  if f.vfsOpenCounted then
    some ⟨f.mountPoint, f.vfsNode.isSome, f.vfsNext, f.vfsPrevious⟩
  else none

def State.entry (s : State V N) (a : Addr) : Option Entry := (s.files a).bind File.entry

/-- The links of the counted file objects. -/
def State.links (s : State V N) : Links Addr where
  next a := (s.entry a).bind Entry.next
  prev a := (s.entry a).bind Entry.previous

/-- The list of a mount as a queue; the source keeps no tail, so it is read off `Q`. -/
def State.queue (s : State V N) (Q : Nat → List Addr) (m : Nat) : Queue Addr where
  head := (s.mounts[m]?.map Mount.list).bind Prod.snd
  tail := (Q m).getLast?
  count := ((s.mounts[m]?.map Mount.list).map fun l => l.1.toNat).getD 0

/-- The list of mount `m` is `Q m`: doubly linked, counted, each file with a node, and every
counted file is on the list of its mount. -/
structure Linked (s : State V N) (Q : Nat → List Addr) : Prop where
  family : IsFamily s.links (s.queue Q) Q
  member : ∀ m a, a ∈ Q m → ∃ e, s.entry a = some e ∧ e.mountPoint = some m ∧ e.hasNode = true
  listed : ∀ a e, s.entry a = some e → ∃ m, a ∈ Q m
  mounted : ∀ m a, a ∈ Q m → m < s.mounts.length
  address : ∀ m a, a ∈ Q m → a ≠ 0 ∧ a < 2 ^ 32

variable {s s' : State V N}

theorem Linked.of_queue {Q : Nat → List Addr} (h : Linked s Q)
    (hentry : ∀ a, s'.entry a = s.entry a) (hqueue : s'.queue Q = s.queue Q)
    (hlength : s.mounts.length ≤ s'.mounts.length) : Linked s' Q := by
  have hlinks : s'.links = s.links := by
    unfold State.links
    simp only [hentry]
  refine ⟨?_, ?_, ?_, fun m a ha => lt_of_lt_of_le (h.mounted m a ha) hlength, h.address⟩
  · rw [hlinks, hqueue]
    exact h.family
  · intro m a ha
    rw [hentry]
    exact h.member m a ha
  · intro a e he
    rw [hentry] at he
    exact h.listed a e he

theorem Linked.congr {Q : Nat → List Addr} (h : Linked s Q)
    (hentry : ∀ a, s'.entry a = s.entry a) (hlists : SameLists s s') : Linked s' Q := by
  apply h.of_queue hentry
  · funext m
    unfold State.queue
    rw [hlists m]
  · by_contra hlt
    have hlast := hlists.symm.lt_length (List.getElem?_eq_getElem (Nat.lt_of_not_le hlt))
    exact lt_irrefl _ hlast

/-! ## Opening a file -/

theorem length_lt_of_addresses {L : List Addr} (hnodup : L.Nodup)
    (haddress : ∀ a ∈ L, a ≠ 0 ∧ a < 2 ^ 32) : L.length < 2 ^ 32 := by
  have hsub : L.toFinset ⊆ Finset.Ico 1 (2 ^ 32) := by
    intro a ha
    obtain ⟨hne, hlt⟩ := haddress a (List.mem_toFinset.1 ha)
    exact Finset.mem_Ico.2 ⟨Nat.one_le_iff_ne_zero.2 hne, hlt⟩
  have hcard := Finset.card_le_card hsub
  rw [List.toFinset_card_of_nodup hnodup, Nat.card_Ico] at hcard
  omega

section Link
variable {s : State V N} {a : Addr} {m : Nat} {f : File N} {mount : Mount V N}

theorem linkFile_files (hm : s.mounts[m]? = some mount) (b : Addr) :
    (linkFile s a m).files b = (s.files b).map fun g =>
      { g with
        vfsOpenCounted := if b = a then true else g.vfsOpenCounted
        vfsNext := if b = a then mount.openFiles else g.vfsNext
        vfsPrevious := if mount.openFiles = some b then some a else g.vfsPrevious } := by
  unfold linkFile
  rw [hm]
  rw [State.setMount_files, setFile?_files]
  by_cases hb : b = a
  · subst hb
    rw [State.setFile_files_self, State.setMount_files]
    rcases s.files b with _ | g
    · simp
    · by_cases hfirst : mount.openFiles = some b <;> simp [hfirst]
  · rw [State.setFile_files_of_ne _ _ hb, State.setMount_files]
    rcases s.files b with _ | g
    · simp
    · by_cases hfirst : mount.openFiles = some b <;> simp [hfirst, hb]

theorem linkFile_lists (hm : s.mounts[m]? = some mount) (k : Nat) :
    (linkFile s a m).mounts[k]?.map Mount.list =
      if m = k then some (mount.openFileCount + 1, some a) else s.mounts[k]?.map Mount.list := by
  unfold linkFile
  rw [hm]
  rw [State.setMount_mounts, State.setFile?_mounts, State.setFile_mounts, State.setMount_mounts]
  by_cases hk : m = k
  · subst hk
    simp only [hm]
    rfl
  · simp only [if_neg hk]

end Link

section Link
variable {s₀ s : State V N} {Q : Nat → List Addr} {a : Addr} {m : Nat}

theorem Building.linked {P : File N → Prop} (h : Linked s₀ Q) (hs : Building s₀ a P s)
    (hdead : s₀.files a = none) (hcounted : ∀ f, P f → f.vfsOpenCounted = false) : Linked s Q := by
  refine h.congr ?_ hs.2.2
  intro b
  unfold State.entry
  by_cases hb : b = a
  · obtain ⟨f, hf, hP⟩ := hs.1
    rw [hb, hf, hdead]
    simp [File.entry, hcounted f hP]
  · rw [hs.2.1 b hb]

theorem Linked.count_succ (h : Linked s Q) {mount : Mount V N} (hm : s.mounts[m]? = some mount)
    (ha : a ∉ Q m) (haddress : a ≠ 0 ∧ a < 2 ^ 32) :
    (mount.openFileCount + 1).toNat = mount.openFileCount.toNat + 1 := by
  have hlen : (a :: Q m).length < 2 ^ 32 := by
    apply length_lt_of_addresses (List.nodup_cons.2 ⟨ha, (h.family.isList m).nodup⟩)
    intro b hb
    rcases List.mem_cons.1 hb with rfl | hb
    · exact haddress
    · exact h.address m b hb
  have hcount := h.family.count m
  simp only [State.queue, hm] at hcount
  rw [List.length_cons, ← hcount] at hlen
  exact Nat.mod_eq_of_lt hlen

variable {f : File N}

theorem Linked.not_listed (h : Linked s Q) (hf : s.files a = some f)
    (hc : f.vfsOpenCounted = false) (k : Nat) : a ∉ Q k := by
  intro ha
  obtain ⟨e, he, -⟩ := h.member k a ha
  unfold State.entry at he
  rw [hf] at he
  simp [File.entry, hc] at he

theorem State.queue_head (hm : m < s.mounts.length) :
    (s.queue Q m).head = s.mounts[m].openFiles := by
  simp [State.queue, List.getElem?_eq_getElem hm, Mount.list]

theorem Linked.head_mem (h : Linked s Q) (hm : m < s.mounts.length) {b : Addr}
    (hb : s.mounts[m].openFiles = some b) : b ∈ Q m := by
  rw [← State.queue_head (Q := Q) hm, (h.family.isList m).head] at hb
  exact List.mem_of_head? hb

theorem linkFile_entry (hf : s.files a = some f) (hpub : f.Published m) (hm : m < s.mounts.length)
    (hne : s.mounts[m].openFiles ≠ some a) (b : Addr) : (linkFile s a m).entry b =
      if b = a then some ⟨some m, true, s.mounts[m].openFiles, none⟩ else (s.entry b).map fun e =>
        { e with previous := if s.mounts[m].openFiles = some b then some a else e.previous } := by
  unfold State.entry
  rw [linkFile_files (List.getElem?_eq_getElem hm)]
  by_cases hb : b = a
  · subst hb
    rw [hf]
    simp [File.entry, hpub.mountPoint, hpub.vfsNode, hpub.previous, hne]
  · rw [if_neg hb]
    rcases s.files b with _ | g
    · rfl
    · by_cases hc : g.vfsOpenCounted <;> simp [File.entry, hb]

theorem Linked.linkFile_links (h : Linked s Q) (hf : s.files a = some f) (hpub : f.Published m)
    (hm : m < s.mounts.length) (hne : s.mounts[m].openFiles ≠ some a) :
    (linkFile s a m).links = (Intrusive.pushFront s.links (s.queue Q m) a).1 := by
  have hentry := linkFile_entry hf hpub hm hne
  have hhead : (s.queue Q m).head = s.mounts[m].openFiles := State.queue_head hm
  apply Links.ext
  · funext b
    rw [Intrusive.pushFront_next, hhead]
    show ((linkFile s a m).entry b).bind Entry.next = _
    rw [hentry]
    by_cases hb : b = a
    · simp [hb]
    · rw [if_neg hb, if_neg hb]
      show _ = (s.entry b).bind Entry.next
      rcases s.entry b with _ | e <;> rfl
  · funext b
    rw [Intrusive.pushFront_prev (by rw [hhead]; exact hne), hhead]
    show ((linkFile s a m).entry b).bind Entry.previous = _
    rw [hentry]
    by_cases hb : b = a
    · simp [hb]
    · rw [if_neg hb, if_neg hb]
      show _ = if _ then _ else (s.entry b).bind Entry.previous
      by_cases hfirst : s.mounts[m].openFiles = some b
      · obtain ⟨e, he, -⟩ := h.member m b (h.head_mem hm hfirst)
        simp [he]
      · rcases s.entry b with _ | e <;> simp [hfirst]

theorem Linked.linkFile_queue (h : Linked s Q) (hm : m < s.mounts.length) (hnot : ∀ k, a ∉ Q k)
    (haddress : a ≠ 0 ∧ a < 2 ^ 32) : (linkFile s a m).queue (update Q m (a :: Q m)) =
      update (s.queue Q) m (Intrusive.pushFront s.links (s.queue Q m) a).2 := by
  have hmount := List.getElem?_eq_getElem hm
  funext k
  by_cases hk : k = m
  · subst hk
    rw [update_self]
    apply Queue.ext
    · rw [Intrusive.pushFront_head]
      simp [State.queue, linkFile_lists hmount]
    · have htail := ((h.family.pushFront k hnot).isList k).tail
      rw [update_self] at htail
      exact htail.symm
    · rw [Intrusive.pushFront_count]
      simp [State.queue, linkFile_lists hmount, hmount, Mount.list,
        h.count_succ hmount (hnot k) haddress]
  · simp [State.queue, linkFile_lists hmount, Ne.symm hk, update_of_ne hk]

/-- A file that is opened goes to the front of the list of its mount. -/
theorem Linked.link (h : Linked s Q) (hf : s.files a = some f) (hpub : f.Published m)
    (hm : m < s.mounts.length) (haddress : a ≠ 0 ∧ a < 2 ^ 32) :
    Linked (linkFile s a m) (update Q m (a :: Q m)) := by
  have hnot := h.not_listed hf hpub.counted
  have hne : s.mounts[m].openFiles ≠ some a := fun heq => hnot m (h.head_mem hm heq)
  have hentry := linkFile_entry hf hpub hm hne
  have hmem : ∀ k b, b ∈ update Q m (a :: Q m) k ↔ b ∈ Q k ∨ (b = a ∧ k = m) := by
    intro k b
    by_cases hk : k = m
    · subst hk
      simp [or_comm]
    · simp [hk]
  -- The queues, the file behind each link, and the link of each file.
  refine ⟨?_, ?_, ?_, ?_, ?_⟩
  · rw [h.linkFile_links hf hpub hm hne, h.linkFile_queue hm hnot haddress]
    exact h.family.pushFront m hnot
  · intro k b hb
    rw [hentry]
    rcases (hmem k b).1 hb with hb | ⟨rfl, rfl⟩
    · obtain ⟨e, he, hem, hen⟩ := h.member k b hb
      have hba : b ≠ a := fun heq => hnot k (heq ▸ hb)
      rw [if_neg hba, he]
      exact ⟨_, rfl, hem, hen⟩
    · rw [if_pos rfl]
      exact ⟨_, rfl, rfl, rfl⟩
  · intro b e he
    rw [hentry] at he
    by_cases hb : b = a
    · exact ⟨m, (hmem m b).2 (.inr ⟨hb, rfl⟩)⟩
    · rw [if_neg hb, Option.map_eq_some_iff] at he
      obtain ⟨e', he', -⟩ := he
      obtain ⟨k, hk⟩ := h.listed b e' he'
      exact ⟨k, (hmem k b).2 (.inl hk)⟩
  · intro k b hb
    have hlen : (linkFile s a m).mounts.length = s.mounts.length := by
      unfold linkFile
      rw [List.getElem?_eq_getElem hm]
      simp [State.setMount]
    rw [hlen]
    rcases (hmem k b).1 hb with hb | ⟨-, rfl⟩
    · exact h.mounted k b hb
    · exact hm
  · intro k b hb
    rcases (hmem k b).1 hb with hb | ⟨rfl, -⟩
    · exact h.address k b hb
    · exact haddress

end Link

/-! ## Closing a file -/

section Close
variable {s : State V N} {Q : Nat → List Addr} {a : Addr} {m : Nat} {f : File N}

theorem Linked.mem (h : Linked s Q) (hf : s.files a = some f) (hc : f.vfsOpenCounted = true)
    (hm : f.mountPoint = some m) : a ∈ Q m := by
  have he : s.entry a = some ⟨f.mountPoint, f.vfsNode.isSome, f.vfsNext, f.vfsPrevious⟩ := by
    unfold State.entry
    rw [hf]
    simp [File.entry, hc]
  obtain ⟨k, hk⟩ := h.listed a _ he
  obtain ⟨e, he', hem, -⟩ := h.member k a hk
  rw [he, Option.some.injEq] at he'
  rw [← he', hm, Option.some.injEq] at hem
  rw [hem]
  exact hk

theorem closedFile_entry (hf : s.files a = some f) (hc : f.vfsOpenCounted = true)
    {g : Option (File N)} (hg : ∀ f', g = some f' → f'.vfsOpenCounted = false) (b : Addr) :
    (s.closedFile a m g).entry b = if b = a then none else (s.entry b).map fun e =>
        { e with
          next := if f.vfsPrevious = some b then f.vfsNext else e.next
          previous := if f.vfsNext = some b then f.vfsPrevious else e.previous } := by
  unfold State.closedFile State.entry
  by_cases hb : b = a
  · subst hb
    rw [State.put_files_self, if_pos rfl]
    rcases g with _ | f'
    · rfl
    · simp [File.entry, hg f' rfl]
  · rw [State.put_files_of_ne _ _ hb, if_neg hb]
    rw [closeLocked_files_of_ne hf m hb, if_pos hc]
    rcases s.files b with _ | g'
    · rfl
    · by_cases hc' : g'.vfsOpenCounted <;> simp [File.entry, File.relink]

theorem closedFile_lists (hf : s.files a = some f) (hc : f.vfsOpenCounted = true)
    (g : Option (File N)) (k : Nat) : (s.closedFile a m g).mounts[k]?.map Mount.list = if m = k then
        s.mounts[k]?.map fun mount => (mount.openFileCount - 1,
          if f.vfsPrevious = none then f.vfsNext else mount.openFiles)
      else s.mounts[k]?.map Mount.list := by
  show (closeLocked s a m).mounts[k]?.map Mount.list = _
  rw [closeLocked_lists hf m k]
  simp [hc]

theorem State.links_of_counted (hf : s.files a = some f) (hc : f.vfsOpenCounted = true) :
    s.links.next a = f.vfsNext ∧ s.links.prev a = f.vfsPrevious := by
  have hself : s.entry a = some ⟨f.mountPoint, f.vfsNode.isSome, f.vfsNext, f.vfsPrevious⟩ := by
    unfold State.entry
    rw [hf]
    simp [File.entry, hc]
  simp [State.links, hself]

section Unlink
variable {A B : List Addr} (h : Linked s Q) (hf : s.files a = some f)
  (hc : f.vfsOpenCounted = true) (hQ : Q m = A ++ a :: B)
include h hf hc hQ

theorem Linked.neighbours : f.vfsNext = B.head? ∧ f.vfsPrevious = A.getLast? ∧
    s.links.prev a ≠ some a := by
  have hlist := h.family.isList m
  rw [hQ] at hlist
  obtain ⟨hnext, hprev⟩ := State.links_of_counted hf hc
  obtain ⟨hn, hp, hne⟩ := hlist.neighbours
  exact ⟨hnext.symm.trans hn, hprev.symm.trans hp, hne⟩

theorem Linked.neighbour_entry {b : Addr} (hb : f.vfsNext = some b ∨ f.vfsPrevious = some b) :
    ∃ e, s.entry b = some e := by
  obtain ⟨hn, hp, -⟩ := h.neighbours hf hc hQ
  have hbQ : b ∈ Q m := by
    rw [hn, hp] at hb
    rw [hQ]
    rcases hb with hb | hb
    · simp [List.mem_of_head? hb]
    · simp [List.mem_of_getLast? hb]
  obtain ⟨e, he, -⟩ := h.member m b hbQ
  exact ⟨e, he⟩

theorem Linked.closedFile_links {g : Option (File N)}
    (hg : ∀ f', g = some f' → f'.vfsOpenCounted = false) :
    (s.closedFile a m g).links = (Intrusive.remove s.links (s.queue Q m) a).1 := by
  have hentry := closedFile_entry (m := m) hf hc hg
  obtain ⟨hnext, hprev⟩ := State.links_of_counted hf hc
  obtain ⟨-, -, hne⟩ := h.neighbours hf hc hQ
  apply Links.ext
  · funext b
    rw [(Intrusive.remove_spec hne).1, hprev, hnext]
    show ((s.closedFile a m g).entry b).bind Entry.next = _
    rw [hentry]
    by_cases hb : b = a
    · simp [hb]
    · rw [if_neg hb, if_neg hb]
      show _ = if _ then _ else (s.entry b).bind Entry.next
      by_cases hpb : f.vfsPrevious = some b
      · obtain ⟨e, he⟩ := h.neighbour_entry hf hc hQ (.inr hpb)
        simp [he]
      · rcases s.entry b with _ | e <;> simp [hpb]
  · funext b
    rw [(Intrusive.remove_spec hne).2.1, hprev, hnext]
    show ((s.closedFile a m g).entry b).bind Entry.previous = _
    rw [hentry]
    by_cases hb : b = a
    · simp [hb]
    · rw [if_neg hb, if_neg hb]
      show _ = if _ then _ else (s.entry b).bind Entry.previous
      by_cases hnb : f.vfsNext = some b
      · obtain ⟨e, he⟩ := h.neighbour_entry hf hc hQ (.inl hnb)
        simp [he]
      · rcases s.entry b with _ | e <;> simp [hnb]

/-- Closing unlinks a file from the list of its mount. -/
theorem Linked.closedFile_queue (g : Option (File N)) :
    (s.closedFile a m g).queue (update Q m (A ++ B)) =
      update (s.queue Q) m (Intrusive.remove s.links (s.queue Q m) a).2 := by
  have hlists := closedFile_lists (m := m) hf hc g
  obtain ⟨hnext, hprev⟩ := State.links_of_counted hf hc
  obtain ⟨-, hp, hne⟩ := h.neighbours hf hc hQ
  have hmount := List.getElem?_eq_getElem (h.mounted m a (by simp [hQ]))
  have hlist := h.family.isList m
  rw [hQ] at hlist
  funext k
  by_cases hk : k = m
  · subst hk
    rw [update_self]
    apply Queue.ext
    · rw [(Intrusive.remove_spec hne).2.2.1, hprev, hnext]
      have hhead := hlist.head
      rcases hpn : f.vfsPrevious with _ | p
      · -- Without a previous file `a` is the head.
        have hA : A = [] := List.getLast?_eq_none_iff.1 (hp.symm.trans hpn)
        rw [hA] at hhead
        rw [if_pos ⟨rfl, hhead⟩]
        simp [State.queue, hlists, hmount, hpn]
      · simp [State.queue, hlists, hmount, hpn, Mount.list]
    · have htail := ((h.family.remove hQ).isList k).tail
      rw [update_self] at htail
      exact htail.symm
    · have hcount := h.family.count k
      rw [hQ] at hcount
      rw [Intrusive.remove_count]
      simp only [State.queue, hmount, Option.map_some, Option.getD_some, Mount.list,
        List.length_append, List.length_cons] at hcount
      simp only [State.queue, hlists, hmount, Option.map_some, Option.getD_some, Mount.list,
        if_true]
      rw [UInt32.toNat_sub_of_le]
      · rfl
      · rw [UInt32.le_iff_toNat_le, hcount]
        exact Nat.le_add_left _ _
  · simp [State.queue, hlists, Ne.symm hk, update_of_ne hk]

omit hf hc in
theorem Linked.mem_unlinked (k : Nat) (b : Addr) :
    b ∈ update Q m (A ++ B) k ↔ b ∈ Q k ∧ b ≠ a := by
  by_cases hk : k = m
  · subst hk
    have hnodup := (h.family.isList k).nodup
    rw [hQ, List.nodup_middle, List.nodup_cons] at hnodup
    rw [update_self, hQ]
    constructor
    · intro hb
      refine ⟨?_, fun heq => hnodup.1 (heq ▸ hb)⟩
      rcases List.mem_append.1 hb with hb | hb <;> simp [hb]
    · rintro ⟨hb, hba⟩
      simpa [hba] using hb
  · rw [update_of_ne hk]
    refine ⟨fun hb => ⟨hb, ?_⟩, fun hb => hb.1⟩
    rintro rfl
    exact hk (h.family.disjoint k m b hb (by simp [hQ]))

theorem Linked.close {g : Option (File N)} (hg : ∀ f', g = some f' → f'.vfsOpenCounted = false) :
    Linked (s.closedFile a m g) (update Q m (A ++ B)) := by
  have hentry := closedFile_entry (m := m) hf hc hg
  have hsub := h.mem_unlinked hQ
  refine ⟨?_, ?_, ?_, ?_, fun k b hb => h.address k b ((hsub k b).1 hb).1⟩
  · rw [h.closedFile_links hf hc hQ hg, h.closedFile_queue hf hc hQ]
    exact h.family.remove hQ
  · intro k b hb
    obtain ⟨hbQ, hba⟩ := (hsub k b).1 hb
    obtain ⟨e, he, hem, hen⟩ := h.member k b hbQ
    rw [hentry, if_neg hba, he]
    exact ⟨_, rfl, hem, hen⟩
  · intro b e he
    rw [hentry] at he
    by_cases hb : b = a
    · rw [if_pos hb] at he
      cases he
    · rw [if_neg hb, Option.map_eq_some_iff] at he
      obtain ⟨e', he', -⟩ := he
      obtain ⟨k, hk⟩ := h.listed b e' he'
      exact ⟨k, (hsub k b).2 ⟨hk, hb⟩⟩
  · intro k b hb
    have hk := h.mounted k b ((hsub k b).1 hb).1
    have hl := closedFile_lists (m := m) hf hc g k
    rw [List.getElem?_eq_getElem hk] at hl
    rcases hk' : (s.closedFile a m g).mounts[k]? with _ | mount
    · rw [hk'] at hl
      split at hl <;> simp at hl
    · exact (List.getElem?_eq_some_iff.1 hk').1

end Unlink

end Close

/-! ## The callers -/

/-- A live file object and what its holders know about it. -/
structure Agrees (f : File N) (h : Handle) : Prop where
  counted : f.vfsOpenCounted = h.isOpen
  isClosed : f.isClosed = !h.isOpen
  parent : f.parent = h.isOpen
  references : f.referenceCount = h.references + (if h.isOpen then 1 else 0)
  held : 1 ≤ h.references
  mountPoint : ∃ m, f.mountPoint = some m

/-- The file objects are those that someone holds. -/
def AgreesAt : Option (File N) → Option Handle → Prop
  | some f, some h => Agrees f h
  | none, none => True
  | _, _ => False

/-- The lists are right, and so is what the callers know. -/
def Accounted (s : State V N) (v : View) : Prop :=
  (∃ Q, Linked s Q) ∧ ∀ a, AgreesAt (s.files a) (v a)

namespace View

@[simp] theorem set_self (v : View) (a : Addr) (h : Option Handle) : v.set a h a = h := if_pos rfl

theorem set_of_ne (v : View) {a b : Addr} (h : Option Handle) (hb : b ≠ a) : v.set a h b = v b :=
  if_neg hb

@[simp] theorem set_set (v : View) (a : Addr) (h h' : Option Handle) :
    (v.set a h).set a h' = v.set a h' := by
  funext b
  by_cases hb : b = a
  · rw [hb, set_self, set_self]
  · rw [set_of_ne _ _ hb, set_of_ne _ _ hb, set_of_ne _ _ hb]

theorem set_eq_self {v : View} {a : Addr} {h : Option Handle} (ha : v a = h) : v.set a h = v := by
  funext b
  by_cases hb : b = a
  · rw [hb, set_self, ha]
  · rw [set_of_ne _ _ hb]

end View

section Callers
variable {s s' : State V N} {v : View} {a : Addr}

theorem AgreesAt.dead {f : Option (File N)} {h : Option Handle} (hf : f = none)
    (hagrees : AgreesAt f h) : h = none := by
  subst hf
  rcases h with _ | h
  · rfl
  · exact hagrees.elim

theorem AgreesAt.held {f : Option (File N)} {h : Handle} (hagrees : AgreesAt f (some h)) :
    ∃ f', f = some f' ∧ Agrees f' h := by
  rcases f with _ | f
  · exact hagrees.elim
  · exact ⟨f, rfl, hagrees⟩

theorem AgreesAt.map {f : Option (File N)} {h : Option Handle} {g : File N → File N}
    (hagrees : AgreesAt f h) (hg : ∀ f h, Agrees f h → Agrees (g f) h) : AgreesAt (f.map g) h := by
  rcases f with _ | f <;> rcases h with _ | h
  · trivial
  · exact hagrees.elim
  · exact hagrees.elim
  · exact hg f h hagrees

theorem Accounted.same (h : Accounted s v) (hs : SameFiles s s') : Accounted s' v := by
  obtain ⟨⟨Q, hQ⟩, hv⟩ := h
  refine ⟨⟨Q, hQ.congr (fun a => ?_) hs.2⟩, fun a => ?_⟩
  · unfold State.entry
    rw [hs.1]
  · rw [hs.1]
    exact hv a

theorem Accounted.opened (h : Accounted s v) (hs : OpenedAt s a s') (hdead : s.files a = none)
    (haddress : a ≠ 0 ∧ a < 2 ^ 32) : Accounted s' (v.set a (some ⟨1, true⟩)) := by
  obtain ⟨⟨Q, hQ⟩, hv⟩ := h
  obtain ⟨m, s₁, hbuild, hm, rfl⟩ := hs
  obtain ⟨f, hf, hpub⟩ := hbuild.1
  have hlinked := hbuild.linked hQ hdead fun f hf => hf.counted
  have hm₁ : m < s₁.mounts.length := hbuild.2.2.symm.lt_length (List.getElem?_eq_getElem hm)
  refine ⟨⟨_, hlinked.link hf hpub hm₁ haddress⟩, fun b => ?_⟩
  rw [linkFile_files (List.getElem?_eq_getElem hm₁)]
  by_cases hb : b = a
  · subst hb
    rw [hf, View.set_self]
    exact ⟨if_pos rfl, hpub.isClosed, hpub.parent, hpub.references, le_refl 1, m, hpub.mountPoint⟩
  · rw [View.set_of_ne _ _ hb, hbuild.2.1 b hb]
    refine (hv b).map fun g hd hagrees => ?_
    obtain ⟨h₁, h₂, h₃, h₄, h₅, h₆⟩ := hagrees
    exact ⟨by simpa [hb] using h₁, h₂, h₃, h₄, h₅, h₆⟩

theorem Accounted.put (h : Accounted s v) {f : File N} (hf : s.files a = some f)
    {g : Option (File N)} {hd : Option Handle} (hentry : g.bind File.entry = f.entry)
    (hg : AgreesAt g hd) : Accounted (s.put a g) (v.set a hd) := by
  obtain ⟨⟨Q, hQ⟩, hv⟩ := h
  refine ⟨⟨Q, hQ.congr (fun b => ?_) fun _ => rfl⟩, fun b => ?_⟩
  · unfold State.entry
    by_cases hb : b = a
    · rw [hb, State.put_files_self, hentry, hf]
      rfl
    · rw [State.put_files_of_ne _ _ hb]
  · by_cases hb : b = a
    · rw [hb, State.put_files_self, View.set_self]
      exact hg
    · rw [State.put_files_of_ne _ _ hb, View.set_of_ne _ _ hb]
      exact hv b

theorem Accounted.closed (h : Accounted s v) {f : File N} {m : Nat} (hf : s.files a = some f)
    (hc : f.vfsOpenCounted = true) (hm : f.mountPoint = some m) {g : Option (File N)}
    {hd : Option Handle} (hcounted : ∀ f', g = some f' → f'.vfsOpenCounted = false)
    (hg : AgreesAt g hd) : Accounted (s.closedFile a m g) (v.set a hd) := by
  obtain ⟨⟨Q, hQ⟩, hv⟩ := h
  obtain ⟨A, B, hsplit⟩ := List.append_of_mem (hQ.mem hf hc hm)
  refine ⟨⟨_, hQ.close hf hc hsplit hcounted⟩, fun b => ?_⟩
  unfold State.closedFile
  by_cases hb : b = a
  · rw [hb, State.put_files_self, View.set_self]
    exact hg
  · rw [State.put_files_of_ne _ _ hb, View.set_of_ne _ _ hb]
    rw [closeLocked_files_of_ne hf m hb, if_pos hc]
    refine (hv b).map fun g hd hagrees => ?_
    obtain ⟨h₁, h₂, h₃, h₄, h₅, h₆⟩ := hagrees
    exact ⟨h₁, h₂, h₃, h₄, h₅, h₆⟩

/-! ## The calls -/

theorem Accounted.closeFile (h : Accounted s v) (ha : (v a).isSome) :
    ∃ s', Vfs.closeFile (some a) s = (.ok (), s') ∧ Accounted s' (v.close a) := by
  obtain ⟨hd, hva⟩ := Option.isSome_iff_exists.1 ha
  obtain ⟨f, hf, hagrees⟩ := (hva ▸ h.2 a : AgreesAt (s.files a) (some hd)).held
  obtain ⟨m, hm⟩ := hagrees.mountPoint
  have hheld := hagrees.held
  have hrefs := hagrees.references
  unfold View.close
  rw [hva]
  rcases hd with ⟨references, _ | _⟩
  · -- It was closed before.
    refine ⟨s, closeFileWith_closed hf hm hagrees.isClosed, ?_⟩
    rw [Option.map_some, View.set_eq_self hva]
    exact h
  · refine ⟨_, closeFileWith_open (n := 2) hf hm hagrees.isClosed hagrees.parent
      (by rw [hrefs]; exact Nat.succ_le_succ hheld), ?_⟩
    apply h.closed hf hagrees.counted hm
    · rintro f' hf'
      rw [← Option.some.inj hf']
      rfl
    · refine ⟨rfl, rfl, rfl, ?_, hheld, m, hm⟩
      rw [hrefs]
      rfl

theorem Accounted.retain (h : Accounted s v) (ha : (v a).isSome) :
    ∃ s', Vfs.retain a s = (.ok (), s') ∧ Accounted s' (v.hold a) := by
  obtain ⟨hd, hva⟩ := Option.isSome_iff_exists.1 ha
  obtain ⟨f, hf, hagrees⟩ := (hva ▸ h.2 a : AgreesAt (s.files a) (some hd)).held
  refine ⟨_, retain_eq hf, ?_⟩
  unfold View.hold
  rw [hva]
  apply h.put hf rfl
  obtain ⟨h₁, h₂, h₃, h₄, h₅, h₆⟩ := hagrees
  refine ⟨h₁, h₂, h₃, ?_, Nat.le_succ_of_le h₅, h₆⟩
  rw [h₄]
  exact add_right_comm _ _ _

/-- Dropping a reference: one of several, the last one to an open file, or the last one to a
closed file. -/
theorem Accounted.release (h : Accounted s v) (ha : (v a).isSome) :
    ∃ s', Vfs.release a s = (.ok (), s') ∧ Accounted s' (v.drop a) := by
  obtain ⟨hd, hva⟩ := Option.isSome_iff_exists.1 ha
  obtain ⟨f, hf, hagrees⟩ := (hva ▸ h.2 a : AgreesAt (s.files a) (some hd)).held
  obtain ⟨m, hm⟩ := hagrees.mountPoint
  have hheld := hagrees.held
  have hrefs := hagrees.references
  have hparent := hagrees.parent
  unfold View.drop Vfs.release
  rw [hva, Option.bind_some]
  by_cases hlast : hd.references ≤ 1
  · rw [if_pos hlast]
    rcases hd with ⟨references, _ | _⟩
    · have hone : f.referenceCount = 1 := by
        dsimp only at hrefs hheld hlast
        simp only [Bool.false_eq_true, if_false] at hrefs
        omega
      refine ⟨_, releaseWith_last (n := 2) hf hone hagrees.isClosed, h.put hf ?_ trivial⟩
      simp [File.entry, hagrees.counted]
    · have htwo : f.referenceCount = 2 := by
        dsimp only at hrefs hheld hlast
        simp only [if_true] at hrefs
        omega
      exact ⟨_, releaseWith_auto (n := 1) hf hm hagrees.isClosed hparent htwo,
        h.closed hf hagrees.counted hm (fun _ hn => nomatch hn) trivial⟩
  · rw [if_neg hlast]
    have hclose : ¬(f.referenceCount = 2 ∧ f.parent) := by
      rintro ⟨htwo, hp⟩
      rw [hparent] at hp
      rw [hp, if_pos rfl] at hrefs
      omega
    have hmany : f.referenceCount ≠ 1 := by omega
    refine ⟨_, releaseWith_keep (n := 2) hf hclose hmany, h.put hf rfl ?_⟩
    obtain ⟨h₁, h₂, h₃, h₄, h₅, h₆⟩ := hagrees
    refine ⟨h₁, h₂, h₃, ?_, ?_, h₆⟩
    · dsimp only
      omega
    · dsimp only
      omega

/-- Storage that the callers do not know about. -/
def Allocation.FreshIn (memory : Allocation) (v : View) : Prop :=
  ∀ a, memory.storage = some a → v a = none ∧ a ≠ 0 ∧ a < 2 ^ 32

theorem Accounted.freshIn (h : Accounted s v) {memory : Allocation} (hfresh : memory.Fresh s) :
    memory.FreshIn v := fun a ha =>
  ⟨(h.2 a).dead (hfresh a ha).1, (hfresh a ha).2⟩

theorem Accounted.fresh (h : Accounted s v) {memory : Allocation} (hfresh : memory.FreshIn v) :
    memory.Fresh s := by
  intro a ha
  obtain ⟨hdead, haddress⟩ := hfresh a ha
  refine ⟨?_, haddress⟩
  have hagrees := h.2 a
  rw [hdead] at hagrees
  rcases hf : s.files a with _ | f
  · rfl
  · rw [hf] at hagrees
    exact hagrees.elim

theorem openFile_accounted (path : Path) (mode : OpenMode) {memory : Allocation}
    (hfresh : memory.FreshIn v) :
    Triple (fun s : State V N => Accounted s v) (openFile path mode memory)
      (fun a s => Accounted s (v.set a (some ⟨1, true⟩)) ∧ memory.storage = some a)
      (fun _ s => Accounted s v) := by
  intro s h
  have hspec := openFile_spec path mode (h.fresh hfresh) s rfl
  rcases hrun : openFile path mode memory s with ⟨a | e | _, s'⟩
  · rw [hrun] at hspec
    obtain ⟨hstorage, hopened⟩ := hspec
    exact ⟨h.opened hopened (h.fresh hfresh a hstorage).1 (hfresh a hstorage).2, hstorage⟩
  · rw [hrun] at hspec
    exact h.same hspec
  · trivial

theorem onVolume_accounted {α : Type} (m : Nat) (callback : Prog V KernelError α) :
    Triple (fun s : State V N => Accounted s v) (onVolume m callback) (fun _ s => Accounted s v)
      (fun _ s => Accounted s v) := by
  intro s h
  unfold onVolume
  rcases s.mounts[m]? with _ | mount
  · trivial
  · have hset : ∀ volume, Accounted (s.setMount m fun mount => { mount with volume }) v :=
      fun volume => h.same ⟨rfl, sameLists_setMount fun _ => rfl⟩
    dsimp only
    rcases callback mount.volume with ⟨_ | _ | _, volume⟩
    · exact hset volume
    · exact hset volume
    · trivial

section Reading
variable {P : State V N → Prop}

theorem getFile_keeps (a : Addr) : Triple P (getFile a) (fun _ => P) (fun _ => P) := by
  intro s h
  unfold getFile
  rcases s.files a with _ | f
  · trivial
  · exact h

theorem getMount_keeps (m : Nat) : Triple P (getMount m) (fun _ => P) (fun _ => P) := by
  intro s h
  unfold getMount
  rcases s.mounts[m]? with _ | mount
  · trivial
  · exact h

theorem nodeOf_keeps (f : File N) : Triple P (nodeOf f) (fun _ => P) (fun _ => P) := by
  unfold nodeOf
  rcases f.vfsNode with _ | node
  · exact Triple.diverge
  · exact Triple.pure fun _ h => h

theorem busyFrom_keeps (parent : Addr) (target : Option Addr) (source : Path) (fuel : Nat)
    (first : Option Addr) :
    Triple P (busyFrom parent target source fuel first) (fun _ => P) (fun _ => P) := by
  induction fuel generalizing first with
  | zero =>
    rcases first with _ | a
    · exact Triple.pure fun _ h => h
    · exact Triple.diverge
  | succ fuel ih =>
    rcases first with _ | a
    · exact Triple.pure fun _ h => h
    · refine Triple.bind (getFile_keeps a) fun f => ?_
      refine Triple.ite (fun _ => ih f.vfsNext) fun _ => ?_
      rcases f.vfsNode with _ | node
      · exact Triple.diverge
      · refine Triple.ite (fun _ => Triple.pure fun _ h => h) fun _ => ?_
        exact Triple.ite (fun _ => Triple.pure fun _ h => h) fun _ => ih f.vfsNext

end Reading

theorem operateLocked_accounted (operation : FileOperation) (source destination : Path)
    (parent : Addr) (target : Option Addr) : Triple (fun s : State V N => Accounted s v)
      (operateLocked operation source destination parent target) (fun _ s => Accounted s v)
      (fun _ s => Accounted s v) := by
  have hthrow : ∀ e : KernelError, Triple (fun s : State V N => Accounted s v)
      (Prog.throw e : Op V N Unit) (fun _ s => Accounted s v) (fun _ s => Accounted s v) :=
    fun e => Triple.throw fun _ h => h
  refine Triple.bind (getFile_keeps parent) fun p => ?_
  rcases p.mountPoint with _ | m
  · exact Triple.diverge
  refine Triple.bind (getMount_keeps m) fun mount => ?_
  refine Triple.bind (busyFrom_keeps _ _ _ _ _) fun busy => ?_
  refine Triple.bind (R := fun _ s => Accounted s v) (Triple.get fun _ h => h) fun s => ?_
  refine Triple.bind (nodeOf_keeps p) fun node => ?_
  rcases target with _ | t
  · refine Triple.ite (fun _ => hthrow _) fun _ => ?_
    refine Triple.ite (fun _ => hthrow _) fun _ => ?_
    refine Triple.ite (fun _ => hthrow _) fun _ => ?_
    rcases mount.fileSystem.bind (·.operateFile) with _ | operate
    · exact hthrow _
    · exact onVolume_accounted m _
  · refine Triple.bind (getFile_keeps t) fun d => ?_
    refine Triple.bind (nodeOf_keeps d) fun destinationNode => ?_
    refine Triple.ite (fun _ => hthrow _) fun _ => ?_
    refine Triple.ite (fun _ => hthrow _) fun _ => ?_
    refine Triple.ite (fun _ => hthrow _) fun _ => ?_
    refine Triple.ite (fun _ => hthrow _) fun _ => ?_
    rcases mount.fileSystem.bind (·.operateFile) with _ | operate
    · exact hthrow _
    · exact onVolume_accounted m _

theorem closeTemporary_accounted (ha : v a = none) {E : KernelError → State V N → Prop} :
    Triple (fun s : State V N => Accounted s (v.set a (some ⟨1, true⟩))) (closeTemporary a)
      (fun _ s => Accounted s v) E := by
  intro s h
  obtain ⟨s₁, hclose, h₁⟩ := h.closeFile (a := a) (by simp)
  have hview : (v.set a (some ⟨1, true⟩)).close a = v.set a (some ⟨1, false⟩) := by
    unfold View.close
    rw [View.set_set, View.set_self]
    rfl
  rw [hview] at h₁
  obtain ⟨s₂, hrelease, h₂⟩ := h₁.release (a := a) (by simp)
  have hview' : (v.set a (some ⟨1, false⟩)).drop a = v := by
    unfold View.drop
    rw [View.set_set, View.set_self]
    exact View.set_eq_self ha
  rw [hview'] at h₂
  unfold closeTemporary
  rw [bind_ok (attempt_ok hclose), bind_ok hrelease]
  exact h₂

/-- The parents are opened for the call and closed again, whatever the driver answers. -/
theorem operateFile_accounted (operation : FileOperation) (source destination : Path)
    {parentMemory targetMemory : Allocation} (hparent : parentMemory.FreshIn v)
    (htarget : targetMemory.FreshIn v)
    (hapart : parentMemory.storage = targetMemory.storage → parentMemory.storage = none) :
    Triple (fun s : State V N => Accounted s v)
      (operateFile operation source destination parentMemory targetMemory)
      (fun _ s => Accounted s v) (fun _ s => Accounted s v) := by
  refine Triple.ite (fun _ => Triple.throw fun _ h => h) fun _ => ?_
  refine Triple.bind (openFile_accounted _ _ hparent) fun parent => Triple.assume fun hp => ?_
  have hvp : v parent = none := (hparent parent hp).1
  refine Triple.ite (fun _ => ?_) fun _ => ?_
  · -- With a destination: its parent is opened beside the other one.
    have hfresh : targetMemory.FreshIn (v.set parent (some ⟨1, true⟩)) := by
      intro t ht
      have hne : t ≠ parent := by
        rintro rfl
        have hnone := hapart (hp.trans ht.symm)
        rw [hp] at hnone
        cases hnone
      rw [View.set_of_ne _ _ hne]
      exact htarget t ht
    refine Triple.bind
      (R := fun r => match r with
        | .ok t => fun s => Accounted s ((v.set parent (some ⟨1, true⟩)).set t (some ⟨1, true⟩)) ∧
            targetMemory.storage = some t
        | .error _ => fun s => Accounted s (v.set parent (some ⟨1, true⟩)))
      (Triple.attempt (openFile_accounted _ _ hfresh)) fun opened => ?_
    rcases opened with e | target
    · refine Triple.bind (closeTemporary_accounted hvp) fun _ => ?_
      exact Triple.throw fun _ h => h
    · refine Triple.assume fun ht => ?_
      refine Triple.bind
        (R := fun _ s => Accounted s ((v.set parent (some ⟨1, true⟩)).set target (some ⟨1, true⟩)))
        (Triple.attempt (operateLocked_accounted _ _ _ _ _)) fun status => ?_
      refine Triple.bind (closeTemporary_accounted (hfresh target ht).1) fun closedTarget => ?_
      refine Triple.bind (closeTemporary_accounted hvp) fun closedParent => ?_
      exact Triple.ofExcept (fun _ _ _ h => h) fun _ _ _ h => h
  · refine Triple.bind (R := fun _ s => Accounted s (v.set parent (some ⟨1, true⟩)))
      (Triple.attempt (operateLocked_accounted _ _ _ _ _)) fun status => ?_
    refine Triple.bind (closeTemporary_accounted hvp) fun closedParent => ?_
    exact Triple.ofExcept (fun _ _ _ h => h) fun _ _ _ h => h

theorem unmountVolume_accounted (mountPoint : Path) :
    Triple (fun s : State V N => Accounted s v) (unmountVolume mountPoint)
      (fun _ s => Accounted s v) (fun _ s => Accounted s v) := by
  refine Triple.bind (R := fun _ s => Accounted s v) (Triple.get fun _ h => h) fun s => ?_
  rcases findMountChild s mountPoint with _ | m
  · exact Triple.throw fun _ h => h
  refine Triple.bind (getMount_keeps m) fun mount => ?_
  refine Triple.ite (fun _ => Triple.throw fun _ h => h) fun _ => ?_
  refine Triple.ite (fun _ => Triple.throw fun _ h => h) fun _ => ?_
  have hdone : Triple (fun s : State V N => Accounted s v)
      (Prog.modify fun s : State V N =>
        { s.setMount m fun mount => { mount with isMounted := false } with
          vfsDirectory := s.vfsDirectory.erase m } : Op V N Unit)
      (fun _ s => Accounted s v) (fun _ s => Accounted s v) :=
    Triple.modify fun s h => h.same ⟨rfl, sameLists_setMount fun _ => rfl⟩
  rcases mount.fileSystem.bind (·.unmountVolume) with _ | callback
  · exact hdone
  · exact Triple.bind (onVolume_accounted m callback) fun _ => hdone

theorem publishMount_accounted {mount : Mount V N} (hcount : mount.openFileCount = 0)
    (hfirst : mount.openFiles = none) :
    Triple (fun s : State V N => Accounted s v) (publishMount mount) (fun _ s => Accounted s v)
      (fun _ s => Accounted s v) := by
  refine Triple.bind (R := fun _ s => Accounted s v) (Triple.get fun _ h => h) fun s => ?_
  refine Triple.ite (fun _ => Triple.throw fun _ h => h) fun _ => Triple.modify ?_
  rintro s ⟨⟨Q, hQ⟩, hv⟩
  refine ⟨⟨Q, hQ.of_queue (fun _ => rfl) ?_ (by simp)⟩, hv⟩
  funext m
  unfold State.queue
  rcases lt_trichotomy m s.mounts.length with hm | rfl | hm
  · rw [List.getElem?_append_left hm]
  · simp [Mount.list, hcount, hfirst]
  · have hout : (s.mounts ++ [mount])[m]? = none := by
      simp
      omega
    rw [hout, List.getElem?_eq_none (by omega)]

theorem mountVolume_accounted (volume : V) (filesystem mountPoint options : Path) :
    Triple (fun s : State V N => Accounted s v) (mountVolume volume filesystem mountPoint options)
      (fun _ s => Accounted s v) (fun _ s => Accounted s v) := by
  refine Triple.bind (R := fun _ s => Accounted s v) (Triple.get fun _ h => h) fun s => ?_
  refine Triple.ite (fun _ => Triple.throw fun _ h => h) fun _ => ?_
  refine Triple.ite (fun _ => Triple.throw fun _ h => h) fun _ => ?_
  rcases findFileSystem s filesystem with _ | fileSystem
  · exact Triple.throw fun _ h => h
  · dsimp only
    rcases fileSystem.mountVolume with _ | callback
    · exact Triple.throw fun _ h => h
    · dsimp only
      rcases callback options volume with ⟨_ | _ | _, volume'⟩
      · exact publishMount_accounted rfl rfl
      · exact Triple.throw fun _ h => h
      · exact Triple.diverge

end Callers

/-! ## Runs -/

theorem exec_none {x : Op V N Unit} {P R : State V N → Prop}
    (h : Triple P x (fun _ => R) fun _ => R) {out : Outcome KernelError (Option Addr)} (hs : P s)
    (hrun : (do x; pure none : Op V N (Option Addr)) s = (out, s')) (hout : out ≠ .stuck) :
    R s' := by
  have htriple : Triple P (do x; pure none : Op V N (Option Addr)) (fun _ => R) fun _ => R :=
    Triple.bind h fun _ => Triple.pure fun _ h => h
  rcases out with r | e | _
  · exact htriple.of_ok hs hrun
  · exact htriple.of_err hs hrun
  · exact absurd rfl hout

/-- One call keeps the accounts, whether it succeeds or fails. -/
theorem Accounted.step {p q : State V N × View} {call : Call V} (h : Accounted p.1 p.2)
    (hstep : Step p call q) : Accounted q.1 q.2 := by
  obtain ⟨s, v⟩ := p
  obtain ⟨s', v'⟩ := q
  obtain ⟨hpermitted, out, hrun, hout, hview⟩ := hstep
  subst hview
  cases call with
  | mount volume filesystem mountPoint options =>
    exact exec_none (mountVolume_accounted volume filesystem mountPoint options) h hrun hout
  | unmount mountPoint => exact exec_none (unmountVolume_accounted mountPoint) h hrun hout
  | openFile path mode memory =>
    -- The caller owns the new file, with one reference.
    have hopen := openFile_accounted (V := V) (N := N) path mode (h.freshIn hpermitted)
    have htriple : Triple (fun s : State V N => Accounted s v)
        (Call.openFile path mode memory).exec
        (fun r s => ∃ a, r = some a ∧ Accounted s (v.set a (some ⟨1, true⟩)))
        (fun _ s => Accounted s v) :=
      Triple.bind hopen fun a => Triple.pure fun s hs => ⟨a, rfl, hs.1⟩
    rcases out with r | e | _
    · obtain ⟨a, rfl, hs⟩ := htriple.of_ok h hrun
      exact hs
    · exact htriple.of_err h hrun
    · exact absurd rfl hout
  | closeFile file =>
    rcases file with _ | a
    · exact exec_none (R := fun s => Accounted s v) (Triple.throw fun _ h => h) h hrun hout
    · obtain ⟨s₁, hclose, h₁⟩ := h.closeFile hpermitted
      have hexec : (Call.closeFile (V := V) (some a)).exec s = (.ok none, s₁) := bind_ok hclose
      rw [hexec] at hrun
      cases hrun
      exact h₁
  | retain a =>
    obtain ⟨s₁, hretain, h₁⟩ := h.retain hpermitted
    have hexec : (Call.retain (V := V) a).exec s = (.ok none, s₁) := bind_ok hretain
    rw [hexec] at hrun
    cases hrun
    exact h₁
  | release a =>
    obtain ⟨s₁, hrelease, h₁⟩ := h.release hpermitted
    have hexec : (Call.release (V := V) a).exec s = (.ok none, s₁) := bind_ok hrelease
    rw [hexec] at hrun
    cases hrun
    exact h₁
  | operateFile operation source destination parentMemory targetMemory =>
    obtain ⟨hparent, htarget, hapart⟩ := hpermitted
    exact exec_none (operateFile_accounted operation source destination (h.freshIn hparent)
      (h.freshIn htarget) hapart) h hrun hout

theorem accounted_booted (fileSystems : List (Path × FileSystem V N)) :
    Accounted (State.booted fileSystems) fun _ => none := by
  refine ⟨⟨fun _ => [], ?_⟩, fun _ => trivial⟩
  refine ⟨Intrusive.isFamily_empty fun m => rfl, ?_, ?_, ?_, ?_⟩
  · intro m a ha
    simp at ha
  · intro a e he
    simp [State.entry, State.booted] at he
  · intro m a ha
    simp at ha
  · intro m a ha
    simp at ha

/-- The open files of a mount, in the order of their links. -/
structure OpenList (s : State V N) (mount : Mount V N) (L : List Addr) : Prop where
  nodup : L.Nodup
  first : mount.openFiles = L.head?
  linked : ∀ A a B, L = A ++ a :: B →
    ∃ f, s.files a = some f ∧ f.vfsNext = B.head? ∧ f.vfsPrevious = A.getLast?

/-- The accounts of every mount: the counter is the length of the list, the list is doubly
linked and holds the files of the mount that are open for their holders, each with a node. -/
def OpenFilesRight (s : State V N) (v : View) : Prop :=
  ∀ (m : Nat) (mount : Mount V N), s.mounts[m]? = some mount → ∃ L : List Addr,
    OpenList s mount L ∧ mount.openFileCount.toNat = L.length ∧
    (∀ a, a ∈ L ↔ (∃ h, v a = some h ∧ h.isOpen = true) ∧
      ∃ f, s.files a = some f ∧ f.mountPoint = some m) ∧
    ∀ a ∈ L, ∃ f, s.files a = some f ∧ f.vfsNode.isSome

theorem State.entry_eq_some {a : Addr} {e : Entry} (h : s.entry a = some e) :
    ∃ f, s.files a = some f ∧ f.vfsOpenCounted = true ∧
      e = ⟨f.mountPoint, f.vfsNode.isSome, f.vfsNext, f.vfsPrevious⟩ := by
  obtain ⟨f, hf, he⟩ := Option.bind_eq_some_iff.1 h
  unfold File.entry at he
  split at he
  · exact ⟨f, hf, ‹_›, (Option.some.inj he).symm⟩
  · cases he

theorem Accounted.right {v : View} (h : Accounted s v) : OpenFilesRight s v := by
  obtain ⟨⟨Q, hQ⟩, hv⟩ := h
  intro m mount hm
  have hlist := hQ.family.isList m
  refine ⟨Q m, ⟨hlist.nodup, ?_, ?_⟩, ?_, ?_, ?_⟩
  · have hhead := hlist.head
    simp only [State.queue, hm] at hhead
    exact hhead
  · intro A a B hsplit
    obtain ⟨e, he, -⟩ := hQ.member m a (by simp [hsplit])
    obtain ⟨hnext, hprev⟩ := hlist.link A a B hsplit
    simp only [State.links, he] at hnext hprev
    obtain ⟨f, hf, -, rfl⟩ := State.entry_eq_some he
    exact ⟨f, hf, hnext, hprev⟩
  · have hcount := hQ.family.count m
    simpa only [State.queue, hm, Option.map_some, Option.getD_some, Mount.list] using hcount
  · intro a
    constructor
    · intro ha
      obtain ⟨e, he, hem, -⟩ := hQ.member m a ha
      obtain ⟨f, hf, hc, rfl⟩ := State.entry_eq_some he
      have hagrees := hv a
      rw [hf] at hagrees
      rcases hva : v a with _ | hd
      · rw [hva] at hagrees
        exact hagrees.elim
      · rw [hva] at hagrees
        exact ⟨⟨hd, rfl, hagrees.counted.symm.trans hc⟩, f, hf, hem⟩
    · rintro ⟨⟨hd, hva, hopen⟩, f, hf, hfm⟩
      have hagrees := hv a
      rw [hva, hf] at hagrees
      exact hQ.mem hf (hagrees.counted.trans hopen) hfm
  · intro a ha
    obtain ⟨e, he, -, hnode⟩ := hQ.member m a ha
    obtain ⟨f, hf, -, rfl⟩ := State.entry_eq_some he
    exact ⟨f, hf, hnode⟩

/-- In every run of calls, whatever fails in them, the accounts of all mounts are right. -/
theorem open_files_accounted {fileSystems : List (Path × FileSystem V N)}
    {run : List (Call V × State V N × View)}
    (h : Run Step (State.booted fileSystems, fun _ => none) run) :
    OpenFilesRight (lastState (State.booted fileSystems, fun _ => none) run).1
      (lastState (State.booted fileSystems, fun _ => none) run).2 :=
  (h.invariant (I := fun p => Accounted p.1 p.2) (accounted_booted fileSystems)
    fun _ _ _ hs hstep => hs.step hstep).right

/-- A driver whose every name is a file. -/
def flatDriver : FileSystem Unit Unit where
  mountVolume := some fun _ => pure ()
  getRootNode := some (pure { fsPrivate := (), type := .directory })
  lookup := some fun _ _ => pure { fsPrivate := (), type := .file }
  createHandle := some fun _ _ => pure ()

/-- Two files are opened on the root mount, and the first one is closed by its last reference. -/
theorem open_files_accounted_two : ∃ run : List (Call Unit × State Unit Unit × View),
      Run Step (State.booted [([70], flatDriver)], fun _ => none) run ∧ run.length = 4 ∧
      (lastState (State.booted [([70], flatDriver)], fun _ => none) run).2 32 = some ⟨1, true⟩ ∧
      OpenFilesRight (lastState (State.booted [([70], flatDriver)], fun _ => none) run).1
        (lastState (State.booted [([70], flatDriver)], fun _ => none) run).2 := by
  let s₀ : State Unit Unit × View := (State.booted [([70], flatDriver)], fun _ => none)
  let s₁ := Call.next s₀ (.mount () [70] [47] [])
  let s₂ := Call.next s₁ (.openFile [47, 97] 1 { storage := some 16 })
  let s₃ := Call.next s₂ (.openFile [47, 98] 1 { storage := some 32 })
  let s₄ := Call.next s₃ (.release 16)
  have hrun : Run Step s₀ [(.release 16, s₄), (.openFile [47, 98] 1 { storage := some 32 }, s₃),
      (.openFile [47, 97] 1 { storage := some 16 }, s₂), (.mount () [70] [47] [], s₁)] := by
    refine .cons (.cons (.cons (.cons .nil ?_) ?_) ?_) ?_
    · exact step_next trivial (by decide +kernel)
    · refine step_next (fun a ha => ?_) (by decide +kernel)
      cases ha
      exact ⟨rfl, by decide, by decide⟩
    · refine step_next (fun a ha => ?_) (by decide +kernel)
      cases ha
      exact ⟨rfl, by decide, by decide⟩
    · exact step_next (show (s₃.2 16).isSome = true by decide +kernel) (by decide +kernel)
  exact ⟨_, hrun, rfl, by decide +kernel, open_files_accounted hrun⟩

end UnDOS.Vfs
