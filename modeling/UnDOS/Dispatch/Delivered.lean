import Mathlib.Data.List.Basic
import UnDOS.Dispatch.HandOff

/-!
# What the Hand-Off Delivers

In every state of every run, for both machines: the records popped are a prefix of the records
pushed, the two parties are never at the same slot, and a record is refused only while 255 are
unread.  The consumer parks beside a record without a signal only if a signal was lost before
(`handOff_sound`).
-/

namespace UnDOS.Dispatch

open Function (update update_of_ne update_self)

variable {m : Machine} {α : Type}

/-! ## One ring -/

/-- The indices count the records, and the slots between them hold the unread ones. -/
structure RecordRing.Ok (r : RecordRing α) : Prop where
  head : r.head = r.pushed.length % kCapacity
  tail : r.tail = r.popped.length % kCapacity
  room : r.pushed.length < r.popped.length + kCapacity
  isPrefix : r.popped <+: r.pushed
  slots : ∀ i, r.popped.length ≤ i → i < r.pushed.length →
    r.pushed[i]? = some (r.slots (i % kCapacity))

namespace RecordRing.Ok

variable {r : RecordRing α}

theorem le (ok : r.Ok) : r.popped.length ≤ r.pushed.length := ok.isPrefix.length_le

theorem tail_eq_head_iff (ok : r.Ok) : r.tail = r.head ↔ r.pushed = r.popped := by
  have hle := ok.le
  have hroom := ok.room
  rw [ok.head, ok.tail]
  constructor
  · intro h
    have hlength : r.popped.length = r.pushed.length := by
      unfold kCapacity at *
      omega
    exact (ok.isPrefix.eq_of_length hlength).symm
  · intro h
    rw [h]

theorem full_iff (ok : r.Ok) :
    (r.head + 1) % kCapacity = r.tail ↔ r.pushed.length + 1 = r.popped.length + kCapacity := by
  have hle := ok.le
  have hroom := ok.room
  rw [ok.head, ok.tail]
  unfold kCapacity at *
  omega

theorem store (ok : r.Ok) (hroom : r.pushed.length + 1 < r.popped.length + kCapacity) (record : α) :
    ({ r with slots := update r.slots r.head record } : RecordRing α).Ok where
  head := ok.head
  tail := ok.tail
  room := ok.room
  isPrefix := ok.isPrefix
  slots i hlow hup := by
    have hne : i % kCapacity ≠ r.head := by
      rw [ok.head]
      change r.popped.length ≤ i at hlow
      change i < r.pushed.length at hup
      unfold kCapacity at *
      omega
    show r.pushed[i]? = some (update r.slots r.head record (i % kCapacity))
    rw [update_of_ne hne]
    exact ok.slots i hlow hup

theorem publish (ok : r.Ok) (hroom : r.pushed.length + 1 < r.popped.length + kCapacity)
    {record : α} (hslot : r.slots r.head = record) :
    ({ r with head := (r.head + 1) % kCapacity, pushed := r.pushed ++ [record] } :
      RecordRing α).Ok where
  head := by
    rw [ok.head, List.length_append, List.length_singleton, Nat.mod_add_mod]
  tail := ok.tail
  room := by
    rw [List.length_append]
    exact hroom
  isPrefix := ok.isPrefix.trans (List.prefix_append _ _)
  slots i hlow hup := by
    have hup : i < r.pushed.length + 1 := by
      have h : i < (r.pushed ++ [record]).length := hup
      rwa [List.length_append, List.length_singleton] at h
    rcases Nat.lt_succ_iff_lt_or_eq.1 hup with hlt | rfl
    · rw [List.getElem?_append_left hlt]
      exact ok.slots i hlow hlt
    · rw [List.getElem?_concat_length, ← ok.head, hslot]

theorem release (ok : r.Ok) {record : α} (hget : r.pushed[r.popped.length]? = some record) :
    ({ r with tail := (r.tail + 1) % kCapacity, popped := r.popped ++ [record] } :
      RecordRing α).Ok where
  head := ok.head
  tail := by
    rw [ok.tail, List.length_append, List.length_singleton, Nat.mod_add_mod]
  room := by
    have hroom := ok.room
    show r.pushed.length < (r.popped ++ [record]).length + kCapacity
    rw [List.length_append]
    omega
  isPrefix := by
    obtain ⟨unread, hunread⟩ := ok.isPrefix
    rw [← hunread, List.getElem?_append_right .refl, Nat.sub_self] at hget
    cases unread with
    | nil => cases hget
    | cons first rest =>
      cases hget
      exact ⟨rest, by rw [← hunread, List.append_assoc, List.singleton_append]⟩
  slots i hlow hup := by
    rw [List.length_append] at hlow
    exact ok.slots i (by omega) hup

end RecordRing.Ok

/-! ## The two parties -/

/-- What the producer knows about the ring it pushes to. -/
def ProducerOk (s : HandOff m α) : Producer m.Ring α → Prop
  | .check call head => head = (s.rings call.ring).head
  | .store call head => head = (s.rings call.ring).head ∧
      (s.rings call.ring).pushed.length + 1 < (s.rings call.ring).popped.length + kCapacity
  | .publish call head => head = (s.rings call.ring).head ∧
      (s.rings call.ring).pushed.length + 1 < (s.rings call.ring).popped.length + kCapacity ∧
      (s.rings call.ring).slots head = call.record
  | _ => True

/-- What the consumer knows about the ring it pops from. -/
def ConsumerOk (s : HandOff m α) : Consumer m.Ring α → Prop
  | .check k _ tail => tail = (s.rings k).tail
  | .load k _ tail => tail = (s.rings k).tail ∧
      (s.rings k).popped.length < (s.rings k).pushed.length
  | .release k _ tail record => tail = (s.rings k).tail ∧
      (s.rings k).pushed[(s.rings k).popped.length]? = some record
  | _ => True

/-- The rings are in order and each party's local copies are true. -/
structure Sound (s : HandOff m α) : Prop where
  rings : ∀ k, (s.rings k).Ok
  producer : ProducerOk s s.producer
  consumer : ConsumerOk s s.consumer

theorem Sound.init (slots : m.Ring → Nat → α) : Sound (HandOff.init slots) where
  rings k :=
    { head := rfl
      tail := rfl
      room := Nat.zero_lt_of_lt (by decide : 0 < kCapacity)
      isPrefix := List.prefix_rfl
      slots := fun i _ h => absurd h (Nat.not_lt_zero i) }
  producer := trivial
  consumer := trivial

theorem producerOk_nextCall (s : HandOff m α) (buffered : Bool) (rest : List (m.Ring × α)) :
    ProducerOk s (nextCall buffered rest) := by
  cases rest with
  | nil => cases buffered <;> exact trivial
  | cons call rest => exact trivial

theorem consumerOk_afterRing (s : HandOff m α) (k : m.Ring) (worked : Bool) :
    ConsumerOk s (m.afterRing k worked) := by
  unfold Machine.afterRing
  split
  · exact trivial
  · split <;> exact trivial

variable {s t : HandOff m α}

theorem Sound.congr (S : Sound s) (hrings : t.rings = s.rings)
    (hproducer : ProducerOk t t.producer) (hconsumer : ConsumerOk t t.consumer) : Sound t where
  rings := by rw [hrings]; exact S.rings
  producer := hproducer
  consumer := hconsumer

/-! ## Steps of the producer -/

theorem ConsumerOk.update {c : Consumer m.Ring α} (hc : ConsumerOk s c)
    {k : m.Ring} {r : RecordRing α}
    (hrings : t.rings = update s.rings k r) (htail : r.tail = (s.rings k).tail)
    (hpopped : r.popped = (s.rings k).popped) (hpushed : (s.rings k).pushed <+: r.pushed) :
    ConsumerOk t c := by
  have hring : ∀ j, (t.rings j).tail = (s.rings j).tail ∧ (t.rings j).popped = (s.rings j).popped ∧
      (s.rings j).pushed <+: (t.rings j).pushed := by
    intro j
    rw [hrings]
    by_cases hj : j = k
    · subst hj
      rw [update_self]
      exact ⟨htail, hpopped, hpushed⟩
    · rw [update_of_ne hj]
      exact ⟨rfl, rfl, List.prefix_rfl⟩
  cases c with
  | pop j worked => exact trivial
  | check j worked tail => exact (hc : tail = _).trans (hring j).1.symm
  | load j worked tail =>
    obtain ⟨htail, hlt⟩ := hc
    refine ⟨htail.trans (hring j).1.symm, ?_⟩
    rw [(hring j).2.1]
    exact Nat.lt_of_lt_of_le hlt (hring j).2.2.length_le
  | release j worked tail record =>
    obtain ⟨htail, hget⟩ := hc
    refine ⟨htail.trans (hring j).1.symm, ?_⟩
    rw [(hring j).2.1]
    obtain ⟨more, hmore⟩ := (hring j).2.2
    rw [← hmore, List.getElem?_append_left (List.getElem?_eq_some_iff.1 hget).1]
    exact hget
  | wait => exact trivial
  | parked => exact trivial

theorem Sound.signal (S : Sound s) :
    s.signal.rings = s.rings ∧ ConsumerOk s.signal s.signal.consumer := by
  unfold HandOff.signal
  split
  · exact ⟨rfl, trivial⟩
  · exact ⟨rfl, S.consumer⟩

/-- A step of the producer, between any steps of the consumer, keeps the rings in order. -/
theorem Sound.produce (S : Sound s) (batch : List (m.Ring × α)) : Sound (produce batch s) := by
  have hp := S.producer
  unfold Dispatch.produce
  cases hpc : s.producer with
  | idle => exact S.congr rfl (producerOk_nextCall _ _ _) S.consumer
  | push call => exact S.congr rfl rfl S.consumer
  | check call head =>
    rw [hpc] at hp
    dsimp only
    split
    · exact S.congr rfl (producerOk_nextCall _ _ _) S.consumer
    · rename_i hfull
      refine S.congr rfl ⟨hp, ?_⟩ S.consumer
      have hroom := (S.rings call.ring).room
      have hne : ¬(s.rings call.ring).pushed.length + 1 =
          (s.rings call.ring).popped.length + kCapacity := by
        rw [← (S.rings call.ring).full_iff, ← (hp : head = _)]
        exact hfull
      show (s.rings call.ring).pushed.length + 1 < (s.rings call.ring).popped.length + kCapacity
      omega
  | store call head =>
    rw [hpc] at hp
    obtain ⟨rfl, hroom⟩ := hp
    refine ⟨fun k => ?_, ?_, S.consumer.update rfl rfl rfl List.prefix_rfl⟩
    · show (update s.rings call.ring _ k).Ok
      by_cases hk : k = call.ring
      · subst hk
        rw [update_self]
        exact (S.rings call.ring).store hroom call.record
      · rw [update_of_ne hk]
        exact S.rings k
    · refine ⟨?_, ?_, ?_⟩ <;> dsimp only <;> rw [update_self]
      · exact hroom
      · exact update_self _ _ _
  | publish call head =>
    rw [hpc] at hp
    obtain ⟨rfl, hroom, hslot⟩ := hp
    refine ⟨fun k => ?_, producerOk_nextCall _ _ _,
      S.consumer.update rfl rfl rfl (List.prefix_append _ _)⟩
    show (update s.rings call.ring _ k).Ok
    by_cases hk : k = call.ring
    · subst hk
      rw [update_self]
      exact (S.rings call.ring).publish hroom hslot
    · rw [update_of_ne hk]
      exact S.rings k
  | signal =>
    obtain ⟨hrings, hconsumer⟩ := S.signal
    exact ⟨by rw [hrings]; exact S.rings, trivial, hconsumer⟩

/-! ## Steps of the consumer -/

theorem ProducerOk.update {p : Producer m.Ring α} (hp : ProducerOk s p)
    {k : m.Ring} {r : RecordRing α}
    (hrings : t.rings = update s.rings k r) (hhead : r.head = (s.rings k).head)
    (hpushed : r.pushed = (s.rings k).pushed) (hslots : r.slots = (s.rings k).slots)
    (hpopped : (s.rings k).popped.length ≤ r.popped.length) : ProducerOk t p := by
  have hring : ∀ j, (t.rings j).head = (s.rings j).head ∧ (t.rings j).pushed = (s.rings j).pushed ∧
      (t.rings j).slots = (s.rings j).slots ∧
      (s.rings j).popped.length ≤ (t.rings j).popped.length := by
    intro j
    rw [hrings]
    by_cases hj : j = k
    · subst hj
      rw [update_self]
      exact ⟨hhead, hpushed, hslots, hpopped⟩
    · rw [update_of_ne hj]
      exact ⟨rfl, rfl, rfl, .refl⟩
  cases p with
  | idle => exact trivial
  | push call => exact trivial
  | check call head => exact (hp : head = _).trans (hring call.ring).1.symm
  | store call head =>
    obtain ⟨hhead, hroom⟩ := hp
    obtain ⟨h₁, h₂, -, h₄⟩ := hring call.ring
    refine ⟨hhead.trans h₁.symm, ?_⟩
    rw [h₂]
    omega
  | publish call head =>
    obtain ⟨hhead, hroom, hslot⟩ := hp
    obtain ⟨h₁, h₂, h₃, h₄⟩ := hring call.ring
    refine ⟨hhead.trans h₁.symm, ?_, by rw [h₃, hslot]⟩
    rw [h₂]
    omega
  | signal => exact trivial

theorem Sound.consume (S : Sound s) : Sound (consume s) := by
  have hc := S.consumer
  unfold Dispatch.consume
  cases hpc : s.consumer with
  | pop k worked => exact S.congr rfl S.producer rfl
  | check k worked tail =>
    rw [hpc] at hc
    dsimp only
    split
    · exact S.congr rfl S.producer (consumerOk_afterRing _ _ _)
    · rename_i hne
      refine S.congr rfl S.producer ⟨hc, ?_⟩
      have hle := (S.rings k).le
      have hlength : (s.rings k).pushed ≠ (s.rings k).popped := fun heq =>
        hne ((hc : tail = _).trans ((S.rings k).tail_eq_head_iff.2 heq))
      refine Nat.lt_of_le_of_ne hle fun heq => hlength ?_
      exact ((S.rings k).isPrefix.eq_of_length heq).symm
  | load k worked tail =>
    rw [hpc] at hc
    obtain ⟨rfl, hlt⟩ := hc
    refine S.congr rfl S.producer ⟨rfl, ?_⟩
    rw [(S.rings k).slots _ .refl hlt, (S.rings k).tail]
  | release k worked tail record =>
    rw [hpc] at hc
    obtain ⟨rfl, hget⟩ := hc
    refine ⟨fun j => ?_, S.producer.update rfl rfl rfl rfl ?_, trivial⟩
    · show (update s.rings k _ j).Ok
      by_cases hj : j = k
      · subst hj
        rw [update_self]
        exact (S.rings j).release hget
      · rw [update_of_ne hj]
        exact S.rings j
    · rw [List.length_append]
      exact Nat.le_add_right _ _
  | wait =>
    dsimp only
    split
    · exact S.congr rfl S.producer trivial
    · exact S.congr rfl S.producer trivial
  | parked => exact S

theorem Sound.step (S : Sound s) (action : Action m.Ring α) : Sound (step s action) := by
  cases action with
  | produce batch => exact S.produce batch
  | consume => exact S.consume
  | waitFails =>
    unfold Dispatch.step
    dsimp only
    split
    · exact S.congr rfl S.producer trivial
    · exact S

theorem Sound.run (S : Sound s) (actions : List (Action m.Ring α)) : Sound (run s actions) := by
  induction actions generalizing s with
  | nil => exact S
  | cons action actions ih => exact ih (S.step action)

/-! ## Wake-ups -/

/-- A ring that holds records will be looked at: the producer still has to signal, or a signal
    is there for the next wait, or the consumer comes by before it waits. -/
def Awake (s : HandOff m α) : Prop :=
  ∀ k, (s.rings k).pushed ≠ (s.rings k).popped →
    s.producer.owesSignal = true ∨ s.signalled = true ∨ s.consumer.willVisit k = true

theorem owesSignal_nextCall (buffered : Bool) (rest : List (m.Ring × α)) :
    (nextCall buffered rest).owesSignal = buffered := by
  cases rest with
  | nil => cases buffered <;> rfl
  | cons call rest => rfl

theorem willVisit_start (k : m.Ring) (worked : Bool) :
    (Consumer.pop 0 worked : Consumer m.Ring α).willVisit k = true := by
  simp [Consumer.willVisit]

theorem willVisit_afterRing {j k : m.Ring} {worked : Bool} {tail : Nat}
    (h : (Consumer.check j worked tail : Consumer m.Ring α).willVisit k = true) (hjk : j ≠ k) :
    (m.afterRing j worked : Consumer m.Ring α).willVisit k = true := by
  have hne : j.val ≠ k.val := fun heq => hjk (Fin.ext heq)
  unfold Machine.afterRing
  simp only [Consumer.willVisit, Bool.or_eq_true, decide_eq_true_eq, Fin.le_def] at h
  split
  · -- There is another ring.
    simp only [Consumer.willVisit, Bool.or_eq_true, decide_eq_true_eq, Fin.le_def]
    exact h.imp_left fun hle => by omega
  · rename_i hlast
    rcases h with hle | hagain
    · omega
    · rw [if_pos hagain]
      exact willVisit_start k false

theorem Awake.init (slots : m.Ring → Nat → α) : Awake (HandOff.init slots) :=
  fun _ h => absurd rfl h

theorem Awake.produce (A : Awake s) (hheard : Heard s)
    (batch : List (m.Ring × α)) : Awake (produce batch s) := by
  unfold Dispatch.produce
  cases hpc : s.producer with
  | idle =>
    intro k hk
    have h := A k hk
    rw [hpc] at h
    exact .inr (h.resolve_left Bool.false_ne_true)
  | push call =>
    intro k hk
    have h := A k hk
    rw [hpc] at h
    exact h
  | check call head =>
    dsimp only
    split
    · intro k hk
      have h := A k hk
      rw [hpc] at h
      rw [owesSignal_nextCall call.buffered call.rest]
      exact h
    · intro k hk
      have h := A k hk
      rw [hpc] at h
      exact h
  | store call head =>
    intro k hk
    have hsame : ∀ k, ((update s.rings call.ring
        { (s.rings call.ring) with
          slots := update (s.rings call.ring).slots head call.record }) k).pushed =
          (s.rings k).pushed ∧
        ((update s.rings call.ring
        { (s.rings call.ring) with
          slots := update (s.rings call.ring).slots head call.record }) k).popped =
          (s.rings k).popped := by
      intro k
      by_cases hk : k = call.ring
      · subst hk
        rw [update_self]
        exact ⟨rfl, rfl⟩
      · rw [update_of_ne hk]
        exact ⟨rfl, rfl⟩
    have h := A k (by rwa [← (hsame k).1, ← (hsame k).2])
    rw [hpc] at h
    exact h
  | publish call head =>
    -- From here on the producer owes a signal.
    exact fun k _ => .inl (owesSignal_nextCall true call.rest)
  | signal =>
    -- The signal stays for the next wait, or the consumer comes by before it waits.
    intro k hk
    refine .inr ?_
    unfold HandOff.signal at hk ⊢
    cases hc : s.consumer with
    | parked => exact .inr (willVisit_start k false)
    | _ =>
      rw [hc] at hk
      rcases hheard hpc with hstays | hparked | hvisits
      · exact .inl (by rw [hstays]; rfl)
      · rw [hc] at hparked
        cases hparked
      · have h := hvisits k hk
        rw [hc] at h
        exact .inr h

theorem Awake.consume (S : Sound s) (A : Awake s) : Awake (consume s) := by
  have hc := S.consumer
  unfold Dispatch.consume
  cases hpc : s.consumer with
  | pop j worked =>
    intro k hk
    have h := A k hk
    rw [hpc] at h
    exact h
  | check j worked tail =>
    rw [hpc] at hc
    dsimp only
    split
    · rename_i hempty
      intro k hk
      have h := A k hk
      rw [hpc] at h
      -- The ring it leaves is empty.
      have hjk : j ≠ k := by
        rintro rfl
        exact hk ((S.rings j).tail_eq_head_iff.1 ((hc : tail = _).symm.trans hempty))
      exact h.imp_right fun h => h.imp_right fun h => willVisit_afterRing h hjk
    · intro k hk
      have h := A k hk
      rw [hpc] at h
      refine h.imp_right fun h => h.imp_right fun h => ?_
      simp only [Consumer.willVisit, Bool.or_eq_true, Bool.and_eq_true] at h ⊢
      exact h.imp_right And.left
  | load j worked tail =>
    intro k hk
    have h := A k hk
    rw [hpc] at h
    exact h
  | release j worked tail record =>
    intro k hk
    have hvisit : (Consumer.release j worked tail record).willVisit k = true →
        (Consumer.pop j true : Consumer m.Ring α).willVisit k = true := by
      intro h
      simp only [Consumer.willVisit, Bool.and_true] at h ⊢
      exact h
    by_cases hkj : k = j
    · rw [hkj]
      simp [Consumer.willVisit]
    · dsimp only at hk
      rw [update_of_ne hkj] at hk
      have h := A k hk
      rw [hpc] at h
      exact h.imp_right fun h => h.imp_right hvisit
  | wait =>
    dsimp only
    split
    · exact fun k _ => .inr (.inr (willVisit_start k false))
    · intro k hk
      have h := A k hk
      rw [hpc] at h
      exact h
  | parked => exact A

theorem Awake.run (S : Sound s) (A : Awake s) {actions : List (Action m.Ring α)}
    (hheard : AllHeard s actions) : Awake (run s actions) := by
  induction actions generalizing s with
  | nil => exact A
  | cons action actions ih =>
    cases action with
    | produce batch => exact ih (S.step _) (A.produce hheard.1 batch) hheard.2
    | consume => exact ih (S.step _) (A.consume S) hheard
    | waitFails =>
      refine ih (S.step _) ?_ hheard
      unfold Dispatch.step
      dsimp only
      split
      · exact fun k _ => .inr (.inr (willVisit_start k false))
      · exact A

/-! ## The hand-off -/

/-- In every state that steps of the two parties lead to, in any order: what was popped from a
    ring is a prefix of what was pushed to it; the parties are not at one slot; and a record is
    refused only while 255 are unread.  If every signal of the run was heard, a parked consumer
    leaves records behind only while a signal is there or still owed. -/
theorem handOff_sound (slots : m.Ring → Nat → α) (actions : List (Action m.Ring α)) :
    ((∀ k, ((run (HandOff.init slots) actions).rings k).popped <+:
        ((run (HandOff.init slots) actions).rings k).pushed) ∧
      ¬SlotClash (run (HandOff.init slots) actions) ∧
      ∀ k, Refuses (run (HandOff.init slots) actions) k →
        ((run (HandOff.init slots) actions).rings k).pushed.length =
          ((run (HandOff.init slots) actions).rings k).popped.length + (kCapacity - 1)) ∧
      (AllHeard (HandOff.init slots) actions →
        (run (HandOff.init slots) actions).consumer = .parked →
          ∀ k, ((run (HandOff.init slots) actions).rings k).pushed ≠
              ((run (HandOff.init slots) actions).rings k).popped →
            (run (HandOff.init slots) actions).signalled = true ∨
              (run (HandOff.init slots) actions).producer.owesSignal = true) := by
  have S := (Sound.init slots).run actions
  refine ⟨⟨fun k => (S.rings k).isPrefix, ?_, ?_⟩, fun hheard hparked k hk => ?_⟩
  · rintro ⟨call, head, worked, tail, hp, hc, rfl⟩
    have hproducer := S.producer
    have hconsumer := S.consumer
    rw [hp] at hproducer
    rw [hc] at hconsumer
    obtain ⟨hhead, hroom⟩ := hproducer
    obtain ⟨htail, hlt⟩ := hconsumer
    rw [htail, (S.rings call.ring).tail_eq_head_iff] at hhead
    rw [hhead] at hlt
    exact Nat.lt_irrefl _ hlt
  · rintro k ⟨call, head, hp, rfl, hfull⟩
    have hproducer := S.producer
    rw [hp] at hproducer
    rw [(hproducer : head = _), (S.rings call.ring).full_iff] at hfull
    unfold kCapacity at *
    omega
  · have h := (Awake.init slots).run (Sound.init slots) hheard k hk
    rw [hparked] at h
    rcases h with howes | hsignalled | hvisit
    · exact .inr howes
    · exact .inl hsignalled
    · cases hvisit

theorem allHeard_of_stays (hstays : m.wakeAll = false) (s : HandOff m α)
    (actions : List (Action m.Ring α)) : AllHeard s actions := by
  induction actions generalizing s with
  | nil => exact trivial
  | cons action actions ih =>
    cases action with
    | produce batch => exact ⟨fun _ => .inl hstays, ih _⟩
    | consume => exact ih _
    | waitFails => exact ih _

/-- The dispatch thread is parked and a record is in the ring: its signal is on the way. -/
theorem handOff_sound_signalOwed : (run (HandOff.init (m := interruptDispatch) fun _ _ => 0)
        (List.replicate 3 .consume ++ List.replicate 5 (.produce [(0, 7)]))).producer.owesSignal =
      true := by
  have h := (handOff_sound (m := interruptDispatch) (fun _ _ => 0)
    (List.replicate 3 .consume ++ List.replicate 5 (.produce [(0, 7)]))).2
    (allHeard_of_stays rfl _ _) rfl 0 (by decide)
  exact h.resolve_left (by decide)

/-! ## The lost wake-up of the i8042 pump -/

/-- The pump finds both rings empty; an interrupt pushes a byte and signals; the pump waits. -/
def lostWakeUp : List (Action i8042Pump.Ring Nat) :=
  List.replicate 4 .consume ++ List.replicate 6 (.produce [(0, 0x1e)]) ++ [.consume]

/-- The pump is parked, the byte is in the ring, and nobody is going to signal. -/
theorem i8042Pump_parks_with_byte :
    (run (HandOff.init fun _ _ => 0) lostWakeUp).consumer = .parked ∧
      ((run (HandOff.init fun _ _ => 0) lostWakeUp).rings 0).pushed = [0x1e] ∧
      ((run (HandOff.init fun _ _ => 0) lostWakeUp).rings 0).popped = [] ∧
      (run (HandOff.init fun _ _ => 0) lostWakeUp).signalled = false ∧
      (run (HandOff.init fun _ _ => 0) lostWakeUp).producer = .idle :=
  ⟨rfl, rfl, rfl, rfl, rfl⟩

end UnDOS.Dispatch
