import UnDOS.Event.Broadcaster
import UnDOS.Lib.Run

/-!
# Unregistered Listeners Are Quiet

The invariant of the broadcaster, over every interleaving of its sections: a listener is
pinned exactly while its callback runs, and a pinned listener is never erased.
-/

namespace UnDOS.Event

open UnDOS.Lib

/-! ## The list of listeners -/

section Subscribers
variable {subs : List EventSubscriber} {id : Nat}

theorem find_some {sub : EventSubscriber} (h : findSubscriber subs id = some sub) :
    sub ∈ subs ∧ sub.id = id :=
  ⟨List.mem_of_find?_eq_some h, by simpa using List.find?_some h⟩

theorem find_none (h : findSubscriber subs id = none) : ∀ sub ∈ subs, sub.id ≠ id := by
  intro sub hsub
  simpa using List.find?_eq_none.1 h sub hsub

theorem eq_of_id_eq (hnodup : (subs.map EventSubscriber.id).Nodup) {a b : EventSubscriber}
    (ha : a ∈ subs) (hb : b ∈ subs) (h : a.id = b.id) : a = b :=
  List.inj_on_of_nodup_map hnodup ha hb h

theorem modify_eq_map (f : EventSubscriber → EventSubscriber)
    (hnodup : (subs.map EventSubscriber.id).Nodup) :
    modifySubscriber id f subs = subs.map fun sub => if sub.id = id then f sub else sub := by
  induction subs with
  | nil => rfl
  | cons sub rest ih =>
    obtain ⟨hnot, hrest⟩ := List.nodup_cons.1 hnodup
    unfold modifySubscriber
    by_cases hid : sub.id = id
    · -- The token does not occur in the rest, which is left as it is.
      have hsame : rest.map (fun sub => if sub.id = id then f sub else sub) = rest := by
        refine (List.map_congr_left ?_).trans (List.map_id rest)
        intro other hother
        apply if_neg
        intro heq
        exact hnot (List.mem_map.2 ⟨other, hother, heq.trans hid.symm⟩)
      rw [if_pos hid, List.map_cons, if_pos hid, hsame]
    · rw [if_neg hid, List.map_cons, if_neg hid, ih hrest]

theorem mem_modify {f : EventSubscriber → EventSubscriber}
    (hnodup : (subs.map EventSubscriber.id).Nodup) {sub' : EventSubscriber} :
    sub' ∈ modifySubscriber id f subs ↔
      ∃ sub ∈ subs, (if sub.id = id then f sub else sub) = sub' := by
  rw [modify_eq_map f hnodup, List.mem_map]

theorem modify_ids (f : EventSubscriber → EventSubscriber) (hf : ∀ sub, (f sub).id = sub.id) :
    (modifySubscriber id f subs).map EventSubscriber.id = subs.map EventSubscriber.id := by
  induction subs with
  | nil => rfl
  | cons sub rest ih =>
    unfold modifySubscriber
    split
    · rw [List.map_cons, List.map_cons, hf]
    · rw [List.map_cons, List.map_cons, ih]

theorem modify_nodup {f : EventSubscriber → EventSubscriber}
    (hnodup : (subs.map EventSubscriber.id).Nodup) (hf : ∀ sub, (f sub).id = sub.id) :
    ((modifySubscriber id f subs).map EventSubscriber.id).Nodup := by
  rw [modify_ids f hf]
  exact hnodup

theorem erase_ids : ((eraseSubscriber subs id).map EventSubscriber.id).Sublist
    (subs.map EventSubscriber.id) :=
  List.Sublist.map _ (List.eraseP_sublist)

theorem mem_erase (hnodup : (subs.map EventSubscriber.id).Nodup) {sub : EventSubscriber} :
    sub ∈ eraseSubscriber subs id ↔ sub ∈ subs ∧ sub.id ≠ id := by
  unfold eraseSubscriber
  induction subs with
  | nil => simp
  | cons first rest ih =>
    obtain ⟨hnot, hrest⟩ := List.nodup_cons.1 hnodup
    rw [List.eraseP_cons]
    by_cases hid : first.id = id
    · have hother : sub ∈ rest → sub.id ≠ id := by
        intro hsub heq
        exact hnot (List.mem_map.2 ⟨sub, hsub, heq.trans hid.symm⟩)
      simp only [hid, beq_self_eq_true, List.mem_cons]
      constructor
      · intro hsub
        exact ⟨.inr hsub, hother hsub⟩
      · rintro ⟨rfl | hsub, hne⟩
        · exact absurd hid hne
        · exact hsub
    · simp only [beq_eq_false_iff_ne.2 hid, cond_false, List.mem_cons, ih hrest]
      constructor
      · rintro (rfl | ⟨hsub, hne⟩)
        · exact ⟨.inl rfl, hid⟩
        · exact ⟨.inr hsub, hne⟩
      · rintro ⟨rfl | hsub, hne⟩
        · exact .inl rfl
        · exact .inr ⟨hsub, hne⟩

/-- A listener after its pin was dropped. -/
def EventSubscriber.unpinned (sub : EventSubscriber) : EventSubscriber :=
  { sub with activeCalls := sub.activeCalls - 1 }

theorem release_ids : ((releaseSubscriber id subs).map EventSubscriber.id).Sublist
    (subs.map EventSubscriber.id) := by
  induction subs with
  | nil => exact List.Sublist.refl _
  | cons sub rest ih =>
    unfold releaseSubscriber
    split
    · exact ih.cons_cons _
    · dsimp only
      split
      · exact List.sublist_cons_self _ _
      · exact List.Sublist.refl _

theorem mem_release (hnodup : (subs.map EventSubscriber.id).Nodup) {sub' : EventSubscriber}
    (h : sub' ∈ releaseSubscriber id subs) :
    sub' ∈ subs ∧ sub'.id ≠ id ∨ ∃ sub ∈ subs, sub.id = id ∧ sub' = sub.unpinned := by
  induction subs with
  | nil => cases h
  | cons first rest ih =>
    obtain ⟨hnot, hrest⟩ := List.nodup_cons.1 hnodup
    unfold releaseSubscriber at h
    by_cases hid : first.id = id
    · have hother : sub' ∈ rest → sub' ∈ first :: rest ∧ sub'.id ≠ id := by
        intro hsub
        refine ⟨.tail _ hsub, ?_⟩
        intro heq
        exact hnot (List.mem_map.2 ⟨sub', hsub, heq.trans hid.symm⟩)
      rw [if_neg (not_not.2 hid)] at h
      dsimp only at h
      split at h
      · exact .inl (hother h)
      · rcases List.mem_cons.1 h with rfl | hsub
        · exact .inr ⟨first, .head _, hid, rfl⟩
        · exact .inl (hother hsub)
    · rw [if_pos hid] at h
      rcases List.mem_cons.1 h with rfl | hsub
      · exact .inl ⟨.head _, hid⟩
      · rcases ih hrest hsub with ⟨hmem, hne⟩ | ⟨sub, hmem, heq, hunpin⟩
        · exact .inl ⟨.tail _ hmem, hne⟩
        · exact .inr ⟨sub, .tail _ hmem, heq, hunpin⟩

end Subscribers

/-! ## The invariant -/

/-- Tokens are new, listeners are registered, a pin means a running callback and the other way
round, and what was unregistered is gone. -/
structure Inv (pumpThread : Nat) (s : State) : Prop where
  next_lt : s.nextTokenId < 2 ^ 64
  tokens_lt : ∀ id ∈ s.tokens, 0 < id ∧ (s.nextTokenId ≠ 0 → id < s.nextTokenId)
  tokens_nodup : s.tokens.Nodup
  registered : ∀ sub ∈ s.subscribers, sub.id ∈ s.tokens
  nodup : (s.subscribers.map EventSubscriber.id).Nodup
  pinned : ∀ sub ∈ s.subscribers, 0 < sub.activeCalls → s.Calling sub.id
  calling : ∀ record id callback userBuffer ids,
    s.pump = .calling record id callback userBuffer ids →
    ∃ sub ∈ s.subscribers, sub.id = id ∧ sub.callback = callback ∧
      sub.userBuffer = userBuffer ∧ sub.activeCalls = 1
  dispatching : s.dispatchingId ≠ 0 →
    s.Calling s.dispatchingId ∧ s.dispatchingThread = some pumpThread
  caller : ∀ id, s.Calling id → s.dispatchingId = id ∧ s.dispatchingThread = some pumpThread
  waits : ∀ thread id, s.waiting thread = some id → id ∈ s.tokens
  quiet_token : ∀ id ∈ s.quiet, id ∈ s.tokens
  quiet_gone : ∀ id ∈ s.quiet, ∀ sub ∈ s.subscribers, sub.id ≠ id
  order : s.sent = s.dispatched ++ s.queue.contents

section Steps
variable {pumpThread : Nat} {s : State}

theorem Inv.init (pumpThread : Nat) : Inv pumpThread {} where
  next_lt := by decide
  tokens_lt := fun _ h => by cases h
  tokens_nodup := List.nodup_nil
  registered := fun _ h => by cases h
  nodup := List.nodup_nil
  pinned := fun _ h => by cases h
  calling := fun _ _ _ _ _ h => by cases h
  dispatching := absurd rfl
  caller := by
    rintro id ⟨_, _, _, _, h⟩
    cases h
  waits := fun _ _ h => by cases h
  quiet_token := fun _ h => by cases h
  quiet_gone := fun _ h => by cases h
  order := rfl

variable {thread id : Nat}

theorem Inv.returned (h : Inv pumpThread s) (htoken : id ∈ s.tokens)
    (hgone : s.runsCallback pumpThread thread id = false → ∀ sub ∈ s.subscribers, sub.id ≠ id) :
    Inv pumpThread (s.returned pumpThread thread id) := by
  unfold State.returned
  refine { h with waits := ?_, quiet_token := ?_, quiet_gone := ?_ }
  · intro other id' hwait
    dsimp only at hwait
    by_cases hother : other = thread
    · rw [hother, Function.update_self] at hwait
      cases hwait
    · rw [Function.update_of_ne hother] at hwait
      exact h.waits other id' hwait
  · intro id' hquiet
    split at hquiet
    · exact h.quiet_token id' hquiet
    · rcases List.mem_cons.1 hquiet with rfl | hold
      · exact htoken
      · exact h.quiet_token id' hold
  · intro id' hquiet
    split at hquiet
    · exact h.quiet_gone id' hquiet
    · rename_i houtside
      rcases List.mem_cons.1 hquiet with rfl | hold
      · exact hgone (by simpa using houtside)
      · exact h.quiet_gone id' hold

theorem Inv.erase (h : Inv pumpThread s)
    (hidle : ∀ sub ∈ s.subscribers, sub.id = id → sub.activeCalls = 0) :
    Inv pumpThread { s with subscribers := eraseSubscriber s.subscribers id } := by
  have hmem (sub : EventSubscriber) (hsub : sub ∈ eraseSubscriber s.subscribers id) :
      sub ∈ s.subscribers := ((mem_erase h.nodup).1 hsub).1
  refine { h with registered := ?_, nodup := ?_, pinned := ?_, calling := ?_, quiet_gone := ?_ }
  · exact fun sub hsub => h.registered sub (hmem sub hsub)
  · exact h.nodup.sublist erase_ids
  · exact fun sub hsub => h.pinned sub (hmem sub hsub)
  · intro record running callback userBuffer ids hpump
    obtain ⟨sub, hsub, hid, hcallback, hbuffer, hactive⟩ :=
      h.calling record running callback userBuffer ids hpump
    refine ⟨sub, (mem_erase h.nodup).2 ⟨hsub, ?_⟩, hid, hcallback, hbuffer, hactive⟩
    intro heq
    have := hidle sub hsub heq
    omega
  · exact fun id' hquiet sub hsub => h.quiet_gone id' hquiet sub (hmem sub hsub)

theorem Inv.mark (h : Inv pumpThread s) (id : Nat) : Inv pumpThread { s with
      subscribers := modifySubscriber id (fun sub => { sub with dead := true })
        s.subscribers } := by
  have hmem (sub' : EventSubscriber)
      (hsub' : sub' ∈ modifySubscriber id (fun sub => { sub with dead := true }) s.subscribers) :
      ∃ sub ∈ s.subscribers, sub'.id = sub.id ∧ sub'.activeCalls = sub.activeCalls := by
    obtain ⟨sub, hsub, rfl⟩ := (mem_modify h.nodup).1 hsub'
    refine ⟨sub, hsub, ?_, ?_⟩
    · split
      · rfl
      · rfl
    · split
      · rfl
      · rfl
  refine { h with registered := ?_, nodup := ?_, pinned := ?_, calling := ?_, quiet_gone := ?_ }
  · intro sub' hsub'
    obtain ⟨sub, hsub, hid, -⟩ := hmem sub' hsub'
    rw [hid]
    exact h.registered sub hsub
  · exact modify_nodup h.nodup fun _ => rfl
  · intro sub' hsub' hactive
    obtain ⟨sub, hsub, hid, hcalls⟩ := hmem sub' hsub'
    rw [hid]
    exact h.pinned sub hsub (by omega)
  · intro record running callback userBuffer ids hpump
    obtain ⟨sub, hsub, hid, hcallback, hbuffer, hactive⟩ :=
      h.calling record running callback userBuffer ids hpump
    refine ⟨_, (mem_modify h.nodup).2 ⟨sub, hsub, rfl⟩, ?_⟩
    split
    · exact ⟨hid, hcallback, hbuffer, hactive⟩
    · exact ⟨hid, hcallback, hbuffer, hactive⟩
  · intro id' hquiet sub' hsub'
    obtain ⟨sub, hsub, hid, -⟩ := hmem sub' hsub'
    rw [hid]
    exact h.quiet_gone id' hquiet sub hsub

theorem Inv.wait (h : Inv pumpThread s) (htoken : id ∈ s.tokens) :
    Inv pumpThread { s with waiting := Function.update s.waiting thread (some id) } := by
  refine { h with waits := ?_ }
  intro other id' hwait
  dsimp only at hwait
  by_cases hother : other = thread
  · rw [hother, Function.update_self] at hwait
    cases hwait
    exact htoken
  · rw [Function.update_of_ne hother] at hwait
    exact h.waits other id' hwait

theorem Inv.runsCallback_of_dispatching (h : Inv pumpThread s)
    (hcaller : s.callerIsDispatching thread id = true) :
    s.runsCallback pumpThread thread id = true := by
  unfold State.callerIsDispatching at hcaller
  simp only [Bool.and_eq_true, bne_iff_ne, beq_iff_eq, decide_eq_true_eq] at hcaller
  obtain ⟨⟨hne, hid⟩, hthread⟩ := hcaller
  obtain ⟨⟨record, callback, userBuffer, ids, hpump⟩, hpumpThread⟩ := h.dispatching hne
  rw [hthread] at hpumpThread
  unfold State.runsCallback
  rw [hpump]
  simp only [Bool.and_eq_true, beq_iff_eq]
  exact ⟨Option.some.inj hpumpThread, hid⟩

theorem Inv.unregister (h : Inv pumpThread s) (htoken : id ∈ s.tokens) :
    Inv pumpThread (s.unregister pumpThread thread id) := by
  unfold State.unregister
  rcases hfind : findSubscriber s.subscribers id with _ | sub
  · exact h.returned htoken fun _ => find_none hfind
  obtain ⟨hsub, hid⟩ := find_some hfind
  have hmark := h.mark id
  dsimp only
  split
  · split
    · rename_i hcaller
      apply hmark.returned htoken
      intro houtside
      have hown := h.runsCallback_of_dispatching hcaller
      exact Bool.noConfusion (hown.symm.trans houtside)
    · exact hmark.wait htoken
  · rename_i hactive
    have hidle : ∀ sub' ∈ modifySubscriber id (fun sub => { sub with dead := true }) s.subscribers,
        sub'.id = id → sub'.activeCalls = 0 := by
      intro sub' hsub' hid'
      obtain ⟨other, hother, rfl⟩ := (mem_modify h.nodup).1 hsub'
      have hsame : other.id = id := by
        split at hid'
        · assumption
        · exact hid'
      rw [eq_of_id_eq h.nodup hother hsub (hsame.trans hid.symm), if_pos hid]
      show sub.activeCalls = 0
      omega
    have hnodup := hmark.nodup
    apply (hmark.erase hidle).returned htoken
    intro _ sub' hsub'
    exact ((mem_erase hnodup).1 hsub').2

theorem Inv.poll (h : Inv pumpThread s) (htoken : id ∈ s.tokens) :
    Inv pumpThread (s.poll pumpThread thread id) := by
  unfold State.poll
  rcases hfind : findSubscriber s.subscribers id with _ | sub
  · exact h.returned htoken fun _ => find_none hfind
  obtain ⟨hsub, hid⟩ := find_some hfind
  dsimp only
  split
  · rename_i hactive
    have hidle : ∀ sub' ∈ s.subscribers, sub'.id = id → sub'.activeCalls = 0 := by
      intro sub' hsub' hid'
      rw [eq_of_id_eq h.nodup hsub' hsub (hid'.trans hid.symm)]
      exact hactive
    apply (h.erase hidle).returned htoken
    intro _ sub' hsub'
    exact ((mem_erase h.nodup).1 hsub').2
  · exact h

theorem Inv.register (h : Inv pumpThread s) (target : Source) (fn : Option Nat)
    (userBuffer : Nat) : Inv pumpThread (s.register target fn userBuffer).2 := by
  unfold State.register
  rcases fn with _ | callback
  · exact h
  dsimp only
  split
  · exact h
  split
  · exact h
  rename_i hnext
  -- The counter has not wrapped, so that its value was never given out.
  have hnew : s.nextTokenId ∉ s.tokens := by
    intro hold
    have := (h.tokens_lt _ hold).2 hnext
    omega
  have hlt := h.next_lt
  refine
    { h with
      next_lt := Nat.mod_lt _ (by decide)
      tokens_nodup := List.nodup_cons.2 ⟨hnew, h.tokens_nodup⟩
      tokens_lt := ?_, registered := ?_, nodup := ?_, pinned := ?_, calling := ?_
      waits := fun thread id hwait => .tail _ (h.waits thread id hwait)
      quiet_token := fun id hquiet => .tail _ (h.quiet_token id hquiet)
      quiet_gone := ?_ }
  · intro id hid
    dsimp only at hid ⊢
    have hsmall : 0 < id ∧ id ≤ s.nextTokenId := by
      rcases List.mem_cons.1 hid with rfl | hold
      · exact ⟨by omega, .refl⟩
      · exact ⟨(h.tokens_lt id hold).1, Nat.le_of_lt ((h.tokens_lt id hold).2 hnext)⟩
    -- The next token is 0 after the last one; otherwise it is one more.
    omega
  · intro sub hsub
    rcases List.mem_append.1 hsub with hold | hlast
    · exact .tail _ (h.registered sub hold)
    · rw [List.mem_singleton.1 hlast]
      exact .head _
  · rw [List.map_append, List.nodup_append]
    refine ⟨h.nodup, List.nodup_singleton _, ?_⟩
    intro id hid other hother heq
    obtain ⟨sub, hsub, hsubId⟩ := List.mem_map.1 hid
    have hregistered := h.registered sub hsub
    rw [hsubId, heq, List.mem_singleton.1 hother] at hregistered
    exact hnew hregistered
  · intro sub hsub hactive
    rcases List.mem_append.1 hsub with hold | hlast
    · exact h.pinned sub hold hactive
    · rw [List.mem_singleton.1 hlast] at hactive
      cases hactive
  · intro record running cb buf ids hpump
    obtain ⟨sub, hsub, hrest⟩ := h.calling record running cb buf ids hpump
    exact ⟨sub, List.mem_append_left _ hsub, hrest⟩
  · intro id hquiet sub hsub
    rcases List.mem_append.1 hsub with hold | hlast
    · exact h.quiet_gone id hquiet sub hold
    · rw [List.mem_singleton.1 hlast]
      intro heq
      dsimp only at heq
      exact hnew (heq ▸ h.quiet_token id hquiet)

theorem Inv.broadcast (h : Inv pumpThread s) (target : Source) (event : Code) :
    Inv pumpThread (s.broadcast target event).2 := by
  unfold State.broadcast
  split
  · exact h
  split
  · exact { h with order := h.order }
  · rename_i hfull
    have hroom : s.queue.count < eventQueueCapacity := by
      have := s.queue.count_le
      omega
    refine { h with order := ?_ }
    rw [Ring.contents_push hroom, h.order, List.append_assoc]

theorem Inv.move (h : Inv pumpThread s) {pump : Pump} (hfrom : ∀ id, ¬s.Calling id)
    (hto : ∀ record id callback userBuffer ids, pump ≠ .calling record id callback userBuffer ids) :
    Inv pumpThread { s with pump := pump } := by
  refine { h with pinned := ?_, calling := ?_, dispatching := ?_, caller := ?_ }
  · intro sub hsub hactive
    exact absurd (h.pinned sub hsub hactive) (hfrom _)
  · intro record id callback userBuffer ids hpump
    exact absurd hpump (hto record id callback userBuffer ids)
  · intro hne
    exact absurd (h.dispatching hne).1 (hfrom _)
  · rintro id ⟨record, callback, userBuffer, ids, hpump⟩
    exact absurd hpump (hto record id callback userBuffer ids)

/-- The next listener is pinned, or passed over. -/
theorem Inv.pin (h : Inv pumpThread s) {record : BroadcastRecord} {ids : List Nat}
    (hpump : s.pump = .dispatching record (id :: ids)) :
    Inv pumpThread (s.pin pumpThread record id ids) := by
  have hidle : ∀ other, ¬s.Calling other := by
    rintro other ⟨_, _, _, _, habsurd⟩
    rw [hpump] at habsurd
    cases habsurd
  have hpass : Inv pumpThread { s with pump := .dispatching record ids } :=
    h.move hidle fun _ _ _ _ _ habsurd => by cases habsurd
  unfold State.pin
  rcases hfind : findSubscriber s.subscribers id with _ | sub
  · exact hpass
  obtain ⟨hsub, hid⟩ := find_some hfind
  dsimp only
  split
  · exact hpass
  have hzero : ∀ other ∈ s.subscribers, other.activeCalls = 0 := by
    intro other hother
    rcases Nat.eq_zero_or_pos other.activeCalls with hz | hactive
    · exact hz
    · exact absurd (h.pinned other hother hactive) (hidle _)
  have hmem (sub' : EventSubscriber)
      (hsub' : sub' ∈ modifySubscriber id
        (fun sub => { sub with activeCalls := sub.activeCalls + 1 }) s.subscribers) :
      ∃ old ∈ s.subscribers, sub'.id = old.id ∧ (0 < sub'.activeCalls → old.id = id) := by
    obtain ⟨old, hold, rfl⟩ := (mem_modify h.nodup).1 hsub'
    refine ⟨old, hold, ?_, ?_⟩
    · split
      · rfl
      · rfl
    · split
      · intro _
        assumption
      · intro hactive
        rw [hzero old hold] at hactive
        cases hactive
  refine
    { h with
      registered := ?_, nodup := ?_, pinned := ?_, calling := ?_, dispatching := ?_, caller := ?_
      quiet_gone := ?_ }
  · intro sub' hsub'
    obtain ⟨old, hold, heq, -⟩ := hmem sub' hsub'
    rw [heq]
    exact h.registered old hold
  · exact modify_nodup h.nodup fun _ => rfl
  · intro sub' hsub' hactive
    obtain ⟨old, -, heq, howner⟩ := hmem sub' hsub'
    rw [heq, howner hactive]
    exact ⟨record, _, _, ids, rfl⟩
  · intro record' running callback userBuffer ids' hcalling
    cases hcalling
    refine ⟨_, (mem_modify h.nodup).2 ⟨sub, hsub, rfl⟩, ?_⟩
    rw [if_pos hid]
    exact ⟨hid, rfl, rfl, by simp [hzero sub hsub]⟩
  · intro _
    exact ⟨⟨record, _, _, ids, rfl⟩, rfl⟩
  · rintro running ⟨_, _, _, _, hcalling⟩
    cases hcalling
    exact ⟨rfl, rfl⟩
  · intro id' hquiet sub' hsub'
    obtain ⟨old, hold, heq, -⟩ := hmem sub' hsub'
    rw [heq]
    exact h.quiet_gone id' hquiet old hold

theorem Inv.finish (h : Inv pumpThread s) {record : BroadcastRecord}
    {callback userBuffer : Nat} {ids : List Nat}
    (hpump : s.pump = .calling record id callback userBuffer ids) : Inv pumpThread { s with
      subscribers := releaseSubscriber id s.subscribers
      dispatchingId := 0
      dispatchingThread := none
      pump := .dispatching record ids } := by
  obtain ⟨pinnedSub, hpinned, hpinnedId, -, -, hone⟩ :=
    h.calling record id callback userBuffer ids hpump
  have hmem (sub' : EventSubscriber) (hsub' : sub' ∈ releaseSubscriber id s.subscribers) :
      ∃ old ∈ s.subscribers, sub'.id = old.id ∧ sub'.activeCalls = 0 := by
    rcases mem_release h.nodup hsub' with ⟨hold, hne⟩ | ⟨old, hold, hid, rfl⟩
    · refine ⟨sub', hold, rfl, ?_⟩
      rcases Nat.eq_zero_or_pos sub'.activeCalls with hz | hactive
      · exact hz
      · obtain ⟨_, _, _, _, hcalling⟩ := h.pinned sub' hold hactive
        rw [hpump] at hcalling
        cases hcalling
        exact absurd rfl hne
    · refine ⟨old, hold, rfl, ?_⟩
      rw [eq_of_id_eq h.nodup hold hpinned (hid.trans hpinnedId.symm)]
      show pinnedSub.activeCalls - 1 = 0
      omega
  refine
    { h with
      registered := ?_, nodup := h.nodup.sublist release_ids, pinned := ?_, calling := ?_
      dispatching := absurd rfl, caller := ?_, quiet_gone := ?_ }
  · intro sub' hsub'
    obtain ⟨old, hold, heq, -⟩ := hmem sub' hsub'
    rw [heq]
    exact h.registered old hold
  · intro sub' hsub' hactive
    obtain ⟨_, -, -, hz⟩ := hmem sub' hsub'
    omega
  · intro _ _ _ _ _ habsurd
    cases habsurd
  · rintro _ ⟨_, _, _, _, habsurd⟩
    cases habsurd
  · intro id' hquiet sub' hsub'
    obtain ⟨old, hold, heq, -⟩ := hmem sub' hsub'
    rw [heq]
    exact h.quiet_gone id' hquiet old hold

/-- What a section that runs does, and when it can. -/
inductive Stepped (pumpThread : Nat) (s : State) : Action → State → Prop
  | register (thread : Nat) (target : Source) (fn : Option Nat) (userBuffer : Nat) :
    Stepped pumpThread s (.register thread target fn userBuffer) (s.register target fn userBuffer).2
  | unregister (thread id : Nat) : id ∈ s.tokens →
    Stepped pumpThread s (.unregister thread id) (s.unregister pumpThread thread id)
  | poll (thread id : Nat) : s.waiting thread = some id →
    Stepped pumpThread s (.poll thread) (s.poll pumpThread thread id)
  | broadcast (target : Source) (event : Code) :
    Stepped pumpThread s (.broadcast target event) (s.broadcast target event).2
  | pop (record : BroadcastRecord) (queue : Ring BroadcastRecord eventQueueCapacity) :
    s.pump = .idle →
    s.queue.pop = some (record, queue) → Stepped pumpThread s .pop
      { s with queue := queue, pump := .popped record, dispatched := s.dispatched ++ [record] }
  | snapshot (record : BroadcastRecord) : s.pump = .popped record →
    Stepped pumpThread s .snapshot
      { s with pump := .dispatching record (s.interested record.source) }
  | rest (record : BroadcastRecord) : s.pump = .dispatching record [] →
    Stepped pumpThread s .next { s with pump := .idle }
  | pin (record : BroadcastRecord) (id : Nat) (ids : List Nat) :
    s.pump = .dispatching record (id :: ids) →
      Stepped pumpThread s .next (s.pin pumpThread record id ids)
  | finish (record : BroadcastRecord) (id callback userBuffer : Nat) (ids : List Nat) :
    s.pump = .calling record id callback userBuffer ids → Stepped pumpThread s .finish
      { s with
        subscribers := releaseSubscriber id s.subscribers
        dispatchingId := 0
        dispatchingThread := none
        pump := .dispatching record ids }

theorem step_stepped {a : Action} {s' : State} (hstep : step pumpThread s a = some s') :
    Stepped pumpThread s a s' := by
  unfold UnDOS.Event.step at hstep
  cases a with
  | register thread target fn userBuffer =>
    obtain ⟨-, ⟨⟩⟩ := Option.ite_none_right_eq_some.1 hstep
    exact .register thread target fn userBuffer
  | unregister thread id =>
    obtain ⟨hcan, ⟨⟩⟩ := Option.ite_none_right_eq_some.1 hstep
    exact .unregister thread id hcan.2
  | poll thread =>
    obtain ⟨id, hwait, rfl⟩ := Option.map_eq_some_iff.1 hstep
    exact .poll thread id hwait
  | broadcast target event =>
    cases hstep
    exact .broadcast target event
  | pop =>
    dsimp only at hstep
    split at hstep <;> cases hstep
    exact .pop _ _ ‹_› ‹_›
  | snapshot =>
    dsimp only at hstep
    split at hstep <;> cases hstep
    exact .snapshot _ ‹_›
  | next =>
    dsimp only at hstep
    split at hstep <;> cases hstep
    · exact .rest _ ‹_›
    · exact .pin _ _ _ ‹_›
  | finish =>
    dsimp only at hstep
    split at hstep
    · obtain ⟨-, ⟨⟩⟩ := Option.ite_none_right_eq_some.1 hstep
      exact .finish _ _ _ _ _ ‹_›
    · cases hstep

/-- Every section keeps the invariant. -/
theorem Inv.step (h : Inv pumpThread s) {a : Action} {s' : State}
    (hstep : step pumpThread s a = some s') : Inv pumpThread s' := by
  have hcalls {pump : Pump} (hpump : s.pump = pump)
      (hnot : ∀ record id callback userBuffer ids,
        pump ≠ .calling record id callback userBuffer ids) :
      ∀ id, ¬s.Calling id := by
    rintro id ⟨_, _, _, _, hcalling⟩
    exact hnot _ _ _ _ _ (hpump.symm.trans hcalling)
  cases step_stepped hstep with
  | register thread target fn userBuffer => exact h.register target fn userBuffer
  | unregister thread id htoken => exact h.unregister htoken
  | poll thread id hwait => exact h.poll (h.waits thread id hwait)
  | broadcast target event => exact h.broadcast target event
  | pop record queue hpump hpop =>
    have hmoved : Inv pumpThread { s with pump := .popped record } :=
      h.move (hcalls hpump fun _ _ _ _ _ => nofun) fun _ _ _ _ _ => nofun
    refine { hmoved with order := ?_ }
    rw [h.order, Ring.pop_contents hpop, List.append_assoc]
    rfl
  | snapshot record hpump =>
    exact h.move (hcalls hpump fun _ _ _ _ _ => nofun) fun _ _ _ _ _ => nofun
  | rest record hpump => exact h.move (hcalls hpump fun _ _ _ _ _ => nofun) fun _ _ _ _ _ => nofun
  | pin record id ids hpump => exact h.pin hpump
  | finish record id callback userBuffer ids hpump => exact h.finish hpump

/-! ## What has returned stays returned -/

theorem returned_quiet (s : State) (thread id : Nat) :
    s.quiet ⊆ (s.returned pumpThread thread id).quiet := by
  unfold State.returned
  split
  · exact fun _ h => h
  · exact List.subset_cons_self _ _

/-- Once quiet, a subscriber stays quiet. -/
theorem step_quiet {a : Action} {s' : State} (hstep : step pumpThread s a = some s') :
    s.quiet ⊆ s'.quiet := by
  cases step_stepped hstep with
  | register thread target fn userBuffer =>
    unfold State.register
    rcases fn with _ | callback
    · exact fun _ h => h
    · dsimp only
      split
      · exact fun _ h => h
      · split
        · exact fun _ h => h
        · exact fun _ h => h
  | unregister thread id =>
    unfold State.unregister
    split
    · exact returned_quiet s thread id
    · split
      · split
        · exact returned_quiet _ thread id
        · exact fun _ h => h
      · exact returned_quiet _ thread id
  | poll thread id =>
    unfold State.poll
    split
    · exact returned_quiet s thread id
    · split
      · exact returned_quiet _ thread id
      · exact fun _ h => h
  | broadcast target event =>
    unfold State.broadcast
    split
    · exact fun _ h => h
    · split
      · exact fun _ h => h
      · exact fun _ h => h
  | pin record id ids =>
    unfold State.pin
    split
    · exact fun _ h => h
    · split
      · exact fun _ h => h
      · exact fun _ h => h
  | pop => exact fun _ h => h
  | snapshot => exact fun _ h => h
  | rest => exact fun _ h => h
  | finish => exact fun _ h => h

end Steps

/-! ## Runs -/

/-- The interleavings of the sections. -/
abbrev Interleaving (pumpThread : Nat) : List (Action × State) → Prop :=
  Run (fun s a s' => step pumpThread s a = some s') {}

theorem Interleaving.quiet_subset {pumpThread : Nat} {past later : List (Action × State)}
    (h : Interleaving pumpThread (later ++ past)) :
    (lastState {} past).quiet ⊆ (lastState {} (later ++ past)).quiet := by
  induction later with
  | nil => exact fun _ hid => hid
  | cons last later ih =>
    cases h with
    | cons run hlast => exact fun id hid => step_quiet hlast (ih run hid)

/-- In every interleaving: once an unregistration has returned to a thread outside the
callback, the callback of the token does not run, then or later; a callback that runs, and
its buffer, are those of a listener that is still there; tokens are not used twice; and the
records that the pump has taken are the first ones that were queued, in their order. -/
theorem listeners_quiet {pumpThread : Nat} {run : List (Action × State)}
    (h : Interleaving pumpThread run) :
    (∀ past later, run = later ++ past → ∀ id ∈ (lastState {} past).quiet,
      ¬(lastState {} run).Calling id) ∧ (∀ record id callback userBuffer ids,
      (lastState {} run).pump = .calling record id callback userBuffer ids →
      ∃ sub ∈ (lastState {} run).subscribers, sub.id = id ∧ sub.callback = callback ∧
        sub.userBuffer = userBuffer) ∧ (lastState {} run).tokens.Nodup ∧
    (lastState {} run).sent = (lastState {} run).dispatched ++
      (lastState {} run).queue.contents := by
  have hinv : Inv pumpThread (lastState {} run) :=
    h.invariant (Inv.init pumpThread) fun _ _ _ hs hstep => hs.step hstep
  refine ⟨?_, ?_, hinv.tokens_nodup, hinv.order⟩
  · rintro past later rfl id hquiet ⟨record, callback, userBuffer, ids, hpump⟩
    obtain ⟨sub, hsub, hid, -⟩ := hinv.calling record id callback userBuffer ids hpump
    exact hinv.quiet_gone id (h.quiet_subset hquiet) sub hsub hid
  · intro record id callback userBuffer ids hpump
    obtain ⟨sub, hsub, hid, hcallback, hbuffer, -⟩ :=
      hinv.calling record id callback userBuffer ids hpump
    exact ⟨sub, hsub, hid, hcallback, hbuffer⟩

/-- The state after a section that can run. -/
def after (pumpThread : Nat) (s : State) (a : Action) : State := (step pumpThread s a).getD s

/-- The sections can run one after the other. -/
def possible (pumpThread : Nat) : State → List Action → Bool
  | _, [] => true
  | s, a :: rest => (step pumpThread s a).isSome && possible pumpThread (after pumpThread s a) rest

theorem Interleaving.extend {pumpThread : Nat} {past : List (Action × State)}
    (actions : List Action) (h : Interleaving pumpThread past)
    (hpossible : possible pumpThread (lastState {} past) actions = true) :
    ∃ run, Interleaving pumpThread run ∧
      lastState {} run = actions.foldl (after pumpThread) (lastState {} past) := by
  induction actions generalizing past with
  | nil => exact ⟨past, h, rfl⟩
  | cons a rest ih =>
    obtain ⟨hsome, hrest⟩ := Bool.and_eq_true_iff.1 hpossible
    have hstep : step pumpThread (lastState {} past) a =
        some (after pumpThread (lastState {} past) a) := by
      obtain ⟨s', hs'⟩ := Option.isSome_iff_exists.1 hsome
      unfold after
      rw [hs']
      rfl
    exact @ih ((a, after pumpThread (lastState {} past) a) :: past) (.cons h hstep) hrest

/-- Another thread unregisters a listener while its callback runs, and waits for it. -/
def waitingExample : List Action :=
  [.register 5 (.kobject (some 7)) (some 100) 200, .broadcast (.kobject (some 7)) {}, .pop,
    .snapshot, .next, .unregister 5 1, .finish, .poll 5]

theorem listeners_quiet_waiting :
    ∃ run, Interleaving 0 run ∧ 1 ∈ (lastState {} run).quiet ∧ ¬(lastState {} run).Calling 1 := by
  obtain ⟨run, hrun, hlast⟩ := Interleaving.extend waitingExample
    (Run.nil : Interleaving 0 []) (by decide +kernel)
  have hquiet : 1 ∈ (lastState {} run).quiet := by
    rw [hlast]
    decide +kernel
  exact ⟨run, hrun, hquiet, (listeners_quiet hrun).1 run [] rfl 1 hquiet⟩

end UnDOS.Event
