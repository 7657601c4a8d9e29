import UnDOS.Event.Quiet

/-!
# What an Unregistration Returns

The return value of `KE_EVENT_UnregisterInterest`, over every interleaving.
A token that has not been passed to an unregistration still has its listener, which is not dead.
-/

namespace UnDOS.Event

open UnDOS.Lib
open UnDOS.Kernel (KernelError)

/-! ## Return values -/

namespace State

/-- What the first section of `KE_EVENT_UnregisterInterest` returns; `none` while it waits. -/
def unregisterReply (s : State) (thread id : Nat) : Option (Except KernelError Unit) :=
  match findSubscriber s.subscribers id with
  | none => some (.error .notFound)
  | some sub =>
    if 0 < sub.activeCalls then
      if s.callerIsDispatching thread id then some (.ok ()) else none
    else some (.ok ())

/-- What a round of the waiting loop returns; `none` if the loop goes on. -/
def pollReply (s : State) (id : Nat) : Option (Except KernelError Unit) :=
  match findSubscriber s.subscribers id with
  | none => some (.error .notFound)
  | some sub => if sub.activeCalls = 0 then some (.ok ()) else none

end State

/-- What the call of `thread` with the token returns, if it has returned in the `later` run: the
value of its first section, or else that of the first round that ends its loop. -/
def answer (pumpThread : Nat) (s : State) (thread id : Nat) :
    List (Action × State) → Option (Except KernelError Unit)
  | [] => s.unregisterReply thread id
  | (a, _) :: later =>
    (answer pumpThread s thread id later).or <|
      if a = .poll thread then
        (lastState (s.unregister pumpThread thread id) later).pollReply id
      else none

/-! ## Changes of the list -/

/-- A listener that no new dispatch picks up. -/
def EventSubscriber.marked (sub : EventSubscriber) : EventSubscriber := { sub with dead := true }

/-- A listener with one more callback. -/
def EventSubscriber.pinnedOnce (sub : EventSubscriber) : EventSubscriber :=
  { sub with activeCalls := sub.activeCalls + 1 }

/-- How a section can change the list of listeners. -/
inductive Edit (s : State) : Action → List EventSubscriber → Prop where
  | same (a : Action) : Edit s a s.subscribers
  | register {thread : Nat} {target : Source} {fn : Option Nat} {userBuffer : Nat}
      (sub : EventSubscriber) (hid : sub.id = s.nextTokenId) (hne : s.nextTokenId ≠ 0)
      (halive : sub.dead = false) :
      Edit s (.register thread target fn userBuffer) (s.subscribers ++ [sub])
  | mark (thread id : Nat) :
      Edit s (.unregister thread id) (modifySubscriber id .marked s.subscribers)
  | remove (thread id : Nat) :
      Edit s (.unregister thread id)
        (eraseSubscriber (modifySubscriber id .marked s.subscribers) id)
  | reap (thread id : Nat) (hwait : s.waiting thread = some id) :
      Edit s (.poll thread) (eraseSubscriber s.subscribers id)
  | pin (id : Nat) : Edit s .next (modifySubscriber id .pinnedOnce s.subscribers)
  | release (id : Nat) (hcalling : s.Calling id) :
      Edit s .finish (releaseSubscriber id s.subscribers)

section Steps
variable {pumpThread : Nat} {s s' : State} {a : Action}

theorem register_edit (s : State) (thread : Nat) (target : Source) (fn : Option Nat)
    (userBuffer : Nat) : Edit s (.register thread target fn userBuffer)
      (s.register target fn userBuffer).2.subscribers := by
  unfold State.register
  rcases fn with _ | callback
  · exact .same _
  dsimp only
  split
  · exact .same _
  split
  · exact .same _
  · rename_i hne
    exact .register _ rfl hne rfl

theorem unregister_edit (s : State) (thread id : Nat) :
    Edit s (.unregister thread id) (s.unregister pumpThread thread id).subscribers := by
  unfold State.unregister
  split
  · exact .same _
  split
  · split
    · exact .mark thread id
    · exact .mark thread id
  · exact .remove thread id

variable {thread id other token : Nat}

theorem poll_edit (hwait : s.waiting thread = some id) :
    Edit s (.poll thread) (s.poll pumpThread thread id).subscribers := by
  unfold State.poll
  split
  · exact .same _
  · split
    · exact .reap thread id hwait
    · exact .same _

theorem pin_edit (s : State) (record : BroadcastRecord) (id : Nat) (ids : List Nat) :
    Edit s .next (s.pin pumpThread record id ids).subscribers := by
  unfold State.pin
  split
  · exact .same _
  · split
    · exact .same _
    · exact .pin id

theorem step_edit (hstep : step pumpThread s a = some s') : Edit s a s'.subscribers := by
  cases step_stepped hstep with
  | register thread target fn userBuffer => exact register_edit s thread target fn userBuffer
  | unregister thread id => exact unregister_edit s thread id
  | poll thread id hwait => exact poll_edit hwait
  | broadcast target event =>
    unfold State.broadcast
    split
    · exact .same _
    · split
      · exact .same _
      · exact .same _
  | pin record id ids => exact pin_edit s _ _ _
  | finish record id callback userBuffer ids hpump =>
    exact .release id ⟨record, callback, userBuffer, ids, hpump⟩
  | pop => exact .same _
  | snapshot => exact .same _
  | rest => exact .same _

/-! ## What a change leaves -/

theorem release_alive {subs : List EventSubscriber} {sub : EventSubscriber}
    (hsub : sub ∈ subs) (halive : sub.dead = false) :
    ∃ sub' ∈ releaseSubscriber id subs, sub'.id = sub.id ∧ sub'.dead = false := by
  induction subs with
  | nil => cases hsub
  | cons first rest ih =>
    unfold releaseSubscriber
    split
    · rcases List.mem_cons.1 hsub with rfl | hrest
      · exact ⟨sub, .head _, rfl, halive⟩
      · obtain ⟨sub', hmem, hid, hdead⟩ := ih hrest
        exact ⟨sub', .tail _ hmem, hid, hdead⟩
    · dsimp only
      rcases List.mem_cons.1 hsub with rfl | hrest
      · rw [if_neg fun hreap => Bool.noConfusion (halive.symm.trans hreap.1)]
        exact ⟨_, .head _, rfl, halive⟩
      · split
        · exact ⟨sub, hrest, rfl, halive⟩
        · exact ⟨sub, .tail _ hrest, rfl, halive⟩

theorem release_reaps {subs : List EventSubscriber} {sub : EventSubscriber}
    (hnodup : (subs.map EventSubscriber.id).Nodup) (hsub : sub ∈ subs) (hdead : sub.dead = true)
    (hlast : sub.activeCalls = 1) : ∀ sub' ∈ releaseSubscriber sub.id subs, sub'.id ≠ sub.id := by
  induction subs with
  | nil => cases hsub
  | cons first rest ih =>
    obtain ⟨hnot, hrest⟩ := List.nodup_cons.1 hnodup
    unfold releaseSubscriber
    rcases List.mem_cons.1 hsub with rfl | hmem
    · rw [if_neg (not_not.2 rfl)]
      rw [if_pos ⟨hdead, by rw [hlast]⟩]
      intro sub' hsub' heq
      exact hnot (List.mem_map.2 ⟨sub', hsub', heq⟩)
    · have hne : first.id ≠ sub.id := by
        intro heq
        exact hnot (List.mem_map.2 ⟨sub, hmem, heq.symm⟩)
      rw [if_pos hne]
      intro sub' hsub'
      rcases List.mem_cons.1 hsub' with rfl | htail
      · exact hne
      · exact ih hrest hmem sub' htail

theorem Edit.old {subs' : List EventSubscriber} (h : Edit s a subs')
    (hnodup : (s.subscribers.map EventSubscriber.id).Nodup) {sub' : EventSubscriber}
    (hmem : sub' ∈ subs') :
    (∃ sub ∈ s.subscribers, sub'.id = sub.id ∧ (sub.dead = true → sub'.dead = true)) ∨
      sub'.id = s.nextTokenId ∧ s.nextTokenId ≠ 0 := by
  -- a change of one listener that keeps its token
  have hmodify (token : Nat) (f : EventSubscriber → EventSubscriber)
      (hf : ∀ sub, (f sub).id = sub.id) (hdead : ∀ sub, sub.dead = true → (f sub).dead = true)
      {sub'' : EventSubscriber} (hmem'' : sub'' ∈ modifySubscriber token f s.subscribers) :
      ∃ sub ∈ s.subscribers, sub''.id = sub.id ∧ (sub.dead = true → sub''.dead = true) := by
    obtain ⟨sub, hsub, rfl⟩ := (mem_modify hnodup).1 hmem''
    refine ⟨sub, hsub, ?_⟩
    split
    · exact ⟨hf sub, hdead sub⟩
    · exact ⟨rfl, id⟩
  cases h with
  | same => exact .inl ⟨sub', hmem, rfl, id⟩
  | register sub hid hne halive =>
    rcases List.mem_append.1 hmem with hold | hlast
    · exact .inl ⟨sub', hold, rfl, id⟩
    · rw [List.mem_singleton.1 hlast]
      exact .inr ⟨hid, hne⟩
  | mark thread token =>
    exact .inl (hmodify token .marked (fun _ => rfl) (fun _ _ => rfl) hmem)
  | remove thread token =>
    exact .inl (hmodify token .marked (fun _ => rfl) (fun _ _ => rfl) (List.mem_of_mem_eraseP hmem))
  | reap thread token hwait => exact .inl ⟨sub', List.mem_of_mem_eraseP hmem, rfl, id⟩
  | pin token =>
    exact .inl (hmodify token .pinnedOnce (fun _ => rfl) (fun _ hdead => hdead) hmem)
  | release token hcalling =>
    rcases mem_release hnodup hmem with ⟨hold, -⟩ | ⟨sub, hold, -, rfl⟩
    · exact .inl ⟨sub', hold, rfl, id⟩
    · exact .inl ⟨sub, hold, rfl, id⟩

theorem Edit.alive {subs' : List EventSubscriber} (h : Edit s a subs')
    (hnodup : (s.subscribers.map EventSubscriber.id).Nodup) {sub : EventSubscriber}
    (hsub : sub ∈ s.subscribers) (halive : sub.dead = false)
    (hkeep : ∀ thread, a ≠ .unregister thread sub.id)
    (hwaits : ∀ thread, s.waiting thread ≠ some sub.id) :
    ∃ sub' ∈ subs', sub'.id = sub.id ∧ sub'.dead = false := by
  have hmodify (token : Nat) (f : EventSubscriber → EventSubscriber)
      (hf : ∀ sub, (f sub).id = sub.id) (hdead : sub.id = token → (f sub).dead = false) :
      ∃ sub' ∈ modifySubscriber token f s.subscribers, sub'.id = sub.id ∧ sub'.dead = false := by
    refine ⟨_, (mem_modify hnodup).2 ⟨sub, hsub, rfl⟩, ?_⟩
    split
    · rename_i hid
      exact ⟨hf sub, hdead hid⟩
    · exact ⟨rfl, halive⟩
  have hmarked (thread token : Nat) (ha : a = .unregister thread token) :
      ∃ sub' ∈ modifySubscriber token .marked s.subscribers,
        sub'.id = sub.id ∧ sub'.dead = false := by
    apply hmodify token .marked (fun _ => rfl)
    intro hid
    exact absurd (hid ▸ ha) (hkeep thread)
  cases h with
  | same => exact ⟨sub, hsub, rfl, halive⟩
  | register _ _ _ _ => exact ⟨sub, List.mem_append_left _ hsub, rfl, halive⟩
  | mark thread token => exact hmarked thread token rfl
  | remove thread token =>
    obtain ⟨sub', hmem, hid, hdead⟩ := hmarked thread token rfl
    have hnodup' : ((modifySubscriber token .marked s.subscribers).map EventSubscriber.id).Nodup :=
      modify_nodup hnodup fun _ => rfl
    refine ⟨sub', (mem_erase hnodup').2 ⟨hmem, ?_⟩, hid, hdead⟩
    intro heq
    exact hkeep thread (by rw [← hid, heq])
  | reap thread token hwait =>
    refine ⟨sub, (mem_erase hnodup).2 ⟨hsub, ?_⟩, rfl, halive⟩
    intro heq
    exact hwaits thread (heq ▸ hwait)
  | pin token => exact hmodify token .pinnedOnce (fun _ => rfl) fun _ => halive
  | release token hcalling => exact release_alive hsub halive

/-! ## Tokens and waiting threads -/

theorem returned_waiting (s : State) (thread id : Nat)
    (h : (s.returned pumpThread thread id).waiting other = some token) :
    s.waiting other = some token := by
  unfold State.returned at h
  dsimp only at h
  by_cases hother : other = thread
  · rw [hother, Function.update_self] at h
    cases h
  · rwa [Function.update_of_ne hother] at h

/-- Only a call of `KE_EVENT_UnregisterInterest` waits, and never on the pump thread: the one
callback that runs there is its own. -/
theorem Inv.unregister_waiting (h : Inv pumpThread s)
    (hwait : (s.unregister pumpThread thread id).waiting other = some token) :
    s.waiting other = some token ∨ other = thread ∧ token = id ∧ other ≠ pumpThread := by
  unfold State.unregister at hwait
  rcases hfind : findSubscriber s.subscribers id with _ | sub
  · rw [hfind] at hwait
    exact .inl (returned_waiting s thread id hwait)
  obtain ⟨hsub, hid⟩ := find_some hfind
  rw [hfind] at hwait
  dsimp only at hwait
  split at hwait
  · rename_i hactive
    split at hwait
    · have hold := returned_waiting _ thread id hwait
      exact .inl hold
    · rename_i hcaller
      by_cases hother : other = thread
      · dsimp only at hwait
        rw [hother, Function.update_self] at hwait
        refine .inr ⟨hother, (Option.some.inj hwait).symm, ?_⟩
        intro hpump
        have hcalling := h.pinned sub hsub hactive
        obtain ⟨hdispatching, hthread⟩ := h.caller sub.id hcalling
        have hne : s.dispatchingId ≠ 0 := by
          rw [hdispatching]
          exact Nat.ne_of_gt (h.tokens_lt _ (h.registered sub hsub)).1
        apply hcaller
        unfold State.callerIsDispatching
        simp [hdispatching, hid, hthread, ← hother, hpump]
        exact fun hzero => hne (hdispatching.trans (hid.trans hzero))
      · dsimp only at hwait
        rw [Function.update_of_ne hother] at hwait
        exact .inl hwait
  · have hold := returned_waiting _ thread id hwait
    exact .inl hold

theorem poll_waiting (hwait : (s.poll pumpThread thread id).waiting other = some token) :
    s.waiting other = some token := by
  unfold State.poll at hwait
  split at hwait
  · exact returned_waiting s thread id hwait
  · split at hwait
    · have hold := returned_waiting _ thread id hwait
      exact hold
    · exact hwait

theorem register_frame (s : State) (target : Source) (fn : Option Nat) (userBuffer : Nat) :
    (s.register target fn userBuffer).2.waiting = s.waiting ∧
      (s.register target fn userBuffer).2.pump = s.pump := by
  unfold State.register
  rcases fn with _ | callback
  · exact ⟨rfl, rfl⟩
  split_ifs <;> exact ⟨rfl, rfl⟩

theorem step_waiting (h : Inv pumpThread s) (hstep : step pumpThread s a = some s')
    (hwait : s'.waiting other = some token) :
    s.waiting other = some token ∨ a = .unregister other token ∧ other ≠ pumpThread := by
  cases step_stepped hstep with
  | register thread target fn userBuffer =>
    rw [(register_frame s target fn userBuffer).1] at hwait
    exact .inl hwait
  | unregister thread id =>
    rcases h.unregister_waiting hwait with hold | ⟨rfl, rfl, hne⟩
    · exact .inl hold
    · exact .inr ⟨rfl, hne⟩
  | poll thread id => exact .inl (poll_waiting hwait)
  | broadcast target event =>
    unfold State.broadcast at hwait
    split_ifs at hwait <;> exact .inl hwait
  | pin record id ids =>
    unfold State.pin at hwait
    split at hwait
    · exact .inl hwait
    · split at hwait <;> exact .inl hwait
  | pop => exact .inl hwait
  | snapshot => exact .inl hwait
  | rest => exact .inl hwait
  | finish => exact .inl hwait

/-- A token is new only by a registration, and then its listener is in the list. -/
theorem step_tokens (hstep : step pumpThread s a = some s') :
    (id ∈ s'.tokens → id ∈ s.tokens ∨ ∃ sub ∈ s'.subscribers, sub.id = id ∧ sub.dead = false) ∧
      (id ∈ s.tokens → id ∈ s'.tokens) := by
  have hkept : s'.tokens = s.tokens →
      (id ∈ s'.tokens → id ∈ s.tokens ∨ ∃ sub ∈ s'.subscribers, sub.id = id ∧ sub.dead = false) ∧
        (id ∈ s.tokens → id ∈ s'.tokens) := by
    intro hsame
    rw [hsame]
    exact ⟨.inl, fun hid => hid⟩
  cases step_stepped hstep with
  | register thread target fn userBuffer =>
    unfold State.register
    rcases fn with _ | callback
    · exact ⟨.inl, fun hid => hid⟩
    dsimp only
    split
    · exact ⟨.inl, fun hid => hid⟩
    split
    · exact ⟨.inl, fun hid => hid⟩
    refine ⟨?_, .tail _⟩
    intro hid
    rcases List.mem_cons.1 hid with rfl | hold
    · exact .inr ⟨_, List.mem_append_right _ (.head _), rfl, rfl⟩
    · exact .inl hold
  | unregister thread id =>
    apply hkept
    unfold State.unregister
    split
    · rfl
    · split_ifs <;> rfl
  | poll thread id =>
    apply hkept
    unfold State.poll
    split
    · rfl
    · split <;> rfl
  | broadcast target event =>
    apply hkept
    unfold State.broadcast
    split_ifs <;> rfl
  | pin record id ids =>
    apply hkept
    unfold State.pin
    split
    · rfl
    · split <;> rfl
  | pop => exact hkept rfl
  | snapshot => exact hkept rfl
  | rest => exact hkept rfl
  | finish => exact hkept rfl

theorem step_calling (hstep : step pumpThread s a = some s') (hcalling : s.Calling id)
    (hnot : a ≠ .finish) : s'.Calling id := by
  obtain ⟨record, callback, userBuffer, ids, hcalls⟩ := hcalling
  refine ⟨record, callback, userBuffer, ids, ?_⟩
  cases step_stepped hstep with
  | register thread target fn userBuffer =>
    exact (register_frame s target fn userBuffer).2.trans hcalls
  | unregister thread id =>
    unfold State.unregister
    split
    · exact hcalls
    · split_ifs <;> exact hcalls
  | poll thread id =>
    unfold State.poll
    split
    · exact hcalls
    · split <;> exact hcalls
  | broadcast target event =>
    unfold State.broadcast
    split_ifs <;> exact hcalls
  | pop record queue hpump => cases hpump.symm.trans hcalls
  | snapshot record hpump => cases hpump.symm.trans hcalls
  | rest record hpump => cases hpump.symm.trans hcalls
  | pin record id ids hpump => cases hpump.symm.trans hcalls
  | finish => exact absurd rfl hnot

end Steps

/-! ## Live tokens -/

/-- The token has been passed to an unregistration. -/
def Passed (past : List (Action × State)) (id : Nat) : Prop :=
  ∃ thread, .unregister thread id ∈ past.map Prod.fst

/-- The thread can call with a token that was handed out and not yet passed. -/
structure FirstCall (pumpThread : Nat) (past : List (Action × State)) (thread id : Nat) :
    Prop where
  canCall : (lastState {} past).canCall pumpThread thread = true
  token : id ∈ (lastState {} past).tokens
  fresh : ¬Passed past id

/-- Who waits has passed its token and is not the pump thread, and a token that was not passed has
its listener. -/
structure Followed (pumpThread : Nat) (past : List (Action × State)) : Prop where
  inv : Inv pumpThread (lastState {} past)
  waits : ∀ thread id, (lastState {} past).waiting thread = some id → Passed past id
  pump : (lastState {} past).waiting pumpThread = none
  alive : ∀ id ∈ (lastState {} past).tokens, ¬Passed past id →
    ∃ sub ∈ (lastState {} past).subscribers, sub.id = id ∧ sub.dead = false

variable {past : List (Action × State)}

theorem Passed.cons {id : Nat} (h : Passed past id)
    (last : Action × State) : Passed (last :: past) id := by
  obtain ⟨thread, hmem⟩ := h
  exact ⟨thread, .tail _ hmem⟩

theorem Interleaving.followed {pumpThread : Nat}
    (h : Interleaving pumpThread past) : Followed pumpThread past := by
  induction h with
  | nil =>
    refine ⟨Inv.init pumpThread, ?_, rfl, ?_⟩
    · intro _ _ hwait
      cases hwait
    · intro _ hid
      cases hid
  | @cons past a s run last ih =>
    refine ⟨ih.inv.step last, ?_, ?_, ?_⟩
    · intro thread id hwait
      rcases step_waiting ih.inv last hwait with hold | ⟨rfl, -⟩
      · exact (ih.waits thread id hold).cons _
      · exact ⟨thread, .head _⟩
    · rcases hwait : s.waiting pumpThread with _ | id
      · exact hwait
      · rcases step_waiting ih.inv last hwait with hold | ⟨-, hne⟩
        · rw [ih.pump] at hold
          cases hold
        · exact absurd rfl hne
    · intro id hid hfresh
      have hfreshPast : ¬Passed past id := fun hpassed => hfresh (hpassed.cons _)
      rcases (step_tokens last).1 hid with hold | hnew
      · obtain ⟨sub, hsub, rfl, halive⟩ := ih.alive id hold hfreshPast
        apply (step_edit last).alive ih.inv.nodup hsub halive
        · rintro thread rfl
          exact hfresh ⟨thread, .head _⟩
        · intro thread hwait
          exact hfreshPast (ih.waits thread _ hwait)
      · exact hnew

/-! ## A callback in flight -/

/-- The listener of the token is gone, or marked while its callback still runs. -/
structure Leaving (pumpThread : Nat) (s : State) (id : Nat) : Prop where
  inv : Inv pumpThread s
  token : id ∈ s.tokens
  marked : ∀ sub ∈ s.subscribers, sub.id = id → sub.dead = true ∧ s.Calling id

section Leaving
variable {pumpThread : Nat} {s s' : State} {a : Action} {id : Nat}

theorem Inv.pinned_once (h : Inv pumpThread s) {sub : EventSubscriber} (hsub : sub ∈ s.subscribers)
    (hcalling : s.Calling sub.id) : sub.activeCalls = 1 := by
  obtain ⟨record, callback, userBuffer, ids, hpump⟩ := hcalling
  obtain ⟨other, hother, hid, -, -, hone⟩ := h.calling record sub.id callback userBuffer ids hpump
  rw [← eq_of_id_eq h.nodup hother hsub hid]
  exact hone

theorem Leaving.kept (h : Leaving pumpThread s id) (hstep : step pumpThread s a = some s') :
    Leaving pumpThread s' id where
  inv := h.inv.step hstep
  token := (step_tokens hstep).2 h.token
  marked := by
    have hedit := step_edit hstep
    intro sub' hsub' hid'
    rcases hedit.old h.inv.nodup hsub' with ⟨sub, hsub, hid, hdead⟩ | ⟨hnew, hne⟩
    · obtain ⟨hmarked, hcalling⟩ := h.marked sub hsub (hid.symm.trans hid')
      refine ⟨hdead hmarked, ?_⟩
      by_cases hfinish : a = .finish
      · -- the pump thread reaps the marked listener with its last pin
        obtain ⟨record, callback, userBuffer, ids, hpump⟩ := hcalling
        subst hfinish
        simp only [UnDOS.Event.step, hpump] at hstep
        split at hstep
        · cases hstep
          have hsubId : sub.id = id := hid.symm.trans hid'
          have hone := h.inv.pinned_once hsub ⟨record, callback, userBuffer, ids, hsubId ▸ hpump⟩
          exact absurd (hid'.trans hsubId.symm)
            (release_reaps h.inv.nodup hsub hmarked hone sub' (hsubId ▸ hsub'))
        · cases hstep
      · exact step_calling hstep hcalling hfinish
    · have := (h.inv.tokens_lt id h.token).2 hne
      omega

theorem Leaving.pollReply_notFound (h : Leaving pumpThread s id) (hdone : ¬s.Calling id) :
    s.pollReply id = some (.error .notFound) := by
  unfold State.pollReply
  rcases hfind : findSubscriber s.subscribers id with _ | sub
  · rfl
  · obtain ⟨hsub, rfl⟩ := find_some hfind
    exact absurd (h.marked sub hsub rfl).2 hdone

end Leaving

/-! ## The first call -/

section FirstCall
variable {pumpThread : Nat} {past : List (Action × State)} {thread id : Nat}

/-- Another thread comes to unregister while the callback of the token runs. -/
def Intrudes (pumpThread : Nat) (s : State) (thread id : Nat) : Prop :=
  thread ≠ pumpThread ∧ s.Calling id

theorem FirstCall.reply (hcall : FirstCall pumpThread past thread id)
    (h : Interleaving pumpThread past)
      (hquiet : ¬Intrudes pumpThread (lastState {} past) thread id) :
    (lastState {} past).unregisterReply thread id = some (.ok ()) := by
  have hfollowed := h.followed
  obtain ⟨sub, hsub, hid, -⟩ := hfollowed.alive id hcall.token hcall.fresh
  unfold State.unregisterReply
  rcases hfind : findSubscriber (lastState {} past).subscribers id with _ | found
  · exact absurd hid (find_none hfind sub hsub)
  obtain ⟨hfound, hfoundId⟩ := find_some hfind
  rw [hfind]
  dsimp only
  split
  · rename_i hactive
    have hcalling := hfollowed.inv.pinned found hfound hactive
    rw [hfoundId] at hcalling
    have hthread : thread = pumpThread := by
      by_contra hne
      exact hquiet ⟨hne, hcalling⟩
    obtain ⟨hdispatching, hpump⟩ := hfollowed.inv.caller id hcalling
    have hpositive : id ≠ 0 := Nat.ne_of_gt (hfollowed.inv.tokens_lt id hcall.token).1
    unfold State.callerIsDispatching
    simp [hdispatching, hpump, hthread, hpositive]
  · rfl

/-- While the pump is in a callback, the first call to unregister waits for its end. -/
theorem FirstCall.waits (hcall : FirstCall pumpThread past thread id)
    (h : Interleaving pumpThread past)
    (hintrudes : Intrudes pumpThread (lastState {} past) thread id) :
    (lastState {} past).unregisterReply thread id = none ∧
      ((lastState {} past).unregister pumpThread thread id).waiting thread = some id ∧
      ((lastState {} past).unregister pumpThread thread id).pump = (lastState {} past).pump ∧
      ((lastState {} past).unregister pumpThread thread id).waiting pumpThread = none ∧
      Leaving pumpThread ((lastState {} past).unregister pumpThread thread id) id := by
  have hfollowed := h.followed
  obtain ⟨hne, hcalling⟩ := hintrudes
  have hinv' : Inv pumpThread ((lastState {} past).unregister pumpThread thread id) :=
    hfollowed.inv.unregister hcall.token
  obtain ⟨sub, hsub, hid, -⟩ := hfollowed.alive id hcall.token hcall.fresh
  rcases hfind : findSubscriber (lastState {} past).subscribers id with _ | found
  · exact absurd hid (find_none hfind sub hsub)
  obtain ⟨hfound, rfl⟩ := find_some hfind
  have hone := hfollowed.inv.pinned_once hfound hcalling
  have hcaller : (lastState {} past).callerIsDispatching thread found.id = false := by
    unfold State.callerIsDispatching
    simp [(hfollowed.inv.caller found.id hcalling).2, hne.symm]
  have hunregister : (lastState {} past).unregister pumpThread thread found.id =
      { lastState {} past with
        subscribers := modifySubscriber found.id .marked (lastState {} past).subscribers
        waiting := Function.update (lastState {} past).waiting thread (some found.id) } := by
    unfold State.unregister
    rw [hfind]
    dsimp only
    rw [hone, if_neg (Bool.eq_false_iff.1 hcaller)]
    rfl
  rw [hunregister] at hinv' ⊢
  refine ⟨?_, Function.update_self .., rfl, ?_, hinv', hcall.token, ?_⟩
  · unfold State.unregisterReply
    rw [hfind]
    dsimp only
    rw [hone, if_pos Nat.one_pos, if_neg (Bool.eq_false_iff.1 hcaller)]
  · exact (Function.update_of_ne hne.symm _ _).trans hfollowed.pump
  · intro sub' hsub' hid'
    refine ⟨?_, hcalling⟩
    obtain ⟨old, hold, rfl⟩ := (mem_modify hfollowed.inv.nodup).1 hsub'
    split at hid'
    · rename_i hmarked
      rw [if_pos hmarked]
      rfl
    · rename_i hother
      exact absurd hid' hother

theorem answer_of_first {s : State} {reply : Except KernelError Unit}
    (hfirst : s.unregisterReply thread id = some reply) (later : List (Action × State)) :
    answer pumpThread s thread id later = some reply := by
  induction later with
  | nil => exact hfirst
  | cons last later ih =>
    unfold answer
    rw [ih]
    rfl

theorem finish_step {s : State} {record : BroadcastRecord} {callback userBuffer : Nat}
    {ids : List Nat} (hpump : s.pump = .calling record id callback userBuffer ids)
    (hfree : s.waiting pumpThread = none) :
    ∃ s', step pumpThread s .finish = some s' ∧ s'.pump = .dispatching record ids ∧
      s'.waiting = s.waiting := by
  unfold step
  rw [hpump]
  rw [hfree]
  exact ⟨_, rfl, rfl, rfl⟩

theorem FirstCall.fails (hcall : FirstCall pumpThread past thread id)
    (h : Interleaving pumpThread past)
    (hintrudes : Intrudes pumpThread (lastState {} past) thread id) :
    ∃ later, Run (fun s a s' => step pumpThread s a = some s')
        ((lastState {} past).unregister pumpThread thread id) later ∧
      answer pumpThread (lastState {} past) thread id later = some (.error .notFound) := by
  obtain ⟨hnone, hwait, hpump, hfree, hleaving⟩ := hcall.waits h hintrudes
  obtain ⟨-, record, callback, userBuffer, ids, hcalling⟩ := hintrudes
  rw [hcalling] at hpump
  generalize hs₁ : (lastState {} past).unregister pumpThread thread id = s₁ at *
  obtain ⟨s₂, hfinish, hidle, hwait'⟩ := finish_step hpump hfree
  have hdone : ¬s₂.Calling id := by
    rintro ⟨_, _, _, _, habsurd⟩
    rw [hidle] at habsurd
    cases habsurd
  have hpoll : step pumpThread s₂ (.poll thread) = some (s₂.poll pumpThread thread id) := by
    simp only [step, hwait', hwait]
    rfl
  have hrun : Run (fun s a s' => step pumpThread s a = some s') s₁ [(.finish, s₂)] :=
    .cons .nil hfinish
  refine ⟨[(.poll thread, _), (.finish, s₂)], .cons hrun hpoll, ?_⟩
  unfold answer answer answer
  rw [hnone, if_pos rfl]
  exact (hleaving.kept hfinish).pollReply_notFound hdone

/-- In every interleaving, the first call with a live token does not fail, whatever happens until
it returns, exactly if no other thread than the caller runs a callback of the token when it comes.
Then it succeeds at once. -/
theorem unregister_succeeds_iff (h : Interleaving pumpThread past)
    (hcall : FirstCall pumpThread past thread id) :
    ((∀ later, Run (fun s a s' => step pumpThread s a = some s')
        ((lastState {} past).unregister pumpThread thread id) later →
        ∀ reply, answer pumpThread (lastState {} past) thread id later = some reply →
          reply = .ok ()) ↔ ¬Intrudes pumpThread (lastState {} past) thread id) ∧
    (¬Intrudes pumpThread (lastState {} past) thread id →
      ∀ later, answer pumpThread (lastState {} past) thread id later = some (.ok ())) := by
  have hquiet : ¬Intrudes pumpThread (lastState {} past) thread id →
      ∀ later, answer pumpThread (lastState {} past) thread id later = some (.ok ()) :=
    fun hnot => answer_of_first (hcall.reply h hnot)
  refine ⟨⟨?_, ?_⟩, hquiet⟩
  · intro hsucceeds hintrudes
    obtain ⟨later, hrun, hfailed⟩ := hcall.fails h hintrudes
    cases hsucceeds later hrun _ hfailed
  · intro hnot later _ reply hreply
    rw [hquiet hnot later] at hreply
    exact (Option.some.inj hreply).symm

end FirstCall

/-! ## Runs of given sections -/

/-- The run of the sections after a run. -/
def carriedOn (pumpThread : Nat) :
    List (Action × State) → List Action → List (Action × State)
  | past, [] => past
  | past, a :: rest =>
      carriedOn pumpThread ((a, after pumpThread (lastState {} past) a) :: past) rest

theorem Interleaving.carriedOn {pumpThread : Nat}
    {actions : List Action} (h : Interleaving pumpThread past)
    (hpossible : possible pumpThread (lastState {} past) actions = true) :
    Interleaving pumpThread (carriedOn pumpThread past actions) := by
  induction actions generalizing past with
  | nil => exact h
  | cons a rest ih =>
    obtain ⟨hsome, hrest⟩ := Bool.and_eq_true_iff.1 hpossible
    obtain ⟨s', hs'⟩ := Option.isSome_iff_exists.1 hsome
    have hafter : after pumpThread (lastState {} past) a = s' := by
      unfold after
      rw [hs']
      rfl
    exact ih (.cons h (hs'.trans (congrArg some hafter.symm))) hrest

/-- A listener is registered. -/
def registered : List Action := [.register 5 (.kobject (some 7)) (some 100) 200]

/-- A registration, a broadcast and the callback of the listener. -/
def inFlight : List Action := registered ++
    [.broadcast (.kobject (some 7)) {}, .pop, .snapshot, .next]

theorem unregister_succeeds_iff_idle : ∃ past, Interleaving 0 past ∧ FirstCall 0 past 5 1 ∧
      answer 0 (lastState {} past) 5 1 [] = some (.ok ()) := by
  have hrun : Interleaving 0 (carriedOn 0 [] registered) :=
    Interleaving.carriedOn .nil (by decide +kernel)
  have hcall : FirstCall 0 (carriedOn 0 [] registered) 5 1 := by
    refine ⟨by decide +kernel, by decide +kernel, ?_⟩
    rintro ⟨thread, hmem⟩
    simp [carriedOn, registered] at hmem
  have hnot : ¬Intrudes 0 (lastState {} (carriedOn 0 [] registered)) 5 1 := by
    rintro ⟨-, _, _, _, _, hpump⟩
    cases hpump
  exact ⟨_, hrun, hcall, (unregister_succeeds_iff hrun hcall).2 hnot []⟩

/-- Thread 5 unregisters its listener while the pump thread calls it: it is told that there was
none. -/
theorem unregister_in_flight : ∃ past later, Interleaving 0 past ∧ FirstCall 0 past 5 1 ∧
      Run (fun s a s' => step 0 s a = some s') ((lastState {} past).unregister 0 5 1) later ∧
      answer 0 (lastState {} past) 5 1 later = some (.error .notFound) := by
  have hrun : Interleaving 0 (carriedOn 0 [] inFlight) :=
    Interleaving.carriedOn .nil (by decide +kernel)
  have hcall : FirstCall 0 (carriedOn 0 [] inFlight) 5 1 := by
    refine ⟨by decide +kernel, by decide +kernel, ?_⟩
    rintro ⟨thread, hmem⟩
    simp [carriedOn, inFlight, registered] at hmem
  have hintrudes : Intrudes 0 (lastState {} (carriedOn 0 [] inFlight)) 5 1 :=
    ⟨by decide, _, _, _, _, rfl⟩
  obtain ⟨later, hlater, hfailed⟩ := hcall.fails hrun hintrudes
  exact ⟨_, later, hrun, hcall, hlater, hfailed⟩

end UnDOS.Event
