import UnDOS.Input.EventRing

/-!
# What Becomes of Input Events

The history of an event ring: beside the ring it keeps, for every entry, the pushed events that
were merged into it, and how the entries ended that are no longer in the ring.
-/

namespace UnDOS.Input

open UnDOS.Lib

/-! ## Histories -/

/-- An entry of the ring with the pushed events it stands for, oldest first. -/
structure Group where
  events : List AnyInputEvent
  entry : AnyInputEvent
deriving DecidableEq

/-- How an entry ended: it was popped, or it was displaced by the push of `cause`. -/
inductive Fate where
  | delivered (group : Group)
  | dropped (group : Group) (cause : AnyInputEvent)
deriving DecidableEq

def Fate.group : Fate → Group
  | .delivered group | .dropped group _ => group

def Fate.delivered? : Fate → Option Group
  | .delivered group => some group
  | .dropped .. => none

/-- A ring, the events pushed and popped so far, and what became of the entries. -/
structure History where
  ring : EventRing
  pushed : List AnyInputEvent := []
  popped : List AnyInputEvent := []
  settled : List Fate := []
  waiting : List Group := []

inductive Action where
  | push (event : AnyInputEvent)
  | pop
deriving DecidableEq

namespace History

/-- A new ring. -/
def start : History := { ring := Ring.empty fun _ => .base {} }

/-- The push of `event` in the bookkeeping. -/
def record (h : History) (event : AnyInputEvent) : History :=
  match h.ring.way event with
  | .append => { h with waiting := h.waiting ++ [⟨[event], event⟩] }
  | .coalesce =>
    { h with
      waiting := h.waiting.dropLast ++ (h.waiting.getLast?.map fun g =>
        ⟨g.events ++ [event], g.entry.coalesce event⟩).toList }
  | .displace =>
    { h with
      settled := h.settled ++ (h.waiting.head?.map fun g => Fate.dropped g event).toList
      waiting := h.waiting.tail ++ [⟨[event], event⟩] }

/-- One call. -/
def step (h : History) : Action → History
  | .push event =>
    { h.record event with ring := h.ring.pushEvent event, pushed := h.pushed ++ [event] }
  | .pop =>
    match h.ring.pop with
    | none => h
    | some (event, ring) =>
      { h with
        ring := ring
        popped := h.popped ++ [event]
        settled := h.settled ++ (h.waiting.head?.map Fate.delivered).toList
        waiting := h.waiting.tail }

def Step (h : History) (a : Action) (h' : History) : Prop := h' = h.step a

theorem step_push (h : History) (event : AnyInputEvent) : h.step (.push event) =
    { h.record event with ring := h.ring.pushEvent event, pushed := h.pushed ++ [event] } := rfl

end History

/-- A sum that `int32_t` holds. -/
def FitsInt32 (n : Int) : Prop := -2 ^ 31 ≤ n ∧ n < 2 ^ 31

/-- The motion of `source` can be added to that of `target`. -/
def AnyInputEvent.Addable : AnyInputEvent → AnyInputEvent → Prop
  | .mouse target, .mouse source =>
    target.isMovementAbsolute = false → source.isMovementAbsolute = false →
      FitsInt32 (target.lastX.toInt + source.lastX.toInt) ∧
        FitsInt32 (target.lastY.toInt + source.lastY.toInt)
  | _, _ => True

/-- No click or keystroke is displaced by motion, and no sum of motion overflows. -/
def History.Careful (h : History) : Action → Prop
  | .push event =>
    (h.ring.way event = .displace → event.isPureMotion = true →
        h.ring.oldest.isPureMotion = true) ∧
      (h.ring.way event = .coalesce → h.ring.newest.Addable event)
  | .pop => True

/-! ## Entries and the events they stand for -/

namespace AnyInputEvent

theorem isPureMotion_coalesce {target source : AnyInputEvent} (htarget : target.isPureMotion = true)
    (hsource : source.isPureMotion = true) : (target.coalesce source).isPureMotion = true := by
  cases target with
  | base e => exact Bool.noConfusion htarget
  | keyboard e => exact Bool.noConfusion htarget
  | mouse target =>
    cases source with
    | base e => exact htarget
    | keyboard e => exact htarget
    | mouse source =>
      simp only [isPureMotion, beq_iff_eq] at htarget hsource
      simp only [coalesce, MouseInputEvent.coalesce, isPureMotion, beq_iff_eq]
      split_ifs
      · exact htarget
      · exact htarget
      · exact hsource

theorem toInt_add {a b : Int32} (h : FitsInt32 (a.toInt + b.toInt)) :
    (a + b).toInt = a.toInt + b.toInt := by
  rw [Int32.toInt_add]
  obtain ⟨hlow, hhigh⟩ := h
  rw [Int.bmod_eq_of_le] <;> omega

theorem coalesce_relative {target source : AnyInputEvent} (htarget : target.isPureMotion = true)
    (hsource : source.isPureMotion = true) (hadd : target.Addable source)
    (hrelTarget : target.isAbsolute = false) (hrelSource : source.isAbsolute = false) :
    (target.coalesce source).isAbsolute = false ∧
      (target.coalesce source).displacement = target.displacement + source.displacement := by
  cases target with
  | base e => exact Bool.noConfusion htarget
  | keyboard e => exact Bool.noConfusion htarget
  | mouse target =>
    cases source with
    | base e => exact Bool.noConfusion hsource
    | keyboard e => exact Bool.noConfusion hsource
    | mouse source =>
      simp only [isAbsolute] at hrelTarget hrelSource
      obtain ⟨hx, hy⟩ := hadd hrelTarget hrelSource
      simp only [coalesce, MouseInputEvent.coalesce, isAbsolute, displacement, hrelTarget,
        hrelSource, Bool.not_false, if_true, Bool.false_eq_true, if_false, toInt_add hx,
        toInt_add hy, Prod.mk_add_mk, and_self]

end AnyInputEvent

/-- What an entry of the ring is: an event that was pushed, or motions merged into one. -/
structure Group.Merged (g : Group) : Prop where
  merged : ∃ first rest, g.events = first :: rest ∧
    g.entry = rest.foldl AnyInputEvent.coalesce first
  single : g.events = [g.entry] ∨
    (∀ e ∈ g.events, e.isPureMotion = true) ∧ g.entry.isPureMotion = true
  /-- Nothing of relative motion is lost. -/
  total : (∀ e ∈ g.events, e.isAbsolute = false) → g.entry.isAbsolute = false ∧
    g.entry.displacement = (g.events.map AnyInputEvent.displacement).sum

namespace Group.Merged

theorem single_event (event : AnyInputEvent) : Group.Merged ⟨[event], event⟩ where
  merged := ⟨event, [], rfl, rfl⟩
  single := .inl rfl
  total := fun h => ⟨h event (.head _), by simp⟩

theorem motion {g : Group} (h : g.Merged) (hentry : g.entry.isPureMotion = true) :
    ∀ e ∈ g.events, e.isPureMotion = true := by
  rcases h.single with hone | ⟨hall, -⟩
  · rw [hone]
    intro e he
    rwa [List.mem_singleton.mp he]
  · exact hall

theorem coalesce {g : Group} {event : AnyInputEvent} (h : g.Merged)
    (hentry : g.entry.isPureMotion = true) (hevent : event.isPureMotion = true)
    (hadd : g.entry.Addable event) :
    Group.Merged ⟨g.events ++ [event], g.entry.coalesce event⟩ where
  merged := by
    obtain ⟨first, rest, hevents, hmerged⟩ := h.merged
    refine ⟨first, rest ++ [event], by rw [hevents]; rfl, ?_⟩
    rw [List.foldl_append, ← hmerged]
    rfl
  single := by
    refine .inr ⟨fun e he => ?_, AnyInputEvent.isPureMotion_coalesce hentry hevent⟩
    rcases List.mem_append.mp he with he | he
    · exact h.motion hentry e he
    · rwa [List.mem_singleton.mp he]
  total := by
    intro hrelative
    obtain ⟨hrel, hsum⟩ := h.total fun e he => hrelative e (List.mem_append_left _ he)
    have hlast := hrelative event (List.mem_append_right _ (.head _))
    obtain ⟨habsolute, hdisplacement⟩ :=
      AnyInputEvent.coalesce_relative hentry hevent hadd hrel hlast
    refine ⟨habsolute, ?_⟩
    rw [hdisplacement, hsum, List.map_append, List.sum_append, List.map_singleton,
      List.sum_singleton]

end Group.Merged

/-! ## The bookkeeping is right -/

namespace History

/-- The bookkeeping of a history is that of its ring. -/
structure Accounted (h : History) : Prop where
  contents : h.ring.contents = h.waiting.map Group.entry
  pushed : h.pushed =
    h.settled.flatMap (fun f => f.group.events) ++ h.waiting.flatMap Group.events
  popped : h.popped = (h.settled.filterMap Fate.delivered?).map Group.entry
  waiting : ∀ g ∈ h.waiting, g.Merged
  settled : ∀ f ∈ h.settled, f.group.Merged
  /-- What is no motion was displaced by what is no motion. -/
  dropped : ∀ g cause, Fate.dropped g cause ∈ h.settled → g.entry.isPureMotion = false →
    cause.isPureMotion = false

theorem accounted_start : start.Accounted where
  contents := rfl
  pushed := rfl
  popped := rfl
  waiting := fun _ hg => nomatch hg
  settled := fun _ hf => nomatch hf
  dropped := fun _ _ hf => nomatch hf

variable {h : History} {event : AnyInputEvent}

theorem Accounted.append (ha : h.Accounted) (hway : h.ring.way event = .append) :
    (h.step (.push event)).Accounted := by
  rw [step_push]
  unfold record
  rw [hway]
  exact
    { contents := by
        rw [EventRing.contents_append hway, ha.contents, List.map_append]
        rfl
      pushed := by
        rw [ha.pushed, List.flatMap_append, List.append_assoc]
        rfl
      popped := ha.popped
      waiting := fun g hg => by
        rcases List.mem_append.mp hg with hg | hg
        · exact ha.waiting g hg
        · rw [List.mem_singleton.mp hg]
          exact .single_event event
      settled := ha.settled
      dropped := ha.dropped }

theorem Accounted.coalesce (ha : h.Accounted) (hway : h.ring.way event = .coalesce)
    (hadd : h.ring.newest.Addable event) : (h.step (.push event)).Accounted := by
  obtain ⟨older, hbefore, hafter⟩ := EventRing.contents_coalesce hway
  have hmotion : event.isPureMotion = true ∧ h.ring.newest.isPureMotion = true := by
    unfold EventRing.way at hway
    split_ifs at hway with _ hboth
    exact Bool.and_eq_true_iff.mp hboth
  -- The newest entry belongs to the last group.
  rw [ha.contents] at hbefore
  obtain ⟨init, last, hwaiting, hinit, hlast⟩ := List.map_eq_append_iff.mp hbefore
  obtain ⟨g, rfl, hentry⟩ := List.map_eq_singleton_iff.mp hlast
  have hg : g.Merged := ha.waiting g (by rw [hwaiting]; exact List.mem_append_right _ (.head _))
  rw [step_push]
  unfold record
  rw [hway]
  rw [hwaiting, List.dropLast_concat, List.getLast?_concat]
  exact
    { contents := by
        rw [hafter, ← hinit, ← hentry]
        simp
      pushed := by
        rw [ha.pushed, hwaiting]
        simp
      popped := ha.popped
      waiting := fun g' hg' => by
        rcases List.mem_append.mp hg' with hg' | hg'
        · exact ha.waiting g' (by rw [hwaiting]; exact List.mem_append_left _ hg')
        · obtain rfl := List.mem_singleton.mp hg'
          rw [← hentry] at hadd hmotion
          exact hg.coalesce hmotion.2 hmotion.1 hadd
      settled := ha.settled
      dropped := ha.dropped }

theorem Accounted.settle (ha : h.Accounted) {g : Group} {rest : List Group}
    (hwaiting : h.waiting = g :: rest) (f : Fate) (hf : f.group = g) :
    h.pushed = (h.settled ++ [f]).flatMap (fun f => f.group.events) ++ rest.flatMap Group.events ∧
      (∀ g ∈ rest, g.Merged) ∧ ∀ f' ∈ h.settled ++ [f], f'.group.Merged := by
  have hall := ha.waiting
  rw [hwaiting, List.forall_mem_cons] at hall
  refine ⟨?_, hall.2, fun f' hf' => ?_⟩
  · rw [ha.pushed, hwaiting, List.flatMap_append, List.flatMap_cons, List.flatMap_singleton, hf,
      List.append_assoc]
  · rcases List.mem_append.mp hf' with hf' | hf'
    · exact ha.settled f' hf'
    · rw [List.mem_singleton.mp hf', hf]
      exact hall.1

/-- A full ring gives up its oldest event, which is motion under the hypothesis. -/
theorem Accounted.displace (ha : h.Accounted) (hway : h.ring.way event = .displace)
    (hcareful : event.isPureMotion = true → h.ring.oldest.isPureMotion = true) :
    (h.step (.push event)).Accounted := by
  obtain ⟨younger, hbefore, hafter⟩ := EventRing.contents_displace hway
  rw [ha.contents] at hbefore
  obtain ⟨g, rest, hwaiting, hentry, hrest⟩ := List.map_eq_cons_iff.mp hbefore
  obtain ⟨hpushed, hmerged, hsettled⟩ := ha.settle hwaiting (.dropped g event) rfl
  rw [step_push]
  unfold record
  rw [hway]
  rw [hwaiting]
  -- The oldest event is settled as dropped; `hcareful` says that it was motion.
  exact
    { contents := by
        rw [hafter, ← hrest]
        simp
      pushed := by
        rw [hpushed]
        simp
      popped := by
        rw [ha.popped]
        simp [Fate.delivered?]
      waiting := fun g' hg' => by
        rcases List.mem_append.mp hg' with hg' | hg'
        · exact hmerged g' hg'
        · rw [List.mem_singleton.mp hg']
          exact .single_event event
      settled := hsettled
      dropped := fun g' cause hg' hkey => by
        rcases List.mem_append.mp hg' with hg' | hg'
        · exact ha.dropped g' cause hg' hkey
        · obtain ⟨rfl, rfl⟩ := Fate.dropped.inj (List.mem_singleton.mp hg')
          by_contra hmotion
          rw [Bool.not_eq_false] at hmotion
          rw [hentry, hcareful hmotion] at hkey
          cases hkey }

theorem Accounted.pop (ha : h.Accounted) : (h.step .pop).Accounted := by
  unfold step
  rcases hpop : h.ring.pop with _ | ⟨event, ring⟩
  · exact ha
  have hbefore := Ring.pop_contents hpop
  rw [ha.contents] at hbefore
  obtain ⟨g, rest, hwaiting, hentry, hrest⟩ := List.map_eq_cons_iff.mp hbefore
  obtain ⟨hpushed, hmerged, hsettled⟩ := ha.settle hwaiting (.delivered g) rfl
  rw [hwaiting]
  exact
    { contents := hrest.symm
      pushed := hpushed
      popped := by
        rw [ha.popped, ← hentry]
        simp [Fate.delivered?]
      waiting := hmerged
      settled := hsettled
      dropped := fun g' cause hg' hkey => by
        rcases List.mem_append.mp hg' with hg' | hg'
        · exact ha.dropped g' cause hg' hkey
        · exact nomatch List.mem_singleton.mp hg' }

theorem Accounted.step {a : Action} (ha : h.Accounted) (hcareful : h.Careful a) :
    (h.step a).Accounted := by
  cases a with
  | pop => exact ha.pop
  | push event =>
    cases hway : h.ring.way event with
    | append => exact ha.append hway
    | coalesce => exact ha.coalesce hway (hcareful.2 hway)
    | displace => exact ha.displace hway (hcareful.1 hway)

end History

/-! ## The guarantees -/

/-- The groups of the popped events, in their order. -/
def History.deliveredGroups (h : History) : List Group := h.settled.filterMap Fate.delivered?

/-- What the ring promises of the events that went through it. -/
structure History.Survived (h : History) : Prop where
  /-- Each popped event is a pushed event or a merge of motions, and the groups are in the order
  in which they were pushed. -/
  popped : h.popped = h.deliveredGroups.map Group.entry
  order : (h.deliveredGroups.flatMap Group.events).Sublist h.pushed
  merged : ∀ g ∈ h.deliveredGroups, g.Merged
  /-- An event that is no motion is displaced by the push of another such event only. -/
  dropped : ∀ g cause, Fate.dropped g cause ∈ h.settled →
    ∀ e ∈ g.events, e.isPureMotion = false → cause.isPureMotion = false
  /-- The ring forgets nothing: a pushed event was popped, displaced or is still in the ring. -/
  pushed : h.pushed =
    h.settled.flatMap (fun f => f.group.events) ++ h.waiting.flatMap Group.events
  /-- Between two delivered events that are no motion, relative motion adds up. -/
  stretch : ∀ before first mid last after,
    h.settled = before ++ .delivered first :: mid ++ .delivered last :: after →
    first.entry.isPureMotion = false → last.entry.isPureMotion = false →
    (∀ f ∈ mid, ∃ g, f = .delivered g) →
    (∀ f ∈ mid, ∀ e ∈ f.group.events, e.isAbsolute = false) →
    (mid.map fun f => f.group.entry.displacement).sum =
      ((mid.flatMap fun f => f.group.events).map AnyInputEvent.displacement).sum

theorem displacement_sum {fates : List Fate} (hmerged : ∀ f ∈ fates, f.group.Merged)
    (hrelative : ∀ f ∈ fates, ∀ e ∈ f.group.events, e.isAbsolute = false) :
    (fates.map fun f => f.group.entry.displacement).sum =
      ((fates.flatMap fun f => f.group.events).map AnyInputEvent.displacement).sum := by
  induction fates with
  | nil => rfl
  | cons f fates ih =>
    rw [List.forall_mem_cons] at hmerged hrelative
    rw [List.map_cons, List.sum_cons, List.flatMap_cons, List.map_append, List.sum_append,
      ih hmerged.2 hrelative.2, (hmerged.1.total hrelative.1).2]

theorem History.Accounted.survived {h : History} (ha : h.Accounted) : h.Survived where
  popped := ha.popped
  order := by
    rw [ha.pushed]
    refine List.Sublist.trans ?_ (List.sublist_append_left _ _)
    unfold History.deliveredGroups
    generalize h.settled = settled
    induction settled with
    | nil => exact List.Sublist.slnil
    | cons f settled ih =>
      cases f with
      | delivered g =>
        exact List.Sublist.append (List.Sublist.refl _) ih
      | dropped g cause =>
        exact ih.trans (List.sublist_append_right _ _)
  merged := by
    intro g hg
    obtain ⟨f, hf, hdelivered⟩ := List.mem_filterMap.mp hg
    have hsettled := ha.settled f hf
    cases f with
    | delivered g' =>
      cases hdelivered
      exact hsettled
    | dropped g' cause => exact nomatch hdelivered
  dropped := by
    intro g cause hg e he hkey
    apply ha.dropped g cause hg
    -- A group with an event that is no motion is that event alone.
    rcases (ha.settled _ hg).single with hone | ⟨hall, -⟩
    · have hevent : e ∈ [g.entry] := hone ▸ he
      rwa [← List.mem_singleton.mp hevent]
    · rw [hall e he] at hkey
      cases hkey
  pushed := ha.pushed
  stretch := by
    intro before first mid last after hsplit _ _ _ hrelative
    refine displacement_sum (fun f hf => ha.settled f ?_) hrelative
    rw [hsplit]
    exact List.mem_append_left _ (List.mem_append_right _ (.tail _ hf))

/-- In every run of pushes and pops whose pushes are careful. -/
theorem events_survive {run : List (Action × History)}
    (h : Run (fun s a s' => s.Step a s' ∧ s.Careful a) History.start run) :
    (lastState History.start run).Survived := by
  have haccounted : (lastState History.start run).Accounted :=
    h.invariant History.accounted_start fun s a s' hs hstep => by
      rw [hstep.1]
      exact hs.step hstep.2
  exact haccounted.survived

instance (n : Int) : Decidable (FitsInt32 n) := inferInstanceAs (Decidable (_ ∧ _))

instance (target source : AnyInputEvent) : Decidable (target.Addable source) :=
  match target, source with
  | .mouse target, .mouse source => inferInstanceAs (Decidable (target.isMovementAbsolute = false →
      source.isMovementAbsolute = false → FitsInt32 (target.lastX.toInt + source.lastX.toInt) ∧
        FitsInt32 (target.lastY.toInt + source.lastY.toInt)))
  | .mouse _, .base _ | .mouse _, .keyboard _ | .base _, _ | .keyboard _, _ => isTrue trivial

instance (h : History) (a : Action) : Decidable (h.Careful a) :=
  match a with
  | .push event => inferInstanceAs (Decidable ((h.ring.way event = .displace →
      event.isPureMotion = true → h.ring.oldest.isPureMotion = true) ∧
        (h.ring.way event = .coalesce → h.ring.newest.Addable event)))
  | .pop => isTrue trivial

/-- One call, if it is careful. -/
def History.next (h : History) (a : Action) : Option History :=
  if h.Careful a then some (h.step a) else none

theorem History.step_of_next {h h' : History} {a : Action} (hnext : h.next a = some h') :
    h.Step a h' ∧ h.Careful a := by
  unfold next at hnext
  split at hnext
  · rename_i hcareful
    exact ⟨(Option.some.inj hnext).symm, hcareful⟩
  · cases hnext

/-- A keystroke and a movement, as they are pushed in the examples. -/
def keystroke : AnyInputEvent := .keyboard { virtualKey := 0x41 }
def movement : AnyInputEvent := .mouse { lastX := 1 }

/-- A ring that is full: one movement displaces another, the next one is added to it. -/
def crowded : List Action :=
  .push movement :: List.replicate 127 (.push keystroke) ++ [.push movement, .push movement, .pop]

theorem events_survive_short :
    ∃ run, Run (fun s a s' => History.Step s a s' ∧ s.Careful a) History.start run ∧
      run.map Prod.fst = crowded.reverse ∧
      (lastState History.start run).popped = [keystroke] ∧
      (lastState History.start run).settled =
        [.dropped ⟨[movement], movement⟩ movement, .delivered ⟨[keystroke], keystroke⟩] ∧
      (lastState History.start run).waiting.getLast? =
        some ⟨[movement, movement], .mouse { lastX := 2 }⟩ ∧
      (lastState History.start run).Survived := by
  have hreplay : (replay History.next History.start crowded).map
      (fun h => (h.popped, h.settled, h.waiting.getLast?)) = some ([keystroke],
        [.dropped ⟨[movement], movement⟩ movement, .delivered ⟨[keystroke], keystroke⟩],
        some ⟨[movement, movement], .mouse { lastX := 2 }⟩) := by
    decide +kernel
  obtain ⟨h, hh, hview⟩ := Option.map_eq_some_iff.1 hreplay
  obtain ⟨run, hrun, hacts, rfl⟩ := Run.exists_replay (fun _ _ _ => History.step_of_next)
    Run.nil hh
  simp only [Prod.mk.injEq] at hview
  obtain ⟨hpopped, hsettled, hwaiting⟩ := hview
  refine ⟨run, hrun, ?_, hpopped, hsettled, hwaiting, events_survive hrun⟩
  rw [hacts, List.map_nil, List.append_nil]

/-- Keystrokes up to the last slot, then a movement. -/
def flood : List Action := List.replicate 128 (.push keystroke) ++ [.push movement]

/-- The oldest keystroke is displaced by motion. -/
theorem motion_displaces_key : ∃ run, Run History.Step History.start run ∧
      Fate.dropped ⟨[keystroke], keystroke⟩ movement ∈ (lastState History.start run).settled ∧
      keystroke.isPureMotion = false ∧ movement.isPureMotion = true := by
  have hreplay : (replay (fun h a => some (History.step h a)) History.start flood).map
      (fun h => decide (Fate.dropped ⟨[keystroke], keystroke⟩ movement ∈ h.settled)) =
        some true := by
    decide +kernel
  obtain ⟨h, hh, hdropped⟩ := Option.map_eq_some_iff.1 hreplay
  obtain ⟨run, hrun, -, rfl⟩ := Run.exists_replay
    (fun _ _ _ hnext => (Option.some.inj hnext).symm) Run.nil hh
  exact ⟨run, hrun, of_decide_eq_true hdropped, by decide, by decide⟩

end UnDOS.Input
