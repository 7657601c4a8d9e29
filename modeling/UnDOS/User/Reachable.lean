import UnDOS.User.Paths

/-!
# Reachable Window Trees

In every state that calls lead to the window tree is sound, and a handle whose window was destroyed
finds nothing until its slot has gone through all generations.
-/

namespace UnDOS.User

open UnDOS.Lib
open UnDOS.Lib.Forest (Climbs Under Nested)

/-! ## Every call keeps the tree -/

theorem tree_booted (m : Metrics) : Tree (State.booted m) := by
  refine ⟨fun _ => Nat.two_pow_pos 16, fun _ h => (Bool.noConfusion h),
    fun _ h => (Bool.noConfusion h),
    fun _ h => (Bool.noConfusion h), ⟨fun _ => 0, fun _ _ h => (Bool.noConfusion h)⟩,
      [], ?_, ?_, ?_⟩
  · exact ⟨List.nodup_nil, rfl, fun A x B h => absurd h (by simp)⟩
  · intro i
    exact ⟨fun h => (List.not_mem_nil h).elim, Bool.noConfusion⟩
  · exact Forest.nested_nil

variable {s s' : State}

theorem Inserted.tree (h : Inserted s s') (hT : Tree s) : Tree s' := by
  obtain ⟨i, window, hi, hparent, -, -, -, -, rfl⟩ := h
  exact (hT.insert hi hparent).1

theorem Tree.step {call : Call} (hT : Tree s) (h : Step s call s') : Tree s' := by
  obtain rfl := h
  rcases call_path s call with hpath | hinsert
  · exact hpath.tree hT
  · exact hinsert.tree hT

theorem tree_reachable {m : Metrics} {run : List (Call × State)}
    (h : Run Step (State.booted m) run) : Tree (lastState (State.booted m) run) :=
  h.invariant (tree_booted m) fun _ _ _ => Tree.step

/-- The run of some calls, the last one first. -/
def traced (start : State) : List Call → List (Call × State)
  | [] => []
  | call :: past => (call, call.next (lastState start (traced start past))) :: traced start past

theorem run_traced (start : State) (calls : List Call) : Run Step start (traced start calls) := by
  induction calls with
  | nil => exact Run.nil
  | cons call past ih => exact Run.cons ih rfl

theorem Tree.acyclic (hT : Tree s) (w : Slot) :
    ¬Relation.TransGen (fun x y => parentOf s x = some y) w w := by
  have habove : ∀ {x y}, Relation.TransGen (fun x y => parentOf s x = some y) x y →
      y ∈ ancestors s x := by
    intro x y hxy
    induction hxy with
    | single hp =>
      rw [hT.climbs.parent hp]
      exact .head _
    | tail _ hp ih =>
      apply hT.climbs.trans ih
      rw [hT.climbs.parent hp]
      exact .head _
  intro hcycle
  exact hT.climbs.irrefl (habove hcycle)

/-! ## Generations -/

theorem nextGeneration_iterate {g : Nat} (hg : 0 < g) (hlt : g < 2 ^ 16) (n : Nat) :
    nextGeneration^[n] g = (g - 1 + n) % 65535 + 1 := by
  induction n with
  | zero =>
    show g = _
    omega
  | succ n ih =>
    rw [Function.iterate_succ_apply', ih]
    unfold nextGeneration
    split
    · omega
    · omega

/-- How often a slot was filled again in a run. -/
def refills (i : Slot) (start : State) : List (Call × State) → Nat
  | [] => 0
  | (_, s) :: past =>
    refills i start past + if (lastState start past).used i = false ∧ s.used i = true then 1 else 0

theorem Step.slot {call : Call} (hT : Tree s) (h : Step s call s') (i : Slot) :
    (s'.generation i = s.generation i ∧ (s'.used i = true → s.used i = true)) ∨
      s.used i = false ∧ s'.used i = true ∧ s'.generation i = nextGeneration (s.generation i) := by
  obtain rfl := h
  rcases call_path s call with hpath | ⟨j, window, hj, hparent, -, -, -, -, heq⟩
  · have hshrunk := hpath.shrunk hT
    exact .inl ⟨by rw [hshrunk.generation], hshrunk.used i⟩
  · have hsame := (hT.insert hj hparent).2.sameTree
    rw [heq, hsame.generation, hsame.used]
    by_cases hi : i = j
    · subst hi
      exact .inr ⟨hj, enterWindow_used_self s i window, enterWindow_generation_self s i window⟩
    · rw [enterWindow_generation_ne hi, enterWindow_used_ne hi]
      exact .inl ⟨rfl, id⟩

theorem generation_after (hT : Tree s) {i : Slot} (hfree : s.used i = false)
    {run : List (Call × State)} (h : Run Step s run) : Tree (lastState s run) ∧
      (lastState s run).generation i = nextGeneration^[refills i s run] (s.generation i) ∧
      (refills i s run = 0 → (lastState s run).used i = false) := by
  induction h with
  | nil => exact ⟨hT, rfl, fun _ => hfree⟩
  | @cons past call s' _ last ih =>
    obtain ⟨hpast, hgeneration, hzero⟩ := ih
    refine ⟨hpast.step last, ?_⟩
    unfold refills
    rcases Step.slot hpast last i with ⟨hsame, hused⟩ | ⟨hfree', hfilled, hnext⟩
    · have hno : ¬((lastState s past).used i = false ∧ s'.used i = true) := by
        rintro ⟨hf, ht⟩
        rw [hused ht] at hf
        cases hf
      rw [if_neg hno]
      refine ⟨hsame.trans hgeneration, fun hn => Bool.eq_false_iff.2 fun ht => ?_⟩
      have := hused ht
      rw [hzero hn] at this
      cases this
    · rw [if_pos ⟨hfree', hfilled⟩, Function.iterate_succ_apply', ← hgeneration]
      exact ⟨hnext, fun hn => by cases hn⟩

/-- A handle returns only after 65535 windows in the same slot. -/
theorem stale_lookup {call : Call} {hwnd : Nat} {i : Slot} (hT : Tree s)
    (hstep : Step s call s') (hlive : lookup s hwnd = some i) (hgone : lookup s' hwnd = none)
    {later : List (Call × State)} (hlater : Run Step s' later)
    (hfew : refills i s' later < 65535) : lookup (lastState s' later) hwnd = none := by
  obtain ⟨hused, heq⟩ := lookup_iff.1 hlive
  have hgeneration : s'.generation i = s.generation i := by
    rcases Step.slot hT hstep i with ⟨hsame, -⟩ | ⟨hfree, -⟩
    · exact hsame
    · rw [hused] at hfree
      cases hfree
  have hfree : s'.used i = false := by
    refine Bool.eq_false_iff.2 fun hin => ?_
    rw [lookup_iff.2 ⟨hin, by rw [hgeneration]; exact heq⟩] at hgone
    cases hgone
  obtain ⟨-, hafter, hzero⟩ := generation_after (hT.step hstep) hfree hlater
  rw [hgeneration, nextGeneration_iterate (hT.filled i hused) (hT.generation i)] at hafter
  rcases hl : lookup (lastState s' later) hwnd with _ | j
  · rfl
  · -- The handle would name its own slot, in the generation that it had.
    obtain ⟨hj, heqj⟩ := lookup_iff.1 hl
    obtain ⟨hg, rfl⟩ := handleOf_inj (heq.symm.trans heqj)
    by_cases hn : refills i s' later = 0
    · rw [hzero hn] at hj
      cases hj
    · omega

/-! ## What every run keeps -/

/-- The z-order of a state as a list: linked both ways, with every live window once, and every
subtree in one piece in front of its root. -/
def ZOrdered (s : State) (L : List Slot) : Prop :=
  (L.Nodup ∧ s.top = L.head? ∧
    ∀ A x B, L = A ++ x :: B → s.links.next x = B.head? ∧ s.links.prev x = A.getLast?) ∧
  (∀ i, i ∈ L ↔ s.used i = true) ∧
  ∀ w ∈ L, ∃ A B C, L = A ++ B ++ w :: C ∧ (∀ x ∈ B, descendant s x w = true) ∧
    ∀ x ∈ A ++ C, descendant s x w = false

theorem Tree.zOrdered (hT : Tree s) : ∃ L, ZOrdered s L := by
  obtain ⟨L, hL, hmem, hnested⟩ := hT.stacked
  refine ⟨L, ⟨hL.nodup, hL.head, hL.link⟩, hmem, fun w hw => ?_⟩
  obtain ⟨A, B, C, rfl, hA, hB, hC⟩ := hnested.split hT.climbs.isForest hw
  refine ⟨A, B, C, rfl, fun x hx => ?_, fun x hx => ?_⟩
  · have hne : x ≠ w := by
      intro heq
      have hnodup := hL.nodup
      rw [List.nodup_append] at hnodup
      exact hnodup.2.2 x (List.mem_append_right _ hx) w (.head _) heq
    unfold descendant
    simpa using (hB x hx).resolve_left hne
  · have hout : ¬Under (ancestors s) x w := by
      rcases List.mem_append.1 hx with hx | hx
      · exact hA x hx
      · exact hC x hx
    unfold descendant
    simpa using fun hin => hout (.inr hin)

/-- The window tree and the z-order in every state that calls lead to, and the fate of handles:
`later` is what happened since a call destroyed the window of `hwnd`. -/
theorem window_tree_sound (m : Metrics) {run : List (Call × State)}
    (h : Run Step (State.booted m) run) : (∃ L, ZOrdered (lastState (State.booted m) run) L) ∧
    (∀ i, (lastState (State.booted m) run).used i = true →
      ((lastState (State.booted m) run).window i).parent = 0 ∨
      ∃ j, lookup (lastState (State.booted m) run)
          ((lastState (State.booted m) run).window i).parent = some j ∧
        ((lastState (State.booted m) run).window j).process =
          ((lastState (State.booted m) run).window i).process) ∧ (∀ w, ¬Relation.TransGen
      (fun x y => parentOf (lastState (State.booted m) run) x = some y) w w) ∧
    ∀ later call s' earlier, run = later ++ (call, s') :: earlier →
      ∀ hwnd i, lookup (lastState (State.booted m) earlier) hwnd = some i → lookup s' hwnd = none →
        refills i s' later < 65535 → lookup (lastState (State.booted m) run) hwnd = none := by
  have hT := tree_reachable h
  refine ⟨hT.zOrdered, ?_, hT.acyclic, ?_⟩
  · intro i hi
    rcases hT.parent i hi with hzero | ⟨j, hj, hparent, hprocess⟩
    · exact .inl hzero
    · exact .inr ⟨j, by rw [hparent]; exact hT.lookup_hwnd hj, hprocess.symm⟩
  · rintro later call s' earlier rfl hwnd i hlive hgone hfew
    obtain ⟨hfrom, hlater⟩ := h.of_append
    rw [lastState_append]
    cases hfrom with
    | cons hearlier hlast =>
      exact stale_lookup (tree_reachable hearlier) hlast hlive hgone hlater hfew

/-- A font with lines of eight pixels. -/
def smallFont : Metrics := ⟨8, 8, fun _ => 0⟩

/-- A screen with one visible window of process 1. -/
def oneWindow : List Call :=
  [.createWindow 1 { className := "A", style := { visible := true }, width := 400, height := 300 }
    {},
    .registerClass 1 "A", .modeSet 640 480]

/-- The window is destroyed and its slot filled again. -/
def reuseSlot : List Call :=
  [.createWindow 1 { className := "A", width := 10, height := 10 } {}, .destroyWindow 1 65537] ++
    oneWindow

theorem window_tree_sound_reused :
    lookup (lastState (State.booted smallFont) (traced (State.booted smallFont) oneWindow)) 65537 =
        some 0 ∧
      lookup (lastState (State.booted smallFont) (traced (State.booted smallFont) reuseSlot))
        65537 =
        none :=
  ⟨by decide +kernel, (window_tree_sound smallFont (run_traced (State.booted smallFont)
    reuseSlot)).2.2.2
    [_] _ _ _ rfl 65537 0 (by decide +kernel) (by decide +kernel) (by decide +kernel)⟩

/-! ## What goes with a window -/

theorem Tree.destroy_used {w : Slot} (hT : Tree s) (hw : s.used w = true) (x : Slot) :
    (destroy s w).used x = true ↔ s.used x = true ∧ ¬Under (ancestors s) x w := by
  have hgone : Destroyed (fun _ => False) s (destroy s w) w :=
    destroyWindow_spec 64 hT hw (Nat.le_add_right _ _)
  have hshrunk := hgone.path.shrunk hT
  constructor
  · intro hx
    refine ⟨hshrunk.used x hx, ?_⟩
    rintro (rfl | habove)
    · exact Bool.false_ne_true (hgone.gone.symm.trans hx)
    · have hT' := hgone.path.tree hT
      rw [← hshrunk.ancestors hT hT' hx] at habove
      exact Bool.false_ne_true (hgone.gone.symm.trans (hT'.ancestor_used habove))
  · exact fun ⟨hx, hout⟩ => (hgone.spares x hx hout).1

/-- In every reachable state a process that destroys a window takes the window and all that descend
from it, and no other window. -/
theorem destroyWindow_takes_subtree (m : Metrics) {run : List (Call × State)}
    (h : Run Step (State.booted m) run) (hs : lastState (State.booted m) run = s)
    {caller : Process} {hwnd : Nat} {w : Slot} (hown : ownedWindow s caller hwnd = .ok w)
    (x : Slot) :
    ((Call.destroyWindow caller hwnd).next s).used x = true ↔
      s.used x = true ∧ ¬Under (ancestors s) x w := by
  unfold Call.next
  simp only [hown]
  exact (hs ▸ tree_reachable h).destroy_used (lookup_iff.1 (ownedWindow_used hown).1).1 x

/-- A child of the first window, and a window of process 2. -/
def threeWindows : List Call :=
  [.createWindow 2 { className := "B", width := 100, height := 100 } {}, .registerClass 2 "B",
    .createWindow 1 {
      className := "A", style := { visible := true, child := true }, parent := 65537,
      width := 100, height := 100 } {}] ++ oneWindow

/-- The first window takes its child along, and leaves the third window. -/
theorem destroyWindow_takes_one :
    ∃ s, lastState (State.booted smallFont) (traced (State.booted smallFont) threeWindows) = s ∧
      (s.used 0 = true ∧ s.used 1 = true ∧ s.used 2 = true) ∧
      ((Call.destroyWindow 1 65537).next s).used 0 = false ∧
      ((Call.destroyWindow 1 65537).next s).used 1 = false ∧
      ((Call.destroyWindow 1 65537).next s).used 2 = true := by
  obtain ⟨s, hs, hused, hown, hchild, hother⟩ : ∃ s,
      lastState (State.booted smallFont) (traced (State.booted smallFont) threeWindows) = s ∧
        (s.used 0 = true ∧ s.used 1 = true ∧ s.used 2 = true) ∧ ownedWindow s 1 65537 = .ok 0 ∧
        0 ∈ ancestors s 1 ∧ ancestors s 2 = [] := ⟨_, rfl, by decide +kernel⟩
  have htakes := destroyWindow_takes_subtree smallFont (run_traced _ threeWindows) hs hown
  refine ⟨s, hs, hused, ?_, ?_, (htakes 2).2 ⟨hused.2.2, ?_⟩⟩
  · exact Bool.eq_false_iff.2 fun hback => ((htakes 0).1 hback).2 (.inl rfl)
  · exact Bool.eq_false_iff.2 fun hback => ((htakes 1).1 hback).2 (.inr hchild)
  · rintro (h | h)
    · exact absurd h (by decide)
    · rw [hother] at h
      cases h

end UnDOS.User
