import UnDOS.Input.HidReport
import UnDOS.Lib.Run
import Mathlib.Data.List.Dedup
import Mathlib.Data.List.Induction

/-!
# Keys Going Down and Up

The keyboard case of `SubmitReport` in `hid_parser.cpp`: each report is compared with the keys that
were down after the one before it.

A key event is kept as the call of `MakeKeyEvent` that builds it.
-/

namespace UnDOS.Input

/-! ## The code -/

def kMaxPressed : Nat := 16
def usagePageKeyboard : Nat := 0x07

/-- `DecoderState`, without the mouse buttons. -/
structure DecoderState where
  pressed : List Nat := []
  lockModifiers : Nat := 0

/-- A call of `MakeKeyEvent`. -/
structure KeyEvent where
  usage : Nat
  isBreak : Bool
  modifiers : Nat

def heldModifierFlag : Nat → Nat
  | 0xE1 => 2 ^ 0
  | 0xE5 => 2 ^ 1
  | 0xE0 => 2 ^ 2
  | 0xE4 => 2 ^ 3
  | 0xE2 => 2 ^ 4
  | 0xE6 => 2 ^ 5
  | _ => 0

def lockModifierFlag : Nat → Nat
  | 0x39 => 2 ^ 6
  | 0x53 => 2 ^ 7
  | 0x47 => 2 ^ 8
  | _ => 0

/-- One field of a report: the keys that are down so far and their modifiers. -/
def gatherField (report : List UInt8) (current : List Nat × Nat) (field : ReportField) :
    List Nat × Nat :=
  if field.usagePage ≠ usagePageKeyboard then current
  else
    let value := extractField field report
    let usage := if field.isArray then (value % 2 ^ 16).toNat else field.usage
    if usage = 0 then current
    else if !field.isArray ∧ value = 0 then current
    else if usage ∈ current.1 then current
    else if kMaxPressed ≤ current.1.length then current
    else (current.1 ++ [usage], current.2 ||| heldModifierFlag usage)

/-- The makes of a report, and the lock modifiers after them. -/
def pushMakes (pressed : List Nat) (held : Nat) : List Nat → Nat → List KeyEvent × Nat
  | [], lock => ([], lock)
  | usage :: rest, lock =>
    if usage ∈ pressed then pushMakes pressed held rest lock
    else
      let lock := lock ^^^ lockModifierFlag usage
      let later := pushMakes pressed held rest lock
      (⟨usage, false, held ||| lock⟩ :: later.1, later.2)

/-- `SubmitReport` for a keyboard: the state after the report and the events it pushes. -/
def submitReport (format : ReportFormat) (state : DecoderState) (report : List UInt8) :
    DecoderState × List KeyEvent :=
  if report.length < format.reportBytes then (state, [])
  else
    let current := format.fields.foldl (gatherField report) ([], 0)
    let breaks := (state.pressed.filter (· ∉ current.1)).map
      fun usage => ⟨usage, true, current.2 ||| state.lockModifiers⟩
    let makes := pushMakes state.pressed current.2 current.1 state.lockModifiers
    ({ pressed := current.1, lockModifiers := makes.2 }, breaks ++ makes.1)

/-- The reports one after the other, from the initial state. -/
def submitReports (format : ReportFormat) (reports : List (List UInt8)) :
    DecoderState × List KeyEvent :=
  reports.foldl (fun s report =>
    let next := submitReport format s.1 report
    (next.1, s.2 ++ next.2)) ({}, [])

/-! ## What the events of a key say -/

/-- Which of a usage's events are breaks. -/
def history (usage : Nat) (events : List KeyEvent) : List Bool :=
  (events.filter (·.usage = usage)).map (·.isBreak)

/-- A make, a break, a make and so on, `n` in all. -/
def alternating (n : Nat) : List Bool := (List.range n).map (· % 2 = 1)

/-- The lock keys and their bits among the modifiers. -/
def lockKeys : List (Nat × Nat) := [(0x39, 6), (0x53, 7), (0x47, 8)]

structure Disciplined (s : DecoderState × List KeyEvent) : Prop where
  alternate : ∀ usage, history usage s.2 = alternating (history usage s.2).length
  held : ∀ usage, usage ∈ s.1.pressed ↔ (history usage s.2).getLast? = some false
  nodup : s.1.pressed.Nodup
  locks : ∀ key ∈ lockKeys, s.1.lockModifiers.testBit key.2 =
    decide ((history key.1 s.2).count false % 2 = 1)

/-- The key that a field of a report has down. -/
def keyOf (report : List UInt8) (field : ReportField) : Option Nat :=
  let value := extractField field report
  let usage := if field.isArray then (value % 2 ^ 16).toNat else field.usage
  if field.usagePage = usagePageKeyboard ∧ usage ≠ 0 ∧ (field.isArray ∨ value ≠ 0) then some usage
  else none

/-- Each item once, where it comes first. -/
def firsts (l : List Nat) : List Nat := l.reverse.dedup.reverse

/-- The keys that a report has down, as many as the decoder tracks. -/
def keysDown (format : ReportFormat) (report : List UInt8) : List Nat :=
  (firsts (format.fields.filterMap (keyOf report))).take kMaxPressed

/-- The last report that is not too short. -/
def lastFull (format : ReportFormat) (reports : List (List UInt8)) : Option (List UInt8) :=
  (reports.filter (format.reportBytes ≤ ·.length)).getLast?

theorem alternating_succ (n : Nat) : alternating (n + 1) = alternating n ++
    [decide (n % 2 = 1)] := by
  simp [alternating, List.range_succ]

theorem getLast?_alternating (n : Nat) : (alternating n).getLast? = some false ↔ n % 2 = 1 := by
  cases n with
  | zero => simp [alternating]
  | succ n =>
    rw [alternating_succ, List.getLast?_concat, Option.some.injEq, decide_eq_false_iff_not]
    omega

theorem history_append (usage : Nat) (a b : List KeyEvent) :
    history usage (a ++ b) = history usage a ++ history usage b := by
  simp [history]

theorem history_cons (usage : Nat) (e : KeyEvent) (rest : List KeyEvent) :
    history usage (e :: rest) =
      if e.usage = usage then e.isBreak :: history usage rest else history usage rest := by
  unfold history
  by_cases h : e.usage = usage <;> simp [h]

/-! ## One report -/

theorem gatherField_nodup {report : List UInt8} (field : ReportField) {current : List Nat × Nat}
    (h : current.1.Nodup) : (gatherField report current field).1.Nodup := by
  unfold gatherField
  dsimp only
  split_ifs <;> try exact h
  all_goals exact List.nodup_append_comm.1 (List.nodup_cons.2 ⟨‹_›, h⟩)

theorem gatherField_eq (report : List UInt8) (current : List Nat × Nat) (field : ReportField) :
    (gatherField report current field).1 = match keyOf report field with
      | none => current.1
      | some usage => if usage ∈ current.1 ∨ kMaxPressed ≤ current.1.length then current.1
        else current.1 ++ [usage] := by
  unfold gatherField keyOf
  dsimp only
  by_cases hpage : field.usagePage = usagePageKeyboard
  · rw [if_neg (not_not.2 hpage)]
    by_cases harray : field.isArray = true
    · split_ifs <;> simp_all
    · split_ifs <;> simp_all
  · rw [if_pos hpage, if_neg fun h => hpage h.1]

theorem mem_firsts {l : List Nat} {usage : Nat} : usage ∈ firsts l ↔ usage ∈ l := by
  simp [firsts]

theorem firsts_concat (l : List Nat) (usage : Nat) :
    firsts (l ++ [usage]) = if usage ∈ l then firsts l else firsts l ++ [usage] := by
  unfold firsts
  rw [List.reverse_append, List.reverse_singleton, List.singleton_append]
  split
  · next h => rw [List.dedup_cons_of_mem (List.mem_reverse.2 h)]
  · next h => rw [List.dedup_cons_of_notMem (mt List.mem_reverse.1 h), List.reverse_cons]

/-- The loop over the fields finds the keys of the report, in their order. -/
theorem gatherFields_eq (report : List UInt8) (fields : List ReportField) :
    (fields.foldl (gatherField report) ([], 0)).1 =
      (firsts (fields.filterMap (keyOf report))).take kMaxPressed := by
  induction fields using List.reverseRecOn with
  | nil => rfl
  | append_singleton fields field ih =>
    rw [List.foldl_append, List.foldl_cons, List.foldl_nil, gatherField_eq, ih,
      List.filterMap_append]
    generalize fields.filterMap (keyOf report) = seen
    rcases hkey : keyOf report field with _ | usage
    · simp [hkey]
    · simp only [List.filterMap_cons, hkey, List.filterMap_nil, firsts_concat]
      by_cases hseen : usage ∈ seen
      · -- The key was seen before; it is left out, or the array is full.
        rw [if_pos hseen, if_pos]
        by_contra hout
        obtain ⟨hnot, hroom⟩ := not_or.1 hout
        rw [List.length_take] at hroom
        rw [List.take_of_length_le (by omega)] at hnot
        exact hnot (mem_firsts.2 hseen)
      · rw [if_neg hseen]
        by_cases hfull : kMaxPressed ≤ ((firsts seen).take kMaxPressed).length
        · rw [if_pos (.inr hfull)]
          rw [List.length_take] at hfull
          rw [List.take_append_of_le_length (by omega)]
        · have hnot : usage ∉ (firsts seen).take kMaxPressed :=
            fun h => hseen (mem_firsts.1 (List.mem_of_mem_take h))
          rw [if_neg (not_or.2 ⟨hnot, hfull⟩)]
          rw [List.length_take] at hfull
          rw [List.take_of_length_le (by omega), List.take_of_length_le]
          rw [List.length_append, List.length_singleton]
          omega

theorem submitReport_pressed (format : ReportFormat) (state : DecoderState) (report : List UInt8) :
    (submitReport format state report).1.pressed =
      if report.length < format.reportBytes then state.pressed else keysDown format report := by
  unfold submitReport
  split
  · rfl
  · exact gatherFields_eq report format.fields

/-- After any reports the keys in the state are those of the last full one. -/
theorem submitReports_pressed (format : ReportFormat) (reports : List (List UInt8)) :
    (submitReports format reports).1.pressed =
      ((lastFull format reports).map (keysDown format)).getD [] := by
  induction reports using List.reverseRecOn with
  | nil => rfl
  | append_singleton reports report ih =>
    unfold submitReports lastFull at *
    rw [List.foldl_append, List.foldl_cons, List.foldl_nil, submitReport_pressed, ih,
      List.filter_append]
    split
    · next hshort => simp [hshort]
    · next hfull => simp [not_lt.1 hfull]

theorem history_breaks {l : List Nat} (hl : l.Nodup) (modifiers usage : Nat) :
    history usage (l.map fun usage => ⟨usage, true, modifiers⟩) =
      if usage ∈ l then [true] else [] := by
  induction l with
  | nil => rfl
  | cons first rest ih =>
    obtain ⟨hfirst, hrest⟩ := List.nodup_cons.1 hl
    rw [List.map_cons, history_cons, ih hrest]
    by_cases h : first = usage
    · subst h
      simp [hfirst]
    · simp [h, Ne.symm h]

section Makes

variable {pressed l : List Nat} (held : Nat)

theorem history_makes (hl : l.Nodup) (lock usage : Nat) :
    history usage (pushMakes pressed held l lock).1 =
      if usage ∈ l ∧ usage ∉ pressed then [false] else [] := by
  induction l generalizing lock with
  | nil => simp [pushMakes, history]
  | cons first rest ih =>
    obtain ⟨hfirst, hrest⟩ := List.nodup_cons.1 hl
    unfold pushMakes
    by_cases hpressed : first ∈ pressed
    · rw [if_pos hpressed, ih hrest]
      by_cases h : usage = first
      · simp [h, hpressed]
      · simp [h]
    · rw [if_neg hpressed]
      rw [history_cons, ih hrest]
      by_cases h : first = usage
      · subst h
        simp [hfirst, hpressed]
      · simp [h, Ne.symm h]

theorem lockModifierFlag_testBit {key : Nat × Nat} (hkey : key ∈ lockKeys) (usage : Nat) :
    (lockModifierFlag usage).testBit key.2 = decide (usage = key.1) := by
  simp only [lockKeys, List.mem_cons, List.not_mem_nil, or_false] at hkey
  unfold lockModifierFlag
  rcases hkey with rfl | rfl | rfl <;> split <;> simp_all <;> decide

theorem locks_makes {key : Nat × Nat} (hkey : key ∈ lockKeys) (lock : Nat) :
    (pushMakes pressed held l lock).2.testBit key.2 = (lock.testBit key.2 ^^
        decide ((history key.1 (pushMakes pressed held l lock).1).count false % 2 = 1)) := by
  induction l generalizing lock with
  | nil => simp [pushMakes, history]
  | cons first rest ih =>
    unfold pushMakes
    by_cases hpressed : first ∈ pressed
    · rw [if_pos hpressed]
      exact ih lock
    · rw [if_neg hpressed]
      rw [ih, Nat.testBit_xor, lockModifierFlag_testBit hkey, history_cons]
      by_cases h : first = key.1
      · rw [if_pos h, List.count_cons_self, decide_eq_true h]
        generalize List.count false _ = n
        rcases Nat.mod_two_eq_zero_or_one n with hn | hn <;>
          simp [hn, Nat.add_mod]
      · simp [h]

end Makes

/-- Releases come before presses, so that no key is down twice. -/
theorem submitReport_disciplined {format : ReportFormat} {s : DecoderState × List KeyEvent}
    (h : Disciplined s) (report : List UInt8) :
    Disciplined ((submitReport format s.1 report).1,
      s.2 ++ (submitReport format s.1 report).2) := by
  unfold submitReport
  split_ifs with hshort
  · rwa [List.append_nil]
  · have hcurrent : (format.fields.foldl (gatherField report) ([], 0)).1.Nodup :=
      Lib.foldl_keeps (I := fun c : List Nat × Nat => c.1.Nodup) (fun _ field _ hc =>
        gatherField_nodup field hc)
        List.nodup_nil
    generalize format.fields.foldl (gatherField report) ([], 0) = current at hcurrent
    dsimp only
    -- A key's events in this report: a break, a make or nothing.
    have hnew : ∀ usage, history usage
        ((s.1.pressed.filter (· ∉ current.1)).map
            (fun usage => ⟨usage, true, current.2 ||| s.1.lockModifiers⟩) ++
          (pushMakes s.1.pressed current.2 current.1 s.1.lockModifiers).1) =
        if usage ∈ s.1.pressed ∧ usage ∉ current.1 then [true]
        else if usage ∈ current.1 ∧ usage ∉ s.1.pressed then [false] else [] := by
      intro usage
      rw [history_append, history_breaks (h.nodup.filter _), history_makes _ hcurrent]
      by_cases hold : usage ∈ s.1.pressed <;> by_cases hin : usage ∈ current.1 <;> simp [hin]
    have hodd : ∀ usage, usage ∈ s.1.pressed ↔ (history usage s.2).length % 2 = 1 := by
      intro usage
      rw [h.held usage, ← getLast?_alternating, ← h.alternate usage]
    generalize hevents : (s.1.pressed.filter (· ∉ current.1)).map
      (fun usage => (⟨usage, true, current.2 ||| s.1.lockModifiers⟩ : KeyEvent)) ++
        (pushMakes s.1.pressed current.2 current.1 s.1.lockModifiers).1 = events at hnew
    have halternate : ∀ usage, history usage (s.2 ++ events) =
        alternating (history usage (s.2 ++ events)).length := by
      intro usage
      rw [history_append, hnew]
      split_ifs with hbreak hmake
      · rw [List.length_append, List.length_singleton, alternating_succ, ← h.alternate,
          decide_eq_true ((hodd usage).1 hbreak.1)]
      · rw [List.length_append, List.length_singleton, alternating_succ, ← h.alternate,
          decide_eq_false (mt (hodd usage).2 hmake.2)]
      · rw [List.append_nil]
        exact h.alternate usage
    refine ⟨halternate, fun usage => ?_, hcurrent, fun key hkey => ?_⟩
    · rw [halternate, getLast?_alternating, history_append, hnew]
      have := hodd usage
      by_cases hold : usage ∈ s.1.pressed <;> by_cases hin : usage ∈ current.1 <;>
        simp [hold, hin] at this ⊢ <;> omega
    · rw [locks_makes _ hkey, h.locks key hkey, history_append, ← hevents, history_append,
        history_breaks (h.nodup.filter _), List.count_append, List.count_append]
      generalize (history key.1 s.2).count false = old
      generalize (history key.1 _).count false = new
      rcases Nat.mod_two_eq_zero_or_one old with ho | ho <;>
        rcases Nat.mod_two_eq_zero_or_one new with hn | hn <;> split <;>
        simp [ho, hn, Nat.add_mod]

/-- From the initial state on, whatever the reports are: the events of a key alternate and begin
with a make, the keys whose last event is a make are those in the state, each once, and a lock
modifier is the parity of its key's makes.  The keys in the state are those of the last full
report. -/
theorem keys_disciplined (format : ReportFormat) (reports : List (List UInt8)) :
    Disciplined (submitReports format reports) ∧ (submitReports format reports).1.pressed =
      ((lastFull format reports).map (keysDown format)).getD [] :=
  ⟨Lib.foldl_keeps (I := Disciplined) (fun _ report _ hs => submitReport_disciplined hs report)
      ⟨fun _ => rfl, fun _ => by simp [history], List.nodup_nil, fun _ _ => by simp [history]⟩,
    submitReports_pressed format reports⟩

/-- Two keys of an array, one byte each. -/
def twoKeys : ReportFormat where
  fields := [{ usagePage := usagePageKeyboard, bitSize := 8, isArray := true },
    { usagePage := usagePageKeyboard, bitOffset := 8, bitSize := 8, isArray := true }]
  reportBytes := 2

/-- A key goes down, then Caps Lock; the key goes up, and a report that is too short changes
nothing. -/
theorem keys_disciplined_run :
    ((submitReports twoKeys [[4, 0], [4, 0x39], [0x39, 0], [4]]).2.map fun e =>
        (e.usage, e.isBreak)) = [(4, false), (0x39, false), (4, true)] ∧
      (submitReports twoKeys [[4, 0], [4, 0x39], [0x39, 0], [4]]).1.pressed = [0x39] ∧
      (submitReports twoKeys [[4, 0], [4, 0x39], [0x39, 0], [4]]).1.lockModifiers.testBit 6 = true ∧
      Disciplined (submitReports twoKeys [[4, 0], [4, 0x39], [0x39, 0], [4]]) := by
  obtain ⟨hdisciplined, hpressed⟩ := keys_disciplined twoKeys [[4, 0], [4, 0x39], [0x39, 0], [4]]
  refine ⟨by decide +kernel, ?_, by decide +kernel, hdisciplined⟩
  rw [hpressed]
  decide +kernel

end UnDOS.Input
