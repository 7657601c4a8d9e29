import UnDOS.Tty.Vtty

/-!
# Lines

What a terminal in canonical mode is for: the bytes typed at the source come out at the sink
line by line, edited.  `cook` is that line discipline on lists, with no ring and no bound.

The terminal delivers exactly these lines as long as they fit into the ring when they are
completed.  A line that does not fit is cut off, its bytes having been counted as accepted.
-/

namespace UnDOS.Tty

open UnDOS.Lib
open UnDOS.Kernel (KernelError)

/-! ## The line discipline -/

/-- What one byte does to the line that is edited: what is completed, and what is left. -/
def cookByte (flags : TtyFlags) (edit : List UInt8) (ch : UInt8) : List UInt8 × List UInt8 :=
  let ch := Vtty.translate flags ch
  if ch = 0x08 ∨ ch = 0x7F then ([], edit.dropLast)
  else if ch = 0x15 then ([], [])
  else if ch = 0x04 then (edit, [])
  else if ch = 0x0A then (edit ++ [0x0A], [])
  else ([], edit ++ [ch])

/-- The completed lines of an input, and the line that is left. -/
def cook (flags : TtyFlags) : List UInt8 → List UInt8 → List UInt8 × List UInt8
  | edit, [] => ([], edit)
  | edit, ch :: rest =>
    let (line, edit) := cookByte flags edit ch
    let (lines, edit) := cook flags edit rest
    (line ++ lines, edit)

/-- No line exceeds the edit buffer. -/
def LinesFit (flags : TtyFlags) : List UInt8 → List UInt8 → Prop
  | _, [] => True
  | edit, ch :: rest =>
    (cookByte flags edit ch).1.length ≤ maxEditBufferSize ∧
      (cookByte flags edit ch).2.length ≤ maxEditBufferSize ∧
      LinesFit flags (cookByte flags edit ch).2 rest

theorem cook_append (flags : TtyFlags) (edit xs ys : List UInt8) : cook flags edit (xs ++ ys) =
      ((cook flags edit xs).1 ++ (cook flags (cook flags edit xs).2 ys).1,
        (cook flags (cook flags edit xs).2 ys).2) := by
  induction xs generalizing edit with
  | nil => rfl
  | cons ch xs ih =>
    simp only [List.cons_append, cook, ih, List.append_assoc]

theorem linesFit_append {flags : TtyFlags} {edit xs ys : List UInt8} :
    LinesFit flags edit (xs ++ ys) ↔
      LinesFit flags edit xs ∧ LinesFit flags (cook flags edit xs).2 ys := by
  induction xs generalizing edit with
  | nil => simp [LinesFit, cook]
  | cons ch xs ih => simp only [List.cons_append, LinesFit, ih, cook, and_assoc]

/-! ## One byte -/

namespace Vtty

/-- What the terminal has for the sink after more output, cut off at the size of the ring. -/
def Outputs (t t' : Vtty) (line edit : List UInt8) : Prop :=
  t'.sinkInRing.contents = (t.sinkInRing.contents ++ line).take defaultBufferSize ∧
    t'.editBuffer = edit ∧ t'.flags = t.flags ∧
    t'.sourceClosed = t.sourceClosed ∧ t'.sinkClosed = t.sinkClosed

theorem contents_le (t : Vtty) : t.sinkInRing.contents.length ≤ defaultBufferSize := by
  rw [Ring.contents_length]
  exact t.sinkInRing.count_le

theorem outputs_nothing {t t' : Vtty} {edit : List UInt8} (hring : t'.sinkInRing = t.sinkInRing)
    (hedit : t'.editBuffer = edit) (hflags : t'.flags = t.flags)
    (hsource : t'.sourceClosed = t.sourceClosed) (hsink : t'.sinkClosed = t.sinkClosed) :
    t.Outputs t' [] edit := by
  refine ⟨?_, hedit, hflags, hsource, hsink⟩
  rw [hring, List.append_nil, List.take_of_length_le t.contents_le]

theorem outputs_deliver (t : Vtty) (line : List UInt8) : t.Outputs (t.deliver line) line [] :=
  ⟨Ring.contents_write _ _, rfl, rfl, rfl, rfl⟩

/-- One byte in canonical mode: the line it completes and the line it leaves to be edited. -/
theorem cookedByte_outputs {t : Vtty} {ch : UInt8}
    (hline : (cookByte t.flags t.editBuffer ch).1.length ≤ maxEditBufferSize)
    (hedit : (cookByte t.flags t.editBuffer ch).2.length ≤ maxEditBufferSize) :
    t.Outputs (t.cookedByte (translate t.flags ch)) (cookByte t.flags t.editBuffer ch).1
      (cookByte t.flags t.editBuffer ch).2 := by
  unfold cookedByte
  unfold cookByte at hline hedit ⊢
  generalize translate t.flags ch = c at hline hedit ⊢
  by_cases herase : c = 0x08 ∨ c = 0x7F
  · simp only [herase, if_true]
    by_cases hlen : 0 < t.editBuffer.length
    · rw [if_pos hlen]
      split
      · exact outputs_nothing rfl rfl rfl rfl rfl
      · exact outputs_nothing rfl rfl rfl rfl rfl
    · rw [if_neg hlen]
      have hnil : t.editBuffer = [] := List.length_eq_zero_iff.1 (by omega)
      exact outputs_nothing rfl (by rw [hnil]; rfl) rfl rfl rfl
  simp only [herase, if_false] at hline hedit ⊢
  by_cases hkill : c = 0x15
  · simp only [hkill, if_true]
    split
    · exact outputs_nothing rfl rfl rfl rfl rfl
    · exact outputs_nothing rfl rfl rfl rfl rfl
  simp only [hkill] at hline hedit ⊢
  by_cases heof : c = 0x04
  · simp only [heof]
    by_cases hlen : 0 < t.editBuffer.length
    · rw [if_pos hlen]
      exact t.outputs_deliver _
    · have hnil : t.editBuffer = [] := List.length_eq_zero_iff.1 (by omega)
      rw [hnil]
      exact outputs_nothing rfl rfl rfl rfl rfl
  simp only [heof, if_false] at hline hedit ⊢
  by_cases hnewline : c = 0x0A
  · simp only [hnewline, if_true] at hline ⊢
    have hroom : t.editBuffer.length < maxEditBufferSize := by
      simp only [List.length_append, List.length_singleton] at hline
      omega
    unfold endLine
    split
    · exact (t.echo t.newline).outputs_deliver _
    · exact t.outputs_deliver _
  simp only [hnewline, if_false] at hedit ⊢
  have hroom : t.editBuffer.length < maxEditBufferSize := by
    simp only [List.length_append, List.length_singleton] at hedit
    omega
  rw [if_pos hroom]
  split
  · exact outputs_nothing rfl rfl rfl rfl rfl
  · exact outputs_nothing rfl rfl rfl rfl rfl

theorem take_append_take (n : Nat) (xs ys : List UInt8) :
    (xs.take n ++ ys).take n = (xs ++ ys).take n := by
  rw [List.take_append, List.take_append, List.take_take, Nat.min_self, List.length_take]
  congr 2
  omega

/-! ## One call -/

theorem sourceLoop_outputs {t : Vtty} {src : List UInt8} (hcanonical : t.flags.canonical = true)
    (hfit : LinesFit t.flags t.editBuffer src) : (t.sourceLoop src).2 = src.length ∧
      t.Outputs (t.sourceLoop src).1 (cook t.flags t.editBuffer src).1
        (cook t.flags t.editBuffer src).2 := by
  induction src generalizing t with
  | nil => exact ⟨rfl, outputs_nothing rfl rfl rfl rfl rfl⟩
  | cons ch src ih =>
    obtain ⟨hline, hedit, hrest⟩ := hfit
    obtain ⟨hring, hbuffer, hflags, hsource, hsink⟩ := cookedByte_outputs hline hedit
    unfold sourceLoop
    rw [if_pos hcanonical]
    have hnext := @ih (t.cookedByte (translate t.flags ch)) (by rw [hflags]; exact hcanonical)
      (by rw [hflags, hbuffer]; exact hrest)
    obtain ⟨hcount, hring', hbuffer', hflags', hsource', hsink'⟩ := hnext
    rw [hflags, hbuffer] at hring' hbuffer'
    refine ⟨congrArg (· + 1) hcount, ?_, hbuffer', hflags'.trans hflags,
      hsource'.trans hsource, hsink'.trans hsink⟩
    rw [hring', hring, take_append_take, List.append_assoc]
    rfl

end Vtty

/-! ## Runs -/

/-- A terminal, with all bytes that it accepted and all bytes that were read from it. -/
structure Session where
  tty : Vtty
  accepted : List UInt8 := []
  received : List UInt8 := []

/-- The calls at the two ends. -/
inductive Call where
  | sourceWrite (src : List UInt8)
  | sinkRead (count : Nat)
  | sinkReadWait (count : Nat)
deriving DecidableEq

/-- What a call writes. -/
def Call.input : Call → List UInt8
  | .sourceWrite src => src
  | _ => []

namespace Session

def call (s : Session) : Call → Session
  | .sourceWrite src =>
    match s.tty.sourceWrite src with
    | (.ok n, t) => { s with tty := t, accepted := s.accepted ++ src.take n }
    | (.error _, t) => { s with tty := t }
  | .sinkRead count =>
    let (bytes, t) := s.tty.sinkRead count
    { s with tty := t, received := s.received ++ bytes }
  | .sinkReadWait count =>
    let (bytes, t) := s.tty.sinkReadWait count
    { s with tty := t, received := s.received ++ bytes.getD [] }

def run (s : Session) (calls : List Call) : Session := calls.foldl call s

/-- The bytes that can be read at the sink, with those that were. -/
def readable (s : Session) : List UInt8 := s.received ++ s.tty.sinkInRing.contents

/-- The completed lines of the accepted bytes. -/
def lines (s : Session) : List UInt8 := (cook s.tty.flags [] s.accepted).1

/-- The lines that a call completes fit into the ring. -/
def HasRoom (s : Session) (c : Call) : Prop :=
  s.tty.sinkInRing.count + (cook s.tty.flags s.tty.editBuffer c.input).1.length ≤
    defaultBufferSize

instance (s : Session) (c : Call) : Decidable (s.HasRoom c) :=
  inferInstanceAs (Decidable (_ ≤ _))

/-- Every call of a run found room. -/
def AllRoom : Session → List Call → Prop
  | _, [] => True
  | s, c :: calls => s.HasRoom c ∧ (s.call c).AllRoom calls

/-- An open terminal in canonical mode, with the line it edits. -/
structure Editing (s : Session) : Prop where
  canonical : s.tty.flags.canonical = true
  open_ : ¬(s.tty.sourceClosed = true ∨ s.tty.sinkClosed = true)
  edit : s.tty.editBuffer = (cook s.tty.flags [] s.accepted).2

/-- Something that was accepted is lost. -/
def Short (s : Session) : Prop := s.readable.length < s.lines.length

/-- What one call does: it adds the lines it completes, as far as there is room. -/
structure Advances (s s' : Session) (c : Call) : Prop where
  editing : s'.Editing
  accepted : s'.accepted = s.accepted ++ c.input
  lines : s'.lines = s.lines ++ (cook s.tty.flags s.tty.editBuffer c.input).1
  flags : s'.tty.flags = s.tty.flags
  readable : s'.readable = s.received ++
    (s.tty.sinkInRing.contents ++ (cook s.tty.flags s.tty.editBuffer c.input).1).take
      defaultBufferSize

variable {s s' : Session}

theorem advances_of_read {c : Call} (h : s.Editing) (hinput : c.input = [])
    (hread : s'.readable = s.readable) (haccepted : s'.accepted = s.accepted)
    (hflags : s'.tty.flags = s.tty.flags) (hedit : s'.tty.editBuffer = s.tty.editBuffer)
    (hsource : s'.tty.sourceClosed = s.tty.sourceClosed)
    (hsink : s'.tty.sinkClosed = s.tty.sinkClosed) : s.Advances s' c where
  editing := ⟨by rw [hflags]; exact h.canonical, by rw [hsource, hsink]; exact h.open_,
    by rw [hedit, hflags, haccepted]; exact h.edit⟩
  accepted := by rw [haccepted, hinput, List.append_nil]
  lines := by
    rw [hinput]
    unfold Session.lines
    rw [hflags, haccepted]
    exact (List.append_nil _).symm
  flags := hflags
  readable := by
    rw [hinput, hread]
    show _ = s.received ++ (s.tty.sinkInRing.contents ++ []).take defaultBufferSize
    rw [List.append_nil, List.take_of_length_le s.tty.contents_le]
    rfl

theorem advances_write {src : List UInt8} (h : s.Editing)
    (hfit : LinesFit s.tty.flags s.tty.editBuffer src) :
    s.Advances (s.call (.sourceWrite src)) (.sourceWrite src) := by
  obtain ⟨hcount, hring, hedit, hflags, hsource, hsink⟩ :=
    Vtty.sourceLoop_outputs h.canonical hfit
  have hcall : ∃ t', s.call (.sourceWrite src) =
      { s with tty := t', accepted := s.accepted ++ src } ∧
      t'.sinkInRing = (s.tty.sourceLoop src).1.sinkInRing ∧
      t'.editBuffer = (s.tty.sourceLoop src).1.editBuffer ∧
      t'.flags = (s.tty.sourceLoop src).1.flags ∧
      t'.sourceClosed = (s.tty.sourceLoop src).1.sourceClosed ∧
      t'.sinkClosed = (s.tty.sourceLoop src).1.sinkClosed := by
    unfold call Vtty.sourceWrite
    dsimp only
    rw [if_neg h.open_, hcount]
    dsimp only
    rw [List.take_length]
    refine ⟨_, rfl, ?_⟩
    split
    · exact ⟨rfl, rfl, rfl, rfl, rfl⟩
    · exact ⟨rfl, rfl, rfl, rfl, rfl⟩
  obtain ⟨t', hcall, hring', hedit', hflags', hsource', hsink'⟩ := hcall
  rw [hcall]
  have hcook := cook_append s.tty.flags [] s.accepted src
  rw [← h.edit] at hcook
  refine ⟨⟨?_, ?_, ?_⟩, rfl, ?_, hflags'.trans hflags, ?_⟩
  · rw [hflags', hflags]
    exact h.canonical
  · rw [hsource', hsink', hsource, hsink]
    exact h.open_
  · rw [hflags', hflags, hedit', hedit, hcook]
  · show (cook t'.flags [] (s.accepted ++ src)).1 = _
    rw [hflags', hflags, hcook]
    rfl
  · show s.received ++ t'.sinkInRing.contents = _
    rw [hring', hring]
    rfl

theorem advances_call {c : Call} (h : s.Editing)
    (hfit : LinesFit s.tty.flags s.tty.editBuffer c.input) : s.Advances (s.call c) c := by
  cases c with
  | sourceWrite src => exact advances_write h hfit
  | sinkRead count =>
    unfold call Vtty.sinkRead
    dsimp only
    split
    · exact advances_of_read h rfl (by simp [readable]) rfl rfl rfl rfl rfl
    · split
      · exact advances_of_read h rfl (by simp [readable]) rfl rfl rfl rfl rfl
      · refine advances_of_read h rfl ?_ rfl rfl rfl rfl rfl
        show s.received ++ _ ++ _ = s.received ++ _
        rw [List.append_assoc, Ring.read_append]
  | sinkReadWait count =>
    unfold call Vtty.sinkReadWait
    dsimp only
    split
    · exact advances_of_read h rfl (by simp [readable]) rfl rfl rfl rfl rfl
    · split
      · refine advances_of_read h rfl ?_ rfl rfl rfl rfl rfl
        show s.received ++ _ ++ _ = s.received ++ _
        rw [List.append_assoc]
        exact congrArg (s.received ++ ·) (Ring.read_append _ _)
      · split
        · exact advances_of_read h rfl (by simp [readable]) rfl rfl rfl rfl rfl
        · exact advances_of_read h rfl (by simp [readable]) rfl rfl rfl rfl rfl

/-! ## What is lost stays lost -/

theorem Advances.right {c : Call} (h : s.Advances s' c)
    (hright : s.readable = s.lines) (hroom : s.HasRoom c) : s'.readable = s'.lines := by
  have hlen : (s.tty.sinkInRing.contents ++
      (cook s.tty.flags s.tty.editBuffer c.input).1).length ≤ defaultBufferSize := by
    rw [List.length_append, Ring.contents_length]
    exact hroom
  rw [h.readable, h.lines, List.take_of_length_le hlen, ← List.append_assoc]
  exact congrArg (· ++ _) hright

theorem Advances.short_of_full {c : Call} (h : s.Advances s' c)
    (hright : s.readable = s.lines) (hroom : ¬s.HasRoom c) : s'.Short := by
  unfold HasRoom at hroom
  unfold Short
  have hlen : s.received.length + s.tty.sinkInRing.count = s.lines.length := by
    rw [← hright]
    unfold Session.readable
    rw [List.length_append, Ring.contents_length]
  rw [h.readable, h.lines]
  simp only [List.length_append, List.length_take]
  omega

theorem Advances.short {c : Call} (h : s.Advances s' c) (hshort : s.Short) : s'.Short := by
  unfold Short at hshort ⊢
  unfold Session.readable at hshort
  rw [h.readable, h.lines]
  simp only [List.length_append, List.length_take] at hshort ⊢
  omega

theorem Advances.linesFit {c : Call} {rest : List UInt8} (h : s.Advances s' c)
    (hs : s.Editing)
    (hfit : LinesFit s.tty.flags (cook s.tty.flags s.tty.editBuffer c.input).2 rest) :
    LinesFit s'.tty.flags s'.tty.editBuffer rest := by
  rw [h.editing.edit, h.flags, h.accepted, cook_append, ← hs.edit]
  exact hfit

theorem run_short {calls : List Call} (h : s.Editing)
    (hfit : LinesFit s.tty.flags s.tty.editBuffer (calls.flatMap Call.input))
    (hshort : s.Short) : (s.run calls).Short := by
  induction calls generalizing s with
  | nil => exact hshort
  | cons c calls ih =>
    obtain ⟨hfirst, hrest⟩ := linesFit_append.1 hfit
    have hcall := advances_call h hfirst
    exact ih hcall.editing (hcall.linesFit h hrest) (hcall.short hshort)

theorem run_right_iff {calls : List Call} (h : s.Editing)
    (hfit : LinesFit s.tty.flags s.tty.editBuffer (calls.flatMap Call.input))
    (hright : s.readable = s.lines) :
    (s.run calls).readable = (s.run calls).lines ↔ s.AllRoom calls := by
  induction calls generalizing s with
  | nil => exact ⟨fun _ => trivial, fun _ => hright⟩
  | cons c calls ih =>
    obtain ⟨hfirst, hrest⟩ := linesFit_append.1 hfit
    have hcall := advances_call h hfirst
    replace hrest := hcall.linesFit h hrest
    by_cases hroom : s.HasRoom c
    · have hgo := ih hcall.editing hrest (hcall.right hright hroom)
      exact hgo.trans ⟨fun hall => ⟨hroom, hall⟩, fun hall => hall.2⟩
    · have hshort := run_short hcall.editing hrest (hcall.short_of_full hright hroom)
      constructor
      · intro heq
        exact absurd (congrArg List.length heq) (Nat.ne_of_lt hshort)
      · intro hall
        exact absurd hall.1 hroom

end Session

/-- A terminal just created, with the flags it is used with. -/
def Session.start (flags : TtyFlags) : Session := ⟨{ flags := flags }, [], []⟩

theorem Session.start_editing {flags : TtyFlags} (h : flags.canonical = true) :
    (Session.start flags).Editing := ⟨h, by simp [Session.start], rfl⟩

/-- The sink gets exactly the lines of what was accepted if and only if every `source_write`
found room in the ring for the lines that it completed. -/
theorem lines_delivered_iff {flags : TtyFlags} {calls : List Call}
    (hcanonical : flags.canonical = true) (hfit : LinesFit flags [] (calls.flatMap Call.input)) :
    ((Session.start flags).run calls).readable = ((Session.start flags).run calls).lines ↔
      (Session.start flags).AllRoom calls := by
  exact Session.run_right_iff (Session.start_editing hcanonical) hfit rfl

/-- A line is typed, corrected and read in two parts. -/
theorem lines_delivered_short :
    ((Session.start {}).run [.sourceWrite [0x61, 0x62, 0x08, 0x0D], .sinkRead 1]).readable =
      [0x61, 0x0A] := by
  have hlines := (@lines_delivered_iff {} [.sourceWrite [0x61, 0x62, 0x08, 0x0D], .sinkRead 1] rfl
    ⟨by decide, by decide, by decide, by decide, by decide, by decide, by decide, by decide,
      trivial⟩).2 ⟨by decide, by decide, trivial⟩
  exact hlines.trans (by decide)

/-! ## A full ring -/

theorem cook_newlines (flags : TtyFlags) (n : Nat) :
    cook flags [] (List.replicate n 0x0A) = (List.replicate n 0x0A, []) := by
  have hbyte : cookByte flags [] 0x0A = ([0x0A], []) := by
    unfold cookByte Vtty.translate
    simp
  induction n with
  | zero => rfl
  | succ n ih =>
    rw [List.replicate_succ, cook, hbyte]
    dsimp only
    rw [ih]
    rfl

theorem linesFit_newlines (flags : TtyFlags) (n : Nat) :
    LinesFit flags [] (List.replicate n 0x0A) := by
  have hbyte : cookByte flags [] 0x0A = ([0x0A], []) := by
    unfold cookByte Vtty.translate
    simp
  induction n with
  | zero => trivial
  | succ n ih =>
    rw [List.replicate_succ, LinesFit, hbyte]
    exact ⟨by decide, by decide, ih⟩

theorem hasRoom_newlines (flags : TtyFlags) (n : Nat) :
    (Session.start flags).HasRoom (.sourceWrite (List.replicate n 0x0A)) ↔
      n ≤ defaultBufferSize := by
  show 0 + (cook flags [] (List.replicate n 0x0A)).1.length ≤ defaultBufferSize ↔ _
  rw [cook_newlines, List.length_replicate, Nat.zero_add]

/-- One newline more than the ring holds: it is accepted, and no reader ever gets it. -/
theorem accepted_byte_discarded :
    ¬∀ (flags : TtyFlags) (calls : List Call), flags.canonical = true →
      LinesFit flags [] (calls.flatMap Call.input) →
      ((Session.start flags).run calls).readable = ((Session.start flags).run calls).lines := by
  intro h
  have hfit : LinesFit {} []
      ([.sourceWrite (List.replicate (defaultBufferSize + 1) 0x0A)].flatMap Call.input) := by
    simpa [Call.input] using linesFit_newlines {} (defaultBufferSize + 1)
  have hroom := (Session.run_right_iff (Session.start_editing rfl) hfit rfl).1 (h {} _ rfl hfit)
  exact absurd ((hasRoom_newlines {} _).1 hroom.1) (by omega)

end UnDOS.Tty
