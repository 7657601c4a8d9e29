import UnDOS.Lib.Checked
import UnDOS.Lib.Run
import UnDOS.Crt.Stdio

/-!
# What a Stream Has Written

The bytes that the backend has accepted and then those in the buffer are the `output` of a stream.
Every call adds a prefix of its data to it (`Call.post`), so over a run the output is the
concatenation of these prefixes.  How long the prefix is, the result of the call says (`Reports`).
-/

namespace UnDOS.Crt.Stdio

open UnDOS.Lib
open UnDOS.Lib.Prog (Ends)

/-! ## The output -/

/-- The bytes in the buffer. -/
def File.pending (f : File) : List UInt8 := readAt f.buffer 0 f.used

/-- What was accepted, and then what is in the buffer. -/
def World.output (w : World) : List UInt8 := w.sent ++ w.file.pending

/-- The invariant of a stream that is open for writing. -/
structure Ok (f : File) : Prop where
  active : f.active = true
  writable : f.writable = true
  fits : f.used ≤ f.capacity
  unbuffered : f.mode = .unbuffered → f.used = 0
  room : f.mode ≠ .unbuffered → 0 < f.capacity
  started : f.started = false → f.used = 0

/-- The buffer and the mode are the same. -/
structure SameBuffer (f g : File) : Prop where
  active : g.active = f.active
  writable : g.writable = f.writable
  mode : g.mode = f.mode
  used : g.used = f.used
  capacity : g.capacity = f.capacity
  buffer : g.buffer = f.buffer
  started : f.started = true → g.started = true

namespace SameBuffer

variable {f g h : File}

theorem refl (f : File) : SameBuffer f f := ⟨rfl, rfl, rfl, rfl, rfl, rfl, id⟩

theorem trans (hfg : SameBuffer f g) (hgh : SameBuffer g h) : SameBuffer f h where
  active := hgh.active.trans hfg.active
  writable := hgh.writable.trans hfg.writable
  mode := hgh.mode.trans hfg.mode
  used := hgh.used.trans hfg.used
  capacity := hgh.capacity.trans hfg.capacity
  buffer := hgh.buffer.trans hfg.buffer
  started := fun hf => hgh.started (hfg.started hf)

theorem pending (hfg : SameBuffer f g) : g.pending = f.pending := by
  unfold File.pending
  rw [hfg.buffer, hfg.used]

theorem ok (hfg : SameBuffer f g) (hok : Ok f) : Ok g where
  active := hfg.active.trans hok.active
  writable := hfg.writable.trans hok.writable
  fits := by rw [hfg.used, hfg.capacity]; exact hok.fits
  unbuffered hmode := by rw [hfg.used]; exact hok.unbuffered (hfg.mode ▸ hmode)
  room hmode := by rw [hfg.capacity]; exact hok.room (hfg.mode ▸ hmode)
  started hstarted := by
    rw [hfg.used]
    refine hok.started (Bool.eq_false_iff.2 fun htrue => ?_)
    rw [hfg.started htrue] at hstarted
    cases hstarted

end SameBuffer

/-! ## The operations -/

section

variable {w : World} {E : Unit → Prop}

theorem fail_ends (error : Errno) : Ends (fail error) w E fun _ w' =>
    SameBuffer w.file w'.file ∧ w'.file.error = true ∧ w'.sent = w.sent :=
  (Ends.modify (Q := fun _ w' => SameBuffer w.file w'.file ∧ w'.file.error = true ∧
    w'.sent = w.sent)
    ⟨⟨rfl, rfl, rfl, rfl, rfl, rfl, id⟩, rfl, rfl⟩).bind fun _ _ hw' => Ends.modify hw'

theorem ready_ends (hok : Ok w.file) : Ends ready w E fun r w' =>
    SameBuffer w.file w'.file ∧ w'.sent = w.sent ∧ w'.file.started = true ∧
      (r = false → w'.file.error = true) := by
  apply Ends.get_bind
  rw [if_neg (by rw [hok.active]; exact Bool.noConfusion),
    if_neg (by rw [hok.writable]; exact Bool.noConfusion)]
  refine (Ends.modify (Q := fun _ w' => SameBuffer w.file w'.file ∧ w'.sent = w.sent ∧
    w'.file.started = true) ⟨⟨rfl, rfl, rfl, rfl, rfl, rfl, fun _ => rfl⟩, rfl, rfl⟩).bind ?_
  rintro _ w₁ ⟨hsame, hsent, hstarted⟩
  refine Ends.ite (fun _ => ?_) fun _ => Ends.pure ⟨hsame, hsent, hstarted, fun h => by cases h⟩
  have hrun : getStdHandle w₁ =
    (.ok (w₁.handles 0), { w₁ with handles := fun n => w₁.handles (n + 1) }) :=
    rfl
  apply Ends.bind_run hrun
  cases w₁.handles 0 with
  | some handle =>
    refine (Ends.modify (Q := fun _ w' => SameBuffer w₁.file w'.file ∧ w'.sent = w₁.sent ∧
      w'.file.started = w₁.file.started) ⟨⟨rfl, rfl, rfl, rfl, rfl, rfl, id⟩, rfl, rfl⟩).bind ?_
    rintro _ w₂ ⟨hsame₂, hsent₂, hstarted₂⟩
    exact Ends.pure ⟨hsame.trans hsame₂, hsent₂.trans hsent, hstarted₂.trans hstarted,
      fun h => by cases h⟩
  | none =>
    apply (fail_ends .ebadf).bind
    rintro _ w₂ ⟨hsame₂, herror, hsent₂⟩
    exact Ends.pure ⟨hsame.trans hsame₂, hsent₂.trans hsent, hsame₂.started hstarted,
      fun _ => herror⟩

theorem undosWrite_ends (data : List UInt8) : Ends (undosWrite data) w E fun r w' =>
    w'.file = w.file ∧ r.2 ≤ data.length ∧ w'.sent = w.sent ++ data.take r.2 ∧
      (r.1.isSome = true → r.2 = 0) := by
  refine Ends.get_bind ((Ends.modify (Q := fun _ w' => w'.file = w.file ∧ w'.sent = w.sent)
    ⟨rfl, rfl⟩).bind ?_)
  rintro _ w₁ ⟨hfile, hsent⟩
  cases w.answers 0 with
  | accept n =>
    refine (Ends.modify (Q := fun _ w' => w'.file = w₁.file ∧ w'.sent = w₁.sent ++ data.take n)
      ⟨rfl, rfl⟩).bind ?_
    rintro _ w₂ ⟨hfile₂, hsent₂⟩
    refine Ends.pure ⟨hfile₂.trans hfile, min_le_right _ _, ?_, fun h => by cases h⟩
    have htake : data.take (min n data.length) = data.take n := by
      rw [List.take_eq_take_iff]
      omega
    rw [hsent₂, hsent, htake]
  | fail error =>
    refine Ends.pure ⟨hfile, Nat.zero_le _, ?_, fun _ => rfl⟩
    rw [hsent, List.take_zero, List.append_nil]

theorem writeRest_ends {data : List UInt8} :
    ∀ {n done : Nat} {w : World}, done ≤ data.length → data.length - done < n →
      Ends (writeRest data n done) w E fun r w' =>
        SameBuffer w.file w'.file ∧ done ≤ r ∧ r ≤ data.length ∧
          w'.sent = w.sent ++ (data.drop done).take (r - done) ∧
          (r ≠ data.length → w'.file.error = true) := by
  intro n
  induction n with
  | zero =>
    intro done w _ hlt
    cases hlt
  | succ n ih =>
    intro done w hle hlt
    refine Ends.ite (fun hmore => ?_) fun hend => ?_
    · apply (undosWrite_ends _).bind
      rintro ⟨error, length⟩ w₁ ⟨hfile, hlength, hsent, herror⟩
      rw [List.length_take] at hlength
      have hsame : SameBuffer w.file w₁.file := hfile ▸ .refl _
      refine Ends.ite (fun hstop => ?_) fun hgo => ?_
      · -- The backend failed: it has taken nothing of this chunk.
        have hzero : length = 0 := by
          rcases hstop with hsome | hzero | hlong
          · exact herror hsome
          · exact hzero
          · omega
        apply (fail_ends _).bind
        rintro _ w₂ ⟨hsame₂, herror₂, hsent₂⟩
        refine Ends.pure ⟨hsame.trans hsame₂, le_rfl, hle, ?_, fun _ => herror₂⟩
        rw [hsent₂, hsent, hzero, Nat.sub_self, List.take_zero, List.take_zero]
      · apply (@ih (done + length) w₁ (by omega) (by omega)).mono
        rintro r w₂ ⟨hsame₂, hdone, hr, hsent₂, herror₂⟩
        refine ⟨hsame.trans hsame₂, by omega, hr, ?_, herror₂⟩
        have hsplit : (data.drop done).take (r - done) =
            (data.drop done).take length ++
              (data.drop (done + length)).take (r - (done + length)) := by
          have hsum : r - done = length + (r - (done + length)) := by omega
          rw [hsum, List.take_add, List.drop_drop]
        have hshort : ((data.drop done).take (min (data.length - done) chunkSize)).take length =
            (data.drop done).take length := by
          rw [List.take_take]
          congr 1
          omega
        rw [hsent₂, hsent, hshort, hsplit, List.append_assoc]
    · have hdone : done = data.length := by omega
      refine Ends.pure ⟨.refl _, le_rfl, hle, ?_, absurd hdone⟩
      rw [Nat.sub_self, List.take_zero, List.append_nil]

theorem writeBytes_ends (data : List UInt8) : Ends (writeBytes data) w E fun r w' =>
    SameBuffer w.file w'.file ∧ r ≤ data.length ∧ w'.sent = w.sent ++ data.take r ∧
      (r ≠ data.length → w'.file.error = true) := by
  apply (writeRest_ends (Nat.zero_le _) (by omega)).mono
  rintro r w' ⟨hsame, -, hr, hsent, herror⟩
  exact ⟨hsame, hr, hsent, herror⟩

/-- A flush sends from the front of the buffer and keeps the rest. -/
theorem fflush_ends (hok : Ok w.file) : Ends fflush w E fun r w' =>
    Ok w'.file ∧ w'.file.mode = w.file.mode ∧ (w.file.started = true → w'.file.started = true) ∧
      w'.output = w.output ∧
      ((r = 0 ∧ w'.file.used = 0) ∨ (r = eof ∧ w'.file.used ≠ 0 ∧ w'.file.error = true)) := by
  apply Ends.get_bind
  rw [if_neg (by rw [hok.active]; exact Bool.noConfusion),
    if_neg (by rw [hok.writable]; exact Bool.noConfusion)]
  refine Ends.ite (fun hempty => Ends.pure ⟨hok, rfl, id, rfl, .inl ⟨rfl, hempty⟩⟩) fun hused => ?_
  apply (ready_ends hok).bind
  rintro r w₁ ⟨hsame, hsent, hstarted, herror⟩
  have houtput : w₁.output = w.output := by
    unfold World.output
    rw [hsent, hsame.pending]
  cases r with
  | false =>
    exact Ends.pure ⟨hsame.ok hok, hsame.mode, hsame.started, houtput,
      .inr ⟨rfl, fun h => hused (hsame.used.symm.trans h), herror rfl⟩⟩
  | true =>
    apply (writeBytes_ends _).bind
    rintro done w₂ ⟨hsame₂, hdone, hsent₂, herror₂⟩
    rw [readAt_length] at hdone herror₂
    have hsame' := hsame.trans hsame₂
    have hok₂ := hsame'.ok hok
    refine (Ends.modify (Q := fun _ w' => w' = { w₂ with
      file := { w₂.file with used := w₂.file.used - done } }) rfl).bind ?_
    rintro _ w₃ rfl
    refine Ends.get_bind (Ends.ite (fun hrest => ?_) fun hnone => ?_)
    · -- The bytes that were not accepted move to the front.
      refine (Ends.modify (Q := fun _ w' => w' = { w₂ with file := { w₂.file with
        used := w₂.file.used - done
        buffer := writeAt w₂.file.buffer 0 (readAt w₂.file.buffer done (w₂.file.used - done)) } })
        rfl).bind ?_
      rintro _ w₄ rfl
      refine Ends.pure ⟨⟨hok₂.active, hok₂.writable, (Nat.sub_le _ _).trans hok₂.fits,
        fun hmode => ?_,
        hok₂.room, fun hfalse => ?_⟩, hsame'.mode, hsame'.started, ?_, .inr ⟨rfl, hrest, ?_⟩⟩
      · exact absurd (hsame'.used ▸ hok₂.unbuffered hmode) hused
      · exact absurd (hsame'.used ▸ hok₂.started hfalse) hused
      · unfold World.output File.pending
        have hself := readAt_writeAt_self w₂.file.buffer
          0 (readAt w₂.file.buffer done (w₂.file.used - done))
        rw [readAt_length] at hself
        have hsplit : readAt w.file.buffer 0 w.file.used =
            (readAt w.file.buffer 0 w.file.used).take done ++
              readAt w.file.buffer done (w.file.used - done) := by
          have hsum : w.file.used = done + (w.file.used - done) := by omega
          have hfront := readAt_add w.file.buffer 0 done (w.file.used - done)
          rw [← hsum, zero_add] at hfront
          rw [hfront, List.take_left' (readAt_length _ _ _)]
        rw [hself, hsent₂, hsent, hsame'.buffer, hsame'.used, List.append_assoc, ← hsplit]
      · refine herror₂ fun hall => hrest ?_
        rw [hsame'.used, hall, Nat.sub_self]
    · have hzero : w₂.file.used - done = 0 := not_not.1 hnone
      have hall : done = w.file.used := by
        rw [hsame'.used] at hzero
        omega
      refine Ends.pure ⟨⟨hok₂.active, hok₂.writable, (Nat.sub_le _ _).trans hok₂.fits,
        fun hmode => ?_,
        hok₂.room, fun hfalse => ?_⟩, hsame'.mode, hsame'.started, ?_, .inl ⟨rfl, hzero⟩⟩
      · exact absurd (hsame'.used ▸ hok₂.unbuffered hmode) hused
      · exact absurd (hsame'.used ▸ hok₂.started hfalse) hused
      · unfold World.output File.pending
        have hwhole : (readAt w.file.buffer 0 w.file.used).take done =
          readAt w.file.buffer 0 w.file.used :=
          List.take_of_length_le (by rw [readAt_length, hall])
        rw [hzero, hsent₂, hsent, hwhole]
        exact List.append_nil _

/-! ## Through the buffer -/

/-- Bytes go through the buffer. -/
structure Writing (f : File) : Prop where
  ok : Ok f
  buffered : f.mode ≠ .unbuffered
  started : f.started = true

theorem store_ends (byte : UInt8) (hw : Writing w.file) (hroom : w.file.used < w.file.capacity) :
    Ends (store byte) w E fun _ w' => Writing w'.file ∧ w'.file.mode = w.file.mode ∧
      w'.output = w.output ++ [byte] := by
  apply Ends.get_bind
  rw [if_pos hroom]
  refine Ends.modify ⟨⟨⟨hw.ok.active, hw.ok.writable, hroom, fun hmode => absurd hmode hw.buffered,
    hw.ok.room, fun hfalse => ?_⟩, hw.buffered, hw.started⟩, rfl, ?_⟩
  · have hfalse' : w.file.started = false := hfalse
    rw [hw.started] at hfalse'
    cases hfalse'
  · unfold World.output File.pending
    rw [readAt_add, zero_add, readAt_writeAt_of_disjoint (by omega),
      List.append_assoc]
    have hself := readAt_writeAt_self w.file.buffer w.file.used [byte]
    rw [List.length_singleton] at hself
    rw [hself]

theorem blocked_ends (hw : Writing w.file) : Ends blocked w E fun r w' =>
    Ok w'.file ∧ w'.output = w.output ∧ w'.file.mode = w.file.mode ∧
      (r = true → w.file.used = w.file.capacity) ∧
      (r = false → Writing w'.file ∧ w'.file.used < w'.file.capacity) := by
  refine Ends.get_bind (Ends.ite (fun hfull => ?_) fun hroom => ?_)
  · apply (fflush_ends hw.ok).bind
    rintro r w' ⟨hok, hmode, hstarted, houtput, hresult⟩
    refine Ends.pure ⟨hok, houtput, hmode, fun _ => hfull, fun hfalse => ?_⟩
    have hzero : r = 0 := not_not.1 (of_decide_eq_false hfalse)
    rcases hresult with ⟨-, hused⟩ | ⟨heof, -⟩
    · have hbuffered : w'.file.mode ≠ .unbuffered := hmode ▸ hw.buffered
      exact ⟨⟨hok, hbuffered, hstarted hw.started⟩, hused ▸ hok.room hbuffered⟩
    · rw [heof] at hzero
      cases hzero
  · exact Ends.pure ⟨hw.ok, rfl, rfl, (fun htrue => by cases htrue),
      fun _ => ⟨hw, lt_of_le_of_ne hw.ok.fits hroom⟩⟩

theorem flushFails_ends (byte : UInt8) (hw : Writing w.file) :
      Ends (flushFails byte) w E fun r w' =>
    Ok w'.file ∧ w'.output = w.output ∧ w'.file.mode = w.file.mode ∧
      (r = true → w'.file.used ≠ 0 ∧ w'.file.error = true) ∧
      (r = false → Writing w'.file ∧ w'.file.used < w'.file.capacity) := by
  refine Ends.get_bind (Ends.ite (fun hdue => ?_) fun hroom => ?_)
  · apply (fflush_ends hw.ok).bind
    rintro r w' ⟨hok, hmode, hstarted, houtput, hresult⟩
    have hbuffered : w'.file.mode ≠ .unbuffered := hmode ▸ hw.buffered
    rcases hresult with ⟨rfl, hused⟩ | ⟨rfl, hused⟩
    · exact Ends.pure ⟨hok, houtput, hmode, fun htrue => absurd rfl (of_decide_eq_true htrue),
        fun _ => ⟨⟨hok, hbuffered, hstarted hw.started⟩, hused ▸ hok.room hbuffered⟩⟩
    · exact Ends.pure ⟨hok, houtput, hmode, fun _ => hused,
        fun hfalse => absurd (of_decide_eq_false hfalse) (by decide)⟩
  · rw [not_or] at hroom
    exact Ends.pure ⟨hw.ok, rfl, rfl, (fun htrue => by cases htrue),
      fun _ => ⟨hw, lt_of_le_of_ne hw.ok.fits hroom.1⟩⟩

/-- What the result of a buffered `fwrite` says about the `t` bytes that were taken: all, none, or a
flush of a byte that it had stored failed. -/
def Stored (f' : File) (size count r t : Nat) : Prop :=
  (t = size * count ∧ r = count) ∨ (t = 0 ∧ r = 0) ∨
    (0 < t ∧ r < count ∧ r * size ≤ t ∧ f'.used ≠ 0 ∧ f'.error = true)

/-- The buffered half: whenever the buffer is full it is flushed, and the rest goes on. -/
theorem storeRest_ends {bytes : ByteStore} {size count : Nat} (hsize : size ≠ 0) :
    ∀ {n done : Nat} {w : World}, Writing w.file → done ≤ size * count → size * count - done < n →
      (done ≠ 0 → w.file.used < w.file.capacity) →
      Ends (storeRest bytes size (size * count) n done) w E fun r w' =>
        Ok w'.file ∧ ∃ t, done ≤ t ∧ t ≤ size * count ∧
          w'.output = w.output ++ readAt bytes done (t - done) ∧ Stored w'.file size count r t := by
  intro n
  induction n with
  | zero =>
    intro done w _ _ hlt
    cases hlt
  | succ n ih =>
    intro done w hw hle hlt hroom
    refine Ends.ite (fun hmore => ?_) fun hend => ?_
    · apply (blocked_ends hw).bind
      rintro r w₁ ⟨hok₁, houtput₁, hmode₁, hblocked, hfree⟩
      cases r with
      | true =>
        -- Only the first byte can find a full buffer.
        have hzero : done = 0 := by
          by_contra hne
          exact absurd (hblocked rfl) (hroom hne).ne
        subst hzero
        refine Ends.pure ⟨hok₁, 0, le_rfl, Nat.zero_le _, ?_, .inr (.inl ⟨rfl, Nat.zero_div _⟩)⟩
        rw [houtput₁]
        exact (List.append_nil _).symm
      | false =>
        obtain ⟨hw₁, hroom₁⟩ := hfree rfl
        apply (store_ends (bytes done) hw₁ hroom₁).bind
        rintro _ w₂ ⟨hw₂, hmode₂, houtput₂⟩
        have hone : readAt bytes done 1 = [bytes done] := rfl
        apply (flushFails_ends (bytes done) hw₂).bind
        rintro r w₃ ⟨hok₃, houtput₃, hmode₃, hfailed, hgo⟩
        cases r with
        | true =>
          obtain ⟨hused, herror⟩ := hfailed rfl
          have hdiv : done / size * size ≤ done := Nat.div_mul_le_self _ _
          refine Ends.pure ⟨hok₃, done + 1, Nat.le_succ _, hmore, ?_,
            .inr (.inr ⟨Nat.succ_pos _, ?_, ?_, hused, herror⟩)⟩
          · rw [houtput₃, houtput₂, houtput₁, Nat.add_sub_cancel_left, hone]
          · exact (Nat.div_lt_iff_lt_mul (pos_of_ne_zero hsize)).2 (mul_comm size count ▸ hmore)
          · rw [Nat.add_sub_cancel]
            omega
        | false =>
          obtain ⟨hw₃, hroom₃⟩ := hgo rfl
          apply (@ih (done + 1) w₃ hw₃ hmore (by omega) fun _ => hroom₃).mono
          rintro r w₄ ⟨hok₄, t, hdone, ht, houtput₄, hstored⟩
          refine ⟨hok₄, t, (Nat.le_succ _).trans hdone, ht, ?_, hstored⟩
          have hsum : t - done = 1 + (t - (done + 1)) := by omega
          rw [houtput₄, houtput₃, houtput₂, houtput₁, hsum, readAt_add, hone, List.append_assoc]
    · have hdone : done = size * count := by omega
      refine Ends.pure ⟨hw.ok, done, le_rfl, hle, ?_, .inl ⟨hdone, ?_⟩⟩
      · rw [Nat.sub_self]
        exact (List.append_nil _).symm
      · rw [hdone, Nat.mul_div_cancel_left _ (pos_of_ne_zero hsize)]

/-! ## The calls -/

/-- What the result of `fwrite` says about the `t` bytes that were taken. -/
def Wrote (f f' : File) (size count r t : Nat) : Prop :=
  if f.mode = .unbuffered then r = t / size else Stored f' size count r t

theorem Wrote.nothing {f f' : File} {size count : Nat} : Wrote f f' size count 0 0 := by
  unfold Wrote
  split
  · exact (Nat.zero_div _).symm
  · exact .inr (.inl ⟨rfl, rfl⟩)

theorem Wrote.all {f f' : File} {count t : Nat} (h : Wrote f f' 1 count count t) : t = count := by
  unfold Wrote at h
  split at h
  · exact (h.trans (Nat.div_one t)).symm
  · rcases h with ⟨ht, -⟩ | ⟨ht, hcount⟩ | ⟨-, hlt, -⟩
    · exact ht.trans (one_mul count)
    · exact ht.trans hcount.symm
    · exact absurd hlt (lt_irrefl _)

/-- The bytes that `fwrite` is to write. -/
def argument (buffer : Option ByteStore) (size count : Nat) : List UInt8 :=
  match buffer with
  | none => []
  | some bytes => if size ≠ 0 ∧ sizeMax / size < count then [] else readAt bytes 0 (size * count)

theorem argument_some {bytes : ByteStore} {size count : Nat} (h : ¬sizeMax / size < count) :
    argument (some bytes) size count = readAt bytes 0 (size * count) := if_neg fun h' => h h'.2

/-- A write takes a prefix of its argument, and its result says which. -/
theorem fwrite_ends (buffer : Option ByteStore) (size count : Nat) (hok : Ok w.file) :
    Ends (fwrite buffer size count) w E fun r w' =>
      Ok w'.file ∧ ∃ t ≤ (argument buffer size count).length,
        w'.output = w.output ++ (argument buffer size count).take t ∧
          Wrote w.file w'.file size count r t := by
  have hnothing : ∀ w' : World, w'.output = w.output →
      w'.output = w.output ++ (argument buffer size count).take 0 := by
    intro w' houtput
    rw [houtput, List.take_zero, List.append_nil]
  refine Ends.ite (fun _ => Ends.pure ⟨hok, 0, Nat.zero_le _, hnothing _ rfl, .nothing⟩)
    fun hpos => ?_
  rw [not_or] at hpos
  apply (ready_ends hok).bind
  rintro r w₁ ⟨hsame, hsent, hstarted, -⟩
  have hok₁ := hsame.ok hok
  have houtput₁ : w₁.output = w.output := by
    unfold World.output
    rw [hsent, hsame.pending]
  -- A call that is refused takes nothing.
  have hrefused : Ends (do fail .einval; pure 0) w₁ E fun r w' =>
      Ok w'.file ∧ ∃ t ≤ (argument buffer size count).length,
        w'.output = w.output ++ (argument buffer size count).take t ∧
          Wrote w.file w'.file size count r t := by
    apply (fail_ends .einval).bind
    rintro _ w₂ ⟨hsame₂, -, hsent₂⟩
    refine Ends.pure ⟨hsame₂.ok hok₁, 0, Nat.zero_le _, hnothing _ ?_, .nothing⟩
    rw [← houtput₁]
    unfold World.output
    rw [hsent₂, hsame₂.pending]
  cases r with
  | false => exact Ends.pure ⟨hok₁, 0, Nat.zero_le _, hnothing _ houtput₁, .nothing⟩
  | true =>
    cases buffer with
    | none => exact hrefused
    | some bytes =>
      dsimp only
      by_cases hlarge : sizeMax / size < count
      · rw [if_pos hlarge]
        exact hrefused
      rw [if_neg hlarge]
      apply Ends.get_bind
      rw [argument_some hlarge, readAt_length]
      unfold Wrote
      rw [← hsame.mode]
      refine Ends.ite (fun hmode => ?_) fun hmode => ?_
      · -- Without a buffer the bytes go to the backend at once.
        apply (writeBytes_ends _).bind
        rintro done w₂ ⟨hsame₂, hdone, hsent₂, -⟩
        rw [readAt_length] at hdone
        refine Ends.pure ⟨hsame₂.ok hok₁, done, hdone, ?_, if_pos hmode ▸ rfl⟩
        -- The buffer of an unbuffered stream is empty.
        have hempty : ∀ f : File, f.used = 0 → f.pending = [] := fun f hf => by
          unfold File.pending
          rw [hf]
          rfl
        have hused := hok₁.unbuffered hmode
        rw [← houtput₁]
        unfold World.output
        rw [hempty _ hused, hempty _ (hsame₂.used.trans hused), hsent₂, List.append_nil,
          List.append_nil]
      · refine (storeRest_ends hpos.1 ⟨hok₁, hmode, hstarted⟩ (Nat.zero_le _) (by omega)
          fun hne => absurd rfl hne).mono ?_
        rintro r w₂ ⟨hok₂, t, -, ht, houtput₂, hstored⟩
        refine ⟨hok₂, t, ht, ?_, if_neg hmode ▸ hstored⟩
        have hsum : size * count = t + (size * count - t) := by omega
        rw [houtput₂, houtput₁, Nat.sub_zero, hsum, readAt_add,
          List.take_left' (readAt_length _ _ _)]

/-- The calls of a program. -/
inductive Call where
  | fwrite (buffer : Option ByteStore) (size count : Nat)
  | fputc (ch : Int)
  | fputs (text : List UInt8)
  | puts (text : List UInt8)
  | fflush
  | setvbuf (buffer : Option ByteStore) (mode : Option Mode) (size : Nat) (storage : ByteStore)
  | clearerr

/-- The call, with its result. -/
def Call.run : Call → Op Int
  | .fwrite buffer size count => do return (← Stdio.fwrite buffer size count : Nat)
  | .fputc ch => Stdio.fputc ch
  | .fputs text => Stdio.fputs text
  | .puts text => Stdio.puts text
  | .fflush => Stdio.fflush
  | .setvbuf buffer mode size storage => Stdio.setvbuf buffer mode size storage
  | .clearerr => do
    Stdio.clearerr
    pure 0

/-- The bytes that the call is to write. -/
def Call.data : Call → List UInt8
  | .fwrite buffer size count => argument buffer size count
  | .fputc ch => [toByte ch]
  | .fputs text => text
  | .puts text => text ++ [10]
  | .fflush => []
  | .setvbuf _ _ _ _ => []
  | .clearerr => []

/-- What the result `r` of the call says about the `t` bytes that it took, from `f` to `f'`. -/
def Call.Reports (f f' : File) (r : Int) (t : Nat) : Call → Prop
  | .fwrite _ size count => ∃ n : Nat, r = n ∧ Wrote f f' size count n t
  | .fputc ch => ∃ n : Nat, Wrote f f' 1 1 n t ∧ r = if n = 1 then ((toByte ch).toNat : Int)
      else eof
  | .fputs text => (r = 0 ∧ t = text.length) ∨ r = eof
  | .puts text => (r = 0 ∧ t = text.length + 1) ∨ r = eof
  | .fflush => True
  | .setvbuf _ _ _ _ => True
  | .clearerr => True

/-- The call keeps the invariant, and adds a prefix of its data to the output. -/
def CallPost (w : World) (call : Call) (r : Int) (w' : World) : Prop :=
  Ok w'.file ∧ ∃ t ≤ call.data.length,
    w'.output = w.output ++ call.data.take t ∧ call.Reports w.file w'.file r t

theorem fputc_post (ch : Int) (hok : Ok w.file) : Ends (fputc ch) w E (CallPost w (.fputc ch)) := by
  apply (fwrite_ends _ 1 1 hok).bind
  rintro n w' ⟨hok', t, ht, houtput, hwrote⟩
  exact Ends.pure ⟨hok', t, ht, houtput, n, hwrote, rfl⟩

theorem fputs_post (text : List UInt8) (hok : Ok w.file) :
    Ends (fputs text) w E (CallPost w (.fputs text)) := by
  apply (ready_ends hok).bind
  rintro r w₁ ⟨hsame, hsent, -⟩
  have houtput₁ : w₁.output = w.output := by
    unfold World.output
    rw [hsent, hsame.pending]
  cases r with
  | false =>
    refine Ends.pure ⟨hsame.ok hok, 0, Nat.zero_le _, ?_, .inr rfl⟩
    rw [houtput₁, List.take_zero, List.append_nil]
  | true =>
    apply (fwrite_ends _ 1 text.length (hsame.ok hok)).bind
    rintro n w₂ ⟨hok₂, t, ht, houtput₂, hwrote⟩
    have hreports : Call.Reports w.file w₂.file (if n = text.length then 0
        else eof) t (.fputs text) := by
      by_cases hall : n = text.length
      · rw [if_pos hall]
        subst hall
        exact .inl ⟨rfl, hwrote.all⟩
      · rw [if_neg hall]
        exact .inr rfl
    by_cases hlarge : sizeMax / 1 < text.length
    · -- A text that is longer than any size is refused.
      have hnil : argument (some (writeAt (fun _ => 0) 0 text)) 1 text.length = [] :=
        if_pos ⟨one_ne_zero, hlarge⟩
      rw [hnil] at ht houtput₂
      have hzero : t = 0 := Nat.le_zero.1 ht
      subst hzero
      refine Ends.pure ⟨hok₂, 0, Nat.zero_le _, ?_, hreports⟩
      rw [houtput₂, houtput₁, List.take_zero, List.take_zero]
    · rw [argument_some hlarge, one_mul, readAt_writeAt_self] at ht houtput₂
      exact Ends.pure ⟨hok₂, t, ht, by rw [houtput₂, houtput₁]; rfl, hreports⟩

theorem puts_post (text : List UInt8) (hok : Ok w.file) :
    Ends (puts text) w E (CallPost w (.puts text)) := by
  have hlength : (Call.puts text).data.length = text.length + 1 := by
    unfold Call.data
    rw [List.length_append, List.length_singleton]
  have hfront : ∀ t ≤ text.length, (Call.puts text).data.take t = text.take t := fun t ht =>
    List.take_append_of_le_length ht
  apply (fputs_post text hok).bind
  rintro r w₁ ⟨hok₁, t, ht, houtput₁, hreports⟩
  have ht' : t ≤ text.length := ht
  refine Ends.ite (fun _ => ?_) fun hr => ?_
  · refine Ends.pure ⟨hok₁, t, by omega, ?_, .inr rfl⟩
    rw [hfront t ht']
    exact houtput₁
  have hall : t = text.length := (hreports.resolve_right hr).2
  subst hall
  have houtput₁' : w₁.output = w.output ++ text :=
    houtput₁.trans (by rw [Call.data, List.take_length])
  apply (fputc_post 10 hok₁).bind
  rintro r w₂ ⟨hok₂, t, ht₂, houtput₂, n, hwrote, rfl⟩
  have ht₂' : t ≤ 1 := ht₂
  have htake : (Call.puts text).data.take (text.length + t) = text ++ [10].take t :=
    List.take_length_add_append t
  refine Ends.ite (fun hfailed => ?_) fun hdone => ?_
  · refine Ends.pure ⟨hok₂, text.length + t, by omega, ?_, .inr rfl⟩
    rw [htake, houtput₂, houtput₁', List.append_assoc]
    rfl
  · have hn : n = 1 := by
      by_contra hne
      exact hdone (if_neg hne)
    subst hn
    have hone := hwrote.all
    refine Ends.pure ⟨hok₂, text.length + t, by omega, ?_, .inl ⟨rfl, by rw [hone]⟩⟩
    rw [htake, houtput₂, houtput₁', List.append_assoc]
    rfl

theorem setvbuf_post (buffer : Option ByteStore) (mode : Option Mode) (size : Nat)
    (storage : ByteStore)
    (hok : Ok w.file) : Ends (setvbuf buffer mode size storage) w E
      (CallPost w (.setvbuf buffer mode size storage)) := by
  have hkept : ∀ w' : World, w'.file = w.file → w'.sent = w.sent →
      CallPost w (.setvbuf buffer mode size storage) (-1) w' := by
    intro w' hfile hsent
    refine ⟨hfile ▸ hok, 0, Nat.zero_le _, ?_, trivial⟩
    unfold World.output
    rw [hfile, hsent, List.take_zero, List.append_nil]
  have hrefused : ∀ error, Ends (do setErrno error; pure (-1)) w E
      (CallPost w (.setvbuf buffer mode size storage)) := fun error =>
    (Ends.modify (Q := fun _ w' => w'.file = w.file ∧ w'.sent = w.sent) ⟨rfl, rfl⟩).bind
      fun _ w' hw' => Ends.pure (hkept w' hw'.1 hw'.2)
  refine Ends.get_bind (Ends.ite (fun _ => hrefused _) fun _ => ?_)
  cases mode with
  | none => exact hrefused _
  | some mode =>
    refine Ends.ite (fun _ => hrefused _) fun hnew => Ends.ite (fun _ => hrefused _) fun _ => ?_
    rw [not_or, Bool.not_eq_true, not_and_or] at hnew
    have hempty := hok.started hnew.1
    refine (Ends.modify (Q := fun _ w' => w' = { w with file := { w.file with
      mode
      buffer := buffer.getD storage
      capacity := if buffer.isSome = true then size else min size bufSize } }) rfl).bind ?_
    rintro _ w' rfl
    refine Ends.pure ⟨⟨hok.active, hok.writable, ?_, fun _ => hempty, fun hbuffered => ?_,
      fun _ => hempty⟩, 0, Nat.zero_le _, ?_, trivial⟩
    · rw [hempty]
      exact Nat.zero_le _
    · have hsize : 0 < size := pos_of_ne_zero (hnew.2.resolve_left fun h => h hbuffered)
      split
      · exact hsize
      · exact lt_min hsize (by decide)
    · unfold World.output File.pending
      rw [hempty, List.take_zero, List.append_nil]
      rfl

/-- Every call returns, keeps the invariant, and adds a prefix of its data to the output. -/
theorem Call.post (call : Call) (hok : Ok w.file) : Ends call.run w E (CallPost w call) := by
  cases call with
  | fwrite buffer size count =>
    apply (fwrite_ends buffer size count hok).bind
    rintro n w' ⟨hok', t, ht, houtput, hwrote⟩
    exact Ends.pure ⟨hok', t, ht, houtput, n, rfl, hwrote⟩
  | fputc ch => exact fputc_post ch hok
  | fputs text => exact fputs_post text hok
  | puts text => exact puts_post text hok
  | fflush =>
    apply (fflush_ends hok).mono
    rintro r w' ⟨hok', -, -, houtput, -⟩
    refine ⟨hok', 0, Nat.zero_le _, ?_, trivial⟩
    rw [houtput, List.take_zero, List.append_nil]
  | setvbuf buffer mode size storage => exact setvbuf_post buffer mode size storage hok
  | clearerr =>
    refine (Ends.modify (Q := fun _ w' => w' = { w with file := { w.file with error := false } })
      rfl).bind ?_
    rintro _ w' rfl
    refine Ends.pure ⟨⟨hok.active, hok.writable, hok.fits, hok.unbuffered, hok.room, hok.started⟩,
      0,
      Nat.zero_le _, ?_, trivial⟩
    rw [List.take_zero, List.append_nil]
    rfl

end

/-! ## Runs -/

/-- One call, with its result. -/
def Step (w : World) (action : Call × Int) (w' : World) : Prop :=
  action.1.run w = (.ok action.2, w')

/-- A stream that is open for writing, before its first call. -/
structure Opened (w : World) : Prop where
  active : w.file.active = true
  writable : w.file.writable = true
  empty : w.file.used = 0
  room : w.file.mode ≠ .unbuffered → 0 < w.file.capacity
  nothing : w.sent = []

/-- The bytes `out` are what the calls of the run took, in order: of each, a prefix of its data, as
long as its result says. -/
def Taken (start : World) : List ((Call × Int) × World) → List UInt8 → Prop
  | [], out => out = []
  | ((call, r), w') :: past, out => ∃ before, Taken start past before ∧ ∃ t ≤ call.data.length,
      out = before ++ call.data.take t ∧ call.Reports (lastState start past).file w'.file r t

theorem Opened.ok {w : World} (hw : Opened w) : Ok w.file where
  active := hw.active
  writable := hw.writable
  fits := hw.empty ▸ Nat.zero_le _
  unbuffered _ := hw.empty
  room := hw.room
  started _ := hw.empty

theorem Opened.output {w : World} (hw : Opened w) : w.output = [] := by
  unfold World.output File.pending
  rw [hw.nothing, hw.empty]
  rfl

theorem run_ok {start : World} (hstart : Opened start) {run : List ((Call × Int) × World)}
    (h : Run Step start run) : Ok (lastState start run).file ∧
      Taken start run (lastState start run).output := by
  induction h with
  | nil => exact ⟨hstart.ok, hstart.output⟩
  | @cons past action w' _ last ih =>
    obtain ⟨hok, htaken⟩ := ih
    obtain ⟨hok', t, ht, houtput, hreports⟩ :=
      (Call.post (E := fun _ => False) action.1 hok).of_ok last
    exact ⟨hok', _, htaken, t, ht, houtput, hreports⟩

/-- **Nothing is lost and nothing is repeated.**  What the backend has accepted, and then what is in
the buffer, is what the calls took, in order: of each, a prefix of its data.  A call of an
unbuffered stream reports the complete elements of its prefix.  A buffered call takes and reports
everything, or nothing, unless a flush behind a byte that it had stored failed.  Every call
returns. -/
theorem output_is_taken (start : World) (hstart : Opened start) (run : List ((Call × Int) × World))
    (h : Run Step start run) : Taken start run (lastState start run).output ∧
      ∀ call : Call, ∃ r w', Step (lastState start run) (call, r) w' := by
  obtain ⟨hok, htaken⟩ := run_ok hstart h
  refine ⟨htaken, fun call => ?_⟩
  have hpost := Call.post (E := fun _ => False) call hok
  rcases hrun : call.run (lastState start run) with ⟨r | e | _, w'⟩
  · exact ⟨r, w', hrun⟩
  · exact absurd (hpost.of_err hrun) id
  · rw [Ends, hrun] at hpost
    cases hpost

/-! ## An element that is written in part -/

/-- The bytes that a result reports as written. -/
def Call.reported (r : Int) : Call → List UInt8
  | .fwrite buffer size count => (argument buffer size count).take (r.toNat * size)
  | .fputc ch => if r = eof then [] else [toByte ch]
  | .fputs text => if r = eof then [] else text
  | .puts text => if r = eof then [] else text ++ [10]
  | .fflush => []
  | .setvbuf _ _ _ _ => []
  | .clearerr => []

/-- An unbuffered stream whose backend accepts one byte and then fails. -/
def oneByte : World where
  file := ⟨true, false, true, false, false, 1, 0, .unbuffered, 0, bufSize, fun _ => 0⟩
  errno := none
  handles _ := some 37
  answers n := if n = 0 then .accept 1 else .fail .eio
  sent := []

/-- One element of two bytes. -/
def twoBytes : Call := .fwrite (some fun i => UInt8.ofNat (97 + i)) 2 1

theorem oneByte_opened : Opened oneByte := ⟨rfl, rfl, rfl, absurd rfl, rfl⟩

theorem twoBytes_run : Run Step oneByte [((twoBytes, 0), (twoBytes.run oneByte).2)] :=
  .cons .nil (Prod.ext (by decide +kernel) rfl)

theorem output_is_taken_twoBytes :
    Taken oneByte [((twoBytes, 0), (twoBytes.run oneByte).2)] (twoBytes.run oneByte).2.output ∧
      ∀ call : Call, ∃ r w', Step (twoBytes.run oneByte).2 (call, r) w' :=
  output_is_taken oneByte oneByte_opened _ twoBytes_run

/-- No element is reported, but one byte was accepted. -/
theorem output_ne_reported : ¬∀ (start : World) (run : List ((Call × Int) × World)), Opened start →
    Run Step start run →
      (lastState start run).output = run.reverse.flatMap fun x => x.1.1.reported x.1.2 := by
  intro hall
  have hout : (twoBytes.run oneByte).2.output = [] := hall oneByte _ oneByte_opened twoBytes_run
  exact absurd hout (List.cons_ne_nil _ _)

end UnDOS.Crt.Stdio
