import UnDOS.Lib.Checked
import UnDOS.Lib.Prefix
import UnDOS.Startup.Grammar

/-!
# Parsing a Command

`parse` stays in its two arrays, accepts just what the grammar allows, and leaves the path and the
arguments of the command packed one behind the other (`parse_ends`).
-/

namespace UnDOS.Startup

open UnDOS.Lib
open UnDOS.Lib.Prog (Ends)
open UnDOS.Kernel

/-! ## Packed strings -/

/-- The strings, each with its zero. -/
def pack (args : List (List UInt8)) : List UInt8 := args.flatMap (· ++ [0])

@[simp] theorem pack_nil : pack [] = [] := rfl

theorem pack_append (args args' : List (List UInt8)) : pack (args ++ args') = pack args ++
    pack args' :=
  List.flatMap_append

theorem pack_singleton (arg : List UInt8) : pack [arg] = arg ++ [0] := List.append_nil _

/-- The strings `args` are packed in the text, and the offsets are where they start. -/
structure Packed (out : Arguments) (args : List (List UInt8)) : Prop where
  argc : out.argc = args.length
  offsets : ∀ i < args.length, out.offsets i = (pack (args.take i)).length
  bytes : out.bytes = (pack args).length
  text : HasPrefix out.text (pack args)

/-- The string `cur` grows behind the strings `args`. -/
structure Growing (out : Arguments) (args : List (List UInt8)) (cur : List UInt8) : Prop where
  argc : out.argc = args.length + 1
  offsets : ∀ i ≤ args.length, out.offsets i = (pack (args.take i)).length
  bytes : out.bytes = (pack args ++ cur).length
  text : HasPrefix out.text (pack args ++ cur)

section Pushing

variable {out : Arguments} {args : List (List UInt8)} {cur : List UInt8} {E : KernelError → Prop}

theorem pushOffset_ends (h : Packed out args) (hroom : args.length < maxArguments) :
    Ends pushOffset out E fun _ out' => Growing out' args [] := by
  apply Ends.get_bind
  rw [if_pos (h.argc ▸ hroom)]
  refine Ends.modify ⟨congrArg (· + 1) h.argc, fun i hi => ?_, ?_, ?_⟩
  · rcases lt_or_eq_of_le hi with hlt | rfl
    · dsimp only
      rw [Function.update_of_ne (by rw [h.argc]; omega)]
      exact h.offsets i hlt
    · dsimp only
      rw [h.argc, Function.update_self, h.bytes, List.take_length]
  · rw [List.append_nil]
    exact h.bytes
  · rw [List.append_nil]
    exact h.text

theorem pushByte_ends (h : Growing out args cur) (ch : UInt8)
    (hroom : (pack args ++ cur).length < textCapacity) :
    Ends (pushByte ch) out E fun _ out' => Growing out' args (cur ++ [ch]) := by
  apply Ends.get_bind
  rw [if_pos (h.bytes ▸ hroom)]
  refine Ends.modify ⟨h.argc, h.offsets, ?_, ?_⟩
  · rw [← List.append_assoc, List.length_append, ← h.bytes]
    rfl
  · rw [← List.append_assoc, h.bytes]
    exact h.text.append [ch]

theorem Growing.close (h : Growing out args (cur ++ [0])) : Packed out (args ++ [cur]) := by
  have hpack : pack args ++ (cur ++ [0]) = pack (args ++ [cur]) := by
    rw [pack_append, pack_singleton]
  refine ⟨?_, fun i hi => ?_, hpack ▸ h.bytes, hpack ▸ h.text⟩
  · rw [h.argc, List.length_append, List.length_singleton]
  · rw [List.length_append, List.length_singleton] at hi
    rw [List.take_append_of_le_length (by omega)]
    exact h.offsets i (by omega)

theorem parsePath_ends {path : List UInt8} (h : Growing out args cur)
    (hroom : (pack args ++ cur).length + path.length ≤ textCapacity) :
    Ends (parsePath path) out (fun _ => 0 ∈ path) fun _ out' =>
      0 ∉ path ∧ Growing out' args (cur ++ path) := by
  induction path generalizing out cur with
  | nil => exact Ends.pure ⟨List.not_mem_nil, by rwa [List.append_nil]⟩
  | cons ch path ih =>
    rw [List.length_cons] at hroom
    refine Ends.ite (fun hzero => Ends.throw (hzero ▸ .head _)) fun hzero => ?_
    refine (pushByte_ends h ch (by omega)).bind fun _ out' h' => ?_
    have hrest := ih h' (by
      rw [← List.append_assoc, List.length_append, List.length_singleton]
      omega)
    apply (hrest.allow fun _ hm => .tail _ hm).mono
    rintro _ out'' ⟨hnone, h''⟩
    refine ⟨fun hm => (List.mem_cons.1 hm).elim (fun heq => hzero heq.symm) hnone, ?_⟩
    rw [List.append_assoc] at h''
    exact h''

end Pushing

/-! ## One argument -/

/-- What the loop over an argument has read of `input`, from between quotes when `quoted` holds: it
leaves `rest`, and the argument has grown by `v`. -/
def WordRead (quoted : Bool) (input rest v : List UInt8) (stillQuoted : Bool) : Prop :=
  if stillQuoted = true then rest = [] ∧ (Even (quotes input) ↔ quoted = true)
  else ∃ text fs, 0 ∉ text ∧ quote ∉ text ∧ (∀ f ∈ fs, Fragment.Ok f) ∧ Boundary rest ∧
    input = (if quoted = true then text ++ [quote] else []) ++ source fs ++ rest ∧
    v = (if quoted = true then text else []) ++ value fs

theorem parseWord_ends {args : List (List UInt8)} {input : List UInt8} :
    ∀ {quoted : Bool} {out : Arguments} {cur : List UInt8}, Growing out args cur →
      (pack args ++ cur).length + input.length ≤ textCapacity →
      Ends (parseWord quoted input) out (fun _ => 0 ∈ input) fun r out' =>
        ∃ v, WordRead quoted input r.1 v r.2 ∧ Growing out' args (cur ++ v) ∧
          v.length + r.1.length ≤ input.length := by
  induction input with
  | nil =>
    intro quoted out cur h _
    have hgrow : Growing out args (cur ++ []) := by rwa [List.append_nil]
    cases quoted with
    | false =>
      refine Ends.pure ⟨[], ?_, hgrow, le_rfl⟩
      exact ⟨[], [], List.not_mem_nil, List.not_mem_nil, fun f hf => absurd hf List.not_mem_nil,
        (fun ch hch => by cases hch), rfl, rfl⟩
    | true => exact Ends.pure ⟨[], ⟨rfl, iff_of_true Even.zero rfl⟩, hgrow, le_rfl⟩
  | cons ch input ih =>
    intro quoted out cur h hroom
    rw [List.length_cons] at hroom
    refine Ends.ite (fun hzero => Ends.throw (hzero ▸ .head _)) fun hzero => ?_
    refine Ends.ite (fun hspace => ?_) fun hspace => ?_
    · -- The argument ends before this byte.
      rw [Bool.and_eq_true, Bool.not_eq_true'] at hspace
      obtain ⟨rfl, hspace⟩ := hspace
      refine Ends.pure ⟨[], ?_, by rwa [List.append_nil], (zero_add _).le⟩
      refine ⟨[], [], List.not_mem_nil, List.not_mem_nil, fun f hf => absurd hf List.not_mem_nil,
        fun c hc => ?_, rfl, rfl⟩
      rw [← Option.some.inj hc]
      exact hspace
    refine Ends.ite (fun hquote => ?_) fun hquote => ?_
    · -- A quote: it opens a fragment, or closes the one that is being read.
      subst hquote
      have hcount : quotes (quote :: input) = quotes input + 1 := List.count_cons_self
      refine ((@ih (!quoted) _ _ h (by omega)).allow fun _ hm =>
        .tail _ hm).mono ?_
      rintro ⟨rest, still⟩ out' ⟨v, hread, hgrow, hlen⟩
      refine ⟨v, ?_, hgrow, hlen.trans (Nat.le_succ _)⟩
      cases still with
      | true =>
        obtain ⟨hrest, heven⟩ := hread
        refine ⟨hrest, ?_⟩
        rw [hcount, Nat.even_add_one, heven]
        cases quoted <;> simp
      | false =>
        obtain ⟨text, fs, h0, hq, hok, hend, hin, hv⟩ := hread
        cases quoted with
        | false =>
          refine ⟨[], .quoted text :: fs, List.not_mem_nil, List.not_mem_nil, ?_, hend, ?_, hv⟩
          · intro f hf
            rcases List.mem_cons.1 hf with rfl | hf
            · exact ⟨h0, hq⟩
            · exact hok f hf
          · rw [hin]
            simp [Fragment.source]
        | true =>
          refine ⟨[], fs, List.not_mem_nil, List.not_mem_nil, hok, hend, ?_, hv⟩
          rw [hin]
          rfl
    · -- Any other byte belongs to the argument.
      have hcount : quotes (ch :: input) = quotes input := List.count_cons_of_ne hquote
      refine (pushByte_ends h ch (by omega)).bind fun _ out₁ h₁ => ?_
      have hroom₁ : (pack args ++ (cur ++ [ch])).length + input.length ≤ textCapacity := by
        rw [← List.append_assoc, List.length_append, List.length_singleton]
        omega
      apply ((@ih quoted _ _ h₁ hroom₁).allow fun _ hm => .tail _ hm).mono
      rintro ⟨rest, still⟩ out' ⟨v, hread, hgrow, hlen⟩
      refine ⟨ch :: v, ?_, by rw [List.append_assoc] at hgrow; exact hgrow, ?_⟩
      · cases still with
        | true =>
          obtain ⟨hrest, heven⟩ := hread
          exact ⟨hrest, by rw [hcount, heven]⟩
        | false =>
          obtain ⟨text, fs, h0, hq, hok, hend, hin, hv⟩ := hread
          cases quoted with
          | false =>
            have hplain : whitespace ch = false := by simpa using hspace
            refine ⟨[], .plain ch :: fs, List.not_mem_nil, List.not_mem_nil, ?_, hend, ?_, ?_⟩
            · intro f hf
              rcases List.mem_cons.1 hf with rfl | hf
              · exact ⟨hzero, hquote, hplain⟩
              · exact hok f hf
            · rw [hin]
              rfl
            · rw [hv]
              rfl
          | true =>
            refine ⟨ch :: text, fs, ?_, ?_, hok, hend, ?_, ?_⟩
            · exact fun hm => (List.mem_cons.1 hm).elim (fun heq => hzero heq.symm) h0
            · exact fun hm => (List.mem_cons.1 hm).elim (fun heq => hquote heq.symm) hq
            · rw [hin]
              rfl
            · rw [hv]
              rfl
      · rw [List.length_cons, List.length_cons]
        omega

/-! ## The command -/

theorem value_length_le (fs : List Fragment) : (value fs).length ≤ (source fs).length := by
  induction fs with
  | nil => exact le_rfl
  | cons f fs ih =>
    rw [value_cons, source_cons, List.length_append, List.length_append]
    refine add_le_add ?_ ih
    cases f with
    | plain ch => exact le_rfl
    | quoted text =>
      rw [Fragment.value, Fragment.source, List.length_append, List.length_cons]
      omega

/-- A split of `command` that leaves no more than the allowed number of arguments. -/
def SplitsWithin (count : Nat) (command : List UInt8) (args : List (List UInt8)) : Prop :=
  Splits command args ∧ count + args.length ≤ maxArguments

theorem splits_of_word {command word : List UInt8} {ch : UInt8}
    (hword : command.dropWhile whitespace = ch :: word) :
    whitespace ch = false ∧ command = command.takeWhile whitespace ++ ch :: word := by
  constructor
  · have hhead := List.head_dropWhile_not whitespace (l := command) (by rw [hword]; simp)
    simpa [hword] using hhead
  · rw [← hword, List.takeWhile_append_dropWhile]

theorem fragments_ne_nil {fs : List Fragment} {rest word : List UInt8} {ch : UInt8}
    (hch : whitespace ch = false) (hend : Boundary rest) (heq : ch :: word = source fs ++ rest) :
    fs ≠ [] := by
  rintro rfl
  have hspace := hend ch (by rw [source_nil, List.nil_append] at heq; rw [← heq]; rfl)
  rw [hch] at hspace
  cases hspace

/-- Each round takes a gap and a word, so that the text bounds the rounds. -/
theorem parseCommand_ends :
    ∀ {n : Nat} {command : List UInt8} {args : List (List UInt8)} {out : Arguments},
      Packed out args → command.length ≤ n → args.length ≤ maxArguments →
      (∀ ch word, command.dropWhile whitespace = ch :: word →
        (pack args).length + word.length + 2 ≤ textCapacity) →
      Ends (parseCommand n command) out (fun _ => ¬∃ more, SplitsWithin args.length command more)
        fun _ out' => ∃ more, SplitsWithin args.length command more ∧
          Packed out' (args ++ more) := by
  intro n
  induction n with
  | zero =>
    intro command args out h hn hargs _
    have hnil : command = [] := List.length_eq_zero_iff.1 (Nat.le_zero.1 hn)
    subst hnil
    exact Ends.pure ⟨[], ⟨.nil fun ch hch => absurd hch List.not_mem_nil,
      hargs⟩, by rwa [List.append_nil]⟩
  | succ n ih =>
    intro command args out h hn hargs hroom
    refine Ends.ite (fun hnil => ?_) fun _ => ?_
    · subst hnil
      exact Ends.pure ⟨[], ⟨.nil fun ch hch => absurd hch List.not_mem_nil, hargs⟩,
        by rwa [List.append_nil]⟩
    have hgap := blank_takeWhile command
    rcases hword : command.dropWhile whitespace with _ | ⟨ch, word⟩
    · -- Only whitespace is left.
      have hsplit := List.takeWhile_append_dropWhile (p := whitespace) (l := command)
      rw [hword, List.append_nil] at hsplit
      exact Ends.pure ⟨[], ⟨hsplit ▸ .nil hgap, hargs⟩, by rwa [List.append_nil]⟩
    obtain ⟨hch, hcommand⟩ := splits_of_word hword
    have hroom' := hroom ch word hword
    refine Ends.get_bind (Ends.ite (fun hfull => Ends.throw ?_) fun hfull => ?_)
    · -- There is another argument, but no place for it.
      rintro ⟨more, hsplits, hcount⟩
      cases hsplits with
      | nil hblank =>
        have hspace := hblank ch (by rw [hcommand]; simp)
        rw [hch] at hspace
        cases hspace
      | cons _ _ _ _ _ =>
        rw [List.length_cons] at hcount
        rw [h.argc] at hfull
        omega
    have hlt : args.length < maxArguments := by
      rw [h.argc] at hfull
      omega
    refine (pushOffset_ends h hlt).bind fun _ out₁ h₁ => ?_
    have hroom₁ : (pack args ++ []).length + (ch :: word).length ≤ textCapacity := by
      rw [List.append_nil, List.length_cons]
      omega
    refine ((parseWord_ends h₁ hroom₁).allow fun _ hzero => ?_).bind ?_
    · rintro ⟨more, hsplits, -⟩
      exact hsplits.zero_notMem (hcommand ▸ List.mem_append_right _ hzero)
    rintro ⟨rest, still⟩ out₂ ⟨v, hread, h₂, hlen⟩
    -- The command may end inside a quotation, but then its quotes are odd in number.
    cases still with
    | true =>
      rintro ⟨more, hsplits, -⟩
      have heven := hsplits.even
      rw [hcommand, quotes_append, quotes_blank hgap, zero_add] at heven
      exact absurd (hread.2.1 heven) (by decide)
    | false =>
      obtain ⟨text, fs, -, -, hok, hend, hin, hv⟩ := hread
      have hin' : ch :: word = source fs ++ rest := hin
      have hv' : v = value fs := hv
      subst hv'
      have hne := fragments_ne_nil hch hend hin'
      have hvalue := value_length_le fs
      have hwhole : (source fs).length + rest.length = word.length + 1 := by
        rw [← List.length_append, ← hin', List.length_cons]
      have hpos : 0 < (source fs).length := by
        obtain ⟨c, tail, hsource, -⟩ := source_head hne hok []
        rw [List.append_nil] at hsource
        rw [hsource]
        exact Nat.succ_pos _
      have htotal : command.length = (command.takeWhile whitespace).length + (word.length + 1) := by
        conv_lhs => rw [hcommand]
        rw [List.length_append, List.length_cons]
      refine (pushByte_ends h₂ 0 ?_).bind fun _ out₃ h₃ => ?_
      · rw [List.length_append, List.nil_append]
        omega
      have hpacked : Packed out₃ (args ++ [value fs]) := Growing.close h₃
      have hcons : (args ++ [value fs]).length = args.length + 1 := by
        rw [List.length_append, List.length_singleton]
      have hrestRoom : ∀ c w, rest.dropWhile whitespace = c :: w →
          (pack (args ++ [value fs])).length + w.length + 2 ≤ textCapacity := by
        intro c w hw
        obtain ⟨hc, hrest⟩ := splits_of_word hw
        -- The argument was ended by whitespace, which is dropped.
        have hgapped : (rest.takeWhile whitespace).length ≠ 0 := by
          intro hzero
          rw [List.length_eq_zero_iff.1 hzero] at hrest
          have hspace := hend c (by rw [hrest]; rfl)
          rw [hc] at hspace
          cases hspace
        have hsum : rest.length = (rest.takeWhile whitespace).length + (w.length + 1) := by
          conv_lhs => rw [hrest]
          rw [List.length_append, List.length_cons]
        rw [pack_append, pack_singleton, List.length_append, List.length_append,
          List.length_singleton]
        omega
      refine ((ih hpacked (by omega) (by omega) hrestRoom).allow fun _ hnone => ?_).mono ?_
      · rintro ⟨more, hsplits, hcount⟩
        rw [hcommand, hin', ← List.append_assoc] at hsplits
        obtain ⟨more', rfl, hmore⟩ := hsplits.cons_inv hgap hne hok hend
        rw [List.length_cons] at hcount
        exact hnone ⟨more', hmore, by omega⟩
      · rintro _ out₄ ⟨more, ⟨hmore, hcount⟩, h₄⟩
        refine ⟨value fs :: more, ⟨?_, ?_⟩, ?_⟩
        · rw [hcommand, hin', ← List.append_assoc]
          exact .cons hgap hne hok hend hmore
        · rw [List.length_cons]
          omega
        · rw [List.append_assoc] at h₄
          exact h₄

/-! ## The whole -/

/-- What `parse` accepts. -/
structure Acceptable (path command : List UInt8) : Prop where
  pathOk : path ≠ [] ∧ path.length < 256 ∧ 0 ∉ path
  commandOk : command.length < 1024 ∧ 0 ∉ command
  balanced : Even (quotes command)
  count : ∀ args, Splits command args → args.length ≤ 31

theorem acceptable_iff {path command : List UInt8} :
    Acceptable path command ↔ (path ≠ [] ∧ path.length < 256 ∧ 0 ∉ path) ∧ command.length < 1024 ∧
      ∃ args, SplitsWithin 1 command args := by
  constructor
  · intro h
    obtain ⟨args, hargs⟩ := (splits_iff command).2 ⟨h.commandOk.2, h.balanced⟩
    refine ⟨h.pathOk, h.commandOk.1, args, hargs, ?_⟩
    have hcount := h.count args hargs
    unfold maxArguments
    omega
  · rintro ⟨hpath, hcommand, args, hargs, hcount⟩
    refine ⟨hpath, ⟨hcommand, hargs.zero_notMem⟩, hargs.even, fun args' hargs' => ?_⟩
    rw [hargs'.unique hargs]
    unfold maxArguments at hcount
    omega

/-- `parse` on any path and command: it stays in its arrays, succeeds on what is acceptable only,
and then the text is the path and the arguments. -/
theorem parse_ends (path command : List UInt8) (out : Arguments) :
    Ends (parse path command) out (fun _ => ¬Acceptable path command) fun _ out' =>
      Acceptable path command ∧ ∃ args, Splits command args ∧ Packed out' (path :: args) := by
  rw [acceptable_iff]
  apply (Ends.modify (Q := fun _ out' => out'.argc = 0 ∧ out'.bytes = 0) ⟨rfl, rfl⟩).bind
  rintro _ out₀ ⟨hargc, hbytes⟩
  have h₀ : Packed out₀ [] := ⟨hargc, fun i hi => absurd hi (Nat.not_lt_zero i), hbytes, .nil _⟩
  refine Ends.ite (fun hnil => Ends.throw fun h => h.1.1 (List.length_eq_zero_iff.1 hnil))
    fun hne => ?_
  refine Ends.ite (fun hlong => Ends.throw fun h => ?_) fun hshort => ?_
  · rcases hlong with hpath | hcommand
    · exact absurd h.1.2.1 (not_lt.2 hpath)
    · exact absurd h.2.1 (not_lt.2 hcommand)
  rw [not_or, Nat.not_le, Nat.not_le] at hshort
  obtain ⟨hpath, hcommand⟩ := hshort
  unfold pathCapacity at hpath
  unfold argumentCapacity at hcommand
  have hcapacity : textCapacity = 1280 := rfl
  refine (pushOffset_ends h₀ (by decide)).bind fun _ out₁ h₁ => ?_
  refine ((parsePath_ends h₁ (by
    rw [pack_nil]
    simp only [List.append_nil, List.length_nil]
    omega)).allow fun _ hzero h => h.1.2.2 hzero).bind ?_
  rintro _ out₂ ⟨hzero, h₂⟩
  refine (pushByte_ends h₂ 0 (by rw [pack_nil]; simp only [List.nil_append]; omega)).bind
    fun _ out₃ h₃ => ?_
  have hpacked : Packed out₃ [path] := Growing.close h₃
  have hroom : ∀ ch word, command.dropWhile whitespace = ch :: word →
      (pack [path]).length + word.length + 2 ≤ textCapacity := by
    intro ch word hword
    obtain ⟨-, hsplit⟩ := splits_of_word hword
    have hsum : command.length = (command.takeWhile whitespace).length + (word.length + 1) := by
      conv_lhs => rw [hsplit]
      rw [List.length_append, List.length_cons]
    rw [pack_singleton, List.length_append, List.length_singleton]
    omega
  refine ((parseCommand_ends hpacked le_rfl (show 1 ≤ 32 by decide) hroom).allow fun _ hnone h =>
    hnone h.2.2).mono ?_
  rintro _ out₄ ⟨args, hsplits, h₄⟩
  exact ⟨⟨⟨fun hnil => hne (List.length_eq_zero_iff.2 hnil), hpath, hzero⟩, hcommand,
    args, hsplits⟩,
    args, hsplits.1, h₄⟩

theorem parse_ok {path command : List UInt8} (h : Acceptable path command) (out : Arguments) :
    ∃ out', parse path command out = (.ok (), out') ∧
      ∃ args, Splits command args ∧ Packed out' (path :: args) := by
  have hends := parse_ends path command out
  rcases hrun : parse path command out with ⟨_ | e | _, out'⟩
  · exact ⟨out', rfl, (hends.of_ok hrun).2⟩
  · exact absurd h (hends.of_err hrun)
  · rw [Ends, hrun] at hends
    cases hends

end UnDOS.Startup
