import Mathlib.Data.List.TakeWhile
import UnDOS.Startup.Arguments

/-!
# The Grammar of a Command

The rules for a command as its documentation gives them: whitespace separates arguments, except
between double quotes; quotes are removed, fragments concatenate, and `""` is an empty argument.
-/

namespace UnDOS.Startup

/-! ## Fragments and words -/

/-- A fragment of an argument. -/
inductive Fragment where
  | plain (ch : UInt8)
  | quoted (text : List UInt8)
deriving DecidableEq

/-- How the fragment stands in the command. -/
def Fragment.source : Fragment → List UInt8
  | .plain ch => [ch]
  | .quoted text => quote :: text ++ [quote]

/-- What the fragment stands for. -/
def Fragment.value : Fragment → List UInt8
  | .plain ch => [ch]
  | .quoted text => text

/-- The bytes that a fragment may have. -/
def Fragment.Ok : Fragment → Prop
  | .plain ch => ch ≠ 0 ∧ ch ≠ quote ∧ whitespace ch = false
  | .quoted text => 0 ∉ text ∧ quote ∉ text

/-- How an argument stands in the command. -/
def source (fragments : List Fragment) : List UInt8 := fragments.flatMap Fragment.source

/-- The argument. -/
def value (fragments : List Fragment) : List UInt8 := fragments.flatMap Fragment.value

/-- An argument has ended: the command has, or whitespace is next. -/
def Boundary (rest : List UInt8) : Prop := ∀ ch ∈ rest.head?, whitespace ch = true

/-- Only whitespace. -/
def Blank (gap : List UInt8) : Prop := ∀ ch ∈ gap, whitespace ch = true

/-- The command splits into the arguments. -/
inductive Splits : List UInt8 → List (List UInt8) → Prop where
  | nil {gap : List UInt8} (hgap : Blank gap) : Splits gap []
  | cons {gap : List UInt8} {fragments : List Fragment} {rest : List UInt8}
      {args : List (List UInt8)} (hgap : Blank gap) (hne : fragments ≠ [])
      (hok : ∀ f ∈ fragments, f.Ok) (hend : Boundary rest) (hrest : Splits rest args) :
      Splits (gap ++ source fragments ++ rest) (value fragments :: args)

@[simp] theorem source_nil : source [] = [] := rfl

@[simp] theorem source_cons (f : Fragment) (fs : List Fragment) :
    source (f :: fs) = f.source ++ source fs := rfl

@[simp] theorem value_cons (f : Fragment) (fs : List Fragment) :
    value (f :: fs) = f.value ++ value fs := rfl

/-! ## A command splits in one way -/

theorem Fragment.source_head {f : Fragment} (hf : f.Ok) :
    ∃ ch rest, f.source = ch :: rest ∧ whitespace ch = false := by
  cases f with
  | plain ch => exact ⟨ch, [], rfl, hf.2.2⟩
  | quoted text => exact ⟨quote, text ++ [quote], rfl, rfl⟩

variable {rest rest' gap command : List UInt8} {fs : List Fragment} {args : List (List UInt8)}

theorem eq_of_quote {text text' : List UInt8} (h : quote ∉ text) (h' : quote ∉ text')
    (heq : text ++ quote :: rest = text' ++ quote :: rest') : text = text' ∧ rest = rest' := by
  induction text generalizing text' with
  | nil =>
    cases text' with
    | nil => exact ⟨rfl, (List.cons.inj heq).2⟩
    | cons ch text' => exact absurd ((List.cons.inj heq).1 ▸ .head _) h'
  | cons ch text ih =>
    cases text' with
    | nil => exact absurd ((List.cons.inj heq).1 ▸ .head _) h
    | cons ch' text' =>
      obtain ⟨rfl, htail⟩ := List.cons.inj heq
      obtain ⟨rfl, hrest⟩ := ih (fun hm => h (.tail _ hm))
        (fun hm => h' (.tail _ hm)) htail
      exact ⟨rfl, hrest⟩

theorem boundary_ne_source {f : Fragment} (hf : f.Ok) (h : Boundary rest) :
    rest ≠ f.source ++ rest' := by
  rintro rfl
  obtain ⟨ch, tail, hsource, hch⟩ := f.source_head hf
  rw [hsource] at h
  have hspace := h ch rfl
  rw [hch] at hspace
  cases hspace

/-- A word splits into its plain and quoted fragments in one way. -/
theorem fragments_unique {fs' : List Fragment}
    (hok : ∀ f ∈ fs, f.Ok) (hok' : ∀ f ∈ fs', f.Ok) (hend : Boundary rest) (hend' : Boundary rest')
    (heq : source fs ++ rest = source fs' ++ rest') : fs = fs' ∧ rest = rest' := by
  induction fs generalizing fs' with
  | nil =>
    cases fs' with
    | nil => exact ⟨rfl, heq⟩
    | cons f fs' =>
      rw [source_cons, List.append_assoc] at heq
      exact absurd heq (boundary_ne_source (hok' f (.head _)) hend)
  | cons f fs ih =>
    cases fs' with
    | nil =>
      rw [source_cons, List.append_assoc] at heq
      exact absurd heq.symm (boundary_ne_source (hok f (.head _)) hend')
    | cons f' fs' =>
      have hf := hok f (.head _)
      have hf' := hok' f' (.head _)
      have ih' := @ih fs' (fun g hg => hok g (.tail _ hg))
        (fun g hg => hok' g (.tail _ hg))
      rw [source_cons, source_cons, List.append_assoc, List.append_assoc] at heq
      cases f with
      | plain ch =>
        cases f' with
        | plain ch' =>
          obtain ⟨rfl, htail⟩ := List.cons.inj heq
          obtain ⟨rfl, hrest⟩ := ih' htail
          exact ⟨rfl, hrest⟩
        | quoted text' => exact absurd (List.cons.inj heq).1 hf.2.1
      | quoted text =>
        cases f' with
        | plain ch' => exact absurd (List.cons.inj heq).1.symm hf'.2.1
        | quoted text' =>
          have htail : text ++ [quote] ++ (source fs ++ rest) =
              text' ++ [quote] ++ (source fs' ++ rest') := (List.cons.inj heq).2
          rw [List.append_assoc, List.append_assoc] at htail
          obtain ⟨rfl, hrest⟩ := eq_of_quote hf.2 hf'.2 htail
          obtain ⟨rfl, hrest'⟩ := ih' hrest
          exact ⟨rfl, hrest'⟩

theorem gap_unique {gap' : List UInt8} {ch ch' : UInt8} (hgap : Blank gap)
    (hgap' : Blank gap') (hch : whitespace ch = false) (hch' : whitespace ch' = false)
    (heq : gap ++ ch :: rest = gap' ++ ch' :: rest') : gap = gap' ∧ ch :: rest = ch' :: rest' := by
  induction gap generalizing gap' with
  | nil =>
    cases gap' with
    | nil => exact ⟨rfl, heq⟩
    | cons g gap' =>
      have hspace := hgap' g (.head _)
      rw [← (List.cons.inj heq).1, hch] at hspace
      cases hspace
  | cons g gap ih =>
    cases gap' with
    | nil =>
      have hspace := hgap g (.head _)
      rw [(List.cons.inj heq).1, hch'] at hspace
      cases hspace
    | cons g' gap' =>
      obtain ⟨rfl, htail⟩ := List.cons.inj heq
      obtain ⟨rfl, hrest⟩ := ih (fun c hc => hgap c (.tail _ hc))
        (fun c hc => hgap' c (.tail _ hc)) htail
      exact ⟨rfl, hrest⟩

theorem source_head (hne : fs ≠ []) (hok : ∀ f ∈ fs, f.Ok) (rest : List UInt8) :
    ∃ ch tail, source fs ++ rest = ch :: tail ∧ whitespace ch = false := by
  obtain ⟨f, fs, rfl⟩ := List.exists_cons_of_ne_nil hne
  obtain ⟨ch, tail, hsource, hch⟩ := f.source_head (hok f (.head _))
  exact ⟨ch, tail ++ (source fs ++ rest), by rw [source_cons, hsource, List.append_assoc]; rfl, hch⟩

theorem Splits.cons_inv (h : Splits (gap ++ source fs ++ rest) args) (hgap : Blank gap)
    (hne : fs ≠ []) (hok : ∀ f ∈ fs, f.Ok) (hend : Boundary rest) :
    ∃ args', args = value fs :: args' ∧ Splits rest args' := by
  obtain ⟨ch, tail, hword, hch⟩ := source_head hne hok rest
  generalize hcommand : gap ++ source fs ++ rest = command at h
  rw [List.append_assoc] at hcommand
  cases h with
  | nil hblank =>
    have hspace := hblank ch (by rw [← hcommand, hword]; simp)
    rw [hch] at hspace
    cases hspace
  | @cons gap' fs' rest' args' hgap' hne' hok' hend' hrest' =>
    obtain ⟨ch', tail', hword', hch'⟩ := source_head hne' hok' rest'
    rw [List.append_assoc, hword, hword'] at hcommand
    obtain ⟨-, heq⟩ := gap_unique hgap hgap' hch hch' hcommand
    rw [← hword, ← hword'] at heq
    obtain ⟨rfl, rfl⟩ := fragments_unique hok hok' hend hend' heq
    exact ⟨args', rfl, hrest'⟩

/-- A command splits in at most one way. -/
theorem Splits.unique {args' : List (List UInt8)}
    (h : Splits command args) (h' : Splits command args') : args = args' := by
  induction h generalizing args' with
  | @nil gap hgap =>
    cases h' with
    | nil => rfl
    | @cons gap' fs rest args hgap' hne hok hend hrest =>
      obtain ⟨ch, tail, hword, hch⟩ := source_head hne hok rest
      have hspace := hgap ch (by rw [List.append_assoc, hword]; simp)
      rw [hch] at hspace
      cases hspace
  | cons hgap hne hok hend hrest ih =>
    obtain ⟨args', rfl, hrest'⟩ := h'.cons_inv hgap hne hok hend
    rw [ih hrest']

/-! ## When a command splits -/

/-- The number of quotes in a list. -/
def quotes (l : List UInt8) : Nat := l.count quote

theorem quotes_append (l l' : List UInt8) : quotes (l ++ l') = quotes l + quotes l' :=
  List.count_append

theorem quotes_source (hok : ∀ f ∈ fs, f.Ok) : Even (quotes (source fs)) := by
  induction fs with
  | nil => exact Even.zero
  | cons f fs ih =>
    rw [source_cons, quotes_append]
    refine Even.add ?_ (ih fun g hg => hok g (.tail _ hg))
    have hf := hok f (.head _)
    cases f with
    | plain ch =>
      have hnone : quotes [ch] = 0 := List.count_eq_zero.2 fun hm =>
        hf.2.1 (List.mem_singleton.1 hm).symm
      exact hnone ▸ Even.zero
    | quoted text =>
      have hnone : quotes text = 0 := List.count_eq_zero.2 hf.2
      have htwo : quotes (Fragment.source (.quoted text)) = 2 := by
        show quotes ([quote] ++ text ++ [quote]) = 2
        rw [quotes_append, quotes_append, hnone]
        rfl
      exact htwo ▸ even_two

theorem quotes_blank (h : Blank gap) : quotes gap = 0 :=
  List.count_eq_zero.2 fun hm => absurd (h _ hm) (by decide)

theorem zero_notMem_blank (h : Blank gap) : 0 ∉ gap :=
  fun hm => absurd (h _ hm) (by decide)

theorem zero_notMem_source (hok : ∀ f ∈ fs, f.Ok) : 0 ∉ source fs := by
  intro hm
  obtain ⟨f, hf, hzero⟩ := List.mem_flatMap.1 hm
  have hfok := hok f hf
  cases f with
  | plain ch => exact hfok.1 (List.mem_singleton.1 hzero).symm
  | quoted text =>
    rcases List.mem_append.1 hzero with hleft | hright
    · rcases List.mem_cons.1 hleft with hquote | htext
      · cases hquote
      · exact hfok.1 htext
    · exact absurd (List.mem_singleton.1 hright) (by decide)

theorem zero_notMem_value (hok : ∀ f ∈ fs, f.Ok) : 0 ∉ value fs := by
  intro hm
  obtain ⟨f, hf, hzero⟩ := List.mem_flatMap.1 hm
  have hfok := hok f hf
  cases f with
  | plain ch => exact hfok.1 (List.mem_singleton.1 hzero).symm
  | quoted text => exact hfok.1 hzero

theorem Splits.zero_notMem_arg (h : Splits command args) : ∀ arg ∈ args, 0 ∉ arg := by
  induction h with
  | nil hgap => exact fun arg harg => nomatch harg
  | cons hgap hne hok hend hrest ih =>
    intro arg harg
    rcases List.mem_cons.1 harg with rfl | harg
    · exact zero_notMem_value hok
    · exact ih arg harg

theorem Splits.zero_notMem (h : Splits command args) : 0 ∉ command := by
  induction h with
  | nil hgap => exact zero_notMem_blank hgap
  | cons hgap hne hok hend hrest ih =>
    intro hm
    rcases List.mem_append.1 hm with hword | hm'
    · rcases List.mem_append.1 hword with hg | hs
      · exact zero_notMem_blank hgap hg
      · exact zero_notMem_source hok hs
    · exact ih hm'

theorem Splits.even (h : Splits command args) : Even (quotes command) := by
  induction h with
  | nil hgap => exact quotes_blank hgap ▸ Even.zero
  | cons hgap hne hok hend hrest ih =>
    rw [quotes_append, quotes_append, quotes_blank hgap, zero_add]
    exact (quotes_source hok).add ih

/-- The command up to the end of an argument: the word goes on after the text `text`, between quotes
when `quoted` holds. -/
theorem exists_word {input : List UInt8} (hzero : 0 ∉ input) :
    (Even (quotes input) → ∃ fs rest, (∀ f ∈ fs, Fragment.Ok f) ∧ Boundary rest ∧
      input = source fs ++ rest) ∧ (¬Even (quotes input) → ∃ text fs rest, 0 ∉ text ∧ quote ∉ text ∧
      (∀ f ∈ fs, Fragment.Ok f) ∧ Boundary rest ∧ input = text ++
        quote :: (source fs ++ rest)) := by
  induction input with
  | nil =>
    refine ⟨fun _ => ⟨[], [], ?_, ?_, rfl⟩, absurd Even.zero⟩
    · exact fun f hf => nomatch hf
    · exact fun ch hch => by cases hch
  | cons ch input ih =>
    have hch : ch ≠ 0 := fun heq => hzero (heq ▸ .head _)
    obtain ⟨heven, hodd⟩ := ih fun hm => hzero (.tail _ hm)
    by_cases hquote : ch = quote
    · -- A quote opens or closes a fragment.
      subst hquote
      have hcount : quotes (quote :: input) = quotes input + 1 := List.count_cons_self
      rw [hcount, Nat.even_add_one]
      constructor
      · intro hin
        obtain ⟨text, fs, rest, h0, hq, hok, hend, rfl⟩ := hodd hin
        refine ⟨.quoted text :: fs, rest, ?_, hend, ?_⟩
        · intro f hf
          rcases List.mem_cons.1 hf with rfl | hf
          · exact ⟨h0, hq⟩
          · exact hok f hf
        · rw [source_cons, Fragment.source]
          simp
      · intro hin
        obtain ⟨fs, rest, hok, hend, rfl⟩ := heven (not_not.1 hin)
        exact ⟨[], fs, rest, List.not_mem_nil, List.not_mem_nil, hok, hend, rfl⟩
    · have hcount : quotes (ch :: input) = quotes input := List.count_cons_of_ne hquote
      rw [hcount]
      constructor
      · intro hin
        by_cases hspace : whitespace ch = true
        · refine ⟨[], ch :: input, fun f hf => absurd hf List.not_mem_nil, ?_, rfl⟩
          intro c hc
          rw [← Option.some.inj hc]
          exact hspace
        · obtain ⟨fs, rest, hok, hend, rfl⟩ := heven hin
          refine ⟨.plain ch :: fs, rest, ?_, hend, rfl⟩
          intro f hf
          rcases List.mem_cons.1 hf with rfl | hf
          · exact ⟨hch, hquote, Bool.eq_false_iff.2 hspace⟩
          · exact hok f hf
      · intro hin
        obtain ⟨text, fs, rest, h0, hq, hok, hend, rfl⟩ := hodd hin
        refine ⟨ch :: text, fs, rest, ?_, ?_, hok, hend, rfl⟩
        · exact fun hm => (List.mem_cons.1 hm).elim (fun heq => hch heq.symm) h0
        · exact fun hm => (List.mem_cons.1 hm).elim (fun heq => hquote heq.symm) hq

theorem blank_takeWhile (command : List UInt8) : Blank (command.takeWhile whitespace) :=
  fun _ hch => List.mem_takeWhile_imp hch

/-- A command splits just when it has no zero byte and its quotes are balanced. -/
theorem splits_iff (command : List UInt8) :
    (∃ args, Splits command args) ↔ 0 ∉ command ∧ Even (quotes command) := by
  constructor
  · rintro ⟨args, h⟩
    exact ⟨h.zero_notMem, h.even⟩
  · rintro ⟨hzero, heven⟩
    induction hlen : command.length using Nat.strong_induction_on generalizing command with
    | _ n ih =>
      have hsplit := List.takeWhile_append_dropWhile (p := whitespace) (l := command)
      have hgap := blank_takeWhile command
      rcases hword : command.dropWhile whitespace with _ | ⟨ch, word⟩
      · rw [hword, List.append_nil] at hsplit
        exact ⟨[], hsplit ▸ .nil hgap⟩
      · have hch : whitespace ch = false := by
          have hhead := List.head_dropWhile_not whitespace (l := command) (by rw [hword]; simp)
          simpa [hword] using hhead
        rw [hword] at hsplit
        have hzero' : 0 ∉ ch :: word := fun hm => hzero (hsplit ▸ List.mem_append_right _ hm)
        have heven' : Even (quotes (ch :: word)) := by
          rw [← hsplit, quotes_append, quotes_blank hgap, zero_add] at heven
          exact heven
        obtain ⟨fs, rest, hok, hend, heq⟩ := (exists_word hzero').1 heven'
        have hne : fs ≠ [] := by
          rintro rfl
          have hspace := hend ch (by rw [source_nil, List.nil_append] at heq; rw [← heq]; rfl)
          rw [hch] at hspace
          cases hspace
        have hpos : 0 < (source fs).length := by
          obtain ⟨f, fs, rfl⟩ := List.exists_cons_of_ne_nil hne
          obtain ⟨c, tail, hsource, -⟩ := f.source_head (hok f (.head _))
          rw [source_cons, hsource]
          simp
        rw [heq] at hsplit hzero' heven'
        rw [quotes_append] at heven'
        obtain ⟨args, hargs⟩ := ih rest.length
          (by rw [← hlen, ← hsplit, List.length_append, List.length_append]; omega) rest
          (fun hm => hzero' (List.mem_append_right _ hm))
          ((Nat.even_add.1 heven').1 (quotes_source hok)) rfl
        exact ⟨_, by rw [← hsplit, ← List.append_assoc]; exact .cons hgap hne hok hend hargs⟩

end UnDOS.Startup
