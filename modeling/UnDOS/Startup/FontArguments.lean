import UnDOS.Startup.FontConfig
import UnDOS.Startup.Stack

/-!
# From the Font Configuration to the Font Loader

Three places have rules for the paths of a font: the parser of the configuration, the encoder that
quotes them, and the parser of the kernel that splits the command again.  A path that the first one
accepts passes the other two unchanged.
-/

namespace UnDOS.Startup

open UnDOS.Lib
open UnDOS.Lib.Prog (Ends)
open UnDOS.Lib.Outcome (ensure ensure_eq_ok_iff)

/-! ## Paths -/

/-- A path of the configuration. -/
structure PathOk (path : List UInt8) : Prop where
  length : path.length ≤ 255
  head : path.head? = some 47
  bytes : ∀ ch ∈ path, ¬(ch < 0x20 ∨ 0x7f ≤ ch ∨ ch = quote)

variable {path text output : List UInt8} {config : FontConfiguration}

theorem PathOk.ne_nil (h : PathOk path) : path ≠ [] := by
  rintro rfl
  cases h.head

theorem mem_of_mem_trim {value : List UInt8} {ch : UInt8} (h : ch ∈ trim value) : ch ∈ value :=
  (List.dropWhile_sublist _).subset ((List.rdropWhile_prefix _ _).subset h)

/-- Only ASCII bytes. -/
def Ascii (l : List UInt8) : Prop := ∀ ch ∈ l, ch ≤ 0x7f

theorem parseConfigPath_ok {value : List UInt8} (hascii : Ascii value)
    (h : parseConfigPath value = some path) : PathOk path := by
  unfold parseConfigPath at h
  rcases hvalue : trim value with _ | ⟨ch, tail⟩
  · rw [hvalue] at h
    cases h
  rw [hvalue] at h
  dsimp only at h
  have hall : ∀ c ∈ ch :: tail, c ≤ 0x7f := fun c hc => hascii c (mem_of_mem_trim (hvalue ▸ hc))
  -- The text is the trimmed value, without its quotes if it has some.
  have htext : (if (ch == quote) = true then tail.dropLast else ch :: tail) ⊆ ch :: tail := by
    split
    · exact fun c hc => .tail _ ((List.dropLast_sublist _).subset hc)
    · exact fun c hc => hc
  generalize (if (ch == quote) = true then tail.dropLast else ch :: tail) = text at h htext
  split at h
  · cases h
  split at h
  · cases h
  next hbounds =>
  split at h
  next hbytes =>
    cases h
    rw [not_or, not_or, not_lt, not_not] at hbounds
    refine ⟨hbounds.2.1, hbounds.2.2, fun c hc => ?_⟩
    have hbyte := List.all_eq_true.1 hbytes c hc
    have hle := hall c (htext hc)
    unfold pathByte at hbyte
    simp only [Bool.not_eq_true', Bool.or_eq_false_iff, decide_eq_false_iff_not,
      beq_eq_false_iff_ne,
      ne_eq] at hbyte
    obtain ⟨⟨⟨hlow, hdel⟩, hquote⟩, -⟩ := hbyte
    rintro (hlt | hge | heq)
    · exact hlow hlt
    · exact hdel (UInt8.le_antisymm hle hge)
    · exact hquote heq
  · cases h

/-! ## The text -/

/-- The paths that were seen are paths. -/
structure SeenOk (seen : Seen) : Prop where
  regular : seen.regular = true → PathOk seen.parsed.regular
  bold : seen.bold = true → PathOk seen.parsed.bold

theorem parseKey_ok {seen seen' : Seen} {line : List UInt8} (hok : SeenOk seen)
    (hascii : Ascii line)
    (h : parseKey seen line = some seen') : SeenOk seen' := by
  have hvalue : Ascii (trim ((line.dropWhile (· != 61)).drop 1)) := fun ch hch =>
    hascii ch ((List.dropWhile_sublist _).subset
      ((List.drop_sublist _ _).subset (mem_of_mem_trim hch)))
  unfold parseKey at h
  dsimp only at h
  split at h
  · cases h
  split at h
  · -- The back end is no path.
    split at h
    · cases h
    split at h
    · cases h
      exact ⟨hok.regular, hok.bold⟩
    split at h
    · cases h
      exact ⟨hok.regular, hok.bold⟩
    · cases h
  split at h
  · split at h
    · cases h
    · obtain ⟨path, hpath, rfl⟩ := Option.map_eq_some_iff.1 h
      exact ⟨fun _ => parseConfigPath_ok hvalue hpath, hok.bold⟩
  split at h
  · split at h
    · cases h
    · obtain ⟨path, hpath, rfl⟩ := Option.map_eq_some_iff.1 h
      exact ⟨hok.regular, fun _ => parseConfigPath_ok hvalue hpath⟩
  split at h
  · split at h
    · cases h
    · obtain ⟨size, -, rfl⟩ := Option.map_eq_some_iff.1 h
      exact ⟨hok.regular, hok.bold⟩
  · cases h

theorem parseLine_ok {seen seen' : Seen} {line : List UInt8} (hok : SeenOk seen)
    (hascii : Ascii line)
    (h : parseLine seen line = some seen') : SeenOk seen' := by
  unfold parseLine at h
  split at h
  · cases h
    exact hok
  split at h
  · cases h
    exact hok
  split at h
  · unfold parseSection at h
    split at h
    · cases h
    · cases h
      exact ⟨hok.regular, hok.bold⟩
  · exact parseKey_ok hok hascii h

theorem behindLine_subset (text : List UInt8) : behindLine text ⊆ text := by
  have hsub := (List.dropWhile_sublist (l := text) (!endsLine ·)).subset
  unfold behindLine
  split
  · exact List.nil_subset _
  · next ch rest heq =>
    rw [heq] at hsub
    split
    · exact fun c hc => hsub (.tail _ ((List.drop_sublist _ _).subset hc))
    · exact fun c hc => hsub (.tail _ hc)

theorem parseLines_ok {seen seen' : Seen} (hok : SeenOk seen) (hascii : Ascii text)
    (h : parseLines seen text = some seen') : SeenOk seen' := by
  induction hlen : text.length using Nat.strong_induction_on generalizing text seen with
  | _ n ih =>
    rw [parseLines] at h
    split at h
    · cases h
      exact hok
    next hne =>
    have hline : Ascii (trim (text.takeWhile (!endsLine ·))) := fun ch hch =>
      hascii ch ((List.takeWhile_prefix _).subset (mem_of_mem_trim hch))
    split at h
    · cases h
    · next seen₁ hparse =>
      have hbehind : Ascii (behindLine text) := fun ch hch => hascii ch (behindLine_subset text hch)
      exact ih _ (hlen ▸ behindLine_length_lt hne) (parseLine_ok hok hline hparse) hbehind h rfl

theorem validText_ascii (h : validText text = true) : Ascii text := by
  induction text with
  | nil => exact fun ch hch => nomatch hch
  | cons ch text ih =>
    rw [validText, Bool.and_eq_true] at h
    obtain ⟨hch, hrest⟩ := h
    intro c hc
    rcases List.mem_cons.1 hc with rfl | hc
    · simp only [Bool.not_eq_true', Bool.or_eq_false_iff, decide_eq_false_iff_not] at hch
      exact UInt8.not_lt.1 hch.1.2
    · exact ih hrest c hc

/-- What holds of an accepted configuration with the TrueType back end. -/
structure ConfigOk (config : FontConfiguration) : Prop where
  regular : PathOk config.regular
  bold : PathOk config.bold
  ppem : pointSizeToPpem config.sizePt = some config.ppem

theorem parsedConfig_ok
    (h : parsedConfig text = some config) (hbackend : config.backend = .trueType) :
      ConfigOk config := by
  unfold parsedConfig at h
  split at h
  · cases h
  next hvalid =>
  rw [not_or, not_or, Bool.not_eq_false] at hvalid
  split at h
  · cases h
  next seen hlines =>
  have hnone : SeenOk {} := ⟨(fun hseen => by cases hseen), (fun hseen => by cases hseen)⟩
  have hok := parseLines_ok hnone (validText_ascii hvalid.2.2) hlines
  split at h
  · cases h
  split at h
  · next hbitmap =>
    split at h
    · cases h
    · cases h
      rw [hbitmap] at hbackend
      cases hbackend
  split at h
  · cases h
  · next hseen =>
    rw [not_or, not_or, Bool.not_eq_false, Bool.not_eq_false] at hseen
    obtain ⟨ppem, hppem, rfl⟩ := Option.map_eq_some_iff.1 h
    exact ⟨hok.regular hseen.1, hok.bold hseen.2.1, hppem⟩

/-! ## The command -/

/-- The decimal digits of a number. -/
def decimal (n : Nat) : List UInt8 := ((Nat.digits 10 n).map fun d => UInt8.ofNat (48 + d)).reverse

/-- The command: both paths in quotes, then the size. -/
def loaderCommand (config : FontConfiguration) : List UInt8 :=
  quote :: config.regular ++ [quote, 32, quote] ++ config.bold ++ [quote, 32] ++ decimal config.ppem

theorem append_ok {capacity : Nat} {ch : UInt8}
    (h : output.length + 1 < capacity) : append capacity output ch = .ok (output ++ [ch]) := by
  unfold append
  rw [(ensure_eq_ok_iff (u := ())).2 h]
  rfl

theorem appendAll_ok {capacity : Nat} (h : output.length + text.length < capacity) :
    appendAll capacity output text = .ok (output ++ text) := by
  induction text generalizing output with
  | nil => rw [List.append_nil]; rfl
  | cons ch text ih =>
    rw [List.length_cons] at h
    rw [appendAll, append_ok (by omega), Outcome.ok_bind,
      ih (by rw [List.length_append, List.length_singleton]; omega), List.append_assoc]
    rfl

theorem appendPath_ok {capacity : Nat} (hpath : PathOk path)
    (h : output.length + path.length + 2 < capacity) :
    appendPath capacity output path = .ok (output ++ quote :: path ++ [quote]) := by
  unfold appendPath
  rw [(ensure_eq_ok_iff (u := ())).2 ⟨hpath.length, hpath.bytes⟩, Outcome.ok_bind,
    (ensure_eq_ok_iff (u := ())).2 ⟨hpath.ne_nil, hpath.head⟩, Outcome.ok_bind,
      append_ok (by omega),
    Outcome.ok_bind, appendAll_ok (by rw [List.length_append, List.length_singleton]; omega),
    Outcome.ok_bind, append_ok (by simp only [List.length_append, List.length_singleton]; omega)]
  rw [List.append_assoc output]
  rfl

theorem digitsLoop_ok {room value : Nat} (h : value < 10 ^ room) :
    digitsLoop room value = .ok ((Nat.digits 10 value).map fun d => UInt8.ofNat (48 + d)) := by
  induction room generalizing value with
  | zero =>
    have hzero : value = 0 := Nat.lt_one_iff.1 h
    subst hzero
    rfl
  | succ room ih =>
    rw [digitsLoop]
    split
    · next hzero =>
      subst hzero
      rfl
    · next hne =>
      have hdiv : value / 10 < 10 ^ room := by
        exact Nat.div_lt_of_lt_mul (Nat.mul_comm _ _ ▸ h)
      rw [ih hdiv, Nat.digits_def' (by decide) (pos_of_ne_zero hne)]
      rfl

theorem ppem_le {sizePt ppem : Nat} (h : pointSizeToPpem sizePt = some ppem) :
    1 ≤ ppem ∧ ppem ≤ 256 := by
  unfold pointSizeToPpem at h
  split at h
  · cases h
  dsimp only at h
  split at h
  · next hbounds =>
    cases h
    exact hbounds
  · cases h

theorem decimal_length_le {ppem : Nat} (h : ppem ≤ 256) : (decimal ppem).length ≤ 3 := by
  unfold decimal
  rw [List.length_reverse, List.length_map]
  exact (Nat.digits_length_le_iff (by decide) _).2 (by omega)

theorem makeFontLoaderArguments_ok {capacity : Nat}
    (hconfig : ConfigOk config) (hbackend : config.backend = .trueType)
    (hcapacity : 523 ≤ capacity) :
    makeFontLoaderArguments config capacity = .ok (loaderCommand config) := by
  have hppem := ppem_le hconfig.ppem
  have hdigits := decimal_length_le hppem.2
  have hregular := hconfig.regular.length
  have hbold := hconfig.bold.length
  unfold makeFontLoaderArguments
  rw [(ensure_eq_ok_iff (u := ())).2 (show capacity ≠ 0 by omega), Outcome.ok_bind,
    (ensure_eq_ok_iff (u := ())).2 ⟨hbackend, hconfig.ppem⟩, Outcome.ok_bind,
    appendPath_ok hconfig.regular (by rw [List.length_nil]; omega), Outcome.ok_bind,
    append_ok (by simp only [List.length_append, List.length_cons, List.length_nil]; omega),
    Outcome.ok_bind, appendPath_ok hconfig.bold
      (by simp only [List.length_append, List.length_cons, List.length_nil]; omega),
        Outcome.ok_bind,
    append_ok (by simp only [List.length_append, List.length_cons, List.length_nil]; omega),
      digitsLoop_ok (by omega)]
  change appendAll capacity _ (decimal config.ppem) = _
  rw [appendAll_ok (by simp only [List.length_append, List.length_cons, List.length_nil]; omega)]
  unfold loaderCommand
  simp

/-! ## The command is split again -/

theorem PathOk.fragment (h : PathOk path) : (Fragment.quoted path).Ok := by
  constructor
  · exact fun hm => h.bytes 0 hm (.inl (by decide))
  · exact fun hm => h.bytes quote hm (.inr (.inr rfl))

theorem digit_ok {d : Nat} (h : d < 10) : (Fragment.plain (UInt8.ofNat (48 + d))).Ok := by
  interval_cases d <;> exact ⟨by decide, by decide, by decide⟩

/-- Plain digits. -/
def digitFragments (n : Nat) : List Fragment :=
  ((Nat.digits 10 n).map fun d => Fragment.plain (UInt8.ofNat (48 + d))).reverse

theorem digitFragments_eq (n : Nat) :
    source (digitFragments n) = decimal n ∧ value (digitFragments n) = decimal n := by
  unfold digitFragments decimal source value
  rw [← List.map_reverse, ← List.map_reverse, List.flatMap_map, List.flatMap_map]
  exact ⟨List.map_eq_flatMap.symm, List.map_eq_flatMap.symm⟩

theorem digitFragments_ok (n : Nat) : ∀ f ∈ digitFragments n, f.Ok := by
  intro f hf
  obtain ⟨d, hd, rfl⟩ := List.mem_map.1 (List.mem_reverse.1 hf)
  exact digit_ok (Nat.digits_lt_base (by decide) hd)

theorem digitFragments_ne_nil {n : Nat} (h : n ≠ 0) : digitFragments n ≠ [] := by
  unfold digitFragments
  rw [ne_eq, List.reverse_eq_nil_iff, List.map_eq_nil_iff]
  exact Nat.digits_ne_nil_iff_ne_zero.2 h

theorem Splits.quoted {gap rest : List UInt8} {args : List (List UInt8)} (hgap : Blank gap)
    (hpath : PathOk path) (hend : Boundary rest) (h : Splits rest args) :
    Splits (gap ++ (quote :: path ++ [quote]) ++ rest) (path :: args) := by
  have hok : ∀ f ∈ [Fragment.quoted path], f.Ok := by
    intro f hf
    rw [List.mem_singleton.1 hf]
    exact hpath.fragment
  have hsplits := Splits.cons hgap (List.cons_ne_nil _ _) hok hend h
  have hsource : source [Fragment.quoted path] = quote :: path ++ [quote] := List.append_nil _
  have hvalue : value [Fragment.quoted path] = path := List.append_nil _
  rwa [hsource, hvalue] at hsplits

/-- The quoting of the loader is undone by the tokenizer. -/
theorem loaderCommand_splits (hconfig : ConfigOk config) :
    Splits (loaderCommand config) [config.regular, config.bold, decimal config.ppem] := by
  have hppem := ppem_le hconfig.ppem
  have hblank : Blank [32] := fun ch hch => List.mem_singleton.1 hch ▸ rfl
  have hnil : Blank [] := fun ch hch => nomatch hch
  have hspace : ∀ l : List UInt8, Boundary (32 :: l) := fun l ch hch => by
    rw [← Option.some.inj hch]
    rfl
  -- The command is read from its end: the size, then both paths.
  obtain ⟨hsource, hvalue⟩ := digitFragments_eq config.ppem
  have hsize : Splits ([32] ++ decimal config.ppem ++ []) [decimal config.ppem] := by
    have hcons := Splits.cons hblank (digitFragments_ne_nil (by omega))
      (digitFragments_ok config.ppem)
      (fun ch hch => by cases hch) (Splits.nil hnil)
    rwa [hsource, hvalue] at hcons
  rw [List.append_nil] at hsize
  have hbold := Splits.quoted hblank hconfig.bold (hspace _) hsize
  have hregular := Splits.quoted hnil hconfig.regular (hspace _) hbold
  have hcommand : [] ++ (quote :: config.regular ++ [quote]) ++
      ([32] ++ (quote :: config.bold ++ [quote]) ++ ([32] ++ decimal config.ppem)) =
      loaderCommand config := by
    unfold loaderCommand
    simp
  rw [← hcommand]
  exact hregular

theorem loaderCommand_length (hconfig : ConfigOk config) :
    (loaderCommand config).length < 1024 := by
  have hppem := ppem_le hconfig.ppem
  have hdigits := decimal_length_le hppem.2
  have hregular := hconfig.regular.length
  have hbold := hconfig.bold.length
  unfold loaderCommand
  simp only [List.length_append, List.length_cons, List.length_nil]
  omega

/-! ## The whole way -/

/-- The strings of parsed arguments, read up to their zeros. -/
def Arguments.strings (args : Arguments) : List (Option (List UInt8)) :=
  (List.range args.argc).map fun i =>
    readString args.text (args.bytes - args.offsets i) (args.offsets i)

theorem Packed.strings_eq {args : Arguments} {strings : List (List UInt8)} (h : Packed args strings)
    (hzero : ∀ s ∈ strings, 0 ∉ s) : args.strings = strings.map some := by
  unfold Arguments.strings
  apply List.ext_getElem
  · rw [List.length_map, List.length_range, List.length_map, h.argc]
  · intro i hi hi'
    rw [List.length_map] at hi'
    rw [List.getElem_map, List.getElem_range, List.getElem_map, h.offsets i hi', h.bytes]
    have hroom := pack_take_length hi'
    refine readString_eq ?_ (hzero _ (List.getElem_mem hi')) (by omega)
    rw [h.text.readAt (by omega), pack_drop_take hi']

/-- **A configured font reaches its loader.**  `parse_font_config` leaves `out` alone when it
rejects. When it accepts a text with the TrueType back end, the command for the loader can be made
in 523 bytes, and the kernel splits it, behind any path that it takes, into the two configured paths
and the digits of the size. -/
theorem font_configuration_arrives (text : List UInt8) (out : FontConfiguration) :
    ((parseFontConfig text out).1 = false → (parseFontConfig text out).2 = out) ∧
    ∀ config, parseFontConfig text out = (true, config) → config.backend = .trueType →
      ∀ capacity, 523 ≤ capacity →
        ∃ command, makeFontLoaderArguments config capacity = .ok command ∧
          ∀ path, path ≠ [] → path.length < 256 → 0 ∉ path → ∀ before,
            ∃ args, parse path command before = (.ok (), args) ∧
              args.strings = [some path, some config.regular, some config.bold,
                some (decimal config.ppem)] := by
  constructor
  · intro hreject
    unfold parseFontConfig at hreject ⊢
    split at hreject
    · rfl
    · cases hreject
  · intro config haccept hbackend capacity hcapacity
    have hconfig : ConfigOk config := by
      unfold parseFontConfig at haccept
      split at haccept
      · cases haccept
      · next parsed hparsed =>
        cases haccept
        exact parsedConfig_ok hparsed hbackend
    refine ⟨_, makeFontLoaderArguments_ok hconfig hbackend hcapacity, ?_⟩
    intro path hne hlength hzero before
    have hsplits := loaderCommand_splits hconfig
    have haccept' : Acceptable path (loaderCommand config) :=
      acceptable_iff.2 ⟨⟨hne, hlength, hzero⟩, loaderCommand_length hconfig, _, hsplits, by
        show 1 + 3 ≤ 32
        decide⟩
    obtain ⟨args, hrun, strings, hsplits', hpacked⟩ := parse_ok haccept' before
    rw [hsplits'.unique hsplits] at hpacked
    refine ⟨args, hrun, hpacked.strings_eq fun s hs => ?_⟩
    rcases List.mem_cons.1 hs with rfl | hs
    · exact hzero
    · exact hsplits.zero_notMem_arg s hs

theorem parseLines_step {seen seen' : Seen} {rest : List UInt8} (hne : text ≠ [])
    (hline : parseLine seen (trim (text.takeWhile (!endsLine ·))) = some seen')
    (hrest : behindLine text = rest) : parseLines seen text = parseLines seen' rest := by
  rw [parseLines, if_neg hne, hline, hrest]

/-- The lines of a configuration. -/
def fontLines : List (List UInt8) :=
  [ascii "[Fonts]", ascii "Backend=truetype", ascii "Regular=\"/a b\"", ascii "Bold=/c",
    ascii "SizePt=12"]

/-- The text that is left from line `k` on. -/
def fontText (k : Nat) : List UInt8 := (fontLines.drop k).flatMap (· ++ [newline])

def parsedFont : FontConfiguration := ⟨.trueType, ascii "/a b", ascii "/c", 12, 16⟩

theorem fontText_accepted : parseFontConfig (fontText 0) {} = (true, parsedFont) := by
  let paths : FontConfiguration := { parsedFont with sizePt := 0, ppem := 0 }
  have hlines : parseLines {} (fontText 0) =
      some ⟨{ parsedFont with ppem := 0 }, true, true, true, true, true⟩ :=
    calc parseLines {} (fontText 0)
        = parseLines ⟨{}, true, false, false, false, false⟩ (fontText 1) :=
          parseLines_step (by decide) (by decide +kernel) (by decide +kernel)
      _ = parseLines ⟨{}, true, true, false, false, false⟩ (fontText 2) :=
          parseLines_step (by decide) (by decide +kernel) (by decide +kernel)
      _ = parseLines ⟨{ paths with bold := [] }, true, true, true, false, false⟩ (fontText 3) :=
          parseLines_step (by decide) (by decide +kernel) (by decide +kernel)
      _ = parseLines ⟨paths, true, true, true, true, false⟩ (fontText 4) :=
          parseLines_step (by decide) (by decide +kernel) (by decide +kernel)
      _ = parseLines ⟨{ parsedFont with ppem := 0 }, true, true, true, true, true⟩ [] :=
          parseLines_step (by decide) (by decide +kernel) (by decide +kernel)
      _ = _ := by rw [parseLines, if_pos rfl]
  unfold parseFontConfig parsedConfig
  rw [if_neg (by decide +kernel), hlines]
  rfl

/-- The configured paths and the size arrive at the loader. -/
theorem font_configuration_arrives_accepted : ∃ command args,
    parseFontConfig (fontText 0) {} = (true, parsedFont) ∧
    makeFontLoaderArguments parsedFont 523 = .ok command ∧
    parse (ascii "/loader") command {} = (.ok (), args) ∧
    args.strings =
      [some (ascii "/loader"), some (ascii "/a b"), some (ascii "/c"), some (ascii "16")] := by
  obtain ⟨-, harrives⟩ := font_configuration_arrives (fontText 0) {}
  obtain ⟨command, hcommand, hparsed⟩ := harrives _ fontText_accepted rfl 523 le_rfl
  obtain ⟨args, hargs, hstrings⟩ :=
    hparsed (ascii "/loader") (by decide) (by decide) (by decide) {}
  exact ⟨command, args, fontText_accepted, hcommand, hargs, by rw [hstrings]; decide +kernel⟩

end UnDOS.Startup
