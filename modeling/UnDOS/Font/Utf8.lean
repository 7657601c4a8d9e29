import Mathlib.Data.Nat.Bitwise

/-!
# Decoding UTF-8

`decode_utf8` of `gfx/font/text.cpp`, and the loop of `layout_text` that applies it to a whole text.
A read behind the end of the text is `none`.

What the decoder ought to accept is `String.utf8EncodeChar`: a `Char` is a Unicode scalar value, and
this is its shortest form.
-/

namespace UnDOS.Font

def replacement : Nat := 0xfffd
def maxCodepoint : Nat := 0x10ffff

structure Utf8Step where
  codepoint : Nat
  length : Nat
deriving DecidableEq

/-- The length, the value and the minimum that a lead byte stands for. -/
def utf8Lead (lead : Nat) : Option (Nat × Nat × Nat) :=
  if lead &&& 0xe0 = 0xc0 then some (2, lead &&& 0x1f, 0x80)
  else if lead &&& 0xf0 = 0xe0 then some (3, lead &&& 0x0f, 0x800)
  else if lead &&& 0xf8 = 0xf0 then some (4, lead &&& 0x07, 0x10000)
  else none

/-- The loop over the continuation bytes, with `count` of them to go at `i`. -/
def continuation (text : List UInt8) : (count i value : Nat) → Option (Option Nat)
  | 0, _, value => some (some value)
  | count + 1, i, value =>
    match text[i]? with
    | none => none
    | some byte =>
      if byte.toNat &&& 0xc0 ≠ 0x80 then some none
      else continuation text count (i + 1) (value <<< 6 ||| (byte.toNat &&& 0x3f))

def decodeUtf8 (text : List UInt8) : Option Utf8Step :=
  match text[0]? with
  | none => none
  | some lead =>
    if lead.toNat < 0x80 then some ⟨lead.toNat, 1⟩
    else
      match utf8Lead lead.toNat with
      | none => some ⟨replacement, 1⟩
      | some (length, value, minimum) =>
        if text.length < length then some ⟨replacement, 1⟩
        else
          match continuation text (length - 1) 1 value with
          | none => none
          | some none => some ⟨replacement, 1⟩
          | some (some value) =>
            if value < minimum ∨ maxCodepoint < value ∨ 0xd800 ≤ value ∧ value ≤ 0xdfff then
              some ⟨replacement, 1⟩
            else some ⟨value, length⟩

/-- The loop of `layout_text`, with at most `fuel` steps to go: the steps that it takes. -/
def decodeFrom : Nat → List UInt8 → Option (List Utf8Step)
  | _, [] => some []
  | 0, _ :: _ => none
  | fuel + 1, text =>
    match decodeUtf8 text with
    | none => none
    | some step => (decodeFrom fuel (text.drop step.length)).map (step :: ·)

/-! ## Bytes -/

theorem lead_two {n : Nat} (h : n < 256) : n &&& 0xe0 = 0xc0 ↔ 192 ≤ n ∧ n < 224 := by
  revert n
  decide +kernel

theorem lead_three {n : Nat} (h : n < 256) : n &&& 0xf0 = 0xe0 ↔ 224 ≤ n ∧ n < 240 := by
  revert n
  decide +kernel

theorem lead_four {n : Nat} (h : n < 256) : n &&& 0xf8 = 0xf0 ↔ 240 ≤ n ∧ n < 248 := by
  revert n
  decide +kernel

theorem continues_iff {n : Nat} (h : n < 256) : n &&& 0xc0 = 0x80 ↔ 128 ≤ n ∧ n < 192 := by
  revert n
  decide +kernel

theorem append_bits (value n : Nat) : value <<< 6 ||| (n &&& 0x3f) = value * 64 + n % 64 := by
  rw [Nat.and_two_pow_sub_one_eq_mod n 6, Nat.shiftLeft_eq, mul_comm,
    ← Nat.two_pow_add_eq_or_of_lt (Nat.mod_lt n (by decide))]

theorem utf8Lead_eq {n : Nat} (h : n < 256) : utf8Lead n =
    if 192 ≤ n ∧ n < 224 then some (2, n % 32, 0x80)
    else if 224 ≤ n ∧ n < 240 then some (3, n % 16, 0x800)
    else if 240 ≤ n ∧ n < 248 then some (4, n % 8, 0x10000)
    else none := by
  rw [utf8Lead, Nat.and_two_pow_sub_one_eq_mod n 5, Nat.and_two_pow_sub_one_eq_mod n 4,
    Nat.and_two_pow_sub_one_eq_mod n 3]
  simp only [lead_two h, lead_three h, lead_four h]

/-- What a value becomes when the bytes are appended to it. -/
def extend (value : Nat) (bytes : List UInt8) : Nat :=
  bytes.foldl (fun v byte => v * 64 + byte.toNat % 64) value

def Continues (bytes : List UInt8) : Prop := ∀ byte ∈ bytes, 128 ≤ byte.toNat ∧ byte.toNat < 192

instance (bytes : List UInt8) : Decidable (Continues bytes) := List.decidableBAll _ _

theorem continuation_eq (front bytes rest : List UInt8) (value : Nat) :
    continuation (front ++ (bytes ++ rest)) bytes.length front.length value =
      some (if Continues bytes then some (extend value bytes) else none) := by
  induction bytes generalizing front value with
  | nil => simp [continuation, Continues, extend]
  | cons byte bytes ih =>
    have hget : (front ++ (byte :: bytes ++ rest))[front.length]? = some byte := by simp
    have hlist : front ++ (byte :: bytes ++ rest) = front ++ [byte] ++ (bytes ++ rest) := by simp
    have hrest := ih (front ++ [byte]) (value * 64 + byte.toNat % 64)
    rw [← hlist, List.length_append, List.length_singleton] at hrest
    rw [List.length_cons, continuation, hget]
    dsimp only
    simp only [ne_eq, continues_iff byte.toNat_lt, append_bits, hrest]
    have hcons : Continues (byte :: bytes) ↔ _ ∧ Continues bytes := List.forall_mem_cons
    by_cases hbyte : 128 ≤ byte.toNat ∧ byte.toNat < 192
    · rw [if_neg (not_not.2 hbyte), if_congr (hcons.trans (and_iff_right hbyte)) rfl rfl]
      rfl
    · rw [if_pos hbyte, if_neg fun h => hbyte (hcons.1 h).1]

/-- A value that may be decoded from a sequence with the minimum `minimum`. -/
abbrev Scalar (minimum value : Nat) : Prop :=
  minimum ≤ value ∧ value ≤ maxCodepoint ∧ ¬(0xd800 ≤ value ∧ value ≤ 0xdfff)

/-- The decoder on a lead byte that wants as many bytes as there are. -/
theorem decodeUtf8_lead {lead : UInt8} {value minimum total : Nat} {bytes : List UInt8}
    (rest : List UInt8) (hlead : utf8Lead lead.toNat = some (bytes.length + 1, value, minimum))
    (htotal : extend value bytes = total) :
    decodeUtf8 (lead :: (bytes ++ rest)) = if Continues bytes ∧ Scalar minimum total
      then some ⟨total, bytes.length + 1⟩ else some ⟨replacement, 1⟩ := by
  have hhigh : ¬lead.toNat < 0x80 := by
    intro hlow
    rw [utf8Lead_eq lead.toNat_lt, if_neg (by omega), if_neg (by omega), if_neg (by omega)] at hlead
    cases hlead
  have hcontinuation := continuation_eq [lead] bytes rest value
  rw [List.singleton_append, List.length_singleton, htotal] at hcontinuation
  have hlength : ¬(lead :: (bytes ++ rest)).length < bytes.length + 1 := by simp
  simp only [decodeUtf8, List.getElem?_cons_zero, if_neg hhigh, hlead, if_neg hlength,
    Nat.add_sub_cancel, hcontinuation]
  by_cases hbytes : Continues bytes
  · by_cases hscalar : Scalar minimum total
    · simp only [if_pos hbytes, if_pos (And.intro hbytes hscalar)]
      exact if_neg (by omega)
    · simp only [if_pos hbytes, if_neg fun h : Continues bytes ∧ _ => hscalar h.2]
      exact if_pos (by omega)
  · simp only [if_neg hbytes, if_neg fun h : Continues bytes ∧ _ => hbytes h.1]

/-! ## One step -/

/-- The decoder accepts the shortest form of every scalar value. -/
theorem decodeUtf8_encode (c : Char) (rest : List UInt8) :
    decodeUtf8 (String.utf8EncodeChar c ++ rest) =
      some ⟨c.toNat, (String.utf8EncodeChar c).length⟩ := by
  have hscalar : Scalar 0 c.toNat := by
    have h := c.valid
    rw [UInt32.isValidChar, Nat.isValidChar] at h
    change c.toNat < 0xd800 ∨ 0xdfff < c.toNat ∧ c.toNat < 0x110000 at h
    rw [Scalar, maxCodepoint]
    omega
  have hbyte {n : Nat} (h : n < 256) : (UInt8.ofNat n).toNat = n := by
    rw [UInt8.toNat_ofNat', Nat.mod_eq_of_lt h]
  have hone (n : Nat) : 128 ≤ (UInt8.ofNat (n % 64 + 128)).toNat ∧
      (UInt8.ofNat (n % 64 + 128)).toNat < 192 := by
    rw [hbyte (by omega)]
    omega
  have hmod (n : Nat) : (UInt8.ofNat (n % 64 + 128)).toNat % 64 = n % 64 := by
    rw [hbyte (by omega)]
    omega
  unfold String.utf8EncodeChar
  change Scalar 0 c.val.toNat at hscalar
  change _ = some (⟨c.val.toNat, _⟩ : Utf8Step)
  generalize c.val.toNat = v at hscalar ⊢
  have hvalid {minimum : Nat} (h : minimum ≤ v) : Scalar minimum v := ⟨h, hscalar.2⟩
  rw [Scalar, maxCodepoint] at hscalar
  dsimp only
  split_ifs with h1 h2 h3
  · simp [decodeUtf8, hbyte (show v < 256 by omega), show v < 128 by omega]
  · have hlead : utf8Lead (UInt8.ofNat (v / 64 % 32 + 192)).toNat = some (2, v / 64, 0x80) := by
      rw [hbyte (by omega), utf8Lead_eq (by omega), if_pos (by omega)]
      simp only [Option.some.injEq, Prod.mk.injEq, true_and, and_true]
      omega
    have htotal : extend (v / 64) [UInt8.ofNat (v % 64 + 128)] = v := by
      simp only [extend, List.foldl_cons, List.foldl_nil, hmod]
      omega
    have hcontinues : Continues [UInt8.ofNat (v % 64 + 128)] := by simpa [Continues] using hone v
    exact (decodeUtf8_lead rest hlead htotal).trans
      (if_pos ⟨hcontinues, hvalid (show 0x80 ≤ v by omega)⟩)
  · have hlead : utf8Lead (UInt8.ofNat (v / 4096 % 16 + 224)).toNat =
        some (3, v / 4096, 0x800) := by
      rw [hbyte (by omega), utf8Lead_eq (by omega), if_neg (by omega), if_pos (by omega)]
      simp only [Option.some.injEq, Prod.mk.injEq, true_and, and_true]
      omega
    have htotal : extend (v / 4096)
        [UInt8.ofNat (v / 64 % 64 + 128), UInt8.ofNat (v % 64 + 128)] = v := by
      simp only [extend, List.foldl_cons, List.foldl_nil, hmod]
      omega
    have hcontinues : Continues [UInt8.ofNat (v / 64 % 64 + 128), UInt8.ofNat (v % 64 + 128)] := by
      simpa [Continues] using And.intro (hone (v / 64)) (hone v)
    exact (decodeUtf8_lead rest hlead htotal).trans
      (if_pos ⟨hcontinues, hvalid (show 0x800 ≤ v by omega)⟩)
  · have hlead : utf8Lead (UInt8.ofNat (v / 262144 % 8 + 240)).toNat =
        some (4, v / 262144, 0x10000) := by
      rw [hbyte (by omega), utf8Lead_eq (by omega), if_neg (by omega), if_neg (by omega),
        if_pos (by omega)]
      simp only [Option.some.injEq, Prod.mk.injEq, true_and, and_true]
      omega
    have htotal : extend (v / 262144) [UInt8.ofNat (v / 4096 % 64 + 128),
        UInt8.ofNat (v / 64 % 64 + 128), UInt8.ofNat (v % 64 + 128)] = v := by
      simp only [extend, List.foldl_cons, List.foldl_nil, hmod]
      omega
    have hcontinues : Continues [UInt8.ofNat (v / 4096 % 64 + 128),
        UInt8.ofNat (v / 64 % 64 + 128), UInt8.ofNat (v % 64 + 128)] := by
      simpa [Continues] using And.intro (hone (v / 4096)) (And.intro (hone (v / 64)) (hone v))
    exact (decodeUtf8_lead rest hlead htotal).trans
      (if_pos ⟨hcontinues, hvalid (show 0x10000 ≤ v by omega)⟩)

theorem exists_char {value : Nat} (h : Scalar 0 value) : ∃ c : Char, c.val.toNat = value := by
  rw [Scalar, maxCodepoint] at h
  have hword : (UInt32.ofNat value).toNat = value := by
    rw [UInt32.toNat_ofNat', Nat.mod_eq_of_lt (by omega)]
  have hvalid : (UInt32.ofNat value).isValidChar := by
    rw [UInt32.isValidChar, Nat.isValidChar, hword]
    omega
  exact ⟨⟨UInt32.ofNat value, hvalid⟩, hword⟩

/-- What the decoder accepts is the shortest form of a scalar value. -/
theorem decodeUtf8_sound (lead : UInt8) (rest : List UInt8) :
    decodeUtf8 (lead :: rest) = some ⟨replacement, 1⟩ ∨
      ∃ c, String.utf8EncodeChar c <+: lead :: rest := by
  have hlt := lead.toNat_lt
  have hbyte {n : Nat} {b : UInt8} (h : n = b.toNat) : UInt8.ofNat n = b := by
    rw [h, UInt8.ofNat_toNat]
  by_cases hlow : lead.toNat < 0x80
  · obtain ⟨c, hc⟩ := exists_char (show Scalar 0 lead.toNat by rw [Scalar, maxCodepoint]; omega)
    refine .inr ⟨c, rest, ?_⟩
    simp only [String.utf8EncodeChar, hc]
    rw [if_pos (by omega), hbyte rfl]
    rfl
  cases hlead : utf8Lead lead.toNat with
  | none => exact .inl (by simp [decodeUtf8, hlow, hlead])
  | some found =>
    obtain ⟨length, value, minimum⟩ := found
    by_cases hshort : (lead :: rest).length < length
    · exact .inl (by simp only [decodeUtf8, List.getElem?_cons_zero, hlow, if_false, hlead,
        hshort, if_true])
    have hcases := hlead
    rw [utf8Lead_eq hlt] at hcases
    have hdecode {bytes tail : List UInt8} (hrest : rest = bytes ++ tail)
        (hlength : length = bytes.length + 1)
        (hencode : ∀ c : Char, c.val.toNat = extend value bytes → Continues bytes →
          minimum ≤ extend value bytes → String.utf8EncodeChar c = lead :: bytes) :
        decodeUtf8 (lead :: rest) = some ⟨replacement, 1⟩ ∨
          ∃ c, String.utf8EncodeChar c <+: lead :: rest := by
      subst hrest hlength
      rw [decodeUtf8_lead tail hlead rfl]
      by_cases haccept : Continues bytes ∧ Scalar minimum (extend value bytes)
      · obtain ⟨c, hc⟩ := exists_char ⟨Nat.zero_le _, haccept.2.2⟩
        exact .inr ⟨c, tail, by rw [hencode c hc haccept.1 haccept.2.1]; rfl⟩
      · exact .inl (if_neg haccept)
    rw [List.length_cons] at hshort
    split_ifs at hcases with h2 h3 h4
    · obtain ⟨rfl, rfl, rfl⟩ : 2 = length ∧ lead.toNat % 32 = value ∧ 0x80 = minimum := by
        simpa using hcases
      rcases rest with _ | ⟨b1, tail⟩
      · simp at hshort
      refine @hdecode [b1] tail rfl rfl fun c hc hcontinues hminimum => ?_
      simp only [Continues, List.forall_mem_singleton] at hcontinues
      simp only [extend, List.foldl_cons, List.foldl_nil] at hc hminimum
      simp only [String.utf8EncodeChar, hc]
      rw [if_neg (by omega), if_pos (by omega), @hbyte _ lead (by omega), @hbyte _ b1 (by omega)]
    · obtain ⟨rfl, rfl, rfl⟩ : 3 = length ∧ lead.toNat % 16 = value ∧ 0x800 = minimum := by
        simpa using hcases
      rcases rest with _ | ⟨b1, _ | ⟨b2, tail⟩⟩
      · simp at hshort
      · simp at hshort
      refine @hdecode [b1, b2] tail rfl rfl fun c hc hcontinues hminimum => ?_
      simp only [Continues, List.forall_mem_cons] at hcontinues
      simp only [extend, List.foldl_cons, List.foldl_nil] at hc hminimum
      simp only [String.utf8EncodeChar, hc]
      rw [if_neg (by omega), if_neg (by omega), if_pos (by omega), @hbyte _ lead (by omega),
        @hbyte _ b1 (by omega), @hbyte _ b2 (by omega)]
    · obtain ⟨rfl, rfl, rfl⟩ : 4 = length ∧ lead.toNat % 8 = value ∧ 0x10000 = minimum := by
        simpa using hcases
      rcases rest with _ | ⟨b1, _ | ⟨b2, _ | ⟨b3, tail⟩⟩⟩
      · simp at hshort
      · simp at hshort
      · simp at hshort
      refine @hdecode [b1, b2, b3] tail rfl rfl fun c hc hcontinues hminimum => ?_
      simp only [Continues, List.forall_mem_cons] at hcontinues
      simp only [extend, List.foldl_cons, List.foldl_nil] at hc hminimum
      simp only [String.utf8EncodeChar, hc]
      rw [if_neg (by omega), if_neg (by omega), if_neg (by omega), @hbyte _ lead (by omega),
        @hbyte _ b1 (by omega), @hbyte _ b2 (by omega), @hbyte _ b3 (by omega)]

/-- One step on a text that is not empty. -/
theorem decodeUtf8_step (lead : UInt8) (rest : List UInt8) :
    ∃ step, decodeUtf8 (lead :: rest) = some step ∧
      1 ≤ step.length ∧ step.length ≤ (lead :: rest).length ∧
      ((step.codepoint ≠ replacement ∨ 1 < step.length) ↔
        ∃ c, String.utf8EncodeChar c <+: lead :: rest) ∧
      ∀ c, String.utf8EncodeChar c <+: lead :: rest →
        step = ⟨c.toNat, (String.utf8EncodeChar c).length⟩ := by
  have hencode {c : Char} (hc : String.utf8EncodeChar c <+: lead :: rest) :
      decodeUtf8 (lead :: rest) = some ⟨c.toNat, (String.utf8EncodeChar c).length⟩ := by
    obtain ⟨tail, htail⟩ := hc
    rw [← htail, decodeUtf8_encode]
  by_cases haccept : ∃ c, String.utf8EncodeChar c <+: lead :: rest
  · obtain ⟨c, hc⟩ := haccept
    refine ⟨_, hencode hc, List.length_pos_iff.2 String.utf8EncodeChar_ne_nil, hc.length_le,
      ⟨fun _ => ⟨c, hc⟩, fun _ => ?_⟩,
        fun d hd => Option.some.inj ((hencode hc).symm.trans (hencode hd))⟩
    -- only an ASCII character has an encoding of one byte
    unfold String.utf8EncodeChar
    dsimp only
    split_ifs with h1 <;> simp
    rw [replacement]
    exact fun h => absurd (h ▸ h1 : (0xfffd : Nat) ≤ 127) (by decide)
  · have hreject := (decodeUtf8_sound lead rest).resolve_right haccept
    exact ⟨_, hreject, le_refl _, by simp, by simp [haccept], fun c hc => absurd ⟨c, hc⟩ haccept⟩

/-! ## A whole text -/

/-- A piece of a text: a scalar value, or a byte that is in no encoding. -/
inductive Piece where
  | scalar (c : Char)
  | stray (byte : UInt8) (h : ∀ c, byte ∉ String.utf8EncodeChar c)

def Piece.bytes : Piece → List UInt8
  | scalar c => String.utf8EncodeChar c
  | stray byte _ => [byte]

def Piece.step : Piece → Utf8Step
  | scalar c => ⟨c.toNat, (String.utf8EncodeChar c).length⟩
  | stray _ _ => ⟨replacement, 1⟩

theorem Piece.decode (p : Piece) (rest : List UInt8) :
    decodeUtf8 (p.bytes ++ rest) = some p.step ∧ p.step.length = p.bytes.length ∧ p.bytes ≠ [] := by
  cases p with
  | scalar c => exact ⟨decodeUtf8_encode c rest, rfl, String.utf8EncodeChar_ne_nil⟩
  | stray byte h =>
    refine ⟨(decodeUtf8_sound byte rest).resolve_right fun ⟨c, tail, htail⟩ => h c ?_, rfl,
      List.cons_ne_nil _ _⟩
    obtain ⟨b, bytes, hbytes⟩ := List.exists_cons_of_ne_nil (@String.utf8EncodeChar_ne_nil c)
    rw [hbytes] at htail ⊢
    obtain rfl : b = byte := (List.cons.inj htail).1
    exact .head _

/-- Each step takes at least one byte, and all of them take the whole text. -/
theorem decodeFrom_total (fuel : Nat) (text : List UInt8) (h : text.length ≤ fuel) :
    ∃ steps, decodeFrom fuel text = some steps ∧ (∀ step ∈ steps, 1 ≤ step.length) ∧
      (steps.map Utf8Step.length).sum = text.length := by
  induction fuel generalizing text with
  | zero =>
    obtain rfl := List.length_eq_zero_iff.1 (Nat.le_zero.1 h)
    exact ⟨[], rfl, by simp, rfl⟩
  | succ fuel ih =>
    rcases text with _ | ⟨lead, rest⟩
    · exact ⟨[], rfl, by simp, rfl⟩
    obtain ⟨step, hstep, hpos, hle, -⟩ := decodeUtf8_step lead rest
    have hdrop : ((lead :: rest).drop step.length).length = (lead :: rest).length - step.length :=
      List.length_drop
    obtain ⟨steps, hsteps, hall, hsum⟩ := ih ((lead :: rest).drop step.length) (by omega)
    refine ⟨step :: steps, by simp [decodeFrom, hstep, hsteps], ?_, ?_⟩
    · simpa using ⟨hpos, hall⟩
    · rw [List.map_cons, List.sum_cons, hsum]
      omega

theorem decodeFrom_pieces (fuel : Nat) (pieces : List Piece)
    (h : (pieces.flatMap Piece.bytes).length ≤ fuel) :
    decodeFrom fuel (pieces.flatMap Piece.bytes) = some (pieces.map Piece.step) := by
  induction pieces generalizing fuel with
  | nil => cases fuel <;> rfl
  | cons p pieces ih =>
    obtain ⟨hdecode, hlength, hne⟩ := p.decode (pieces.flatMap Piece.bytes)
    rw [List.flatMap_cons] at h ⊢
    obtain ⟨lead, rest, htext⟩ := List.exists_cons_of_ne_nil
      (List.append_ne_nil_of_left_ne_nil hne (pieces.flatMap Piece.bytes))
    have hpos := List.length_pos_iff.2 hne
    rw [List.length_append] at h
    obtain ⟨fuel, rfl⟩ : ∃ n, fuel = n + 1 := ⟨fuel - 1, by omega⟩
    have hrest : (lead :: rest).drop p.step.length = pieces.flatMap Piece.bytes := by
      rw [← htext, hlength, List.drop_left]
    rw [htext] at hdecode ⊢
    simp [decodeFrom, hdecode, hrest, ih fuel (by omega)]

/-- Decoding takes every text apart, accepts just the shortest forms of the scalar values, and goes
on one byte behind what it does not accept. -/
theorem utf8_decoding_exact :
    (∀ text : List UInt8, ∃ steps, decodeFrom text.length text = some steps ∧
      (∀ step ∈ steps, 1 ≤ step.length) ∧ (steps.map Utf8Step.length).sum = text.length) ∧
    (∀ (lead : UInt8) (rest : List UInt8), ∃ step, decodeUtf8 (lead :: rest) = some step ∧
      1 ≤ step.length ∧ step.length ≤ (lead :: rest).length ∧
      ((step.codepoint ≠ replacement ∨ 1 < step.length) ↔
        ∃ c, String.utf8EncodeChar c <+: lead :: rest) ∧
      ∀ c, String.utf8EncodeChar c <+: lead :: rest →
        step = ⟨c.toNat, (String.utf8EncodeChar c).length⟩) ∧
    ∀ pieces : List Piece, decodeFrom (pieces.flatMap Piece.bytes).length
      (pieces.flatMap Piece.bytes) = some (pieces.map Piece.step) :=
  ⟨fun text => decodeFrom_total _ text le_rfl, decodeUtf8_step,
    fun pieces => decodeFrom_pieces _ pieces le_rfl⟩

end UnDOS.Font
