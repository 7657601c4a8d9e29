import UnDOS.Kernel.Error
import UnDOS.Lib.ByteStore
import Mathlib.Data.Int.Bitwise

/-!
# Report Descriptors

`hid_parser.cpp`: a report descriptor is read item by item into the fields of a report, and a field
is read out of a report bit by bit.

A read outside the descriptor, or more items than it has bytes, is `none`.
-/

namespace UnDOS.Input

open UnDOS.Lib UnDOS.Kernel

/-! ## The formats -/

structure ReportField where
  usagePage : Nat := 0
  usage : Nat := 0
  bitOffset : Nat := 0
  bitSize : Nat := 0
  isRelative : Bool := false
  isArray : Bool := false
  logicalMin : Int := 0
  logicalMax : Int := 0

structure ReportFormat where
  fields : List ReportField := []
  reportId : Nat := 0
  reportBytes : Nat := 0
  collectionUsage : Nat := 0

def kMaxFields : Nat := 48
def kMaxLocalUsages : Nat := 32
def usagePageGenericDesktop : Nat := 0x01

/-- The number that the low `bits` bits of `n` stand for in two's complement. -/
def signed (bits n : Nat) : Int := Int.bmod n (2 ^ bits)

def unsignedItemData (data : List UInt8) : Nat := leNat data

def signedItemData (data : List UInt8) : Int :=
  match data.length with
  | 1 => signed 8 (leNat data)
  | 2 => signed 16 (leNat data)
  | 4 => signed 32 (leNat data)
  | _ => 0

/-! ## The parser -/

/-- The locals of `ParseReportDescriptor`, without the position. -/
structure Parser where
  parsed : ReportFormat := {}
  usagePage : Nat := 0
  logicalMin : Int := 0
  logicalMax : Int := 0
  reportSize : Nat := 0
  reportCount : Nat := 0
  localUsages : List Nat := []
  haveUsageRange : Bool := false
  usageMin : Nat := 0
  usageMax : Nat := 0
  bitOffset : Nat := 0
  collectionDepth : Int := 0
  haveCollectionUsage : Bool := false

def globalItem (tag : Nat) (data : List UInt8) (p : Parser) : Parser :=
  match tag with
  | 0x0 => { p with usagePage := unsignedItemData data % 2 ^ 16 }
  | 0x1 => { p with logicalMin := signedItemData data }
  | 0x2 => { p with logicalMax := signedItemData data }
  | 0x7 => { p with reportSize := unsignedItemData data }
  | 0x8 => { p with parsed := { p.parsed with reportId := unsignedItemData data % 2 ^ 8 } }
  | 0x9 => { p with reportCount := unsignedItemData data }
  | _ => p

def localItem (tag : Nat) (data : List UInt8) (p : Parser) : Except KernelError Parser :=
  let value := unsignedItemData data % 2 ^ 16
  match tag with
  | 0x0 =>
    if kMaxLocalUsages ≤ p.localUsages.length then .error .resourceLimitExceeded
    else .ok { p with localUsages := p.localUsages ++ [value] }
  | 0x1 => .ok { p with usageMin := value, haveUsageRange := true }
  | 0x2 => .ok { p with usageMax := value, haveUsageRange := true }
  | _ => .ok p

/-- The usage of the `n`-th variable field of an input item. -/
def variableUsage (p : Parser) (n : Nat) : Nat :=
  if h : n < p.localUsages.length then p.localUsages[n]
  else if p.haveUsageRange ∧ p.usageMin + n ≤ p.usageMax then p.usageMin + n
  else p.localUsages.getLastD 0

def inputField (p : Parser) (flags n : Nat) : ReportField where
  usagePage := p.usagePage
  usage := if flags.testBit 1 then variableUsage p n else 0
  bitOffset := p.bitOffset
  bitSize := p.reportSize
  isRelative := flags.testBit 2
  isArray := !flags.testBit 1
  logicalMin := p.logicalMin
  logicalMax := p.logicalMax

/-- The loop of an input item, which adds a field for each count unless the item is constant. -/
def addFields (flags : Nat) : (left n : Nat) → Parser → Except KernelError Parser
  | 0, _, p => .ok p
  | left + 1, n, p =>
    if 0xFFFF < p.bitOffset + p.reportSize then .error .invalidFormat
    else if flags.testBit 0 then
      addFields flags left (n + 1) { p with bitOffset := p.bitOffset + p.reportSize }
    else if kMaxFields ≤ p.parsed.fields.length then .error .resourceLimitExceeded
    else addFields flags left (n + 1) { p with
      parsed := { p.parsed with fields := p.parsed.fields ++ [inputField p flags n] }
      bitOffset := p.bitOffset + p.reportSize }

def clearLocals (p : Parser) : Parser :=
  { p with localUsages := [], haveUsageRange := false, usageMin := 0, usageMax := 0 }

def beginCollection (p : Parser) : Parser :=
  let p := { p with collectionDepth := p.collectionDepth + 1 }
  match p.localUsages with
  | usage :: _ =>
    if !p.haveCollectionUsage && p.usagePage == usagePageGenericDesktop then
      { p with parsed := { p.parsed with collectionUsage := usage }, haveCollectionUsage := true }
    else p
  | [] => p

def mainItem (tag : Nat) (data : List UInt8) (p : Parser) : Except KernelError Parser :=
  match tag with
  | 0xA => .ok (beginCollection p)
  | 0xC =>
    if p.collectionDepth - 1 < 0 then .error .invalidFormat
    else .ok { p with collectionDepth := p.collectionDepth - 1 }
  | 0x8 =>
    if p.reportSize = 0 ∨ 32 < p.reportSize then .error .invalidFormat
    else addFields (unsignedItemData data) p.reportCount 0 p
  | _ => .ok p

/-- One item, by its type. -/
def item (type tag : Nat) (data : List UInt8) (p : Parser) : Except KernelError Parser :=
  match type with
  | 0 => (mainItem tag data p).map clearLocals
  | 1 => .ok (globalItem tag data p)
  | 2 => localItem tag data p
  | _ => .error .invalidFormat

/-- The bytes of an item. -/
def itemData (descriptor : List UInt8) (i size : Nat) : Option (List UInt8) :=
  if i + size ≤ descriptor.length then some ((descriptor.drop i).take size) else none

def parseItems (descriptor : List UInt8) :
    (fuel i : Nat) → Parser → Option (Except KernelError Parser)
  | 0, i, p => if i < descriptor.length then none else some (.ok p)
  | fuel + 1, i, p =>
    if i < descriptor.length then do
      let header := (← descriptor[i]?).toNat
      if header = 0xFE then return .error .unsupported
      let size := if header % 4 = 3 then 4 else header % 4
      if descriptor.length < i + 1 + size then return .error .invalidFormat
      let data ← itemData descriptor (i + 1) size
      match item (header / 4 % 4) (header / 16) data p with
      | .error error => return .error error
      | .ok p => parseItems descriptor fuel (i + 1 + size) p
    else some (.ok p)

/-- `ParseReportDescriptor`: the code it returns and what it leaves in `out`. -/
def parseReportDescriptor (descriptor : List UInt8) (out : ReportFormat) :
    Option (Except KernelError Unit × ReportFormat) := do
  match ← parseItems descriptor descriptor.length 0 {} with
  | .error error => return (.error error, out)
  | .ok p =>
    if p.collectionDepth ≠ 0 then return (.error .invalidFormat, out)
    if p.parsed.fields = [] then return (.error .invalidFormat, out)
    return (.ok (), { p.parsed with reportBytes := (p.bitOffset + 7) / 8 })

/-! ## The decoder -/

/-- The loop of `ExtractField`, which ends at the end of the report. -/
def extractBits (bitOffset : Nat) (report : List UInt8) : (left bit raw : Nat) → Nat
  | 0, _, raw => raw
  | left + 1, bit, raw =>
    match report[(bitOffset + bit) / 8]? with
    | none => raw
    | some byte =>
      extractBits bitOffset report left (bit + 1)
        (if byte.toNat.testBit ((bitOffset + bit) % 8) then raw ||| 2 ^ bit else raw)

def extractField (field : ReportField) (report : List UInt8) : Int :=
  let raw := extractBits field.bitOffset report field.bitSize 0 0
  if field.logicalMin < 0 ∧ field.bitSize < 32 ∧ raw.testBit (field.bitSize - 1) then
    signed 32 (raw ||| (2 ^ 32 - 2 ^ field.bitSize))
  else signed 32 raw

/-! ## What a field says -/

/-- The bits of a field as an unsigned number: byte 0 of the report is the lowest. -/
def fieldBits (field : ReportField) (report : List UInt8) : Nat :=
  leNat report / 2 ^ field.bitOffset % 2 ^ field.bitSize

/-- Signed when the logical minimum is negative. -/
def declaredValue (field : ReportField) (report : List UInt8) : Int :=
  if field.logicalMin < 0 then signed field.bitSize (fieldBits field report)
  else fieldBits field report

/-- A field of 32 bits is signed as well: the decoder's value is an `int32_t`. -/
def decodedValue (field : ReportField) (report : List UInt8) : Int :=
  if field.logicalMin < 0 ∨ field.bitSize = 32 then signed field.bitSize (fieldBits field report)
  else fieldBits field report

/-- The parser ends inside the descriptor, leaves `out` alone on an error, and otherwise lays out
fields that lie in the report one behind the other and hold the numbers that `value` says. -/
def LaidOut (value : ReportField → List UInt8 → Int) (descriptor : List UInt8)
    (out : ReportFormat) :
    Prop :=
  ∃ result format, parseReportDescriptor descriptor out = some (result, format) ∧
    match result with
    | .error _ => format = out
    | .ok () => format.fields.length ≤ kMaxFields ∧
        format.fields.Pairwise (fun f g => f.bitOffset + f.bitSize ≤ g.bitOffset) ∧
        ∀ f ∈ format.fields, 1 ≤ f.bitSize ∧ f.bitSize ≤ 32 ∧
          f.bitOffset + f.bitSize ≤ format.reportBytes * 8 ∧
          ∀ report, format.reportBytes ≤ report.length → extractField f report = value f report

/-! ## Reading a field -/

theorem testBit_leNat (report : List UInt8) (j : Nat) : (leNat report).testBit j =
    (report[j / 8]?.map fun byte => byte.toNat.testBit (j % 8)).getD false := by
  induction report generalizing j with
  | nil => simp [leNat]
  | cons byte rest ih =>
    rw [leNat, add_comm,
      Nat.testBit_two_pow_mul_add _ byte.toNat_lt]
    by_cases hj : j < 8
    · simp [hj, Nat.div_eq_of_lt hj, Nat.mod_eq_of_lt hj]
    · obtain ⟨k, rfl⟩ : ∃ k, j = k + 8 := ⟨j - 8, by omega⟩
      simp [ih]

variable {report data : List UInt8}

theorem testBit_extractBits {off left bit raw : Nat}
    (hroom : off + bit + left ≤ report.length * 8) (k : Nat) :
    (extractBits off report left bit raw).testBit k =
      (raw.testBit k || (decide (bit ≤ k ∧
        k < bit + left) && (leNat report).testBit (off + k))) := by
  induction left generalizing bit raw with
  | zero => simp [extractBits]
  | succ left ih =>
    have hbyte : (off + bit) / 8 < report.length := by omega
    have hbit : (leNat report).testBit (off + bit) =
        report[(off + bit) / 8].toNat.testBit ((off + bit) % 8) := by
      rw [testBit_leNat, List.getElem?_eq_getElem hbyte, Option.map_some, Option.getD_some]
    simp only [extractBits, List.getElem?_eq_getElem hbyte]
    rw [ih (by omega)]
    rcases lt_trichotomy k bit with hk | rfl | hk
    · split <;> simp [show ¬ bit ≤ k by omega, show ¬ bit + 1 ≤ k by omega, show bit ≠ k by omega]
    · split <;> simp_all
    · have hrest : (bit + 1 ≤ k ∧ k < bit + 1 + left) ↔ (bit ≤ k ∧ k < bit + (left + 1)) := by omega
      simp only [hrest]
      split <;> simp [show bit ≠ k by omega]

theorem extractBits_eq {field : ReportField}
    (hroom : field.bitOffset + field.bitSize ≤ report.length * 8) :
    extractBits field.bitOffset report field.bitSize 0 0 = fieldBits field report := by
  refine Nat.eq_of_testBit_eq fun k => ?_
  rw [testBit_extractBits (by omega), fieldBits, Nat.testBit_mod_two_pow, Nat.testBit_div_two_pow]
  simp [add_comm k]

theorem signed_low {bits n : Nat} (h : 2 * n < 2 ^ bits) : signed bits n = n :=
  Int.bmod_eq_of_le_mul_two (by omega) (by omega)

theorem signed_high {bits n : Nat} (h : 2 ^ bits ≤ 2 * n) (hn : n < 2 ^ bits) :
    signed bits n = n - (2 ^ bits : Nat) := by
  rw [signed, Int.bmod_eq_iff (Nat.two_pow_pos bits)]
  exact ⟨by omega, by omega, -1, by omega⟩

/-- Bits across byte borders are the number that the report declares. -/
theorem extractField_eq {field : ReportField} (hpos : 1 ≤ field.bitSize)
    (hsize : field.bitSize ≤ 32) (hroom : field.bitOffset + field.bitSize ≤ report.length * 8) :
    extractField field report = decodedValue field report := by
  rw [extractField, extractBits_eq hroom, decodedValue]
  have hlt : fieldBits field report < 2 ^ field.bitSize := Nat.mod_lt _ (Nat.two_pow_pos _)
  generalize fieldBits field report = n at hlt
  generalize field.bitSize = size at hpos hsize hlt
  obtain ⟨k, rfl⟩ : ∃ k, size = k + 1 := ⟨size - 1, by omega⟩
  rcases lt_or_eq_of_le hsize with hsize | hsize
  · have hword : 2 * 2 ^ (k + 1) ≤ 2 ^ 32 := by
      rw [← pow_succ']
      exact Nat.pow_le_pow_right (by decide) hsize
    have hlow : signed 32 n = n := signed_low (by omega)
    have hsign : n.testBit k = true ↔ 2 ^ (k + 1) ≤ 2 * n := by
      rw [pow_succ', Nat.mul_le_mul_left_iff (by decide)]
      exact ⟨Nat.ge_two_pow_of_testBit, fun h =>
        Nat.testBit_of_two_pow_le_and_two_pow_add_one_gt h hlt⟩
    by_cases hneg : field.logicalMin < 0
    · by_cases htop : n.testBit k = true
      · -- The code extends the sign by setting the bits above the field.
        have hor : n ||| (2 ^ 32 - 2 ^ (k + 1)) = n + (2 ^ 32 - 2 ^ (k + 1)) := by
          have hmask : 2 ^ 32 - 2 ^ (k + 1) = 2 ^ (k + 1) * (2 ^ (32 - (k + 1)) - 1) := by
            rw [Nat.mul_sub, ← pow_add, Nat.add_sub_cancel' hsize.le, mul_one]
          rw [hmask, Nat.or_comm, ← Nat.two_pow_add_eq_or_of_lt hlt, add_comm]
        have hhigh := hsign.1 htop
        rw [if_pos ⟨hneg, hsize, htop⟩, signed_high (by omega) (by omega),
          signed_high hhigh hlt]
        omega
      · rw [if_neg (fun h => htop h.2.2), if_pos (.inl hneg), hlow, signed_low]
        exact Nat.lt_of_not_le fun h => htop (hsign.2 h)
    · rw [if_neg (fun h => hneg h.1), if_neg (by omega), hlow]
  · rw [if_neg (fun h => by omega), if_pos (.inr hsize), hsize]

/-! ## The layout -/

/-- The fields so far lie one behind the other in the first `bitOffset` bits. -/
structure Laid (fields : List ReportField) (bitOffset : Nat) : Prop where
  capacity : fields.length ≤ kMaxFields
  apart : fields.Pairwise fun f g => f.bitOffset + f.bitSize ≤ g.bitOffset
  inside : ∀ f ∈ fields, 1 ≤ f.bitSize ∧ f.bitSize ≤ 32 ∧ f.bitOffset + f.bitSize ≤ bitOffset

variable {p q : Parser}

/-- The parser's fields are laid out up to its position in the report. -/
def Parser.LaidOut (p : Parser) : Prop := Laid p.parsed.fields p.bitOffset

theorem Laid.skip {fields : List ReportField} {bitOffset : Nat} (h : Laid fields bitOffset)
    (size : Nat) : Laid fields (bitOffset + size) :=
  { h with inside := fun f hf => ⟨(h.inside f hf).1, (h.inside f hf).2.1, by
      have := (h.inside f hf).2.2
      omega⟩ }

theorem Laid.append {fields : List ReportField} {field : ReportField}
    (h : Laid fields field.bitOffset) (hroom : fields.length < kMaxFields)
    (hpos : 1 ≤ field.bitSize) (hsize : field.bitSize ≤ 32) :
    Laid (fields ++ [field]) (field.bitOffset + field.bitSize) where
  capacity := by rw [List.length_append]; exact hroom
  apart := List.pairwise_append.2 ⟨h.apart, List.pairwise_singleton _ _, fun f hf g hg => by
    rw [List.mem_singleton.1 hg]
    exact (h.inside f hf).2.2⟩
  inside f hf := by
    rcases List.mem_append.1 hf with hf | hf
    · exact (h.skip _).inside f hf
    · rw [List.mem_singleton.1 hf]
      exact ⟨hpos, hsize, le_rfl⟩

theorem addFields_laid {flags left n : Nat} (hp : p.LaidOut) (hpos : 1 ≤ p.reportSize)
    (hsize : p.reportSize ≤ 32) (h : addFields flags left n p = .ok q) : q.LaidOut := by
  induction left generalizing n p with
  | zero =>
    cases h
    exact hp
  | succ left ih =>
    rw [addFields] at h
    split_ifs at h with hfull hconstant hroom
    · exact @ih { p with bitOffset := p.bitOffset + p.reportSize } _ (hp.skip _) hpos hsize h
    · have hmore : Laid (p.parsed.fields ++ [inputField p flags n]) (p.bitOffset + p.reportSize) :=
        Laid.append hp (Nat.lt_of_not_le hroom) hpos hsize
      exact @ih { p with
        parsed := { p.parsed with fields := p.parsed.fields ++ [inputField p flags n] }
        bitOffset := p.bitOffset + p.reportSize } _ hmore hpos hsize h

theorem globalItem_laid (tag : Nat) (data : List UInt8) (hp : p.LaidOut) :
    (globalItem tag data p).LaidOut := by
  unfold globalItem
  split <;> exact hp

theorem localItem_laid {tag : Nat} (hp : p.LaidOut)
    (h : localItem tag data p = .ok q) : q.LaidOut := by
  unfold localItem at h
  split at h <;> try split at h
  all_goals cases h <;> exact hp

theorem mainItem_laid {tag : Nat} (hp : p.LaidOut)
    (h : mainItem tag data p = .ok q) : q.LaidOut := by
  unfold mainItem at h
  split at h
  · cases h
    simp only [beginCollection]
    split <;> try split
    all_goals exact hp
  · split at h <;> cases h
    exact hp
  · split at h
    · cases h
    · exact addFields_laid hp (by omega) (by omega) h
  · cases h
    exact hp

theorem item_laid {type tag : Nat} (hp : p.LaidOut)
    (h : item type tag data p = .ok q) : q.LaidOut := by
  unfold item at h
  split at h
  · cases hmain : mainItem tag data p with
    | error e => simp [hmain, Except.map] at h
    | ok p' =>
      rw [hmain] at h
      cases h
      have hlaid : p'.LaidOut := mainItem_laid hp hmain
      exact hlaid
  · cases h
    exact globalItem_laid tag data hp
  · exact localItem_laid hp h
  · cases h

theorem parseItems_ends {descriptor : List UInt8} {fuel i : Nat}
    (hfuel : descriptor.length ≤ i + fuel) (hp : p.LaidOut) :
    ∃ result, parseItems descriptor fuel i p = some result ∧ ∀ q, result = .ok q → q.LaidOut := by
  induction fuel generalizing i p with
  | zero => exact ⟨.ok p, if_neg (by omega), by rintro _ ⟨⟩; exact hp⟩
  | succ fuel ih =>
    rw [parseItems]
    split_ifs with hi
    · simp only [List.getElem?_eq_getElem hi, Option.bind_eq_bind, Option.bind_some]
      generalize (if descriptor[i].toNat % 4 = 3 then 4 else descriptor[i].toNat % 4) = size
      split_ifs with hlong htruncated
      · exact ⟨_, rfl, by rintro _ ⟨⟩⟩
      · exact ⟨_, rfl, by rintro _ ⟨⟩⟩
      · rw [itemData, if_pos (by omega), Option.bind_some]
        split
        · exact ⟨_, rfl, by rintro _ ⟨⟩⟩
        · exact ih (by omega) (item_laid hp ‹_›)
    · exact ⟨.ok p, rfl, by rintro _ ⟨⟩; exact hp⟩

/-- A descriptor is parsed inside its bytes into fields that lie one behind the other in the
report, and a field is read as its bits say. -/
theorem report_layout (descriptor : List UInt8) (out : ReportFormat) :
    LaidOut decodedValue descriptor out := by
  have hstart : ({} : Parser).LaidOut := ⟨Nat.zero_le _, .nil, by simp⟩
  obtain ⟨result, hparse, hlaid⟩ := parseItems_ends (Nat.le_add_left descriptor.length 0) hstart
  simp only [LaidOut, parseReportDescriptor, hparse, Option.bind_eq_bind, Option.bind_some,
    Option.pure_def]
  cases result with
  | error error => exact ⟨_, _, rfl, rfl⟩
  | ok q =>
    obtain ⟨hcapacity, hapart, hinside⟩ := hlaid q rfl
    dsimp only
    split_ifs with hdepth hempty
    · exact ⟨_, _, rfl, rfl⟩
    · exact ⟨_, _, rfl, rfl⟩
    · refine ⟨_, _, rfl, hcapacity, hapart, fun f hf => ?_⟩
      obtain ⟨hpos, hsize, hend⟩ := hinside f hf
      have hbytes : f.bitOffset + f.bitSize ≤ (q.bitOffset + 7) / 8 * 8 := by omega
      exact ⟨hpos, hsize, hbytes, fun report hreport =>
        extractField_eq hpos hsize (hbytes.trans (Nat.mul_le_mul_right 8 hreport))⟩

/-- One variable field of 32 bits, whose logical range begins at 0. -/
def wordDescriptor : List UInt8 := [0x75, 32, 0x95, 1, 0x81, 0x02]

def wordField : ReportField := { bitSize := 32 }

theorem unsigned_word_negative : ¬ LaidOut declaredValue wordDescriptor {} := by
  rintro ⟨result, format, hparse, hlaid⟩
  have hformat : parseReportDescriptor wordDescriptor {} =
      some (.ok (), { fields := [wordField], reportBytes := 4 }) := rfl
  rw [hformat] at hparse
  obtain ⟨rfl, rfl⟩ := Prod.mk.inj (Option.some.inj hparse)
  have hvalue := (hlaid.2.2 wordField (by simp)).2.2.2 [0, 0, 0, 0x80] (by decide)
  revert hvalue
  decide

end UnDOS.Input
