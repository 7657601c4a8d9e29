import UnDOS.Kernel.Error
import UnDOS.Lib.ByteStore

/-!
# Partition Tables

`volmgr_partition.hpp`: the volume manager reads the four entries of a boot sector or the entries of
a GUID partition table, and every later request is checked against the extents found there.

A view is a list of bytes whose size is a `size_t`.  A read or a window outside its view is `none`.
Beside each extent stands the index of the entry it was read from.
-/

namespace UnDOS.Disk

open UnDOS.Lib UnDOS.Kernel

/-! ## The code -/

/-- The two widths of `size_t`. -/
inductive SizeT where
  | bits32 | bits64

def SizeT.modulus : SizeT → Nat
  | .bits32 => 2 ^ 32
  | .bits64 => 2 ^ 64

/-- A span of bytes: its size is a `size_t`. -/
structure ByteView (w : SizeT) where
  bytes : List UInt8
  short : bytes.length < w.modulus

structure PartitionInfo where
  baseOffsetBytes : Nat
  lengthBytes : Nat
deriving DecidableEq

def kSectorSize : Nat := 512

/-- `subspan` with an offset. -/
def subspan (p : List UInt8) (offset : Nat) : Option (List UInt8) :=
  if offset ≤ p.length then some (p.drop offset) else none

/-- `subspan` with an offset and a count. -/
def window (p : List UInt8) (offset count : Nat) : Option (List UInt8) :=
  if offset + count ≤ p.length then some ((p.drop offset).take count) else none

def readLe32 (p : List UInt8) : Option Nat := do
  let b₀ ← p[0]?
  let b₁ ← p[1]?
  let b₂ ← p[2]?
  let b₃ ← p[3]?
  return b₀.toNat + b₁.toNat * 2 ^ 8 + b₂.toNat * 2 ^ 16 + b₃.toNat * 2 ^ 24

def readLe64 (p : List UInt8) : Option Nat := do
  let low ← readLe32 p
  let high ← readLe32 (← subspan p 4)
  return low + high * 2 ^ 32

def hasMbrSignature (sector0 : List UInt8) : Bool :=
  512 ≤ sector0.length && sector0[510]? == some 0x55 && sector0[511]? == some 0xAA

/-- The header begins with "EFI PART". -/
def hasGptSignature (lba1 : List UInt8) : Bool :=
  lba1.take 8 == [0x45, 0x46, 0x49, 0x20, 0x50, 0x41, 0x52, 0x54]

/-- What a table's loop makes of one entry. -/
inductive Slot where
  | stop
  | skip
  | found (p : PartitionInfo)

/-- The loop of both tables: `left` entries from the `i`-th on, while `room` is left in `out`. -/
def scanEntries (entry : Nat → Option Slot) :
    (left i room : Nat) → Option (List (Nat × PartitionInfo))
  | 0, _, _ => some []
  | _ + 1, _, 0 => some []
  | left + 1, i, room + 1 => do
    match ← entry i with
    | .stop => return []
    | .skip => scanEntries entry left (i + 1) (room + 1)
    | .found p => return (i, p) :: (← scanEntries entry left (i + 1) room)

def mbrEntry (sector0 : List UInt8) (i : Nat) : Option Slot := do
  let e ← subspan sector0 (446 + i * 16)
  let type ← e[4]?
  if type = 0x00 ∨ type = 0xEE then return .skip
  let startLba ← readLe32 (← subspan e 8)
  let sectors ← readLe32 (← subspan e 12)
  if sectors = 0 then return .skip
  return .found ⟨startLba * kSectorSize % 2 ^ 64, sectors * kSectorSize % 2 ^ 64⟩

def parseMbr (sector0 : List UInt8) (room : Nat) :
    Option (Except KernelError (List (Nat × PartitionInfo))) :=
  if !hasMbrSignature sector0 then some (.error .invalidFormat)
  else do return .ok (← scanEntries (mbrEntry sector0) 4 0 room)

/-- The loop over the type GUID, which ends at the first byte that is not zero. -/
def anyNonzero (e : List UInt8) : (left b : Nat) → Option Bool
  | 0, _ => some false
  | left + 1, b => do
    if (← e[b]?) ≠ 0 then return true
    anyNonzero e left (b + 1)

def gptEntry {w : SizeT} (entries : ByteView w) (entrySize i : Nat) : Option Slot := do
  let off := i * entrySize % w.modulus
  if entries.bytes.length < (off + entrySize) % w.modulus then return .stop
  let e ← window entries.bytes off entrySize
  if !(← anyNonzero e 16 0) then return .skip
  let firstLba ← readLe64 (← subspan e 32)
  let lastLba ← readLe64 (← subspan e 40)
  if lastLba < firstLba then return .skip
  return .found ⟨firstLba * kSectorSize % 2 ^ 64, (lastLba - firstLba + 1) * kSectorSize % 2 ^ 64⟩

def parseGptEntries {w : SizeT} (header : List UInt8) (entries : ByteView w) (room : Nat) :
    Option (Except KernelError (List (Nat × PartitionInfo))) := do
  if header.length < 88 || !hasGptSignature header then return .error .invalidFormat
  let numEntries ← readLe32 (← subspan header 80)
  let entrySize ← readLe32 (← subspan header 84)
  if entrySize < 128 then return .error .invalidFormat
  return .ok (← scanEntries (gptEntry entries entrySize) numEntries 0 room)

def computeAbsoluteOffset (p : PartitionInfo) (reqOffset reqLength : Nat) :
    Except KernelError Nat :=
  let UINT64_MAX := 2 ^ 64 - 1
  if p.lengthBytes < reqOffset ∨ p.lengthBytes - reqOffset < reqLength ∨
      UINT64_MAX - p.baseOffsetBytes < reqOffset ∨
      UINT64_MAX - p.baseOffsetBytes - reqOffset < reqLength then .error .outOfRange
  else .ok (p.baseOffsetBytes + reqOffset)

/-! ## What a table says -/

/-- The number an entry holds in the `n` bytes at `off`. -/
def field (p : List UInt8) (off n : Nat) : Nat := leNat ((p.drop off).take n)

/-- A request is let through exactly when it lies in the extent, and then lands in it. -/
def Confines (p : PartitionInfo) : Prop :=
  ∀ reqOffset reqLength, match computeAbsoluteOffset p reqOffset reqLength with
    | .ok a => reqOffset + reqLength ≤ p.lengthBytes ∧ p.baseOffsetBytes ≤ a ∧
        a + reqLength ≤ p.baseOffsetBytes + p.lengthBytes
    | .error _ => p.lengthBytes < reqOffset + reqLength

/-- The extent is the sectors from `first` to before `stop`, ends at a 64-bit offset and confines
the requests made to it. -/
def Describes (first stop : Nat) (p : PartitionInfo) : Prop :=
  p.baseOffsetBytes = first * 512 ∧ p.baseOffsetBytes + p.lengthBytes = stop * 512 ∧
    p.baseOffsetBytes + p.lengthBytes < 2 ^ 64 ∧ Confines p

/-- The parser stays in its views, and each extent it returns is the one of its entry. -/
def Faithful (describes : Nat → PartitionInfo → Prop)
    (r : Option (Except KernelError (List (Nat × PartitionInfo)))) : Prop :=
  ∃ result, r = some result ∧ ∀ found, result = .ok found → ∀ x ∈ found, describes x.1 x.2

def MbrDescribes (sector0 : List UInt8) (k : Nat) : PartitionInfo → Prop :=
  let e := sector0.drop (446 + k * 16)
  Describes (field e 8 4) (field e 8 4 + field e 12 4)

/-- The `k`-th entry of the buffer. -/
def entryBytes (entries : List UInt8) (entrySize k : Nat) : List UInt8 :=
  (entries.drop (k * entrySize)).take entrySize

/-- An entry in use whose range is not reversed. -/
def Usable (e : List UInt8) : Prop :=
  (e.take 16).any (· ≠ 0) = true ∧ field e 32 8 ≤ field e 40 8

instance (e : List UInt8) : Decidable (Usable e) := by unfold Usable; infer_instance

/-- The entry lies in the buffer and the extent is its. -/
def GptDescribes (entries : List UInt8) (entrySize k : Nat) (p : PartitionInfo) : Prop :=
  let e := entryBytes entries entrySize k
  (k + 1) * entrySize ≤ entries.length ∧ Describes (field e 32 8) (field e 40 8 + 1) p

/-- Each entry the parser comes to is in use only with an end below `2 ^ 64`, or is the first one
past the buffer, and then its end is a `size_t`. -/
def GptFits {w : SizeT} (header : List UInt8) (entries : ByteView w) (room : Nat) : Prop :=
  let size := field header 84 4
  88 ≤ header.length → hasGptSignature header = true → 128 ≤ size →
    ∀ k < field header 80 4,
      (List.range' 0 k).countP (fun j => Usable (entryBytes entries.bytes size j)) < room →
      (∀ j < k, (j + 1) * size ≤ entries.bytes.length) →
      if (k + 1) * size ≤ entries.bytes.length then
        Usable (entryBytes entries.bytes size k) →
          (field (entryBytes entries.bytes size k) 40 8 + 1) * 512 < 2 ^ 64
      else (k + 1) * size < w.modulus

/-! ## Reading numbers -/

variable {p : List UInt8}

theorem readLe32_eq (hp : 4 ≤ p.length) : readLe32 p = some (leNat (p.take 4)) := by
  match p, hp with
  | b₀ :: b₁ :: b₂ :: b₃ :: rest, _ =>
    simp only [readLe32, leNat, List.getElem?_cons_zero, List.getElem?_cons_succ,
      Option.bind_eq_bind,
      Option.bind_some, Option.pure_def, List.take_succ_cons, List.take_zero, Option.some.injEq]
    ring

theorem leNat_append (a b : List UInt8) : leNat (a ++ b) = leNat a + 256 ^ a.length * leNat b := by
  induction a with
  | nil => simp [leNat]
  | cons x a ih =>
    simp only [List.cons_append, leNat, ih, List.length_cons]
    ring

theorem readLe64_eq (hp : 8 ≤ p.length) : readLe64 p = some (leNat (p.take 8)) := by
  have htail : p.take 8 = p.take 4 ++ (p.drop 4).take 4 := by rw [← List.take_add]
  have hlength : (p.take 4).length = 4 := by simp; omega
  simp only [readLe64, subspan, if_pos (show 4 ≤ p.length by omega), Option.bind_eq_bind,
    Option.bind_some, readLe32_eq (show 4 ≤ p.length by omega),
    readLe32_eq (show 4 ≤ (p.drop 4).length by simp; omega), Option.pure_def, htail, leNat_append,
    hlength, Option.some.injEq]
  ring

theorem subspan_eq {off : Nat} (h : off ≤ p.length) : subspan p off = some (p.drop off) :=
  if_pos h

theorem readLe32_drop {off : Nat} (h : off + 4 ≤ p.length) :
    readLe32 (p.drop off) = some (field p off 4) :=
  readLe32_eq (by rw [List.length_drop]; omega)

theorem readLe64_drop {off : Nat} (h : off + 8 ≤ p.length) :
    readLe64 (p.drop off) = some (field p off 8) :=
  readLe64_eq (by rw [List.length_drop]; omega)

theorem field_lt {off n : Nat} : field p off n < 256 ^ n :=
  (leNat_lt _).trans_le (Nat.pow_le_pow_right (by decide) (List.length_take_le _ _))

theorem anyNonzero_eq {e : List UInt8} {left b : Nat} (hb : b + left ≤ e.length) :
    anyNonzero e left b = some (((e.drop b).take left).any (· ≠ 0)) := by
  induction left generalizing b with
  | zero => simp [anyNonzero]
  | succ left ih =>
    have hlt : b < e.length := by omega
    rw [anyNonzero, List.getElem?_eq_getElem hlt, List.drop_eq_getElem_cons hlt,
      List.take_succ_cons, Option.bind_eq_bind]
    by_cases hbyte : e[b] = 0
    · simp [hbyte, ih (show b + 1 + left ≤ e.length by omega)]
    · simp [hbyte]

/-! ## Requests -/

theorem confines {p : PartitionInfo} (hp : p.baseOffsetBytes + p.lengthBytes < 2 ^ 64) :
    Confines p := by
  intro reqOffset reqLength
  simp only [computeAbsoluteOffset]
  split_ifs with hout
  · omega
  · exact ⟨by omega, by omega, by omega⟩

theorem describes_iff {first sectors : Nat} : Describes first (first + sectors)
      ⟨first * kSectorSize % 2 ^ 64, sectors * kSectorSize % 2 ^ 64⟩ ↔
      (first + sectors) * 512 < 2 ^ 64 := by
  constructor
  · rintro ⟨-, hstop, hlt, -⟩
    exact hstop ▸ hlt
  · intro hlt
    have hsum : first * 512 + sectors * 512 = (first + sectors) * 512 := (add_mul ..).symm
    have hbase := (hsum ▸ Nat.le_add_right (first * 512) _).trans_lt hlt
    have hlength := (hsum ▸ Nat.le_add_left (sectors * 512) _).trans_lt hlt
    rw [kSectorSize, Nat.mod_eq_of_lt hbase, Nat.mod_eq_of_lt hlength]
    exact ⟨rfl, hsum, lt_of_eq_of_lt hsum hlt, confines (lt_of_eq_of_lt hsum hlt)⟩

/-! ## One loop for both tables -/

section Scanning

variable {entry : Nat → Option Slot} {inside usable stops : Nat → Prop} [DecidablePred inside]
  [DecidablePred usable] [DecidablePred stops] {info : Nat → PartitionInfo}
  {describes : Nat → PartitionInfo → Prop} {n : Nat}

/-- The loop stays in its views and returns what `describes` says exactly when each entry it comes
to does: the entries before it lie in the table and fewer than `room` of them are usable. -/
theorem scanEntries_iff (hentry : ∀ k < n, (∀ j < k, inside j) → entry k =
      if inside k then some (if usable k then .found (info k) else .skip)
      else if stops k then some .stop else none)
    {left i room : Nat} (hn : i + left = n) (hi : ∀ j < i, inside j) :
    (∃ found, scanEntries entry left i room = some found ∧ ∀ x ∈ found, describes x.1 x.2) ↔
      ∀ k, i ≤ k → k < n → (List.range' i (k - i)).countP (fun j => usable j) < room →
        (∀ j < k, inside j) → if inside k then usable k → describes k (info k) else stops k := by
  induction left generalizing i room with
  | zero => exact iff_of_true ⟨[], rfl, by simp⟩ fun k hk hlt => by omega
  | succ left ih =>
    cases room with
    | zero => exact iff_of_true ⟨[], rfl, by simp⟩ fun k _ _ hroom => by omega
    | succ room =>
      have hcount : ∀ k, i + 1 ≤ k → (List.range' i (k - i)).countP usable =
          (List.range' (i + 1) (k - (i + 1))).countP usable +
            if usable i then 1 else 0 := by
        intro k hk
        obtain ⟨m, rfl⟩ : ∃ m, k = i + 1 + m := ⟨k - (i + 1), by omega⟩
        rw [show i + 1 + m - i = m + 1 by omega,
          List.range'_succ, List.countP_cons]
        simp
      -- The entry at `i`, and those behind it.
      have hfirst : ∀ {P : Nat → Prop},
          (∀ k, i ≤ k → k < n → P k) ↔ P i ∧ ∀ k, i + 1 ≤ k → k < n → P k := by
        refine ⟨fun h => ⟨h i le_rfl (by omega), fun k hk => h k (by omega)⟩, fun h k hk hlt => ?_⟩
        rcases eq_or_lt_of_le hk with rfl | hk
        exacts [h.1, h.2 k hk hlt]
      have hnone : (List.range' i (i - i)).countP usable < room + 1 := by simp
      rw [hfirst, scanEntries, hentry i (by omega) hi]
      by_cases hin : inside i
      · have hrest := fun room => @ih (i + 1) room (by omega) fun j hj =>
          (Nat.lt_succ_iff_lt_or_eq.1 hj).elim (hi j) fun h => h ▸ hin
        by_cases hu : usable i
        · have hfound : ∀ r : Option (List (Nat × PartitionInfo)),
              (∃ found, (r.bind fun rest => some ((i, info i) :: rest)) = some found ∧
                ∀ x ∈ found, describes x.1 x.2) ↔
              describes i (info i) ∧ ∃ rest, r = some rest ∧ ∀ x ∈ rest, describes x.1 x.2 := by
            rintro (_ | rest)
            · simp
            · simp only [Option.bind_some, Option.some.injEq, exists_eq_left', List.forall_mem_cons]
          simp only [if_pos hin, if_pos hu, Option.bind_eq_bind, Option.bind_some, Option.pure_def,
            hfound, hrest]
          refine and_congr ⟨fun h _ _ _ => h, fun h => h hnone hi hu⟩ (forall₂_congr fun k hk => ?_)
          rw [hcount k hk, if_pos hu, add_lt_add_iff_right]
        · simp only [if_pos hin, if_neg hu, Option.bind_eq_bind, Option.bind_some, hrest]
          refine (and_iff_right fun _ _ h => absurd h hu).symm.trans
            (and_congr_right fun _ => forall₂_congr fun k hk => ?_)
          simp only [hcount k hk, if_neg hu, add_zero]
      · simp only [if_neg hin]
        by_cases hs : stops i
        · rw [if_pos hs]
          exact iff_of_true ⟨[], rfl, by simp⟩
            ⟨fun _ _ => hs, fun k hk _ _ h => absurd (h i hk) hin⟩
        · rw [if_neg hs]
          exact iff_of_false (by simp) fun h => hs (h.1 hnone hi)

end Scanning

theorem faithful_ok {describes : Nat → PartitionInfo → Prop}
    {r : Option (List (Nat × PartitionInfo))} :
    Faithful describes (r.bind fun found => some (.ok found)) ↔
      ∃ found, r = some found ∧ ∀ x ∈ found, describes x.1 x.2 := by
  cases r <;> simp [Faithful]

/-! ## The boot sector -/

/-- An entry of the boot sector that is in use. -/
def MbrUsable (e : List UInt8) : Prop := e[4]? ≠ some 0x00 ∧ e[4]? ≠ some 0xEE ∧ field e 12 4 ≠ 0

instance (e : List UInt8) : Decidable (MbrUsable e) := by unfold MbrUsable; infer_instance

theorem mbrEntry_eq {sector0 : List UInt8} (hlength : 512 ≤ sector0.length) {k : Nat} (hk : k < 4) :
    mbrEntry sector0 k = let e := sector0.drop (446 + k * 16)
      some (if MbrUsable e then
        .found ⟨field e 8 4 * kSectorSize % 2 ^ 64, field e 12 4 * kSectorSize % 2 ^ 64⟩
      else .skip) := by
  have he : 16 ≤ (sector0.drop (446 + k * 16)).length := by rw [List.length_drop]; omega
  simp only [mbrEntry, subspan_eq (show 446 + k * 16 ≤ sector0.length by omega), MbrUsable,
    Option.bind_eq_bind, Option.bind_some]
  generalize sector0.drop (446 + k * 16) = e at he
  have htype : e[4]? = some e[4] := List.getElem?_eq_getElem (by omega)
  simp only [htype, subspan_eq (show 8 ≤ e.length by omega), Option.bind_some, Option.pure_def,
    readLe32_drop (show 8 + 4 ≤ e.length by omega), subspan_eq (show 12 ≤ e.length by omega),
    readLe32_drop (show 12 + 4 ≤ e.length by omega)]
  split_ifs <;> simp_all

theorem mbr_faithful (sector0 : List UInt8) (room : Nat) :
    Faithful (MbrDescribes sector0) (parseMbr sector0 room) := by
  unfold parseMbr
  split_ifs with hsignature
  · exact ⟨_, rfl, by simp⟩
  · have hlength : 512 ≤ sector0.length := by
      simp only [hasMbrSignature, Bool.not_eq_true', Bool.not_eq_false, Bool.and_eq_true,
        decide_eq_true_eq] at hsignature
      exact hsignature.1.1
    have hscan := @scanEntries_iff (mbrEntry sector0) (fun _ => True)
      (fun k => MbrUsable (sector0.drop (446 + k * 16))) (fun _ => True) _ _ _ _
      (MbrDescribes sector0) 4 (fun k hk _ => by rw [if_pos trivial, mbrEntry_eq hlength hk]) 4 0
      room rfl (by simp)
    refine faithful_ok.2 (hscan.2 fun k _ _ _ _ => ?_)
    refine fun _ => describes_iff.2 ?_
    have hstart := @field_lt (sector0.drop (446 + k * 16)) 8 4
    have hsectors := @field_lt (sector0.drop (446 + k * 16)) 12 4
    omega

/-! ## The GUID partition table -/

theorem gptEntry_eq {w : SizeT} {entries : ByteView w} {size k : Nat} (hsize : 128 ≤ size)
    (hw : size < w.modulus) (hk : k * size ≤ entries.bytes.length) : gptEntry entries size k =
      let e := entryBytes entries.bytes size k
      if (k + 1) * size ≤ entries.bytes.length then
        some (if Usable e then
          .found ⟨field e 32 8 * kSectorSize % 2 ^ 64,
            (field e 40 8 - field e 32 8 + 1) * kSectorSize % 2 ^ 64⟩ else .skip)
      else if (k + 1) * size < w.modulus then some .stop else none := by
  have hshort := entries.short
  have hnext : (k + 1) * size = k * size + size := Nat.succ_mul k size
  simp only [gptEntry, Nat.mod_eq_of_lt (hk.trans_lt hshort), ← hnext]
  by_cases hin : (k + 1) * size ≤ entries.bytes.length
  · have he : (entryBytes entries.bytes size k).length = size := by
      rw [entryBytes, List.length_take, List.length_drop]
      omega
    rw [if_pos hin, Nat.mod_eq_of_lt (by omega), if_neg (by omega), window, if_pos (by omega)]
    change (some (entryBytes entries.bytes size k)).bind _ = _
    generalize entryBytes entries.bytes size k = e at he
    simp only [anyNonzero_eq (show 0 + 16 ≤ e.length by omega), Option.bind_eq_bind,
      subspan_eq (show 32 ≤ e.length by omega), subspan_eq (show 40 ≤ e.length by omega),
      readLe64_drop (show 32 + 8 ≤ e.length by omega), Option.bind_some, Option.pure_def,
      readLe64_drop (show 40 + 8 ≤ e.length by omega), List.drop_zero, Usable]
    by_cases hused : (e.take 16).any (· ≠ 0) = true
    · by_cases horder : field e 40 8 < field e 32 8
      · simp only [hused, horder, not_le.2 horder, and_false, if_true, if_false, Bool.not_true,
          Bool.false_eq_true]
      · simp only [hused, horder, not_lt.1 horder, and_true, if_true, if_false, Bool.not_true,
          Bool.false_eq_true]
    · simp only [hused, Bool.false_eq_true, false_and, if_true, if_false, Bool.not_false]
  · rw [if_neg hin]
    by_cases hstop : (k + 1) * size < w.modulus
    · rw [if_pos hstop, Nat.mod_eq_of_lt hstop, if_pos (by omega)]
      rfl
    · have hwrap : (k + 1) * size % w.modulus = (k + 1) * size - w.modulus := by
        rw [Nat.mod_eq_sub_mod (by omega), Nat.mod_eq_of_lt (by omega)]
      rw [if_neg hstop, if_neg (by omega), window, if_neg (by omega)]
      rfl

theorem SizeT.le_modulus (w : SizeT) : 2 ^ 32 ≤ w.modulus := by
  cases w <;> decide

theorem describes_entry_iff {entries : List UInt8} {size k : Nat} {stops : Prop} :
    (let e := entryBytes entries size k
      if (k + 1) * size ≤ entries.length then
        Usable e → GptDescribes entries size k ⟨field e 32 8 * kSectorSize % 2 ^ 64,
          (field e 40 8 - field e 32 8 + 1) * kSectorSize % 2 ^ 64⟩
      else stops) ↔
      if (k + 1) * size ≤ entries.length then
        Usable (entryBytes entries size k) →
          (field (entryBytes entries size k) 40 8 + 1) * 512 < 2 ^ 64
      else stops := by
  by_cases hin : (k + 1) * size ≤ entries.length
  · simp only [GptDescribes, hin, true_and]
    refine imp_congr_right fun hused => ?_
    have horder := hused.2
    have hstop : field (entryBytes entries size k) 40 8 + 1 =
        field (entryBytes entries size k) 32 8 + (field (entryBytes entries size k) 40 8 -
          field (entryBytes entries size k) 32 8 + 1) := by omega
    rw [hstop]
    exact describes_iff
  · rw [if_neg hin, if_neg hin]

/-- The GPT is read as it is written just when it fits. -/
theorem gpt_faithful_iff {w : SizeT} (header : List UInt8) (entries : ByteView w) (room : Nat) :
    Faithful (GptDescribes entries.bytes (field header 84 4))
      (parseGptEntries header entries room) ↔
      GptFits header entries room := by
  unfold parseGptEntries GptFits
  by_cases hheader : header.length < 88 ∨ hasGptSignature header = false
  · have hbad : (decide (header.length < 88) || !hasGptSignature header) =
      true := by simpa using hheader
    rw [if_pos hbad]
    refine iff_of_true ⟨_, rfl, by simp⟩ fun hlength hsignature => ?_
    rcases hheader with h | h
    · omega
    · rw [h] at hsignature
      contradiction
  · obtain ⟨hlength, hsignature⟩ := not_or.1 hheader
    rw [Bool.not_eq_false] at hsignature
    have hgood : ¬ (decide (header.length < 88) || !hasGptSignature header) = true := by
      simp [hlength, hsignature]
    simp only [subspan_eq (show 80 ≤ header.length by omega), Option.bind_eq_bind, Option.bind_some,
      subspan_eq (show 84 ≤ header.length by omega), Option.pure_def,
      readLe32_drop (show 80 + 4 ≤ header.length by omega),
      readLe32_drop (show 84 + 4 ≤ header.length by omega)]
    have hsize32 := @field_lt header 84 4
    generalize field header 84 4 = size at hsize32
    generalize field header 80 4 = numEntries
    split_ifs with hsmall
    · exact iff_of_true ⟨_, rfl, by simp⟩ fun _ _ hsize => by omega
    · have hscan := @scanEntries_iff (gptEntry entries size)
        (fun k => (k + 1) * size ≤ entries.bytes.length)
        (fun k => Usable (entryBytes entries.bytes size k)) (fun k => (k + 1) * size < w.modulus)
        _ _ _ _ (GptDescribes entries.bytes size) numEntries (fun k _ hbefore => by
          apply gptEntry_eq (by omega) (hsize32.trans_le w.le_modulus)
          cases k with
          | zero => omega
          | succ k => exact hbefore k (by omega)) numEntries 0 room (by omega) (by simp)
      rw [faithful_ok, hscan]
      simp only [describes_entry_iff]
      exact ⟨fun h _ _ _ k hk => h k (Nat.zero_le k) hk,
        fun h k _ => h (by omega) hsignature (by omega) k⟩

/-! ## The main result -/

/-- The extents the parsers return are those of the entries on the disk, the parsers stay in their
views and requests stay in the extents, exactly when the GUID table's entries fit. -/
theorem partitions_confined_iff {w : SizeT} (sector0 header : List UInt8) (entries : ByteView w)
    (room : Nat) : (Faithful (MbrDescribes sector0) (parseMbr sector0 room) ∧
      Faithful (GptDescribes entries.bytes (field header 84 4))
        (parseGptEntries header entries room)) ↔ GptFits header entries room := by
  rw [and_iff_right (mbr_faithful sector0 room), gpt_faithful_iff]

theorem GptFits.first {w : SizeT} {header : List UInt8} {entries : ByteView w} {room : Nat}
    (h : GptFits header entries room) (hlength : 88 ≤ header.length)
    (hsignature : hasGptSignature header = true) (hsize : 128 ≤ field header 84 4)
    (hentries : 0 < field header 80 4) (hroom : 0 < room)
    (hin : field header 84 4 ≤ entries.bytes.length)
    (hused : Usable (entryBytes entries.bytes (field header 84 4) 0)) :
    (field (entryBytes entries.bytes (field header 84 4) 0) 40 8 + 1) * 512 < 2 ^ 64 := by
  have hfirst := h hlength hsignature hsize 0 hentries (by simpa using hroom) (by simp)
  rw [Nat.one_mul, if_pos hin] at hfirst
  exact hfirst hused

/-- A table of one entry, which begins at the first byte no 64-bit offset reaches. -/
def wrapHeader : List UInt8 :=
  [0x45, 0x46, 0x49, 0x20, 0x50, 0x41, 0x52, 0x54] ++ List.replicate 72 0 ++
    [1, 0, 0, 0, 128, 0, 0, 0]

def wrapEntries : ByteView .bits64 where
  bytes := List.replicate 16 1 ++ List.replicate 16 0 ++ leBytes 8 (2 ^ 55) ++ leBytes 8 (2 ^ 55) ++
    List.replicate 80 0
  short := by decide +kernel

theorem wrapped_entry_returned : ¬ Faithful (GptDescribes wrapEntries.bytes (field wrapHeader 84 4))
      (parseGptEntries wrapHeader wrapEntries 1) := by
  rw [gpt_faithful_iff]
  intro hfits
  have hfirst : 88 ≤ wrapHeader.length ∧ hasGptSignature wrapHeader = true ∧
      128 ≤ field wrapHeader 84 4 ∧ 0 < field wrapHeader 80 4 ∧
      field wrapHeader 84 4 ≤ wrapEntries.bytes.length ∧
      Usable (entryBytes wrapEntries.bytes (field wrapHeader 84 4) 0) := by decide +kernel
  obtain ⟨hlength, hsignature, hsize, hentries, hin, hused⟩ := hfirst
  have hstop := hfits.first hlength hsignature hsize hentries (by simp) hin hused
  revert hstop
  decide +kernel

end UnDOS.Disk
