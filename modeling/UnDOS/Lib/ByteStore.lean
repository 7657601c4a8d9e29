import Mathlib.Data.List.Basic
import Mathlib.Tactic.Ring

/-!
# Byte Stores and Little-Endian Words

A byte store is a total map from addresses to bytes.  Integers live in a store as little-endian
byte strings.
-/

namespace UnDOS.Lib

/-! ## Little-endian integers -/

/-- The `n` little-endian bytes of `v`, i.e. of `v % 256 ^ n`. -/
def leBytes : Nat → Nat → List UInt8
  | 0, _ => []
  | n + 1, v => UInt8.ofNat v :: leBytes n (v / 256)

/-- The number a little-endian byte string stands for. -/
def leNat : List UInt8 → Nat
  | [] => 0
  | b :: bs => b.toNat + 256 * leNat bs

@[simp] theorem leBytes_length (n v : Nat) : (leBytes n v).length = n := by
  induction n generalizing v with
  | zero => rfl
  | succ n ih => simp [leBytes, ih]

variable {n k off o i : Nat} {m : ByteStore} {data : List UInt8}

@[simp] theorem leBytes_take_of_le (v : Nat) (h : n ≤ k) : (leBytes n v).take k = leBytes n v :=
  List.take_of_length_le (by simpa using h)

@[simp] theorem leBytes_drop_of_le (v : Nat) (h : n ≤ k) : (leBytes n v).drop k = [] :=
  List.drop_eq_nil_of_le (by simpa using h)

theorem leNat_leBytes (n v : Nat) : leNat (leBytes n v) = v % 256 ^ n := by
  induction n generalizing v with
  | zero => simp [leBytes, leNat, Nat.mod_one]
  | succ n ih =>
    have hbyte : (UInt8.ofNat v).toNat = v % 256 := by simp
    simp only [leBytes, leNat, ih, hbyte]
    rw [pow_succ, mul_comm (256 ^ n) 256, Nat.mod_mul]

theorem leNat_leBytes_of_lt {v : Nat} (h : v < 256 ^ n) : leNat (leBytes n v) = v := by
  rw [leNat_leBytes, Nat.mod_eq_of_lt h]

theorem leNat_lt (bs : List UInt8) : leNat bs < 256 ^ bs.length := by
  induction bs with
  | nil => simp [leNat]
  | cons b bs ih =>
    have hb : b.toNat < 256 := b.toNat_lt
    simp only [leNat, List.length_cons]
    omega

/-! ## Stores -/

/-- A total map from addresses to bytes. -/
abbrev ByteStore := Nat → UInt8

/-- The `n` bytes at `off`. -/
def readAt (m : ByteStore) : Nat → Nat → List UInt8
  | _, 0 => []
  | off, n + 1 => m off :: readAt m (off + 1) n

/-- The store after `data` was written at `off`. -/
def writeAt (m : ByteStore) (off : Nat) (data : List UInt8) : ByteStore := fun i =>
  if off ≤ i ∧ i < off + data.length then data.getD (i - off) 0 else m i

/-- The little-endian number in the `n` bytes at `off`. -/
def wordAt (m : ByteStore) (off n : Nat) : Nat := leNat (readAt m off n)

@[simp] theorem readAt_length (m : ByteStore) (off n : Nat) : (readAt m off n).length = n := by
  induction n generalizing off with
  | zero => rfl
  | succ n ih => simp [readAt, ih]

theorem wordAt_lt (m : ByteStore) (off n : Nat) : wordAt m off n < 256 ^ n := by
  have h := leNat_lt (readAt m off n)
  rwa [readAt_length] at h

theorem readAt_congr {m' : ByteStore} {off' : Nat}
    (h : ∀ i, i < n → m (off + i) = m' (off' + i)) : readAt m off n = readAt m' off' n := by
  induction n generalizing off off' with
  | zero => rfl
  | succ n ih =>
    have hhead : m off = m' off' := h 0 (Nat.succ_pos n)
    have htail : readAt m (off + 1) n = readAt m' (off' + 1) n := by
      apply ih
      intro i hi
      have hnext := h (i + 1) (by omega)
      rw [show off + 1 + i = off + (i + 1) by omega, show off' + 1 + i = off' + (i + 1) by omega]
      exact hnext
    simp only [readAt, hhead, htail]

theorem readAt_getD (m : ByteStore) (h : i < n) : (readAt m o n).getD i 0 = m (o + i) := by
  induction n generalizing o i with
  | zero => omega
  | succ n ih =>
    cases i with
    | zero => simp [readAt]
    | succ i =>
      have hrec := ih (o := o + 1) (i := i) (by omega)
      simp only [readAt, List.getD_cons_succ, hrec]
      congr 1
      omega

theorem readAt_add (m : ByteStore) (off a b : Nat) :
    readAt m off (a + b) = readAt m off a ++ readAt m (off + a) b := by
  induction a generalizing off with
  | zero => simp [readAt]
  | succ a ih =>
    rw [show a + 1 + b = (a + b) + 1 by omega]
    simp only [readAt, ih, List.cons_append]
    rw [show off + 1 + a = off + (a + 1) by omega]

theorem readAt_drop_take (m : ByteStore) {j : Nat} (h : k + j ≤ n) :
    ((readAt m o n).drop k).take j = readAt m (o + k) j := by
  obtain ⟨r, rfl⟩ : ∃ r, n = k + (j + r) := ⟨n - k - j, by omega⟩
  rw [readAt_add m o k, readAt_add m (o + k) j]
  rw [List.drop_left' (readAt_length m o k), List.take_left' (readAt_length m (o + k) j)]

/-! ## Frame lemmas -/

theorem writeAt_of_lt (h : i < off) : writeAt m off data i = m i := by
  unfold writeAt
  rw [if_neg (by omega)]

theorem writeAt_of_ge (h : off + data.length ≤ i) : writeAt m off data i = m i := by
  unfold writeAt
  rw [if_neg (by omega)]

theorem writeAt_inside (h : i < data.length) : writeAt m off data (off + i) = data.getD i 0 := by
  unfold writeAt
  rw [if_pos (by omega), Nat.add_sub_cancel_left]

@[simp] theorem writeAt_nil (m : ByteStore) (off : Nat) : writeAt m off [] = m := by
  funext i
  unfold writeAt
  rw [if_neg (by simp)]

theorem readAt_writeAt_of_disjoint {woff : Nat} (h : off + n ≤ woff ∨ woff + data.length ≤ off) :
    readAt (writeAt m woff data) off n = readAt m off n := by
  apply readAt_congr
  intro i hi
  rcases h with hbelow | habove
  · exact writeAt_of_lt (by omega)
  · exact writeAt_of_ge (by omega)

/-- A window that lies inside the written bytes reads the matching slice of them. -/
theorem readAt_writeAt_window {d : List UInt8} (h : k + n ≤ d.length) :
    readAt (writeAt m o d) (o + k) n = (d.drop k).take n := by
  induction n generalizing k with
  | zero => simp [readAt]
  | succ n ih =>
    have hk : k < d.length := by omega
    have hhead : writeAt m o d (o + k) = d[k] := by
      rw [writeAt_inside hk]
      simp [hk]
    have htail := ih (k := k + 1) (by omega)
    simp only [readAt, hhead]
    rw [show o + k + 1 = o + (k + 1) by omega, htail,
      List.drop_eq_getElem_cons hk, List.take_succ_cons]

theorem readAt_writeAt_self (m : ByteStore) (off : Nat) (data : List UInt8) :
    readAt (writeAt m off data) off data.length = data := by
  have h := readAt_writeAt_window (m := m) (o := off) (k := 0) (n := data.length)
    (d := data) (by omega)
  simpa using h

theorem wordAt_writeAt_of_disjoint {woff : Nat} (h : off + n ≤ woff ∨ woff + data.length ≤ off) :
    wordAt (writeAt m woff data) off n = wordAt m off n := by
  unfold wordAt
  rw [readAt_writeAt_of_disjoint h]

theorem wordAt_writeAt_self {v : Nat} :
    wordAt (writeAt m off (leBytes n v)) off n = v % 256 ^ n := by
  have h := readAt_writeAt_self m off (leBytes n v)
  rw [leBytes_length] at h
  rw [wordAt, h, leNat_leBytes]

end UnDOS.Lib
