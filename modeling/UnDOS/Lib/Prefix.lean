import UnDOS.Lib.ByteStore

/-!
# Stores That Are Filled from the Front

`HasPrefix m l`: the store begins with the bytes `l`.  Writing behind the prefix makes it longer
(`HasPrefix.append`), and a window of the store is a window of the list (`HasPrefix.readAt`).  A
table of words is the list of the bytes of its words (`wordBytes`).
-/

namespace UnDOS.Lib

/-- The store begins with the bytes `l`. -/
def HasPrefix (m : ByteStore) (l : List UInt8) : Prop := readAt m 0 l.length = l

/-- The little-endian bytes of a table of 32-bit words. -/
def wordBytes (ws : List Nat) : List UInt8 := ws.flatMap (leBytes 4)

@[simp] theorem wordBytes_length (ws : List Nat) : (wordBytes ws).length = 4 * ws.length := by
  induction ws with
  | nil => rfl
  | cons w ws ih =>
    have hcons : wordBytes (w :: ws) = leBytes 4 w ++ wordBytes ws := rfl
    rw [hcons, List.length_append, leBytes_length, List.length_cons]
    omega

theorem wordBytes_append (ws vs : List Nat) : wordBytes (ws ++ vs) = wordBytes ws ++ wordBytes vs :=
  List.flatMap_append

theorem wordBytes_drop_take {ws : List Nat} {i : Nat} (h : i < ws.length) (rest : List UInt8) :
    ((wordBytes ws ++ rest).drop (4 * i)).take 4 = leBytes 4 ws[i] := by
  have hsplit : ws = ws.take i ++ ws[i] :: ws.drop (i + 1) := by
    rw [← List.drop_eq_getElem_cons h, List.take_append_drop]
  have hlen : (wordBytes (ws.take i)).length = 4 * i := by
    rw [wordBytes_length, List.length_take, min_eq_left h.le]
  have hbytes : wordBytes ws ++ rest =
      wordBytes (ws.take i) ++ (leBytes 4 ws[i] ++ (wordBytes (ws.drop (i + 1)) ++ rest)) := by
    conv_lhs => rw [hsplit, wordBytes_append]
    rw [List.append_assoc]
    exact congrArg _ (List.append_assoc _ _ _)
  rw [hbytes, List.drop_left' hlen, List.take_left' (leBytes_length 4 _)]

namespace HasPrefix

variable {m : ByteStore} {l : List UInt8}

theorem nil (m : ByteStore) : HasPrefix m [] := rfl

/-- Writing behind the prefix. -/
theorem append (h : HasPrefix m l) (data : List UInt8) :
    HasPrefix (writeAt m l.length data) (l ++ data) := by
  unfold HasPrefix
  rw [List.length_append, readAt_add, zero_add,
    readAt_writeAt_of_disjoint (.inl (zero_add l.length).le), readAt_writeAt_self, h]

/-- A window of the store. -/
theorem readAt (h : HasPrefix m l) {k n : Nat} (hroom : k + n ≤ l.length) :
    readAt m k n = (l.drop k).take n := by
  have hwindow := readAt_drop_take m (o := 0) hroom
  rw [h, zero_add] at hwindow
  exact hwindow.symm

theorem byte (h : HasPrefix m l) {i : Nat} (hi : i < l.length) : m i = l[i] := by
  have hget := readAt_getD m (o := 0) hi
  rw [h, zero_add, List.getD_eq_getElem?_getD, List.getElem?_eq_getElem hi] at hget
  exact hget.symm

theorem word {ws : List Nat} {rest : List UInt8} (h : HasPrefix m (wordBytes ws ++ rest)) {i : Nat}
    (hi : i < ws.length) : wordAt m (4 * i) 4 = ws[i] % 2 ^ 32 := by
  have hroom : 4 * i + 4 ≤ (wordBytes ws ++ rest).length := by
    rw [List.length_append, wordBytes_length]
    omega
  unfold wordAt
  rw [h.readAt hroom, wordBytes_drop_take hi, leNat_leBytes]
  rfl

end HasPrefix

end UnDOS.Lib
