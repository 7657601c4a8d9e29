import Mathlib.Data.List.Induction
import UnDOS.Lib.ByteStore

/-!
# Sequences of Word Writes

A sequence of 32-bit writes to one byte store.  Two facts carry every argument
about such a sequence: a word that no write touches keeps its value, and a word
that every overlapping write sets to the same value has that value at the end.
-/

namespace UnDOS.Lib

/-- A 32-bit write: an offset and a value. -/
structure WordWrite where
  offset : Nat
  value : Nat
deriving DecidableEq

namespace WordWrite

/-- The bytes of the write and the word at `off` have nothing in common. -/
def Avoids (w : WordWrite) (off : Nat) : Prop := w.offset + 4 ≤ off ∨ off + 4 ≤ w.offset

/-- The store after one write. -/
def apply (m : ByteStore) (w : WordWrite) : ByteStore := writeAt m w.offset (leBytes 4 w.value)

/-- The store after a sequence of writes. -/
def applyAll (m : ByteStore) (ws : List WordWrite) : ByteStore := ws.foldl apply m

theorem applyAll_append (m : ByteStore) (ws vs : List WordWrite) :
    applyAll m (ws ++ vs) = applyAll (applyAll m ws) vs := List.foldl_append

theorem wordAt_apply_of_avoids {m : ByteStore} {w : WordWrite} {off : Nat} (h : w.Avoids off) :
    wordAt (apply m w) off 4 = wordAt m off 4 := by
  apply wordAt_writeAt_of_disjoint
  exact h.symm

theorem wordAt_apply_self (m : ByteStore) (w : WordWrite) :
    wordAt (apply m w) w.offset 4 = w.value % 2 ^ 32 := wordAt_writeAt_self

theorem wordAt_applyAll_of_avoids {m : ByteStore} {ws : List WordWrite} {off : Nat}
    (h : ∀ w ∈ ws, w.Avoids off) : wordAt (applyAll m ws) off 4 = wordAt m off 4 := by
  induction ws generalizing m with
  | nil => rfl
  | cons w ws ih =>
    have htail := ih (m := apply m w) fun v hv => h v (by simp [hv])
    exact htail.trans (wordAt_apply_of_avoids (h w (by simp)))

theorem wordAt_applyAll_of_mem {m : ByteStore} {ws : List WordWrite} {w : WordWrite}
    (hw : w ∈ ws) (h : ∀ v ∈ ws, v.Avoids w.offset ∨ v = w) :
    wordAt (applyAll m ws) w.offset 4 = w.value % 2 ^ 32 := by
  -- Induction from the last write: it either is `w` or leaves the word alone.
  induction ws using List.reverseRecOn with
  | nil => simp at hw
  | append_singleton ws v ih =>
    rw [applyAll_append]
    show wordAt (apply (applyAll m ws) v) w.offset 4 = _
    rcases h v (by simp) with havoid | rfl
    · rw [wordAt_apply_of_avoids havoid]
      apply ih
      · rcases List.mem_append.mp hw with hold | hnew
        · exact hold
        · -- A write does not avoid its own word.
          rw [List.mem_singleton.mp hnew] at havoid
          rcases havoid with h1 | h1 <;> omega
      · exact fun u hu => h u (by simp [hu])
    · exact wordAt_apply_self _ v

end WordWrite

end UnDOS.Lib
