import UnDOS.Lib.Checked
import UnDOS.UserLoader.Link

/-!
# The user-mode loader: objects in their place

`Placed`: the segments of an object lie in user space, outside the loader, on pages that were mapped
for the object.  All that is read or written of a placed object goes through
`is_valid_virtual_range`, so that none of it can get stuck.
-/

namespace UnDOS.UserLoader

open UnDOS.Lib UnDOS.Lib.Outcome

/-! ## Segments in place -/

/-- A segment of object `index` is in place. -/
structure SegmentOk (sys : System) (owner : Nat → Option Nat) (index bias : Nat)
    (p : ProgramHeader) : Prop where
  low : userSpaceMinAddr ≤ p.vaddr + bias
  high : p.vaddr + p.memsz + bias ≤ userSpaceMaxAddr
  apart : p.vaddr + p.memsz + bias ≤ sys.loaderBegin ∨ sys.loaderEnd ≤ p.vaddr + bias
  mapped : ∀ a, p.vaddr + bias ≤ a → a < p.vaddr + p.memsz + bias →
    owner (a / pageSize) = some index

/-- The segments of object `index` are in place. -/
def Placed (sys : System) (owner : Nat → Option Nat) (index : Nat) (obj : LoadedObject) : Prop :=
  ∀ p ∈ obj.programHeaders, p.type = ptLoad → p.memsz ≠ 0 → SegmentOk sys owner index obj.bias p

/-- Pages keep the object they were mapped for. -/
def Extends (owner owner' : Nat → Option Nat) : Prop :=
  ∀ page index, owner page = some index → owner' page = some index

theorem Extends.refl (owner : Nat → Option Nat) : Extends owner owner := fun _ _ h => h

theorem Extends.trans {a b c : Nat → Option Nat} (hab : Extends a b) (hbc : Extends b c) :
    Extends a c := fun page index h => hbc page index (hab page index h)

variable {sys : System} {index size : Nat} {obj : LoadedObject}

theorem SegmentOk.extends {owner owner' : Nat → Option Nat} {bias : Nat}
    {p : ProgramHeader} (h : SegmentOk sys owner index bias p) (hext : Extends owner owner') :
    SegmentOk sys owner' index bias p :=
  ⟨h.low, h.high, h.apart, fun a hlow hhigh => hext _ _ (h.mapped a hlow hhigh)⟩

theorem Placed.extends {owner owner' : Nat → Option Nat}
    (h : Placed sys owner index obj) (hext : Extends owner owner') : Placed sys owner' index obj :=
  fun p hp hload hsize => (h p hp hload hsize).extends hext

theorem Placed.congr {owner : Nat → Option Nat}
    {obj' : LoadedObject} (h : Placed sys owner index obj)
    (hheaders : obj'.programHeaders = obj.programHeaders) (hbias : obj'.bias = obj.bias) :
    Placed sys owner index obj' := by
  intro p hp
  rw [hbias]
  exact h p (hheaders ▸ hp)

theorem SegmentOk.mayWrite {s : State}
    {p : ProgramHeader} (h : SegmentOk sys s.owner index obj.bias p) (hp : p ∈ obj.programHeaders)
    (hload : p.type = ptLoad) {addr : Nat} (hlow : p.vaddr + obj.bias ≤ addr)
    (hhigh : addr + size ≤ p.vaddr + p.memsz + obj.bias) : mayWrite sys s index obj addr size := by
  by_cases hsize : size = 0
  · simp [UserLoader.mayWrite, hsize]
  have hholds : obj.holds addr size := by
    rw [LoadedObject.holds, List.any_eq_true]
    exact ⟨p, hp, by simp [hload, hlow, hhigh]⟩
  have hmapped : s.mappedFor index addr size := by
    rw [State.mappedFor, List.all_eq_true]
    intro n hn
    have hn := List.mem_range.1 hn
    rw [h.mapped (addr + n) (by omega) (by omega)]
    simp
  have hspace : userSpaceMinAddr ≤ addr ∧ addr + size ≤ userSpaceMaxAddr ∧
      (addr + size ≤ sys.loaderBegin ∨ sys.loaderEnd ≤ addr) := by
    have hmin := h.low
    have hmax := h.high
    have hapart := h.apart
    omega
  simp [UserLoader.mayWrite, hholds, hmapped, hspace]

theorem mayRead_of_mayWrite {s : State}
    {addr : Nat} (h : mayWrite sys s index obj addr size) : mayRead s index obj addr size := by
  rw [mayWrite, Bool.or_eq_true] at h
  rw [mayRead, Bool.or_eq_true]
  exact h.imp id fun h => (Bool.and_eq_true_iff.1 h).1

/-! ## Checked ranges -/

theorem Placed.mayWrite {s : State}
    (h : Placed sys s.owner index obj) {vaddr : Nat} (hvalid : isValidVirtualRange obj vaddr size)
    {off len : Nat} (hlen : off + len ≤ size) :
    UserLoader.mayWrite sys s index obj (vaddr + obj.bias + off) len := by
  rw [isValidVirtualRange, Bool.and_eq_true, List.any_eq_true] at hvalid
  obtain ⟨-, p, hp, hin⟩ := hvalid
  simp only [Bool.and_eq_true, beq_iff_eq, decide_eq_true_eq] at hin
  obtain ⟨hload, hlow, hsize, hrest⟩ := hin
  by_cases hzero : p.memsz = 0
  · -- A segment without memory has only the empty range.
    obtain rfl : len = 0 := by omega
    simp [UserLoader.mayWrite]
  · exact (h p hp hload hzero).mayWrite hp hload (by omega) (by omega)

theorem Placed.mayRead {s : State}
    (h : Placed sys s.owner index obj) {vaddr : Nat} (hvalid : isValidVirtualRange obj vaddr size)
    {off len : Nat} (hlen : off + len ≤ size) :
    UserLoader.mayRead s index obj (vaddr + obj.bias + off) len :=
  mayRead_of_mayWrite (h.mayWrite hvalid hlen)

section Reads

variable {sys : System} {s : State} {index : Nat} {obj : LoadedObject}

theorem readBytes_safe {addr size : Nat} (h : mayRead s index obj addr size) :
    Safe (readBytes s index obj addr size) fun bytes => bytes.length = size := by
  rw [readBytes, if_pos h]
  exact readAt_length _ _ _

theorem readWord_safe {addr : Nat} (h : mayRead s index obj addr 4) :
    Safe (readWord s index obj addr) fun _ => True :=
  (readBytes_safe h).bind fun _ _ => Safe.ok trivial

theorem resolve_safe (vaddr size : Nat) :
    Safe (resolveVirtualToHostAddress obj vaddr size) fun host =>
      host = vaddr + obj.bias ∧ isValidVirtualRange obj vaddr size :=
  Safe.ensure fun h => Safe.ok ⟨rfl, h.1⟩

theorem resolveTable_safe (vaddr count elemSize : Nat) :
    Safe (resolveTableAddress obj vaddr count elemSize) fun host =>
      host = vaddr + obj.bias ∧ isValidVirtualRange obj vaddr (count * elemSize) :=
  Safe.ensure fun _ => resolve_safe vaddr (count * elemSize)

theorem scanString_safe {addr limit : Nat}
    (h : ∀ off len, off + len ≤ limit → mayRead s index obj (addr + off) len) :
    Safe (scanString s index obj addr limit) fun _ => True := by
  induction limit generalizing addr with
  | zero => exact Safe.err
  | succ limit ih =>
    have hfirst : mayRead s index obj addr 1 := h 0 1 (by omega)
    refine (readBytes_safe hfirst).bind fun bytes _ => Safe.ite (fun _ => Safe.ok trivial)
      fun _ => ?_
    refine (ih fun off len hlen => ?_).bind fun _ _ => Safe.ok trivial
    have := h (1 + off) len (by omega)
    rwa [← add_assoc] at this

theorem getStringAt_safe (h : Placed sys s.owner index obj) (offset : Nat) :
    Safe (getStringAt s index obj offset) fun _ => True := by
  refine Safe.ensure fun _ => (resolve_safe _ _).bind fun host hhost => ?_
  obtain ⟨rfl, hvalid⟩ := hhost
  exact scanString_safe fun off len hlen => h.mayRead hvalid hlen

theorem getSymbolAt_safe (h : Placed sys s.owner index obj) (symIndex : Nat) :
    Safe (getSymbolAt s index obj symIndex) fun _ => True := by
  refine Safe.ensure fun _ => (resolveTable_safe _ _ _).bind fun host hhost => ?_
  obtain ⟨rfl, hvalid⟩ := hhost
  have hmay : mayRead s index obj (_ + obj.bias + 0) symbolSize := h.mayRead hvalid (by omega)
  exact (readBytes_safe hmay).bind fun _ _ => Safe.ok trivial

end Reads

end UnDOS.UserLoader
