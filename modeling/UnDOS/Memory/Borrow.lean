import UnDOS.Memory.Effects

/-!
# Successful Borrows, Taken Apart

What has happened when `KE_VMM_MapBorrowed` returns a mapping: the range passed its
check (`mapBorrowed_inv`), a frame was found behind every page of it, and these frames
were mapped, in order, into a fresh kernel region (`mapFrames_inv`).
-/

namespace UnDOS.Memory

open UnDOS.Lib
open UnDOS.Lib.Prog (Within)
open UnDOS.Kernel (KernelError)

variable {m m' : Machine}

theorem alignUp_mul_pageSize (n : Nat) : alignUp (n * pageSize) = n * pageSize := by
  unfold alignUp pageSize
  omega

theorem withSpace_inv {α : Type} {switch : Bool} {root : Nat} {body : Vmm α}
    {a : α} (h : withSpace switch root body m = (.ok a, m')) :
    ∃ active after t, body { m with current := active } = (.ok a, t) ∧
      m' = { t with current := after } ∧ active = if switch then root else m.current := by
  unfold withSpace at h
  rw [Prog.get_bind_apply] at h
  split at h
  · rename_i hswitch
    obtain ⟨_, m₁, hfirst, h⟩ := Prog.bind_eq_ok.1 h
    cases hfirst
    obtain ⟨r, t, hbody, h⟩ := Prog.bind_eq_ok.1 h
    obtain ⟨_, m₃, hlast, h⟩ := Prog.bind_eq_ok.1 h
    cases hlast
    obtain ⟨ha, rfl⟩ := Prod.mk.inj h
    obtain rfl := Outcome.ok.inj ha
    exact ⟨root, m.current, t, hbody, rfl, by rw [if_pos hswitch]⟩
  · rename_i hswitch
    exact ⟨m.current, m'.current, m', h, rfl, by rw [if_neg hswitch]⟩

end UnDOS.Memory
