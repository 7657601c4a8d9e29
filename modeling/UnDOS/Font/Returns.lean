import UnDOS.Font.Resource

/-!
# The Validation Returns

`validate` comes to an end on all bytes: its loops are counted, and the visit of a component graph
is cut off at a depth.
-/

namespace UnDOS.Font

open UnDOS.Lib UnDOS.Lib.Outcome

/-- The routine returns a value or an error. -/
def Returns {α : Type} (x : Outcome Error α) : Prop := x ≠ .stuck

namespace Returns

variable {α β : Type} {x : Outcome Error α} {f : α → Outcome Error β}

theorem pure (a : α) : Returns (Pure.pure a : Outcome Error α) := fun h => by cases h

theorem bind (hx : Returns x) (hf : ∀ a, Returns (f a)) : Returns (x >>= f) := by
  cases x with
  | ok a => exact hf a
  | err e => exact fun h => by cases h
  | stuck => exact absurd rfl hx

theorem ensure {c : Prop} [Decidable c] {e : Error} : Returns (Outcome.ensure c e) := by
  unfold Outcome.ensure
  split <;> exact fun h => by cases h

theorem check {c : Prop} [Decidable c] {e : Error} {f : Unit → Outcome Error β}
    (hf : Returns (f ())) :
    Returns (Outcome.ensure c e >>= f) := bind ensure fun _ => hf

theorem forRange {n : Nat} {body : Nat → α → Outcome Error α} {s : α}
    (hbody : ∀ i t, Returns (body i t)) : Returns (Outcome.forRange n body s) := by
  induction n with
  | zero => exact pure s
  | succ n ih => exact bind ih fun t => hbody n t

theorem checks {n : Nat} {c : Nat → Prop} [∀ i, Decidable (c i)] {e : Error}
    {f : Unit → Outcome Error β} (hf : Returns (f ())) :
    Returns (Outcome.forRange n (fun i _ => Outcome.ensure (c i) e) () >>= f) :=
  bind (forRange fun _ _ => ensure) fun _ => hf

end Returns

/-! ## The parts -/

theorem visit_returns (b : Bytes) (left : Nat) (path : List Nat) (work id : Nat) :
    Returns (visit b left path work id) := by
  induction left generalizing path work id with
  | zero => exact fun h => by cases h
  | succ left ih =>
    refine .check (.check (.forRange fun i s => ?_))
    exact .bind (ih _ _ _) fun _ => .check (.check (.pure _))

theorem checkHeader_returns (b : Bytes) : Returns (checkHeader b) :=
  .check (.check (.check (.check (.forRange fun _ _ => .ensure))))

theorem checkEntry_returns (b : Bytes) (i next : Nat) : Returns (checkEntry b i next) :=
  .check (.check (.checks (.pure _)))

theorem checkSections_returns (b : Bytes) : Returns (checkSections b) :=
  .check (.check (.check (.checks (.check (.checks .ensure)))))

theorem checkRecord_returns (b : Bytes) (g : ByteStore) (used : Used) :
    Returns (checkRecord b g used) :=
  .check (.checks (.check (.check (.check (.check (.check .ensure))))))

theorem checkPoints_returns (b : Bytes) (g : ByteStore) : Returns (checkPoints b g) :=
  .forRange fun _ _ => .ensure

theorem checkContours_returns (b : Bytes) (g : ByteStore) : Returns (checkContours b g) :=
  .bind (.forRange fun _ _ => .check (.pure _)) fun _ => .ensure

theorem checkComponent_returns (b : Bytes) (c : ByteStore) (i count programSize : Nat) :
    Returns (checkComponent b c i count programSize) :=
  .check (.check (.check (.checks (.check (.check (.check (.check .ensure)))))))

theorem checkGlyph_returns (b : Bytes) (id : Nat) (used : Used) : Returns (checkGlyph b id used) :=
  .bind (checkRecord_returns _ _ _) fun _ => .bind (checkPoints_returns _ _) fun _ =>
    .bind (checkContours_returns _ _) fun _ =>
      .bind (.forRange fun _ _ => checkComponent_returns _ _ _ _ _) fun _ => .pure _

theorem checkMapping_returns (b : Bytes) (i last : Nat) : Returns (checkMapping b i last) :=
  .check (.pure _)

theorem checkGraph_returns (b : Bytes) (id work : Nat) : Returns (checkGraph b id work) :=
  .bind (visit_returns _ _ _ _ _) fun _ => .check (.pure _)

theorem validate_returns (b : Bytes) : Returns (validate b) := by
  refine .check (.bind (checkHeader_returns b) fun _ => ?_)
  refine .bind (.forRange fun i t => checkEntry_returns b i t) fun _ => .check ?_
  refine .bind (checkSections_returns b) fun _ => ?_
  refine .bind (.forRange fun i t => checkGlyph_returns b i t) fun used => ?_
  refine .bind Returns.ensure fun _ => .check ?_
  refine .bind (.forRange fun i t => checkMapping_returns b i t) fun _ => ?_
  exact .bind (.forRange fun i t => checkGraph_returns b i t) fun _ => .pure _

end UnDOS.Font
