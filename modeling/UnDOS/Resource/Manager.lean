import UnDOS.Lib.Run
import UnDOS.Resource.Arbiter

/-!
# The Resource Manager

`resource_manager.cpp`: the grants of all devices, `KE_RES_AssignResources` and
`KE_RES_ReleaseResources`.

Whether an allocation succeeds is not the manager's choice: a call takes a function that
says it for each of its allocations.
-/

namespace UnDOS.Resource

open UnDOS.Lib
open UnDOS.Kernel (KernelError)

/-! ## Grants -/

/-- `ResourceAssignment`. -/
structure ResourceAssignment where
  device : Nat
  granted : List CmPartialResourceDescriptor
deriving DecidableEq

/-- `s_assignments`. -/
abbrev Assignments := List ResourceAssignment

/-- `FindAssignment`, and with its grant `KE_RES_GetAssignedResources`. -/
def findAssignment (s : Assignments) (device : Nat) : Option ResourceAssignment :=
  s.find? fun a => a.device == device

def getAssignedResources (s : Assignments) (device : Nat) :
    Option (List CmPartialResourceDescriptor) :=
  (findAssignment s device).map ResourceAssignment.granted

/-- `KE_RES_ReleaseResources` for a device that is not null. -/
def dropAssignment (s : Assignments) (device : Nat) : Assignments :=
  s.eraseP fun a => a.device == device

/-- `KE_RES_ReleaseResources`. -/
def releaseResources (s : Assignments) : Option Nat → Assignments
  | none => s
  | some device => dropAssignment s device

/-- The temporary copy of every grant. -/
def reservedSet (s : Assignments) : List CmPartialResourceDescriptor :=
  s.flatMap ResourceAssignment.granted

/-- `KE_RES_AssignResources` for a device that holds nothing. -/
def reserveFor (s : Assignments) (device : Nat) (requirements : List IoResourceList)
    (alloc : Nat → Bool) : Except KernelError Unit × Assignments :=
  if !alloc 0 then (.error .outOfMemory, s)
  else match requirements with
    | [] => (.ok (), s ++ [⟨device, []⟩])
    | alt :: _ =>
      let copies := (reservedSet s).length
      if !(List.range copies).all fun n => alloc (n + 1) then (.error .outOfMemory, s)
      else match tryReserveAlternative alt (reservedSet s) fun n => alloc (n + 1 + copies) with
        | .error e => (.error e, s)
        | .ok granted => (.ok (), s ++ [⟨device, granted⟩])

/-- `KE_RES_AssignResources`.  A null list of requirements is an empty one. -/
def assignResources (s : Assignments) (device : Option Nat) (requirements : List IoResourceList)
    (alloc : Nat → Bool) : Except KernelError Unit × Assignments :=
  match device with
  | none => (.error .invalidArgument, s)
  | some device => reserveFor (dropAssignment s device) device requirements alloc

/-! ## Calls -/

/-- The calls that change the grants. -/
inductive Call where
  | assign (device : Option Nat) (requirements : List IoResourceList) (alloc : Nat → Bool)
  | release (device : Option Nat)

/-- What a call returns and leaves. -/
def call (s : Assignments) : Call → Except KernelError Unit × Assignments
  | .assign device requirements alloc => assignResources s device requirements alloc
  | .release device => (.ok (), releaseResources s device)

def Step (s : Assignments) (c : Call) (s' : Assignments) : Prop := s' = (call s c).2

/-- Two grants share no address, unless both may be shared or they are of different types. -/
def Compatible (x y : CmPartialResourceDescriptor) : Prop :=
  x.type = y.type → ¬(x.share = .shared ∧ y.share = .shared) → Disjoint x.addresses y.addresses

/-- No resource is granted to two devices. -/
def Exclusive (s : Assignments) : Prop :=
  ∀ a ∈ s, ∀ b ∈ s, a.device ≠ b.device → ∀ x ∈ a.granted, ∀ y ∈ b.granted, Compatible x y

/-- The call leaves every grant as it was if it fails for want of resources or memory. -/
def FailsQuietly (s : Assignments) (c : Call) : Prop :=
  (call s c).1 = .error .resourceConflict ∨ (call s c).1 = .error .outOfMemory →
    ∀ device, getAssignedResources (call s c).2 device = getAssignedResources s device

/-- What is asked for ends in the address space; a device that already holds a grant asks for
what is free, and no allocation fails. -/
def Careful (s : Assignments) : Call → Prop
  | .assign (some device) requirements alloc =>
    (∀ desc ∈ requirements.head?.getD [], desc.Fits) ∧
      (findAssignment s device = none ∨
        (∀ n, alloc n = true) ∧ ∀ desc ∈ requirements.head?.getD [],
          conflictsWithReserved desc (reservedSet (dropAssignment s device)) = false)
  | _ => True

/-! ## The invariant -/

/-- Grants end in the address space, and no resource is granted twice. -/
structure Inv (s : Assignments) : Prop where
  fits : ∀ a ∈ s, ∀ x ∈ a.granted, x.Fits
  exclusive : Exclusive s

theorem Compatible.symm {x y : CmPartialResourceDescriptor} (h : Compatible x y) :
    Compatible y x := by
  intro htype hshare
  exact (h htype.symm fun ⟨hx, hy⟩ => hshare ⟨hy, hx⟩).symm

variable {s : Assignments} {alloc : Nat → Bool} {requirements : List IoResourceList}

theorem Inv.drop (h : Inv s) (device : Nat) : Inv (dropAssignment s device) where
  fits := fun a ha => h.fits a (List.mem_of_mem_eraseP ha)
  exclusive := fun a ha b hb =>
    h.exclusive a (List.mem_of_mem_eraseP ha) b (List.mem_of_mem_eraseP hb)

theorem Inv.push (h : Inv s) {new : ResourceAssignment} (hfits : ∀ x ∈ new.granted, x.Fits)
    (hnew : ∀ x ∈ new.granted, ∀ a ∈ s, ∀ y ∈ a.granted, Compatible x y) : Inv (s ++ [new]) where
  fits := by
    intro a ha
    rcases List.mem_append.1 ha with hold | hlast
    · exact h.fits a hold
    · rw [List.mem_singleton.1 hlast]
      exact hfits
  exclusive := by
    intro a ha b hb hdevice x hx y hy
    rcases List.mem_append.1 ha with holdA | hlastA <;>
      rcases List.mem_append.1 hb with holdB | hlastB
    · exact h.exclusive a holdA b holdB hdevice x hx y hy
    · cases List.mem_singleton.1 hlastB
      exact (hnew y hy a holdA x hx).symm
    · cases List.mem_singleton.1 hlastA
      exact hnew x hx b holdB y hy
    · rw [List.mem_singleton.1 hlastA, List.mem_singleton.1 hlastB] at hdevice
      exact absurd rfl hdevice

theorem tryReserveAlternative_ok {alt : IoResourceList}
    {reserved granted : List CmPartialResourceDescriptor}
    (h : tryReserveAlternative alt reserved alloc = .ok granted) : granted = alt.map grantFor ∧
      ∀ desc ∈ alt, ∀ r ∈ reserved, conflictsWith desc r = false := by
  unfold tryReserveAlternative at h
  by_cases hconflict : alt.any (conflictsWithReserved · reserved) = true
  · rw [if_pos hconflict] at h
    cases h
  rw [if_neg hconflict] at h
  split at h
  · refine ⟨(Except.ok.inj h).symm, ?_⟩
    intro desc hdesc r hr
    simp only [conflictsWithReserved, List.any_eq_true, not_exists, not_and,
      Bool.not_eq_true] at hconflict
    exact hconflict desc hdesc r hr
  · cases h

/-- A new grant is apart from all that is reserved; a request that fails adds nothing. -/
theorem Inv.reserve (h : Inv s) (device : Nat) (alloc : Nat → Bool)
    (hfits : ∀ desc ∈ requirements.head?.getD [], desc.Fits) :
    Inv (reserveFor s device requirements alloc).2 := by
  unfold reserveFor
  split
  · exact h
  · rcases requirements with _ | ⟨alt, rest⟩
    · exact h.push (fun x hx => absurd hx (List.not_mem_nil)) (fun x hx =>
        absurd hx (List.not_mem_nil))
    dsimp only
    split
    · exact h
    · split
      · exact h
      · rename_i granted hgranted
        obtain ⟨rfl, hfree⟩ := tryReserveAlternative_ok hgranted
        apply h.push
        · intro x hx
          obtain ⟨desc, hdesc, rfl⟩ := List.mem_map.1 hx
          exact grantFor_fits (hfits desc hdesc)
        · intro x hx a ha y hy
          obtain ⟨desc, hdesc, rfl⟩ := List.mem_map.1 hx
          have hy' : y ∈ reservedSet s := List.mem_flatMap.2 ⟨a, ha, hy⟩
          intro htype hshare
          exact disjoint_of_not_conflict (hfits desc hdesc) (h.fits a ha y hy)
            (hfree desc hdesc y hy') htype.symm hshare

theorem reserveFor_error {device : Nat} {e : KernelError}
    (h : (reserveFor s device requirements alloc).1 = .error e) :
    (reserveFor s device requirements alloc).2 = s := by
  unfold reserveFor at h ⊢
  split
  · rfl
  · rename_i hmemory
    rw [if_neg hmemory] at h
    rcases requirements with _ | ⟨alt, rest⟩
    · cases h
    · dsimp only at h ⊢
      split
      · rfl
      · rename_i hcopies
        rw [if_neg hcopies] at h
        split
        · rfl
        · rename_i granted hgranted
          rw [hgranted] at h
          cases h

theorem reserveFor_ok (device : Nat) (halloc : ∀ n, alloc n = true)
    (hfree : ∀ desc ∈ requirements.head?.getD [],
      conflictsWithReserved desc (reservedSet s) = false) :
    (reserveFor s device requirements alloc).1 = .ok () := by
  obtain rfl : alloc = fun _ => true := funext halloc
  unfold reserveFor
  rcases requirements with _ | ⟨alt, rest⟩
  · rfl
  · have hnone : alt.any (conflictsWithReserved · (reservedSet s)) = false := by
      simp only [List.any_eq_false, Bool.not_eq_true]
      exact hfree
    simp [tryReserveAlternative, hnone]

theorem Inv.call (h : Inv s) {c : Call} (hcareful : Careful s c) : Inv (call s c).2 := by
  cases c with
  | assign device requirements alloc =>
    cases device with
    | none => exact h
    | some device => exact (h.drop device).reserve device alloc hcareful.1
  | release device =>
    cases device with
    | none => exact h
    | some device => exact h.drop device

theorem dropAssignment_of_none {device : Nat}
    (h : findAssignment s device = none) : dropAssignment s device = s := by
  apply List.eraseP_of_forall_not
  intro a ha
  exact List.find?_eq_none.1 h a ha

theorem failsQuietly_of_careful {c : Call} (h : Careful s c) : FailsQuietly s c := by
  intro hfail device
  cases c with
  | release _ => rcases hfail with habsurd | habsurd <;> cases habsurd
  | assign owner requirements alloc =>
    cases owner with
    | none => rfl
    | some owner =>
      obtain ⟨-, hnone | ⟨halloc, hfree⟩⟩ := h
      · have herror : ∃ e, (reserveFor s owner requirements alloc).1 = .error e := by
          simp only [UnDOS.Resource.call, assignResources, dropAssignment_of_none hnone] at hfail
          rcases hfail with hconflict | hmemory
          · exact ⟨_, hconflict⟩
          · exact ⟨_, hmemory⟩
        obtain ⟨e, he⟩ := herror
        simp only [UnDOS.Resource.call, assignResources, dropAssignment_of_none hnone,
          reserveFor_error he]
      · have hok := reserveFor_ok owner halloc hfree
        simp only [UnDOS.Resource.call, assignResources, hok] at hfail
        rcases hfail with habsurd | habsurd <;> cases habsurd

/-! ## Runs -/

/-- In every run of careful calls no resource is granted twice, and a careful call that fails
changes nothing. -/
theorem resources_exclusive {run : List (Call × Assignments)}
    (h : Run (fun s c s' => Step s c s' ∧ Careful s c) [] run) : Exclusive (lastState [] run) ∧
      ∀ c, Careful (lastState [] run) c → FailsQuietly (lastState [] run) c := by
  have hinv : Inv (lastState [] run) := by
    have hempty : Inv [] := ⟨nofun, nofun⟩
    apply h.invariant hempty
    rintro s c s' hs ⟨rfl, hcareful⟩
    exact hs.call hcareful
  exact ⟨hinv.exclusive, fun c hc => failsQuietly_of_careful hc⟩

/-- A call with memory for everything. -/
def Call.simple (device : Nat) (alt : IoResourceList) : Call :=
  .assign (some device) [alt] fun _ => true

/-- Two devices with neighbouring port ranges. -/
theorem resources_exclusive_ports : ∃ run, Run (fun s c s' => Step s c s' ∧ Careful s c) [] run ∧
      lastState [] run = [⟨1, [⟨.port, .deviceExclusive, 0, 0x1F0, 8⟩]⟩,
        ⟨2, [⟨.port, .deviceExclusive, 0, 0x1F8, 8⟩]⟩] ∧ Exclusive (lastState [] run) := by
  have hfirst : Run (fun s c s' => Step s c s' ∧ Careful s c) []
      [(Call.simple 1 [⟨.port, .deviceExclusive, 0x1F0, 8⟩],
        [⟨1, [⟨.port, .deviceExclusive, 0, 0x1F0, 8⟩]⟩])] := by
    refine .cons .nil ⟨?_, ?_, .inl rfl⟩
    · show _ = (call _ _).2
      decide
    · decide
  have hrun := Run.cons (a := Call.simple 2 [⟨.port, .deviceExclusive, 0x1F8, 8⟩])
    (s := [⟨1, [⟨.port, .deviceExclusive, 0, 0x1F0, 8⟩]⟩,
      ⟨2, [⟨.port, .deviceExclusive, 0, 0x1F8, 8⟩]⟩]) hfirst
    ⟨by show _ = (call _ _).2; decide, by decide, .inl rfl⟩
  exact ⟨_, hrun, rfl, (resources_exclusive hrun).1⟩

/-- A range that runs over the top of the address space is granted, and then a part of it to
another device. -/
theorem wrapped_range_granted_twice : ¬∀ run : List (Call × Assignments), Run Step [] run →
      Exclusive (lastState [] run) ∧ ∀ c, FailsQuietly (lastState [] run) c := by
  intro h
  have hfirst : Run Step []
      [(Call.simple 1 [⟨.memory, .deviceExclusive, 0xFFFFFFF0, 0x20⟩],
        [⟨1, [⟨.memory, .deviceExclusive, 0, 0xFFFFFFF0, 0x20⟩]⟩])] := by
    refine .cons .nil ?_
    show _ = (call _ _).2
    decide
  have hrun := Run.cons (a := Call.simple 2 [⟨.memory, .deviceExclusive, 0xFFFFFFF8, 1⟩])
    (s := [⟨1, [⟨.memory, .deviceExclusive, 0, 0xFFFFFFF0, 0x20⟩]⟩,
      ⟨2, [⟨.memory, .deviceExclusive, 0, 0xFFFFFFF8, 1⟩]⟩]) hfirst
    (by show _ = (call _ _).2; decide)
  have hdisjoint := (h _ hrun).1 _ (.head _) _ (.tail _ (.head _)) (by decide) _ (.head _) _
    (.head _) rfl (by decide)
  have hmember : 0xFFFFFFF8 ∈ (⟨.memory, .deviceExclusive, 0, 0xFFFFFFF0, 0x20⟩ :
      CmPartialResourceDescriptor).addresses := ⟨by decide, by decide⟩
  exact Set.disjoint_left.1 hdisjoint hmember ⟨by decide, by decide⟩

end UnDOS.Resource
