import UnDOS.UserLoader.LinkSafe

/-!
# The user-mode loader: the search for dependencies

The breadth-first search of `loader_main` loads what the executable depends on, and nothing else:
every dependency that it records is an object, and every object is reached from the executable.
-/

namespace UnDOS.UserLoader

open UnDOS.Lib UnDOS.Lib.Outcome UnDOS.Lib.Prog
open Relation (ReflTransGen)

/-! ## The graph grows -/

/-- A dependency of object `i` is recorded: `s'` has it, and perhaps one object more. -/
structure Recorded (s : State) (i dependency : Nat) (s' : State) : Prop where
  length : s.objects.length ≤ s'.objects.length
  fresh : ∀ k, s.objects.length ≤ k → k < s'.objects.length → k = dependency
  inside : dependency < s'.objects.length
  self : dependenciesOf s' i = dependenciesOf s i ++ [dependency]
  other : ∀ k, k ≠ i → dependenciesOf s' k = dependenciesOf s k

variable {s s' : State} {i dependency k j : Nat} {obj : LoadedObject} {sys : System}

theorem Recorded.mem (h : Recorded s i dependency s')
    (hj : j ∈ dependenciesOf s' k) : j ∈ dependenciesOf s k ∨ (k = i ∧ j = dependency) := by
  by_cases hk : k = i
  · subst hk
    rw [h.self, List.mem_append, List.mem_singleton] at hj
    exact hj.imp id fun hj => ⟨rfl, hj⟩
  · rw [h.other k hk] at hj
    exact .inl hj

theorem Recorded.step (h : Recorded s i dependency s')
    (hj : Postorder.Step (dependenciesOf s) k j) : Postorder.Step (dependenciesOf s') k j := by
  rw [Postorder.Step] at hj ⊢
  by_cases hk : k = i
  · subst hk
    rw [h.self]
    exact List.mem_append_left _ hj
  · rw [h.other k hk]
    exact hj

theorem Discovered.recorded (h : Discovered s)
    (hi : i < s.objects.length) (hrecorded : Recorded s i dependency s') : Discovered s' := by
  have hreach : ∀ k < s.objects.length, ReflTransGen (Postorder.Step (dependenciesOf s')) 0 k :=
    fun k hk => ReflTransGen.mono (fun _ _ => hrecorded.step) _ _ (h.reached k hk)
  refine ⟨fun k _ j hj => ?_, fun k hk => ?_⟩
  · rcases hrecorded.mem hj with hold | ⟨-, rfl⟩
    · by_cases hlt : k < s.objects.length
      · exact (h.dependency k hlt j hold).trans_le hrecorded.length
      · rw [dependenciesOf_eq_nil (Nat.le_of_not_lt hlt)] at hold
        exact nomatch hold
    · exact hrecorded.inside
  · by_cases hold : k < s.objects.length
    · exact hreach k hold
    · -- The new object is the dependency just recorded.
      obtain rfl := hrecorded.fresh k (Nat.le_of_not_lt hold) hk
      apply (hreach i hi).tail
      rw [Postorder.Step, hrecorded.self]
      exact List.mem_append_right _ (List.mem_singleton_self k)

theorem dependenciesOf_eq (h : s.objects[i]? = some obj) :
    dependenciesOf s i = obj.dependencies := by
  rw [dependenciesOf, h]

/-! ## The search -/

/-- Before round `i` of the search: the objects from `i` on have no dependencies yet. -/
structure Searched (sys : System) (i : Nat) (s : State) : Prop where
  ok : AllOk sys s
  executable : 0 < s.objects.length
  graph : Discovered s
  later : ∀ k obj, i ≤ k → s.objects[k]? = some obj → obj.dependencies = []

/-- In round `i`, which is about `obj`, after `j` of its dependencies. -/
structure Searching (sys : System) (i : Nat) (obj : LoadedObject) (j : Nat) (s : State) : Prop where
  after : Searched sys (i + 1) s
  self : ∃ dependencies, s.objects[i]? = some { obj with dependencies := dependencies } ∧
    dependencies.length = j

theorem getElem?_concat_cases {α : Type} {l : List α} {a b : α}
    (h : (l ++ [a])[k]? = some b) : l[k]? = some b ∨ (k = l.length ∧ b = a) := by
  rcases lt_trichotomy k l.length with hlt | rfl | hgt
  · rw [List.getElem?_append_left hlt] at h
    exact .inl h
  · rw [List.getElem?_concat_length] at h
    exact .inr ⟨rfl, (Option.some.inj h).symm⟩
  · rw [List.getElem?_eq_none (by rw [List.length_append]; exact hgt)] at h
    cases h

theorem recorded_of_foundAt {s₀ t : State} {dependencies : List Nat}
    (hself : s₀.objects[i]? = some { obj with dependencies := dependencies })
    (hfound : FoundAt s₀ dependency t) (hlt : i < t.objects.length) :
    Recorded s₀ i dependency { t with
      objects := t.objects.set i { obj with dependencies := dependencies ++ [dependency] } } := by
  have hget : ∀ k, (t.objects.set i { obj with dependencies := dependencies ++ [dependency] })[k]? =
      if i = k then some { obj with dependencies := dependencies ++ [dependency] }
      else t.objects[k]? := fun k => by
    rw [List.getElem?_set, if_pos hlt]
  have hself' := dependenciesOf_eq hself
  constructor
  case length =>
    rw [List.length_set]
    rcases hfound with ⟨hsame, -⟩ | ⟨new, hpush, -, -⟩
    · rw [hsame]
    · rw [hpush, List.length_append]
      omega
  case fresh =>
    intro k hold hk
    rw [List.length_set] at hk
    rcases hfound with ⟨hsame, -⟩ | ⟨new, hpush, hdep, -⟩
    · rw [hsame] at hk
      omega
    · rw [hpush, List.length_append, List.length_singleton] at hk
      omega
  case inside =>
    rw [List.length_set]
    rcases hfound with ⟨hsame, hdep⟩ | ⟨new, hpush, hdep, -⟩
    · rwa [hsame]
    · rw [hpush, List.length_append, hdep]
      exact Nat.lt_succ_self _
  case self =>
    rw [hself', dependenciesOf]
    rw [hget, if_pos rfl]
  case other =>
    intro k hk
    rw [dependenciesOf]
    rw [hget, if_neg hk.symm]
    rcases hfound with ⟨hsame, -⟩ | ⟨new, hpush, -, hnew⟩
    · rw [hsame]
      rfl
    · cases hk' : t.objects[k]? with
      | none =>
        rw [hpush] at hk'
        have hlength := List.getElem?_eq_none_iff.1 hk'
        rw [List.length_append] at hlength
        exact (dependenciesOf_eq_nil (by omega)).symm
      | some other =>
        rw [hpush] at hk'
        rcases getElem?_concat_cases hk' with hold | ⟨rfl, rfl⟩
        · exact (dependenciesOf_eq hold).symm
        · rw [dependenciesOf_eq_nil le_rfl]
          exact hnew

theorem recordDependency_checked {s₀ : State}
    (h : Searching sys i obj j s₀) (hneeded : j < obj.neededOffsets.length)
    (hok : AllOk sys s) (hfound : FoundAt s₀ dependency s) :
    Checked (recordDependency i dependency) s fun _ s' => Searching sys i obj (j + 1) s' := by
  obtain ⟨dependencies, hself, hlength⟩ := h.self
  have hi : i < s₀.objects.length := (List.getElem?_eq_some_iff.1 hself).1
  have hold : s.objects[i]? = some { obj with dependencies := dependencies } := by
    rcases hfound with ⟨hsame, -⟩ | ⟨new, hpush, -, -⟩
    · rw [hsame]
      exact hself
    · rw [hpush, List.getElem?_append_left hi]
      exact hself
  apply Checked.get_bind
  rw [hold]
  have hroom : dependencies.length < maxDependencies := by
    have := (hok.loaded i _ hold).needed
    dsimp only at this
    omega
  refine (orFail_checked (Q := fun deps => deps = dependencies ++ [dependency])
    (pushBounded_safe hroom)).bind fun deps t ht => Checked.modify ?_
  obtain ⟨rfl, rfl⟩ := ht
  have hlt : i < t.objects.length := (List.getElem?_eq_some_iff.1 hold).1
  have hget : ∀ k, (t.objects.set i { obj with dependencies := dependencies ++ [dependency] })[k]? =
      if i = k then some { obj with dependencies := dependencies ++ [dependency] }
      else t.objects[k]? := fun k => by
    rw [List.getElem?_set, if_pos hlt]
  refine ⟨⟨?_, ?_, h.after.graph.recorded hi (recorded_of_foundAt hself hfound hlt), ?_⟩, ?_⟩
  · refine ⟨by rw [List.length_set]; exact hok.room, fun k other hother => ?_⟩
    rw [hget] at hother
    split at hother
    · next heq =>
      subst heq
      cases hother
      have hloaded := hok.loaded i _ hold
      exact ⟨hloaded.placed.congr rfl rfl, hloaded.headers, hloaded.needed, hloaded.symbols⟩
    · exact hok.loaded k other hother
  · rw [List.length_set]
    omega
  · intro k other hk hother
    rw [hget, if_neg (by omega)] at hother
    rcases hfound with ⟨hsame, -⟩ | ⟨new, hpush, -, hnew⟩
    · exact h.after.later k other hk (hsame ▸ hother)
    · rw [hpush] at hother
      rcases getElem?_concat_cases hother with hother | ⟨-, rfl⟩
      · exact h.after.later k other hk hother
      · exact hnew
  · refine ⟨dependencies ++ [dependency], ?_, ?_⟩
    · rw [hget, if_pos rfl]
    · rw [List.length_append, hlength]
      rfl

theorem discoverNeeded_checked {t : State} (executablePath : List UInt8)
    (hj : j < obj.neededOffsets.length) (ht : Searching sys i obj j t) : Checked (do
        let name ← orFail dependencyFailure fun s => do
          match obj.neededOffsets[j]? with
          | none => .stuck
          | some offset => getStringAt s i obj offset
        let dependency ← findAndLoadDependency sys executablePath name
        recordDependency i dependency) t fun _ u => Searching sys i obj (j + 1) u := by
  obtain ⟨dependencies, hself, -⟩ := ht.self
  have hplaced : Placed sys t.owner i obj :=
    (ht.after.ok.loaded i _ hself).placed.congr rfl rfl
  refine (orFail_checked (Q := fun _ => True) ?_).bind fun name u hu => ?_
  · rw [List.getElem?_eq_getElem hj]
    exact getStringAt_safe hplaced _
  · obtain ⟨-, rfl⟩ := hu
    refine (findAndLoadDependency_checked ht.after.ok executablePath name).bind
      fun dependency v hv => ?_
    exact recordDependency_checked ht hj hv.1 hv.2

theorem Searched.begin
    (h : Searched sys i s) (hobj : s.objects[i]? = some obj) : Searching sys i obj 0 s := by
  refine ⟨⟨h.ok, h.executable, h.graph, fun k other hk => h.later k other (by omega)⟩, [], ?_, rfl⟩
  rw [hobj, ← h.later i obj (le_refl i) hobj]

theorem Searched.skip (h : Searched sys i s) : Searched sys (i + 1) s :=
  ⟨h.ok, h.executable, h.graph, fun k other hk hother => h.later k other (by omega) hother⟩

theorem discoverFrom_checked (executablePath : List UInt8) (h : Searched sys i s) :
    Checked (discoverFrom sys executablePath i) s fun _ s' => Searched sys (i + 1) s' := by
  apply Checked.get_bind
  cases hobj : s.objects[i]? with
  | none => exact Checked.pure h.skip
  | some obj =>
    refine (Checked.forRange (I := Searching sys i obj) (h.begin hobj)
      fun j hj t ht => ?_).mono fun _ _ ht => ht.after
    exact discoverNeeded_checked executablePath hj ht

theorem searched_first (hloaded : LoadedOk sys s.owner 0 obj) (hdeps : obj.dependencies = []) :
    Searched sys 0 { s with objects := [obj] } := by
  have hzero : ∀ k other, [obj][k]? = some other → k = 0 ∧ other = obj := fun k other hother => by
    cases k with
    | zero => exact ⟨rfl, (Option.some.inj hother).symm⟩
    | succ k => cases hother
  have hgraph : Discovered { s with objects := [obj] } := by
    refine ⟨fun i hi j hj => ?_, fun i hi => ?_⟩
    · obtain rfl : i = 0 := Nat.lt_one_iff.1 hi
      have hnone : dependenciesOf { s with objects := [obj] } 0 = [] := hdeps
      rw [hnone] at hj
      exact nomatch hj
    · obtain rfl : i = 0 := Nat.lt_one_iff.1 hi
      exact .refl
  refine ⟨⟨Nat.le_of_ble_eq_true rfl, fun i other hother => ?_⟩, one_pos, hgraph,
    fun k other _ hother => ?_⟩
  · obtain ⟨rfl, rfl⟩ := hzero i other hother
    exact hloaded
  · obtain ⟨-, rfl⟩ := hzero k other hother
    exact hdeps

theorem loadAll_checked (sys : System) (executablePath : List UInt8) (memory : ByteStore) :
    Checked (loadAll sys executablePath) (State.initial memory) fun _ s =>
      AllOk sys s ∧ 0 < s.objects.length ∧ Discovered s := by
  refine Checked.ite (fun _ => Checked.throw) fun _ => ?_
  refine (loadObject_checked sys (by decide) executablePath _).bind fun obj s hs => ?_
  obtain ⟨-, hloaded, -, hdeps⟩ := hs
  refine Checked.ite (fun _ => ?_) fun _ => Checked.throw
  refine (Checked.modify (Q := fun _ t => Searched sys 0 t) (searched_first hloaded hdeps)).bind
    fun _ t ht => ?_
  refine (Checked.forRange (I := Searched sys) ht fun i _ u hu =>
    discoverFrom_checked executablePath hu).mono fun _ u hu => ?_
  exact ⟨hu.ok, hu.executable, hu.graph⟩

/-! ## The life cycle -/

section Lifecycle

variable {sys : System} {s : State} {index : Nat} {obj : LoadedObject}

theorem inspect_checked {α : Type} {f : State → Outcome Unit α} {Q : α → Prop} (h : Safe (f s) Q) :
    Checked (inspect id f) s fun a s' => Q a ∧ s' = s := by
  rw [Checked, inspect]
  cases hf : f (id s) with
  | ok a => exact ⟨h.of_ok hf, rfl⟩
  | err e => trivial
  | stuck => exact absurd hf h.ne_stuck

theorem lifecycleFunction_checked (address : Nat) :
    Checked (lifecycleFunction id checkOnly obj address) s fun _ s' => s' = s := by
  refine Checked.ite (fun _ => Checked.pure rfl) fun _ => ?_
  refine (inspect_checked (Q := fun _ => True) ?_).bind fun _ _ ht => Checked.pure ht.2
  exact (resolve_safe _ _).bind fun _ _ => Safe.ensure fun _ => Safe.ok trivial

theorem lifecycleArray_checked (h : Placed sys s.owner index obj) (address size : Nat)
    (reverse : Bool) :
    Checked (lifecycleArray id checkOnly index obj address size reverse) s fun _ s' => s' = s := by
  refine Checked.ite (fun _ => Checked.pure rfl) fun _ => ?_
  refine (inspect_checked (Q := fun host => host = address + obj.bias ∧
    isValidVirtualRange obj address size) ?_).bind fun host t ht => ?_
  · exact Safe.ensure fun _ => resolve_safe _ _
  obtain ⟨⟨rfl, hvalid⟩, rfl⟩ := ht
  refine Checked.forRange (I := fun _ u => u = t) rfl fun i hi u hu => ?_
  subst hu
  have hplace := @arrayIndex_lt reverse _ i hi
  have hword := (h.readable hvalid).word (show 4 * arrayIndex reverse (size / 4) i + 4 ≤
    size by omega)
  refine (inspect_checked hword).bind fun function v hv => ?_
  obtain ⟨-, rfl⟩ := hv
  refine Checked.ite (fun _ => Checked.pure rfl) fun _ => ?_
  refine (inspect_checked (Q := fun _ => True) ?_).bind fun _ _ hw => Checked.pure hw.2
  exact Safe.ensure_last fun _ => trivial

theorem validateLibrary_checked (h : Placed sys s.owner index obj) :
    Checked (validateLibrary index obj) s fun _ s' => s' = s := by
  refine (lifecycleFunction_checked _).bind fun _ t ht => ?_
  subst ht
  refine (lifecycleFunction_checked _).bind fun _ t ht => ?_
  subst ht
  refine (lifecycleArray_checked h _ _ _).bind fun _ t ht => ?_
  subst ht
  exact lifecycleArray_checked h _ _ _

theorem validateLifecycle_checked (h : AllOk sys s) :
    Checked validateLifecycle s fun _ s' => s' = s := by
  refine Checked.forRange (I := fun _ t => t = s) rfl fun i hi t ht => ?_
  subst ht
  have hobj := List.getElem?_eq_getElem (show i + 1 < t.objects.length by omega)
  rw [hobj]
  exact validateLibrary_checked (h.loaded _ _ hobj).placed

theorem checkLifecycle_checked (h : AllOk sys s) (hsome : 0 < s.objects.length)
    (hgraph : Discovered s) : Checked checkLifecycle s fun _ s' => s' = s := by
  obtain ⟨⟨acyclic, search⟩, hvisit⟩ :=
    Option.isSome_iff_exists.1 (visitDependencies_isSome hgraph hsome)
  have hvalid := validateLifecycle_checked h
  rw [Checked, checkLifecycle, hvisit]
  cases acyclic with
  | false => trivial
  | true =>
    rcases hrun : validateLifecycle s with ⟨_ | _ | _, s'⟩
    · rw [Checked] at hvalid
      simpa [hrun] using hvalid
    · trivial
    · rw [Checked, hrun] at hvalid
      cases hvalid

end Lifecycle

/-- The loader on hostile files: whatever they hold, no access through an address that an image
supplied leaves the mapped segments of the object that it belongs to, no write goes elsewhere, and
no array of the loader is left. -/
theorem loader_never_stuck (sys : System) (executablePath : List UInt8) (memory : ByteStore) :
    (loaderMain sys executablePath (State.initial memory)).1 ≠ .stuck := by
  have hchecked : Checked (loaderMain sys executablePath) (State.initial memory)
      fun _ _ => True := by
    refine (loadAll_checked sys executablePath memory).bind fun _ s hs => ?_
    obtain ⟨hok, hsome, hgraph⟩ := hs
    refine (relocateAll_checked hok hsome).bind fun _ t ht => ?_
    have hsome' : 0 < t.objects.length := by rwa [ht.objects]
    have hgraph' : Discovered t := by
      have hdeps : dependenciesOf t = dependenciesOf s := by
        funext i
        rw [dependenciesOf, dependenciesOf, ht.objects]
      constructor
      · rw [hdeps, ht.objects]
        exact hgraph.dependency
      · rw [hdeps, ht.objects]
        exact hgraph.reached
    exact (checkLifecycle_checked (hok.kept ht) hsome' hgraph').mono fun _ _ _ => trivial
  exact hchecked.ne_stuck

theorem Discovered.kept (h : Discovered s) (hkept : Kept s s') : Discovered s' := by
  have hdeps : dependenciesOf s' = dependenciesOf s := by
    funext i
    rw [dependenciesOf, dependenciesOf, hkept.objects]
  refine ⟨?_, ?_⟩ <;> rw [hdeps, hkept.objects]
  · exact h.dependency
  · exact h.reached

theorem checkLifecycle_ok {order : List Nat} (h : checkLifecycle s = (.ok order, s')) :
    ∃ search, visitDependencies s = some (true, search) ∧ search.order = order := by
  unfold checkLifecycle at h
  rcases hvisit : visitDependencies s with _ | ⟨_ | _, search⟩
  · simp [hvisit] at h
  · simp [hvisit] at h
  · refine ⟨search, rfl, ?_⟩
    rcases hvalid : validateLifecycle s with ⟨_ | _ | _, t⟩ <;> simp [hvisit, hvalid] at h
    exact h.1

/-- What `loader_main` ends with on any set of files: an order that names every library once, after
all it depends on, and no library but those that the executable needs. -/
theorem loaded_in_order (sys : System) (executablePath : List UInt8) (memory : ByteStore) :
    Checked (loaderMain sys executablePath) (State.initial memory) fun order s =>
      order.Nodup ∧ (∀ i, i ∈ order ↔ 0 < i ∧ i < s.objects.length) ∧
        (∀ before i after, order = before ++ i :: after → ∀ j ∈ dependenciesOf s i, j ∈ before) ∧
        ∀ i ∈ order, ReflTransGen (Postorder.Step (dependenciesOf s)) 0 i := by
  refine (loadAll_checked sys executablePath memory).bind fun _ s hs => ?_
  obtain ⟨hok, hsome, hgraph⟩ := hs
  refine (relocateAll_checked hok hsome).bind fun _ t ht => ?_
  have hsome' : 0 < t.objects.length := by rwa [ht.objects]
  have hgraph' := hgraph.kept ht
  refine (checkLifecycle_checked (hok.kept ht) hsome' hgraph').strengthen fun order u hrun hu => ?_
  obtain ⟨search, hvisit, rfl⟩ := checkLifecycle_ok hrun
  obtain ⟨hnodup, hlisted, hafter⟩ := visitDependencies_order hgraph' hsome' hvisit
  subst hu
  exact ⟨hnodup, hlisted, hafter, fun i hi => hgraph'.reached i ((hlisted i).1 hi).2⟩

end UnDOS.UserLoader
