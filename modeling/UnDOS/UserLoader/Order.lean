import UnDOS.UserLoader.Lifecycle

/-!
# The user-mode loader: initializers and finalizers in order

`Runs s x calls`: on a process whose loader state is that of `s` as far as the life cycle reads it,
`x` makes exactly `calls`, or some first part of them if one of them exits.

The code that is called may do what it likes to memory, but for the arrays of life-cycle functions
(`KeepsArrays`).
-/

namespace UnDOS.UserLoader

open UnDOS.Lib UnDOS.Lib.Outcome UnDOS.Lib.Prog
open UnDOS.Lib.Postorder (ReachesCycle)

/-! ## What is called -/

/-- What `lifecycle_function` calls. -/
def functionCalls (obj : LoadedObject) (address : Nat) : List Nat :=
  if address = 0 then [] else [address + obj.bias]

/-- The words of an array, in the order in which `lifecycle_array` looks at them. -/
def arrayWords (s : State) (obj : LoadedObject) (address size : Nat) (reverse : Bool) : List Nat :=
  (List.range (size / 4)).map fun i =>
    wordAt s.memory (address + obj.bias + 4 * arrayIndex reverse (size / 4) i) 4

/-- What `lifecycle_array` calls. -/
def arrayCalls (s : State) (obj : LoadedObject) (address size : Nat) (reverse : Bool) : List Nat :=
  (arrayWords s obj address size reverse).filter fun function => !isSentinel function

/-- The initializers of object `index`. -/
def initializers (s : State) (index : Nat) : List Callback :=
  match s.objects[index]? with
  | none => []
  | some obj =>
    (functionCalls obj obj.initFuncVaddr ++
      arrayCalls s obj obj.initArrayVaddr obj.initArraySize false).map (⟨index, false, ·⟩)

/-- The finalizers of object `index`. -/
def finalizers (s : State) (index : Nat) : List Callback :=
  match s.objects[index]? with
  | none => []
  | some obj =>
    (arrayCalls s obj obj.finiArrayVaddr obj.finiArraySize true ++
      functionCalls obj obj.finiFuncVaddr).map (⟨index, true, ·⟩)

/-- The memory of the arrays of life-cycle functions is the same. -/
def SameArrays (s : State) (m m' : ByteStore) : Prop :=
  ∀ obj ∈ s.objects,
    (∀ n < obj.initArraySize,
      m' (obj.initArrayVaddr + obj.bias + n) = m (obj.initArrayVaddr + obj.bias + n)) ∧
    ∀ n < obj.finiArraySize,
      m' (obj.finiArrayVaddr + obj.bias + n) = m (obj.finiArrayVaddr + obj.bias + n)

/-- The program leaves the arrays of life-cycle functions alone. -/
def KeepsArrays (program : Program) (s : State) : Prop :=
  ∀ called m, SameArrays s m (program called m).2

/-- The loader state of a process is that of `s`, as far as the life cycle reads it. -/
structure Follows (s : State) (life : Life) : Prop where
  objects : life.loader.objects = s.objects
  owner : life.loader.owner = s.owner
  arrays : SameArrays s s.memory life.loader.memory

/-- `x` makes the calls `calls`, or a first part of them that ends in an exit. -/
def Runs (s : State) (x : Prog Life Stop Unit) (calls : List Callback) : Prop :=
  ∀ life, Follows s life → ∃ life', Follows s life' ∧ life'.order = life.order ∧
    life'.initializedCount = life.initializedCount ∧
    ((x life = (.ok (), life') ∧ life'.called = life.called ++ calls) ∨
      (x life = (.err .exited, life') ∧
        ∃ part, part <+: calls ∧ life'.called = life.called ++ part))

namespace Runs

variable {s : State}

theorem pure : Runs s (Pure.pure ()) [] :=
  fun life hlife => ⟨life, hlife, rfl, rfl, .inl ⟨rfl, by simp⟩⟩

theorem bind {x : Prog Life Stop Unit} {f : Unit → Prog Life Stop Unit} {calls more : List Callback}
    (hx : Runs s x calls) (hf : Runs s (f ()) more) : Runs s (x >>= f) (calls ++ more) := by
  intro life hlife
  obtain ⟨mid, hmid, horder, hcount, ⟨hrun, hcalled⟩ | ⟨hrun, part, hpart, hcalled⟩⟩ :=
    hx life hlife
  · obtain ⟨life', hlife', horder', hcount', hend⟩ := hf mid hmid
    refine ⟨life', hlife', horder'.trans horder, hcount'.trans hcount, ?_⟩
    rw [bind_ok hrun]
    rcases hend with ⟨hrun', hcalled'⟩ | ⟨hrun', part, hpart, hcalled'⟩
    · exact .inl ⟨hrun', by rw [hcalled', hcalled, List.append_assoc]⟩
    · exact .inr ⟨hrun', calls ++ part, List.prefix_append_right_inj calls |>.2 hpart,
        by rw [hcalled', hcalled, List.append_assoc]⟩
  · exact ⟨mid, hmid, horder, hcount, .inr ⟨bind_err hrun, part,
      hpart.trans (List.prefix_append _ _), hcalled⟩⟩

theorem inspect {α : Type} {f : State → Outcome Unit α} {g : α → Prog Life Stop Unit} {a : α}
    {calls : List Callback} (hf : ∀ life, Follows s life → f life.loader = .ok a)
    (hg : Runs s (g a) calls) : Runs s (inspect Life.loader f >>= g) calls := by
  intro life hlife
  have hrun : UserLoader.inspect Life.loader f life = (.ok a, life) := by
    rw [UserLoader.inspect, hf life hlife]
  rw [bind_ok hrun]
  exact hg life hlife

theorem forRange {body : Nat → Prog Life Stop Unit} {calls : Nat → List Callback} {n : Nat}
    (h : ∀ i < n, Runs s (body i) (calls i)) :
    Runs s (forRange n body) ((List.range n).flatMap calls) := by
  induction n with
  | zero => exact pure
  | succ n ih =>
    rw [List.range_succ, List.flatMap_append, List.flatMap_singleton]
    exact bind (ih fun i hi => h i (Nat.lt_succ_of_lt hi)) (h n (Nat.lt_succ_self n))

theorem invoke {program : Program} (hkeeps : KeepsArrays program s) (object : Nat)
    (finalizer : Bool) (address : Nat) :
    Runs s (invoke program object finalizer address) [⟨object, finalizer, address⟩] := by
  intro life hlife
  have hkept := hkeeps (life.called ++ [⟨object, finalizer, address⟩]) life.loader.memory
  rw [UserLoader.invoke]
  generalize program (life.called ++ [⟨object, finalizer, address⟩]) life.loader.memory =
    reply at hkept
  obtain ⟨exits, memory⟩ := reply
  have hsame : SameArrays s s.memory memory := fun obj hobj =>
    ⟨fun n hn => ((hkept obj hobj).1 n hn).trans ((hlife.arrays obj hobj).1 n hn),
      fun n hn => ((hkept obj hobj).2 n hn).trans ((hlife.arrays obj hobj).2 n hn)⟩
  refine ⟨{ life with
    called := life.called ++ [⟨object, finalizer, address⟩]
    loader := { life.loader with memory := memory } }, ⟨hlife.objects, hlife.owner, hsame⟩,
      rfl, rfl, ?_⟩
  cases exits with
  | true => exact .inr ⟨rfl, _, List.prefix_refl _, rfl⟩
  | false => exact .inl ⟨rfl, rfl⟩

end Runs

/-! ## What the checks promise -/

theorem forRange_looks {σ ε : Type} {n : Nat} {body : Nat → Prog σ ε Unit} {s s' : σ}
    (hsame : ∀ i t t', body i t = (.ok (), t') → t' = t) (h : forRange n body s = (.ok (), s')) :
    s' = s ∧ ∀ i < n, body i s = (.ok (), s) := by
  induction n generalizing s' with
  | zero => exact ⟨(Prod.mk.inj h).2.symm, fun i hi => absurd hi (Nat.not_lt_zero i)⟩
  | succ n ih =>
    obtain ⟨u, t, hfirst, hlast⟩ := bind_eq_ok.1 h
    obtain ⟨rfl, hall⟩ := ih hfirst
    have hs' := hsame n t s' hlast
    subst hs'
    refine ⟨rfl, fun i hi => ?_⟩
    rcases Nat.lt_succ_iff_lt_or_eq.1 hi with hlt | rfl
    · exact hall i hlt
    · exact hlast

theorem inspect_eq_ok {σ α : Type} {view : σ → State} {f : State → Outcome Unit α}
    {s s' : σ} {a : α}
    (h : inspect view f s = (.ok a, s')) : f (view s) = .ok a ∧ s' = s := by
  rw [inspect] at h
  split at h
  · next b hb =>
    obtain ⟨rfl, rfl⟩ : b = a ∧ s = s' := by simpa using h
    exact ⟨hb, rfl⟩
  · simp at h
  · simp at h

theorem resolveVirtualToHostAddress_eq {obj : LoadedObject} {vaddr size host : Nat}
    (h : resolveVirtualToHostAddress obj vaddr size = .ok host) : host = vaddr + obj.bias := by
  obtain ⟨_, -, h⟩ := Outcome.bind_eq_ok h
  exact (Outcome.ok.inj h).symm

theorem functionAddress_eq {s : State} {obj : LoadedObject} {address host : Nat}
    (h : functionAddress s obj address = .ok host) : host = address + obj.bias := by
  obtain ⟨a, hresolve, h⟩ := Outcome.bind_eq_ok h
  obtain ⟨_, -, h⟩ := Outcome.bind_eq_ok h
  rw [← Outcome.ok.inj h]
  exact resolveVirtualToHostAddress_eq hresolve

/-- A life-cycle function that passes its check. -/
def FunctionOk (s : State) (obj : LoadedObject) (address : Nat) : Prop :=
  address = 0 ∨ functionAddress s obj address = .ok (address + obj.bias)

theorem functionOk_of_check {s s' : State} {obj : LoadedObject} {address : Nat}
    (h : lifecycleFunction id checkOnly obj address s = (.ok (), s')) :
    s' = s ∧ FunctionOk s obj address := by
  rw [lifecycleFunction] at h
  split at h
  · next hzero => exact ⟨(Prod.mk.inj h).2.symm, .inl hzero⟩
  · obtain ⟨host, t, hcheck, hrest⟩ := bind_eq_ok.1 h
    obtain ⟨hhost, rfl⟩ := inspect_eq_ok hcheck
    have haddress := functionAddress_eq hhost
    subst haddress
    exact ⟨(Prod.mk.inj hrest).2.symm, .inr hhost⟩

/-- An array of life-cycle functions that passes its check. -/
def ArrayOk (s : State) (index : Nat) (obj : LoadedObject) (address size : Nat) : Prop :=
  size = 0 ∨
    (size % 4 = 0 ∧ resolveVirtualToHostAddress obj address size = .ok (address + obj.bias) ∧
      ∀ i < size / 4, mayRead s index obj (address + obj.bias + 4 * i) 4 ∧
        (isSentinel (wordAt s.memory (address + obj.bias + 4 * i) 4) ∨
          executableAddress s (wordAt s.memory (address + obj.bias + 4 * i) 4)))

theorem readWord_eq_ok {s : State} {index : Nat} {obj : LoadedObject} {addr word : Nat}
    (h : readWord s index obj addr = .ok word) :
    mayRead s index obj addr 4 ∧ word = wordAt s.memory addr 4 := by
  obtain ⟨bytes, hbytes, h⟩ := Outcome.bind_eq_ok h
  rw [readBytes] at hbytes
  split at hbytes
  · next hmay =>
    rw [← Outcome.ok.inj h, ← Outcome.ok.inj hbytes]
    exact ⟨hmay, rfl⟩
  · cases hbytes

theorem readWord_of_mayRead {s : State} {index : Nat} {obj : LoadedObject} {addr : Nat}
    (h : mayRead s index obj addr 4) :
    readWord s index obj addr = .ok (wordAt s.memory addr 4) := by
  rw [readWord, readBytes, if_pos h]
  rfl

theorem arrayIndex_lt {reverse : Bool} {count i : Nat} (hi : i < count) :
    arrayIndex reverse count i < count := by
  rw [arrayIndex]
  split <;> omega

theorem exists_arrayIndex (reverse : Bool) {count i : Nat} (hi : i < count) :
    ∃ k < count, arrayIndex reverse count k = i := by
  cases reverse with
  | false => exact ⟨i, hi, rfl⟩
  | true => exact ⟨count - i - 1, by omega, by simp only [arrayIndex, if_true]; omega⟩

theorem arrayOk_of_check {s s' : State} {index : Nat} {obj : LoadedObject} {address size : Nat}
    {reverse : Bool}
    (h : lifecycleArray id checkOnly index obj address size reverse s = (.ok (), s')) :
    s' = s ∧ ArrayOk s index obj address size := by
  rw [lifecycleArray] at h
  split at h
  · next hzero => exact ⟨(Prod.mk.inj h).2.symm, .inl hzero⟩
  · obtain ⟨host, t, hcheck, hloop⟩ := bind_eq_ok.1 h
    obtain ⟨hhost, rfl⟩ := inspect_eq_ok hcheck
    obtain ⟨_, hsize, hresolve⟩ := Outcome.bind_eq_ok hhost
    have haddress := resolveVirtualToHostAddress_eq hresolve
    subst haddress
    have hlooks := forRange_looks (fun i t t' hround => by
      obtain ⟨function, u, hread, hrest⟩ := bind_eq_ok.1 hround
      obtain ⟨-, rfl⟩ := inspect_eq_ok hread
      split at hrest
      · exact (Prod.mk.inj hrest).2.symm
      · obtain ⟨_, v, hexec, hcall⟩ := bind_eq_ok.1 hrest
        obtain ⟨-, rfl⟩ := inspect_eq_ok hexec
        exact (Prod.mk.inj hcall).2.symm) hloop
    obtain ⟨rfl, hall⟩ := hlooks
    refine ⟨rfl, .inr ⟨ensure_eq_ok hsize, hresolve, fun i hi => ?_⟩⟩
    obtain ⟨k, hk, rfl⟩ := exists_arrayIndex reverse hi
    obtain ⟨function, t, hread, hrest⟩ := bind_eq_ok.1 (hall k hk)
    obtain ⟨hread, rfl⟩ := inspect_eq_ok hread
    obtain ⟨hmay, rfl⟩ := readWord_eq_ok hread
    refine ⟨hmay, ?_⟩
    split at hrest
    · next hsentinel => exact .inl hsentinel
    · obtain ⟨_, t, hexec, -⟩ := bind_eq_ok.1 hrest
      exact .inr (ensure_eq_ok (inspect_eq_ok hexec).1)

/-- A library whose life-cycle functions pass their checks. -/
structure LibraryOk (s : State) (index : Nat) (obj : LoadedObject) : Prop where
  init : FunctionOk s obj obj.initFuncVaddr
  fini : FunctionOk s obj obj.finiFuncVaddr
  initArray : ArrayOk s index obj obj.initArrayVaddr obj.initArraySize
  finiArray : ArrayOk s index obj obj.finiArrayVaddr obj.finiArraySize

theorem libraryOk_of_check {s s' : State} {index : Nat} {obj : LoadedObject}
    (h : validateLibrary index obj s = (.ok (), s')) : s' = s ∧ LibraryOk s index obj := by
  obtain ⟨_, s₁, hrun₁, hrest₁⟩ := bind_eq_ok.1 h
  obtain ⟨rfl, hinit⟩ := functionOk_of_check hrun₁
  obtain ⟨_, s₂, hrun₂, hrest₂⟩ := bind_eq_ok.1 hrest₁
  obtain ⟨rfl, hfini⟩ := functionOk_of_check hrun₂
  obtain ⟨_, s₃, hrun₃, hrest₃⟩ := bind_eq_ok.1 hrest₂
  obtain ⟨rfl, hinitArray⟩ := arrayOk_of_check hrun₃
  obtain ⟨rfl, hfiniArray⟩ := arrayOk_of_check hrest₃
  exact ⟨rfl, hinit, hfini, hinitArray, hfiniArray⟩

theorem libraryOk_of_validate {s s' : State} (h : validateLifecycle s = (.ok (), s')) {index : Nat}
    (hindex : 0 < index) {obj : LoadedObject} (hobj : s.objects[index]? = some obj) :
    LibraryOk s index obj := by
  obtain ⟨n, rfl⟩ := Nat.exists_eq_succ_of_ne_zero (pos_iff_ne_zero.1 hindex)
  have hlt : n + 1 < s.objects.length := (List.getElem?_eq_some_iff.1 hobj).1
  have hlooks := forRange_looks (fun i t t' hround => by
    cases hnext : s.objects[i + 1]? with
    | none =>
      simp only [hnext] at hround
      simp at hround
    | some next =>
      simp only [hnext] at hround
      exact (libraryOk_of_check hround).1) h
  have hround := hlooks.2 n (by omega)
  simp only [hobj] at hround
  exact (libraryOk_of_check hround).2

/-! ## Libraries -/

theorem Follows.executableAddress {s : State} {life : Life} (h : Follows s life) (address : Nat) :
    executableAddress life.loader address = UserLoader.executableAddress s address := by
  rw [UserLoader.executableAddress, UserLoader.executableAddress, h.objects]

theorem Follows.mayRead {s : State} {life : Life} (h : Follows s life) (index : Nat)
    (obj : LoadedObject) (addr size : Nat) :
    mayRead life.loader index obj addr size = UserLoader.mayRead s index obj addr size := by
  rw [UserLoader.mayRead, UserLoader.mayRead, State.mappedFor, State.mappedFor, h.owner]

theorem runs_lifecycleFunction {s : State} {program : Program} (hkeeps : KeepsArrays program s)
    {index : Nat} {finalizer : Bool} {obj : LoadedObject} {address : Nat}
    (hok : FunctionOk s obj address) :
    Runs s (lifecycleFunction Life.loader (invoke program index finalizer) obj address)
      ((functionCalls obj address).map (⟨index, finalizer, ·⟩)) := by
  rw [lifecycleFunction, functionCalls]
  by_cases hzero : address = 0
  · rw [if_pos hzero, if_pos hzero]
    exact Runs.pure
  · rw [if_neg hzero, if_neg hzero]
    refine Runs.inspect (a := address + obj.bias) (fun life hlife => ?_) (Runs.invoke hkeeps _ _ _)
    have h := hok.resolve_left hzero
    simp only [functionAddress] at h ⊢
    rw [← h]
    simp only [hlife.executableAddress]

theorem wordAt_eq_of_agree {m m' : ByteStore} {addr size i : Nat} (hsize : 4 * i + 4 ≤ size)
    (h : ∀ n < size, m' (addr + n) = m (addr + n)) :
    wordAt m' (addr + 4 * i) 4 = wordAt m (addr + 4 * i) 4 := by
  rw [wordAt]
  congr 1
  refine readAt_congr fun n hn => ?_
  have := h (4 * i + n) (by omega)
  rwa [← add_assoc] at this

theorem runs_lifecycleArray {s : State} {program : Program} (hkeeps : KeepsArrays program s)
    {index : Nat} {finalizer : Bool} {obj : LoadedObject} {address size : Nat} {reverse : Bool}
    (hok : ArrayOk s index obj address size) (hagree : ∀ life, Follows s life → ∀ n < size,
      life.loader.memory (address + obj.bias + n) = s.memory (address + obj.bias + n)) :
    Runs s (lifecycleArray Life.loader (invoke program index finalizer) index obj address
      size reverse)
      ((arrayCalls s obj address size reverse).map (⟨index, finalizer, ·⟩)) := by
  rw [lifecycleArray]
  by_cases hzero : size = 0
  · rw [hzero]
    exact Runs.pure
  rw [if_neg hzero]
  obtain ⟨hfour, hresolve, helements⟩ := hok.resolve_left hzero
  refine Runs.inspect (a := address + obj.bias) (fun life _ => ?_) ?_
  · simp [ensure, hfour, hresolve]
  -- One word after the other; a sentinel makes no call.
  have hrounds : (arrayCalls s obj address size reverse).map (Callback.mk index finalizer) =
      (List.range (size / 4)).flatMap fun i =>
        let word := wordAt s.memory (address + obj.bias + 4 * arrayIndex reverse (size / 4) i) 4
        if isSentinel word then [] else [⟨index, finalizer, word⟩] := by
    rw [arrayCalls, arrayWords]
    induction List.range (size / 4) with
    | nil => rfl
    | cons i rest ih =>
      rw [List.map_cons, List.filter_cons]
      split <;> simp_all
  rw [hrounds]
  refine Runs.forRange fun i hi => ?_
  have hplace := @arrayIndex_lt reverse _ i hi
  obtain ⟨hmay, hvalid⟩ := helements _ hplace
  refine Runs.inspect
    (a := wordAt s.memory (address + obj.bias + 4 * arrayIndex reverse (size / 4) i) 4)
    (fun life hlife => ?_) ?_
  · rw [readWord_of_mayRead (by rw [hlife.mayRead]; exact hmay),
      wordAt_eq_of_agree (by omega) (hagree life hlife)]
  by_cases hsentinel : isSentinel
      (wordAt s.memory (address + obj.bias + 4 * arrayIndex reverse (size / 4) i) 4)
  · rw [if_pos hsentinel, if_pos hsentinel]
    exact Runs.pure
  · rw [if_neg hsentinel, if_neg hsentinel]
    refine Runs.inspect (a := ()) (fun life hlife => ?_) (Runs.invoke hkeeps _ _ _)
    rw [ensure, hlife.executableAddress, if_pos (hvalid.resolve_left hsentinel)]

theorem runs_initializeLibrary {s : State} {program : Program} (hkeeps : KeepsArrays program s)
    {index : Nat} {obj : LoadedObject} (hobj : s.objects[index]? = some obj)
    (hok : LibraryOk s index obj) :
    Runs s (initializeLibrary program index obj) (initializers s index) := by
  rw [initializers, hobj]
  dsimp only
  rw [List.map_append]
  refine Runs.bind (runs_lifecycleFunction hkeeps hok.init)
    (runs_lifecycleArray hkeeps hok.initArray fun life hlife => ?_)
  exact (hlife.arrays obj (List.mem_of_getElem? hobj)).1

theorem runs_finalizeLibrary {s : State} {program : Program} (hkeeps : KeepsArrays program s)
    {index : Nat} {obj : LoadedObject} (hobj : s.objects[index]? = some obj)
    (hok : LibraryOk s index obj) :
    Runs s (finalizeLibrary program index obj) (finalizers s index) := by
  rw [finalizers, hobj]
  dsimp only
  rw [List.map_append]
  refine Runs.bind (runs_lifecycleArray hkeeps hok.finiArray fun life hlife => ?_)
    (runs_lifecycleFunction hkeeps hok.fini)
  exact (hlife.arrays obj (List.mem_of_getElem? hobj)).2

/-! ## All libraries -/

/-- The objects of an order are libraries whose life-cycle functions pass their checks. -/
def OrderOk (s : State) (order : List Nat) : Prop :=
  ∀ index ∈ order, ∃ obj, s.objects[index]? = some obj ∧ LibraryOk s index obj

theorem runs_withLibrary {s : State} {body : Nat → LoadedObject → Prog Life Stop Unit}
    {calls : Nat → List Callback} {life : Life} (hlife : Follows s life) {i index : Nat}
    {obj : LoadedObject} (hindex : life.order[i]? = some index)
    (hobj : s.objects[index]? = some obj)
    (hbody : Runs s (body index obj) (calls index)) :
    ∃ life', Follows s life' ∧ life'.order = life.order ∧
      life'.initializedCount = life.initializedCount ∧
      ((withLibrary i body life = (.ok (), life') ∧ life'.called = life.called ++ calls index) ∨
        (withLibrary i body life = (.err .exited, life') ∧
          ∃ part, part <+: calls index ∧ life'.called = life.called ++ part)) := by
  have heq : withLibrary i body life = body index obj life := by
    rw [withLibrary, hindex]
    dsimp only
    rw [hlife.objects, hobj]
  rw [heq]
  exact hbody life hlife

theorem take_succ_flatMap {order : List Nat} {n index : Nat} (h : order[n]? = some index)
    (calls : Nat → List Callback) :
    (order.take (n + 1)).flatMap calls = (order.take n).flatMap calls ++ calls index := by
  rw [List.take_add_one, h]
  simp

/-- `initialize_shared` runs the initializers of the libraries in order: of all of them, or of some
and a part of those of the next, if one exits. -/
theorem initializeShared_runs {s : State} {program : Program} (hkeeps : KeepsArrays program s)
    {life : Life} (hlife : Follows s life) (hok : OrderOk s life.order)
    (hcount : life.initializedCount = 0) : ∃ life', Follows s life' ∧ life'.order = life.order ∧
      ((initializeShared program life = (.ok (), life') ∧
          life'.initializedCount = life.order.length ∧
          life'.called = life.called ++ life.order.flatMap (initializers s)) ∨
        (initializeShared program life = (.err .exited, life') ∧
          ∃ next part, life.order[life'.initializedCount]? = some next ∧
            part <+: initializers s next ∧ life'.called = life.called ++
              (life.order.take life'.initializedCount).flatMap (initializers s) ++ part)) := by
  have hloop : ∀ n ≤ life.order.length,
      ∃ life', Follows s life' ∧ life'.order = life.order ∧
        ((forRange n (fun i => do
            withLibrary i (initializeLibrary program)
            modify fun s => { s with initializedCount := s.initializedCount + 1 }) life =
              (.ok (), life') ∧
            life'.initializedCount = n ∧
            life'.called = life.called ++ (life.order.take n).flatMap (initializers s)) ∨
          (forRange n (fun i => do
            withLibrary i (initializeLibrary program)
            modify fun s => { s with initializedCount := s.initializedCount + 1 }) life =
              (.err .exited, life') ∧
            ∃ next part, life.order[life'.initializedCount]? = some next ∧
              part <+: initializers s next ∧
              life'.called = life.called ++
                (life.order.take life'.initializedCount).flatMap (initializers s) ++ part)) := by
    intro n hn
    induction n with
    | zero => exact ⟨life, hlife, rfl, .inl ⟨rfl, hcount, by simp⟩⟩
    | succ n ih =>
      obtain ⟨mid, hmid, horder, ⟨hrun, hn', hcalled⟩ | ⟨hrun, hpart⟩⟩ := ih (by omega)
      · have hindex : mid.order[n]? = some life.order[n] := by
          rw [horder]
          exact List.getElem?_eq_getElem (by omega)
        obtain ⟨obj, hobj, hlib⟩ := hok life.order[n] (List.getElem_mem _)
        obtain ⟨last, hlast, horder', hcount', hend⟩ := runs_withLibrary hmid hindex hobj
          (runs_initializeLibrary hkeeps hobj hlib)
        rw [horder] at hindex
        rcases hend with ⟨hrun', hcalled'⟩ | ⟨hrun', part, hpart, hcalled'⟩
        · refine ⟨{ last with initializedCount := last.initializedCount + 1 },
            ⟨hlast.objects, hlast.owner, hlast.arrays⟩, horder'.trans horder, .inl ⟨?_, ?_, ?_⟩⟩
          · exact (bind_ok hrun).trans (bind_ok hrun')
          · show last.initializedCount + 1 = n + 1
            omega
          · rw [take_succ_flatMap hindex, ← List.append_assoc, ← hcalled]
            exact hcalled'
        · -- The library that exits does not count.
          have hlastCount : last.initializedCount = n := hcount'.trans hn'
          refine ⟨last, hlast, horder'.trans horder, .inr ⟨?_, life.order[n], part, ?_, hpart, ?_⟩⟩
          · exact (bind_ok hrun).trans (bind_err hrun')
          · rw [hlastCount, hindex]
          · rw [hlastCount, ← hcalled]
            exact hcalled'
      · exact ⟨mid, hmid, horder, .inr ⟨bind_err hrun, hpart⟩⟩
  have hrun : initializeShared program life = forRange life.order.length (fun i => do
      withLibrary i (initializeLibrary program)
      modify fun s => { s with initializedCount := s.initializedCount + 1 }) life := by
    rw [initializeShared, get_bind_apply, if_neg (by simpa using hcount)]
  have hall := hloop life.order.length le_rfl
  rw [List.take_length] at hall
  rw [hrun]
  exact hall

/-- The loop of `finalize_shared` runs the finalizers of the first libraries of the order, last
first. -/
theorem finalizeLoop_runs {s : State} {program : Program} (hkeeps : KeepsArrays program s)
    (count : Nat) {life : Life} (hlife : Follows s life) (hok : OrderOk s life.order)
    (hcount : count ≤ life.order.length) (hzero : count = 0 → life.initializedCount = 0) :
    ∃ life', Follows s life' ∧ life'.order = life.order ∧
      ((finalizeLoop program count life = (.ok (), life') ∧ life'.initializedCount = 0 ∧
          life'.called = life.called ++ (life.order.take count).reverse.flatMap (finalizers s)) ∨
        (finalizeLoop program count life = (.err .exited, life') ∧
          ∃ part, part <+: (life.order.take count).reverse.flatMap (finalizers s) ∧
            life'.called = life.called ++ part)) := by
  induction count generalizing life with
  | zero => exact ⟨life, hlife, rfl, .inl ⟨rfl, hzero rfl, by simp⟩⟩
  | succ n ih =>
    have hindex : life.order[n]? = some life.order[n] := List.getElem?_eq_getElem (by omega)
    obtain ⟨obj, hobj, hlib⟩ := hok life.order[n] (List.getElem_mem _)
    have htake : (life.order.take (n + 1)).reverse.flatMap (finalizers s) =
        finalizers s life.order[n] ++ (life.order.take n).reverse.flatMap (finalizers s) := by
      rw [List.take_add_one, hindex, List.reverse_append, List.flatMap_append, Option.toList_some,
        List.reverse_singleton, List.flatMap_singleton]
    rw [htake, finalizeLoop, modify_bind_apply]
    -- The count has gone down before the first finalizer runs.
    have hdown : Follows s { life with initializedCount := n } :=
      ⟨hlife.objects, hlife.owner, hlife.arrays⟩
    obtain ⟨mid, hmid, horder, hmidCount, ⟨hrun, hcalled⟩ | ⟨hrun, part, hpart, hcalled⟩⟩ :=
      runs_withLibrary hdown hindex hobj (runs_finalizeLibrary hkeeps hobj hlib)
    · have horder : mid.order = life.order := horder
      obtain ⟨last, hlast, horder', hend⟩ := ih hmid (by rwa [horder]) (by rw [horder]; omega)
        hmidCount.trans
      rw [horder] at hend
      refine ⟨last, hlast, horder'.trans horder, ?_⟩
      rw [bind_ok hrun]
      rcases hend with ⟨hrun', hzero', hcalled'⟩ | ⟨hrun', part, hpart, hcalled'⟩
      · exact .inl ⟨hrun', hzero', by rw [hcalled', hcalled, List.append_assoc]⟩
      · exact .inr ⟨hrun', _, (List.prefix_append_right_inj _).2 hpart,
          by rw [hcalled', hcalled, List.append_assoc]⟩
    · exact ⟨mid, hmid, horder, .inr ⟨bind_err hrun, part, hpart.trans (List.prefix_append _ _),
        hcalled⟩⟩

/-! ## The order -/

/-- What the search for dependencies leaves: every dependency is an object, and every object is
reached from the executable. -/
structure Discovered (s : State) : Prop where
  dependency : ∀ i < s.objects.length, ∀ j ∈ dependenciesOf s i, j < s.objects.length
  reached : ∀ i < s.objects.length, Relation.ReflTransGen (Postorder.Step (dependenciesOf s)) 0 i

theorem dependenciesOf_eq_nil {s : State} {i : Nat} (h : s.objects.length ≤ i) :
    dependenciesOf s i = [] := by
  rw [dependenciesOf, List.getElem?_eq_none h]

theorem Discovered.lt_of_reached {s : State} (h : Discovered s) (hsome : 0 < s.objects.length)
    {i : Nat} (hi : Relation.ReflTransGen (Postorder.Step (dependenciesOf s)) 0 i) :
    i < s.objects.length := by
  induction hi with
  | refl => exact hsome
  | tail _ last ih => exact h.dependency _ ih _ last

theorem visitDependencies_isSome {s : State} (h : Discovered s) (hsome : 0 < s.objects.length) :
    (visitDependencies s).isSome := by
  have hclosed : ∀ v ∈ Finset.range s.objects.length, ∀ w ∈ dependenciesOf s v,
      w ∈ Finset.range s.objects.length := fun v hv w hw =>
    Finset.mem_range.2 (h.dependency v (Finset.mem_range.1 hv) w hw)
  apply Postorder.visit_some hclosed _ (Finset.mem_range.2 hsome)
  apply (Finset.card_filter_le _ _).trans
  rw [Finset.card_range]

/-- The order is without repetition, complete, and dependencies come first. -/
theorem visitDependencies_order {s : State} (h : Discovered s) (hsome : 0 < s.objects.length)
    {search : Postorder.Search Nat} (hvisit : visitDependencies s = some (true, search)) :
    search.order.Nodup ∧ (∀ i, i ∈ search.order ↔ 0 < i ∧ i < s.objects.length) ∧
      ∀ before i after, search.order = before ++ i :: after →
        ∀ j ∈ dependenciesOf s i, j ∈ before := by
  obtain ⟨hsound, hdone⟩ := Postorder.visit_start_done hvisit
  have hlisted : ∀ i, i ∈ search.order ↔ 0 < i ∧ i < s.objects.length := fun i => by
    rw [hsound.listed i, hdone i]
    constructor
    · rintro ⟨hreach, hemit⟩
      exact ⟨pos_of_ne_zero (by simpa using hemit), h.lt_of_reached hsome hreach⟩
    · rintro ⟨hpos, hlt⟩
      exact ⟨h.reached i hlt, by simpa using pos_iff_ne_zero.1 hpos⟩
  refine ⟨hsound.nodup, hlisted, fun before i after hsplit j hj => ?_⟩
  apply hsound.sorted before i after hsplit j hj
  -- A library that depends on the executable would close a cycle.
  have hi : i < s.objects.length := ((hlisted i).1 (by simp [hsplit])).2
  have hroot : search.mark 0 = .done := (hdone 0).2 .refl
  have hne : j ≠ 0 := fun heq => by
    subst heq
    exact hsound.acyclic 0 hroot (Relation.TransGen.tail' (h.reached i hi) hj)
  simpa using hne

/-- The life cycle of the libraries.  The order exists exactly when no cycle is reached from the
executable.  Then `initialize_shared` runs the initializers of every library once, after those of
the libraries it depends on, up to an exit; and `finalize_shared`, after any number of libraries,
runs the finalizers of just these, in the reverse order, up to an exit. -/
theorem library_lifecycle_ordered (s : State) (hgraph : Discovered s)
    (hsome : 0 < s.objects.length) : (∃ ok search, visitDependencies s = some (ok, search) ∧
      (ok = true ↔ ¬ ReachesCycle (dependenciesOf s) 0)) ∧
    ∀ search, visitDependencies s = some (true, search) →
      (search.order.Nodup ∧ (∀ i, i ∈ search.order ↔ 0 < i ∧ i < s.objects.length) ∧
        ∀ before i after, search.order = before ++ i :: after →
          ∀ j ∈ dependenciesOf s i, j ∈ before) ∧
      ∀ s', validateLifecycle s = (.ok (), s') → ∀ program, KeepsArrays program s →
        (∃ life', Follows s life' ∧ life'.order = search.order ∧
          ((initializeShared program { loader := s, order := search.order } = (.ok (), life') ∧
              life'.initializedCount = search.order.length ∧
              life'.called = search.order.flatMap (initializers s)) ∨
            (initializeShared program { loader := s, order := search.order } =
                (.err .exited, life') ∧
              ∃ next part, search.order[life'.initializedCount]? = some next ∧
                part <+: initializers s next ∧
                life'.called =
                  (search.order.take life'.initializedCount).flatMap (initializers s) ++ part))) ∧
        ∀ life, Follows s life → life.order = search.order →
          life.initializedCount ≤ search.order.length →
          ∃ life', ((finalizeShared program life = (.ok (), life') ∧ life'.initializedCount = 0 ∧
              life'.called = life.called ++
                (search.order.take life.initializedCount).reverse.flatMap (finalizers s)) ∨
            (finalizeShared program life = (.err .exited, life') ∧
              ∃ part, part <+:
                (search.order.take life.initializedCount).reverse.flatMap (finalizers s) ∧
                life'.called = life.called ++ part)) := by
  obtain ⟨⟨ok, search⟩, hvisit⟩ :=
    Option.isSome_iff_exists.1 (visitDependencies_isSome hgraph hsome)
  refine ⟨⟨ok, search, hvisit, Postorder.visit_start_iff hvisit⟩, fun search hvisit =>
    ⟨visitDependencies_order hgraph hsome hvisit, fun s' hvalid program hkeeps => ?_⟩⟩
  obtain ⟨-, hlisted, -⟩ := visitDependencies_order hgraph hsome hvisit
  have hok : OrderOk s search.order := fun index hindex => by
    obtain ⟨hpos, hlt⟩ := (hlisted index).1 hindex
    have hobj := List.getElem?_eq_getElem hlt
    exact ⟨_, hobj, libraryOk_of_validate hvalid hpos hobj⟩
  constructor
  · have hstart : Follows s { loader := s, order := search.order } :=
      ⟨rfl, rfl, fun _ _ => ⟨fun _ _ => rfl, fun _ _ => rfl⟩⟩
    simpa using initializeShared_runs hkeeps hstart hok rfl
  · intro life hlife horder hcount
    rw [← horder] at hok hcount ⊢
    obtain ⟨life', -, -, hend⟩ := finalizeLoop_runs hkeeps life.initializedCount hlife hok hcount id
    exact ⟨life', hend⟩

/-- A library with an initializer and a finalizer, loaded at `bias`. -/
def smallLibrary (bias : Nat) (dependencies : List Nat) : LoadedObject where
  programHeaders := [⟨ptLoad, 0, 4096, 64, 64, 5⟩]
  bias := bias
  initFuncVaddr := 4096
  finiFuncVaddr := 4112
  dependencies := dependencies

/-- An executable, a library, and a library that both depend on. -/
def twoLibraries : State where
  memory := fun _ => 0
  owner := fun _ => none
  objects := [{ dependencies := [1, 2] }, smallLibrary 0x10000000 [2], smallLibrary 0x11000000 []]
  totalMappedBytes := 0

theorem library_lifecycle_ordered_two :
    ∃ life, initializeShared (fun _ m => (false, m)) { loader := twoLibraries, order := [2, 1] } =
        (.ok (), life) ∧
      life.called = [⟨2, false, 0x11001000⟩, ⟨1, false, 0x10001000⟩] ∧
      ∃ ended, finalizeShared (fun _ m => (false, m)) life = (.ok (), ended) ∧
        ended.called = life.called ++ [⟨1, true, 0x10001010⟩, ⟨2, true, 0x11001010⟩] := by
  have hgraph : Discovered twoLibraries := by
    refine ⟨by decide, fun i hi => ?_⟩
    have hfirst : ∀ j ∈ [1, 2], Postorder.Step (dependenciesOf twoLibraries) 0 j := fun j hj => hj
    match i, hi with
    | 0, _ => exact .refl
    | 1, _ => exact .single (hfirst 1 (by decide))
    | 2, _ => exact .single (hfirst 2 (by decide))
  obtain ⟨⟨ok, search, hvisit, -⟩, hall⟩ :=
    library_lifecycle_ordered twoLibraries hgraph (by decide)
  have hsearch : (visitDependencies twoLibraries).map (fun r => (r.1, r.2.order)) =
      some (true, [2, 1]) := by decide
  rw [hvisit] at hsearch
  obtain ⟨rfl, horder⟩ : ok = true ∧ search.order = [2, 1] := by simpa using hsearch
  have hkeeps : KeepsArrays (fun _ m => (false, m)) twoLibraries :=
    fun _ _ _ _ => ⟨fun _ _ => rfl, fun _ _ => rfl⟩
  obtain ⟨⟨life, hlife, hlifeOrder, hend⟩, hfinal⟩ :=
    (hall search hvisit).2 twoLibraries rfl _ hkeeps
  rw [horder] at hend hlifeOrder hfinal
  obtain ⟨hrun, hcount, hcalled⟩ := hend.resolve_right (fun h => (by cases h.1))
  refine ⟨life, hrun, hcalled, ?_⟩
  obtain ⟨ended, hended⟩ := hfinal life hlife hlifeOrder (by rw [hcount])
  rw [hcount] at hended
  obtain ⟨hrun', -, hcalled'⟩ := hended.resolve_right (fun h => (by
    have hstart := congrArg Prod.snd hrun
    subst hstart
    cases h.1))
  exact ⟨ended, hrun', hcalled'⟩

end UnDOS.UserLoader
