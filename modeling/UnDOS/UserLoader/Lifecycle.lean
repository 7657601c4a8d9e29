import UnDOS.Lib.Postorder
import UnDOS.UserLoader.Link

/-!
# The user-mode loader: the life cycle of libraries

The order in which libraries are initialized (`visit_dependencies`), the checks of their life-cycle
functions (`validate_lifecycle`), and the two routines that the C runtime calls
(`initialize_shared`, `finalize_shared`).

`lifecycle_function` and `lifecycle_array` either only check or also call what they find; here the
call is an argument.  What the called code does is up to the program: it changes memory, and it
returns or exits.
-/

namespace UnDOS.UserLoader

open UnDOS.Lib UnDOS.Lib.Outcome

/-! ## The order of initialization -/

/-- The dependencies of an object. -/
def dependenciesOf (s : State) (index : Nat) : List Nat :=
  match s.objects[index]? with
  | some obj => obj.dependencies
  | none => []

/-- `visit_dependencies(0)`, with `visit_state` and `initialization_order` as it leaves them.  Each
recursive call marks another object, so that as many as there are objects suffice. -/
def visitDependencies (s : State) : Option (Bool × Postorder.Search Nat) :=
  Postorder.visit (dependenciesOf s) (· != 0) s.objects.length 0 .start

/-! ## Life-cycle functions -/

def executableAddress (s : State) (address : Nat) : Bool :=
  s.objects.any fun obj =>
    decide (obj.bias ≤ address) && obj.programHeaders.any fun p =>
      p.type == ptLoad && p.executable &&
        decide (p.vaddr ≤ address - obj.bias ∧ address - obj.bias - p.vaddr < p.memsz)

/-- Why a routine of the life cycle does not return: it found something invalid, or what it called
did not return. -/
inductive Stop where
  | invalid
  | exited
deriving DecidableEq

section

variable {σ : Type} (view : σ → State) (call : Nat → Prog σ Stop Unit)

/-- A check or a read. -/
def inspect {α : Type} (f : State → Outcome Unit α) : Prog σ Stop α := fun s =>
  match f (view s) with
  | .ok a => (.ok a, s)
  | .err _ => (.err .invalid, s)
  | .stuck => (.stuck, s)

/-- The address that `lifecycle_function` calls. -/
def functionAddress (s : State) (obj : LoadedObject) (address : Nat) : Outcome Unit Nat := do
  let host ← resolveVirtualToHostAddress obj address 1
  ensure (executableAddress s host = true) ()
  return host

def lifecycleFunction (obj : LoadedObject) (address : Nat) : Prog σ Stop Unit := do
  if address = 0 then return ()
  else
    let host ← inspect view fun s => functionAddress s obj address
    call host

/-- The place of the element that a round of `lifecycle_array` looks at. -/
def arrayIndex (reverse : Bool) (count i : Nat) : Nat := if reverse then count - i - 1 else i

/-- Elements that stand for no function. -/
def isSentinel (function : Nat) : Bool := function == 0 || function == 0xffffffff

/-- `lifecycle_array`, for object `index`. -/
def lifecycleArray (index : Nat) (obj : LoadedObject) (address size : Nat) (reverse : Bool) :
    Prog σ Stop Unit := do
  if size = 0 then return ()
  else
    let host ← inspect view fun _ => do
      ensure (size % 4 = 0) ()
      resolveVirtualToHostAddress obj address size
    Prog.forRange (size / 4) fun i => do
      let function ← inspect view fun s =>
        readWord s index obj (host + 4 * arrayIndex reverse (size / 4) i)
      if isSentinel function then return ()
      else
        let _ ← inspect view fun s => ensure (executableAddress s function = true) ()
        call function

end

/-- `lifecycle_function` and `lifecycle_array` that only check. -/
def checkOnly : Nat → Prog State Stop Unit := fun _ => pure ()

/-- The checks of `validate_lifecycle` for one library. -/
def validateLibrary (index : Nat) (obj : LoadedObject) : Prog State Stop Unit := do
  lifecycleFunction id checkOnly obj obj.initFuncVaddr
  lifecycleFunction id checkOnly obj obj.finiFuncVaddr
  lifecycleArray id checkOnly index obj obj.initArrayVaddr obj.initArraySize false
  lifecycleArray id checkOnly index obj obj.finiArrayVaddr obj.finiArraySize true

def validateLifecycle : Prog State Stop Unit := do
  let s ← Prog.get
  Prog.forRange (s.objects.length - 1) fun i =>
    match s.objects[i + 1]? with
    | some obj => validateLibrary (i + 1) obj
    | none => Prog.diverge

/-- The check of the order and of the life cycle in `loader_main`. -/
def checkLifecycle : Loading (List Nat) := fun s =>
  match visitDependencies s with
  | none => (.stuck, s)
  | some (acyclic, search) =>
    if acyclic then
      match validateLifecycle s with
      | (.ok _, s) => (.ok search.order, s)
      | (.err _, s) => (.err "ELoader: cyclic dependency or invalid lifecycle metadata\n", s)
      | (.stuck, s) => (.stuck, s)
    else (.err "ELoader: cyclic dependency or invalid lifecycle metadata\n", s)

/-- `loader_main` up to the startup information, with `initialization_order`. -/
def loaderMain (sys : System) (executablePath : List UInt8) : Loading (List Nat) := do
  loadAll sys executablePath
  relocateAll sys
  checkLifecycle

/-- The state that the loader starts in. -/
def State.initial (memory : ByteStore) : State where
  memory := memory
  owner := fun _ => none
  objects := []
  totalMappedBytes := 0

/-! ## Running them -/

/-- A call of a life-cycle function of an object. -/
structure Callback where
  object : Nat
  finalizer : Bool
  address : Nat
deriving DecidableEq

/-- The process once it is loaded: the state of the loader, `initialization_order`,
`initialized_count`, and the calls so far, oldest first. -/
structure Life where
  loader : State
  order : List Nat
  initializedCount : Nat := 0
  called : List Callback := []

/-- What the code of the program does: after the calls so far, with the memory as it is, does the
last of them exit, and what does it leave in memory? -/
abbrev Program := List Callback → ByteStore → Bool × ByteStore

/-- Call a life-cycle function. -/
def invoke (program : Program) (object : Nat) (finalizer : Bool) (address : Nat) :
    Prog Life Stop Unit := fun s =>
  let called := s.called ++ [⟨object, finalizer, address⟩]
  let (exits, memory) := program called s.loader.memory
  let s := { s with called := called, loader := { s.loader with memory := memory } }
  if exits then (.err .exited, s) else (.ok (), s)

/-- The initializers of a library. -/
def initializeLibrary (program : Program) (index : Nat) (obj : LoadedObject) :
    Prog Life Stop Unit := do
  lifecycleFunction Life.loader (invoke program index false) obj obj.initFuncVaddr
  lifecycleArray Life.loader (invoke program index false) index obj obj.initArrayVaddr
    obj.initArraySize false

/-- The finalizers of a library. -/
def finalizeLibrary (program : Program) (index : Nat) (obj : LoadedObject) :
    Prog Life Stop Unit := do
  lifecycleArray Life.loader (invoke program index true) index obj obj.finiArrayVaddr
    obj.finiArraySize true
  lifecycleFunction Life.loader (invoke program index true) obj obj.finiFuncVaddr

/-- The object at a place of `initialization_order`. -/
def withLibrary (i : Nat) (body : Nat → LoadedObject → Prog Life Stop Unit) : Prog Life Stop Unit :=
  fun s =>
    match s.order[i]? with
    | none => (.stuck, s)
    | some index =>
      match s.loader.objects[index]? with
      | none => (.stuck, s)
      | some obj => body index obj s

def initializeShared (program : Program) : Prog Life Stop Unit := do
  let s ← Prog.get
  if s.initializedCount ≠ 0 then Prog.throw .invalid
  else
    Prog.forRange s.order.length fun i => do
      withLibrary i (initializeLibrary program)
      Prog.modify fun s => { s with initializedCount := s.initializedCount + 1 }

/-- The loop of `finalize_shared`, with `count` libraries to go. -/
def finalizeLoop (program : Program) : Nat → Prog Life Stop Unit
  | 0 => pure ()
  | count + 1 => do
    Prog.modify fun s => { s with initializedCount := count }
    withLibrary count (finalizeLibrary program)
    finalizeLoop program count

def finalizeShared (program : Program) : Prog Life Stop Unit := do
  let s ← Prog.get
  finalizeLoop program s.initializedCount

end UnDOS.UserLoader
