import UnDOS.UserLoader.Load

/-!
# The user-mode loader: dependencies and relocation

Symbol resolution, the relocation of an object, the search for a library, and the passes of
`loader_main` up to the checks of the life cycle.

`resolve_symbol` answers false both when nothing was found and when a table that it walks is not in
order; its caller cannot tell the two apart.
-/

namespace UnDOS.UserLoader

open UnDOS.Lib UnDOS.Lib.Outcome

/-! ## Symbols -/

/-- The out-parameters of `resolve_symbol`. -/
structure Definition where
  value : Nat
  symbol : Symbol
  owner : Nat
deriving DecidableEq

/-- Where a search stands: it goes on with the weak definition it remembers, it has a strong one, or
it returned false. -/
inductive Search where
  | seeking (weak : Option Definition)
  | found (definition : Definition)
  | failed
deriving DecidableEq

/-- What `resolve_symbol` returns. -/
def Search.result : Search → Option Definition
  | .seeking weak => weak
  | .found definition => some definition
  | .failed => none

/-- A symbol that another object may be bound to. -/
def Symbol.exported (symbol : Symbol) : Bool :=
  symbol.section_ != shnUndef && symbol.binding != stbLocal && symbol.visibility != stvHidden

/-- A definition that is `exported` under the name sought. -/
def considerDefinition (index : Nat) (obj : LoadedObject) (symbol : Symbol)
    (weak : Option Definition) : Search :=
  if symbol.value ≤ 0xffffffff - obj.bias ∧ isValidVirtualRange obj symbol.value symbol.extent then
    let definition : Definition := ⟨symbol.value + obj.bias, symbol, index⟩
    if symbol.binding = stbWeak then
      if weak.isNone then .seeking (some definition) else .seeking weak
    else .found definition
  else .failed

/-- The body of the inner loop of `resolve_symbol`. -/
def considerSymbol (s : State) (name : List UInt8) (index : Nat) (obj : LoadedObject)
    (symIndex : Nat) (weak : Option Definition) : Outcome Unit Search := do
  let symbol ← getSymbolAt s index obj symIndex
  let candidate ← getStringAt s index obj symbol.name
  if symbol.exported ∧ name = candidate then return considerDefinition index obj symbol weak
  else return .seeking weak

/-- A read that returns false ends the search. -/
def orFailed : Outcome Unit Search → Outcome Unit Search
  | .err _ => .ok .failed
  | x => x

/-- The symbols of one object, from the second one on. -/
def searchObject (s : State) (name : List UInt8) (index : Nat) (obj : LoadedObject)
    (search : Search) : Outcome Unit Search :=
  forRange (obj.symbolCount - 1)
    (fun j search =>
      match search with
      | .seeking weak => orFailed (considerSymbol s name index obj (j + 1) weak)
      | search => .ok search)
    search

def resolveSymbol (s : State) (name : List UInt8) (isCopyReloc : Bool) :
    Outcome Unit (Option Definition) := do
  let search ← forRange s.objects.length
    (fun i search =>
      if isCopyReloc && i == 0 then .ok search
      else
        match s.objects[i]? with
        | some obj => searchObject s name i obj search
        | none => .stuck)
    (.seeking none)
  return search.result

/-! ## Relocation -/

/-- `sizeof(Rel)`. -/
def relSize : Nat := 8

/-- What a relocation refers to: the value of its symbol, the size of the symbol, and the
definition that was found, if one was sought. -/
structure Reference where
  value : Nat := 0
  size : Nat := 0
  definition : Symbol := {}
  owner : Nat := 0
deriving DecidableEq

/-- The part of `apply_single_relocation` that finds the value of the symbol. -/
def findReference (s : State) (index : Nat) (obj : LoadedObject) (reloc : Rel) :
    Outcome Unit Reference := do
  let symbol ← getSymbolAt s index obj reloc.symIndex
  let name ← getStringAt s index obj symbol.name
  if symbol.binding = stbLocal ∧ symbol.section_ ≠ shnUndef then
    ensure (isValidVirtualRange obj symbol.value symbol.extent = true ∧
      symbol.value ≤ 0xffffffff - obj.bias) ()
    return { value := symbol.value + obj.bias, size := symbol.size }
  else
    let resolved ← resolveSymbol s name (reloc.type == r386Copy)
    match resolved with
    | some d =>
      return { value := d.value, size := symbol.size, definition := d.symbol, owner := d.owner }
    | none =>
      ensure (symbol.binding = stbWeak) ()
      return { size := symbol.size }

/-- The error of a relocation, which `loader_main` reports. -/
def relocationFailure (copyOnly : Bool) : String :=
  if copyOnly then "ELoader: failed to relocate copy symbols\n"
    else "ELoader: failed to relocate image\n"

/-- The word that a relocation stores at `target`, which holds `word`.  `none` for a type that is
not supported. -/
def relocatedWord (type bias value target word : Nat) : Option Nat :=
  if type = r386Relative then some (wrap32 (word + bias))
  else if type = r386Abs32 then some (wrap32 (word + value))
  else if type = r386Pc32 then some (wrap32 (word + wrap32 (value + (2 ^ 32 - target))))
  else if type = r386GlobDat ∨ type = r386JmpSlot then some value
  else none

/-- The case `R_386_COPY`. -/
def applyCopy (sys : System) (index : Nat) (obj : LoadedObject) (reloc : Rel)
    (reference : Reference)
    (target : Nat) : Loading Unit := do
  let data ← orFail (relocationFailure true) fun s => do
    match s.objects[reference.owner]? with
    | none => .stuck
    | some owner =>
      ensure (reference.value ≠ 0 ∧ reference.size ≤ reference.definition.size ∧
        reference.size ≤ maxImageSize ∧ isValidVirtualRange obj reloc.offset reference.size ∧
        isValidVirtualRange owner reference.definition.value reference.size) ()
      readBytes s reference.owner owner reference.value reference.size
  writeBytes sys index obj target data

def applySingleRelocation (sys : System) (index : Nat) (obj : LoadedObject) (copyOnly : Bool)
    (reloc : Rel) : Loading Unit := do
  let target ← orFail (relocationFailure copyOnly) fun _ =>
    resolveVirtualToHostAddress obj reloc.offset 4
  if reloc.type = r386None ∨ ¬ ((reloc.type == r386Copy) = copyOnly) then return ()
  else
    let reference ← if reloc.type = r386Relative then pure {}
      else orFail (relocationFailure copyOnly) fun s => findReference s index obj reloc
    if reloc.type = r386Copy then applyCopy sys index obj reloc reference target
    else
      let word ← orFail (relocationFailure copyOnly) fun s => readWord s index obj target
      match relocatedWord reloc.type obj.bias reference.value target word with
      | some value => writeBytes sys index obj target (leBytes 4 value)
      | none => Prog.throw (relocationFailure copyOnly)

/-- An entry of a relocation table. -/
def readRel (s : State) (index : Nat) (obj : LoadedObject) (addr : Nat) : Outcome Unit Rel := do
  let bytes ← readBytes s index obj addr relSize
  return ⟨field bytes 0 4, field bytes 4 4⟩

def relocateTable (sys : System) (index : Nat) (obj : LoadedObject) (vaddr bytes : Nat)
    (copyOnly : Bool) : Loading Unit := do
  if bytes = 0 then return ()
  else
    let host ← orFail (relocationFailure copyOnly) fun _ => do
      ensure ((obj.relEntSize = 0 ∨ obj.relEntSize = relSize) ∧ bytes % relSize = 0) ()
      resolveTableAddress obj vaddr (bytes / relSize) relSize
    Prog.forRange (bytes / relSize) fun i => do
      -- The table is read entry by entry: an earlier entry may have changed a later one.
      let reloc ← orFail (relocationFailure copyOnly) fun s =>
        readRel s index obj (host + i * relSize)
      applySingleRelocation sys index obj copyOnly reloc

/-! ## Dependencies -/

/-- The bytes of a text. -/
def textBytes (text : String) : List UInt8 := text.toList.map fun c => UInt8.ofNat c.toNat

/-- Store a string with its terminator into a buffer for a path. -/
def storePath (path : List UInt8) : Outcome Unit (List UInt8) :=
  if path.length < maxPathLength then .ok path else .stuck

/-- A name that `find_and_load_dependency` accepts: not empty, not too long, no separator and no
two dots in a row. -/
def acceptsName : List UInt8 → Bool
  | [] => true
  | c :: rest => c != 0x2f && !(c == 0x2e && rest.head? == some 0x2e) && acceptsName rest

/-- `dir_len`: the length of the directory part of a path. -/
def directoryLength (path : List UInt8) : Nat :=
  let head := path.take 240
  head.length - (head.reverse.takeWhile (· != 0x2f)).length

/-- `dir_len` after the first strategy: zero unless the file is there. -/
def probedLength (sys : System) (executablePath name : List UInt8) : Outcome Unit Nat := do
  let dirLen := directoryLength executablePath
  if dirLen + name.length < maxPathLength then
    let path ← storePath (executablePath.take dirLen ++ name)
    return if (sys.files path).isSome then dirLen else 0
  else return 0

/-- The path that `find_and_load_dependency` settles on for a name. -/
def dependencyPath (sys : System) (executablePath name : List UInt8) :
    Outcome Unit (List UInt8) := do
  let dirLen ← probedLength sys executablePath name
  if dirLen = 0 then storePath (textBytes "/System/" ++ name)
  else storePath (executablePath.take dirLen ++ name)

/-- The failure that `loader_main` reports for a dependency. -/
def dependencyFailure : String := "ELoader: failed to load dependency\n"

/-- Replace the reason of a failure. -/
def withReason {α : Type} (reason : String) (x : Loading α) : Loading α := fun s =>
  match x s with
  | (.err _, s) => (.err reason, s)
  | r => r

def findAndLoadDependency (sys : System) (executablePath name : List UInt8) : Loading Nat := do
  let path ← orFail dependencyFailure fun _ => do
    ensure (name ≠ [] ∧ name.length < 127 ∧ acceptsName name = true) ()
    dependencyPath sys executablePath name
  let s ← Prog.get
  match s.objects.findIdx? fun obj => obj.path == path with
  | some index => return index
  | none =>
    let index := s.objects.length
    if maxObjects ≤ index then Prog.throw dependencyFailure
    else
      let obj ← withReason dependencyFailure (loadObject sys index path)
      if obj.type = etDyn then
        let objects ← orFail dependencyFailure fun s => pushBounded maxObjects s.objects obj
        Prog.modify fun s => { s with objects := objects }
        return index
      else Prog.throw dependencyFailure

/-- Record a dependency of object `i`. -/
def recordDependency (i dependency : Nat) : Loading Unit := do
  let s ← Prog.get
  match s.objects[i]? with
  | none => Prog.diverge
  | some obj =>
    let dependencies ← orFail dependencyFailure fun _ =>
      pushBounded maxDependencies obj.dependencies dependency
    Prog.modify fun s => { s with objects := s.objects.set i { obj with dependencies := dependencies
      } }

/-- The dependencies of object `i`: a round of the breadth-first search of `loader_main`. -/
def discoverFrom (sys : System) (executablePath : List UInt8) (i : Nat) : Loading Unit := do
  let s ← Prog.get
  match s.objects[i]? with
  | none => return ()
  | some obj =>
    Prog.forRange obj.neededOffsets.length fun j => do
      let name ← orFail dependencyFailure fun s => do
        match obj.neededOffsets[j]? with
        | none => .stuck
        | some offset => getStringAt s i obj offset
      let dependency ← findAndLoadDependency sys executablePath name
      recordDependency i dependency

/-- The search ends at the first object that does not exist; there are at most `MAX_OBJECTS`. -/
def discover (sys : System) (executablePath : List UInt8) : Loading Unit :=
  Prog.forRange maxObjects (discoverFrom sys executablePath)

/-! ## The passes -/

def dtRel : Nat := 17

/-- Pass 1, for one object. -/
def relocateObject (sys : System) (i : Nat) : Loading Unit := do
  let s ← Prog.get
  match s.objects[i]? with
  | none => Prog.diverge
  | some obj =>
    relocateTable sys i obj obj.relVaddr obj.relSize false
    if 0 < obj.pltRelSize then
      if obj.pltRelType = dtRel then relocateTable sys i obj obj.pltRelVaddr obj.pltRelSize false
      else Prog.throw (relocationFailure false)

/-- Pass 2: the copy relocations of the executable. -/
def relocateCopies (sys : System) : Loading Unit := do
  let s ← Prog.get
  match s.objects[0]? with
  | none => Prog.diverge
  | some obj =>
    relocateTable sys 0 obj obj.relVaddr obj.relSize true
    relocateTable sys 0 obj obj.pltRelVaddr obj.pltRelSize true

/-- Both passes of `loader_main`. -/
def relocateAll (sys : System) : Loading Unit := do
  let s ← Prog.get
  Prog.forRange s.objects.length (relocateObject sys)
  relocateCopies sys

/-- The `load_failure_reason` that loading an object leaves behind. -/
def reasonLeft (obj : LoadedObject) : String :=
  if 0 < obj.symbolCount ∨ obj.neededOffsets ≠ [] ∨ 0 < obj.relSize ∨ 0 < obj.pltRelSize then
    "ELoader: invalid symbol tables\n"
  else if obj.programHeaders.any fun p => p.type == ptDynamic then
    "ELoader: invalid dynamic segment\n"
  else "ELoader: missing or incompatible UnDOS ABI note\n"

/-- `loader_main` up to the point where every object is loaded. -/
def loadAll (sys : System) (executablePath : List UInt8) : Loading Unit := do
  if maxPathLength ≤ executablePath.length then Prog.throw "ELoader: invalid executable path\n"
  else
    let obj ← loadObject sys 0 executablePath
    if obj.type = etExec then
      Prog.modify fun s => { s with objects := [obj] }
      discover sys executablePath
    else Prog.throw (reasonLeft obj)

end UnDOS.UserLoader
