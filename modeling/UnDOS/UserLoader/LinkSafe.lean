import UnDOS.UserLoader.LoadSafe
import UnDOS.UserLoader.Order

/-!
# The user-mode loader: linking is safe

Whatever the images hold, `loader_main` touches only objects in place, and no array of the loader is
left.  Relocation rewrites tables that it reads, but neither the objects nor the owners of pages
(`Kept`), and that is all that the checks rest on.
-/

namespace UnDOS.UserLoader

open UnDOS.Lib UnDOS.Lib.Outcome UnDOS.Lib.Prog

/-! ## All objects -/

/-- Every object is loaded, and there is room for all. -/
structure AllOk (sys : System) (s : State) : Prop where
  room : s.objects.length ≤ maxObjects
  loaded : ∀ i obj, s.objects[i]? = some obj → LoadedOk sys s.owner i obj

/-- What relocation leaves as it is. -/
structure Kept (s s' : State) : Prop where
  owner : s'.owner = s.owner
  objects : s'.objects = s.objects

theorem Kept.refl (s : State) : Kept s s := ⟨rfl, rfl⟩

theorem Kept.trans {a b c : State} (hab : Kept a b) (hbc : Kept b c) : Kept a c :=
  ⟨hbc.owner.trans hab.owner, hbc.objects.trans hab.objects⟩

theorem AllOk.kept {sys : System} {s s' : State} (h : AllOk sys s) (hkept : Kept s s') :
    AllOk sys s' :=
  ⟨hkept.objects ▸ h.room, fun i obj hobj =>
    hkept.owner ▸ h.loaded i obj (hkept.objects ▸ hobj)⟩

/-! ## Symbols -/

section Symbols

variable {sys : System} {s : State}

/-- A definition that was found in an object of the loader. -/
def DefinitionOk (s : State) (d : Definition) : Prop :=
  ∃ obj, s.objects[d.owner]? = some obj ∧ d.value = d.symbol.value + obj.bias

/-- Where a search stands, all that it remembers is in order. -/
def SearchOk (s : State) (search : Search) : Prop := ∀ d, search.result = some d → DefinitionOk s d

variable {obj : LoadedObject}

theorem considerDefinition_ok {index : Nat} {symbol : Symbol}
    {weak : Option Definition} (hobj : s.objects[index]? = some obj)
    (hweak : SearchOk s (.seeking weak)) :
      SearchOk s (considerDefinition index obj symbol weak) := by
  have hnew : DefinitionOk s ⟨symbol.value + obj.bias, symbol, index⟩ := ⟨obj, hobj, rfl⟩
  intro d hd
  rw [considerDefinition] at hd
  split at hd
  · split at hd
    · split at hd
      · cases hd
        exact hnew
      · exact hweak d hd
    · cases hd
      exact hnew
  · cases hd

theorem considerSymbol_safe (h : AllOk sys s) {name : List UInt8} {index : Nat}
    (hobj : s.objects[index]? = some obj) {symIndex : Nat} {weak : Option Definition}
    (hweak : SearchOk s (.seeking weak)) :
    Safe (considerSymbol s name index obj symIndex weak) (SearchOk s) := by
  have hplaced := (h.loaded index obj hobj).placed
  refine (getSymbolAt_safe hplaced symIndex).bind fun symbol _ => ?_
  refine (getStringAt_safe hplaced symbol.name).bind fun candidate _ => ?_
  exact Safe.ite (fun _ => Safe.ok (considerDefinition_ok hobj hweak)) fun _ => Safe.ok hweak

theorem orFailed_safe {x : Outcome Unit Search} (h : Safe x (SearchOk s)) :
    Safe (orFailed x) (SearchOk s) := by
  cases x with
  | ok search => exact h
  | err e => exact Safe.ok fun d hd => (by cases hd)
  | stuck => exact h

theorem searchObject_safe (h : AllOk sys s) {name : List UInt8} {index : Nat}
    (hobj : s.objects[index]? = some obj) {search : Search} (hsearch : SearchOk s search) :
    Safe (searchObject s name index obj search) (SearchOk s) := by
  refine Safe.forRange (I := fun _ search => SearchOk s search) hsearch fun j _ search hsearch => ?_
  cases search with
  | seeking weak => exact orFailed_safe (considerSymbol_safe h hobj hsearch)
  | found d => exact Safe.ok hsearch
  | failed => exact Safe.ok hsearch

theorem resolveSymbol_safe (h : AllOk sys s) (name : List UInt8) (isCopyReloc : Bool) :
    Safe (resolveSymbol s name isCopyReloc) fun resolved =>
      ∀ d, resolved = some d → DefinitionOk s d := by
  refine Safe.bind (P := SearchOk s) ?_ fun search hsearch => Safe.ok hsearch
  refine Safe.forRange (I := fun _ search => SearchOk s search) (fun d hd => (by cases hd))
    fun i hi search hsearch => ?_
  refine Safe.ite (fun _ => Safe.ok hsearch) fun _ => ?_
  have hobj := List.getElem?_eq_getElem hi
  rw [hobj]
  exact searchObject_safe h hobj hsearch

/-- What a copy relocation reads lies in the object that it found, unless it reads nothing. -/
def ReferenceOk (s : State) (reference : Reference) : Prop :=
  ∃ obj, s.objects[reference.owner]? = some obj ∧
    (reference.definition.size = 0 ∨ reference.value = reference.definition.value + obj.bias)

theorem findReference_safe (h : AllOk sys s) {index : Nat}
    (hobj : s.objects[index]? = some obj) (reloc : Rel) :
    Safe (findReference s index obj reloc) (ReferenceOk s) := by
  have hplaced := (h.loaded index obj hobj).placed
  -- A reference that found nothing names the first object, which is always there.
  have hfirst : ∃ first, s.objects[0]? = some first := by
    have hlt := (List.getElem?_eq_some_iff.1 hobj).1
    exact ⟨_, List.getElem?_eq_getElem (by omega)⟩
  obtain ⟨first, hfirst⟩ := hfirst
  refine (getSymbolAt_safe hplaced _).bind fun symbol _ => ?_
  refine (getStringAt_safe hplaced _).bind fun name _ => ?_
  refine Safe.ite (fun _ => Safe.ensure fun _ => Safe.ok ⟨first, hfirst, .inl rfl⟩) fun _ => ?_
  refine (resolveSymbol_safe h name _).bind fun resolved hresolved => ?_
  cases resolved with
  | none => exact Safe.ensure fun _ => Safe.ok ⟨first, hfirst, .inl rfl⟩
  | some d =>
    obtain ⟨owner, howner, hvalue⟩ := hresolved d rfl
    exact Safe.ok ⟨owner, howner, .inr hvalue⟩

end Symbols

/-! ## Relocation -/

section Relocation

variable {sys : System} {s : State} {index : Nat} {obj : LoadedObject}

theorem write_kept {addr : Nat} {data : List UInt8}
    (h : mayWrite sys s index obj addr data.length) :
    Checked (writeBytes sys index obj addr data) s fun _ s' => Kept s s' := by
  refine (writeBytes_checked h).mono fun _ s' hs' => ?_
  rw [hs']
  exact ⟨rfl, rfl⟩

/-- A copy relocation reads one object and writes another, both inside. -/
theorem applyCopy_checked (h : AllOk sys s) (hobj : s.objects[index]? = some obj) {reloc : Rel}
    {reference : Reference} (href : ReferenceOk s reference) :
    Checked (applyCopy sys index obj reloc reference (reloc.offset + obj.bias)) s fun _ s' =>
      Kept s s' := by
  obtain ⟨owner, howner, hvalue⟩ := href
  refine (orFail_checked (Q := fun data =>
    data.length = reference.size ∧ isValidVirtualRange obj reloc.offset reference.size) ?_).bind
      fun data s' hs' => ?_
  · rw [howner]
    refine Safe.ensure fun hchecks => ?_
    obtain ⟨-, hsize, -, hdest, hsource⟩ := hchecks
    have hmay : mayRead s reference.owner owner reference.value reference.size := by
      rcases hvalue with hnone | hvalue
      · simp [mayRead, show reference.size = 0 by omega]
      · rw [hvalue]
        have hread : mayRead s reference.owner owner (reference.definition.value + owner.bias + 0)
            reference.size := (h.loaded _ owner howner).placed.mayRead hsource (by omega)
        exact hread
    exact (readBytes_safe hmay).mono fun data hlength => ⟨hlength, hdest⟩
  · obtain ⟨⟨hlength, hdest⟩, rfl⟩ := hs'
    have hwrite : mayWrite sys s' index obj (reloc.offset + obj.bias + 0) data.length :=
      (h.loaded index obj hobj).placed.mayWrite hdest (by omega)
    exact write_kept hwrite

/-- What `applySingleRelocation` does once it has its reference. -/
theorem relocateWith_checked (h : AllOk sys s) (hobj : s.objects[index]? = some obj)
    (copyOnly : Bool) (reloc : Rel) {reference : Reference}
    (hvalid : isValidVirtualRange obj reloc.offset 4)
    (href : reloc.type = r386Copy → ReferenceOk s reference) :
    Checked (if reloc.type = r386Copy then
        applyCopy sys index obj reloc reference (reloc.offset + obj.bias)
      else do
        let word ← orFail (relocationFailure copyOnly) fun s =>
          readWord s index obj (reloc.offset + obj.bias)
        match relocatedWord reloc.type obj.bias reference.value (reloc.offset + obj.bias) word with
        | some value => writeBytes sys index obj (reloc.offset + obj.bias) (leBytes 4 value)
        | none => Prog.throw (relocationFailure copyOnly)) s fun _ s' => Kept s s' := by
  refine Checked.ite (fun hcopy => applyCopy_checked h hobj (href hcopy)) fun _ => ?_
  have hword : mayWrite sys s index obj (reloc.offset + obj.bias + 0) 4 :=
    (h.loaded index obj hobj).placed.mayWrite hvalid (by omega)
  refine (orFail_checked (readWord_safe (mayRead_of_mayWrite hword))).bind fun word t ht => ?_
  obtain ⟨-, rfl⟩ := ht
  split
  · apply write_kept
    exact hword
  · exact Checked.throw

theorem applySingleRelocation_checked (h : AllOk sys s) (hobj : s.objects[index]? = some obj)
    (copyOnly : Bool) (reloc : Rel) :
    Checked (applySingleRelocation sys index obj copyOnly reloc) s fun _ s' => Kept s s' := by
  refine (orFail_checked (resolve_safe _ _)).bind fun target s' hs' => ?_
  obtain ⟨⟨rfl, hvalid⟩, rfl⟩ := hs'
  refine Checked.ite (fun _ => Checked.pure (.refl _)) fun _ => ?_
  refine Checked.ite (fun hrelative => ?_) fun _ => ?_
  · have href : reloc.type = r386Copy → ReferenceOk s' {} := by
      intro hcopy
      rw [hrelative] at hcopy
      cases hcopy
    exact relocateWith_checked h hobj copyOnly reloc hvalid href
  · refine (orFail_checked (findReference_safe h hobj reloc)).bind fun reference t ht => ?_
    obtain ⟨href, rfl⟩ := ht
    exact relocateWith_checked h hobj copyOnly reloc hvalid fun _ => href

theorem relocateTable_checked (h : AllOk sys s) (hobj : s.objects[index]? = some obj)
    (vaddr bytes : Nat) (copyOnly : Bool) :
    Checked (relocateTable sys index obj vaddr bytes copyOnly) s fun _ s' => Kept s s' := by
  refine Checked.ite (fun _ => Checked.pure (.refl s)) fun _ => ?_
  refine (orFail_checked (Q := fun host => host = vaddr + obj.bias ∧
    isValidVirtualRange obj vaddr (bytes / relSize * relSize)) ?_).bind fun host t ht => ?_
  · exact Safe.ensure fun _ => resolveTable_safe _ _ _
  obtain ⟨⟨rfl, hvalid⟩, rfl⟩ := ht
  refine Checked.forRange (I := fun _ u => Kept t u) (.refl t) fun i hi u hu => ?_
  -- The table may have been written to, but it is where it was.
  have hok := h.kept hu
  have hobj' : u.objects[index]? = some obj := hu.objects ▸ hobj
  have hread : mayRead u index obj (vaddr + obj.bias + i * relSize) relSize :=
    (hok.loaded index obj hobj').placed.mayRead hvalid (by
      rw [relSize] at *
      omega)
  refine (orFail_checked (Q := fun _ => True) ?_).bind fun reloc v hv => ?_
  · exact (readBytes_safe hread).bind fun _ _ => Safe.ok trivial
  · obtain ⟨-, rfl⟩ := hv
    exact (applySingleRelocation_checked hok hobj' copyOnly reloc).mono fun _ _ hw => hu.trans hw

theorem relocateObject_checked (h : AllOk sys s) {i : Nat} (hi : i < s.objects.length) :
    Checked (relocateObject sys i) s fun _ s' => Kept s s' := by
  apply Checked.get_bind
  have hobj := List.getElem?_eq_getElem hi
  rw [hobj]
  refine (relocateTable_checked h hobj _ _ _).bind fun _ t ht => ?_
  refine Checked.ite (fun _ => Checked.ite (fun _ => ?_) fun _ => Checked.throw)
    fun _ => Checked.pure ht
  have hobj' : t.objects[i]? = some s.objects[i] := by
    rw [ht.objects]
    exact hobj
  exact (relocateTable_checked (h.kept ht) hobj' _ _ _).mono fun _ _ hu => ht.trans hu

theorem relocateAll_checked (h : AllOk sys s) (hsome : 0 < s.objects.length) :
    Checked (relocateAll sys) s fun _ s' => Kept s s' := by
  refine (Checked.forRange (I := fun _ t => Kept s t) (.refl s) fun i hi t ht => ?_).bind
    fun _ t ht => ?_
  · exact (relocateObject_checked (h.kept ht) (by rwa [ht.objects])).mono fun _ _ hu => ht.trans hu
  · apply Checked.get_bind
    have hobj : t.objects[0]? = some s.objects[0] := by
      rw [ht.objects]
      exact List.getElem?_eq_getElem hsome
    rw [hobj]
    refine (relocateTable_checked (h.kept ht) hobj _ _ _).bind fun _ u hu => ?_
    have hobj' : u.objects[0]? = some s.objects[0] := by
      rw [hu.objects]
      exact hobj
    apply (relocateTable_checked ((h.kept ht).kept hu) hobj' _ _ _).mono
    exact fun _ _ hv => (ht.trans hu).trans hv

end Relocation

/-! ## Dependencies -/

theorem storePath_safe {path : List UInt8} (h : path.length < maxPathLength) :
    Safe (storePath path) fun _ => True := by
  rw [storePath, if_pos h]
  trivial

theorem textBytes_system : (textBytes "/System/").length = 8 := by decide

theorem probedLength_safe (sys : System) (executablePath name : List UInt8) :
    Safe (probedLength sys executablePath name) fun dirLen =>
      dirLen = 0 ∨ dirLen + name.length < maxPathLength := by
  refine Safe.ite (fun hroom => ?_) fun _ => Safe.ok (.inl rfl)
  refine (storePath_safe ?_).bind fun path _ => Safe.ok ?_
  · have := List.length_take_le (directoryLength executablePath) executablePath
    rw [List.length_append]
    omega
  · split
    · exact .inr hroom
    · exact .inl rfl

theorem dependencyPath_safe (sys : System) (executablePath : List UInt8) {name : List UInt8}
    (hname : name.length < 127) : Safe (dependencyPath sys executablePath name) fun _ => True := by
  refine (probedLength_safe sys executablePath name).bind fun dirLen hdirLen => ?_
  refine Safe.ite (fun _ => storePath_safe ?_) fun hsome => storePath_safe ?_
  · rw [List.length_append, textBytes_system, maxPathLength]
    omega
  · have := List.length_take_le dirLen executablePath
    rw [List.length_append]
    omega

theorem withReason_checked {α : Type} {reason : String} {x : Loading α} {s : State}
    {Q : α → State → Prop} (h : Checked x s Q) : Checked (withReason reason x) s Q := by
  rcases hrun : x s with ⟨_ | _ | _, s'⟩
  · rw [Checked, hrun] at h
    rw [Checked, withReason, hrun]
    exact h
  · rw [Checked, withReason, hrun]
    trivial
  · rw [Checked, hrun] at h
    cases h

/-- What the search for a library leaves: the library is an object that was there, or a new one at
the end that has no dependencies yet. -/
def FoundAt (s : State) (dependency : Nat) (s' : State) : Prop :=
  (s'.objects = s.objects ∧ dependency < s.objects.length) ∨
    ∃ obj, s'.objects = s.objects ++ [obj] ∧ dependency = s.objects.length ∧ obj.dependencies = []

theorem AllOk.push {sys : System} {s s' : State} {obj : LoadedObject} (h : AllOk sys s)
    (hgrown : Grown s s') (hobj : LoadedOk sys s'.owner s.objects.length obj)
    (hroom : s.objects.length < maxObjects) :
    AllOk sys { s' with objects := s.objects ++ [obj] } := by
  refine ⟨?_, fun i other hother => ?_⟩
  · rw [List.length_append]
    exact hroom
  · rcases lt_trichotomy i s.objects.length with hlt | rfl | hgt
    · rw [List.getElem?_append_left hlt] at hother
      exact (h.loaded i other hother).extends hgrown.extends_
    · rw [List.getElem?_concat_length] at hother
      cases hother
      exact hobj
    · rw [List.getElem?_eq_none (by rw [List.length_append]; exact hgt)] at hother
      cases hother

theorem findAndLoadDependency_checked {sys : System} {s : State} (h : AllOk sys s)
    (executablePath name : List UInt8) :
    Checked (findAndLoadDependency sys executablePath name) s fun dependency s' =>
      AllOk sys s' ∧ FoundAt s dependency s' := by
  refine (orFail_checked (Q := fun _ => True) ?_).bind fun path t ht => Checked.get_bind ?_
  · exact Safe.ensure fun hname => dependencyPath_safe sys executablePath hname.2.1
  obtain ⟨-, rfl⟩ := ht
  split
  · next index hindex =>
    have hlt := (List.findIdx?_eq_some_iff_getElem.1 hindex).1
    exact Checked.pure ⟨h, .inl ⟨rfl, hlt⟩⟩
  · refine Checked.ite (fun _ => Checked.throw) fun hroom => ?_
    have hroom : t.objects.length < maxObjects := Nat.lt_of_not_le hroom
    refine (withReason_checked (loadObject_checked sys hroom path t)).bind fun obj u hu => ?_
    obtain ⟨hgrown, hloaded, -, hdeps⟩ := hu
    refine Checked.ite (fun _ => ?_) fun _ => Checked.throw
    refine (orFail_checked (Q := fun objects => objects = t.objects ++ [obj]) ?_).bind
      fun objects v hv => ?_
    · rw [hgrown.objects]
      exact pushBounded_safe hroom
    · obtain ⟨rfl, rfl⟩ := hv
      exact ⟨h.push hgrown hloaded hroom, .inr ⟨obj, rfl, rfl, hdeps⟩⟩

end UnDOS.UserLoader
