import UnDOS.UserLoader.LinkSafe

/-!
# The user-mode loader: what a name is bound to

`definitions` lists what the objects offer under a name, in load order, and `chosen` is the one that
a reference is bound to: the first that is not weak, or else the first.  `resolve_symbol` finds it,
unless a table on its way is not in order.
-/

namespace UnDOS.UserLoader

open UnDOS.Lib UnDOS.Lib.Outcome

/-! ## Definitions -/

/-- The definition that a symbol of object `index` offers under a name. -/
def offer (s : State) (name : List UInt8) (index : Nat) (obj : LoadedObject) (symIndex : Nat) :
    Option Definition :=
  match getSymbolAt s index obj symIndex with
  | .ok symbol =>
    match getStringAt s index obj symbol.name with
    | .ok candidate =>
      if symbol.exported ∧ name = candidate then some ⟨symbol.value + obj.bias, symbol, index⟩
        else none
    | _ => none
  | _ => none

/-- The definitions of object `index` under a name.  The first symbol is never one. -/
def offers (s : State) (name : List UInt8) (index : Nat) (obj : LoadedObject) : List Definition :=
  (List.range (obj.symbolCount - 1)).flatMap fun j => (offer s name index obj (j + 1)).toList

/-- The definitions of object `i`, unless it is the executable and the search is for a copy. -/
def offersOf (s : State) (name : List UInt8) (isCopyReloc : Bool) (i : Nat) : List Definition :=
  if isCopyReloc && i == 0 then []
  else
    match s.objects[i]? with
    | some obj => offers s name i obj
    | none => []

/-- All definitions under a name, in load order. -/
def definitions (s : State) (name : List UInt8) (isCopyReloc : Bool) : List Definition :=
  (List.range s.objects.length).flatMap (offersOf s name isCopyReloc)

/-- A weak definition. -/
def Definition.isWeak (d : Definition) : Bool := d.symbol.binding == stbWeak

/-- The first definition that is not weak, or else the first. -/
def chosen (definitions : List Definition) : Option Definition :=
  (definitions.find? fun d => !d.isWeak).or definitions.head?

/-- The tables that a search for a name walks are in order: every symbol has its name, and what is
offered under the name lies in a segment. -/
def InOrder (s : State) (name : List UInt8) (isCopyReloc : Bool) : Prop :=
  ∀ i obj, s.objects[i]? = some obj → ¬ (isCopyReloc && i == 0) →
    ∀ j, 0 < j → j < obj.symbolCount → ∃ symbol candidate,
      getSymbolAt s i obj j = .ok symbol ∧ getStringAt s i obj symbol.name = .ok candidate ∧
      (symbol.exported → name = candidate →
        symbol.value ≤ 0xffffffff - obj.bias ∧ isValidVirtualRange obj symbol.value symbol.extent)

/-! ## The search -/

/-- Where a search stands after the definitions of a list. -/
def Stands (search : Search) (definitions : List Definition) : Prop :=
  match search with
  | .seeking weak => weak = definitions.head? ∧ ∀ d ∈ definitions, d.isWeak
  | .found d => definitions.find? (fun d => !d.isWeak) = some d
  | .failed => True

theorem Stands.result {search : Search} {definitions : List Definition}
    (h : Stands search definitions) (hfailed : search ≠ .failed) :
    search.result = chosen definitions := by
  cases search with
  | seeking weak =>
    obtain ⟨hweak, hall⟩ := h
    have hnone : definitions.find? (fun d => !d.isWeak) = none :=
      List.find?_eq_none.2 fun d hd => by simp [hall d hd]
    rw [chosen, hnone, hweak]
    rfl
  | found d =>
    rw [chosen, show definitions.find? (fun d => !d.isWeak) = some d from h]
    rfl
  | failed => exact absurd rfl hfailed

theorem Stands.found_append {d : Definition} {definitions : List Definition}
    (h : Stands (.found d) definitions) (more : List Definition) :
    Stands (.found d) (definitions ++ more) := by
  have hfound : definitions.find? (fun d => !d.isWeak) = some d := h
  show (definitions ++ more).find? _ = some d
  rw [List.find?_append, hfound]
  rfl

theorem considerDefinition_stands {index : Nat} {obj : LoadedObject} {symbol : Symbol}
    {weak : Option Definition} {definitions : List Definition}
    (h : Stands (.seeking weak) definitions) : Stands (considerDefinition index obj symbol weak)
      (definitions ++ [⟨symbol.value + obj.bias, symbol, index⟩]) := by
  obtain ⟨rfl, hall⟩ := h
  rw [considerDefinition]
  split
  · dsimp only
    split
    · next hweak =>
      have hallWeak : ∀ d ∈ definitions ++ [(⟨symbol.value + obj.bias, symbol,
          index⟩ : Definition)],
          d.isWeak := by
        intro d hd
        rcases List.mem_append.1 hd with hold | hnew
        · exact hall d hold
        · rw [List.mem_singleton.1 hnew]
          simpa [Definition.isWeak] using hweak
      split
      · next hnone =>
        obtain rfl := List.head?_eq_none_iff.1 (Option.isNone_iff_eq_none.1 hnone)
        exact ⟨rfl, hallWeak⟩
      · next hsome =>
        refine ⟨?_, hallWeak⟩
        cases definitions with
        | nil => simp at hsome
        | cons first rest => rfl
    · next hstrong =>
      have hnone : definitions.find? (fun d => !d.isWeak) = none :=
        List.find?_eq_none.2 fun d hd => by simp [hall d hd]
      show (definitions ++ [_]).find? _ = some _
      rw [List.find?_append, hnone]
      simp [Definition.isWeak, hstrong]
  · trivial

theorem considerSymbol_stands {s : State} {name : List UInt8} {index : Nat} {obj : LoadedObject}
    {symIndex : Nat} {weak : Option Definition} {definitions : List Definition}
    (h : Stands (.seeking weak) definitions) {search : Search}
    (hsearch : considerSymbol s name index obj symIndex weak = .ok search) :
    Stands search (definitions ++ (offer s name index obj symIndex).toList) := by
  obtain ⟨symbol, hsymbol, hrest⟩ := Outcome.bind_eq_ok hsearch
  obtain ⟨candidate, hcandidate, hrest⟩ := Outcome.bind_eq_ok hrest
  rw [offer, hsymbol]
  dsimp only
  rw [hcandidate]
  dsimp only
  split at hrest
  · next hoffered =>
    rw [if_pos hoffered, ← Outcome.ok.inj hrest]
    exact considerDefinition_stands h
  · next hskipped =>
    rw [if_neg hskipped, ← Outcome.ok.inj hrest]
    simpa using h

/-- A strong definition ends the search, a weak one is kept for the end. -/
theorem searchObject_stands {s : State} {name : List UInt8} {index : Nat} {obj : LoadedObject}
    {search search' : Search} {definitions : List Definition} (h : Stands search definitions)
    (hsearch : searchObject s name index obj search = .ok search') :
    Stands search' (definitions ++ offers s name index obj) := by
  refine forRange_eq_ok (fun n search => Stands search (definitions ++
    (List.range n).flatMap fun j => (offer s name index obj (j + 1)).toList)) (by simpa using h)
    (fun j _ before after hbefore hround => ?_) hsearch
  rw [List.range_succ, List.flatMap_append, List.flatMap_singleton, ← List.append_assoc]
  cases before with
  | seeking weak =>
    cases hconsider : considerSymbol s name index obj (j + 1) weak with
    | ok search =>
      simp only [hconsider, orFailed, Outcome.ok.injEq] at hround
      subst hround
      exact considerSymbol_stands hbefore hconsider
    | err e =>
      simp only [hconsider, orFailed, Outcome.ok.injEq] at hround
      subst hround
      trivial
    | stuck => simp [hconsider, orFailed] at hround
  | found d =>
    simp only [Outcome.ok.injEq] at hround
    subst hround
    exact hbefore.found_append _
  | failed =>
    simp only [Outcome.ok.injEq] at hround
    subst hround
    trivial

/-- The outer loop of `resolve_symbol`. -/
def searchAll (s : State) (name : List UInt8) (isCopyReloc : Bool) : Outcome Unit Search :=
  forRange s.objects.length
    (fun i search =>
      if isCopyReloc && i == 0 then .ok search
      else
        match s.objects[i]? with
        | some obj => searchObject s name i obj search
        | none => .stuck)
    (.seeking none)

theorem searchAll_stands {s : State} {name : List UInt8} {isCopyReloc : Bool} {search : Search}
    (h : searchAll s name isCopyReloc = .ok search) :
    Stands search (definitions s name isCopyReloc) := by
  refine forRange_eq_ok (fun n search => Stands search
    ((List.range n).flatMap (offersOf s name isCopyReloc)))
    (show Stands (.seeking none) _ from ⟨rfl, by simp⟩)
    (fun i hi before after hbefore hround => ?_) h
  rw [List.range_succ, List.flatMap_append, List.flatMap_singleton, offersOf]
  split at hround
  · next hskip =>
    rw [if_pos hskip, List.append_nil, ← Outcome.ok.inj hround]
    exact hbefore
  · next htake =>
    rw [if_neg htake]
    have hobj := List.getElem?_eq_getElem hi
    rw [hobj] at hround ⊢
    exact searchObject_stands hbefore hround

theorem considerSymbol_ne_failed {s : State} {name : List UInt8} {isCopyReloc : Bool}
    (horder : InOrder s name isCopyReloc) {i : Nat} {obj : LoadedObject}
    (hobj : s.objects[i]? = some obj) (htake : ¬ (isCopyReloc && i == 0)) {j : Nat} (hpos : 0 < j)
    (hj : j < obj.symbolCount) (weak : Option Definition) :
    ∃ search, considerSymbol s name i obj j weak = .ok search ∧ search ≠ .failed := by
  obtain ⟨symbol, candidate, hsymbol, hcandidate, hvalid⟩ := horder i obj hobj htake j hpos hj
  rw [considerSymbol, hsymbol, Outcome.ok_bind, hcandidate, Outcome.ok_bind]
  split
  · next hoffered =>
    rw [considerDefinition, if_pos (hvalid hoffered.1 hoffered.2)]
    split
    · split <;> simp
    · simp
  · exact ⟨_, rfl, by simp⟩

theorem searchAll_ne_failed {s : State} {name : List UInt8} {isCopyReloc : Bool}
    (horder : InOrder s name isCopyReloc) {search : Search}
    (h : searchAll s name isCopyReloc = .ok search) : search ≠ .failed := by
  refine forRange_eq_ok (fun _ search => search ≠ .failed) (by simp)
    (fun i hi before after hbefore hround => ?_) h
  split at hround
  · rw [← Outcome.ok.inj hround]
    exact hbefore
  · next htake =>
    have hobj := List.getElem?_eq_getElem hi
    rw [hobj] at hround
    refine forRange_eq_ok (fun _ search => search ≠ .failed) hbefore
      (fun j hj before after hbefore hround => ?_) hround
    cases before with
    | seeking weak =>
      obtain ⟨search, hconsider, hok⟩ :=
        considerSymbol_ne_failed horder hobj htake (Nat.succ_pos j) (by omega) weak
      simp only [hconsider, orFailed, Outcome.ok.injEq] at hround
      rw [← hround]
      exact hok
    | found d =>
      rw [← Outcome.ok.inj hround]
      simp
    | failed => exact absurd rfl hbefore

theorem resolveSymbol_some {s : State} {name : List UInt8} {isCopyReloc : Bool} {d : Definition}
    (h : resolveSymbol s name isCopyReloc = .ok (some d)) :
    chosen (definitions s name isCopyReloc) = some d := by
  obtain ⟨search, hsearch, hresult⟩ := Outcome.bind_eq_ok h
  have hresult : search.result = some d := Outcome.ok.inj hresult
  rw [← (searchAll_stands hsearch).result ?_, hresult]
  rintro rfl
  cases hresult

theorem resolveSymbol_none {s : State} {name : List UInt8} {isCopyReloc : Bool}
    (h : resolveSymbol s name isCopyReloc = .ok none) (horder : InOrder s name isCopyReloc) :
    definitions s name isCopyReloc = [] := by
  obtain ⟨search, hsearch, hresult⟩ := Outcome.bind_eq_ok h
  rw [(searchAll_stands hsearch).result (searchAll_ne_failed horder hsearch), chosen] at hresult
  cases hdefs : definitions s name isCopyReloc with
  | nil => rfl
  | cons first rest => simp [hdefs] at hresult

theorem mem_definitions {s : State} {name : List UInt8} {isCopyReloc : Bool} {d : Definition}
    (h : d ∈ definitions s name isCopyReloc) : ¬ (isCopyReloc && d.owner == 0) ∧
      ∃ obj, s.objects[d.owner]? = some obj ∧ d.value = d.symbol.value + obj.bias := by
  obtain ⟨i, -, hd⟩ := List.mem_flatMap.1 h
  rw [offersOf] at hd
  split at hd
  · cases hd
  · next htake =>
    split at hd
    · next obj hobj =>
      obtain ⟨j, -, hoffer⟩ := List.mem_flatMap.1 hd
      rw [Option.mem_toList, offer] at hoffer
      split at hoffer
      · split at hoffer
        · split at hoffer
          · cases hoffer
            exact ⟨htake, obj, hobj, rfl⟩
          · cases hoffer
        · cases hoffer
      · cases hoffer
    · cases hd

theorem chosen_mem {definitions : List Definition} {d : Definition}
    (h : chosen definitions = some d) : d ∈ definitions := by
  rw [chosen, Option.or_eq_some_iff] at h
  rcases h with hstrong | ⟨-, hfirst⟩
  · exact List.mem_of_find?_eq_some hstrong
  · exact List.mem_of_head? hfirst

/-! ## References -/

theorem findReference_cases {s : State} {index : Nat} {obj : LoadedObject} {reloc : Rel}
    {reference : Reference} (h : findReference s index obj reloc = .ok reference) :
    ∃ symbol name, getSymbolAt s index obj reloc.symIndex = .ok symbol ∧
      getStringAt s index obj symbol.name = .ok name ∧ reference.size = symbol.size ∧
      (((symbol.binding = stbLocal ∧ symbol.section_ ≠ shnUndef) ∧
          reference.value = symbol.value + obj.bias ∧ reference.definition.size = 0) ∨
        (¬ (symbol.binding = stbLocal ∧ symbol.section_ ≠ shnUndef) ∧
          ∃ d, resolveSymbol s name (reloc.type == r386Copy) = .ok (some d) ∧
            reference.value = d.value ∧ reference.definition = d.symbol ∧
              reference.owner = d.owner) ∨
        (¬ (symbol.binding = stbLocal ∧ symbol.section_ ≠ shnUndef) ∧
          resolveSymbol s name (reloc.type == r386Copy) = .ok none ∧ symbol.binding = stbWeak ∧
            reference.value = 0)) := by
  obtain ⟨symbol, hsymbol, hrest⟩ := Outcome.bind_eq_ok h
  obtain ⟨name, hname, hrest⟩ := Outcome.bind_eq_ok hrest
  refine ⟨symbol, name, hsymbol, hname, ?_⟩
  split at hrest
  · next hlocal =>
    obtain ⟨_, -, hrest⟩ := Outcome.bind_eq_ok hrest
    obtain rfl := Outcome.ok.inj hrest
    exact ⟨rfl, .inl ⟨hlocal, rfl, rfl⟩⟩
  · next hlocal =>
    obtain ⟨resolved, hresolved, hrest⟩ := Outcome.bind_eq_ok hrest
    cases resolved with
    | some d =>
      obtain rfl := Outcome.ok.inj hrest
      exact ⟨rfl, .inr (.inl ⟨hlocal, d, hresolved, rfl, rfl, rfl⟩)⟩
    | none =>
      obtain ⟨_, hweak, hrest⟩ := Outcome.bind_eq_ok hrest
      obtain rfl := Outcome.ok.inj hrest
      exact ⟨rfl, .inr (.inr ⟨hlocal, hresolved, ensure_eq_ok hweak, rfl⟩)⟩

theorem findReference_copy {s : State} {index : Nat} {obj : LoadedObject} {reloc : Rel}
    {reference : Reference} (h : findReference s index obj reloc = .ok reference)
    (hcopy : reloc.type = r386Copy) (hvalue : reference.value ≠ 0) :
    reference.definition.size = 0 ∨ (reference.owner ≠ 0 ∧ ∃ owner,
      s.objects[reference.owner]? = some owner ∧
      reference.value = reference.definition.value + owner.bias) := by
  obtain ⟨symbol, name, -, -, -, hcases⟩ := findReference_cases h
  rcases hcases with ⟨-, -, hempty⟩ | ⟨-, d, hd, hval, hdef, howner⟩ | ⟨-, -, -, hzero⟩
  · exact .inl hempty
  · obtain ⟨htake, owner, hobj, hplace⟩ := mem_definitions (chosen_mem (resolveSymbol_some hd))
    refine .inr ⟨fun hfirst => htake ?_, owner, howner ▸ hobj, ?_⟩
    · simp [hcopy, ← howner, hfirst]
    · rw [hval, hdef, hplace]
  · exact absurd hzero hvalue

end UnDOS.UserLoader
