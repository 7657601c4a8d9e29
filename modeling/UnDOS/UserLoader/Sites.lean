import UnDOS.UserLoader.Symbols

/-!
# The user-mode loader: relocation sites and tables

Relocation reads its tables while it writes to its sites.  As long as no site lies in a table
(`SitesApart`), all that is read from the tables is what was there when the objects were loaded:
`SameTables` says which bytes have to stay, and the lemmas here carry each lookup over.
-/

namespace UnDOS.UserLoader

open UnDOS.Lib UnDOS.Lib.Outcome

/-! ## Extents -/

/-- A range of addresses. -/
structure Extent where
  addr : Nat
  size : Nat
deriving DecidableEq

namespace Extent

/-- The address lies in the range. -/
def Covers (e : Extent) (a : Nat) : Prop := e.addr ≤ a ∧ a < e.addr + e.size

/-- No address lies in both ranges. -/
def Apart (e f : Extent) : Prop := ∀ a, e.Covers a → ¬ f.Covers a

theorem apart_iff (e f : Extent) :
    e.Apart f ↔ e.size = 0 ∨ f.size = 0 ∨ e.addr + e.size ≤ f.addr ∨ f.addr + f.size ≤ e.addr := by
  simp only [Apart, Covers]
  constructor
  · intro h
    -- The larger of the two first addresses decides.
    have hleft := h e.addr
    have hright := h f.addr
    omega
  · omega

instance (e f : Extent) : Decidable (e.Apart f) := decidable_of_iff _ (apart_iff e f).symm

end Extent

/-- The bytes of a range are the same in both memories. -/
def SameOn (e : Extent) (m m' : ByteStore) : Prop := ∀ a, e.Covers a → m' a = m a

/-- The tables of an object that relocation reads: symbols, strings and the two tables of
entries. -/
def LoadedObject.tables (obj : LoadedObject) : List Extent :=
  [⟨obj.symtabVaddr + obj.bias, obj.symbolCount * symbolSize⟩,
    ⟨obj.strtabVaddr + obj.bias, obj.strtabSize⟩,
    ⟨obj.relVaddr + obj.bias, obj.relSize⟩,
    ⟨obj.pltRelVaddr + obj.bias, obj.pltRelSize⟩]

/-! ## Sites -/

/-- The relocation entry in memory at an address. -/
def relAt (m : ByteStore) (addr : Nat) : Rel :=
  ⟨field (readAt m addr relSize) 0 4, field (readAt m addr relSize) 4 4⟩

/-- An entry of a relocation table of object `index`. -/
structure Site where
  index : Nat
  obj : LoadedObject
  reloc : Rel

/-- The entries of a relocation table. -/
def tableSites (m : ByteStore) (index : Nat) (obj : LoadedObject) (vaddr bytes : Nat) : List Site :=
  (List.range (bytes / relSize)).map fun i =>
    ⟨index, obj, relAt m (vaddr + obj.bias + i * relSize)⟩

/-- The entries of both tables of an object. -/
def objectSites (m : ByteStore) (index : Nat) (obj : LoadedObject) : List Site :=
  tableSites m index obj obj.relVaddr obj.relSize ++
    tableSites m index obj obj.pltRelVaddr obj.pltRelSize

/-- The entries of object `i`. -/
def sitesAt (s : State) (i : Nat) : List Site :=
  match s.objects[i]? with
  | some obj => objectSites s.memory i obj
  | none => []

/-- All entries, in load order. -/
def sites (s : State) : List Site := (List.range s.objects.length).flatMap (sitesAt s)

namespace Site

/-- The run-time address of a site. -/
def addr (site : Site) : Nat := site.reloc.offset + site.obj.bias

/-- The bytes that a relocation is about: what its symbol says for a copy, a word for any other, and
none for `R_386_NONE`. -/
def size (s : State) (site : Site) : Nat :=
  if site.reloc.type = r386None then 0
  else if site.reloc.type = r386Copy then
    match getSymbolAt s site.index site.obj site.reloc.symIndex with
    | .ok symbol => symbol.size
    | _ => 0
  else 4

def extent (s : State) (site : Site) : Extent := ⟨site.addr, site.size s⟩

end Site

/-- Relocation sites overlap neither each other nor a table. -/
structure SitesApart (s : State) : Prop where
  sites : (sites s).Pairwise fun a b => (a.extent s).Apart (b.extent s)
  tables : ∀ site ∈ UserLoader.sites s, ∀ obj ∈ s.objects, ∀ table ∈ obj.tables,
    (site.extent s).Apart table

/-! ## Tables that stay -/

/-- The objects and the bytes of their tables are the same. -/
structure SameTables (s t : State) : Prop where
  kept : Kept s t
  tables : ∀ obj ∈ s.objects, ∀ table ∈ obj.tables, SameOn table s.memory t.memory

section Lookups

variable {s t : State} {index : Nat} {obj : LoadedObject}

theorem mayRead_congr (h : Kept s t) (addr size : Nat) :
    mayRead t index obj addr size = mayRead s index obj addr size := by
  rw [mayRead, mayRead, State.mappedFor, State.mappedFor, h.owner]

theorem readBytes_congr (h : Kept s t) {e : Extent} (hsame : SameOn e s.memory t.memory)
    {addr size : Nat} (hlow : e.addr ≤ addr) (hhigh : addr + size ≤ e.addr + e.size) :
    readBytes t index obj addr size = readBytes s index obj addr size := by
  have hbytes : readAt t.memory addr size = readAt s.memory addr size :=
    readAt_congr fun k hk => hsame (addr + k) ⟨by omega, by omega⟩
  rw [readBytes, readBytes, mayRead_congr h, hbytes]

theorem scanString_congr (h : Kept s t) {e : Extent} (hsame : SameOn e s.memory t.memory)
    {addr limit : Nat} (hlow : e.addr ≤ addr) (hhigh : addr + limit ≤ e.addr + e.size) :
    scanString t index obj addr limit = scanString s index obj addr limit := by
  induction limit generalizing addr with
  | zero => rfl
  | succ limit ih =>
    rw [scanString, scanString, readBytes_congr h hsame hlow (by omega)]
    rw [ih (by omega) (by omega)]

theorem getStringAt_congr (h : SameTables s t) (hobj : obj ∈ s.objects) (offset : Nat) :
    getStringAt t index obj offset = getStringAt s index obj offset := by
  refine ensure_bind_congr fun hc => bind_congr fun host hhost => ?_
  obtain ⟨rfl, -⟩ := (@resolve_safe obj _ _).of_ok hhost
  apply scanString_congr h.kept (h.tables obj hobj _ (.tail _ (.head _)))
  · dsimp only
    omega
  · dsimp only
    omega

theorem symbol_place {symIndex : Nat} (hcount : obj.symbolCount ≤ maxImageSize / symbolSize)
    (hindex : symIndex < obj.symbolCount)
    (hfits : obj.symtabVaddr ≤ 0xffffffff - wrap32 (symIndex * symbolSize)) :
    wrap32 (obj.symtabVaddr + wrap32 (symIndex * symbolSize)) =
      obj.symtabVaddr + symIndex * symbolSize := by
  simp only [maxImageSize, symbolSize, wrap32] at *
  omega

theorem getSymbolAt_congr (h : SameTables s t) (hobj : obj ∈ s.objects)
    (hcount : obj.symbolCount ≤ maxImageSize / symbolSize) (symIndex : Nat) :
    getSymbolAt t index obj symIndex = getSymbolAt s index obj symIndex := by
  refine ensure_bind_congr fun hc => bind_congr fun host hhost => ?_
  obtain ⟨rfl, -⟩ := (@resolveTable_safe obj _ _ _).of_ok hhost
  rw [symbol_place hcount hc.1 hc.2, readSymbol, readSymbol,
    readBytes_congr h.kept (h.tables obj hobj _ (.head _))]
  · dsimp only
    omega
  · simp only [symbolSize] at *
    omega

end Lookups

/-! ## References -/

section References

variable {sys : System} {s t : State}

theorem considerSymbol_congr (hok : AllOk sys s) (h : SameTables s t) {index : Nat}
    {obj : LoadedObject} (hobj : s.objects[index]? = some obj) (name : List UInt8) (symIndex : Nat)
    (weak : Option Definition) :
    considerSymbol t name index obj symIndex weak =
      considerSymbol s name index obj symIndex weak := by
  have hmem := List.mem_of_getElem? hobj
  rw [considerSymbol, getSymbolAt_congr h hmem (hok.loaded index obj hobj).symbols]
  refine bind_congr fun symbol _ => ?_
  rw [getStringAt_congr h hmem]

theorem resolveSymbol_congr (hok : AllOk sys s) (h : SameTables s t) (name : List UInt8)
    (isCopyReloc : Bool) : resolveSymbol t name isCopyReloc = resolveSymbol s name isCopyReloc := by
  rw [resolveSymbol, h.kept.objects]
  congr 1
  refine forRange_congr fun i hi search => ?_
  rw [List.getElem?_eq_getElem hi]
  split
  · rfl
  · refine forRange_congr fun j _ search => ?_
    cases search with
    | seeking weak =>
      dsimp only
      rw [considerSymbol_congr hok h (List.getElem?_eq_getElem hi)]
    | found d => rfl
    | failed => rfl

theorem findReference_congr (hok : AllOk sys s) (h : SameTables s t) {index : Nat}
    {obj : LoadedObject} (hobj : s.objects[index]? = some obj) (reloc : Rel) :
    findReference t index obj reloc = findReference s index obj reloc := by
  have hmem := List.mem_of_getElem? hobj
  rw [findReference, getSymbolAt_congr h hmem (hok.loaded index obj hobj).symbols]
  refine bind_congr fun symbol _ => ?_
  rw [getStringAt_congr h hmem]
  refine bind_congr fun name _ => ?_
  rw [resolveSymbol_congr hok h]

end References

end UnDOS.UserLoader
