import Mathlib.Data.List.TakeWhile
import UnDOS.Loader.Relocate

/-!
# Direct Loader: What the Export Table Means

`udl_collect_exports` walks the symbols of the kernel, then those of the HAL, and
keeps the first definition of every name.  `exportAddress` says the same without a
table; `collectExports_safe` connects the two.
-/

namespace UnDOS.Loader

open UnDOS.Lib UnDOS.Lib.Outcome

/-! ## Definitions of an image -/

/-- What symbol `index` offers to the other image: its name and its run-time
    address. -/
def definitionAt (image : Image) (index : Nat) : Option (List UInt8 × Nat) :=
  let symbol := symbolAt image index
  let name := chars (symbolString image index)
  if name = [] ∨ !symbol.exported then none
  else if symbol.section_ = shnAbs then some (name, symbol.value)
  else
    match image.sections[symbol.section_]? with
    | some s => if s.alloc then some (name, symbol.value + image.bias) else none
    | none => none

/-- The definitions among the first `n` symbols. -/
def definitions (image : Image) (n : Nat) : List (List UInt8 × Nat) :=
  (List.range n).filterMap (definitionAt image)

/-- The first definition of `name`. -/
def findDefinition (defs : List (List UInt8 × Nat)) (name : List UInt8) : Option Nat :=
  (defs.find? fun d => d.1 == name).map (·.2)

/-- The address that the two images export under `name`. -/
def exportAddress (kernel hal : Image) (name : List UInt8) : Option Nat :=
  findDefinition (definitions kernel (symbolCount kernel) ++ definitions hal (symbolCount hal)) name

theorem definitions_succ (image : Image) (n : Nat) :
    definitions image (n + 1) = definitions image n ++ (definitionAt image n).toList := by
  unfold definitions
  rw [List.range_succ]
  cases h : definitionAt image n <;> simp [h]

theorem findDefinition_snoc (defs : List (List UInt8 × Nat)) (d : List UInt8 × Nat)
    (name : List UInt8) : findDefinition (defs ++ [d]) name
      = (findDefinition defs name).or (if d.1 = name then some d.2 else none) := by
  unfold findDefinition
  rw [List.find?_append]
  cases defs.find? fun d => d.1 == name with
  | some e => simp
  | none => by_cases h : d.1 = name <;> simp [h]

/-! ## The table -/

/-- The table holds the first definition of each name. -/
structure Represents (exports : List Export) (defs : List (List UInt8 × Nat)) : Prop where
  ok : ExportsOk exports
  lookup : ∀ name, lookupExport exports name = findDefinition defs (chars name)

theorem lookupExport_snoc (exports : List Export) (e : Export) (name : CString) :
    lookupExport (exports ++ [e]) name
      = (lookupExport exports name).or (if chars e.name = chars name then some e.address
        else none) := by
  unfold lookupExport
  rw [List.find?_append]
  cases exports.find? fun e => chars e.name == chars name with
  | some e' => simp
  | none => by_cases h : chars e.name = chars name <;> simp [h]

theorem chars_copy {p : CString × Nat} (h : IsString p) :
    chars (p.1.take p.2 ++ [0]) = chars p.1 := by
  rw [← h.chars_eq]
  unfold chars
  rw [List.takeWhile_append_of_pos]
  · simp
  · intro c hc
    exact List.mem_takeWhile_imp (p := fun x : UInt8 => decide (x ≠ 0)) hc

variable {defs : List (List UInt8 × Nat)}

theorem Represents.duplicate {exports : List Export}
    (h : Represents exports defs) {name : CString} {old : Nat} (address : Nat)
    (hfound : lookupExport exports name = some old) :
    Represents exports (defs ++ [(chars name, address)]) := by
  refine ⟨h.ok, fun other => ?_⟩
  rw [findDefinition_snoc, ← h.lookup other]
  by_cases hsame : chars name = chars other
  · have hother : lookupExport exports other = some old := by
      rw [h.lookup other, ← hsame, ← h.lookup name]
      exact hfound
    simp [hother]
  · simp [hsame]

theorem Represents.append {exports : List Export}
    (h : Represents exports defs) {p : CString × Nat} (hp : IsString p) {e : Export}
    (hname : e.name = p.1.take p.2 ++ [0]) (hlt : e.address < 2 ^ 32) :
    Represents (exports ++ [e]) (defs ++ [(chars p.1, e.address)]) := by
  constructor
  · intro e' he'
    rcases List.mem_append.mp he' with hold | hnew
    · exact h.ok e' hold
    · rw [List.mem_singleton.mp hnew]
      exact ⟨by simp [hname], hlt⟩
  · intro name
    rw [lookupExport_snoc, findDefinition_snoc, h.lookup name, hname, chars_copy hp]

theorem safe_addExport {imageIndex : Nat} {table : ExportTable} {p : CString × Nat} {address : Nat}
    (h : Represents table.exports defs) (hp : IsString p) (hlt : address < 2 ^ 32) :
    Safe (addExport imageIndex table p.1 p.2 address) fun table' =>
      Represents table'.exports (defs ++ [(chars p.1, address)]) := by
  refine (safe_exportByName h.ok hp.terminated).bind fun found hfound => ?_
  cases found with
  | some old => exact Safe.ok (h.duplicate address hfound.symm)
  | none => exact Safe.ensure fun _ => Safe.ok (h.append hp rfl hlt)

/-! ## The loops -/

section

variable {image : Image}

theorem HasSymbols.safe_exportValue (h : HasSymbols image) {i : Nat}
    (hname : chars (symbolString image i) ≠ []) (hexported : (symbolAt image i).exported = true) :
    Safe (exportValue image (symbolAt image i)) fun r =>
      definitionAt image i = r.map (fun address => (chars (symbolString image i), address))
        ∧ ∀ address, r = some address → address < 2 ^ 32 := by
  have hkept : ¬(chars (symbolString image i) = [] ∨ !(symbolAt image i).exported) := by
    simp [hname, hexported]
  refine Safe.ite (fun habs => ?_) fun habs => ?_
  · refine Safe.ok ⟨?_, ?_⟩
    · simp only [definitionAt, if_neg hkept, if_pos habs, Option.map_some]
    · rintro _ ⟨⟩
      exact blobWord_lt_word _ _
  refine Safe.ensure fun hindex => h.safe_sectionAt hindex fun s hs => ?_
  refine Safe.ite (fun hnot => ?_) fun halloc => ?_
  · refine Safe.ok ⟨?_, by simp⟩
    have : s.alloc = false := by simpa using hnot
    simp only [definitionAt, if_neg hkept, if_neg habs, hs, this]
    rfl
  · refine Safe.ensure fun _ => Safe.orElse fun address haddress => Safe.ok ?_
    obtain ⟨rfl, hlt⟩ := add32_eq_some haddress
    have halloc' : s.alloc = true := by simpa using halloc
    constructor
    · simp only [definitionAt, if_neg hkept, if_neg habs, hs, halloc', if_true, Option.map_some]
    · rintro _ ⟨⟩
      exact hlt

theorem HasSymbols.safe_collectImage (h : HasSymbols image) (imageIndex : Nat)
    {table : ExportTable} {defs : List (List UInt8 × Nat)} (ht : Represents table.exports defs) :
    Safe (collectImage imageIndex image table) fun table' =>
      Represents table'.exports (defs ++ definitions image (symbolCount image)) := by
  apply h.safe_symtab
  apply Safe.forRange (I := fun n (t : ExportTable) =>
    Represents t.exports (defs ++ definitions image n))
  · simpa [definitions] using ht
  · intro i _ t hrep
    refine (h.safe_getSymbol i).bind fun symbol hsymbol => Safe.orElse fun symbol hsome => ?_
    obtain ⟨rfl, -⟩ := hsymbol symbol hsome
    refine (h.safe_symbolName i).bind fun name hname => Safe.orElse fun name hsome => ?_
    obtain ⟨hstring, hnameEq⟩ := hname name hsome
    rw [definitions_succ, ← List.append_assoc]
    refine Safe.ite (fun hskip => ?_) fun hkeep => ?_
    · -- Unnamed and local symbols define nothing.
      have hnone : definitionAt image i = none := by
        apply if_pos
        rcases hskip with hlen | hlocal
        · left
          rw [← hnameEq, ← List.length_eq_zero_iff, ← hstring.length]
          exact hlen
        · exact .inr hlocal
      rw [hnone]
      exact Safe.ok (by simpa using hrep)
    · have hnonempty : chars (symbolString image i) ≠ [] := by
        intro hempty
        apply hkeep
        left
        rw [hstring.length, hnameEq, hempty]
        rfl
      have hexported : (symbolAt image i).exported = true := by
        by_contra hlocal
        exact hkeep (.inr (by simpa using hlocal))
      refine (h.safe_exportValue hnonempty hexported).bind fun value hvalue => ?_
      cases value with
      | none =>
        have hnone : definitionAt image i = none := hvalue.1
        rw [hnone]
        exact Safe.ok (by simpa using hrep)
      | some address =>
        have hsome : definitionAt image i = some (chars (symbolString image i), address) := hvalue.1
        rw [hsome, ← hnameEq]
        exact safe_addExport hrep hstring (hvalue.2 address rfl)

end

/-- **Exports.**  `udl_collect_exports` reads only inside the blobs, and its table
    gives every name the address of the first definition. -/
theorem collectExports_safe {kernel hal : Image} (hk : HasSymbols kernel) (hh : HasSymbols hal)
    (table : ExportTable) : Safe (collectExports kernel hal table) fun table' =>
      ExportsOk table'.exports
        ∧ ∀ name, lookupExport table'.exports name = exportAddress kernel hal (chars name) := by
  refine Safe.ensure fun _ => ?_
  have hempty : Represents [] [] := ⟨by simp [ExportsOk], fun _ => rfl⟩
  refine (hk.safe_collectImage 0 hempty).bind fun table' hkernel => ?_
  have hcounted : Represents
      ({ table' with kernelExportCount := table'.exports.length } : ExportTable).exports
      ([] ++ definitions kernel (symbolCount kernel)) := hkernel
  refine (hh.safe_collectImage 1 hcounted).mono fun table'' hall => ⟨hall.ok, ?_⟩
  simpa [exportAddress] using hall.lookup

end UnDOS.Loader
