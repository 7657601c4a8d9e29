import Mathlib.Data.List.Flatten
import Mathlib.Data.List.Pairwise
import UnDOS.UserLoader.Contents
import UnDOS.UserLoader.Sites

/-!
# The user-mode loader: what relocation leaves

A pass works through a list of sites.  `Progress` says where it stands: the sites behind it hold
what they should, and every other byte is as it was.
-/

namespace UnDOS.UserLoader

open UnDOS.Lib UnDOS.Lib.Outcome UnDOS.Lib.Prog

/-! ## Where a pass stands -/

/-- A pass changes a site: it is for copies, or for all others. -/
def Active (copyOnly : Bool) (site : Site) : Prop :=
  site.reloc.type ≠ r386None ∧ (site.reloc.type == r386Copy) = copyOnly

/-- The bytes that a pass leaves at a site: a copy of those of the definition, or the relocated
word. The references are those of `s`, the bytes those of `base`, where the pass began. -/
def Relocated (s base : State) (site : Site) (data : List UInt8) : Prop :=
  isValidVirtualRange site.obj site.reloc.offset (site.size s) = true ∧
  if site.reloc.type = r386Copy then
    ∃ reference, findReference s site.index site.obj site.reloc = .ok reference ∧
      reference.value ≠ 0 ∧ reference.size ≤ reference.definition.size ∧
      data = readAt base.memory reference.value reference.size
  else
    ∃ (reference : Reference) (word : Nat), (site.reloc.type ≠ r386Relative →
        findReference s site.index site.obj site.reloc = .ok reference) ∧
      relocatedWord site.reloc.type site.obj.bias reference.value site.addr
        (wordAt base.memory site.addr 4) = some word ∧
      data = leBytes 4 word

/-- A pass that began in `base` is done with some sites. -/
structure Progress (s base : State) (copyOnly : Bool) (done : List Site) (t : State) : Prop where
  kept : Kept base t
  same : ∀ a, (∀ site ∈ done, Active copyOnly site → ¬ (site.extent s).Covers a) →
    t.memory a = base.memory a
  holds : ∀ site ∈ done, Active copyOnly site →
    Relocated s base site (readAt t.memory site.addr (site.size s))

theorem Progress.nil (s base : State) (copyOnly : Bool) : Progress s base copyOnly [] base :=
  ⟨.refl base, fun _ _ => rfl, by simp⟩

variable {s base t : State} {done : List Site}

theorem Progress.skip {copyOnly : Bool} {site : Site}
    (h : Progress s base copyOnly done t) (hskip : ¬ Active copyOnly site) :
    Progress s base copyOnly (done ++ [site]) t := by
  refine ⟨h.kept, fun a ha => h.same a fun d hd => ha d (List.mem_append_left _ hd), ?_⟩
  intro d hd hactive
  rcases List.mem_append.1 hd with hold | hnew
  · exact h.holds d hold hactive
  · rw [List.mem_singleton.1 hnew] at hactive
    exact absurd hactive hskip

theorem Progress.write {copyOnly : Bool} {site : Site} (h : Progress s base copyOnly done t)
    (hapart : ∀ d ∈ done, (d.extent s).Apart (site.extent s)) (hactive : Active copyOnly site)
    {data : List UInt8} (hlength : data.length = site.size s) (hdata : Relocated s base site data) :
    Progress s base copyOnly (done ++ [site])
      { t with memory := writeAt t.memory site.addr data } := by
  have hframe : ∀ a, ¬ (site.extent s).Covers a → writeAt t.memory site.addr data a =
      t.memory a := by
    intro a ha
    rw [writeAt, if_neg]
    rwa [hlength]
  refine ⟨⟨h.kept.owner, h.kept.objects⟩, fun a ha => ?_, fun d hd hd' => ?_⟩
  · have hnew := ha site (List.mem_append_right _ (List.mem_singleton_self site)) hactive
    exact (hframe a hnew).trans (h.same a fun d hd => ha d (List.mem_append_left _ hd))
  · rcases List.mem_append.1 hd with hold | hnew
    · have hsame : readAt (writeAt t.memory site.addr data) d.addr (d.size s) =
          readAt t.memory d.addr (d.size s) :=
        readAt_congr fun k hk => hframe _ (hapart d hold _ ⟨Nat.le_add_right _ _, by
          exact Nat.add_lt_add_left hk _⟩)
      rw [hsame]
      exact h.holds d hold hd'
    · obtain rfl := List.mem_singleton.1 hnew
      rw [← hlength, readAt_writeAt_self]
      exact hdata

theorem Progress.sameOn {copyOnly : Bool} (h : Progress s base copyOnly done t) {e : Extent}
    (hapart : ∀ d ∈ done, Active copyOnly d → (d.extent s).Apart e) :
    SameOn e base.memory t.memory :=
  fun a ha => h.same a fun d hd hactive hcovers => hapart d hd hactive a hcovers ha

/-! ## One site -/

/-- Sites of objects, apart from each other and from the tables. -/
structure Orderly (s : State) (list : List Site) : Prop where
  objects : ∀ site ∈ list, s.objects[site.index]? = some site.obj
  sites : list.Pairwise fun a b => (a.extent s).Apart (b.extent s)
  tables : ∀ site ∈ list, ∀ obj ∈ s.objects, ∀ table ∈ obj.tables, (site.extent s).Apart table

theorem Orderly.sublist {list list' : List Site} (h : Orderly s list)
    (hsub : list'.Sublist list) : Orderly s list' :=
  ⟨fun site hsite => h.objects site (hsub.subset hsite), h.sites.sublist hsub,
    fun site hsite => h.tables site (hsub.subset hsite)⟩

theorem Orderly.last {site : Site} (h : Orderly s (done ++ [site])) :
    ∀ d ∈ done, (d.extent s).Apart (site.extent s) :=
  fun d hd => (List.pairwise_append.1 h.sites).2.2 d hd site (List.mem_singleton_self site)

theorem Progress.sameTables {copyOnly : Bool}
    (h : Progress s base copyOnly done t) (hbase : SameTables s base) (horderly : Orderly s done) :
    SameTables s t := by
  refine ⟨hbase.kept.trans h.kept, fun obj hobj table htable a ha => ?_⟩
  have hsame := h.sameOn fun d hd _ => horderly.tables d hd obj hobj table htable
  exact (hsame a ha).trans (hbase.tables obj hobj table htable a ha)

theorem Placed.owner {sys : System} {owner : Nat → Option Nat} {index : Nat} {obj : LoadedObject}
    (h : Placed sys owner index obj) {vaddr size a : Nat}
    (hvalid : isValidVirtualRange obj vaddr size) (hlow : vaddr + obj.bias ≤ a)
    (hhigh : a < vaddr + obj.bias + size) : owner (a / pageSize) = some index := by
  rw [isValidVirtualRange, Bool.and_eq_true, List.any_eq_true] at hvalid
  obtain ⟨-, p, hp, hin⟩ := hvalid
  simp only [Bool.and_eq_true, beq_iff_eq, decide_eq_true_eq] at hin
  obtain ⟨hload, hvaddr, hsize, hrest⟩ := hin
  exact (h p hp hload (by omega)).mapped a (by omega) (by omega)

theorem readWord_value {index : Nat} {obj : LoadedObject} {addr : Nat}
    (h : mayRead s index obj addr 4) :
    Safe (readWord s index obj addr) fun word => word = wordAt s.memory addr 4 := by
  rw [readWord, readBytes, if_pos h]
  rfl

section Step

variable {sys : System} {s base t : State} {copyOnly : Bool} {done : List Site} {site : Site}

/-- The word of a site is written once, and no other site is touched. -/
theorem relocateWord_progress (hok : AllOk sys s) (hbase : SameTables s base)
    (horderly : Orderly s (done ++ [site])) (h : Progress s base copyOnly done t)
    (hactive : Active copyOnly site) (hword : site.reloc.type ≠ r386Copy)
    (hvalid : isValidVirtualRange site.obj site.reloc.offset 4) (reference : Reference)
    (hreference : site.reloc.type ≠ r386Relative →
      findReference s site.index site.obj site.reloc = .ok reference) : Checked (do
        let word ← orFail (relocationFailure copyOnly) fun s =>
          readWord s site.index site.obj site.addr
        match relocatedWord site.reloc.type site.obj.bias reference.value site.addr word with
        | some value => writeBytes sys site.index site.obj site.addr (leBytes 4 value)
        | none => Prog.throw (relocationFailure copyOnly)) t
      fun _ u => Progress s base copyOnly (done ++ [site]) u := by
  have hobj := horderly.objects site (List.mem_append_right _ (List.mem_singleton_self site))
  have hkept := hbase.kept.trans h.kept
  have hplaced : Placed sys t.owner site.index site.obj :=
    hkept.owner ▸ (hok.loaded _ _ hobj).placed
  have hmay : mayWrite sys t site.index site.obj site.addr 4 := by
    have hroom : mayWrite sys t site.index site.obj (site.addr + 0) 4 :=
      hplaced.mayWrite hvalid (by omega)
    exact hroom
  have hsize : site.size s = 4 := by
    rw [Site.size, if_neg hactive.1, if_neg hword]
  refine (orFail_checked (readWord_value (mayRead_of_mayWrite hmay))).bind fun word t' ht' => ?_
  obtain ⟨rfl, rfl⟩ := ht'
  -- The pass has not touched the site yet.
  have hold : wordAt t'.memory site.addr 4 = wordAt base.memory site.addr 4 := by
    rw [wordAt]
    congr 1
    refine readAt_congr fun k hk => ?_
    refine h.sameOn (e := site.extent s) (fun d hd _ => horderly.last d hd) _
      ⟨Nat.le_add_right _ _, ?_⟩
    show site.addr + k < site.addr + site.size s
    omega
  rw [hold]
  split
  · next value hvalue =>
    refine (writeBytes_checked ?_).mono fun _ u hu => ?_
    · exact hmay
    · rw [hu]
      apply h.write horderly.last hactive (by rw [leBytes_length, hsize])
      rw [Relocated, if_neg hword, hsize]
      exact ⟨hvalid, reference, value, hreference, hvalue, rfl⟩
  · exact Checked.throw

theorem copySource_same (hok : AllOk sys s) (hbase : SameTables s base)
    (horderly : Orderly s (done ++ [site])) (h : Progress s base true done t)
    (hfirst : ∀ d ∈ done, d.index = 0) {reference : Reference} (hcopy : site.reloc.type = r386Copy)
    (hreference : findReference s site.index site.obj site.reloc = .ok reference)
    (hvalue : reference.value ≠ 0) (hle : reference.size ≤ reference.definition.size)
    {owner : LoadedObject} (howner : t.objects[reference.owner]? = some owner)
    (hsource : isValidVirtualRange owner reference.definition.value reference.size) :
    readAt t.memory reference.value reference.size =
      readAt base.memory reference.value reference.size := by
  rcases findReference_copy hreference hcopy hvalue with hempty | ⟨hlib, owner', howner', hplace⟩
  · rw [show reference.size = 0 by omega]
    rfl
  · have hkept := hbase.kept.trans h.kept
    obtain rfl : owner' = owner := by
      rw [hkept.objects, howner'] at howner
      exact Option.some.inj howner
    refine readAt_congr fun k hk => h.same _ fun d hd hactive hcovers => ?_
    -- The page would belong to the library and to the executable.
    have hd0 := hfirst d hd
    have hobj := horderly.objects d (List.mem_append_left _ hd)
    have hdest := (h.holds d hd hactive).1
    have hexec := (hok.loaded _ _ hobj).placed.owner hdest hcovers.1 hcovers.2
    have hlibrary := (hok.loaded _ _ howner').placed.owner hsource
      (a := reference.value + k) (by omega) (by omega)
    rw [hexec, hd0] at hlibrary
    exact hlib (Option.some.inj hlibrary).symm

theorem applyCopy_progress (hok : AllOk sys s) (hbase : SameTables s base)
    (horderly : Orderly s (done ++ [site])) (h : Progress s base true done t)
    (hfirst : ∀ d ∈ done, d.index = 0) (hactive : Active true site)
    (hcopy : site.reloc.type = r386Copy) {reference : Reference}
    (hreference : findReference s site.index site.obj site.reloc = .ok reference) :
    Checked (applyCopy sys site.index site.obj site.reloc reference site.addr) t
      fun _ u => Progress s base true (done ++ [site]) u := by
  have hobj := horderly.objects site (List.mem_append_right _ (List.mem_singleton_self site))
  have hkept := hbase.kept.trans h.kept
  have href := (findReference_safe hok hobj site.reloc).of_ok hreference
  obtain ⟨owner, howner, hvalue⟩ := href
  have howner' : t.objects[reference.owner]? = some owner := hkept.objects ▸ howner
  have hsize : site.size s = reference.size := by
    obtain ⟨symbol, name, hsymbol, -, heq, -⟩ := findReference_cases hreference
    rw [Site.size, if_neg hactive.1, if_pos hcopy, hsymbol, heq]
  refine (orFail_checked (Q := fun data => data.length = reference.size ∧
    isValidVirtualRange site.obj site.reloc.offset reference.size = true ∧
    Relocated s base site data) ?_).bind fun data t' ht' => ?_
  · rw [howner']
    refine Safe.ensure fun hchecks => ?_
    obtain ⟨hvalue0, hle, -, hdest, hsource⟩ := hchecks
    have hmay : mayRead t reference.owner owner reference.value reference.size := by
      rcases hvalue with hnone | hvalue
      · simp [mayRead, show reference.size = 0 by omega]
      · rw [hvalue]
        have hplaced : Placed sys t.owner reference.owner owner :=
          hkept.owner ▸ (hok.loaded _ owner howner).placed
        have hread : mayRead t reference.owner owner (reference.definition.value + owner.bias + 0)
            reference.size := hplaced.mayRead hsource (by omega)
        exact hread
    rw [readBytes, if_pos hmay]
    refine ⟨readAt_length _ _ _, hdest, ?_⟩
    rw [Relocated, if_pos hcopy, hsize]
    refine ⟨hdest, reference, hreference, hvalue0, hle, ?_⟩
    exact copySource_same hok hbase horderly h hfirst hcopy hreference hvalue0 hle howner' hsource
  · obtain ⟨⟨hlength, hdest, hdata⟩, rfl⟩ := ht'
    have hplaced : Placed sys t'.owner site.index site.obj :=
      hkept.owner ▸ (hok.loaded _ _ hobj).placed
    have hwrite : mayWrite sys t' site.index site.obj (site.addr + 0) data.length :=
      hplaced.mayWrite hdest (by omega)
    refine (writeBytes_checked hwrite).mono fun _ u hu => ?_
    rw [hu]
    exact h.write horderly.last hactive (hlength.trans hsize.symm) hdata

theorem applySingleRelocation_progress (hok : AllOk sys s) (hbase : SameTables s base)
    (horderly : Orderly s (done ++ [site])) (h : Progress s base copyOnly done t)
    (hfirst : copyOnly = true → ∀ d ∈ done, d.index = 0) :
    Checked (applySingleRelocation sys site.index site.obj copyOnly site.reloc) t
      fun _ u => Progress s base copyOnly (done ++ [site]) u := by
  have hobj := horderly.objects site (List.mem_append_right _ (List.mem_singleton_self site))
  have htables := h.sameTables hbase (horderly.sublist (List.sublist_append_left _ _))
  refine (orFail_checked (resolve_safe _ _)).bind fun target t' ht' => ?_
  obtain ⟨⟨rfl, hvalid⟩, rfl⟩ := ht'
  refine Checked.ite (fun hskip => Checked.pure (h.skip fun hactive => ?_)) fun hgo => ?_
  · exact hskip.elim hactive.1 fun hother => hother hactive.2
  have hactive : Active copyOnly site := by
    rw [not_or, not_not] at hgo
    exact hgo
  have hrest : ∀ reference, (site.reloc.type ≠ r386Relative →
      findReference s site.index site.obj site.reloc = .ok reference) →
      Checked (if site.reloc.type = r386Copy then
          applyCopy sys site.index site.obj site.reloc reference site.addr
        else do
          let word ← orFail (relocationFailure copyOnly) fun s =>
            readWord s site.index site.obj site.addr
          match relocatedWord site.reloc.type site.obj.bias reference.value site.addr word with
          | some value => writeBytes sys site.index site.obj site.addr (leBytes 4 value)
          | none => Prog.throw (relocationFailure copyOnly)) t'
        fun _ u => Progress s base copyOnly (done ++ [site]) u := by
    intro reference hreference
    refine Checked.ite (fun hcopy => ?_) fun hword =>
      relocateWord_progress hok hbase horderly h hactive hword hvalid reference hreference
    obtain rfl : true = copyOnly := by simpa [hcopy] using hactive.2
    refine applyCopy_progress hok hbase horderly h (hfirst rfl) hactive hcopy (hreference ?_)
    rw [hcopy]
    decide
  refine Checked.ite (fun hrelative => hrest {} fun hother => absurd hrelative hother) fun _ => ?_
  have hfound : Safe (findReference t' site.index site.obj site.reloc) fun reference =>
      findReference s site.index site.obj site.reloc = .ok reference := by
    rw [findReference_congr hok htables hobj]
    exact (findReference_safe hok hobj site.reloc).strengthen fun _ heq _ => heq
  refine (orFail_checked hfound).bind fun reference u hu => ?_
  obtain ⟨hreference, rfl⟩ := hu
  exact hrest reference fun _ => hreference

end Step

/-! ## Whole passes -/

section Passes

variable {sys : System} {s base t : State} {copyOnly : Bool} {done : List Site}
variable {index vaddr bytes i : Nat} {obj : LoadedObject}

theorem readRel_value (htables : SameTables s t)
    (hobj : obj ∈ s.objects) (htable : ⟨vaddr + obj.bias, bytes⟩ ∈ obj.tables)
    (hi : i < bytes / relSize)
    (hmay : mayRead t index obj (vaddr + obj.bias + i * relSize) relSize) :
    Safe (readRel t index obj (vaddr + obj.bias + i * relSize)) fun reloc =>
      reloc = relAt s.memory (vaddr + obj.bias + i * relSize) := by
  have hsame : readAt t.memory (vaddr + obj.bias + i * relSize) relSize =
      readAt s.memory (vaddr + obj.bias + i * relSize) relSize := by
    refine readAt_congr fun k hk => htables.tables obj hobj _ htable _ ⟨?_, ?_⟩
    · dsimp only
      omega
    · rw [relSize] at *
      dsimp only
      omega
  rw [readRel, readBytes, if_pos hmay, hsame]
  rfl

theorem tableSites_zero (m : ByteStore) (index : Nat) (obj : LoadedObject) (vaddr : Nat) :
    tableSites m index obj vaddr 0 = [] := by
  simp [tableSites]

theorem relocateTable_progress (hok : AllOk sys s) (hbase : SameTables s base)
    (hobj : s.objects[index]? = some obj) (htable : ⟨vaddr + obj.bias, bytes⟩ ∈ obj.tables)
    (horderly : Orderly s (done ++ tableSites s.memory index obj vaddr bytes))
    (hfirst : copyOnly = true → index = 0 ∧ ∀ d ∈ done, d.index = 0)
    (h : Progress s base copyOnly done t) :
    Checked (relocateTable sys index obj vaddr bytes copyOnly) t fun _ u =>
      Progress s base copyOnly (done ++ tableSites s.memory index obj vaddr bytes) u := by
  refine Checked.ite (fun hempty => Checked.pure ?_) fun _ => ?_
  · rw [hempty, tableSites_zero, List.append_nil]
    exact h
  refine (orFail_checked (Q := fun host => host = vaddr + obj.bias ∧
    isValidVirtualRange obj vaddr (bytes / relSize * relSize)) ?_).bind fun host t' ht' => ?_
  · exact Safe.ensure fun _ => resolveTable_safe _ _ _
  obtain ⟨⟨rfl, hvalid⟩, rfl⟩ := ht'
  -- The entries before round `i`.
  refine Checked.forRange (I := fun i u => Progress s base copyOnly
    (done ++ (List.range i).map
      fun j => ⟨index, obj, relAt s.memory (vaddr + obj.bias + j * relSize)⟩) u)
    (by simpa using h) fun i hi u hu => ?_
  have hpart : ∀ k ≤ bytes / relSize, Orderly s (done ++ (List.range k).map fun j =>
      ⟨index, obj, relAt s.memory (vaddr + obj.bias + j * relSize)⟩) := fun k hk =>
    horderly.sublist ((List.Sublist.refl done).append ((List.range_sublist.2 hk).map _))
  have htables := hu.sameTables hbase (hpart i (by omega))
  have hread : mayRead u index obj (vaddr + obj.bias + i * relSize) relSize := by
    have hplaced : Placed sys u.owner index obj :=
      htables.kept.owner ▸ (hok.loaded index obj hobj).placed
    apply hplaced.mayRead hvalid
    rw [relSize] at *
    omega
  refine (orFail_checked (readRel_value htables (List.mem_of_getElem? hobj) htable hi hread)).bind
    fun reloc v hv => ?_
  obtain ⟨rfl, rfl⟩ := hv
  have hnext := hpart (i + 1) hi
  rw [List.range_succ, List.map_append, ← List.append_assoc] at hnext ⊢
  have hstep := applySingleRelocation_progress hok hbase hnext hu fun hcopy d hd => by
    rcases List.mem_append.1 hd with hold | hnew
    · exact (hfirst hcopy).2 d hold
    · obtain ⟨j, -, rfl⟩ := List.mem_map.1 hnew
      exact (hfirst hcopy).1
  exact hstep

theorem tableSites_index {m : ByteStore}
    {site : Site} (h : site ∈ tableSites m index obj vaddr bytes) :
    site.index = index ∧ site.obj = obj := by
  obtain ⟨j, -, rfl⟩ := List.mem_map.1 h
  exact ⟨rfl, rfl⟩

theorem objectSites_index {m : ByteStore} {site : Site}
    (h : site ∈ objectSites m index obj) : site.index = index ∧ site.obj = obj :=
  (List.mem_append.1 h).elim tableSites_index tableSites_index

theorem sitesAt_eq (hobj : s.objects[i]? = some obj) :
    sitesAt s i = objectSites s.memory i obj := by
  rw [sitesAt, hobj]

theorem relocateObject_progress (hok : AllOk sys s) (hi : i < s.objects.length)
    (horderly : Orderly s (done ++ sitesAt s i)) (h : Progress s s false done t) :
    Checked (relocateObject sys i) t fun _ u => Progress s s false (done ++ sitesAt s i) u := by
  have hsame : SameTables s s := ⟨.refl s, fun _ _ _ _ _ _ => rfl⟩
  have hobj := List.getElem?_eq_getElem hi
  rw [sitesAt_eq hobj, objectSites, ← List.append_assoc] at horderly ⊢
  apply Checked.get_bind
  rw [h.kept.objects, hobj]
  refine (relocateTable_progress hok hsame hobj (.tail _ (.tail _ (.head _)))
    (horderly.sublist (List.sublist_append_left _ _)) (by simp) h).bind fun _ u hu => ?_
  refine Checked.ite (fun _ => Checked.ite (fun _ => ?_) fun _ => Checked.throw) fun hnone => ?_
  · exact relocateTable_progress hok hsame hobj (.tail _ (.tail _ (.tail _ (.head _)))) horderly
      (by simp) hu
  · have hempty : (s.objects[i]).pltRelSize = 0 := by omega
    rw [hempty, tableSites_zero, List.append_nil]
    exact hu

theorem sites_sublist {n : Nat} (hn : n ≤ s.objects.length) :
    ((List.range n).flatMap (sitesAt s)).Sublist (sites s) :=
  (List.range_sublist.2 hn).flatMap _

theorem passOne_progress (hok : AllOk sys s) (horderly : Orderly s (sites s)) :
    Checked (forRange s.objects.length (relocateObject sys)) s fun _ t =>
      Progress s s false (sites s) t := by
  refine Checked.forRange (I := fun i t =>
    Progress s s false ((List.range i).flatMap (sitesAt s)) t)
    (Progress.nil s s false) fun i hi t ht => ?_
  have hpart := horderly.sublist (sites_sublist (hi))
  rw [List.range_succ, List.flatMap_append, List.flatMap_singleton] at hpart ⊢
  exact relocateObject_progress hok hi hpart ht

theorem passTwo_progress (hok : AllOk sys s) (hsome : 0 < s.objects.length)
    (horderly : Orderly s (sites s)) (hbase : SameTables s base) :
    Checked (relocateCopies sys) base fun _ t => Progress s base true (sitesAt s 0) t := by
  have hobj := List.getElem?_eq_getElem hsome
  have hpart : Orderly s (sitesAt s 0) := by
    refine horderly.sublist (List.Sublist.trans ?_ (sites_sublist (hsome)))
    simp
  rw [sitesAt_eq hobj, objectSites] at hpart ⊢
  apply Checked.get_bind
  rw [hbase.kept.objects, hobj]
  have hnil := Progress.nil s base true
  refine (relocateTable_progress hok hbase hobj (.tail _ (.tail _ (.head _)))
    (hpart.sublist (by simp)) (by simp) hnil).bind fun _ u hu => ?_
  refine relocateTable_progress hok hbase hobj (.tail _ (.tail _ (.tail _ (.head _)))) hpart
    (fun _ => ⟨rfl, fun d hd => (tableSites_index hd).1⟩) hu

end Passes

/-! ## What the sites mean -/

/-- The value of a relocation at `P` that holds `A`, of an object with the bias `B` and for a symbol
at `S`. -/
def relocationValue (type : Nat) (B S A P : ℤ) : Option ℤ :=
  if type = r386Relative then some (B + A)
  else if type = r386Abs32 then some (S + A)
  else if type = r386Pc32 then some (S + A - P)
  else if type = r386GlobDat ∨ type = r386JmpSlot then some S
  else none

/-- What a site refers to: the object's own symbol if that is local, or else what the name is bound
to, or 0 for a weak reference to nothing.  Of a weak reference to something nothing is said unless
the tables that are searched are in order. -/
def Means (s : State) (site : Site) (S : Nat) : Prop :=
  ∃ symbol name, getSymbolAt s site.index site.obj site.reloc.symIndex = .ok symbol ∧
    getStringAt s site.index site.obj symbol.name = .ok name ∧
    if symbol.binding = stbLocal ∧ symbol.section_ ≠ shnUndef then S = symbol.value + site.obj.bias
    else
      match chosen (definitions s name false) with
      | some d => (symbol.binding = stbWeak → InOrder s name false) → S = d.value
      | none => symbol.binding = stbWeak ∧ S = 0

theorem means_of_reference {site : Site} {reference : Reference}
    (h : findReference s site.index site.obj site.reloc = .ok reference)
    (hword : site.reloc.type ≠ r386Copy) : Means s site reference.value := by
  obtain ⟨symbol, name, hsymbol, hname, -, hcases⟩ := findReference_cases h
  have hplain : (site.reloc.type == r386Copy) = false := by simpa using hword
  rw [hplain] at hcases
  refine ⟨symbol, name, hsymbol, hname, ?_⟩
  rcases hcases with ⟨hlocal, hval, -⟩ | ⟨hlocal, d, hd, hval, -, -⟩ | ⟨hlocal, hnone, hweak, hval⟩
  · rw [if_pos hlocal]
    exact hval
  · rw [if_neg hlocal, resolveSymbol_some hd]
    exact fun _ => hval
  · rw [if_neg hlocal]
    cases hchosen : chosen (definitions s name false) with
    | some d =>
      intro horder
      -- A search through tables in order finds what there is.
      have hempty := resolveSymbol_none hnone (horder hweak)
      rw [hempty] at hchosen
      cases hchosen
    | none => exact ⟨hweak, hval⟩

theorem relocatedWord_value {type bias S P A word : Nat} (hP : P ≤ 2 ^ 32)
    (h : relocatedWord type bias S P A = some word) :
    ∃ v, relocationValue type bias S A P = some v ∧ (word : ℤ) % 2 ^ 32 = v % 2 ^ 32 := by
  rw [relocatedWord] at h
  rw [relocationValue]
  split at h
  · next htype =>
    rw [if_pos htype]
    refine ⟨_, rfl, ?_⟩
    cases h
    rw [wrap32]
    omega
  · next hrelative =>
    rw [if_neg hrelative]
    split at h
    · next htype =>
      rw [if_pos htype]
      refine ⟨_, rfl, ?_⟩
      cases h
      rw [wrap32]
      omega
    · next habs =>
      rw [if_neg habs]
      split at h
      · next htype =>
        rw [if_pos htype]
        refine ⟨_, rfl, ?_⟩
        cases h
        rw [wrap32, wrap32]
        omega
      · next hpc =>
        rw [if_neg hpc]
        split at h
        · next htype =>
          rw [if_pos htype]
          refine ⟨_, rfl, ?_⟩
          rw [Option.some.inj h]
        · cases h

/-- A word site after linking.  `A` is the word that the file has there. -/
def WordLinked (sys : System) (s : State) (m : ByteStore) (site : Site) : Prop :=
  ∃ (S : Nat) (v : ℤ), (site.reloc.type ≠ r386Relative → Means s site S) ∧
    relocationValue site.reloc.type site.obj.bias S (wordAt (fileImage sys site.obj) site.addr 4)
      site.addr = some v ∧
    (wordAt m site.addr 4 : ℤ) = v % 2 ^ 32

/-- A copy site after linking: it holds the first bytes of what a library defines.  `t` is where the
first pass ended. -/
def CopyLinked (s t : State) (m : ByteStore) (site : Site) : Prop :=
  ∃ symbol name, getSymbolAt s site.index site.obj site.reloc.symIndex = .ok symbol ∧
    getStringAt s site.index site.obj symbol.name = .ok name ∧
    (symbol.size = 0 ∨ ∃ d, chosen (definitions s name true) = some d ∧ d.owner ≠ 0 ∧
      symbol.size ≤ d.symbol.size ∧
      readAt m site.addr symbol.size = readAt t.memory d.value symbol.size)

theorem copyLinked_of_relocated {m : ByteStore} {site : Site} (hcopy : site.reloc.type = r386Copy)
    (h : Relocated s t site (readAt m site.addr (site.size s))) : CopyLinked s t m site := by
  rw [Relocated, if_pos hcopy] at h
  obtain ⟨-, reference, hreference, hvalue, hle, hdata⟩ := h
  have hlib := findReference_copy hreference hcopy hvalue
  obtain ⟨symbol, name, hsymbol, hname, hsize, hcases⟩ := findReference_cases hreference
  have hsize' : site.size s = symbol.size := by
    rw [Site.size, if_neg (by rw [hcopy]; decide), if_pos hcopy, hsymbol]
  rw [hcopy] at hcases
  refine ⟨symbol, name, hsymbol, hname, ?_⟩
  rcases hcases with ⟨-, -, hempty⟩ | ⟨-, d, hd, hval, hdef, howner⟩ | ⟨-, -, -, hzero⟩
  · exact .inl (by omega)
  · rcases hlib with hempty | ⟨hother, -⟩
    · exact .inl (by omega)
    · refine .inr ⟨d, resolveSymbol_some hd, howner ▸ hother, ?_, ?_⟩
      · rw [← hdef, ← hsize]
        exact hle
      · rw [← hsize', hdata, hval, hsize', hsize]
  · exact absurd hzero hvalue

/-! ## Linking -/

section Linking

variable {sys : System} {s t : State}

theorem mem_sites {site : Site} (h : site ∈ sites s) :
    s.objects[site.index]? = some site.obj ∧ site ∈ sitesAt s site.index := by
  obtain ⟨i, -, hsite⟩ := List.mem_flatMap.1 h
  have hsite' := hsite
  rw [sitesAt] at hsite'
  split at hsite'
  · next obj hobj =>
    obtain ⟨rfl, rfl⟩ := objectSites_index hsite'
    exact ⟨hobj, hsite⟩
  · cases hsite'

theorem SitesApart.orderly (h : SitesApart s) : Orderly s (UserLoader.sites s) :=
  ⟨fun _ hsite => (mem_sites hsite).1, h.sites, h.tables⟩

theorem SitesApart.apart (h : SitesApart s) {a b : Site} (ha : a ∈ UserLoader.sites s)
    (hb : b ∈ UserLoader.sites s) (hne : a ≠ b) : (a.extent s).Apart (b.extent s) := by
  have hsymm : Std.Symm fun a b : Site => (a.extent s).Apart (b.extent s) :=
    ⟨fun _ _ hab x hx hx' => hab x hx' hx⟩
  exact h.sites.forall ha hb hne

theorem relocated_addr (hok : AllOk sys s) {site : Site} (hsite : site ∈ sites s) {base : State}
    {data : List UInt8} (h : Relocated s base site data) (hsize : site.size s = 4) :
    site.addr ≤ 2 ^ 32 := by
  have hvalid := h.1
  rw [isValidVirtualRange, Bool.and_eq_true, List.any_eq_true] at hvalid
  obtain ⟨-, p, hp, hin⟩ := hvalid
  simp only [Bool.and_eq_true, beq_iff_eq, decide_eq_true_eq] at hin
  obtain ⟨hload, hvaddr, hmem, hrest⟩ := hin
  have hhigh := ((hok.loaded _ _ (mem_sites hsite).1).placed p hp hload (by omega)).high
  rw [userSpaceMaxAddr] at hhigh
  rw [Site.addr]
  omega

theorem wordLinked_of_relocated (hok : AllOk sys s) (himaged : AllImaged sys s) {m : ByteStore}
    {site : Site} (hsite : site ∈ sites s) (hsome : site.reloc.type ≠ r386None)
    (hword : site.reloc.type ≠ r386Copy)
    (h : Relocated s s site (readAt m site.addr 4)) : WordLinked sys s m site := by
  have hsize : site.size s = 4 := by rw [Site.size, if_neg hsome, if_neg hword]
  have haddr := relocated_addr hok hsite h hsize
  rw [Relocated, if_neg hword, hsize] at h
  obtain ⟨hvalid, reference, word, hreference, hrelocated, hdata⟩ := h
  have hstored : wordAt s.memory site.addr 4 = wordAt (fileImage sys site.obj) site.addr 4 := by
    exact congrArg leNat ((himaged _ _ (mem_sites hsite).1).readAt hvalid)
  rw [hstored] at hrelocated
  obtain ⟨v, hv, hmod⟩ := relocatedWord_value haddr hrelocated
  refine ⟨reference.value, v, fun hsymbolic => means_of_reference (hreference hsymbolic)
    hword, hv, ?_⟩
  rw [wordAt, hdata, leNat_leBytes]
  norm_cast

/-- Dynamic linking.  When sites overlap neither each other nor a table, every word site of every
object and every copy site of the executable hold after both passes what they should. -/
theorem sites_linked (sys : System) (executablePath : List UInt8) (memory : ByteStore)
    {s s' : State}
    (hload : loadAll sys executablePath (State.initial memory) = (.ok (), s))
    (hlink : relocateAll sys s = (.ok (), s')) (hapart : SitesApart s) :
    ∃ t, Prog.forRange s.objects.length (relocateObject sys) s = (.ok (), t) ∧
      relocateCopies sys t = (.ok (), s') ∧
      (∀ site ∈ sites s, site.reloc.type ≠ r386None → site.reloc.type ≠ r386Copy →
        WordLinked sys s s'.memory site) ∧
      ∀ site ∈ sites s, site.index = 0 → site.reloc.type = r386Copy →
        CopyLinked s t s'.memory site := by
  obtain ⟨hok, hsome, -⟩ := (loadAll_checked sys executablePath memory).of_ok hload
  have himaged := (loadAll_imaged sys executablePath memory).of_ok hload
  have horderly := hapart.orderly
  obtain ⟨_, t, hone, htwo⟩ := bind_eq_ok.1 (show (Prog.forRange s.objects.length
    (relocateObject sys) >>= fun _ => relocateCopies sys) s = (.ok (), s') from hlink)
  have hpassOne := (passOne_progress hok horderly).of_ok hone
  have hbase := hpassOne.sameTables ⟨.refl s, fun _ _ _ _ _ _ => rfl⟩ horderly
  have hpassTwo := (passTwo_progress hok hsome horderly hbase).of_ok htwo
  refine ⟨t, hone, htwo, fun site hsite hnone hword => ?_, fun site hsite hexec hcopy => ?_⟩
  · have hsize : site.size s = 4 := by rw [Site.size, if_neg hnone, if_neg hword]
    have hdone := hpassOne.holds site hsite ⟨hnone, by simpa using hword⟩
    -- The copies of the second pass lie apart from the words of the first.
    have hsame : SameOn (site.extent s) t.memory s'.memory := hpassTwo.sameOn fun d hd hactive => by
      have hd' : d ∈ sites s := by
        refine List.mem_flatMap.2 ⟨0, List.mem_range.2 hsome, hd⟩
      refine hapart.apart hd' hsite fun heq => ?_
      rw [heq] at hactive
      exact hword (by simpa using hactive.2)
    have hbytes : readAt s'.memory site.addr 4 = readAt t.memory site.addr 4 := by
      refine readAt_congr fun k hk => hsame _ ⟨Nat.le_add_right _ _, ?_⟩
      show site.addr + k < site.addr + site.size s
      omega
    apply wordLinked_of_relocated hok himaged hsite hnone hword
    rw [hbytes, ← hsize]
    exact hdone
  · have hmine := (mem_sites hsite).2
    rw [hexec] at hmine
    refine copyLinked_of_relocated hcopy (hpassTwo.holds site hmine ⟨?_, by simp [hcopy]⟩)
    rw [hcopy]
    decide

end Linking

/-! ## Two images -/

namespace Sample

def words (values : List Nat) : List UInt8 := values.flatMap (leBytes 4)

/-- An image in one segment: headers, the ABI note, the dynamic segment, and what comes after it. -/
def image (type base size : Nat) (dynamic : List Nat) (body : List UInt8) : List UInt8 :=
  [0x7f, 0x45, 0x4c, 0x46, 1, 1, 1, 0, 0, 0, 0, 0, 0, 0, 0, 0] ++
    leBytes 2 type ++ leBytes 2 em386 ++ words [1, base, elfHeaderSize, 0, 0] ++
    leBytes 2 elfHeaderSize ++ leBytes 2 programHeaderSize ++ leBytes 2 3 ++ leBytes 6 0 ++
    words [ptLoad, 0, base, base, size, size, 7, pageSize] ++
    words [ptNote, 148, base + 148, base + 148, 28, 28, 4, 4] ++
    words [ptDynamic, 176, base + 176, base + 176, 4 * dynamic.length, 4 * dynamic.length, 4, 4] ++
    words [6, 8, abiNoteType] ++ [0x55, 0x6e, 0x44, 0x4f, 0x53, 0, 0, 0] ++
    words [applicationAbiVersion, 0] ++ words dynamic ++ body

def symbol (name value size info section_ : Nat) : List UInt8 :=
  words [name, value, size] ++ [UInt8.ofNat info, 0] ++ leBytes 2 section_

/-- The section of an absolute symbol, which the loader does not know. -/
def shnAbs : Nat := 0xfff1

/-- An executable that defines an absolute `x`, takes a copy of `y` and refers to a weak `w`. -/
def executable : List UInt8 :=
  image etExec 0x20000 368
    [1, 7, 4, 0x20000 + 248, 5, 0x20000 + 320, 6, 0x20000 + 256, 10, 9, 11, 16,
      17, 0x20000 + 332, 18, 24, 0, 0]
    (words [1, 4] ++
      symbol 0 0 0 0 0 ++ symbol 1 0x20000 0 0x11 shnAbs ++ symbol 3 (0x20000 + 360) 4 0x11 1 ++
      symbol 5 0 0 0x20 0 ++
      [0, 0x78, 0, 0x79, 0, 0x77, 0, 0x6c, 0, 0, 0, 0] ++
      words [0x20000 + 356, 0x100 + r386GlobDat, 0x20000 + 360, 0x200 + r386Copy,
        0x20000 + 364, 0x300 + r386GlobDat] ++
      words [0, 0, 0])

/-- A library that defines `x`, `y` and, behind a symbol whose name is not in the table, `w`; it
also asks for a copy of `y`. -/
def library : List UInt8 :=
  image etDyn 0 352 [4, 240, 5, 328, 6, 248, 10, 7, 11, 16, 17, 336, 18, 8, 0, 0]
    (words [1, 5] ++
      symbol 0 0 0 0 0 ++ symbol 1 344 4 0x11 1 ++ symbol 3 344 4 0x11 1 ++
      symbol 100 0 0 0x11 1 ++ symbol 5 344 4 0x11 1 ++
      [0, 0x78, 0, 0x79, 0, 0x77, 0, 0] ++
      words [348, 0x200 + r386Copy] ++ words [77, 0])

def system : System where
  files path :=
    if path = textBytes "/a" then some executable
    else if path = textBytes "/l" then some library
    else none
  loaderBegin := 0x8000000
  loaderEnd := 0x8010000
  refuses _ := false

def loaded : Outcome String Unit × State :=
  loadAll system (textBytes "/a") (State.initial fun _ => 0)

def linked : Outcome String Unit × State := relocateAll system loaded.2

/-- The definitions under a name that are not absolute. -/
def relative (name : List UInt8) : List Definition :=
  (definitions loaded.2 name false).filter fun d => d.symbol.section_ != shnAbs

theorem evaluated : (loaded.1 = .ok () ∧ linked.1 = .ok () ∧
      (checkLifecycle linked.2).1 = .ok [1]) ∧
    ((sites loaded.2).Pairwise fun a b => (a.extent loaded.2).Apart (b.extent loaded.2)) ∧
    (∀ site ∈ sites loaded.2, ∀ obj ∈ loaded.2.objects, ∀ table ∈ obj.tables,
      (site.extent loaded.2).Apart table) ∧
    ((chosen (relative [0x78])).map (·.value) = some (0x11000000 + 344) ∧
      wordAt linked.2.memory (0x20000 + 356) 4 = 0x20000) ∧
    ((chosen (definitions loaded.2 [0x79] true)).map (·.value) = some (0x11000000 + 344) ∧
      wordAt linked.2.memory (0x11000000 + 344) 4 = 77 ∧
      wordAt linked.2.memory (0x11000000 + 348) 4 = 0) ∧
    ((chosen (relative [0x77])).map (·.value) = some (0x11000000 + 344) ∧
      wordAt linked.2.memory (0x20000 + 364) 4 = 0) := by
  decide +kernel

theorem loaded_ok : loaded = (.ok (), loaded.2) := by
  rw [← evaluated.1.1]

theorem linked_ok : linked = (.ok (), linked.2) := by
  rw [← evaluated.1.2.1]

theorem sitesApart : SitesApart loaded.2 := ⟨evaluated.2.1, evaluated.2.2.1⟩

end Sample

/-- The theorem on the two images. -/
theorem sites_linked_sample : ∃ t,
    Prog.forRange Sample.loaded.2.objects.length (relocateObject Sample.system) Sample.loaded.2 =
      (.ok (), t) ∧ relocateCopies Sample.system t = (.ok (), Sample.linked.2) ∧
    (∀ site ∈ sites Sample.loaded.2, site.reloc.type ≠ r386None → site.reloc.type ≠ r386Copy →
      WordLinked Sample.system Sample.loaded.2 Sample.linked.2.memory site) ∧
    ∀ site ∈ sites Sample.loaded.2, site.index = 0 → site.reloc.type = r386Copy →
      CopyLinked Sample.loaded.2 t Sample.linked.2.memory site :=
  sites_linked Sample.system (textBytes "/a") (fun _ => 0) Sample.loaded_ok Sample.linked_ok
    Sample.sitesApart

/-- An absolute definition is bound to like any other, a library's request for a copy is not served,
and a weak reference is taken for unresolved when the table of a library is not in order. -/
theorem sample_not_linked : Sample.loaded = (.ok (), Sample.loaded.2) ∧
      Sample.linked = (.ok (), Sample.linked.2) ∧ SitesApart Sample.loaded.2 ∧
      -- The reference to `x` is not bound to the first definition that is not absolute.
      ((chosen (Sample.relative [0x78])).map (·.value) = some (0x11000000 + 344) ∧
        wordAt Sample.linked.2.memory (0x20000 + 356) 4 = 0x20000) ∧
      -- The copy site of the library does not hold the word 77 that `y` is.
      ((chosen (definitions Sample.loaded.2 [0x79] true)).map (·.value) = some (0x11000000 + 344) ∧
        wordAt Sample.linked.2.memory (0x11000000 + 344) 4 = 77 ∧
        wordAt Sample.linked.2.memory (0x11000000 + 348) 4 = 0) ∧
      -- The weak reference to `w`, which has a definition, is zero.
      ((chosen (Sample.relative [0x77])).map (·.value) = some (0x11000000 + 344) ∧
        wordAt Sample.linked.2.memory (0x20000 + 364) 4 = 0) :=
  ⟨Sample.loaded_ok, Sample.linked_ok, Sample.sitesApart, Sample.evaluated.2.2.2⟩

/-- The order of the two images names the library, which the executable needs. -/
theorem loaded_in_order_sample : ∃ s,
    loaderMain Sample.system (textBytes "/a") (State.initial fun _ => 0) = (.ok [1], s) ∧
      (∀ i, i ∈ [1] ↔ 0 < i ∧ i < s.objects.length) ∧
      Relation.ReflTransGen (Postorder.Step (dependenciesOf s)) 0 1 := by
  have hrun : loaderMain Sample.system (textBytes "/a") (State.initial fun _ => 0) =
      (.ok [1], (checkLifecycle Sample.linked.2).2) := by
    have hload : loadAll Sample.system (textBytes "/a") (State.initial fun _ => 0) =
        (.ok (), Sample.loaded.2) := Sample.loaded_ok
    have hlink : relocateAll Sample.system Sample.loaded.2 = (.ok (), Sample.linked.2) :=
      Sample.linked_ok
    unfold loaderMain
    rw [Prog.bind_ok hload, Prog.bind_ok hlink, ← Sample.evaluated.1.2.2]
  have horder : ∀ sys path memory order s, loaderMain sys path (State.initial memory) =
      (.ok order, s) →
      (∀ i, i ∈ order ↔ 0 < i ∧ i < s.objects.length) ∧
        ∀ i ∈ order, Relation.ReflTransGen (Postorder.Step (dependenciesOf s)) 0 i :=
    fun sys path memory _ _ h =>
      have hchecked := (loaded_in_order sys path memory).of_ok h
      ⟨hchecked.2.1, hchecked.2.2.2⟩
  obtain ⟨hlisted, hreached⟩ := horder _ _ _ _ _ hrun
  exact ⟨_, hrun, hlisted, hreached 1 (.head _)⟩

end UnDOS.UserLoader
