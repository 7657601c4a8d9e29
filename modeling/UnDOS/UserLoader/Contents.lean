import UnDOS.UserLoader.Discovery

/-!
# The user-mode loader: what is loaded

The bytes of an object in memory are those of its file, or zero where a segment is longer in memory
than in the file.  Where segments overlap, the later one counts.
-/

namespace UnDOS.UserLoader

open UnDOS.Lib UnDOS.Lib.Outcome UnDOS.Lib.Prog

/-! ## Images -/

/-- The byte that a segment puts at an address. -/
def segmentByte (file : List UInt8) (bias : Nat) (p : ProgramHeader) (a : Nat) : Option UInt8 :=
  if p.loads ∧ p.vaddr + bias ≤ a ∧ a < p.vaddr + p.memsz + bias then
    if a - (p.vaddr + bias) < p.filesz then some (file.getD (p.offset + (a - (p.vaddr + bias))) 0)
    else some 0
  else none

/-- The byte that the segments of a file put at an address. -/
def imageByte (file : List UInt8) (bias : Nat) : List ProgramHeader → Nat → Option UInt8
  | [], _ => none
  | p :: rest, a => (imageByte file bias rest a).or (segmentByte file bias p a)

/-- The image of an object, from its file. -/
def fileImage (sys : System) (obj : LoadedObject) : ByteStore := fun a =>
  match sys.files obj.path with
  | some file => (imageByte file obj.bias obj.programHeaders a).getD 0
  | none => 0

variable {file : List UInt8} {sys : System} {index i : Nat} {obj : LoadedObject} {s s' : State}

theorem imageByte_isSome {bias : Nat} {headers : List ProgramHeader} {a : Nat} :
    (imageByte file bias headers a).isSome ↔
      ∃ p ∈ headers, p.loads ∧ p.vaddr + bias ≤ a ∧ a < p.vaddr + p.memsz + bias := by
  induction headers with
  | nil => simp [imageByte]
  | cons p rest ih =>
    have hone : (segmentByte file bias p a).isSome ↔
        p.loads ∧ p.vaddr + bias ≤ a ∧ a < p.vaddr + p.memsz + bias := by
      rw [segmentByte]
      split
      · next hin => exact ⟨fun _ => hin, fun _ => by split <;> rfl⟩
      · next hout => simp [hout]
    rw [imageByte, Option.isSome_or, Bool.or_eq_true, ih, hone]
    simp [or_comm]

/-! ## One object -/

theorem isEffect_memory : IsEffect fun s s' : State => s'.memory = s.memory :=
  ⟨fun _ => rfl, fun hab hbc => hbc.trans hab⟩

theorem mapPage_memory (sys : System) (index : Nat) (obj : LoadedObject)
    (earlier : List ProgramHeader) (page : Nat) :
    Within (fun s s' : State => s'.memory = s.memory) (mapPage sys index obj earlier page) := by
  refine Within.ite (fun _ => Within.pure isEffect_memory ()) fun _ => ?_
  refine Within.bind isEffect_memory (Within.get isEffect_memory) fun s => ?_
  refine Within.ite (fun _ => Within.throw isEffect_memory _) fun _ => ?_
  refine Within.bind isEffect_memory (fun t ht => ?_) fun _ => Within.modify fun _ => rfl
  rw [mapFixedPage]
  split <;> rfl

theorem writeBytes_memory {addr : Nat} {data : List UInt8} {u : Unit}
    (h : writeBytes sys index obj addr data s = (.ok u, s')) :
    s'.memory = writeAt s.memory addr data := by
  rw [writeBytes] at h
  split at h
  · rw [← (Prod.mk.inj h).2]
  · cases h

theorem loadSegmentData_memory {p : ProgramHeader}
    {u : Unit} (hfile : sys.files obj.path = some file)
    (h : loadSegmentData sys index obj p s = (.ok u, s')) :
    s'.memory = writeAt s.memory (wrap32 (p.vaddr + obj.bias)) ((file.drop p.offset).take
      p.filesz) ∧
      ((file.drop p.offset).take p.filesz).length = p.filesz := by
  rw [loadSegmentData] at h
  split at h
  · rw [hfile] at h
    obtain ⟨_, t, hwrite, hrest⟩ := bind_eq_ok.1 h
    split at hrest
    · cases hrest
    · next hlength =>
      obtain rfl : t = s' := (Prod.mk.inj hrest).2
      refine ⟨writeBytes_memory hwrite, le_antisymm (List.length_take_le _ _) ?_⟩
      exact Nat.le_of_not_lt hlength
  · next hempty =>
    obtain rfl : s = s' := (Prod.mk.inj h).2
    have hzero : p.filesz = 0 := by omega
    rw [hzero]
    simp

theorem segmentByte_getD {bias : Nat} {p : ProgramHeader} {m : ByteStore}
    (hloads : p.loads) (hfits : p.filesz ≤ p.memsz)
    (hlength : ((file.drop p.offset).take p.filesz).length = p.filesz) (a : Nat) :
    writeAt (writeAt m (p.vaddr + bias) ((file.drop p.offset).take p.filesz))
        (p.vaddr + bias + p.filesz) (List.replicate (p.memsz - p.filesz) 0) a =
      (segmentByte file bias p a).getD (m a) := by
  rw [writeAt, List.length_replicate, writeAt, hlength, segmentByte]
  by_cases hlow : p.vaddr + bias ≤ a
  · by_cases hdata : a < p.vaddr + bias + p.filesz
    · rw [if_neg (by omega), if_pos ⟨hlow, hdata⟩, if_pos ⟨hloads, hlow, by omega⟩,
        if_pos (by omega)]
      rw [Option.getD_some, List.getD_eq_getElem?_getD, List.getElem?_take_of_lt (by omega),
        List.getElem?_drop, ← List.getD_eq_getElem?_getD]
    · by_cases hzero : a < p.vaddr + p.memsz + bias
      · rw [if_pos (by omega), if_pos ⟨hloads, hlow, hzero⟩, if_neg (by omega)]
        rw [List.getD_eq_getElem?_getD, List.getElem?_replicate]
        split <;> rfl
      · rw [if_neg (by omega), if_neg (by omega), if_neg (by omega)]
        rfl
  · rw [if_neg (by omega), if_neg (by omega), if_neg (by omega)]
    rfl

theorem mapAndLoadSegment_memory {earlier : List ProgramHeader} {p : ProgramHeader} {u : Unit}
    (hfits : Fits obj.bias obj.programHeaders) (hp : p ∈ obj.programHeaders)
    (hfile : sys.files obj.path = some file)
    (h : mapAndLoadSegment sys index obj earlier p s = (.ok u, s')) (a : Nat) :
    s'.memory a = (segmentByte file obj.bias p a).getD (s.memory a) := by
  rw [mapAndLoadSegment] at h
  split at h
  · next hloads =>
    obtain ⟨hsize, hspace⟩ := hfits p hp hloads
    have hwrap := (segment_bounds hspace).1
    have hwrap' : wrap32 (p.vaddr + obj.bias + p.filesz) = p.vaddr + obj.bias + p.filesz := by
      rw [wrap32]
      rw [pageSize] at hspace
      omega
    dsimp only at h
    split at h
    · cases h
    · obtain ⟨_, t, hmap, hrest⟩ := bind_eq_ok.1 h
      obtain ⟨_, v, hdata, hzero⟩ := bind_eq_ok.1 hrest
      have hmapped : t.memory = s.memory :=
        (Within.forRange isEffect_memory fun n => mapPage_memory _ _ _ _ _).of_eq hmap (by simp)
      obtain ⟨hfilled, hlength⟩ := loadSegmentData_memory hfile hdata
      rw [writeBytes_memory hzero, hfilled, hmapped, hwrap, hwrap']
      exact segmentByte_getD hloads hsize hlength a
  · next hskip =>
    obtain rfl : s = s' := (Prod.mk.inj h).2
    rw [segmentByte, if_neg fun hin => hskip hin.1]
    rfl

theorem mapAndLoadSegments_memory {earlier rest : List ProgramHeader} {u : Unit}
    (hfits : Fits obj.bias obj.programHeaders) (hrest : ∀ p ∈ rest, p ∈ obj.programHeaders)
    (hfile : sys.files obj.path = some file)
    (h : mapAndLoadSegments sys index obj earlier rest s = (.ok u, s')) (a : Nat) :
    s'.memory a = (imageByte file obj.bias rest a).getD (s.memory a) := by
  induction rest generalizing earlier s with
  | nil =>
    obtain rfl : s = s' := (Prod.mk.inj h).2
    rfl
  | cons p rest ih =>
    obtain ⟨hp, hrest⟩ := List.forall_mem_cons.1 hrest
    obtain ⟨_, t, hone, hmore⟩ := bind_eq_ok.1 h
    rw [ih hrest hmore, mapAndLoadSegment_memory hfits hp hfile hone, imageByte]
    cases imageByte file obj.bias rest a with
    | none => rfl
    | some b => rfl

theorem orFail_same {α : Type} {reason : String} {f : State → Outcome Unit α} :
    Within (fun s s' : State => s' = s) (orFail reason f) := by
  intro s _
  rw [orFail]
  split <;> rfl

theorem isEffect_same : IsEffect fun s s' : State => s' = s :=
  ⟨fun _ => rfl, fun hab hbc => hbc.trans hab⟩

theorem checkNotes_same (index : Nat) (obj : LoadedObject) (headers : List ProgramHeader)
    (notes : Nat) : Within (fun s s' : State => s' = s) (checkNotes index obj headers notes) := by
  induction headers generalizing notes with
  | nil => exact Within.pure isEffect_same notes
  | cons p rest ih =>
    refine Within.ite (fun _ => Within.throw isEffect_same _) fun _ => ?_
    refine Within.ite (fun _ => Within.throw isEffect_same _) fun _ => ?_
    refine Within.ite (fun _ => ?_) fun _ => ih notes
    exact Within.bind isEffect_same orFail_same ih

theorem validateSymbolTables_same (index : Nat) (obj : LoadedObject) :
    Within (fun s s' : State => s' = s) (validateSymbolTables index obj) := by
  refine Within.bind isEffect_same orFail_same fun _ => Within.forRange isEffect_same fun i => ?_
  refine Within.bind isEffect_same orFail_same fun symbol => ?_
  exact Within.ite (fun _ => Within.throw isEffect_same _) fun _ => Within.pure isEffect_same ()

theorem orFail_eq_ok {α : Type} {reason : String} {f : State → Outcome Unit α} {x : α}
    (h : orFail reason f s = (.ok x, s')) : f s = .ok x ∧ s' = s := by
  rw [orFail] at h
  split at h
  · next a ha =>
    obtain ⟨hx, hs⟩ := Prod.mk.inj h
    exact ⟨by rw [ha, Outcome.ok.inj hx], hs.symm⟩
  · cases h
  · cases h

/-- After a load the memory is the image of the file, and elsewhere what it was. -/
theorem loadObject_memory (hindex : index < maxObjects) {path : List UInt8}
    (h : loadObject sys index path s = (.ok obj, s')) : ∃ file, sys.files path = some file ∧
      ∀ a, s'.memory a = (imageByte file obj.bias obj.programHeaders a).getD (s.memory a) := by
  rw [loadObject] at h
  cases hfile : sys.files path with
  | none =>
    rw [hfile] at h
    cases h
  | some file =>
    rw [hfile] at h
    refine ⟨file, rfl, fun a => ?_⟩
    obtain ⟨first, t₁, hfirst, h₁⟩ := bind_eq_ok.1 h
    obtain ⟨hheaders, rfl⟩ := orFail_eq_ok hfirst
    obtain ⟨-, hbias, hpath, hneeded, -⟩ := (readAndValidateHeaders_safe file _).of_ok hheaders
    obtain ⟨placed, t₂, hplaced, h₂⟩ := bind_eq_ok.1 h₁
    obtain ⟨hbounds, rfl⟩ := orFail_eq_ok hplaced
    obtain ⟨hfits, heq⟩ := (calculateBoundsAndBias_safe hindex first hbias).of_ok hbounds
    have hsame : placed.programHeaders = first.programHeaders := by rw [heq]
    have hfile' : sys.files placed.path = some file := by
      rw [heq]
      rw [hpath]
      exact hfile
    obtain ⟨_, t₃, hsegments, h₃⟩ := bind_eq_ok.1 h₂
    rw [← hsame] at hfits
    have hmemory := mapAndLoadSegments_memory hfits (fun p hp => hp) hfile' hsegments a
    have hok := (mapAndLoadSegments_checked hfits (fun p hp => hp) (by simp [Covered])).of_ok
      hsegments
    have hinPlace : Placed sys t₃.owner index placed := fun p hp hload hsize =>
      hok.2 p hp (by simp [ProgramHeader.loads, hload, hsize])
    obtain ⟨notes, t₄, hnotes, h₄⟩ := bind_eq_ok.1 h₃
    obtain rfl := (checkNotes_same _ _ _ _).of_eq hnotes (by simp)
    split at h₄
    · obtain ⟨parsed, t₅, hparsed, h₅⟩ := bind_eq_ok.1 h₄
      obtain ⟨hdynamic, rfl⟩ := orFail_eq_ok hparsed
      have hneeded' : placed.neededOffsets.length ≤ maxDependencies := by
        rw [heq]
        simp [hneeded]
      have himage := ((parseDynamicSegment_safe hinPlace hneeded').of_ok hdynamic).1
      obtain ⟨_, t₆, hvalid, h₆⟩ := bind_eq_ok.1 h₅
      obtain rfl := (validateSymbolTables_same _ _).of_eq hvalid (by simp)
      obtain ⟨hobj, rfl⟩ := Prod.mk.inj h₆
      obtain rfl := Outcome.ok.inj hobj
      rw [himage.headers, himage.bias]
      exact hmemory
    · cases h₄

/-! ## All objects -/

/-- The bytes of an object are those of its file. -/
def Imaged (sys : System) (m : ByteStore) (obj : LoadedObject) : Prop :=
  ∃ file, sys.files obj.path = some file ∧
    ∀ a b, imageByte file obj.bias obj.programHeaders a = some b → m a = b

/-- So are those of every object. -/
def AllImaged (sys : System) (s : State) : Prop :=
  ∀ (i : Nat) obj, s.objects[i]? = some obj → Imaged sys s.memory obj

theorem imageByte_owner {owner : Nat → Option Nat}
    (h : Placed sys owner index obj) {a : Nat} {b : UInt8}
    (hbyte : imageByte file obj.bias obj.programHeaders a = some b) :
    owner (a / pageSize) = some index := by
  obtain ⟨p, hp, hloads, hlow, hhigh⟩ := imageByte_isSome.1 (Option.isSome_of_eq_some hbyte)
  simp only [ProgramHeader.loads, Bool.and_eq_true, beq_iff_eq, bne_iff_ne] at hloads
  exact (h p hp hloads.1 hloads.2).mapped a hlow hhigh

theorem Imaged.beside {other : LoadedObject}
    (h : Imaged sys s.memory other) (hne : i ≠ index) (hgrown : Grown s s')
    (hother : Placed sys s.owner i other) (hobj : Placed sys s'.owner index obj)
    (hmemory : ∀ a, s'.memory a = (imageByte file obj.bias obj.programHeaders a).getD
      (s.memory a)) :
    Imaged sys s'.memory other := by
  obtain ⟨source, hsource, hbytes⟩ := h
  refine ⟨source, hsource, fun a b hb => ?_⟩
  rw [hmemory a, ← hbytes a b hb]
  cases hnew : imageByte file obj.bias obj.programHeaders a with
  | none => rfl
  | some c =>
    -- The page would belong to both.
    have hmine := hgrown.extends_ _ _ (imageByte_owner hother hb)
    rw [imageByte_owner hobj hnew] at hmine
    exact absurd (Option.some.inj hmine).symm hne

theorem withReason_eq_ok {α : Type} {reason : String} {x : Loading α} {a : α}
    (h : withReason reason x s = (.ok a, s')) : x s = (.ok a, s') := by
  rcases hrun : x s with ⟨_ | _ | _, t⟩
  · rw [withReason, hrun] at h
    exact h
  · rw [withReason, hrun] at h
    cases h
  · rw [withReason, hrun] at h
    exact h

theorem findAndLoadDependency_imaged {executablePath name : List UInt8}
    {dependency : Nat} (hok : AllOk sys s) (h : AllImaged sys s)
    (hrun : findAndLoadDependency sys executablePath name s = (.ok dependency, s')) :
    AllImaged sys s' := by
  obtain ⟨path, t, hpath, hrest⟩ := bind_eq_ok.1 hrun
  obtain ⟨-, rfl⟩ := orFail_eq_ok hpath
  rw [get_bind_apply] at hrest
  cases hfind : t.objects.findIdx? (fun obj => obj.path == path) with
  | some index =>
    rw [hfind] at hrest
    obtain rfl := (Prod.mk.inj hrest).2
    exact h
  | none =>
    rw [hfind] at hrest
    dsimp only at hrest
    split at hrest
    · cases hrest
    · next hroom =>
      have hroom : t.objects.length < maxObjects := Nat.lt_of_not_le hroom
      obtain ⟨obj, u, hload, htail⟩ := bind_eq_ok.1 hrest
      have hload' := withReason_eq_ok hload
      obtain ⟨hgrown, hloaded, hobjPath, -⟩ := (loadObject_checked sys hroom path t).of_ok hload'
      obtain ⟨file, hfile, hmemory⟩ := loadObject_memory hroom hload'
      split at htail
      · obtain ⟨objects, v, hpush, hlast⟩ := bind_eq_ok.1 htail
        obtain ⟨hpushed, rfl⟩ := orFail_eq_ok hpush
        rw [hgrown.objects] at hpushed
        have hpushed := (pushBounded_safe hroom).of_ok hpushed
        obtain rfl := (Prod.mk.inj hlast).2
        intro i other hother
        dsimp only at hother ⊢
        rw [hpushed] at hother
        rcases getElem?_concat_cases hother with hold | ⟨rfl, rfl⟩
        · have hne : i ≠ t.objects.length := by
            have := (List.getElem?_eq_some_iff.1 hold).1
            omega
          exact (h i other hold).beside hne hgrown (hok.loaded i other hold).placed hloaded.placed
            hmemory
        · refine ⟨file, by rw [hobjPath]; exact hfile, fun a b hb => ?_⟩
          rw [hmemory a, hb]
          rfl
      · cases htail

theorem recordDependency_imaged {dependency : Nat} {u : Unit}
    (h : AllImaged sys s) (hrun : recordDependency i dependency s = (.ok u, s')) :
    AllImaged sys s' := by
  rw [recordDependency, get_bind_apply] at hrun
  cases hobj : s.objects[i]? with
  | none =>
    rw [hobj] at hrun
    cases hrun
  | some obj =>
    rw [hobj] at hrun
    obtain ⟨dependencies, t, hpush, hlast⟩ := bind_eq_ok.1 hrun
    obtain ⟨-, rfl⟩ := orFail_eq_ok hpush
    obtain rfl := (Prod.mk.inj hlast).2
    intro k other hother
    rw [List.getElem?_set] at hother
    split at hother
    · split at hother
      · obtain rfl := Option.some.inj hother
        exact h i obj hobj
      · cases hother
    · exact h k other hother

theorem discoverFrom_imaged (executablePath : List UInt8)
    (h : Searched sys i s) (himaged : AllImaged sys s) :
    Checked (discoverFrom sys executablePath i) s fun _ s' =>
      Searched sys (i + 1) s' ∧ AllImaged sys s' := by
  apply Checked.get_bind
  cases hobj : s.objects[i]? with
  | none => exact Checked.pure ⟨h.skip, himaged⟩
  | some obj =>
    refine (Checked.forRange (I := fun j t => Searching sys i obj j t ∧ AllImaged sys t)
      ⟨h.begin hobj, himaged⟩ fun j hj t ht => ?_).mono fun _ _ ht => ⟨ht.1.after, ht.2⟩
    refine (discoverNeeded_checked executablePath hj ht.1).strengthen fun _ u hrun hu => ⟨hu, ?_⟩
    obtain ⟨name, v, hname, hrest⟩ := bind_eq_ok.1 hrun
    obtain ⟨-, rfl⟩ := orFail_eq_ok hname
    obtain ⟨dependency, w, hfind, hrecord⟩ := bind_eq_ok.1 hrest
    exact recordDependency_imaged (findAndLoadDependency_imaged ht.1.after.ok ht.2 hfind) hrecord

theorem loadAll_imaged (sys : System) (executablePath : List UInt8) (memory : ByteStore) :
    Checked (loadAll sys executablePath) (State.initial memory) fun _ s => AllImaged sys s := by
  refine Checked.ite (fun _ => Checked.throw) fun _ => ?_
  have hroom : 0 < maxObjects := by decide
  have hload := (loadObject_checked sys hroom executablePath (State.initial memory)).strengthen
    fun obj s hrun hs => And.intro hs (loadObject_memory hroom hrun)
  refine hload.bind fun obj s hs => ?_
  obtain ⟨⟨-, hloaded, hpath, hdeps⟩, file, hfile, hmemory⟩ := hs
  refine Checked.ite (fun _ => ?_) fun _ => Checked.throw
  have hfirst : AllImaged sys { s with objects := [obj] } := by
    intro k other hother
    cases k with
    | zero =>
      cases hother
      refine ⟨file, by rw [hpath]; exact hfile, fun a b hb => ?_⟩
      rw [hmemory a, hb]
      rfl
    | succ k => cases hother
  refine (Checked.modify (Q := fun _ t => Searched sys 0 t ∧ AllImaged sys t)
    ⟨searched_first hloaded hdeps, hfirst⟩).bind fun _ t ht => ?_
  exact (Checked.forRange (I := fun i u => Searched sys i u ∧ AllImaged sys u) ht fun i _ u hu =>
    discoverFrom_imaged executablePath hu.1 hu.2).mono fun _ u hu => hu.2

theorem Imaged.readAt {m : ByteStore} (h : Imaged sys m obj)
    {vaddr size : Nat} (hvalid : isValidVirtualRange obj vaddr size) :
    Lib.readAt m (vaddr + obj.bias) size =
      Lib.readAt (fileImage sys obj) (vaddr + obj.bias) size := by
  obtain ⟨file, hfile, hbytes⟩ := h
  rw [isValidVirtualRange, Bool.and_eq_true, List.any_eq_true] at hvalid
  obtain ⟨-, p, hp, hin⟩ := hvalid
  simp only [Bool.and_eq_true, decide_eq_true_eq] at hin
  obtain ⟨hload, hvaddr, hmem, hrest⟩ := hin
  refine readAt_congr fun k hk => ?_
  have hsome : (imageByte file obj.bias obj.programHeaders (vaddr + obj.bias + k)).isSome := by
    refine imageByte_isSome.2 ⟨p, hp, ?_, by omega, by omega⟩
    have hne : p.memsz ≠ 0 := by omega
    simp [ProgramHeader.loads, hload, hne]
  obtain ⟨b, hb⟩ := Option.isSome_iff_exists.1 hsome
  rw [hbytes _ b hb, fileImage, hfile]
  dsimp only
  rw [hb]
  rfl

end UnDOS.UserLoader
