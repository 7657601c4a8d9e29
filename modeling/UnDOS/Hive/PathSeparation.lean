import UnDOS.Hive.Paths

/-!
# Paths Do Not Interfere

The observations at a path are what `KE_CM_OpenKey`, the getters and the enumeration
calls return at the end of a walk along it.
-/

namespace UnDOS.Hive

open UnDOS.Lib UnDOS.Kernel

/-! ## Runs of calls at paths -/

variable {h h' : KConfigurationRoot}

theorem runPaths_cons {call : PathCall} (calls : List PathCall) (hret : (call.exec h).1 ≠ .stuck) :
    runPaths (call :: calls) h = runPaths calls (call.exec h).2 := by
  rw [runPaths]
  cases hrun : call.exec h with
  | mk o h' =>
    rw [hrun] at hret
    cases o with
    | ok u => rw [Prog.bind_ok (Prog.attempt_ok hrun)]
    | err e => rw [Prog.bind_ok (Prog.attempt_err hrun)]
    | stuck => exact absurd rfl hret

theorem runPaths_coherent {chain : List Nat} (C : Coherent chain h)
    (hpos : 0 < h.configptrReferences) {calls : List PathCall} {call : PathCall}
    (fits : AllPathsFit (calls ++ [call]) h) :
    ∃ h' chain', runPaths calls h = (.ok (), h') ∧ Coherent chain' h' ∧
      0 < h'.configptrReferences ∧ call.Fits h' := by
  induction calls generalizing chain h with
  | nil => exact ⟨h, chain, rfl, C, hpos, fits.1⟩
  | cons next calls ih =>
    have R := PathCall.exec_returns C hpos fits.1
    obtain ⟨chain₁, C₁⟩ := R.coherent
    obtain ⟨h', chain', hrun, C', hpos', hfit⟩ := ih C₁ (by rw [R.references]; exact hpos) fits.2
    refine ⟨h', chain', ?_, C', hpos', hfit⟩
    rw [runPaths_cons calls R.returned]
    exact hrun

/-! ## Telling paths apart -/

/-- The last name of a path and the last name of its folder. -/
def ending (path : List Name) : Option Name × Option Name :=
  (path.getLast?, path.dropLast.getLast?)

/-- A call at `p` can be told apart from what is observed at `q`: no path on the way to
    `q` other than `p` ends in the same two names as `p`, and `q` is no other folder
    with the name of the folder of `p`. -/
structure TellsApart (p q : List Name) : Prop where
  entries : ∀ front, front <+: q → front ≠ [] → front ≠ p → ending front ≠ ending p
  folders : q ≠ p.dropLast → q.getLast? ≠ p.dropLast.getLast?

theorem pathKey_keyHash (path : List Name) :
    (pathKey path).keyHash = (path.getLast?.map configurationKey).getD 0 := by
  rcases List.eq_nil_or_concat path with rfl | ⟨folder, name, rfl⟩
  · rfl
  · rw [List.concat_eq_append, pathKey_append]
    simp [childKey]

theorem getLast_eq_of_keyHash_eq {names : Set Name} (hinj : Set.InjOn configurationKey names)
    (hnz : ∀ name ∈ names, configurationKey name ≠ 0) {p q : List Name}
    (hp : ∀ name ∈ p, name ∈ names) (hq : ∀ name ∈ q, name ∈ names)
    (heq : (pathKey p).keyHash = (pathKey q).keyHash) : p.getLast? = q.getLast? := by
  rw [pathKey_keyHash, pathKey_keyHash] at heq
  cases hpl : p.getLast? with
  | none =>
    cases hql : q.getLast? with
    | none => rfl
    | some n =>
      rw [hpl, hql] at heq
      exact absurd heq.symm (hnz n (hq n (List.mem_of_getLast? hql)))
  | some m =>
    have hm := hp m (List.mem_of_getLast? hpl)
    cases hql : q.getLast? with
    | none =>
      rw [hpl, hql] at heq
      exact absurd heq (hnz m hm)
    | some n =>
      rw [hpl, hql] at heq
      rw [hinj hm (hq n (List.mem_of_getLast? hql)) heq]

theorem agreeAlong_of_touches {kh ph : UInt64}
    (T : Touches kh ph h h') (done : List Name) {rest : List Name}
    (hne : ∀ front name, front ++ [name] <+: done ++ rest →
      ¬ (configurationKey name = kh ∧ (pathKey front).keyHash = ph)) :
    AgreeAlong h h' (pathKey done) rest := by
  induction rest generalizing done with
  | nil => trivial
  | cons name rest ih =>
    have hassoc : done ++ name :: rest = done ++ [name] ++ rest := by simp
    refine ⟨T.findEntry_eq (hne done name ?_), ?_⟩
    · rw [hassoc]
      exact List.prefix_append _ _
    · rw [← pathKey_append]
      apply ih
      rw [← hassoc]
      exact hne

/-! ## Enumeration -/

theorem enumKey_eq (hl : h.indexLoaded = true) (key : KConfigurationKey) (index : Nat) :
    enumKey key index h = (.ok ((childKeys h.roots key)[index]?.map Root.name), h) := by
  have hready : requireReady h = (.ok (), h) := by
    simp [requireReady, hl]
  unfold enumKey
  rw [Prog.bind_ok hready]
  rfl

theorem enumValue_eq (hl : h.indexLoaded = true) (key : KConfigurationKey) (index : Nat) :
    enumValue key index h =
      (.ok ((childValues h.roots key)[index]?.map fun r => (r.name, r.valueType)), h) := by
  have hready : requireReady h = (.ok (), h) := by
    simp [requireReady, hl]
  unfold enumValue
  rw [Prog.bind_ok hready]
  rfl

theorem filter_filter_others {kh ph : UInt64} (T : Touches kh ph h h') (keep : Root → Bool) :
    (h'.roots.filter keep).filter (fun r => ¬ r.Is kh ph) =
      (h.roots.filter keep).filter (fun r => ¬ r.Is kh ph) := by
  have hcomm : ∀ roots : List Root, (roots.filter keep).filter (fun r => ¬ r.Is kh ph) =
      (roots.filter fun r => ¬ r.Is kh ph).filter keep := by
    intro roots
    rw [List.filter_filter, List.filter_filter]
    congr 1
    funext r
    exact Bool.and_comm _ _
  rw [hcomm, hcomm, T.others]

theorem filter_others_eq {kh ph : UInt64} (T : Touches kh ph h h')
    {keep : Root → Bool} (hkeep : ∀ r : Root, keep r → ¬ r.Is kh ph) :
    h'.roots.filter keep = h.roots.filter keep := by
  have hall : ∀ roots : List Root,
      (roots.filter keep).filter (fun r => ¬ r.Is kh ph) = roots.filter keep := by
    intro roots
    rw [List.filter_eq_self]
    intro r hr
    simpa using hkeep r (List.of_mem_filter hr)
  rw [← hall h'.roots, ← hall h.roots]
  exact filter_filter_others T keep

/-! ## Observations -/

/-- The entry the call is about. -/
def PathCall.Own (call : PathCall) (r : Root) : Prop :=
  r.Is (configurationKey call.name) (pathKey call.folder).keyHash

instance (call : PathCall) (r : Root) : Decidable (call.Own r) :=
  inferInstanceAs (Decidable (r.Is _ _))

/-- Nothing that is observed at `q` changed, except that the folder of the call lists or
    no longer lists the key the call is about. -/
structure Unobserved (call : PathCall) (q : List Name) (h h' : KConfigurationRoot) : Prop where
  opened : (atPath q (fun key => pure key) h').1 = (atPath q (fun key => pure key) h).1
  fixedValue : ∀ type size, (atPath q (fun key => getFixedValue key type size) h').1 =
    (atPath q (fun key => getFixedValue key type size) h).1
  stringValue : ∀ capacity, (atPath q (fun key => getKeyValueString key capacity) h').1 =
    (atPath q (fun key => getKeyValueString key capacity) h).1
  stringSize : (atPath q getKeyValueStringSize h').1 = (atPath q getKeyValueStringSize h).1
  keys : q ≠ call.folder → ∀ index, (atPath q (fun key => enumKey key index) h').1 =
    (atPath q (fun key => enumKey key index) h).1
  values : q ≠ call.folder → ∀ index, (atPath q (fun key => enumValue key index) h').1 =
    (atPath q (fun key => enumValue key index) h).1
  otherKeys : (childKeys h'.roots (pathKey q)).filter (fun r => ¬ call.Own r) =
    (childKeys h.roots (pathKey q)).filter (fun r => ¬ call.Own r)
  otherValues : (childValues h'.roots (pathKey q)).filter (fun r => ¬ call.Own r) =
    (childValues h.roots (pathKey q)).filter (fun r => ¬ call.Own r)

section Observing

variable {names : Set Name} {call : PathCall} {q : List Name}

theorem TellsApart.avoids (A : TellsApart call.path q) (hq : ¬ call.path <+: q)
    (hinj : Set.InjOn configurationKey names) (hnz : ∀ name ∈ names, configurationKey name ≠ 0)
    (hused : ∀ name ∈ call.path ++ q, name ∈ names) : ∀ front name, front ++ [name] <+: q →
      ¬ (configurationKey name = configurationKey call.name ∧
        (pathKey front).keyHash = (pathKey call.folder).keyHash) := by
  rintro front name hpre ⟨hname, hfolder⟩
  have hmemq : ∀ n ∈ front ++ [name], n ∈ names := by
    intro n hn
    exact hused n (List.mem_append_right _ (hpre.subset hn))
  have hmemp : ∀ n ∈ call.folder ++ [call.name], n ∈ names := by
    intro n hn
    exact hused n (List.mem_append_left _ hn)
  have hlast : name = call.name :=
    hinj (hmemq name (by simp)) (hmemp call.name (by simp)) hname
  have hparent := getLast_eq_of_keyHash_eq hinj hnz
    (fun n hn => hmemq n (List.mem_append_left _ hn))
    (fun n hn => hmemp n (List.mem_append_left _ hn)) hfolder
  have hne : front ++ [name] ≠ call.path := by
    intro heq
    rw [heq] at hpre
    exact hq hpre
  apply A.entries _ hpre (by simp) hne
  simp [ending, PathCall.path, hlast, hparent]

theorem TellsApart.folder_ne (A : TellsApart call.path q) (hinj : Set.InjOn configurationKey names)
    (hnz : ∀ name ∈ names, configurationKey name ≠ 0)
    (hused : ∀ name ∈ call.path ++ q, name ∈ names) (hne : q ≠ call.folder) :
    (pathKey q).keyHash ≠ (pathKey call.folder).keyHash := by
  intro heq
  have hdrop : call.path.dropLast = call.folder := by simp [PathCall.path]
  have hlast := getLast_eq_of_keyHash_eq hinj hnz
    (fun n hn => hused n (List.mem_append_right _ hn))
    (fun n hn => hused n (List.mem_append_left _ (List.mem_append_left _ hn))) heq
  have hfolders := A.folders (by rw [hdrop]; exact hne)
  rw [hdrop] at hfolders
  exact hfolders hlast

end Observing

theorem pathKey_not_own {call : PathCall} {q : List Name}
    (havoid : ∀ front name, front ++ [name] <+: q →
      ¬ (configurationKey name = configurationKey call.name ∧
        (pathKey front).keyHash = (pathKey call.folder).keyHash))
    (hnz : configurationKey call.name ≠ 0) : ¬ ((pathKey q).keyHash = configurationKey call.name ∧
      (pathKey q).parentHash = (pathKey call.folder).keyHash) := by
  rcases List.eq_nil_or_concat q with rfl | ⟨front, name, rfl⟩
  · exact fun hid => hnz hid.1.symm
  · rw [List.concat_eq_append] at *
    rw [pathKey_append]
    exact havoid front name (List.prefix_refl _)

theorem Coherent.getters_return {chain : List Nat} (C : Coherent chain h)
    (key : KConfigurationKey) : (∀ type size, (getFixedValue key type size h).1 ≠ .stuck) ∧
      (∀ capacity, (getKeyValueString key capacity h).1 ≠ .stuck) ∧
      (getKeyValueStringSize key h).1 ≠ .stuck := by
  refine ⟨?_, ?_, ?_⟩
  · intro type size
    rw [C.getFixedValue_eq]
    split
    · simp
    · split <;> simp
  · intro capacity
    rw [C.getKeyValueString_eq]
    split
    · simp
    · split
      · simp
      · split <;> simp
  · rw [C.getKeyValueStringSize_eq]
    split
    · simp
    · split <;> simp

/-- A call that avoids the way to `q` is unobserved there. -/
theorem unobserved_of_returns {call : PathCall} {q : List Name} {chain : List Nat}
    (C : Coherent chain h) (hpos : 0 < h.configptrReferences)
    {result : Outcome KernelError Unit × KConfigurationRoot} (R : PathReturns call h result)
    (havoid : ∀ front name, front ++ [name] <+: q →
      ¬ (configurationKey name = configurationKey call.name ∧
        (pathKey front).keyHash = (pathKey call.folder).keyHash))
    (hfolder : q ≠ call.folder → (pathKey q).keyHash ≠ (pathKey call.folder).keyHash)
    (hnz : configurationKey call.name ≠ 0) : Unobserved call q h result.2 := by
  obtain ⟨chain', C'⟩ := R.coherent
  have T := R.touches
  have agree : AgreeAlong h result.2 rootKey q := agreeAlong_of_touches T [] havoid
  have hnot := pathKey_not_own havoid hnz
  -- Both hives are observed with the same number of references.
  have hobserve : ∀ {α : Type} (body : KConfigurationKey → HiveProg α),
      (body (pathKey q) (result.2.withRefs (h.configptrReferences + 1))).1 =
        (body (pathKey q) (h.withRefs (h.configptrReferences + 1))).1 →
      (body (pathKey q) (h.withRefs (h.configptrReferences + 1))).1 ≠ .stuck →
      (atPath q body result.2).1 = (atPath q body h).1 := by
    intro α body hbody hret
    have hsame := atPath_agree C.loaded C'.loaded hpos agree hbody hret
    have heq : result.2.withRefs h.configptrReferences = result.2 := by
      rw [← R.references]
      rfl
    rw [heq] at hsame
    exact hsame
  let n := h.configptrReferences + 1
  have S := sameHive_withRefs h n
  have S' := sameHive_withRefs result.2 n
  have Cn := S.coherent C
  have hvals := ((Touches.ofSame (show SameHive (h.withRefs n) h from
    ⟨rfl, rfl, rfl, rfl⟩) _ _).trans
    (T.trans (Touches.ofSame S' _ _))).sameValues Cn (S'.coherent C') hnot
  obtain ⟨hfixed, hstring, hsize⟩ := Cn.getters_return (pathKey q)
  refine ⟨?_, ?_, ?_, ?_, ?_, ?_, ?_, ?_⟩
  · exact hobserve _ rfl (by simp)
  · exact fun type size => hobserve _ (hvals.1 type size) (hfixed type size)
  · exact fun capacity => hobserve _ (hvals.2.1 capacity) (hstring capacity)
  · exact hobserve _ hvals.2.2 hsize
  · intro hq index
    have hkeys : childKeys result.2.roots (pathKey q) = childKeys h.roots (pathKey q) := by
      apply filter_others_eq T
      intro r hr hown
      simp only [decide_eq_true_eq] at hr
      exact hfolder hq (hr.1.symm.trans hown.2)
    apply hobserve
    · rw [enumKey_eq (S'.coherent C').loaded, enumKey_eq Cn.loaded]
      show Outcome.ok ((childKeys result.2.roots _)[index]?.map _) = _
      rw [hkeys]
      rfl
    · rw [enumKey_eq Cn.loaded]
      simp
  · intro hq index
    have hvalues : childValues result.2.roots (pathKey q) = childValues h.roots (pathKey q) := by
      apply filter_others_eq T
      intro r hr hown
      simp only [decide_eq_true_eq] at hr
      exact hfolder hq (hr.1.symm.trans hown.2)
    apply hobserve
    · rw [enumValue_eq (S'.coherent C').loaded, enumValue_eq Cn.loaded]
      show Outcome.ok ((childValues result.2.roots _)[index]?.map _) = _
      rw [hvalues]
      rfl
    · rw [enumValue_eq Cn.loaded]
      simp
  · exact filter_filter_others T _
  · exact filter_filter_others T _

/-- Paths do not interfere: after every run of calls that all fit, a call at one path is
    unobserved at every other path that does not lead through it and is told apart
    from it. -/
theorem paths_do_not_interfere {file : HiveFile} (hf : file.faults = []) (hiveName : Name)
    (calls : List PathCall) (call : PathCall)
    (fits : AllPathsFit (calls ++ [call]) (freshHive hiveName file)) (q : List Name)
    (names : Set Name) (hused : ∀ name ∈ call.path ++ q, name ∈ names)
    (hinj : Set.InjOn configurationKey names) (hnz : ∀ name ∈ names, configurationKey name ≠ 0)
    (hq : ¬ call.path <+: q) (A : TellsApart call.path q) :
    ∃ h, runPaths calls (freshHive hiveName file) = (.ok (), h) ∧
      (call.exec h).1 ≠ .stuck ∧ Unobserved call q h (call.exec h).2 := by
  have C := freshHive_coherent hf hiveName
  have hpos : 0 < (freshHive hiveName file).configptrReferences := by
    rw [freshHive_eq hf]
    exact one_pos
  obtain ⟨h, chain, hrun, C', hpos', hfit⟩ := runPaths_coherent C hpos fits
  have R := PathCall.exec_returns C' hpos' hfit
  refine ⟨h, hrun, R.returned, ?_⟩
  apply unobserved_of_returns C' hpos' R (A.avoids hq hinj hnz hused)
  · exact A.folder_ne hinj hnz hused
  · exact hnz _ (hused _ (by simp [PathCall.path]))

/-- Creating the key `name` in `folder`. -/
def createAt (folder : List Name) (name : Name) : PathCall :=
  { folder := folder, name := name, action := .create accessKey true }

/-! ## Folders with the same name -/

/-- Every component of the path has an entry. -/
def existsAlong (roots : List Root) (key : KConfigurationKey) : List Name → Bool
  | [] => true
  | name :: rest =>
    (findEntry roots (configurationKey name) key.keyHash).isSome &&
      existsAlong roots (childKey key name) rest

theorem walkFrom_eq (hl : h.indexLoaded = true) {refs : Nat}
    (hpos : 0 < refs) (hrefs : refs + 3 < 2 ^ 32) (key : KConfigurationKey) (rest : List Name) :
    walkFrom key rest (h.withRefs (refs + 1)) = if existsAlong h.roots key rest then
        (.ok (rest.foldl childKey key), h.withRefs (refs + 1))
      else (.err .notFound, h.withRefs refs) := by
  induction rest generalizing key with
  | nil => rfl
  | cons name rest ih =>
    have hopen := openKey_eq hl (show 0 < refs + 1 by omega) key name
    rw [if_neg (by omega)] at hopen
    cases hfind : findEntry h.roots (configurationKey name) key.keyHash with
    | none =>
      rw [hfind] at hopen
      rw [walkFrom_cons_err hpos rest hopen]
      simp [existsAlong, hfind]
    | some e =>
      rw [hfind] at hopen
      simp only [if_neg (show ¬ refs + 1 + 1 = 2 ^ 32 - 1 by omega)] at hopen
      rw [walkFrom_cons_ok rest hopen, ih]
      simp [existsAlong, hfind]

theorem walk_eq (hl : h.indexLoaded = true) {refs : Nat}
    (hpos : 0 < refs) (hrefs : refs + 3 < 2 ^ 32) (path : List Name) : walk path (h.withRefs refs) =
      if existsAlong h.roots rootKey path then (.ok (pathKey path), h.withRefs (refs + 1))
      else (.err .notFound, h.withRefs refs) := by
  have hroot := openRoot_eq hl hpos
  rw [if_neg (by omega)] at hroot
  unfold walk
  rw [Prog.bind_ok hroot]
  exact walkFrom_eq hl hpos hrefs rootKey path

theorem opened_eq (hl : h.indexLoaded = true)
    (hrefs : h.configptrReferences = 1) (path : List Name) :
    (atPath path (fun key => pure key) h).1 =
      if existsAlong h.roots rootKey path then .ok (pathKey path) else .err .notFound := by
  have heq : h.withRefs 1 = h := by
    rw [← hrefs]
    rfl
  have hwalk := walk_eq hl one_pos (by decide) path
  split
  next hex =>
    rw [if_pos hex] at hwalk
    have hrun := atPath_eq pure hwalk rfl (by simp)
    rw [heq] at hrun
    rw [hrun]
  next hex =>
    rw [if_neg hex, heq] at hwalk
    rw [atPath_err _ hwalk]

theorem newIn_nil (parentHash : UInt64) (name : Name) : NewIn [] parentHash name :=
  nofun

theorem NewIn.append {row : List RowKey} {parentHash : UInt64} {name : Name}
    (hrow : NewIn row parentHash name) {parentHash' : UInt64} {name' : Name} {idx : UInt16}
    (hkey : ¬ (configurationKey name' = configurationKey name ∧ parentHash' = parentHash)) :
    NewIn (row ++ [⟨parentHash', name', idx⟩]) parentHash name := by
  intro k hk
  rcases List.mem_append.mp hk with hin | hlast
  · exact hrow k hin
  · rw [List.mem_singleton.mp hlast]
    exact hkey

theorem Row.createAt {row : List RowKey} (R : Row row h)
    (hrefs : h.configptrReferences = 1) (folder : List Name) (name : Name)
    (hfolder : existsAlong (rowEntries row) rootKey folder = true)
    (hlen : row.length < entriesPerIndexBlock) (hne : configurationKey name ≠ 0)
    (hnew : NewIn row (pathKey folder).keyHash name) :
    ∃ idx h', (Hive.createAt folder name).Fits h ∧
      (Hive.createAt folder name).exec h = (.ok (), h') ∧
      Row (row ++ [⟨(pathKey folder).keyHash, name, idx⟩]) h' ∧ h'.configptrReferences = 1 := by
  have heq : h.withRefs 1 = h := by
    rw [← hrefs]
    rfl
  have hwalk := walk_eq R.coherent.loaded one_pos (by decide) folder
  rw [R.roots, if_pos hfolder] at hwalk
  have R₁ := (sameHive_withRefs h 2).row R
  obtain ⟨idx, h', hcall, R', hrefs'⟩ := R₁.createKey (pathKey folder)
    (show 2 + 2 < 2 ^ 32 by decide) hlen hne hnew
  have hcount : h'.configptrReferences = 2 + 1 := hrefs'
  have hclosed : (released h').configptrReferences = 2 := released_count h' hcount (by decide)
  have hbody : (do
      let _ ← Hive.createKey (some (pathKey folder)) name accessKey true
      closeKey : HiveProg Unit) (h.withRefs 2) = (.ok (), released h') := Prog.bind_ok hcall
  have hrun := atPath_eq (fun key => do
      let _ ← Hive.createKey (some key) name accessKey true
      closeKey) hwalk hbody (by simp)
  rw [heq] at hrun
  refine ⟨idx, _, fun _ => R.createFits hlen hne, hrun, ?_, released_count _ hclosed (by decide)⟩
  exact ((SameHive.released h').trans (SameHive.released _)).row R'

/-- Two folders named `X`, below `A` and below `B`. -/
def sameNamed : List PathCall :=
  [createAt [] [65], createAt [] [66], createAt [[65]] [88], createAt [[66]] [88]]

theorem sameNamed_row : ∃ h i j k l, runPaths sameNamed (freshHive [] {}) = (.ok (), h) ∧
    (∀ call : PathCall, call.Fits h → AllPathsFit (sameNamed ++ [call]) (freshHive [] {})) ∧
    Row [⟨0, [65], i⟩, ⟨0, [66], j⟩, ⟨configurationKey [65], [88], k⟩,
      ⟨configurationKey [66], [88], l⟩] h ∧ h.configptrReferences = 1 := by
  have hfresh : (freshHive [] {}).configptrReferences = 1 := by
    rw [freshHive_eq rfl]
  obtain ⟨i, h₁, fits₁, hexec₁, R₁, hrefs₁⟩ := (freshHive_row emptyFile_faults []).createAt hfresh
    [] [65] rfl (by decide) (by decide) (newIn_nil _ _)
  obtain ⟨j, h₂, fits₂, hexec₂, R₂, hrefs₂⟩ := R₁.createAt hrefs₁ [] [66] rfl
    (by simp [entriesPerIndexBlock]) (by decide)
    ((newIn_nil _ _).append (by decide))
  obtain ⟨k, h₃, fits₃, hexec₃, R₃, hrefs₃⟩ := R₂.createAt hrefs₂ [[65]] [88] rfl
    (by simp [entriesPerIndexBlock]) (by decide)
    (((newIn_nil _ _).append (by decide)).append (by decide))
  obtain ⟨l, h₄, fits₄, hexec₄, R₄, hrefs₄⟩ := R₃.createAt hrefs₃ [[66]] [88] rfl
    (by simp [entriesPerIndexBlock]) (by decide)
    ((((newIn_nil _ _).append (by decide)).append (by decide)).append (by decide))
  refine ⟨h₄, i, j, k, l, ?_, ?_, R₄, hrefs₄⟩
  · rw [sameNamed, runPaths_cons _ (by rw [hexec₁]; simp), hexec₁,
      runPaths_cons _ (by rw [hexec₂]; simp), hexec₂, runPaths_cons _ (by rw [hexec₃]; simp),
      hexec₃, runPaths_cons _ (by rw [hexec₄]; simp), hexec₄]
    rfl
  · intro call hcall
    refine ⟨fits₁, ?_⟩
    rw [hexec₁]
    refine ⟨fits₂, ?_⟩
    rw [hexec₂]
    refine ⟨fits₃, ?_⟩
    rw [hexec₃]
    refine ⟨fits₄, ?_⟩
    rw [hexec₄]
    exact ⟨hcall, trivial⟩

/-- Deleting `A/X` is not observed at `B/X`. -/
theorem paths_do_not_interfere_create :
    AllPathsFit (sameNamed ++ [⟨[[65]], [88], .delete⟩]) (freshHive [] {}) ∧
      TellsApart [[65], [88]] [[66], [88]] ∧
      ∃ h, runPaths sameNamed (freshHive [] {}) = (.ok (), h) ∧
        (atPath [[66], [88]] (fun key => pure key) h).1 = .ok (pathKey [[66], [88]]) ∧
        ((⟨[[65]], [88], .delete⟩ : PathCall).exec h).1 ≠ .stuck ∧
        Unobserved ⟨[[65]], [88], .delete⟩ [[66], [88]] h
          ((⟨[[65]], [88], .delete⟩ : PathCall).exec h).2 := by
  obtain ⟨h, i, j, k, l, hrun, hfits, R, hrefs⟩ := sameNamed_row
  have A : TellsApart [[65], [88]] [[66], [88]] := by
    constructor
    · intro front hfront hnil _
      rcases List.prefix_cons_iff.mp hfront with rfl | ⟨rest, rfl, hrest⟩
      · exact absurd rfl hnil
      · rcases List.prefix_cons_iff.mp hrest with rfl | ⟨rest', rfl, hrest'⟩
        · decide
        · rw [List.prefix_nil.mp hrest']
          decide
    · decide
  have hfit := hfits ⟨[[65]], [88], .delete⟩ trivial
  have hinj : Set.InjOn configurationKey {[65], [66], [88]} := by
    rintro m (rfl | rfl | rfl) n (rfl | rfl | rfl) heq <;>
      first | rfl | exact absurd heq (by decide)
  have hnz : ∀ name ∈ ({[65], [66], [88]} : Set Name), configurationKey name ≠ 0 := by
    rintro name (rfl | rfl | rfl) <;> decide
  obtain ⟨h', hrun', hreturned, hsame⟩ := paths_do_not_interfere rfl [] sameNamed
    ⟨[[65]], [88], .delete⟩ hfit [[66], [88]] _ (by simp [PathCall.path]) hinj hnz (by decide) A
  cases hrun.symm.trans hrun'
  refine ⟨hfit, A, h, hrun, ?_, hreturned, hsame⟩
  rw [opened_eq R.coherent.loaded hrefs, R.roots]
  rfl

/-- Two folders named `X` below `A` and below `B`: creating the key `l` in the first makes
    it appear in the second.  The hashes of the four names are different and not 0. -/
theorem same_named_folders_share_keys : ([[65], [66], [88], [108]].map configurationKey).Nodup ∧
    (∀ name ∈ [[65], [66], [88], [108]], configurationKey name ≠ 0) ∧
    ¬ (createAt [[65], [88]] [108]).path <+: [[66], [88], [108]] ∧
    ∃ h h', runPaths sameNamed (freshHive [] {}) = (.ok (), h) ∧
      (createAt [[65], [88]] [108]).exec h = (.ok (), h') ∧
      (atPath [[66], [88], [108]] (fun key => pure key) h).1 = .err .notFound ∧
      (atPath [[66], [88], [108]] (fun key => pure key) h').1 =
        .ok (pathKey [[66], [88], [108]]) := by
  refine ⟨by decide, by decide, by decide, ?_⟩
  obtain ⟨h, i, j, k, l, hrun, -, R, hrefs⟩ := sameNamed_row
  obtain ⟨m, h', -, hexec, R', hrefs'⟩ := R.createAt hrefs [[65], [88]] [108] rfl
    (by simp [entriesPerIndexBlock]) (by decide)
    (((((newIn_nil _ _).append (by decide)).append (by decide)).append (by decide)).append
      (by decide))
  refine ⟨h, h', hrun, hexec, ?_, ?_⟩
  · rw [opened_eq R.coherent.loaded hrefs, R.roots]
    rfl
  · rw [opened_eq R'.coherent.loaded hrefs', R'.roots]
    rfl

end UnDOS.Hive
