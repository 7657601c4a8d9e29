import UnDOS.Hive.Separation

/-!
# Paths

Keys are addressed by paths, walked from the hive root one component at a time.  The
handle at the end of a walk knows the hashes of the last two components only
(`pathKey`), so two paths denote the same entry as soon as they end in the same two
names: `same_named_folders_share_keys`.
-/

namespace UnDOS.Hive

open UnDOS.Lib UnDOS.Kernel

/-! ## Walking -/

/-- The handle on the child `name` of `key`. -/
def childKey (key : KConfigurationKey) (name : Name) : KConfigurationKey :=
  { keyHash := configurationKey name, parentHash := key.keyHash }

/-- The handle a walk along `path` ends with. -/
def pathKey (path : List Name) : KConfigurationKey := path.foldl childKey rootKey

/-- Opens the components of a path below `key`; the handle on the parent is closed as
    soon as the child was looked up. -/
def walkFrom (key : KConfigurationKey) : List Name → HiveProg KConfigurationKey
  | [] => return key
  | name :: rest => do
    let child ← Prog.attempt (openKey (some key) name accessKey true)
    closeKey
    let child ← Prog.ofExcept child
    walkFrom child rest

/-- Walks `path` from `KE_CM_OpenRoot`. -/
def walk (path : List Name) : HiveProg KConfigurationKey := do
  let root ← openRoot true
  walkFrom root path

/-- Runs `body` on the handle at `path` and closes the handle. -/
def atPath {α : Type} (path : List Name) (body : KConfigurationKey → HiveProg α) :
    HiveProg α := do
  let key ← walk path
  let result ← Prog.attempt (body key)
  closeKey
  Prog.ofExcept result

/-- The hive with another reference count. -/
def KConfigurationRoot.withRefs (h : KConfigurationRoot) (refs : Nat) : KConfigurationRoot :=
  { h with configptrReferences := refs }

theorem sameHive_withRefs (h : KConfigurationRoot) (refs : Nat) : SameHive h (h.withRefs refs) :=
  ⟨rfl, rfl, rfl, rfl⟩

variable {h h' g : KConfigurationRoot} {refs : Nat}

theorem closeKey_eq (hpos : 0 < refs) :
    closeKey (h.withRefs (refs + 1)) = (.ok (), h.withRefs refs) := by
  have hlt : 1 < refs + 1 := by omega
  show (Outcome.ok (), released (h.withRefs (refs + 1))) = _
  simp [released, KConfigurationRoot.withRefs, hlt]

theorem withConfigRoot_withRefs {α : Type} {body : HiveProg α}
    {o : Outcome KernelError α} {n : Nat} (hl : h.indexLoaded = true)
    (hmax : refs ≠ 2 ^ 32 - 1) (hpos : 0 < n)
    (hbody : body (h.withRefs (refs + 1)) = (o, h.withRefs (n + 1))) (ho : o ≠ .stuck) :
    withConfigRoot body (h.withRefs refs) = (o, h.withRefs n) := by
  have hrel : released (h.withRefs (n + 1)) = h.withRefs n := by
    have hlt : 1 < n + 1 := by omega
    simp [released, KConfigurationRoot.withRefs, hlt]
  have hrun := withConfigRoot_eq (h := h.withRefs refs) hl hmax hbody ho
  rw [hrun, hrel]

theorem makeHandle_eq (h : KConfigurationRoot) (key : KConfigurationKey) (refs : Nat) :
    makeHandle true key (h.withRefs refs) =
      if refs = 2 ^ 32 - 1 then (.err .resourceLimitExceeded, h.withRefs refs)
      else (.ok key, h.withRefs (refs + 1)) := by
  have hinc := incrementConfigRootReference_eq (h.withRefs refs)
  unfold makeHandle
  simp only [if_true]
  by_cases hmax : refs = 2 ^ 32 - 1
  · rw [if_pos hmax]
    rw [if_pos (show (h.withRefs refs).configptrReferences = 2 ^ 32 - 1 from hmax)] at hinc
    rw [Prog.bind_err hinc]
  · rw [if_neg hmax]
    rw [if_neg (show ¬ (h.withRefs refs).configptrReferences = 2 ^ 32 - 1 from hmax)] at hinc
    rw [Prog.bind_ok hinc]
    rfl

theorem openRoot_eq (hl : h.indexLoaded = true) (hpos : 0 < refs) :
    openRoot true (h.withRefs refs) = if refs = 2 ^ 32 - 1 ∨ refs + 1 = 2 ^ 32 - 1 then
        (.err .resourceLimitExceeded, h.withRefs refs)
      else (.ok rootKey, h.withRefs (refs + 1)) := by
  by_cases hmax : refs = 2 ^ 32 - 1
  · rw [if_pos (.inl hmax)]
    exact withConfigRoot_eq_of_max hl hmax
  · have hmake := makeHandle_eq h rootKey (refs + 1)
    by_cases hmax' : refs + 1 = 2 ^ 32 - 1
    · rw [if_pos hmax'] at hmake
      rw [if_pos (.inr hmax')]
      exact withConfigRoot_withRefs hl hmax hpos hmake (by simp)
    · rw [if_neg hmax'] at hmake
      rw [if_neg (by omega)]
      exact withConfigRoot_withRefs hl hmax (Nat.succ_pos _) hmake (by simp)

theorem openKey_eq (hl : h.indexLoaded = true)
    (hpos : 0 < refs) (key : KConfigurationKey) (name : Name) :
    openKey (some key) name accessKey true (h.withRefs refs) =
      if refs = 2 ^ 32 - 1 then (.err .resourceLimitExceeded, h.withRefs refs)
      else match findEntry h.roots (configurationKey name) key.keyHash with
        | none => (.err .notFound, h.withRefs refs)
        | some _ =>
          if refs + 1 = 2 ^ 32 - 1 then (.err .resourceLimitExceeded, h.withRefs refs)
          else (.ok (childKey key name), h.withRefs (refs + 1)) := by
  by_cases hmax : refs = 2 ^ 32 - 1
  · rw [if_pos hmax]
    exact withConfigRoot_eq_of_max hl hmax
  · rw [if_neg hmax]
    have hroots : ∀ n, (h.withRefs n).roots = h.roots := fun _ => rfl
    cases hfind : findEntry h.roots (configurationKey name) key.keyHash with
    | none =>
      refine withConfigRoot_withRefs hl hmax hpos ?_ (by simp)
      simp [hroots, hfind]
    | some e =>
      obtain ⟨-, hk, hp⟩ := findEntry_mem hfind
      have hmake := makeHandle_eq h (childKey key name) (refs + 1)
      by_cases hmax' : refs + 1 = 2 ^ 32 - 1
      · rw [if_pos hmax'] at hmake
        rw [if_pos hmax']
        refine withConfigRoot_withRefs hl hmax hpos ?_ (by simp)
        simp only [Prog.get_bind_apply, hroots, hfind, hk, hp]
        exact hmake
      · rw [if_neg hmax'] at hmake
        rw [if_neg hmax']
        refine withConfigRoot_withRefs hl hmax (Nat.succ_pos _) ?_ (by simp)
        simp only [Prog.get_bind_apply, hroots, hfind, hk, hp]
        exact hmake

/-! ## What a walk depends on -/

/-- Two hives have the same entries along the path `rest` below `key`. -/
def AgreeAlong (h h' : KConfigurationRoot) (key : KConfigurationKey) : List Name → Prop
  | [] => True
  | name :: rest =>
    findEntry h'.roots (configurationKey name) key.keyHash =
      findEntry h.roots (configurationKey name) key.keyHash ∧
    AgreeAlong h h' (childKey key name) rest

theorem walkFrom_cons_err (hpos : 0 < refs)
    {key : KConfigurationKey} {name : Name} (rest : List Name) {e : KernelError}
    (hopen : openKey (some key) name accessKey true (h.withRefs (refs + 1)) =
      (.err e, h.withRefs (refs + 1))) :
    walkFrom key (name :: rest) (h.withRefs (refs + 1)) = (.err e, h.withRefs refs) := by
  rw [walkFrom, Prog.bind_ok (Prog.attempt_err hopen), Prog.bind_ok (closeKey_eq hpos)]
  rfl

theorem walkFrom_cons_ok {key child : KConfigurationKey} {name : Name} (rest : List Name)
    (hopen : openKey (some key) name accessKey true (h.withRefs (refs + 1)) =
      (.ok child, h.withRefs (refs + 1 + 1))) :
    walkFrom key (name :: rest) (h.withRefs (refs + 1)) =
      walkFrom child rest (h.withRefs (refs + 1)) := by
  rw [walkFrom, Prog.bind_ok (Prog.attempt_ok hopen)]
  rfl

theorem walkFrom_cases (hl : h.indexLoaded = true)
    (hpos : 0 < refs) (key : KConfigurationKey) (rest : List Name) :
    walkFrom key rest (h.withRefs (refs + 1)) =
        (.ok (rest.foldl childKey key), h.withRefs (refs + 1)) ∨
      ∃ e, walkFrom key rest (h.withRefs (refs + 1)) = (.err e, h.withRefs refs) := by
  induction rest generalizing key with
  | nil => exact .inl rfl
  | cons name rest ih =>
    have hopen := openKey_eq hl (show 0 < refs + 1 by omega) key name
    split at hopen
    · exact .inr ⟨_, walkFrom_cons_err hpos rest hopen⟩
    · split at hopen
      · exact .inr ⟨_, walkFrom_cons_err hpos rest hopen⟩
      · split at hopen
        · exact .inr ⟨_, walkFrom_cons_err hpos rest hopen⟩
        · rw [walkFrom_cons_ok rest hopen]
          exact ih (childKey key name)

/-- Two hives that agree along a path give the same answer for it. -/
theorem walkFrom_agree (hl : h.indexLoaded = true)
    (hl' : h'.indexLoaded = true) (hpos : 0 < refs) (key : KConfigurationKey)
    (rest : List Name) (agree : AgreeAlong h h' key rest) :
    (walkFrom key rest (h'.withRefs (refs + 1))).1 =
      (walkFrom key rest (h.withRefs (refs + 1))).1 := by
  induction rest generalizing key with
  | nil => rfl
  | cons name rest ih =>
    have hopen := openKey_eq hl (show 0 < refs + 1 by omega) key name
    have hopen' := openKey_eq hl' (show 0 < refs + 1 by omega) key name
    rw [agree.1] at hopen'
    by_cases hmax : refs + 1 = 2 ^ 32 - 1
    · rw [if_pos hmax] at hopen hopen'
      rw [walkFrom_cons_err hpos rest hopen, walkFrom_cons_err hpos rest hopen']
    · rw [if_neg hmax] at hopen hopen'
      cases hfind : findEntry h.roots (configurationKey name) key.keyHash with
      | none =>
        rw [hfind] at hopen hopen'
        rw [walkFrom_cons_err hpos rest hopen, walkFrom_cons_err hpos rest hopen']
      | some e =>
        rw [hfind] at hopen hopen'
        by_cases hmax' : refs + 1 + 1 = 2 ^ 32 - 1
        · simp only [if_pos hmax'] at hopen hopen'
          rw [walkFrom_cons_err hpos rest hopen, walkFrom_cons_err hpos rest hopen']
        · simp only [if_neg hmax'] at hopen hopen'
          rw [walkFrom_cons_ok rest hopen, walkFrom_cons_ok rest hopen']
          exact ih (childKey key name) agree.2

theorem walk_cases (hl : h.indexLoaded = true) (hpos : 0 < refs) (path : List Name) :
    walk path (h.withRefs refs) = (.ok (pathKey path), h.withRefs (refs + 1)) ∨
      ∃ e, walk path (h.withRefs refs) = (.err e, h.withRefs refs) := by
  have hroot := openRoot_eq hl hpos
  unfold walk
  split at hroot
  · rw [Prog.bind_err hroot]
    exact .inr ⟨_, rfl⟩
  · rw [Prog.bind_ok hroot]
    exact walkFrom_cases hl hpos rootKey path

theorem walk_agree (hl : h.indexLoaded = true)
    (hl' : h'.indexLoaded = true) (hpos : 0 < refs) {path : List Name}
    (agree : AgreeAlong h h' rootKey path) :
    (walk path (h'.withRefs refs)).1 = (walk path (h.withRefs refs)).1 := by
  have hroot := openRoot_eq hl hpos
  have hroot' := openRoot_eq hl' hpos
  unfold walk
  by_cases hmax : refs = 2 ^ 32 - 1 ∨ refs + 1 = 2 ^ 32 - 1
  · rw [if_pos hmax] at hroot hroot'
    rw [Prog.bind_err hroot, Prog.bind_err hroot']
  · rw [if_neg hmax] at hroot hroot'
    rw [Prog.bind_ok hroot, Prog.bind_ok hroot']
    exact walkFrom_agree hl hl' hpos rootKey path agree

theorem atPath_eq {α : Type} {path : List Name}
    (body : KConfigurationKey → HiveProg α) {o : Outcome KernelError α}
    (hwalk : walk path (h.withRefs refs) = (.ok (pathKey path), h.withRefs (refs + 1)))
    (hbody : body (pathKey path) (h.withRefs (refs + 1)) = (o, g)) (ho : o ≠ .stuck) :
    atPath path body (h.withRefs refs) = (o, released g) := by
  have hrel : closeKey g = (.ok (), released g) := rfl
  unfold atPath
  rw [Prog.bind_ok hwalk]
  cases o with
  | ok a => rw [Prog.bind_ok (Prog.attempt_ok hbody)]; rfl
  | err e => rw [Prog.bind_ok (Prog.attempt_err hbody)]; rfl
  | stuck => exact absurd rfl ho

theorem atPath_err {α : Type} {path : List Name}
    (body : KConfigurationKey → HiveProg α) {e : KernelError} (hwalk : walk path h = (.err e, g)) :
    atPath path body h = (.err e, g) := by
  unfold atPath
  rw [Prog.bind_err hwalk]

theorem atPath_agree {α : Type} (hl : h.indexLoaded = true)
    (hl' : h'.indexLoaded = true) (hpos : 0 < refs) {path : List Name}
    (agree : AgreeAlong h h' rootKey path) {body : KConfigurationKey → HiveProg α}
    (hbody : (body (pathKey path) (h'.withRefs (refs + 1))).1 =
      (body (pathKey path) (h.withRefs (refs + 1))).1)
    (hret : (body (pathKey path) (h.withRefs (refs + 1))).1 ≠ .stuck) :
    (atPath path body (h'.withRefs refs)).1 = (atPath path body (h.withRefs refs)).1 := by
  have hsame := walk_agree hl hl' hpos agree
  rcases walk_cases hl hpos path with hwalk | ⟨e, hwalk⟩
  · rcases walk_cases hl' hpos path with hwalk' | ⟨e, hwalk'⟩
    · rw [atPath_eq body hwalk (Prod.eta _).symm hret,
        atPath_eq body hwalk' (Prod.eta _).symm (by rw [hbody]; exact hret)]
      exact hbody
    · rw [hwalk, hwalk'] at hsame
      cases hsame
  · rcases walk_cases hl' hpos path with hwalk' | ⟨e', hwalk'⟩
    · rw [hwalk, hwalk'] at hsame
      cases hsame
    · rw [hwalk, hwalk'] at hsame
      cases hsame
      rw [atPath_err body hwalk, atPath_err body hwalk']

/-! ## Calls at paths -/

/-- What is done to the key at a path. -/
inductive PathAction where
  | create (access : KConfigurationKeyAccess) (handleAllocated : Bool)
  | set (value : ConfigurationValue)
  | delete
  | deleteValue

/-- A call at the path `folder ++ [name]`. -/
structure PathCall where
  folder : List Name
  name : Name
  action : PathAction

namespace PathCall

/-- The path the call is about. -/
def path (call : PathCall) : List Name := call.folder ++ [call.name]

/-- Walks to the folder of the key, or to the key itself to set its value, and makes
    the call there; all handles are closed again. -/
def exec (call : PathCall) : HiveProg Unit :=
  match call.action with
  | .create access handleAllocated => atPath call.folder fun key => do
      let _ ← createKey (some key) call.name access handleAllocated
      closeKey
  | .set value => atPath call.path fun key => setKeyValue key value
  | .delete => atPath call.folder fun key => deleteKey (some key) call.name
  | .deleteValue => atPath call.folder fun key => Hive.deleteValue key call.name

/-- The call finds what it needs free, as for `Call.Fits`. -/
def Fits (h : KConfigurationRoot) (call : PathCall) : Prop :=
  match call.action with
  | .create _ _ =>
    findEntry h.roots (configurationKey call.name) (pathKey call.folder).keyHash = none →
      CreateFits h (configurationKey call.name)
  | .set value => ∀ e,
    findEntry h.roots (configurationKey call.name) (pathKey call.folder).keyHash = some e →
      ValueFits h e value.payload.length
  | .delete => True
  | .deleteValue => True

end PathCall

/-- One call after the other, as in `run`. -/
def runPaths : List PathCall → HiveProg Unit
  | [] => pure ()
  | call :: calls => do
    let _ ← Prog.attempt call.exec
    runPaths calls

/-- Every call of the run fits the hive it meets. -/
def AllPathsFit : List PathCall → KConfigurationRoot → Prop
  | [], _ => True
  | call :: calls, h => call.Fits h ∧ AllPathsFit calls (call.exec h).2

theorem pathKey_append (folder : List Name) (name : Name) :
    pathKey (folder ++ [name]) = childKey (pathKey folder) name := by
  simp [pathKey]

/-! ## References are balanced -/

/-- The call returned, and left one more reference exactly when it handed out a handle. -/
def Balanced {α : Type} (refs : Nat) (result : Outcome KernelError α × KConfigurationRoot) : Prop :=
  match result.1 with
  | .ok _ => result.2.configptrReferences = refs + 1
  | .err _ => result.2.configptrReferences = refs
  | .stuck => False

theorem released_count (h : KConfigurationRoot) {n : Nat} (hn : h.configptrReferences = n + 1)
    (hpos : 0 < n) : (released h).configptrReferences = n := by
  rw [released, if_pos (by omega)]
  show h.configptrReferences - 1 = n
  omega

theorem makeHandle_balanced (alloc : Bool) (key : KConfigurationKey) (h : KConfigurationRoot) :
    Balanced h.configptrReferences (makeHandle alloc key h) := by
  cases alloc with
  | false => rfl
  | true =>
    have hmake : makeHandle true key h = _ := makeHandle_eq h key h.configptrReferences
    rw [hmake]
    split <;> rfl

theorem Balanced.withConfigRoot {α : Type} {body : HiveProg α}
    (hl : h.indexLoaded = true) (hpos : 0 < h.configptrReferences)
    (hbody : h.configptrReferences ≠ 2 ^ 32 - 1 →
      Balanced (h.configptrReferences + 1) (body (referenced h))) :
    Balanced h.configptrReferences (Hive.withConfigRoot body h) := by
  by_cases hrefs : h.configptrReferences = 2 ^ 32 - 1
  · rw [withConfigRoot_eq_of_max hl hrefs]
    rfl
  · have B := hbody hrefs
    cases hrun : body (referenced h) with
    | mk o h' =>
      rw [hrun] at B
      cases o with
      | ok a =>
        rw [withConfigRoot_eq hl hrefs hrun (by simp)]
        exact released_count h' B (Nat.succ_pos _)
      | err e =>
        rw [withConfigRoot_eq hl hrefs hrun (by simp)]
        exact released_count h' B hpos
      | stuck => exact B.elim

theorem createKey_balanced {chain : List Nat} (C : Coherent chain h)
    (hpos : 0 < h.configptrReferences) {parent : KConfigurationKey} {name : Name}
    (fits : findEntry h.roots (configurationKey name) parent.keyHash = none →
      CreateFits h (configurationKey name)) (access : KConfigurationKeyAccess) (alloc : Bool) :
    Balanced h.configptrReferences (createKey (some parent) name access alloc h) := by
  refine Balanced.withConfigRoot C.loaded hpos fun hrefs => ?_
  simp only [Prog.get_bind_apply]
  have hroots : (referenced h).roots = h.roots := rfl
  rw [hroots]
  cases hfind : findEntry h.roots (configurationKey name) parent.keyHash with
  | some e =>
    split
    · rfl
    · exact makeHandle_balanced alloc _ (referenced h)
  | none =>
    obtain ⟨chain', h', hrun, N⟩ := createEntry_spec ((SameHive.referenced h).coherent C)
      (fits hfind) hfind name
    simp only []
    rw [Prog.bind_ok hrun]
    have B := makeHandle_balanced alloc
      { keyHash := configurationKey name, parentHash := parent.keyHash, access := access } h'
    rw [N.references] at B
    exact B

/-! ## One call -/

/-- A call at a path returned, left a coherent hive with as many references as before,
    and touched the entry of its path at most. -/
structure PathReturns (call : PathCall) (h : KConfigurationRoot)
    (result : Outcome KernelError Unit × KConfigurationRoot) : Prop where
  returned : result.1 ≠ .stuck
  coherent : ∃ chain, Coherent chain result.2
  touches : Touches (configurationKey call.name) (pathKey call.folder).keyHash h result.2
  references : result.2.configptrReferences = h.configptrReferences

theorem PathReturns.ofBody {call : PathCall} {chain : List Nat}
    (C : Coherent chain h) (hpos : 0 < h.configptrReferences) {path : List Name}
    {body : KConfigurationKey → HiveProg Unit}
    (hbody : ∀ g, SameHive h g → g.configptrReferences = h.configptrReferences + 1 →
      PathReturns call g (body (pathKey path) g)) : PathReturns call h (atPath path body h) := by
  have heq : h.withRefs h.configptrReferences = h := rfl
  have hcases := walk_cases C.loaded hpos path
  rw [heq] at hcases
  rcases hcases with hwalk | ⟨e, hwalk⟩
  · have S := sameHive_withRefs h (h.configptrReferences + 1)
    have R := hbody _ S rfl
    rw [← heq, atPath_eq body hwalk (Prod.eta _).symm R.returned]
    obtain ⟨chain', C'⟩ := R.coherent
    have S' := SameHive.released
      (body (pathKey path) (h.withRefs (h.configptrReferences + 1))).2
    refine ⟨R.returned, ⟨chain', S'.coherent C'⟩, ?_, released_count _ R.references hpos⟩
    exact (Touches.ofSame S _ _).trans (R.touches.trans (Touches.ofSame S' _ _))
  · rw [atPath_err body hwalk]
    exact ⟨by simp, ⟨chain, C⟩, Touches.ofSame (SameHive.refl h) _ _, rfl⟩

theorem PathCall.Fits.congr {call : PathCall} (fits : call.Fits h)
    (S : SameHive h g) : call.Fits g := by
  have hcreate : ∀ kh, CreateFits g kh ↔ CreateFits h kh := by
    intro kh
    unfold CreateFits indexBlocks
    rw [S.roots, S.file]
  have hvalue : ∀ e n, ValueFits g e n ↔ ValueFits h e n := by
    intro e n
    unfold ValueFits indexBlocks
    rw [S.roots, S.file]
  unfold PathCall.Fits at *
  rw [S.roots]
  cases haction : call.action with
  | create access alloc =>
    rw [haction] at fits
    exact fun hnone => (hcreate _).mpr (fits hnone)
  | set value =>
    rw [haction] at fits
    exact fun e he => (hvalue e _).mpr (fits e he)
  | delete => trivial
  | deleteValue => trivial

theorem PathCall.exec_returns {chain : List Nat} (C : Coherent chain h)
    (hpos : 0 < h.configptrReferences) {call : PathCall} (fits : call.Fits h) :
    PathReturns call h (call.exec h) := by
  unfold PathCall.exec
  cases haction : call.action with
  | create access alloc =>
    apply PathReturns.ofBody C hpos
    intro g S hrefs
    have Cg := S.coherent C
    have fitsg := fits.congr S
    simp only [PathCall.Fits, haction] at fitsg
    have R := createKey_returns Cg
      (resolveTarget_child _ (pathKey call.folder) call.name) (fun _ => fitsg) access alloc
    have B := createKey_balanced Cg (by omega) fitsg access alloc
    cases hrun : createKey (some (pathKey call.folder)) call.name access alloc g with
    | mk o g' =>
      rw [hrun] at R B
      cases o with
      | ok key =>
        have hclose : closeKey g' = (.ok (), released g') := rfl
        have S' := SameHive.released g'
        obtain ⟨chain', C'⟩ := R.coherent
        rw [Prog.bind_ok hrun, hclose]
        exact ⟨by simp, ⟨chain', S'.coherent C'⟩, R.touches.trans (Touches.ofSame S' _ _),
          released_count g' B (by omega)⟩
      | err e =>
        rw [Prog.bind_err hrun]
        exact ⟨by simp, R.coherent, R.touches, B⟩
      | stuck => exact B.elim
  | set value =>
    apply PathReturns.ofBody C hpos
    intro g S hrefs
    have Cg := S.coherent C
    have fitsg := fits.congr S
    simp only [PathCall.Fits, haction] at fitsg
    have hkey : pathKey call.path = childKey (pathKey call.folder) call.name := pathKey_append _ _
    rw [hkey]
    have R := setKeyValue_returns Cg (childKey (pathKey call.folder) call.name) value fitsg
    refine ⟨R.returned, R.coherent, R.touches, ?_⟩
    rw [setKeyValue_eq Cg.loaded Cg.layout.faults]
    split <;> rfl
  | delete =>
    apply PathReturns.ofBody C hpos
    intro g S hrefs
    have Cg := S.coherent C
    have hres : resolveTarget g.hiveName (some (pathKey call.folder)) call.name =
      .ok (configurationKey call.name, (pathKey call.folder).keyHash, call.name) := rfl
    have R := deleteKey_returns Cg hres
    refine ⟨R.returned, R.coherent, R.touches, ?_⟩
    rw [deleteKey_eq Cg.loaded Cg.layout.faults hres]
    split
    · rfl
    · split
      · exact released_count _ rfl (by omega)
      · exact released_count _ (keyDeleted_references _ _) (by omega)
  | deleteValue =>
    apply PathReturns.ofBody C hpos
    intro g S hrefs
    have Cg := S.coherent C
    have R := deleteValue_returns Cg (pathKey call.folder) call.name
    refine ⟨R.returned, R.coherent, R.touches, ?_⟩
    rw [deleteValue_eq Cg.loaded Cg.layout.faults]
    split
    · rfl
    · split <;> rfl

end UnDOS.Hive
