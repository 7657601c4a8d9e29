import UnDOS.Lib.Hoare
import UnDOS.Vfs.Calls

/-!
# The Life of a File Object

What opening, closing and releasing do to the state, call by call.

`Building s₀ a P s`: the state differs from `s₀` in the file object at `a`, which satisfies
`P`, and in the contents of volumes.  This is the state inside `KE_VFS_OpenFile`.
-/

namespace UnDOS.Vfs

open UnDOS.Lib
open UnDOS.Lib.Prog
open UnDOS.Kernel (KernelError)

variable {V N : Type}

/-! ## Reading updated states -/

namespace State

@[simp] theorem setFile_files_self (s : State V N) (a : Addr) (g : File N → File N) :
    (s.setFile a g).files a = (s.files a).map g := if_pos rfl

theorem setFile_files_of_ne (s : State V N) {a b : Addr} (g : File N → File N) (h : b ≠ a) :
    (s.setFile a g).files b = s.files b := if_neg h

@[simp] theorem setFile_mounts (s : State V N) (a : Addr) (g : File N → File N) :
    (s.setFile a g).mounts = s.mounts := rfl

@[simp] theorem setMount_files (s : State V N) (m : Nat) (g : Mount V N → Mount V N) :
    (s.setMount m g).files = s.files := rfl

theorem setMount_mounts (s : State V N) (m k : Nat) (g : Mount V N → Mount V N) :
    (s.setMount m g).mounts[k]? = if m = k then s.mounts[k]?.map g else s.mounts[k]? := by
  unfold setMount
  rw [List.getElem?_modify]
  split <;> simp

@[simp] theorem setFile?_mounts (s : State V N) (a : Option Addr) (g : File N → File N) :
    (s.setFile? a g).mounts = s.mounts := by
  rcases a with _ | a <;> rfl

theorem setFile?_files_of_ne (s : State V N) {a : Option Addr} {b : Addr} (g : File N → File N)
    (h : a ≠ some b) : (s.setFile? a g).files b = s.files b := by
  rcases a with _ | a
  · rfl
  · exact s.setFile_files_of_ne g fun heq => h (congrArg some heq.symm)

/-- With the file object at `a` replaced. -/
def put (s : State V N) (a : Addr) (f : Option (File N)) : State V N :=
  { s with files := fun b => if b = a then f else s.files b }

@[simp] theorem put_files_self (s : State V N) (a : Addr) (f : Option (File N)) :
    (s.put a f).files a = f := if_pos rfl

theorem put_files_of_ne (s : State V N) {a b : Addr} (f : Option (File N)) (h : b ≠ a) :
    (s.put a f).files b = s.files b := if_neg h

@[simp] theorem put_put (s : State V N) (a : Addr) (f f' : Option (File N)) :
    (s.put a f).put a f' = s.put a f' := by
  unfold put
  simp only [State.mk.injEq, and_true]
  funext b
  by_cases hb : b = a
  · simp [hb]
  · simp [hb]

theorem setFile_eq_put {s : State V N} {a : Addr} {f : File N} (h : s.files a = some f)
    (g : File N → File N) : s.setFile a g = s.put a (some (g f)) := by
  unfold setFile put
  congr 1
  funext b
  by_cases hb : b = a
  · simp [hb, h]
  · simp [hb]

theorem put_self {s : State V N} {a : Addr} {f : Option (File N)} (h : s.files a = f) :
    s.put a f = s := by
  have hfiles : (fun b => if b = a then f else s.files b) = s.files := by
    funext b
    by_cases hb : b = a
    · rw [if_pos hb, hb, h]
    · rw [if_neg hb]
  unfold put
  rw [hfiles]

@[simp] theorem setFile_put (s : State V N) (a : Addr) (f : File N) (g : File N → File N) :
    (s.put a (some f)).setFile a g = s.put a (some (g f)) := by
  rw [setFile_eq_put (s.put_files_self a (some f)), put_put]

end State

variable {s s' : State V N}

theorem getFile_ok {a : Addr} {f : File N} (h : s.files a = some f) : getFile a s = (.ok f, s) := by
  unfold getFile
  rw [h]

theorem retain_eq {a : Addr} {f : File N} (h : s.files a = some f) :
    retain a s = (.ok (), s.put a (some { f with referenceCount := f.referenceCount + 1 })) := by
  unfold retain
  rw [bind_ok (getFile_ok h), modify_apply, State.setFile_eq_put h]

/-! ## Closing under the lock -/

/-- What `closeLocked` leaves of a file object. -/
def File.closed (f : File N) : File N :=
  { f with
    isClosed := true, vfsNode := none, fileHandleCreated := false, vfsOpenCounted := false
    vfsNext := none, vfsPrevious := none }

theorem closeHandleOf_files {a : Addr} {f : File N} (h : s.files a = some f)
    (m : Nat) : ∃ node, (closeHandleOf s a m).files =
      (s.put a (some { f with vfsNode := node })).files := by
  have hsame : s.files = (s.put a (some { f with vfsNode := f.vfsNode })).files := by
    funext b
    by_cases hb : b = a
    · subst hb
      rw [State.put_files_self, h]
    · rw [State.put_files_of_ne _ _ hb]
  unfold closeHandleOf
  rw [h]
  rcases s.mounts[m]? with _ | mount
  · exact ⟨f.vfsNode, hsame⟩
  · dsimp only
    rcases mount.fileSystem.bind (·.closeHandle) with _ | closeHandle
    · exact ⟨f.vfsNode, hsame⟩
    · dsimp only
      by_cases hc : f.fileHandleCreated
      · refine ⟨(closeHandle mount.volume f.vfsNode).2, ?_⟩
        rw [State.setFile_eq_put (f := f) (by simpa using h)]
        simp only [hc]
        rfl
      · rw [if_neg hc]
        exact ⟨f.vfsNode, hsame⟩

/-- The list of a mount: its counter and its first file. -/
def Mount.list (mount : Mount V N) : UInt32 × Option Addr := (mount.openFileCount, mount.openFiles)

/-- Every mount keeps its list. -/
def SameLists (s s' : State V N) : Prop :=
  ∀ k : Nat, s'.mounts[k]?.map Mount.list = s.mounts[k]?.map Mount.list

theorem SameLists.refl (s : State V N) : SameLists s s := fun _ => rfl

theorem SameLists.trans {s'' : State V N} (h : SameLists s s') (h' : SameLists s' s'') :
    SameLists s s'' := fun k => (h' k).trans (h k)

theorem SameLists.lt_length (h : SameLists s s') {m : Nat} {mount : Mount V N}
    (hm : s'.mounts[m]? = some mount) : m < s.mounts.length := by
  have hl := h m
  rw [hm, Option.map_some, eq_comm, Option.map_eq_some_iff] at hl
  obtain ⟨mount', hmount, -⟩ := hl
  exact (List.getElem?_eq_some_iff.1 hmount).1

theorem SameLists.symm (h : SameLists s s') : SameLists s' s :=
  fun k => (h k).symm

theorem sameLists_setMount {m : Nat} {g : Mount V N → Mount V N}
    (hg : ∀ mount, (g mount).list = mount.list) : SameLists s (s.setMount m g) := by
  intro k
  rw [State.setMount_mounts]
  split
  · rw [Option.map_map, show Mount.list ∘ g = Mount.list from funext hg]
  · rfl

theorem sameLists_setFile (s : State V N) (a : Addr) (g : File N → File N) :
    SameLists s (s.setFile a g) := fun _ => rfl

theorem closeHandleOf_lists (s : State V N) (a : Addr) (m : Nat) :
    SameLists s (closeHandleOf s a m) := by
  unfold closeHandleOf
  rcases s.files a with _ | f
  · exact .refl s
  · rcases s.mounts[m]? with _ | mount
    · exact .refl s
    · dsimp only
      rcases mount.fileSystem.bind (·.closeHandle) with _ | closeHandle
      · exact .refl s
      · dsimp only
        split
        · refine SameLists.trans (sameLists_setMount (m := m) ?_) (sameLists_setFile _ _ _)
          exact fun _ => rfl
        · exact .refl s

/-- What unlinking `f` changes in the file object at `b`. -/
def File.relink (f : File N) (b : Addr) (g : File N) : File N :=
  { g with
    vfsNext := if f.vfsPrevious = some b then f.vfsNext else g.vfsNext
    vfsPrevious := if f.vfsNext = some b then f.vfsPrevious else g.vfsPrevious }

theorem setFile?_files (s : State V N) (a : Option Addr) (g : File N → File N) (b : Addr) :
    (s.setFile? a g).files b = if a = some b then (s.files b).map g else s.files b := by
  by_cases h : a = some b
  · subst h
    simp [State.setFile?]
  · rw [State.setFile?_files_of_ne _ _ h, if_neg h]

theorem unlinkPrevious_files (s : State V N) (m : Nat) (f : File N) (b : Addr) :
    (unlinkPrevious s m f).files b = (s.files b).map fun g =>
      { g with vfsNext := if f.vfsPrevious = some b then f.vfsNext else g.vfsNext } := by
  unfold unlinkPrevious
  rcases f.vfsPrevious with _ | p
  · simp
  · have hset := setFile?_files s (some p) (fun g => { g with vfsNext := f.vfsNext }) b
    simp only [State.setFile?] at hset
    rw [hset]
    by_cases hpb : some p = some b <;> simp [hpb]

theorem unlinkFile_files {a : Addr} {f : File N} (h : s.files a = some f) (m : Nat) (b : Addr) :
    (unlinkFile s a m).files b =
      if f.vfsOpenCounted then (s.files b).map (f.relink b) else s.files b := by
  unfold unlinkFile
  rw [h]
  dsimp only
  by_cases hc : f.vfsOpenCounted
  · rw [if_pos hc, if_pos hc, setFile?_files, unlinkPrevious_files, State.setMount_files]
    rcases s.files b with _ | g
    · simp
    · by_cases hn : f.vfsNext = some b <;> simp [hn, File.relink]
  · rw [if_neg hc, if_neg hc]

theorem unlinkFile_lists {a : Addr} {f : File N} (h : s.files a = some f) (m k : Nat) :
    (unlinkFile s a m).mounts[k]?.map Mount.list = if f.vfsOpenCounted ∧ m = k then
        s.mounts[k]?.map fun mount => (mount.openFileCount - 1,
          if f.vfsPrevious = none then f.vfsNext else mount.openFiles)
      else s.mounts[k]?.map Mount.list := by
  unfold unlinkFile
  rw [h]
  dsimp only
  by_cases hc : f.vfsOpenCounted
  · rw [if_pos hc, State.setFile?_mounts]
    unfold unlinkPrevious
    by_cases hk : m = k
    · rw [if_pos ⟨hc, hk⟩]
      rcases f.vfsPrevious with _ | p
      · simp only [State.setMount_mounts, hk, if_true, Option.map_map]
        rfl
      · simp only [State.setFile_mounts, State.setMount_mounts, hk, if_true, Option.map_map]
        rfl
    · rw [if_neg fun hmk => hk hmk.2]
      rcases f.vfsPrevious with _ | p
      · simp only [State.setMount_mounts, if_neg hk]
      · simp only [State.setFile_mounts, State.setMount_mounts, if_neg hk]
  · rw [if_neg hc, if_neg fun hmk => hc hmk.1]

section Close
variable {s : State V N} {a : Addr} {f : File N} (h : s.files a = some f) (m : Nat)
include h

theorem closeLocked_before : ∃ s₁ f₁, closeLocked s a m = ((unlinkFile s₁ a m).setFile a fun f =>
        { f with vfsOpenCounted := false, vfsNext := none, vfsPrevious := none, vfsNode := none }) ∧
    s₁.files = (s.put a (some f₁)).files ∧ SameLists s s₁ ∧
    ∃ node, f₁ = { f with isClosed := true, vfsNode := node, fileHandleCreated := false } := by
  have hclosed : (s.setFile a fun f => { f with isClosed := true }).files a =
      some { f with isClosed := true } := by
    rw [State.setFile_files_self, h]
    rfl
  obtain ⟨node, hnode⟩ := closeHandleOf_files hclosed m
  refine ⟨_, { f with isClosed := true, vfsNode := node, fileHandleCreated := false }, rfl, ?_, ?_,
    node, rfl⟩
  · have hself := congrFun hnode a
    rw [State.put_files_self] at hself
    rw [State.setFile_eq_put hself]
    funext b
    by_cases hb : b = a
    · subst hb
      simp
    · rw [State.put_files_of_ne _ _ hb, State.put_files_of_ne _ _ hb, hnode,
        State.put_files_of_ne _ _ hb, State.setFile_files_of_ne _ _ hb]
  · exact ((sameLists_setFile s a _).trans (closeHandleOf_lists _ a m)).trans
      (sameLists_setFile _ a _)

theorem closeLocked_files_self : (closeLocked s a m).files a = some f.closed := by
  obtain ⟨s₁, f₁, heq, hfiles, -, node, rfl⟩ := closeLocked_before h m
  have hself := (congrFun hfiles a).trans (State.put_files_self _ _ _)
  rw [heq, State.setFile_files_self, unlinkFile_files hself]
  by_cases hc : f.vfsOpenCounted
  · simp [hself, File.relink, File.closed]
  · simp [hc, hself, File.closed]

theorem closeLocked_files_of_ne {b : Addr} (hb : b ≠ a) : (closeLocked s a m).files b =
      if f.vfsOpenCounted then (s.files b).map (f.relink b) else s.files b := by
  obtain ⟨s₁, f₁, heq, hfiles, -, node, rfl⟩ := closeLocked_before h m
  have hself := (congrFun hfiles a).trans (State.put_files_self _ _ _)
  have hother := (congrFun hfiles b).trans (State.put_files_of_ne _ _ hb)
  rw [heq, State.setFile_files_of_ne _ _ hb, unlinkFile_files hself, hother]
  rfl

theorem closeLocked_lists (k : Nat) : (closeLocked s a m).mounts[k]?.map Mount.list =
      if f.vfsOpenCounted ∧ m = k then
        s.mounts[k]?.map fun mount => (mount.openFileCount - 1,
          if f.vfsPrevious = none then f.vfsNext else mount.openFiles)
      else s.mounts[k]?.map Mount.list := by
  obtain ⟨s₁, f₁, heq, hfiles, hlists, node, rfl⟩ := closeLocked_before h m
  have hself := (congrFun hfiles a).trans (State.put_files_self _ _ _)
  rw [heq, State.setFile_mounts, unlinkFile_lists hself]
  have hk := hlists k
  rcases hs : s.mounts[k]? with _ | mount
  · rw [hs, Option.map_none, Option.map_eq_none_iff] at hk
    simp [hk]
  · obtain ⟨mount₁, hs₁, hl⟩ : ∃ mount₁, s₁.mounts[k]? = some mount₁ ∧
        mount₁.list = mount.list := by
      rw [hs, Option.map_some, Option.map_eq_some_iff] at hk
      exact hk
    obtain ⟨hcount, hfirst⟩ := Prod.mk.inj hl
    simp [hs₁, Mount.list, hcount, hfirst]

end Close

/-! ## Releasing -/

section Release
variable {s : State V N} {a : Addr} {f : File N} {n : Nat} (h : s.files a = some f)
include h

theorem releaseWith_keep (hclose : ¬(f.referenceCount = 2 ∧ f.parent))
    (hlast : f.referenceCount ≠ 1) :
    releaseWith (n + 1) a s =
      (.ok (), s.put a (some { f with referenceCount := f.referenceCount - 1 })) := by
  unfold releaseWith
  rw [bind_ok (getFile_ok h), modify_bind_apply, if_neg hclose, if_neg hlast,
    State.setFile_eq_put h]
  rfl

theorem releaseWith_last (hrefs : f.referenceCount = 1) (hclosed : f.isClosed) :
    releaseWith (n + 1) a s = (.ok (), s.put a none) := by
  have hauto : ¬(f.referenceCount = 2 ∧ f.parent) := fun hc => by omega
  unfold releaseWith
  rw [bind_ok (getFile_ok h), modify_bind_apply, if_neg hauto, if_pos hrefs,
    State.setFile_eq_put h]
  unfold destroy
  rw [bind_ok (getFile_ok (State.put_files_self _ _ _)), if_pos hclosed]
  exact congrArg (Prod.mk _) (State.put_put _ _ _ _)

/-- The state after an open file has been closed and taken out of `\File`. -/
def State.closedFile (s : State V N) (a : Addr) (m : Nat) (f : Option (File N)) : State V N :=
  { closeLocked s a m with fileDirectory := (closeLocked s a m).fileDirectory.erase a }.put a f

theorem closeFileWith_open {m : Nat} (hm : f.mountPoint = some m) (hopen : f.isClosed = false)
    (hparent : f.parent = true) (hrefs : 2 ≤ f.referenceCount) :
    closeFileWith (releaseWith (n + 1)) a s = (.ok (), s.closedFile a m
        (some { f.closed with parent := false, referenceCount := f.referenceCount - 1 })) := by
  have hself := closeLocked_files_self h m
  unfold closeFileWith
  rw [bind_ok (getFile_ok h), hm]
  dsimp only
  rw [hopen, if_neg Bool.false_ne_true, modify_bind_apply, if_pos hparent]
  unfold removeObject
  rw [bind_ok (retain_eq hself), bind_ok (getFile_ok (State.put_files_self _ _ _)),
    if_pos (show f.closed.parent = true from hparent), modify_bind_apply]
  -- The directory's reference and that of the argument are two of at least three.
  have hdir := releaseWith_keep (n := n) (a := a)
    (s := ({ closeLocked s a m with
      fileDirectory := (closeLocked s a m).fileDirectory.erase a } : State V N).put a
        (some { f.closed with parent := false, referenceCount := f.referenceCount + 1 }))
    (State.put_files_self _ _ _) (by simp) (by dsimp only; omega)
  have harg := releaseWith_keep (n := n) (a := a)
    (s := ({ closeLocked s a m with
      fileDirectory := (closeLocked s a m).fileDirectory.erase a } : State V N).put a
        (some { f.closed with parent := false, referenceCount := f.referenceCount }))
    (State.put_files_self _ _ _) (by simp) (by dsimp only; omega)
  rw [State.put_put] at hdir harg
  have hstate : ({ ((closeLocked s a m).put a
        (some { f.closed with referenceCount := f.closed.referenceCount + 1 })).setFile a
          (fun f => { f with parent := false }) with
        fileDirectory := ((closeLocked s a m).put a (some
          { f.closed with referenceCount := f.closed.referenceCount + 1 })).fileDirectory.erase a
            } :
            State V N) =
      ({ closeLocked s a m with
        fileDirectory := (closeLocked s a m).fileDirectory.erase a } : State V N).put a
          (some { f.closed with parent := false, referenceCount := f.referenceCount + 1 }) := by
    rw [State.setFile_put]
    rfl
  rw [hstate, bind_ok hdir]
  exact harg

theorem closeFileWith_closed {r : Addr → Op V N Unit} {m : Nat} (hm : f.mountPoint = some m)
    (hclosed : f.isClosed = true) : closeFileWith r a s = (.ok (), s) := by
  unfold closeFileWith
  rw [bind_ok (getFile_ok h), hm]
  dsimp only
  rw [if_pos hclosed]
  rfl

theorem releaseWith_auto {m : Nat} (hm : f.mountPoint = some m) (hopen : f.isClosed = false)
    (hparent : f.parent = true) (hrefs : f.referenceCount = 2) :
    releaseWith (n + 2) a s = (.ok (), s.closedFile a m none) := by
  have hback : { { f with referenceCount := f.referenceCount - 1 } with
      referenceCount := f.referenceCount - 1 + 1 } = f := by
    rw [show f.referenceCount - 1 + 1 = f.referenceCount by omega]
  unfold releaseWith
  rw [bind_ok (getFile_ok h), modify_bind_apply, if_pos ⟨hrefs, hparent⟩, State.setFile_eq_put h,
    bind_ok (retain_eq (State.put_files_self _ _ _)), State.put_put]
  rw [hback, State.put_self h]
  have hclose := closeFileWith_open (n := n) h hm hopen hparent (by omega)
  rw [bind_ok (attempt_ok hclose)]
  have hlast := releaseWith_last (n := n) (a := a)
    (s := s.closedFile a m (some
      { f.closed with parent := false, referenceCount := f.referenceCount - 1 }))
    (State.put_files_self _ _ _) (by dsimp only; omega) rfl
  rw [hlast]
  unfold State.closedFile
  rw [State.put_put]

theorem close_unpublished (r : Addr → Op V N Unit) (hopen : f.isClosed = false)
    (hparent : f.parent = false) (hcounted : f.vfsOpenCounted = false) :
    ∃ out s', attempt (closeFileWith r a) s = (.ok out, s') ∧
      (∃ g, s'.files a = some g ∧ g.referenceCount = f.referenceCount ∧ g.parent = false) ∧
      (∀ b, b ≠ a → s'.files b = s.files b) ∧ SameLists s s' := by
  rcases hm : f.mountPoint with _ | m
  · refine ⟨.error .wrongObjectType, s, attempt_err ?_, ⟨f, h, rfl, hparent⟩, fun _ _ => rfl,
      .refl s⟩
    unfold closeFileWith
    rw [bind_ok (getFile_ok h), hm]
    rfl
  · refine ⟨.ok (), closeLocked s a m, attempt_ok ?_,
      ⟨f.closed, closeLocked_files_self h m, rfl, hparent⟩, ?_, ?_⟩
    · unfold closeFileWith
      rw [bind_ok (getFile_ok h), hm]
      dsimp only
      rw [hopen, if_neg Bool.false_ne_true, modify_bind_apply, hparent, if_neg Bool.false_ne_true]
      rfl
    · intro b hb
      rw [closeLocked_files_of_ne h m hb, if_neg (by simp [hcounted])]
    · intro k
      rw [closeLocked_lists h m k, if_neg (by simp [hcounted])]

theorem releaseWith_abandon (hopen : f.isClosed = false) (hparent : f.parent = false)
    (hcounted : f.vfsOpenCounted = false) (hrefs : f.referenceCount = 1) :
    ∃ s', releaseWith (n + 2) a s = (.ok (), s') ∧
      (∀ b, s'.files b = if b = a then none else s.files b) ∧ SameLists s s' := by
  have hauto : ¬(f.referenceCount = 2 ∧ f.parent) := fun hc => by omega
  -- Its destructor closes it with two references of its own.
  obtain ⟨out, s₁, hclose, ⟨g, hg, hgrefs, hgparent⟩, hothers, hlists⟩ :=
    close_unpublished (s := s.put a (some { f with referenceCount := 2 }))
      (State.put_files_self _ _ _) (releaseWith (n + 1)) hopen hparent hcounted
  have hkeep := releaseWith_keep (n := n) hg (fun hc => by simp [hgparent] at hc)
    (by simp [hgrefs])
  refine ⟨s₁.put a none, ?_, ?_, hlists⟩
  · rw [releaseWith, bind_ok (getFile_ok h), modify_bind_apply, if_neg hauto, if_pos hrefs,
      State.setFile_eq_put h]
    unfold destroy
    rw [bind_ok (getFile_ok (State.put_files_self _ _ _))]
    rw [hopen, if_neg Bool.false_ne_true, bind_ok (retain_eq (State.put_files_self _ _ _)),
      State.put_put, bind_ok (retain_eq (State.put_files_self _ _ _)), State.put_put]
    rw [show f.referenceCount - 1 + 1 + 1 = 2 by omega, hopen.symm, bind_ok hclose, bind_ok hkeep]
    exact congrArg (Prod.mk _) (State.put_put _ _ _ _)
  · intro b
    by_cases hb : b = a
    · rw [hb, State.put_files_self, if_pos rfl]
    · rw [State.put_files_of_ne _ _ hb, hothers b hb, State.put_files_of_ne _ _ hb, if_neg hb]

end Release

/-! ## Opening -/

section Open
variable {s₀ : State V N} {a : Addr} {P P' : File N → Prop}

/-- Nothing but the file object at `a` and the contents of volumes differs from `s₀`. -/
def Building (s₀ : State V N) (a : Addr) (P : File N → Prop) (s : State V N) : Prop :=
  (∃ f, s.files a = some f ∧ P f) ∧ (∀ b, b ≠ a → s.files b = s₀.files b) ∧ SameLists s₀ s

/-- A file object of `KE_VFS_OpenFile` that has not been published. -/
structure File.Plain (f : File N) : Prop where
  isClosed : f.isClosed = false
  parent : f.parent = false
  counted : f.vfsOpenCounted = false
  next : f.vfsNext = none
  previous : f.vfsPrevious = none
  references : f.referenceCount = 1

/-- A file object in `\File` with a node on the mount `m`, not yet on its list. -/
structure File.Published (f : File N) (m : Nat) : Prop where
  isClosed : f.isClosed = false
  parent : f.parent = true
  counted : f.vfsOpenCounted = false
  next : f.vfsNext = none
  previous : f.vfsPrevious = none
  references : f.referenceCount = 2
  mountPoint : f.mountPoint = some m
  vfsNode : f.vfsNode.isSome

theorem Building.setFile {s : State V N} (h : Building s₀ a P s) {g : File N → File N}
    (hg : ∀ f, P f → P' (g f)) : Building s₀ a P' (s.setFile a g) := by
  obtain ⟨⟨f, hf, hP⟩, hothers, hlists⟩ := h
  refine ⟨⟨g f, ?_, hg f hP⟩, ?_, hlists⟩
  · rw [State.setFile_files_self, hf]
    rfl
  · intro b hb
    rw [State.setFile_files_of_ne _ _ hb, hothers b hb]

theorem Building.onVolume {α : Type} (m : Nat) (callback : Prog V KernelError α) :
    Triple (Building s₀ a P) (Vfs.onVolume m callback) (fun _ => Building s₀ a P)
      (fun _ => Building s₀ a P) := by
  intro s h
  unfold Vfs.onVolume
  rcases s.mounts[m]? with _ | mount
  · trivial
  · dsimp only
    -- The volume is not part of what is kept.
    have hset : ∀ volume, Building s₀ a P (s.setMount m fun mount => { mount with volume }) :=
      fun volume => ⟨h.1, h.2.1, h.2.2.trans (sameLists_setMount fun _ => rfl)⟩
    rcases hrun : callback mount.volume with ⟨_ | _ | _, volume⟩
    · exact hset volume
    · exact hset volume
    · trivial

theorem Building.walk (m : Nat) (lookup : Node N → Path → Prog V KernelError (Node N))
    (names : List Path) (node : Node N) (actual : Path) :
    Triple (Building s₀ a P) (Vfs.walk m lookup names node actual) (fun _ => Building s₀ a P)
      (fun _ => Building s₀ a P) := by
  induction names generalizing node actual with
  | nil => exact Triple.pure fun _ h => h
  | cons name rest ih =>
    refine Triple.ite (fun _ => ih node actual) fun _ => ?_
    refine Triple.ite (fun _ => Triple.throw fun _ h => h) fun _ => ?_
    refine Triple.bind (Building.onVolume m _) fun child => ?_
    exact Triple.ite (fun _ => Triple.throw fun _ h => h) fun _ => ih child _

/-- The name is taken and nothing changes, or the directory holds a second reference. -/
theorem insertObject_eq {s : State V N} {f : File N} (hf : s.files a = some f)
    (hparent : f.parent = false) (hrefs : f.referenceCount = 1) :
    Vfs.insertObject a s = (.err .alreadyExists, s) ∨
    Vfs.insertObject a s = (.ok (),
      ({ s with fileDirectory := s.fileDirectory ++ [a] } : State V N).put a
      (some { f with parent := true, referenceCount := 2 })) := by
  have hnot : ¬f.parent = true := by simp [hparent]
  unfold Vfs.insertObject
  rw [bind_ok (retain_eq hf), bind_ok (getFile_ok (State.put_files_self _ _ _)), get_bind_apply,
    if_neg hnot]
  split
  · -- The count goes up and down again.
    have hback : release a (s.put a (some { f with referenceCount := f.referenceCount + 1 })) =
        (.ok (), s) := by
      have hkeep := releaseWith_keep (n := 2) (a := a)
        (s := s.put a (some { f with referenceCount := f.referenceCount + 1 }))
        (State.put_files_self _ _ _) (fun hc => hnot hc.2) (by simp [hrefs])
      rw [State.put_put] at hkeep
      rw [Nat.add_sub_cancel, State.put_self hf] at hkeep
      exact hkeep
    left
    rw [bind_ok hback]
    rfl
  · right
    rw [modify_bind_apply, State.setFile_put, bind_ok (retain_eq (State.put_files_self _ _ _)),
      State.put_put]
    rw [hrefs]
    have hkeep := releaseWith_keep (n := 2) (a := a)
      (s := ({ s with fileDirectory := s.fileDirectory ++ [a] } : State V N).put a
        (some { f with parent := true, referenceCount := 3 }))
      (State.put_files_self _ _ _) (by simp) (by simp)
    rw [State.put_put] at hkeep
    exact hkeep

theorem Building.insertObject {m : Nat} :
    Triple (Building s₀ a fun f => f.Plain ∧ f.mountPoint = some m ∧ f.vfsNode.isSome)
      (Vfs.insertObject a) (fun _ => Building s₀ a fun f => f.Published m)
      (fun _ => Building s₀ a File.Plain) := by
  rintro s ⟨⟨f, hf, hplain, hm, hnode⟩, hothers, hlists⟩
  rcases insertObject_eq hf hplain.parent hplain.references with heq | heq
  · rw [heq]
    exact ⟨⟨f, hf, hplain⟩, hothers, hlists⟩
  · rw [heq]
    refine ⟨⟨_, State.put_files_self _ _ _, ?_⟩, ?_, hlists⟩
    · exact ⟨hplain.isClosed, rfl, hplain.counted, hplain.next, hplain.previous, rfl, hm, hnode⟩
    · intro b hb
      rw [State.put_files_of_ne _ _ hb]
      exact hothers b hb

theorem Building.closeHandleOf {s : State V N} (h : Building s₀ a P s) (m : Nat)
    (hP : ∀ f node, P f → P' { f with vfsNode := node, fileHandleCreated := false }) :
    Building s₀ a P' ((Vfs.closeHandleOf s a m).setFile a fun f =>
      { f with fileHandleCreated := false }) := by
  obtain ⟨⟨f, hf, hPf⟩, hothers, hlists⟩ := h
  obtain ⟨node, hnode⟩ := closeHandleOf_files hf m
  refine ⟨⟨{ f with vfsNode := node, fileHandleCreated := false }, ?_, hP f node hPf⟩, ?_,
    hlists.trans ((closeHandleOf_lists s a m).trans (sameLists_setFile _ _ _))⟩
  · rw [State.setFile_files_self, hnode, State.put_files_self]
    rfl
  · intro b hb
    rw [State.setFile_files_of_ne _ _ hb, hnode, State.put_files_of_ne _ _ hb]
    exact hothers b hb

/-- Until it is published, a file is nobody's but the call's that opens it. -/
theorem openVnode_building (path : Path) (mode : OpenMode) (memory : Allocation) :
    Triple (Building s₀ a File.Plain) (openVnode a path mode memory)
      (fun m s => Building s₀ a (fun f => f.Published m) s ∧ m < s₀.mounts.length)
      (fun _ => Building s₀ a File.Plain) := by
  refine Triple.bind (R := fun _ => Building s₀ a File.Plain) (Triple.get fun _ h => h) fun s => ?_
  rcases findMountPoint s path with _ | m
  · exact Triple.throw fun _ h => h
  · -- From here on the file knows its mount.
    refine Triple.bind
      (R := fun _ => Building s₀ a fun f => f.Plain ∧ f.mountPoint = some m)
      (Triple.modify fun _ h => h.setFile fun f hf => ⟨⟨hf.1, hf.2, hf.3, hf.4, hf.5, hf.6⟩, rfl⟩)
      fun _ => ?_
    have hplain : ∀ s : State V N, Building s₀ a (fun f => f.Plain ∧ f.mountPoint = some m) s →
        Building s₀ a File.Plain s := fun s h =>
      ⟨h.1.imp fun f hf => ⟨hf.1, hf.2.1⟩, h.2⟩
    refine Triple.bind
      (R := fun _ s => Building s₀ a (fun f => f.Plain ∧ f.mountPoint = some m) s ∧
        m < s₀.mounts.length) ?_ fun mount => Triple.assume fun hm => ?_
    · intro s h
      unfold getMount
      rcases hs : s.mounts[m]? with _ | mount
      · trivial
      · exact ⟨h, h.2.2.lt_length hs⟩
    · refine Triple.ite (fun _ => Triple.throw hplain) fun _ => ?_
      rcases mount.fileSystem with _ | fileSystem
      · exact Triple.throw hplain
      · dsimp only
        split
        · rename_i lookup createHandle getRootNode _ _ _
          refine Triple.ite (fun _ => Triple.throw hplain) fun _ => ?_
          refine Triple.bind ((Building.onVolume m _).weaken (fun _ h => h) (fun _ _ h => h)
            fun _ => hplain) fun root => ?_
          refine Triple.ite (fun _ => Triple.throw hplain) fun _ => ?_
          refine Triple.bind ((Building.walk m _ _ _ _).weaken (fun _ h => h) (fun _ _ h => h)
            fun _ => hplain) fun r => ?_
          refine Triple.bind
            (R := fun _ => Building s₀ a fun f =>
              f.Plain ∧ f.mountPoint = some m ∧ f.vfsNode.isSome)
            (Triple.modify fun _ h => h.setFile fun f hf =>
              ⟨⟨hf.1.1, hf.1.2, hf.1.3, hf.1.4, hf.1.5, hf.1.6⟩, hf.2, rfl⟩) fun _ => ?_
          refine Triple.bind ((Building.onVolume m _).weaken (fun _ h => h) (fun _ _ h => h)
            fun _ s h => ⟨h.1.imp fun f hf => ⟨hf.1, hf.2.1⟩, h.2⟩) fun _ => ?_
          refine Triple.bind
            (R := fun _ => Building s₀ a fun f =>
              f.Plain ∧ f.mountPoint = some m ∧ f.vfsNode.isSome)
            (Triple.modify fun _ h => h.setFile fun f hf =>
              ⟨⟨hf.1.1, hf.1.2, hf.1.3, hf.1.4, hf.1.5, hf.1.6⟩, hf.2⟩) fun _ => ?_
          refine Triple.bind
            (R := fun r => r.rec (fun _ => Building s₀ a File.Plain)
              fun _ => Building s₀ a fun f => f.Published m)
            (Triple.attempt Building.insertObject) fun inserted => ?_
          -- The name may be taken: the handle of the driver is closed again.
          rcases inserted with e | _
          · refine Triple.bind (R := fun _ => Building s₀ a File.Plain)
              (Triple.modify fun _ h => h.closeHandleOf m fun f node hf =>
                ⟨hf.1, hf.2, hf.3, hf.4, hf.5, hf.6⟩) fun _ => ?_
            exact Triple.throw fun _ h => h
          · exact Triple.pure fun _ h => ⟨h, hm⟩
        · exact Triple.throw hplain

/-- A file has been opened at `a`: published, and then put on the list of its mount. -/
def OpenedAt (s₀ : State V N) (a : Addr) (s : State V N) : Prop :=
  ∃ m s₁, Building s₀ a (fun f => f.Published m) s₁ ∧ m < s₀.mounts.length ∧ s = linkFile s₁ a m

/-- The same file objects and lists; volumes and the order of `\File` may differ. -/
def SameFiles (s s' : State V N) : Prop := s'.files = s.files ∧ SameLists s s'

/-- A failed open leaves every file as it was. -/
theorem openFile_spec (path : Path) (mode : OpenMode) {memory : Allocation}
    (hfresh : memory.Fresh s₀) : Triple (fun s => s = s₀) (openFile path mode memory)
      (fun a s => memory.storage = some a ∧ OpenedAt s₀ a s) (fun _ s => SameFiles s₀ s) := by
  refine Triple.ite (fun _ => Triple.throw fun s h => h ▸ ⟨rfl, .refl _⟩) fun _ => ?_
  rcases hstorage : memory.storage with _ | a
  · exact Triple.throw fun s h => h ▸ ⟨rfl, .refl _⟩
  · have hdead : s₀.files a = none := (hfresh a hstorage).1
    refine Triple.bind (R := fun _ => Building s₀ a File.Plain) (Triple.modify ?_) fun _ => ?_
    · rintro s rfl
      refine ⟨⟨_, if_pos rfl, ?_⟩, fun b hb => if_neg hb, fun _ => rfl⟩
      exact ⟨rfl, rfl, rfl, rfl, rfl, rfl⟩
    refine Triple.bind
      (R := fun r => r.rec (fun _ => Building s₀ a File.Plain)
        fun m s => Building s₀ a (fun f => f.Published m) s ∧ m < s₀.mounts.length)
      (Triple.attempt (openVnode_building path mode memory)) fun opened => ?_
    rcases opened with e | m
    · -- The file object goes away again.
      refine Triple.bind (R := fun _ s => SameFiles s₀ s) ?_ fun _ => Triple.throw fun _ h => h
      rintro s ⟨⟨f, hf, hplain⟩, hothers, hlists⟩
      obtain ⟨s', hrun, hfiles, hlists'⟩ := releaseWith_abandon (n := 1) hf hplain.isClosed
        hplain.parent hplain.counted hplain.references
      unfold release
      rw [hrun]
      refine ⟨?_, hlists.trans hlists'⟩
      funext b
      rw [hfiles]
      by_cases hb : b = a
      · rw [if_pos hb, hb, hdead]
      · rw [if_neg hb, hothers b hb]
    · refine Triple.bind (R := fun _ s => OpenedAt s₀ a s)
        (Triple.modify fun s h => ⟨m, s, h.1, h.2, rfl⟩) fun _ => ?_
      exact Triple.pure fun s h => ⟨rfl, h⟩

end Open

end UnDOS.Vfs
