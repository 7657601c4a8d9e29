import UnDOS.Lib.Run
import UnDOS.Vfs.Files

/-!
# The Calls of the Virtual File System

`KE_VFS_Mount`, `KE_VFS_Unmount` and `KE_VFS_OperateFile`, and runs of all calls.

Beside the kernel's state a run keeps what its callers know (`View`): the references that they
hold to each file object, and whether it is open.  It changes with the calls and their results
alone, so it says what "opened successfully and not yet closed" means without looking at the
kernel.
-/

namespace UnDOS.Vfs

open UnDOS.Lib
open UnDOS.Kernel (KernelError)

variable {V N : Type}

/-! ## Mounting -/

/-- `mountPointIsSpecial`: `/`, `//!/…` and `//./…`. -/
def mountPointIsSpecial (mountPoint : Path) : Bool :=
  mountPoint == [47] || mountPoint.take 4 == [47, 47, 33, 47] ||
    mountPoint.take 4 == [47, 47, 46, 47]

/-- `KE_OB_FindDirectChildOfType<KFilesystemObject>`. -/
def findFileSystem (s : State V N) (name : Path) : Option (FileSystem V N) :=
  if name = [] ∨ name = [46] ∨ name = [46, 46] then none
  else (s.fileSystems.find? fun p => objectNameHash p.1 == objectNameHash name).map Prod.snd

/-- `KE_OB_InsertObject` of a mount into `\VFS`, and what `KE_VFS_Mount` does when it fails. -/
def publishMount (mount : Mount V N) : Op V N Unit := do
  let s ← Prog.get
  if (s.vfsDirectory.any fun m =>
      (s.mounts[m]?.map fun other => objectNameHash other.name) == some (objectNameHash mount.name))
  then Prog.throw .alreadyExists
  else Prog.modify fun s =>
    { s with mounts := s.mounts ++ [mount], vfsDirectory := s.vfsDirectory ++ [s.mounts.length] }

/-- `KE_VFS_Mount`.  A mount that is not published is dropped with its volume. -/
def mountVolume (volume : V) (filesystem mountPoint options : Path) : Op V N Unit := do
  let s ← Prog.get
  let existing := findMountPoint s mountPoint
  if existing.bind (s.mounts[·]?.map Mount.name) = some mountPoint then Prog.throw .alreadyExists
  else if existing = none ∧ !mountPointIsSpecial mountPoint then Prog.throw .invalidArgument
  else match findFileSystem s filesystem with
    | none => Prog.throw .notFound
    | some fileSystem =>
      match fileSystem.mountVolume with
      | none => Prog.throw .unsupported
      | some callback =>
        match callback options volume with
        | (.ok _, volume) =>
          publishMount
            { name := objectName mountPoint, fileSystem := some fileSystem, volume,
              isMounted := true }
        | (.err e, _) => Prog.throw e
        | (.stuck, _) => Prog.diverge

/-- `KE_VFS_Unmount`. -/
def unmountVolume (mountPoint : Path) : Op V N Unit := do
  let s ← Prog.get
  match findMountChild s mountPoint with
  | none => Prog.throw .notFound
  | some m =>
    let mount ← getMount m
    if mount.name ≠ mountPoint then Prog.throw .notFound
    else if mount.openFileCount ≠ 0 then Prog.throw .resourceConflict
    else
      match mount.fileSystem.bind (·.unmountVolume) with
      | some callback => onVolume m callback
      | none => pure ()
      Prog.modify fun s =>
        { s.setMount m fun mount => { mount with isMounted := false } with
          vfsDirectory := s.vfsDirectory.erase m }

/-! ## Operating on files -/

/-- The test `valid` of `KE_VFS_OperateFile`. -/
def validPath (path : Path) : Bool :=
  2 ≤ path.length && path.length ≤ 255 && path.head? == some 47 && path.getLast? != some 47 &&
    (segments (path.drop 1)).all fun part =>
      part != [] && part != [46] && part != [46, 46] && part.all fun c => 32 ≤ c && c != 92

/-- `path.substr(rfind('/') + 1)`. -/
def lastName (path : Path) : Path := (path.reverse.takeWhile (· ≠ 47)).reverse

/-- `path.substr(0, cut ? cut : 1)` for the last slash `cut`. -/
def parentPath (path : Path) : Path :=
  let cut := path.length - (lastName path).length - 1
  path.take (if cut = 0 then 1 else cut)

/-- `upper` of the busy test. -/
def upper (c : UInt8) : UInt8 := if 97 ≤ c ∧ c ≤ 122 then c - 32 else c

/-- The recorded path is the source or lies below it, letter case aside. -/
def covers : Path → Path → Bool
  | [], [] => true
  | [], c :: _ => c == 47
  | _ :: _, [] => false
  | x :: source, y :: actual => upper x == upper y && covers source actual

/-- The busy test: some other open file of the mount is a directory or covered by the source.
The loop follows `vfsNext`; there are fewer than 2³² file objects. -/
def busyFrom (parent : Addr) (target : Option Addr) (source : Path) :
    Nat → Option Addr → Op V N Bool
  | _, none => pure false
  | 0, some _ => Prog.diverge
  | fuel + 1, some a => do
    let f ← getFile a
    if a = parent ∨ some a = target then busyFrom parent target source fuel f.vfsNext
    else
      match f.vfsNode with
      | none => Prog.diverge
      | some node =>
        if node.type = .directory then pure true
        else if covers source f.actualPath then pure true
        else busyFrom parent target source fuel f.vfsNext

/-- The node of an opened file. -/
def nodeOf (f : File N) : Op V N (Node N) :=
  match f.vfsNode with
  | some node => pure node
  | none => Prog.diverge

/-- The part of `KE_VFS_OperateFile` under the lock of the volume. -/
def operateLocked (operation : FileOperation) (source destination : Path) (parent : Addr)
    (target : Option Addr) : Op V N Unit := do
  let p ← getFile parent
  match p.mountPoint with
  | none => Prog.diverge
  | some m =>
    let mount ← getMount m
    let busy ← busyFrom parent target (relativePath mount.name source) (2 ^ 32) mount.openFiles
    let s ← Prog.get
    let node ← nodeOf p
    match target with
    | none =>
      if findMountPoint s source ≠ some m then Prog.throw .unsupported
      else if node.type ≠ .directory then Prog.throw .notDirectory
      else if busy then Prog.throw .resourceConflict
      else match mount.fileSystem.bind (·.operateFile) with
        | none => Prog.throw .unsupported
        | some operate => onVolume m (operate operation node (lastName source) none [])
    | some t =>
      let d ← getFile t
      let destinationNode ← nodeOf d
      if findMountPoint s source ≠ some m ∨ findMountPoint s destination ≠ d.mountPoint then
        Prog.throw .unsupported
      else if node.type ≠ .directory ∨ destinationNode.type ≠ .directory then
        Prog.throw .notDirectory
      else if d.mountPoint ≠ some m then Prog.throw .unsupported
      else if busy then Prog.throw .resourceConflict
      else match mount.fileSystem.bind (·.operateFile) with
        | none => Prog.throw .unsupported
        | some operate =>
          onVolume m
            (operate operation node (lastName source) (some destinationNode) (lastName destination))

/-- Close a temporary open and drop the reference to it. -/
def closeTemporary (a : Addr) : Op V N (Except KernelError Unit) := do
  let closed ← Prog.attempt (closeFile (some a))
  release a
  pure closed

/-- `KE_VFS_OperateFile`. -/
def operateFile (operation : FileOperation) (source destination : Path)
    (parentMemory targetMemory : Allocation) : Op V N Unit :=
  let hasDestination := operation = .copy ∨ operation = .move
  if ¬validPath source ∨ (if hasDestination then ¬validPath destination else destination ≠ []) then
    Prog.throw .invalidArgument
  else do
    let parent ← openFile (parentPath source) OpenMode.read parentMemory
    if hasDestination then
      let opened ← Prog.attempt (openFile (parentPath destination) OpenMode.read targetMemory)
      match opened with
      | .error e =>
        let _ ← closeTemporary parent
        Prog.throw e
      | .ok target =>
        let status ← Prog.attempt (operateLocked operation source destination parent (some target))
        let closedTarget ← closeTemporary target
        let closedParent ← closeTemporary parent
        Prog.ofExcept (status.bind fun _ => closedTarget.bind fun _ => closedParent)
    else
      let status ← Prog.attempt (operateLocked operation source destination parent none)
      let closedParent ← closeTemporary parent
      Prog.ofExcept (status.bind fun _ => closedParent)

/-! ## Runs -/

/-- One call into the virtual file system.  `retain` and `release` are a copy and the end of a
`KObjectPtr` outside it. -/
inductive Call (V : Type) where
  | mount (volume : V) (filesystem mountPoint options : Path)
  | unmount (mountPoint : Path)
  | openFile (path : Path) (mode : OpenMode) (memory : Allocation)
  | closeFile (file : Option Addr)
  | retain (file : Addr)
  | release (file : Addr)
  | operateFile (operation : FileOperation) (source destination : Path)
      (parentMemory targetMemory : Allocation)

/-- Run a call; an open returns the file. -/
def Call.exec : Call V → Op V N (Option Addr)
  | .mount volume filesystem mountPoint options => do
    mountVolume volume filesystem mountPoint options
    pure none
  | .unmount mountPoint => do
    unmountVolume mountPoint
    pure none
  | .openFile path mode memory => do
    let a ← Vfs.openFile path mode memory
    pure (some a)
  | .closeFile file => do
    Vfs.closeFile file
    pure none
  | .retain file => do
    Vfs.retain file
    pure none
  | .release file => do
    Vfs.release file
    pure none
  | .operateFile operation source destination parentMemory targetMemory => do
    Vfs.operateFile operation source destination parentMemory targetMemory
    pure none

/-- What the callers know about one file object. -/
structure Handle where
  references : Nat
  isOpen : Bool
deriving DecidableEq

/-- What the callers know about all of them. -/
abbrev View := Addr → Option Handle

namespace View

/-- What is known about the file at `a` becomes `h`. -/
def set (v : View) (a : Addr) (h : Option Handle) : View := fun b => if b = a then h else v b

/-- A caller has dropped one of its references; the last one takes the file with it. -/
def drop (v : View) (a : Addr) : View :=
  v.set a ((v a).bind fun h =>
    if h.references ≤ 1 then none else some { h with references := h.references - 1 })

/-- The file at `a` is closed. -/
def close (v : View) (a : Addr) : View := v.set a ((v a).map fun h => { h with isOpen := false })

/-- One more reference to the file at `a`. -/
def hold (v : View) (a : Addr) : View :=
  v.set a ((v a).map fun h => { h with references := h.references + 1 })

/-- What the callers know after a call that returned `out`. -/
def after (v : View) (call : Call V) (out : Outcome KernelError (Option Addr)) : View :=
  match call, out with
  | .openFile .., .ok (some a) => v.set a (some ⟨1, true⟩)
  | .closeFile (some a), _ => v.close a
  | .retain a, _ => v.hold a
  | .release a, _ => v.drop a
  | _, _ => v

end View

/-- What `KE_Malloc` may return for a file object. -/
def Allocation.Fresh (memory : Allocation) (s : State V N) : Prop :=
  ∀ a, memory.storage = some a → s.files a = none ∧ a ≠ 0 ∧ a < 2 ^ 32

/-- What a caller may do: use the file objects that it holds a reference to.  The allocator
hands out storage that is not in use. -/
def Call.Permitted (s : State V N) (v : View) : Call V → Prop
  | .closeFile (some a) | .retain a | .release a => (v a).isSome
  | .openFile _ _ memory => memory.Fresh s
  | .operateFile _ _ _ parentMemory targetMemory =>
    parentMemory.Fresh s ∧ targetMemory.Fresh s ∧
      (parentMemory.storage = targetMemory.storage → parentMemory.storage = none)
  | _ => True

/-- One call that returned. -/
def Step (p : State V N × View) (call : Call V) (q : State V N × View) : Prop :=
  call.Permitted p.1 p.2 ∧
    ∃ out, call.exec p.1 = (out, q.1) ∧ out ≠ .stuck ∧ q.2 = p.2.after call out

/-- Where a call leads. -/
def Call.next (p : State V N × View) (call : Call V) : State V N × View :=
  ((call.exec p.1).2, p.2.after call (call.exec p.1).1)

theorem step_next {p : State V N × View} {call : Call V} (hpermitted : call.Permitted p.1 p.2)
    (hreturns : (call.exec p.1).1 ≠ .stuck) : Step p call (call.next p) :=
  ⟨hpermitted, _, rfl, hreturns, rfl⟩

end UnDOS.Vfs
