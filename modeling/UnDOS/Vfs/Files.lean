import UnDOS.Lib.Within
import UnDOS.Vfs.Objects

/-!
# Opening, Closing and Operating on Files

`vfs.cpp` with the parts of `object_manager.cpp` and `io.cpp` that decide when a file object is
closed and freed.

- A `KObjectPtr` that a call builds for its argument is a `retain` before and a `release` after
  it.  Releasing can close a file and closing releases, so `release` carries fuel; three nested
  releases are all that ever happen.
- A local of `KE_VFS_OpenFile` goes away on every return, so a failed open releases the file
  object that it has just made.
- Touching an object that has been freed is `stuck`.

Memory is an argument of the calls that allocate: it says what `KE_Malloc` returned.
-/

namespace UnDOS.Vfs

open UnDOS.Lib
open UnDOS.Kernel (KernelError)

variable {V N : Type}

/-- Programs on the virtual file system. -/
abbrev Op (V N α : Type) := Prog (State V N) KernelError α

/-! ## Objects and references -/

/-- The file object at `a`, which must not have been freed. -/
def getFile (a : Addr) : Op V N (File N) := fun s =>
  match s.files a with
  | some f => (.ok f, s)
  | none => (.stuck, s)

/-- The mount `m`. -/
def getMount (m : Nat) : Op V N (Mount V N) := fun s =>
  match s.mounts[m]? with
  | some mount => (.ok mount, s)
  | none => (.stuck, s)

/-- A driver callback on the volume of the mount `m`. -/
def onVolume {α : Type} (m : Nat) (callback : Prog V KernelError α) : Op V N α := fun s =>
  match s.mounts[m]? with
  | some mount =>
    let (out, volume) := callback mount.volume
    (out, s.setMount m fun mount => { mount with volume })
  | none => (.stuck, s)

/-- `KE_OB_Retain`. -/
def retain (a : Addr) : Op V N Unit := do
  let _ ← getFile a
  Prog.modify fun s => s.setFile a fun f => { f with referenceCount := f.referenceCount + 1 }

/-- `KE_Free` of a file object. -/
def free (a : Addr) : Op V N Unit :=
  Prog.modify fun s => { s with files := fun b => if b = a then none else s.files b }

/-! ## Closing -/

/-- The driver's part of closing: `CloseHandle(file)`, when a handle was created. -/
def closeHandleOf (s : State V N) (a : Addr) (m : Nat) : State V N :=
  match s.files a, s.mounts[m]? with
  | some f, some mount =>
    match mount.fileSystem.bind (·.closeHandle) with
    | some closeHandle =>
      if f.fileHandleCreated then
        let (volume, vfsNode) := closeHandle mount.volume f.vfsNode
        (s.setMount m fun mount => { mount with volume }).setFile a fun f => { f with vfsNode }
      else s
    | none => s
  | _, _ => s

/-- The file before `f`, or the mount when there is none, gets the next link of `f`. -/
def unlinkPrevious (s : State V N) (m : Nat) (f : File N) : State V N :=
  match f.vfsPrevious with
  | some p => s.setFile p fun g => { g with vfsNext := f.vfsNext }
  | none => s.setMount m fun mount => { mount with openFiles := f.vfsNext }

/-- Take a counted file off the list of its mount. -/
def unlinkFile (s : State V N) (a : Addr) (m : Nat) : State V N :=
  match s.files a with
  | some f =>
    if f.vfsOpenCounted then
      let s := s.setMount m fun mount => { mount with openFileCount := mount.openFileCount - 1 }
      let s := unlinkPrevious s m f
      s.setFile? f.vfsNext fun g => { g with vfsPrevious := f.vfsPrevious }
    else s
  | none => s

/-- `KE_VFS_CloseFile` under the lock of the volume, up to the object manager. -/
def closeLocked (s : State V N) (a : Addr) (m : Nat) : State V N :=
  let s := s.setFile a fun f => { f with isClosed := true }
  let s := closeHandleOf s a m
  let s := s.setFile a fun f => { f with fileHandleCreated := false }
  let s := unlinkFile s a m
  s.setFile a fun f =>
    { f with vfsOpenCounted := false, vfsNext := none, vfsPrevious := none, vfsNode := none }

section
variable (release : Addr → Op V N Unit)

/-- `KE_OB_RemoveObject` from `\File`. -/
def removeObject (a : Addr) : Op V N Unit := do
  retain a
  let f ← getFile a
  if f.parent then
    Prog.modify fun s =>
      { s.setFile a fun f => { f with parent := false } with
        fileDirectory := s.fileDirectory.erase a }
    -- The reference of the directory, then that of the argument.
    release a
    release a
  else
    release a
    Prog.throw .parentMismatch

/-- `KE_VFS_CloseFile`. -/
def closeFileWith (a : Addr) : Op V N Unit := do
  let f ← getFile a
  match f.mountPoint with
  | none => Prog.throw .wrongObjectType
  | some m =>
    if f.isClosed then pure ()
    else
      Prog.modify fun s => closeLocked s a m
      if f.parent then removeObject release a else pure ()

/-- `~KIOObject` and `KE_Free`: an object that was never closed is closed first. -/
def destroy (a : Addr) : Op V N Unit := do
  let f ← getFile a
  if f.isClosed then free a
  else
    retain a
    -- `FileClose` wraps the object for `KE_VFS_CloseFile`.
    retain a
    let _ ← Prog.attempt (closeFileWith release a)
    release a
    free a

end

/-- `KE_OB_Release`. -/
def releaseWith : Nat → Addr → Op V N Unit
  | 0, _ => Prog.diverge
  | fuel + 1, a => do
    let f ← getFile a
    Prog.modify fun s => s.setFile a fun f => { f with referenceCount := f.referenceCount - 1 }
    if f.referenceCount = 2 ∧ f.parent then
      -- Only the directory is left: close the file.
      retain a
      let _ ← Prog.attempt (closeFileWith (releaseWith fuel) a)
      releaseWith fuel a
    else if f.referenceCount = 1 then destroy (releaseWith fuel) a
    else pure ()

/-- `KE_OB_Release`. -/
def release (a : Addr) : Op V N Unit := releaseWith 3 a

/-- `KE_VFS_CloseFile`. -/
def closeFile (file : Option Addr) : Op V N Unit :=
  match file with
  | none => Prog.throw .invalidHandle
  | some a => closeFileWith release a

/-! ## Opening -/

/-- What the allocations of one `KE_VFS_OpenFile` returned: the storage of the file object,
and whether the two nodes could be allocated. -/
structure Allocation where
  storage : Option Addr
  vfsNode : Bool := true
  tmpnode : Bool := true
deriving DecidableEq

/-- The parts of a path between its slashes. -/
def segments : Path → List Path
  | [] => [[]]
  | c :: rest =>
    match segments rest with
    | [] => [[c]]
    | first :: others => if c = 47 then [] :: first :: others else (c :: first) :: others

/-- `actualPath` with one more component; a `static_string<255>` keeps 254 bytes. -/
def pushName (actual name : Path) : Path :=
  ((if actual = [] then [] else actual ++ [47]) ++ name).take 254

/-- The path traversal of `KE_VFS_OpenFile`, with the components left, the node reached and
the path recorded so far. -/
def walk (m : Nat) (lookup : Node N → Path → Prog V KernelError (Node N)) :
    List Path → Node N → Path → Op V N (Node N × Path)
  | [], node, actual => pure (node, actual)
  | name :: rest, node, actual => do
    if name = [] ∨ name = [46] then walk m lookup rest node actual
    else if name = [46, 46] then Prog.throw .invalidArgument
    else
      let child ← onVolume m (lookup node name)
      -- A trailing slash adds no component.
      let isLast := rest = [] ∨ rest = [[]]
      if ¬isLast ∧ child.type ≠ .directory then Prog.throw .notDirectory
      else walk m lookup rest child (pushName actual name)

/-- `KE_OB_InsertObject` into `\File`. -/
def insertObject (a : Addr) : Op V N Unit := do
  retain a
  let f ← getFile a
  let s ← Prog.get
  if f.parent then
    release a
    Prog.throw .alreadyAttached
  else if s.fileDirectory.any fun b =>
      objectNameHash (fileObjectName b) == objectNameHash (fileObjectName a) then
    release a
    Prog.throw .alreadyExists
  else
    Prog.modify fun s => s.setFile a fun f => { f with parent := true }
    retain a
    Prog.modify fun s => { s with fileDirectory := s.fileDirectory ++ [a] }
    release a

/-- The path below a mount. -/
def relativePath (mount path : Path) : Path :=
  let rel := path.drop mount.length
  if rel.head? = some 47 then rel.drop 1 else rel

/-- `KE_VFS_OpenFile` from finding the mount to publishing the file object; returns the
mount. -/
def openVnode (a : Addr) (path : Path) (mode : OpenMode) (memory : Allocation) : Op V N Nat := do
  let s ← Prog.get
  match findMountPoint s path with
  | none => Prog.throw .notFound
  | some m =>
    Prog.modify fun s => s.setFile a fun f => { f with mountPoint := some m }
    let mount ← getMount m
    if !mount.isMounted then Prog.throw .deviceNotReady
    else match mount.fileSystem with
      | none => Prog.throw .invalidState
      | some fileSystem =>
        match fileSystem.lookup, fileSystem.createHandle, fileSystem.getRootNode with
        | some lookup, some createHandle, some getRootNode =>
          if !memory.vfsNode then Prog.throw .outOfMemory
          else
            let root ← onVolume m getRootNode
            if !memory.tmpnode then Prog.throw .outOfMemory
            else
              -- A file object that does not get past the traversal is not looked at again, so
              -- its node and its path are set once, at the end.
              let (node, actual) ← walk m lookup (segments (relativePath mount.name path)) root []
              Prog.modify fun s => s.setFile a fun f =>
                { f with vfsNode := some node, actualPath := actual }
              onVolume m (createHandle node mode)
              Prog.modify fun s => s.setFile a fun f => { f with fileHandleCreated := true }
              let inserted ← Prog.attempt (insertObject a)
              match inserted with
              | .ok _ => pure m
              | .error e =>
                Prog.modify fun s => (closeHandleOf s a m).setFile a fun f =>
                  { f with fileHandleCreated := false }
                Prog.throw e
        | _, _, _ => Prog.throw .unsupported

/-- Put an opened file at the head of the list of its mount. -/
def linkFile (s : State V N) (a : Addr) (m : Nat) : State V N :=
  match s.mounts[m]? with
  | some mount =>
    let s := s.setMount m fun mount => { mount with openFileCount := mount.openFileCount + 1 }
    let s := s.setFile a fun f => { f with vfsOpenCounted := true, vfsNext := mount.openFiles }
    let s := s.setFile? mount.openFiles fun g => { g with vfsPrevious := some a }
    s.setMount m fun mount => { mount with openFiles := some a }
  | none => s

/-- `KE_VFS_OpenFile`. -/
def openFile (path : Path) (mode : OpenMode) (memory : Allocation) : Op V N Addr :=
  if 255 < path.length then Prog.throw .nameTooLong
  else
    match memory.storage with
    | none => Prog.throw .outOfMemory
    | some a => do
      Prog.modify fun s =>
        { s with files := fun b => if b = a then some { mode, referenceCount := 1 } else s.files b }
      let opened ← Prog.attempt (openVnode a path mode memory)
      match opened with
      | .ok m =>
        Prog.modify fun s => linkFile s a m
        pure a
      | .error e =>
        release a
        Prog.throw e

end UnDOS.Vfs
