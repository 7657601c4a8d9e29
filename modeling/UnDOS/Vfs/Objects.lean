import UnDOS.Hive.Format
import UnDOS.Kernel.Error
import UnDOS.Lib.Prog

/-!
# Mounts and File Objects

The objects of the virtual file system: file objects (`KIOObject.hpp`), volume mounts
(`KVolumeMountObject.hpp`), the callbacks of a filesystem driver (`KFilesystemObject.hpp`), and
the two directories of the object manager that list them.

A file object is named by the address of its storage; the kernel is a 32-bit one, so there are
fewer than 2³² of them.  A mount is named by its place in the order of creation.  The driver is
a parameter: `V` is the state of a volume, `N` what a driver keeps in a node.
-/

namespace UnDOS.Vfs

open UnDOS.Lib
open UnDOS.Kernel (KernelError)
open UnDOS.Hive (fnv1a64)

/-- The bytes of a `string_view`. -/
abbrev Path := List UInt8

/-- The address of a file object. -/
abbrev Addr := Nat

/-! ## Nodes and drivers -/

/-- `VFSNodeType`. -/
inductive NodeType where
  | unknown | file | directory
deriving DecidableEq

/-- `KVFSNode`. -/
structure Node (N : Type) where
  fsPrivate : N
  type : NodeType
  size : UInt64 := 0
  attributes : UInt32 := 0
deriving DecidableEq

/-- `VFSFileOperation`. -/
inductive FileOperation where
  | copy | move | delete | createDirectory
deriving DecidableEq

/-- `KIOObject::OpenMode`. -/
abbrev OpenMode := UInt32

def OpenMode.read : OpenMode := 1

/-- `KFilesystemObject`: the callbacks that this development calls.  A null callback is
`none`. -/
structure FileSystem (V N : Type) where
  mountVolume : Option (Path → Prog V KernelError Unit) := none
  unmountVolume : Option (Prog V KernelError Unit) := none
  getRootNode : Option (Prog V KernelError (Node N)) := none
  lookup : Option (Node N → Path → Prog V KernelError (Node N)) := none
  operateFile :
    Option (FileOperation → Node N → Path → Option (Node N) → Path →
      Prog V KernelError Unit) := none
  createHandle : Option (Node N → OpenMode → Prog V KernelError Unit) := none
  closeHandle : Option (V → Option (Node N) → V × Option (Node N)) := none

/-! ## Objects -/

/-- `KIOObject` with `ops == &FileOps`.  `parent` says that `\File` is its parent directory. -/
structure File (N : Type) where
  mode : OpenMode := 3
  actualPath : Path := []
  mountPoint : Option Nat := none
  vfsNode : Option (Node N) := none
  fileHandleCreated : Bool := false
  vfsOpenCounted : Bool := false
  vfsNext : Option Addr := none
  vfsPrevious : Option Addr := none
  isClosed : Bool := false
  referenceCount : Nat := 0
  parent : Bool := false

/-- `KVolumeMountObject`; `volume` is what the driver reaches through it. -/
structure Mount (V N : Type) where
  name : Path
  fileSystem : Option (FileSystem V N)
  volume : V
  isMounted : Bool := false
  openFileCount : UInt32 := 0
  openFiles : Option Addr := none

/-- The file objects, the mounts, the registered drivers, and the children of `\VFS` and
`\File` in their order. -/
structure State (V N : Type) where
  files : Addr → Option (File N)
  mounts : List (Mount V N)
  fileSystems : List (Path × FileSystem V N)
  vfsDirectory : List Nat
  fileDirectory : List Addr

variable {V N : Type}

/-- Nothing mounted, nothing open. -/
def State.booted (fileSystems : List (Path × FileSystem V N)) : State V N :=
  { files := fun _ => none, mounts := [], fileSystems, vfsDirectory := [], fileDirectory := [] }

namespace State

/-- Change the file object at `a`. -/
def setFile (s : State V N) (a : Addr) (g : File N → File N) : State V N :=
  { s with files := fun b => if b = a then (s.files b).map g else s.files b }

/-- Change the file object that a link points to, if it points to one. -/
def setFile? (s : State V N) (a : Option Addr) (g : File N → File N) : State V N :=
  match a with
  | some a => s.setFile a g
  | none => s

/-- Change the mount `m`. -/
def setMount (s : State V N) (m : Nat) (g : Mount V N → Mount V N) : State V N :=
  { s with mounts := s.mounts.modify m g }

end State

/-! ## Object names -/

/-- `ObjectNameHash::from_string`. -/
def objectNameHash (name : Path) : UInt64 := fnv1a64 0xcbf29ce484222325 name

/-- The object name of a file object: `{:x}` of its address. -/
def fileObjectName (a : Addr) : Path :=
  [48, 120] ++ (Nat.toDigits 16 a).map fun c => UInt8.ofNat c.toNat

/-- What a `static_string<64>` keeps of a name. -/
def objectName (name : Path) : Path := name.take 63

/-- `KE_OB_FindDirectChildOfType<KVolumeMountObject>` in `\VFS`: children are found by the hash
of their name, and `.` and `..` are directories. -/
def findMountChild (s : State V N) (name : Path) : Option Nat :=
  if name = [] ∨ name = [46] ∨ name = [46, 46] then none
  else s.vfsDirectory.find? fun m =>
    match s.mounts[m]? with
    | some mount => objectNameHash mount.name == objectNameHash name
    | none => false

/-- The loop of `findMountPoint`: cut the last segment off until a mount has the name.  The
fuel is the length of what is left. -/
def findMountPointFrom (s : State V N) (path : Path) : Nat → Nat → Option Nat
  | 0, _ => none
  | fuel + 1, cut =>
    if cut = 0 then none
    else
      match findMountChild s (path.take cut) with
      | some m => some m
      | none =>
        if cut = 1 then none
        else
          -- `rfind('/', cut - 1)` looks at the first `cut` bytes.
          let next := (path.take cut).length - ((path.take cut).reverse.takeWhile (· ≠ 47)).length
          findMountPointFrom s path fuel (if next ≤ 1 then 1 else next - 1)

def findMountPoint (s : State V N) (path : Path) : Option Nat :=
  findMountPointFrom s path (path.length + 1) path.length

end UnDOS.Vfs
