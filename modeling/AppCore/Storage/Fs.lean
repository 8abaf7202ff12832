import AppCore.Base.DiskCalls
import AppCore.Base.PathText
import AppCore.Base.Prog

/-!
# File operations of the storage provider

`storage_file_fs.rs` and `storage_tree.rs`: text resolved below a root, directories that have to
be real ones, atomic replacement of a file through a temporary one, and the bounded traversal
of a tree. A storage operation is a program over disks; it may stop after any system call.

The name of a temporary file carries a process id, a thread id and a counter. An operation takes
that text as an argument, its stamp.
-/

namespace AppCore.Storage

/-- `StorageError`, with the variants the file provider produces. -/
inductive StorageError where
  | notAvailable
  | invalidPath (path : String)
  | repositoryNotFound (path : String)
  | transactionFailed (path : String)
  | backupFailed (name : String)
  deriving DecidableEq, Repr

abbrev StorageResult (α : Type) := Except StorageError α

abbrev StorageProg (α : Type) := Prog Disk StorageError α

/-- One system call, with the error its failure is reported as. -/
def io (call : Disk → Except IoError Disk) (e : StorageError) : StorageProg Unit :=
  Prog.step fun d => match call d with
    | .ok d => .ok d
    | .error _ => .error e

/-! ## Paths below a root -/

/-- The loop of `resolve_under_root` over the components. -/
def resolveComponents (d : Disk) (relative : String) : Path → List Component → StorageResult Path
  | current, [] => .ok current
  | _, .parentDir :: _ => .error (.invalidPath relative)
  | _, .rootDir :: _ => .error (.invalidPath relative)
  | current, .curDir :: rest => resolveComponents d relative current rest
  | current, .normal part :: rest =>
    match d.stat (current ++ [part]) with
    | .ok _ => resolveComponents d relative (current ++ [part]) rest
    | .error .notFound => resolveComponents d relative (current ++ [part]) rest
    | .error _ => .error .notAvailable

def resolveUnderRoot (root : Path) (relative : String) (d : Disk) : StorageResult Path :=
  if relative = "" ∨ isAbsolute relative = true then .error (.invalidPath relative)
  else match d.stat root with
    | .ok (.file _) => .error (.invalidPath (display root))
    | .ok .dir => resolveComponents d relative root (components relative)
    | .error .notFound => resolveComponents d relative root (components relative)
    | .error _ => .error .notAvailable

def ensureRealDirectory (path : Path) (d : Disk) : StorageResult Unit :=
  match d.stat path with
  | .ok .dir => .ok ()
  | .ok (.file _) => .error (.invalidPath (display path))
  | .error _ => .error .notAvailable

def pathExistsNoFollow (path : Path) (d : Disk) : StorageResult Bool :=
  match d.stat path with
  | .ok _ => .ok true
  | .error .notFound => .ok false
  | .error _ => .error .notAvailable

/-- One level of `create_dir_all`: a directory that is there is left alone. -/
def ensureDir (path : Path) (d : Disk) : Except IoError Disk :=
  match d.stat path with
  | .ok .dir => .ok d
  | .ok (.file _) => .error .notADirectory
  | .error .notFound => d.createDir path
  | .error e => .error e

/-- `create_dir_all`, from the top down. -/
def createDirAll (path : Path) (e : StorageError) : StorageProg Unit :=
  Prog.each (fun p => io (ensureDir p) e) path.inits.tail

def createRealDirectoryAll (path : Path) : StorageProg Unit := do
  let present ← Prog.read (pathExistsNoFollow path)
  if present then Prog.read (ensureRealDirectory path)
  else do
    createDirAll path .notAvailable
    Prog.read (ensureRealDirectory path)

/-- `sync_directory`, which opens the directory. -/
def syncDirectory (path : Path) (e : StorageError) (d : Disk) : StorageResult Unit :=
  match d.stat path with
  | .ok .dir => .ok ()
  | _ => .error e

def fsyncParent (path : Path) (e : StorageError) (d : Disk) : StorageResult Unit :=
  if path = [] then .ok () else syncDirectory (parentPath path) e d

/-- The content of `open_regular_file`. -/
def readRegularFile (path : Path) (e : StorageError) (d : Disk) : StorageResult Bytes :=
  match d.readFile path with
  | .ok content => .ok content
  | .error _ => .error e

def tmpPathFor (path : Path) (stamp : String) : Path :=
  withFileName path (path.getLast?.getD "tmp" ++ "." ++ stamp ++ ".tmp")

/-- `reject_link_if_present`, on a disk without links. -/
def rejectLinkIfPresent (path : Path) (e : StorageError) (d : Disk) : StorageResult Unit :=
  match d.stat path with
  | .ok _ => .ok ()
  | .error .notFound => .ok ()
  | .error _ => .error e

/-- `write_atomic_file`. A temporary file that could not be renamed stays behind. -/
def writeAtomicFile (tmp path : Path) (bytes : Bytes) (e : StorageError) : StorageProg Unit := do
  io (Disk.createNew · tmp) e
  io (Disk.writeAll · tmp bytes) e
  Prog.read (rejectLinkIfPresent path e)
  io (Disk.rename · tmp path) e
  Prog.read (fsyncParent path e)

/-- `fs::remove_dir_all`, entry by entry. -/
def removeDirAll (path : Path) (e : StorageError) : StorageProg Unit := do
  let order ← Prog.read fun d => match d.stat path with
    | .ok .dir => .ok (d.removalOrder path)
    | _ => .error e
  Prog.each (fun p => io (Disk.remove · p) e) order

/-! ## The bounded traversal -/

def maxStorageTreeDepth : Nat := 128

def maxStorageTreeDirectories : Nat := 16384

def maxStorageTreeEntries : Nat := 200000

def limitError (limit : String) : StorageError :=
  .invalidPath ("storage traversal " ++ limit ++ " limit exceeded")

/-- The state of the traversal: directories still to be read with their depths, the last one
first, the number of directories seen and the entries found. -/
structure Traversal where
  pending : List (Path × Nat)
  directoryCount : Nat
  entries : List (Path × Node)

/-- The inner loop of `bounded_tree_entries`, over the entries of one directory. -/
def visitEntries (depth : Nat) : List (Path × Node) → Traversal → StorageResult Traversal
  | [], t => .ok t
  | (path, node) :: rest, t =>
    if t.entries.length ≥ maxStorageTreeEntries then .error (limitError "entry")
    else match node with
      | .dir =>
        if depth ≥ maxStorageTreeDepth then .error (limitError "depth")
        else if t.directoryCount + 1 > maxStorageTreeDirectories then
          .error (limitError "directory")
        else visitEntries depth rest
          ⟨(path, depth + 1) :: t.pending, t.directoryCount + 1, t.entries ++ [(path, node)]⟩
      | .file _ => visitEntries depth rest { t with entries := t.entries ++ [(path, node)] }

/-- The outer loop of `bounded_tree_entries`. Each round reads one directory of the disk, so the
number of nodes is enough fuel. -/
def traverse (d : Disk) : Nat → Traversal → StorageResult (List (Path × Node))
  | 0, _ => .error .notAvailable
  | fuel + 1, t =>
    match t.pending with
    | [] => .ok t.entries
    | (directory, depth) :: pending =>
      match ensureRealDirectory directory d with
      | .error e => .error e
      | .ok () =>
        match visitEntries depth (d.entries directory) { t with pending := pending } with
        | .error e => .error e
        | .ok t => traverse d fuel t

def boundedTreeEntries (root : Path) (d : Disk) : StorageResult (List (Path × Node)) :=
  match ensureRealDirectory root d with
  | .error e => .error e
  | .ok () => traverse d (d.nodes.length + 1) ⟨[(root, 0)], 1, []⟩

end AppCore.Storage
