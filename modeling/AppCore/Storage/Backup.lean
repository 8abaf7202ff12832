import AppCore.Base.Sha256
import AppCore.Base.Text
import AppCore.Storage.Provider

/-!
# Snapshot backups

`storage_backup.rs`: a snapshot copies every regular file of the data root below a new directory
of the backup root, next to a manifest with their paths, sizes and digests. Verification reads
the manifest back and compares it with the copies; a restore copies the verified files next to
the data root and swaps the two directories.
-/

namespace AppCore.Storage

def storageBackupFormatV1 : String := "appcore-storage-backup-v1"

def backupManifest : String := "manifest.json"

def backupData : String := "data"

def maxBackupFiles : Nat := 100000

def maxBackupManifestBytes : Nat := 16 * 1024 * 1024

structure StorageBackupManifestFileV1 where
  path : String
  size : UInt64
  sha256 : String
  deriving DecidableEq, Repr

structure StorageBackupManifestV1 where
  format : String
  name : String
  createdAtMs : UInt64
  files : List StorageBackupManifestFileV1
  deriving DecidableEq, Repr

/-- The JSON of a manifest: a writer, and a reader that may reject. -/
class ManifestJson where
  encode : StorageBackupManifestV1 → Bytes
  decode : Bytes → Option StorageBackupManifestV1

structure BackupDescriptor where
  name : String
  createdAtMs : UInt64
  deriving DecidableEq, Repr

def descriptor (manifest : StorageBackupManifestV1) : BackupDescriptor :=
  ⟨manifest.name, manifest.createdAtMs⟩

/-! ## Names and paths -/

def validateBackupName (name : String) : StorageResult Unit :=
  if name = "" ∨ (components name).length ≠ 1 ∨ name.toList.head? = some '.' then
    .error (.invalidPath name)
  else match (components name).head? with
    | some (.normal _) => .ok ()
    | _ => .error (.invalidPath name)

/-- The name of a plain component. -/
def normalName? : Component → Option String
  | .normal name => some name
  | _ => none

def validatedManifestPath (path : String) : StorageResult Path :=
  match (components path).mapM normalName? with
  | some names =>
    if path = "" ∨ isAbsolute path = true then .error (.invalidPath path) else .ok names
  | none => .error (.invalidPath path)

/-- `portable_path`, of a path that is made of UTF-8 names. -/
def portablePath (path : Path) : StorageResult String :=
  if joinPath path = "" then .error (.invalidPath (joinPath path)) else .ok (joinPath path)

/-- `snapshot_staging_path`: the temporary name with another extension. -/
def snapshotStagingPath (path : Path) (stamp : String) : Path :=
  withFileName path (path.getLast?.getD "tmp" ++ "." ++ stamp ++ ".snapshot.tmp")

def rejectOverlappingRoots (storage backup : Path) (d : Disk) : StorageResult Unit :=
  match d.stat storage, d.stat backup with
  | .ok _, .ok _ =>
    if backup <+: storage ∨ storage <+: backup then .error (.invalidPath (display backup))
    else .ok ()
  | _, _ => .error .notAvailable

/-! ## Reading trees and files -/

/-- `collect_regular_files`: the paths of the files below a root, relative to it. -/
def collectRegularFiles (root : Path) (d : Disk) : StorageResult (List Path) :=
  match boundedTreeEntries root d with
  | .error e => .error e
  | .ok entries =>
    .ok ((entries.filter fun e => e.2 ≠ .dir).map fun e => e.1.drop root.length)

/-- `reject_symlink_tree`, on a disk without links. -/
def rejectSymlinkTree (root : Path) (d : Disk) : StorageResult Unit :=
  match collectRegularFiles root d with
  | .error e => .error e
  | .ok _ => .ok ()

/-- `sync_directory_tree`, which opens every directory of the tree. -/
def syncDirectoryTree (root : Path) (d : Disk) : StorageResult Unit :=
  match boundedTreeEntries root d with
  | .error e => .error e
  | .ok entries =>
    if (root :: (entries.filter fun e => e.2 = .dir).map (·.1)).all
        fun p => syncDirectory p .notAvailable d = .ok () then .ok ()
    else .error .notAvailable

/-- The size and the digest `hash_file` computes. -/
def contentHash [Sha256] (content : Bytes) : UInt64 × String :=
  (UInt64.ofNat (min content.length (2 ^ 64 - 1)), String.ofList (lowerHex (digest content).toList))

def hashFile [Sha256] (path : Path) (d : Disk) : StorageResult (UInt64 × String) :=
  match readRegularFile path .notAvailable d with
  | .error e => .error e
  | .ok content => .ok (contentHash content)

/-- Whether text names a directory by its form: it ends in a slash or in a `.` segment. Such a
path does not open a regular file. -/
def namesDirectory (path : String) : Bool :=
  match (path.toList.splitOn '/').getLast? with
  | some segment => segment = [] || segment = ['.']
  | none => false

/-! ## Copying -/

def copyAndSync (source destination : Path) : StorageProg Unit := do
  let content ← Prog.read (readRegularFile source .notAvailable)
  io (Disk.createNew · destination) .notAvailable
  io (Disk.writeAll · destination content) .notAvailable

/-- The directory above a destination, and the copy. -/
def copyInto (source destination : Path) (e : StorageError) : StorageProg Unit := do
  createDirAll (parentPath destination) e
  Prog.read (ensureRealDirectory (parentPath destination))
  copyAndSync source destination

def copySnapshotFile [Sha256] (sourceRoot destinationRoot relative : Path) :
    StorageProg StorageBackupManifestFileV1 := do
  let portable ← Prog.read fun _ => portablePath relative
  let source ← Prog.read (resolveUnderRoot sourceRoot portable)
  let destination ← Prog.read (resolveUnderRoot destinationRoot portable)
  copyInto source destination (.backupFailed (joinPath relative))
  let (size, sha256) ← Prog.read (hashFile destination)
  return ⟨portable, size, sha256⟩

/-- One file of `copy_verified_tree`. -/
def copyVerifiedFile (sourceRoot destinationRoot : Path) (entry : StorageBackupManifestFileV1) :
    StorageProg Unit := do
  let _ ← Prog.read fun _ => validatedManifestPath entry.path
  let source ← Prog.read (resolveUnderRoot sourceRoot entry.path)
  let destination ← Prog.read (resolveUnderRoot destinationRoot entry.path)
  copyInto source destination .notAvailable

/-- The start of `copy_verified_tree`: a destination that is there is removed. -/
def removeDestination (destinationRoot : Path) : StorageProg Unit := do
  let present ← Prog.read (pathExistsNoFollow destinationRoot)
  if present then do
    Prog.read (ensureRealDirectory destinationRoot)
    removeDirAll destinationRoot .notAvailable
  else pure ()

def copyVerifiedTree (sourceRoot destinationRoot : Path) (manifest : StorageBackupManifestV1) :
    StorageProg Unit := do
  removeDestination destinationRoot
  io (Disk.createDir · destinationRoot) .notAvailable
  Prog.each (copyVerifiedFile sourceRoot destinationRoot) manifest.files
  Prog.read (syncDirectoryTree destinationRoot)

/-! ## The manifest -/

variable [ManifestJson]

def writeManifest (root : Path) (manifest : StorageBackupManifestV1) (stamp : String) :
    StorageProg Unit :=
  let path := root ++ [backupManifest]
  writeAtomicFile (tmpPathFor path stamp) path (ManifestJson.encode manifest)
    (.backupFailed manifest.name)

def readManifest (root : Path) (name : String) (d : Disk) : StorageResult StorageBackupManifestV1 :=
  match readRegularFile (root ++ [backupManifest]) (.backupFailed name) d with
  | .error e => .error e
  | .ok bytes =>
    if bytes.length > maxBackupManifestBytes then .error (.backupFailed name)
    else match ManifestJson.decode bytes with
      | some manifest => .ok manifest
      | none => .error (.backupFailed name)

/-- The loop of `verify_manifest`: paths in increasing order, each with its size and digest. -/
def verifyFiles [Sha256] (name : String) (dataRoot : Path) (d : Disk) :
    Option String → List StorageBackupManifestFileV1 → StorageResult Unit
  | _, [] => .ok ()
  | previous, entry :: rest =>
    match validatedManifestPath entry.path with
    | .error e => .error e
    | .ok relative =>
      if previous.any fun path => decide (entry.path ≤ path) then .error (.backupFailed name)
      else if namesDirectory entry.path then .error .notAvailable
      else match hashFile (dataRoot ++ relative) d with
        | .error e => .error e
        | .ok (size, sha256) =>
          if size ≠ entry.size ∨ sha256 ≠ entry.sha256 then .error (.backupFailed name)
          else verifyFiles name dataRoot d (some entry.path) rest

def verifyManifest [Sha256] (name : String) (dataRoot : Path) (manifest : StorageBackupManifestV1)
    (d : Disk) : StorageResult Unit :=
  if manifest.format ≠ storageBackupFormatV1 ∨ manifest.name ≠ name ∨
      manifest.files.length > maxBackupFiles then .error (.backupFailed name)
  else match verifyFiles name dataRoot d none manifest.files with
    | .error e => .error e
    | .ok () =>
      match collectRegularFiles dataRoot d with
      | .error e => .error e
      | .ok actual =>
        if actual.length ≠ manifest.files.length then .error (.backupFailed name) else .ok ()

namespace FileStorageProvider

variable [Sha256]

def populateSnapshot (provider : FileStorageProvider) (name : String) (staging : Path)
    (nowMs : UInt64) (stamp : String) : StorageProg StorageBackupManifestV1 := do
  let dataRoot := staging ++ [backupData]
  io (Disk.createDir · dataRoot) (.backupFailed name)
  let files ← Prog.read (collectRegularFiles provider.storagePath)
  let files := files.insertionSort (· ≤ ·)
  if files.length > maxBackupFiles then Prog.fail (.backupFailed name)
  else do
    let entries ← Prog.collect (copySnapshotFile provider.storagePath dataRoot) files
    let manifest := ⟨storageBackupFormatV1, name, nowMs, entries⟩
    writeManifest staging manifest stamp
    Prog.read (syncDirectoryTree dataRoot)
    Prog.read (syncDirectory staging (.backupFailed name))
    return manifest

/-- `create_snapshot_locked`, with the two stamps of its temporary names. -/
def createSnapshotLocked (provider : FileStorageProvider) (name : String) (nowMs : UInt64)
    (stagingStamp manifestStamp : String) : StorageProg BackupDescriptor := do
  Prog.read fun _ => validateBackupName name
  Prog.read (rejectOverlappingRoots provider.storagePath provider.backupPath)
  let finalPath ← Prog.read (resolveUnderRoot provider.backupPath name)
  let taken ← Prog.read (pathExistsNoFollow finalPath)
  if taken then Prog.fail (.backupFailed name)
  else do
    let staging := snapshotStagingPath finalPath stagingStamp
    io (Disk.createDir · staging) (.backupFailed name)
    Prog.read (ensureRealDirectory staging)
    let outcome ← (provider.populateSnapshot name staging nowMs manifestStamp).attempt
    match outcome with
    | .error e => do
        let _ ← (removeDirAll staging .notAvailable).attempt
        Prog.fail e
    | .ok manifest => do
        let taken ← Prog.read (pathExistsNoFollow finalPath)
        if taken then Prog.fail (.backupFailed name)
        else do
          Prog.read (ensureRealDirectory staging)
          io (Disk.rename · staging finalPath) (.backupFailed name)
          Prog.read (fsyncParent finalPath (.backupFailed name))
          return descriptor manifest

def createSnapshotBackup (provider : FileStorageProvider) (name : String) (nowMs : UInt64)
    (stagingStamp manifestStamp : String) : StorageProg BackupDescriptor := do
  provider.createDirs
  provider.withStorageLock (provider.createSnapshotLocked name nowMs stagingStamp manifestStamp)

def loadVerifiedBackup (provider : FileStorageProvider) (name : String) (d : Disk) :
    StorageResult (Path × StorageBackupManifestV1) := do
  validateBackupName name
  let root ← resolveUnderRoot provider.backupPath name d
  rejectSymlinkTree root d
  let manifest ← readManifest root name d
  verifyManifest name (root ++ [backupData]) manifest d
  return (root, manifest)

def verifySnapshotBackup (provider : FileStorageProvider) (name : String) :
    StorageProg BackupDescriptor :=
  provider.withStorageLock do
    let (_, manifest) ← Prog.read (provider.loadVerifiedBackup name)
    return descriptor manifest

/-- The swap at the end of `restore_snapshot_locked`: the data root becomes the previous one, the
pending root becomes the data root, the previous root goes. -/
def swapRoots (provider : FileStorageProvider) (name : String) (pending previous : Path) :
    StorageProg Unit := do
  io (Disk.rename · provider.storagePath previous) (.backupFailed name)
  Prog.read (fsyncParent previous (.backupFailed name))
  let swapped ← (io (Disk.rename · pending provider.storagePath) (.backupFailed name)).attempt
  match swapped with
  | .error _ => do
      let _ ← (io (Disk.rename · previous provider.storagePath) (.backupFailed name)).attempt
      Prog.fail (.backupFailed name)
  | .ok () => do
      Prog.read (fsyncParent provider.storagePath (.backupFailed name))
      removeDirAll previous (.backupFailed name)
      Prog.read (fsyncParent provider.storagePath (.backupFailed name))

def restoreSnapshotLocked (provider : FileStorageProvider) (name : String) :
    StorageProg BackupDescriptor := do
  provider.recoverRestoreLocked
  let (backupRoot, manifest) ← Prog.read (provider.loadVerifiedBackup name)
  let pending ← Prog.read fun _ => provider.restorePendingPath
  let previous ← Prog.read fun _ => provider.restorePreviousPath
  copyVerifiedTree (backupRoot ++ [backupData]) pending manifest
  Prog.read (fsyncParent pending (.backupFailed name))
  provider.swapRoots name pending previous
  return descriptor manifest

def restoreSnapshotBackup (provider : FileStorageProvider) (name : String) :
    StorageProg BackupDescriptor := do
  provider.createDirs
  provider.withStorageLock (provider.restoreSnapshotLocked name)

end FileStorageProvider

end AppCore.Storage
