import AppCore.Storage.Fs

/-!
# The file storage provider

`storage_file.rs` and the recovery part of `storage_backup.rs`. All state is on the disk: the
data root, the backup root, a lock file next to the data root and, while a restore is under way,
the two siblings that its directory swap goes through. A provider value is only the pair of
paths, so operations of several provider instances on the same roots are operations one after
another on one disk.
-/

namespace AppCore.Storage

/-- `FileStorageProvider`: the data root and the backup root. -/
structure FileStorageProvider where
  storagePath : Path
  backupPath : Path

def siblingPath (path : Path) (suffix : String) : StorageResult Path :=
  match path.getLast? with
  | none => .error (.invalidPath (display path))
  | some name => .ok (withFileName path (name ++ "." ++ suffix))

def realDirectoryExists (path : Path) (d : Disk) : StorageResult Bool :=
  match pathExistsNoFollow path d with
  | .error e => .error e
  | .ok false => .ok false
  | .ok true =>
    match ensureRealDirectory path d with
    | .error e => .error e
    | .ok () => .ok true

namespace FileStorageProvider

/-- `acquire_operation_lock`. The lock itself only keeps operations one after another. -/
def acquireOperationLock (provider : FileStorageProvider) : StorageProg Unit := do
  let path ← Prog.read fun _ => siblingPath provider.storagePath "lock"
  io (Disk.openCreate · path) .notAvailable

def withStorageLock {α : Type} (provider : FileStorageProvider) (operation : StorageProg α) :
    StorageProg α := do
  provider.acquireOperationLock
  operation

def restorePendingPath (provider : FileStorageProvider) : StorageResult Path :=
  siblingPath provider.storagePath "restore.pending"

def restorePreviousPath (provider : FileStorageProvider) : StorageResult Path :=
  siblingPath provider.storagePath "restore.previous"

/-- The first part of `recover_restore_locked`: without a data root, the pending root or else the
previous one takes its place. -/
def promote (provider : FileStorageProvider) (pending previous : Path) : StorageProg Unit := do
  let present ← Prog.read (realDirectoryExists provider.storagePath)
  if present then pure ()
  else do
    let staged ← Prog.read (realDirectoryExists pending)
    if staged then io (Disk.rename · pending provider.storagePath) .notAvailable
    else do
      let replaced ← Prog.read (realDirectoryExists previous)
      if replaced then io (Disk.rename · previous provider.storagePath) .notAvailable
      else pure ()

/-- The second part: with a data root in place, a leftover root is removed. -/
def discard (provider : FileStorageProvider) (leftover : Path) : StorageProg Unit := do
  let present ← Prog.read (realDirectoryExists provider.storagePath)
  if present then do
    let stale ← Prog.read (realDirectoryExists leftover)
    if stale then removeDirAll leftover .notAvailable else pure ()
  else pure ()

/-- The last part: the swap is made durable. -/
def settle (provider : FileStorageProvider) : StorageProg Unit := do
  let present ← Prog.read (realDirectoryExists provider.storagePath)
  if present then Prog.read (fsyncParent provider.storagePath .notAvailable) else pure ()

def recoverRestoreLocked (provider : FileStorageProvider) : StorageProg Unit := do
  let pending ← Prog.read fun _ => provider.restorePendingPath
  let previous ← Prog.read fun _ => provider.restorePreviousPath
  provider.promote pending previous
  provider.discard pending
  provider.discard previous
  provider.settle

def recoverSnapshotRestore (provider : FileStorageProvider) : StorageProg Unit :=
  provider.withStorageLock provider.recoverRestoreLocked

/-- A part of `create_dirs`: a data root that is there has to be a directory. -/
def checkStoragePath (provider : FileStorageProvider) (d : Disk) : StorageResult Unit := do
  if ← pathExistsNoFollow provider.storagePath d then ensureRealDirectory provider.storagePath d
  else .ok ()

def createDirs (provider : FileStorageProvider) : StorageProg Unit := do
  createDirAll (parentPath provider.storagePath) .notAvailable
  createRealDirectoryAll provider.backupPath
  Prog.read provider.checkStoragePath
  provider.recoverSnapshotRestore
  createRealDirectoryAll provider.storagePath

/-- `open`. -/
def openProvider (provider : FileStorageProvider) : StorageProg Unit := provider.createDirs

def resolveStorage (provider : FileStorageProvider) (relative : String) (d : Disk) :
    StorageResult Path :=
  resolveUnderRoot provider.storagePath relative d

/-- `write_bytes`, which is `write_bytes_atomic`. -/
def writeBytes (provider : FileStorageProvider) (path : String) (bytes : Bytes) (stamp : String) :
    StorageProg Unit := do
  let _ ← Prog.read (provider.resolveStorage path)
  provider.withStorageLock do
    let full ← Prog.read (provider.resolveStorage path)
    createDirAll (parentPath full) .notAvailable
    let full ← Prog.read (provider.resolveStorage path)
    writeAtomicFile (tmpPathFor full stamp) full bytes (.transactionFailed path)

def readBytes (provider : FileStorageProvider) (path : String) : StorageProg Bytes := do
  let _ ← Prog.read (provider.resolveStorage path)
  provider.withStorageLock do
    let full ← Prog.read (provider.resolveStorage path)
    Prog.read (readRegularFile full (.repositoryNotFound path))

/-- `exists`. -/
def pathExists (provider : FileStorageProvider) (path : String) : StorageProg Bool := do
  let _ ← Prog.read (provider.resolveStorage path)
  provider.withStorageLock do
    let full ← Prog.read (provider.resolveStorage path)
    Prog.read (pathExistsNoFollow full)

def resolveBackup (provider : FileStorageProvider) (relative : String) (d : Disk) :
    StorageResult Path :=
  resolveUnderRoot provider.backupPath relative d

/-- `backup_file`, which is `backup_file_atomic`. -/
def backupFile (provider : FileStorageProvider) (source backupName stamp : String) :
    StorageProg Unit := do
  let _ ← Prog.read (provider.resolveStorage source)
  let _ ← Prog.read (provider.resolveBackup backupName)
  provider.withStorageLock do
    let sourceFull ← Prog.read (provider.resolveStorage source)
    let present ← Prog.read (pathExistsNoFollow sourceFull)
    if present then do
      let backupFull ← Prog.read (provider.resolveBackup backupName)
      createDirAll (parentPath backupFull) (.backupFailed backupName)
      let backupFull ← Prog.read (provider.resolveBackup backupName)
      let bytes ← Prog.read (readRegularFile sourceFull (.backupFailed backupName))
      writeAtomicFile (tmpPathFor backupFull stamp) backupFull bytes (.backupFailed backupName)
    else Prog.fail (.repositoryNotFound source)

end FileStorageProvider

end AppCore.Storage
