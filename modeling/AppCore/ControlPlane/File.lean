import AppCore.ControlPlane.Memory
import AppCore.Lease.State
import AppCore.Storage.Fs

/-!
# The control plane in a file

`FileControlPlane` of `file.rs`. Every operation takes the lock of the directory, loads the state that
is in the file, applies one operation of the control plane in memory to it and writes the result back
through a temporary file (`update`). A backup is a copy of that file, and restoring one replaces the
file with it.

The lock makes the operations follow one another. A process that is stopped leaves the files as they
are and loses the lock.
-/

namespace AppCore.ControlPlane

/-! ## Files -/

/-- An operation on the directory of a control plane: it may stop after any system call. -/
abbrev ControlProg (α : Type) := Prog Disk ControlPlaneError α

def transportError (operation : String) (e : IoError) : ControlPlaneError :=
  .transport (operation ++ ": " ++ Lease.ioText e)

def io (operation : String) (call : Disk → Except IoError Disk) : ControlProg Unit :=
  Prog.step fun d => (call d).mapError (transportError operation)

/-- `reject_symlink`, on a disk without links. -/
def rejectSymlink (path : Path) (d : Disk) : ControlPlaneResult Unit :=
  match d.stat path with
  | .ok _ => .ok ()
  | .error .notFound => .ok ()
  | .error e => .error (transportError "control-plane path inspection" e)

def maxControlPlaneStateBytes : Nat := 16 * 1024 * 1024

def readBounded (path : Path) (operation : String) (d : Disk) : ControlPlaneResult Bytes := do
  rejectSymlink path d
  match d.readFile path with
  | .error e => .error (transportError operation e)
  | .ok encoded =>
    if encoded.length > maxControlPlaneStateBytes then
      .error (.rejected "control-plane state exceeds configured limit")
    else .ok encoded

/-- What the name of a temporary file is made of. -/
structure TempName where
  process : UInt32
  counter : UInt64
  deriving DecidableEq

/-- The name of a temporary file. -/
def TempName.name (temp : TempName) : String :=
  ".control-plane." ++ String.ofList (decimal temp.process.toNat) ++ "." ++
    String.ofList (decimal temp.counter.toNat) ++ ".tmp"

/-- The temporary file beside a path. -/
def TempName.path (temp : TempName) (path : Path) : Path := path.dropLast ++ [temp.name]

/-- Opening the directory of a file to sync it. -/
def syncParent (path : Path) (d : Disk) : ControlPlaneResult Unit :=
  match d.stat path.dropLast with
  | .ok _ => .ok ()
  | .error e => .error (transportError "control-plane directory sync" e)

def writeAndReplace (temp path : Path) (bytes : Bytes) : ControlProg Unit := do
  io "control-plane temp create" (Disk.createNew · temp)
  io "control-plane state write" (Disk.writeAll · temp bytes)
  io "control-plane state replace" (Disk.rename · temp path)
  Prog.read (syncParent path)

/-- `write_atomic`. The temporary file goes when the call fails. -/
def writeAtomic (temp : TempName) (path : Path) (bytes : Bytes) : ControlProg Unit := do
  Prog.each (fun p => io "control-plane parent create" (Storage.ensureDir p))
    path.dropLast.inits.tail
  let result ← Prog.attempt (writeAndReplace (temp.path path) path bytes)
  match result with
  | .ok () => pure ()
  | .error e => do
      let _ ← Prog.attempt (io "" (Disk.remove · (temp.path path)))
      Prog.fail e

/-! ## The state file -/

structure StateEnvelope where
  formatVersion : UInt16
  state : InMemoryState

/-- What `serde_json` makes of the state file. -/
class StateJson where
  toVec : StateEnvelope → Except String Bytes
  fromSlice : Bytes → Option StateEnvelope
  fromSlice_toVec : ∀ envelope bytes, toVec envelope = .ok bytes → fromSlice bytes = some envelope

def stateFormatVersion : UInt16 := 1

section

variable [StateJson]

def encodeEnvelope (envelope : StateEnvelope) : ControlPlaneResult Bytes :=
  match StateJson.toVec envelope with
  | .error error => .error (.invalidResponse error)
  | .ok encoded =>
    if encoded.length > maxControlPlaneStateBytes then
      .error (.rejected "control-plane state exceeds configured limit")
    else .ok encoded

def decodeEnvelope (encoded : Bytes) : ControlPlaneResult StateEnvelope :=
  match StateJson.fromSlice encoded with
  | none => .error (.invalidResponse "NO MORE SUPPORTED PLEASE UPDATE")
  | some envelope =>
    if envelope.formatVersion ≠ stateFormatVersion then
      .error (.invalidResponse "NO MORE SUPPORTED PLEASE UPDATE")
    else .ok envelope

end

/-- `FileControlPlane`; `with_clock` has checked the retention. -/
structure FileControlPlane where
  root : Path
  retentionMs : UInt64
  valid : retentionMs ≠ 0

namespace FileControlPlane

variable (control : FileControlPlane)

def statePath : Path := control.root ++ ["control-plane-state-v1.json"]

def lockPath : Path := control.root ++ ["control-plane-state.lock"]

def lockExclusive : ControlProg Unit := do
  Prog.read (rejectSymlink control.lockPath)
  io "control-plane lock open" (Disk.openCreate · control.lockPath)

def prune (state : InMemoryState) (nowMs : UInt64) : InMemoryState :=
  state.pruneRegistrations (saturatingSub nowMs control.retentionMs)

variable [StateJson]

def loadEnvelope (d : Disk) : ControlPlaneResult StateEnvelope := do
  rejectSymlink control.statePath d
  let encoded ← readBounded control.statePath "control-plane state read" d
  decodeEnvelope encoded

def loadControl (d : Disk) : ControlPlaneResult InMemoryState :=
  (control.loadEnvelope d).map StateEnvelope.state

def saveControl (temp : TempName) (state : InMemoryState) : ControlProg Unit := do
  let encoded ← Prog.read fun _ => encodeEnvelope { formatVersion := stateFormatVersion, state }
  writeAtomic temp control.statePath encoded

/-- `initialize`. -/
def initializeState (temp : TempName) : ControlProg Unit := do
  control.lockExclusive
  let present ← Prog.read fun d => .ok (d.stat control.statePath).isOk
  if present then
    let _ ← Prog.read control.loadEnvelope
    pure ()
  else control.saveControl temp .default

/-- What the operations have in common: the state is loaded, changed and saved under the lock. -/
def update {α : Type} (temp : TempName)
    (operation : InMemoryState → ControlPlaneResult α × InMemoryState) : ControlProg α := do
  control.lockExclusive
  let state ← Prog.read control.loadControl
  match operation state with
  | (.error error, _) => Prog.fail error
  | (.ok result, state) => do
      control.saveControl temp state
      pure result

/-! ### Operations -/

def register (temp : TempName) (registration : CoreRegistration) (nowMs : UInt64) :
    ControlProg CorePresence :=
  control.update temp fun state =>
    let (presence, state) := (control.prune state nowMs).register
      { registration with registeredAtMs := nowMs }
    (.ok presence, state)

def heartbeat (temp : TempName) (request : HeartbeatRequest) (nowMs : UInt64) :
    ControlProg HeartbeatResponse :=
  control.update temp fun state =>
    let (response, state) := (control.prune state nowMs).heartbeat
      { request with sentAtMs := nowMs }
    (.ok response, state)

def discoverPeers (temp : TempName) (identity : CoreIdentity) (nowMs : UInt64) :
    ControlProg PeerDirectory :=
  control.update temp fun state =>
    let state := control.prune state nowMs
    (.ok { state.discoverPeers identity with refreshedAtMs := nowMs }, state)

def acquireOrRenewServiceLease (temp : TempName) (identity : CoreIdentity) (serviceId : ServiceId)
    (ttlMs nowMs : UInt64) : ControlProg ServiceLeaderLease :=
  control.update temp fun state => state.acquireOrRenewServiceLease identity serviceId ttlMs nowMs

def releaseServiceLease (temp : TempName) (lease : ServiceLeaderLease) : ControlProg Unit :=
  control.update temp fun state => state.releaseServiceLease lease

def backupTo (temp : TempName) (destination : Path) : ControlProg Unit := do
  control.lockExclusive
  let envelope ← Prog.read control.loadEnvelope
  let encoded ← Prog.read fun _ => encodeEnvelope envelope
  writeAtomic temp destination encoded

/-- What `restore_from` reads before it takes the lock. -/
def readBackup (source : Path) (d : Disk) : ControlPlaneResult (Bytes × StateEnvelope) := do
  rejectSymlink source d
  let encoded ← readBounded source "control-plane backup read" d
  let envelope ← decodeEnvelope encoded
  .ok (encoded, envelope)

def restoreFrom (temp : TempName) (source : Path) : ControlProg Unit := do
  let backup ← Prog.read (readBackup source)
  control.lockExclusive
  writeAtomic temp control.statePath backup.1

/-- `with_clock`, after it has checked the retention. -/
def withClock (temp : TempName) : ControlProg Unit := do
  Prog.read (rejectSymlink control.root)
  Prog.each (fun p => io "control-plane directory create" (Storage.ensureDir p))
    control.root.inits.tail
  control.initializeState temp

end FileControlPlane

/-- A call of the control plane, or the process that opens its directory again. -/
inductive ControlRequest where
  | withClock
  | register (registration : CoreRegistration)
  | heartbeat (request : HeartbeatRequest)
  | discoverPeers (identity : CoreIdentity)
  | acquire (identity : CoreIdentity) (serviceId : ServiceId) (ttlMs : UInt64)
  | release (lease : ServiceLeaderLease)
  | backupTo (destination : Path)
  | restoreFrom (source : Path)

/-- What a call returns. -/
inductive ControlReply where
  | done
  | presence (presence : CorePresence)
  | heartbeat (response : HeartbeatResponse)
  | peers (directory : PeerDirectory)
  | lease (lease : ServiceLeaderLease)

/-- The call itself, at a time of the server clock. -/
def FileControlPlane.perform [StateJson] (control : FileControlPlane) (temp : TempName)
    (nowMs : UInt64) : ControlRequest → ControlProg ControlReply
  | .withClock => do
      control.withClock temp
      pure .done
  | .register registration => do
      let presence ← control.register temp registration nowMs
      pure (.presence presence)
  | .heartbeat request => do
      let response ← control.heartbeat temp request nowMs
      pure (.heartbeat response)
  | .discoverPeers identity => do
      let directory ← control.discoverPeers temp identity nowMs
      pure (.peers directory)
  | .acquire identity serviceId ttlMs => do
      let lease ← control.acquireOrRenewServiceLease temp identity serviceId ttlMs nowMs
      pure (.lease lease)
  | .release lease => do
      control.releaseServiceLease temp lease
      pure .done
  | .backupTo destination => do
      control.backupTo temp destination
      pure .done
  | .restoreFrom source => do
      control.restoreFrom temp source
      pure .done

/-! ## Runs -/

/-- One call: by whom, when, and after how many system calls it is stopped, if it is. -/
structure ControlCall where
  control : FileControlPlane
  temp : TempName
  nowMs : UInt64
  request : ControlRequest
  stop : Option Nat

/-- The reply of a call that returns one, and the disk it leaves. -/
def ControlCall.outcome [StateJson] (call : ControlCall) (d : Disk) :
    Option (Option ControlReply × Disk) :=
  let program := call.control.perform call.temp call.nowMs call.request
  match call.stop with
  | none => some ((program.result d).toOption, program.final d)
  | some n => (program.stops d)[n]?.map fun t => (none, t)

/-- A call that was made, its reply, and the disk it found. -/
structure ControlEntry where
  call : ControlCall
  reply : Option ControlReply
  before : Disk

/-- The disk, and the calls so far. -/
structure ControlHistory where
  disk : Disk
  log : List ControlEntry

/-- A call on the directory `root`; there is none when it cannot be stopped there. -/
def ControlHistory.step [StateJson] (root : Path) (s : ControlHistory) (call : ControlCall) :
    Option ControlHistory :=
  if call.control.root = root then
    (call.outcome s.disk).map fun outcome =>
      { disk := outcome.2, log := s.log ++ [{ call, reply := outcome.1, before := s.disk }] }
  else none

end AppCore.ControlPlane
