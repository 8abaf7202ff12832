import AppCore.Lease.State
import AppCore.Storage.Fs

/-!
# The file-backed lease repository

`FileLeaseRepository` of `shared_lease.rs`. Every operation takes the lock of its resource and
reads the files anew. Acquiring writes the epoch first and the lease after it, so that an epoch is
used up before anybody can hold it. What an operation computes from the files it read is a function
of its own (`nextLease`, `renewedLease`, `decision`); the operation writes what that returned.

The lock makes operations on one resource follow one another. A process that is stopped leaves the
files as they are and loses the lock.
-/

namespace AppCore.Lease

/-! ## Policies -/

structure LeasePolicy where
  ttlMs : UInt64
  heartbeatMs : UInt64
  clockSkewMs : UInt64
  deriving DecidableEq

def LeasePolicy.validate (policy : LeasePolicy) : ProviderResult Unit :=
  if policy.ttlMs = 0 ∨ policy.heartbeatMs = 0 ∨ policy.ttlMs ≤ policy.heartbeatMs ∨
      policy.clockSkewMs ≥ policy.ttlMs then
    .error (.invalidConfiguration "lease ttl must exceed heartbeat and clock skew")
  else .ok ()

def SharedResourceLease.isExpired (lease : SharedResourceLease) (nowMs : UInt64)
    (policy : LeasePolicy) : Bool :=
  saturatingSub nowMs policy.clockSkewMs ≥ lease.expiresAtMs

def leaseExpiration (nowMs ttlMs : UInt64) : ProviderResult UInt64 :=
  match checkedAdd nowMs ttlMs with
  | none => .error (.initialization "lease expiration timestamp overflow")
  | some expiresAtMs => .ok expiresAtMs

inductive LeaseDecision where
  | allowed
  | noLease
  | expired
  | wrongOwner
  | staleEpoch
  deriving DecidableEq, Repr

structure LeaseHeartbeat where
  token : LeaseToken
  nowMs : UInt64

/-! ## The repository -/

/-- `FileLeaseRepository`; `open` has checked the policy. -/
structure FileLeaseRepository where
  root : Path
  policy : LeasePolicy
  valid : policy.validate = .ok ()

def resourceFile (resource : String) : ProviderResult String :=
  (validateLabel "lease resource" resource).map fun _ => resource

namespace FileLeaseRepository

variable (repository : FileLeaseRepository)

def lockPath (resource : String) : ProviderResult Path :=
  (resourceFile resource).map fun name => repository.root ++ [name ++ ".lock"]

def statePath (resource : String) : ProviderResult Path :=
  (resourceFile resource).map fun name => repository.root ++ [name ++ ".lease"]

def epochPath (resource : String) : ProviderResult Path :=
  (resourceFile resource).map fun name => repository.root ++ [name ++ ".epoch"]

/-- `FileLeaseRepository::open`. -/
def openAt (root : Path) (policy : LeasePolicy) : LeaseProg FileLeaseRepository :=
  match h : policy.validate with
  | .error e => Prog.fail e
  | .ok () => do
      Prog.read (rejectSymlink root)
      Prog.each (fun p => io "lease root create failed" (Storage.ensureDir p)) root.inits.tail
      Prog.read (rejectSymlink root)
      Prog.read fun d =>
        if d.get root = some .dir then .ok ⟨root, policy, h⟩
        else .error (.invalidConfiguration "lease root is not a directory")

def withLock {α : Type} (resource : String) (operation : Path → LeaseProg α) : LeaseProg α := do
  Prog.read (rejectSymlink repository.root)
  let lockPath ← Prog.read fun _ => repository.lockPath resource
  Prog.read (rejectSymlink lockPath)
  io "lease lock open failed" (Disk.openCreate · lockPath)
  let statePath ← Prog.read fun _ => repository.statePath resource
  operation statePath

/-- The lease `acquire` writes, from the files it read. -/
def nextLease (resource : String) (owner : LeaseOwner) (nowMs : UInt64) (statePath : Path)
    (d : Disk) : ProviderResult SharedResourceLease := do
  let current ← readState statePath resource d
  if current.any fun current =>
      !current.isExpired nowMs repository.policy && current.token.owner != owner then
    .error (.initialization "shared resource lease is held by another owner")
  else
    let epochPath ← repository.epochPath resource
    let reserved ← readEpoch epochPath d
    let previousEpoch := (reserved.toList ++ (current.map (·.token.epoch)).toList).max?.getD 0
    match checkedAdd previousEpoch 1 with
    | none => .error (.initialization "shared resource fencing epoch exhausted")
    | some nextEpoch =>
      let expiresAtMs ← leaseExpiration nowMs repository.policy.ttlMs
      .ok ⟨⟨resource, owner, nextEpoch⟩, nowMs, nowMs, expiresAtMs⟩

/-- `acquire`, with the names of its two temporary files. -/
def acquire (epochTemp stateTemp : TempName) (resource : String) (owner : LeaseOwner)
    (nowMs : UInt64) : LeaseProg SharedResourceLease :=
  repository.withLock resource fun statePath => do
    let lease ← Prog.read (repository.nextLease resource owner nowMs statePath)
    let epochPath ← Prog.read fun _ => repository.epochPath resource
    writeEpoch epochTemp epochPath lease.token.epoch
    writeState stateTemp statePath lease
    pure lease

/-! ### Renewing and releasing -/

def ensureSameToken (current : SharedResourceLease) (token : LeaseToken) : ProviderResult Unit :=
  if current.token ≠ token then
    .error (.initialization "shared resource lease fencing token mismatch")
  else .ok ()

def ensureCurrent (current : SharedResourceLease) (token : LeaseToken) (nowMs : UInt64)
    (policy : LeasePolicy) : ProviderResult Unit := do
  ensureSameToken current token
  if current.isExpired nowMs policy then
    .error (.initialization "shared resource lease has expired")
  else .ok ()

def presentLease (resource : String) (statePath : Path) (d : Disk) :
    ProviderResult SharedResourceLease := do
  match ← readState statePath resource d with
  | none => .error (.initialization "shared resource lease is absent")
  | some current => .ok current

/-- The lease `heartbeat` writes, from the file it read. -/
def renewedLease (heartbeat : LeaseHeartbeat) (statePath : Path) (d : Disk) :
    ProviderResult SharedResourceLease := do
  let current ← presentLease heartbeat.token.resource statePath d
  ensureCurrent current heartbeat.token heartbeat.nowMs repository.policy
  if heartbeat.nowMs < current.heartbeatAtMs then
    .error (.initialization "lease heartbeat clock moved backwards")
  else
    let expiresAtMs ← leaseExpiration heartbeat.nowMs repository.policy.ttlMs
    .ok { current with heartbeatAtMs := heartbeat.nowMs, expiresAtMs := expiresAtMs }

def heartbeat (stateTemp : TempName) (heartbeat : LeaseHeartbeat) :
    LeaseProg SharedResourceLease :=
  repository.withLock heartbeat.token.resource fun statePath => do
    let current ← Prog.read (repository.renewedLease heartbeat statePath)
    writeState stateTemp statePath current
    pure current

def release (token : LeaseToken) : LeaseProg Unit :=
  repository.withLock token.resource fun statePath => do
    Prog.read fun d => do
      let current ← presentLease token.resource statePath d
      ensureSameToken current token
    removeState statePath

def current (resource : String) : LeaseProg (Option SharedResourceLease) :=
  repository.withLock resource fun statePath => Prog.read (readState statePath resource)

/-- The decision on a token, from the file that was read. -/
def decision (token : LeaseToken) (nowMs : UInt64) (statePath : Path) (d : Disk) :
    ProviderResult LeaseDecision := do
  match ← readState statePath token.resource d with
  | none => .ok .noLease
  | some current =>
    if current.isExpired nowMs repository.policy then .ok .expired
    else if current.token.owner ≠ token.owner then .ok .wrongOwner
    else if current.token.epoch ≠ token.epoch then .ok .staleEpoch
    else .ok .allowed

def checkFence (token : LeaseToken) (nowMs : UInt64) : LeaseProg LeaseDecision :=
  repository.withLock token.resource fun statePath =>
    Prog.read (repository.decision token nowMs statePath)

end FileLeaseRepository

/-! ## Requests -/

/-- A call of the trait `LeaseRepository`. -/
inductive Request where
  | acquire (epochTemp stateTemp : TempName) (resource : String) (owner : LeaseOwner)
      (nowMs : UInt64)
  | heartbeat (stateTemp : TempName) (beat : LeaseHeartbeat)
  | release (token : LeaseToken)
  | current (resource : String)
  | checkFence (token : LeaseToken) (nowMs : UInt64)

/-- The resource a request is about. -/
def Request.resource : Request → String
  | .acquire _ _ resource _ _ => resource
  | .heartbeat _ beat => beat.token.resource
  | .release token => token.resource
  | .current resource => resource
  | .checkFence token _ => token.resource

/-- The temporary files a request may leave. -/
def Request.temps : Request → List TempName
  | .acquire epochTemp stateTemp _ _ _ => [epochTemp, stateTemp]
  | .heartbeat stateTemp _ => [stateTemp]
  | _ => []

/-- What a request returns. -/
inductive Reply where
  | lease (lease : SharedResourceLease)
  | released
  | current (lease : Option SharedResourceLease)
  | decision (decision : LeaseDecision)

/-- The call itself. -/
def FileLeaseRepository.perform (repository : FileLeaseRepository) : Request → LeaseProg Reply
  | .acquire epochTemp stateTemp resource owner nowMs => do
      let lease ← repository.acquire epochTemp stateTemp resource owner nowMs
      pure (.lease lease)
  | .heartbeat stateTemp beat => do
      let lease ← repository.heartbeat stateTemp beat
      pure (.lease lease)
  | .release token => do
      repository.release token
      pure .released
  | .current resource => do
      let lease ← repository.current resource
      pure (.current lease)
  | .checkFence token nowMs => do
      let decision ← repository.checkFence token nowMs
      pure (.decision decision)

end AppCore.Lease
