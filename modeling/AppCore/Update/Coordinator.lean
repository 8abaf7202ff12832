import AppCore.Base.Prog
import AppCore.Base.Sha256
import AppCore.Update.Artifact

/-!
# The update coordinator

`coordinator.rs`: an artifact is selected, fetched and verified, staged and activated; what the health
check says of it decides whether the activation is committed or rolled back. Providers, verifiers,
health checks and stores are traits. A store is a record of programs over its own states, so that it
can be stopped between any two of their steps.

Times, and what the traits do besides answering, are left out.
-/

namespace AppCore.Update

/-- More of the version crate: versions are in a total order, and requirements admit some of them. -/
class SemverRules [Semver] where
  order : LinearOrder Semver.Version
  isMatch : Semver.VersionReq → Semver.Version → Bool
  text : Semver.Version → String

attribute [reducible, instance] SemverRules.order

/-- A result of the version crate, with its error told as one of ours. -/
def parsedOr {α : Type} (toError : String → UpdateError) : Except String α → UpdateResult α
  | .ok value => .ok value
  | .error error => .error (toError error)

def ArtifactDescriptor.ensureCompatible [Semver] [SemverRules] (descriptor : ArtifactDescriptor)
    (runtimeVersion protocolVersion : String) : UpdateResult Unit := do
  let runtime ← parsedOr (fun e => .incompatible ("invalid runtime version: " ++ e))
    (Semver.parse runtimeVersion)
  let requirement ← parsedOr (fun e => .invalidArtifact ("invalid runtime requirement: " ++ e))
    (Semver.parseReq descriptor.runtimeRequirement)
  if !SemverRules.isMatch requirement runtime then
    .error (.incompatible ("runtime " ++ SemverRules.text runtime ++ " does not satisfy " ++
      descriptor.runtimeRequirement))
  else if descriptor.protocolVersion ≠ protocolVersion then
    .error (.incompatible ("protocol " ++ descriptor.protocolVersion ++
      " is required, host provides " ++ protocolVersion))
  else .ok ()

/-- The `Debug` text of a fault point. -/
def UpdateFaultPoint.debug : UpdateFaultPoint → String
  | .afterSelection => "AfterSelection"
  | .afterVerification => "AfterVerification"
  | .afterStaging => "AfterStaging"
  | .afterActivation => "AfterActivation"
  | .beforeCommit => "BeforeCommit"

/-- The `Display` text of an error. -/
def UpdateError.text : UpdateError → String
  | .invalidArtifact reason => "invalid artifact metadata: " ++ reason
  | .incompatible reason => "incompatible artifact: " ++ reason
  | .provider reason => "update provider failed: " ++ reason
  | .artifactTooLarge maxBytes =>
    "artifact exceeds maximum size of " ++ toString maxBytes ++ " bytes"
  | .checksumMismatch => "artifact checksum mismatch"
  | .authenticity reason => "artifact authenticity verification failed: " ++ reason
  | .store reason => "artifact store failed: " ++ reason
  | .health reason => "activated artifact failed health verification: " ++ reason
  | .injectedFault point => "injected update fault at " ++ point.debug
  | .rollbackFailed cause rollback => "rollback failed after " ++ cause ++ ": " ++ rollback

def sha256Hex [Sha256] (bytes : Bytes) : String := String.ofList (lowerHex (digest bytes).toList)

/-! ## The traits -/

structure UpdateRequest where
  applicationId : ApplicationId
  currentVersion : String
  channel : String

/-- `UpdateProvider`: its answers. -/
structure UpdateProvider where
  latest : UpdateRequest → UpdateResult (Option ArtifactDescriptor)
  fetch : ArtifactDescriptor → Nat → UpdateResult Bytes

structure StagedArtifact where
  descriptor : ArtifactDescriptor
  stagingReference : String
  deriving DecidableEq

structure ActivationReceipt where
  activated : ArtifactDescriptor
  previous : Option ArtifactDescriptor
  deriving DecidableEq

/-- `ArtifactStore`, over the states of a store. -/
structure ArtifactStore (σ : Type) where
  recover : Prog σ UpdateError Unit
  current : σ → UpdateResult (Option ArtifactDescriptor)
  stage : ArtifactDescriptor → Bytes → Prog σ UpdateError StagedArtifact
  activate : StagedArtifact → Prog σ UpdateError ActivationReceipt
  rollback : ActivationReceipt → Prog σ UpdateError Unit
  commit : ActivationReceipt → Prog σ UpdateError Unit

abbrev UpdateFaultInjector := UpdateFaultPoint → UpdateResult Unit

/-- `NoUpdateFaults`. -/
def noUpdateFaults : UpdateFaultInjector := fun _ => .ok ()

/-! ## Outcomes -/

inductive UpdateOutcome where
  | noUpdate
  | applied (descriptor : ArtifactDescriptor)
  | rolledBack (attempted : ArtifactDescriptor) (reason : String)
  deriving DecidableEq

inductive UpdatePreparation where
  | noUpdate
  | awaitingHealth (descriptor : ArtifactDescriptor)
  deriving DecidableEq

inductive UpdateStaging where
  | noUpdate
  | staged (artifact : StagedArtifact)
  deriving DecidableEq

structure VerifiedArtifact where
  descriptor : ArtifactDescriptor
  bytes : Bytes

structure ActivatedArtifact where
  descriptor : ArtifactDescriptor
  receipt : ActivationReceipt

/-! ## The coordinator -/

/-- `UpdateCoordinator`, but for its store. -/
structure UpdateCoordinator where
  provider : UpdateProvider
  health : Option (ArtifactDescriptor → UpdateResult Unit)
  authenticity : ArtifactDescriptor → UpdateResult Unit
  maxArtifactBytes : Nat

namespace UpdateCoordinator

/-- `new`, which asks for an explicit verifier. -/
def new (_provider : UpdateProvider) (_health : ArtifactDescriptor → UpdateResult Unit)
    (_maxArtifactBytes : Nat) : UpdateResult UpdateCoordinator :=
  .error (.authenticity "an explicit artifact authenticity verifier is required")

def newWithAuthenticity (provider : UpdateProvider) (health : ArtifactDescriptor → UpdateResult Unit)
    (authenticity : ArtifactDescriptor → UpdateResult Unit) (maxArtifactBytes : Nat) :
    UpdateResult UpdateCoordinator :=
  if maxArtifactBytes = 0 then
    .error (.invalidArtifact "max_artifact_bytes must be greater than zero")
  else .ok ⟨provider, some health, authenticity, maxArtifactBytes⟩

def newForPreparation (provider : UpdateProvider)
    (authenticity : ArtifactDescriptor → UpdateResult Unit) (maxArtifactBytes : Nat) :
    UpdateResult UpdateCoordinator :=
  if maxArtifactBytes = 0 then
    .error (.invalidArtifact "max_artifact_bytes must be greater than zero")
  else .ok ⟨provider, none, authenticity, maxArtifactBytes⟩

section

variable [Semver] [SemverRules] [Sha256] {σ : Type} (coordinator : UpdateCoordinator)
  (store : ArtifactStore σ)

/-- The part of `ensure_upgrade` after the installed version: the candidate against what is active. -/
def ensureAdvances (candidate : ArtifactDescriptor) (candidateVersion : Semver.Version) :
    Option ArtifactDescriptor → UpdateResult Unit
  | none => .ok ()
  | some active =>
    if active.applicationId ≠ candidate.applicationId then
      .error (.incompatible "active artifact application identity differs from the candidate")
    else if active.buildId = candidate.buildId then
      .error (.incompatible "candidate reuses the active build identity")
    else do
      let activeVersion ← parsedOr (fun e => .store ("active artifact version is invalid: " ++ e))
        (Semver.parse active.applicationVersion)
      if candidateVersion ≤ activeVersion then
        .error (.incompatible ("candidate version " ++ SemverRules.text candidateVersion ++
          " does not advance active version " ++ SemverRules.text activeVersion))
      else .ok ()

def ensureUpgrade (request : UpdateRequest) (candidate : ArtifactDescriptor) (s : σ) :
    UpdateResult Unit := do
  let installed ← parsedOr
    (fun e => .incompatible ("invalid installed application version: " ++ e))
    (Semver.parse request.currentVersion)
  let candidateVersion ← parsedOr
    (fun e => .invalidArtifact ("invalid candidate application version: " ++ e))
    (Semver.parse candidate.applicationVersion)
  if candidateVersion ≤ installed then
    .error (.incompatible ("candidate version " ++ SemverRules.text candidateVersion ++
      " does not advance installed version " ++ SemverRules.text installed))
  else do
    let active ← store.current s
    ensureAdvances candidate candidateVersion active

def selectCandidate (request : UpdateRequest) (runtimeVersion protocolVersion : String) (s : σ) :
    UpdateResult (Option ArtifactDescriptor) := do
  match ← coordinator.provider.latest request with
  | none => .ok none
  | some candidate =>
    if candidate.applicationId ≠ request.applicationId then
      .error (.incompatible "artifact application identity differs from the request")
    else if candidate.channel ≠ request.channel then
      .error (.incompatible "artifact update channel differs from the request")
    else do
      ensureUpgrade store request candidate s
      candidate.ensureCompatible runtimeVersion protocolVersion
      .ok (some candidate)

/-- `fetch_verified`. The declared size fits into a 64-bit `usize`. -/
def fetchVerified (candidate : ArtifactDescriptor) : UpdateResult VerifiedArtifact :=
  let tooLarge : UpdateError := .artifactTooLarge coordinator.maxArtifactBytes
  let declaredSize := candidate.sizeBytes.toNat
  if coordinator.maxArtifactBytes < declaredSize then .error tooLarge
  else do
    let bytes ← coordinator.provider.fetch candidate coordinator.maxArtifactBytes
    if coordinator.maxArtifactBytes < bytes.length ∨ bytes.length ≠ declaredSize then .error tooLarge
    else if sha256Hex bytes ≠ candidate.sha256 then .error .checksumMismatch
    else do
      coordinator.authenticity candidate
      .ok ⟨candidate, bytes⟩

def stageCandidate (request : UpdateRequest) (runtimeVersion protocolVersion : String) :
    Prog σ UpdateError UpdateStaging := do
  store.recover
  match ← Prog.read (coordinator.selectCandidate store request runtimeVersion protocolVersion) with
  | none => pure .noUpdate
  | some candidate => do
      let verified ← Prog.read fun _ => coordinator.fetchVerified candidate
      let staged ← store.stage verified.descriptor verified.bytes
      pure (.staged staged)

def prepare (request : UpdateRequest) (runtimeVersion protocolVersion : String) :
    Prog σ UpdateError UpdatePreparation := do
  match ← coordinator.stageCandidate store request runtimeVersion protocolVersion with
  | .noUpdate => pure .noUpdate
  | .staged staged => do
      let receipt ← store.activate staged
      pure (.awaitingHealth receipt.activated)

def stageAndActivate (verified : VerifiedArtifact) (faults : UpdateFaultInjector) :
    Prog σ UpdateError ActivatedArtifact := do
  let staged ← store.stage verified.descriptor verified.bytes
  Prog.read fun _ => faults .afterStaging
  let receipt ← store.activate staged
  pure ⟨verified.descriptor, receipt⟩

def rollbackAfterFailure (activated : ActivatedArtifact) (cause : UpdateError) :
    Prog σ UpdateError UpdateOutcome := do
  match ← (store.rollback activated.receipt).attempt with
  | .ok () => pure (.rolledBack activated.descriptor cause.text)
  | .error rollback => Prog.fail (.rollbackFailed cause.text rollback.text)

/-- The health check of `finish_activation` with the faults around it, and the commit. -/
def checkAndCommit (health : ArtifactDescriptor → UpdateResult Unit) (activated : ActivatedArtifact)
    (faults : UpdateFaultInjector) : Prog σ UpdateError Unit := do
  Prog.read fun _ => faults .afterActivation
  Prog.read fun _ => health activated.descriptor
  Prog.read fun _ => faults .beforeCommit
  store.commit activated.receipt

/-- `finish_activation`. Without a health check the error is passed on as it is. -/
def finishActivation (activated : ActivatedArtifact) (faults : UpdateFaultInjector) :
    Prog σ UpdateError UpdateOutcome :=
  match coordinator.health with
  | none => Prog.fail (.health "activation health check is not configured")
  | some health => do
      match ← (checkAndCommit store health activated faults).attempt with
      | .ok () => pure (.applied activated.descriptor)
      | .error cause => rollbackAfterFailure store activated cause

def applyWithFaults (request : UpdateRequest) (runtimeVersion protocolVersion : String)
    (faults : UpdateFaultInjector) : Prog σ UpdateError UpdateOutcome := do
  store.recover
  match ← Prog.read (coordinator.selectCandidate store request runtimeVersion protocolVersion) with
  | none => pure .noUpdate
  | some candidate => do
      Prog.read fun _ => faults .afterSelection
      let verified ← Prog.read fun _ => coordinator.fetchVerified candidate
      Prog.read fun _ => faults .afterVerification
      let activated ← stageAndActivate store verified faults
      coordinator.finishActivation store activated faults

def apply (request : UpdateRequest) (runtimeVersion protocolVersion : String) :
    Prog σ UpdateError UpdateOutcome :=
  coordinator.applyWithFaults store request runtimeVersion protocolVersion noUpdateFaults

end

theorem fetchVerified_descriptor [Sha256] {coordinator : UpdateCoordinator} {candidate : ArtifactDescriptor}
    {verified : VerifiedArtifact} (h : coordinator.fetchVerified candidate = .ok verified) :
    verified.descriptor = candidate := by
  unfold fetchVerified at h
  dsimp only at h
  split at h
  · cases h
  obtain ⟨bytes, -, h⟩ := bind_eq_ok.1 h
  split at h
  · cases h
  split at h
  · cases h
  obtain ⟨_, -, h⟩ := bind_eq_ok.1 h
  cases h
  rfl

end UpdateCoordinator

end AppCore.Update
