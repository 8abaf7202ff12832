import AppCore.ControlPlane.Leadership
import AppCore.PeerRpc.Validation

/-!
# Capability resolution

`contract.rs`, `registry.rs`, `selection.rs`, `policy.rs` and `resolver.rs`: a request for a
capability is given to one provider, a handler of this process or a discovered peer. The resolver
collects the candidates, lets the selection policy pick one and enforces what its descriptor
requires; `handle` and `handle_local` then call the provider.

A handler, an invoker, a leadership guard and a selection policy are code of the application, each
a function here. Every call of a handler or of an invoker is an `Execution`, and `handle` and
`handle_local` also return the ones they made.
-/

namespace AppCore.Capabilities

open ControlPlane PeerRpc

/-! ## Contract -/

inductive CapabilityError where
  | descriptorAlreadyRegistered (capability : CapabilityName)
  | capabilityNotDeclared (capability : CapabilityName)
  | handlerAlreadyRegistered (capability : CapabilityName)
  | handlerNotFound (capability : CapabilityName)
  | providerUnavailable (capability : CapabilityName)
  | requiresLeader (capability : CapabilityName)
  | leaseExpired (capability : CapabilityName)
  | staleEpoch (capability : CapabilityName)
  | writesDisabled (capability : CapabilityName)
  | remoteEndpointUnavailable (capability : CapabilityName)
  | remoteInvocationFailed (message : String)
  | handlerRejected (message : String)
  deriving DecidableEq, Repr

abbrev CapabilityResult (α : Type) := Except CapabilityError α

structure CapabilityRequest where
  requestId : String
  capability : CapabilityName
  mode : CapabilityMode
  payload : Bytes
  idempotencyKey : Option String
  trace : Option TraceContext
  deriving DecidableEq

structure CapabilityResponse where
  accepted : Bool
  payload : Bytes
  providerCoreId : Option CoreId
  message : Option String
  deriving DecidableEq

/-- `CapabilityResponse::accepted`. -/
def CapabilityResponse.acceptedWith (payload : Bytes) (providerCoreId : Option CoreId) :
    CapabilityResponse :=
  { accepted := true, payload, providerCoreId, message := none }

/-- `LocalCapabilityProvider`: a descriptor and its handler, with the health it reports. -/
structure LocalCapabilityProvider where
  descriptor : CapabilityDescriptor
  isHealthy : Bool
  handle : CapabilityRequest → CapabilityResult CapabilityResponse

abbrev RemoteCapabilityInvoker :=
  PeerRecord → CapabilityRequest → CapabilityResult CapabilityResponse

/-- `ServiceLeadershipGuard::check_service_write_permission`. -/
abbrev ServiceLeadershipGuard :=
  ServiceId → TenantId → ClusterId → CoreId → Option UInt64 → UInt64 → LeadershipDecision

/-- `CapabilityRegistry`: every handler is registered under the name in its descriptor. -/
structure CapabilityRegistry where
  get : CapabilityName → Option LocalCapabilityProvider
  named : ∀ name provider, get name = some provider → provider.descriptor.name = name

def CapabilityRegistry.new : CapabilityRegistry where
  get _ := none
  named := by
    intro name provider h
    cases h

/-- `register_shared_handler`. -/
def CapabilityRegistry.register (registry : CapabilityRegistry)
    (provider : LocalCapabilityProvider) : CapabilityResult CapabilityRegistry :=
  match registry.get provider.descriptor.name with
  | some _ => .error (.handlerAlreadyRegistered provider.descriptor.name)
  | none => .ok
      { get name := if provider.descriptor.name = name then some provider else registry.get name
        named := by
          intro name found h
          split at h
          · cases h
            assumption
          · exact registry.named name found h }

/-! ## Selection -/

inductive CapabilityProvider where
  | localCore (coreId : CoreId) (descriptor : CapabilityDescriptor)
  | remote (peer : PeerRecord) (descriptor : CapabilityDescriptor) (preferred : Bool)

namespace CapabilityProvider

def descriptor : CapabilityProvider → CapabilityDescriptor
  | localCore _ descriptor => descriptor
  | remote _ descriptor _ => descriptor

def coreId : CapabilityProvider → CoreId
  | localCore coreId _ => coreId
  | remote peer _ _ => peer.identity.coreId

def isRemote : CapabilityProvider → Bool
  | localCore .. => false
  | remote .. => true

def isPreferred : CapabilityProvider → Bool
  | localCore .. => false
  | remote _ _ preferred => preferred

end CapabilityProvider

abbrev CapabilitySelectionPolicy := List CapabilityProvider → Option CapabilityProvider

structure ResolutionPolicy where
  preferLocal : Bool
  allowRemote : Bool

def ResolutionPolicy.default : ResolutionPolicy := { preferLocal := true, allowRemote := true }

def ResolutionPolicy.select (policy : ResolutionPolicy) : CapabilitySelectionPolicy :=
  fun candidates =>
    let firstLocal := candidates.find? fun candidate => !candidate.isRemote
    let preferred := candidates.find? fun candidate => candidate.isPreferred
    let firstRemote := candidates.find? fun candidate => candidate.isRemote
    match (if policy.preferLocal then firstLocal else none) with
    | some candidate => some candidate
    | none =>
      match (if policy.allowRemote then preferred <|> firstRemote else none) with
      | some candidate => some candidate
      | none => firstLocal

/-! ## Compatibility of cores -/

inductive CompatibilityStatus where
  | compatible
  | differentAppId
  | differentAppFamily
  | differentSyncGroup
  | differentRuntimeContract
  deriving DecidableEq, Repr

inductive CoreCompatibilityStatus where
  | compatible
  | differentTenant
  | differentCluster
  | incompatibleProtocolVersion
  | incompatibleRuntime (status : CompatibilityStatus)
  | missingCapability (capability : CapabilityName)
  deriving DecidableEq, Repr

structure CoreCompatibilityPolicy where
  requireSameCluster : Bool
  requiredCapability : Option CapabilityName

/-- `RuntimeIdentity::check_compatibility`. -/
def runtimeCompatibility (runtime other : RuntimeIdentity) : CompatibilityStatus :=
  if runtime.appId ≠ other.appId then .differentAppId
  else if runtime.appFamily ≠ other.appFamily then .differentAppFamily
  else if runtime.syncGroup ≠ other.syncGroup then .differentSyncGroup
  else if runtime.runtimeContract ≠ other.runtimeContract then .differentRuntimeContract
  else .compatible

/-- The required capability is advertised by the other core. -/
def checkCapability (policy : CoreCompatibilityPolicy) (otherCapabilities : List CapabilityName) :
    CoreCompatibilityStatus :=
  match policy.requiredCapability with
  | none => .compatible
  | some required =>
    if required ∈ otherCapabilities then .compatible else .missingCapability required

def checkCompatibility (identity other : CoreIdentity) (policy : CoreCompatibilityPolicy)
    (otherCapabilities : List CapabilityName) : CoreCompatibilityStatus :=
  if identity.tenantId ≠ other.tenantId then .differentTenant
  else if policy.requireSameCluster ∧ identity.clusterId ≠ other.clusterId then .differentCluster
  else if !identity.protocolVersion.isCompatibleWith other.protocolVersion then
    .incompatibleProtocolVersion
  else
    match runtimeCompatibility identity.runtime other.runtime with
    | .compatible => checkCapability policy otherCapabilities
    | status => .incompatibleRuntime status

def enforceRequestRequirements (request : CapabilityRequest) (descriptor : CapabilityDescriptor) :
    CapabilityResult Unit :=
  if descriptor.mode ≠ request.mode then .error (.handlerRejected "capability_mode_mismatch")
  else if descriptor.readOnly ∧ request.mode ≠ .query then
    .error (.handlerRejected "read_only_capability")
  else if descriptor.idempotencyRequired ∧ request.idempotencyKey = none then
    .error (.handlerRejected "missing_idempotency_key")
  else .ok ()

def mapLeadershipDecision (request : CapabilityRequest) : LeadershipDecision → CapabilityResult Unit
  | .allowed => .ok ()
  | .expired => .error (.leaseExpired request.capability)
  | .staleEpoch => .error (.staleEpoch request.capability)
  | .noLease => .error (.requiresLeader request.capability)
  | .wrongHolder => .error (.requiresLeader request.capability)

def enforceRequirements (identity : CoreIdentity) (serviceId : ServiceId)
    (request : CapabilityRequest) (descriptor : CapabilityDescriptor) (providerCoreId : CoreId)
    (leadership : Option ServiceLeadershipGuard) (writesAllowed : Bool) (nowMs : UInt64) :
    CapabilityResult Unit :=
  match enforceRequestRequirements request descriptor with
  | .error e => .error e
  | .ok () =>
    if request.mode = .command ∧ !writesAllowed then .error (.writesDisabled request.capability)
    else if !descriptor.requiresLeader then .ok ()
    else
      match leadership with
      | none => .error (.requiresLeader request.capability)
      | some leadership =>
        -- The tenant and the cluster are those of the caller, the core is the provider's.
        mapLeadershipDecision request
          (leadership serviceId identity.tenantId identity.clusterId providerCoreId none nowMs)

/-! ## Resolver -/

structure CapabilityResolver where
  registry : CapabilityRegistry
  peers : List PeerRecord
  selector : CapabilitySelectionPolicy

def remoteDescriptorIsCompatible (identity : CoreIdentity) (peer : PeerRecord)
    (descriptor : CapabilityDescriptor) : Bool :=
  let compatible (requireSameCluster : Bool) : Bool :=
    checkCompatibility identity peer.identity
      { requireSameCluster, requiredCapability := some descriptor.name }
      (peer.capabilities.map fun capability => capability.name) = .compatible
  match descriptor.visibility with
  | .localProcess => false
  | .cluster => compatible true
  | .tenant => compatible false

/-- The descriptor of a peer that a request asks for. -/
def requestedDescriptor (peer : PeerRecord) (request : CapabilityRequest) :
    Option CapabilityDescriptor :=
  peer.capabilities.find? fun descriptor =>
    descriptor.name = request.capability ∧ descriptor.mode = request.mode

/-- The candidate that a peer gives. -/
def remoteCandidate (identity : CoreIdentity) (request : CapabilityRequest) (peer : PeerRecord) :
    Option CapabilityProvider :=
  if !peer.healthy then none
  else
    match requestedDescriptor peer request with
    | none => none
    | some descriptor =>
      if !remoteDescriptorIsCompatible identity peer descriptor then none
      else some (.remote peer descriptor (peer.metadata["preferred"]? = some "true"))

namespace CapabilityResolver

variable (resolver : CapabilityResolver) (identity : CoreIdentity) (serviceId : ServiceId)
  (request : CapabilityRequest) (leadership : Option ServiceLeadershipGuard)
  (remoteInvoker : Option RemoteCapabilityInvoker) (nowMs : UInt64)

/-- The candidate of this process. -/
def localCandidate : Option CapabilityProvider :=
  match resolver.registry.get request.capability with
  | none => none
  | some provider =>
    if provider.isHealthy ∧ provider.descriptor.mode = request.mode then
      some (.localCore identity.coreId provider.descriptor)
    else none

def candidates : List CapabilityProvider :=
  (resolver.localCandidate identity request).toList ++
    resolver.peers.filterMap (remoteCandidate identity request)

def resolve : CapabilityResult CapabilityProvider :=
  match resolver.selector (resolver.candidates identity request) with
  | none => .error (.providerUnavailable request.capability)
  | some provider =>
    match enforceRequirements identity serviceId request provider.descriptor provider.coreId
      leadership true nowMs with
    | .error e => .error e
    | .ok () => .ok provider

/-- A call of a local handler or of the remote invoker, and what it answered. -/
inductive Execution where
  | handler (provider : LocalCapabilityProvider) (request : CapabilityRequest)
      (result : CapabilityResult CapabilityResponse)
  | invocation (peer : PeerRecord) (request : CapabilityRequest)
      (result : CapabilityResult CapabilityResponse)

/-- The call of the handler registered for the capability of a request. -/
def callHandler : CapabilityResult CapabilityResponse × List Execution :=
  match resolver.registry.get request.capability with
  | none => (.error (.handlerNotFound request.capability), [])
  | some provider =>
    (provider.handle request, [.handler provider request (provider.handle request)])

def handleLocal : CapabilityResult CapabilityResponse × List Execution :=
  match resolver.resolve identity serviceId request leadership nowMs with
  | .error e => (.error e, [])
  | .ok (.localCore _ _) => resolver.callHandler request
  | .ok (.remote peer _ _) => (.ok (.acceptedWith [] (some peer.identity.coreId)), [])

def handle : CapabilityResult CapabilityResponse × List Execution :=
  match resolver.resolve identity serviceId request leadership nowMs with
  | .error e => (.error e, [])
  | .ok (.localCore _ _) => resolver.callHandler request
  | .ok (.remote peer _ _) =>
    match remoteInvoker with
    | none => (.error (.remoteEndpointUnavailable request.capability), [])
    | some invoke => (invoke peer request, [.invocation peer request (invoke peer request)])

end CapabilityResolver

end AppCore.Capabilities
