import AppCore.Base.Maps
import AppCore.PeerRpc.Validation

/-!
# Tenants of the gateway

`tenant.rs`, `registry.rs` and `connection.rs`: the connections and capabilities of a tenant and the
requests that wait for an answer, and `mesh.rs`: the messages of the mesh relay. The sender half of
the channel that a request waits on goes by the number of its call.
-/

namespace AppCore.Gateway

open PeerRpc

/-! ## Limits -/

def maxGatewayMessageBytes : Nat := 4 * 1024 * 1024

def maxGatewayWorkersPerTenant : Nat := 1024

def maxGatewayClientsPerTenant : Nat := 4096

def maxGatewayConnections : Nat := 8192

def maxGatewayPendingPerTenant : Nat := 2048

def maxGatewayTenants : Nat := 1024

/-- `MAX_GATEWAY_REQUEST_TIMEOUT`, in milliseconds. -/
def maxGatewayRequestTimeoutMs : Nat := 30000

/-! ## Connections -/

structure InstallationId where
  asStr : String
  deriving DecidableEq, Repr

structure WorkerConnectionKey where
  tenantId : TenantId
  installationId : InstallationId
  coreId : CoreId
  deriving DecidableEq, Repr

/-- `WorkerConnection`, without its channel and its heartbeat. -/
structure WorkerConnection where
  key : WorkerConnectionKey
  clusterId : Option ClusterId
  generation : UInt64
  deriving DecidableEq, Repr

/-- `CapabilityRegistry`: a set is a list without duplicates. -/
structure CapabilityRegistry where
  capabilityToWorkers : CapabilityName → Option (List WorkerConnectionKey)
  workerToCapabilities : WorkerConnectionKey → Option (List CapabilityName)

namespace CapabilityRegistry

def new : CapabilityRegistry := ⟨fun _ => none, fun _ => none⟩

/-- The loop of `deregister` at one capability: a set that gets empty is removed. -/
def withdraw (worker : WorkerConnectionKey)
    (capabilityToWorkers : CapabilityName → Option (List WorkerConnectionKey))
    (cap : CapabilityName) : CapabilityName → Option (List WorkerConnectionKey) :=
  match capabilityToWorkers cap with
  | none => capabilityToWorkers
  | some workers =>
    Function.update capabilityToWorkers cap
      (if workers.erase worker = [] then none else some (workers.erase worker))

/-- The loop of `register` at one capability. -/
def advertise (worker : WorkerConnectionKey)
    (capabilityToWorkers : CapabilityName → Option (List WorkerConnectionKey))
    (cap : CapabilityName) : CapabilityName → Option (List WorkerConnectionKey) :=
  Function.update capabilityToWorkers cap
    (some (((capabilityToWorkers cap).getD []).insert worker))

def deregister (registry : CapabilityRegistry) (worker : WorkerConnectionKey) :
    CapabilityRegistry :=
  match registry.workerToCapabilities worker with
  | none => registry
  | some caps =>
    { capabilityToWorkers := caps.foldl (withdraw worker) registry.capabilityToWorkers
      workerToCapabilities := Function.update registry.workerToCapabilities worker none }

def register (registry : CapabilityRegistry) (worker : WorkerConnectionKey)
    (capabilities : List CapabilityName) : CapabilityRegistry :=
  let registry := registry.deregister worker
  { capabilityToWorkers := capabilities.foldl (advertise worker) registry.capabilityToWorkers
    workerToCapabilities :=
      Function.update registry.workerToCapabilities worker (some capabilities.dedup) }

def resolve (registry : CapabilityRegistry) (capability : CapabilityName) :
    Option (List WorkerConnectionKey) :=
  registry.capabilityToWorkers capability

end CapabilityRegistry

/-! ## Tenants -/

/-- `TenantState`: at most one worker for an installation and a core, the connection ids of the
clients, and the calls that wait for an answer. -/
structure TenantState where
  tenantId : TenantId
  workers : List WorkerConnection
  clients : List String
  registry : CapabilityRegistry
  pendingRequests : Std.ExtTreeMap String Nat compare
  pendingMeshRequests : Std.ExtTreeMap String Nat compare

namespace TenantState

def new (tenantId : TenantId) : TenantState :=
  { tenantId, workers := [], clients := [], registry := .new, pendingRequests := ∅,
    pendingMeshRequests := ∅ }

def getWorker (tenant : TenantState) (installationId : InstallationId) (coreId : CoreId) :
    Option WorkerConnection :=
  tenant.workers.find? fun worker =>
    worker.key.installationId = installationId ∧ worker.key.coreId = coreId

/-- The workers without the one of an installation and a core. -/
def workersBut (tenant : TenantState) (installationId : InstallationId) (coreId : CoreId) :
    List WorkerConnection :=
  tenant.workers.filter fun worker =>
    ¬ (worker.key.installationId = installationId ∧ worker.key.coreId = coreId)

def addWorker (tenant : TenantState) (conn : WorkerConnection)
    (capabilities : List CapabilityName) : Except String TenantState :=
  let previous := tenant.getWorker conn.key.installationId conn.key.coreId
  if previous = none ∧ tenant.workers.length ≥ maxGatewayWorkersPerTenant then
    .error "worker connection limit reached"
  else
    let registry := match previous with
      | some previous => tenant.registry.deregister previous.key
      | none => tenant.registry
    .ok { tenant with
      workers := conn :: tenant.workersBut conn.key.installationId conn.key.coreId
      registry := registry.register conn.key capabilities }

def removeWorker (tenant : TenantState) (installationId : InstallationId) (coreId : CoreId) :
    TenantState :=
  match tenant.getWorker installationId coreId with
  | none => tenant
  | some conn =>
    { tenant with
      workers := tenant.workersBut installationId coreId
      registry := tenant.registry.deregister conn.key }

def removeWorkerIfCurrent (tenant : TenantState) (installationId : InstallationId)
    (coreId : CoreId) (generation : UInt64) : TenantState × Bool :=
  if (tenant.getWorker installationId coreId).any fun worker => worker.generation = generation then
    (tenant.removeWorker installationId coreId, true)
  else (tenant, false)

def tryAddClient (tenant : TenantState) (connectionId : String) : Except String TenantState :=
  if connectionId ∉ tenant.clients ∧ tenant.clients.length ≥ maxGatewayClientsPerTenant then
    .error "client connection limit reached"
  else .ok { tenant with clients := tenant.clients.insert connectionId }

def removeClient (tenant : TenantState) (connectionId : String) : TenantState :=
  { tenant with clients := tenant.clients.erase connectionId }

/-- What `get_worker_by_core` may return: the map has no order, so any worker of the core. -/
def FindsWorkerByCore (tenant : TenantState) (coreId : CoreId) : Option WorkerConnection → Prop
  | some worker => worker ∈ tenant.workers ∧ worker.key.coreId = coreId
  | none => ∀ worker ∈ tenant.workers, worker.key.coreId ≠ coreId

instance decidableFindsWorkerByCore (tenant : TenantState) (coreId : CoreId) :
    (found : Option WorkerConnection) → Decidable (tenant.FindsWorkerByCore coreId found)
  | some worker => inferInstanceAs (Decidable (worker ∈ tenant.workers ∧ worker.key.coreId = coreId))
  | none => inferInstanceAs (Decidable (∀ worker ∈ tenant.workers, worker.key.coreId ≠ coreId))

/-- The calls that wait for an answer of a kind. -/
def pending (tenant : TenantState) (mesh : Bool) : Std.ExtTreeMap String Nat compare :=
  if mesh then tenant.pendingMeshRequests else tenant.pendingRequests

/-- A tenant with other calls that wait. -/
def setPending (tenant : TenantState) (mesh : Bool) (calls : Std.ExtTreeMap String Nat compare) :
    TenantState :=
  if mesh then { tenant with pendingMeshRequests := calls }
  else { tenant with pendingRequests := calls }

def canRegisterPending (tenant : TenantState) (requestId : String) (mesh : Bool) : Bool :=
  (tenant.pending mesh).size < maxGatewayPendingPerTenant && !(tenant.pending mesh).contains requestId

theorem pending_setPending (tenant : TenantState) (mesh other : Bool)
    (calls : Std.ExtTreeMap String Nat compare) :
    (tenant.setPending mesh calls).pending other =
      if mesh = other then calls else tenant.pending other := by
  cases mesh <;> cases other <;> rfl

@[simp] theorem workers_setPending (tenant : TenantState) (mesh : Bool)
    (calls : Std.ExtTreeMap String Nat compare) :
    (tenant.setPending mesh calls).workers = tenant.workers := by
  cases mesh <;> rfl

theorem getElem?_of_canRegisterPending {tenant : TenantState} {requestId : String} {mesh : Bool}
    (h : tenant.canRegisterPending requestId mesh = true) :
    (tenant.pending mesh)[requestId]? = none := by
  unfold canRegisterPending at h
  rw [Bool.and_eq_true, Bool.not_eq_true'] at h
  have hnot : requestId ∉ tenant.pending mesh := by
    rw [← Std.ExtTreeMap.contains_iff_mem, h.2]
    exact Bool.false_ne_true
  exact Std.ExtTreeMap.getElem?_eq_none hnot

end TenantState

/-! ## Messages -/

structure PeerRpcResponse where
  ok : Bool
  requestId : String
  payload : Bytes
  error : Option String
  deriving DecidableEq, Repr

def PeerRpcResponse.rejected (requestId error : String) : PeerRpcResponse :=
  { ok := false, requestId, payload := [], error := some error }

def meshHttpSchemaV1 : String := "appcore.gateway.mesh-http.v1"

structure MeshPeerRequest where
  schema : String
  requestId : String
  targetTenantId : TenantId
  targetCoreId : CoreId
  method : String
  path : String
  body : Bytes
  bearerToken : Option String
  timeoutMs : UInt64
  maxResponseBytes : Nat
  deriving DecidableEq, Repr

structure MeshPeerResponse where
  schema : String
  requestId : String
  statusCode : UInt16
  body : Bytes
  error : Option String
  deriving DecidableEq, Repr

def MeshPeerResponse.rejected (requestId error : String) : MeshPeerResponse :=
  { schema := meshHttpSchemaV1, requestId, statusCode := 503, body := [], error := some error }

/-- The errors of `validate_for_request`. -/
inductive MeshResponseError where
  | invalidResponse (reason : String)
  | payloadTooLarge
  deriving DecidableEq, Repr

def MeshPeerResponse.validateForRequest (response : MeshPeerResponse) (requestId : String)
    (maxResponseBytes : Nat) : Except MeshResponseError Unit :=
  if response.schema ≠ meshHttpSchemaV1 ∨ response.requestId ≠ requestId then
    .error (.invalidResponse "mesh response identity mismatch")
  else if response.body.length > maxResponseBytes then .error .payloadTooLarge
  else .ok ()

/-- What `serde_json` makes of the messages of the gateway. -/
class GatewayJson where
  envelopeToString : PeerRpcEnvelope → Except String String
  meshRequestToString : MeshPeerRequest → Except String String
  envelopeFromSlice : Bytes → Option PeerRpcEnvelope
  heartbeatKind : String → Option String
  meshResponseFromStr : String → Option MeshPeerResponse
  responseFromStr : String → Option PeerRpcResponse

/-- What the errors of the peer RPC contract display. -/
def displayPeerRpcError : PeerRpcError → String
  | .payloadTooLarge => "peer RPC payload is too large"
  | .tenantMismatch => "peer RPC tenant mismatch"
  | .clusterMismatch => "peer RPC cluster mismatch"
  | .targetMismatch => "peer RPC target mismatch"
  | .protocolMismatch => "peer RPC protocol mismatch"
  | .expired => "peer RPC envelope expired"
  | .nonceReplay => "peer RPC nonce replay"
  | .nonceCacheFull => "peer RPC nonce cache is full"
  | .invalidBodyHash => "peer RPC body hash is invalid"
  | .invalidEnvelope reason => "invalid peer RPC envelope: " ++ reason

section

variable [Sha256] [GatewayJson]

def MeshPeerRequest.peerEnvelope (request : MeshPeerRequest) : Except PeerRpcError PeerRpcEnvelope :=
  match GatewayJson.envelopeFromSlice request.body with
  | none => .error (.invalidEnvelope "mesh_peer_envelope_invalid")
  | some envelope =>
    if envelope.requestId ≠ request.requestId ∨ envelope.tenantId ≠ request.targetTenantId ∨
        envelope.targetCoreId ≠ request.targetCoreId then
      .error (.invalidEnvelope "mesh_routing_metadata_mismatch")
    else if envelope.bodyHash ≠ payloadHash envelope.payload then .error .invalidBodyHash
    else .ok envelope

/-- `validate_schema`; of `expected_request_hash` it only asks whether there is one. -/
def MeshPeerRequest.validateSchema (request : MeshPeerRequest) : Except PeerRpcError Unit :=
  if request.schema ≠ meshHttpSchemaV1 then .error .protocolMismatch
  else if request.requestId.isEmpty ∨ request.body.length > maxGatewayMessageBytes ∨
      request.timeoutMs = 0 ∨ request.timeoutMs.toNat > maxGatewayRequestTimeoutMs ∨
      request.maxResponseBytes = 0 ∨ request.maxResponseBytes > maxGatewayMessageBytes then
    .error .payloadTooLarge
  else if request.method = "GET" ∧
      (request.path = "/v1/peer/health" ∨ request.path = "/v1/peer/manifest") ∧ request.body = [] then
    .ok ()
  else if request.method = "POST" ∧
      (request.path = "/v1/peer/query" ∨ request.path = "/v1/peer/command") then
    request.peerEnvelope.map fun _ => ()
  else .error (.invalidEnvelope "mesh_route_not_allowed")

def validateRoutingEnvelope (envelope : PeerRpcEnvelope) (nowMs : UInt64) : Option String :=
  if envelope.protocolVersion ≠ ⟨1⟩ then some "protocol_version_unsupported"
  else if envelope.expiresAtMs ≤ envelope.timestampMs then some "envelope_expiry_invalid"
  else if envelope.expiresAtMs ≤ nowMs then some "envelope_expired"
  else if envelope.bodyHash ≠ payloadHash envelope.payload then some "body_hash_invalid"
  else if envelope.payload.length > maxGatewayMessageBytes then some "payload_too_large"
  else none

end

end AppCore.Gateway
