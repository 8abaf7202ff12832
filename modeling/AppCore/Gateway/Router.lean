import AppCore.Base.Runs
import AppCore.Gateway.Tenant

/-!
# The envelope router

`router.rs`: a call that routes a request to a worker registers it in two tables, the pending
requests of its tenant and the metadata of the process (`registerPending`), forwards it and waits. A
frame from a worker is dispatched to the call it answers (`dispatchWorkerResponse`,
`dispatchWorkerMeshResponse`), and a call that ends cleans up behind it (`cleanupPending`). What a
task does between two awaits is one step, and any number of calls is waiting, for any number of
gateway states of the process.
-/

namespace AppCore.Gateway

open PeerRpc

/-! ## The process -/

structure PendingKey where
  stateId : Nat
  tenantId : TenantId
  requestId : String
  mesh : Bool
  deriving DecidableEq, Repr

structure PendingMetadata where
  workerGeneration : UInt64
  responseLimit : Option Nat
  deriving DecidableEq, Repr

/-- A response of a worker, or one that the gateway makes in its place. -/
inductive WorkerResponse where
  | plain (response : PeerRpcResponse)
  | mesh (response : MeshPeerResponse)
  deriving DecidableEq, Repr

def WorkerResponse.requestId : WorkerResponse → String
  | .plain response => response.requestId
  | .mesh response => response.requestId

/-- Whether a response is one of the mesh relay. -/
def WorkerResponse.isMesh : WorkerResponse → Bool
  | .plain _ => false
  | .mesh _ => true

/-- A rejection of either kind. -/
def WorkerResponse.rejected (mesh : Bool) (requestId reason : String) : WorkerResponse :=
  if mesh then .mesh (.rejected requestId reason) else .plain (.rejected requestId reason)

/-- The channel that a call waits on. -/
inductive Channel where
  | waiting
  | sent (frame : Nat) (response : WorkerResponse)
  | closed
  deriving DecidableEq, Repr

/-- How a call ended: with the answer of a worker, with a rejection, or it was dropped. -/
inductive CallEnd where
  | answered (response : WorkerResponse)
  | rejected (response : WorkerResponse)
  | cancelled
  deriving DecidableEq, Repr

/-- A call that registered: under which key and with which metadata, how many frames had arrived by
then, and whether the worker was sent the request. -/
structure Call where
  key : PendingKey
  metadata : PendingMetadata
  registered : Nat
  forwarded : Bool
  channel : Channel
  ended : Option CallEnd
  deriving DecidableEq, Repr

/-- A call with something on its channel, when that is still open and the call waits on it. -/
def Call.put (channel : Channel) (call : Call) : Call :=
  if call.channel = .waiting ∧ call.ended = none then { call with channel } else call

/-- A frame that arrived at a gateway state, for a tenant, over a connection. -/
structure WorkerFrame where
  stateId : Nat
  tenantId : TenantId
  generation : UInt64
  response : WorkerResponse
  deriving DecidableEq, Repr

/-- The key that a frame is dispatched to. -/
def WorkerFrame.key (frame : WorkerFrame) : PendingKey :=
  ⟨frame.stateId, frame.tenantId, frame.response.requestId, frame.response.isMesh⟩

/-- `GatewayState`: its tenants, by their identifiers, and whether it shuts down. -/
structure GatewayState where
  tenants : Std.ExtTreeMap String TenantState compare
  shutdown : Bool

/-- The process: the gateway states by their addresses, `PENDING_METADATA`, `CONNECTION_GENERATION`,
the heartbeats by generation, and the calls and worker frames so far. -/
structure GatewayProcess where
  states : Nat → GatewayState
  pendingMetadata : PendingKey → Option PendingMetadata
  connectionGeneration : UInt64
  lastHeartbeatMs : UInt64 → UInt64
  calls : List Call
  frames : List WorkerFrame

namespace GatewayProcess

/-- A process without a connection or a call. -/
def new : GatewayProcess :=
  { states := fun _ => { tenants := ∅, shutdown := false }, pendingMetadata := fun _ => none,
    connectionGeneration := 1, lastHeartbeatMs := fun _ => 0, calls := [], frames := [] }

def tenant (g : GatewayProcess) (stateId : Nat) (tenantId : TenantId) : Option TenantState :=
  (g.states stateId).tenants[tenantId.asStr]?

/-- A state with a tenant as given. -/
def setTenant (g : GatewayProcess) (stateId : Nat) (tenantId : TenantId) (tenant : TenantState) :
    GatewayProcess :=
  let tenants := (g.states stateId).tenants.insert tenantId.asStr tenant
  { g with states := Function.update g.states stateId { g.states stateId with tenants } }

/-- The call whose sender is registered under a key. -/
def sender (g : GatewayProcess) (key : PendingKey) : Option Nat :=
  (g.tenant key.stateId key.tenantId).bind fun tenant => (tenant.pending key.mesh)[key.requestId]?

/-- `tx.send(response)`. -/
def send (g : GatewayProcess) (c : Nat) (response : WorkerResponse) : GatewayProcess :=
  { g with calls := g.calls.modify c (Call.put (.sent g.frames.length response)) }

/-- What happens to the channel when its sender is dropped. -/
def dropSender (g : GatewayProcess) : Option Nat → GatewayProcess
  | none => g
  | some c => { g with calls := g.calls.modify c (Call.put .closed) }

/-! ## The two tables -/

/-- A tenant without the pending request of a key, if there is such a tenant. -/
def removePending (g : GatewayProcess) (key : PendingKey) : GatewayProcess :=
  match g.tenant key.stateId key.tenantId with
  | none => g
  | some tenant =>
    g.setTenant key.stateId key.tenantId
      (tenant.setPending key.mesh ((tenant.pending key.mesh).erase key.requestId))

def removePendingMetadata (g : GatewayProcess) (key : PendingKey) : GatewayProcess :=
  { g with pendingMetadata := Function.update g.pendingMetadata key none }

/-- `cleanup_pending_request` and `cleanup_pending_mesh_request`. -/
def cleanupPending (g : GatewayProcess) (key : PendingKey) : GatewayProcess :=
  ((g.dropSender (g.sender key)).removePending key).removePendingMetadata key

/-- What a call does that registers: `register_pending_metadata`, and the sender of its channel. -/
def registerPending (g : GatewayProcess) (tenant : TenantState) (key : PendingKey)
    (metadata : PendingMetadata) : GatewayProcess :=
  let g := g.setTenant key.stateId key.tenantId
    (tenant.setPending key.mesh ((tenant.pending key.mesh).insert key.requestId g.calls.length))
  { g with
    pendingMetadata := Function.update g.pendingMetadata key (some metadata)
    calls := g.calls ++ [{ key, metadata, registered := g.frames.length, forwarded := false,
                           channel := .waiting, ended := none }] }

/-- A call that ends: it drops its `PendingCleanup`. -/
def endCall (g : GatewayProcess) (c : Nat) (ended : CallEnd) : GatewayProcess :=
  match g.calls[c]? with
  | none => g
  | some call =>
    let g := g.cleanupPending call.key
    { g with calls := g.calls.modify c fun call => { call with ended := some ended } }

/-! ## Routing -/

/-- Whether a worker serves a capability in a cluster. -/
def serves (tenant : TenantState) (clusterId : ClusterId) (capability : CapabilityName)
    (worker : WorkerConnection) : Bool :=
  worker.clusterId = some clusterId ∧
    ((tenant.registry.resolve capability).any fun workers => workers.contains worker.key)

/-- The end of the first part of a call: it serializes the request and puts it into the queue of the
worker, or rejects it and cleans up. -/
def forward (g : GatewayProcess) (key : PendingKey) (payload : Except String String)
    (sent : Except String Unit) : GatewayProcess :=
  let c := g.calls.length - 1
  match payload, sent with
  | .error error, _ =>
    (g.cleanupPending key).endCall c
      (.rejected (.rejected key.mesh key.requestId ("serialization_failed: " ++ error)))
  | .ok _, .error error =>
    (g.cleanupPending key).endCall c
      (.rejected (.rejected key.mesh key.requestId ("forward_failed: " ++ error)))
  | .ok _, .ok () =>
    { g with calls := g.calls.modify c fun call => { call with forwarded := true } }

section

variable [Sha256] [GatewayJson]

/-- `route_request` up to its first await, when the map of workers gives `found` and the queue of
the worker answers `sent`: the response if it does not get there. -/
def routeRequest (g : GatewayProcess) (stateId : Nat) (envelope : PeerRpcEnvelope) (nowMs : UInt64)
    (found : Option WorkerConnection) (sent : Except String Unit) :
    Option PeerRpcResponse × GatewayProcess :=
  let key : PendingKey := ⟨stateId, envelope.tenantId, envelope.requestId, false⟩
  match validateRoutingEnvelope envelope nowMs with
  | some error => (some (.rejected envelope.requestId error), g)
  | none =>
    let tenant := (g.tenant stateId envelope.tenantId).getD (.new envelope.tenantId)
    let g := g.setTenant stateId envelope.tenantId tenant
    match found.filter (serves tenant envelope.clusterId envelope.capability) with
    | none =>
      (some (.rejected envelope.requestId
        ("compatible_worker_unavailable: " ++ envelope.capability.asStr)), g)
    | some worker =>
      if tenant.canRegisterPending envelope.requestId false then
        (none, (g.registerPending tenant key ⟨worker.generation, none⟩).forward key
          (GatewayJson.envelopeToString envelope) sent)
      else (some (.rejected envelope.requestId "pending_request_rejected"), g)

/-- `route_mesh_request` up to its first await. -/
def routeMeshRequest (g : GatewayProcess) (stateId : Nat) (request : MeshPeerRequest)
    (found : Option WorkerConnection) (sent : Except String Unit) :
    Option MeshPeerResponse × GatewayProcess :=
  let key : PendingKey := ⟨stateId, request.targetTenantId, request.requestId, true⟩
  match request.validateSchema with
  | .error error => (some (.rejected request.requestId (displayPeerRpcError error)), g)
  | .ok () =>
    match g.tenant stateId request.targetTenantId with
    | none => (some (.rejected request.requestId "tenant_unavailable"), g)
    | some tenant =>
      let compatible := fun worker => match request.peerEnvelope with
        | .error _ => true
        | .ok envelope => serves tenant envelope.clusterId envelope.capability worker
      match found.filter compatible with
      | none => (some (.rejected request.requestId "worker_offline"), g)
      | some worker =>
        if tenant.canRegisterPending request.requestId true then
          (none, (g.registerPending tenant key
              ⟨worker.generation, some request.maxResponseBytes⟩).forward key
            (GatewayJson.meshRequestToString request) sent)
        else (some (.rejected request.requestId "pending_request_rejected"), g)

end

/-- A poll of the `select!` that a call waits in; there is nothing to do while no branch is ready. -/
def poll (g : GatewayProcess) (c : Nat) (elapsed : Bool) : Option GatewayProcess :=
  match g.calls[c]? with
  | none => none
  | some call =>
    let reject reason :=
      g.endCall c (.rejected (.rejected call.key.mesh call.key.requestId reason))
    if call.ended ≠ none then none
    else if (g.states call.key.stateId).shutdown then some (reject "gateway_shutting_down")
    else match call.channel with
      | .sent _ response => some (g.endCall c (.answered response))
      | .closed => some (reject "worker_connection_lost")
      | .waiting => if elapsed then some (reject "worker_response_timeout") else none

/-- A call that is dropped while it waits. -/
def cancel (g : GatewayProcess) (c : Nat) : Option GatewayProcess :=
  match g.calls[c]? with
  | none => none
  | some call => if call.ended ≠ none then none else some (g.endCall c .cancelled)

/-! ## Worker frames -/

def orphanedResponse (tenantId : TenantId) (requestId : String) (mesh : Bool) : String :=
  "protocol violation: orphaned " ++ (if mesh then "worker mesh " else "worker ") ++
    "response or timeout for tenant " ++ tenantId.asStr ++ " request: " ++ requestId

/-- What `dispatch_worker_response` and `dispatch_worker_mesh_response` have in common: the metadata
decide, and the call that is registered gets the response. -/
def dispatchPending (g : GatewayProcess) (key : PendingKey) (accepts : PendingMetadata → Bool)
    (response : WorkerResponse) : Except String Unit × GatewayProcess :=
  let orphaned := Except.error (orphanedResponse key.tenantId key.requestId key.mesh)
  match g.tenant key.stateId key.tenantId with
  | none => (orphaned, g)
  | some _ =>
    if (g.pendingMetadata key).any accepts then
      match g.sender key with
      | some c => (.ok (), ((g.send c response).removePending key).removePendingMetadata key)
      | none => (orphaned, g.removePendingMetadata key)
    else (orphaned, g)

def dispatchWorkerResponse (g : GatewayProcess) (stateId : Nat) (tenantId : TenantId)
    (generation : Option UInt64) (response : PeerRpcResponse) : Except String Unit × GatewayProcess :=
  g.dispatchPending ⟨stateId, tenantId, response.requestId, false⟩
    (fun metadata => generation.all fun value => value = metadata.workerGeneration)
    (.plain response)

def dispatchWorkerMeshResponse (g : GatewayProcess) (stateId : Nat) (tenantId : TenantId)
    (generation : Option UInt64) (response : MeshPeerResponse) : Except String Unit × GatewayProcess :=
  g.dispatchPending ⟨stateId, tenantId, response.requestId, true⟩
    (fun metadata => (generation.all fun value => value = metadata.workerGeneration) ∧
      metadata.responseLimit.any fun limit =>
        response.validateForRequest response.requestId limit = .ok ())
    (.mesh response)

/-- `handle_worker_response_from` and `handle_worker_mesh_response_from`. -/
def handleWorkerFrame (g : GatewayProcess) (frame : WorkerFrame) : Except String Unit × GatewayProcess :=
  let (result, g') := match frame.response with
    | .plain response =>
      g.dispatchWorkerResponse frame.stateId frame.tenantId (some frame.generation) response
    | .mesh response =>
      g.dispatchWorkerMeshResponse frame.stateId frame.tenantId (some frame.generation) response
  (result, { g' with frames := g.frames ++ [frame] })

/-! ## Connections -/

def connectionCount (tenants : Std.ExtTreeMap String TenantState compare) : Nat :=
  tenants.foldl (fun total _ tenant => total + tenant.workers.length + tenant.clients.length) 0

/-- What `handle_worker_socket` and `handle_client_socket` ask of a state before they add a
connection, and the tenant they add it to. -/
def admission (g : GatewayProcess) (stateId : Nat) (tenantId : TenantId) : Option TenantState :=
  let tenants := (g.states stateId).tenants
  if tenants.contains tenantId.asStr = false ∧ tenants.size ≥ maxGatewayTenants then none
  else if connectionCount tenants ≥ maxGatewayConnections then none
  else some ((g.tenant stateId tenantId).getD (.new tenantId))

/-- The begin of `handle_worker_socket`: a connection of a new generation, if it is admitted. -/
def connectWorker (g : GatewayProcess) (stateId : Nat) (key : WorkerConnectionKey) (clusterId : ClusterId)
    (capabilities : List CapabilityName) (nowMs : UInt64) : Option WorkerConnection × GatewayProcess :=
  let conn : WorkerConnection :=
    { key, clusterId := some clusterId, generation := g.connectionGeneration }
  let g := { g with
    connectionGeneration := g.connectionGeneration + 1
    lastHeartbeatMs := Function.update g.lastHeartbeatMs g.connectionGeneration nowMs }
  match g.admission stateId key.tenantId with
  | none => (none, g)
  | some tenant =>
    match tenant.addWorker conn capabilities with
    | .error _ => (none, g.setTenant stateId key.tenantId tenant)
    | .ok tenant => (some conn, g.setTenant stateId key.tenantId tenant)

/-- The end of `handle_worker_socket`, and the pruner: the worker goes when it is the current one. -/
def disconnectWorker (g : GatewayProcess) (stateId : Nat) (key : WorkerConnectionKey)
    (generation : UInt64) : GatewayProcess :=
  match g.tenant stateId key.tenantId with
  | none => g
  | some tenant =>
    g.setTenant stateId key.tenantId
      (tenant.removeWorkerIfCurrent key.installationId key.coreId generation).1

/-- The begin of `handle_client_socket`. -/
def connectClient (g : GatewayProcess) (stateId : Nat) (tenantId : TenantId) (connectionId : String) :
    GatewayProcess :=
  match g.admission stateId tenantId with
  | none => g
  | some tenant =>
    match tenant.tryAddClient connectionId with
    | .error _ => g.setTenant stateId tenantId tenant
    | .ok tenant => g.setTenant stateId tenantId tenant

/-- The end of `handle_client_socket`, before it drops its tasks. -/
def disconnectClient (g : GatewayProcess) (stateId : Nat) (tenantId : TenantId) (connectionId : String) :
    GatewayProcess :=
  match g.tenant stateId tenantId with
  | none => g
  | some tenant => g.setTenant stateId tenantId (tenant.removeClient connectionId)

def requestShutdown (g : GatewayProcess) (stateId : Nat) : GatewayProcess :=
  { g with states := Function.update g.states stateId { g.states stateId with shutdown := true } }

/-- A state that nobody holds any more is dropped, and another one made at its address. -/
def renew (g : GatewayProcess) (stateId : Nat) : GatewayProcess :=
  { g with states := Function.update g.states stateId { tenants := ∅, shutdown := false } }

end GatewayProcess

/-! ## Steps -/

/-- What a task does between two awaits. -/
inductive GatewayStep where
  | request (stateId : Nat) (envelope : PeerRpcEnvelope) (nowMs : UInt64)
      (found : Option WorkerConnection) (sent : Except String Unit)
  | meshRequest (stateId : Nat) (request : MeshPeerRequest) (found : Option WorkerConnection)
      (sent : Except String Unit)
  | poll (call : Nat) (elapsed : Bool)
  | cancel (call : Nat)
  | frame (frame : WorkerFrame)
  | connectWorker (stateId : Nat) (key : WorkerConnectionKey) (clusterId : ClusterId)
      (capabilities : List CapabilityName) (nowMs : UInt64)
  | disconnectWorker (stateId : Nat) (key : WorkerConnectionKey) (generation : UInt64)
  | connectClient (stateId : Nat) (tenantId : TenantId) (connectionId : String)
  | disconnectClient (stateId : Nat) (tenantId : TenantId) (connectionId : String)
  | shutdown (stateId : Nat)
  | renew (stateId : Nat)

def GatewayStep.arrived : GatewayStep → Option WorkerFrame
  | .frame received => some received
  | _ => none

/-- The key of the call that a step makes. -/
def GatewayStep.key : GatewayStep → Option PendingKey
  | .request stateId envelope .. => some ⟨stateId, envelope.tenantId, envelope.requestId, false⟩
  | .meshRequest stateId relayed .. =>
    some ⟨stateId, relayed.targetTenantId, relayed.requestId, true⟩
  | _ => none

namespace GatewayProcess

/-- Whether the map of workers may give `found`. -/
def Finds (g : GatewayProcess) (stateId : Nat) (tenantId : TenantId) (coreId : CoreId)
    (found : Option WorkerConnection) : Prop :=
  ((g.tenant stateId tenantId).getD (.new tenantId)).FindsWorkerByCore coreId found

instance decidableFinds (g : GatewayProcess) (stateId : Nat) (tenantId : TenantId) (coreId : CoreId)
    (found : Option WorkerConnection) : Decidable (g.Finds stateId tenantId coreId found) :=
  TenantState.decidableFindsWorkerByCore _ coreId found

/-- One step; there is none when the map has another worker, when no branch of a call is ready, or
when a call still holds the state. -/
def step [Sha256] [GatewayJson] (g : GatewayProcess) : GatewayStep → Option GatewayProcess
  | .request stateId envelope nowMs found sent =>
    if g.Finds stateId envelope.tenantId envelope.targetCoreId found then
      some (g.routeRequest stateId envelope nowMs found sent).2
    else none
  | .meshRequest stateId request found sent =>
    if g.Finds stateId request.targetTenantId request.targetCoreId found then
      some (g.routeMeshRequest stateId request found sent).2
    else none
  | .poll c elapsed => g.poll c elapsed
  | .cancel c => g.cancel c
  | .frame frame => some (g.handleWorkerFrame frame).2
  | .connectWorker stateId key clusterId capabilities nowMs =>
    some (g.connectWorker stateId key clusterId capabilities nowMs).2
  | .disconnectWorker stateId key generation => some (g.disconnectWorker stateId key generation)
  | .connectClient stateId tenantId connectionId =>
    some (g.connectClient stateId tenantId connectionId)
  | .disconnectClient stateId tenantId connectionId =>
    some (g.disconnectClient stateId tenantId connectionId)
  | .shutdown stateId => some (g.requestShutdown stateId)
  | .renew stateId =>
    if g.calls.all fun call => call.key.stateId ≠ stateId ∨ call.ended ≠ none then
      some (g.renew stateId)
    else none

end GatewayProcess

end AppCore.Gateway
