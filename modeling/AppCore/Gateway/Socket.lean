import AppCore.Gateway.Cleanup

/-!
# The socket of a worker

`handle_worker_socket` of `socket.rs` reads the frames of one worker, and its loop ends with the
first one that `handle_worker_message` does not accept. The worker here is well behaved: it sends
heartbeats, and for each request that it was forwarded one answer. The clients, and the other
workers, do what they like.

* `worker_stays` — as long as no call ends under a key for which the worker still owes an answer, the
  loop goes on and the worker stays registered.
-/

namespace AppCore.Gateway

/-! ## The loop -/

/-- A message of a socket. -/
inductive WsMessage where
  | text (text : String)
  | binary
  | ping
  | pong
  | close

def isHeartbeat [GatewayJson] (text : String) : Bool := GatewayJson.heartbeatKind text = some "heartbeat"

namespace GatewayProcess

def updateHeartbeat (g : GatewayProcess) (conn : WorkerConnection) (nowMs : UInt64) :
    GatewayProcess :=
  { g with lastHeartbeatMs := Function.update g.lastHeartbeatMs conn.generation nowMs }

/-- `is_ok` of what a frame is answered with. -/
def accepted (result : Except String Unit × GatewayProcess) : Bool × GatewayProcess :=
  (match result.1 with
    | .ok () => true
    | .error _ => false, result.2)

/-- `handle_worker_message`, when the queue of the worker answers `pong` to a pong. -/
def handleWorkerMessage [GatewayJson] (g : GatewayProcess) (stateId : Nat) (tenantId : TenantId)
    (conn : WorkerConnection) (nowMs : UInt64) (pong : Except String Unit) :
    WsMessage → Bool × GatewayProcess
  | .text text =>
    if (strBytes text).length ≤ maxGatewayMessageBytes then
      if isHeartbeat text then (true, g.updateHeartbeat conn nowMs)
      else match GatewayJson.meshResponseFromStr text with
        | some response => accepted ((g.updateHeartbeat conn nowMs).handleWorkerFrame
            ⟨stateId, tenantId, conn.generation, .mesh response⟩)
        | none => match GatewayJson.responseFromStr text with
            | some response => accepted ((g.updateHeartbeat conn nowMs).handleWorkerFrame
                ⟨stateId, tenantId, conn.generation, .plain response⟩)
            | none => (false, g)
    else (false, g)
  | .ping => accepted (pong, g.updateHeartbeat conn nowMs)
  | .pong => (true, g.updateHeartbeat conn nowMs)
  | .close => (false, g)
  | .binary => (false, g)

/-- The worker of an installation and a core. -/
def worker (g : GatewayProcess) (stateId : Nat) (key : WorkerConnectionKey) :
    Option WorkerConnection :=
  (g.tenant stateId key.tenantId).bind fun tenant => tenant.getWorker key.installationId key.coreId

end GatewayProcess

/-! ## A well-behaved worker -/

/-- `WorkerSocketContext`, and the gateway state that the socket belongs to. -/
structure WorkerSocketContext where
  stateId : Nat
  key : WorkerConnectionKey
  clusterId : ClusterId
  capabilities : List CapabilityName

/-- Where `handle_worker_socket` is; the loop runs for a connection, and there were `calls` calls
when it began. -/
inductive SocketLoop where
  | connecting
  | running (conn : WorkerConnection) (calls : Nat)
  | ended

/-- The process, the loop of the worker, and the calls it has answered. -/
structure WorkerSocket where
  process : GatewayProcess
  loop : SocketLoop
  answered : List Nat

/-- A step of the others, or a connection, a heartbeat or an answer of the worker. -/
inductive SocketStep where
  | gateway (st : GatewayStep)
  | connected (nowMs : UInt64)
  | heartbeat (text : String) (nowMs : UInt64)
  | answer (call : Nat) (text : String) (nowMs : UInt64)

namespace WorkerSocket

/-- Nothing has happened. -/
def new : WorkerSocket := { process := .new, loop := .connecting, answered := [] }

/-- Whether a call is for this worker: its request was forwarded over the connection of the loop. -/
def forwardedTo (context : WorkerSocketContext) (conn : WorkerConnection) (calls c : Nat)
    (call : Call) : Bool :=
  calls ≤ c ∧ call.forwarded = true ∧ call.metadata.workerGeneration = conn.generation ∧
    call.key.stateId = context.stateId ∧ call.key.tenantId = context.key.tenantId

/-- The worker owes an answer to a call. -/
def Outstanding (context : WorkerSocketContext) (s : WorkerSocket) (c : Nat) (call : Call) : Prop :=
  ∃ conn calls, s.loop = .running conn calls ∧ s.process.calls[c]? = some call ∧
    forwardedTo context conn calls c call = true ∧ c ∉ s.answered

/-- Whether a text answers a call: within the size limits, of the kind of the call and with its
id. -/
def answers [GatewayJson] (text : String) (call : Call) : Bool :=
  (strBytes text).length ≤ maxGatewayMessageBytes && !isHeartbeat text &&
    if call.key.mesh then
      (GatewayJson.meshResponseFromStr text).any fun response =>
        response.requestId = call.key.requestId ∧ response.schema = meshHttpSchemaV1 ∧
          call.metadata.responseLimit.any fun limit => response.body.length ≤ limit
    else
      (GatewayJson.meshResponseFromStr text).isNone &&
        (GatewayJson.responseFromStr text).any fun response =>
          response.requestId = call.key.requestId

/-- Whether a step is one of somebody else: not a frame of this connection, nor the end or a second
begin of a connection of this worker, and no state is dropped that its loop holds. -/
def foreign (context : WorkerSocketContext) (s : WorkerSocket) : GatewayStep → Bool
  | .frame frame =>
    match s.loop with
    | .running conn _ => frame.generation ≠ conn.generation
    | _ => true
  | .connectWorker stateId key _ _ _ => ¬ (stateId = context.stateId ∧ key = context.key)
  | .disconnectWorker stateId key _ => ¬ (stateId = context.stateId ∧ key = context.key)
  | .renew stateId => stateId ≠ context.stateId
  | _ => true

/-- What the loop does with a message. -/
def receive [GatewayJson] (context : WorkerSocketContext) (s : WorkerSocket)
    (conn : WorkerConnection) (nowMs : UInt64) (message : WsMessage) : WorkerSocket :=
  match s.process.handleWorkerMessage context.stateId context.key.tenantId conn nowMs (.ok ())
    message with
  | (true, process) => { s with process }
  | (false, process) =>
    { s with process := process.disconnectWorker context.stateId context.key conn.generation,
             loop := .ended }

/-- One step; there is none when the worker would send what a well-behaved one does not. -/
def step [Sha256] [GatewayJson] (context : WorkerSocketContext) (s : WorkerSocket) :
    SocketStep → Option WorkerSocket
  | .gateway st =>
    if s.foreign context st then (s.process.step st).map fun process => { s with process }
    else none
  | .connected nowMs =>
    match s.loop with
    | .connecting =>
      match s.process.connectWorker context.stateId context.key context.clusterId
        context.capabilities nowMs with
      | (some conn, process) =>
        some { s with process, loop := .running conn s.process.calls.length }
      | (none, process) => some { s with process }
    | _ => none
  | .heartbeat text nowMs =>
    match s.loop with
    | .running conn _ =>
      if (strBytes text).length ≤ maxGatewayMessageBytes && isHeartbeat text then
        some (s.receive context conn nowMs (.text text))
      else none
    | _ => none
  | .answer c text nowMs =>
    match s.loop, s.process.calls[c]? with
    | .running conn calls, some call =>
      if forwardedTo context conn calls c call && !s.answered.contains c && answers text call then
        some { s.receive context conn nowMs (.text text) with answered := c :: s.answered }
      else none
    | _, _ => none

/-- The loop goes on, and while it runs the worker is registered with its connection. -/
structure Stays (context : WorkerSocketContext) (s : WorkerSocket) : Prop where
  loop : s.loop ≠ .ended
  worker : ∀ conn calls, s.loop = .running conn calls →
    s.process.worker context.stateId context.key = some conn

/-- A call ends only when the worker owes no answer under its key. -/
def LetsAnswer (context : WorkerSocketContext) (s : WorkerSocket) (st : SocketStep) : Prop :=
  ∀ (c : Nat) (call : Call),
    (st = .gateway (.cancel c) ∨ ∃ elapsed, st = .gateway (.poll c elapsed)) →
    s.process.calls[c]? = some call →
    ∀ (c' : Nat) (call' : Call), s.Outstanding context c' call' → call'.key ≠ call.key

end WorkerSocket

/-! ## Who is registered -/

namespace GatewayProcess

variable {g g' : GatewayProcess} {s : Nat} {key : WorkerConnectionKey}

variable {stateId : Nat} {tenant : TenantState}

theorem worker_setTenant {tenantId : TenantId} :
    (g.setTenant stateId tenantId tenant).worker s key =
      if stateId = s ∧ tenantId = key.tenantId then tenant.getWorker key.installationId key.coreId
      else g.worker s key := by
  unfold worker
  rw [tenant_setTenant]
  split
  · rfl
  · rfl

theorem worker_setTenant_of_workers {tenantId : TenantId}
    (h : tenant.workers = ((g.tenant stateId tenantId).getD (.new tenantId)).workers) :
    (g.setTenant stateId tenantId tenant).worker s key = g.worker s key := by
  rw [worker_setTenant]
  split
  next heq =>
    obtain ⟨rfl, rfl⟩ := heq
    unfold worker TenantState.getWorker
    rw [h]
    cases g.tenant stateId key.tenantId <;> rfl
  next => rfl

@[simp] theorem worker_removePending (k : PendingKey) :
    (g.removePending k).worker s key = g.worker s key := by
  unfold removePending
  split
  · rfl
  next tenant htenant =>
    exact worker_setTenant_of_workers (by rw [TenantState.workers_setPending, htenant]; rfl)

@[simp] theorem worker_cleanupPending (k : PendingKey) :
    (g.cleanupPending k).worker s key = g.worker s key := by
  change ((g.dropSender (g.sender k)).removePending k).worker s key = _
  rw [worker_removePending]
  cases g.sender k <;> rfl

@[simp] theorem worker_endCall (c : Nat) (ended : CallEnd) :
    (g.endCall c ended).worker s key = g.worker s key := by
  unfold endCall
  split
  · rfl
  · exact worker_cleanupPending _

theorem worker_registerPending {k : PendingKey} {metadata : PendingMetadata}
    (htenant : (g.tenant k.stateId k.tenantId).getD (.new k.tenantId) = tenant) :
    (g.registerPending tenant k metadata).worker s key = g.worker s key := by
  refine worker_setTenant_of_workers ?_
  rw [TenantState.workers_setPending, htenant]

@[simp] theorem worker_forward (k : PendingKey) (payload : Except String String)
    (sent : Except String Unit) : (g.forward k payload sent).worker s key = g.worker s key := by
  unfold forward
  cases payload with
  | error error => simp
  | ok text =>
    cases sent with
    | error error => simp
    | ok u => rfl

theorem worker_handleWorkerFrame (frame : WorkerFrame) :
    (g.handleWorkerFrame frame).2.worker s key = g.worker s key := by
  have hdispatch : ∀ (k : PendingKey) (accepts : PendingMetadata → Bool) (response : WorkerResponse),
      (g.dispatchPending k accepts response).2.worker s key = g.worker s key := by
    intro k accepts response
    unfold dispatchPending
    dsimp only
    split
    · rfl
    · split
      · split
        next c _ => exact worker_removePending (g := g.send c response) k
        · rfl
      · rfl
  obtain ⟨stateId, tenantId, generation, response⟩ := frame
  cases response with
  | plain response => exact hdispatch _ _ _
  | mesh response => exact hdispatch _ _ _

theorem worker_routeRequest [Sha256] [GatewayJson] (stateId : Nat)
    (envelope : PeerRpc.PeerRpcEnvelope) (nowMs : UInt64) (found : Option WorkerConnection)
    (sent : Except String Unit) :
    (g.routeRequest stateId envelope nowMs found sent).2.worker s key = g.worker s key := by
  have hset : (g.setTenant stateId envelope.tenantId
      ((g.tenant stateId envelope.tenantId).getD (.new envelope.tenantId))).worker s key =
      g.worker s key := worker_setTenant_of_workers rfl
  unfold routeRequest
  dsimp only
  split
  · rfl
  · split
    · exact hset
    · split
      · rw [worker_forward, worker_registerPending]
        · exact hset
        · rw [tenant_setTenant, if_pos ⟨rfl, rfl⟩, Option.getD_some]
      · exact hset

theorem worker_routeMeshRequest [Sha256] [GatewayJson] (stateId : Nat) (request : MeshPeerRequest)
    (found : Option WorkerConnection) (sent : Except String Unit) :
    (g.routeMeshRequest stateId request found sent).2.worker s key = g.worker s key := by
  unfold routeMeshRequest
  dsimp only
  split
  · rfl
  · split
    · rfl
    next tenant htenant =>
      split
      · rfl
      · split
        · rw [worker_forward, worker_registerPending]
          rw [htenant, Option.getD_some]
        · rfl

/-- A worker of another installation or core is not found under the key. -/
theorem find?_workersBut {installationId : InstallationId} {coreId : CoreId}
    (hne : ¬ (installationId = key.installationId ∧ coreId = key.coreId)) :
    (tenant.workersBut installationId coreId).find? (fun worker =>
      worker.key.installationId = key.installationId ∧ worker.key.coreId = key.coreId) =
      tenant.getWorker key.installationId key.coreId := by
  unfold TenantState.workersBut TenantState.getWorker
  rw [List.find?_filter]
  congr 1
  funext worker
  by_cases h : worker.key.installationId = key.installationId ∧ worker.key.coreId = key.coreId
  · obtain ⟨hi, hc⟩ := h
    have hne' : ¬ (key.installationId = installationId ∧ key.coreId = coreId) :=
      fun heq => hne ⟨heq.1.symm, heq.2.symm⟩
    rw [hi, hc, decide_eq_true hne']
    simp
  · simp [h]

variable {capabilities : List CapabilityName}

theorem getWorker_addWorker (key : WorkerConnectionKey) {tenant tenant' : TenantState}
    {conn : WorkerConnection} (h : tenant.addWorker conn capabilities = .ok tenant') :
    tenant'.getWorker conn.key.installationId conn.key.coreId = some conn ∧
      (¬ (conn.key.installationId = key.installationId ∧ conn.key.coreId = key.coreId) →
        tenant'.getWorker key.installationId key.coreId =
          tenant.getWorker key.installationId key.coreId) := by
  unfold TenantState.addWorker at h
  dsimp only at h
  split at h
  · cases h
  · cases h
    refine ⟨?_, fun hne => ?_⟩
    · simp [TenantState.getWorker]
    · rw [TenantState.getWorker, List.find?_cons_of_neg (by simpa using hne)]
      exact find?_workersBut hne

theorem worker_connectWorker {key' : WorkerConnectionKey} {clusterId : ClusterId} {nowMs : UInt64}
    (hne : ¬ (stateId = s ∧ key' = key)) :
    (g.connectWorker stateId key' clusterId capabilities nowMs).2.worker s key = g.worker s key := by
  unfold connectWorker
  dsimp only
  split
  · rfl
  next tenant hadmission =>
    have htenant := admission_eq_some hadmission
    split
    · exact (worker_setTenant_of_workers (by rw [htenant])).trans rfl
    next tenant' hadd =>
      rw [worker_setTenant]
      split
      next heq =>
        -- the same tenant, another installation or core
        obtain ⟨rfl, htenantId⟩ := heq
        have hother : ¬ (key'.installationId = key.installationId ∧ key'.coreId = key.coreId) := by
          intro hsame
          refine hne ⟨rfl, ?_⟩
          cases key'
          cases key
          simp_all
        rw [(getWorker_addWorker key hadd).2 hother, htenant, worker]
        change _ = (g.tenant stateId key.tenantId).bind _
        rw [← htenantId]
        change ((g.tenant stateId key'.tenantId).getD _).getWorker _ _ = _
        cases g.tenant stateId key'.tenantId <;> rfl
      next => rfl

theorem worker_of_connectWorker {clusterId : ClusterId} {nowMs : UInt64} {conn : WorkerConnection}
    (h : g.connectWorker s key clusterId capabilities nowMs = (some conn, g')) :
    g'.worker s key = some conn := by
  unfold connectWorker at h
  dsimp only at h
  split at h
  · cases h
  · split at h
    · cases h
    next tenant' hadd =>
      cases h
      rw [worker_setTenant, if_pos ⟨rfl, rfl⟩]
      exact (getWorker_addWorker key hadd).1

theorem worker_disconnectWorker {key' : WorkerConnectionKey} {generation : UInt64}
    (hne : ¬ (stateId = s ∧ key' = key)) :
    (g.disconnectWorker stateId key' generation).worker s key = g.worker s key := by
  unfold disconnectWorker
  split
  · rfl
  next tenant htenant =>
    rw [worker_setTenant]
    split
    next heq =>
      obtain ⟨rfl, htenantId⟩ := heq
      have hother : ¬ (key'.installationId = key.installationId ∧ key'.coreId = key.coreId) := by
        intro hsame
        refine hne ⟨rfl, ?_⟩
        cases key'
        cases key
        simp_all
      have hworker : g.worker stateId key = tenant.getWorker key.installationId key.coreId := by
        rw [worker, ← htenantId, htenant, Option.bind_some]
      rw [hworker]
      unfold TenantState.removeWorkerIfCurrent TenantState.removeWorker
      split
      · split
        · rfl
        · exact find?_workersBut hother
      · rfl
    next => rfl

theorem worker_connectClient (stateId : Nat) (tenantId : TenantId) (connectionId : String) :
    (g.connectClient stateId tenantId connectionId).worker s key = g.worker s key := by
  unfold connectClient
  split
  · rfl
  next tenant hadmission =>
    have htenant := admission_eq_some hadmission
    split
    · exact worker_setTenant_of_workers (by rw [htenant])
    next tenant' hadd =>
      refine worker_setTenant_of_workers ?_
      unfold TenantState.tryAddClient at hadd
      split at hadd
      · cases hadd
      · cases hadd
        rw [htenant]

theorem worker_disconnectClient (stateId : Nat) (tenantId : TenantId) (connectionId : String) :
    (g.disconnectClient stateId tenantId connectionId).worker s key = g.worker s key := by
  unfold disconnectClient
  split
  · rfl
  next tenant htenant =>
    exact worker_setTenant_of_workers (by rw [htenant]; rfl)

theorem worker_renew (hne : stateId ≠ s) :
    (g.renew stateId).worker s key = g.worker s key := by
  simp [worker, tenant, renew, Function.update_of_ne (Ne.symm hne)]

theorem worker_requestShutdown (stateId : Nat) :
    (g.requestShutdown stateId).worker s key = g.worker s key := by
  unfold worker tenant requestShutdown
  by_cases h : stateId = s
  · subst h
    simp
  · simp [Function.update_of_ne (Ne.symm h)]

end GatewayProcess

namespace WorkerSocket

open GatewayProcess

variable {context : WorkerSocketContext} {s s' : WorkerSocket} {process : GatewayProcess}

/-- No step of the others removes the worker. -/
theorem worker_of_foreign [Sha256] [GatewayJson] {st : GatewayStep}
    (hforeign : s.foreign context st = true) (hstep : s.process.step st = some process) :
    process.worker context.stateId context.key = s.process.worker context.stateId context.key := by
  cases st with
  | request stateId envelope nowMs found sent =>
    simp only [GatewayProcess.step] at hstep
    split at hstep
    · cases hstep
      exact worker_routeRequest stateId envelope nowMs found sent
    · cases hstep
  | meshRequest stateId request found sent =>
    simp only [GatewayProcess.step] at hstep
    split at hstep
    · cases hstep
      exact worker_routeMeshRequest stateId request found sent
    · cases hstep
  | poll c elapsed =>
    simp only [GatewayProcess.step, poll] at hstep
    repeat' split at hstep
    all_goals cases hstep
    all_goals exact worker_endCall c _
  | cancel c =>
    simp only [GatewayProcess.step, cancel] at hstep
    repeat' split at hstep
    all_goals cases hstep
    exact worker_endCall c _
  | frame frame =>
    cases hstep
    exact worker_handleWorkerFrame frame
  | connectWorker stateId key clusterId capabilities nowMs =>
    cases hstep
    exact worker_connectWorker (of_decide_eq_true hforeign)
  | disconnectWorker stateId key generation =>
    cases hstep
    exact worker_disconnectWorker (of_decide_eq_true hforeign)
  | connectClient stateId tenantId connectionId =>
    cases hstep
    exact worker_connectClient stateId tenantId connectionId
  | disconnectClient stateId tenantId connectionId =>
    cases hstep
    exact worker_disconnectClient stateId tenantId connectionId
  | shutdown stateId =>
    cases hstep
    exact worker_requestShutdown stateId
  | renew stateId =>
    simp only [GatewayProcess.step] at hstep
    split at hstep
    · cases hstep
      exact worker_renew (of_decide_eq_true hforeign)
    · cases hstep

end WorkerSocket

/-! ## Who is owed an answer -/

/-- A call with the request it was made for. -/
structure SameRequest (call call' : Call) : Prop where
  key : call'.key = call.key
  metadata : call'.metadata = call.metadata
  forwarded : call'.forwarded = call.forwarded

theorem Call.sameRequest_put (channel : Channel) (call : Call) :
    SameRequest call (call.put channel) :=
  ⟨GatewayProcess.Call.put_key channel call, GatewayProcess.Call.put_metadata channel call,
    GatewayProcess.Call.put_forwarded channel call⟩

namespace GatewayProcess

variable {g g' : GatewayProcess}

variable {c : Nat}

/-- After a step each call is one from before it, or it is new: when it is forwarded then, it is
registered. -/
theorem calls_of_effect {st : GatewayStep} (heffect : Effect g st g') {call' : Call}
    (hc : g'.calls[c]? = some call') :
    (∃ call, g.calls[c]? = some call ∧ SameRequest call call') ∨
      (call'.forwarded = true → g'.sender call'.key = some c) := by
  cases heffect with
  | quiet _ _ _ hquiet =>
    rw [hquiet.calls] at hc
    exact Or.inl ⟨call', hc, rfl, rfl, rfl⟩
  | registered _ key _ g₁ hquiet tenant htenant _ metadata payload sent =>
    obtain ⟨hlt, hgt, -, new, hnew, hkey, -, -, hforwarded⟩ :=
      forward_cases metadata payload sent htenant _ rfl
    rcases Nat.lt_trichotomy c g₁.calls.length with hlength | hlength | hlength
    · rw [hlt c hlength, hquiet.calls] at hc
      exact Or.inl ⟨call', hc, rfl, rfl, rfl⟩
    · subst hlength
      rw [hnew, Option.some.injEq] at hc
      subst hc
      rw [hkey]
      exact Or.inr hforwarded
    · rw [hgt c hlength] at hc
      cases hc
  | ended _ i _ call hcall _ ended _ _ =>
    rw [getElem?_endCall hcall, cleanupPending_calls, getElem?_dropSender, Option.map_map,
      Option.map_eq_some_iff] at hc
    obtain ⟨before, hbefore, rfl⟩ := hc
    refine Or.inl ⟨before, hbefore, ?_⟩
    have hput := Call.sameRequest_put .closed before
    dsimp only [Function.comp_apply]
    split
    · split
      · exact ⟨hput.key, hput.metadata, hput.forwarded⟩
      · exact ⟨rfl, rfl, rfl⟩
    · split
      · exact hput
      · exact ⟨rfl, rfl, rfl⟩
  | orphaned frame => exact Or.inl ⟨call', hc, rfl, rfl, rfl⟩
  | forgotten frame _ => exact Or.inl ⟨call', hc, rfl, rfl, rfl⟩
  | delivered frame i _ _ =>
    change ((g.send i frame.response).removePending frame.key).calls[c]? = some call' at hc
    rw [removePending_calls] at hc
    change (g.calls.modify _ _)[c]? = some call' at hc
    rw [getElem?_modify, Option.map_eq_some_iff] at hc
    obtain ⟨before, hbefore, rfl⟩ := hc
    refine Or.inl ⟨before, hbefore, ?_⟩
    split
    · exact Call.sameRequest_put _ before
    · exact ⟨rfl, rfl, rfl⟩
  | renewed stateId _ => exact Or.inl ⟨call', hc, rfl, rfl, rfl⟩

theorem generation_of_delivered (h : Routed g') {frame : WorkerFrame} {call : Call}
    (hframes : g'.frames = g.frames ++ [frame]) (hc : g'.calls[c]? = some call)
    (hchannel : call.channel = .sent g.frames.length frame.response) :
    frame.generation = call.metadata.workerGeneration := by
  obtain ⟨arrived, harrived, -, -, -, hgeneration⟩ := (h.belongs c call _ _ hc hchannel).frame
  rw [hframes, List.getElem?_concat_length, Option.some.injEq] at harrived
  rw [harrived]
  exact hgeneration

theorem dispatchPending_ok {key : PendingKey} {c : Nat} (hc : g.sender key = some c)
    {metadata : PendingMetadata} (hmetadata : g.pendingMetadata key = some metadata)
    {accepts : PendingMetadata → Bool} (haccepts : accepts metadata = true)
    (response : WorkerResponse) : (g.dispatchPending key accepts response).1 = .ok () := by
  unfold dispatchPending
  dsimp only
  split
  next hnone =>
    rw [sender, hnone, Option.bind_none] at hc
    cases hc
  · rw [hmetadata, Option.any_some, if_pos haccepts, hc]

theorem accepted_of_ok {result : Except String Unit × GatewayProcess} (h : result.1 = .ok ()) :
    accepted result = (true, result.2) := by
  unfold accepted
  rw [h]

/-- An answer to a call that is registered for the connection is accepted. -/
theorem handleWorkerMessage_answer [GatewayJson] {call : Call} {conn : WorkerConnection}
    (hc : g.sender call.key = some c) (hmetadata : g.pendingMetadata call.key = some call.metadata)
    (hgeneration : call.metadata.workerGeneration = conn.generation) {text : String}
    (hanswers : WorkerSocket.answers text call = true) (nowMs : UInt64) (pong : Except String Unit) :
    
    ∃ frame : WorkerFrame, frame.key = call.key ∧
      g.handleWorkerMessage call.key.stateId call.key.tenantId conn nowMs pong (.text text) =
        (true, ((g.updateHeartbeat conn nowMs).handleWorkerFrame frame).2) := by
  unfold WorkerSocket.answers at hanswers
  rw [Bool.and_eq_true, Bool.and_eq_true, Bool.not_eq_true'] at hanswers
  obtain ⟨⟨hsize, hheartbeat⟩, hresponse⟩ := hanswers
  obtain ⟨key, metadata, registered, forwarded, channel, ended⟩ := call
  obtain ⟨stateId, tenantId, requestId, mesh⟩ := key
  unfold handleWorkerMessage
  dsimp only at hgeneration hc hmetadata hresponse ⊢
  rw [if_pos (of_decide_eq_true hsize), hheartbeat, if_neg Bool.false_ne_true]
  cases mesh with
  | true =>
    rw [if_pos rfl, Option.any_eq_true] at hresponse
    obtain ⟨response, hparsed, hvalid⟩ := hresponse
    obtain ⟨rfl, hschema, hlimit⟩ := of_decide_eq_true hvalid
    obtain ⟨limit, hlimit, hbody⟩ := (Option.any_eq_true _ _).1 hlimit
    refine ⟨⟨stateId, tenantId, conn.generation, .mesh response⟩, rfl, ?_⟩
    have hcheck : response.validateForRequest response.requestId limit = .ok () := by
      unfold MeshPeerResponse.validateForRequest
      rw [if_neg (by simp [hschema]), if_neg (Nat.not_lt.2 (of_decide_eq_true hbody))]
    rw [hparsed]
    refine accepted_of_ok ?_
    unfold handleWorkerFrame dispatchWorkerMeshResponse
    dsimp only
    refine @dispatchPending_ok (g.updateHeartbeat conn nowMs) _ _ hc _ hmetadata _ ?_ _
    simp [hgeneration, hlimit, hcheck]
  | false =>
    rw [if_neg Bool.false_ne_true, Bool.and_eq_true, Option.any_eq_true] at hresponse
    obtain ⟨hnone, response, hparsed, hid⟩ := hresponse
    obtain rfl := of_decide_eq_true hid
    refine ⟨⟨stateId, tenantId, conn.generation, .plain response⟩, rfl, ?_⟩
    rw [Option.isNone_iff_eq_none.1 hnone, hparsed]
    refine accepted_of_ok ?_
    unfold handleWorkerFrame dispatchWorkerResponse
    dsimp only
    refine @dispatchPending_ok (g.updateHeartbeat conn nowMs) _ _ hc _ hmetadata _ ?_ _
    simp [hgeneration]

end GatewayProcess

namespace WorkerSocket

open GatewayProcess

variable {context : WorkerSocketContext} {s s' : WorkerSocket}

/-- The worker stays, and each call it owes an answer is registered. -/
structure Owing (context : WorkerSocketContext) (s : WorkerSocket) : Prop where
  routed : Routed s.process
  stays : Stays context s
  owed : ∀ (c : Nat) (call : Call), s.Outstanding context c call →
    s.process.sender call.key = some c

variable {conn : WorkerConnection} {calls c : Nat}

theorem forwardedTo_iff {call : Call} :
    forwardedTo context conn calls c call = true ↔
      calls ≤ c ∧ call.forwarded = true ∧ call.metadata.workerGeneration = conn.generation ∧
        call.key.stateId = context.stateId ∧ call.key.tenantId = context.key.tenantId :=
  decide_eq_true_iff

theorem forwardedTo_of_sameRequest {call call' : Call} (h : SameRequest call call') :
    forwardedTo context conn calls c call' = forwardedTo context conn calls c call := by
  rw [Bool.eq_iff_iff, forwardedTo_iff, forwardedTo_iff, h.key, h.metadata, h.forwarded]

/-- What a step of the process leaves owed, when it delivers to nobody and ends nobody that is owed
an answer. -/
theorem Owing.of_effect (h : Owing context s) {st : GatewayStep}
    (heffect : Effect s.process st s'.process) (hloop : s'.loop = s.loop)
    (hanswered : ∀ c, c ∈ s.answered → c ∈ s'.answered)
    (hworker : s'.process.worker context.stateId context.key =
      s.process.worker context.stateId context.key)
    (hends : ∀ (c : Nat) (call : Call), (st = .cancel c ∨ ∃ elapsed, st = .poll c elapsed) →
      s.process.calls[c]? = some call →
      ∀ (c' : Nat) (call' : Call), s.Outstanding context c' call' → call'.key ≠ call.key)
    (hframe : ∀ (frame : WorkerFrame), st = .frame frame →
      ∀ (c : Nat) (call call' : Call), s.Outstanding context c call → c ∉ s'.answered →
        SameRequest call call' → frame.key = call.key → s'.process.calls[c]? = some call' →
        call'.channel ≠ .sent s.process.frames.length frame.response) : Owing context s' where
  routed := routed_step h.routed heffect
  stays := {
    loop := hloop ▸ h.stays.loop
    worker := fun conn calls hrunning => hworker.trans (h.stays.worker conn calls (hloop ▸ hrunning)) }
  owed c call' hout := by
    obtain ⟨conn, calls, hrunning, hcall', hfor, hfresh⟩ := hout
    rcases calls_of_effect heffect hcall' with hold | hnew
    · obtain ⟨call, hcall, hsame⟩ := hold
      have hbefore : s.Outstanding context c call :=
        ⟨conn, calls, hloop ▸ hrunning, hcall, (forwardedTo_of_sameRequest hsame).symm.trans hfor,
          fun hc => hfresh (hanswered c hc)⟩
      rcases sender_of_effect h.routed heffect (h.owed c call hbefore) with hstays | hend | hsent
      · rw [hsame.key]
        exact hstays
      · obtain ⟨c', other, hst, hother, hkey, -⟩ := hend
        exact absurd hkey.symm (hends c' other hst hother c call hbefore)
      · obtain ⟨frame, found, hst, hkey, hfound, hchannel⟩ := hsent
        rw [hcall', Option.some.injEq] at hfound
        subst hfound
        exact absurd hchannel (hframe frame hst c call call' hbefore hfresh hsame hkey hcall')
    · exact hnew (forwardedTo_iff.1 hfor).2.1

theorem Owing.heartbeat (h : Owing context s) (conn : WorkerConnection) (nowMs : UInt64) :
    Owing context { s with process := s.process.updateHeartbeat conn nowMs } :=
  ⟨h.routed.of_same (fun _ => rfl) rfl rfl rfl, ⟨h.stays.loop, h.stays.worker⟩, h.owed⟩

/-- A step of the others delivers nothing over the connection of the worker. -/
theorem Owing.gateway [Sha256] [GatewayJson] (h : Owing context s) {st : GatewayStep}
    (hlets : s.LetsAnswer context (.gateway st)) (hforeign : s.foreign context st = true)
    {process : GatewayProcess} (hstep : s.process.step st = some process) :
    Owing context { s with process } := by
  have heffect : Effect s.process st ({ s with process } : WorkerSocket).process :=
    effect_of_step hstep
  refine h.of_effect heffect rfl (fun _ hc => hc)
    (worker_of_foreign hforeign hstep) ?_ ?_
  · intro c call hst hcall
    refine hlets c call ?_ hcall
    rcases hst with rfl | ⟨elapsed, rfl⟩
    · exact Or.inl rfl
    · exact Or.inr ⟨elapsed, rfl⟩
  · intro frame hst c call call' hout _ hsame _ hcall' hchannel
    subst hst
    obtain ⟨conn, calls, hrunning, -, hfor, -⟩ := hout
    have hgeneration : frame.generation = call'.metadata.workerGeneration :=
      generation_of_delivered (routed_step h.routed heffect) (frames_of_effect heffect) hcall'
        hchannel
    rw [hsame.metadata, (forwardedTo_iff.1 hfor).2.2.1] at hgeneration
    simp only [foreign, hrunning] at hforeign
    exact of_decide_eq_true hforeign hgeneration

/-- The loop begins with a connection that no call was forwarded over. -/
theorem Owing.connected (h : Owing context s) {nowMs : UInt64} {process : GatewayProcess}
    (hconnect : s.process.connectWorker context.stateId context.key context.clusterId
      context.capabilities nowMs = (some conn, process)) :
    Owing context { s with process, loop := .running conn s.process.calls.length } := by
  have hquiet := quiet_connectWorker (g := s.process) context.stateId context.key context.clusterId
    context.capabilities nowMs
  rw [hconnect] at hquiet
  refine ⟨h.routed.of_quiet hquiet, ⟨nofun, fun conn' calls hrunning => ?_⟩, ?_⟩
  · cases hrunning
    exact worker_of_connectWorker hconnect
  · rintro c call ⟨conn', calls, hrunning, hcall, hfor, -⟩
    cases hrunning
    rw [hquiet.calls] at hcall
    exact absurd (List.getElem?_eq_some_iff.1 hcall).1 (Nat.not_lt.2 (forwardedTo_iff.1 hfor).1)

theorem Owing.refused (h : Owing context s) (hloop : s.loop = .connecting) {nowMs : UInt64}
    {process : GatewayProcess}
    (hconnect : s.process.connectWorker context.stateId context.key context.clusterId
      context.capabilities nowMs = (none, process)) : Owing context { s with process } := by
  have hquiet := quiet_connectWorker (g := s.process) context.stateId context.key context.clusterId
    context.capabilities nowMs
  rw [hconnect] at hquiet
  refine ⟨h.routed.of_quiet hquiet, ⟨h.stays.loop, fun conn calls hrunning => ?_⟩, ?_⟩
  · rw [hloop] at hrunning
    cases hrunning
  · rintro c call ⟨conn, calls, hrunning, -⟩
    rw [hloop] at hrunning
    cases hrunning

/-- An answer that is owed is accepted, and the others stay owed. -/
theorem Owing.answer [GatewayJson] (h : Owing context s) {call : Call}
    (hrunning : s.loop = .running conn calls) (hcall : s.process.calls[c]? = some call)
    (hfor : forwardedTo context conn calls c call = true) (hfresh : c ∉ s.answered) {text : String}
    (hanswers : answers text call = true) (nowMs : UInt64) :
    Owing context { s.receive context conn nowMs (.text text) with answered := c :: s.answered } := by
  have hsender := h.owed c call ⟨conn, calls, hrunning, hcall, hfor, hfresh⟩
  obtain ⟨found, hfound, -, hmetadata, -⟩ := h.routed.sender call.key c hsender
  rw [hcall, Option.some.injEq] at hfound
  subst hfound
  obtain ⟨-, -, hgeneration, hstate, htenant⟩ := forwardedTo_iff.1 hfor
  obtain ⟨frame, hkey, haccepted⟩ :=
    handleWorkerMessage_answer hsender hmetadata hgeneration hanswers nowMs (.ok ())
  rw [hstate, htenant] at haccepted
  have hreceive : s.receive context conn nowMs (.text text) = { s with
      process := ((s.process.updateHeartbeat conn nowMs).handleWorkerFrame frame).2 } := by
    rw [receive, haccepted]
  rw [hreceive]
  refine (h.heartbeat conn nowMs).of_effect (effect_handleWorkerFrame frame) rfl
    (fun _ hc => List.mem_cons_of_mem c hc) (worker_handleWorkerFrame frame) ?_ ?_
  · rintro c' call' (hst | ⟨elapsed, hst⟩) <;> cases hst
  · intro frame' hst c' other other' hout hunanswered _ hkey' _ _
    cases hst
    -- the frame goes to one call only
    have hsame : s.process.sender other.key = some c' := h.owed c' other hout
    rw [← hkey', hkey, hsender, Option.some.injEq] at hsame
    exact hunanswered (hsame ▸ List.mem_cons_self)

theorem owing_step [Sha256] [GatewayJson] (h : Owing context s) {st : SocketStep}
    (hlets : s.LetsAnswer context st) (hstep : s.step context st = some s') : Owing context s' := by
  cases st with
  | gateway st =>
    simp only [step] at hstep
    split at hstep
    next hforeign =>
      obtain ⟨process, hprocess, rfl⟩ := Option.map_eq_some_iff.1 hstep
      exact h.gateway hlets hforeign hprocess
    · cases hstep
  | connected nowMs =>
    simp only [step] at hstep
    split at hstep
    next hloop =>
      split at hstep
      next conn process hconnect =>
        cases hstep
        exact h.connected hconnect
      next process hconnect =>
        cases hstep
        exact h.refused hloop hconnect
    · cases hstep
  | heartbeat text nowMs =>
    simp only [step] at hstep
    split at hstep
    next conn calls hrunning =>
      split at hstep
      next hheartbeat =>
        cases hstep
        rw [Bool.and_eq_true, decide_eq_true_iff] at hheartbeat
        have hreceive : s.receive context conn nowMs (.text text) =
            { s with process := s.process.updateHeartbeat conn nowMs } := by
          rw [receive, handleWorkerMessage, if_pos hheartbeat.1, if_pos hheartbeat.2]
        rw [hreceive]
        exact h.heartbeat conn nowMs
      · cases hstep
    · cases hstep
  | answer c text nowMs =>
    simp only [step] at hstep
    split at hstep
    next conn calls call hrunning hcall =>
      split at hstep
      next hanswer =>
        cases hstep
        rw [Bool.and_eq_true, Bool.and_eq_true, Bool.not_eq_true', List.contains_eq_mem,
          decide_eq_false_iff_not] at hanswer
        obtain ⟨⟨hfor, hfresh⟩, hanswers⟩ := hanswer
        exact h.answer hrunning hcall hfor hfresh hanswers nowMs
      · cases hstep
    · cases hstep

theorem owing_new : Owing context new :=
  ⟨routed_new, ⟨nofun, fun _ _ hrunning => by cases hrunning⟩,
    fun _ _ ⟨_, _, hrunning, _⟩ => by cases hrunning⟩

end WorkerSocket

open WorkerSocket

/-- **A well-behaved worker stays**, in every run in which no call ends under a key for which it owes
an answer: its loop goes on, and it is registered with the connection of its loop. -/
theorem worker_stays [Sha256] [GatewayJson] (context : WorkerSocketContext) (steps : List SocketStep)
    (hlets : EachStep (WorkerSocket.step context) (LetsAnswer context) .new steps) :
    Throughout (WorkerSocket.step context) (Stays context) .new steps :=
  (throughout_of_step owing_new (fun _ _ _ h hlets hstep => owing_step h hlets hstep) hlets).imp
    fun _ h => h.stays

/-- The worker of the sample run. -/
def sampleContext : WorkerSocketContext :=
  { stateId := 0, key := sampleWorker.key, clusterId := ⟨"cluster-a"⟩, capabilities := [] }

/-- It connects and is sent a request. -/
def sampleSocketSteps : List SocketStep :=
  [.connected 1000, .gateway (.meshRequest 0 sampleRequest (some sampleWorker) (.ok ()))]

/-- The worker answers before the call returns. -/
theorem worker_stays_sample :
    @Throughout _ _ (@WorkerSocket.step Sha256.fips sampleJson sampleContext) (Stays sampleContext)
      .new (sampleSocketSteps ++ [.answer 0 sampleAnswerText 1500, .gateway (.poll 0 false)]) := by
  refine @worker_stays Sha256.fips sampleJson sampleContext _ ?_
  intro before st after s heq hrun c call hst _ c' call' hout
  match before, heq with
  | [], heq =>
    cases heq
    rcases hst with hst | ⟨elapsed, hst⟩ <;> cases hst
  | [_], heq =>
    cases heq
    rcases hst with hst | ⟨elapsed, hst⟩ <;> cases hst
  | [_, _], heq =>
    cases heq
    rcases hst with hst | ⟨elapsed, hst⟩ <;> cases hst
  | [_, _, _], heq =>
    -- the one call there is has been answered
    cases heq
    have hanswered : (@runFrom _ _ (@WorkerSocket.step Sha256.fips sampleJson sampleContext) .new
        (sampleSocketSteps ++ [.answer 0 sampleAnswerText 1500])).map
        (fun s => (s.process.calls.length, s.answered)) = some (1, [0]) := by decide +kernel
    obtain ⟨_, _, -, hcall', -, hunanswered⟩ := hout
    have hrun' : @runFrom _ _ (@WorkerSocket.step Sha256.fips sampleJson sampleContext) .new
        (sampleSocketSteps ++ [.answer 0 sampleAnswerText 1500]) = some s := hrun
    rw [hrun', Option.map_some, Option.some.injEq, Prod.mk.injEq] at hanswered
    have hlt := (List.getElem?_eq_some_iff.1 hcall').1
    have hzero : c' = 0 := by omega
    rw [hzero, hanswered.2] at hunanswered
    exact absurd List.mem_cons_self hunanswered
  | _ :: _ :: _ :: _ :: before, heq => simp [sampleSocketSteps] at heq

/-- A client's call times out before the worker answers. The answer is turned away, and the worker
loses its connection. -/
theorem worker_taken_off :
    ¬ ∀ (_ : Sha256) (_ : GatewayJson) (context : WorkerSocketContext) (steps : List SocketStep),
      Throughout (WorkerSocket.step context) (Stays context) .new steps := by
  intro h
  have hstays := h Sha256.fips sampleJson sampleContext
    (sampleSocketSteps ++ [.gateway (.poll 0 true), .answer 0 sampleAnswerText 31500])
  have hrun : (@runFrom _ _ (@WorkerSocket.step Sha256.fips sampleJson sampleContext) .new
      (sampleSocketSteps ++ [.gateway (.poll 0 true), .answer 0 sampleAnswerText 31500])).map
      (fun s => match s.loop with
        | .ended => true
        | _ => false) = some true := by decide +kernel
  obtain ⟨s, hs, hloop⟩ := Option.map_eq_some_iff.1 hrun
  have hnot := (hstays.final hs).loop
  split at hloop
  next hended => exact hnot hended
  · cases hloop

end AppCore.Gateway
