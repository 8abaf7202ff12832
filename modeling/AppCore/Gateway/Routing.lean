import AppCore.Gateway.Registry
import AppCore.Gateway.RouterProof

/-!
# Which worker a request goes to

`route_request` asks the worker table for a worker of the target core, and looks at its cluster and
its capabilities afterwards. Several installations may connect one core, and the table has no order.

* `routes_rightly_iff` — whatever worker the table gives, a request is forwarded exactly if some worker
  of the core can serve it, and to such a worker, if and only if the connected workers of the core all
  can or none of them can.
-/

namespace AppCore.Gateway

open PeerRpc

/-- The workers of a tenant and what they advertise are what a sequence of calls left. -/
structure TenantState.ReachedBy (tenant : TenantState) (tenantId : TenantId)
    (calls : List TenantCall) : Prop where
  named : ∀ call ∈ calls, call.Names tenantId
  workers : tenant.workers = ((TenantState.new tenantId).afterAll calls).workers
  registry : tenant.registry = ((TenantState.new tenantId).afterAll calls).registry

/-- What the connection of a key advertised when it was added last. -/
def Advertises (tenantId : TenantId) (calls : List TenantCall) (key : WorkerConnectionKey)
    (capability : CapabilityName) : Prop :=
  ∃ caps, (TenantState.new tenantId).lastAdded key calls = some caps ∧ capability ∈ caps

/-- A worker is connected that can serve an envelope: it has the target core, the cluster and the
capability. -/
structure Eligible (tenant : TenantState) (calls : List TenantCall) (envelope : PeerRpcEnvelope)
    (worker : WorkerConnection) : Prop where
  connected : worker ∈ tenant.workers
  core : worker.key.coreId = envelope.targetCoreId
  cluster : worker.clusterId = some envelope.clusterId
  advertises : Advertises envelope.tenantId calls worker.key envelope.capability

/-- The workers of the target core can all serve the envelope, or none of them can. -/
def CoreAlike (tenant : TenantState) (calls : List TenantCall) (envelope : PeerRpcEnvelope) : Prop :=
  ∀ worker ∈ tenant.workers, worker.key.coreId = envelope.targetCoreId →
    ∀ other ∈ tenant.workers, other.key.coreId = envelope.targetCoreId →
      Eligible tenant calls envelope worker → Eligible tenant calls envelope other

namespace GatewayProcess

/-- The tenant that an envelope is routed in. -/
def tenantOf (g : GatewayProcess) (stateId : Nat) (envelope : PeerRpcEnvelope) : TenantState :=
  (g.tenant stateId envelope.tenantId).getD (.new envelope.tenantId)

/-- A call was added that has sent its request to the worker of a connection. -/
def ForwardedTo (g g' : GatewayProcess) (generation : UInt64) : Prop :=
  ∃ call, g'.calls = g.calls ++ [call] ∧ call.forwarded = true ∧
    call.metadata.workerGeneration = generation

section

variable [Sha256] [GatewayJson]

/-- Whatever worker of the core the table gives: the envelope is forwarded if and only if some worker
can serve it, and then to such a worker. -/
def RoutesRightly (g : GatewayProcess) (stateId : Nat) (calls : List TenantCall)
    (envelope : PeerRpcEnvelope) (nowMs : UInt64) : Prop :=
  ∀ found, g.Finds stateId envelope.tenantId envelope.targetCoreId found →
    ((∃ generation,
        g.ForwardedTo (g.routeRequest stateId envelope nowMs found (.ok ())).2 generation) ↔
      ∃ worker, Eligible (g.tenantOf stateId envelope) calls envelope worker) ∧
    ∀ generation,
      g.ForwardedTo (g.routeRequest stateId envelope nowMs found (.ok ())).2 generation →
      ∃ worker, Eligible (g.tenantOf stateId envelope) calls envelope worker ∧
        worker.generation = generation ∧ found = some worker

/-- What is asked of a request before a worker is chosen, and of the worker's queue. -/
structure Routable (g : GatewayProcess) (stateId : Nat) (envelope : PeerRpcEnvelope)
    (nowMs : UInt64) : Prop where
  valid : validateRoutingEnvelope envelope nowMs = none
  room : (g.tenantOf stateId envelope).canRegisterPending envelope.requestId false = true
  serialized : ∃ payload, GatewayJson.envelopeToString envelope = .ok payload

end

variable {g : GatewayProcess} {stateId : Nat} {calls : List TenantCall}
  {envelope : PeerRpcEnvelope} {nowMs : UInt64}

/-- The filter asks what makes a connected worker of the core eligible. -/
theorem serves_iff {tenant : TenantState} (h : tenant.ReachedBy envelope.tenantId calls)
    {worker : WorkerConnection} (hconnected : worker ∈ tenant.workers)
    (hcore : worker.key.coreId = envelope.targetCoreId) :
    serves tenant envelope.clusterId envelope.capability worker = true ↔
      Eligible tenant calls envelope worker := by
  have hagrees := TenantState.mem_resolve_afterAll envelope.tenantId h.named envelope.capability
    worker.key
  rw [← h.registry] at hagrees
  have hhas : ((TenantState.new envelope.tenantId).afterAll calls).HasKey worker.key :=
    ⟨worker, h.workers ▸ hconnected, rfl⟩
  have hresolves : ((tenant.registry.resolve envelope.capability).any fun workers =>
      workers.contains worker.key) = true ↔
      Advertises envelope.tenantId calls worker.key envelope.capability := by
    have hlisted : Advertises envelope.tenantId calls worker.key envelope.capability ↔
        worker.key ∈ (tenant.registry.resolve envelope.capability).getD [] := by
      rw [hagrees]
      exact (and_iff_right hhas).symm
    rw [hlisted]
    cases tenant.registry.resolve envelope.capability with
    | none => simp
    | some workers => simp
  unfold serves
  rw [decide_eq_true_iff, hresolves]
  constructor
  · intro h
    exact ⟨hconnected, hcore, h.1, h.2⟩
  · intro h
    exact ⟨h.cluster, h.advertises⟩

/-! ## What a request becomes -/

theorem modify_concat {α : Type} (l : List α) (a : α) (f : α → α) :
    (l ++ [a]).modify l.length f = l ++ [f a] := by
  induction l with
  | nil => rfl
  | cons b l ih =>
    rw [List.cons_append, List.length_cons, List.modify_succ_cons, ih, List.cons_append]

theorem append_singleton_ne {α : Type} (l : List α) (a : α) : l ≠ l ++ [a] := by
  intro h
  have hlength := congrArg List.length h
  rw [List.length_append, List.length_singleton] at hlength
  omega

theorem calls_of_forward {tenant : TenantState} {key : PendingKey} {metadata : PendingMetadata}
    {payload : String} :
    ((g.registerPending tenant key metadata).forward key (.ok payload) (.ok ())).calls =
      g.calls ++ [{ g.newCall key metadata with forwarded := true }] := by
  have hlast : (g.registerPending tenant key metadata).calls.length - 1 = g.calls.length := by
    rw [registerPending_calls, List.length_append, List.length_singleton, Nat.add_sub_cancel]
  unfold forward
  dsimp only
  rw [hlast, registerPending_calls, modify_concat]

section

variable [Sha256] [GatewayJson]

theorem calls_of_unserved (h : g.Routable stateId envelope nowMs)
    {found : Option WorkerConnection}
    (hfound : found.filter (serves (g.tenantOf stateId envelope) envelope.clusterId
      envelope.capability) = none) :
    (g.routeRequest stateId envelope nowMs found (.ok ())).2.calls = g.calls := by
  unfold tenantOf at hfound
  unfold routeRequest
  rw [h.valid]
  dsimp only
  rw [hfound]
  rfl

/-- A request that a worker is found for, and that serves it, makes a call that is forwarded to it. -/
theorem calls_of_served (h : g.Routable stateId envelope nowMs) {worker : WorkerConnection}
    (hserves : serves (g.tenantOf stateId envelope) envelope.clusterId envelope.capability worker =
      true) :
    ∃ call, (g.routeRequest stateId envelope nowMs (some worker) (.ok ())).2.calls =
        g.calls ++ [call] ∧ call.forwarded = true ∧
      call.metadata.workerGeneration = worker.generation := by
  obtain ⟨payload, hpayload⟩ := h.serialized
  have hroom := h.room
  unfold tenantOf at hserves hroom
  unfold routeRequest
  rw [h.valid]
  dsimp only
  rw [Option.filter_some_pos hserves]
  dsimp only
  rw [if_pos hroom, hpayload]
  dsimp only
  rw [calls_of_forward]
  exact ⟨_, rfl, rfl, rfl⟩

/-- **What is forwarded**, for the worker that the table gives. -/
theorem forwardedTo_iff (h : g.Routable stateId envelope nowMs) {found : Option WorkerConnection}
    {generation : UInt64} :
    g.ForwardedTo (g.routeRequest stateId envelope nowMs found (.ok ())).2 generation ↔
      ∃ worker, found = some worker ∧ worker.generation = generation ∧
        serves (g.tenantOf stateId envelope) envelope.clusterId envelope.capability worker = true := by
  constructor
  · intro hforwarded
    obtain ⟨call, hcalls, -, hgeneration⟩ := hforwarded
    cases hfilter : found.filter (serves (g.tenantOf stateId envelope) envelope.clusterId
        envelope.capability) with
    | none =>
      rw [calls_of_unserved h hfilter] at hcalls
      exact absurd hcalls (append_singleton_ne _ _)
    | some worker =>
      obtain ⟨rfl, hserves⟩ := Option.filter_eq_some_iff.1 hfilter
      obtain ⟨other, hother, -, hothers⟩ := calls_of_served h hserves
      rw [hother] at hcalls
      obtain rfl := List.head_eq_of_cons_eq (List.append_cancel_left hcalls)
      exact ⟨worker, rfl, hothers.symm.trans hgeneration, hserves⟩
  · intro hworker
    obtain ⟨worker, rfl, hgeneration, hserves⟩ := hworker
    obtain ⟨call, hcalls, hforwarded, hcall⟩ := calls_of_served h hserves
    exact ⟨call, hcalls, hforwarded, hcall.trans hgeneration⟩

theorem coreAlike_of_routesRightly (h : g.Routable stateId envelope nowMs)
    (hreached : (g.tenantOf stateId envelope).ReachedBy envelope.tenantId calls)
    (hroutes : g.RoutesRightly stateId calls envelope nowMs) :
    CoreAlike (g.tenantOf stateId envelope) calls envelope := by
  intro worker hconnected hcore other hotherConnected hotherCore heligible
  obtain ⟨hiff, -⟩ := hroutes (some other) ⟨hotherConnected, hotherCore⟩
  obtain ⟨generation, hforwarded⟩ := hiff.2 ⟨worker, heligible⟩
  obtain ⟨chosen, hchosen, -, hserves⟩ := (forwardedTo_iff h).1 hforwarded
  obtain rfl := Option.some.inj hchosen
  exact (serves_iff hreached hotherConnected hotherCore).1 hserves

end

end GatewayProcess

open GatewayProcess

/-- **When routing is sound and complete**: whatever the order of the worker table, an envelope that is
valid and has room is forwarded exactly if a connected worker can serve it, and to such a worker, if
and only if the connected workers of the target core can all serve it or none of them can. -/
theorem routes_rightly_iff [Sha256] [GatewayJson] (g : GatewayProcess) (stateId : Nat)
    (calls : List TenantCall) (envelope : PeerRpcEnvelope) (nowMs : UInt64)
    (hreached : (g.tenantOf stateId envelope).ReachedBy envelope.tenantId calls)
    (h : g.Routable stateId envelope nowMs) :
    g.RoutesRightly stateId calls envelope nowMs ↔
      CoreAlike (g.tenantOf stateId envelope) calls envelope := by
  constructor
  · exact coreAlike_of_routesRightly h hreached
  · intro halike found hfound
    constructor
    · constructor
      · intro hforwarded
        obtain ⟨generation, hforwarded⟩ := hforwarded
        obtain ⟨worker, rfl, -, hserves⟩ := (forwardedTo_iff h).1 hforwarded
        exact ⟨worker, (serves_iff hreached hfound.1 hfound.2).1 hserves⟩
      · intro heligible
        obtain ⟨worker, heligible⟩ := heligible
        cases found with
        | none => exact absurd heligible.core (hfound worker heligible.connected)
        | some given =>
          have hgiven := halike worker heligible.connected heligible.core given hfound.1 hfound.2
            heligible
          exact ⟨given.generation, (forwardedTo_iff h).2
            ⟨given, rfl, rfl, (serves_iff hreached hfound.1 hfound.2).2 hgiven⟩⟩
    · intro generation hforwarded
      obtain ⟨worker, rfl, hgeneration, hserves⟩ := (forwardedTo_iff h).1 hforwarded
      exact ⟨worker, (serves_iff hreached hfound.1 hfound.2).1 hserves, hgeneration, rfl⟩

/-! ### Two installations of one core -/

theorem pending_afterAll {tenant : TenantState} (calls : List TenantCall) (mesh : Bool) :
    (tenant.afterAll calls).pending mesh = tenant.pending mesh := by
  induction calls generalizing tenant with
  | nil => rfl
  | cons call calls ih =>
    unfold TenantState.afterAll at ih ⊢
    rw [List.foldl_cons, ih]
    cases call with
    | addWorker conn capabilities =>
      unfold TenantState.after
      dsimp only
      cases hadd : tenant.addWorker conn capabilities with
      | error e => rfl
      | ok next => exact pending_addWorker hadd mesh
    | removeWorker installationId coreId =>
      unfold TenantState.after TenantState.removeWorker
      dsimp only
      cases tenant.getWorker installationId coreId with
      | none => rfl
      | some conn => rfl
    | removeWorkerIfCurrent installationId coreId generation =>
      exact pending_removeWorkerIfCurrent tenant installationId coreId generation mesh

def installedWorker (installation : String) : WorkerConnection :=
  { key := ⟨⟨"tenant-a"⟩, ⟨installation⟩, ⟨"core-a"⟩⟩, clusterId := some ⟨"cluster-a"⟩,
    generation := 1 }

/-- The installations of a core, in the order in which they connect, and what each advertises. -/
def installationCalls (installations : List (String × List CapabilityName)) : List TenantCall :=
  installations.map fun installation => .addWorker (installedWorker installation.1) installation.2

/-- A gateway with these workers. -/
def gatewayWith (installations : List (String × List CapabilityName)) : GatewayProcess :=
  GatewayProcess.new.setTenant 0 ⟨"tenant-a"⟩
    ((TenantState.new ⟨"tenant-a"⟩).afterAll (installationCalls installations))

/-- A request for the capability `run` of the core. -/
def runRequest [Sha256] : PeerRpcEnvelope :=
  { requestId := "request-1", traceId := "trace-1", protocolVersion := ⟨1⟩,
    sourceCoreId := ⟨"core-b"⟩, targetCoreId := ⟨"core-a"⟩, tenantId := ⟨"tenant-a"⟩,
    clusterId := ⟨"cluster-a"⟩, timestampMs := 1, expiresAtMs := 1000, nonce := "nonce-1",
    capability := ⟨"run"⟩, payload := [], idempotencyKey := none, bodyHash := payloadHash [],
    trace := none }

/-- The JSON of it. -/
@[reducible] def requestJson : GatewayJson :=
  { sampleJson with
    envelopeToString := fun envelope => .ok
      ("\x7b\"request_id\":\"request-1\",\"trace_id\":\"trace-1\",\"protocol_version\":1," ++
        "\"source_core_id\":\"core-b\",\"target_core_id\":\"core-a\",\"tenant_id\":\"tenant-a\"," ++
        "\"cluster_id\":\"cluster-a\",\"timestamp_ms\":1,\"expires_at_ms\":1000," ++
        "\"nonce\":\"nonce-1\",\"capability\":\"run\",\"payload\":[],\"idempotency_key\":null," ++
        "\"body_hash\":\"" ++ envelope.bodyHash ++ "\",\"trace\":null\x7d") }

section

variable [Sha256] {installations : List (String × List CapabilityName)}

theorem tenantOf_gatewayWith : (gatewayWith installations).tenantOf 0 runRequest =
    (TenantState.new ⟨"tenant-a"⟩).afterAll (installationCalls installations) := by
  unfold GatewayProcess.tenantOf gatewayWith
  rw [tenant_setTenant, if_pos ⟨rfl, rfl⟩, Option.getD_some]

theorem reachedBy_gatewayWith : ((gatewayWith installations).tenantOf 0 runRequest).ReachedBy
    runRequest.tenantId (installationCalls installations) := by
  rw [tenantOf_gatewayWith]
  refine ⟨fun call hcall => ?_, rfl, rfl⟩
  obtain ⟨installation, -, rfl⟩ := List.mem_map.1 hcall
  rfl

theorem routable_gatewayWith :
    @Routable _ requestJson (gatewayWith installations) 0 runRequest 1 := by
  refine @Routable.mk _ requestJson _ _ _ _ ?_ ?_ ⟨_, rfl⟩
  · have hversion : ¬ (@runRequest _).protocolVersion ≠ ⟨1⟩ := not_not.2 rfl
    have hexpiry : ¬ (1000 : UInt64) ≤ 1 := by decide
    have hbody : ¬ (@runRequest _).bodyHash ≠ payloadHash (@runRequest _).payload := not_not.2 rfl
    have hsize : ¬ (@runRequest _).payload.length > maxGatewayMessageBytes := Nat.not_lt_zero _
    exact (if_neg hversion).trans ((if_neg hexpiry).trans ((if_neg hexpiry).trans
      ((if_neg hbody).trans (if_neg hsize))))
  · rw [tenantOf_gatewayWith]
    unfold TenantState.canRegisterPending
    rw [pending_afterAll]
    rfl

end

/-- One installation advertises the capability, the other does not, and the table gives the other. -/
theorem misrouted :
    (¬ ∀ (sha : Sha256) (json : GatewayJson) (g : GatewayProcess) (stateId : Nat)
      (calls : List TenantCall) (envelope : PeerRpcEnvelope) (nowMs : UInt64),
      (g.tenantOf stateId envelope).ReachedBy envelope.tenantId calls →
      @Routable sha json g stateId envelope nowMs →
      @RoutesRightly sha json g stateId calls envelope nowMs) ∧
    ¬ @RoutesRightly Sha256.fips requestJson
      (gatewayWith [("installation-a", [⟨"run"⟩]), ("installation-b", [])]) 0
      (installationCalls [("installation-a", [⟨"run"⟩]), ("installation-b", [])])
      (@runRequest Sha256.fips) 1 := by
  have hmisrouted : ¬ @RoutesRightly Sha256.fips requestJson
      (gatewayWith [("installation-a", [⟨"run"⟩]), ("installation-b", [])]) 0
      (installationCalls [("installation-a", [⟨"run"⟩]), ("installation-b", [])])
      (@runRequest Sha256.fips) 1 := by
    intro h
    have halike := @coreAlike_of_routesRightly _ _ _ _ _ Sha256.fips requestJson
      (@routable_gatewayWith Sha256.fips _) (@reachedBy_gatewayWith Sha256.fips _) h
    rw [@tenantOf_gatewayWith Sha256.fips] at halike
    have hother := halike (installedWorker "installation-a") (by decide) rfl
      (installedWorker "installation-b") (by decide) rfl
      ⟨by decide, rfl, rfl, [⟨"run"⟩], by decide, List.mem_cons_self⟩
    obtain ⟨caps, hcaps, hmem⟩ := hother.advertises
    have hnone : (TenantState.new ⟨"tenant-a"⟩).lastAdded (installedWorker "installation-b").key
        (installationCalls [("installation-a", [⟨"run"⟩]), ("installation-b", [])]) = some [] := by
      decide
    rw [← Option.some.inj (hnone.symm.trans hcaps)] at hmem
    cases hmem
  exact ⟨fun h => hmisrouted (h _ _ _ _ _ _ _ (@reachedBy_gatewayWith Sha256.fips _)
    (@routable_gatewayWith Sha256.fips _)), hmisrouted⟩

/-- A single installation is given its requests. -/
theorem routes_rightly_iff_single :
    @RoutesRightly Sha256.fips requestJson (gatewayWith [("installation-a", [⟨"run"⟩])]) 0
      (installationCalls [("installation-a", [⟨"run"⟩])]) (@runRequest Sha256.fips) 1 := by
  refine (@routes_rightly_iff Sha256.fips requestJson _ _ _ _ _
    (@reachedBy_gatewayWith Sha256.fips _) (@routable_gatewayWith Sha256.fips _)).2 ?_
  rw [@tenantOf_gatewayWith Sha256.fips]
  intro worker hworker _ other hother _ heligible
  have hworkers : ((TenantState.new ⟨"tenant-a"⟩).afterAll
      (installationCalls [("installation-a", [⟨"run"⟩])])).workers =
        [installedWorker "installation-a"] := by decide
  rw [hworkers, List.mem_singleton] at hworker hother
  rw [hother, ← hworker]
  exact heligible

end AppCore.Gateway
