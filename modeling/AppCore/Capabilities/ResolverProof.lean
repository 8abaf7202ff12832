import AppCore.Capabilities.Resolver

/-!
# Which provider a request gets

A candidate offers the capability in the requested mode, is healthy and, when it is a peer, is one
the caller may use. What `resolve` returns is therefore eligible, except for the leader: the guard
is asked about the cluster of the caller, and a tenant-visible provider may be in another one.

* `resolve_eligible` — the providers returned are eligible exactly when no peer is taken for the
  leader of the caller's cluster.
-/

namespace AppCore.Capabilities

open ControlPlane PeerRpc

/-! ## Eligible providers -/

/-- The guard lets a core write for a service. -/
def LeaderAllowed (leadership : Option ServiceLeadershipGuard) (serviceId : ServiceId)
    (tenantId : TenantId) (clusterId : ClusterId) (coreId : CoreId) (nowMs : UInt64) : Prop :=
  leadership.map (fun guard => guard serviceId tenantId clusterId coreId none nowMs) = some .allowed

def CapabilityProvider.tenantId (identity : CoreIdentity) : CapabilityProvider → TenantId
  | localCore .. => identity.tenantId
  | remote peer _ _ => peer.identity.tenantId

def CapabilityProvider.clusterId (identity : CoreIdentity) : CapabilityProvider → ClusterId
  | localCore .. => identity.clusterId
  | remote peer _ _ => peer.identity.clusterId

/-- A provider is there and healthy, with the descriptor it is listed with. -/
def Offers (resolver : CapabilityResolver) (identity : CoreIdentity) (request : CapabilityRequest) :
    CapabilityProvider → Prop
  | .localCore coreId descriptor => coreId = identity.coreId ∧
      ∃ provider, resolver.registry.get request.capability = some provider ∧
        provider.isHealthy ∧ provider.descriptor = descriptor
  | .remote peer descriptor _ =>
    peer ∈ resolver.peers ∧ peer.healthy ∧ descriptor ∈ peer.capabilities

/-- What a peer needs to serve a caller. -/
structure UsablePeer (identity : CoreIdentity) (peer : PeerRecord)
    (descriptor : CapabilityDescriptor) : Prop where
  tenant : peer.identity.tenantId = identity.tenantId
  protocol : identity.protocolVersion.isCompatibleWith peer.identity.protocolVersion = true
  runtime : runtimeCompatibility identity.runtime peer.identity.runtime = .compatible
  visible : descriptor.visibility ≠ .localProcess
  cluster : descriptor.visibility ≠ .tenant → peer.identity.clusterId = identity.clusterId

/-- What makes a provider a candidate for a request. -/
structure Suitable (resolver : CapabilityResolver) (identity : CoreIdentity)
    (request : CapabilityRequest) (provider : CapabilityProvider) : Prop where
  name : provider.descriptor.name = request.capability
  mode : provider.descriptor.mode = request.mode
  offers : Offers resolver identity request provider
  usable : ∀ peer descriptor preferred, provider = .remote peer descriptor preferred →
    UsablePeer identity peer descriptor

/-- A provider that a request may be given to. -/
structure Eligible (resolver : CapabilityResolver) (identity : CoreIdentity)
    (serviceId : ServiceId) (request : CapabilityRequest)
    (leadership : Option ServiceLeadershipGuard) (nowMs : UInt64)
    (provider : CapabilityProvider) : Prop where
  suitable : Suitable resolver identity request provider
  readOnly : provider.descriptor.readOnly → request.mode = .query
  idempotency : provider.descriptor.idempotencyRequired → request.idempotencyKey ≠ none
  leader : provider.descriptor.requiresLeader →
    LeaderAllowed leadership serviceId (provider.tenantId identity) (provider.clusterId identity)
      provider.coreId nowMs

/-- A peer that may write in the cluster of the caller, by its core id, but not in its own. -/
def LeaderElsewhere (identity : CoreIdentity) (serviceId : ServiceId)
    (leadership : Option ServiceLeadershipGuard) (nowMs : UInt64)
    (provider : CapabilityProvider) : Prop :=
  provider.isRemote ∧ provider.descriptor.requiresLeader ∧
    LeaderAllowed leadership serviceId identity.tenantId identity.clusterId provider.coreId nowMs ∧
    ¬ LeaderAllowed leadership serviceId (provider.tenantId identity) (provider.clusterId identity)
      provider.coreId nowMs

/-- A selection policy returns one of its candidates. -/
def PicksCandidate (selector : CapabilitySelectionPolicy) : Prop :=
  ∀ candidates provider, selector candidates = some provider → provider ∈ candidates

/-! ## Candidates -/

variable {resolver : CapabilityResolver} {identity : CoreIdentity} {serviceId : ServiceId}
  {request : CapabilityRequest} {leadership : Option ServiceLeadershipGuard} {nowMs : UInt64}

theorem checkCompatibility_compatible {other : CoreIdentity} {policy : CoreCompatibilityPolicy}
    {names : List CapabilityName} (h : checkCompatibility identity other policy names = .compatible) :
    other.tenantId = identity.tenantId ∧
      (policy.requireSameCluster → other.clusterId = identity.clusterId) ∧
      identity.protocolVersion.isCompatibleWith other.protocolVersion = true ∧
      runtimeCompatibility identity.runtime other.runtime = .compatible := by
  unfold checkCompatibility at h
  split at h
  · cases h
  next htenant =>
    split at h
    · cases h
    next hcluster =>
      split at h
      · cases h
      next hprotocol =>
        split at h
        next hruntime =>
          refine ⟨(not_not.1 htenant).symm, ?_, by simpa using hprotocol, hruntime⟩
          intro hrequired
          by_contra hne
          exact hcluster ⟨hrequired, fun h => hne h.symm⟩
        next => cases h

variable {descriptor : CapabilityDescriptor}

theorem usablePeer_of_compatible {peer : PeerRecord}
    (h : remoteDescriptorIsCompatible identity peer descriptor = true) :
    UsablePeer identity peer descriptor := by
  unfold remoteDescriptorIsCompatible at h
  dsimp only at h
  split at h
  next => cases h
  next hvisibility =>
    obtain ⟨htenant, hcluster, hprotocol, hruntime⟩ :=
      checkCompatibility_compatible (of_decide_eq_true h)
    exact ⟨htenant, hprotocol, hruntime, by simp [hvisibility], fun _ => hcluster rfl⟩
  next hvisibility =>
    obtain ⟨htenant, -, hprotocol, hruntime⟩ :=
      checkCompatibility_compatible (of_decide_eq_true h)
    exact ⟨htenant, hprotocol, hruntime, by simp [hvisibility],
      fun hne => absurd hvisibility hne⟩

variable {provider : CapabilityProvider}

theorem remoteCandidate_eq_some {peer : PeerRecord}
    (h : remoteCandidate identity request peer = some provider) :
    ∃ descriptor preferred, provider = .remote peer descriptor preferred ∧ peer.healthy = true ∧
      descriptor ∈ peer.capabilities ∧ descriptor.name = request.capability ∧
      descriptor.mode = request.mode ∧ UsablePeer identity peer descriptor := by
  unfold remoteCandidate at h
  split at h
  · cases h
  next hhealthy =>
    split at h
    · cases h
    next descriptor hfound =>
      split at h
      · cases h
      next hcompatible =>
        cases h
        have hasked := List.find?_some hfound
        simp only [decide_eq_true_eq] at hasked
        exact ⟨descriptor, _, rfl, by simpa using hhealthy, List.mem_of_find?_eq_some hfound,
          hasked.1, hasked.2, usablePeer_of_compatible (by simpa using hcompatible)⟩

theorem localCandidate_eq_some (h : resolver.localCandidate identity request = some provider) :
    Suitable resolver identity request provider := by
  unfold CapabilityResolver.localCandidate at h
  split at h
  · cases h
  next found hfound =>
    split at h
    next hready =>
      cases h
      exact
        { name := resolver.registry.named _ found hfound
          mode := hready.2
          offers := ⟨rfl, found, hfound, hready.1, rfl⟩
          usable := by
            intro peer descriptor preferred heq
            cases heq }
    next => cases h

/-- **What a candidate is.** -/
theorem mem_candidates (h : provider ∈ resolver.candidates identity request) :
    Suitable resolver identity request provider := by
  unfold CapabilityResolver.candidates at h
  rcases List.mem_append.1 h with hlocal | hremote
  · exact localCandidate_eq_some (Option.mem_toList.1 hlocal)
  · obtain ⟨peer, hpeer, hcandidate⟩ := List.mem_filterMap.1 hremote
    obtain ⟨descriptor, preferred, rfl, hhealthy, hlisted, hname, hmode, husable⟩ :=
      remoteCandidate_eq_some hcandidate
    exact
      { name := hname
        mode := hmode
        offers := ⟨hpeer, hhealthy, hlisted⟩
        usable := by
          intro peer' descriptor' preferred' heq
          cases heq
          exact husable }

/-- The default policy returns one of its candidates. -/
theorem picksCandidate_select (policy : ResolutionPolicy) : PicksCandidate policy.select := by
  intro candidates provider h
  have hfind : ∀ test : CapabilityProvider → Bool, candidates.find? test = some provider →
      provider ∈ candidates := fun test hfound => List.mem_of_find?_eq_some hfound
  unfold ResolutionPolicy.select at h
  dsimp only at h
  split at h
  next hlocal =>
    cases h
    split at hlocal
    · exact hfind _ hlocal
    · cases hlocal
  next =>
    split at h
    next hremote =>
      cases h
      split at hremote
      · simp only [Option.orElse_eq_orElse, Option.orElse_eq_or] at hremote
        rcases Option.or_eq_some_iff.1 hremote with hpreferred | ⟨-, hfirst⟩
        · exact hfind _ hpreferred
        · exact hfind _ hfirst
      · cases hremote
    next => exact hfind _ h

/-! ## Requirements -/

theorem enforceRequestRequirements_eq_ok :
    enforceRequestRequirements request descriptor = .ok () ↔
      descriptor.mode = request.mode ∧ (descriptor.readOnly → request.mode = .query) ∧
        (descriptor.idempotencyRequired → request.idempotencyKey ≠ none) := by
  unfold enforceRequestRequirements
  split
  next hmode => simp [hmode]
  next hmode =>
    split
    next hreadOnly => simp [hreadOnly]
    next hreadOnly =>
      split
      next hkey => simp [hkey]
      next hkey =>
        simp only [not_not] at hmode
        simp only [not_and, not_not] at hreadOnly hkey
        exact ⟨fun _ => ⟨hmode, hreadOnly, hkey⟩, fun _ => rfl⟩

theorem mapLeadershipDecision_eq_ok {decision : LeadershipDecision} :
    mapLeadershipDecision request decision = .ok () ↔ decision = .allowed := by
  cases decision <;> simp [mapLeadershipDecision]

theorem enforceRequirements_eq_ok {coreId : CoreId} :
    enforceRequirements identity serviceId request descriptor coreId leadership true nowMs = .ok () ↔
      enforceRequestRequirements request descriptor = .ok () ∧
        (descriptor.requiresLeader →
          LeaderAllowed leadership serviceId identity.tenantId identity.clusterId coreId nowMs) := by
  unfold enforceRequirements LeaderAllowed
  cases enforceRequestRequirements request descriptor with
  | error e => simp
  | ok _ =>
    cases hleader : descriptor.requiresLeader with
    | false => simp
    | true =>
      cases leadership with
      | none => simp
      | some guard => simp [mapLeadershipDecision_eq_ok]

/-- **What `resolve` returns**: the selected provider, when it passes the requirements. -/
theorem resolve_eq_ok :
    resolver.resolve identity serviceId request leadership nowMs = .ok provider ↔
      resolver.selector (resolver.candidates identity request) = some provider ∧
        enforceRequestRequirements request provider.descriptor = .ok () ∧
        (provider.descriptor.requiresLeader →
          LeaderAllowed leadership serviceId identity.tenantId identity.clusterId provider.coreId
            nowMs) := by
  unfold CapabilityResolver.resolve
  cases resolver.selector (resolver.candidates identity request) with
  | none => simp
  | some selected =>
    rw [← enforceRequirements_eq_ok]
    cases henforce : enforceRequirements identity serviceId request selected.descriptor
        selected.coreId leadership true nowMs with
    | error e =>
      simp only [henforce, reduceCtorEq, Option.some.injEq, false_iff, not_and]
      intro heq
      cases heq
      simp [henforce]
    | ok _ =>
      simp only [henforce, Except.ok.injEq, Option.some.injEq]
      constructor
      · intro heq
        cases heq
        exact ⟨rfl, henforce⟩
      · intro heq
        exact heq.1

/-- Of a provider that `resolve` returns, only the leader may be wrong. -/
theorem eligible_iff_of_resolve (hpicks : PicksCandidate resolver.selector)
    (h : resolver.resolve identity serviceId request leadership nowMs = .ok provider) :
    Eligible resolver identity serviceId request leadership nowMs provider ↔
      ¬ LeaderElsewhere identity serviceId leadership nowMs provider := by
  obtain ⟨hselected, hrequest, hleader⟩ := resolve_eq_ok.1 h
  obtain ⟨-, hreadOnly, hkey⟩ := enforceRequestRequirements_eq_ok.1 hrequest
  have hsuitable := mem_candidates (hpicks _ _ hselected)
  constructor
  · intro heligible helsewhere
    exact helsewhere.2.2.2 (heligible.leader helsewhere.2.1)
  · intro hhere
    refine ⟨hsuitable, hreadOnly, hkey, ?_⟩
    intro hrequired
    cases provider with
    | localCore coreId descriptor => exact hleader hrequired
    | remote peer descriptor preferred =>
      by_contra hdenied
      exact hhere ⟨rfl, hrequired, hleader hrequired, hdenied⟩

/-- **Resolution yields eligible providers** exactly when the selected provider is not a peer that
is taken for the leader of the caller's cluster. -/
theorem resolve_eligible (resolver : CapabilityResolver) (identity : CoreIdentity)
    (serviceId : ServiceId) (request : CapabilityRequest)
    (leadership : Option ServiceLeadershipGuard) (nowMs : UInt64)
    (hpicks : PicksCandidate resolver.selector) :
    (∀ provider, resolver.resolve identity serviceId request leadership nowMs = .ok provider →
      Eligible resolver identity serviceId request leadership nowMs provider) ↔
    ∀ provider, resolver.selector (resolver.candidates identity request) = some provider →
      enforceRequestRequirements request provider.descriptor = .ok () →
        ¬ LeaderElsewhere identity serviceId leadership nowMs provider := by
  constructor
  · intro heligible provider hselected hrequest helsewhere
    have hresolve := resolve_eq_ok.2 ⟨hselected, hrequest, fun _ => helsewhere.2.2.1⟩
    exact (eligible_iff_of_resolve hpicks hresolve).1 (heligible provider hresolve) helsewhere
  · intro hhere provider hresolve
    obtain ⟨hselected, hrequest, -⟩ := resolve_eq_ok.1 hresolve
    exact (eligible_iff_of_resolve hpicks hresolve).2 (hhere provider hselected hrequest)

/-! ### A leader of another cluster -/

/-- A core of a cluster of the tenant. -/
def sampleCore (clusterId coreId : String) : CoreIdentity where
  tenantId := ⟨"tenant"⟩
  clusterId := ⟨clusterId⟩
  coreId := ⟨coreId⟩
  instanceId := ⟨coreId⟩
  kind := "operational"
  protocolVersion := ⟨1⟩
  runtime :=
    { appId := "app", appFamily := "family", syncGroup := "group", runtimeContract := 1
      nodeId := ⟨coreId⟩ }

/-- A tenant-visible command that only the leader runs. -/
def sampleDescriptor : CapabilityDescriptor where
  name := ⟨"orders.create"⟩
  version := "1"
  mode := .command
  visibility := .tenant
  requiresLeader := true
  readOnly := false
  idempotencyRequired := false

/-- A peer with the core id of the leader of cluster `a`. -/
def samplePeer (clusterId : String) : PeerRecord where
  identity := sampleCore clusterId "core"
  endpoints := []
  capabilities := [sampleDescriptor]
  healthy := true
  lastSeenMs := 0
  metadata := ∅

def sampleRequest : CapabilityRequest where
  requestId := "request"
  capability := ⟨"orders.create"⟩
  mode := .command
  payload := []
  idempotencyKey := none
  trace := none

/-- A runtime without handlers that has discovered one peer. -/
def sampleResolver (clusterId : String) : CapabilityResolver where
  registry := .new
  peers := [samplePeer clusterId]
  selector := ResolutionPolicy.default.select

/-- The guard of a runtime of cluster `a`: a core leads the service there. -/
def sampleGuard : ServiceLeadershipGuard :=
  StaticServiceLeadershipGuard.checkServiceWritePermission
    { leases := Std.ExtTreeMap.empty.insert "orders"
        { serviceId := ⟨"orders"⟩, tenantId := ⟨"tenant"⟩, clusterId := ⟨"a"⟩
          holderCoreId := ⟨"core"⟩, epoch := 1, acquiredAtMs := 0, expiresAtMs := 10 } }

theorem resolve_sample {clusterId : String} (h : clusterId = "a" ∨ clusterId = "b") :
    (sampleResolver clusterId).resolve (sampleCore "a" "caller") ⟨"orders"⟩ sampleRequest
      (some sampleGuard) 5 = .ok (.remote (samplePeer clusterId) sampleDescriptor false) := by
  rw [resolve_eq_ok]
  refine ⟨rfl, ?_, fun _ => ?_⟩
  · rcases h with rfl | rfl <;> decide
  · unfold LeaderAllowed
    rcases h with rfl | rfl <;> decide

/-- **A peer of another cluster is taken for the leader** of the caller's. -/
theorem resolve_leader_elsewhere :
    ¬ ∀ (resolver : CapabilityResolver) (identity : CoreIdentity) (serviceId : ServiceId)
      (request : CapabilityRequest) (leadership : Option ServiceLeadershipGuard) (nowMs : UInt64)
      (provider : CapabilityProvider), PicksCandidate resolver.selector →
      resolver.resolve identity serviceId request leadership nowMs = .ok provider →
      Eligible resolver identity serviceId request leadership nowMs provider := by
  intro hclaim
  have heligible := hclaim _ _ _ _ _ _ _ (picksCandidate_select .default)
    (resolve_sample (.inr rfl))
  have hleader := heligible.leader rfl
  unfold LeaderAllowed at hleader
  revert hleader
  decide

/-- The peer is the leader for a caller of its own cluster. -/
theorem resolve_eligible_sample :
    Eligible (sampleResolver "a") (sampleCore "a" "caller") ⟨"orders"⟩ sampleRequest
      (some sampleGuard) 5 (.remote (samplePeer "a") sampleDescriptor false) := by
  refine (resolve_eligible _ _ _ _ _ _ (picksCandidate_select .default)).2 ?_ _
    (resolve_sample (.inl rfl))
  intro provider hselected _ helsewhere
  have hpeer : provider = .remote (samplePeer "a") sampleDescriptor false :=
    (Option.some.inj hselected).symm
  cases hpeer
  exact helsewhere.2.2.2 helsewhere.2.2.1

end AppCore.Capabilities
