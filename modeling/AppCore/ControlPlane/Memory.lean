import AppCore.Base.Maps
import AppCore.Types.Ids

/-!
# The control plane in memory

`memory.rs` over the contracts of `control_plane/v1.rs`: the registrations of running instances and
one lease slot for each service of a cluster, both in maps with colon-joined keys. A slot keeps the
highest epoch it has given out next to the lease it holds; a lease that is renewed keeps its epoch,
and a new one is one above.

* `acquire_slot`, `release_slot` — what the two lease operations do to every slot.
-/

namespace AppCore.ControlPlane

/-! ## Contracts -/

inductive ControlPlaneError where
  | offline
  | timeout
  | rejected (message : String)
  | conflict (message : String)
  | invalidResponse (message : String)
  | transport (message : String)
  | leaseUnavailable
  deriving DecidableEq, Repr

abbrev ControlPlaneResult (α : Type) := Except ControlPlaneError α

structure InstanceId where
  asStr : String
  deriving DecidableEq, Repr

structure ServiceId where
  asStr : String
  deriving DecidableEq, Repr

structure RuntimeIdentity where
  appId : String
  appFamily : String
  syncGroup : String
  runtimeContract : UInt16
  nodeId : NodeId
  deriving DecidableEq, Repr

structure CoreIdentity where
  tenantId : TenantId
  clusterId : ClusterId
  coreId : CoreId
  instanceId : InstanceId
  kind : String
  protocolVersion : ProtocolVersion
  runtime : RuntimeIdentity
  deriving DecidableEq, Repr

inductive RuntimeOperationalMode where
  | starting
  | discovering
  | syncing
  | readOnly
  | readWrite
  | degraded
  | isolated
  deriving DecidableEq, Repr

inductive CapabilityMode where
  | query
  | command
  | stream
  deriving DecidableEq, Repr

inductive CapabilityVisibility where
  | localProcess
  | cluster
  | tenant
  deriving DecidableEq, Repr

/-- `CapabilityDescriptor`, with its requirements. -/
structure CapabilityDescriptor where
  name : CapabilityName
  version : String
  mode : CapabilityMode
  visibility : CapabilityVisibility
  requiresLeader : Bool
  readOnly : Bool
  idempotencyRequired : Bool
  deriving DecidableEq

structure PeerEndpoint where
  name : String
  url : String
  protocol : String
  metadata : Std.ExtTreeMap String String compare
  deriving DecidableEq

structure DistributedCoreManifest where
  identity : CoreIdentity
  appName : String
  appVersion : String
  runtimeMinVersion : String
  runtimeMaxVersion : Option String
  capabilities : List CapabilityDescriptor
  endpoints : List PeerEndpoint
  metadata : Std.ExtTreeMap String String compare
  deriving DecidableEq

structure CoreRegistration where
  manifest : DistributedCoreManifest
  registeredAtMs : UInt64
  operationMode : RuntimeOperationalMode
  deriving DecidableEq

structure CorePresence where
  identity : CoreIdentity
  operationMode : RuntimeOperationalMode
  healthy : Bool
  lastSeenMs : UInt64

structure HeartbeatRequest where
  identity : CoreIdentity
  operationMode : RuntimeOperationalMode
  sentAtMs : UInt64

structure HeartbeatResponse where
  accepted : Bool
  serverTimeMs : UInt64
  operationMode : RuntimeOperationalMode

structure PeerRecord where
  identity : CoreIdentity
  endpoints : List PeerEndpoint
  capabilities : List CapabilityDescriptor
  healthy : Bool
  lastSeenMs : UInt64
  metadata : Std.ExtTreeMap String String compare

structure PeerDirectory where
  tenantId : TenantId
  clusterId : Option ClusterId
  peers : List PeerRecord
  refreshedAtMs : UInt64

structure ServiceLeaderLease where
  serviceId : ServiceId
  tenantId : TenantId
  clusterId : ClusterId
  holderCoreId : CoreId
  epoch : UInt64
  acquiredAtMs : UInt64
  expiresAtMs : UInt64
  deriving DecidableEq, Repr

/-! ## The state -/

structure ServiceLeaseSlot where
  lease : Option ServiceLeaderLease
  lastEpoch : UInt64
  deriving DecidableEq, Repr

def ServiceLeaseSlot.default : ServiceLeaseSlot := { lease := none, lastEpoch := 0 }

structure InMemoryState where
  registrations : Std.ExtTreeMap String CoreRegistration compare
  serviceLeases : Std.ExtTreeMap String ServiceLeaseSlot compare
  deriving DecidableEq

def InMemoryState.default : InMemoryState := { registrations := ∅, serviceLeases := ∅ }

def instanceKey (identity : CoreIdentity) : String :=
  identity.tenantId.asStr ++ ":" ++ identity.clusterId.asStr ++ ":" ++ identity.instanceId.asStr

def serviceLeaseKey (tenantId : TenantId) (clusterId : ClusterId) (serviceId : ServiceId) : String :=
  tenantId.asStr ++ ":" ++ clusterId.asStr ++ ":" ++ serviceId.asStr

def isRoutable (mode : RuntimeOperationalMode) : Bool :=
  mode = .readWrite ∨ mode = .readOnly ∨ mode = .syncing

def leaseExpiration (nowMs ttlMs : UInt64) : ControlPlaneResult UInt64 :=
  if ttlMs = 0 then .error (.rejected "lease ttl must be greater than zero")
  else match checkedAdd nowMs ttlMs with
    | none => .error (.rejected "lease expiration exceeds the clock range")
    | some expiresAtMs => .ok expiresAtMs

namespace InMemoryState

variable (state : InMemoryState)

/-- The slot of a key; one is made when there is none. -/
def slot (key : String) : ServiceLeaseSlot := state.serviceLeases[key]?.getD .default

/-! ### Presence -/

def pruneRegistrations (cutoffMs : UInt64) : InMemoryState :=
  { state with registrations := state.registrations.filter fun _ registration =>
      registration.registeredAtMs ≥ cutoffMs }

def register (registration : CoreRegistration) : CorePresence × InMemoryState :=
  let presence : CorePresence :=
    { identity := registration.manifest.identity
      operationMode := registration.operationMode
      healthy := isRoutable registration.operationMode
      lastSeenMs := registration.registeredAtMs }
  (presence, { state with
    registrations := state.registrations.insert (instanceKey presence.identity) registration })

def heartbeat (request : HeartbeatRequest) : HeartbeatResponse × InMemoryState :=
  let refresh (registration : CoreRegistration) : CoreRegistration :=
    { registration with
      registeredAtMs := request.sentAtMs, operationMode := request.operationMode }
  ({ accepted := true, serverTimeMs := request.sentAtMs, operationMode := request.operationMode },
    { state with
      registrations := state.registrations.modify (instanceKey request.identity) refresh })

/-- Whether `discover_peers` lists a registration. -/
def isPeerOf (identity : CoreIdentity) (registration : CoreRegistration) : Bool :=
  registration.manifest.identity.tenantId = identity.tenantId ∧
    registration.manifest.identity.clusterId = identity.clusterId ∧
    registration.manifest.identity.instanceId ≠ identity.instanceId

/-- The record that `discover_peers` makes of a registration. -/
def peerRecord (registration : CoreRegistration) : PeerRecord :=
  { identity := registration.manifest.identity
    endpoints := registration.manifest.endpoints
    capabilities := registration.manifest.capabilities
    healthy := isRoutable registration.operationMode
    lastSeenMs := registration.registeredAtMs
    metadata := registration.manifest.metadata }

def discoverPeers (identity : CoreIdentity) : PeerDirectory :=
  { tenantId := identity.tenantId
    clusterId := some identity.clusterId
    peers := ((state.registrations.toList.map Prod.snd).filter (isPeerOf identity)).map peerRecord
    refreshedAtMs := 0 }

/-- A lease of the next epoch. -/
def newLease (slot : ServiceLeaseSlot) (identity : CoreIdentity) (serviceId : ServiceId)
    (nowMs expiresAtMs : UInt64) : ControlPlaneResult ServiceLeaderLease :=
  match checkedAdd slot.lastEpoch 1 with
  | none => .error (.conflict "service lease fencing epoch exhausted")
  | some epoch =>
    .ok { serviceId, tenantId := identity.tenantId, clusterId := identity.clusterId,
          holderCoreId := identity.coreId, epoch, acquiredAtMs := nowMs, expiresAtMs }

/-- The lease that a slot gives to a core, when it expires at the given time. -/
def nextLease (slot : ServiceLeaseSlot) (identity : CoreIdentity) (serviceId : ServiceId)
    (nowMs expiresAtMs : UInt64) : ControlPlaneResult ServiceLeaderLease :=
  match slot.lease with
  | some current =>
    if current.expiresAtMs > nowMs ∧ current.holderCoreId = identity.coreId then
      .ok { current with expiresAtMs }
    else if current.expiresAtMs > nowMs then .error .leaseUnavailable
    else newLease slot identity serviceId nowMs expiresAtMs
  | none => newLease slot identity serviceId nowMs expiresAtMs

def acquireOrRenewServiceLease (identity : CoreIdentity) (serviceId : ServiceId)
    (ttlMs nowMs : UInt64) : ControlPlaneResult ServiceLeaderLease × InMemoryState :=
  match leaseExpiration nowMs ttlMs with
  | .error error => (.error error, state)
  | .ok expiresAtMs =>
    let key := serviceLeaseKey identity.tenantId identity.clusterId serviceId
    let slot := state.slot key
    match nextLease slot identity serviceId nowMs expiresAtMs with
    | .error error =>
      (.error error, { state with serviceLeases := state.serviceLeases.insert key slot })
    | .ok lease =>
      let slot : ServiceLeaseSlot :=
        { lease := some lease, lastEpoch := max slot.lastEpoch lease.epoch }
      (.ok lease, { state with serviceLeases := state.serviceLeases.insert key slot })

def releaseServiceLease (lease : ServiceLeaderLease) : ControlPlaneResult Unit × InMemoryState :=
  let key := serviceLeaseKey lease.tenantId lease.clusterId lease.serviceId
  match state.serviceLeases[key]? with
  | none => (.ok (), state)
  | some slot =>
    let matchesCurrent := slot.lease.any fun current =>
      current.holderCoreId = lease.holderCoreId ∧ current.epoch = lease.epoch
    if matchesCurrent then
      let slot : ServiceLeaseSlot := { slot with lease := none }
      (.ok (), { state with serviceLeases := state.serviceLeases.insert key slot })
    else
      (.error (.conflict "service lease release does not match current epoch and holder"), state)

end InMemoryState

theorem colon_not_mem {kind value : String} (h : validateDistributedIdentifier kind value = .ok ()) :
    ':' ∉ value.toList := by
  intro hmem
  have hbyte : (0x3a : UInt8) ∈ strBytes value :=
    List.mem_flatMap.2 ⟨':', hmem, by decide⟩
  exact absurd ((bytes_of_distributedIdentifier h).2 0x3a hbyte) (by decide)

theorem joined_injective {a b c a' b' c' : String} (ha : ':' ∉ a.toList) (hb : ':' ∉ b.toList)
    (ha' : ':' ∉ a'.toList) (hb' : ':' ∉ b'.toList)
    (h : a ++ ":" ++ b ++ ":" ++ c = a' ++ ":" ++ b' ++ ":" ++ c') : a = a' ∧ b = b' ∧ c = c' := by
  have hlists : a.toList ++ ':' :: (b.toList ++ ':' :: c.toList) =
      a'.toList ++ ':' :: (b'.toList ++ ':' :: c'.toList) := by
    have hjoined := congrArg String.toList h
    simpa only [String.toList_append, List.append_assoc, List.cons_append, List.nil_append,
      show (":" : String).toList = [':'] from rfl] using hjoined
  have hfirst := congrArg (splitOnce ':') hlists
  rw [splitOnce_append ha, splitOnce_append ha', Option.some.injEq, Prod.mk.injEq] at hfirst
  have hsecond := congrArg (splitOnce ':') hfirst.2
  rw [splitOnce_append hb, splitOnce_append hb', Option.some.injEq, Prod.mk.injEq] at hsecond
  exact ⟨String.toList_inj.1 hfirst.1, String.toList_inj.1 hsecond.1, String.toList_inj.1 hsecond.2⟩

/-- Different services have different slots; the last part of the key may have colons. -/
theorem serviceLeaseKey_injective {tenantId tenantId' : TenantId} {clusterId clusterId' : ClusterId}
    {serviceId serviceId' : ServiceId} (htenant : tenantId.validate = .ok ())
    (hcluster : clusterId.validate = .ok ()) (htenant' : tenantId'.validate = .ok ())
    (hcluster' : clusterId'.validate = .ok ())
    (h : serviceLeaseKey tenantId clusterId serviceId =
      serviceLeaseKey tenantId' clusterId' serviceId') :
    tenantId = tenantId' ∧ clusterId = clusterId' ∧ serviceId = serviceId' := by
  obtain ⟨h₁, h₂, h₃⟩ := joined_injective (colon_not_mem htenant) (colon_not_mem hcluster)
    (colon_not_mem htenant') (colon_not_mem hcluster') h
  cases tenantId
  cases clusterId
  cases serviceId
  subst h₁ h₂ h₃
  exact ⟨rfl, rfl, rfl⟩

/-- The services of one cluster have different slots, whatever their names are made of. -/
theorem serviceLeaseKey_inj {tenantId : TenantId} {clusterId : ClusterId}
    {serviceId serviceId' : ServiceId} :
    serviceLeaseKey tenantId clusterId serviceId = serviceLeaseKey tenantId clusterId serviceId' ↔
      serviceId = serviceId' := by
  constructor
  · intro h
    have hlists := congrArg String.toList h
    unfold serviceLeaseKey at hlists
    rw [@String.toList_append _ serviceId.asStr, @String.toList_append _ serviceId'.asStr] at hlists
    cases serviceId
    cases serviceId'
    rw [ServiceId.mk.injEq]
    exact String.toList_inj.1 (List.append_cancel_left hlists)
  · intro h
    rw [h]

/-! ## What the operations do -/

namespace InMemoryState

variable {state : InMemoryState} {identity : CoreIdentity} {serviceId : ServiceId}
  {ttlMs nowMs : UInt64}

variable {expiresAtMs : UInt64}

theorem leaseExpiration_eq_ok (h : leaseExpiration nowMs ttlMs = .ok expiresAtMs) :
    ttlMs ≠ 0 ∧ expiresAtMs.toNat = nowMs.toNat + ttlMs.toNat := by
  unfold leaseExpiration at h
  split at h
  · cases h
  next hne =>
    split at h
    · cases h
    next expires hadd =>
      cases h
      exact ⟨hne, (checkedAdd_eq_some.1 hadd).2⟩

theorem slot_insert (key other : String) (slot : ServiceLeaseSlot) :
    ({ state with serviceLeases := state.serviceLeases.insert key slot } : InMemoryState).slot other =
      if key = other then slot else state.slot other := by
  unfold InMemoryState.slot
  rw [lookup_insert]
  split <;> rfl

/-- A lease goes to a core in one of two ways: its own is renewed, or a new one is granted when there
is none that has not expired. -/
inductive Leased (slot : ServiceLeaseSlot) (identity : CoreIdentity) (serviceId : ServiceId)
    (nowMs expiresAtMs : UInt64) : ServiceLeaderLease → Prop where
  | renewed (current : ServiceLeaderLease) (hcurrent : slot.lease = some current)
      (hlive : nowMs < current.expiresAtMs) (hholder : current.holderCoreId = identity.coreId) :
      Leased slot identity serviceId nowMs expiresAtMs { current with expiresAtMs }
  | granted (epoch : UInt64) (hepoch : epoch.toNat = slot.lastEpoch.toNat + 1)
      (hfree : ∀ current, slot.lease = some current → current.expiresAtMs ≤ nowMs) :
      Leased slot identity serviceId nowMs expiresAtMs
        { serviceId, tenantId := identity.tenantId, clusterId := identity.clusterId,
          holderCoreId := identity.coreId, epoch, acquiredAtMs := nowMs, expiresAtMs }

variable {slot : ServiceLeaseSlot} {lease : ServiceLeaderLease}

theorem Leased.holder (h : Leased slot identity serviceId nowMs expiresAtMs lease) :
    lease.holderCoreId = identity.coreId := by
  cases h with
  | renewed current hcurrent hlive hholder => exact hholder
  | granted epoch hepoch hfree => rfl

theorem Leased.expires (h : Leased slot identity serviceId nowMs expiresAtMs lease) :
    lease.expiresAtMs = expiresAtMs := by
  cases h <;> rfl

theorem leased_of_nextLease (h : nextLease slot identity serviceId nowMs expiresAtMs = .ok lease) :
    Leased slot identity serviceId nowMs expiresAtMs lease := by
  have hnew (hfree : ∀ current, slot.lease = some current → current.expiresAtMs ≤ nowMs)
      (h : newLease slot identity serviceId nowMs expiresAtMs = .ok lease) :
      Leased slot identity serviceId nowMs expiresAtMs lease := by
    unfold newLease at h
    split at h
    · cases h
    next epoch hadd =>
      cases h
      exact .granted epoch (checkedAdd_eq_some.1 hadd).2 hfree
  unfold nextLease at h
  split at h
  next current hcurrent =>
    split at h
    next hown =>
      cases h
      exact .renewed current hcurrent hown.1 hown.2
    · split at h
      · cases h
      next hexpired =>
        refine hnew ?_ h
        intro other hother
        rw [hcurrent, Option.some.injEq] at hother
        rw [← hother]
        exact UInt64.not_lt.1 hexpired
  next hnone =>
    refine hnew ?_ h
    intro other hother
    rw [hnone] at hother
    cases hother

theorem le_max_epoch (a b : UInt64) : a ≤ max a b ∧ b ≤ max a b := by
  rw [show max a b = if a ≤ b then b else a from rfl]
  by_cases h : a ≤ b
  · rw [if_pos h]
    exact ⟨h, UInt64.le_refl _⟩
  · rw [if_neg h]
    exact ⟨UInt64.le_refl _, UInt64.le_of_lt (UInt64.not_le.1 h)⟩

/-- **What acquiring does to the slots**: the one of the service gets the lease that is returned, or
all are as they were. -/
theorem acquire_slot (key : String) :
    (∃ error, (state.acquireOrRenewServiceLease identity serviceId ttlMs nowMs).1 = .error error ∧
      (state.acquireOrRenewServiceLease identity serviceId ttlMs nowMs).2.slot key =
        state.slot key) ∨
    ∃ lease expiresAtMs,
      (state.acquireOrRenewServiceLease identity serviceId ttlMs nowMs).1 = .ok lease ∧
      leaseExpiration nowMs ttlMs = .ok expiresAtMs ∧
      Leased (state.slot (serviceLeaseKey identity.tenantId identity.clusterId serviceId)) identity
        serviceId nowMs expiresAtMs lease ∧
      (state.acquireOrRenewServiceLease identity serviceId ttlMs nowMs).2.slot key =
        if serviceLeaseKey identity.tenantId identity.clusterId serviceId = key then
          { lease := some lease
            lastEpoch := max (state.slot
              (serviceLeaseKey identity.tenantId identity.clusterId serviceId)).lastEpoch
              lease.epoch }
        else state.slot key := by
  unfold acquireOrRenewServiceLease
  cases hexpires : leaseExpiration nowMs ttlMs with
  | error error => exact Or.inl ⟨error, rfl, rfl⟩
  | ok expiresAtMs =>
    dsimp only
    cases hnext : nextLease (state.slot
        (serviceLeaseKey identity.tenantId identity.clusterId serviceId)) identity serviceId nowMs
        expiresAtMs with
    | error error =>
      refine Or.inl ⟨error, rfl, ?_⟩
      dsimp only
      rw [slot_insert]
      split
      next heq => rw [heq]
      next => rfl
    | ok lease =>
      exact Or.inr ⟨lease, expiresAtMs, rfl, rfl, leased_of_nextLease hnext, slot_insert _ _ _⟩

/-- Whether a slot holds the lease that is to be released. -/
def Holds (slot : ServiceLeaseSlot) (lease : ServiceLeaderLease) : Prop :=
  ∃ current, slot.lease = some current ∧ current.holderCoreId = lease.holderCoreId ∧
    current.epoch = lease.epoch

/-- **What releasing does to the slots**: the one of the service loses its lease when that is the one
released, and keeps its epoch. -/
theorem release_slot (lease : ServiceLeaderLease) (key : String) :
    (state.releaseServiceLease lease).2.slot key = state.slot key ∨
      serviceLeaseKey lease.tenantId lease.clusterId lease.serviceId = key ∧
        Holds (state.slot key) lease ∧
        (state.releaseServiceLease lease).2.slot key = { state.slot key with lease := none } := by
  unfold releaseServiceLease
  dsimp only
  split
  · exact Or.inl rfl
  next slot hslot =>
    split
    next hmatches =>
      dsimp only
      rw [slot_insert]
      by_cases hkey : serviceLeaseKey lease.tenantId lease.clusterId lease.serviceId = key
      · have hfound : state.slot key = slot := by
          rw [InMemoryState.slot, ← hkey, hslot, Option.getD_some]
        obtain ⟨current, hcurrent, hsame⟩ := (Option.any_eq_true _ _).1 hmatches
        rw [if_pos hkey, hfound]
        exact Or.inr ⟨hkey, ⟨current, hcurrent, of_decide_eq_true hsame⟩, rfl⟩
      · rw [if_neg hkey]
        exact Or.inl rfl
    next => exact Or.inl rfl

end InMemoryState

end AppCore.ControlPlane
