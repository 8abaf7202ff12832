import AppCore.Base.Runs
import AppCore.ControlPlane.Memory

/-!
# Who may write

The guard of `leadership.rs` lets a core write while it holds a lease that has not expired. It acts on
copies: the cores of a cluster ask one control plane for leases and pass on what they receive, and
their messages may be late or lost.

* `one_leader` — at most one core may write for a service, in every run in which no release is handled
  while its core has a lease of that epoch, and no renewal shortens a lease that its core has.

The invariant is that every copy that has not expired is one of the lease in the slot, and does not
outlive it.
-/

namespace AppCore.ControlPlane

/-! ## The guard -/

inductive LeadershipDecision where
  | allowed
  | noLease
  | expired
  | staleEpoch
  | wrongHolder
  deriving DecidableEq, Repr

structure StaticServiceLeadershipGuard where
  leases : Std.ExtTreeMap String ServiceLeaderLease compare

namespace StaticServiceLeadershipGuard

/-- A guard without leases. -/
def new : StaticServiceLeadershipGuard := { leases := ∅ }

variable (guard : StaticServiceLeadershipGuard)

def currentServiceLease (serviceId : ServiceId) : Option ServiceLeaderLease :=
  guard.leases[serviceId.asStr]?

/-- Why a lease does not replace another one. -/
def replaceError (existing replacement : ServiceLeaderLease) : Option ControlPlaneError :=
  let sameScope := existing.tenantId = replacement.tenantId ∧
    existing.clusterId = replacement.clusterId
  if sameScope ∧ replacement.epoch < existing.epoch then some (.conflict "stale lease epoch")
  else if sameScope ∧ replacement.epoch = existing.epoch ∧
      replacement.holderCoreId ≠ existing.holderCoreId then
    some (.conflict "lease epoch holder conflict")
  else none

def setServiceLease (serviceId : ServiceId) (lease : Option ServiceLeaderLease) :
    ControlPlaneResult StaticServiceLeadershipGuard :=
  if lease.any fun lease => lease.serviceId ≠ serviceId then
    .error (.conflict "service lease identity mismatch")
  else
    let error := (guard.currentServiceLease serviceId).bind fun existing =>
      lease.bind fun replacement => replaceError existing replacement
    match error, lease with
    | some error, _ => .error error
    | none, some lease => .ok { leases := guard.leases.insert serviceId.asStr lease }
    | none, none => .ok { leases := guard.leases.erase serviceId.asStr }

def checkServiceWritePermission (serviceId : ServiceId) (tenantId : TenantId)
    (clusterId : ClusterId) (coreId : CoreId) (minEpoch : Option UInt64) (nowMs : UInt64) :
    LeadershipDecision :=
  match guard.currentServiceLease serviceId with
  | none => .noLease
  | some lease =>
    if lease.expiresAtMs ≤ nowMs then .expired
    else if lease.serviceId ≠ serviceId ∨ lease.tenantId ≠ tenantId ∨
        lease.clusterId ≠ clusterId ∨ lease.holderCoreId ≠ coreId then .wrongHolder
    else if minEpoch.any fun epoch => lease.epoch < epoch then .staleEpoch
    else .allowed

end StaticServiceLeadershipGuard

/-! ## The cluster -/

/-- The two control planes: one goes by the time of the request, the other by its own clock. -/
inductive ControlPlaneKind where
  | memory
  | file
  deriving DecidableEq

/-- The control plane of a cluster, and the ttl of each core. -/
structure ClusterSetup where
  kind : ControlPlaneKind
  tenantId : TenantId
  clusterId : ClusterId
  ttlMs : CoreId → UInt64

/-- A request for a lease on its way. -/
structure LeaseRequest where
  identity : CoreIdentity
  serviceId : ServiceId
  nowMs : UInt64

/-- The clock, the control plane, the guards of the cores, and the messages on their way. -/
structure LeaseCluster where
  clock : UInt64
  plane : InMemoryState
  guards : CoreId → StaticServiceLeadershipGuard
  requests : List LeaseRequest
  responses : List (CoreId × ServiceLeaderLease)
  releases : List ServiceLeaderLease

/-- What happens in a cluster. -/
inductive ClusterStep where
  | tick (nowMs : UInt64)
  | request (identity : CoreIdentity) (serviceId : ServiceId)
  | handle (request : Nat)
  | receive (response : Nat)
  | release (coreId : CoreId) (serviceId : ServiceId)
  | handleRelease (release : Nat)
  | loseRequest (request : Nat)
  | loseResponse (response : Nat)
  | loseRelease (release : Nat)

namespace LeaseCluster

/-- Nobody has asked for a lease. -/
def new : LeaseCluster :=
  { clock := 0, plane := .default, guards := fun _ => .new, requests := [], responses := [],
    releases := [] }

/-- The time that the control plane goes by. -/
def serverNow (setup : ClusterSetup) (s : LeaseCluster) (request : LeaseRequest) : UInt64 :=
  match setup.kind with
  | .memory => request.nowMs
  | .file => s.clock

/-- The control plane handles a request. The one with a file saves nothing when it fails. -/
def handle (setup : ClusterSetup) (s : LeaseCluster) (i : Nat) (request : LeaseRequest) :
    LeaseCluster :=
  let answer := s.plane.acquireOrRenewServiceLease request.identity request.serviceId
    (setup.ttlMs request.identity.coreId) (s.serverNow setup request)
  match answer.1, setup.kind with
  | .ok lease, _ =>
    { s with
      plane := answer.2
      requests := s.requests.eraseIdx i
      responses := s.responses ++ [(request.identity.coreId, lease)] }
  | .error _, .memory => { s with plane := answer.2, requests := s.requests.eraseIdx i }
  | .error _, .file => { s with requests := s.requests.eraseIdx i }

/-- A core passes a lease that it receives to its guard. -/
def receive (s : LeaseCluster) (i : Nat) (coreId : CoreId) (lease : ServiceLeaderLease) :
    LeaseCluster :=
  let guard := match (s.guards coreId).setServiceLease lease.serviceId (some lease) with
    | .ok guard => guard
    | .error _ => s.guards coreId
  { s with guards := Function.update s.guards coreId guard, responses := s.responses.eraseIdx i }

/-- A core clears its guard, and sends the release of the lease that was in it. -/
def release (s : LeaseCluster) (coreId : CoreId) (serviceId : ServiceId)
    (lease : ServiceLeaderLease) : LeaseCluster :=
  let guard := match (s.guards coreId).setServiceLease serviceId none with
    | .ok guard => guard
    | .error _ => s.guards coreId
  { s with guards := Function.update s.guards coreId guard, releases := s.releases ++ [lease] }

/-- One step; there is none when there is no such message or lease, or when the clock would go
back. -/
def step (setup : ClusterSetup) (s : LeaseCluster) : ClusterStep → Option LeaseCluster
  | .tick nowMs => if s.clock ≤ nowMs then some { s with clock := nowMs } else none
  | .request identity serviceId =>
    if identity.tenantId = setup.tenantId ∧ identity.clusterId = setup.clusterId then
      some { s with requests := s.requests ++ [{ identity, serviceId, nowMs := s.clock }] }
    else none
  | .handle i => (s.requests[i]?).map (s.handle setup i)
  | .receive i => (s.responses[i]?).map fun response => s.receive i response.1 response.2
  | .release coreId serviceId =>
    ((s.guards coreId).currentServiceLease serviceId).map (s.release coreId serviceId)
  | .handleRelease i =>
    (s.releases[i]?).map fun lease =>
      { s with plane := (s.plane.releaseServiceLease lease).2, releases := s.releases.eraseIdx i }
  | .loseRequest i => some { s with requests := s.requests.eraseIdx i }
  | .loseResponse i => some { s with responses := s.responses.eraseIdx i }
  | .loseRelease i => some { s with releases := s.releases.eraseIdx i }

/-- What a core is told that asks its guard now. -/
def decision (setup : ClusterSetup) (s : LeaseCluster) (coreId : CoreId) (serviceId : ServiceId) :
    LeadershipDecision :=
  (s.guards coreId).checkServiceWritePermission serviceId setup.tenantId setup.clusterId coreId none
    s.clock

/-- At most one core may write for a service. -/
def OneLeader (setup : ClusterSetup) (s : LeaseCluster) : Prop :=
  ∀ serviceId coreId coreId', s.decision setup coreId serviceId = .allowed →
    s.decision setup coreId' serviceId = .allowed → coreId = coreId'

/-- A core has a copy of a lease, in its guard or on the way to it. -/
def Copy (s : LeaseCluster) (coreId : CoreId) (lease : ServiceLeaderLease) : Prop :=
  (s.guards coreId).leases[lease.serviceId.asStr]? = some lease ∨ (coreId, lease) ∈ s.responses

/-- A release finds no unexpired copy of its epoch at its core. In memory, a request is not so old
that its core has an unexpired copy that outlives the lease it would get. -/
def InOrder (setup : ClusterSetup) (s : LeaseCluster) : ClusterStep → Prop
  | .handle i => setup.kind = .memory → ∀ request, s.requests[i]? = some request →
      ∀ lease, s.Copy request.identity.coreId lease → lease.serviceId = request.serviceId →
        s.clock < lease.expiresAtMs →
        lease.expiresAtMs.toNat ≤ request.nowMs.toNat + (setup.ttlMs request.identity.coreId).toNat
  | .handleRelease i => ∀ released, s.releases[i]? = some released →
      ∀ lease, s.Copy released.holderCoreId lease → lease.serviceId = released.serviceId →
        lease.epoch = released.epoch → lease.expiresAtMs ≤ s.clock
  | _ => True

/-! ## What is true of the copies -/

def slotOf (setup : ClusterSetup) (s : LeaseCluster) (serviceId : ServiceId) : ServiceLeaseSlot :=
  s.plane.slot (serviceLeaseKey setup.tenantId setup.clusterId serviceId)

def InScope (setup : ClusterSetup) (lease : ServiceLeaderLease) : Prop :=
  lease.tenantId = setup.tenantId ∧ lease.clusterId = setup.clusterId

/-- The leases in the slots, the copies and the messages belong to the cluster; no copy was made for
longer than the ttl of its core; and one that has not expired is of the lease in its slot. -/
structure Led (setup : ClusterSetup) (s : LeaseCluster) : Prop where
  slots : ∀ serviceId current, (s.slotOf setup serviceId).lease = some current →
    InScope setup current ∧ current.serviceId = serviceId
  keyed : ∀ (coreId : CoreId) (key : String) (lease : ServiceLeaderLease),
    (s.guards coreId).leases[key]? = some lease → key = lease.serviceId.asStr
  copies : ∀ coreId lease, s.Copy coreId lease → InScope setup lease ∧
    lease.expiresAtMs.toNat ≤ s.clock.toNat + (setup.ttlMs coreId).toNat
  releases : ∀ lease ∈ s.releases, InScope setup lease
  requests : ∀ request ∈ s.requests, request.identity.tenantId = setup.tenantId ∧
    request.identity.clusterId = setup.clusterId ∧ request.nowMs ≤ s.clock
  live : ∀ coreId lease, s.Copy coreId lease → s.clock < lease.expiresAtMs →
    ∃ current, (s.slotOf setup lease.serviceId).lease = some current ∧
      current.holderCoreId = coreId ∧ current.epoch = lease.epoch ∧
      lease.expiresAtMs ≤ current.expiresAtMs

variable {setup : ClusterSetup} {s s' : LeaseCluster}

/-- What a step keeps that leaves the slots alone and makes no copies. -/
theorem Led.of_copies (h : Led setup s) (hclock : s.clock ≤ s'.clock)
    (hslots : ∀ serviceId, s'.slotOf setup serviceId = s.slotOf setup serviceId)
    (hkeyed : ∀ (coreId : CoreId) (key : String) (lease : ServiceLeaderLease),
      (s'.guards coreId).leases[key]? = some lease → key = lease.serviceId.asStr)
    (hcopies : ∀ coreId lease, s'.Copy coreId lease → s.Copy coreId lease)
    (hreleases : ∀ lease ∈ s'.releases, InScope setup lease)
    (hrequests : ∀ request ∈ s'.requests, request.identity.tenantId = setup.tenantId ∧
      request.identity.clusterId = setup.clusterId ∧ request.nowMs ≤ s'.clock) : Led setup s' where
  slots serviceId current hcurrent := by
    rw [hslots] at hcurrent
    exact h.slots serviceId current hcurrent
  keyed := hkeyed
  copies coreId lease hcopy := by
    obtain ⟨hscope, hexpires⟩ := h.copies coreId lease (hcopies coreId lease hcopy)
    have hle := UInt64.le_iff_toNat_le.1 hclock
    exact ⟨hscope, by omega⟩
  releases := hreleases
  requests := hrequests
  live coreId lease hcopy hlive := by
    rw [hslots]
    exact h.live coreId lease (hcopies coreId lease hcopy) (UInt64.lt_of_le_of_lt hclock hlive)

theorem Led.requests_of_subset (h : Led setup s) {requests : List LeaseRequest}
    (hsub : requests ⊆ s.requests) : ∀ request ∈ requests,
      request.identity.tenantId = setup.tenantId ∧ request.identity.clusterId = setup.clusterId ∧
        request.nowMs ≤ s.clock :=
  fun request hrequest => h.requests request (hsub hrequest)

/-! ### The guards -/

theorem setServiceLease_none (guard : StaticServiceLeadershipGuard) (serviceId : ServiceId) :
    guard.setServiceLease serviceId none = .ok { leases := guard.leases.erase serviceId.asStr } := by
  unfold StaticServiceLeadershipGuard.setServiceLease
  cases guard.currentServiceLease serviceId <;> rfl

variable {lease : ServiceLeaderLease}

theorem lookup_setServiceLease {guard guard' : StaticServiceLeadershipGuard}
    (h : guard.setServiceLease lease.serviceId (some lease) = .ok guard') (key : String) :
    guard'.leases[key]? = if lease.serviceId.asStr = key then some lease else guard.leases[key]? := by
  unfold StaticServiceLeadershipGuard.setServiceLease at h
  split at h
  · cases h
  · dsimp only at h
    split at h
    · cases h
    next replacement _ heq =>
      cases h
      cases heq
      exact lookup_insert guard.leases lease.serviceId.asStr key lease
    next heq => cases heq

variable {i : Nat} {coreId : CoreId}

theorem led_receive (h : Led setup s) (hi : s.responses[i]? = some (coreId, lease)) :
    Led setup (s.receive i coreId lease) := by
  have hcases : ∀ (core : CoreId) (key : String) (found : ServiceLeaderLease),
      ((s.receive i coreId lease).guards core).leases[key]? = some found →
      (s.guards core).leases[key]? = some found ∨
        core = coreId ∧ found = lease ∧ key = lease.serviceId.asStr := by
    intro core key found hfound
    unfold receive at hfound
    dsimp only at hfound
    by_cases hcore : core = coreId
    · subst hcore
      rw [Function.update_self] at hfound
      split at hfound
      next guard hguard =>
        rw [lookup_setServiceLease hguard] at hfound
        split at hfound
        next hkey =>
          rw [Option.some.injEq] at hfound
          exact Or.inr ⟨rfl, hfound.symm, hkey.symm⟩
        next => exact Or.inl hfound
      next => exact Or.inl hfound
    · rw [Function.update_of_ne hcore] at hfound
      exact Or.inl hfound
  refine h.of_copies (UInt64.le_refl _) (fun _ => rfl) ?_ ?_ h.releases h.requests
  · intro core key found hfound
    rcases hcases core key found hfound with hold | ⟨-, rfl, hkey⟩
    · exact h.keyed core key found hold
    · exact hkey
  · intro core found hcopy
    rcases hcopy with hguard | hresponse
    · rcases hcases core _ found hguard with hold | ⟨rfl, rfl, -⟩
      · exact Or.inl hold
      · exact Or.inr (List.mem_of_getElem? hi)
    · exact Or.inr (List.mem_of_mem_eraseIdx hresponse)

variable {serviceId : ServiceId}

theorem led_release (h : Led setup s)
    (hlease : (s.guards coreId).currentServiceLease serviceId = some lease) :
    Led setup (s.release coreId serviceId lease) := by
  have hcases : ∀ (core : CoreId) (key : String) (found : ServiceLeaderLease),
      ((s.release coreId serviceId lease).guards core).leases[key]? = some found →
      (s.guards core).leases[key]? = some found := by
    intro core key found hfound
    unfold release at hfound
    dsimp only at hfound
    rw [setServiceLease_none] at hfound
    by_cases hcore : core = coreId
    · subst hcore
      rw [Function.update_self] at hfound
      dsimp only at hfound
      rw [lookup_erase] at hfound
      split at hfound
      · cases hfound
      · exact hfound
    · rw [Function.update_of_ne hcore] at hfound
      exact hfound
  refine h.of_copies (UInt64.le_refl _) (fun _ => rfl) ?_ ?_ ?_ h.requests
  · intro core key found hfound
    exact h.keyed core key found (hcases core key found hfound)
  · intro core found hcopy
    rcases hcopy with hguard | hresponse
    · exact Or.inl (hcases core _ found hguard)
    · exact Or.inr hresponse
  · intro released hreleased
    rcases List.mem_append.1 hreleased with hold | hnew
    · exact h.releases released hold
    · rw [List.mem_singleton.1 hnew]
      have hkey : serviceId.asStr = lease.serviceId.asStr := h.keyed coreId _ lease hlease
      refine (h.copies coreId lease (Or.inl ?_)).1
      rw [← hkey]
      exact hlease

/-! ### The control plane -/

variable {request : LeaseRequest}

theorem slotOf_handle_of_ne {plane : InMemoryState} {ttlMs nowMs : UInt64}
    (htenant : request.identity.tenantId = setup.tenantId)
    (hcluster : request.identity.clusterId = setup.clusterId) (hne : request.serviceId ≠ serviceId) :
    
    (plane.acquireOrRenewServiceLease request.identity request.serviceId ttlMs nowMs).2.slot
        (serviceLeaseKey setup.tenantId setup.clusterId serviceId) =
      plane.slot (serviceLeaseKey setup.tenantId setup.clusterId serviceId) := by
  rcases @InMemoryState.acquire_slot plane request.identity request.serviceId ttlMs nowMs
    (serviceLeaseKey setup.tenantId setup.clusterId serviceId) with
    ⟨_, _, hslot⟩ | ⟨_, _, _, _, _, hslot⟩
  · exact hslot
  · rw [hslot, htenant, hcluster, if_neg fun heq => hne (serviceLeaseKey_inj.1 heq)]

/-- A lease that is given out outlives the copies of the one that was in its slot. -/
theorem led_leased (h : Led setup s) {expiresAtMs nowMs : UInt64}
    (hrequest : s.requests[i]? = some request) (hnow : nowMs ≤ s.clock)
    (hexpires : expiresAtMs.toNat =
      nowMs.toNat + (setup.ttlMs request.identity.coreId).toNat)
    (houtlives : ∀ copy, s.Copy request.identity.coreId copy →
      copy.serviceId = request.serviceId → s.clock < copy.expiresAtMs →
      copy.expiresAtMs ≤ expiresAtMs)
    (hleased : InMemoryState.Leased (s.slotOf setup request.serviceId) request.identity
      request.serviceId nowMs expiresAtMs lease) (hguards : s'.guards = s.guards)
    (hclock : s'.clock = s.clock) (hrequests : s'.requests ⊆ s.requests)
    (hreleases : s'.releases = s.releases)
    (hresponses : s'.responses = s.responses ++ [(request.identity.coreId, lease)])
    (hslot : (s'.slotOf setup request.serviceId).lease = some lease)
    (hother : ∀ serviceId, request.serviceId ≠ serviceId →
      s'.slotOf setup serviceId = s.slotOf setup serviceId) : Led setup s' := by
  obtain ⟨htenant, hcluster, -⟩ := h.requests request (List.mem_of_getElem? hrequest)
  -- the lease belongs to the service of the cluster that was asked for
  have hscope : InScope setup lease ∧ lease.serviceId = request.serviceId := by
    cases hleased with
    | renewed current hcurrent _ _ => exact h.slots request.serviceId current hcurrent
    | granted epoch _ _ => exact ⟨⟨htenant, hcluster⟩, rfl⟩
  have hcases : ∀ coreId copy, s'.Copy coreId copy →
      s.Copy coreId copy ∨ coreId = request.identity.coreId ∧ copy = lease := by
    intro coreId copy hcopy
    rcases hcopy with hguard | hresponse
    · rw [hguards] at hguard
      exact Or.inl (Or.inl hguard)
    · rw [hresponses] at hresponse
      rcases List.mem_append.1 hresponse with hold | hnew
      · exact Or.inl (Or.inr hold)
      · cases List.mem_singleton.1 hnew
        exact Or.inr ⟨rfl, rfl⟩
  refine ⟨?_, hguards ▸ h.keyed, ?_, hreleases ▸ h.releases, ?_, ?_⟩
  · intro serviceId current hcurrent
    by_cases hservice : request.serviceId = serviceId
    · subst hservice
      rw [hslot, Option.some.injEq] at hcurrent
      rw [← hcurrent]
      exact hscope
    · rw [hother serviceId hservice] at hcurrent
      exact h.slots serviceId current hcurrent
  · intro coreId copy hcopy
    rw [hclock]
    rcases hcases coreId copy hcopy with hold | ⟨rfl, rfl⟩
    · exact h.copies coreId copy hold
    · rw [hleased.expires]
      have hle := UInt64.le_iff_toNat_le.1 hnow
      exact ⟨hscope.1, by omega⟩
  · rw [hclock]
    exact h.requests_of_subset hrequests
  · intro coreId copy hcopy hlive
    rw [hclock] at hlive
    rcases hcases coreId copy hcopy with hold | ⟨rfl, rfl⟩
    · obtain ⟨current, hcurrent, hholder, hepoch, hle⟩ := h.live coreId copy hold hlive
      by_cases hservice : request.serviceId = copy.serviceId
      · rw [← hservice] at hcurrent ⊢
        refine ⟨lease, hslot, ?_⟩
        cases hleased with
        | renewed found hfound _ hown =>
          rw [hcurrent, Option.some.injEq] at hfound
          subst hfound
          have hcore : coreId = request.identity.coreId := hholder.symm.trans hown
          subst hcore
          exact ⟨hholder, hepoch, houtlives copy hold hservice.symm hlive⟩
        | granted epoch _ hfree =>
          have hexpired := UInt64.le_trans (hfree current hcurrent) hnow
          exact absurd hlive (UInt64.not_lt.2 (UInt64.le_trans hle hexpired))
      · rw [hother copy.serviceId hservice]
        exact ⟨current, hcurrent, hholder, hepoch, hle⟩
    · rw [hscope.2]
      exact ⟨copy, hslot, hleased.holder, rfl, UInt64.le_refl _⟩

theorem led_handle (h : Led setup s) (hi : s.requests[i]? = some request)
    (horder : s.InOrder setup (.handle i)) :
    Led setup (s.handle setup i request) := by
  obtain ⟨htenant, hcluster, hasked⟩ := h.requests request (List.mem_of_getElem? hi)
  have hsub : s.requests.eraseIdx i ⊆ s.requests := fun _ hr => List.mem_of_mem_eraseIdx hr
  have hnow : s.serverNow setup request ≤ s.clock := by
    unfold serverNow
    split
    · exact hasked
    · exact UInt64.le_refl _
  have hslots := @InMemoryState.acquire_slot s.plane request.identity request.serviceId
    (setup.ttlMs request.identity.coreId) (s.serverNow setup request)
  unfold handle
  dsimp only
  cases hresult : (s.plane.acquireOrRenewServiceLease request.identity request.serviceId
      (setup.ttlMs request.identity.coreId) (s.serverNow setup request)).1 with
  | error error =>
    have hsame : ∀ key, (s.plane.acquireOrRenewServiceLease request.identity request.serviceId
        (setup.ttlMs request.identity.coreId) (s.serverNow setup request)).2.slot key =
        s.plane.slot key := by
      intro key
      rcases hslots key with ⟨_, _, hslot⟩ | ⟨_, _, hok, _⟩
      · exact hslot
      · rw [hresult] at hok
        cases hok
    cases setup.kind with
    | memory =>
      exact h.of_copies (UInt64.le_refl _) (fun _ => hsame _) h.keyed (fun _ _ hcopy => hcopy)
        h.releases (h.requests_of_subset hsub)
    | file =>
      exact h.of_copies (UInt64.le_refl _) (fun _ => rfl) h.keyed (fun _ _ hcopy => hcopy)
        h.releases (h.requests_of_subset hsub)
  | ok lease =>
    rcases hslots (serviceLeaseKey setup.tenantId setup.clusterId request.serviceId) with
      ⟨_, herror, _⟩ | ⟨found, expiresAtMs, hok, hexpiration, hleased, hslot⟩
    · rw [hresult] at herror
      cases herror
    · rw [hresult] at hok
      cases hok
      rw [htenant, hcluster] at hleased hslot
      rw [if_pos rfl] at hslot
      have hexpires := (InMemoryState.leaseExpiration_eq_ok hexpiration).2
      refine led_leased h hi hnow hexpires ?_ hleased rfl rfl hsub rfl rfl
        (congrArg ServiceLeaseSlot.lease hslot)
        (fun _ hne => slotOf_handle_of_ne htenant hcluster hne)
      intro copy hcopy hservice hlive
      rw [UInt64.le_iff_toNat_le, hexpires]
      cases hkind : setup.kind with
      | memory =>
        have hle := horder hkind request hi copy hcopy hservice hlive
        simpa [serverNow, hkind] using hle
      | file =>
        have hle := (h.copies request.identity.coreId copy hcopy).2
        simpa [serverNow, hkind] using hle

theorem led_handleRelease (h : Led setup s) {released : ServiceLeaderLease}
    (hi : s.releases[i]? = some released) (horder : s.InOrder setup (.handleRelease i)) :
    Led setup { s with
      plane := (s.plane.releaseServiceLease released).2
      releases := s.releases.eraseIdx i } := by
  obtain ⟨htenant, hcluster⟩ := h.releases released (List.mem_of_getElem? hi)
  have hslots : ∀ serviceId,
      (s.plane.releaseServiceLease released).2.slot
          (serviceLeaseKey setup.tenantId setup.clusterId serviceId) = s.slotOf setup serviceId ∨
        released.serviceId = serviceId ∧
          InMemoryState.Holds (s.slotOf setup serviceId) released ∧
          (s.plane.releaseServiceLease released).2.slot
            (serviceLeaseKey setup.tenantId setup.clusterId serviceId) =
              { s.slotOf setup serviceId with lease := none } := by
    intro serviceId
    rcases @InMemoryState.release_slot s.plane released
      (serviceLeaseKey setup.tenantId setup.clusterId serviceId) with hsame | ⟨hkey, hholds, hslot⟩
    · exact Or.inl hsame
    · rw [htenant, hcluster] at hkey
      exact Or.inr ⟨serviceLeaseKey_inj.1 hkey, hholds, hslot⟩
  refine ⟨?_, h.keyed, h.copies, ?_, h.requests, ?_⟩
  · intro serviceId current hcurrent
    unfold slotOf at hcurrent
    rcases hslots serviceId with hsame | ⟨_, _, hslot⟩
    · rw [hsame] at hcurrent
      exact h.slots serviceId current hcurrent
    · rw [hslot] at hcurrent
      cases hcurrent
  · exact fun lease hlease => h.releases lease (List.mem_of_mem_eraseIdx hlease)
  · intro coreId copy hcopy hlive
    obtain ⟨current, hcurrent, hholder, hepoch, hle⟩ := h.live coreId copy hcopy hlive
    rcases hslots copy.serviceId with hsame | ⟨hservice, hholds, _⟩
    · refine ⟨current, ?_, hholder, hepoch, hle⟩
      unfold slotOf
      rw [hsame]
      exact hcurrent
    · -- the release is of the lease that this is a copy of
      obtain ⟨found, hfound, hfoundHolder, hfoundEpoch⟩ := hholds
      rw [hcurrent, Option.some.injEq] at hfound
      subst hfound
      have hcore : coreId = released.holderCoreId := hholder.symm.trans hfoundHolder
      subst hcore
      have hexpired := horder released hi copy hcopy hservice.symm (hepoch.symm.trans hfoundEpoch)
      exact absurd hlive (UInt64.not_lt.2 hexpired)

theorem led_step (h : Led setup s) {st : ClusterStep} (horder : s.InOrder setup st)
    (hstep : s.step setup st = some s') : Led setup s' := by
  cases st with
  | tick nowMs =>
    simp only [step] at hstep
    split at hstep
    next hle =>
      cases hstep
      refine h.of_copies hle (fun _ => rfl) h.keyed (fun _ _ hcopy => hcopy) h.releases ?_
      intro request hrequest
      obtain ⟨htenant, hcluster, hasked⟩ := h.requests request hrequest
      exact ⟨htenant, hcluster, UInt64.le_trans hasked hle⟩
    · cases hstep
  | request identity serviceId =>
    simp only [step] at hstep
    split at hstep
    next hscope =>
      cases hstep
      refine h.of_copies (UInt64.le_refl _) (fun _ => rfl) h.keyed (fun _ _ hcopy => hcopy)
        h.releases ?_
      intro request hrequest
      rcases List.mem_append.1 hrequest with hold | hnew
      · exact h.requests request hold
      · rw [List.mem_singleton.1 hnew]
        exact ⟨hscope.1, hscope.2, UInt64.le_refl _⟩
    · cases hstep
  | handle i =>
    obtain ⟨request, hi, rfl⟩ := Option.map_eq_some_iff.1 hstep
    exact led_handle h hi horder
  | receive i =>
    obtain ⟨response, hi, rfl⟩ := Option.map_eq_some_iff.1 hstep
    exact led_receive h hi
  | release coreId serviceId =>
    obtain ⟨lease, hlease, rfl⟩ := Option.map_eq_some_iff.1 hstep
    exact led_release h hlease
  | handleRelease i =>
    obtain ⟨released, hi, rfl⟩ := Option.map_eq_some_iff.1 hstep
    exact led_handleRelease h hi horder
  | loseRequest i =>
    cases hstep
    exact h.of_copies (UInt64.le_refl _) (fun _ => rfl) h.keyed (fun _ _ hcopy => hcopy) h.releases
      (h.requests_of_subset fun _ hr => List.mem_of_mem_eraseIdx hr)
  | loseResponse i =>
    cases hstep
    refine h.of_copies (UInt64.le_refl _) (fun _ => rfl) h.keyed ?_ h.releases h.requests
    intro coreId lease hcopy
    exact hcopy.imp id List.mem_of_mem_eraseIdx
  | loseRelease i =>
    cases hstep
    exact h.of_copies (UInt64.le_refl _) (fun _ => rfl) h.keyed (fun _ _ hcopy => hcopy)
      (fun lease hlease => h.releases lease (List.mem_of_mem_eraseIdx hlease)) h.requests

theorem led_new : Led setup new := by
  have hguard : ∀ (coreId : CoreId) (key : String), (new.guards coreId).leases[key]? = none :=
    fun _ _ => Std.ExtTreeMap.getElem?_empty
  have hcopy : ∀ coreId lease, ¬ new.Copy coreId lease := by
    intro coreId lease hcopy
    rcases hcopy with hfound | hresponse
    · rw [hguard] at hfound
      cases hfound
    · cases hresponse
  have hslot : ∀ serviceId, new.slotOf setup serviceId = .default := by
    intro serviceId
    unfold slotOf InMemoryState.slot
    rw [show new.plane.serviceLeases[serviceLeaseKey setup.tenantId setup.clusterId serviceId]? =
      none from Std.ExtTreeMap.getElem?_empty, Option.getD_none]
  refine ⟨?_, ?_, ?_, nofun, nofun, ?_⟩
  · intro serviceId current hcurrent
    rw [hslot] at hcurrent
    cases hcurrent
  · intro coreId key lease hfound
    rw [hguard] at hfound
    cases hfound
  · exact fun coreId lease h => absurd h (hcopy coreId lease)
  · exact fun coreId lease h => absurd h (hcopy coreId lease)

/-- A core that may write has a copy that has not expired. -/
theorem copy_of_allowed (h : s.decision setup coreId serviceId = .allowed) :
    ∃ lease, s.Copy coreId lease ∧ lease.serviceId = serviceId ∧ s.clock < lease.expiresAtMs := by
  unfold decision StaticServiceLeadershipGuard.checkServiceWritePermission at h
  split at h
  · cases h
  next lease hlease =>
    split at h
    · cases h
    next hlive =>
      split at h
      · cases h
      next hmatches =>
        have hservice : lease.serviceId = serviceId := by
          by_contra hne
          exact hmatches (Or.inl hne)
        refine ⟨lease, Or.inl ?_, hservice, UInt64.not_le.1 hlive⟩
        rw [hservice]
        exact hlease

theorem Led.oneLeader (h : Led setup s) : s.OneLeader setup := by
  intro serviceId coreId coreId' hallowed hallowed'
  obtain ⟨lease, hcopy, hservice, hlive⟩ := copy_of_allowed hallowed
  obtain ⟨lease', hcopy', hservice', hlive'⟩ := copy_of_allowed hallowed'
  obtain ⟨current, hcurrent, hholder, -⟩ := h.live coreId lease hcopy hlive
  obtain ⟨current', hcurrent', hholder', -⟩ := h.live coreId' lease' hcopy' hlive'
  rw [hservice] at hcurrent
  rw [hservice', hcurrent, Option.some.injEq] at hcurrent'
  subst hcurrent'
  exact hholder.symm.trans hholder'

end LeaseCluster

open LeaseCluster

/-- **At most one core may write for a service**, in every run in which a release finds no unexpired
copy of its epoch at its core, and no renewal shortens an unexpired copy. -/
theorem one_leader (setup : ClusterSetup) (steps : List ClusterStep)
    (horder : EachStep (LeaseCluster.step setup) (InOrder setup) .new steps) :
    Throughout (LeaseCluster.step setup) (OneLeader setup) .new steps :=
  (throughout_of_step led_new (fun _ _ _ h horder hstep => led_step h horder hstep) horder).imp
    fun _ h => h.oneLeader

/-! ### Runs -/

/-- A core of the sample cluster. -/
def sampleIdentity (coreId : String) : CoreIdentity :=
  { tenantId := ⟨"tenant-a"⟩, clusterId := ⟨"cluster-a"⟩, coreId := ⟨coreId⟩,
    instanceId := ⟨coreId ++ "-1"⟩, kind := "operational", protocolVersion := ⟨1⟩,
    runtime := { appId := "app", appFamily := "family", syncGroup := "test", runtimeContract := 1,
                 nodeId := ⟨"node"⟩ } }

/-- A cluster whose cores take leases for 50 ms. -/
def sampleSetup (kind : ControlPlaneKind) : ClusterSetup :=
  { kind, tenantId := ⟨"tenant-a"⟩, clusterId := ⟨"cluster-a"⟩, ttlMs := fun _ => 50 }

/-- A core asks for a lease and gets the answer. -/
def leaseSteps (coreId : String) : List ClusterStep :=
  [.request (sampleIdentity coreId) ⟨"runtime.query"⟩, .handle 0, .receive 0]

/-- The lease of one core expires before another one asks. -/
theorem one_leader_sample :
    Throughout (LeaseCluster.step (sampleSetup .file)) (OneLeader (sampleSetup .file)) .new
      (.tick 100 :: leaseSteps "core-a" ++ .tick 151 :: leaseSteps "core-b") := by
  refine one_leader (sampleSetup .file) _ ?_
  intro before st after s heq hrun
  have hmem : st ∈ .tick 100 :: leaseSteps "core-a" ++ .tick 151 :: leaseSteps "core-b" :=
    heq ▸ List.mem_append_right before List.mem_cons_self
  cases st with
  | handle i => exact nofun
  | handleRelease i => simp [leaseSteps] at hmem
  | _ => trivial

/-- A core clears its guard and releases its lease, but its next request overtakes the release: the
lease is renewed under its epoch, and then cleared, while the core may still write. -/
theorem two_leaders :
    ¬ ∀ (setup : ClusterSetup) (steps : List ClusterStep),
      Throughout (LeaseCluster.step setup) (OneLeader setup) .new steps := by
  intro h
  have hthroughout := h (sampleSetup .memory) (.tick 100 :: leaseSteps "core-a" ++
    .release ⟨"core-a"⟩ ⟨"runtime.query"⟩ :: leaseSteps "core-a" ++
    .handleRelease 0 :: leaseSteps "core-b")
  have hrun : (runFrom (LeaseCluster.step (sampleSetup .memory)) .new (.tick 100 ::
      leaseSteps "core-a" ++ .release ⟨"core-a"⟩ ⟨"runtime.query"⟩ :: leaseSteps "core-a" ++
      .handleRelease 0 :: leaseSteps "core-b")).map (fun s =>
        (s.decision (sampleSetup .memory) ⟨"core-a"⟩ ⟨"runtime.query"⟩,
          s.decision (sampleSetup .memory) ⟨"core-b"⟩ ⟨"runtime.query"⟩)) =
      some (.allowed, .allowed) := by decide
  obtain ⟨s, hs, hdecisions⟩ := Option.map_eq_some_iff.1 hrun
  obtain ⟨hfirst, hsecond⟩ := Prod.mk.inj hdecisions
  have hsame := hthroughout.final hs _ _ _ hfirst hsecond
  exact absurd hsame (by decide)

end AppCore.ControlPlane
