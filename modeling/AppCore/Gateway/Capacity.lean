import AppCore.Base.Delimited
import AppCore.Gateway.RouterProof

/-!
# The capacity of the gateway

A connection or a routed request makes a partition for its tenant, and no step takes a partition
away: a teardown, the pruner and a call that ends only make the partition smaller. The limits on
connections hold in every run.

* `capacity_iff` — the limit on tenants is kept, and met by live tenants only, exactly when no
  partition is left empty by the time the map of tenants is full.
-/

namespace AppCore.Gateway

/-- Whether a tenant has a worker, a client or a request that waits. -/
def TenantState.live (tenant : TenantState) : Bool :=
  !(tenant.workers.isEmpty && tenant.clients.isEmpty && tenant.pendingRequests.isEmpty &&
    tenant.pendingMeshRequests.isEmpty)

/-- How many connections a tenant has. -/
def TenantState.connections (tenant : TenantState) : Nat :=
  tenant.workers.length + tenant.clients.length

/-- How many tenants are live. -/
def liveTenants (tenants : Std.ExtTreeMap String TenantState compare) : Nat :=
  tenants.toList.countP fun entry => entry.2.live

namespace GatewayProcess

/-- A connection of the tenant would be refused for the limit on tenants. -/
def RefusedForTenants (g : GatewayProcess) (stateId : Nat) (tenantId : TenantId) : Prop :=
  (g.states stateId).tenants.contains tenantId.asStr = false ∧
    (g.states stateId).tenants.size ≥ maxGatewayTenants

/-- The limits on the connections of a state. -/
structure WithinLimits (g : GatewayProcess) (stateId : Nat) : Prop where
  connections : connectionCount (g.states stateId).tenants ≤ maxGatewayConnections
  workers : ∀ tenantId tenant, g.tenant stateId tenantId = some tenant →
    tenant.workers.length ≤ maxGatewayWorkersPerTenant
  clients : ∀ tenantId tenant, g.tenant stateId tenantId = some tenant →
    tenant.clients.length ≤ maxGatewayClientsPerTenant

/-- The limit on the tenants of a state, and what it takes to be refused for it. -/
structure TenantsWithin (g : GatewayProcess) (stateId : Nat) : Prop where
  tenants : (g.states stateId).tenants.size ≤ maxGatewayTenants
  refused : ∀ tenantId, g.RefusedForTenants stateId tenantId →
    maxGatewayTenants ≤ liveTenants (g.states stateId).tenants

/-- **Capacity is consumed by what is connected.** -/
def Capacity (g : GatewayProcess) : Prop :=
  ∀ stateId, g.WithinLimits stateId ∧ g.TenantsWithin stateId

/-! ## The condition on a step -/

/-- Every partition of a state is live. -/
def AllLive (g : GatewayProcess) (stateId : Nat) : Prop :=
  ∀ tenantId tenant, g.tenant stateId tenantId = some tenant → tenant.live = true

/-- The map of tenants of a state is full. -/
def Full (g : GatewayProcess) (stateId : Nat) : Prop :=
  maxGatewayTenants ≤ (g.states stateId).tenants.size

/-- A connection of the tenant takes the last place of the map. -/
def TakesLast (g : GatewayProcess) (stateId : Nat) (tenantId : TenantId) : Prop :=
  g.tenant stateId tenantId = none ∧ (g.states stateId).tenants.size + 1 = maxGatewayTenants ∧
    connectionCount (g.states stateId).tenants < maxGatewayConnections

end GatewayProcess

/-- A tenant without a request that waits. -/
def TenantState.without (tenant : TenantState) (key : PendingKey) : TenantState :=
  tenant.setPending key.mesh ((tenant.pending key.mesh).erase key.requestId)

/-- Whether the metadata of a call admit a frame. -/
def WorkerFrame.accepts (frame : WorkerFrame) (metadata : PendingMetadata) : Bool :=
  match frame.response with
  | .plain _ => (some frame.generation).all fun value => value = metadata.workerGeneration
  | .mesh response =>
    ((some frame.generation).all fun value => value = metadata.workerGeneration) ∧
      metadata.responseLimit.any fun limit =>
        response.validateForRequest response.requestId limit = .ok ()

namespace GatewayProcess

/-- While the map of tenants is full, the tenant stays live without a request that waits. -/
def SparesPending (g : GatewayProcess) (key : PendingKey) : Prop :=
  g.Full key.stateId → ∀ tenant, g.tenant key.stateId key.tenantId = some tenant →
    (tenant.without key).live = true

/-- A step leaves no partition empty in a full map. -/
def KeepsRoom [Sha256] (g : GatewayProcess) : GatewayStep → Prop
  | .request stateId envelope nowMs _ _ =>
    validateRoutingEnvelope envelope nowMs = none → g.tenant stateId envelope.tenantId = none →
      (g.states stateId).tenants.size + 1 < maxGatewayTenants
  | .connectWorker stateId key _ _ _ => g.TakesLast stateId key.tenantId → g.AllLive stateId
  | .connectClient stateId tenantId _ => g.TakesLast stateId tenantId → g.AllLive stateId
  | .disconnectWorker stateId key generation =>
    g.Full stateId → ∀ tenant, g.tenant stateId key.tenantId = some tenant →
      (tenant.removeWorkerIfCurrent key.installationId key.coreId generation).1.live = true
  | .disconnectClient stateId tenantId connectionId =>
    g.Full stateId → ∀ tenant, g.tenant stateId tenantId = some tenant →
      (tenant.removeClient connectionId).live = true
  | .poll c _ => ∀ call, g.calls[c]? = some call → g.SparesPending call.key
  | .cancel c => ∀ call, g.calls[c]? = some call → g.SparesPending call.key
  | .frame frame =>
    (g.pendingMetadata frame.key).any frame.accepts = true → g.SparesPending frame.key
  | .meshRequest .. => True
  | .shutdown _ => True
  | .renew _ => True

variable {g g' g'' : GatewayProcess} {stateId : Nat} {tenantId : TenantId}
  {tenant old : TenantState}

theorem contains_tenant : (g.states stateId).tenants.contains tenantId.asStr =
    (g.tenant stateId tenantId).isSome :=
  Std.ExtTreeMap.contains_eq_isSome_getElem?

theorem exists_absent (tenants : Std.ExtTreeMap String TenantState compare) :
    ∃ tenantId : TenantId, tenants.contains tenantId.asStr = false := by
  obtain ⟨name, hname⟩ := Infinite.exists_notMem_finset (tenants.toList.map (·.1)).toFinset
  refine ⟨⟨name⟩, ?_⟩
  rw [Std.ExtTreeMap.contains_eq_isSome_getElem?]
  cases h : tenants[name]? with
  | none => rfl
  | some tenant =>
    refine absurd (List.mem_toFinset.2 (List.mem_map.2 ⟨(name, tenant), ?_, rfl⟩)) hname
    exact Std.ExtTreeMap.mem_toList_iff_getElem?_eq_some.2 h

theorem allLive_iff : g.AllLive stateId ↔
    liveTenants (g.states stateId).tenants = (g.states stateId).tenants.size := by
  unfold liveTenants
  rw [← Std.ExtTreeMap.length_toList, List.countP_eq_length]
  constructor
  · intro h entry hentry
    exact h ⟨entry.1⟩ entry.2 (Std.ExtTreeMap.mem_toList_iff_getElem?_eq_some.1 hentry)
  · intro h tenantId tenant htenant
    exact h (tenantId.asStr, tenant) (Std.ExtTreeMap.mem_toList_iff_getElem?_eq_some.2 htenant)

/-- What is promised of the tenants, without the tenant that is refused. -/
theorem tenantsWithin_iff : g.TenantsWithin stateId ↔
    (g.states stateId).tenants.size ≤ maxGatewayTenants ∧ (g.Full stateId → g.AllLive stateId) := by
  constructor
  · intro h
    obtain ⟨htenants, hrefused⟩ := h
    refine ⟨htenants, fun hfull => allLive_iff.2 ?_⟩
    obtain ⟨tenantId, habsent⟩ := exists_absent (g.states stateId).tenants
    have hlive := hrefused tenantId ⟨habsent, hfull⟩
    have hle := List.countP_le_length (p := fun entry => entry.2.live)
      (l := (g.states stateId).tenants.toList)
    rw [Std.ExtTreeMap.length_toList] at hle
    exact Nat.le_antisymm hle (htenants.trans hlive)
  · intro h
    obtain ⟨htenants, hlive⟩ := h
    refine ⟨htenants, fun tenantId hrefused => ?_⟩
    rw [allLive_iff.1 (hlive hrefused.2)]
    exact hrefused.2

/-! ## A tenant that is put -/

def SameTenants (g g' : GatewayProcess) : Prop :=
  ∀ i, (g'.states i).tenants = (g.states i).tenants

/-- The tenants are those with one that is put into them. -/
def Puts (g : GatewayProcess) (stateId : Nat) (tenantId : TenantId) (tenant : TenantState)
    (g' : GatewayProcess) : Prop :=
  ∀ i, (g'.states i).tenants = ((g.setTenant stateId tenantId tenant).states i).tenants

theorem puts_setTenant (g : GatewayProcess) (stateId : Nat) (tenantId : TenantId)
    (tenant : TenantState) : Puts g stateId tenantId tenant (g.setTenant stateId tenantId tenant) :=
  fun _ => rfl

theorem Puts.lookup (h : Puts g stateId tenantId tenant g') (i : Nat) (t : TenantId) :
    g'.tenant i t = if stateId = i ∧ tenantId = t then some tenant else g.tenant i t := by
  rw [← tenant_setTenant]
  unfold GatewayProcess.tenant
  rw [h i]

theorem Puts.tenants_self (h : Puts g stateId tenantId tenant g') :
    (g'.states stateId).tenants = (g.states stateId).tenants.insert tenantId.asStr tenant := by
  rw [h stateId]
  unfold setTenant
  dsimp only
  rw [Function.update_self]

variable {i : Nat}

theorem Puts.tenants_other (h : Puts g stateId tenantId tenant g') (hi : stateId ≠ i) :
    (g'.states i).tenants = (g.states i).tenants := by
  rw [h i]
  unfold setTenant
  dsimp only
  rw [Function.update_of_ne (Ne.symm hi)]

theorem Puts.same (h : Puts g stateId tenantId tenant g')
    (htenant : g.tenant stateId tenantId = some tenant) : SameTenants g g' := by
  intro i
  by_cases hi : stateId = i
  · subst hi
    rw [h.tenants_self]
    exact insert_of_lookup _ _ htenant
  · exact h.tenants_other hi

theorem Puts.trans {first : TenantState} (h : Puts g stateId tenantId first g')
    (h' : Puts g' stateId tenantId tenant g'') : Puts g stateId tenantId tenant g'' := by
  intro i
  by_cases hi : stateId = i
  · subst hi
    rw [h'.tenants_self, h.tenants_self, insert_insert]
    exact (puts_setTenant g stateId tenantId tenant).tenants_self.symm
  · rw [h'.tenants_other hi, h.tenants_other hi]
    exact ((puts_setTenant g stateId tenantId tenant).tenants_other hi).symm

theorem Puts.congr (h : Puts g stateId tenantId tenant g') (hsame : SameTenants g' g'') :
    Puts g stateId tenantId tenant g'' :=
  fun i => (hsame i).trans (h i)

/-! ### The limits on connections -/

theorem connectionCount_eq (tenants : Std.ExtTreeMap String TenantState compare) :
    connectionCount tenants = total TenantState.connections tenants := by
  have h : ∀ (entries : List (String × TenantState)) (start : Nat),
      entries.foldl (fun count entry => count + entry.2.workers.length + entry.2.clients.length)
        start = start + (entries.map fun entry => entry.2.connections).sum := by
    intro entries
    induction entries with
    | nil => exact fun _ => rfl
    | cons entry entries ih =>
      intro start
      rw [List.foldl_cons, ih, List.map_cons, List.sum_cons, TenantState.connections]
      omega
  unfold connectionCount
  rw [Std.ExtTreeMap.foldl_eq_foldl_toList, h, Nat.zero_add]
  rfl

/-- A tenant in the place of the one before it keeps the limits. -/
structure Fits (g : GatewayProcess) (stateId : Nat) (tenantId : TenantId) (tenant : TenantState) :
    Prop where
  workers : tenant.workers.length ≤ maxGatewayWorkersPerTenant
  clients : tenant.clients.length ≤ maxGatewayClientsPerTenant
  connections : tenant.connections ≤
      ((g.tenant stateId tenantId).getD (.new tenantId)).connections ∨
    (connectionCount (g.states stateId).tenants < maxGatewayConnections ∧ tenant.connections ≤
      ((g.tenant stateId tenantId).getD (.new tenantId)).connections + 1)

theorem withinLimits_congr (h : (g'.states i).tenants = (g.states i).tenants)
    (hi : g.WithinLimits i) : g'.WithinLimits i := by
  have hlookup : ∀ t, g'.tenant i t = g.tenant i t := by
    intro t
    unfold GatewayProcess.tenant
    rw [h]
  refine ⟨?_, fun t tenant htenant => ?_, fun t tenant htenant => ?_⟩
  · rw [h]
    exact hi.connections
  · rw [hlookup] at htenant
    exact hi.workers t tenant htenant
  · rw [hlookup] at htenant
    exact hi.clients t tenant htenant

theorem Puts.withinLimits (h : Puts g stateId tenantId tenant g')
    (hfits : g.Fits stateId tenantId tenant) (hi : g.WithinLimits i) :
    g'.WithinLimits i := by
  refine ⟨?_, fun t found hfound => ?_, fun t found hfound => ?_⟩
  · by_cases hstate : stateId = i
    · subst hstate
      have hcount := total_insert (g.states stateId).tenants tenantId.asStr
        TenantState.connections tenant
      rw [← h.tenants_self, ← connectionCount_eq, ← connectionCount_eq] at hcount
      have hold : ((g.states stateId).tenants[tenantId.asStr]?.map TenantState.connections).getD 0 =
          ((g.tenant stateId tenantId).getD (.new tenantId)).connections := by
        unfold GatewayProcess.tenant
        cases (g.states stateId).tenants[tenantId.asStr]? with
        | none => rfl
        | some found => rfl
      rw [hold] at hcount
      have hbefore := hi.connections
      rcases hfits.connections with hless | hmore
      · omega
      · omega
    · rw [h.tenants_other hstate]
      exact hi.connections
  · rw [h.lookup] at hfound
    by_cases hput : stateId = i ∧ tenantId = t
    · rw [if_pos hput] at hfound
      cases hfound
      exact hfits.workers
    · rw [if_neg hput] at hfound
      exact hi.workers t found hfound
  · rw [h.lookup] at hfound
    by_cases hput : stateId = i ∧ tenantId = t
    · rw [if_pos hput] at hfound
      cases hfound
      exact hfits.clients
    · rw [if_neg hput] at hfound
      exact hi.clients t found hfound

/-! ### The limit on tenants -/

theorem tenantsWithin_congr (h : (g'.states i).tenants = (g.states i).tenants) :
    g'.TenantsWithin i ↔ g.TenantsWithin i := by
  have hlive : g'.AllLive i ↔ g.AllLive i := by
    refine forall_congr' fun t => forall_congr' fun tenant => ?_
    unfold GatewayProcess.tenant
    rw [h]
  rw [tenantsWithin_iff, tenantsWithin_iff, Full, Full, hlive, h]

theorem Puts.allLive_iff (h : Puts g stateId tenantId tenant g') :
    g'.AllLive stateId ↔ tenant.live = true ∧
      ∀ t found, t ≠ tenantId → g.tenant stateId t = some found → found.live = true := by
  constructor
  · intro hlive
    refine ⟨hlive tenantId tenant (by rw [h.lookup, if_pos ⟨rfl, rfl⟩]), fun t found ht hfound => ?_⟩
    exact hlive t found (by rw [h.lookup, if_neg fun hput => ht hput.2.symm, hfound])
  · intro hlive t found hfound
    rw [h.lookup] at hfound
    by_cases ht : tenantId = t
    · rw [if_pos ⟨rfl, ht⟩] at hfound
      cases hfound
      exact hlive.1
    · rw [if_neg fun hput => ht hput.2] at hfound
      exact hlive.2 t found (Ne.symm ht) hfound

theorem Puts.size (h : Puts g stateId tenantId tenant g') :
    (g'.states stateId).tenants.size = if (g.tenant stateId tenantId).isSome
      then (g.states stateId).tenants.size else (g.states stateId).tenants.size + 1 := by
  rw [h.tenants_self, Std.ExtTreeMap.size_insert, contains_tenant]

/-- A tenant that is put in the place of another. -/
theorem Puts.tenantsWithin_known (h : Puts g stateId tenantId tenant g')
    (hold : g.tenant stateId tenantId = some old) (hg : ∀ i, g.TenantsWithin i) :
    (∀ i, g'.TenantsWithin i) ↔ (g.Full stateId → tenant.live = true) := by
  have hsize : (g'.states stateId).tenants.size = (g.states stateId).tenants.size := by
    rw [h.size, hold, Option.isSome_some, if_pos rfl]
  have hfull : g'.Full stateId ↔ g.Full stateId := by rw [Full, Full, hsize]
  obtain ⟨hle, hlive⟩ := tenantsWithin_iff.1 (hg stateId)
  constructor
  · intro hg' hfilled
    have halive := (tenantsWithin_iff.1 (hg' stateId)).2 (hfull.2 hfilled)
    exact (h.allLive_iff.1 halive).1
  · intro hkept i
    by_cases hi : stateId = i
    · subst hi
      refine tenantsWithin_iff.2 ⟨hsize ▸ hle, fun hfilled => ?_⟩
      refine h.allLive_iff.2 ⟨hkept (hfull.1 hfilled), fun t found _ hfound => ?_⟩
      exact hlive (hfull.1 hfilled) t found hfound
    · exact (tenantsWithin_congr (h.tenants_other hi)).2 (hg i)

/-- A partition that is made. -/
theorem Puts.tenantsWithin_made (h : Puts g stateId tenantId tenant g')
    (hnone : g.tenant stateId tenantId = none) (hg : ∀ i, g.TenantsWithin i) :
    (∀ i, g'.TenantsWithin i) ↔ (g.states stateId).tenants.size + 1 ≤ maxGatewayTenants ∧
      (maxGatewayTenants ≤ (g.states stateId).tenants.size + 1 →
        g.AllLive stateId ∧ tenant.live = true) := by
  have hsize : (g'.states stateId).tenants.size = (g.states stateId).tenants.size + 1 := by
    rw [h.size, hnone, Option.isSome_none, if_neg Bool.false_ne_true]
  have hlive : g'.AllLive stateId ↔ g.AllLive stateId ∧ tenant.live = true := by
    rw [h.allLive_iff, and_comm]
    refine and_congr_left fun _ => ⟨fun hrest t found hfound => hrest t found ?_ hfound,
      fun hall t found _ hfound => hall t found hfound⟩
    rintro rfl
    rw [hnone] at hfound
    cases hfound
  rw [← hlive, ← hsize]
  constructor
  · intro hg'
    exact tenantsWithin_iff.1 (hg' stateId)
  · intro hwithin i
    by_cases hi : stateId = i
    · subst hi
      exact tenantsWithin_iff.2 hwithin
    · exact (tenantsWithin_congr (h.tenants_other hi)).2 (hg i)

theorem live_of_workers (h : tenant.workers ≠ []) : tenant.live = true := by
  cases hworkers : tenant.workers with
  | nil => exact absurd hworkers h
  | cons worker workers => simp [TenantState.live, hworkers]

theorem live_of_clients (h : tenant.clients ≠ []) : tenant.live = true := by
  cases hclients : tenant.clients with
  | nil => exact absurd hclients h
  | cons client clients => simp [TenantState.live, hclients]

theorem fits_of_le (hold : g.tenant stateId tenantId = some old) (hg : g.WithinLimits stateId)
    (hworkers : tenant.workers.length ≤ old.workers.length)
    (hclients : tenant.clients.length ≤ old.clients.length) :
    g.Fits stateId tenantId tenant := by
  refine ⟨hworkers.trans (hg.workers tenantId old hold), hclients.trans (hg.clients tenantId old hold),
    Or.inl ?_⟩
  rw [hold, Option.getD_some]
  exact Nat.add_le_add hworkers hclients

/-- What a step does to the tenants, and what the condition on it says there. -/
inductive Change [Sha256] (g : GatewayProcess) (st : GatewayStep) (g' : GatewayProcess) : Prop
  | same (h : SameTenants g g') (hroom : (∀ i, g.TenantsWithin i) → g.KeepsRoom st)
  | put (stateId : Nat) (tenantId : TenantId) (old tenant : TenantState)
      (hold : g.tenant stateId tenantId = some old) (h : Puts g stateId tenantId tenant g')
      (hfits : g.Fits stateId tenantId tenant)
      (hroom : g.KeepsRoom st ↔ (g.Full stateId → tenant.live = true))
  | made (stateId : Nat) (tenantId : TenantId) (tenant : TenantState)
      (hnone : g.tenant stateId tenantId = none) (h : Puts g stateId tenantId tenant g')
      (hfits : g.Fits stateId tenantId tenant)
      (hroom : g.KeepsRoom st ↔ (g.states stateId).tenants.size + 1 ≤ maxGatewayTenants ∧
        (maxGatewayTenants ≤ (g.states stateId).tenants.size + 1 →
          g.AllLive stateId ∧ tenant.live = true))
  | renewed (stateId : Nat) (h : g' = g.renew stateId) (hroom : g.KeepsRoom st)

/-! ### Connections -/

theorem admission_of_refused (h : g.RefusedForTenants stateId tenantId) :
    g.admission stateId tenantId = none :=
  if_pos h

theorem admission_cases (g : GatewayProcess) (stateId : Nat) (tenantId : TenantId) :
    (g.admission stateId tenantId = none ∧ ¬ g.TakesLast stateId tenantId) ∨
    (g.admission stateId tenantId = some ((g.tenant stateId tenantId).getD (.new tenantId)) ∧
      connectionCount (g.states stateId).tenants < maxGatewayConnections ∧
      (g.tenant stateId tenantId = none → (g.states stateId).tenants.size < maxGatewayTenants)) := by
  have habsent : (g.states stateId).tenants.contains tenantId.asStr = false ↔
      g.tenant stateId tenantId = none := by
    rw [contains_tenant, Option.isSome_eq_false_iff, Option.isNone_iff_eq_none]
  unfold admission
  dsimp only
  by_cases htenants : (g.states stateId).tenants.contains tenantId.asStr = false ∧
      (g.states stateId).tenants.size ≥ maxGatewayTenants
  · refine Or.inl ⟨if_pos htenants, fun hlast => ?_⟩
    have hfull := htenants.2
    have hplace := hlast.2.1
    omega
  · by_cases hcount : connectionCount (g.states stateId).tenants ≥ maxGatewayConnections
    · refine Or.inl ⟨(if_neg htenants).trans (if_pos hcount), fun hlast => ?_⟩
      exact absurd hlast.2.2 (Nat.not_lt.2 hcount)
    · refine Or.inr ⟨(if_neg htenants).trans (if_neg hcount), Nat.lt_of_not_le hcount, fun hnone => ?_⟩
      exact Nat.lt_of_not_le fun hfull => htenants ⟨habsent.2 hnone, hfull⟩

variable {st : GatewayStep}

/-- A connection that is admitted and gets its tenant. -/
theorem change_connected [Sha256]
    (hcount : connectionCount (g.states stateId).tenants < maxGatewayConnections)
    (hplace : g.tenant stateId tenantId = none →
      (g.states stateId).tenants.size < maxGatewayTenants)
    (hst : g.KeepsRoom st ↔ (g.TakesLast stateId tenantId → g.AllLive stateId))
    (hfits : g.Fits stateId tenantId tenant) (hlive : tenant.live = true)
    (h : Puts g stateId tenantId tenant g') : Change g st g' := by
  cases hknown : g.tenant stateId tenantId with
  | some old =>
    refine .put stateId tenantId old tenant hknown h hfits (iff_of_true ?_ fun _ => hlive)
    refine hst.2 fun hlast => ?_
    rw [hlast.1] at hknown
    cases hknown
  | none =>
    refine .made stateId tenantId tenant hknown h hfits ?_
    have hlt := hplace hknown
    constructor
    · intro hroom
      refine ⟨hlt, fun hlast => ⟨hst.1 hroom ⟨hknown, ?_, hcount⟩, hlive⟩⟩
      omega
    · intro hmade
      exact hst.2 fun hlast => (hmade.2 (Nat.le_of_eq hlast.2.1.symm)).1

theorem limits_getD (hg : g.WithinLimits stateId) (tenantId : TenantId) :
    ((g.tenant stateId tenantId).getD (.new tenantId)).workers.length ≤
        maxGatewayWorkersPerTenant ∧
      ((g.tenant stateId tenantId).getD (.new tenantId)).clients.length ≤
        maxGatewayClientsPerTenant := by
  cases hknown : g.tenant stateId tenantId with
  | none => exact ⟨Nat.zero_le _, Nat.zero_le _⟩
  | some found => exact ⟨hg.workers tenantId found hknown, hg.clients tenantId found hknown⟩

theorem fits_addWorker {conn : WorkerConnection} {capabilities : List CapabilityName}
    (hg : g.WithinLimits stateId)
    (hcount : connectionCount (g.states stateId).tenants < maxGatewayConnections)
    (h : ((g.tenant stateId tenantId).getD (.new tenantId)).addWorker conn capabilities = .ok tenant) :
    g.Fits stateId tenantId tenant ∧ tenant.live = true := by
  have hlimits := limits_getD hg tenantId
  generalize hbefore : (g.tenant stateId tenantId).getD (.new tenantId) = before at h hlimits
  unfold TenantState.addWorker at h
  dsimp only at h
  by_cases hlimit : before.getWorker conn.key.installationId conn.key.coreId = none ∧
      before.workers.length ≥ maxGatewayWorkersPerTenant
  · rw [if_pos hlimit] at h
    cases h
  · rw [if_neg hlimit] at h
    cases h
    have hfilter : (before.workersBut conn.key.installationId conn.key.coreId).length ≤
        before.workers.length := List.length_filter_le _ _
    have hroom : (before.workersBut conn.key.installationId conn.key.coreId).length + 1 ≤
        maxGatewayWorkersPerTenant := by
      by_cases hnone : before.getWorker conn.key.installationId conn.key.coreId = none
      · have hlt := Nat.lt_of_not_le fun hle => hlimit ⟨hnone, hle⟩
        omega
      · -- the connection that is replaced makes room
        obtain ⟨previous, hprevious⟩ := Option.ne_none_iff_exists'.1 hnone
        have hlt : (before.workersBut conn.key.installationId conn.key.coreId).length <
            before.workers.length := by
          refine List.length_filter_lt_length_iff_exists.2
            ⟨previous, List.mem_of_find?_eq_some hprevious, ?_⟩
          have hfound := List.find?_some hprevious
          simp [of_decide_eq_true hfound]
        omega
    refine ⟨⟨hroom, hlimits.2, Or.inr ⟨hcount, ?_⟩⟩, live_of_workers (List.cons_ne_nil _ _)⟩
    rw [hbefore]
    change (before.workersBut conn.key.installationId conn.key.coreId).length + 1 +
      before.clients.length ≤ before.workers.length + before.clients.length + 1
    omega

theorem addWorker_new {conn : WorkerConnection} {capabilities : List CapabilityName} {e : String} :
    (TenantState.new tenantId).addWorker conn capabilities ≠ .error e := by
  have hempty : ¬ 0 ≥ maxGatewayWorkersPerTenant := by decide
  have hroom : ¬ ((TenantState.new tenantId).getWorker conn.key.installationId conn.key.coreId =
      none ∧ (TenantState.new tenantId).workers.length ≥ maxGatewayWorkersPerTenant) :=
    fun h => hempty h.2
  unfold TenantState.addWorker
  dsimp only
  rw [if_neg hroom]
  intro h
  cases h

theorem change_connectWorker [Sha256] (hg : g.WithinLimits stateId) (key : WorkerConnectionKey)
    (clusterId : ClusterId) (capabilities : List CapabilityName) (nowMs : UInt64) :
    Change g (.connectWorker stateId key clusterId capabilities nowMs)
      (g.connectWorker stateId key clusterId capabilities nowMs).2 := by
  unfold connectWorker
  dsimp only
  rcases admission_cases g stateId key.tenantId with hrefused | hadmitted
  · obtain ⟨hnone, hlast⟩ := hrefused
    split
    · exact .same (fun _ => rfl) fun _ h => absurd h hlast
    next tenant hadmission =>
      have h : g.admission stateId key.tenantId = some tenant := hadmission
      rw [hnone] at h
      cases h
  · obtain ⟨hlimited, hcount, hplace⟩ := hadmitted
    split
    next hadmission =>
      have h : g.admission stateId key.tenantId = none := hadmission
      rw [hlimited] at h
      cases h
    next tenant hadmission =>
      have h : g.admission stateId key.tenantId = some tenant := hadmission
      rw [hlimited] at h
      cases h
      split
      next e hadd =>
        -- a worker is refused only by a tenant that has others
        cases hknown : g.tenant stateId key.tenantId with
        | none =>
          rw [hknown] at hadd
          exact absurd hadd addWorker_new
        | some old =>
          refine .same ?_ fun _ hlast => ?_
          · exact Puts.same (fun _ => rfl) hknown
          · rw [hlast.1] at hknown
            cases hknown
      next tenant hadd =>
        obtain ⟨hfits, hlive⟩ := fits_addWorker hg hcount hadd
        exact change_connected hcount hplace Iff.rfl hfits hlive fun _ => rfl

theorem fits_tryAddClient {connectionId : String} (hg : g.WithinLimits stateId)
    (hcount : connectionCount (g.states stateId).tenants < maxGatewayConnections)
    (h : ((g.tenant stateId tenantId).getD (.new tenantId)).tryAddClient connectionId = .ok tenant) :
    g.Fits stateId tenantId tenant ∧ tenant.live = true := by
  have hlimits := limits_getD hg tenantId
  generalize hbefore : (g.tenant stateId tenantId).getD (.new tenantId) = before at h hlimits
  unfold TenantState.tryAddClient at h
  by_cases hlimit : connectionId ∉ before.clients ∧
      before.clients.length ≥ maxGatewayClientsPerTenant
  · rw [if_pos hlimit] at h
    cases h
  · rw [if_neg hlimit] at h
    cases h
    have hmore : (before.clients.insert connectionId).length ≤ before.clients.length + 1 := by
      by_cases hmem : connectionId ∈ before.clients
      · rw [List.length_insert_of_mem hmem]
        exact Nat.le_succ _
      · rw [List.length_insert_of_not_mem hmem]
    have hroom : (before.clients.insert connectionId).length ≤ maxGatewayClientsPerTenant := by
      by_cases hmem : connectionId ∈ before.clients
      · rw [List.length_insert_of_mem hmem]
        exact hlimits.2
      · rw [List.length_insert_of_not_mem hmem]
        exact Nat.lt_of_not_le fun hle => hlimit ⟨hmem, hle⟩
    refine ⟨⟨hlimits.1, hroom, Or.inr ⟨hcount, ?_⟩⟩,
      live_of_clients (List.ne_nil_of_mem List.mem_insert_self)⟩
    rw [hbefore]
    exact Nat.add_le_add_left hmore _

theorem tryAddClient_new {connectionId : String} {e : String} :
    (TenantState.new tenantId).tryAddClient connectionId ≠ .error e := by
  have hempty : ¬ 0 ≥ maxGatewayClientsPerTenant := by decide
  unfold TenantState.tryAddClient
  rw [if_neg fun h => hempty h.2]
  intro h
  cases h

theorem change_connectClient [Sha256] (hg : g.WithinLimits stateId) (tenantId : TenantId)
    (connectionId : String) :
    Change g (.connectClient stateId tenantId connectionId)
      (g.connectClient stateId tenantId connectionId) := by
  unfold connectClient
  rcases admission_cases g stateId tenantId with hrefused | hadmitted
  · obtain ⟨hnone, hlast⟩ := hrefused
    rw [hnone]
    exact .same (fun _ => rfl) fun _ h => absurd h hlast
  · obtain ⟨hlimited, hcount, hplace⟩ := hadmitted
    rw [hlimited]
    dsimp only
    split
    next e hadd =>
      cases hknown : g.tenant stateId tenantId with
      | none =>
        rw [hknown] at hadd
        exact absurd hadd tryAddClient_new
      | some old =>
        refine .same ((puts_setTenant g stateId tenantId old).same hknown) fun _ hlast => ?_
        rw [hlast.1] at hknown
        cases hknown
    next tenant hadd =>
      obtain ⟨hfits, hlive⟩ := fits_tryAddClient hg hcount hadd
      exact change_connected hcount hplace Iff.rfl hfits hlive (puts_setTenant g _ _ _)

theorem change_shrunk [Sha256] (hold : g.tenant stateId tenantId = some old)
    (hg : g.WithinLimits stateId) (hworkers : tenant.workers.length ≤ old.workers.length)
    (hclients : tenant.clients.length ≤ old.clients.length)
    (hst : g.KeepsRoom st ↔ (g.Full stateId → tenant.live = true))
    (h : Puts g stateId tenantId tenant g') : Change g st g' :=
  .put stateId tenantId old tenant hold h (fits_of_le hold hg hworkers hclients) hst

theorem length_removeWorkerIfCurrent_le (tenant : TenantState) (installationId : InstallationId)
    (coreId : CoreId) (generation : UInt64) :
    (tenant.removeWorkerIfCurrent installationId coreId generation).1.workers.length ≤
        tenant.workers.length ∧
      (tenant.removeWorkerIfCurrent installationId coreId generation).1.clients = tenant.clients := by
  unfold TenantState.removeWorkerIfCurrent TenantState.removeWorker
  split
  · split
    · exact ⟨Nat.le_refl _, rfl⟩
    · exact ⟨List.length_filter_le _ _, rfl⟩
  · exact ⟨Nat.le_refl _, rfl⟩

theorem change_disconnectWorker [Sha256] (hg : g.WithinLimits stateId) (key : WorkerConnectionKey)
    (generation : UInt64) :
    Change g (.disconnectWorker stateId key generation)
      (g.disconnectWorker stateId key generation) := by
  unfold disconnectWorker
  cases hold : g.tenant stateId key.tenantId with
  | none =>
    refine .same (fun _ => rfl) fun _ _ tenant htenant => ?_
    rw [hold] at htenant
    cases htenant
  | some old =>
    obtain ⟨hworkers, hclients⟩ :=
      length_removeWorkerIfCurrent_le old key.installationId key.coreId generation
    refine change_shrunk hold hg hworkers (Nat.le_of_eq (congrArg _ hclients)) ?_
      (puts_setTenant g _ _ _)
    simp only [KeepsRoom, hold, Option.some.injEq, forall_eq']

theorem change_disconnectClient [Sha256] (hg : g.WithinLimits stateId) (tenantId : TenantId)
    (connectionId : String) :
    Change g (.disconnectClient stateId tenantId connectionId)
      (g.disconnectClient stateId tenantId connectionId) := by
  unfold disconnectClient
  cases hold : g.tenant stateId tenantId with
  | none =>
    refine .same (fun _ => rfl) fun _ _ tenant htenant => ?_
    rw [hold] at htenant
    cases htenant
  | some old =>
    have hworkers : (old.removeClient connectionId).workers.length ≤ old.workers.length :=
      Nat.le_refl _
    have hclients : (old.removeClient connectionId).clients.length ≤ old.clients.length :=
      List.length_erase_le
    refine change_shrunk hold hg hworkers hclients ?_ (puts_setTenant g _ _ _)
    simp only [KeepsRoom, hold, Option.some.injEq, forall_eq']

/-! ### Requests that wait -/

theorem connections_without (tenant : TenantState) (key : PendingKey) :
    (tenant.without key).workers = tenant.workers ∧ (tenant.without key).clients = tenant.clients := by
  unfold TenantState.without TenantState.setPending
  split
  · exact ⟨rfl, rfl⟩
  · exact ⟨rfl, rfl⟩

@[simp] theorem dropSender_states (c : Option Nat) : (g.dropSender c).states = g.states := by
  cases c with
  | none => rfl
  | some c => rfl

theorem removePending_cases (g : GatewayProcess) (key : PendingKey) :
    (g.tenant key.stateId key.tenantId = none ∧ SameTenants g (g.removePending key)) ∨
    ∃ tenant, g.tenant key.stateId key.tenantId = some tenant ∧
      Puts g key.stateId key.tenantId (tenant.without key) (g.removePending key) := by
  unfold removePending
  cases htenant : g.tenant key.stateId key.tenantId with
  | none => exact Or.inl ⟨rfl, fun _ => rfl⟩
  | some tenant => exact Or.inr ⟨tenant, rfl, puts_setTenant g _ _ _⟩

theorem cleanupPending_cases (g : GatewayProcess) (key : PendingKey) :
    (g.tenant key.stateId key.tenantId = none ∧ SameTenants g (g.cleanupPending key)) ∨
    ∃ tenant, g.tenant key.stateId key.tenantId = some tenant ∧
      Puts g key.stateId key.tenantId (tenant.without key) (g.cleanupPending key) := by
  have hstates : (g.dropSender (g.sender key)).states = g.states := dropSender_states _
  have htenant : ∀ t, (g.dropSender (g.sender key)).tenant key.stateId t = g.tenant key.stateId t := by
    intro t
    unfold GatewayProcess.tenant
    rw [hstates]
  rcases removePending_cases (g.dropSender (g.sender key)) key with hsame | hput
  · obtain ⟨hnone, hsame⟩ := hsame
    refine Or.inl ⟨(htenant _).symm.trans hnone, fun i => ?_⟩
    rw [← hstates]
    exact hsame i
  · obtain ⟨tenant, hsome, hput⟩ := hput
    refine Or.inr ⟨tenant, (htenant _).symm.trans hsome, fun i => ?_⟩
    refine (hput i).trans ?_
    unfold setTenant
    rw [hstates]

variable {c : Nat}

theorem endCall_tenants {call : Call} (hc : g.calls[c]? = some call) (ended : CallEnd) :
    SameTenants (g.cleanupPending call.key) (g.endCall c ended) := by
  unfold endCall
  rw [hc]
  exact fun _ => rfl

/-- A step that takes away a request that waits, if there is one. -/
theorem change_cleanup [Sha256] {key : PendingKey} (hg : ∀ i, g.WithinLimits i)
    (hst : g.KeepsRoom st ↔ g.SparesPending key)
    (h : (g.tenant key.stateId key.tenantId = none ∧ SameTenants g g') ∨
      ∃ tenant, g.tenant key.stateId key.tenantId = some tenant ∧
        Puts g key.stateId key.tenantId (tenant.without key) g') : Change g st g' := by
  rcases h with hsame | hput
  · obtain ⟨hnone, hsame⟩ := hsame
    refine .same hsame fun _ => hst.2 fun _ tenant htenant => ?_
    rw [hnone] at htenant
    cases htenant
  · obtain ⟨tenant, hsome, hput⟩ := hput
    obtain ⟨hworkers, hclients⟩ := connections_without tenant key
    refine change_shrunk hsome (hg _) (Nat.le_of_eq (congrArg _ hworkers))
      (Nat.le_of_eq (congrArg _ hclients)) ?_ hput
    rw [hst, SparesPending, hsome]
    simp only [Option.some.injEq, forall_eq']

theorem change_endCall [Sha256] {call : Call} (hg : ∀ i, g.WithinLimits i)
    (hc : g.calls[c]? = some call) (hst : g.KeepsRoom st ↔ g.SparesPending call.key)
    (ended : CallEnd) :
    Change g st (g.endCall c ended) := by
  have hsame := endCall_tenants hc ended
  refine change_cleanup hg hst ?_
  rcases cleanupPending_cases g call.key with hkept | hput
  · exact Or.inl ⟨hkept.1, fun i => (hsame i).trans (hkept.2 i)⟩
  · obtain ⟨tenant, hsome, hput⟩ := hput
    exact Or.inr ⟨tenant, hsome, hput.congr hsame⟩

/-- A request that is registered and forwarded, or taken back, leaves the connections of its tenant
as they are. -/
theorem puts_forward (g : GatewayProcess) (tenant : TenantState) (key : PendingKey)
    (metadata : PendingMetadata) (payload : Except String String) (sent : Except String Unit) :
    ∃ tenant', tenant'.workers = tenant.workers ∧ tenant'.clients = tenant.clients ∧
      Puts g key.stateId key.tenantId tenant'
        ((g.registerPending tenant key metadata).forward key payload sent) := by
  have hregistered : Puts g key.stateId key.tenantId (tenant.setPending key.mesh
      ((tenant.pending key.mesh).insert key.requestId g.calls.length))
      (g.registerPending tenant key metadata) := fun _ => rfl
  generalize hentered : tenant.setPending key.mesh
    ((tenant.pending key.mesh).insert key.requestId g.calls.length) = entered at hregistered
  have hworkers : entered.workers = tenant.workers := by
    rw [← hentered]
    exact TenantState.workers_setPending _ _ _
  have hclients : entered.clients = tenant.clients := by
    rw [← hentered]
    cases key.mesh <;> rfl
  have htenant : (g.registerPending tenant key metadata).tenant key.stateId key.tenantId =
      some entered := by
    rw [hregistered.lookup, if_pos ⟨rfl, rfl⟩]
  -- the request is taken back twice, by the rejection and by the end of the call
  have hfailed : ∀ ended, ∃ tenant', tenant'.workers = tenant.workers ∧
      tenant'.clients = tenant.clients ∧ Puts g key.stateId key.tenantId tenant'
        (((g.registerPending tenant key metadata).cleanupPending key).endCall
          ((g.registerPending tenant key metadata).calls.length - 1) ended) := by
    intro ended
    rcases cleanupPending_cases (g.registerPending tenant key metadata) key with hnone | hput
    · rw [hnone.1] at htenant
      cases htenant
    · obtain ⟨found, hfound, hput⟩ := hput
      rw [htenant] at hfound
      cases hfound
      have hcall : ∃ call, ((g.registerPending tenant key metadata).cleanupPending key).calls[
          (g.registerPending tenant key metadata).calls.length - 1]? = some call ∧
            call.key = key := by
        rw [cleanupPending_calls, getElem?_dropSender, registerPending_calls, List.length_append,
          List.length_singleton, Nat.add_sub_cancel, List.getElem?_concat_length, Option.map_some]
        refine ⟨_, rfl, ?_⟩
        split
        · unfold Call.put
          split
          · rfl
          · rfl
        · rfl
      obtain ⟨call, hc, hkey⟩ := hcall
      have hsame := endCall_tenants hc ended
      rcases cleanupPending_cases ((g.registerPending tenant key metadata).cleanupPending key)
        call.key with hnone | hagain
      · rw [hkey, hput.lookup, if_pos ⟨rfl, rfl⟩] at hnone
        cases hnone.1
      · obtain ⟨found, hfound, hagain⟩ := hagain
        rw [hkey, hput.lookup, if_pos ⟨rfl, rfl⟩] at hfound
        cases hfound
        rw [hkey] at hagain hsame
        refine ⟨_, ?_, ?_, (hregistered.trans (hput.trans hagain)).congr hsame⟩
        · rw [(connections_without _ _).1, (connections_without _ _).1, hworkers]
        · rw [(connections_without _ _).2, (connections_without _ _).2, hclients]
  unfold forward
  cases payload with
  | error error => exact hfailed _
  | ok text =>
    cases sent with
    | error error => exact hfailed _
    | ok u => exact ⟨entered, hworkers, hclients, fun i => hregistered i⟩

theorem known_of_finds {coreId : CoreId} {worker : WorkerConnection}
    (h : g.Finds stateId tenantId coreId (some worker)) :
    ∃ tenant, g.tenant stateId tenantId = some tenant ∧ tenant.workers ≠ [] := by
  cases htenant : g.tenant stateId tenantId with
  | none =>
    unfold Finds at h
    rw [htenant] at h
    cases h.1
  | some tenant =>
    unfold Finds at h
    rw [htenant] at h
    exact ⟨tenant, rfl, List.ne_nil_of_mem h.1⟩

/-- A request that reaches a worker of its tenant. -/
theorem change_forwarded [Sha256] (hg : ∀ i, g.WithinLimits i) (key : PendingKey)
    (hold : g.tenant key.stateId key.tenantId = some tenant) (hworkers : tenant.workers ≠ [])
    (hst : g.KeepsRoom st) (metadata : PendingMetadata) (payload : Except String String)
    (sent : Except String Unit) (hsame : SameTenants g g') :
    Change g st ((g'.registerPending tenant key metadata).forward key payload sent) := by
  obtain ⟨next, hnext, hclients, hput⟩ :=
    puts_forward g' tenant key metadata payload sent
  refine change_shrunk hold (hg _) (Nat.le_of_eq (congrArg _ hnext))
    (Nat.le_of_eq (congrArg _ hclients)) (iff_of_true hst fun _ => live_of_workers ?_) ?_
  · rw [hnext]
    exact hworkers
  · intro i
    rw [hput i]
    unfold setTenant
    dsimp only
    rw [Function.update_apply, Function.update_apply]
    split
    · dsimp only
      rw [hsame]
    · exact hsame i

section

variable [Sha256] [GatewayJson]

theorem change_routeRequest (hg : ∀ i, g.WithinLimits i) (envelope : PeerRpc.PeerRpcEnvelope)
    (nowMs : UInt64) {found : Option WorkerConnection} (sent : Except String Unit)
    (hfound : g.Finds stateId envelope.tenantId envelope.targetCoreId found) :
    Change g (.request stateId envelope nowMs found sent)
      (g.routeRequest stateId envelope nowMs found sent).2 := by
  unfold routeRequest
  dsimp only
  cases hvalid : validateRoutingEnvelope envelope nowMs with
  | some error =>
    refine .same (fun _ => rfl) fun _ hnone => ?_
    rw [hvalid] at hnone
    cases hnone
  | none =>
    dsimp only
    cases hworker : found.filter (serves ((g.tenant stateId envelope.tenantId).getD
        (.new envelope.tenantId)) envelope.clusterId envelope.capability) with
    | none =>
      cases hknown : g.tenant stateId envelope.tenantId with
      | some old =>
        refine .same ((puts_setTenant g _ _ _).same hknown) fun _ _ hnone => ?_
        rw [hknown] at hnone
        cases hnone
      | none =>
        refine .made stateId envelope.tenantId (.new envelope.tenantId) hknown
          (puts_setTenant g _ _ _) ⟨Nat.zero_le _, Nat.zero_le _, Or.inl (Nat.zero_le _)⟩ ?_
        constructor
        · intro hroom
          have hlt := hroom hvalid hknown
          exact ⟨Nat.le_of_lt hlt, fun hle => absurd hlt (Nat.not_lt.2 hle)⟩
        · intro hmade _ _
          refine Nat.lt_of_not_le fun hle => ?_
          cases (hmade.2 hle).2
    | some worker =>
      obtain ⟨rfl, -⟩ := Option.filter_eq_some_iff.1 hworker
      obtain ⟨old, hknown, hworkers⟩ := known_of_finds hfound
      have hroom : g.KeepsRoom (.request stateId envelope nowMs (some worker) sent) := by
        intro _ hnone
        rw [hknown] at hnone
        cases hnone
      have hsame := (puts_setTenant g stateId envelope.tenantId old).same hknown
      rw [hknown, Option.getD_some]
      dsimp only
      split
      · exact change_forwarded hg ⟨stateId, envelope.tenantId, envelope.requestId, false⟩ hknown
          hworkers hroom _ _ _ hsame
      · exact .same hsame fun _ => hroom

theorem change_routeMeshRequest (hg : ∀ i, g.WithinLimits i) (request : MeshPeerRequest)
    {found : Option WorkerConnection} (sent : Except String Unit)
    (hfound : g.Finds stateId request.targetTenantId request.targetCoreId found) :
    Change g (.meshRequest stateId request found sent)
      (g.routeMeshRequest stateId request found sent).2 := by
  unfold routeMeshRequest
  dsimp only
  split
  · exact .same (fun _ => rfl) fun _ => trivial
  · split
    · exact .same (fun _ => rfl) fun _ => trivial
    next tenant htenant =>
      split
      · exact .same (fun _ => rfl) fun _ => trivial
      next worker hworker =>
        obtain ⟨rfl, -⟩ := Option.filter_eq_some_iff.1 hworker
        obtain ⟨old, hknown, hworkers⟩ := known_of_finds hfound
        rw [htenant] at hknown
        cases hknown
        have hroom : g.KeepsRoom (.meshRequest stateId request (some worker) sent) := trivial
        split
        · exact change_forwarded hg ⟨stateId, request.targetTenantId, request.requestId, true⟩ htenant
            hworkers hroom _ _ _ fun _ => rfl
        · exact .same (fun _ => rfl) fun _ => hroom

end

theorem handleWorkerFrame_eq (frame : WorkerFrame) : (g.handleWorkerFrame frame).2 =
    { (g.dispatchPending frame.key frame.accepts frame.response).2 with
      frames := g.frames ++ [frame] } := by
  obtain ⟨stateId, tenantId, generation, response⟩ := frame
  cases response with
  | plain response => rfl
  | mesh response => rfl

theorem without_of_free {key : PendingKey} (h : (tenant.pending key.mesh)[key.requestId]? = none) :
    tenant.without key = tenant := by
  have hsame : (tenant.pending key.mesh).erase key.requestId = tenant.pending key.mesh := by
    apply Std.ExtTreeMap.ext_getElem?
    intro id
    rw [lookup_erase]
    by_cases hid : key.requestId = id
    · rw [if_pos hid, ← hid, h]
    · rw [if_neg hid]
  unfold TenantState.without
  rw [hsame]
  cases key.mesh <;> rfl

theorem change_frame [Sha256] (hg : ∀ i, g.WithinLimits i) (frame : WorkerFrame) :
    Change g (.frame frame) (g.handleWorkerFrame frame).2 := by
  have hroom : (g.pendingMetadata frame.key).any frame.accepts = true →
      (g.KeepsRoom (.frame frame) ↔ g.SparesPending frame.key) :=
    fun hany => ⟨fun h => h hany, fun h _ => h⟩
  rw [handleWorkerFrame_eq]
  unfold dispatchPending
  dsimp only
  cases htenant : g.tenant frame.key.stateId frame.key.tenantId with
  | none =>
    refine .same (fun _ => rfl) fun _ _ _ tenant hsome => ?_
    rw [htenant] at hsome
    cases hsome
  | some tenant =>
    dsimp only
    by_cases hany : (g.pendingMetadata frame.key).any frame.accepts = true
    · rw [if_pos hany]
      cases hsender : g.sender frame.key with
      | some c =>
        refine change_cleanup hg (hroom hany) ?_
        exact removePending_cases (g.send c frame.response) frame.key
      | none =>
        refine .same (fun _ => rfl) fun htenants => (hroom hany).2 fun hfull found hfound => ?_
        rw [htenant] at hfound
        cases hfound
        have hfree : (tenant.pending frame.key.mesh)[frame.key.requestId]? = none := by
          unfold sender at hsender
          rw [htenant] at hsender
          exact hsender
        rw [without_of_free hfree]
        exact (tenantsWithin_iff.1 (htenants _)).2 hfull _ tenant htenant
    · rw [if_neg hany]
      exact .same (fun _ => rfl) fun _ h => absurd h hany

/-! ### Every step -/

theorem poll_eq_some {elapsed : Bool} (h : g.poll c elapsed = some g') :
    ∃ call ended, g.calls[c]? = some call ∧ g' = g.endCall c ended := by
  unfold poll at h
  split at h
  · cases h
  next call hcall =>
    dsimp only at h
    split at h
    · cases h
    · split at h
      · cases h
        exact ⟨call, _, hcall, rfl⟩
      · split at h
        · cases h
          exact ⟨call, _, hcall, rfl⟩
        · cases h
          exact ⟨call, _, hcall, rfl⟩
        · split at h
          · cases h
            exact ⟨call, _, hcall, rfl⟩
          · cases h

theorem cancel_eq_some (h : g.cancel c = some g') :
    ∃ call ended, g.calls[c]? = some call ∧ g' = g.endCall c ended := by
  unfold cancel at h
  split at h
  · cases h
  next call hcall =>
    split at h
    · cases h
    · cases h
      exact ⟨call, _, hcall, rfl⟩

theorem sameTenants_requestShutdown (stateId : Nat) : SameTenants g (g.requestShutdown stateId) := by
  intro i
  unfold requestShutdown
  dsimp only
  by_cases hi : stateId = i
  · rw [← hi, Function.update_self]
  · rw [Function.update_of_ne (Ne.symm hi)]

theorem renew_cases (stateId i : Nat) :
    ((g.renew stateId).states i).tenants = ∅ ∨
      ((g.renew stateId).states i).tenants = (g.states i).tenants := by
  unfold renew
  dsimp only
  by_cases hi : stateId = i
  · rw [← hi, Function.update_self]
    exact Or.inl rfl
  · rw [Function.update_of_ne (Ne.symm hi)]
    exact Or.inr rfl

theorem withinLimits_of_empty (h : (g.states i).tenants = ∅) : g.WithinLimits i := by
  have hnone : ∀ t, g.tenant i t = none := by
    intro t
    unfold GatewayProcess.tenant
    rw [h, Std.ExtTreeMap.getElem?_empty]
  refine ⟨?_, fun t tenant htenant => ?_, fun t tenant htenant => ?_⟩
  · rw [h, connectionCount_eq]
    exact Nat.zero_le _
  · rw [hnone] at htenant
    cases htenant
  · rw [hnone] at htenant
    cases htenant

theorem tenantsWithin_of_empty (h : (g.states i).tenants = ∅) : g.TenantsWithin i := by
  have hsize : (g.states i).tenants.size = 0 := by rw [h, Std.ExtTreeMap.size_empty]
  refine tenantsWithin_iff.2 ⟨hsize ▸ Nat.zero_le _, fun hfull => ?_⟩
  unfold Full at hfull
  rw [hsize] at hfull
  cases hfull

section

variable [Sha256] [GatewayJson]

variable {st : GatewayStep}

/-- **What a step does to the tenants.** -/
theorem change_of_step (hg : ∀ i, g.WithinLimits i) (h : g.step st = some g') : Change g st g' := by
  cases st with
  | request stateId envelope nowMs found sent =>
    simp only [step] at h
    split at h
    next hfound =>
      cases h
      exact change_routeRequest hg envelope nowMs sent hfound
    · cases h
  | meshRequest stateId request found sent =>
    simp only [step] at h
    split at h
    next hfound =>
      cases h
      exact change_routeMeshRequest hg request sent hfound
    · cases h
  | poll c elapsed =>
    obtain ⟨call, ended, hcall, rfl⟩ := poll_eq_some h
    refine change_endCall hg hcall ?_ ended
    simp only [KeepsRoom, hcall, Option.some.injEq, forall_eq']
  | cancel c =>
    obtain ⟨call, ended, hcall, rfl⟩ := cancel_eq_some h
    refine change_endCall hg hcall ?_ ended
    simp only [KeepsRoom, hcall, Option.some.injEq, forall_eq']
  | frame frame =>
    cases h
    exact change_frame hg frame
  | connectWorker stateId key clusterId capabilities nowMs =>
    cases h
    exact change_connectWorker (hg stateId) key clusterId capabilities nowMs
  | disconnectWorker stateId key generation =>
    cases h
    exact change_disconnectWorker (hg stateId) key generation
  | connectClient stateId tenantId connectionId =>
    cases h
    exact change_connectClient (hg stateId) tenantId connectionId
  | disconnectClient stateId tenantId connectionId =>
    cases h
    exact change_disconnectClient (hg stateId) tenantId connectionId
  | shutdown stateId =>
    cases h
    exact .same (sameTenants_requestShutdown stateId) fun _ => trivial
  | renew stateId =>
    simp only [step] at h
    split at h
    · cases h
      exact .renewed stateId rfl trivial
    · cases h

theorem withinLimits_step (hg : ∀ i, g.WithinLimits i) (hstep : g.step st = some g') (i : Nat) :
    g'.WithinLimits i := by
  cases change_of_step hg hstep with
  | same hsame _ => exact withinLimits_congr (hsame i) (hg i)
  | put stateId tenantId old tenant _ hput hfits _ => exact hput.withinLimits hfits (hg i)
  | made stateId tenantId tenant _ hput hfits _ => exact hput.withinLimits hfits (hg i)
  | renewed stateId heq _ =>
    subst heq
    rcases renew_cases (g := g) stateId i with hempty | hsame
    · exact withinLimits_of_empty hempty
    · exact withinLimits_congr hsame (hg i)

/-- **One step** keeps what is promised of the tenants exactly when it keeps room. -/
theorem tenantsWithin_step (h : g.Capacity) (hstep : g.step st = some g') :
    (∀ i, g'.TenantsWithin i) ↔ g.KeepsRoom st := by
  have htenants : ∀ i, g.TenantsWithin i := fun i => (h i).2
  cases change_of_step (fun i => (h i).1) hstep with
  | same hsame hroom =>
    exact iff_of_true (fun i => (tenantsWithin_congr (hsame i)).2 (htenants i)) (hroom htenants)
  | put stateId tenantId old tenant hold hput _ hroom =>
    rw [hput.tenantsWithin_known hold htenants, hroom]
  | made stateId tenantId tenant hnone hput _ hroom =>
    rw [hput.tenantsWithin_made hnone htenants, hroom]
  | renewed stateId heq hroom =>
    subst heq
    refine iff_of_true (fun i => ?_) hroom
    rcases renew_cases (g := g) stateId i with hempty | hsame
    · exact tenantsWithin_of_empty hempty
    · exact (tenantsWithin_congr hsame).2 (htenants i)

/-- **When capacity is only consumed by what is connected**: the limits on connections hold in every
run, and the limit on tenants is kept and met by live tenants exactly when no step leaves a partition
empty in a full map. -/
theorem capacity_iff (steps : List GatewayStep) (hrun : runFrom step new steps = some g) :
    Throughout step (fun s => ∀ i, s.WithinLimits i) new steps ∧
      (Throughout step Capacity new steps ↔ EachStep step KeepsRoom new steps) := by
  have hempty : ∀ i, (new.states i).tenants = ∅ := fun _ => rfl
  constructor
  · refine throughout_of_step (fun i => withinLimits_of_empty (hempty i)) (P := fun _ _ => True)
      (fun s st s' hs _ hstep => withinLimits_step hs hstep) ?_
    exact fun _ _ _ _ _ _ => trivial
  · refine throughout_iff_eachStep
      (fun i => ⟨withinLimits_of_empty (hempty i), tenantsWithin_of_empty (hempty i)⟩) ?_ hrun
    intro s st s' hs hstep
    rw [← tenantsWithin_step hs hstep]
    exact ⟨fun h i => (h i).2, fun h i => ⟨withinLimits_step (fun i => (hs i).1) hstep i, h i⟩⟩

end

/-- The first client of a process finds room. -/
theorem capacity_iff_first :
    @Throughout _ _ (@step Sha256.fips sampleJson) Capacity new
      [.connectClient 0 ⟨"tenant-a"⟩ "connection-1"] := by
  refine (@capacity_iff _ Sha256.fips sampleJson
    [.connectClient 0 ⟨"tenant-a"⟩ "connection-1"] rfl).2.2 ?_
  refine eachStep_cons.2 ⟨fun hlast => ?_, fun s' _ => eachStep_nil _ s'⟩
  have hplace : (∅ : Std.ExtTreeMap String TenantState compare).size + 1 = maxGatewayTenants :=
    hlast.2.1
  rw [Std.ExtTreeMap.size_empty] at hplace
  cases hplace

/-! ## Tenants that are gone -/

/-- The `i`-th of a row of tenants. -/
def numberedTenant (i : Nat) : TenantId := ⟨String.ofList ("tenant-".toList ++ decimal i)⟩

/-- The clients of the first `n` tenants, each of which connects and goes. -/
def comeAndGo (n : Nat) : List GatewayStep :=
  (List.range n).flatMap fun i => [.connectClient 0 (numberedTenant i) "connection-1",
    .disconnectClient 0 (numberedTenant i) "connection-1"]

/-- The partitions of the first `n` tenants are there, and empty. -/
structure Deserted (n : Nat) (g : GatewayProcess) : Prop where
  size : (g.states 0).tenants.size = n
  empty : ∀ t tenant, g.tenant 0 t = some tenant → tenant.live = false
  unseen : ∀ i, n ≤ i → g.tenant 0 (numberedTenant i) = none

theorem numberedTenant_injective {i j : Nat} (h : numberedTenant i = numberedTenant j) : i = j := by
  have hnames : ("tenant-".toList ++ decimal i) = "tenant-".toList ++ decimal j :=
    String.ofList_injective (TenantId.mk.inj h)
  exact decimal_injective (List.append_cancel_left hnames)

theorem connections_of_not_live (h : tenant.live = false) : tenant.connections = 0 := by
  unfold TenantState.live at h
  rw [Bool.not_eq_false', Bool.and_eq_true, Bool.and_eq_true, Bool.and_eq_true] at h
  obtain ⟨⟨⟨hworkers, hclients⟩, -⟩, -⟩ := h
  rw [TenantState.connections, List.isEmpty_iff.1 hworkers, List.isEmpty_iff.1 hclients]
  rfl

theorem Deserted.noConnection {n : Nat} (h : Deserted n g) :
    connectionCount (g.states 0).tenants = 0 := by
  rw [connectionCount_eq, total, List.sum_eq_zero_iff]
  intro weight hweight
  obtain ⟨entry, hentry, rfl⟩ := List.mem_map.1 hweight
  exact connections_of_not_live
    (h.empty ⟨entry.1⟩ entry.2 (Std.ExtTreeMap.mem_toList_iff_getElem?_eq_some.1 hentry))

def oneClient (tenantId : TenantId) : TenantState :=
  { TenantState.new tenantId with clients := ["connection-1"] }

/-- The partition that the client leaves behind. -/
theorem comesAndGoes [Sha256] [GatewayJson] {n : Nat} (h : Deserted n g)
    (hn : n < maxGatewayTenants) :
    ∃ g', runFrom step g [.connectClient 0 (numberedTenant n) "connection-1",
        .disconnectClient 0 (numberedTenant n) "connection-1"] = some g' ∧
      Puts g 0 (numberedTenant n) (.new (numberedTenant n)) g' := by
  have hplace : ¬ ((g.states 0).tenants.contains (numberedTenant n).asStr = false ∧
      (g.states 0).tenants.size ≥ maxGatewayTenants) :=
    fun hrefused => absurd hrefused.2 (Nat.not_le.2 (h.size ▸ hn))
  have hcount : ¬ connectionCount (g.states 0).tenants ≥ maxGatewayConnections := by
    rw [h.noConnection]
    decide
  have hadmission : g.admission 0 (numberedTenant n) = some (.new (numberedTenant n)) := by
    refine ((if_neg hplace).trans (if_neg hcount)).trans ?_
    rw [h.unseen n (Nat.le_refl n), Option.getD_none]
  have hclient : (TenantState.new (numberedTenant n)).tryAddClient "connection-1" =
      .ok (oneClient (numberedTenant n)) := rfl
  have hconnect : g.connectClient 0 (numberedTenant n) "connection-1" =
      g.setTenant 0 (numberedTenant n) (oneClient (numberedTenant n)) := by
    unfold connectClient
    rw [hadmission]
    dsimp only
    rw [hclient]
  have hgone : (oneClient (numberedTenant n)).removeClient "connection-1" =
      .new (numberedTenant n) := rfl
  have hdisconnect : (g.setTenant 0 (numberedTenant n) (oneClient (numberedTenant n))).disconnectClient
      0 (numberedTenant n) "connection-1" =
        (g.setTenant 0 (numberedTenant n) (oneClient (numberedTenant n))).setTenant 0
          (numberedTenant n) (.new (numberedTenant n)) := by
    unfold disconnectClient
    rw [tenant_setTenant, if_pos ⟨rfl, rfl⟩, ← hgone]
  refine ⟨_, ?_, (puts_setTenant g 0 _ (oneClient (numberedTenant n))).trans (puts_setTenant _ 0 _ _)⟩
  rw [← hdisconnect, ← hconnect]
  rfl

theorem deserted_comeAndGo [Sha256] [GatewayJson] {n : Nat} (hn : n ≤ maxGatewayTenants) :
    ∃ g, runFrom step new (comeAndGo n) = some g ∧ Deserted n g := by
  induction n with
  | zero =>
    have hempty : ∀ t, new.tenant 0 t = none := fun _ => Std.ExtTreeMap.getElem?_empty
    refine ⟨new, rfl, Std.ExtTreeMap.size_empty, fun t tenant htenant => ?_, fun _ _ => hempty _⟩
    rw [hempty] at htenant
    cases htenant
  | succ n ih =>
    obtain ⟨g, hrun, h⟩ := ih (Nat.le_of_succ_le hn)
    obtain ⟨next, hnext, hput⟩ := comesAndGoes h hn
    refine ⟨next, ?_, ?_, fun t tenant htenant => ?_, fun i hi => ?_⟩
    · unfold comeAndGo at hrun ⊢
      rw [List.range_succ, List.flatMap_append, List.flatMap_singleton, runFrom_append, hrun,
        Option.bind_some, hnext]
    · rw [hput.size, h.unseen n (Nat.le_refl n), Option.isSome_none, if_neg Bool.false_ne_true,
        h.size]
    · rw [hput.lookup] at htenant
      by_cases ht : 0 = 0 ∧ numberedTenant n = t
      · rw [if_pos ht] at htenant
        cases htenant
        rfl
      · rw [if_neg ht] at htenant
        exact h.empty t tenant htenant
    · rw [hput.lookup, if_neg fun ht => ?_]
      · exact h.unseen i (Nat.le_of_succ_le hi)
      · have := numberedTenant_injective ht.2
        omega

/-- The clients of 1024 tenants come and go, and the next tenant is kept out. -/
theorem full_of_empty_tenants :
    (¬ ∀ (sha : Sha256) (json : GatewayJson) (steps : List GatewayStep) (g : GatewayProcess),
      runFrom (@step sha json) new steps = some g → Throughout (@step sha json) Capacity new steps) ∧
    ∃ g, runFrom (@step Sha256.fips sampleJson) new (comeAndGo maxGatewayTenants) = some g ∧
      liveTenants (g.states 0).tenants = 0 ∧
      g.connectClient 0 (numberedTenant maxGatewayTenants) "connection-1" = g := by
  obtain ⟨g, hrun, h⟩ := @deserted_comeAndGo Sha256.fips sampleJson _ (Nat.le_refl maxGatewayTenants)
  have hunseen := h.unseen maxGatewayTenants (Nat.le_refl _)
  have hrefused : g.RefusedForTenants 0 (numberedTenant maxGatewayTenants) := by
    refine ⟨?_, Nat.le_of_eq h.size.symm⟩
    rw [contains_tenant, hunseen, Option.isSome_none]
  have hlive : liveTenants (g.states 0).tenants = 0 := by
    unfold liveTenants
    rw [List.countP_eq_zero]
    intro entry hentry
    rw [h.empty ⟨entry.1⟩ entry.2 (Std.ExtTreeMap.mem_toList_iff_getElem?_eq_some.1 hentry)]
    exact Bool.false_ne_true
  refine ⟨fun hclaim => ?_, g, hrun, hlive, ?_⟩
  · have hcapacity := (hclaim Sha256.fips sampleJson _ g hrun).final hrun
    have hle := (hcapacity 0).2.refused _ hrefused
    rw [hlive] at hle
    exact absurd hle (by decide)
  · unfold connectClient
    rw [admission_of_refused hrefused]

end GatewayProcess
end AppCore.Gateway
