import AppCore.Gateway.Tenant

/-!
# The worker table and the capability registry

Workers come, come back under the same installation and core, and are removed by their own
connection or by the heartbeat pruner, which names a generation. The registry is written by
separate loops over its two maps.

**The invariant** (`Agrees`). The two maps are inverse relations and hold no empty set, and the
capabilities of a key are those of its last `add_worker` while a connection has that key.

* `registry_agrees` — what holds after any sequence of calls.
-/

namespace AppCore.Gateway

/-! ## The map from capabilities to workers -/

/-- The sets have no duplicates, and none is empty. -/
structure Proper (index : CapabilityName → Option (List WorkerConnectionKey)) : Prop where
  nodup : ∀ cap workers, index cap = some workers → workers.Nodup
  nonempty : ∀ cap workers, index cap = some workers → workers ≠ []

namespace CapabilityRegistry

variable {index : CapabilityName → Option (List WorkerConnectionKey)}
  {worker key : WorkerConnectionKey} {cap c : CapabilityName}

theorem proper_update (h : Proper index) {set : Option (List WorkerConnectionKey)}
    (hset : ∀ workers, set = some workers → workers.Nodup ∧ workers ≠ []) :
    Proper (Function.update index cap set) := by
  constructor
  all_goals
    intro c workers hc
    rw [Function.update_apply] at hc
    split at hc
  · exact (hset workers hc).1
  · exact h.nodup c workers hc
  · exact (hset workers hc).2
  · exact h.nonempty c workers hc

theorem proper_withdraw (worker : WorkerConnectionKey) (cap : CapabilityName)
    (h : Proper index) : Proper (withdraw worker index cap) := by
  unfold withdraw
  split
  · exact h
  next workers hworkers =>
    apply proper_update h
    intro rest hrest
    split at hrest
    · cases hrest
    next hne =>
      cases hrest
      exact ⟨(h.nodup cap workers hworkers).erase worker, hne⟩

theorem proper_advertise (worker : WorkerConnectionKey) (cap : CapabilityName)
    (h : Proper index) : Proper (advertise worker index cap) := by
  apply proper_update h
  intro workers hworkers
  cases hworkers
  constructor
  · apply List.Nodup.insert
    cases hcap : index cap with
    | none => exact List.nodup_nil
    | some workers => exact h.nodup cap workers hcap
  · exact List.ne_nil_of_mem List.mem_insert_self

theorem mem_withdraw (h : Proper index) :
    key ∈ (withdraw worker index cap c).getD [] ↔
      key ∈ (index c).getD [] ∧ ¬ (key = worker ∧ c = cap) := by
  cases hcap : index cap with
  | none =>
    have hsame : withdraw worker index cap = index := by
      unfold withdraw
      rw [hcap]
    rw [hsame]
    refine (and_iff_left_of_imp ?_).symm
    rintro hmem ⟨-, rfl⟩
    rw [hcap] at hmem
    cases hmem
  | some workers =>
    have hupdate : withdraw worker index cap = Function.update index cap
        (if workers.erase worker = [] then none else some (workers.erase worker)) := by
      unfold withdraw
      rw [hcap]
    rw [hupdate, Function.update_apply]
    by_cases hc : c = cap
    · subst hc
      have herase := (h.nodup c workers hcap).mem_erase_iff (a := key) (b := worker)
      rw [if_pos rfl, hcap, Option.getD_some, and_iff_left rfl, and_comm, ← ne_eq, ← herase]
      split
      next hempty => simp [hempty]
      next => rfl
    · simp [hc]

theorem mem_advertise :
    key ∈ (advertise worker index cap c).getD [] ↔
      key ∈ (index c).getD [] ∨ (key = worker ∧ c = cap) := by
  unfold advertise
  rw [Function.update_apply]
  by_cases hc : c = cap
  · subst hc
    simp only [if_pos, Option.getD_some, List.mem_insert_iff, and_true]
    exact or_comm
  · simp [hc]

theorem withdraw_all (worker : WorkerConnectionKey) (caps : List CapabilityName)
    (h : Proper index) :
    Proper (caps.foldl (withdraw worker) index) ∧
      ∀ c key, key ∈ (caps.foldl (withdraw worker) index c).getD [] ↔
        key ∈ (index c).getD [] ∧ ¬ (key = worker ∧ c ∈ caps) := by
  induction caps generalizing index with
  | nil => exact ⟨h, by simp⟩
  | cons cap caps ih =>
    obtain ⟨hproper, hmem⟩ := ih (proper_withdraw worker cap h)
    refine ⟨hproper, fun c key => ?_⟩
    rw [List.foldl_cons, hmem, mem_withdraw h, List.mem_cons]
    tauto

theorem advertise_all (worker : WorkerConnectionKey) (caps : List CapabilityName)
    (h : Proper index) :
    Proper (caps.foldl (advertise worker) index) ∧
      ∀ c key, key ∈ (caps.foldl (advertise worker) index c).getD [] ↔
        key ∈ (index c).getD [] ∨ (key = worker ∧ c ∈ caps) := by
  induction caps generalizing index with
  | nil => exact ⟨h, by simp⟩
  | cons cap caps ih =>
    obtain ⟨hproper, hmem⟩ := ih (proper_advertise worker cap h)
    refine ⟨hproper, fun c key => ?_⟩
    rw [List.foldl_cons, hmem, mem_advertise, List.mem_cons]
    tauto

/-! ## The two maps -/

/-- The two maps are inverse relations, and no set of workers is empty. -/
structure Inverse (registry : CapabilityRegistry) : Prop where
  proper : Proper registry.capabilityToWorkers
  inverse : ∀ capability worker, worker ∈ (registry.resolve capability).getD [] ↔
    ∃ caps, registry.workerToCapabilities worker = some caps ∧ capability ∈ caps

theorem inverse_new : Inverse new where
  proper := by
    constructor
    all_goals
      intro cap workers h
      cases h
  inverse := by
    intro capability worker
    simp [new, resolve]

variable {registry : CapabilityRegistry}

theorem workerToCapabilities_deregister (registry : CapabilityRegistry)
    (worker : WorkerConnectionKey) :
    (registry.deregister worker).workerToCapabilities =
      Function.update registry.workerToCapabilities worker none := by
  unfold deregister
  split
  next hnone => rw [← hnone, Function.update_eq_self]
  next => rfl

theorem inverse_deregister (h : registry.Inverse) (worker : WorkerConnectionKey) :
    (registry.deregister worker).Inverse := by
  have hmap := workerToCapabilities_deregister registry worker
  unfold deregister at hmap ⊢
  split
  next => exact h
  next caps hcaps =>
    obtain ⟨hproper, hmem⟩ := withdraw_all worker caps h.proper
    refine ⟨hproper, fun capability key => ?_⟩
    show key ∈ (caps.foldl (withdraw worker) registry.capabilityToWorkers capability).getD [] ↔
      ∃ caps', Function.update registry.workerToCapabilities worker none key = some caps' ∧
        capability ∈ caps'
    have hinverse := h.inverse capability key
    unfold resolve at hinverse
    rw [hmem, hinverse, Function.update_apply]
    by_cases hkey : key = worker
    · subst hkey
      simp [hcaps]
    · simp [hkey]

theorem inverse_register (h : registry.Inverse) (worker : WorkerConnectionKey)
    (capabilities : List CapabilityName) : (registry.register worker capabilities).Inverse := by
  have hbefore := inverse_deregister h worker
  obtain ⟨hproper, hmem⟩ := advertise_all worker capabilities hbefore.proper
  refine ⟨hproper, fun capability key => ?_⟩
  show key ∈ (capabilities.foldl (advertise worker)
      (registry.deregister worker).capabilityToWorkers capability).getD [] ↔
    ∃ caps, Function.update (registry.deregister worker).workerToCapabilities worker
      (some capabilities.dedup) key = some caps ∧ capability ∈ caps
  have hinverse := hbefore.inverse capability key
  unfold resolve at hinverse
  rw [hmem, hinverse, workerToCapabilities_deregister, Function.update_idem]
  simp only [Function.update_apply]
  by_cases hkey : key = worker
  · simp [hkey]
  · simp [hkey]

theorem workerToCapabilities_register (registry : CapabilityRegistry)
    (worker : WorkerConnectionKey) (capabilities : List CapabilityName) :
    (registry.register worker capabilities).workerToCapabilities =
      Function.update registry.workerToCapabilities worker (some capabilities.dedup) := by
  show Function.update (registry.deregister worker).workerToCapabilities worker _ = _
  rw [workerToCapabilities_deregister, Function.update_idem]

end CapabilityRegistry

/-! ## Sequences of calls -/

/-- A call that changes the workers of a tenant. -/
inductive TenantCall where
  | addWorker (conn : WorkerConnection) (capabilities : List CapabilityName)
  | removeWorker (installationId : InstallationId) (coreId : CoreId)
  | removeWorkerIfCurrent (installationId : InstallationId) (coreId : CoreId)
      (generation : UInt64)

/-- The connection of a call names the tenant. -/
def TenantCall.Names (tenantId : TenantId) : TenantCall → Prop
  | addWorker conn _ => conn.key.tenantId = tenantId
  | _ => True

namespace TenantState

/-- The tenant after a call; a refused connection is not added. -/
def after (tenant : TenantState) : TenantCall → TenantState
  | .addWorker conn capabilities =>
    match tenant.addWorker conn capabilities with
    | .ok tenant => tenant
    | .error _ => tenant
  | .removeWorker installationId coreId => tenant.removeWorker installationId coreId
  | .removeWorkerIfCurrent installationId coreId generation =>
    (tenant.removeWorkerIfCurrent installationId coreId generation).1

/-- The tenant after a sequence of calls. -/
def afterAll (tenant : TenantState) (calls : List TenantCall) : TenantState :=
  calls.foldl after tenant

/-- The capabilities that a call successfully adds a worker of a key with. -/
def added (tenant : TenantState) (key : WorkerConnectionKey) :
    TenantCall → Option (List CapabilityName)
  | .addWorker conn capabilities =>
    match tenant.addWorker conn capabilities with
    | .ok _ => if conn.key = key then some capabilities else none
    | .error _ => none
  | _ => none

/-- The capabilities of the most recent successful `add_worker` for a key. -/
def lastAdded (tenant : TenantState) (key : WorkerConnectionKey) :
    List TenantCall → Option (List CapabilityName)
  | [] => none
  | call :: calls => (lastAdded (tenant.after call) key calls).or (tenant.added key call)

def HasKey (tenant : TenantState) (key : WorkerConnectionKey) : Prop :=
  ∃ worker ∈ tenant.workers, worker.key = key

/-- The table and the registry agree, `last` being the capabilities a key was last added with. -/
structure Agrees (tenantId : TenantId) (last : WorkerConnectionKey → Option (List CapabilityName))
    (tenant : TenantState) : Prop where
  named : ∀ worker ∈ tenant.workers, worker.key.tenantId = tenantId
  inverse : tenant.registry.Inverse
  present : ∀ key, tenant.HasKey key → ∃ caps, last key = some caps ∧
    tenant.registry.workerToCapabilities key = some caps.dedup
  absent : ∀ key, ¬ tenant.HasKey key → tenant.registry.workerToCapabilities key = none

variable {tenant : TenantState} {tenantId : TenantId}
  {last : WorkerConnectionKey → Option (List CapabilityName)}

theorem agrees_new (tenantId : TenantId) :
    Agrees tenantId last (TenantState.new tenantId) where
  named := by
    intro worker h
    cases h
  inverse := CapabilityRegistry.inverse_new
  present := by
    rintro key ⟨worker, h, -⟩
    cases h
  absent _ _ := rfl

theorem key_eq_iff (key : WorkerConnectionKey) (h : key.tenantId = tenantId)
    (installationId : InstallationId) (coreId : CoreId) :
    key = ⟨tenantId, installationId, coreId⟩ ↔
      key.installationId = installationId ∧ key.coreId = coreId := by
  cases key
  cases h
  simp

variable {installationId : InstallationId} {coreId : CoreId}

theorem hasKey_of_getWorker (hnamed : ∀ worker ∈ tenant.workers, worker.key.tenantId = tenantId)
    {worker : WorkerConnection} (h : tenant.getWorker installationId coreId = some worker) :
    worker ∈ tenant.workers ∧ worker.key = ⟨tenantId, installationId, coreId⟩ := by
  have hmem := List.mem_of_find?_eq_some h
  have hfound := List.find?_some h
  exact ⟨hmem, (key_eq_iff _ (hnamed worker hmem) _ _).2 (of_decide_eq_true hfound)⟩

theorem mem_workersBut_iff (hnamed : ∀ worker ∈ tenant.workers, worker.key.tenantId = tenantId)
    {worker : WorkerConnection} :
    worker ∈ tenant.workersBut installationId coreId ↔
      worker ∈ tenant.workers ∧ worker.key ≠ ⟨tenantId, installationId, coreId⟩ := by
  unfold workersBut
  rw [List.mem_filter]
  refine and_congr_right fun hmem => ?_
  rw [decide_eq_true_iff, ne_eq, key_eq_iff _ (hnamed worker hmem)]

/-! ## Every call keeps the agreement -/

/-- What removes a worker from the table and from the registry. -/
theorem agrees_removeWorker (h : tenant.Agrees tenantId last) (installationId : InstallationId)
    (coreId : CoreId) : (tenant.removeWorker installationId coreId).Agrees tenantId last := by
  unfold removeWorker
  split
  next => exact h
  next conn hconn =>
    obtain ⟨-, hkey⟩ := hasKey_of_getWorker h.named hconn
    have hrest (key : WorkerConnectionKey) :
        (∃ worker ∈ tenant.workersBut installationId coreId, worker.key = key) ↔
          tenant.HasKey key ∧ key ≠ conn.key := by
      simp only [mem_workersBut_iff h.named, HasKey, hkey]
      constructor
      · rintro ⟨worker, ⟨hmem, hne⟩, rfl⟩
        exact ⟨⟨worker, hmem, rfl⟩, hne⟩
      · rintro ⟨⟨worker, hmem, rfl⟩, hne⟩
        exact ⟨worker, ⟨hmem, hne⟩, rfl⟩
    refine ⟨?_, CapabilityRegistry.inverse_deregister h.inverse _, ?_, ?_⟩
    · intro worker hworker
      exact h.named worker (List.mem_filter.1 hworker).1
    · intro key hpresent
      obtain ⟨hhas, hne⟩ := (hrest key).1 hpresent
      obtain ⟨caps, hlast, hcaps⟩ := h.present key hhas
      refine ⟨caps, hlast, ?_⟩
      rw [CapabilityRegistry.workerToCapabilities_deregister, Function.update_of_ne hne]
      exact hcaps
    · intro key hgone
      rw [CapabilityRegistry.workerToCapabilities_deregister, Function.update_apply]
      split
      · rfl
      next hne => exact h.absent key fun hhas => hgone ((hrest key).2 ⟨hhas, hne⟩)

/-- The registry after an accepted connection: a connection that is replaced has the same key. -/
theorem addWorker_eq_ok (hnamed : ∀ worker ∈ tenant.workers, worker.key.tenantId = tenantId)
    {conn : WorkerConnection} (hconn : conn.key.tenantId = tenantId)
    {capabilities : List CapabilityName} {tenant' : TenantState}
    (h : tenant.addWorker conn capabilities = .ok tenant') :
    (tenant'.workers = conn :: tenant.workersBut conn.key.installationId conn.key.coreId) ∧
      (tenant.registry.Inverse → tenant'.registry.Inverse) ∧
      tenant'.registry.workerToCapabilities =
        Function.update tenant.registry.workerToCapabilities conn.key (some capabilities.dedup) := by
  have hown : conn.key = ⟨tenantId, conn.key.installationId, conn.key.coreId⟩ :=
    (key_eq_iff conn.key hconn _ _).2 ⟨rfl, rfl⟩
  unfold addWorker at h
  dsimp only at h
  split at h
  · cases h
  · cases h
    refine ⟨rfl, ?_, ?_⟩
    · intro hinverse
      apply CapabilityRegistry.inverse_register
      split
      · exact CapabilityRegistry.inverse_deregister hinverse _
      · exact hinverse
    · rw [CapabilityRegistry.workerToCapabilities_register]
      split
      next previous hprevious =>
        obtain ⟨-, hkey⟩ := hasKey_of_getWorker hnamed hprevious
        rw [CapabilityRegistry.workerToCapabilities_deregister, hkey, ← hown,
          Function.update_idem]
      next => rfl

theorem agrees_addWorker (h : tenant.Agrees tenantId last) {conn : WorkerConnection}
    (hconn : conn.key.tenantId = tenantId) {capabilities : List CapabilityName}
    {tenant' : TenantState} (hadd : tenant.addWorker conn capabilities = .ok tenant') :
    tenant'.Agrees tenantId
      (fun key => (if conn.key = key then some capabilities else none).or (last key)) := by
  have hown : conn.key = ⟨tenantId, conn.key.installationId, conn.key.coreId⟩ :=
    (key_eq_iff conn.key hconn _ _).2 ⟨rfl, rfl⟩
  obtain ⟨hworkers, hinverse, hmap⟩ := addWorker_eq_ok h.named hconn hadd
  have hmem (worker : WorkerConnection) : worker ∈ tenant'.workers ↔
      worker = conn ∨ worker ∈ tenant.workers ∧ worker.key ≠ conn.key := by
    rw [hworkers, List.mem_cons, mem_workersBut_iff h.named, ← hown]
  refine ⟨?_, hinverse h.inverse, ?_, ?_⟩
  · intro worker hworker
    rcases (hmem worker).1 hworker with rfl | ⟨hold, -⟩
    · exact hconn
    · exact h.named worker hold
  · rintro key ⟨worker, hworker, rfl⟩
    rw [hmap]
    by_cases hkey : conn.key = worker.key
    · exact ⟨capabilities, by simp [hkey], by rw [hkey, Function.update_self]⟩
    · rcases (hmem worker).1 hworker with rfl | ⟨hold, hne⟩
      · exact absurd rfl hkey
      · obtain ⟨caps, hlast, hcaps⟩ := h.present worker.key ⟨worker, hold, rfl⟩
        exact ⟨caps, by simp [hkey, hlast], by rw [Function.update_of_ne hne]; exact hcaps⟩
  · intro key hgone
    have hne : key ≠ conn.key := by
      rintro rfl
      exact hgone ⟨conn, (hmem conn).2 (Or.inl rfl), rfl⟩
    rw [hmap, Function.update_of_ne hne]
    apply h.absent
    rintro ⟨worker, hworker, rfl⟩
    exact hgone ⟨worker, (hmem worker).2 (Or.inr ⟨hworker, hne⟩), rfl⟩

/-- **Every call keeps the agreement.** -/
theorem agrees_after (h : tenant.Agrees tenantId last) {call : TenantCall}
    (hcall : call.Names tenantId) :
    (tenant.after call).Agrees tenantId (fun key => (tenant.added key call).or (last key)) := by
  cases call with
  | addWorker conn capabilities =>
    cases hadd : tenant.addWorker conn capabilities with
    | ok tenant' =>
      simp only [after, added, hadd]
      exact agrees_addWorker h hcall hadd
    | error e =>
      simp only [after, added, hadd]
      exact h
  | removeWorker installationId coreId =>
    simp only [after, added, Option.none_or]
    exact agrees_removeWorker h installationId coreId
  | removeWorkerIfCurrent installationId coreId generation =>
    simp only [after, added, Option.none_or]
    unfold removeWorkerIfCurrent
    split
    · exact agrees_removeWorker h installationId coreId
    · exact h

variable {calls : List TenantCall}

theorem agrees_afterAll (h : tenant.Agrees tenantId last)
    (hcalls : ∀ call ∈ calls, call.Names tenantId) :
    (tenant.afterAll calls).Agrees tenantId
      (fun key => (tenant.lastAdded key calls).or (last key)) := by
  induction calls generalizing tenant last with
  | nil => exact h
  | cons call calls ih =>
    have hstep := agrees_after h (hcalls call List.mem_cons_self)
    have hrest := ih hstep fun call hcall => hcalls call (List.mem_cons_of_mem _ hcall)
    simpa only [lastAdded, Option.or_assoc, afterAll, List.foldl_cons] using hrest

theorem agrees_run (tenantId : TenantId) (hcalls : ∀ call ∈ calls, call.Names tenantId) :
    ((TenantState.new tenantId).afterAll calls).Agrees tenantId
      (fun key => (TenantState.new tenantId).lastAdded key calls) := by
  have h : ((TenantState.new tenantId).afterAll calls).Agrees tenantId
      (fun key => ((TenantState.new tenantId).lastAdded key calls).or none) :=
    agrees_afterAll (agrees_new tenantId) hcalls
  simpa only [Option.or_none] using h

theorem mem_resolve_afterAll (tenantId : TenantId) (hcalls : ∀ call ∈ calls, call.Names tenantId)
    (capability : CapabilityName) (key : WorkerConnectionKey) :
    key ∈ (((TenantState.new tenantId).afterAll calls).registry.resolve capability).getD [] ↔
      ((TenantState.new tenantId).afterAll calls).HasKey key ∧
        ∃ caps, (TenantState.new tenantId).lastAdded key calls = some caps ∧ capability ∈ caps := by
  have h := agrees_run tenantId hcalls
  rw [h.inverse.inverse]
  by_cases hhas : ((TenantState.new tenantId).afterAll calls).HasKey key
  · obtain ⟨caps, hlast, hcaps⟩ := h.present key hhas
    simp [hhas, hlast, hcaps]
  · simp [hhas, h.absent key hhas]

theorem removeWorkerIfCurrent_older {generation : UInt64} {worker : WorkerConnection}
    (hworker : tenant.getWorker installationId coreId = some worker)
    (hgeneration : worker.generation ≠ generation) :
    tenant.removeWorkerIfCurrent installationId coreId generation = (tenant, false) := by
  unfold removeWorkerIfCurrent
  rw [hworker]
  simp [hgeneration]

/-- **The worker table and the capability registry agree** after any sequence of calls. -/
theorem registry_agrees (tenantId : TenantId) (calls : List TenantCall)
    (hcalls : ∀ call ∈ calls, call.Names tenantId) :
    let tenant := (TenantState.new tenantId).afterAll calls
    (∀ capability key, key ∈ (tenant.registry.resolve capability).getD [] ↔
      tenant.HasKey key ∧ ∃ caps, (TenantState.new tenantId).lastAdded key calls = some caps ∧
        capability ∈ caps) ∧
    tenant.registry.Inverse ∧
    (∀ installationId coreId generation worker,
      tenant.getWorker installationId coreId = some worker → worker.generation ≠ generation →
        tenant.after (.removeWorkerIfCurrent installationId coreId generation) = tenant) ∧
    (∀ conn capabilities e, tenant.addWorker conn capabilities = .error e →
      tenant.after (.addWorker conn capabilities) = tenant) := by
  intro tenant
  refine ⟨mem_resolve_afterAll tenantId hcalls, (agrees_run tenantId hcalls).inverse, ?_, ?_⟩
  · intro installationId coreId generation worker hworker hgeneration
    simp only [after, removeWorkerIfCurrent_older hworker hgeneration]
  · intro conn capabilities e herror
    simp only [after, herror]

/-- A worker that comes back with other capabilities, and the late teardown of the first. -/
theorem registry_agrees_sample :
    let key : WorkerConnectionKey := ⟨⟨"tenant"⟩, ⟨"installation"⟩, ⟨"core"⟩⟩
    let tenant := (TenantState.new ⟨"tenant"⟩).afterAll
      [.addWorker ⟨key, none, 1⟩ [⟨"a"⟩], .addWorker ⟨key, none, 2⟩ [⟨"b"⟩],
        .removeWorkerIfCurrent ⟨"installation"⟩ ⟨"core"⟩ 1]
    tenant.registry.Inverse ∧ tenant.registry.resolve ⟨"b"⟩ = some [key] :=
  ⟨(registry_agrees ⟨"tenant"⟩ _ (by simp [TenantCall.Names])).2.1, by decide⟩

end TenantState

end AppCore.Gateway
