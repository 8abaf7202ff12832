import AppCore.Base.Delimited
import AppCore.Base.Evaluation
import AppCore.Base.Runs
import AppCore.ControlPlane.FileProof

/-!
# Fencing epochs

Calls on the directory of one control plane, by whatever processes and with whatever clocks; each
returns, fails or is stopped somewhere.

* `epochs_increase` — as long as no backup is restored that is behind the state it replaces, the epochs
  of the new leases of a service increase; and a call about one service leaves the slots of the others
  alone.

The invariant is about the slots: the last epoch of a service is at least every epoch it was given.
-/

namespace AppCore.ControlPlane

/-! ## What is said about the calls -/

/-- The tenant, the cluster and the service of a lease. -/
structure ServiceScope where
  tenantId : TenantId
  clusterId : ClusterId
  serviceId : ServiceId
  deriving DecidableEq

namespace ServiceScope

/-- The key of its slot. -/
def key (scope : ServiceScope) : String :=
  serviceLeaseKey scope.tenantId scope.clusterId scope.serviceId

/-- Built from constructors that validate. -/
def Valid (scope : ServiceScope) : Prop :=
  scope.tenantId.validate = .ok () ∧ scope.clusterId.validate = .ok ()

theorem key_injective {scope other : ServiceScope} (h : scope.Valid) (h' : other.Valid)
    (hkey : scope.key = other.key) : scope = other := by
  obtain ⟨htenant, hcluster, hservice⟩ := serviceLeaseKey_injective h.1 h.2 h'.1 h'.2 hkey
  cases scope
  cases other
  simp_all

end ServiceScope

def ServiceLeaderLease.scope (lease : ServiceLeaderLease) : ServiceScope :=
  ⟨lease.tenantId, lease.clusterId, lease.serviceId⟩

/-- The scope of a call about a lease. -/
def ControlRequest.scope : ControlRequest → Option ServiceScope
  | .acquire identity serviceId _ => some ⟨identity.tenantId, identity.clusterId, serviceId⟩
  | .release lease => some lease.scope
  | _ => none

/-- Whether a core asks for a lease that it holds. -/
def renews (state : InMemoryState) (identity : CoreIdentity) (serviceId : ServiceId)
    (nowMs : UInt64) : Bool :=
  (state.slot (serviceLeaseKey identity.tenantId identity.clusterId serviceId)).lease.any
    fun current => current.expiresAtMs > nowMs ∧ current.holderCoreId = identity.coreId

section

variable [StateJson]

/-- The lease that a call was given and that is not a renewal. -/
def ControlEntry.granted (entry : ControlEntry) : Option ServiceLeaderLease :=
  match entry.call.request, entry.reply with
  | .acquire identity serviceId _, some (.lease lease) =>
    if (entry.call.control.durable entry.before).any fun state =>
      renews state identity serviceId entry.call.nowMs then none
    else some lease
  | _, _ => none

/-- The epochs of the leases that were granted for a service, in their order. -/
def ControlHistory.epochs (s : ControlHistory) (scope : ServiceScope) : List UInt64 :=
  ((s.log.filterMap ControlEntry.granted).filter fun lease => lease.scope = scope).map
    ServiceLeaderLease.epoch

/-- No epoch is given out twice for a service, or after a higher one. -/
def Increasing (s : ControlHistory) : Prop := ∀ scope, (s.epochs scope).Pairwise (· < ·)

/-- A call about one service leaves the slots of the others alone. -/
def Isolated (root : Path) (s : ControlHistory) (call : ControlCall) : Prop :=
  ∀ scope other s' state, call.request.scope = some scope → scope.Valid → other.Valid →
    other ≠ scope → s.step root call = some s' → call.control.durable s.disk = some state →
    ∃ state', call.control.durable s'.disk = some state' ∧
      state'.slot other.key = state.slot other.key

/-- A backup that is restored is not behind the state that it replaces. -/
def Covers (s : ControlHistory) (call : ControlCall) : Prop :=
  ∀ source bytes envelope state, call.request = .restoreFrom source →
    FileControlPlane.readBackup source s.disk = .ok (bytes, envelope) →
    call.control.durable s.disk = some state →
    ∀ key, (state.slot key).lastEpoch ≤ (envelope.state.slot key).lastEpoch

/-! ## What a call does to the slots -/

variable {control : FileControlPlane} {nowMs : UInt64} {d : Disk} {state state' : InMemoryState}
  {request : ControlRequest} {returned : Option ControlReply}

omit [StateJson] in
/-- Only the calls about leases touch the slots. -/
theorem apply_cases {reply : ControlReply} (h : request.apply control nowMs state = some (reply, state')) :
    (∀ key, state'.slot key = state.slot key) ∨
    (∃ identity serviceId ttlMs lease, request = .acquire identity serviceId ttlMs ∧
      reply = .lease lease ∧
      state.acquireOrRenewServiceLease identity serviceId ttlMs nowMs = (.ok lease, state')) ∨
    ∃ lease, request = .release lease ∧ state.releaseServiceLease lease = (.ok (), state') := by
  cases request with
  | acquire identity serviceId ttlMs =>
    simp only [ControlRequest.apply] at h
    split at h
    next lease state₁ hresult =>
      cases h
      exact Or.inr (Or.inl ⟨identity, serviceId, ttlMs, lease, rfl, rfl, hresult⟩)
    next => cases h
  | release lease =>
    simp only [ControlRequest.apply] at h
    split at h
    next state₁ hresult =>
      cases h
      exact Or.inr (Or.inr ⟨lease, rfl, hresult⟩)
    next => cases h
  | restoreFrom source => cases h
  | _ =>
    cases h
    exact Or.inl fun _ => rfl

/-- The last epochs do not go down. -/
theorem lastEpoch_le (h : Outcome control nowMs d state request returned state')
    (hcovers : ∀ source bytes envelope, request = .restoreFrom source →
      FileControlPlane.readBackup source d = .ok (bytes, envelope) →
      ∀ key, (state.slot key).lastEpoch ≤ (envelope.state.slot key).lastEpoch) (key : String) :
    (state.slot key).lastEpoch ≤ (state'.slot key).lastEpoch := by
  cases h with
  | kept => exact UInt64.le_refl _
  | applied happly =>
    rcases apply_cases happly with hsame | hacquire | hrelease
    · rw [hsame key]
      exact UInt64.le_refl _
    · obtain ⟨identity, serviceId, ttlMs, lease, _, _, hresult⟩ := hacquire
      have hslot := @InMemoryState.acquire_slot state identity serviceId ttlMs nowMs key
      rw [hresult] at hslot
      rcases hslot with ⟨_, herror, _⟩ | ⟨_, _, _, _, _, hslot⟩
      · cases herror
      · rw [hslot]
        split
        next hkey =>
          rw [hkey]
          exact (InMemoryState.le_max_epoch _ _).1
        next => exact UInt64.le_refl _
    · obtain ⟨lease, _, hresult⟩ := hrelease
      have hslot := @InMemoryState.release_slot state lease key
      rw [hresult] at hslot
      rcases hslot with hsame | ⟨_, _, hslot⟩
      · exact UInt64.le_of_eq (congrArg ServiceLeaseSlot.lastEpoch hsame).symm
      · exact UInt64.le_of_eq (congrArg ServiceLeaseSlot.lastEpoch hslot).symm
  | restored hrequest hread => exact hcovers _ _ _ hrequest hread key

/-- A lease that is granted has an epoch above the last one of its slot, which becomes the last. -/
theorem granted_epoch {entry : ControlEntry} {lease : ServiceLeaderLease}
    (hgranted : entry.granted = some lease) (hd : entry.call.control.durable entry.before = some state)
    (h : Outcome entry.call.control entry.call.nowMs entry.before state entry.call.request entry.reply
      state') :
    (state.slot lease.scope.key).lastEpoch < lease.epoch ∧
      lease.epoch ≤ (state'.slot lease.scope.key).lastEpoch := by
  unfold ControlEntry.granted at hgranted
  split at hgranted
  next identity serviceId ttlMs found hrequest hreply =>
    rw [hd, Option.any_some] at hgranted
    split at hgranted
    · cases hgranted
    next hnew =>
      cases hgranted
      rw [hrequest, hreply] at h
      cases h with
      | applied happly _ hreturned =>
        rcases hreturned with hnone | hsome
        · cases hnone
        · cases hsome
          simp only [ControlRequest.apply] at happly
          split at happly
          next given state₁ hresult =>
            cases happly
            have hslot := @InMemoryState.acquire_slot state identity serviceId ttlMs
              entry.call.nowMs lease.scope.key
            rw [hresult] at hslot
            rcases hslot with ⟨_, herror, _⟩ | ⟨_, expiresAtMs, hok, _, hleased, hslot⟩
            · cases herror
            · cases hok
              cases hleased with
              | renewed current hcurrent hlive hholder =>
                refine absurd ?_ hnew
                rw [renews, hcurrent, Option.any_some]
                exact decide_eq_true ⟨hlive, hholder⟩
              | granted epoch hepoch _ =>
                rw [ServiceLeaderLease.scope, ServiceScope.key, if_pos rfl] at hslot
                rw [ServiceLeaderLease.scope, ServiceScope.key, hslot]
                refine ⟨?_, (InMemoryState.le_max_epoch _ _).2⟩
                rw [UInt64.lt_iff_toNat_lt, hepoch]
                exact Nat.lt_succ_self _
          next => cases happly
      | restored hrestore => cases hrestore
  next => cases hgranted

theorem reply_of_granted {entry : ControlEntry} {lease : ServiceLeaderLease}
    (h : entry.granted = some lease) : entry.reply = some (.lease lease) := by
  unfold ControlEntry.granted at h
  split at h
  next hreply =>
    split at h
    · cases h
    · cases h
      exact hreply
  next => cases h

/-! ## The invariant -/

/-- Epochs increase, and the slots keep what was given out. -/
structure Fenced (root : Path) (s : ControlHistory) : Prop where
  increasing : Increasing s
  reserved : ∀ lease ∈ s.log.filterMap ControlEntry.granted, ∀ control : FileControlPlane,
    control.root = root → ∃ state, control.durable s.disk = some state ∧
      lease.epoch ≤ (state.slot lease.scope.key).lastEpoch

/-- What a call adds to the leases that were granted: nothing, or one with an epoch above the last
one of its slot. -/
theorem granted_cases {call : ControlCall} {reply : Option ControlReply} {t : Disk}
    (houtcome : call.outcome d = some (reply, t)) :
    ControlEntry.granted ⟨call, reply, d⟩ = none ∨
      ∃ lease state state', ControlEntry.granted ⟨call, reply, d⟩ = some lease ∧
        call.control.durable d = some state ∧ call.control.durable t = some state' ∧
        (state.slot lease.scope.key).lastEpoch < lease.epoch ∧
        lease.epoch ≤ (state'.slot lease.scope.key).lastEpoch := by
  cases hgranted : ControlEntry.granted ⟨call, reply, d⟩ with
  | none => exact Or.inl rfl
  | some lease =>
    have hreply : reply = some (.lease lease) := reply_of_granted hgranted
    rw [hreply] at houtcome
    obtain ⟨state, hstate⟩ := durable_of_outcome houtcome nofun
    obtain ⟨state', hchange, hstate'⟩ := outcome_spec houtcome hstate
    rw [← hreply] at hchange
    obtain ⟨hlt, hle⟩ := granted_epoch hgranted hstate hchange
    exact Or.inr ⟨lease, state, state', rfl, hstate, hstate', hlt, hle⟩

theorem fenced_step {root : Path} {s s' : ControlHistory} (h : Fenced root s) {call : ControlCall}
    (hcovers : Covers s call) (hstep : s.step root call = some s') : Fenced root s' := by
  unfold ControlHistory.step at hstep
  split at hstep
  next hroot =>
    obtain ⟨⟨reply, t⟩, houtcome, rfl⟩ := Option.map_eq_some_iff.1 hstep
    -- what was given out before stays reserved
    have hold : ∀ lease ∈ s.log.filterMap ControlEntry.granted, ∀ control : FileControlPlane,
        control.root = root → ∃ state, control.durable t = some state ∧
          lease.epoch ≤ (state.slot lease.scope.key).lastEpoch := by
      intro lease hlease control hcontrol
      obtain ⟨state, hstate, hle⟩ := h.reserved lease hlease call.control hroot
      obtain ⟨state', hchange, hstate'⟩ := outcome_spec houtcome hstate
      refine ⟨state', ?_, UInt64.le_trans hle (lastEpoch_le hchange ?_ _)⟩
      · rw [FileControlPlane.durable_root (hcontrol.trans hroot.symm)]
        exact hstate'
      · exact fun source bytes envelope hrequest hread =>
          hcovers source bytes envelope state hrequest hread hstate
    rcases granted_cases houtcome with hnone | hgranted
    · have hlog : (s.log ++ [(⟨call, reply, s.disk⟩ : ControlEntry)]).filterMap
          ControlEntry.granted = s.log.filterMap ControlEntry.granted := by
        rw [List.filterMap_append, List.filterMap_cons_none hnone, List.filterMap_nil,
          List.append_nil]
      refine ⟨fun scope => ?_, ?_⟩
      · unfold ControlHistory.epochs
        rw [hlog]
        exact h.increasing scope
      · rw [hlog]
        exact hold
    · obtain ⟨lease, state, state', hgranted, hstate, hstate', hlt, hle⟩ := hgranted
      have hlog : (s.log ++ [(⟨call, reply, s.disk⟩ : ControlEntry)]).filterMap
          ControlEntry.granted = s.log.filterMap ControlEntry.granted ++ [lease] := by
        rw [List.filterMap_append, List.filterMap_cons_some hgranted, List.filterMap_nil]
      refine ⟨fun scope => ?_, ?_⟩
      · unfold ControlHistory.epochs
        rw [hlog, List.filter_append, List.map_append, List.pairwise_append]
        refine ⟨h.increasing scope, ?_, ?_⟩
        · by_cases hscope : lease.scope = scope
          · simp [hscope]
          · simp [hscope]
        · intro epoch hepoch epoch' hepoch'
          obtain ⟨earlier, hearlier, rfl⟩ := List.mem_map.1 hepoch
          obtain ⟨later, hlater, rfl⟩ := List.mem_map.1 hepoch'
          obtain ⟨hmem, hscope⟩ := List.mem_filter.1 hearlier
          obtain ⟨hmem', hscope'⟩ := List.mem_filter.1 hlater
          rw [List.mem_singleton.1 hmem'] at hscope' ⊢
          obtain ⟨found, hfound, hbelow⟩ := h.reserved earlier hmem call.control hroot
          rw [hstate, Option.some.injEq] at hfound
          subst hfound
          have hsame : earlier.scope = lease.scope :=
            (of_decide_eq_true hscope).trans (of_decide_eq_true hscope').symm
          rw [hsame] at hbelow
          exact UInt64.lt_of_le_of_lt hbelow hlt
      · rw [hlog]
        intro given hgiven control hcontrol
        rcases List.mem_append.1 hgiven with hbefore | hnew
        · exact hold given hbefore control hcontrol
        · rw [List.mem_singleton.1 hnew]
          refine ⟨state', ?_, hle⟩
          rw [FileControlPlane.durable_root (hcontrol.trans hroot.symm)]
          exact hstate'
  · cases hstep

theorem fenced_start (root : Path) (d : Disk) : Fenced root { disk := d, log := [] } :=
  ⟨fun _ => List.Pairwise.nil, nofun⟩

/-- Acquiring or releasing a lease touches one slot. -/
theorem isolated (root : Path) (s : ControlHistory) (call : ControlCall) : Isolated root s call := by
  intro scope other s' state hscope hvalid hvalid' hne hstep hstate
  unfold ControlHistory.step at hstep
  split at hstep
  next hroot =>
    obtain ⟨⟨reply, t⟩, houtcome, rfl⟩ := Option.map_eq_some_iff.1 hstep
    obtain ⟨state', hchange, hstate'⟩ := outcome_spec houtcome hstate
    refine ⟨state', hstate', ?_⟩
    have hkey : scope.key ≠ other.key :=
      fun heq => hne (ServiceScope.key_injective hvalid' hvalid heq.symm)
    cases hchange with
    | kept => rfl
    | applied happly =>
      rcases apply_cases happly with hsame | hacquire | hrelease
      · exact hsame other.key
      · obtain ⟨identity, serviceId, ttlMs, lease, hrequest, _, hresult⟩ := hacquire
        rw [hrequest] at hscope
        cases hscope
        have hslot := @InMemoryState.acquire_slot state identity serviceId ttlMs call.nowMs other.key
        rw [hresult] at hslot
        rcases hslot with ⟨_, herror, _⟩ | ⟨_, _, _, _, _, hslot⟩
        · cases herror
        · exact hslot.trans (if_neg hkey)
      · obtain ⟨lease, hrequest, hresult⟩ := hrelease
        rw [hrequest] at hscope
        cases hscope
        have hslot := @InMemoryState.release_slot state lease other.key
        rw [hresult] at hslot
        rcases hslot with hsame | ⟨hsame, _, _⟩
        · exact hsame
        · exact absurd hsame hkey
    | restored hrequest _ =>
      rw [hrequest] at hscope
      cases hscope
  · cases hstep

end

/-- **Epochs are not reused**, in every run in which no backup is restored that is behind the state it
replaces: the epochs of the new leases of a service increase, and a call about one service leaves the
slots of the others alone. -/
theorem epochs_increase [StateJson] (root : Path) (start : Disk) (calls : List ControlCall)
    (hcovers : EachStep (ControlHistory.step root) Covers { disk := start, log := [] } calls) :
    Throughout (ControlHistory.step root) Increasing { disk := start, log := [] } calls ∧
      EachStep (ControlHistory.step root) (Isolated root) { disk := start, log := [] } calls :=
  ⟨(throughout_of_step (fenced_start root start)
      (fun _ _ _ h hcovers hstep => fenced_step h hcovers hstep) hcovers).imp
      fun _ h => h.increasing,
    fun _ _ _ _ _ _ => isolated root _ _⟩

/-! ### Runs -/

/-- The scope of the sample runs. -/
def sampleScope : ServiceScope := ⟨⟨"tenant-a"⟩, ⟨"cluster-a"⟩, ⟨"runtime.query"⟩⟩

def sampleCore (coreId : String) : CoreIdentity :=
  { tenantId := sampleScope.tenantId, clusterId := sampleScope.clusterId, coreId := ⟨coreId⟩,
    instanceId := ⟨coreId ++ "-1"⟩, kind := "operational", protocolVersion := ⟨1⟩,
    runtime := { appId := "app", appFamily := "family", syncGroup := "test", runtimeContract := 1,
                 nodeId := ⟨"node"⟩ } }

/-- The slot after a core was given its first lease. -/
def sampleSlot (coreId : String) : ServiceLeaseSlot :=
  { lease := some
      { serviceId := sampleScope.serviceId, tenantId := sampleScope.tenantId,
        clusterId := sampleScope.clusterId, holderCoreId := ⟨coreId⟩, epoch := 1,
        acquiredAtMs := 100, expiresAtMs := 150 }
    lastEpoch := 1 }

/-- The slots of the states of the sample runs. -/
def sampleSlots : List (List (String × ServiceLeaseSlot)) :=
  [[], [(sampleScope.key, sampleSlot "core-a")], [(sampleScope.key, sampleSlot "core-b")]]

/-- A slot in the state file. -/
def slotText (entry : String × ServiceLeaseSlot) : String :=
  let lease := match entry.2.lease with
    | none => "null"
    | some lease => "\x7b\"service_id\":\"" ++ lease.serviceId.asStr ++ "\",\"tenant_id\":\"" ++
        lease.tenantId.asStr ++ "\",\"cluster_id\":\"" ++ lease.clusterId.asStr ++
        "\",\"holder_core_id\":\"" ++ lease.holderCoreId.asStr ++ "\",\"epoch\":" ++
        String.ofList (decimal lease.epoch.toNat) ++ ",\"acquired_at_ms\":" ++
        String.ofList (decimal lease.acquiredAtMs.toNat) ++ ",\"expires_at_ms\":" ++
        String.ofList (decimal lease.expiresAtMs.toNat) ++ "\x7d"
  "\"" ++ entry.1 ++ "\":\x7b\"lease\":" ++ lease ++ ",\"last_epoch\":" ++
    String.ofList (decimal entry.2.lastEpoch.toNat) ++ "\x7d"

/-- A state file without registrations. -/
def sampleText (slots : List (String × ServiceLeaseSlot)) : String :=
  "\x7b\"format_version\":1,\"state\":\x7b\"registrations\":\x7b\x7d,\"service_leases\":\x7b" ++
    ",".intercalate (slots.map slotText) ++ "\x7d\x7d\x7d"

/-- The JSON of these states. -/
@[reducible] def sampleStateJson : StateJson where
  toVec envelope :=
    if envelope.formatVersion = 1 ∧ envelope.state.registrations.isEmpty = true ∧
        envelope.state.serviceLeases.toList ∈ sampleSlots then
      .ok (strBytes (sampleText envelope.state.serviceLeases.toList))
    else .error "not part of these runs"
  fromSlice bytes :=
    (sampleSlots.find? fun slots => strBytes (sampleText slots) = bytes).map fun slots =>
      { formatVersion := 1, state := { registrations := ∅, serviceLeases := insertAll ∅ slots } }
  fromSlice_toVec := by
    intro envelope bytes h
    split at h
    next hsample =>
      cases h
      obtain ⟨hversion, hempty, hslots⟩ := hsample
      have hfound : ∀ slots ∈ sampleSlots, (sampleSlots.find? fun other =>
          strBytes (sampleText other) = strBytes (sampleText slots)) = some slots := by
        simp only [strBytes_injective.eq_iff]
        decide +kernel
      obtain ⟨version, registrations, leases⟩ := envelope
      dsimp only at hversion hempty hslots ⊢
      rw [hfound _ hslots, Option.map_some, insertAll_toList, hversion,
        Std.ExtTreeMap.isEmpty_iff.1 hempty]
    · cases h

/-- The control plane of the sample runs. -/
def sampleControl : FileControlPlane := { root := ["control"], retentionMs := 1000, valid := by decide }

/-- A call on it that returns. -/
def sampleCall (counter nowMs : UInt64) (request : ControlRequest) : ControlCall :=
  { control := sampleControl, temp := ⟨1, counter⟩, nowMs, request, stop := none }

/-- Two cores after one another. -/
theorem epochs_increase_sample :
    @Throughout _ _ (@ControlHistory.step sampleStateJson ["control"])
        (@Increasing sampleStateJson) { disk := .empty, log := [] }
        [sampleCall 1 0 .withClock,
          sampleCall 2 100 (.acquire (sampleCore "core-a") sampleScope.serviceId 50),
          sampleCall 3 150 (.acquire (sampleCore "core-b") sampleScope.serviceId 50)] ∧
      @EachStep _ _ (@ControlHistory.step sampleStateJson ["control"])
        (@Isolated sampleStateJson ["control"]) { disk := .empty, log := [] }
        [sampleCall 1 0 .withClock,
          sampleCall 2 100 (.acquire (sampleCore "core-a") sampleScope.serviceId 50),
          sampleCall 3 150 (.acquire (sampleCore "core-b") sampleScope.serviceId 50)] := by
  refine @epochs_increase sampleStateJson ["control"] .empty _ ?_
  intro before call after s heq _ source bytes envelope state hrequest
  -- no call restores a backup
  have hmem : call ∈ [sampleCall 1 0 .withClock,
      sampleCall 2 100 (.acquire (sampleCore "core-a") sampleScope.serviceId 50),
      sampleCall 3 150 (.acquire (sampleCore "core-b") sampleScope.serviceId 50)] :=
    heq ▸ List.mem_append_right before List.mem_cons_self
  simp only [List.mem_cons, List.not_mem_nil, or_false] at hmem
  rcases hmem with rfl | rfl | rfl <;> cases hrequest

/-- A backup is made, a lease is granted, the backup is restored, and another core is granted a lease
with the same epoch. -/
theorem epoch_reused :
    ¬ ∀ (_ : StateJson) (root : Path) (start : Disk) (calls : List ControlCall),
      Throughout (ControlHistory.step root) Increasing { disk := start, log := [] } calls ∧
        EachStep (ControlHistory.step root) (Isolated root) { disk := start, log := [] } calls := by
  intro h
  have hincreasing := (h sampleStateJson ["control"] .empty
    [sampleCall 1 0 .withClock, sampleCall 2 50 (.backupTo ["backup"]),
      sampleCall 3 100 (.acquire (sampleCore "core-a") sampleScope.serviceId 50),
      sampleCall 4 100 (.restoreFrom ["backup"]),
      sampleCall 5 100 (.acquire (sampleCore "core-b") sampleScope.serviceId 50)]).1
  have hrun : (@runFrom _ _ (@ControlHistory.step sampleStateJson ["control"])
      { disk := .empty, log := [] }
      [sampleCall 1 0 .withClock, sampleCall 2 50 (.backupTo ["backup"]),
        sampleCall 3 100 (.acquire (sampleCore "core-a") sampleScope.serviceId 50),
        sampleCall 4 100 (.restoreFrom ["backup"]),
        sampleCall 5 100 (.acquire (sampleCore "core-b") sampleScope.serviceId 50)]).map
      (fun s => @ControlHistory.epochs sampleStateJson s sampleScope) = some [1, 1] := by
    simp +instances only [sampleStateJson, strBytes_eq_toByteArray]
    decide +kernel
  obtain ⟨s, hs, hepochs⟩ := Option.map_eq_some_iff.1 hrun
  have hpairwise := hincreasing.final hs sampleScope
  rw [hepochs] at hpairwise
  exact absurd hpairwise (by decide)

end AppCore.ControlPlane
