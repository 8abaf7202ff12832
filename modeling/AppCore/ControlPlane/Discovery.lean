import AppCore.ControlPlane.Epochs

/-!
# Presence

Calls on one control plane whose clock does not go back, some of them heartbeats that are accepted.

* `discoverable` — as long as every heartbeat finds a registration of the core that sends it, and no
  other identity is registered in the place of one that is alive, a core that sent a heartbeat is
  listed until the retention has passed.

The invariant is about the registrations: the one of a heartbeat is there, and not older than it.
-/

namespace AppCore.ControlPlane

/-! ## What is said about the calls -/

/-- The core and the server time of an accepted heartbeat. -/
def ControlEntry.beat (entry : ControlEntry) : Option (CoreIdentity × UInt64) :=
  match entry.call.request, entry.reply with
  | .heartbeat request, some (.heartbeat response) =>
    if response.accepted then some (request.identity, entry.call.nowMs) else none
  | _, _ => none

/-- The heartbeats that were accepted. -/
def ControlHistory.beats (s : ControlHistory) : List (CoreIdentity × UInt64) :=
  s.log.filterMap ControlEntry.beat

/-- A heartbeat still counts at a time. -/
def Fresh (control : FileControlPlane) (beat : CoreIdentity × UInt64) (nowMs : UInt64) : Prop :=
  nowMs.toNat ≤ beat.2.toNat + control.retentionMs.toNat

/-- A call of the control plane: its clock has not gone back, and no backup is restored. -/
structure Presented (control : FileControlPlane) (s : ControlHistory) (call : ControlCall) : Prop where
  control_eq : call.control = control
  in_order : ∀ entry ∈ s.log, entry.call.nowMs ≤ call.nowMs
  not_restore : ∀ source, call.request ≠ .restoreFrom source

section

variable [StateJson]

/-- A call of `discover_peers` that returns lists every other core of the cluster with a heartbeat
that counts. -/
def Discoverable (control : FileControlPlane) (s : ControlHistory) (call : ControlCall) : Prop :=
  ∀ identity directory t, call.request = .discoverPeers identity →
    call.outcome s.disk = some (some (.peers directory), t) →
    ∀ beat ∈ s.beats, beat.1.tenantId = identity.tenantId → beat.1.clusterId = identity.clusterId →
      beat.1.instanceId ≠ identity.instanceId → Fresh control beat call.nowMs →
      ∃ peer ∈ directory.peers, peer.identity = beat.1

/-- Heartbeats come from cores that are registered and not yet pruned, and no core is registered over
another one with a heartbeat that counts. -/
structure Registered (control : FileControlPlane) (s : ControlHistory) (call : ControlCall) : Prop where
  heartbeat : ∀ (request : HeartbeatRequest) (state : InMemoryState),
    call.request = .heartbeat request → control.durable s.disk = some state →
    ∃ registration : CoreRegistration,
      (control.prune state call.nowMs).registrations[instanceKey request.identity]? =
        some registration ∧ registration.manifest.identity = request.identity
  register : ∀ (registration : CoreRegistration), call.request = .register registration →
    ∀ beat ∈ s.beats, Fresh control beat call.nowMs →
      instanceKey registration.manifest.identity = instanceKey beat.1 →
      registration.manifest.identity = beat.1

end

/-! ## The registrations -/

/-- A core has a registration that is not older than a time. -/
def InMemoryState.Knows (state : InMemoryState) (beat : CoreIdentity × UInt64) : Prop :=
  ∃ registration : CoreRegistration, state.registrations[instanceKey beat.1]? = some registration ∧
    registration.manifest.identity = beat.1 ∧ beat.2 ≤ registration.registeredAtMs

variable {control : FileControlPlane} {state state' : InMemoryState}
  {beat : CoreIdentity × UInt64} {nowMs : UInt64}

theorem lookup_prune (key : String) :
    (control.prune state nowMs).registrations[key]? =
      (state.registrations[key]?).filter fun registration =>
        registration.registeredAtMs ≥ saturatingSub nowMs control.retentionMs :=
  Std.ExtTreeMap.getElem?_filter'

theorem cutoff_le (hfresh : Fresh control beat nowMs) {registeredAtMs : UInt64}
    (h : beat.2 ≤ registeredAtMs) :
    saturatingSub nowMs control.retentionMs ≤ registeredAtMs := by
  unfold Fresh at hfresh
  rw [UInt64.le_iff_toNat_le] at h ⊢
  unfold saturatingSub
  split
  next hle =>
    rw [UInt64.toNat_sub_of_le _ _ hle]
    omega
  next => exact Nat.zero_le _

theorem knows_prune (h : state.Knows beat) (hfresh : Fresh control beat nowMs) :
    (control.prune state nowMs).Knows beat := by
  obtain ⟨registration, hfound, hidentity, hle⟩ := h
  refine ⟨registration, ?_, hidentity, hle⟩
  rw [lookup_prune, hfound, Option.filter_some, if_pos]
  exact decide_eq_true (cutoff_le hfresh hle)

theorem lookup_register (registration : CoreRegistration) (key : String) :
    (state.register registration).2.registrations[key]? =
      if instanceKey registration.manifest.identity = key then some registration
      else state.registrations[key]? :=
  lookup_insert _ _ _ _

theorem lookup_heartbeat (request : HeartbeatRequest) (key : String) :
    (state.heartbeat request).2.registrations[key]? =
      if instanceKey request.identity = key then
        (state.registrations[key]?).map fun registration =>
          { registration with
            registeredAtMs := request.sentAtMs, operationMode := request.operationMode }
      else state.registrations[key]? :=
  lookup_modify _ _ _ _

theorem knows_register (h : state.Knows beat) {registration : CoreRegistration}
    (hle : beat.2 ≤ registration.registeredAtMs)
    (hsame : instanceKey registration.manifest.identity = instanceKey beat.1 →
      registration.manifest.identity = beat.1) : (state.register registration).2.Knows beat := by
  obtain ⟨found, hfound, hidentity, hold⟩ := h
  by_cases hkey : instanceKey registration.manifest.identity = instanceKey beat.1
  · refine ⟨registration, ?_, hsame hkey, hle⟩
    rw [lookup_register, if_pos hkey]
  · refine ⟨found, ?_, hidentity, hold⟩
    rw [lookup_register, if_neg hkey, hfound]

theorem knows_heartbeat (h : state.Knows beat) {request : HeartbeatRequest}
    (hle : beat.2 ≤ request.sentAtMs) : (state.heartbeat request).2.Knows beat := by
  obtain ⟨found, hfound, hidentity, hold⟩ := h
  by_cases hkey : instanceKey request.identity = instanceKey beat.1
  · refine ⟨{ found with
      registeredAtMs := request.sentAtMs, operationMode := request.operationMode }, ?_, hidentity, hle⟩
    rw [lookup_heartbeat, if_pos hkey, hfound, Option.map_some]
  · refine ⟨found, ?_, hidentity, hold⟩
    rw [lookup_heartbeat, if_neg hkey, hfound]

theorem knows_own_heartbeat {request : HeartbeatRequest} {registration : CoreRegistration}
    (hfound : state.registrations[instanceKey request.identity]? = some registration)
    (hidentity : registration.manifest.identity = request.identity) :
    (state.heartbeat request).2.Knows (request.identity, request.sentAtMs) := by
  refine ⟨{ registration with
    registeredAtMs := request.sentAtMs, operationMode := request.operationMode }, ?_, hidentity,
    UInt64.le_refl request.sentAtMs⟩
  rw [lookup_heartbeat, if_pos rfl, hfound, Option.map_some]

theorem listed_of_knows (h : state.Knows beat) {identity : CoreIdentity}
    (htenant : beat.1.tenantId = identity.tenantId)
    (hcluster : beat.1.clusterId = identity.clusterId)
    (hinstance : beat.1.instanceId ≠ identity.instanceId) :
    ∃ peer ∈ (state.discoverPeers identity).peers, peer.identity = beat.1 := by
  obtain ⟨registration, hfound, hidentity, -⟩ := h
  refine ⟨InMemoryState.peerRecord registration, ?_, hidentity⟩
  refine List.mem_map_of_mem (List.mem_filter.2 ⟨List.mem_map.2 ⟨(instanceKey beat.1, registration),
    Std.ExtTreeMap.mem_toList_iff_getElem?_eq_some.2 hfound, rfl⟩, ?_⟩)
  unfold InMemoryState.isPeerOf
  rw [hidentity]
  exact decide_eq_true ⟨htenant, hcluster, hinstance⟩

theorem registrations_acquire {identity : CoreIdentity} {serviceId : ServiceId} {ttlMs : UInt64} :
    (state.acquireOrRenewServiceLease identity serviceId ttlMs nowMs).2.registrations =
      state.registrations := by
  unfold InMemoryState.acquireOrRenewServiceLease
  split
  · rfl
  · dsimp only
    split <;> rfl

theorem registrations_release {lease : ServiceLeaderLease} :
    (state.releaseServiceLease lease).2.registrations = state.registrations := by
  unfold InMemoryState.releaseServiceLease
  dsimp only
  split
  · rfl
  · split <;> rfl

/-- **What a request keeps**: a registration as recent as a heartbeat that counts. -/
theorem knows_apply {request : ControlRequest} {reply : ControlReply} (h : state.Knows beat)
    (hfresh : Fresh control beat nowMs) (hle : beat.2 ≤ nowMs)
    (hregister : ∀ registration : CoreRegistration, request = .register registration →
      instanceKey registration.manifest.identity = instanceKey beat.1 →
      registration.manifest.identity = beat.1)
    (happly : request.apply control nowMs state = some (reply, state')) : state'.Knows beat := by
  have hsame : state'.registrations = state.registrations → state'.Knows beat := by
    intro heq
    unfold InMemoryState.Knows
    rw [heq]
    exact h
  cases request with
  | withClock =>
    cases happly
    exact h
  | register registration =>
    cases happly
    exact knows_register (knows_prune h hfresh) hle (hregister registration rfl)
  | heartbeat request =>
    cases happly
    exact knows_heartbeat (knows_prune h hfresh) hle
  | discoverPeers identity =>
    cases happly
    exact knows_prune h hfresh
  | acquire identity serviceId ttlMs =>
    have hkept := @registrations_acquire state nowMs identity serviceId ttlMs
    simp only [ControlRequest.apply] at happly
    split at happly
    next lease final hresult =>
      cases happly
      rw [hresult] at hkept
      exact hsame hkept
    next => cases happly
  | release lease =>
    have hkept := @registrations_release state lease
    simp only [ControlRequest.apply] at happly
    split at happly
    next final hresult =>
      cases happly
      rw [hresult] at hkept
      exact hsame hkept
    next => cases happly
  | backupTo destination =>
    cases happly
    exact h
  | restoreFrom source => cases happly

/-! ## The invariant -/

section

variable [StateJson] {s s' : ControlHistory} {call : ControlCall} {d t : Disk}

/-- A core with a heartbeat that counts at the time of every call has a registration. -/
def Present (control : FileControlPlane) (s : ControlHistory) : Prop :=
  ∀ beat ∈ s.beats, (∀ entry ∈ s.log, Fresh control beat entry.call.nowMs) →
    ∃ state, control.durable s.disk = some state ∧ state.Knows beat

omit [StateJson] in
theorem mem_beats (h : beat ∈ s.beats) : ∃ entry ∈ s.log, entry.call.nowMs = beat.2 := by
  obtain ⟨entry, hentry, hbeat⟩ := List.mem_filterMap.1 h
  refine ⟨entry, hentry, ?_⟩
  unfold ControlEntry.beat at hbeat
  split at hbeat
  · split at hbeat
    · cases hbeat
      rfl
    · cases hbeat
  · cases hbeat

omit [StateJson] in
theorem fresh_before (hclock : ∀ entry ∈ s.log, entry.call.nowMs ≤ call.nowMs)
    (h : Fresh control beat call.nowMs) : ∀ entry ∈ s.log, Fresh control beat entry.call.nowMs := by
  intro entry hentry
  exact Nat.le_trans (UInt64.le_iff_toNat_le.1 (hclock entry hentry)) h

omit [StateJson] in
theorem beats_le (hclock : ∀ entry ∈ s.log, entry.call.nowMs ≤ call.nowMs) (h : beat ∈ s.beats) :
    beat.2 ≤ call.nowMs := by
  obtain ⟨entry, hentry, hnow⟩ := mem_beats h
  rw [← hnow]
  exact hclock entry hentry

theorem knows_outcome {returned : Option ControlReply} (hcall : Presented control s call)
    (hregistered : Registered control s call) (hbeat : beat ∈ s.beats)
    (hfresh : Fresh control beat call.nowMs) (h : state.Knows beat)
    (hchange : Outcome control call.nowMs d state call.request returned state') :
    state'.Knows beat := by
  cases hchange with
  | kept => exact h
  | applied happly =>
    exact knows_apply h hfresh (beats_le hcall.in_order hbeat)
      (fun registration hrequest hkey =>
        hregistered.register registration hrequest beat hbeat hfresh hkey) happly
  | restored hrequest => exact absurd hrequest (hcall.not_restore _)

/-- The core whose heartbeat is accepted is known afterwards. -/
theorem knows_new_beat {returned : Option ControlReply} (hregistered : Registered control s call)
    (hcontrol : call.control = control)
    (hbeat : ControlEntry.beat ⟨call, returned, s.disk⟩ = some beat)
    (houtcome : call.outcome s.disk = some (returned, t)) :
    ∃ state', control.durable t = some state' ∧ state'.Knows beat := by
  unfold ControlEntry.beat at hbeat
  split at hbeat
  next request response hrequest hreply =>
    split at hbeat
    next =>
      cases hbeat
      dsimp only at hrequest hreply
      rw [hreply] at houtcome
      obtain ⟨state, hstate⟩ := durable_of_outcome houtcome nofun
      obtain ⟨state', hchange, hstate'⟩ := outcome_spec houtcome hstate
      rw [hcontrol] at hstate hstate' hchange
      refine ⟨state', hstate', ?_⟩
      obtain ⟨registration, hfound, hidentity⟩ := hregistered.heartbeat request state hrequest hstate
      rw [hrequest] at hchange
      cases hchange with
      | applied happly =>
        cases happly
        exact @knows_own_heartbeat _ { request with sentAtMs := call.nowMs } registration hfound
          hidentity
      | restored hrestore => cases hrestore
    next => cases hbeat
  next => cases hbeat

theorem present_step {root : Path} (h : Present control s) (hcall : Presented control s call)
    (hregistered : Registered control s call) (hstep : s.step root call = some s') :
    Present control s' := by
  unfold ControlHistory.step at hstep
  split at hstep
  next hroot =>
    obtain ⟨⟨returned, t⟩, houtcome, rfl⟩ := Option.map_eq_some_iff.1 hstep
    intro beat hbeat hfresh
    have hnow : Fresh control beat call.nowMs :=
      hfresh ⟨call, returned, s.disk⟩ (List.mem_append_right _ List.mem_cons_self)
    unfold ControlHistory.beats at hbeat
    dsimp only at hbeat
    rw [List.filterMap_append] at hbeat
    rcases List.mem_append.1 hbeat with hold | hnew
    · obtain ⟨state, hstate, hknows⟩ := h beat hold (fresh_before hcall.in_order hnow)
      rw [← hcall.control_eq] at hstate
      obtain ⟨state', hchange, hstate'⟩ := outcome_spec houtcome hstate
      rw [hcall.control_eq] at hchange hstate'
      exact ⟨state', hstate', knows_outcome hcall hregistered hold hnow hknows hchange⟩
    · obtain ⟨entry, hentry, hbeat⟩ := List.mem_filterMap.1 hnew
      rw [List.mem_singleton.1 hentry] at hbeat
      exact knows_new_beat hregistered hcall.control_eq hbeat houtcome
  next => cases hstep

theorem present_start (start : Disk) : Present control { disk := start, log := [] } := nofun

/-- A call that lists the peers lists the cores that are known. -/
theorem discoverable_of_present (h : Present control s) (hcall : Presented control s call) :
    Discoverable control s call := by
  intro identity directory t hrequest houtcome beat hbeat htenant hcluster hinstance hfresh
  obtain ⟨state, hstate, hknows⟩ := h beat hbeat (fresh_before hcall.in_order hfresh)
  rw [← hcall.control_eq] at hstate
  obtain ⟨state', hchange, -⟩ := outcome_spec houtcome hstate
  rw [hrequest, hcall.control_eq] at hchange
  cases hchange with
  | applied happly _ hreturned =>
    rcases hreturned with hnone | hsome
    · cases hnone
    · cases hsome
      cases happly
      exact listed_of_knows (knows_prune hknows hfresh) htenant hcluster hinstance
  | restored hrestore => cases hrestore

end

/-- **An accepted heartbeat keeps a core discoverable**, in every run in which the heartbeats come from
cores that are registered and not pruned, and no core is registered over another. -/
theorem discoverable [StateJson] (control : FileControlPlane) (start : Disk)
    (calls : List ControlCall)
    (hcalls : EachStep (ControlHistory.step control.root) (Presented control)
      { disk := start, log := [] } calls)
    (hregistered : EachStep (ControlHistory.step control.root) (Registered control)
      { disk := start, log := [] } calls) :
    EachStep (ControlHistory.step control.root) (Discoverable control)
      { disk := start, log := [] } calls := by
  have hboth : EachStep (ControlHistory.step control.root)
      (fun s call => Presented control s call ∧ Registered control s call)
      { disk := start, log := [] } calls :=
    fun before call after s heq hrun =>
      ⟨hcalls before call after s heq hrun, hregistered before call after s heq hrun⟩
  have hpresent := throughout_of_step (present_start start)
    (fun _ _ _ h hstep hnext => present_step h hstep.1 hstep.2 hnext) hboth
  exact hpresent.eachStep hcalls fun _ _ h hcall => discoverable_of_present h hcall

/-! ### Runs -/

/-- The registration of a core in the sample runs. -/
def sampleRegistration (registeredAtMs : UInt64) : CoreRegistration :=
  { manifest :=
      { identity := sampleCore "core-a", appName := "app", appVersion := "1.0.0",
        runtimeMinVersion := "1.0.0", runtimeMaxVersion := none, capabilities := [],
        endpoints := [], metadata := ∅ }
    registeredAtMs, operationMode := .readWrite }

/-- The state of the sample run, when the core was seen. -/
def presenceState (registeredAtMs : UInt64) : InMemoryState :=
  { registrations :=
      insertAll ∅ [(instanceKey (sampleCore "core-a"), sampleRegistration registeredAtMs)]
    serviceLeases := ∅ }

/-- The state file up to the time. -/
def presenceHead : List String :=
  ["\x7b\"format_version\":1,\"state\":\x7b\"registrations\":\x7b",
    "\"tenant-a:cluster-a:core-a-1\":\x7b\"manifest\":\x7b\"identity\":",
    "\x7b\"tenant_id\":\"tenant-a\",\"cluster_id\":\"cluster-a\",",
    "\"core_id\":\"core-a\",\"instance_id\":\"core-a-1\",",
    "\"kind\":\"operational\",\"protocol_version\":1,\"runtime\":",
    "\x7b\"app_id\":\"app\",\"app_family\":\"family\",\"sync_group\":\"test\",",
    "\"runtime_contract\":1,\"node_id\":\"node\"\x7d\x7d,\"app_name\":\"app\",",
    "\"app_version\":\"1.0.0\",\"runtime_min_version\":\"1.0.0\",",
    "\"runtime_max_version\":null,\"capabilities\":[],\"endpoints\":[],",
    "\"metadata\":\x7b\x7d\x7d,\"registered_at_ms\":"]

/-- The state file after it. -/
def presenceTail : String := ",\"operation_mode\":\"read_write\"\x7d\x7d,\"service_leases\":\x7b\x7d\x7d\x7d"

/-- The state file of the sample run. -/
def presenceBytes (registeredAtMs : UInt64) : Bytes :=
  presenceHead.flatMap strBytes ++ utf8 (decimal registeredAtMs.toNat) ++ strBytes presenceTail

theorem presenceBytes_ne : presenceBytes 120 ≠ presenceBytes 100 := by
  intro heq
  have htimes := List.append_cancel_left (List.append_cancel_right heq)
  exact absurd htimes (by decide)

theorem length_presenceBytes : (presenceBytes 100).length ≤ maxControlPlaneStateBytes := by
  decide +kernel

/-- The JSON of the states of this run. -/
@[reducible] def presenceJson : StateJson where
  toVec envelope :=
    if envelope.formatVersion = 1 ∧ envelope.state = presenceState 100 then .ok (presenceBytes 100)
    else if envelope.formatVersion = 1 ∧ envelope.state = presenceState 120 then
      .ok (presenceBytes 120)
    else .error "not part of this run"
  fromSlice bytes :=
    if bytes = presenceBytes 100 then some { formatVersion := 1, state := presenceState 100 }
    else if bytes = presenceBytes 120 then some { formatVersion := 1, state := presenceState 120 }
    else none
  fromSlice_toVec := by
    intro envelope bytes h
    obtain ⟨version, state⟩ := envelope
    split at h
    next hfirst =>
      cases h
      obtain ⟨rfl, rfl⟩ := hfirst
      exact if_pos rfl
    next =>
      split at h
      next hsecond =>
        cases h
        obtain ⟨rfl, rfl⟩ := hsecond
        rw [if_neg presenceBytes_ne, if_pos rfl]
      next => cases h

/-- A disk with the first of these states. -/
def presenceDisk : Disk where
  nodes := [([], .dir), (["control"], .dir),
    (["control", "control-plane-state-v1.json"], .file (presenceBytes 100))]
  nodup := by
    simp
  root := List.mem_cons_self
  parent := by
    intro p c n h
    simp only [List.mem_cons, List.not_mem_nil, or_false, Prod.mk.injEq] at h ⊢
    rcases h with ⟨hp, -⟩ | ⟨hp, -⟩ | ⟨hp, -⟩
    · exact absurd (congrArg List.length hp) (by simp)
    · exact Or.inl ⟨@List.append_inj_left' _ p [c] [] ["control"] hp rfl, trivial⟩
    · exact Or.inr (Or.inl ⟨@List.append_inj_left' _ p [c] ["control"]
        ["control-plane-state-v1.json"] hp rfl, trivial⟩)
  names := by
    have hnames : ∀ c ∈ ["control", "control-plane-state-v1.json"], isName c = true := by
      decide
    intro p n h c hc
    simp only [List.mem_cons, List.not_mem_nil, or_false, Prod.mk.injEq] at h
    rcases h with ⟨rfl, -⟩ | ⟨rfl, -⟩ | ⟨rfl, -⟩
    · cases hc
    · exact hnames c (List.mem_cons.2 (Or.inl (List.mem_singleton.1 hc)))
    · exact hnames c hc

theorem durable_presenceDisk :
    @FileControlPlane.durable presenceJson sampleControl presenceDisk =
      some (presenceState 100) := by
  have hfile : presenceDisk.get sampleControl.statePath = some (.file (presenceBytes 100)) :=
    Disk.get_eq_some.2 (List.mem_cons_of_mem _ (List.mem_cons_of_mem _ List.mem_cons_self))
  refine @FileControlPlane.durable_decoded _ _ presenceJson _
    { formatVersion := 1, state := presenceState 100 } hfile length_presenceBytes ?_
  unfold decodeEnvelope
  rw [show @StateJson.fromSlice presenceJson (presenceBytes 100) =
    some { formatVersion := 1, state := presenceState 100 } from if_pos rfl]
  exact if_neg (not_not.2 rfl)

/-- The core is seen at 100, its heartbeat comes at 120, and another core asks for its peers. -/
def presenceCalls : List ControlCall :=
  [sampleCall 1 120 (.heartbeat
      { identity := sampleCore "core-a", operationMode := .readWrite, sentAtMs := 0 }),
    sampleCall 2 120 (.discoverPeers (sampleCore "core-b"))]

/-- The calls of a run are the ones in the log. -/
theorem calls_of_run [StateJson] {root : Path} {start : Disk} {calls : List ControlCall}
    {s : ControlHistory}
    (h : runFrom (ControlHistory.step root) { disk := start, log := [] } calls = some s) :
    s.log.map ControlEntry.call = calls := by
  induction calls using List.reverseRecOn generalizing s with
  | nil =>
    cases h
    rfl
  | append_singleton calls call ih =>
    obtain ⟨mid, hrun, hstep⟩ := runFrom_concat_eq_some.1 h
    unfold ControlHistory.step at hstep
    split at hstep
    · obtain ⟨outcome, _, rfl⟩ := Option.map_eq_some_iff.1 hstep
      rw [List.map_append, ih hrun]
      rfl
    · cases hstep

theorem presented_of_pairwise [StateJson] {start : Disk} {calls : List ControlCall}
    (hcontrol : ∀ call ∈ calls, call.control = control)
    (hrequest : ∀ call ∈ calls, ∀ source, call.request ≠ .restoreFrom source)
    (horder : (calls.map ControlCall.nowMs).Pairwise (· ≤ ·)) :
    EachStep (ControlHistory.step control.root) (Presented control) { disk := start, log := [] }
      calls := by
  intro before call after s heq hrun
  have hmem : call ∈ calls := heq ▸ List.mem_append_right before List.mem_cons_self
  refine ⟨hcontrol call hmem, fun entry hentry => ?_, hrequest call hmem⟩
  have hbefore : entry.call ∈ before := calls_of_run hrun ▸ List.mem_map_of_mem hentry
  rw [heq, List.map_append] at horder
  exact (List.pairwise_append.1 horder).2.2 _ (List.mem_map_of_mem hbefore) _ List.mem_cons_self

theorem discoverable_sample :
    @EachStep _ _ (@ControlHistory.step presenceJson ["control"])
      (@Discoverable presenceJson sampleControl) { disk := presenceDisk, log := [] }
      presenceCalls := by
  refine @discoverable presenceJson sampleControl presenceDisk presenceCalls ?_ ?_
  · refine @presented_of_pairwise _ presenceJson _ _ ?_ ?_ (by decide)
    · intro call hcall
      rcases List.mem_pair.1 hcall with rfl | rfl <;> rfl
    · intro call hcall source
      rcases List.mem_pair.1 hcall with rfl | rfl <;> exact nofun
  · unfold presenceCalls
    refine eachStep_cons.2 ⟨@Registered.mk presenceJson _ _ _ ?_ ?_, ?_⟩
    · intro request state hrequest hstate
      cases hrequest
      rw [show @FileControlPlane.durable presenceJson sampleControl presenceDisk =
        some (presenceState 100) from durable_presenceDisk, Option.some.injEq] at hstate
      rw [← hstate]
      refine ⟨sampleRegistration 100, ?_, rfl⟩
      have hfound : (presenceState 100).registrations[instanceKey (sampleCore "core-a")]? =
          some (sampleRegistration 100) := (lookup_insert _ _ _ _).trans (if_pos rfl)
      rw [lookup_prune, hfound]
      rfl
    · intro registration hrequest
      cases hrequest
    · intro s hstep
      refine eachStep_cons.2 ⟨@Registered.mk presenceJson _ _ _ ?_ ?_, fun _ _ => eachStep_nil _ _⟩
      · intro request state hrequest
        cases hrequest
      · intro registration hrequest
        cases hrequest

/-- The cores a reply lists. -/
def ControlReply.listed : ControlReply → Option (List CoreIdentity)
  | .peers directory => some (directory.peers.map PeerRecord.identity)
  | _ => none

/-- The heartbeat of a core that is not registered is accepted, and the core is not listed. -/
theorem accepted_and_missing :
    ¬ ∀ (_ : StateJson) (control : FileControlPlane) (start : Disk) (calls : List ControlCall),
      EachStep (ControlHistory.step control.root) (Presented control)
          { disk := start, log := [] } calls →
        EachStep (ControlHistory.step control.root) (Discoverable control)
          { disk := start, log := [] } calls := by
  intro h
  have hdiscoverable := h sampleStateJson sampleControl .empty
    [sampleCall 1 0 .withClock,
      sampleCall 2 100 (.heartbeat
        { identity := sampleCore "core-a", operationMode := .readWrite, sentAtMs := 0 }),
      sampleCall 3 100 (.discoverPeers (sampleCore "core-b"))] ?_
  · have hrun : (@runFrom _ _ (@ControlHistory.step sampleStateJson ["control"])
        { disk := .empty, log := [] }
        [sampleCall 1 0 .withClock,
          sampleCall 2 100 (.heartbeat
            { identity := sampleCore "core-a", operationMode := .readWrite, sentAtMs := 0 })]).map
        (fun s => (s.beats, (@ControlCall.outcome sampleStateJson
          (sampleCall 3 100 (.discoverPeers (sampleCore "core-b"))) s.disk).map fun outcome =>
            outcome.1.bind ControlReply.listed)) = some ([(sampleCore "core-a", 100)], some (some [])) := by
      decide
    obtain ⟨s, hs, hfound⟩ := Option.map_eq_some_iff.1 hrun
    obtain ⟨hbeats, hpeers⟩ := Prod.mk.inj hfound
    obtain ⟨⟨reply, t⟩, houtcome, hreply⟩ := Option.map_eq_some_iff.1 hpeers
    obtain ⟨answer, rfl, hlist⟩ := Option.bind_eq_some_iff.1 hreply
    cases answer with
    | peers directory =>
      have hlisted := hdiscoverable _ _ [] s rfl hs (sampleCore "core-b") directory t rfl houtcome
        (sampleCore "core-a", 100) (hbeats ▸ List.mem_cons_self) rfl rfl (by decide)
        (show 100 ≤ 100 + 1000 by omega)
      obtain ⟨peer, hpeer, -⟩ := hlisted
      rw [List.map_eq_nil_iff.1 (Option.some.inj hlist)] at hpeer
      cases hpeer
    | _ => cases hlist
  · refine @presented_of_pairwise _ sampleStateJson _ _ ?_ ?_ (by decide)
    · intro call hcall
      simp only [List.mem_cons, List.not_mem_nil, or_false] at hcall
      rcases hcall with rfl | rfl | rfl <;> rfl
    · intro call hcall source
      simp only [List.mem_cons, List.not_mem_nil, or_false] at hcall
      rcases hcall with rfl | rfl | rfl <;> intro hnone <;> cases hnone

end AppCore.ControlPlane
