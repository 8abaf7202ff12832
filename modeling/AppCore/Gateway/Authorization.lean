import AppCore.Gateway.Tenant
import AppCore.Security.RequestHash

/-!
# What a connection credential binds

`authorization.rs`: the hash that ties a credential to one connection of a worker or of a client. It
is the request hash of a request made up for the purpose. The capabilities of a worker are sorted and
deduplicated before they become the payload, so that a set of names has one encoding.

* `connection_bound` — the hash of a worker determines who it is and the set of its capabilities,
  the hash of a client determines who it is, and no hash is both.
-/

namespace AppCore.Gateway

open Security

structure InstanceId where
  asStr : String
  deriving DecidableEq, Repr

/-! ## Capabilities -/

/-- `sort_unstable`, then `dedup`. -/
def sortDedup (names : List String) : List String :=
  (names.mergeSort fun a b => decide (a ≤ b)).destutter (· ≠ ·)

/-- A name of `encode_capabilities` behind its length. -/
def frameCapability (capability : String) : Bytes :=
  lenBytes64 (strBytes capability).length ++ strBytes capability

def encodeCapabilities (capabilities : List String) : String :=
  String.ofList (lowerHex (capabilities.flatMap frameCapability))

theorem pairwise_mergeSort_le (names : List String) :
    (names.mergeSort fun a b => decide (a ≤ b)).Pairwise (· ≤ ·) :=
  List.pairwise_mergeSort' (· ≤ ·) names

theorem sortDedup_eq (names : List String) :
    sortDedup names = (names.mergeSort fun a b => decide (a ≤ b)).dedup :=
  (pairwise_mergeSort_le names).destutter_eq_dedup

theorem mem_sortDedup {names : List String} {name : String} :
    name ∈ sortDedup names ↔ name ∈ names := by
  rw [sortDedup_eq, List.mem_dedup, List.mem_mergeSort]

/-- **A set of names has one list**, whatever their order and repetition. -/
theorem sortDedup_eq_iff {names names' : List String} :
    sortDedup names = sortDedup names' ↔ ∀ name, name ∈ names ↔ name ∈ names' := by
  constructor
  · intro h name
    rw [← mem_sortDedup, h, mem_sortDedup]
  · intro h
    have hsorted : ∀ names, (sortDedup names).Pairwise (· ≤ ·) := fun names =>
      (pairwise_mergeSort_le names).sublist (List.destutter_sublist _ _)
    have hnodup : ∀ names, (sortDedup names).Nodup := by
      intro names
      rw [sortDedup_eq]
      exact List.nodup_dedup _
    have hperm : (sortDedup names).Perm (sortDedup names') := by
      rw [List.perm_ext_iff_of_nodup (hnodup names) (hnodup names')]
      intro name
      rw [mem_sortDedup, mem_sortDedup]
      exact h name
    exact hperm.eq_of_pairwise' (hsorted names) (hsorted names')

theorem length_strBytes_ofList_lowerHex (bytes : Bytes) :
    (strBytes (String.ofList (lowerHex bytes))).length = 2 * bytes.length := by
  rw [strBytes, String.toList_ofList, utf8_of_ascii (isAscii_lowerHex bytes), List.length_map,
    length_lowerHex]

theorem textFits_of_encodeCapabilities {capabilities : List String}
    (h : TextFits (encodeCapabilities capabilities)) : ∀ name ∈ capabilities, TextFits name := by
  intro name hname
  unfold TextFits encodeCapabilities at h
  rw [length_strBytes_ofList_lowerHex] at h
  have hle : (frameCapability name).length ≤ (capabilities.flatMap frameCapability).length :=
    (List.sublist_flatten_of_mem (List.mem_map_of_mem hname)).length_le
  have hframe : (strBytes name).length ≤ (frameCapability name).length := by
    rw [frameCapability, List.length_append]
    exact Nat.le_add_left _ _
  unfold TextFits
  omega

theorem frameCapability_ne_nil (name : String) : frameCapability name ≠ [] := by
  intro h
  have hlength := congrArg List.length h
  simp [frameCapability, lenBytes64] at hlength

theorem encodeCapabilities_injective {names names' : List String}
    (hfits : TextFits (encodeCapabilities names)) (hfits' : TextFits (encodeCapabilities names'))
    (h : encodeCapabilities names = encodeCapabilities names') : names = names' :=
  delimited_lengthedText.flatMap_injective frameCapability_ne_nil
    (textFits_of_encodeCapabilities hfits) (textFits_of_encodeCapabilities hfits')
    (lowerHex_injective (String.ofList_injective h))

/-! ## Connections -/

/-- The request that `connection_hash` makes up and hashes. -/
def connectionDetails (name tenantId : String) (identity : Option String) (payload : String)
    (subject audience : Option String) : RequestValidationDetails :=
  { purpose := "peer", name, id := tenantId, idempotencyKey := identity, payload, subject, audience }

/-- Who a worker says it is, and what it serves: the arguments of `worker_connection_hash`. -/
structure WorkerIdentity where
  tenantId : TenantId
  clusterId : ClusterId
  installationId : InstallationId
  coreId : CoreId
  capabilities : List CapabilityName

/-- Who a client says it is: the arguments of `client_connection_hash`. -/
structure ClientIdentity where
  tenantId : TenantId
  clusterId : ClusterId
  deviceId : InstanceId

/-- The request that `worker_connection_hash` hashes. -/
def WorkerIdentity.details (worker : WorkerIdentity) : RequestValidationDetails :=
  connectionDetails "gateway.worker.v2" worker.tenantId.asStr (some worker.installationId.asStr)
    (encodeCapabilities (sortDedup (worker.capabilities.map CapabilityName.asStr)))
    (some worker.coreId.asStr) (some worker.clusterId.asStr)

/-- The request that `client_connection_hash` hashes. -/
def ClientIdentity.details (client : ClientIdentity) : RequestValidationDetails :=
  connectionDetails "gateway.client.v2" client.tenantId.asStr (some client.deviceId.asStr) "" none
    (some client.clusterId.asStr)

section

variable [Sha256]

def workerConnectionHash (worker : WorkerIdentity) : String := computeRequestHash worker.details

def clientConnectionHash (client : ClientIdentity) : String := computeRequestHash client.details

/-- What is hashed of two requests is not a collision. -/
def NoCollision (a b : RequestValidationDetails) : Prop :=
  digest (requestHashInput a) = digest (requestHashInput b) →
    requestHashInput a = requestHashInput b

theorem eq_of_computeRequestHash {a b : RequestValidationDetails} (ha : a.Sized) (hb : b.Sized)
    (hfree : NoCollision a b) (h : computeRequestHash a = computeRequestHash b) : a = b := by
  unfold computeRequestHash at h
  have hhex := String.ofList_injective (String.append_right_inj _ |>.1 h)
  exact requestHashInput_injective ha hb (hfree (Vector.toList_inj.1 (lowerHex_injective hhex)))

end

/-- The request of a worker tells who it is and the set of what it serves. -/
theorem WorkerIdentity.details_eq_iff {a b : WorkerIdentity} (ha : a.details.Sized)
    (hb : b.details.Sized) : a.details = b.details ↔
      a.tenantId = b.tenantId ∧ a.clusterId = b.clusterId ∧ a.installationId = b.installationId ∧
        a.coreId = b.coreId ∧ ∀ name, name ∈ a.capabilities ↔ name ∈ b.capabilities := by
  have hnames : ∀ (names : List CapabilityName) (name : CapabilityName),
      name.asStr ∈ names.map CapabilityName.asStr ↔ name ∈ names := by
    intro names name
    refine List.mem_map_of_injective ?_
    intro x y hxy
    obtain ⟨x⟩ := x
    obtain ⟨y⟩ := y
    exact congrArg CapabilityName.mk hxy
  constructor
  · intro h
    have hpayload := sortDedup_eq_iff.1 (encodeCapabilities_injective ha.payload hb.payload
      (congrArg RequestValidationDetails.payload h))
    obtain ⟨⟨tenantId⟩, ⟨clusterId⟩, ⟨installationId⟩, ⟨coreId⟩, capabilities⟩ := a
    obtain ⟨⟨tenantId'⟩, ⟨clusterId'⟩, ⟨installationId'⟩, ⟨coreId'⟩, capabilities'⟩ := b
    simp only [details, connectionDetails, RequestValidationDetails.mk.injEq, Option.some.injEq,
      true_and] at h
    obtain ⟨rfl, rfl, -, rfl, rfl⟩ := h
    refine ⟨rfl, rfl, rfl, rfl, fun name => ?_⟩
    rw [← hnames capabilities, ← hnames capabilities']
    exact hpayload name.asStr
  · intro h
    obtain ⟨htenant, hcluster, hinstallation, hcore, hcapabilities⟩ := h
    have hsorted : sortDedup (a.capabilities.map CapabilityName.asStr) =
        sortDedup (b.capabilities.map CapabilityName.asStr) := by
      rw [sortDedup_eq_iff]
      intro name
      have hname := hcapabilities ⟨name⟩
      rw [← hnames a.capabilities, ← hnames b.capabilities] at hname
      exact hname
    rw [details, details, htenant, hcluster, hinstallation, hcore, hsorted]

theorem ClientIdentity.details_injective {a b : ClientIdentity} (h : a.details = b.details) :
    a = b := by
  obtain ⟨⟨tenantId⟩, ⟨clusterId⟩, ⟨deviceId⟩⟩ := a
  obtain ⟨⟨tenantId'⟩, ⟨clusterId'⟩, ⟨deviceId'⟩⟩ := b
  simp only [details, connectionDetails, RequestValidationDetails.mk.injEq, Option.some.injEq,
    true_and] at h
  obtain ⟨rfl, rfl, rfl⟩ := h
  rfl

theorem WorkerIdentity.details_ne_client (worker : WorkerIdentity) (client : ClientIdentity) :
    worker.details ≠ client.details := by
  intro h
  have hname : "gateway.worker.v2" = "gateway.client.v2" :=
    congrArg RequestValidationDetails.name h
  exact absurd hname (by decide)

/-- **A connection credential binds one identity**, as long as what is hashed is no collision: a
worker with the set of its capabilities, or a client, and never one as the other. -/
theorem connection_bound [Sha256] :
    (∀ a b : WorkerIdentity, a.details.Sized → b.details.Sized → NoCollision a.details b.details →
      (workerConnectionHash a = workerConnectionHash b ↔
        a.tenantId = b.tenantId ∧ a.clusterId = b.clusterId ∧
          a.installationId = b.installationId ∧ a.coreId = b.coreId ∧
          ∀ name, name ∈ a.capabilities ↔ name ∈ b.capabilities)) ∧
    (∀ (worker : WorkerIdentity) (client : ClientIdentity), worker.details.Sized →
      client.details.Sized → NoCollision worker.details client.details →
      workerConnectionHash worker ≠ clientConnectionHash client) ∧
    ∀ a b : ClientIdentity, a.details.Sized → b.details.Sized → NoCollision a.details b.details →
      clientConnectionHash a = clientConnectionHash b → a = b := by
  refine ⟨?_, ?_, ?_⟩
  · intro a b ha hb hfree
    rw [← WorkerIdentity.details_eq_iff ha hb]
    constructor
    · exact eq_of_computeRequestHash ha hb hfree
    · intro h
      rw [workerConnectionHash, workerConnectionHash, h]
  · intro worker client hworker hclient hfree h
    exact worker.details_ne_client client (eq_of_computeRequestHash hworker hclient hfree h)
  · intro a b ha hb hfree h
    exact ClientIdentity.details_injective (eq_of_computeRequestHash ha hb hfree h)

/-- A worker with the capabilities as it announces them. -/
def announcingWorker (capabilities : List String) : WorkerIdentity :=
  { tenantId := ⟨"tenant-a"⟩, clusterId := ⟨"cluster-a"⟩, installationId := ⟨"installation-a"⟩,
    coreId := ⟨"core-a"⟩, capabilities := capabilities.map CapabilityName.mk }

theorem sized_announcingWorker {capabilities : List String}
    (h : (capabilities.flatMap frameCapability).length < 2 ^ 63) :
    (announcingWorker capabilities).details.Sized where
  purpose := show TextFits "peer" by decide
  name := show TextFits "gateway.worker.v2" by decide
  id := show TextFits "tenant-a" by decide
  idempotencyKey := by
    intro key hkey
    obtain rfl := Option.some.inj hkey
    exact show TextFits "installation-a" by decide
  payload := by
    have hnames : (announcingWorker capabilities).capabilities.map CapabilityName.asStr = capabilities := by
      rw [announcingWorker, List.map_map]
      exact List.map_id _
    have hle : ((sortDedup capabilities).flatMap frameCapability).length ≤
        (capabilities.flatMap frameCapability).length :=
      calc ((sortDedup capabilities).flatMap frameCapability).length
          ≤ ((capabilities.mergeSort fun a b => decide (a ≤ b)).flatMap frameCapability).length :=
            ((List.destutter_sublist _ _).flatMap frameCapability).length_le
        _ = (capabilities.flatMap frameCapability).length :=
            ((List.mergeSort_perm _ _).flatMap_right frameCapability).length_eq
    change TextFits (encodeCapabilities
      (sortDedup ((announcingWorker capabilities).capabilities.map CapabilityName.asStr)))
    rw [hnames]
    unfold TextFits encodeCapabilities
    rw [length_strBytes_ofList_lowerHex]
    omega
  subject := by
    intro subject hsubject
    obtain rfl := Option.some.inj hsubject
    exact show TextFits "core-a" by decide
  audience := by
    intro audience haudience
    obtain rfl := Option.some.inj haudience
    exact show TextFits "cluster-a" by decide

theorem connection_bound_sample :
    @workerConnectionHash Sha256.fips (announcingWorker ["b", "a", "a"]) =
      @workerConnectionHash Sha256.fips (announcingWorker ["a", "b"]) := by
  have hfirst : (announcingWorker ["b", "a", "a"]).details.Sized := sized_announcingWorker (by decide)
  have hsecond : (announcingWorker ["a", "b"]).details.Sized := sized_announcingWorker (by decide)
  have hsame : ∀ name, name ∈ (announcingWorker ["b", "a", "a"]).capabilities ↔
      name ∈ (announcingWorker ["a", "b"]).capabilities := by
    intro name
    simp [announcingWorker]
    tauto
  have hdetails := (WorkerIdentity.details_eq_iff hfirst hsecond).2 ⟨rfl, rfl, rfl, rfl, hsame⟩
  refine ((@connection_bound Sha256.fips).1 _ _ hfirst hsecond ?_).2 ⟨rfl, rfl, rfl, rfl, hsame⟩
  intro _
  rw [hdetails]

end AppCore.Gateway
