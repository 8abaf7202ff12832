import AppCore.Base.Sha256
import AppCore.PeerRpc.Nonce
import AppCore.Types.Ids

/-!
# The peer request validator

`validation.rs`: an envelope is checked for well-formed identifiers, addressee, protocol
version, time window, body hash and trace context, and at the end its nonce is recorded.
-/

namespace AppCore.PeerRpc

structure TraceContext where
  traceId : String
  spanId : String
  parentSpanId : Option String
  originatingCoreId : CoreId
  currentCoreId : CoreId
  tenantId : TenantId
  commandId : Option String
  deriving DecidableEq, Repr

structure PeerRpcEnvelope where
  requestId : String
  traceId : String
  protocolVersion : ProtocolVersion
  sourceCoreId : CoreId
  targetCoreId : CoreId
  tenantId : TenantId
  clusterId : ClusterId
  timestampMs : UInt64
  expiresAtMs : UInt64
  nonce : String
  capability : CapabilityName
  payload : Bytes
  idempotencyKey : Option String
  bodyHash : String
  trace : Option TraceContext
  deriving DecidableEq, Repr

structure PeerRpcValidationConfig where
  localTenantId : TenantId
  localClusterId : ClusterId
  localCoreId : CoreId
  maxPayloadBytes : Nat
  nonceWindowMs : UInt64

/-- `PeerRpcValidator`, without its nonce store. -/
structure PeerRpcValidator where
  config : PeerRpcValidationConfig
  localProtocolVersion : ProtocolVersion

/-- The window the validator works with: never zero. -/
def PeerRpcValidator.windowMs (validator : PeerRpcValidator) : UInt64 :=
  max validator.config.nonceWindowMs 1

def payloadHash [Sha256] (payload : Bytes) : String := String.ofList (lowerHex (digest payload).toList)

/-- `PeerRpcEnvelope::new`: the default protocol version and the digest of the payload. -/
def PeerRpcEnvelope.new [Sha256] (requestId traceId : String) (sourceCoreId targetCoreId : CoreId)
    (tenantId : TenantId) (clusterId : ClusterId) (timestampMs expiresAtMs : UInt64)
    (nonce : String) (capability : CapabilityName) (payload : Bytes)
    (idempotencyKey : Option String) (trace : Option TraceContext) : PeerRpcEnvelope where
  requestId := requestId
  traceId := traceId
  protocolVersion := ⟨1⟩
  sourceCoreId := sourceCoreId
  targetCoreId := targetCoreId
  tenantId := tenantId
  clusterId := clusterId
  timestampMs := timestampMs
  expiresAtMs := expiresAtMs
  nonce := nonce
  capability := capability
  payload := payload
  idempotencyKey := idempotencyKey
  bodyHash := payloadHash payload
  trace := trace

/-- A failed identifier check, as the validator reports it. -/
def identifierCheck (result : RuntimeResult Unit) (reason : String) : PeerRpcResult :=
  match result with
  | .ok () => .ok ()
  | .error _ => .error (.invalidEnvelope reason)

def validateEnvelopeIdentifiers (envelope : PeerRpcEnvelope) : PeerRpcResult := do
  identifierCheck (validateIdentifier "PeerRequestId" envelope.requestId) "invalid_identifier"
  identifierCheck (validateIdentifier "TraceId" envelope.traceId) "invalid_identifier"
  identifierCheck (validateIdentifier "PeerNonce" envelope.nonce) "invalid_identifier"
  match envelope.idempotencyKey with
  | some idempotencyKey =>
    identifierCheck (validateIdentifier "IdempotencyKey" idempotencyKey)
      "invalid_idempotency_key"
  | none => .ok ()
  identifierCheck envelope.sourceCoreId.validate "invalid_identifier"
  identifierCheck envelope.targetCoreId.validate "invalid_identifier"
  identifierCheck envelope.tenantId.validate "invalid_identifier"
  identifierCheck envelope.clusterId.validate "invalid_identifier"
  identifierCheck envelope.capability.validate "invalid_identifier"

/-- Whether the trace context belongs to another request. -/
def traceMismatch (envelope : PeerRpcEnvelope) : Bool :=
  match envelope.trace with
  | none => false
  | some trace =>
    trace.traceId != envelope.traceId || trace.tenantId != envelope.tenantId ||
      trace.currentCoreId != envelope.sourceCoreId

/-- The first checks of `validate`: identifiers, size, addressee and protocol version. -/
def checkRouting (validator : PeerRpcValidator) (envelope : PeerRpcEnvelope) : PeerRpcResult :=
  match validateEnvelopeIdentifiers envelope with
  | .error e => .error e
  | .ok () =>
    if envelope.payload.length > validator.config.maxPayloadBytes then .error .payloadTooLarge
    else if envelope.tenantId ≠ validator.config.localTenantId then .error .tenantMismatch
    else if envelope.clusterId ≠ validator.config.localClusterId then .error .clusterMismatch
    else if envelope.targetCoreId ≠ validator.config.localCoreId then .error .targetMismatch
    else if !validator.localProtocolVersion.isCompatibleWith envelope.protocolVersion then
      .error .protocolMismatch
    else .ok ()

/-- The time window test of `validate`. -/
def checkTime (windowMs : UInt64) (envelope : PeerRpcEnvelope) (nowMs : UInt64) : PeerRpcResult :=
  if envelope.timestampMs ≥ envelope.expiresAtMs ∨ envelope.expiresAtMs ≤ nowMs ∨
      envelope.timestampMs > saturatingAdd nowMs windowMs ∨
      nowMs > saturatingAdd envelope.timestampMs windowMs then .error .expired
  else .ok ()

/-- The last checks of `validate` before the nonce: body hash and trace context. -/
def checkIntegrity [Sha256] (envelope : PeerRpcEnvelope) : PeerRpcResult :=
  if envelope.bodyHash ≠ payloadHash envelope.payload then .error .invalidBodyHash
  else if traceMismatch envelope then .error (.invalidEnvelope "trace_context_mismatch")
  else .ok ()

def validate [Sha256] {S : Type} [PeerNonceStore S] (validator : PeerRpcValidator) (store : S)
    (envelope : PeerRpcEnvelope) (nowMs : UInt64) : PeerRpcResult × S :=
  match checkRouting validator envelope with
  | .error e => (.error e, store)
  | .ok () =>
    match checkTime validator.windowMs envelope nowMs with
    | .error e => (.error e, store)
    | .ok () =>
      match checkIntegrity envelope with
      | .error e => (.error e, store)
      | .ok () =>
        checkAndRecord store envelope.nonce
          (min envelope.expiresAtMs (saturatingAdd nowMs validator.windowMs)) nowMs

/-- A list of calls, one after another, with their results. -/
def validateAll [Sha256] {S : Type} [PeerNonceStore S] (validator : PeerRpcValidator) (store : S) :
    List (PeerRpcEnvelope × UInt64) → List PeerRpcResult
  | [] => []
  | (envelope, nowMs) :: calls =>
    let (result, store) := validate validator store envelope nowMs
    result :: validateAll validator store calls

theorem checkTime_eq_ok {window now : UInt64} {envelope : PeerRpcEnvelope} :
    checkTime window envelope now = .ok () ↔
      envelope.timestampMs < envelope.expiresAtMs ∧ now < envelope.expiresAtMs ∧
        envelope.timestampMs ≤ saturatingAdd now window ∧
        now ≤ saturatingAdd envelope.timestampMs window := by
  unfold checkTime
  split
  · rename_i h
    constructor
    · intro hok
      simp at hok
    · rintro ⟨h1, h2, h3, h4⟩
      rcases h with h | h | h | h
      · exact absurd h1 (UInt64.not_lt.2 h)
      · exact absurd h2 (UInt64.not_lt.2 h)
      · exact absurd h (UInt64.not_lt.2 h3)
      · exact absurd h (UInt64.not_lt.2 h4)
  · rename_i h
    rw [not_or, not_or, not_or] at h
    exact ⟨fun _ => ⟨UInt64.not_le.1 h.1, UInt64.not_le.1 h.2.1, UInt64.not_lt.1 h.2.2.1,
      UInt64.not_lt.1 h.2.2.2⟩, fun _ => rfl⟩

/-- **What a call does**: it fails its checks and leaves the store, or it passes them and ends
in recording the nonce. -/
theorem validate_cases [Sha256] {S : Type} [PeerNonceStore S] (validator : PeerRpcValidator)
    (store : S) (envelope : PeerRpcEnvelope) (now : UInt64) :
    (∃ e, validate validator store envelope now = (.error e, store)) ∨
    (checkRouting validator envelope = .ok () ∧
      checkTime validator.windowMs envelope now = .ok () ∧ checkIntegrity envelope = .ok () ∧
      validate validator store envelope now =
        checkAndRecord store envelope.nonce
          (min envelope.expiresAtMs (saturatingAdd now validator.windowMs)) now) := by
  unfold validate
  cases checkRouting validator envelope with
  | error e => exact Or.inl ⟨e, rfl⟩
  | ok _ =>
    cases checkTime validator.windowMs envelope now with
    | error e => exact Or.inl ⟨e, rfl⟩
    | ok _ =>
      cases checkIntegrity envelope with
      | error e => exact Or.inl ⟨e, rfl⟩
      | ok _ => exact Or.inr ⟨rfl, rfl, rfl, rfl⟩

end AppCore.PeerRpc
