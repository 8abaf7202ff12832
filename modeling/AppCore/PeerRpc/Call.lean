import AppCore.Base.Runs
import AppCore.PeerRpc.Validation
import AppCore.Security.TokenProof

/-!
# Signed peer calls

`client.rs`, `authentication.rs` and `host.rs`: a client signs the hash of an envelope and posts the
envelope to the query path or to the command path; a host authenticates the hash, validates the
envelope and hands it to the dispatcher of the path it came in on.

Any party between them may deliver what was sent to any host, path and time, and as often as it
likes. The path is not among the fields that are hashed, so it is not signed.

* `kindKept_run` — a delivery runs as the kind it was signed for exactly when it comes in on the path
  of that kind or is refused.
-/

namespace AppCore.PeerRpc

open Security (TokenProvider TokenClaims CommandTokenError localAdminSubject)

/-! ## The hash that is signed -/

def hashField (value : String) : Bytes :=
  lenBytes64 (strBytes value).length ++ strBytes value

def hashOptionalField : Option String → Bytes
  | some value => 1 :: hashField value
  | none => [0]

/-- What `envelope_signing_hash` hashes of a trace. -/
def traceSigningBytes : Option TraceContext → Bytes
  | none => [0]
  | some trace =>
    1 :: (hashField trace.traceId ++ hashField trace.spanId ++
      hashOptionalField trace.parentSpanId ++ hashField trace.originatingCoreId.asStr ++
      hashField trace.currentCoreId.asStr ++ hashField trace.tenantId.asStr ++
      hashOptionalField trace.commandId)

/-- What `envelope_signing_hash` hashes. -/
def signingBytes (envelope : PeerRpcEnvelope) : Bytes :=
  hashField envelope.requestId ++ hashField envelope.traceId ++
    toBeBytes16 envelope.protocolVersion.asU16 ++ hashField envelope.sourceCoreId.asStr ++
    hashField envelope.targetCoreId.asStr ++ hashField envelope.tenantId.asStr ++
    hashField envelope.clusterId.asStr ++ toBeBytes64 envelope.timestampMs ++
    toBeBytes64 envelope.expiresAtMs ++ hashField envelope.nonce ++
    hashField envelope.capability.asStr ++ hashField envelope.bodyHash ++
    hashOptionalField envelope.idempotencyKey ++ traceSigningBytes envelope.trace

def envelopeSigningHash [Sha256] (envelope : PeerRpcEnvelope) : String :=
  String.ofList (lowerHex (digest (signingBytes envelope)).toList)

/-! ## Tokens -/

/-- `PeerRpcError` as it comes from a host or a client. -/
inductive PeerCallError where
  | unauthorized
  | forbidden
  | peer (error : PeerRpcError)
  deriving DecidableEq, Repr

def peerAuthError : CommandTokenError → PeerCallError
  | .forbidden => .forbidden
  | .invalidFormat => .unauthorized
  | .unauthorized => .unauthorized

structure HashTokenPeerTokenIssuer where
  provider : TokenProvider
  claims : TokenClaims

def HashTokenPeerTokenIssuer.new (provider : TokenProvider) (claims : TokenClaims) :
    HashTokenPeerTokenIssuer :=
  { provider, claims := { claims with salt := "peer" } }

def HashTokenPeerTokenIssuer.issuePeerToken (issuer : HashTokenPeerTokenIssuer)
    (requestId : String) (requestHash : Option String) (nowMs ttlMs : UInt64) :
    Except PeerCallError String :=
  ((⟨issuer.provider, issuer.claims⟩ : Security.CommandTokenFactory).createV1WithJtiAndHash "peer"
    none (some "*") (some localAdminSubject) nowMs ttlMs (some requestId)
    requestHash).mapError peerAuthError

structure HashTokenPeerAuthenticator where
  provider : TokenProvider
  claims : TokenClaims

def HashTokenPeerAuthenticator.new (provider : TokenProvider) (claims : TokenClaims) :
    HashTokenPeerAuthenticator :=
  { provider, claims := { claims with salt := "peer" } }

/-- The token without the name of the scheme. -/
def stripBearer (token : String) : String :=
  match token.toList.dropPrefix? "Bearer ".toList, token.toList.dropPrefix? "bearer ".toList with
  | some rest, _ => String.ofList rest
  | none, some rest => String.ofList rest
  | none, none => token

def HashTokenPeerAuthenticator.authenticate (authenticator : HashTokenPeerAuthenticator)
    (token expectedRequestHash : Option String) (nowMs : UInt64) : Except PeerCallError Unit :=
  match token with
  | none => .error .unauthorized
  | some token =>
    match (⟨authenticator.provider, authenticator.claims⟩ :
        Security.CommandTokenValidator).validateAndGetClaims (stripBearer token) "peer" none nowMs
          expectedRequestHash with
    | .error e => .error (peerAuthError e)
    | .ok claims =>
      if expectedRequestHash.isSome ∧ claims.requestHash = none then .error .forbidden
      else .ok ()

/-! ## The client -/

/-- `PeerRpcCallKind`, and `PeerRpcKind` of the host. -/
inductive PeerRpcKind where
  | query
  | command
  deriving DecidableEq, Repr

/-- `PEER_QUERY_PATH` and `PEER_COMMAND_PATH`. -/
def PeerRpcKind.path : PeerRpcKind → String
  | query => "/v1/peer/query"
  | command => "/v1/peer/command"

/-- What `serde_json` makes of an envelope, and `gzip_decode_limited`. -/
class PeerHttp where
  envelopeToVec : PeerRpcEnvelope → Except String Bytes
  envelopeFromSlice : Bytes → Except String PeerRpcEnvelope
  gzipDecodeLimited : Bytes → Nat → Except PeerRpcError Bytes

structure PeerRpcOutboundRequest where
  requestId : String
  targetCoreId : CoreId
  capability : CapabilityName
  payload : Bytes
  idempotencyKey : Option String
  trace : Option TraceContext

/-- `PeerRpcClient`: its identity and its token issuer. -/
structure PeerRpcClient where
  coreId : CoreId
  tenantId : TenantId
  clusterId : ClusterId
  protocolVersion : ProtocolVersion
  issuer : HashTokenPeerTokenIssuer
  envelopeTtlMs : UInt64

/-- What a call finds around it: the two times it reads, the process and the nonce counter. -/
structure CallContext where
  builtAtMs : UInt64
  issuedAtMs : UInt64
  processId : Nat
  counter : Nat

def nextOutboundNonce (requestId : String) (context : CallContext) : String :=
  requestId ++ "-" ++ toString context.builtAtMs.toNat ++ "-" ++ toString context.processId ++ "-" ++
    toString context.counter

def buildEnvelope [Sha256] (client : PeerRpcClient) (request : PeerRpcOutboundRequest)
    (context : CallContext) : PeerRpcEnvelope :=
  { PeerRpcEnvelope.new request.requestId
      (match request.trace with
        | some trace => trace.traceId
        | none => request.requestId)
      client.coreId request.targetCoreId client.tenantId client.clusterId context.builtAtMs
      (saturatingAdd context.builtAtMs (max client.envelopeTtlMs 1))
      (nextOutboundNonce request.requestId context) request.capability request.payload
      request.idempotencyKey request.trace with
    protocolVersion := client.protocolVersion }

structure PeerRpcHttpRequest where
  method : String
  path : String
  body : Bytes
  bearerToken : Option String
  deriving DecidableEq

/-- The request that `call_peer_once` hands to the transport. -/
def callPeerOnce [Sha256] [PeerHttp] (client : PeerRpcClient) (kind : PeerRpcKind)
    (request : PeerRpcOutboundRequest) (context : CallContext) :
    Except PeerCallError PeerRpcHttpRequest :=
  let envelope := buildEnvelope client request context
  match client.issuer.issuePeerToken envelope.requestId (some (envelopeSigningHash envelope))
    context.issuedAtMs client.envelopeTtlMs with
  | .error e => .error e
  | .ok token =>
    match PeerHttp.envelopeToVec envelope with
    | .error message => .error (.peer (.invalidEnvelope message))
    | .ok body => .ok { method := "POST", path := kind.path, body, bearerToken := some token }

/-! ## The host -/

/-- The peer endpoint of a core: its authenticator, its validator and the nonces it has seen. -/
structure PeerHost (S : Type) where
  authenticator : HashTokenPeerAuthenticator
  validator : PeerRpcValidator
  nonces : S

/-- A request as it comes in. -/
structure Delivery where
  contentEncoding : Option Bytes
  authorization : Option String
  body : Bytes
  nowMs : UInt64

def maxEnvelopeOverheadBytes : Nat := 64 * 1024

def PeerRpcValidator.maxEnvelopeBytes (validator : PeerRpcValidator) : Nat :=
  validator.config.maxPayloadBytes * 4 + maxEnvelopeOverheadBytes

/-- `eq_ignore_ascii_case` with `gzip`. -/
def isGzip (value : Bytes) : Bool :=
  value.map (fun b => if 0x41 ≤ b ∧ b ≤ 0x5a then b + 0x20 else b) == strBytes "gzip"

section

variable [Sha256] [PeerHttp] {S : Type} [PeerNonceStore S]

/-- The body without its content encoding. -/
def decodeBody (maxBytes : Nat) (delivery : Delivery) : Except PeerRpcError Bytes :=
  match delivery.contentEncoding with
  | none => if delivery.body.length > maxBytes then .error .payloadTooLarge else .ok delivery.body
  | some value =>
    if isGzip value then PeerHttp.gzipDecodeLimited delivery.body maxBytes
    else .error (.invalidEnvelope "unsupported_content_encoding")

def decodePeerEnvelope (host : PeerHost S) (delivery : Delivery) :
    Except PeerRpcError PeerRpcEnvelope :=
  match decodeBody host.validator.maxEnvelopeBytes delivery with
  | .error e => .error e
  | .ok decoded =>
    match PeerHttp.envelopeFromSlice decoded with
    | .error message => .error (.invalidEnvelope message)
    | .ok envelope => .ok envelope

/-- `handle_peer_envelope`, up to the dispatcher: the kind and the envelope that it gets. -/
def handlePeerEnvelope (host : PeerHost S) (delivery : Delivery) (envelope : PeerRpcEnvelope)
    (kind : PeerRpcKind) : Except PeerCallError (PeerRpcKind × PeerRpcEnvelope) × PeerHost S :=
  match host.authenticator.authenticate delivery.authorization (some (envelopeSigningHash envelope))
    delivery.nowMs with
  | .error e => (.error e, host)
  | .ok () =>
    match validate host.validator host.nonces envelope delivery.nowMs with
    | (.error e, nonces) => (.error (.peer e), { host with nonces })
    | (.ok (), nonces) => (.ok (kind, envelope), { host with nonces })

def peerQueryHandler (host : PeerHost S) (delivery : Delivery) :
    Except PeerCallError (PeerRpcKind × PeerRpcEnvelope) × PeerHost S :=
  match decodePeerEnvelope host delivery with
  | .error e => (.error (.peer e), host)
  | .ok envelope => handlePeerEnvelope host delivery envelope .query

def peerCommandHandler (host : PeerHost S) (delivery : Delivery) :
    Except PeerCallError (PeerRpcKind × PeerRpcEnvelope) × PeerHost S :=
  match decodePeerEnvelope host delivery with
  | .error e => (.error (.peer e), host)
  | .ok envelope => handlePeerEnvelope host delivery envelope .command

/-- The handler of the path that a request comes in on. -/
def PeerHost.receive (host : PeerHost S) (endpoint : PeerRpcKind) (delivery : Delivery) :
    Except PeerCallError (PeerRpcKind × PeerRpcEnvelope) × PeerHost S :=
  match endpoint with
  | .query => peerQueryHandler host delivery
  | .command => peerCommandHandler host delivery

/-- A host takes a delivery: it decodes, and its credential and its envelope are good. -/
def PeerHost.Takes (host : PeerHost S) (delivery : Delivery) : Prop :=
  ∃ envelope, decodePeerEnvelope host delivery = .ok envelope ∧
    host.authenticator.authenticate delivery.authorization
      (some (envelopeSigningHash envelope)) delivery.nowMs = .ok () ∧
    (validate host.validator host.nonces envelope delivery.nowMs).1 = .ok ()

/-- **The path decides nothing but the dispatcher**: a delivery is handed over, as the kind of the
path, exactly when the host takes it. -/
theorem receive_eq (host : PeerHost S) (endpoint kind : PeerRpcKind) (delivery : Delivery) :
    (∃ envelope, (host.receive endpoint delivery).1 = .ok (kind, envelope)) ↔
      kind = endpoint ∧ host.Takes delivery := by
  have hhandle : (∃ envelope, (match decodePeerEnvelope host delivery with
      | .error e => (.error (.peer e), host)
      | .ok envelope => handlePeerEnvelope host delivery envelope endpoint :
        Except PeerCallError (PeerRpcKind × PeerRpcEnvelope) × PeerHost S).1 =
          .ok (kind, envelope)) ↔ kind = endpoint ∧ host.Takes delivery := by
    unfold PeerHost.Takes handlePeerEnvelope
    cases decodePeerEnvelope host delivery with
    | error e => simp
    | ok envelope =>
      simp only [Except.ok.injEq, exists_eq_left']
      cases host.authenticator.authenticate delivery.authorization
          (some (envelopeSigningHash envelope)) delivery.nowMs with
      | error e => simp
      | ok _ =>
        dsimp only
        generalize validate host.validator host.nonces envelope delivery.nowMs = answer
        obtain ⟨result, nonces⟩ := answer
        cases result with
        | error e => simp
        | ok _ => simp [eq_comm (a := endpoint)]
  cases endpoint <;> exact hhandle

/-! ## The network -/

/-- The hosts, and what the clients have sent, with the kind it was sent as. -/
structure PeerNetwork (S : Type) where
  hosts : Nat → PeerHost S
  sent : List (PeerRpcKind × PeerRpcHttpRequest)

/-- A call of a client, or a delivery: the token of something that was sent, with its body (which the
transport may have compressed, and anyone may have changed), to an endpoint of a host at some time. -/
inductive NetworkStep where
  | call (client : PeerRpcClient) (kind : PeerRpcKind) (request : PeerRpcOutboundRequest)
      (context : CallContext)
  | deliver (message host : Nat) (endpoint : PeerRpcKind) (contentEncoding : Option Bytes)
      (body : Bytes) (nowMs : UInt64)

/-- What a host receives of a request: the transport puts the token behind the name of its scheme. -/
def PeerRpcHttpRequest.delivery (request : PeerRpcHttpRequest) (contentEncoding : Option Bytes)
    (body : Bytes) (nowMs : UInt64) : Delivery :=
  { contentEncoding
    authorization := request.bearerToken.map fun token => "Bearer " ++ token
    body
    nowMs }

namespace PeerNetwork

def step (network : PeerNetwork S) : NetworkStep → Option (PeerNetwork S)
  | .call client kind request context =>
    match callPeerOnce client kind request context with
    | .error _ => some network
    | .ok http => some { network with sent := network.sent ++ [(kind, http)] }
  | .deliver message host endpoint contentEncoding body nowMs =>
    match network.sent[message]? with
    | none => none
    | some (_, http) =>
      some { network with
        hosts := Function.update network.hosts host
          ((network.hosts host).receive endpoint (http.delivery contentEncoding body nowMs)).2 }

/-- A delivery is handed over only as the kind it was sent as. -/
def KindKept (network : PeerNetwork S) : NetworkStep → Prop
  | .call .. => True
  | .deliver message host endpoint contentEncoding body nowMs =>
    ∀ kind http, network.sent[message]? = some (kind, http) → ∀ handed envelope,
      ((network.hosts host).receive endpoint (http.delivery contentEncoding body nowMs)).1 =
        .ok (handed, envelope) → handed = kind

/-- A delivery comes in on the path of its kind, or the host does not take it. -/
def OwnPath (network : PeerNetwork S) : NetworkStep → Prop
  | .call .. => True
  | .deliver message host endpoint contentEncoding body nowMs =>
    ∀ kind http, network.sent[message]? = some (kind, http) →
      endpoint = kind ∨ ¬ (network.hosts host).Takes (http.delivery contentEncoding body nowMs)

theorem kindKept_iff (network : PeerNetwork S) (step : NetworkStep) :
    network.KindKept step ↔ network.OwnPath step := by
  cases step with
  | call client kind request context => exact Iff.rfl
  | deliver message host endpoint contentEncoding body nowMs =>
    refine forall_congr' fun kind => forall_congr' fun http => imp_congr_right fun _ => ?_
    constructor
    · intro hkept
      by_cases htakes : (network.hosts host).Takes (http.delivery contentEncoding body nowMs)
      · obtain ⟨envelope, hhanded⟩ :=
          (receive_eq (network.hosts host) endpoint endpoint _).2 ⟨rfl, htakes⟩
        exact Or.inl (hkept endpoint envelope hhanded)
      · exact Or.inr htakes
    · intro hown handed envelope hhanded
      obtain ⟨rfl, htakes⟩ := (receive_eq _ _ _ _).1 ⟨envelope, hhanded⟩
      rcases hown with hsame | hrefused
      · exact hsame
      · exact absurd htakes hrefused

/-- **A signed call runs only as its kind** exactly when each delivery comes in on the path of that
kind or is refused: neither the credential nor the envelope says which kind it is. -/
theorem kindKept_run (network : PeerNetwork S) (steps : List NetworkStep) :
    EachStep step KindKept network steps ↔ EachStep step OwnPath network steps := by
  have hpointwise : (KindKept : PeerNetwork S → NetworkStep → Prop) = OwnPath := by
    funext network step
    exact propext (kindKept_iff network step)
  rw [hpointwise]

end PeerNetwork

end

end AppCore.PeerRpc
