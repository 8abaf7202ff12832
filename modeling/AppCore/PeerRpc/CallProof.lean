import AppCore.PeerRpc.Call

/-!
# A query that runs as a command

A host authenticates what a client of the same keys has signed (`authenticate_issued`), whatever the
path it comes in on. A signed query that is delivered to the command path of the peer it is meant for
is therefore handed over as a command.
-/

namespace AppCore.PeerRpc

open Security (TokenProvider TokenClaims FactoryCall)

theorem stripBearer_scheme (token : String) : stripBearer ("Bearer " ++ token) = token := by
  have hdrop : ("Bearer ".toList ++ token.toList).dropPrefix? "Bearer ".toList =
      some token.toList := List.dropPrefix?_append_of_beq _ (by simp)
  unfold stripBearer
  rw [String.toList_append, hdrop]
  simp

/-- The call that issues the token of a peer. -/
def peerTokenCall (requestId hash : String) (issuedAtMs ttlMs : UInt64) : FactoryCall :=
  .createV1WithJtiAndHash "peer" none (some "*") (some Security.localAdminSubject) issuedAtMs ttlMs
    (some requestId) (some hash)

/-- **A token that was issued for a hash authenticates it** while the token lives, at a host with
the same claims whose provider verifies what the one of the issuer has signed. -/
theorem authenticate_issued {issuer : HashTokenPeerTokenIssuer}
    {authenticator : HashTokenPeerAuthenticator} {requestId hash token : String}
    {issuedAtMs ttlMs nowMs : UInt64} (hclaims : authenticator.claims = issuer.claims)
    (hverify : ∀ payload signature, issuer.provider.sign payload issuer.claims = .ok signature →
      signature ≠ [] ∧ authenticator.provider.verify payload signature issuer.claims = .ok ())
    (hissue : issuer.issuePeerToken requestId (some hash) issuedAtMs ttlMs = .ok token)
    (hlive : nowMs < Security.saturatingAdd issuedAtMs ttlMs) :
    authenticator.authenticate (some ("Bearer " ++ token)) (some hash) nowMs = .ok () := by
  have hrun : (peerTokenCall requestId hash issuedAtMs ttlMs).run
      ⟨issuer.provider, issuer.claims⟩ = .ok token := by
    have hissued := hissue
    unfold HashTokenPeerTokenIssuer.issuePeerToken at hissued
    show (Security.CommandTokenFactory.createV1WithJtiAndHash _ _ _ _ _ _ _ _ _) = _
    cases hcreate : (⟨issuer.provider, issuer.claims⟩ :
        Security.CommandTokenFactory).createV1WithJtiAndHash "peer" none (some "*")
          (some Security.localAdminSubject) issuedAtMs ttlMs (some requestId) (some hash) with
    | error e =>
      simp [hcreate, Except.mapError] at hissued
    | ok made =>
      simp [hcreate, Except.mapError] at hissued
      rw [hissued]
  obtain ⟨signature, ⟨-, -, hrules, hsign⟩, rfl⟩ := Security.run_ok
    (show (⟨⟨issuer.provider, issuer.claims⟩, peerTokenCall requestId hash issuedAtMs ttlMs⟩ :
      Security.Issued).call.run _ = _ from hrun)
  obtain ⟨hsignature, hverified⟩ := hverify _ _ hsign
  have hgrants : Security.Grants (peerTokenCall requestId hash issuedAtMs ttlMs) "peer" none nowMs
      (some hash) :=
    ⟨rfl, hlive, Or.inl rfl, fun hash' h => by cases h; rfl⟩
  have hchecked := (Security.checkClaims_ok "peer" none nowMs (some hash) hrules _).2
    ⟨rfl, hgrants⟩
  unfold HashTokenPeerAuthenticator.authenticate Security.CommandTokenValidator.validateAndGetClaims
  simp only [stripBearer_scheme, hclaims,
    Security.parseV1Token_formatToken (Security.claimsToVec_ne_nil _) hsignature, hverified,
    Security.claimsFromSlice_claimsToVec, hchecked]
  rfl

/-! ## The delivery -/

/-- A provider that verifies what it signs, and nothing else. -/
def VerifiesOwn (provider : TokenProvider) : Prop :=
  ∀ payload signature claims, provider.verify payload signature claims = .ok () →
    provider.sign payload claims = .ok signature

/-- Envelopes that are read back as they were written. -/
def LosslessEnvelopes [PeerHttp] : Prop :=
  ∀ envelope bytes, PeerHttp.envelopeToVec envelope = .ok bytes →
    PeerHttp.envelopeFromSlice bytes = .ok envelope

/-- No two envelopes of the calls of a run have one hash for different fields. -/
def NoCollision [Sha256] (steps : List NetworkStep) : Prop :=
  ∀ client kind request context client' kind' request' context',
    .call client kind request context ∈ steps → .call client' kind' request' context' ∈ steps →
    envelopeSigningHash (buildEnvelope client request context) =
        envelopeSigningHash (buildEnvelope client' request' context') →
      signingBytes (buildEnvelope client request context) =
        signingBytes (buildEnvelope client' request' context')

/-- A provider whose signature is what it signs, after a byte. -/
def echoProvider : TokenProvider where
  sealToken payload _ := .ok payload
  openToken token _ := .ok token
  sign payload _ := .ok (1 :: payload)
  verify payload signature _ :=
    if signature = 1 :: payload then .ok () else .error .verificationFailed

def echoClaims : TokenClaims := { issuer := "runtime", audience := "peer", salt := "s", ttlMs := 0 }

/-- A client of `core-a`. -/
def sampleClient : PeerRpcClient where
  coreId := ⟨"core-a"⟩
  tenantId := ⟨"tenant"⟩
  clusterId := ⟨"cluster"⟩
  protocolVersion := ⟨1⟩
  issuer := .new echoProvider echoClaims
  envelopeTtlMs := 5000

/-- A request to `core-b`. -/
def sampleRequest : PeerRpcOutboundRequest where
  requestId := "request"
  targetCoreId := ⟨"core-b"⟩
  capability := ⟨"orders"⟩
  payload := []
  idempotencyKey := none
  trace := none

def sampleContext : CallContext :=
  { builtAtMs := 1000, issuedAtMs := 1000, processId := 7, counter := 0 }

/-- The JSON text of the one envelope that is sent. -/
def sampleEnvelopeText (envelope : PeerRpcEnvelope) : List Json.Token :=
  .punct '{' ::
    Json.memberTokens "request_id" [.str envelope.requestId.toList] ','
    (Json.memberTokens "trace_id" [.str envelope.traceId.toList] ','
    (Json.memberTokens "protocol_version" [.num envelope.protocolVersion.asU16.toNat] ','
    (Json.memberTokens "source_core_id" [.str envelope.sourceCoreId.asStr.toList] ','
    (Json.memberTokens "target_core_id" [.str envelope.targetCoreId.asStr.toList] ','
    (Json.memberTokens "tenant_id" [.str envelope.tenantId.asStr.toList] ','
    (Json.memberTokens "cluster_id" [.str envelope.clusterId.asStr.toList] ','
    (Json.memberTokens "timestamp_ms" [.num envelope.timestampMs.toNat] ','
    (Json.memberTokens "expires_at_ms" [.num envelope.expiresAtMs.toNat] ','
    (Json.memberTokens "nonce" [.str envelope.nonce.toList] ','
    (Json.memberTokens "capability" [.str envelope.capability.asStr.toList] ','
    (Json.memberTokens "payload" [.punct '[', .punct ']'] ','
    (Json.memberTokens "idempotency_key" [.null] ','
    (Json.memberTokens "body_hash" [.str envelope.bodyHash.toList] ','
    (Json.memberTokens "trace" [.null] '}' []))))))))))))))

/-- The JSON of an envelope without payload, idempotency key and trace, and of no other. -/
@[reducible] def samplePeerHttp [Sha256] : PeerHttp where
  envelopeToVec envelope :=
    if envelope = buildEnvelope sampleClient sampleRequest sampleContext then
      .ok (utf8 ((sampleEnvelopeText envelope).flatMap Json.Token.text))
    else .error "unsupported envelope"
  envelopeFromSlice bytes :=
    if bytes = utf8 ((sampleEnvelopeText
        (buildEnvelope sampleClient sampleRequest sampleContext)).flatMap Json.Token.text) then
      .ok (buildEnvelope sampleClient sampleRequest sampleContext)
    else .error "unsupported text"
  gzipDecodeLimited _ _ := .error (.invalidEnvelope "gzip")

/-- The host of `core-b`. -/
def sampleHost : PeerHost InMemoryPeerNonceStore where
  authenticator := .new echoProvider echoClaims
  validator :=
    { config :=
        { localTenantId := ⟨"tenant"⟩, localClusterId := ⟨"cluster"⟩, localCoreId := ⟨"core-b"⟩
          maxPayloadBytes := 1024, nonceWindowMs := 5000 }
      localProtocolVersion := ⟨1⟩ }
  nonces := { seen := ∅, order := [] }

theorem verifiesOwn_echo : VerifiesOwn echoProvider := by
  intro payload signature claims h
  simp only [echoProvider] at h ⊢
  split at h
  next heq => rw [heq]
  next => cases h

theorem losslessEnvelopes_sample [Sha256] : @LosslessEnvelopes samplePeerHttp := by
  intro envelope bytes h
  simp only [PeerHttp.envelopeToVec] at h
  split at h
  next heq =>
    cases h
    simp only [PeerHttp.envelopeFromSlice, heq, if_pos]
  next => cases h

/-- The text of the envelope that is sent. -/
def sampleBody [Sha256] : Bytes :=
  utf8 ((sampleEnvelopeText (buildEnvelope sampleClient sampleRequest sampleContext)).flatMap
    Json.Token.text)

/-- The hosts before the call: every one is the same. -/
def sampleNetwork : PeerNetwork InMemoryPeerNonceStore := { hosts := fun _ => sampleHost, sent := [] }

theorem callPeerOnce_sample [Sha256] : ∃ token,
    @callPeerOnce _ samplePeerHttp sampleClient .query sampleRequest sampleContext =
      .ok { method := "POST", path := "/v1/peer/query", body := sampleBody,
            bearerToken := some token } ∧
    sampleClient.issuer.issuePeerToken "request"
      (some (envelopeSigningHash (buildEnvelope sampleClient sampleRequest sampleContext))) 1000
      5000 = .ok token := by
  refine ⟨_, ?_, rfl⟩
  have htext : samplePeerHttp.envelopeToVec (buildEnvelope sampleClient sampleRequest
      sampleContext) = .ok sampleBody := if_pos rfl
  unfold callPeerOnce
  simp only [htext]
  rfl

/-- The host of `core-b` takes what was sent. -/
theorem takes_sample {token : String} (htoken :
    let _ := Sha256.fips
    sampleClient.issuer.issuePeerToken "request"
      (some (envelopeSigningHash (buildEnvelope sampleClient sampleRequest sampleContext))) 1000
      5000 = .ok token) :
    @PeerHost.Takes Sha256.fips (@samplePeerHttp Sha256.fips) _ _ sampleHost
      { contentEncoding := none, authorization := some ("Bearer " ++ token)
        body := @sampleBody Sha256.fips, nowMs := 1001 } := by
  let _ := Sha256.fips
  let _ := samplePeerHttp
  have hvalid : (validate sampleHost.validator sampleHost.nonces
      (buildEnvelope sampleClient sampleRequest sampleContext) 1001).1 = .ok () := by decide +kernel
  refine ⟨buildEnvelope sampleClient sampleRequest sampleContext, ?_, ?_, hvalid⟩
  · have hlength : ¬ sampleBody.length > sampleHost.validator.maxEnvelopeBytes := by decide +kernel
    have htext : samplePeerHttp.envelopeFromSlice sampleBody =
        .ok (buildEnvelope sampleClient sampleRequest sampleContext) := if_pos rfl
    unfold decodePeerEnvelope decodeBody
    simp only [if_neg hlength, htext]
  · have hlive : (1001 : UInt64) < Security.saturatingAdd 1000 5000 := by decide
    refine authenticate_issued (rfl : sampleHost.authenticator.claims = sampleClient.issuer.claims) ?_ htoken hlive
    intro payload signature hsign
    cases hsign
    exact ⟨List.cons_ne_nil _ _, if_pos rfl⟩

/-- **A signed query runs as a command** when it is delivered to the command path. -/
theorem query_runs_as_command :
    ¬ ∀ [Sha256] [PeerHttp] (network : PeerNetwork InMemoryPeerNonceStore)
      (steps : List NetworkStep), network.sent = [] → LosslessEnvelopes → NoCollision steps →
      (∀ host, VerifiesOwn (network.hosts host).authenticator.provider) →
      EachStep PeerNetwork.step PeerNetwork.KindKept network steps := by
  intro hclaim
  let _ := Sha256.fips
  let _ := samplePeerHttp
  obtain ⟨token, hcall, htoken⟩ := callPeerOnce_sample
  have hkept := hclaim sampleNetwork [.call sampleClient .query sampleRequest sampleContext,
    .deliver 0 0 .command none sampleBody 1001] rfl losslessEnvelopes_sample ?_
      (fun _ => verifiesOwn_echo)
  · rw [eachStep_cons] at hkept
    have hsent : sampleNetwork.step (.call sampleClient .query sampleRequest sampleContext) =
        some { sampleNetwork with sent := [(.query, { method := "POST", path := "/v1/peer/query",
                                                      body := sampleBody,
                                                      bearerToken := some token })] } := by
      unfold PeerNetwork.step
      simp only [hcall]
      rfl
    have hdelivered := (eachStep_cons.1 (hkept.2 _ hsent)).1
    obtain ⟨envelope, hhanded⟩ := (receive_eq sampleHost .command .command _).2
      ⟨rfl, takes_sample htoken⟩
    cases hdelivered .query _ rfl _ envelope hhanded
  · intro client kind request context client' kind' request' context' hin hin' _
    simp only [List.mem_cons, NetworkStep.call.injEq, reduceCtorEq, List.not_mem_nil, or_false]
      at hin hin'
    obtain ⟨rfl, rfl, rfl, rfl⟩ := hin
    obtain ⟨rfl, rfl, rfl, rfl⟩ := hin'
    rfl

end AppCore.PeerRpc
