import AppCore.Base.Delimited
import AppCore.PeerRpc.CallProof

/-!
# Envelopes: what is signed, and what a client puts into one

`envelope_signing_hash` hashes the fields of an envelope one after another: a text behind its length,
an optional one behind a tag, a number in a fixed width, and the payload through its own hash. The
client makes the nonce of an envelope out of the request id, and the host takes a nonce only as an
identifier.

* `eq_of_signingHash` — envelopes with one signing hash are the same.
* `validateEnvelopeIdentifiers_buildEnvelope` — the host takes the identifiers of an envelope exactly
  when the nonce is not too long.
-/

namespace AppCore.PeerRpc

/-! ## What the hash binds -/

/-- The length of a text fits into a `u64`. -/
def FitsLength (text : String) : Prop := (strBytes text).length < 2 ^ 64

/-- Every text of a trace has a length. -/
structure TraceContext.Sized (trace : TraceContext) : Prop where
  traceId : FitsLength trace.traceId
  spanId : FitsLength trace.spanId
  parentSpanId : ∀ id ∈ trace.parentSpanId, FitsLength id
  originatingCoreId : FitsLength trace.originatingCoreId.asStr
  currentCoreId : FitsLength trace.currentCoreId.asStr
  tenantId : FitsLength trace.tenantId.asStr
  commandId : ∀ id ∈ trace.commandId, FitsLength id

/-- Every text of an envelope has a length, as every `String` does. -/
structure PeerRpcEnvelope.Sized (envelope : PeerRpcEnvelope) : Prop where
  requestId : FitsLength envelope.requestId
  traceId : FitsLength envelope.traceId
  sourceCoreId : FitsLength envelope.sourceCoreId.asStr
  targetCoreId : FitsLength envelope.targetCoreId.asStr
  tenantId : FitsLength envelope.tenantId.asStr
  clusterId : FitsLength envelope.clusterId.asStr
  nonce : FitsLength envelope.nonce
  capability : FitsLength envelope.capability.asStr
  idempotencyKey : ∀ key ∈ envelope.idempotencyKey, FitsLength key
  bodyHash : FitsLength envelope.bodyHash
  trace : ∀ trace ∈ envelope.trace, trace.Sized

theorem delimited_hashField : Delimited FitsLength hashField :=
  (delimited_lengthed 8).comp strBytes_injective

theorem delimited_toBeBytes16 : Delimited (fun _ => True) toBeBytes16 := by
  intro a b _ _ r s h
  obtain ⟨heq, hrest⟩ := delimited_beBytes 2 a.toNat_lt b.toNat_lt r s h
  exact ⟨UInt16.toNat_inj.1 heq, hrest⟩

theorem hashOptionalField_eq : hashOptionalField = optionalBytes hashField := by
  funext value
  cases value <;> rfl

theorem delimited_hashOptionalField :
    Delimited (fun value : Option String => ∀ text ∈ value, FitsLength text) hashOptionalField := by
  rw [hashOptionalField_eq]
  exact delimited_optionalBytes delimited_hashField

/-- What is hashed of a trace that is there. -/
def traceFields (trace : TraceContext) : Bytes :=
  hashField trace.traceId ++ (hashField trace.spanId ++ (hashOptionalField trace.parentSpanId ++
    (hashField trace.originatingCoreId.asStr ++ (hashField trace.currentCoreId.asStr ++
      (hashField trace.tenantId.asStr ++ hashOptionalField trace.commandId)))))

theorem traceSigningBytes_eq : traceSigningBytes = optionalBytes traceFields := by
  funext trace
  cases trace with
  | none => rfl
  | some trace => simp only [traceSigningBytes, optionalBytes, traceFields, List.append_assoc]

theorem delimited_traceFields : Delimited TraceContext.Sized traceFields := by
  intro a b ha hb r s h
  obtain ⟨traceId, spanId, parentSpanId, ⟨originatingCoreId⟩, ⟨currentCoreId⟩, ⟨tenantId⟩,
    commandId⟩ := a
  obtain ⟨traceId', spanId', parentSpanId', ⟨originatingCoreId'⟩, ⟨currentCoreId'⟩, ⟨tenantId'⟩,
    commandId'⟩ := b
  simp only [traceFields, List.append_assoc] at h
  obtain ⟨rfl, hspan⟩ := delimited_hashField ha.traceId hb.traceId _ _ h
  obtain ⟨rfl, hparent⟩ := delimited_hashField ha.spanId hb.spanId _ _ hspan
  obtain ⟨rfl, horigin⟩ :=
    delimited_hashOptionalField ha.parentSpanId hb.parentSpanId _ _ hparent
  obtain ⟨rfl, hcurrent⟩ :=
    delimited_hashField ha.originatingCoreId hb.originatingCoreId _ _ horigin
  obtain ⟨rfl, htenant⟩ := delimited_hashField ha.currentCoreId hb.currentCoreId _ _ hcurrent
  obtain ⟨rfl, hcommand⟩ := delimited_hashField ha.tenantId hb.tenantId _ _ htenant
  obtain ⟨rfl, hrest⟩ := delimited_hashOptionalField ha.commandId hb.commandId _ _ hcommand
  exact ⟨rfl, hrest⟩

theorem delimited_traceSigningBytes :
    Delimited (fun value : Option TraceContext => ∀ trace ∈ value, trace.Sized) traceSigningBytes := by
  rw [traceSigningBytes_eq]
  exact delimited_optionalBytes delimited_traceFields

/-- What is hashed determines every field but the payload, for which its hash stands. -/
theorem fields_of_signingBytes {a b : PeerRpcEnvelope} (ha : a.Sized) (hb : b.Sized)
    (h : signingBytes a = signingBytes b) : a = { b with payload := a.payload } := by
  obtain ⟨requestId, traceId, ⟨version⟩, ⟨sourceCoreId⟩, ⟨targetCoreId⟩, ⟨tenantId⟩, ⟨clusterId⟩,
    timestampMs, expiresAtMs, nonce, ⟨capability⟩, payload, idempotencyKey, bodyHash, trace⟩ := a
  obtain ⟨requestId', traceId', ⟨version'⟩, ⟨sourceCoreId'⟩, ⟨targetCoreId'⟩, ⟨tenantId'⟩,
    ⟨clusterId'⟩, timestampMs', expiresAtMs', nonce', ⟨capability'⟩, payload', idempotencyKey',
    bodyHash', trace'⟩ := b
  simp only [signingBytes, List.append_assoc] at h
  obtain ⟨rfl, htrace⟩ := delimited_hashField ha.requestId hb.requestId _ _ h
  obtain ⟨rfl, hversion⟩ := delimited_hashField ha.traceId hb.traceId _ _ htrace
  obtain ⟨rfl, hsource⟩ := delimited_toBeBytes16 trivial trivial _ _ hversion
  obtain ⟨rfl, htarget⟩ := delimited_hashField ha.sourceCoreId hb.sourceCoreId _ _ hsource
  obtain ⟨rfl, htenant⟩ := delimited_hashField ha.targetCoreId hb.targetCoreId _ _ htarget
  obtain ⟨rfl, hcluster⟩ := delimited_hashField ha.tenantId hb.tenantId _ _ htenant
  obtain ⟨rfl, htimestamp⟩ := delimited_hashField ha.clusterId hb.clusterId _ _ hcluster
  obtain ⟨rfl, hexpires⟩ := delimited_toBeBytes64 trivial trivial _ _ htimestamp
  obtain ⟨rfl, hnonce⟩ := delimited_toBeBytes64 trivial trivial _ _ hexpires
  obtain ⟨rfl, hcapability⟩ := delimited_hashField ha.nonce hb.nonce _ _ hnonce
  obtain ⟨rfl, hbody⟩ := delimited_hashField ha.capability hb.capability _ _ hcapability
  obtain ⟨rfl, hkey⟩ := delimited_hashField ha.bodyHash hb.bodyHash _ _ hbody
  obtain ⟨rfl, hcontext⟩ :=
    delimited_hashOptionalField ha.idempotencyKey hb.idempotencyKey _ _ hkey
  obtain rfl := delimited_traceSigningBytes.injective ha.trace hb.trace hcontext
  rfl

section

variable [Sha256]

theorem digest_of_lowerHex {a b : Bytes}
    (h : String.ofList (lowerHex (digest a).toList) = String.ofList (lowerHex (digest b).toList)) :
    digest a = digest b :=
  Vector.toList_inj.1 (lowerHex_injective (String.ofList_injective h))

/-- Neither what is hashed of two envelopes nor their payloads are a collision. -/
structure CollisionFree (a b : PeerRpcEnvelope) : Prop where
  signed : digest (signingBytes a) = digest (signingBytes b) → signingBytes a = signingBytes b
  payload : digest a.payload = digest b.payload → a.payload = b.payload

/-- **The signing hash binds the whole envelope**: envelopes that carry the hash of their payload and
have one signing hash are the same. -/
theorem eq_of_signingHash {a b : PeerRpcEnvelope} (ha : a.Sized) (hb : b.Sized)
    (hbodyA : a.bodyHash = payloadHash a.payload) (hbodyB : b.bodyHash = payloadHash b.payload)
    (hfree : CollisionFree a b) (h : envelopeSigningHash a = envelopeSigningHash b) : a = b := by
  have hfields := fields_of_signingBytes ha hb (hfree.signed (digest_of_lowerHex h))
  have hbody : a.bodyHash = b.bodyHash := by rw [hfields]
  have hpayload : a.payload = b.payload := by
    apply hfree.payload
    apply digest_of_lowerHex
    rw [hbodyA, hbodyB] at hbody
    exact hbody
  rw [hfields, hpayload]

/-- A request with a key and a trace. -/
def tracedRequest : PeerRpcOutboundRequest :=
  { sampleRequest with
    idempotencyKey := some "key"
    trace := some {
      traceId := "trace"
      spanId := "span"
      parentSpanId := none
      originatingCoreId := ⟨"core-c"⟩
      currentCoreId := ⟨"core-a"⟩
      tenantId := ⟨"tenant"⟩
      commandId := some "command" } }

/-- The envelope of `tracedRequest`, field by field. -/
def tracedEnvelope : PeerRpcEnvelope where
  requestId := "request"
  traceId := "trace"
  protocolVersion := ⟨1⟩
  sourceCoreId := ⟨"core-a"⟩
  targetCoreId := ⟨"core-b"⟩
  tenantId := ⟨"tenant"⟩
  clusterId := ⟨"cluster"⟩
  timestampMs := 1000
  expiresAtMs := 6000
  nonce := "request-1000-7-0"
  capability := ⟨"orders"⟩
  payload := []
  idempotencyKey := some "key"
  bodyHash := payloadHash []
  trace := tracedRequest.trace

theorem fitsLength_payloadHash (payload : Bytes) : FitsLength (payloadHash payload) := by
  unfold FitsLength payloadHash strBytes
  rw [String.toList_ofList, utf8_of_ascii (isAscii_lowerHex _), List.length_map, length_lowerHex,
    Vector.length_toList]
  decide

end

theorem sized_tracedEnvelope [Sha256] : tracedEnvelope.Sized := by
  refine ⟨?_, ?_, ?_, ?_, ?_, ?_, ?_, ?_, ?_, fitsLength_payloadHash [], ?_⟩
  case refine_9 =>
    intro key hkey
    cases hkey
    unfold FitsLength
    decide
  case refine_10 =>
    intro trace htrace
    cases htrace
    constructor <;> unfold FitsLength <;> decide
  all_goals
    unfold FitsLength
    dsimp only [tracedEnvelope]
    decide

/-- What a client builds has the signing hash of its fields. -/
theorem buildEnvelope_tracedRequest :
    @buildEnvelope Sha256.fips sampleClient tracedRequest sampleContext =
      @tracedEnvelope Sha256.fips := by
  let _ := Sha256.fips
  have hbuilt : buildEnvelope sampleClient tracedRequest sampleContext = tracedEnvelope := by rfl
  refine eq_of_signingHash ?_ sized_tracedEnvelope rfl rfl ⟨?_, fun _ => rfl⟩ ?_
  · rw [hbuilt]
    exact sized_tracedEnvelope
  · rw [hbuilt]
    exact fun _ => rfl
  · rw [hbuilt]

theorem identifierCheck_eq_ok {result : RuntimeResult Unit} {reason : String} :
    identifierCheck result reason = .ok () ↔ result = .ok () := by
  cases result <;> simp [identifierCheck]

/-- The ids of an envelope that have a type of their own are valid. -/
structure PeerRpcEnvelope.ValidIds (envelope : PeerRpcEnvelope) : Prop where
  sourceCoreId : envelope.sourceCoreId.validate = .ok ()
  targetCoreId : envelope.targetCoreId.validate = .ok ()
  tenantId : envelope.tenantId.validate = .ok ()
  clusterId : envelope.clusterId.validate = .ok ()
  capability : envelope.capability.validate = .ok ()

theorem andThen_eq_ok {α ε : Type} {x : Except ε Unit} {y : Except ε α} {a : α} :
    (x >>= fun _ => y) = .ok a ↔ x = .ok () ∧ y = .ok a := by
  cases x with
  | error e => simp [bind, Except.bind]
  | ok u => simp [bind, Except.bind]

theorem validateEnvelopeIdentifiers_eq_ok {envelope : PeerRpcEnvelope} :
    validateEnvelopeIdentifiers envelope = .ok () ↔
      validateIdentifier "PeerRequestId" envelope.requestId = .ok () ∧
      validateIdentifier "TraceId" envelope.traceId = .ok () ∧
      validateIdentifier "PeerNonce" envelope.nonce = .ok () ∧
      (∀ key ∈ envelope.idempotencyKey, validateIdentifier "IdempotencyKey" key = .ok ()) ∧
      envelope.ValidIds := by
  have hids : envelope.ValidIds ↔ envelope.sourceCoreId.validate = .ok () ∧
      envelope.targetCoreId.validate = .ok () ∧ envelope.tenantId.validate = .ok () ∧
      envelope.clusterId.validate = .ok () ∧ envelope.capability.validate = .ok () :=
    ⟨fun h => ⟨h.1, h.2, h.3, h.4, h.5⟩, fun h => ⟨h.1, h.2.1, h.2.2.1, h.2.2.2.1, h.2.2.2.2⟩⟩
  unfold validateEnvelopeIdentifiers
  rw [hids]
  cases envelope.idempotencyKey with
  | none => simp [andThen_eq_ok, identifierCheck_eq_ok]
  | some key => simp [andThen_eq_ok, identifierCheck_eq_ok]

/-! ## The nonce -/

/-- What a nonce has behind the request id. -/
def nonceTail (context : CallContext) : List Char :=
  '-' :: (decimal context.builtAtMs.toNat ++ '-' :: (decimal context.processId ++
    '-' :: decimal context.counter))

theorem toList_nextOutboundNonce (requestId : String) (context : CallContext) :
    (nextOutboundNonce requestId context).toList = requestId.toList ++ nonceTail context := by
  simp [nextOutboundNonce, nonceTail, decimal, Nat.toList_repr]

theorem strBytes_nextOutboundNonce (requestId : String) (context : CallContext) :
    strBytes (nextOutboundNonce requestId context) =
      strBytes requestId ++ utf8 (nonceTail context) := by
  rw [strBytes, toList_nextOutboundNonce, utf8, List.flatMap_append]
  rfl

theorem mem_nonceTail {context : CallContext} {c : Char} (h : c ∈ nonceTail context) :
    c = '-' ∨ c.isDigit = true := by
  simp only [nonceTail, List.mem_cons, List.mem_append] at h
  rcases h with h | h | h | h | h | h
  · exact .inl h
  · exact .inr (isDigit_of_mem_decimal h)
  · exact .inl h
  · exact .inr (isDigit_of_mem_decimal h)
  · exact .inl h
  · exact .inr (isDigit_of_mem_decimal h)

theorem utf8_nonceTail (context : CallContext) :
    utf8 (nonceTail context) = (nonceTail context).map fun c => UInt8.ofNat c.toNat := by
  apply utf8_of_ascii
  intro c hc
  rcases mem_nonceTail hc with rfl | hdigit
  · decide
  · exact toNat_lt_of_isDigit hdigit

theorem length_nextOutboundNonce (requestId : String) (context : CallContext) :
    (strBytes (nextOutboundNonce requestId context)).length =
      (strBytes requestId).length + (decimal context.builtAtMs.toNat).length +
        (decimal context.processId).length + (decimal context.counter).length + 3 := by
  rw [strBytes_nextOutboundNonce, List.length_append, utf8_nonceTail, List.length_map]
  simp only [nonceTail, List.length_cons, List.length_append]
  omega

theorem isIdentifierByte_of_isDigit {c : Char} (h : c.isDigit = true) :
    isIdentifierByte (UInt8.ofNat c.toNat) = true := by
  have hlt := toNat_lt_of_isDigit h
  have hdigit : 48 ≤ c.toNat ∧ c.toNat ≤ 57 := by
    simpa [Char.isDigit, UInt32.le_iff_toNat_le] using h
  have hbyte : (UInt8.ofNat c.toNat).toNat = c.toNat :=
    UInt8.toNat_ofNat_of_lt' (hlt.trans (by decide))
  have hrange : isAsciiDigitByte (UInt8.ofNat c.toNat) = true := by
    simp only [isAsciiDigitByte, Bool.and_eq_true, decide_eq_true_eq, UInt8.le_iff_toNat_le, hbyte,
      UInt8.reduceToNat]
    exact hdigit
  simp [isIdentifierByte, isAsciiAlphanumericByte, hrange]

/-- The nonce of a valid request id is an identifier exactly when it is not too long. -/
theorem validateIdentifier_nextOutboundNonce (kind : String) {kind' requestId : String}
    (context : CallContext) (h : validateIdentifier kind' requestId = .ok ()) :
    validateIdentifier kind (nextOutboundNonce requestId context) = .ok () ↔
      (strBytes (nextOutboundNonce requestId context)).length ≤ maxIdentifierLen := by
  obtain ⟨hne, -, hdots, hbytes⟩ := validateIdentifier_eq_ok.1 h
  rw [validateIdentifier_eq_ok]
  refine ⟨fun hnonce => hnonce.2.1, fun hlength => ⟨?_, hlength, ?_, ?_⟩⟩
  · rw [toList_nextOutboundNonce]
    simp [hne]
  · rw [toList_nextOutboundNonce]
    apply containsDotDot_append hdots
    intro hdot
    rcases mem_nonceTail hdot with hdash | hdigit
    · cases hdash
    · cases hdigit
  · intro b hb
    rw [strBytes_nextOutboundNonce, List.mem_append, utf8_nonceTail, List.mem_map] at hb
    rcases hb with hb | ⟨c, hc, rfl⟩
    · exact hbytes b hb
    · rcases mem_nonceTail hc with rfl | hdigit
      · decide
      · exact isIdentifierByte_of_isDigit hdigit

/-- The envelopes that a client builds have valid ids: its own, and those of the request. -/
structure ValidCall (client : PeerRpcClient) (request : PeerRpcOutboundRequest) : Prop where
  coreId : client.coreId.validate = .ok ()
  targetCoreId : request.targetCoreId.validate = .ok ()
  tenantId : client.tenantId.validate = .ok ()
  clusterId : client.clusterId.validate = .ok ()
  capability : request.capability.validate = .ok ()

theorem validIds_buildEnvelope [Sha256] (client : PeerRpcClient) (request : PeerRpcOutboundRequest)
    (context : CallContext) :
    (buildEnvelope client request context).ValidIds ↔ ValidCall client request :=
  ⟨fun h => ⟨h.1, h.2, h.3, h.4, h.5⟩, fun h => ⟨h.1, h.2, h.3, h.4, h.5⟩⟩

/-- **The host takes the identifiers of an envelope** that a client built for a request with valid
identifiers exactly when the request id leaves room in the nonce for the three numbers. -/
theorem validateEnvelopeIdentifiers_buildEnvelope [Sha256] (client : PeerRpcClient)
    (request : PeerRpcOutboundRequest) (context : CallContext)
    (hrequest : validateIdentifier "PeerRequestId" request.requestId = .ok ())
    (htrace : ∀ trace ∈ request.trace, validateIdentifier "TraceId" trace.traceId = .ok ())
    (hkey : ∀ key ∈ request.idempotencyKey, validateIdentifier "IdempotencyKey" key = .ok ()) :
    validateEnvelopeIdentifiers (buildEnvelope client request context) = .ok () ↔
      (strBytes request.requestId).length + (decimal context.builtAtMs.toNat).length +
        (decimal context.processId).length + (decimal context.counter).length + 3 ≤
          maxIdentifierLen ∧ ValidCall client request := by
  have htraceId : validateIdentifier "TraceId" (buildEnvelope client request context).traceId =
      .ok () := by
    unfold buildEnvelope PeerRpcEnvelope.new
    cases hcontext : request.trace with
    | none => exact validateIdentifier_eq_ok.2 (validateIdentifier_eq_ok.1 hrequest)
    | some trace => exact htrace trace hcontext
  have hnonce := validateIdentifier_nextOutboundNonce "PeerNonce" context hrequest
  rw [validateEnvelopeIdentifiers_eq_ok, validIds_buildEnvelope, ← length_nextOutboundNonce, ← hnonce]
  constructor
  · intro h
    exact ⟨h.2.2.1, h.2.2.2.2⟩
  · intro h
    exact ⟨hrequest, htraceId, h.1, hkey, h.2⟩

/-- The request id of a call leaves room in the nonce. -/
theorem validateEnvelopeIdentifiers_tracedRequest :
    validateEnvelopeIdentifiers (@buildEnvelope Sha256.fips sampleClient tracedRequest sampleContext) =
      .ok () := by
  let _ := Sha256.fips
  refine (validateEnvelopeIdentifiers_buildEnvelope _ _ _ ?_ ?_ ?_).2 ⟨?_, ?_⟩
  · decide
  · intro trace htrace
    cases htrace
    decide
  · intro key hkey
    cases hkey
    decide
  · decide
  · constructor <;> decide

/-- A request id of the full length is valid, and no nonce that is made of it is. -/
theorem full_requestId_refused :
    ¬ ∀ (_ : Sha256) (client : PeerRpcClient) (request : PeerRpcOutboundRequest)
      (context : CallContext), ValidCall client request →
      validateIdentifier "PeerRequestId" request.requestId = .ok () →
      (∀ trace ∈ request.trace, validateIdentifier "TraceId" trace.traceId = .ok ()) →
      (∀ key ∈ request.idempotencyKey, validateIdentifier "IdempotencyKey" key = .ok ()) →
      validateEnvelopeIdentifiers (buildEnvelope client request context) = .ok () := by
  intro hclaim
  have hbytes : strBytes (String.ofList (List.replicate 128 'a')) = List.replicate 128 0x61 := by
    rw [strBytes, String.toList_ofList, utf8_of_ascii, List.map_replicate]
    · rfl
    · intro c hc
      rw [List.eq_of_mem_replicate hc]
      decide
  have hvalid : validateIdentifier "PeerRequestId" (String.ofList (List.replicate 128 'a')) =
      .ok () := by
    rw [validateIdentifier_eq_ok, hbytes, String.toList_ofList, List.length_replicate]
    refine ⟨by simp, le_rfl, containsDotDot_of_not_mem (by simp), ?_⟩
    intro b hb
    rw [List.eq_of_mem_replicate hb]
    decide
  have htaken := hclaim Sha256.fips sampleClient
    { sampleRequest with requestId := String.ofList (List.replicate 128 'a') } sampleContext
    (by constructor <;> decide) hvalid (by simp [sampleRequest]) (by simp [sampleRequest])
  have hnonce := (validateEnvelopeIdentifiers_eq_ok.1 htaken).2.2.1
  have hlength := (validateIdentifier_ok hnonce).2.1
  dsimp only [buildEnvelope, PeerRpcEnvelope.new] at hlength
  rw [length_nextOutboundNonce, hbytes, List.length_replicate, maxIdentifierLen] at hlength
  omega

end AppCore.PeerRpc
