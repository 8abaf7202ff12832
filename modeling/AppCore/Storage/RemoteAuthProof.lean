import AppCore.Base.Cursor
import AppCore.Base.Delimited
import AppCore.Storage.RemoteAuth

/-!
# What the remote auth-storage protocol guarantees

Requests and answers are read back as they were written, and neither is read as the other. A nonce
determines the clock, the process and the counter it was made of (`makeNonce_injective`). Of each
half of the exchange, what its success says is stated once (`begin_eq_ok`, `finish_eq_ok`,
`openRemoteRequest_eq_ok`, `processRemoteRequest_eq_ok`).
-/

namespace AppCore.Storage.Remote

open Json
open Security (TokenClaims SecurityError readTime readTime_num)

/-! ## Documents -/

theorem separated_requestTokens (request : AuthRemoteRequest) :
    Separated (requestTokens request) := by
  have hcomma : isPunct ',' = true := by decide
  have hend : isPunct '}' = true := by decide
  refine ⟨by decide, ?_⟩
  refine separated_memberTokens _ (show Separated [.str _] from trivial) hcomma ?_
  refine separated_memberTokens _ (show Separated [.str _] from trivial) hcomma ?_
  refine separated_memberTokens _ (show Separated [.str _] from trivial) hcomma ?_
  refine separated_memberTokens _ (show Separated [.str _] from trivial) hcomma ?_
  refine separated_memberTokens _ ⟨by simp, trivial⟩ hcomma ?_
  refine separated_memberTokens _ ⟨by simp, trivial⟩ hcomma ?_
  exact separated_memberTokens _ (show Separated [.str _] from trivial) hend trivial

theorem separated_responseTokens (response : AuthRemoteResponse) :
    Separated (responseTokens response) := by
  have hcomma : isPunct ',' = true := by decide
  have hend : isPunct '}' = true := by decide
  refine ⟨by decide, ?_⟩
  refine separated_memberTokens _ (show Separated [.str _] from trivial) hcomma ?_
  refine separated_memberTokens _ (show Separated [.str _] from trivial) hcomma ?_
  refine separated_memberTokens _ (show Separated [.str _] from trivial) hcomma ?_
  refine separated_memberTokens _ ⟨by simp, trivial⟩ hcomma ?_
  exact separated_memberTokens _ (show Separated [.str _] from trivial) hend trivial

theorem readRequest_tokens (request : AuthRemoteRequest) :
    readRequest (requestTokens request) = some request := by
  simp only [readRequest, requestTokens, expect_punct, Option.bind_some]
  rw [readMember_memberTokens (readStr_str _), readMember_memberTokens (readStr_str _),
    readMember_memberTokens (readStr_str _), readMember_memberTokens (readStr_str _),
    readMember_memberTokens (readTime_num _), readMember_memberTokens (readTime_num _),
    readMember_memberTokens (readStr_str _), if_pos rfl]

theorem readResponse_tokens (response : AuthRemoteResponse) :
    readResponse (responseTokens response) = some response := by
  simp only [readResponse, responseTokens, expect_punct, Option.bind_some]
  rw [readMember_memberTokens (readStr_str _), readMember_memberTokens (readStr_str _),
    readMember_memberTokens (readStr_str _), readMember_memberTokens (readTime_num _),
    readMember_memberTokens (readStr_str _), if_pos rfl]

theorem readMember_ne {α β : Type} {name other : String} (h : other.toList ≠ name.toList)
    (value : List Token → Option (α × List Token)) (tokens : List Token) (c d : Char)
    (next : α → List Token → Option β) (rest : List Token) :
    readMember name value c next (memberTokens other tokens d rest) = none := by
  rw [memberTokens, readMember, if_neg h]

theorem readRequest_responseTokens (response : AuthRemoteResponse) :
    readRequest (responseTokens response) = none := by
  simp only [readRequest, responseTokens, expect_punct, Option.bind_some]
  rw [readMember_memberTokens (readStr_str _), readMember_ne (by decide)]

theorem readResponse_requestTokens (request : AuthRemoteRequest) :
    readResponse (requestTokens request) = none := by
  simp only [readResponse, requestTokens, expect_punct, Option.bind_some]
  rw [readMember_memberTokens (readStr_str _), readMember_ne (by decide)]

theorem requestFromSlice_requestToVec (request : AuthRemoteRequest) :
    requestFromSlice (requestToVec request) = some request := by
  rw [requestFromSlice, requestToVec, fromUtf8_utf8, Option.bind_some,
    lexText_tokens (separated_requestTokens request), Option.bind_some, readRequest_tokens]

theorem responseFromSlice_responseToVec (response : AuthRemoteResponse) :
    responseFromSlice (responseToVec response) = some response := by
  rw [responseFromSlice, responseToVec, fromUtf8_utf8, Option.bind_some,
    lexText_tokens (separated_responseTokens response), Option.bind_some, readResponse_tokens]

theorem requestFromSlice_responseToVec (response : AuthRemoteResponse) :
    requestFromSlice (responseToVec response) = none := by
  rw [requestFromSlice, responseToVec, fromUtf8_utf8, Option.bind_some,
    lexText_tokens (separated_responseTokens response), Option.bind_some,
    readRequest_responseTokens]

theorem responseFromSlice_requestToVec (request : AuthRemoteRequest) :
    responseFromSlice (requestToVec request) = none := by
  rw [responseFromSlice, requestToVec, fromUtf8_utf8, Option.bind_some,
    lexText_tokens (separated_requestTokens request), Option.bind_some,
    readResponse_requestTokens]

theorem strBytes_encodeHex (bytes : Bytes) : strBytes (encodeHex bytes) = utf8 (lowerHex bytes) := by
  rw [strBytes, encodeHex, String.toList_ofList]

@[simp] theorem length_strBytes_encodeHex (bytes : Bytes) :
    (strBytes (encodeHex bytes)).length = 2 * bytes.length := by
  rw [strBytes_encodeHex, utf8_of_ascii (isAscii_lowerHex bytes), List.length_map, length_lowerHex]

@[simp] theorem decodeHex_encodeHex (bytes : Bytes) : decodeHex (encodeHex bytes) = some bytes := by
  rw [decodeHex, length_strBytes_encodeHex, Nat.mul_mod_right, if_neg (not_not.2 rfl),
    strBytes_encodeHex, fromHexPairs_utf8_lowerHex]

theorem not_mem_decimal (n : Nat) : '-' ∉ decimal n := by
  intro h
  exact absurd (isDigit_of_mem_decimal h) (by decide)

/-- A nonce determines what it was made of. -/
theorem makeNonce_injective {nowMs nowMs' : UInt64} {process process' : UInt32}
    {counter counter' : UInt64}
    (h : makeNonce nowMs process counter = makeNonce nowMs' process' counter') :
    nowMs = nowMs' ∧ process = process' ∧ counter = counter' := by
  have hsplit := congrArg (splitOnce '-') (String.ofList_injective h)
  rw [splitOnce_append (not_mem_decimal _), splitOnce_append (not_mem_decimal _)] at hsplit
  obtain ⟨hnow, hrest⟩ := Prod.mk.inj (Option.some.inj hsplit)
  have hsplit' := congrArg (splitOnce '-') hrest
  rw [splitOnce_append (not_mem_decimal _), splitOnce_append (not_mem_decimal _)] at hsplit'
  obtain ⟨hprocess, hcounter⟩ := Prod.mk.inj (Option.some.inj hsplit')
  exact ⟨UInt64.toNat_inj.1 (decimal_injective hnow),
    UInt32.toNat_inj.1 (decimal_injective hprocess),
    UInt64.toNat_inj.1 (decimal_injective hcounter)⟩

/-! ## The halves of an exchange -/

theorem check_bind_eq_ok {ε α : Type} {check : Except ε Unit} {rest : Except ε α} {a : α} :
    (check >>= fun _ => rest) = .ok a ↔ check = .ok () ∧ rest = .ok a := by
  rw [bind_eq_ok]
  constructor
  · intro h
    obtain ⟨⟨⟩, hcheck, hrest⟩ := h
    exact ⟨hcheck, hrest⟩
  · intro h
    exact ⟨(), h⟩

theorem unless_eq_ok {ε α : Type} {bad : Prop} [Decidable bad] {e : ε} {rest : Except ε α} {a : α} :
    (if bad then .error e else rest) = .ok a ↔ ¬ bad ∧ rest = .ok a := by
  by_cases h : bad
  · simp [h]
  · simp [h]

theorem makeAuthRequest_eq_ok {resource operation : String} {payload : Bytes} {nowMs : UInt64}
    {process : UInt32} {counter : UInt64} {request : AuthRemoteRequest} :
    makeAuthRequest resource operation payload nowMs process counter = .ok request ↔
      validateResource resource = .ok () ∧ validateOperation operation = .ok () ∧
        request = { schema := authRemoteSchema, resource, operation,
                    nonce := makeNonce nowMs process counter, issuedAtMs := nowMs,
                    expiresAtMs := saturatingAdd nowMs defaultAuthRemoteTtlMs,
                    payloadHex := encodeHex payload } := by
  rw [makeAuthRequest, check_bind_eq_ok, check_bind_eq_ok, Except.ok.injEq, @eq_comm _ request]

section

variable {Seed : Type} {provider : TimedProvider Seed}

variable {token : List Char}

theorem sealDocument_eq_ok {sealMs : UInt64} {seed : Seed} {document : Bytes} {what : String} :
    sealDocument provider sealMs seed document what = .ok token ↔
      provider.sealToken sealMs seed document (transportClaims defaultAuthRemoteTtlMs) =
        .ok (utf8 token) := by
  unfold sealDocument
  cases hseal : provider.sealToken sealMs seed document
      (transportClaims defaultAuthRemoteTtlMs) with
  | error e => simp
  | ok bytes =>
    dsimp only
    cases htext : fromUtf8 bytes with
    | none =>
      simp only [reduceCtorEq, Except.ok.injEq, false_iff]
      intro h
      rw [h, fromUtf8_utf8] at htext
      cases htext
    | some text =>
      simp only [Except.ok.injEq]
      constructor
      · intro h
        rw [← h, utf8_of_fromUtf8 htext]
      · intro h
        rw [h, fromUtf8_utf8] at htext
        exact (Option.some.inj htext).symm

variable {request : AuthRemoteRequest}

theorem openRemoteRequest_eq_ok {openMs nowMs : UInt64} :
    openRemoteRequest token provider openMs nowMs = .ok request ↔
      ∃ bytes, provider.openToken openMs (utf8 token) (transportClaims defaultAuthRemoteTtlMs) =
          .ok bytes ∧ requestFromSlice bytes = some request ∧
        validateRequest request nowMs defaultAuthRemoteMaxBytes = .ok () := by
  unfold openRemoteRequest
  cases hopen : provider.openToken openMs (utf8 token)
      (transportClaims defaultAuthRemoteTtlMs) with
  | error e => simp
  | ok bytes =>
    dsimp only
    cases hread : requestFromSlice bytes with
    | none => simp [hread]
    | some found =>
      simp only [check_bind_eq_ok, Except.ok.injEq, exists_eq_left', hread, Option.some.injEq]
      constructor
      · intro h
        obtain ⟨hvalid, heq⟩ := h
        exact ⟨heq, heq ▸ hvalid⟩
      · intro h
        obtain ⟨heq, hvalid⟩ := h
        exact ⟨heq ▸ hvalid, heq⟩

variable {nonce : String}

theorem openRemoteResponse_eq_ok {openMs nowMs : UInt64} {payload : Bytes} :
    openRemoteResponse token provider nonce openMs nowMs = .ok payload ↔
      ∃ bytes response,
        provider.openToken openMs (utf8 token) (transportClaims defaultAuthRemoteTtlMs) =
          .ok bytes ∧ responseFromSlice bytes = some response ∧
        validateResponse response nonce nowMs = .ok () ∧
        decodeHex response.payloadHex = some payload := by
  unfold openRemoteResponse
  cases hopen : provider.openToken openMs (utf8 token)
      (transportClaims defaultAuthRemoteTtlMs) with
  | error e => simp
  | ok bytes =>
    dsimp only
    cases hread : responseFromSlice bytes with
    | none => simp [hread]
    | some found =>
      simp only [check_bind_eq_ok, Except.ok.injEq, exists_and_left, exists_eq_left', hread,
        Option.some.injEq]
      cases hdecoded : decodeHex found.payloadHex <;> simp

variable {response : AuthRemoteResponse}

theorem processRemoteRequest_eq_ok {dataMs : UInt64} {seed : Seed} :
    processRemoteRequest request provider dataMs seed = .ok response ↔
      ∃ payload bytes, decodeHex request.payloadHex = some payload ∧
        (request.operation = "seal" ∧ provider.sealToken dataMs seed payload dataClaims = .ok bytes ∨
          request.operation = "open" ∧ provider.openToken dataMs payload dataClaims = .ok bytes) ∧
        response = { schema := authRemoteSchema, status := "ok", nonce := request.nonce,
                     expiresAtMs := request.expiresAtMs, payloadHex := encodeHex bytes } := by
  unfold processRemoteRequest
  cases hdecoded : decodeHex request.payloadHex with
  | none => simp
  | some payload =>
    dsimp only
    by_cases hseal : request.operation = "seal"
    · rw [if_pos hseal]
      cases hout : provider.sealToken dataMs seed payload dataClaims <;>
        simp [hseal, hout, eq_comm]
    · rw [if_neg hseal]
      by_cases hopen : request.operation = "open"
      · rw [if_pos hopen]
        cases hout : provider.openToken dataMs payload dataClaims <;>
          simp [hopen, hout, eq_comm]
      · rw [if_neg hopen]
        simp [hseal, hopen]

theorem validateRequest_eq_ok {nowMs : UInt64} {limit : Nat} :
    validateRequest request nowMs limit = .ok () ↔
      (request.schema = authRemoteSchema ∧ nowMs < request.expiresAtMs) ∧
        (request.nonce ≠ "" ∧ request.issuedAtMs < request.expiresAtMs) ∧
        validateResource request.resource = .ok () ∧
        validateOperation request.operation = .ok () ∧
        (strBytes request.payloadHex).length / 2 ≤ limit := by
  rw [validateRequest, unless_eq_ok, unless_eq_ok, check_bind_eq_ok, check_bind_eq_ok, unless_eq_ok]
  simp only [not_or, ne_eq, not_not, UInt64.not_le, ge_iff_le, gt_iff_lt, Nat.not_lt, and_true]

theorem validateResponse_eq_ok {nowMs : UInt64} :
    validateResponse response nonce nowMs = .ok () ↔
      (response.schema = authRemoteSchema ∧ response.status = "ok") ∧ response.nonce = nonce ∧
        nowMs < response.expiresAtMs := by
  rw [validateResponse, unless_eq_ok, unless_eq_ok]
  simp only [not_or, ne_eq, not_not, UInt64.not_le, and_true]

theorem serve_eq_ok {transport data : TimedProvider Seed} {token answer : List Char}
    {serving : Serving Seed} :
    serve transport data token serving = .ok (request, response, answer) ↔
      openRemoteRequest token transport serving.openMs serving.nowMs = .ok request ∧
        processRemoteRequest request data serving.dataMs serving.dataSeed = .ok response ∧
        transport.sealToken serving.sealMs serving.sealSeed (responseToVec response)
          (transportClaims defaultAuthRemoteTtlMs) = .ok (utf8 answer) := by
  simp only [serve, bind_eq_ok, sealRemoteResponse, sealDocument_eq_ok, Except.ok.injEq,
    Prod.mk.injEq]
  constructor
  · intro h
    obtain ⟨opened, hopen, made, hmade, text, hseal, hrequest, hresponse, htext⟩ := h
    rw [← hrequest, ← hresponse, ← htext]
    exact ⟨hopen, hmade, hseal⟩
  · intro h
    exact ⟨request, h.1, response, h.2.1, answer, h.2.2, rfl, rfl, rfl⟩

theorem begin_eq_ok {client : RemoteAuthStorageClient Seed} {resource operation : String}
    {payload : Bytes} {draw : Draw Seed} :
    client.begin resource operation payload draw = .ok (request, token) ↔
      makeAuthRequest resource operation payload draw.nowMs draw.process draw.counter =
          .ok request ∧
        client.provider.sealToken draw.sealMs draw.seed (requestToVec request)
          (transportClaims defaultAuthRemoteTtlMs) = .ok (utf8 token) := by
  simp only [RemoteAuthStorageClient.begin, bind_eq_ok, sealRemoteRequest, sealDocument_eq_ok,
    Except.ok.injEq, Prod.mk.injEq]
  constructor
  · intro h
    obtain ⟨made, hmade, text, hseal, rfl, rfl⟩ := h
    exact ⟨hmade, hseal⟩
  · intro h
    exact ⟨request, h.1, token, h.2, rfl, rfl⟩

theorem finish_eq_ok {client : RemoteAuthStorageClient Seed} {raw out : Bytes}
    {last : RemoteAuthStorageClient.End} :
    client.finish nonce raw last = .ok out ↔
      ∃ token, readHttpResponse raw client.maxResponseBytes = .ok token ∧
        openRemoteResponse token client.provider nonce last.openMs last.nowMs = .ok out :=
  bind_eq_ok

end

/-- A transport for a few documents: a token is the place of its document. -/
def listedTransport (documents : List Bytes) : TimedProvider Unit where
  sealToken _ _ document _ :=
    if document ∈ documents then .ok [(documents.idxOf document).toUInt8] else .error .invalidToken
  openToken
    | _, [place], _ =>
      match documents[place.toNat]? with
      | some document => .ok document
      | none => .error .invalidToken
    | _, _, _ => .error .invalidToken

/-- A data provider that puts a byte in front. -/
def taggedData : TimedProvider Unit where
  sealToken _ _ payload _ := .ok (0 :: payload)
  openToken
    | _, 0 :: payload, _ => .ok payload
    | _, _, _ => .error .invalidToken

end AppCore.Storage.Remote
