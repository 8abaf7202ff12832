import AppCore.Storage.RemoteAuthProof

/-!
# A call that the service answers

The service of the tests behind a network that carries its answers unchanged, or carries nothing.

* `call_eq_ok` — with a provider that opens what it sealed, a call returns exactly what the data
  provider made of its payload, when the exchange goes through.
-/

namespace AppCore.Storage.Remote

open Json

variable {Seed : Type}

/-! ## The network -/

/-- How a call goes: what it draws, whether the service is reached, what the service does with its
request and when the answer is opened. -/
structure Exchange (Seed : Type) where
  draw : Draw Seed
  reachable : Bool
  serving : Serving Seed
  last : RemoteAuthStorageClient.End

/-- The status line of a response with an answer. -/
def statusOk : List Char := "HTTP/1.1 200 OK".toList

/-- The name of the header of a response. -/
def lengthName : List Char := "Content-Length: ".toList

/-- The header line of a response. -/
def contentLength (body : List Char) : List Char := lengthName ++ decimal (utf8 body).length

/-- `write_test_response`, with the token of an answer. -/
def httpOk (answer : List Char) : List Char :=
  statusOk ++ '\r' :: '\n' :: (contentLength answer ++ '\r' :: '\n' :: '\r' :: '\n' :: answer)

/-- `write_test_response`. -/
def httpResponse : RemoteResult (AuthRemoteRequest × AuthRemoteResponse × List Char) → List Char
  | .ok (_, _, answer) => httpOk answer
  | .error _ => "HTTP/1.1 401 Unauthorized\r\nContent-Length: 0\r\n\r\n".toList

/-- What comes back for a token. -/
def network (transport data : TimedProvider Seed) (exchange : Exchange Seed) (token : List Char) :
    RemoteResult Bytes :=
  if exchange.reachable then
    .ok (utf8 (httpResponse (serve transport data token exchange.serving)))
  else .error (.authUnavailable "auth-server")

theorem splitHead_append {l : List Char} (h : '\r' ∉ l) (rest : List Char) :
    splitHead (l ++ rest) = (splitHead rest).map fun (head, body) => (l ++ head, body) := by
  induction l with
  | nil => simp
  | cons c l ih =>
    rw [List.mem_cons, not_or] at h
    have hstep : splitHead (c :: (l ++ rest)) =
        (splitHead (l ++ rest)).map fun (head, body) => (c :: head, body) := by
      rw [splitHead]
      intro body heq _
      exact h.1 heq.symm
    rw [List.cons_append, hstep, ih h.2, Option.map_map]
    rfl

/-- A head of two lines. -/
theorem splitHead_lines {first : List Char} (hfirst : '\r' ∉ first) {c : Char} {second : List Char}
    (hsecond : '\r' ∉ c :: second) (body : List Char) :
    splitHead (first ++ '\r' :: '\n' :: (c :: second ++ '\r' :: '\n' :: '\r' :: '\n' :: body)) =
      some (first ++ '\r' :: '\n' :: c :: second, body) := by
  have hbody : splitHead ('\n' :: (c :: second ++ '\r' :: '\n' :: '\r' :: '\n' :: body)) =
      some ('\n' :: c :: second, body) := by
    have hline : '\r' ∉ '\n' :: c :: second := by
      rw [List.mem_cons, not_or]
      exact ⟨by decide, hsecond⟩
    have hend : splitHead ('\r' :: '\n' :: '\r' :: '\n' :: body) = some ([], body) := by rw [splitHead]
    rw [← List.cons_append, splitHead_append hline, hend, Option.map_some]
    dsimp only
    rw [List.append_nil]
  have hreturn : splitHead ('\r' :: '\n' :: (c :: second ++ '\r' :: '\n' :: '\r' :: '\n' :: body)) =
      some ('\r' :: '\n' :: c :: second, body) := by
    -- the line break is not the blank line: `c` follows it
    rw [List.cons_append, splitHead, ← List.cons_append, hbody, Option.map_some]
    intro rest _ heq
    rw [List.cons.injEq, List.cons.injEq] at heq
    rw [heq.2.1] at hsecond
    exact hsecond List.mem_cons_self
  rw [splitHead_append hfirst, hreturn, Option.map_some]

theorem not_mem_contentLength (body : List Char) : '\r' ∉ contentLength body := by
  intro h
  obtain hname | hdigits := List.mem_append.1 h
  · exact absurd hname (by decide)
  · exact absurd (isDigit_of_mem_decimal hdigits) (by decide)

theorem splitHead_httpOk (answer : List Char) :
    splitHead (httpOk answer) = some (statusOk ++ '\r' :: '\n' :: contentLength answer, answer) :=
  splitHead_lines (by decide) (not_mem_contentLength answer) answer

theorem httpStatus_ok (rest : List Char) : httpStatus (statusOk ++ '\r' :: '\n' :: rest) = .ok 200 := by
  have hline : lines (statusOk ++ '\r' :: '\n' :: rest) = statusOk :: lines rest := by
    have hshape : statusOk ++ '\r' :: '\n' :: rest = (statusOk ++ ['\r']) ++ '\n' :: rest := by simp
    rw [lines, hshape, splitInclusive_line (by decide), List.map_cons]
    rfl
  rw [httpStatus, hline, List.head?_cons]
  rfl

theorem parseHttpResponse_httpOk (answer : List Char) :
    parseHttpResponse (httpOk answer) = .ok answer := by
  rw [parseHttpResponse, splitHead_httpOk]
  dsimp only
  rw [httpStatus_ok, ok_bind, if_pos (by decide)]

theorem parseHttpResponse_refused (e : RemoteError) :
    parseHttpResponse (httpResponse (.error e)) = .error (.securityFailed "auth status 401") := by
  rfl

/-- A provider that opens what it sealed, and nothing else out of it. What has no lifetime is opened
at any time. -/
structure Exact (provider : TimedProvider Seed) : Prop where
  same : ∀ sealMs seed payload claims token openMs out,
    provider.sealToken sealMs seed payload claims = .ok token →
      provider.openToken openMs token claims = .ok out → out = payload
  unexpiring : ∀ sealMs seed payload claims token openMs,
    provider.sealToken sealMs seed payload claims = .ok token → claims.ttlMs = 0 →
      ∃ out, provider.openToken openMs token claims = .ok out

/-- The request of a call. -/
def asked (resource operation : String) (payload : Bytes) (draw : Draw Seed) : AuthRemoteRequest :=
  ⟨authRemoteSchema, resource, operation, makeNonce draw.nowMs draw.process draw.counter, draw.nowMs,
    saturatingAdd draw.nowMs defaultAuthRemoteTtlMs, encodeHex payload⟩

def answered (draw : Draw Seed) (out : Bytes) : AuthRemoteResponse :=
  ⟨authRemoteSchema, "ok", makeNonce draw.nowMs draw.process draw.counter,
    saturatingAdd draw.nowMs defaultAuthRemoteTtlMs, encodeHex out⟩

/-- A document is sealed for the transport, and the other side opens the token. -/
def Carried (transport : TimedProvider Seed) (sealMs : UInt64) (seed : Seed) (document : Bytes)
    (openMs : UInt64) (token : List Char) : Prop :=
  transport.sealToken sealMs seed document (transportClaims defaultAuthRemoteTtlMs) =
      .ok (utf8 token) ∧
    ∃ out, transport.openToken openMs (utf8 token) (transportClaims defaultAuthRemoteTtlMs) = .ok out

/-- The exchange of a call is timely when its answer holds `out`: the service is reached, and both
documents are carried before they expire. -/
structure Timely (client : RemoteAuthStorageClient Seed) (resource operation : String)
    (payload out : Bytes) (exchange : Exchange Seed) : Prop where
  reachable : exchange.reachable = true
  request : ∃ token, Carried client.provider exchange.draw.sealMs exchange.draw.seed
    (requestToVec (asked resource operation payload exchange.draw)) exchange.serving.openMs token
  began : exchange.draw.nowMs < saturatingAdd exchange.draw.nowMs defaultAuthRemoteTtlMs
  served : exchange.serving.nowMs < saturatingAdd exchange.draw.nowMs defaultAuthRemoteTtlMs
  answer : ∃ token, Carried client.provider exchange.serving.sealMs exchange.serving.sealSeed
    (responseToVec (answered exchange.draw out)) exchange.last.openMs token
  ended : exchange.last.nowMs < saturatingAdd exchange.draw.nowMs defaultAuthRemoteTtlMs

/-- It goes through when neither document is too large, either. -/
structure GoesThrough (client : RemoteAuthStorageClient Seed) (resource operation : String)
    (payload out : Bytes) (exchange : Exchange Seed) : Prop
    extends Timely client resource operation payload out exchange where
  small : payload.length ≤ defaultAuthRemoteMaxBytes
  fits : ∀ token, client.provider.sealToken exchange.serving.sealMs exchange.serving.sealSeed
      (responseToVec (answered exchange.draw out)) (transportClaims defaultAuthRemoteTtlMs) =
        .ok (utf8 token) → (utf8 (httpOk token)).length ≤ client.maxResponseBytes

def Makes (data : TimedProvider Seed) (operation : String) (payload : Bytes)
    (serving : Serving Seed) (out : Bytes) : Prop :=
  operation = "seal" ∧ data.sealToken serving.dataMs serving.dataSeed payload dataClaims = .ok out ∨
    operation = "open" ∧ data.openToken serving.dataMs payload dataClaims = .ok out

theorem makeNonce_ne_empty (nowMs : UInt64) (process : UInt32) (counter : UInt64) :
    makeNonce nowMs process counter ≠ "" := by
  intro h
  have hlist := congrArg String.toList h
  rw [makeNonce, String.toList_ofList] at hlist
  exact List.append_ne_nil_of_left_ne_nil (decimal_ne_nil _) _ hlist

/-- A request is valid when it has not expired and is not too large. -/
theorem validateRequest_asked {resource operation : String} {payload : Bytes} {draw : Draw Seed}
    {nowMs : UInt64} :
    validateRequest (asked resource operation payload draw) nowMs defaultAuthRemoteMaxBytes = .ok () ↔
      nowMs < saturatingAdd draw.nowMs defaultAuthRemoteTtlMs ∧
        draw.nowMs < saturatingAdd draw.nowMs defaultAuthRemoteTtlMs ∧
        validateResource resource = .ok () ∧ validateOperation operation = .ok () ∧
        payload.length ≤ defaultAuthRemoteMaxBytes := by
  have hsize : (strBytes (encodeHex payload)).length / 2 = payload.length := by simp
  have hnonce : makeNonce draw.nowMs draw.process draw.counter ≠ "" := makeNonce_ne_empty _ _ _
  rw [validateRequest_eq_ok]
  dsimp only [asked]
  rw [hsize]
  constructor
  · intro h
    obtain ⟨⟨-, hnow⟩, ⟨-, hbegan⟩, hrest⟩ := h
    exact ⟨hnow, hbegan, hrest⟩
  · intro h
    obtain ⟨hnow, hbegan, hrest⟩ := h
    exact ⟨⟨rfl, hnow⟩, ⟨hnonce, hbegan⟩, hrest⟩

/-- The service processes a request and answers it. -/
theorem processRemoteRequest_asked {data : TimedProvider Seed} {resource operation : String}
    {payload : Bytes} {draw : Draw Seed} {serving : Serving Seed} {response : AuthRemoteResponse} :
    processRemoteRequest (asked resource operation payload draw) data serving.dataMs
        serving.dataSeed = .ok response ↔
      ∃ out, Makes data operation payload serving out ∧ response = answered draw out := by
  rw [processRemoteRequest_eq_ok]
  dsimp only [asked, answered, Makes]
  rw [decodeHex_encodeHex]
  constructor
  · intro h
    obtain ⟨decoded, out, hdecoded, hmade, hresponse⟩ := h
    obtain rfl := Option.some.inj hdecoded
    exact ⟨out, hmade, hresponse⟩
  · intro h
    obtain ⟨out, hmade, hresponse⟩ := h
    exact ⟨payload, out, rfl, hmade, hresponse⟩

theorem httpResponse_ok (request : AuthRemoteRequest) (response : AuthRemoteResponse)
    (answer : List Char) : httpResponse (.ok (request, response, answer)) = httpOk answer := rfl

theorem readHttpResponse_utf8 {text body : List Char} {maxBytes : Nat} :
    readHttpResponse (utf8 text) maxBytes = .ok body ↔
      (utf8 text).length ≤ maxBytes ∧ parseHttpResponse text = .ok body := by
  rw [readHttpResponse, unless_eq_ok, fromUtf8_utf8, Nat.not_lt]

/-- What comes back is an answer only when the service was reached and answered. -/
theorem network_eq_ok {transport data : TimedProvider Seed} {exchange : Exchange Seed}
    {token body : List Char} {maxBytes : Nat} :
    (network transport data exchange token >>= fun raw => readHttpResponse raw maxBytes) =
        .ok body ↔
      exchange.reachable = true ∧ (utf8 (httpOk body)).length ≤ maxBytes ∧
        ∃ request response,
          serve transport data token exchange.serving = .ok (request, response, body) := by
  rw [network]
  by_cases hreachable : exchange.reachable = true
  · rw [if_pos hreachable, ok_bind, readHttpResponse_utf8]
    cases hserve : serve transport data token exchange.serving with
    | error e =>
      rw [parseHttpResponse_refused]
      constructor
      · intro h
        cases h.2
      · intro h
        obtain ⟨-, -, request, response, hanswer⟩ := h
        cases hanswer
    | ok result =>
      obtain ⟨request, response, answer⟩ := result
      rw [httpResponse_ok, parseHttpResponse_httpOk]
      constructor
      · intro h
        obtain ⟨hsize, hbody⟩ := h
        rw [Except.ok.inj hbody] at hsize ⊢
        exact ⟨hreachable, hsize, request, response, rfl⟩
      · intro h
        obtain ⟨-, hsize, request', response', hanswer⟩ := h
        have hbody : answer = body := congrArg (fun r => r.2.2) (Except.ok.inj hanswer)
        rw [hbody]
        exact ⟨hsize, rfl⟩
  · rw [if_neg hreachable]
    simp [hreachable, bind, Except.bind]

section

variable {client : RemoteAuthStorageClient Seed} {data : TimedProvider Seed}
  {resource operation : String} {payload out : Bytes} {exchange : Exchange Seed}

theorem utf8_injective {t u : List Char} (h : utf8 t = utf8 u) : t = u := by
  have hread := congrArg fromUtf8 h
  rw [fromUtf8_utf8, fromUtf8_utf8] at hread
  exact Option.some.inj hread

theorem begin_asked {request : AuthRemoteRequest} {token : List Char} :
    client.begin resource operation payload exchange.draw = .ok (request, token) ↔
      validateResource resource = .ok () ∧ validateOperation operation = .ok () ∧
        request = asked resource operation payload exchange.draw ∧
        client.provider.sealToken exchange.draw.sealMs exchange.draw.seed
          (requestToVec (asked resource operation payload exchange.draw))
          (transportClaims defaultAuthRemoteTtlMs) = .ok (utf8 token) := by
  rw [begin_eq_ok, makeAuthRequest_eq_ok, and_assoc, and_assoc]
  refine and_congr_right fun _ => and_congr_right fun _ => ?_
  dsimp only [asked]
  refine and_congr_right fun hrequest => ?_
  rw [hrequest]

/-- What the service makes of a carried request. -/
theorem serve_carried (hexact : Exact client.provider) {token answer : List Char}
    (hseal : client.provider.sealToken exchange.draw.sealMs exchange.draw.seed
      (requestToVec (asked resource operation payload exchange.draw))
      (transportClaims defaultAuthRemoteTtlMs) = .ok (utf8 token))
    {request : AuthRemoteRequest} {response : AuthRemoteResponse} :
    serve client.provider data token exchange.serving = .ok (request, response, answer) ↔
      request = asked resource operation payload exchange.draw ∧
        (∃ document, client.provider.openToken exchange.serving.openMs (utf8 token)
          (transportClaims defaultAuthRemoteTtlMs) = .ok document) ∧
        validateRequest (asked resource operation payload exchange.draw) exchange.serving.nowMs
          defaultAuthRemoteMaxBytes = .ok () ∧
        (∃ made, Makes data operation payload exchange.serving made ∧
          response = answered exchange.draw made) ∧
        client.provider.sealToken exchange.serving.sealMs exchange.serving.sealSeed
          (responseToVec response) (transportClaims defaultAuthRemoteTtlMs) =
            .ok (utf8 answer) := by
  rw [serve_eq_ok, openRemoteRequest_eq_ok]
  constructor
  · intro h
    obtain ⟨⟨document, hopen, hread, hvalid⟩, hprocess, hanswer⟩ := h
    rw [hexact.same _ _ _ _ _ _ _ hseal hopen, requestFromSlice_requestToVec] at hread
    obtain rfl := Option.some.inj hread
    exact ⟨rfl, ⟨document, hopen⟩, hvalid, processRemoteRequest_asked.1 hprocess, hanswer⟩
  · intro h
    obtain ⟨rfl, ⟨document, hopen⟩, hvalid, hmade, hanswer⟩ := h
    refine ⟨⟨document, hopen, ?_, hvalid⟩, processRemoteRequest_asked.2 hmade, hanswer⟩
    rw [hexact.same _ _ _ _ _ _ _ hseal hopen, requestFromSlice_requestToVec]

/-- The second half of a call, when the service answered. -/
theorem openRemoteResponse_carried (hexact : Exact client.provider) {answer : List Char}
    {made : Bytes}
    (hseal : client.provider.sealToken exchange.serving.sealMs exchange.serving.sealSeed
      (responseToVec (answered exchange.draw made)) (transportClaims defaultAuthRemoteTtlMs) =
        .ok (utf8 answer)) :
    openRemoteResponse answer client.provider
        (makeNonce exchange.draw.nowMs exchange.draw.process exchange.draw.counter)
        exchange.last.openMs exchange.last.nowMs = .ok out ↔
      (∃ document, client.provider.openToken exchange.last.openMs (utf8 answer)
          (transportClaims defaultAuthRemoteTtlMs) = .ok document) ∧
        exchange.last.nowMs < saturatingAdd exchange.draw.nowMs defaultAuthRemoteTtlMs ∧
        made = out := by
  rw [openRemoteResponse_eq_ok]
  constructor
  · intro h
    obtain ⟨document, response, hopen, hread, hvalid, hdecoded⟩ := h
    rw [hexact.same _ _ _ _ _ _ _ hseal hopen, responseFromSlice_responseToVec] at hread
    obtain rfl := Option.some.inj hread
    dsimp only [answered] at hdecoded
    rw [decodeHex_encodeHex] at hdecoded
    rw [validateResponse_eq_ok] at hvalid
    dsimp only [answered] at hvalid
    exact ⟨⟨document, hopen⟩, hvalid.2.2, Option.some.inj hdecoded⟩
  · intro h
    obtain ⟨⟨document, hopen⟩, hlast, rfl⟩ := h
    refine ⟨document, answered exchange.draw made, hopen, ?_, ?_, ?_⟩
    · rw [hexact.same _ _ _ _ _ _ _ hseal hopen, responseFromSlice_responseToVec]
    · rw [validateResponse_eq_ok]
      dsimp only [answered]
      exact ⟨⟨rfl, rfl⟩, rfl, hlast⟩
    · dsimp only [answered]
      rw [decodeHex_encodeHex]

theorem call_halves {out : Bytes} : client.call resource operation payload exchange.draw
      (network client.provider data exchange) exchange.last = .ok out ↔
    ∃ request token answer,
      client.begin resource operation payload exchange.draw = .ok (request, token) ∧
      (network client.provider data exchange token >>= fun raw =>
        readHttpResponse raw client.maxResponseBytes) = .ok answer ∧
      openRemoteResponse answer client.provider request.nonce exchange.last.openMs
        exchange.last.nowMs = .ok out := by
  rw [RemoteAuthStorageClient.call, bind_eq_ok]
  constructor
  · intro h
    obtain ⟨⟨request, token⟩, hbegin, h⟩ := h
    obtain ⟨raw, hraw, h⟩ := bind_eq_ok.1 h
    obtain ⟨answer, hread, hopen⟩ := finish_eq_ok.1 h
    exact ⟨request, token, answer, hbegin, bind_eq_ok.2 ⟨raw, hraw, hread⟩, hopen⟩
  · intro h
    obtain ⟨request, token, answer, hbegin, hanswer, hopen⟩ := h
    obtain ⟨raw, hraw, hread⟩ := bind_eq_ok.1 hanswer
    exact ⟨(request, token), hbegin, bind_eq_ok.2 ⟨raw, hraw, finish_eq_ok.2 ⟨answer, hread, hopen⟩⟩⟩

/-- **What a call returns**: what the data provider made of its payload, when the exchange goes
through with it. -/
theorem call_eq_ok (hexact : Exact client.provider) :
    client.call resource operation payload exchange.draw (network client.provider data exchange)
        exchange.last = .ok out ↔
      validateResource resource = .ok () ∧ validateOperation operation = .ok () ∧
        GoesThrough client resource operation payload out exchange ∧
        Makes data operation payload exchange.serving out := by
  rw [call_halves]
  constructor
  · intro h
    obtain ⟨request, token, answer, hbegin, hanswer, hopen⟩ := h
    obtain ⟨hresource, hoperation, rfl, hseal⟩ := begin_asked.1 hbegin
    obtain ⟨hreachable, hsize, request, response, hserve⟩ := network_eq_ok.1 hanswer
    obtain ⟨-, hrequest, hvalid, ⟨made, hmade, rfl⟩, hsealed⟩ := (serve_carried hexact hseal).1 hserve
    obtain ⟨hdocument, hlast, rfl⟩ := (openRemoteResponse_carried hexact hsealed).1 hopen
    obtain ⟨hserved, hbegan, -, -, hsmall⟩ := validateRequest_asked.1 hvalid
    refine ⟨hresource, hoperation, ⟨⟨hreachable, ⟨token, hseal, hrequest⟩, hbegan, hserved,
      ⟨answer, hsealed, hdocument⟩, hlast⟩, hsmall, fun other hother => ?_⟩, hmade⟩
    have hsame : utf8 answer = utf8 other := Except.ok.inj (hsealed.symm.trans hother)
    rwa [← utf8_injective hsame]
  · intro h
    obtain ⟨hresource, hoperation, hthrough, hmade⟩ := h
    obtain ⟨token, hseal, hrequest⟩ := hthrough.request
    obtain ⟨answer, hsealed, hdocument⟩ := hthrough.answer
    have hsize := hthrough.fits answer hsealed
    have hvalid := validateRequest_asked.2
      ⟨hthrough.served, hthrough.began, hresource, hoperation, hthrough.small⟩
    refine ⟨asked resource operation payload exchange.draw, token, answer,
      begin_asked.2 ⟨hresource, hoperation, rfl, hseal⟩,
      network_eq_ok.2 ⟨hthrough.reachable, hsize, _, _, (serve_carried hexact hseal).2
        ⟨rfl, hrequest, hvalid, ⟨out, hmade, rfl⟩, hsealed⟩⟩, ?_⟩
    exact (openRemoteResponse_carried hexact hsealed).2 ⟨hdocument, hthrough.ended, rfl⟩

end

/-! ## The limits -/

/-- A character that JSON writes as it is. -/
def IsPlainChar (c : Char) : Prop := (32 ≤ c.toNat ∧ c.toNat < 128) ∧ c ≠ '"' ∧ c ≠ '\\'

theorem escapeChar_of_plain {c : Char} (h : IsPlainChar c) : escapeChar c = [c] := by
  obtain ⟨⟨hle, -⟩, hquote, hbackslash⟩ := h
  rw [escapeChar, if_neg hquote, if_neg hbackslash]
  split_ifs <;> first | omega | rfl

/-- A text of such characters, as a string. -/
theorem length_plain_str {t : List Char} (h : ∀ c ∈ t, IsPlainChar c) :
    (utf8 (Token.str t).text).length = t.length + 2 := by
  have hescaped : t.flatMap escapeChar = t := by
    induction t with
    | nil => rfl
    | cons c t ih =>
      rw [List.flatMap_cons, escapeChar_of_plain (h c List.mem_cons_self),
        ih fun d hd => h d (List.mem_cons_of_mem _ hd)]
      rfl
  have hascii : IsAscii ('"' :: (t ++ ['"'])) := by
    intro c hc
    rw [List.mem_cons, List.mem_append, List.mem_singleton] at hc
    obtain rfl | hc | rfl := hc
    · decide
    · exact (h c hc).1.2
    · decide
  rw [Token.text, hescaped, utf8_of_ascii hascii, List.length_map]
  simp

/-- The size of an answer: a fixed one for its members, and that of what they hold. -/
theorem length_responseToVec : ∃ size, ∀ (nonce : String) (expiresAtMs : UInt64) (payloadHex : String),
    (∀ c ∈ nonce.toList, IsPlainChar c) → (∀ c ∈ payloadHex.toList, IsPlainChar c) →
      (responseToVec ⟨authRemoteSchema, "ok", nonce, expiresAtMs, payloadHex⟩).length =
        size + nonce.toList.length + (utf8 (decimal expiresAtMs.toNat)).length +
          payloadHex.toList.length := by
  let front : List Token := [.punct '{', .str "schema".toList, .punct ':',
    .str authRemoteSchema.toList, .punct ',', .str "status".toList, .punct ':', .str "ok".toList,
    .punct ',', .str "nonce".toList, .punct ':']
  let time : List Token := [.punct ',', .str "expires_at_ms".toList, .punct ':']
  let last : List Token := [.punct ',', .str "payload_hex".toList, .punct ':']
  refine ⟨(utf8 (front.flatMap Token.text)).length + (utf8 (time.flatMap Token.text)).length +
    (utf8 (last.flatMap Token.text)).length + (utf8 ['}']).length + 4, ?_⟩
  intro nonce expiresAtMs payloadHex hnonce hpayload
  have hshape : responseTokens ⟨authRemoteSchema, "ok", nonce, expiresAtMs, payloadHex⟩ =
      front ++ .str nonce.toList :: (time ++ .num expiresAtMs.toNat ::
        (last ++ [.str payloadHex.toList, .punct '}'])) := rfl
  have hnumber : (Token.num expiresAtMs.toNat).text = decimal expiresAtMs.toNat := rfl
  have hend : (Token.punct '}').text = ['}'] := rfl
  rw [responseToVec, hshape]
  simp only [List.flatMap_append, List.flatMap_cons, List.flatMap_nil, utf8_append,
    List.length_append, length_plain_str hnonce, length_plain_str hpayload, hnumber, hend, utf8_nil,
    List.length_nil]
  omega

theorem isPlainChar_of_digit {c : Char} (h : c.isDigit = true) : IsPlainChar c := by
  refine ⟨⟨le_toNat_of_isDigit h, toNat_lt_of_isDigit h⟩, ?_, ?_⟩
  · rintro rfl
    exact absurd h (by decide)
  · rintro rfl
    exact absurd h (by decide)

theorem isPlainChar_of_hex {c : Char} (h : isHexDigit c = true) : IsPlainChar c := by
  refine ⟨⟨?_, toNat_lt_of_isHexDigit h⟩, ?_, ?_⟩
  · simp only [isHexDigit, Bool.or_eq_true, Bool.and_eq_true, decide_eq_true_eq] at h
    have hle {a b : Char} (hab : a ≤ b) : a.toNat ≤ b.toNat := UInt32.le_iff_toNat_le.1 hab
    obtain (⟨h, -⟩ | ⟨h, -⟩) | ⟨h, -⟩ := h
    · exact (show 32 ≤ '0'.toNat by decide).trans (hle h)
    · exact (show 32 ≤ 'a'.toNat by decide).trans (hle h)
    · exact (show 32 ≤ 'A'.toNat by decide).trans (hle h)
  · rintro rfl
    exact absurd h (by decide)
  · rintro rfl
    exact absurd h (by decide)

theorem isPlainChar_of_mem_nonce {nowMs : UInt64} {process : UInt32} {counter : UInt64} {c : Char}
    (h : c ∈ (makeNonce nowMs process counter).toList) : IsPlainChar c := by
  have hdash : IsPlainChar '-' := by unfold IsPlainChar; decide
  rw [makeNonce, String.toList_ofList] at h
  simp only [List.mem_append, List.mem_cons] at h
  obtain h | rfl | h | rfl | h := h
  · exact isPlainChar_of_digit (isDigit_of_mem_decimal h)
  · exact hdash
  · exact isPlainChar_of_digit (isDigit_of_mem_decimal h)
  · exact hdash
  · exact isPlainChar_of_digit (isDigit_of_mem_decimal h)

theorem isPlainChar_of_mem_hex {bytes : Bytes} {c : Char} (h : c ∈ (encodeHex bytes).toList) :
    IsPlainChar c := by
  rw [encodeHex, String.toList_ofList] at h
  exact isPlainChar_of_hex (isHexDigit_of_mem_lowerHex h)

theorem length_decimal_le {n k : Nat} (hk : 0 < k) (h : n < 10 ^ k) : (decimal n).length ≤ k :=
  (Nat.length_toDigits_le_iff (by decide) hk).2 h

theorem length_decimal_pos (n : Nat) : 0 < (decimal n).length := Nat.length_toDigits_pos

theorem length_utf8_decimal_eq (n : Nat) : (utf8 (decimal n)).length = (decimal n).length := by
  have hascii : IsAscii (decimal n) := fun c hc => toNat_lt_of_isDigit (isDigit_of_mem_decimal hc)
  rw [utf8_of_ascii hascii, List.length_map]

theorem length_nonce (nowMs : UInt64) (process : UInt32) (counter : UInt64) :
    5 ≤ (makeNonce nowMs process counter).toList.length ∧
      (makeNonce nowMs process counter).toList.length ≤ 52 := by
  have hnow := length_decimal_le (by decide) (nowMs.toNat_lt.trans (show 2 ^ 64 < 10 ^ 20 by decide))
  have hprocess := length_decimal_le (by decide)
    (process.toNat_lt.trans (show 2 ^ 32 < 10 ^ 10 by decide))
  have hcounter := length_decimal_le (by decide)
    (counter.toNat_lt.trans (show 2 ^ 64 < 10 ^ 20 by decide))
  have hpos := length_decimal_pos nowMs.toNat
  have hpos' := length_decimal_pos process.toNat
  have hpos'' := length_decimal_pos counter.toNat
  rw [makeNonce, String.toList_ofList]
  simp only [List.length_append, List.length_cons]
  omega

/-- A smaller payload makes a smaller answer, whatever its nonce and its time are. -/
theorem length_answered_le (draw later : Draw Seed) {out payload : Bytes}
    (h : payload.length + 33 ≤ out.length) :
    (responseToVec (answered later payload)).length ≤ (responseToVec (answered draw out)).length := by
  obtain ⟨size, hsize⟩ := length_responseToVec
  rw [answered, answered,
    hsize _ _ _ (fun _ => isPlainChar_of_mem_nonce) (fun _ => isPlainChar_of_mem_hex),
    hsize _ _ _ (fun _ => isPlainChar_of_mem_nonce) (fun _ => isPlainChar_of_mem_hex),
    length_utf8_decimal_eq, length_utf8_decimal_eq]
  have hnonce := (length_nonce later.nowMs later.process later.counter).2
  have hnonce' := (length_nonce draw.nowMs draw.process draw.counter).1
  have htime := length_decimal_le (by decide)
    ((saturatingAdd later.nowMs defaultAuthRemoteTtlMs).toNat_lt.trans
      (show 2 ^ 64 < 10 ^ 20 by decide))
  have htime' := length_decimal_pos (saturatingAdd draw.nowMs defaultAuthRemoteTtlMs).toNat
  have hhex (bytes : Bytes) : (encodeHex bytes).toList.length = 2 * bytes.length := by
    rw [encodeHex, String.toList_ofList, length_lowerHex]
  rw [hhex, hhex]
  omega

theorem length_le_answered (draw : Draw Seed) (out : Bytes) :
    2 * out.length ≤ (responseToVec (answered draw out)).length := by
  obtain ⟨size, hsize⟩ := length_responseToVec
  rw [answered, hsize _ _ _ (fun _ => isPlainChar_of_mem_nonce) (fun _ => isPlainChar_of_mem_hex),
    encodeHex, String.toList_ofList, length_lowerHex]
  omega

theorem length_decimal_mono {m n : Nat} (h : m ≤ n) : (decimal m).length ≤ (decimal n).length := by
  have hpos := length_decimal_pos n
  have hlt : n < 10 ^ (decimal n).length :=
    (Nat.length_toDigits_le_iff (by decide) hpos).1 (le_refl (decimal n).length)
  exact length_decimal_le hpos (h.trans_lt hlt)

theorem length_httpOk : ∃ size, ∀ answer, (utf8 (httpOk answer)).length =
    size + (decimal (utf8 answer).length).length + (utf8 answer).length := by
  have hparts : ∀ first second last : List Char, ∃ size, ∀ answer, (utf8 (first ++ (second ++
      (decimal (utf8 answer).length ++ (last ++ answer))))).length =
        size + (decimal (utf8 answer).length).length + (utf8 answer).length := by
    intro first second last
    refine ⟨(utf8 first).length + (utf8 second).length + (utf8 last).length, fun answer => ?_⟩
    simp only [utf8_append, List.length_append, length_utf8_decimal_eq]
    omega
  obtain ⟨size, hsize⟩ := hparts (statusOk ++ ['\r', '\n']) lengthName ['\r', '\n', '\r', '\n']
  refine ⟨size, fun answer => ?_⟩
  rw [← hsize, httpOk, contentLength]
  simp only [List.append_assoc, List.cons_append, List.nil_append]

/-- A provider whose tokens are no shorter than what they hold and grow with it, a data provider that
adds at least 33 bytes, and a client within twice the limit of a request. -/
structure Sized (client : RemoteAuthStorageClient Seed) (data : TimedProvider Seed) : Prop where
  holds : ∀ sealMs seed payload claims token,
    client.provider.sealToken sealMs seed payload claims = .ok token → payload.length ≤ token.length
  grows : ∀ sealMs seed payload sealMs' seed' payload' claims token token',
    client.provider.sealToken sealMs seed payload claims = .ok token →
      client.provider.sealToken sealMs' seed' payload' claims = .ok token' →
        payload.length ≤ payload'.length → token.length ≤ token'.length
  adds : ∀ sealMs seed payload claims token,
    data.sealToken sealMs seed payload claims = .ok token → payload.length + 33 ≤ token.length
  limit : client.maxResponseBytes ≤ 2 * defaultAuthRemoteMaxBytes

/-- What was sealed within the limits can be opened within them. -/
theorem goesThrough_of_sealed {client : RemoteAuthStorageClient Seed} {data : TimedProvider Seed}
    {resource operation : String} {payload out : Bytes} {exchange later : Exchange Seed}
    (hsized : Sized client data)
    (hsealed : GoesThrough client resource "seal" payload out exchange)
    (hmade : data.sealToken exchange.serving.dataMs exchange.serving.dataSeed payload dataClaims =
      .ok out)
    (hlater : Timely client resource operation out payload later) :
    GoesThrough client resource operation out payload later := by
  obtain ⟨token, htoken, -⟩ := hsealed.answer
  have hfits := hsealed.fits token htoken
  obtain ⟨size, hsize⟩ := length_httpOk
  rw [hsize] at hfits
  refine ⟨hlater, ?_, ?_⟩
  · have hout := length_le_answered exchange.draw out
    have hholds := hsized.holds _ _ _ _ _ htoken
    have hlimit := hsized.limit
    omega
  · intro other hother
    have hanswer := length_answered_le exchange.draw later.draw (hsized.adds _ _ _ _ _ hmade)
    have hgrows := hsized.grows _ _ _ _ _ _ _ _ _ hother htoken hanswer
    have hdigits := length_decimal_mono hgrows
    rw [hsize]
    omega

end AppCore.Storage.Remote
