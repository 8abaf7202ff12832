import AppCore.Security.TokenProof
import AppCore.Storage.Fs

/-!
# The remote auth-storage protocol

`storage_auth_remote.rs`: a client has an auth service seal and open the bytes of its files. Request
and answer are JSON documents, sealed under a secret of the transport; the service works with a
secret of its own. An answer is matched to its request by a nonce that it repeats.

A token provider reads a clock of its own and draws random bytes, so both are arguments here
(`TimedProvider`), as are the clock, the process and the counter that a nonce is made of. What comes
back from the network is any sequence of bytes. A document is read in the order in which its members
are written: the client and the service open nothing but what one of them sealed.
-/

namespace AppCore.Storage.Remote

open Json
open Security (TokenClaims SecurityError readTime)

/-! ## Protocol -/

/-- `StorageError`: the variants of the protocol, and those of the file provider. -/
inductive RemoteError where
  | storage (e : StorageError)
  | authUnavailable (what : String)
  | securityFailed (what : String)
  deriving DecidableEq, Repr

abbrev RemoteResult (α : Type) := Except RemoteError α

/-- `TokenProvider`, at a time of its clock, with what it draws for a token. -/
structure TimedProvider (Seed : Type) where
  sealToken : UInt64 → Seed → Bytes → TokenClaims → Except SecurityError Bytes
  openToken : UInt64 → Bytes → TokenClaims → Except SecurityError Bytes

def authRemoteSchema : String := "appcore.auth-remote.v1"

def defaultAuthRemoteMaxBytes : Nat := 1024 * 1024

def defaultAuthRemoteTtlMs : UInt64 := 10000

structure AuthRemoteRequest where
  schema : String
  resource : String
  operation : String
  nonce : String
  issuedAtMs : UInt64
  expiresAtMs : UInt64
  payloadHex : String
  deriving DecidableEq, Repr

structure AuthRemoteResponse where
  schema : String
  status : String
  nonce : String
  expiresAtMs : UInt64
  payloadHex : String
  deriving DecidableEq, Repr

def transportClaims (ttlMs : UInt64) : TokenClaims :=
  ⟨"appcore-runtime-host", "appcore-auth-server", "auth-remote-transport-v1", ttlMs⟩

def dataClaims : TokenClaims :=
  ⟨"appcore-auth-server", "appcore-auth-storage", "auth-remote-data-v1", 0⟩

/-! ## Documents -/

/-- The members of a request in the order of its fields. -/
def requestTokens (request : AuthRemoteRequest) : List Token :=
  .punct '{' ::
    memberTokens "schema" [.str request.schema.toList] ',' (
    memberTokens "resource" [.str request.resource.toList] ',' (
    memberTokens "operation" [.str request.operation.toList] ',' (
    memberTokens "nonce" [.str request.nonce.toList] ',' (
    memberTokens "issued_at_ms" [.num request.issuedAtMs.toNat] ',' (
    memberTokens "expires_at_ms" [.num request.expiresAtMs.toNat] ',' (
    memberTokens "payload_hex" [.str request.payloadHex.toList] '}' []))))))

/-- The members of an answer. -/
def responseTokens (response : AuthRemoteResponse) : List Token :=
  .punct '{' ::
    memberTokens "schema" [.str response.schema.toList] ',' (
    memberTokens "status" [.str response.status.toList] ',' (
    memberTokens "nonce" [.str response.nonce.toList] ',' (
    memberTokens "expires_at_ms" [.num response.expiresAtMs.toNat] ',' (
    memberTokens "payload_hex" [.str response.payloadHex.toList] '}' []))))

/-- `serde_json::to_vec` of a request. -/
def requestToVec (request : AuthRemoteRequest) : Bytes :=
  utf8 ((requestTokens request).flatMap Token.text)

/-- `serde_json::to_vec` of an answer. -/
def responseToVec (response : AuthRemoteResponse) : Bytes :=
  utf8 ((responseTokens response).flatMap Token.text)

def readRequest (tokens : List Token) : Option AuthRemoteRequest :=
  (expect '{' tokens).bind <|
    readMember "schema" readStr ',' fun schema =>
    readMember "resource" readStr ',' fun resource =>
    readMember "operation" readStr ',' fun operation =>
    readMember "nonce" readStr ',' fun nonce =>
    readMember "issued_at_ms" readTime ',' fun issuedAtMs =>
    readMember "expires_at_ms" readTime ',' fun expiresAtMs =>
    readMember "payload_hex" readStr '}' fun payloadHex rest =>
      if rest = [] then
        some ⟨schema, resource, operation, nonce, issuedAtMs, expiresAtMs, payloadHex⟩
      else none

def readResponse (tokens : List Token) : Option AuthRemoteResponse :=
  (expect '{' tokens).bind <|
    readMember "schema" readStr ',' fun schema =>
    readMember "status" readStr ',' fun status =>
    readMember "nonce" readStr ',' fun nonce =>
    readMember "expires_at_ms" readTime ',' fun expiresAtMs =>
    readMember "payload_hex" readStr '}' fun payloadHex rest =>
      if rest = [] then some ⟨schema, status, nonce, expiresAtMs, payloadHex⟩ else none

/-- `serde_json::from_slice` of a request. -/
def requestFromSlice (bytes : Bytes) : Option AuthRemoteRequest :=
  (fromUtf8 bytes).bind fun t => (lexText t).bind readRequest

/-- `serde_json::from_slice` of an answer. -/
def responseFromSlice (bytes : Bytes) : Option AuthRemoteResponse :=
  (fromUtf8 bytes).bind fun t => (lexText t).bind readResponse

def encodeHex (bytes : Bytes) : String := String.ofList (lowerHex bytes)

def decodeHex (input : String) : Option Bytes :=
  if (strBytes input).length % 2 ≠ 0 then none else fromHexPairs (strBytes input)

/-! ## Requests -/

def validateResource (resource : String) : RemoteResult Unit :=
  if resource = "" ∨ (strBytes resource).length > 256 ∨ isAbsolute resource then
    .error (.storage (.invalidPath resource))
  else if (components resource).any fun c => c = .parentDir ∨ c = .rootDir then
    .error (.storage (.invalidPath resource))
  else .ok ()

def validateOperation (operation : String) : RemoteResult Unit :=
  if operation = "seal" ∨ operation = "open" then .ok ()
  else .error (.securityFailed operation)

/-- `make_nonce`: the clock, the process identifier and the counter of the process. -/
def makeNonce (nowMs : UInt64) (process : UInt32) (counter : UInt64) : String :=
  String.ofList (decimal nowMs.toNat ++ '-' :: (decimal process.toNat ++ '-' ::
    decimal counter.toNat))

/-- `make_auth_request`. The counter is drawn after the checks. -/
def makeAuthRequest (resource operation : String) (payload : Bytes) (nowMs : UInt64)
    (process : UInt32) (counter : UInt64) : RemoteResult AuthRemoteRequest := do
  validateResource resource
  validateOperation operation
  .ok { schema := authRemoteSchema, resource, operation, nonce := makeNonce nowMs process counter,
        issuedAtMs := nowMs, expiresAtMs := saturatingAdd nowMs defaultAuthRemoteTtlMs,
        payloadHex := encodeHex payload }

def validateRequest (request : AuthRemoteRequest) (nowMs : UInt64) (maxPayloadBytes : Nat) :
    RemoteResult Unit :=
  if request.schema ≠ authRemoteSchema ∨ request.expiresAtMs ≤ nowMs then
    .error (.securityFailed request.resource)
  else if request.nonce = "" ∨ request.issuedAtMs ≥ request.expiresAtMs then
    .error (.securityFailed request.resource)
  else do
    validateResource request.resource
    validateOperation request.operation
    if (strBytes request.payloadHex).length / 2 > maxPayloadBytes then
      .error (.securityFailed request.resource)
    else .ok ()

def validateResponse (response : AuthRemoteResponse) (expectedNonce : String) (nowMs : UInt64) :
    RemoteResult Unit :=
  if response.schema ≠ authRemoteSchema ∨ response.status ≠ "ok" then
    .error (.securityFailed "auth response")
  else if response.nonce ≠ expectedNonce ∨ response.expiresAtMs ≤ nowMs then
    .error (.securityFailed "auth response")
  else .ok ()

section

variable {Seed : Type}

/-- What `seal_remote_request` and `seal_remote_response` have in common: a document is sealed for
the transport, and the token is a text. -/
def sealDocument (provider : TimedProvider Seed) (sealMs : UInt64) (seed : Seed)
    (document : Bytes) (what : String) : RemoteResult (List Char) :=
  match provider.sealToken sealMs seed document (transportClaims defaultAuthRemoteTtlMs) with
  | .error _ => .error (.securityFailed what)
  | .ok token =>
    match fromUtf8 token with
    | none => .error (.securityFailed what)
    | some text => .ok text

def sealRemoteRequest (request : AuthRemoteRequest) (provider : TimedProvider Seed)
    (sealMs : UInt64) (seed : Seed) : RemoteResult (List Char) :=
  sealDocument provider sealMs seed (requestToVec request) request.resource

def openRemoteRequest (token : List Char) (provider : TimedProvider Seed)
    (openMs nowMs : UInt64) : RemoteResult AuthRemoteRequest :=
  match provider.openToken openMs (utf8 token) (transportClaims defaultAuthRemoteTtlMs) with
  | .error _ => .error (.securityFailed "auth transport")
  | .ok bytes =>
    match requestFromSlice bytes with
    | none => .error (.securityFailed "auth request")
    | some request => do
        validateRequest request nowMs defaultAuthRemoteMaxBytes
        .ok request

def sealRemoteResponse (response : AuthRemoteResponse) (provider : TimedProvider Seed)
    (sealMs : UInt64) (seed : Seed) : RemoteResult (List Char) :=
  sealDocument provider sealMs seed (responseToVec response) response.nonce

def openRemoteResponse (token : List Char) (provider : TimedProvider Seed)
    (expectedNonce : String) (openMs nowMs : UInt64) : RemoteResult Bytes :=
  match provider.openToken openMs (utf8 token) (transportClaims defaultAuthRemoteTtlMs) with
  | .error _ => .error (.securityFailed "auth response")
  | .ok bytes =>
    match responseFromSlice bytes with
    | none => .error (.securityFailed "auth response")
    | some response => do
        validateResponse response expectedNonce nowMs
        match decodeHex response.payloadHex with
        | none => .error (.securityFailed response.nonce)
        | some payload => .ok payload

/-- `process_remote_request`. The resource is in the request and in no claims. -/
def processRemoteRequest (request : AuthRemoteRequest) (provider : TimedProvider Seed)
    (dataMs : UInt64) (seed : Seed) : RemoteResult AuthRemoteResponse :=
  match decodeHex request.payloadHex with
  | none => .error (.securityFailed request.resource)
  | some payload =>
    let output :=
      if request.operation = "seal" then
        some (provider.sealToken dataMs seed payload dataClaims)
      else if request.operation = "open" then
        some (provider.openToken dataMs payload dataClaims)
      else none
    match output with
    | some (.ok bytes) =>
      .ok { schema := authRemoteSchema, status := "ok", nonce := request.nonce,
            expiresAtMs := request.expiresAtMs, payloadHex := encodeHex bytes }
    | _ => .error (.securityFailed request.resource)

end

/-- The times at which the service handles a request, and what it draws. -/
structure Serving (Seed : Type) where
  openMs : UInt64
  nowMs : UInt64
  dataMs : UInt64
  dataSeed : Seed
  sealMs : UInt64
  sealSeed : Seed

/-- The auth service: it opens a request, processes it with its own provider and seals the answer. -/
def serve {Seed : Type} (transport data : TimedProvider Seed) (token : List Char)
    (serving : Serving Seed) : RemoteResult (AuthRemoteRequest × AuthRemoteResponse × List Char) :=
  do
  let request ← openRemoteRequest token transport serving.openMs serving.nowMs
  let response ← processRemoteRequest request data serving.dataMs serving.dataSeed
  let answer ← sealRemoteResponse response transport serving.sealMs serving.sealSeed
  .ok (request, response, answer)

/-! ## Transport -/

/-- `split_once` at the blank line behind the head. -/
def splitHead : List Char → Option (List Char × List Char)
  | '\r' :: '\n' :: '\r' :: '\n' :: body => some ([], body)
  | [] => none
  | c :: rest => (splitHead rest).map fun (head, body) => (c :: head, body)

/-- `parse::<u16>`. -/
def parseU16 (t : List Char) : Option UInt16 :=
  (parseU64 t).bind fun n => if n.toNat < 2 ^ 16 then some (UInt16.ofNat n.toNat) else none

def httpStatus (head : List Char) : RemoteResult UInt16 :=
  match (lines head).head? with
  | none => .error (.securityFailed "missing auth status")
  | some line =>
    match ((line.splitOnP isWhitespace).filter fun word => !word.isEmpty)[1]? with
    | none => .error (.securityFailed "missing auth status")
    | some word =>
      match parseU16 word with
      | none => .error (.securityFailed "invalid auth status")
      | some status => .ok status

def parseHttpResponse (text : List Char) : RemoteResult (List Char) :=
  match splitHead text with
  | none => .error (.securityFailed "malformed auth response")
  | some (head, body) => do
      let status ← httpStatus head
      if 200 ≤ status ∧ status < 300 then .ok body
      else if status = 503 then .error (.authUnavailable "auth-server")
      else .error (.securityFailed ("auth status " ++ String.ofList (decimal status.toNat)))

/-- `read_http_response`, of a response that came whole. -/
def readHttpResponse (raw : Bytes) (maxBytes : Nat) : RemoteResult (List Char) :=
  if raw.length > maxBytes then .error (.securityFailed "auth response too large")
  else
    match fromUtf8 raw with
    | none => .error (.securityFailed "auth response")
    | some text => parseHttpResponse text

/-! ## The client -/

structure RemoteAuthStorageClient (Seed : Type) where
  provider : TimedProvider Seed
  maxResponseBytes : Nat := defaultAuthRemoteMaxBytes

/-- What a call draws when it starts. -/
structure Draw (Seed : Type) where
  nowMs : UInt64
  sealMs : UInt64
  process : UInt32
  counter : UInt64
  seed : Seed

namespace RemoteAuthStorageClient

variable {Seed : Type} (client : RemoteAuthStorageClient Seed)

/-- The first half of `call`: the token that is posted. -/
def begin (resource operation : String) (payload : Bytes) (draw : Draw Seed) :
    RemoteResult (AuthRemoteRequest × List Char) := do
  let request ← makeAuthRequest resource operation payload draw.nowMs draw.process draw.counter
  let token ← sealRemoteRequest request client.provider draw.sealMs draw.seed
  .ok (request, token)

/-- The times at the end of a call: `now_ms`, then that of the provider. -/
structure End where
  nowMs : UInt64
  openMs : UInt64

/-- The second half of `call`: what came back is opened. -/
def finish (nonce : String) (raw : Bytes) (last : End) : RemoteResult Bytes := do
  let response ← readHttpResponse raw client.maxResponseBytes
  openRemoteResponse response client.provider nonce last.openMs last.nowMs

/-- `call`. The network answers the token with bytes, or not at all. -/
def call (resource operation : String) (payload : Bytes) (draw : Draw Seed)
    (network : List Char → RemoteResult Bytes) (last : End) : RemoteResult Bytes := do
  let (request, token) ← client.begin resource operation payload draw
  let raw ← network token
  client.finish request.nonce raw last

def sealResource (resource : String) (bytes : Bytes) (draw : Draw Seed)
    (network : List Char → RemoteResult Bytes) (last : End) : RemoteResult Bytes :=
  client.call resource "seal" bytes draw network last

def openResource (resource : String) (bytes : Bytes) (draw : Draw Seed)
    (network : List Char → RemoteResult Bytes) (last : End) : RemoteResult Bytes :=
  client.call resource "open" bytes draw network last

end RemoteAuthStorageClient

end AppCore.Storage.Remote
