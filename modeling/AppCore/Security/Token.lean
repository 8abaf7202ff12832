import AppCore.Base.Json

/-!
# Bearer tokens

`token.rs`: the factory that issues the tokens of the runtime and the validator that accepts them.
A token is `v1.`, the claims as JSON in hexadecimal, a dot, and their signature in hexadecimal.

The provider that signs and verifies is a parameter. The claims are written and read as `serde_json`
writes them; every other document is refused by the reader of the model.
-/

namespace AppCore.Security

open Json

inductive SecurityError where
  | unsupported (operation : String)
  | invalidToken
  | verificationFailed
  | invalidSecretRef
  | secretUnavailable
  deriving DecidableEq, Repr

inductive CommandTokenError where
  | invalidFormat
  | unauthorized
  | forbidden
  deriving DecidableEq, Repr

structure TokenClaims where
  issuer : String
  audience : String
  salt : String
  ttlMs : UInt64
  deriving DecidableEq, Repr

structure RuntimeTokenClaims where
  version : String
  purpose : String
  commandName : Option String
  scope : Option String
  subject : Option String
  issuedAtMs : UInt64
  expiresAtMs : UInt64
  jti : Option String
  requestHash : Option String
  deriving DecidableEq, Repr

structure TokenProvider where
  sealToken : Bytes → TokenClaims → Except SecurityError Bytes
  openToken : Bytes → TokenClaims → Except SecurityError Bytes
  sign : Bytes → TokenClaims → Except SecurityError Bytes
  verify : Bytes → Bytes → TokenClaims → Except SecurityError Unit

def localAdminSubject : String := "local-admin"

/-! ## The claims as JSON -/

/-- A member that is skipped when there is no value, after the comma before it. -/
def optionalTokens (name : String) : Option String → List Token
  | none => []
  | some value => [.punct ',', .str name.toList, .punct ':', .str value.toList]

/-- The name of a command, or `null`. -/
def nameTokens : Option String → List Token
  | none => [.null]
  | some name => [.str name.toList]

/-- The members after the name of the command. -/
def scopedTokens (claims : RuntimeTokenClaims) : List Token :=
  optionalTokens "scope" claims.scope ++ (optionalTokens "subject" claims.subject ++
    (.punct ',' :: memberTokens "issued_at_ms" [.num claims.issuedAtMs.toNat] ','
      (.str "expires_at_ms".toList :: .punct ':' :: .num claims.expiresAtMs.toNat ::
        (optionalTokens "jti" claims.jti ++
          (optionalTokens "request_hash" claims.requestHash ++ [.punct '}'])))))

/-- The members in the order of the fields. -/
def claimsTokens (claims : RuntimeTokenClaims) : List Token :=
  .punct '{' ::
    memberTokens "version" [.str claims.version.toList] ','
      (memberTokens "purpose" [.str claims.purpose.toList] ','
        (.str "command_name".toList :: .punct ':' ::
          (nameTokens claims.commandName ++ scopedTokens claims)))

/-- `serde_json::to_vec` of the claims. -/
def claimsToVec (claims : RuntimeTokenClaims) : Bytes :=
  utf8 ((claimsTokens claims).flatMap Token.text)

/-- A member that may be missing. -/
def readOptional (name : String) : List Token → Option String × List Token
  | .punct ',' :: .str key :: .punct ':' :: .str value :: rest =>
    if key = name.toList then (some (String.ofList value), rest)
    else (none, .punct ',' :: .str key :: .punct ':' :: .str value :: rest)
  | tokens => (none, tokens)

/-- The name of a member and the colon behind it. -/
def expectName (name : String) : List Token → Option (List Token)
  | .str key :: .punct ':' :: rest => if key = name.toList then some rest else none
  | _ => none

def readTime (tokens : List Token) : Option (UInt64 × List Token) :=
  (readBelow (2 ^ 64) tokens).map fun (n, rest) => (UInt64.ofNat n, rest)

def readClaims (tokens : List Token) : Option RuntimeTokenClaims :=
  (expect '{' tokens).bind <|
    readMember "version" readStr ',' fun version =>
    readMember "purpose" readStr ',' fun purpose rest => do
      let rest ← expectName "command_name" rest
      let (commandName, rest) ← readNullable readStr rest
      let (scope, rest) := readOptional "scope" rest
      let (subject, rest) := readOptional "subject" rest
      let rest ← expect ',' rest
      readMember "issued_at_ms" readTime ',' (fun issuedAtMs rest => do
        let rest ← expectName "expires_at_ms" rest
        let (expiresAtMs, rest) ← readTime rest
        let (jti, rest) := readOptional "jti" rest
        let (requestHash, rest) := readOptional "request_hash" rest
        let rest ← expect '}' rest
        if rest = [] then
          some { version, purpose, commandName, scope, subject, issuedAtMs, expiresAtMs, jti,
                 requestHash }
        else none) rest

/-- `serde_json::from_slice` of the claims. -/
def claimsFromSlice (bytes : Bytes) : Option RuntimeTokenClaims :=
  (fromUtf8 bytes).bind fun t => (lexText t).bind readClaims

/-! ## Hexadecimal -/

def encodeHex (bytes : Bytes) : List Char := lowerHex bytes

def decodeHex (input : List Char) : Option Bytes :=
  let bytes := utf8 input
  if bytes.isEmpty || bytes.length % 2 != 0 then none else fromHexPairs bytes

theorem decodeHex_encodeHex {bytes : Bytes} (h : bytes ≠ []) :
    decodeHex (encodeHex bytes) = some bytes := by
  have hlength : (utf8 (encodeHex bytes)).length = 2 * bytes.length := by
    rw [encodeHex, utf8_of_ascii (isAscii_lowerHex bytes), List.length_map, length_lowerHex]
  have hpos : 0 < bytes.length := List.length_pos_of_ne_nil h
  have hempty : (utf8 (encodeHex bytes)).isEmpty = false := by
    rw [List.isEmpty_eq_false_iff, ← List.length_pos_iff_ne_nil]
    omega
  have heven : (utf8 (encodeHex bytes)).length % 2 = 0 := by omega
  rw [decodeHex]
  simp only [hempty, heven, Bool.false_or, bne_self_eq_false, Bool.false_eq_true, if_false]
  exact fromHexPairs_utf8_lowerHex bytes

theorem not_mem_encodeHex (bytes : Bytes) : '.' ∉ encodeHex bytes := by
  intro h
  have := isHexDigit_of_mem_lowerHex h
  revert this
  decide

def parseV1Token (token : String) : Option (Bytes × Bytes) :=
  match token.toList with
  | 'v' :: '1' :: '.' :: token => do
      let (payloadHex, signatureHex) ← splitOnce '.' token
      let payload ← decodeHex payloadHex
      let signature ← decodeHex signatureHex
      pure (payload, signature)
  | _ => none

/-- The text of a token. -/
def formatToken (payload signature : Bytes) : String :=
  String.ofList ("v1.".toList ++ (encodeHex payload ++ '.' :: encodeHex signature))

def validateGeneratedClaims (purpose : String) (commandName scope subject : Option String) :
    Except CommandTokenError Unit :=
  match purpose with
  | "command" | "query" =>
    if scope = some "*" ∧ subject = some localAdminSubject then .ok ()
    else if commandName.isSome ∧ scope = none then .ok ()
    else .error .invalidFormat
  | "sync" => if commandName = none ∧ scope = none then .ok () else .error .invalidFormat
  | "peer" =>
    if scope = some "*" ∧ subject = some localAdminSubject then .ok ()
    else if commandName = none ∧ scope = none then .ok ()
    else .error .invalidFormat
  | _ => .error .invalidFormat

def validateClaimScope (claims : RuntimeTokenClaims) (expectedName : Option String) :
    Except CommandTokenError Unit :=
  match claims.purpose with
  | "command" | "query" =>
    if claims.scope = some "*" then
      if claims.subject = some localAdminSubject then .ok () else .error .unauthorized
    else if claims.scope.isSome then .error .unauthorized
    else
      match claims.commandName, expectedName with
      | some name, some expectedName =>
        if name = expectedName then .ok () else .error .forbidden
      | _, _ => .error .unauthorized
  | "sync" =>
    if claims.commandName = none ∧ claims.scope = none then .ok () else .error .unauthorized
  | "peer" =>
    if claims.scope = some "*" then
      if claims.subject = some localAdminSubject then .ok () else .error .unauthorized
    else if claims.commandName = none ∧ claims.scope = none then .ok ()
    else .error .unauthorized
  | _ => .error .unauthorized

/-! ## The factory -/

/-- `saturating_add` of `u64`. -/
def saturatingAdd (a b : UInt64) : UInt64 :=
  if a.toNat + b.toNat < 2 ^ 64 then a + b else .ofNat (2 ^ 64 - 1)

structure CommandTokenFactory where
  provider : TokenProvider
  claims : TokenClaims

namespace CommandTokenFactory

/-- What both functions that issue do with their claims. -/
def issue (factory : CommandTokenFactory) (claims : RuntimeTokenClaims) :
    Except CommandTokenError String :=
  let payload := claimsToVec claims
  match factory.provider.sign payload factory.claims with
  | .error _ => .error .unauthorized
  | .ok signature => .ok (formatToken payload signature)

def createV1ForPurposeScoped (factory : CommandTokenFactory) (purpose : String)
    (commandName scope subject : Option String) (issuedAtMs ttlMs : UInt64) :
    Except CommandTokenError String := do
  validateGeneratedClaims purpose commandName scope subject
  factory.issue
    { version := "v1", purpose, commandName, scope, subject, issuedAtMs,
      expiresAtMs := saturatingAdd issuedAtMs ttlMs, jti := none, requestHash := none }

def createV1WithJtiAndHash (factory : CommandTokenFactory) (purpose : String)
    (commandName scope subject : Option String) (issuedAtMs ttlMs : UInt64)
    (jti requestHash : Option String) : Except CommandTokenError String := do
  validateGeneratedClaims purpose commandName scope subject
  factory.issue
    { version := "v1", purpose, commandName, scope, subject, issuedAtMs,
      expiresAtMs := saturatingAdd issuedAtMs ttlMs, jti, requestHash }

def createV1ForPurpose (factory : CommandTokenFactory) (purpose : String)
    (commandName subject : Option String) (issuedAtMs ttlMs : UInt64) :
    Except CommandTokenError String :=
  factory.createV1ForPurposeScoped purpose commandName none subject issuedAtMs ttlMs

def createV1Scoped (factory : CommandTokenFactory) (commandName scope subject : Option String)
    (issuedAtMs ttlMs : UInt64) : Except CommandTokenError String :=
  factory.createV1ForPurposeScoped "command" commandName scope subject issuedAtMs ttlMs

def createV1 (factory : CommandTokenFactory) (commandName subject : Option String)
    (issuedAtMs ttlMs : UInt64) : Except CommandTokenError String :=
  factory.createV1Scoped commandName none subject issuedAtMs ttlMs

end CommandTokenFactory

/-! ## The validator -/

structure CommandTokenValidator where
  provider : TokenProvider
  claims : TokenClaims

namespace CommandTokenValidator

/-- What `validate_and_get_claims` asks of claims whose signature it has verified. -/
def checkClaims (claims : RuntimeTokenClaims) (expectedPurpose : String)
    (commandName : Option String) (nowMs : UInt64) (expectedRequestHash : Option String) :
    Except CommandTokenError RuntimeTokenClaims :=
  if claims.version ≠ "v1" ∨ claims.purpose ≠ expectedPurpose then .error .unauthorized
  else if claims.expiresAtMs ≤ nowMs then .error .unauthorized
  else
    match validateClaimScope claims commandName with
    | .error e => .error e
    | .ok () =>
      match claims.requestHash, expectedRequestHash with
      | none, _ => .ok claims
      | some hash, some expected => if hash ≠ expected then .error .forbidden else .ok claims
      | some _, none => .error .unauthorized

def validateAndGetClaims (validator : CommandTokenValidator) (token expectedPurpose : String)
    (commandName : Option String) (nowMs : UInt64) (expectedRequestHash : Option String) :
    Except CommandTokenError RuntimeTokenClaims :=
  match parseV1Token token with
  | none => .error .invalidFormat
  | some (payload, signature) =>
    match validator.provider.verify payload signature validator.claims with
    | .error _ => .error .unauthorized
    | .ok () =>
      match claimsFromSlice payload with
      | none => .error .invalidFormat
      | some claims => checkClaims claims expectedPurpose commandName nowMs expectedRequestHash

def validateForPurpose (validator : CommandTokenValidator) (token expectedPurpose : String)
    (commandName : Option String) (nowMs : UInt64) : Except CommandTokenError Unit := do
  let _ ← validator.validateAndGetClaims token expectedPurpose commandName nowMs none
  .ok ()

def validate (validator : CommandTokenValidator) (token commandName : String) (nowMs : UInt64) :
    Except CommandTokenError Unit :=
  validator.validateForPurpose token "command" (some commandName) nowMs

end CommandTokenValidator

end AppCore.Security
