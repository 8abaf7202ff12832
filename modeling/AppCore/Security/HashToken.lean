import AppCore.Security.Keyring

/-!
# Tokens of the token library

`hashtoken.rs`: the adapter that seals and signs with the library's token manager, under a fixed secret
or under the active key of a keyring. A token of a keyring names its key in front of the token of the
library.

The library is a parameter (`TokenLibrary`); `LawfulTokens` says what it does with its own tokens.
-/

namespace AppCore.Security

/-- `GenerateTokenOptions`, as far as they are set. -/
structure GenerateTokenOptions where
  expiresIn : Option UInt64
  issuer : String
  audience : String
  deriving DecidableEq, Repr

/-- `ValidateTokenOptions`, as far as they are set. -/
structure ValidateTokenOptions where
  issuer : String
  audience : String
  deriving DecidableEq, Repr

/-- `AdvancedTokenManager`. A token depends on the time it is made at and on what the manager draws
(`Seed`); one that is read depends on the time. -/
structure TokenLibrary where
  Algorithm : Type
  sha256 : Algorithm
  Manager : Type
  Seed : Type
  new : Bytes → List Bytes → Algorithm → Option Manager
  sealTokenBytes : Manager → UInt64 → Seed → Bytes → GenerateTokenOptions → Option (List Char)
  openTokenBytes : Manager → UInt64 → List Char → ValidateTokenOptions → Option Bytes
  generateTokenBytes : Manager → UInt64 → Seed → Bytes → GenerateTokenOptions → Option (List Char)
  validateTokenBytes : Manager → UInt64 → List Char → ValidateTokenOptions → Option Bytes

/-! ## The adapter -/

def keyringTokenPrefix : Bytes := strBytes "appcore-keyring-v1."

/-- `SecretSource`. The keyring is handed to every call, as it is then. -/
inductive SecretSource where
  | fixed (secret : Bytes)
  | keyring

structure HashTokenProvider (T : TokenLibrary) where
  source : SecretSource
  salts : List Bytes
  algorithm : T.Algorithm

def validateMaterial (secret : Bytes) (salts : List Bytes) : Except SecurityError Unit :=
  if secret.length < 16 ∨ salts = [] ∨ salts.any List.isEmpty then .error .invalidToken else .ok ()

def generateOptions (claims : TokenClaims) : GenerateTokenOptions :=
  { expiresIn :=
      if claims.ttlMs = 0 then none
      else some (claims.ttlMs / 1000 + if claims.ttlMs % 1000 = 0 then 0 else 1)
    issuer := claims.issuer
    audience := claims.audience }

def validateOptions (claims : TokenClaims) : ValidateTokenOptions :=
  { issuer := claims.issuer, audience := claims.audience }

def wrapKeyringToken (keyId : Option String) (token : Bytes) : Bytes :=
  match keyId with
  | none => token
  | some keyId => keyringTokenPrefix ++ (strBytes keyId ++ 0x2e :: token)

def unwrapKeyringToken (token : Bytes) : Except SecurityError (String × Bytes) :=
  match token.dropPrefix? keyringTokenPrefix with
  | none => .error .invalidToken
  | some remainder =>
    match remainder.span (· != 0x2e) with
    | (_, []) => .error .invalidToken
    | (keyId, _ :: inner) =>
      match fromUtf8 keyId with
      | none => .error .invalidToken
      | some keyId =>
        if keyId = [] ∨ inner = [] then .error .invalidToken
        else .ok (String.ofList keyId, inner)

namespace HashTokenProvider

variable {T : TokenLibrary}

def withMaterial (secret : Bytes) (salts : List Bytes) (algorithm : T.Algorithm) :
    Except SecurityError (HashTokenProvider T) := do
  validateMaterial secret salts
  .ok { source := .fixed secret, salts, algorithm }

def fromKeyring (keyring : FileSecretKeyring) (nowMs : UInt64) (salts : List Bytes) :
    Except SecurityError (HashTokenProvider T) :=
  match keyring.resolveActive nowMs with
  | .error _ => .error .secretUnavailable
  | .ok material => do
      validateMaterial material.secret salts
      .ok { source := .keyring, salts, algorithm := T.sha256 }

variable (provider : HashTokenProvider T) (keyring : FileSecretKeyring) (nowMs : UInt64)

def manager (secret : Bytes) : Except SecurityError T.Manager :=
  match T.new secret provider.salts provider.algorithm with
  | some manager => .ok manager
  | none => .error .invalidToken

def activeManager : Except SecurityError (T.Manager × Option String) :=
  match provider.source with
  | .fixed secret => do
      let manager ← provider.manager secret
      .ok (manager, none)
  | .keyring =>
    match keyring.resolveActive nowMs with
    | .error _ => .error .secretUnavailable
    | .ok material => do
        let manager ← provider.manager material.secret
        .ok (manager, some material.metadata.keyId)

def validationManager (token : Bytes) : Except SecurityError (T.Manager × Bytes) :=
  match provider.source with
  | .fixed secret => do
      let manager ← provider.manager secret
      .ok (manager, token)
  | .keyring => do
      let (keyId, inner) ← unwrapKeyringToken token
      match keyring.resolveForValidation keyId nowMs with
      | .error _ => .error .verificationFailed
      | .ok material => do
          let manager ← provider.manager material.secret
          .ok (manager, inner)

def tokenText (token : Bytes) : Except SecurityError (List Char) :=
  match fromUtf8 token with
  | some token => .ok token
  | none => .error .invalidToken

/-- A token of the library behind the name of its key. -/
def wrapped (keyId : Option String) (token : Option (List Char)) : Except SecurityError Bytes :=
  match token with
  | some token => .ok (wrapKeyringToken keyId (utf8 token))
  | none => .error .invalidToken

/-- `seal`. -/
def sealToken (seed : T.Seed) (payload : Bytes) (claims : TokenClaims) :
    Except SecurityError Bytes := do
  let (manager, keyId) ← provider.activeManager keyring nowMs
  wrapped keyId (T.sealTokenBytes manager nowMs seed payload (generateOptions claims))

/-- `open`. -/
def openToken (token : Bytes) (claims : TokenClaims) : Except SecurityError Bytes := do
  let (manager, token) ← provider.validationManager keyring nowMs token
  let token ← tokenText token
  match T.openTokenBytes manager nowMs token (validateOptions claims) with
  | some payload => .ok payload
  | none => .error .invalidToken

def sign (seed : T.Seed) (payload : Bytes) (claims : TokenClaims) : Except SecurityError Bytes := do
  let (manager, keyId) ← provider.activeManager keyring nowMs
  wrapped keyId (T.generateTokenBytes manager nowMs seed payload (generateOptions claims))

def verify (payload signature : Bytes) (claims : TokenClaims) : Except SecurityError Unit := do
  let (manager, signature) ← provider.validationManager keyring nowMs signature
  let signature ← tokenText signature
  match T.validateTokenBytes manager nowMs signature (validateOptions claims) with
  | some verified => if verified = payload then .ok () else .error .verificationFailed
  | none => .error .verificationFailed

end HashTokenProvider

/-- A manager opens and verifies what one with the same secret and salts has sealed or signed, as long
as the token itself is `live`. A token is never empty. -/
structure LawfulTokens (T : TokenLibrary)
    (live : GenerateTokenOptions → UInt64 → UInt64 → Prop) : Prop where
  opens : ∀ manager issuedMs seed payload claims token,
    T.sealTokenBytes manager issuedMs seed payload (generateOptions claims) = some token →
    ∀ nowMs, live (generateOptions claims) issuedMs nowMs →
      T.openTokenBytes manager nowMs token (validateOptions claims) = some payload
  verifies : ∀ manager issuedMs seed payload claims token,
    T.generateTokenBytes manager issuedMs seed payload (generateOptions claims) = some token →
    ∀ nowMs, live (generateOptions claims) issuedMs nowMs →
      T.validateTokenBytes manager nowMs token (validateOptions claims) = some payload
  sealed : ∀ manager issuedMs seed payload options,
    T.sealTokenBytes manager issuedMs seed payload options ≠ some []
  generated : ∀ manager issuedMs seed payload options,
    T.generateTokenBytes manager issuedMs seed payload options ≠ some []

theorem strBytes_of_isKeyId {keyId : String} (h : IsKeyId keyId) :
    strBytes keyId = keyId.toList.map fun c => UInt8.ofNat c.toNat := by
  refine utf8_of_ascii fun c hc => ?_
  have := toNat_of_isKeyIdChar (h.2.2 c hc)
  omega

theorem span_append {α : Type} {p : α → Bool} {l : List α} (h : ∀ a ∈ l, p a = true) {b : α}
    (hb : p b = false) (r : List α) : (l ++ b :: r).span p = (l, b :: r) := by
  rw [List.span_eq_takeWhile_dropWhile, List.takeWhile_append_of_pos h, List.dropWhile_append_of_pos h,
    List.takeWhile_cons_of_neg (by simp [hb]), List.dropWhile_cons_of_neg (by simp [hb]),
    List.append_nil]

/-- **A token of a key without a dot is unwrapped.** -/
theorem unwrap_wrapKeyringToken {keyId : String} (hkey : IsKeyId keyId) (hdot : '.' ∉ keyId.toList)
    {token : Bytes} (htoken : token ≠ []) :
    unwrapKeyringToken (wrapKeyringToken (some keyId) token) = .ok (keyId, token) := by
  have hfront : (keyringTokenPrefix ++ (strBytes keyId ++ 0x2e :: token)).dropPrefix?
      keyringTokenPrefix = some (strBytes keyId ++ 0x2e :: token) :=
    List.dropPrefix?_append_of_beq _ (by simp)
  have hbytes : ∀ b ∈ strBytes keyId, (b != 0x2e) = true := by
    intro b hb
    rw [strBytes_of_isKeyId hkey] at hb
    obtain ⟨c, hc, rfl⟩ := List.mem_map.1 hb
    rw [bne_iff_ne]
    intro heq
    have hrange := toNat_of_isKeyIdChar (hkey.2.2 c hc)
    have hnat : c.toNat % 256 = 0x2e := congrArg UInt8.toNat heq
    have hc' : c = '.' := Char.toNat_inj.1 (by change c.toNat = 0x2e; omega)
    exact hdot (hc' ▸ hc)
  rw [unwrapKeyringToken, wrapKeyringToken, hfront]
  dsimp only
  rw [span_append hbytes (by decide)]
  dsimp only
  rw [strBytes, fromUtf8_utf8]
  dsimp only
  rw [if_neg (not_or.2 ⟨hkey.1, htoken⟩), String.ofList_toList]

end AppCore.Security
