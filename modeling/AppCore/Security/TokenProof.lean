import AppCore.Security.Token

/-!
# Bearer tokens grant what was issued

**Theorem (`token_grants`).** For a provider that verifies exactly what it signed, with signatures
that are not empty, the validator accepts a token that a factory issued if and only if it asks for
what was issued (`Grants`), and it accepts only tokens whose claims some factory had signed.

Both sides read the same format, so the proof has two parts: the token is parsed back into the
payload and the signature (`parseV1Token_formatToken`) and the payload into the claims
(`claimsFromSlice_claimsToVec`), and the two tables of rules agree on the claims that were issued
(`validateClaimScope_ok`). An empty signature is issued and not parsed back (`empty_signature`).
-/

namespace AppCore.Security

open Json

/-! ## The claims as JSON -/

theorem readOptional_optionalTokens {name : String} (value : Option String) {rest : List Token}
    (hrest : ∀ key t more, rest = .punct ',' :: .str key :: .punct ':' :: .str t :: more →
      key ≠ name.toList) :
    readOptional name (optionalTokens name value ++ rest) = (value, rest) := by
  cases value with
  | some value => simp [optionalTokens, readOptional]
  | none =>
    rw [optionalTokens, List.nil_append]
    unfold readOptional
    split
    next key t more => rw [if_neg (hrest key t more rfl)]
    next => rfl

theorem readNullable_nameTokens (name : Option String) (rest : List Token) :
    readNullable readStr (nameTokens name ++ rest) = some (name, rest) := by
  cases name with
  | none => rfl
  | some name => simp [nameTokens, readNullable, readStr]

theorem expectName_tokens (name : String) (rest : List Token) :
    expectName name (.str name.toList :: .punct ':' :: rest) = some rest := by
  simp [expectName]

theorem readTime_num (n : UInt64) (rest : List Token) :
    readTime (.num n.toNat :: rest) = some (n, rest) := by
  simp [readTime, readBelow_num n.toNat_lt]

theorem readClaims_tokens (claims : RuntimeTokenClaims) :
    readClaims (claimsTokens claims) = some claims := by
  have hnumber {rest : List Token} : ∀ key t more,
      .punct ',' :: memberTokens "issued_at_ms" [.num claims.issuedAtMs.toNat] ',' rest ≠
        .punct ',' :: .str key :: .punct ':' :: .str t :: more := by
    intro key t more heq
    simp [memberTokens] at heq
  have hsubject (rest : List Token) : ∀ key t more,
      optionalTokens "subject" claims.subject ++ (.punct ',' :: memberTokens "issued_at_ms"
        [.num claims.issuedAtMs.toNat] ',' rest) =
        .punct ',' :: .str key :: .punct ':' :: .str t :: more → key ≠ "scope".toList := by
    intro key t more heq
    cases hvalue : claims.subject with
    | none =>
      rw [hvalue] at heq
      exact absurd heq (hnumber key t more)
    | some value =>
      rw [hvalue] at heq
      simp only [optionalTokens, List.cons_append, List.cons.injEq, Token.str.injEq] at heq
      rw [← heq.2.1]
      decide
  have hhash : ∀ key t more, optionalTokens "request_hash" claims.requestHash ++ [.punct '}'] =
      .punct ',' :: .str key :: .punct ':' :: .str t :: more → key ≠ "jti".toList := by
    intro key t more heq
    cases hvalue : claims.requestHash with
    | none =>
      rw [hvalue] at heq
      simp [optionalTokens] at heq
    | some value =>
      rw [hvalue] at heq
      simp only [optionalTokens, List.cons_append, List.cons.injEq, Token.str.injEq] at heq
      rw [← heq.2.1]
      decide
  rw [claimsTokens, readClaims, expect_punct, Option.bind_some,
    readMember_memberTokens (readStr_str _), readMember_memberTokens (readStr_str _)]
  simp only [expectName_tokens, Option.bind_eq_bind, Option.bind_some, readNullable_nameTokens,
    scopedTokens]
  rw [readOptional_optionalTokens _ (hsubject _)]
  dsimp only
  rw [readOptional_optionalTokens _ fun key t more heq => absurd heq (hnumber key t more)]
  simp only [expect_punct, Option.bind_some]
  rw [readMember_memberTokens (readTime_num _)]
  simp only [expectName_tokens, readTime_num, Option.bind_some]
  rw [readOptional_optionalTokens _ hhash]
  dsimp only
  rw [readOptional_optionalTokens _ (by simp)]
  simp

theorem separated_optionalTokens (name : String) (value : Option String) {rest : List Token}
    (hrest : Separated rest) : Separated (optionalTokens name value ++ rest) := by
  cases value with
  | none => exact hrest
  | some value => exact ⟨by decide, by decide, hrest⟩

theorem separated_claims (claims : RuntimeTokenClaims) : Separated (claimsTokens claims) := by
  have hcomma : isPunct ',' = true := by decide
  have hcolon : isPunct ':' = true := by decide
  have hend : Separated [.punct '}'] := ⟨by decide, trivial⟩
  have hlast : Separated (optionalTokens "jti" claims.jti ++
      (optionalTokens "request_hash" claims.requestHash ++ [.punct '}'])) :=
    separated_optionalTokens _ _ (separated_optionalTokens _ _ hend)
  have hnumber : ∀ n more, optionalTokens "jti" claims.jti ++
      (optionalTokens "request_hash" claims.requestHash ++ [.punct '}']) ≠ .num n :: more := by
    intro n more
    cases claims.jti <;> cases claims.requestHash <;> simp [optionalTokens]
  have hscoped : Separated (scopedTokens claims) := by
    refine separated_optionalTokens _ _ (separated_optionalTokens _ _ ⟨hcomma, ?_⟩)
    refine separated_memberTokens _ ⟨by simp, trivial⟩ hcomma ?_
    exact ⟨hcolon, hnumber, hlast⟩
  refine ⟨by decide, ?_⟩
  refine separated_memberTokens _ (show Separated [.str _] from trivial) hcomma ?_
  refine separated_memberTokens _ (show Separated [.str _] from trivial) hcomma ?_
  cases claims.commandName with
  | none => exact ⟨hcolon, hscoped⟩
  | some name => exact ⟨hcolon, hscoped⟩

theorem claimsFromSlice_claimsToVec (claims : RuntimeTokenClaims) :
    claimsFromSlice (claimsToVec claims) = some claims := by
  rw [claimsFromSlice, claimsToVec, fromUtf8_utf8, Option.bind_some,
    lexText_tokens (separated_claims claims), Option.bind_some, readClaims_tokens]

theorem claimsToVec_ne_nil (claims : RuntimeTokenClaims) : claimsToVec claims ≠ [] := by
  rw [claimsToVec, claimsTokens, List.flatMap_cons, utf8, List.flatMap_append]
  exact List.append_ne_nil_of_left_ne_nil (by decide) _

/-- A token is parsed back into its parts when neither is empty. -/
theorem parseV1Token_formatToken {payload signature : Bytes} (hpayload : payload ≠ [])
    (hsignature : signature ≠ []) :
    parseV1Token (formatToken payload signature) = some (payload, signature) := by
  simp only [parseV1Token, formatToken, String.toList_ofList]
  change ((splitOnce '.' (encodeHex payload ++ '.' :: encodeHex signature)).bind _) = _
  rw [splitOnce_append (not_mem_encodeHex payload)]
  simp [decodeHex_encodeHex hpayload, decodeHex_encodeHex hsignature]

/-! ## The rules -/

inductive FactoryCall where
  | createV1 (commandName subject : Option String) (issuedAtMs ttlMs : UInt64)
  | createV1Scoped (commandName scope subject : Option String) (issuedAtMs ttlMs : UInt64)
  | createV1ForPurpose (purpose : String) (commandName subject : Option String)
      (issuedAtMs ttlMs : UInt64)
  | createV1ForPurposeScoped (purpose : String) (commandName scope subject : Option String)
      (issuedAtMs ttlMs : UInt64)
  | createV1WithJtiAndHash (purpose : String) (commandName scope subject : Option String)
      (issuedAtMs ttlMs : UInt64) (jti requestHash : Option String)

namespace FactoryCall

/-- What a call returns. -/
def run (factory : CommandTokenFactory) : FactoryCall → Except CommandTokenError String
  | .createV1 commandName subject issuedAtMs ttlMs =>
    factory.createV1 commandName subject issuedAtMs ttlMs
  | .createV1Scoped commandName scope subject issuedAtMs ttlMs =>
    factory.createV1Scoped commandName scope subject issuedAtMs ttlMs
  | .createV1ForPurpose purpose commandName subject issuedAtMs ttlMs =>
    factory.createV1ForPurpose purpose commandName subject issuedAtMs ttlMs
  | .createV1ForPurposeScoped purpose commandName scope subject issuedAtMs ttlMs =>
    factory.createV1ForPurposeScoped purpose commandName scope subject issuedAtMs ttlMs
  | .createV1WithJtiAndHash purpose commandName scope subject issuedAtMs ttlMs jti requestHash =>
    factory.createV1WithJtiAndHash purpose commandName scope subject issuedAtMs ttlMs jti
      requestHash

/-- The claims with the version and the time of expiry that a call puts into them. -/
def issuedClaims (purpose : String) (commandName scope subject : Option String)
    (issuedAtMs ttlMs : UInt64) (jti requestHash : Option String) : RuntimeTokenClaims :=
  { version := "v1", purpose, commandName, scope, subject, issuedAtMs,
    expiresAtMs := saturatingAdd issuedAtMs ttlMs, jti, requestHash }

/-- The claims a call asks for. -/
def claims : FactoryCall → RuntimeTokenClaims
  | .createV1 commandName subject issuedAtMs ttlMs =>
    issuedClaims "command" commandName none subject issuedAtMs ttlMs none none
  | .createV1Scoped commandName scope subject issuedAtMs ttlMs =>
    issuedClaims "command" commandName scope subject issuedAtMs ttlMs none none
  | .createV1ForPurpose purpose commandName subject issuedAtMs ttlMs =>
    issuedClaims purpose commandName none subject issuedAtMs ttlMs none none
  | .createV1ForPurposeScoped purpose commandName scope subject issuedAtMs ttlMs =>
    issuedClaims purpose commandName scope subject issuedAtMs ttlMs none none
  | .createV1WithJtiAndHash purpose commandName scope subject issuedAtMs ttlMs jti requestHash =>
    issuedClaims purpose commandName scope subject issuedAtMs ttlMs jti requestHash

/-- How long the token of a call is to live. -/
def ttlMs : FactoryCall → UInt64
  | .createV1 _ _ _ ttlMs | .createV1Scoped _ _ _ _ ttlMs | .createV1ForPurpose _ _ _ _ ttlMs
  | .createV1ForPurposeScoped _ _ _ _ _ ttlMs | .createV1WithJtiAndHash _ _ _ _ _ ttlMs _ _ =>
    ttlMs

theorem run_eq (factory : CommandTokenFactory) (call : FactoryCall) :
    call.run factory = (validateGeneratedClaims call.claims.purpose call.claims.commandName
      call.claims.scope call.claims.subject).bind fun _ => factory.issue call.claims := by
  cases call <;> rfl

theorem version_claims (call : FactoryCall) : call.claims.version = "v1" := by
  cases call <;> rfl

theorem expiresAtMs_claims (call : FactoryCall) :
    call.claims.expiresAtMs = saturatingAdd call.claims.issuedAtMs call.ttlMs := by
  cases call <;> rfl

end FactoryCall

/-- The claims were issued for a name: for every one, for none, or for this one. -/
def NameGranted (claims : RuntimeTokenClaims) (name : Option String) : Prop :=
  claims.scope = some "*" ∨ claims.purpose = "sync" ∨ claims.purpose = "peer" ∨
    ∃ issued, claims.commandName = some issued ∧ name = some issued

/-- What the factory lets through: the wildcard of the local administrator, a command or a query
with a name, and a token of a node without one. -/
theorem validateGeneratedClaims_ok {purpose : String} {commandName scope subject : Option String}
    (h : validateGeneratedClaims purpose commandName scope subject = .ok ()) :
    (scope = some "*" ∧ subject = some localAdminSubject ∧
        (purpose = "command" ∨ purpose = "query" ∨ purpose = "peer")) ∨
      ((purpose = "command" ∨ purpose = "query") ∧ (∃ name, commandName = some name) ∧
        scope = none) ∨
      ((purpose = "sync" ∨ purpose = "peer") ∧ commandName = none ∧ scope = none) := by
  unfold validateGeneratedClaims at h
  split at h
  · split at h
    · next hwild => exact Or.inl ⟨hwild.1, hwild.2, Or.inl rfl⟩
    · split at h
      · next hname => exact Or.inr (Or.inl ⟨Or.inl rfl, Option.isSome_iff_exists.1 hname.1, hname.2⟩)
      · cases h
  · split at h
    · next hwild => exact Or.inl ⟨hwild.1, hwild.2, Or.inr (Or.inl rfl)⟩
    · split at h
      · next hname => exact Or.inr (Or.inl ⟨Or.inr rfl, Option.isSome_iff_exists.1 hname.1, hname.2⟩)
      · cases h
  · split at h
    · next hnone => exact Or.inr (Or.inr ⟨Or.inl rfl, hnone⟩)
    · cases h
  · split at h
    · next hwild => exact Or.inl ⟨hwild.1, hwild.2, Or.inr (Or.inr rfl)⟩
    · split at h
      · next hnone => exact Or.inr (Or.inr ⟨Or.inr rfl, hnone⟩)
      · cases h
  · cases h

/-- The table of the validator on claims that the table of the factory let through. -/
theorem validateClaimScope_ok {claims : RuntimeTokenClaims} (name : Option String)
    (h : validateGeneratedClaims claims.purpose claims.commandName claims.scope claims.subject =
      .ok ()) :
    validateClaimScope claims name = .ok () ↔ NameGranted claims name := by
  obtain ⟨hscope, hsubject, hpurpose⟩ | ⟨hpurpose, ⟨issued, hissued⟩, hscope⟩ |
    ⟨hpurpose, hname, hscope⟩ := validateGeneratedClaims_ok h
  · have hgranted : NameGranted claims name := Or.inl hscope
    refine iff_of_true ?_ hgranted
    rcases hpurpose with hpurpose | hpurpose | hpurpose
    · simp [validateClaimScope, hpurpose, hscope, hsubject]
    · simp [validateClaimScope, hpurpose, hscope, hsubject]
    · simp [validateClaimScope, hpurpose, hscope, hsubject]
  · have hgranted : NameGranted claims name ↔ name = some issued := by
      rcases hpurpose with hpurpose | hpurpose
      · simp [NameGranted, hpurpose, hscope, hissued]
      · simp [NameGranted, hpurpose, hscope, hissued]
    have hrule : validateClaimScope claims name = .ok () ↔ name = some issued := by
      rcases hpurpose with hpurpose | hpurpose
      · cases name with
        | none => simp [validateClaimScope, hpurpose, hscope, hissued]
        | some expected =>
          simp [validateClaimScope, hpurpose, hscope, hissued, eq_comm (a := issued)]
      · cases name with
        | none => simp [validateClaimScope, hpurpose, hscope, hissued]
        | some expected =>
          simp [validateClaimScope, hpurpose, hscope, hissued, eq_comm (a := issued)]
    rw [hrule, hgranted]
  · rcases hpurpose with hpurpose | hpurpose
    · refine iff_of_true ?_ (Or.inr (Or.inl hpurpose))
      simp [validateClaimScope, hpurpose, hscope, hname]
    · refine iff_of_true ?_ (Or.inr (Or.inr (Or.inl hpurpose)))
      simp [validateClaimScope, hpurpose, hscope, hname]

/-- What a validator asks for when it is given claims: their purpose at a time before they expire,
a name they are granted for, and the hash of the request they are bound to. -/
structure Grants (call : FactoryCall) (purpose : String) (name : Option String) (nowMs : UInt64)
    (requestHash : Option String) : Prop where
  purpose : purpose = call.claims.purpose
  alive : nowMs < saturatingAdd call.claims.issuedAtMs call.ttlMs
  name : NameGranted call.claims name
  bound : ∀ hash, call.claims.requestHash = some hash → requestHash = some hash

/-- Claims that a factory let through pass the checks exactly when they grant what is asked for. -/
theorem checkClaims_ok {call : FactoryCall} (purpose : String) (name : Option String)
    (nowMs : UInt64) (requestHash : Option String)
    (h : validateGeneratedClaims call.claims.purpose call.claims.commandName call.claims.scope
      call.claims.subject = .ok ()) (claims : RuntimeTokenClaims) :
    CommandTokenValidator.checkClaims call.claims purpose name nowMs requestHash = .ok claims ↔
      claims = call.claims ∧ Grants call purpose name nowMs requestHash := by
  have hname := validateClaimScope_ok name h
  unfold CommandTokenValidator.checkClaims
  rw [call.version_claims, call.expiresAtMs_claims]
  by_cases hpurpose : call.claims.purpose = purpose
  · by_cases halive : saturatingAdd call.claims.issuedAtMs call.ttlMs ≤ nowMs
    · rw [if_neg (by simp [hpurpose]), if_pos halive]
      refine iff_of_false (fun hfailed => by cases hfailed) fun hgrants => ?_
      exact absurd hgrants.2.alive (UInt64.not_lt.2 halive)
    · rw [if_neg (by simp [hpurpose]), if_neg halive]
      cases hscope : validateClaimScope call.claims name with
      | error e =>
        refine iff_of_false (fun hfailed => by cases hfailed) fun hgrants => ?_
        rw [hname.2 hgrants.2.name] at hscope
        cases hscope
      | ok u =>
        refine Iff.trans (?_ : _ ↔ claims = call.claims ∧ ∀ hash,
          call.claims.requestHash = some hash → requestHash = some hash) ⟨?_, ?_⟩
        · cases call.claims.requestHash with
          | none => simp [eq_comm]
          | some hash =>
            cases requestHash with
            | none => simp
            | some expected =>
              by_cases heq : hash = expected
              · simp [heq, eq_comm]
              · simp [heq, Ne.symm heq]
        · intro h
          exact ⟨h.1, hpurpose.symm, UInt64.not_le.1 halive, hname.1 hscope, h.2⟩
        · intro h
          exact ⟨h.1, h.2.bound⟩
  · rw [if_pos (Or.inr hpurpose)]
    exact iff_of_false (fun hfailed => by cases hfailed) fun hgrants =>
      hpurpose hgrants.2.purpose.symm

/-! ## Histories -/

/-- A call that was made on a factory. -/
structure Issued where
  factory : CommandTokenFactory
  call : FactoryCall

/-- A call whose claims were let through, and the payload and the signature its provider made. -/
def Issued.Signed (issued : Issued) (payload signature : Bytes) (claims : TokenClaims) : Prop :=
  issued.factory.claims = claims ∧ payload = claimsToVec issued.call.claims ∧
    validateGeneratedClaims issued.call.claims.purpose issued.call.claims.commandName
      issued.call.claims.scope issued.call.claims.subject = .ok () ∧
    issued.factory.provider.sign payload claims = .ok signature

/-- The token that a call returns is made of what it signed. -/
theorem run_ok {issued : Issued} {token : String} (h : issued.call.run issued.factory = .ok token) :
    ∃ signature, issued.Signed (claimsToVec issued.call.claims) signature issued.factory.claims ∧
      token = formatToken (claimsToVec issued.call.claims) signature := by
  rw [FactoryCall.run_eq] at h
  cases hrules : validateGeneratedClaims issued.call.claims.purpose issued.call.claims.commandName
      issued.call.claims.scope issued.call.claims.subject with
  | error e =>
    rw [hrules, Except.bind] at h
    exact nomatch h
  | ok u =>
    rw [hrules, Except.bind] at h
    cases hsign : issued.factory.provider.sign (claimsToVec issued.call.claims)
        issued.factory.claims with
    | error e => simp [CommandTokenFactory.issue, hsign] at h
    | ok signature =>
      have hissue : issued.factory.issue issued.call.claims =
          .ok (formatToken (claimsToVec issued.call.claims) signature) := by
        rw [CommandTokenFactory.issue, hsign]
      rw [hissue] at h
      exact ⟨signature, ⟨rfl, rfl, hrules, hsign⟩, (Except.ok.inj h).symm⟩

/-- **Bearer tokens grant exactly what was issued**, when no signature is empty. -/
theorem token_grants (validator : CommandTokenValidator) (history : List Issued)
    (hverify : ∀ payload signature, validator.provider.verify payload signature validator.claims =
      .ok () ↔ ∃ issued ∈ history, issued.Signed payload signature validator.claims)
    (hsigned : ∀ issued ∈ history, ∀ payload signature,
      issued.Signed payload signature validator.claims → signature ≠ []) :
    (∀ issued ∈ history, issued.factory.claims = validator.claims → ∀ token,
      issued.call.run issued.factory = .ok token → ∀ purpose name nowMs requestHash claims,
        validator.validateAndGetClaims token purpose name nowMs requestHash = .ok claims ↔
          claims = issued.call.claims ∧ Grants issued.call purpose name nowMs requestHash) ∧
    ∀ token purpose name nowMs requestHash claims,
      validator.validateAndGetClaims token purpose name nowMs requestHash = .ok claims →
        ∃ payload signature, parseV1Token token = some (payload, signature) ∧
          ∃ issued ∈ history, issued.Signed payload signature validator.claims := by
  constructor
  · intro issued hissued hclaims token hrun purpose name nowMs requestHash claims
    obtain ⟨signature, hsign, rfl⟩ := run_ok hrun
    rw [hclaims] at hsign
    have hparse := parseV1Token_formatToken (claimsToVec_ne_nil issued.call.claims)
      (hsigned issued hissued _ _ hsign)
    have hok := (hverify _ _).2 ⟨issued, hissued, hsign⟩
    rw [CommandTokenValidator.validateAndGetClaims, hparse]
    dsimp only
    rw [hok, claimsFromSlice_claimsToVec]
    exact checkClaims_ok purpose name nowMs requestHash hsign.2.2.1 claims
  · intro token purpose name nowMs requestHash claims hvalid
    unfold CommandTokenValidator.validateAndGetClaims at hvalid
    split at hvalid
    · cases hvalid
    next payload signature hparse =>
      split at hvalid
      · cases hvalid
      next hok => exact ⟨payload, signature, hparse, (hverify _ _).1 hok⟩

/-! ## An empty signature -/

/-- The command `runtime.ping`, for five seconds. -/
def pingCall : FactoryCall := .createV1 (some "runtime.ping") none 1000 5000

/-- A provider that signs with fixed bytes, and verifies the one payload that was signed. -/
def fixedProvider (signature : Bytes) : TokenProvider where
  sealToken _ _ := .error (.unsupported "seal")
  openToken _ _ := .error (.unsupported "open")
  sign _ _ := .ok signature
  verify payload given _ :=
    if payload = claimsToVec pingCall.claims ∧ given = signature then .ok ()
    else .error .verificationFailed

/-- The claims of the provider. -/
def pingClaims : TokenClaims := { issuer := "runtime", audience := "peer", salt := "s", ttlMs := 0 }

/-- The one call that is made. -/
def pingIssued (signature : Bytes) : Issued :=
  { factory := { provider := fixedProvider signature, claims := pingClaims }, call := pingCall }

theorem fixedProvider_verify (signature payload given : Bytes) :
    (fixedProvider signature).verify payload given pingClaims = .ok () ↔
      ∃ issued ∈ [pingIssued signature], issued.Signed payload given pingClaims := by
  have hrules : validateGeneratedClaims pingCall.claims.purpose pingCall.claims.commandName
      pingCall.claims.scope pingCall.claims.subject = .ok () := by decide
  simp only [List.mem_singleton, exists_eq_left, Issued.Signed, pingIssued, fixedProvider, hrules,
    true_and, Except.ok.injEq]
  split
  next h => simp [h]
  next h => simpa [eq_comm (a := signature)] using h

theorem pingCall_run (signature : Bytes) :
    pingCall.run { provider := fixedProvider signature, claims := pingClaims } =
      .ok (formatToken (claimsToVec pingCall.claims) signature) := by
  have hrules : validateGeneratedClaims pingCall.claims.purpose pingCall.claims.commandName
      pingCall.claims.scope pingCall.claims.subject = .ok () := by decide
  rw [FactoryCall.run_eq, hrules]
  rfl

theorem pingCall_grants : Grants pingCall "command" (some "runtime.ping") 2000 none :=
  ⟨rfl, by decide, Or.inr (Or.inr (Or.inr ⟨"runtime.ping", rfl, rfl⟩)), nofun⟩

theorem token_grants_ping :
    (⟨fixedProvider [1], pingClaims⟩ : CommandTokenValidator).validateAndGetClaims
      (formatToken (claimsToVec pingCall.claims) [1]) "command" (some "runtime.ping") 2000 none =
        .ok pingCall.claims := by
  have hsigned : ∀ issued ∈ [pingIssued [1]], ∀ payload signature,
      issued.Signed payload signature pingClaims → signature ≠ [] := by
    rintro issued hissued payload signature ⟨-, -, -, hsign⟩
    rw [List.mem_singleton.1 hissued] at hsign
    have hsame : signature = [1] := (Except.ok.inj hsign).symm
    simp [hsame]
  have hgrants := token_grants ⟨fixedProvider [1], pingClaims⟩ [pingIssued [1]]
    (fixedProvider_verify [1]) hsigned
  have hping := hgrants.1 (pingIssued [1]) (List.mem_singleton_self _) rfl
    (formatToken (claimsToVec pingCall.claims) [1]) (pingCall_run [1]) "command"
    (some "runtime.ping") 2000 none pingCall.claims
  exact hping.2 ⟨rfl, pingCall_grants⟩

theorem parseV1Token_empty (payload : Bytes) : parseV1Token (formatToken payload []) = none := by
  simp only [parseV1Token, formatToken, String.toList_ofList]
  change ((splitOnce '.' (encodeHex payload ++ '.' :: encodeHex [])).bind _) = _
  rw [splitOnce_append (not_mem_encodeHex _), Option.bind_some]
  have hnone : decodeHex (encodeHex []) = none := rfl
  cases decodeHex (encodeHex payload) with
  | none => simp
  | some bytes => simp [hnone]

theorem validateAndGetClaims_of_none (validator : CommandTokenValidator) {token : String}
    (h : parseV1Token token = none) (purpose : String) (name : Option String) (nowMs : UInt64)
    (requestHash : Option String) :
    validator.validateAndGetClaims token purpose name nowMs requestHash = .error .invalidFormat := by
  rw [CommandTokenValidator.validateAndGetClaims, h]

/-- A provider whose signature is empty verifies exactly what it signed, and the token that is
issued is not in the format the validator reads. -/
theorem empty_signature :
    (∀ payload signature, (fixedProvider []).verify payload signature pingClaims = .ok () ↔
      ∃ issued ∈ [pingIssued []], issued.Signed payload signature pingClaims) ∧
    pingCall.run { provider := fixedProvider [], claims := pingClaims } =
      .ok (formatToken (claimsToVec pingCall.claims) []) ∧
    Grants pingCall "command" (some "runtime.ping") 2000 none ∧
    (⟨fixedProvider [], pingClaims⟩ : CommandTokenValidator).validateAndGetClaims
      (formatToken (claimsToVec pingCall.claims) []) "command" (some "runtime.ping") 2000 none =
        .error .invalidFormat := by
  exact ⟨fixedProvider_verify [], pingCall_run [], pingCall_grants,
    validateAndGetClaims_of_none _ (parseV1Token_empty _) _ _ _ _⟩

end AppCore.Security
