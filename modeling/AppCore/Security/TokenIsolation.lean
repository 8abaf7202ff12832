import AppCore.Base.Delimited
import AppCore.Security.HashToken

/-!
# What separates tokens

Claims name an issuer, an audience and a salt label. The first two go into the options of both sides
(`generate_options`, `validate_options`), the label into neither. So a token is good for every claims
with its issuer and audience:

* `isolated_iff` — claims keep their tokens apart when the issuer or the audience differs, and no
  label does it alone.

A token of a keyring is framed by the key it was made with, and a reader may cut the frame elsewhere.
Whatever it cuts, the token of the library is at the end of it.
-/

namespace AppCore.Security

/-- The library accepts what it made only when issuer and audience are those it was made with, and
nothing that has one of its tokens behind something else. -/
structure CheckedTokens (T : TokenLibrary) : Prop where
  opens : ∀ manager issuedMs seed payload options token,
    T.sealTokenBytes manager issuedMs seed payload options = some token →
    ∀ manager' nowMs expected found, T.openTokenBytes manager' nowMs token expected = some found →
      options.issuer = expected.issuer ∧ options.audience = expected.audience
  verifies : ∀ manager issuedMs seed payload options token,
    T.generateTokenBytes manager issuedMs seed payload options = some token →
    ∀ manager' nowMs expected found,
      T.validateTokenBytes manager' nowMs token expected = some found →
      options.issuer = expected.issuer ∧ options.audience = expected.audience
  opensWhole : ∀ manager issuedMs seed payload options token,
    T.sealTokenBytes manager issuedMs seed payload options = some token →
    ∀ manager' nowMs expected text found,
      T.openTokenBytes manager' nowMs text expected = some found → utf8 token <:+ utf8 text →
      text = token
  verifiesWhole : ∀ manager issuedMs seed payload options token,
    T.generateTokenBytes manager issuedMs seed payload options = some token →
    ∀ manager' nowMs expected text found,
      T.validateTokenBytes manager' nowMs text expected = some found → utf8 token <:+ utf8 text →
      text = token

/-! ## The frame of a token -/

theorem suffix_dropWhile {p : UInt8 → Bool} {b : UInt8} (hb : p b = false) (front rest : Bytes) :
    b :: rest <:+ (front ++ b :: rest).dropWhile p := by
  induction front with
  | nil =>
    rw [List.nil_append, List.dropWhile_cons_of_neg (by simp [hb])]
  | cons x front ih =>
    rw [List.cons_append, List.dropWhile_cons]
    by_cases hx : p x = true
    · rw [if_pos hx]
      exact ih
    · rw [if_neg hx]
      exact List.suffix_append (x :: front) (b :: rest)

/-- Wherever the frame is cut, the token is at the end. -/
theorem suffix_of_unwrap {keyId found : String} {token inner : Bytes}
    (h : unwrapKeyringToken (wrapKeyringToken (some keyId) token) = .ok (found, inner)) :
    token <:+ inner := by
  have hfront : (keyringTokenPrefix ++ (strBytes keyId ++ 0x2e :: token)).dropPrefix?
      keyringTokenPrefix = some (strBytes keyId ++ 0x2e :: token) :=
    List.dropPrefix?_append_of_beq _ (by simp)
  rw [unwrapKeyringToken, wrapKeyringToken, hfront] at h
  dsimp only at h
  have hsuffix := @suffix_dropWhile (· != 0x2e) 0x2e (by decide) (strBytes keyId) token
  rw [List.span_eq_takeWhile_dropWhile] at h
  split at h
  · cases h
  · rename_i keyBytes b rest hcut
    obtain ⟨-, hcut⟩ := Prod.mk.inj hcut
    rw [hcut] at hsuffix
    split at h
    · cases h
    · split at h
      · cases h
      · cases h
        -- the first dot is at the end of the key identifier or inside it
        rcases List.suffix_cons_iff.1 hsuffix with heq | htail
        · rw [(List.cons.inj heq).2]
        · exact (List.suffix_cons 0x2e token).trans htail

section

variable {T : TokenLibrary} {provider : HashTokenProvider T} {keyring : FileSecretKeyring}
  {nowMs : UInt64}

/-- A token of the provider: one of the library, by itself or behind the name of a key. -/
def Framed (provider : HashTokenProvider T) (text : List Char) (token : Bytes) : Prop :=
  (∃ secret, provider.source = .fixed secret ∧ token = utf8 text) ∨
    provider.source = .keyring ∧ ∃ keyId, token = wrapKeyringToken (some keyId) (utf8 text)

/-- What `seal` and `sign` have in common: the library makes the token. -/
theorem framed_of_wrapped (make : T.Manager → Option (List Char)) {token : Bytes}
    (h : (do
      let (manager, keyId) ← provider.activeManager keyring nowMs
      HashTokenProvider.wrapped keyId (make manager)) = .ok token) :
    ∃ manager text, make manager = some text ∧ Framed provider text token := by
  obtain ⟨⟨manager, keyId⟩, hmanager, hwrapped⟩ := bind_eq_ok.1 h
  dsimp only at hwrapped
  cases hmake : make manager with
  | none =>
    rw [hmake] at hwrapped
    cases hwrapped
  | some text =>
    rw [hmake] at hwrapped
    obtain rfl := Except.ok.inj hwrapped
    refine ⟨manager, text, hmake, ?_⟩
    unfold HashTokenProvider.activeManager at hmanager
    split at hmanager
    · rename_i secret hsource
      obtain ⟨manager', -, heq⟩ := bind_eq_ok.1 hmanager
      cases heq
      exact Or.inl ⟨secret, hsource, rfl⟩
    · rename_i hsource
      split at hmanager
      · cases hmanager
      · obtain ⟨manager', -, heq⟩ := bind_eq_ok.1 hmanager
        cases heq
        exact Or.inr ⟨hsource, _, rfl⟩

/-- What `open` and `verify` have in common: the text that the library reads ends in its token. -/
theorem suffix_of_framed {text : List Char} {token inner : Bytes} {manager : T.Manager}
    (hframed : Framed provider text token)
    (h : provider.validationManager keyring nowMs token = .ok (manager, inner)) :
    utf8 text <:+ inner := by
  rcases hframed with ⟨secret, hsource, rfl⟩ | ⟨hsource, keyId, rfl⟩
  · rw [HashTokenProvider.validationManager, hsource] at h
    obtain ⟨manager', -, heq⟩ := bind_eq_ok.1 h
    cases heq
    exact List.suffix_rfl
  · rw [HashTokenProvider.validationManager, hsource] at h
    obtain ⟨⟨found, inner'⟩, hunwrap, h⟩ := bind_eq_ok.1 h
    dsimp only at h
    split at h
    · cases h
    · obtain ⟨manager', -, heq⟩ := bind_eq_ok.1 h
      cases heq
      exact suffix_of_unwrap hunwrap

theorem utf8_of_tokenText {token : Bytes} {text : List Char}
    (h : HashTokenProvider.tokenText token = .ok text) : utf8 text = token := by
  unfold HashTokenProvider.tokenText at h
  split at h
  · rename_i found hfound
    cases h
    exact utf8_of_fromUtf8 hfound
  · cases h

/-- A sealed token is opened only under its own issuer and audience. -/
theorem claims_of_openToken (hT : CheckedTokens T) {issuedMs : UInt64} {seed : T.Seed}
    {payload token found : Bytes} {claims claims' : TokenClaims} {keyring' : FileSecretKeyring}
    (hseal : provider.sealToken keyring issuedMs seed payload claims = .ok token)
    (hopen : provider.openToken keyring' nowMs token claims' = .ok found) :
    claims.issuer = claims'.issuer ∧ claims.audience = claims'.audience := by
  obtain ⟨manager, text, hmake, hframed⟩ := framed_of_wrapped
    (fun manager => T.sealTokenBytes manager issuedMs seed payload (generateOptions claims)) hseal
  obtain ⟨⟨manager', inner⟩, hmanager, hopen⟩ := bind_eq_ok.1 hopen
  obtain ⟨text', htext, hopen⟩ := bind_eq_ok.1 hopen
  have hsuffix := suffix_of_framed hframed hmanager
  rw [← utf8_of_tokenText htext] at hsuffix
  split at hopen
  · rename_i payload' haccepted
    obtain rfl := hT.opensWhole _ _ _ _ _ _ hmake _ _ _ _ _ haccepted hsuffix
    exact hT.opens _ _ _ _ _ _ hmake _ _ _ _ haccepted
  · cases hopen

/-- A signature is verified only under its own issuer and audience. -/
theorem claims_of_verify (hT : CheckedTokens T) {issuedMs : UInt64} {seed : T.Seed}
    {payload signature payload' : Bytes} {claims claims' : TokenClaims}
    {keyring' : FileSecretKeyring}
    (hsign : provider.sign keyring issuedMs seed payload claims = .ok signature)
    (hverify : provider.verify keyring' nowMs payload' signature claims' = .ok ()) :
    claims.issuer = claims'.issuer ∧ claims.audience = claims'.audience := by
  obtain ⟨manager, text, hmake, hframed⟩ := framed_of_wrapped
    (fun manager => T.generateTokenBytes manager issuedMs seed payload (generateOptions claims)) hsign
  obtain ⟨⟨manager', inner⟩, hmanager, hverify⟩ := bind_eq_ok.1 hverify
  obtain ⟨text', htext, hverify⟩ := bind_eq_ok.1 hverify
  have hsuffix := suffix_of_framed hframed hmanager
  rw [← utf8_of_tokenText htext] at hsuffix
  split at hverify
  · rename_i verified haccepted
    obtain rfl := hT.verifiesWhole _ _ _ _ _ _ hmake _ _ _ _ _ haccepted hsuffix
    exact hT.verifies _ _ _ _ _ _ hmake _ _ _ _ haccepted
  · cases hverify

end

/-! ## Isolation -/

/-- The fields that are to keep tokens apart. -/
def Agree (claims claims' : TokenClaims) : Prop :=
  claims.issuer = claims'.issuer ∧ claims.audience = claims'.audience ∧ claims.salt = claims'.salt

/-- No token made under some claims is accepted under others, whatever happened to the keyring. -/
structure Isolated {T : TokenLibrary} (provider : HashTokenProvider T)
    (claims claims' : TokenClaims) : Prop where
  opens : ∀ keyring issuedMs seed payload token,
    provider.sealToken keyring issuedMs seed payload claims = .ok token →
    ∀ keyring' nowMs found, provider.openToken keyring' nowMs token claims' = .ok found →
      Agree claims claims'
  verifies : ∀ keyring issuedMs seed payload signature,
    provider.sign keyring issuedMs seed payload claims = .ok signature →
    ∀ keyring' nowMs payload',
      provider.verify keyring' nowMs payload' signature claims' = .ok () → Agree claims claims'

/-- The provider makes a token under these claims that it accepts under them. -/
def Issues {T : TokenLibrary} (provider : HashTokenProvider T) (claims : TokenClaims) : Prop :=
  (∃ keyring issuedMs seed payload token keyring' nowMs found,
    provider.sealToken keyring issuedMs seed payload claims = .ok token ∧
    provider.openToken keyring' nowMs token claims = .ok found) ∨
  ∃ keyring issuedMs seed payload signature keyring' nowMs payload',
    provider.sign keyring issuedMs seed payload claims = .ok signature ∧
    provider.verify keyring' nowMs payload' signature claims = .ok ()

theorem validateOptions_eq {claims claims' : TokenClaims} (hissuer : claims.issuer = claims'.issuer)
    (haudience : claims.audience = claims'.audience) :
    validateOptions claims = validateOptions claims' := by
  rw [validateOptions, validateOptions, hissuer, haudience]

/-- **The label alone separates nothing.** Claims keep their tokens apart when they cannot agree on
issuer and audience without agreeing on the label. Where a provider issues anything at all, that is
also needed. -/
theorem isolated_iff {T : TokenLibrary} (hT : CheckedTokens T) (provider : HashTokenProvider T)
    (claims claims' : TokenClaims) :
    ((claims.issuer = claims'.issuer → claims.audience = claims'.audience →
        claims.salt = claims'.salt) → Isolated provider claims claims') ∧
    (Issues provider claims → (Isolated provider claims claims' ↔
      (claims.issuer = claims'.issuer → claims.audience = claims'.audience →
        claims.salt = claims'.salt))) := by
  have hkept (hlabel : claims.issuer = claims'.issuer → claims.audience = claims'.audience →
      claims.salt = claims'.salt) : Isolated provider claims claims' := by
    constructor
    · intro keyring issuedMs seed payload token hseal keyring' nowMs found hopen
      obtain ⟨hissuer, haudience⟩ := claims_of_openToken hT hseal hopen
      exact ⟨hissuer, haudience, hlabel hissuer haudience⟩
    · intro keyring issuedMs seed payload signature hsign keyring' nowMs payload' hverify
      obtain ⟨hissuer, haudience⟩ := claims_of_verify hT hsign hverify
      exact ⟨hissuer, haudience, hlabel hissuer haudience⟩
  refine ⟨hkept, fun hissues => ⟨fun hisolated hissuer haudience => ?_, hkept⟩⟩
  have hoptions := validateOptions_eq hissuer haudience
  rcases hissues with ⟨keyring, issuedMs, seed, payload, token, keyring', nowMs, found, hseal, hopen⟩ |
    ⟨keyring, issuedMs, seed, payload, signature, keyring', nowMs, payload', hsign, hverify⟩
  · rw [HashTokenProvider.openToken, hoptions] at hopen
    exact (hisolated.opens _ _ _ _ _ hseal _ _ _ hopen).2.2
  · rw [HashTokenProvider.verify, hoptions] at hverify
    exact (hisolated.verifies _ _ _ _ _ hsign _ _ _ hverify).2.2

/-! ## A library that checks issuer and audience -/

/-- A field that ends with a dash. -/
def dashed (bytes : Bytes) : List Char := lowerHex bytes ++ ['-']

/-- The front of a token: its secret, issuer and audience. -/
def tokenFront (secret : Bytes) (issuer audience : String) : List Char :=
  't' :: (dashed secret ++ (dashed (strBytes issuer) ++ dashed (strBytes audience)))

def payloadBehind (front text : List Char) : Option Bytes :=
  (text.dropPrefix? front).bind fun rest =>
    (fromHexPairs (utf8 rest)).bind fun payload => if rest = lowerHex payload then some payload else none

/-- A library whose tokens are the secret, the issuer, the audience and the payload. They do not
expire. -/
def labelledTokens : TokenLibrary where
  Algorithm := Unit
  sha256 := ()
  Manager := Bytes
  Seed := Unit
  new secret _ _ := some secret
  sealTokenBytes secret _ _ payload options :=
    some (tokenFront secret options.issuer options.audience ++ lowerHex payload)
  openTokenBytes secret _ text expected :=
    payloadBehind (tokenFront secret expected.issuer expected.audience) text
  generateTokenBytes secret _ _ payload options :=
    some (tokenFront secret options.issuer options.audience ++ lowerHex payload)
  validateTokenBytes secret _ text expected :=
    payloadBehind (tokenFront secret expected.issuer expected.audience) text

theorem payloadBehind_eq_some {front text : List Char} {payload : Bytes}
    (h : payloadBehind front text = some payload) : text = front ++ lowerHex payload := by
  unfold payloadBehind at h
  obtain ⟨rest, hrest, h⟩ := Option.bind_eq_some_iff.1 h
  obtain ⟨found, -, h⟩ := Option.bind_eq_some_iff.1 h
  split at h
  · rename_i hhex
    cases h
    rw [← hhex]
    obtain ⟨front', htext, hfront⟩ := List.dropPrefix?_eq_some_iff.1 hrest
    rw [htext, beq_iff_eq.1 hfront]
  · cases h

theorem dashed_append {a b : Bytes} {r r' : List Char} (h : dashed a ++ r = dashed b ++ r') :
    a = b ∧ r = r' := by
  have hdash (bytes : Bytes) : '-' ∉ lowerHex bytes := by
    intro hmem
    exact absurd (isHexDigit_of_mem_lowerHex hmem) (by decide)
  have hsplit := congrArg (splitOnce '-') h
  rw [dashed, dashed, List.append_assoc, List.append_assoc, List.singleton_append,
    List.singleton_append, splitOnce_append (hdash a), splitOnce_append (hdash b)] at hsplit
  obtain ⟨hhex, hrest⟩ := Prod.mk.inj (Option.some.inj hsplit)
  refine ⟨?_, hrest⟩
  have hbytes := fromHexPairs_utf8_lowerHex a
  rw [hhex, fromHexPairs_utf8_lowerHex] at hbytes
  exact (Option.some.inj hbytes).symm

theorem tokenFront_append {secret secret' : Bytes} {issuer issuer' audience audience' : String}
    {r r' : List Char}
    (h : tokenFront secret issuer audience ++ r = tokenFront secret' issuer' audience' ++ r') :
    issuer = issuer' ∧ audience = audience' := by
  rw [tokenFront, tokenFront, List.cons_append, List.cons_append] at h
  have htail := List.tail_eq_of_cons_eq h
  simp only [List.append_assoc] at htail
  obtain ⟨-, htail⟩ := dashed_append htail
  obtain ⟨hissuer, htail⟩ := dashed_append htail
  exact ⟨strBytes_injective hissuer, strBytes_injective (dashed_append htail).1⟩

/-- The letter in front of a token is nowhere else in it. -/
theorem tokenMark_not_mem (secret payload : Bytes) (issuer audience : String) :
    0x74 ∉ utf8 ((dashed secret ++ (dashed (strBytes issuer) ++ dashed (strBytes audience))) ++
      lowerHex payload) := by
  have hchar : ∀ c ∈ (dashed secret ++ (dashed (strBytes issuer) ++ dashed (strBytes audience))) ++
      lowerHex payload, isHexDigit c = true ∨ c = '-' := by
    have hdashed (bytes : Bytes) : ∀ c ∈ dashed bytes, isHexDigit c = true ∨ c = '-' := by
      intro c hc
      rcases List.mem_append.1 hc with hc | hc
      · exact Or.inl (isHexDigit_of_mem_lowerHex hc)
      · exact Or.inr (List.mem_singleton.1 hc)
    intro c hc
    rcases List.mem_append.1 hc with hc | hc
    · rcases List.mem_append.1 hc with hc | hc
      · exact hdashed _ c hc
      · rcases List.mem_append.1 hc with hc | hc
        · exact hdashed _ c hc
        · exact hdashed _ c hc
    · exact Or.inl (isHexDigit_of_mem_lowerHex hc)
  intro hmem
  obtain ⟨c, hc, hbyte⟩ := List.mem_flatMap.1 hmem
  have hascii : c.toNat < 128 := by
    rcases hchar c hc with hhex | rfl
    · exact toNat_lt_of_isHexDigit hhex
    · decide
  rw [utf8EncodeChar_of_ascii hascii, List.mem_singleton] at hbyte
  have hnat : 0x74 = c.toNat % 256 := congrArg UInt8.toNat hbyte
  have hmark : c = 't' := Char.toNat_inj.1 (by change c.toNat = 0x74; omega)
  rcases hchar c hc with hhex | hdash
  · rw [hmark] at hhex
    exact absurd hhex (by decide)
  · rw [hmark] at hdash
    exact absurd hdash (by decide)

theorem utf8_mark (rest : List Char) : utf8 ('t' :: rest) = 0x74 :: utf8 rest := by
  have hmark := utf8EncodeChar_of_ascii (c := 't') (by decide)
  rw [utf8, List.flatMap_cons, hmark]
  rfl

theorem checked_labelledTokens : CheckedTokens labelledTokens := by
  have hopens (secret payload : Bytes) (options : GenerateTokenOptions) (secret' found : Bytes)
      (expected : ValidateTokenOptions)
      (h : payloadBehind (tokenFront secret' expected.issuer expected.audience)
        (tokenFront secret options.issuer options.audience ++ lowerHex payload) = some found) :
      options.issuer = expected.issuer ∧ options.audience = expected.audience :=
    tokenFront_append (payloadBehind_eq_some h)
  have hwhole (secret payload : Bytes) (options : GenerateTokenOptions) (secret' found : Bytes)
      (expected : ValidateTokenOptions) (text : List Char)
      (h : payloadBehind (tokenFront secret' expected.issuer expected.audience) text = some found)
      (hsuffix : utf8 (tokenFront secret options.issuer options.audience ++ lowerHex payload) <:+
        utf8 text) :
      text = tokenFront secret options.issuer options.audience ++ lowerHex payload := by
    obtain rfl := payloadBehind_eq_some h
    rw [tokenFront, tokenFront, List.cons_append, List.cons_append, utf8_mark, utf8_mark] at hsuffix
    rcases List.suffix_cons_iff.1 hsuffix with heq | htail
    · rw [← utf8_mark, ← utf8_mark] at heq
      have htext := congrArg fromUtf8 heq
      rw [fromUtf8_utf8, fromUtf8_utf8] at htext
      exact (Option.some.inj htext).symm
    · exact absurd (htail.subset List.mem_cons_self)
        (tokenMark_not_mem secret' found expected.issuer expected.audience)
  constructor
  · intro manager _ _ payload options token htoken manager' _ expected found h
    cases htoken
    exact hopens manager payload options manager' found expected h
  · intro manager _ _ payload options token htoken manager' _ expected found h
    cases htoken
    exact hopens manager payload options manager' found expected h
  · intro manager _ _ payload options token htoken manager' _ expected text found h hsuffix
    cases htoken
    exact hwhole manager payload options manager' found expected text h hsuffix
  · intro manager _ _ payload options token htoken manager' _ expected text found h hsuffix
    cases htoken
    exact hwhole manager payload options manager' found expected text h hsuffix

/-! ## Peer claims -/

/-- `HashTokenPeerAuthenticator::new` and `HashTokenPeerTokenIssuer::new`: the claims are scoped to
peer calls by their label. -/
def peerClaims (claims : TokenClaims) : TokenClaims := { claims with salt := "peer" }

/-- A provider with a secret of its own. -/
def labelledProvider : HashTokenProvider labelledTokens :=
  { source := .fixed (List.replicate 16 1), salts := [[1]], algorithm := () }

/-- The claims of one deployment, under another label. -/
def gatewayClaims : TokenClaims := ⟨"core", "core", "gateway", 0⟩

/-- A token that is sealed for the gateway. -/
def gatewayToken : Bytes :=
  utf8 (tokenFront (List.replicate 16 1) gatewayClaims.issuer gatewayClaims.audience ++ lowerHex [7])

theorem sealToken_gateway : labelledProvider.sealToken .empty 0 () [7] gatewayClaims =
    .ok gatewayToken := rfl

theorem openToken_gateway :
    labelledProvider.openToken .empty 0 gatewayToken gatewayClaims = .ok [7] := by
  decide

theorem isolated_iff_labelled :
    Isolated labelledProvider gatewayClaims { gatewayClaims with audience := "peers" } ∧
      ¬ Isolated labelledProvider gatewayClaims (peerClaims gatewayClaims) := by
  constructor
  · apply (isolated_iff checked_labelledTokens _ _ _).1
    intro _ haudience
    exact absurd haudience (by decide)
  · have hissues : Issues labelledProvider gatewayClaims :=
      Or.inl ⟨_, _, _, _, _, _, _, _, sealToken_gateway, openToken_gateway⟩
    intro hisolated
    have hlabel := ((isolated_iff checked_labelledTokens _ _ _).2 hissues).1 hisolated rfl rfl
    exact absurd hlabel (by decide)

/-- **A gateway credential is a peer credential.** -/
theorem peer_label_isolates_not : ¬ ∀ T : TokenLibrary, CheckedTokens T →
    ∀ (provider : HashTokenProvider T) (claims claims' : TokenClaims),
      Isolated provider claims claims' := by
  intro h
  have hisolated := h labelledTokens checked_labelledTokens labelledProvider gatewayClaims
    (peerClaims gatewayClaims)
  have hopen : labelledProvider.openToken .empty 0 gatewayToken (peerClaims gatewayClaims) =
      .ok [7] := openToken_gateway
  have hagree := hisolated.opens _ _ _ _ _ sealToken_gateway _ _ _ hopen
  exact absurd hagree.2.2 (by decide)

end AppCore.Security
