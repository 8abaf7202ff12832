import AppCore.Security.HashToken
import AppCore.Security.KeyringWrites

/-!
# Tokens and rotation

A token of a keyring names the key it was made with, and the key can be replaced while the token is in
use. What is to hold of the tokens of a key is `TokenLaw`: they are accepted until the key is revoked
or expires, and not after that.

A token is cut at its first dot, and a key identifier can have one, so `keyring_tokens` is about the
keys without. The files of the keys must stay readable when they are rewritten as well.
-/

namespace AppCore.Security

open Prog SecuritySecretMaterial FileSecretKeyring

/-! ## Runs in which every call succeeds -/

/-- The call installs no key that is there already. -/
def InstallsNew (keyring : FileSecretKeyring) (call : KeyringCall) : Prop :=
  ∀ material ∈ call.installs keyring, keyring.stored material.metadata.keyId = none

instance decidableInstallsNew (keyring : FileSecretKeyring) (call : KeyringCall) :
    Decidable (InstallsNew keyring call) := by
  unfold InstallsNew
  infer_instance

/-- Every call of a run succeeds, and none installs a key a second time. -/
def Succeeds (keyring : FileSecretKeyring) : List KeyringCall → Prop
  | [] => True
  | call :: calls => ((call.prog.result keyring).isOk ∧ InstallsNew keyring call) ∧
      Succeeds (call.prog.final keyring) calls

instance decidableSucceeds : (keyring : FileSecretKeyring) → (calls : List KeyringCall) →
    Decidable (Succeeds keyring calls)
  | _, [] => isTrue trivial
  | keyring, call :: calls =>
    letI := decidableSucceeds (call.prog.final keyring) calls
    inferInstanceAs (Decidable (((call.prog.result keyring).isOk ∧ InstallsNew keyring call) ∧ _))

theorem Succeeds.of_append {keyring : FileSecretKeyring} {first second : List KeyringCall}
    (h : Succeeds keyring (first ++ second)) : Succeeds (keyring.completed first) second := by
  induction first generalizing keyring with
  | nil => exact h
  | cons call first ih => exact ih h.2

theorem withStatus_self (material : SecuritySecretMaterial) :
    material.withStatus material.metadata.status = material := rfl

/-- A call leaves a key with its secret. The key is revoked when it was, or when the call revokes it. -/
theorem FileSecretKeyring.Sound.stored_final {keyring : FileSecretKeyring} (h : keyring.Sound) {call : KeyringCall}
    (hok : (call.prog.result keyring).isOk) (hnew : InstallsNew keyring call) {keyId : String}
    {material : SecuritySecretMaterial} (hstored : keyring.stored keyId = some material) :
    ∃ status, (call.prog.final keyring).stored keyId = some (material.withStatus status) ∧
      (status = .revoked ↔ material.metadata.status = .revoked ∨ call = .revoke keyId) := by
  obtain ⟨hreached, hretired⟩ := (h.reached_prog call).2
  cases hreached.aged keyId with
  | same heq =>
    refine ⟨material.metadata.status, heq.trans hstored, Or.inl, ?_⟩
    rintro (hstatus | rfl)
    · exact hstatus
    · -- A revocation that succeeded leaves the key revoked.
      cases hresult : (KeyringCall.revoke keyId).prog.result keyring with
      | error e =>
        rw [hresult] at hok
        cases hok
      | ok r =>
        rw [hresult] at hretired
        obtain ⟨m, hm, hrevoked⟩ := hretired
        obtain rfl := Option.some.inj (hm.symm.trans (heq.trans hstored))
        exact hrevoked
  | installed hcall hname hstatus heq =>
    rw [← hname, hnew _ hcall] at hstored
    cases hstored
  | deprecated hcall hactive hbefore hstatus heq =>
    obtain rfl := Option.some.inj (hbefore.symm.trans hstored)
    refine ⟨.deprecated, heq, nofun, ?_⟩
    rintro (hrevoked | rfl)
    · exact absurd hrevoked hstatus
    · cases hcall
  | revoked hcall hbefore heq =>
    obtain rfl := Option.some.inj (hbefore.symm.trans hstored)
    exact ⟨.revoked, heq, fun _ => Or.inr hcall, fun _ => rfl⟩

theorem FileSecretKeyring.Sound.stored_completed {keyring : FileSecretKeyring} (h : keyring.Sound)
    {calls : List KeyringCall} (hcalls : Succeeds keyring calls) {keyId : String}
    {material : SecuritySecretMaterial} (hstored : keyring.stored keyId = some material) :
    ∃ status, (keyring.completed calls).stored keyId = some (material.withStatus status) ∧
      (status = .revoked ↔ material.metadata.status = .revoked ∨ .revoke keyId ∈ calls) := by
  induction calls generalizing keyring material with
  | nil => exact ⟨material.metadata.status, hstored, by simp⟩
  | cons call calls ih =>
    obtain ⟨status, hfinal, hstatus⟩ := h.stored_final hcalls.1.1 hcalls.1.2 hstored
    obtain ⟨status', hend, hstatus'⟩ :=
      ih (h.reached_prog call).2.1.sound hcalls.2 hfinal
    refine ⟨status', hend, ?_⟩
    rw [hstatus', status_withStatus, hstatus, List.mem_cons, or_assoc, eq_comm (a := call)]

/-- A key that was active is neither revoked by a later call nor expired. -/
def InForce (later : List KeyringCall) (material : SecuritySecretMaterial) (nowMs : UInt64) : Prop :=
  .revoke material.metadata.keyId ∉ later ∧ material.isExpired nowMs = false

/-- The tokens of a key that was active after some calls, at the time of later ones. -/
structure TokenLaw {T : TokenLibrary} (live : GenerateTokenOptions → UInt64 → UInt64 → Prop)
    (provider : HashTokenProvider T) (calls later : List KeyringCall) (issuedMs : UInt64)
    (material : SecuritySecretMaterial) : Prop where
  opens : ∀ seed payload claims token,
    provider.sealToken (empty.completed calls) issuedMs seed payload claims = .ok token →
    ∀ nowMs, InForce later material nowMs → live (generateOptions claims) issuedMs nowMs →
      provider.openToken (empty.completed (calls ++ later)) nowMs token claims = .ok payload
  verifies : ∀ seed payload claims signature,
    provider.sign (empty.completed calls) issuedMs seed payload claims = .ok signature →
    ∀ nowMs, InForce later material nowMs → live (generateOptions claims) issuedMs nowMs →
      provider.verify (empty.completed (calls ++ later)) nowMs payload signature claims = .ok ()
  openRejects : ∀ seed payload claims token,
    provider.sealToken (empty.completed calls) issuedMs seed payload claims = .ok token →
    ∀ nowMs, ¬ InForce later material nowMs → ∀ claims',
      (provider.openToken (empty.completed (calls ++ later)) nowMs token claims').isOk = false
  verifyRejects : ∀ seed payload claims signature,
    provider.sign (empty.completed calls) issuedMs seed payload claims = .ok signature →
    ∀ nowMs, ¬ InForce later material nowMs → ∀ payload' claims',
      (provider.verify (empty.completed (calls ++ later)) nowMs payload' signature claims').isOk =
        false

/-! ## The key of a token -/

section

variable {T : TokenLibrary} {provider : HashTokenProvider T} {keyring : FileSecretKeyring}
  {nowMs : UInt64} {material : SecuritySecretMaterial}

/-- A token is made with the active key. -/
theorem of_wrapped (hsource : provider.source = .keyring)
    (hactive : keyring.resolveActive nowMs = .ok material)
    (make : T.Manager → Option (List Char)) {token : Bytes}
    (h : (do
      let (manager, keyId) ← provider.activeManager keyring nowMs
      HashTokenProvider.wrapped keyId (make manager)) = .ok token) :
    ∃ manager text, provider.manager material.secret = .ok manager ∧ make manager = some text ∧
      token = wrapKeyringToken (some material.metadata.keyId) (utf8 text) := by
  obtain ⟨⟨manager, keyId⟩, hmanager, hwrapped⟩ := bind_eq_ok.1 h
  rw [HashTokenProvider.activeManager, hsource] at hmanager
  dsimp only at hmanager
  rw [hactive] at hmanager
  obtain ⟨manager', hnew, heq⟩ := bind_eq_ok.1 hmanager
  cases heq
  dsimp only at hwrapped
  cases hmake : make manager with
  | none =>
    rw [hmake] at hwrapped
    cases hwrapped
  | some text =>
    rw [hmake] at hwrapped
    exact ⟨manager, text, hnew, hmake, (Except.ok.inj hwrapped).symm⟩

theorem of_sealToken (hsource : provider.source = .keyring)
    (hactive : keyring.resolveActive nowMs = .ok material) {seed : T.Seed} {payload token : Bytes}
    {claims : TokenClaims} (h : provider.sealToken keyring nowMs seed payload claims = .ok token) :
    ∃ manager text, provider.manager material.secret = .ok manager ∧
      T.sealTokenBytes manager nowMs seed payload (generateOptions claims) = some text ∧
      token = wrapKeyringToken (some material.metadata.keyId) (utf8 text) :=
  of_wrapped hsource hactive
    (fun manager => T.sealTokenBytes manager nowMs seed payload (generateOptions claims)) h

theorem of_sign (hsource : provider.source = .keyring)
    (hactive : keyring.resolveActive nowMs = .ok material) {seed : T.Seed}
    {payload signature : Bytes} {claims : TokenClaims}
    (h : provider.sign keyring nowMs seed payload claims = .ok signature) :
    ∃ manager text, provider.manager material.secret = .ok manager ∧
      T.generateTokenBytes manager nowMs seed payload (generateOptions claims) = some text ∧
      signature = wrapKeyringToken (some material.metadata.keyId) (utf8 text) :=
  of_wrapped hsource hactive
    (fun manager => T.generateTokenBytes manager nowMs seed payload (generateOptions claims)) h

theorem utf8_ne_nil {t : List Char} (h : t ≠ []) : utf8 t ≠ [] := by
  intro heq
  have hlen := (length_utf8 t).1
  rw [heq] at hlen
  exact h (List.length_eq_zero_iff.1 (Nat.le_zero.1 hlen))

theorem validationManager_wrapped (hsource : provider.source = .keyring)
    (hkey : IsKeyId material.metadata.keyId) (hdot : '.' ∉ material.metadata.keyId.toList)
    {text : List Char} (htext : text ≠ []) :
    provider.validationManager keyring nowMs
        (wrapKeyringToken (some material.metadata.keyId) (utf8 text)) =
      match keyring.resolveForValidation material.metadata.keyId nowMs with
      | .error _ => .error .verificationFailed
      | .ok found => provider.manager found.secret >>= fun manager => .ok (manager, utf8 text) := by
  rw [HashTokenProvider.validationManager, hsource]
  dsimp only
  rw [unwrap_wrapKeyringToken hkey hdot (utf8_ne_nil htext)]
  rfl

theorem validationManager_found (hsource : provider.source = .keyring)
    (hkey : IsKeyId material.metadata.keyId) (hdot : '.' ∉ material.metadata.keyId.toList)
    {text : List Char} (htext : text ≠ []) {found : SecuritySecretMaterial}
    (hfound : keyring.resolveForValidation material.metadata.keyId nowMs = .ok found)
    (hsecret : found.secret = material.secret) {manager : T.Manager}
    (hmanager : provider.manager material.secret = .ok manager) :
    provider.validationManager keyring nowMs
      (wrapKeyringToken (some material.metadata.keyId) (utf8 text)) = .ok (manager, utf8 text) := by
  rw [validationManager_wrapped hsource hkey hdot htext, hfound]
  dsimp only
  rw [hsecret, hmanager, ok_bind]

theorem validationManager_lost (hsource : provider.source = .keyring)
    (hkey : IsKeyId material.metadata.keyId) (hdot : '.' ∉ material.metadata.keyId.toList)
    {text : List Char} (htext : text ≠ []) {e : SecretAccessError}
    (hlost : keyring.resolveForValidation material.metadata.keyId nowMs = .error e) :
    provider.validationManager keyring nowMs
      (wrapKeyringToken (some material.metadata.keyId) (utf8 text)) = .error .verificationFailed := by
  rw [validationManager_wrapped hsource hkey hdot htext, hlost]

theorem tokenText_utf8 (text : List Char) : HashTokenProvider.tokenText (utf8 text) = .ok text := by
  rw [HashTokenProvider.tokenText, fromUtf8_utf8]

end

/-- The key of a token at a later time. -/
theorem resolveForValidation_later {calls later : List KeyringCall}
    (hrun : Succeeds empty (calls ++ later)) {issuedMs : UInt64}
    {material : SecuritySecretMaterial}
    (hactive : (empty.completed calls).resolveActive issuedMs = .ok material)
    (hfits : (materialFile (material.withStatus .deprecated)).length ≤ maxKeyFileBytes)
    (nowMs : UInt64) :
    (InForce later material nowMs → ∃ found, (empty.completed (calls ++ later)).resolveForValidation
      material.metadata.keyId nowMs = .ok found ∧ found.secret = material.secret) ∧
    (¬ InForce later material nowMs → ∃ e, (empty.completed (calls ++ later)).resolveForValidation
      material.metadata.keyId nowMs = .error e) := by
  have hsound := sound_empty.completed calls
  obtain ⟨-, hread, hissue⟩ := hsound.of_resolveActive hactive
  obtain ⟨hstored, hsize⟩ := hsound.readKey_ok.1 hread
  have hstatus := (validateForIssue_ok.1 hissue).1
  obtain ⟨status, hlater, hrevoked⟩ := hsound.stored_completed hrun.of_append hstored
  rw [← completed_append] at hlater
  have hsound' := sound_empty.completed (calls ++ later)
  have hiff : status = .revoked ↔ .revoke material.metadata.keyId ∈ later := by
    rw [hrevoked, hstatus]
    simp
  constructor
  · rintro ⟨hin, hexpired⟩
    have hne : status ≠ .revoked := fun heq => hin (hiff.1 heq)
    have hsize' : (materialFile (material.withStatus status)).length ≤ maxKeyFileBytes := by
      cases status with
      | active => rwa [← hstatus, withStatus_self]
      | deprecated => exact hfits
      | revoked => exact absurd rfl hne
    exact ⟨_, resolveForValidation_of_readKey (hsound'.readKey_ok.2 ⟨hlater, hsize'⟩) hne hexpired,
      rfl⟩
  · intro hnot
    cases hresolve : (empty.completed (calls ++ later)).resolveForValidation
        material.metadata.keyId nowMs with
    | error e => exact ⟨e, rfl⟩
    | ok found =>
      obtain ⟨-, hfound, hvalid⟩ := hsound'.of_resolveForValidation hresolve
      obtain rfl := Option.some.inj (hlater.symm.trans (hsound'.readKey_ok.1 hfound).1)
      obtain ⟨hne, hexpired⟩ := validateForValidation_ok.1 hvalid
      exact absurd ⟨fun hin => hne (hiff.2 hin), hexpired⟩ hnot

/-- **The tokens of a key outlive its rotation**, when the key has no dot in its identifier and its file
can still be read after the rotation. -/
theorem keyring_tokens {T : TokenLibrary} {live : GenerateTokenOptions → UInt64 → UInt64 → Prop}
    (hT : LawfulTokens T live) {provider : HashTokenProvider T} (hsource : provider.source = .keyring)
    {calls later : List KeyringCall} (hrun : Succeeds empty (calls ++ later)) {issuedMs : UInt64}
    {material : SecuritySecretMaterial}
    (hactive : (empty.completed calls).resolveActive issuedMs = .ok material)
    (hdot : '.' ∉ material.metadata.keyId.toList)
    (hfits : (materialFile (material.withStatus .deprecated)).length ≤ maxKeyFileBytes) :
    TokenLaw live provider calls later issuedMs material := by
  have hsound := sound_empty.completed calls
  have hkey : IsKeyId material.metadata.keyId :=
    (hsound.stored_iff.1 (hsound.readKey_ok.1 (hsound.of_resolveActive hactive).2.1).1).2.1.key
  have hlater (nowMs : UInt64) := resolveForValidation_later hrun hactive hfits nowMs
  refine ⟨fun seed payload claims token hseal nowMs hforce hlive => ?_,
    fun seed payload claims signature hsign nowMs hforce hlive => ?_,
    fun seed payload claims token hseal nowMs hforce claims' => ?_,
    fun seed payload claims signature hsign nowMs hforce payload' claims' => ?_⟩
  · obtain ⟨manager, text, hmanager, hmake, rfl⟩ := of_sealToken hsource hactive hseal
    have htext : text ≠ [] := by
      rintro rfl
      exact hT.sealed _ _ _ _ _ hmake
    obtain ⟨found, hfound, hsecret⟩ := (hlater nowMs).1 hforce
    rw [HashTokenProvider.openToken,
      validationManager_found hsource hkey hdot htext hfound hsecret hmanager, ok_bind]
    dsimp only
    rw [tokenText_utf8, ok_bind, hT.opens _ _ _ _ _ _ hmake _ hlive]
  · obtain ⟨manager, text, hmanager, hmake, rfl⟩ := of_sign hsource hactive hsign
    have htext : text ≠ [] := by
      rintro rfl
      exact hT.generated _ _ _ _ _ hmake
    obtain ⟨found, hfound, hsecret⟩ := (hlater nowMs).1 hforce
    rw [HashTokenProvider.verify,
      validationManager_found hsource hkey hdot htext hfound hsecret hmanager, ok_bind]
    dsimp only
    rw [tokenText_utf8, ok_bind, hT.verifies _ _ _ _ _ _ hmake _ hlive]
    exact if_pos rfl
  · obtain ⟨manager, text, hmanager, hmake, rfl⟩ := of_sealToken hsource hactive hseal
    have htext : text ≠ [] := by
      rintro rfl
      exact hT.sealed _ _ _ _ _ hmake
    obtain ⟨e, hlost⟩ := (hlater nowMs).2 hforce
    rw [HashTokenProvider.openToken, validationManager_lost hsource hkey hdot htext hlost]
    rfl
  · obtain ⟨manager, text, hmanager, hmake, rfl⟩ := of_sign hsource hactive hsign
    have htext : text ≠ [] := by
      rintro rfl
      exact hT.generated _ _ _ _ _ hmake
    obtain ⟨e, hlost⟩ := (hlater nowMs).2 hforce
    rw [HashTokenProvider.verify, validationManager_lost hsource hkey hdot htext hlost]
    rfl

/-! ## A small library -/

def byteText (bytes : Bytes) : List Char := bytes.map fun b => Char.ofNat b.toNat

def textBytes (text : List Char) : Bytes := text.map fun c => UInt8.ofNat c.toNat

theorem textBytes_byteText (bytes : Bytes) : textBytes (byteText bytes) = bytes := by
  rw [textBytes, byteText, List.map_map]
  conv_rhs => rw [← List.map_id bytes]
  refine List.map_congr_left fun b _ => ?_
  have hvalid : b.toNat.isValidChar := Or.inl (by have := b.toNat_lt; omega)
  have hnat : (Char.ofNat b.toNat).toNat = b.toNat := by
    rw [Char.ofNat, dif_pos hvalid]
    rfl
  change UInt8.ofNat (Char.ofNat b.toNat).toNat = b
  rw [hnat, UInt8.ofNat_toNat]

/-- A library whose tokens are the secret and the payload. They do not expire. -/
def plainTokens : TokenLibrary where
  Algorithm := Unit
  sha256 := ()
  Manager := Bytes
  Seed := Unit
  new secret _ _ := some secret
  sealTokenBytes secret _ _ payload _ := some ('t' :: (byteText secret ++ byteText payload))
  openTokenBytes secret _ text _ := (text.dropPrefix? ('t' :: byteText secret)).map textBytes
  generateTokenBytes secret _ _ payload _ := some ('t' :: (byteText secret ++ byteText payload))
  validateTokenBytes secret _ text _ := (text.dropPrefix? ('t' :: byteText secret)).map textBytes

theorem lawful_plainTokens : LawfulTokens plainTokens fun _ _ _ => True := by
  have hdrop (secret payload : Bytes) : (('t' :: (byteText secret ++ byteText payload)).dropPrefix?
      ('t' :: byteText secret)).map textBytes = some payload := by
    rw [show 't' :: (byteText secret ++ byteText payload) =
      ('t' :: byteText secret) ++ byteText payload from rfl,
      List.dropPrefix?_append_of_beq _ (by simp), Option.map_some, textBytes_byteText]
  refine ⟨fun manager _ _ payload _ token htoken _ _ => ?_,
    fun manager _ _ payload _ token htoken _ _ => ?_, fun _ _ _ _ _ h => ?_, fun _ _ _ _ _ h => ?_⟩
  · obtain rfl := Option.some.inj htoken
    exact hdrop manager payload
  · obtain rfl := Option.some.inj htoken
    exact hdrop manager payload
  · cases Option.some.inj h
  · cases Option.some.inj h

/-- A provider with the library's tokens. -/
def plainProvider : HashTokenProvider plainTokens :=
  { source := .keyring, salts := [[1]], algorithm := () }

/-- The tokens of a key that is rotated out. -/
theorem keyring_tokens_rotated :
    TokenLaw (fun _ _ _ => True) plainProvider [.installInitial (sampleMaterial "a" 1) 0]
      [.rotate (sampleMaterial "b" 2) 0] 0 (sampleMaterial "a" 1) :=
  keyring_tokens lawful_plainTokens rfl (by decide) (by decide) (by decide)
    (by decide)

/-- A token of a key with a dot in its identifier is not opened. -/
theorem dotted_key_token :
    Succeeds empty ([.installInitial (sampleMaterial "a.b" 1) 0] ++ []) ∧
      (empty.completed [.installInitial (sampleMaterial "a.b" 1) 0]).resolveActive 0 =
        .ok (sampleMaterial "a.b" 1) ∧
      LawfulTokens plainTokens (fun _ _ _ => True) ∧
      ¬ TokenLaw (fun _ _ _ => True) plainProvider [.installInitial (sampleMaterial "a.b" 1) 0] [] 0
        (sampleMaterial "a.b" 1) := by
  have hactive : (empty.completed [.installInitial (sampleMaterial "a.b" 1) 0]).resolveActive 0 =
      .ok (sampleMaterial "a.b" 1) := by
    decide
  refine ⟨by decide, hactive, lawful_plainTokens, fun h => ?_⟩
  have hseal : plainProvider.sealToken (empty.completed [.installInitial (sampleMaterial "a.b" 1) 0])
      0 () [7] ⟨"i", "a", "s", 0⟩ = .ok (wrapKeyringToken (some "a.b")
        (utf8 ('t' :: (byteText (List.replicate 16 1) ++ byteText [7])))) := by
    decide
  have hopen := h.opens _ _ _ _ hseal 0 ⟨List.not_mem_nil, rfl⟩ trivial
  exact absurd hopen (by decide)

end AppCore.Security
