import AppCore.Security.KeyringWrites

/-!
# Revocation and the secrets of keys

A key that was revoked is not to come back, and the secret of a key is not to change (`KeyringLaw`).
`install_initial` and `rotate` write the file of the key they are given without a look at the one that
is there, so both hold in the runs in which no call writes over a revoked key, or over a key with
another secret (`keyring_law`).
-/

namespace AppCore.Security

open Prog SecuritySecretMaterial

namespace FileSecretKeyring

/-- Material that a keyring gives out. -/
def Returns (keyring : FileSecretKeyring) (material : SecuritySecretMaterial) : Prop :=
  (∃ nowMs, keyring.resolveActive nowMs = .ok material) ∨
    ∃ keyId nowMs, keyring.resolveForValidation keyId nowMs = .ok material

theorem Sound.stored_of_returns {keyring : FileSecretKeyring} {material : SecuritySecretMaterial}
    (h : keyring.Sound) (hreturns : keyring.Returns material) :
    keyring.stored material.metadata.keyId = some material ∧
      material.metadata.status ≠ .revoked := by
  rcases hreturns with ⟨nowMs, hactive⟩ | ⟨keyId, nowMs, hvalidation⟩
  · obtain ⟨-, hread, hissue⟩ := h.of_resolveActive hactive
    refine ⟨(h.readKey_ok.1 hread).1, ?_⟩
    rw [(validateForIssue_ok.1 hissue).1]
    decide
  · obtain ⟨rfl, hread, hvalid⟩ := h.of_resolveForValidation hvalidation
    exact ⟨(h.readKey_ok.1 hread).1, (validateForValidation_ok.1 hvalid).1⟩

/-! ## What a call keeps -/

/-- The call does not write over a revoked key or over a key with another secret. -/
def KeepsSecret (keyring : FileSecretKeyring) (call : KeyringCall) : Prop :=
  ∀ material ∈ call.installs keyring, ∀ old ∈ keyring.stored material.metadata.keyId,
    old.secret = material.secret ∧ old.metadata.status ≠ .revoked

instance decidableKeepsSecret (keyring : FileSecretKeyring) (call : KeyringCall) :
    Decidable (KeepsSecret keyring call) := by
  unfold KeepsSecret
  infer_instance

/-- Every call of a run does so. -/
def KeepsSecrets (keyring : FileSecretKeyring) : List KeyringCall → Prop
  | [] => True
  | call :: calls => KeepsSecret keyring call ∧ KeepsSecrets (call.prog.final keyring) calls

instance decidableKeepsSecrets : (keyring : FileSecretKeyring) → (calls : List KeyringCall) →
    Decidable (KeepsSecrets keyring calls)
  | _, [] => isTrue trivial
  | keyring, call :: calls =>
    letI := decidableKeepsSecrets (call.prog.final keyring) calls
    inferInstanceAs (Decidable (KeepsSecret keyring call ∧ _))

/-- Every key keeps its secret, and a revoked key stays revoked. -/
def Kept (before after : FileSecretKeyring) : Prop :=
  ∀ keyId old, before.stored keyId = some old → ∃ material, after.stored keyId = some material ∧
    material.secret = old.secret ∧
      (old.metadata.status = .revoked → material.metadata.status = .revoked)

theorem Kept.refl (keyring : FileSecretKeyring) : Kept keyring keyring :=
  fun _ old hold => ⟨old, hold, rfl, id⟩

theorem Kept.trans {first second third : FileSecretKeyring} (h : Kept first second)
    (h' : Kept second third) : Kept first third := by
  intro keyId old hold
  obtain ⟨middle, hmiddle, hsecret, hrevoked⟩ := h keyId old hold
  obtain ⟨last, hlast, hsecret', hrevoked'⟩ := h' keyId middle hmiddle
  exact ⟨last, hlast, hsecret'.trans hsecret, fun hr => hrevoked' (hrevoked hr)⟩

theorem Reached.kept {call : KeyringCall} {before after : FileSecretKeyring}
    (h : Reached call before after) (hkeeps : KeepsSecret before call) : Kept before after := by
  intro keyId old hold
  cases h.aged keyId with
  | same h => exact ⟨old, h.trans hold, rfl, id⟩
  | installed hcall hname hstatus h =>
    obtain ⟨hsecret, hrevoked⟩ := hkeeps _ hcall old (hname ▸ hold)
    exact ⟨_, h, hsecret.symm, fun hr => absurd hr hrevoked⟩
  | deprecated hcall hactive hbefore hstatus h =>
    obtain rfl := Option.some.inj (hbefore.symm.trans hold)
    exact ⟨_, h, rfl, fun hr => absurd hr hstatus⟩
  | revoked hcall hbefore h =>
    obtain rfl := Option.some.inj (hbefore.symm.trans hold)
    exact ⟨_, h, rfl, fun _ => rfl⟩

theorem Sound.kept_completed {keyring : FileSecretKeyring} (h : keyring.Sound)
    {calls : List KeyringCall} (hkeeps : KeepsSecrets keyring calls) :
    Kept keyring (keyring.completed calls) := by
  induction calls generalizing keyring with
  | nil => exact Kept.refl keyring
  | cons call calls ih =>
    have hreached : Reached call keyring (call.prog.final keyring) := (h.reached_prog call).2.1
    exact (hreached.kept hkeeps.1).trans (ih hreached.sound hkeeps.2)

theorem KeepsSecrets.of_append {keyring : FileSecretKeyring} {first second : List KeyringCall}
    (h : KeepsSecrets keyring (first ++ second)) :
    KeepsSecrets keyring first ∧ KeepsSecrets (keyring.completed first) second := by
  induction first generalizing keyring with
  | nil => exact ⟨trivial, h⟩
  | cons call first ih =>
    obtain ⟨hfirst, hsecond⟩ := ih h.2
    exact ⟨⟨h.1, hfirst⟩, hsecond⟩

end FileSecretKeyring

/-! ## The law -/

open FileSecretKeyring

/-- Revocation is permanent, and a key identifier names one secret. -/
structure KeyringLaw (calls : List KeyringCall) : Prop where
  permanent : ∀ before keyId middle after, calls = before ++ .revoke keyId :: (middle ++ after) →
    ((KeyringCall.revoke keyId).prog.result (empty.completed before)).isOk →
    ∀ material, (empty.completed (before ++ .revoke keyId :: middle)).Returns material →
      material.metadata.keyId ≠ keyId
  oneSecret : ∀ first second, first <+: calls → second <+: calls → ∀ material other,
    (empty.completed first).Returns material → (empty.completed second).Returns other →
    material.metadata.keyId = other.metadata.keyId → material.secret = other.secret

/-- Two states of a run give out the same secret for a key. -/
theorem secret_eq_of_initial {calls first second : List KeyringCall}
    (h : KeepsSecrets empty calls) (hsecond : second <+: calls) (hinitial : first <+: second)
    {material other : SecuritySecretMaterial} (hfirst : (empty.completed first).Returns material)
    (hother : (empty.completed second).Returns other)
    (hkey : material.metadata.keyId = other.metadata.keyId) : material.secret = other.secret := by
  obtain ⟨rest, rfl⟩ := hsecond
  obtain ⟨middle, rfl⟩ := hinitial
  have hstored := ((sound_empty.completed first).stored_of_returns hfirst).1
  have hstored' := ((sound_empty.completed _).stored_of_returns hother).1
  have hkeeps := h.of_append.1.of_append.2
  obtain ⟨m, hm, hsecret, -⟩ :=
    (sound_empty.completed first).kept_completed hkeeps _ material hstored
  rw [← completed_append, hkey, hstored'] at hm
  obtain rfl := Option.some.inj hm
  exact hsecret.symm

/-- **No key comes back, and none changes its secret**, in the runs in which no call writes over a
revoked key or over a key with another secret. -/
theorem keyring_law {calls : List KeyringCall} (h : KeepsSecrets empty calls) :
    KeyringLaw calls := by
  refine ⟨fun before keyId middle after hcalls hok material hreturns hkey => ?_,
    fun first second hfirst hsecond material other hmaterial hother hkey => ?_⟩
  · subst hcalls
    obtain ⟨-, hrest⟩ := h.of_append
    obtain ⟨-, hmiddle⟩ := hrest
    have hsound := sound_empty.completed before
    -- The revocation wrote the file of the key, and no later call changes its status.
    have hend := (hsound.reached_prog (.revoke keyId)).2
    obtain ⟨old, hold, hrevoked⟩ : ∃ old,
        ((KeyringCall.revoke keyId).prog.final (empty.completed before)).stored keyId = some old ∧
          old.metadata.status = .revoked := by
      cases hresult : (KeyringCall.revoke keyId).prog.result (empty.completed before) with
      | error e =>
        rw [hresult] at hok
        cases hok
      | ok r =>
        have hretired := hend.2
        rw [hresult] at hretired
        exact hretired
    obtain ⟨m, hm, -, hstays⟩ :=
      hend.1.sound.kept_completed hmiddle.of_append.1 keyId old hold
    rw [completed_append] at hreturns
    have hstored := (hend.1.sound.completed middle).stored_of_returns hreturns
    rw [hkey] at hstored
    obtain rfl := Option.some.inj (hm.symm.trans hstored.1)
    exact hstored.2 (hstays hrevoked)
  · rcases List.prefix_or_prefix_of_prefix hfirst hsecond with hinitial | hinitial
    · exact secret_eq_of_initial h hsecond hinitial hmaterial hother hkey
    · exact (secret_eq_of_initial h hfirst hinitial hother hmaterial hkey.symm).symm

/-- A key is rotated out and revoked. -/
theorem keyring_law_rotated :
    KeyringLaw [.installInitial (sampleMaterial "a" 1) 0, .rotate (sampleMaterial "b" 2) 0,
      .revoke "a"] :=
  keyring_law (by decide)

/-- A key is installed and revoked. -/
def sampleRevoked : FileSecretKeyring :=
  empty.completed [.installInitial (sampleMaterial "a" 1) 0, .revoke "a"]

/-- A revoked key comes back with another secret. -/
theorem revoked_key_returns : ¬ KeyringLaw [.installInitial (sampleMaterial "a" 1) 0, .revoke "a",
    .installInitial (sampleMaterial "a" 2) 0] := by
  intro h
  have hok : ((KeyringCall.revoke "a").prog.result (empty.completed
      [.installInitial (sampleMaterial "a" 1) 0])).isOk := by
    decide
  have hsound : sampleRevoked.Sound := sound_empty.completed _
  have hcall : (KeyringCall.installInitial (sampleMaterial "a" 2) 0).installs sampleRevoked =
      some (sampleMaterial "a" 2) :=
    installs_installInitial (by decide) (by decide)
  obtain ⟨-, hstored, -⟩ := hsound.installed hcall
  have hread := (hsound.reached_prog _).2.1.sound.readKey_ok.2 ⟨hstored, by decide⟩
  have hexpired : (sampleMaterial "a" 2).isExpired 0 = false := rfl
  have hreturns := resolveForValidation_of_readKey hread (by decide) hexpired
  exact h.permanent [.installInitial (sampleMaterial "a" 1) 0] "a"
    [.installInitial (sampleMaterial "a" 2) 0] [] rfl hok _ (Or.inr ⟨"a", 0, hreturns⟩) rfl

end AppCore.Security
