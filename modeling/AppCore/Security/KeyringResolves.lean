import AppCore.Security.KeyringCrash

/-!
# What is resolved after an installation

`install_initial` and `rotate` check the material that they are given, write its file and point to it;
`resolve_active` reads the file back, up to a size that was not checked. A rotation then writes the old
key's file again, under the identifier that is in it.

* `resolveActive_installed` — the active key is the one that was installed exactly when its file can
  be read, and is not the one that the old key is written to.
-/

namespace AppCore.Security

open Prog SecuritySecretMaterial FileSecretKeyring

variable {keyring : FileSecretKeyring} {material : SecuritySecretMaterial} {nowMs : UInt64}

/-- The calls that make some material the active key; the clock of `install_initial` is at the same
time. -/
inductive Activates (material : SecuritySecretMaterial) (nowMs : UInt64) : KeyringCall → Prop
  | initial : Activates material nowMs (.installInitial material nowMs)
  | rotation : Activates material nowMs (.rotate material nowMs)

/-- The key that a rotation retires is not written to the file of the new one. -/
def KeepsFile (keyring : FileSecretKeyring) : KeyringCall → Prop
  | .rotate next _ => ∀ previous old, keyring.readActiveId = .ok previous →
      keyring.readKey previous = .ok old → old.metadata.status ≠ .revoked →
      old.metadata.keyId ≠ next.metadata.keyId
  | _ => True

/-- What is resolved when the pointer is to a key whose file is that of some material. -/
theorem resolveActive_of_file {keyId : String} (hkey : IsKeyId keyId) (hgood : Good material)
    (hactive : keyring.active = some (pointerFile keyId))
    (hfile : keyring.keys[keyId]? = some (materialFile material)) {found : SecuritySecretMaterial} :
    keyring.resolveActive nowMs = .ok found ↔
      found = material ∧ Fits material ∧ validateForIssue material nowMs = .ok () := by
  rw [resolveActive, readActiveId_of_pointer hactive hkey, ok_bind, readKey, validateKeyId_ok.2 hkey,
    ok_bind, hfile]
  dsimp only
  rw [readMaterial, parse_materialFile hgood]
  by_cases hfits : Fits material
  · rw [if_neg (Nat.not_lt.2 hfits), ok_bind]
    cases hissue : validateForIssue material nowMs with
    | error e => simp [bind, Except.bind]
    | ok u => simp [bind, Except.bind, hfits, eq_comm]
  · rw [if_pos (Nat.not_le.1 hfits)]
    simp [bind, Except.bind, hfits]

theorem resolveActive_installedFile (hvalid : validateNewActive material nowMs = .ok ()) :
    ((keyring.putKey material).point material.metadata.keyId).resolveActive nowMs = .ok material ↔
      Fits material := by
  have hgood := (validateNewActive_ok.1 hvalid).1
  have hissue := validateForIssue_ok.2 (validateNewActive_ok.1 hvalid).2
  rw [resolveActive_of_file hgood.key hgood rfl]
  · simp [hissue]
  · exact (lookup_insert _ _ _ _).trans (if_pos rfl)

/-- The secret of a key that was read is long enough to be installed. -/
theorem secret_of_readKey {keyId : String} (h : keyring.readKey keyId = .ok material) :
    16 ≤ material.secret.length := by
  rw [readKey, bind_eq_ok] at h
  obtain ⟨_, -, hread⟩ := h
  split at hread
  · cases hread
  unfold readMaterial at hread
  split at hread
  · cases hread
  split at hread
  next hparse =>
    cases hread
    unfold parseSecretMaterial at hparse
    split at hparse
    · cases hparse
    split at hparse
    · unfold parseStructuredSecret at hparse
      simp only [bind_eq_ok] at hparse
      obtain ⟨_, _, _, _, _, _, _, _, secret, _, hsecret⟩ := hparse
      split at hsecret
      · cases hsecret
      next hlength =>
        cases hsecret
        exact Nat.not_lt.1 hlength
    · cases hparse
  next => cases hread

/-- What `install_initial` leaves when it succeeds. -/
theorem wp_installInitial_resolves :
    (installInitial material nowMs).wp (fun _ => True)
      (fun result after => ∀ u, result = .ok u →
        (after.resolveActive nowMs = .ok material ↔ Fits material)) keyring := by
  cases hcall : (KeyringCall.installInitial material nowMs).installs keyring with
  | none =>
    rw [installInitial, wp_read_bind]
    refine ⟨fun _ hvalid => ?_, fun _ _ _ hok => by cases hok⟩
    rw [wp_read_bind]
    refine ⟨fun _ hactive => ?_, fun _ _ _ hok => by cases hok⟩
    have hnone : keyring.active = none := by
      by_cases hsome : keyring.active.isSome
      · rw [if_pos hsome] at hactive
        cases hactive
      · simpa using hsome
    rw [installs_installInitial hvalid hnone] at hcall
    cases hcall
  | some m =>
    obtain ⟨rfl, hvalid, -⟩ := of_installs_installInitial hcall
    exact wp_installInitial hcall trivial trivial fun _ _ => resolveActive_installedFile hvalid

/-- What `rotate` leaves when it succeeds. -/
theorem wp_rotate_resolves :
    (rotate material nowMs).wp (fun _ => True)
      (fun result after => ∀ previous, result = .ok previous →
        (after.resolveActive nowMs = .ok material ↔
          Fits material ∧ KeepsFile keyring (.rotate material nowMs))) keyring := by
  cases hcall : (KeyringCall.rotate material nowMs).installs keyring with
  | none =>
    refine wp_mono (final_rotate hcall) (fun _ hfalse => hfalse.elim) ?_
    intro result after hafter previous hok
    rw [hok] at hafter
    cases hafter.1
  | some m =>
    obtain ⟨rfl, hvalid, hconflict⟩ := of_installs_rotate hcall
    have hgood := (validateNewActive_ok.1 hvalid).1
    have hresolved : ((keyring.putKey material).point material.metadata.keyId).resolveActive nowMs =
        .ok material ↔ Fits material := resolveActive_installedFile hvalid
    -- the file that is read for the old key is not the one that was just written
    have hread {previous : String} (hactive : keyring.readActiveId = .ok previous) :
        ((keyring.putKey material).point material.metadata.keyId).readKey previous =
          keyring.readKey previous := by
      have hne : material.metadata.keyId ≠ previous := by
        intro heq
        rw [hactive, ← heq] at hconflict
        exact hconflict rfl
      have hkeys : ((keyring.putKey material).point material.metadata.keyId).keys[previous]? =
          keyring.keys[previous]? := (lookup_insert _ _ _ _).trans (if_neg hne)
      rw [readKey, readKey, hkeys]
    refine wp_rotate hcall trivial trivial ?_ ?_ ?_ ?_
    · intro e hnone _ _
      have hkeeps : KeepsFile keyring (.rotate material nowMs) := by
        intro previous old hactive
        rw [hnone] at hactive
        cases hactive
      rw [hresolved, and_iff_left hkeeps]
    · intro previous e _ _ _ hok
      cases hok
    · intro previous old hactive hold hrevoked _ _
      have hkeeps : KeepsFile keyring (.rotate material nowMs) := by
        intro previous' old' hactive' hold' hstatus
        rw [hactive] at hactive'
        cases hactive'
        rw [hread hactive, hold'] at hold
        cases hold
        exact absurd hrevoked hstatus
      rw [hresolved, and_iff_left hkeeps]
    · intro previous old hactive hold hstatus
      rw [hread hactive] at hold
      have hkeeps : KeepsFile keyring (.rotate material nowMs) ↔
          old.metadata.keyId ≠ material.metadata.keyId := by
        constructor
        · intro h
          exact h previous old hactive hold hstatus
        · intro hne previous' old' hactive' hold' _
          rw [hactive] at hactive'
          cases hactive'
          rw [hold] at hold'
          cases hold'
          exact hne
      rw [hkeeps, persistKey, wp_step]
      refine ⟨fun after hafter => ⟨trivial, fun _ _ => ?_⟩, fun e _ _ hok => by cases hok⟩
      obtain ⟨_, hkey, hafter⟩ := bind_eq_ok.1 hafter
      obtain rfl := Except.ok.inj hafter
      have hgoodOld : Good (old.withStatus .deprecated) := by
        refine ⟨validateKeyId_ok.1 hkey, ?_⟩
        rw [secret_withStatus]
        exact secret_of_readKey hold
      by_cases hsame : old.metadata.keyId = material.metadata.keyId
      · -- the new key's file is that of the old key now, and its status is `deprecated`
        rw [resolveActive_of_file hgood.key hgoodOld rfl]
        · rw [validateForIssue_ok]
          simp [hsame]
        · exact (lookup_insert _ _ _ _).trans (if_pos hsame)
      · rw [resolveActive_of_file hgood.key hgood rfl]
        · simp [hsame, validateForIssue_ok.2 (validateNewActive_ok.1 hvalid).2]
        · exact (lookup_insert _ _ _ _).trans ((if_neg hsame).trans
            ((lookup_insert _ _ _ _).trans (if_pos rfl)))

/-- **The keyring resolves what it accepted** exactly when the file of the key can be read again, and
a rotation does not write the old key to it. -/
theorem resolveActive_installed (keyring : FileSecretKeyring) {call : KeyringCall}
    {material : SecuritySecretMaterial} {nowMs : UInt64} (hcall : Activates material nowMs call)
    {returned : Option String} (hok : call.prog.result keyring = .ok returned) :
    (call.prog.final keyring).resolveActive nowMs = .ok material ↔
      Fits material ∧ KeepsFile keyring call := by
  cases hcall with
  | initial =>
    have hwp : (KeyringCall.installInitial material nowMs).prog.wp (fun _ => True)
        (fun result after => ∀ u, result = .ok u →
          (after.resolveActive nowMs = .ok material ↔ Fits material)) keyring := by
      rw [KeyringCall.prog, wp_bind]
      refine wp_mono wp_installInitial_resolves (fun _ => id) ?_
      intro result after hafter
      cases result with
      | error e =>
        intro u herror
        cases herror
      | ok u => exact wp_pure.2 fun _ _ => hafter u rfl
    rw [hwp.2 returned hok]
    exact (and_iff_left trivial).symm
  | rotation => exact wp_rotate_resolves.2 returned hok

theorem installInitial_empty (hvalid : validateNewActive material nowMs = .ok ()) :
    (KeyringCall.installInitial material nowMs).prog.result empty = .ok none := by
  have hwp : (KeyringCall.installInitial material nowMs).prog.wp (fun _ => True)
      (fun result _ => result = .ok none) empty := by
    rw [KeyringCall.prog, wp_bind]
    exact wp_installInitial (installs_installInitial hvalid rfl) trivial trivial (wp_pure.2 rfl)
  exact hwp.2

/-- A small key is resolved. -/
theorem resolveActive_sampleMaterial :
    ((KeyringCall.installInitial (sampleMaterial "a" 1) 0).prog.final empty).resolveActive 0 =
      .ok (sampleMaterial "a" 1) :=
  (resolveActive_installed empty .initial (installInitial_empty (by decide))).2
    ⟨by decide, trivial⟩

/-- A key whose file has 65538 bytes. -/
def oversizedMaterial : SecuritySecretMaterial :=
  { largeMaterial with secret := List.replicate 32736 0 }

theorem good_oversizedMaterial : Good oversizedMaterial := by
  refine ⟨by decide, ?_⟩
  rw [oversizedMaterial, List.length_replicate]
  decide

theorem not_fits_oversizedMaterial : ¬ Fits oversizedMaterial := by
  have hsecret : oversizedMaterial.secret.length = 32736 := List.length_replicate
  unfold Fits
  rw [length_materialFile good_oversizedMaterial, hsecret, maxKeyFileBytes]
  have hstatus : oversizedMaterial.metadata.status.asStr.toList.length = 6 := by decide
  have hexpires : (expiresText oversizedMaterial.metadata.expiresAtMs).length = 4 := by decide
  have hkey : 0 < oversizedMaterial.metadata.keyId.toList.length := by decide
  omega

/-- The first key can be too large to be read again. -/
theorem oversized_not_resolved :
    ¬ ∀ (keyring : FileSecretKeyring) (call : KeyringCall) (material : SecuritySecretMaterial)
      (nowMs : UInt64) (returned : Option String), Activates material nowMs call →
      call.prog.result keyring = .ok returned →
      (call.prog.final keyring).resolveActive nowMs = .ok material := by
  intro hclaim
  have hvalid : validateNewActive oversizedMaterial 0 = .ok () :=
    validateNewActive_ok.2 ⟨good_oversizedMaterial, rfl, rfl⟩
  have hresolved := hclaim empty _ oversizedMaterial 0 none .initial (installInitial_empty hvalid)
  have hwp : (KeyringCall.installInitial oversizedMaterial 0).prog.wp (fun _ => True)
      (fun _ after => after = (empty.putKey oversizedMaterial).point oversizedMaterial.metadata.keyId)
      empty := by
    rw [KeyringCall.prog, wp_bind]
    exact wp_installInitial (installs_installInitial hvalid rfl) trivial trivial (wp_pure.2 rfl)
  rw [hwp.2, resolveActive_installedFile hvalid] at hresolved
  exact not_fits_oversizedMaterial hresolved

end AppCore.Security
