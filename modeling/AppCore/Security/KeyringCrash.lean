import AppCore.Security.KeyringWrites

/-!
# Rotation and crashes

`install_initial`, `rotate` and `revoke` write a key's file and the pointer one after the other, and
the process can stop between the two. What is to hold in every state that is reached is `CrashSafe`.

A key's file is written again with a longer status when the key is retired, and a file of more than
65536 bytes is not read. `crash_safe` is about the runs in which the files that are written again can
be read (`FitsRetired`); the invariant is `Recorded`.
-/

namespace AppCore.Security

open Prog SecuritySecretMaterial FileSecretKeyring

/-! ## What is to hold -/

/-- The secret that a key was installed with. -/
def Original (events : List KeyringEvent) (keyId : String) (secret : Bytes) : Prop :=
  ∃ event ∈ events, ∃ material ∈ event.installs,
    material.metadata.keyId = keyId ∧ material.secret = secret

/-- No call installed the key. -/
def FreshKey (events : List KeyringEvent) (keyId : String) : Prop :=
  ∀ event ∈ events, ∀ material ∈ event.installs, material.metadata.keyId ≠ keyId

/-- A revocation of the key took its first step. -/
def RevocationStarted (events : List KeyringEvent) (keyId : String) : Prop :=
  ∃ event ∈ events, event.call = .revoke keyId ∧ event.outcome ≠ .stopped 0

/-- A revocation of the key succeeded. -/
def RevocationReturned (events : List KeyringEvent) (keyId : String) : Prop :=
  ∃ event ∈ events, event.call = .revoke keyId ∧ ∃ result, event.outcome = .returned (.ok result)

/-- A rotation that succeeded replaced the key. -/
def Superseded (events : List KeyringEvent) (keyId : String) : Prop :=
  ∃ event ∈ events, (∃ next nowMs, event.call = .rotate next nowMs) ∧
    event.outcome = .returned (.ok (some keyId))

/-- A state from which the keyring goes on. -/
structure CrashSafe (events : List KeyringEvent) (keyring : FileSecretKeyring) : Prop where
  validates : ∀ keyId ∈ keyring.targets, ¬ RevocationStarted events keyId → ∀ nowMs,
    ∃ material, keyring.resolveForValidation keyId nowMs = .ok material ∧
      Original events keyId material.secret
  active : ∀ nowMs material, keyring.resolveActive nowMs = .ok material →
    keyring.targets.getLast? = some material.metadata.keyId ∧
      ¬ Superseded events material.metadata.keyId ∧
      ¬ RevocationReturned events material.metadata.keyId
  rotates : ∀ next nowMs, validateNewActive next nowMs = .ok () →
    FreshKey events next.metadata.keyId →
    ((KeyringCall.rotate next nowMs).prog.result keyring).isOk
  installs : ∀ material nowMs, validateNewActive material nowMs = .ok () →
    FreshKey events material.metadata.keyId →
    ((KeyringCall.installInitial material nowMs).prog.result keyring).isOk ∨
      (KeyringCall.installInitial material nowMs).prog.result keyring = .error .conflict ∧
        keyring.active.isSome

/-- The file of some material can be read. -/
def Fits (material : SecuritySecretMaterial) : Prop :=
  (materialFile material).length ≤ maxKeyFileBytes

instance decidableFits (material : SecuritySecretMaterial) : Decidable (Fits material) :=
  Nat.decLe _ _

/-- A call of the runs that are meant: no key is installed twice, and a key does not expire and is
not too large. -/
structure Admissible (events : List KeyringEvent) (keyring : FileSecretKeyring) (call : KeyringCall) :
    Prop where
  fresh : ∀ material ∈ call.installs keyring, FreshKey events material.metadata.keyId
  lasting : ∀ material ∈ call.installs keyring, material.metadata.expiresAtMs = none
  fits : ∀ material ∈ call.installs keyring, Fits material

/-- The file of the active key can still be read when the call retires the key. -/
def FitsRetired (keyring : FileSecretKeyring) : KeyringCall → Prop
  | .rotate .. => ∀ keyId old, keyring.readActiveId = .ok keyId → keyring.stored keyId = some old →
      Fits (old.withStatus .deprecated)
  | .revoke keyId => keyring.readActiveId = .ok keyId → ∀ old, keyring.stored keyId = some old →
      Fits (old.withStatus .revoked)
  | _ => True

/-! ## The invariant -/

/-- The files and the pointer are as the run has left them. -/
structure Recorded (events : List KeyringEvent) (keyring : FileSecretKeyring) : Prop where
  sound : keyring.Sound
  origin : ∀ keyId material, keyring.stored keyId = some material →
    Original events keyId material.secret
  lasting : ∀ keyId material, keyring.stored keyId = some material →
    material.metadata.expiresAtMs = none
  fits : ∀ keyId material, keyring.stored keyId = some material →
    material.metadata.status ≠ .revoked → Fits material
  started : ∀ keyId material, keyring.stored keyId = some material →
    material.metadata.status = .revoked → RevocationStarted events keyId
  pointed : ∀ keyId material, keyring.readActiveId = .ok keyId → keyring.stored keyId = some material →
    Fits material
  retired : ∀ keyId, Superseded events keyId ∨ RevocationReturned events keyId →
    ∃ material, keyring.stored keyId = some material ∧ material.metadata.status ≠ .active

theorem recorded_empty : Recorded [] empty := by
  refine ⟨sound_empty, ?_, ?_, ?_, ?_, ?_, ?_⟩
  · exact fun keyId material h => by simp [stored, empty] at h
  · exact fun keyId material h => by simp [stored, empty] at h
  · exact fun keyId material h => by simp [stored, empty] at h
  · exact fun keyId material h => by simp [stored, empty] at h
  · exact fun keyId material _ h => by simp [stored, empty] at h
  · rintro keyId (⟨_, h, -⟩ | ⟨_, h, -⟩)
    · cases h
    · cases h

variable {events : List KeyringEvent} {keyring after : FileSecretKeyring} {call : KeyringCall}
  {outcome : KeyringOutcome}

theorem Original.append {keyId : String} {secret : Bytes} (h : Original events keyId secret)
    (event : KeyringEvent) : Original (events ++ [event]) keyId secret := by
  obtain ⟨e, he, h⟩ := h
  exact ⟨e, List.mem_append_left _ he, h⟩

theorem RevocationStarted.append {keyId : String} (h : RevocationStarted events keyId)
    (event : KeyringEvent) : RevocationStarted (events ++ [event]) keyId := by
  obtain ⟨e, he, h⟩ := h
  exact ⟨e, List.mem_append_left _ he, h⟩

theorem Recorded.not_fresh (h : Recorded events keyring) {keyId : String}
    {material : SecuritySecretMaterial} (hstored : keyring.stored keyId = some material) :
    ¬ FreshKey events keyId := by
  intro hfresh
  obtain ⟨event, hevent, m, hm, hname, -⟩ := h.origin keyId material hstored
  exact hfresh event hevent m hm hname

/-- What a call leaves of the files. -/
theorem Recorded.files (h : Recorded events keyring) (hcall : Admissible events keyring call)
    (hfits : FitsRetired keyring call) (hreached : Reached call keyring after)
    (hstart : outcome = .stopped 0 → after = keyring) {keyId : String}
    {material : SecuritySecretMaterial} (hstored : after.stored keyId = some material) :
    Original (events ++ [⟨call, call.installs keyring, outcome⟩]) keyId material.secret ∧
      material.metadata.expiresAtMs = none ∧
      (material.metadata.status ≠ .revoked → Fits material) ∧
      (material.metadata.status = .revoked →
        RevocationStarted (events ++ [⟨call, call.installs keyring, outcome⟩]) keyId) := by
  have hsame (hbefore : keyring.stored keyId = some material) :
      Original (events ++ [⟨call, call.installs keyring, outcome⟩]) keyId material.secret ∧
        material.metadata.expiresAtMs = none ∧
        (material.metadata.status ≠ .revoked → Fits material) ∧
        (material.metadata.status = .revoked →
          RevocationStarted (events ++ [⟨call, call.installs keyring, outcome⟩]) keyId) :=
    ⟨(h.origin _ _ hbefore).append _, h.lasting _ _ hbefore, h.fits _ _ hbefore,
      fun hrevoked => (h.started _ _ hbefore hrevoked).append _⟩
  cases hreached.aged keyId with
  | same heq => exact hsame (heq.symm.trans hstored)
  | installed hinstalls hname hstatus heq =>
    obtain rfl := Option.some.inj (heq.symm.trans hstored)
    refine ⟨⟨_, List.mem_append_right _ (List.mem_singleton_self _), _, hinstalls, hname, rfl⟩,
      hcall.lasting _ hinstalls, fun _ => hcall.fits _ hinstalls, fun hrevoked => ?_⟩
    rw [hstatus] at hrevoked
    cases hrevoked
  | @deprecated old next nowMs hrotate hactive hbefore hstatus heq =>
    obtain rfl := Option.some.inj (heq.symm.trans hstored)
    subst hrotate
    have hlasting : old.metadata.expiresAtMs = none := h.lasting _ _ hbefore
    refine ⟨(h.origin _ _ hbefore).append _, hlasting,
      fun _ => hfits _ _ hactive hbefore, fun hrevoked => ?_⟩
    cases hrevoked
  | @revoked old hrevoke hbefore heq =>
    have hlasting : old.metadata.expiresAtMs = none := h.lasting _ _ hbefore
    by_cases hzero : outcome = .stopped 0
    · rw [hstart hzero] at hstored
      exact hsame hstored
    · obtain rfl := Option.some.inj (heq.symm.trans hstored)
      exact ⟨(h.origin _ _ hbefore).append _, hlasting, fun hne => absurd rfl hne,
        fun _ => ⟨_, List.mem_append_right _ (List.mem_singleton_self _), hrevoke, hzero⟩⟩

/-- What a call leaves of the file behind the pointer. -/
theorem Recorded.files_pointed (h : Recorded events keyring) (hcall : Admissible events keyring call)
    (hfits : FitsRetired keyring call) (hreached : Reached call keyring after)
    (hstart : outcome = .stopped 0 → after = keyring) {keyId : String}
    {material : SecuritySecretMaterial} (hactive : after.readActiveId = .ok keyId)
    (hstored : after.stored keyId = some material) : Fits material := by
  by_cases hstatus : material.metadata.status = .revoked
  · obtain ⟨hpointer, hlast⟩ := hreached.sound.readActiveId_ok.1 hactive
    cases hreached.moved with
    | removed hnone htargets =>
      rw [hnone] at hpointer
      cases hpointer
    | pointed hpointer' htargets hstored' hstatus' =>
      rw [htargets, List.getLast?_concat] at hlast
      obtain rfl := Option.some.inj hlast
      obtain rfl := Option.some.inj (hstored'.symm.trans hstored)
      rw [hstatus'] at hstatus
      cases hstatus
    | same hsame htargets =>
      have hbefore : keyring.readActiveId = .ok keyId :=
        h.sound.readActiveId_ok.2 ⟨hsame.symm.trans hpointer, htargets ▸ hlast⟩
      cases hreached.aged keyId with
      | same heq => exact h.pointed _ _ hbefore (heq.symm.trans hstored)
      | installed hinstalls hname hactive heq =>
        obtain rfl := Option.some.inj (heq.symm.trans hstored)
        exact hcall.fits _ hinstalls
      | deprecated hrotate hactive hold hactive heq =>
        obtain rfl := Option.some.inj (heq.symm.trans hstored)
        cases hstatus
      | revoked hrevoke hold heq =>
        obtain rfl := Option.some.inj (heq.symm.trans hstored)
        subst hrevoke
        exact hfits hbefore _ hold
  · exact (h.files hcall hfits hreached hstart hstored).2.2.1 hstatus

theorem Recorded.files_retired (h : Recorded events keyring) (hcall : Admissible events keyring call)
    (hreached : Reached call keyring after) {keyId : String}
    (hbefore : ∃ material, keyring.stored keyId = some material ∧
      material.metadata.status ≠ .active) :
    ∃ material, after.stored keyId = some material ∧ material.metadata.status ≠ .active := by
  obtain ⟨old, hold, hstatus⟩ := hbefore
  cases hreached.aged keyId with
  | same heq => exact ⟨old, heq.trans hold, hstatus⟩
  | installed hinstalls hname hactive heq =>
    exact absurd (hname ▸ hcall.fresh _ hinstalls) (h.not_fresh hold)
  | deprecated hrotate hactive hbefore hrevoked heq => exact ⟨_, heq, nofun⟩
  | revoked hrevoke hbefore heq => exact ⟨_, heq, nofun⟩

theorem Recorded.step (h : Recorded events keyring) (hcall : Admissible events keyring call)
    (hfits : FitsRetired keyring call) (hreached : Reached call keyring after)
    (hstart : outcome = .stopped 0 → after = keyring)
    (hend : ∀ result, outcome = .returned result → Retired call result after) :
    Recorded (events ++ [⟨call, call.installs keyring, outcome⟩]) after := by
  refine ⟨hreached.sound, fun _ _ hstored => (h.files hcall hfits hreached hstart hstored).1,
    fun _ _ hstored => (h.files hcall hfits hreached hstart hstored).2.1,
    fun _ _ hstored => (h.files hcall hfits hreached hstart hstored).2.2.1,
    fun _ _ hstored => (h.files hcall hfits hreached hstart hstored).2.2.2,
    fun _ _ => h.files_pointed hcall hfits hreached hstart, ?_⟩
  rintro keyId (⟨event, hevent, ⟨next, nowMs, hrotate⟩, hreturned⟩ |
    ⟨event, hevent, hrevoke, result, hreturned⟩)
  · rcases List.mem_append.1 hevent with hevent | hevent
    · exact h.files_retired hcall hreached
        (h.retired keyId (Or.inl ⟨event, hevent, ⟨next, nowMs, hrotate⟩, hreturned⟩))
    · obtain rfl := List.mem_singleton.1 hevent
      have hretired := hend _ hreturned
      subst hrotate
      exact hretired
  · rcases List.mem_append.1 hevent with hevent | hevent
    · exact h.files_retired hcall hreached
        (h.retired keyId (Or.inr ⟨event, hevent, hrevoke, result, hreturned⟩))
    · obtain rfl := List.mem_singleton.1 hevent
      have hretired := hend _ hreturned
      subst hrevoke
      obtain ⟨material, hstored, hstatus⟩ := hretired
      refine ⟨material, hstored, ?_⟩
      rw [hstatus]
      decide

theorem recorded_of_history
    (h : KeyringHistory (fun events keyring call => Admissible events keyring call ∧
      FitsRetired keyring call) events keyring) : Recorded events keyring := by
  induction h with
  | start => exact recorded_empty
  | @returned _ _ call h hcall ih =>
    have hreached := (ih.sound.reached_prog call).2
    refine ih.step hcall.1 hcall.2 hreached.1 nofun fun result hresult => ?_
    obtain rfl := KeyringOutcome.returned.inj hresult
    exact hreached.2
  | stopped h hcall hafter ih =>
    refine ih.step hcall.1 hcall.2 (ih.sound.reached_stops (List.mem_of_getElem? hafter))
      (fun hzero => ?_) nofun
    obtain rfl := KeyringOutcome.stopped.inj hzero
    exact (Option.some.inj hafter).symm

theorem Recorded.validates (h : Recorded events keyring) {keyId : String}
    (htarget : keyId ∈ keyring.targets) (hstarted : ¬ RevocationStarted events keyId)
    (nowMs : UInt64) : ∃ material, keyring.resolveForValidation keyId nowMs = .ok material ∧
      Original events keyId material.secret := by
  obtain ⟨material, hstored⟩ := h.sound.exists_stored (h.sound.targeted keyId htarget)
  have hrevoked : material.metadata.status ≠ .revoked := fun hstatus =>
    hstarted (h.started _ _ hstored hstatus)
  have hread := h.sound.readKey_ok.2 ⟨hstored, h.fits _ _ hstored hrevoked⟩
  have hexpired : material.isExpired nowMs = false := by
    rw [isExpired, h.lasting _ _ hstored]
    rfl
  exact ⟨material, resolveForValidation_of_readKey hread hrevoked hexpired, h.origin _ _ hstored⟩

theorem Recorded.active (h : Recorded events keyring) {nowMs : UInt64}
    {material : SecuritySecretMaterial} (hactive : keyring.resolveActive nowMs = .ok material) :
    keyring.targets.getLast? = some material.metadata.keyId ∧
      ¬ Superseded events material.metadata.keyId ∧
      ¬ RevocationReturned events material.metadata.keyId := by
  obtain ⟨hpointer, hread, hissue⟩ := h.sound.of_resolveActive hactive
  have hstored := (h.sound.readKey_ok.1 hread).1
  have hretired (hor : Superseded events material.metadata.keyId ∨
      RevocationReturned events material.metadata.keyId) : False := by
    obtain ⟨m, hm, hstatus⟩ := h.retired _ hor
    obtain rfl := Option.some.inj (hm.symm.trans hstored)
    exact hstatus (validateForIssue_ok.1 hissue).1
  exact ⟨(h.sound.readActiveId_ok.1 hpointer).2, fun hs => hretired (Or.inl hs),
    fun hr => hretired (Or.inr hr)⟩

/-- **Rotation is crash safe**, as long as the files of retired keys can be read. -/
theorem crash_safe
    (h : KeyringHistory (fun events keyring call => Admissible events keyring call ∧
      FitsRetired keyring call) events keyring) : CrashSafe events keyring := by
  have hrecorded := recorded_of_history h
  have hsound := hrecorded.sound
  -- The key that is active can be read, so a new one can take its place.
  have hreads (previous : String) (hactive : keyring.readActiveId = .ok previous) :
      (keyring.readKey previous).isOk := by
    have hlast := (hsound.readActiveId_ok.1 hactive).2
    obtain ⟨material, hstored⟩ :=
      hsound.exists_stored (hsound.targeted previous (List.mem_of_getLast? hlast))
    rw [hsound.readKey_ok.2 ⟨hstored, hrecorded.pointed _ _ hactive hstored⟩]
    rfl
  refine ⟨fun keyId htarget hstarted nowMs => hrecorded.validates htarget hstarted nowMs,
    fun nowMs material hactive => hrecorded.active hactive,
    fun next nowMs hvalid hfresh => ?_, fun material nowMs hvalid hfresh => ?_⟩
  · have hne : keyring.readActiveId.toOption ≠ some next.metadata.keyId := by
      intro hactive
      have hlast := (hsound.readActiveId_ok.1 (ok_of_toOption hactive)).2
      obtain ⟨material, hstored⟩ :=
        hsound.exists_stored (hsound.targeted _ (List.mem_of_getLast? hlast))
      exact hrecorded.not_fresh hstored hfresh
    rw [(hsound.installed (installs_rotate hvalid hne)).2.2 hreads]
    rfl
  · by_cases hactive : keyring.active = none
    · refine Or.inl ?_
      rw [(hsound.installed (installs_installInitial hvalid hactive)).2.2 hreads]
      rfl
    · have hsome := Option.isSome_iff_ne_none.2 hactive
      exact Or.inr ⟨result_installInitial hvalid hsome, hsome⟩

/-! ## Two keys -/

/-- Two calls that return. -/
def twoEvents (first second : KeyringCall) : List KeyringEvent :=
  [⟨first, first.installs empty, .returned (first.prog.result empty)⟩,
    ⟨second, second.installs (first.prog.final empty),
      .returned (second.prog.result (first.prog.final empty))⟩]

theorem history_two {P : List KeyringEvent → FileSecretKeyring → KeyringCall → Prop}
    {first second : KeyringCall} (hfirst : P [] empty first)
    (hsecond : ∀ result, P [⟨first, first.installs empty, .returned result⟩]
      (first.prog.final empty) second) :
    KeyringHistory P (twoEvents first second) (second.prog.final (first.prog.final empty)) :=
  .returned (.returned .start hfirst) (hsecond _)

variable {material next : SecuritySecretMaterial}

theorem installed_first (hvalid : validateNewActive material 0 = .ok ()) :
    Installed empty material ((KeyringCall.installInitial material 0).prog.result empty)
      ((KeyringCall.installInitial material 0).prog.final empty) :=
  sound_empty.installed (installs_installInitial hvalid rfl)

theorem admissible_first (hlasting : material.metadata.expiresAtMs = none) (hfits : Fits material) :
    Admissible [] empty (.installInitial material 0) := by
  refine ⟨fun m _ event hevent => (nomatch hevent), fun m hm => ?_, fun m hm => ?_⟩
  · obtain ⟨rfl, -⟩ := of_installs_installInitial hm
    exact hlasting
  · obtain ⟨rfl, -⟩ := of_installs_installInitial hm
    exact hfits

theorem admissible_second {result : Except SecretAccessError (Option String)}
    (hne : material.metadata.keyId ≠ next.metadata.keyId)
    (hlasting : next.metadata.expiresAtMs = none) (hfits : Fits next) :
    Admissible [⟨.installInitial material 0, (KeyringCall.installInitial material 0).installs empty,
      .returned result⟩] keyring (.rotate next 0) := by
  refine ⟨fun m hm event hevent old hold => ?_, fun m hm => ?_, fun m hm => ?_⟩
  · obtain ⟨rfl, -⟩ := of_installs_rotate hm
    obtain rfl := List.mem_singleton.1 hevent
    obtain ⟨rfl, -⟩ := of_installs_installInitial hold
    exact hne
  · obtain ⟨rfl, -⟩ := of_installs_rotate hm
    exact hlasting
  · obtain ⟨rfl, -⟩ := of_installs_rotate hm
    exact hfits

/-- A rotation of small keys. -/
theorem crash_safe_rotated :
    CrashSafe (twoEvents (.installInitial (sampleMaterial "a" 1) 0)
        (.rotate (sampleMaterial "b" 2) 0))
      ((KeyringCall.rotate (sampleMaterial "b" 2) 0).prog.final
        ((KeyringCall.installInitial (sampleMaterial "a" 1) 0).prog.final empty)) := by
  have hvalid : validateNewActive (sampleMaterial "a" 1) 0 = .ok () := by decide
  have hfits : Fits (sampleMaterial "a" 1) := by decide
  have hfits' : Fits (sampleMaterial "b" 2) := by decide
  have hretired : Fits ((sampleMaterial "a" 1).withStatus .deprecated) := by decide
  obtain ⟨hactive, hstored, -⟩ := installed_first hvalid
  refine crash_safe (history_two ⟨admissible_first rfl hfits, trivial⟩ fun _ =>
    ⟨admissible_second (by decide) rfl hfits', fun keyId old hkey hold => ?_⟩)
  obtain rfl := Except.ok.inj (hactive.symm.trans hkey)
  obtain rfl := Option.some.inj (hstored.symm.trans hold)
  exact hretired

/-- A key whose file has 65536 bytes as long as the key is active. -/
def largeMaterial : SecuritySecretMaterial :=
  { secret := List.replicate 32735 0
    metadata := { keyId := "a", createdAtMs := 1, expiresAtMs := none, status := .active } }

theorem good_largeMaterial : Good largeMaterial := by
  refine ⟨by decide, ?_⟩
  rw [largeMaterial, List.length_replicate]
  decide

theorem length_largeMaterial (status : SecuritySecretStatus) :
    (materialFile (largeMaterial.withStatus status)).length =
      65530 + status.asStr.toList.length := by
  have hsecret : largeMaterial.secret.length = 32735 := List.length_replicate
  rw [length_materialFile (good_largeMaterial.withStatus status), status_withStatus,
    secret_withStatus, keyId_withStatus, hsecret]
  have htexts : (decimal (1 : UInt64).toNat).length = 1 ∧ (expiresText none).length = 4 ∧
      "a".toList.length = 1 := by decide
  change 54 + "a".toList.length + (decimal (1 : UInt64).toNat).length + (expiresText none).length +
    status.asStr.toList.length + 2 * 32735 = _
  omega

/-- The old key after a rotation that found it active. -/
theorem stored_deprecated (hsound : keyring.Sound) {nowMs : UInt64} {old : SecuritySecretMaterial}
    (hcall : (KeyringCall.rotate next nowMs).installs keyring = some next)
    (hactive : keyring.readActiveId = .ok old.metadata.keyId)
    (hread : keyring.readKey old.metadata.keyId = .ok old) (hstatus : old.metadata.status = .active) :
    ((KeyringCall.rotate next nowMs).prog.final keyring).stored old.metadata.keyId =
      some (old.withStatus .deprecated) := by
  have hstored := (hsound.readKey_ok.1 hread).1
  have hreached := (hsound.reached_prog (.rotate next nowMs)).2
  have hok := (hsound.installed hcall).2.2 fun previous hprevious => by
    obtain rfl := Except.ok.inj (hactive.symm.trans hprevious)
    rw [hread]
    rfl
  obtain ⟨m, hm, hretired⟩ : ∃ m, ((KeyringCall.rotate next nowMs).prog.final keyring).stored
      old.metadata.keyId = some m ∧ m.metadata.status ≠ .active := by
    have hend := hreached.2
    rw [hok, hactive] at hend
    exact hend
  cases hreached.1.aged old.metadata.keyId with
  | same heq =>
    obtain rfl := Option.some.inj (hm.symm.trans (heq.trans hstored))
    exact absurd hstatus hretired
  | installed hinstalls hname hstatus' heq =>
    obtain rfl := Option.some.inj (hm.symm.trans heq)
    exact absurd hstatus' hretired
  | deprecated _ _ hbefore _ heq =>
    obtain rfl := Option.some.inj (hbefore.symm.trans hstored)
    exact heq
  | revoked hrevoke _ _ => cases hrevoke

/-- A rotation makes the file of the old key too large. -/
theorem rotation_loses_key : ¬ ∀ events keyring,
    KeyringHistory Admissible events keyring → CrashSafe events keyring := by
  intro h
  have hvalid : validateNewActive largeMaterial 0 = .ok () :=
    validateNewActive_ok.2 ⟨good_largeMaterial, rfl, rfl⟩
  have hvalid' : validateNewActive (sampleMaterial "b" 2) 0 = .ok () := by decide
  have hfits : Fits largeMaterial := (length_largeMaterial .active).le
  have hfits' : Fits (sampleMaterial "b" 2) := by decide
  obtain ⟨hactive, hstored, -⟩ := installed_first hvalid
  have hsound := (sound_empty.reached_prog (.installInitial largeMaterial 0)).2.1.sound
  have hmoved := (hsound.reached_prog (.rotate (sampleMaterial "b" 2) 0)).2.1
  have hcall : (KeyringCall.rotate (sampleMaterial "b" 2) 0).installs
      ((KeyringCall.installInitial largeMaterial 0).prog.final empty) =
        some (sampleMaterial "b" 2) := by
    refine installs_rotate hvalid' ?_
    rw [hactive]
    decide
  have hdeprecated := stored_deprecated hsound hcall hactive
    (hsound.readKey_ok.2 ⟨hstored, hfits⟩) rfl
  have htarget := hmoved.targets_subset
    (List.mem_of_getLast? (hsound.readActiveId_ok.1 hactive).2)
  obtain ⟨m, hresolve, -⟩ := (h _ _ (history_two (admissible_first rfl hfits) fun _ =>
    admissible_second (by decide) rfl hfits')).validates _ htarget (by
      rintro ⟨event, hevent, hcall, -⟩
      rcases List.mem_cons.1 hevent with rfl | hevent
      · cases hcall
      · obtain rfl := List.mem_singleton.1 hevent
        cases hcall) 0
  obtain ⟨-, hread, -⟩ := hmoved.sound.of_resolveForValidation hresolve
  obtain ⟨hm, hsize⟩ := hmoved.sound.readKey_ok.1 hread
  obtain rfl := Option.some.inj (hdeprecated.symm.trans hm)
  rw [length_largeMaterial] at hsize
  exact absurd hsize (by decide)

end AppCore.Security
