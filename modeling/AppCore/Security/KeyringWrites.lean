import AppCore.Security.Keyring

/-!
# What a call writes

A call changes the keyring by single writes, and it can be stopped behind each of them. What every
such state has in common with the one the call started in is `Reached`: the files stay what the calls
have formatted (`Sound`), a key is as it was, or installed, deprecated or revoked by the call
(`Aged`), and the pointer is where it was, or gone, or at a key that can be used (`Moved`).

`reached` is the step of every claim about runs, one case a call.
-/

namespace AppCore.Security.FileSecretKeyring

open Prog SecuritySecretMaterial

/-! ## Sound keyrings -/

def stored (keyring : FileSecretKeyring) (keyId : String) : Option SecuritySecretMaterial :=
  keyring.keys[keyId]?.bind fun bytes => (parseSecretMaterial bytes).toOption

/-- Material that can be installed. -/
structure Good (material : SecuritySecretMaterial) : Prop where
  key : IsKeyId material.metadata.keyId
  secret : 16 ≤ material.secret.length

/-- Every file is that of its key, and the pointer is to one of them. -/
structure Sound (keyring : FileSecretKeyring) : Prop where
  filed : ∀ keyId bytes, keyring.keys[keyId]? = some bytes →
    ∃ material, Good material ∧ material.metadata.keyId = keyId ∧ bytes = materialFile material
  pointed : keyring.active = none ∨ ∃ keyId, keyring.active = some (pointerFile keyId) ∧
    keyring.targets.getLast? = some keyId
  targeted : ∀ keyId ∈ keyring.targets, keyId ∈ keyring.keys

theorem sound_empty : Sound empty := by
  refine ⟨fun keyId bytes h => ?_, Or.inl rfl, fun keyId h => ?_⟩
  · simp [empty] at h
  · cases h

theorem parse_materialFile {material : SecuritySecretMaterial} (h : Good material) :
    parseSecretMaterial (materialFile material) = .ok material :=
  parseSecretMaterial_format h.key h.secret

/-- The size of a key's file. -/
theorem length_materialFile {material : SecuritySecretMaterial} (h : Good material) :
    (materialFile material).length = 54 + material.metadata.keyId.toList.length +
      (decimal material.metadata.createdAtMs.toNat).length +
      (expiresText material.metadata.expiresAtMs).length +
      material.metadata.status.asStr.toList.length + 2 * material.secret.length := by
  have hplain {t : List Char} (ht : IsPlain t) : IsAscii t := fun c hc => by
    have := toNat_of_isKeyIdChar (ht c hc)
    omega
  have hline {name : String} {value : List Char} (hname : IsPlain name.toList)
      (hvalue : IsPlain value) :
      (utf8 (fieldLine name value)).length = name.toList.length + 1 + value.length := by
    rw [fieldLine, utf8_append, List.length_append, utf8_of_ascii (hplain hname),
      show '=' :: value = ['='] ++ value from rfl, utf8_append, List.length_append,
      utf8_of_ascii (hplain hvalue), List.length_map, List.length_map]
    simp only [show (utf8 ['=']).length = 1 from rfl]
    omega
  have hsecret : (encodeHex material.secret).length = 2 * material.secret.length :=
    length_lowerHex material.secret
  have hnewline (t : List Char) : (utf8 ('\n' :: t)).length = 1 + (utf8 t).length := by
    rw [show '\n' :: t = ['\n'] ++ t from rfl, utf8_append, List.length_append]
    rfl
  rw [materialFile, formatSecretMaterial]
  simp only [utf8_append, List.length_append, hnewline]
  rw [hline (by decide) h.key.2.2, hline (by decide) (isPlain_decimal _),
    hline (by decide) (isPlain_expiresText _), hline (by decide) (isPlain_asStr _),
    hline (by decide) (isPlain_encodeHex _), hsecret]
  simp only [show "key_id".toList.length = 6 from rfl,
    show "created_at_ms".toList.length = 13 from rfl, show "expires_at_ms".toList.length = 13 from rfl,
    show "status".toList.length = 6 from rfl, show "secret".toList.length = 6 from rfl,
    show (utf8 []).length = 0 from rfl]
  omega

variable {keyring : FileSecretKeyring} {keyId : String} {material : SecuritySecretMaterial}

theorem Sound.stored_iff (h : keyring.Sound) : keyring.stored keyId = some material ↔
    keyring.keys[keyId]? = some (materialFile material) ∧ Good material ∧
      material.metadata.keyId = keyId := by
  constructor
  · intro hstored
    obtain ⟨bytes, hbytes, hparse⟩ := Option.bind_eq_some_iff.1 hstored
    obtain ⟨m, hgood, hname, rfl⟩ := h.filed keyId bytes hbytes
    rw [parse_materialFile hgood] at hparse
    cases hparse
    exact ⟨hbytes, hgood, hname⟩
  · rintro ⟨hbytes, hgood, -⟩
    rw [stored, hbytes, Option.bind_some, parse_materialFile hgood]
    rfl

theorem Sound.exists_stored (h : keyring.Sound) (hmem : keyId ∈ keyring.keys) :
    ∃ material, keyring.stored keyId = some material := by
  obtain ⟨bytes, hbytes⟩ := Option.isSome_iff_exists.1 (Std.ExtTreeMap.mem_iff_isSome_getElem?.1 hmem)
  obtain ⟨m, hgood, hname, rfl⟩ := h.filed keyId bytes hbytes
  exact ⟨m, h.stored_iff.2 ⟨hbytes, hgood, hname⟩⟩

theorem exists_of_mem_mapM {ε α β : Type} {f : α → Except ε β} {as : List α} {bs : List β} {b : β}
    (h : as.mapM f = .ok bs) (hmem : b ∈ bs) : ∃ a ∈ as, f a = .ok b := by
  induction as generalizing bs with
  | nil =>
    obtain rfl := Except.ok.inj h
    cases hmem
  | cons a as ih =>
    rw [List.mapM_cons, bind_eq_ok] at h
    obtain ⟨b', hb', h⟩ := h
    obtain ⟨bs', hbs', h⟩ := bind_eq_ok.1 h
    obtain rfl := Except.ok.inj h
    rcases List.mem_cons.1 hmem with rfl | hmem
    · exact ⟨a, List.mem_cons_self, hb'⟩
    · obtain ⟨a', ha', heq⟩ := ih hbs' hmem
      exact ⟨a', List.mem_cons_of_mem _ ha', heq⟩

theorem validateKeyId_ok {keyId : String} : validateKeyId keyId = .ok () ↔ IsKeyId keyId := by
  unfold validateKeyId
  split
  next h => simp [h]
  next h => simp [h]

/-- A key is read when its file is not too large. -/
theorem Sound.readKey_ok (h : keyring.Sound) : keyring.readKey keyId = .ok material ↔
    keyring.stored keyId = some material ∧ (materialFile material).length ≤ maxKeyFileBytes := by
  rw [readKey, bind_eq_ok]
  constructor
  · rintro ⟨_, -, hread⟩
    split at hread
    · cases hread
    next bytes hbytes =>
      obtain ⟨m, hgood, hname, rfl⟩ := h.filed keyId bytes hbytes
      rw [readMaterial, parse_materialFile hgood] at hread
      split at hread
      · cases hread
      next hsize =>
        cases hread
        exact ⟨h.stored_iff.2 ⟨hbytes, hgood, hname⟩, not_lt.1 hsize⟩
  · rintro ⟨hstored, hsize⟩
    obtain ⟨hbytes, hgood, hname⟩ := h.stored_iff.1 hstored
    refine ⟨(), validateKeyId_ok.2 (hname ▸ hgood.key), ?_⟩
    rw [hbytes]
    dsimp only
    rw [readMaterial, if_neg (not_lt.2 hsize), parse_materialFile hgood]

/-- A pointer is read back. -/
theorem readActiveId_of_pointer (h : keyring.active = some (pointerFile keyId))
    (hkey : IsKeyId keyId) : keyring.readActiveId = .ok keyId := by
  have hplain : IsPlain keyId.toList := hkey.2.2
  have hascii : IsAscii keyId.toList := fun c hc => by
    have := toNat_of_isKeyIdChar (hplain c hc)
    omega
  have hfile : pointerFile keyId = utf8 (keyId.toList ++ ['\n']) := by
    rw [utf8_append]
    rfl
  have hsize : ¬ maxPointerBytes < (pointerFile keyId).length := by
    rw [pointerFile, strBytes, utf8_of_ascii hascii, List.length_append, List.length_map]
    have := hkey.2.1
    simp only [maxPointerBytes, List.length_singleton]
    omega
  have htrim : trim (keyId.toList ++ ['\n']) = keyId.toList := by
    rw [trim_newline, hplain.trim]
  rw [readActiveId, h]
  dsimp only
  rw [if_neg hsize, hfile, fromUtf8_utf8]
  dsimp only
  rw [htrim, String.ofList_toList, validateKeyId_ok.2 hkey]
  rfl

/-- The pointer is to the key that it was last set to. -/
theorem Sound.readActiveId_ok (h : keyring.Sound) : keyring.readActiveId = .ok keyId ↔
    keyring.active = some (pointerFile keyId) ∧ keyring.targets.getLast? = some keyId := by
  have hname {k : String} (hlast : keyring.targets.getLast? = some k) : IsKeyId k := by
    obtain ⟨m, hm⟩ := h.exists_stored (h.targeted k (List.mem_of_getLast? hlast))
    obtain ⟨-, hgood, rfl⟩ := h.stored_iff.1 hm
    exact hgood.key
  constructor
  · intro hread
    obtain hnone | ⟨k, hk, hlast⟩ := h.pointed
    · rw [readActiveId, hnone] at hread
      cases hread
    · rw [readActiveId_of_pointer hk (hname hlast)] at hread
      obtain rfl := Except.ok.inj hread
      exact ⟨hk, hlast⟩
  · rintro ⟨hactive, hlast⟩
    exact readActiveId_of_pointer hactive (hname hlast)

theorem validateForIssue_ok {nowMs : UInt64} : validateForIssue material nowMs = .ok () ↔
    material.metadata.status = .active ∧ material.isExpired nowMs = false := by
  rw [validateForIssue, validateForValidation]
  cases hstatus : material.metadata.status <;> cases hexpired : material.isExpired nowMs <;>
    simp [bind, Except.bind]

theorem validateForValidation_ok {nowMs : UInt64} : validateForValidation material nowMs = .ok () ↔
    material.metadata.status ≠ .revoked ∧ material.isExpired nowMs = false := by
  rw [validateForValidation]
  cases hstatus : material.metadata.status <;> cases hexpired : material.isExpired nowMs <;> simp

theorem validateNewActive_ok {nowMs : UInt64} : validateNewActive material nowMs = .ok () ↔
    Good material ∧ material.metadata.status = .active ∧ material.isExpired nowMs = false := by
  rw [validateNewActive, bind_eq_ok]
  constructor
  · rintro ⟨_, hkey, hrest⟩
    split at hrest
    · cases hrest
    next hsecret =>
      exact ⟨⟨validateKeyId_ok.1 hkey, not_lt.1 hsecret⟩, validateForIssue_ok.1 hrest⟩
  · rintro ⟨hgood, hissue⟩
    refine ⟨(), validateKeyId_ok.2 hgood.key, ?_⟩
    rw [if_neg (not_lt.2 hgood.secret)]
    exact validateForIssue_ok.2 hissue

theorem ok_of_toOption {ε α : Type} {x : Except ε α} {a : α} (h : x.toOption = some a) :
    x = .ok a := by
  cases x with
  | error e => cases h
  | ok b => exact congrArg Except.ok (Option.some.inj h)

theorem Sound.of_resolveActive (h : keyring.Sound) {nowMs : UInt64}
    (hactive : keyring.resolveActive nowMs = .ok material) :
    keyring.readActiveId = .ok material.metadata.keyId ∧
      keyring.readKey material.metadata.keyId = .ok material ∧
      validateForIssue material nowMs = .ok () := by
  rw [resolveActive, bind_eq_ok] at hactive
  obtain ⟨active, hpointer, hactive⟩ := hactive
  obtain ⟨m, hkey, hactive⟩ := bind_eq_ok.1 hactive
  obtain ⟨_, hissue, hm⟩ := bind_eq_ok.1 hactive
  obtain rfl := Except.ok.inj hm
  obtain ⟨-, -, rfl⟩ := h.stored_iff.1 (h.readKey_ok.1 hkey).1
  exact ⟨hpointer, hkey, hissue⟩

theorem resolveForValidation_of_readKey {nowMs : UInt64} (hread : keyring.readKey keyId = .ok material)
    (hstatus : material.metadata.status ≠ .revoked) (hexpired : material.isExpired nowMs = false) :
    keyring.resolveForValidation keyId nowMs = .ok material := by
  obtain ⟨_, hkey, -⟩ := bind_eq_ok.1 hread
  rw [resolveForValidation, hkey, ok_bind, hread, ok_bind,
    validateForValidation_ok.2 ⟨hstatus, hexpired⟩]
  rfl

theorem Sound.of_resolveForValidation (h : keyring.Sound) {nowMs : UInt64}
    (hvalidation : keyring.resolveForValidation keyId nowMs = .ok material) :
    material.metadata.keyId = keyId ∧ keyring.readKey keyId = .ok material ∧
      validateForValidation material nowMs = .ok () := by
  rw [resolveForValidation, bind_eq_ok] at hvalidation
  obtain ⟨_, -, hvalidation⟩ := hvalidation
  obtain ⟨m, hkey, hvalidation⟩ := bind_eq_ok.1 hvalidation
  obtain ⟨_, hvalid, hm⟩ := bind_eq_ok.1 hvalidation
  obtain rfl := Except.ok.inj hm
  exact ⟨(h.stored_iff.1 (h.readKey_ok.1 hkey).1).2.2, hkey, hvalid⟩

/-! ## Single writes -/

/-- A key's file is written. -/
def putKey (keyring : FileSecretKeyring) (material : SecuritySecretMaterial) : FileSecretKeyring :=
  { keyring with keys := keyring.keys.insert material.metadata.keyId (materialFile material) }

/-- The pointer is set. -/
def point (keyring : FileSecretKeyring) (keyId : String) : FileSecretKeyring :=
  { keyring with active := some (pointerFile keyId), targets := keyring.targets ++ [keyId] }

/-- The pointer is removed. -/
def unpoint (keyring : FileSecretKeyring) : FileSecretKeyring := { keyring with active := none }

@[simp] theorem active_putKey : (keyring.putKey material).active = keyring.active := rfl

@[simp] theorem targets_putKey : (keyring.putKey material).targets = keyring.targets := rfl

@[simp] theorem active_point : (keyring.point keyId).active = some (pointerFile keyId) := rfl

@[simp] theorem targets_point : (keyring.point keyId).targets = keyring.targets ++ [keyId] := rfl

@[simp] theorem active_unpoint : keyring.unpoint.active = none := rfl

@[simp] theorem targets_unpoint : keyring.unpoint.targets = keyring.targets := rfl

@[simp] theorem stored_point (k : String) : (keyring.point keyId).stored k = keyring.stored k := rfl

@[simp] theorem stored_unpoint (k : String) : keyring.unpoint.stored k = keyring.stored k := rfl

theorem stored_putKey (h : Good material) (k : String) : (keyring.putKey material).stored k =
    if material.metadata.keyId = k then some material else keyring.stored k := by
  rw [stored, putKey, lookup_insert]
  split
  · rw [Option.bind_some, parse_materialFile h]
    rfl
  · rfl

theorem Sound.putKey (hs : keyring.Sound) (h : Good material) : (keyring.putKey material).Sound := by
  refine ⟨fun keyId bytes hbytes => ?_, hs.pointed, fun keyId hkey => ?_⟩
  · rw [FileSecretKeyring.putKey, lookup_insert] at hbytes
    split at hbytes
    next hname => exact ⟨material, h, hname, (Option.some.inj hbytes).symm⟩
    next => exact hs.filed keyId bytes hbytes
  · exact Std.ExtTreeMap.mem_insert.2 (Or.inr (hs.targeted keyId hkey))

theorem Sound.point (hs : keyring.Sound) (h : keyring.stored keyId = some material) :
    (keyring.point keyId).Sound := by
  refine ⟨hs.filed, Or.inr ⟨keyId, rfl, by simp⟩, fun k hk => ?_⟩
  rcases List.mem_append.1 hk with hk | hk
  · exact hs.targeted k hk
  · obtain rfl := List.mem_singleton.1 hk
    exact Std.ExtTreeMap.mem_iff_isSome_getElem?.2
      (Option.isSome_iff_exists.2 ⟨_, (hs.stored_iff.1 h).1⟩)

theorem Sound.unpoint (hs : keyring.Sound) : keyring.unpoint.Sound :=
  ⟨hs.filed, Or.inl rfl, hs.targeted⟩

theorem Good.withStatus (h : Good material) (status : SecuritySecretStatus) :
    Good (material.withStatus status) :=
  ⟨h.key, h.secret⟩

section

variable {C : FileSecretKeyring → Prop}
  {Q : Except SecretAccessError Unit → FileSecretKeyring → Prop}

theorem wp_persistKey (h : Good material) : (persistKey material).wp C Q keyring ↔
    C (keyring.putKey material) ∧ Q (.ok ()) (keyring.putKey material) := by
  rw [persistKey, wp_step, validateKeyId_ok.2 h.key]
  simp [ok_bind, FileSecretKeyring.putKey]

theorem wp_persistActive (h : IsKeyId keyId) : (persistActive keyId).wp C Q keyring ↔
    C (keyring.point keyId) ∧ Q (.ok ()) (keyring.point keyId) := by
  rw [persistActive, wp_step, validateKeyId_ok.2 h]
  simp [ok_bind, FileSecretKeyring.point]

theorem wp_removeActive : removeActive.wp C Q keyring ↔
    C keyring.unpoint ∧ Q (.ok ()) keyring.unpoint := by
  rw [removeActive, wp_step]
  simp [FileSecretKeyring.unpoint]

end

/-! ## What a call leaves -/

/-- What a call leaves in the file of a key. -/
inductive Aged (call : KeyringCall) (before after : FileSecretKeyring) (keyId : String) : Prop where
  | same (h : after.stored keyId = before.stored keyId)
  | installed {material : SecuritySecretMaterial} (hcall : call.installs before = some material)
      (hname : material.metadata.keyId = keyId) (hstatus : material.metadata.status = .active)
      (h : after.stored keyId = some material)
  | deprecated {old next : SecuritySecretMaterial} {nowMs : UInt64} (hcall : call = .rotate next nowMs)
      (hactive : before.readActiveId = .ok keyId) (hbefore : before.stored keyId = some old)
      (hstatus : old.metadata.status ≠ .revoked)
      (h : after.stored keyId = some (old.withStatus .deprecated))
  | revoked {old : SecuritySecretMaterial} (hcall : call = .revoke keyId)
      (hbefore : before.stored keyId = some old)
      (h : after.stored keyId = some (old.withStatus .revoked))

/-- Where a call leaves the pointer. -/
inductive Moved (call : KeyringCall) (before after : FileSecretKeyring) : Prop where
  | same (hactive : after.active = before.active) (htargets : after.targets = before.targets)
  | removed (hactive : after.active = none) (htargets : after.targets = before.targets)
  | pointed {keyId : String} {material : SecuritySecretMaterial}
      (hactive : after.active = some (pointerFile keyId))
      (htargets : after.targets = before.targets ++ [keyId])
      (hstored : after.stored keyId = some material) (hstatus : material.metadata.status = .active)

/-- A state in which a call can be stopped. -/
structure Reached (call : KeyringCall) (before after : FileSecretKeyring) : Prop where
  sound : after.Sound
  aged : ∀ keyId, Aged call before after keyId
  moved : Moved call before after

/-- The state in which a call that succeeded leaves the keys it retires. -/
def Retired (call : KeyringCall) (result : Except SecretAccessError (Option String))
    (after : FileSecretKeyring) : Prop :=
  match call, result with
  | .rotate .., .ok (some previous) =>
    ∃ material, after.stored previous = some material ∧ material.metadata.status ≠ .active
  | .revoke keyId, .ok _ =>
    ∃ material, after.stored keyId = some material ∧ material.metadata.status = .revoked
  | _, _ => True

variable {call : KeyringCall} {before after : FileSecretKeyring}

theorem Sound.reached (h : before.Sound) : Reached call before before :=
  ⟨h, fun _ => .same rfl, .same rfl rfl⟩

theorem Reached.targets_subset (h : Reached call before after) : before.targets ⊆ after.targets := by
  cases h.moved with
  | same _ htargets => exact htargets ▸ List.Subset.refl _
  | removed _ htargets => exact htargets ▸ List.Subset.refl _
  | pointed _ htargets _ _ => exact htargets ▸ List.subset_append_left _ _

theorem Aged.of_eq {k : String} (h : Aged call before after k) {later : FileSecretKeyring}
    (heq : later.stored k = after.stored k) : Aged call before later k := by
  cases h with
  | same h => exact .same (heq.trans h)
  | installed hcall hname hstatus h => exact .installed hcall hname hstatus (heq.trans h)
  | deprecated hcall hactive hbefore hstatus h =>
    exact .deprecated hcall hactive hbefore hstatus (heq.trans h)
  | revoked hcall hbefore h => exact .revoked hcall hbefore (heq.trans h)

theorem Reached.putKey (h : Reached call before after) (hgood : Good material)
    (haged : Aged call before (after.putKey material) material.metadata.keyId)
    (hmoved : Moved call before (after.putKey material)) :
    Reached call before (after.putKey material) := by
  refine ⟨h.sound.putKey hgood, fun k => ?_, hmoved⟩
  by_cases hk : material.metadata.keyId = k
  · exact hk ▸ haged
  · exact (h.aged k).of_eq (by rw [stored_putKey hgood, if_neg hk])

theorem stored_putKey_self (keyring : FileSecretKeyring) (h : Good material) :
    (keyring.putKey material).stored material.metadata.keyId = some material := by
  rw [stored_putKey h, if_pos rfl]

theorem Reached.install (h : before.Sound) (hcall : call.installs before = some material)
    (hgood : Good material) (hstatus : material.metadata.status = .active) :
    Reached call before (before.putKey material) :=
  h.reached.putKey hgood (.installed hcall rfl hstatus (stored_putKey_self _ hgood)) (.same rfl rfl)

theorem Reached.point (h : Reached call before after) (htargets : after.targets = before.targets)
    (hstored : after.stored keyId = some material) (hstatus : material.metadata.status = .active) :
    Reached call before (after.point keyId) := by
  refine ⟨h.sound.point hstored, fun k => (h.aged k).of_eq rfl, ?_⟩
  exact .pointed rfl (by rw [targets_point, htargets]) hstored hstatus

section

variable {nowMs : UInt64}

theorem installs_installInitial (hvalid : validateNewActive material nowMs = .ok ())
    (hactive : before.active = none) :
    (KeyringCall.installInitial material nowMs).installs before = some material :=
  if_pos ⟨by rw [hvalid]; rfl, hactive⟩

theorem installs_rotate (hvalid : validateNewActive material nowMs = .ok ())
    (hactive : before.readActiveId.toOption ≠ some material.metadata.keyId) :
    (KeyringCall.rotate material nowMs).installs before = some material :=
  if_pos ⟨by rw [hvalid]; rfl, hactive⟩

theorem of_installs_installInitial {m : SecuritySecretMaterial}
    (h : (KeyringCall.installInitial m nowMs).installs before = some material) :
    m = material ∧ validateNewActive m nowMs = .ok () ∧ before.active = none := by
  rw [KeyringCall.installs] at h
  split at h
  next hwrites =>
    refine ⟨Option.some.inj h, ?_, hwrites.2⟩
    cases hvalid : validateNewActive m nowMs with
    | ok u => rfl
    | error e =>
      rw [hvalid] at hwrites
      exact nomatch hwrites.1
  next => cases h

theorem of_installs_rotate {m : SecuritySecretMaterial}
    (h : (KeyringCall.rotate m nowMs).installs before = some material) :
    m = material ∧ validateNewActive m nowMs = .ok () ∧
      before.readActiveId.toOption ≠ some m.metadata.keyId := by
  rw [KeyringCall.installs] at h
  split at h
  next hwrites =>
    refine ⟨Option.some.inj h, ?_, hwrites.2⟩
    cases hvalid : validateNewActive m nowMs with
    | ok u => rfl
    | error e =>
      rw [hvalid] at hwrites
      exact nomatch hwrites.1
  next => cases h

/-- `install_initial`, when it gets to write. -/
theorem wp_installInitial {C : FileSecretKeyring → Prop}
    {Q : Except SecretAccessError Unit → FileSecretKeyring → Prop}
    (hcall : (KeyringCall.installInitial material nowMs).installs before = some material)
    (hput : C (before.putKey material))
    (hpoint : C ((before.putKey material).point material.metadata.keyId))
    (hend : Q (.ok ()) ((before.putKey material).point material.metadata.keyId)) :
    (installInitial material nowMs).wp C Q before := by
  obtain ⟨-, hvalid, hnone⟩ := of_installs_installInitial hcall
  have hgood := (validateNewActive_ok.1 hvalid).1
  rw [installInitial, wp_read_bind, hvalid]
  refine ⟨fun _ _ => ?_, fun _ h => nomatch h⟩
  rw [wp_read_bind, hnone]
  refine ⟨fun _ _ => ?_, fun _ h => nomatch h⟩
  rw [wp_bind, wp_persistKey hgood]
  refine ⟨hput, ?_⟩
  dsimp only
  rw [wp_persistActive hgood.key]
  exact ⟨hpoint, hend⟩

/-- `rotate`, when it gets to write. -/
theorem wp_rotate {C : FileSecretKeyring → Prop}
    {Q : Except SecretAccessError (Option String) → FileSecretKeyring → Prop}
    (hcall : (KeyringCall.rotate material nowMs).installs before = some material)
    (hput : C (before.putKey material))
    (hpoint : C ((before.putKey material).point material.metadata.keyId))
    (hnone : ∀ e, before.readActiveId = .error e →
      Q (.ok none) ((before.putKey material).point material.metadata.keyId))
    (hunread : ∀ previous e, before.readActiveId = .ok previous →
      ((before.putKey material).point material.metadata.keyId).readKey previous = .error e →
      Q (.error e) ((before.putKey material).point material.metadata.keyId))
    (hrevoked : ∀ previous old, before.readActiveId = .ok previous →
      ((before.putKey material).point material.metadata.keyId).readKey previous = .ok old →
      old.metadata.status = .revoked →
      Q (.ok (some previous)) ((before.putKey material).point material.metadata.keyId))
    (hdeprecated : ∀ previous old, before.readActiveId = .ok previous →
      ((before.putKey material).point material.metadata.keyId).readKey previous = .ok old →
      old.metadata.status ≠ .revoked →
      (persistKey (old.withStatus .deprecated)).wp C (fun result after =>
        match result with
        | .ok _ => Q (.ok (some previous)) after
        | .error e => Q (.error e) after)
        ((before.putKey material).point material.metadata.keyId)) :
    (rotate material nowMs).wp C Q before := by
  obtain ⟨-, hvalid, hconflict⟩ := of_installs_rotate hcall
  have hgood := (validateNewActive_ok.1 hvalid).1
  rw [rotate, wp_read_bind, hvalid]
  refine ⟨fun _ _ => ?_, fun _ h => nomatch h⟩
  rw [wp_read_bind]
  refine ⟨fun previous hprevious => ?_, fun _ h => nomatch h⟩
  obtain rfl := Except.ok.inj hprevious
  rw [if_neg hconflict, wp_bind, wp_persistKey hgood]
  refine ⟨hput, ?_⟩
  dsimp only
  rw [wp_bind, wp_persistActive hgood.key]
  refine ⟨hpoint, ?_⟩
  dsimp only
  cases hactive : before.readActiveId with
  | error e => exact wp_pure.2 (hnone e hactive)
  | ok previous =>
    change wp (read _ >>= _) _ _ _
    rw [wp_read_bind]
    refine ⟨fun old hold => ?_, fun e hread => hunread previous e hactive hread⟩
    by_cases hstatus : old.metadata.status = .revoked
    · rw [if_pos hstatus, wp_pure]
      exact hrevoked previous old hactive hold hstatus
    · rw [if_neg hstatus, wp_bind]
      refine wp_mono (hdeprecated previous old hactive hold hstatus) (fun _ h => h) ?_
      rintro (e | _) after hafter
      · exact hafter
      · exact wp_pure.2 hafter

theorem final_installInitial (h : (KeyringCall.installInitial material nowMs).installs before = none) :
    (installInitial material nowMs).wp (fun _ => False) (fun _ after => after = before) before := by
  rw [installInitial, wp_read_bind]
  refine ⟨fun _ hvalid => ?_, fun _ _ => rfl⟩
  rw [wp_read_bind]
  refine ⟨fun _ hactive => ?_, fun _ _ => rfl⟩
  have hnone : before.active = none := by
    cases hactive' : before.active with
    | none => rfl
    | some bytes =>
      rw [hactive'] at hactive
      cases hactive
  rw [installs_installInitial hvalid hnone] at h
  cases h

theorem final_rotate (h : (KeyringCall.rotate material nowMs).installs before = none) :
    (rotate material nowMs).wp (fun _ => False) (fun result after => result.isOk = false ∧
      after = before) before := by
  rw [rotate, wp_read_bind]
  refine ⟨fun _ hvalid => ?_, fun _ _ => ⟨rfl, rfl⟩⟩
  rw [wp_read_bind]
  refine ⟨fun previous hprevious => ?_, fun _ hread => nomatch hread⟩
  obtain rfl := Except.ok.inj hprevious
  by_cases hconflict : before.readActiveId.toOption = some material.metadata.keyId
  · rw [if_pos hconflict, wp_fail]
    exact ⟨rfl, rfl⟩
  · rw [installs_rotate hvalid hconflict] at h
    cases h

theorem reached_installInitial (h : before.Sound) :
    (installInitial material nowMs).wp (Reached (.installInitial material nowMs) before)
      (fun _ => Reached (.installInitial material nowMs) before) before := by
  cases hcall : (KeyringCall.installInitial material nowMs).installs before with
  | none =>
    refine wp_mono (final_installInitial hcall) (fun _ hfalse => hfalse.elim) ?_
    rintro _ _ rfl
    exact h.reached
  | some m =>
    obtain ⟨rfl, hvalid, -⟩ := of_installs_installInitial hcall
    obtain ⟨hgood, hstatus, -⟩ := validateNewActive_ok.1 hvalid
    have hput := Reached.install h hcall hgood hstatus
    have hpoint := hput.point rfl (stored_putKey_self _ hgood) hstatus
    exact wp_installInitial hcall hput hpoint hpoint

theorem reached_rotate (h : before.Sound) :
    (rotate material nowMs).wp (Reached (.rotate material nowMs) before)
      (fun result after => Reached (.rotate material nowMs) before after ∧
        Retired (.rotate material nowMs) result after) before := by
  cases hcall : (KeyringCall.rotate material nowMs).installs before with
  | none =>
    refine wp_mono (final_rotate hcall) (fun _ hfalse => hfalse.elim) ?_
    rintro (e | previous) _ ⟨hfail, rfl⟩
    · exact ⟨h.reached, trivial⟩
    · cases hfail
  | some m =>
    obtain ⟨rfl, hvalid, hconflict⟩ := of_installs_rotate hcall
    obtain ⟨hgood, hstatus, -⟩ := validateNewActive_ok.1 hvalid
    have hput := Reached.install h hcall hgood hstatus
    have hpoint := hput.point rfl (stored_putKey_self _ hgood) hstatus
    refine wp_rotate hcall hput hpoint (fun _ _ => ⟨hpoint, trivial⟩)
      (fun _ _ _ _ => ⟨hpoint, trivial⟩) (fun previous old _ hold hrevoked => ?_)
      (fun previous old hactive hold hrevoked => ?_)
    · refine ⟨hpoint, old, (hpoint.sound.readKey_ok.1 hold).1, ?_⟩
      rw [hrevoked]
      decide
    · have hne : material.metadata.keyId ≠ previous := by
        rintro rfl
        exact hconflict (by rw [hactive]; rfl)
      -- The old key's file is not the one that was just written.
      have hafter := (hpoint.sound.readKey_ok.1 hold).1
      rw [stored_point, stored_putKey hgood, if_neg hne] at hafter
      obtain ⟨-, hgoodOld, rfl⟩ := h.stored_iff.1 hafter
      have hlast := stored_putKey_self ((before.putKey material).point
        material.metadata.keyId) (hgoodOld.withStatus .deprecated)
      have hreached : Reached (.rotate material nowMs) before
          (((before.putKey material).point material.metadata.keyId).putKey (old.withStatus .deprecated)) := by
        refine hpoint.putKey (hgoodOld.withStatus _)
          (.deprecated rfl hactive hafter hrevoked hlast) ?_
        refine .pointed rfl rfl ?_ hstatus
        rw [stored_putKey (hgoodOld.withStatus _), keyId_withStatus, if_neg (Ne.symm hne),
          stored_point]
        exact stored_putKey_self _ hgood
      rw [wp_persistKey (hgoodOld.withStatus _)]
      exact ⟨hreached, hreached, old.withStatus .deprecated, hlast,
        by rw [status_withStatus]; decide⟩

/-- The key that a call installs is the active one in the end. The call succeeds when the key that
was active can be read. -/
def Installed (before : FileSecretKeyring) (material : SecuritySecretMaterial)
    (result : Except SecretAccessError (Option String)) (after : FileSecretKeyring) : Prop :=
  after.readActiveId = .ok material.metadata.keyId ∧
    after.stored material.metadata.keyId = some material ∧
    ((∀ previous, before.readActiveId = .ok previous → (before.readKey previous).isOk) →
      result = .ok before.readActiveId.toOption)

theorem readKey_putKey {k : String} (h : material.metadata.keyId ≠ k) :
    (keyring.putKey material).readKey k = keyring.readKey k := by
  rw [readKey, readKey, putKey, lookup_insert, if_neg h]

theorem installed_installInitial
    (hcall : (KeyringCall.installInitial material nowMs).installs before = some material) :
    (installInitial material nowMs).wp (fun _ => True)
      (fun result after => result = .ok () ∧
        Installed before material (.ok before.readActiveId.toOption) after) before := by
  obtain ⟨-, hvalid, -⟩ := of_installs_installInitial hcall
  obtain ⟨hgood, -, -⟩ := validateNewActive_ok.1 hvalid
  exact wp_installInitial hcall trivial trivial
    ⟨rfl, readActiveId_of_pointer rfl hgood.key, stored_putKey_self _ hgood, fun _ => rfl⟩

/-- An initial key is not installed over an active one. -/
theorem result_installInitial (hvalid : validateNewActive material nowMs = .ok ())
    (hactive : before.active.isSome) :
    (KeyringCall.installInitial material nowMs).prog.result before = .error .conflict := by
  have hend : (installInitial material nowMs).wp (fun _ => True)
      (fun result _ => result = .error .conflict) before := by
    rw [installInitial, wp_read_bind, hvalid]
    refine ⟨fun _ _ => ?_, fun _ h => nomatch h⟩
    rw [wp_read_bind, if_pos hactive]
    refine ⟨fun _ h => (nomatch h), fun e he => ?_⟩
    rw [Except.error.inj he]
  have hprog : wp (installInitial material nowMs >>= fun _ => pure none) (fun _ => True)
      (fun (result : Except SecretAccessError (Option String)) _ => result = .error .conflict)
      before := by
    rw [wp_bind]
    refine wp_mono hend (fun _ _ => trivial) ?_
    rintro _ after rfl
    rfl
  exact hprog.2

theorem installed_rotate (h : before.Sound)
    (hcall : (KeyringCall.rotate material nowMs).installs before = some material) :
    (rotate material nowMs).wp (fun _ => True) (Installed before material) before := by
  obtain ⟨-, hvalid, hconflict⟩ := of_installs_rotate hcall
  obtain ⟨hgood, -, -⟩ := validateNewActive_ok.1 hvalid
  have hne {previous : String} (hactive : before.readActiveId = .ok previous) :
      material.metadata.keyId ≠ previous := by
    rintro rfl
    exact hconflict (by rw [hactive]; rfl)
  have hpointer : ((before.putKey material).point material.metadata.keyId).readActiveId =
      .ok material.metadata.keyId := readActiveId_of_pointer rfl hgood.key
  refine wp_rotate hcall trivial trivial
    (fun e hactive => ⟨hpointer, stored_putKey_self _ hgood, fun _ => by rw [hactive]; rfl⟩)
    (fun previous e hactive hread => ⟨hpointer, stored_putKey_self _ hgood, fun hok => ?_⟩)
    (fun previous old hactive _ _ => ⟨hpointer, stored_putKey_self _ hgood,
      fun _ => by rw [hactive]; rfl⟩)
    (fun previous old hactive hold _ => ?_)
  · have hbefore := hok previous hactive
    rw [← readKey_putKey (hne hactive)] at hbefore
    rw [show (before.putKey material).readKey previous = .error e from hread] at hbefore
    cases hbefore
  · have hstored := (h.readKey_ok.1 ((readKey_putKey (hne hactive)).symm.trans hold)).1
    obtain ⟨-, hgoodOld, rfl⟩ := h.stored_iff.1 hstored
    rw [wp_persistKey (hgoodOld.withStatus _)]
    refine ⟨trivial, readActiveId_of_pointer rfl hgood.key, ?_, fun _ => by rw [hactive]; rfl⟩
    rw [stored_putKey (hgoodOld.withStatus _), keyId_withStatus, if_neg (hne hactive).symm]
    exact stored_putKey_self _ hgood

/-- **A call that gets to write ends with its key active.** -/
theorem Sound.installed (h : before.Sound) (hcall : call.installs before = some material) :
    Installed before material (call.prog.result before) (call.prog.final before) := by
  cases call with
  | installInitial m nowMs =>
    obtain ⟨rfl, -⟩ := of_installs_installInitial hcall
    have hend : wp (installInitial m nowMs >>= fun _ => pure none) (fun _ => True)
        (Installed before m) before := by
      have hnone : before.readActiveId.toOption = none := by
        rw [readActiveId, (of_installs_installInitial hcall).2.2]
        rfl
      rw [wp_bind]
      refine wp_mono (installed_installInitial hcall) (fun _ _ => trivial) ?_
      rintro _ after ⟨rfl, hafter⟩
      rw [hnone] at hafter
      exact wp_pure.2 hafter
    exact hend.2
  | rotate next nowMs =>
    obtain ⟨rfl, -⟩ := of_installs_rotate hcall
    exact (installed_rotate h hcall).2
  | revoke keyId => cases hcall
  | recover nowMs => cases hcall

theorem reached_revoke (h : before.Sound) :
    (revoke keyId).wp (Reached (.revoke keyId) before)
      (fun result after => Reached (.revoke keyId) before after ∧
        (result = .ok () → ∃ material, after.stored keyId = some material ∧
          material.metadata.status = .revoked)) before := by
  rw [revoke, wp_read_bind]
  refine ⟨fun _ _ => ?_, fun _ _ => ⟨h.reached, nofun⟩⟩
  rw [wp_read_bind]
  refine ⟨fun old hold => ?_, fun _ _ => ⟨h.reached, nofun⟩⟩
  have hbefore := (h.readKey_ok.1 hold).1
  obtain ⟨-, hgood, rfl⟩ := h.stored_iff.1 hbefore
  have hlast := stored_putKey_self before (hgood.withStatus .revoked)
  have hput : Reached (.revoke old.metadata.keyId) before (before.putKey (old.withStatus .revoked)) :=
    h.reached.putKey (hgood.withStatus _) (.revoked rfl hbefore hlast) (.same rfl rfl)
  rw [wp_bind, wp_persistKey (hgood.withStatus _)]
  refine ⟨hput, ?_⟩
  dsimp only
  rw [wp_read_bind]
  refine ⟨fun active _ => ?_, fun _ hread => nomatch hread⟩
  by_cases hactive : active = some old.metadata.keyId
  · have hgone : Reached (.revoke old.metadata.keyId) before
        (before.putKey (old.withStatus .revoked)).unpoint :=
      ⟨hput.sound.unpoint, fun k => (hput.aged k).of_eq rfl, .removed rfl rfl⟩
    rw [if_pos hactive, wp_removeActive]
    exact ⟨hgone, hgone, fun _ => ⟨_, hlast, rfl⟩⟩
  · rw [if_neg hactive, wp_pure]
    exact ⟨hput, fun _ => ⟨_, hlast, rfl⟩⟩

/-- A candidate is a key that can be used. -/
theorem Sound.of_mem_candidates (h : keyring.Sound) {candidates : List String}
    (hcandidates : keyring.activeCandidates nowMs = .ok candidates) (hmem : keyId ∈ candidates) :
    ∃ material, keyring.stored keyId = some material ∧ material.metadata.status = .active := by
  rw [activeCandidates, bind_eq_ok] at hcandidates
  obtain ⟨materials, hmaterials, hlist⟩ := hcandidates
  obtain rfl := Except.ok.inj hlist
  obtain ⟨material, hmaterial, rfl⟩ := List.mem_map.1 hmem
  obtain ⟨hmaterial, hissue⟩ := List.mem_filter.1 hmaterial
  obtain ⟨⟨k, bytes⟩, hentry, hread⟩ := exists_of_mem_mapM hmaterials hmaterial
  have hbytes := Std.ExtTreeMap.mem_toList_iff_getElem?_eq_some.1 hentry
  obtain ⟨m, hgood, rfl, rfl⟩ := h.filed k bytes hbytes
  change readMaterial (materialFile m) = _ at hread
  rw [readMaterial, parse_materialFile hgood] at hread
  split at hread
  · cases hread
  · obtain rfl := Except.ok.inj hread
    refine ⟨m, h.stored_iff.2 ⟨hbytes, hgood, rfl⟩, ?_⟩
    cases hvalid : validateForIssue m nowMs with
    | error e =>
      rw [hvalid] at hissue
      cases hissue
    | ok u => exact (validateForIssue_ok.1 hvalid).1

theorem reached_recover (h : before.Sound) :
    (recover nowMs).wp (Reached (.recover nowMs) before)
      (fun _ => Reached (.recover nowMs) before) before := by
  rw [recover, wp_read_bind]
  refine ⟨fun active hread => ?_, fun _ hread => nomatch hread⟩
  obtain rfl := Except.ok.inj hread
  cases hactive : before.readActiveId with
  | ok active =>
    change wp (read _ >>= _) _ _ _
    rw [wp_read_bind]
    refine ⟨fun _ _ => ?_, fun _ _ => h.reached⟩
    rw [wp_pure]
    exact h.reached
  | error e =>
    change wp (read _ >>= _) _ _ _
    rw [wp_read_bind]
    refine ⟨fun candidates hcandidates => ?_, fun _ _ => h.reached⟩
    match candidates with
    | [] => exact wp_fail.2 h.reached
    | _ :: _ :: _ => exact wp_fail.2 h.reached
    | [candidate] =>
      obtain ⟨material, hstored, hstatus⟩ :=
        h.of_mem_candidates hcandidates List.mem_cons_self
      obtain ⟨-, hgood, rfl⟩ := h.stored_iff.1 hstored
      have hpoint : Reached (.recover nowMs) before (before.point material.metadata.keyId) :=
        h.reached.point rfl hstored hstatus
      change wp (persistActive _ >>= _) _ _ _
      rw [wp_bind, wp_persistActive hgood.key]
      refine ⟨hpoint, ?_⟩
      dsimp only
      rw [wp_pure]
      exact hpoint

end

/-- **What a call leaves, wherever it stops.** -/
theorem Sound.reached_prog (h : before.Sound) (call : KeyringCall) :
    call.prog.wp (Reached call before)
      (fun result after => Reached call before after ∧ Retired call result after) before := by
  cases call with
  | installInitial material nowMs =>
    change wp (installInitial material nowMs >>= _) _ _ _
    rw [wp_bind]
    refine wp_mono (reached_installInitial h) (fun _ hreached => hreached) ?_
    rintro (e | _) after hafter
    · exact ⟨hafter, trivial⟩
    · exact wp_pure.2 ⟨hafter, trivial⟩
  | rotate next nowMs => exact reached_rotate h
  | revoke keyId =>
    change wp (revoke keyId >>= _) _ _ _
    rw [wp_bind]
    refine wp_mono (reached_revoke h) (fun _ hreached => hreached) ?_
    rintro (e | _) after ⟨hafter, hretired⟩
    · exact ⟨hafter, trivial⟩
    · exact wp_pure.2 ⟨hafter, hretired rfl⟩
  | recover nowMs =>
    change wp (recover nowMs >>= _) _ _ _
    rw [wp_bind]
    refine wp_mono (reached_recover h) (fun _ hreached => hreached) ?_
    rintro (e | _) after hafter
    · exact ⟨hafter, trivial⟩
    · exact wp_pure.2 ⟨hafter, trivial⟩

theorem Sound.reached_stops (h : before.Sound) (hafter : after ∈ call.prog.stops before) :
    Reached call before after := by
  rcases List.mem_cons.1 hafter with rfl | hmem
  · exact h.reached
  · exact (h.reached_prog call).1 _ hmem

theorem Sound.completed {keyring : FileSecretKeyring} (h : keyring.Sound) (calls : List KeyringCall) :
    (keyring.completed calls).Sound := by
  induction calls generalizing keyring with
  | nil => exact h
  | cons call calls ih => exact ih (h.reached_prog call).2.1.sound

theorem completed_append (keyring : FileSecretKeyring) (first second : List KeyringCall) :
    keyring.completed (first ++ second) = (keyring.completed first).completed second :=
  List.foldl_append

end AppCore.Security.FileSecretKeyring
