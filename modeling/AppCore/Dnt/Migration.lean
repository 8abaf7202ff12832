import AppCore.Base.Prog
import AppCore.Dnt.RoundTrip

/-!
# Key rotation and migration

`migration.rs`: an envelope is opened and its payload sealed again, with options rebuilt from the
header that was opened (`options_from_opened`), under a new key or under the old one.

* `migration_preserves` — what comes out opens, under the same options, to what went in. Only the
  key identifier and the codec identifier are new: the second is the one of the codec that wrote the
  new envelope, also when that codec had accepted another one.
-/

namespace AppCore.Dnt

def optionsFromOpened (opened : OpenedDnt) (keyId : KeyId) (maxPayloadBytes : Option UInt64) :
    DntSealOptions where
  applicationId := opened.header.applicationId
  tenantId := opened.header.tenantId
  contentType := opened.header.contentType
  schemaVersion := opened.header.schemaVersion
  keyId := keyId
  createdAtMs := opened.header.createdAtMs
  publicMetadata := opened.header.publicMetadata
  encryptedMetadata := opened.encryptedMetadata
  flags := opened.header.flags
  maxPayloadBytes := maxPayloadBytes

section

variable [Sha256] [Aead] [Zlib]

/-- `reseal`, with the random nonce of its `seal`. -/
def reseal (input : Bytes) (provider : DntKeyProvider) (codec : DntCodec) (options : DntOpenOptions)
    (newKeyId : Option KeyId) (random : Option Nonce) : DntResult Bytes := do
  let opened ← openDnt input provider codec options
  let keyId := newKeyId.getD opened.header.keyId
  sealDnt opened.payload provider codec
    (optionsFromOpened opened keyId options.maxPayloadBytes) random

def rekey (input : Bytes) (provider : DntKeyProvider) (codec : DntCodec) (options : DntOpenOptions)
    (newKeyId : KeyId) (random : Option Nonce) : DntResult Bytes :=
  reseal input provider codec options (some newKeyId) random

def migrateEnvelope (input : Bytes) (provider : DntKeyProvider) (codec : DntCodec)
    (options : DntOpenOptions) (random : Option Nonce) : DntResult Bytes :=
  reseal input provider codec options none random

end

variable {codec : DntCodec} {options : DntOpenOptions} {opened : OpenedDnt}

theorem header_of_openStored [Zlib] {header : DntHeader} {metadata stored : Bytes}
    (h : openStored header metadata stored codec options = .ok opened) :
    opened.header = header := by
  unfold openStored at h
  split at h
  all_goals
    obtain ⟨encoded, -, h⟩ := bind_eq_ok.1 h
    obtain ⟨payload, -, h⟩ := bind_eq_ok.1 h
    obtain ⟨_, -, h⟩ := bind_eq_ok.1 h
    cases h
    rfl

theorem header_of_openDnt [Sha256] [Aead] [Zlib] {input : Bytes} {provider : DntKeyProvider}
    (h : openDnt input provider codec options = .ok opened) :
    inspectHeader input = .ok opened.header ∧
      validateHeaderContext opened.header codec options = .ok () := by
  rw [openDnt_eq] at h
  obtain ⟨⟨header, key⟩, hcheck, h⟩ := bind_eq_ok.1 h
  obtain ⟨plaintext, -, h⟩ := bind_eq_ok.1 h
  obtain ⟨⟨metadata, stored⟩, -, h⟩ := bind_eq_ok.1 h
  rw [header_of_openStored h]
  have hpasses := (passes_of_checkHeader hcheck).1
  exact ⟨hpasses.inspected, hpasses.context⟩

theorem validateHeaderContext_eq_ok {header : DntHeader}
    (h : validateHeaderContext header codec options = .ok ()) :
    header.applicationId = options.applicationId ∧ header.tenantId = options.tenantId ∧
      header.contentType = options.contentType ∧ codec.matchesCodecId header.codecId = true := by
  unfold validateHeaderContext at h
  split at h
  · cases h
  rename_i hcontext
  simp only [not_or, not_not] at hcontext
  split at h
  · cases h
  rename_i hmatches
  exact ⟨hcontext.1, hcontext.2.1, hcontext.2.2, by simpa using hmatches⟩

theorem opening_optionsFromOpened (h : validateHeaderContext opened.header codec options = .ok ())
    (keyId : KeyId) :
    (optionsFromOpened opened keyId options.maxPayloadBytes).opening = options := by
  obtain ⟨happlication, htenant, hcontent, -⟩ := validateHeaderContext_eq_ok h
  rw [DntSealOptions.opening, optionsFromOpened, happlication, htenant, hcontent]

/-! ## What is kept -/

/-- Two opened envelopes mean the same. Their headers differ in what belongs to the writing alone:
the identifiers of key and codec, the nonce, and the length and digest of the stored payload. -/
structure SameMeaning (opened opened' : OpenedDnt) : Prop where
  payload : opened'.payload = opened.payload
  encryptedMetadata : opened'.encryptedMetadata = opened.encryptedMetadata
  applicationId : opened'.header.applicationId = opened.header.applicationId
  tenantId : opened'.header.tenantId = opened.header.tenantId
  contentType : opened'.header.contentType = opened.header.contentType
  schemaVersion : opened'.header.schemaVersion = opened.header.schemaVersion
  createdAtMs : opened'.header.createdAtMs = opened.header.createdAtMs
  flags : opened'.header.flags = opened.header.flags
  publicMetadata : opened'.header.publicMetadata = opened.header.publicMetadata

/-- An envelope opens to what another one meant, under a key and in the writing of a codec. -/
def Resealed [Sha256] [Aead] [Zlib] (out : Bytes) (provider : DntKeyProvider) (codec : DntCodec)
    (options : DntOpenOptions) (opened : OpenedDnt) (keyId : KeyId) : Prop :=
  ∃ opened', openDnt out provider codec options = .ok opened' ∧ SameMeaning opened opened' ∧
    opened'.header.keyId = keyId ∧ opened'.header.codecId = codec.codecId ∧
    ((∀ codecId, codec.matchesCodecId codecId = true → codecId = codec.codecId) →
      opened'.header.codecId = opened.header.codecId)

theorem resealed_of_reseal [Sha256] [aead : Aead] [zlib : Zlib] (haead : aead.Correct)
    (hzlib : zlib.Lossless) (hcodec : codec.Lawful) (hmax : options.maxPayloadBytes ≠ none)
    {input : Bytes} {provider : DntKeyProvider}
    (hopen : openDnt input provider codec options = .ok opened) {newKeyId : Option KeyId}
    {random : Option Nonce} {out : Bytes}
    (h : reseal input provider codec options newKeyId random = .ok out) :
    Resealed out provider codec options opened (newKeyId.getD opened.header.keyId) := by
  rw [reseal, hopen, ok_bind] at h
  obtain ⟨hinspect, hcontext⟩ := header_of_openDnt hopen
  have htenant : ∀ tenant, opened.header.tenantId = some tenant →
      TenantId.new tenant.asStr = .ok tenant := (headerBytes_of_inspectHeader hinspect).1.tenant
  obtain ⟨opened', hopened, -, hpayload, hmetadata, nonce, stored, payloadHash, hparts⟩ :=
    opened_of_sealDnt haead hzlib hcodec htenant (fun _ => hmax) h
  rw [opening_optionsFromOpened hcontext] at hopened
  refine ⟨opened', hopened, ?_, ?_, ?_, ?_⟩
  · constructor
    · exact hpayload
    · exact hmetadata
    all_goals rw [hparts, sealedParts, optionsFromOpened]
  · rw [hparts, sealedParts, optionsFromOpened]
  · rw [hparts, sealedParts]
  · intro hown
    have hsame := hown _ (validateHeaderContext_eq_ok hcontext).2.2.2
    rw [hparts, sealedParts, hsame]

/-- **Rekeying and migrating preserve meaning.** What comes out of either opens under the same
options to the payload, the metadata and the header fields that were opened before, with the new key
identifier or the old one. The codec identifier is the codec's own, so it is the same one when the
codec accepts no other. -/
theorem migration_preserves [Sha256] [aead : Aead] [zlib : Zlib] (haead : aead.Correct)
    (hzlib : zlib.Lossless) {codec : DntCodec} (hcodec : codec.Lawful) {options : DntOpenOptions}
    (hmax : options.maxPayloadBytes ≠ none) {input : Bytes} {provider : DntKeyProvider}
    {opened : OpenedDnt} (hopen : openDnt input provider codec options = .ok opened) (random : Option Nonce) :
    (∀ newKeyId out, rekey input provider codec options newKeyId random = .ok out →
      Resealed out provider codec options opened newKeyId) ∧
    ∀ out, migrateEnvelope input provider codec options random = .ok out →
      Resealed out provider codec options opened opened.header.keyId := by
  constructor
  · intro newKeyId out h
    exact resealed_of_reseal haead hzlib hcodec hmax hopen h
  · intro out h
    exact resealed_of_reseal haead hzlib hcodec hmax hopen h

/-! ## A codec that accepts an older identifier -/

/-- A codec that writes one identifier and also accepts the one of `BytesCodec`. -/
def widenedCodec : DntCodec :=
  { identityJsonCodec with
    matchesCodecId := fun codecId => codecId.asStr == "bytes" || codecId.asStr == "json" }

theorem widenedCodec_lawful : widenedCodec.Lawful where
  matches_self := by decide
  decode_encode h := by
    obtain rfl := Except.ok.inj h
    rfl
  decodeOwned_eq encoded := rfl

/-- The sample envelope, opened before and after `reseal` works on it. -/
def sampleMigration (newKeyId : Option KeyId) : DntResult (OpenedDnt × Bytes × OpenedDnt) :=
  let _ := Sha256.fips
  let _ := xChaCha20Poly1305
  let _ := storingZlib
  do
    let input ← sampleCall.result
    let opened ← openDnt input sampleProvider widenedCodec sampleSealOptions.opening
    let out ← reseal input sampleProvider widenedCodec sampleSealOptions.opening newKeyId
      (some (Vector.replicate 24 8))
    let opened' ← openDnt out sampleProvider widenedCodec sampleSealOptions.opening
    .ok (opened, out, opened')

/-- The identifier of the codec is not kept: the new envelope has the one its writer has. -/
theorem migration_changes_codec :
    ¬ ∀ (_ : Sha256) (aead : Aead) (zlib : Zlib), aead.Correct → zlib.Lossless →
      ∀ (codec : DntCodec), codec.Lawful → ∀ (options : DntOpenOptions),
        options.maxPayloadBytes ≠ none →
        ∀ (input : Bytes) (provider : DntKeyProvider) (opened : OpenedDnt),
          openDnt input provider codec options = .ok opened →
          ∀ random : Option Nonce,
            (∀ newKeyId out, rekey input provider codec options newKeyId random = .ok out →
              ∃ opened', openDnt out provider codec options = .ok opened' ∧
                SameMeaning opened opened' ∧ opened'.header.keyId = newKeyId ∧
                opened'.header.codecId = opened.header.codecId) ∧
            ∀ out, migrateEnvelope input provider codec options random = .ok out →
              ∃ opened', openDnt out provider codec options = .ok opened' ∧
                SameMeaning opened opened' ∧ opened'.header.keyId = opened.header.keyId ∧
                opened'.header.codecId = opened.header.codecId := by
  intro h
  have hcodecs : (sampleMigration none).toOption.any (fun (opened, _, opened') =>
      opened.header.codecId.asStr == "bytes" && opened'.header.codecId.asStr == "json") = true := by
    decide +kernel
  obtain ⟨⟨opened, out, opened'⟩, hrun, hcodecs⟩ := ok_of_any hcodecs
  obtain ⟨input, -, hrun⟩ := bind_eq_ok.1 hrun
  obtain ⟨before, hopen, hrun⟩ := bind_eq_ok.1 hrun
  obtain ⟨written, hreseal, hrun⟩ := bind_eq_ok.1 hrun
  obtain ⟨after, hopen', hrun⟩ := bind_eq_ok.1 hrun
  cases hrun
  obtain ⟨found, hfound, -, -, hsame⟩ := (h Sha256.fips xChaCha20Poly1305 storingZlib
    xChaCha20Poly1305_correct storingZlib_lossless widenedCodec
    widenedCodec_lawful sampleSealOptions.opening (by simp [DntSealOptions.opening,
      sampleSealOptions]) input sampleProvider _ hopen _).2 _ hreseal
  cases hopen'.symm.trans hfound
  dsimp only at hcodecs
  rw [hsame, Bool.and_eq_true, beq_iff_eq, beq_iff_eq] at hcodecs
  exact absurd (hcodecs.1.symm.trans hcodecs.2) (by decide)

/-- The key the sample envelope is moved to. -/
def rotatedKeyId : KeyId := ⟨"key-2", by decide⟩

theorem migration_preserves_sample : ∃ (sha : Sha256) (aead : Aead) (zlib : Zlib)
    (input out : Bytes) (opened : OpenedDnt), sha = Sha256.fips ∧ aead = xChaCha20Poly1305 ∧
      zlib = storingZlib ∧
      openDnt input sampleProvider widenedCodec sampleSealOptions.opening = .ok opened ∧
      rekey input sampleProvider widenedCodec sampleSealOptions.opening rotatedKeyId
        (some (Vector.replicate 24 8)) = .ok out ∧
      Resealed out sampleProvider widenedCodec sampleSealOptions.opening opened rotatedKeyId := by
  have hruns : (sampleMigration (some rotatedKeyId)).toOption.any (fun _ => true) = true := by
    decide +kernel
  obtain ⟨⟨opened, out, opened'⟩, hrun, -⟩ := ok_of_any hruns
  obtain ⟨input, -, hrun⟩ := bind_eq_ok.1 hrun
  obtain ⟨before, hopen, hrun⟩ := bind_eq_ok.1 hrun
  obtain ⟨written, hreseal, hrun⟩ := bind_eq_ok.1 hrun
  have hpreserves := @migration_preserves Sha256.fips xChaCha20Poly1305 storingZlib
    xChaCha20Poly1305_correct storingZlib_lossless widenedCodec
    widenedCodec_lawful sampleSealOptions.opening (by simp [DntSealOptions.opening,
      sampleSealOptions]) input sampleProvider _ hopen (some (Vector.replicate 24 8))
  exact ⟨_, _, _, input, written, before, rfl, rfl, rfl, hopen, hreseal,
    hpreserves.1 rotatedKeyId written hreseal⟩

end AppCore.Dnt
