import AppCore.Dnt.EnvelopeProof

/-!
# Sealed envelopes

* `open_seal` — a sealed envelope opens, in both ways, to the payload and metadata it was made
  of;
* `open_only_sealed` — under an ideal cipher nothing else opens.

The header is the associated data of the ciphertext behind it, and the cipher is given the nonce
that stands in it. So an input that opens is cut by its own header exactly as an envelope was put
together.
-/

namespace AppCore.Dnt

/-! ## What was sealed -/

theorem mapError_eq_ok {ε ε' α : Type} {x : Except ε α} {f : ε → ε'} {a : α} :
    x.mapError f = .ok a ↔ x = .ok a := by
  cases x with
  | error e => simp [Except.mapError]
  | ok b => simp [Except.mapError]

/-- The steps of `seal` before its call of the cipher. -/
structure Requested [Sha256] [Zlib] (payload : Bytes) (provider : DntKeyProvider)
    (codec : DntCodec) (options : DntSealOptions) (request : SealRequest)
    (encoded stored : Bytes) (payloadHash : Digest) : Prop where
  payloadFits : enforceMax payload.length options.maxPayloadBytes = .ok ()
  flags : validateFlags options.flags = .ok ()
  encode : codec.encode payload = .ok encoded
  encodedFits : enforceMax encoded.length options.maxPayloadBytes = .ok ()
  store : encodePayload options.flags encoded options.maxPayloadBytes = .ok stored
  storedFits : enforceMax stored.length options.maxPayloadBytes = .ok ()
  metadataFits : options.encryptedMetadata.length < 2 ^ 32
  key : resolveKey provider options.keyId ⟨options.applicationId, options.tenantId,
    options.contentType, codec.codecId, options.schemaVersion⟩ = .ok request.key
  digest : payloadDigest request.key stored = .ok payloadHash
  storedLength : stored.length < 2 ^ 64
  header : encodeHeader (sealedParts options codec.codecId request.nonce stored payloadHash) =
    .ok request.header
  plaintext : encodePlaintext options.encryptedMetadata stored = .ok request.plaintext

theorem requested_of_sealRequest [Sha256] [Zlib] {payload : Bytes} {provider : DntKeyProvider}
    {codec : DntCodec} {options : DntSealOptions} {random : Option Nonce} {request : SealRequest}
    (h : sealRequest payload provider codec options random = .ok request) :
    ∃ encoded stored payloadHash,
      Requested payload provider codec options request encoded stored payloadHash := by
  obtain ⟨_, hpayload, h⟩ := bind_eq_ok.1 h
  obtain ⟨_, hflags, h⟩ := bind_eq_ok.1 h
  obtain ⟨encoded, hencode, h⟩ := bind_eq_ok.1 h
  obtain ⟨_, hencoded, h⟩ := bind_eq_ok.1 h
  obtain ⟨stored, hstore, h⟩ := bind_eq_ok.1 h
  obtain ⟨_, hstored, h⟩ := bind_eq_ok.1 h
  split at h
  · simp at h
  rename_i hmetadata
  obtain ⟨key, hkey, h⟩ := bind_eq_ok.1 h
  cases random with
  | none => simp at h
  | some nonce =>
    obtain ⟨payloadHash, hdigest, h⟩ := bind_eq_ok.1 h
    split at h
    · simp at h
    rename_i hlength
    obtain ⟨header, hheader, h⟩ := bind_eq_ok.1 h
    obtain ⟨plaintext, hplaintext, h⟩ := bind_eq_ok.1 h
    obtain rfl := Except.ok.inj h
    exact ⟨encoded, stored, payloadHash, hpayload, hflags, mapError_eq_ok.1 hencode, hencoded,
      hstore, hstored, Nat.not_le.1 hmetadata, hkey, hdigest, Nat.not_le.1 hlength, hheader,
      hplaintext⟩

theorem sealRequest_of_requested [Sha256] [Zlib] {payload encoded stored : Bytes}
    {provider : DntKeyProvider} {codec : DntCodec} {options : DntSealOptions}
    {request : SealRequest} {payloadHash : Digest}
    (h : Requested payload provider codec options request encoded stored payloadHash) :
    sealRequest payload provider codec options (some request.nonce) = .ok request := by
  rw [sealRequest, h.payloadFits, ok_bind, h.flags, ok_bind, mapError_eq_ok.2 h.encode, ok_bind,
    h.encodedFits, ok_bind, h.store, ok_bind, h.storedFits, ok_bind,
    if_neg (Nat.not_le.2 h.metadataFits)]
  dsimp only
  rw [h.key, ok_bind]
  rw [h.digest, ok_bind, if_neg (Nat.not_le.2 h.storedLength), h.header, ok_bind, h.plaintext,
    ok_bind]

/-- The plaintext `seal` writes is read back under the header it writes. -/
theorem checkPlaintext_sealed [Sha256] {header : DntHeader} {key : SecretKey}
    {metadata stored plaintext : Bytes} (hmetadata : metadata.length < 2 ^ 32)
    (hstored : stored.length < 2 ^ 64)
    (hmetadataLength : header.encryptedMetadataLength = UInt32.ofNat metadata.length)
    (hpayloadLength : header.payloadLength = UInt64.ofNat stored.length)
    (hdigest : payloadDigest key stored = .ok header.payloadHash)
    (h : encodePlaintext metadata stored = .ok plaintext) :
    checkPlaintext header key plaintext = .ok (metadata, stored) := by
  unfold encodePlaintext at h
  split at h
  · simp at h
  obtain rfl := Except.ok.inj h
  rw [List.append_assoc]
  have hlength : (UInt32.ofNat metadata.length).toNat = metadata.length :=
    UInt32.toNat_ofNat_of_lt' hmetadata
  have hfield : (toBeBytes32 (UInt32.ofNat metadata.length)).length = 4 := length_toBeBytes32 _
  have hvalue : UInt32.ofNat (fromBe (toBeBytes32 (UInt32.ofNat metadata.length))) =
      UInt32.ofNat metadata.length := by
    rw [toBeBytes32, fromBe_beBytes (UInt32.toNat_lt _), UInt32.ofNat_toNat]
  -- the three parts, each where the one before it ends
  have hat₀ := at_zero (toBeBytes32 (UInt32.ofNat metadata.length) ++ (metadata ++ stored))
  have hat₁ := hat₀.advance
  have hat₂ := hat₁.advance
  have hget₀ := get_at hat₀
  have hget₁ := get_at hat₁
  have hget₂ := get_rest hat₂
  rw [hfield, Nat.zero_add] at hget₀ hget₁ hget₂
  have hstoredLength : stored.length = header.payloadLength.toNat := by
    rw [hpayloadLength]
    exact (UInt64.toNat_ofNat_of_lt' hstored).symm
  have hranges : decodePlaintextRanges
      (toBeBytes32 (UInt32.ofNat metadata.length) ++ (metadata ++ stored)) header =
      .ok (⟨4, 4 + metadata.length⟩, 4 + metadata.length) := by
    rw [decodePlaintextRanges, hget₀, ok_bind]
    dsimp only
    rw [hvalue, if_neg (not_not.2 hmetadataLength.symm), hlength, hget₁, ok_bind, hget₂, ok_bind,
      if_neg (not_not.2 hstoredLength)]
  have hdrop : (toBeBytes32 (UInt32.ofNat metadata.length) ++ (metadata ++ stored)).drop
      (4 + metadata.length) = stored := by
    have hdrop := hat₂.drop
    rwa [hfield, Nat.zero_add] at hdrop
  have hrange : (⟨4, 4 + metadata.length⟩ : Range).of
      (toBeBytes32 (UInt32.ofNat metadata.length) ++ (metadata ++ stored)) = metadata := by
    have hrange := @Range.of_append (toBeBytes32 (UInt32.ofNat metadata.length)) metadata stored 0
      metadata.length le_rfl
    rwa [hfield, Range.of_all] at hrange
  simp only [checkPlaintext, hranges, ok_bind, hdrop, verifyPayloadDigest, hdigest, Except.map,
    hrange, decide_true, Bool.not_true, Bool.false_eq_true, if_false]

theorem enforceMax_eq_ok {actual : Nat} {max : Option UInt64} :
    enforceMax actual max = .ok () ↔ ∀ limit, max = some limit → actual ≤ limit.toNat := by
  unfold enforceMax
  cases max with
  | none => simp
  | some limit =>
    by_cases h : actual > limit.toNat
    · simp [h]
    · simp [h]
      omega

/-- What the encoder stored is decoded again. -/
theorem decodePayload_encodePayload [zlib : Zlib] (hzlib : zlib.Lossless) {flags : UInt32}
    {encoded stored : Bytes} {max : Option UInt64}
    (hdeflate : flags &&& dntFlagPayloadDeflate ≠ 0 → max ≠ none)
    (hfits : enforceMax encoded.length max = .ok ())
    (h : encodePayload flags encoded max = .ok stored) :
    decodePayload flags stored max = .ok encoded := by
  obtain ⟨compression, hcompression, h⟩ := bind_eq_ok.1 h
  rw [decodePayload, hcompression, ok_bind]
  cases compression with
  | none => exact h.symm
  | deflate =>
    have hflag : flags &&& dntFlagPayloadDeflate ≠ 0 := by
      intro hzero
      simp only [DntCompression.fromFlags, hzero, ne_eq, not_true_eq_false, if_false] at hcompression
      split at hcompression <;> simp at hcompression
    obtain ⟨limit, rfl⟩ := Option.ne_none_iff_exists'.1 (hdeflate hflag)
    have hle := enforceMax_eq_ok.1 hfits limit rfl
    dsimp only at h ⊢
    split at h
    · simp at h
    rename_i compacted hcompacted
    obtain ⟨_, -, h⟩ := bind_eq_ok.1 h
    obtain rfl := Except.ok.inj h
    -- the limit of the decoder is above the length of what was compressed
    have hwhole : encoded.take (saturatingAdd limit 1).toNat = encoded := by
      have hlimit := limit.toNat_lt
      refine List.take_of_length_le (hle.trans ?_)
      rw [toNat_saturatingAdd]
      omega
    rw [inflateBounded, hzlib _ hcompacted, hwhole]
    dsimp only
    rw [hfits, ok_bind]

theorem decodePayload_of_not_compacted [Zlib] {header : DntHeader}
    (hflags : validateFlags header.flags = .ok ())
    (h : header.compression.isCompacted = false) (stored : Bytes) (max : Option UInt64) :
    decodePayload header.flags stored max = .ok stored := by
  unfold DntHeader.compression at h
  split at h
  · simp [DntCompression.isCompacted] at h
  rename_i hclear
  rw [decodePayload, DntCompression.fromFlags, hflags]
  dsimp only
  rw [if_neg hclear, ok_bind]

/-! ## Round trip -/

/-- What the program asks of a codec. -/
structure DntCodec.Lawful (codec : DntCodec) : Prop where
  matches_self : codec.matchesCodecId codec.codecId = true
  decode_encode {payload encoded : Bytes} (h : codec.encode payload = .ok encoded) :
    codec.decode encoded = .ok payload
  decodeOwned_eq (encoded : Bytes) : codec.decodeOwned encoded = codec.decode encoded

/-- The options that open what was sealed with these. -/
def DntSealOptions.opening (options : DntSealOptions) : DntOpenOptions :=
  ⟨options.applicationId, options.tenantId, options.contentType, options.maxPayloadBytes⟩

/-- A stored payload is decoded by the codec after `decode_payload`, compressed or not. -/
theorem openStored_eq [Zlib] {header : DntHeader} (hflags : validateFlags header.flags = .ok ())
    {metadata stored decoded payload : Bytes} {codec : DntCodec} {options : DntOpenOptions}
    (hdecode : decodePayload header.flags stored options.maxPayloadBytes = .ok decoded)
    (hpayload : codec.decodeOwned decoded = .ok payload)
    (hfits : enforceMax payload.length options.maxPayloadBytes = .ok ()) :
    openStored header metadata stored codec options = .ok ⟨header, payload, metadata⟩ := by
  have hlast : ((codec.decodeOwned decoded).mapError CodecError.toDnt >>= fun payload =>
      enforceMax payload.length options.maxPayloadBytes >>= fun _ =>
        Except.ok (OpenedDnt.mk header payload metadata)) = .ok ⟨header, payload, metadata⟩ := by
    rw [mapError_eq_ok.2 hpayload, ok_bind]
    exact bind_eq_ok.2 ⟨(), hfits, rfl⟩
  unfold openStored
  split
  · rw [hdecode, ok_bind]
    exact hlast
  · rename_i hclear
    have hsame := decodePayload_of_not_compacted hflags (Bool.not_eq_true _ ▸ hclear) stored
      options.maxPayloadBytes
    obtain rfl := Except.ok.inj (hsame.symm.trans hdecode)
    rw [ok_bind]
    exact hlast

/-- The stored payload of a sealed envelope is decoded to the payload. -/
theorem openStored_sealed [Sha256] [zlib : Zlib] (hzlib : zlib.Lossless) {codec : DntCodec}
    (hcodec : codec.Lawful) {options : DntSealOptions}
    (hdeflate : options.flags &&& dntFlagPayloadDeflate ≠ 0 → options.maxPayloadBytes ≠ none)
    {payload encoded stored : Bytes} {provider : DntKeyProvider} {request : SealRequest}
    {payloadHash : Digest}
    (h : Requested payload provider codec options request encoded stored payloadHash)
    {header : DntHeader} (hflags : header.flags = options.flags) (metadata : Bytes) :
    openStored header metadata stored codec options.opening =
      .ok ⟨header, payload, metadata⟩ := by
  have hdecode : decodePayload header.flags stored options.opening.maxPayloadBytes = .ok encoded := by
    rw [hflags]
    exact decodePayload_encodePayload hzlib hdeflate h.encodedFits h.store
  have hpayload : codec.decodeOwned encoded = .ok payload := by
    rw [hcodec.decodeOwned_eq]
    exact hcodec.decode_encode h.encode
  have hvalid : validateFlags header.flags = .ok () := by rw [hflags, h.flags]
  exact openStored_eq hvalid hdecode hpayload h.payloadFits

/-- What the envelope of a request is read as: its header, and the plaintext under that header. -/
structure ReadAs [Sha256] (request : SealRequest) (codec : DntCodec) (options : DntSealOptions)
    (stored : Bytes) (payloadHash : Digest) (header : DntHeader) : Prop where
  parts : header.toHeaderParts =
    sealedParts options codec.codecId request.nonce stored payloadHash
  inspected (ciphertext : Bytes) : inspectHeader (request.header ++ ciphertext) = .ok header
  length : header.headerLength.toNat = request.header.length
  plaintext : checkPlaintext header request.key request.plaintext =
    .ok (options.encryptedMetadata, stored)

theorem readAs_of_sealRequest [Sha256] [Zlib] {codec : DntCodec} {options : DntSealOptions}
    (htenant : ∀ tenant, options.tenantId = some tenant → TenantId.new tenant.asStr = .ok tenant)
    {payload : Bytes} {provider : DntKeyProvider} {random : Option Nonce} {request : SealRequest}
    (h : sealRequest payload provider codec options random = .ok request) :
    ∃ encoded stored payloadHash header,
      Requested payload provider codec options request encoded stored payloadHash ∧
      ReadAs request codec options stored payloadHash header := by
  obtain ⟨encoded, stored, payloadHash, h⟩ := requested_of_sealRequest h
  have ht : ValidTenant (sealedParts options codec.codecId request.nonce stored payloadHash) :=
    htenant
  obtain ⟨⟨-, hencrypted⟩, hsize, hheader⟩ := (encodeHeader_eq_ok ht).1 h.header
  have hinspect := inspectHeader_headerBytes ht h.flags hencrypted hsize
  rw [hheader] at hinspect
  have hlength : (UInt32.ofNat (headerSize (sealedParts options codec.codecId request.nonce stored
      payloadHash))).toNat = request.header.length := by
    have hmax : dntMaxHeaderBytes = 65536 := rfl
    rw [← hheader, length_headerBytes]
    exact UInt32.toNat_ofNat_of_lt' (show headerSize _ < 2 ^ 32 by omega)
  exact ⟨encoded, stored, payloadHash, _, h, rfl, hinspect, hlength,
    checkPlaintext_sealed h.metadataFits h.storedLength rfl rfl h.digest h.plaintext⟩

theorem resolveKey_of_readAs [Sha256] [Zlib] {payload encoded stored : Bytes}
    {provider : DntKeyProvider} {codec : DntCodec} {options : DntSealOptions}
    {request : SealRequest} {payloadHash : Digest} {header : DntHeader}
    (h : Requested payload provider codec options request encoded stored payloadHash)
    (hread : ReadAs request codec options stored payloadHash header) :
    resolveKey provider header.keyId (DntContext.fromHeader header) = .ok request.key := by
  have hkey := h.key
  rw [DntContext.fromHeader, hread.parts]
  exact hkey

/-- Under options that accept the header, a decryption that gives back the plaintext of the request
leaves only the stored payload to decode. -/
theorem openWith_readAs [Sha256] [Zlib] {payload encoded stored : Bytes}
    {provider : DntKeyProvider} {codec : DntCodec} {options : DntSealOptions}
    {request : SealRequest} {payloadHash : Digest} {header : DntHeader}
    (h : Requested payload provider codec options request encoded stored payloadHash)
    (hread : ReadAs request codec options stored payloadHash header) {opening : DntOpenOptions}
    (hcontext : validateHeaderContext header codec opening = .ok ())
    (hsize : enforceMax header.payloadLength.toNat opening.maxPayloadBytes = .ok ())
    {decryption : SecretKey → Nonce → Bytes → Bytes → DntResult Bytes} {ciphertext : Bytes}
    (hne : ciphertext ≠ [])
    (hdecrypt : decryption request.key request.nonce request.header ciphertext =
      .ok request.plaintext) :
    openWith decryption (request.header ++ ciphertext) provider codec opening =
      openStored header options.encryptedMetadata stored codec opening := by
  have hpasses : Passes (request.header ++ ciphertext) provider codec opening header request.key :=
    ⟨hread.inspected ciphertext, hcontext, hsize, resolveKey_of_readAs h hread⟩
  have hlong : header.headerLength.toNat < (request.header ++ ciphertext).length := by
    have hpos := List.length_pos_iff.2 hne
    rw [hread.length, List.length_append]
    omega
  have hnonce : header.nonce = request.nonce := by rw [hread.parts, sealedParts]
  rw [openWith, checkHeader_of_passes hpasses hlong, ok_bind]
  dsimp only
  rw [hread.length, List.take_left, List.drop_left, hnonce, hdecrypt, ok_bind, hread.plaintext,
    ok_bind]

/-- A request is opened, always to the same, by every decryption that gives back its
plaintext. -/
theorem openWith_sealed [Sha256] [zlib : Zlib] (hzlib : zlib.Lossless) {codec : DntCodec}
    (hcodec : codec.Lawful) {options : DntSealOptions}
    (htenant : ∀ tenant, options.tenantId = some tenant → TenantId.new tenant.asStr = .ok tenant)
    (hdeflate : options.flags &&& dntFlagPayloadDeflate ≠ 0 → options.maxPayloadBytes ≠ none)
    {payload : Bytes} {provider : DntKeyProvider} {random : Option Nonce} {request : SealRequest}
    (h : sealRequest payload provider codec options random = .ok request) :
    ∃ opened, opened.payload = payload ∧
      opened.encryptedMetadata = options.encryptedMetadata ∧
      (∃ stored payloadHash, opened.header.toHeaderParts =
        sealedParts options codec.codecId request.nonce stored payloadHash) ∧
      ∀ (decryption : SecretKey → Nonce → Bytes → Bytes → DntResult Bytes) (ciphertext : Bytes),
        ciphertext ≠ [] →
        decryption request.key request.nonce request.header ciphertext = .ok request.plaintext →
        openWith decryption (request.header ++ ciphertext) provider codec options.opening =
          .ok opened := by
  obtain ⟨encoded, stored, payloadHash, header, h, hread⟩ := readAs_of_sealRequest htenant h
  have hcontext : validateHeaderContext header codec options.opening = .ok () := by
    simp [validateHeaderContext, hread.parts, sealedParts, DntSealOptions.opening,
      hcodec.matches_self]
  have hsize : enforceMax header.payloadLength.toNat options.opening.maxPayloadBytes = .ok () := by
    have hstored : (UInt64.ofNat stored.length).toNat = stored.length :=
      UInt64.toNat_ofNat_of_lt' h.storedLength
    rw [hread.parts, sealedParts, hstored]
    exact h.storedFits
  have hflags : header.flags = options.flags := by rw [hread.parts, sealedParts]
  refine ⟨⟨header, payload, options.encryptedMetadata⟩, rfl, rfl,
    ⟨stored, payloadHash, hread.parts⟩, fun decryption ciphertext hne hdecrypt => ?_⟩
  rw [openWith_readAs h hread hcontext hsize hne hdecrypt]
  exact openStored_sealed hzlib hcodec hdeflate h hflags _

theorem envelope_eq_ok [Aead] {request : SealRequest} {bytes : Bytes} :
    request.envelope = .ok bytes ↔ ∃ ciphertext,
      Aead.encrypt request.key request.nonce request.header request.plaintext = some ciphertext ∧
      bytes = request.header ++ ciphertext := by
  unfold SealRequest.envelope
  cases Aead.encrypt request.key request.nonce request.header request.plaintext with
  | none => simp
  | some ciphertext => simp [eq_comm]

/-- A cipher text of the cipher is decrypted to its plaintext, in both ways. -/
theorem decrypt_encrypted [aead : Aead] (haead : aead.Correct) {key : SecretKey} {nonce : Nonce}
    {aad plaintext ciphertext : Bytes}
    (h : Aead.encrypt key nonce aad plaintext = some ciphertext) :
    ciphertext ≠ [] ∧ decrypt key nonce aad ciphertext = .ok plaintext ∧
      decryptTagged key nonce aad ciphertext = .ok plaintext := by
  have hlong : ¬ ciphertext.length < aeadTagBytes := by
    rw [haead.length_encrypt h]
    omega
  have hdecrypt : decrypt key nonce aad ciphertext = .ok plaintext := by
    rw [decrypt, haead.decrypt_encrypt h]
  refine ⟨?_, hdecrypt, ?_⟩
  · intro hnil
    apply hlong
    rw [hnil, aeadTagBytes]
    decide
  · rw [decryptTagged, if_neg hlong, hdecrypt]

/-- A sealed envelope opens, in both ways, to what was sealed: the header it was given, the payload
and the metadata. -/
theorem opened_of_sealDnt [Sha256] [aead : Aead] [zlib : Zlib] (haead : aead.Correct)
    (hzlib : zlib.Lossless) {codec : DntCodec} (hcodec : codec.Lawful) {options : DntSealOptions}
    (htenant : ∀ tenant, options.tenantId = some tenant → TenantId.new tenant.asStr = .ok tenant)
    (hdeflate : options.flags &&& dntFlagPayloadDeflate ≠ 0 → options.maxPayloadBytes ≠ none)
    {payload : Bytes} {provider : DntKeyProvider} {random : Option Nonce} {bytes : Bytes}
    (h : sealDnt payload provider codec options random = .ok bytes) :
    ∃ opened, openDnt bytes provider codec options.opening = .ok opened ∧
      (aead.Detached → openOwned bytes provider codec options.opening = .ok opened) ∧
      opened.payload = payload ∧ opened.encryptedMetadata = options.encryptedMetadata ∧
      ∃ nonce stored payloadHash,
        opened.header.toHeaderParts =
          sealedParts options codec.codecId nonce stored payloadHash := by
  obtain ⟨request, hrequest, h⟩ := bind_eq_ok.1 h
  obtain ⟨ciphertext, hencrypt, rfl⟩ := envelope_eq_ok.1 h
  obtain ⟨hne, hdecrypt, htagged⟩ := decrypt_encrypted haead hencrypt
  obtain ⟨opened, hpayload, hmetadata, ⟨stored, payloadHash, hparts⟩, hopen⟩ :=
    openWith_sealed hzlib hcodec htenant hdeflate hrequest
  refine ⟨opened, ?_, ?_, hpayload, hmetadata, request.nonce, stored, payloadHash, hparts⟩
  · rw [openDnt_eq]
    exact hopen decrypt ciphertext hne hdecrypt
  · intro hdetached
    rw [openOwned_eq hdetached]
    exact hopen decryptTagged ciphertext hne htagged

/-- **A sealed envelope opens.** Both ways to open it, in the context and under the limit it was
sealed with, give its payload, its metadata and the fields it was sealed with. -/
theorem open_seal [Sha256] [aead : Aead] [zlib : Zlib] (haead : aead.Correct)
    (hdetached : aead.Detached) (hzlib : zlib.Lossless) {codec : DntCodec}
    (hcodec : codec.Lawful) {options : DntSealOptions}
    (htenant : ∀ tenant, options.tenantId = some tenant → TenantId.new tenant.asStr = .ok tenant)
    (hdeflate : options.flags &&& dntFlagPayloadDeflate ≠ 0 → options.maxPayloadBytes ≠ none)
    {payload : Bytes} {provider : DntKeyProvider} {random : Option Nonce} {bytes : Bytes}
    (h : sealDnt payload provider codec options random = .ok bytes) :
    ∃ opened, openDnt bytes provider codec options.opening = .ok opened ∧
      openOwned bytes provider codec options.opening = .ok opened ∧
      opened.payload = payload ∧ opened.encryptedMetadata = options.encryptedMetadata ∧
      opened.header.flags = options.flags ∧
      opened.header.schemaVersion = options.schemaVersion ∧
      opened.header.createdAtMs = options.createdAtMs ∧
      opened.header.keyId = options.keyId ∧ opened.header.codecId = codec.codecId ∧
      opened.header.publicMetadata = options.publicMetadata := by
  obtain ⟨opened, hopen, howned, hpayload, hmetadata, nonce, stored, payloadHash, hparts⟩ :=
    opened_of_sealDnt haead hzlib hcodec htenant hdeflate h
  refine ⟨opened, hopen, howned hdetached, hpayload, hmetadata, ?_⟩
  rw [hparts]
  exact ⟨rfl, rfl, rfl, rfl, rfl, rfl⟩

theorem storingZlib_lossless : storingZlib.Lossless := by
  rintro bytes compacted limit h
  obtain rfl := Option.some.inj h
  rfl

theorem bytesCodec_lawful : bytesCodec.Lawful where
  matches_self := by decide
  decode_encode h := by
    obtain rfl := Except.ok.inj h
    rfl
  decodeOwned_eq encoded := rfl

/-- Options with a tenant, metadata of both kinds and a flag of the caller. -/
def sampleSealOptions : DntSealOptions where
  applicationId := sampleParts.applicationId
  tenantId := sampleParts.tenantId
  contentType := sampleParts.contentType
  schemaVersion := 1
  keyId := sampleParts.keyId
  createdAtMs := 7
  publicMetadata := [1, 2]
  encryptedMetadata := [3]
  flags := 0x00010000
  maxPayloadBytes := some 64

/-- A call of `seal`, with the random nonce it drew. -/
structure SealCall where
  payload : Bytes
  provider : DntKeyProvider
  codec : DntCodec
  options : DntSealOptions
  random : Option Nonce

/-- What the call gives to the cipher. -/
def SealCall.request [Sha256] [Zlib] (call : SealCall) : DntResult SealRequest :=
  sealRequest call.payload call.provider call.codec call.options call.random

/-- The envelope the call returns. -/
def SealCall.result [Sha256] [Aead] [Zlib] (call : SealCall) : DntResult Bytes :=
  sealDnt call.payload call.provider call.codec call.options call.random

def sampleCall : SealCall :=
  ⟨[5, 6], sampleProvider, bytesCodec, sampleSealOptions, some (Vector.replicate 24 9)⟩

theorem sampleCall_sealed :
    ∃ bytes, @SealCall.result Sha256.fips xChaCha20Poly1305 storingZlib sampleCall = .ok bytes := by
  have hok : (@SealCall.result Sha256.fips xChaCha20Poly1305 storingZlib
      sampleCall).toOption.isSome = true := by decide +kernel
  cases h : @SealCall.result Sha256.fips xChaCha20Poly1305 storingZlib sampleCall with
  | error e =>
    rw [h] at hok
    exact absurd hok Bool.false_ne_true
  | ok bytes => exact ⟨bytes, rfl⟩

theorem open_seal_sample : ∃ (sha : Sha256) (aead : Aead) (zlib : Zlib) (bytes : Bytes)
    (opened : OpenedDnt), sha = Sha256.fips ∧ aead = xChaCha20Poly1305 ∧ zlib = storingZlib ∧
      sampleCall.result = .ok bytes ∧
      openDnt bytes sampleProvider bytesCodec sampleSealOptions.opening = .ok opened ∧
      openOwned bytes sampleProvider bytesCodec sampleSealOptions.opening = .ok opened ∧
      opened.payload = [5, 6] := by
  obtain ⟨bytes, h⟩ := sampleCall_sealed
  obtain ⟨opened, hopen, howned, hpayload, -⟩ := @open_seal Sha256.fips xChaCha20Poly1305
    storingZlib xChaCha20Poly1305_correct xChaCha20Poly1305_detached storingZlib_lossless
    bytesCodec bytesCodec_lawful sampleSealOptions validTenant_sampleParts (fun _ => by simp
      [sampleSealOptions]) _ _ _ _ h
  exact ⟨_, _, _, bytes, opened, rfl, rfl, rfl, h, hopen, howned, hpayload⟩

/-! ## Nothing else opens -/

/-- What the cipher produced for these calls. -/
def produced [Sha256] [Aead] [Zlib] (calls : Set SealCall) :
    Set (SecretKey × Nonce × Bytes × Bytes) :=
  {entry | ∃ call ∈ calls, ∃ request ciphertext, call.request = .ok request ∧
    Aead.encrypt request.key request.nonce request.header request.plaintext = some ciphertext ∧
    entry = (request.key, request.nonce, request.header, ciphertext)}

theorem decrypt_of_openDnt [Sha256] [Aead] [Zlib] {input : Bytes} {provider : DntKeyProvider}
    {codec : DntCodec} {options : DntOpenOptions} {opened : OpenedDnt}
    (h : openDnt input provider codec options = .ok opened) :
    ∃ key nonce plaintext, ∃ length,
      Aead.decrypt key nonce (input.take length) (input.drop length) = some plaintext := by
  rw [openDnt_eq] at h
  obtain ⟨⟨header, key⟩, -, h⟩ := bind_eq_ok.1 h
  obtain ⟨plaintext, hdecrypt, -⟩ := bind_eq_ok.1 h
  refine ⟨key, header.nonce, plaintext, header.headerLength.toNat, ?_⟩
  unfold decrypt at hdecrypt
  split at hdecrypt
  · simp at hdecrypt
  · rename_i found hfound
    rw [hfound, Except.ok.inj hdecrypt]

/-- **Nothing but a sealed envelope opens.** When the cipher decrypts only what the calls of `seal`
made it produce, an input that opens, under whatever options, is the envelope of one of them, to
the byte. -/
theorem open_only_sealed [Sha256] [aead : Aead] [Zlib] {calls : Set SealCall}
    (hideal : aead.Ideal (produced calls)) {input : Bytes} {provider : DntKeyProvider}
    {codec : DntCodec} {options : DntOpenOptions} {opened : OpenedDnt}
    (h : openDnt input provider codec options = .ok opened) :
    ∃ call ∈ calls, call.result = .ok input := by
  obtain ⟨key, nonce, plaintext, length, hdecrypt⟩ := decrypt_of_openDnt h
  obtain ⟨call, hcall, request, ciphertext, hrequest, hencrypt, hentry⟩ :=
    hideal _ _ _ _ _ hdecrypt
  simp only [Prod.mk.injEq] at hentry
  obtain ⟨-, -, hheader, hciphertext⟩ := hentry
  refine ⟨call, hcall, bind_eq_ok.2 ⟨request, hrequest, envelope_eq_ok.2
    ⟨ciphertext, hencrypt, ?_⟩⟩⟩
  rw [← hheader, ← hciphertext, List.take_append_drop]

/-- The cipher, but it decrypts one message only. -/
@[reducible] def decryptsOnly (entry : SecretKey × Nonce × Bytes × Bytes) : Aead where
  encrypt := xChaCha20Poly1305.encrypt
  decrypt key nonce aad ciphertext :=
    if (key, nonce, aad, ciphertext) = entry then
      xChaCha20Poly1305.decrypt key nonce aad ciphertext
    else none
  decryptInPlaceDetached key nonce aad buffer tag :=
    if (key, nonce, aad, buffer ++ tag) = entry then
      xChaCha20Poly1305.decryptInPlaceDetached key nonce aad buffer tag
    else none

theorem decryptsOnly_decrypt {key : SecretKey} {nonce : Nonce} {aad ciphertext : Bytes} :
    (decryptsOnly (key, nonce, aad, ciphertext)).decrypt key nonce aad ciphertext =
      xChaCha20Poly1305.decrypt key nonce aad ciphertext := if_pos rfl

theorem decryptsOnly_eq_some {entry : SecretKey × Nonce × Bytes × Bytes} {key : SecretKey}
    {nonce : Nonce} {aad ciphertext plaintext : Bytes}
    (h : (decryptsOnly entry).decrypt key nonce aad ciphertext = some plaintext) :
    (key, nonce, aad, ciphertext) = entry := by
  by_contra hne
  exact absurd ((if_neg hne).symm.trans h) (by simp)

theorem open_only_sealed_sample : ∃ (sha : Sha256) (aead : Aead) (zlib : Zlib) (input : Bytes)
    (opened : OpenedDnt), sha = Sha256.fips ∧ zlib = storingZlib ∧
      openDnt input sampleProvider bytesCodec sampleSealOptions.opening = .ok opened ∧
      aead.Ideal (produced {sampleCall}) ∧ sampleCall.result = .ok input := by
  obtain ⟨bytes, h⟩ := sampleCall_sealed
  obtain ⟨request, hrequest, h⟩ := bind_eq_ok.1 h
  obtain ⟨ciphertext, hencrypt, -⟩ := (@envelope_eq_ok xChaCha20Poly1305 _ _).1 h
  have hne : ciphertext ≠ [] := by
    rintro rfl
    exact absurd (xChaCha20Poly1305_correct.length_encrypt hencrypt) (by simp [aeadTagBytes])
  obtain ⟨opened, -, -, -, hopen⟩ := @openWith_sealed Sha256.fips storingZlib storingZlib_lossless
    bytesCodec bytesCodec_lawful sampleSealOptions validTenant_sampleParts (fun _ => by simp
      [sampleSealOptions]) _ _ _ _ hrequest
  let aead := decryptsOnly (request.key, request.nonce, request.header, ciphertext)
  have hdecrypt : @decrypt aead request.key request.nonce request.header ciphertext =
      .ok request.plaintext := by
    rw [decrypt, decryptsOnly_decrypt, xChaCha20Poly1305_correct.decrypt_encrypt hencrypt]
  have hopened := (@openDnt_eq Sha256.fips aead storingZlib _ _ _ _).trans
    (hopen (@decrypt aead) ciphertext hne hdecrypt)
  have hideal : aead.Ideal (@produced Sha256.fips aead storingZlib {sampleCall}) := by
    intro key nonce aad found plaintext hfound
    exact ⟨sampleCall, rfl, request, ciphertext, hrequest, hencrypt, decryptsOnly_eq_some hfound⟩
  obtain ⟨call, rfl, hresult⟩ := @open_only_sealed Sha256.fips aead storingZlib {sampleCall} hideal
    _ _ _ _ _ hopened
  exact ⟨Sha256.fips, aead, storingZlib, _, opened, rfl, rfl, hopened, hideal, hresult⟩

end AppCore.Dnt
