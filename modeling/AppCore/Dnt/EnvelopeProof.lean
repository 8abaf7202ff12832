import AppCore.Dnt.Envelope
import AppCore.Dnt.HeaderProof

/-!
# Opening, whichever buffer it works in

`openWith` says what opening an envelope is, without buffers and ranges: check the header, decrypt,
check the plaintext, decode the payload. Both ways to open are this with their own decryption
(`openDnt_eq`, `openOwned_eq`).

* `openOwned_agrees` — the two accept the same inputs with the same result, and fail alike but for
  an input with too few bytes for a tag.
-/

namespace AppCore.Dnt

theorem Range.of_append {first middle last : Bytes} {start stop : Nat} (h : stop ≤ middle.length) :
    (⟨first.length + start, first.length + stop⟩ : Range).of (first ++ (middle ++ last)) =
      (⟨start, stop⟩ : Range).of middle := by
  simp only [Range.of, List.drop_append, List.drop_eq_nil_of_le (Nat.le_add_right _ _),
    List.nil_append, Nat.add_sub_cancel_left, Nat.add_sub_add_left]
  rw [List.take_append_of_le_length]
  rw [List.length_drop]
  omega

theorem Range.of_all {bytes : Bytes} (start : Nat) :
    (⟨start, bytes.length⟩ : Range).of bytes = bytes.drop start := by
  rw [Range.of, List.take_of_length_le]
  rw [List.length_drop]

/-- Moving the payload to the front of its buffer gives the payload. -/
theorem takePayloadBuffer_eq {dnt : AuthenticatedDnt}
    (hrange : dnt.payloadRange.start ≤ dnt.payloadRange.stop)
    (hstop : dnt.payloadRange.stop ≤ dnt.buffer.length) :
    dnt.takePayloadBuffer = dnt.storedPayload := by
  have hlength : (dnt.payloadRange.of dnt.buffer).length =
      dnt.payloadRange.stop - dnt.payloadRange.start := by
    rw [Range.of, List.length_take, List.length_drop]
    omega
  have hcut (buffer : Bytes) (length stop : Nat) (h : length ≤ buffer.length) :
      (buffer.take length ++ List.replicate (stop - length) 0 ++ buffer.drop stop).take length =
        buffer.take length := by
    rw [List.append_assoc, List.take_left' (List.length_take_of_le h)]
  rw [AuthenticatedDnt.takePayloadBuffer]
  split
  · rw [hcut]
    · exact List.take_left' hlength
    · rw [List.length_append, List.length_drop]
      omega
  · rename_i hzero
    rw [not_not] at hzero
    rw [hcut _ _ _ (by omega), AuthenticatedDnt.storedPayload, Range.of, hzero, List.drop_zero]

/-! ## Opening without buffers -/

/-- The checks of a plaintext: its metadata and the stored payload. -/
def checkPlaintext [Sha256] (header : DntHeader) (key : SecretKey) (plaintext : Bytes) :
    DntResult (Bytes × Bytes) := do
  let (metadataRange, payloadStart) ← decodePlaintextRanges plaintext header
  let digestMatches ← verifyPayloadDigest key (plaintext.drop payloadStart) header.payloadHash
  if !digestMatches then .error .authenticationFailed
  else .ok (metadataRange.of plaintext, plaintext.drop payloadStart)

/-- The checks of a plaintext that stands in a buffer, as `authenticate_owned_internal` makes
them. -/
def authenticateBuffer [Sha256] (header : DntHeader) (key : SecretKey) (buffer : Bytes)
    (plaintextRange : Range) : DntResult AuthenticatedDnt := do
  let (metadataRange, payloadStart) ← decodePlaintextRanges (plaintextRange.of buffer) header
  let payloadRange : Range := ⟨plaintextRange.start + payloadStart, plaintextRange.stop⟩
  let metadataRange : Range :=
    ⟨plaintextRange.start + metadataRange.start, plaintextRange.start + metadataRange.stop⟩
  let digestMatches ← verifyPayloadDigest key (payloadRange.of buffer) header.payloadHash
  if !digestMatches then .error .authenticationFailed
  else .ok ⟨header, metadataRange.of buffer, buffer, payloadRange⟩

/-- Decode a stored payload. -/
def openStored [Zlib] (header : DntHeader) (metadata stored : Bytes) (codec : DntCodec)
    (options : DntOpenOptions) : DntResult OpenedDnt := do
  let encoded ←
    if header.compression.isCompacted then
      decodePayload header.flags stored options.maxPayloadBytes
    else .ok stored
  let payload ← (codec.decodeOwned encoded).mapError CodecError.toDnt
  enforceMax payload.length options.maxPayloadBytes
  .ok ⟨header, payload, metadata⟩

/-- The checks before decryption. -/
def checkHeader (input : Bytes) (provider : DntKeyProvider) (codec : DntCodec)
    (options : DntOpenOptions) : DntResult (DntHeader × SecretKey) := do
  let header ← inspectHeader input
  validateHeaderContext header codec options
  enforceMax header.payloadLength.toNat options.maxPayloadBytes
  if input.length ≤ header.headerLength.toNat then .error .invalidFormat
  else
    let key ← resolveKey provider header.keyId (DntContext.fromHeader header)
    .ok (header, key)

/-- Opening with a decryption function. -/
def openWith [Sha256] [Zlib] (decryption : SecretKey → Nonce → Bytes → Bytes → DntResult Bytes)
    (input : Bytes) (provider : DntKeyProvider) (codec : DntCodec) (options : DntOpenOptions) :
    DntResult OpenedDnt := do
  let (header, key) ← checkHeader input provider codec options
  let plaintext ← decryption key header.nonce (input.take header.headerLength.toNat)
    (input.drop header.headerLength.toNat)
  let (metadata, stored) ← checkPlaintext header key plaintext
  openStored header metadata stored codec options

/-- The decryption of the owned buffer: a ciphertext without room for a tag is malformed. -/
def decryptTagged [Aead] (key : SecretKey) (nonce : Nonce) (aad ciphertext : Bytes) :
    DntResult Bytes :=
  if ciphertext.length < aeadTagBytes then .error .invalidFormat
  else decrypt key nonce aad ciphertext

/-! ## The two ways to open -/

variable {header : DntHeader}

/-- The ranges of an accepted plaintext are inside of it. -/
theorem decodePlaintextRanges_le {plaintext : Bytes} {range : Range} {start : Nat}
    (h : decodePlaintextRanges plaintext header = .ok (range, start)) :
    range.stop ≤ plaintext.length ∧ start ≤ plaintext.length := by
  obtain ⟨head, -, h⟩ := bind_eq_ok.1 h
  dsimp only at h
  split at h
  · simp at h
  obtain ⟨metadata, hmetadata, h⟩ := bind_eq_ok.1 h
  obtain ⟨payload, hpayload, h⟩ := bind_eq_ok.1 h
  split at h
  · simp at h
  obtain ⟨rfl, rfl⟩ := Prod.mk.inj (Except.ok.inj h)
  obtain ⟨hlen, rest, hat⟩ := get_eq_ok hmetadata
  have hbound := hat.advance.le
  exact ⟨hbound, hlen ▸ hbound⟩

theorem openAuthenticated_eq [Zlib] {dnt : AuthenticatedDnt}
    (hrange : dnt.payloadRange.start ≤ dnt.payloadRange.stop)
    (hstop : dnt.payloadRange.stop ≤ dnt.buffer.length) (codec : DntCodec)
    (options : DntOpenOptions) :
    openAuthenticated dnt codec options =
      openStored dnt.header dnt.encryptedMetadata dnt.storedPayload codec options := by
  rw [openAuthenticated, openStored, takePayloadBuffer_eq hrange hstop]

variable {input : Bytes}

theorem headerLength_le (h : inspectHeader input = .ok header) :
    header.headerLength.toNat ≤ input.length := by
  obtain ⟨-, hsize, -, suffix, rfl⟩ := headerBytes_of_inspectHeader h
  rw [hsize, List.length_append, length_headerBytes]
  omega

theorem get_rest {input rest : Bytes} {cursor : Nat} (h : At input cursor rest) :
    get input cursor input.length = .ok rest := by
  have hget := get_at (show At input cursor (rest ++ []) from ⟨h.le, by simp [h.drop]⟩)
  rwa [← h.length_eq] at hget

/-- The header is accepted, it passes the checks of the options, and its key is resolved. -/
structure Passes (input : Bytes) (provider : DntKeyProvider) (codec : DntCodec)
    (options : DntOpenOptions) (header : DntHeader) (key : SecretKey) : Prop where
  inspected : inspectHeader input = .ok header
  context : validateHeaderContext header codec options = .ok ()
  size : enforceMax header.payloadLength.toNat options.maxPayloadBytes = .ok ()
  resolved : resolveKey provider header.keyId (DntContext.fromHeader header) = .ok key

variable {provider : DntKeyProvider} {codec : DntCodec} {options : DntOpenOptions} {key : SecretKey}

theorem passes_of_checkHeader (h : checkHeader input provider codec options = .ok (header, key)) :
    Passes input provider codec options header key ∧
      header.headerLength.toNat < input.length := by
  obtain ⟨header', hinspect, h⟩ := bind_eq_ok.1 h
  obtain ⟨_, hcontext, h⟩ := bind_eq_ok.1 h
  obtain ⟨_, hsize, h⟩ := bind_eq_ok.1 h
  split at h
  · simp at h
  rename_i hlength
  obtain ⟨key', hkey, h⟩ := bind_eq_ok.1 h
  obtain ⟨rfl, rfl⟩ := Prod.mk.inj (Except.ok.inj h)
  exact ⟨⟨hinspect, hcontext, hsize, hkey⟩, Nat.not_le.1 hlength⟩

/-- The copying path after its checks of the header. -/
theorem authenticateInternal_eq [Sha256] [Aead] (input : Bytes) (provider : DntKeyProvider)
    (codec : DntCodec) (options : DntOpenOptions) :
    authenticateInternal input provider codec options =
      (checkHeader input provider codec options >>= fun (header, key) =>
        decrypt key header.nonce (input.take header.headerLength.toNat)
          (input.drop header.headerLength.toNat) >>= fun plaintext =>
        authenticateBuffer header key plaintext ⟨0, plaintext.length⟩) := by
  rw [authenticateInternal, checkHeader, bind_assoc]
  cases hinspect : inspectHeader input with
  | error e => rfl
  | ok header =>
    rw [ok_bind, ok_bind, bind_assoc]
    refine bind_congr fun _ => ?_
    rw [bind_assoc]
    refine bind_congr fun _ => ?_
    simp only [authenticateBuffer, get_rest ⟨headerLength_le hinspect, rfl⟩, ok_bind,
      Range.of_all, List.drop_zero, Nat.zero_add]
    by_cases hempty : input.length ≤ header.headerLength.toNat
    · have hdrop : (input.drop header.headerLength.toNat).isEmpty = true := by simpa using hempty
      rw [if_pos hempty, hdrop]
      rfl
    · have hdrop : (input.drop header.headerLength.toNat).isEmpty = false := by simpa using hempty
      rw [if_neg hempty, hdrop, bind_assoc]
      rfl

/-- The path in place after its checks of the header. -/
theorem authenticateOwnedInternal_eq [Sha256] [Aead] (input : Bytes) (provider : DntKeyProvider)
    (codec : DntCodec) (options : DntOpenOptions) :
    authenticateOwnedInternal input provider codec options =
      (checkHeader input provider codec options >>= fun (header, key) =>
        decryptOwnedInPlace key header.nonce header.headerLength.toNat input >>=
          fun (buffer, plaintextRange) => authenticateBuffer header key buffer plaintextRange) := by
  rw [authenticateOwnedInternal, checkHeader, bind_assoc]
  refine bind_congr fun header => ?_
  rw [bind_assoc]
  refine bind_congr fun _ => ?_
  rw [bind_assoc]
  refine bind_congr fun _ => ?_
  dsimp only
  by_cases hlength : input.length ≤ header.headerLength.toNat
  · rw [if_pos hlength, if_pos hlength]
    rfl
  · rw [if_neg hlength, if_neg hlength, bind_assoc]
    rfl

/-- A plaintext that stands in a buffer is checked and decoded as the plaintext by itself. -/
theorem open_authenticateBuffer [Sha256] [Zlib] (header : DntHeader) (key : SecretKey)
    (first plaintext last : Bytes) (codec : DntCodec) (options : DntOpenOptions) :
    (authenticateBuffer header key (first ++ (plaintext ++ last))
        ⟨first.length, first.length + plaintext.length⟩ >>= fun dnt =>
      openAuthenticated dnt codec options) =
    (checkPlaintext header key plaintext >>= fun (metadata, stored) =>
      openStored header metadata stored codec options) := by
  have hplain : (⟨first.length, first.length + plaintext.length⟩ : Range).of
      (first ++ (plaintext ++ last)) = plaintext := by
    have hrange := @Range.of_append first plaintext last 0 plaintext.length le_rfl
    rwa [Range.of_all] at hrange
  rw [authenticateBuffer, checkPlaintext, hplain]
  cases hranges : decodePlaintextRanges plaintext header with
  | error e => rfl
  | ok ranges =>
    obtain ⟨metadataRange, payloadStart⟩ := ranges
    obtain ⟨hstop, hstart⟩ := decodePlaintextRanges_le hranges
    have hpayload : (⟨first.length + payloadStart, first.length + plaintext.length⟩ : Range).of
        (first ++ (plaintext ++ last)) = plaintext.drop payloadStart := by
      rw [Range.of_append le_rfl, Range.of_all]
    simp only [ok_bind, hpayload, Range.of_append hstop]
    cases verifyPayloadDigest key (plaintext.drop payloadStart) header.payloadHash with
    | error e => rfl
    | ok digestMatches =>
      cases digestMatches with
      | false => rfl
      | true =>
        have hopen := @openAuthenticated_eq _ ⟨header, metadataRange.of plaintext,
          first ++ (plaintext ++ last),
          ⟨first.length + payloadStart, first.length + plaintext.length⟩⟩
          (Nat.add_le_add_left hstart _) (by simp) codec options
        rw [AuthenticatedDnt.storedPayload, hpayload] at hopen
        exact hopen

/-- `open` decrypts into a buffer of its own. -/
theorem openDnt_eq [Sha256] [Aead] [Zlib] (input : Bytes) (provider : DntKeyProvider)
    (codec : DntCodec) (options : DntOpenOptions) :
    openDnt input provider codec options = openWith decrypt input provider codec options := by
  rw [openDnt, authenticateInternal_eq, openWith, bind_assoc]
  refine bind_congr fun ⟨header, key⟩ => ?_
  dsimp only
  rw [bind_assoc]
  refine bind_congr fun plaintext => ?_
  have hbuffer := open_authenticateBuffer header key [] plaintext [] codec options
  rwa [List.append_nil, List.nil_append, List.length_nil, Nat.zero_add] at hbuffer

/-- Decryption in place: the plaintext stands between the header and the tag. -/
theorem decryptOwnedInPlace_eq [aead : Aead] (hdetached : aead.Detached) (key : SecretKey)
    (nonce : Nonce) {headerLength : Nat} (h : headerLength ≤ input.length) :
    ∃ last, decryptOwnedInPlace key nonce headerLength input =
      (decryptTagged key nonce (input.take headerLength) (input.drop headerLength)).map
        fun plaintext => (input.take headerLength ++ (plaintext ++ last),
          ⟨headerLength, headerLength + plaintext.length⟩) := by
  refine ⟨(input.drop headerLength).drop ((input.drop headerLength).length - aeadTagBytes), ?_⟩
  rw [decryptOwnedInPlace, if_neg (Nat.not_lt.2 h), decryptTagged]
  dsimp only
  split
  · rfl
  rename_i hlong
  generalize input.drop headerLength = ciphertext at hlong ⊢
  have htag : (ciphertext.drop (ciphertext.length - aeadTagBytes)).length = aeadTagBytes := by
    rw [List.length_drop]
    omega
  have hsplit := hdetached.decrypt_append key nonce (input.take headerLength)
    (ciphertext.take (ciphertext.length - aeadTagBytes)) htag
  rw [List.take_append_drop] at hsplit
  rw [decrypt, hsplit]
  cases hplain : Aead.decryptInPlaceDetached key nonce (input.take headerLength)
      (ciphertext.take (ciphertext.length - aeadTagBytes))
      (ciphertext.drop (ciphertext.length - aeadTagBytes)) with
  | none => rfl
  | some plaintext =>
    have hlength := hdetached.length_inPlace hplain
    rw [List.length_take_of_le (Nat.sub_le _ _)] at hlength
    simp [Except.map, hlength]

/-- `open_owned` decrypts inside the input. -/
theorem openOwned_eq [Sha256] [aead : Aead] [Zlib] (hdetached : aead.Detached) (input : Bytes)
    (provider : DntKeyProvider) (codec : DntCodec) (options : DntOpenOptions) :
    openOwned input provider codec options =
      openWith decryptTagged input provider codec options := by
  rw [openOwned, authenticateOwnedInternal_eq, openWith, bind_assoc]
  cases hcheck : checkHeader input provider codec options with
  | error e => rfl
  | ok checked =>
    obtain ⟨header, key⟩ := checked
    have hlength := (passes_of_checkHeader hcheck).2.le
    obtain ⟨last, hdecrypt⟩ := decryptOwnedInPlace_eq hdetached key header.nonce hlength
    simp only [ok_bind, hdecrypt]
    cases decryptTagged key header.nonce (input.take header.headerLength.toNat)
        (input.drop header.headerLength.toNat) with
    | error e => rfl
    | ok plaintext =>
      have hbuffer := open_authenticateBuffer header key
        (input.take header.headerLength.toNat) plaintext last codec options
      rwa [List.length_take_of_le hlength] at hbuffer

/-! ## The two agree -/

/-- From 1 to 15 bytes follow the header. -/
def ShortCiphertext (input : Bytes) (header : DntHeader) : Prop :=
  1 ≤ input.length - header.headerLength.toNat ∧ input.length - header.headerLength.toNat ≤ 15

theorem checkHeader_of_passes (h : Passes input provider codec options header key)
    (hlength : header.headerLength.toNat < input.length) :
    checkHeader input provider codec options = .ok (header, key) := by
  simp only [checkHeader, h.inspected, h.context, h.size, h.resolved, ok_bind,
    if_neg (Nat.not_le.2 hlength)]

/-- Without room for a tag the two decryptions fail, each with its own error. -/
theorem openWith_short [Sha256] [aead : Aead] [Zlib] (hdetached : aead.Detached)
    (h : Passes input provider codec options header key) (hshort : ShortCiphertext input header) :
    openWith decrypt input provider codec options = .error .authenticationFailed ∧
      openWith decryptTagged input provider codec options = .error .invalidFormat := by
  obtain ⟨hmin, hmax⟩ := hshort
  have hcheck := checkHeader_of_passes h (by omega)
  have hlength : (input.drop header.headerLength.toNat).length < aeadTagBytes := by
    rw [List.length_drop, aeadTagBytes]
    omega
  have hdecrypt : decrypt key header.nonce (input.take header.headerLength.toNat)
      (input.drop header.headerLength.toNat) = .error .authenticationFailed := by
    rw [decrypt, hdetached.decrypt_short _ _ _ hlength]
  constructor
  · rw [openWith, hcheck, ok_bind]
    dsimp only
    rw [hdecrypt]
    rfl
  · rw [openWith, hcheck, ok_bind]
    dsimp only
    rw [decryptTagged, if_pos hlength]
    rfl

/-- With room for a tag, or when a check fails before decryption, the two are one. -/
theorem openWith_same [Sha256] [Aead] [Zlib]
    (h : ∀ header key, Passes input provider codec options header key →
      ¬ ShortCiphertext input header) :
    openWith decrypt input provider codec options =
      openWith decryptTagged input provider codec options := by
  rw [openWith, openWith]
  cases hcheck : checkHeader input provider codec options with
  | error e => rfl
  | ok checked =>
    obtain ⟨header, key⟩ := checked
    obtain ⟨hpasses, hlength⟩ := passes_of_checkHeader hcheck
    have hlong : ¬ (input.drop header.headerLength.toNat).length < aeadTagBytes := by
      have hnot := h header key hpasses
      rw [ShortCiphertext] at hnot
      rw [List.length_drop, aeadTagBytes]
      omega
    rw [ok_bind, ok_bind]
    dsimp only
    rw [decryptTagged, if_neg hlong]

/-- **The path in place agrees with the copying one.** Both accept the same inputs with the same
result. An input that passes the checks before decryption but has no room for a tag fails
authentication in the one and is malformed in the other; any other failure is the same. -/
theorem openOwned_agrees [Sha256] [aead : Aead] [Zlib] (hdetached : aead.Detached) (input : Bytes)
    (provider : DntKeyProvider) (codec : DntCodec) (options : DntOpenOptions) :
    (∀ opened, openDnt input provider codec options = .ok opened ↔
      openOwned input provider codec options = .ok opened) ∧
    (∀ header key, Passes input provider codec options header key →
      ShortCiphertext input header →
      openDnt input provider codec options = .error .authenticationFailed ∧
        openOwned input provider codec options = .error .invalidFormat) ∧
    ∀ e e', openDnt input provider codec options = .error e →
      openOwned input provider codec options = .error e' → e = e' ∨
        ∃ header key, Passes input provider codec options header key ∧
          ShortCiphertext input header := by
  rw [openDnt_eq, openOwned_eq hdetached]
  by_cases h : ∃ header key, Passes input provider codec options header key ∧
      ShortCiphertext input header
  · obtain ⟨header, key, hpasses, hshort⟩ := h
    obtain ⟨hcopy, howned⟩ := openWith_short hdetached hpasses hshort
    refine ⟨fun opened => ?_, fun _ _ _ _ => ⟨hcopy, howned⟩,
      fun _ _ _ _ => .inr ⟨header, key, hpasses, hshort⟩⟩
    simp [hcopy, howned]
  · have hsame := openWith_same fun header key hpasses hshort => h ⟨header, key, hpasses, hshort⟩
    rw [hsame]
    refine ⟨fun opened => Iff.rfl, fun header key hpasses hshort => ?_, fun e e' he he' => ?_⟩
    · exact absurd ⟨header, key, hpasses, hshort⟩ h
    · rw [he] at he'
      exact .inl (Except.error.inj he')

/-! ## An input without room for a tag -/

/-- A provider with one key for every identity. -/
def sampleProvider : DntKeyProvider := ⟨fun _ _ => .ok (Vector.replicate 32 1)⟩

/-- A compressor that stores its input. -/
@[reducible] def storingZlib : Zlib := ⟨some, fun limit bytes => some (bytes.take limit)⟩

/-- The options the sample header passes. -/
def sampleOptions : DntOpenOptions :=
  ⟨sampleParts.applicationId, sampleParts.tenantId, sampleParts.contentType, none⟩

def shortInput : Bytes := headerBytes sampleParts ++ [7]

theorem inspectHeader_shortInput : inspectHeader shortInput =
    .ok ⟨sampleParts, dntEnvelopeVersionV1, UInt32.ofNat (headerSize sampleParts)⟩ :=
  inspectHeader_headerBytes validTenant_sampleParts (by decide) (by decide) (by decide +kernel) [7]

theorem shortCiphertext_shortInput : ShortCiphertext shortInput
    ⟨sampleParts, dntEnvelopeVersionV1, UInt32.ofNat (headerSize sampleParts)⟩ := by
  unfold ShortCiphertext
  decide +kernel

theorem openOwned_agrees_short : ∃ (sha : Sha256) (aead : Aead) (zlib : Zlib),
    sha = Sha256.fips ∧ aead = xChaCha20Poly1305 ∧ zlib = storingZlib ∧
      openDnt shortInput sampleProvider identityJsonCodec sampleOptions =
        .error .authenticationFailed ∧
      openOwned shortInput sampleProvider identityJsonCodec sampleOptions =
        .error .invalidFormat := by
  refine ⟨Sha256.fips, xChaCha20Poly1305, storingZlib, rfl, rfl, rfl, ?_⟩
  have hpasses : Passes shortInput sampleProvider identityJsonCodec sampleOptions
      ⟨sampleParts, dntEnvelopeVersionV1, UInt32.ofNat (headerSize sampleParts)⟩
      (Vector.replicate 32 1) :=
    ⟨inspectHeader_shortInput, by decide, rfl, rfl⟩
  exact (@openOwned_agrees Sha256.fips xChaCha20Poly1305 storingZlib xChaCha20Poly1305_detached
    shortInput sampleProvider identityJsonCodec sampleOptions).2.1 _ _ hpasses
    shortCiphertext_shortInput

/-- An input without room for a tag fails in both ways alike when it is for another application. -/
theorem openOwned_short_mismatch :
    ¬ ∀ (_ : Sha256) (aead : Aead) (_ : Zlib), aead.Detached →
      ∀ (input : Bytes) (provider : DntKeyProvider) (codec : DntCodec) (options : DntOpenOptions),
        codec.decodeOwned = codec.decode →
        (∀ opened, openDnt input provider codec options = .ok opened ↔
          openOwned input provider codec options = .ok opened) ∧
        (∀ header, inspectHeader input = .ok header → ShortCiphertext input header →
          openDnt input provider codec options = .error .authenticationFailed ∧
            openOwned input provider codec options = .error .invalidFormat) ∧
        ∀ e e', openDnt input provider codec options = .error e →
          openOwned input provider codec options = .error e' → e = e' ∨
            ∃ header, inspectHeader input = .ok header ∧ ShortCiphertext input header := by
  intro h
  have hother := h Sha256.fips xChaCha20Poly1305 storingZlib xChaCha20Poly1305_detached shortInput
    sampleProvider identityJsonCodec
    { sampleOptions with applicationId := ⟨"app.two", by decide⟩ } rfl
  obtain ⟨hopen, -⟩ := hother.2.1 _ inspectHeader_shortInput shortCiphertext_shortInput
  have hcontext : validateHeaderContext
      ⟨sampleParts, dntEnvelopeVersionV1, UInt32.ofNat (headerSize sampleParts)⟩ identityJsonCodec
      { sampleOptions with applicationId := ⟨"app.two", by decide⟩ } =
      .error .contextMismatch := by decide
  have hmismatch : checkHeader shortInput sampleProvider identityJsonCodec
      { sampleOptions with applicationId := ⟨"app.two", by decide⟩ } =
      .error .contextMismatch := by
    rw [checkHeader, inspectHeader_shortInput, ok_bind, hcontext]
    rfl
  have herror := (@openDnt_eq Sha256.fips xChaCha20Poly1305 storingZlib shortInput sampleProvider
    identityJsonCodec _).symm.trans hopen
  unfold openWith at herror
  rw [hmismatch] at herror
  exact absurd (Except.error.inj herror) (by decide)

end AppCore.Dnt
