import AppCore.Base.Aead
import AppCore.Base.Sha256
import AppCore.Dnt.Header

/-!
# Sealing and opening DNT envelopes

`model.rs` with the helpers of `cipher.rs`, `compression.rs` and `plaintext.rs`. A payload is
encoded, perhaps compressed, put behind the encrypted metadata, and encrypted with the header as
associated data. `open` copies the plaintext out of the input; `open_owned` decrypts inside the
input buffer and cuts the payload out of it.

The cipher and the compressor are taken as classes; key providers and codecs are the traits of
the source. The random nonce of `seal` is an argument. Overwriting buffers with zeros before they
are freed has no effect on results and is left out, but for the buffer that is returned.
-/

namespace AppCore.Dnt

def hmacSha256 [Sha256] (key message : Bytes) : Digest :=
  let key := if key.length > 64 then (digest key).toList else key
  let key := key ++ List.replicate (64 - key.length) 0
  digest (key.map (· ^^^ 0x5c) ++ (digest (key.map (· ^^^ 0x36) ++ message)).toList)

def derivePayloadDigestKey [Sha256] (key : SecretKey) : Bytes :=
  (hmacSha256 key.toList (strBytes "appcore-dnt-payload-digest-key-v1")).toList

def payloadDigest [Sha256] (key : SecretKey) (payload : Bytes) : DntResult Digest :=
  if payload.length < 2 ^ 64 then
    .ok (hmacSha256 (derivePayloadDigestKey key)
      (strBytes "appcore-dnt-payload-digest-v1" ++ lenBytes64 payload.length ++ payload))
  else .error .payloadTooLarge

def verifyPayloadDigest [Sha256] (key : SecretKey) (payload : Bytes) (expected : Digest) :
    DntResult Bool :=
  (payloadDigest key payload).map fun found => decide (found = expected)

/-! ## Compression -/

/-- The compressor the program links against. -/
class Zlib where
  /-- Everything written through a `ZlibEncoder`. -/
  deflate : Bytes → Option Bytes
  /-- At most this many bytes read through a `ZlibDecoder`. -/
  inflate : Nat → Bytes → Option Bytes

/-- Inflating undoes deflating. -/
def Zlib.Lossless (zlib : Zlib) : Prop :=
  ∀ {bytes compacted : Bytes} (limit : Nat), zlib.deflate bytes = some compacted →
    zlib.inflate limit compacted = some (bytes.take limit)

def enforceMax (actual : Nat) (max : Option UInt64) : DntResult Unit :=
  if max.any fun max => actual > max.toNat then .error .payloadTooLarge else .ok ()

def encodePayload [Zlib] (flags : UInt32) (encoded : Bytes) (max : Option UInt64) :
    DntResult Bytes := do
  match ← DntCompression.fromFlags flags with
  | .none => .ok encoded
  | .deflate =>
    match Zlib.deflate encoded with
    | none => .error .codecFailed
    | some compacted =>
      enforceMax compacted.length max
      .ok compacted

def inflateBounded [Zlib] (input : Bytes) : Option UInt64 → DntResult Bytes
  | none => .error .payloadTooLarge
  | some max =>
    match Zlib.inflate (saturatingAdd max 1).toNat input with
    | none => .error .codecFailed
    | some output => do
        enforceMax output.length (some max)
        .ok output

def decodePayload [Zlib] (flags : UInt32) (stored : Bytes) (max : Option UInt64) :
    DntResult Bytes := do
  match ← DntCompression.fromFlags flags with
  | .none => .ok stored
  | .deflate => inflateBounded stored max

def encodePlaintext (metadata payload : Bytes) : DntResult Bytes :=
  if metadata.length ≥ 2 ^ 32 ∨ 4 + metadata.length + payload.length ≥ 2 ^ 64 then
    .error .payloadTooLarge
  else .ok (toBeBytes32 (UInt32.ofNat metadata.length) ++ metadata ++ payload)

/-- A range of positions. -/
structure Range where
  start : Nat
  stop : Nat

/-- `&bytes[range]`. -/
def Range.of (range : Range) (bytes : Bytes) : Bytes :=
  (bytes.drop range.start).take (range.stop - range.start)

/-- `decode_plaintext_ranges`: the range of the metadata, and where the payload begins. -/
def decodePlaintextRanges (plaintext : Bytes) (header : DntHeader) : DntResult (Range × Nat) := do
  let head ← get plaintext 0 4
  let metadataLength := UInt32.ofNat (fromBe head)
  if metadataLength ≠ header.encryptedMetadataLength then .error .authenticationFailed
  else
    let payloadStart := 4 + metadataLength.toNat
    let metadata ← get plaintext 4 payloadStart
    let payload ← get plaintext payloadStart plaintext.length
    if payload.length ≠ header.payloadLength.toNat then .error .authenticationFailed
    else .ok (⟨4, 4 + metadata.length⟩, payloadStart)

/-! ## Contexts, codecs and options -/

structure DntContext where
  applicationId : ApplicationId
  tenantId : Option TenantId
  contentType : ContentType
  codecId : CodecId
  schemaVersion : UInt32
  deriving DecidableEq

def DntContext.fromHeader (header : DntHeader) : DntContext :=
  ⟨header.applicationId, header.tenantId, header.contentType, header.codecId, header.schemaVersion⟩

/-- `DntKeyProvider`: the key of an identity in a context. -/
structure DntKeyProvider where
  resolveKey : KeyId → DntContext → Except DntKeyError SecretKey

structure DntCodec where
  codecId : CodecId
  matchesCodecId : CodecId → Bool
  encode : Bytes → Except CodecError Bytes
  decode : Bytes → Except CodecError Bytes
  decodeOwned : Bytes → Except CodecError Bytes

/-- A codec that stores the payload as it is. -/
def DntCodec.identity (codecId : CodecId) : DntCodec where
  codecId := codecId
  matchesCodecId other := other.asStr == codecId.asStr
  encode := .ok
  decode := .ok
  decodeOwned := .ok

/-- `BytesCodec`. -/
def bytesCodec : DntCodec := .identity ⟨"bytes", by decide⟩

/-- `IdentityJsonCodec`. -/
def identityJsonCodec : DntCodec := .identity ⟨"json", by decide⟩

structure DntSealOptions where
  applicationId : ApplicationId
  tenantId : Option TenantId
  contentType : ContentType
  schemaVersion : UInt32
  keyId : KeyId
  createdAtMs : UInt64
  publicMetadata : Bytes
  encryptedMetadata : Bytes
  flags : UInt32
  maxPayloadBytes : Option UInt64

structure DntOpenOptions where
  applicationId : ApplicationId
  tenantId : Option TenantId
  contentType : ContentType
  maxPayloadBytes : Option UInt64

structure OpenedDnt where
  header : DntHeader
  payload : Bytes
  encryptedMetadata : Bytes
  deriving DecidableEq

/-- A key, or the error of its provider. -/
def resolveKey (provider : DntKeyProvider) (keyId : KeyId) (context : DntContext) :
    DntResult SecretKey :=
  (provider.resolveKey keyId context).mapError DntKeyError.toDnt

/-! ## Sealing -/

/-- What `seal` gives to the cipher. -/
structure SealRequest where
  key : SecretKey
  nonce : Nonce
  header : Bytes
  plaintext : Bytes
  deriving DecidableEq

/-- The header `seal` writes. -/
def sealedParts (options : DntSealOptions) (codecId : CodecId) (nonce : Nonce) (stored : Bytes)
    (payloadHash : Digest) : HeaderParts where
  flags := options.flags
  algorithm := .xChaCha20Poly1305
  applicationId := options.applicationId
  tenantId := options.tenantId
  contentType := options.contentType
  codecId := codecId
  keyId := options.keyId
  schemaVersion := options.schemaVersion
  createdAtMs := options.createdAtMs
  payloadLength := UInt64.ofNat stored.length
  nonce := nonce
  payloadHash := payloadHash
  publicMetadata := options.publicMetadata
  encryptedMetadataLength := UInt32.ofNat options.encryptedMetadata.length

/-- `seal` up to its call of the cipher, with the random nonce or none. -/
def sealRequest [Sha256] [Zlib] (payload : Bytes) (provider : DntKeyProvider) (codec : DntCodec)
    (options : DntSealOptions) (random : Option Nonce) : DntResult SealRequest := do
  enforceMax payload.length options.maxPayloadBytes
  validateFlags options.flags
  let encoded ← (codec.encode payload).mapError CodecError.toDnt
  enforceMax encoded.length options.maxPayloadBytes
  let stored ← encodePayload options.flags encoded options.maxPayloadBytes
  enforceMax stored.length options.maxPayloadBytes
  if options.encryptedMetadata.length ≥ 2 ^ 32 then .error .payloadTooLarge
  else
    let context : DntContext := ⟨options.applicationId, options.tenantId, options.contentType,
      codec.codecId, options.schemaVersion⟩
    let key ← resolveKey provider options.keyId context
    match random with
    | none => .error .io
    | some nonce =>
      let payloadHash ← payloadDigest key stored
      if stored.length ≥ 2 ^ 64 then .error .payloadTooLarge
      else
        let header ← encodeHeader (sealedParts options codec.codecId nonce stored payloadHash)
        let plaintext ← encodePlaintext options.encryptedMetadata stored
        .ok ⟨key, nonce, header, plaintext⟩

/-- The envelope of a request: the header and the ciphertext. -/
def SealRequest.envelope [Aead] (request : SealRequest) : DntResult Bytes :=
  match Aead.encrypt request.key request.nonce request.header request.plaintext with
  | none => .error .authenticationFailed
  | some ciphertext => .ok (request.header ++ ciphertext)

/-- `seal`. -/
def sealDnt [Sha256] [Aead] [Zlib] (payload : Bytes) (provider : DntKeyProvider) (codec : DntCodec)
    (options : DntSealOptions) (random : Option Nonce) : DntResult Bytes := do
  let request ← sealRequest payload provider codec options random
  request.envelope

/-! ## Opening -/

structure AuthenticatedDnt where
  header : DntHeader
  encryptedMetadata : Bytes
  buffer : Bytes
  payloadRange : Range

def AuthenticatedDnt.storedPayload (dnt : AuthenticatedDnt) : Bytes := dnt.payloadRange.of dnt.buffer

/-- `take_payload_buffer`: the payload is moved to the front, what it leaves behind is cleared,
and the buffer is cut off behind it. -/
def AuthenticatedDnt.takePayloadBuffer (dnt : AuthenticatedDnt) : Bytes :=
  let start := dnt.payloadRange.start
  let stop := dnt.payloadRange.stop
  let length := stop - start
  let buffer :=
    if start ≠ 0 then dnt.payloadRange.of dnt.buffer ++ dnt.buffer.drop length else dnt.buffer
  let buffer := buffer.take length ++ List.replicate (stop - length) 0 ++ buffer.drop stop
  buffer.take length

def validateHeaderContext (header : DntHeader) (codec : DntCodec) (options : DntOpenOptions) :
    DntResult Unit :=
  if header.applicationId ≠ options.applicationId ∨ header.tenantId ≠ options.tenantId ∨
      header.contentType ≠ options.contentType then .error .contextMismatch
  else if !codec.matchesCodecId header.codecId then .error .codecUnavailable
  else .ok ()

def decrypt [Aead] (key : SecretKey) (nonce : Nonce) (aad ciphertext : Bytes) : DntResult Bytes :=
  match Aead.decrypt key nonce aad ciphertext with
  | none => .error .authenticationFailed
  | some plaintext => .ok plaintext

/-- `decrypt_owned_in_place`: the buffer after it, and where the plaintext stands. -/
def decryptOwnedInPlace [Aead] (key : SecretKey) (nonce : Nonce) (headerLength : Nat)
    (input : Bytes) : DntResult (Bytes × Range) :=
  if input.length < headerLength then .error .invalidFormat
  else
    let aad := input.take headerLength
    let ciphertextWithTag := input.drop headerLength
    if ciphertextWithTag.length < aeadTagBytes then .error .invalidFormat
    else
      let tagStart := ciphertextWithTag.length - aeadTagBytes
      let tag := ciphertextWithTag.drop tagStart
      match Aead.decryptInPlaceDetached key nonce aad (ciphertextWithTag.take tagStart) tag with
      | none => .error .authenticationFailed
      | some plaintext =>
        .ok (aad ++ (plaintext ++ tag), ⟨headerLength, headerLength + tagStart⟩)

def authenticateInternal [Sha256] [Aead] (input : Bytes) (provider : DntKeyProvider)
    (codec : DntCodec) (options : DntOpenOptions) : DntResult AuthenticatedDnt := do
  let header ← inspectHeader input
  validateHeaderContext header codec options
  enforceMax header.payloadLength.toNat options.maxPayloadBytes
  let headerLength := header.headerLength.toNat
  let ciphertext ← get input headerLength input.length
  if ciphertext.isEmpty then .error .invalidFormat
  else
    let key ← resolveKey provider header.keyId (DntContext.fromHeader header)
    let plaintext ← decrypt key header.nonce (input.take headerLength) ciphertext
    let (metadataRange, payloadStart) ← decodePlaintextRanges plaintext header
    let digestMatches ← verifyPayloadDigest key (plaintext.drop payloadStart) header.payloadHash
    if !digestMatches then .error .authenticationFailed
    else .ok ⟨header, metadataRange.of plaintext, plaintext, ⟨payloadStart, plaintext.length⟩⟩

def authenticateOwnedInternal [Sha256] [Aead] (input : Bytes) (provider : DntKeyProvider)
    (codec : DntCodec) (options : DntOpenOptions) : DntResult AuthenticatedDnt := do
  let header ← inspectHeader input
  validateHeaderContext header codec options
  enforceMax header.payloadLength.toNat options.maxPayloadBytes
  let headerLength := header.headerLength.toNat
  if input.length ≤ headerLength then .error .invalidFormat
  else
    let key ← resolveKey provider header.keyId (DntContext.fromHeader header)
    let (buffer, plaintextRange) ← decryptOwnedInPlace key header.nonce headerLength input
    let (metadataRange, payloadStart) ← decodePlaintextRanges (plaintextRange.of buffer) header
    let payloadRange : Range := ⟨plaintextRange.start + payloadStart, plaintextRange.stop⟩
    let metadataRange : Range :=
      ⟨plaintextRange.start + metadataRange.start, plaintextRange.start + metadataRange.stop⟩
    let digestMatches ← verifyPayloadDigest key (payloadRange.of buffer) header.payloadHash
    if !digestMatches then .error .authenticationFailed
    else .ok ⟨header, metadataRange.of buffer, buffer, payloadRange⟩

def openAuthenticated [Zlib] (dnt : AuthenticatedDnt) (codec : DntCodec) (options : DntOpenOptions) :
    DntResult OpenedDnt := do
  let encoded ←
    if dnt.header.compression.isCompacted then
      decodePayload dnt.header.flags dnt.storedPayload options.maxPayloadBytes
    else .ok dnt.takePayloadBuffer
  let payload ← (codec.decodeOwned encoded).mapError CodecError.toDnt
  enforceMax payload.length options.maxPayloadBytes
  .ok ⟨dnt.header, payload, dnt.encryptedMetadata⟩

/-- `open`. -/
def openDnt [Sha256] [Aead] [Zlib] (input : Bytes) (provider : DntKeyProvider) (codec : DntCodec)
    (options : DntOpenOptions) : DntResult OpenedDnt := do
  let dnt ← authenticateInternal input provider codec options
  openAuthenticated dnt codec options

def openOwned [Sha256] [Aead] [Zlib] (input : Bytes) (provider : DntKeyProvider) (codec : DntCodec)
    (options : DntOpenOptions) : DntResult OpenedDnt := do
  let dnt ← authenticateOwnedInternal input provider codec options
  openAuthenticated dnt codec options

end AppCore.Dnt
