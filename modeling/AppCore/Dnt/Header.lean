import AppCore.Base.Cursor
import AppCore.Dnt.Types

/-!
# The DNT header

`header.rs`: a fixed part with big-endian numbers, five texts behind their lengths, and the public
metadata. The length of the whole header is written into bytes 10 to 13 at the end.

A reader takes the input and a cursor, as the `take_` functions do, and returns the cursor behind
what it read.
-/

namespace AppCore.Dnt

/-! ## Writing -/

def putText (output : Bytes) (value : String) : DntResult Bytes :=
  if (strBytes value).length < 2 ^ 16 then
    .ok (output ++ toBeBytes16 (UInt16.ofNat (strBytes value).length) ++ strBytes value)
  else .error .invalidFormat

/-- `put_optional_text`: a text that is absent has length zero. -/
def putOptionalText (output : Bytes) : Option String → DntResult Bytes
  | some value => putText output value
  | none => .ok (output ++ toBeBytes16 0)

/-- `header[offset..].copy_from_slice(bytes)`. -/
def patch (header : Bytes) (offset : Nat) (bytes : Bytes) : Bytes :=
  header.take offset ++ bytes ++ header.drop (offset + bytes.length)

/-- The part of the header before its texts, with the length still zero. -/
def fixedHeader (parts : HeaderParts) : Bytes :=
  dntMagic ++ toBeBytes16 dntEnvelopeVersionV1 ++ toBeBytes32 0 ++ toBeBytes32 parts.flags ++
    toBeBytes16 parts.algorithm.id ++ toBeBytes32 parts.schemaVersion ++
    toBeBytes64 parts.createdAtMs ++ toBeBytes64 parts.payloadLength ++ parts.nonce.toList ++
    parts.payloadHash.toList ++ toBeBytes32 (UInt32.ofNat parts.publicMetadata.length) ++
    toBeBytes32 parts.encryptedMetadataLength

def encodeHeader (parts : HeaderParts) : DntResult Bytes :=
  if parts.publicMetadata.length > dntMaxHeaderBytes ∨
      parts.encryptedMetadataLength.toNat > dntMaxEncryptedMetadataBytes then
    .error .payloadTooLarge
  else do
    let header ← putText (fixedHeader parts) parts.applicationId.asStr
    let header ← putOptionalText header (parts.tenantId.map (·.asStr))
    let header ← putText header parts.contentType.asStr
    let header ← putText header parts.codecId.asStr
    let header ← putText header parts.keyId.asStr
    let header := header ++ parts.publicMetadata
    if header.length > dntMaxHeaderBytes then .error .invalidFormat
    else .ok (patch header 10 (toBeBytes32 (UInt32.ofNat header.length)))

/-! ## Reading -/

/-- `input.get(start..stop)`, or the error for a malformed input. -/
def get (input : Bytes) (start stop : Nat) : DntResult Bytes :=
  match slice input start stop with
  | none => .error .invalidFormat
  | some bytes => .ok bytes

def readU16 (input : Bytes) (offset : Nat) : DntResult UInt16 :=
  (get input offset (offset + 2)).map fun bytes => UInt16.ofNat (fromBe bytes)

def readU32 (input : Bytes) (offset : Nat) : DntResult UInt32 :=
  (get input offset (offset + 4)).map fun bytes => UInt32.ofNat (fromBe bytes)

def takeU16 : Reader DntError UInt16 := fun input cursor =>
  (readU16 input cursor).map fun value => (value, cursor + 2)

def takeU32 : Reader DntError UInt32 := fun input cursor =>
  (readU32 input cursor).map fun value => (value, cursor + 4)

def takeBytes (length : Nat) : Reader DntError Bytes := fun input cursor =>
  (get input cursor (cursor + length)).map fun bytes => (bytes, cursor + length)

def takeU64 : Reader DntError UInt64 := fun input cursor =>
  (takeBytes 8 input cursor).map fun (bytes, cursor) => (UInt64.ofNat (fromBe bytes), cursor)

def takeArray (n : Nat) : Reader DntError (Vector UInt8 n) := fun input cursor => do
  let (bytes, cursor) ← takeBytes n input cursor
  if h : bytes.length = n then .ok (⟨bytes.toArray, by simpa using h⟩, cursor)
  else .error .invalidFormat

def textOf (bytes : Bytes) : DntResult String :=
  match fromUtf8 bytes with
  | none => .error .invalidFormat
  | some text => .ok (String.ofList text)

def takeText : Reader DntError String := fun input cursor => do
  let (length, cursor) ← takeU16 input cursor
  if length = 0 then .error .invalidFormat
  else
    let (bytes, cursor) ← takeBytes length.toNat input cursor
    let text ← textOf bytes
    .ok (text, cursor)

def takeOptionalText : Reader DntError (Option String) := fun input cursor => do
  let (length, cursor) ← takeU16 input cursor
  if length = 0 then .ok (none, cursor)
  else
    let (bytes, cursor) ← takeBytes length.toNat input cursor
    let text ← textOf bytes
    .ok (some text, cursor)

/-- An identifier of another crate, whose error is dropped. -/
def asFormat {ε α : Type} : Except ε α → DntResult α
  | .error _ => .error .invalidFormat
  | .ok value => .ok value

/-- The tenant of a header. -/
def tenantOf : Option String → DntResult (Option TenantId)
  | none => .ok none
  | some text => (asFormat (TenantId.new text)).map some

def parseHeader (input : Bytes) (headerLength : UInt32) : DntResult DntHeader := do
  let (flags, cursor) ← takeU32 input 14
  validateFlags flags
  let (algorithmId, cursor) ← takeU16 input cursor
  let algorithm ← DntAlgorithm.fromId algorithmId
  let (schemaVersion, cursor) ← takeU32 input cursor
  let (createdAtMs, cursor) ← takeU64 input cursor
  let (payloadLength, cursor) ← takeU64 input cursor
  let (nonce, cursor) ← takeArray 24 input cursor
  let (payloadHash, cursor) ← takeArray 32 input cursor
  let (publicMetadataLength, cursor) ← takeU32 input cursor
  let (encryptedMetadataLength, cursor) ← takeU32 input cursor
  if encryptedMetadataLength.toNat > dntMaxEncryptedMetadataBytes then .error .payloadTooLarge
  else
    let (applicationText, cursor) ← takeText input cursor
    let applicationId ← asFormat (ApplicationId.new applicationText)
    let (tenantText, cursor) ← takeOptionalText input cursor
    let tenantId ← tenantOf tenantText
    let (contentText, cursor) ← takeText input cursor
    let contentType ← ContentType.new contentText
    let (codecText, cursor) ← takeText input cursor
    let codecId ← CodecId.new codecText
    let (keyText, cursor) ← takeText input cursor
    let keyId ← KeyId.new keyText
    let (publicMetadata, cursor) ← takeBytes publicMetadataLength.toNat input cursor
    if cursor ≠ input.length then .error .invalidFormat
    else
      .ok ⟨⟨flags, algorithm, applicationId, tenantId, contentType, codecId, keyId, schemaVersion,
        createdAtMs, payloadLength, nonce, payloadHash, publicMetadata, encryptedMetadataLength⟩,
        dntEnvelopeVersionV1, headerLength⟩

def inspectHeader (input : Bytes) : DntResult DntHeader :=
  if input.length < minPrefixBytes ∨ input.take 8 ≠ dntMagic then .error .invalidFormat
  else do
    let version ← readU16 input 8
    if version ≠ dntEnvelopeVersionV1 then .error .unsupportedVersion
    else
      let headerLength ← readU32 input 10
      if ¬ (minPrefixBytes ≤ headerLength.toNat ∧ headerLength.toNat ≤ dntMaxHeaderBytes) ∨
          input.length < headerLength.toNat then .error .invalidFormat
      else parseHeader (input.take headerLength.toNat) headerLength

end AppCore.Dnt
