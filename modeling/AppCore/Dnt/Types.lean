import AppCore.Types.Ids

/-!
# DNT identifiers, flags and headers

The data of `appcore-dnt`: its errors, the validated identifiers of its header (`ids.rs`, with
`ApplicationId` from the contracts crate), the flag field (`flags.rs`), and the header itself.

An identifier is only made by its constructor, so it carries its validity. `TenantId` is shared
with the wire types and does not.
-/

namespace AppCore

/-! ## Application identifiers -/

/-- `ContractError`, with the variants the identifier check produces. -/
inductive ContractError where
  | empty (field : String)
  | tooLong (field : String) (maxBytes : Nat)
  | invalidValue (field reason : String)
  | invalidIdentifier (field : String)
  deriving DecidableEq, Repr

def isAsciiAlphanumeric (c : Char) : Bool :=
  ('a' ≤ c && c ≤ 'z') || ('A' ≤ c && c ≤ 'Z') || ('0' ≤ c && c ≤ '9')

/-- `validate_text` of the contracts crate. -/
def validateContractText (field value : String) (maxBytes : Nat) : Except ContractError Unit :=
  if isBlank value.toList then .error (.empty field)
  else if (strBytes value).length > maxBytes then .error (.tooLong field maxBytes)
  else if value.toList.any isControl then
    .error (.invalidValue field "control characters are not allowed")
  else .ok ()

/-- `validate_identifier` of the contracts crate. -/
def validateContractIdentifier (field value : String) : Except ContractError Unit :=
  match validateContractText field value 128 with
  | .error e => .error e
  | .ok () =>
    match value.toList.head? with
    | none => .error (.invalidIdentifier field)
    | some first =>
      if !isAsciiAlphanumeric first ||
          !(value.toList.all fun c => isAsciiAlphanumeric c || "-_.:+".toList.contains c) ||
          !(value.toList.getLast?.any isAsciiAlphanumeric) then
        .error (.invalidIdentifier field)
      else .ok ()

structure ApplicationId where
  asStr : String
  valid : validateContractIdentifier "application_id" asStr = .ok ()
  deriving DecidableEq

def ApplicationId.new (value : String) : Except ContractError ApplicationId :=
  match h : validateContractIdentifier "application_id" value with
  | .error e => .error e
  | .ok () => .ok ⟨value, h⟩

end AppCore

namespace AppCore.Dnt

/-! ## Errors -/

inductive DntError where
  | invalidFormat
  | unsupportedVersion
  | payloadTooLarge
  | invalidFlags
  | contextMismatch
  | keyUnavailable
  | authenticationFailed
  | codecUnavailable
  | codecFailed
  | io
  deriving DecidableEq, Repr

abbrev DntResult (α : Type) := Except DntError α

inductive DntKeyError where
  | notFound
  | unavailable
  | invalidKey
  | forbidden
  deriving DecidableEq, Repr

inductive CodecError where
  | encodeFailed
  | decodeFailed
  | payloadTooLarge
  deriving DecidableEq, Repr

/-- `From<DntKeyError> for DntError`. -/
def DntKeyError.toDnt : DntKeyError → DntError
  | .notFound => .keyUnavailable
  | .unavailable => .keyUnavailable
  | .invalidKey => .keyUnavailable
  | .forbidden => .contextMismatch

/-- `From<CodecError> for DntError`. -/
def CodecError.toDnt (_ : CodecError) : DntError := .codecFailed

/-! ## Identifiers -/

/-- The bytes `validate_id` allows. -/
def isIdByte (allowSlash : Bool) (b : UInt8) : Bool :=
  isAsciiAlphanumericByte b || b == 0x2e || b == 0x2d || b == 0x5f || (allowSlash && b == 0x2f)

def validateId (value : String) (max : Nat) (allowSlash : Bool) : DntResult Unit :=
  if (strBytes value).isEmpty || (strBytes value).length > max then .error .invalidFormat
  else if (strBytes value).all (isIdByte allowSlash) && value.toList.head? != some '/' &&
      value.toList.getLast? != some '/' then .ok ()
  else .error .invalidFormat

structure ContentType where
  asStr : String
  valid : validateId asStr 128 true = .ok ()
  deriving DecidableEq

def ContentType.new (value : String) : DntResult ContentType :=
  match h : validateId value 128 true with
  | .error e => .error e
  | .ok () => .ok ⟨value, h⟩

structure CodecId where
  asStr : String
  valid : validateId asStr 64 false = .ok ()
  deriving DecidableEq

def CodecId.new (value : String) : DntResult CodecId :=
  match h : validateId value 64 false with
  | .error e => .error e
  | .ok () => .ok ⟨value, h⟩

structure KeyId where
  asStr : String
  valid : validateId asStr 128 false = .ok ()
  deriving DecidableEq

def KeyId.new (value : String) : DntResult KeyId :=
  match h : validateId value 128 false with
  | .error e => .error e
  | .ok () => .ok ⟨value, h⟩

/-! ## Flags -/

def dntFlagPayloadDeflate : UInt32 := 0x00000001

def dntInternalFlagMask : UInt32 := 0x0000ffff

def knownInternalFlags : UInt32 := dntFlagPayloadDeflate

def validateFlags (flags : UInt32) : DntResult Unit :=
  if flags &&& dntInternalFlagMask &&& ~~~knownInternalFlags ≠ 0 then .error .invalidFlags
  else .ok ()

inductive DntCompression where
  | none
  | deflate
  deriving DecidableEq, Repr

def DntCompression.fromFlags (flags : UInt32) : DntResult DntCompression :=
  match validateFlags flags with
  | .error e => .error e
  | .ok () => if flags &&& dntFlagPayloadDeflate ≠ 0 then .ok .deflate else .ok .none

def DntCompression.isCompacted (compression : DntCompression) : Bool := compression != .none

/-! ## Headers -/

def dntMagic : Bytes := [0x41, 0x50, 0x44, 0x4e, 0x54, 0, 0, 1]

def dntEnvelopeVersionV1 : UInt16 := 1

def dntMaxHeaderBytes : Nat := 64 * 1024

def dntMaxEncryptedMetadataBytes : Nat := 64 * 1024

def minPrefixBytes : Nat := 14

inductive DntAlgorithm where
  | xChaCha20Poly1305
  deriving DecidableEq, Repr

def DntAlgorithm.id : DntAlgorithm → UInt16
  | .xChaCha20Poly1305 => 1

def DntAlgorithm.fromId (value : UInt16) : DntResult DntAlgorithm :=
  if value = 1 then .ok .xChaCha20Poly1305 else .error .unsupportedVersion

/-- `HeaderParts`: what a header says. -/
structure HeaderParts where
  flags : UInt32
  algorithm : DntAlgorithm
  applicationId : ApplicationId
  tenantId : Option TenantId
  contentType : ContentType
  codecId : CodecId
  keyId : KeyId
  schemaVersion : UInt32
  createdAtMs : UInt64
  payloadLength : UInt64
  nonce : Vector UInt8 24
  payloadHash : Vector UInt8 32
  publicMetadata : Bytes
  encryptedMetadataLength : UInt32
  deriving DecidableEq

/-- `DntHeader`: the parts with the version and the length of the header. -/
structure DntHeader extends HeaderParts where
  envelopeVersion : UInt16
  headerLength : UInt32
  deriving DecidableEq

def DntHeader.compression (header : DntHeader) : DntCompression :=
  if header.flags &&& dntFlagPayloadDeflate ≠ 0 then .deflate else .none

end AppCore.Dnt
