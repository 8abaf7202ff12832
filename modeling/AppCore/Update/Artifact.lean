import AppCore.Base.Cursor
import AppCore.Dnt.Types

/-!
# Update artifacts

The descriptor of a published artifact and its checks (`artifact.rs`). A descriptor that was
deserialized has valid identifiers, and nothing else in it has been checked. Versions and version
requirements are those of a third-party crate (`Semver`).

* `ArtifactDescriptor.checks_of_validate` — what is known of an accepted descriptor.
-/

namespace AppCore.Update

/-! ## Descriptors -/

inductive UpdateFaultPoint where
  | afterSelection
  | afterVerification
  | afterStaging
  | afterActivation
  | beforeCommit
  deriving DecidableEq, Repr

inductive UpdateError where
  | invalidArtifact (reason : String)
  | incompatible (reason : String)
  | provider (reason : String)
  | artifactTooLarge (maxBytes : Nat)
  | checksumMismatch
  | authenticity (reason : String)
  | store (reason : String)
  | health (reason : String)
  | injectedFault (point : UpdateFaultPoint)
  | rollbackFailed (cause rollback : String)
  deriving DecidableEq, Repr

abbrev UpdateResult (α : Type) := Except UpdateError α

/-- The version crate. -/
class Semver where
  Version : Type
  VersionReq : Type
  parse : String → Except String Version
  parseReq : String → Except String VersionReq

structure BuildId where
  asStr : String
  valid : validateContractIdentifier "build_id" asStr = .ok ()
  deriving DecidableEq

structure ArtifactDescriptor where
  applicationId : ApplicationId
  applicationVersion : String
  buildId : BuildId
  channel : String
  runtimeRequirement : String
  protocolVersion : String
  artifactReference : String
  sha256 : String
  sizeBytes : UInt64
  signingKeyId : Option String
  ed25519Signature : Option String
  deriving DecidableEq

/-! ## Checks -/

/-- A hexadecimal digit that is not in upper case. -/
def isLowerHexByte (b : UInt8) : Bool := isAsciiDigitByte b || (0x61 ≤ b && b ≤ 0x66)

/-- The text has so many lowercase hexadecimal digits, and nothing else. -/
def isLowerHex (digits : Nat) (text : String) : Bool :=
  (strBytes text).length == digits && (strBytes text).all isLowerHexByte

/-- The text is empty, too long or has control characters in it. -/
def isImproper (value : String) (max : Nat) : Bool :=
  isBlank value.toList || max < (strBytes value).length || value.toList.any isControl

/-- A text of a descriptor, with its name and the bytes it may have. -/
structure TextField where
  name : String
  value : String
  max : Nat

/-- The texts that the loop in `ArtifactDescriptor::validate` goes through. -/
def ArtifactDescriptor.texts (descriptor : ArtifactDescriptor) : List TextField :=
  [ ⟨"application_version", descriptor.applicationVersion, 64⟩,
    ⟨"channel", descriptor.channel, 64⟩,
    ⟨"runtime_requirement", descriptor.runtimeRequirement, 128⟩,
    ⟨"protocol_version", descriptor.protocolVersion, 64⟩,
    ⟨"artifact_reference", descriptor.artifactReference, 2048⟩ ]

/-- The body of that loop. -/
def checkText (field : TextField) : UpdateResult Unit :=
  if isImproper field.value field.max then
    .error (.invalidArtifact (field.name ++ " is empty, too long or contains control characters"))
  else .ok ()

/-- The result of the version crate, with the error told as `what`. -/
def parsed {α : Type} (what : String) : Except String α → UpdateResult α
  | .ok value => .ok value
  | .error error => .error (.invalidArtifact (what ++ ": " ++ error))

/-- The signature and its key are both there, or neither is. -/
def checkSignature : Option String → Option String → UpdateResult Unit
  | none, none => .ok ()
  | some keyId, some signature =>
    if isImproper keyId 128 then
      .error (.invalidArtifact
        "signing_key_id is empty, too long or contains control characters")
    else if !isLowerHex 128 signature then
      .error (.invalidArtifact
        "ed25519_signature must be 128 lowercase hexadecimal characters")
    else .ok ()
  | _, _ =>
    .error (.invalidArtifact
      "signing_key_id and ed25519_signature must be provided together")

def ArtifactDescriptor.validate [Semver] (descriptor : ArtifactDescriptor) : UpdateResult Unit := do
  descriptor.texts.forM checkText
  let _ ← parsed "invalid application version" (Semver.parse descriptor.applicationVersion)
  let _ ← parsed "invalid runtime requirement" (Semver.parseReq descriptor.runtimeRequirement)
  if descriptor.sizeBytes = 0 then
    .error (.invalidArtifact "size_bytes must be greater than zero")
  else if !isLowerHex 64 descriptor.sha256 then
    .error (.invalidArtifact "sha256 must be 64 lowercase hexadecimal characters")
  else checkSignature descriptor.signingKeyId descriptor.ed25519Signature

theorem checkText_eq_ok {field : TextField} :
    checkText field = .ok () ↔ isImproper field.value field.max = false := by
  rw [checkText]
  by_cases h : isImproper field.value field.max = true
  · simp [h]
  · simp [h]

/-- What `validate` establishes: every text passes its check, and the checksum is a checksum. -/
theorem ArtifactDescriptor.checks_of_validate [Semver] {descriptor : ArtifactDescriptor}
    (h : descriptor.validate = .ok ()) :
    (∀ field ∈ descriptor.texts, isImproper field.value field.max = false) ∧
      isLowerHex 64 descriptor.sha256 = true := by
  obtain ⟨_, htexts, h⟩ := bind_eq_ok.1 h
  obtain ⟨_, -, h⟩ := bind_eq_ok.1 h
  obtain ⟨_, -, h⟩ := bind_eq_ok.1 h
  constructor
  · intro field hfield
    exact checkText_eq_ok.1 (forM_eq_ok.1 htexts field hfield)
  · split at h
    · cases h
    · split at h
      · cases h
      · rename_i hhex
        simpa using hhex

theorem any_isControl_of_isImproper {value : String} {max : Nat}
    (h : isImproper value max = false) : value.toList.any isControl = false := by
  rw [isImproper, Bool.or_eq_false_iff] at h
  exact h.2

/-- No control character is in an identifier of the contracts crate. -/
theorem any_isControl_of_contractIdentifier {field value : String}
    (h : validateContractIdentifier field value = .ok ()) :
    value.toList.any isControl = false := by
  unfold validateContractIdentifier validateContractText at h
  by_cases hcontrol : value.toList.any isControl = true
  · rw [hcontrol] at h
    split at h
    · cases h
    · rename_i htext
      split at htext
      · cases htext
      · split at htext
        · cases htext
        · cases htext
  · simpa using hcontrol

end AppCore.Update
