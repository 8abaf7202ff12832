import AppCore.Base.Delimited
import AppCore.Base.Lines
import AppCore.Update.Artifact

/-!
# The authenticity of an artifact

The text that an artifact's signature is made for (`authenticity.rs`): a line `name=value` for each
field, without any escapes. The names have no `=` in them, and no value of an accepted descriptor has
a newline, so that the lines can be told apart whatever else the values hold.

* `eq_of_artifactSigningPayload` — the signed text determines every field.
-/

namespace AppCore.Update

/-- The fields that `artifact_signing_payload` goes through. -/
def signingFields (artifact : ArtifactDescriptor) : List (String × String) :=
  [ ("application_id", artifact.applicationId.asStr),
    ("application_version", artifact.applicationVersion),
    ("build_id", artifact.buildId.asStr),
    ("channel", artifact.channel),
    ("runtime_requirement", artifact.runtimeRequirement),
    ("protocol_version", artifact.protocolVersion),
    ("artifact_reference", artifact.artifactReference),
    ("sha256", artifact.sha256),
    ("size_bytes", String.ofList (decimal artifact.sizeBytes.toNat)) ]

/-- The line of a field: its name, `=`, its value and a newline. -/
def signingLine (field : String × String) : Bytes :=
  strBytes field.1 ++ [0x3d] ++ (strBytes field.2 ++ [0x0a])

def artifactSigningPayload (artifact : ArtifactDescriptor) : Bytes :=
  (signingFields artifact).flatMap signingLine

/-! ## Lines -/

/-- A field whose line can be cut off: the name has no `=` in it and the value no newline. -/
def Separable (field : String × String) : Prop :=
  (0x3d : UInt8) ∉ strBytes field.1 ∧ (0x0a : UInt8) ∉ strBytes field.2

theorem delimited_signingLine : Delimited Separable signingLine := by
  have hname : Delimited (fun name : String => (0x3d : UInt8) ∉ strBytes name)
      fun name => strBytes name ++ [0x3d] := (delimited_terminated 0x3d).comp strBytes_injective
  have hvalue : Delimited (fun value : String => (0x0a : UInt8) ∉ strBytes value)
      fun value => strBytes value ++ [0x0a] := (delimited_terminated 0x0a).comp strBytes_injective
  exact hname.append hvalue

theorem signingLine_ne_nil (field : String × String) : signingLine field ≠ [] := by
  simp [signingLine]

theorem newline_not_mem_of_isControl {value : String} (h : value.toList.any isControl = false) :
    (0x0a : UInt8) ∉ strBytes value := by
  intro hmem
  have hcontrol := List.any_eq_false.1 h '\n' (newline_mem_utf8.1 hmem)
  exact hcontrol rfl

theorem newline_not_mem_of_isLowerHex {digits : Nat} {text : String}
    (h : isLowerHex digits text = true) : (0x0a : UInt8) ∉ strBytes text := by
  intro hmem
  rw [isLowerHex, Bool.and_eq_true] at h
  have hdigit := List.all_eq_true.1 h.2 _ hmem
  exact absurd hdigit (by decide)

theorem newline_not_mem_decimal (n : Nat) :
    (0x0a : UInt8) ∉ strBytes (String.ofList (decimal n)) := by
  intro hmem
  rw [strBytes, String.toList_ofList] at hmem
  have hdigit := isDigit_of_mem_decimal (newline_mem_utf8.1 hmem)
  exact absurd hdigit (by decide)

theorem map_fst_signingFields (artifact : ArtifactDescriptor) :
    (signingFields artifact).map Prod.fst =
      ["application_id", "application_version", "build_id", "channel", "runtime_requirement",
        "protocol_version", "artifact_reference", "sha256", "size_bytes"] := rfl

theorem equals_not_mem_name {artifact : ArtifactDescriptor} {field : String × String}
    (h : field ∈ signingFields artifact) : (0x3d : UInt8) ∉ strBytes field.1 := by
  have hnames : ∀ name ∈ (signingFields artifact).map Prod.fst, (0x3d : UInt8) ∉ strBytes name := by
    rw [map_fst_signingFields]
    decide
  exact hnames field.1 (List.mem_map_of_mem h)

/-- Every field of an accepted descriptor can be cut off. -/
theorem separable_of_validate [Semver] {artifact : ArtifactDescriptor}
    (h : artifact.validate = .ok ()) : ∀ field ∈ signingFields artifact, Separable field := by
  obtain ⟨htexts, hsha⟩ := artifact.checks_of_validate h
  have htext (field : TextField) (hfield : field ∈ artifact.texts) :
      (0x0a : UInt8) ∉ strBytes field.value :=
    newline_not_mem_of_isControl (any_isControl_of_isImproper (htexts field hfield))
  simp only [ArtifactDescriptor.texts, List.forall_mem_cons] at htext
  obtain ⟨hversion, hchannel, hruntime, hprotocol, hreference, -⟩ := htext
  have happlication := newline_not_mem_of_isControl
    (any_isControl_of_contractIdentifier artifact.applicationId.valid)
  have hbuild := newline_not_mem_of_isControl
    (any_isControl_of_contractIdentifier artifact.buildId.valid)
  have hvalues : ∀ field ∈ signingFields artifact, (0x0a : UInt8) ∉ strBytes field.2 := by
    simp only [signingFields, List.forall_mem_cons]
    exact ⟨happlication, hversion, hbuild, hchannel, hruntime, hprotocol, hreference,
      newline_not_mem_of_isLowerHex hsha, newline_not_mem_decimal _, List.forall_mem_nil _⟩
  intro field hfield
  exact ⟨equals_not_mem_name hfield, hvalues field hfield⟩

/-- **The signature covers the whole descriptor**: accepted descriptors with one signed text have
the same fields, the signature and the name of its key apart. -/
theorem eq_of_artifactSigningPayload [Semver] {a b : ArtifactDescriptor}
    (ha : a.validate = .ok ()) (hb : b.validate = .ok ())
    (h : artifactSigningPayload a = artifactSigningPayload b) :
    a.applicationId = b.applicationId ∧ a.applicationVersion = b.applicationVersion ∧
      a.buildId = b.buildId ∧ a.channel = b.channel ∧
      a.runtimeRequirement = b.runtimeRequirement ∧ a.protocolVersion = b.protocolVersion ∧
      a.artifactReference = b.artifactReference ∧ a.sha256 = b.sha256 ∧
      a.sizeBytes = b.sizeBytes := by
  have hfields := delimited_signingLine.flatMap_injective signingLine_ne_nil
    (separable_of_validate ha) (separable_of_validate hb) h
  simp only [signingFields, List.cons.injEq, Prod.mk.injEq, true_and, and_true] at hfields
  obtain ⟨hid, hversion, hbuild, hchannel, hruntime, hprotocol, hreference, hsha, hsize⟩ := hfields
  have happlication : a.applicationId = b.applicationId := by
    cases hida : a.applicationId
    cases hidb : b.applicationId
    simpa [hida, hidb] using hid
  have hbuildId : a.buildId = b.buildId := by
    cases hida : a.buildId
    cases hidb : b.buildId
    simpa [hida, hidb] using hbuild
  have hbytes : a.sizeBytes = b.sizeBytes :=
    UInt64.toNat_inj.1 (decimal_injective (String.ofList_injective hsize))
  exact ⟨happlication, hversion, hbuildId, hchannel, hruntime, hprotocol, hreference, hsha, hbytes⟩

/-! ### One artifact, signed and not -/

/-- The versions `0.0.0` to `9.9.9` and the requirement that any version meets. -/
@[reducible] def shortVersions : Semver where
  Version := Char × Char × Char
  VersionReq := Unit
  parse text :=
    match text.toList with
    | [major, '.', minor, '.', patch] =>
      if major.isDigit && minor.isDigit && patch.isDigit then .ok (major, minor, patch)
      else .error "unexpected character"
    | _ => .error "unexpected end of input"
  parseReq text := if text = "*" then .ok () else .error "unexpected character"

theorem valid_sampleApplication : validateContractIdentifier "application_id" "app" = .ok () := by
  decide

theorem valid_sampleBuild : validateContractIdentifier "build_id" "b1" = .ok () := by
  decide

/-- An artifact with a signature, or without one. -/
def sampleArtifact (signed : Bool) : ArtifactDescriptor where
  applicationId := ⟨"app", valid_sampleApplication⟩
  applicationVersion := "1.2.0"
  buildId := ⟨"b1", valid_sampleBuild⟩
  channel := "stable=1"
  runtimeRequirement := "*"
  protocolVersion := "1"
  artifactReference := "r"
  sha256 := String.ofList (List.replicate 64 'a')
  sizeBytes := 7
  signingKeyId := if signed then some "key" else none
  ed25519Signature := if signed then some (String.ofList (List.replicate 128 'b')) else none

theorem isLowerHex_replicate {digits : Nat} {c : Char} {b : UInt8}
    (henc : utf8 [c] = [b]) (hb : isLowerHexByte b = true) :
    isLowerHex digits (String.ofList (List.replicate digits c)) = true := by
  have hbytes : strBytes (String.ofList (List.replicate digits c)) = List.replicate digits b := by
    rw [strBytes, String.toList_ofList]
    induction digits with
    | zero => rfl
    | succ n ih => rw [List.replicate_succ, List.replicate_succ, ← List.singleton_append,
        utf8_append, henc, ih, List.singleton_append]
  rw [isLowerHex, hbytes, Bool.and_eq_true]
  exact ⟨by simp, List.all_eq_true.2 fun x hx => (List.eq_of_mem_replicate hx).symm ▸ hb⟩

theorem validate_sampleArtifact (signed : Bool) :
    @ArtifactDescriptor.validate shortVersions (sampleArtifact signed) = .ok () := by
  have htexts : (sampleArtifact signed).texts.forM checkText = .ok () := by
    have hversion : isImproper "1.2.0" 64 = false := by decide
    have hchannel : isImproper "stable=1" 64 = false := by decide
    have hruntime : isImproper "*" 128 = false := by decide
    have hprotocol : isImproper "1" 64 = false := by decide
    have hreference : isImproper "r" 2048 = false := by decide
    rw [forM_eq_ok]
    simp only [ArtifactDescriptor.texts, List.forall_mem_cons, checkText_eq_ok]
    exact ⟨hversion, hchannel, hruntime, hprotocol, hreference, List.forall_mem_nil _⟩
  have hsha : isLowerHex 64 (String.ofList (List.replicate 64 'a')) = true :=
    isLowerHex_replicate (c := 'a') (b := 0x61) (by decide) (by decide)
  have hhex : isLowerHex 128 (String.ofList (List.replicate 128 'b')) = true :=
    isLowerHex_replicate (c := 'b') (b := 0x62) (by decide) (by decide)
  have hsignature : checkSignature (sampleArtifact signed).signingKeyId
      (sampleArtifact signed).ed25519Signature = .ok () := by
    cases signed with
    | false => rfl
    | true =>
      have hkey : isImproper "key" 128 = false := by decide
      change checkSignature (some "key") (some (String.ofList (List.replicate 128 'b'))) = _
      rw [checkSignature, hkey, hhex]
      rfl
  have happlication : (sampleArtifact signed).applicationVersion = "1.2.0" := rfl
  have hrequirement : (sampleArtifact signed).runtimeRequirement = "*" := rfl
  have hparse : shortVersions.parse "1.2.0" = .ok ('1', '2', '0') := rfl
  have hparseReq : shortVersions.parseReq "*" = .ok () := rfl
  have hsize : (sampleArtifact signed).sizeBytes = 7 := rfl
  have hchecksum : (sampleArtifact signed).sha256 = String.ofList (List.replicate 64 'a') := rfl
  unfold ArtifactDescriptor.validate
  rw [htexts, happlication, hrequirement, hparse, hparseReq, hsize, hchecksum, hsha, hsignature]
  rfl

theorem eq_of_artifactSigningPayload_sample :
    artifactSigningPayload (sampleArtifact true) = artifactSigningPayload (sampleArtifact false) ∧
      (sampleArtifact true).sha256 = (sampleArtifact false).sha256 := by
  constructor
  · rfl
  · exact (@eq_of_artifactSigningPayload shortVersions _ _ (validate_sampleArtifact true)
      (validate_sampleArtifact false) rfl).2.2.2.2.2.2.2.1

end AppCore.Update
