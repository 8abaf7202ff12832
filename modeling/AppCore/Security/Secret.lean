import AppCore.Base.Cursor
import AppCore.Security.Token

/-!
# Secret material

`secret.rs`: a secret with its metadata, the text it is stored as, and the reader of that text. What
is written for a valid key identifier and a secret that is long enough is read back
(`parseSecretMaterial_format`).
-/

namespace AppCore.Security

/-! ## Material -/

inductive SecuritySecretStatus where
  | active
  | deprecated
  | revoked
  deriving DecidableEq, Repr

def SecuritySecretStatus.asStr : SecuritySecretStatus → String
  | .active => "active"
  | .deprecated => "deprecated"
  | .revoked => "revoked"

structure SecuritySecretMetadata where
  keyId : String
  createdAtMs : UInt64
  expiresAtMs : Option UInt64
  status : SecuritySecretStatus
  deriving DecidableEq, Repr

structure SecuritySecretMaterial where
  secret : Bytes
  metadata : SecuritySecretMetadata
  deriving DecidableEq, Repr

namespace SecuritySecretMaterial

def isExpired (material : SecuritySecretMaterial) (nowMs : UInt64) : Bool :=
  (material.metadata.expiresAtMs.map fun exp => decide (exp ≤ nowMs)).getD false

/-- The material with another status. -/
def withStatus (material : SecuritySecretMaterial) (status : SecuritySecretStatus) :
    SecuritySecretMaterial :=
  { material with metadata := { material.metadata with status } }

section

variable (material : SecuritySecretMaterial) (status : SecuritySecretStatus)

@[simp] theorem secret_withStatus : (material.withStatus status).secret = material.secret := rfl

@[simp] theorem keyId_withStatus :
    (material.withStatus status).metadata.keyId = material.metadata.keyId := rfl

@[simp] theorem status_withStatus : (material.withStatus status).metadata.status = status := rfl

@[simp] theorem isExpired_withStatus (nowMs : UInt64) :
    (material.withStatus status).isExpired nowMs = material.isExpired nowMs := rfl

end

end SecuritySecretMaterial

inductive SecretFormatError where
  | invalidFormat (message : String)
  | invalidSecret
  | randomUnavailable
  deriving DecidableEq, Repr

/-- A line of the text. -/
def fieldLine (name : String) (value : List Char) : List Char :=
  name.toList ++ '=' :: value

/-- The time of expiry, or `none`. -/
def expiresText : Option UInt64 → List Char
  | none => "none".toList
  | some value => decimal value.toNat

def formatSecretMaterial (material : SecuritySecretMaterial) : List Char :=
  fieldLine "key_id" material.metadata.keyId.toList ++ '\n' ::
  (fieldLine "created_at_ms" (decimal material.metadata.createdAtMs.toNat) ++ '\n' ::
  (fieldLine "expires_at_ms" (expiresText material.metadata.expiresAtMs) ++ '\n' ::
  (fieldLine "status" material.metadata.status.asStr.toList ++ '\n' ::
  (fieldLine "secret" (encodeHex material.secret) ++ ['\n']))))

/-! ## Reading it -/

/-- The fields read so far. -/
structure SecretFields where
  keyId : Option String
  createdAtMs : Option UInt64
  expiresAtMs : Option (Option UInt64)
  status : Option SecuritySecretStatus
  secret : Option Bytes

def looksLikeHex (value : List Char) : Bool :=
  !value.isEmpty && (utf8 value).length % 2 == 0 && value.all isHexDigit

def readSecret (value : List Char) : Except SecretFormatError Bytes :=
  match value with
  | 'h' :: 'e' :: 'x' :: ':' :: value =>
    match decodeHex value with
    | some bytes => .ok bytes
    | none => .error .invalidSecret
  | value => .ok (if looksLikeHex value then (decodeHex value).getD (utf8 value) else utf8 value)

/-- A status by its label. -/
def readStatus (value : List Char) : Except SecretFormatError SecuritySecretStatus :=
  if value = "active".toList then .ok .active
  else if value = "deprecated".toList then .ok .deprecated
  else if value = "revoked".toList then .ok .revoked
  else .error (.invalidFormat "invalid status")

/-- `value.parse::<u64>()`. -/
def readNumber (value : List Char) (message : String) : Except SecretFormatError UInt64 :=
  match parseU64 value with
  | some n => .ok n
  | none => .error (.invalidFormat message)

/-- What `parse_structured_secret` does with one field. -/
def readField (fields : SecretFields) (name value : List Char) :
    Except SecretFormatError SecretFields :=
  if name = "key_id".toList then .ok { fields with keyId := some (String.ofList value) }
  else if name = "created_at_ms".toList then do
    let n ← readNumber value "invalid created_at_ms"
    .ok { fields with createdAtMs := some n }
  else if name = "expires_at_ms".toList then
    if value = "none".toList then .ok { fields with expiresAtMs := some none }
    else do
      let n ← readNumber value "invalid expires_at_ms"
      .ok { fields with expiresAtMs := some (some n) }
  else if name = "status".toList then do
    let status ← readStatus value
    .ok { fields with status := some status }
  else if name = "secret".toList then do
    let secret ← readSecret value
    .ok { fields with secret := some secret }
  else .ok fields

/-- What `parse_structured_secret` does with one line. -/
def readLine (fields : SecretFields) (line : List Char) : Except SecretFormatError SecretFields :=
  let line := trim line
  if line.isEmpty || line.head? == some '#' then .ok fields
  else
    match splitOnce '=' line with
    | none => .ok fields
    | some (name, value) => readField fields (trim name) (trim value)

/-- A field that must be there. -/
def required {α : Type} (field : Option α) (message : String) : Except SecretFormatError α :=
  match field with
  | some value => .ok value
  | none => .error (.invalidFormat message)

def parseStructuredSecret (text : List Char) :
    Except SecretFormatError SecuritySecretMaterial := do
  let fields ← (lines text).foldlM readLine ⟨none, none, none, none, none⟩
  let keyId ← required fields.keyId "missing key_id"
  let createdAtMs ← required fields.createdAtMs "missing created_at_ms"
  let status ← required fields.status "missing status"
  let secret ← required fields.secret "missing secret"
  if secret.length < 16 then .error .invalidSecret
  else .ok { secret, metadata :=
    { keyId, createdAtMs, expiresAtMs := fields.expiresAtMs.getD none, status } }

/-- Whether a text contains another. -/
def containsText (needle : List Char) (text : List Char) : Bool :=
  text.tails.any fun rest => needle.isPrefixOf rest

def parseSecretMaterial (input : Bytes) : Except SecretFormatError SecuritySecretMaterial :=
  match fromUtf8 input with
  | none => .error (.invalidFormat "NO MORE SUPPORTED PLEASE UPDATE")
  | some text =>
    if containsText "secret=".toList text then parseStructuredSecret text
    else .error (.invalidFormat "NO MORE SUPPORTED PLEASE UPDATE")

/-- The characters of a key identifier. -/
def isKeyIdChar (c : Char) : Bool := c.isAlphanum || c == '-' || c == '_' || c == '.'

/-- What `validate_key_id` accepts. -/
def IsKeyId (keyId : String) : Prop :=
  keyId.toList ≠ [] ∧ keyId.toList.length ≤ 128 ∧ ∀ c ∈ keyId.toList, isKeyIdChar c = true

instance decidableIsKeyId (keyId : String) : Decidable (IsKeyId keyId) :=
  decidable_of_iff (keyId.toList ≠ [] ∧ keyId.toList.length ≤ 128 ∧
    keyId.toList.all isKeyIdChar = true) (by simp only [IsKeyId, List.all_eq_true])

/-! ## The round trip -/

theorem toNat_of_isKeyIdChar {c : Char} (h : isKeyIdChar c = true) :
    0x2d ≤ c.toNat ∧ c.toNat ≤ 0x7a := by
  have hle {a b : Char} (hab : a.val ≤ b.val) : a.toNat ≤ b.toNat := UInt32.le_iff_toNat_le.1 hab
  simp only [isKeyIdChar, Char.isAlphanum, Char.isAlpha, Char.isUpper, Char.isLower, Char.isDigit,
    Bool.or_eq_true, Bool.and_eq_true, decide_eq_true_eq, beq_iff_eq] at h
  rcases h with (((((h | h) | h) | rfl) | rfl) | rfl)
  · exact ⟨le_trans (by decide) (hle (a := 'A') h.1), le_trans (hle (b := 'Z') h.2) (by decide)⟩
  · exact ⟨le_trans (by decide) (hle (a := 'a') h.1), le_trans (hle (b := 'z') h.2) (by decide)⟩
  · exact ⟨le_trans (by decide) (hle (a := '0') h.1), le_trans (hle (b := '9') h.2) (by decide)⟩
  · decide
  · decide
  · decide

theorem isWhitespace_of_isKeyIdChar {c : Char} (h : isKeyIdChar c = true) :
    isWhitespace c = false := by
  have hc := toNat_of_isKeyIdChar h
  simp only [isWhitespace, Bool.or_eq_false_iff, Bool.and_eq_false_iff, decide_eq_false_iff_not,
    beq_eq_false_iff_ne]
  omega

/-- A text of such characters. -/
def IsPlain (t : List Char) : Prop := ∀ c ∈ t, isKeyIdChar c = true

instance (t : List Char) : Decidable (IsPlain t) :=
  decidable_of_iff (t.all isKeyIdChar = true) List.all_eq_true

theorem IsPlain.not_mem {t : List Char} (h : IsPlain t) {c : Char} (hc : isKeyIdChar c = false) :
    c ∉ t := by
  intro hmem
  rw [h c hmem] at hc
  cases hc

theorem trim_of_not_whitespace {t : List Char} (h : ∀ c ∈ t, isWhitespace c = false) :
    trim t = t := by
  have hdrop : ∀ t : List Char, (∀ c ∈ t, isWhitespace c = false) → t.dropWhile isWhitespace = t := by
    intro t ht
    cases t with
    | nil => rfl
    | cons c t => exact List.dropWhile_cons_of_neg (by simp [ht c List.mem_cons_self])
  rw [trim, hdrop t h, hdrop t.reverse fun c hc => h c (List.mem_reverse.1 hc), List.reverse_reverse]

theorem trim_newline (t : List Char) : trim (t ++ ['\n']) = trim t := by
  rw [trim, trim, List.dropWhile_append]
  cases hdrop : t.dropWhile isWhitespace with
  | nil => rfl
  | cons c rest =>
    have hnewline : isWhitespace '\n' = true := by decide
    simp [hnewline]

theorem IsPlain.trim {t : List Char} (h : IsPlain t) : trim t = t :=
  trim_of_not_whitespace fun c hc => isWhitespace_of_isKeyIdChar (h c hc)

theorem isKeyIdChar_of_isHexDigit {c : Char} (h : isHexDigit c = true) : isKeyIdChar c = true := by
  simp only [isHexDigit, Bool.or_eq_true, Bool.and_eq_true, decide_eq_true_eq] at h
  have hlow {a b : Char} (hab : a ≤ b) : a.val ≤ b.val := hab
  have hf : ('f' : Char).val ≤ ('z' : Char).val := by decide
  have hF : ('F' : Char).val ≤ ('Z' : Char).val := by decide
  simp only [isKeyIdChar, Char.isAlphanum, Char.isAlpha, Char.isUpper, Char.isLower, Char.isDigit,
    Bool.or_eq_true, Bool.and_eq_true, decide_eq_true_eq]
  rcases h with (h | h) | h
  · exact Or.inl (Or.inl (Or.inl (Or.inr h)))
  · exact Or.inl (Or.inl (Or.inl (Or.inl (Or.inr ⟨h.1, UInt32.le_trans (hlow h.2) hf⟩))))
  · exact Or.inl (Or.inl (Or.inl (Or.inl (Or.inl ⟨h.1, UInt32.le_trans (hlow h.2) hF⟩))))

theorem isPlain_encodeHex (bytes : Bytes) : IsPlain (encodeHex bytes) := fun _ hc =>
  isKeyIdChar_of_isHexDigit (isHexDigit_of_mem_lowerHex hc)

theorem isPlain_decimal (n : Nat) : IsPlain (decimal n) := by
  intro c hc
  have hdigit := isDigit_of_mem_decimal hc
  simp [isKeyIdChar, Char.isAlphanum, hdigit]

/-- A line of a field is read as that field. -/
theorem readLine_fieldLine (fields : SecretFields) {name : String} {value : List Char}
    (hname : IsPlain name.toList) (hstart : name.toList ≠ []) (hvalue : IsPlain value) :
    readLine fields (fieldLine name value) = readField fields name.toList value := by
  have hline : trim (fieldLine name value) = fieldLine name value := by
    refine trim_of_not_whitespace fun c hc => ?_
    rcases List.mem_append.1 hc with hc | hc
    · exact isWhitespace_of_isKeyIdChar (hname c hc)
    · rcases List.mem_cons.1 hc with rfl | hc
      · decide
      · exact isWhitespace_of_isKeyIdChar (hvalue c hc)
  have hhead : ((fieldLine name value).isEmpty || (fieldLine name value).head? == some '#') =
      false := by
    cases hchars : name.toList with
    | nil => exact absurd hchars hstart
    | cons c rest =>
      have hc : c ≠ '#' := by
        rintro rfl
        exact hname.not_mem (c := '#') (by decide) (by simp [hchars])
      simp [fieldLine, hchars, hc]
  rw [readLine, hline, hhead, if_neg Bool.false_ne_true, fieldLine,
    splitOnce_append (hname.not_mem (by decide))]
  change readField fields (trim name.toList) (trim value) = _
  rw [hname.trim, hvalue.trim]

theorem readSecret_encodeHex {secret : Bytes} (h : secret ≠ []) :
    readSecret (encodeHex secret) = .ok secret := by
  have hhex : looksLikeHex (encodeHex secret) = true := by
    have hlength : (encodeHex secret).length = 2 * secret.length := length_lowerHex secret
    have hpos := List.length_pos_of_ne_nil h
    have hne : encodeHex secret ≠ [] := by
      intro heq
      rw [heq] at hlength
      simp only [List.length_nil] at hlength
      omega
    have hbytes : (utf8 (encodeHex secret)).length % 2 = 0 := by
      rw [encodeHex, utf8_of_ascii (isAscii_lowerHex secret), List.length_map, length_lowerHex]
      omega
    simp only [looksLikeHex, Bool.and_eq_true, Bool.not_eq_true', List.isEmpty_eq_false_iff,
      beq_iff_eq, List.all_eq_true]
    exact ⟨⟨hne, hbytes⟩, fun c hc => isHexDigit_of_mem_lowerHex hc⟩
  unfold readSecret
  split
  next value hvalue =>
    have hmem : 'h' ∈ encodeHex secret := by simp [hvalue]
    exact absurd (isHexDigit_of_mem_lowerHex hmem) (by decide)
  next => rw [hhex, if_pos rfl, decodeHex_encodeHex h, Option.getD_some]

theorem containsText_append (before needle after : List Char) :
    containsText needle (before ++ (needle ++ after)) = true := by
  rw [containsText, List.any_eq_true]
  refine ⟨needle ++ after, ?_, by simp⟩
  rw [List.mem_tails]
  exact List.suffix_append before _

theorem lines_fieldLine {name : String} {value : List Char} (hname : IsPlain name.toList)
    (hvalue : IsPlain value) (rest : List Char) :
    lines (fieldLine name value ++ '\n' :: rest) = fieldLine name value :: lines rest := by
  have hmem {c : Char} (hc : isKeyIdChar c = false) (hne : c ≠ '=') : c ∉ fieldLine name value := by
    intro h
    rcases List.mem_append.1 h with h | h
    · exact hname.not_mem hc h
    · rcases List.mem_cons.1 h with rfl | h
      · exact hne rfl
      · exact hvalue.not_mem hc h
  exact lines_line (hmem (by decide) (by decide)) (hmem (by decide) (by decide)) rest

theorem readNumber_decimal (n : UInt64) (message : String) :
    readNumber (decimal n.toNat) message = .ok n := by
  rw [readNumber, parseU64_decimal]

theorem readStatus_asStr (status : SecuritySecretStatus) :
    readStatus status.asStr.toList = .ok status := by
  cases status <;> rfl

theorem readField_expires (fields : SecretFields) (expiresAtMs : Option UInt64) :
    readField fields "expires_at_ms".toList (expiresText expiresAtMs) =
      .ok { fields with expiresAtMs := some expiresAtMs } := by
  rw [readField, if_neg (by decide), if_neg (by decide), if_pos rfl]
  cases expiresAtMs with
  | none => rfl
  | some n =>
    have hne : expiresText (some n) ≠ "none".toList := by
      intro heq
      have hmem : 'n' ∈ decimal n.toNat := by
        change 'n' ∈ expiresText (some n)
        rw [heq]
        decide
      exact absurd (isDigit_of_mem_decimal hmem) (by decide)
    rw [if_neg hne, expiresText, readNumber_decimal]
    rfl

theorem isPlain_expiresText (expiresAtMs : Option UInt64) : IsPlain (expiresText expiresAtMs) := by
  cases expiresAtMs with
  | none => decide
  | some n => exact isPlain_decimal _

theorem isPlain_asStr (status : SecuritySecretStatus) : IsPlain status.asStr.toList := by
  cases status with
  | active => decide
  | deprecated => decide
  | revoked => decide

theorem lines_formatSecretMaterial {material : SecuritySecretMaterial}
    (hkey : IsKeyId material.metadata.keyId) : lines (formatSecretMaterial material) =
      [fieldLine "key_id" material.metadata.keyId.toList,
        fieldLine "created_at_ms" (decimal material.metadata.createdAtMs.toNat),
        fieldLine "expires_at_ms" (expiresText material.metadata.expiresAtMs),
        fieldLine "status" material.metadata.status.asStr.toList,
        fieldLine "secret" (encodeHex material.secret)] := by
  rw [formatSecretMaterial, lines_fieldLine (by decide) hkey.2.2,
    lines_fieldLine (by decide) (isPlain_decimal _),
    lines_fieldLine (by decide) (isPlain_expiresText _),
    lines_fieldLine (by decide) (isPlain_asStr _),
    lines_fieldLine (by decide) (isPlain_encodeHex _), lines_nil]

/-- The fields that the lines are read into. -/
theorem foldlM_readLine {material : SecuritySecretMaterial}
    (hkey : IsKeyId material.metadata.keyId) (hsecret : material.secret ≠ []) :
    (lines (formatSecretMaterial material)).foldlM readLine ⟨none, none, none, none, none⟩ =
      .ok ⟨some material.metadata.keyId, some material.metadata.createdAtMs,
        some material.metadata.expiresAtMs, some material.metadata.status,
        some material.secret⟩ := by
  have hcreated (fields : SecretFields) (n : UInt64) :
      readField fields "created_at_ms".toList (decimal n.toNat) =
        .ok { fields with createdAtMs := some n } := by
    rw [readField, if_neg (by decide), if_pos rfl, readNumber_decimal]
    rfl
  have hstatus (fields : SecretFields) (status : SecuritySecretStatus) :
      readField fields "status".toList status.asStr.toList =
        .ok { fields with status := some status } := by
    rw [readField, if_neg (by decide), if_neg (by decide), if_neg (by decide), if_pos rfl,
      readStatus_asStr]
    rfl
  have hread (fields : SecretFields) :
      readField fields "secret".toList (encodeHex material.secret) =
        .ok { fields with secret := some material.secret } := by
    rw [readField, if_neg (by decide), if_neg (by decide), if_neg (by decide), if_neg (by decide),
      if_pos rfl, readSecret_encodeHex hsecret]
    rfl
  have hid (fields : SecretFields) (keyId : String) :
      readField fields "key_id".toList keyId.toList = .ok { fields with keyId := some keyId } := by
    rw [readField, if_pos rfl, String.ofList_toList]
  rw [lines_formatSecretMaterial hkey]
  simp only [List.foldlM_cons, List.foldlM_nil]
  rw [readLine_fieldLine _ (by decide) (by decide) hkey.2.2, hid, ok_bind,
    readLine_fieldLine _ (by decide) (by decide) (isPlain_decimal _), hcreated, ok_bind,
    readLine_fieldLine _ (by decide) (by decide) (isPlain_expiresText _), readField_expires, ok_bind,
    readLine_fieldLine _ (by decide) (by decide) (isPlain_asStr _), hstatus, ok_bind,
    readLine_fieldLine _ (by decide) (by decide) (isPlain_encodeHex _), hread, ok_bind]
  rfl

/-- **Material is read back from its text.** -/
theorem parseSecretMaterial_format {material : SecuritySecretMaterial}
    (hkey : IsKeyId material.metadata.keyId) (hsecret : 16 ≤ material.secret.length) :
    parseSecretMaterial (utf8 (formatSecretMaterial material)) = .ok material := by
  have hne : material.secret ≠ [] := by
    intro heq
    rw [heq] at hsecret
    simp at hsecret
  have hcontains : containsText "secret=".toList (formatSecretMaterial material) = true := by
    have hsplit : formatSecretMaterial material =
        (fieldLine "key_id" material.metadata.keyId.toList ++ '\n' ::
          (fieldLine "created_at_ms" (decimal material.metadata.createdAtMs.toNat) ++ '\n' ::
          (fieldLine "expires_at_ms" (expiresText material.metadata.expiresAtMs) ++ '\n' ::
          (fieldLine "status" material.metadata.status.asStr.toList ++ ['\n'])))) ++
          ("secret=".toList ++ (encodeHex material.secret ++ ['\n'])) := by
      simp [formatSecretMaterial, fieldLine]
    rw [hsplit]
    exact containsText_append _ _ _
  rw [parseSecretMaterial, fromUtf8_utf8]
  dsimp only
  rw [if_pos hcontains, parseStructuredSecret, foldlM_readLine hkey hne]
  simp only [ok_bind, required, if_neg (not_lt.2 hsecret), Option.getD_some]

end AppCore.Security
