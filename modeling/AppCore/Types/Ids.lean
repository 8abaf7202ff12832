import AppCore.Base.Text

/-!
# Identifiers

`ids.rs` of the shared types: the two validators for identifiers, and the newtypes the modelled
contracts carry. An identifier that arrives over the wire is a bare string until it is
validated, so the newtypes do not carry their validity.
-/

namespace AppCore

/-- `RuntimeError::InvalidIdentifier`, the one error the validators produce. -/
inductive RuntimeError where
  | invalidIdentifier (kind value reason : String)
  deriving DecidableEq, Repr

abbrev RuntimeResult (α : Type) := Except RuntimeError α

def maxIdentifierLen : Nat := 128

def maxDistributedIdentifierLen : Nat := 80

/-- `u8::is_ascii_digit`. -/
def isAsciiDigitByte (b : UInt8) : Bool := 0x30 ≤ b && b ≤ 0x39

/-- `u8::is_ascii_lowercase`. -/
def isAsciiLowercaseByte (b : UInt8) : Bool := 0x61 ≤ b && b ≤ 0x7a

/-- `u8::is_ascii_alphanumeric`. -/
def isAsciiAlphanumericByte (b : UInt8) : Bool :=
  isAsciiDigitByte b || isAsciiLowercaseByte b || (0x41 ≤ b && b ≤ 0x5a)

/-- The bytes of an identifier: alphanumeric, or one of `.`, `_`, `:` and `-`. -/
def isIdentifierByte (b : UInt8) : Bool :=
  isAsciiAlphanumericByte b || b == 0x2e || b == 0x5f || b == 0x3a || b == 0x2d

/-- The bytes of a distributed identifier. -/
def isDistributedByte (b : UInt8) : Bool :=
  isAsciiLowercaseByte b || isAsciiDigitByte b || b == 0x2d

def isControl (c : Char) : Bool := c.toNat < 0x20 || (0x7f ≤ c.toNat && c.toNat < 0xa0)

/-- `value.contains("..")`. -/
def containsDotDot : List Char → Bool
  | '.' :: '.' :: _ => true
  | _ :: rest => containsDotDot rest
  | [] => false

def validateIdentifier (kind value : String) : RuntimeResult Unit :=
  if value.toList.isEmpty then .error (.invalidIdentifier kind value "empty")
  else if (strBytes value).length > maxIdentifierLen then
    .error (.invalidIdentifier kind value "too_long")
  else if value.toList.any isControl then
    .error (.invalidIdentifier kind value "control_characters")
  else if containsDotDot value.toList then
    .error (.invalidIdentifier kind value "path_traversal")
  else if (strBytes value).any fun b => !isIdentifierByte b then
    .error (.invalidIdentifier kind value "invalid_char")
  else .ok ()

def validateDistributedIdentifier (kind value : String) : RuntimeResult Unit :=
  if (strBytes value).length < 2 then .error (.invalidIdentifier kind value "too_short")
  else if (strBytes value).length > maxDistributedIdentifierLen then
    .error (.invalidIdentifier kind value "too_long")
  else match strBytes value with
    | [] => .error (.invalidIdentifier kind value "empty")
    | first :: _ =>
      if !isAsciiLowercaseByte first && !isAsciiDigitByte first then
        .error (.invalidIdentifier kind value "invalid_start")
      else if (strBytes value).any fun b => !isDistributedByte b then
        .error (.invalidIdentifier kind value "invalid_char")
      else .ok ()

/-- A distributed identifier has two bytes or more, all of them from its alphabet. -/
theorem bytes_of_distributedIdentifier {kind value : String}
    (h : validateDistributedIdentifier kind value = .ok ()) :
    2 ≤ (strBytes value).length ∧ ∀ b ∈ strBytes value, isDistributedByte b = true := by
  unfold validateDistributedIdentifier at h
  split at h
  · cases h
  next hshort =>
    split at h
    · cases h
    · split at h
      · cases h
      · split at h
        · cases h
        · split at h
          · cases h
          next hall =>
            refine ⟨not_lt.1 hshort, fun b hb => ?_⟩
            rw [Bool.not_eq_true, List.any_eq_false] at hall
            simpa using hall b hb

/-! ## Newtypes -/

structure NodeId where
  asStr : String
  deriving DecidableEq, Repr

def NodeId.new (value : String) : RuntimeResult NodeId :=
  match validateIdentifier "NodeId" value with
  | .error e => .error e
  | .ok () => .ok ⟨value⟩

structure TenantId where
  asStr : String
  deriving DecidableEq, Repr

structure ClusterId where
  asStr : String
  deriving DecidableEq, Repr

structure CoreId where
  asStr : String
  deriving DecidableEq, Repr

structure CapabilityName where
  asStr : String
  deriving DecidableEq, Repr

def TenantId.validate (id : TenantId) : RuntimeResult Unit :=
  validateDistributedIdentifier "TenantId" id.asStr

def TenantId.new (value : String) : RuntimeResult TenantId :=
  match validateDistributedIdentifier "TenantId" value with
  | .error e => .error e
  | .ok () => .ok ⟨value⟩

def ClusterId.validate (id : ClusterId) : RuntimeResult Unit :=
  validateDistributedIdentifier "ClusterId" id.asStr

def CoreId.validate (id : CoreId) : RuntimeResult Unit :=
  validateDistributedIdentifier "CoreId" id.asStr

def CapabilityName.validate (name : CapabilityName) : RuntimeResult Unit :=
  validateIdentifier "CapabilityName" name.asStr

structure ProtocolVersion where
  asU16 : UInt16
  deriving DecidableEq, Repr

def ProtocolVersion.isCompatibleWith (version other : ProtocolVersion) : Bool :=
  version.asU16 == other.asU16

/-! ## What a valid identifier is made of -/

theorem isAscii_of_bytes {t : List Char} (h : ∀ b ∈ utf8 t, b < 0x80) : IsAscii t := by
  intro c hc
  have hbytes : ∀ b ∈ String.utf8EncodeChar c, b < 0x80 := fun b hb =>
    h b (List.mem_flatMap.2 ⟨c, hc, hb⟩)
  by_contra hbig
  -- the last byte of a longer encoding has its high bit set
  have hlast : UInt8.ofNat (c.val.toNat % 0x40 + 0x80) ∈ String.utf8EncodeChar c := by
    unfold String.utf8EncodeChar
    have hv : ¬ c.val.toNat ≤ 0x7f := by
      have : c.toNat = c.val.toNat := rfl
      omega
    simp only [hv, if_false]
    split <;> [skip; split] <;> simp
  have hlt := UInt8.lt_iff_toNat_lt.1 (hbytes _ hlast)
  rw [UInt8.toNat_ofNat_of_lt' (by show c.val.toNat % 0x40 + 0x80 < 2 ^ 8; omega)] at hlt
  have : (0x80 : UInt8).toNat = 128 := rfl
  omega

theorem validateIdentifier_ok {kind value : String} (h : validateIdentifier kind value = .ok ()) :
    value.toList ≠ [] ∧ (strBytes value).length ≤ maxIdentifierLen ∧
      ∀ b ∈ strBytes value, isIdentifierByte b = true := by
  unfold validateIdentifier at h
  split at h
  · simp at h
  rename_i hempty
  split at h
  · simp at h
  rename_i hlen
  split at h
  · simp at h
  split at h
  · simp at h
  split at h
  · simp at h
  rename_i hbytes
  refine ⟨by simpa using hempty, Nat.le_of_not_lt hlen, ?_⟩
  simpa using hbytes

theorem containsDotDot_cons {c : Char} {rest : List Char} :
    containsDotDot (c :: rest) = true ↔ (c = '.' ∧ rest.head? = some '.') ∨ containsDotDot rest := by
  cases rest with
  | nil => simp [containsDotDot]
  | cons d rest =>
    by_cases hdots : c = '.' ∧ d = '.'
    · obtain ⟨rfl, rfl⟩ := hdots
      simp [containsDotDot]
    · rw [containsDotDot]
      · simp [hdots]
      · intro _ hc hd
        exact hdots ⟨hc, (List.cons.inj hd).1⟩

theorem containsDotDot_of_not_mem {t : List Char} (h : '.' ∉ t) : containsDotDot t = false := by
  induction t with
  | nil => rfl
  | cons c t ih =>
    rw [List.mem_cons, not_or] at h
    rw [Bool.eq_false_iff, Ne, containsDotDot_cons, ih h.2]
    simp [Ne.symm h.1]

theorem containsDotDot_append {a t : List Char} (ha : containsDotDot a = false) (ht : '.' ∉ t) :
    containsDotDot (a ++ t) = false := by
  induction a with
  | nil => exact containsDotDot_of_not_mem ht
  | cons c a ih =>
    rw [Bool.eq_false_iff, Ne, containsDotDot_cons, not_or] at ha
    obtain ⟨hdots, hrest⟩ := ha
    rw [List.cons_append, Bool.eq_false_iff, Ne, containsDotDot_cons, ih (by simpa using hrest)]
    cases a with
    | nil =>
      cases t with
      | nil => simp
      | cons d t =>
        rw [List.mem_cons, not_or] at ht
        simp [Ne.symm ht.1]
    | cons d a => simpa using hdots

theorem toNat_of_isIdentifierByte {b : UInt8} (h : isIdentifierByte b = true) :
    0x20 ≤ b.toNat ∧ b.toNat < 0x7f := by
  simp only [isIdentifierByte, isAsciiAlphanumericByte, isAsciiDigitByte, isAsciiLowercaseByte,
    Bool.or_eq_true, Bool.and_eq_true, decide_eq_true_eq, beq_iff_eq, UInt8.le_iff_toNat_le,
    ← UInt8.toNat_inj, UInt8.reduceToNat] at h
  omega

/-- The check for control characters is covered by the one of the bytes. -/
theorem not_isControl_of_bytes {t : List Char} (h : ∀ b ∈ utf8 t, isIdentifierByte b = true)
    {c : Char} (hc : c ∈ t) : isControl c = false := by
  have hascii : IsAscii t := by
    apply isAscii_of_bytes
    intro b hb
    have hbyte := toNat_of_isIdentifierByte (h b hb)
    exact UInt8.lt_iff_toNat_lt.2 (hbyte.2.trans (by decide))
  have hlt := hascii c hc
  have hmem : UInt8.ofNat c.toNat ∈ utf8 t := by
    rw [utf8_of_ascii hascii]
    exact List.mem_map_of_mem hc
  have hrange := toNat_of_isIdentifierByte (h _ hmem)
  rw [UInt8.toNat_ofNat_of_lt' (hlt.trans (by decide))] at hrange
  simp only [isControl, Bool.or_eq_false_iff, Bool.and_eq_false_iff, decide_eq_false_iff_not]
  omega

/-- **What an identifier is**: a text of at most 128 bytes that are those of an identifier, and
without two dots in a row. -/
theorem validateIdentifier_eq_ok {kind value : String} :
    validateIdentifier kind value = .ok () ↔ value.toList ≠ [] ∧
      (strBytes value).length ≤ maxIdentifierLen ∧ containsDotDot value.toList = false ∧
      ∀ b ∈ strBytes value, isIdentifierByte b = true := by
  constructor
  · intro h
    obtain ⟨hne, hlength, hbytes⟩ := validateIdentifier_ok h
    refine ⟨hne, hlength, ?_, hbytes⟩
    cases hdots : containsDotDot value.toList with
    | false => rfl
    | true =>
      unfold validateIdentifier at h
      split_ifs at h
  · intro h
    obtain ⟨hne, hlength, hdots, hbytes⟩ := h
    have hcontrol : ¬ value.toList.any isControl = true := by
      rw [List.any_eq_true]
      intro hany
      obtain ⟨c, hc, hcontrol⟩ := hany
      rw [not_isControl_of_bytes hbytes hc] at hcontrol
      cases hcontrol
    have hall : ¬ ((strBytes value).any fun b => !isIdentifierByte b) = true := by
      rw [List.any_eq_true]
      intro hany
      obtain ⟨b, hb, hbyte⟩ := hany
      rw [hbytes b hb] at hbyte
      cases hbyte
    unfold validateIdentifier
    rw [if_neg (by simpa using hne), if_neg (Nat.not_lt.2 hlength), if_neg hcontrol,
      if_neg (by simp [hdots]), if_neg hall]

end AppCore
