import AppCore.Base.Delimited
import AppCore.Update.Artifact

/-!
# Hexadecimal keys and signatures

`decode_hex` of the artifact verifier (`authenticity.rs`). It cuts the text into pairs of bytes and
leaves each pair to `u8::from_str_radix`, which takes an optional plus sign in front of the digits.
So a pair may also be a plus sign with one digit, and stands for the value of that digit.

* `decodeHex_exact_iff` — the texts on which exactly the hexadecimal ones are accepted.
-/

namespace AppCore.Update

/-- `char::to_digit` for radix 16. -/
def toHexDigit (c : Char) : Option ℕ :=
  if '0' ≤ c ∧ c ≤ '9' then some (c.toNat - 48)
  else if 'a' ≤ c ∧ c ≤ 'f' then some (c.toNat - 97 + 10)
  else if 'A' ≤ c ∧ c ≤ 'F' then some (c.toNat - 65 + 10)
  else none

/-- One digit of `u8::from_str_radix`: none when it is no digit or the value overflows. -/
def pushHexDigit (value : ℕ) (c : Char) : Option ℕ := do
  let digit ← toHexDigit c
  if value * 16 + digit < 256 then some (value * 16 + digit) else none

/-- `u8::from_str_radix(text, 16)`. -/
def fromStrRadix16 (text : List Char) : Option UInt8 :=
  let digits := stripPlus text
  if digits.isEmpty then none else (digits.foldlM pushHexDigit 0).map UInt8.ofNat

/-- One two-byte chunk of the text. -/
def decodeHexChunk (chunk : Bytes) : UpdateResult UInt8 :=
  match (fromUtf8 chunk).bind fromStrRadix16 with
  | some byte => .ok byte
  | none => .error (.authenticity "signature is not hexadecimal")

/-- The loop over `chunks_exact(2)`. -/
def decodeHexChunks : Bytes → UpdateResult Bytes
  | first :: second :: rest => do
      let byte ← decodeHexChunk [first, second]
      let bytes ← decodeHexChunks rest
      return byte :: bytes
  | _ => .ok []

/-- `decode_hex` for an array of `size` bytes. -/
def decodeHex (size : ℕ) (value : String) : UpdateResult Bytes :=
  if (strBytes value).length ≠ size * 2 then
    .error (.authenticity "signature has an invalid length")
  else decodeHexChunks (strBytes value)

/-! ## Pairs of characters -/

def hexValue (c : Char) : ℕ := (toHexDigit c).getD 0

/-- The bytes that pairs of digits denote; a plus sign counts as nothing. -/
def hexBytes : List Char → Bytes
  | high :: low :: rest => UInt8.ofNat (hexValue high * 16 + hexValue low) :: hexBytes rest
  | _ => []

/-- Two digits, or a plus sign and a digit. -/
def isHexPair (high low : Char) : Bool := (isHexDigit high || high == '+') && isHexDigit low

/-- A text of such pairs. -/
def hexPairs : List Char → Bool
  | [] => true
  | [_] => false
  | high :: low :: rest => isHexPair high low && hexPairs rest

theorem isSome_toHexDigit (c : Char) : (toHexDigit c).isSome = isHexDigit c := by
  simp only [toHexDigit, isHexDigit, ← Bool.decide_and, ← Bool.decide_or]
  split_ifs with h0 ha hA
  · simp [h0]
  · simp [ha]
  · simp [hA]
  · simp [h0, ha, hA]

theorem toHexDigit_of_isHexDigit {c : Char} (h : isHexDigit c = true) :
    toHexDigit c = some (hexValue c) := by
  rw [← isSome_toHexDigit] at h
  obtain ⟨digit, hdigit⟩ := Option.isSome_iff_exists.1 h
  simp [hexValue, hdigit]

theorem hexValue_lt (c : Char) : hexValue c < 16 := by
  have hle {a b : Char} (hab : a ≤ b) : a.toNat ≤ b.toNat := UInt32.le_iff_toNat_le.1 hab
  simp only [hexValue, toHexDigit]
  split_ifs with h0 ha hA
  · have hlast : c.toNat ≤ 57 := hle h0.2
    simp only [Option.getD_some]
    omega
  · have hlast : c.toNat ≤ 102 := hle ha.2
    simp only [Option.getD_some]
    omega
  · have hlast : c.toNat ≤ 70 := hle hA.2
    simp only [Option.getD_some]
    omega
  · decide

theorem isHexDigit_of_pushHexDigit {value next : ℕ} {c : Char}
    (h : pushHexDigit value c = some next) : isHexDigit c = true := by
  obtain ⟨digit, hdigit, -⟩ := Option.bind_eq_some_iff.1 h
  rw [← isSome_toHexDigit, hdigit]
  rfl

theorem pushHexDigit_of_lt {value : ℕ} {c : Char} (hvalue : value < 16)
    (hc : isHexDigit c = true) : pushHexDigit value c = some (value * 16 + hexValue c) := by
  have hlt := hexValue_lt c
  have hfits : value * 16 + hexValue c < 256 := by omega
  simp [pushHexDigit, toHexDigit_of_isHexDigit hc, hfits]

/-- The parser takes no character outside the digits, a leading plus sign excepted. -/
theorem isAscii_of_fromStrRadix16 {text : List Char} {byte : UInt8}
    (h : fromStrRadix16 text = some byte) : IsAscii text := by
  have hdigits : ∀ (digits : List Char) (value last : ℕ),
      digits.foldlM pushHexDigit value = some last → IsAscii digits := by
    intro digits
    induction digits with
    | nil => simp [IsAscii]
    | cons c digits ih =>
      intro value last hrun
      rw [List.foldlM_cons] at hrun
      obtain ⟨next, hnext, hrest⟩ := Option.bind_eq_some_iff.1 hrun
      have hc := toNat_lt_of_isHexDigit (isHexDigit_of_pushHexDigit hnext)
      exact List.forall_mem_cons.2 ⟨hc, ih next last hrest⟩
  simp only [fromStrRadix16] at h
  split_ifs at h
  obtain ⟨last, hlast, -⟩ := Option.map_eq_some_iff.1 h
  have hrest := hdigits _ _ _ hlast
  unfold stripPlus at hrest
  split at hrest
  · exact List.forall_mem_cons.2 ⟨by decide, hrest⟩
  · exact hrest

theorem fromStrRadix16_pair (high low : Char) :
    fromStrRadix16 [high, low] =
      if isHexPair high low then some (UInt8.ofNat (hexValue high * 16 + hexValue low))
      else none := by
  have hone (value : ℕ) (hvalue : value < 16) : pushHexDigit value low =
      if isHexDigit low then some (value * 16 + hexValue low) else none := by
    split_ifs with hlow
    · exact pushHexDigit_of_lt hvalue hlow
    · exact Option.eq_none_iff_forall_ne_some.2 fun next hnext =>
        hlow (isHexDigit_of_pushHexDigit hnext)
  by_cases hplus : high = '+'
  · subst hplus
    have hvalue : hexValue '+' = 0 := by decide
    have hstrip : stripPlus ['+', low] = [low] := rfl
    simp only [fromStrRadix16, hstrip, List.foldlM_cons, List.foldlM_nil, hone 0 (by decide),
      isHexPair, hvalue]
    by_cases hlow : isHexDigit low = true
    · simp [hlow]
    · simp [hlow]
  · have hstrip : stripPlus [high, low] = [high, low] := by
      unfold stripPlus
      split
      · next heq => exact absurd (List.head_eq_of_cons_eq heq) hplus
      · rfl
    simp only [fromStrRadix16, hstrip, List.foldlM_cons, List.foldlM_nil, isHexPair]
    by_cases hhigh : isHexDigit high = true
    · have hfirst := @pushHexDigit_of_lt 0 _ (by decide) hhigh
      rw [hfirst]
      by_cases hlow : isHexDigit low = true
      · simp [hone _ (hexValue_lt high), hhigh, hlow]
      · simp [hone _ (hexValue_lt high), hhigh, hlow]
    · have hfirst : pushHexDigit 0 high = none :=
        Option.eq_none_iff_forall_ne_some.2 fun next hnext =>
          hhigh (isHexDigit_of_pushHexDigit hnext)
      simp [hfirst, hhigh, hplus]

/-- A chunk is accepted when it is the encoding of a pair: no part of a longer character is. -/
theorem decodeHexChunk_ok_iff {first second byte : UInt8} :
    decodeHexChunk [first, second] = .ok byte ↔
      ∃ high low, [first, second] = utf8 [high, low] ∧ isHexPair high low = true ∧
        byte = UInt8.ofNat (hexValue high * 16 + hexValue low) := by
  constructor
  · intro h
    unfold decodeHexChunk at h
    split at h
    · next read hread =>
        cases h
        obtain ⟨text, htext, hvalue⟩ := Option.bind_eq_some_iff.1 hread
        have hbytes := utf8_of_fromUtf8 htext
        have hlength : text.length = 2 := by
          rw [utf8_of_ascii (isAscii_of_fromStrRadix16 hvalue)] at hbytes
          simpa using congrArg List.length hbytes
        obtain ⟨high, low, rfl⟩ := List.length_eq_two.1 hlength
        rw [fromStrRadix16_pair] at hvalue
        split_ifs at hvalue with hpair
        exact ⟨high, low, hbytes.symm, hpair, (Option.some.inj hvalue).symm⟩
    · cases h
  · rintro ⟨high, low, hbytes, hpair, rfl⟩
    simp [decodeHexChunk, hbytes, fromUtf8_utf8, fromStrRadix16_pair, hpair]

theorem isAscii_of_hexPairs {text : List Char} (h : hexPairs text = true) : IsAscii text := by
  induction text using hexPairs.induct with
  | case1 => simp [IsAscii]
  | case2 c => cases h
  | case3 high low rest ih =>
    simp only [hexPairs, isHexPair, Bool.and_eq_true, Bool.or_eq_true, beq_iff_eq] at h
    have hhigh : high.toNat < 128 := by
      rcases h.1.1 with hdigit | rfl
      · exact toNat_lt_of_isHexDigit hdigit
      · decide
    have hlow := toNat_lt_of_isHexDigit h.1.2
    exact List.forall_mem_cons.2 ⟨hhigh, List.forall_mem_cons.2 ⟨hlow, ih h.2⟩⟩

theorem decodeHexChunks_utf8 {text : List Char} (h : hexPairs text = true) :
    decodeHexChunks (utf8 text) = .ok (hexBytes text) := by
  induction text using hexPairs.induct with
  | case1 => rfl
  | case2 c => cases h
  | case3 high low rest ih =>
    have hascii := isAscii_of_hexPairs h
    have hhigh := utf8EncodeChar_of_ascii (hascii high (by simp))
    have hlow := utf8EncodeChar_of_ascii (hascii low (by simp))
    rw [hexPairs, Bool.and_eq_true] at h
    have hchunk : decodeHexChunk [UInt8.ofNat high.toNat, UInt8.ofNat low.toNat] =
        .ok (UInt8.ofNat (hexValue high * 16 + hexValue low)) :=
      decodeHexChunk_ok_iff.2 ⟨high, low, by simp [utf8, hhigh, hlow], h.1, rfl⟩
    have hbytes : utf8 (high :: low :: rest) =
        UInt8.ofNat high.toNat :: UInt8.ofNat low.toNat :: utf8 rest := by
      simp [utf8, hhigh, hlow]
    rw [hbytes, decodeHexChunks, hchunk, ih h.2]
    rfl

/-- The loop accepts the encodings of pairs only. -/
theorem hexPairs_of_decodeHexChunks {input out : Bytes} (heven : input.length % 2 = 0)
    (h : decodeHexChunks input = .ok out) :
    ∃ text, input = utf8 text ∧ hexPairs text = true := by
  induction input using decodeHexChunks.induct generalizing out with
  | case1 first second rest ih =>
    have hrest : rest.length % 2 = 0 := by
      simp only [List.length_cons] at heven
      omega
    obtain ⟨byte, hbyte, hloop⟩ := bind_eq_ok.1 h
    obtain ⟨bytes, hbytes, -⟩ := bind_eq_ok.1 hloop
    obtain ⟨high, low, hchunk, hpair, -⟩ := decodeHexChunk_ok_iff.1 hbyte
    obtain ⟨text, rfl, hpairs⟩ := ih hrest hbytes
    refine ⟨high :: low :: text, ?_, by simp [hexPairs, hpair, hpairs]⟩
    calc first :: second :: utf8 text = utf8 [high, low] ++ utf8 text := by
          rw [← hchunk]
          rfl
      _ = utf8 (high :: low :: text) := (utf8_append [high, low] text).symm
  | case2 input hshort =>
    -- An even number of bytes is left over: none.
    rcases input with _ | ⟨first, _ | ⟨second, rest⟩⟩
    · exact ⟨[], rfl, rfl⟩
    · simp at heven
    · exact absurd rfl (hshort first second rest)

/-! ## The whole text -/

/-- What is accepted, and the bytes it gives. -/
theorem decodeHex_ok_iff {size : ℕ} {value : String} {out : Bytes} :
    decodeHex size value = .ok out ↔
      value.toList.length = 2 * size ∧ hexPairs value.toList = true ∧
        out = hexBytes value.toList := by
  constructor
  · intro h
    unfold decodeHex at h
    split_ifs at h with hlength
    rw [ne_eq, not_not] at hlength
    obtain ⟨text, htext, hpairs⟩ := hexPairs_of_decodeHexChunks (by omega) h
    have hvalue : value.toList = text := by
      have hread := congrArg fromUtf8 htext
      rw [strBytes, fromUtf8_utf8, fromUtf8_utf8] at hread
      exact Option.some.inj hread
    subst hvalue
    rw [strBytes, decodeHexChunks_utf8 hpairs] at h
    rw [strBytes, utf8_of_ascii (isAscii_of_hexPairs hpairs), List.length_map] at hlength
    exact ⟨by omega, hpairs, (Except.ok.inj h).symm⟩
  · rintro ⟨hlength, hpairs, rfl⟩
    have hbytes : (strBytes value).length = size * 2 := by
      rw [strBytes, utf8_of_ascii (isAscii_of_hexPairs hpairs), List.length_map]
      omega
    rw [decodeHex, if_neg (not_not.2 hbytes), strBytes, decodeHexChunks_utf8 hpairs]

theorem hexPairs_of_all_isHexDigit {text : List Char} (heven : text.length % 2 = 0)
    (h : text.all isHexDigit = true) : hexPairs text = true := by
  induction text using hexPairs.induct with
  | case1 => rfl
  | case2 c => simp at heven
  | case3 high low rest ih =>
    simp only [List.all_cons, Bool.and_eq_true, List.length_cons] at h heven
    simp [hexPairs, isHexPair, h.1, h.2.1, ih (by omega) h.2.2]

/-- Pairs without a plus sign are digits throughout. -/
theorem all_isHexDigit_iff_of_hexPairs {text : List Char} (h : hexPairs text = true) :
    text.all isHexDigit = true ↔ '+' ∉ text := by
  induction text using hexPairs.induct with
  | case1 => simp
  | case2 c => cases h
  | case3 high low rest ih =>
    simp only [hexPairs, isHexPair, Bool.and_eq_true, Bool.or_eq_true, beq_iff_eq] at h
    have hhigh : isHexDigit high = true ↔ high ≠ '+' := by
      constructor
      · rintro hdigit rfl
        cases hdigit
      · exact h.1.1.resolve_right
    have hlow : low ≠ '+' := by
      rintro rfl
      exact absurd h.1.2 (by decide)
    simp only [List.all_cons, Bool.and_eq_true, ih h.2, hhigh, h.1.2, true_and, List.mem_cons,
      not_or, ne_comm (a := '+')]
    exact ⟨fun hrest => ⟨hrest.1, hlow, hrest.2⟩, fun hrest => ⟨hrest.1, hrest.2.2⟩⟩

/-- Exactly the hexadecimal texts are accepted, with the bytes that they denote. -/
def ExactHex (size : ℕ) (value : String) : Prop :=
  ∀ out, decodeHex size value = .ok out ↔
    value.toList.length = 2 * size ∧ value.toList.all isHexDigit = true ∧
      out = hexBytes value.toList

theorem decodeHex_exact_iff (size : ℕ) (value : String) :
    ExactHex size value ↔
      ¬ (value.toList.length = 2 * size ∧ hexPairs value.toList = true ∧ '+' ∈ value.toList) := by
  constructor
  · rintro hexact ⟨hlength, hpairs, hplus⟩
    have haccepted := decodeHex_ok_iff.2 ⟨hlength, hpairs, rfl⟩
    have hall := ((hexact _).1 haccepted).2.1
    exact (all_isHexDigit_iff_of_hexPairs hpairs).1 hall hplus
  · intro hplain out
    rw [decodeHex_ok_iff]
    constructor
    · rintro ⟨hlength, hpairs, hout⟩
      have hplus : '+' ∉ value.toList := fun hmem => hplain ⟨hlength, hpairs, hmem⟩
      exact ⟨hlength, (all_isHexDigit_iff_of_hexPairs hpairs).2 hplus, hout⟩
    · rintro ⟨hlength, hall, hout⟩
      exact ⟨hlength, hexPairs_of_all_isHexDigit (by omega) hall, hout⟩

/-- A plus sign takes the place of a digit. -/
theorem not_exactHex_plus : ¬ ExactHex 1 "+f" := by
  intro hexact
  have haccepted : decodeHex 1 "+f" = .ok [15] := by
    rw [decodeHex_ok_iff]
    decide
  have hall := ((hexact [15]).1 haccepted).2.1
  exact absurd hall (by decide)

end AppCore.Update
