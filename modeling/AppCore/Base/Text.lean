import AppCore.Base.Word

/-!
# Text

The string operations of the standard library that the persistent formats are written with:
UTF-8, hexadecimal, decimal numbers, lines and fields. Text is handled as a list of
characters and its length is counted in bytes, as `str::len` does.

Each encoder comes with the lemma that its decoder undoes it, and with the fact about the
alphabet it writes that keeps it clear of the separators around it.
-/

namespace AppCore

/-! ## UTF-8 -/

/-- The bytes of a text. -/
def utf8 (t : List Char) : Bytes := t.flatMap String.utf8EncodeChar

def strBytes (s : String) : Bytes := utf8 s.toList

/-- `String::from_utf8`: the text of a byte string, if it is valid UTF-8. -/
def fromUtf8 (bytes : Bytes) : Option (List Char) :=
  bytes.toByteArray.utf8Decode?.map Array.toList

@[simp] theorem utf8_nil : utf8 [] = [] := rfl

@[simp] theorem utf8_append (s t : List Char) : utf8 (s ++ t) = utf8 s ++ utf8 t := by
  simp [utf8]

theorem fromUtf8_utf8 (t : List Char) : fromUtf8 (utf8 t) = some t := by
  have henc : (utf8 t).toByteArray = t.utf8Encode := rfl
  rw [fromUtf8, henc, List.utf8Decode?_utf8Encode]
  simp

theorem utf8_of_fromUtf8 {bytes : Bytes} {t : List Char} (h : fromUtf8 bytes = some t) :
    utf8 t = bytes := by
  obtain ⟨chars, hchars, rfl⟩ := Option.map_eq_some_iff.1 h
  have hsome : bytes.toByteArray.utf8Decode?.isSome = true := by simp [hchars]
  obtain ⟨l, hl⟩ := ByteArray.isSome_utf8Decode?_iff.1 hsome
  have hdecode : l.utf8Encode.utf8Decode? = some chars := by rw [← hl, hchars]
  rw [List.utf8Decode?_utf8Encode] at hdecode
  obtain rfl := Option.some.inj hdecode
  have hbytes : (utf8 l).toByteArray = bytes.toByteArray := hl.symm
  simpa using congrArg (fun b => b.data.toList) hbytes

/-- A text all of whose characters take one byte. -/
def IsAscii (t : List Char) : Prop := ∀ c ∈ t, c.toNat < 128

variable {c : Char}

theorem utf8EncodeChar_of_ascii (h : c.toNat < 128) :
    String.utf8EncodeChar c = [UInt8.ofNat c.toNat] := by
  have hval : c.val ≤ 127 := by
    rw [UInt32.le_iff_toNat_le]
    exact Nat.le_of_lt_succ h
  rw [String.utf8EncodeChar_eq_singleton (Char.utf8Size_eq_one_iff.2 hval)]
  rfl

theorem utf8_of_ascii {t : List Char} (h : IsAscii t) :
    utf8 t = t.map fun c => UInt8.ofNat c.toNat := by
  induction t with
  | nil => rfl
  | cons c t ih =>
    have hc := utf8EncodeChar_of_ascii (h c List.mem_cons_self)
    have ht := ih fun d hd => h d (List.mem_cons_of_mem _ hd)
    simp only [utf8, List.flatMap_cons, hc] at ht ⊢
    rw [ht]
    rfl

/-! ## Hexadecimal -/

/-- The lowercase digit of a nibble. -/
def hexNibble (value : UInt8) : Char :=
  if value ≤ 9 then Char.ofNat (48 + value.toNat)
  else if value ≤ 15 then Char.ofNat (97 + (value.toNat - 10))
  else '0'

/-- Two lowercase digits for each byte. -/
def lowerHex (bytes : Bytes) : List Char :=
  bytes.flatMap fun b : UInt8 => [hexNibble (b >>> 4), hexNibble (b &&& 0x0f)]

/-- The value of a hexadecimal digit, in either case. -/
def fromHexChar (value : UInt8) : Option UInt8 :=
  if 48 ≤ value ∧ value ≤ 57 then some (value - 48)
  else if 97 ≤ value ∧ value ≤ 102 then some (value - 97 + 10)
  else if 65 ≤ value ∧ value ≤ 70 then some (value - 65 + 10)
  else none

/-- Bytes from pairs of digits; a digit left over at the end is dropped by the caller's
length test. -/
def fromHexPairs : Bytes → Option Bytes
  | high :: low :: rest => do
      let h ← fromHexChar high
      let l ← fromHexChar low
      let bytes ← fromHexPairs rest
      return (h <<< 4 ||| l) :: bytes
  | _ => some []

/-- Characters that `u8::is_ascii_hexdigit` accepts. -/
def isHexDigit (c : Char) : Bool :=
  ('0' ≤ c && c ≤ '9') || ('a' ≤ c && c ≤ 'f') || ('A' ≤ c && c ≤ 'F')

theorem forall_uint8 {p : UInt8 → Prop} (h : ∀ n : Fin 256, p (UInt8.ofFin n)) (b : UInt8) :
    p b := by
  simpa using h b.toFin

theorem hexNibble_pair (b : UInt8) :
    isHexDigit (hexNibble (b >>> 4)) = true ∧ isHexDigit (hexNibble (b &&& 0x0f)) = true ∧
      fromHexPairs [UInt8.ofNat (hexNibble (b >>> 4)).toNat,
        UInt8.ofNat (hexNibble (b &&& 0x0f)).toNat] = some [b] :=
  forall_uint8 (p := fun b => isHexDigit (hexNibble (b >>> 4)) = true ∧
    isHexDigit (hexNibble (b &&& 0x0f)) = true ∧
    fromHexPairs [UInt8.ofNat (hexNibble (b >>> 4)).toNat,
      UInt8.ofNat (hexNibble (b &&& 0x0f)).toNat] = some [b]) (by decide +kernel) b

@[simp] theorem length_lowerHex (bytes : Bytes) : (lowerHex bytes).length = 2 * bytes.length := by
  induction bytes with
  | nil => rfl
  | cons b bytes ih => simp_all [lowerHex]; omega

theorem isHexDigit_of_mem_lowerHex {bytes : Bytes} (h : c ∈ lowerHex bytes) :
    isHexDigit c = true := by
  simp only [lowerHex, List.mem_flatMap, List.mem_cons, List.not_mem_nil, or_false] at h
  obtain ⟨b, -, rfl | rfl⟩ := h
  · exact (hexNibble_pair b).1
  · exact (hexNibble_pair b).2.1

theorem toNat_lt_of_isHexDigit (h : isHexDigit c = true) : c.toNat < 128 := by
  simp only [isHexDigit, Bool.or_eq_true, Bool.and_eq_true, decide_eq_true_eq] at h
  have hle {a b : Char} (hab : a ≤ b) : a.toNat ≤ b.toNat := UInt32.le_iff_toNat_le.1 hab
  rcases h with (⟨-, h⟩ | ⟨-, h⟩) | ⟨-, h⟩ <;>
    exact lt_of_le_of_lt (hle h) (by decide)

theorem isAscii_lowerHex (bytes : Bytes) : IsAscii (lowerHex bytes) :=
  fun _ hc => toNat_lt_of_isHexDigit (isHexDigit_of_mem_lowerHex hc)

theorem fromHexPairs_utf8_lowerHex (bytes : Bytes) :
    fromHexPairs (utf8 (lowerHex bytes)) = some bytes := by
  rw [utf8_of_ascii (isAscii_lowerHex bytes)]
  induction bytes with
  | nil => rfl
  | cons b bytes ih =>
    have hb := (hexNibble_pair b).2.2
    simp only [lowerHex, List.flatMap_cons, List.cons_append, List.nil_append, List.map_cons,
      fromHexPairs] at hb ih ⊢
    revert hb
    cases fromHexChar (UInt8.ofNat (hexNibble (b >>> 4)).toNat) with
    | none => simp
    | some x =>
      cases fromHexChar (UInt8.ofNat (hexNibble (b &&& 0x0f)).toNat) with
      | none => simp
      | some y =>
        intro hb
        simp_all

/-! ## Decimal numbers -/

/-- The decimal digits of a number, as `to_string` writes them. -/
def decimal (n : Nat) : List Char := Nat.toDigits 10 n

/-- The digits after an optional plus sign. -/
def stripPlus : List Char → List Char
  | '+' :: rest => rest
  | t => t

/-- `str::parse::<u64>`: an optional plus sign, digits, and no overflow. -/
def parseU64 (t : List Char) : Option UInt64 :=
  let digits := stripPlus t
  if digits.isEmpty || !digits.all Char.isDigit then none
  else if Nat.ofDigitChars 10 digits 0 < 2 ^ 64 then
    some (UInt64.ofNat (Nat.ofDigitChars 10 digits 0))
  else none

theorem isDigit_of_mem_decimal {n : Nat} (h : c ∈ decimal n) : c.isDigit = true :=
  Nat.isDigit_of_mem_toDigits (by decide) (by decide) h

theorem decimal_ne_nil (n : Nat) : decimal n ≠ [] := Nat.toDigits_ne_nil

theorem parseU64_decimal (x : UInt64) : parseU64 (decimal x.toNat) = some x := by
  have hdigits : stripPlus (decimal x.toNat) = decimal x.toNat := by
    unfold stripPlus
    split
    · rename_i rest h
      have hplus : ('+' : Char).isDigit = true := isDigit_of_mem_decimal (h ▸ List.mem_cons_self)
      exact absurd hplus (by decide)
    · rfl
  have hall : (decimal x.toNat).all Char.isDigit = true :=
    List.all_eq_true.2 fun _ hc => isDigit_of_mem_decimal hc
  have hval : Nat.ofDigitChars 10 (decimal x.toNat) 0 = x.toNat := Nat.ofDigitChars_ten_toDigits
  have hlt : x.toNat < 18446744073709551616 := x.toNat_lt
  simp [parseU64, hdigits, hall, hval, decimal_ne_nil, hlt]

theorem toNat_lt_of_isDigit (h : c.isDigit = true) : c.toNat < 128 := by
  simp only [Char.isDigit, Bool.and_eq_true, decide_eq_true_eq] at h
  exact lt_of_le_of_lt (UInt32.le_iff_toNat_le.1 h.2) (by decide)

/-! ## Lines and fields -/

/-- `str::split_inclusive` for one separator. -/
def splitInclusive (sep : Char) : List Char → List (List Char)
  | [] => []
  | c :: rest =>
    if c = sep then [c] :: splitInclusive sep rest
    else match splitInclusive sep rest with
      | [] => [[c]]
      | piece :: pieces => (c :: piece) :: pieces

/-- `str::strip_suffix` for one character. -/
def stripSuffixChar (c : Char) (t : List Char) : Option (List Char) :=
  if t.getLast? = some c then some t.dropLast else none

/-- One piece of `str::lines` without its line ending. -/
def lineOf (piece : List Char) : List Char :=
  match stripSuffixChar '\n' piece with
  | none => piece
  | some line => (stripSuffixChar '\r' line).getD line

def lines (t : List Char) : List (List Char) := (splitInclusive '\n' t).map lineOf

/-- `str::split_once` for one character. -/
def splitOnce (sep : Char) : List Char → Option (List Char × List Char)
  | [] => none
  | c :: rest =>
    if c = sep then some ([], rest)
    else (splitOnce sep rest).map fun (before, after) => (c :: before, after)

def isWhitespace (c : Char) : Bool :=
  let n := c.toNat
  (9 ≤ n && n ≤ 13) || n == 0x20 || n == 0x85 || n == 0xa0 || n == 0x1680 ||
    (0x2000 ≤ n && n ≤ 0x200a) || n == 0x2028 || n == 0x2029 || n == 0x202f || n == 0x205f ||
    n == 0x3000

/-- `str::trim` followed by `is_empty`. -/
def isBlank (t : List Char) : Bool := t.all isWhitespace

@[simp] theorem lines_nil : lines [] = [] := rfl

variable {sep : Char} {l : List Char}

theorem splitOnce_append (h : sep ∉ l) (t : List Char) :
    splitOnce sep (l ++ sep :: t) = some (l, t) := by
  induction l with
  | nil => simp [splitOnce]
  | cons c l ih =>
    rw [List.mem_cons, not_or] at h
    simp [splitOnce, ih h.2, Ne.symm h.1]

theorem splitOnce_eq_some {t before after : List Char} (h : splitOnce sep t = some (before, after)) :
    t = before ++ sep :: after := by
  induction t generalizing before with
  | nil => cases h
  | cons c t ih =>
    rw [splitOnce] at h
    split_ifs at h with hc
    · cases h
      simp [hc]
    · obtain ⟨split, hsplit, heq⟩ := Option.map_eq_some_iff.1 h
      cases heq
      rw [ih hsplit, List.cons_append]

theorem splitInclusive_line (h : sep ∉ l) (t : List Char) :
    splitInclusive sep (l ++ sep :: t) = (l ++ [sep]) :: splitInclusive sep t := by
  induction l with
  | nil => simp [splitInclusive]
  | cons c l ih =>
    rw [List.mem_cons, not_or] at h
    simp [splitInclusive, ih h.2, Ne.symm h.1]

theorem lines_line (hn : '\n' ∉ l) (hr : '\r' ∉ l) (t : List Char) :
    lines (l ++ '\n' :: t) = l :: lines t := by
  have hline : lineOf (l ++ ['\n']) = l := by
    have hlast : l.getLast? ≠ some '\r' := fun h => hr (List.mem_of_getLast? h)
    simp [lineOf, stripSuffixChar, hlast]
  rw [lines, splitInclusive_line hn, List.map_cons, hline]
  rfl

theorem splitOn_four {a b c d : List Char} (ha : sep ∉ a) (hb : sep ∉ b) (hc : sep ∉ c)
    (hd : sep ∉ d) :
    (a ++ sep :: (b ++ sep :: (c ++ sep :: d))).splitOn sep = [a, b, c, d] := by
  have hjoin : a ++ sep :: (b ++ sep :: (c ++ sep :: d)) =
      [sep].intercalate [a, b, c, d] := by
    simp [List.intercalate_cons_cons]
  rw [hjoin]
  refine List.splitOn_intercalate sep ?_ (by simp)
  simp [ha, hb, hc, hd]

end AppCore
