import AppCore.Base.Lines

/-!
# Host and port

The string operations that addresses are taken apart with from the right, and ports in decimal. A
port is found behind the last colon, whatever stands before it.
-/

namespace AppCore

/-- `str::rsplit_once` for one character. -/
def rsplitOnce (sep : Char) (t : List Char) : Option (List Char × List Char) :=
  (splitOnce sep t.reverse).map fun (after, before) => (before.reverse, after.reverse)

/-- `str::parse::<u16>`. -/
def parseU16 (t : List Char) : Option UInt16 :=
  (parseU64 t).bind fun n => if n.toNat < 2 ^ 16 then some (UInt16.ofNat n.toNat) else none

theorem rsplitOnce_append {sep : Char} {t : List Char} (h : sep ∉ t) (l : List Char) :
    rsplitOnce sep (l ++ sep :: t) = some (l, t) := by
  have hreverse : (l ++ sep :: t).reverse = t.reverse ++ sep :: l.reverse := by simp
  rw [rsplitOnce, hreverse, splitOnce_append (by simpa using h)]
  simp

theorem splitOnce_eq_none {sep : Char} {t : List Char} (h : sep ∉ t) : splitOnce sep t = none := by
  induction t with
  | nil => rfl
  | cons c t ih =>
    rw [List.mem_cons, not_or] at h
    rw [splitOnce, if_neg (Ne.symm h.1), ih h.2]
    rfl

theorem parseU16_decimal (port : UInt16) : parseU16 (decimal port.toNat) = some port := by
  have hlt := port.toNat_lt
  have hword : (UInt64.ofNat port.toNat).toNat = port.toNat := by
    rw [UInt64.toNat_ofNat']
    omega
  have hparse := parseU64_decimal (UInt64.ofNat port.toNat)
  rw [hword] at hparse
  rw [parseU16, hparse, Option.bind_some, hword, if_pos hlt, UInt16.ofNat_toNat]

theorem not_mem_decimal {c : Char} (hc : c.isDigit = false) (n : ℕ) : c ∉ decimal n := by
  intro hmem
  rw [isDigit_of_mem_decimal hmem] at hc
  cases hc

theorem isWhitespace_of_isDigit {c : Char} (h : c.isDigit = true) : isWhitespace c = false := by
  simp only [Char.isDigit, Bool.and_eq_true, decide_eq_true_eq] at h
  have hfirst : 48 ≤ c.toNat := UInt32.le_iff_toNat_le.1 h.1
  have hlast : c.toNat ≤ 57 := UInt32.le_iff_toNat_le.1 h.2
  simp only [isWhitespace, Bool.or_eq_false_iff, Bool.and_eq_false_iff, decide_eq_false_iff_not,
    beq_eq_false_iff_ne]
  omega

theorem getLast?_append_decimal (t : List Char) (n : ℕ) :
    ∃ last, (t ++ decimal n).getLast? = some last ∧ last.isDigit = true := by
  have hne := decimal_ne_nil n
  refine ⟨(decimal n).getLast hne, ?_, isDigit_of_mem_decimal (List.getLast_mem hne)⟩
  rw [List.getLast?_append_of_ne_nil t hne, List.getLast?_eq_some_getLast hne]

/-- A text between characters that are no whitespace. -/
theorem trim_eq_self {t : List Char} {first last : Char} (hfirst : t.head? = some first)
    (hlast : t.getLast? = some last) (hf : isWhitespace first = false)
    (hl : isWhitespace last = false) : trim t = t := by
  obtain ⟨rest, rfl⟩ : ∃ rest, t = first :: rest := by
    cases t with
    | nil => cases hfirst
    | cons c rest =>
      cases hfirst
      exact ⟨rest, rfl⟩
  have hreverse : (first :: rest).reverse.head? = some last := by rw [List.head?_reverse, hlast]
  have hend : (first :: rest).reverse.dropWhile isWhitespace = (first :: rest).reverse := by
    cases hlist : (first :: rest).reverse with
    | nil => rfl
    | cons c tail =>
      rw [hlist] at hreverse
      cases hreverse
      exact List.dropWhile_cons_of_neg (by simp [hl])
  rw [trim, List.dropWhile_cons_of_neg (by simp [hf]), hend, List.reverse_reverse]

theorem rdropWhile_eq_self {t : List Char} {p : Char → Bool} {last : Char}
    (hlast : t.getLast? = some last) (hp : p last = false) : t.rdropWhile p = t := by
  refine List.rdropWhile_eq_self_iff.2 fun hne => ?_
  rw [List.getLast?_eq_some_getLast hne] at hlast
  rw [Option.some.inj hlast, hp]
  exact Bool.false_ne_true

end AppCore
