import AppCore.Base.Lines

/-!
# JSON text

The part of JSON the persisted documents use: strings, numbers, `null` and punctuation, with
blanks anywhere between them. Strings are escaped as `serde_json` escapes them. Reading is done in
two stages, a lexer that runs over the characters and a reader over tokens; this module has the
lexer and the lemmas each document's round trip is built from: a token written in front of a
text is the token the lexer finds first (`lexText_punct`, `lexText_str`, `lexText_num`,
`lexText_null`), and tokens written without blanks are read
back (`lexText_tokens`), a list with commas item by item (`readItems_commas`).
-/

namespace AppCore.Json

/-- A token of JSON text. -/
inductive Token where
  | punct (c : Char)
  | str (t : List Char)
  | num (n : Nat)
  | null
  deriving DecidableEq, Repr

def isPunct (c : Char) : Bool :=
  c = '{' || c = '}' || c = '[' || c = ']' || c = ':' || c = ','

/-- The blanks JSON allows between tokens. -/
def isBlankChar (c : Char) : Bool := c = ' ' || c = '\n' || c = '\r' || c = '\t'

/-- One character inside a string literal. -/
def escapeChar (c : Char) : List Char :=
  if c = '"' then ['\\', '"']
  else if c = '\\' then ['\\', '\\']
  else if c.toNat = 8 then ['\\', 'b']
  else if c.toNat = 9 then ['\\', 't']
  else if c.toNat = 10 then ['\\', 'n']
  else if c.toNat = 12 then ['\\', 'f']
  else if c.toNat = 13 then ['\\', 'r']
  else if c.toNat < 32 then
    ['\\', 'u', '0', '0', hexNibble (UInt8.ofNat (c.toNat / 16)),
      hexNibble (UInt8.ofNat (c.toNat % 16))]
  else [c]

def Token.text : Token → List Char
  | .punct c => [c]
  | .str t => '"' :: (t.flatMap escapeChar ++ ['"'])
  | .num n => decimal n
  | .null => "null".toList

/-! ## The lexer -/

/-- What the lexer is in the middle of. -/
inductive LexState where
  | idle
  | number (digits : List Char)
  | string (content : List Char)
  | escape (content : List Char)
  | unicode (content : List Char) (digits : List Char)
  | word (letters : List Char)
  deriving DecidableEq

/-- The character after a backslash. -/
def unescape (c : Char) : Option Char :=
  if c = '"' ∨ c = '\\' ∨ c = '/' then some c
  else if c = 'b' then some (Char.ofNat 8)
  else if c = 't' then some (Char.ofNat 9)
  else if c = 'n' then some (Char.ofNat 10)
  else if c = 'f' then some (Char.ofNat 12)
  else if c = 'r' then some (Char.ofNat 13)
  else none

/-- The character with a four-digit code. -/
def ofCode (digits : List Char) : Option Char :=
  match fromHexPairs (utf8 digits) with
  | some [high, low] => some (Char.ofNat (256 * high.toNat + low.toNat))
  | _ => none

/-- One character outside of strings and numbers. -/
def lexIdle (c : Char) : Option (List Token × LexState) :=
  if isBlankChar c then some ([], .idle)
  else if isPunct c then some ([.punct c], .idle)
  else if c = '"' then some ([], .string [])
  else if c.isDigit then some ([], .number [c])
  else if c = 'n' then some ([], .word [c])
  else none

/-- One step: the tokens that end here and the state after the character. -/
def lexStep : LexState → Char → Option (List Token × LexState)
  | .idle, c => lexIdle c
  | .number digits, c =>
    if c.isDigit then some ([], .number (digits ++ [c]))
    else (lexIdle c).map fun (tokens, state) =>
      (.num (Nat.ofDigitChars 10 digits 0) :: tokens, state)
  | .string content, c =>
    if c = '"' then some ([.str content], .idle)
    else if c = '\\' then some ([], .escape content)
    else if c.toNat < 32 then none
    else some ([], .string (content ++ [c]))
  | .escape content, c =>
    if c = 'u' then some ([], .unicode content [])
    else (unescape c).map fun d => ([], .string (content ++ [d]))
  | .unicode content digits, c =>
    if digits.length < 3 then some ([], .unicode content (digits ++ [c]))
    else (ofCode (digits ++ [c])).map fun d => ([], .string (content ++ [d]))
  | .word letters, c =>
    if letters ++ [c] = "null".toList then some ([.null], .idle)
    else if letters ++ [c] <+: "null".toList then some ([], .word (letters ++ [c]))
    else none

/-- The tokens of a text, from a state. -/
def lexFrom : LexState → List Char → Option (List Token)
  | .idle, [] => some []
  | .number digits, [] => some [.num (Nat.ofDigitChars 10 digits 0)]
  | _, [] => none
  | state, c :: t =>
    match lexStep state c with
    | none => none
    | some (tokens, state) => (lexFrom state t).map (tokens ++ ·)

def lexText (t : List Char) : Option (List Token) := lexFrom .idle t

/-! ## Reading back what was written -/

variable {c : Char} {tokens : List Token}

theorem lexFrom_cons {state next : LexState} (h : lexStep state c = some (tokens, next))
    (t : List Char) :
    lexFrom state (c :: t) = (lexFrom next t).map (tokens ++ ·) := by
  cases state <;> simp [lexFrom, h]

theorem lexFrom_silent {state next : LexState} (h : lexStep state c = some ([], next))
    (t : List Char) :
    lexFrom state (c :: t) = lexFrom next t := by
  rw [lexFrom_cons h]
  cases lexFrom next t <;> simp

theorem lexText_punct (h : isPunct c = true) (t : List Char) :
    lexText (c :: t) = (lexText t).map (.punct c :: ·) := by
  have hblank : isBlankChar c = false := by
    simp only [isPunct, Bool.or_eq_true, decide_eq_true_eq] at h
    rcases h with ((((rfl | rfl) | rfl) | rfl) | rfl) | rfl <;> decide
  rw [lexText, lexFrom_cons
    (show lexStep .idle c = some ([.punct c], .idle) by simp [lexStep, lexIdle, h, hblank])]
  rfl

theorem ofCode_control {n : Nat} (h : n < 32) :
    ofCode ['0', '0', hexNibble (UInt8.ofNat (n / 16)), hexNibble (UInt8.ofNat (n % 16))] =
      some (Char.ofNat n) := by
  have hall : ∀ n : Fin 32, ofCode ['0', '0', hexNibble (UInt8.ofNat (n.val / 16)),
      hexNibble (UInt8.ofNat (n.val % 16))] = some (Char.ofNat n.val) := by decide
  exact hall ⟨n, h⟩

/-- An escaped character is read back as the character. -/
theorem lexFrom_escapeChar (c : Char) (content t : List Char) :
    lexFrom (.string content) (escapeChar c ++ t) = lexFrom (.string (content ++ [c])) t := by
  have hshort {d e : Char} (hd : d ≠ 'u') (h : unescape d = some e) :
      lexFrom (.string content) ('\\' :: d :: t) = lexFrom (.string (content ++ [e])) t := by
    rw [lexFrom_silent (show lexStep (.string content) '\\' = some ([], .escape content) from rfl),
      lexFrom_silent (show lexStep (.escape content) d = some ([], .string (content ++ [e])) by
        simp [lexStep, hd, h])]
  have hcode {n : Nat} (h : c.toNat = n) : Char.ofNat n = c := by
    rw [← h]
    exact Char.ofNat_toNat c
  unfold escapeChar
  split
  · rename_i h
    subst h
    exact hshort (by decide) (by decide)
  split
  · rename_i h
    subst h
    exact hshort (by decide) (by decide)
  split
  · rename_i h
    rw [← hcode h]
    exact hshort (by decide) (by decide)
  split
  · rename_i h
    rw [← hcode h]
    exact hshort (by decide) (by decide)
  split
  · rename_i h
    rw [← hcode h]
    exact hshort (by decide) (by decide)
  split
  · rename_i h
    rw [← hcode h]
    exact hshort (by decide) (by decide)
  split
  · rename_i h
    rw [← hcode h]
    exact hshort (by decide) (by decide)
  split
  · rename_i h
    have hread := ofCode_control h
    rw [hcode rfl] at hread
    simp only [List.cons_append, List.nil_append]
    rw [lexFrom_silent (show lexStep (.string content) '\\' = some ([], .escape content) from rfl),
      lexFrom_silent (show lexStep (.escape content) 'u' = some ([], .unicode content []) from rfl),
      lexFrom_silent (show lexStep (.unicode content []) '0' =
        some ([], .unicode content ['0']) from rfl),
      lexFrom_silent (show lexStep (.unicode content ['0']) '0' =
        some ([], .unicode content ['0', '0']) from rfl),
      lexFrom_silent (show lexStep (.unicode content ['0', '0']) _ =
        some ([], .unicode content ['0', '0', hexNibble (UInt8.ofNat (c.toNat / 16))]) from rfl),
      lexFrom_silent (show lexStep (.unicode content
        ['0', '0', hexNibble (UInt8.ofNat (c.toNat / 16))]) _ =
          some ([], .string (content ++ [c])) by simp [lexStep, hread])]
  · rename_i hquote hslash _ _ _ _ _ hcontrol
    exact lexFrom_plain hquote hslash hcontrol
where
  lexFrom_plain {c : Char} {content t : List Char} (hquote : ¬ c = '"') (hslash : ¬ c = '\\')
      (hcontrol : ¬ c.toNat < 32) :
      lexFrom (.string content) ([c] ++ t) = lexFrom (.string (content ++ [c])) t := by
    exact lexFrom_silent (by simp [lexStep, hquote, hslash, hcontrol]) t

theorem lexFrom_escaped (t content rest : List Char) :
    lexFrom (.string content) (t.flatMap escapeChar ++ '"' :: rest) =
      (lexText rest).map (.str (content ++ t) :: ·) := by
  induction t generalizing content with
  | nil =>
    rw [List.flatMap_nil, List.nil_append, List.append_nil, lexFrom_cons
      (show lexStep (.string content) '"' = some ([.str content], .idle) from rfl)]
    rfl
  | cons c t ih =>
    rw [List.flatMap_cons, List.append_assoc, lexFrom_escapeChar, ih]
    simp

theorem lexText_str (t rest : List Char) :
    lexText ((Token.str t).text ++ rest) = (lexText rest).map (.str t :: ·) := by
  have hopen : lexStep .idle '"' = some ([], .string []) := by decide
  rw [Token.text, List.cons_append, List.append_assoc, lexText, lexFrom_silent hopen,
    List.singleton_append, lexFrom_escaped, List.nil_append]

/-- A text that does not go on with a digit. -/
def NoDigit (t : List Char) : Prop := ∀ c rest, t = c :: rest → c.isDigit = false

theorem lexFrom_number_end {digits rest : List Char} (h : NoDigit rest) :
    lexFrom (.number digits) rest =
      (lexText rest).map (.num (Nat.ofDigitChars 10 digits 0) :: ·) := by
  cases rest with
  | nil => rfl
  | cons c rest =>
    have hc := h c rest rfl
    simp only [lexFrom, lexStep, hc, lexText]
    cases hidle : lexIdle c with
    | none => simp
    | some p => simp [Function.comp_def]

theorem lexFrom_digits {digits more rest : List Char} (hmore : ∀ c ∈ more, c.isDigit = true)
    (hrest : NoDigit rest) :
    lexFrom (.number digits) (more ++ rest) =
      (lexText rest).map (.num (Nat.ofDigitChars 10 (digits ++ more) 0) :: ·) := by
  induction more generalizing digits with
  | nil => simpa using lexFrom_number_end hrest
  | cons c more ih =>
    have hc := hmore c List.mem_cons_self
    rw [List.cons_append, lexFrom_silent (show lexStep (.number digits) c =
      some ([], .number (digits ++ [c])) by simp [lexStep, hc]),
      ih fun d hd => hmore d (List.mem_cons_of_mem _ hd)]
    simp

theorem lexText_num (n : Nat) {rest : List Char} (hrest : NoDigit rest) :
    lexText ((Token.num n).text ++ rest) = (lexText rest).map (.num n :: ·) := by
  have hdigits : ∀ c ∈ decimal n, c.isDigit = true := fun _ hc => isDigit_of_mem_decimal hc
  have hvalue : Nat.ofDigitChars 10 (decimal n) 0 = n := Nat.ofDigitChars_ten_toDigits
  rw [Token.text]
  cases h : decimal n with
  | nil => exact absurd h (decimal_ne_nil n)
  | cons c more =>
    rw [h] at hdigits hvalue
    have hc := hdigits c List.mem_cons_self
    rw [List.cons_append, lexText, lexFrom_silent (lexIdle_digit hc),
      lexFrom_digits (fun d hd => hdigits d (List.mem_cons_of_mem _ hd)) hrest]
    simp [hvalue]
where
  lexIdle_digit {c : Char} (hc : c.isDigit = true) : lexStep .idle c = some ([], .number [c]) := by
    have hrange : 48 ≤ c.toNat ∧ c.toNat ≤ 57 := by
      simp only [Char.isDigit, Bool.and_eq_true, decide_eq_true_eq] at hc
      exact ⟨UInt32.le_iff_toNat_le.1 hc.1, UInt32.le_iff_toNat_le.1 hc.2⟩
    have hne (d : Char) (hd : d.toNat < 48 ∨ 57 < d.toNat) : c ≠ d := by
      rintro rfl
      omega
    have hblank : isBlankChar c = false := by
      simp [isBlankChar, hne ' ' (by decide), hne '\n' (by decide), hne '\r' (by decide),
        hne '\t' (by decide)]
    have hpunct : isPunct c = false := by
      simp [isPunct, hne '{' (by decide), hne '}' (by decide), hne '[' (by decide),
        hne ']' (by decide), hne ':' (by decide), hne ',' (by decide)]
    simp [lexStep, lexIdle, hblank, hpunct, hne '"' (by decide), hc]

theorem lexText_null (rest : List Char) :
    lexText (Token.null.text ++ rest) = (lexText rest).map (.null :: ·) := by
  have htext : Token.null.text = ['n', 'u', 'l', 'l'] := rfl
  simp only [htext, List.cons_append, List.nil_append]
  rw [lexText, lexFrom_silent (show lexStep .idle 'n' = some ([], .word ['n']) by decide),
    lexFrom_silent (show lexStep (.word ['n']) 'u' = some ([], .word ['n', 'u']) by decide),
    lexFrom_silent (show lexStep (.word ['n', 'u']) 'l' =
      some ([], .word ['n', 'u', 'l']) by decide),
    lexFrom_cons (show lexStep (.word ['n', 'u', 'l']) 'l' = some ([.null], .idle) by decide)]
  rfl

/-! ## Documents without blanks -/

/-- Punctuation is punctuation, and no number is followed by another. -/
def Separated : List Token → Prop
  | [] => True
  | .punct c :: rest => isPunct c = true ∧ Separated rest
  | .num _ :: rest => (∀ n more, rest ≠ .num n :: more) ∧ Separated rest
  | _ :: rest => Separated rest

theorem noDigit_cons (h : c.isDigit = false) (t : List Char) : NoDigit (c :: t) := by
  rintro d rest heq
  obtain ⟨rfl, -⟩ := List.cons.inj heq
  exact h

/-- Tokens written one after the other are the tokens the lexer finds. -/
theorem lexText_tokens (h : Separated tokens) :
    lexText (tokens.flatMap Token.text) = some tokens := by
  induction tokens with
  | nil => rfl
  | cons token tokens ih =>
    rw [List.flatMap_cons]
    cases token with
    | punct c =>
      rw [Token.text, List.singleton_append, lexText_punct h.1, ih h.2]
      rfl
    | str t =>
      rw [lexText_str, ih h]
      rfl
    | num n =>
      rw [lexText_num n, ih h.2]
      · rfl
      · exact noDigit_tokens h
    | null =>
      rw [lexText_null, ih h]
      rfl
where
  noDigit_tokens {n : Nat} {tokens : List Token} (h : Separated (.num n :: tokens)) :
      NoDigit (tokens.flatMap Token.text) := by
    cases tokens with
    | nil => simp [NoDigit]
    | cons token tokens =>
      cases token with
      | punct c =>
        refine noDigit_cons ?_ _
        have hc := h.2.1
        simp only [isPunct, Bool.or_eq_true, decide_eq_true_eq] at hc
        rcases hc with ((((rfl | rfl) | rfl) | rfl) | rfl) | rfl <;> decide
      | str t => exact noDigit_cons (by decide) _
      | num m => exact absurd rfl (h.1 m tokens)
      | null => exact noDigit_cons (by decide) _

theorem separated_append_punct {before after : List Token} (hb : Separated before)
    (hc : isPunct c = true) (ha : Separated after) : Separated (before ++ .punct c :: after) := by
  induction before with
  | nil => exact ⟨hc, ha⟩
  | cons token before ih =>
    cases token with
    | punct d => exact ⟨hb.1, ih hb.2⟩
    | str t => exact ih hb
    | num n =>
      refine ⟨?_, ih hb.2⟩
      intro m more heq
      cases before with
      | nil => simp at heq
      | cons token before => exact hb.1 m before (by rw [(List.cons.inj heq).1])
    | null => exact ih hb

/-- A character of a string takes one to six characters. -/
theorem length_str_text (t : List Char) :
    t.length + 2 ≤ (Token.str t).text.length ∧ (Token.str t).text.length ≤ 6 * t.length + 2 := by
  have hchar (c : Char) : 1 ≤ (escapeChar c).length ∧ (escapeChar c).length ≤ 6 := by
    unfold escapeChar
    split_ifs <;> simp
  have hchars : t.length ≤ (t.flatMap escapeChar).length ∧
      (t.flatMap escapeChar).length ≤ 6 * t.length := by
    induction t with
    | nil => exact ⟨le_rfl, le_rfl⟩
    | cons c t ih =>
      have hc := hchar c
      simp only [List.flatMap_cons, List.length_append, List.length_cons]
      omega
  simp only [Token.text, List.length_cons, List.length_append, List.length_nil]
  omega

theorem length_text_le {token : Token} (h : token ∈ tokens) :
    token.text.length ≤ (tokens.flatMap Token.text).length := by
  obtain ⟨before, after, rfl⟩ := List.append_of_mem h
  rw [List.flatMap_append, List.flatMap_cons, List.length_append, List.length_append]
  omega

/-- Strings escape their control characters. -/
theorem le_toNat_of_mem_escapeChar {c d : Char} (h : d ∈ escapeChar c) : 32 ≤ d.toNat := by
  have hnibble (value : UInt8) : 32 ≤ (hexNibble value).toNat :=
    forall_uint8 (p := fun value => 32 ≤ (hexNibble value).toNat) (by decide +kernel) value
  have hpair {a b : Char} (ha : 32 ≤ a.toNat) (hb : 32 ≤ b.toNat) (h : d ∈ [a, b]) :
      32 ≤ d.toNat := by
    simp only [List.mem_cons, List.not_mem_nil, or_false] at h
    rcases h with rfl | rfl
    · exact ha
    · exact hb
  unfold escapeChar at h
  split_ifs at h with _ _ _ _ _ _ _ hcontrol
  iterate 7
    · exact hpair (by decide) (by decide) h
  · simp only [List.mem_cons, List.not_mem_nil, or_false] at h
    rcases h with rfl | rfl | rfl | rfl | rfl | rfl
    · decide
    · decide
    · decide
    · decide
    · exact hnibble _
    · exact hnibble _
  · obtain rfl := List.mem_singleton.1 h
    exact Nat.le_of_not_lt hcontrol

theorem le_toNat_of_isPunct (h : isPunct c = true) : 32 ≤ c.toNat := by
  simp only [isPunct, Bool.or_eq_true, decide_eq_true_eq] at h
  rcases h with ((((rfl | rfl) | rfl) | rfl) | rfl) | rfl <;> decide

theorem le_toNat_of_isDigit (h : c.isDigit = true) : 32 ≤ c.toNat := by
  simp only [Char.isDigit, Bool.and_eq_true, decide_eq_true_eq] at h
  have hle := UInt32.le_iff_toNat_le.1 h.1
  exact le_trans (show 32 ≤ 48 by decide) hle

/-- A document without blanks has no control characters. -/
theorem le_toNat_of_mem_tokens (h : Separated tokens) :
    ∀ c ∈ tokens.flatMap Token.text, 32 ≤ c.toNat := by
  induction tokens with
  | nil => simp
  | cons token tokens ih =>
    intro c hc
    rw [List.flatMap_cons, List.mem_append] at hc
    cases token with
    | punct d =>
      obtain hc | hc := hc
      · exact List.mem_singleton.1 hc ▸ le_toNat_of_isPunct h.1
      · exact ih h.2 c hc
    | str t =>
      obtain hc | hc := hc
      · simp only [Token.text, List.mem_cons, List.mem_append, List.mem_flatMap,
          List.not_mem_nil, or_false] at hc
        rcases hc with rfl | ⟨d, -, hc⟩ | rfl
        · decide
        · exact le_toNat_of_mem_escapeChar hc
        · decide
      · exact ih h c hc
    | num n =>
      obtain hc | hc := hc
      · exact le_toNat_of_isDigit (isDigit_of_mem_decimal hc)
      · exact ih h.2 c hc
    | null =>
      obtain hc | hc := hc
      · have htext : Token.null.text = ['n', 'u', 'l', 'l'] := rfl
        simp only [htext, List.mem_cons, List.not_mem_nil, or_false] at hc
        rcases hc with rfl | rfl | rfl | rfl <;> decide
      · exact ih h c hc

theorem isLine_tokens (h : Separated tokens) :
    IsLine (tokens.flatMap Token.text) :=
  ⟨fun hn => absurd (le_toNat_of_mem_tokens h _ hn) (by decide),
    fun hr => absurd (le_toNat_of_mem_tokens h _ hr) (by decide)⟩

/-! ## Readers -/

def expect (c : Char) : List Token → Option (List Token)
  | .punct d :: rest => if d = c then some rest else none
  | _ => none

def readStr : List Token → Option (String × List Token)
  | .str t :: rest => some (String.ofList t, rest)
  | _ => none

/-- A number below a bound. -/
def readBelow (bound : Nat) : List Token → Option (Nat × List Token)
  | .num n :: rest => if n < bound then some (n, rest) else none
  | _ => none

/-- A value that may be `null`. -/
def readNullable {α : Type} (value : List Token → Option (α × List Token)) :
    List Token → Option (Option α × List Token)
  | .null :: rest => some (none, rest)
  | tokens => (value tokens).map fun (x, rest) => (some x, rest)

/-- A member of an object with the punctuation behind it; `next` goes on with its value. -/
def readMember {α β : Type} (name : String) (value : List Token → Option (α × List Token))
    (c : Char) (next : α → List Token → Option β) : List Token → Option β
  | .str key :: .punct ':' :: rest =>
    if key = name.toList then
      (value rest).bind fun (x, rest) => (expect c rest).bind (next x)
    else none
  | _ => none

/-- The tokens of a member, with the punctuation behind it. -/
def memberTokens (name : String) (value : List Token) (c : Char) (rest : List Token) :
    List Token :=
  .str name.toList :: .punct ':' :: (value ++ .punct c :: rest)

@[simp] theorem expect_punct (c : Char) (rest : List Token) :
    expect c (.punct c :: rest) = some rest := by
  simp [expect]

@[simp] theorem readStr_str (s : String) (rest : List Token) :
    readStr (.str s.toList :: rest) = some (s, rest) := by
  simp [readStr]

theorem readBelow_num {bound n : Nat} (h : n < bound) (rest : List Token) :
    readBelow bound (.num n :: rest) = some (n, rest) := by
  simp [readBelow, h]

theorem readMember_memberTokens {α β : Type} {name : String}
    {value : List Token → Option (α × List Token)} {x : α}
    (h : ∀ rest, value (tokens ++ rest) = some (x, rest)) (c : Char)
    (next : α → List Token → Option β) (rest : List Token) :
    readMember name value c next (memberTokens name tokens c rest) = next x rest := by
  simp [readMember, memberTokens, h]

theorem separated_memberTokens (name : String) {value rest : List Token} (hv : Separated value)
    (hc : isPunct c = true) (hrest : Separated rest) :
    Separated (memberTokens name value c rest) :=
  ⟨by decide, separated_append_punct hv hc hrest⟩

/-! ## Lists -/

/-- The items of a list between commas. -/
def commas {α β : Type} (comma : β) (item : α → List β) : List α → List β
  | [] => []
  | [x] => item x
  | x :: rest => item x ++ comma :: commas comma item rest

/-- A list that is closed by `]`, with at least one item. -/
def readSome {α : Type} (item : List Token → Option (α × List Token)) :
    Nat → List Token → Option (List α × List Token)
  | 0, _ => none
  | fuel + 1, tokens =>
    match item tokens with
    | some (x, .punct ']' :: rest) => some ([x], rest)
    | some (x, .punct ',' :: rest) => (readSome item fuel rest).map fun (xs, rest) => (x :: xs, rest)
    | _ => none

/-- The items of a list to its `]`. Each item takes a token at least, so the number of tokens is
enough fuel. -/
def readItems {α : Type} (item : List Token → Option (α × List Token)) (tokens : List Token) :
    Option (List α × List Token) :=
  match tokens with
  | .punct ']' :: rest => some ([], rest)
  | _ => readSome item tokens.length tokens

theorem commas_cons {α β : Type} (comma : β) (item : α → List β) (x : α) {rest : List α}
    (h : rest ≠ []) : commas comma item (x :: rest) = item x ++ comma :: commas comma item rest := by
  cases rest with
  | nil => exact absurd rfl h
  | cons => rfl

variable {α : Type}

theorem separated_commas {tokens : α → List Token} (h : ∀ x, Separated (tokens x)) (xs : List α) :
    Separated (commas (.punct ',') tokens xs) := by
  induction xs with
  | nil => exact trivial
  | cons x xs ih =>
    by_cases hxs : xs = []
    · subst hxs
      exact h x
    · rw [commas_cons _ _ _ hxs]
      exact separated_append_punct (h x) (by decide) ih

theorem mem_commas {α β : Type} {comma : β} {item : α → List β} {x : α} {b : β} {xs : List α}
    (hx : x ∈ xs) (hb : b ∈ item x) : b ∈ commas comma item xs := by
  induction xs with
  | nil => cases hx
  | cons y xs ih =>
    by_cases hxs : xs = []
    · subst hxs
      obtain rfl := List.mem_singleton.1 hx
      exact hb
    · rw [commas_cons _ _ _ hxs, List.mem_append, List.mem_cons]
      rcases List.mem_cons.1 hx with rfl | hx
      · exact .inl hb
      · exact .inr (.inr (ih hx))

theorem readSome_commas {item : List Token → Option (α × List Token)} {tokens : α → List Token}
    (hitem : ∀ x rest, item (tokens x ++ rest) = some (x, rest)) {xs : List α} (hxs : xs ≠ [])
    (rest : List Token) {fuel : Nat} (hfuel : xs.length ≤ fuel) :
    readSome item fuel (commas (.punct ',') tokens xs ++ .punct ']' :: rest) =
      some (xs, rest) := by
  induction xs generalizing fuel with
  | nil => exact absurd rfl hxs
  | cons x xs ih =>
    cases fuel with
    | zero => simp at hfuel
    | succ fuel =>
      by_cases hlast : xs = []
      · subst hlast
        simp [readSome, commas, hitem]
      · have htail := ih hlast (Nat.le_of_succ_le_succ hfuel)
        rw [commas_cons _ _ _ hlast, List.append_assoc, List.cons_append]
        simp [readSome, hitem, htail]

theorem length_le_commas {tokens : α → List Token} (h : ∀ x, tokens x ≠ []) (xs : List α) :
    xs.length ≤ (commas (.punct ',') tokens xs).length := by
  induction xs with
  | nil => simp
  | cons x xs ih =>
    have hx := List.length_pos_of_ne_nil (h x)
    by_cases hxs : xs = []
    · subst hxs
      exact hx
    · rw [commas_cons _ _ _ hxs]
      simp only [List.length_cons, List.length_append]
      omega

/-- A written list is read back, where every item is and no item begins as the end of a list. -/
theorem readItems_commas {item : List Token → Option (α × List Token)} {tokens : α → List Token}
    (hitem : ∀ x rest, item (tokens x ++ rest) = some (x, rest))
    (hopen : ∀ x, ∃ token rest, tokens x = token :: rest ∧ token ≠ .punct ']') (xs : List α)
    (rest : List Token) :
    readItems item (commas (.punct ',') tokens xs ++ .punct ']' :: rest) = some (xs, rest) := by
  cases xs with
  | nil => rfl
  | cons x xs =>
    have hne (y : α) : tokens y ≠ [] := by
      obtain ⟨token, more, h, -⟩ := hopen y
      simp [h]
    have hfuel : (x :: xs).length ≤
        (commas (.punct ',') tokens (x :: xs) ++ .punct ']' :: rest).length := by
      have hlen := length_le_commas hne (x :: xs)
      rw [List.length_append]
      omega
    have hsome := readSome_commas hitem (List.cons_ne_nil x xs) rest hfuel
    obtain ⟨token, more, hx, hfirst⟩ := hopen x
    have hhead : ∃ t, commas (.punct ',') tokens (x :: xs) ++ .punct ']' :: rest =
        token :: t := by
      by_cases hxs : xs = []
      · exact ⟨_, by rw [hxs, commas, hx]; rfl⟩
      · exact ⟨_, by rw [commas_cons _ _ _ hxs, hx]; rfl⟩
    obtain ⟨t, ht⟩ := hhead
    rw [ht] at hsome ⊢
    unfold readItems
    split
    · rename_i heq
      exact absurd (List.cons.inj heq).1 hfirst
    · exact hsome

end AppCore.Json
