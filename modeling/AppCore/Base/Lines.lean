import AppCore.Base.Text

/-!
# Files of lines

A persistent file of records has a line for each record. An append that was cut short leaves a part
of its line behind the last newline; a reader drops it when it can still read the file as text.

* `fromUtf8_append` — text in front of other bytes.
-/

namespace AppCore

/-! ## Bytes behind a text -/

theorem fromUtf8_append (t : List Char) (tail : Bytes) :
    fromUtf8 (utf8 t ++ tail) = (fromUtf8 tail).map (t ++ ·) := by
  cases htail : fromUtf8 tail with
  | some u =>
    rw [← utf8_of_fromUtf8 htail, ← utf8_append, fromUtf8_utf8]
    rfl
  | none =>
    cases hall : fromUtf8 (utf8 t ++ tail) with
    | none => rfl
    | some s =>
      have hbytes := utf8_of_fromUtf8 hall
      obtain ⟨u, rfl⟩ : t <+: s := by
        refine List.isPrefix_of_utf8Encode_append_eq_utf8Encode tail.toByteArray ?_
        have henc (t : List Char) : t.utf8Encode = (utf8 t).toByteArray := rfl
        rw [henc, henc, hbytes, List.toByteArray_append]
      rw [utf8_append] at hbytes
      have hu := List.append_cancel_left hbytes
      rw [← hu, fromUtf8_utf8] at htail
      cases htail

theorem fromUtf8_append_some {a b : Bytes} {t u : List Char} (ha : fromUtf8 a = some t)
    (hb : fromUtf8 b = some u) : fromUtf8 (a ++ b) = some (t ++ u) := by
  rw [← utf8_of_fromUtf8 ha, fromUtf8_append, hb]
  rfl

/-- A character that is not ASCII takes bytes that are not. -/
theorem le_toNat_of_mem_utf8EncodeChar {c : Char} (h : ¬ c.toNat < 128) {b : UInt8}
    (hb : b ∈ String.utf8EncodeChar c) : 128 ≤ b.toNat := by
  have hc : ¬ c.val.toNat ≤ 127 := fun hle => h (Nat.lt_succ_of_le hle)
  have hbyte {base n : Nat} (hbase : 128 ≤ base) (hn : n + base < 256) :
      128 ≤ (UInt8.ofNat (n + base)).toNat := by
    rw [UInt8.toNat_ofNat', Nat.mod_eq_of_lt hn]
    omega
  unfold String.utf8EncodeChar at hb
  dsimp only at hb
  rw [if_neg hc] at hb
  split at hb
  · simp only [List.mem_cons, List.not_mem_nil, or_false] at hb
    rcases hb with rfl | rfl <;> exact hbyte (by omega) (by omega)
  · split at hb
    · simp only [List.mem_cons, List.not_mem_nil, or_false] at hb
      rcases hb with rfl | rfl | rfl <;> exact hbyte (by omega) (by omega)
    · simp only [List.mem_cons, List.not_mem_nil, or_false] at hb
      rcases hb with rfl | rfl | rfl | rfl <;> exact hbyte (by omega) (by omega)

/-- The byte of a newline is only in the encoding of a newline. -/
theorem newline_mem_utf8 {t : List Char} : 0x0a ∈ utf8 t ↔ '\n' ∈ t := by
  constructor
  · intro h
    obtain ⟨c, hc, hbyte⟩ := List.mem_flatMap.1 h
    suffices c = '\n' from this ▸ hc
    by_cases hascii : c.toNat < 128
    · rw [utf8EncodeChar_of_ascii hascii, List.mem_singleton] at hbyte
      have hval : c.toNat = 10 := by
        have := congrArg UInt8.toNat hbyte
        simp at this
        omega
      exact Char.toNat_inj.1 hval
    · have hle := le_toNat_of_mem_utf8EncodeChar hascii hbyte
      exact absurd hle (by decide)
  · intro h
    exact List.mem_flatMap.2 ⟨'\n', h, by decide⟩

theorem length_utf8 (t : List Char) : t.length ≤ (utf8 t).length ∧ (utf8 t).length ≤ 4 * t.length := by
  induction t with
  | nil => exact ⟨le_rfl, le_rfl⟩
  | cons c t ih =>
    have hpos := Char.utf8Size_pos c
    have hle := Char.utf8Size_le_four c
    simp only [utf8, List.flatMap_cons, List.length_append, List.length_cons,
      String.length_utf8EncodeChar] at ih ⊢
    omega

/-! ## Lines -/

/-- A text without line endings. -/
def IsLine (l : List Char) : Prop := '\n' ∉ l ∧ '\r' ∉ l

/-- Lines, each with its newline. -/
def joinLines (ls : List (List Char)) : List Char := ls.flatMap (· ++ ['\n'])

@[simp] theorem joinLines_nil : joinLines [] = [] := rfl

@[simp] theorem joinLines_cons (l : List Char) (ls : List (List Char)) :
    joinLines (l :: ls) = l ++ '\n' :: joinLines ls := by
  simp [joinLines]

@[simp] theorem joinLines_append (ls ms : List (List Char)) :
    joinLines (ls ++ ms) = joinLines ls ++ joinLines ms := by
  simp [joinLines]

theorem lines_joinLines {ls : List (List Char)} (h : ∀ l ∈ ls, IsLine l) :
    lines (joinLines ls) = ls := by
  induction ls with
  | nil => rfl
  | cons l ls ih =>
    obtain ⟨hn, hr⟩ := h l List.mem_cons_self
    rw [joinLines_cons, lines_line hn hr, ih fun m hm => h m (List.mem_cons_of_mem _ hm)]

theorem joinLines_getLast? (ls : List (List Char)) :
    joinLines ls = [] ∨ (joinLines ls).getLast? = some '\n' := by
  induction ls using List.reverseRecOn with
  | nil => exact .inl rfl
  | append_singleton ls l _ =>
    right
    simp [joinLines]

def trim (t : List Char) : List Char :=
  ((t.dropWhile isWhitespace).reverse.dropWhile isWhitespace).reverse

theorem trim_of_ends {first last : Char} (hfirst : isWhitespace first = false)
    (hlast : isWhitespace last = false) (mid : List Char) :
    trim (first :: (mid ++ [last])) = first :: (mid ++ [last]) := by
  have hdrop : (first :: (mid ++ [last])).reverse.dropWhile isWhitespace =
      (first :: (mid ++ [last])).reverse := by
    simp [hlast]
  rw [trim, List.dropWhile_cons_of_neg (by simp [hfirst]), hdrop, List.reverse_reverse]

/-- The text after a marker line. -/
def stripMarker (marker text : List Char) : Option (List Char) :=
  (text.dropPrefix? marker).bind fun rest => rest.dropPrefix? ['\n']

theorem stripMarker_append (marker body : List Char) :
    stripMarker marker (marker ++ '\n' :: body) = some body := by
  have hmarker : (marker ++ '\n' :: body).dropPrefix? marker = some ('\n' :: body) :=
    List.dropPrefix?_append_of_beq _ (by simp)
  have hnewline : ('\n' :: body).dropPrefix? ['\n'] = some body :=
    List.dropPrefix?_append_of_beq body (show ['\n'] == ['\n'] by simp)
  rw [stripMarker, hmarker, Option.bind_some, hnewline]

/-- `complete_line_prefix`: the text up to its last newline, and whether that drops a tail. -/
def completeLinePrefix (body : List Char) : List Char × Bool :=
  if body.isEmpty ∨ body.getLast? = some '\n' then (body, false)
  else ((body.reverse.dropWhile (· ≠ '\n')).reverse, true)

theorem completeLinePrefix_joinLines (ls : List (List Char)) {tail : List Char}
    (htail : '\n' ∉ tail) :
    completeLinePrefix (joinLines ls ++ tail) = (joinLines ls, !tail.isEmpty) := by
  by_cases hempty : tail = []
  · subst hempty
    rw [List.append_nil, completeLinePrefix, if_pos]
    · rfl
    · exact (joinLines_getLast? ls).imp (by simp +contextual) id
  · have hopen : ¬((joinLines ls ++ tail).isEmpty ∨
        (joinLines ls ++ tail).getLast? = some '\n') := by
      rintro (h | h)
      · simp [hempty] at h
      · rw [List.getLast?_append_of_ne_nil _ hempty] at h
        exact htail (List.mem_of_getLast? h)
    have hdrop : ∀ c ∈ tail.reverse, decide (c ≠ '\n') = true := by
      intro c hc
      refine decide_eq_true fun heq => ?_
      exact htail (heq ▸ List.mem_reverse.1 hc)
    rw [completeLinePrefix, if_neg hopen, List.reverse_append, List.dropWhile_append_of_pos hdrop]
    have hkeep : (joinLines ls).reverse.dropWhile (· ≠ '\n') = (joinLines ls).reverse := by
      obtain hnil | hlast := joinLines_getLast? ls
      · simp [hnil]
      · rw [← List.head?_reverse] at hlast
        cases h : (joinLines ls).reverse with
        | nil => rfl
        | cons c rest =>
          rw [h] at hlast
          obtain rfl := Option.some.inj hlast
          simp
    rw [hkeep, List.reverse_reverse]
    simp [hempty]

/-! ## Appends that are cut short -/

/-- An append that fails, and how much of its line it wrote before. -/
structure AppendFault where
  written : Nat
  message : String

/-- The bytes of a line that an append wrote before it failed, never all of them. -/
def tornPart (line : Bytes) (written : Nat) : Bytes := line.dropLast.take written

/-- A file whose last line is not ended. -/
def NoNewline (tail : Bytes) : Prop := (0x0a : UInt8) ∉ tail

theorem noNewline_nil : NoNewline [] := by simp [NoNewline]

theorem NoNewline.append {a b : Bytes} (ha : NoNewline a) (hb : NoNewline b) :
    NoNewline (a ++ b) := by
  simp_all [NoNewline]

theorem noNewline_tornPart {l : List Char} (h : IsLine l) (written : Nat) :
    NoNewline (tornPart (utf8 (l ++ ['\n'])) written) := by
  intro hmem
  have hlast : utf8 ['\n'] = [0x0a] := by decide
  rw [tornPart, utf8_append, hlast, List.dropLast_concat] at hmem
  exact h.1 (newline_mem_utf8.1 (List.mem_of_mem_take hmem))

theorem NoNewline.text {tail : Bytes} (h : NoNewline tail) {u : List Char}
    (hu : fromUtf8 tail = some u) : '\n' ∉ u := by
  rw [← utf8_of_fromUtf8 hu] at h
  exact fun hmem => h (newline_mem_utf8.2 hmem)

end AppCore
