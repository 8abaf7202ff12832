import AppCore.Core.RedactionIndices
import AppCore.Core.RedactionScan

/-!
# Redaction of a redacted text

A text that is redacted again stays as it is, unless it was cut off in the value of a marker that is
shown: the sign that it was cut off stands there for the value, and is hidden like one.

* `redact_again` — what the second redaction returns.
-/

namespace AppCore.Redaction

/-! ## What fits -/

/-- The longest part of a text that has at most `scanned` bytes, and at most `room` as it is shown. -/
def fitting (place : Place) : List Char → Nat → Nat → List Char
  | [], _, _ => []
  | c :: text, scanned, room =>
    if c.utf8Size ≤ scanned ∧ len (emit place c) ≤ room then
      c :: fitting (place.next c) text (scanned - c.utf8Size) (room - len (emit place c))
    else []

/-- A limit leaves room for the sign that the text was cut off. -/
def limitOf (maxBytes : Nat) : Nat := max maxBytes (len truncated)

/-- The text is longer than what is scanned of it, or than the limit as it is shown. -/
def CutOff (text : List Char) (maxBytes : Nat) : Prop :=
  limitOf maxBytes + 1024 < len text ∨ limitOf maxBytes < len (shown text)

instance (text : List Char) (maxBytes : Nat) : Decidable (CutOff text maxBytes) :=
  inferInstanceAs (Decidable (_ ∨ _))

/-- The part of a text that is kept where it is cut off. -/
def keptOf (text : List Char) (maxBytes : Nat) : List Char :=
  fitting start text (limitOf maxBytes + 1024) (limitOf maxBytes - len truncated)

/-- The text is cut off behind a marker that is shown, or in its value. -/
def CutInValue (text : List Char) (maxBytes : Nat) : Prop :=
  CutOff text maxBytes ∧ EndsMarked (keptOf text maxBytes)

theorem emit_cases (place : Place) (c : Char) : emit place c = [c] ∨ emit place c <+: redacted := by
  unfold emit
  split
  · exact Or.inl rfl
  · split
    · exact Or.inr List.prefix_rfl
    · exact Or.inr List.nil_prefix

theorem floorCharBoundary_left {front : List Char} {index : Nat} (h : index < len front)
    (rest : List Char) : floorCharBoundary (front ++ rest) index = floorCharBoundary front index := by
  induction front generalizing index with
  | nil => exact absurd h (Nat.not_lt_zero _)
  | cons c front ih =>
    rw [List.cons_append, floorCharBoundary, floorCharBoundary]
    split
    next hsize =>
      rw [len_cons] at h
      rw [ih (by omega)]
    next => rfl

/-- The part of the shown text in front of a limit: what is shown of the part that fits, and a part
of what stands for the value behind it. -/
theorem kept_cases (place : Place) (text : List Char) (scanned room : Nat) :
    ∃ rest, floorCharBoundary (scan place (floorCharBoundary text scanned)) room =
        scan place (fitting place text scanned room) ++ rest ∧ rest <+: redacted := by
  induction text generalizing place scanned room with
  | nil => exact ⟨[], rfl, List.nil_prefix⟩
  | cons c text ih =>
    rw [floorCharBoundary, fitting]
    by_cases hscanned : c.utf8Size ≤ scanned
    · rw [if_pos hscanned, scan]
      by_cases hroom : len (emit place c) ≤ room
      · obtain ⟨rest, hkept, hrest⟩ :=
          ih (place.next c) (scanned - c.utf8Size) (room - len (emit place c))
        refine ⟨rest, ?_, hrest⟩
        have hfits := floorCharBoundary_append (emit place c)
          (scan (place.next c) (floorCharBoundary text (scanned - c.utf8Size)))
          (room - len (emit place c))
        rw [Nat.add_sub_cancel' hroom] at hfits
        rw [if_pos ⟨hscanned, hroom⟩, scan, hfits, hkept, List.append_assoc]
      · rw [if_neg fun h => hroom h.2]
        refine ⟨floorCharBoundary (emit place c) room,
          floorCharBoundary_left (Nat.lt_of_not_le hroom) _, ?_⟩
        rcases emit_cases place c with hcopied | hvalue
        · have hsize : ¬ c.utf8Size ≤ room := by
            rw [hcopied, len_cons, len_nil] at hroom
            omega
          rw [hcopied, floorCharBoundary, if_neg hsize]
          exact List.nil_prefix
        · exact (prefix_floorCharBoundary _ _).trans hvalue
    · rw [if_neg hscanned, if_neg fun h => hscanned h.1]
      exact ⟨[], rfl, List.nil_prefix⟩

/-! ## The second redaction -/

theorem floorCharBoundary_min (text : List Char) (index : Nat) :
    floorCharBoundary text (min index (len text)) = floorCharBoundary text index := by
  by_cases h : index ≤ len text
  · rw [min_eq_left h]
  · rw [min_eq_right (by omega), floorCharBoundary_all le_rfl, floorCharBoundary_all (by omega)]

theorem len_floorCharBoundary_lt (text : List Char) (index : Nat) :
    len (floorCharBoundary text index) < len text ↔ index < len text := by
  constructor
  · intro h
    by_contra hnot
    rw [floorCharBoundary_all (by omega)] at h
    exact lt_irrefl _ h
  · intro h
    exact (len_floorCharBoundary_le text index).trans_lt h

/-- What is returned, by what is shown. -/
theorem redactTextWithLimit_eq (text : List Char) (maxBytes : Nat) :
    redactTextWithLimit text maxBytes =
      if CutOff text maxBytes then
        floorCharBoundary (shown (floorCharBoundary text (limitOf maxBytes + 1024)))
          (limitOf maxBytes - len truncated) ++ truncated
      else shown text := by
  unfold redactTextWithLimit truncateText
  dsimp only
  simp only [redactMarkers_eq_shown, floorCharBoundary_min, decide_eq_true_iff,
    len_floorCharBoundary_lt]
  by_cases hlong : limitOf maxBytes + 1024 < len text
  · have hcut : CutOff text maxBytes := Or.inl hlong
    rw [if_neg fun h => h.1 hlong, if_pos hcut]
    rfl
  · have hscanned : floorCharBoundary text (max maxBytes (len truncated) + 1024) = text :=
      floorCharBoundary_all (Nat.le_of_not_lt hlong)
    rw [limitOf, hscanned]
    by_cases hshown : limitOf maxBytes < len (shown text)
    · have hcut : CutOff text maxBytes := Or.inr hshown
      rw [if_neg fun h => Nat.not_le.2 hshown h.2, if_pos hcut]
    · have hcut : ¬ CutOff text maxBytes := fun h => h.elim hlong hshown
      rw [if_pos ⟨hlong, Nat.le_of_not_lt hshown⟩, if_neg hcut]

/-- The text of a redaction that cuts it off: what is shown of the part that is kept, and perhaps a
part of what stands for a value. -/
theorem redact_cutOff {text : List Char} {maxBytes : Nat} (h : CutOff text maxBytes) :
    ∃ rest, redactTextWithLimit text maxBytes = shown (keptOf text maxBytes) ++ (rest ++ truncated) ∧
      rest <+: redacted ∧
      len (shown (keptOf text maxBytes)) + len rest + len truncated ≤ limitOf maxBytes := by
  obtain ⟨rest, hkept, hrest⟩ := kept_cases start text (limitOf maxBytes + 1024)
    (limitOf maxBytes - len truncated)
  have hlen := len_floorCharBoundary_le (shown (floorCharBoundary text (limitOf maxBytes + 1024)))
    (limitOf maxBytes - len truncated)
  rw [redactTextWithLimit_eq, if_pos h]
  refine ⟨rest, ?_, hrest, ?_⟩
  · rw [← List.append_assoc]
    exact congrArg (· ++ truncated) hkept
  · have hroom : len truncated ≤ limitOf maxBytes := le_max_right _ _
    have hfits : len (shown (keptOf text maxBytes)) + len rest ≤ limitOf maxBytes - len truncated := by
      rw [← len_append]
      exact hkept ▸ hlen
    omega

theorem len_redactTextWithLimit (text : List Char) (maxBytes : Nat) :
    len (redactTextWithLimit text maxBytes) ≤ limitOf maxBytes := by
  by_cases hcut : CutOff text maxBytes
  · obtain ⟨rest, hresult, -, hlen⟩ := redact_cutOff hcut
    rw [hresult, len_append, len_append]
    omega
  · rw [redactTextWithLimit_eq, if_neg hcut]
    exact Nat.le_of_not_lt fun h => hcut (Or.inr h)

theorem redact_short {text : List Char} {maxBytes : Nat} (htext : len text ≤ limitOf maxBytes)
    (hshown : len (shown text) ≤ limitOf maxBytes) : redactTextWithLimit text maxBytes = shown text := by
  rw [redactTextWithLimit_eq, if_neg]
  intro h
  rcases h with h | h
  · omega
  · omega

theorem isWord_truncated : IsWord truncated := isWord_of_all (by decide)

/-- The sign that a text was cut off, behind a part of what stands for a value: it is copied, or it is
hidden as a value. -/
theorem scan_sign (place : Place) {rest : List Char} (hrest : rest <+: redacted) :
    if Exposed place then scan place (rest ++ truncated) = rest ++ truncated
    else len (scan place (rest ++ truncated)) < len rest + len truncated := by
  have hword : IsWord (rest ++ truncated) := by
    intro c hc
    rcases List.mem_append.1 hc with hc | hc
    · exact isWord_redacted c (hrest.mem hc)
    · exact isWord_truncated c hc
  by_cases hexposed : Exposed place
  · rw [if_pos hexposed]
    have hclear : Clear (redacted ++ truncated) plainMarkers :=
      clear_plainMarkers (by decide) (by decide)
    exact scan_clear hexposed hword
      (hclear.mono (List.append_subset.2 ⟨fun c hc => List.mem_append_left _ (hrest.mem hc),
        List.subset_append_right _ _⟩))
  · rw [if_neg hexposed]
    have hredacted : len redacted < len truncated := by decide
    by_cases hopens : Opens place
    · have hvalue : rest ++ truncated ≠ [] :=
        List.append_ne_nil_of_right_ne_nil rest (by decide)
      rw [scan_opens hopens hword, hide, if_neg hvalue]
      omega
    · rw [scan_hidden hexposed hopens hword, len_nil]
      omega

/-- **A second redaction** returns what is shown of the first, and is shorter if that was cut off in a
value. -/
theorem redact_again (text : List Char) (maxBytes : Nat) :
    len (shown (redactTextWithLimit text maxBytes)) ≤ limitOf maxBytes ∧
      (shown (redactTextWithLimit text maxBytes) = redactTextWithLimit text maxBytes ↔
        ¬ CutInValue text maxBytes) := by
  have hlimit := len_redactTextWithLimit text maxBytes
  by_cases hcut : CutOff text maxBytes
  · obtain ⟨rest, hresult, hrest, hlen⟩ := redact_cutOff hcut
    have hshown : shown (redactTextWithLimit text maxBytes) = shown (keptOf text maxBytes) ++
        scan (placeBehind (shown (keptOf text maxBytes))) (rest ++ truncated) := by
      rw [hresult, shown, scan_append]
      exact congrArg (· ++ _) (shown_shown _)
    have hsign := scan_sign (placeBehind (shown (keptOf text maxBytes))) hrest
    have hmarked := endsMarked_iff (keptOf text maxBytes)
    by_cases hexposed : Exposed (placeBehind (shown (keptOf text maxBytes)))
    · rw [if_pos hexposed] at hsign
      rw [hsign, ← hresult] at hshown
      rw [hshown]
      exact ⟨hlimit, iff_of_true rfl fun h => hmarked.1 h.2 hexposed⟩
    · rw [if_neg hexposed] at hsign
      have hshorter : len (shown (redactTextWithLimit text maxBytes)) <
          len (redactTextWithLimit text maxBytes) := by
        rw [hshown, hresult, len_append, len_append, len_append]
        omega
      refine ⟨(Nat.le_of_lt hshorter).trans hlimit, iff_of_false ?_ ?_⟩
      · intro hsame
        rw [hsame] at hshorter
        exact lt_irrefl _ hshorter
      · exact not_not_intro ⟨hcut, hmarked.2 hexposed⟩
  · have hresult : redactTextWithLimit text maxBytes = shown text := by
      rw [redactTextWithLimit_eq, if_neg hcut]
    rw [hresult] at hlimit ⊢
    rw [shown_shown]
    exact ⟨hlimit, iff_of_true rfl fun h => hcut h.1⟩

theorem redact_redacted (text : List Char) (maxBytes : Nat) :
    redactTextWithLimit (redactTextWithLimit text maxBytes) maxBytes =
      shown (redactTextWithLimit text maxBytes) :=
  redact_short (len_redactTextWithLimit text maxBytes) (redact_again text maxBytes).1

theorem redact_third (text : List Char) (maxBytes : Nat) :
    redactTextWithLimit (redactTextWithLimit (redactTextWithLimit text maxBytes) maxBytes) maxBytes =
      redactTextWithLimit (redactTextWithLimit text maxBytes) maxBytes := by
  rw [redact_redacted (redactTextWithLimit text maxBytes), redact_redacted, shown_shown]

theorem redact_redact_iff (text : List Char) (maxBytes : Nat) :
    redactTextWithLimit (redactTextWithLimit text maxBytes) maxBytes =
      redactTextWithLimit text maxBytes ↔ ¬ CutInValue text maxBytes := by
  rw [redact_redacted]
  exact (redact_again text maxBytes).2

/-- `redact_text_with_limit` of a string. -/
def redactString (value : String) (maxBytes : Nat) : String :=
  String.ofList (redactTextWithLimit value.toList maxBytes)

theorem redactString_again_iff (value : String) (maxBytes : Nat) :
    redactString (redactString value maxBytes) maxBytes = redactString value maxBytes ↔
      ¬ CutInValue value.toList maxBytes := by
  rw [← redact_redact_iff, redactString, redactString, String.toList_ofList, String.ofList_inj]

theorem redactString_third (value : String) (maxBytes : Nat) :
    redactString (redactString (redactString value maxBytes) maxBytes) maxBytes =
      redactString (redactString value maxBytes) maxBytes := by
  simp only [redactString, String.toList_ofList, redact_third]

/-! ## Bounded and stable -/

/-- No slice is inside a character, the result is bounded, and it is returned for itself. -/
def Stable (text : List Char) (maxBytes : Nat) : Prop :=
  ∃ result, redactTextWithLimitAt text maxBytes = some result ∧ len result ≤ limitOf maxBytes ∧
    redactTextWithLimitAt result maxBytes = some result

theorem stable_iff (text : List Char) (maxBytes : Nat) :
    Stable text maxBytes ↔ ¬ CutInValue text maxBytes := by
  rw [← redact_redact_iff]
  constructor
  · rintro ⟨result, hresult, -, hagain⟩
    rw [redactTextWithLimitAt_eq] at hresult hagain
    rw [Option.some.inj hresult]
    exact Option.some.inj hagain
  · intro h
    refine ⟨redactTextWithLimit text maxBytes, redactTextWithLimitAt_eq text maxBytes,
      len_redactTextWithLimit text maxBytes, ?_⟩
    rw [redactTextWithLimitAt_eq, h]

example : redactTextWithLimitAt "token= 0123456789ab".toList 17 =
    some "token=[TRUNCATED]".toList := by decide

example : redactTextWithLimitAt "token=[TRUNCATED]".toList 17 =
    some "token=[REDACTED]".toList := by decide

/-- A text without a value behind its marker is cut off behind the marker, and the sign that it was is
hidden by the second redaction. -/
theorem cutInValue_behind_marker : CutInValue "token= 0123456789ab".toList 17 := by
  refine ⟨Or.inr (by decide), token, by simp [markers], [], "token=".toList, [], by decide, by decide,
    by decide, List.forall_mem_nil _⟩

end AppCore.Redaction
