import AppCore.Core.RedactionProof

/-!
# Redaction by byte indices

`redact_text_with_limit` as the code computes it: with indices into the bytes of a text. A slice that
begins or ends inside a character has no value, as the code panics there.

* `redactTextWithLimitAt_eq` — no slice of the code does, and it returns the text of
  `redactTextWithLimit`.
-/

namespace AppCore.Redaction

/-! ## Indices -/

/-- The text in front of an index, and the text behind. -/
def splitAtIndex : List Char → Nat → Option (List Char × List Char)
  | text, 0 => some ([], text)
  | [], _ + 1 => none
  | c :: text, index + 1 =>
    if c.utf8Size ≤ index + 1 then
      (splitAtIndex text (index + 1 - c.utf8Size)).map fun parts => (c :: parts.1, parts.2)
    else none

/-- `&text[from..]`. -/
def sliceFrom (text : List Char) (index : Nat) : Option (List Char) :=
  (splitAtIndex text index).map Prod.snd

/-- `&text[..to]`, and `String::truncate`. -/
def sliceTo (text : List Char) (index : Nat) : Option (List Char) :=
  (splitAtIndex text index).map Prod.fst

/-- `&text[from..to]`. -/
def slice (text : List Char) (first last : Nat) : Option (List Char) :=
  (sliceTo text last).bind fun front => sliceFrom front first

def isCharBoundary (text : List Char) (index : Nat) : Bool := (splitAtIndex text index).isSome

/-- `str::find` of a text. -/
def findText (pattern : List Char) : List Char → Option Nat
  | [] => if pattern = [] then some 0 else none
  | c :: text =>
    if pattern <+: c :: text then some 0 else (findText pattern text).map (c.utf8Size + ·)

/-- `str::find` of a character. -/
def findChar (test : Char → Bool) : List Char → Option Nat
  | [] => none
  | c :: text => if test c then some 0 else (findChar test text).map (c.utf8Size + ·)

/-! ## The code -/

/-- The loop of `floor_char_boundary`. -/
def floorLoop (value : List Char) : Nat → Nat
  | 0 => 0
  | index + 1 => if isCharBoundary value (index + 1) then index + 1 else floorLoop value index

/-- `floor_char_boundary`. -/
def floorCharBoundaryAt (value : List Char) (index : Nat) : Nat :=
  floorLoop value (min index (len value))

/-- `truncate_text`. -/
def truncateTextAt (value : List Char) (maxBytes : Nat) (inputWasTruncated : Bool) :
    Option (List Char) :=
  if ¬ inputWasTruncated ∧ len value ≤ maxBytes then some value
  else
    let contentLimit := maxBytes - len truncated
    let last := floorCharBoundaryAt value (min contentLimit (len value))
    (sliceTo value last).map (· ++ truncated)

/-- The loop of `redact_marker`, for a number of rounds. -/
def redactLoop (marker : Marker) (input : List Char) : Nat → List Char → Nat → Option (List Char)
  | 0, _, _ => none
  | rounds + 1, output, cursor => do
      let remaining ← sliceFrom (input.map Char.toLower) cursor
      match findText marker.text remaining with
      | none => do
          let rest ← sliceFrom input cursor
          pure (output ++ rest)
      | some relative => do
          let valueStart := cursor + relative + len marker.text
          let before ← slice input cursor valueStart
          let behind ← sliceFrom input valueStart
          let valueEnd := ((findChar isSecretDelimiter behind).map (valueStart + ·)).getD (len input)
          let output := output ++ before ++ if valueEnd > valueStart then redacted else []
          if valueEnd = len input then do
            let rest ← sliceFrom input valueEnd
            pure (output ++ rest)
          else redactLoop marker input rounds output valueEnd

/-- `redact_marker`. A round is over at a later byte than the one before. -/
def redactMarkerAt (marker : Marker) (input : List Char) : Option (List Char) :=
  redactLoop marker input (len input + 1) [] 0

/-- `redact_text_with_limit`. -/
def redactTextWithLimitAt (input : List Char) (maxBytes : Nat) : Option (List Char) := do
  let maxBytes := max maxBytes (len truncated)
  let scanLimit := min (maxBytes + 1024) (len input)
  let scanEnd := floorCharBoundaryAt input scanLimit
  let scanned ← sliceTo input scanEnd
  let output ← markers.foldlM (fun output marker => redactMarkerAt marker output) scanned
  truncateTextAt output maxBytes (len input > scanEnd)

/-! ## Slices at boundaries -/

theorem len_nil : len [] = 0 := rfl

theorem len_append (first second : List Char) : len (first ++ second) = len first + len second := by
  rw [len, len, len, utf8_append, List.length_append]

theorem len_pos {text : List Char} (h : text ≠ []) : 0 < len text := by
  cases text with
  | nil => exact absurd rfl h
  | cons c text =>
    have hpos := Char.utf8Size_pos c
    rw [len_cons]
    omega

theorem utf8Size_toLower (c : Char) : c.toLower.utf8Size = c.utf8Size := by
  rcases toLower_cases c with hsame | ⟨hlow, hhigh, hlower⟩
  · rw [hsame]
  · have hsize : c.utf8Size = 1 :=
      Char.utf8Size_eq_one_iff.2 (UInt32.le_iff_toNat_le.2 (hhigh.trans (by decide)))
    have hlowerSize : c.toLower.utf8Size = 1 := by
      refine Char.utf8Size_eq_one_iff.2 (UInt32.le_iff_toNat_le.2 ?_)
      show c.toLower.toNat ≤ 127
      omega
    rw [hsize, hlowerSize]

theorem len_lower (text : List Char) : len (text.map Char.toLower) = len text := by
  induction text with
  | nil => rfl
  | cons c text ih => rw [List.map_cons, len_cons, len_cons, utf8Size_toLower, ih]

theorem splitAtIndex_len (front rest : List Char) :
    splitAtIndex (front ++ rest) (len front) = some (front, rest) := by
  induction front with
  | nil =>
    cases rest with
    | nil => rfl
    | cons c rest => rfl
  | cons c front ih =>
    have hpos := Char.utf8Size_pos c
    obtain ⟨index, hindex⟩ : ∃ index, c.utf8Size + len front = index + 1 :=
      Nat.exists_eq_succ_of_ne_zero (by omega)
    have hrest : index + 1 - c.utf8Size = len front := by omega
    rw [len_cons, hindex, List.cons_append, splitAtIndex, if_pos (by omega), hrest, ih]
    rfl

theorem of_splitAtIndex {text front rest : List Char} {index : Nat}
    (h : splitAtIndex text index = some (front, rest)) : text = front ++ rest ∧ len front = index := by
  induction text, index using splitAtIndex.induct generalizing front rest with
  | case1 text =>
    have hzero : splitAtIndex text 0 = some ([], text) := splitAtIndex_len [] text
    rw [hzero] at h
    cases h
    exact ⟨rfl, rfl⟩
  | case2 index => cases h
  | case3 c text index hsize ih =>
    rw [splitAtIndex, if_pos hsize] at h
    obtain ⟨⟨front, behind⟩, hparts, heq⟩ := Option.map_eq_some_iff.1 h
    cases heq
    obtain ⟨rfl, hlen⟩ := ih hparts
    exact ⟨rfl, by rw [len_cons, hlen]; omega⟩
  | case4 c text index hsize =>
    rw [splitAtIndex, if_neg hsize] at h
    cases h

theorem sliceTo_len (front rest : List Char) : sliceTo (front ++ rest) (len front) = some front := by
  rw [sliceTo, splitAtIndex_len]
  rfl

theorem sliceFrom_len (front rest : List Char) :
    sliceFrom (front ++ rest) (len front) = some rest := by
  rw [sliceFrom, splitAtIndex_len]
  rfl

theorem slice_len (first second rest : List Char) :
    slice (first ++ (second ++ rest)) (len first) (len first + len second) = some second := by
  rw [slice, ← len_append, ← List.append_assoc, sliceTo_len]
  exact sliceFrom_len first second

/-! ## The boundary below an index -/

theorem floorCharBoundary_append (front rest : List Char) (index : Nat) :
    floorCharBoundary (front ++ rest) (len front + index) =
      front ++ floorCharBoundary rest index := by
  induction front with
  | nil => rw [len_nil, Nat.zero_add]; rfl
  | cons c front ih =>
    have hrest : c.utf8Size + len front + index - c.utf8Size = len front + index := by omega
    rw [len_cons, List.cons_append, floorCharBoundary, if_pos (by omega), hrest, ih]
    rfl

theorem floorCharBoundary_succ {text : List Char} {index : Nat}
    (h : len (floorCharBoundary text (index + 1)) ≤ index) :
    floorCharBoundary text (index + 1) = floorCharBoundary text index := by
  induction text generalizing index with
  | nil => rfl
  | cons c text ih =>
    rw [floorCharBoundary] at h ⊢
    rw [floorCharBoundary]
    by_cases hsize : c.utf8Size ≤ index + 1
    · rw [if_pos hsize, len_cons] at h
      have hrest : index + 1 - c.utf8Size = (index - c.utf8Size) + 1 := by omega
      rw [hrest] at h
      rw [if_pos hsize, if_pos (by omega), hrest, ih (by omega)]
    · rw [if_neg hsize, if_neg (by omega)]

theorem len_floorCharBoundary_le (text : List Char) (index : Nat) :
    len (floorCharBoundary text index) ≤ index := by
  induction text generalizing index with
  | nil => exact Nat.zero_le index
  | cons c text ih =>
    rw [floorCharBoundary]
    split
    next hsize =>
      have hrest := ih (index - c.utf8Size)
      rw [len_cons]
      omega
    next => exact Nat.zero_le index

/-- The loop ends at the boundary. -/
theorem floorLoop_eq (value : List Char) (index : Nat) :
    floorLoop value index = len (floorCharBoundary value index) := by
  induction index with
  | zero => exact (Nat.le_zero.1 (len_floorCharBoundary_le value 0)).symm
  | succ index ih =>
    rw [floorLoop, isCharBoundary]
    cases hsplit : splitAtIndex value (index + 1) with
    | some parts =>
      obtain ⟨rfl, hlen⟩ := of_splitAtIndex hsplit
      have hfloor := floorCharBoundary_append parts.1 parts.2 0
      have hzero := len_floorCharBoundary_le parts.2 0
      rw [Nat.add_zero, hlen] at hfloor
      rw [Option.isSome_some, if_pos rfl, hfloor, len_append, hlen]
      omega
    | none =>
      have hbelow : len (floorCharBoundary value (index + 1)) ≤ index := by
        by_contra hnot
        have hlen := len_floorCharBoundary_le value (index + 1)
        obtain ⟨rest, hrest⟩ := prefix_floorCharBoundary value (index + 1)
        have hparts := splitAtIndex_len (floorCharBoundary value (index + 1)) rest
        rw [hrest, show len (floorCharBoundary value (index + 1)) = index + 1 by omega,
          hsplit] at hparts
        cases hparts
      rw [if_neg (by simp), ih, floorCharBoundary_succ hbelow]

theorem floorCharBoundaryAt_eq (value : List Char) (index : Nat) :
    floorCharBoundaryAt value (min index (len value)) =
      len (floorCharBoundary value (min index (len value))) := by
  rw [floorCharBoundaryAt, min_assoc, min_self, floorLoop_eq]

theorem sliceTo_floor (value : List Char) (index : Nat) :
    sliceTo value (floorCharBoundaryAt value (min index (len value))) =
      some (floorCharBoundary value (min index (len value))) := by
  obtain ⟨rest, hrest⟩ := prefix_floorCharBoundary value (min index (len value))
  have hslice := sliceTo_len (floorCharBoundary value (min index (len value))) rest
  rwa [hrest, ← floorCharBoundaryAt_eq] at hslice

theorem findText_of_cutAfter_none {marker : Marker} {text : List Char}
    (h : cutAfter Char.toLower marker.text text = none) :
    findText marker.text (text.map Char.toLower) = none := by
  induction text with
  | nil => exact if_neg marker.nonempty
  | cons c text ih =>
    rw [cutAfter] at h
    split at h
    next => cases h
    next hstarts =>
      rw [startsWith_iff, List.map_cons] at hstarts
      rw [List.map_cons, findText, if_neg hstarts, ih (Option.map_eq_none_iff.1 h)]
      rfl

/-- The index of a marker is that of the text in front of its value, less its own bytes. -/
theorem findText_of_cutAfter {marker : Marker} {text shown rest : List Char}
    (h : cutAfter Char.toLower marker.text text = some (shown, rest)) :
    ∃ relative, findText marker.text (text.map Char.toLower) = some relative ∧
      relative + len marker.text = len shown := by
  induction text generalizing shown rest with
  | nil => cases h
  | cons c text ih =>
    rw [cutAfter] at h
    split at h
    next hstarts =>
      cases h
      have hmarker := hstarts
      rw [startsWith, decide_eq_true_iff] at hmarker
      rw [startsWith_iff, List.map_cons] at hstarts
      refine ⟨0, by rw [List.map_cons, findText, if_pos hstarts], ?_⟩
      rw [Nat.zero_add, ← hmarker, len_lower, hmarker]
    next hstarts =>
      obtain ⟨⟨shown, rest⟩, hcut, heq⟩ := Option.map_eq_some_iff.1 h
      cases heq
      obtain ⟨relative, hfind, hlen⟩ := ih hcut
      rw [startsWith_iff, List.map_cons] at hstarts
      refine ⟨c.utf8Size + relative, ?_, ?_⟩
      · rw [List.map_cons, findText, if_neg hstarts, hfind, utf8Size_toLower]
        rfl
      · rw [len_cons, ← hlen, Nat.add_assoc]

/-- A value ends in front of the first delimiter, or with the text. -/
theorem valueEnd_eq (test : Char → Bool) (text : List Char) (valueStart : Nat) :
    ((findChar test text).map (valueStart + ·)).getD (valueStart + len text) =
      valueStart + len (text.takeWhile fun c => !test c) := by
  induction text generalizing valueStart with
  | nil => rfl
  | cons c text ih =>
    rw [findChar]
    by_cases hc : test c = true
    · rw [if_pos hc, List.takeWhile_cons_of_neg (by rw [hc]; decide)]
      rfl
    · rw [Bool.not_eq_true] at hc
      have hrest := ih (valueStart + c.utf8Size)
      rw [hc, if_neg Bool.false_ne_true, List.takeWhile_cons_of_pos (by rw [hc]; rfl), len_cons,
        len_cons, Option.map_map, ← Nat.add_assoc, ← Nat.add_assoc, ← hrest]
      cases findChar test text with
      | none => rfl
      | some offset => exact (Nat.add_assoc valueStart c.utf8Size offset).symm

/-! ## The code and the passes -/

theorem redactLoop_eq (marker : Marker) (rounds : Nat) (front text output : List Char)
    (hrounds : len text < rounds) :
    redactLoop marker (front ++ text) rounds output (len front) =
      some (output ++ redactMarker marker text) := by
  induction rounds generalizing front text output with
  | zero => exact absurd hrounds (Nat.not_lt_zero _)
  | succ rounds ih =>
    have hlower : sliceFrom ((front ++ text).map Char.toLower) (len front) =
        some (text.map Char.toLower) := by
      rw [List.map_append, ← len_lower front, sliceFrom_len]
    rw [redactLoop, hlower, Option.bind_eq_bind, Option.bind_some]
    cases hcut : cutAfter Char.toLower marker.text text with
    | none =>
      rw [findText_of_cutAfter_none hcut, redactMarker_none hcut]
      dsimp only
      rw [sliceFrom_len]
      rfl
    | some parts =>
      obtain ⟨shown, rest⟩ := parts
      obtain ⟨relative, hfind, hlen⟩ := findText_of_cutAfter hcut
      obtain rfl := append_of_cutAfter hcut
      rw [hfind, redactMarker_some hcut]
      have hstart : len front + relative + len marker.text = len front + len shown := by omega
      have hbehind : sliceFrom (front ++ (shown ++ rest)) (len front + len shown) = some rest := by
        rw [← len_append, ← List.append_assoc, sliceFrom_len]
      have hinput : len (front ++ (shown ++ rest)) = len front + len shown + len rest := by
        rw [len_append, len_append, Nat.add_assoc]
      simp only [hstart, slice_len, hbehind, Option.bind_some, hinput, valueEnd_eq]
      have hrest : (rest.takeWhile fun c => !isSecretDelimiter c) ++
          (rest.dropWhile fun c => !isSecretDelimiter c) = rest := List.takeWhile_append_dropWhile
      generalize (rest.takeWhile fun c => !isSecretDelimiter c) = value at hrest ⊢
      generalize (rest.dropWhile fun c => !isSecretDelimiter c) = behind at hrest ⊢
      subst hrest
      have hhidden : (if len front + len shown + len value > len front + len shown then redacted
          else []) = hide value := by
        by_cases hvalue : value = []
        · rw [hvalue, len_nil, Nat.add_zero, if_neg (Nat.lt_irrefl _)]
          rfl
        · have hpos := len_pos hvalue
          rw [if_pos (by omega), hide, if_neg hvalue]
      have hparts : front ++ (shown ++ (value ++ behind)) = (front ++ shown ++ value) ++ behind := by
        simp only [List.append_assoc]
      have hlength : len front + len shown + len value = len (front ++ shown ++ value) := by
        rw [len_append, len_append]
      have hshown := len_pos (ne_nil_of_cutAfter marker.nonempty hcut)
      simp only [len_append] at hrounds
      rw [hhidden, hparts, hlength, len_append value behind, ← Nat.add_assoc, hlength]
      by_cases hlast : behind = []
      · rw [hlast, len_nil, Nat.add_zero, if_pos rfl, sliceFrom_len, redactMarker_none rfl]
        simp
      · have hpos := len_pos hlast
        rw [if_neg (by omega), ih _ _ _ (by omega)]
        simp only [List.append_assoc]

theorem redactMarkerAt_eq (marker : Marker) (input : List Char) :
    redactMarkerAt marker input = some (redactMarker marker input) :=
  redactLoop_eq marker _ [] input [] (Nat.lt_succ_self _)

theorem redactMarkersAt_eq (passes : List Marker) (input : List Char) :
    passes.foldlM (fun output marker => redactMarkerAt marker output) input =
      some (passes.foldl (fun output marker => redactMarker marker output) input) := by
  induction passes generalizing input with
  | nil => rfl
  | cons marker passes ih =>
    rw [List.foldlM_cons, redactMarkerAt_eq]
    exact ih _

theorem truncateTextAt_eq (value : List Char) (maxBytes : Nat) (inputWasTruncated : Bool) :
    truncateTextAt value maxBytes inputWasTruncated =
      some (truncateText value maxBytes inputWasTruncated) := by
  unfold truncateTextAt truncateText
  split
  · rfl
  · dsimp only
    rw [sliceTo_floor]
    rfl

/-- **No slice is inside a character**: the code returns a text for every text and limit. -/
theorem redactTextWithLimitAt_eq (input : List Char) (maxBytes : Nat) :
    redactTextWithLimitAt input maxBytes = some (redactTextWithLimit input maxBytes) := by
  unfold redactTextWithLimitAt redactTextWithLimit
  dsimp only
  rw [sliceTo_floor, Option.bind_eq_bind, Option.bind_some, redactMarkersAt_eq,
    Option.bind_some, truncateTextAt_eq, floorCharBoundaryAt_eq]
  rfl

end AppCore.Redaction
