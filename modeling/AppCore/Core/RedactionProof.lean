import AppCore.Core.Redaction

/-!
# What redaction leaves of a credential

The first pass hides what follows `authorization:`, and so it may take away the `bearer` of a
`bearer ` marker; and where `bearer` is itself what follows a `bearer `, it is hidden with that one.
In both cases the value behind is left in the text, up to the end of another marker in it. Nothing
else of a marked credential is left.

* `redacts_iff` — a text is redacted unless it has such a `bearer `.
-/

namespace AppCore.Redaction

theorem toLower_cases (c : Char) : c.toLower = c ∨
    65 ≤ c.toNat ∧ c.toNat ≤ 90 ∧ c.toLower.toNat = c.toNat + 32 := by
  by_cases h : c.val ≥ 'A'.val ∧ c.val ≤ 'Z'.val
  · right
    have hlow : 65 ≤ c.toNat := UInt32.le_iff_toNat_le.1 h.1
    have hhigh : c.toNat ≤ 90 := UInt32.le_iff_toNat_le.1 h.2
    refine ⟨hlow, hhigh, ?_⟩
    unfold Char.toLower
    rw [dif_pos h]
    show (c.val + ('a'.val - 'A'.val)).toNat = c.val.toNat + 32
    rw [UInt32.toNat_add]
    show (c.toNat + 32) % 2 ^ 32 = c.toNat + 32
    omega
  · exact .inl (dif_neg h)

theorem toLower_of_delimiter {c : Char} (h : isSecretDelimiter c = true) : c.toLower = c := by
  rcases toLower_cases c with hsame | ⟨hlow, hhigh, -⟩
  · exact hsame
  · simp only [isSecretDelimiter, isWhitespace, Bool.or_eq_true, Bool.and_eq_true, beq_iff_eq,
      decide_eq_true_eq] at h
    rcases h with ((((h | rfl) | rfl) | rfl) | rfl) | rfl
    · omega
    · rfl
    · rfl
    · rfl
    · rfl
    · rfl

theorem eq_space_of_toLower {c : Char} (h : c.toLower = ' ') : c = ' ' := by
  rcases toLower_cases c with hsame | ⟨hlow, hhigh, hlower⟩
  · rw [← hsame, h]
  · rw [h] at hlower
    have hspace : ' '.toNat = 32 := rfl
    omega

/-! ## The passes, word by word -/

abbrev IsWord (word : List Char) : Prop := ∀ c ∈ word, isSecretDelimiter c = false

/-- The marker is part of a word. -/
abbrev Plain (marker : Marker) : Prop := IsWord marker.text

theorem space_notMem {word : List Char} (h : IsWord word) : ' ' ∉ word.map Char.toLower := by
  intro hmem
  obtain ⟨c, hc, hspace⟩ := List.mem_map.1 hmem
  obtain rfl := eq_space_of_toLower hspace
  exact absurd (h ' ' hc) (by decide)

theorem notMem_of_plain {text : List Char} (htext : IsWord text) {sep : Char}
    (hsep : isSecretDelimiter sep = true) : Char.toLower sep ∉ text := by
  rw [toLower_of_delimiter hsep]
  intro hmem
  rw [htext sep hmem] at hsep
  cases hsep

section Values

variable {word text : List Char} {sep : Char}

theorem value_word (h : IsWord word) :
    word.takeWhile (fun c => !isSecretDelimiter c) = word ∧
      word.dropWhile (fun c => !isSecretDelimiter c) = [] := by
  have hall : ∀ c ∈ word, (!isSecretDelimiter c) = true := fun c hc => by rw [h c hc]; rfl
  exact ⟨List.takeWhile_eq_self_iff.2 hall, List.dropWhile_eq_nil_iff.2 hall⟩

theorem value_more (h : IsWord word) (hsep : isSecretDelimiter sep = true) :
    (word ++ sep :: text).takeWhile (fun c => !isSecretDelimiter c) = word ∧
      (word ++ sep :: text).dropWhile (fun c => !isSecretDelimiter c) = sep :: text := by
  have hall : ∀ c ∈ word, (!isSecretDelimiter c) = true := fun c hc => by rw [h c hc]; rfl
  rw [List.takeWhile_append_of_pos hall, List.dropWhile_append_of_pos hall,
    List.takeWhile_cons_of_neg (by rw [hsep]; decide),
    List.dropWhile_cons_of_neg (by rw [hsep]; decide), List.append_nil]
  exact ⟨rfl, rfl⟩

end Values

theorem isWord_of_all {word : List Char} (h : (word.all fun c => !isSecretDelimiter c) = true) :
    IsWord word := by
  intro c hc
  exact Bool.not_eq_true' _ ▸ List.all_eq_true.1 h c hc

theorem isWord_redacted : IsWord redacted := isWord_of_all (by decide)

theorem isWord_hide (value : List Char) : IsWord (hide value) := by
  unfold hide
  split
  · exact List.forall_mem_nil _
  · exact isWord_redacted

section Pass

variable {marker : Marker} {input text shown rest word : List Char} {sep : Char}

theorem redactMarker_none (h : cutAfter Char.toLower marker.text input = none) :
    redactMarker marker input = input := by
  rw [redactMarker]
  split
  next => rfl
  next hcut => rw [h] at hcut; cases hcut

theorem redactMarker_some (h : cutAfter Char.toLower marker.text input = some (shown, rest)) :
    redactMarker marker input =
      shown ++ hide (rest.takeWhile fun c => !isSecretDelimiter c) ++
        redactMarker marker (rest.dropWhile fun c => !isSecretDelimiter c) := by
  rw [redactMarker]
  split
  next hcut => rw [h] at hcut; cases hcut
  next hcut =>
    rw [h] at hcut
    cases hcut
    rfl

theorem redactMarker_keep
    (h : cutAfter Char.toLower marker.text (word ++ sep :: text) =
      (cutAfter Char.toLower marker.text text).map fun (shown, rest) =>
        (word ++ sep :: shown, rest)) :
    redactMarker marker (word ++ sep :: text) = word ++ sep :: redactMarker marker text := by
  cases hcut : cutAfter Char.toLower marker.text text with
  | none =>
    rw [hcut] at h
    rw [redactMarker_none h, redactMarker_none hcut]
  | some parts =>
    obtain ⟨shown, rest⟩ := parts
    rw [hcut] at h
    rw [redactMarker_some h, redactMarker_some hcut]
    simp only [List.append_assoc, List.cons_append]

/-- What a pass makes of a word. -/
def cutWord (marker : Marker) (word : List Char) : List Char :=
  match cutAfter Char.toLower marker.text word with
  | none => word
  | some (shown, rest) => shown ++ hide rest

theorem isWord_cutWord (marker : Marker) (h : IsWord word) : IsWord (cutWord marker word) := by
  unfold cutWord
  split
  next => exact h
  next shown rest hcut =>
    rw [← append_of_cutAfter hcut] at h
    intro c hc
    rcases List.mem_append.1 hc with hshown | hhide
    · exact h c (List.mem_append_left rest hshown)
    · exact isWord_hide rest c hhide

theorem redactMarker_word (h : IsWord word) : redactMarker marker word = cutWord marker word := by
  unfold cutWord
  split
  next hcut => exact redactMarker_none hcut
  next shown rest hcut =>
    rw [← append_of_cutAfter hcut] at h
    have hrest : IsWord rest := fun c hc => h c (List.mem_append_right shown hc)
    rw [redactMarker_some hcut, (value_word hrest).1, (value_word hrest).2, redactMarker_none rfl,
      List.append_nil]

theorem redactMarker_other (hplain : Plain marker) (hsep : isSecretDelimiter sep = true)
    (h : cutAfter Char.toLower marker.text word = none) :
    redactMarker marker (word ++ sep :: text) = word ++ sep :: redactMarker marker text :=
  redactMarker_keep (cutAfter_other marker.nonempty (notMem_of_plain hplain hsep) h)

theorem redactMarker_more (hplain : Plain marker) (hword : IsWord word)
    (hsep : isSecretDelimiter sep = true) :
    redactMarker marker (word ++ sep :: text) =
      cutWord marker word ++ sep :: redactMarker marker text := by
  unfold cutWord
  split
  next hcut => exact redactMarker_other hplain hsep hcut
  next shown rest hcut =>
    rw [← append_of_cutAfter hcut] at hword
    have hrest : IsWord rest := fun c hc => hword c (List.mem_append_right shown hc)
    have hnil : redactMarker marker (sep :: text) = sep :: redactMarker marker text :=
      redactMarker_other hplain hsep (rfl : cutAfter Char.toLower marker.text [] = none)
    rw [redactMarker_some (cutAfter_word (notMem_of_plain hplain hsep) hcut),
      (value_more hrest hsep).1, (value_more hrest hsep).2, hnil]

theorem redactMarker_join (hplain : Plain marker) {words : Words Char}
    (h : words.Proper isSecretDelimiter) :
    redactMarker marker words.join = (words.map (cutWord marker)).join := by
  induction words with
  | last word => exact redactMarker_word h
  | more word sep words ih =>
    rw [Words.join, redactMarker_more hplain h.1 h.2.1, ih h.2.2]
    rfl

end Pass

/-! ## The `bearer ` pass -/

/-- The part of the marker that is in a word. -/
def bearerWord : List Char := "bearer".toList

theorem bearer_text : bearer.text = bearerWord ++ [' '] := by decide

theorem isWord_bearerWord : IsWord bearerWord := isWord_of_all (by decide)

/-- The word ends with `bearer`. -/
def endsWithBearer (word : List Char) : Bool := bearerWord <:+ word.map Char.toLower

/-- The pass on words: a word is hidden when there is a `bearer ` right before it that was not
hidden itself. -/
def hideBearer : Bool → Words Char → Words Char
  | hidden, .last word => .last (if hidden then hide word else word)
  | hidden, .more word sep rest =>
    .more (if hidden then hide word else word) sep
      (hideBearer (!hidden && endsWithBearer word && sep == ' ') rest)

/-- What the pass makes of the text behind a `bearer `. -/
def redactValue (text : List Char) : List Char :=
  hide (text.takeWhile fun c => !isSecretDelimiter c) ++
    redactMarker bearer (text.dropWhile fun c => !isSecretDelimiter c)

theorem redactBearer_word {word : List Char} (h : IsWord word) :
    redactMarker bearer word = word := by
  refine redactMarker_none ?_
  rw [bearer_text]
  exact cutAfter_last (space_notMem h)

theorem redactBearer_more {word text : List Char} {sep : Char} (hword : IsWord word)
    (hsep : isSecretDelimiter sep = true) :
    redactMarker bearer (word ++ sep :: text) =
      word ++ sep :: (if endsWithBearer word && sep == ' ' then redactValue text
        else redactMarker bearer text) := by
  have hcut : cutAfter Char.toLower (bearerWord ++ [' ']) (word ++ sep :: text) = _ :=
    cutAfter_ending (notMem_of_plain isWord_bearerWord hsep) (space_notMem hword)
  rw [← bearer_text, toLower_of_delimiter hsep] at hcut
  by_cases h : bearerWord <:+ word.map Char.toLower ∧ sep = ' '
  · have hends : (endsWithBearer word && sep == ' ') = true := by
      rw [Bool.and_eq_true, beq_iff_eq]
      exact ⟨decide_eq_true h.1, h.2⟩
    rw [if_pos h] at hcut
    rw [redactMarker_some hcut, if_pos hends, List.append_assoc, List.append_assoc]
    rfl
  · have hends : ¬ (endsWithBearer word && sep == ' ') = true := by
      rw [Bool.and_eq_true, beq_iff_eq]
      exact fun hboth => h ⟨of_decide_eq_true hboth.1, hboth.2⟩
    rw [if_neg h] at hcut
    rw [if_neg hends]
    exact redactMarker_keep hcut

/-- The pass on words, at the start of a text and behind a `bearer `. -/
theorem redactBearer_join (hidden : Bool) {words : Words Char}
    (h : words.Proper isSecretDelimiter) :
    (if hidden then redactValue words.join else redactMarker bearer words.join) =
      (hideBearer hidden words).join := by
  induction words generalizing hidden with
  | last word =>
    cases hidden with
    | false => exact redactBearer_word h
    | true =>
      show redactValue word = hide word
      rw [redactValue, (value_word h).1, (value_word h).2, redactMarker_none rfl,
        List.append_nil]
  | more word sep words ih =>
    obtain ⟨hword, hsep, hwords⟩ := h
    cases hidden with
    | false =>
      show redactMarker bearer (word ++ sep :: words.join) =
        word ++ sep :: (hideBearer (endsWithBearer word && sep == ' ') words).join
      rw [redactBearer_more hword hsep, ih _ hwords]
    | true =>
      show redactValue (word ++ sep :: words.join) =
        hide word ++ sep :: (hideBearer false words).join
      have hnil : redactMarker bearer (sep :: words.join) =
          sep :: redactMarker bearer words.join :=
        redactBearer_more (List.forall_mem_nil _) hsep
      rw [redactValue, (value_more hword hsep).1, (value_more hword hsep).2, hnil,
        ← ih false hwords]
      rfl

theorem proper_hideBearer {hidden : Bool} {words : Words Char}
    (h : words.Proper isSecretDelimiter) :
    (hideBearer hidden words).Proper isSecretDelimiter := by
  have hone (hidden : Bool) {word : List Char} (hword : IsWord word) :
      IsWord (if hidden then hide word else word) := by
    split
    · exact isWord_hide word
    · exact hword
  induction words generalizing hidden with
  | last word => exact hone hidden h
  | more word sep words ih => exact ⟨hone hidden h.1, h.2.1, ih h.2.2⟩

/-! ## All passes -/

/-- The markers of the passes behind the one for `bearer `. -/
def laterMarkers : List Marker := [token, secret, password, apiKey, apikey]

/-- The markers that are part of a word. -/
def plainMarkers : List Marker := authorization :: laterMarkers

theorem plain_of_mem {marker : Marker} (h : marker ∈ plainMarkers) : Plain marker := by
  simp only [plainMarkers, laterMarkers, List.mem_cons, List.not_mem_nil, or_false] at h
  rcases h with rfl | rfl | rfl | rfl | rfl | rfl
  all_goals exact isWord_of_all (by decide)

theorem mem_markers {marker : Marker} (h : marker ∈ markers) :
    marker = bearer ∨ marker ∈ plainMarkers := by
  rcases List.mem_cons.1 h with heq | hrest
  · exact .inr (List.mem_cons.2 (.inl heq))
  · rcases List.mem_cons.1 hrest with heq | hlater
    · exact .inl heq
    · exact .inr (List.mem_cons_of_mem _ hlater)

/-- What some passes make of a word. -/
def cutWords (passes : List Marker) (word : List Char) : List Char :=
  passes.foldl (fun word marker => cutWord marker word) word

theorem redactMarkers_plain {passes : List Marker} (hplain : ∀ marker ∈ passes, Plain marker)
    {words : Words Char} (h : words.Proper isSecretDelimiter) :
    passes.foldl (fun output marker => redactMarker marker output) words.join =
      (words.map (cutWords passes)).join := by
  induction passes generalizing words with
  | nil => exact congrArg Words.join (Words.map_id words).symm
  | cons marker passes ih =>
    rw [List.foldl_cons, redactMarker_join (hplain marker List.mem_cons_self) h,
      ih (fun m hm => hplain m (List.mem_cons_of_mem _ hm))
        (Words.proper_map (fun _ => isWord_cutWord marker) h), Words.map_map]
    rfl

/-- What all passes make of the words of a text. -/
def redactWords (hidden : Bool) (words : Words Char) : Words Char :=
  (hideBearer hidden (words.map (cutWord authorization))).map (cutWords laterMarkers)

theorem redactMarkers_join {words : Words Char} (h : words.Proper isSecretDelimiter) :
    redactMarkers words.join = (redactWords false words).join := by
  have hfirst := redactMarker_join (plain_of_mem List.mem_cons_self) h
  have hproper : (words.map (cutWord authorization)).Proper isSecretDelimiter :=
    Words.proper_map (fun _ => isWord_cutWord authorization) h
  show laterMarkers.foldl (fun output marker => redactMarker marker output)
    (redactMarker bearer (redactMarker authorization words.join)) = _
  have hbearer := redactBearer_join false hproper
  rw [if_neg Bool.false_ne_true] at hbearer
  rw [hfirst, hbearer, redactMarkers_plain
    (fun m hm => plain_of_mem (List.mem_cons_of_mem _ hm)) (proper_hideBearer hproper)]
  rfl

/-! ## The characters that are left -/

section Left

variable {marker : Marker} {word p : List Char} {c : Char}

/-- The marker is somewhere in the text. -/
abbrev Occurs (marker : Marker) (text : List Char) : Prop := marker.text <:+: text.map Char.toLower

theorem mem_iff_concat : c ∈ word ↔ ∃ p, p ++ [c] <+: word := by
  constructor
  · intro h
    obtain ⟨p, rest, rfl⟩ := List.append_of_mem h
    exact ⟨p, rest, by rw [List.append_assoc]; rfl⟩
  · intro h
    obtain ⟨p, hp⟩ := h
    exact mem_of_concat hp

theorem notMem_hide (hc : c ∉ redacted) (value : List Char) : c ∉ hide value := by
  unfold hide
  split
  · exact List.not_mem_nil
  · exact hc

theorem prefix_of_hide {shown : List Char} (hc : c ∉ redacted) (rest : List Char) :
    p ++ [c] <+: shown ++ hide rest ↔ p ++ [c] <+: shown := by
  rw [concat_prefix_append]
  refine or_iff_left fun h => ?_
  obtain ⟨q, -, hq⟩ := h
  exact notMem_hide hc rest (mem_of_concat hq)

/-- A pass leaves the characters up to the end of the marker. -/
theorem prefix_cutWord (hc : c ∉ redacted) :
    p ++ [c] <+: cutWord marker word ↔ p ++ [c] <+: word ∧ ¬ Occurs marker p := by
  unfold cutWord
  split
  next hcut =>
    refine (and_iff_left_of_imp fun h hoccurs => ?_).symm
    refine not_infix_of_cutAfter marker.nonempty hcut (hoccurs.trans ?_)
    exact (((List.prefix_append p [c]).trans h).map Char.toLower).isInfix
  next shown rest hcut =>
    have hword := append_of_cutAfter hcut
    have hp (h : p ++ [c] <+: word) := infix_iff_of_cutAfter marker.nonempty hcut
      ((List.prefix_append p [c]).trans h)
    rw [prefix_of_hide hc]
    constructor
    · intro h
      have hstart : p ++ [c] <+: word := h.trans ⟨rest, hword⟩
      refine ⟨hstart, fun hoccurs => ?_⟩
      have hlength := (h.trans ((hp hstart).1 hoccurs)).length_le
      rw [List.length_append, List.length_singleton] at hlength
      omega
    · intro h
      by_contra hnot
      refine h.2 ((hp h.1).2 (List.prefix_of_prefix_length_le ⟨rest, hword⟩
        ((List.prefix_append p [c]).trans h.1) ?_))
      by_contra hlength
      refine hnot (List.prefix_of_prefix_length_le h.1 ⟨rest, hword⟩ ?_)
      rw [List.length_append, List.length_singleton]
      omega

theorem prefix_cutWords (hc : c ∉ redacted) (passes : List Marker) :
    p ++ [c] <+: cutWords passes word ↔
      p ++ [c] <+: word ∧ ∀ marker ∈ passes, ¬ Occurs marker p := by
  induction passes generalizing word with
  | nil => exact (and_iff_left (List.forall_mem_nil _)).symm
  | cons marker passes ih =>
    rw [List.forall_mem_cons, ← and_assoc, ← prefix_cutWord hc]
    exact ih

end Left

/-! ## Places in a text -/

/-- Where the text in front of a character leads: whether the word that the character is in stands
right behind a `bearer ` that is not hidden itself, and that word up to the character. -/
structure Place where
  hidden : Bool
  word : List Char

/-- A `bearer ` hides the word behind it if it is not hidden, and no `authorization:` in its own word
takes it away. -/
def Place.next (place : Place) (c : Char) : Place :=
  if isSecretDelimiter c then
    ⟨!place.hidden && endsWithBearer place.word && !decide (Occurs authorization place.word) &&
      c == ' ', []⟩
  else ⟨place.hidden, place.word ++ [c]⟩

def placeAfter (place : Place) (text : List Char) : Place := text.foldl Place.next place

/-- The place of a character that is left. -/
structure Exposed (place : Place) : Prop where
  shown : place.hidden = false
  word : ∀ marker ∈ plainMarkers, ¬ Occurs marker place.word

theorem placeAfter_append (place : Place) (first second : List Char) :
    placeAfter place (first ++ second) = placeAfter (placeAfter place first) second :=
  List.foldl_append

theorem placeAfter_word {word : List Char} (h : IsWord word) (place : Place) :
    placeAfter place word = ⟨place.hidden, place.word ++ word⟩ := by
  induction word generalizing place with
  | nil => rw [List.append_nil]; rfl
  | cons c word ih =>
    have hnext : place.next c = ⟨place.hidden, place.word ++ [c]⟩ := by
      rw [Place.next, h c List.mem_cons_self, if_neg Bool.false_ne_true]
    show placeAfter (place.next c) word = _
    rw [ih (fun d hd => h d (List.mem_cons_of_mem c hd)), hnext, List.append_assoc,
      List.singleton_append]

theorem placeAfter_more {word : List Char} {sep : Char} (hword : IsWord word)
    (hsep : isSecretDelimiter sep = true) (hidden : Bool) (text : List Char) :
    placeAfter ⟨hidden, []⟩ (word ++ sep :: text) =
      placeAfter ⟨!hidden && endsWithBearer word && !decide (Occurs authorization word) &&
        sep == ' ', []⟩ text := by
  rw [placeAfter_append, placeAfter_word hword, List.nil_append]
  show placeAfter (Place.next ⟨hidden, word⟩ sep) text = _
  rw [Place.next, if_pos hsep]

theorem getLast?_of_suffix {tail text : List Char} {x : Char} (h : tail <:+ text)
    (hx : tail.getLast? = some x) : text.getLast? = some x := by
  obtain ⟨before, rfl⟩ := h
  rw [List.getLast?_append, hx, Option.some_or]

/-- A word in which `authorization:` is no longer ends with `bearer`. -/
theorem endsWithBearer_cutWord (word : List Char) :
    endsWithBearer (cutWord authorization word) =
      (endsWithBearer word && !decide (Occurs authorization word)) := by
  unfold cutWord
  split
  next hcut =>
    have hnone := not_infix_of_cutAfter authorization.nonempty hcut
    rw [decide_eq_false hnone, Bool.not_false, Bool.and_true]
  next shown rest hcut =>
    have hoccurs : Occurs authorization word :=
      (infix_iff_of_cutAfter authorization.nonempty hcut List.prefix_rfl).2
        ⟨rest, append_of_cutAfter hcut⟩
    rw [decide_eq_true hoccurs, Bool.not_true, Bool.and_false]
    -- The word now ends with the marker or with what is put in the place of its value.
    refine decide_eq_false fun hbearer => ?_
    have hr := getLast?_of_suffix hbearer (x := 'r') (by decide)
    unfold hide at hr
    split at hr
    · rw [List.append_nil, getLast?_of_suffix (suffix_of_cutAfter hcut) (x := ':')
        (by decide)] at hr
      exact absurd hr (by decide)
    · rw [List.map_append, getLast?_of_suffix (List.suffix_append _ _) (x := ']')
        (by decide)] at hr
      exact absurd hr (by decide)

/-- What all passes make of one word. -/
def redactWord (hidden : Bool) (word : List Char) : List Char :=
  cutWords laterMarkers (if hidden then hide (cutWord authorization word)
    else cutWord authorization word)

theorem redactWords_more (hidden : Bool) (word : List Char) (sep : Char) (rest : Words Char) :
    redactWords hidden (.more word sep rest) =
      .more (redactWord hidden word) sep
        (redactWords (!hidden && endsWithBearer word && !decide (Occurs authorization word) &&
          sep == ' ') rest) := by
  rw [Bool.and_assoc !hidden, ← endsWithBearer_cutWord]
  rfl

variable {c : Char}

theorem mem_redactWord (hc : c ∉ redacted) {word : List Char} (hword : IsWord word)
    (hidden : Bool) :
    c ∈ redactWord hidden word ↔
      ∃ p, p ++ [c] <+: word ∧ Exposed (placeAfter ⟨hidden, []⟩ p) := by
  rw [mem_iff_concat]
  refine exists_congr fun p => ?_
  rw [redactWord, prefix_cutWords hc]
  cases hidden with
  | true =>
    constructor
    · intro h
      exact absurd (mem_of_concat h.1) (notMem_hide hc _)
    · intro h
      have hp : IsWord p := fun d hd => hword d (h.1.mem (List.mem_append_left [c] hd))
      have hshown := h.2.shown
      rw [placeAfter_word hp] at hshown
      cases hshown
  | false =>
    have hplain : (∀ marker ∈ plainMarkers, ¬ Occurs marker p) ↔
        ¬ Occurs authorization p ∧ ∀ marker ∈ laterMarkers, ¬ Occurs marker p :=
      List.forall_mem_cons
    rw [if_neg Bool.false_ne_true, prefix_cutWord hc, and_assoc, ← hplain]
    refine and_congr_right fun hstart => ?_
    have hp : IsWord p := fun d hd => hword d (hstart.mem (List.mem_append_left [c] hd))
    rw [placeAfter_word hp, List.nil_append]
    exact ⟨fun h => ⟨rfl, h⟩, fun h => h.word⟩

theorem prefix_more {p word text : List Char} {sep : Char} (hsep : c ≠ sep) :
    p ++ [c] <+: word ++ sep :: text ↔
      p ++ [c] <+: word ∨ ∃ q, p = word ++ sep :: q ∧ q ++ [c] <+: text := by
  rw [concat_prefix_append]
  refine or_congr_right ⟨fun h => ?_, fun h => ?_⟩
  · obtain ⟨more, rfl, hmore⟩ := h
    cases more with
    | nil => exact absurd (List.cons_prefix_cons.1 hmore).1 hsep
    | cons d q =>
      obtain ⟨rfl, hq⟩ := List.cons_prefix_cons.1 hmore
      exact ⟨q, rfl, hq⟩
  · obtain ⟨q, rfl, hq⟩ := h
    exact ⟨sep :: q, rfl, List.cons_prefix_cons.2 ⟨rfl, hq⟩⟩

theorem mem_redactWords (hc : c ∉ redacted) (hdelimiter : isSecretDelimiter c = false)
    (hidden : Bool) {words : Words Char} (h : words.Proper isSecretDelimiter) :
    c ∈ (redactWords hidden words).join ↔
      ∃ p, p ++ [c] <+: words.join ∧ Exposed (placeAfter ⟨hidden, []⟩ p) := by
  induction words generalizing hidden with
  | last word => exact mem_redactWord hc h hidden
  | more word sep words ih =>
    obtain ⟨hword, hsep, hwords⟩ := h
    have hne : c ≠ sep := by
      intro heq
      rw [heq, hsep] at hdelimiter
      cases hdelimiter
    rw [redactWords_more, Words.join, List.mem_append, List.mem_cons, or_iff_right hne,
      mem_redactWord hc hword, ih _ hwords, Words.join]
    constructor
    · intro h
      rcases h with ⟨p, hp, hexposed⟩ | ⟨q, hq, hexposed⟩
      · exact ⟨p, (prefix_more hne).2 (.inl hp), hexposed⟩
      · refine ⟨word ++ sep :: q, (prefix_more hne).2 (.inr ⟨q, rfl, hq⟩), ?_⟩
        rwa [placeAfter_more hword hsep]
    · intro h
      obtain ⟨p, hp, hexposed⟩ := h
      rcases (prefix_more hne).1 hp with hfirst | ⟨q, rfl, hq⟩
      · exact .inl ⟨p, hfirst, hexposed⟩
      · rw [placeAfter_more hword hsep] at hexposed
        exact .inr ⟨q, hq, hexposed⟩

def placeBehind (text : List Char) : Place := placeAfter ⟨false, []⟩ text

/-- **What is left of a text** are the characters at exposed places, and what is put in the place of
values. -/
theorem mem_redactMarkers (hc : c ∉ redacted) (hdelimiter : isSecretDelimiter c = false)
    (text : List Char) :
    c ∈ redactMarkers text ↔ ∃ p, p ++ [c] <+: text ∧ Exposed (placeBehind p) := by
  have hproper := Words.proper_ofList isSecretDelimiter text
  have hjoin := Words.join_ofList isSecretDelimiter text
  have hmem := mem_redactWords hc hdelimiter false hproper
  rw [← redactMarkers_join hproper, hjoin] at hmem
  exact hmem

/-! ## Limits -/

theorem prefix_floorCharBoundary (text : List Char) (index : Nat) :
    floorCharBoundary text index <+: text := by
  induction text generalizing index with
  | nil => exact List.nil_prefix
  | cons c text ih =>
    unfold floorCharBoundary
    split
    · exact List.cons_prefix_cons.2 ⟨rfl, ih _⟩
    · exact List.nil_prefix

theorem len_cons (c : Char) (text : List Char) : len (c :: text) = c.utf8Size + len text := by
  rw [len, utf8, List.flatMap_cons, List.length_append, String.length_utf8EncodeChar]
  rfl

theorem floorCharBoundary_all {text : List Char} {index : Nat} (h : len text ≤ index) :
    floorCharBoundary text index = text := by
  induction text generalizing index with
  | nil => rfl
  | cons c text ih =>
    rw [len_cons] at h
    rw [floorCharBoundary, if_pos (by omega), ih (by omega)]

theorem mem_truncateText {value : List Char} {maxBytes : Nat} {wasTruncated : Bool}
    (hc : c ∉ truncated) (h : c ∈ truncateText value maxBytes wasTruncated) : c ∈ value := by
  unfold truncateText at h
  split at h
  · exact h
  · rcases List.mem_append.1 h with hvalue | hsign
    · exact (prefix_floorCharBoundary value _).mem hvalue
    · exact absurd hsign hc

theorem redactTextWithLimit_large {text : List Char} {maxBytes : Nat} (htext : len text ≤ maxBytes)
    (hresult : len (redactMarkers text) ≤ maxBytes) :
    redactTextWithLimit text maxBytes = redactMarkers text := by
  have hscanned : floorCharBoundary text
      (min (max maxBytes (len truncated) + 1024) (len text)) = text :=
    floorCharBoundary_all (by omega)
  have hkept : ¬ decide (len text < len text) = true ∧
      len (redactMarkers text) ≤ max maxBytes (len truncated) :=
    ⟨by simp, by omega⟩
  unfold redactTextWithLimit
  simp only [hscanned]
  exact if_pos hkept

theorem mem_redactMarker {marker : Marker} (hc : c ∉ redacted) {text : List Char}
    (h : c ∈ redactMarker marker text) : c ∈ text := by
  induction text using redactMarker.induct marker with
  | case1 text hcut =>
    rwa [redactMarker_none hcut] at h
  | case2 text shown rest hcut ih =>
    rw [redactMarker_some hcut, List.append_assoc, List.mem_append, List.mem_append,
      or_iff_right (notMem_hide hc _)] at h
    rw [← append_of_cutAfter hcut, List.mem_append]
    exact h.imp_right fun hrest => (List.dropWhile_suffix _).mem (ih hrest)

theorem mem_of_mem_redactMarkers (hc : c ∉ redacted) {text : List Char}
    (h : c ∈ redactMarkers text) : c ∈ text := by
  have hpasses (passes : List Marker) (text : List Char)
      (h : c ∈ passes.foldl (fun output marker => redactMarker marker output) text) : c ∈ text := by
    induction passes generalizing text with
    | nil => exact h
    | cons marker passes ih => exact mem_redactMarker hc (ih _ h)
  exact hpasses markers text h

/-! ## What is redacted -/

/-- Nothing is left of the values behind the markers: a character of the text that is only in such a
value, and in nothing that redaction adds, is not in the result. -/
def Redacts (text : List Char) (maxBytes : Nat) : Prop :=
  ∀ marker ∈ markers, ∀ before found value behind, text = before ++ found ++ value ++ behind →
    found.map Char.toLower = marker.text → value ≠ [] → IsWord value →
    ∀ c, c ∉ before ++ found ++ behind → c ∉ redacted → c ∉ truncated →
      c ∉ redactTextWithLimit text maxBytes

/-- A `bearer ` with a value that the pass passes over: `authorization:` is in the word that ends with
`bearer`, or that word is itself the value of a `bearer `. In the value there is a character that is
nowhere else, and no other marker in front of it. -/
def Exposes (text : List Char) : Prop :=
  ∃ before found shown c rest behind, text = before ++ found ++ (shown ++ c :: rest) ++ behind ∧
    found.map Char.toLower = bearer.text ∧ IsWord (shown ++ c :: rest) ∧
    (placeBehind (before ++ found)).hidden = false ∧
    (∀ marker ∈ plainMarkers, ¬ Occurs marker shown) ∧
    c ∉ before ++ found ++ behind ∧ c ∉ redacted ∧ c ∉ truncated

theorem prefix_of_only {p first value behind : List Char} (hfirst : c ∉ first) (hbehind : c ∉ behind)
    (h : p ++ [c] <+: first ++ value ++ behind) :
    ∃ shown rest, value = shown ++ c :: rest ∧ p = first ++ shown := by
  rcases concat_prefix_append.1 h with h | ⟨q, -, hq⟩
  · rcases concat_prefix_append.1 h with h | ⟨shown, rfl, rest, rfl⟩
    · exact absurd (mem_of_concat h) hfirst
    · exact ⟨shown, rest, by rw [List.append_assoc]; rfl, rfl⟩
  · exact absurd (mem_of_concat hq) hbehind

theorem isWord_of_lower {found : List Char} (h : IsWord (found.map Char.toLower)) : IsWord found := by
  intro d hd
  by_contra hdelimiter
  rw [Bool.not_eq_false] at hdelimiter
  have hlower := h d.toLower (List.mem_map_of_mem hd)
  rw [toLower_of_delimiter hdelimiter, hdelimiter] at hlower
  cases hlower

theorem not_exposed_plain {marker : Marker} (hmarker : marker ∈ plainMarkers)
    {before found shown : List Char} (hfound : found.map Char.toLower = marker.text)
    (hshown : IsWord shown) : ¬ Exposed (placeBehind (before ++ found ++ shown)) := by
  intro h
  have hword : IsWord found := isWord_of_lower (hfound ▸ plain_of_mem hmarker)
  refine h.word marker hmarker ?_
  rw [placeBehind, placeAfter_append, placeAfter_append, placeAfter_word hword,
    placeAfter_word hshown]
  refine ⟨((placeAfter ⟨false, []⟩ before).word).map Char.toLower, shown.map Char.toLower, ?_⟩
  simp only [List.map_append, hfound]

/-- The places in the value of a `bearer `. -/
theorem exposed_bearer {before found shown : List Char}
    (hfound : found.map Char.toLower = bearer.text) (hshown : IsWord shown) :
    Exposed (placeBehind (before ++ found ++ shown)) ↔
      (placeBehind (before ++ found)).hidden = false ∧
        ∀ marker ∈ plainMarkers, ¬ Occurs marker shown := by
  have hempty : (placeBehind (before ++ found)).word = [] := by
    rw [bearer_text] at hfound
    obtain ⟨name, space, rfl, -, hspace⟩ := List.map_eq_append_iff.1 hfound
    obtain ⟨c, rfl, hc⟩ := List.map_eq_singleton_iff.1 hspace
    obtain rfl := eq_space_of_toLower hc
    rw [placeBehind, ← List.append_assoc, placeAfter_append]
    rfl
  have hplace : placeBehind (before ++ found ++ shown) =
      ⟨(placeBehind (before ++ found)).hidden, shown⟩ := by
    rw [placeBehind, placeAfter_append, placeAfter_word hshown]
    show Place.mk _ ((placeBehind (before ++ found)).word ++ shown) = _
    rw [hempty]
    rfl
  rw [hplace]
  exact ⟨fun h => ⟨h.shown, h.word⟩, fun h => ⟨h.1, h.2⟩⟩

/-- **Redaction** hides every marked value, whatever the limit, but for a `bearer ` that it passes
over. -/
theorem redacts_iff (text : List Char) : (∀ maxBytes, Redacts text maxBytes) ↔ ¬ Exposes text := by
  constructor
  · intro h hexposes
    obtain ⟨before, found, shown, c, rest, behind, htext, hfound, hword, hhidden, hmarkers, honly,
      hredacted, htruncated⟩ := hexposes
    have hlarge : redactTextWithLimit text (len text + len (redactMarkers text)) =
        redactMarkers text := redactTextWithLimit_large (by omega) (by omega)
    have hshown : IsWord shown := fun d hd => hword d (List.mem_append_left _ hd)
    refine h (len text + len (redactMarkers text)) bearer (by simp [markers]) before found
      (shown ++ c :: rest) behind htext hfound (by simp) hword c honly hredacted htruncated ?_
    rw [hlarge, mem_redactMarkers hredacted (hword c (by simp))]
    refine ⟨before ++ found ++ shown, ⟨rest ++ behind, ?_⟩,
      (exposed_bearer hfound hshown).2 ⟨hhidden, hmarkers⟩⟩
    rw [htext]
    simp only [List.append_assoc, List.cons_append, List.nil_append]
  · intro hexposes maxBytes marker hmarker before found value behind htext hfound hvalue hword c honly
      hredacted htruncated hleft
    refine hexposes ?_
    -- The character is left by the passes over the part of the text that is scanned.
    have hpasses := mem_truncateText htruncated hleft
    have hscanned := prefix_floorCharBoundary text
      (min (max maxBytes (len truncated) + 1024) (len text))
    have hmem : c ∈ before ++ found ++ value ++ behind :=
      htext ▸ hscanned.mem (mem_of_mem_redactMarkers hredacted hpasses)
    have hnot := honly
    rw [List.mem_append, not_or] at hnot
    rw [List.mem_append, or_iff_left hnot.2, List.mem_append, or_iff_right hnot.1] at hmem
    obtain ⟨p, hp, hexposed⟩ := (mem_redactMarkers hredacted (hword c hmem) _).1 hpasses
    obtain ⟨shown, rest, rfl, rfl⟩ := prefix_of_only hnot.1 hnot.2 (htext ▸ hp.trans hscanned)
    have hshown : IsWord shown := fun d hd => hword d (List.mem_append_left _ hd)
    rcases mem_markers hmarker with rfl | hplain
    · obtain ⟨hhidden, hmarkers⟩ := (exposed_bearer hfound hshown).1 hexposed
      exact ⟨before, found, shown, c, rest, behind, htext, hfound, hword, hhidden, hmarkers, honly,
        hredacted, htruncated⟩
    · exact absurd hexposed (not_exposed_plain hplain hfound hshown)

/-- In `authorization:bearer s3` the value of the first marker takes the second one away. -/
theorem bearer_taken_away : ¬ ∀ text maxBytes, Redacts text maxBytes := by
  intro h
  refine h "authorization:bearer s3".toList 8192 bearer (by simp [markers])
    "authorization:".toList "bearer ".toList "s3".toList [] (by decide) (by decide)
    (by decide) (isWord_of_all (by decide)) '3' ?_ ?_ ?_ ?_
  all_goals decide +kernel

end AppCore.Redaction
