import AppCore.Core.RedactionProof

/-!
# Redaction in one scan

The passes of `redact_text_with_limit` show together what one scan of the text shows (`shown`): a
character at an exposed place is copied, and of a marked value there is only `[REDACTED]`.

* `redactMarkers_eq_shown` — the passes are the scan.
-/

namespace AppCore.Redaction

/-! ## The scan -/

instance (place : Place) : Decidable (Exposed place) :=
  decidable_of_iff
    (place.hidden = false ∧ ∀ marker ∈ plainMarkers, ¬ Occurs marker place.word)
    ⟨fun h => ⟨h.1, h.2⟩, fun h => ⟨h.shown, h.word⟩⟩

/-- A value that is not shown begins here. -/
def Opens (place : Place) : Prop :=
  ¬ Exposed place ∧ (place.word = [] ∨ Exposed ⟨place.hidden, place.word.dropLast⟩)

instance (place : Place) : Decidable (Opens place) :=
  inferInstanceAs (Decidable (_ ∧ _))

/-- What is shown of a character. -/
def emit (place : Place) (c : Char) : List Char :=
  if isSecretDelimiter c ∨ Exposed place then [c] else if Opens place then redacted else []

def scan (place : Place) : List Char → List Char
  | [] => []
  | c :: text => emit place c ++ scan (place.next c) text

/-- The place in front of a text. -/
def start : Place := ⟨false, []⟩

def shown (text : List Char) : List Char := scan start text

theorem scan_append (place : Place) (first second : List Char) :
    scan place (first ++ second) = scan place first ++ scan (placeAfter place first) second := by
  induction first generalizing place with
  | nil => rfl
  | cons c first ih =>
    rw [List.cons_append, scan, scan, ih, List.append_assoc]
    rfl

section Places

variable {place : Place} {c : Char}

theorem next_delimiter (h : isSecretDelimiter c = true) :
    place.next c = ⟨!place.hidden && endsWithBearer place.word &&
      !decide (Occurs authorization place.word) && c == ' ', []⟩ := if_pos h

theorem next_word (h : isSecretDelimiter c = false) :
    place.next c = ⟨place.hidden, place.word ++ [c]⟩ :=
  if_neg (by rw [h]; exact Bool.false_ne_true)

theorem emit_delimiter (h : isSecretDelimiter c = true) : emit place c = [c] :=
  if_pos (Or.inl h)

theorem emit_exposed (h : Exposed place) : emit place c = [c] := if_pos (Or.inr h)

theorem emit_hidden (hplace : ¬ Exposed place) (h : isSecretDelimiter c = false) :
    emit place c = if Opens place then redacted else [] := by
  refine if_neg ?_
  rw [not_or, h]
  exact ⟨Bool.false_ne_true, hplace⟩

theorem exposed_or_opens_start (hidden : Bool) : Exposed ⟨hidden, []⟩ ∨ Opens ⟨hidden, []⟩ := by
  by_cases h : Exposed ⟨hidden, []⟩
  · exact Or.inl h
  · exact Or.inr ⟨h, Or.inl rfl⟩

theorem exposed_start : Exposed ⟨false, []⟩ where
  shown := rfl
  word marker _ hoccurs := marker.nonempty (List.infix_nil.1 hoccurs)

theorem opens_covered : Opens ⟨true, []⟩ := ⟨fun h => Bool.noConfusion h.shown, Or.inl rfl⟩

theorem occurs_append {marker : Marker} {word : List Char} (h : Occurs marker word)
    (more : List Char) : Occurs marker (word ++ more) := by
  rw [Occurs, List.map_append]
  exact h.trans (List.prefix_append _ _).isInfix

theorem exposed_of_append {hidden : Bool} {word more : List Char}
    (h : Exposed ⟨hidden, word ++ more⟩) : Exposed ⟨hidden, word⟩ where
  shown := h.shown
  word marker hmarker hoccurs := h.word marker hmarker (occurs_append hoccurs more)

theorem not_exposed_next (hplace : ¬ Exposed place) (h : isSecretDelimiter c = false) :
    ¬ Exposed (place.next c) := by
  rw [next_word h]
  exact fun hnext => hplace (exposed_of_append hnext)

theorem opens_next_iff (h : isSecretDelimiter c = false) :
    Opens (place.next c) ↔ ¬ Exposed (place.next c) ∧ Exposed place := by
  rw [Opens, next_word h]
  refine and_congr_right fun _ => ?_
  rw [or_iff_right (by simp), List.dropLast_concat]

end Places

section Word

variable {place : Place} {word : List Char}

theorem scan_exposed (h : ∀ p c, p ++ [c] <+: word → Exposed (placeAfter place p)) :
    scan place word = word := by
  induction word generalizing place with
  | nil => rfl
  | cons c word ih =>
    have hfirst : Exposed place := h [] c (List.cons_prefix_cons.2 ⟨rfl, List.nil_prefix⟩)
    have hrest : scan (place.next c) word = word := ih fun p d hp =>
      h (c :: p) d (List.cons_prefix_cons.2 ⟨rfl, hp⟩)
    rw [scan, emit_exposed hfirst, hrest]
    rfl

theorem scan_hidden (hexposed : ¬ Exposed place) (hopens : ¬ Opens place) (hword : IsWord word) :
    scan place word = [] := by
  induction word generalizing place with
  | nil => rfl
  | cons c word ih =>
    obtain ⟨hc, hword⟩ := List.forall_mem_cons.1 hword
    have hnext : ¬ Opens (place.next c) := by
      rw [opens_next_iff hc]
      exact fun h => hexposed h.2
    rw [scan, emit_hidden hexposed hc, if_neg hopens, ih (not_exposed_next hexposed hc) hnext hword]
    rfl

theorem scan_opens (hopens : Opens place) (hword : IsWord word) : scan place word = hide word := by
  cases word with
  | nil => rfl
  | cons c word =>
    obtain ⟨hc, hword⟩ := List.forall_mem_cons.1 hword
    have hnext : ¬ Opens (place.next c) := by
      rw [opens_next_iff hc]
      exact fun h => hopens.1 h.2
    rw [scan, emit_hidden hopens.1 hc, if_pos hopens,
      scan_hidden (not_exposed_next hopens.1 hc) hnext hword, List.append_nil]
    exact (if_neg (List.cons_ne_nil c word)).symm

end Word

/-! ## The passes are the scan -/

/-- The last letter of no marker is in the text. -/
def Clear (text : List Char) (passes : List Marker) : Prop :=
  ∀ marker ∈ passes, ∃ b, marker.text.getLast? = some b ∧ b ∉ text.map Char.toLower

variable {text : List Char}

theorem clear_plainMarkers (hcolon : ':' ∉ text.map Char.toLower)
    (hequals : '=' ∉ text.map Char.toLower) : Clear text plainMarkers := by
  intro marker h
  simp only [plainMarkers, laterMarkers, List.mem_cons, List.not_mem_nil, or_false] at h
  rcases h with rfl | rfl | rfl | rfl | rfl | rfl
  · exact ⟨':', by decide, hcolon⟩
  all_goals exact ⟨'=', by decide, hequals⟩

theorem clear_redacted : Clear redacted plainMarkers :=
  clear_plainMarkers (by decide) (by decide)

variable {passes : List Marker}

theorem Clear.mono {text part : List Char} (h : Clear text passes) (hpart : part ⊆ text) :
    Clear part passes := by
  intro marker hmarker
  obtain ⟨b, hlast, hb⟩ := h marker hmarker
  exact ⟨b, hlast, fun hmem => hb (List.map_subset Char.toLower hpart hmem)⟩

variable {b : Char}

theorem occurs_append_iff {marker : Marker} (hlast : marker.text.getLast? = some b)
    (hb : b ∉ text.map Char.toLower) (word : List Char) :
    Occurs marker (word ++ text) ↔ Occurs marker word := by
  induction text using List.reverseRecOn with
  | nil => rw [List.append_nil]
  | append_singleton text c ih =>
    rw [List.map_append, List.mem_append, not_or] at hb
    rw [← List.append_assoc, Occurs, List.map_append, List.map_singleton, List.infix_concat_iff,
      or_iff_right]
    · exact ih hb.1
    · intro hsuffix
      have hletter := getLast?_of_suffix hsuffix hlast
      rw [List.getLast?_concat] at hletter
      cases hletter
      exact hb.2 List.mem_cons_self

theorem exposed_append_iff (htext : Clear text plainMarkers) (hidden : Bool) (word : List Char) :
    Exposed ⟨hidden, word ++ text⟩ ↔ Exposed ⟨hidden, word⟩ := by
  refine ⟨exposed_of_append, fun h => ⟨h.shown, fun marker hmarker => ?_⟩⟩
  obtain ⟨b, hlast, hb⟩ := htext marker hmarker
  show ¬ Occurs marker (word ++ text)
  rw [occurs_append_iff hlast hb]
  exact h.word marker hmarker

theorem notMem_map_hide (hb : b ∉ redacted.map Char.toLower) (value : List Char) :
    b ∉ (hide value).map Char.toLower := by
  unfold hide
  split
  · exact List.not_mem_nil
  · exact hb

theorem hide_append_eq (first second : List Char) :
    hide (first ++ hide second) = hide (first ++ second) := by
  have hnil : hide second = [] ↔ second = [] := by
    unfold hide
    split
    next h => exact iff_of_true rfl h
    next h => exact iff_of_false (by decide) h
  have hboth : first ++ hide second = [] ↔ first ++ second = [] := by
    rw [List.append_eq_nil_iff, List.append_eq_nil_iff, hnil]
  exact if_congr hboth rfl rfl

/-- The part of a word up to the end of its first marker, as the passes find it. -/
structure FirstMarked (passes : List Marker) (front : List Char) : Prop where
  marked : ∃ marker ∈ passes, Occurs marker front
  first : ∀ p c, p ++ [c] <+: front → ∀ marker ∈ passes, ¬ Occurs marker p

variable {front : List Char}

/-- A marker ends with the last letter, and it is none of what takes the place of a value. -/
theorem FirstMarked.lastLetter (hclear : Clear redacted passes) (h : FirstMarked passes front) :
    ∃ p c, front = p ++ [c] ∧ (∃ marker ∈ passes, marker.text <:+ (p ++ [c]).map Char.toLower) ∧
      c.toLower ∉ redacted.map Char.toLower := by
  obtain ⟨marker, hmarker, hoccurs⟩ := h.marked
  rcases List.eq_nil_or_concat' front with rfl | ⟨p, c, rfl⟩
  · exact absurd (List.infix_nil.1 hoccurs) marker.nonempty
  · have hbefore := h.first p c List.prefix_rfl marker hmarker
    have hsuffix : marker.text <:+ (p ++ [c]).map Char.toLower := by
      rw [Occurs, List.map_append, List.map_singleton, List.infix_concat_iff,
        or_iff_left hbefore] at hoccurs
      rwa [List.map_append]
    obtain ⟨b, hlast, hb⟩ := hclear marker hmarker
    have hletter := getLast?_of_suffix hsuffix hlast
    rw [List.map_append, List.map_singleton, List.getLast?_concat] at hletter
    cases hletter
    exact ⟨p, c, rfl, ⟨marker, hmarker, hsuffix⟩, hb⟩

/-- The passes together cut a word behind its first marker. -/
theorem cutWords_cases (hclear : Clear redacted passes) (word : List Char) :
    ((∀ marker ∈ passes, ¬ Occurs marker word) ∧ cutWords passes word = word) ∨
      ∃ front rest, word = front ++ rest ∧ cutWords passes word = front ++ hide rest ∧
        FirstMarked passes front := by
  induction passes generalizing word with
  | nil => exact Or.inl ⟨List.forall_mem_nil _, rfl⟩
  | cons marker passes ih =>
    have hmore := ih (fun m hm => hclear m (List.mem_cons_of_mem _ hm))
    show ((∀ m ∈ marker :: passes, ¬ Occurs m word) ∧ cutWords passes (cutWord marker word) = word) ∨
      ∃ front rest, word = front ++ rest ∧
        cutWords passes (cutWord marker word) = front ++ hide rest ∧ _
    cases hcut : cutAfter Char.toLower marker.text word with
    | none =>
      have hword : cutWord marker word = word := by
        unfold cutWord
        rw [hcut]
      have hnone : ¬ Occurs marker word := not_infix_of_cutAfter marker.nonempty hcut
      rw [hword]
      rcases hmore word with ⟨hother, hresult⟩ | ⟨front, rest, hparts, hresult, hfirst⟩
      · exact Or.inl ⟨List.forall_mem_cons.2 ⟨hnone, hother⟩, hresult⟩
      · refine Or.inr ⟨front, rest, hparts, hresult, ?_, fun p c hp => ?_⟩
        · obtain ⟨m, hm, hoccurs⟩ := hfirst.marked
          exact ⟨m, List.mem_cons_of_mem _ hm, hoccurs⟩
        · refine List.forall_mem_cons.2 ⟨fun hoccurs => hnone ?_, hfirst.first p c hp⟩
          rw [hparts]
          obtain ⟨more, rfl⟩ := (List.prefix_append p [c]).trans hp
          exact occurs_append (occurs_append hoccurs more) rest
    | some parts =>
      obtain ⟨front, rest⟩ := parts
      have hword : cutWord marker word = front ++ hide rest := by
        unfold cutWord
        rw [hcut]
      have hparts := append_of_cutAfter hcut
      -- The marker ends with `front`, and not before.
      have hends {p : List Char} (hp : p <+: front) : Occurs marker p ↔ front <+: p :=
        infix_iff_of_cutAfter marker.nonempty hcut (hp.trans ⟨rest, hparts⟩)
      have hnot {p : List Char} {c : Char} (hp : p ++ [c] <+: front) : ¬ Occurs marker p := by
        intro hoccurs
        have hlength := (hp.trans
          ((hends ((List.prefix_append p [c]).trans hp)).1 hoccurs)).length_le
        rw [List.length_append, List.length_singleton] at hlength
        omega
      rw [hword]
      rcases hmore (front ++ hide rest) with
        ⟨hother, hresult⟩ | ⟨before, behind, hbefore, hresult, hfirst⟩
      · refine Or.inr ⟨front, rest, hparts.symm, hresult,
          ⟨marker, List.mem_cons_self, (hends List.prefix_rfl).2 List.prefix_rfl⟩,
          fun p c hp => List.forall_mem_cons.2 ⟨hnot hp, fun m hm hoccurs => hother m hm ?_⟩⟩
        obtain ⟨more, rfl⟩ := (List.prefix_append p [c]).trans hp
        exact occurs_append (occurs_append hoccurs more) _
      · -- No marker ends in what the first pass puts in the place of the value.
        obtain ⟨p, c, hlast, -, hc⟩ := hfirst.lastLetter fun m hm =>
          hclear m (List.mem_cons_of_mem _ hm)
        have hfront : ∃ more, front = before ++ more ∧ behind = more ++ hide rest := by
          rcases List.append_eq_append_iff.1 hbefore with
            ⟨more, hmore, hhide⟩ | ⟨more, hmore, hhide⟩
          · rcases List.eq_nil_or_concat' more with rfl | ⟨q, d, rfl⟩
            · exact ⟨[], by rw [hmore, List.append_nil, List.append_nil], hhide.symm⟩
            · rw [hlast, ← List.append_assoc] at hmore
              obtain ⟨-, hcd⟩ := List.append_inj' hmore rfl
              cases hcd
              refine absurd (List.mem_map_of_mem ?_) (notMem_map_hide hc rest)
              rw [hhide]
              simp
          · exact ⟨more, hmore, hhide⟩
        obtain ⟨more, rfl, rfl⟩ := hfront
        refine Or.inr ⟨before, more ++ rest, ?_, ?_, ?_, fun p c hp => ?_⟩
        · rw [← hparts, List.append_assoc]
        · rw [hresult, hide_append_eq]
        · obtain ⟨m, hm, hoccurs⟩ := hfirst.marked
          exact ⟨m, List.mem_cons_of_mem _ hm, hoccurs⟩
        · exact List.forall_mem_cons.2
            ⟨hnot (hp.trans (List.prefix_append before more)), hfirst.first p c hp⟩

theorem scan_clear {place : Place} (hplace : Exposed place) (hword : IsWord text)
    (htext : Clear text plainMarkers) : scan place text = text := by
  refine scan_exposed fun p c hp => ?_
  have hstart : p <+: text := (List.prefix_append p [c]).trans hp
  rw [placeAfter_word fun d hd => hword d (hstart.mem hd)]
  exact (exposed_append_iff (htext.mono hstart.subset) _ _).2 hplace

theorem not_exposed_of_marked (h : FirstMarked plainMarkers front) (hidden : Bool) :
    ¬ Exposed ⟨hidden, front⟩ := by
  intro hexposed
  obtain ⟨marker, hmarker, hoccurs⟩ := h.marked
  exact hexposed.word marker hmarker hoccurs

theorem opens_of_marked (h : FirstMarked plainMarkers front) :
    Opens ⟨false, front⟩ := by
  obtain ⟨p, c, rfl, -, -⟩ := h.lastLetter clear_redacted
  refine ⟨not_exposed_of_marked h false, Or.inr ?_⟩
  show Exposed ⟨false, (p ++ [c]).dropLast⟩
  rw [List.dropLast_concat]
  exact ⟨rfl, h.first p c List.prefix_rfl⟩

/-- The passes over a word are the scan of it. -/
theorem redactWord_eq_scan (hidden : Bool) {word : List Char} (hword : IsWord word) :
    redactWord hidden word = scan ⟨hidden, []⟩ word := by
  have hcopied {front : List Char} (hfront : IsWord front)
      (h : ∀ p c, p ++ [c] <+: front → ∀ marker ∈ plainMarkers, ¬ Occurs marker p) :
      scan ⟨false, []⟩ front = front := by
    refine scan_exposed fun p c hp => ?_
    have hstart : IsWord p := fun d hd => hfront d (hp.mem (List.mem_append_left [c] hd))
    rw [placeAfter_word hstart, List.nil_append]
    exact ⟨rfl, h p c hp⟩
  cases hidden with
  | false =>
    show cutWords plainMarkers word = scan ⟨false, []⟩ word
    rcases cutWords_cases clear_redacted word with
      ⟨hnone, hresult⟩ | ⟨front, rest, rfl, hresult, hfirst⟩
    · rw [hresult, hcopied hword]
      intro p c hp marker hmarker hoccurs
      obtain ⟨more, rfl⟩ := (List.prefix_append p [c]).trans hp
      exact hnone marker hmarker (occurs_append hoccurs more)
    · have hfront : IsWord front := fun c hc => hword c (List.mem_append_left rest hc)
      have hrest : IsWord rest := fun c hc => hword c (List.mem_append_right front hc)
      have hopens : Opens (placeAfter ⟨false, []⟩ front) := by
        rw [placeAfter_word hfront]
        exact opens_of_marked hfirst
      rw [hresult, scan_append, hcopied hfront hfirst.first, scan_opens hopens hrest]
  | true =>
    have hcut : hide (cutWord authorization word) = hide word := by
      unfold cutWord
      split
      next => rfl
      next front rest hcut =>
        rw [hide_append_eq, append_of_cutAfter hcut]
    show cutWords laterMarkers (hide (cutWord authorization word)) = scan ⟨true, []⟩ word
    rw [hcut, scan_opens opens_covered hword]
    have hclear : Clear redacted laterMarkers := fun m hm =>
      clear_redacted m (List.mem_cons_of_mem _ hm)
    rcases cutWords_cases hclear (hide word) with ⟨-, hresult⟩ | ⟨front, rest, hparts, -, hfirst⟩
    · exact hresult
    · -- What takes the place of a value has no marker in it.
      obtain ⟨p, c, rfl, -, hc⟩ := hfirst.lastLetter hclear
      refine absurd (List.mem_map_of_mem ?_) (notMem_map_hide hc word)
      rw [hparts]
      simp

theorem redactWords_eq_scan (hidden : Bool) {words : Words Char}
    (h : words.Proper isSecretDelimiter) :
    (redactWords hidden words).join = scan ⟨hidden, []⟩ words.join := by
  induction words generalizing hidden with
  | last word => exact redactWord_eq_scan hidden h
  | more word sep words ih =>
    obtain ⟨hword, hsep, hwords⟩ := h
    rw [redactWords_more, Words.join, Words.join, scan_append, ← redactWord_eq_scan hidden hword,
      ih _ hwords, placeAfter_word hword, scan, emit_delimiter hsep, next_delimiter hsep,
      List.nil_append, List.singleton_append]

/-- **The passes are one scan.** -/
theorem redactMarkers_eq_shown (text : List Char) : redactMarkers text = shown text := by
  have hproper := Words.proper_ofList isSecretDelimiter text
  have hwords := redactWords_eq_scan false hproper
  rw [← redactMarkers_join hproper, Words.join_ofList] at hwords
  exact hwords

/-! ## What is shown is scanned again -/

/-- The places of a text, and those of what is shown of it. -/
inductive Follows : Place → Place → Prop
  /-- No value has begun, or it begins behind a marker that is shown. -/
  | same {place : Place} (h : Exposed place ∨ Opens place) : Follows place place
  /-- The `bearer ` in front of the word is not shown. -/
  | covered : Follows ⟨true, []⟩ ⟨false, []⟩
  /-- In a value: what is shown for it is behind. -/
  | within {place : Place} (hexposed : ¬ Exposed place) (hopens : ¬ Opens place) (hidden : Bool)
      (word : List Char) : Follows place ⟨hidden, word ++ redacted⟩

theorem next_of_ended {hidden : Bool} {word : List Char} {c : Char}
    (hlast : (word.map Char.toLower).getLast? = some b) (hb : b ≠ 'r')
    (hc : isSecretDelimiter c = true) : Place.next ⟨hidden, word⟩ c = start := by
  have hbearer : endsWithBearer word = false := by
    refine decide_eq_false fun h => hb ?_
    rw [getLast?_of_suffix h (x := 'r') (by decide)] at hlast
    exact (Option.some.inj hlast).symm
  rw [next_delimiter hc, hbearer, Bool.and_false, Bool.false_and, Bool.false_and]
  rfl

theorem next_within {hidden : Bool} {word : List Char} {c : Char}
    (hc : isSecretDelimiter c = true) : Place.next ⟨hidden, word ++ redacted⟩ c = start := by
  refine next_of_ended (b := ']') ?_ (by decide) hc
  rw [List.map_append]
  exact getLast?_of_suffix (List.suffix_append _ _) (by decide)

/-- A value begins behind a `bearer `, or behind the first marker of a word. -/
theorem Opens.cases {place : Place} (h : Opens place) :
    place = ⟨true, []⟩ ∨ ∃ front, place = ⟨false, front⟩ ∧ FirstMarked plainMarkers front := by
  obtain ⟨hidden, word⟩ := place
  obtain ⟨hexposed, hbefore⟩ := h
  cases hidden with
  | true =>
    refine Or.inl ?_
    rcases hbefore with rfl | hbefore
    · rfl
    · exact Bool.noConfusion hbefore.shown
  | false =>
    refine Or.inr ⟨word, rfl, ?_, fun p c hp => ?_⟩
    · by_contra hnone
      exact hexposed ⟨rfl, fun marker hmarker hoccurs => hnone ⟨marker, hmarker, hoccurs⟩⟩
    · rcases hbefore with rfl | hbefore
      · exact absurd exposed_start hexposed
      · have hlast : p <+: word.dropLast := by
          obtain ⟨rest, rfl⟩ := hp
          rw [List.append_assoc, List.dropLast_append_of_ne_nil (by simp)]
          exact List.prefix_append _ _
        obtain ⟨more, hmore⟩ := hlast
        rw [← hmore] at hbefore
        exact (exposed_of_append hbefore).word

theorem next_of_opens {place : Place} {c : Char} (h : Opens place)
    (hc : isSecretDelimiter c = true) : place.next c = start := by
  rcases h.cases with rfl | ⟨front, rfl, hfirst⟩
  · rw [next_delimiter hc]
    rfl
  · obtain ⟨p, d, rfl, -, hd⟩ := hfirst.lastLetter clear_redacted
    refine next_of_ended (b := d.toLower) ?_ (fun hr => hd ?_) hc
    · rw [List.map_append, List.map_singleton, List.getLast?_concat]
    · rw [hr]
      decide

/-- One character of a text, and what is shown of it. -/
theorem Follows.step {place place' : Place} (h : Follows place place') (c : Char) :
    scan place' (emit place c) = emit place c ∧
      Follows (place.next c) (placeAfter place' (emit place c)) := by
  have hstart (hidden : Bool) : Follows ⟨hidden, []⟩ start := by
    cases hidden with
    | false => exact .same (Or.inl exposed_start)
    | true => exact .covered
  by_cases hc : isSecretDelimiter c = true
  · rw [emit_delimiter hc]
    refine ⟨by rw [scan, emit_delimiter hc]; rfl, ?_⟩
    show Follows (place.next c) (place'.next c)
    cases h with
    | same h =>
      rw [next_delimiter hc]
      exact .same (exposed_or_opens_start _)
    | covered =>
      rw [next_delimiter hc, next_delimiter hc]
      exact hstart false
    | within hexposed hopens hidden word =>
      rw [next_within hc, next_delimiter hc]
      exact hstart _
  · rw [Bool.not_eq_true] at hc
    -- A value that begins is within it behind what takes its place.
    have hwithin (hopens : Opens place) (hidden : Bool) (word : List Char) :
        Follows (place.next c) (placeAfter ⟨hidden, word⟩ redacted) := by
      rw [placeAfter_word isWord_redacted]
      refine .within (not_exposed_next hopens.1 hc) (fun hnext => ?_) hidden word
      exact hopens.1 ((opens_next_iff hc).1 hnext).2
    cases h with
    | same h =>
      rcases h with hexposed | hopens
      · rw [emit_exposed hexposed]
        refine ⟨by rw [scan, emit_exposed hexposed]; rfl, .same ?_⟩
        by_cases hnext : Exposed (place.next c)
        · exact Or.inl hnext
        · exact Or.inr ((opens_next_iff hc).2 ⟨hnext, hexposed⟩)
      · rw [emit_hidden hopens.1 hc, if_pos hopens, scan_opens hopens isWord_redacted]
        exact ⟨rfl, hwithin hopens place.hidden place.word⟩
    | covered =>
      rw [emit_hidden opens_covered.1 hc, if_pos opens_covered]
      exact ⟨scan_clear exposed_start isWord_redacted clear_redacted, hwithin opens_covered false []⟩
    | within hexposed hopens hidden word =>
      rw [emit_hidden hexposed hc, if_neg hopens]
      refine ⟨rfl, .within (not_exposed_next hexposed hc) (fun hnext => ?_) hidden word⟩
      exact hexposed ((opens_next_iff hc).1 hnext).2

theorem Follows.run {place place' : Place} (h : Follows place place') (text : List Char) :
    scan place' (scan place text) = scan place text ∧
      Follows (placeAfter place text) (placeAfter place' (scan place text)) := by
  induction text generalizing place place' with
  | nil => exact ⟨rfl, h⟩
  | cons c text ih =>
    obtain ⟨hstep, hnext⟩ := h.step c
    obtain ⟨hrest, hlast⟩ := ih hnext
    rw [scan, scan_append, hstep, hrest, placeAfter_append]
    exact ⟨rfl, hlast⟩

theorem follows_start : Follows start start := .same (Or.inl exposed_start)

/-- **What is shown is shown again as it is.** -/
theorem shown_shown (text : List Char) : shown (shown text) = shown text :=
  (follows_start.run text).1

theorem Follows.eq_of_exposed {place place' : Place} (h : Follows place place')
    (hexposed : Exposed place) : place' = place := by
  cases h with
  | same h => rfl
  | covered => exact absurd hexposed opens_covered.1
  | within hnot hopens hidden word => exact absurd hexposed hnot

/-- In a value the place in what is shown stays as it is. -/
theorem Follows.exposed_step {place place' : Place} (h : Follows place place')
    (hexposed : ¬ Exposed place) (c : Char) :
    Exposed (placeAfter place' (emit place c)) ↔ isSecretDelimiter c = true ∨ Exposed place' := by
  by_cases hc : isSecretDelimiter c = true
  · have hnext : place'.next c = start := by
      cases h with
      | same h => exact next_of_opens (h.resolve_left hexposed) hc
      | covered => exact next_delimiter hc
      | within hexposed hopens hidden word => exact next_within hc
    rw [emit_delimiter hc]
    refine iff_of_true ?_ (Or.inl hc)
    show Exposed (place'.next c)
    rw [hnext]
    exact exposed_start
  · rw [or_iff_right hc]
    rw [Bool.not_eq_true] at hc
    have hshown : Exposed (placeAfter place' redacted) ↔ Exposed place' := by
      rw [placeAfter_word isWord_redacted]
      exact exposed_append_iff clear_redacted _ _
    rw [emit_hidden hexposed hc]
    cases h with
    | same h => rwa [if_pos (h.resolve_left hexposed)]
    | covered => rwa [if_pos opens_covered]
    | within hexposed hopens hidden word =>
      rw [if_neg hopens]
      rfl

/-! ## Texts that end with a marker -/

/-- The text ends with a marker that is shown, and with nothing but a part of its value behind. -/
def EndsMarked (text : List Char) : Prop :=
  ∃ marker ∈ markers, ∃ before found value, text = before ++ found ++ value ∧
    found.map Char.toLower = marker.text ∧ Exposed (placeBehind (before ++ found.dropLast)) ∧
    IsWord value

theorem placeBehind_concat (text : List Char) (c : Char) :
    placeBehind (text ++ [c]) = (placeBehind text).next c := placeAfter_append _ _ _

theorem endsMarked_concat (text : List Char) (c : Char) :
    EndsMarked (text ++ [c]) ↔
      (isSecretDelimiter c = false ∧ EndsMarked text) ∨
        (Exposed (placeBehind text) ∧
          ∃ marker ∈ markers, marker.text <:+ (text ++ [c]).map Char.toLower) := by
  constructor
  · intro h
    obtain ⟨marker, hmarker, before, found, value, htext, hfound, hexposed, hvalue⟩ := h
    rcases List.eq_nil_or_concat' value with rfl | ⟨value, d, rfl⟩
    · refine Or.inr ⟨?_, marker, hmarker, ?_⟩
      · rcases List.eq_nil_or_concat' found with rfl | ⟨front, d, rfl⟩
        · exact absurd hfound.symm marker.nonempty
        · rw [List.append_nil, ← List.append_assoc] at htext
          obtain ⟨rfl, -⟩ := List.append_inj' htext rfl
          rwa [List.dropLast_concat] at hexposed
      · rw [htext, List.append_nil, List.map_append, hfound]
        exact List.suffix_append _ _
    · rw [← List.append_assoc] at htext
      obtain ⟨rfl, hd⟩ := List.append_inj' htext rfl
      cases hd
      exact Or.inl ⟨hvalue c (by simp), marker, hmarker, before, found, value, rfl, hfound, hexposed,
        fun x hx => hvalue x (List.mem_append_left [c] hx)⟩
  · intro h
    rcases h with ⟨hc, marker, hmarker, before, found, value, rfl, hfound, hexposed, hvalue⟩ |
      ⟨hexposed, marker, hmarker, hsuffix⟩
    · refine ⟨marker, hmarker, before, found, value ++ [c], by simp only [List.append_assoc], hfound,
        hexposed, fun x hx => ?_⟩
      rcases List.mem_append.1 hx with hx | hx
      · exact hvalue x hx
      · exact List.mem_singleton.1 hx ▸ hc
    · obtain ⟨front, hfront⟩ := hsuffix
      obtain ⟨before, found, htext, -, hfound⟩ := List.map_eq_append_iff.1 hfront.symm
      refine ⟨marker, hmarker, before, found, [], by rw [htext, List.append_nil], hfound, ?_,
        List.forall_mem_nil _⟩
      rcases List.eq_nil_or_concat' found with rfl | ⟨found, d, rfl⟩
      · exact absurd hfound.symm marker.nonempty
      · rw [← List.append_assoc] at htext
        obtain ⟨rfl, -⟩ := List.append_inj' htext rfl
        rwa [List.dropLast_concat]

/-- A pattern without delimiters ends a text where it ends its last word. -/
theorem suffix_lastWord (text : List Char) {pattern : List Char} (hpattern : IsWord pattern) :
    pattern <:+ text.map Char.toLower ↔
      pattern <:+ (placeBehind text).word.map Char.toLower := by
  induction text using List.reverseRecOn generalizing pattern with
  | nil => exact Iff.rfl
  | append_singleton text c ih =>
    rw [placeBehind_concat, List.map_append, List.map_singleton, List.suffix_concat_iff]
    by_cases hc : isSecretDelimiter c = true
    · rw [next_delimiter hc, List.map_nil, List.suffix_nil, or_iff_left_iff_imp]
      rintro ⟨front, rfl, -⟩
      rw [toLower_of_delimiter hc] at hpattern
      rw [hpattern c (by simp)] at hc
      cases hc
    · rw [Bool.not_eq_true] at hc
      rw [next_word hc, List.map_append, List.map_singleton, List.suffix_concat_iff]
      refine or_congr_right (exists_congr fun front => and_congr_right fun hfront => ih ?_)
      exact fun d hd => hpattern d (hfront ▸ List.mem_append_left _ hd)

theorem mem_markers_of_plain {marker : Marker} (h : marker ∈ plainMarkers) : marker ∈ markers := by
  rcases List.mem_cons.1 h with rfl | hlater
  · exact List.mem_cons_self
  · exact List.mem_cons_of_mem _ (List.mem_cons_of_mem _ hlater)

/-- A value begins behind a character that ends a marker. -/
theorem not_exposed_concat (h : Exposed (placeBehind text)) (c : Char) :
    ¬ Exposed (placeBehind (text ++ [c])) ↔
      ∃ marker ∈ markers, marker.text <:+ (text ++ [c]).map Char.toLower := by
  have hword {marker : Marker} (hmarker : marker ∈ plainMarkers) :
      marker.text <:+ (text ++ [c]).map Char.toLower ↔
        marker.text <:+ ((placeBehind text).next c).word.map Char.toLower := by
    rw [suffix_lastWord (text ++ [c]) (plain_of_mem hmarker), placeBehind_concat]
  rw [placeBehind_concat]
  constructor
  · intro hnext
    by_cases hc : isSecretDelimiter c = true
    · rw [next_delimiter hc] at hnext
      have hbearer : (!(placeBehind text).hidden && endsWithBearer (placeBehind text).word &&
          !decide (Occurs authorization (placeBehind text).word) && c == ' ') = true := by
        by_contra hnot
        rw [Bool.not_eq_true] at hnot
        rw [hnot] at hnext
        exact hnext exposed_start
      simp only [Bool.and_eq_true, beq_iff_eq] at hbearer
      obtain ⟨⟨⟨-, hends⟩, -⟩, rfl⟩ := hbearer
      obtain ⟨front, hfront⟩ :=
        (suffix_lastWord text isWord_bearerWord).2 (of_decide_eq_true hends)
      refine ⟨bearer, by simp [markers], front, ?_⟩
      rw [bearer_text, List.map_append, ← hfront, List.append_assoc]
      rfl
    · rw [Bool.not_eq_true] at hc
      rw [next_word hc] at hnext
      by_contra hnone
      refine hnext ⟨h.shown, fun marker hmarker hoccurs =>
        hnone ⟨marker, mem_markers_of_plain hmarker, (hword hmarker).2 ?_⟩⟩
      rw [Occurs, List.map_append, List.map_singleton, List.infix_concat_iff,
        or_iff_left (h.word marker hmarker)] at hoccurs
      rwa [next_word hc, List.map_append]
  · rintro ⟨marker, hmarker, hsuffix⟩ hnext
    rcases mem_markers hmarker with rfl | hplain
    · obtain ⟨front, hfront⟩ := hsuffix
      rw [bearer_text, List.map_append, ← List.append_assoc] at hfront
      obtain ⟨hbefore, hspace⟩ := List.append_inj' hfront rfl
      obtain rfl := eq_space_of_toLower (List.cons.inj hspace).1.symm
      have hends : endsWithBearer (placeBehind text).word = true :=
        decide_eq_true ((suffix_lastWord text isWord_bearerWord).1 ⟨front, hbefore⟩)
      have hhidden := hnext.shown
      rw [next_delimiter (by decide), h.shown, hends,
        decide_eq_false (h.word authorization List.mem_cons_self)] at hhidden
      cases hhidden
    · exact hnext.word marker hplain ((hword hplain).1 hsuffix).isInfix

/-- **Which texts end with a marker that is shown**: what is shown of them ends at a hidden place. -/
theorem endsMarked_iff (text : List Char) :
    EndsMarked text ↔ ¬ Exposed (placeBehind (shown text)) := by
  induction text using List.reverseRecOn with
  | nil =>
    refine iff_of_false ?_ (not_not_intro exposed_start)
    rintro ⟨marker, -, before, found, value, hnil, hfound, -⟩
    rw [List.append_assoc, eq_comm, List.append_eq_nil_iff, List.append_eq_nil_iff] at hnil
    rw [hnil.2.1] at hfound
    exact marker.nonempty hfound.symm
  | append_singleton text c ih =>
    have hfollows : Follows (placeBehind text) (placeBehind (shown text)) :=
      (follows_start.run text).2
    have hshown : placeBehind (shown (text ++ [c])) =
        placeAfter (placeBehind (shown text)) (emit (placeBehind text) c) := by
      rw [shown, scan_append, placeBehind, placeAfter_append, scan, scan, List.append_nil]
      rfl
    rw [endsMarked_concat, hshown]
    by_cases hexposed : Exposed (placeBehind text)
    · have hsame := hfollows.eq_of_exposed hexposed
      rw [hsame, emit_exposed hexposed, or_iff_right fun hmarked => ih.1 hmarked.2 (hsame ▸ hexposed),
        and_iff_right hexposed, ← not_exposed_concat hexposed, placeBehind_concat]
      rfl
    · rw [hfollows.exposed_step hexposed, not_or, ih, Bool.not_eq_true,
        or_iff_left fun hmarked => hexposed hmarked.1]

end AppCore.Redaction
