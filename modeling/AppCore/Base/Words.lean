import Mathlib.Data.List.Infix
import Mathlib.Tactic.Common

/-!
# Words, and patterns in them

A text is made of words with a separator between any two (`Words`). A pattern is searched in it up to
a map `fold` on its letters, such as lower case (`cutAfter`).

* `Words.ofList` — every text is made of words.
-/

namespace AppCore

variable {α β : Type}

/-! ## Words -/

inductive Words (α : Type) where
  | last (word : List α)
  | more (word : List α) (sep : α) (rest : Words α)

namespace Words

def join : Words α → List α
  | last word => word
  | more word sep rest => word ++ sep :: rest.join

def map (f : List α → List α) : Words α → Words α
  | last word => last (f word)
  | more word sep rest => more (f word) sep (rest.map f)

/-- The words have no separators in them, and what stands between them are separators. -/
def Proper (isSep : α → Bool) : Words α → Prop
  | last word => ∀ x ∈ word, isSep x = false
  | more word sep rest =>
    (∀ x ∈ word, isSep x = false) ∧ isSep sep = true ∧ rest.Proper isSep

/-- Another letter in front of the first word. -/
def consHead (x : α) : Words α → Words α
  | last word => last (x :: word)
  | more word sep rest => more (x :: word) sep rest

/-- The words of a text. -/
def ofList (isSep : α → Bool) : List α → Words α
  | [] => last []
  | x :: xs => if isSep x then more [] x (ofList isSep xs) else (ofList isSep xs).consHead x

theorem join_consHead (x : α) (words : Words α) : (words.consHead x).join = x :: words.join := by
  cases words with
  | last word => rfl
  | more word sep rest => rfl

theorem proper_consHead {isSep : α → Bool} {x : α} (hx : isSep x = false) {words : Words α}
    (h : words.Proper isSep) : (words.consHead x).Proper isSep := by
  cases words with
  | last word => exact List.forall_mem_cons.2 ⟨hx, h⟩
  | more word sep rest => exact ⟨List.forall_mem_cons.2 ⟨hx, h.1⟩, h.2⟩

theorem join_ofList (isSep : α → Bool) (text : List α) : (ofList isSep text).join = text := by
  induction text with
  | nil => rfl
  | cons x text ih =>
    unfold ofList
    split
    · rw [join, ih, List.nil_append]
    · rw [join_consHead, ih]

theorem proper_ofList (isSep : α → Bool) (text : List α) : (ofList isSep text).Proper isSep := by
  induction text with
  | nil => exact List.forall_mem_nil _
  | cons x text ih =>
    unfold ofList
    split
    next hx => exact ⟨List.forall_mem_nil _, hx, ih⟩
    next hx => exact proper_consHead (Bool.not_eq_true _ ▸ hx) ih

theorem map_id (words : Words α) : words.map (fun word => word) = words := by
  induction words with
  | last word => rfl
  | more word sep rest ih => rw [map, ih]

theorem map_map (f g : List α → List α) (words : Words α) :
    (words.map f).map g = words.map fun word => g (f word) := by
  induction words with
  | last word => rfl
  | more word sep rest ih => rw [map, map, map, ih]

theorem proper_map {isSep : α → Bool} {f : List α → List α}
    (hf : ∀ word, (∀ x ∈ word, isSep x = false) → ∀ x ∈ f word, isSep x = false) {words : Words α}
    (h : words.Proper isSep) : (words.map f).Proper isSep := by
  induction words with
  | last word => exact hf word h
  | more word sep rest ih => exact ⟨hf word h.1, h.2.1, ih h.2.2⟩

end Words

/-! ## Search -/

/-- A letter of a text is in its first part, or in its second. -/
theorem concat_prefix_append {p first second : List α} {x : α} :
    p ++ [x] <+: first ++ second ↔
      p ++ [x] <+: first ∨ ∃ q, p = first ++ q ∧ q ++ [x] <+: second := by
  constructor
  · intro h
    by_cases hlength : (p ++ [x]).length ≤ first.length
    · exact .inl (List.prefix_of_prefix_length_le h (List.prefix_append first _) hlength)
    · right
      have hfirst : first <+: p := by
        refine List.prefix_of_prefix_length_le (List.prefix_append first _)
          ((List.prefix_append p [x]).trans h) ?_
        rw [List.length_append, List.length_singleton] at hlength
        omega
      obtain ⟨q, rfl⟩ := hfirst
      rw [List.append_assoc, List.prefix_append_right_inj] at h
      exact ⟨q, rfl, h⟩
  · intro h
    rcases h with h | ⟨q, rfl, hq⟩
    · exact h.trans (List.prefix_append first _)
    · rw [List.append_assoc]
      exact (List.prefix_append_right_inj _).2 hq

theorem mem_of_concat {p text : List α} {x : α} (h : p ++ [x] <+: text) : x ∈ text :=
  h.mem (List.mem_append_right p List.mem_cons_self)

/-- A pattern without the letter `b` ends before it. -/
theorem prefix_of_notMem {pattern first second : List β} {b : β} (hb : b ∉ pattern)
    (h : pattern <+: first ++ b :: second) : pattern <+: first := by
  induction first generalizing pattern with
  | nil =>
    cases pattern with
    | nil => exact List.nil_prefix
    | cons c pattern =>
      obtain ⟨rfl, -⟩ := List.cons_prefix_cons.1 h
      exact absurd List.mem_cons_self hb
  | cons c first ih =>
    cases pattern with
    | nil => exact List.nil_prefix
    | cons d pattern =>
      obtain ⟨rfl, hrest⟩ := List.cons_prefix_cons.1 h
      rw [List.mem_cons, not_or] at hb
      exact List.cons_prefix_cons.2 ⟨rfl, ih hb.2 hrest⟩

section Search

variable [DecidableEq β] (fold : α → β) (pattern : List β)

def startsWith (text : List α) : Bool := (text.take pattern.length).map fold = pattern

/-- The text up to the end of the first occurrence of the pattern, and what is behind it. -/
def cutAfter : List α → Option (List α × List α)
  | [] => none
  | x :: xs =>
    if startsWith fold pattern (x :: xs) then
      some ((x :: xs).take pattern.length, (x :: xs).drop pattern.length)
    else (cutAfter xs).map fun (shown, rest) => (x :: shown, rest)

variable {fold pattern} {text shown rest word : List α}

theorem startsWith_iff : startsWith fold pattern text = true ↔ pattern <+: text.map fold := by
  rw [startsWith, decide_eq_true_iff, List.prefix_iff_eq_take, List.map_take]
  exact eq_comm

theorem append_of_cutAfter (h : cutAfter fold pattern text = some (shown, rest)) :
    shown ++ rest = text := by
  induction text generalizing shown rest with
  | nil => cases h
  | cons x text ih =>
    rw [cutAfter] at h
    split at h
    · cases h
      exact List.take_append_drop _ _
    · obtain ⟨⟨shown, rest⟩, hcut, heq⟩ := Option.map_eq_some_iff.1 h
      cases heq
      rw [List.cons_append, ih hcut]

theorem suffix_of_cutAfter (h : cutAfter fold pattern text = some (shown, rest)) :
    pattern <:+ shown.map fold := by
  induction text generalizing shown rest with
  | nil => cases h
  | cons x text ih =>
    rw [cutAfter] at h
    split at h
    next hstarts =>
      cases h
      rw [startsWith, decide_eq_true_iff] at hstarts
      rw [hstarts]
    next =>
      obtain ⟨⟨shown, rest⟩, hcut, heq⟩ := Option.map_eq_some_iff.1 h
      cases heq
      exact (ih hcut).trans (List.suffix_cons _ _)

theorem ne_nil_of_cutAfter (hpattern : pattern ≠ [])
    (h : cutAfter fold pattern text = some (shown, rest)) : shown ≠ [] := by
  intro hnil
  subst hnil
  exact hpattern (List.suffix_nil.1 (suffix_of_cutAfter h))

theorem length_of_cutAfter (hpattern : pattern ≠ [])
    (h : cutAfter fold pattern text = some (shown, rest)) : rest.length < text.length := by
  rw [← append_of_cutAfter h, List.length_append]
  have hpos := List.length_pos_iff.2 (ne_nil_of_cutAfter hpattern h)
  omega

/-- The pattern is found where its first occurrence ends. -/
theorem infix_iff_of_cutAfter (hpattern : pattern ≠ [])
    (h : cutAfter fold pattern text = some (shown, rest)) {p : List α} (hp : p <+: text) :
    pattern <:+: p.map fold ↔ shown <+: p := by
  constructor
  · intro hinfix
    induction text generalizing shown rest p with
    | nil => cases h
    | cons x text ih =>
      rw [cutAfter] at h
      split at h
      · cases h
        refine (List.prefix_of_prefix_length_le (List.take_prefix _ _) hp ?_)
        have hlength := hinfix.length_le
        rw [List.length_map] at hlength
        exact (List.length_take_le _ _).trans hlength
      next hstarts =>
        obtain ⟨⟨shown, rest⟩, hcut, heq⟩ := Option.map_eq_some_iff.1 h
        cases heq
        cases p with
        | nil => exact absurd (List.infix_nil.1 hinfix) hpattern
        | cons y p =>
          obtain ⟨rfl, hrest⟩ := List.cons_prefix_cons.1 hp
          rw [List.map_cons, List.infix_cons_iff] at hinfix
          rcases hinfix with hstart | hinfix
          · exact absurd (startsWith_iff.2 (hstart.trans (hp.map fold))) hstarts
          · exact List.cons_prefix_cons.2 ⟨rfl, ih hcut hrest hinfix⟩
  · intro hshown
    exact (suffix_of_cutAfter h).isInfix.trans (hshown.map fold).isInfix

theorem not_infix_of_cutAfter (hpattern : pattern ≠ []) (h : cutAfter fold pattern text = none) :
    ¬ pattern <:+: text.map fold := by
  induction text with
  | nil => exact fun hinfix => hpattern (List.infix_nil.1 hinfix)
  | cons x text ih =>
    rw [cutAfter] at h
    split at h
    · cases h
    next hstarts =>
      rw [List.map_cons, List.infix_cons_iff, not_or]
      exact ⟨fun hstart => hstarts (startsWith_iff.2 hstart), ih (Option.map_eq_none_iff.1 h)⟩

/-! ### In a word, and at its end -/

variable {sep : α}

theorem startsWith_word (word text : List α) (hsep : fold sep ∉ pattern) :
    startsWith fold pattern (word ++ sep :: text) = startsWith fold pattern word := by
  rw [Bool.eq_iff_iff, startsWith_iff, startsWith_iff, List.map_append, List.map_cons]
  exact ⟨prefix_of_notMem hsep, fun h => h.trans (List.prefix_append _ _)⟩

theorem cutAfter_word (hsep : fold sep ∉ pattern)
    (h : cutAfter fold pattern word = some (shown, rest)) :
    cutAfter fold pattern (word ++ sep :: text) = some (shown, rest ++ sep :: text) := by
  induction word generalizing shown rest with
  | nil => cases h
  | cons x word ih =>
    have hstarts : startsWith fold pattern (x :: (word ++ sep :: text)) =
        startsWith fold pattern (x :: word) := startsWith_word (x :: word) text hsep
    rw [List.cons_append]
    rw [cutAfter] at h ⊢
    rw [hstarts]
    split at h
    next hword =>
      cases h
      have hlength : pattern.length ≤ (x :: word).length := by
        rw [startsWith_iff] at hword
        exact hword.length_le.trans_eq (List.length_map fold)
      rw [if_pos hword, ← List.cons_append, List.take_append_of_le_length hlength,
        List.drop_append_of_le_length hlength]
    next hword =>
      obtain ⟨⟨shown, rest⟩, hcut, heq⟩ := Option.map_eq_some_iff.1 h
      cases heq
      rw [if_neg hword, ih hcut]
      rfl

/-- A word in which the pattern is not is kept, with the separator behind it. -/
theorem cutAfter_other (hpattern : pattern ≠ []) (hsep : fold sep ∉ pattern)
    (h : cutAfter fold pattern word = none) :
    cutAfter fold pattern (word ++ sep :: text) =
      (cutAfter fold pattern text).map fun (shown, rest) => (word ++ sep :: shown, rest) := by
  induction word with
  | nil =>
    have hstarts : startsWith fold pattern (sep :: text) = startsWith fold pattern [] :=
      startsWith_word [] text hsep
    have hempty : startsWith fold pattern [] = false := by
      rw [← Bool.not_eq_true, startsWith_iff]
      exact fun hstart => hpattern (List.prefix_nil.1 hstart)
    rw [List.nil_append, cutAfter, hstarts, hempty, if_neg Bool.false_ne_true]
    rfl
  | cons x word ih =>
    have hstarts : startsWith fold pattern (x :: (word ++ sep :: text)) =
        startsWith fold pattern (x :: word) := startsWith_word (x :: word) text hsep
    rw [List.cons_append]
    rw [cutAfter] at h ⊢
    rw [hstarts]
    split at h
    next => cases h
    next hword =>
      rw [if_neg hword, ih (Option.map_eq_none_iff.1 h), Option.map_map]
      rfl

/-- A pattern that ends with a separator starts a text only with a whole word. -/
theorem startsWith_ending {body : List β} {b : β} (hsep : fold sep ∉ body)
    (hword : b ∉ word.map fold) :
    startsWith fold (body ++ [b]) (word ++ sep :: text) = true ↔
      word.map fold = body ∧ fold sep = b := by
  rw [startsWith_iff, List.map_append, List.map_cons]
  constructor
  · intro h
    have hbody : body <+: word.map fold :=
      prefix_of_notMem hsep ((List.prefix_append body [b]).trans h)
    obtain ⟨more, hmore⟩ := hbody
    rw [← hmore, List.append_assoc, List.prefix_append_right_inj] at h
    cases more with
    | nil =>
      rw [List.nil_append, List.cons_prefix_cons] at h
      rw [List.append_nil] at hmore
      exact ⟨hmore.symm, h.1.symm⟩
    | cons c more =>
      rw [List.cons_append, List.cons_prefix_cons] at h
      rw [← hmore, h.1] at hword
      exact absurd (List.mem_append_right body List.mem_cons_self) hword
  · intro h
    obtain ⟨rfl, rfl⟩ := h
    exact (List.prefix_append_right_inj _).2 (List.cons_prefix_cons.2 ⟨rfl, List.nil_prefix⟩)

/-- Such a pattern is found where a word ends with its body and the separator is its last letter. -/
theorem cutAfter_ending {body : List β} {b : β} (hsep : fold sep ∉ body)
    (hword : b ∉ word.map fold) :
    cutAfter fold (body ++ [b]) (word ++ sep :: text) =
      if body <:+ word.map fold ∧ fold sep = b then some (word ++ [sep], text)
      else (cutAfter fold (body ++ [b]) text).map fun (shown, rest) =>
        (word ++ sep :: shown, rest) := by
  have hwhole {word : List α} (hbody : word.map fold = body) (hb : fold sep = b) :
      (word ++ sep :: text).take (body ++ [b]).length = word ++ [sep] ∧
        (word ++ sep :: text).drop (body ++ [b]).length = text := by
    have hlength : (body ++ [b]).length = (word ++ [sep]).length := by
      rw [← hbody, List.length_append, List.length_append, List.length_map]
      rfl
    rw [hlength, List.append_cons word sep text]
    exact ⟨List.take_left, List.drop_left⟩
  induction word with
  | nil =>
    have hstarts : startsWith fold (body ++ [b]) (sep :: text) = true ↔
        ([] : List α).map fold = body ∧ fold sep = b := startsWith_ending hsep hword
    rw [List.nil_append]
    by_cases h : startsWith fold (body ++ [b]) (sep :: text) = true
    · obtain ⟨hbody, hb⟩ := hstarts.1 h
      obtain ⟨htake, hdrop⟩ := hwhole hbody hb
      rw [List.nil_append] at htake hdrop
      rw [cutAfter, if_pos h, htake, hdrop, if_pos ⟨hbody ▸ List.suffix_rfl, hb⟩]
    · have hnot : ¬ (body <:+ ([] : List α).map fold ∧ fold sep = b) := by
        intro hboth
        exact h (hstarts.2 ⟨(List.suffix_nil.1 hboth.1).symm, hboth.2⟩)
      rw [cutAfter, if_neg h, if_neg hnot]
      rfl
  | cons x word ih =>
    have hstarts : startsWith fold (body ++ [b]) (x :: (word ++ sep :: text)) = true ↔
        (x :: word).map fold = body ∧ fold sep = b := startsWith_ending hsep hword
    have hrest : b ∉ word.map fold := fun hmem => hword (List.mem_cons_of_mem _ hmem)
    rw [List.cons_append]
    by_cases h : startsWith fold (body ++ [b]) (x :: (word ++ sep :: text)) = true
    · obtain ⟨hbody, hb⟩ := hstarts.1 h
      obtain ⟨htake, hdrop⟩ := hwhole hbody hb
      rw [List.cons_append] at htake hdrop
      rw [cutAfter, if_pos h, htake, hdrop, if_pos ⟨hbody ▸ List.suffix_rfl, hb⟩]
    · have hsuffix : (body <:+ (x :: word).map fold ∧ fold sep = b) ↔
          (body <:+ word.map fold ∧ fold sep = b) := by
        rw [List.map_cons, List.suffix_cons_iff]
        refine and_congr_left fun hb => or_iff_right fun hbody => ?_
        exact h (hstarts.2 ⟨hbody.symm, hb⟩)
      rw [cutAfter, if_neg h, ih hrest, if_congr hsuffix rfl rfl]
      split
      · rfl
      · rw [Option.map_map]
        rfl

theorem cutAfter_last {body : List β} {b : β} (hword : b ∉ word.map fold) :
    cutAfter fold (body ++ [b]) word = none := by
  cases hcut : cutAfter fold (body ++ [b]) word with
  | none => rfl
  | some parts =>
    obtain ⟨shown, rest⟩ := parts
    have hmem := (suffix_of_cutAfter hcut).mem (List.mem_append_right body List.mem_cons_self)
    rw [← append_of_cutAfter hcut, List.map_append] at hword
    exact absurd (List.mem_append_left _ hmem) hword

end Search

end AppCore
