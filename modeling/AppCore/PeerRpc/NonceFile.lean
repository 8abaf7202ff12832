import AppCore.Base.Json
import AppCore.PeerRpc.Nonce

/-!
# The nonce state file

The durable nonce store writes its state with `serde_json::to_vec`. This is that document and a
reader for it, with the round trip that makes them a codec.
-/

namespace AppCore.PeerRpc

open Json

/-- One entry of the map, as `serde_json::to_vec` writes it. -/
def entryText (entry : String × UInt64) : List Char :=
  (Token.str entry.1.toList).text ++ ':' :: (Token.num entry.2.toNat).text

/-- The entries of the map. -/
def entriesText : List (String × UInt64) → List Char
  | [] => []
  | [entry] => entryText entry
  | entry :: rest => entryText entry ++ ',' :: entriesText rest

/-- The document `serde_json::to_vec` writes. -/
def stateText (state : PersistedNonceState) : List Char :=
  '{' :: ((Token.str "format".toList).text ++ ':' :: ((Token.str state.format.toList).text ++
    ',' :: ((Token.str "entries".toList).text ++ ':' :: '{' ::
      (entriesText state.entries.toList ++ "\x7d\x7d".toList))))

/-- The entries of a map, to the end of the map. -/
def readEntries : List Token → Option (List (String × UInt64) × List Token)
  | .str key :: .punct ':' :: .num value :: .punct last :: rest =>
    if 2 ^ 64 ≤ value then none
    else if last = '}' then some ([(String.ofList key, UInt64.ofNat value)], rest)
    else if last = ',' then
      (readEntries rest).map fun (entries, rest) =>
        ((String.ofList key, UInt64.ofNat value) :: entries, rest)
    else none
  | _ => none

/-- The members of a map, which may be empty. -/
def readMap : List Token → Option (List (String × UInt64) × List Token)
  | .punct '}' :: rest => some ([], rest)
  | tokens => readEntries tokens

/-- A document with the two members of the state, in their order. -/
def readState : List Token → Option PersistedNonceState
  | .punct '{' :: .str formatKey :: .punct ':' :: .str format :: .punct ',' :: .str entriesKey ::
      .punct ':' :: .punct '{' :: rest =>
      if formatKey = "format".toList ∧ entriesKey = "entries".toList then
        match readMap rest with
        | some (entries, [.punct '}']) =>
          some ⟨String.ofList format, Std.ExtTreeMap.ofList entries compare⟩
        | _ => none
      else none
  | _ => none

/-! ## The round trip -/

/-- The tokens of the entries, with their separators. -/
def entriesTokens : List (String × UInt64) → List Token
  | [] => []
  | [(key, value)] => [.str key.toList, .punct ':', .num value.toNat]
  | (key, value) :: rest =>
    .str key.toList :: .punct ':' :: .num value.toNat :: .punct ',' :: entriesTokens rest

theorem lexText_entry (entry : String × UInt64) {c : Char} (hc : c.isDigit = false)
    (t : List Char) :
    lexText (entryText entry ++ c :: t) = (lexText (c :: t)).map
      fun tokens => .str entry.1.toList :: .punct ':' :: .num entry.2.toNat :: tokens := by
  rw [entryText, List.append_assoc, List.cons_append, lexText_str, lexText_punct (by decide),
    lexText_num _ (noDigit_cons hc t)]
  simp [Function.comp_def]

theorem lexText_entries (entries : List (String × UInt64)) (t : List Char) :
    lexText (entriesText entries ++ '}' :: t) =
      (lexText t).map (entriesTokens entries ++ .punct '}' :: ·) := by
  induction entries using entriesTokens.induct with
  | case1 => exact lexText_punct (by decide) t
  | case2 key value =>
    rw [entriesText, lexText_entry _ (by decide), lexText_punct (by decide)]
    simp [entriesTokens, Function.comp_def]
  | case3 key value rest hne ih =>
    have htext : entriesText ((key, value) :: rest) =
        entryText (key, value) ++ ',' :: entriesText rest := by
      cases rest with
      | nil => exact absurd rfl hne
      | cons => rfl
    have htokens : entriesTokens ((key, value) :: rest) = .str key.toList :: .punct ':' ::
        .num value.toNat :: .punct ',' :: entriesTokens rest := by
      cases rest with
      | nil => exact absurd rfl hne
      | cons => rfl
    rw [htext, List.append_assoc, List.cons_append, lexText_entry _ (by decide),
      lexText_punct (by decide), ih, htokens]
    simp [Function.comp_def]

theorem readEntries_tokens {entries : List (String × UInt64)} (hne : entries ≠ [])
    (tokens : List Token) :
    readEntries (entriesTokens entries ++ .punct '}' :: tokens) = some (entries, tokens) := by
  induction entries using entriesTokens.induct with
  | case1 => exact absurd rfl hne
  | case2 key value =>
    have hvalue : value.toNat < 18446744073709551616 := value.toNat_lt
    simp [entriesTokens, readEntries, hvalue]
  | case3 key value rest hrest ih =>
    have hvalue : value.toNat < 18446744073709551616 := value.toNat_lt
    have hread := ih (by simpa using hrest)
    rw [entriesTokens]
    · simp [readEntries, hread, hvalue]
    · exact hrest

theorem readMap_tokens (entries : List (String × UInt64)) (tokens : List Token) :
    readMap (entriesTokens entries ++ .punct '}' :: tokens) = some (entries, tokens) := by
  cases entries with
  | nil => rfl
  | cons entry rest =>
    have hread := readEntries_tokens (List.cons_ne_nil entry rest) tokens
    cases rest <;> exact hread

theorem ofList_toList (map : NonceMap) : Std.ExtTreeMap.ofList map.toList compare = map := by
  apply Std.ExtTreeMap.ext_getElem?
  intro key
  cases h : map[key]? with
  | none =>
    apply Std.ExtTreeMap.getElem?_ofList_of_contains_eq_false
    rw [Bool.eq_false_iff]
    intro hcontains
    obtain ⟨entry, hmem, rfl⟩ := List.mem_map.1 (List.contains_iff_mem.1 hcontains)
    rw [Std.ExtTreeMap.mem_toList_iff_getElem?_eq_some.1 (show (entry.1, entry.2) ∈ _ from hmem)]
      at h
    simp at h
  | some value =>
    exact Std.ExtTreeMap.getElem?_ofList_of_mem Std.ReflCmp.compare_self
      Std.ExtTreeMap.distinct_keys_toList (Std.ExtTreeMap.mem_toList_iff_getElem?_eq_some.2 h)

theorem lexText_state (state : PersistedNonceState) :
    lexText (stateText state) = some (.punct '{' :: .str "format".toList :: .punct ':' ::
      .str state.format.toList :: .punct ',' :: .str "entries".toList :: .punct ':' ::
      .punct '{' :: (entriesTokens state.entries.toList ++ [.punct '}', .punct '}'])) := by
  have hend : lexText ['}'] = some [.punct '}'] := rfl
  have hclose : "\x7d\x7d".toList = ['}', '}'] := rfl
  rw [stateText, hclose, lexText_punct (by decide), lexText_str, lexText_punct (by decide),
    lexText_str, lexText_punct (by decide), lexText_str, lexText_punct (by decide),
    lexText_punct (by decide), lexText_entries, hend]
  rfl

theorem readState_tokens (state : PersistedNonceState) :
    (lexText (stateText state)).bind readState = some state := by
  rw [lexText_state, Option.bind_some]
  simp only [readState, readMap_tokens, ofList_toList, String.ofList_toList]
  simp

/-- **The state file**: written as JSON, and read back. -/
@[reducible] def nonceStateJson : Codec PersistedNonceState where
  encode state := utf8 (stateText state)
  decode bytes := (fromUtf8 bytes).bind fun text => (lexText text).bind readState
  decode_encode state := by
    rw [fromUtf8_utf8, Option.bind_some, readState_tokens]

end AppCore.PeerRpc
