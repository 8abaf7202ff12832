import AppCore.Transport.Response

/-!
# Chunked bodies

A chunked body is written as chunks of any sizes, each behind a line that declares its size, and
ended by a line that declares none (`ChunkedMessage`).

* `decodeChunked_exact` — a message whose extensions are text decodes to its body, or is too large;
  the front of a message decodes to the whole body or not at all; and whatever the input, the loop
  ends, inside the input, with a body within the limit.
-/

namespace AppCore.Transport

/-! ## Messages -/

/-- A line that declares a size: hexadecimal digits in any case, zeros in front of them, and whatever
is behind a semicolon up to the end of the line. -/
structure SizeLine where
  digits : List Char
  extension : Bytes
  nonempty : digits ≠ []
  hex : ∀ c ∈ digits, isHexDigit c = true
  semicolon : extension = [] ∨ extension.head? = some 0x3b
  oneLine : ¬ crlf <:+: extension

/-- The bytes of the line, without its end. -/
def SizeLine.bytes (line : SizeLine) : Bytes := utf8 line.digits ++ line.extension

/-- The size that the line declares. -/
def SizeLine.size (line : SizeLine) : Nat := hexValue line.digits

def SizeLine.IsText (line : SizeLine) : Prop := (fromUtf8 line.extension).isSome = true

/-- Data behind the line that declares their size. -/
structure Chunk where
  line : SizeLine
  data : Bytes
  nonempty : data ≠ []
  sized : line.size = data.length

def Chunk.bytes (chunk : Chunk) : Bytes := chunk.line.bytes ++ (crlf ++ (chunk.data ++ crlf))

/-- Chunks, the line that ends them, and what comes after it. -/
structure ChunkedMessage where
  chunks : List Chunk
  last : SizeLine
  ended : last.size = 0
  trailing : Bytes

namespace ChunkedMessage

def bytes (message : ChunkedMessage) : Bytes :=
  message.chunks.flatMap Chunk.bytes ++ (message.last.bytes ++ (crlf ++ message.trailing))

/-- The body that a message transfers. -/
def body (message : ChunkedMessage) : Bytes := message.chunks.flatMap Chunk.data

/-- All extensions are text. -/
structure IsText (message : ChunkedMessage) : Prop where
  chunks : ∀ chunk ∈ message.chunks, chunk.line.IsText
  last : message.last.IsText

end ChunkedMessage

/-! ## Lines -/

theorem prefix_crlf_append {line rest : Bytes} (h : ¬ crlf <:+: line) (hline : line ≠ []) :
    ¬ crlf <+: line ++ (crlf ++ rest) := by
  intro hstart
  cases line with
  | nil => exact hline rfl
  | cons b line =>
    cases line with
    | nil =>
      have := (List.cons_prefix_cons.1 (List.cons_prefix_cons.1 hstart).2).1
      cases this
    | cons c line =>
      refine h (List.IsPrefix.isInfix ?_)
      obtain ⟨rfl, hnext⟩ := List.cons_prefix_cons.1 hstart
      obtain ⟨rfl, -⟩ := List.cons_prefix_cons.1 hnext
      exact ⟨line, rfl⟩

theorem position_line {line : Bytes} (h : ¬ crlf <:+: line) (rest : Bytes) :
    position crlf (line ++ (crlf ++ rest)) = some line.length := by
  induction line with
  | nil => rfl
  | cons b line ih =>
    have hstart : crlf.isPrefixOf (b :: (line ++ (crlf ++ rest))) = false := by
      rw [← Bool.not_eq_true, List.isPrefixOf_iff_prefix]
      exact prefix_crlf_append h (List.cons_ne_nil b line)
    have hline : ¬ crlf <:+: line := fun hinside => h (hinside.trans (List.suffix_cons b line).isInfix)
    rw [List.cons_append, position, hstart, if_neg Bool.false_ne_true, ih hline]
    rfl

theorem position_none {t : Bytes} (h : ¬ crlf <:+: t) : position crlf t = none := by
  induction t with
  | nil => rfl
  | cons b t ih =>
    have hstart : crlf.isPrefixOf (b :: t) = false := by
      rw [← Bool.not_eq_true, List.isPrefixOf_iff_prefix]
      exact fun hprefix => h hprefix.isInfix
    rw [position, hstart, if_neg Bool.false_ne_true,
      ih fun hinside => h (hinside.trans (List.suffix_cons b t).isInfix)]
    rfl

theorem not_infix_concat {line : Bytes} (h : ¬ crlf <:+: line) : ¬ crlf <:+: line ++ [0x0d] := by
  rw [List.infix_concat_iff]
  intro hinside
  rcases hinside with hsuffix | hinside
  · obtain ⟨front, heq⟩ := hsuffix
    have hlast := congrArg List.getLast? heq
    simp [crlf] at hlast
  · exact h hinside

theorem toNat_of_isHexDigit {c : Char} (h : isHexDigit c = true) : 48 ≤ c.toNat ∧ c ≠ ';' ∧ c ≠ '+' := by
  simp only [isHexDigit, Bool.or_eq_true, Bool.and_eq_true, decide_eq_true_eq] at h
  have hle {a b : Char} (hab : a ≤ b) : a.toNat ≤ b.toNat := UInt32.le_iff_toNat_le.1 hab
  have hlow : 48 ≤ c.toNat := by
    rcases h with (h | h) | h
    · exact hle h.1
    · exact (by decide : 48 ≤ 97).trans (hle h.1)
    · exact (by decide : 48 ≤ 65).trans (hle h.1)
  refine ⟨hlow, ?_, ?_⟩
  · rintro rfl
    revert h
    decide
  · rintro rfl
    revert h
    decide

theorem infix_of_append {b : UInt8} {pattern first rest : Bytes} (h : b ∉ first)
    (hinside : b :: pattern <:+: first ++ rest) : b :: pattern <:+: rest := by
  induction first with
  | nil => exact hinside
  | cons c first ih =>
    rw [List.mem_cons, not_or] at h
    rw [List.cons_append, List.infix_cons_iff] at hinside
    rcases hinside with hstart | hinside
    · exact absurd (List.cons_prefix_cons.1 hstart).1 h.1
    · exact ih h.2 hinside

/-- A text whose first byte is a semicolon begins with one. -/
theorem head?_of_utf8 {t : List Char} (h : (utf8 t).head? = some 0x3b) : t.head? = some ';' := by
  cases t with
  | nil => cases h
  | cons c t =>
    by_cases hc : c.toNat < 128
    · rw [utf8, List.flatMap_cons, utf8EncodeChar_of_ascii hc] at h
      have hbyte : UInt8.ofNat c.toNat = 0x3b := Option.some.inj h
      have hnat := congrArg UInt8.toNat hbyte
      rw [UInt8.toNat_ofNat', Nat.mod_eq_of_lt (by omega)] at hnat
      have hchar : c = ';' := Char.toNat_inj.1 hnat
      rw [hchar]
      rfl
    · obtain ⟨b, bytes, hbytes⟩ := List.exists_cons_of_ne_nil (String.utf8EncodeChar_ne_nil (c := c))
      rw [utf8, List.flatMap_cons, hbytes] at h
      have hbyte : b = 0x3b := Option.some.inj h
      have hhigh := le_toNat_of_mem_utf8EncodeChar hc (hbytes ▸ List.mem_cons_self)
      rw [hbyte] at hhigh
      exact absurd hhigh (by decide)

namespace SizeLine

variable {line : SizeLine}

theorem isAscii_digits (line : SizeLine) : IsAscii line.digits :=
  fun c hc => toNat_lt_of_isHexDigit (line.hex c hc)

theorem not_infix (line : SizeLine) : ¬ crlf <:+: line.bytes := by
  have hdigits : (0x0d : UInt8) ∉ utf8 line.digits := by
    rw [utf8_of_ascii line.isAscii_digits]
    intro hmem
    obtain ⟨c, hc, hbyte⟩ := List.mem_map.1 hmem
    have hlow := (toNat_of_isHexDigit (line.hex c hc)).1
    have hhigh := line.isAscii_digits c hc
    have hnat := congrArg UInt8.toNat hbyte
    rw [UInt8.toNat_ofNat', Nat.mod_eq_of_lt (by omega)] at hnat
    have hvalue : (0x0d : UInt8).toNat = 13 := rfl
    omega
  exact fun hinside => line.oneLine (infix_of_append hdigits hinside)

/-- What stands in front of the first semicolon. -/
theorem takeWhile_bytes {t : List Char} (h : fromUtf8 line.extension = some t) :
    (line.digits ++ t).takeWhile (· ≠ ';') = line.digits := by
  have hdigits : ∀ c ∈ line.digits, decide (c ≠ ';') = true :=
    fun c hc => decide_eq_true (toNat_of_isHexDigit (line.hex c hc)).2.1
  have htext : t.takeWhile (· ≠ ';') = [] := by
    have hbytes := utf8_of_fromUtf8 h
    rcases line.semicolon with hempty | hsemicolon
    · rw [hempty] at hbytes
      cases t with
      | nil => rfl
      | cons c t =>
        rw [utf8, List.flatMap_cons, List.append_eq_nil_iff] at hbytes
        exact absurd hbytes.1 (String.utf8EncodeChar_ne_nil)
    · rw [← hbytes] at hsemicolon
      obtain ⟨rest, rfl⟩ := List.head?_eq_some_iff.1 (head?_of_utf8 hsemicolon)
      rfl
  rw [List.takeWhile_append_of_pos hdigits, htext, List.append_nil]

/-- **A size line declares its size**, when its extension is text. -/
theorem chunkSize_bytes (line : SizeLine) : chunkSize line.bytes =
    if (fromUtf8 line.extension).isSome = true ∧ line.size ≤ usizeMax then .ok line.size
    else .error (.invalidResponse "invalid chunk size") := by
  unfold chunkSize bytes
  rw [fromUtf8_append]
  cases htext : fromUtf8 line.extension with
  | none => rfl
  | some t =>
    have hplus : stripPlus line.digits = line.digits := by
      unfold stripPlus
      split
      next rest hdigits =>
        have hmem : '+' ∈ line.digits := hdigits ▸ List.mem_cons_self
        exact absurd rfl (toNat_of_isHexDigit (line.hex _ hmem)).2.2
      next => rfl
    have hempty : line.digits.isEmpty = false := by
      rw [List.isEmpty_eq_false_iff]
      exact line.nonempty
    have hall : line.digits.all isHexDigit = true := List.all_eq_true.2 line.hex
    rw [Option.map_some]
    dsimp only
    rw [takeWhile_bytes htext, fromStrRadix16, hplus, hempty, hall]
    by_cases hsize : line.size ≤ usizeMax
    · have hvalue : hexValue line.digits ≤ usizeMax := hsize
      simp [hvalue, size]
    · have hvalue : ¬ hexValue line.digits ≤ usizeMax := hsize
      simp [hvalue, size]

end SizeLine

/-! ## Rounds -/

section

variable {input rest output : Bytes} {maxBytes cursor : Nat}

theorem slice_end (h : At input cursor rest) : slice input cursor input.length = some rest := by
  have hat : At input cursor (rest ++ []) := by rwa [List.append_nil]
  rw [h.length_eq]
  exact slice_at hat

theorem chunkRound_line {line : Bytes} (h : At input cursor (line ++ (crlf ++ rest)))
    (hline : ¬ crlf <:+: line) : chunkRound input maxBytes cursor output =
      chunkLine input maxBytes (cursor + line.length + 2) output line := by
  unfold chunkRound lineEnd
  rw [slice_end h, Option.bind_some, position_line hline, Option.map_some]
  dsimp only
  rw [slice_at h]

theorem chunkRound_noLine (h : At input cursor rest) (hline : ¬ crlf <:+: rest) :
    chunkRound input maxBytes cursor output = .finished (.error .truncatedResponse) := by
  unfold chunkRound lineEnd
  rw [slice_end h, Option.bind_some, position_none hline, Option.map_none]

theorem chunkData_at {data : Bytes} (hinput : input.length ≤ isizeMax)
    (houtput : output.length ≤ cursor) (h : At input cursor (data ++ (crlf ++ rest))) :
    chunkData input maxBytes cursor output data.length =
      if output.length + data.length ≤ maxBytes then
        .again (cursor + data.length + 2) (output ++ data)
      else .finished (.error (.responseTooLarge maxBytes)) := by
  have hend := h.advance.advance.le
  have hcrlf : crlf.length = 2 := rfl
  have hsizes : isizeMax + 2 < usizeMax := by decide
  have hadd : usizeCheckedAdd cursor data.length = some (cursor + data.length) :=
    if_pos (by omega)
  have hbehind : slice input (cursor + data.length) (cursor + data.length + 2) = some crlf :=
    slice_at h.advance
  have hinside : ¬ (usizeSaturatingAdd (cursor + data.length) 2 > input.length ∨
      slice input (cursor + data.length) (cursor + data.length + 2) ≠ some crlf) := by
    rw [hbehind, usizeSaturatingAdd]
    simp only [ne_eq, not_true, or_false]
    omega
  unfold chunkData
  rw [hadd]
  dsimp only
  rw [if_neg hinside, slice_at h]
  by_cases hfits : output.length + data.length ≤ maxBytes
  · have hsum : ¬ usizeSaturatingAdd output.length data.length > maxBytes := by
      rw [usizeSaturatingAdd]
      omega
    rw [if_neg hsum, if_pos hfits]
  · have hsum : usizeSaturatingAdd output.length data.length > maxBytes := by
      rw [usizeSaturatingAdd]
      omega
    rw [if_pos hsum, if_neg hfits]

/-- The data of a chunk that is cut off. -/
theorem chunkData_cut {size : Nat} (hinput : input.length ≤ isizeMax) (h : At input cursor rest)
    (hcut : rest.length < size + 2) :
    ∃ error, chunkData input maxBytes cursor output size = .finished (.error error) := by
  have hlength := h.length_eq
  have hsizes : isizeMax < usizeMax := by decide
  unfold chunkData
  cases hadd : usizeCheckedAdd cursor size with
  | none => exact ⟨_, rfl⟩
  | some chunkEnd =>
    have hsum : cursor + size = chunkEnd := by
      unfold usizeCheckedAdd at hadd
      split at hadd
      · exact Option.some.inj hadd
      · cases hadd
    have houtside : usizeSaturatingAdd chunkEnd 2 > input.length := by
      rw [usizeSaturatingAdd]
      omega
    dsimp only
    rw [if_pos (Or.inl houtside)]
    exact ⟨_, rfl⟩

/-! ### Whatever the input -/

theorem length_of_position {pattern t : Bytes} {i : Nat} (h : position pattern t = some i) :
    i + pattern.length ≤ t.length := by
  induction t generalizing i with
  | nil => cases h
  | cons b t ih =>
    rw [position] at h
    split at h
    next hstart =>
      cases h
      rw [Nat.zero_add]
      exact (List.isPrefixOf_iff_prefix.1 hstart).length_le
    next =>
      obtain ⟨j, hj, rfl⟩ := Option.map_eq_some_iff.1 h
      have hlength := ih hj
      rw [List.length_cons]
      omega

/-- The output of a round stands in front of the cursor, and is within the limit. -/
structure Sound (input : Bytes) (maxBytes cursor : Nat) (output : Bytes) : Prop where
  inside : cursor ≤ input.length
  read : output.length ≤ cursor
  within : output.length ≤ maxBytes

/-- What a round leads to, whatever the input: the cursor moves on, and stays in the input. -/
inductive Leads (input : Bytes) (maxBytes cursor : Nat) (output : Bytes) : ChunkRound → Prop
  | refused (error : TransportError) : Leads input maxBytes cursor output (.finished (.error error))
  | ended : Leads input maxBytes cursor output (.finished (.ok output))
  | again (next : Nat) (more : Bytes) (hnext : cursor < next)
      (h : Sound input maxBytes next more) : Leads input maxBytes cursor output (.again next more)

theorem leads_chunkData {start size : Nat} (hinput : input.length ≤ isizeMax) (hstart : start ≤ cursor)
    (h : Sound input maxBytes start output) :
    Leads input maxBytes start output (chunkData input maxBytes cursor output size) := by
  have hsizes : isizeMax + 2 < usizeMax := by decide
  unfold chunkData
  cases hadd : usizeCheckedAdd cursor size with
  | none => exact .refused _
  | some chunkEnd =>
    have hsum : cursor + size = chunkEnd := by
      unfold usizeCheckedAdd at hadd
      split at hadd
      · exact Option.some.inj hadd
      · cases hadd
    dsimp only
    split
    · exact .refused _
    next hthere =>
      rw [not_or, usizeSaturatingAdd] at hthere
      have hinside : chunkEnd + 2 ≤ input.length := by omega
      split
      · exact .refused _
      next hfits =>
        rw [usizeSaturatingAdd] at hfits
        have hread := h.read
        have hrange : cursor ≤ chunkEnd ∧ chunkEnd ≤ input.length := ⟨by omega, by omega⟩
        rw [slice, if_pos hrange]
        refine .again _ _ (by omega) ⟨hinside, ?_, ?_⟩
        · rw [List.length_append, List.length_take, List.length_drop]
          omega
        · rw [List.length_append, List.length_take, List.length_drop]
          omega

theorem leads_chunkRound (hinput : input.length ≤ isizeMax) (h : Sound input maxBytes cursor output) :
    Leads input maxBytes cursor output (chunkRound input maxBytes cursor output) := by
  have hremaining : slice input cursor input.length = some (input.drop cursor) :=
    slice_end ⟨h.inside, rfl⟩
  unfold chunkRound lineEnd
  rw [hremaining, Option.bind_some]
  cases hposition : position crlf (input.drop cursor) with
  | none => exact .refused _
  | some offset =>
    have hlength := length_of_position hposition
    rw [List.length_drop] at hlength
    have hcrlf : crlf.length = 2 := rfl
    have hinside := h.inside
    have hrange : cursor ≤ cursor + offset ∧ cursor + offset ≤ input.length := ⟨by omega, by omega⟩
    rw [Option.map_some]
    dsimp only
    rw [slice, if_pos hrange]
    dsimp only
    unfold chunkLine
    split
    · exact .refused _
    · split
      · exact .ended
      · exact leads_chunkData hinput (by omega) h

/-- **The loop ends**, inside the input, with a body within the limit. -/
theorem returned_of_sound (hinput : input.length ≤ isizeMax) {rounds : Nat}
    (hrounds : input.length < cursor + rounds) (h : Sound input maxBytes cursor output) :
    ∃ result, decodeChunkedFrom input maxBytes rounds cursor output = .returned result ∧
      ∀ body, result = .ok body → body.length ≤ maxBytes := by
  induction rounds generalizing cursor output with
  | zero => exact absurd h.inside (Nat.not_le.2 hrounds)
  | succ rounds ih =>
    have hleads := leads_chunkRound hinput h
    rw [decodeChunkedFrom]
    generalize chunkRound input maxBytes cursor output = round at hleads
    cases hleads with
    | refused error =>
      refine ⟨_, rfl, fun body hbody => ?_⟩
      cases hbody
    | ended =>
      refine ⟨_, rfl, fun body hbody => ?_⟩
      cases hbody
      exact h.within
    | again next more hnext hmore => exact ih (by omega) hmore

/-! ## Messages that are there -/

theorem Chunk.length_bytes (chunk : Chunk) :
    chunk.bytes.length = chunk.line.bytes.length + 2 + chunk.data.length + 2 := by
  have hcrlf : crlf.length = 2 := rfl
  simp only [Chunk.bytes, List.length_append, hcrlf]
  omega

theorem size_ne_zero (chunk : Chunk) : chunk.line.size ≠ 0 := by
  rw [chunk.sized]
  exact fun hzero => chunk.nonempty (List.length_eq_zero_iff.1 hzero)

theorem chunkRound_chunk {chunk : Chunk} (hinput : input.length ≤ isizeMax)
    (houtput : output.length ≤ cursor) (htext : chunk.line.IsText)
    (h : At input cursor (chunk.bytes ++ rest)) :
    chunkRound input maxBytes cursor output =
      if output.length + chunk.data.length ≤ maxBytes then
        .again (cursor + chunk.bytes.length) (output ++ chunk.data)
      else .finished (.error (.responseTooLarge maxBytes)) := by
  have hline : At input cursor (chunk.line.bytes ++ (crlf ++ (chunk.data ++ (crlf ++ rest)))) := by
    simpa only [Chunk.bytes, List.append_assoc] using h
  have hdata : At input (cursor + chunk.line.bytes.length + 2) (chunk.data ++ (crlf ++ rest)) :=
    hline.advance.advance
  have hend := hdata.advance.le
  have hsizes : isizeMax < usizeMax := by decide
  have hsize : chunkSize chunk.line.bytes = .ok chunk.data.length := by
    rw [chunk.line.chunkSize_bytes, if_pos ⟨htext, by rw [chunk.sized]; omega⟩, chunk.sized]
  have hnonzero : chunk.data.length ≠ 0 := chunk.sized ▸ size_ne_zero chunk
  rw [chunkRound_line hline chunk.line.not_infix, chunkLine, hsize]
  dsimp only
  rw [if_neg hnonzero, chunkData_at hinput (by omega) hdata, chunk.length_bytes]
  simp only [Nat.add_assoc]

theorem chunkRound_last {line : SizeLine} (htext : line.IsText) (hlast : line.size = 0)
    (h : At input cursor (line.bytes ++ (crlf ++ rest))) :
    chunkRound input maxBytes cursor output = .finished (.ok output) := by
  have hsize : chunkSize line.bytes = .ok 0 := by
    rw [line.chunkSize_bytes, if_pos ⟨htext, by rw [hlast]; exact Nat.zero_le _⟩, hlast]
  rw [chunkRound_line h line.not_infix, chunkLine, hsize]
  rfl

/-- The rounds at the chunks that are left. -/
theorem decodeChunkedFrom_chunks {chunks : List Chunk} {last : SizeLine} {trailing : Bytes}
    (hinput : input.length ≤ isizeMax) (htexts : ∀ chunk ∈ chunks, chunk.line.IsText)
    (htext : last.IsText) (hlast : last.size = 0) {rounds : Nat}
    (hrounds : input.length < cursor + rounds) (houtput : output.length ≤ cursor)
    (hwithin : output.length ≤ maxBytes)
    (h : At input cursor (chunks.flatMap Chunk.bytes ++ (last.bytes ++ (crlf ++ trailing)))) :
    decodeChunkedFrom input maxBytes rounds cursor output =
      if (output ++ chunks.flatMap Chunk.data).length ≤ maxBytes then
        .ok (output ++ chunks.flatMap Chunk.data)
      else .err (.responseTooLarge maxBytes) := by
  induction chunks generalizing cursor output rounds with
  | nil =>
    cases rounds with
    | zero => exact absurd h.le (Nat.not_le.2 hrounds)
    | succ rounds =>
      rw [decodeChunkedFrom, chunkRound_last htext hlast h, List.flatMap_nil, List.append_nil,
        if_pos hwithin]
      rfl
  | cons chunk chunks ih =>
    cases rounds with
    | zero => exact absurd h.le (Nat.not_le.2 hrounds)
    | succ rounds =>
      rw [List.flatMap_cons, List.append_assoc] at h
      have hlength := chunk.length_bytes
      rw [decodeChunkedFrom, chunkRound_chunk hinput houtput (htexts chunk List.mem_cons_self) h,
        List.flatMap_cons]
      by_cases hfits : output.length + chunk.data.length ≤ maxBytes
      · have hnext : input.length < cursor + chunk.bytes.length + rounds := by omega
        have hread : (output ++ chunk.data).length ≤ cursor + chunk.bytes.length := by
          rw [List.length_append]
          omega
        have hmore : (output ++ chunk.data).length ≤ maxBytes := by
          rw [List.length_append]
          exact hfits
        have hrest := ih (fun chunk hchunk => htexts chunk (List.mem_cons_of_mem _ hchunk)) hnext
          hread hmore h.advance
        rw [if_pos hfits, ← List.append_assoc]
        exact hrest
      · have hlarge : ¬ (output ++ (chunk.data ++ chunks.flatMap Chunk.data)).length ≤ maxBytes := by
          rw [List.length_append, List.length_append]
          omega
        rw [if_neg hfits, if_neg hlarge]
        rfl

/-! ## Messages that are cut off -/

theorem prefix_append_cases {p a b : Bytes} (h : p <+: a ++ b) :
    (p <+: a ∧ p.length < a.length) ∨ ∃ c, p = a ++ c ∧ c <+: b := by
  by_cases hlength : p.length < a.length
  · exact Or.inl ⟨List.prefix_of_prefix_length_le h (List.prefix_append a b) (Nat.le_of_lt hlength),
      hlength⟩
  · obtain ⟨c, rfl⟩ := List.prefix_of_prefix_length_le (List.prefix_append a b) h
      (Nat.le_of_not_lt hlength)
    exact Or.inr ⟨c, rfl, (List.prefix_append_right_inj a).1 h⟩

theorem chunkRound_cutLine {line : SizeLine} (h : At input cursor rest)
    (hrest : rest <+: line.bytes ++ crlf) (hcut : rest.length < (line.bytes ++ crlf).length) :
    chunkRound input maxBytes cursor output = .finished (.error .truncatedResponse) := by
  have hshort : rest <+: line.bytes ++ [0x0d] := by
    have hsplit : line.bytes ++ crlf = (line.bytes ++ [0x0d]) ++ [0x0a] := by
      rw [List.append_assoc]
      rfl
    rw [hsplit] at hrest hcut
    rw [List.length_append, List.length_singleton] at hcut
    exact List.prefix_of_prefix_length_le hrest (List.prefix_append _ _) (Nat.le_of_lt_succ hcut)
  refine chunkRound_noLine h fun hinside => ?_
  exact not_infix_concat line.not_infix (hinside.trans hshort.isInfix)

/-- A chunk that is cut off. -/
theorem chunkRound_cut {chunk : Chunk} (hinput : input.length ≤ isizeMax) (h : At input cursor rest)
    (hrest : rest <+: chunk.bytes) (hcut : rest.length < chunk.bytes.length) :
    ∃ error, chunkRound input maxBytes cursor output = .finished (.error error) := by
  have hcrlf : crlf.length = 2 := rfl
  rw [Chunk.bytes, ← List.append_assoc] at hrest hcut
  rcases prefix_append_cases hrest with hline | hdata
  · exact ⟨_, chunkRound_cutLine h hline.1 hline.2⟩
  · obtain ⟨data, rfl, hdata⟩ := hdata
    simp only [List.length_append] at hcut
    rw [List.append_assoc] at h
    rw [chunkRound_line h chunk.line.not_infix, chunkLine, chunk.line.chunkSize_bytes]
    by_cases hsize : (fromUtf8 chunk.line.extension).isSome = true ∧ chunk.line.size ≤ usizeMax
    · rw [if_pos hsize]
      dsimp only
      rw [if_neg (size_ne_zero chunk)]
      refine chunkData_cut hinput h.advance.advance ?_
      rw [chunk.sized]
      omega
    · rw [if_neg hsize]
      exact ⟨_, rfl⟩

/-- A chunk that is there, whether its extension is text or not. -/
theorem chunkRound_whole {chunk : Chunk} (hinput : input.length ≤ isizeMax)
    (houtput : output.length ≤ cursor) (h : At input cursor (chunk.bytes ++ rest)) :
    (∃ error, chunkRound input maxBytes cursor output = .finished (.error error)) ∨
      (chunkRound input maxBytes cursor output =
          .again (cursor + chunk.bytes.length) (output ++ chunk.data) ∧
        output.length + chunk.data.length ≤ maxBytes) := by
  by_cases htext : chunk.line.IsText
  · rw [chunkRound_chunk hinput houtput htext h]
    by_cases hfits : output.length + chunk.data.length ≤ maxBytes
    · exact Or.inr ⟨if_pos hfits, hfits⟩
    · exact Or.inl ⟨_, if_neg hfits⟩
  · have hline : At input cursor (chunk.line.bytes ++ (crlf ++ (chunk.data ++ (crlf ++ rest)))) := by
      simpa only [Chunk.bytes, List.append_assoc] using h
    refine Or.inl ⟨.invalidResponse "invalid chunk size", ?_⟩
    rw [chunkRound_line hline chunk.line.not_infix, chunkLine, chunk.line.chunkSize_bytes,
      if_neg fun h => htext h.1]

/-- The rounds at the front of the chunks that are left. -/
theorem decodeChunkedFrom_prefix {chunks : List Chunk} {last : SizeLine} {trailing : Bytes}
    (hinput : input.length ≤ isizeMax) (hlast : last.size = 0) {rounds : Nat}
    (hrounds : input.length < cursor + rounds) (houtput : output.length ≤ cursor)
    (h : At input cursor rest)
    (hrest : rest <+: chunks.flatMap Chunk.bytes ++ (last.bytes ++ (crlf ++ trailing))) :
    (∃ error, decodeChunkedFrom input maxBytes rounds cursor output = .err error) ∨
      decodeChunkedFrom input maxBytes rounds cursor output =
        .ok (output ++ chunks.flatMap Chunk.data) := by
  induction chunks generalizing cursor output rounds rest with
  | nil =>
    cases rounds with
    | zero => exact absurd h.le (Nat.not_le.2 hrounds)
    | succ rounds =>
      rw [List.flatMap_nil, List.nil_append, ← List.append_assoc] at hrest
      rw [decodeChunkedFrom, List.flatMap_nil, List.append_nil]
      rcases prefix_append_cases hrest with hcut | hwhole
      · rw [chunkRound_cutLine h hcut.1 hcut.2]
        exact Or.inl ⟨_, rfl⟩
      · obtain ⟨behind, rfl, -⟩ := hwhole
        rw [List.append_assoc] at h
        rw [chunkRound_line h last.not_infix, chunkLine, last.chunkSize_bytes]
        by_cases hsize : (fromUtf8 last.extension).isSome = true ∧ last.size ≤ usizeMax
        · rw [if_pos hsize]
          dsimp only
          rw [if_pos hlast]
          exact Or.inr rfl
        · rw [if_neg hsize]
          exact Or.inl ⟨_, rfl⟩
  | cons chunk chunks ih =>
    cases rounds with
    | zero => exact absurd h.le (Nat.not_le.2 hrounds)
    | succ rounds =>
      rw [List.flatMap_cons, List.append_assoc] at hrest
      rw [decodeChunkedFrom, List.flatMap_cons]
      rcases prefix_append_cases hrest with hcut | hwhole
      · obtain ⟨error, hround⟩ : ∃ error,
            chunkRound input maxBytes cursor output = .finished (.error error) :=
          chunkRound_cut hinput h hcut.1 hcut.2
        rw [hround]
        exact Or.inl ⟨_, rfl⟩
      · obtain ⟨behind, rfl, hbehind⟩ := hwhole
        have hlength := chunk.length_bytes
        rcases chunkRound_whole hinput houtput h with hrefused | hagain
        · obtain ⟨error, hround⟩ := hrefused
          rw [hround]
          exact Or.inl ⟨_, rfl⟩
        · have hnext : input.length < cursor + chunk.bytes.length + rounds := by omega
          have hread : (output ++ chunk.data).length ≤ cursor + chunk.bytes.length := by
            rw [List.length_append]
            omega
          rw [hagain.1, ← List.append_assoc]
          exact ih hnext hread h.advance hbehind

end

/-- **Chunked bodies decode exactly.** A message whose extensions are text decodes to its body, when
that is within the limit, and is too large otherwise; the front of a message is refused or decodes to
the whole body; and every input is decoded, inside the input and within the limit, or refused. -/
theorem decodeChunked_exact (maxBytes : Nat) :
    (∀ message : ChunkedMessage, message.IsText → message.bytes.length ≤ isizeMax →
      decodeChunked message.bytes maxBytes =
        if message.body.length ≤ maxBytes then .ok message.body
        else .err (.responseTooLarge maxBytes)) ∧
    (∀ (message : ChunkedMessage) (front : Bytes), message.bytes.length ≤ isizeMax →
      front <+: message.bytes → front ≠ message.bytes →
      (∃ error, decodeChunked front maxBytes = .err error) ∨
        decodeChunked front maxBytes = .ok message.body) ∧
    ∀ input : Bytes, input.length ≤ isizeMax →
      ∃ result, decodeChunked input maxBytes = .returned result ∧
        ∀ body, result = .ok body → body.length ≤ maxBytes := by
  refine ⟨fun message htext hinput => ?_, fun message front hinput hfront _ => ?_,
    fun input hinput => ?_⟩
  · exact decodeChunkedFrom_chunks hinput htext.chunks htext.last message.ended (by omega)
      (Nat.le_refl 0) (Nat.zero_le _) (at_zero message.bytes)
  · exact decodeChunkedFrom_prefix (hfront.length_le.trans hinput) message.ended (by omega)
      (Nat.le_refl 0) (at_zero front) hfront
  · exact returned_of_sound hinput (by omega) ⟨Nat.zero_le _, Nat.le_refl 0, Nat.zero_le _⟩

/-! ### One byte -/

def digitLine (digit : Char) (extension : Bytes) (hhex : isHexDigit digit = true)
    (hsemicolon : extension = [] ∨ extension.head? = some 0x3b) (honeLine : ¬ crlf <:+: extension) :
    SizeLine where
  digits := [digit]
  extension := extension
  nonempty := List.cons_ne_nil _ _
  hex _ hc := List.mem_singleton.1 hc ▸ hhex
  semicolon := hsemicolon
  oneLine := honeLine

/-- A message of one byte, with an extension behind its size. -/
def oneByte (extension : Bytes) (hsemicolon : extension = [] ∨ extension.head? = some 0x3b)
    (honeLine : ¬ crlf <:+: extension) : ChunkedMessage where
  chunks := [{ line := digitLine '1' extension (by decide) hsemicolon honeLine, data := [0x61],
               nonempty := List.cons_ne_nil _ _, sized := rfl }]
  last := digitLine '0' [] (by decide) (Or.inl rfl) (by decide)
  ended := rfl
  trailing := []

/-- The extension `;a=1`. -/
def textExtension : ChunkedMessage := oneByte [0x3b, 0x61, 0x3d, 0x31] (by decide) (by decide)

/-- The extension is a semicolon and a byte that is in no text. -/
def binaryExtension : ChunkedMessage := oneByte [0x3b, 0xff] (by decide) (by decide)

/-- The size line with that extension. -/
def binaryLine : SizeLine := digitLine '1' [0x3b, 0xff] (by decide) (by decide) (by decide)

/-- No text has the byte `0xff` as its encoding. -/
theorem fromUtf8_binary : fromUtf8 [0x3b, 0xff] = none := by
  have hlast : fromUtf8 [0xff] = none := by
    cases htext : fromUtf8 [0xff] with
    | none => rfl
    | some t =>
      have hbytes := utf8_of_fromUtf8 htext
      cases t with
      | nil => cases hbytes
      | cons c t =>
        rw [utf8, List.flatMap_cons] at hbytes
        by_cases hc : c.toNat < 128
        · rw [utf8EncodeChar_of_ascii hc] at hbytes
          have hnat := congrArg UInt8.toNat (List.cons.inj hbytes).1
          rw [UInt8.toNat_ofNat', Nat.mod_eq_of_lt (by omega)] at hnat
          have hvalue : (0xff : UInt8).toNat = 255 := rfl
          omega
        · have hlength := congrArg List.length hbytes
          rw [List.length_append, String.length_utf8EncodeChar, List.length_singleton] at hlength
          have hone : c.utf8Size = 1 := by
            have := c.utf8Size_pos
            omega
          have hsmall := Char.utf8Size_eq_one_iff.1 hone
          rw [UInt32.le_iff_toNat_le] at hsmall
          exact absurd (Nat.lt_succ_of_le hsmall) hc
  have hsplit : ([0x3b, 0xff] : Bytes) = utf8 [';'] ++ [0xff] := rfl
  rw [hsplit, fromUtf8_append, hlast]
  rfl

/-- The byte behind the binary extension is within the limit, and is refused. -/
theorem decodeChunked_binary_extension :
    (¬ ∀ (message : ChunkedMessage) (maxBytes : Nat), message.bytes.length ≤ isizeMax →
      decodeChunked message.bytes maxBytes =
        if message.body.length ≤ maxBytes then .ok message.body
        else .err (.responseTooLarge maxBytes)) ∧
    decodeChunked binaryExtension.bytes 1 = .err (.invalidResponse "invalid chunk size") := by
  have hrefused : decodeChunked binaryExtension.bytes 1 =
      .err (.invalidResponse "invalid chunk size") := by
    have hsize : ¬ ((fromUtf8 binaryLine.extension).isSome = true ∧ binaryLine.size ≤ usizeMax) := by
      have hbinary : fromUtf8 binaryLine.extension = none := fromUtf8_binary
      rw [hbinary]
      exact fun h => Bool.false_ne_true h.1
    have hstart : At binaryExtension.bytes 0
        (binaryLine.bytes ++ (crlf ++ [0x61, 0x0d, 0x0a, 0x30, 0x0d, 0x0a])) :=
      at_zero binaryExtension.bytes
    rw [decodeChunked, decodeChunkedFrom, chunkRound_line hstart binaryLine.not_infix, chunkLine,
      SizeLine.chunkSize_bytes, if_neg hsize]
    rfl
  refine ⟨fun hclaim => ?_, hrefused⟩
  have hbody := hclaim binaryExtension 1 (by decide)
  rw [hrefused] at hbody
  cases hbody

/-- The byte behind the text extension arrives, the front of the message is no other body, and a size
alone is refused. -/
theorem decodeChunked_exact_sample :
    decodeChunked textExtension.bytes 1 = .ok [0x61] ∧
    ((∃ error, decodeChunked (textExtension.bytes.take 8) 1 = .err error) ∨
      decodeChunked (textExtension.bytes.take 8) 1 = .ok [0x61]) ∧
    ∃ result, decodeChunked [0x35] 1 = .returned result ∧
      ∀ body, result = .ok body → body.length ≤ 1 := by
  have htext : textExtension.IsText := by
    have hextension : fromUtf8 [0x3b, 0x61, 0x3d, 0x31] = some [';', 'a', '=', '1'] :=
      fromUtf8_utf8 [';', 'a', '=', '1']
    have hempty : fromUtf8 [] = some [] := fromUtf8_utf8 []
    refine ⟨fun chunk hchunk => ?_, congrArg Option.isSome hempty⟩
    rw [List.mem_singleton.1 hchunk]
    exact congrArg Option.isSome hextension
  have hexact := decodeChunked_exact 1
  exact ⟨hexact.1 textExtension htext (by decide),
    hexact.2.1 textExtension _ (by decide) (List.take_prefix 8 _) (by decide),
    hexact.2.2 [0x35] (by decide)⟩

end AppCore.Transport
