import AppCore.Base.Lines
import AppCore.Sync.FileLogRefines
import AppCore.Sync.LoadedLog

/-!
# Appends that fail

An append of the file-backed log can fail with an I/O error before its line was written, after a
part of it, or after all of it. The log then holds less than its file, or its file ends in a line
that was cut short.

* `length_logBody_le` — no accepted text is shorter than the canonical one, so that a file that was
  cut short can always be replaced.
-/

namespace AppCore.Sync

/-! ## The canonical text is the shortest -/

theorem ofDigitChars_lt {digits : List Char} (h : ∀ c ∈ digits, c.isDigit = true) :
    Nat.ofDigitChars 10 digits 0 < 10 ^ digits.length := by
  induction digits with
  | nil => simp
  | cons c digits ih =>
    have hrest := ih fun d hd => h d (List.mem_cons_of_mem _ hd)
    have hdigit : c.toNat - '0'.toNat ≤ 9 := by
      have hc := h c List.mem_cons_self
      simp only [Char.isDigit, Bool.and_eq_true, decide_eq_true_eq] at hc
      have hhi : c.toNat ≤ 57 := UInt32.le_iff_toNat_le.1 hc.2
      have hzero : '0'.toNat = 48 := rfl
      omega
    rw [Nat.ofDigitChars_cons, Nat.ofDigitChars_eq_ofDigitChars_zero, List.length_cons, pow_succ]
    have hmul := Nat.mul_le_mul_left (10 ^ digits.length) hdigit
    rw [Nat.mul_zero, Nat.zero_add]
    omega

variable {t : List Char}

/-- No numeral of a number is shorter than its decimal digits. -/
theorem length_decimal_le {x : UInt64} (h : parseU64 t = some x) :
    (decimal x.toNat).length ≤ t.length := by
  have hstrip : (stripPlus t).length ≤ t.length := by
    unfold stripPlus
    split
    · exact Nat.le_succ _
    · exact le_rfl
  unfold parseU64 at h
  dsimp only at h
  by_cases hdigits : ((stripPlus t).isEmpty || !(stripPlus t).all Char.isDigit) = true
  · rw [if_pos hdigits] at h
    cases h
  · rw [if_neg hdigits] at h
    rw [Bool.or_eq_true, not_or, Bool.not_eq_true, Bool.not_eq_true, Bool.not_eq_false',
      List.isEmpty_eq_false_iff] at hdigits
    obtain ⟨hne, hall⟩ := hdigits
    by_cases hvalue : Nat.ofDigitChars 10 (stripPlus t) 0 < 2 ^ 64
    · rw [if_pos hvalue] at h
      obtain rfl := Option.some.inj h
      rw [UInt64.toNat_ofNat_of_lt' hvalue]
      have hlt := ofDigitChars_lt (List.all_eq_true.1 hall)
      have hlength : (decimal (Nat.ofDigitChars 10 (stripPlus t) 0)).length ≤ (stripPlus t).length :=
        (Nat.length_toDigits_le_iff (by decide) (List.length_pos_iff.2 hne)).2 hlt
      exact hlength.trans hstrip
    · rw [if_neg hvalue] at h
      cases h

theorem length_fromHexPairs {digits bytes : Bytes} (heven : digits.length % 2 = 0)
    (h : fromHexPairs digits = some bytes) : digits.length = 2 * bytes.length := by
  induction digits using fromHexPairs.induct generalizing bytes with
  | case1 high low rest ih =>
    simp only [fromHexPairs, Option.bind_eq_bind, Option.bind_eq_some_iff] at h
    obtain ⟨_, -, _, -, found, hfound, hbytes⟩ := h
    obtain rfl := Option.some.inj hbytes
    simp only [List.length_cons] at heven ⊢
    have hrest := ih (by omega) hfound
    omega
  | case2 digits hother =>
    cases digits with
    | nil =>
      cases h
      rfl
    | cons high digits =>
      cases digits with
      | nil => cases heven
      | cons low rest => exact absurd rfl (hother high low rest)

theorem length_hexToBytes {bytes : Bytes} (h : hexToBytes t = .ok bytes) :
    (utf8 t).length = 2 * bytes.length := by
  unfold hexToBytes at h
  split at h
  · cases h
  next heven =>
    split at h
    next found hfound =>
      cases h
      exact length_fromHexPairs (not_not.1 heven) hfound
    next => cases h

/-- The line of a record is no longer than the line it was read from. -/
theorem length_recordFields_le [Sha256] {lineNumber : Nat} {done : List ReplicationRecord}
    {line : List Char} {r : ReplicationRecord}
    (h : parseRecord lineNumber done (sequenceIndices done) (chainHead "" done) line = .ok r) :
    (utf8 (recordFields r.sequence r.payload r.previousHash r.recordHash)).length ≤
      (utf8 line).length := by
  obtain ⟨-, -, -, sequenceField, payloadField, hfields, hsequence, hpayload⟩ := parseRecord_ok h
  have hline : line = sequenceField ++ '\t' :: (payloadField ++ '\t' ::
      (r.previousHash.toList ++ '\t' :: r.recordHash.toList)) := by
    have hjoin : ['\t'].intercalate (line.splitOn '\t') = line := List.intercalate_splitOn '\t'
    rw [← hjoin, hfields]
    simp [List.intercalate]
  have hdigits := length_decimal_le hsequence
  have hascii : IsAscii (decimal r.sequence.toNat) :=
    fun c hc => toNat_lt_of_isDigit (isDigit_of_mem_decimal hc)
  have hnumber : (utf8 (decimal r.sequence.toNat)).length ≤ (utf8 sequenceField).length := by
    rw [utf8_of_ascii hascii, List.length_map]
    exact hdigits.trans (length_utf8 sequenceField).1
  have hhex : (utf8 (bytesToHex r.payload).toList).length = (utf8 payloadField).length := by
    rw [length_hexToBytes hpayload, toList_bytesToHex, utf8_of_ascii (isAscii_lowerHex _),
      List.length_map, length_lowerHex]
  have htab (t : List Char) : (utf8 ('\t' :: t)).length = 1 + (utf8 t).length := by
    rw [← List.singleton_append, utf8_append, List.length_append]
    rfl
  rw [hline, recordFields]
  simp only [utf8_append, List.length_append, htab]
  omega

/-- The bytes of lines, each with a byte for its end. -/
def lineBytes (ls : List (List Char)) : Nat := (ls.map fun line => (utf8 line).length + 1).sum

theorem length_logBody_lines_le [Sha256] {lineNumber : Nat} {done records : List ReplicationRecord}
    {ls : List (List Char)} (hv : ValidRecords done)
    (h : parseRecordsFrom lineNumber done (sequenceIndices done) (chainHead "" done) ls =
      .ok records) :
    (utf8 (logBody records)).length ≤ (utf8 (logBody done)).length + lineBytes ls := by
  induction ls generalizing lineNumber done with
  | nil =>
    cases h
    exact Nat.le_add_right _ _
  | cons line ls ih =>
    have hsum : lineBytes (line :: ls) = (utf8 line).length + 1 + lineBytes ls := rfl
    rw [parseRecordsFrom] at h
    by_cases hblank : isBlank line = true
    · rw [if_pos hblank] at h
      have hrest := ih hv h
      omega
    · rw [if_neg hblank] at h
      cases hparse : parseRecord lineNumber done (sequenceIndices done) (chainHead "" done) line with
      | error e =>
        rw [hparse] at h
        cases h
      | ok r =>
        rw [hparse] at h
        dsimp only at h
        obtain ⟨hnext, hindices, hhead⟩ := parsed_snoc hv hparse
        rw [hindices, hhead] at h
        have hrest := ih hnext h
        have hfields := length_recordFields_le hparse
        have hline : (utf8 (logBody (done ++ [r]))).length = (utf8 (logBody done)).length +
            ((utf8 (recordFields r.sequence r.payload r.previousHash r.recordHash)).length + 1) := by
          have hone : logBody [r] =
              recordFields r.sequence r.payload r.previousHash r.recordHash ++ ['\n'] := by
            simp [logBody, recordLine]
          rw [logBody_append, hone, utf8_append, utf8_append, List.length_append,
            List.length_append]
          rfl
        omega

/-- The pieces of a text make it up. -/
theorem flatten_splitInclusive (sep : Char) (t : List Char) :
    (splitInclusive sep t).flatten = t := by
  induction t with
  | nil => rfl
  | cons c t ih =>
    rw [splitInclusive]
    by_cases hc : c = sep
    · rw [if_pos hc, List.flatten_cons, ih, List.singleton_append]
    · rw [if_neg hc]
      cases hpieces : splitInclusive sep t with
      | nil =>
        rw [hpieces] at ih
        rw [← ih]
        rfl
      | cons piece pieces =>
        rw [hpieces] at ih
        dsimp only
        rw [List.flatten_cons, List.cons_append, ← List.flatten_cons, ih]

/-- Every piece of an ended text is ended. -/
theorem getLast?_of_mem_splitInclusive {sep : Char} (h : Ended sep t) {piece : List Char}
    (hpiece : piece ∈ splitInclusive sep t) : piece.getLast? = some sep := by
  induction t generalizing piece with
  | nil => cases hpiece
  | cons c t ih =>
    rw [splitInclusive] at hpiece
    by_cases hc : c = sep
    · rw [if_pos hc] at hpiece
      obtain rfl | hmem := List.mem_cons.1 hpiece
      · rw [hc]
        rfl
      · exact ih h.tail hmem
    · rw [if_neg hc] at hpiece
      cases hpieces : splitInclusive sep t with
      | nil =>
        cases t with
        | nil =>
          obtain h | h := h
          · cases h
          · exact absurd (Option.some.inj h) hc
        | cons d t => exact absurd hpieces splitInclusive_ne_nil
      | cons first rest =>
        rw [hpieces] at hpiece ih
        obtain rfl | hmem := List.mem_cons.1 hpiece
        · have hfirst := ih h.tail List.mem_cons_self
          cases first with
          | nil => cases hfirst
          | cons d first => rw [List.getLast?_cons_cons, hfirst]
        · exact ih h.tail (List.mem_cons_of_mem _ hmem)

/-- The line of an ended piece is shorter than the piece. -/
theorem length_lineOf_lt {piece : List Char} (h : piece.getLast? = some '\n') :
    (utf8 (lineOf piece)).length + 1 ≤ (utf8 piece).length := by
  obtain ⟨line, rfl⟩ := List.getLast?_eq_some_iff.1 h
  have hstrip : stripSuffixChar '\n' (line ++ ['\n']) = some line := by
    simp [stripSuffixChar]
  have hlength : (utf8 (line ++ ['\n'])).length = (utf8 line).length + 1 := by
    rw [utf8_append, List.length_append]
    rfl
  rw [lineOf, hstrip, hlength]
  dsimp only
  refine Nat.succ_le_succ ?_
  unfold stripSuffixChar
  by_cases hreturn : line.getLast? = some '\r'
  · rw [if_pos hreturn, Option.getD_some]
    have hinit : (utf8 line.dropLast ).length ≤ (utf8 line).length := by
      obtain ⟨front, rfl⟩ := List.getLast?_eq_some_iff.1 hreturn
      rw [List.dropLast_concat, utf8_append, List.length_append]
      exact Nat.le_add_right _ _
    exact hinit
  · rw [if_neg hreturn, Option.getD_none]

theorem lineBytes_lines_le (h : Ended '\n' t) :
    lineBytes (lines t) ≤ (utf8 t).length := by
  have hpieces : ∀ pieces : List (List Char), (∀ piece ∈ pieces, piece.getLast? = some '\n') →
      lineBytes (pieces.map lineOf) ≤ (utf8 pieces.flatten).length := by
    intro pieces hended
    induction pieces with
    | nil => exact le_rfl
    | cons piece pieces ih =>
      have hfirst := length_lineOf_lt (hended piece List.mem_cons_self)
      have hrest := ih fun q hq => hended q (List.mem_cons_of_mem _ hq)
      have hsum : lineBytes ((piece :: pieces).map lineOf) =
          (utf8 (lineOf piece)).length + 1 + lineBytes (pieces.map lineOf) := rfl
      rw [List.flatten_cons, utf8_append, List.length_append, hsum]
      omega
  have hall := hpieces (splitInclusive '\n' t) fun piece => getLast?_of_mem_splitInclusive h
  rwa [flatten_splitInclusive] at hall

/-- **No accepted text is shorter than the canonical one.** -/
theorem length_logBody_le [Sha256] {body : List Char} {records : List ReplicationRecord}
    (h : parseReplicationRecords body = .ok (records, false)) :
    (encodeLog records).length ≤ (utf8 (markerLine ++ body)).length := by
  obtain ⟨complete, hcomplete, hparse⟩ := parseReplicationRecords_ok h
  obtain ⟨rfl, hended⟩ := ended_of_completeRecordPrefix hcomplete
  have hlines := length_logBody_lines_le validRecords_nil hparse
  have hbytes := lineBytes_lines_le hended
  rw [encodeLog, logText, utf8_append, utf8_append, List.length_append, List.length_append]
  rw [logBody_nil, utf8_nil, List.length_nil, Nat.zero_add] at hlines
  omega

/-- A tail without a newline behind an ended text is what is cut off. -/
theorem completeRecordPrefix_tail {body tail : List Char} (hbody : Ended '\n' body)
    (hne : tail ≠ []) (htail : '\n' ∉ tail) : completeRecordPrefix (body ++ tail) = (body, true) := by
  have hlast : (body ++ tail).getLast? ≠ some '\n' := by
    rw [List.getLast?_append_of_ne_nil _ hne]
    exact fun h => htail (List.mem_of_getLast? h)
  have hopen : ¬ ((body ++ tail).isEmpty = true ∨ (body ++ tail).getLast? = some '\n') := by
    intro h
    obtain h | h := h
    · simp [hne] at h
    · exact hlast h
  have hdrop : ∀ c ∈ tail.reverse, decide (c ≠ '\n') = true := by
    intro c hc
    rw [List.mem_reverse] at hc
    simpa using fun h : c = '\n' => htail (h ▸ hc)
  have hkeep : body.reverse.dropWhile (fun c => decide (c ≠ '\n')) = body.reverse := by
    obtain rfl | hended := hbody
    · rfl
    · rw [← List.head?_reverse] at hended
      obtain ⟨rest, hrest⟩ := List.head?_eq_some_iff.1 hended
      rw [hrest]
      simp
  rw [completeRecordPrefix, if_neg hopen, List.reverse_append, List.dropWhile_append_of_pos hdrop,
    hkeep, List.reverse_reverse]

theorem torn_take [Sha256] {events : List ReplicationRecord} (hv : ValidRecords events)
    (record : Bytes) (sequence : UInt64) {bytes : Nat} (hnone : bytes ≠ 0)
    (hall : ¬ (utf8 (nextLine events record sequence)).length ≤ bytes) :
    ∃ tail, (utf8 (nextLine events record sequence)).take bytes = utf8 tail ∧ '\n' ∉ tail ∧
      tail ≠ [] := by
  have hcut := List.length_take_of_le (Nat.le_of_not_le hall)
  have hstrict : (utf8 (nextLine events record sequence)).take bytes ≠
      utf8 (nextLine events record sequence) := by
    intro heq
    rw [heq] at hcut
    exact hall hcut.le
  obtain ⟨tail, htail, hnewline⟩ := torn_line hv (List.take_prefix _ _) hstrict
  refine ⟨tail, htail, hnewline, fun hnil => ?_⟩
  rw [htail, hnil] at hcut
  exact hnone hcut.symm

namespace FileReplicationLog

/-- A line that was cut short behind a settled file: the file is replaced by the canonical one. -/
theorem Settled.reload_torn [Sha256] {file : Bytes} {records : List ReplicationRecord}
    (h : Settled file records) {log : FileReplicationLog} {tail : List Char} (hne : tail ≠ [])
    (htail : '\n' ∉ tail) (hfile : log.file = file ++ utf8 tail)
    (hfits : log.file.length ≤ maxReplicationLogBytes) :
    (encodeLog records).length ≤ file.length ∧
      log.reload = (.ok (), ⟨encodeLog records, records, Sync.sequenceIndices records⟩) := by
  have hv := h.valid
  obtain ⟨body, hbody, hparse, hsize⟩ := h
  have hshort : (encodeLog records).length ≤ file.length := by
    rw [hbody]
    exact length_logBody_le hparse
  refine ⟨hshort, ?_⟩
  obtain ⟨complete, hcomplete, hrecords⟩ := parseReplicationRecords_ok hparse
  obtain ⟨rfl, hended⟩ := ended_of_completeRecordPrefix hcomplete
  have hall : parseRecordsFrom 0 [] ∅ "" (lines complete) = .ok records := hrecords
  have htorn : parseReplicationRecords (complete ++ tail) = .ok (records, true) := by
    simp only [parseReplicationRecords, completeRecordPrefix_tail hended hne htail, hall]
  have hread : readBoundedText log.file maxReplicationLogBytes =
      .ok (markerLine ++ (complete ++ tail)) := by
    rw [readBoundedText, if_neg (Nat.not_lt.2 hfits), hfile, hbody, ← utf8_append, fromUtf8_utf8,
      List.append_assoc]
  unfold FileReplicationLog.reload
  rw [hread]
  dsimp only
  rw [splitFormat_marker]
  dsimp only
  rw [htorn]
  dsimp only
  rw [if_pos rfl, writeReplicationRecords_ok hv (hshort.trans hsize)]

/-! ## Lines that were cut short -/

/-- The log with what was loaded and a part of the next record's line behind it. -/
def cutShort [Sha256] (loaded : FileReplicationLog) (record : Bytes) (sequence : UInt64)
    (bytes : Nat) : FileReplicationLog :=
  { loaded with
    file := loaded.file ++ (utf8 (nextLine loaded.events record sequence)).take bytes }

variable {record : Bytes} {sequence : UInt64} {log loaded : FileReplicationLog} {bytes : Nat}

/-- A part of a line behind the bare marker cannot be loaded. -/
theorem cutShort_unreadable [Sha256] (hload : log.reload = (.ok (), loaded))
    (hmarker : MarkerOnly log.file) (happendable : Appendable loaded record sequence)
    (hbytes : 0 < bytes) :
    (loaded.cutShort record sequence bytes).reload =
      (.error (.replicationFailed updateRequiredMessage),
        loaded.cutShort record sequence bytes) := by
  rw [reload_bare hmarker] at hload
  rw [← (Prod.mk.inj hload).2] at happendable ⊢
  obtain ⟨c, rest, hline, hc⟩ := nextLine_cons validRecords_nil record sequence
  have hfits := happendable.fits
  rw [extended, List.length_append] at hfits
  have hbound : (cutShort ⟨log.file, [], ∅⟩ record sequence bytes).file.length ≤
      maxReplicationLogBytes := by
    rw [cutShort, List.length_append, List.length_take]
    omega
  have hpart : ∃ d tail, d ≠ '\n' ∧
      (utf8 (nextLine [] record sequence)).take bytes = utf8 (d :: tail) := by
    by_cases hall : (utf8 (nextLine [] record sequence)).length ≤ bytes
    · exact ⟨c, rest, hc, by rw [List.take_of_length_le hall, hline]⟩
    · obtain ⟨tail, htail, hnewline, hne⟩ :=
        torn_take validRecords_nil record sequence hbytes.ne' hall
      cases tail with
      | nil => exact absurd rfl hne
      | cons d tail => exact ⟨d, tail, fun hd => hnewline (hd ▸ List.mem_cons_self), htail⟩
  obtain ⟨d, tail, hd, htail⟩ := hpart
  have hfile : (cutShort ⟨log.file, [], ∅⟩ record sequence bytes).file =
      utf8 (replicationLogFormatV1.toList ++ d :: tail) := by
    rw [cutShort, htail, hmarker, ← utf8_append]
  exact reload_markerOnly hd hfile hbound

/-- The log with the canonical file of its records. -/
def canonical [Sha256] (loaded : FileReplicationLog) : FileReplicationLog :=
  { loaded with file := encodeLog loaded.events }

/-- **What a line that was cut short leaves** behind any other file: what was loaded, when nothing
of it was written, the next record, when all of it was, and else what was loaded, in a file that is
no longer than before. -/
theorem reload_cutShort [Sha256] (hload : log.reload = (.ok (), loaded))
    (hmarker : 0 < bytes → ¬ MarkerOnly log.file) (happendable : Appendable loaded record sequence) :
    
    (loaded.cutShort record sequence bytes).reload = (.ok (), loaded) ∨
      (loaded.cutShort record sequence bytes).reload = (.ok (), loaded.extended record sequence) ∨
      (loaded.cutShort record sequence bytes).reload = (.ok (), loaded.canonical) ∧
        Settled loaded.file loaded.events ∧ loaded.canonical.file.length ≤ loaded.file.length := by
  by_cases hnone : bytes = 0
  · left
    have hfile : (loaded.cutShort record sequence bytes).file = loaded.file := by
      rw [cutShort, hnone, List.take_zero, List.append_nil]
    exact reload_loaded hload hfile
  have hmarker := hmarker (Nat.pos_of_ne_zero hnone)
  have hsettled := settled_of_reload hload hmarker
  by_cases hall : (utf8 (nextLine loaded.events record sequence)).length ≤ bytes
  · refine .inr (.inl ?_)
    have hfile : (loaded.cutShort record sequence bytes).file =
        (loaded.extended record sequence).file := by
      rw [cutShort, List.take_of_length_le hall]
      rfl
    exact reload_of_file hfile (reload_extended hload hmarker happendable)
  · refine .inr (.inr ?_)
    obtain ⟨tail, htail, hnewline, hne⟩ := torn_take hsettled.valid record sequence hnone hall
    have hfits := happendable.fits
    rw [extended, List.length_append] at hfits
    have hbound : (loaded.cutShort record sequence bytes).file.length ≤
        maxReplicationLogBytes := by
      rw [cutShort, List.length_append, List.length_take]
      omega
    have hfile : (loaded.cutShort record sequence bytes).file = loaded.file ++ utf8 tail := by
      rw [cutShort, htail]
    obtain ⟨hshort, hreload⟩ := hsettled.reload_torn hne hnewline hfile hbound
    obtain ⟨-, -, -, -, -, -, hindices, -⟩ := reload_cases hload
    refine ⟨?_, hsettled, hshort⟩
    rw [hreload, canonical, hindices]

/-! ## An append that fails -/

/-- Where an append stops with an I/O error. -/
inductive AppendFault where
  /-- The lock or the file could not be had. -/
  | unread
  /-- A file that was cut short was replaced, and that was reported as failed. -/
  | replaced
  /-- So many bytes of the line had reached the file. -/
  | written (bytes : Nat)
  deriving DecidableEq

/-- `append_with_sequence` with an I/O error, which it reports unless it returns before. -/
def appendFailing [Sha256] (fault : AppendFault) (error : String) (log : FileReplicationLog)
    (record : Bytes) (sequence : UInt64) : SyncResult Nat × FileReplicationLog :=
  match fault with
  | .unread => (.error (.replicationFailed error), log)
  | .replaced =>
    match log.reload with
    | (.error e, log) => (.error e, log)
    | (.ok (), loaded) =>
      if loaded.file = log.file then log.appendWithSequence record sequence
      else (.error (.replicationFailed error), { log with file := loaded.file })
  | .written bytes =>
    match log.reload with
    | (.error e, log) => (.error e, log)
    | (.ok (), log) =>
      match validateRecordSize record with
      | .error e => (.error e, log)
      | .ok () =>
        match lookupSequence log.events log.sequenceIndices sequence with
        | some existing =>
          if existing.payload = record then (.ok existing.index, log)
          else (.error (.sequenceConflict sequence), log)
        | none =>
          let entry := nextRecord log.events record sequence
          let line := utf8 (recordLine sequence record entry.previousHash entry.recordHash)
          if log.file.length + line.length > maxReplicationLogBytes then
            (.error (.replicationFailed "replication log exceeds configured limit"), log)
          else
            (.error (.replicationFailed error),
              { log with file := log.file ++ line.take bytes })

theorem appendFailing_written [Sha256] (hload : log.reload = (.ok (), loaded))
    (happendable : Appendable loaded record sequence) (bytes : Nat) (error : String) :
    log.appendFailing (.written bytes) error record sequence =
      (.error (.replicationFailed error), loaded.cutShort record sequence bytes) := by
  have hroom : ¬ loaded.file.length + (utf8 (recordLine sequence record
      (nextRecord loaded.events record sequence).previousHash
      (nextRecord loaded.events record sequence).recordHash)).length > maxReplicationLogBytes := by
    have hfits := happendable.fits
    rw [extended, List.length_append] at hfits
    exact Nat.not_lt.2 hfits
  simp only [appendFailing, hload, validateRecordSize_eq_ok.2 happendable.size, happendable.free,
    if_neg hroom]
  rfl

/-- **Where an append is stopped**: nowhere, as it returns before, or in one of three states. -/
theorem appendFailing_cases [Sha256] (fault : AppendFault) (error : String)
    (log : FileReplicationLog) (record : Bytes) (sequence : UInt64) :
    log.appendFailing fault error record sequence = log.appendWithSequence record sequence ∨
      fault = .unread ∧
        log.appendFailing fault error record sequence = (.error (.replicationFailed error), log) ∨
      ∃ loaded, log.reload = (.ok (), loaded) ∧
        (fault = .replaced ∧ log.appendFailing fault error record sequence =
            (.error (.replicationFailed error), { log with file := loaded.file }) ∨
          ∃ bytes, fault = .written bytes ∧ Appendable loaded record sequence ∧
            log.appendFailing fault error record sequence =
              (.error (.replicationFailed error), loaded.cutShort record sequence bytes)) := by
  cases fault with
  | unread => exact .inr (.inl ⟨rfl, rfl⟩)
  | replaced =>
    cases hload : log.reload with
    | mk result loaded =>
      cases result with
      | error e =>
        left
        simp only [appendFailing, appendWithSequence, hload]
      | ok _ =>
        by_cases hsame : loaded.file = log.file
        · left
          simp only [appendFailing, hload, if_pos hsame]
        · refine .inr (.inr ⟨loaded, rfl, .inl ⟨rfl, ?_⟩⟩)
          simp only [appendFailing, hload, if_neg hsame]
  | written bytes =>
    obtain ⟨e, hload, h⟩ | ⟨loaded, hload, ⟨e, h⟩ | ⟨existing, hsize, hlookup, hsame, h⟩ |
      ⟨happendable, h⟩⟩ := append_cases log record sequence
    · left
      simp only [appendFailing, hload, h]
    · -- refused for its size, for a conflict or for the size of the log, before any byte is written
      left
      rw [h]
      unfold appendWithSequence at h
      rw [hload] at h
      simp only [appendFailing, hload]
      cases hsize : validateRecordSize record with
      | error e =>
        rw [hsize] at h
        exact h
      | ok _ =>
        rw [hsize] at h
        dsimp only at h ⊢
        cases hlookup : lookupSequence loaded.events loaded.sequenceIndices sequence with
        | some existing =>
          rw [hlookup] at h
          exact h
        | none =>
          rw [hlookup] at h
          dsimp only at h ⊢
          split at h
          next hover =>
            rw [if_pos hover]
            exact h
          next => cases h
    · left
      simp only [appendFailing, hload, validateRecordSize_eq_ok.2 hsize, hlookup, if_pos hsame, h]
    · exact .inr (.inr ⟨loaded, hload, .inr ⟨bytes, rfl, happendable,
        appendFailing_written hload happendable bytes error⟩⟩)

/-- Logs that show the same records, from the same file or from files that hold these records. -/
structure SameRecords [Sha256] (a b : FileReplicationLog) : Prop where
  events : b.events = a.events
  indices : b.sequenceIndices = a.sequenceIndices
  files : b.file = a.file ∨ Settled a.file a.events ∧ Settled b.file a.events ∧
    b.file.length ≤ a.file.length ∧ a.sequenceIndices = Sync.sequenceIndices a.events

theorem SameRecords.refl [Sha256] (log : FileReplicationLog) : SameRecords log log :=
  ⟨rfl, rfl, .inl rfl⟩

/-- The bytes of a line have gone to the bare marker. -/
def Spoilt (log : FileReplicationLog) (fault : AppendFault) : Prop :=
  MarkerOnly log.file ∧ ∃ bytes, 0 < bytes ∧ fault = .written bytes

theorem append_again [Sha256] (hpos : 0 < sequence)
    (hload : log.reload = (.ok (), loaded.extended record sequence))
    (hsize : record.length ≤ maxReplicationRecordBytes) :
    log.appendWithSequence record sequence =
      (.ok (loaded.events.length + 1), loaded.extended record sequence) := by
  have hv : ValidRecords (loaded.extended record sequence).events := validRecords_of_reload hload
  have hlookup := (lookupSequence_eq_some hv).2
    ⟨hpos, List.mem_append_right loaded.events List.mem_cons_self, rfl⟩
  exact append_held hload hsize hlookup rfl

/-- The same append, after some bytes of its line were written. -/
theorem resumes_written [Sha256] (hpos : 0 < sequence) (hload : log.reload = (.ok (), loaded))
    (happendable : Appendable loaded record sequence) (hmarker : 0 < bytes → ¬ MarkerOnly log.file) :
    
    ∃ again, (loaded.cutShort record sequence bytes).appendWithSequence record sequence =
        (.ok (loaded.events.length + 1), again) ∧
      SameRecords (loaded.extended record sequence) again := by
  obtain hsame | hwhole | ⟨hcanonical, hsettled, hshort⟩ :=
    reload_cutShort hload hmarker happendable
  · exact ⟨_, append_free hsame happendable.size happendable.free happendable.fits, .refl _⟩
  · exact ⟨_, append_again hpos hwhole happendable.size, .refl _⟩
  · have hfits := happendable.fits
    have hunused := happendable.unused hload
    have hroom : (loaded.canonical.extended record sequence).file.length ≤
        maxReplicationLogBytes := by
      rw [extended, List.length_append] at hfits ⊢
      have hlines : nextLine loaded.canonical.events record sequence =
          nextLine loaded.events record sequence := rfl
      rw [hlines]
      omega
    have hfile : Settled loaded.canonical.file loaded.events :=
      settled_canonical hsettled.valid (le_trans hshort (settled_length hsettled))
    have happend := append_free hcanonical happendable.size happendable.free hroom
    refine ⟨_, happend, rfl, rfl, .inr ⟨hsettled.append happendable.size hunused hfits,
      hfile.append happendable.size hunused hroom, ?_, rfl⟩⟩
    simp only [extended, List.length_append, canonical] at hshort ⊢
    omega

/-- **Trying again** after an append that was stopped gives what the append would have given. -/
theorem resumes [Sha256] {log after stopped : FileReplicationLog} {index : Nat}
    {fault : AppendFault} {error : String} {e : SyncError} (hpos : 0 < sequence)
    (hok : log.appendWithSequence record sequence = (.ok index, after))
    (hfail : log.appendFailing fault error record sequence = (.error e, stopped))
    (hspoilt : ¬ Spoilt log fault) :
    ∃ again, stopped.appendWithSequence record sequence = (.ok index, again) ∧
      SameRecords after again := by
  obtain h | ⟨-, h⟩ | ⟨loaded, hload, ⟨-, h⟩ | ⟨bytes, hfault, happendable, h⟩⟩ :=
    appendFailing_cases fault error log record sequence
  · rw [h, hok] at hfail
    cases hfail
  · rw [h] at hfail
    cases hfail
    exact ⟨after, hok, .refl after⟩
  · rw [h] at hfail
    cases hfail
    have hagain : ({ log with file := loaded.file } : FileReplicationLog).reload =
        (.ok (), loaded) := reload_loaded hload rfl
    rw [append_congr hagain hload]
    exact ⟨after, hok, .refl after⟩
  · rw [h] at hfail
    cases hfail
    rw [append_free hload happendable.size happendable.free happendable.fits] at hok
    cases hok
    exact resumes_written hpos hload happendable
      fun hbytes hmarker => hspoilt ⟨hmarker, bytes, hbytes, hfault⟩

/-- An append goes the same way in logs that show the same. -/
theorem SameRecords.append [Sha256] {a b after : FileReplicationLog} {index : Nat}
    (h : SameRecords a b) (hok : a.appendWithSequence record sequence = (.ok index, after)) :
    ∃ after', b.appendWithSequence record sequence = (.ok index, after') ∧
      SameRecords after after' := by
  obtain ⟨file, events, indices⟩ := b
  obtain ⟨hevents, hindices, hfiles⟩ := h
  dsimp only at hevents hindices hfiles
  subst hevents hindices
  obtain rfl | ⟨ha, hb, hshort, hindices⟩ := hfiles
  · exact ⟨after, hok, .refl after⟩
  · have hareload : a.reload = (.ok (), a) := by
      rw [ha.reload, ← hindices]
    have hbreload : FileReplicationLog.reload ⟨file, a.events, a.sequenceIndices⟩ =
        (.ok (), ⟨file, a.events, a.sequenceIndices⟩) := by
      have hb' : Settled (FileReplicationLog.mk file a.events a.sequenceIndices).file a.events := hb
      rw [hb'.reload, ← hindices]
    obtain ⟨loaded, hload, hcases⟩ := append_ok hok
    obtain rfl : loaded = a := (Prod.mk.inj (hload.symm.trans hareload)).2
    obtain ⟨existing, hsize, hlookup, hsame, rfl, rfl⟩ | ⟨happendable, rfl, rfl⟩ := hcases
    · exact ⟨_, append_held hbreload hsize hlookup hsame, rfl, rfl, .inr ⟨ha, hb, hshort, hindices⟩⟩
    · have hunused (hpos : 0 < sequence) : ∀ r ∈ loaded.events, r.sequence ≠ sequence :=
        happendable.unused hload hpos
      have hfits := happendable.fits
      have hroom : (file ++ utf8 (nextLine loaded.events record sequence)).length ≤
          maxReplicationLogBytes := by
        rw [extended, List.length_append] at hfits
        rw [List.length_append]
        omega
      have happend := append_free hbreload happendable.size happendable.free hroom
      refine ⟨_, happend, rfl, rfl, .inr ⟨ha.append happendable.size hunused hfits,
        hb.append happendable.size hunused hroom, ?_, rfl⟩⟩
      simp only [extended, List.length_append]
      omega

/-- What the file of a log is loaded as. -/
def stored [Sha256] (log : FileReplicationLog) : SyncResult (List ReplicationRecord) :=
  match log.reload with
  | (.error e, _) => .error e
  | (.ok (), loaded) => .ok loaded.events

theorem SameRecords.stored [Sha256] {a b : FileReplicationLog} (h : SameRecords a b) :
    b.stored = a.stored := by
  obtain ⟨file, events, indices⟩ := b
  obtain ⟨hevents, hindices, hfiles⟩ := h
  dsimp only at hevents hindices hfiles
  subst hevents hindices
  obtain rfl | ⟨ha, hb, -, -⟩ := hfiles
  · rfl
  · have hb' : Settled (FileReplicationLog.mk file a.events a.sequenceIndices).file a.events := hb
    unfold FileReplicationLog.stored
    rw [ha.reload, hb'.reload]

end FileReplicationLog

end AppCore.Sync
