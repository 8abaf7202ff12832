import AppCore.Sync.FileLogProof

/-!
# Logs that were loaded

A file is accepted in more shapes than it is written in: lines may be blank, end in `\r\n`, have
digits of either case, and the last one may be cut short. Whatever its shape, the records that are
loaded from it are well formed (`reload_cases`), and the parser goes on behind them as behind the
canonical text (`parseRecordsFrom_append`).

* `append_after_load_iff` — after an append the file loads again, with the new record at the end,
  unless it is the marker without its newline: then the line is written behind the marker.
-/

namespace AppCore.Sync

/-! ## Ended texts -/

/-- The text has no line that is not ended. -/
def Ended (sep : Char) (t : List Char) : Prop := t = [] ∨ t.getLast? = some sep

variable {t : List Char}

theorem Ended.tail {sep c : Char} (h : Ended sep (c :: t)) : Ended sep t := by
  obtain h | h := h
  · cases h
  · cases t with
    | nil => exact .inl rfl
    | cons d t => exact .inr (by simpa [List.getLast?_cons_cons] using h)

theorem splitInclusive_ne_nil {sep c : Char} : splitInclusive sep (c :: t) ≠ [] := by
  rw [splitInclusive]
  split
  · simp
  · split <;> simp

/-- The lines behind an ended text are split by themselves. -/
theorem splitInclusive_append {sep : Char} (h : Ended sep t) (rest : List Char) :
    splitInclusive sep (t ++ rest) = splitInclusive sep t ++ splitInclusive sep rest := by
  induction t with
  | nil => rfl
  | cons c t ih =>
    have hrest := ih h.tail
    rw [List.cons_append, splitInclusive, splitInclusive]
    by_cases hc : c = sep
    · rw [if_pos hc, if_pos hc, hrest, List.cons_append]
    · rw [if_neg hc, if_neg hc, hrest]
      cases t with
      | nil =>
        obtain h | h := h
        · cases h
        · exact absurd (Option.some.inj h) hc
      | cons d t =>
        cases hpieces : splitInclusive sep (d :: t) with
        | nil => exact absurd hpieces splitInclusive_ne_nil
        | cons piece pieces => rfl

theorem lines_append (h : Ended '\n' t) (rest : List Char) :
    lines (t ++ rest) = lines t ++ lines rest := by
  rw [lines, splitInclusive_append h, List.map_append]
  rfl

theorem completeRecordPrefix_ended (h : Ended '\n' t) :
    completeRecordPrefix t = (t, false) := by
  rw [completeRecordPrefix, if_pos]
  exact h.imp (fun h => by rw [h]; rfl) id

theorem ended_of_completeRecordPrefix {t complete : List Char}
    (h : completeRecordPrefix t = (complete, false)) : complete = t ∧ Ended '\n' t := by
  unfold completeRecordPrefix at h
  split at h
  next hended =>
    cases h
    exact ⟨rfl, hended.imp List.isEmpty_iff.1 id⟩
  next => cases h

/-! ## What the parser accepts -/

variable {lineNumber : Nat}

/-- A line that is accepted holds the next record. -/
theorem parseRecord_ok [Sha256] {done : List ReplicationRecord} {line : List Char}
    {r : ReplicationRecord}
    (h : parseRecord lineNumber done (sequenceIndices done) (chainHead "" done) line = .ok r) :
    r = nextRecord done r.payload r.sequence ∧ r.payload.length ≤ maxReplicationRecordBytes ∧
      (0 < r.sequence → ∀ q ∈ done, q.sequence ≠ r.sequence) ∧
      ∃ sequenceField payloadField, line.splitOn '\t' =
          [sequenceField, payloadField, r.previousHash.toList, r.recordHash.toList] ∧
        parseU64 sequenceField = some r.sequence ∧ hexToBytes payloadField = .ok r.payload := by
  unfold parseRecord at h
  split at h
  next sequenceField payloadField previousField hashField hfields =>
    split at h
    · cases h
    next sequence hsequence =>
      split at h
      · cases h
      next payload hpayload =>
        split at h
        · cases h
        next hsize =>
          dsimp only at h
          split at h
          · cases h
          next hchain =>
            obtain ⟨hprevious, hhash⟩ := not_or.1 hchain
            rw [not_not] at hprevious hhash
            split at h
            next => split at h <;> cases h
            next hunused =>
              cases h
              refine ⟨rfl, validateRecordSize_eq_ok.1 hsize, fun hpos => ?_,
                sequenceField, payloadField, ?_, hsequence, hpayload⟩
              · rw [if_pos hpos] at hunused
                exact getElem?_sequenceIndices_none.1 hunused
              · rw [hfields, hprevious, hhash]
  next => cases h

/-- The accepted record extends well-formed records, and the parser goes on behind it as behind
records of any origin. -/
theorem parsed_snoc [Sha256] {done : List ReplicationRecord} {line : List Char}
    {r : ReplicationRecord} (hv : ValidRecords done)
    (h : parseRecord lineNumber done (sequenceIndices done) (chainHead "" done) line = .ok r) :
    ValidRecords (done ++ [r]) ∧
      (sequenceIndices done).insert r.sequence (r.index - 1) = sequenceIndices (done ++ [r]) ∧
      r.recordHash = chainHead "" (done ++ [r]) := by
  obtain ⟨hr, hsize, hfree, -⟩ := parseRecord_ok h
  have hindex : r.index - 1 = done.length := by
    rw [hr]
    rfl
  refine ⟨?_, ?_, by simp [chainHead]⟩
  · have hsnoc := hv.snoc hsize hfree
    rwa [← hr] at hsnoc
  · rw [sequenceIndices_snoc, hindex]

/-- **What is parsed is well formed**, and lines behind it are parsed behind its records. -/
theorem parseRecordsFrom_append [Sha256] {done records : List ReplicationRecord}
    {ls : List (List Char)} (hv : ValidRecords done)
    (h : parseRecordsFrom lineNumber done (sequenceIndices done) (chainHead "" done) ls =
      .ok records) :
    ValidRecords records ∧ ∀ ms,
      parseRecordsFrom lineNumber done (sequenceIndices done) (chainHead "" done) (ls ++ ms) =
        parseRecordsFrom (lineNumber + ls.length) records (sequenceIndices records)
          (chainHead "" records) ms := by
  induction ls generalizing lineNumber done with
  | nil =>
    cases h
    exact ⟨hv, fun ms => rfl⟩
  | cons line ls ih =>
    have hlength : lineNumber + (line :: ls).length = lineNumber + 1 + ls.length := by
      rw [List.length_cons]
      omega
    rw [parseRecordsFrom] at h
    by_cases hblank : isBlank line = true
    · rw [if_pos hblank] at h
      obtain ⟨hvalid, hrest⟩ := ih hv h
      refine ⟨hvalid, fun ms => ?_⟩
      rw [List.cons_append, parseRecordsFrom, if_pos hblank, hrest, hlength]
    · rw [if_neg hblank] at h
      cases hparse : parseRecord lineNumber done (sequenceIndices done) (chainHead "" done) line with
      | error e =>
        rw [hparse] at h
        cases h
      | ok r =>
        rw [hparse] at h
        dsimp only at h
        obtain ⟨hnext, hindices, hhead⟩ := parsed_snoc hv hparse
        rw [hindices, hhead] at h
        obtain ⟨hvalid, hrest⟩ := ih hnext h
        refine ⟨hvalid, fun ms => ?_⟩
        rw [List.cons_append, parseRecordsFrom, if_neg hblank, hparse]
        dsimp only
        rw [hindices, hhead, hrest, hlength]

variable {body : List Char} {records : List ReplicationRecord}

theorem parseReplicationRecords_ok [Sha256] {recoveredTail : Bool}
    (h : parseReplicationRecords body = .ok (records, recoveredTail)) :
    ∃ complete, completeRecordPrefix body = (complete, recoveredTail) ∧
      parseRecordsFrom 0 [] (sequenceIndices []) (chainHead "" []) (lines complete) =
        .ok records := by
  unfold parseReplicationRecords at h
  split at h
  next complete recovered hcomplete =>
    split at h
    · cases h
    next found hfound =>
      cases h
      exact ⟨complete, hcomplete, hfound⟩

theorem validRecords_of_parse [Sha256] {recoveredTail : Bool}
    (h : parseReplicationRecords body = .ok (records, recoveredTail)) :
    ValidRecords records := by
  obtain ⟨complete, -, hparse⟩ := parseReplicationRecords_ok h
  exact (parseRecordsFrom_append validRecords_nil hparse).1

/-- A written line behind an accepted text without a torn tail. -/
theorem parseReplicationRecords_next [Sha256]
    (h : parseReplicationRecords body = .ok (records, false)) {record : Bytes} {sequence : UInt64}
    (hsize : record.length ≤ maxReplicationRecordBytes)
    (hfree : 0 < sequence → ∀ r ∈ records, r.sequence ≠ sequence) :
    parseReplicationRecords (body ++ nextLine records record sequence) =
      .ok (records ++ [nextRecord records record sequence], false) := by
  obtain ⟨complete, hcomplete, hparse⟩ := parseReplicationRecords_ok h
  obtain ⟨rfl, hended⟩ := ended_of_completeRecordPrefix hcomplete
  obtain ⟨hv, hrest⟩ := parseRecordsFrom_append validRecords_nil hparse
  have hline : nextLine records record sequence = nextFields records record sequence ++ ['\n'] := rfl
  have hlines : lines (nextLine records record sequence) = [nextFields records record sequence] := by
    rw [hline, lines_line (not_mem_nextFields hv (by decide) record sequence)
      (not_mem_nextFields hv (by decide) record sequence), lines_nil]
  have hended' : Ended '\n' (complete ++ nextLine records record sequence) := by
    right
    rw [hline, ← List.append_assoc, List.getLast?_append_of_ne_nil _ (by simp)]
    rfl
  have hparsed := hrest [nextFields records record sequence]
  rw [parseRecordsFrom, if_neg (by rw [isBlank_nextFields]; exact Bool.false_ne_true),
    parseRecord_nextFields hv hsize hfree] at hparsed
  have hall : parseRecordsFrom 0 [] ∅ "" (lines complete ++ [nextFields records record sequence]) =
      .ok (records ++ [nextRecord records record sequence]) := hparsed
  unfold parseReplicationRecords
  rw [completeRecordPrefix_ended hended']
  simp only [lines_append hended, hlines, hall]

/-! ## Files that load -/

/-- The text behind the marker: it follows the marker's newline, or there is nothing. -/
theorem splitFormat_ok {text body : List Char} {marker : String}
    (h : splitFormat text marker = .ok body) :
    text = marker.toList ++ '\n' :: body ∨ text = marker.toList ∧ body = [] := by
  unfold splitFormat at h
  split at h
  next found hfound =>
    cases h
    obtain ⟨rest, hrest, hbody⟩ := Option.bind_eq_some_iff.1 hfound
    obtain ⟨front, htext, hfront⟩ := List.dropPrefix?_eq_some_iff.1 hrest
    obtain ⟨newline, hsplit, hnewline⟩ := List.dropPrefix?_eq_some_iff.1 hbody
    rw [eq_of_beq hnewline] at hsplit
    left
    rw [htext, eq_of_beq hfront, hsplit]
    rfl
  next =>
    by_cases htext : text = marker.toList
    · rw [if_pos htext] at h
      cases h
      exact .inr ⟨htext, rfl⟩
    · rw [if_neg htext] at h
      cases h

/-- Only a newline may follow the marker. -/
theorem splitFormat_other {marker : String} {c : Char} {rest : List Char} (hc : c ≠ '\n') :
    splitFormat (marker.toList ++ c :: rest) marker = .error (.replicationFailed
      updateRequiredMessage) := by
  cases h : splitFormat (marker.toList ++ c :: rest) marker with
  | error e =>
    unfold splitFormat at h
    split at h
    · cases h
    · split at h
      · cases h
      · rw [← h]
  | ok body =>
    obtain htext | ⟨htext, -⟩ := splitFormat_ok h
    · obtain ⟨hhead, -⟩ := List.cons.inj (List.append_cancel_left htext)
      exact absurd hhead hc
    · simp at htext

namespace FileReplicationLog

/-- The file is the marker without its newline. -/
def MarkerOnly (file : Bytes) : Prop := file = utf8 replicationLogFormatV1.toList

instance (file : Bytes) : Decidable (MarkerOnly file) := inferInstanceAs (Decidable (_ = _))

variable {log loaded : FileReplicationLog}

/-- What a reload that succeeds has read, and what it leaves. -/
theorem reload_cases [Sha256] (h : log.reload = (.ok (), loaded)) :
    ∃ text body recoveredTail, readBoundedText log.file maxReplicationLogBytes = .ok text ∧
      splitFormat text replicationLogFormatV1 = .ok body ∧
      parseReplicationRecords body = .ok (loaded.events, recoveredTail) ∧
      loaded.sequenceIndices = Sync.sequenceIndices loaded.events ∧
      (recoveredTail = false ∧ loaded.file = log.file ∨
        recoveredTail = true ∧ writeReplicationRecords loaded.events = .ok loaded.file) := by
  unfold reload at h
  split at h
  · cases h
  next text hread =>
    split at h
    · cases h
    next body hsplit =>
      split at h
      · cases h
      next records recoveredTail hparse =>
        split at h
        next htail =>
          split at h
          · cases h
          next file hwrite =>
            cases h
            exact ⟨text, body, recoveredTail, hread, hsplit, hparse, rfl, .inr ⟨htail, hwrite⟩⟩
        next htail =>
          cases h
          exact ⟨text, body, recoveredTail, hread, hsplit, hparse, rfl,
            .inl ⟨Bool.eq_false_iff.2 htail, rfl⟩⟩

/-- What is loaded depends on the file only. -/
theorem reload_of_file [Sha256] {a b loaded : FileReplicationLog} (hfile : b.file = a.file)
    (h : a.reload = (.ok (), loaded)) : b.reload = (.ok (), loaded) := by
  unfold reload at h ⊢
  rw [hfile]
  split at h
  · cases h
  · split at h
    · cases h
    · split at h
      · cases h
      · split at h
        next htail =>
          split at h
          · cases h
          · rw [if_pos htail]
            exact h
        next htail =>
          rw [if_neg htail]
          exact h

theorem validRecords_of_reload [Sha256] (h : log.reload = (.ok (), loaded)) :
    ValidRecords loaded.events := by
  obtain ⟨-, body, recoveredTail, -, -, hparse, -, -⟩ := reload_cases h
  exact validRecords_of_parse hparse

/-! ## What an append does with the loaded file -/

theorem reload_error [Sha256] {log after : FileReplicationLog} {e : SyncError}
    (h : log.reload = (.error e, after)) : after = log := by
  unfold reload at h
  split at h
  · cases h
    rfl
  · split at h
    · cases h
      rfl
    · split at h
      · cases h
        rfl
      · split at h
        · split at h
          · cases h
            rfl
          · cases h
        · cases h

theorem append_congr [Sha256] {a b loaded : FileReplicationLog} (ha : a.reload = (.ok (), loaded))
    (hb : b.reload = (.ok (), loaded)) (record : Bytes) (sequence : UInt64) :
    a.appendWithSequence record sequence = b.appendWithSequence record sequence := by
  unfold appendWithSequence
  rw [ha, hb]

variable {record : Bytes} {sequence : UInt64}

theorem append_held [Sha256] {existing : ReplicationRecord} (hload : log.reload = (.ok (), loaded))
    (hsize : record.length ≤ maxReplicationRecordBytes)
    (hlookup : lookupSequence loaded.events loaded.sequenceIndices sequence = some existing)
    (hsame : existing.payload = record) :
    log.appendWithSequence record sequence = (.ok existing.index, loaded) := by
  unfold appendWithSequence
  rw [hload]
  dsimp only
  rw [validateRecordSize_eq_ok.2 hsize]
  dsimp only
  rw [hlookup]
  dsimp only
  rw [if_pos hsame]

/-- The log with the next record behind what was loaded. -/
def extended [Sha256] (loaded : FileReplicationLog) (record : Bytes) (sequence : UInt64) :
    FileReplicationLog where
  file := loaded.file ++ utf8 (nextLine loaded.events record sequence)
  events := loaded.events ++ [nextRecord loaded.events record sequence]
  sequenceIndices :=
    Sync.sequenceIndices (loaded.events ++ [nextRecord loaded.events record sequence])

theorem append_free [Sha256] (hload : log.reload = (.ok (), loaded))
    (hsize : record.length ≤ maxReplicationRecordBytes)
    (hlookup : lookupSequence loaded.events loaded.sequenceIndices sequence = none)
    (hfits : (loaded.extended record sequence).file.length ≤ maxReplicationLogBytes) :
    log.appendWithSequence record sequence =
      (.ok (loaded.events.length + 1), loaded.extended record sequence) := by
  obtain ⟨-, -, -, -, -, -, hindices, -⟩ := reload_cases hload
  have hroom : ¬ loaded.file.length + (utf8 (recordLine sequence record
      (nextRecord loaded.events record sequence).previousHash
      (nextRecord loaded.events record sequence).recordHash)).length > maxReplicationLogBytes := by
    rw [extended, List.length_append] at hfits
    exact Nat.not_lt.2 hfits
  unfold appendWithSequence
  rw [hload]
  dsimp only
  rw [validateRecordSize_eq_ok.2 hsize]
  dsimp only
  rw [hlookup]
  dsimp only
  rw [if_neg hroom, extended, sequenceIndices_snoc, ← hindices]
  rfl

/-- The record can be written behind what was loaded. -/
structure Appendable [Sha256] (loaded : FileReplicationLog) (record : Bytes) (sequence : UInt64) :
    Prop where
  size : record.length ≤ maxReplicationRecordBytes
  free : lookupSequence loaded.events loaded.sequenceIndices sequence = none
  fits : (loaded.extended record sequence).file.length ≤ maxReplicationLogBytes

theorem Appendable.unused [Sha256] (h : Appendable loaded record sequence)
    (hload : log.reload = (.ok (), loaded)) (hpos : 0 < sequence) :
    ∀ r ∈ loaded.events, r.sequence ≠ sequence := by
  obtain ⟨-, -, -, -, -, -, hindices, -⟩ := reload_cases hload
  have hfree := h.free
  rw [hindices] at hfree
  exact (lookupSequence_eq_none hpos).1 hfree

/-- **What an append does** with what is loaded: it refuses the record, finds it, or writes it. -/
theorem append_cases [Sha256] (log : FileReplicationLog) (record : Bytes) (sequence : UInt64) :
    (∃ e, log.reload = (.error e, log) ∧ log.appendWithSequence record sequence = (.error e, log)) ∨
      ∃ loaded, log.reload = (.ok (), loaded) ∧
        ((∃ e, log.appendWithSequence record sequence = (.error e, loaded)) ∨
          (∃ existing, record.length ≤ maxReplicationRecordBytes ∧
            lookupSequence loaded.events loaded.sequenceIndices sequence = some existing ∧
            existing.payload = record ∧
            log.appendWithSequence record sequence = (.ok existing.index, loaded)) ∨
          Appendable loaded record sequence ∧
            log.appendWithSequence record sequence =
              (.ok (loaded.events.length + 1), loaded.extended record sequence)) := by
  cases hreload : log.reload with
  | mk result loaded =>
    cases result with
    | error e =>
      obtain rfl := reload_error hreload
      refine .inl ⟨e, rfl, ?_⟩
      unfold appendWithSequence
      rw [hreload]
    | ok _ =>
      refine .inr ⟨loaded, rfl, ?_⟩
      by_cases hsize : record.length ≤ maxReplicationRecordBytes
      · cases hlookup : lookupSequence loaded.events loaded.sequenceIndices sequence with
        | some existing =>
          by_cases hsame : existing.payload = record
          · exact .inr (.inl ⟨existing, hsize, rfl, hsame,
              append_held hreload hsize hlookup hsame⟩)
          · left
            unfold appendWithSequence
            rw [hreload]
            dsimp only
            rw [validateRecordSize_eq_ok.2 hsize]
            dsimp only
            rw [hlookup]
            dsimp only
            rw [if_neg hsame]
            exact ⟨_, rfl⟩
        | none =>
          by_cases hfits :
              (loaded.extended record sequence).file.length ≤ maxReplicationLogBytes
          · exact .inr (.inr ⟨⟨hsize, hlookup, hfits⟩,
              append_free hreload hsize hlookup hfits⟩)
          · left
            have hroom : loaded.file.length + (utf8 (recordLine sequence record
                (nextRecord loaded.events record sequence).previousHash
                (nextRecord loaded.events record sequence).recordHash)).length >
                  maxReplicationLogBytes := by
              rw [extended, List.length_append] at hfits
              exact Nat.lt_of_not_le hfits
            unfold appendWithSequence
            rw [hreload]
            dsimp only
            rw [validateRecordSize_eq_ok.2 hsize]
            dsimp only
            rw [hlookup]
            dsimp only
            rw [if_pos hroom]
            exact ⟨_, rfl⟩
      · left
        unfold appendWithSequence
        rw [hreload]
        dsimp only
        cases hrefused : validateRecordSize record with
        | error e => exact ⟨e, rfl⟩
        | ok _ => exact absurd (validateRecordSize_eq_ok.1 hrefused) hsize

/-- What an append that succeeds has found or written. -/
theorem append_ok [Sha256] {log after : FileReplicationLog} {index : Nat}
    (h : log.appendWithSequence record sequence = (.ok index, after)) :
    ∃ loaded, log.reload = (.ok (), loaded) ∧
      ((∃ existing, record.length ≤ maxReplicationRecordBytes ∧
          lookupSequence loaded.events loaded.sequenceIndices sequence = some existing ∧
          existing.payload = record ∧ index = existing.index ∧ after = loaded) ∨
        Appendable loaded record sequence ∧ index = loaded.events.length + 1 ∧
          after = loaded.extended record sequence) := by
  obtain ⟨e, -, he⟩ | ⟨loaded, hload, ⟨e, he⟩ | ⟨existing, hsize, hlookup, hsame, hheld⟩ |
    ⟨happendable, hfree⟩⟩ := append_cases log record sequence
  · rw [he] at h
    cases h
  · rw [he] at h
    cases h
  · rw [hheld] at h
    cases h
    exact ⟨_, hload, .inl ⟨existing, hsize, hlookup, hsame, rfl, rfl⟩⟩
  · rw [hfree] at h
    cases h
    exact ⟨loaded, hload, .inr ⟨happendable, rfl, rfl⟩⟩

theorem appendable_of_grows [Sha256] {log loaded appended : FileReplicationLog} {index : Nat}
    (hload : log.reload = (.ok (), loaded))
    (happend : log.appendWithSequence record sequence = (.ok index, appended))
    (hgrows : loaded.file.length < appended.file.length) :
    Appendable loaded record sequence ∧ appended = loaded.extended record sequence := by
  obtain ⟨loaded', hload', hcases⟩ := append_ok happend
  obtain rfl : loaded = loaded' := (Prod.mk.inj (hload.symm.trans hload')).2
  obtain ⟨-, -, -, -, -, rfl⟩ | ⟨happendable, -, rfl⟩ := hcases
  · exact absurd hgrows (lt_irrefl _)
  · exact ⟨happendable, rfl⟩

theorem nextLine_cons [Sha256] {events : List ReplicationRecord} (hv : ValidRecords events)
    (record : Bytes) (sequence : UInt64) :
    ∃ c rest, nextLine events record sequence = c :: rest ∧ c ≠ '\n' := by
  have hline : nextLine events record sequence = nextFields events record sequence ++ ['\n'] := rfl
  cases hfields : nextFields events record sequence with
  | nil =>
    have hblank := isBlank_nextFields events record sequence
    rw [hfields] at hblank
    cases hblank
  | cons c rest =>
    refine ⟨c, rest ++ ['\n'], by rw [hline, hfields, List.cons_append], ?_⟩
    intro hc
    refine not_mem_nextFields hv (show isFieldChar '\n' = false by decide) record sequence ?_
    rw [hfields, hc]
    exact List.mem_cons_self

theorem reload_markerOnly [Sha256] {log : FileReplicationLog} {c : Char} {rest : List Char}
    (hc : c ≠ '\n') (hfile : log.file = utf8 (replicationLogFormatV1.toList ++ c :: rest))
    (hfits : log.file.length ≤ maxReplicationLogBytes) :
    log.reload = (.error (.replicationFailed updateRequiredMessage), log) := by
  have hread : readBoundedText log.file maxReplicationLogBytes =
      .ok (replicationLogFormatV1.toList ++ c :: rest) := by
    rw [readBoundedText, if_neg (Nat.not_lt.2 hfits), hfile, fromUtf8_utf8]
  unfold reload
  rw [hread]
  dsimp only
  rw [splitFormat_other hc]

variable {file : Bytes}

theorem utf8_of_readBoundedText {maxBytes : Nat} {text : List Char}
    (h : readBoundedText file maxBytes = .ok text) : utf8 text = file := by
  unfold readBoundedText at h
  split at h
  · cases h
  · split at h
    · cases h
    next found hfound =>
      cases h
      exact utf8_of_fromUtf8 hfound

theorem reload_bare [Sha256] {log : FileReplicationLog} (h : MarkerOnly log.file) :
    log.reload = (.ok (), ⟨log.file, [], ∅⟩) := by
  have hread : readBoundedText log.file maxReplicationLogBytes =
      .ok replicationLogFormatV1.toList := by
    rw [readBoundedText, h, fromUtf8_utf8, if_neg (by decide)]
  have hsplit : splitFormat replicationLogFormatV1.toList replicationLogFormatV1 = .ok [] := by
    decide
  have hparse : parseReplicationRecords [] = .ok ([], false) := rfl
  unfold reload
  rw [hread]
  dsimp only
  rw [hsplit]
  dsimp only
  rw [hparse]
  rfl

/-- The text that was loaded, of a file that was not the bare marker. -/
theorem text_of_reload [Sha256] (h : log.reload = (.ok (), loaded))
    (hmarker : ¬ MarkerOnly log.file) :
    ∃ body, loaded.file = utf8 (markerLine ++ body) ∧
      parseReplicationRecords body = .ok (loaded.events, false) := by
  have hv := validRecords_of_reload h
  obtain ⟨text, body, recoveredTail, hread, hsplit, hparse, -, hfile⟩ := reload_cases h
  obtain ⟨rfl, hfile⟩ | ⟨rfl, hwrite⟩ := hfile
  · have hutf := utf8_of_readBoundedText hread
    obtain htext | ⟨htext, -⟩ := splitFormat_ok hsplit
    · refine ⟨body, ?_, hparse⟩
      rw [hfile, ← hutf, htext, markerLine, List.append_assoc, List.singleton_append]
    · exact absurd (by rw [MarkerOnly, ← hutf, htext]) hmarker
  · rw [writeReplicationRecords_eq hv] at hwrite
    split at hwrite
    · refine ⟨logBody loaded.events, (Except.ok.inj hwrite).symm, ?_⟩
      simp only [parseReplicationRecords, completeRecordPrefix_logBody, parseRecordsFrom_all hv]
    · cases hwrite

/-! ## Files that stay as they are loaded -/

/-- The file has a marker line and the records behind it, with nothing to cut off. -/
def Settled [Sha256] (file : Bytes) (records : List ReplicationRecord) : Prop :=
  ∃ body, file = utf8 (markerLine ++ body) ∧
    parseReplicationRecords body = .ok (records, false) ∧ file.length ≤ maxReplicationLogBytes

variable {records : List ReplicationRecord}

theorem Settled.valid [Sha256] (h : Settled file records) : ValidRecords records := by
  obtain ⟨body, -, hparse, -⟩ := h
  exact validRecords_of_parse hparse

theorem settled_length [Sha256] (h : Settled file records) :
    file.length ≤ maxReplicationLogBytes := by
  obtain ⟨-, -, -, hsize⟩ := h
  exact hsize

theorem Settled.reload [Sha256] {log : FileReplicationLog} (h : Settled log.file records) :
    log.reload = (.ok (), ⟨log.file, records, Sync.sequenceIndices records⟩) := by
  obtain ⟨body, hfile, hparse, hsize⟩ := h
  have hread : readBoundedText log.file maxReplicationLogBytes = .ok (markerLine ++ body) := by
    rw [readBoundedText, if_neg (Nat.not_lt.2 hsize), hfile, fromUtf8_utf8]
  unfold FileReplicationLog.reload
  rw [hread]
  dsimp only
  rw [splitFormat_marker]
  dsimp only
  rw [hparse]
  rfl

theorem settled_canonical [Sha256] (hv : ValidRecords records)
    (hsize : (encodeLog records).length ≤ maxReplicationLogBytes) :
    Settled (encodeLog records) records := by
  refine ⟨logBody records, rfl, ?_, hsize⟩
  simp only [parseReplicationRecords, completeRecordPrefix_logBody, parseRecordsFrom_all hv]

/-- What was loaded is settled, unless it was the bare marker. -/
theorem settled_of_reload [Sha256] (h : log.reload = (.ok (), loaded))
    (hmarker : ¬ MarkerOnly log.file) :
    Settled loaded.file loaded.events := by
  obtain ⟨body, hfile, hparse⟩ := text_of_reload h hmarker
  refine ⟨body, hfile, hparse, ?_⟩
  obtain ⟨text, -, -, hread, -, -, -, ⟨-, hsame⟩ | ⟨-, hwrite⟩⟩ := reload_cases h
  · unfold readBoundedText at hread
    split at hread
    · cases hread
    next hsize =>
      rw [hsame]
      exact Nat.not_lt.1 hsize
  · rw [writeReplicationRecords_eq (validRecords_of_reload h)] at hwrite
    split at hwrite
    next hsize =>
      rw [← Except.ok.inj hwrite]
      exact hsize
    next => cases hwrite

theorem reload_loaded [Sha256] (h : log.reload = (.ok (), loaded)) {other : FileReplicationLog}
    (hother : other.file = loaded.file) : other.reload = (.ok (), loaded) := by
  have hindices : loaded.sequenceIndices = Sync.sequenceIndices loaded.events := by
    obtain ⟨-, -, -, -, -, -, hindices, -⟩ := reload_cases h
    exact hindices
  refine reload_of_file hother ?_
  by_cases hmarker : MarkerOnly log.file
  · rw [reload_bare hmarker] at h
    obtain rfl := (Prod.mk.inj h).2
    exact reload_bare hmarker
  · rw [(settled_of_reload h hmarker).reload, ← hindices]

theorem Settled.append [Sha256] (h : Settled file records)
    (hsize : record.length ≤ maxReplicationRecordBytes)
    (hfree : 0 < sequence → ∀ r ∈ records, r.sequence ≠ sequence)
    (hfits : (file ++ utf8 (nextLine records record sequence)).length ≤ maxReplicationLogBytes) :
    Settled (file ++ utf8 (nextLine records record sequence))
      (records ++ [nextRecord records record sequence]) := by
  obtain ⟨body, hfile, hparse, -⟩ := h
  refine ⟨body ++ nextLine records record sequence, ?_, parseReplicationRecords_next hparse hsize hfree,
    hfits⟩
  rw [hfile, ← utf8_append, List.append_assoc]

theorem extended_unreadable [Sha256] (hload : log.reload = (.ok (), loaded))
    (hmarker : MarkerOnly log.file) (happendable : Appendable loaded record sequence) :
    (loaded.extended record sequence).reload =
      (.error (.replicationFailed updateRequiredMessage), loaded.extended record sequence) := by
  rw [reload_bare hmarker] at hload
  rw [← (Prod.mk.inj hload).2] at happendable ⊢
  obtain ⟨c, rest, hline, hc⟩ := nextLine_cons validRecords_nil record sequence
  have hfile : (extended ⟨log.file, [], ∅⟩ record sequence).file =
      utf8 (replicationLogFormatV1.toList ++ c :: rest) := by
    rw [extended, hmarker, hline, ← utf8_append]
  exact reload_markerOnly hc hfile happendable.fits

theorem reload_extended [Sha256] (hload : log.reload = (.ok (), loaded))
    (hmarker : ¬ MarkerOnly log.file) (happendable : Appendable loaded record sequence) :
    (loaded.extended record sequence).reload = (.ok (), loaded.extended record sequence) := by
  have hnext := (settled_of_reload hload hmarker).append happendable.size
    (happendable.unused hload) happendable.fits
  exact hnext.reload

/-- **An append behind a loaded file.** When a line was appended, the file loads again, with the
loaded records and the new one behind them, exactly when it was not the marker without its
newline. -/
theorem append_after_load_iff [Sha256] {log loaded appended : FileReplicationLog} {record : Bytes}
    {sequence : UInt64} {index : Nat} (hload : log.reload = (.ok (), loaded))
    (happend : log.appendWithSequence record sequence = (.ok index, appended))
    (hgrows : loaded.file.length < appended.file.length) :
    (∃ again, appended.reload = (.ok (), again) ∧
      again.events = loaded.events ++ [nextRecord loaded.events record sequence]) ↔
      ¬ MarkerOnly log.file := by
  obtain ⟨happendable, rfl⟩ := appendable_of_grows hload happend hgrows
  by_cases hmarker : MarkerOnly log.file
  · refine iff_of_false ?_ (not_not_intro hmarker)
    rw [extended_unreadable hload hmarker happendable]
    intro h
    obtain ⟨again, hagain, -⟩ := h
    cases hagain
  · exact iff_of_true ⟨_, reload_extended hload hmarker happendable, rfl⟩ hmarker

/-- A file with blank lines, before and after an append. -/
theorem append_after_load_blank_lines :
    letI := Sha256.fips
    let log : FileReplicationLog := ⟨utf8 (markerLine ++ ['\n', ' ', '\r', '\n']), [], ∅⟩
    ∃ loaded appended again, log.reload = (.ok (), loaded) ∧
      log.appendWithSequence [1, 2] 7 = (.ok 1, appended) ∧ appended.reload = (.ok (), again) ∧
      again.events = loaded.events ++ [nextRecord loaded.events [1, 2] 7] := by
  let _ := Sha256.fips
  intro log
  have hload : log.reload = (.ok (), log.reload.2) := Prod.ext (by decide) rfl
  have happend : log.appendWithSequence [1, 2] 7 = (.ok 1, (log.appendWithSequence [1, 2] 7).2) :=
    Prod.ext (by decide +kernel) rfl
  have hagain := (append_after_load_iff hload happend (by decide +kernel)).2 (by decide +kernel)
  obtain ⟨again, hreload, hevents⟩ := hagain
  exact ⟨_, _, again, hload, happend, hreload, hevents⟩

/-- The line behind a bare marker makes the file unreadable, though the append is reported to have
succeeded. -/
theorem append_after_bare_marker :
    ¬ ∀ (_ : Sha256) (log loaded appended : FileReplicationLog) (record : Bytes)
      (sequence : UInt64) (index : Nat), log.reload = (.ok (), loaded) →
      log.appendWithSequence record sequence = (.ok index, appended) →
      loaded.file.length < appended.file.length →
      ∃ again, appended.reload = (.ok (), again) ∧
        again.events = loaded.events ++ [nextRecord loaded.events record sequence] := by
  intro h
  let sha := Sha256.fips
  let log : FileReplicationLog := ⟨utf8 replicationLogFormatV1.toList, [], ∅⟩
  have hload : log.reload = (.ok (), log.reload.2) := Prod.ext (by decide) rfl
  have happend : log.appendWithSequence [1] 1 = (.ok 1, (log.appendWithSequence [1] 1).2) :=
    Prod.ext (by decide +kernel) rfl
  obtain ⟨again, hagain, -⟩ := h sha log _ _ [1] 1 1 hload happend (by decide +kernel)
  have hresult : (log.appendWithSequence [1] 1).2.reload.1 = .ok () := by rw [hagain]
  exact absurd hresult (by decide +kernel)

end FileReplicationLog

end AppCore.Sync
