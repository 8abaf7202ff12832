import AppCore.Sync.FileLog
import AppCore.Sync.LogProof

/-!
# The file-backed replication log: what the file means

A log in its steady state has the canonical encoding of its records as its file. Over such a
file the parser finds exactly those records again (`parseRecordsFrom_logBody`), also when the
line of one more record was begun and cut short (`reload_torn`).
-/

namespace AppCore.Sync

variable {done rest : List ReplicationRecord}

/-- Each of a list of well-formed records is the next record of those before it. -/
theorem ValidRecords.next [Sha256] {r : ReplicationRecord} (hv : ValidRecords (done ++ r :: rest)) :
    ValidRecords done ∧ r = nextRecord done r.payload r.sequence := by
  have hchained := hv.chained
  have hentries : entriesOf (done ++ r :: rest) =
      entriesOf done ++ ⟨r.sequence, r.payload⟩ :: entriesOf rest := by
    simp [entriesOf]
  rw [hentries, recordsFrom_append] at hchained
  obtain ⟨hdone, htail⟩ := List.append_inj hchained (by simp [entriesOf])
  refine ⟨⟨hdone, fun q hq => hv.sizes q (List.mem_append_left _ hq),
    (List.pairwise_append.1 hv.unique).1⟩, ?_⟩
  rw [← hdone, recordsFrom] at htail
  obtain ⟨hr, -⟩ := List.cons.inj htail
  rw [hr]
  simp [nextRecord, chainHead, entriesOf]

variable {records : List ReplicationRecord} {c : Char}

theorem ValidRecords.isHexDigit_chainHead [Sha256] (hv : ValidRecords records)
    (hc : c ∈ (chainHead "" records).toList) :
    isHexDigit c = true := by
  rcases List.eq_nil_or_concat records with rfl | ⟨done, r, rfl⟩
  · simp [chainHead] at hc
  · rw [List.concat_eq_append] at hv hc
    obtain ⟨-, hr⟩ := hv.next
    have hhead : chainHead "" (done ++ [r]) = r.recordHash := by simp [chainHead]
    rw [hhead, hr] at hc
    exact isHexDigit_of_mem_hexDigest hc

theorem nextRecord_fields [Sha256] (events : List ReplicationRecord) (record : Bytes)
    (sequence : UInt64) :
    nextRecord events record sequence =
      ⟨events.length + 1, sequence, record, chainHead "" events,
        replicationRecordHash (chainHead "" events) sequence record⟩ := rfl

/-! ## The text of a record -/

/-- The characters of a record's line before its end. -/
def isFieldChar (c : Char) : Bool := isHexDigit c || c == '\t'

theorem isHexDigit_of_isDigit (h : c.isDigit = true) : isHexDigit c = true := by
  simp only [Char.isDigit, Bool.and_eq_true, decide_eq_true_eq] at h
  have h' : '0' ≤ c ∧ c ≤ '9' := h
  simp [isHexDigit, h'.1, h'.2]

/-- The line written for the record after `events`. -/
def nextLine [Sha256] (events : List ReplicationRecord) (record : Bytes) (sequence : UInt64) :
    List Char :=
  recordLine sequence record (chainHead "" events)
    (replicationRecordHash (chainHead "" events) sequence record)

def nextFields [Sha256] (events : List ReplicationRecord) (record : Bytes) (sequence : UInt64) :
    List Char :=
  recordFields sequence record (chainHead "" events)
    (replicationRecordHash (chainHead "" events) sequence record)

variable {events : List ReplicationRecord}

theorem isFieldChar_of_mem [Sha256] (hv : ValidRecords events) {record : Bytes} {sequence : UInt64}
    (hc : c ∈ nextFields events record sequence) :
    isFieldChar c = true := by
  simp only [nextFields, recordFields, List.mem_append, List.mem_cons, toList_bytesToHex] at hc
  have hex {d : Char} (h : isHexDigit d = true) : isFieldChar d = true := by simp [isFieldChar, h]
  have htab : isFieldChar '\t' = true := by decide
  rcases hc with hc | rfl | hc | rfl | hc | rfl | hc
  · exact hex (isHexDigit_of_isDigit (isDigit_of_mem_decimal hc))
  · exact htab
  · exact hex (isHexDigit_of_mem_lowerHex hc)
  · exact htab
  · exact hex (hv.isHexDigit_chainHead hc)
  · exact htab
  · exact hex (isHexDigit_of_mem_hexDigest hc)

theorem not_mem_nextFields [Sha256] (hv : ValidRecords events) (hc : isFieldChar c = false)
    (record : Bytes) (sequence : UInt64) :
    c ∉ nextFields events record sequence := fun h => by
  rw [isFieldChar_of_mem hv h] at hc
  simp at hc

theorem isAscii_nextFields [Sha256] (hv : ValidRecords events) (record : Bytes) (sequence : UInt64) :
    IsAscii (nextFields events record sequence) := by
  intro c hc
  have hfield := isFieldChar_of_mem hv hc
  simp only [isFieldChar, Bool.or_eq_true, beq_iff_eq] at hfield
  rcases hfield with h | rfl
  · exact toNat_lt_of_isHexDigit h
  · decide

/-! ## Parsing what was written -/

/-- A written line parses to the record it was written for. -/
theorem parseRecord_nextFields [Sha256] (hv : ValidRecords events) {record : Bytes}
    {sequence : UInt64} (hsize : record.length ≤ maxReplicationRecordBytes)
    (hfree : 0 < sequence → ∀ r ∈ events, r.sequence ≠ sequence) (lineNumber : Nat) :
    parseRecord lineNumber events (sequenceIndices events) (chainHead "" events)
      (nextFields events record sequence) = .ok (nextRecord events record sequence) := by
  have htab : ∀ {c : Char}, isHexDigit c = true → c ≠ '\t' := by
    rintro c h rfl
    exact absurd h (by decide)
  have hsplit : (nextFields events record sequence).splitOn '\t' =
      [decimal sequence.toNat, (bytesToHex record).toList, (chainHead "" events).toList,
        (replicationRecordHash (chainHead "" events) sequence record).toList] := by
    refine splitOn_four (fun h => ?_) (fun h => ?_) (fun h => ?_) (fun h => ?_)
    · exact htab (isHexDigit_of_isDigit (isDigit_of_mem_decimal h)) rfl
    · rw [toList_bytesToHex] at h
      exact htab (isHexDigit_of_mem_lowerHex h) rfl
    · exact htab (hv.isHexDigit_chainHead h) rfl
    · exact htab (isHexDigit_of_mem_hexDigest h) rfl
  have hunused : (if sequence > 0 then (sequenceIndices events)[sequence]? else none) = none := by
    split
    · rename_i hpos
      exact getElem?_sequenceIndices_none.2 (hfree hpos)
    · rfl
  simp only [parseRecord, hsplit, parseU64_decimal, hexToBytes_bytesToHex,
    validateRecordSize_eq_ok.2 hsize, hunused, nextRecord_fields]
  simp

theorem isBlank_nextFields [Sha256] (events : List ReplicationRecord) (record : Bytes)
    (sequence : UInt64) : isBlank (nextFields events record sequence) = false := by
  obtain ⟨c, hc⟩ := List.exists_mem_of_ne_nil _ (decimal_ne_nil sequence.toNat)
  have hdigit := isDigit_of_mem_decimal hc
  have hmem : c ∈ nextFields events record sequence := List.mem_append_left _ hc
  have hnot : isWhitespace c = false := by
    simp only [Char.isDigit, Bool.and_eq_true, decide_eq_true_eq] at hdigit
    have hlo : 48 ≤ c.toNat := UInt32.le_iff_toNat_le.1 hdigit.1
    have hhi : c.toNat ≤ 57 := UInt32.le_iff_toNat_le.1 hdigit.2
    simp only [isWhitespace, Bool.or_eq_false_iff, Bool.and_eq_false_iff, decide_eq_false_iff_not,
      beq_eq_false_iff_ne]
    omega
  rw [isBlank, List.all_eq_false]
  exact ⟨c, hmem, by simp [hnot]⟩

/-- The lines of a list of records. -/
def logBody (records : List ReplicationRecord) : List Char :=
  records.flatMap fun r => recordLine r.sequence r.payload r.previousHash r.recordHash

@[simp] theorem logBody_nil : logBody [] = [] := rfl

theorem logBody_append (as bs : List ReplicationRecord) :
    logBody (as ++ bs) = logBody as ++ logBody bs := by
  simp [logBody]

theorem logBody_next [Sha256] (events : List ReplicationRecord) (record : Bytes)
    (sequence : UInt64) :
    logBody [nextRecord events record sequence] = nextLine events record sequence := by
  simp [logBody, nextLine, nextRecord_fields]

/-- **Parsing what was written** gives the records that were written. -/
theorem parseRecordsFrom_logBody [Sha256] (hv : ValidRecords (done ++ rest)) (lineNumber : Nat) :
    parseRecordsFrom lineNumber done (sequenceIndices done) (chainHead "" done)
      (lines (logBody rest)) = .ok (done ++ rest) := by
  induction rest generalizing done lineNumber with
  | nil => simp [parseRecordsFrom]
  | cons r rest ih =>
    obtain ⟨hdone, hr⟩ := hv.next
    have hsize : r.payload.length ≤ maxReplicationRecordBytes :=
      hv.sizes r (List.mem_append_right _ List.mem_cons_self)
    have hfree : 0 < r.sequence → ∀ q ∈ done, q.sequence ≠ r.sequence := by
      intro hpos q hq heq
      have hzero := (List.pairwise_append.1 hv.unique).2.2 q hq r List.mem_cons_self heq
      rw [heq] at hzero
      exact absurd hzero (UInt64.pos_iff_ne_zero.1 hpos)
    have hbody : logBody (r :: rest) =
        nextFields done r.payload r.sequence ++ '\n' :: logBody rest := by
      have hcons : logBody (r :: rest) = logBody [r] ++ logBody rest := logBody_append [r] rest
      rw [hcons, hr, logBody_next]
      simp [nextLine, nextFields, recordLine, nextRecord]
    have hlines := lines_line (not_mem_nextFields hdone (by decide) r.payload r.sequence)
      (not_mem_nextFields hdone (by decide) r.payload r.sequence) (logBody rest)
    have hparse := parseRecord_nextFields hdone hsize hfree lineNumber
    have hrest := ih (show ValidRecords ((done ++ [r]) ++ rest) by simpa using hv) (lineNumber + 1)
    have hhead : chainHead "" (done ++ [r]) = r.recordHash := by simp [chainHead]
    have hindex : r.index - 1 = done.length := by
      rw [hr]
      rfl
    rw [hhead, sequenceIndices_snoc] at hrest
    rw [hbody, hlines, parseRecordsFrom, if_neg (by simp [isBlank_nextFields]), hparse, ← hr]
    simp only [hindex, hrest]
    simp

theorem parseRecordsFrom_all [Sha256] (hv : ValidRecords records) :
    parseRecordsFrom 0 [] ∅ "" (lines (logBody records)) = .ok records :=
  parseRecordsFrom_logBody (show ValidRecords ([] ++ records) from hv) 0

/-! ## The canonical file -/

/-- The text of a log file with the given records. -/
def logText (records : List ReplicationRecord) : List Char := markerLine ++ logBody records

/-- The canonical file of a list of records. -/
def encodeLog (records : List ReplicationRecord) : Bytes := utf8 (logText records)

theorem encodeLog_append (as bs : List ReplicationRecord) :
    encodeLog (as ++ bs) = encodeLog as ++ utf8 (logBody bs) := by
  simp [encodeLog, logText, logBody_append]

theorem encodeLog_snoc [Sha256] (events : List ReplicationRecord) (record : Bytes)
    (sequence : UInt64) :
    encodeLog (events ++ [nextRecord events record sequence]) =
      encodeLog events ++ utf8 (nextLine events record sequence) := by
  rw [encodeLog_append, logBody_next]

/-- The error for a log that has grown too large. -/
def logTooLarge : SyncError := .replicationFailed "replication log exceeds configured limit"

/-- The writer continues a canonical text to the canonical text of all records, or stops at the
size limit. -/
theorem writeRecordsFrom_logText [Sha256] (hv : ValidRecords (done ++ rest))
    (hdone : (encodeLog done).length ≤ maxReplicationLogBytes) :
    writeRecordsFrom (logText done) (chainHead "" done) rest =
      if (encodeLog (done ++ rest)).length ≤ maxReplicationLogBytes
      then .ok (logText (done ++ rest)) else .error logTooLarge := by
  induction rest generalizing done with
  | nil =>
    rw [List.append_nil, if_pos hdone]
    rfl
  | cons r rest ih =>
    obtain ⟨-, hr⟩ := hv.next
    have hstep : done ++ r :: rest = (done ++ [r]) ++ rest := by simp
    have hpayload := validateRecordSize_eq_ok.2
      (hv.sizes r (List.mem_append_right _ List.mem_cons_self))
    have hline : logText done ++ recordLine r.sequence r.payload (chainHead "" done)
        (replicationRecordHash (chainHead "" done) r.sequence r.payload) =
        logText (done ++ [r]) := by
      rw [logText, logText, logBody_append, List.append_assoc]
      congr 2
      rw [hr, logBody_next]
      rfl
    have hhash : replicationRecordHash (chainHead "" done) r.sequence r.payload =
        chainHead "" (done ++ [r]) := by
      have hlast : chainHead "" (done ++ [r]) = r.recordHash := by simp [chainHead]
      rw [hlast, hr]
      rfl
    rw [hstep] at hv ⊢
    simp only [writeRecordsFrom, hpayload]
    rw [hline, hhash]
    by_cases hfits : (encodeLog (done ++ [r])).length ≤ maxReplicationLogBytes
    · rw [if_neg (show ¬ (utf8 (logText (done ++ [r]))).length > maxReplicationLogBytes from
        Nat.not_lt.2 hfits)]
      exact ih hv hfits
    · have hbig : ¬ (encodeLog (done ++ [r] ++ rest)).length ≤ maxReplicationLogBytes := by
        rw [encodeLog_append, List.length_append]
        omega
      rw [if_neg hbig, if_pos (show (utf8 (logText (done ++ [r]))).length >
        maxReplicationLogBytes from Nat.lt_of_not_le hfits)]
      rfl

theorem encodeLog_nil_le : (encodeLog []).length ≤ maxReplicationLogBytes := by
  decide

/-- **Rewriting the file** gives the canonical file, or fails for its size. -/
theorem writeReplicationRecords_eq [Sha256] (hv : ValidRecords records) :
    writeReplicationRecords records =
      if (encodeLog records).length ≤ maxReplicationLogBytes then .ok (encodeLog records)
      else .error logTooLarge := by
  have h := writeRecordsFrom_logText (show ValidRecords ([] ++ records) from hv) encodeLog_nil_le
  have hmarker : logText [] = markerLine := by simp [logText]
  have hhead : chainHead "" ([] : List ReplicationRecord) = "" := rfl
  rw [hmarker, hhead, List.nil_append] at h
  rw [writeReplicationRecords, h]
  split
  · rename_i hif
    split at hif
    · simp at hif
    · rename_i hbig
      rw [if_neg hbig, Except.error.inj hif]
  · rename_i output hif
    split at hif
    · rename_i hfits
      rw [if_pos hfits, ← Except.ok.inj hif]
      rfl
    · simp at hif

theorem writeReplicationRecords_ok [Sha256] (hv : ValidRecords records)
    (hsize : (encodeLog records).length ≤ maxReplicationLogBytes) :
    writeReplicationRecords records = .ok (encodeLog records) := by
  rw [writeReplicationRecords_eq hv, if_pos hsize]

theorem splitFormat_append (marker : String) (body : List Char) :
    splitFormat (marker.toList ++ '\n' :: body) marker = .ok body := by
  have hmarker : (marker.toList ++ '\n' :: body).dropPrefix? marker.toList =
      some ('\n' :: body) :=
    List.dropPrefix?_append_of_beq _ (by simp)
  have hnewline : ('\n' :: body).dropPrefix? ['\n'] = some body :=
    List.dropPrefix?_append_of_beq body (show ['\n'] == ['\n'] by simp)
  simp [splitFormat, hmarker, hnewline]

theorem splitFormat_marker (body : List Char) :
    splitFormat (markerLine ++ body) replicationLogFormatV1 = .ok body := by
  rw [markerLine, List.append_assoc, List.singleton_append, splitFormat_append]

theorem getLast?_logBody (h : records ≠ []) :
    (logBody records).getLast? = some '\n' := by
  obtain ⟨done, r, rfl⟩ := List.eq_nil_or_concat records |>.resolve_left h
  rw [List.concat_eq_append, logBody_append]
  simp [logBody, recordLine]

theorem completeRecordPrefix_logBody (records : List ReplicationRecord) :
    completeRecordPrefix (logBody records) = (logBody records, false) := by
  rw [completeRecordPrefix, if_pos]
  by_cases h : records = []
  · simp [h]
  · exact Or.inr (getLast?_logBody h)

/-- A tail without a newline is dropped, up to the end of the last complete line. -/
theorem completeRecordPrefix_torn (records : List ReplicationRecord) {tail : List Char}
    (hne : tail ≠ []) (hn : '\n' ∉ tail) :
    completeRecordPrefix (logBody records ++ tail) = (logBody records, true) := by
  have hlast : (logBody records ++ tail).getLast? ≠ some '\n' := by
    rw [List.getLast?_append_of_ne_nil _ hne]
    exact fun h => hn (List.mem_of_getLast? h)
  have hopen : ¬ ((logBody records ++ tail).isEmpty = true ∨
      (logBody records ++ tail).getLast? = some '\n') := by
    rintro (h | h)
    · simp [hne] at h
    · exact hlast h
  rw [completeRecordPrefix, if_neg hopen]
  have htail : ∀ c ∈ tail.reverse, decide (c ≠ '\n') = true := by
    intro c hc
    rw [List.mem_reverse] at hc
    simpa using fun h : c = '\n' => hn (h ▸ hc)
  rw [List.reverse_append, List.dropWhile_append_of_pos htail]
  have hkeep : (logBody records).reverse.dropWhile (fun c => decide (c ≠ '\n')) =
      (logBody records).reverse := by
    by_cases h : records = []
    · simp [h]
    · have hhead := getLast?_logBody h
      rw [← List.head?_reverse] at hhead
      obtain ⟨rest, hrest⟩ := List.head?_eq_some_iff.1 hhead
      rw [hrest]
      simp
  rw [hkeep, List.reverse_reverse]

namespace FileReplicationLog

theorem reload_canonical [Sha256] {log : FileReplicationLog} {records : List ReplicationRecord}
    (hv : ValidRecords records) (hfile : log.file = encodeLog records)
    (hsize : (encodeLog records).length ≤ maxReplicationLogBytes) :
    log.reload = (.ok (), ⟨encodeLog records, records, Sync.sequenceIndices records⟩) := by
  have hread : readBoundedText log.file maxReplicationLogBytes = .ok (logText records) := by
    rw [readBoundedText, hfile, if_neg (Nat.not_lt.2 hsize), encodeLog, fromUtf8_utf8]
  have hparse : parseReplicationRecords (logBody records) = .ok (records, false) := by
    simp only [parseReplicationRecords, completeRecordPrefix_logBody, parseRecordsFrom_all hv]
  have hsplit : splitFormat (logText records) replicationLogFormatV1 = .ok (logBody records) :=
    splitFormat_marker _
  simp only [reload, hread, hsplit, hparse]
  rw [hfile]
  rfl

/-- **Reloading a file whose last append was cut short** finds the records before it and
rewrites the file without the tail. -/
theorem reload_torn [Sha256] {log : FileReplicationLog} {records : List ReplicationRecord}
    {tail : List Char} (hv : ValidRecords records) (hne : tail ≠ []) (hn : '\n' ∉ tail)
    (hfile : log.file = encodeLog records ++ utf8 tail)
    (hsize : log.file.length ≤ maxReplicationLogBytes) :
    log.reload = (.ok (), ⟨encodeLog records, records, Sync.sequenceIndices records⟩) := by
  have hread : readBoundedText log.file maxReplicationLogBytes =
      .ok (markerLine ++ (logBody records ++ tail)) := by
    have hutf : log.file = utf8 (markerLine ++ (logBody records ++ tail)) := by
      rw [hfile, encodeLog, logText, ← utf8_append, List.append_assoc]
    rw [readBoundedText, if_neg (Nat.not_lt.2 hsize), hutf, fromUtf8_utf8]
  have hparse : parseReplicationRecords (logBody records ++ tail) = .ok (records, true) := by
    simp only [parseReplicationRecords, completeRecordPrefix_torn records hne hn,
      parseRecordsFrom_all hv]
  have hfits : (encodeLog records).length ≤ maxReplicationLogBytes := by
    rw [hfile, List.length_append] at hsize
    omega
  simp only [reload, hread, splitFormat_marker, hparse, writeReplicationRecords_ok hv hfits]
  rfl

end FileReplicationLog

end AppCore.Sync
