import AppCore.Base.Evaluation
import AppCore.Base.Prog
import AppCore.Base.Retention
import AppCore.Core.JournalJson

/-!
# What the operational journal keeps

A journal that no append has failed on is the rewrite of its records (`written`): a chain that grew
line by line is the chain that is built anew. Its records are the longest suffix of what was
appended that fits (`retained`). Opening a file of whole lines with a part of a line behind them
rewrites what fits of the lines (`openFile_written`).

* `retention` — after appends without faults.
* `crash_iff` — a process that stops in the middle of an append.
* `reopened_after_torn_appends` — appends that fail.
-/

namespace AppCore.Core

open Json FileOperationalJournal

section

variable {Record : Type} [JournalJson Record]

theorem isLine_envelopeText (hjson : JournalJson.Lawful Record)
    (envelope : JournalEnvelope Record) : IsLine (envelopeText envelope) := by
  have hhead : IsLine ((envelopeHead envelope.sequence envelope.previousHash
      envelope.hash).flatMap Token.text) := by
    refine isLine_tokens ?_
    simp [envelopeHead, Separated, isPunct]
  have hrecord := hjson.line envelope.record
  constructor
  · simp [envelopeText, hhead.1, hrecord.1]
  · simp [envelopeText, hhead.2, hrecord.2]

theorem noNewline_take (hjson : JournalJson.Lawful Record) (envelope : JournalEnvelope Record)
    {reached : Nat} (h : reached < (envelopeLine envelope).length) :
    NoNewline ((envelopeLine envelope).take reached) := by
  have htorn : (envelopeLine envelope).take reached = tornPart (envelopeLine envelope) reached := by
    rw [tornPart, List.dropLast_eq_take, List.take_take, Nat.min_eq_left (by omega)]
  rw [htorn]
  exact noNewline_tornPart (isLine_envelopeText hjson envelope) reached

theorem envelopeText_ne_nil (envelope : JournalEnvelope Record) :
    (envelopeText envelope).isEmpty = false := by
  simp [envelopeText]

theorem toNat_recoveryMaxBytes (maxBytes : UInt64) :
    (max maxBytes 1).toNat ≤ (recoveryMaxBytes maxBytes).toNat ∧
      maxJournalRecordBytes + 64 * 1024 ≤ (recoveryMaxBytes maxBytes).toNat := by
  have hlt := (max maxBytes 1).toNat_lt
  have hrecord : (UInt64.ofNat maxJournalRecordBytes).toNat = 1048576 := by decide
  have hslack : (64 * 1024 : UInt64).toNat = 65536 := by decide
  rw [recoveryMaxBytes, toNat_saturatingAdd, toNat_saturatingAdd, hrecord, hslack,
    maxJournalRecordBytes]
  omega

variable [Sha256]

/-! ## The chain -/

/-- The envelopes of records, after a sequence and a hash. -/
def envelopesFrom (sequence : UInt64) (lastHash : String) :
    List Record → List (JournalEnvelope Record)
  | [] => []
  | record :: rest =>
    let envelope := nextEnvelope sequence lastHash record
    envelope :: envelopesFrom envelope.sequence envelope.hash rest

/-- The sequence and the hash of the last envelope. -/
def chainEnd (sequence : UInt64) (lastHash : String) : List Record → UInt64 × String
  | [] => (sequence, lastHash)
  | record :: rest =>
    let envelope := nextEnvelope sequence lastHash record
    chainEnd envelope.sequence envelope.hash rest

theorem foldl_encodeRecord (output : List Char) (sequence : UInt64) (lastHash : String)
    (records : List Record) :
    records.foldl encodeRecord (output, sequence, lastHash) =
      (output ++ joinLines ((envelopesFrom sequence lastHash records).map envelopeText),
        chainEnd sequence lastHash records) := by
  induction records generalizing output sequence lastHash with
  | nil => simp [envelopesFrom, chainEnd]
  | cons record rest ih =>
    rw [List.foldl_cons, encodeRecord, ih]
    simp [envelopesFrom, chainEnd]

theorem encodeRecords_eq (records : List Record) :
    encodeRecords records = (utf8 (operationalJournalFormatV1.toList ++
      '\n' :: joinLines ((envelopesFrom 0 "" records).map envelopeText)), chainEnd 0 "" records) := by
  simp only [encodeRecords, foldl_encodeRecord, List.append_assoc, List.singleton_append]

theorem encodeRecords_concat (records : List Record) (record : Record) :
    encodeRecords (records ++ [record]) =
      ((encodeRecords records).1 ++ envelopeLine (nextEnvelope (encodeRecords records).2.1
          (encodeRecords records).2.2 record),
        (nextEnvelope (encodeRecords records).2.1 (encodeRecords records).2.2 record).sequence,
        (nextEnvelope (encodeRecords records).2.1 (encodeRecords records).2.2 record).hash) := by
  simp [encodeRecords, encodeRecord, envelopeLine]

/-- The envelopes of a chain are valid one after the other. -/
theorem foldlM_loadEnvelope (hjson : JournalJson.Lawful Record) (before : List Record)
    (sequence : UInt64) (lastHash : String) (records : List Record) :
    ((envelopesFrom sequence lastHash records).map envelopeText).foldlM loadEnvelope
        (⟨before, sequence, lastHash⟩ : JournalState Record) =
      .ok ⟨before ++ records, (chainEnd sequence lastHash records).1,
        (chainEnd sequence lastHash records).2⟩ := by
  induction records generalizing before sequence lastHash with
  | nil =>
    rw [envelopesFrom, List.map_nil, List.foldlM_nil, List.append_nil]
    rfl
  | cons record rest ih =>
    have hload : loadEnvelope (⟨before, sequence, lastHash⟩ : JournalState Record)
        (envelopeText (nextEnvelope sequence lastHash record)) =
          .ok ⟨before ++ [record], (nextEnvelope sequence lastHash record).sequence,
            (nextEnvelope sequence lastHash record).hash⟩ := by
      simp only [loadEnvelope, envelopeText_ne_nil, hjson.lossless]
      simp [validateEnvelope, nextEnvelope]
    rw [envelopesFrom, List.map_cons, List.foldlM_cons, hload]
    have hrest := ih (before ++ [record]) (nextEnvelope sequence lastHash record).sequence
      (nextEnvelope sequence lastHash record).hash
    rw [List.append_assoc] at hrest
    exact hrest

/-- A journal whose file is the rewrite of its records. -/
def written (maxRecords : Nat) (maxBytes : UInt64) (records : List Record) :
    FileOperationalJournal Record :=
  ⟨(encodeRecords records).1, maxRecords, maxBytes,
    ⟨records, (encodeRecords records).2.1, (encodeRecords records).2.2⟩⟩

variable {tail : Bytes}

theorem loadState_encodeRecords (hjson : JournalJson.Lawful Record) (records : List Record)
    (htail : NoNewline tail) {text : List Char} (htext : fromUtf8 tail = some text)
    {maxBytes : UInt64} (hsize : ((encodeRecords records).1 ++ tail).length ≤ maxBytes.toNat) :
    loadState ((encodeRecords records).1 ++ tail) maxBytes =
      .ok (⟨records, (encodeRecords records).2.1, (encodeRecords records).2.2⟩,
        !text.isEmpty) := by
  have hlines : ∀ l ∈ (envelopesFrom 0 "" records).map envelopeText, IsLine l := by
    intro l hl
    obtain ⟨envelope, -, rfl⟩ := List.mem_map.1 hl
    exact isLine_envelopeText hjson envelope
  have hread : readBounded ((encodeRecords records).1 ++ tail) maxBytes =
      .ok (operationalJournalFormatV1.toList ++ '\n' ::
        (joinLines ((envelopesFrom 0 "" records).map envelopeText) ++ text)) := by
    rw [readBounded, if_neg (Nat.not_lt.2 hsize), encodeRecords_eq, fromUtf8_append, htext]
    simp
  have hload := foldlM_loadEnvelope hjson [] 0 "" records
  rw [List.nil_append] at hload
  rw [loadState, hread]
  simp only [stripMarker_append, completeLinePrefix_joinLines _ (htail.text htext),
    lines_joinLines hlines, hload]
  rw [encodeRecords_eq]

/-! ## Compaction -/

/-- Whether records are within the limits of a journal. -/
def fitsLimits (maxRecords : Nat) (maxBytes : UInt64) (records : List Record) : Bool :=
  records.length ≤ maxRecords && (encodeRecords records).1.length ≤ maxBytes.toNat

variable {maxRecords : Nat} {maxBytes : UInt64}

theorem fitsLimits_of_concat (records : List Record) (record : Record) (_ : records ≠ [])
    (h : fitsLimits maxRecords maxBytes (records ++ [record]) = true) :
    fitsLimits maxRecords maxBytes records = true := by
  simp only [fitsLimits, Bool.and_eq_true, decide_eq_true_eq, encodeRecords_concat,
    List.length_append] at h ⊢
  omega

theorem rewriteLoop_eq (j : FileOperationalJournal Record) (records : List Record) :
    rewriteLoop j records = written j.maxRecords j.maxBytes
      (retained (fun rs => (encodeRecords rs).1.length ≤ j.maxBytes.toNat) records) := by
  induction records using retained.induct
      (fun rs : List Record => decide ((encodeRecords rs).1.length ≤ j.maxBytes.toNat)) with
  | case1 => rfl
  | case2 record => rfl
  | case3 record next rest hfits =>
    have hle := of_decide_eq_true hfits
    rw [rewriteLoop, retained_of_fits hfits]
    exact if_neg (Nat.not_lt.2 hle)
  | case4 record next rest hbad ih =>
    rw [retained, if_neg hbad, ← ih, rewriteLoop]
    exact if_pos (Nat.lt_of_not_le fun hle => hbad (decide_eq_true hle))

/-- Dropping by number and then by size is dropping by both. -/
theorem retained_popExcess (hpos : 1 ≤ maxRecords) (records : List Record) :
    retained (fun rs => (encodeRecords rs).1.length ≤ maxBytes.toNat)
      (popExcess maxRecords records) = retained (fitsLimits maxRecords maxBytes) records := by
  induction records with
  | nil => rfl
  | cons record rest ih =>
    rw [popExcess]
    split
    · rename_i hmany
      rw [ih]
      cases rest with
      | nil =>
        rw [List.length_singleton] at hmany
        omega
      | cons next rest =>
        rw [retained.eq_def _ (record :: next :: rest)]
        simp only [fitsLimits, Nat.not_le.2 hmany, decide_false, Bool.false_and]
        rfl
    · rename_i hfew
      refine retained_congr fun ys hys => ?_
      have hle : ys.length ≤ maxRecords := hys.length_le.trans (Nat.not_lt.1 hfew)
      simp [fitsLimits, hle]

theorem compactLocked_eq (j : FileOperationalJournal Record) (hpos : 1 ≤ j.maxRecords) :
    j.compactLocked = written j.maxRecords j.maxBytes
      (retained (fitsLimits j.maxRecords j.maxBytes) j.state.records) := by
  rw [compactLocked, rewriteLoop_eq, retained_popExcess hpos]

variable {records : List Record}

theorem written_of_fits (h : (written maxRecords maxBytes records).exceedsLimits = false) :
    written maxRecords maxBytes records = written maxRecords maxBytes
      (retained (fitsLimits maxRecords maxBytes) records) := by
  rw [retained_of_fits]
  simpa [exceedsLimits, written, fitsLimits] using h

/-- The journal after an append of a part of a line. -/
def torn (maxRecords : Nat) (maxBytes : UInt64) (records : List Record) (tail : Bytes) :
    FileOperationalJournal Record :=
  { written maxRecords maxBytes records with file := (encodeRecords records).1 ++ tail }

theorem torn_nil (records : List Record) :
    torn maxRecords maxBytes records [] = written maxRecords maxBytes records := by
  simp [torn, written]

/-- Whole lines with the part of a line behind them: the part is dropped, and what fits of the
lines is kept. -/
theorem openFile_written (hjson : JournalJson.Lawful Record) (maxRecords : Nat) (maxBytes : UInt64)
    (records : List Record) (htail : NoNewline tail) {text : List Char}
    (htext : fromUtf8 tail = some text)
    (hsize : ((encodeRecords records).1 ++ tail).length ≤ (recoveryMaxBytes maxBytes).toNat) :
    openFile (some ((encodeRecords records).1 ++ tail)) maxRecords maxBytes =
      .ok (written (max maxRecords 1) (max maxBytes 1)
        (retained (fitsLimits (max maxRecords 1) (max maxBytes 1)) records)) := by
  have hcompact := compactLocked_eq (torn (max maxRecords 1) (max maxBytes 1) records tail)
    (Nat.le_max_right maxRecords 1)
  rw [openFile, Option.getD_some, loadState_encodeRecords hjson records htail htext hsize]
  refine congrArg Except.ok ?_
  rw [opened]
  dsimp only
  split
  · exact hcompact
  · rename_i hkeep
    simp only [Bool.or_eq_true, not_or, Bool.not_eq_true] at hkeep
    obtain ⟨hempty, hlimits⟩ := hkeep
    obtain rfl : text = [] := by simpa using hempty
    obtain rfl : [] = tail := utf8_of_fromUtf8 htext
    rw [List.append_nil] at hlimits ⊢
    exact written_of_fits hlimits

theorem length_recordHash (sequence : UInt64) (previousHash : String) (record : Bytes) :
    (recordHash sequence previousHash record).toList.length = 64 := by
  simp [recordHash]

/-- One record takes no more than the allowance. -/
theorem length_encodeRecords_singleton_le (record : Record)
    (h : (recordBytes record).length ≤ maxJournalRecordBytes) :
    (encodeRecords [record]).1.length ≤ maxJournalRecordBytes + 64 * 1024 := by
  have hmarker : (utf8 (operationalJournalFormatV1.toList ++ ['\n'])).length = 33 := by decide
  have hsequence : saturatingAdd 0 1 = 1 := by decide
  have hhead : ((envelopeHead 1 "" (recordHash 1 "" (recordBytes record))).flatMap
      Token.text).length ≤ 600 := by
    have hstr (t : List Char) := (length_str_text t).2
    have hhash := hstr (recordHash 1 "" (recordBytes record)).toList
    have hnames := And.intro (hstr "sequence".toList) (And.intro (hstr "previous_hash".toList)
      (And.intro (hstr "".toList) (And.intro (hstr "hash".toList) (hstr "record".toList))))
    have hlengths : "sequence".toList.length = 8 ∧ "previous_hash".toList.length = 13 ∧
      "".toList.length = 0 ∧ "hash".toList.length = 4 ∧ "record".toList.length = 6 := by decide
    have hone : (Token.num (1 : UInt64).toNat).text.length = 1 := by decide
    have hpunct (c : Char) : (Token.punct c).text.length = 1 := rfl
    rw [length_recordHash] at hhash
    simp only [envelopeHead, List.flatMap_cons, List.flatMap_nil, List.length_append, hpunct, hone,
      List.length_nil]
    omega
  have hbytes := (length_utf8 ((envelopeHead 1 "" (recordHash 1 "" (recordBytes record))).flatMap
    Token.text)).2
  have hline : (encodeRecords [record]).1 = utf8 (operationalJournalFormatV1.toList ++ ['\n']) ++
      (utf8 ((envelopeHead 1 "" (recordHash 1 "" (recordBytes record))).flatMap Token.text) ++
        (recordBytes record ++ utf8 ['}', '\n'])) := by
    simp only [encodeRecords, List.foldl_cons, List.foldl_nil, encodeRecord, nextEnvelope,
      envelopeText, hsequence, recordBytes, ← utf8_append]
    simp
  have hend : (utf8 ['}', '\n']).length = 2 := by decide
  rw [hline, List.length_append, List.length_append, List.length_append, hmarker, hend]
  simp only [maxJournalRecordBytes] at h ⊢
  omega

/-- What is kept of records within their limit can be read. -/
theorem length_retained_le (maxRecords : Nat) (maxBytes : UInt64)
    (h : ∀ r ∈ records, (recordBytes r).length ≤ maxJournalRecordBytes) :
    (encodeRecords (retained (fitsLimits maxRecords (max maxBytes 1)) records)).1.length ≤
      (recoveryMaxBytes maxBytes).toNat := by
  obtain ⟨hmax, hone⟩ := toNat_recoveryMaxBytes maxBytes
  obtain hfits | hle := fits_or_length_le (fitsLimits maxRecords (max maxBytes 1)) records
  · simp only [fitsLimits, Bool.and_eq_true, decide_eq_true_eq] at hfits
    exact hfits.2.trans hmax
  · refine le_trans ?_ hone
    have hmem := (retained_suffix (fitsLimits maxRecords (max maxBytes 1)) records).subset
    cases hkept : retained (fitsLimits maxRecords (max maxBytes 1)) records with
    | nil =>
      have hempty : (encodeRecords ([] : List Record)).1.length = 33 := rfl
      rw [hempty]
      decide
    | cons record rest =>
      rw [hkept] at hle hmem
      obtain rfl : rest = [] := List.length_eq_zero_iff.1 (by simpa using hle)
      exact length_encodeRecords_singleton_le record (h record (hmem List.mem_cons_self))

/-- An append that returns `Ok`, and either begins a line of its own or makes the journal drop
records. -/
theorem append_torn (maxBytes : UInt64) (hpos : 1 ≤ maxRecords) (records : List Record)
    {record : Record} (hrecord : (recordBytes record).length ≤ maxJournalRecordBytes)
    (hclean : tail = [] ∨ records.length + 1 > maxRecords ∨
      ((encodeRecords records).1 ++ tail ++ envelopeLine (nextEnvelope (encodeRecords records).2.1
        (encodeRecords records).2.2 record)).length > maxBytes.toNat) :
    (torn maxRecords maxBytes records tail).append record none =
      (.ok (), written maxRecords maxBytes
        (retained (fitsLimits maxRecords maxBytes) (records ++ [record]))) := by
  have hcompact (j : FileOperationalJournal Record) (hmax : j.maxRecords = maxRecords)
      (hbytes : j.maxBytes = maxBytes) (hrecords : j.state.records = records ++ [record]) :
      j.compactLocked = written maxRecords maxBytes
        (retained (fitsLimits maxRecords maxBytes) (records ++ [record])) := by
    rw [compactLocked_eq j (hmax ▸ hpos), hmax, hbytes, hrecords]
  rw [append, if_neg (Nat.not_lt.2 hrecord)]
  dsimp only
  refine congrArg (Prod.mk _) ?_
  split
  · exact hcompact _ rfl rfl rfl
  · rename_i hkeep
    rw [Bool.not_eq_true] at hkeep
    obtain rfl : tail = [] := by
      refine hclean.resolve_right fun hover => ?_
      simp only [exceedsLimits, torn, written, Bool.or_eq_false_iff, decide_eq_false_iff_not,
        List.length_append, List.length_cons, List.length_nil] at hkeep hover
      omega
    have hwritten : (⟨(torn maxRecords maxBytes records []).file ++ envelopeLine (nextEnvelope
          (encodeRecords records).2.1 (encodeRecords records).2.2 record), maxRecords, maxBytes,
        ⟨records ++ [record], (nextEnvelope (encodeRecords records).2.1
          (encodeRecords records).2.2 record).sequence, (nextEnvelope (encodeRecords records).2.1
          (encodeRecords records).2.2 record).hash⟩⟩ : FileOperationalJournal Record) =
        written maxRecords maxBytes (records ++ [record]) := by
      rw [written, encodeRecords_concat, torn, List.append_nil]
    refine Eq.trans hwritten (written_of_fits ?_)
    rw [← hwritten]
    exact hkeep

theorem openFile_none (hjson : JournalJson.Lawful Record) (maxRecords : Nat) (maxBytes : UInt64) :
    openFile none maxRecords maxBytes =
      .ok (written (max maxRecords 1) (max maxBytes 1) ([] : List Record)) := by
  have hempty : (newFile : Bytes) = (encodeRecords ([] : List Record)).1 := rfl
  have hnone : ∀ r ∈ ([] : List Record), (recordBytes r).length ≤ maxJournalRecordBytes := by simp
  have hopen := openFile_written hjson maxRecords maxBytes ([] : List Record) noNewline_nil
    (fromUtf8_utf8 []) (by rw [List.append_nil]; exact length_retained_le maxRecords maxBytes hnone)
  rw [List.append_nil, ← hempty, retained_nil] at hopen
  rw [← hopen, openFile, openFile, Option.getD_none, Option.getD_some]

theorem runAppends_concat {maxRecords : Nat} {maxBytes : UInt64}
    {appends : List (Record × Option AppendFault)} {step : Record × Option AppendFault}
    {t : FileOperationalJournal Record} :
    runAppends maxRecords maxBytes (appends ++ [step]) = .ok t ↔
      ∃ j, runAppends maxRecords maxBytes appends = .ok j ∧ (j.append step.1 step.2).2 = t := by
  rw [runAppends, runAppends]
  cases (openFile none maxRecords maxBytes : RuntimeResult (FileOperationalJournal Record)) with
  | error e => simp [Except.map]
  | ok new => simp [Except.map]

/-- The journal after appends that all return `Ok`. -/
theorem runAppends_ok (hjson : JournalJson.Lawful Record) (maxRecords : Nat) (maxBytes : UInt64)
    (hsize : ∀ r ∈ records, (recordBytes r).length ≤ maxJournalRecordBytes) :
    runAppends maxRecords maxBytes (records.map fun r => (r, none)) =
      .ok (written (max maxRecords 1) (max maxBytes 1)
        (retained (fitsLimits (max maxRecords 1) (max maxBytes 1)) records)) := by
  induction records using List.reverseRecOn with
  | nil =>
    rw [retained_nil, List.map_nil, runAppends, openFile_none hjson]
    rfl
  | append_singleton records record ih =>
    have hrest := ih fun r hr => hsize r (List.mem_append_left _ hr)
    have hlast := hsize record (by simp)
    rw [List.map_append, List.map_cons, List.map_nil]
    refine runAppends_concat.2 ⟨_, hrest, ?_⟩
    rw [← torn_nil, append_torn _ (Nat.le_max_right maxRecords 1) _ hlast (.inl rfl),
      retained_concat fitsLimits_of_concat]

/-- **Retention and durability.** After appends without faults the file is the rewrite of the
records that are kept, these are the longest suffix of all records within the limits, or the last
one alone, and opening the file gives the journal back. -/
theorem retention (hjson : JournalJson.Lawful Record) (maxRecords : Nat) (maxBytes : UInt64)
    (records : List Record)
    (hsize : ∀ r ∈ records, (recordBytes r).length ≤ maxJournalRecordBytes) :
    ∃ j, runAppends maxRecords maxBytes (records.map fun r => (r, none)) = .ok j ∧
      (j.file, j.state.sequence, j.state.lastHash) = encodeRecords j.state.records ∧
      j.state.records <:+ records ∧
      ((j.state.records ≠ [] ∧
          fitsLimits (max maxRecords 1) (max maxBytes 1) j.state.records = true ∧
          ∀ rs, rs <:+ records → fitsLimits (max maxRecords 1) (max maxBytes 1) rs = true →
            rs.length ≤ j.state.records.length) ∨
        (j.state.records = records.getLast?.toList ∧
          ∀ rs, rs <:+ records → rs ≠ [] →
            fitsLimits (max maxRecords 1) (max maxBytes 1) rs = false)) ∧
      openFile (some j.file) maxRecords maxBytes = .ok j := by
  refine ⟨_, runAppends_ok hjson maxRecords maxBytes hsize, rfl,
    retained_suffix (fitsLimits (max maxRecords 1) (max maxBytes 1)) records,
    retained_spec (fitsLimits (max maxRecords 1) (max maxBytes 1)) records, ?_⟩
  have hopen := openFile_written hjson maxRecords maxBytes
    (retained (fitsLimits (max maxRecords 1) (max maxBytes 1)) records) noNewline_nil
    (fromUtf8_utf8 []) (by rw [List.append_nil]; exact length_retained_le _ _ hsize)
  rw [List.append_nil, retained_retained] at hopen
  exact hopen

end

def eventWithId (eventId : String) : EventEnvelope := ⟨"n", eventId, "a", "n", 7, []⟩

theorem retention_two : ∃ (json : JournalJson EventEnvelope) (sha : Sha256)
    (j : FileOperationalJournal EventEnvelope), json = eventJson ∧ sha = Sha256.fips ∧
    runAppends 1 10000 ([eventWithId "e1", eventWithId "e2"].map fun r => (r, none)) = .ok j ∧
    (j.file, j.state.sequence, j.state.lastHash) = encodeRecords j.state.records ∧
    openFile (some j.file) 1 10000 = .ok j := by
  let _ := eventJson
  let _ := Sha256.fips
  have hsize : ∀ r ∈ [eventWithId "e1", eventWithId "e2"],
      (recordBytes r).length ≤ maxJournalRecordBytes := by decide +kernel
  obtain ⟨j, hrun, hfile, -, -, hopen⟩ := retention eventJson_lawful 1 10000 _ hsize
  exact ⟨eventJson, Sha256.fips, j, rfl, rfl, hrun, hfile, hopen⟩

/-! ## A process that stops -/

section

variable {Record : Type} [JournalJson Record] [Sha256] {maxRecords : Nat} {maxBytes : UInt64}

/-- The file when the process stops after a part of the line, or all of it, reached it. -/
def stoppedFile (j : FileOperationalJournal Record) (record : Record) (reached : Nat) : Bytes :=
  j.file ++ (envelopeLine (nextEnvelope j.state.sequence j.state.lastHash record)).take reached

def appendedLine (j : FileOperationalJournal Record) (record : Record) : Bytes :=
  envelopeLine (nextEnvelope j.state.sequence j.state.lastHash record)

theorem size_of_openFile {file : Bytes} {t : FileOperationalJournal Record}
    (h : openFile (some file) maxRecords maxBytes = .ok t) :
    file.length ≤ (recoveryMaxBytes maxBytes).toNat ∧ (fromUtf8 file).isSome := by
  rw [openFile, Option.getD_some, loadState, readBounded] at h
  split at h
  · cases h
  · rename_i text hread
    split at hread
    · cases hread
    · rename_i hsize
      cases htext : fromUtf8 file with
      | none => simp [htext] at hread
      | some text => exact ⟨Nat.le_of_not_lt hsize, rfl⟩

/-- **A process that stops in an append.** The journal is opened, with the records kept before and
the new one if its line is complete, exactly when what reached the file is text and the file is
within what the reader allows. -/
theorem crash_iff (hjson : JournalJson.Lawful Record) {maxRecords : Nat} {maxBytes : UInt64}
    {records : List Record}
    (hsize : ∀ r ∈ records, (recordBytes r).length ≤ maxJournalRecordBytes)
    {j : FileOperationalJournal Record}
    (hrun : runAppends maxRecords maxBytes (records.map fun r => (r, none)) = .ok j)
    (record : Record) (reached : Nat) :
    (∃ t, openFile (some (stoppedFile j record reached)) maxRecords maxBytes = .ok t ∧
      t.state.records = retained (fitsLimits (max maxRecords 1) (max maxBytes 1))
        (j.state.records ++
          if (appendedLine j record).length ≤ reached then [record] else [])) ↔
      (fromUtf8 ((appendedLine j record).take reached)).isSome ∧
        (stoppedFile j record reached).length ≤ (recoveryMaxBytes maxBytes).toNat := by
  obtain rfl := Except.ok.inj ((runAppends_ok hjson maxRecords maxBytes hsize).symm.trans hrun)
  set kept := retained (fitsLimits (max maxRecords 1) (max maxBytes 1)) records
  have hfile : stoppedFile (written (max maxRecords 1) (max maxBytes 1) kept) record reached =
      (encodeRecords kept).1 ++ (appendedLine (written (max maxRecords 1) (max maxBytes 1) kept)
        record).take reached := rfl
  constructor
  · rintro ⟨t, ht, -⟩
    obtain ⟨hlength, htext⟩ := size_of_openFile ht
    refine ⟨?_, hlength⟩
    rw [hfile, encodeRecords_eq, fromUtf8_append, Option.isSome_map] at htext
    exact htext
  · rintro ⟨htext, hlength⟩
    by_cases hcomplete : (appendedLine (written (max maxRecords 1) (max maxBytes 1) kept)
        record).length ≤ reached
    · have hall : stoppedFile (written (max maxRecords 1) (max maxBytes 1) kept) record reached =
          (encodeRecords (kept ++ [record])).1 ++ [] := by
        rw [hfile, List.take_of_length_le hcomplete, List.append_nil, encodeRecords_concat]
        rfl
      rw [hall] at hlength ⊢
      have hopen := openFile_written hjson maxRecords maxBytes (kept ++ [record])
        noNewline_nil (fromUtf8_utf8 []) hlength
      exact ⟨_, hopen, by rw [if_pos hcomplete]; rfl⟩
    · obtain ⟨text, htext⟩ := Option.isSome_iff_exists.1 htext
      have htail := noNewline_take hjson _ (Nat.lt_of_not_le hcomplete)
      rw [hfile] at hlength ⊢
      have hopen := openFile_written hjson maxRecords maxBytes kept htail htext hlength
      exact ⟨_, hopen, by rw [if_neg hcomplete, List.append_nil]; rfl⟩

end

theorem crash_iff_torn : ∃ (json : JournalJson EventEnvelope) (sha : Sha256)
    (j : FileOperationalJournal EventEnvelope), json = eventJson ∧ sha = Sha256.fips ∧
    runAppends 2 10000 ([eventWithId "e1"].map fun r => (r, none)) = .ok j ∧
    ((∃ t, openFile (some (stoppedFile j (eventWithId "e2") 20)) 2 10000 = .ok t ∧
      t.state.records = retained (fitsLimits (max 2 1) (max 10000 1)) (j.state.records ++
        if (appendedLine j (eventWithId "e2")).length ≤ 20 then [eventWithId "e2"] else [])) ↔
      (fromUtf8 ((appendedLine j (eventWithId "e2")).take 20)).isSome ∧
        (stoppedFile j (eventWithId "e2") 20).length ≤ (recoveryMaxBytes 10000).toNat) := by
  let _ := eventJson
  let _ := Sha256.fips
  have hsize : ∀ r ∈ [eventWithId "e1"],
      (recordBytes r).length ≤ maxJournalRecordBytes := by decide +kernel
  have hrun := runAppends_ok eventJson_lawful 2 10000 hsize
  exact ⟨eventJson, Sha256.fips, _, rfl, rfl, hrun,
    crash_iff eventJson_lawful hsize hrun (eventWithId "e2") 20⟩

theorem recordText_eventWithId (eventId : String) : ∃ before after : List Char,
    (utf8 before).length + (utf8 after).length ≤ 400 ∧
    (eventRecordTokens (eventWithId eventId)).flatMap Token.text =
      before ++ (Token.str eventId.toList).text ++ after := by
  refine ⟨((eventRecordTokens (eventWithId "")).take 14).flatMap Token.text,
    ((eventRecordTokens (eventWithId "")).drop 15).flatMap Token.text, by decide, ?_⟩
  simp [eventRecordTokens, eventMembers, memberTokens, eventWithId]

/-- The size of an event whose id is letters. -/
theorem length_recordBytes_eventWithId {eventId : String} (n : Nat)
    (h : eventId.toList = List.replicate n 'a') :
    n ≤ (@recordBytes EventEnvelope eventJson (eventWithId eventId)).length ∧
      (@recordBytes EventEnvelope eventJson (eventWithId eventId)).length ≤ n + 402 := by
  obtain ⟨before, after, hshort, htext⟩ := recordText_eventWithId eventId
  have hescape : escapeChar 'a' = ['a'] := by decide
  have hletter : 'a'.utf8Size = 1 := by decide
  have hquote : '"'.utf8Size = 1 := by decide
  have hid : (utf8 (Token.str eventId.toList).text).length = n + 2 := by
    rw [h]
    simp [Token.text, List.flatMap_replicate, hescape, utf8, hletter, hquote]
    omega
  have hbytes : @recordBytes EventEnvelope eventJson (eventWithId eventId) =
      utf8 (before ++ (Token.str eventId.toList).text ++ after) := htext ▸ rfl
  rw [hbytes, utf8_append, utf8_append, List.length_append, List.length_append, hid]
  omega

section

variable {Record : Type} [JournalJson Record] [Sha256] {maxRecords : Nat} {maxBytes : UInt64}

theorem length_recordBytes_le (j : FileOperationalJournal Record) (record : Record) :
    (recordBytes record).length ≤ (appendedLine j record).length := by
  rw [appendedLine, envelopeLine, envelopeText, recordBytes]
  simp only [utf8_append, List.length_append, nextEnvelope]
  omega

/-- Two records that take more than half of the allowance each are not opened before they are
compacted. -/
theorem not_openFile_large (hjson : JournalJson.Lawful Record) {record : Record}
    (hlarge : 600000 ≤ (recordBytes record).length)
    (hsize : (recordBytes record).length ≤ maxJournalRecordBytes) :
    ∃ j, runAppends 10 1 [(record, none)] = .ok j ∧ ∀ t : FileOperationalJournal Record,
      openFile (some (stoppedFile j record (appendedLine j record).length)) 10 1 ≠ .ok t := by
  have hone : ∀ r ∈ [record], (recordBytes r).length ≤ maxJournalRecordBytes := by
    intro r hr
    rw [List.mem_singleton.1 hr]
    exact hsize
  refine ⟨_, runAppends_ok hjson 10 1 hone, fun t ht => ?_⟩
  rw [show retained (fitsLimits (max 10 1) (max 1 1)) [record] = [record] from rfl] at ht
  have hread := (size_of_openFile ht).1
  have hallowed : (recoveryMaxBytes 1).toNat = 1114113 := by decide
  have hfirst := length_recordBytes_le (written (max 10 1) (max 1 1) []) record
  have hsecond := length_recordBytes_le (written (max 10 1) (max 1 1) [record]) record
  have hfile : (appendedLine (written (max 10 1) (max 1 1) []) record).length ≤
      (written (max 10 1) (max 1 1) [record]).file.length := by
    have hconcat := encodeRecords_concat [] record
    rw [List.nil_append] at hconcat
    change _ ≤ (encodeRecords [record]).1.length
    rw [hconcat, List.length_append]
    exact Nat.le_add_left _ _
  rw [stoppedFile, List.length_append, hallowed] at hread
  change _ + ((appendedLine (written (max 10 1) (max 1 1) [record]) record).take _).length ≤ _
    at hread
  rw [List.take_length] at hread
  omega

end

/-- An event that takes more than half of what the reader allows for one record. -/
def largeEvent : EventEnvelope := eventWithId (String.ofList (List.replicate 600000 'a'))

theorem largeEvent_size : 600000 ≤ (@recordBytes EventEnvelope eventJson largeEvent).length ∧
    (@recordBytes EventEnvelope eventJson largeEvent).length ≤ maxJournalRecordBytes := by
  obtain ⟨hlarge, hsize⟩ := length_recordBytes_eventWithId 600000
    (String.toList_ofList : (String.ofList (List.replicate 600000 'a')).toList = _)
  exact ⟨hlarge, hsize.trans (by decide)⟩

/-- The journal is not opened: one record over the size limit and the line of the next are more than the reader allows, -/
theorem not_reopened_after_crash : ∃ (json : JournalJson EventEnvelope) (sha : Sha256)
    (j : FileOperationalJournal EventEnvelope), json = eventJson ∧ sha = Sha256.fips ∧
    JournalJson.Lawful EventEnvelope ∧
    (recordBytes largeEvent).length ≤ maxJournalRecordBytes ∧
    runAppends 10 1 [(largeEvent, none)] = .ok j ∧
    ∀ t : FileOperationalJournal EventEnvelope, openFile (some (stoppedFile j largeEvent (appendedLine j largeEvent).length)) 10 1 ≠
      .ok t := by
  let _ := eventJson
  let _ := Sha256.fips
  obtain ⟨hlarge, hsize⟩ := largeEvent_size
  obtain ⟨j, hrun, hopen⟩ := not_openFile_large eventJson_lawful hlarge hsize
  exact ⟨eventJson, Sha256.fips, j, rfl, rfl, eventJson_lawful, hsize, hrun, hopen⟩

/-! ## Appends that fail -/

section

variable {Record : Type} [JournalJson Record] [Sha256] {maxRecords : Nat} {maxBytes : UInt64}

/-- The records whose appends returned `Ok`. -/
def appended (appends : List (Record × Option AppendFault)) : List Record :=
  (appends.filter fun (record, fault) =>
    fault.isNone && (recordBytes record).length ≤ maxJournalRecordBytes).map (·.1)

/-- An append that keeps the file readable: one that returns `Ok` begins a line of its own or makes
the journal drop records, which writes the file anew, and one that fails stops between two
characters within what the reader allows. -/
def StaysReadable (maxBytes : UInt64) (j : FileOperationalJournal Record)
    (step : Record × Option AppendFault) : Prop :=
  (recordBytes step.1).length ≤ maxJournalRecordBytes → match step.2 with
    | none => j.file.getLast? = some 0x0a ∨ j.state.records.length + 1 > j.maxRecords ∨
        (j.file ++ appendedLine j step.1).length > j.maxBytes.toNat
    | some fault => (fromUtf8 (tornPart (appendedLine j step.1) fault.written)).isSome ∧
        (j.file ++ tornPart (appendedLine j step.1) fault.written).length ≤
          (recoveryMaxBytes maxBytes).toNat

instance decidableJournalStaysReadable (maxBytes : UInt64) (j : FileOperationalJournal Record)
    (step : Record × Option AppendFault) : Decidable (StaysReadable maxBytes j step) :=
  match step with
  | (record, none) => inferInstanceAs (Decidable ((recordBytes record).length ≤
      maxJournalRecordBytes → j.file.getLast? = some 0x0a ∨
        j.state.records.length + 1 > j.maxRecords ∨
        (j.file ++ appendedLine j record).length > j.maxBytes.toNat))
  | (record, some fault) => inferInstanceAs (Decidable ((recordBytes record).length ≤
      maxJournalRecordBytes → (fromUtf8 (tornPart (appendedLine j record) fault.written)).isSome ∧
        (j.file ++ tornPart (appendedLine j record) fault.written).length ≤
          (recoveryMaxBytes maxBytes).toNat))

/-- The file has the records that are kept and a part of a line behind them. -/
structure KeptTorn (maxRecords : Nat) (maxBytes : UInt64) (all : List Record)
    (j : FileOperationalJournal Record) : Prop where
  file : ∃ tail text, j = torn (max maxRecords 1) (max maxBytes 1)
      (retained (fitsLimits (max maxRecords 1) (max maxBytes 1)) all) tail ∧
    NoNewline tail ∧ fromUtf8 tail = some text
  readable : j.file.length ≤ (recoveryMaxBytes maxBytes).toNat
  size : ∀ r ∈ all, (recordBytes r).length ≤ maxJournalRecordBytes

variable {j : FileOperationalJournal Record}

theorem file_append_fault {record : Record} {fault : AppendFault}
    (hsize : (recordBytes record).length ≤ maxJournalRecordBytes) :
    (j.append record (some fault)).2.file =
      j.file ++ tornPart (appendedLine j record) fault.written := by
  rw [FileOperationalJournal.append, if_neg (Nat.not_lt.2 hsize)]
  rfl

theorem torn_append_fault {records : List Record} {record : Record} {tail : Bytes}
    {fault : AppendFault} (hsize : (recordBytes record).length ≤ maxJournalRecordBytes) :
    ((torn maxRecords maxBytes records tail).append record (some fault)).2 =
      torn maxRecords maxBytes records (tail ++
        tornPart (appendedLine (torn maxRecords maxBytes records tail) record) fault.written) := by
  rw [FileOperationalJournal.append, if_neg (Nat.not_lt.2 hsize)]
  simp only [torn, List.append_assoc]
  rfl

theorem KeptTorn.append (hjson : JournalJson.Lawful Record) {all : List Record}
    (h : KeptTorn maxRecords maxBytes all j) {step : Record × Option AppendFault}
    (hreadable : StaysReadable maxBytes j step) :
    KeptTorn maxRecords maxBytes (all ++ appended [step]) (j.append step.1 step.2).2 := by
  obtain ⟨record, fault⟩ := step
  obtain ⟨⟨tail, text, rfl, htail, htext⟩, hlength, hall⟩ := h
  by_cases hsize : (recordBytes record).length ≤ maxJournalRecordBytes
  · have hcond := hreadable hsize
    cases fault with
    | none =>
      have hone : appended [(record, none)] = [record] := by simp [appended, hsize]
      have hpos := Nat.le_max_right maxRecords 1
      have hline (kept : List Record) (hlast : (torn (max maxRecords 1) (max maxBytes 1) kept
          tail).file.getLast? = some 0x0a) : tail = [] := by
        by_contra hne
        simp only [torn, written] at hlast
        rw [List.getLast?_append_of_ne_nil _ hne] at hlast
        exact htail (List.mem_of_getLast? hlast)
      have hclean := Or.imp_left (hline _) hcond
      have hnew : ∀ r ∈ all ++ [record], (recordBytes r).length ≤ maxJournalRecordBytes := by
        intro r hr
        obtain hr | hr := List.mem_append.1 hr
        · exact hall r hr
        · exact List.mem_singleton.1 hr ▸ hsize
      have happend := append_torn (max maxBytes 1) hpos
        (retained (fitsLimits (max maxRecords 1) (max maxBytes 1)) all) hsize hclean
      rw [retained_concat fitsLimits_of_concat] at happend
      rw [hone, happend]
      refine ⟨⟨[], [], (torn_nil _).symm, noNewline_nil, fromUtf8_utf8 []⟩, ?_, hnew⟩
      exact length_retained_le _ _ hnew
    | some fault =>
      have hnone : appended [(record, some fault)] = [] := by simp [appended]
      obtain ⟨more, hmore⟩ := Option.isSome_iff_exists.1 hcond.1
      rw [hnone, List.append_nil]
      have hpart : NoNewline (tornPart (appendedLine (torn (max maxRecords 1) (max maxBytes 1)
          (retained (fitsLimits (max maxRecords 1) (max maxBytes 1)) all) tail) record)
            fault.written) :=
        noNewline_tornPart (isLine_envelopeText hjson _) _
      exact ⟨⟨_, text ++ more, torn_append_fault hsize, htail.append hpart,
        fromUtf8_append_some htext hmore⟩, file_append_fault hsize ▸ hcond.2, hall⟩
  · have hnone : appended [(record, fault)] = [] := by simp [appended, hsize]
    rw [hnone, List.append_nil, FileOperationalJournal.append, if_pos (Nat.lt_of_not_le hsize)]
    exact ⟨⟨tail, text, rfl, htail, htext⟩, hlength, hall⟩

theorem keptTorn_runAppends (hjson : JournalJson.Lawful Record) {maxRecords : Nat}
    {maxBytes : UInt64} (appends : List (Record × Option AppendFault))
    (hsteps : ∀ before step after j, appends = before ++ step :: after →
      runAppends maxRecords maxBytes before = .ok j → StaysReadable maxBytes j step)
    (hrun : runAppends maxRecords maxBytes appends = .ok j) :
    KeptTorn maxRecords maxBytes (appended appends) j := by
  induction appends using List.reverseRecOn generalizing j with
  | nil =>
    rw [runAppends, openFile_none hjson] at hrun
    obtain rfl := Except.ok.inj hrun
    have hnone : ∀ r ∈ appended ([] : List (Record × Option AppendFault)),
        (recordBytes r).length ≤ maxJournalRecordBytes := by
      intro r hr
      cases hr
    refine ⟨⟨[], [], (torn_nil _).symm, noNewline_nil, fromUtf8_utf8 []⟩, ?_, hnone⟩
    exact length_retained_le maxRecords maxBytes hnone
  | append_singleton appends step ih =>
    obtain ⟨u, hu, rfl⟩ := runAppends_concat.1 hrun
    have hreadable := hsteps appends step [] u rfl hu
    have hkept := ih (fun before step' after v heq hv =>
      hsteps before step' (after ++ [step]) v (by rw [heq]; simp) hv) hu
    have hsplit : appended (appends ++ [step]) = appended appends ++ appended [step] := by
      simp [appended]
    rw [hsplit]
    exact hkept.append hjson hreadable

/-- **Appends that fail.** A journal whose appends keep its file readable is opened with the records
that retention keeps of those whose appends returned `Ok`, in a chain that is built anew. -/
theorem reopened_after_torn_appends (hjson : JournalJson.Lawful Record) {maxRecords : Nat}
    {maxBytes : UInt64} (appends : List (Record × Option AppendFault))
    (hsteps : ∀ before step after j, appends = before ++ step :: after →
      runAppends maxRecords maxBytes before = .ok j → StaysReadable maxBytes j step)
    {j : FileOperationalJournal Record} (hrun : runAppends maxRecords maxBytes appends = .ok j) :
    ∃ t, openFile (some j.file) maxRecords maxBytes = .ok t ∧
      (t.file, t.state.sequence, t.state.lastHash) = encodeRecords t.state.records ∧
      t.state.records =
        retained (fitsLimits (max maxRecords 1) (max maxBytes 1)) (appended appends) := by
  obtain ⟨⟨tail, text, rfl, htail, htext⟩, hlength, -⟩ :=
    keptTorn_runAppends hjson appends hsteps hrun
  have hopen := openFile_written hjson maxRecords maxBytes
    (retained (fitsLimits (max maxRecords 1) (max maxBytes 1)) (appended appends))
    htail htext hlength
  rw [retained_retained] at hopen
  exact ⟨_, hopen, rfl, rfl⟩

end

/-- An append that fails before it wrote anything, and one that does not. -/
def faultThenAppend : List (EventEnvelope × Option AppendFault) :=
  [(eventWithId "e1", some ⟨0, "no space left on device"⟩), (eventWithId "e2", none)]

theorem reopened_after_fault : ∃ (json : JournalJson EventEnvelope) (sha : Sha256)
    (j t : FileOperationalJournal EventEnvelope), json = eventJson ∧ sha = Sha256.fips ∧
    runAppends 10 10000 faultThenAppend = .ok j ∧
    openFile (some j.file) 10 10000 = .ok t ∧
      (t.file, t.state.sequence, t.state.lastHash) = encodeRecords t.state.records ∧
      t.state.records = retained (fitsLimits (max 10 1) (max 10000 1)) (appended faultThenAppend) := by
  let _ := eventJson
  let _ := Sha256.fips
  obtain ⟨j, hrun, -⟩ := ok_of_any (x := runAppends 10 10000 faultThenAppend) (p := fun _ => true)
    (by decide)
  obtain ⟨t, ht, hfile, hrecords⟩ := reopened_after_torn_appends eventJson_lawful faultThenAppend
    (steps_of_take (by decide +kernel)) hrun
  exact ⟨eventJson, Sha256.fips, j, t, rfl, rfl, hrun, ht, hfile, hrecords⟩

/-- An append that fails in the middle of its line, and one that does not. -/
def firstAppendFails : List (EventEnvelope × Option AppendFault) :=
  [(eventWithId "e1", some ⟨12, "no space left on device"⟩), (eventWithId "e2", none)]

theorem not_reopened_first_append_fails : ∃ (json : JournalJson EventEnvelope) (sha : Sha256)
    (j : FileOperationalJournal EventEnvelope), json = eventJson ∧ sha = Sha256.fips ∧
    JournalJson.Lawful EventEnvelope ∧
    runAppends 10 10000 firstAppendFails = .ok j ∧
    eventWithId "e2" ∈ appended firstAppendFails ∧
    ∀ t : FileOperationalJournal EventEnvelope, openFile (some j.file) 10 10000 ≠ .ok t := by
  let _ := eventJson
  let _ := Sha256.fips
  obtain ⟨j, hrun, hj⟩ := ok_of_any (x := runAppends 10 10000 firstAppendFails)
    (p := fun j => (openFile (some j.file) 10 10000 :
      RuntimeResult (FileOperationalJournal EventEnvelope)).toOption.isNone) (by
        delta runAppends openFile loadState readBounded append nextEnvelope recordHash
        rw [fromUtf8_eq_ascii, funext strBytes_eq_toByteArray]
        decide +kernel)
  refine ⟨eventJson, Sha256.fips, j, rfl, rfl, eventJson_lawful, hrun, by decide +kernel, ?_⟩
  intro t ht
  rw [ht] at hj
  cases hj

end AppCore.Core
