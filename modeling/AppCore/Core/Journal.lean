import AppCore.Base.Json
import AppCore.Base.Sha256
import AppCore.Core.Idempotency

/-!
# The operational journal

`FileOperationalJournal` of `operational_journal.rs`. The file has a marker line and one line of JSON
for each record, an envelope with the sequence of the record and the two hashes of the chain. An
append adds a line; when the journal has too many records or its file too many bytes, the first
records are dropped and the file is written anew, with a chain that begins at 1.

A record is an audit entry or an event. The journal only writes and reads it as JSON, so its type is
a parameter, and so is the third-party crate that reads JSON. Opening, locking and replacing the file
succeeds; an append may fail after it wrote a part of its line.
-/

namespace AppCore.Core

open Json

def operationalJournalFormatV1 : String := "# appcore-operational-journal-v1"

def maxJournalRecordBytes : Nat := 1024 * 1024

structure JournalEnvelope (Record : Type) where
  sequence : UInt64
  previousHash : String
  hash : String
  record : Record
  deriving DecidableEq

structure JournalState (Record : Type) where
  records : List Record
  sequence : UInt64
  lastHash : String

/-- `FileOperationalJournal`, with the bytes of its file. -/
structure FileOperationalJournal (Record : Type) where
  file : Bytes
  maxRecords : Nat
  maxBytes : UInt64
  state : JournalState Record

def journalMessage (operation message : String) : RuntimeError :=
  .operationalJournalIo operation message

/-! ## JSON -/

/-- The JSON of a record, and a reader of envelopes. -/
class JournalJson (Record : Type) where
  recordText : Record → List Char
  fromStr : List Char → Except String (JournalEnvelope Record)

/-- The members of an envelope up to its record. -/
def envelopeHead (sequence : UInt64) (previousHash hash : String) : List Token :=
  [.punct '{', .str "sequence".toList, .punct ':', .num sequence.toNat, .punct ',',
    .str "previous_hash".toList, .punct ':', .str previousHash.toList, .punct ',',
    .str "hash".toList, .punct ':', .str hash.toList, .punct ',',
    .str "record".toList, .punct ':']

section

variable {Record : Type} [JournalJson Record]

/-- `serde_json::to_string` of an envelope. -/
def envelopeText (envelope : JournalEnvelope Record) : List Char :=
  (envelopeHead envelope.sequence envelope.previousHash envelope.hash).flatMap Token.text ++
    (JournalJson.recordText envelope.record ++ ['}'])

def recordBytes (record : Record) : Bytes := utf8 (JournalJson.recordText record)

/-- A record is written on one line, and an envelope is read back. -/
structure JournalJson.Lawful (Record : Type) [JournalJson Record] : Prop where
  line (record : Record) : IsLine (JournalJson.recordText record)
  lossless (envelope : JournalEnvelope Record) :
    JournalJson.fromStr (envelopeText envelope) = .ok envelope

/-- `append_envelope`: the line it writes. -/
def envelopeLine (envelope : JournalEnvelope Record) : Bytes := utf8 (envelopeText envelope ++ ['\n'])

/-! ## The chain -/

variable [Sha256]

def recordHash (sequence : UInt64) (previousHash : String) (record : Bytes) : String :=
  String.ofList (lowerHex (digest (strBytes operationalJournalFormatV1 ++ toBeBytes64 sequence ++
    lenBytes64 (strBytes previousHash).length ++ strBytes previousHash ++
    lenBytes64 record.length ++ record)).toList)

/-- The envelope of a record after a sequence and a hash. -/
def nextEnvelope (sequence : UInt64) (lastHash : String) (record : Record) :
    JournalEnvelope Record where
  sequence := saturatingAdd sequence 1
  previousHash := lastHash
  hash := recordHash (saturatingAdd sequence 1) lastHash (recordBytes record)
  record := record

/-- One record of `encode_records`. -/
def encodeRecord (output : List Char × UInt64 × String) (record : Record) :
    List Char × UInt64 × String :=
  let envelope := nextEnvelope output.2.1 output.2.2 record
  (output.1 ++ (envelopeText envelope ++ ['\n']), envelope.sequence, envelope.hash)

/-- `encode_records`: the bytes of the file, and the sequence and the hash of its last line. -/
def encodeRecords (records : List Record) : Bytes × UInt64 × String :=
  let output := records.foldl encodeRecord (operationalJournalFormatV1.toList ++ ['\n'], 0, "")
  (utf8 output.1, output.2.1, output.2.2)

def validateEnvelope (envelope : JournalEnvelope Record) (expectedSequence : UInt64)
    (expectedPrevious : String) : RuntimeResult Unit :=
  if envelope.sequence ≠ expectedSequence ∨ envelope.previousHash ≠ expectedPrevious ∨
      envelope.hash ≠ recordHash envelope.sequence expectedPrevious (recordBytes envelope.record) then
    .error (journalMessage "validate_hash_chain" "operational journal hash chain mismatch")
  else .ok ()

def readBounded (file : Bytes) (maxBytes : UInt64) : RuntimeResult (List Char) :=
  if file.length > maxBytes.toNat then
    .error (journalMessage "validate_size" "journal exceeds size limit")
  else match fromUtf8 file with
    | none => .error (journalMessage "read" "stream did not contain valid UTF-8")
    | some text => .ok text

/-- One line of `load_state`. -/
def loadEnvelope (state : JournalState Record) (line : List Char) :
    RuntimeResult (JournalState Record) :=
  if line.isEmpty then .ok state
  else match JournalJson.fromStr line with
    | .error message => .error (journalMessage "parse_record" message)
    | .ok envelope =>
      match validateEnvelope envelope (saturatingAdd state.sequence 1) state.lastHash with
      | .error e => .error e
      | .ok () => .ok ⟨state.records ++ [envelope.record], envelope.sequence, envelope.hash⟩

/-- `load_state`, and whether the last line was cut short. -/
def loadState (file : Bytes) (maxBytes : UInt64) : RuntimeResult (JournalState Record × Bool) :=
  match readBounded file maxBytes with
  | .error e => .error e
  | .ok text =>
    match stripMarker operationalJournalFormatV1.toList text with
    | none => .error (journalMessage "validate_format" "unsupported operational journal format")
    | some body =>
      match completeLinePrefix body with
      | (complete, recoveredTail) =>
        match (lines complete).foldlM loadEnvelope (⟨[], 0, ""⟩ : JournalState Record) with
        | .error e => .error e
        | .ok state => .ok (state, recoveredTail)

/-! ## The journal -/

namespace FileOperationalJournal

/-- `rewrite_locked`, with the records that are kept. -/
def rewriteLocked (j : FileOperationalJournal Record) (records : List Record) :
    FileOperationalJournal Record :=
  match encodeRecords records with
  | (bytes, sequence, lastHash) => { j with file := bytes, state := ⟨records, sequence, lastHash⟩ }

/-- The first loop of `compact_locked`. -/
def popExcess (maxRecords : Nat) : List Record → List Record
  | [] => []
  | record :: rest =>
    if (record :: rest).length > maxRecords then popExcess maxRecords rest else record :: rest

/-- The rewrite of `compact_locked`, and its second loop. -/
def rewriteLoop (j : FileOperationalJournal Record) : List Record → FileOperationalJournal Record
  | [] => j.rewriteLocked []
  | [record] => j.rewriteLocked [record]
  | record :: next :: rest =>
    let rewritten := j.rewriteLocked (record :: next :: rest)
    if rewritten.file.length > j.maxBytes.toNat then rewriteLoop j (next :: rest) else rewritten

def compactLocked (j : FileOperationalJournal Record) : FileOperationalJournal Record :=
  rewriteLoop j (popExcess j.maxRecords j.state.records)

def newFile : Bytes := utf8 (operationalJournalFormatV1.toList ++ ['\n'])

/-- Whether the journal is over one of its limits. -/
def exceedsLimits (j : FileOperationalJournal Record) : Bool :=
  j.state.records.length > j.maxRecords || j.file.length > j.maxBytes.toNat

/-- `recovery_max_bytes` of `open`. -/
def recoveryMaxBytes (maxBytes : UInt64) : UInt64 :=
  saturatingAdd (saturatingAdd (max maxBytes 1) (UInt64.ofNat maxJournalRecordBytes)) (64 * 1024)

/-- The journal that `open` makes of a state that was loaded. -/
def opened (file : Bytes) (maxRecords : Nat) (maxBytes : UInt64)
    (loaded : JournalState Record × Bool) : FileOperationalJournal Record :=
  let journal : FileOperationalJournal Record :=
    ⟨file, max maxRecords 1, max maxBytes 1, loaded.1⟩
  if loaded.2 || journal.exceedsLimits then journal.compactLocked else journal

/-- `open`, over what the disk holds at the path. -/
def openFile (disk : Option Bytes) (maxRecords : Nat) (maxBytes : UInt64) :
    RuntimeResult (FileOperationalJournal Record) :=
  (loadState (disk.getD newFile) (recoveryMaxBytes maxBytes)).map
    (opened (disk.getD newFile) maxRecords maxBytes)

def append (j : FileOperationalJournal Record) (record : Record) (fault : Option AppendFault) :
    RuntimeResult Unit × FileOperationalJournal Record :=
  if (recordBytes record).length > maxJournalRecordBytes then
    (.error (journalMessage "validate_record" "record exceeds size limit"), j)
  else
    let envelope := nextEnvelope j.state.sequence j.state.lastHash record
    match fault with
    | some fault =>
      (.error (journalMessage "append_record" fault.message),
        { j with file := j.file ++ tornPart (envelopeLine envelope) fault.written })
    | none =>
      let j := { j with
        file := j.file ++ envelopeLine envelope
        state := ⟨j.state.records ++ [record], envelope.sequence, envelope.hash⟩ }
      (.ok (), if j.exceedsLimits then j.compactLocked else j)

/-- Appends to a new journal, some of which fail. -/
def runAppends (maxRecords : Nat) (maxBytes : UInt64)
    (appends : List (Record × Option AppendFault)) :
    RuntimeResult (FileOperationalJournal Record) :=
  (openFile none maxRecords maxBytes).map
    (appends.foldl fun j (record, fault) => (j.append record fault).2)

end FileOperationalJournal

end

end AppCore.Core
