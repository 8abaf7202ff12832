import AppCore.Sync.Log

/-!
# The file-backed replication log

`FileReplicationLog` of `log.rs` with the format helpers of `persistence.rs`. The file is one
text: a marker line, then one line a record with its sequence, its payload in hexadecimal and
the two hashes of the chain, separated by tabs. A file that does not end in a newline is an
append that was cut short; its last line is dropped and the file rewritten.

The file's bytes are part of the log here. Opening, locking and replacing files is taken to
succeed, so an operation fails only for a reason the code itself finds.
-/

namespace AppCore.Sync

def updateRequiredMessage : String := "NO MORE SUPPORTED PLEASE UPDATE"

def readBoundedText (file : Bytes) (maxBytes : Nat) : SyncResult (List Char) :=
  if file.length > maxBytes then
    .error (.replicationFailed "persistent file exceeds configured limit")
  else match fromUtf8 file with
    | none => .error (.replicationFailed "stream did not contain valid UTF-8")
    | some text => .ok text

/-- `split_format`: the text after the marker line. -/
def splitFormat (text : List Char) (marker : String) : SyncResult (List Char) :=
  match (text.dropPrefix? marker.toList).bind fun rest => rest.dropPrefix? ['\n'] with
  | some body => .ok body
  | none =>
    if text = marker.toList then .ok []
    else .error (.replicationFailed updateRequiredMessage)

/-! ## Parsing records -/

def corruptLog (lineNumber : Nat) (reason : String) : SyncError :=
  .corruptReplicationLog (lineNumber + 1) reason

/-- `complete_record_prefix`: the text up to its last newline, and whether that drops a tail. -/
def completeRecordPrefix (body : List Char) : List Char × Bool :=
  if body.isEmpty ∨ body.getLast? = some '\n' then (body, false)
  else ((body.reverse.dropWhile (· ≠ '\n')).reverse, true)

/-- One line of `parse_replication_records`, given the records before it. -/
def parseRecord [Sha256] (lineNumber : Nat) (records : List ReplicationRecord)
    (sequences : SequenceIndices) (chainHead : String) (line : List Char) :
    SyncResult ReplicationRecord :=
  match line.splitOn '\t' with
  | [sequenceField, payloadField, previousField, hashField] =>
    match parseU64 sequenceField with
    | none => .error (corruptLog lineNumber "invalid sequence")
    | some sequence =>
      match hexToBytes payloadField with
      | .error _ => .error (corruptLog lineNumber "invalid event hex")
      | .ok payload =>
        match validateRecordSize payload with
        | .error e => .error e
        | .ok () =>
          let recordHash := replicationRecordHash chainHead sequence payload
          if previousField ≠ chainHead.toList ∨ hashField ≠ recordHash.toList then
            .error (corruptLog lineNumber "hash chain mismatch")
          else match if sequence > 0 then sequences[sequence]? else none with
            | some offset =>
              if records[offset]?.map (·.payload) ≠ some payload then
                .error (.sequenceConflict sequence)
              else .error (corruptLog lineNumber "duplicate sequence")
            | none => .ok ⟨records.length + 1, sequence, payload, chainHead, recordHash⟩
  | _ =>
    .error (corruptLog lineNumber
      (if line.contains '\t' then "invalid field count" else "missing separator"))

/-- The loop of `parse_replication_records`, from the given line on. -/
def parseRecordsFrom [Sha256] (lineNumber : Nat) (records : List ReplicationRecord)
    (sequences : SequenceIndices) (chainHead : String) :
    List (List Char) → SyncResult (List ReplicationRecord)
  | [] => .ok records
  | line :: rest =>
    if isBlank line then parseRecordsFrom (lineNumber + 1) records sequences chainHead rest
    else match parseRecord lineNumber records sequences chainHead line with
      | .error e => .error e
      | .ok record =>
        parseRecordsFrom (lineNumber + 1) (records ++ [record])
          (sequences.insert record.sequence (record.index - 1)) record.recordHash rest

def parseReplicationRecords [Sha256] (body : List Char) :
    SyncResult (List ReplicationRecord × Bool) :=
  match completeRecordPrefix body with
  | (complete, recoveredTail) =>
    match parseRecordsFrom 0 [] ∅ "" (lines complete) with
    | .error e => .error e
    | .ok records => .ok (records, recoveredTail)

/-! ## Writing records -/

/-- The four fields of one record. -/
def recordFields (sequence : UInt64) (payload : Bytes) (previousHash recordHash : String) :
    List Char :=
  decimal sequence.toNat ++ '\t' :: ((bytesToHex payload).toList ++ '\t' ::
    (previousHash.toList ++ '\t' :: recordHash.toList))

def recordLine (sequence : UInt64) (payload : Bytes) (previousHash recordHash : String) :
    List Char :=
  recordFields sequence payload previousHash recordHash ++ ['\n']

def markerLine : List Char := replicationLogFormatV1.toList ++ ['\n']

/-- The loop of `write_replication_records`, with the text written so far. -/
def writeRecordsFrom [Sha256] (output : List Char) (previousHash : String) :
    List ReplicationRecord → SyncResult (List Char)
  | [] => .ok output
  | record :: rest =>
    match validateRecordSize record.payload with
    | .error e => .error e
    | .ok () =>
      let hash := replicationRecordHash previousHash record.sequence record.payload
      let output := output ++ recordLine record.sequence record.payload previousHash hash
      if (utf8 output).length > maxReplicationLogBytes then
        .error (.replicationFailed "replication log exceeds configured limit")
      else writeRecordsFrom output hash rest

/-- `write_replication_records`: the bytes that replace the file. -/
def writeReplicationRecords [Sha256] (records : List ReplicationRecord) : SyncResult Bytes :=
  match writeRecordsFrom markerLine "" records with
  | .error e => .error e
  | .ok output => .ok (utf8 output)

/-! ## The log -/

/-- `FileReplicationLog`, with the bytes of its file. -/
structure FileReplicationLog where
  file : Bytes
  events : List ReplicationRecord
  sequenceIndices : SequenceIndices

namespace FileReplicationLog

/-- `reload_unlocked`. -/
def reload [Sha256] (log : FileReplicationLog) : SyncResult Unit × FileReplicationLog :=
  match readBoundedText log.file maxReplicationLogBytes with
  | .error e => (.error e, log)
  | .ok text =>
    match splitFormat text replicationLogFormatV1 with
    | .error e => (.error e, log)
    | .ok body =>
      match parseReplicationRecords body with
      | .error e => (.error e, log)
      | .ok (records, recoveredTail) =>
        if recoveredTail then
          match writeReplicationRecords records with
          | .error e => (.error e, log)
          | .ok file => (.ok (), ⟨file, records, Sync.sequenceIndices records⟩)
        else (.ok (), ⟨log.file, records, Sync.sequenceIndices records⟩)

/-- The relative paths `new` accepts: not empty, not absolute, and without `..`. -/
def validRelativePath (relative : String) : Bool :=
  !relative.toList.isEmpty && relative.toList.head? != some '/' &&
    !(relative.toList.splitOn '/').contains ['.', '.']

/-- `FileReplicationLog::new` over what the disk holds at the path. -/
def new [Sha256] (relative : String) (disk : Option Bytes) : SyncResult FileReplicationLog :=
  if !validRelativePath relative then
    .error (.replicationFailed "invalid replication log path")
  else
    let file := disk.getD (utf8 markerLine)
    match reload ⟨file, [], ∅⟩ with
    | (.error e, _) => .error e
    | (.ok (), log) => .ok log

def appendWithSequence [Sha256] (log : FileReplicationLog) (record : Bytes) (sequence : UInt64) :
    SyncResult Nat × FileReplicationLog :=
  match log.reload with
  | (.error e, log) => (.error e, log)
  | (.ok (), log) =>
    match validateRecordSize record with
    | .error e => (.error e, log)
    | .ok () =>
      match lookupSequence log.events log.sequenceIndices sequence with
      | some existing =>
        if existing.payload = record then (.ok existing.index, log)
        else (.error (.sequenceConflict sequence), log)
      | none =>
        let entry := nextRecord log.events record sequence
        let line := utf8 (recordLine sequence record entry.previousHash entry.recordHash)
        if log.file.length + line.length > maxReplicationLogBytes then
          (.error (.replicationFailed "replication log exceeds configured limit"), log)
        else
          (.ok entry.index,
            { file := log.file ++ line
              events := log.events ++ [entry]
              sequenceIndices := log.sequenceIndices.insert sequence (entry.index - 1) })

def restoreSnapshot [Sha256] (log : FileReplicationLog) (snapshot : ReplicationSnapshot) :
    SyncResult Unit × FileReplicationLog :=
  match validateSnapshot snapshot with
  | .error e => (.error e, log)
  | .ok records =>
    match writeReplicationRecords records with
    | .error e => (.error e, log)
    | .ok file => (.ok (), ⟨file, records, Sync.sequenceIndices records⟩)

instance [Sha256] : ReplicationLog FileReplicationLog where
  append log record := log.appendWithSequence record 0
  appendWithSequence := appendWithSequence
  eventAtSequence log sequence :=
    .ok ((lookupSequence log.events log.sequenceIndices sequence).map (·.payload))
  eventsSince log index := eventsSinceOf log.events index
  lastIndex log := log.events.length
  len log := log.events.length
  isEmpty log := log.events.isEmpty
  createSnapshot log := .ok (snapshotFromRecords log.events)
  restoreSnapshot := restoreSnapshot

end FileReplicationLog

end AppCore.Sync
