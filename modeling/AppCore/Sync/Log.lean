import AppCore.Sync.Types

/-!
# Replication logs

The log contract of `log.rs` and its process-local implementation, with the snapshots of
`snapshot.rs`. A log is a vector of hash-chained records and an index from source sequences to
offsets; records appended without a sequence carry sequence 0 and are never looked up.

The chain and the numbering are functions of what was appended: `recordsFrom` rebuilds a log
from its sequences and payloads, and `ValidRecords` says that a list of records is such a
rebuild, with no positive sequence used twice.
-/

namespace AppCore.Sync

def replicationLogFormatV1 : String := "# appcore-replication-log-v1"

def maxReplicationLogBytes : Nat := 256 * 1024 * 1024

def maxReplicationRecordBytes : Nat := 1024 * 1024

structure ReplicationRecord where
  index : Nat
  sequence : UInt64
  payload : Bytes
  previousHash : String
  recordHash : String
  deriving DecidableEq, Repr

def validateRecordSize (payload : Bytes) : SyncResult Unit :=
  if payload.length > maxReplicationRecordBytes then
    .error (.replicationFailed "replication record exceeds size limit")
  else .ok ()

def replicationRecordHash [Sha256] (previousHash : String) (sequence : UInt64) (payload : Bytes) :
    String :=
  hexDigest (strBytes replicationLogFormatV1 ++ lenBytes64 (strBytes previousHash).length ++
    strBytes previousHash ++ toBeBytes64 sequence ++ lenBytes64 payload.length ++ payload)

/-- The map from source sequences to offsets. -/
abbrev SequenceIndices := Std.ExtTreeMap UInt64 Nat compare

/-- `sequence_indices`: later records replace earlier ones of the same sequence. -/
def sequenceIndices (records : List ReplicationRecord) : SequenceIndices :=
  records.zipIdx.foldl (fun indices entry => indices.insert entry.1.sequence entry.2) ∅

/-- The record indexed at a positive sequence. -/
def lookupSequence (events : List ReplicationRecord) (indices : SequenceIndices)
    (sequence : UInt64) : Option ReplicationRecord :=
  if sequence > 0 then indices[sequence]?.bind (events[·]?) else none

/-! ## Snapshots -/

def syncSnapshotFormatV1 : UInt16 := 1

structure ReplicationSnapshotRecord where
  sequence : UInt64
  payload : Bytes
  deriving DecidableEq, Repr

structure ReplicationSnapshot where
  formatVersion : UInt16
  lastIndex : UInt64
  records : List ReplicationSnapshotRecord
  checksum : String
  deriving DecidableEq, Repr

def snapshotChecksum [Sha256] (formatVersion : UInt16) (lastIndex : UInt64)
    (records : List ReplicationSnapshotRecord) : String :=
  hexDigest (toBeBytes16 formatVersion ++ toBeBytes64 lastIndex ++ lenBytes64 records.length ++
    records.flatMap fun record =>
      toBeBytes64 record.sequence ++ lenBytes64 record.payload.length ++ record.payload)

def snapshotFromRecords [Sha256] (records : List ReplicationRecord) : ReplicationSnapshot :=
  let records := records.map fun record => ⟨record.sequence, record.payload⟩
  let lastIndex := UInt64.ofNat records.length
  { formatVersion := syncSnapshotFormatV1
    lastIndex := lastIndex
    records := records
    checksum := snapshotChecksum syncSnapshotFormatV1 lastIndex records }

/-- The loop of `snapshot_records`, from the record at `offset` on. -/
def snapshotRecordsFrom [Sha256] (sequences : Finset UInt64) (previousHash : String)
    (offset : Nat) : List ReplicationSnapshotRecord → SyncResult (List ReplicationRecord)
  | [] => .ok []
  | record :: rest =>
    match validateRecordSize record.payload with
    | .error e => .error e
    | .ok () =>
      if record.sequence > 0 ∧ record.sequence ∈ sequences then
        .error (.invalidSnapshot "duplicate sequence")
      else
        let recordHash := replicationRecordHash previousHash record.sequence record.payload
        let sequences :=
          if record.sequence > 0 then insert record.sequence sequences else sequences
        match snapshotRecordsFrom sequences recordHash (offset + 1) rest with
        | .error e => .error e
        | .ok records =>
          .ok (⟨offset + 1, record.sequence, record.payload, previousHash, recordHash⟩ ::
            records)

def snapshotRecords [Sha256] (snapshot : ReplicationSnapshot) :
    SyncResult (List ReplicationRecord) :=
  snapshotRecordsFrom ∅ "" 0 snapshot.records

def validateSnapshot [Sha256] (snapshot : ReplicationSnapshot) :
    SyncResult (List ReplicationRecord) :=
  if snapshot.formatVersion ≠ syncSnapshotFormatV1 then
    .error (.invalidSnapshot "unsupported format version")
  else if snapshot.lastIndex ≠ UInt64.ofNat snapshot.records.length then
    .error (.invalidSnapshot "last index mismatch")
  else if snapshot.checksum ≠
      snapshotChecksum snapshot.formatVersion snapshot.lastIndex snapshot.records then
    .error (.invalidSnapshot "checksum mismatch")
  else snapshotRecords snapshot

/-! ## The contract and the process-local log -/

/-- `trait ReplicationLog`. A mutating operation returns its result and the log after it. -/
class ReplicationLog (L : Type) where
  append : L → Bytes → SyncResult Nat × L
  appendWithSequence : L → Bytes → UInt64 → SyncResult Nat × L
  eventAtSequence : L → UInt64 → SyncResult (Option Bytes)
  eventsSince : L → Nat → SyncResult (List Bytes)
  lastIndex : L → Nat
  len : L → Nat
  isEmpty : L → Bool
  createSnapshot : L → SyncResult ReplicationSnapshot
  restoreSnapshot : L → ReplicationSnapshot → SyncResult Unit × L

/-- The record an append at `sequence` would put at the end of `events`. -/
def nextRecord [Sha256] (events : List ReplicationRecord) (record : Bytes) (sequence : UInt64) :
    ReplicationRecord :=
  let previousHash := (events.getLast?.map (·.recordHash)).getD ""
  { index := events.length + 1
    sequence := sequence
    payload := record
    previousHash := previousHash
    recordHash := replicationRecordHash previousHash sequence record }

/-- `events_since`, the same for both implementations. -/
def eventsSinceOf (events : List ReplicationRecord) (index : Nat) : SyncResult (List Bytes) :=
  if index > events.length then .error (.logIndexOutOfBounds index events.length)
  else .ok ((events.drop index).map (·.payload))

structure InMemoryReplicationLog where
  events : List ReplicationRecord
  sequenceIndices : SequenceIndices

namespace InMemoryReplicationLog

def new : InMemoryReplicationLog := ⟨[], ∅⟩

def appendWithSequence [Sha256] (log : InMemoryReplicationLog) (record : Bytes)
    (sequence : UInt64) : SyncResult Nat × InMemoryReplicationLog :=
  match validateRecordSize record with
  | .error e => (.error e, log)
  | .ok () =>
    match lookupSequence log.events log.sequenceIndices sequence with
    | some existing =>
      if existing.payload = record then (.ok existing.index, log)
      else (.error (.sequenceConflict sequence), log)
    | none =>
      let entry := nextRecord log.events record sequence
      (.ok entry.index,
        { events := log.events ++ [entry]
          sequenceIndices := log.sequenceIndices.insert sequence (entry.index - 1) })

/-- `event_at_sequence`, without its `Ok`. -/
def payloadAt (log : InMemoryReplicationLog) (sequence : UInt64) : Option Bytes :=
  (lookupSequence log.events log.sequenceIndices sequence).map (·.payload)

def restoreSnapshot [Sha256] (log : InMemoryReplicationLog) (snapshot : ReplicationSnapshot) :
    SyncResult Unit × InMemoryReplicationLog :=
  match validateSnapshot snapshot with
  | .error e => (.error e, log)
  | .ok records => (.ok (), { events := records, sequenceIndices := Sync.sequenceIndices records })

instance [Sha256] : ReplicationLog InMemoryReplicationLog where
  append log record := log.appendWithSequence record 0
  appendWithSequence := appendWithSequence
  eventAtSequence log sequence := .ok (log.payloadAt sequence)
  eventsSince log index := eventsSinceOf log.events index
  lastIndex log := log.events.length
  len log := log.events.length
  isEmpty log := log.events.isEmpty
  createSnapshot log := .ok (snapshotFromRecords log.events)
  restoreSnapshot := restoreSnapshot

end InMemoryReplicationLog

end AppCore.Sync
