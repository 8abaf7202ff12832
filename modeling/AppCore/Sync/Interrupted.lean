import AppCore.Sync.FailingAppend
import AppCore.Sync.FileCheckpoint
import AppCore.Sync.Receiver

/-!
# Receivers that are interrupted

A receiver holds its log and its checkpoints behind trait objects. An interruption stops one append
or the change of the checkpoint with an I/O error; the code that applies a batch is the same, run
over stores that stop.
-/

namespace AppCore.Sync

/-! ## The stores of a receiver -/

/-- `Box<dyn ReplicationLog + Send>` over the two logs. -/
inductive BoxedLog where
  | memory (log : InMemoryReplicationLog)
  | file (log : FileReplicationLog)

namespace BoxedLog

/-- The records the log shows. -/
def events : BoxedLog → List ReplicationRecord
  | .memory log => log.events
  | .file log => log.events

def sequenceIndices : BoxedLog → SequenceIndices
  | .memory log => log.sequenceIndices
  | .file log => log.sequenceIndices

/-- The records that are found when the log is opened again. -/
def stored [Sha256] : BoxedLog → SyncResult (List ReplicationRecord)
  | .memory log => .ok log.events
  | .file log => log.stored

def payloadAt (log : BoxedLog) (sequence : UInt64) : Option Bytes :=
  (lookupSequence log.events log.sequenceIndices sequence).map (·.payload)

def appendWithSequence [Sha256] (log : BoxedLog) (record : Bytes) (sequence : UInt64) :
    SyncResult Nat × BoxedLog :=
  match log with
  | .memory log => (log.appendWithSequence record sequence).map id .memory
  | .file log => (log.appendWithSequence record sequence).map id .file

def restoreSnapshot [Sha256] (log : BoxedLog) (snapshot : ReplicationSnapshot) :
    SyncResult Unit × BoxedLog :=
  match log with
  | .memory log => (log.restoreSnapshot snapshot).map id .memory
  | .file log => (log.restoreSnapshot snapshot).map id .file

instance [Sha256] : ReplicationLog BoxedLog where
  append log record := log.appendWithSequence record 0
  appendWithSequence := appendWithSequence
  eventAtSequence log sequence := .ok (log.payloadAt sequence)
  eventsSince log index := eventsSinceOf log.events index
  lastIndex log := log.events.length
  len log := log.events.length
  isEmpty log := log.events.isEmpty
  createSnapshot log := .ok (snapshotFromRecords log.events)
  restoreSnapshot := restoreSnapshot

end BoxedLog

/-- The two checkpoint stores. -/
inductive BoxedCheckpoints where
  | memory (store : InMemorySyncCheckpointStore)
  | file (store : FileSyncCheckpointStore)

instance : SyncCheckpointStore BoxedCheckpoints where
  getCheckpoint store peerId :=
    match store with
    | .memory store => getCheckpoint store peerId
    | .file store => getCheckpoint store peerId
  setCheckpoint store peerId sequence hash :=
    match store with
    | .memory store => (setCheckpoint store peerId sequence hash).map id .memory
    | .file store => (setCheckpoint store peerId sequence hash).map id .file

/-! ## Interruptions -/

/-- Where an application stops: at an append, after so many others, or at `set_checkpoint`, with the
checkpoint moved all the same or not. -/
inductive Interruption where
  | append (before : Nat) (fault : FileReplicationLog.AppendFault)
  | checkpoint (moved : Bool)

/-- A log one of whose next appends stops. An append of a process-local log does no I/O. -/
structure InterruptedLog where
  log : BoxedLog
  stop : Option (Nat × FileReplicationLog.AppendFault)
  error : String

def InterruptedLog.appendWithSequence [Sha256] (interrupted : InterruptedLog) (record : Bytes)
    (sequence : UInt64) : SyncResult Nat × InterruptedLog :=
  match interrupted.stop, interrupted.log with
  | some (0, fault), .file log =>
    (log.appendFailing fault interrupted.error record sequence).map id
      fun log => { interrupted with log := .file log }
  | stop, log =>
    (log.appendWithSequence record sequence).map id
      fun log => { interrupted with log := log, stop := stop.map (Prod.map Nat.pred id) }

instance [Sha256] : ReplicationLog InterruptedLog where
  append interrupted record := interrupted.appendWithSequence record 0
  appendWithSequence := InterruptedLog.appendWithSequence
  eventAtSequence interrupted := ReplicationLog.eventAtSequence interrupted.log
  eventsSince interrupted := ReplicationLog.eventsSince interrupted.log
  lastIndex interrupted := ReplicationLog.lastIndex interrupted.log
  len interrupted := ReplicationLog.len interrupted.log
  isEmpty interrupted := ReplicationLog.isEmpty interrupted.log
  createSnapshot interrupted := ReplicationLog.createSnapshot interrupted.log
  restoreSnapshot interrupted snapshot :=
    (ReplicationLog.restoreSnapshot interrupted.log snapshot).map id
      fun log => { interrupted with log := log }

/-- A checkpoint store whose next change is reported as failed. -/
structure InterruptedCheckpoints where
  store : BoxedCheckpoints
  stop : Option Bool
  error : String

/-- `set_checkpoint`. -/
def InterruptedCheckpoints.set (interrupted : InterruptedCheckpoints) (peerId : String)
    (sequence : UInt64) (hash : String) : SyncResult Unit × InterruptedCheckpoints :=
  match setCheckpoint interrupted.store peerId sequence hash, interrupted.stop with
  | (.ok (), _), some false => (.error (.replicationFailed interrupted.error), interrupted)
  | (.ok (), store), some true =>
    (.error (.replicationFailed interrupted.error), { interrupted with store := store })
  | (result, store), _ => (result, { interrupted with store := store })

instance : SyncCheckpointStore InterruptedCheckpoints where
  getCheckpoint interrupted := getCheckpoint interrupted.store
  setCheckpoint := InterruptedCheckpoints.set

/-- A receiver over boxed stores. -/
abbrev BoxedReceiver := SyncReceiverState BoxedLog BoxedCheckpoints

namespace BoxedReceiver

/-- The receiver, about to be interrupted. -/
def interrupt (state : BoxedReceiver) (interruption : Interruption) (error : String) :
    SyncReceiverState InterruptedLog InterruptedCheckpoints :=
  match interruption with
  | .append before fault =>
    ⟨⟨state.replicationLog, some (before, fault), error⟩, ⟨state.checkpointStore, none, error⟩,
      state.processedBatches⟩
  | .checkpoint moved =>
    ⟨⟨state.replicationLog, none, error⟩, ⟨state.checkpointStore, some moved, error⟩,
      state.processedBatches⟩

def resume (state : SyncReceiverState InterruptedLog InterruptedCheckpoints) : BoxedReceiver :=
  ⟨state.replicationLog.log, state.checkpointStore.store, state.processedBatches⟩

end BoxedReceiver

end AppCore.Sync
