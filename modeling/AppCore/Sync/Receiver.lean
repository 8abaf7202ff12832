import AppCore.Sync.Log
import AppCore.Sync.Checkpoint

/-!
# The replication receiver

`receiver.rs`: one receiver applies batches from any number of source nodes to one replication
log and keeps a checkpoint per source. A call has two halves. `checkSyncMessage` validates the
message and reads the source's checkpoint without holding the log; `commitSyncMessage` appends
the events under the log's lock and then moves the checkpoint, using the sequence the first
half read. `applySyncMessage` is one after the other.
-/

namespace AppCore.Sync

def defaultMaxEvents : Nat := 10000

/-- The bound on remembered batch ids. -/
def maxProcessedBatches : Nat := 10000

structure ProcessedBatches where
  set : Finset String
  queue : List String

/-- `SyncReceiverState` over a log and a checkpoint store. -/
structure SyncReceiverState (L C : Type) where
  replicationLog : L
  checkpointStore : C
  processedBatches : ProcessedBatches

structure SyncReceiveAck where
  accepted : Bool
  received : Nat
  skipped : Nat
  lastSequence : UInt64
  deriving DecidableEq, Repr

/-- The first error of `validate_record_size` over the events. -/
def validateRecordSizes : List Bytes → SyncResult Unit
  | [] => .ok ()
  | event :: rest =>
    match validateRecordSize event with
    | .error e => .error e
    | .ok () => validateRecordSizes rest

def validateMessage [Sha256] (processed : ProcessedBatches) (message : SyncMessage) :
    SyncResult Unit :=
  if message.sequenceStart = 0 then .error (.invalidSequence message.sequenceStart)
  else if message.events.isEmpty ∨ message.eventCount = 0 then
    .error (.invalidSyncMessage "empty batch events")
  else if message.eventCount ≠ message.events.length then
    .error (.invalidSyncMessage "event count mismatch")
  else if message.events.length > defaultMaxEvents then
    .error (.tooManyEvents message.events.length defaultMaxEvents)
  else match validateRecordSizes message.events with
    | .error e => .error e
    | .ok () =>
      if message.sequenceStart > message.sequenceEnd then
        .error (.invalidSyncMessage "invalid sequence range")
      else if 2 ^ 64 ≤ message.eventCount then
        .error (.invalidSyncMessage "event count exceeds sequence range")
      else match checkedAdd message.sequenceStart (UInt64.ofNat (message.eventCount - 1)) with
        | none => .error (.invalidSyncMessage "sequence range overflow")
        | some expectedEnd =>
          if message.sequenceEnd ≠ expectedEnd then
            .error (.invalidSyncMessage "inconsistent sequence range")
          else if computeEventsHash message.batchId message.sourceNodeId message.sequenceStart
              message.sequenceEnd message.createdAtMs message.previousBatchHash message.events ≠
              message.eventsHash then
            .error (.invalidSyncMessage "invalid events hash")
          else if message.batchId ∈ processed.set then
            .error (.invalidSyncMessage "duplicate batch_id")
          else .ok ()

section

variable {L C : Type} [ReplicationLog L] [SyncCheckpointStore C]

/-- The hash chain test: a batch that continues right after the checkpoint names its hash. -/
def checkPreviousHash (store : C) (message : SyncMessage) (lastSequence nextSequence : UInt64) :
    SyncResult Unit :=
  if lastSequence > 0 ∧ message.sequenceStart = nextSequence then
    match getCheckpoint store message.sourceNodeId.asStr with
    | .error e => .error e
    | .ok none => .ok ()
    | .ok (some (_, lastHash)) =>
      if lastHash ≠ "" ∧ message.previousBatchHash.getD "" ≠ lastHash then
        .error (.invalidSyncMessage "previous batch hash mismatch")
      else .ok ()
  else .ok ()

/-- The first half of `apply_sync_message`: an acknowledgement for a range that is already
covered, or the checkpoint sequence to append after. -/
def checkSyncMessage [Sha256] (state : SyncReceiverState L C) (message : SyncMessage) :
    SyncResult (SyncReceiveAck ⊕ UInt64) :=
  match validateMessage state.processedBatches message with
  | .error e => .error e
  | .ok () =>
    match getLastSequence state.checkpointStore message.sourceNodeId.asStr with
    | .error e => .error e
    | .ok lastSequence =>
      -- skip completely duplicate old sequence ranges
      if message.sequenceEnd ≤ lastSequence then
        .ok (.inl ⟨true, 0, message.events.length, lastSequence⟩)
      else match checkedAdd lastSequence 1 with
        | none => .error (.invalidSyncMessage "checkpoint sequence is exhausted")
        | some nextSequence =>
          if message.sequenceStart > nextSequence then
            .error (.invalidSequence message.sequenceStart)
          else match checkPreviousHash state.checkpointStore message lastSequence nextSequence with
            | .error e => .error e
            | .ok () => .ok (.inr lastSequence)

/-- The loop of `append_events_to_log`, from the event at `index` on. An error leaves the
appends made so far in the log. -/
def appendEventsFrom (sequenceStart lastSequence : UInt64) :
    L → Nat → List Bytes → Nat → Nat → SyncResult (Nat × Nat) × L
  | log, _, [], received, skipped => (.ok (received, skipped), log)
  | log, index, event :: rest, received, skipped =>
    if 2 ^ 64 ≤ index then
      (.error (.invalidSyncMessage "event index exceeds sequence range"), log)
    else match checkedAdd sequenceStart (UInt64.ofNat index) with
      | none => (.error (.invalidSyncMessage "sequence range overflow"), log)
      | some seq =>
        match ReplicationLog.eventAtSequence log seq with
        | .error e => (.error e, log)
        | .ok (some existing) =>
          if existing = event then
            appendEventsFrom sequenceStart lastSequence log (index + 1) rest received
              (skipped + 1)
          else (.error (.sequenceConflict seq), log)
        | .ok none =>
          if seq ≤ lastSequence then (.error (.invalidSequence seq), log)
          else match ReplicationLog.appendWithSequence log event seq with
            | (.error e, log) => (.error e, log)
            | (.ok _, log) =>
              appendEventsFrom sequenceStart lastSequence log (index + 1) rest
                (received + 1) skipped

def appendEventsToLog (state : SyncReceiverState L C) (message : SyncMessage)
    (lastSequence : UInt64) : SyncResult (Nat × Nat) × SyncReceiverState L C :=
  match appendEventsFrom message.sequenceStart lastSequence state.replicationLog 0
      message.events 0 0 with
  | (.error e, log) => (.error e, { state with replicationLog := log })
  | (.ok counts, log) =>
    match setCheckpoint state.checkpointStore message.sourceNodeId.asStr message.sequenceEnd
        message.eventsHash with
    | (.error e, store) =>
      (.error e, { state with replicationLog := log, checkpointStore := store })
    | (.ok (), store) =>
      (.ok counts, { state with replicationLog := log, checkpointStore := store })

def recordProcessedBatch (processed : ProcessedBatches) (batchId : String) : ProcessedBatches :=
  let set := insert batchId processed.set
  let queue := processed.queue ++ [batchId]
  if set.card > maxProcessedBatches then
    match queue with
    | [] => ⟨set, queue⟩
    | oldest :: rest => ⟨set.erase oldest, rest⟩
  else ⟨set, queue⟩

/-- The second half of `apply_sync_message`. -/
def commitSyncMessage (state : SyncReceiverState L C) (message : SyncMessage)
    (lastSequence : UInt64) : SyncResult SyncReceiveAck × SyncReceiverState L C :=
  match appendEventsToLog state message lastSequence with
  | (.error e, state) => (.error e, state)
  | (.ok (received, skipped), state) =>
    (.ok ⟨true, received, skipped, message.sequenceEnd⟩,
      { state with
        processedBatches := recordProcessedBatch state.processedBatches message.batchId })

def applySyncMessage [Sha256] (state : SyncReceiverState L C) (message : SyncMessage) :
    SyncResult SyncReceiveAck × SyncReceiverState L C :=
  match checkSyncMessage state message with
  | .error e => (.error e, state)
  | .ok (.inl ack) => (.ok ack, state)
  | .ok (.inr lastSequence) => commitSyncMessage state message lastSequence

/-- The states reached by applying messages one after another. -/
def applySyncMessages [Sha256] (state : SyncReceiverState L C) (messages : List SyncMessage) :
    SyncReceiverState L C :=
  messages.foldl (fun state message => (applySyncMessage state message).2) state

end

/-- A receiver over process-local stores. -/
abbrev MemoryReceiver := SyncReceiverState InMemoryReplicationLog InMemorySyncCheckpointStore

/-- `SyncReceiverState::new` over an empty log and an empty checkpoint store. -/
def MemoryReceiver.empty : MemoryReceiver :=
  ⟨InMemoryReplicationLog.new, InMemorySyncCheckpointStore.new, ⟨∅, []⟩⟩

end AppCore.Sync
