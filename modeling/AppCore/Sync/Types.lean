import AppCore.Base.Sha256
import AppCore.Types.Ids

/-!
# Sync messages and errors

The data of `appcore-sync`: its errors, the hexadecimal codec shared by its file formats, and
the replication batch with its integrity hash (`error.rs`, `codec.rs`, `types.rs`).
-/

namespace AppCore.Sync

/-- `SyncError`, with the variants the replication path produces. -/
inductive SyncError where
  | transportFailed (reason : String)
  | tooManyEvents (count max : Nat)
  | invalidSequence (sequence : UInt64)
  | sequenceConflict (sequence : UInt64)
  | invalidSnapshot (reason : String)
  | invalidPeerId
  | logIndexOutOfBounds (index len : Nat)
  | invalidSyncMessage (reason : String)
  | invalidEventHex
  | corruptReplicationLog (line : Nat) (reason : String)
  | corruptOutbox (line : Nat)
  | replicationFailed (reason : String)
  deriving DecidableEq, Repr

abbrev SyncResult (α : Type) := Except SyncError α

def bytesToHex (bytes : Bytes) : String := String.ofList (lowerHex bytes)

/-- `hex_to_bytes`: the length is counted in bytes, before any digit is read. -/
def hexToBytes (value : List Char) : SyncResult Bytes :=
  if (utf8 value).length % 2 ≠ 0 then .error .invalidEventHex
  else match fromHexPairs (utf8 value) with
    | some bytes => .ok bytes
    | none => .error .invalidEventHex

@[simp] theorem toList_bytesToHex (bytes : Bytes) : (bytesToHex bytes).toList = lowerHex bytes := by
  simp [bytesToHex]

theorem hexToBytes_bytesToHex (bytes : Bytes) :
    hexToBytes (bytesToHex bytes).toList = .ok bytes := by
  have hlen : (utf8 (lowerHex bytes)).length = 2 * bytes.length := by
    rw [utf8_of_ascii (isAscii_lowerHex bytes)]
    simp
  simp [hexToBytes, hlen, fromHexPairs_utf8_lowerHex]

/-! ## Replication batches -/

/-- `SyncMessage`: a batch of events with consecutive sequences. -/
structure SyncMessage where
  batchId : String
  sourceNodeId : NodeId
  sequenceStart : UInt64
  sequenceEnd : UInt64
  eventCount : Nat
  eventsHash : String
  createdAtMs : UInt64
  previousBatchHash : Option String
  events : List Bytes
  deriving DecidableEq, Repr

/-- A byte string behind its length as a `u32`. -/
def writePrefixed (bytes : Bytes) : Bytes := lenBytes32 bytes.length ++ bytes

/-- The bytes `compute_events_hash` feeds to the digest. -/
def eventsHashInput (batchId : String) (sourceNodeId : NodeId)
    (sequenceStart sequenceEnd createdAtMs : UInt64) (previousBatchHash : Option String)
    (events : List Bytes) : Bytes :=
  writePrefixed (strBytes batchId) ++ writePrefixed (strBytes sourceNodeId.asStr) ++
    toBeBytes64 sequenceStart ++ toBeBytes64 sequenceEnd ++ toBeBytes64 createdAtMs ++
    (match previousBatchHash with
      | some prev => 1 :: writePrefixed (strBytes prev)
      | none => [0]) ++
    events.flatMap writePrefixed

/-- A digest in lowercase hexadecimal. -/
def hexDigest [Sha256] (input : Bytes) : String := String.ofList (lowerHex (digest input).toList)

def computeEventsHash [Sha256] (batchId : String) (sourceNodeId : NodeId)
    (sequenceStart sequenceEnd createdAtMs : UInt64) (previousBatchHash : Option String)
    (events : List Bytes) : String :=
  hexDigest (eventsHashInput batchId sourceNodeId sequenceStart sequenceEnd createdAtMs
    previousBatchHash events)

/-- `SyncMessage::new`: the count and the hash are computed from the other fields. -/
def SyncMessage.new [Sha256] (batchId : String) (sourceNodeId : NodeId)
    (sequenceStart sequenceEnd createdAtMs : UInt64) (previousBatchHash : Option String)
    (events : List Bytes) : SyncMessage where
  batchId := batchId
  sourceNodeId := sourceNodeId
  sequenceStart := sequenceStart
  sequenceEnd := sequenceEnd
  eventCount := events.length
  eventsHash := computeEventsHash batchId sourceNodeId sequenceStart sequenceEnd createdAtMs
    previousBatchHash events
  createdAtMs := createdAtMs
  previousBatchHash := previousBatchHash
  events := events

theorem toList_hexDigest [Sha256] (input : Bytes) :
    (hexDigest input).toList = lowerHex (digest input).toList := by
  simp [hexDigest]

theorem length_hexDigest [Sha256] (input : Bytes) : (hexDigest input).toList.length = 64 := by
  simp [toList_hexDigest]

theorem isHexDigit_of_mem_hexDigest [Sha256] {input : Bytes} {c : Char}
    (h : c ∈ (hexDigest input).toList) : isHexDigit c = true := by
  rw [toList_hexDigest] at h
  exact isHexDigit_of_mem_lowerHex h

end AppCore.Sync
