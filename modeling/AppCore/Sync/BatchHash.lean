import AppCore.Base.Delimited
import AppCore.Sync.Types

/-!
# What the hash of a batch binds

The digest of `compute_events_hash` is over the fields of a batch one after another. Every text and
every event stands behind its length as a `u32`, and the events are not counted, so they come last.

* `HashedBatch.input_injective` — batches whose texts and events are shorter than 4 GiB have the
  same input only if they are the same.
-/

namespace AppCore.Sync

/-- The arguments of `compute_events_hash`. -/
structure HashedBatch where
  batchId : String
  sourceNodeId : NodeId
  sequenceStart : UInt64
  sequenceEnd : UInt64
  createdAtMs : UInt64
  previousBatchHash : Option String
  events : List Bytes
  deriving DecidableEq

def HashedBatch.input (batch : HashedBatch) : Bytes :=
  eventsHashInput batch.batchId batch.sourceNodeId batch.sequenceStart batch.sequenceEnd
    batch.createdAtMs batch.previousBatchHash batch.events

/-- The length of a byte string fits into a `u32`. -/
def IsShort (bytes : Bytes) : Prop := bytes.length < 2 ^ 32

/-- Every text and every event is shorter than 4 GiB. -/
structure HashedBatch.Short (batch : HashedBatch) : Prop where
  batchId : IsShort (strBytes batch.batchId)
  sourceNodeId : IsShort (strBytes batch.sourceNodeId.asStr)
  previousBatchHash : ∀ hash ∈ batch.previousBatchHash, IsShort (strBytes hash)
  events : ∀ event ∈ batch.events, IsShort event

theorem delimited_writePrefixed : Delimited IsShort writePrefixed := delimited_lengthed 4

theorem delimited_prefixedText :
    Delimited (fun text : String => IsShort (strBytes text)) fun text =>
      writePrefixed (strBytes text) :=
  delimited_writePrefixed.comp strBytes_injective

theorem writePrefixed_ne_nil (bytes : Bytes) : writePrefixed bytes ≠ [] := by
  intro h
  have hlength := congrArg List.length h
  simp [writePrefixed, lenBytes32] at hlength

theorem HashedBatch.input_eq (batch : HashedBatch) :
    batch.input = writePrefixed (strBytes batch.batchId) ++
      (writePrefixed (strBytes batch.sourceNodeId.asStr) ++ (toBeBytes64 batch.sequenceStart ++
        (toBeBytes64 batch.sequenceEnd ++ (toBeBytes64 batch.createdAtMs ++
          (optionalBytes (fun hash => writePrefixed (strBytes hash)) batch.previousBatchHash ++
            batch.events.flatMap writePrefixed))))) := by
  unfold HashedBatch.input eventsHashInput
  cases batch.previousBatchHash with
  | none => simp only [optionalBytes, List.append_assoc]
  | some hash => simp only [optionalBytes, List.append_assoc]

/-- **The hash binds the whole batch**: what is hashed determines every field and every event. -/
theorem HashedBatch.input_injective {a b : HashedBatch} (ha : a.Short) (hb : b.Short)
    (h : a.input = b.input) : a = b := by
  rw [input_eq, input_eq] at h
  obtain ⟨batchId, ⟨sourceNodeId⟩, sequenceStart, sequenceEnd, createdAtMs, previousBatchHash,
    events⟩ := a
  obtain ⟨batchId', ⟨sourceNodeId'⟩, sequenceStart', sequenceEnd', createdAtMs', previousBatchHash',
    events'⟩ := b
  obtain ⟨rfl, hsource⟩ := delimited_prefixedText ha.batchId hb.batchId _ _ h
  obtain ⟨rfl, hstart⟩ := delimited_prefixedText ha.sourceNodeId hb.sourceNodeId _ _ hsource
  obtain ⟨rfl, hend⟩ := delimited_toBeBytes64 trivial trivial _ _ hstart
  obtain ⟨rfl, hcreated⟩ := delimited_toBeBytes64 trivial trivial _ _ hend
  obtain ⟨rfl, hprevious⟩ := delimited_toBeBytes64 trivial trivial _ _ hcreated
  obtain ⟨rfl, hevents⟩ := delimited_optionalBytes delimited_prefixedText
    ha.previousBatchHash hb.previousBatchHash _ _ hprevious
  obtain rfl := delimited_writePrefixed.flatMap_injective writePrefixed_ne_nil ha.events hb.events
    hevents
  rfl

/-- Two events, and the same bytes in one. -/
def splitBatch (events : List Bytes) : HashedBatch :=
  ⟨"batch-1", ⟨"leader-a"⟩, 1, 2, 0, none, events⟩

theorem short_splitBatch {events : List Bytes} (h : ∀ event ∈ events, IsShort event) :
    (splitBatch events).Short where
  batchId := show (strBytes "batch-1").length < 2 ^ 32 by decide
  sourceNodeId := show (strBytes "leader-a").length < 2 ^ 32 by decide
  previousBatchHash := by simp [splitBatch]
  events := h

/-- A batch with two events is not hashed as one with their bytes in a single event. -/
theorem HashedBatch.input_split_ne :
    splitBatch ([[1]] ++ [[2]]) = splitBatch [[1], [2]] ∧
      (splitBatch [[1], [2]]).input ≠ (splitBatch [[1, 2]]).input := by
  constructor
  · exact input_injective (short_splitBatch (by simp [IsShort]))
      (short_splitBatch (by simp [IsShort])) rfl
  · intro h
    have heq := input_injective (short_splitBatch (by simp [IsShort]))
      (short_splitBatch (by simp [IsShort])) h
    exact absurd heq (by decide)

end AppCore.Sync
