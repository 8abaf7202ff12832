import AppCore.Base.Codec
import AppCore.Base.Json
import AppCore.Sync.Types

/-!
# Batches as JSON

The durable outbox stores each batch as `serde_json::to_vec` writes it. `MessageJson` is what the
outbox relies on: the round trip, and that a batch is written as an object. `messageJson` is that
document with a reader for it.
-/

namespace AppCore.Sync

open Json

/-- A serializer of batches that writes each as a JSON object. -/
class MessageJson extends Codec SyncMessage where
  encode_object (message : SyncMessage) : ∃ rest, encode message = 0x7b :: rest

/-! ## The document -/

/-- One event, an array of bytes. -/
def eventTokens (event : Bytes) : List Token :=
  .punct '[' :: (commas (.punct ',') (fun b => [.num b.toNat]) event ++ [.punct ']'])

/-- The hash of the batch before, if there is one. -/
def previousTokens : Option String → List Token
  | none => [.null]
  | some hash => [.str hash.toList]

/-- The events, an array of arrays. -/
def eventsTokens (events : List Bytes) : List Token :=
  .punct '[' :: (commas (.punct ',') eventTokens events ++ [.punct ']'])

/-- The tokens of a batch: its members in the order of the fields. -/
def messageTokens (message : SyncMessage) : List Token :=
  .punct '{' ::
    memberTokens "batch_id" [.str message.batchId.toList] ',' (
    memberTokens "source_node_id" [.str message.sourceNodeId.asStr.toList] ',' (
    memberTokens "sequence_start" [.num message.sequenceStart.toNat] ',' (
    memberTokens "sequence_end" [.num message.sequenceEnd.toNat] ',' (
    memberTokens "event_count" [.num message.eventCount] ',' (
    memberTokens "events_hash" [.str message.eventsHash.toList] ',' (
    memberTokens "created_at_ms" [.num message.createdAtMs.toNat] ',' (
    memberTokens "previous_batch_hash" (previousTokens message.previousBatchHash) ',' (
    memberTokens "events" (eventsTokens message.events) '}' []))))))))

/-- The document `serde_json::to_vec` writes. -/
def messageText (message : SyncMessage) : List Char := (messageTokens message).flatMap Token.text

/-! ## Reading it -/

/-- A 64-bit number. -/
def readU64 (tokens : List Token) : Option (UInt64 × List Token) :=
  (readBelow (2 ^ 64) tokens).map fun (n, rest) => (UInt64.ofNat n, rest)

/-- A number without a bound. -/
def readNat : List Token → Option (Nat × List Token)
  | .num n :: rest => some (n, rest)
  | _ => none

def readByte (tokens : List Token) : Option (UInt8 × List Token) :=
  (readBelow 256 tokens).map fun (n, rest) => (UInt8.ofNat n, rest)

def readEvent (tokens : List Token) : Option (Bytes × List Token) :=
  (expect '[' tokens).bind (readItems readByte)

def readEvents (tokens : List Token) : Option (List Bytes × List Token) :=
  (expect '[' tokens).bind (readItems readEvent)

/-- The members of a batch, in their order. -/
def readMessage (tokens : List Token) : Option SyncMessage :=
  (expect '{' tokens).bind <|
    readMember "batch_id" readStr ',' fun batchId =>
    readMember "source_node_id" readStr ',' fun sourceNodeId =>
    readMember "sequence_start" readU64 ',' fun sequenceStart =>
    readMember "sequence_end" readU64 ',' fun sequenceEnd =>
    readMember "event_count" readNat ',' fun eventCount =>
    readMember "events_hash" readStr ',' fun eventsHash =>
    readMember "created_at_ms" readU64 ',' fun createdAtMs =>
    readMember "previous_batch_hash" (readNullable readStr) ',' fun previousBatchHash =>
    readMember "events" readEvents '}' fun events rest =>
      if rest = [] then
        some ⟨batchId, ⟨sourceNodeId⟩, sequenceStart, sequenceEnd, eventCount, eventsHash,
          createdAtMs, previousBatchHash, events⟩
      else none

/-! ## The round trip -/

theorem separated_brackets {α : Type} {tokens : α → List Token} (h : ∀ x, Separated (tokens x))
    (xs : List α) :
    Separated (.punct '[' :: (commas (.punct ',') tokens xs ++ [.punct ']'])) :=
  ⟨by decide, separated_append_punct (separated_commas h xs) (by decide) trivial⟩

theorem separated_event (event : Bytes) : Separated (eventTokens event) := by
  have hbyte (b : UInt8) : Separated [.num b.toNat] := ⟨by simp, trivial⟩
  exact separated_brackets hbyte event

theorem separated_previous (previous : Option String) : Separated (previousTokens previous) := by
  cases previous <;> exact trivial

theorem separated_message (message : SyncMessage) : Separated (messageTokens message) := by
  have hstr (t : List Char) : Separated [.str t] := trivial
  have hnum (n : Nat) : Separated [.num n] := ⟨by simp, trivial⟩
  have hcomma : isPunct ',' = true := by decide
  refine ⟨by decide, ?_⟩
  refine separated_memberTokens _ (hstr _) hcomma ?_
  refine separated_memberTokens _ (hstr _) hcomma ?_
  refine separated_memberTokens _ (hnum _) hcomma ?_
  refine separated_memberTokens _ (hnum _) hcomma ?_
  refine separated_memberTokens _ (hnum _) hcomma ?_
  refine separated_memberTokens _ (hstr _) hcomma ?_
  refine separated_memberTokens _ (hnum _) hcomma ?_
  refine separated_memberTokens _ (separated_previous _) hcomma ?_
  exact separated_memberTokens _ (separated_brackets separated_event _) (by decide) trivial

theorem readByte_num (b : UInt8) (rest : List Token) :
    readByte ([.num b.toNat] ++ rest) = some (b, rest) := by
  have hb : b.toNat < 256 := b.toNat_lt
  simp [readByte, readBelow_num hb]

theorem readU64_num (n : UInt64) (rest : List Token) :
    readU64 (.num n.toNat :: rest) = some (n, rest) := by
  simp [readU64, readBelow_num n.toNat_lt]

theorem readNat_num (n : Nat) (rest : List Token) : readNat (.num n :: rest) = some (n, rest) := rfl

theorem readEvent_tokens (event : Bytes) (rest : List Token) :
    readEvent (eventTokens event ++ rest) = some (event, rest) := by
  have hitems := readItems_commas readByte_num (fun b => ⟨_, _, rfl, by simp⟩) event rest
  simpa [readEvent, eventTokens] using hitems

theorem readNullable_previous (previous : Option String) (rest : List Token) :
    readNullable readStr (previousTokens previous ++ rest) = some (previous, rest) := by
  cases previous with
  | none => rfl
  | some hash => simp [previousTokens, readNullable]

theorem readEvents_tokens (events : List Bytes) (rest : List Token) :
    readEvents (eventsTokens events ++ rest) = some (events, rest) := by
  have hitems := readItems_commas readEvent_tokens (fun event => ⟨_, _, rfl, by simp⟩) events rest
  simpa [readEvents, eventsTokens] using hitems

theorem readMessage_tokens (message : SyncMessage) :
    readMessage (messageTokens message) = some message := by
  rw [readMessage, messageTokens, expect_punct, Option.bind_some,
    readMember_memberTokens (readStr_str _), readMember_memberTokens (readStr_str _),
    readMember_memberTokens (readU64_num _), readMember_memberTokens (readU64_num _),
    readMember_memberTokens (readNat_num _), readMember_memberTokens (readStr_str _),
    readMember_memberTokens (readU64_num _), readMember_memberTokens (readNullable_previous _),
    readMember_memberTokens (readEvents_tokens _), if_pos rfl]

/-- **Batches as `serde_json` writes them**, and read back. -/
@[reducible] def messageJson : MessageJson where
  encode message := utf8 (messageText message)
  decode bytes := (fromUtf8 bytes).bind fun text => (lexText text).bind readMessage
  decode_encode message := by
    rw [fromUtf8_utf8, Option.bind_some, messageText,
      lexText_tokens (separated_message message), Option.bind_some, readMessage_tokens]
  encode_object _ := ⟨_, rfl⟩

end AppCore.Sync
