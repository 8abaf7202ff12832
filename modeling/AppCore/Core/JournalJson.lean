import AppCore.Core.Controller
import AppCore.Core.Journal
import AppCore.Core.IdempotencyJson
import AppCore.Sync.MessageJson

/-!
# Journal lines as JSON

The documents `serde_json` writes for the events of a journal, events without a trace, with a reader
for the envelopes around them.
-/

namespace AppCore.Core

open Json

def eventMembers (event : EventEnvelope) : List Token :=
  .punct '{' ::
    memberTokens "event_name" [.str event.eventName.toList] ',' (
    memberTokens "event_id" [.str event.eventId.toList] ',' (
    memberTokens "app_id" [.str event.appId.toList] ',' (
    memberTokens "node_id" [.str event.nodeId.toList] ',' (
    memberTokens "occurred_at_ms" [.num event.occurredAtMs.toNat] ',' (
    memberTokens "payload" (Sync.eventTokens event.payload) ',' (
    memberTokens "trace" [.null] '}' []))))))

/-- `OperationalJournalRecord::Event`, tagged with its type. -/
def eventRecordTokens (event : EventEnvelope) : List Token :=
  .punct '{' :: memberTokens "record_type" [.str "event".toList] ',' (
    memberTokens "record" (eventMembers event) '}' [])

/-! ## Reading them -/

def readNull : List Token → Option (Unit × List Token)
  | .null :: rest => some ((), rest)
  | _ => none

def readEventEnvelope (tokens : List Token) : Option (EventEnvelope × List Token) :=
  (expect '{' tokens).bind <|
    readMember "event_name" readStr ',' fun eventName =>
    readMember "event_id" readStr ',' fun eventId =>
    readMember "app_id" readStr ',' fun appId =>
    readMember "node_id" readStr ',' fun nodeId =>
    readMember "occurred_at_ms" readU64 ',' fun occurredAtMs =>
    readMember "payload" Sync.readEvent ',' fun payload =>
    readMember "trace" readNull '}' fun _ rest =>
      some (⟨eventName, eventId, appId, nodeId, occurredAtMs, payload⟩, rest)

def readEventRecord (tokens : List Token) : Option (EventEnvelope × List Token) :=
  (expect '{' tokens).bind <|
    readMember "record_type" readStr ',' fun recordType =>
    readMember "record" readEventEnvelope '}' fun event rest =>
      if recordType = "event" then some (event, rest) else none

def readEnvelope (tokens : List Token) : Option (JournalEnvelope EventEnvelope) :=
  (expect '{' tokens).bind <|
    readMember "sequence" readU64 ',' fun sequence =>
    readMember "previous_hash" readStr ',' fun previousHash =>
    readMember "hash" readStr ',' fun hash =>
    readMember "record" readEventRecord '}' fun event rest =>
      if rest = [] then some ⟨sequence, previousHash, hash, event⟩ else none

/-- The JSON of a journal of events. -/
@[reducible] def eventJson : JournalJson EventEnvelope where
  recordText event := (eventRecordTokens event).flatMap Token.text
  fromStr line := match (lexText line).bind readEnvelope with
    | some envelope => .ok envelope
    | none => .error "invalid envelope"

/-! ## The round trip -/

theorem separated_eventMembers (event : EventEnvelope) : Separated (eventMembers event) := by
  have hstr (t : List Char) : Separated [.str t] := trivial
  have hnum (n : Nat) : Separated [.num n] := ⟨by simp, trivial⟩
  have hcomma : isPunct ',' = true := by decide
  refine ⟨by decide, ?_⟩
  refine separated_memberTokens _ (hstr _) hcomma ?_
  refine separated_memberTokens _ (hstr _) hcomma ?_
  refine separated_memberTokens _ (hstr _) hcomma ?_
  refine separated_memberTokens _ (hstr _) hcomma ?_
  refine separated_memberTokens _ (hnum _) hcomma ?_
  refine separated_memberTokens _ (Sync.separated_event _) hcomma ?_
  exact separated_memberTokens _ (show Separated [.null] from trivial) (by decide) trivial

theorem separated_eventRecord (event : EventEnvelope) : Separated (eventRecordTokens event) := by
  refine ⟨by decide, ?_⟩
  refine separated_memberTokens _ (show Separated [.str _] from trivial) (by decide) ?_
  exact separated_memberTokens _ (separated_eventMembers event) (by decide) trivial

theorem readEventEnvelope_tokens (event : EventEnvelope) (rest : List Token) :
    readEventEnvelope (eventMembers event ++ rest) = some (event, rest) := by
  have htokens : eventMembers event ++ rest = .punct '{' ::
      memberTokens "event_name" [.str event.eventName.toList] ',' (
      memberTokens "event_id" [.str event.eventId.toList] ',' (
      memberTokens "app_id" [.str event.appId.toList] ',' (
      memberTokens "node_id" [.str event.nodeId.toList] ',' (
      memberTokens "occurred_at_ms" [.num event.occurredAtMs.toNat] ',' (
      memberTokens "payload" (Sync.eventTokens event.payload) ',' (
      memberTokens "trace" [.null] '}' rest)))))) := by
    simp [eventMembers, memberTokens]
  have hnull (rest : List Token) : readNull ([.null] ++ rest) = some ((), rest) := rfl
  rw [htokens, readEventEnvelope, expect_punct, Option.bind_some,
    readMember_memberTokens (readStr_str _), readMember_memberTokens (readStr_str _),
    readMember_memberTokens (readStr_str _), readMember_memberTokens (readStr_str _),
    readMember_memberTokens (readU64_num _),
    readMember_memberTokens (Sync.readEvent_tokens _), readMember_memberTokens hnull]

theorem readEventRecord_tokens (event : EventEnvelope) (rest : List Token) :
    readEventRecord (eventRecordTokens event ++ rest) = some (event, rest) := by
  have htokens : eventRecordTokens event ++ rest =
      .punct '{' :: memberTokens "record_type" [.str "event".toList] ',' (
        memberTokens "record" (eventMembers event) '}' rest) := by
    simp [eventRecordTokens, memberTokens]
  rw [htokens, readEventRecord, expect_punct, Option.bind_some,
    readMember_memberTokens (readStr_str _),
    readMember_memberTokens (readEventEnvelope_tokens event), if_pos rfl]

def envelopeTokens (envelope : JournalEnvelope EventEnvelope) : List Token :=
  .punct '{' ::
    memberTokens "sequence" [.num envelope.sequence.toNat] ',' (
    memberTokens "previous_hash" [.str envelope.previousHash.toList] ',' (
    memberTokens "hash" [.str envelope.hash.toList] ',' (
    memberTokens "record" (eventRecordTokens envelope.record) '}' [])))

theorem separated_envelope (envelope : JournalEnvelope EventEnvelope) :
    Separated (envelopeTokens envelope) := by
  have hcomma : isPunct ',' = true := by decide
  refine ⟨by decide, ?_⟩
  refine separated_memberTokens _ ⟨by simp, trivial⟩ hcomma ?_
  refine separated_memberTokens _ (show Separated [.str _] from trivial) hcomma ?_
  refine separated_memberTokens _ (show Separated [.str _] from trivial) hcomma ?_
  exact separated_memberTokens _ (separated_eventRecord _) (by decide) trivial

theorem readEnvelope_tokens (envelope : JournalEnvelope EventEnvelope) :
    readEnvelope (envelopeTokens envelope) = some envelope := by
  rw [envelopeTokens, readEnvelope, expect_punct, Option.bind_some,
    readMember_memberTokens (readU64_num _), readMember_memberTokens (readStr_str _),
    readMember_memberTokens (readStr_str _),
    readMember_memberTokens (readEventRecord_tokens _), if_pos rfl]

theorem eventJson_lawful : @JournalJson.Lawful EventEnvelope eventJson := by
  let _ := eventJson
  refine ⟨fun event => isLine_tokens (separated_eventRecord event), fun envelope => ?_⟩
  have htext : envelopeText envelope = (envelopeTokens envelope).flatMap Token.text := by
    simp [envelopeText, envelopeHead, envelopeTokens, memberTokens, Token.text]
    rfl
  change (match (lexText (envelopeText envelope)).bind readEnvelope with
    | some envelope => Except.ok envelope
    | none => .error "invalid envelope") = .ok envelope
  rw [htext, lexText_tokens (separated_envelope envelope), Option.bind_some, readEnvelope_tokens]

end AppCore.Core
