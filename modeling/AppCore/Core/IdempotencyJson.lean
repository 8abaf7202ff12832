import AppCore.Base.Json
import AppCore.Core.IdempotencyFile

/-!
# Idempotency records as JSON

A line of the store is a record as `serde_json::to_string` writes it. This is that document with a
reader for it, and the round trip.
-/

namespace AppCore.Core

open Json

/-- A status: a name, or a name with its fields. -/
def statusTokens : IdempotencyStatus → List Token
  | .pending => [.str "Pending".toList]
  | .resolved responseStatus responseBody =>
    .punct '{' :: memberTokens "Resolved" (.punct '{' ::
      memberTokens "response_status" [.num responseStatus.toNat] ',' (
      memberTokens "response_body" [.str responseBody.toList] '}' [])) '}' []

/-- The members of a record after the brace that opens it, without the one that closes it. -/
def recordMembers (record : IdempotencyRecord) : List Token :=
  memberTokens "key" [.str record.key.toList] ',' (
  memberTokens "request_hash" [.str record.requestHash.toList] ',' (
  memberTokens "status" (statusTokens record.status) ',' (
  [.str "created_at_ms".toList, .punct ':', .num record.createdAtMs.toNat])))

/-- The tokens of a record: its members in the order of the fields. -/
def recordTokens (record : IdempotencyRecord) : List Token :=
  .punct '{' :: (recordMembers record ++ [.punct '}'])

/-- The document `serde_json::to_string` writes. -/
def recordText (record : IdempotencyRecord) : List Char := (recordTokens record).flatMap Token.text

/-! ## Reading it -/

/-- A status code. -/
def readU16 (tokens : List Token) : Option (UInt16 × List Token) :=
  (readBelow (2 ^ 16) tokens).map fun (n, rest) => (UInt16.ofNat n, rest)

def readU64 (tokens : List Token) : Option (UInt64 × List Token) :=
  (readBelow (2 ^ 64) tokens).map fun (n, rest) => (UInt64.ofNat n, rest)

/-- The fields of a resolved status. -/
def readResolved (tokens : List Token) : Option (IdempotencyStatus × List Token) :=
  (expect '{' tokens).bind <|
    readMember "response_status" readU16 ',' fun responseStatus =>
    readMember "response_body" readStr '}' fun responseBody rest =>
      some (.resolved responseStatus responseBody, rest)

def readStatus : List Token → Option (IdempotencyStatus × List Token)
  | .str name :: rest => if name = "Pending".toList then some (.pending, rest) else none
  | .punct '{' :: rest => readMember "Resolved" readResolved '}' (fun status rest =>
    some (status, rest)) rest
  | _ => none

def readRecord (tokens : List Token) : Option IdempotencyRecord :=
  (expect '{' tokens).bind <|
    readMember "key" readStr ',' fun key =>
    readMember "request_hash" readStr ',' fun requestHash =>
    readMember "status" readStatus ',' fun status =>
    readMember "created_at_ms" readU64 '}' fun createdAtMs rest =>
      if rest = [] then some ⟨key, requestHash, status, createdAtMs⟩ else none

/-- The JSON of records. -/
@[reducible] def recordJson : RecordJson where
  toString := recordText
  fromStr text := (lexText text).bind readRecord

/-! ## The round trip -/

theorem separated_status (status : IdempotencyStatus) : Separated (statusTokens status) := by
  cases status with
  | pending => exact trivial
  | resolved responseStatus responseBody =>
    refine ⟨by decide, separated_memberTokens _ ⟨by decide, ?_⟩ (by decide) trivial⟩
    refine separated_memberTokens _ ⟨by simp, trivial⟩ (by decide) ?_
    exact separated_memberTokens _ (show Separated [.str _] from trivial) (by decide) trivial

theorem recordTokens_eq (record : IdempotencyRecord) : recordTokens record = .punct '{' ::
    memberTokens "key" [.str record.key.toList] ',' (
    memberTokens "request_hash" [.str record.requestHash.toList] ',' (
    memberTokens "status" (statusTokens record.status) ',' (
    memberTokens "created_at_ms" [.num record.createdAtMs.toNat] '}' []))) := by
  simp [recordTokens, recordMembers, memberTokens]

theorem separated_record (record : IdempotencyRecord) : Separated (recordTokens record) := by
  have hstr (t : List Char) : Separated [.str t] := trivial
  have hnum (n : Nat) : Separated [.num n] := ⟨by simp, trivial⟩
  have hcomma : isPunct ',' = true := by decide
  rw [recordTokens_eq]
  refine ⟨by decide, ?_⟩
  refine separated_memberTokens _ (hstr _) hcomma ?_
  refine separated_memberTokens _ (hstr _) hcomma ?_
  refine separated_memberTokens _ (separated_status _) hcomma ?_
  exact separated_memberTokens _ (hnum _) (by decide) trivial

theorem readU16_num (n : UInt16) (rest : List Token) :
    readU16 ([.num n.toNat] ++ rest) = some (n, rest) := by
  simp [readU16, readBelow_num n.toNat_lt]

theorem readU64_num (n : UInt64) (rest : List Token) :
    readU64 ([.num n.toNat] ++ rest) = some (n, rest) := by
  simp [readU64, readBelow_num n.toNat_lt]

theorem readStatus_tokens (status : IdempotencyStatus) (rest : List Token) :
    readStatus (statusTokens status ++ rest) = some (status, rest) := by
  have hresolved (responseStatus : UInt16) (responseBody : String) (rest : List Token) :
      readResolved ((.punct '{' :: memberTokens "response_status" [.num responseStatus.toNat] ',' (
        memberTokens "response_body" [.str responseBody.toList] '}' [])) ++ rest) =
          some (.resolved responseStatus responseBody, rest) := by
    have htokens : (.punct '{' :: memberTokens "response_status" [.num responseStatus.toNat] ',' (
        memberTokens "response_body" [.str responseBody.toList] '}' [])) ++ rest =
          .punct '{' :: memberTokens "response_status" [.num responseStatus.toNat] ',' (
            memberTokens "response_body" [.str responseBody.toList] '}' rest) := by
      simp [memberTokens]
    rw [htokens, readResolved, expect_punct, Option.bind_some,
      readMember_memberTokens (readU16_num _), readMember_memberTokens (readStr_str _)]
  cases status with
  | pending => simp [statusTokens, readStatus]
  | resolved responseStatus responseBody =>
    have htokens : statusTokens (.resolved responseStatus responseBody) ++ rest =
        .punct '{' :: memberTokens "Resolved" (.punct '{' ::
          memberTokens "response_status" [.num responseStatus.toNat] ',' (
          memberTokens "response_body" [.str responseBody.toList] '}' [])) '}' rest := by
      simp [statusTokens, memberTokens]
    rw [htokens, readStatus, readMember_memberTokens (hresolved _ _)]

theorem readRecord_tokens (record : IdempotencyRecord) :
    readRecord (recordTokens record) = some record := by
  rw [recordTokens_eq, readRecord, expect_punct, Option.bind_some,
    readMember_memberTokens (readStr_str _), readMember_memberTokens (readStr_str _),
    readMember_memberTokens (readStatus_tokens _), readMember_memberTokens (readU64_num _),
    if_pos rfl]

theorem recordJson_lawful : @RecordJson.Lawful recordJson := by
  let _ := recordJson
  refine ⟨fun record => ⟨(recordMembers record).flatMap Token.text, ?_⟩, fun record => ?_,
    fun record => ?_⟩
  · change recordText record = _
    rw [recordText, recordTokens, List.flatMap_cons, List.flatMap_append]
    rfl
  · exact isLine_tokens (separated_record record)
  · change (lexText (recordText record)).bind readRecord = some record
    rw [recordText, lexText_tokens (separated_record record), Option.bind_some, readRecord_tokens]

end AppCore.Core
