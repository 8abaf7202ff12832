import AppCore.Base.Lines
import AppCore.Base.Maps
import AppCore.Core.Idempotency

/-!
# The file of an idempotency store

`FileIdempotencyStore` of `idempotency.rs` with the bytes of its file. The file has a marker line
and then one line of JSON for each record, in the order they were inserted; removing a record or
compacting the store rewrites it. Opening the store reads the lines and keeps the resolved records.

Opening, locking and replacing the file succeeds; an append may fail after it wrote a part of its
line. The JSON text of a record is what a third-party crate writes and reads.
-/

namespace AppCore.Core

/-! ## Records as lines -/

/-- The JSON text of a record. -/
class RecordJson where
  toString : IdempotencyRecord → List Char
  fromStr : List Char → Option IdempotencyRecord

/-- A record is written as an object on one line, and read back. -/
structure RecordJson.Lawful [RecordJson] : Prop where
  object (record : IdempotencyRecord) : ∃ body, RecordJson.toString record = '{' :: (body ++ ['}'])
  line (record : IdempotencyRecord) : IsLine (RecordJson.toString record)
  lossless (record : IdempotencyRecord) :
    RecordJson.fromStr (RecordJson.toString record) = some record

def idempotencyFormatV1 : String := "# appcore-idempotency-v1"

def maxIdempotencyFileBytes : Nat := 64 * 1024 * 1024

def corruptIdempotency (message : String) : RuntimeError :=
  .idempotencyStoreIo "validate_store" message

/-- `matches!(record.status, IdempotencyStatus::Resolved { .. })`. -/
def IdempotencyRecord.isResolved (record : IdempotencyRecord) : Bool :=
  match record.status with
  | .resolved _ _ => true
  | .pending => false

/-! ## Reading -/

/-- `split_idempotency_format`: the text after the marker line. -/
def splitIdempotencyFormat (text : List Char) : RuntimeResult (List Char) :=
  match stripMarker idempotencyFormatV1.toList text with
  | some body => .ok body
  | none =>
    if text = idempotencyFormatV1.toList then .ok []
    else .error (corruptIdempotency "NO MORE SUPPORTED PLEASE UPDATE")

section

variable [RecordJson]

def parseIdempotencyRecord (line : List Char) : RuntimeResult IdempotencyRecord :=
  if line.head? ≠ some '{' then .error (corruptIdempotency "NO MORE SUPPORTED PLEASE UPDATE")
  else match RecordJson.fromStr line with
    | none => .error (corruptIdempotency "invalid JSON record")
    | some record => .ok record

/-- One line of `load_entries`. -/
def loadLine (seen : RecordMap) (line : List Char) : RuntimeResult RecordMap :=
  let trimmed := trim line
  if trimmed.isEmpty then .ok seen
  else match parseIdempotencyRecord trimmed with
    | .error e => .error e
    | .ok record =>
      match validateKey record.key with
      | .error e => .error e
      | .ok () => .ok (if record.isResolved then seen.insert record.key record else seen)

/-- `load_entries`, and whether the last line was cut short. -/
def loadEntries (file : Bytes) : RuntimeResult (RecordMap × Bool) :=
  if file.length > maxIdempotencyFileBytes then
    .error (corruptIdempotency "store exceeds size limit")
  else match fromUtf8 file with
    | none => .error (.idempotencyStoreIo "read_store" "stream did not contain valid UTF-8")
    | some text =>
      match splitIdempotencyFormat text with
      | .error e => .error e
      | .ok body =>
        match completeLinePrefix body with
        | (complete, recoveredTail) =>
          match (lines complete).foldlM loadLine (∅ : RecordMap) with
          | .error e => .error e
          | .ok seen => .ok (seen, recoveredTail)

def fileOf (records : List IdempotencyRecord) : Bytes :=
  utf8 (idempotencyFormatV1.toList ++ '\n' :: joinLines (records.map RecordJson.toString))

/-- `rewrite_entries`: the records in the order of their keys. -/
def rewriteEntries (entries : RecordMap) : Bytes := fileOf (entries.toList.map (·.2))

/-- The line `append_entry` writes. -/
def entryLine (record : IdempotencyRecord) : Bytes := utf8 (RecordJson.toString record ++ ['\n'])

end

/-! ## The store -/

/-- A `FileIdempotencyStore` with the bytes of its file. -/
structure FileStore where
  store : FileIdempotencyStore
  file : Bytes

namespace FileStore

variable [RecordJson]

/-- `new_with_ttl`, over what the disk holds at the path. -/
def newWithTtl (disk : Option Bytes) (ttlMs : Option UInt64) : RuntimeResult FileStore :=
  let file := disk.getD (rewriteEntries ∅)
  match loadEntries file with
  | .error e => .error e
  | .ok (seen, needsRewrite) =>
    .ok ⟨⟨if ttlMs = some 0 then none else ttlMs, seen⟩,
      if needsRewrite then rewriteEntries seen else file⟩

def insert (s : FileStore) (record : IdempotencyRecord) (fault : Option AppendFault) :
    RuntimeResult Unit × FileStore :=
  match validateKey record.key with
  | .error e => (.error e, s)
  | .ok () =>
    match fault with
    | some fault =>
      (.error (.idempotencyStoreIo "append_store_entry" fault.message),
        { s with file := s.file ++ tornPart (entryLine record) fault.written })
    | none =>
      (.ok (), ⟨{ s.store with seen := s.store.seen.insert record.key record },
        s.file ++ entryLine record⟩)

def remove (s : FileStore) (key : String) : RuntimeResult Unit × FileStore :=
  if s.store.seen.contains key then
    let seen := s.store.seen.erase key
    (.ok (), ⟨{ s.store with seen }, rewriteEntries seen⟩)
  else (.ok (), s)

/-- `compact`, and how many records it removed. -/
def compact (s : FileStore) (nowMs : UInt64) : RuntimeResult Nat × FileStore :=
  let seen := s.store.seen.filter fun _ record =>
    !isExpired record.createdAtMs s.store.ttlMs nowMs
  (.ok (s.store.seen.size - seen.size), ⟨{ s.store with seen }, rewriteEntries seen⟩)

end FileStore

/-- An operation on a store. -/
inductive StoreOp where
  | insert (record : IdempotencyRecord)
  | remove (key : String)
  | compact (nowMs : UInt64)

namespace FileStore

variable [RecordJson]

/-- An operation that meets no fault of the disk: the store after it, when it returns `Ok`. -/
def apply (s : FileStore) : StoreOp → RuntimeResult FileStore
  | .insert record =>
    match s.insert record none with
    | (.ok (), s) => .ok s
    | (.error e, _) => .error e
  | .remove key =>
    match s.remove key with
    | (.ok (), s) => .ok s
    | (.error e, _) => .error e
  | .compact nowMs =>
    match s.compact nowMs with
    | (.ok _, s) => .ok s
    | (.error e, _) => .error e

/-- Operations that all return `Ok`, on a new file. -/
def run (ttlMs : Option UInt64) (ops : List StoreOp) : RuntimeResult FileStore :=
  match newWithTtl none ttlMs with
  | .error e => .error e
  | .ok s => ops.foldlM apply s

/-- Inserts on a new file, some of which fail. -/
def runInserts (ttlMs : Option UInt64)
    (inserts : List (IdempotencyRecord × Option AppendFault)) : RuntimeResult FileStore :=
  match newWithTtl none ttlMs with
  | .error e => .error e
  | .ok s => .ok (inserts.foldl (fun s (record, fault) => (s.insert record fault).2) s)

end FileStore

end AppCore.Core
