import AppCore.Api.Dispatch
import AppCore.Core.Journal
import AppCore.Core.RedactionAgain
import AppCore.PeerRpc.Validation

/-!
# The audit log

`AuditLog` of `audit.rs`. A command record is kept with its message redacted; the entry that goes
with it has the same message, which is redacted again, and once more where the entry is pushed.

* `sameMessage_iff` — when the record and the entry have one message.
-/

namespace AppCore.Audit

open AppCore.Api (AuditCategory AuditOutcome DebugText)
open AppCore.Core (CommandName EventEnvelope FileOperationalJournal JournalJson)
open AppCore.PeerRpc (TraceContext)
open AppCore.Redaction (redactString redactString_third redactString_again_iff CutInValue)

def maxAuditRecords : Nat := 10000

def maxOperationalTextBytes : Nat := 8192

def redactText (value : String) : String := redactString value maxOperationalTextBytes

structure AppId where
  asStr : String
  deriving DecidableEq, Repr

structure AuditRecord where
  commandId : String
  commandName : CommandName
  appId : AppId
  nodeId : NodeId
  timestampMs : UInt64
  outcome : AuditOutcome
  message : Option String
  trace : Option TraceContext

structure AuditEntry where
  category : AuditCategory
  operationId : String
  operationName : String
  appId : Option String
  nodeId : Option String
  startedAtMs : UInt64
  completedAtMs : UInt64
  latencyMs : UInt64
  outcome : AuditOutcome
  message : Option String
  trace : Option TraceContext

inductive OperationalJournalRecord where
  | audit (entry : AuditEntry)
  | event (event : EventEnvelope)

namespace AuditEntry

def new (category : AuditCategory) (operationId operationName : String)
    (startedAtMs completedAtMs : UInt64) (outcome : AuditOutcome) : AuditEntry where
  category
  operationId
  operationName
  appId := none
  nodeId := none
  startedAtMs
  completedAtMs
  latencyMs := saturatingSub completedAtMs startedAtMs
  outcome
  message := none
  trace := none

def withRuntimeScope (entry : AuditEntry) (appId : AppId) (nodeId : NodeId) : AuditEntry :=
  { entry with
    appId := some appId.asStr
    nodeId := some nodeId.asStr }

def withMessage (entry : AuditEntry) (message : Option String) : AuditEntry :=
  { entry with message := message.map redactText }

def withTrace (entry : AuditEntry) (trace : Option TraceContext) : AuditEntry :=
  { entry with trace }

end AuditEntry

/-- The loop that makes room for one more. -/
def popFull {α : Type} : List α → List α
  | [] => []
  | first :: rest =>
    if (first :: rest).length ≥ maxAuditRecords then popFull rest else first :: rest

structure AuditLog where
  records : List AuditRecord := []
  entries : List AuditEntry := []
  journal : Option (FileOperationalJournal OperationalJournalRecord) := none
  journalError : Option String := none

namespace AuditLog

variable [JournalJson OperationalJournalRecord] [Sha256] [DebugText]

/-- `push_entry`. The append to the journal has the given fault. -/
def pushEntry (log : AuditLog) (entry : AuditEntry) (fault : Option AppendFault) : AuditLog :=
  let entry := { entry with message := entry.message.map redactText }
  let appended : Option (Core.RuntimeResult Unit × FileOperationalJournal OperationalJournalRecord) :=
    log.journal.map fun journal => journal.append (.audit entry) fault
  { log with
    entries := popFull log.entries ++ [entry]
    journal := appended.map Prod.snd
    journalError := match appended with
      | some (.error error, _) => some (redactText (DebugText.ofRuntimeError error))
      | _ => log.journalError }

def push (log : AuditLog) (record : AuditRecord) (completedAtMs : UInt64)
    (fault : Option AppendFault) : AuditLog :=
  let record := { record with message := record.message.map redactText }
  let entry := (AuditEntry.new .command record.commandId record.commandName.asStr
    record.timestampMs completedAtMs record.outcome)
    |>.withRuntimeScope record.appId record.nodeId
    |>.withMessage record.message
    |>.withTrace record.trace
  pushEntry { log with records := popFull log.records ++ [record] } entry fault

variable (log : AuditLog) (record : AuditRecord) (completedAtMs : UInt64)
  (fault : Option AppendFault)

/-- The record and the entry that are pushed have one message, and the journal has that entry. -/
def SameMessage : Prop :=
  ∃ kept entry, (log.push record completedAtMs fault).records.getLast? = some kept ∧
    (log.push record completedAtMs fault).entries.getLast? = some entry ∧
    kept.message = entry.message ∧
    (log.push record completedAtMs fault).journal =
      log.journal.map fun journal => (journal.append (.audit entry) fault).2

theorem sameMessage_iff_redacted :
    log.SameMessage record completedAtMs fault ↔
      record.message.map redactText =
        ((record.message.map redactText).map redactText).map redactText := by
  constructor
  · rintro ⟨kept, entry, hkept, hentry, hsame, -⟩
    rw [push, pushEntry] at hkept hentry
    rw [List.getLast?_concat, Option.some.injEq] at hkept hentry
    rw [← hkept, ← hentry] at hsame
    exact hsame
  · intro h
    refine ⟨_, _, List.getLast?_concat, List.getLast?_concat, h, ?_⟩
    rw [push, pushEntry]
    exact Option.map_map _ _ _

/-- **When a message is one text** in the record and in the entry. -/
theorem sameMessage_iff :
    log.SameMessage record completedAtMs fault ↔
      ∀ message ∈ record.message, ¬ CutInValue message.toList maxOperationalTextBytes := by
  rw [sameMessage_iff_redacted]
  cases record.message with
  | none => simp
  | some message =>
    have hthird : redactText (redactText (redactText message)) = redactText (redactText message) :=
      redactString_third _ _
    simp only [Option.map_some, Option.some.injEq, Option.mem_def, forall_eq']
    rw [hthird, eq_comm]
    exact redactString_again_iff _ _

end AuditLog

end AppCore.Audit
