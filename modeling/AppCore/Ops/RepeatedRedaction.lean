import AppCore.Api.AuditLog
import AppCore.Ops.ObservationEvents

/-!
# Texts that are redacted more than once

The audit log redacts a message three times on its way to an entry, and the sinks of observations
redact an event once each. They record one text unless it is cut off in the value of a marker that
is shown: the sign `[TRUNCATED]` stands there for the value, and the next redaction hides it.
-/

namespace AppCore.Ops

open AppCore.Audit (AuditLog AuditRecord OperationalJournalRecord maxOperationalTextBytes)
open AppCore.Core (JournalJson)
open AppCore.Observations (ObservationEvent OneText Sink oneText_iff)
open AppCore.Redaction (CutInValue Stable cutInValue_behind_marker stable_iff)

/-- **Redaction is bounded, slices no character, and is stable** for the texts that are not cut off in
a value; and for these the audit log and the sinks record one text. -/
theorem redaction_repeats_iff [JournalJson OperationalJournalRecord] [Sha256] [Api.DebugText] :
    (∀ text maxBytes, Stable text maxBytes ↔ ¬ CutInValue text maxBytes) ∧
      (∀ (log : AuditLog) (record : AuditRecord) (completedAtMs : UInt64)
        (fault : Option AppendFault), log.SameMessage record completedAtMs fault ↔
          ∀ message ∈ record.message, ¬ CutInValue message.toList maxOperationalTextBytes) ∧
      ∀ (capacity : Nat) (events : List ObservationEvent) (drains : List Sink)
        (event : ObservationEvent), OneText (.memory capacity events drains) event ↔
          ¬ ((∃ drain ∈ drains, drain.Takes) ∧ event.CutInValue) :=
  ⟨stable_iff, fun log record completedAtMs fault => log.sameMessage_iff record completedAtMs fault,
    oneText_iff⟩

/-- Cut off behind `token=`, a text ends with `token=[TRUNCATED]` first, and with `token=[REDACTED]`
when it is redacted again. -/
theorem redacted_sign : ¬ ∀ text maxBytes, Stable text maxBytes := by
  intro h
  exact (stable_iff _ _).1 (h "token= 0123456789ab".toList 17) cutInValue_behind_marker

end AppCore.Ops
