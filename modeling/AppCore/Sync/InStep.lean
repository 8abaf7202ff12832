import AppCore.Sync.FailingAppend

/-!
# Logs that are in step with their file

A file-backed log shows what it has loaded. Other processes may append to the file, and an append
that failed may have written its line. In all its states the log shows no record that its file would
not be loaded with (`Reached.inStep`).
-/

namespace AppCore.Sync

namespace FileReplicationLog

/-! ## What a file holds -/

/-- Whatever is loaded from the file begins with the records. -/
def FileHolds [Sha256] (file : Bytes) (records : List ReplicationRecord) : Prop :=
  ∀ log loaded : FileReplicationLog, log.file = file → log.reload = (.ok (), loaded) →
    records <+: loaded.events

theorem FileHolds.shorter [Sha256] {file : Bytes} {as bs : List ReplicationRecord}
    (h : FileHolds file bs) (hpre : as <+: bs) : FileHolds file as :=
  fun log loaded hfile hload => hpre.trans (h log loaded hfile hload)

variable {records : List ReplicationRecord}

theorem fileHolds_of_reload [Sha256] {log loaded : FileReplicationLog}
    (h : log.reload = (.ok (), loaded)) (hpre : records <+: loaded.events) :
    FileHolds log.file records := by
  intro other found hfile hload
  rw [reload_of_file hfile h] at hload
  rw [← (Prod.mk.inj hload).2]
  exact hpre

variable {log : FileReplicationLog}

theorem fileHolds_unreadable [Sha256] {e : SyncError} (h : log.reload = (.error e, log))
    (records : List ReplicationRecord) :
    FileHolds log.file records := by
  intro other found hfile hload
  rw [reload_of_file hfile.symm hload] at h
  cases h

theorem fileHolds_loaded [Sha256] {log loaded : FileReplicationLog}
    (h : log.reload = (.ok (), loaded)) : FileHolds loaded.file loaded.events :=
  fileHolds_of_reload (reload_loaded h rfl) (List.prefix_refl _)

variable {record : Bytes} {sequence : UInt64}

theorem fileHolds_extended [Sha256] {log loaded : FileReplicationLog}
    (hload : log.reload = (.ok (), loaded)) (happendable : Appendable loaded record sequence) :
    FileHolds (loaded.extended record sequence).file (loaded.extended record sequence).events := by
  by_cases hmarker : MarkerOnly log.file
  · exact fileHolds_unreadable (extended_unreadable hload hmarker happendable) _
  · exact fileHolds_of_reload (reload_extended hload hmarker happendable) (List.prefix_refl _)

theorem fileHolds_cutShort [Sha256] {log loaded : FileReplicationLog} {bytes : Nat}
    (hload : log.reload = (.ok (), loaded)) (happendable : Appendable loaded record sequence) :
    FileHolds (loaded.cutShort record sequence bytes).file loaded.events := by
  by_cases hspoilt : MarkerOnly log.file ∧ 0 < bytes
  · exact fileHolds_unreadable
      (cutShort_unreadable hload hspoilt.1 happendable hspoilt.2) _
  · obtain hsame | hwhole | ⟨hcanonical, -, -⟩ :=
      reload_cutShort hload (fun hbytes hmarker => hspoilt ⟨hmarker, hbytes⟩) happendable
    · exact fileHolds_of_reload hsame (List.prefix_refl _)
    · exact fileHolds_of_reload hwhole (List.prefix_append _ _)
    · exact fileHolds_of_reload hcanonical (List.prefix_refl _)

theorem fileHolds_append [Sha256] (h : FileHolds log.file records) (record : Bytes)
    (sequence : UInt64) :
    FileHolds (log.appendWithSequence record sequence).2.file records := by
  obtain ⟨e, -, happend⟩ | ⟨loaded, hload, ⟨e, happend⟩ | ⟨existing, -, -, -, happend⟩ |
    ⟨happendable, happend⟩⟩ := append_cases log record sequence
  · rw [happend]
    exact h
  · rw [happend]
    exact (fileHolds_loaded hload).shorter (h log loaded rfl hload)
  · rw [happend]
    exact (fileHolds_loaded hload).shorter (h log loaded rfl hload)
  · rw [happend]
    exact (fileHolds_extended hload happendable).shorter
      ((h log loaded rfl hload).trans (List.prefix_append _ _))

theorem fileHolds_appendFailing [Sha256] (h : FileHolds log.file records) (fault : AppendFault)
    (error : String) (record : Bytes) (sequence : UInt64) :
    FileHolds (log.appendFailing fault error record sequence).2.file records := by
  obtain hstopped | ⟨-, hstopped⟩ | ⟨loaded, hload, ⟨-, hstopped⟩ |
    ⟨bytes, -, happendable, hstopped⟩⟩ := appendFailing_cases fault error log record sequence
  · rw [hstopped]
    exact fileHolds_append h record sequence
  · rw [hstopped]
    exact h
  · rw [hstopped]
    exact (fileHolds_loaded hload).shorter (h log loaded rfl hload)
  · rw [hstopped]
    exact (fileHolds_cutShort hload happendable).shorter (h log loaded rfl hload)

/-! ## Logs in step -/

/-- **In step**: the log shows well-formed records, under their index, and its file holds them. -/
structure InStep [Sha256] (log : FileReplicationLog) : Prop where
  indexed : log.sequenceIndices = Sync.sequenceIndices log.events
  valid : ValidRecords log.events
  held : FileHolds log.file log.events

theorem inStep_loaded [Sha256] {log loaded : FileReplicationLog}
    (h : log.reload = (.ok (), loaded)) : InStep loaded := by
  obtain ⟨-, -, -, -, -, -, hindices, -⟩ := reload_cases h
  exact ⟨hindices, validRecords_of_reload h, fileHolds_loaded h⟩

theorem inStep_extended [Sha256] {log loaded : FileReplicationLog}
    (hload : log.reload = (.ok (), loaded)) (happendable : Appendable loaded record sequence) :
    InStep (loaded.extended record sequence) where
  indexed := rfl
  valid := (validRecords_of_reload hload).snoc happendable.size (happendable.unused hload)
  held := fileHolds_extended hload happendable

theorem InStep.append [Sha256] (h : InStep log) (record : Bytes) (sequence : UInt64) :
    InStep (log.appendWithSequence record sequence).2 := by
  obtain ⟨e, -, happend⟩ | ⟨loaded, hload, ⟨e, happend⟩ | ⟨existing, -, -, -, happend⟩ |
    ⟨happendable, happend⟩⟩ := append_cases log record sequence
  · rw [happend]
    exact h
  · rw [happend]
    exact inStep_loaded hload
  · rw [happend]
    exact inStep_loaded hload
  · rw [happend]
    exact inStep_extended hload happendable

theorem InStep.appendFailing [Sha256] (h : InStep log) (fault : AppendFault) (error : String)
    (record : Bytes) (sequence : UInt64) :
    InStep (log.appendFailing fault error record sequence).2 := by
  have hheld := fileHolds_appendFailing h.held fault error record sequence
  obtain hstopped | ⟨-, hstopped⟩ | ⟨loaded, hload, ⟨-, hstopped⟩ |
    ⟨bytes, -, happendable, hstopped⟩⟩ := appendFailing_cases fault error log record sequence
  · rw [hstopped]
    exact h.append record sequence
  · rw [hstopped]
    exact h
  · rw [hstopped] at hheld ⊢
    exact ⟨h.indexed, h.valid, hheld⟩
  · rw [hstopped]
    exact ⟨(inStep_loaded hload).indexed, (inStep_loaded hload).valid,
      fileHolds_cutShort hload happendable⟩

theorem InStep.restoreSnapshot [Sha256] (h : InStep log) (snapshot : ReplicationSnapshot) :
    InStep (log.restoreSnapshot snapshot).2 := by
  unfold FileReplicationLog.restoreSnapshot
  split
  · exact h
  next records hrecords =>
    have hv := validRecords_of_validateSnapshot hrecords
    rw [writeReplicationRecords_eq hv]
    split
    · exact h
    next file hfile =>
      split at hfile
      next hfits =>
        cases hfile
        let restored : FileReplicationLog :=
          ⟨encodeLog records, records, Sync.sequenceIndices records⟩
        have hreload : restored.reload = (.ok (), restored) := reload_canonical hv rfl hfits
        exact inStep_loaded hreload
      next => cases hfile

/-- **The states of a log in a process**: it was opened, it was used, an append to it was stopped by
an I/O error, or another process appended to its file or was stopped in that. -/
inductive Reached [Sha256] : FileReplicationLog → Prop
  | opened {relative : String} {disk : Option Bytes} {log : FileReplicationLog}
      (h : new relative disk = .ok log) : Reached log
  | reloaded {log : FileReplicationLog} (h : Reached log) : Reached log.reload.2
  | appended {log : FileReplicationLog} (h : Reached log) (record : Bytes) (sequence : UInt64) :
      Reached (log.appendWithSequence record sequence).2
  | stopped {log : FileReplicationLog} (h : Reached log) (fault : AppendFault) (error : String)
      (record : Bytes) (sequence : UInt64) :
      Reached (log.appendFailing fault error record sequence).2
  | restored {log : FileReplicationLog} (h : Reached log) (snapshot : ReplicationSnapshot) :
      Reached (log.restoreSnapshot snapshot).2
  | appendedElsewhere {log other : FileReplicationLog} (h : Reached log)
      (hfile : other.file = log.file) (record : Bytes) (sequence : UInt64) :
      Reached { log with file := (other.appendWithSequence record sequence).2.file }
  | stoppedElsewhere {log other : FileReplicationLog} (h : Reached log)
      (hfile : other.file = log.file) (fault : AppendFault) (error : String) (record : Bytes)
      (sequence : UInt64) :
      Reached { log with file := (other.appendFailing fault error record sequence).2.file }

/-- **A log is always in step with its file.** -/
theorem Reached.inStep [Sha256] (h : Reached log) : InStep log := by
  induction h with
  | opened hnew =>
    unfold new at hnew
    split at hnew
    · cases hnew
    · dsimp only at hnew
      split at hnew
      · cases hnew
      next hload =>
        cases hnew
        exact inStep_loaded hload
  | @reloaded log _ ih =>
    cases hload : log.reload with
    | mk result loaded =>
      cases result with
      | error e =>
        rw [reload_error hload]
        exact ih
      | ok _ => exact inStep_loaded hload
  | appended _ record sequence ih => exact ih.append record sequence
  | stopped _ fault error record sequence ih => exact ih.appendFailing fault error record sequence
  | restored _ snapshot ih => exact ih.restoreSnapshot snapshot
  | appendedElsewhere _ hfile record sequence ih =>
    have hheld := ih.held
    rw [← hfile] at hheld
    exact ⟨ih.indexed, ih.valid, fileHolds_append hheld record sequence⟩
  | stoppedElsewhere _ hfile fault error record sequence ih =>
    have hheld := ih.held
    rw [← hfile] at hheld
    exact ⟨ih.indexed, ih.valid, fileHolds_appendFailing hheld fault error record sequence⟩

end FileReplicationLog

end AppCore.Sync
