import AppCore.Sync.FileLogRefines

/-!
# Snapshots of replication logs

A snapshot keeps only the sequences and payloads of a log; restoring it numbers and chains them
again. Over well-formed records that is the identity (`validateSnapshot_snapshotFromRecords`),
and whatever snapshot is accepted, the restored records are well-formed ones with exactly its
sequences and payloads (`Restored`).

A process-local log has no bound on its size, the file of a file-backed one has. So a snapshot
fits into every process-local log, and into a file-backed log exactly when its file is within
the cap.
-/

namespace AppCore.Sync

/-- Entries of allowed sizes that repeat no positive sequence pass the loop. -/
theorem snapshotRecordsFrom_complete [Sha256] {entries : List ReplicationSnapshotRecord}
    {sequences : Finset UInt64} (previousHash : String) (offset : Nat)
    (hsizes : ∀ e ∈ entries, e.payload.length ≤ maxReplicationRecordBytes)
    (hfresh : FreshEntries sequences entries) :
    snapshotRecordsFrom sequences previousHash offset entries =
      .ok (recordsFrom previousHash offset entries) := by
  induction entries generalizing sequences previousHash offset with
  | nil => rfl
  | cons e rest ih =>
    obtain ⟨htaken, hunique⟩ := hfresh
    rw [List.pairwise_cons] at hunique
    have hsize := validateRecordSize_eq_ok.2 (hsizes e List.mem_cons_self)
    have hnew : ¬ (e.sequence > 0 ∧ e.sequence ∈ sequences) := fun h =>
      htaken e List.mem_cons_self h.1 h.2
    have hrest : FreshEntries
        (if e.sequence > 0 then insert e.sequence sequences else sequences) rest := by
      refine ⟨fun d hd hpos hmem => ?_, hunique.2⟩
      have hold := htaken d (List.mem_cons_of_mem _ hd) hpos
      split at hmem
      · rcases Finset.mem_insert.1 hmem with heq | hmem
        · rename_i hepos
          exact absurd (hunique.1 d hd heq.symm) (UInt64.pos_iff_ne_zero.1 hepos)
        · exact hold hmem
      · exact hold hmem
    have htail := ih (replicationRecordHash previousHash e.sequence e.payload) (offset + 1)
      (fun d hd => hsizes d (List.mem_cons_of_mem _ hd)) hrest
    simp only [snapshotRecordsFrom, hsize, if_neg hnew, htail, recordsFrom]

/-- **Restoring what was saved**: the snapshot of well-formed records gives them back. -/
theorem validateSnapshot_snapshotFromRecords [Sha256] {events : List ReplicationRecord}
    (hv : ValidRecords events) : validateSnapshot (snapshotFromRecords events) = .ok events := by
  have hsizes : ∀ e ∈ entriesOf events, e.payload.length ≤ maxReplicationRecordBytes := by
    intro e he
    obtain ⟨r, hr, rfl⟩ := List.mem_map.1 he
    exact hv.sizes r hr
  have hfresh : FreshEntries ∅ (entriesOf events) :=
    ⟨by simp, List.pairwise_map.2 hv.unique⟩
  have hloop := snapshotRecordsFrom_complete "" 0 hsizes hfresh
  rw [← hv.chained] at hloop
  unfold validateSnapshot
  rw [if_neg (fun h => h rfl), if_neg (fun h => h rfl), if_neg (fun h => h rfl)]
  exact hloop

/-- **Restored records**: the snapshot's sequences and payloads, numbered from one, chained from
the empty hash, no positive sequence twice, with the index of their sequences. -/
structure Restored [Sha256] (snapshot : ReplicationSnapshot) (events : List ReplicationRecord)
    (indices : SequenceIndices) : Prop where
  entries : events.map (fun r => (⟨r.sequence, r.payload⟩ : ReplicationSnapshotRecord)) =
    snapshot.records
  unique : events.Pairwise fun q r => q.sequence = r.sequence → q.sequence = 0
  consecutive : ∀ i r, events[i]? = some r → r.index = i + 1
  chained : ∀ i r, events[i]? = some r →
    r.previousHash = ((events.take i).getLast?.map (·.recordHash)).getD "" ∧
      r.recordHash = replicationRecordHash r.previousHash r.sequence r.payload
  indexed : indices = sequenceIndices events

/-- The record at an offset of a rebuild, its number and its place in the chain. -/
theorem getElem?_recordsFrom [Sha256] {entries : List ReplicationSnapshotRecord}
    {previousHash : String} {offset i : Nat} {r : ReplicationRecord}
    (h : (recordsFrom previousHash offset entries)[i]? = some r) :
    r.index = offset + i + 1 ∧
      r.previousHash = chainHead previousHash ((recordsFrom previousHash offset entries).take i) ∧
      r.recordHash = replicationRecordHash r.previousHash r.sequence r.payload := by
  induction entries generalizing previousHash offset i with
  | nil => simp [recordsFrom] at h
  | cons e rest ih =>
    cases i with
    | zero =>
      obtain rfl := Option.some.inj h
      exact ⟨rfl, rfl, rfl⟩
    | succ i =>
      obtain ⟨hindex, hprevious, hhash⟩ :=
        ih (by simpa [recordsFrom] using h :
          (recordsFrom (replicationRecordHash previousHash e.sequence e.payload)
            (offset + 1) rest)[i]? = some r)
      refine ⟨by omega, ?_, hhash⟩
      rw [hprevious, recordsFrom, List.take_succ_cons, chainHead_cons]

theorem restored_of_validateSnapshot [Sha256] {snapshot : ReplicationSnapshot}
    {records : List ReplicationRecord} (h : validateSnapshot snapshot = .ok records) :
    Restored snapshot records (sequenceIndices records) := by
  have hv := validRecords_of_validateSnapshot h
  have hentries : entriesOf records = snapshot.records := by
    unfold validateSnapshot at h
    split at h
    · simp at h
    split at h
    · simp at h
    split at h
    · simp at h
    obtain ⟨rfl, -, -⟩ := snapshotRecordsFrom_ok h
    exact entriesOf_recordsFrom _ _ _
  have hchain : ∀ i r, records[i]? = some r → r.index = i + 1 ∧
      r.previousHash = chainHead "" (records.take i) ∧
      r.recordHash = replicationRecordHash r.previousHash r.sequence r.payload := by
    intro i r hr
    have hrecord := getElem?_recordsFrom (hv.chained ▸ hr)
    rw [← hv.chained] at hrecord
    exact ⟨by omega, hrecord.2⟩
  exact ⟨hentries, hv.unique, fun i r hr => (hchain i r hr).1, fun i r hr => (hchain i r hr).2, rfl⟩

/-! ## Restoring into either log -/

variable {log : InMemoryReplicationLog}

theorem fits_iff :
    Fits log ↔ (encodeLog log.events).length ≤ maxReplicationLogBytes := Iff.rfl

theorem restore_memory_of_valid [Sha256] (hv : log.Valid) (target : InMemoryReplicationLog) :
    target.restoreSnapshot (snapshotFromRecords log.events) = (.ok (), log) := by
  unfold InMemoryReplicationLog.restoreSnapshot
  simp only [validateSnapshot_snapshotFromRecords hv.records, ← hv.indexed]

/-- Restored into any file-backed log, it gives the file-backed log with those records, or is
refused for the size of the file. -/
theorem restore_file_of_valid [Sha256] (hv : log.Valid) (target : FileReplicationLog) :
    target.restoreSnapshot (snapshotFromRecords log.events) =
      if Fits log then (.ok (), FileReplicationLog.ofMemory log)
      else (.error logTooLarge, target) := by
  unfold FileReplicationLog.restoreSnapshot
  have hwrite := writeReplicationRecords_eq hv.records
  simp only [validateSnapshot_snapshotFromRecords hv.records, hwrite, ← hv.indexed]
  by_cases hfits : (encodeLog log.events).length ≤ maxReplicationLogBytes
  · rw [if_pos hfits, if_pos (fits_iff.2 hfits)]
    rfl
  · rw [if_neg hfits, if_neg (mt fits_iff.1 hfits)]

theorem restore_memory_cases [Sha256] (target : InMemoryReplicationLog)
    (snapshot : ReplicationSnapshot) :
    (∃ e, target.restoreSnapshot snapshot = (.error e, target)) ∨
    (∃ log, target.restoreSnapshot snapshot = (.ok (), log) ∧
      Restored snapshot log.events log.sequenceIndices) := by
  unfold InMemoryReplicationLog.restoreSnapshot
  cases h : validateSnapshot snapshot with
  | error e => exact Or.inl ⟨e, rfl⟩
  | ok records => exact Or.inr ⟨_, rfl, restored_of_validateSnapshot h⟩

/-- What a restore into a file-backed log does with any snapshot; the restored log is the one
its file is opened as. -/
theorem restore_file_cases [Sha256] {relative : String}
    (hpath : FileReplicationLog.validRelativePath relative = true) (target : FileReplicationLog)
    (snapshot : ReplicationSnapshot) :
    (∃ e, target.restoreSnapshot snapshot = (.error e, target)) ∨
    (∃ log, target.restoreSnapshot snapshot = (.ok (), log) ∧
      Restored snapshot log.events log.sequenceIndices ∧
      FileReplicationLog.new relative (some log.file) = .ok log) := by
  unfold FileReplicationLog.restoreSnapshot
  cases h : validateSnapshot snapshot with
  | error e => exact Or.inl ⟨e, rfl⟩
  | ok records =>
    have hv := validRecords_of_validateSnapshot h
    have hwrite := writeReplicationRecords_eq hv
    by_cases hfits : (encodeLog records).length ≤ maxReplicationLogBytes
    · rw [if_pos hfits] at hwrite
      simp only [hwrite]
      have hmemory : InMemoryReplicationLog.Valid ⟨records, sequenceIndices records⟩ := ⟨hv, rfl⟩
      have hopen := FileReplicationLog.new_ofMemory hpath hmemory (fits_iff.2 hfits)
      exact Or.inr ⟨_, rfl, restored_of_validateSnapshot h, hopen⟩
    · rw [if_neg hfits] at hwrite
      simp only [hwrite]
      exact Or.inl ⟨_, rfl⟩

theorem InMemoryReplicationLog.valid_run [Sha256] (hv : log.Valid) (ops : List LogOp) :
    (log.run ops).2.Valid := by
  induction ops generalizing log with
  | nil => exact hv
  | cons op ops ih => exact ih (log.valid_apply hv op)

/-- **The snapshot round trip.** A snapshot of a reachable log, restored into any process-local
log, gives its records and index; restored into any file-backed log it does so exactly when the
file it needs is within the cap, as it always is for a snapshot of a file-backed log. Whatever
the snapshot, an accepted one leaves well-formed records with its sequences and payloads, which
is also what the file is reopened as, and a rejected one leaves the log unchanged. -/
theorem snapshot_round_trip [Sha256] (relative : String)
    (hpath : FileReplicationLog.validRelativePath relative = true) :
    (∀ ops : List LogOp,
      let log := (InMemoryReplicationLog.new.run ops).2
      ∃ snapshot, ReplicationLog.createSnapshot log = .ok snapshot ∧
        (∀ target : InMemoryReplicationLog,
          ReplicationLog.restoreSnapshot target snapshot = (.ok (), log)) ∧
        ∀ target : FileReplicationLog,
          (Fits log → ∃ restored,
            ReplicationLog.restoreSnapshot target snapshot = (.ok (), restored) ∧
              restored.events = log.events ∧ restored.sequenceIndices = log.sequenceIndices) ∧
          (¬ Fits log →
            ReplicationLog.restoreSnapshot target snapshot = (.error logTooLarge, target))) ∧
    (∀ fresh, FileReplicationLog.new relative none = .ok fresh → ∀ ops : List LogOp,
      let log := (fresh.run relative ops).2
      ∃ snapshot, ReplicationLog.createSnapshot log = .ok snapshot ∧
        (∀ target : InMemoryReplicationLog,
          ReplicationLog.restoreSnapshot target snapshot =
            (.ok (), ⟨log.events, log.sequenceIndices⟩)) ∧
        ∀ target : FileReplicationLog, ∃ restored,
          ReplicationLog.restoreSnapshot target snapshot = (.ok (), restored) ∧
            restored.events = log.events ∧ restored.sequenceIndices = log.sequenceIndices) ∧
    (∀ (target : InMemoryReplicationLog) (snapshot : ReplicationSnapshot),
      (∃ e, ReplicationLog.restoreSnapshot target snapshot = (.error e, target)) ∨
      (∃ log, ReplicationLog.restoreSnapshot target snapshot = (.ok (), log) ∧
        Restored snapshot log.events log.sequenceIndices)) ∧
    (∀ (target : FileReplicationLog) (snapshot : ReplicationSnapshot),
      (∃ e, ReplicationLog.restoreSnapshot target snapshot = (.error e, target)) ∨
      (∃ log, ReplicationLog.restoreSnapshot target snapshot = (.ok (), log) ∧
        Restored snapshot log.events log.sequenceIndices ∧
        FileReplicationLog.new relative (some log.file) = .ok log)) := by
  refine ⟨?_, ?_, restore_memory_cases, restore_file_cases hpath⟩
  · intro ops log
    have hv : log.Valid := InMemoryReplicationLog.valid_run InMemoryReplicationLog.valid_new ops
    refine ⟨snapshotFromRecords log.events, rfl, restore_memory_of_valid hv, fun target => ?_⟩
    have hrestore := restore_file_of_valid hv target
    constructor
    · intro hfits
      rw [if_pos hfits] at hrestore
      exact ⟨_, hrestore, rfl, rfl⟩
    · intro hbig
      rw [if_neg hbig] at hrestore
      exact hrestore
  · intro fresh hfresh ops log
    obtain ⟨-, hsteady⟩ := FileReplicationLog.steady_new hfresh
    obtain ⟨memory, hv, hfits, hlog⟩ := FileReplicationLog.steady_run hpath hsteady ops
    have hlog : log = FileReplicationLog.ofMemory memory := hlog
    rw [hlog]
    refine ⟨snapshotFromRecords memory.events, rfl, restore_memory_of_valid hv, fun target => ?_⟩
    have hrestore := restore_file_of_valid hv target
    rw [if_pos hfits] at hrestore
    exact ⟨_, hrestore, rfl, rfl⟩

/-- A log with records of sequence zero, restored into a log with another record. -/
theorem snapshot_round_trip_mixed :
    ∃ (sha : Sha256) (ops : List LogOp) (target : InMemoryReplicationLog)
      (snapshot : ReplicationSnapshot), sha = Sha256.fips ∧
      ops = [.append [1], .appendWithSequence [2] 7, .append [3]] ∧
      FileReplicationLog.validRelativePath "log" = true ∧
      ReplicationLog.createSnapshot (InMemoryReplicationLog.new.run ops).2 = .ok snapshot ∧
      ReplicationLog.restoreSnapshot target snapshot =
        (.ok (), (InMemoryReplicationLog.new.run ops).2) := by
  let sha : Sha256 := Sha256.fips
  obtain ⟨snapshot, hcreate, hrestore, -⟩ := (snapshot_round_trip "log" (by decide)).1
    [.append [1], .appendWithSequence [2] 7, .append [3]]
  exact ⟨sha, _, (InMemoryReplicationLog.new.run [.append [9]]).2, snapshot, rfl, rfl, by decide,
    hcreate, hrestore _⟩

/-! ## A snapshot too large for a file -/

variable {record : Bytes}

theorem events_append [Sha256] (log : InMemoryReplicationLog)
    (hsize : record.length ≤ maxReplicationRecordBytes) :
    (log.apply (.append record)).2.events = log.events ++ [nextRecord log.events record 0] := by
  have hnone : lookupSequence log.events log.sequenceIndices 0 = none := rfl
  rcases log.appendWithSequence_cases record 0 with ⟨hbig, -⟩ | ⟨-, r, hr, -⟩ | ⟨-, -, h⟩
  · exact absurd hsize hbig
  · rw [hnone] at hr
    simp at hr
  · exact congrArg (fun result => result.2.events) h

theorem payloads_run_append [Sha256] (hsize : record.length ≤ maxReplicationRecordBytes) (n : Nat)
    (log : InMemoryReplicationLog) :
    ((log.run (List.replicate n (.append record))).2.events.map (·.payload)) =
      log.events.map (·.payload) ++ List.replicate n record := by
  induction n generalizing log with
  | zero => simp [InMemoryReplicationLog.run]
  | succ n ih =>
    have hstep := ih (log.apply (.append record)).2
    rw [events_append log hsize, List.map_append, List.append_assoc] at hstep
    rw [List.replicate_succ, List.replicate_succ]
    exact hstep

theorem length_le_utf8 (t : List Char) : t.length ≤ (utf8 t).length := by
  induction t with
  | nil => simp
  | cons c t ih =>
    have hc : 1 ≤ (String.utf8EncodeChar c).length := by
      rw [String.length_utf8EncodeChar]
      exact Char.utf8Size_pos c
    simp only [utf8, List.flatMap_cons, List.length_append, List.length_cons] at ih ⊢
    omega

/-- The file is at least twice as long as the payloads in it. -/
theorem payloads_le_encodeLog (records : List ReplicationRecord) :
    2 * ((records.map (·.payload)).map List.length).sum ≤ (encodeLog records).length := by
  have hbody : 2 * ((records.map (·.payload)).map List.length).sum ≤ (logBody records).length := by
    induction records with
    | nil => simp
    | cons r records ih =>
      have hcons := logBody_append [r] records
      have hline : 2 * r.payload.length ≤ (logBody [r]).length := by
        simp [logBody, recordLine, recordFields]
        omega
      rw [List.singleton_append] at hcons
      rw [hcons, List.length_append]
      simp only [List.map_cons, List.sum_cons]
      omega
  have hutf8 := length_le_utf8 (logText records)
  rw [encodeLog]
  simp only [logText, List.length_append] at hutf8 ⊢
  omega

theorem replicate_le_encodeLog [Sha256] (hsize : record.length ≤ maxReplicationRecordBytes)
    (n : Nat) :
    2 * (n * record.length) ≤
      (encodeLog (InMemoryReplicationLog.new.run
        (List.replicate n (.append record))).2.events).length := by
  have hlength := payloads_le_encodeLog
    (InMemoryReplicationLog.new.run (List.replicate n (.append record))).2.events
  rw [payloads_run_append hsize, List.map_append, List.map_replicate, List.sum_append,
    List.sum_replicate, smul_eq_mul] at hlength
  omega

/-- A process-local log whose snapshot no file-backed log takes. -/
theorem snapshot_exceeds_file :
    ¬ ∀ (_ : Sha256) (ops : List LogOp) (snapshot : ReplicationSnapshot)
      (target : FileReplicationLog),
      ReplicationLog.createSnapshot (InMemoryReplicationLog.new.run ops).2 = .ok snapshot →
        (ReplicationLog.restoreSnapshot target snapshot).1 = .ok () := by
  intro h
  let sha : Sha256 := Sha256.fips
  have hbig : ∃ log : InMemoryReplicationLog, log.Valid ∧ ¬ Fits log ∧
      ∃ ops, log = (InMemoryReplicationLog.new.run ops).2 := by
    obtain ⟨record, hrecord⟩ : ∃ record : Bytes, record.length = maxReplicationRecordBytes :=
      ⟨List.replicate _ 0, List.length_replicate⟩
    refine ⟨_, InMemoryReplicationLog.valid_run InMemoryReplicationLog.valid_new
      (List.replicate 129 (.append record)), fun hfits => ?_, _, rfl⟩
    have hcap := (replicate_le_encodeLog hrecord.le 129).trans (fits_iff.1 hfits)
    rw [hrecord] at hcap
    simp [maxReplicationRecordBytes, maxReplicationLogBytes] at hcap
  obtain ⟨log, hv, hover, ops, rfl⟩ := hbig
  have hrestore := restore_file_of_valid hv ⟨[], [], ∅⟩
  rw [if_neg hover] at hrestore
  have hclaim := h sha ops _ ⟨[], [], ∅⟩ rfl
  have hclaim' := (congrArg Prod.fst hrestore).symm.trans hclaim
  simp at hclaim'

end AppCore.Sync
