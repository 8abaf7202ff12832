import AppCore.Sync.Log

/-!
# Replication logs: validity

A log's records are the rebuild of its sequences and payloads (`recordsFrom`), and its index is
the index of its records. Both facts, with uniqueness of the positive sequences, form `Valid`,
which every operation keeps. Over a valid log a lookup is membership:

* `valid_append`, `valid_restore` — the operations keep a log valid.
-/

namespace AppCore.Sync

/-! ## The index of a list of records -/

@[simp] theorem sequenceIndices_nil : sequenceIndices [] = ∅ := rfl

theorem sequenceIndices_snoc (records : List ReplicationRecord) (r : ReplicationRecord) :
    sequenceIndices (records ++ [r]) =
      (sequenceIndices records).insert r.sequence records.length := by
  simp [sequenceIndices, List.zipIdx_append]

theorem getElem?_sequenceIndices_snoc (records : List ReplicationRecord) (r : ReplicationRecord)
    (s : UInt64) :
    (sequenceIndices (records ++ [r]))[s]? =
      if r.sequence = s then some records.length else (sequenceIndices records)[s]? := by
  rw [sequenceIndices_snoc, Std.ExtTreeMap.getElem?_insert]
  simp only [Std.LawfulEqCmp.compare_eq_iff_eq]

variable {records : List ReplicationRecord} {s : UInt64}

theorem getElem?_sequenceIndices_some {i : Nat} (h : (sequenceIndices records)[s]? = some i) :
    ∃ r, records[i]? = some r ∧ r.sequence = s := by
  induction records using List.reverseRecOn with
  | nil => simp at h
  | append_singleton records r ih =>
    rw [getElem?_sequenceIndices_snoc] at h
    split at h
    · rename_i hs
      obtain rfl := Option.some.inj h
      exact ⟨r, by simp, hs⟩
    · obtain ⟨q, hq, hqs⟩ := ih h
      have hlt : i < records.length := (List.getElem?_eq_some_iff.1 hq).1
      exact ⟨q, by rw [List.getElem?_append_left hlt, hq], hqs⟩

theorem getElem?_sequenceIndices_none :
    (sequenceIndices records)[s]? = none ↔ ∀ r ∈ records, r.sequence ≠ s := by
  induction records using List.reverseRecOn with
  | nil => simp
  | append_singleton records r ih =>
    rw [getElem?_sequenceIndices_snoc]
    by_cases hs : r.sequence = s
    · simp [hs]
    · rw [if_neg hs, ih]
      simp only [List.mem_append, List.mem_singleton]
      constructor
      · rintro h q (hq | rfl)
        · exact h q hq
        · exact hs
      · exact fun h q hq => h q (Or.inl hq)

/-! ## Records rebuilt from what was appended -/

/-- The records that appending the given sequences and payloads in order produces, after a
record with hash `previousHash` and number `offset`. -/
def recordsFrom [Sha256] (previousHash : String) (offset : Nat) :
    List ReplicationSnapshotRecord → List ReplicationRecord
  | [] => []
  | entry :: rest =>
    let recordHash := replicationRecordHash previousHash entry.sequence entry.payload
    ⟨offset + 1, entry.sequence, entry.payload, previousHash, recordHash⟩ ::
      recordsFrom recordHash (offset + 1) rest

/-- The sequence and payload of each record. -/
def entriesOf (records : List ReplicationRecord) : List ReplicationSnapshotRecord :=
  records.map fun record => ⟨record.sequence, record.payload⟩

/-- The hash the next record is chained to. -/
def chainHead (previousHash : String) (records : List ReplicationRecord) : String :=
  (records.getLast?.map (·.recordHash)).getD previousHash

theorem chainHead_cons (previousHash : String) (r : ReplicationRecord)
    (records : List ReplicationRecord) :
    chainHead previousHash (r :: records) = chainHead r.recordHash records := by
  cases records with
  | nil => rfl
  | cons q records => simp [chainHead, List.getLast?_cons]

@[simp] theorem length_recordsFrom [Sha256] (previousHash : String) (offset : Nat)
    (entries : List ReplicationSnapshotRecord) :
    (recordsFrom previousHash offset entries).length = entries.length := by
  induction entries generalizing previousHash offset with
  | nil => rfl
  | cons entry rest ih => simp [recordsFrom, ih]

@[simp] theorem entriesOf_recordsFrom [Sha256] (previousHash : String) (offset : Nat)
    (entries : List ReplicationSnapshotRecord) :
    entriesOf (recordsFrom previousHash offset entries) = entries := by
  induction entries generalizing previousHash offset with
  | nil => rfl
  | cons entry rest ih =>
    have h := ih (replicationRecordHash previousHash entry.sequence entry.payload) (offset + 1)
    simp only [entriesOf] at h
    simp [recordsFrom, entriesOf, h]

theorem recordsFrom_append [Sha256] (previousHash : String) (offset : Nat)
    (as bs : List ReplicationSnapshotRecord) :
    recordsFrom previousHash offset (as ++ bs) =
      recordsFrom previousHash offset as ++
        recordsFrom (chainHead previousHash (recordsFrom previousHash offset as))
          (offset + as.length) bs := by
  induction as generalizing previousHash offset with
  | nil => rfl
  | cons a as ih =>
    simp only [List.cons_append, recordsFrom, chainHead_cons, ih, List.length_cons]
    rw [show offset + 1 + as.length = offset + (as.length + 1) by omega]

/-- **Well-formed records**: numbered and chained as they were appended, within the size limit,
and with no positive sequence used twice. -/
structure ValidRecords [Sha256] (records : List ReplicationRecord) : Prop where
  chained : records = recordsFrom "" 0 (entriesOf records)
  sizes : ∀ r ∈ records, r.payload.length ≤ maxReplicationRecordBytes
  unique : records.Pairwise fun q r => q.sequence = r.sequence → q.sequence = 0

theorem validRecords_nil [Sha256] : ValidRecords [] :=
  ⟨rfl, by simp, List.Pairwise.nil⟩

theorem ValidRecords.eq_of_sequence [Sha256] (hv : ValidRecords records) {q r : ReplicationRecord}
    (hq : q ∈ records) (hr : r ∈ records) (hs : q.sequence = r.sequence) (hpos : 0 < q.sequence) :
    q = r := by
  obtain ⟨i, hi, rfl⟩ := List.getElem_of_mem hq
  obtain ⟨j, hj, rfl⟩ := List.getElem_of_mem hr
  have hunique := List.pairwise_iff_getElem.1 hv.unique
  rcases Nat.lt_trichotomy i j with hij | rfl | hji
  · exact absurd (hunique i j hi hj hij hs) (UInt64.pos_iff_ne_zero.1 hpos)
  · rfl
  · exact absurd (hunique j i hj hi hji hs.symm) (UInt64.pos_iff_ne_zero.1 (hs ▸ hpos))

variable {events : List ReplicationRecord}

theorem lookupSequence_sound {r : ReplicationRecord}
    (h : lookupSequence events (sequenceIndices events) s = some r) :
    0 < s ∧ r ∈ events ∧ r.sequence = s := by
  unfold lookupSequence at h
  split at h
  · rename_i hpos
    obtain ⟨i, hi, hr⟩ := Option.bind_eq_some_iff.1 h
    obtain ⟨q, hq, hqs⟩ := getElem?_sequenceIndices_some hi
    obtain rfl : q = r := Option.some.inj (hq.symm.trans hr)
    exact ⟨hpos, List.mem_of_getElem? hr, hqs⟩
  · exact absurd h (by simp)

theorem lookupSequence_eq_none (hpos : 0 < s) :
    lookupSequence events (sequenceIndices events) s = none ↔
      ∀ r ∈ events, r.sequence ≠ s := by
  rw [← getElem?_sequenceIndices_none, lookupSequence, if_pos hpos]
  constructor
  · intro h
    cases hi : (sequenceIndices events)[s]? with
    | none => rfl
    | some i =>
      obtain ⟨q, hq, -⟩ := getElem?_sequenceIndices_some hi
      simp [hi, hq] at h
  · intro h
    simp [h]

/-- Over well-formed records a lookup finds a record at its own positive sequence. -/
theorem lookupSequence_eq_some [Sha256] (hv : ValidRecords events) {r : ReplicationRecord} :
    lookupSequence events (sequenceIndices events) s = some r ↔
      0 < s ∧ r ∈ events ∧ r.sequence = s := by
  refine ⟨lookupSequence_sound, fun ⟨hpos, hr, hs⟩ => ?_⟩
  cases h : lookupSequence events (sequenceIndices events) s with
  | none => exact absurd hs ((lookupSequence_eq_none hpos).1 h r hr)
  | some q =>
    obtain ⟨-, hq, hqs⟩ := lookupSequence_sound h
    rw [hv.eq_of_sequence hq hr (hqs.trans hs.symm) (hqs ▸ hpos)]

theorem validateRecordSize_eq_ok {payload : Bytes} :
    validateRecordSize payload = .ok () ↔ payload.length ≤ maxReplicationRecordBytes := by
  unfold validateRecordSize
  split
  · rename_i h
    exact ⟨fun hc => absurd hc (by simp), fun hc => absurd hc (Nat.not_le.2 h)⟩
  · rename_i h
    exact ⟨fun _ => Nat.le_of_not_lt h, fun _ => rfl⟩

theorem nextRecord_eq [Sha256] (hv : ValidRecords events) (record : Bytes) (sequence : UInt64) :
    events ++ [nextRecord events record sequence] =
      recordsFrom "" 0 (entriesOf events ++ [⟨sequence, record⟩]) := by
  rw [recordsFrom_append, ← hv.chained]
  simp [recordsFrom, nextRecord, chainHead, entriesOf]

/-- A record whose sequence is free, or 0, extends well-formed records to well-formed ones. -/
theorem ValidRecords.snoc [Sha256] (hv : ValidRecords events) {record : Bytes} {sequence : UInt64}
    (hsize : record.length ≤ maxReplicationRecordBytes)
    (hfree : 0 < sequence → ∀ r ∈ events, r.sequence ≠ sequence) :
    ValidRecords (events ++ [nextRecord events record sequence]) := by
  constructor
  · rw [nextRecord_eq hv, entriesOf_recordsFrom]
  · intro r hr
    rcases List.mem_append.1 hr with hr | hr
    · exact hv.sizes r hr
    · obtain rfl := List.mem_singleton.1 hr
      exact hsize
  · rw [List.pairwise_append]
    refine ⟨hv.unique, List.pairwise_singleton _ _, fun q hq r hr hqr => ?_⟩
    obtain rfl := List.mem_singleton.1 hr
    by_contra hne
    have hpos : 0 < q.sequence := UInt64.pos_iff_ne_zero.2 hne
    have hqs : q.sequence = sequence := hqr
    exact hfree (hqs ▸ hpos) q hq hqs

/-! ## Restoring -/

/-- Sequences taken before and sequences of the entries themselves never repeat a positive one. -/
def FreshEntries (sequences : Finset UInt64) (entries : List ReplicationSnapshotRecord) : Prop :=
  (∀ e ∈ entries, 0 < e.sequence → e.sequence ∉ sequences) ∧
    entries.Pairwise fun d e => d.sequence = e.sequence → d.sequence = 0

/-- What the snapshot loop accepts, and what it then builds. -/
theorem snapshotRecordsFrom_ok [Sha256] {entries : List ReplicationSnapshotRecord}
    {sequences : Finset UInt64} {previousHash : String} {offset : Nat}
    (h : snapshotRecordsFrom sequences previousHash offset entries = .ok records) :
    records = recordsFrom previousHash offset entries ∧
      (∀ e ∈ entries, e.payload.length ≤ maxReplicationRecordBytes) ∧
      FreshEntries sequences entries := by
  induction entries generalizing sequences previousHash offset records with
  | nil =>
    obtain rfl := Except.ok.inj h
    exact ⟨rfl, by simp, by simp, List.Pairwise.nil⟩
  | cons e rest ih =>
    rw [snapshotRecordsFrom] at h
    cases hsize : validateRecordSize e.payload with
    | error err => simp [hsize] at h
    | ok _ =>
      simp only [hsize] at h
      split at h
      · simp at h
      rename_i htaken
      split at h
      · simp at h
      rename_i tail htail
      obtain rfl := Except.ok.inj h
      obtain ⟨rfl, hsizes, hfresh, hunique⟩ := ih htail
      refine ⟨rfl, ?_, ?_, ?_⟩
      · intro d hd
        rcases List.mem_cons.1 hd with rfl | hd
        · exact validateRecordSize_eq_ok.1 hsize
        · exact hsizes d hd
      · intro d hd hpos hmem
        rcases List.mem_cons.1 hd with rfl | hd
        · exact htaken ⟨hpos, hmem⟩
        · refine hfresh d hd hpos ?_
          split
          · exact Finset.mem_insert_of_mem hmem
          · exact hmem
      · refine List.pairwise_cons.2 ⟨fun d hd hed => ?_, hunique⟩
        by_contra hne
        have hpos : 0 < e.sequence := UInt64.pos_iff_ne_zero.2 hne
        refine hfresh d hd (hed ▸ hpos) ?_
        rw [if_pos hpos, ← hed]
        exact Finset.mem_insert_self _ _

theorem validRecords_recordsFrom [Sha256] {entries : List ReplicationSnapshotRecord}
    (hsizes : ∀ e ∈ entries, e.payload.length ≤ maxReplicationRecordBytes)
    (hunique : entries.Pairwise fun d e => d.sequence = e.sequence → d.sequence = 0) :
    ValidRecords (recordsFrom "" 0 entries) := by
  have hentries := entriesOf_recordsFrom "" 0 entries
  refine ⟨by rw [hentries], fun r hr => ?_, ?_⟩
  · have hmem : (⟨r.sequence, r.payload⟩ : ReplicationSnapshotRecord) ∈ entries := by
      rw [← hentries]
      exact List.mem_map.2 ⟨r, hr, rfl⟩
    exact hsizes _ hmem
  · rw [← hentries, entriesOf, List.pairwise_map] at hunique
    exact hunique

theorem validRecords_of_validateSnapshot [Sha256] {snapshot : ReplicationSnapshot}
    (h : validateSnapshot snapshot = .ok records) :
    ValidRecords records := by
  unfold validateSnapshot at h
  split at h
  · simp at h
  split at h
  · simp at h
  split at h
  · simp at h
  obtain ⟨rfl, hsizes, -, hunique⟩ := snapshotRecordsFrom_ok h
  exact validRecords_recordsFrom hsizes hunique

namespace InMemoryReplicationLog

/-- **A valid log**: well-formed records, indexed by their own sequences. -/
structure Valid [Sha256] (log : InMemoryReplicationLog) : Prop where
  records : ValidRecords log.events
  indexed : log.sequenceIndices = Sync.sequenceIndices log.events

theorem valid_new [Sha256] : new.Valid := ⟨validRecords_nil, rfl⟩

variable {log : InMemoryReplicationLog}

theorem Valid.lookup [Sha256] (hv : log.Valid) {s : UInt64} {r : ReplicationRecord} :
    lookupSequence log.events log.sequenceIndices s = some r ↔
      0 < s ∧ r ∈ log.events ∧ r.sequence = s := by
  rw [hv.indexed]
  exact lookupSequence_eq_some hv.records

theorem Valid.payloadAt_eq_some [Sha256] (hv : log.Valid) {s : UInt64} {p : Bytes} :
    log.payloadAt s = some p ↔ 0 < s ∧ ∃ r ∈ log.events, r.sequence = s ∧ r.payload = p := by
  rw [payloadAt, Option.map_eq_some_iff]
  simp only [hv.lookup]
  exact ⟨fun ⟨r, ⟨hs, hr, hrs⟩, hp⟩ => ⟨hs, r, hr, hrs, hp⟩,
    fun ⟨hs, r, hr, hrs, hp⟩ => ⟨r, ⟨hs, hr, hrs⟩, hp⟩⟩

/-- What an append can do: reject the record for its size, find the sequence taken, or push
one record. -/
theorem appendWithSequence_cases [Sha256] (log : InMemoryReplicationLog) (record : Bytes)
    (sequence : UInt64) :
    (¬ record.length ≤ maxReplicationRecordBytes ∧
      log.appendWithSequence record sequence =
        (.error (.replicationFailed "replication record exceeds size limit"), log)) ∨
    (record.length ≤ maxReplicationRecordBytes ∧
      ∃ r, lookupSequence log.events log.sequenceIndices sequence = some r ∧
        log.appendWithSequence record sequence =
          (if r.payload = record then .ok r.index else .error (.sequenceConflict sequence), log)) ∨
    (record.length ≤ maxReplicationRecordBytes ∧
      lookupSequence log.events log.sequenceIndices sequence = none ∧
      log.appendWithSequence record sequence =
        (.ok (log.events.length + 1),
          { events := log.events ++ [nextRecord log.events record sequence]
            sequenceIndices := log.sequenceIndices.insert sequence log.events.length })) := by
  by_cases hsize : record.length ≤ maxReplicationRecordBytes
  · have hok := validateRecordSize_eq_ok.2 hsize
    cases hl : lookupSequence log.events log.sequenceIndices sequence with
    | some r =>
      refine Or.inr (Or.inl ⟨hsize, r, rfl, ?_⟩)
      simp only [appendWithSequence, hok, hl]
      split <;> rfl
    | none =>
      refine Or.inr (Or.inr ⟨hsize, rfl, ?_⟩)
      simp [appendWithSequence, hok, hl, nextRecord]
  · refine Or.inl ⟨hsize, ?_⟩
    simp [appendWithSequence, validateRecordSize, Nat.lt_of_not_le hsize]

theorem Valid.push [Sha256] (hv : log.Valid) {record : Bytes} {sequence : UInt64}
    (hsize : record.length ≤ maxReplicationRecordBytes)
    (hfree : lookupSequence log.events log.sequenceIndices sequence = none) :
    Valid { events := log.events ++ [nextRecord log.events record sequence]
            sequenceIndices := log.sequenceIndices.insert sequence log.events.length } := by
  refine ⟨hv.records.snoc hsize fun hpos => ?_, ?_⟩
  · rw [hv.indexed] at hfree
    exact (lookupSequence_eq_none hpos).1 hfree
  · rw [sequenceIndices_snoc, hv.indexed]
    rfl

theorem valid_append [Sha256] (hv : log.Valid) (record : Bytes) (sequence : UInt64) :
    (log.appendWithSequence record sequence).2.Valid := by
  rcases log.appendWithSequence_cases record sequence with
    ⟨-, h⟩ | ⟨-, r, -, h⟩ | ⟨hsize, hfree, h⟩
  · rw [h]; exact hv
  · rw [h]; exact hv
  · rw [h]; exact hv.push hsize hfree

theorem valid_restore [Sha256] (hv : log.Valid) (snapshot : ReplicationSnapshot) :
    (log.restoreSnapshot snapshot).2.Valid := by
  unfold restoreSnapshot
  cases h : validateSnapshot snapshot with
  | error e => exact hv
  | ok records => exact ⟨validRecords_of_validateSnapshot h, rfl⟩

/-- An append at a free positive sequence succeeds and adds exactly that payload. -/
theorem appendWithSequence_fresh [Sha256] (hv : log.Valid) {record : Bytes} {sequence : UInt64}
    (hsize : record.length ≤ maxReplicationRecordBytes) (hpos : 0 < sequence)
    (hfree : log.payloadAt sequence = none) :
    (log.appendWithSequence record sequence).1 = .ok (log.events.length + 1) ∧
      (log.appendWithSequence record sequence).2.events =
        log.events ++ [nextRecord log.events record sequence] ∧
      ∀ s, (log.appendWithSequence record sequence).2.payloadAt s =
        if s = sequence then some record else log.payloadAt s := by
  have hnone : lookupSequence log.events log.sequenceIndices sequence = none := by
    simpa [payloadAt] using hfree
  rcases log.appendWithSequence_cases record sequence with
    ⟨hbig, -⟩ | ⟨-, r, hr, -⟩ | ⟨-, -, h⟩
  · exact absurd hsize hbig
  · exact absurd hr (by simp [hnone])
  · refine ⟨by rw [h], by rw [h], fun s => ?_⟩
    have hv' := hv.push hsize hnone
    rw [h]
    ext p
    rw [hv'.payloadAt_eq_some]
    by_cases hs : s = sequence
    · subst hs
      rw [if_pos rfl, Option.some.injEq]
      have hno := (lookupSequence_eq_none hpos).1 (hv.indexed ▸ hnone)
      constructor
      · rintro ⟨-, r, hr, hrs, rfl⟩
        rcases List.mem_append.1 hr with hr | hr
        · exact absurd hrs (hno r hr)
        · rw [List.mem_singleton.1 hr]
          rfl
      · rintro rfl
        exact ⟨hpos, _, List.mem_append_right _ (List.mem_singleton_self _), rfl, rfl⟩
    · rw [if_neg hs, hv.payloadAt_eq_some]
      constructor
      · rintro ⟨hspos, r, hr, hrs, hp⟩
        rcases List.mem_append.1 hr with hr | hr
        · exact ⟨hspos, r, hr, hrs, hp⟩
        · rw [List.mem_singleton.1 hr] at hrs
          exact absurd hrs.symm hs
      · rintro ⟨hspos, r, hr, hrs, hp⟩
        exact ⟨hspos, r, List.mem_append_left _ hr, hrs, hp⟩

end InMemoryReplicationLog

end AppCore.Sync
