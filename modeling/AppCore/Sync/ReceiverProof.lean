import AppCore.Sync.LogProof
import AppCore.Sync.Receiver

/-!
# The replication receiver: what a call can do

The lemmas here say once what each part of `applySyncMessage` does over the process-local
stores; the safety results are assembled from them.

* `appendEventsFrom_stored` — when it succeeds every event is stored at its sequence.
-/

namespace AppCore.Sync

open InMemoryReplicationLog

/-! ## Validation -/

/-- **A well-formed batch**: nonempty, consistent with its own count, range and hash, and within
the limits. -/
structure WellFormedBatch [Sha256] (m : SyncMessage) : Prop where
  start_pos : 0 < m.sequenceStart
  nonempty : m.events ≠ []
  count : m.eventCount = m.events.length
  bounded : m.events.length ≤ defaultMaxEvents
  sizes : ∀ e ∈ m.events, e.length ≤ maxReplicationRecordBytes
  range : m.sequenceStart.toNat + m.events.length = m.sequenceEnd.toNat + 1
  hash : m.eventsHash = computeEventsHash m.batchId m.sourceNodeId m.sequenceStart m.sequenceEnd
    m.createdAtMs m.previousBatchHash m.events

variable {m : SyncMessage}

theorem WellFormedBatch.toNat_sequence [Sha256] (hm : WellFormedBatch m) {k : Nat}
    (hk : k < m.events.length) :
    (m.sequenceStart + UInt64.ofNat k).toNat = m.sequenceStart.toNat + k := by
  have hrange := hm.range
  have hendlt := m.sequenceEnd.toNat_lt
  have hof : (UInt64.ofNat k).toNat = k :=
    UInt64.toNat_ofNat_of_lt' (by show k < 2 ^ 64; omega)
  rw [toNat_add_of_lt (by rw [hof]; omega), hof]

theorem validateRecordSizes_eq_ok {events : List Bytes} :
    validateRecordSizes events = .ok () ↔
      ∀ e ∈ events, e.length ≤ maxReplicationRecordBytes := by
  induction events with
  | nil => simp [validateRecordSizes]
  | cons e rest ih =>
    cases h : validateRecordSize e with
    | error err =>
      have hbig : ¬ e.length ≤ maxReplicationRecordBytes := by
        rw [← validateRecordSize_eq_ok, h]
        simp
      simp [validateRecordSizes, h, hbig]
    | ok _ =>
      simp [validateRecordSizes, h, ih, validateRecordSize_eq_ok.1 h]

theorem expectedEnd_eq {start expected : UInt64} {count : Nat} (hcount : 0 < count)
    (hlt : count < 2 ^ 64)
    (h : checkedAdd start (UInt64.ofNat (count - 1)) = some expected) :
    start.toNat + count = expected.toNat + 1 := by
  obtain ⟨-, he⟩ := checkedAdd_eq_some.1 h
  rw [UInt64.toNat_ofNat_of_lt' (by show count - 1 < 2 ^ 64; omega)] at he
  omega

theorem validateMessage_eq_ok [Sha256] {processed : ProcessedBatches} :
    validateMessage processed m = .ok () ↔
      WellFormedBatch m ∧ m.batchId ∉ processed.set := by
  constructor
  · intro h
    unfold validateMessage at h
    split at h
    · simp at h
    rename_i hstart
    split at h
    · simp at h
    rename_i hempty
    split at h
    · simp at h
    rename_i hcount
    split at h
    · simp at h
    rename_i hbound
    split at h
    · simp at h
    rename_i hsizes
    split at h
    · simp at h
    split at h
    · simp at h
    rename_i hlt
    split at h
    · simp at h
    rename_i expected hexpected
    split at h
    · simp at h
    rename_i hend
    split at h
    · simp at h
    rename_i hhash
    split at h
    · simp at h
    rename_i hfresh
    simp only [not_or, List.isEmpty_iff] at hempty
    rw [not_not] at hcount hend hhash
    refine ⟨⟨UInt64.pos_iff_ne_zero.2 hstart, hempty.1, hcount, Nat.le_of_not_lt hbound,
      validateRecordSizes_eq_ok.1 hsizes, ?_, hhash.symm⟩, hfresh⟩
    have hpos : 0 < m.eventCount := Nat.pos_of_ne_zero hempty.2
    rw [hend, ← hcount]
    exact expectedEnd_eq hpos (Nat.lt_of_not_le hlt) hexpected
  · rintro ⟨hm, hfresh⟩
    have hlen : 0 < m.events.length := List.length_pos_iff.2 hm.nonempty
    have hsmall : m.events.length < 18446744073709551616 :=
      lt_of_le_of_lt hm.bounded (by decide)
    have hrange := hm.range
    have hendlt : m.sequenceEnd.toNat < 2 ^ 64 := m.sequenceEnd.toNat_lt
    have hof : (UInt64.ofNat (m.events.length - 1)).toNat = m.events.length - 1 :=
      UInt64.toNat_ofNat_of_lt' (by show m.events.length - 1 < 2 ^ 64; omega)
    have hexpected : checkedAdd m.sequenceStart (UInt64.ofNat (m.events.length - 1)) =
        some m.sequenceEnd := by
      rw [checkedAdd_eq_some, hof]
      omega
    have horder : ¬ m.sequenceStart > m.sequenceEnd := by
      rw [gt_iff_lt, UInt64.lt_iff_toNat_lt]
      omega
    simp [validateMessage, UInt64.pos_iff_ne_zero.1 hm.start_pos, hm.nonempty, hm.count,
      Nat.not_lt.2 hm.bounded, validateRecordSizes_eq_ok.2 hm.sizes, horder, hsmall, hexpected,
      ← hm.hash, hfresh]

/-! ## The first half of a call -/

variable {st : MemoryReceiver}

/-- A batch is acknowledged by the first half exactly when it passes validation and lies below
its source's checkpoint. -/
theorem checkSyncMessage_covered [Sha256] :
    (∃ ack, checkSyncMessage st m = .ok (.inl ack)) ↔
      validateMessage st.processedBatches m = .ok () ∧
        validatePeerId m.sourceNodeId.asStr = .ok () ∧
        m.sequenceEnd ≤ st.checkpointStore.lastSequence m.sourceNodeId.asStr := by
  constructor
  · rintro ⟨ack, h⟩
    unfold checkSyncMessage at h
    split at h
    · simp at h
    rename_i hvalid
    split at h
    · simp at h
    rename_i last hlast
    obtain ⟨hpeer, rfl⟩ := InMemorySyncCheckpointStore.getLastSequence_ok hlast
    split at h
    · rename_i hle
      exact ⟨hvalid, hpeer, hle⟩
    · split at h
      · simp at h
      split at h
      · simp at h
      split at h <;> simp at h
  · rintro ⟨hvalid, hpeer, hle⟩
    have hlast := InMemorySyncCheckpointStore.getLastSequence_eq st.checkpointStore hpeer
    exact ⟨_, by simp only [checkSyncMessage, hvalid, hlast, if_pos hle]; rfl⟩

/-- **What the first half has established when it lets a batch through**: the batch is
well-formed and new, its source is a valid peer, `last` is that peer's checkpoint, and the batch
starts no later than right after it and ends beyond it. -/
structure Admitted [Sha256] (st : MemoryReceiver) (m : SyncMessage) (last : UInt64) : Prop where
  wellFormed : WellFormedBatch m
  fresh : m.batchId ∉ st.processedBatches.set
  peer : validatePeerId m.sourceNodeId.asStr = .ok ()
  last_eq : last = st.checkpointStore.lastSequence m.sourceNodeId.asStr
  last_lt : last.toNat < m.sequenceEnd.toNat
  start_le : m.sequenceStart.toNat ≤ last.toNat + 1

theorem checkSyncMessage_commit [Sha256] {last : UInt64}
    (h : checkSyncMessage st m = .ok (.inr last)) : Admitted st m last := by
  unfold checkSyncMessage at h
  split at h
  · simp at h
  rename_i hvalid
  split at h
  · simp at h
  rename_i last' hlast
  obtain ⟨hpeer, hlast'⟩ := InMemorySyncCheckpointStore.getLastSequence_ok hlast
  split at h
  · simp at h
  rename_i hle
  split at h
  · simp at h
  rename_i next hnext
  split at h
  · simp at h
  rename_i hstart
  split at h
  · simp at h
  obtain rfl : last' = last := by simpa using h
  obtain ⟨hm, hfresh⟩ := validateMessage_eq_ok.1 hvalid
  obtain ⟨-, hnext⟩ := checkedAdd_eq_some.1 hnext
  refine ⟨hm, hfresh, hpeer, hlast', ?_, ?_⟩
  · rw [UInt64.le_iff_toNat_le] at hle
    omega
  · rw [gt_iff_lt, UInt64.lt_iff_toNat_lt, hnext, Nat.not_lt] at hstart
    exact hstart

/-- A well-formed batch with a new id that starts no later than right after the checkpoint,
ends beyond it and names its hash is let through. -/
theorem checkSyncMessage_admits [Sha256] {last : UInt64} (h : Admitted st m last)
    (hlink : 0 < last → m.sequenceStart.toNat = last.toNat + 1 →
      ∀ hash, st.checkpointStore.checkpoints[m.sourceNodeId.asStr]? = some (last, hash) →
        m.previousBatchHash.getD "" = hash) :
    checkSyncMessage st m = .ok (.inr last) := by
  have hvalid := validateMessage_eq_ok.2 ⟨h.wellFormed, h.fresh⟩
  have hget := InMemorySyncCheckpointStore.getLastSequence_eq st.checkpointStore h.peer
  rw [← h.last_eq] at hget
  have hbeyond : ¬ m.sequenceEnd ≤ last := by
    rw [UInt64.le_iff_toNat_le]
    exact Nat.not_le.2 h.last_lt
  have hendlt : m.sequenceEnd.toNat < 2 ^ 64 := m.sequenceEnd.toNat_lt
  have hlt := h.last_lt
  have hone : (1 : UInt64).toNat = 1 := rfl
  have hnext : checkedAdd last 1 = some (last + 1) := by
    rw [checkedAdd_eq_some]
    exact ⟨by omega, toNat_add_of_lt (by omega)⟩
  have hnextNat : (last + 1).toNat = last.toNat + 1 := (checkedAdd_eq_some.1 hnext).2
  have hstart : ¬ m.sequenceStart > last + 1 := by
    rw [gt_iff_lt, UInt64.lt_iff_toNat_lt, hnextNat]
    exact Nat.not_lt.2 h.start_le
  have hhash : checkPreviousHash st.checkpointStore m last (last + 1) = .ok () := by
    unfold checkPreviousHash
    split
    · rename_i hcond
      rw [InMemorySyncCheckpointStore.getCheckpoint_ok h.peer]
      have hstartNat : m.sequenceStart.toNat = last.toNat + 1 := by rw [hcond.2, hnextNat]
      cases hcp : st.checkpointStore.checkpoints[m.sourceNodeId.asStr]? with
      | none => rfl
      | some entry =>
        obtain ⟨sequence, hash⟩ := entry
        have hsequence : sequence = last := by
          simp [h.last_eq, InMemorySyncCheckpointStore.lastSequence, hcp]
        rw [hsequence] at hcp
        have := hlink hcond.1 hstartNat hash hcp
        simp [this]
    · rfl
  simp only [checkSyncMessage, hvalid, hget, if_neg hbeyond, hnext, if_neg hstart, hhash]

/-! ## The append loop -/

/-- `log'` has the records of `log` and then more, all of whose sequences lie in `[lo, hi)`. -/
structure Extends [Sha256] (log log' : InMemoryReplicationLog) (lo hi : Nat) : Prop where
  valid : log'.Valid
  records : log.events <+: log'.events
  added : ∀ s, log.payloadAt s = none → log'.payloadAt s ≠ none → lo ≤ s.toNat ∧ s.toNat < hi

variable {log : InMemoryReplicationLog}

theorem Extends.refl [Sha256] (hv : log.Valid) (lo hi : Nat) :
    Extends log log lo hi :=
  ⟨hv, List.prefix_refl _, fun _ hnone hsome => absurd hnone hsome⟩

theorem Extends.trans [Sha256] {a b c : InMemoryReplicationLog} {lo mid hi : Nat}
    (hab : Extends a b lo mid) (hbc : Extends b c mid hi) (hlo : lo ≤ mid) (hhi : mid ≤ hi) :
    Extends a c lo hi := by
  refine ⟨hbc.valid, hab.records.trans hbc.records, fun s hnone hsome => ?_⟩
  by_cases hb : b.payloadAt s = none
  · have := hbc.added s hb hsome
    omega
  · have := hab.added s hnone hb
    omega

theorem Extends.payloadAt [Sha256] {log log' : InMemoryReplicationLog} {lo hi : Nat}
    (hv : log.Valid) (h : Extends log log' lo hi) {s : UInt64} {p : Bytes}
    (hp : log.payloadAt s = some p) : log'.payloadAt s = some p := by
  obtain ⟨hpos, r, hr, hrs, hrp⟩ := hv.payloadAt_eq_some.1 hp
  exact h.valid.payloadAt_eq_some.2 ⟨hpos, r, h.records.subset hr, hrs, hrp⟩

variable {index : Nat}

theorem checkedAdd_index {start seq : UInt64} (hlt : ¬ 2 ^ 64 ≤ index)
    (h : checkedAdd start (UInt64.ofNat index) = some seq) :
    seq = start + UInt64.ofNat index ∧ seq.toNat = start.toNat + index := by
  have hof : (UInt64.ofNat index).toNat = index := UInt64.toNat_ofNat_of_lt' (Nat.lt_of_not_le hlt)
  have hseq := (checkedAdd_eq_some.1 h).2
  rw [hof] at hseq
  refine ⟨?_, hseq⟩
  unfold checkedAdd at h
  split at h
  · exact (Option.some.inj h).symm
  · simp at h

/-- The reasons for which the append loop stops at an event. -/
inductive Stops (start last : UInt64) (log : InMemoryReplicationLog) (index : Nat)
    (event : Bytes) : Prop
  | overflow (h : 2 ^ 64 ≤ start.toNat + index)
  | conflict (p : Bytes) (h : log.payloadAt (start + UInt64.ofNat index) = some p) (hne : p ≠ event)
  | missing (h : log.payloadAt (start + UInt64.ofNat index) = none)
      (hle : start + UInt64.ofNat index ≤ last)
  | oversized (h : ¬ event.length ≤ maxReplicationRecordBytes)

/-- **One turn of the append loop.** It stops with the log as it is; or the event is already
stored; or it is pushed at a sequence that is free and beyond the checkpoint. -/
theorem appendEventsFrom_cons [Sha256] (start last : UInt64) (log : InMemoryReplicationLog)
    (index : Nat) (event : Bytes) (rest : List Bytes) (received skipped : Nat) :
    (Stops start last log index event ∧
      ∃ e, appendEventsFrom start last log index (event :: rest) received skipped =
        (.error e, log)) ∨
    ((start + UInt64.ofNat index).toNat = start.toNat + index ∧
      log.payloadAt (start + UInt64.ofNat index) = some event ∧
      appendEventsFrom start last log index (event :: rest) received skipped =
        appendEventsFrom start last log (index + 1) rest received (skipped + 1)) ∨
    ((start + UInt64.ofNat index).toNat = start.toNat + index ∧
      log.payloadAt (start + UInt64.ofNat index) = none ∧
      last < start + UInt64.ofNat index ∧ event.length ≤ maxReplicationRecordBytes ∧
      appendEventsFrom start last log index (event :: rest) received skipped =
        appendEventsFrom start last
          (log.appendWithSequence event (start + UInt64.ofNat index)).2 (index + 1) rest
          (received + 1) skipped) := by
  rw [appendEventsFrom]
  by_cases hindex : 2 ^ 64 ≤ index
  · rw [if_pos hindex]
    exact Or.inl ⟨.overflow (by omega), _, rfl⟩
  rw [if_neg hindex]
  cases hchecked : checkedAdd start (UInt64.ofNat index) with
  | none =>
    have hover := checkedAdd_eq_none.1 hchecked
    rw [UInt64.toNat_ofNat_of_lt' (Nat.lt_of_not_le hindex)] at hover
    exact Or.inl ⟨.overflow hover, _, rfl⟩
  | some seq =>
    obtain ⟨rfl, hseq⟩ := checkedAdd_index hindex hchecked
    have hevent : ReplicationLog.eventAtSequence log (start + UInt64.ofNat index) =
        .ok (log.payloadAt (start + UInt64.ofNat index)) := rfl
    cases hp : log.payloadAt (start + UInt64.ofNat index) with
    | some p =>
      simp only [hevent, hp]
      by_cases hpe : p = event
      · subst hpe
        exact Or.inr (Or.inl ⟨hseq, rfl, if_pos rfl⟩)
      · exact Or.inl ⟨.conflict p hp hpe, _, if_neg hpe⟩
    | none =>
      simp only [hevent, hp]
      by_cases hle : start + UInt64.ofNat index ≤ last
      · exact Or.inl ⟨.missing hp hle, _, if_pos hle⟩
      rw [if_neg hle]
      have happ : ReplicationLog.appendWithSequence log event (start + UInt64.ofNat index) =
          log.appendWithSequence event (start + UInt64.ofNat index) := rfl
      have hnone : lookupSequence log.events log.sequenceIndices
          (start + UInt64.ofNat index) = none := by
        simpa [InMemoryReplicationLog.payloadAt] using hp
      rcases log.appendWithSequence_cases event (start + UInt64.ofNat index) with
        ⟨hbig, h⟩ | ⟨-, r, hr, -⟩ | ⟨hsize, -, h⟩
      · rw [happ, h]
        exact Or.inl ⟨.oversized hbig, _, rfl⟩
      · exact absurd hr (by simp [hnone])
      · rw [happ, h]
        exact Or.inr (Or.inr ⟨hseq, trivial, UInt64.not_le.1 hle, hsize, rfl⟩)

theorem extends_append [Sha256] (hv : log.Valid) {event : Bytes} {seq : UInt64}
    (hsize : event.length ≤ maxReplicationRecordBytes) (hpos : 0 < seq)
    (hfree : log.payloadAt seq = none) :
    Extends log (log.appendWithSequence event seq).2 seq.toNat (seq.toNat + 1) := by
  obtain ⟨-, hevents, hpayload⟩ := appendWithSequence_fresh hv hsize hpos hfree
  refine ⟨valid_append hv event seq, ?_, fun s hnone hsome => ?_⟩
  · rw [hevents]
    exact List.prefix_append _ _
  · rw [hpayload s] at hsome
    split at hsome
    · rename_i hs
      rw [hs]
      omega
    · exact absurd hnone hsome

theorem seq_pos {start : UInt64} (hstart : 0 < start)
    (hseq : (start + UInt64.ofNat index).toNat = start.toNat + index) :
    0 < start + UInt64.ofNat index := by
  rw [UInt64.lt_iff_toNat_lt] at hstart ⊢
  omega

/-- **The append loop only adds**, and only sequences of the events it was given. -/
theorem appendEventsFrom_extends [Sha256] {start : UInt64} (last : UInt64) (hstart : 0 < start)
    (hv : log.Valid) (index : Nat) (events : List Bytes) (received skipped : Nat) :
    Extends log (appendEventsFrom start last log index events received skipped).2
      (start.toNat + index) (start.toNat + index + events.length) := by
  induction events generalizing log index received skipped with
  | nil => exact Extends.refl hv _ _
  | cons event rest ih =>
    rw [List.length_cons]
    rcases appendEventsFrom_cons start last log index event rest received skipped with
      ⟨-, e, h⟩ | ⟨hseq, hp, h⟩ | ⟨hseq, hp, hlt, hsize, h⟩
    · rw [h]
      exact Extends.refl hv _ _
    · rw [h]
      have hrec := ih hv (index + 1) received (skipped + 1)
      refine ⟨hrec.valid, hrec.records, fun s hnone hsome => ?_⟩
      have := hrec.added s hnone hsome
      omega
    · rw [h]
      have hstep := extends_append hv hsize (seq_pos hstart hseq) hp
      have hrec := ih hstep.valid (index + 1) (received + 1) skipped
      rw [hseq, Nat.add_assoc] at hstep
      have htrans := hstep.trans hrec (by omega) (by omega)
      have hend : start.toNat + (index + 1) + rest.length =
          start.toNat + index + (rest.length + 1) := by omega
      rwa [hend] at htrans

/-- **When the loop succeeds every event is stored at its own sequence.** -/
theorem appendEventsFrom_stored [Sha256] {start last : UInt64} (hstart : 0 < start) (hv : log.Valid)
    {events : List Bytes} {received skipped : Nat} {counts : Nat × Nat}
    (h : (appendEventsFrom start last log index events received skipped).1 = .ok counts) {i : Nat}
    {e : Bytes} (he : events[i]? = some e) :
    (appendEventsFrom start last log index events received skipped).2.payloadAt
      (start + UInt64.ofNat (index + i)) = some e := by
  induction events generalizing log index received skipped i with
  | nil => simp at he
  | cons event rest ih =>
    rcases appendEventsFrom_cons start last log index event rest received skipped with
      ⟨-, err, hout⟩ | ⟨hseq, hp, hout⟩ | ⟨hseq, hp, hlt, hsize, hout⟩
    · simp [hout] at h
    · rw [hout] at h ⊢
      cases i with
      | zero =>
        obtain rfl : event = e := by simpa using he
        exact (appendEventsFrom_extends last hstart hv _ _ _ _).payloadAt hv hp
      | succ i =>
        rw [show index + (i + 1) = index + 1 + i by omega]
        exact ih hv h (by simpa using he)
    · rw [hout] at h ⊢
      have hpos := seq_pos hstart hseq
      have hstep := extends_append hv hsize hpos hp
      cases i with
      | zero =>
        obtain rfl : event = e := by simpa using he
        refine (appendEventsFrom_extends last hstart hstep.valid _ _ _ _).payloadAt hstep.valid ?_
        rw [(appendWithSequence_fresh hv hsize hpos hp).2.2]
        simp
      | succ i =>
        rw [show index + (i + 1) = index + 1 + i by omega]
        exact ih hstep.valid h (by simpa using he)

end AppCore.Sync
