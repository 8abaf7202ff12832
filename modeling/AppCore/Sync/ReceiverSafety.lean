import AppCore.Sync.ReceiverProof

/-!
# The replication receiver: safety over whole runs

All sources write into one log, and each source has a checkpoint of its own. What makes this
safe is that the log is *dense*: it holds exactly the sequences `1..n`, and every checkpoint is
at most `n`. A batch that is let through starts no later than right after its source's
checkpoint, hence inside the log or right at its end. So a conflict can only show up among the
events that are already stored, before the first append, and from the first append on nothing
can go wrong (`appendEventsFrom_dense`).

* `receiver_invariant` — checkpoints are covered, sequences are unique, payloads stay, and
  checkpoints never go back, along every run;
* `rejected_unchanged` — a rejected message leaves the receiver as it was;
* `acknowledged_stored_iff` — an acknowledged batch is stored, except on the route that skips a
  range below the checkpoint without looking at the log.
-/

namespace AppCore.Sync

open InMemoryReplicationLog

/-! ## Dense logs -/

/-- **A dense log**: valid, and holding exactly the sequences `1..n`. -/
structure Dense [Sha256] (log : InMemoryReplicationLog) (n : Nat) : Prop where
  valid : log.Valid
  holds : ∀ s : UInt64, log.payloadAt s ≠ none ↔ 0 < s.toNat ∧ s.toNat ≤ n

theorem dense_new [Sha256] : Dense InMemoryReplicationLog.new 0 := by
  refine ⟨valid_new, fun s => ?_⟩
  have hnone : InMemoryReplicationLog.new.payloadAt s = none := by
    simp [InMemoryReplicationLog.new, payloadAt, lookupSequence]
  rw [hnone]
  constructor
  · exact fun h => absurd rfl h
  · intro h
    omega

variable {n : Nat} {log : InMemoryReplicationLog}

/-- Appending right after the last sequence keeps a log dense. -/
theorem Dense.append [Sha256] (hd : Dense log n) {event : Bytes} {seq : UInt64}
    (hsize : event.length ≤ maxReplicationRecordBytes) (hseq : seq.toNat = n + 1)
    (hfree : log.payloadAt seq = none) :
    Dense (log.appendWithSequence event seq).2 (n + 1) := by
  have hpos : 0 < seq := by
    rw [UInt64.lt_iff_toNat_lt, hseq]
    exact Nat.succ_pos n
  obtain ⟨-, -, hpayload⟩ := appendWithSequence_fresh hd.valid hsize hpos hfree
  refine ⟨valid_append hd.valid event seq, fun s => ?_⟩
  rw [hpayload s]
  by_cases hs : s = seq
  · subst hs
    simp [hseq]
  · have hne : s.toNat ≠ n + 1 := fun h => hs (UInt64.toNat_inj.1 (h.trans hseq.symm))
    rw [if_neg hs, hd.holds]
    omega

/-- From the end of a dense log on, the append loop takes every event. -/
theorem appendEventsFrom_at_end [Sha256] {start last : UInt64} {n index : Nat} {events : List Bytes}
    (hd : Dense log n) (hlast : last.toNat ≤ n) (hindex : start.toNat + index = n + 1)
    (hrange : start.toNat + index + events.length ≤ 2 ^ 64)
    (hsizes : ∀ e ∈ events, e.length ≤ maxReplicationRecordBytes) (received skipped : Nat) :
    (∃ counts,
      (appendEventsFrom start last log index events received skipped).1 = .ok counts) ∧
      Dense (appendEventsFrom start last log index events received skipped).2
        (n + events.length) := by
  induction events generalizing log n index received skipped with
  | nil => exact ⟨⟨_, rfl⟩, hd⟩
  | cons event rest ih =>
    rw [List.length_cons] at hrange ⊢
    rcases appendEventsFrom_cons start last log index event rest received skipped with
      ⟨hstop, -⟩ | ⟨hseq, hp, -⟩ | ⟨hseq, hp, hlt, hsize, hout⟩
    · -- every reason to stop is excluded: the sequence fits, is free and beyond `last`
      exfalso
      have hseq : (start + UInt64.ofNat index).toNat = n + 1 := by
        have hof : (UInt64.ofNat index).toNat = index :=
          UInt64.toNat_ofNat_of_lt' (by show index < 2 ^ 64; omega)
        rw [toNat_add_of_lt (by rw [hof]; omega), hof, hindex]
      cases hstop with
      | overflow h => omega
      | conflict p hp hne =>
        have := (hd.holds _).1 (by rw [hp]; simp)
        omega
      | missing hp hle =>
        rw [UInt64.le_iff_toNat_le] at hle
        omega
      | oversized h => exact h (hsizes event List.mem_cons_self)
    · have := (hd.holds _).1 (by rw [hp]; simp)
      omega
    · have hd' := hd.append hsize (hseq.trans hindex) hp
      rw [hout, show n + (rest.length + 1) = n + 1 + rest.length by omega]
      exact ih hd' (by omega) (by omega) (by omega)
        (fun e he => hsizes e (List.mem_cons_of_mem _ he)) (received + 1) skipped

/-- **The append loop over a dense log** either stops with the log as it is, or succeeds and
leaves the log dense up to its own end. -/
theorem appendEventsFrom_dense [Sha256] {start last : UInt64} (hstart : 0 < start) {n index : Nat}
    {events : List Bytes} (hd : Dense log n) (hlast : last.toNat ≤ n)
    (hindex : start.toNat + index ≤ n + 1) (hrange : start.toNat + index + events.length ≤ 2 ^ 64)
    (hsizes : ∀ e ∈ events, e.length ≤ maxReplicationRecordBytes) (received skipped : Nat) :
    (∃ e, appendEventsFrom start last log index events received skipped = (.error e, log)) ∨
    ((∃ counts,
        (appendEventsFrom start last log index events received skipped).1 = .ok counts) ∧
      Dense (appendEventsFrom start last log index events received skipped).2
        (max n (start.toNat + index + events.length - 1))) := by
  induction events generalizing index received skipped with
  | nil =>
    refine Or.inr ⟨⟨_, rfl⟩, ?_⟩
    rw [List.length_nil, max_eq_left (by omega)]
    exact hd
  | cons event rest ih =>
    rcases Nat.lt_or_ge n (start.toNat + index) with hend | hinside
    · obtain ⟨hok, hdense⟩ := appendEventsFrom_at_end hd hlast (by omega) hrange hsizes
        received skipped
      rw [List.length_cons] at hdense ⊢
      rw [max_eq_right (by omega),
        show start.toNat + index + (rest.length + 1) - 1 = n + (rest.length + 1) by omega]
      exact Or.inr ⟨hok, hdense⟩
    · rw [List.length_cons] at hrange ⊢
      rcases appendEventsFrom_cons start last log index event rest received skipped with
        ⟨-, e, hout⟩ | ⟨hseq, hp, hout⟩ | ⟨hseq, hp, -⟩
      · exact Or.inl ⟨e, hout⟩
      · rw [hout, show start.toNat + index + (rest.length + 1) - 1 =
          start.toNat + (index + 1) + rest.length - 1 by omega]
        exact ih (by omega) (by omega) (fun e he => hsizes e (List.mem_cons_of_mem _ he))
          received (skipped + 1)
      · -- the log is dense, so a sequence inside it is not free
        have hpos := UInt64.lt_iff_toNat_lt.1 (seq_pos hstart hseq)
        exact absurd hp ((hd.holds _).2 ⟨hpos, by omega⟩)

/-- **What an accepted batch leaves behind**: its events are stored, nothing else is added to
the log, its source's checkpoint is its end, and its id is remembered. -/
structure Committed [Sha256] (st : MemoryReceiver) (m : SyncMessage) (st' : MemoryReceiver) :
    Prop where
  log : Extends st.replicationLog st'.replicationLog m.sequenceStart.toNat
    (m.sequenceStart.toNat + m.events.length)
  stored : ∀ i e, m.events[i]? = some e →
    st'.replicationLog.payloadAt (m.sequenceStart + UInt64.ofNat i) = some e
  checkpoints : st'.checkpointStore.checkpoints =
    st.checkpointStore.checkpoints.insert m.sourceNodeId.asStr (m.sequenceEnd, m.eventsHash)
  processed : st'.processedBatches = recordProcessedBatch st.processedBatches m.batchId

variable {m : SyncMessage}

theorem Committed.lastSequence [Sha256] {st st' : MemoryReceiver} (h : Committed st m st')
    (peer : String) :
    st'.checkpointStore.lastSequence peer =
      if peer = m.sourceNodeId.asStr then m.sequenceEnd
      else st.checkpointStore.lastSequence peer := by
  rw [← InMemorySyncCheckpointStore.lastSequence_insert _ _ _ _ m.eventsHash, ← h.checkpoints]

variable {st : MemoryReceiver}

/-- The second half follows the append loop: its error and its log are the call's, and after a
success the checkpoint and the batch id are written. -/
theorem commitSyncMessage_cases [Sha256] (last : UInt64) (hv : st.replicationLog.Valid)
    (hm : WellFormedBatch m) (hpeer : validatePeerId m.sourceNodeId.asStr = .ok ()) :
    (∃ e log, appendEventsFrom m.sequenceStart last st.replicationLog 0 m.events 0 0 =
        (.error e, log) ∧
      commitSyncMessage st m last = (.error e, { st with replicationLog := log })) ∨
    (∃ counts ack st',
      (appendEventsFrom m.sequenceStart last st.replicationLog 0 m.events 0 0).1 = .ok counts ∧
      commitSyncMessage st m last = (.ok ack, st') ∧
      st'.replicationLog =
        (appendEventsFrom m.sequenceStart last st.replicationLog 0 m.events 0 0).2 ∧
      Committed st m st') := by
  have hhash : validateCheckpointHash m.eventsHash = .ok () := by
    rw [hm.hash]
    exact validateCheckpointHash_hexDigest _
  have hset := InMemorySyncCheckpointStore.setCheckpoint_ok st.checkpointStore m.sequenceEnd
    hpeer hhash
  cases hrun : appendEventsFrom m.sequenceStart last st.replicationLog 0 m.events 0 0 with
  | mk result log =>
    cases result with
    | error e =>
      refine Or.inl ⟨e, log, rfl, ?_⟩
      simp only [commitSyncMessage, appendEventsToLog, hrun]
    | ok counts =>
      have hextends : Extends st.replicationLog log m.sequenceStart.toNat
          (m.sequenceStart.toNat + m.events.length) := by
        have h := appendEventsFrom_extends last hm.start_pos hv 0 m.events 0 0
        rwa [hrun] at h
      have hstored : ∀ i e, m.events[i]? = some e →
          log.payloadAt (m.sequenceStart + UInt64.ofNat i) = some e := by
        intro i e he
        have h := appendEventsFrom_stored hm.start_pos hv (congrArg Prod.fst hrun) he
        rwa [hrun, Nat.zero_add] at h
      refine Or.inr ⟨counts, ⟨true, counts.1, counts.2, m.sequenceEnd⟩,
        ⟨log, ⟨st.checkpointStore.checkpoints.insert m.sourceNodeId.asStr
          (m.sequenceEnd, m.eventsHash)⟩, recordProcessedBatch st.processedBatches m.batchId⟩,
        rfl, ?_, rfl, ⟨hextends, hstored, rfl, rfl⟩⟩
      simp only [commitSyncMessage, appendEventsToLog, hrun, hset]

/-! ## The invariant -/

/-- **A consistent receiver**: the log is dense up to `n` and no checkpoint is beyond it. -/
structure Consistent [Sha256] (st : MemoryReceiver) (n : Nat) : Prop where
  log : Dense st.replicationLog n
  checkpoints : ∀ peer, (st.checkpointStore.lastSequence peer).toNat ≤ n

theorem consistent_empty [Sha256] : Consistent MemoryReceiver.empty 0 := by
  refine ⟨dense_new, fun peer => ?_⟩
  simp [MemoryReceiver.empty, InMemorySyncCheckpointStore.new,
    InMemorySyncCheckpointStore.lastSequence]

/-- The second half over a consistent receiver, for any checkpoint value the first half may
have read: an error changes nothing, and a success keeps the receiver consistent. -/
theorem commitSyncMessage_consistent [Sha256] {last : UInt64} (hc : Consistent st n)
    (hm : WellFormedBatch m) (hpeer : validatePeerId m.sourceNodeId.asStr = .ok ())
    (hlast : last.toNat ≤ n) (hstart : m.sequenceStart.toNat ≤ last.toNat + 1) :
    (∃ e, commitSyncMessage st m last = (.error e, st)) ∨
    (∃ ack st', commitSyncMessage st m last = (.ok ack, st') ∧ Committed st m st' ∧
      Consistent st' (max n m.sequenceEnd.toNat)) := by
  have hrange := hm.range
  have hendlt := m.sequenceEnd.toNat_lt
  have hindex : m.sequenceStart.toNat + 0 ≤ n + 1 := by omega
  have hloop := appendEventsFrom_dense hm.start_pos hc.log hlast hindex (by omega) hm.sizes 0 0
  rcases commitSyncMessage_cases last hc.log.valid hm hpeer with
    ⟨e, log, hrun, hcommit⟩ | ⟨counts, ack, st', hok, hcommit, hlog, hcommitted⟩
  · rcases hloop with ⟨e', hsame⟩ | ⟨⟨counts, hok⟩, -⟩
    · rw [hsame] at hrun
      obtain ⟨-, rfl⟩ := Prod.mk.inj hrun
      exact Or.inl ⟨e, hcommit⟩
    · rw [hrun] at hok
      simp at hok
  · rcases hloop with ⟨e', hsame⟩ | ⟨-, hdense⟩
    · rw [hsame] at hok
      simp at hok
    · refine Or.inr ⟨ack, st', hcommit, hcommitted, ?_, fun peer => ?_⟩
      · rw [hlog]
        rwa [show m.sequenceStart.toNat + 0 + m.events.length - 1 = m.sequenceEnd.toNat by
          omega] at hdense
      · rw [hcommitted.lastSequence]
        have := hc.checkpoints peer
        split <;> omega

/-- **What one call can do to a consistent receiver**: reject the message and change nothing,
acknowledge a covered range and change nothing, or commit an admitted batch. -/
theorem applySyncMessage_cases [Sha256] (hc : Consistent st n) (m : SyncMessage) :
    (∃ e, applySyncMessage st m = (.error e, st)) ∨
    (∃ ack, checkSyncMessage st m = .ok (.inl ack) ∧ applySyncMessage st m = (.ok ack, st)) ∨
    (∃ last ack st', Admitted st m last ∧ applySyncMessage st m = (.ok ack, st') ∧
      Committed st m st' ∧ Consistent st' (max n m.sequenceEnd.toNat)) := by
  unfold applySyncMessage
  cases hcheck : checkSyncMessage st m with
  | error e => exact Or.inl ⟨e, rfl⟩
  | ok outcome =>
    cases outcome with
    | inl ack => exact Or.inr (Or.inl ⟨ack, rfl, rfl⟩)
    | inr last =>
      have hadmitted := checkSyncMessage_commit hcheck
      have hlast : last.toNat ≤ n := hadmitted.last_eq ▸ hc.checkpoints _
      rcases commitSyncMessage_consistent hc hadmitted.wellFormed hadmitted.peer hlast
        hadmitted.start_le with ⟨e, h⟩ | ⟨ack, st', h, hcommitted, hc'⟩
      · exact Or.inl ⟨e, h⟩
      · exact Or.inr (Or.inr ⟨last, ack, st', hadmitted, h, hcommitted, hc'⟩)

/-- `st'` has the records of `st` and possibly more, and no checkpoint of it is lower. -/
structure Advances (st st' : MemoryReceiver) : Prop where
  records : st.replicationLog.events <+: st'.replicationLog.events
  checkpoints : ∀ peer,
    st.checkpointStore.lastSequence peer ≤ st'.checkpointStore.lastSequence peer

theorem Advances.refl (st : MemoryReceiver) : Advances st st :=
  ⟨List.prefix_refl _, fun _ => UInt64.le_refl _⟩

theorem Advances.trans {a b c : MemoryReceiver} (hab : Advances a b) (hbc : Advances b c) :
    Advances a c :=
  ⟨hab.records.trans hbc.records,
    fun peer => UInt64.le_trans (hab.checkpoints peer) (hbc.checkpoints peer)⟩

/-- One call keeps the receiver consistent and only advances it. -/
theorem applySyncMessage_advances [Sha256] (hc : Consistent st n) (m : SyncMessage) :
    (∃ n', Consistent (applySyncMessage st m).2 n') ∧
      Advances st (applySyncMessage st m).2 := by
  rcases applySyncMessage_cases hc m with
    ⟨e, h⟩ | ⟨ack, -, h⟩ | ⟨last, ack, st', hadmitted, h, hcommitted, hc'⟩
  · rw [h]
    exact ⟨⟨n, hc⟩, Advances.refl st⟩
  · rw [h]
    exact ⟨⟨n, hc⟩, Advances.refl st⟩
  · rw [h]
    refine ⟨⟨_, hc'⟩, hcommitted.log.records, fun peer => ?_⟩
    show st.checkpointStore.lastSequence peer ≤ st'.checkpointStore.lastSequence peer
    rw [hcommitted.lastSequence]
    split
    · rename_i hpeer
      have hlt := hadmitted.last_lt
      rw [hpeer, ← hadmitted.last_eq, UInt64.le_iff_toNat_le]
      omega
    · exact UInt64.le_refl _

theorem applySyncMessages_advances [Sha256] (hc : Consistent st n) (messages : List SyncMessage) :
    (∃ n', Consistent (applySyncMessages st messages) n') ∧
      Advances st (applySyncMessages st messages) := by
  induction messages generalizing st n with
  | nil => exact ⟨⟨n, hc⟩, Advances.refl st⟩
  | cons m rest ih =>
    obtain ⟨⟨n', hc'⟩, hstep⟩ := applySyncMessage_advances hc m
    obtain ⟨hfinal, hrun⟩ := ih hc'
    exact ⟨hfinal, hstep.trans hrun⟩

theorem consistent_reachable [Sha256] (messages : List SyncMessage) :
    ∃ n, Consistent (applySyncMessages MemoryReceiver.empty messages) n :=
  (applySyncMessages_advances consistent_empty messages).1

/-- A batch that continues right at the end of the log is accepted. -/
theorem applySyncMessage_at_end [Sha256] {last : UInt64} (hc : Consistent st n)
    (hcheck : checkSyncMessage st m = .ok (.inr last)) (hstart : m.sequenceStart.toNat = n + 1) :
    ∃ ack st', applySyncMessage st m = (.ok ack, st') ∧ Committed st m st' ∧
      Consistent st' m.sequenceEnd.toNat := by
  have hadmitted := checkSyncMessage_commit hcheck
  have hm := hadmitted.wellFormed
  have hrange := hm.range
  have hendlt := m.sequenceEnd.toNat_lt
  have hlast : last.toNat ≤ n := hadmitted.last_eq ▸ hc.checkpoints _
  have happly : applySyncMessage st m = commitSyncMessage st m last := by
    simp only [applySyncMessage, hcheck]
  rw [happly]
  rcases commitSyncMessage_consistent hc hm hadmitted.peer hlast hadmitted.start_le with
    ⟨e, h⟩ | ⟨ack, st', h, hcommitted, hc'⟩
  · -- the loop starts at the end of the log, where it cannot fail
    exfalso
    obtain ⟨⟨counts, hok⟩, -⟩ := appendEventsFrom_at_end hc.log hlast
      (show m.sequenceStart.toNat + 0 = n + 1 from hstart) (by omega) hm.sizes 0 0
    rcases commitSyncMessage_cases last hc.log.valid hm hadmitted.peer with
      ⟨e', log, hrun, -⟩ | ⟨_, ack, st', -, hcommit, -⟩
    · simp [hrun] at hok
    · simp [hcommit] at h
  · refine ⟨ack, st', h, hcommitted, ?_⟩
    rwa [max_eq_right (by omega)] at hc'

/-! ## Results -/

/-- **The receiver's invariant along every run.** In every reached state each checkpoint is
covered by the log and no positive sequence is used twice; and whatever comes later, records
and payloads stay as they are and no checkpoint goes back. -/
theorem receiver_invariant [Sha256] (messages later : List SyncMessage) :
    let st := applySyncMessages MemoryReceiver.empty messages
    let st' := applySyncMessages st later
    (∀ peer s hash, getCheckpoint st.checkpointStore peer = .ok (some (s, hash)) →
      ∀ k : UInt64, 1 ≤ k → k ≤ s →
        ∃ p, ReplicationLog.eventAtSequence st.replicationLog k = .ok (some p)) ∧
    (st.replicationLog.events.Pairwise fun q r => q.sequence = r.sequence → q.sequence = 0) ∧
    (st.replicationLog.events <+: st'.replicationLog.events ∧
      ∀ k p, ReplicationLog.eventAtSequence st.replicationLog k = .ok (some p) →
        ReplicationLog.eventAtSequence st'.replicationLog k = .ok (some p)) ∧
    (∀ peer, st.checkpointStore.lastSequence peer ≤ st'.checkpointStore.lastSequence peer) := by
  intro st st'
  obtain ⟨n, hc⟩ := consistent_reachable messages
  obtain ⟨⟨n', hc'⟩, hadvances⟩ := applySyncMessages_advances hc later
  refine ⟨fun peer s hash hcheckpoint k hk hks => ?_, hc.log.valid.records.unique,
    ⟨hadvances.records, fun k p hp => ?_⟩, hadvances.checkpoints⟩
  · have hget : getLastSequence st.checkpointStore peer = .ok s := by
      simp [getLastSequence, hcheckpoint]
    obtain ⟨-, hlast⟩ := InMemorySyncCheckpointStore.getLastSequence_ok hget
    have hbound := hc.checkpoints peer
    have hkn : k.toNat ≤ n := by
      rw [UInt64.le_iff_toNat_le, hlast] at hks
      exact hks.trans hbound
    have hheld := (hc.log.holds k).2 ⟨UInt64.le_iff_toNat_le.1 hk, hkn⟩
    obtain ⟨p, hp⟩ := Option.ne_none_iff_exists'.1 hheld
    exact ⟨p, congrArg Except.ok hp⟩
  · have hp' := Except.ok.inj hp
    obtain ⟨hpos, r, hr, hrs, hrp⟩ := hc.log.valid.payloadAt_eq_some.1 hp'
    exact congrArg Except.ok (hc'.log.valid.payloadAt_eq_some.2
      ⟨hpos, r, hadvances.records.subset hr, hrs, hrp⟩)

/-- **Rejection is atomic**: a message that is not accepted leaves the log, every checkpoint and
the remembered batch ids as they were. -/
theorem rejected_unchanged [Sha256] (messages : List SyncMessage) (m : SyncMessage)
    (e : SyncError)
    (h : (applySyncMessage (applySyncMessages MemoryReceiver.empty messages) m).1 = .error e) :
    (applySyncMessage (applySyncMessages MemoryReceiver.empty messages) m).2 =
      applySyncMessages MemoryReceiver.empty messages := by
  obtain ⟨n, hc⟩ := consistent_reachable messages
  rcases applySyncMessage_cases hc m with ⟨e', heq⟩ | ⟨ack, -, heq⟩ | ⟨last, ack, st', -, heq, -⟩
  · rw [heq]
  · rw [heq]
  · rw [heq] at h
    simp at h

/-- A batch of three events and a two-event batch of another source that agrees with it at
sequence 1 and conflicts at sequence 2. -/
theorem rejected_unchanged_conflict :
    letI := Sha256.fips
    let stored := SyncMessage.new "batch-a" ⟨"node-a"⟩ 1 3 0 none [[1], [2], [3]]
    let conflicting := SyncMessage.new "batch-b" ⟨"node-b"⟩ 1 2 0 none [[1], [7]]
    let st := applySyncMessages MemoryReceiver.empty [stored]
    (applySyncMessage st conflicting).1 = .error (.sequenceConflict 2) ∧
      (applySyncMessage st conflicting).2 = st := by
  let _ := Sha256.fips
  intro stored conflicting st
  have hconflict : (applySyncMessage st conflicting).1 = .error (.sequenceConflict 2) := by
    decide +kernel
  exact ⟨hconflict, rejected_unchanged [stored] conflicting _ hconflict⟩

/-- Every event of the batch is in the log, at its own sequence. -/
def Held [Sha256] (log : InMemoryReplicationLog) (m : SyncMessage) : Prop :=
  ∀ i e, m.events[i]? = some e →
    ReplicationLog.eventAtSequence log (m.sequenceStart + UInt64.ofNat i) = .ok (some e)

/-- **Acknowledged means stored, except below the checkpoint.** An acknowledged message is
stored event by event exactly when it is not a new valid batch that lies at or below its
source's checkpoint and differs from what the log holds there. -/
theorem acknowledged_stored_iff [Sha256] (messages : List SyncMessage) (m : SyncMessage) :
    let st := applySyncMessages MemoryReceiver.empty messages
    (∀ ack, (applySyncMessage st m).1 = .ok ack →
      Held (applySyncMessage st m).2.replicationLog m) ↔
    (validateMessage st.processedBatches m = .ok () →
      validatePeerId m.sourceNodeId.asStr = .ok () →
      m.sequenceEnd ≤ st.checkpointStore.lastSequence m.sourceNodeId.asStr →
      Held st.replicationLog m) := by
  intro st
  obtain ⟨n, hc⟩ := consistent_reachable messages
  constructor
  · intro h hvalid hpeer hle
    obtain ⟨ack, hcheck⟩ := checkSyncMessage_covered.2 ⟨hvalid, hpeer, hle⟩
    have happly : applySyncMessage st m = (.ok ack, st) := by
      simp only [applySyncMessage, hcheck]
    rw [happly] at h
    exact h ack rfl
  · intro h
    rcases applySyncMessage_cases hc m with
      ⟨e', heq⟩ | ⟨ack', hcheck, heq⟩ | ⟨last, ack', st', -, heq, hcommitted, -⟩
    · intro ack hack
      rw [heq] at hack
      simp at hack
    · intro ack _
      obtain ⟨hvalid, hpeer, hle⟩ := checkSyncMessage_covered.1 ⟨ack', hcheck⟩
      rw [heq]
      exact h hvalid hpeer hle
    · intro ack _ i e he
      rw [heq]
      exact congrArg Except.ok (hcommitted.stored i e he)

/-- A second batch over a covered range, with another payload, is acknowledged and not
stored. -/
theorem acknowledged_not_stored :
    ¬ ∀ (_ : Sha256) (messages : List SyncMessage) (m : SyncMessage) (ack : SyncReceiveAck),
      (applySyncMessage (applySyncMessages MemoryReceiver.empty messages) m).1 = .ok ack →
        Held (applySyncMessage (applySyncMessages MemoryReceiver.empty messages) m).2.replicationLog
          m := by
  intro h
  have hclaim := fun hack => h Sha256.fips
    [@SyncMessage.new Sha256.fips "batch-1" ⟨"node-a"⟩ 1 1 0 none [[1]]]
    (@SyncMessage.new Sha256.fips "batch-2" ⟨"node-a"⟩ 1 1 0 none [[2]]) ⟨true, 0, 1, 1⟩ hack
    0 [2] rfl
  revert hclaim
  decide +kernel

end AppCore.Sync
