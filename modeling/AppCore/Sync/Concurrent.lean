import AppCore.Sync.ReceiverSafety

/-!
# Concurrent calls of one receiver

A receiver is shared: its log is locked while a batch is appended, but the checkpoint that
decides where the batch may start is read before. A call therefore takes two steps, the check
and the commit, and steps of different calls interleave freely. A schedule is the list of calls
that take a step, in order.

Between its check and its commit a call can be overtaken by a longer batch of the same source.
When the log then already holds all of its events, its commit succeeds and writes its own,
smaller end over the newer checkpoint. `checkpoint_monotone_iff` says that nothing else can
move a checkpoint back.
-/

namespace AppCore.Sync

open InMemoryReplicationLog

/-- Where a call stands. -/
inductive CallStatus where
  | idle
  | waiting (lastSequence : UInt64)
  | finished (result : SyncResult SyncReceiveAck)

/-- A call of `apply_sync_message`. -/
structure Call where
  message : SyncMessage
  status : CallStatus

/-- A receiver shared by concurrent calls. -/
structure SharedReceiver where
  receiver : MemoryReceiver
  calls : List Call

/-- The next step of one call: the check, then the commit under the log's lock. -/
def stepCall [Sha256] (receiver : MemoryReceiver) (call : Call) : MemoryReceiver × Call :=
  match call.status with
  | .idle =>
    match checkSyncMessage receiver call.message with
    | .error e => (receiver, { call with status := .finished (.error e) })
    | .ok (.inl ack) => (receiver, { call with status := .finished (.ok ack) })
    | .ok (.inr lastSequence) => (receiver, { call with status := .waiting lastSequence })
  | .waiting lastSequence =>
    match commitSyncMessage receiver call.message lastSequence with
    | (result, receiver) => (receiver, { call with status := .finished result })
  | .finished _ => (receiver, call)

namespace SharedReceiver

/-- An empty receiver with one idle call for each message. -/
def start (messages : List SyncMessage) : SharedReceiver :=
  ⟨MemoryReceiver.empty, messages.map fun message => ⟨message, .idle⟩⟩

/-- The `i`-th call takes its next step. -/
def step [Sha256] (s : SharedReceiver) (i : Nat) : SharedReceiver :=
  match s.calls[i]? with
  | none => s
  | some call =>
    match stepCall s.receiver call with
    | (receiver, call) => ⟨receiver, s.calls.set i call⟩

/-- The calls named by the schedule take their steps in order. -/
def run [Sha256] (s : SharedReceiver) (schedule : List Nat) : SharedReceiver :=
  schedule.foldl step s

/-- The checkpoint sequence of a peer. -/
def checkpoint (s : SharedReceiver) (peer : String) : UInt64 :=
  s.receiver.checkpointStore.lastSequence peer

end SharedReceiver

/-! ## The invariant -/

/-- A call that waits for its commit holds an admissible batch, and a checkpoint value that was
once read: it may be stale, but it lies within the log. -/
structure Waiting [Sha256] (n : Nat) (m : SyncMessage) (last : UInt64) : Prop where
  wellFormed : WellFormedBatch m
  peer : validatePeerId m.sourceNodeId.asStr = .ok ()
  last_le : last.toNat ≤ n
  last_lt : last.toNat < m.sequenceEnd.toNat
  start_le : m.sequenceStart.toNat ≤ last.toNat + 1

/-- A call that waits does so admissibly. -/
def CallConsistent [Sha256] (n : Nat) (call : Call) : Prop :=
  ∀ last, call.status = .waiting last → Waiting n call.message last

/-- **The shared invariant**: the receiver is consistent and every waiting call is admissible. -/
structure SharedConsistent [Sha256] (s : SharedReceiver) (n : Nat) : Prop where
  receiver : Consistent s.receiver n
  calls : ∀ call ∈ s.calls, CallConsistent n call

theorem CallConsistent.mono [Sha256] {n n' : Nat} {call : Call} (h : CallConsistent n call)
    (hn : n ≤ n') : CallConsistent n' call := by
  intro last hlast
  have hw := h last hlast
  exact ⟨hw.wellFormed, hw.peer, hw.last_le.trans hn, hw.last_lt, hw.start_le⟩

theorem sharedConsistent_start [Sha256] (messages : List SyncMessage) :
    SharedConsistent (SharedReceiver.start messages) 0 := by
  refine ⟨consistent_empty, fun call hcall last hlast => ?_⟩
  obtain ⟨m, -, rfl⟩ := List.mem_map.1 hcall
  simp at hlast

/-- **What the step of one call can do**: leave the receiver as it is, which for a waiting call
means that its commit failed, or commit the batch of a waiting call. -/
theorem stepCall_cases [Sha256] {receiver : MemoryReceiver} {n : Nat} {call : Call}
    (hc : Consistent receiver n) (hcall : CallConsistent n call) :
    (∃ call', stepCall receiver call = (receiver, call') ∧ CallConsistent n call' ∧
      ∀ last, call.status = .waiting last →
        ∃ e, commitSyncMessage receiver call.message last = (.error e, receiver)) ∨
    (∃ last ack receiver' call', call.status = .waiting last ∧
      commitSyncMessage receiver call.message last = (.ok ack, receiver') ∧
      stepCall receiver call = (receiver', call') ∧ CallConsistent n call' ∧
      Committed receiver call.message receiver' ∧
      Consistent receiver' (max n call.message.sequenceEnd.toNat)) := by
  obtain ⟨m, status⟩ := call
  cases status with
  | idle =>
    cases hcheck : checkSyncMessage receiver m with
    | error e =>
      refine Or.inl ⟨⟨m, .finished (.error e)⟩, ?_, fun last hlast => ?_, by simp⟩
      · simp only [stepCall, hcheck]
      · simp at hlast
    | ok outcome =>
      cases outcome with
      | inl ack =>
        refine Or.inl ⟨⟨m, .finished (.ok ack)⟩, ?_, fun last hlast => ?_, by simp⟩
        · simp only [stepCall, hcheck]
        · simp at hlast
      | inr last =>
        have h := checkSyncMessage_commit hcheck
        refine Or.inl ⟨⟨m, .waiting last⟩, ?_, fun last' hlast => ?_, by simp⟩
        · simp only [stepCall, hcheck]
        · obtain rfl : last = last' := by simpa using hlast
          exact ⟨h.wellFormed, h.peer, h.last_eq ▸ hc.checkpoints _, h.last_lt, h.start_le⟩
  | waiting last =>
    have hw := hcall last rfl
    rcases commitSyncMessage_consistent hc hw.wellFormed hw.peer hw.last_le hw.start_le with
      ⟨e, hcommit⟩ | ⟨ack, receiver', hcommit, hcommitted, hc'⟩
    · refine Or.inl ⟨⟨m, .finished (.error e)⟩, ?_, fun last hlast => ?_, ?_⟩
      · simp only [stepCall, hcommit]
      · simp at hlast
      · intro last' hlast
        obtain rfl : last = last' := by simpa using hlast
        exact ⟨e, hcommit⟩
    · refine Or.inr ⟨last, ack, receiver', ⟨m, .finished (.ok ack)⟩, rfl, hcommit, ?_,
        fun last hlast => ?_, hcommitted, hc'⟩
      · simp only [stepCall, hcommit]
      · simp at hlast
  | finished result => exact Or.inl ⟨⟨m, .finished result⟩, rfl, hcall, by simp⟩

namespace SharedReceiver

theorem consistent_set [Sha256] {s : SharedReceiver} {n n' : Nat} (hs : SharedConsistent s n)
    (hn : n ≤ n') {receiver : MemoryReceiver} (hc : Consistent receiver n') {i : Nat}
    {call : Call} (hcall : CallConsistent n call) :
    SharedConsistent ⟨receiver, s.calls.set i call⟩ n' := by
  refine ⟨hc, fun other hother => ?_⟩
  rcases List.mem_or_eq_of_mem_set hother with hother | rfl
  · exact (hs.calls other hother).mono hn
  · exact hcall.mono hn

theorem consistent_step [Sha256] {s : SharedReceiver} {n : Nat} (hs : SharedConsistent s n)
    (i : Nat) : ∃ n', SharedConsistent (s.step i) n' := by
  unfold step
  cases hcall : s.calls[i]? with
  | none => exact ⟨n, hs⟩
  | some call =>
    rcases stepCall_cases hs.receiver (hs.calls call (List.mem_of_getElem? hcall)) with
      ⟨call', hstep, hcall', -⟩ | ⟨last, ack, receiver', call', -, -, hstep, hcall', -, hc'⟩
    · simp only [hstep]
      exact ⟨n, consistent_set hs le_rfl hs.receiver hcall'⟩
    · simp only [hstep]
      exact ⟨_, consistent_set hs (le_max_left _ _) hc' hcall'⟩

theorem consistent_run [Sha256] {s : SharedReceiver} {n : Nat} (hs : SharedConsistent s n)
    (schedule : List Nat) : ∃ n', SharedConsistent (s.run schedule) n' := by
  induction schedule generalizing s n with
  | nil => exact ⟨n, hs⟩
  | cons i rest ih =>
    obtain ⟨n', hnext⟩ := consistent_step hs i
    exact ih hnext

end SharedReceiver

/-! ## Overtaken calls -/

/-- When the log already holds every event of a batch, the append loop skips all of them. -/
theorem appendEventsFrom_held [Sha256] {start : UInt64} (last : UInt64) {log : InMemoryReplicationLog}
    {index : Nat} {events : List Bytes} (hrange : start.toNat + index + events.length ≤ 2 ^ 64)
    (hsizes : ∀ e ∈ events, e.length ≤ maxReplicationRecordBytes)
    (hheld : ∀ i e, events[i]? = some e →
      log.payloadAt (start + UInt64.ofNat (index + i)) = some e) (received skipped : Nat) :
    ∃ counts, appendEventsFrom start last log index events received skipped =
      (.ok counts, log) := by
  induction events generalizing index received skipped with
  | nil => exact ⟨_, rfl⟩
  | cons event rest ih =>
    rw [List.length_cons] at hrange
    have hevent := hheld 0 event rfl
    rw [Nat.add_zero] at hevent
    rcases appendEventsFrom_cons start last log index event rest received skipped with
      ⟨hstop, -⟩ | ⟨-, -, hout⟩ | ⟨-, hfree, -⟩
    · exfalso
      cases hstop with
      | overflow h => omega
      | conflict p hp hne => exact hne (Option.some.inj (hp.symm.trans hevent))
      | missing hp hle => simp [hevent] at hp
      | oversized h => exact h (hsizes event List.mem_cons_self)
    · rw [hout]
      refine ih (by omega) (fun e he => hsizes e (List.mem_cons_of_mem _ he)) ?_ _ _
      intro i e he
      have hnext := hheld (i + 1) e (by simpa using he)
      rwa [show index + (i + 1) = index + 1 + i by omega] at hnext
    · simp [hevent] at hfree

/-- The next step of the `i`-th call commits a batch of `peer` that is already in the log and
ends below the checkpoint: another call has overtaken it since its check. -/
def Overtaken [Sha256] (s : SharedReceiver) (i : Nat) (peer : String) : Prop :=
  ∃ m last, s.calls[i]? = some ⟨m, .waiting last⟩ ∧ m.sourceNodeId.asStr = peer ∧
    Held s.receiver.replicationLog m ∧ m.sequenceEnd < s.checkpoint peer

namespace SharedReceiver

theorem step_receiver [Sha256] {s : SharedReceiver} {i : Nat} {call call' : Call}
    {receiver : MemoryReceiver} (hcall : s.calls[i]? = some call)
    (hstep : stepCall s.receiver call = (receiver, call')) : (s.step i).receiver = receiver := by
  simp only [step, hcall, hstep]

/-- A step that moves a checkpoint back commits an overtaken batch. -/
theorem overtaken_of_step_back [Sha256] {s : SharedReceiver} {n i : Nat} {peer : String}
    (hs : SharedConsistent s n) (h : (s.step i).checkpoint peer < s.checkpoint peer) :
    Overtaken s i peer := by
  cases hcall : s.calls[i]? with
  | none =>
    rw [show s.step i = s by simp only [step, hcall]] at h
    exact absurd h (UInt64.lt_irrefl _)
  | some call =>
    rcases stepCall_cases hs.receiver (hs.calls call (List.mem_of_getElem? hcall)) with
      ⟨call', hstep, -⟩ | ⟨last, ack, receiver', call', hstatus, -, hstep, -, hcommitted, -⟩
    · rw [checkpoint, step_receiver hcall hstep] at h
      exact absurd h (UInt64.lt_irrefl _)
    · rw [checkpoint, step_receiver hcall hstep, hcommitted.lastSequence] at h
      split at h
      · rename_i hpeer
        obtain ⟨m, status⟩ := call
        obtain rfl : status = .waiting last := hstatus
        refine ⟨m, last, hcall, hpeer.symm, fun k e he => ?_, h⟩
        -- the log was dense beyond the batch, so it held a payload here before the commit,
        -- and the commit kept it
        have hw : Waiting n m last := hs.calls _ (List.mem_of_getElem? hcall) last rfl
        have hrange := hw.wellFormed.range
        have hk : k < m.events.length := (List.getElem?_eq_some_iff.1 he).1
        have hseq := hw.wellFormed.toNat_sequence hk
        have hpos := UInt64.lt_iff_toNat_lt.1 (seq_pos hw.wellFormed.start_pos hseq)
        have hbound : (s.checkpoint peer).toNat ≤ n := hs.receiver.checkpoints peer
        have hbelow : m.sequenceEnd.toNat < (s.checkpoint peer).toNat :=
          UInt64.lt_iff_toNat_lt.1 h
        obtain ⟨p, hp⟩ := Option.ne_none_iff_exists'.1
          ((hs.receiver.log.holds (m.sequenceStart + UInt64.ofNat k)).2 ⟨hpos, by omega⟩)
        have hkept := hcommitted.log.payloadAt hs.receiver.log.valid hp
        rw [hcommitted.stored k e he] at hkept
        exact congrArg Except.ok (hp.trans hkept.symm)
      · exact absurd h (UInt64.lt_irrefl _)

/-- The commit of an overtaken batch moves the checkpoint back. -/
theorem step_back_of_overtaken [Sha256] {s : SharedReceiver} {n i : Nat} {peer : String}
    (hs : SharedConsistent s n) (h : Overtaken s i peer) :
    (s.step i).checkpoint peer < s.checkpoint peer := by
  obtain ⟨m, last, hcall, rfl, hheld, hlt⟩ := h
  have hconsistent := hs.calls _ (List.mem_of_getElem? hcall)
  have hw : Waiting n m last := hconsistent last rfl
  have hrange := hw.wellFormed.range
  have hendlt := m.sequenceEnd.toNat_lt
  obtain ⟨counts, hloop⟩ := appendEventsFrom_held last
    (show m.sequenceStart.toNat + 0 + m.events.length ≤ 2 ^ 64 by omega) hw.wellFormed.sizes
    (fun k e he => by rw [Nat.zero_add]; exact Except.ok.inj (hheld k e he)) 0 0
  rcases stepCall_cases hs.receiver hconsistent with
    ⟨call', -, -, hfailed⟩ | ⟨last', ack, receiver', call', hstatus, -, hstep, -, hcommitted, -⟩
  · exfalso
    obtain ⟨e, hcommit⟩ := hfailed last rfl
    rcases commitSyncMessage_cases last hs.receiver.log.valid hw.wellFormed hw.peer with
      ⟨e', log, hrun, -⟩ | ⟨_, ack, st', -, hok, -⟩
    · simp [hloop] at hrun
    · simp [hok] at hcommit
  · rw [checkpoint, step_receiver hcall hstep, hcommitted.lastSequence, if_pos rfl]
    exact hlt

end SharedReceiver

open SharedReceiver in
/-- **Checkpoints under concurrency.** Along an interleaving of any calls, the checkpoint of a
peer never goes back exactly when no step commits an overtaken batch of that peer. -/
theorem checkpoint_monotone_iff [Sha256] (messages : List SyncMessage) (schedule : List Nat)
    (peer : String) :
    (∀ before i, before ++ [i] <+: schedule →
      ((start messages).run before).checkpoint peer ≤
        ((start messages).run (before ++ [i])).checkpoint peer) ↔
    (∀ before i, before ++ [i] <+: schedule →
      ¬ Overtaken ((start messages).run before) i peer) := by
  refine forall_congr' fun before => forall_congr' fun i => imp_congr_right fun _ => ?_
  obtain ⟨n, hs⟩ := consistent_run (sharedConsistent_start messages) before
  have hstep : (start messages).run (before ++ [i]) = ((start messages).run before).step i := by
    simp [SharedReceiver.run]
  rw [hstep, ← UInt64.not_lt]
  exact not_congr ⟨overtaken_of_step_back hs, step_back_of_overtaken hs⟩

open SharedReceiver in
/-- Two calls check at checkpoint 0, the longer batch commits, and the shorter one then writes
its end over it. -/
theorem checkpoint_moves_back :
    ¬ ∀ (_ : Sha256) (messages : List SyncMessage) (schedule : List Nat) (peer : String),
      (∀ m ∈ messages, m.sourceNodeId.asStr = peer) →
      ∀ before i, before ++ [i] <+: schedule →
        ((start messages).run before).checkpoint peer ≤
          ((start messages).run (before ++ [i])).checkpoint peer := by
  intro h
  have hclaim := h Sha256.fips
    [@SyncMessage.new Sha256.fips "batch-short" ⟨"node-a"⟩ 1 1 0 none [[1]],
      @SyncMessage.new Sha256.fips "batch-long" ⟨"node-a"⟩ 1 3 0 none [[1], [2], [3]]]
    [0, 1, 1, 0] "node-a" (by decide) [0, 1, 1] 0 (by decide)
  revert hclaim
  decide +kernel

end AppCore.Sync
