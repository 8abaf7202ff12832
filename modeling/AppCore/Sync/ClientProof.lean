import AppCore.Sync.Client
import AppCore.Sync.ReceiverSafety

/-!
# The follower client over a lossy network

* `front_deliverable_iff` — along a run, the front batch of the outbox is always acceptable
  exactly when no response is lost.

After a lost response the receiver has the batch and remembers its id, while the client posts
the same batch again. The duplicate test comes before the test for a covered range, so the retry
is rejected, and it stays rejected for as long as the id is remembered.
-/

namespace AppCore.Sync

open InMemoryReplicationLog

namespace SyncLink

/-! ## The client's operations as runs -/

/-- A run made of postings only. -/
def Attempts (events : List Event) : Prop := ∀ e ∈ events, ∃ delivery, e = .attempt delivery

theorem attempts_nil : Attempts [] := by simp [Attempts]

theorem Attempts.cons {events : List Event} (h : Attempts events) (delivery : Delivery) :
    Attempts (.attempt delivery :: events) := by
  intro e he
  rcases List.mem_cons.1 he with rfl | he
  · exact ⟨delivery, rfl⟩
  · exact h e he

theorem Attempts.append {events events' : List Event} (h : Attempts events)
    (h' : Attempts events') : Attempts (events ++ events') := by
  intro e he
  rcases List.mem_append.1 he with he | he
  · exact h e he
  · exact h' e he

/-- The link a finished send leaves: the front batch is gone exactly when it was accepted. -/
def afterSend (link : SyncLink) (receiver : MemoryReceiver) : SyncResult Unit → SyncLink
  | .ok () => { link with outbox := ⟨link.outbox.messages.tail⟩, receiver }
  | .error _ => { link with receiver }

theorem run_trySendFrom [Sha256] (policy : SyncRetryPolicy) {message : SyncMessage}
    (remaining : Nat) (environment : List Attempt) (metrics : SyncPushMetrics) {link : SyncLink}
    (hfront : link.outbox.front = some message) :
    ∃ events, Attempts events ∧ link.run policy events =
      link.afterSend (trySendFrom policy message remaining environment link.receiver metrics).2.2.1
        (trySendFrom policy message remaining environment link.receiver metrics).1 := by
  induction remaining generalizing environment metrics link with
  | zero => exact ⟨[], attempts_nil, rfl⟩
  | succ remaining ih =>
    cases environment with
    | nil => exact ⟨[], attempts_nil, rfl⟩
    | cons attempt environment =>
      rw [trySendFrom]
      by_cases hcancelled : attempt.cancelled = true
      · rw [if_pos hcancelled]
        exact ⟨[], attempts_nil, rfl⟩
      rw [if_neg hcancelled]
      cases hpost : postSyncEvents link.receiver message attempt.delivery with
      | mk seen receiver =>
        have hstep : link.attempt attempt.delivery =
            if seen then { link with outbox := ⟨link.outbox.messages.tail⟩, receiver }
            else { link with receiver } := by
          have hack := InMemorySyncOutbox.acknowledgeFront_front hfront
          cases seen <;> simp [SyncLink.attempt, hfront, hpost, hack]
        cases seen with
        | true => exact ⟨[.attempt attempt.delivery], attempts_nil.cons _, hstep⟩
        | false =>
          dsimp only
          split
          · exact ⟨[.attempt attempt.delivery], attempts_nil.cons _, hstep⟩
          · obtain ⟨events, hevents, hrun⟩ := @ih environment
              { metrics with pushAttempt := metrics.pushAttempt + 1 }
              { link with receiver } hfront
            refine ⟨.attempt attempt.delivery :: events, hevents.cons _, ?_⟩
            have hunfold : link.run policy (.attempt attempt.delivery :: events) =
                (link.attempt attempt.delivery).run policy events := rfl
            rw [hunfold, hstep]
            exact hrun

theorem run_append [Sha256] (policy : SyncRetryPolicy) (link : SyncLink)
    (events events' : List Event) :
    link.run policy (events ++ events') = (link.run policy events).run policy events' :=
  List.foldl_append

/-- Flushing the queue is a run of postings. -/
theorem flushQueue_run [Sha256] (policy : SyncRetryPolicy) (environment : List Attempt)
    (metrics : SyncPushMetrics) (link : SyncLink) :
    ∃ events, Attempts events ∧
      link.run policy events = (link.flushQueue policy environment metrics).2.2.2 := by
  induction hlen : link.outbox.messages.length using Nat.strong_induction_on
    generalizing link environment metrics with
  | _ n ih =>
    rw [flushQueue]
    cases hfront : link.outbox.front with
    | none => exact ⟨[], attempts_nil, rfl⟩
    | some message =>
      obtain ⟨events, hevents, hrun⟩ := run_trySendFrom policy (max policy.maxAttempts 1)
        environment metrics hfront
      have hack := InMemorySyncOutbox.acknowledgeFront_front hfront
      dsimp only
      rw [trySendWithRetry]
      cases hsend : trySendFrom policy message (max policy.maxAttempts 1) environment
          link.receiver metrics with
      | mk result rest =>
        obtain ⟨environment', receiver, metrics'⟩ := rest
        rw [hsend] at hrun
        cases result with
        | error e => exact ⟨events, hevents, hrun⟩
        | ok _ =>
          have hlt : link.outbox.messages.tail.length < n := by
            cases hm : link.outbox.messages with
            | nil => simp [InMemorySyncOutbox.front, hm] at hfront
            | cons m rest => simp [← hlen, hm]
          obtain ⟨events', hevents', hrun'⟩ := ih _ hlt environment'
            { metrics' with pushSuccess := metrics'.pushSuccess + 1 }
            { link with outbox := ⟨link.outbox.messages.tail⟩, receiver } rfl
          refine ⟨events ++ events', hevents.append hevents', ?_⟩
          rw [run_append, hrun]
          dsimp only
          split
          · rename_i e outbox hbad
            simp [hack] at hbad
          · rename_i outbox hok
            obtain rfl : ⟨link.outbox.messages.tail⟩ = outbox := by simpa [hack] using hok
            exact hrun'

/-- Pushing a batch is enqueuing it and a run of postings. -/
theorem pushEvents_run [Sha256] (policy : SyncRetryPolicy) (message : SyncMessage)
    (environment : List Attempt) (metrics : SyncPushMetrics) (link : SyncLink) :
    ∃ events, Attempts events ∧ link.run policy (.enqueue message :: events) =
      (link.pushEvents policy message environment metrics).2.2.2 := by
  cases henqueue : link.enqueue policy message with
  | mk taken link' =>
    have hstep : link.run policy [.enqueue message] = link' := by
      simp [run, step, henqueue]
    cases taken with
    | false =>
      refine ⟨[], attempts_nil, ?_⟩
      simp only [pushEvents, henqueue, hstep]
    | true =>
      obtain ⟨events, hevents, hrun⟩ := flushQueue_run policy environment metrics link'
      refine ⟨events, hevents, ?_⟩
      rw [show Event.enqueue message :: events = [.enqueue message] ++ events from rfl,
        run_append, hstep, hrun]
      simp only [pushEvents, henqueue]

end SyncLink

/-! ## Chains of batches -/

/-- **Contiguous, correctly chained batches** of one source: well-formed, numbered from 1 without
a gap, each naming the hash of the one before, and with distinct ids. -/
structure CorrectlyChained [Sha256] (source : NodeId) (batches : List SyncMessage) : Prop where
  node : ∃ value, NodeId.new value = .ok source
  wellFormed : ∀ m ∈ batches, WellFormedBatch m
  source : ∀ m ∈ batches, m.sourceNodeId = source
  first : ∀ m, batches.head? = some m → m.sequenceStart.toNat = 1
  linked : batches.IsChain fun a b =>
    b.sequenceStart.toNat = a.sequenceEnd.toNat + 1 ∧ b.previousBatchHash = some a.eventsHash
  distinct : (batches.map (·.batchId)).Nodup

theorem CorrectlyChained.of_append [Sha256] {source : NodeId} {as bs : List SyncMessage}
    (h : CorrectlyChained source (as ++ bs)) : CorrectlyChained source as := by
  refine ⟨h.node, fun m hm => h.wellFormed m (List.mem_append_left _ hm),
    fun m hm => h.source m (List.mem_append_left _ hm), fun m hm => h.first m ?_,
    (List.isChain_append.1 h.linked).1, ?_⟩
  · rw [List.head?_append, hm]
    rfl
  · have hdistinct := h.distinct
    rw [List.map_append] at hdistinct
    exact (List.nodup_append.1 hdistinct).1

/-- The sequence a chain of batches has reached. -/
def endOf (batches : List SyncMessage) : Nat :=
  (batches.getLast?.map fun m => m.sequenceEnd.toNat).getD 0

theorem endOf_snoc (batches : List SyncMessage) (m : SyncMessage) :
    endOf (batches ++ [m]) = m.sequenceEnd.toNat := by
  simp [endOf]

/-- The batch after `done` in a chain starts where `done` ends, names its hash, and has an id
of its own. -/
theorem CorrectlyChained.next [Sha256] {source : NodeId} {done rest : List SyncMessage}
    {m : SyncMessage} (h : CorrectlyChained source (done ++ m :: rest)) :
    m.sequenceStart.toNat = endOf done + 1 ∧
      (∀ p, done.getLast? = some p → m.previousBatchHash = some p.eventsHash) ∧
      (∀ p ∈ done, p.batchId ≠ m.batchId) := by
  have hlink : ∀ p, done.getLast? = some p → m.sequenceStart.toNat = p.sequenceEnd.toNat + 1 ∧
      m.previousBatchHash = some p.eventsHash := fun p hp =>
    (List.isChain_append.1 h.linked).2.2 p hp m rfl
  refine ⟨?_, fun p hp => (hlink p hp).2, fun p hp hid => ?_⟩
  · cases hlast : done.getLast? with
    | none =>
      obtain rfl : done = [] := List.getLast?_eq_none_iff.1 hlast
      exact h.first m rfl
    | some p =>
      rw [(hlink p hlast).1, endOf, hlast]
      rfl
  · have hdistinct := h.distinct
    rw [List.map_append, List.nodup_append] at hdistinct
    exact hdistinct.2.2 p.batchId (List.mem_map.2 ⟨p, hp, rfl⟩) m.batchId (by simp) hid

/-- The remembered ids are those of the queue, each once. -/
structure ProcessedBatches.Tracked (processed : ProcessedBatches) : Prop where
  queued : ∀ id, id ∈ processed.set ↔ id ∈ processed.queue
  nodup : processed.queue.Nodup

/-- Remembering a new id keeps the queue in step with the set, and keeps that id. -/
theorem ProcessedBatches.Tracked.record {processed : ProcessedBatches} (h : processed.Tracked)
    {batchId : String} (hfresh : batchId ∉ processed.set) :
    (recordProcessedBatch processed batchId).Tracked ∧
      batchId ∈ (recordProcessedBatch processed batchId).set ∧
      ∀ id ∈ (recordProcessedBatch processed batchId).set,
        id = batchId ∨ id ∈ processed.set := by
  have hnotin : batchId ∉ processed.queue := fun hmem => hfresh ((h.queued _).2 hmem)
  have hnodup : (processed.queue ++ [batchId]).Nodup :=
    List.nodup_append.2 ⟨h.nodup, List.nodup_singleton _, by
      intro a ha b hb hab
      rw [List.mem_singleton.1 hb] at hab
      exact hnotin (hab ▸ ha)⟩
  have hset : ∀ id, id ∈ insert batchId processed.set ↔ id ∈ processed.queue ++ [batchId] := by
    intro id
    rw [Finset.mem_insert, h.queued, List.mem_append, List.mem_singleton]
    exact or_comm
  unfold recordProcessedBatch
  dsimp only
  by_cases hfull : (insert batchId processed.set).card > maxProcessedBatches
  · rw [if_pos hfull]
    cases hqueue : processed.queue with
    | nil =>
      -- an empty queue means an empty set, which cannot overflow
      exfalso
      have hempty : processed.set = ∅ := Finset.eq_empty_of_forall_notMem fun id hid => by
        have := (h.queued id).1 hid
        simp [hqueue] at this
      rw [hempty] at hfull
      simp [maxProcessedBatches] at hfull
    | cons oldest rest =>
      rw [hqueue] at hnodup hset hnotin
      rw [List.cons_append] at hnodup hset ⊢
      obtain ⟨hout, hrest⟩ := List.nodup_cons.1 hnodup
      have hne : batchId ≠ oldest := fun heq => hnotin (heq ▸ List.mem_cons_self)
      refine ⟨⟨fun id => ?_, hrest⟩, ?_, fun id hid => ?_⟩
      · rw [Finset.mem_erase, hset, List.mem_cons]
        constructor
        · rintro ⟨hid, heq | hmem⟩
          · exact absurd heq hid
          · exact hmem
        · exact fun hmem => ⟨fun heq => hout (heq ▸ hmem), Or.inr hmem⟩
      · exact Finset.mem_erase.2 ⟨hne, Finset.mem_insert_self _ _⟩
      · exact Finset.mem_insert.1 (Finset.mem_of_mem_erase hid)
  · rw [if_neg hfull]
    exact ⟨⟨hset, hnodup⟩, Finset.mem_insert_self _ _, fun id hid => Finset.mem_insert.1 hid⟩

theorem applySyncMessage_ok_fresh [Sha256] {st : MemoryReceiver} {m : SyncMessage}
    {ack : SyncReceiveAck} (h : (applySyncMessage st m).1 = .ok ack) :
    m.batchId ∉ st.processedBatches.set := by
  cases hvalid : validateMessage st.processedBatches m with
  | error e => simp [applySyncMessage, checkSyncMessage, hvalid] at h
  | ok _ => exact (validateMessage_eq_ok.1 hvalid).2

/-! ## The joint invariant -/

/-- **Client and receiver in step**: the receiver has applied exactly the batches that have left
the outbox, and its checkpoint, its log and its remembered ids are theirs. -/
structure Synced [Sha256] (source : NodeId) (link : SyncLink) (done : List SyncMessage) : Prop where
  accepted : link.accepted = done ++ link.outbox.messages
  receiver : Consistent link.receiver (endOf done)
  checkpoint : (link.receiver.checkpointStore.lastSequence source.asStr).toNat = endOf done
  hash : ∀ sequence hash, link.receiver.checkpointStore.checkpoints[source.asStr]? =
    some (sequence, hash) → ∃ p, done.getLast? = some p ∧ p.eventsHash = hash
  tracked : link.receiver.processedBatches.Tracked
  remembered : ∀ id ∈ link.receiver.processedBatches.set, ∃ p ∈ done, p.batchId = id

theorem synced_start [Sha256] (source : NodeId) : Synced source SyncLink.start [] := by
  refine ⟨rfl, consistent_empty, ?_, ?_, ⟨?_, List.nodup_nil⟩, ?_⟩
  · have h := consistent_empty.checkpoints source.asStr
    exact Nat.le_zero.1 h
  · intro sequence hash h
    simp [SyncLink.start, MemoryReceiver.empty, InMemorySyncCheckpointStore.new] at h
  · simp [SyncLink.start, MemoryReceiver.empty]
  · simp [SyncLink.start, MemoryReceiver.empty]

/-- The front batch of a link in step is accepted, is then remembered, and the link is in step
once it is removed. -/
theorem Synced.deliver [Sha256] {source : NodeId} {link : SyncLink} {done rest : List SyncMessage}
    {m : SyncMessage} (hs : Synced source link done)
    (hchain : CorrectlyChained source link.accepted) (hfront : link.outbox.messages = m :: rest) :
    ∃ ack receiver, applySyncMessage link.receiver m = (.ok ack, receiver) ∧
      m.batchId ∈ receiver.processedBatches.set ∧
      Synced source { link with outbox := ⟨rest⟩, receiver } (done ++ [m]) := by
  rw [hs.accepted, hfront] at hchain
  obtain ⟨hstart, hprevious, hids⟩ := hchain.next
  have hm : m ∈ done ++ m :: rest := List.mem_append_right _ List.mem_cons_self
  have hwf := hchain.wellFormed m hm
  have hsource : m.sourceNodeId = source := hchain.source m hm
  obtain ⟨value, hvalue⟩ := hchain.node
  have hrange := hwf.range
  have hne : 0 < m.events.length := List.length_pos_iff.2 hwf.nonempty
  have hfresh : m.batchId ∉ link.receiver.processedBatches.set := by
    intro hmem
    obtain ⟨p, hp, hid⟩ := hs.remembered _ hmem
    exact hids p hp hid
  have hadmitted : Admitted link.receiver m
      (link.receiver.checkpointStore.lastSequence source.asStr) := by
    refine ⟨hwf, hfresh, hsource ▸ validatePeerId_of_new hvalue, by rw [hsource], ?_, ?_⟩
    · rw [hs.checkpoint]
      omega
    · rw [hs.checkpoint, hstart]
  have hcheck := checkSyncMessage_admits hadmitted fun _ _ hash hhash => by
    rw [hsource] at hhash
    obtain ⟨p, hlast, hpe⟩ := hs.hash _ _ hhash
    rw [hprevious p hlast, hpe]
    rfl
  obtain ⟨ack, receiver, happly, hcommitted, hc⟩ :=
    applySyncMessage_at_end hs.receiver hcheck hstart
  obtain ⟨htracked, hin, hold⟩ := hs.tracked.record hfresh
  rw [← hcommitted.processed] at htracked hin hold
  refine ⟨ack, receiver, happly, hin, ?_, ?_, ?_, ?_, htracked, ?_⟩
  · rw [hs.accepted, hfront, List.append_assoc]
    rfl
  · rw [endOf_snoc]
    exact hc
  · rw [endOf_snoc, hcommitted.lastSequence, hsource, if_pos rfl]
  · intro sequence hash h
    rw [hcommitted.checkpoints, hsource, Std.ExtTreeMap.getElem?_insert_self] at h
    obtain ⟨-, rfl⟩ := Prod.mk.inj (Option.some.inj h)
    exact ⟨m, by simp, rfl⟩
  · intro id hid
    rcases hold id hid with rfl | hid
    · exact ⟨m, by simp, rfl⟩
    · obtain ⟨p, hp, hpid⟩ := hs.remembered id hid
      exact ⟨p, List.mem_append_left _ hp, hpid⟩

namespace SyncLink

/-- The record of accepted batches only grows. -/
theorem accepted_step [Sha256] (policy : SyncRetryPolicy) (link : SyncLink) (event : Event) :
    link.accepted <+: (link.step policy event).accepted := by
  cases event with
  | enqueue message =>
    simp only [step, enqueue, InMemorySyncOutbox.tryEnqueue]
    split
    · exact List.prefix_append _ _
    · exact List.prefix_refl _
  | attempt delivery =>
    have hsame : (link.attempt delivery).accepted = link.accepted := by
      unfold attempt
      split
      · rfl
      · split <;> rfl
    simp only [step, hsame]
    exact List.prefix_refl _

theorem accepted_run [Sha256] (policy : SyncRetryPolicy) (link : SyncLink)
    (events : List Event) : link.accepted <+: (link.run policy events).accepted := by
  induction events generalizing link with
  | nil => exact List.prefix_refl _
  | cons event rest ih => exact (accepted_step policy link event).trans (ih _)

/-- A step that does not lose the response to a posted batch keeps the link in step. -/
theorem synced_step [Sha256] (policy : SyncRetryPolicy) {source : NodeId} {link : SyncLink}
    {done : List SyncMessage} (hs : Synced source link done)
    (hchain : CorrectlyChained source link.accepted) (event : Event)
    (hkept : event = .attempt .responseLost → link.outbox.front = none) :
    ∃ done', Synced source (link.step policy event) done' := by
  cases event with
  | enqueue message =>
    refine ⟨done, ?_⟩
    simp only [step, enqueue, InMemorySyncOutbox.tryEnqueue]
    split
    · rename_i h
      split at h
      · simp at h
      · obtain ⟨-, rfl⟩ := Prod.mk.inj h
        refine ⟨?_, hs.receiver, hs.checkpoint, hs.hash, hs.tracked, hs.remembered⟩
        rw [hs.accepted, List.append_assoc]
    · rename_i h
      split at h
      · obtain ⟨-, rfl⟩ := Prod.mk.inj h
        exact hs
      · simp at h
  | attempt delivery =>
    cases hmessages : link.outbox.messages with
    | nil =>
      have hstep : link.step policy (.attempt delivery) = link := by
        simp [step, attempt, InMemorySyncOutbox.front, hmessages]
      rw [hstep]
      exact ⟨done, hs⟩
    | cons m rest =>
      have hfront : link.outbox.front = some m := by
        simp [InMemorySyncOutbox.front, hmessages]
      cases delivery with
      | requestLost =>
        refine ⟨done, ?_⟩
        simp only [step, attempt, hfront, postSyncEvents]
        exact hs
      | responseLost => simp [hfront] at hkept
      | delivered =>
        obtain ⟨ack, receiver, happly, -, hnext⟩ := hs.deliver hchain hmessages
        refine ⟨done ++ [m], ?_⟩
        have hack := InMemorySyncOutbox.acknowledgeFront_front hfront
        simp only [step, attempt, hfront, postSyncEvents, happly, hack, hmessages]
        exact hnext

theorem rejected_after_loss [Sha256] (policy : SyncRetryPolicy) {source : NodeId}
    {link : SyncLink} {done : List SyncMessage} (hs : Synced source link done)
    (hchain : CorrectlyChained source link.accepted) {m : SyncMessage}
    (hfront : link.outbox.front = some m) :
    (link.step policy (.attempt .responseLost)).outbox.front = some m ∧
      ∀ ack, (applySyncMessage (link.step policy (.attempt .responseLost)).receiver m).1 ≠
        .ok ack := by
  obtain ⟨rest, hmessages⟩ : ∃ rest, link.outbox.messages = m :: rest :=
    List.head?_eq_some_iff.1 hfront
  obtain ⟨ack', receiver, happly, hin, -⟩ := hs.deliver hchain hmessages
  have hstep : link.step policy (.attempt .responseLost) = { link with receiver } := by
    simp only [step, attempt, hfront, postSyncEvents, happly]
  rw [hstep]
  exact ⟨hfront, fun ack hack => applySyncMessage_ok_fresh hack hin⟩

theorem run_snoc [Sha256] (policy : SyncRetryPolicy) (link : SyncLink) (events : List Event)
    (event : Event) :
    link.run policy (events ++ [event]) = (link.run policy events).step policy event := by
  simp [run]

/-- A run in which every step keeps the link in step, from the start. -/
theorem synced_run [Sha256] (policy : SyncRetryPolicy) {source : NodeId} (events : List Event)
    (hchain : CorrectlyChained source (start.run policy events).accepted)
    (hkept : ∀ before, before ++ [.attempt .responseLost] <+: events →
      (start.run policy before).outbox.front = none) :
    ∃ done, Synced source (start.run policy events) done := by
  induction events using List.reverseRecOn with
  | nil => exact ⟨[], synced_start source⟩
  | append_singleton events event ih =>
    rw [run_snoc] at hchain ⊢
    obtain ⟨later, hlater⟩ := accepted_step policy (start.run policy events) event
    rw [← hlater] at hchain
    obtain ⟨done, hs⟩ := ih hchain.of_append fun before hbefore =>
      hkept before (hbefore.trans (List.prefix_append _ _))
    refine synced_step policy hs hchain.of_append event fun hevent => ?_
    subst hevent
    exact hkept events (List.prefix_refl _)

end SyncLink

open SyncLink in
/-- **Lost responses wedge replication, and nothing else does.** Along a run over contiguous,
correctly chained batches, the front batch of every non-empty outbox is acceptable to the
receiver exactly when no response to a posted batch is lost. -/
theorem front_deliverable_iff [Sha256] (policy : SyncRetryPolicy) (source : NodeId)
    (events : List Event)
    (hchain : CorrectlyChained source (start.run policy events).accepted) :
    (∀ before, before <+: events → ∀ m, (start.run policy before).outbox.front = some m →
      ∃ ack, (applySyncMessage (start.run policy before).receiver m).1 = .ok ack) ↔
    (∀ before, before ++ [.attempt .responseLost] <+: events →
      (start.run policy before).outbox.front = none) := by
  have hchainOf : ∀ before, before <+: events →
      CorrectlyChained source (start.run policy before).accepted := by
    rintro before ⟨after, rfl⟩
    obtain ⟨later, hlater⟩ := accepted_run policy (start.run policy before) after
    rw [run_append, ← hlater] at hchain
    exact hchain.of_append
  constructor
  · intro h before
    -- the first lost response is the one to look at: up to it the link is in step
    induction hlen : before.length using Nat.strong_induction_on generalizing before with
    | _ n ih =>
      intro hbefore
      have hpre : before <+: events := (List.prefix_append _ _).trans hbefore
      obtain ⟨done, hs⟩ := synced_run policy before (hchainOf before hpre)
        fun earlier hearlier => by
          refine ih earlier.length ?_ earlier rfl (hearlier.trans hpre)
          have := hearlier.length_le
          simp only [List.length_append, List.length_singleton] at this
          omega
      by_contra hne
      obtain ⟨m, hfront⟩ := Option.ne_none_iff_exists'.1 hne
      obtain ⟨hfront', hrejected⟩ :=
        rejected_after_loss policy hs (hchainOf before hpre) hfront
      obtain ⟨ack, hack⟩ := h _ hbefore m (by rw [run_snoc]; exact hfront')
      rw [run_snoc] at hack
      exact hrejected ack hack
  · intro h before hbefore m hfront
    have hchain' := hchainOf before hbefore
    obtain ⟨done, hs⟩ := synced_run policy before hchain' fun earlier hearlier =>
      h earlier (hearlier.trans hbefore)
    obtain ⟨rest, hmessages⟩ : ∃ rest, (start.run policy before).outbox.messages = m :: rest :=
      List.head?_eq_some_iff.1 hfront
    obtain ⟨ack, receiver, happly, -⟩ := hs.deliver hchain' hmessages
    exact ⟨ack, by rw [happly]⟩

/-- Two chained batches of one source. -/
def chainedPair [Sha256] : SyncMessage × SyncMessage :=
  let first := SyncMessage.new "batch-1" ⟨"node-a"⟩ 1 1 0 none [[1]]
  (first, SyncMessage.new "batch-2" ⟨"node-a"⟩ 2 3 0 (some first.eventsHash) [[2], [3]])

theorem correctlyChained_pair [Sha256] :
    CorrectlyChained ⟨"node-a"⟩ [chainedPair.1, chainedPair.2] := by
  refine ⟨⟨"node-a", by decide⟩, fun m hm => ?_, fun m hm => ?_, fun m hm => ?_, ?_, ?_⟩
  · simp only [List.mem_cons, List.not_mem_nil, or_false] at hm
    rcases hm with rfl | rfl
    · exact ⟨by simp [chainedPair, SyncMessage.new], by simp [chainedPair, SyncMessage.new], rfl,
        by simp [chainedPair, SyncMessage.new, defaultMaxEvents],
        by simp [chainedPair, SyncMessage.new, maxReplicationRecordBytes], rfl, rfl⟩
    · exact ⟨by simp [chainedPair, SyncMessage.new], by simp [chainedPair, SyncMessage.new], rfl,
        by simp [chainedPair, SyncMessage.new, defaultMaxEvents],
        by simp [chainedPair, SyncMessage.new, maxReplicationRecordBytes], rfl, rfl⟩
  · simp only [List.mem_cons, List.not_mem_nil, or_false] at hm
    rcases hm with rfl | rfl <;> rfl
  · obtain rfl : chainedPair.1 = m := by simpa using hm
    rfl
  · exact .cons_cons ⟨rfl, rfl⟩ (.singleton _)
  · simp [chainedPair, SyncMessage.new]

open SyncLink in
/-- A run with a lost request and no lost response. -/
theorem front_deliverable_pair :
    letI := Sha256.fips
    let events := [.enqueue chainedPair.1, .enqueue chainedPair.2, .attempt .requestLost,
      .attempt .delivered]
    ∀ before, before <+: events → ∀ m,
      (start.run .default before).outbox.front = some m →
        ∃ ack, (applySyncMessage (start.run .default before).receiver m).1 = .ok ack := by
  let _ := Sha256.fips
  intro events
  have haccepted : (start.run .default events).accepted = [chainedPair.1, chainedPair.2] := by
    decide +kernel
  refine (front_deliverable_iff .default ⟨"node-a"⟩ events
    (haccepted ▸ correctlyChained_pair)).2 fun before hbefore => ?_
  have hmem := hbefore.subset (List.mem_append_right before (List.mem_singleton_self _))
  simp [events] at hmem

open SyncLink in
/-- The response to the first batch is lost; posting it again is rejected as a duplicate. -/
theorem lost_response_wedges :
    ¬ ∀ (_ : Sha256) (policy : SyncRetryPolicy) (source : NodeId) (events : List Event),
      CorrectlyChained source (start.run policy events).accepted →
      ∀ before, before <+: events → ∀ m, (start.run policy before).outbox.front = some m →
        ∃ ack, (applySyncMessage (start.run policy before).receiver m).1 = .ok ack := by
  intro h
  let _ := Sha256.fips
  let events := [Event.enqueue chainedPair.1, .enqueue chainedPair.2, .attempt .responseLost]
  have haccepted : (start.run .default events).accepted = [chainedPair.1, chainedPair.2] := by
    decide +kernel
  have hrejected : (applySyncMessage (start.run .default events).receiver chainedPair.1).1 =
      .error (.invalidSyncMessage "duplicate batch_id") := by decide +kernel
  have hfront : (start.run .default events).outbox.front = some chainedPair.1 := by
    decide +kernel
  obtain ⟨ack, hack⟩ := h Sha256.fips .default ⟨"node-a"⟩ events
    (haccepted ▸ correctlyChained_pair) events (List.prefix_refl _) _ hfront
  rw [hrejected] at hack
  simp at hack

end AppCore.Sync
