import AppCore.Sync.Outbox

/-!
# Clients that share an outbox

Any number of `FollowerSyncClient`s over one outbox. A client reads the front batch, posts it
without a lock on the outbox, and acknowledges it by its id later, while the others enqueue, post
and acknowledge too. The steps of the clients are interleaved freely, and the transport accepts or
fails each posting as it likes.

* `outbox_keeps_order` — when batch ids are distinct, the pending queue is always what was enqueued
  without a prefix, and every batch of the prefix was posted before it was removed.

Two clients may post the same batch. The first acknowledgement removes it; the second finds
another batch in front, whose id is not the one it acknowledges, and fails.
-/

namespace AppCore.Sync

/-! ## One client -/

/-- Where the flush of a client stands: `flush_lock` is free, or its holder is about to read the
front batch, to make an attempt (counted from one), or to acknowledge. -/
inductive FlushPhase where
  | idle
  | reading
  | sending (message : SyncMessage) (attempt : Nat)
  | acknowledging (message : SyncMessage)

/-- `FollowerSyncClient`, with the results of the calls that have returned. -/
structure FollowerSyncClient (Own : Type) where
  retryPolicy : SyncRetryPolicy
  outbox : Own
  metrics : SyncPushMetrics
  phase : FlushPhase
  returned : List (SyncResult Unit)

/-- What one attempt meets: whether the transport is cancelled before it, whether the posting
ends in a 2xx, and whether the transport is cancelled in the wait after it. -/
structure PostOutcome where
  cancelled : Bool
  accepted : Bool
  cancelledInWait : Bool
  deriving DecidableEq

/-- What a thread of a client does next. -/
inductive ClientAction where
  | push (message : SyncMessage)
  | flush
  | front
  | send (outcome : PostOutcome)
  | acknowledge
  deriving DecidableEq

/-- What a step tells of the batches: nothing, or that one was enqueued or posted with success. -/
inductive Happening where
  | nothing
  | enqueued (message : SyncMessage)
  | posted (message : SyncMessage)

namespace FollowerSyncClient

variable {Own Shared : Type}

/-- A call returns. -/
def answer (client : FollowerSyncClient Own) (result : SyncResult Unit) : FollowerSyncClient Own :=
  { client with returned := client.returned ++ [result] }

/-- The flush ends with a result, and its lock is free again. -/
def finish (client : FollowerSyncClient Own) (result : SyncResult Unit) : FollowerSyncClient Own :=
  { client with phase := .idle, returned := client.returned ++ [result] }

/-- The flush ends after a send that failed. -/
def giveUp (client : FollowerSyncClient Own) : FollowerSyncClient Own :=
  { client with metrics := { client.metrics with pushFailed := client.metrics.pushFailed + 1 } }.finish
    (.error (.transportFailed "sync push retry exhausted"))

/-- The enqueuing of `push_events`; its flush comes as steps of its own. -/
def push [SyncOutbox Own Shared] (client : FollowerSyncClient Own) (shared : Shared)
    (message : SyncMessage) : FollowerSyncClient Own × Shared × Happening :=
  match SyncOutbox.tryEnqueue client.outbox shared message client.retryPolicy.maxQueueLen with
  | (.error e, outbox, shared) => ({ client with outbox }.answer (.error e), shared, .nothing)
  | (.ok false, outbox, shared) =>
    let metrics := { client.metrics with pushDropped := client.metrics.pushDropped + 1 }
    ({ client with outbox, metrics }.answer (.error (.transportFailed "sync queue full")),
      shared, .nothing)
  | (.ok true, outbox, shared) => ({ client with outbox }, shared, .enqueued message)

/-- The head of the loop of `flush_queue`. -/
def readFront [SyncOutbox Own Shared] (client : FollowerSyncClient Own) (shared : Shared) :
    FollowerSyncClient Own × Shared × Happening :=
  match SyncOutbox.front client.outbox shared with
  | (.error e, outbox, shared) => ({ client with outbox }.finish (.error e), shared, .nothing)
  | (.ok none, outbox, shared) => ({ client with outbox }.finish (.ok ()), shared, .nothing)
  | (.ok (some message), outbox, shared) =>
    ({ client with outbox, phase := .sending message 1 }, shared, .nothing)

/-- One attempt of `try_send_with_retry`. -/
def send (client : FollowerSyncClient Own) (message : SyncMessage) (attempt : Nat)
    (outcome : PostOutcome) : FollowerSyncClient Own × Happening :=
  if outcome.cancelled then (client.giveUp, .nothing)
  else
    let client := { client with
      metrics := { client.metrics with pushAttempt := client.metrics.pushAttempt + 1 } }
    if outcome.accepted then ({ client with phase := .acknowledging message }, .posted message)
    else if attempt < max client.retryPolicy.maxAttempts 1 then
      if client.retryPolicy.backoffMs > 0 ∧ outcome.cancelledInWait then (client.giveUp, .nothing)
      else ({ client with phase := .sending message (attempt + 1) }, .nothing)
    else (client.giveUp, .nothing)

/-- The acknowledgement of `flush_queue`, which then goes on with its loop. -/
def acknowledge [SyncOutbox Own Shared] (client : FollowerSyncClient Own) (shared : Shared)
    (message : SyncMessage) : FollowerSyncClient Own × Shared × Happening :=
  match SyncOutbox.acknowledgeFront client.outbox shared message.batchId with
  | (.error e, outbox, shared) => ({ client with outbox }.finish (.error e), shared, .nothing)
  | (.ok (), outbox, shared) =>
    let metrics := { client.metrics with pushSuccess := client.metrics.pushSuccess + 1 }
    ({ client with outbox, metrics, phase := .reading }, shared, .nothing)

/-- One step of a client. An action that is not the next one of its flush does nothing; in
particular a second flush waits while one is running. -/
def step [SyncOutbox Own Shared] (client : FollowerSyncClient Own) (shared : Shared)
    (action : ClientAction) : FollowerSyncClient Own × Shared × Happening :=
  match action, client.phase with
  | .push message, _ => client.push shared message
  | .flush, .idle => ({ client with phase := .reading }, shared, .nothing)
  | .front, .reading => client.readFront shared
  | .send outcome, .sending message attempt =>
    let (client, happening) := client.send message attempt outcome
    (client, shared, happening)
  | .acknowledge, .acknowledging message => client.acknowledge shared message
  | _, _ => (client, shared, .nothing)

end FollowerSyncClient

/-! ## All clients -/

/-- The clients, what their outboxes share, and a record of the batches enqueued and posted so
far, in order. The record is not part of the program. -/
structure SyncClients (ι Own Shared : Type) where
  client : ι → FollowerSyncClient Own
  shared : Shared
  enqueued : List SyncMessage
  posted : List SyncMessage

namespace SyncClients

variable {ι Own Shared : Type} [DecidableEq ι] [SyncOutbox Own Shared]

/-- Clients that have done nothing yet, each with its own copy of the queue. -/
def start (policy : ι → SyncRetryPolicy) (own : ι → Own) (shared : Shared) :
    SyncClients ι Own Shared where
  client i := ⟨policy i, own i, ⟨0, 0, 0, 0⟩, .idle, []⟩
  shared := shared
  enqueued := []
  posted := []

/-- Write a happening down. -/
def record (system : SyncClients ι Own Shared) : Happening → SyncClients ι Own Shared
  | .nothing => system
  | .enqueued message => { system with enqueued := system.enqueued ++ [message] }
  | .posted message => { system with posted := system.posted ++ [message] }

/-- What a step of client `i` leaves. -/
def advance (system : SyncClients ι Own Shared) (i : ι)
    (after : FollowerSyncClient Own × Shared × Happening) : SyncClients ι Own Shared :=
  { system with
    client := Function.update system.client i after.1
    shared := after.2.1 }.record after.2.2

def step (system : SyncClients ι Own Shared) (event : ι × ClientAction) :
    SyncClients ι Own Shared :=
  system.advance event.1 ((system.client event.1).step system.shared event.2)

/-- An interleaving of steps. -/
def run (system : SyncClients ι Own Shared) (events : List (ι × ClientAction)) :
    SyncClients ι Own Shared :=
  events.foldl step system

omit [SyncOutbox Own Shared] in
@[simp] theorem client_advance (system : SyncClients ι Own Shared) (i : ι)
    (after : FollowerSyncClient Own × Shared × Happening) :
    (system.advance i after).client = Function.update system.client i after.1 := by
  rcases after with ⟨client, shared, _ | _ | _⟩ <;> rfl

omit [SyncOutbox Own Shared] in
@[simp] theorem shared_advance (system : SyncClients ι Own Shared) (i : ι)
    (after : FollowerSyncClient Own × Shared × Happening) :
    (system.advance i after).shared = after.2.1 := by
  rcases after with ⟨client, shared, _ | _ | _⟩ <;> rfl

/-- Every client sees this queue as the pending one. -/
def Pending (system : SyncClients ι Own Shared) (queue : List SyncMessage) : Prop :=
  ∀ own : Own, (SyncOutbox.messages own system.shared).1 = .ok queue

end SyncClients

/-! ## What a client's step does -/

/-- The batch a flush is busy with. -/
def FlushPhase.batch : FlushPhase → Option SyncMessage
  | .sending message _ => some message
  | .acknowledging message => some message
  | _ => none

/-- What one step of a client does to its phase and to the queue, and what it tells. -/
inductive Effect (maxLen : Nat) (phase : FlushPhase) (queue : List SyncMessage) :
    FlushPhase → List SyncMessage → Happening → Prop where
  | pause {phase' : FlushPhase} (h : phase' = phase ∨ phase' = .idle ∨ phase' = .reading) :
      Effect maxLen phase queue phase' queue .nothing
  | enqueue (message : SyncMessage) (hroom : queue.length < maxLen) :
      Effect maxLen phase queue phase (queue ++ [message]) (.enqueued message)
  | front {message : SyncMessage} (hfront : queue.head? = some message) :
      Effect maxLen phase queue (.sending message 1) queue .nothing
  | retry {message : SyncMessage} {attempt : Nat} (hphase : phase = .sending message attempt) :
      Effect maxLen phase queue (.sending message (attempt + 1)) queue .nothing
  | post {message : SyncMessage} {attempt : Nat} (hphase : phase = .sending message attempt) :
      Effect maxLen phase queue (.acknowledging message) queue (.posted message)
  | remove {message first : SyncMessage} {rest : List SyncMessage}
      (hphase : phase = .acknowledging message) (hqueue : queue = first :: rest)
      (hid : first.batchId = message.batchId) : Effect maxLen phase queue .reading rest .nothing

/-- The step ends with the queue stored and has one of the effects. -/
structure Affects {Own Shared : Type} [SyncOutbox Own Shared] [LawfulOutbox Own Shared]
    (client : FollowerSyncClient Own) (queue : List SyncMessage)
    (after : FollowerSyncClient Own × Shared × Happening) (queue' : List SyncMessage) : Prop where
  stores : LawfulOutbox.Stores Own after.2.1 queue'
  policy : after.1.retryPolicy = client.retryPolicy
  effect : Effect client.retryPolicy.maxQueueLen client.phase queue after.1.phase queue' after.2.2

section Client

variable {Own Shared : Type} [SyncOutbox Own Shared] [LawfulOutbox Own Shared]
  (client : FollowerSyncClient Own) {shared : Shared} {queue : List SyncMessage}

theorem push_affects (h : LawfulOutbox.Stores Own shared queue) (message : SyncMessage) :
    ∃ queue', Affects client queue (client.push shared message) queue' := by
  rw [FollowerSyncClient.push]
  by_cases hroom : queue.length < client.retryPolicy.maxQueueLen
  · rcases LawfulOutbox.tryEnqueue_room client.outbox message h hroom with
      ⟨outbox, shared', hstep, hstores⟩ | ⟨e, outbox, hstep⟩
    · rw [hstep]
      exact ⟨_, hstores, rfl, .enqueue message hroom⟩
    · rw [hstep]
      exact ⟨_, h, rfl, .pause (.inl rfl)⟩
  · obtain ⟨outbox, hstep⟩ :=
      LawfulOutbox.tryEnqueue_full client.outbox message h (Nat.not_lt.1 hroom)
    rw [hstep]
    exact ⟨_, h, rfl, .pause (.inl rfl)⟩

theorem readFront_affects (h : LawfulOutbox.Stores Own shared queue) :
    ∃ queue', Affects client queue (client.readFront shared) queue' := by
  obtain ⟨outbox, hstep⟩ := LawfulOutbox.front_eq client.outbox h
  rw [FollowerSyncClient.readFront, hstep]
  cases hfront : queue.head? with
  | none => exact ⟨_, h, rfl, .pause (.inr (.inl rfl))⟩
  | some message => exact ⟨_, h, rfl, .front hfront⟩

theorem send_affects (h : LawfulOutbox.Stores Own shared queue) {message : SyncMessage}
    {attempt : Nat} (hphase : client.phase = .sending message attempt) (outcome : PostOutcome) :
    ∃ queue', Affects client queue
      ((client.send message attempt outcome).1, shared, (client.send message attempt outcome).2)
      queue' := by
  refine ⟨queue, ?_⟩
  unfold FollowerSyncClient.send
  split
  · exact ⟨h, rfl, .pause (.inr (.inl rfl))⟩
  dsimp only
  split
  · exact ⟨h, rfl, .post hphase⟩
  split
  · split
    · exact ⟨h, rfl, .pause (.inr (.inl rfl))⟩
    · exact ⟨h, rfl, .retry hphase⟩
  · exact ⟨h, rfl, .pause (.inr (.inl rfl))⟩

theorem acknowledge_affects (h : LawfulOutbox.Stores Own shared queue) {message : SyncMessage}
    (hphase : client.phase = .acknowledging message) :
    ∃ queue', Affects client queue (client.acknowledge shared message) queue' := by
  rw [FollowerSyncClient.acknowledge]
  by_cases hid : queue.head?.map (·.batchId) = some message.batchId
  · cases queue with
    | nil => simp at hid
    | cons first rest =>
      have hid : first.batchId = message.batchId := by simpa using hid
      obtain ⟨outbox, shared', hstep, hstores⟩ :=
        LawfulOutbox.acknowledge_front client.outbox h
      rw [← hid, hstep]
      exact ⟨rest, hstores, rfl, .remove hphase rfl hid⟩
  · obtain ⟨e, outbox, hstep⟩ := LawfulOutbox.acknowledge_other client.outbox h hid
    rw [hstep]
    exact ⟨_, h, rfl, .pause (.inr (.inl rfl))⟩

theorem step_affects (h : LawfulOutbox.Stores Own shared queue) (action : ClientAction) :
    ∃ queue', Affects client queue (client.step shared action) queue' := by
  have hwait : Affects client queue (client, shared, .nothing) queue :=
    ⟨h, rfl, .pause (.inl rfl)⟩
  unfold FollowerSyncClient.step
  split
  · exact push_affects client h _
  · exact ⟨queue, h, rfl, .pause (.inr (.inr rfl))⟩
  · exact readFront_affects client h
  · rename_i hphase
    exact send_affects client h hphase _
  · rename_i hphase
    exact acknowledge_affects client h hphase
  · exact ⟨queue, hwait⟩

end Client

/-! ## The invariant -/

namespace SyncClients

variable {ι Own Shared : Type} [DecidableEq ι] [SyncOutbox Own Shared]

/-- What a reader of the outbox can rely on: the pending queue is what was enqueued without the
removed batches in front, every one of which was posted, and no longer than the longest queue
any client may make. -/
structure InOrder (system : SyncClients ι Own Shared) (removed queue : List SyncMessage) :
    Prop where
  pending : system.Pending queue
  enqueued : system.enqueued = removed ++ queue
  posted : ∀ message ∈ removed, message ∈ system.posted
  bounded : ∀ n, (∀ i, (system.client i).retryPolicy.maxQueueLen ≤ n) → queue.length ≤ n

/-- What a step of client `i` may do to the pending queue: nothing, add a batch behind it while
it is below the client's limit, or remove the batch in front, which was posted before. -/
def Moves (before after : SyncClients ι Own Shared) (i : ι) (queue queue' : List SyncMessage) :
    Prop :=
  (queue' = queue ∧ after.enqueued = before.enqueued) ∨
  (∃ message, queue' = queue ++ [message] ∧ after.enqueued = before.enqueued ++ [message] ∧
    queue'.length ≤ (before.client i).retryPolicy.maxQueueLen) ∨
  ∃ message, queue = message :: queue' ∧ message ∈ before.posted ∧
    after.enqueued = before.enqueued

/-- The batches enqueued so far have distinct ids. -/
def DistinctIds (system : SyncClients ι Own Shared) : Prop :=
  (system.enqueued.map (·.batchId)).Nodup

theorem run_snoc (system : SyncClients ι Own Shared) (events : List (ι × ClientAction))
    (event : ι × ClientAction) :
    system.run (events ++ [event]) = (system.run events).step event := by
  simp [run]

omit [SyncOutbox Own Shared] in
theorem enqueued_advance (system : SyncClients ι Own Shared) (i : ι)
    (after : FollowerSyncClient Own × Shared × Happening) :
    system.enqueued <+: (system.advance i after).enqueued := by
  rcases after with ⟨client, shared, _ | message | _⟩
  · exact List.prefix_rfl
  · exact List.prefix_append _ _
  · exact List.prefix_rfl

theorem DistinctIds.of_step {system : SyncClients ι Own Shared} {event : ι × ClientAction}
    (h : (system.step event).DistinctIds) : system.DistinctIds := by
  have hinit := (enqueued_advance system event.1
    ((system.client event.1).step system.shared event.2)).map (·.batchId)
  exact h.sublist hinit.sublist

variable [LawfulOutbox Own Shared]

/-- The invariant of a run. A client only posts batches that were enqueued, and only acknowledges
batches that it posted. -/
structure Invariant (system : SyncClients ι Own Shared) (removed queue : List SyncMessage) :
    Prop where
  stores : LawfulOutbox.Stores Own system.shared queue
  enqueued : system.enqueued = removed ++ queue
  posted : ∀ message ∈ removed, message ∈ system.posted
  bounded : ∀ n, (∀ i, (system.client i).retryPolicy.maxQueueLen ≤ n) → queue.length ≤ n
  batch : ∀ i message, (system.client i).phase.batch = some message → message ∈ system.enqueued
  acknowledged : ∀ i message, (system.client i).phase = .acknowledging message →
    message ∈ system.posted

omit [DecidableEq ι] in
theorem Invariant.inOrder {system : SyncClients ι Own Shared} {removed queue : List SyncMessage}
    (h : system.Invariant removed queue) : system.InOrder removed queue :=
  ⟨fun own => LawfulOutbox.messages_eq own h.stores, h.enqueued, h.posted, h.bounded⟩

omit [DecidableEq ι] in
theorem invariant_start (policy : ι → SyncRetryPolicy) (own : ι → Own) {shared : Shared}
    (h : LawfulOutbox.Stores Own shared []) : (start policy own shared).Invariant [] [] where
  stores := h
  enqueued := rfl
  posted := by simp
  bounded := by simp
  batch i message h := by simp [start, FlushPhase.batch] at h
  acknowledged i message h := by simp [start] at h

/-- What is left to show after a step of client `i`: the other clients did not change. -/
theorem Invariant.advance {system : SyncClients ι Own Shared} {i : ι}
    {after : FollowerSyncClient Own × Shared × Happening}
    {removed removed' queue queue' : List SyncMessage} (h : system.Invariant removed queue)
    (ha : Affects (system.client i) queue after queue')
    (hgrows : system.enqueued ⊆ (system.advance i after).enqueued)
    (hposts : system.posted ⊆ (system.advance i after).posted)
    (henqueued : (system.advance i after).enqueued = removed' ++ queue')
    (hposted : ∀ message ∈ removed', message ∈ (system.advance i after).posted)
    (hlength : queue'.length ≤ queue.length ∨
      queue'.length ≤ (system.client i).retryPolicy.maxQueueLen)
    (hbatch : ∀ message, after.1.phase.batch = some message →
      message ∈ (system.advance i after).enqueued)
    (hack : ∀ message, after.1.phase = .acknowledging message →
      message ∈ (system.advance i after).posted) :
    (system.advance i after).Invariant removed' queue' where
  stores := by
    rw [shared_advance]
    exact ha.stores
  enqueued := henqueued
  posted := hposted
  bounded n hn := by
    have hn' (j : ι) : (system.client j).retryPolicy.maxQueueLen ≤ n := by
      have hj := hn j
      rw [client_advance] at hj
      by_cases hji : j = i
      · subst hji
        rw [Function.update_self, ha.policy] at hj
        exact hj
      · rwa [Function.update_of_ne hji] at hj
    rcases hlength with hle | hle
    · exact hle.trans (h.bounded n hn')
    · exact hle.trans (hn' i)
  batch j message hj := by
    rw [client_advance] at hj
    by_cases hji : j = i
    · subst hji
      rw [Function.update_self] at hj
      exact hbatch message hj
    · rw [Function.update_of_ne hji] at hj
      exact hgrows (h.batch j message hj)
  acknowledged j message hj := by
    rw [client_advance] at hj
    by_cases hji : j = i
    · subst hji
      rw [Function.update_self] at hj
      exact hack message hj
    · rw [Function.update_of_ne hji] at hj
      exact hposts (h.acknowledged j message hj)

/-- **Step.** The invariant is kept, and the queue moves in one of the three ways. -/
theorem invariant_advance {system : SyncClients ι Own Shared} {i : ι}
    {after : FollowerSyncClient Own × Shared × Happening}
    {removed queue queue' : List SyncMessage} (h : system.Invariant removed queue)
    (hids : system.DistinctIds) (ha : Affects (system.client i) queue after queue') :
    ∃ removed', (system.advance i after).Invariant removed' queue' ∧
      Moves system (system.advance i after) i queue queue' := by
  have hbatch := h.batch i
  have hacknowledged := h.acknowledged i
  have heffect := ha.effect
  rcases after with ⟨client, shared, happening⟩
  generalize hphase : (system.client i).phase = phase at heffect hbatch hacknowledged
  generalize hphase' : client.phase = phase' at heffect
  generalize hh : (client, shared, happening).2.2 = happening' at heffect
  cases heffect with
  | pause hkeeps =>
    obtain rfl : happening = .nothing := hh
    refine ⟨removed, h.advance ha (List.Subset.refl _) (List.Subset.refl _) h.enqueued h.posted
      (.inl le_rfl) (fun message hm => ?_) (fun message hm => ?_), .inl ⟨rfl, rfl⟩⟩
    · rw [hphase'] at hm
      rcases hkeeps with rfl | rfl | rfl
      · exact hbatch message hm
      · simp [FlushPhase.batch] at hm
      · simp [FlushPhase.batch] at hm
    · rw [hphase'] at hm
      rcases hkeeps with rfl | rfl | rfl
      · exact hacknowledged message hm
      · simp at hm
      · simp at hm
  | enqueue message hroom =>
    obtain rfl : happening = .enqueued message := hh
    have hlength : (queue ++ [message]).length ≤
        (system.client i).retryPolicy.maxQueueLen := by
      simpa using hroom
    refine ⟨removed, h.advance ha (List.subset_append_left _ _) (List.Subset.refl _) ?_ h.posted
      (.inr hlength) (fun m hm => ?_) (fun m hm => ?_), .inr (.inl ⟨message, rfl, rfl, hlength⟩)⟩
    · rw [← List.append_assoc, ← h.enqueued]
      rfl
    · rw [hphase'] at hm
      exact List.mem_append_left _ (hbatch m hm)
    · rw [hphase'] at hm
      exact hacknowledged m hm
  | @front message hfront =>
    obtain rfl : happening = .nothing := hh
    refine ⟨removed, h.advance ha (List.Subset.refl _) (List.Subset.refl _) h.enqueued h.posted
      (.inl le_rfl) (fun m hm => ?_) (fun m hm => ?_), .inl ⟨rfl, rfl⟩⟩
    · rw [hphase'] at hm
      obtain rfl : message = m := Option.some.inj hm
      show message ∈ system.enqueued
      rw [h.enqueued]
      exact List.mem_append_right _ (List.mem_of_head? hfront)
    · rw [hphase'] at hm
      simp at hm
  | @retry message attempt hsending =>
    obtain rfl : happening = .nothing := hh
    subst hsending
    refine ⟨removed, h.advance ha (List.Subset.refl _) (List.Subset.refl _) h.enqueued h.posted
      (.inl le_rfl) (fun m hm => ?_) (fun m hm => ?_), .inl ⟨rfl, rfl⟩⟩
    · rw [hphase'] at hm
      exact hbatch m hm
    · rw [hphase'] at hm
      simp at hm
  | @post message attempt hsending =>
    obtain rfl : happening = .posted message := hh
    subst hsending
    refine ⟨removed, h.advance ha (List.Subset.refl _) (List.subset_append_left _ _) h.enqueued
      (fun m hm => List.mem_append_left _ (h.posted m hm)) (.inl le_rfl)
      (fun m hm => ?_) (fun m hm => ?_), .inl ⟨rfl, rfl⟩⟩
    · rw [hphase'] at hm
      exact hbatch m hm
    · rw [hphase'] at hm
      obtain rfl : message = m := FlushPhase.acknowledging.inj hm
      exact List.mem_append_right _ (List.mem_singleton_self _)
  | @remove message first rest hacking hqueue hid =>
    obtain rfl : happening = .nothing := hh
    subst hqueue hacking
    -- the batch in front and the acknowledged one were both enqueued, under one id
    have hsame : first = message := by
      have hfirst : first ∈ system.enqueued := by simp [h.enqueued]
      exact List.inj_on_of_nodup_map hids hfirst (hbatch message rfl) hid
    have hpost : first ∈ system.posted := by
      rw [hsame]
      exact hacknowledged message rfl
    refine ⟨removed ++ [first], h.advance ha (List.Subset.refl _) (List.Subset.refl _) ?_ ?_
      (.inl (by simp)) (fun m hm => ?_) (fun m hm => ?_),
      .inr (.inr ⟨first, rfl, hpost, rfl⟩)⟩
    · rw [List.append_assoc]
      exact h.enqueued
    · intro m hm
      rcases List.mem_append.1 hm with hm | hm
      · exact h.posted m hm
      · rw [List.mem_singleton.1 hm]
        exact hpost
    · rw [hphase'] at hm
      simp [FlushPhase.batch] at hm
    · rw [hphase'] at hm
      simp at hm

/-! ## Runs -/

theorem invariant_run {system : SyncClients ι Own Shared} (hstart : system.Invariant [] [])
    (events : List (ι × ClientAction)) (hids : (system.run events).DistinctIds) :
    ∃ removed queue, (system.run events).Invariant removed queue := by
  induction events using List.reverseRecOn with
  | nil => exact ⟨[], [], hstart⟩
  | append_singleton events event ih =>
    rw [run_snoc] at hids ⊢
    obtain ⟨removed, queue, hinv⟩ := ih hids.of_step
    obtain ⟨queue', ha⟩ := step_affects ((system.run events).client event.1) hinv.stores event.2
    obtain ⟨removed', hinv', -⟩ := invariant_advance hinv hids.of_step ha
    exact ⟨removed', queue', hinv'⟩

/-- No batch is lost or reordered: after every interleaving in which the enqueued batches have
distinct ids, the pending queue is in order, and the next step of any client moves it in one of
the three ways. -/
def NoLoss (system : SyncClients ι Own Shared) : Prop :=
  ∀ events : List (ι × ClientAction), (system.run events).DistinctIds →
    ∃ removed queue, (system.run events).InOrder removed queue ∧
      ∀ i action, ∃ queue', ((system.run events).step (i, action)).Pending queue' ∧
        Moves (system.run events) ((system.run events).step (i, action)) i queue queue'

theorem noLoss_of_stores (policy : ι → SyncRetryPolicy) (own : ι → Own) {shared : Shared}
    (h : LawfulOutbox.Stores Own shared []) : (start policy own shared).NoLoss := by
  intro events hids
  obtain ⟨removed, queue, hinv⟩ := invariant_run (invariant_start policy own h) events hids
  refine ⟨removed, queue, hinv.inOrder, ?_⟩
  intro i action
  obtain ⟨queue', ha⟩ := step_affects (((start policy own shared).run events).client i)
    hinv.stores action
  obtain ⟨removed', hinv', hmoves⟩ := invariant_advance hinv hids ha
  exact ⟨queue', hinv'.inOrder.pending, hmoves⟩

end SyncClients

/-- **No batch is lost or reordered**, by any number of clients that share an in-memory outbox or
the file of a durable one, whatever the copies of the queue their instances hold. -/
theorem outbox_keeps_order [MessageJson] {ι : Type} [DecidableEq ι] (policy : ι → SyncRetryPolicy) :
    (SyncClients.start policy (fun _ => ()) (⟨[]⟩ : InMemorySyncOutbox)).NoLoss ∧
    ∃ outbox file, FileSyncOutbox.new none = .ok (outbox, file) ∧
      ∀ copies : ι → FileSyncOutbox, (SyncClients.start policy copies file).NoLoss := by
  refine ⟨SyncClients.noLoss_of_stores policy _ rfl, _, _, new_none, fun copies => ?_⟩
  exact SyncClients.noLoss_of_stores policy copies storedQueue_empty

/-- A batch with one event. -/
def smallBatch (batchId : String) : SyncMessage :=
  ⟨batchId, ⟨"leader"⟩, 1, 1, 1, "", 0, none, [[7]]⟩

/-- Two clients post the same batch, and the second acknowledgement fails. -/
def racingClients : List (Bool × ClientAction) :=
  [(true, .push (smallBatch "a")), (false, .push (smallBatch "b")), (true, .flush), (false, .flush),
    (true, .front), (false, .front), (true, .send ⟨false, true, false⟩),
    (false, .send ⟨false, true, false⟩), (true, .acknowledge), (false, .acknowledge)]

theorem outbox_keeps_order_racing : ∃ json : MessageJson, json = messageJson ∧
    ((SyncClients.start (fun _ => .default) (fun _ => ()) (⟨[]⟩ : InMemorySyncOutbox)).run
      racingClients).posted = [smallBatch "a", smallBatch "a"] ∧
    (∃ removed, ((SyncClients.start (fun _ => .default) (fun _ => ())
      (⟨[]⟩ : InMemorySyncOutbox)).run racingClients).InOrder removed [smallBatch "b"]) ∧
    ∃ file, FileSyncOutbox.new none = .ok (⟨[]⟩, file) ∧
      (SyncClients.start (fun _ : Bool => .default) (fun _ => (⟨[]⟩ : FileSyncOutbox)) file).NoLoss := by
  refine ⟨messageJson, rfl, by decide, ?_⟩
  obtain ⟨hmemory, outbox, file, hnew, hfile⟩ :=
    @outbox_keeps_order messageJson Bool _ fun _ => .default
  rw [@new_none messageJson] at hnew
  obtain ⟨rfl, rfl⟩ := Prod.mk.inj (Except.ok.inj hnew)
  refine ⟨?_, _, @new_none messageJson, hfile _⟩
  have hids : ((SyncClients.start (fun _ => .default) (fun _ => ())
      (⟨[]⟩ : InMemorySyncOutbox)).run racingClients).DistinctIds := by
    unfold SyncClients.DistinctIds
    decide
  obtain ⟨removed, queue, horder, -⟩ := hmemory racingClients hids
  have hqueue : (.ok [smallBatch "b"] : SyncResult (List SyncMessage)) = .ok queue :=
    (show (SyncOutbox.messages () ((SyncClients.start (fun _ => .default) (fun _ => ())
      (⟨[]⟩ : InMemorySyncOutbox)).run racingClients).shared).1 = _ by decide).symm.trans
      (horder.pending ())
  obtain rfl := Except.ok.inj hqueue
  exact ⟨removed, horder⟩

end AppCore.Sync
