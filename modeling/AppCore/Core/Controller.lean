import AppCore.Base.Sha256
import AppCore.Core.Idempotency

/-!
# The runtime controller

`dispatch_command` of `controller.rs`. A command with an idempotency key is looked up first; a
record that is resolved answers for the handler, and a record that is not there is made pending
before the handler runs and resolved after it.

What the handlers answer and what the store finds outside of itself are arguments of a dispatch.
Events and audit records are written and never read here; they are left out, and so are the fields
of a command that only they carry. Results are stored as JSON text, which a third-party crate reads
and writes.
-/

namespace AppCore.Core

/-! ## Commands -/

structure CommandName where
  asStr : String
  deriving DecidableEq, Repr

structure CommandEnvelope where
  commandName : CommandName
  idempotencyKey : Option String
  payload : Bytes
  deriving DecidableEq

structure EventEnvelope where
  eventName : String
  eventId : String
  appId : String
  nodeId : String
  occurredAtMs : UInt64
  payload : Bytes
  deriving DecidableEq

structure CommandResult where
  accepted : Bool
  events : List EventEnvelope
  message : Option String
  deriving DecidableEq

/-- `CommandResult::accepted`. -/
def CommandResult.acceptedWith (events : List EventEnvelope) : CommandResult := ⟨true, events, none⟩

def CommandResult.rejected (message : String) : CommandResult := ⟨false, [], some message⟩

/-- The JSON text of a result. -/
class ResultJson where
  toString : CommandResult → Except String String
  fromStr : String → Except String CommandResult

/-! ## The controller -/

inductive RuntimeLifecycleState where
  | booting
  | loadingConfig
  | checkingSecurity
  | openingStorage
  | startingApi
  | running
  | degraded
  | restricted
  | shuttingDown
  | stopped
  deriving DecidableEq, Repr

/-- `RuntimeController`: the state of its lifecycle and the store. -/
structure RuntimeController (Store : Type) where
  lifecycle : RuntimeLifecycleState
  idempotency : Store

def checkLifecycleReadiness : RuntimeLifecycleState → Option CommandResult
  | .running => none
  | .degraded => none
  | .restricted => some (.rejected "runtime is restricted")
  | _ => some (.rejected "runtime is not ready")

def hashPayload [Sha256] (payload : Bytes) : String :=
  String.ofList (lowerHex (digest payload).toList)

/-- A command with everything its dispatch depends on: what the handlers answer when they are
invoked, what the calls of the store find, and the times of the records. -/
structure Dispatch (World : Type) where
  command : CommandEnvelope
  outcome : RuntimeResult CommandResult
  lookup : World
  before : World
  after : World
  pendingAtMs : UInt64
  resolvedAtMs : UInt64
  deriving DecidableEq

section

variable {Store World : Type} [Sha256] [ResultJson] [IdempotencyStore Store World]

/-- The result in a resolved record. -/
def replayOf (responseBody : String) : RuntimeResult CommandResult :=
  if responseBody = "" then .ok (.acceptedWith [])
  else match ResultJson.fromStr responseBody with
    | .error message => .error (.idempotencyStoreIo "deserialize_replay" message)
    | .ok result => .ok result

/-- `pre_dispatch`: the answer when the handler is not to be invoked. -/
def preDispatch (d : Dispatch World) (controller : RuntimeController Store) :
    RuntimeResult (Option (RuntimeResult CommandResult)) × RuntimeController Store :=
  match checkLifecycleReadiness controller.lifecycle with
  | some rejection => (.ok (some (.ok rejection)), controller)
  | none =>
    match d.command.idempotencyKey with
    | none => (.ok none, controller)
    | some key =>
      match IdempotencyStore.get d.lookup controller.idempotency key with
      | .error e => (.error e, controller)
      | .ok (some record) =>
        if record.requestHash ≠ hashPayload d.command.payload then
          (.error (.idempotencyConflict key), controller)
        else match record.status with
          | .pending => (.error (.idempotencyPending key), controller)
          | .resolved responseStatus responseBody =>
            if responseStatus ≥ 400 then
              let (result, store) := IdempotencyStore.remove d.before controller.idempotency key
              (result.map fun _ => none, { controller with idempotency := store })
            else ((replayOf responseBody).map fun result => some (.ok result), controller)
      | .ok none =>
        let record : IdempotencyRecord :=
          ⟨key, hashPayload d.command.payload, .pending, d.pendingAtMs⟩
        let (result, store) := IdempotencyStore.insert d.before controller.idempotency record
        (result.map fun _ => none, { controller with idempotency := store })

def postDispatch (d : Dispatch World) (controller : RuntimeController Store) :
    RuntimeResult Unit × RuntimeController Store :=
  match d.command.idempotencyKey with
  | none => (.ok (), controller)
  | some key =>
    match d.outcome with
    | .ok result =>
      match ResultJson.toString result with
      | .error message =>
        (.error (.idempotencyStoreIo "serialize_response" message), controller)
      | .ok responseBody =>
        let record : IdempotencyRecord := ⟨key, hashPayload d.command.payload,
          .resolved 200 responseBody, d.resolvedAtMs⟩
        let (result, store) := IdempotencyStore.insert d.after controller.idempotency record
        (result, { controller with idempotency := store })
    | .error _ =>
      let (result, store) := IdempotencyStore.remove d.after controller.idempotency key
      (result, { controller with idempotency := store })

def dispatchCommand (d : Dispatch World) (controller : RuntimeController Store) :
    RuntimeResult CommandResult × RuntimeController Store :=
  match preDispatch d controller with
  | (.error e, controller) => (.error e, controller)
  | (.ok (some answer), controller) => (answer, controller)
  | (.ok none, controller) =>
    match postDispatch d controller with
    | (.error e, controller) => (.error e, controller)
    | (.ok (), controller) => (d.outcome, controller)

/-! ## Runs -/

/-- The key under which a dispatch stored the result of its handler. -/
def resolvedKey (d : Dispatch World) (controller : RuntimeController Store) : Option String :=
  match preDispatch d controller, d.command.idempotencyKey, d.outcome with
  | (.ok none, controller), some key, .ok _ =>
    if (postDispatch d controller).1 = .ok () then some key else none
  | _, _, _ => none

/-- A controller with the command whose execution produced the stored result of each key. -/
structure Traced (Store : Type) where
  controller : RuntimeController Store
  producer : String → Option CommandEnvelope

def Traced.step (t : Traced Store) (d : Dispatch World) : Traced Store where
  controller := (dispatchCommand d t.controller).2
  producer := match resolvedKey d t.controller with
    | some key => Function.update t.producer key (some d.command)
    | none => t.producer

/-- The dispatches in their order, on a running controller. -/
def runDispatches (store : Store) (dispatches : List (Dispatch World)) : Traced Store :=
  dispatches.foldl Traced.step ⟨⟨.running, store⟩, fun _ => none⟩

/-- Every replay in a run is of a result that was produced for the same key, by a command of the
same name with the same payload. -/
def AnswersSame (store : Store) (dispatches : List (Dispatch World)) : Prop :=
  ∀ earlier d later, dispatches = earlier ++ d :: later → ∀ answer,
    (preDispatch d (runDispatches store earlier).controller).1 = .ok (some answer) →
    ∃ key source, d.command.idempotencyKey = some key ∧
      (runDispatches store earlier).producer key = some source ∧
      source.idempotencyKey = some key ∧
      source.commandName = d.command.commandName ∧ source.payload = d.command.payload

end

end AppCore.Core
