import AppCore.Base.Runs
import AppCore.Core.Controller

/-!
# Dispatch of commands and queries over HTTP

`command.rs` and `query.rs` of the HTTP endpoint, and `pre_dispatch` and `post_dispatch` of the
controller with what they push to the audit log and emit on the event bus: a list of effects beside
the answer. Forgetting the effects gives the controller of `Core.Controller`.

What the capability policy, the handlers and the query dispatch answer are arguments of a request.
The trace of an entry, the time it is completed at and the redaction of its message are left out,
and so is the payload of a query response.
-/

namespace AppCore.Api

open AppCore.Core

/-! ## The audit log -/

inductive AuditCategory where
  | command
  | query
  | event
  | scheduler
  | controlPlane
  | peerRpc
  | runtime
  deriving DecidableEq, Repr

inductive AuditOutcome where
  | accepted
  | rejected
  | error
  deriving DecidableEq, Repr

structure AuditEntry where
  category : AuditCategory
  operationId : String
  operationName : String
  appId : Option String
  nodeId : Option String
  startedAtMs : UInt64
  outcome : AuditOutcome
  message : Option String
  deriving DecidableEq, Repr

/-- What a request does beside its answer: it pushes an entry, or emits events. -/
inductive Effect where
  | pushEntry (entry : AuditEntry)
  | emitMany (events : List EventEnvelope)
  deriving DecidableEq

def entriesOf (category : AuditCategory) (effects : List Effect) : List AuditEntry :=
  effects.filterMap fun
    | .pushEntry entry => if entry.category = category then some entry else none
    | .emitMany _ => none

def emittedIn (effects : List Effect) : List EventEnvelope :=
  effects.flatMap fun
    | .pushEntry _ => []
    | .emitMany events => events

/-! ## Requests -/

inductive CommandCapabilityPolicyError where
  | capabilityNotDeclared
  | missingIdempotencyKey
  | requiresLeader
  | leaseExpired
  | staleEpoch
  | readOnly
  | rejected (message : String)
  deriving DecidableEq, Repr

/-- A command that reaches `dispatch_command_request`: its envelope, the identity of the runtime,
what the policy says, and everything the dispatch depends on. -/
structure Command (World : Type) where
  dispatch : Dispatch World
  commandId : String
  appId : String
  nodeId : String
  issuedAtMs : UInt64
  policyError : Option CommandCapabilityPolicyError

structure CommandResponseEvent where
  eventName : String
  eventId : String
  deriving DecidableEq, Repr

structure CommandResponse where
  accepted : Bool
  message : Option String
  events : List CommandResponseEvent
  deriving DecidableEq, Repr

inductive CommandDispatchError where
  | runtime (error : Core.RuntimeError)
  | policy (error : CommandCapabilityPolicyError)
  deriving DecidableEq, Repr

def commandResultToResponse (result : CommandResult) : CommandResponse :=
  let events := result.events.map fun event => ⟨event.eventName, event.eventId⟩
  if result.accepted then { accepted := true, message := none, events }
  else { accepted := false, message := result.message, events }

/-- The text that an error is written with. -/
class DebugText where
  ofRuntimeError : Core.RuntimeError → String

section

variable {Store World : Type} [Sha256] [ResultJson] [IdempotencyStore Store World] [DebugText]

/-! ## The controller -/

def recordAudit (c : Command World) (dispatchResult : Core.RuntimeResult CommandResult) : Effect :=
  .pushEntry
    { category := .command
      operationId := c.commandId
      operationName := c.dispatch.command.commandName.asStr
      appId := some c.appId
      nodeId := some c.nodeId
      startedAtMs := c.issuedAtMs
      outcome := match dispatchResult with
        | .ok result => if result.accepted then .accepted else .rejected
        | .error _ => .error
      message := match dispatchResult with
        | .ok result => result.message
        | .error error => some (DebugText.ofRuntimeError error) }

def eventEntry (event : EventEnvelope) : AuditEntry :=
  { category := .event
    operationId := event.eventId
    operationName := event.eventName
    appId := some event.appId
    nodeId := some event.nodeId
    startedAtMs := event.occurredAtMs
    outcome := .accepted
    message := none }

def emitEventsAndAudit (c : Command World) (dispatchResult : Core.RuntimeResult CommandResult) :
    List Effect :=
  let emitted := match dispatchResult with
    | .ok result =>
      if result.accepted then
        result.events.map (fun event => .pushEntry (eventEntry event)) ++ [.emitMany result.events]
      else []
    | .error _ => []
  emitted ++ [recordAudit c dispatchResult]

/-- `pre_dispatch`. -/
def preDispatchAudited (c : Command World) (controller : RuntimeController Store) :
    (Core.RuntimeResult (Option (Core.RuntimeResult CommandResult)) × RuntimeController Store) ×
      List Effect :=
  match checkLifecycleReadiness controller.lifecycle with
  | some rejection => ((.ok (some (.ok rejection)), controller), [recordAudit c (.ok rejection)])
  | none =>
    match c.dispatch.command.idempotencyKey with
    | none => ((.ok none, controller), [])
    | some key =>
      match IdempotencyStore.get c.dispatch.lookup controller.idempotency key with
      | .error e => ((.error e, controller), [])
      | .ok (some record) =>
        if record.requestHash ≠ hashPayload c.dispatch.command.payload then
          ((.error (.idempotencyConflict key), controller),
            [recordAudit c (.error (.idempotencyConflict key))])
        else match record.status with
          | .pending =>
            ((.error (.idempotencyPending key), controller),
              [recordAudit c (.error (.idempotencyPending key))])
          | .resolved responseStatus responseBody =>
            if responseStatus ≥ 400 then
              let (result, store) :=
                IdempotencyStore.remove c.dispatch.before controller.idempotency key
              ((result.map fun _ => none, { controller with idempotency := store }), [])
            else
              match replayOf responseBody with
              | .error e => ((.error e, controller), [])
              | .ok result =>
                ((.ok (some (.ok result)), controller), [recordAudit c (.ok result)])
      | .ok none =>
        let record : IdempotencyRecord :=
          ⟨key, hashPayload c.dispatch.command.payload, .pending, c.dispatch.pendingAtMs⟩
        let (result, store) :=
          IdempotencyStore.insert c.dispatch.before controller.idempotency record
        ((result.map fun _ => none, { controller with idempotency := store }), [])

/-- `post_dispatch`: the outcome is stored, then events are emitted and the command is audited. -/
def postDispatchAudited (c : Command World) (controller : RuntimeController Store) :
    (Core.RuntimeResult Unit × RuntimeController Store) × List Effect :=
  match postDispatch c.dispatch controller with
  | (.error e, controller) => ((.error e, controller), [])
  | (.ok (), controller) => ((.ok (), controller), emitEventsAndAudit c c.dispatch.outcome)

def commandResponse (result : Core.RuntimeResult CommandResult) :
    Except CommandDispatchError CommandResponse :=
  match result with
  | .error e => .error (.runtime e)
  | .ok result => .ok (commandResultToResponse result)

def dispatchCommandRequest (c : Command World) (controller : RuntimeController Store) :
    (Except CommandDispatchError CommandResponse × RuntimeController Store) × List Effect :=
  match c.policyError with
  | some e => ((.error (.policy e), controller), [])
  | none =>
    match preDispatchAudited c controller with
    | ((.error e, controller), effects) => ((.error (.runtime e), controller), effects)
    | ((.ok (some outcome), controller), effects) =>
      ((commandResponse outcome, controller), effects)
    | ((.ok none, controller), effects) =>
      match postDispatchAudited c controller with
      | ((.error e, controller), later) => ((.error (.runtime e), controller), effects ++ later)
      | ((.ok (), controller), later) =>
        ((commandResponse c.dispatch.outcome, controller), effects ++ later)

end

/-! ## Queries -/

structure QueryResponse where
  ok : Bool
  message : Option String
  deriving DecidableEq, Repr

def QueryResponse.rejected (message : String) : QueryResponse :=
  { ok := false, message := some message }

/-- How `dispatch_query_request` ends on its thread. -/
inductive QueryDispatch where
  | answered (response : QueryResponse)
  | failed (status : UInt16)
  | panicked
  deriving DecidableEq, Repr

/-- A query with a valid envelope and trace: whether it is authorized, what the capability policy
says, and how its dispatch ends. -/
structure Query where
  queryId : String
  queryName : String
  startedAtMs : UInt64
  appId : String
  nodeId : String
  unauthorized : Option (UInt16 × QueryResponse)
  policyError : Option CommandCapabilityPolicyError
  dispatch : QueryDispatch

def isRuntimeQuery (name : String) : Bool :=
  name ∈ ["runtime.status", "runtime.sync", "runtime.idempotency", "runtime.audit",
    "runtime.events"]

def mapQueryPolicyError : CommandCapabilityPolicyError → UInt16 × QueryResponse
  | .capabilityNotDeclared => (403, .rejected "capability_not_declared")
  | .missingIdempotencyKey => (400, .rejected "missing_idempotency_key")
  | .requiresLeader => (409, .rejected "requires_leader")
  | .leaseExpired => (409, .rejected "leader_lease_expired")
  | .staleEpoch => (409, .rejected "leader_lease_stale_epoch")
  | .readOnly => (403, .rejected "operation_mode_read_only")
  | .rejected _ => (403, .rejected "capability_rejected")

def auditQuery (q : Query) (outcome : AuditOutcome) (message : Option String) : Effect :=
  .pushEntry
    { category := .query
      operationId := q.queryId
      operationName := q.queryName
      appId := some q.appId
      nodeId := some q.nodeId
      startedAtMs := q.startedAtMs
      outcome
      message }

/-- The error of `authorize_application_capability`. -/
def Query.capabilityError (q : Query) : Option CommandCapabilityPolicyError :=
  if isRuntimeQuery q.queryName then none else q.policyError

/-- The text of an HTTP status in the audit message. -/
def queryFailedMessage (status : UInt16) : String := s!"query failed with HTTP status {status.toNat}"

/-- `query_handler`, from its authorization on. -/
def queryHandler (q : Query) : (UInt16 × QueryResponse) × List Effect :=
  match q.unauthorized with
  | some response => (response, [auditQuery q .rejected (some "query authorization rejected")])
  | none =>
    match q.capabilityError with
    | some e =>
      (mapQueryPolicyError e, [auditQuery q .rejected (some "query capability policy rejected")])
    | none =>
      match q.dispatch with
      | .answered response =>
        ((200, response),
          [auditQuery q (if response.ok then .accepted else .rejected) response.message])
      | .failed status =>
        ((status, .rejected "query request invalid"),
          [auditQuery q .error (some (queryFailedMessage status))])
      | .panicked =>
        ((500, .rejected "query dispatch failed"),
          [auditQuery q .error (some "query dispatch failed")])

/-- What happens at the endpoint: a command, a query, or a change of the lifecycle. -/
inductive ApiStep (World : Type) where
  | command (c : Command World)
  | query (q : Query)
  | lifecycle (state : RuntimeLifecycleState)

section

variable {Store World : Type} [Sha256] [ResultJson] [IdempotencyStore Store World] [DebugText]

/-- One step of the endpoint. -/
def serve (controller : RuntimeController Store) : ApiStep World → Option (RuntimeController Store)
  | .command c => some (dispatchCommandRequest c controller).1.2
  | .query _ => some controller
  | .lifecycle state => some { controller with lifecycle := state }

theorem preDispatchAudited_fst (c : Command World) (controller : RuntimeController Store) :
    (preDispatchAudited c controller).1 = preDispatch c.dispatch controller := by
  unfold preDispatchAudited preDispatch
  cases checkLifecycleReadiness controller.lifecycle with
  | some rejection => rfl
  | none =>
    dsimp only
    cases c.dispatch.command.idempotencyKey with
    | none => rfl
    | some key =>
      dsimp only
      cases IdempotencyStore.get c.dispatch.lookup controller.idempotency key with
      | error e => rfl
      | ok found =>
        cases found with
        | none => rfl
        | some record =>
          dsimp only
          by_cases hhash : record.requestHash = hashPayload c.dispatch.command.payload
          · rw [if_neg (not_not.2 hhash), if_neg (not_not.2 hhash)]
            cases record.status with
            | pending => rfl
            | resolved status body =>
              dsimp only
              by_cases hstatus : status ≥ 400
              · rw [if_pos hstatus, if_pos hstatus]
              · rw [if_neg hstatus, if_neg hstatus]
                cases replayOf body <;> rfl
          · rw [if_pos hhash, if_pos hhash]

end

end AppCore.Api
