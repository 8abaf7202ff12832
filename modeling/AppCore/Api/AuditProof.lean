import AppCore.Api.Dispatch
import AppCore.Core.ControllerProof

/-!
# Every admitted request is audited once

A query is audited on every way through its handler. A command is not when it leaves through an
error that is passed on: the capability policy, a call of the store, a stored result that cannot be
read or written. In the last step the handler has already run, and its events are lost with the
entry.

* `audited_run` — the same for sequences of requests.
-/

namespace AppCore.Api

open AppCore.Core

/-- The effects push one entry of a category, for this operation and outcome. -/
def AuditedOnce (category : AuditCategory) (operationId : String) (outcome : AuditOutcome)
    (effects : List Effect) : Prop :=
  ∃ entry, entriesOf category effects = [entry] ∧ entry.operationId = operationId ∧
    entry.outcome = outcome

def commandOutcome : Except CommandDispatchError CommandResponse → AuditOutcome
  | .ok response => if response.accepted then .accepted else .rejected
  | .error (.policy _) => .rejected
  | .error (.runtime _) => .error

/-- The outcome of a query: refused, or as its dispatch ends. -/
def Query.outcome (q : Query) : AuditOutcome :=
  if q.unauthorized.isSome ∨ q.capabilityError.isSome then .rejected
  else match q.dispatch with
    | .answered response => if response.ok then .accepted else .rejected
    | .failed _ => .error
    | .panicked => .error

/-! ## Effects -/

theorem entriesOf_append (category : AuditCategory) (effects later : List Effect) :
    entriesOf category (effects ++ later) =
      entriesOf category effects ++ entriesOf category later :=
  List.filterMap_append

theorem emittedIn_append (effects later : List Effect) :
    emittedIn (effects ++ later) = emittedIn effects ++ emittedIn later :=
  List.flatMap_append

theorem entriesOf_events (category : AuditCategory) (events : List EventEnvelope) :
    entriesOf category (events.map fun event => .pushEntry (eventEntry event)) =
      if category = .event then events.map eventEntry else [] := by
  induction events with
  | nil => simp [entriesOf]
  | cons event events ih =>
    unfold entriesOf at ih ⊢
    rw [List.map_cons, List.filterMap_cons, ih]
    by_cases hcategory : category = .event
    · simp [hcategory, eventEntry]
    · simp [hcategory, eventEntry, Ne.symm hcategory]

theorem emittedIn_events (events : List EventEnvelope) :
    emittedIn (events.map fun event => .pushEntry (eventEntry event)) = [] := by
  simp [emittedIn, List.flatMap_map]

theorem not_auditedOnce_nil {category : AuditCategory} {operationId : String}
    {outcome : AuditOutcome} : ¬ AuditedOnce category operationId outcome [] := by
  rintro ⟨entry, hentry, -⟩
  cases hentry

section

variable {World : Type} [DebugText]

theorem recordAudit_effects (c : Command World) (result : Core.RuntimeResult CommandResult) :
    AuditedOnce .command c.commandId (commandOutcome (commandResponse result)) [recordAudit c result] ∧
      emittedIn [recordAudit c result] = [] ∧ entriesOf .event [recordAudit c result] = [] := by
  refine ⟨⟨_, rfl, rfl, ?_⟩, rfl, rfl⟩
  cases result with
  | error e => rfl
  | ok result =>
    by_cases haccepted : result.accepted
    · simp [commandResponse, commandResultToResponse, commandOutcome, haccepted]
    · simp [commandResponse, commandResultToResponse, commandOutcome, haccepted]

def acceptedEvents : Core.RuntimeResult CommandResult → List EventEnvelope
  | .ok result => if result.accepted then result.events else []
  | .error _ => []

/-- What is emitted and audited after the handler. -/
theorem emitEventsAndAudit_effects (c : Command World) (result : Core.RuntimeResult CommandResult) :
    AuditedOnce .command c.commandId (commandOutcome (commandResponse result))
        (emitEventsAndAudit c result) ∧
      emittedIn (emitEventsAndAudit c result) = acceptedEvents result ∧
      entriesOf .event (emitEventsAndAudit c result) = (acceptedEvents result).map eventEntry := by
  obtain ⟨honce, hnone, hnoEntry⟩ := recordAudit_effects c result
  unfold emitEventsAndAudit
  cases result with
  | error e => exact ⟨honce, hnone, hnoEntry⟩
  | ok result =>
    by_cases haccepted : result.accepted
    · have hevents : acceptedEvents (.ok result) = result.events := if_pos haccepted
      dsimp only
      rw [if_pos haccepted, hevents, emittedIn_append, emittedIn_append, entriesOf_append,
        entriesOf_append, hnone, hnoEntry, emittedIn_events, entriesOf_events]
      refine ⟨?_, ?_, ?_⟩
      · obtain ⟨entry, hentry, hid, houtcome⟩ := honce
        refine ⟨entry, ?_, hid, houtcome⟩
        rw [entriesOf_append, entriesOf_append, entriesOf_events, hentry]
        simp [entriesOf]
      · simp [emittedIn]
      · simp [entriesOf]
    · have hevents : acceptedEvents (.ok result) = [] := if_neg haccepted
      dsimp only
      rw [if_neg haccepted, hevents, List.nil_append]
      exact ⟨honce, hnone, hnoEntry⟩

end

/-! ## Commands -/

section

variable {Store World : Type} [Sha256] [ResultJson] [IdempotencyStore Store World]

/-- The events of the accepted result that the handler of this request returned, if it ran. -/
def ownEvents (c : Command World) (controller : RuntimeController Store) : List EventEnvelope :=
  if c.policyError = none ∧ (preDispatch c.dispatch controller).1 = .ok none then
    acceptedEvents c.dispatch.outcome
  else []

/-- The effects emit and audit the events of the result of this request, and no others. -/
def EmitsOwn (c : Command World) (controller : RuntimeController Store) (effects : List Effect) :
    Prop :=
  emittedIn effects = ownEvents c controller ∧
    entriesOf .event effects = (ownEvents c controller).map eventEntry

/-- A command that leaves the first half of its dispatch through an error of the store, or of a
stored result. -/
inductive PreFault (c : Command World) (controller : RuntimeController Store) : Prop where
  | lookup (key : String) (e : Core.RuntimeError)
      (hready : checkLifecycleReadiness controller.lifecycle = none)
      (hkey : c.dispatch.command.idempotencyKey = some key)
      (hget : IdempotencyStore.get c.dispatch.lookup controller.idempotency key = .error e)
  | reserve (key : String) (e : Core.RuntimeError)
      (hready : checkLifecycleReadiness controller.lifecycle = none)
      (hkey : c.dispatch.command.idempotencyKey = some key)
      (hget : IdempotencyStore.get c.dispatch.lookup controller.idempotency key = .ok none)
      (hinsert : (IdempotencyStore.insert c.dispatch.before controller.idempotency
        (⟨key, hashPayload c.dispatch.command.payload, .pending, c.dispatch.pendingAtMs⟩ :
          IdempotencyRecord)).1 = .error e)
  | retry (key : String) (record : IdempotencyRecord) (status : UInt16) (body : String)
      (e : Core.RuntimeError) (hready : checkLifecycleReadiness controller.lifecycle = none)
      (hkey : c.dispatch.command.idempotencyKey = some key)
      (hget : IdempotencyStore.get c.dispatch.lookup controller.idempotency key = .ok (some record))
      (hhash : record.requestHash = hashPayload c.dispatch.command.payload)
      (hstatus : record.status = .resolved status body) (hfailed : status ≥ 400)
      (hremove :
        (IdempotencyStore.remove c.dispatch.before controller.idempotency key).1 = .error e)
  | replay (key : String) (record : IdempotencyRecord) (status : UInt16) (body : String)
      (e : Core.RuntimeError) (hready : checkLifecycleReadiness controller.lifecycle = none)
      (hkey : c.dispatch.command.idempotencyKey = some key)
      (hget : IdempotencyStore.get c.dispatch.lookup controller.idempotency key = .ok (some record))
      (hhash : record.requestHash = hashPayload c.dispatch.command.payload)
      (hstatus : record.status = .resolved status body) (hpassed : ¬ status ≥ 400)
      (hreplay : replayOf body = .error e)

/-- A command whose outcome cannot be stored. -/
inductive PostFault (c : Command World) (controller : RuntimeController Store) : Prop where
  | serialize (key : String) (result : CommandResult) (message : String)
      (hkey : c.dispatch.command.idempotencyKey = some key)
      (houtcome : c.dispatch.outcome = .ok result)
      (htext : ResultJson.toString result = .error message)
  | store (key : String) (result : CommandResult) (text : String) (e : Core.RuntimeError)
      (hkey : c.dispatch.command.idempotencyKey = some key)
      (houtcome : c.dispatch.outcome = .ok result) (htext : ResultJson.toString result = .ok text)
      (hinsert : (IdempotencyStore.insert c.dispatch.after controller.idempotency
        (⟨key, hashPayload c.dispatch.command.payload, .resolved 200 text,
          c.dispatch.resolvedAtMs⟩ : IdempotencyRecord)).1 = .error e)
  | release (key : String) (failure e : Core.RuntimeError)
      (hkey : c.dispatch.command.idempotencyKey = some key)
      (houtcome : c.dispatch.outcome = .error failure)
      (hremove : (IdempotencyStore.remove c.dispatch.after controller.idempotency key).1 = .error e)

/-- A command meets no refusal by the policy and no fault; a query may meet anything. -/
def Clean (controller : RuntimeController Store) : ApiStep World → Prop
  | .command c => c.policyError = none ∧ ¬ PreFault c controller ∧
      ((preDispatch c.dispatch controller).1 = .ok none →
        ¬ PostFault c (preDispatch c.dispatch controller).2)
  | _ => True

variable [DebugText]

/-- A request is audited once, with its outcome, and emits the events of its own result alone. -/
def Audited (controller : RuntimeController Store) : ApiStep World → Prop
  | .command c =>
    AuditedOnce .command c.commandId (commandOutcome (dispatchCommandRequest c controller).1.1)
        (dispatchCommandRequest c controller).2 ∧
      EmitsOwn c controller (dispatchCommandRequest c controller).2
  | .query q => AuditedOnce .query q.queryId q.outcome (queryHandler q).2
  | .lifecycle _ => True

/-! ## The two halves of a dispatch -/

/-- How the first half ends: the handler is to run, and nothing is pushed yet; or the command is
answered and audited; or it leaves through a fault and nothing is pushed. -/
inductive PreEnd (c : Command World) (controller : RuntimeController Store) : Prop where
  | runs (hruns : (preDispatchAudited c controller).1.1 = .ok none)
      (heffects : (preDispatchAudited c controller).2 = []) (hclean : ¬ PreFault c controller)
  | answered (result : Core.RuntimeResult CommandResult)
      (hresult : (preDispatchAudited c controller).1.1 = .ok (some result))
      (heffects : (preDispatchAudited c controller).2 = [recordAudit c result])
      (hclean : ¬ PreFault c controller)
  | refused (e : Core.RuntimeError) (herror : (preDispatchAudited c controller).1.1 = .error e)
      (heffects : (preDispatchAudited c controller).2 = [recordAudit c (.error e)])
      (hclean : ¬ PreFault c controller)
  | faulty (e : Core.RuntimeError) (herror : (preDispatchAudited c controller).1.1 = .error e)
      (heffects : (preDispatchAudited c controller).2 = []) (hfault : PreFault c controller)

/-- The first half of a command with a key, at a record that was found. -/
theorem preEnd_found {c : Command World} {controller : RuntimeController Store} {key : String}
    {record : IdempotencyRecord} (hready : checkLifecycleReadiness controller.lifecycle = none)
    (hkey : c.dispatch.command.idempotencyKey = some key)
    (hget : IdempotencyStore.get c.dispatch.lookup controller.idempotency key =
      .ok (some record)) : PreEnd c controller := by
  by_cases hhash : record.requestHash = hashPayload c.dispatch.command.payload
  · cases hstatus : record.status with
    | pending =>
      refine .refused (.idempotencyPending key) ?_ ?_ ?_
      · simp [preDispatchAudited, hready, hkey, hget, hhash, hstatus]
      · simp [preDispatchAudited, hready, hkey, hget, hhash, hstatus]
      · intro hfault
        cases hfault <;> simp_all
    | resolved status body =>
      by_cases hfailed : status ≥ 400
      · cases hremove :
          (IdempotencyStore.remove c.dispatch.before controller.idempotency key).1 with
        | error e =>
          refine .faulty e ?_ ?_
            (.retry key record status body e hready hkey hget hhash hstatus hfailed hremove)
          · simp [preDispatchAudited, hready, hkey, hget, hhash, hstatus, hfailed, hremove,
              Except.map]
          · simp [preDispatchAudited, hready, hkey, hget, hhash, hstatus, hfailed]
        | ok _ =>
          refine .runs ?_ ?_ ?_
          · simp [preDispatchAudited, hready, hkey, hget, hhash, hstatus, hfailed, hremove,
              Except.map]
          · simp [preDispatchAudited, hready, hkey, hget, hhash, hstatus, hfailed]
          · intro hfault
            cases hfault <;> simp_all
            exact absurd hfailed (UInt16.not_le.2 (by assumption))
      · cases hreplay : replayOf body with
        | error e =>
          refine .faulty e ?_ ?_
            (.replay key record status body e hready hkey hget hhash hstatus hfailed hreplay)
          · simp [preDispatchAudited, hready, hkey, hget, hhash, hstatus, hfailed, hreplay]
          · simp [preDispatchAudited, hready, hkey, hget, hhash, hstatus, hfailed, hreplay]
        | ok result =>
          refine .answered (.ok result) ?_ ?_ ?_
          · simp [preDispatchAudited, hready, hkey, hget, hhash, hstatus, hfailed, hreplay]
          · simp [preDispatchAudited, hready, hkey, hget, hhash, hstatus, hfailed, hreplay]
          · intro hfault
            cases hfault <;> simp_all
            exact absurd hfailed (UInt16.not_lt.2 (by assumption))
  · refine .refused (.idempotencyConflict key) ?_ ?_ ?_
    · simp [preDispatchAudited, hready, hkey, hget, hhash]
    · simp [preDispatchAudited, hready, hkey, hget, hhash]
    · intro hfault
      cases hfault <;> simp_all

/-- **How the first half of a dispatch ends.** -/
theorem preDispatchAudited_end (c : Command World) (controller : RuntimeController Store) :
    PreEnd c controller := by
  cases hready : checkLifecycleReadiness controller.lifecycle with
  | some rejection =>
    refine .answered (.ok rejection) ?_ ?_ ?_
    · simp [preDispatchAudited, hready]
    · simp [preDispatchAudited, hready]
    · intro hfault
      cases hfault <;> simp_all
  | none =>
    cases hkey : c.dispatch.command.idempotencyKey with
    | none =>
      refine .runs ?_ ?_ ?_
      · simp [preDispatchAudited, hready, hkey]
      · simp [preDispatchAudited, hready, hkey]
      · intro hfault
        cases hfault <;> simp_all
    | some key =>
      cases hget : IdempotencyStore.get c.dispatch.lookup controller.idempotency key with
      | error e =>
        refine .faulty e ?_ ?_ (.lookup key e hready hkey hget)
        · simp [preDispatchAudited, hready, hkey, hget]
        · simp [preDispatchAudited, hready, hkey, hget]
      | ok found =>
        cases found with
        | some record => exact preEnd_found hready hkey hget
        | none =>
          cases hinsert : (IdempotencyStore.insert c.dispatch.before
              controller.idempotency (⟨key, hashPayload c.dispatch.command.payload,
                .pending, c.dispatch.pendingAtMs⟩ : IdempotencyRecord)).1 with
          | error e =>
            refine .faulty e ?_ ?_ (.reserve key e hready hkey hget hinsert)
            · simp [preDispatchAudited, hready, hkey, hget, hinsert, Except.map]
            · simp [preDispatchAudited, hready, hkey, hget]
          | ok _ =>
            refine .runs ?_ ?_ ?_
            · simp [preDispatchAudited, hready, hkey, hget, hinsert, Except.map]
            · simp [preDispatchAudited, hready, hkey, hget]
            · intro hfault
              cases hfault <;> simp_all

omit [DebugText] in
/-- **How the second half ends**: the outcome is stored and audited, or it leaves through a fault
and nothing is pushed. -/
theorem postDispatch_eq_ok (c : Command World) (controller : RuntimeController Store) :
    (postDispatch c.dispatch controller).1 = .ok () ↔ ¬ PostFault c controller := by
  cases hkey : c.dispatch.command.idempotencyKey with
  | none =>
    refine iff_of_true (by simp [postDispatch, hkey]) ?_
    intro hfault
    cases hfault <;> simp_all
  | some key =>
    cases houtcome : c.dispatch.outcome with
    | error failure =>
      cases hremove :
          (IdempotencyStore.remove c.dispatch.after controller.idempotency key).1 with
      | error e =>
        refine iff_of_false (by simp [postDispatch, hkey, houtcome, hremove]) ?_
        exact not_not.2 (.release key failure e hkey houtcome hremove)
      | ok _ =>
        refine iff_of_true (by simp [postDispatch, hkey, houtcome, hremove]) ?_
        intro hfault
        cases hfault <;> simp_all
    | ok result =>
      cases htext : ResultJson.toString result with
      | error message =>
        refine iff_of_false (by simp [postDispatch, hkey, houtcome, htext]) ?_
        exact not_not.2 (.serialize key result message hkey houtcome htext)
      | ok text =>
        cases hinsert : (IdempotencyStore.insert c.dispatch.after controller.idempotency
            (⟨key, hashPayload c.dispatch.command.payload, .resolved 200 text,
              c.dispatch.resolvedAtMs⟩ : IdempotencyRecord)).1 with
        | error e =>
          refine iff_of_false (by simp [postDispatch, hkey, houtcome, htext, hinsert]) ?_
          exact not_not.2 (.store key result text e hkey houtcome htext hinsert)
        | ok _ =>
          refine iff_of_true (by simp [postDispatch, hkey, houtcome, htext, hinsert]) ?_
          intro hfault
          cases hfault <;> simp_all

/-! ## One request -/

/-- A command is audited exactly when it is clean. -/
theorem audited_command (c : Command World) (controller : RuntimeController Store) :
    Audited controller (.command c) ↔ Clean controller (.command c) := by
  unfold Audited Clean EmitsOwn ownEvents dispatchCommandRequest
  have hpre := preDispatchAudited_fst c controller
  cases hpolicy : c.policyError with
  | some e =>
    simp only [hpolicy]
    exact iff_of_false (fun h => not_auditedOnce_nil h.1) fun h => by cases h.1
  | none =>
    simp only [hpolicy, true_and]
    rw [← hpre]
    cases preDispatchAudited_end c controller with
    | faulty e herror heffects hfault =>
      generalize preDispatchAudited c controller = first at herror heffects ⊢
      obtain ⟨⟨answer, after⟩, effects⟩ := first
      cases herror
      cases heffects
      exact iff_of_false (fun h => not_auditedOnce_nil h.1) fun h => h.1 hfault
    | refused e herror heffects hclean =>
      generalize preDispatchAudited c controller = first at herror heffects ⊢
      obtain ⟨⟨answer, after⟩, effects⟩ := first
      cases herror
      cases heffects
      obtain ⟨honce, hnone, hnoEntry⟩ := recordAudit_effects c (.error e)
      refine iff_of_true ⟨honce, ?_⟩ ⟨hclean, ?_⟩
      · exact ⟨hnone, hnoEntry⟩
      · intro hruns
        cases hruns
    | answered result hresult heffects hclean =>
      generalize preDispatchAudited c controller = first at hresult heffects ⊢
      obtain ⟨⟨answer, after⟩, effects⟩ := first
      cases hresult
      cases heffects
      obtain ⟨honce, hnone, hnoEntry⟩ := recordAudit_effects c result
      refine iff_of_true ⟨honce, ?_⟩ ⟨hclean, ?_⟩
      · exact ⟨hnone, hnoEntry⟩
      · intro hruns
        cases hruns
    | runs hruns heffects hclean =>
      generalize preDispatchAudited c controller = first at hruns heffects ⊢
      obtain ⟨⟨answer, after⟩, effects⟩ := first
      cases hruns
      cases heffects
      have hpost := postDispatch_eq_ok c after
      unfold postDispatchAudited
      dsimp only
      generalize postDispatch c.dispatch after = second at hpost ⊢
      obtain ⟨stored, last⟩ := second
      cases stored with
      | error e =>
        have hfault : ¬ ¬ PostFault c after := fun h => by
          cases hpost.2 h
        exact iff_of_false (fun h => not_auditedOnce_nil h.1) fun h => hfault (h.2 rfl)
      | ok _ =>
        obtain ⟨honce, hemitted, hentries⟩ :=
          emitEventsAndAudit_effects c c.dispatch.outcome
        exact iff_of_true ⟨honce, hemitted, hentries⟩ ⟨hclean, fun _ => hpost.1 rfl⟩

omit [Sha256] [ResultJson] [DebugText] in
theorem audited_query (q : Query) : AuditedOnce .query q.queryId q.outcome (queryHandler q).2 := by
  unfold queryHandler Query.outcome
  cases hauthorized : q.unauthorized with
  | some response => exact ⟨_, rfl, rfl, rfl⟩
  | none =>
    cases hpolicy : q.capabilityError with
    | some e => exact ⟨_, rfl, rfl, rfl⟩
    | none =>
      cases hdispatch : q.dispatch with
      | answered response => exact ⟨_, rfl, rfl, rfl⟩
      | failed status => exact ⟨_, rfl, rfl, rfl⟩
      | panicked => exact ⟨_, rfl, rfl, rfl⟩

/-- **A request is audited once**, with the events of its own result, exactly when no refusal of the
policy and no fault ends it. -/
theorem audited_iff_clean (controller : RuntimeController Store) (step : ApiStep World) :
    Audited controller step ↔ Clean controller step := by
  cases step with
  | command c => exact audited_command c controller
  | query q => exact iff_of_true (audited_query q) trivial
  | lifecycle state => exact Iff.rfl

/-- **In a sequence of requests every one is audited** exactly when none of its commands is refused
by the policy or ends in a fault. -/
theorem audited_run (controller : RuntimeController Store) (steps : List (ApiStep World)) :
    EachStep serve Audited controller steps ↔ EachStep serve Clean controller steps := by
  have hpointwise : (Audited : RuntimeController Store → ApiStep World → Prop) = Clean := by
    funext controller step
    exact propext (audited_iff_clean controller step)
  rw [hpointwise]

end

/-- A command that the policy refuses, the runtime being read-only. -/
def refusedCommand : Command Unit where
  dispatch := acceptedDispatch "documents.create"
  commandId := "command-1"
  appId := "app"
  nodeId := "node"
  issuedAtMs := 1
  policyError := some .readOnly

/-- **A command that the policy refuses is not audited.** -/
theorem refused_not_audited :
    ¬ ∀ [Sha256] [ResultJson] [DebugText]
      (controller : RuntimeController InMemoryIdempotencyStore) (steps : List (ApiStep Unit)),
      EachStep serve Audited controller steps := by
  intro hclaim
  have haudited := @hclaim Sha256.fips ⟨fun _ => .ok "", fun _ => .error ""⟩ ⟨fun _ => ""⟩
    ⟨.running, ⟨∅⟩⟩ [.command refusedCommand]
  rw [eachStep_cons] at haudited
  exact not_auditedOnce_nil haudited.1.1

end AppCore.Api
