import AppCore.Base.Runs
import AppCore.Supervisor.Frames
import AppCore.Supervisor.Stopped

/-!
# Restarts from several threads

One thread reconciles, and any number of threads ask for restarts, while the workers carry them out. A
thread is cut where it gives the lock on the records or on a queue of the executor away: what it does
next is a phase, and a step takes it to the next one (`advance`). What a thread does without a lock, such
as asking a service for its health, goes with the step after it.

* `restart_rest_advance`, `reconcile_eq_steps` — the steps of a thread, one after another, are the call.
-/

namespace AppCore.Supervisor

open Prog SupervisorInner

/-! ## Scheduling -/

/-- What a thread does next in `schedule_restart`. -/
inductive SchedulePhase where
  | checking
  | budgeting
  | drawing
  | marking (executeAtMs : UInt64)
  deriving DecidableEq, Repr

/-- A thread in the middle of `schedule_restart`. -/
structure Scheduling (W : Type) where
  service : ManagedService W
  timestampMs : UInt64
  phase : SchedulePhase

namespace Scheduling

variable {W : Type}

/-- The restart is written down as scheduled. -/
def mark (service : ManagedService W) (executeAtMs : UInt64) : Call W Unit :=
  changeRecord service.descriptor.name fun record => { record with
    restartState := .scheduled executeAtMs
    runtimeState := .restartScheduled }

/-- When the restart is carried out. -/
def executeAt (service : ManagedService W) (timestampMs : UInt64) (jitter : Duration) : UInt64 :=
  saturatingAdd timestampMs (durationMs (min (service.descriptor.restartPolicy.backoff + jitter)
    maxDuration))

/-- The next step, and what is left to do. -/
def advance (task : Scheduling W) : Call W (Option SchedulePhase) :=
  let service := task.service
  let policy := service.descriptor.restartPolicy
  match task.phase with
  | .checking =>
    if policy.mode = .never then pure none
    else do
      let active ← restartIsActive service.descriptor.name
      if active then pure none else pure (some .budgeting)
  | .budgeting => do
      let _ ← consumeRestartBudget service task.timestampMs
      pure (some .drawing)
  | .drawing => do
      let jitter ← jitter policy.jitter
      pure (some (.marking (executeAt service task.timestampMs jitter)))
  | .marking executeAtMs => do
      mark service executeAtMs
      pure none

/-- All that is left to do. -/
def rest (task : Scheduling W) : Call W Unit :=
  let service := task.service
  let timestampMs := task.timestampMs
  match task.phase with
  | .checking => scheduleRestart service timestampMs
  | .budgeting => do
      let _ ← consumeRestartBudget service timestampMs
      let jitter ← jitter service.descriptor.restartPolicy.jitter
      mark service (executeAt service timestampMs jitter)
  | .drawing => do
      let jitter ← jitter service.descriptor.restartPolicy.jitter
      mark service (executeAt service timestampMs jitter)
  | .marking executeAtMs => mark service executeAtMs

/-- The steps of `schedule_restart`, one after another, are the call. -/
theorem rest_advance (task : Scheduling W) :
    task.rest = task.advance >>= fun next => match next with
      | none => pure ()
      | some phase => rest { task with phase } := by
  obtain ⟨service, timestampMs, phase⟩ := task
  cases phase with
  | checking =>
    dsimp only [rest, advance]
    unfold scheduleRestart
    dsimp only
    split
    · rfl
    · rw [bind_assoc]
      congr 1
      funext active
      cases active with
      | true => rfl
      | false => rfl
  | budgeting =>
    dsimp only [rest, advance]
    rw [bind_assoc]
    rfl
  | drawing =>
    dsimp only [rest, advance]
    rw [bind_assoc]
    rfl
  | marking executeAtMs =>
    dsimp only [rest, advance]
    rw [bind_assoc]
    exact (bind_pure _).symm

end Scheduling

/-- What a thread that calls `restart` does next. -/
inductive RestartPhase (W : Type) where
  | requested (name : String) (timestampMs : UInt64)
  | scheduling (task : Scheduling W)
  | finished

namespace RestartPhase

variable {W : Type}

/-- The next step. -/
def advance : RestartPhase W → Call W (RestartPhase W)
  | .requested name timestampMs => do
      let service ← service name
      requireDependencies service
      pure (.scheduling { service, timestampMs, phase := .checking })
  | .scheduling task => do
      let next ← task.advance
      match next with
      | none => pure .finished
      | some phase => pure (.scheduling { task with phase })
  | .finished => pure .finished

/-- All that is left to do. -/
def rest : RestartPhase W → Call W Unit
  | .requested name timestampMs => restart name timestampMs
  | .scheduling task => task.rest
  | .finished => pure ()

/-- **The steps of `restart`, one after another, are the call.** -/
theorem restart_rest_advance (phase : RestartPhase W) : phase.rest = phase.advance >>= rest := by
  cases phase with
  | requested name timestampMs =>
    dsimp only [rest, advance]
    unfold restart
    simp only [bind_assoc]
    rfl
  | scheduling task =>
    dsimp only [rest, advance]
    rw [task.rest_advance, bind_assoc]
    congr 1
    funext next
    cases next with
    | none => rfl
    | some phase => rfl
  | finished => rfl

end RestartPhase

/-! ## The thread that reconciles -/

/-- What the thread that calls `reconcile` does next. -/
inductive LoopPhase (W : Type) where
  | idle
  | applying (timestampMs : UInt64) (completions : List RestartCompletion)
  | reconciling (timestampMs : UInt64) (names : List String)
  | scheduling (task : Scheduling W) (names : List String)
  | dispatching (due : List (String × UInt64))
  | marking (name : String) (due : List (String × UInt64))

namespace LoopPhase

variable {W : Type}

/-- `reconcile_service` up to the restart: the service, when it failed. -/
def observeService (name : String) : Call W (Option (ManagedService W)) := do
  let service ← service name
  if ¬ service.descriptor.activation.isEnabled then pure none
  else
    match ← firstUnavailableDependency service with
    | some _ =>
      let runtimeState ← ask service.runtimeState
      let _ ← updateRecord name .degraded runtimeState
      pure none
    | none =>
      let health ← health service
      let runtimeState ← ask service.runtimeState
      let _ ← updateRecord name health runtimeState
      pure (if health.isFailed then some service else none)

/-- The state of a restart that was handed to the executor. -/
def markStopping (name : String) : Call W Unit :=
  changeRecord name fun record => { record with
    restartState := .stopping
    runtimeState := .restarting }

/-- `reconcile` begins with the completions. -/
def start (timestampMs : UInt64) : Call W (LoopPhase W) := do
  let completions ← drainCompletions
  pure (.applying timestampMs completions)

/-- The next step. -/
def advance : LoopPhase W → Call W (LoopPhase W)
  | .idle => pure .idle
  | .applying timestampMs [] => do
      let order ← validate
      pure (.reconciling timestampMs order)
  | .applying timestampMs (completion :: completions) => do
      applyRestartCompletion completion
      pure (.applying timestampMs completions)
  | .reconciling timestampMs [] => do
      let due ← Prog.read fun s => .ok (dueRestarts timestampMs s)
      pure (.dispatching due)
  | .reconciling timestampMs (name :: names) => do
      let failed ← observeService name
      match failed with
      | none => pure (.reconciling timestampMs names)
      | some service => pure (.scheduling { service, timestampMs, phase := .checking } names)
  | .scheduling task names => do
      let next ← task.advance.attempt
      match next with
      | .ok (some phase) => pure (.scheduling { task with phase } names)
      | .ok none | .error (.restartBudgetExceeded _) => pure (.reconciling task.timestampMs names)
      | .error error => Prog.fail error
  | .dispatching [] => pure .idle
  | .dispatching ((name, attempt) :: due) => do
      let service ← service name
      let queued ← (schedule { service, attempt }).attempt
      match queued with
      | .ok () => pure (.marking name due)
      | .error .restartQueueFull => pure (.dispatching due)
      | .error error => Prog.fail error
  | .marking name due => do
      markStopping name
      pure (.dispatching due)

/-- A budget that is exhausted is no failure of `reconcile_service`. -/
def settleFailed (call : Call W Unit) : Call W Unit := do
  match ← call.attempt with
  | .error (.restartBudgetExceeded _) | .ok () => pure ()
  | .error error => Prog.fail error

/-- What is left to do for the services. -/
def restServices (timestampMs : UInt64) (names : List String) : Call W Unit := do
  Prog.each (reconcileService timestampMs) names
  dispatchDueRestarts timestampMs

/-- What is left to do for the restarts that are due. -/
def restDue (due : List (String × UInt64)) : Call W Unit :=
  Prog.each (fun restart => dispatchRestart restart.1 restart.2) due

/-- All that is left to do. -/
def rest : LoopPhase W → Call W Unit
  | .idle => pure ()
  | .applying timestampMs completions => do
      Prog.each applyRestartCompletion completions
      let order ← validate
      restServices timestampMs order
  | .reconciling timestampMs names => restServices timestampMs names
  | .scheduling task names => do
      settleFailed task.rest
      restServices task.timestampMs names
  | .dispatching due => restDue due
  | .marking name due => do
      markStopping name
      restDue due

theorem reconcileService_eq (timestampMs : UInt64) (name : String) :
    (reconcileService timestampMs name : Call W Unit) = observeService name >>= fun failed =>
      match failed with
      | none => pure ()
      | some service => settleFailed (scheduleRestart service timestampMs) := by
  unfold reconcileService observeService
  rw [bind_assoc]
  congr 1
  funext service
  split
  · rfl
  · rw [bind_assoc]
    congr 1
    funext found
    cases found with
    | some dependency =>
      dsimp only
      simp only [bind_assoc]
      rfl
    | none =>
      dsimp only
      simp only [bind_assoc]
      congr 1
      funext health
      congr 1
      funext runtimeState
      congr 1
      funext previous
      cases hfailed : health.isFailed with
      | true => rfl
      | false => rfl

/-- **The steps of `reconcile`, one after another, are the call.** -/
theorem reconcile_rest_advance (phase : LoopPhase W) : phase.rest = phase.advance >>= rest := by
  cases phase with
  | idle => rfl
  | applying timestampMs completions =>
    cases completions with
    | nil =>
      dsimp only [rest, advance]
      rw [bind_assoc]
      rfl
    | cons completion completions =>
      dsimp only [rest, advance]
      simp only [each_cons, bind_assoc]
      rfl
  | reconciling timestampMs names =>
    cases names with
    | nil => rfl
    | cons name names =>
      dsimp only [rest, advance, restServices]
      simp only [each_cons, bind_assoc]
      rw [reconcileService_eq, bind_assoc]
      congr 1
      funext failed
      cases failed with
      | none => rfl
      | some service => rfl
  | scheduling task names =>
    dsimp only [rest, advance, settleFailed]
    rw [task.rest_advance, attempt_bind]
    simp only [bind_assoc]
    congr 1
    funext next
    cases next with
    | ok phase =>
      cases phase with
      | none => rfl
      | some phase => exact (bind_assoc _ _ _).symm
    | error error => cases error <;> rfl
  | dispatching due =>
    cases due with
    | nil => rfl
    | cons restart due =>
      dsimp only [rest, advance, restDue]
      rw [each_cons, dispatchRestart]
      simp only [bind_assoc]
      congr 1
      funext service
      congr 1
      funext queued
      cases queued with
      | ok u => rfl
      | error error => cases error <;> rfl
  | marking name due =>
    dsimp only [rest, advance]
    rw [bind_assoc]
    rfl

theorem reconcile_eq_start (timestampMs : UInt64) :
    (reconcile timestampMs : Call W Unit) = start timestampMs >>= rest := by
  unfold reconcile applyRestartCompletions start
  simp only [bind_assoc]
  rfl

/-- The next `n` steps. -/
def steps : Nat → LoopPhase W → Call W (LoopPhase W)
  | 0, phase => pure phase
  | n + 1, phase => phase.advance >>= steps n

theorem rest_steps (n : Nat) (phase : LoopPhase W) : phase.rest = steps n phase >>= rest := by
  induction n generalizing phase with
  | zero => rfl
  | succ n ih =>
    rw [reconcile_rest_advance, steps, bind_assoc]
    congr 1
    funext next
    exact ih next

/-- **After any number of steps, what is left is the rest of the call.** -/
theorem reconcile_eq_steps (timestampMs : UInt64) (n : Nat) :
    (reconcile timestampMs : Call W Unit) = start timestampMs >>= fun phase =>
      steps n phase >>= rest := by
  rw [reconcile_eq_start]
  congr 1
  funext phase
  exact rest_steps n phase

end LoopPhase

/-! ## The threads together -/

/-- A supervisor with the thread that reconciles and those that asked for a restart. -/
structure ConcurrentSupervisor (W : Type) where
  inner : SupervisorInner W
  loop : LoopPhase W
  callers : List (RestartPhase W)

/-- What happens next: a thread begins a call or goes on with it, a worker makes a step, or the world
changes. -/
inductive ConcurrentStep (W : Type) where
  | reconcile (timestampMs : UInt64)
  | loop
  | restart (name : String) (timestampMs : UInt64)
  | caller (index : Nat)
  | takeCommand
  | worker (index : Nat)
  | environment (world : W)

namespace ConcurrentSupervisor

variable {W : Type}

/-- No thread is in the middle of a call. -/
def start (inner : SupervisorInner W) : ConcurrentSupervisor W := { inner, loop := .idle, callers := [] }

/-- The loop makes a step, which ends the call when it fails. -/
def advanceLoop (c : ConcurrentSupervisor W) (call : Call W (LoopPhase W)) :
    ConcurrentSupervisor W :=
  { c with
    inner := call.final c.inner
    loop := match call.result c.inner with
      | .ok phase => phase
      | .error _ => .idle }

/-- A thread that asked for a restart makes a step. -/
def advanceCaller (c : ConcurrentSupervisor W) (index : Nat) (phase : RestartPhase W) :
    ConcurrentSupervisor W :=
  { c with
    inner := phase.advance.final c.inner
    callers := c.callers.set index <| match phase.advance.result c.inner with
      | .ok phase => phase
      | .error _ => .finished }

def step (c : ConcurrentSupervisor W) : ConcurrentStep W → Option (ConcurrentSupervisor W)
  | .reconcile timestampMs =>
    match c.loop with
    | .idle => some (c.advanceLoop (LoopPhase.start timestampMs))
    | _ => none
  | .loop =>
    match c.loop with
    | .idle => none
    | phase => some (c.advanceLoop phase.advance)
  | .restart name timestampMs =>
    some { c with callers := c.callers ++ [.requested name timestampMs] }
  | .caller index => c.callers[index]?.map fun phase => c.advanceCaller index phase
  | .takeCommand => c.inner.takeCommand.map fun inner => { c with inner }
  | .worker index => (c.inner.workerStep index).map fun inner => { c with inner }
  | .environment world => some { c with inner := { c.inner with world } }

end ConcurrentSupervisor

/-! ## Restarts in flight -/

section

variable {W : Type}

/-- The completions that the loop has received and not applied yet. -/
def LoopPhase.received : LoopPhase W → List RestartCompletion
  | .applying _ completions => completions
  | _ => []

/-- The restarts of a service in the queue, with a worker, in the channel of the completions or in the
hands of the loop. -/
def inFlight (name : String) (executor : RestartExecutor W) (loop : LoopPhase W) : Nat :=
  (executor.commands.countP fun command => command.service.descriptor.name = name) +
    (executor.workers.countP fun worker => worker.command.service.descriptor.name = name) +
    (executor.completions.countP fun completion => completion.serviceId = name) +
    loop.received.countP fun completion => completion.serviceId = name

/-- The state of the restart of a service. -/
def restartStateOf (name : String) (s : SupervisorInner W) : Option RestartState :=
  s.records[name]?.map RuntimeRecord.restartState

/-- No service has two restarts in flight, and one that is `Stopping` has one. -/
structure OneInFlight (c : ConcurrentSupervisor W) : Prop where
  atMostOne : ∀ name, inFlight name c.inner.restartExecutor c.loop ≤ 1
  stopping : ∀ name, restartStateOf name c.inner = some .stopping →
    inFlight name c.inner.restartExecutor c.loop = 1

/-- Whether a thread writes a restart down as scheduled that is in the state `Stopping`. -/
def overwritesStopping (c : ConcurrentSupervisor W) : ConcurrentStep W → Bool
  | .caller index =>
    match c.callers[index]? with
    | some (.scheduling task) =>
      match task.phase with
      | .marking _ => restartStateOf task.service.descriptor.name c.inner = some .stopping
      | _ => false
    | _ => false
  | _ => false

def SupervisorStep.Prepares : SupervisorStep W → Prop
  | .register _ | .start _ | .environment _ => True
  | _ => False

end

end AppCore.Supervisor
