import AppCore.Base.Maps
import AppCore.Base.Prog
import AppCore.Supervisor.Service

/-!
# The supervisor

`supervisor.rs` with `graph.rs`, `supervisor_lifecycle.rs`, `supervisor_restart.rs` and
`restart_executor.rs`: the services by their names with a record for each, and an executor whose
workers carry out the restarts that `reconcile` hands to it.

The services are a parameter: what one answers depends on a world they all share and may change it.
The state keeps two histories, of what the services reported about their health and of the commands
the executor received. The events and the watchdog, that only diagnoses show, are left out, with the
times of `start` and `stop`, that only events carry, and so is `shutdown`.
-/

namespace AppCore.Supervisor

structure ManagedService (W : Type) where
  descriptor : ServiceDescriptor
  start : W → Except SupervisorError Unit × W
  stop : Duration → W → Except SupervisorError Unit × W
  health : W → ServiceHealth × W
  runtimeState : W → ServiceRuntimeState × W

/-- The registered services, each under its own name. -/
structure Services (W : Type) where
  map : Std.ExtTreeMap String (ManagedService W) compare
  named : ∀ (name : String) (service : ManagedService W), map[name]? = some service →
    service.descriptor.name = name

namespace Services

variable {W : Type}

def empty : Services W := ⟨∅, by simp⟩

def insert (services : Services W) (service : ManagedService W) : Services W :=
  ⟨services.map.insert service.descriptor.name service, by
    intro name other h
    rw [lookup_insert] at h
    by_cases hname : service.descriptor.name = name
    · rw [if_pos hname, Option.some.injEq] at h
      rw [← h, hname]
    · rw [if_neg hname] at h
      exact services.named name other h⟩

end Services

/-! ## The dependency graph -/

section Graph

variable {W : Type}

def validateDependencies (services : Services W) : Except SupervisorError Unit :=
  services.map.toList.forM fun (name, service) =>
    service.descriptor.dependencies.forM fun dependency =>
      if dependency.serviceId ∉ services.map ∧ dependency.requirement ≠ .optional then
        .error (.dependencyNotFound name dependency.serviceId)
      else .ok ()

/-- `visit`: the services it has placed so far are `order`, those it is in the middle of are
`path`. It goes at most `depth` services deep. -/
def visit (services : Services W) (depth : Nat) (name : String) (path order : List String) :
    Except SupervisorError (List String) :=
  if name ∈ order then .ok order
  else if name ∈ path then .error (.dependencyCycle (path ++ [name]))
  else
    match services.map[name]?, depth with
    | none, _ | _, 0 => .error (.serviceNotFound name)
    | some service, depth + 1 => do
        let order ← service.descriptor.dependencies.foldlM (fun order dependency =>
          if dependency.serviceId ∈ services.map then
            visit services depth dependency.serviceId (path ++ [name]) order
          else .ok order) order
        .ok (order ++ [name])

def topologicalOrder (services : Services W) : Except SupervisorError (List String) :=
  services.map.keys.foldlM (fun order name => visit services services.map.size name [] order) []

theorem path_concat {services : Services W} {name : String} {path : List String}
    (hpath : path.Nodup) (hknown : ∀ a ∈ path, a ∈ services.map) (hname : name ∉ path)
    (hmem : name ∈ services.map) :
    (path ++ [name]).Nodup ∧ ∀ a ∈ path ++ [name], a ∈ services.map := by
  constructor
  · rw [List.nodup_append]
    refine ⟨hpath, List.nodup_singleton name, ?_⟩
    rintro a ha b hb rfl
    exact hname (List.mem_singleton.1 hb ▸ ha)
  · intro a ha
    rcases List.mem_append.1 ha with ha | ha
    · exact hknown a ha
    · rwa [List.mem_singleton.1 ha]

/-- A path goes through different services, so that it is never as deep as there are services. -/
theorem visit_succ (services : Services W) {depth : Nat} {name : String} {path order : List String}
    (hpath : path.Nodup) (hknown : ∀ a ∈ path, a ∈ services.map)
    (hdepth : services.map.size ≤ path.length + depth) :
    visit services (depth + 1) name path order = visit services depth name path order := by
  induction depth generalizing name path order with
  | zero =>
    unfold visit
    split
    · rfl
    · split
      · rfl
      · next hname =>
        have hmem : name ∉ services.map := by
          intro hmem
          obtain ⟨hnodup, hsub⟩ := path_concat hpath hknown hname hmem
          have hlen := (hnodup.subperm fun a ha => Std.ExtTreeMap.mem_keys.2 (hsub a ha)).length_le
          rw [Std.ExtTreeMap.length_keys, List.length_append, List.length_singleton] at hlen
          omega
        rw [Std.ExtTreeMap.getElem?_eq_none hmem]
  | succ depth ih =>
    rw [visit.eq_def services (depth + 1 + 1), visit.eq_def services (depth + 1)]
    by_cases horder : name ∈ order
    · rw [if_pos horder, if_pos horder]
    · by_cases hname : name ∈ path
      · rw [if_neg horder, if_neg horder, if_pos hname, if_pos hname]
      · rw [if_neg horder, if_neg horder, if_neg hname, if_neg hname]
        cases hservice : services.map[name]? with
        | none => rfl
        | some service =>
          have hmem : name ∈ services.map :=
            Std.ExtTreeMap.mem_iff_isSome_getElem?.2 (by simp [hservice])
          have hsame : ∀ dependency order,
              visit services (depth + 1) dependency (path ++ [name]) order =
                visit services depth dependency (path ++ [name]) order := by
            intro dependency order
            obtain ⟨hnodup, hsub⟩ := path_concat hpath hknown hname hmem
            refine ih hnodup hsub ?_
            rw [List.length_append, List.length_singleton]
            omega
          simp only [hsame]

end Graph

/-! ## Records and the executor -/

inductive RestartState where
  | none
  | scheduled (executeAtMs : UInt64)
  | stopping
  | starting
  | backoff
  | failed
  deriving DecidableEq, Repr

structure RuntimeRecord where
  health : Option ServiceHealth
  runtimeState : ServiceRuntimeState
  restartState : RestartState
  restartTimesMs : List UInt64
  restartCount : UInt64
  operatorRequired : Bool
  quarantined : Bool
  deriving DecidableEq, Repr

def RuntimeRecord.default : RuntimeRecord :=
  { health := .none, runtimeState := .stopped, restartState := .none, restartTimesMs := [],
    restartCount := 0, operatorRequired := false, quarantined := false }

structure RestartCommand (W : Type) where
  service : ManagedService W
  attempt : UInt64

inductive RestartOutcome where
  | restarted
  | orphaned
  | failed
  | cancelled
  deriving DecidableEq, Repr

structure RestartCompletion where
  serviceId : String
  attempt : UInt64
  outcome : RestartOutcome
  deriving DecidableEq, Repr

/-- What a worker does next with its command. -/
inductive WorkerPhase where
  | stopping
  | starting
  | completed (outcome : RestartOutcome)
  deriving DecidableEq, Repr

/-- A worker that has taken a command. -/
structure RestartWorker (W : Type) where
  command : RestartCommand W
  phase : WorkerPhase

/-- `RestartExecutor`: the bounded queues of commands and completions, the workers that are not
idle, and the names in the commands it received. -/
structure RestartExecutor (W : Type) where
  commands : List (RestartCommand W)
  completions : List RestartCompletion
  workers : List (RestartWorker W)
  queueCapacity : Nat
  workerCount : Nat
  received : List String

def defaultRestartQueueCapacity : Nat := 64

def defaultRestartWorkers : Nat := 2

def RestartExecutor.new (W : Type) (queueCapacity workerCount : Nat) : RestartExecutor W :=
  { commands := [], completions := [], workers := [], queueCapacity := max queueCapacity 1,
    workerCount := max workerCount 1, received := [] }

def RestartExecutor.completionCapacity {W : Type} (executor : RestartExecutor W) : Nat :=
  executor.queueCapacity + executor.workerCount

structure SupervisorInner (W : Type) where
  services : Services W
  records : Std.ExtTreeMap String RuntimeRecord compare
  jitterState : UInt64
  restartExecutor : RestartExecutor W
  world : W
  reports : List (String × ServiceHealth)

/-- `assemble`. -/
def SupervisorInner.new {W : Type} (createdAtMs : UInt64) (world : W) : SupervisorInner W :=
  { services := .empty, records := ∅, jitterState := max createdAtMs 1,
    restartExecutor := .new W defaultRestartQueueCapacity defaultRestartWorkers, world,
    reports := [] }

abbrev Call (W : Type) := Prog (SupervisorInner W) SupervisorError

namespace SupervisorInner

variable {W : Type}

/-! ## Steps of a call -/

/-- One change of the state. -/
def change (f : SupervisorInner W → SupervisorInner W) : Call W Unit := Prog.step fun s => .ok (f s)

/-- A call on a service. -/
def ask {α : Type} (f : W → α × W) : Call W α := do
  let a ← Prog.read fun s => .ok (f s.world).1
  change fun s => { s with world := (f s.world).2 }
  pure a

/-- `health` of a service, which goes into the history. -/
def health (service : ManagedService W) : Call W ServiceHealth := do
  let a ← Prog.read fun s => .ok (service.health s.world).1
  change fun s => { s with
    world := (service.health s.world).2
    reports := s.reports ++ [(service.descriptor.name, (service.health s.world).1)] }
  pure a

def service (name : String) : Call W (ManagedService W) :=
  Prog.read fun s =>
    match s.services.map[name]? with
    | none => .error (.serviceNotFound name)
    | some service => .ok service

/-- `records.get(name)`. -/
def record (name : String) : Call W RuntimeRecord :=
  Prog.read fun s =>
    match s.records[name]? with
    | none => .error (.serviceNotFound name)
    | some record => .ok record

/-- A change of the record `record_mut` finds. -/
def changeRecord (name : String) (f : RuntimeRecord → RuntimeRecord) : Call W Unit :=
  Prog.step fun s =>
    if name ∈ s.records then .ok { s with records := s.records.modify name f }
    else .error (.serviceNotFound name)

def updateRecord (name : String) (health : ServiceHealth) (runtimeState : ServiceRuntimeState) :
    Call W (Option ServiceHealth) := do
  let previous ← record name
  changeRecord name fun record => { record with health := some health, runtimeState }
  pure previous.health

def validate : Call W (List String) :=
  Prog.read fun s => do
    validateDependencies s.services
    topologicalOrder s.services

/-- `first_unavailable_dependency`, over the dependencies that are left. -/
def firstUnavailable : List ServiceDependency → Call W (Option String)
  | [] => pure none
  | dependency :: dependencies => do
      let found ← (service dependency.serviceId).attempt
      match found with
      | .ok dependencyService =>
        let health ← health dependencyService
        if dependency.requirement.accepts health then firstUnavailable dependencies
        else pure (some dependency.serviceId)
      | .error error =>
        if dependency.requirement = .optional then firstUnavailable dependencies
        else Prog.fail error

def firstUnavailableDependency (service : ManagedService W) : Call W (Option String) :=
  firstUnavailable service.descriptor.dependencies

def requireDependencies (service : ManagedService W) : Call W Unit := do
  match ← firstUnavailableDependency service with
  | some dependency => Prog.fail (.dependencyUnavailable service.descriptor.name dependency)
  | none => pure ()

/-! ## Restarts -/

def restartIsActive (name : String) : Call W Bool := do
  let record ← record name
  pure (record.quarantined ||
    match record.restartState with
    | .scheduled _ | .stopping | .starting | .backoff => true
    | .none | .failed => false)

/-- `saturating_add` of `u64`. -/
def saturatingAdd (a b : UInt64) : UInt64 :=
  if a.toNat + b.toNat < 2 ^ 64 then a + b else .ofNat (2 ^ 64 - 1)

/-- `saturating_sub` of `u64`. -/
def saturatingSub (a b : UInt64) : UInt64 := if b ≤ a then a - b else 0

/-- `Duration::MAX`. -/
def maxDuration : Duration := 2 ^ 64 * 10 ^ 9 - 1

/-- The number that `jitter` draws. -/
def nextJitter (current : UInt64) : UInt64 :=
  let next := current ^^^ (current <<< 13)
  let next := next ^^^ (next >>> 7)
  next ^^^ (next <<< 17)

def jitter (maximum : Duration) : Call W Duration :=
  let maximumMs := durationMs maximum
  if maximumMs = 0 then pure 0
  else do
    let next ← Prog.read fun s => .ok (nextJitter s.jitterState)
    change fun s => { s with jitterState := nextJitter s.jitterState }
    pure ((next % saturatingAdd maximumMs 1).toNat * 10 ^ 6)

def consumeRestartBudget (service : ManagedService W) (timestampMs : UInt64) : Call W UInt64 := do
  let name := service.descriptor.name
  let policy := service.descriptor.restartPolicy
  let cutoff := saturatingSub timestampMs (durationMs policy.restartWindow)
  changeRecord name fun record =>
    { record with restartTimesMs := record.restartTimesMs.filter (cutoff < ·) }
  let current ← record name
  if current.restartTimesMs.length ≥ policy.restartBudget.toNat then do
    changeRecord name fun record => { record with
      health := some .failed
      runtimeState := .quarantined
      operatorRequired := true
      quarantined := true }
    Prog.fail (.restartBudgetExceeded name)
  else do
    let attempt := saturatingAdd current.restartCount 1
    changeRecord name fun record => { record with
      restartTimesMs := record.restartTimesMs ++ [timestampMs]
      restartCount := attempt }
    pure attempt

def scheduleRestart (service : ManagedService W) (timestampMs : UInt64) : Call W Unit := do
  let name := service.descriptor.name
  let policy := service.descriptor.restartPolicy
  if policy.mode = .never then pure ()
  else if ← restartIsActive name then pure ()
  else do
    let _ ← consumeRestartBudget service timestampMs
    let jitter ← jitter policy.jitter
    let delay := min (policy.backoff + jitter) maxDuration
    let executeAtMs := saturatingAdd timestampMs (durationMs delay)
    changeRecord name fun record => { record with
      restartState := .scheduled executeAtMs
      runtimeState := .restartScheduled }

/-- `schedule` of the executor. -/
def schedule (command : RestartCommand W) : Call W Unit :=
  Prog.step fun s =>
    let executor := s.restartExecutor
    if executor.commands.length < executor.queueCapacity then
      .ok { s with restartExecutor := { executor with
        commands := executor.commands ++ [command]
        received := executor.received ++ [command.service.descriptor.name] } }
    else .error .restartQueueFull

/-- Whether a restart is due. -/
def RuntimeRecord.isDue (timestampMs : UInt64) (record : RuntimeRecord) : Bool :=
  match record.restartState with
  | .scheduled executeAtMs => executeAtMs ≤ timestampMs
  | _ => false

/-- The restarts that are due, with their attempts. -/
def dueRestarts (timestampMs : UInt64) (s : SupervisorInner W) : List (String × UInt64) :=
  (s.records.toList.filter fun (_, record) => RuntimeRecord.isDue timestampMs record).map
    fun (name, record) => (name, record.restartCount)

/-- What `dispatch_due_restarts` does for one restart. -/
def dispatchRestart (name : String) (attempt : UInt64) : Call W Unit := do
  let service ← service name
  match ← (schedule { service, attempt }).attempt with
  | .ok () =>
    changeRecord name fun record => { record with
      restartState := .stopping
      runtimeState := .restarting }
  | .error .restartQueueFull => pure ()
  | .error error => Prog.fail error

def dispatchDueRestarts (timestampMs : UInt64) : Call W Unit := do
  let due ← Prog.read fun s => .ok (dueRestarts timestampMs s)
  Prog.each (fun restart => dispatchRestart restart.1 restart.2) due

def quarantineOrphan (serviceId : String) : Call W Unit :=
  changeRecord serviceId fun record => { record with
    restartState := .failed
    runtimeState := .orphaned
    health := some .failed
    operatorRequired := true
    quarantined := true }

def applyRestartCompletion (completion : RestartCompletion) : Call W Unit := do
  let service ← service completion.serviceId
  match completion.outcome with
  | .restarted =>
    let health ← health service
    let runtimeState ← ask service.runtimeState
    changeRecord completion.serviceId fun record => { record with
      restartState := .none, runtimeState, health := some health }
  | .orphaned => quarantineOrphan completion.serviceId
  | .failed | .cancelled =>
    let runtimeState ← ask service.runtimeState
    changeRecord completion.serviceId fun record => { record with
      restartState := .failed, runtimeState, health := some .failed }

def drainCompletions : Call W (List RestartCompletion) := do
  let completions ← Prog.read fun s => .ok s.restartExecutor.completions
  change fun s => { s with restartExecutor := { s.restartExecutor with completions := [] } }
  pure completions

def applyRestartCompletions : Call W Unit := do
  let completions ← drainCompletions
  Prog.each applyRestartCompletion completions

/-! ## The lifecycle -/

def register (service : ManagedService W) : Call W Unit :=
  Prog.step fun s => do
    service.descriptor.validate
    let name := service.descriptor.name
    if name ∈ s.services.map then .error (.serviceAlreadyRegistered name)
    else .ok { s with
      services := s.services.insert service
      records := s.records.insert name .default }

def registerOrReplaceInactive (service : ManagedService W) : Call W Unit :=
  Prog.step fun s => do
    service.descriptor.validate
    let name := service.descriptor.name
    if s.services.map[name]?.any fun current => current.descriptor.activation.isEnabled then
      .error (.serviceAlreadyRegistered name)
    else .ok { s with
      services := s.services.insert service
      records := s.records.insert name .default }

def start (name : String) : Call W Unit := do
  let service ← service name
  if ¬ service.descriptor.activation.isEnabled then pure ()
  else do
    requireDependencies service
    let _ ← record name
    match ← ask service.start with
    | .ok () =>
      let health ← health service
      let runtimeState ← ask service.runtimeState
      let _ ← updateRecord name health runtimeState
      pure ()
    | .error error =>
      let runtimeState ← ask service.runtimeState
      let _ ← updateRecord name .failed runtimeState
      Prog.fail error

def reconcileService (timestampMs : UInt64) (name : String) : Call W Unit := do
  let service ← service name
  if ¬ service.descriptor.activation.isEnabled then pure ()
  else
    match ← firstUnavailableDependency service with
    | some _ =>
      let runtimeState ← ask service.runtimeState
      let _ ← updateRecord name .degraded runtimeState
      pure ()
    | none =>
      let health ← health service
      let runtimeState ← ask service.runtimeState
      let _ ← updateRecord name health runtimeState
      if health.isFailed then
        match ← (scheduleRestart service timestampMs).attempt with
        | .error (.restartBudgetExceeded _) | .ok () => pure ()
        | .error error => Prog.fail error
      else pure ()

def reconcile (timestampMs : UInt64) : Call W Unit := do
  applyRestartCompletions
  let order ← validate
  Prog.each (reconcileService timestampMs) order
  dispatchDueRestarts timestampMs

def restart (name : String) (timestampMs : UInt64) : Call W Unit := do
  let service ← service name
  requireDependencies service
  scheduleRestart service timestampMs

def recordStopped (name : String) : Call W Unit := do
  let _ ← updateRecord name .unknown .stopped
  pure ()

def recordStopFailure (service : ManagedService W) : Call W Unit := do
  let name := service.descriptor.name
  let runtimeState ← ask service.runtimeState
  if runtimeState = .orphaned then quarantineOrphan name
  else do
    let runtimeState ← ask service.runtimeState
    let _ ← updateRecord name .failed runtimeState
    pure ()

def stop (name : String) : Call W Unit := do
  let service ← service name
  if ¬ service.descriptor.activation.isEnabled then pure ()
  else
    match ← ask (service.stop service.descriptor.restartPolicy.shutdownTimeout) with
    | .ok () => recordStopped name
    | .error error => do
        recordStopFailure service
        Prog.fail error

/-- A worker takes the next command. -/
def takeCommand (s : SupervisorInner W) : Option (SupervisorInner W) :=
  match s.restartExecutor.commands with
  | [] => none
  | command :: commands =>
    if s.restartExecutor.workers.length < s.restartExecutor.workerCount then
      some { s with restartExecutor := { s.restartExecutor with
        commands
        workers := s.restartExecutor.workers ++ [{ command, phase := .stopping }] } }
    else none

/-- `execute_restart`, one call on the service after the other. -/
def executeRestart (worker : RestartWorker W) (world : W) : WorkerPhase × W :=
  let service := worker.command.service
  match worker.phase with
  | .stopping =>
    match service.stop service.descriptor.restartPolicy.shutdownTimeout world with
    | (.ok (), world) => (.starting, world)
    | (.error _, world) =>
      let (runtimeState, world) := service.runtimeState world
      (.completed (if runtimeState = .orphaned then .orphaned else .failed), world)
  | .starting =>
    match service.start world with
    | (.ok (), world) => (.completed .restarted, world)
    | (.error _, world) => (.completed .failed, world)
  | .completed outcome => (.completed outcome, world)

/-- A worker goes on with its command, or sends the completion when the queue has room. -/
def workerStep (index : Nat) (s : SupervisorInner W) : Option (SupervisorInner W) :=
  match s.restartExecutor.workers[index]? with
  | none => none
  | some worker =>
    match worker.phase with
    | .completed outcome =>
      if s.restartExecutor.completions.length < s.restartExecutor.completionCapacity then
        some { s with restartExecutor := { s.restartExecutor with
          completions := s.restartExecutor.completions ++
            [{ serviceId := worker.command.service.descriptor.name,
               attempt := worker.command.attempt, outcome }]
          workers := s.restartExecutor.workers.eraseIdx index } }
      else none
    | _ =>
      let (phase, world) := executeRestart worker s.world
      some { s with
        world
        restartExecutor := { s.restartExecutor with
          workers := s.restartExecutor.workers.set index { worker with phase } } }

end SupervisorInner

/-- What happens to a supervisor: a call, a step of a worker, or a change of the world. -/
inductive SupervisorStep (W : Type) where
  | register (service : ManagedService W)
  | registerOrReplaceInactive (service : ManagedService W)
  | start (name : String)
  | reconcile (timestampMs : UInt64)
  | restart (name : String) (timestampMs : UInt64)
  | stop (name : String)
  | takeCommand
  | worker (index : Nat)
  | environment (world : W)

namespace SupervisorInner

variable {W : Type}

def step (s : SupervisorInner W) : SupervisorStep W → Option (SupervisorInner W)
  | .register service => some ((register service).final s)
  | .registerOrReplaceInactive service => some ((registerOrReplaceInactive service).final s)
  | .start name => some ((start name).final s)
  | .reconcile timestampMs => some ((reconcile timestampMs).final s)
  | .restart name timestampMs => some ((restart name timestampMs).final s)
  | .stop name => some ((stop name).final s)
  | .takeCommand => s.takeCommand
  | .worker index => s.workerStep index
  | .environment world => some { s with world }

def run (s : SupervisorInner W) (steps : List (SupervisorStep W)) : Option (SupervisorInner W) :=
  steps.foldlM step s

end SupervisorInner

end AppCore.Supervisor
