import Mathlib

/-!
# Managed services

`health.rs`, `policy.rs`, `service.rs` and `error.rs` of the supervisor: the states of a service,
the policy by which it is restarted, and its descriptor. The resource of a service and whether it is
critical, that only diagnoses show, are left out.
-/

namespace AppCore.Supervisor

/-! ## States -/

inductive ServiceHealth where
  | ready
  | healthy
  | degraded
  | failed
  | starting
  | stopping
  | unknown
  deriving DecidableEq, Repr

def ServiceHealth.dependencyReady (health : ServiceHealth) : Bool :=
  health = .ready ∨ health = .healthy ∨ health = .degraded

def ServiceHealth.isFailed (health : ServiceHealth) : Bool := health = .failed

inductive ServiceActivationState where
  | enabled
  | disabled
  | notConfigured
  deriving DecidableEq, Repr

def ServiceActivationState.isEnabled (activation : ServiceActivationState) : Bool :=
  activation = .enabled

inductive ServiceRuntimeState where
  | starting
  | running
  | stopRequested
  | stopping
  | stopped
  | restartScheduled
  | restarting
  | orphaned
  | quarantined
  | failed
  deriving DecidableEq, Repr

inductive DependencyRequirement where
  | ready
  | healthy
  | degradedAllowed
  | optional
  deriving DecidableEq, Repr

def DependencyRequirement.accepts (health : ServiceHealth) : DependencyRequirement → Bool
  | .ready => health = .ready ∨ health = .healthy
  | .healthy => health = .healthy
  | .degradedAllowed => health.dependencyReady
  | .optional => true

/-- `SupervisorError`. A lock is never poisoned: no call panics while it holds one. -/
inductive SupervisorError where
  | invalidConfiguration (reason : String)
  | serviceAlreadyRegistered (service : String)
  | serviceNotFound (service : String)
  | dependencyNotFound (service dependency : String)
  | dependencyCycle (cycle : List String)
  | dependencyUnavailable (service dependency : String)
  | serviceFailure (service reason : String)
  | shutdownTimeout (service : String)
  | serviceOrphaned (service : String)
  | restartBudgetExceeded (service : String)
  | restartQueueFull
  | restartExecutorStopped
  deriving DecidableEq, Repr

/-! ## Policies and descriptors -/

/-- `Duration`, in nanoseconds. -/
abbrev Duration := Nat

def durationMs (duration : Duration) : UInt64 := .ofNat (min (duration / 10 ^ 6) (2 ^ 64 - 1))

inductive RestartMode where
  | never
  | onFailure
  | always
  deriving DecidableEq, Repr

structure RestartPolicy where
  mode : RestartMode
  restartBudget : UInt32
  restartWindow : Duration
  backoff : Duration
  jitter : Duration
  shutdownTimeout : Duration
  deriving DecidableEq, Repr

def RestartPolicy.default : RestartPolicy :=
  { mode := .onFailure, restartBudget := 5, restartWindow := 600 * 10 ^ 9, backoff := 10 ^ 8,
    jitter := 5 * 10 ^ 7, shutdownTimeout := 10 * 10 ^ 9 }

def RestartPolicy.validate (policy : RestartPolicy) : Except SupervisorError Unit :=
  if policy.mode ≠ .never ∧ (policy.restartBudget = 0 ∨ policy.restartWindow = 0) then
    .error (.invalidConfiguration "automatic restart requires a non-zero budget and window")
  else if policy.shutdownTimeout = 0 then
    .error (.invalidConfiguration "shutdown_timeout must be greater than zero")
  else .ok ()

structure ServiceDependency where
  serviceId : String
  requirement : DependencyRequirement
  deriving DecidableEq, Repr

structure ServiceDescriptor where
  name : String
  dependencies : List ServiceDependency
  restartPolicy : RestartPolicy
  activation : ServiceActivationState
  deriving DecidableEq, Repr

/-- An enabled service without dependencies. -/
def ServiceDescriptor.new (name : String) (restartPolicy : RestartPolicy) : ServiceDescriptor :=
  { name, dependencies := [], restartPolicy, activation := .enabled }

def validateName (name : String) : Except SupervisorError Unit :=
  if name.isEmpty ∨ name.utf8ByteSize > 128 ∨
      ¬ name.toList.all fun c => c.isAlphanum || c == '.' || c == '-' || c == '_' then
    .error (.invalidConfiguration "service name is invalid")
  else .ok ()

def ServiceDescriptor.validate (descriptor : ServiceDescriptor) : Except SupervisorError Unit := do
  validateName descriptor.name
  descriptor.restartPolicy.validate

end AppCore.Supervisor
