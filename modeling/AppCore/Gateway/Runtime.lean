import AppCore.Base.Runs

/-!
# The gateway runtime

`GatewayRuntime` of `runtime.rs`: it owns the one thread that a gateway runs on. `start` and
`snapshot` hold the lock of the state from their first to their last line and are a step each. `stop`
takes the thread out of the state, waits for it without the lock, and locks again to record the
outcome; what it does in each of the two sections is a step. Threads end at any time, and any number
of calls is waiting.

* `one_gateway` — as long as no stop call begins while another one waits for a thread that has not
  finished, and none spawns a thread while one waits, there is one thread at most that has not
  finished, and a stop call that succeeds leaves none of those that were spawned before it.
-/

namespace AppCore.Gateway

/-! ## The runtime -/

inductive GatewayRuntimeState where
  | stopped
  | starting
  | running
  | stopping
  | failed
  | orphaned
  deriving DecidableEq, Repr

/-- `GatewayMetrics`, as a snapshot reads it. -/
structure GatewayMetrics where
  activeWorkers : Nat
  activeClients : Nat
  messagesRouted : Nat
  routingFailures : Nat
  deriving DecidableEq, Repr

/-- What `join` returns for a thread. -/
inductive GatewayEnd where
  | returned (result : Except String Unit)
  | panicked

/-- A gateway that was spawned: the grace its thread was told to shut down with, the metrics of its
state, and what the thread returned once it finished. -/
structure GatewayThread where
  shutdown : Option Nat
  metrics : GatewayMetrics
  ended : Option GatewayEnd

/-- `RunningGateway`: the thread it has the handle and the shutdown sender of. -/
structure RunningGateway where
  handle : Nat
  deriving DecidableEq, Repr

/-- `RuntimeInner`; the state of a gateway goes by the number of its thread. -/
structure RuntimeInner where
  state : GatewayRuntimeState
  running : Option RunningGateway
  gatewayState : Option Nat
  boundAddress : Option String
  lastError : Option String
  deriving DecidableEq, Repr

/-- A call of `stop` between its two sections, and how many threads there were when it was made. -/
structure StopCall where
  running : RunningGateway
  spawned : Nat

/-- `GatewayRuntime`, with the threads it spawned and the stop calls that are waiting. -/
structure GatewayRuntime where
  bindAddress : String
  inner : RuntimeInner
  threads : List GatewayThread
  waiting : List StopCall

structure GatewayRuntimeSnapshot where
  state : GatewayRuntimeState
  configuredBindAddress : String
  boundAddress : Option String
  activeWorkers : Nat
  activeClients : Nat
  messagesRouted : Nat
  routingFailures : Nat
  lastError : Option String
  deriving DecidableEq, Repr

/-- `MAX_SHUTDOWN_JOIN_RESERVE`, in milliseconds. -/
def maxShutdownJoinReserve : Nat := 100

def gracefulShutdownBudget (timeout : Nat) : Nat := timeout - min timeout maxShutdownJoinReserve

/-- What a `GatewayError::Transport` displays. -/
def transportError (reason : String) : String := "transport error: " ++ reason

namespace GatewayRuntime

/-- `GatewayRuntime::with_replay_store`, after its configuration was validated. -/
def new (bindAddress : String) : GatewayRuntime :=
  { bindAddress
    inner := { state := .stopped, running := none, gatewayState := none, boundAddress := none,
               lastError := none }
    threads := [], waiting := [] }

/-- A thread that has not finished. -/
def Unfinished (r : GatewayRuntime) (t : Nat) : Prop :=
  ∃ thread, r.threads[t]? = some thread ∧ thread.ended = none

/-- What the thread of a handle ended with: `is_finished` asks whether there is something. -/
def ended (r : GatewayRuntime) (running : RunningGateway) : Option GatewayEnd :=
  r.threads[running.handle]?.bind GatewayThread.ended

/-- `join_runtime` of a thread that has finished. -/
def joinRuntime : GatewayEnd → Except String Unit
  | .returned result => result
  | .panicked => .error (transportError "gateway runtime thread panicked")

/-- The error of a result. -/
def errorOf : Except String Unit → Option String
  | .ok () => none
  | .error error => some error

/-- `shutdown.borrow().is_some()`. -/
def requested (r : GatewayRuntime) (running : RunningGateway) : Bool :=
  (r.threads[running.handle]?.bind GatewayThread.shutdown).isSome

/-- `shutdown.send_replace(Some(grace))`. -/
def sendShutdown (r : GatewayRuntime) (running : RunningGateway) (grace : Nat) : GatewayRuntime :=
  { r with threads :=
      r.threads.modify running.handle fun thread => { thread with shutdown := some grace } }

def refreshRuntime (r : GatewayRuntime) : GatewayRuntime :=
  match r.inner.running with
  | none => r
  | some running =>
    match r.ended running with
    | none => r
    | some e =>
      { r with inner := { r.inner with
          running := none
          state :=
            if r.requested running ∧ errorOf (joinRuntime e) = none then .stopped else .failed
          lastError := errorOf (joinRuntime e) } }

/-- `start`, when `prepare_instance` binds an address and spawns a thread, or fails. -/
def start (r : GatewayRuntime) (prepared : Except String String) :
    Except String Unit × GatewayRuntime :=
  let r := r.refreshRuntime
  match r.inner.state with
  | .running => (.ok (), r)
  | .starting | .stopping =>
    (.error (transportError "gateway lifecycle transition already in progress"), r)
  | .orphaned =>
    (.error (transportError "orphaned gateway instance cannot be restarted"), r)
  | .stopped | .failed =>
    match prepared with
    | .ok address =>
      (.ok (), { r with
        inner :=
          { state := .running, running := some { handle := r.threads.length },
            gatewayState := some r.threads.length, boundAddress := some address,
            lastError := none }
        threads := r.threads ++ [{ shutdown := none, metrics := ⟨0, 0, 0, 0⟩, ended := none }] })
    | .error error =>
      (.error error, { r with inner := { r.inner with state := .failed, lastError := some error } })

/-- The first section of `stop`: its result, or the thread it goes on to wait for. -/
def stop (r : GatewayRuntime) (timeout : Nat) :
    Except String (Option RunningGateway) × GatewayRuntime :=
  let r := r.refreshRuntime
  match r.inner.running with
  | none =>
    (.ok none,
      if r.inner.state ≠ .orphaned then { r with inner := { r.inner with state := .stopped } }
      else r)
  | some running =>
    let r := { r with inner := { r.inner with running := none, state := .stopping } }
    (.ok (some running), r.sendShutdown running (gracefulShutdownBudget timeout))

/-- The end of `stop`: the thread has finished, or it has not and the deadline is over. -/
def stopped (r : GatewayRuntime) (running : RunningGateway) : Except String Unit × GatewayRuntime :=
  match r.ended running with
  | none =>
    (.error (transportError "gateway shutdown timed out"), { r with inner := { r.inner with
      running := some running, state := .orphaned
      lastError := some "gateway shutdown timed out" } })
  | some e =>
    (joinRuntime e, { r with inner := { r.inner with
      state := if errorOf (joinRuntime e) = none then .stopped else .failed
      lastError := errorOf (joinRuntime e) } })

/-- `snapshot`, and the state that `refresh_runtime` leaves. -/
def snapshot (r : GatewayRuntime) : GatewayRuntimeSnapshot × GatewayRuntime :=
  let r := r.refreshRuntime
  let metrics :=
    (r.inner.gatewayState.bind fun t => r.threads[t]?.map GatewayThread.metrics).getD ⟨0, 0, 0, 0⟩
  ({ state := r.inner.state, configuredBindAddress := r.bindAddress
     boundAddress := r.inner.boundAddress
     activeWorkers := metrics.activeWorkers, activeClients := metrics.activeClients
     messagesRouted := metrics.messagesRouted, routingFailures := metrics.routingFailures
     lastError := r.inner.lastError }, r)

end GatewayRuntime

/-! ## Runs -/

/-- A section of a call, the end of a thread, or the metrics of a gateway as it works. -/
inductive RuntimeStep where
  | start (prepared : Except String String)
  | stop (timeout : Nat)
  | stopped (call : Nat)
  | snapshot
  | finished (t : Nat) (ended : GatewayEnd)
  | counted (t : Nat) (metrics : GatewayMetrics)

namespace GatewayRuntime

/-- The first section of `stop`, after which the call is waiting if it took a thread. -/
def stopSection (r : GatewayRuntime) (timeout : Nat) : GatewayRuntime :=
  match r.stop timeout with
  | (.ok (some running), r') =>
    { r' with waiting := r'.waiting ++ [{ running, spawned := r.threads.length }] }
  | (_, r') => r'

/-- The end of a call of `stop`, which is not waiting any more. -/
def stoppedSection (r : GatewayRuntime) (call : Nat) (c : StopCall) : GatewayRuntime :=
  let r := (r.stopped c.running).2
  { r with waiting := r.waiting.eraseIdx call }

/-- One step; there is none when no call is waiting at that place, and a thread ends once. -/
def step (r : GatewayRuntime) : RuntimeStep → Option GatewayRuntime
  | .start prepared => some (r.start prepared).2
  | .stop timeout => some (r.stopSection timeout)
  | .stopped call => r.waiting[call]?.map (r.stoppedSection call)
  | .snapshot => some r.snapshot.2
  | .finished t ended =>
    match r.threads[t]? with
    | some { shutdown, metrics, ended := none } =>
      some { r with threads := r.threads.set t { shutdown, metrics, ended := some ended } }
    | _ => none
  | .counted t metrics =>
    some { r with threads := r.threads.modify t fun thread => { thread with metrics } }

/-- One thread at most has not finished, and a state that is running has a thread. -/
structure OneGateway (r : GatewayRuntime) : Prop where
  one : ∀ t u, r.Unfinished t → r.Unfinished u → t = u
  held : r.inner.state = .running → r.inner.running.isSome

/-- A stop call that succeeds in this step does so when no thread is running that was spawned before
the call. -/
structure StopMeansStopped (r : GatewayRuntime) (step : RuntimeStep) : Prop where
  atOnce : ∀ timeout, step = .stop timeout → (r.stop timeout).1 = .ok none → ∀ t, ¬ r.Unfinished t
  waited : ∀ call c, step = .stopped call → r.waiting[call]? = some c →
    (r.stopped c.running).1 = .ok () → ∀ t, t < c.spawned → ¬ r.Unfinished t

/-- A stop call begins only when no other one waits for a thread that has not finished, and a start
that spawns a thread only when none waits at all. -/
structure InTurn (r : GatewayRuntime) (step : RuntimeStep) : Prop where
  stop : ∀ timeout, step = .stop timeout → ∀ c ∈ r.waiting, ¬ r.Unfinished c.running.handle
  start : ∀ address, step = .start (.ok address) →
    r.refreshRuntime.inner.state = .stopped ∨ r.refreshRuntime.inner.state = .failed → r.waiting = []

/-! ## The invariant -/

/-- Every thread that has not finished is in the state or waited for by the one call there is, and
the state says which. -/
structure Owned (r : GatewayRuntime) : Prop where
  held : r.inner.state = .running → r.inner.running.isSome
  idle : r.inner.state = .stopped ∨ r.inner.state = .failed → r.inner.running = none
  kept : ∀ t, r.Unfinished t →
    r.inner.running = some { handle := t } ∨ ∃ c ∈ r.waiting, c.running = { handle := t }
  call : r.waiting = [] ∨ (∃ c, r.waiting = [c]) ∧ r.inner.running = none

variable {r r' : GatewayRuntime} {t : Nat}

theorem not_unfinished_of_ended {running : RunningGateway} {e : GatewayEnd}
    (h : r.ended running = some e) : ¬ r.Unfinished running.handle := by
  intro hrunning
  obtain ⟨thread, ht, hended⟩ := hrunning
  simp [ended, ht, hended] at h

theorem Owned.one (h : r.Owned) {u : Nat} (ht : r.Unfinished t) (hu : r.Unfinished u) : t = u := by
  rcases h.call with hnone | ⟨⟨c, hc⟩, hrunning⟩
  · have hheld : ∀ t, r.Unfinished t → r.inner.running = some { handle := t } := by
      intro t ht
      rcases h.kept t ht with hheld | ⟨c, hc, -⟩
      · exact hheld
      · rw [hnone] at hc
        cases hc
    have heq := (hheld t ht).symm.trans (hheld u hu)
    cases heq
    rfl
  · have hwaited : ∀ t, r.Unfinished t → c.running = { handle := t } := by
      intro t ht
      rcases h.kept t ht with hheld | ⟨c', hc', heq⟩
      · rw [hrunning] at hheld
        cases hheld
      · rw [hc, List.mem_singleton] at hc'
        exact hc' ▸ heq
    have heq := (hwaited t ht).symm.trans (hwaited u hu)
    cases heq
    rfl

theorem Owned.nothing (h : r.Owned) (hrunning : r.inner.running = none) (hwaiting : r.waiting = []) :
    ¬ r.Unfinished t := by
  intro ht
  rcases h.kept t ht with hheld | ⟨c, hc, -⟩
  · rw [hrunning] at hheld
    cases hheld
  · rw [hwaiting] at hc
    cases hc

/-- Nothing to join, or the thread has finished and is joined. -/
theorem refreshRuntime_cases (r : GatewayRuntime) :
    r.refreshRuntime = r ∨ ∃ running e, r.inner.running = some running ∧ r.ended running = some e ∧
      r.refreshRuntime.threads = r.threads ∧ r.refreshRuntime.waiting = r.waiting ∧
      r.refreshRuntime.inner.running = none ∧
      (r.refreshRuntime.inner.state = .stopped ∨ r.refreshRuntime.inner.state = .failed) := by
  unfold refreshRuntime
  split
  · exact Or.inl rfl
  next running hrunning =>
    split
    · exact Or.inl rfl
    next e hended =>
      refine Or.inr ⟨running, e, hrunning, hended, rfl, rfl, rfl, ?_⟩
      dsimp only
      split
      · exact Or.inl rfl
      · exact Or.inr rfl

@[simp] theorem refreshRuntime_threads : r.refreshRuntime.threads = r.threads := by
  rcases r.refreshRuntime_cases with h | ⟨running, e, -, -, hthreads, -⟩
  · rw [h]
  · exact hthreads

@[simp] theorem refreshRuntime_waiting : r.refreshRuntime.waiting = r.waiting := by
  rcases r.refreshRuntime_cases with h | ⟨running, e, -, -, -, hwaiting, -⟩
  · rw [h]
  · exact hwaiting

@[simp] theorem unfinished_refreshRuntime : r.refreshRuntime.Unfinished t ↔ r.Unfinished t := by
  simp [Unfinished]

theorem owned_refreshRuntime (h : r.Owned) : r.refreshRuntime.Owned := by
  rcases r.refreshRuntime_cases with heq | ⟨running, e, hrunning, hended, -, hwaiting, hnone, hstate⟩
  · rw [heq]
    exact h
  · -- a call that waits would have left no thread in the state
    have hempty : r.waiting = [] := by
      rcases h.call with hempty | ⟨-, hnone⟩
      · exact hempty
      · rw [hnone] at hrunning
        cases hrunning
    refine ⟨fun hstate' => ?_, fun _ => hnone, fun t ht => ?_, Or.inl (hwaiting.trans hempty)⟩
    · rcases hstate with hs | hs <;> rw [hs] at hstate' <;> cases hstate'
    · have ht := unfinished_refreshRuntime.1 ht
      rcases h.kept t ht with hheld | ⟨c, hc, -⟩
      · rw [hrunning] at hheld
        cases hheld
        exact absurd ht (not_unfinished_of_ended hended)
      · rw [hempty] at hc
        cases hc

/-! ## The steps -/

theorem unfinished_sendShutdown {running : RunningGateway} {grace : Nat} :
    (r.sendShutdown running grace).Unfinished t ↔ r.Unfinished t := by
  simp only [Unfinished, sendShutdown, List.getElem?_modify]
  by_cases hu : running.handle = t
  · subst hu
    cases r.threads[running.handle]? with
    | none => simp
    | some thread => simp
  · simp [hu]

theorem unfinished_append {thread : GatewayThread} {threads : List GatewayThread}
    (hnone : ∀ t, ¬ GatewayRuntime.Unfinished { r with threads } t)
    (ht : GatewayRuntime.Unfinished { r with threads := threads ++ [thread] } t) :
    t = threads.length := by
  obtain ⟨found, ht, hended⟩ := ht
  rcases Nat.lt_trichotomy t threads.length with hlt | heq | hgt
  · refine absurd ⟨found, ?_, hended⟩ (hnone t)
    exact (List.getElem?_append_left hlt).symm.trans ht
  · exact heq
  · have hout : (threads ++ [thread]).length ≤ t := by
      simp only [List.length_append, List.length_singleton]
      omega
    rw [List.getElem?_eq_none hout] at ht
    cases ht

theorem owned_spawned (h : r.Owned) (hnone : r.inner.running = none) (hempty : r.waiting = [])
    (address : String) (thread : GatewayThread) :
    GatewayRuntime.Owned { r with
      inner := { state := .running, running := some { handle := r.threads.length },
                 gatewayState := some r.threads.length, boundAddress := some address,
                 lastError := none }
      threads := r.threads ++ [thread] } := by
  refine ⟨fun _ => rfl, ?_, fun t ht => Or.inl ?_, Or.inl hempty⟩
  · rintro (hs | hs) <;> cases hs
  · have heq := unfinished_append (r := r) (fun t => h.nothing hnone hempty) ht
    rw [heq]

theorem owned_start (h : r.Owned) {prepared : Except String String}
    (hturn : r.InTurn (.start prepared)) : (r.start prepared).2.Owned := by
  have hr := owned_refreshRuntime h
  have hspawned : ∀ address, prepared = .ok address →
      r.refreshRuntime.inner.state = .stopped ∨ r.refreshRuntime.inner.state = .failed →
      r.refreshRuntime.waiting = [] := by
    intro address heq hstate
    subst heq
    exact refreshRuntime_waiting.trans (hturn.start address rfl hstate)
  unfold start
  dsimp only
  cases hstate : r.refreshRuntime.inner.state with
  | running => exact hr
  | starting => exact hr
  | stopping => exact hr
  | orphaned => exact hr
  | stopped =>
    have hnone := hr.idle (Or.inl hstate)
    cases prepared with
    | error error => exact ⟨nofun, fun _ => hnone, hr.kept, hr.call⟩
    | ok address =>
      exact owned_spawned hr hnone (hspawned address rfl (Or.inl hstate)) address _
  | failed =>
    have hnone := hr.idle (Or.inr hstate)
    cases prepared with
    | error error => exact ⟨nofun, fun _ => hnone, hr.kept, hr.call⟩
    | ok address =>
      exact owned_spawned hr hnone (hspawned address rfl (Or.inr hstate)) address _

/-- The first section of `stop`: a state that still has a thread has no call that waits. -/
theorem owned_stop (h : r.Owned) (timeout : Nat) : (r.stopSection timeout).Owned := by
  have hr := owned_refreshRuntime h
  unfold stopSection stop
  dsimp only
  cases hrunning : r.refreshRuntime.inner.running with
  | none =>
    dsimp only
    split
    · refine ⟨nofun, fun _ => rfl, fun t ht => ?_, hr.call.imp_right fun hone => ⟨hone.1, rfl⟩⟩
      rcases hr.kept t ht with hheld | hwaited
      · rw [hrunning] at hheld
        cases hheld
      · exact Or.inr hwaited
    · exact hr
  | some running =>
    have hempty : r.refreshRuntime.waiting = [] := by
      rcases hr.call with hempty | ⟨-, hnone⟩
      · exact hempty
      · rw [hnone] at hrunning
        cases hrunning
    refine ⟨nofun, ?_, fun t ht => Or.inr ?_,
      Or.inr ⟨⟨{ running, spawned := r.threads.length }, ?_⟩, rfl⟩⟩
    · rintro (hs | hs) <;> cases hs
    · rcases hr.kept t (unfinished_sendShutdown.1 ht) with hheld | ⟨c, hc, -⟩
      · rw [hrunning, Option.some.injEq] at hheld
        exact ⟨_, List.mem_append_right _ List.mem_cons_self, hheld⟩
      · rw [hempty] at hc
        cases hc
    · change r.refreshRuntime.waiting ++ _ = _
      rw [hempty, List.nil_append]

theorem Owned.waiting_eq (h : r.Owned) {call : Nat} {c : StopCall}
    (hcall : r.waiting[call]? = some c) :
    r.waiting = [c] ∧ call = 0 ∧ r.inner.running = none := by
  rcases h.call with hempty | ⟨⟨c', hc'⟩, hrunning⟩
  · simp [hempty] at hcall
  · rw [hc'] at hcall
    cases call with
    | zero =>
      cases hcall
      exact ⟨hc', rfl, hrunning⟩
    | succ n => simp at hcall

/-- The end of `stop` puts back the thread it waited for when that has not finished. -/
theorem owned_stopped (h : r.Owned) {call : Nat} {c : StopCall}
    (hcall : r.waiting[call]? = some c) : (r.stoppedSection call c).Owned := by
  obtain ⟨hwaiting, rfl, hrunning⟩ := h.waiting_eq hcall
  have herase : r.waiting.eraseIdx 0 = [] := by rw [hwaiting]; rfl
  have hwaited : ∀ t, r.Unfinished t → c.running = { handle := t } := by
    intro t ht
    rcases h.kept t ht with hheld | ⟨c', hc', heq⟩
    · rw [hrunning] at hheld
      cases hheld
    · rw [hwaiting, List.mem_singleton] at hc'
      exact hc' ▸ heq
  unfold stoppedSection stopped
  cases hended : r.ended c.running with
  | none =>
    refine ⟨nofun, ?_, fun t ht => Or.inl (congrArg some (hwaited t ht)), Or.inl herase⟩
    rintro (hs | hs) <;> cases hs
  | some e =>
    refine ⟨fun hs => ?_, fun _ => hrunning, fun t ht => ?_, Or.inl herase⟩
    · dsimp only at hs
      split at hs <;> cases hs
    · have hfinished := not_unfinished_of_ended hended
      rw [hwaited t ht] at hfinished
      exact absurd ht hfinished

theorem Owned.of_threads (h : r.Owned) {threads : List GatewayThread}
    (hback : ∀ t, GatewayRuntime.Unfinished { r with threads } t → r.Unfinished t) :
    GatewayRuntime.Owned { r with threads } :=
  ⟨h.held, h.idle, fun t ht => h.kept t (hback t ht), h.call⟩

theorem owned_step (h : r.Owned) {step : RuntimeStep} (hturn : r.InTurn step)
    (hstep : r.step step = some r') : r'.Owned := by
  cases step with
  | start prepared =>
    cases hstep
    exact owned_start h hturn
  | stop timeout =>
    cases hstep
    exact owned_stop h timeout
  | stopped call =>
    obtain ⟨c, hcall, rfl⟩ := Option.map_eq_some_iff.1 hstep
    exact owned_stopped h hcall
  | snapshot =>
    cases hstep
    exact owned_refreshRuntime h
  | finished u ended =>
    simp only [GatewayRuntime.step] at hstep
    split at hstep
    next shutdown metrics hthread =>
      cases hstep
      refine h.of_threads fun t ht => ?_
      obtain ⟨thread, ht, hended⟩ := ht
      change (r.threads.set u _)[t]? = _ at ht
      rw [List.getElem?_set] at ht
      by_cases hu : u = t
      · rw [if_pos hu] at ht
        split at ht
        · cases ht
          cases hended
        · cases ht
      · rw [if_neg hu] at ht
        exact ⟨thread, ht, hended⟩
    next => cases hstep
  | counted u metrics =>
    cases hstep
    refine h.of_threads fun t ht => ?_
    obtain ⟨thread, ht, hended⟩ := ht
    change (r.threads.modify u _)[t]? = _ at ht
    rw [List.getElem?_modify] at ht
    cases hthread : r.threads[t]? with
    | none => simp [hthread] at ht
    | some old =>
      refine ⟨old, hthread, ?_⟩
      rw [hthread, Option.map_eq_map, Option.map_some, Option.some.injEq] at ht
      by_cases hu : u = t
      · rw [if_pos hu] at ht
        rw [← hended, ← ht]
      · rw [if_neg hu] at ht
        exact ht ▸ hended

/-- A stop call that succeeds, at once or after it waited, leaves no thread. -/
theorem stopMeansStopped_of_owned (h : r.Owned) {step : RuntimeStep} (hturn : r.InTurn step) :
    r.StopMeansStopped step where
  atOnce timeout hstep hok t ht := by
    have hr := owned_refreshRuntime h
    unfold stop at hok
    cases hrunning : r.refreshRuntime.inner.running with
    | none =>
      rcases hr.kept t (unfinished_refreshRuntime.2 ht) with hheld | ⟨c, hc, heq⟩
      · rw [hrunning] at hheld
        cases hheld
      · have hfinished := hturn.stop timeout hstep c (refreshRuntime_waiting ▸ hc)
        rw [heq] at hfinished
        exact hfinished ht
    | some running =>
      simp only [hrunning] at hok
      cases hok
  waited call c hstep hcall hok t hspawned ht := by
    obtain ⟨hwaiting, -, hrunning⟩ := h.waiting_eq hcall
    rcases h.kept t ht with hheld | ⟨c', hc', heq⟩
    · rw [hrunning] at hheld
      cases hheld
    · rw [hwaiting, List.mem_singleton] at hc'
      subst hc'
      unfold stopped at hok
      cases hended : r.ended c'.running with
      | none =>
        rw [hended] at hok
        cases hok
      | some e =>
        have hfinished := not_unfinished_of_ended hended
        rw [heq] at hfinished
        exact hfinished ht

/-! ## Runs -/

theorem owned_new (bindAddress : String) : (new bindAddress).Owned := by
  refine ⟨nofun, fun _ => rfl, fun t ht => ?_, Or.inl rfl⟩
  obtain ⟨thread, ht, -⟩ := ht
  cases ht

end GatewayRuntime

open GatewayRuntime

/-- **One gateway at a time, and stop means stopped**, in every run in which no stop call begins
while another one waits for a thread that has not finished, and no start spawns a thread while a
stop call waits. -/
theorem one_gateway (bindAddress : String) (steps : List RuntimeStep)
    (hturn : EachStep GatewayRuntime.step InTurn (new bindAddress) steps) :
    Throughout GatewayRuntime.step OneGateway (new bindAddress) steps ∧
      EachStep GatewayRuntime.step StopMeansStopped (new bindAddress) steps := by
  have howned : Throughout GatewayRuntime.step Owned (new bindAddress) steps :=
    throughout_of_step (owned_new bindAddress) (fun _ _ _ h hturn => owned_step h hturn) hturn
  refine ⟨howned.imp fun r h => ⟨fun t u ht hu => h.one ht hu, h.held⟩, ?_⟩
  exact howned.eachStep hturn fun r step h hturn => stopMeansStopped_of_owned h hturn

/-- A gateway that is started, stopped and started again. -/
theorem one_gateway_restarted :
    let steps : List RuntimeStep := [.start (.ok "127.0.0.1:8080"), .stop 2000,
      .finished 0 (.returned (.ok ())), .stopped 0, .start (.ok "127.0.0.1:8080")]
    Throughout GatewayRuntime.step OneGateway (new "127.0.0.1:8080") steps ∧
      EachStep GatewayRuntime.step StopMeansStopped (new "127.0.0.1:8080") steps := by
  refine one_gateway _ _ ?_
  -- no call waits when one of the starts or the stop is made
  have hempty : ∀ {r : GatewayRuntime} {step}, r.waiting = [] → r.InTurn step := by
    intro r step hempty
    refine ⟨fun timeout _ c hc => ?_, fun address _ _ => hempty⟩
    rw [hempty] at hc
    cases hc
  have hother : ∀ {r : GatewayRuntime} {step}, (∀ timeout, step ≠ .stop timeout) →
      (∀ address, step ≠ .start (.ok address)) → r.InTurn step :=
    fun hstop hstart => ⟨fun timeout h => absurd h (hstop timeout),
      fun address h => absurd h (hstart address)⟩
  refine eachStep_cons.2 ⟨hempty rfl, fun r hr => ?_⟩
  cases hr
  refine eachStep_cons.2 ⟨hempty rfl, fun r hr => ?_⟩
  cases hr
  refine eachStep_cons.2 ⟨hother nofun nofun, fun r hr => ?_⟩
  cases hr
  refine eachStep_cons.2 ⟨hother nofun nofun, fun r hr => ?_⟩
  cases hr
  exact eachStep_cons.2 ⟨hempty rfl, fun r _ => eachStep_nil _ r⟩

/-- A second stop call returns at once and says that the gateway is stopped. Its thread is still
running, and the next start spawns another one. -/
theorem second_gateway :
    ¬ ∀ (bindAddress : String) (steps : List RuntimeStep),
      Throughout GatewayRuntime.step OneGateway (new bindAddress) steps ∧
        EachStep GatewayRuntime.step StopMeansStopped (new bindAddress) steps := by
  intro h
  have htwo := (h "127.0.0.1:8080"
    [.start (.ok "127.0.0.1:8080"), .stop 2000, .stop 2000, .start (.ok "127.0.0.1:8081")]).1.final rfl
  exact absurd (htwo.one 0 1 ⟨_, rfl, rfl⟩ ⟨_, rfl, rfl⟩) (by decide)

end AppCore.Gateway
