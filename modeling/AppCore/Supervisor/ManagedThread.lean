import AppCore.Supervisor.Service

/-!
# The managed thread

`ManagedThreadService` of `adapters.rs`: a service that runs one thread. `start` holds the lock of
the state from its first to its last line and is one step. `stop` takes the thread out of the state,
waits for it without the lock, and locks again to record the outcome; what it does in each of the two
sections is a step. Threads end at any time, and any number of calls is waiting.

**Theorem (`one_thread_iff`).** In a run there is never a second thread that has not finished, and
each one that has not finished is in the state or is waited for by a stop call, exactly when no call
of `start` spawns a thread while a stop call is waiting for one that has not finished. `start` does
not look whether one is waiting (`second_thread`).
-/

namespace AppCore.Supervisor

/-! ## The service -/

/-- What `join` returns for a thread. -/
inductive ThreadEnd where
  | returned (result : Except String Unit)
  | panicked

/-- A thread that the factory spawned: its shutdown flag, and what it returned once it finished. -/
structure Thread where
  shutdown : Bool
  ended : Option ThreadEnd

/-- `ThreadRuntime`: the thread it is the handle of. -/
structure ThreadRuntime where
  handle : Nat
  deriving DecidableEq, Repr

structure ThreadState where
  health : ServiceHealth
  runtimeState : ServiceRuntimeState
  runtime : Option ThreadRuntime
  deriving DecidableEq, Repr

/-- `ManagedThreadService`, with the threads its factory spawned and the runtimes that stop calls
are waiting for. -/
structure ManagedThreadService where
  descriptor : ServiceDescriptor
  state : ThreadState
  threads : List Thread
  waiting : List ThreadRuntime

namespace ManagedThreadService

def new (descriptor : ServiceDescriptor) : ManagedThreadService :=
  { descriptor, state := { health := .unknown, runtimeState := .stopped, runtime := none },
    threads := [], waiting := [] }

def Unfinished (service : ManagedThreadService) (t : Nat) : Prop :=
  ∃ shutdown, service.threads[t]? = some { shutdown, ended := none }

/-- `is_finished` of a handle. -/
def isFinished (service : ManagedThreadService) (runtime : ThreadRuntime) : Bool :=
  (service.threads[runtime.handle]?.bind Thread.ended).isSome

/-- `shutdown.load`. -/
def shutdownFlag (service : ManagedThreadService) (runtime : ThreadRuntime) : Bool :=
  (service.threads[runtime.handle]?.map Thread.shutdown).getD false

/-- `shutdown.store(true)`. -/
def storeShutdown (service : ManagedThreadService) (t : Nat) : ManagedThreadService :=
  { service with threads := service.threads.modify t fun thread => { thread with shutdown := true } }

def refresh (service : ManagedThreadService) : ManagedThreadService :=
  match service.state.runtime with
  | none => service
  | some runtime =>
    if service.isFinished runtime then
      { service with
        state :=
          if service.shutdownFlag runtime then
            { health := .unknown, runtimeState := .stopped, runtime := none }
          else { health := .failed, runtimeState := .failed, runtime := none } }
    else service

/-- `start`, when the factory spawns a thread or fails; a panic of the factory is a failure. -/
def start (service : ManagedThreadService) (factory : Except String Unit) :
    Except SupervisorError Unit × ManagedThreadService :=
  let service := service.refresh
  if service.state.runtimeState = .orphaned then
    (.error (.serviceOrphaned service.descriptor.name), service)
  else if service.state.runtime.isSome then (.ok (), service)
  else if service.descriptor.activation ≠ .enabled then
    (.ok (), { service with
      state := { service.state with health := .unknown, runtimeState := .stopped } })
  else
    match factory with
    | .error reason =>
      (.error (.serviceFailure service.descriptor.name reason), { service with
        state := { service.state with health := .failed, runtimeState := .failed } })
    | .ok () =>
      (.ok (), { service with
        state :=
          { health := .ready, runtimeState := .running,
            runtime := some { handle := service.threads.length } }
        threads := service.threads ++ [{ shutdown := false, ended := none }] })

/-- The first section of `stop`: its result, or the runtime it goes on to wait for. -/
def stop (service : ManagedThreadService) :
    Except SupervisorError (Option ThreadRuntime) × ManagedThreadService :=
  let service := service.refresh
  if service.state.runtimeState = .orphaned then
    (.error (.serviceOrphaned service.descriptor.name), service)
  else
    match service.state.runtime with
    | none =>
      (.ok none, { service with
        state := { health := .unknown, runtimeState := .stopped, runtime := none } })
    | some runtime =>
      let service := service.storeShutdown runtime.handle
      (.ok (some runtime), { service with
        state := { health := .stopping, runtimeState := .stopping, runtime := none } })

/-- The end of `stop`: the thread has finished, or it has not and the deadline is over. -/
def stopped (service : ManagedThreadService) (runtime : ThreadRuntime) :
    Except SupervisorError Unit × ManagedThreadService :=
  match service.threads[runtime.handle]?.bind Thread.ended with
  | none =>
    (.error (.shutdownTimeout service.descriptor.name), { service with
      state := { health := .failed, runtimeState := .orphaned, runtime := some runtime } })
  | some .panicked =>
    (.error (.serviceFailure service.descriptor.name "managed thread panicked"), service)
  | some (.returned result) =>
    (match result with
      | .ok () => .ok ()
      | .error reason => .error (.serviceFailure service.descriptor.name reason),
    { service with
      state := { service.state with health := .unknown, runtimeState := .stopped } })

/-- `health`, when the probe of the service answers `probe`. -/
def health (service : ManagedThreadService) (probe : Option ServiceHealth) :
    ServiceHealth × ManagedThreadService :=
  let service := service.refresh
  if service.state.health = .ready ∨ service.state.health = .healthy then
    (probe.getD service.state.health, service)
  else (service.state.health, service)

def runtimeState (service : ManagedThreadService) : ServiceRuntimeState × ManagedThreadService :=
  (service.refresh.state.runtimeState, service.refresh)

/-! ## Runs -/

end ManagedThreadService

/-- What happens to a managed thread: a section of a call, the end of a thread, or a thread that sets
its own flag. -/
inductive ThreadStep where
  | start (factory : Except String Unit)
  | stop
  | stopped (call : Nat)
  | health (probe : Option ServiceHealth)
  | runtimeState
  | finished (t : Nat) (ended : ThreadEnd)
  | raised (t : Nat)

namespace ManagedThreadService

/-- The first section of `stop`, after which the call is waiting if it took a runtime. -/
def stopSection (service : ManagedThreadService) : ManagedThreadService :=
  match service.stop with
  | (.ok (some runtime), service) => { service with waiting := service.waiting ++ [runtime] }
  | (_, service) => service

/-- The end of a call of `stop`, which is not waiting any more. -/
def stoppedSection (service : ManagedThreadService) (call : Nat) (runtime : ThreadRuntime) :
    ManagedThreadService :=
  let service := (service.stopped runtime).2
  { service with waiting := service.waiting.eraseIdx call }

/-- One step; there is none when no call is waiting at that place, and a thread ends once. -/
def step (service : ManagedThreadService) : ThreadStep → Option ManagedThreadService
  | .start factory => some (service.start factory).2
  | .stop => some service.stopSection
  | .stopped call => service.waiting[call]?.map (service.stoppedSection call)
  | .health probe => some (service.health probe).2
  | .runtimeState => some service.runtimeState.2
  | .finished t ended =>
    match service.threads[t]? with
    | some { shutdown, ended := none } =>
      some { service with threads := service.threads.set t { shutdown, ended := some ended } }
    | _ => none
  | .raised t => some (service.storeShutdown t)

def run (service : ManagedThreadService) (steps : List ThreadStep) : Option ManagedThreadService :=
  steps.foldlM step service

/-- At most one thread has not finished, and none that has not finished is lost. -/
structure OneThread (service : ManagedThreadService) : Prop where
  one : ∀ t u, service.Unfinished t → service.Unfinished u → t = u
  kept : ∀ t, service.Unfinished t →
    service.state.runtime = some { handle := t } ∨ { handle := t } ∈ service.waiting

/-- Whether a call of `start` spawns a thread. -/
def Spawns (service : ManagedThreadService) (factory : Except String Unit) : Prop :=
  service.refresh.state.runtimeState ≠ .orphaned ∧ service.refresh.state.runtime = none ∧
    service.descriptor.activation = .enabled ∧ factory = .ok ()

/-- A call of `start` spawns a thread only when no stop call is waiting for one that has not
finished. -/
def Waits (service : ManagedThreadService) (step : ThreadStep) : Prop :=
  ∀ factory, step = .start factory → service.Spawns factory →
    ∀ runtime ∈ service.waiting, ¬ service.Unfinished runtime.handle

/-! ## The parts of a call -/

variable {service service' : ManagedThreadService} {t : Nat}

theorem not_unfinished_of_isFinished {runtime : ThreadRuntime}
    (h : service.isFinished runtime = true) : ¬ service.Unfinished runtime.handle := by
  rintro ⟨shutdown, ht⟩
  simp [isFinished, ht] at h

theorem unfinished_storeShutdown (u : Nat) :
    (service.storeShutdown u).Unfinished t ↔ service.Unfinished t := by
  simp only [Unfinished, storeShutdown, List.getElem?_modify]
  by_cases hu : u = t
  · subst hu
    cases h : service.threads[u]? with
    | none => simp
    | some thread =>
      obtain ⟨shutdown, ended⟩ := thread
      simp
  · simp [hu]

@[simp] theorem refresh_threads : service.refresh.threads = service.threads := by
  unfold refresh
  split
  · rfl
  · split <;> rfl

@[simp] theorem refresh_waiting : service.refresh.waiting = service.waiting := by
  unfold refresh
  split
  · rfl
  · split <;> rfl

@[simp] theorem refresh_descriptor : service.refresh.descriptor = service.descriptor := by
  unfold refresh
  split
  · rfl
  · split <;> rfl

@[simp] theorem unfinished_refresh : service.refresh.Unfinished t ↔ service.Unfinished t := by
  simp [Unfinished]

/-- `refresh` lets go only of a thread that has finished. -/
theorem refresh_runtime (hrunning : service.Unfinished t) :
    service.refresh.state.runtime = some { handle := t } ↔
      service.state.runtime = some { handle := t } := by
  unfold refresh
  split
  next h => simp [h]
  next runtime h =>
    split
    next hfinished =>
      have hne : runtime ≠ { handle := t } := by
        rintro rfl
        exact not_unfinished_of_isFinished hfinished hrunning
      have hnone : (if service.shutdownFlag runtime then
          ({ health := .unknown, runtimeState := .stopped, runtime := none } : ThreadState)
        else { health := .failed, runtimeState := .failed, runtime := none }).runtime = none := by
        split <;> rfl
      simp [hnone, h, hne]
    next => rfl

theorem OneThread.of_kept (h : service.OneThread)
    (hback : ∀ t, service'.Unfinished t → service.Unfinished t)
    (hkept : ∀ t, service'.Unfinished t →
      service'.state.runtime = some { handle := t } ∨ { handle := t } ∈ service'.waiting) :
    service'.OneThread :=
  ⟨fun t u ht hu => h.one t u (hback t ht) (hback u hu), hkept⟩

theorem OneThread.refresh (h : service.OneThread) : service.refresh.OneThread := by
  refine h.of_kept (fun t ht => unfinished_refresh.1 ht) ?_
  intro t ht
  have hrunning := unfinished_refresh.1 ht
  rw [refresh_runtime hrunning, refresh_waiting]
  exact h.kept t hrunning

/-- Every handle is one of a thread that was spawned. -/
structure Known (service : ManagedThreadService) : Prop where
  held : ∀ runtime, service.state.runtime = some runtime → runtime.handle < service.threads.length
  waited : ∀ runtime ∈ service.waiting, runtime.handle < service.threads.length

theorem Known.refresh (h : service.Known) : service.refresh.Known := by
  refine ⟨fun runtime hheld => ?_, fun runtime hwaited => ?_⟩
  · have hsame : service.refresh.state.runtime = none ∨
        service.refresh.state.runtime = service.state.runtime := by
      unfold ManagedThreadService.refresh
      split
      · exact Or.inr rfl
      · split
        · split
          · exact Or.inl rfl
          · exact Or.inl rfl
        · exact Or.inr rfl
    rcases hsame with hnone | hsame
    · rw [hnone] at hheld
      cases hheld
    · rw [refresh_threads]
      exact h.held runtime (hsame ▸ hheld)
  · rw [refresh_threads]
    exact h.waited runtime (refresh_waiting ▸ hwaited)

theorem known_start (h : service.Known) (factory : Except String Unit) :
    (service.start factory).2.Known := by
  have hr := h.refresh
  unfold start
  dsimp only
  split
  · exact hr
  · split
    · exact hr
    · split
      · exact ⟨hr.held, hr.waited⟩
      · cases factory with
        | error reason => exact ⟨hr.held, hr.waited⟩
        | ok u =>
          refine ⟨?_, fun runtime hwaited => ?_⟩
          · rintro runtime ⟨⟩
            simp
          · rw [List.length_append]
            exact Nat.lt_add_right _ (hr.waited runtime hwaited)

theorem known_stop (h : service.Known) : service.stopSection.Known := by
  have hr := h.refresh
  unfold stopSection stop
  dsimp only
  by_cases horphaned : service.refresh.state.runtimeState = .orphaned
  · rw [if_pos horphaned]
    exact hr
  · rw [if_neg horphaned]
    cases hruntime : service.refresh.state.runtime with
    | none => exact ⟨nofun, hr.waited⟩
    | some runtime =>
      refine ⟨nofun, fun other hother => ?_⟩
      change other.handle < (service.refresh.storeShutdown runtime.handle).threads.length
      rw [ManagedThreadService.storeShutdown, List.length_modify]
      rcases List.mem_append.1 hother with hwaited | hnew
      · exact hr.waited other hwaited
      · rw [List.mem_singleton.1 hnew]
        exact hr.held runtime hruntime

theorem known_stopped (h : service.Known) {call : Nat} {runtime : ThreadRuntime}
    (hcall : service.waiting[call]? = some runtime) :
    (service.stoppedSection call runtime).Known := by
  have hwaited : ∀ other ∈ service.waiting.eraseIdx call,
      other.handle < service.threads.length := fun other hother =>
    h.waited other (List.mem_of_mem_eraseIdx hother)
  unfold stoppedSection stopped
  cases service.threads[runtime.handle]?.bind Thread.ended with
  | none =>
    refine ⟨?_, hwaited⟩
    rintro other ⟨⟩
    exact h.waited runtime (List.mem_of_getElem? hcall)
  | some ended =>
    cases ended with
    | panicked => exact ⟨h.held, hwaited⟩
    | returned result => exact ⟨h.held, hwaited⟩

/-! ## One step -/

/-- A call of `start` keeps the invariant when it spawns no thread, or spawns one with none
waited for. -/
theorem oneThread_start (h : service.OneThread) {factory : Except String Unit}
    (hwaits : service.Waits (.start factory)) : (service.start factory).2.OneThread := by
  have hr := h.refresh
  unfold start
  dsimp only
  split
  · exact hr
  · next horphaned =>
    split
    · exact hr
    · next hruntime =>
      have hruntime : service.refresh.state.runtime = none := by simpa using hruntime
      split
      · exact hr.of_kept (fun _ ht => ht) hr.kept
      · next hactivation =>
        have hactivation : service.descriptor.activation = .enabled := by simpa using hactivation
        cases factory with
        | error reason => exact hr.of_kept (fun _ ht => ht) hr.kept
        | ok u =>
          -- the threads that have not finished would be waited for, and there are none of those
          have hnone : ∀ t, ¬ service.Unfinished t := by
            intro t ht
            rcases hr.kept t (unfinished_refresh.2 ht) with hheld | hwaited
            · rw [hruntime] at hheld
              cases hheld
            · rw [refresh_waiting] at hwaited
              exact hwaits _ rfl ⟨horphaned, hruntime, hactivation, rfl⟩ _ hwaited ht
          have hnew : ∀ t, ManagedThreadService.Unfinished
              { service.refresh with
                state := { health := .ready, runtimeState := .running,
                           runtime := some { handle := service.refresh.threads.length } }
                threads := service.refresh.threads ++ [{ shutdown := false, ended := none }] } t →
              t = service.refresh.threads.length := by
            rintro t ⟨shutdown, ht⟩
            rcases lt_trichotomy t service.refresh.threads.length with hlt | heq | hgt
            · rw [List.getElem?_append_left hlt, refresh_threads] at ht
              exact absurd ⟨shutdown, ht⟩ (hnone t)
            · exact heq
            · rw [List.getElem?_eq_none (by simp only [List.length_append, List.length_singleton]; omega)]
                at ht
              cases ht
          refine ⟨fun t u ht hu => (hnew t ht).trans (hnew u hu).symm, fun t ht => Or.inl ?_⟩
          rw [hnew t ht]

/-- The first section of `stop` hands what it takes on to the call that waits. -/
theorem oneThread_stop (h : service.OneThread) : service.stopSection.OneThread := by
  have hr := h.refresh
  unfold stopSection stop
  dsimp only
  by_cases horphaned : service.refresh.state.runtimeState = .orphaned
  · rw [if_pos horphaned]
    exact hr
  · rw [if_neg horphaned]
    cases hruntime : service.refresh.state.runtime with
    | none =>
      refine hr.of_kept (fun _ ht => ht) fun t ht => ?_
      have hkept := hr.kept t ht
      rw [hruntime] at hkept
      exact hkept
    | some runtime =>
      refine hr.of_kept (fun t ht => (unfinished_storeShutdown runtime.handle).1 ht) fun t ht => ?_
      refine Or.inr (List.mem_append.2 ?_)
      rcases hr.kept t ((unfinished_storeShutdown runtime.handle).1 ht) with hheld | hwaited
      · rw [hruntime, Option.some.injEq] at hheld
        exact Or.inr (by simp [hheld])
      · exact Or.inl hwaited

/-- The end of `stop` puts back the thread it waited for when that has not finished. -/
theorem oneThread_stopped (h : service.OneThread) (hknown : service.Known) {call : Nat}
    {runtime : ThreadRuntime} (hcall : service.waiting[call]? = some runtime) :
    (service.stoppedSection call runtime).OneThread := by
  -- a thread that has finished is not the one another call is waiting for
  have herase : ¬ service.Unfinished runtime.handle → ∀ t, service.Unfinished t →
      { handle := t } ∈ service.waiting → { handle := t } ∈ service.waiting.eraseIdx call := by
    intro hfinished t ht hwaited
    rw [List.mem_eraseIdx_iff_getElem?]
    obtain ⟨i, hi⟩ := List.mem_iff_getElem?.1 hwaited
    refine ⟨i, ?_, hi⟩
    rintro rfl
    rw [hcall, Option.some.injEq] at hi
    exact hfinished (hi ▸ ht)
  unfold stoppedSection stopped
  cases hended : service.threads[runtime.handle]?.bind Thread.ended with
  | none =>
    refine h.of_kept (fun _ ht => ht) fun t ht => ?_
    have hlt := hknown.waited runtime (List.mem_of_getElem? hcall)
    have hrunning : service.Unfinished runtime.handle := by
      rw [List.getElem?_eq_getElem hlt, Option.bind_some] at hended
      exact ⟨service.threads[runtime.handle].shutdown, by
        rw [List.getElem?_eq_getElem hlt, ← hended]⟩
    exact Or.inl (by rw [h.one t _ ht hrunning])
  | some ended =>
    have hfinished : ¬ service.Unfinished runtime.handle := by
      rintro ⟨shutdown, hthread⟩
      rw [hthread] at hended
      cases hended
    have hkept : ∀ t, service.Unfinished t → service.state.runtime = some { handle := t } ∨
        { handle := t } ∈ service.waiting.eraseIdx call := fun t ht =>
      (h.kept t ht).imp_right (herase hfinished t ht)
    cases ended with
    | panicked => exact h.of_kept (fun _ ht => ht) hkept
    | returned result => exact h.of_kept (fun _ ht => ht) hkept

theorem health_state (probe : Option ServiceHealth) : (service.health probe).2 = service.refresh := by
  unfold health
  dsimp only
  split <;> rfl

theorem finished_step {ended : ThreadEnd} (hstep : service.step (.finished t ended) = some service') :
    ∃ shutdown, service.threads[t]? = some { shutdown, ended := none } ∧
      service' = { service with threads := service.threads.set t { shutdown, ended := some ended } } := by
  simp only [ManagedThreadService.step] at hstep
  split at hstep
  next shutdown hthread =>
    cases hstep
    exact ⟨shutdown, hthread, rfl⟩
  next => cases hstep

theorem unfinished_of_set {threads : List Thread} {u : Nat} {thread : Thread}
    (hended : thread.ended.isSome = true)
    (h : ManagedThreadService.Unfinished { service with threads := threads.set u thread } t) :
    ManagedThreadService.Unfinished { service with threads } t := by
  obtain ⟨shutdown, ht⟩ := h
  refine ⟨shutdown, ?_⟩
  change (threads.set u thread)[t]? = _ at ht
  rw [List.getElem?_set] at ht
  by_cases hu : u = t
  · rw [if_pos hu] at ht
    split at ht
    · cases ht
      cases hended
    · cases ht
  · rwa [if_neg hu] at ht

theorem known_step (h : service.Known) {step : ThreadStep}
    (hstep : service.step step = some service') : service'.Known := by
  cases step with
  | start factory =>
    cases hstep
    exact known_start h factory
  | stop =>
    cases hstep
    exact known_stop h
  | stopped call =>
    obtain ⟨runtime, hcall, rfl⟩ := Option.map_eq_some_iff.1 hstep
    exact known_stopped h hcall
  | health probe =>
    cases hstep
    rw [health_state]
    exact h.refresh
  | runtimeState =>
    cases hstep
    exact h.refresh
  | finished t ended =>
    obtain ⟨shutdown, -, rfl⟩ := finished_step hstep
    exact ⟨fun runtime hheld => by simpa using h.held runtime hheld,
      fun runtime hwaited => by simpa using h.waited runtime hwaited⟩
  | raised t =>
    cases hstep
    exact ⟨fun runtime hheld => by simpa [storeShutdown] using h.held runtime hheld,
      fun runtime hwaited => by simpa [storeShutdown] using h.waited runtime hwaited⟩

theorem oneThread_step (h : service.OneThread) (hknown : service.Known) {step : ThreadStep}
    (hwaits : service.Waits step) (hstep : service.step step = some service') :
    service'.OneThread := by
  cases step with
  | start factory =>
    cases hstep
    exact oneThread_start h hwaits
  | stop =>
    cases hstep
    exact oneThread_stop h
  | stopped call =>
    obtain ⟨runtime, hcall, rfl⟩ := Option.map_eq_some_iff.1 hstep
    exact oneThread_stopped h hknown hcall
  | health probe =>
    cases hstep
    rw [health_state]
    exact h.refresh
  | runtimeState =>
    cases hstep
    exact h.refresh
  | finished t ended =>
    obtain ⟨shutdown, -, rfl⟩ := finished_step hstep
    exact h.of_kept (fun _ ht => unfinished_of_set rfl ht) fun _ ht =>
      h.kept _ (unfinished_of_set rfl ht)
  | raised t =>
    cases hstep
    exact h.of_kept (fun _ ht => (unfinished_storeShutdown t).1 ht) fun _ ht =>
      h.kept _ ((unfinished_storeShutdown t).1 ht)

/-- A call of `start` that spawns a thread while one is waited for makes two of them. -/
theorem not_oneThread_start (hknown : service.Known) {factory : Except String Unit}
    (hspawns : service.Spawns factory) {runtime : ThreadRuntime}
    (hwaited : runtime ∈ service.waiting) (hrunning : service.Unfinished runtime.handle) :
    ¬ (service.start factory).2.OneThread := by
  obtain ⟨horphaned, hruntime, hactivation, rfl⟩ := hspawns
  obtain ⟨shutdown, hthread⟩ := hrunning
  have hlt := hknown.waited runtime hwaited
  have hstart : (service.start (.ok ())).2.threads =
      service.threads ++ [{ shutdown := false, ended := none }] := by
    simp [start, horphaned, hruntime, hactivation]
  intro h
  have hold : (service.start (.ok ())).2.Unfinished runtime.handle :=
    ⟨shutdown, by rw [hstart, List.getElem?_append_left hlt, hthread]⟩
  have hnew : (service.start (.ok ())).2.Unfinished service.threads.length :=
    ⟨false, by rw [hstart, List.getElem?_concat_length]⟩
  exact hlt.ne (h.one _ _ hold hnew)

/-! ## Runs -/

theorem oneThread_new (descriptor : ServiceDescriptor) : (new descriptor).OneThread :=
  have hnone : ∀ t, ¬ (new descriptor).Unfinished t := by
    rintro t ⟨shutdown, ht⟩
    cases ht
  ⟨fun t _ ht => absurd ht (hnone t), fun t ht => absurd ht (hnone t)⟩

theorem known_new (descriptor : ServiceDescriptor) : (new descriptor).Known :=
  ⟨nofun, fun _ h => by cases h⟩

theorem run_append (service : ManagedThreadService) (before after : List ThreadStep) :
    service.run (before ++ after) = (service.run before).bind fun s => s.run after :=
  List.foldlM_append

theorem known_run {steps : List ThreadStep} (h : service.Known)
    (hrun : service.run steps = some service') : service'.Known := by
  induction steps generalizing service with
  | nil =>
    cases hrun
    exact h
  | cons step steps ih =>
    obtain ⟨s, hstep, hrun⟩ := Option.bind_eq_some_iff.1 hrun
    exact ih (known_step h hstep) hrun

end ManagedThreadService

open ManagedThreadService

/-- **A managed thread never runs twice, as long as no thread is spawned while another is waited
for.** Every state that a run reaches has one thread at most that has not finished, held by the
service or waited for, if and only if every step of the run waits for the one before. -/
theorem one_thread_iff (descriptor : ServiceDescriptor) (steps : List ThreadStep) :
    (∀ before after service, steps = before ++ after → (new descriptor).run before = some service →
        service.OneThread) ↔
      ∀ before step after service, steps = before ++ step :: after →
        (new descriptor).run before = some service → service.Waits step := by
  constructor
  · intro h before step after service heq hrun factory hstart hspawns runtime hwaited hrunning
    subst hstart
    have hknown := known_run (known_new descriptor) hrun
    refine not_oneThread_start hknown hspawns hwaited hrunning ?_
    refine h (before ++ [.start factory]) after _ (by simp [heq]) ?_
    rw [run_append, hrun]
    rfl
  · intro h before
    induction before using List.reverseRecOn with
    | nil =>
      intro after service _ hrun
      cases hrun
      exact oneThread_new descriptor
    | append_singleton before step ih =>
      intro after service heq hrun
      rw [run_append] at hrun
      obtain ⟨s, hbefore, hlast⟩ := Option.bind_eq_some_iff.1 hrun
      obtain ⟨_, hstep, hnil⟩ := Option.bind_eq_some_iff.1 hlast
      cases hnil
      have heq' : steps = before ++ step :: after := by simp [heq]
      exact oneThread_step (ih (step :: after) s heq' hbefore)
        (known_run (known_new descriptor) hbefore) (h before step after s heq' hbefore) hstep

/-- A start during a stop that waits: two threads have not finished, and when the deadline is over
the second one is lost. -/
theorem second_thread :
    ¬ (∀ (descriptor : ServiceDescriptor) (steps : List ThreadStep) (service : ManagedThreadService),
      (new descriptor).run steps = some service → service.OneThread) ∧
    ∃ service, (new (.new "worker" .default)).run
        [.start (.ok ()), .stop, .start (.ok ()), .stopped 0] = some service ∧
      service.Unfinished 1 ∧ service.state.runtime ≠ some { handle := 1 } ∧
      service.waiting = [] := by
  refine ⟨fun h => ?_, _, rfl, ⟨false, rfl⟩, by decide, rfl⟩
  have hone := h (.new "worker" .default) [.start (.ok ()), .stop, .start (.ok ())] _ rfl
  exact absurd (hone.one 0 1 ⟨true, rfl⟩ ⟨false, rfl⟩) (by decide)

end AppCore.Supervisor
