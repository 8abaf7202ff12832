import AppCore.Base.Runs
import AppCore.Base.Word

/-!
# The watchdog of the supervisor

`watchdog.rs`: four atomic cells that the reconcile loop, the callers of `evaluate` and the shutdown
share without a lock. Each load and each store is a step, and a call between two of them is a phase.

`Stopping` is meant to be the last state. The two functions that could replace it load the state
first and store later, and a shutdown may come in between.

* `stays_stopping_iff` — the state stays `Stopping` exactly when no store that was decided on before
  the shutdown is made after it.
-/

namespace AppCore.Supervisor

/-! ## The cells -/

structure WatchdogConfig where
  enabled : Bool
  checkIntervalMs : UInt64
  stallTimeoutMs : UInt64
  deriving DecidableEq, Repr

def WatchdogConfig.default : WatchdogConfig := ⟨true, 1000, 15000⟩

inductive WatchdogState where
  | starting
  | healthy
  | stalled
  | failed
  | stopping
  deriving DecidableEq, Repr

namespace WatchdogState

def asU8 : WatchdogState → UInt8
  | starting => 0
  | healthy => 1
  | stalled => 2
  | failed => 3
  | stopping => 4

def fromU8 (value : UInt8) : WatchdogState :=
  if value = 1 then healthy
  else if value = 2 then stalled
  else if value = 3 then failed
  else if value = 4 then stopping
  else starting

@[simp] theorem fromU8_asU8 (state : WatchdogState) : fromU8 state.asU8 = state := by
  cases state <;> rfl

end WatchdogState

structure SupervisorWatchdog where
  config : WatchdogConfig
  createdAtMs : UInt64
  lastReconcileAtMs : UInt64
  reconcileSequence : UInt64
  lastProgressAtMs : UInt64
  stateCell : UInt8
  deriving DecidableEq, Repr

namespace SupervisorWatchdog

def fromValidated (config : WatchdogConfig) (createdAtMs : UInt64) : SupervisorWatchdog :=
  ⟨config, createdAtMs, 0, 0, 0, WatchdogState.starting.asU8⟩

def state (w : SupervisorWatchdog) : WatchdogState := .fromU8 w.stateCell

def setState (w : SupervisorWatchdog) (state : WatchdogState) : SupervisorWatchdog :=
  { w with stateCell := state.asU8 }

@[simp] theorem state_setState (w : SupervisorWatchdog) (state : WatchdogState) :
    (w.setState state).state = state :=
  WatchdogState.fromU8_asU8 state

def stalledForMs (w : SupervisorWatchdog) (timestampMs : UInt64) : UInt64 :=
  saturatingSub timestampMs (if w.lastProgressAtMs = 0 then w.createdAtMs else w.lastProgressAtMs)

/-! ## The calls -/

/-- A state that the watchdog leaves alone. -/
def isFinal (state : WatchdogState) : Bool := state == .stopping || state == .failed

def recordReconcileStarted (w : SupervisorWatchdog) (timestampMs : UInt64) : SupervisorWatchdog :=
  { w with lastReconcileAtMs := timestampMs }

def recordReconcileCompleted (w : SupervisorWatchdog) (timestampMs : UInt64) :
    SupervisorWatchdog × UInt64 :=
  let w := { w with lastReconcileAtMs := timestampMs }
  let w := { w with lastProgressAtMs := timestampMs }
  let sequence := saturatingAdd w.reconcileSequence 1
  let w := { w with reconcileSequence := w.reconcileSequence + 1 }
  if isFinal w.state then (w, sequence) else (w.setState .healthy, sequence)

/-- The state that `evaluate` compares with. -/
def nextState (w : SupervisorWatchdog) (timestampMs : UInt64) : WatchdogState :=
  if !w.config.enabled then .healthy
  else if w.stalledForMs timestampMs > w.config.stallTimeoutMs then .stalled
  else if w.reconcileSequence = 0 then .starting
  else .healthy

def evaluate (w : SupervisorWatchdog) (timestampMs : UInt64) :
    SupervisorWatchdog × Option (WatchdogState × WatchdogState) :=
  let previous := w.state
  if isFinal previous then (w, none)
  else
    let next := w.nextState timestampMs
    if previous = next then (w, none) else (w.setState next, some (previous, next))

def markStopping (w : SupervisorWatchdog) : SupervisorWatchdog := w.setState .stopping

end SupervisorWatchdog

open SupervisorWatchdog

/-! ## Their steps -/

/-- What `record_reconcile_completed` does next. -/
inductive CompletedPhase where
  | reconciled (timestampMs : UInt64)
  | progressed (timestampMs : UInt64)
  | counting
  | checking (sequence : UInt64)
  | healing (sequence : UInt64)
  deriving DecidableEq, Repr

/-- A step of `record_reconcile_completed`: what is left to do, or what is returned. -/
def CompletedPhase.advance (w : SupervisorWatchdog) :
    CompletedPhase → SupervisorWatchdog × (CompletedPhase ⊕ UInt64)
  | reconciled timestampMs =>
    ({ w with lastReconcileAtMs := timestampMs }, .inl (progressed timestampMs))
  | progressed timestampMs => ({ w with lastProgressAtMs := timestampMs }, .inl counting)
  | counting => ({ w with reconcileSequence := w.reconcileSequence + 1 },
      .inl (checking (saturatingAdd w.reconcileSequence 1)))
  | checking sequence =>
    if isFinal w.state then (w, .inr sequence) else (w, .inl (healing sequence))
  | healing sequence => (w.setState .healthy, .inr sequence)

/-- What `evaluate` does next. -/
inductive EvaluatePhase where
  | loading (timestampMs : UInt64)
  | measuring (previous : WatchdogState) (timestampMs : UInt64)
  | counting (previous : WatchdogState)
  | storing (previous next : WatchdogState)
  deriving DecidableEq, Repr

/-- The end of `evaluate`, once the next state is known. -/
def EvaluatePhase.settle (previous next : WatchdogState) :
    EvaluatePhase ⊕ Option (WatchdogState × WatchdogState) :=
  if previous = next then .inr none else .inl (storing previous next)

/-- A step of `evaluate`: what is left to do, or what is returned. -/
def EvaluatePhase.advance (w : SupervisorWatchdog) :
    EvaluatePhase → SupervisorWatchdog × (EvaluatePhase ⊕ Option (WatchdogState × WatchdogState))
  | loading timestampMs =>
    if isFinal w.state then (w, .inr none)
    else if !w.config.enabled then (w, settle w.state .healthy)
    else (w, .inl (measuring w.state timestampMs))
  | measuring previous timestampMs =>
    if w.stalledForMs timestampMs > w.config.stallTimeoutMs then (w, settle previous .stalled)
    else (w, .inl (counting previous))
  | counting previous =>
    (w, settle previous (if w.reconcileSequence = 0 then .starting else .healthy))
  | storing previous next => (w.setState next, .inr (some (previous, next)))

/-- What a call still does when nothing else comes in between: the rest of
`record_reconcile_completed`. -/
def CompletedPhase.rest (w : SupervisorWatchdog) : CompletedPhase → SupervisorWatchdog × UInt64
  | reconciled timestampMs => w.recordReconcileCompleted timestampMs
  | progressed timestampMs =>
    let w := { w with lastProgressAtMs := timestampMs }
    let sequence := saturatingAdd w.reconcileSequence 1
    let w := { w with reconcileSequence := w.reconcileSequence + 1 }
    if isFinal w.state then (w, sequence) else (w.setState .healthy, sequence)
  | counting =>
    let sequence := saturatingAdd w.reconcileSequence 1
    let w := { w with reconcileSequence := w.reconcileSequence + 1 }
    if isFinal w.state then (w, sequence) else (w.setState .healthy, sequence)
  | checking sequence => if isFinal w.state then (w, sequence) else (w.setState .healthy, sequence)
  | healing sequence => (w.setState .healthy, sequence)

/-- The same for `evaluate`. -/
def EvaluatePhase.rest (w : SupervisorWatchdog) :
    EvaluatePhase → SupervisorWatchdog × Option (WatchdogState × WatchdogState)
  | loading timestampMs => w.evaluate timestampMs
  | measuring previous timestampMs =>
    let next :=
      if w.stalledForMs timestampMs > w.config.stallTimeoutMs then .stalled
      else if w.reconcileSequence = 0 then .starting
      else .healthy
    if previous = next then (w, none) else (w.setState next, some (previous, next))
  | counting previous =>
    let next := if w.reconcileSequence = 0 then .starting else .healthy
    if previous = next then (w, none) else (w.setState next, some (previous, next))
  | storing previous next => (w.setState next, some (previous, next))

/-- The steps of `record_reconcile_completed`, one after another, are the call. -/
theorem restCompleted_advance (w : SupervisorWatchdog) (phase : CompletedPhase) :
    phase.rest w = Sum.elim (CompletedPhase.rest (phase.advance w).1)
      (Prod.mk (phase.advance w).1) (phase.advance w).2 := by
  cases phase with
  | reconciled timestampMs => rfl
  | progressed timestampMs => rfl
  | counting => rfl
  | checking sequence =>
    simp only [CompletedPhase.rest, CompletedPhase.advance]
    by_cases hfinal : isFinal w.state = true
    · simp only [hfinal, if_true, Sum.elim_inr]
    · simp only [hfinal]
      rfl
  | healing sequence => rfl

theorem rest_settle (w : SupervisorWatchdog) (previous next : WatchdogState) :
    (if previous = next then (w, none) else (w.setState next, some (previous, next))) =
      Sum.elim (EvaluatePhase.rest w) (Prod.mk w) (EvaluatePhase.settle previous next) := by
  unfold EvaluatePhase.settle
  by_cases heq : previous = next
  · rw [if_pos heq, if_pos heq, Sum.elim_inr]
  · rw [if_neg heq, if_neg heq]
    rfl

/-- The steps of `evaluate`, one after another, are the call. -/
theorem restEvaluate_advance (w : SupervisorWatchdog) (phase : EvaluatePhase) :
    phase.rest w = Sum.elim (EvaluatePhase.rest (phase.advance w).1)
      (Prod.mk (phase.advance w).1) (phase.advance w).2 := by
  cases phase with
  | loading timestampMs =>
    simp only [EvaluatePhase.rest, EvaluatePhase.advance, evaluate, nextState]
    by_cases hfinal : isFinal w.state = true
    · simp only [hfinal, if_true, Sum.elim_inr]
    · simp only [hfinal, Bool.false_eq_true, if_false]
      by_cases henabled : w.config.enabled = true
      · simp only [henabled, Bool.not_true, Bool.false_eq_true, if_false]
        rfl
      · rw [Bool.not_eq_true] at henabled
        simp only [henabled, Bool.not_false, if_true]
        exact rest_settle w w.state .healthy
  | measuring previous timestampMs =>
    simp only [EvaluatePhase.rest, EvaluatePhase.advance]
    by_cases hstalled : w.stalledForMs timestampMs > w.config.stallTimeoutMs
    · simp only [if_pos hstalled]
      exact rest_settle w previous .stalled
    · simp only [if_neg hstalled]
      rfl
  | counting previous => exact rest_settle w previous _
  | storing previous next => rfl

/-- The phase is one of a store that was decided on by a load of the state. -/
def CompletedPhase.isStore : CompletedPhase → Bool
  | healing _ => true
  | _ => false

@[inherit_doc CompletedPhase.isStore]
def EvaluatePhase.isStore : EvaluatePhase → Bool
  | storing _ _ => true
  | _ => false

variable {w : SupervisorWatchdog}

theorem CompletedPhase.state_advance {phase : CompletedPhase} (h : phase.isStore = false) :
    (phase.advance w).1.state = w.state := by
  cases phase with
  | reconciled timestampMs => rfl
  | progressed timestampMs => rfl
  | counting => rfl
  | checking sequence =>
    rw [CompletedPhase.advance]
    split_ifs <;> rfl
  | healing sequence => cases h

theorem EvaluatePhase.state_advance {phase : EvaluatePhase} (h : phase.isStore = false) :
    (phase.advance w).1.state = w.state := by
  cases phase with
  | loading timestampMs =>
    rw [EvaluatePhase.advance]
    split_ifs <;> rfl
  | measuring previous timestampMs =>
    rw [EvaluatePhase.advance]
    split_ifs <;> rfl
  | counting previous => rfl
  | storing previous next => cases h

/-- A phase that does not store `Stopping`. -/
def EvaluatePhase.Sound (phase : EvaluatePhase) : Prop :=
  ∀ previous next, phase = storing previous next → next ≠ .stopping

theorem EvaluatePhase.sound_of_settle {previous next : WatchdogState} {phase : EvaluatePhase}
    (hnext : next ≠ .stopping) (h : settle previous next = .inl phase) : phase.Sound := by
  unfold settle at h
  split_ifs at h
  cases h
  intro _ _ heq
  cases heq
  exact hnext

theorem EvaluatePhase.sound_of_advance {phase next : EvaluatePhase}
    (h : (phase.advance w).2 = .inl next) : next.Sound := by
  cases phase with
  | loading timestampMs =>
    rw [EvaluatePhase.advance] at h
    split_ifs at h
    · exact sound_of_settle (by decide) h
    · cases h
      intro _ _ heq
      cases heq
  | measuring previous timestampMs =>
    rw [EvaluatePhase.advance] at h
    split_ifs at h
    · exact sound_of_settle (by decide) h
    · cases h
      intro _ _ heq
      cases heq
  | counting previous =>
    rw [EvaluatePhase.advance] at h
    refine sound_of_settle ?_ h
    split_ifs <;> decide
  | storing previous next => cases h

/-! ## The threads together -/

/-- A call of `evaluate` on its way. -/
structure Evaluation where
  /-- It began after `mark_stopping` had returned. -/
  late : Bool
  phase : EvaluatePhase
  deriving DecidableEq, Repr

/-- The cells and the threads. -/
structure WatchdogSystem where
  watchdog : SupervisorWatchdog
  /-- Where the reconcile loop is in `record_reconcile_completed`. -/
  reconcile : Option CompletedPhase
  /-- Where each caller is in `evaluate`. -/
  callers : ℕ → Option Evaluation
  /-- `mark_stopping` has returned. -/
  stopped : Bool
  /-- The transitions returned by the calls of `evaluate` that began after that. -/
  lateReports : List (WatchdogState × WatchdogState)

/-- What happens next: a call begins, with its first load or store, or goes on with the next one. -/
inductive WatchdogEvent where
  | started (timestampMs : UInt64)
  | completed (timestampMs : UInt64)
  | reconcile
  | evaluate (caller : ℕ) (timestampMs : UInt64)
  | caller (caller : ℕ)
  | markStopping
  deriving DecidableEq, Repr

namespace WatchdogSystem

/-- A new watchdog, and no thread in the middle of a call. -/
def start (config : WatchdogConfig) (createdAtMs : UInt64) : WatchdogSystem :=
  ⟨.fromValidated config createdAtMs, none, fun _ => none, false, []⟩

/-- A step of the reconcile loop in a phase of `record_reconcile_completed`. -/
def advanceReconcile (s : WatchdogSystem) (phase : CompletedPhase) : WatchdogSystem :=
  let outcome := phase.advance s.watchdog
  { s with watchdog := outcome.1, reconcile := outcome.2.getLeft? }

/-- A step of a caller in a phase of `evaluate`. -/
def advanceCaller (s : WatchdogSystem) (caller : ℕ) (call : Evaluation) : WatchdogSystem :=
  let outcome := call.phase.advance s.watchdog
  { s with
    watchdog := outcome.1
    callers := Function.update s.callers caller
      (outcome.2.getLeft?.map fun phase => { call with phase })
    lateReports := s.lateReports ++ if call.late then outcome.2.getRight?.join.toList else [] }

/-- The next state, when the event can happen. -/
def step (s : WatchdogSystem) : WatchdogEvent → Option WatchdogSystem
  | .started timestampMs =>
    if s.reconcile.isNone then
      some { s with watchdog := s.watchdog.recordReconcileStarted timestampMs }
    else none
  | .completed timestampMs =>
    if s.reconcile.isNone then some (s.advanceReconcile (.reconciled timestampMs)) else none
  | .reconcile => s.reconcile.map s.advanceReconcile
  | .evaluate caller timestampMs =>
    if (s.callers caller).isNone then
      some (s.advanceCaller caller ⟨s.stopped, .loading timestampMs⟩)
    else none
  | .caller caller => (s.callers caller).map (s.advanceCaller caller)
  | .markStopping =>
    if s.stopped then none
    else some { s with watchdog := s.watchdog.markStopping, stopped := true }

/-- After `mark_stopping`, the state is `Stopping`, and no later call of `evaluate` has returned a
transition. -/
def StaysStopping (s : WatchdogSystem) : Prop :=
  s.stopped = true → s.watchdog.state = .stopping ∧ s.lateReports = []

/-- The event is a store that follows a load of the state, after `mark_stopping`. -/
def isStaleStore (s : WatchdogSystem) : WatchdogEvent → Bool
  | .reconcile => s.stopped && s.reconcile.any CompletedPhase.isStore
  | .caller caller => s.stopped && (s.callers caller).any fun call => call.phase.isStore
  | _ => false

/-! ## What a store that comes too late leaves -/

/-- No call of `evaluate` is about to store `Stopping`. -/
def Sound (s : WatchdogSystem) : Prop :=
  ∀ caller call, s.callers caller = some call → call.phase.Sound

theorem sound_start (config : WatchdogConfig) (createdAtMs : UInt64) :
    Sound (start config createdAtMs) := by
  intro caller call hcall
  cases hcall

variable {s : WatchdogSystem}

theorem callers_advanceCaller {caller other : ℕ} {call found : Evaluation}
    (h : (s.advanceCaller caller call).callers other = some found) :
    (∃ phase, (call.phase.advance s.watchdog).2 = .inl phase ∧ found = { call with phase }) ∨
      s.callers other = some found := by
  have hupdate : (s.advanceCaller caller call).callers = Function.update s.callers caller
      ((call.phase.advance s.watchdog).2.getLeft?.map fun phase => { call with phase }) := rfl
  rw [hupdate] at h
  by_cases hother : other = caller
  · subst hother
    rw [Function.update_self] at h
    obtain ⟨phase, hphase, rfl⟩ := Option.map_eq_some_iff.1 h
    exact .inl ⟨phase, Sum.getLeft?_eq_some_iff.1 hphase, rfl⟩
  · rw [Function.update_of_ne hother] at h
    exact .inr h

theorem sound_advanceCaller (h : Sound s) (caller : ℕ) (call : Evaluation) :
    Sound (s.advanceCaller caller call) := by
  intro other found hfound
  obtain ⟨phase, hphase, rfl⟩ | hsame := callers_advanceCaller hfound
  · exact EvaluatePhase.sound_of_advance hphase
  · exact h other found hsame

theorem sound_step {s s' : WatchdogSystem} {e : WatchdogEvent} (h : Sound s)
    (hstep : step s e = some s') : Sound s' := by
  cases e with
  | started timestampMs =>
    obtain ⟨-, heq⟩ := Option.ite_none_right_eq_some.1 hstep
    cases heq
    exact h
  | completed timestampMs =>
    obtain ⟨-, heq⟩ := Option.ite_none_right_eq_some.1 hstep
    cases heq
    exact h
  | reconcile =>
    obtain ⟨phase, -, rfl⟩ := Option.map_eq_some_iff.1 hstep
    exact h
  | evaluate caller timestampMs =>
    obtain ⟨-, heq⟩ := Option.ite_none_right_eq_some.1 hstep
    cases heq
    exact sound_advanceCaller h caller _
  | caller caller =>
    obtain ⟨call, -, rfl⟩ := Option.map_eq_some_iff.1 hstep
    exact sound_advanceCaller h caller call
  | markStopping =>
    obtain ⟨-, heq⟩ := Option.ite_none_left_eq_some.1 hstep
    cases heq
    exact h

/-- A store that was decided on before replaces `Stopping`. -/
theorem not_staysStopping_of_stale {e : WatchdogEvent} (h : Sound s)
    (hstale : isStaleStore s e = true) : ∃ s', step s e = some s' ∧ ¬ StaysStopping s' := by
  cases e with
  | reconcile =>
    obtain ⟨hstopped, hstore⟩ := Bool.and_eq_true_iff.1 hstale
    obtain ⟨phase, hphase, hstore⟩ := (Option.any_eq_true _ _).1 hstore
    refine ⟨s.advanceReconcile phase, by rw [step, hphase]; rfl, fun hstays => ?_⟩
    cases phase with
    | healing sequence =>
      have hstate := (hstays hstopped).1
      change WatchdogState.fromU8 WatchdogState.healthy.asU8 = .stopping at hstate
      rw [WatchdogState.fromU8_asU8] at hstate
      cases hstate
    | reconciled timestampMs => cases hstore
    | progressed timestampMs => cases hstore
    | counting => cases hstore
    | checking sequence => cases hstore
  | caller caller =>
    obtain ⟨hstopped, hstore⟩ := Bool.and_eq_true_iff.1 hstale
    obtain ⟨call, hcall, hstore⟩ := (Option.any_eq_true _ _).1 hstore
    refine ⟨s.advanceCaller caller call, by rw [step, hcall]; rfl, fun hstays => ?_⟩
    have hsound := h caller call hcall
    obtain ⟨late, phase⟩ := call
    cases phase with
    | storing previous next =>
      have hstate := (hstays hstopped).1
      change WatchdogState.fromU8 next.asU8 = .stopping at hstate
      rw [WatchdogState.fromU8_asU8] at hstate
      exact hsound previous next rfl hstate
    | loading timestampMs => cases hstore
    | measuring previous timestampMs => cases hstore
    | counting previous => cases hstore
  | started timestampMs => cases hstale
  | completed timestampMs => cases hstale
  | evaluate caller timestampMs => cases hstale
  | markStopping => cases hstale

/-! ## What every other step keeps -/

/-- After `mark_stopping` the state is `Stopping`, and every call that goes on began before it. -/
structure Quiet (s : WatchdogSystem) : Prop where
  early : ∀ caller call, s.callers caller = some call → call.late = false
  reports : s.lateReports = []
  stopping : s.stopped = true → s.watchdog.state = .stopping

theorem quiet_start (config : WatchdogConfig) (createdAtMs : UInt64) :
    Quiet (start config createdAtMs) where
  early := by
    intro caller call hcall
    cases hcall
  reports := rfl
  stopping := by
    intro hstopped
    cases hstopped

theorem Quiet.advanceReconcile (h : Quiet s) {phase : CompletedPhase}
    (hstore : s.stopped = true → phase.isStore = false) : Quiet (s.advanceReconcile phase) where
  early := h.early
  reports := h.reports
  stopping := fun hstopped =>
    (CompletedPhase.state_advance (hstore hstopped)).trans (h.stopping hstopped)

/-- A caller that began before the shutdown, or that returns nothing. -/
theorem Quiet.advanceCaller (h : Quiet s) {caller : ℕ} {call : Evaluation}
    (hlate : call.late = true → (call.phase.advance s.watchdog).2 = .inr none)
    (hstore : s.stopped = true → call.phase.isStore = false) :
    Quiet (s.advanceCaller caller call) where
  early := by
    intro other found hfound
    obtain ⟨phase, hphase, rfl⟩ | hsame := callers_advanceCaller hfound
    · by_contra hcall
      rw [hlate (Bool.eq_true_of_not_eq_false hcall)] at hphase
      cases hphase
    · exact h.early other found hsame
  reports := by
    simp only [WatchdogSystem.advanceCaller, h.reports, List.nil_append]
    split_ifs with hcall
    · rw [hlate hcall]
      rfl
    · rfl
  stopping := fun hstopped =>
    (EvaluatePhase.state_advance (hstore hstopped)).trans (h.stopping hstopped)

theorem Quiet.step {s s' : WatchdogSystem} {e : WatchdogEvent} (h : Quiet s)
    (hfresh : isStaleStore s e = false) (hstep : step s e = some s') : Quiet s' := by
  cases e with
  | started timestampMs =>
    obtain ⟨-, heq⟩ := Option.ite_none_right_eq_some.1 hstep
    cases heq
    exact ⟨h.early, h.reports, h.stopping⟩
  | completed timestampMs =>
    obtain ⟨-, heq⟩ := Option.ite_none_right_eq_some.1 hstep
    cases heq
    exact h.advanceReconcile fun _ => rfl
  | reconcile =>
    obtain ⟨phase, hphase, rfl⟩ := Option.map_eq_some_iff.1 hstep
    refine h.advanceReconcile fun hstopped => ?_
    simpa [isStaleStore, hstopped, hphase] using hfresh
  | evaluate caller timestampMs =>
    obtain ⟨-, heq⟩ := Option.ite_none_right_eq_some.1 hstep
    cases heq
    -- A call that begins after the shutdown loads `Stopping` and returns.
    refine h.advanceCaller (fun hstopped => ?_) fun _ => rfl
    have hfinal : isFinal s.watchdog.state = true := by
      rw [h.stopping hstopped]
      rfl
    rw [EvaluatePhase.advance, if_pos hfinal]
  | caller caller =>
    obtain ⟨call, hcall, rfl⟩ := Option.map_eq_some_iff.1 hstep
    refine h.advanceCaller (fun hlate => ?_) fun hstopped => ?_
    · rw [h.early caller call hcall] at hlate
      cases hlate
    · simpa [isStaleStore, hstopped, hcall] using hfresh
  | markStopping =>
    obtain ⟨-, heq⟩ := Option.ite_none_left_eq_some.1 hstep
    cases heq
    exact ⟨h.early, h.reports, fun _ => state_setState s.watchdog .stopping⟩

/-- The state stays `Stopping`, and no later call of `evaluate` returns a transition, in exactly the
runs in which no store that follows a load of the state is made after `mark_stopping`. -/
theorem stays_stopping_iff (config : WatchdogConfig) (createdAtMs : UInt64)
    (events : List WatchdogEvent) :
    Throughout step StaysStopping (start config createdAtMs) events ↔
      EachStep step (fun s e => isStaleStore s e = false) (start config createdAtMs) events := by
  constructor
  · intro hstays before e after s heq hrun
    have hsound : Sound s := by
      have hall : Throughout step Sound (start config createdAtMs) before :=
        throughout_of_step (P := fun _ _ => True) (sound_start config createdAtMs)
          (fun _ _ _ hs _ hstep => sound_step hs hstep) (fun _ _ _ _ _ _ => trivial)
      exact hall.final hrun
    by_contra hstale
    rw [Bool.not_eq_false] at hstale
    obtain ⟨s', hstep, hbad⟩ := not_staysStopping_of_stale hsound hstale
    refine hbad (hstays (before ++ [e]) after s' (by simp [heq]) ?_)
    exact runFrom_concat_eq_some.2 ⟨s, hrun, hstep⟩
  · intro hfresh
    have hquiet := throughout_of_step (quiet_start config createdAtMs)
      (fun _ _ _ hs he hstep => hs.step he hstep) hfresh
    exact hquiet.imp fun s hs hstopped => ⟨hs.stopping hstopped, hs.reports⟩

/-- `evaluate` has found the loop stalled, and the shutdown comes before its store. -/
def overtaken : List WatchdogEvent :=
  [.evaluate 0 20000, .caller 0, .markStopping, .caller 0]

theorem not_always_stopping :
    ¬ ∀ (config : WatchdogConfig) (createdAtMs : UInt64) (events : List WatchdogEvent),
      Throughout step StaysStopping (start config createdAtMs) events := by
  intro hall
  have hrun : ((runFrom step (start .default 0) overtaken).map fun s =>
      (s.stopped, s.watchdog.state)) = some (true, .stalled) := by decide
  obtain ⟨s, hreached, hs⟩ := Option.map_eq_some_iff.1 hrun
  have hstate := hall .default 0 overtaken overtaken [] s (List.append_nil _).symm hreached
    (congrArg Prod.fst hs)
  rw [(Prod.mk.inj hs).2] at hstate
  cases hstate.1

end WatchdogSystem

end AppCore.Supervisor
