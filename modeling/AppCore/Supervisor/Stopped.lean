import AppCore.Base.Cursor
import AppCore.Supervisor.Lifecycle

/-!
# A stopped service stays stopped

**Theorem (`stays_stopped`).** When no restart of a service is scheduled at the time of `stop`, the
executor never receives a command for it again, whatever follows, as long as the service is neither
started nor restarted and does not report that it failed.

A restart that is already scheduled stays so: `stop` does not touch the restart state, and the next
`reconcile` that is late enough hands the restart to the executor (`restarted_after_stop`).

The invariant (`Calm`) is that no restart is scheduled and no command was received; only a report of
a failure ends it. The steps that could break it, scheduling a restart and handing one to the
executor, are the ones that name the service they are for.
-/

namespace AppCore.Supervisor.SupervisorInner

open Prog

variable {W : Type}

/-- Whether a restart of a service is scheduled. -/
def RestartScheduled (name : String) (s : SupervisorInner W) : Prop :=
  ∃ record executeAtMs, s.records[name]? = some record ∧
    record.restartState = .scheduled executeAtMs

instance (name : String) (s : SupervisorInner W) : Decidable (s.RestartScheduled name) :=
  decidable_of_iff (s.records[name]?.any fun record =>
      match record.restartState with
      | .scheduled _ => true
      | _ => false) <| by
    unfold RestartScheduled
    cases s.records[name]? with
    | none => simp
    | some record => cases hstate : record.restartState <;> simp [hstate]

/-- The number of commands for a service that the executor received. -/
def receivedFor (name : String) (s : SupervisorInner W) : Nat :=
  s.restartExecutor.received.count name

/-- Whether a service reported a failure after the first `k` reports. -/
def ReportedFailure (name : String) (k : Nat) (s : SupervisorInner W) : Prop :=
  ∃ report ∈ s.reports.drop k, report.1 = name ∧ report.2 = .failed

/-! ## The invariant -/

section

variable (name : String) (k c : Nat)

/-- No restart is scheduled, and no command beyond the first `c` was received. -/
structure Quiet (s : SupervisorInner W) : Prop where
  reported : k ≤ s.reports.length
  idle : ¬ s.RestartScheduled name
  received : s.receivedFor name = c

/-- What holds until a failure is reported, and a fact `P` about the call that is made. -/
structure Calm (P : Prop) (s : SupervisorInner W) : Prop where
  fact : P ∨ s.ReportedFailure name k
  quiet : s.Quiet name k c ∨ s.ReportedFailure name k

variable {name k c} {P P' : Prop} {s t : SupervisorInner W}

theorem ReportedFailure.mono (h : s.ReportedFailure name k) (hreports : s.reports <+: t.reports) :
    t.ReportedFailure name k := by
  obtain ⟨report, hmem, hreport⟩ := h
  obtain ⟨more, hmore⟩ := hreports
  refine ⟨report, ?_, hreport⟩
  rw [← hmore, List.drop_append]
  exact List.mem_append_left _ hmem

theorem Calm.imp (h : s.Calm name k c P) (hP : P → P') : s.Calm name k c P' :=
  ⟨h.fact.imp_left hP, h.quiet⟩

theorem Calm.frame (h : s.Calm name k c P) (hreports : s.reports <+: t.reports)
    (hidle : P → ¬ s.RestartScheduled name → ¬ t.RestartScheduled name)
    (hreceived : P → t.receivedFor name = s.receivedFor name) : t.Calm name k c P := by
  rcases h.fact with hP | hfailure
  · rcases h.quiet with hquiet | hfailure
    · exact ⟨Or.inl hP, Or.inl ⟨hquiet.reported.trans hreports.length_le, hidle hP hquiet.idle,
        (hreceived hP).trans hquiet.received⟩⟩
    · exact ⟨Or.inl hP, Or.inr (hfailure.mono hreports)⟩
  · exact ⟨Or.inr (hfailure.mono hreports), Or.inr (hfailure.mono hreports)⟩

/-! ## Steps -/

/-- A look at the state that tells something about it. -/
theorem keeps_read_fact {α β : Type} {f : SupervisorInner W → Except SupervisorError α}
    {g : α → Call W β} (fact : α → Prop)
    (hfact : ∀ s a, s.Quiet name k c → f s = .ok a → fact a)
    (hg : ∀ a, Keeps (Calm name k c (P ∧ fact a)) (g a)) :
    Keeps (Calm name k c P) (Prog.read f >>= g) := by
  intro s hs
  rw [wp_read_bind]
  refine ⟨fun a ha => ?_, fun _ _ => hs⟩
  have hstrong : s.Calm name k c (P ∧ fact a) := by
    refine ⟨?_, hs.quiet⟩
    rcases hs.fact with hP | hfailure
    · rcases hs.quiet with hquiet | hfailure
      · exact Or.inl ⟨hP, hfact s a hquiet ha⟩
      · exact Or.inr hfailure
    · exact Or.inr hfailure
  exact wp_mono (hg a s hstrong) (fun t ht => ht.imp And.left) fun _ t ht => ht.imp And.left

theorem keeps_change {f : SupervisorInner W → SupervisorInner W}
    (hreports : ∀ s, (f s).reports = s.reports) (hrecords : ∀ s, (f s).records = s.records)
    (hreceived : ∀ s, (f s).restartExecutor.received = s.restartExecutor.received) :
    Keeps (Calm name k c P) (change f) := by
  refine keeps_step fun s t hs ht => ?_
  cases ht
  refine hs.frame (by rw [hreports]) (fun _ h => ?_) fun _ => ?_
  · unfold RestartScheduled at h ⊢
    rwa [hrecords]
  · rw [receivedFor, receivedFor, hreceived]

theorem keeps_ask {α : Type} (f : W → α × W) : Keeps (Calm name k c P) (ask f) :=
  keeps_bind (keeps_read _) fun _ =>
    keeps_bind (keeps_change (fun _ => rfl) (fun _ => rfl) fun _ => rfl) fun _ => keeps_pure _

/-- After a report, the service did not fail or a failure is reported. -/
theorem keeps_health_bind {β : Type} {service : ManagedService W} {g : ServiceHealth → Call W β}
    (hg : ∀ a, Keeps (Calm name k c (P ∧ (a = .failed → service.descriptor.name ≠ name))) (g a)) :
    Keeps (Calm name k c P) (health service >>= g) := by
  intro s hs
  have hframe : Calm name k c P { s with
      world := (service.health s.world).2
      reports := s.reports ++ [(service.descriptor.name, (service.health s.world).1)] } :=
    hs.frame (List.prefix_append _ _) (fun _ h => h) fun _ => rfl
  have hstrong : Calm name k c
      (P ∧ ((service.health s.world).1 = .failed → service.descriptor.name ≠ name)) { s with
      world := (service.health s.world).2
      reports := s.reports ++ [(service.descriptor.name, (service.health s.world).1)] } := by
    refine ⟨?_, hframe.quiet⟩
    rcases hframe.fact with hP | hfailure
    · rcases hs.quiet with hquiet | hfailure
      · by_cases hnew : (service.health s.world).1 = .failed ∧ service.descriptor.name = name
        · refine Or.inr ⟨(service.descriptor.name, (service.health s.world).1), ?_, hnew.2, hnew.1⟩
          rw [List.drop_append_of_le_length hquiet.reported]
          exact List.mem_append_right _ (List.mem_singleton_self _)
        · exact Or.inl ⟨hP, fun hfailed heq => hnew ⟨hfailed, heq⟩⟩
      · exact Or.inr (hfailure.mono (List.prefix_append _ _))
    · exact Or.inr hfailure
  unfold health
  rw [wp_bind, wp_bind, wp_read]
  change wp (change _ >>= _) _ _ s
  rw [wp_bind, change, wp_step]
  refine ⟨?_, nofun⟩
  rintro _ ⟨⟩
  refine ⟨hframe, ?_⟩
  change wp (pure _) _ _ _
  rw [wp_pure]
  exact wp_mono (hg _ _ hstrong) (fun t ht => ht.imp And.left) fun _ t ht => ht.imp And.left

theorem keeps_health (service : ManagedService W) : Keeps (Calm name k c P) (health service) :=
  keeps_bind (keeps_read _) fun _ => keeps_bind (keeps_step fun s t hs ht => by
    cases ht
    exact hs.frame (List.prefix_append _ _) (fun _ h => h) fun _ => rfl) fun _ => keeps_pure _

/-- A record is changed: that of another service, or so that no restart is scheduled anew. -/
theorem keeps_changeRecord {a : String} {f : RuntimeRecord → RuntimeRecord}
    (h : P → a = name → ∀ record executeAtMs, (f record).restartState = .scheduled executeAtMs →
      record.restartState = .scheduled executeAtMs) :
    Keeps (Calm name k c P) (changeRecord a f : Call W Unit) := by
  refine keeps_step fun s t hs ht => ?_
  split at ht
  · cases ht
    refine hs.frame (List.prefix_refl _) (fun hP hidle => ?_) fun _ => rfl
    rintro ⟨record, executeAtMs, hrecord, hscheduled⟩
    rw [lookup_modify] at hrecord
    by_cases ha : a = name
    · rw [if_pos ha] at hrecord
      obtain ⟨old, hold, rfl⟩ := Option.map_eq_some_iff.1 hrecord
      exact hidle ⟨old, executeAtMs, hold, h hP ha old executeAtMs hscheduled⟩
    · rw [if_neg ha] at hrecord
      exact hidle ⟨record, executeAtMs, hrecord, hscheduled⟩
  · cases ht

theorem keeps_schedule {command : RestartCommand W}
    (h : P → command.service.descriptor.name ≠ name) :
    Keeps (Calm name k c P) (schedule command) := by
  refine keeps_step fun s t hs ht => ?_
  dsimp only at ht
  split at ht
  · cases ht
    refine hs.frame (List.prefix_refl _) (fun _ hidle => hidle) fun hP => ?_
    rw [receivedFor, receivedFor, List.count_append, List.count_singleton,
      if_neg (by simpa using h hP), Nat.add_zero]
  · cases ht

/-! ## Calls -/

theorem keeps_service (a : String) : Keeps (Calm name k c P) (service a : Call W _) := keeps_read _

theorem keeps_record (a : String) : Keeps (Calm name k c P) (record a : Call W _) := keeps_read _

theorem keeps_updateRecord (a : String) (health : ServiceHealth)
    (runtimeState : ServiceRuntimeState) :
    Keeps (Calm name k c P) (updateRecord a health runtimeState : Call W _) :=
  keeps_bind (keeps_record a) fun _ =>
    keeps_bind (keeps_changeRecord fun _ _ _ _ h => h) fun _ => keeps_pure _

theorem keeps_firstUnavailable (dependencies : List ServiceDependency) :
    Keeps (Calm name k c P) (firstUnavailable dependencies : Call W _) := by
  induction dependencies with
  | nil => exact keeps_pure none
  | cons dependency dependencies ih =>
    refine keeps_bind (keeps_attempt (keeps_service _)) fun found => ?_
    cases found with
    | ok service =>
      refine keeps_bind (keeps_health service) fun health => ?_
      split
      · exact ih
      · exact keeps_pure _
    | error error =>
      change Keeps _ (if dependency.requirement = .optional then _ else _)
      split
      · exact ih
      · exact keeps_fail error

theorem keeps_requireDependencies (service : ManagedService W) :
    Keeps (Calm name k c P) (requireDependencies service) := by
  refine keeps_bind (keeps_firstUnavailable _) fun found => ?_
  cases found with
  | some dependency => exact keeps_fail _
  | none => exact keeps_pure ()

theorem keeps_restartIsActive (a : String) :
    Keeps (Calm name k c P) (restartIsActive a : Call W Bool) :=
  keeps_bind (keeps_record a) fun _ => keeps_pure _

theorem keeps_jitter (maximum : Duration) :
    Keeps (Calm name k c P) (jitter maximum : Call W Duration) := by
  unfold jitter
  dsimp only
  split
  · exact keeps_pure 0
  · exact keeps_bind (keeps_read _) fun _ =>
      keeps_bind (keeps_change (fun _ => rfl) (fun _ => rfl) fun _ => rfl) fun _ => keeps_pure _

theorem keeps_consumeRestartBudget (service : ManagedService W) (timestampMs : UInt64) :
    Keeps (Calm name k c P) (consumeRestartBudget service timestampMs) := by
  refine keeps_bind (keeps_changeRecord fun _ _ _ _ h => h) fun _ => ?_
  refine keeps_bind (keeps_record _) fun current => ?_
  split
  · exact keeps_bind (keeps_changeRecord fun _ _ _ _ h => h) fun _ => keeps_fail _
  · exact keeps_bind (keeps_changeRecord fun _ _ _ _ h => h) fun _ => keeps_pure _

theorem keeps_scheduleRestart {service : ManagedService W} (h : P → service.descriptor.name ≠ name)
    (timestampMs : UInt64) : Keeps (Calm name k c P) (scheduleRestart service timestampMs) := by
  unfold scheduleRestart
  dsimp only
  split
  · exact keeps_pure ()
  · refine keeps_bind (keeps_restartIsActive _) fun active => ?_
    split
    · exact keeps_pure ()
    · refine keeps_bind (keeps_consumeRestartBudget service timestampMs) fun _ => ?_
      refine keeps_bind (keeps_jitter _) fun _ => ?_
      exact keeps_changeRecord fun hP heq => absurd heq (h hP)

/-- Only a restart of another service is handed to the executor. -/
theorem keeps_dispatchRestart {a : String} (h : P → a ≠ name) (attempt : UInt64) :
    Keeps (Calm name k c P) (dispatchRestart a attempt : Call W Unit) := by
  refine keeps_read_bind fun s service hservice => ?_
  have hnamed : service.descriptor.name = a := by
    split at hservice
    · cases hservice
    · next other hother =>
      cases hservice
      exact s.services.named a _ hother
  refine keeps_bind (keeps_attempt (keeps_schedule fun hP => by rw [hnamed]; exact h hP)) fun r => ?_
  rcases r with error | u
  · cases error with
    | restartQueueFull => exact keeps_pure ()
    | _ => exact keeps_fail _
  · exact keeps_changeRecord fun hP heq => absurd heq (h hP)

theorem scheduled_of_due {timestampMs : UInt64} {restart : String × UInt64}
    (h : restart ∈ dueRestarts timestampMs s) : s.RestartScheduled restart.1 := by
  obtain ⟨⟨a, record⟩, hmem, rfl⟩ := List.mem_map.1 h
  obtain ⟨hentry, hdue⟩ := List.mem_filter.1 hmem
  have hrecord := Std.ExtTreeMap.mem_toList_iff_getElem?_eq_some.1 hentry
  unfold RuntimeRecord.isDue at hdue
  cases hstate : record.restartState with
  | scheduled executeAtMs => exact ⟨record, executeAtMs, hrecord, hstate⟩
  | _ => simp [hstate] at hdue

theorem keeps_dispatchDueRestarts (timestampMs : UInt64) :
    Keeps (Calm name k c P) (dispatchDueRestarts timestampMs : Call W Unit) := by
  refine keeps_read_fact (fun due => ∀ restart ∈ due, restart.1 ≠ name) ?_ fun due => ?_
  · rintro s due hquiet ⟨⟩ restart hmem rfl
    exact hquiet.idle (scheduled_of_due hmem)
  · exact keeps_each due fun restart hmem =>
      keeps_dispatchRestart (fun hP => hP.2 restart hmem) restart.2

theorem keeps_quarantineOrphan (a : String) :
    Keeps (Calm name k c P) (quarantineOrphan a : Call W Unit) :=
  keeps_changeRecord fun _ _ _ _ h => RestartState.noConfusion h

theorem keeps_applyRestartCompletion (completion : RestartCompletion) :
    Keeps (Calm name k c P) (applyRestartCompletion completion : Call W Unit) := by
  refine keeps_bind (keeps_service _) fun service => ?_
  cases completion.outcome with
  | restarted =>
    exact keeps_bind (keeps_health service) fun _ => keeps_bind (keeps_ask _) fun _ =>
      keeps_changeRecord fun _ _ _ _ h => RestartState.noConfusion h
  | orphaned => exact keeps_quarantineOrphan _
  | failed => exact keeps_bind (keeps_ask _) fun _ => keeps_changeRecord fun _ _ _ _ h => RestartState.noConfusion h
  | cancelled => exact keeps_bind (keeps_ask _) fun _ => keeps_changeRecord fun _ _ _ _ h => RestartState.noConfusion h

theorem keeps_applyRestartCompletions :
    Keeps (Calm name k c P) (applyRestartCompletions : Call W Unit) := by
  have hdrain : Keeps (Calm name k c P) (drainCompletions : Call W _) :=
    keeps_bind (keeps_read _) fun _ =>
      keeps_bind (keeps_change (fun _ => rfl) (fun _ => rfl) fun _ => rfl) fun _ => keeps_pure _
  exact keeps_bind hdrain fun completions => keeps_each completions fun completion _ =>
    keeps_applyRestartCompletion completion

theorem keeps_start (a : String) : Keeps (Calm name k c P) (start a : Call W Unit) := by
  refine keeps_bind (keeps_service a) fun service => ?_
  split
  · exact keeps_pure ()
  · refine keeps_bind (keeps_requireDependencies service) fun _ => ?_
    refine keeps_bind (keeps_record a) fun _ => keeps_bind (keeps_ask _) fun started => ?_
    cases started with
    | ok u =>
      exact keeps_bind (keeps_health service) fun _ => keeps_bind (keeps_ask _) fun _ =>
        keeps_bind (keeps_updateRecord _ _ _) fun _ => keeps_pure ()
    | error error =>
      exact keeps_bind (keeps_ask _) fun _ =>
        keeps_bind (keeps_updateRecord _ _ _) fun _ => keeps_fail error

/-- A restart is scheduled only for a service that reports a failure. -/
theorem keeps_reconcileService (timestampMs : UInt64) (a : String) :
    Keeps (Calm name k c P) (reconcileService timestampMs a : Call W Unit) := by
  refine keeps_bind (keeps_service a) fun service => ?_
  split
  · exact keeps_pure ()
  · refine keeps_bind (keeps_firstUnavailable _) fun found => ?_
    cases found with
    | some dependency =>
      exact keeps_bind (keeps_ask _) fun _ =>
        keeps_bind (keeps_updateRecord _ _ _) fun _ => keeps_pure ()
    | none =>
      refine keeps_health_bind fun reported => ?_
      refine keeps_bind (keeps_ask _) fun _ => keeps_bind (keeps_updateRecord _ _ _) fun _ => ?_
      split
      next hfailed =>
        have hother : P ∧ (reported = .failed → service.descriptor.name ≠ name) →
            service.descriptor.name ≠ name := fun hP =>
          hP.2 (by simpa [ServiceHealth.isFailed] using hfailed)
        refine keeps_bind (keeps_attempt (keeps_scheduleRestart hother timestampMs)) fun r => ?_
        rcases r with error | u
        · cases error with
          | restartBudgetExceeded service => exact keeps_pure ()
          | _ => exact keeps_fail _
        · exact keeps_pure ()
      next => exact keeps_pure ()

theorem keeps_reconcile (timestampMs : UInt64) :
    Keeps (Calm name k c P) (reconcile timestampMs : Call W Unit) :=
  keeps_bind keeps_applyRestartCompletions fun _ => keeps_bind (keeps_read _) fun order =>
    keeps_bind (keeps_each order fun a _ => keeps_reconcileService timestampMs a) fun _ =>
      keeps_dispatchDueRestarts timestampMs

theorem keeps_restart {a : String} (ha : a ≠ name) (timestampMs : UInt64) :
    Keeps (Calm name k c P) (restart a timestampMs : Call W Unit) := by
  refine keeps_read_bind fun s service hservice => ?_
  have hnamed : service.descriptor.name = a := by
    split at hservice
    · cases hservice
    · next other hother =>
      cases hservice
      exact s.services.named a _ hother
  exact keeps_bind (keeps_requireDependencies service) fun _ =>
    keeps_scheduleRestart (fun _ => by rwa [hnamed]) timestampMs

theorem keeps_stop (a : String) : Keeps (Calm name k c P) (stop a : Call W Unit) := by
  refine keeps_bind (keeps_service a) fun service => ?_
  split
  · exact keeps_pure ()
  · refine keeps_bind (keeps_ask _) fun stopped => ?_
    cases stopped with
    | ok u => exact keeps_bind (keeps_updateRecord _ _ _) fun _ => keeps_pure ()
    | error error =>
      refine keeps_bind ?_ fun _ => keeps_fail error
      refine keeps_bind (keeps_ask _) fun runtimeState => ?_
      split
      · exact keeps_quarantineOrphan _
      · exact keeps_bind (keeps_ask _) fun _ =>
          keeps_bind (keeps_updateRecord _ _ _) fun _ => keeps_pure ()

theorem calm_insert (services : Services W) (a : String) (h : s.Calm name k c P) :
    Calm name k c P { s with services, records := s.records.insert a .default } := by
  refine h.frame (List.prefix_refl _) (fun _ hidle => ?_) fun _ => rfl
  rintro ⟨record, executeAtMs, hrecord, hscheduled⟩
  rw [lookup_insert] at hrecord
  split at hrecord
  · cases hrecord
    cases hscheduled
  · exact hidle ⟨record, executeAtMs, hrecord, hscheduled⟩

theorem keeps_register (service : ManagedService W) :
    Keeps (Calm name k c P) (register service) := by
  refine keeps_step fun s t hs ht => ?_
  obtain ⟨_, _, ht⟩ := bind_eq_ok.1 ht
  dsimp only at ht
  split at ht
  · cases ht
  · cases ht
    exact calm_insert _ _ hs

theorem keeps_registerOrReplaceInactive (service : ManagedService W) :
    Keeps (Calm name k c P) (registerOrReplaceInactive service) := by
  refine keeps_step fun s t hs ht => ?_
  obtain ⟨_, _, ht⟩ := bind_eq_ok.1 ht
  dsimp only at ht
  split at ht
  · cases ht
  · cases ht
    exact calm_insert _ _ hs

end

/-! ## Runs -/

/-- A step that starts or restarts a service. -/
def SupervisorStep.IsFor (name : String) : SupervisorStep W → Prop
  | .start a => a = name
  | .restart a _ => a = name
  | _ => False

theorem calm_worker {name : String} {k c : Nat} {P : Prop} {s t : SupervisorInner W}
    (h : s.Calm name k c P) (hreports : t.reports = s.reports) (hrecords : t.records = s.records)
    (hreceived : t.restartExecutor.received = s.restartExecutor.received) :
    t.Calm name k c P := by
  refine h.frame (by rw [hreports]) (fun _ hidle => ?_) fun _ => ?_
  · unfold RestartScheduled at hidle ⊢
    rwa [hrecords]
  · rw [receivedFor, receivedFor, hreceived]

theorem calm_takeCommand {name : String} {k c : Nat} {P : Prop} {s t : SupervisorInner W}
    (h : s.Calm name k c P) (hstep : s.takeCommand = some t) : t.Calm name k c P := by
  unfold takeCommand at hstep
  split at hstep
  · cases hstep
  · split at hstep
    · cases hstep
      exact calm_worker h rfl rfl rfl
    · cases hstep

theorem calm_workerStep {name : String} {k c index : Nat} {P : Prop} {s t : SupervisorInner W}
    (h : s.Calm name k c P) (hstep : s.workerStep index = some t) : t.Calm name k c P := by
  unfold workerStep at hstep
  split at hstep
  · cases hstep
  · split at hstep
    · split at hstep
      · cases hstep
        exact calm_worker h rfl rfl rfl
      · cases hstep
    · cases hstep
      exact calm_worker h rfl rfl rfl

/-- One step keeps the invariant unless it starts or restarts the service. -/
theorem calm_step {name : String} {k c : Nat} {s t : SupervisorInner W} {step : SupervisorStep W}
    (h : s.Calm name k c True) (hother : ¬ SupervisorStep.IsFor name step)
    (hstep : s.step step = some t) : t.Calm name k c True := by
  cases step with
  | register service =>
    cases hstep
    exact (keeps_register service).final h
  | registerOrReplaceInactive service =>
    cases hstep
    exact (keeps_registerOrReplaceInactive service).final h
  | start a =>
    cases hstep
    exact (keeps_start a).final h
  | reconcile timestampMs =>
    cases hstep
    exact (keeps_reconcile timestampMs).final h
  | restart a timestampMs =>
    cases hstep
    exact (keeps_restart hother timestampMs).final h
  | stop a =>
    cases hstep
    exact (keeps_stop a).final h
  | takeCommand => exact calm_takeCommand h hstep
  | worker index => exact calm_workerStep h hstep
  | environment world =>
    cases hstep
    exact calm_worker h rfl rfl rfl

theorem calm_run {name : String} {k c : Nat} {s t : SupervisorInner W}
    {steps : List (SupervisorStep W)} (h : s.Calm name k c True)
    (hother : ∀ step ∈ steps, ¬ SupervisorStep.IsFor name step) (hrun : s.run steps = some t) :
    t.Calm name k c True := by
  induction steps generalizing s with
  | nil =>
    cases hrun
    exact h
  | cons step steps ih =>
    obtain ⟨next, hstep, hrest⟩ := Option.bind_eq_some_iff.1 hrun
    have hnext := calm_step h (hother step List.mem_cons_self) hstep
    exact ih hnext (fun step hmem => hother step (List.mem_cons_of_mem _ hmem)) hrest

/-- A service stays stopped once it is stopped in a state: whatever follows in which it is neither
started nor restarted and reports the health `stopped` only, the executor receives no command for
it. -/
def StaysStopped (name : String) (stopped : ServiceHealth) (s : SupervisorInner W) : Prop :=
  ∀ steps t, (∀ step ∈ steps, ¬ SupervisorStep.IsFor name step) →
    ((stop name).final s).run steps = some t →
    (∀ report ∈ t.reports.drop s.reports.length, report.1 = name → report.2 = stopped) →
      t.receivedFor name = s.receivedFor name

/-- **A stopped service stays stopped when no restart of it was scheduled.** The health it has when
it is stopped is not a failure. -/
theorem stays_stopped (name : String) (stopped : ServiceHealth) (s : SupervisorInner W)
    (hscheduled : ¬ s.RestartScheduled name) (hstopped : stopped ≠ .failed) :
    StaysStopped name stopped s := by
  intro steps t hother hrun hreports
  have hbefore : s.Calm name s.reports.length (s.receivedFor name) True :=
    ⟨Or.inl trivial, Or.inl ⟨le_rfl, hscheduled, rfl⟩⟩
  have hafter := calm_run ((keeps_stop name).final hbefore) hother hrun
  rcases hafter.quiet with hquiet | ⟨report, hmem, hname, hfailed⟩
  · exact hquiet.received
  · exact absurd ((hreports report hmem hname).symm.trans hfailed) hstopped

/-- A passive service: the world is the health it has. -/
def passiveService (descriptor : ServiceDescriptor) : ManagedService ServiceHealth :=
  { descriptor
    start := fun _ => (.ok (), .healthy)
    stop := fun _ _ => (.ok (), .unknown)
    health := fun world => (world, world)
    runtimeState := fun world => (if world = .healthy then .running else .stopped, world) }

/-- A supervisor whose service failed before the reconcile at the time 100. -/
def failedWorker : SupervisorInner ServiceHealth :=
  let s := (register (passiveService (.new "worker" .default))).final (.new 1 .unknown)
  let s := (start "worker").final s
  (reconcile 100).final { s with world := .failed }

theorem stays_stopped_worker :
    StaysStopped "worker" .unknown
      ((register (passiveService (.new "worker" .default))).final (.new 1 .unknown)) := by
  exact stays_stopped "worker" .unknown _ (by decide) (by decide)

/-- The restart that the failure scheduled is handed to the executor after the service was
stopped. -/
theorem restarted_after_stop :
    SupervisorInner.run (.new 1 .unknown)
      [.register (passiveService (.new "worker" .default)), .start "worker", .environment .failed, .reconcile 100] =
        some failedWorker ∧
    failedWorker.restartExecutor.workers = [] ∧
    ((stop "worker").result failedWorker).toOption = some () ∧
    ¬ StaysStopped "worker" .unknown failedWorker := by
  refine ⟨rfl, by decide, by decide, fun h => ?_⟩
  have hreceived := h [.reconcile 300] ((reconcile 300).final ((stop "worker").final failedWorker))
    (by simp [SupervisorStep.IsFor]) rfl (by decide)
  exact absurd hreceived (by decide)

end AppCore.Supervisor.SupervisorInner
