import AppCore.Base.Runs
import AppCore.Supervisor.Frames
import AppCore.Supervisor.Stopped

/-!
# The restart budget

Runs of a supervisor with the times at which it scheduled a restart of one service since that was
registered, and what is said of them (`BoundedRestarts`). The calls are watched: a time is written down
at the step that schedules a restart.

The invariant (`Budgeted`) ties the times that the record keeps to the ones that were written down: it
has all that are after a cutoff, which is at most a window before the present. `schedule_restart` keeps
it (`keeps_scheduleRestart_own`): the budget is consumed before the restart is scheduled, and what holds
in between is `Pending`.
-/

namespace AppCore.Supervisor

open Prog SupervisorInner

variable {W : Type}

/-! ## The restarts that are scheduled -/

/-- A time is added at a step that schedules a restart. -/
def noteScheduled (name : String) (timestampMs : UInt64) (s t : SupervisorInner W)
    (times : List UInt64) : List UInt64 :=
  if ¬ s.RestartScheduled name ∧ t.RestartScheduled name then times ++ [timestampMs] else times

/-- A supervisor, and the times at which restarts of a service were scheduled. -/
abbrev RestartHistory (W : Type) := SupervisorInner W × List UInt64

/-- Whether a step registers a service under the name. -/
def registers (name : String) (s : SupervisorInner W) : SupervisorStep W → Bool
  | .register service => service.descriptor.name = name ∧ ((register service).result s).isOk
  | .registerOrReplaceInactive service =>
    service.descriptor.name = name ∧ ((registerOrReplaceInactive service).result s).isOk
  | _ => false

/-- One step. A registration starts anew. -/
def restartStep (name : String) (h : RestartHistory W) :
    SupervisorStep W → Option (RestartHistory W)
  | .reconcile timestampMs =>
    some ((watched (noteScheduled name timestampMs) (reconcile timestampMs)).final h)
  | .restart other timestampMs =>
    some ((watched (noteScheduled name timestampMs) (restart other timestampMs)).final h)
  | event => (h.1.step event).map fun s => (s, if registers name h.1 event then [] else h.2)

/-- The time of a call that can schedule a restart. -/
def SupervisorStep.timestamp : SupervisorStep W → Option UInt64
  | .reconcile timestampMs => some timestampMs
  | .restart _ timestampMs => some timestampMs
  | _ => none

/-- The times of the calls are positive and do not go down. -/
structure Timed (steps : List (SupervisorStep W)) : Prop where
  ordered : (steps.filterMap SupervisorStep.timestamp).Pairwise (· ≤ ·)
  positive : ∀ timestampMs ∈ steps.filterMap SupervisorStep.timestamp, 0 < timestampMs

def SupervisorStep.registered : SupervisorStep W → Option (ManagedService W)
  | .register service => some service
  | .registerOrReplaceInactive service => some service
  | _ => none

/-- The restart windows of the services registered under a name, unless they are never restarted, are
whole milliseconds. -/
def WholeWindows (name : String) (steps : List (SupervisorStep W)) : Prop :=
  ∀ service ∈ steps.filterMap SupervisorStep.registered, service.descriptor.name = name →
    service.descriptor.restartPolicy.mode ≠ .never →
      10 ^ 6 ∣ service.descriptor.restartPolicy.restartWindow

/-! ## What is said about the restarts -/

/-- No window that ends at a time, in nanoseconds, has more restarts than the budget. -/
def WithinBudget (name : String) (h : RestartHistory W) : Prop :=
  ∀ service : ManagedService W, h.1.services.map[name]? = some service → ∀ t : Nat,
    (h.2.countP fun restart => t < restart.toNat * 10 ^ 6 +
        service.descriptor.restartPolicy.restartWindow ∧ restart.toNat * 10 ^ 6 ≤ t) ≤
      service.descriptor.restartPolicy.restartBudget.toNat

/-- A service with the mode `never` is not restarted. -/
def NeverRestarted (name : String) (h : RestartHistory W) : Prop :=
  ∀ service : ManagedService W, h.1.services.map[name]? = some service →
    service.descriptor.restartPolicy.mode = .never → h.2 = []

/-- Whether a service is quarantined. -/
def Quarantined (name : String) (s : SupervisorInner W) : Prop :=
  ∃ record : RuntimeRecord, s.records[name]? = some record ∧ record.quarantined = true

/-- A service that is quarantined is not restarted again, as long as it is not registered anew. -/
def StaysQuarantined (name : String) (h : RestartHistory W) : Prop :=
  ∀ steps h', Quarantined name h.1 →
    EachStep (restartStep name) (fun h event => registers name h.1 event = false) h steps →
    runFrom (restartStep name) h steps = some h' → h'.2 = h.2

/-- The restarts of a service are bounded. -/
structure BoundedRestarts (name : String) (h : RestartHistory W) : Prop where
  within : WithinBudget name h
  never : NeverRestarted name h
  quarantine : StaysQuarantined name h

/-- The restart window of a service, in milliseconds. -/
def windowMs (service : ManagedService W) : Nat :=
  service.descriptor.restartPolicy.restartWindow / 10 ^ 6

theorem toNat_cutoff (timestampMs : UInt64) (service : ManagedService W) :
    (SupervisorInner.saturatingSub timestampMs
      (durationMs service.descriptor.restartPolicy.restartWindow)).toNat =
      timestampMs.toNat - windowMs service := by
  have hlt := timestampMs.toNat_lt
  have hduration : (durationMs service.descriptor.restartPolicy.restartWindow).toNat =
      min (windowMs service) (2 ^ 64 - 1) :=
    UInt64.toNat_ofNat_of_lt' (by
      have := Nat.min_le_right (windowMs service) (2 ^ 64 - 1)
      unfold windowMs at this
      show _ < 2 ^ 64
      omega)
  unfold SupervisorInner.saturatingSub
  split
  next hle =>
    rw [UInt64.toNat_sub_of_le _ _ hle, hduration]
    omega
  next hgt =>
    have hgt' := UInt64.lt_iff_toNat_lt.1 (UInt64.not_le.1 hgt)
    rw [hduration] at hgt'
    change 0 = _
    omega

/-- The restarts in the window before a time, when one is added that the budget allows. -/
theorem countP_concat_le {times : List UInt64} {timestampMs cutoff : UInt64} {window budget : Nat}
    (hpositive : ∀ restart ∈ times, 0 < restart)
    (hcutoff : cutoff.toNat = timestampMs.toNat - window)
    (hroom : (times.filter (cutoff < ·)).length < budget)
    (hwithin : ∀ t : Nat,
      (times.countP fun restart => t < restart.toNat + window ∧ restart.toNat ≤ t) ≤ budget)
    (t : Nat) :
    ((times ++ [timestampMs]).countP fun restart =>
      t < restart.toNat + window ∧ restart.toNat ≤ t) ≤ budget := by
  rw [List.countP_append, List.countP_singleton]
  by_cases hnow : timestampMs.toNat ≤ t
  · have hold : (times.countP fun restart => t < restart.toNat + window ∧ restart.toNat ≤ t) ≤
        times.countP (cutoff < ·) := by
      refine List.countP_mono_left fun restart hmem hrestart => ?_
      have hpos := UInt64.lt_iff_toNat_lt.1 (hpositive restart hmem)
      obtain ⟨hafter, -⟩ := of_decide_eq_true hrestart
      refine decide_eq_true (UInt64.lt_iff_toNat_lt.2 ?_)
      change 0 < restart.toNat at hpos
      omega
    rw [List.countP_eq_length_filter (p := fun restart => decide (cutoff < restart))] at hold
    split <;> omega
  · rw [if_neg (by simp only [decide_eq_true_eq]; omega), Nat.add_zero]
    exact hwithin t

/-! ## The invariant -/

/-- A restart window, unless it is not used, is a whole number of milliseconds, and not empty. -/
def WholeWindow (service : ManagedService W) : Prop :=
  service.descriptor.restartPolicy.mode ≠ .never →
    10 ^ 6 ∣ service.descriptor.restartPolicy.restartWindow ∧
      0 < service.descriptor.restartPolicy.restartWindow

/-- The time after which the restarts count, at a time. -/
def cutoffAt (timestampMs : UInt64) (service : ManagedService W) : UInt64 :=
  SupervisorInner.saturatingSub timestampMs
    (durationMs service.descriptor.restartPolicy.restartWindow)

/-- What is known of the restarts of a service up to a time. The record has those that count, and may
have more. -/
structure Budgeted (name : String) (service : ManagedService W) (clock : UInt64)
    (h : RestartHistory W) : Prop where
  past : ∀ restart ∈ h.2, 0 < restart ∧ restart ≤ clock
  kept : ∀ record, h.1.records[name]? = some record → ∃ cutoff : UInt64,
    (h.2.filter (cutoff < ·)).Sublist record.restartTimesMs ∧
      cutoff.toNat ≤ clock.toNat - windowMs service
  within : ∀ t : Nat, (h.2.countP fun restart =>
      t < restart.toNat + windowMs service ∧ restart.toNat ≤ t) ≤
    service.descriptor.restartPolicy.restartBudget.toNat
  never : service.descriptor.restartPolicy.mode = .never → h.2 = []

section

variable {name : String} {service : ManagedService W} {clock timestampMs : UInt64}
  {s : SupervisorInner W} {times : List UInt64}

theorem Budgeted.later (h : Budgeted name service clock (s, times)) (hle : clock ≤ timestampMs) :
    Budgeted name service timestampMs (s, times) := by
  refine ⟨fun restart hmem => ?_, fun record hrecord => ?_, h.within, h.never⟩
  · exact ⟨(h.past restart hmem).1, UInt64.le_trans (h.past restart hmem).2 hle⟩
  · obtain ⟨cutoff, hsub, hcutoff⟩ := h.kept record hrecord
    refine ⟨cutoff, hsub, hcutoff.trans ?_⟩
    exact Nat.sub_le_sub_right (UInt64.le_iff_toNat_le.1 hle) _

variable {t : SupervisorInner W}

theorem Budgeted.of_records (h : Budgeted name service clock (s, times))
    (hrecords : ∀ record, t.records[name]? = some record → ∃ old, s.records[name]? = some old ∧
      old.restartTimesMs.Sublist record.restartTimesMs) :
    Budgeted name service clock (t, times) := by
  refine ⟨h.past, fun record hrecord => ?_, h.within, h.never⟩
  obtain ⟨old, hold, htimes⟩ := hrecords record hrecord
  obtain ⟨cutoff, hsub, hcutoff⟩ := h.kept old hold
  exact ⟨cutoff, hsub.trans htimes, hcutoff⟩

variable {record : RuntimeRecord}

/-- The times that count now are among the ones that counted. -/
theorem Budgeted.kept_now (h : Budgeted name service timestampMs (s, times))
    (hrecord : s.records[name]? = some record) :
    (times.filter (cutoffAt timestampMs service < ·)).Sublist
      (record.restartTimesMs.filter (cutoffAt timestampMs service < ·)) := by
  obtain ⟨cutoff, hsub, hcutoff⟩ := h.kept record hrecord
  have hle : cutoff ≤ cutoffAt timestampMs service := by
    rw [UInt64.le_iff_toNat_le, cutoffAt, toNat_cutoff]
    exact hcutoff
  have htwice : times.filter (cutoffAt timestampMs service < ·) =
      (times.filter (cutoff < ·)).filter (cutoffAt timestampMs service < ·) := by
    rw [List.filter_filter]
    refine List.filter_congr fun restart _ => ?_
    by_cases hlt : cutoffAt timestampMs service < restart
    · simp only [hlt, UInt64.lt_of_le_of_lt hle hlt, decide_true, Bool.and_self]
    · simp only [hlt, decide_false, Bool.false_and]
  rw [htwice]
  exact hsub.filter _

/-- A restart that the budget allows is written down. -/
theorem Budgeted.concat (h : Budgeted name service timestampMs (s, times))
    (hwhole : WholeWindow service) (hpositive : 0 < timestampMs)
    (hmode : service.descriptor.restartPolicy.mode ≠ .never)
    (hroom : (times.filter (cutoffAt timestampMs service < ·)).length <
      service.descriptor.restartPolicy.restartBudget.toNat)
    (hrecords : ∀ record, t.records[name]? = some record →
      (times.filter (cutoffAt timestampMs service < ·) ++ [timestampMs]).Sublist
        record.restartTimesMs) :
    Budgeted name service timestampMs (t, times ++ [timestampMs]) := by
  have hcutoff : (cutoffAt timestampMs service).toNat = timestampMs.toNat - windowMs service :=
    toNat_cutoff timestampMs service
  refine ⟨fun restart hmem => ?_, fun record hrecord => ?_, fun t => ?_, fun hnever => ?_⟩
  · rcases List.mem_append.1 hmem with hold | hnew
    · exact h.past restart hold
    · rw [List.mem_singleton.1 hnew]
      exact ⟨hpositive, UInt64.le_refl _⟩
  · refine ⟨cutoffAt timestampMs service, ?_, hcutoff.le⟩
    have hwindow : 0 < windowMs service :=
      Nat.div_pos (Nat.le_of_dvd (hwhole hmode).2 (hwhole hmode).1) (by decide)
    have hafter : cutoffAt timestampMs service < timestampMs := by
      have hpos := UInt64.lt_iff_toNat_lt.1 hpositive
      rw [UInt64.lt_iff_toNat_lt, hcutoff]
      change 0 < timestampMs.toNat at hpos
      omega
    rw [List.filter_append, List.filter_singleton, decide_eq_true hafter, cond_true]
    exact hrecords record hrecord
  · exact countP_concat_le (fun restart hmem => (h.past restart hmem).1) hcutoff hroom h.within t
  · exact absurd hnever hmode

/-! ## Calls that schedule no restart -/

/-- No restart of the service is scheduled, and its restart times stay. -/
def QuietFor (name other : String) (old new : RuntimeRecord) : Prop :=
  other = name → Unscheduled old new

theorem quietFor_of_unscheduled (name other : String) (old new : RuntimeRecord)
    (h : Unscheduled old new) : QuietFor name other old new :=
  fun _ => h

theorem quietFor_of_ne {other : String} (hne : other ≠ name) (old new : RuntimeRecord) :
    QuietFor name other old new :=
  fun heq => absurd heq hne

theorem noteScheduled_of_framed (h : Framed (QuietFor name) False s t) :
    noteScheduled name timestampMs s t times = times := by
  unfold noteScheduled
  rw [if_neg]
  intro hnew
  obtain ⟨record, executeAtMs, hrecord, hstate⟩ := hnew.2
  have hrel := h.records name
  rw [hrecord] at hrel
  generalize hold : s.records[name]? = old at hrel
  cases hrel with
  | some hquiet => exact hnew.1 ⟨_, executeAtMs, hold, (hquiet rfl).restartState _ hstate⟩

theorem Budgeted.framed (h : Budgeted name service clock (s, times))
    (hframed : Framed (QuietFor name) False s t) : Budgeted name service clock (t, times) := by
  refine h.of_records fun record hrecord => ?_
  have hrel := hframed.records name
  rw [hrecord] at hrel
  generalize s.records[name]? = old at hrel
  cases hrel with
  | some hquiet => exact ⟨_, rfl, (hquiet rfl).restartTimesMs ▸ List.Sublist.refl _⟩

/-- The services during a call, and what is known of the restarts. -/
structure During (name : String) (services : Services W) (service : ManagedService W)
    (clock : UInt64) (h : RestartHistory W) : Prop where
  services_eq : h.1.services = services
  budgeted : Budgeted name service clock h

variable {services : Services W}

/-! ## Scheduling a restart -/

/-- The budget allows a restart, and the record has its time. -/
structure Pending (name : String) (service : ManagedService W) (timestampMs : UInt64)
    (h : RestartHistory W) : Prop where
  idle : ¬ h.1.RestartScheduled name
  room : (h.2.filter (cutoffAt timestampMs service < ·)).length <
    service.descriptor.restartPolicy.restartBudget.toNat
  recorded : ∃ record, h.1.records[name]? = some record ∧
    (h.2.filter (cutoffAt timestampMs service < ·) ++ [timestampMs]).Sublist record.restartTimesMs

theorem restartScheduled_modify {f : RuntimeRecord → RuntimeRecord}
    (hrecord : s.records[name]? = some record) :
    RestartScheduled name { s with records := s.records.modify name f } ↔
      ∃ executeAtMs, (f record).restartState = .scheduled executeAtMs := by
  unfold RestartScheduled
  dsimp only
  rw [lookup_modify, if_pos rfl, hrecord, Option.map_some]
  constructor
  · intro h
    obtain ⟨found, executeAtMs, heq, hstate⟩ := h
    cases heq
    exact ⟨executeAtMs, hstate⟩
  · intro h
    obtain ⟨executeAtMs, hstate⟩ := h
    exact ⟨_, executeAtMs, rfl, hstate⟩

theorem mem_of_record (h : s.records[name]? = some record) :
    name ∈ s.records := by
  rw [Std.ExtTreeMap.mem_iff_isSome_getElem?, h]
  rfl

/-- The record changes while no restart is scheduled, and has the times that count. -/
theorem wp_change_idle (h : During name services service timestampMs (s, times))
    (hidle : ¬ s.RestartScheduled name) (hrecord : s.records[name]? = some record)
    {f : RuntimeRecord → RuntimeRecord} (hstate : (f record).restartState = record.restartState)
    (htimes : (times.filter (cutoffAt timestampMs service < ·)).Sublist (f record).restartTimesMs)
    {Q : Except SupervisorError Unit → RestartHistory W → Prop}
    (hQ : ∀ t : SupervisorInner W, During name services service timestampMs (t, times) →
      ¬ t.RestartScheduled name → t.records[name]? = some (f record) → Q (.ok ()) (t, times)) :
    (watched (noteScheduled name timestampMs) (changeRecord name f)).wp
      (During name services service timestampMs) Q (s, times) := by
  have hstill : ¬ RestartScheduled name { s with records := s.records.modify name f } := by
    rw [restartScheduled_modify hrecord, hstate]
    intro hscheduled
    obtain ⟨executeAtMs, hscheduled⟩ := hscheduled
    exact hidle ⟨record, executeAtMs, hrecord, hscheduled⟩
  have hfound : (s.records.modify name f)[name]? = some (f record) := by
    rw [lookup_modify, if_pos rfl, hrecord, Option.map_some]
  have hnote : noteScheduled name timestampMs s { s with records := s.records.modify name f } times =
      times :=
    if_neg fun hnew => hstill hnew.2
  have hduring : During name services service timestampMs
      ({ s with records := s.records.modify name f }, times) := by
    refine ⟨h.services_eq, h.budgeted.past, ?_, h.budgeted.within, h.budgeted.never⟩
    intro new hnew
    obtain rfl := Option.some.inj (hfound.symm.trans hnew)
    exact ⟨cutoffAt timestampMs service, htimes, (toNat_cutoff timestampMs service).le⟩
  rw [changeRecord, watched_step, wp_step, if_pos (mem_of_record hrecord)]
  refine ⟨fun q hq => ?_, fun _ hfailed => by cases hfailed⟩
  cases hq
  dsimp only
  rw [hnote]
  exact ⟨hduring, hQ _ hduring hstill hfound⟩

/-- The budget is looked at, and the restart is counted when there is room for it. -/
theorem wp_consumeRestartBudget (h : During name services service timestampMs (s, times))
    (hnamed : service.descriptor.name = name) (hidle : ¬ s.RestartScheduled name)
    (hrecord : s.records[name]? = some record) :
    (watched (noteScheduled name timestampMs) (consumeRestartBudget service timestampMs)).wp
      (During name services service timestampMs)
      (fun r q => During name services service timestampMs q ∧
        ∀ attempt, r = .ok attempt → Pending name service timestampMs q) (s, times) := by
  unfold consumeRestartBudget
  dsimp only
  rw [hnamed, watched_bind, wp_bind]
  have hkept := h.budgeted.kept_now hrecord
  refine wp_change_idle h hidle hrecord rfl hkept fun t ht hidle hrecord => ?_
  -- the record has only the times that count now
  dsimp only
  rw [watched_bind, SupervisorInner.record, watched_read, wp_read_bind]
  dsimp only
  rw [hrecord]
  refine ⟨fun current hcurrent => ?_, fun _ hfailed => by cases hfailed⟩
  cases hcurrent
  split
  next =>
    rw [watched_bind, wp_bind]
    refine wp_change_idle ht hidle hrecord rfl hkept fun u hu _ _ => ?_
    exact wp_fail.2 ⟨hu, fun _ hattempt => by cases hattempt⟩
  next hroom =>
    rw [watched_bind, wp_bind]
    refine wp_change_idle ht hidle hrecord rfl (hkept.trans (List.sublist_append_left _ _))
      fun u hu hidle hrecord => ?_
    refine wp_pure.2 ⟨hu, fun attempt _ => ⟨hidle, ?_, _, hrecord, ?_⟩⟩
    · exact hkept.length_le.trans_lt (Nat.lt_of_not_le hroom)
    · exact hkept.append_right _

theorem Pending.framed (h : Pending name service timestampMs (s, times))
    (hframed : Framed (fun _ => SameRestarts) False s t) :
    Pending name service timestampMs (t, times) := by
  obtain ⟨record, hrecord, htimes⟩ := h.recorded
  have hrel := hframed.records name
  rw [hrecord] at hrel
  generalize hnew : t.records[name]? = new at hrel
  cases hrel with
  | some hsame =>
    refine ⟨?_, h.room, _, hnew, hsame.restartTimesMs ▸ htimes⟩
    intro hscheduled
    obtain ⟨found, executeAtMs, hfound, hstate⟩ := hscheduled
    obtain rfl := Option.some.inj (hnew.symm.trans hfound)
    exact h.idle ⟨record, executeAtMs, hrecord, hsame.restartState ▸ hstate⟩

theorem keeps_pending_jitter (maximum : Duration) :
    Keeps (fun q => During name services service timestampMs q ∧ Pending name service timestampMs q)
      (watched (noteScheduled name timestampMs) (jitter maximum : Call W Duration)) := by
  have hmoves : Moves (Framed (fun _ => SameRestarts) False) (jitter maximum : Call W Duration) :=
    moves_jitter (fun _ _ _ hsame => hsame) maximum
  have hquiet (s t : SupervisorInner W) (hframed : Framed (fun _ => SameRestarts) False s t) :
      Framed (QuietFor name) False s t :=
    hframed.imp fun _ _ _ hsame _ => hsame.unscheduled
  refine (hmoves.watched fun s t times hframed => noteScheduled_of_framed (hquiet s t hframed)).keeps ?_
  intro p q hp hmove
  obtain ⟨s, times⟩ := p
  obtain ⟨t, more⟩ := q
  obtain ⟨hframed, hsame⟩ := hmove
  dsimp only at hframed hsame
  subst hsame
  obtain ⟨hduring, hpending⟩ := hp
  exact ⟨⟨hframed.services.trans hduring.services_eq, hduring.budgeted.framed (hquiet s t hframed)⟩,
    hpending.framed hframed⟩

/-- A restart is not active when the service is not quarantined and has none. -/
theorem wp_restartIsActive {C : RestartHistory W → Prop}
    {Q : Except SupervisorError Bool → RestartHistory W → Prop}
    (hactive : ∀ record active, s.records[name]? = some record →
      (active = false → record.quarantined = false ∧ ¬ s.RestartScheduled name) →
        Q (.ok active) (s, times))
    (herror : ∀ e, Q (.error e) (s, times)) :
    (watched (noteScheduled name timestampMs) (restartIsActive name)).wp C Q (s, times) := by
  rw [restartIsActive, watched_bind, SupervisorInner.record, watched_read, wp_read_bind]
  refine ⟨fun record hrecord => ?_, fun e _ => herror e⟩
  have hfound : s.records[name]? = some record := by
    split at hrecord
    · cases hrecord
    next found hfound =>
      cases hrecord
      exact hfound
  refine wp_pure.2 (hactive record _ hfound fun hinactive => ?_)
  obtain ⟨hquarantined, hnone⟩ := Bool.or_eq_false_iff.1 hinactive
  refine ⟨hquarantined, fun hscheduled => ?_⟩
  obtain ⟨other, executeAtMs, hother, hstate⟩ := hscheduled
  obtain rfl := Option.some.inj (hfound.symm.trans hother)
  rw [hstate] at hnone
  cases hnone

/-- The restart that is pending is scheduled and written down. -/
theorem wp_schedule_pending (hwhole : WholeWindow service) (hpositive : 0 < timestampMs)
    (hmode : service.descriptor.restartPolicy.mode ≠ .never)
    (h : During name services service timestampMs (s, times))
    (hpending : Pending name service timestampMs (s, times)) (executeAtMs : UInt64) :
    (watched (noteScheduled name timestampMs) (changeRecord name fun record => { record with
      restartState := .scheduled executeAtMs
      runtimeState := .restartScheduled })).wp (During name services service timestampMs)
      (fun _ q => During name services service timestampMs q) (s, times) := by
  obtain ⟨record, hrecord, htimes⟩ := hpending.recorded
  rw [changeRecord, watched_step, wp_step, if_pos (mem_of_record hrecord)]
  refine ⟨fun q hq => ?_, fun _ hfailed => by cases hfailed⟩
  cases hq
  have hscheduled := (restartScheduled_modify (f := fun record => { record with
    restartState := .scheduled executeAtMs
    runtimeState := .restartScheduled }) hrecord).2 ⟨executeAtMs, rfl⟩
  have hnote : noteScheduled name timestampMs s { s with
      records := s.records.modify name fun record => { record with
        restartState := .scheduled executeAtMs
        runtimeState := .restartScheduled } } times = times ++ [timestampMs] :=
    if_pos ⟨hpending.idle, hscheduled⟩
  have hduring : During name services service timestampMs
      ({ s with records := s.records.modify name fun record => { record with
          restartState := .scheduled executeAtMs
          runtimeState := .restartScheduled } }, times ++ [timestampMs]) := by
    refine ⟨h.services_eq, h.budgeted.concat hwhole hpositive hmode hpending.room ?_⟩
    intro new hnew
    dsimp only at hnew
    rw [lookup_modify, if_pos rfl, hrecord, Option.map_some, Option.some.injEq] at hnew
    rw [← hnew]
    exact htimes
  dsimp only
  rw [hnote]
  exact ⟨hduring, hduring⟩

/-- **A restart is scheduled within the budget.** -/
theorem keeps_scheduleRestart_own (hwhole : WholeWindow service)
    (hnamed : service.descriptor.name = name) (hpositive : 0 < timestampMs) :
    Keeps (During name services service timestampMs)
      (watched (noteScheduled name timestampMs) (scheduleRestart service timestampMs)) := by
  intro p hp
  obtain ⟨s, times⟩ := p
  unfold scheduleRestart
  dsimp only
  rw [hnamed]
  split
  · exact keeps_pure () _ hp
  next hmode =>
    rw [watched_bind, wp_bind]
    refine wp_restartIsActive (fun record active hrecord hinactive => ?_) fun _ => hp
    cases active with
    | true => exact keeps_pure () _ hp
    | false =>
      dsimp only
      rw [if_neg Bool.false_ne_true, watched_bind, wp_bind]
      have hconsume := wp_consumeRestartBudget hp hnamed (hinactive rfl).2 hrecord
      refine wp_mono hconsume (fun _ => id) fun r q hq => ?_
      obtain ⟨hduring, hpending⟩ := hq
      cases r with
      | error e => exact hduring
      | ok attempt =>
        dsimp only
        rw [watched_bind, wp_bind]
        refine wp_mono (keeps_pending_jitter _ q ⟨hduring, hpending attempt rfl⟩)
          (fun _ => And.left) fun r q hq => ?_
        cases r with
        | error e => exact hq.1
        | ok jitter => exact wp_schedule_pending hwhole hpositive hmode hq.1 hq.2 _

end

end AppCore.Supervisor
