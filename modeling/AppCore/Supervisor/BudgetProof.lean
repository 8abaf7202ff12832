import AppCore.Supervisor.Budget

/-!
# The restart budget bounds the restarts

* `restart_budget` — when the restart windows are whole milliseconds, no window has more restarts than
  the budget; a service that is quarantined is not restarted again, and one with the mode `never` is
  not restarted at all.

A call keeps an invariant when its quiet steps do and the scheduling of a restart of the service itself
does (`Steady`, `KeptByRestart`). There are three of them: the service is not registered, its restarts
are in the budget (`During`), or it is quarantined (`Retired`).
-/

namespace AppCore.Supervisor

open Prog SupervisorInner

variable {W : Type}

section

variable {name : String} {service : ManagedService W} {clock timestampMs : UInt64}
  {s : SupervisorInner W} {times : List UInt64} {services : Services W}

/-! ## Invariants of the calls -/

/-- An invariant that quiet steps keep, while the services are as they are. -/
structure Steady (name : String) (services : Services W) (I : RestartHistory W → Prop) : Prop where
  services_eq : ∀ h, I h → h.1.services = services
  quiet : ∀ s t times, I (s, times) → Framed (QuietFor name) False s t → I (t, times)

/-- The restart of the service itself keeps the invariant. -/
def KeptByRestart (name : String) (services : Services W) (I : RestartHistory W → Prop)
    (timestampMs : UInt64) : Prop :=
  ∀ service, services.map[name]? = some service →
    Keeps I (watched (noteScheduled name timestampMs) (scheduleRestart service timestampMs))

variable {I : RestartHistory W → Prop}

theorem Steady.keeps {α : Type} (hI : Steady name services I) {call : Call W α}
    (h : Moves (Framed (QuietFor name) False) call) :
    Keeps I (watched (noteScheduled name timestampMs) call) := by
  refine (h.watched fun s t times hframed => noteScheduled_of_framed hframed).keeps ?_
  intro p q hp hmove
  obtain ⟨s, times⟩ := p
  obtain ⟨t, more⟩ := q
  obtain ⟨hframed, hsame⟩ := hmove
  dsimp only at hframed hsame
  subst hsame
  exact hI.quiet s t more hp hframed

theorem quietFor_of_same (name other : String) (old new : RuntimeRecord)
    (h : SameRestarts old new) : QuietFor name other old new :=
  fun _ => h.unscheduled

theorem Steady.keeps_scheduleRestart (hI : Steady name services I)
    (hown : KeptByRestart name services I timestampMs) {other : String}
    (hservice : services.map[other]? = some service) :
    Keeps I (watched (noteScheduled name timestampMs) (scheduleRestart service timestampMs)) := by
  have hnamed := services.named other service hservice
  by_cases hname : other = name
  · exact hown service (hname ▸ hservice)
  · refine hI.keeps (moves_scheduleRestart (quietFor_of_same name) ?_ timestampMs)
    exact quietFor_of_ne (hnamed ▸ hname)

theorem Steady.keeps_service_bind (hI : Steady name services I) {α : Type} {other : String}
    {f : ManagedService W → Call W α}
    (hf : ∀ service, services.map[other]? = some service →
      Keeps I (watched (noteScheduled name timestampMs) (f service))) :
    Keeps I (watched (noteScheduled name timestampMs) (SupervisorInner.service other >>= f)) := by
  intro p hp
  rw [watched_bind, SupervisorInner.service, watched_read, wp_read_bind]
  refine ⟨fun service hservice => hf service ?_ p hp, fun _ _ => hp⟩
  rw [hI.services_eq p hp] at hservice
  split at hservice
  · cases hservice
  next found hfound =>
    cases hservice
    exact hfound

theorem Steady.keeps_reconcileService (hI : Steady name services I)
    (hown : KeptByRestart name services I timestampMs) (other : String) :
    Keeps I (watched (noteScheduled name timestampMs) (reconcileService timestampMs other)) := by
  refine hI.keeps_service_bind fun service hservice => ?_
  split
  · exact keeps_pure ()
  · rw [watched_bind]
    refine keeps_bind (hI.keeps (moves_firstUnavailable (quietFor_of_same name) _)) fun found => ?_
    cases found with
    | some dependency =>
      refine hI.keeps (moves_bind (moves_ask (quietFor_of_same name) _) fun _ => ?_)
      exact moves_bind (moves_updateRecord (quietFor_of_same name) _ _ _) fun _ => moves_pure ()
    | none =>
      dsimp only
      rw [watched_bind]
      refine keeps_bind (hI.keeps (moves_health (quietFor_of_same name) service)) fun health => ?_
      rw [watched_bind]
      refine keeps_bind (hI.keeps (moves_ask (quietFor_of_same name) _)) fun runtimeState => ?_
      rw [watched_bind]
      refine keeps_bind (hI.keeps (moves_updateRecord (quietFor_of_same name) _ _ _)) fun _ => ?_
      split
      · rw [watched_bind, watched_attempt]
        refine keeps_bind (keeps_attempt (hI.keeps_scheduleRestart hown hservice)) fun r => ?_
        cases r with
        | error error =>
          cases error with
          | restartBudgetExceeded service => exact keeps_pure ()
          | _ => exact keeps_fail _
        | ok u => exact keeps_pure ()
      · exact keeps_pure ()

theorem Steady.keeps_reconcile (hI : Steady name services I)
    (hown : KeptByRestart name services I timestampMs) :
    Keeps I (watched (noteScheduled name timestampMs) (reconcile timestampMs)) := by
  rw [reconcile, watched_bind]
  refine keeps_bind (hI.keeps (moves_applyRestartCompletions (quietFor_of_unscheduled name)))
    fun _ => ?_
  rw [watched_bind]
  refine keeps_bind (hI.keeps (moves_read _)) fun order => ?_
  rw [watched_bind, watched_each]
  refine keeps_bind (keeps_each order fun other _ => hI.keeps_reconcileService hown other)
    fun _ => ?_
  exact hI.keeps (moves_dispatchDueRestarts (quietFor_of_unscheduled name) timestampMs)

theorem Steady.keeps_restart (hI : Steady name services I)
    (hown : KeptByRestart name services I timestampMs) (other : String) :
    Keeps I (watched (noteScheduled name timestampMs) (restart other timestampMs)) := by
  refine hI.keeps_service_bind fun service hservice => ?_
  rw [watched_bind]
  refine keeps_bind (hI.keeps (moves_requireDependencies (quietFor_of_same name) service))
    fun _ => ?_
  exact hI.keeps_scheduleRestart hown hservice

/-- A step that registers nothing keeps an invariant of the calls. -/
theorem Steady.step (hI : Steady name services I) {event : SupervisorStep W} {h h' : RestartHistory W}
    (hown : ∀ timestampMs, event.timestamp = some timestampMs →
      KeptByRestart name services I timestampMs)
    (hevent : event.registered = none) (hh : I h) (hstep : restartStep name h event = some h') :
    I h' := by
  obtain ⟨s, times⟩ := h
  -- a call whose steps are quiet, and that is not watched
  have hcall : ∀ call : Call W Unit, Moves (Framed (QuietFor name) False) call →
      I (call.final s, times) := fun call hcall => hI.quiet s _ times hh <|
    hcall.final (fun _ => Framed.rfl' fun _ _ _ => (SameRestarts.rfl' _).unscheduled)
      (fun _ _ _ => Framed.trans fun _ _ _ _ hfirst hsecond hname =>
        (hfirst hname).trans (hsecond hname)) s
  have hworker : ∀ t : SupervisorInner W, t.services = s.services → t.records = s.records →
      I (t, times) := fun t hservices hrecords => hI.quiet s t times hh <|
    framed_of_eq (fun _ _ _ => (SameRestarts.rfl' _).unscheduled) hservices hrecords
  cases event with
  | register service => cases hevent
  | registerOrReplaceInactive service => cases hevent
  | start other =>
    cases hstep
    exact hcall _ (moves_start (quietFor_of_same name) other)
  | reconcile timestampMs =>
    cases hstep
    exact (hI.keeps_reconcile (hown timestampMs rfl)).final hh
  | restart other timestampMs =>
    cases hstep
    exact (hI.keeps_restart (hown timestampMs rfl) other).final hh
  | stop other =>
    cases hstep
    exact hcall _ (moves_stop (quietFor_of_unscheduled name) other)
  | takeCommand =>
    obtain ⟨t, ht, rfl⟩ := Option.map_eq_some_iff.1 hstep
    obtain ⟨hservices, hrecords⟩ := takeCommand_frame ht
    exact hworker t hservices hrecords
  | worker index =>
    obtain ⟨t, ht, rfl⟩ := Option.map_eq_some_iff.1 hstep
    obtain ⟨hservices, hrecords⟩ := workerStep_frame ht
    exact hworker t hservices hrecords
  | environment world =>
    cases hstep
    exact hworker _ rfl rfl

variable {event : SupervisorStep W}

/-- A registration succeeds with a valid service, or changes nothing. -/
theorem restartStep_registered {h h' : RestartHistory W} (hevent : event.registered = some service)
    (hstep : restartStep name h event = some h') :
    (service.descriptor.validate = .ok () ∧
      registers name h.1 event = decide (service.descriptor.name = name) ∧
      h' = (h.1.enrolled service, if service.descriptor.name = name then [] else h.2)) ∨ h' = h := by
  cases event with
  | register other =>
    cases hevent
    cases hstep
    dsimp only [registers]
    rcases register_cases service h.1 with ⟨hok, hvalid, hfinal⟩ | ⟨hfailed, hfinal⟩
    · refine Or.inl ⟨hvalid, ?_, ?_⟩
      · simp only [hok, and_true]
      · simp only [hok, hfinal, and_true, decide_eq_true_eq]
    · refine Or.inr ?_
      simp only [hfailed, hfinal, Bool.false_eq_true, and_false, decide_false, if_false]
  | registerOrReplaceInactive other =>
    cases hevent
    cases hstep
    dsimp only [registers]
    rcases registerOrReplaceInactive_cases service h.1 with ⟨hok, hvalid, hfinal⟩ | ⟨hfailed, hfinal⟩
    · refine Or.inl ⟨hvalid, ?_, ?_⟩
      · simp only [hok, and_true]
      · simp only [hok, hfinal, and_true, decide_eq_true_eq]
    · refine Or.inr ?_
      simp only [hfailed, hfinal, Bool.false_eq_true, and_false, decide_false, if_false]
  | _ => cases hevent

/-! ## Quarantine -/

theorem quarantined_framed {t : SupervisorInner W} (h : Quarantined name s)
    (hframed : Framed (QuietFor name) False s t) : Quarantined name t := by
  obtain ⟨record, hrecord, hquarantined⟩ := h
  have hrel := hframed.records name
  rw [hrecord] at hrel
  unfold Quarantined
  generalize t.records[name]? = new at hrel ⊢
  cases hrel with
  | some hquiet => exact ⟨_, rfl, (hquiet rfl).quarantined hquarantined⟩

/-- A service is quarantined, and nothing is written down. -/
structure Retired (name : String) (services : Services W) (times : List UInt64)
    (h : RestartHistory W) : Prop where
  services_eq : h.1.services = services
  quarantined : Quarantined name h.1
  times_eq : h.2 = times

theorem steady_retired : Steady name services (Retired name services times) :=
  ⟨fun _ h => h.services_eq, fun _ _ _ h hframed =>
    ⟨hframed.services.trans h.services_eq, quarantined_framed h.quarantined hframed, h.times_eq⟩⟩

theorem keptByRestart_retired : KeptByRestart name services (Retired name services times)
    timestampMs := by
  intro service hservice h hh
  obtain ⟨s, more⟩ := h
  have hnamed := services.named name service hservice
  unfold scheduleRestart
  dsimp only
  rw [hnamed]
  split
  · exact keeps_pure () _ hh
  · rw [watched_bind, wp_bind]
    refine wp_restartIsActive (fun record active hrecord hinactive => ?_) fun _ => hh
    cases active with
    | true => exact keeps_pure () _ hh
    | false =>
      obtain ⟨other, hother, hquarantined⟩ := hh.quarantined
      obtain rfl := Option.some.inj (hrecord.symm.trans hother)
      rw [(hinactive rfl).1] at hquarantined
      cases hquarantined

/-- A step that does not register the service leaves the quarantine as it is. -/
theorem retired_step {p q : RestartHistory W} (hp : Quarantined name p.1 ∧ p.2 = times)
    (hevent : registers name p.1 event = false) (hstep : restartStep name p event = some q) :
    Quarantined name q.1 ∧ q.2 = times := by
  cases hregistered : event.registered with
  | none =>
    have hretired : Retired name p.1.services times q :=
      steady_retired.step (fun _ _ => keptByRestart_retired) hregistered ⟨rfl, hp.1, hp.2⟩ hstep
    exact ⟨hretired.quarantined, hretired.times_eq⟩
  | some service =>
    rcases restartStep_registered hregistered hstep with ⟨-, hname, rfl⟩ | rfl
    · rw [hevent] at hname
      have hne : ¬ service.descriptor.name = name := of_decide_eq_false hname.symm
      refine ⟨?_, (if_neg hne).trans hp.2⟩
      unfold Quarantined enrolled
      dsimp only
      rw [lookup_insert, if_neg hne]
      exact hp.1
    · exact hp

theorem staysQuarantined (h : RestartHistory W) : StaysQuarantined name h := by
  intro steps h' hstart hsteps hrun
  have hstays : Throughout (restartStep name)
      (fun p : RestartHistory W => Quarantined name p.1 ∧ p.2 = h.2) h steps := by
    refine throughout_of_step ⟨hstart, rfl⟩ ?_ hsteps
    intro p event q hp hevent hstep
    exact retired_step hp hevent hstep
  exact (hstays.final hrun).2

/-! ## Runs -/

/-- What holds up to a time. -/
def KeptUpTo (name : String) (clock : UInt64) (h : RestartHistory W) : Prop :=
  match h.1.services.map[name]? with
  | none => h.2 = []
  | some service => WholeWindow service ∧ Budgeted name service clock h

variable {h : RestartHistory W}

theorem KeptUpTo.later (hkept : KeptUpTo name clock h) (hle : clock ≤ timestampMs) :
    KeptUpTo name timestampMs h := by
  unfold KeptUpTo at hkept ⊢
  split at hkept
  · exact hkept
  · exact ⟨hkept.1, hkept.2.later hle⟩

theorem steady_unregistered : Steady name services
    (fun h : RestartHistory W => h.1.services = services ∧ h.2 = []) :=
  ⟨fun _ h => h.1, fun _ _ _ h hframed => ⟨hframed.services.trans h.1, h.2⟩⟩

theorem keptByRestart_unregistered (hnone : services.map[name]? = none) :
    KeptByRestart name services I timestampMs := by
  intro service hservice
  rw [hnone] at hservice
  cases hservice

theorem steady_during : Steady name services (During name services service clock) :=
  ⟨fun _ h => h.services_eq, fun _ _ _ h hframed =>
    ⟨hframed.services.trans h.services_eq, h.budgeted.framed hframed⟩⟩

/-- A call that is made now keeps what holds. -/
theorem KeptUpTo.step {event : SupervisorStep W} {h h' : RestartHistory W}
    (hkept : KeptUpTo name clock h)
    (hnow : ∀ timestampMs, event.timestamp = some timestampMs → timestampMs = clock ∧ 0 < clock)
    (hevent : event.registered = none) (hstep : restartStep name h event = some h') :
    KeptUpTo name clock h' := by
  unfold KeptUpTo at hkept
  split at hkept
  next hnone =>
    have hstays : h'.1.services = h.1.services ∧ h'.2 = [] :=
      steady_unregistered.step (fun _ _ => keptByRestart_unregistered hnone) hevent
        ⟨rfl, hkept⟩ hstep
    unfold KeptUpTo
    rw [hstays.1, hnone]
    exact hstays.2
  next service hservice =>
    have hduring : During name h.1.services service clock h' := by
      refine steady_during.step (fun timestampMs htimestamp => ?_) hevent ⟨rfl, hkept.2⟩ hstep
      obtain ⟨rfl, hpositive⟩ := hnow timestampMs htimestamp
      intro other hother
      obtain rfl := Option.some.inj (hservice.symm.trans hother)
      exact keeps_scheduleRestart_own hkept.1 (h.1.services.named name service hservice) hpositive
    unfold KeptUpTo
    rw [hduring.services_eq, hservice]
    exact ⟨hkept.1, hduring.budgeted⟩

/-- A registration starts anew. -/
theorem KeptUpTo.registered {h h' : RestartHistory W} (hkept : KeptUpTo name clock h)
    (hevent : event.registered = some service)
    (hwhole : service.descriptor.name = name → service.descriptor.restartPolicy.mode ≠ .never →
      10 ^ 6 ∣ service.descriptor.restartPolicy.restartWindow)
    (hstep : restartStep name h event = some h') : KeptUpTo name clock h' := by
  rcases restartStep_registered hevent hstep with ⟨hvalid, -, rfl⟩ | rfl
  · unfold KeptUpTo enrolled Services.insert
    dsimp only
    rw [lookup_insert]
    by_cases hname : service.descriptor.name = name
    · rw [if_pos hname, if_pos hname]
      refine ⟨fun hmode => ⟨hwhole hname hmode, ?_⟩, nofun, fun record hrecord => ?_, fun t => ?_,
        fun _ => rfl⟩
      · obtain ⟨_, -, hpolicy⟩ := bind_eq_ok.1 hvalid
        unfold RestartPolicy.validate at hpolicy
        split at hpolicy
        · cases hpolicy
        next hwindow =>
          refine Nat.pos_of_ne_zero fun hzero => hwindow ⟨hmode, Or.inr hzero⟩
      · exact ⟨0, List.nil_sublist _, Nat.zero_le _⟩
      · exact Nat.zero_le _
    · rw [if_neg hname, if_neg hname]
      unfold KeptUpTo at hkept
      split at hkept
      · exact hkept
      · refine ⟨hkept.1, hkept.2.of_records fun record hrecord => ?_⟩
        dsimp only at hrecord
        rw [lookup_insert, if_neg hname] at hrecord
        exact ⟨record, hrecord, List.Sublist.refl _⟩
  · exact hkept

theorem Timed.of_append {before after : List (SupervisorStep W)} (h : Timed (before ++ after)) :
    Timed before := by
  obtain ⟨hordered, hpositive⟩ := h
  rw [List.filterMap_append] at hordered hpositive
  exact ⟨(List.pairwise_append.1 hordered).1,
    fun timestampMs hmem => hpositive timestampMs (List.mem_append_left _ hmem)⟩

theorem WholeWindows.of_append {before after : List (SupervisorStep W)}
    (h : WholeWindows name (before ++ after)) : WholeWindows name before := by
  unfold WholeWindows at h ⊢
  rw [List.filterMap_append] at h
  exact fun service hmem => h service (List.mem_append_left _ hmem)

/-- Every run keeps what holds up to a time that no call comes after. -/
theorem keptUpTo_run {createdAtMs : UInt64} {world : W} {steps : List (SupervisorStep W)}
    (htimed : Timed steps) (hwhole : WholeWindows name steps)
    (hrun : runFrom (restartStep name) (.new createdAtMs world, []) steps = some h)
    (hclock : ∀ timestampMs ∈ steps.filterMap SupervisorStep.timestamp, timestampMs ≤ clock) :
    KeptUpTo name clock h := by
  induction steps using List.reverseRecOn generalizing h clock with
  | nil =>
    cases hrun
    unfold KeptUpTo SupervisorInner.new Services.empty
    dsimp only
    rw [Std.ExtTreeMap.getElem?_empty]
  | append_singleton steps event ih =>
    obtain ⟨mid, hmid, hstep⟩ := runFrom_concat_eq_some.1 hrun
    have hbefore {clock : UInt64} (hclock : ∀ timestampMs ∈
        steps.filterMap SupervisorStep.timestamp, timestampMs ≤ clock) :
        KeptUpTo name clock mid :=
      ih htimed.of_append hwhole.of_append hmid hclock
    rw [List.filterMap_append] at hclock
    cases hregistered : event.registered with
    | some service =>
      have hlast : service ∈ (steps ++ [event]).filterMap SupervisorStep.registered :=
        List.mem_filterMap.2 ⟨event, List.mem_append_right _ (List.mem_singleton_self event),
          hregistered⟩
      refine (hbefore ?_).registered hregistered (hwhole service hlast) hstep
      exact fun timestampMs hmem => hclock timestampMs (List.mem_append_left _ hmem)
    | none =>
      cases htimestamp : event.timestamp with
      | none =>
        refine (hbefore ?_).step (fun timestampMs hnow => ?_) hregistered hstep
        · exact fun timestampMs hmem => hclock timestampMs (List.mem_append_left _ hmem)
        · rw [htimestamp] at hnow
          cases hnow
      | some timestampMs =>
        -- the present is the time of the call
        have hlast : timestampMs ∈ [event].filterMap SupervisorStep.timestamp :=
          List.mem_filterMap.2 ⟨event, List.mem_singleton_self event, htimestamp⟩
        obtain ⟨hordered, hpositive⟩ := htimed
        rw [List.filterMap_append] at hordered hpositive
        have hnow : KeptUpTo name timestampMs mid := hbefore fun earlier hmem =>
          (List.pairwise_append.1 hordered).2.2 earlier hmem timestampMs hlast
        refine KeptUpTo.later (hnow.step (fun other hother => ?_) hregistered hstep)
          (hclock timestampMs (List.mem_append_right _ hlast))
        rw [htimestamp] at hother
        cases hother
        exact ⟨rfl, hpositive timestampMs (List.mem_append_right _ hlast)⟩

theorem KeptUpTo.withinBudget (hkept : KeptUpTo name clock h) :
    WithinBudget name h := by
  intro service hservice t
  unfold KeptUpTo at hkept
  rw [hservice] at hkept
  obtain ⟨hwhole, hbudgeted⟩ := hkept
  by_cases hmode : service.descriptor.restartPolicy.mode = .never
  · rw [hbudgeted.never hmode]
    exact Nat.zero_le _
  · refine le_trans (List.countP_mono_left fun restart _ hrestart => ?_)
      (hbudgeted.within (t / 10 ^ 6))
    obtain ⟨hafter, hbefore⟩ := of_decide_eq_true hrestart
    have hwindow := Nat.div_mul_cancel (hwhole hmode).1
    refine decide_eq_true ⟨?_, (Nat.le_div_iff_mul_le (by decide)).2 hbefore⟩
    rw [Nat.div_lt_iff_lt_mul (by decide), Nat.add_mul]
    unfold windowMs
    rwa [hwindow]

theorem KeptUpTo.neverRestarted (hkept : KeptUpTo name clock h) :
    NeverRestarted name h := by
  intro service hservice hnever
  unfold KeptUpTo at hkept
  rw [hservice] at hkept
  exact hkept.2.never hnever

end

/-- **The restart budget bounds the restarts** in every run in which the restart windows are whole
milliseconds. -/
theorem restart_budget (name : String) (createdAtMs : UInt64) (world : W)
    (steps : List (SupervisorStep W)) (htimed : Timed steps) (hwhole : WholeWindows name steps) :
    Throughout (restartStep name) (BoundedRestarts name) (.new createdAtMs world, []) steps := by
  intro before after h heq hrun
  subst heq
  have hkept : KeptUpTo name (UInt64.ofNat (2 ^ 64 - 1)) h := by
    refine keptUpTo_run htimed.of_append hwhole.of_append hrun fun timestampMs _ => ?_
    rw [UInt64.le_iff_toNat_le]
    exact Nat.le_pred_of_lt timestampMs.toNat_lt
  exact ⟨hkept.withinBudget, hkept.neverRestarted, staysQuarantined h⟩

/-! ### Runs -/

/-- A service with a budget of one restart. -/
def frugalService (restartWindow : Duration) : ManagedService ServiceHealth :=
  passiveService (.new "worker" { RestartPolicy.default with
    restartBudget := 1, restartWindow, backoff := 0, jitter := 0 })

/-- The service is restarted, and again as soon as the restart is done. -/
def restartTwice (restartWindow : Duration) : List (SupervisorStep ServiceHealth) :=
  [.register (frugalService restartWindow), .restart "worker" 100, .reconcile 100, .takeCommand,
    .worker 0, .worker 0, .worker 0, .reconcile 100, .restart "worker" 100]

/-- Where the run ends. -/
def restartedTwice (restartWindow : Duration) : RestartHistory ServiceHealth :=
  (runFrom (restartStep "worker") (.new 1 .unknown, []) (restartTwice restartWindow)).getD
    (.new 1 .unknown, [])

theorem timed_restartTwice (restartWindow : Duration) : Timed (restartTwice restartWindow) := by
  have htimes : (restartTwice restartWindow).filterMap SupervisorStep.timestamp =
      [100, 100, 100, 100] := rfl
  constructor
  · rw [htimes]
    simp
  · rw [htimes]
    simp

theorem restart_budget_sample : Throughout (restartStep "worker") (BoundedRestarts "worker")
    (.new 1 .unknown, []) (restartTwice (10 ^ 6)) :=
  restart_budget "worker" 1 .unknown (restartTwice (10 ^ 6)) (timed_restartTwice _) (by
    unfold WholeWindows
    decide)

/-- Half a millisecond is no time, and two restarts in it are one too many. -/
theorem budget_exceeded :
    Timed (restartTwice 500000) ∧
    ¬ Throughout (restartStep "worker") (BoundedRestarts "worker") (.new 1 .unknown, [])
      (restartTwice 500000) := by
  refine ⟨timed_restartTwice _, fun h => ?_⟩
  have hrun : runFrom (restartStep "worker") (.new 1 .unknown, []) (restartTwice 500000) =
      some (restartedTwice 500000) := by
    have hsome : (runFrom (restartStep "worker") (.new 1 .unknown, [])
        (restartTwice 500000)).isSome = true := by decide +kernel
    obtain ⟨h, hh⟩ := Option.isSome_iff_exists.1 hsome
    rw [restartedTwice, hh, Option.getD_some]
  have hpolicy : ((restartedTwice 500000).1.services.map["worker"]?.map fun service =>
      service.descriptor.restartPolicy) = some (frugalService 500000).descriptor.restartPolicy := by
    decide +kernel
  obtain ⟨service, hservice, hpolicy⟩ := Option.map_eq_some_iff.1 hpolicy
  have hwithin := (h.final hrun).within service hservice (100 * 10 ^ 6)
  have htimes : (restartedTwice 500000).2 = [100, 100] := by decide +kernel
  rw [hpolicy, htimes] at hwithin
  exact absurd hwithin (by decide)

end AppCore.Supervisor
